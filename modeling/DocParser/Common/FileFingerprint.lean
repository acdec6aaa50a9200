import DocParser.Lib.Sha256

/-!
# The fingerprint of a file

`Sha256` hashes the bytes of a file as they are read. It holds the bytes of a block that is not
full yet, and pads over one or two blocks in the end. `fingerprint_correct`: however the bytes are
split, the digest is that of the standard.
-/

namespace DocParser

open Fips180

def kRoundConstants : List Word := [
  0x428a2f98, 0x71374491, 0xb5c0fbcf, 0xe9b5dba5, 0x3956c25b, 0x59f111f1, 0x923f82a4, 0xab1c5ed5,
  0xd807aa98, 0x12835b01, 0x243185be, 0x550c7dc3, 0x72be5d74, 0x80deb1fe, 0x9bdc06a7, 0xc19bf174,
  0xe49b69c1, 0xefbe4786, 0x0fc19dc6, 0x240ca1cc, 0x2de92c6f, 0x4a7484aa, 0x5cb0a9dc, 0x76f988da,
  0x983e5152, 0xa831c66d, 0xb00327c8, 0xbf597fc7, 0xc6e00bf3, 0xd5a79147, 0x06ca6351, 0x14292967,
  0x27b70a85, 0x2e1b2138, 0x4d2c6dfc, 0x53380d13, 0x650a7354, 0x766a0abb, 0x81c2c92e, 0x92722c85,
  0xa2bfe8a1, 0xa81a664b, 0xc24b8b70, 0xc76c51a3, 0xd192e819, 0xd6990624, 0xf40e3585, 0x106aa070,
  0x19a4c116, 0x1e376c08, 0x2748774c, 0x34b0bcb5, 0x391c0cb3, 0x4ed8aa4a, 0x5b9cca4f, 0x682e6ff3,
  0x748f82ee, 0x78a5636f, 0x84c87814, 0x8cc70208, 0x90befffa, 0xa4506ceb, 0xbef9a3f7, 0xc67178f2]

def rotateRight (value : Word) (bits : Nat) : Word := (value >>> bits) ||| (value <<< (32 - bits))

/-! ## Blocks -/

/-- The word of four bytes from an offset on. -/
def readWord (block : List Byte) (offset : Nat) : Word :=
  ((block.getD offset 0).setWidth 32 <<< 24) ||| ((block.getD (offset + 1) 0).setWidth 32 <<< 16) |||
    ((block.getD (offset + 2) 0).setWidth 32 <<< 8) ||| (block.getD (offset + 3) 0).setWidth 32

/-- The word at an index from 16 on. -/
def extendWords (words : List Word) (index : Nat) : List Word :=
  let word (back : Nat) := words.getD (index - back) 0
  let s0 := rotateRight (word 15) 7 ^^^ rotateRight (word 15) 18 ^^^ (word 15 >>> 3)
  let s1 := rotateRight (word 2) 17 ^^^ rotateRight (word 2) 19 ^^^ (word 2 >>> 10)
  words ++ [word 16 + s0 + word 7 + s1]

def blockWords (block : List Byte) : List Word :=
  (List.range' 16 48).foldl extendWords ((List.range 16).map fun index => readWord block (index * 4))

def transformRound (words : List Word) (v : Words) (index : Nat) : Words :=
  let sum1 := rotateRight v.e 6 ^^^ rotateRight v.e 11 ^^^ rotateRight v.e 25
  let choose := (v.e &&& v.f) ^^^ (~~~v.e &&& v.g)
  let first := v.h + sum1 + choose + kRoundConstants.getD index 0 + words.getD index 0
  let sum0 := rotateRight v.a 2 ^^^ rotateRight v.a 13 ^^^ rotateRight v.a 22
  let majority := (v.a &&& v.b) ^^^ (v.a &&& v.c) ^^^ (v.b &&& v.c)
  let second := sum0 + majority
  { h := v.g, g := v.f, f := v.e, e := v.d + first, d := v.c, c := v.b, b := v.a,
    a := first + second }

def transform (state : Words) (block : List Byte) : Words :=
  let v := (List.range 64).foldl (transformRound (blockWords block)) state
  { a := state.a + v.a, b := state.b + v.b, c := state.c + v.c, d := state.d + v.d
    e := state.e + v.e, f := state.f + v.f, g := state.g + v.g, h := state.h + v.h }

/-! ## The hash object -/

/-- Outside of its functions the block is never full. -/
structure Sha256 where
  state : Words
  block : List Byte
  blockSize : Nat
  totalSize : BitVec 64
  block_length : block.length = 64
  blockSize_lt : blockSize < 64

def Sha256.initial : Sha256 where
  state := ⟨0x6a09e667, 0xbb67ae85, 0x3c6ef372, 0xa54ff53a, 0x510e527f, 0x9b05688c, 0x1f83d9ab,
    0x5be0cd19⟩
  block := List.replicate 64 0
  blockSize := 0
  totalSize := 0
  block_length := List.length_replicate
  blockSize_lt := by decide

/-- The block after the copy of some bytes to its end. -/
def copyBytes (block : List Byte) (blockSize : Nat) (bytes : List Byte) : List Byte :=
  block.take blockSize ++ bytes ++ block.drop (blockSize + bytes.length)

theorem copyBytes_length {block bytes : List Byte} {blockSize : Nat} (hblock : block.length = 64)
    (hbytes : blockSize + bytes.length ≤ 64) : (copyBytes block blockSize bytes).length = 64 := by
  unfold copyBytes
  rw [List.length_append, List.length_append, List.length_take, List.length_drop, hblock]
  omega

/-- The loop of `update`: it fills the block, and hashes it when it is full. -/
def Sha256.updateLoop (s : Sha256) (data : List Byte) : Sha256 :=
  if hdata : data = [] then s
  else
    let bytes := data.take (64 - s.blockSize)
    have hbytes : s.blockSize + bytes.length ≤ 64 := by
      have := s.blockSize_lt
      rw [List.length_take]
      omega
    let block := copyBytes s.block s.blockSize bytes
    have hblock : block.length = 64 := copyBytes_length s.block_length hbytes
    if hfull : s.blockSize + bytes.length = 64 then
      updateLoop ⟨transform s.state block, block, 0, s.totalSize, hblock, by decide⟩
        (data.drop bytes.length)
    else
      updateLoop ⟨s.state, block, s.blockSize + bytes.length, s.totalSize, hblock,
        Nat.lt_of_le_of_ne hbytes hfull⟩ (data.drop bytes.length)
termination_by data.length
decreasing_by
  all_goals
    have := s.blockSize_lt
    have := List.length_pos_iff.mpr hdata
    rw [List.length_drop, List.length_take]
    omega

def Sha256.update (s : Sha256) (data : List Byte) : Sha256 :=
  updateLoop { s with totalSize := s.totalSize + BitVec.ofNat 64 data.length } data

/-- `std::fill` with zeros. -/
def fillZeros (block : List Byte) (first last : Nat) : List Byte :=
  block.take first ++ List.replicate (last - first) 0 ++ block.drop last

/-- The lowest bytes of the length, written to the end of the block. -/
def writeLength (totalBits : BitVec 64) (block : List Byte) : List Byte :=
  (List.range 8).foldl (fun block index =>
    block.set (63 - index) ((totalBits >>> (index * 8)).setWidth 8)) block

/-- Eight lowercase hexadecimal digits, with zeros in front. -/
def hexDigits (value : Word) : List Char :=
  let digits := Nat.toDigits 16 value.toNat
  List.replicate (8 - digits.length) '0' ++ digits

def Sha256.finish (s : Sha256) : List Char :=
  let totalBits := s.totalSize * 8
  let marked := s.block.set s.blockSize 0x80
  let size := s.blockSize + 1
  let (state, block, size) :=
    if 56 < size then
      let full := fillZeros marked size 64
      (transform s.state full, full, 0)
    else (s.state, marked, size)
  let last := writeLength totalBits (fillZeros block size 56)
  (transform state last).toList.flatMap hexDigits

/-- The digest of a file that is read in chunks. -/
def fingerprint (chunks : List (List Byte)) : List Char :=
  (chunks.foldl Sha256.update Sha256.initial).finish

/-! ## One block -/

theorem kRoundConstants_eq : kRoundConstants = roundConstants := by decide +kernel

theorem initial_state : Sha256.initial.state = initialHash := by decide +kernel

theorem rotateRight_eq {bits : Nat} (h : bits < 32) (value : Word) :
    rotateRight value bits = value.rotateRight bits := by
  rw [BitVec.rotateRight_def, Nat.mod_eq_of_lt h]
  rfl

theorem readWord_eq (block : List Byte) (t : Nat) : readWord block (t * 4) = wordAt block t := by
  unfold readWord wordAt
  rw [Nat.mul_comm t 4]
  refine BitVec.eq_of_getLsbD_eq fun i hi => ?_
  have hbit : ∀ (x : Byte) (j : Nat), 8 ≤ j → x.getLsbD j = false :=
    fun x j => BitVec.getLsbD_of_ge x j
  simp only [BitVec.getLsbD_or, BitVec.getLsbD_shiftLeft, BitVec.getLsbD_setWidth]
  grind

/-- **Message schedule.** The loop computes the words of the standard. -/
theorem extendWords_foldl (block : List Byte) (n : Nat) :
    (List.range' 16 n).foldl extendWords
      ((List.range 16).map fun index => readWord block (index * 4)) =
      (List.range (16 + n)).map (schedule block) := by
  induction n with
  | zero =>
    refine List.map_congr_left fun t ht => ?_
    rw [schedule, if_pos (List.mem_range.mp ht), readWord_eq]
  | succ n ih =>
    have hword : ∀ back, 0 < back → back ≤ 16 →
        ((List.range (16 + n)).map (schedule block)).getD (16 + n - back) 0 =
          schedule block (16 + n - back) := by
      intro back hpos hle
      have hlt : 16 + n - back < 16 + n := by omega
      simp [List.getD, hlt]
    rw [List.range'_concat, List.foldl_append, ih, Nat.one_mul, List.foldl_cons, List.foldl_nil,
      ← Nat.add_assoc, List.range_succ, List.map_append, List.map_singleton]
    unfold extendWords
    dsimp only
    rw [hword 16 (by omega) (by omega), hword 15 (by omega) (by omega),
      hword 7 (by omega) (by omega), hword 2 (by omega) (by omega), schedule.eq_1 block (16 + n),
      if_neg (by omega)]
    simp only [rotateRight_eq (by decide : 7 < 32),
      rotateRight_eq (by decide : 18 < 32),
      rotateRight_eq (by decide : 17 < 32),
      rotateRight_eq (by decide : 19 < 32)]
    unfold smallSigma0 smallSigma1
    congr 2
    ac_rfl

theorem blockWords_getD (block : List Byte) {t : Nat} (ht : t < 64) :
    (blockWords block).getD t 0 = schedule block t := by
  unfold blockWords
  rw [extendWords_foldl]
  simp [List.getD, ht]

theorem transformRound_eq (block : List Byte) (v : Words) {t : Nat} (ht : t < 64) :
    transformRound (blockWords block) v t = step (roundConstants.getD t 0) (schedule block t) v := by
  unfold transformRound step ch maj bigSigma0 bigSigma1
  rw [blockWords_getD block ht, kRoundConstants_eq]
  simp only [rotateRight_eq (by decide : 6 < 32),
    rotateRight_eq (by decide : 11 < 32),
    rotateRight_eq (by decide : 25 < 32),
    rotateRight_eq (by decide : 2 < 32),
    rotateRight_eq (by decide : 13 < 32),
    rotateRight_eq (by decide : 22 < 32)]

/-- **One block** is hashed as in the standard. -/
theorem transform_eq (state : Words) (block : List Byte) :
    transform state block = compress state block := by
  have hrounds : (List.range 64).foldl (transformRound (blockWords block)) state =
      (List.range 64).foldl
        (fun v t => step (roundConstants.getD t 0) (schedule block t) v) state :=
    List.foldl_ext _ _ _ fun v t ht => transformRound_eq block v (List.mem_range.mp ht)
  unfold transform compress Words.add
  rw [hrounds]
  simp only [BitVec.add_comm]

/-! ## The bytes of a block -/

theorem take_copyBytes {block bytes : List Byte} {blockSize : Nat} (h : blockSize ≤ block.length) :
    (copyBytes block blockSize bytes).take (blockSize + bytes.length) =
      block.take blockSize ++ bytes := by
  unfold copyBytes
  have hlength : (block.take blockSize ++ bytes).length = blockSize + bytes.length := by
    rw [List.length_append, List.length_take, Nat.min_eq_left h]
  rw [← hlength, List.take_left]

theorem fillZeros_length {block : List Byte} {first last : Nat} (hfirst : first ≤ last)
    (hlast : last ≤ block.length) : (fillZeros block first last).length = block.length := by
  unfold fillZeros
  rw [List.length_append, List.length_append, List.length_take, List.length_replicate,
    List.length_drop]
  omega

theorem take_fillZeros {block : List Byte} {first last : Nat} (hfirst : first ≤ last)
    (hlast : last ≤ block.length) :
    (fillZeros block first last).take last =
      block.take first ++ List.replicate (last - first) 0 := by
  have hlength : (block.take first ++ List.replicate (last - first) (0 : Byte)).length = last := by
    rw [List.length_append, List.length_take, List.length_replicate]
    omega
  unfold fillZeros
  exact List.take_left' hlength

/-- Bytes that are set one by one, from the end of the block to its front. -/
theorem foldl_set_back (byte : Nat → Byte) {block : List Byte} {last n : Nat}
    (hblock : block.length = last + 1) (hn : n ≤ last + 1) :
    (List.range n).foldl (fun block index => block.set (last - index) (byte index)) block =
      block.take (last + 1 - n) ++ ((List.range n).map byte).reverse := by
  induction n with
  | zero => simp [← hblock]
  | succ n ih =>
    have htake : block.take (last + 1 - n) =
        block.take (last - n) ++ [block.getD (last - n) 0] := by
      have hlt : last - n < block.length := by omega
      rw [show last + 1 - n = last - n + 1 by omega, List.take_add_one,
        List.getElem?_eq_getElem hlt]
      simp [List.getD, List.getElem?_eq_getElem hlt]
    have hlength : (block.take (last - n)).length = last - n := by
      rw [List.length_take]
      omega
    rw [List.range_succ, List.foldl_append, ih (by omega), htake, List.append_assoc,
      List.foldl_cons, List.foldl_nil, List.set_append_right _ _ (by rw [hlength]),
      List.map_append, List.reverse_append, show last + 1 - (n + 1) = last - n by omega]
    simp [hlength]

theorem shifted_byte (n : BitVec 64) (index : Nat) :
    (n >>> (index * 8)).setWidth 8 = BitVec.ofNat 8 (n.toNat / 256 ^ index) := by
  refine BitVec.eq_of_toNat_eq ?_
  rw [BitVec.toNat_setWidth, BitVec.toNat_ushiftRight, Nat.shiftRight_eq_div_pow, Nat.mul_comm,
    Nat.pow_mul, BitVec.toNat_ofNat]

/-- **The length** ends the block, the most significant byte first. -/
theorem writeLength_eq {block : List Byte} (hblock : block.length = 64) (totalBits : BitVec 64) :
    writeLength totalBits block = block.take 56 ++ bigEndian totalBits.toNat := by
  unfold writeLength
  rw [foldl_set_back _ hblock (by decide)]
  simp only [shifted_byte]
  rfl

/-! ## Updates -/

/-- The blocks that are full have been hashed, and the rest is in the block. -/
def Sha256.Absorbed (s : Sha256) (message : List Byte) : Prop :=
  ∃ full n, full.length = 64 * n ∧ message = full ++ s.block.take s.blockSize ∧
    s.state = (blocks full).foldl compress initialHash

theorem absorbed_initial : Sha256.initial.Absorbed [] :=
  ⟨[], 0, rfl, rfl, initial_state⟩

/-- **The loop of an update** absorbs the bytes. -/
theorem absorbed_updateLoop (s : Sha256) (data : List Byte) {message : List Byte}
    (h : s.Absorbed message) : (s.updateLoop data).Absorbed (message ++ data) := by
  fun_induction Sha256.updateLoop s data generalizing message with
  | case1 s =>
    rw [List.append_nil]
    exact h
  | case2 s data hdata bytes hbytes block hblock hfull =>
    rename_i ih
    obtain ⟨full, n, hlength, hmessage, hstate⟩ := h
    have hcopied : s.block.take s.blockSize ++ bytes = block := by
      rw [← take_copyBytes (s.blockSize_lt.le.trans_eq s.block_length.symm), hfull]
      exact List.take_of_length_le hblock.le
    have hsplit : bytes ++ data.drop bytes.length = data :=
      List.prefix_iff_eq_append.mp (List.take_prefix _ data)
    have habsorbed : Sha256.Absorbed
        ⟨transform s.state block, block, 0, s.totalSize, hblock, by decide⟩ (message ++ bytes) := by
      refine ⟨full ++ block, n + 1, ?_, ?_, ?_⟩
      · rw [List.length_append, hlength, hblock]
        rfl
      · rw [hmessage, List.append_assoc, hcopied, List.take_zero, List.append_nil]
      · rw [blocks_append hlength, blocks_single hblock, List.foldl_append, ← hstate]
        exact transform_eq s.state block
    have hrest := ih habsorbed
    rw [List.append_assoc, hsplit] at hrest
    exact hrest
  | case3 s data hdata bytes hbytes block hblock hfull =>
    rename_i ih
    obtain ⟨full, n, hlength, hmessage, hstate⟩ := h
    have hsplit : bytes ++ data.drop bytes.length = data :=
      List.prefix_iff_eq_append.mp (List.take_prefix _ data)
    have hcopied : block.take (s.blockSize + bytes.length) = s.block.take s.blockSize ++ bytes :=
      take_copyBytes (s.blockSize_lt.le.trans_eq s.block_length.symm)
    have habsorbed : Sha256.Absorbed ⟨s.state, block, s.blockSize + bytes.length, s.totalSize,
        hblock, Nat.lt_of_le_of_ne hbytes hfull⟩ (message ++ bytes) :=
      ⟨full, n, hlength, by rw [hmessage, List.append_assoc, hcopied], hstate⟩
    have hrest := ih habsorbed
    rw [List.append_assoc, hsplit] at hrest
    exact hrest

theorem totalSize_updateLoop (s : Sha256) (data : List Byte) :
    (s.updateLoop data).totalSize = s.totalSize := by
  fun_induction Sha256.updateLoop s data with
  | case1 s => rfl
  | case2 => assumption
  | case3 => assumption

/-- **Updates** in any number absorb their bytes in turn. -/
theorem absorbed_foldl_update (chunks : List (List Byte)) {s : Sha256} {message : List Byte}
    (h : s.Absorbed message) (hsize : s.totalSize = BitVec.ofNat 64 message.length) :
    (chunks.foldl Sha256.update s).Absorbed (message ++ chunks.flatten) ∧
      (chunks.foldl Sha256.update s).totalSize =
        BitVec.ofNat 64 (message ++ chunks.flatten).length := by
  induction chunks generalizing s message with
  | nil =>
    rw [List.flatten_nil, List.append_nil]
    exact ⟨h, hsize⟩
  | cons data chunks ih =>
    rw [List.foldl_cons, List.flatten_cons, ← List.append_assoc]
    refine ih (absorbed_updateLoop _ data h) ?_
    unfold Sha256.update
    rw [totalSize_updateLoop, hsize, List.length_append, ← BitVec.ofNat_add]

/-! ## Hexadecimal digits -/

/-- A number below a power of the base has as many digits, with zeros in front. -/
theorem toDigits_padded {k n : Nat} (h : n < 16 ^ (k + 1)) :
    List.replicate (k + 1 - (Nat.toDigits 16 n).length) '0' ++ Nat.toDigits 16 n =
      (List.range (k + 1)).map fun i => Nat.digitChar (n / 16 ^ (k - i) % 16) := by
  induction k generalizing n with
  | zero =>
    rw [Nat.toDigits_of_lt_base (by omega)]
    simp [Nat.mod_eq_of_lt (show n < 16 by omega)]
  | succ k ih =>
    have hlow : n / 16 < 16 ^ (k + 1) := by omega
    have hcons : List.replicate (k + 2 - (Nat.toDigits 16 n).length) '0' ++ Nat.toDigits 16 n =
        List.replicate (k + 1 - (Nat.toDigits 16 (n / 16)).length) '0' ++
          Nat.toDigits 16 (n / 16) ++ [Nat.digitChar (n % 16)] := by
      rcases Nat.lt_or_ge n 16 with hlt | hge
      · rw [Nat.toDigits_of_lt_base hlt, Nat.div_eq_of_lt hlt, Nat.mod_eq_of_lt hlt,
          Nat.toDigits_zero]
        simp [List.replicate_succ']
      · rw [Nat.toDigits_of_base_le (by decide) hge, List.length_append]
        simp
    rw [hcons, ih hlow, List.range_succ (n := k + 1), List.map_append]
    congr 1
    · refine List.map_congr_left fun i hi => ?_
      have hle : i ≤ k := Nat.lt_succ_iff.mp (List.mem_range.mp hi)
      rw [Nat.div_div_eq_div_mul, ← Nat.pow_succ', Nat.succ_sub hle]
    · simp

theorem hexDigits_eq (value : Word) : hexDigits value = hexWord value :=
  toDigits_padded value.isLt

/-! ## The digest -/

theorem bits_toNat {n : Nat} (h : n < 2 ^ 61) : (BitVec.ofNat 64 n * 8).toNat = 8 * n := by
  rw [BitVec.toNat_mul, BitVec.toNat_ofNat]
  change n % 2 ^ 64 * 8 % 2 ^ 64 = 8 * n
  omega

/-- The block that ends the padded message. -/
theorem last_block {block : List Byte} {size : Nat} (hblock : block.length = 64) (hsize : size ≤ 56)
    (totalBits : BitVec 64) : writeLength totalBits (fillZeros block size 56) =
      block.take size ++ (List.replicate (56 - size) 0 ++ bigEndian totalBits.toNat) := by
  have hlast : 56 ≤ block.length := by omega
  rw [writeLength_eq ((fillZeros_length hsize hlast).trans hblock), take_fillZeros hsize hlast,
    List.append_assoc]

/-- The bytes of the block and the end mark. -/
def Sha256.marked (s : Sha256) : List Byte :=
  (s.block.set s.blockSize 0x80).take (s.blockSize + 1)

theorem marked_eq (s : Sha256) : s.marked = s.block.take s.blockSize ++ [0x80] := by
  have hlt : s.blockSize < s.block.length := s.blockSize_lt.trans_eq s.block_length.symm
  unfold Sha256.marked
  rw [List.take_add_one, List.take_set_of_le le_rfl, List.getElem?_set_self hlt]
  rfl

theorem marked_length (s : Sha256) : s.marked.length = s.blockSize + 1 := by
  have hlt := s.blockSize_lt
  rw [marked_eq, List.length_append, List.length_take, s.block_length]
  simp only [List.length_singleton]
  omega

/-- There is room for the length: one block is left. -/
theorem finish_short {s : Sha256} (h : s.blockSize < 56) : s.finish =
    (transform s.state (s.marked ++ (List.replicate (55 - s.blockSize) 0 ++
      bigEndian (s.totalSize * 8).toNat))).toList.flatMap hexDigits := by
  have hblock : (s.block.set s.blockSize 0x80).length = 64 := by
    rw [List.length_set, s.block_length]
  unfold Sha256.finish
  simp only [if_neg (Nat.not_lt.mpr h)]
  rw [last_block hblock h, Nat.succ_sub_succ 55]
  rfl

/-- There is no room for the length: it follows in a block of its own. -/
theorem finish_long {s : Sha256} (h : 56 ≤ s.blockSize) : s.finish =
    (transform (transform s.state (s.marked ++ List.replicate (63 - s.blockSize) 0))
      (List.replicate 56 0 ++ bigEndian (s.totalSize * 8).toNat)).toList.flatMap hexDigits := by
  have hblock : (s.block.set s.blockSize 0x80).length = 64 := by
    rw [List.length_set, s.block_length]
  have hfull : (fillZeros (s.block.set s.blockSize 0x80) (s.blockSize + 1) 64).length = 64 :=
    (fillZeros_length s.blockSize_lt hblock.ge).trans hblock
  have hfilled : fillZeros (s.block.set s.blockSize 0x80) (s.blockSize + 1) 64 =
      s.marked ++ List.replicate (63 - s.blockSize) 0 := by
    have htake := take_fillZeros s.blockSize_lt hblock.ge
    rw [List.take_of_length_le hfull.le] at htake
    rw [htake, Nat.succ_sub_succ 63]
    rfl
  unfold Sha256.finish
  simp only [if_pos (Nat.lt_succ_of_le h)]
  rw [last_block hfull (Nat.zero_le 56), hfilled]
  rfl

/-- **The last blocks** hold the end mark, zeros and the length, as the standard pads. -/
theorem finish_eq {s : Sha256} {message : List Byte} (h : s.Absorbed message)
    (hsize : s.totalSize = BitVec.ofNat 64 message.length) (hlt : message.length < 2 ^ 61) :
    s.finish = hexDigest message := by
  obtain ⟨full, n, hlength, hmessage, hstate⟩ := h
  have hblockSize := s.blockSize_lt
  have hmod : message.length % 64 = s.blockSize := by
    rw [hmessage, List.length_append, hlength, List.length_take, s.block_length]
    omega
  have hbits : (s.totalSize * 8).toNat = 8 * message.length := by
    rw [hsize, bits_toNat hlt]
  have hbytes : (bigEndian (8 * message.length)).length = 8 := by simp [bigEndian]
  have hpad : pad message = full ++ (s.marked ++
      (List.replicate (zeroBytes message.length) 0 ++ bigEndian (8 * message.length))) := by
    unfold pad
    generalize List.replicate (zeroBytes message.length) (0 : Byte) ++ _ = padding
    rw [marked_eq, hmessage, List.append_assoc, List.append_assoc]
    rfl
  unfold hexDigest sha256
  rw [hpad, blocks_append hlength, List.foldl_append, ← hstate, ← funext hexDigits_eq]
  rcases Nat.lt_or_ge s.blockSize 56 with hshort | hlong
  · have hzeros : zeroBytes message.length = 55 - s.blockSize := by
      unfold zeroBytes
      omega
    rw [finish_short hshort, hbits, hzeros, blocks_single, List.foldl_cons, List.foldl_nil,
      transform_eq]
    simp only [List.length_append, marked_length, List.length_replicate, hbytes]
    omega
  · have hzeros : zeroBytes message.length = 63 - s.blockSize + 56 := by
      unfold zeroBytes
      omega
    have hfull : (s.marked ++ List.replicate (63 - s.blockSize) 0).length = 64 * 1 := by
      simp only [List.length_append, marked_length, List.length_replicate]
      omega
    rw [finish_long hlong, hbits, hzeros, List.replicate_add, List.append_assoc, ← List.append_assoc,
      blocks_append hfull, blocks_single hfull, blocks_single, List.foldl_append, List.foldl_cons,
      List.foldl_nil, List.foldl_cons, List.foldl_nil, transform_eq, transform_eq]
    rw [List.length_append, List.length_replicate, hbytes]

/-- **Any chunking.** The digest of a message does not depend on how it is split, and is the one
of the standard. -/
theorem fingerprint_correct (chunks : List (List Byte)) (h : chunks.flatten.length < 2 ^ 61) :
    fingerprint chunks = hexDigest chunks.flatten := by
  obtain ⟨habsorbed, hsize⟩ := absorbed_foldl_update chunks absorbed_initial rfl
  exact finish_eq habsorbed hsize h

theorem fingerprint_correct_split : fingerprint [[0x61], [], [0x62, 0x63]] =
    hexDigest [0x61, 0x62, 0x63] :=
  fingerprint_correct [[0x61], [], [0x62, 0x63]] (by decide)

end DocParser
