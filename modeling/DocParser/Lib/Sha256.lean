import Mathlib.Data.List.Basic
import Mathlib.Tactic.IntervalCases

/-!
# The secure hash standard

SHA-256 of FIPS 180-4 for messages of whole bytes: padding, the message schedule and the rounds.
The constants are those of the standard, the first bits of the fractional parts of roots of
primes. `blocks_append` cuts a message into blocks wherever a block ends.
-/

namespace Fips180

abbrev Byte := BitVec 8

abbrev Word := BitVec 32

/-! ## Functions and constants -/

def ch (x y z : Word) : Word := (x &&& y) ^^^ (~~~x &&& z)

def maj (x y z : Word) : Word := (x &&& y) ^^^ (x &&& z) ^^^ (y &&& z)

def bigSigma0 (x : Word) : Word := x.rotateRight 2 ^^^ x.rotateRight 13 ^^^ x.rotateRight 22

def bigSigma1 (x : Word) : Word := x.rotateRight 6 ^^^ x.rotateRight 11 ^^^ x.rotateRight 25

def smallSigma0 (x : Word) : Word := x.rotateRight 7 ^^^ x.rotateRight 18 ^^^ (x >>> 3)

def smallSigma1 (x : Word) : Word := x.rotateRight 17 ^^^ x.rotateRight 19 ^^^ (x >>> 10)

/-- The largest `x` of some more bits with `x ^ k ≤ n`. -/
def rootBits (k n : Nat) : Nat → Nat → Nat
  | 0, x => x
  | bits + 1, x =>
    if (x + 2 ^ bits) ^ k ≤ n then rootBits k n bits (x + 2 ^ bits) else rootBits k n bits x

/-- The first 32 bits of the fractional part of the `k`-th root of a number. -/
def rootFraction (k n : Nat) : Word := BitVec.ofNat 32 (rootBits k (n * 2 ^ (32 * k)) 37 0)

def isPrime (n : Nat) : Bool :=
  decide (2 ≤ n) && (List.range n).all fun d => decide (d < 2) || n % d != 0

/-- The first sixty-four primes. -/
def primes : List Nat := (List.range 312).filter isPrime

/-- `K`: from the cube roots of the first sixty-four primes. -/
def roundConstants : List Word := primes.map (rootFraction 3)

/-- The eight words of a hash value or of the working variables. -/
structure Words where
  a : Word
  b : Word
  c : Word
  d : Word
  e : Word
  f : Word
  g : Word
  h : Word
  deriving DecidableEq, Repr

def Words.toList (v : Words) : List Word := [v.a, v.b, v.c, v.d, v.e, v.f, v.g, v.h]

/-- The initial hash value: from the square roots of the first eight primes. -/
def initialHash : Words where
  a := rootFraction 2 2
  b := rootFraction 2 3
  c := rootFraction 2 5
  d := rootFraction 2 7
  e := rootFraction 2 11
  f := rootFraction 2 13
  g := rootFraction 2 17
  h := rootFraction 2 19

/-! ## Padding -/

/-- The zero bytes behind the end mark: the block then has eight bytes left. -/
def zeroBytes (length : Nat) : Nat := (119 - length % 64) % 64

/-- It is the least number of bytes that leaves eight bytes of a block. -/
theorem zeroBytes_spec (length : Nat) : (length + 1 + zeroBytes length) % 64 = 56 ∧
    ∀ z, (length + 1 + z) % 64 = 56 → zeroBytes length ≤ z := by
  unfold zeroBytes
  constructor
  · omega
  · intro z hz
    omega

/-- The eight bytes of a number, the most significant one first. -/
def bigEndian (n : Nat) : List Byte :=
  (List.range 8).map fun i => BitVec.ofNat 8 (n / 256 ^ (7 - i))

/-- The padded message: the message, a one bit, zero bits and the length in bits. -/
def pad (message : List Byte) : List Byte :=
  message ++ 0x80#8 :: (List.replicate (zeroBytes message.length) 0#8 ++
    bigEndian (8 * message.length))

/-! ## Blocks -/

/-- The blocks of 64 bytes that a message begins with. -/
def blocks (message : List Byte) : List (List Byte) :=
  (List.range (message.length / 64)).map fun i => (message.drop (64 * i)).take 64

/-- The word at an index of a block, the most significant byte first. -/
def wordAt (block : List Byte) (t : Nat) : Word :=
  (((block.getD (4 * t) 0 ++ block.getD (4 * t + 1) 0 : BitVec 16) ++
    block.getD (4 * t + 2) 0 : BitVec 24) ++ block.getD (4 * t + 3) 0 : BitVec 32)

/-- The message schedule `W`. -/
def schedule (block : List Byte) (t : Nat) : Word :=
  if t < 16 then wordAt block t
  else
    smallSigma1 (schedule block (t - 2)) + schedule block (t - 7) +
      smallSigma0 (schedule block (t - 15)) + schedule block (t - 16)
termination_by t

def step (k w : Word) (v : Words) : Words :=
  let t1 := v.h + bigSigma1 v.e + ch v.e v.f v.g + k + w
  let t2 := bigSigma0 v.a + maj v.a v.b v.c
  ⟨t1 + t2, v.a, v.b, v.c, v.d + t1, v.e, v.f, v.g⟩

def Words.add (v w : Words) : Words :=
  ⟨v.a + w.a, v.b + w.b, v.c + w.c, v.d + w.d, v.e + w.e, v.f + w.f, v.g + w.g, v.h + w.h⟩

/-- The hash value after a block. -/
def compress (hash : Words) (block : List Byte) : Words :=
  ((List.range 64).foldl (fun v t => step (roundConstants.getD t 0) (schedule block t) v) hash).add
    hash

/-- The hash value of a message. -/
def sha256 (message : List Byte) : Words := (blocks (pad message)).foldl compress initialHash

/-- The lowercase hexadecimal digits of a word. -/
def hexWord (w : Word) : List Char :=
  (List.range 8).map fun i => Nat.digitChar (w.toNat / 16 ^ (7 - i) % 16)

def hexDigest (message : List Byte) : List Char := (sha256 message).toList.flatMap hexWord

/-! ## Cutting a message into blocks -/

theorem blocks_append {front rest : List Byte} {n : Nat} (hfront : front.length = 64 * n) :
    blocks (front ++ rest) = blocks front ++ blocks rest := by
  have hlength : (front ++ rest).length / 64 = front.length / 64 + rest.length / 64 := by
    rw [List.length_append, hfront]
    omega
  unfold blocks
  rw [hlength, List.range_add, List.map_append, List.map_map]
  congr 1
  · refine List.map_congr_left fun i hi => ?_
    have hlt : 64 * i + 64 ≤ front.length := by
      have := List.mem_range.mp hi
      omega
    rw [List.drop_append_of_le_length (by omega), List.take_append_of_le_length]
    rw [List.length_drop]
    omega
  · refine List.map_congr_left fun i _ => ?_
    have hdrop : 64 * (front.length / 64 + i) = front.length + 64 * i := by omega
    rw [Function.comp_apply, hdrop, ← List.drop_drop, List.drop_left]

theorem blocks_single {block : List Byte} (h : block.length = 64) : blocks block = [block] := by
  unfold blocks
  rw [h]
  simp [List.take_of_length_le (le_of_eq h)]

end Fips180
