import Mathlib
import DocParser.Common.Double
import DocParser.Common.Standard
import DocParser.Lib.Writes
import DocParser.Ocr.RecognitionDecoding

/-!
# Batches of crops

The crops of a page are sorted by their shape, cut into batches for the recognition model, and the
decoded rows are put back at the indices of their crops. `recognizeCrops_scatters`: every crop gets
the row that the model computes for it, repeats that fill up a batch get none, and the session is
run on these batches and nothing else.
-/

namespace DocParser.Ocr

/-! ## The source -/

section Definitions

/-- A `cv::Mat`. -/
structure CropImage (π : Type) where
  rows : Int
  cols : Int
  pixels : π

/-- What the recognition reads of `PaddleOcrOnnxConfig` and its profile. -/
structure RecognitionConfig (β : Type) where
  recognitionImageHeight : Int
  recognitionBaseWidth : Int
  recognitionMaxWidth : Int
  recognitionWidthMultiple : Int
  recognitionBatchSize : Nat
  recognitionThreshold : β
  convertBgrToRgb : Bool
  recognitionScale : β
  recognitionMean : Fin 3 → β
  recognitionStd : Fin 3 → β

structure RecognitionBatchInput (β : Type) (n : Nat) where
  tensor : List β
  shape : List Int
  sourceIndices : List (Fin n)

structure RecognitionStats where
  inferenceRuns : Nat
  decodedTexts : Nat
  emptyDecodes : Nat
  firstOutputShape : List Nat
  deriving DecidableEq, Repr

/-- `cv::resize` to a width and a height, `cv::cvtColor` and `cv::Mat::convertTo`: the pixel of a
row, a column and a channel. -/
abbrev Resize (π β : Type) :=
  RecognitionConfig β → CropImage π → Int → Int → Nat → Nat → Fin 3 → β

/-- `Ort::Session::Run` on a tensor with its shape; a run may leave its traces in the session. -/
abbrev RunSession (σ β : Type) := σ → List Int → List β → List (ScoreTensor β) × σ

/-- What the stage is given besides the crops. -/
structure Recognizer (σ π β : Type) where
  resize : Resize π β
  runSession : RunSession σ β
  classProbability : List β → Nat → β
  modelShape : List Int
  dictionary : List String
  config : RecognitionConfig β

def positiveShapeValue (shape : List Int) (index : Nat) (fallback : Int) : Int :=
  match shape[index]? with
  | some value => if 0 < value ∧ value < 2147483647 then value else fallback
  | none => fallback

/-- `std::clamp` -/
def clamp (value low high : Int) : Int :=
  if value < low then low else if high < value then high else value

def roundUpToMultiple (value multiple : Int) : Int :=
  if multiple ≤ 1 then value else (value + multiple - 1).tdiv multiple * multiple

variable {σ π β : Type} (δ : Type) [Double δ]

def widthRatio (crop : CropImage π) : δ := Double.ofInt crop.cols / Double.ofInt (max 1 crop.rows)

def targetHeight (config : RecognitionConfig β) (modelShape : List Int) : Int :=
  positiveShapeValue modelShape 2 config.recognitionImageHeight

/-- The width of a batch: that of the model, or one that the widest crop needs. -/
def targetWidth {n : Nat} (crops : Vector (CropImage π) n) (sourceIndices : List (Fin n))
    (config : RecognitionConfig β) (modelShape : List Int) : Int :=
  let height := targetHeight config modelShape
  let fixedWidth := positiveShapeValue modelShape 3 0
  if 0 < fixedWidth then fixedWidth
  else
    let maxWidthRatio : δ := sourceIndices.foldl
      (fun ratio index => Double.max ratio (widthRatio δ crops[index]))
      (Double.ofInt config.recognitionBaseWidth / Double.ofInt height)
    let width := Double.ceil (Double.ofInt height * maxWidthRatio)
    clamp (roundUpToMultiple width config.recognitionWidthMultiple) config.recognitionBaseWidth
      config.recognitionMaxWidth

/-- The values of one image of a batch, channel by channel. -/
def rowSize (height width : Int) : Nat := 3 * (height.toNat * width.toNat)

variable [Field β] [LinearOrder β]

/-- The writes of the loops over the pixels of a crop, with their offsets in its row. -/
def cropWrites (resize : Resize π β) (config : RecognitionConfig β) (height width : Int)
    (crop : CropImage π) : List (Nat × β) :=
  let resizedWidth :=
    clamp (Double.ceil (Double.ofInt height * widthRatio δ crop)) 1 width
  (List.range height.toNat).flatMap fun y =>
    (List.range resizedWidth.toNat).flatMap fun x =>
      (List.finRange 3).map fun channel =>
        (channel.val * (height.toNat * width.toNat) + y * width.toNat + x,
          (resize config crop resizedWidth height y x channel - config.recognitionMean channel) /
            config.recognitionStd channel)

def makeRecognitionBatch {n : Nat} (resize : Resize π β) (crops : Vector (CropImage π) n)
    (sourceIndices : List (Fin n)) (config : RecognitionConfig β) (modelShape : List Int) :
    RecognitionBatchInput β n :=
  let height := targetHeight config modelShape
  let width := targetWidth δ crops sourceIndices config modelShape
  { tensor := Writes.writeAll (List.replicate (sourceIndices.length * rowSize height width) 0)
      (sourceIndices.zipIdx.flatMap fun p => Writes.shift (p.2 * rowSize height width)
        (cropWrites δ resize config height width crops[p.1]))
    shape := [sourceIndices.length, 3, height, width]
    sourceIndices := sourceIndices }

def sortedIndices {n : Nat} (crops : Vector (CropImage π) n) : List (Fin n) :=
  sortBy (fun lhs rhs => decide (widthRatio δ crops[lhs] < widthRatio δ crops[rhs]))
    (List.finRange n)

def fixedBatch (modelShape : List Int) : Int := positiveShapeValue modelShape 0 0

def batchCapacity (config : RecognitionConfig β) (modelShape : List Int) : {k : Nat // 0 < k} :=
  if h : 0 < fixedBatch modelShape then ⟨(fixedBatch modelShape).toNat, by omega⟩
  else ⟨max 1 config.recognitionBatchSize, by omega⟩

/-- The members of a batch, repeated at the end when the model asks for a fixed number. -/
def paddedIndices {n : Nat} (config : RecognitionConfig β) (modelShape : List Int)
    (batchIndices : List (Fin n)) : List (Fin n) :=
  match batchIndices.getLast? with
  | some last =>
    if 0 < fixedBatch modelShape then
      batchIndices ++
        List.replicate ((batchCapacity config modelShape).1 - batchIndices.length) last
    else batchIndices
  | none => batchIndices

/-- The variables of the loop over the batches, and the session. -/
structure CropsState (σ β : Type) (n : Nat) where
  recognitions : Vector (RecognitionResult β) n
  stats : RecognitionStats
  session : σ

def countOutput (stats : RecognitionStats) (output : ScoreTensor β) : RecognitionStats :=
  { stats with
    inferenceRuns := stats.inferenceRuns + 1
    firstOutputShape :=
      if stats.firstOutputShape.isEmpty then output.shape else stats.firstOutputShape }

/-- One row of the output of a batch. -/
def storeRecognition {n : Nat} (recognizer : Recognizer σ π β) (output : ScoreTensor β)
    (s : CropsState σ β n) (p : Fin n × Nat) : CropsState σ β n :=
  let recognition := decodeRecognition recognizer.classProbability output p.2
    recognizer.dictionary recognizer.config.recognitionThreshold
  { s with
    recognitions := s.recognitions.set p.1 recognition
    stats :=
      if recognition.text.isEmpty then
        { s.stats with emptyDecodes := s.stats.emptyDecodes + 1 }
      else { s.stats with decodedTexts := s.stats.decodedTexts + 1 } }

/-- The loop from an index of the sorted crops on; `false` is a run without an output. -/
def recognizeFrom {n : Nat} (recognizer : Recognizer σ π β) (crops : Vector (CropImage π) n)
    (sorted : List (Fin n)) (start : Nat) (s : CropsState σ β n) : Bool × CropsState σ β n :=
  if start < sorted.length then
    let capacity := batchCapacity recognizer.config recognizer.modelShape
    let real := (sorted.drop start).take capacity.1
    let batchIndices := paddedIndices recognizer.config recognizer.modelShape real
    let batch := makeRecognitionBatch δ recognizer.resize crops batchIndices recognizer.config
      recognizer.modelShape
    match recognizer.runSession s.session batch.shape batch.tensor with
    | ([], session) => (false, { s with session })
    | (output :: _, session) =>
      let s := (batchIndices.zipIdx.take real.length).foldl (storeRecognition recognizer output)
        { s with stats := countOutput s.stats output, session }
      recognizeFrom recognizer crops sorted (start + capacity.1) s
  else (true, s)
termination_by sorted.length - start
decreasing_by
  have := (batchCapacity recognizer.config recognizer.modelShape).2
  omega

def recognizeCrops {n : Nat} (recognizer : Recognizer σ π β) (crops : Vector (CropImage π) n)
    (stats : RecognitionStats) (session : σ) : Bool × CropsState σ β n :=
  let recognitions := Vector.replicate n emptyRecognition
  if n = 0 then (true, ⟨recognitions, stats, session⟩)
  else recognizeFrom δ recognizer crops (sortedIndices δ crops) 0 ⟨recognitions, stats, session⟩

end Definitions

/-! ## The oracle -/

section Oracle

variable {σ π β : Type} (δ : Type) [Double δ] [Field β] [LinearOrder β]

/-- The image of a crop at a height and a width, as the model sees it. -/
def cropRow (resize : Resize π β) (config : RecognitionConfig β) (height width : Int)
    (crop : CropImage π) : List β :=
  Writes.writeAll (List.replicate (rowSize height width) 0)
    (cropWrites δ resize config height width crop)

/-- The numbers of images that the model can be given at once. -/
def IsBatchSize (config : RecognitionConfig β) (modelShape : List Int) (count : Nat) : Prop :=
  count ≤ (batchCapacity config modelShape).1 ∧
    (0 < fixedBatch modelShape → (count : Int) = fixedBatch modelShape)

/-- A model whose row for an image does not depend on the other images, in batches of the right
size; of any other input nothing is known. -/
def IsRowOracle (recognizer : Recognizer σ π β)
    (oracle : Int → Int → List β → List (List β)) : Prop :=
  ∀ (session : σ) (count : Nat) (height width : Int) (tensor : List β),
    IsBatchSize recognizer.config recognizer.modelShape count →
    tensor.length = count * rowSize height width →
    ∃ output rest,
      (recognizer.runSession session [count, 3, height, width] tensor).1 = output :: rest ∧
      ∀ k < count, output.InBatch k ∧
        output.IsRow k (oracle height width
          ((tensor.drop (k * rowSize height width)).take (rowSize height width)))

/-- The session after runs on some inputs. -/
def runAll {n : Nat} (runSession : RunSession σ β) (session : σ)
    (inputs : List (RecognitionBatchInput β n)) : σ :=
  inputs.foldl (fun session input => (runSession session input.shape input.tensor).2) session

/-- The members of the batches, without the repeats. -/
def batchesFrom {n : Nat} (sorted : List (Fin n)) (capacity : {k : Nat // 0 < k}) (start : Nat) :
    List (List (Fin n)) :=
  if start < sorted.length then
    (sorted.drop start).take capacity.1 :: batchesFrom sorted capacity (start + capacity.1)
  else []
termination_by sorted.length - start
decreasing_by
  have := capacity.2
  omega

/-- The input of the session for a batch. -/
def batchInput {n : Nat} (recognizer : Recognizer σ π β) (crops : Vector (CropImage π) n)
    (batch : List (Fin n)) : RecognitionBatchInput β n :=
  makeRecognitionBatch δ recognizer.resize crops
    (paddedIndices recognizer.config recognizer.modelShape batch) recognizer.config
    recognizer.modelShape

/-- The decoded row of a crop in a batch. -/
def cropRecognition {n : Nat} (recognizer : Recognizer σ π β)
    (oracle : Int → Int → List β → List (List β)) (crops : Vector (CropImage π) n)
    (batch : List (Fin n)) (crop : CropImage π) : RecognitionResult β :=
  let height := targetHeight recognizer.config recognizer.modelShape
  let width := targetWidth δ crops
    (paddedIndices recognizer.config recognizer.modelShape batch) recognizer.config
    recognizer.modelShape
  ctcCollapse recognizer.classProbability maxElement recognizer.dictionary
    recognizer.config.recognitionThreshold
    (oracle height width (cropRow δ recognizer.resize recognizer.config height width crop))

end Oracle

/-! ## The images of a batch -/

section Images

variable {π β : Type} {δ : Type} [Double δ] [Field β]

theorem clamp_le (value : Int) {high : Int} (h : 1 ≤ high) : clamp value 1 high ≤ high := by
  unfold clamp
  split
  · exact h
  split
  · exact le_rfl
  · omega

theorem cropWrites_lt (resize : Resize π β) (config : RecognitionConfig β) (height width : Int)
    (crop : CropImage π) : ∀ write ∈ cropWrites δ resize config height width crop,
      write.1 < rowSize height width ∨ rowSize height width = 0 := by
  intro write hwrite
  unfold cropWrites at hwrite
  obtain ⟨y, hy, hwrite⟩ := List.mem_flatMap.mp hwrite
  obtain ⟨x, hx, hwrite⟩ := List.mem_flatMap.mp hwrite
  obtain ⟨channel, -, rfl⟩ := List.mem_map.mp hwrite
  rw [List.mem_range] at hy hx
  unfold rowSize
  rcases Nat.eq_zero_or_pos width.toNat with hzero | hpos
  · exact .inr (by rw [hzero, Nat.mul_zero, Nat.mul_zero])
  have hclamp := clamp_le (Double.ceil (Double.ofInt height * widthRatio δ crop))
    (show 1 ≤ width by omega)
  have hxw : x < width.toNat := by omega
  have hchannel := channel.isLt
  refine .inl ?_
  show channel.val * (height.toNat * width.toNat) + y * width.toNat + x <
    3 * (height.toNat * width.toNat)
  calc channel.val * (height.toNat * width.toNat) + y * width.toNat + x
      < channel.val * (height.toNat * width.toNat) + (y + 1) * width.toNat := by
        rw [Nat.add_mul, Nat.one_mul]
        omega
    _ ≤ channel.val * (height.toNat * width.toNat) + height.toNat * width.toNat :=
        Nat.add_le_add_left (Nat.mul_le_mul_right _ hy) _
    _ = (channel.val + 1) * (height.toNat * width.toNat) := by rw [Nat.add_mul, Nat.one_mul]
    _ ≤ 3 * (height.toNat * width.toNat) := Nat.mul_le_mul_right _ hchannel

/-- **The tensor of a batch** is the images of its crops one behind the other. -/
theorem makeRecognitionBatch_tensor {n : Nat} (resize : Resize π β)
    (crops : Vector (CropImage π) n) (sourceIndices : List (Fin n)) (config : RecognitionConfig β)
    (modelShape : List Int) :
    (makeRecognitionBatch δ resize crops sourceIndices config modelShape).tensor =
      sourceIndices.flatMap fun index => cropRow δ resize config (targetHeight config modelShape)
        (targetWidth δ crops sourceIndices config modelShape) crops[index] := by
  unfold makeRecognitionBatch cropRow
  dsimp only
  generalize targetHeight config modelShape = height
  generalize targetWidth δ crops sourceIndices config modelShape = width
  by_cases hzero : rowSize height width = 0
  · have hempty : ∀ writes : List (Nat × β), Writes.writeAll [] writes = [] := fun writes =>
      List.length_eq_zero_iff.mp (Writes.length_writeAll writes [])
    simp [hzero, hempty]
  · have hblocks := Writes.writeAll_blocks (rowSize height width) (0 : β)
      (sourceIndices.map fun index => cropWrites δ resize config height width crops[index])
      (fun writes hwrites write hwrite => by
        obtain ⟨index, -, rfl⟩ := List.mem_map.mp hwrites
        exact (cropWrites_lt resize config height width _ write hwrite).resolve_right hzero)
      0 [] (Nat.zero_mul _).symm
    rw [List.nil_append, List.nil_append, List.length_map, List.zipIdx_map, List.flatMap_map,
      List.flatMap_map] at hblocks
    exact hblocks

theorem length_tensor {n : Nat} (resize : Resize π β) (crops : Vector (CropImage π) n)
    (sourceIndices : List (Fin n)) (config : RecognitionConfig β) (modelShape : List Int) :
    (makeRecognitionBatch δ resize crops sourceIndices config modelShape).tensor.length =
      sourceIndices.length * rowSize (targetHeight config modelShape)
        (targetWidth δ crops sourceIndices config modelShape) := by
  unfold makeRecognitionBatch
  rw [Writes.length_writeAll, List.length_replicate]

theorem length_cropRow (resize : Resize π β) (config : RecognitionConfig β) (height width : Int)
    (crop : CropImage π) :
    (cropRow δ resize config height width crop).length = rowSize height width := by
  unfold cropRow
  rw [Writes.length_writeAll, List.length_replicate]

end Images

/-! ## The batches -/

section Batches

variable {β : Type} {n : Nat} {config : RecognitionConfig β} {modelShape : List Int}

theorem batchesFrom_cons {sorted : List (Fin n)} (capacity : {k : Nat // 0 < k}) {start : Nat}
    (h : start < sorted.length) : batchesFrom sorted capacity start =
      (sorted.drop start).take capacity.1 :: batchesFrom sorted capacity (start + capacity.1) := by
  rw [batchesFrom, if_pos h]

theorem batchesFrom_flatten (sorted : List (Fin n)) (capacity : {k : Nat // 0 < k}) (start : Nat) :
    (batchesFrom sorted capacity start).flatten = sorted.drop start := by
  induction start using batchesFrom.induct sorted capacity with
  | case1 start hlt ih =>
    rw [batchesFrom_cons capacity hlt, List.flatten_cons, ih, ← List.drop_drop]
    exact List.take_append_drop _ _
  | case2 start hend =>
    rw [batchesFrom, if_neg hend, List.drop_eq_nil_of_le (Nat.le_of_not_lt hend)]
    rfl

/-- A batch has members, as many as fit. -/
theorem mem_batchesFrom {sorted : List (Fin n)} {capacity : {k : Nat // 0 < k}} {start : Nat}
    {batch : List (Fin n)} (h : batch ∈ batchesFrom sorted capacity start) :
    batch ≠ [] ∧ batch.length ≤ capacity.1 := by
  induction start using batchesFrom.induct sorted capacity with
  | case1 start hlt ih =>
    rw [batchesFrom_cons capacity hlt] at h
    rcases List.mem_cons.mp h with rfl | h
    · refine ⟨List.ne_nil_of_length_pos ?_, List.length_take_le _ _⟩
      have := capacity.2
      rw [List.length_take, List.length_drop]
      omega
    · exact ih h
  | case2 start hend =>
    rw [batchesFrom, if_neg hend] at h
    cases h

variable (config modelShape) in
/-- **Padding** fills a batch up to the number that the model asks for. -/
theorem paddedIndices_spec {batch : List (Fin n)} (hne : batch ≠ [])
    (hle : batch.length ≤ (batchCapacity config modelShape).1) :
    (∃ repeats, paddedIndices config modelShape batch = batch ++ repeats) ∧
      IsBatchSize config modelShape (paddedIndices config modelShape batch).length := by
  unfold paddedIndices IsBatchSize
  rw [List.getLast?_eq_getLast_of_ne_nil hne]
  dsimp only
  split
  next hfixed =>
    have hlength : (batch ++ List.replicate ((batchCapacity config modelShape).1 - batch.length)
        (batch.getLast hne)).length = (batchCapacity config modelShape).1 := by
      rw [List.length_append, List.length_replicate]
      omega
    refine ⟨⟨_, rfl⟩, hlength.le, fun _ => ?_⟩
    rw [hlength]
    unfold batchCapacity
    rw [dif_pos hfixed]
    exact Int.toNat_of_nonneg hfixed.le
  next hfree => exact ⟨⟨[], (List.append_nil _).symm⟩, hle, fun hfixed => absurd hfixed hfree⟩

end Batches

/-! ## The loop -/

section Loop

variable {σ π β : Type} {δ : Type} [Double δ] [Field β] [LinearOrder β] {n : Nat}
  {recognizer : Recognizer σ π β} {oracle : Int → Int → List β → List (List β)}
  {crops : Vector (CropImage π) n}

variable (recognizer) in
/-- What the loop over the rows of an output stores. -/
theorem storeRecognition_foldl (output : ScoreTensor β) (ps : List (Fin n × Nat)) :
    ∀ s : CropsState σ β n,
      (ps.foldl (storeRecognition recognizer output) s).recognitions =
        ps.foldl (fun results p => results.set p.1 (decodeRecognition recognizer.classProbability
          output p.2 recognizer.dictionary recognizer.config.recognitionThreshold))
          s.recognitions ∧
      (ps.foldl (storeRecognition recognizer output) s).stats.inferenceRuns =
        s.stats.inferenceRuns ∧
      (ps.foldl (storeRecognition recognizer output) s).session = s.session := by
  induction ps with
  | nil => exact fun s => ⟨rfl, rfl, rfl⟩
  | cons p ps ih =>
    intro s
    obtain ⟨hrecognitions, hruns, hsession⟩ := ih (storeRecognition recognizer output s p)
    refine ⟨hrecognitions, hruns.trans ?_, hsession⟩
    unfold storeRecognition
    dsimp only
    split <;> rfl

variable (recognizer) in
/-- The rows of the members get stored at the places of their crops. -/
theorem storeRecognition_zipIdx (output : ScoreTensor β) {batch : List (Fin n)}
    (hnodup : batch.Nodup) (s : CropsState σ β n) :
    let s' := batch.zipIdx.foldl (storeRecognition recognizer output) s
    s'.stats.inferenceRuns = s.stats.inferenceRuns ∧ s'.session = s.session ∧
    (∀ (k : Nat) (h : k < batch.length), s'.recognitions[batch[k]] =
      decodeRecognition recognizer.classProbability output k recognizer.dictionary
        recognizer.config.recognitionThreshold) ∧
    ∀ i ∉ batch, s'.recognitions[i] = s.recognitions[i] := by
  obtain ⟨hrecognitions, hruns, hsession⟩ :=
    storeRecognition_foldl recognizer output batch.zipIdx s
  have hplaces : batch.zipIdx.map Prod.fst = batch := List.zipIdx_map_fst 0 batch
  obtain ⟨hvalue, hkeep⟩ := Writes.foldl_set_spec Prod.fst (fun p : Fin n × Nat =>
    decodeRecognition recognizer.classProbability output p.2 recognizer.dictionary
      recognizer.config.recognitionThreshold) batch.zipIdx s.recognitions (hplaces.symm ▸ hnodup)
  rw [hplaces] at hkeep
  refine ⟨hruns, hsession, fun k hk => ?_, fun i hi => hrecognitions ▸ hkeep i hi⟩
  have hmem : (batch[k], k) ∈ batch.zipIdx := by
    rw [List.mk_mem_zipIdx_iff_getElem?, List.getElem?_eq_getElem hk]
  rw [hrecognitions]
  exact hvalue _ hmem

variable (δ crops) in
omit [LinearOrder β] in
/-- The model computes a row for each image of a batch. -/
theorem runSession_rows (horacle : IsRowOracle recognizer oracle) (session : σ)
    {indices : List (Fin n)}
    (hsize : IsBatchSize recognizer.config recognizer.modelShape indices.length) :
    let batch := makeRecognitionBatch δ recognizer.resize crops indices recognizer.config
      recognizer.modelShape
    let height := targetHeight recognizer.config recognizer.modelShape
    let width := targetWidth δ crops indices recognizer.config recognizer.modelShape
    ∃ output rest,
      (recognizer.runSession session batch.shape batch.tensor).1 = output :: rest ∧
      ∀ (k : Nat) (index : Fin n), indices[k]? = some index → output.InBatch k ∧
        output.IsRow k (oracle height width
          (cropRow δ recognizer.resize recognizer.config height width crops[index])) := by
  intro batch height width
  have hrows : ∀ index : Fin n, (cropRow δ recognizer.resize recognizer.config height width
      crops[index]).length = rowSize height width := fun index => length_cropRow _ _ _ _ _
  obtain ⟨output, rest, hrun, hrow⟩ := horacle session indices.length height width batch.tensor
    hsize (length_tensor _ _ _ _ _)
  refine ⟨output, rest, hrun, fun k index hindex => ?_⟩
  obtain ⟨hk, rfl⟩ := List.getElem?_eq_some_iff.mp hindex
  obtain ⟨hin, hisRow⟩ := hrow k hk
  rw [makeRecognitionBatch_tensor, Writes.slice_flatMap _ (fun index : Fin n =>
    cropRow δ recognizer.resize recognizer.config height width crops[index]) hrows indices k hk]
    at hisRow
  exact ⟨hin, hisRow⟩

variable (crops) in
/-- **One batch**: each member gets the decoded row of its crop, and no other crop does. -/
theorem storeBatch_spec (horacle : IsRowOracle recognizer oracle) (session : σ)
    {batch : List (Fin n)} (hnodup : batch.Nodup) {repeats : List (Fin n)}
    (hpadded : paddedIndices recognizer.config recognizer.modelShape batch = batch ++ repeats)
    (hsize : IsBatchSize recognizer.config recognizer.modelShape (batch ++ repeats).length) :
    ∃ output rest,
      (recognizer.runSession session (batchInput δ recognizer crops batch).shape
        (batchInput δ recognizer crops batch).tensor).1 = output :: rest ∧
      ∀ s : CropsState σ β n,
        let s' := ((batch ++ repeats).zipIdx.take batch.length).foldl
          (storeRecognition recognizer output) s
        s'.stats.inferenceRuns = s.stats.inferenceRuns ∧ s'.session = s.session ∧
        (∀ i ∈ batch, s'.recognitions[i] =
          cropRecognition δ recognizer oracle crops batch crops[i]) ∧
        ∀ i ∉ batch, s'.recognitions[i] = s.recognitions[i] := by
  obtain ⟨output, rest, hrun, hrow⟩ := runSession_rows δ crops horacle session hsize
  refine ⟨output, rest, ?_, fun s => ?_⟩
  · unfold batchInput
    rw [hpadded]
    exact hrun
  have hzip : (batch ++ repeats).zipIdx.take batch.length = batch.zipIdx := by
    rw [List.zipIdx_append]
    exact List.take_left' (List.length_zipIdx)
  rw [hzip]
  obtain ⟨hruns, hsession, hvalue, hkeep⟩ := storeRecognition_zipIdx recognizer output hnodup s
  refine ⟨hruns, hsession, fun i hi => ?_, hkeep⟩
  obtain ⟨k, hk, rfl⟩ := List.getElem_of_mem hi
  obtain ⟨hin, hisRow⟩ := hrow k batch[k] (by
    rw [List.getElem?_append_left hk, List.getElem?_eq_getElem hk])
  refine (hvalue k hk).trans ?_
  rw [decodeRecognition_collapse _ _ _ _ _ hin, (stepLogits_isRow hin).unique hisRow]
  unfold cropRecognition
  rw [hpadded]

variable (crops) in
/-- **The loop** over the batches: each of the remaining crops gets its decoded row, and the session
is run on the batches in their order. -/
theorem recognizeFrom_spec (horacle : IsRowOracle recognizer oracle)
    (sorted : List (Fin n)) (start : Nat) (hnodup : (sorted.drop start).Nodup) :
    ∀ s : CropsState σ β n, ∃ s', recognizeFrom δ recognizer crops sorted start s = (true, s') ∧
      s'.session = runAll recognizer.runSession s.session ((batchesFrom sorted
        (batchCapacity recognizer.config recognizer.modelShape) start).map
          (batchInput δ recognizer crops)) ∧
      s'.stats.inferenceRuns = s.stats.inferenceRuns + (batchesFrom sorted
        (batchCapacity recognizer.config recognizer.modelShape) start).length ∧
      (∀ batch ∈ batchesFrom sorted (batchCapacity recognizer.config recognizer.modelShape) start,
        ∀ i ∈ batch, s'.recognitions[i] =
          cropRecognition δ recognizer oracle crops batch crops[i]) ∧
      ∀ i ∉ sorted.drop start, s'.recognitions[i] = s.recognitions[i] := by
  generalize hcapacity : batchCapacity recognizer.config recognizer.modelShape = capacity
  induction start using batchesFrom.induct sorted capacity with
  | case1 start hlt ih =>
    intro s
    have hsplit := List.take_append_drop capacity.1 (sorted.drop start)
    rw [← hsplit, List.nodup_append, List.drop_drop] at hnodup
    obtain ⟨hbatchNodup, hrestNodup, hdisjoint⟩ := hnodup
    have hbatches := batchesFrom_cons capacity hlt
    have hmem : (sorted.drop start).take capacity.1 ∈ batchesFrom sorted capacity start := by
      rw [hbatches]
      exact List.mem_cons_self ..
    obtain ⟨hne, hle⟩ := mem_batchesFrom hmem
    obtain ⟨⟨repeats, hpadded⟩, hsize⟩ := paddedIndices_spec recognizer.config
      recognizer.modelShape hne (by rw [hcapacity]; exact hle)
    rw [hpadded] at hsize
    obtain ⟨output, rest, hrun, hstore⟩ :=
      storeBatch_spec (δ := δ) crops horacle s.session hbatchNodup hpadded hsize
    set session := (recognizer.runSession s.session
      (batchInput δ recognizer crops ((sorted.drop start).take capacity.1)).shape
      (batchInput δ recognizer crops ((sorted.drop start).take capacity.1)).tensor).2
      with hsession
    obtain ⟨hruns, hsession', hvalue, hkeep⟩ :=
      hstore { s with stats := countOutput s.stats output, session }
    obtain ⟨s', hloop, hsession'', hruns', hvalue', hkeep'⟩ := ih hrestNodup
      (((((sorted.drop start).take capacity.1) ++ repeats).zipIdx.take
        ((sorted.drop start).take capacity.1).length).foldl (storeRecognition recognizer output)
        { s with stats := countOutput s.stats output, session })
    refine ⟨s', ?_, ?_, ?_, fun batch hbatch i hi => ?_, fun i hi => ?_⟩
    · have hanswer : recognizer.runSession s.session
          (batchInput δ recognizer crops ((sorted.drop start).take capacity.1)).shape
          (batchInput δ recognizer crops ((sorted.drop start).take capacity.1)).tensor =
            (output :: rest, session) := Prod.ext hrun hsession.symm
      unfold batchInput at hanswer
      rw [hpadded] at hanswer
      rw [recognizeFrom, if_pos hlt]
      dsimp only
      rw [hcapacity, hpadded, hanswer]
      exact hloop
    · rw [hsession'', hsession', hbatches]
      rfl
    · rw [hruns', hruns, hbatches, List.length_cons]
      show s.stats.inferenceRuns + 1 + _ = _
      omega
    · rw [hbatches] at hbatch
      rcases List.mem_cons.mp hbatch with rfl | hbatch
      · -- later batches have other members
        rw [hkeep' i fun hlater => hdisjoint i hi i hlater rfl]
        exact hvalue i hi
      · exact hvalue' batch hbatch i hi
    · rw [← hsplit, List.mem_append, List.drop_drop, not_or] at hi
      rw [hkeep' i hi.2, hkeep i hi.1]
  | case2 start hend =>
    intro s
    rw [recognizeFrom, if_neg hend, batchesFrom, if_neg hend]
    exact ⟨s, rfl, rfl, rfl, fun batch hbatch => (by cases hbatch), fun i _ => rfl⟩

variable (δ crops) in
/-- **Batched recognition scatters correctly.** For a model whose row for an image does not depend
on the others, and which need only accept batches of its size: every crop is in one batch once,
repeats apart; the session is run on the tensors of these batches, one after the other, and on
nothing else, none of them exceeding the capacity and all of the fixed size if there is one; and
the result at the index of a crop is the decoded row of its image, which is that of the crop alone
where the width of the batch makes no difference. -/
theorem recognizeCrops_scatters (recognizer : Recognizer σ π β)
    (oracle : Int → Int → List β → List (List β)) (horacle : IsRowOracle recognizer oracle)
    (stats : RecognitionStats) (session : σ) :
    ∃ (batches : List (List (Fin n))) (s : CropsState σ β n),
      recognizeCrops δ recognizer crops stats session = (true, s) ∧
      batches.flatten.Perm (List.finRange n) ∧
      s.session = runAll recognizer.runSession session
        (batches.map (batchInput δ recognizer crops)) ∧
      s.stats.inferenceRuns = stats.inferenceRuns + batches.length ∧
      (∀ batch ∈ batches,
        (∃ repeats, (batchInput δ recognizer crops batch).sourceIndices = batch ++ repeats) ∧
        ∃ (count : Nat) (height width : Int),
          (batchInput δ recognizer crops batch).sourceIndices.length = count ∧
          (batchInput δ recognizer crops batch).shape = [(count : Int), 3, height, width] ∧
          (batchInput δ recognizer crops batch).tensor.length = count * rowSize height width ∧
          count ≤ (batchCapacity recognizer.config recognizer.modelShape).1 ∧
          (0 < fixedBatch recognizer.modelShape →
            (count : Int) = fixedBatch recognizer.modelShape)) ∧
      (∀ batch ∈ batches, ∀ i ∈ batch,
        s.recognitions[i] = cropRecognition δ recognizer oracle crops batch crops[i]) ∧
      ∀ steps : CropImage π → List (List β),
        (∀ (i : Fin n) (width : Int), oracle (targetHeight recognizer.config recognizer.modelShape)
          width (cropRow δ recognizer.resize recognizer.config
            (targetHeight recognizer.config recognizer.modelShape) width crops[i]) =
          steps crops[i]) →
        ∀ i : Fin n, s.recognitions[i] = ctcCollapse recognizer.classProbability maxElement
          recognizer.dictionary recognizer.config.recognitionThreshold (steps crops[i]) := by
  have hperm : (sortedIndices δ crops).Perm (List.finRange n) := sortBy_perm _ _
  have hflatten := batchesFrom_flatten (sortedIndices δ crops)
    (batchCapacity recognizer.config recognizer.modelShape) 0
  rw [List.drop_zero] at hflatten
  obtain ⟨s, hrun, hsession, hruns, hvalue, -⟩ := recognizeFrom_spec (δ := δ) crops horacle
    (sortedIndices δ crops) 0 (hperm.nodup_iff.mpr (List.nodup_finRange n))
    ⟨Vector.replicate n emptyRecognition, stats, session⟩
  refine ⟨_, s, ?_, (List.Perm.of_eq hflatten).trans hperm, hsession, hruns,
    fun batch hbatch => ?_, hvalue, fun steps hsteps i => ?_⟩
  · unfold recognizeCrops
    dsimp only
    split
    next hempty =>
      subst hempty
      rw [← hrun, recognizeFrom, if_neg (by rw [hperm.length_eq]; simp)]
    · exact hrun
  · obtain ⟨hne, hle⟩ := mem_batchesFrom hbatch
    obtain ⟨hrepeats, hcount, hfixed⟩ := paddedIndices_spec recognizer.config
      recognizer.modelShape hne hle
    exact ⟨hrepeats, _, _, _, rfl, rfl, length_tensor _ _ _ _ _, hcount, hfixed⟩
  · have hi := hperm.mem_iff.mpr (List.mem_finRange i)
    rw [← hflatten] at hi
    obtain ⟨batch, hbatch, hi⟩ := List.mem_flatten.mp hi
    rw [hvalue batch hbatch i hi]
    unfold cropRecognition
    dsimp only
    rw [hsteps]

end Loop

/-! ## A model that adds the values of an image -/

section Example

def sumScores (row : List ℚ) : List ℚ := [0, row.sum]

/-- The sum of each image, as the score of the only label. The session takes batches of two, and
keeps the shapes that it is given. -/
def sumSession : RunSession (List (List Int)) ℚ := fun log shape tensor =>
  (match shape with
    | [2, _, height, width] =>
      [⟨[2, 1, 2], (List.range 2).flatMap fun k => sumScores
        ((tensor.drop (k * rowSize height width)).take (rowSize height width)), by
          rw [List.length_flatMap]
          simp [sumScores]⟩]
    | _ => [], log ++ [shape])

def sumRecognizer : Recognizer (List (List Int)) ℚ ℚ where
  resize := fun _ crop _ _ _ _ _ => crop.pixels
  runSession := sumSession
  classProbability := fun scores index => scores.getD index 0
  modelShape := [2, 3, 1, -1]
  dictionary := ["x"]
  config := ⟨1, 2, 8, 2, 8, 0, false, 1, fun _ => 0, fun _ => 1⟩

theorem sumRecognizer_isRowOracle :
    IsRowOracle sumRecognizer fun _ _ row => [sumScores row] := by
  intro log count height width tensor hsize _
  have htwo : count = 2 := by
    have hfixed := hsize.2 (by decide : 0 < fixedBatch sumRecognizer.modelShape)
    exact Int.ofNat_inj.mp hfixed
  subst htwo
  refine ⟨_, _, rfl, fun k hk => ?_⟩
  have hslice := Writes.slice_flatMap 2 (fun k : Nat => sumScores
    ((tensor.drop (k * rowSize height width)).take (rowSize height width))) (fun _ => rfl)
    (List.range 2) k (by simpa using hk)
  rw [List.getElem_range] at hslice
  refine ⟨⟨fun hnil => ?_, (by decide : 2 ≤ 3), hk⟩, rfl, fun t ht => ?_⟩
  · have hempty : ((List.range 2).flatMap fun k => sumScores
        ((tensor.drop (k * rowSize height width)).take (rowSize height width))) = [] := hnil
    rw [hempty, List.drop_nil, List.take_nil] at hslice
    exact List.cons_ne_nil _ _ hslice.symm
  · have hzero : t = 0 := by simpa using ht
    subst hzero
    refine ⟨rfl, fun c (hc : c < 2) => ?_⟩
    rw [List.getElem_singleton, ← hslice, List.getElem?_take_of_lt hc, List.getElem?_drop]
    have hindex : k * 2 = (k * 1 + 0) * 2 := by omega
    rw [hindex]
    rfl

theorem runAll_sumSession {n : Nat} (inputs : List (RecognitionBatchInput ℚ n)) :
    ∀ log, runAll sumSession log inputs = log ++ inputs.map (·.shape) := by
  induction inputs with
  | nil => exact fun log => (List.append_nil log).symm
  | cons input inputs ih =>
    intro log
    refine (ih (log ++ [input.shape])).trans ?_
    rw [List.append_assoc]
    rfl

/-- Three crops, the first wider than the others. -/
def shadedCrops : Vector (CropImage ℚ) 3 := #v[⟨1, 4, 1⟩, ⟨1, 2, 0⟩, ⟨2, 2, 1⟩]

/-- The session has been given two images at a time, the last one twice. -/
theorem recognizeCrops_scatters_shaded : ∃ (batches : List (List (Fin 3)))
    (s : CropsState (List (List Int)) ℚ 3),
    recognizeCrops ℚ sumRecognizer shadedCrops ⟨0, 0, 0, []⟩ [] = (true, s) ∧
      batches.flatten.Perm (List.finRange 3) ∧
      s.session.length = batches.length ∧
      (∀ shape ∈ s.session, ∃ height width, shape = [2, 3, height, width]) ∧
      ∀ batch ∈ batches, ∀ i ∈ batch, s.recognitions[i] = cropRecognition ℚ sumRecognizer
        (fun _ _ row => [sumScores row]) shadedCrops batch shadedCrops[i] := by
  obtain ⟨batches, s, hrun, hperm, hsession, -, hsizes, hvalue, -⟩ :=
    recognizeCrops_scatters ℚ shadedCrops sumRecognizer (fun _ _ row => [sumScores row])
      sumRecognizer_isRowOracle ⟨0, 0, 0, []⟩ []
  have hlog : s.session = (batches.map (batchInput ℚ sumRecognizer shadedCrops)).map (·.shape) :=
    hsession.trans (runAll_sumSession _ [])
  refine ⟨batches, s, hrun, hperm, ?_, fun shape hshape => ?_, hvalue⟩
  · rw [hlog, List.length_map, List.length_map]
  · rw [hlog, List.map_map] at hshape
    obtain ⟨batch, hbatch, rfl⟩ := List.mem_map.mp hshape
    obtain ⟨-, count, height, width, -, hshape, -, -, hfixed⟩ := hsizes batch hbatch
    have htwo := hfixed (by decide)
    refine ⟨height, width, hshape.trans ?_⟩
    rw [htwo]
    rfl

end Example

end DocParser.Ocr
