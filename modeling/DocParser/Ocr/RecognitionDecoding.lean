import Mathlib.Algebra.Order.Field.Rat
import Mathlib.Algebra.BigOperators.Ring.List
import Mathlib.Tactic.Ring
import DocParser.Lib.Runs

/-!
# Decoding a recognition

The recognition model scores classes for each time step of a crop. `decodeRecognition_eq` says that
the loop with its previous class is the collapse of connectionist temporal classification: the best
class of each step, one for each run, without the blank and the classes that have no label.
-/

namespace DocParser.Ocr

/-! ## The source -/

section Definitions

variable {α : Type}

/-- An `Ort::Value` of scores, the last index running fastest. -/
structure ScoreTensor (α : Type) where
  shape : List Nat
  data : List α
  size : data.length = shape.prod

structure RecognitionResult (α : Type) where
  text : String
  confidence : α
  deriving DecidableEq, Repr

/-- The variables of the loop over the time steps. -/
structure DecodeState (α : Type) where
  text : String
  confidenceSum : α
  emittedCount : Nat
  previousIndex : Int

def labelForIndex (index : Int) (dictionary : List String) : String :=
  if index ≤ 0 then ""
  else
    let dictionaryIndex := index - 1
    if 0 ≤ dictionaryIndex ∧ dictionaryIndex < dictionary.length then
      dictionary.getD dictionaryIndex.toNat ""
    else if dictionaryIndex = dictionary.length then " "
    else ""

def ScoreTensor.classCount (tensor : ScoreTensor α) : Nat :=
  tensor.shape.getD (tensor.shape.length - 1) 0

def ScoreTensor.timeSteps (tensor : ScoreTensor α) : Nat :=
  tensor.shape.getD (tensor.shape.length - 2) 0

def ScoreTensor.batchCount (tensor : ScoreTensor α) : Nat :=
  if 3 ≤ tensor.shape.length then tensor.shape.getD (tensor.shape.length - 3) 0 else 1

/-- The scores that the loop reads at each time step. -/
def ScoreTensor.stepLogits (tensor : ScoreTensor α) (batchIndex : Nat) : List (List α) :=
  let logits := tensor.data.drop (batchIndex * (tensor.timeSteps * tensor.classCount))
  (List.range tensor.timeSteps).map fun timeIndex =>
    (logits.drop (timeIndex * tensor.classCount)).take tensor.classCount

/-- The distance of `std::max_element` from the first element. -/
def maxElement [LinearOrder α] : List α → Nat
  | [] => 0
  | first :: rest =>
    ((rest.zipIdx 1).foldl (fun best p => if best.1 < p.1 then p else best) (first, 0)).2

variable [Field α] [LinearOrder α]

def emptyRecognition : RecognitionResult α := ⟨"", 0⟩

/-- The body of the loop. -/
def decodeStep (classProbability : List α → Nat → α) (dictionary : List String)
    (s : DecodeState α) (stepLogits : List α) : DecodeState α :=
  let bestIndex := maxElement stepLogits
  if bestIndex = 0 ∨ (bestIndex : Int) = s.previousIndex then
    { s with previousIndex := bestIndex }
  else
    let label := labelForIndex bestIndex dictionary
    if label.isEmpty then { s with previousIndex := bestIndex }
    else
      { text := s.text ++ label
        confidenceSum := s.confidenceSum + classProbability stepLogits bestIndex
        emittedCount := s.emittedCount + 1
        previousIndex := bestIndex }

def decodeRecognition (classProbability : List α → Nat → α) (output : ScoreTensor α)
    (batchIndex : Nat) (dictionary : List String) (threshold : α) : RecognitionResult α :=
  if output.data.isEmpty ∨ output.shape.length < 2 then emptyRecognition
  else if output.classCount = 0 ∨ output.timeSteps = 0 ∨ output.batchCount = 0 ∨
      output.batchCount ≤ batchIndex then emptyRecognition
  else
    let s := (output.stepLogits batchIndex).foldl (decodeStep classProbability dictionary)
      ⟨"", 0, 0, -1⟩
    if s.emittedCount = 0 then emptyRecognition
    else
      let confidence := s.confidenceSum / (s.emittedCount : α)
      if confidence < threshold then emptyRecognition else ⟨s.text, confidence⟩

end Definitions

/-! ## The collapse -/

section Collapse

variable {α : Type}

/-- The first of the best classes. -/
structure IsFirstMax [LinearOrder α] (scores : List α) (index : Nat) : Prop where
  inRange : index < scores.length
  best : ∀ (other : Nat) (h : other < scores.length), scores[other] ≤ scores[index]
  first : ∀ (other : Nat) (h : other < index), scores[other] < scores[index]

/-- The scores of a batch index: for each time step those of all classes. -/
structure ScoreTensor.IsRow (tensor : ScoreTensor α) (batchIndex : Nat) (steps : List (List α)) :
    Prop where
  timeSteps : steps.length = tensor.timeSteps
  scores : ∀ (t : Nat) (h : t < steps.length), steps[t].length = tensor.classCount ∧
    ∀ c < tensor.classCount,
      steps[t][c]? = tensor.data[(batchIndex * tensor.timeSteps + t) * tensor.classCount + c]?

/-- A batch index of a tensor that has scores. -/
def ScoreTensor.InBatch (tensor : ScoreTensor α) (batchIndex : Nat) : Prop :=
  tensor.data ≠ [] ∧ 2 ≤ tensor.shape.length ∧ batchIndex < tensor.batchCount

/-- A class that is not the blank and has a label. -/
def hasLabel (dictionary : List String) (run : Nat × List α) : Bool :=
  run.1 != 0 && !(labelForIndex run.1 dictionary).isEmpty

/-- The first step of each run of a class that has a label, with the class. -/
def emittedRuns (best : List α → Nat) (dictionary : List String) (steps : List (List α)) :
    List (Nat × List α) :=
  (Runs.firsts Prod.fst (steps.map fun step => (best step, step))).filter (hasLabel dictionary)

/-- The collapse of the best classes, with the mean of the first steps of the runs. -/
def ctcCollapse [Field α] [LinearOrder α] (classProbability : List α → Nat → α)
    (best : List α → Nat) (dictionary : List String) (threshold : α) (steps : List (List α)) :
    RecognitionResult α :=
  let runs := emittedRuns best dictionary steps
  let confidence := (runs.map fun run => classProbability run.2 run.1).sum / (runs.length : α)
  if runs.isEmpty ∨ confidence < threshold then emptyRecognition
  else ⟨String.join (runs.map fun run => labelForIndex run.1 dictionary), confidence⟩

end Collapse

/-! ## The best class -/

section Best

variable {α : Type} [LinearOrder α]

theorem IsFirstMax.unique {scores : List α} {i j : Nat} (hi : IsFirstMax scores i)
    (hj : IsFirstMax scores j) : i = j := by
  rcases Nat.lt_trichotomy i j with h | h | h
  · exact absurd (hj.first i h) (not_lt.mpr (hi.best j hj.inRange))
  · exact h
  · exact absurd (hi.first j h) (not_lt.mpr (hj.best i hi.inRange))

/-- One more score. -/
theorem IsFirstMax.concat {scores : List α} {index : Nat} (h : IsFirstMax scores index)
    (hin : index < scores.length) (score : α) :
    IsFirstMax (scores ++ [score])
      (if scores[index] < score then scores.length else index) := by
  have hlength : (scores ++ [score]).length = scores.length + 1 := by simp
  have hold : ∀ (other : Nat) (hother : other < scores.length),
      (scores ++ [score])[other] = scores[other] := fun other hother =>
    List.getElem_append_left hother
  have hnew : (scores ++ [score])[scores.length] = score := by simp
  have hcase : ∀ (other : Nat) (hother : other < (scores ++ [score]).length) (bound : α),
      scores[index] ≤ bound → score ≤ bound → (scores ++ [score])[other] ≤ bound := by
    intro other hother bound hmax hscore
    rcases Nat.lt_or_ge other scores.length with hlt | hge
    · rw [hold other hlt]
      exact (h.best other hlt).trans hmax
    · have hlast : other = scores.length := by omega
      subst hlast
      rw [hnew]
      exact hscore
  split
  next hlt =>
    refine ⟨by omega, fun other hother => ?_, fun other hother => ?_⟩
    · rw [hnew]
      exact hcase other hother score hlt.le le_rfl
    · rw [hold other hother, hnew]
      exact (h.best other hother).trans_lt hlt
  next hnot =>
    refine ⟨by omega, fun other hother => ?_, fun other hother => ?_⟩
    · rw [hold index hin]
      exact hcase other hother _ le_rfl (not_lt.mp hnot)
    · rw [hold other (hother.trans hin), hold index hin]
      exact h.first other hother

theorem maxElement_loop (rest : List α) : ∀ (seen : List α) (index : Nat)
    (hin : index < seen.length), IsFirstMax seen index → IsFirstMax (seen ++ rest)
      ((rest.zipIdx seen.length).foldl (fun best p => if best.1 < p.1 then p else best)
        (seen[index], index)).2 := by
  induction rest with
  | nil =>
    intro seen index hin h
    rw [List.append_nil]
    exact h
  | cons score rest ih =>
    intro seen index hin h
    have hconcat := h.concat hin score
    have hin' := hconcat.inRange
    have hnext := ih _ _ hin' hconcat
    rw [List.append_assoc, List.length_append, List.length_singleton] at hnext
    rw [List.zipIdx_cons, List.foldl_cons]
    have hstart : (if seen[index] < score then (score, seen.length) else (seen[index], index)) =
        ((seen ++ [score])[if seen[index] < score then seen.length else index],
          if seen[index] < score then seen.length else index) := by
      split
      · simp
      · simp only [List.getElem_append_left hin]
    rw [hstart]
    exact hnext

/-- `std::max_element` finds the first of the largest scores. -/
theorem maxElement_spec {scores : List α} (h : scores ≠ []) :
    IsFirstMax scores (maxElement scores) := by
  cases scores with
  | nil => exact absurd rfl h
  | cons first rest =>
    have hone : IsFirstMax [first] 0 := by
      refine ⟨Nat.one_pos, fun other hother => ?_, fun other hother => absurd hother (by omega)⟩
      have hzero : other = 0 := by simpa using hother
      subst hzero
      exact le_rfl
    exact maxElement_loop rest [first] 0 Nat.one_pos hone

end Best

/-! ## The loop -/

section Loop

variable {α : Type} [Field α] [LinearOrder α] {classProbability : List α → Nat → α}
  {dictionary : List String}

/-- What the loop does with the first step of a run. -/
def emit (classProbability : List α → Nat → α) (dictionary : List String) (s : String × α × Nat)
    (run : Nat × List α) : String × α × Nat :=
  (s.1 ++ labelForIndex run.1 dictionary, s.2.1 + classProbability run.2 run.1, s.2.2 + 1)

/-- The state of the loop with the last class, if there was one. -/
def DecodeState.Shows (s : DecodeState α) (result : String × α × Nat) (previous : Option Nat) :
    Prop :=
  s.text = result.1 ∧ s.confidenceSum = result.2.1 ∧ s.emittedCount = result.2.2 ∧
    s.previousIndex = previous.elim (-1) Int.ofNat

/-- **One time step** is one element of a pass over runs. -/
theorem DecodeState.Shows.decodeStep {s : DecodeState α} {p : (String × α × Nat) × Option Nat}
    (h : s.Shows p.1 p.2) (step : List α) {p' : (String × α × Nat) × Option Nat}
    (hp' : Runs.pass Prod.fst (fun r run => if hasLabel dictionary run then
      emit classProbability dictionary r run else r) p (maxElement step, step) = p') :
    (Ocr.decodeStep classProbability dictionary s step).Shows p'.1 p'.2 := by
  obtain ⟨htext, hsum, hcount, hprevious⟩ := h
  have hsame : ((maxElement step : Int) = s.previousIndex) ↔ p.2 = some (maxElement step) := by
    rw [hprevious]
    cases p.2 with
    | none => simp
    | some previous => simp [eq_comm]
  subst hp'
  unfold Ocr.decodeStep Runs.pass
  dsimp only
  by_cases hrun : p.2 = some (maxElement step)
  · rw [if_pos (.inr (hsame.mpr hrun)), if_pos hrun]
    exact ⟨htext, hsum, hcount, by rw [hrun]; rfl⟩
  rw [if_neg hrun]
  by_cases hblank : maxElement step = 0
  · rw [if_pos (.inl hblank), hblank]
    exact ⟨htext, hsum, hcount, rfl⟩
  rw [if_neg (not_or.mpr ⟨hblank, fun heq => hrun (hsame.mp heq)⟩)]
  unfold hasLabel
  cases hlabel : (labelForIndex (maxElement step) dictionary).isEmpty with
  | true =>
    simp only [Bool.not_true, Bool.and_false, Bool.false_eq_true, if_true, if_false]
    exact ⟨htext, hsum, hcount, rfl⟩
  | false =>
    have hne : (maxElement step != 0) = true := bne_iff_ne.mpr hblank
    simp only [hne, Bool.not_false, Bool.and_true, Bool.false_eq_true, if_true, if_false]
    refine ⟨?_, ?_, ?_, rfl⟩
    · rw [htext]
      rfl
    · rw [hsum]
      rfl
    · rw [hcount]
      rfl

variable (classProbability dictionary) in
theorem decodeStep_foldl (steps : List (List α)) :
    ∀ (s : DecodeState α) (p : (String × α × Nat) × Option Nat), s.Shows p.1 p.2 →
    ∃ previous, (steps.foldl (Ocr.decodeStep classProbability dictionary) s).Shows
      ((steps.map fun step => (maxElement step, step)).foldl (Runs.pass Prod.fst (fun r run =>
        if hasLabel dictionary run then emit classProbability dictionary r run else r)) p).1
      previous := by
  induction steps with
  | nil => exact fun s p h => ⟨p.2, h⟩
  | cons step steps ih => exact fun s p h => ih _ _ (h.decodeStep step rfl)

omit [LinearOrder α] in
/-- What the runs add up to. -/
theorem foldl_emit (runs : List (Nat × List α)) : ∀ r : String × α × Nat,
    runs.foldl (emit classProbability dictionary) r =
      (r.1 ++ String.join (runs.map fun run => labelForIndex run.1 dictionary),
        r.2.1 + (runs.map fun run => classProbability run.2 run.1).sum, r.2.2 + runs.length) := by
  induction runs with
  | nil => simp
  | cons run runs ih =>
    intro r
    rw [List.foldl_cons, ih]
    unfold emit
    simp only [List.map_cons, List.sum_cons, List.length_cons, String.join_cons]
    refine Prod.ext ?_ (Prod.ext ?_ ?_)
    · exact String.append_assoc
    · exact add_assoc _ _ _
    · show r.2.2 + 1 + runs.length = r.2.2 + (runs.length + 1)
      omega

variable (classProbability dictionary) in
/-- The loop adds up the labelled runs. -/
theorem decodeLoop_eq (steps : List (List α)) :
    let s := steps.foldl (Ocr.decodeStep classProbability dictionary) ⟨"", 0, 0, -1⟩
    let runs := emittedRuns maxElement dictionary steps
    s.text = String.join (runs.map fun run => labelForIndex run.1 dictionary) ∧
      s.confidenceSum = (runs.map fun run => classProbability run.2 run.1).sum ∧
      s.emittedCount = runs.length := by
  obtain ⟨previous, htext, hsum, hcount, -⟩ := decodeStep_foldl classProbability
    dictionary steps ⟨"", 0, 0, -1⟩ (("", 0, 0), none) ⟨rfl, rfl, rfl, rfl⟩
  rw [Runs.foldl_pass, ← List.foldl_filter, foldl_emit] at htext hsum hcount
  refine ⟨htext.trans ?_, hsum.trans ?_, hcount.trans ?_⟩
  · exact String.empty_append
  · exact zero_add _
  · exact Nat.zero_add _

end Loop

/-! ## The tensor -/

section Tensor

variable {α : Type} {tensor : ScoreTensor α} {batchIndex : Nat}

theorem getD_back (dims : List Nat) {k : Nat} (h : k < dims.length) :
    dims.reverse.getD (dims.reverse.length - (k + 1)) 0 = dims.getD k 0 := by
  rw [List.getD, List.getD, List.length_reverse, List.getElem?_reverse (by omega)]
  congr 2
  omega

/-- The rows of a batch are in the data. -/
theorem batchCount_le (hdata : tensor.data ≠ []) (hrank : 2 ≤ tensor.shape.length) :
    tensor.batchCount * (tensor.timeSteps * tensor.classCount) ≤ tensor.data.length ∧
      0 < tensor.timeSteps ∧ 0 < tensor.classCount := by
  have hpos : 0 < tensor.shape.prod := tensor.size ▸ List.length_pos_iff.mpr hdata
  rw [tensor.size]
  unfold ScoreTensor.batchCount ScoreTensor.timeSteps ScoreTensor.classCount
  generalize hdims : tensor.shape.reverse = dims
  rw [← List.reverse_reverse tensor.shape, hdims] at hrank hpos ⊢
  rw [List.prod_reverse] at hpos ⊢
  rw [List.length_reverse] at hrank
  have hclass := getD_back dims (k := 0) (by omega)
  have htime := getD_back dims (k := 1) (by omega)
  rw [hclass, htime]
  have hfactor : ∀ dim ∈ dims, 0 < dim := fun dim hdim =>
    Nat.pos_of_ne_zero fun hzero => hpos.ne' (List.prod_eq_zero (hzero ▸ hdim))
  -- the dimensions from the last one on
  match dims, hrank, hpos, hfactor with
  | [classCount, timeSteps], _, _, hfactor =>
    refine ⟨?_, hfactor timeSteps (by simp), hfactor classCount (by simp)⟩
    simp [mul_comm]
  | classCount :: timeSteps :: batchCount :: outer, _, hpos, hfactor =>
    refine ⟨?_, hfactor timeSteps (by simp), hfactor classCount (by simp)⟩
    rw [if_pos (by simp), getD_back _ (k := 2) (by simp)]
    have houter : 1 ≤ outer.prod := Nat.pos_of_ne_zero fun hzero => by simp [hzero] at hpos
    calc batchCount * (timeSteps * classCount)
        = (classCount * (timeSteps * batchCount)) * 1 := by ring
      _ ≤ (classCount * (timeSteps * batchCount)) * outer.prod := Nat.mul_le_mul_left _ houter
      _ = (classCount :: timeSteps :: batchCount :: outer).prod := by
          simp only [List.prod_cons]
          ring

/-- The loop reads the scores of its batch index. -/
theorem stepLogits_isRow (h : tensor.InBatch batchIndex) :
    tensor.IsRow batchIndex (tensor.stepLogits batchIndex) := by
  obtain ⟨hdata, hrank, hbatch⟩ := h
  obtain ⟨hle, -, -⟩ := batchCount_le hdata hrank
  unfold ScoreTensor.stepLogits
  refine ⟨by simp, fun t ht => ?_⟩
  rw [List.length_map, List.length_range] at ht
  simp only [List.getElem_map, List.getElem_range]
  -- the row of the step ends in the data
  have hend : (batchIndex * tensor.timeSteps + t + 1) * tensor.classCount ≤ tensor.data.length := by
    refine le_trans ?_ hle
    rw [← mul_assoc]
    refine Nat.mul_le_mul_right _ ?_
    calc batchIndex * tensor.timeSteps + t + 1
        ≤ batchIndex * tensor.timeSteps + tensor.timeSteps := by omega
      _ = (batchIndex + 1) * tensor.timeSteps := by ring
      _ ≤ tensor.batchCount * tensor.timeSteps := Nat.mul_le_mul_right _ hbatch
  have hstart : batchIndex * (tensor.timeSteps * tensor.classCount) + t * tensor.classCount =
      (batchIndex * tensor.timeSteps + t) * tensor.classCount := by ring
  rw [List.drop_drop, hstart]
  constructor
  · rw [List.length_take, List.length_drop]
    rw [add_mul, one_mul] at hend
    omega
  · intro c hc
    rw [List.getElem?_take_of_lt hc, List.getElem?_drop]

/-- The scores of a batch index are a row of their own. -/
theorem ScoreTensor.IsRow.unique {steps steps' : List (List α)}
    (h : tensor.IsRow batchIndex steps) (h' : tensor.IsRow batchIndex steps') :
    steps = steps' := by
  refine List.ext_getElem (h.timeSteps.trans h'.timeSteps.symm) fun t ht ht' => ?_
  obtain ⟨hlength, hscore⟩ := h.scores t ht
  obtain ⟨hlength', hscore'⟩ := h'.scores t ht'
  refine List.ext_getElem? fun c => ?_
  rcases Nat.lt_or_ge c tensor.classCount with hc | hc
  · rw [hscore c hc, hscore' c hc]
  · rw [List.getElem?_eq_none (by omega), List.getElem?_eq_none (by omega)]

end Tensor

section Decoding

variable {α : Type} [Field α] [LinearOrder α] (classProbability : List α → Nat → α)
  (tensor : ScoreTensor α) (batchIndex : Nat) (dictionary : List String) (threshold : α)

omit [Field α] [LinearOrder α] in
theorem emittedRuns_congr {best best' : List α → Nat} {steps : List (List α)}
    (h : ∀ step ∈ steps, best step = best' step) :
    emittedRuns best dictionary steps = emittedRuns best' dictionary steps := by
  unfold emittedRuns
  rw [List.map_congr_left fun step hstep => by rw [h step hstep]]

omit [Field α] in
theorem stepLogits_max (h : tensor.InBatch batchIndex) :
    ∀ step ∈ tensor.stepLogits batchIndex, IsFirstMax step (maxElement step) := by
  intro step hstep
  obtain ⟨t, ht, rfl⟩ := List.getElem_of_mem hstep
  have hclass := (batchCount_le h.1 h.2.1).2.2
  exact maxElement_spec
    (List.ne_nil_of_length_pos (((stepLogits_isRow h).scores t ht).1 ▸ hclass))

theorem decodeRecognition_collapse (h : tensor.InBatch batchIndex) :
    decodeRecognition classProbability tensor batchIndex dictionary threshold =
      ctcCollapse classProbability maxElement dictionary threshold
        (tensor.stepLogits batchIndex) := by
  obtain ⟨hdata, hrank, hbatch⟩ := h
  obtain ⟨-, htime, hclass⟩ := batchCount_le hdata hrank
  obtain ⟨htext, hsum, hcount⟩ := decodeLoop_eq classProbability
    dictionary (tensor.stepLogits batchIndex)
  unfold ctcCollapse decodeRecognition
  rw [if_neg (not_or.mpr ⟨by simpa using hdata, not_lt.mpr hrank⟩), if_neg (by omega)]
  dsimp only
  rw [htext, hsum, hcount]
  cases emittedRuns maxElement dictionary (tensor.stepLogits batchIndex) with
  | nil => rfl
  | cons run runs =>
    rw [if_neg (by simp)]
    simp only [List.isEmpty_cons, Bool.false_eq_true, false_or]

/-- **Recognition decoding is the collapse** of the best classes of the time steps of a row, for
whatever finds the best class, the first one of several. -/
theorem decodeRecognition_eq (h : tensor.InBatch batchIndex) :
    ∃ steps, tensor.IsRow batchIndex steps ∧
      (∀ step ∈ steps, ∃ index, IsFirstMax step index) ∧
      ∀ best : List α → Nat, (∀ step ∈ steps, IsFirstMax step (best step)) →
        decodeRecognition classProbability tensor batchIndex dictionary threshold =
          ctcCollapse classProbability best dictionary threshold steps := by
  have hmax := stepLogits_max tensor batchIndex h
  refine ⟨_, stepLogits_isRow h, fun step hstep => ⟨_, hmax step hstep⟩, fun best hbest => ?_⟩
  rw [decodeRecognition_collapse classProbability tensor batchIndex dictionary threshold h]
  unfold ctcCollapse
  rw [emittedRuns_congr dictionary fun step hstep => (hbest step hstep).unique (hmax step hstep)]

end Decoding

/-! ## A doubled letter across a blank -/

section Example

/-- Five time steps with the best classes 1, 1, 0, 1 and 2. -/
def doubledScores : ScoreTensor ℚ :=
  ⟨[1, 5, 3], [0, 1, 0, 0, 1, 0, 1, 0, 0, 0, 1, 1, 0, 0, 1], rfl⟩

theorem decodeRecognition_eq_doubled :
    decodeRecognition (fun scores index => scores.getD index 0) doubledScores 0 ["a", "b"] 0.5 =
      ⟨"aab", 1⟩ ∧
    ∃ steps, doubledScores.IsRow 0 steps ∧ ∀ best : List ℚ → Nat,
      (∀ step ∈ steps, IsFirstMax step (best step)) →
        ctcCollapse (fun scores index => scores.getD index 0) best ["a", "b"] 0.5 steps =
          ⟨"aab", 1⟩ := by
  have hdecoded : decodeRecognition (fun scores index => scores.getD index 0) doubledScores 0
      ["a", "b"] 0.5 = ⟨"aab", 1⟩ := by decide +kernel
  obtain ⟨steps, hrow, -, hcollapse⟩ := decodeRecognition_eq (fun scores index =>
    scores.getD index 0) doubledScores 0 ["a", "b"] 0.5 (by unfold ScoreTensor.InBatch; decide)
  exact ⟨hdecoded, steps, hrow, fun best hbest => (hcollapse best hbest).symm.trans hdecoded⟩

end Example

end DocParser.Ocr
