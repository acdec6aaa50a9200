import DocParser.Common.IeeeDouble

/-!
# Votes on the orientation of a page

A page is turned by a quarter when its lines are read better that way: two thirds of them vote for
the turn, against the better of the source and of the opposite turn. `quarterTurn_votes`: both turns
are treated alike, and never is there support for both.
-/

namespace DocParser.Ocr

/-! ## The source -/

section Definitions

structure RecognitionEvidence (α : Type) where
  confidence : α
  characters : Nat
  deriving DecidableEq, Repr

variable {α : Type} [Double α]

/-- `score`, with `std::clamp` to the unit interval. -/
def score (line : RecognitionEvidence α) : α :=
  if 4 ≤ line.characters ∧ Double.isFinite line.confidence = true then
    if line.confidence < 0 then 0 else if 1 < line.confidence then 1 else line.confidence
  else 0

def recognitionEvidenceScore (lines : List (RecognitionEvidence α)) : α :=
  if lines.isEmpty then 0
  else
    lines.foldl (fun total line => total + score line) 0 / Double.ofInt (Int.ofNat lines.length)

/-- A line that is read well, and better by a margin than another reading. -/
def votes (p : RecognitionEvidence α × RecognitionEvidence α) : Bool :=
  decide (0.85 ≤ score p.2) && decide (0.15 ≤ score p.2 - score p.1)

def supportsUpsideDown (original rotated : List (RecognitionEvidence α)) : Bool :=
  if original.length ≠ rotated.length ∨ rotated.length < 2 then false
  else
    let count := (original.zip rotated).countP votes
    decide (2 ≤ count) && decide (rotated.length * 2 ≤ count * 3) &&
      decide (0.15 ≤ recognitionEvidenceScore rotated - recognitionEvidenceScore original)

/-- The better of two readings of a line. -/
def competitor (source opposite : RecognitionEvidence α) : RecognitionEvidence α :=
  if score opposite ≤ score source then source else opposite

/-- `supports` of `supportedQuarterTurn`. -/
def supports (source candidate opposite : List (RecognitionEvidence α)) : Bool :=
  supportsUpsideDown (source.zipWith competitor opposite) candidate

def supportedQuarterTurn (source clockwise90 clockwise270 : List (RecognitionEvidence α)) : Int :=
  if source.length ≠ clockwise90.length ∨ source.length ≠ clockwise270.length then 0
  else if supports source clockwise90 clockwise270 then 90
  else if supports source clockwise270 clockwise90 then 270
  else 0

end Definitions

/-! ## Lines -/

section Lines

variable {α : Type} [Double α]

/-- A line as the source, a turn and the opposite turn read it. -/
abbrev Readings (α : Type) :=
  RecognitionEvidence α × RecognitionEvidence α × RecognitionEvidence α

/-- The readings of the lines. -/
def readings (source turn opposite : List (RecognitionEvidence α)) : List (Readings α) :=
  source.zip (turn.zip opposite)

/-- The line votes for the turn. -/
def turnVotes (line : Readings α) : Bool := votes (competitor line.1 line.2.2, line.2.1)

/-- A line that the turn reads well, and better by the margin than both other readings. -/
def clear (line : Readings α) : Bool :=
  decide (0.85 ≤ score line.2.1) && decide (0.15 ≤ score line.2.1 - score line.1) &&
    decide (0.15 ≤ score line.2.1 - score line.2.2)

theorem zip_competitors (source turn opposite : List (RecognitionEvidence α)) :
    (source.zipWith competitor opposite).zip turn =
      (readings source turn opposite).map fun line =>
        (competitor line.1 line.2.2, line.2.1) := by
  unfold readings
  induction source generalizing turn opposite with
  | nil => rfl
  | cons s source ih =>
    cases opposite with
    | nil => simp
    | cons o opposite =>
      cases turn with
      | nil => rfl
      | cons t turn => exact congrArg _ (ih turn opposite)

omit [Double α] in
/-- The readings for the opposite turn. -/
theorem readings_swap (source turn opposite : List (RecognitionEvidence α)) :
    readings source opposite turn =
      (readings source turn opposite).map fun line => (line.1, line.2.2, line.2.1) := by
  unfold readings
  induction source generalizing turn opposite with
  | nil => rfl
  | cons s source ih =>
    cases opposite with
    | nil => simp
    | cons o opposite =>
      cases turn with
      | nil => rfl
      | cons t turn => exact congrArg _ (ih turn opposite)

/-- The votes for a turn: at least two, and at least two thirds of the lines. -/
theorem supports_votes {source turn opposite : List (RecognitionEvidence α)}
    (h : supports source turn opposite = true) :
    2 ≤ turn.length ∧
    2 ≤ (readings source turn opposite).countP turnVotes ∧
    turn.length * 2 ≤ (readings source turn opposite).countP turnVotes * 3 := by
  unfold supports supportsUpsideDown at h
  split at h
  · cases h
  next hlength =>
    rw [zip_competitors, List.countP_map] at h
    simp only [Bool.and_eq_true, decide_eq_true_eq] at h
    obtain ⟨⟨htwo, hthirds⟩, -⟩ := h
    exact ⟨by omega, htwo, hthirds⟩

end Lines

section Votes

variable {α : Type} [Double α] [LawfulDouble α] [IeeeDouble α]

omit [IeeeDouble α] in
theorem isFinite_score (line : RecognitionEvidence α) :
    Double.isFinite (score line) = true := by
  unfold score
  split
  next h =>
    split
    · exact LawfulDouble.isFinite_ofInt 0
    split
    · exact LawfulDouble.isFinite_ofInt 1
    · exact h.2
  · exact LawfulDouble.isFinite_ofInt 0

theorem isNumber_score (line : RecognitionEvidence α) : IsNumber (score line) :=
  IeeeDouble.isNumber_of_isFinite _ (isFinite_score line)

/-- A competitor is at least as good as both readings. -/
theorem le_competitor (source opposite : RecognitionEvidence α) :
    score source ≤ score (competitor source opposite) ∧
      score opposite ≤ score (competitor source opposite) := by
  have hrefl : ∀ line : RecognitionEvidence α, score line ≤ score line := fun line =>
    (IeeeDouble.le_iff _ _ (isNumber_score line) (isNumber_score line)).mpr
      (IeeeDouble.strictWeakOn.irrefl (isNumber_score line))
  unfold competitor
  split
  next h => exact ⟨hrefl source, h⟩
  next h =>
    refine ⟨(IeeeDouble.le_iff _ _ (isNumber_score _) (isNumber_score _)).mpr fun hlt => h ?_,
      hrefl opposite⟩
    exact (IeeeDouble.le_iff _ _ (isNumber_score _) (isNumber_score _)).mpr
      (IeeeDouble.strictWeakOn.asymm _ _ (isNumber_score _) (isNumber_score _) hlt)

/-- A vote says that the turn reads the line better than the opposite turn does. -/
theorem lt_of_turnVotes {line : Readings α} (h : turnVotes line = true) :
    score line.2.2 < score line.2.1 := by
  unfold turnVotes votes at h
  simp only [Bool.and_eq_true, decide_eq_true_eq] at h
  have hmargin : 0 < (0.15 : α) := (IeeeDouble.decimal 15 2 (by decide) (by decide) (by decide)).2
  have hpos : 0 < score line.2.1 - score (competitor line.1 line.2.2) :=
    IeeeDouble.lt_of_lt_of_le hmargin h.2
  have hlt := (IeeeDouble.sub_pos _ _ (isFinite_score _) (isFinite_score _)).mp hpos
  exact IeeeDouble.lt_of_le_of_lt (le_competitor line.1 line.2.2).2 hlt

/-- More than half of the lines cannot vote for each turn. -/
theorem not_supports_both (source turn opposite : List (RecognitionEvidence α)) :
    ¬ (supports source turn opposite = true ∧ supports source opposite turn = true) := by
  rintro ⟨h, hopposite⟩
  obtain ⟨hturn, hcount, hthirds⟩ := supports_votes h
  obtain ⟨-, hcount', hthirds'⟩ := supports_votes hopposite
  rw [readings_swap, List.countP_map] at hcount' hthirds'
  -- a line votes for one of the two turns at most
  have hdisjoint : (readings source turn opposite).countP
      (turnVotes ∘ fun line => (line.1, line.2.2, line.2.1)) ≤
      (readings source turn opposite).countP fun line => ¬ turnVotes line = true := by
    refine List.countP_mono_left fun line _ hvotes => ?_
    have hlt := lt_of_turnVotes hvotes
    exact decide_eq_true fun hturn => asymm hlt (lt_of_turnVotes hturn)
  have hsplit := List.length_eq_countP_add_countP turnVotes (l := readings source turn opposite)
  have hlength : (readings source turn opposite).length ≤ turn.length ∧
      (readings source turn opposite).length ≤ opposite.length := by
    simp only [readings, List.length_zip]
    omega
  omega

/-- A vote is clear, as the competitor is at least as good as both other readings. -/
theorem clear_of_turnVotes [MonotoneDouble α] {line : Readings α} (h : turnVotes line = true) :
    clear line = true := by
  unfold turnVotes votes at h
  simp only [Bool.and_eq_true, decide_eq_true_eq] at h
  obtain ⟨hgood, hmargin⟩ := h
  obtain ⟨hsource, hopposite⟩ := le_competitor line.1 line.2.2
  have hmargins : ∀ other, score other ≤ score (competitor line.1 line.2.2) →
      0.15 ≤ score line.2.1 - score other := fun other hle =>
    IeeeDouble.le_trans hmargin (MonotoneDouble.sub_le_sub _ _ _ (isFinite_score _)
      (isFinite_score _) (isFinite_score _) hle)
  unfold clear
  simp only [Bool.and_eq_true, decide_eq_true_eq]
  exact ⟨⟨hgood, hmargins _ hsource⟩, hmargins _ hopposite⟩

theorem supports_clear [MonotoneDouble α] {source turn opposite : List (RecognitionEvidence α)}
    (h : supports source turn opposite = true) :
    2 ≤ (readings source turn opposite).countP clear ∧
    turn.length * 2 ≤ (readings source turn opposite).countP clear * 3 := by
  obtain ⟨-, hcount, hthirds⟩ := supports_votes h
  have hle : (readings source turn opposite).countP turnVotes ≤
      (readings source turn opposite).countP clear :=
    List.countP_mono_left fun _ _ => clear_of_turnVotes
  omega

end Votes

/-! ## Answers -/

section Answers

variable {α : Type} [Double α] [LawfulDouble α] [IeeeDouble α]

omit [LawfulDouble α] [IeeeDouble α] in
theorem supportedQuarterTurn_90 (source a b : List (RecognitionEvidence α)) :
    supportedQuarterTurn source a b = 90 ↔
      source.length = a.length ∧ source.length = b.length ∧ supports source a b = true := by
  rw [← and_assoc]
  unfold supportedQuarterTurn
  by_cases hlength : source.length = a.length ∧ source.length = b.length
  · rw [if_neg (by omega), and_iff_right hlength]
    split_ifs with ha hb <;> simp [ha]
  · rw [if_pos (by omega)]
    simp [hlength]

/-- The turn that is tried first is not supported when the other one is. -/
theorem supportedQuarterTurn_270 (source a b : List (RecognitionEvidence α)) :
    supportedQuarterTurn source a b = 270 ↔
      source.length = a.length ∧ source.length = b.length ∧ supports source b a = true := by
  have hboth := not_supports_both source a b
  rw [← and_assoc]
  unfold supportedQuarterTurn
  by_cases hlength : source.length = a.length ∧ source.length = b.length
  · rw [if_neg (by omega), and_iff_right hlength]
    split_ifs with ha hb
    · simp [show ¬ supports source b a = true from fun hb => hboth ⟨ha, hb⟩]
    · simp [hb]
    · simp [hb]
  · rw [if_pos (by omega)]
    simp [hlength]

/-- **Votes.** The turns are symmetric, they are never both supported, and an answer has the votes
of two lines and of two thirds of the lines against both other readings. -/
theorem quarterTurn_votes [MonotoneDouble α] (source a b : List (RecognitionEvidence α)) :
    (supportedQuarterTurn source a b = 90 ↔ supportedQuarterTurn source b a = 270) ∧
    ¬ (supports source a b = true ∧ supports source b a = true) ∧
    (supportedQuarterTurn source a b = 90 →
      source.length = a.length ∧ source.length = b.length ∧
      2 ≤ (readings source a b).countP clear ∧
      source.length * 2 ≤ (readings source a b).countP clear * 3) ∧
    (supportedQuarterTurn source a b = 270 →
      source.length = a.length ∧ source.length = b.length ∧
      2 ≤ (readings source b a).countP clear ∧
      source.length * 2 ≤ (readings source b a).countP clear * 3) := by
  refine ⟨?_, not_supports_both source a b, fun h => ?_, fun h => ?_⟩
  · rw [supportedQuarterTurn_90, supportedQuarterTurn_270]
    exact and_left_comm
  · obtain ⟨ha, hb, hsupports⟩ := (supportedQuarterTurn_90 source a b).mp h
    have hclear := supports_clear hsupports
    exact ⟨ha, hb, hclear.1, ha ▸ hclear.2⟩
  · obtain ⟨ha, hb, hsupports⟩ := (supportedQuarterTurn_270 source a b).mp h
    have hclear := supports_clear hsupports
    exact ⟨ha, hb, hclear.1, hb ▸ hclear.2⟩

/-- Two of three lines are read better under the first turn. -/
theorem quarterTurn_votes_three :
    let source : List (RecognitionEvidence ℚ) := [⟨0.5, 8⟩, ⟨0.25, 8⟩, ⟨0.875, 8⟩]
    let turn : List (RecognitionEvidence ℚ) := [⟨0.95, 8⟩, ⟨1.5, 8⟩, ⟨0.875, 8⟩]
    let opposite : List (RecognitionEvidence ℚ) := [⟨0.75, 8⟩, ⟨0.9, 3⟩, ⟨0.125, 8⟩]
    supportedQuarterTurn source turn opposite = 90 ∧
    supportedQuarterTurn source opposite turn = 270 ∧
    2 ≤ (readings source turn opposite).countP clear := by
  intro source turn opposite
  have h : supportedQuarterTurn source turn opposite = 90 := by decide +kernel
  have hvotes := quarterTurn_votes source turn opposite
  exact ⟨h, hvotes.1.mp h, (hvotes.2.2.1 h).2.2.1⟩

end Answers

end DocParser.Ocr
