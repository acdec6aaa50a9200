import Mathlib.Algebra.Order.Ring.Defs
import Mathlib.Data.List.Basic
import Mathlib.Tactic.Linarith

/-!
# Intervals on a line

A list of intervals is cut at a place when every interval before it ends more than a gap in front
of every interval behind it. Neighbours are joined to their hull when they are not apart.

1. Joining neighbours that are not apart keeps the number of cuts (`cutsFrom_hull`).
2. Joining any neighbours loses one cut at most (`cutsFrom_hull_le`).
3. A list is apart throughout when it is cut at each place (`cuts_eq_iff`).

So the number of cuts tells what a pass over the list ends with (`cuts_close`, `cuts_join`).
-/

namespace Intervals

variable {κ : Type} [CommRing κ] [LinearOrder κ]

structure Interval (κ : Type) where
  lo : κ
  hi : κ

/-- The least interval with both in it. -/
def hull (a b : Interval κ) : Interval κ := ⟨min a.lo b.lo, max a.hi b.hi⟩

/-- The first ends more than the gap in front of the second. -/
def Apart (gap : κ) (a b : Interval κ) : Prop := a.hi + gap < b.lo

/-- The cuts of a list behind intervals that end at `hi` at the latest. -/
def cutsFrom (gap : κ) : κ → List (Interval κ) → Nat
  | _, [] => 0
  | hi, c :: rest =>
    (if ∀ b ∈ c :: rest, hi + gap < b.lo then 1 else 0) + cutsFrom gap (max hi c.hi) rest

/-- The cuts between the intervals of a list. -/
def cuts (gap : κ) : List (Interval κ) → Nat
  | [] => 0
  | c :: rest => cutsFrom gap c.hi rest

/-- Every interval that starts behind all before it is behind a cut. -/
def StepsCut (gap : κ) : κ → List (Interval κ) → Prop
  | _, [] => True
  | hi, c :: rest =>
    (hi + gap < c.lo → ∀ b ∈ c :: rest, hi + gap < b.lo) ∧ StepsCut gap (max hi c.hi) rest

/-- Joins each interval with the next as long as they are not apart. -/
def close (gap : κ) : Interval κ → List (Interval κ) → List (Interval κ)
  | c, [] => [c]
  | c, d :: rest => if d.lo ≤ c.hi + gap then close gap (hull c d) rest else c :: close gap d rest

/-! ## Joined neighbours -/

section Joined

variable {gap : κ} {c d : Interval κ} {front rest : List (Interval κ)}

omit [CommRing κ] in
theorem forall_lo_hull (front : List (Interval κ)) (t : κ) :
    (∀ b ∈ front ++ hull c d :: rest, t < b.lo) ↔ ∀ b ∈ front ++ c :: d :: rest, t < b.lo := by
  have hmin : t < (hull c d).lo ↔ t < c.lo ∧ t < d.lo := lt_min_iff
  simp only [List.forall_mem_append, List.forall_mem_cons, hmin, and_assoc]

theorem not_cut_of_close [IsStrictOrderedRing κ] {hi : κ} (hclose : ¬ Apart gap c d) :
    ¬ ∀ b ∈ d :: rest, max hi c.hi + gap < b.lo := by
  intro h
  have hd := h d (List.mem_cons_self ..)
  have hc := le_max_right hi c.hi
  unfold Apart at hclose
  linarith

/-- **Joining neighbours** that are not apart keeps the cuts. -/
theorem cutsFrom_hull [IsStrictOrderedRing κ] (front : List (Interval κ))
    (hclose : ¬ Apart gap c d) : ∀ hi,
    cutsFrom gap hi (front ++ hull c d :: rest) = cutsFrom gap hi (front ++ c :: d :: rest) := by
  induction front with
  | nil =>
    intro hi
    rw [List.nil_append, List.nil_append, cutsFrom, cutsFrom, cutsFrom,
      if_neg (not_cut_of_close hclose), Nat.zero_add, max_assoc]
    have hlo : (∀ b ∈ hull c d :: rest, hi + gap < b.lo) ↔
        ∀ b ∈ c :: d :: rest, hi + gap < b.lo := forall_lo_hull [] _
    simp only [hlo]
    rfl
  | cons f front ih =>
    intro hi
    rw [List.cons_append, List.cons_append, cutsFrom, cutsFrom, ih]
    have hlo : (∀ b ∈ f :: (front ++ hull c d :: rest), hi + gap < b.lo) ↔
        ∀ b ∈ f :: (front ++ c :: d :: rest), hi + gap < b.lo :=
      forall_lo_hull (f :: front) _
    simp only [hlo]

/-- Joining any neighbours loses one cut at most. -/
theorem cutsFrom_hull_le : ∀ hi, cutsFrom gap hi (front ++ c :: d :: rest) ≤
    cutsFrom gap hi (front ++ hull c d :: rest) + 1 := by
  induction front with
  | nil =>
    intro hi
    rw [List.nil_append, List.nil_append, cutsFrom, cutsFrom, cutsFrom, max_assoc]
    have hlo : (∀ b ∈ hull c d :: rest, hi + gap < b.lo) ↔
        ∀ b ∈ c :: d :: rest, hi + gap < b.lo := forall_lo_hull [] _
    simp only [hlo]
    show _ ≤ _ + cutsFrom gap (max hi (max c.hi d.hi)) rest + 1
    split_ifs <;> omega
  | cons f front ih =>
    intro hi
    rw [List.cons_append, List.cons_append, cutsFrom, cutsFrom]
    have hlo : (∀ b ∈ f :: (front ++ hull c d :: rest), hi + gap < b.lo) ↔
        ∀ b ∈ f :: (front ++ c :: d :: rest), hi + gap < b.lo :=
      forall_lo_hull (f :: front) _
    simp only [hlo]
    have hrest := ih (max hi f.hi)
    omega

theorem cuts_hull [IsStrictOrderedRing κ] (front : List (Interval κ)) (hclose : ¬ Apart gap c d) :
    cuts gap (front ++ hull c d :: rest) = cuts gap (front ++ c :: d :: rest) := by
  cases front with
  | nil =>
    show cutsFrom gap (max c.hi d.hi) rest = cutsFrom gap c.hi (d :: rest)
    rw [cutsFrom, if_neg, Nat.zero_add]
    intro h
    exact hclose (h d (List.mem_cons_self ..))
  | cons f front => exact cutsFrom_hull front hclose f.hi

theorem cuts_hull_le :
    cuts gap (front ++ c :: d :: rest) ≤ cuts gap (front ++ hull c d :: rest) + 1 := by
  cases front with
  | nil =>
    show cutsFrom gap c.hi (d :: rest) ≤ cutsFrom gap (max c.hi d.hi) rest + 1
    rw [cutsFrom]
    split_ifs <;> omega
  | cons f front => exact cutsFrom_hull_le f.hi

end Joined

/-! ## Lists that are apart -/

section Apart

variable {gap : κ} {l : List (Interval κ)}

theorem cutsFrom_le (l : List (Interval κ)) : ∀ hi, cutsFrom gap hi l ≤ l.length := by
  induction l with
  | nil => exact fun _ => le_rfl
  | cons c rest ih =>
    intro hi
    have hrest := ih (max hi c.hi)
    rw [cutsFrom, List.length_cons]
    split_ifs <;> omega

theorem cuts_lt {c : Interval κ} {rest : List (Interval κ)} :
    cuts gap (c :: rest) < (c :: rest).length := by
  have hle : cuts gap (c :: rest) ≤ rest.length := cutsFrom_le rest c.hi
  rw [List.length_cons]
  omega

theorem cutsFrom_eq_length [IsStrictOrderedRing κ] (l : List (Interval κ)) : ∀ hi,
    cutsFrom gap hi l = l.length ↔ (∀ b ∈ l, hi + gap < b.lo) ∧ l.Pairwise (Apart gap) := by
  induction l with
  | nil => intro hi; simp [cutsFrom]
  | cons c rest ih =>
    intro hi
    have hle : cutsFrom gap (max hi c.hi) rest ≤ rest.length := cutsFrom_le rest _
    have hmax : (∀ b ∈ rest, max hi c.hi + gap < b.lo) ↔
        (∀ b ∈ rest, hi + gap < b.lo) ∧ ∀ b ∈ rest, c.hi + gap < b.lo := by
      rw [← forall₂_and]
      refine forall₂_congr fun b _ => ?_
      rw [← max_add_add_right, max_lt_iff]
    rw [cutsFrom, List.length_cons, List.pairwise_cons]
    constructor
    · intro h
      have hcut : ∀ b ∈ c :: rest, hi + gap < b.lo := by
        by_contra hcut
        rw [if_neg hcut] at h
        omega
      rw [if_pos hcut] at h
      obtain ⟨hrest, hpairwise⟩ := (ih (max hi c.hi)).mp (by omega)
      exact ⟨hcut, (hmax.mp hrest).2, hpairwise⟩
    · rintro ⟨hcut, hfirst, hpairwise⟩
      rw [if_pos hcut, (ih _).mpr ⟨hmax.mpr ⟨(List.forall_mem_cons.mp hcut).2, hfirst⟩, hpairwise⟩]
      omega

/-- **Apart throughout.** The intervals are apart when the list is cut at each place. -/
theorem cuts_eq_iff [IsStrictOrderedRing κ] {c : Interval κ} {rest : List (Interval κ)} :
    cuts gap (c :: rest) + 1 = (c :: rest).length ↔ (c :: rest).Pairwise (Apart gap) := by
  rw [List.length_cons, List.pairwise_cons]
  show cutsFrom gap c.hi rest + 1 = rest.length + 1 ↔ _
  rw [Nat.succ_inj, cutsFrom_eq_length]
  rfl

/-- Proper intervals are apart when neighbours are. -/
theorem pairwise_of_isChain [IsStrictOrderedRing κ] (hgap : 0 ≤ gap)
    (hproper : ∀ c ∈ l, c.lo < c.hi)
    (h : l.IsChain (Apart gap)) : l.Pairwise (Apart gap) := by
  induction l with
  | nil => exact List.Pairwise.nil
  | cons c rest ih =>
    obtain ⟨hc, hrest⟩ := List.forall_mem_cons.mp hproper
    cases rest with
    | nil => exact List.pairwise_singleton _ c
    | cons d rest =>
      obtain ⟨hcd, hchain⟩ := List.isChain_cons_cons.mp h
      have hpairwise := ih hrest hchain
      refine List.pairwise_cons.mpr ⟨fun b hb => ?_, hpairwise⟩
      rcases List.mem_cons.mp hb with rfl | hb
      · exact hcd
      · have hdb := (List.pairwise_cons.mp hpairwise).1 b hb
        have hd := hrest d (List.mem_cons_self ..)
        unfold Apart at hcd hdb ⊢
        linarith

/-- **Join.** When neighbours are joined that are apart only if all neighbours are, the cuts are
kept up to the number of places. -/
theorem cuts_join [IsStrictOrderedRing κ] {c d : Interval κ} {front rest : List (Interval κ)}
    (hgap : 0 ≤ gap) (hproper : ∀ b ∈ front ++ c :: d :: rest, b.lo < b.hi)
    (hnarrow : Apart gap c d → (front ++ c :: d :: rest).IsChain (Apart gap)) :
    cuts gap (front ++ hull c d :: rest) =
      min (cuts gap (front ++ c :: d :: rest)) ((front ++ hull c d :: rest).length - 1) := by
  have hlt : cuts gap (front ++ hull c d :: rest) < (front ++ hull c d :: rest).length := by
    cases front <;> exact cuts_lt
  have hlength : (front ++ c :: d :: rest).length = (front ++ hull c d :: rest).length + 1 := by
    simp only [List.length_append, List.length_cons]
    omega
  by_cases hclose : Apart gap c d
  · have hpairwise := pairwise_of_isChain hgap hproper (hnarrow hclose)
    have hall : cuts gap (front ++ c :: d :: rest) + 1 = (front ++ c :: d :: rest).length := by
      cases front <;> exact cuts_eq_iff.mpr hpairwise
    have hle : cuts gap (front ++ c :: d :: rest) ≤ cuts gap (front ++ hull c d :: rest) + 1 :=
      cuts_hull_le
    omega
  · rw [cuts_hull front hclose] at hlt ⊢
    omega

end Apart

/-! ## The pass that closes -/

section Close

variable {gap : κ}

theorem close_ne_nil (l : List (Interval κ)) : ∀ c, close gap c l ≠ [] := by
  induction l with
  | nil => exact fun c => List.cons_ne_nil _ _
  | cons d rest ih =>
    intro c
    rw [close]
    split_ifs
    · exact ih _
    · exact List.cons_ne_nil _ _

theorem close_lo (t : κ) (l : List (Interval κ)) : ∀ c,
    (∀ b ∈ close gap c l, t < b.lo) ↔ ∀ b ∈ c :: l, t < b.lo := by
  induction l with
  | nil => exact fun _ => Iff.rfl
  | cons d rest ih =>
    intro c
    rw [close]
    split_ifs
    · rw [ih]
      exact forall_lo_hull [] t
    · rw [List.forall_mem_cons, ih]
      simp only [List.forall_mem_cons]

theorem proper_close {l : List (Interval κ)} : ∀ {c}, (∀ b ∈ c :: l, b.lo < b.hi) →
    ∀ b ∈ close gap c l, b.lo < b.hi := by
  induction l with
  | nil => exact fun h => h
  | cons d rest ih =>
    intro c h
    obtain ⟨hc, hd, hrest⟩ := List.forall_mem_cons.mp h |>.imp_right List.forall_mem_cons.mp
    rw [close]
    split_ifs
    · refine ih (List.forall_mem_cons.mpr ⟨?_, hrest⟩)
      exact (min_le_left _ _).trans_lt (hc.trans_le (le_max_left _ _))
    · exact List.forall_mem_cons.mpr ⟨hc, ih (List.forall_mem_cons.mpr ⟨hd, hrest⟩)⟩

theorem cutsFrom_close [IsStrictOrderedRing κ] (l : List (Interval κ)) : ∀ c hi,
    cutsFrom gap hi (close gap c l) = cutsFrom gap hi (c :: l) := by
  induction l with
  | nil => exact fun _ _ => rfl
  | cons d rest ih =>
    intro c hi
    rw [close]
    split_ifs with hclose
    · rw [ih]
      exact cutsFrom_hull [] (not_lt.mpr hclose) hi
    · rw [cutsFrom, ih, cutsFrom.eq_def gap hi (c :: d :: rest)]
      have hlo : (∀ b ∈ c :: close gap d rest, hi + gap < b.lo) ↔
          ∀ b ∈ c :: d :: rest, hi + gap < b.lo := by
        rw [List.forall_mem_cons, close_lo]
        simp only [List.forall_mem_cons]
      simp only [hlo]

/-- The pass keeps the cuts. -/
theorem cuts_close [IsStrictOrderedRing κ] (l : List (Interval κ)) : ∀ c,
    cuts gap (close gap c l) = cuts gap (c :: l) := by
  induction l with
  | nil => exact fun _ => rfl
  | cons d rest ih =>
    intro c
    rw [close]
    split_ifs with hclose
    · rw [ih]
      exact cuts_hull [] (not_lt.mpr hclose)
    · exact cutsFrom_close rest d c.hi

/-- **The pass** ends apart throughout when every step is a cut. -/
theorem length_close_of_stepsCut [IsStrictOrderedRing κ] (hgap : 0 ≤ gap)
    (l : List (Interval κ)) : ∀ c, (∀ b ∈ c :: l, b.lo < b.hi) → StepsCut gap c.hi l →
      (close gap c l).length = cutsFrom gap c.hi l + 1 := by
  induction l with
  | nil => exact fun _ _ _ => rfl
  | cons d rest ih =>
    intro c hproper ⟨hstep, hsteps⟩
    obtain ⟨hc, hd, hrest⟩ := List.forall_mem_cons.mp hproper |>.imp_right List.forall_mem_cons.mp
    rw [close, cutsFrom]
    by_cases hclose : d.lo ≤ c.hi + gap
    · have hnot : ¬ ∀ b ∈ d :: rest, c.hi + gap < b.lo := fun h =>
        absurd (h d (List.mem_cons_self ..)) (not_lt.mpr hclose)
      rw [if_pos hclose, if_neg hnot, Nat.zero_add]
      refine ih (hull c d) (List.forall_mem_cons.mpr ⟨?_, hrest⟩) hsteps
      exact (min_le_left _ _).trans_lt (hc.trans_le (le_max_left _ _))
    · have hlt := not_le.mp hclose
      -- behind a cut the next interval ends last
      have hmax : max c.hi d.hi = d.hi := max_eq_right (by linarith)
      rw [hmax] at hsteps
      rw [if_neg hclose, if_pos (hstep hlt), List.length_cons, hmax,
        ih d (List.forall_mem_cons.mpr ⟨hd, hrest⟩) hsteps]
      omega

theorem cutsFrom_lt_length_close [IsStrictOrderedRing κ] (l : List (Interval κ)) :
    ∀ c hi, c.hi ≤ hi → cutsFrom gap hi l < (close gap c l).length := by
  induction l with
  | nil => exact fun _ _ _ => Nat.zero_lt_one
  | cons d rest ih =>
    intro c hi hle
    have hmax : max c.hi d.hi ≤ max hi d.hi := max_le_max_right _ hle
    rw [close, cutsFrom]
    split_ifs with hcut hclose hclose
    · have hd := hcut d (List.mem_cons_self ..)
      linarith
    · have hrest := ih d (max hi d.hi) (le_max_right _ _)
      rw [List.length_cons]
      omega
    · rw [Nat.zero_add]
      exact ih (hull c d) _ hmax
    · have hrest := ih d (max hi d.hi) (le_max_right _ _)
      rw [List.length_cons]
      omega

theorem stepsCut_of_length_close [IsStrictOrderedRing κ] (l : List (Interval κ)) :
    ∀ c hi, c.hi ≤ hi → (close gap c l).length ≤ cutsFrom gap hi l + 1 → StepsCut gap hi l := by
  induction l with
  | nil => exact fun _ _ _ _ => trivial
  | cons d rest ih =>
    intro c hi hle hlength
    have hmax : max c.hi d.hi ≤ max hi d.hi := max_le_max_right _ hle
    rw [close, cutsFrom] at hlength
    by_cases hclose : d.lo ≤ c.hi + gap
    · have hnot : ¬ hi + gap < d.lo := by
        intro h
        linarith
      have hcut : ¬ ∀ b ∈ d :: rest, hi + gap < b.lo := fun h => hnot (h d (List.mem_cons_self ..))
      rw [if_pos hclose, if_neg hcut, Nat.zero_add] at hlength
      exact ⟨fun h => absurd h hnot, ih (hull c d) _ hmax hlength⟩
    · rw [if_neg hclose, List.length_cons] at hlength
      have hrest : (close gap d rest).length ≤ cutsFrom gap (max hi d.hi) rest + 1 := by
        split_ifs at hlength <;> omega
      refine ⟨fun h => ?_, ih d _ (le_max_right _ _) hrest⟩
      by_contra hcut
      rw [if_neg hcut] at hlength
      have hfew : cutsFrom gap (max hi d.hi) rest < (close gap d rest).length :=
        cutsFrom_lt_length_close rest d _ (le_max_right _ _)
      omega

end Close

/-! ## Places -/

section Places

variable {gap : κ}

/-- The list is cut at the place. -/
def CutAt (gap : κ) (l : List (Interval κ)) (place : Nat) : Prop :=
  ∀ a ∈ l.take place, ∀ b ∈ l.drop place, Apart gap a b

/-- The interval at the place starts behind all before it. -/
def StepAt (gap : κ) (l : List (Interval κ)) (place : Nat) : Prop :=
  ∀ a ∈ l.take place, ∀ b ∈ l[place]?, Apart gap a b

instance (gap : κ) (a b : Interval κ) : Decidable (Apart gap a b) :=
  inferInstanceAs (Decidable (_ < _))

instance (gap : κ) (l : List (Interval κ)) (place : Nat) : Decidable (CutAt gap l place) :=
  inferInstanceAs (Decidable (∀ a ∈ l.take place, ∀ b ∈ l.drop place, Apart gap a b))

/-- `hi` is the last end of the intervals. -/
def LastEnd (gap hi : κ) (front : List (Interval κ)) : Prop :=
  ∀ t, hi + gap < t ↔ ∀ a ∈ front, a.hi + gap < t

theorem LastEnd.concat [IsStrictOrderedRing κ] {hi : κ} {front : List (Interval κ)}
    (h : LastEnd gap hi front) (c : Interval κ) : LastEnd gap (max hi c.hi) (front ++ [c]) := by
  intro t
  rw [← max_add_add_right, max_lt_iff, h t, List.forall_mem_append, List.forall_mem_singleton]

theorem LastEnd.cutAt {hi : κ} {front rest : List (Interval κ)} (h : LastEnd gap hi front) :
    CutAt gap (front ++ rest) front.length ↔ ∀ b ∈ rest, hi + gap < b.lo := by
  unfold CutAt
  rw [List.take_left, List.drop_left]
  constructor
  · exact fun hcut b hb => (h b.lo).mpr fun a ha => hcut a ha b hb
  · exact fun hcut a ha b hb => (h b.lo).mp (hcut b hb) a ha

theorem cutsFrom_eq_countP [IsStrictOrderedRing κ] (rest : List (Interval κ)) :
    ∀ hi front, LastEnd gap hi front → cutsFrom gap hi rest =
      (List.range' front.length rest.length).countP fun p => CutAt gap (front ++ rest) p := by
  induction rest with
  | nil => exact fun _ _ _ => rfl
  | cons c rest ih =>
    intro hi front h
    rw [cutsFrom, ih _ _ (h.concat c), List.length_cons, List.range'_succ, List.countP_cons,
      List.length_append, List.append_assoc, List.singleton_append, Nat.add_comm]
    simp only [decide_eq_true_eq, h.cutAt, List.length_singleton]

theorem stepsCut_iff [IsStrictOrderedRing κ] (rest : List (Interval κ)) :
    ∀ hi front, LastEnd gap hi front → (StepsCut gap hi rest ↔
      ∀ p, front.length ≤ p → p < (front ++ rest).length →
        StepAt gap (front ++ rest) p → CutAt gap (front ++ rest) p) := by
  induction rest with
  | nil =>
    intro hi front h
    rw [List.append_nil]
    exact iff_of_true trivial fun p hle hlt => absurd hlt (not_lt.mpr hle)
  | cons c rest ih =>
    intro hi front h
    have hstep : StepAt gap (front ++ c :: rest) front.length ↔ hi + gap < c.lo := by
      unfold StepAt
      rw [List.take_left, List.getElem?_append_right le_rfl, Nat.sub_self]
      simpa [Apart] using (h c.lo).symm
    have hrest := ih _ _ (h.concat c)
    rw [List.append_assoc, List.singleton_append, List.length_append, List.length_singleton]
      at hrest
    show _ ∧ StepsCut gap (max hi c.hi) rest ↔ _
    rw [hrest, ← hstep, ← h.cutAt]
    constructor
    · rintro ⟨hfirst, hlater⟩ p hle hlt
      rcases hle.eq_or_lt with rfl | hlt'
      · exact hfirst
      · exact hlater p hlt' hlt
    · intro hall
      refine ⟨hall _ le_rfl ?_, fun p hle => hall p (Nat.le_of_succ_le hle)⟩
      rw [List.length_append, List.length_cons]
      omega

theorem lastEnd_singleton (gap : κ) (c : Interval κ) : LastEnd gap c.hi [c] := by
  intro t
  rw [List.forall_mem_singleton]

/-- The cuts of a list, counted at its places. -/
theorem cuts_eq_countP [IsStrictOrderedRing κ] (l : List (Interval κ)) :
    cuts gap l = (List.range' 1 (l.length - 1)).countP fun p => CutAt gap l p := by
  cases l with
  | nil => rfl
  | cons c rest => exact cutsFrom_eq_countP rest c.hi [c] (lastEnd_singleton gap c)

end Places

end Intervals
