import Mathlib.Order.Lattice
import Mathlib.Data.List.Basic

/-!
# Strict weak orders

Comparators that order some elements and leave others equivalent: their lexicographic combination,
and the least element of a list as a loop selects it.
-/

namespace Comparators

variable {σ : Type} {P : σ → Prop} {r s : σ → σ → Prop}

/-- `r` is a strict weak order of the elements with `P`. -/
structure StrictWeakOn (P : σ → Prop) (r : σ → σ → Prop) : Prop where
  asymm : ∀ a b, P a → P b → r a b → ¬ r b a
  split : ∀ a b c, P a → P b → P c → r a c → r a b ∨ r b c

/-- First by `r`, then by `s`. -/
def LexLess (r s : σ → σ → Prop) (a b : σ) : Prop := r a b ∨ (¬ r b a ∧ s a b)

theorem StrictWeakOn.lex (hr : StrictWeakOn P r) (hs : StrictWeakOn P s) :
    StrictWeakOn P (LexLess r s) := by
  constructor
  · rintro a b ha hb (hab | ⟨hba, hab⟩) (hba' | ⟨hab', hba'⟩)
    · exact hr.asymm a b ha hb hab hba'
    · exact hab' hab
    · exact hba hba'
    · exact hs.asymm a b ha hb hab hba'
  · rintro a b c ha hb hc (hac | ⟨hca, hac⟩)
    · exact (hr.split a b c ha hb hc hac).imp .inl .inl
    · rcases hs.split a b c ha hb hc hac with hab | hbc
      · by_cases hba : r b a
        · exact .inr (.inl ((hr.split b c a hb hc ha hba).resolve_right hca))
        · exact .inl (.inr ⟨hba, hab⟩)
      · by_cases hcb : r c b
        · exact .inl (.inl ((hr.split c a b hc ha hb hcb).resolve_left hca))
        · exact .inr (.inr ⟨hcb, hbc⟩)

theorem strictWeakOn_of_linear {κ : Type} [LinearOrder κ] (key : σ → κ) :
    StrictWeakOn P fun a b => key a < key b :=
  ⟨fun _ _ _ _ h => lt_asymm h, fun a b _ _ _ _ h =>
    (lt_or_ge (key a) (key b)).imp_right fun hle => hle.trans_lt h⟩

theorem StrictWeakOn.irrefl (hr : StrictWeakOn P r) {a : σ} (ha : P a) : ¬ r a a :=
  fun h => hr.asymm a a ha ha h h

theorem StrictWeakOn.trans (hr : StrictWeakOn P r) {a b c : σ} (ha : P a) (hb : P b) (hc : P c)
    (hab : r a b) (hbc : r b c) : r a c :=
  (hr.split a c b ha hc hb hab).resolve_right (hr.asymm b c hb hc hbc)

theorem StrictWeakOn.flip (hr : StrictWeakOn P r) : StrictWeakOn P fun a b => r b a :=
  ⟨fun a b ha hb h => hr.asymm b a hb ha h, fun a b c ha hb hc h => (hr.split c b a hc hb ha h).symm⟩

/-! ## Selection -/

section Selection

variable [DecidableRel r]

variable (r) in
/-- Keeps the first of two elements unless the second comes before it. -/
def pick (a b : σ) : σ := if r b a then b else a

theorem not_rel_pick_right [IsStrictOrder σ r] (a b : σ) : ¬ r b (pick r a b) := by
  unfold pick
  split_ifs with h
  · exact irrefl b
  · exact h

/-- What was not before the first element is not before the selected one. -/
theorem not_rel_pick [IsStrictOrder σ r] {a c : σ} (b : σ) (h : ¬ r c a) : ¬ r c (pick r a b) := by
  unfold pick
  split_ifs with hb
  · exact fun hc => h (Trans.trans hc hb)
  · exact h

/-- **Selection** ends with an element that no other one comes before. -/
theorem StrictWeakOn.foldl_pick (hr : StrictWeakOn P r) (l : List σ) :
    ∀ a : σ, P a → (∀ x ∈ l, P x) →
      l.foldl (pick r) a ∈ a :: l ∧ ∀ x ∈ a :: l, ¬ r x (l.foldl (pick r) a) := by
  induction l with
  | nil =>
    intro a ha _
    refine ⟨List.mem_singleton_self a, fun x hx => ?_⟩
    rw [List.mem_singleton.mp hx]
    exact hr.irrefl ha
  | cons b l ih =>
    intro a ha hl
    have hb := hl b (List.mem_cons_self ..)
    have hpick : pick r a b = a ∨ pick r a b = b := by
      unfold pick
      split <;> simp
    have hP : P (pick r a b) := by
      rcases hpick with h | h <;> rw [h] <;> assumption
    obtain ⟨hmem, hleast⟩ := ih (pick r a b) hP fun x hx => hl x (List.mem_cons_of_mem b hx)
    rw [List.foldl_cons]
    generalize hm : l.foldl (pick r) (pick r a b) = m at hmem hleast
    have hPm : P m := by
      rcases List.mem_cons.mp hmem with rfl | hmem
      · exact hP
      · exact hl m (List.mem_cons_of_mem b hmem)
    have hnot := hleast _ (List.mem_cons_self ..)
    refine ⟨?_, fun x hx => ?_⟩
    · rcases List.mem_cons.mp hmem with rfl | hmem
      · rcases hpick with h | h <;> rw [h] <;> simp
      · exact List.mem_cons_of_mem a (List.mem_cons_of_mem b hmem)
    · rcases List.mem_cons.mp hx with rfl | hx
      · -- the first element was kept, or the second comes before it
        unfold pick at hnot
        split at hnot
        next hbefore => exact fun hxm => hnot (hr.trans hb ha hPm hbefore hxm)
        next => exact hnot
      · rcases List.mem_cons.mp hx with rfl | hx
        · unfold pick at hnot
          split at hnot
          next => exact hnot
          next hkept => exact fun hxm => (hr.split x a m hb ha hPm hxm).elim hkept hnot
        · exact hleast x (List.mem_cons_of_mem _ hx)

/-- Selections among the same elements are equivalent. -/
theorem StrictWeakOn.foldl_pick_congr (hr : StrictWeakOn P r) {l l' : List σ} {a : σ} (ha : P a)
    (hl : ∀ x ∈ l, P x) (hsame : ∀ x, x ∈ l ↔ x ∈ l') :
    ¬ r (l.foldl (pick r) a) (l'.foldl (pick r) a) := by
  have hl' : ∀ x ∈ l', P x := fun x hx => hl x ((hsame x).mpr hx)
  refine (hr.foldl_pick l' a ha hl').2 _ ?_
  rcases List.mem_cons.mp (hr.foldl_pick l a ha hl).1 with h | h
  · rw [h]
    exact List.mem_cons_self ..
  · exact List.mem_cons_of_mem a ((hsame _).mp h)

variable (r) in
/-- Selection that starts without an element. -/
def pickSome (best : Option σ) (a : σ) : Option σ := some (best.elim a fun b => pick r b a)

theorem foldl_pickSome_some (l : List σ) : ∀ a, l.foldl (pickSome r) (some a) =
    some (l.foldl (pick r) a) := by
  induction l with
  | nil => exact fun _ => rfl
  | cons b l ih => exact fun a => ih (pick r a b)

theorem foldl_pickSome_eq_none {l : List σ} : l.foldl (pickSome r) none = none ↔ l = [] := by
  cases l with
  | nil => simp
  | cons a l =>
    show l.foldl (pickSome r) (some a) = none ↔ _
    rw [foldl_pickSome_some]
    simp

theorem StrictWeakOn.foldl_pickSome (hr : StrictWeakOn P r) {l : List σ} {m : σ}
    (hl : ∀ x ∈ l, P x) (h : l.foldl (pickSome r) none = some m) :
    m ∈ l ∧ ∀ x ∈ l, ¬ r x m := by
  cases l with
  | nil => cases h
  | cons a l =>
    have hm : l.foldl (pickSome r) (some a) = some m := h
    rw [foldl_pickSome_some, Option.some.injEq] at hm
    rw [← hm]
    exact hr.foldl_pick l a (hl a (List.mem_cons_self ..)) fun x hx =>
      hl x (List.mem_cons_of_mem a hx)

end Selection

end Comparators
