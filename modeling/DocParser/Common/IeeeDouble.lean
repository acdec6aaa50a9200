import Mathlib.Data.Rat.Cast.Order
import Mathlib.Tactic.NormNum
import DocParser.Common.Sorting

/-!
# Comparisons of rounded numbers

The facts about `double` that a proof about sorted geometry needs: `<` orders the numbers, that is
what is not NaN, and a difference has the sign that exact arithmetic gives it. Sums and products may
be rounded, and they may be infinite. Sorts of numbers above zero do not depend on their order
(`sort_pos_congr`).
-/

namespace DocParser

open Comparators

/-- Only NaN differs from itself. -/
def IsNumber {α : Type} [Double α] (a : α) : Prop := (a == a) = true

class IeeeDouble (α : Type) [Double α] : Prop where
  isFinite_zero : Double.isFinite (0 : α) = true
  isNumber_of_isFinite : ∀ a : α, Double.isFinite a = true → IsNumber a
  isNumber_of_lt : ∀ a b : α, a < b → IsNumber a ∧ IsNumber b
  isNumber_of_le : ∀ a b : α, a ≤ b → IsNumber a ∧ IsNumber b
  strictWeakOn : StrictWeakOn (IsNumber (α := α)) (· < ·)
  beq_iff : ∀ a b : α, IsNumber a → IsNumber b → ((a == b) = true ↔ ¬ a < b ∧ ¬ b < a)
  le_iff : ∀ a b : α, IsNumber a → IsNumber b → (a ≤ b ↔ ¬ b < a)
  /-- Only the zeros are two numbers at one place. -/
  eq_of_pos : ∀ a b : α, 0 < a → 0 < b → ¬ a < b → ¬ b < a → a = b
  isNumber_add : ∀ a b : α, Double.isFinite a = true → Double.isFinite b = true → IsNumber (a + b)
  isNumber_sub : ∀ a b : α, Double.isFinite a = true → Double.isFinite b = true → IsNumber (a - b)
  isNumber_mul : ∀ a c : α, IsNumber a → Double.isFinite c = true → 0 < c → IsNumber (a * c)
  sub_pos : ∀ a b : α, Double.isFinite a = true → Double.isFinite b = true → (0 < a - b ↔ b < a)
  add_nonneg : ∀ a b : α, 0 ≤ a → 0 ≤ b → 0 ≤ a + b
  mul_nonneg : ∀ a c : α, 0 ≤ a → Double.isFinite c = true → 0 < c → 0 ≤ a * c
  /-- Short decimals round to a number of their sign. -/
  decimal : ∀ m e : Nat, 0 < m → m < 2 ^ 53 → e ≤ 22 →
    Double.isFinite (OfScientific.ofScientific m true e : α) = true ∧
      0 < (OfScientific.ofScientific m true e : α)

instance : IeeeDouble ℚ where
  isFinite_zero := rfl
  isNumber_of_isFinite _ _ := beq_self_eq_true _
  isNumber_of_lt _ _ _ := ⟨beq_self_eq_true _, beq_self_eq_true _⟩
  isNumber_of_le _ _ _ := ⟨beq_self_eq_true _, beq_self_eq_true _⟩
  strictWeakOn := strictWeakOn_of_linear id
  beq_iff a b _ _ := by
    rw [beq_iff_eq, not_lt, not_lt]
    exact ⟨fun h => ⟨h.ge, h.le⟩, fun h => le_antisymm h.2 h.1⟩
  le_iff _ _ _ _ := not_lt.symm
  eq_of_pos _ _ _ _ h h' := le_antisymm (not_lt.mp h') (not_lt.mp h)
  isNumber_add _ _ _ _ := beq_self_eq_true _
  isNumber_sub _ _ _ _ := beq_self_eq_true _
  isNumber_mul _ _ _ _ _ := beq_self_eq_true _
  sub_pos _ _ _ _ := by
    rw [Double.ofNat_rat, Nat.cast_zero]
    exact sub_pos
  add_nonneg _ _ ha hb := by
    rw [Double.ofNat_rat, Nat.cast_zero] at ha hb ⊢
    exact add_nonneg ha hb
  mul_nonneg _ _ ha _ hc := by
    rw [Double.ofNat_rat, Nat.cast_zero] at ha hc ⊢
    exact mul_nonneg ha hc.le
  decimal m e hm _ _ := by
    refine ⟨rfl, ?_⟩
    rw [Double.ofNat_rat, Nat.cast_zero]
    rw [Rat.ofScientific_def_eq_if, if_pos rfl]
    exact div_pos (Nat.cast_pos.mpr hm) (pow_pos (by norm_num) e)

/-- Rounding keeps the order of differences. -/
class MonotoneDouble (α : Type) [Double α] : Prop where
  sub_le_sub : ∀ a b c : α, Double.isFinite a = true → Double.isFinite b = true →
    Double.isFinite c = true → b ≤ c → a - c ≤ a - b

instance : MonotoneDouble ℚ where
  sub_le_sub a _ _ _ _ _ h := sub_le_sub_left h a

section Numbers

variable {α : Type} [Double α] [IeeeDouble α] {a b c : α}

instance (priority := low) isStrictOrder : IsStrictOrder α (· < ·) where
  irrefl a h := IeeeDouble.strictWeakOn.irrefl (IeeeDouble.isNumber_of_lt a a h).1 h
  trans a b c hab hbc := IeeeDouble.strictWeakOn.trans (IeeeDouble.isNumber_of_lt a b hab).1
    (IeeeDouble.isNumber_of_lt a b hab).2 (IeeeDouble.isNumber_of_lt b c hbc).2 hab hbc

theorem isNumber_zero : IsNumber (0 : α) :=
  IeeeDouble.isNumber_of_isFinite 0 IeeeDouble.isFinite_zero

theorem isNumber_of_pos (h : 0 < a) : IsNumber a := (IeeeDouble.isNumber_of_lt 0 a h).2

theorem nonneg_of_pos (h : 0 < a) : 0 ≤ a :=
  (IeeeDouble.le_iff 0 a isNumber_zero (isNumber_of_pos h)).mpr
    (IeeeDouble.strictWeakOn.asymm 0 a isNumber_zero (isNumber_of_pos h) h)

theorem IeeeDouble.le_trans (hab : a ≤ b) (hbc : b ≤ c) : a ≤ c := by
  obtain ⟨ha, hb⟩ := IeeeDouble.isNumber_of_le a b hab
  have hc := (IeeeDouble.isNumber_of_le b c hbc).2
  refine (IeeeDouble.le_iff a c ha hc).mpr fun hca => ?_
  rcases IeeeDouble.strictWeakOn.split c b a hc hb ha hca with hcb | hba
  · exact (IeeeDouble.le_iff b c hb hc).mp hbc hcb
  · exact (IeeeDouble.le_iff a b ha hb).mp hab hba

theorem IeeeDouble.lt_of_le_of_lt (hab : a ≤ b) (hbc : b < c) : a < c := by
  obtain ⟨ha, hb⟩ := IeeeDouble.isNumber_of_le a b hab
  have hc := (IeeeDouble.isNumber_of_lt b c hbc).2
  exact (IeeeDouble.strictWeakOn.split b a c hb ha hc hbc).resolve_left
    ((IeeeDouble.le_iff a b ha hb).mp hab)

theorem IeeeDouble.lt_of_lt_of_le (hab : a < b) (hbc : b ≤ c) : a < c := by
  obtain ⟨hb, hc⟩ := IeeeDouble.isNumber_of_le b c hbc
  have ha := (IeeeDouble.isNumber_of_lt a b hab).1
  exact (IeeeDouble.strictWeakOn.split a c b ha hc hb hab).resolve_right
    ((IeeeDouble.le_iff b c hb hc).mp hbc)

theorem zero_le_zero : (0 : α) ≤ 0 :=
  (IeeeDouble.le_iff 0 0 isNumber_zero isNumber_zero).mpr
    (IeeeDouble.strictWeakOn.irrefl isNumber_zero)

/-- A difference to what is behind is positive, so the larger of it and zero is itself. -/
theorem max_zero_sub (ha : Double.isFinite a = true) (hb : Double.isFinite b = true) (h : a < b) :
    Double.max 0 (b - a) = b - a ∧ 0 < b - a := by
  have hpos := (IeeeDouble.sub_pos b a hb ha).mpr h
  exact ⟨if_pos hpos, hpos⟩

theorem half : Double.isFinite (0.5 : α) = true ∧ 0 < (0.5 : α) :=
  IeeeDouble.decimal 5 1 (by decide) (by decide) (by decide)

theorem isNumber_center (ha : Double.isFinite a = true) (hb : Double.isFinite b = true) :
    IsNumber ((a + b) * 0.5) :=
  IeeeDouble.isNumber_mul _ _ (IeeeDouble.isNumber_add a b ha hb) half.1 half.2

theorem mean_nonneg (ha : 0 ≤ a) (hb : 0 ≤ b) : 0 ≤ (a + b) * 0.5 :=
  IeeeDouble.mul_nonneg _ _ (IeeeDouble.add_nonneg a b ha hb) half.1 half.2

end Numbers

/-! ## Sorting -/

section Sorting

variable {α : Type} [Double α] [IeeeDouble α] {τ : Type} {P : τ → Prop} {key : τ → α}
  {s : τ → τ → Bool}

/-- Numbers are sorted by `<`. -/
theorem strictWeakOn_number (hkey : ∀ a, P a → IsNumber (key a)) :
    StrictWeakOn P fun a b => decide (key a < key b) = true := by
  simp only [decide_eq_true_eq]
  exact ⟨fun a b ha hb => IeeeDouble.strictWeakOn.asymm _ _ (hkey a ha) (hkey b hb),
    fun a b c ha hb hc =>
      IeeeDouble.strictWeakOn.split _ _ _ (hkey a ha) (hkey b hb) (hkey c hc)⟩

/-- Compares by a number first, then by `s`. -/
def byKey (key : τ → α) (s : τ → τ → Bool) (a b : τ) : Bool :=
  if key a != key b then decide (key a < key b) else s a b

theorem strictWeakOn_byKey (hkey : ∀ a, P a → IsNumber (key a))
    (hs : StrictWeakOn P fun a b => s a b = true) :
    StrictWeakOn P fun a b => byKey key s a b = true := by
  have hlex : StrictWeakOn P (LexLess (fun a b => key a < key b) fun a b => s a b = true) := by
    have hnumber := strictWeakOn_number hkey
    simp only [decide_eq_true_eq] at hnumber
    exact hnumber.lex hs
  have hiff : ∀ a b, P a → P b →
      (byKey key s a b = true ↔
        LexLess (fun a b => key a < key b) (fun a b => s a b = true) a b) := by
    intro a b ha hb
    have hbeq := IeeeDouble.beq_iff (key a) (key b) (hkey a ha) (hkey b hb)
    have hasymm := IeeeDouble.strictWeakOn.asymm (key a) (key b) (hkey a ha) (hkey b hb)
    unfold byKey LexLess
    by_cases heq : (key a == key b) = true
    · obtain ⟨hab, hba⟩ := hbeq.mp heq
      simp [bne, heq, hab, hba]
    · by_cases hab : key a < key b
      · simp [bne, heq, hab]
      · have hba : key b < key a := by
          by_contra hba
          exact heq (hbeq.mpr ⟨hab, hba⟩)
        simp [bne, heq, hab, hba]
  exact ⟨fun a b ha hb hab hba => hlex.asymm a b ha hb ((hiff a b ha hb).mp hab)
      ((hiff b a hb ha).mp hba),
    fun a b c ha hb hc hac => (hlex.split a b c ha hb hc ((hiff a c ha hc).mp hac)).imp
      (hiff a b ha hb).mpr (hiff b c hb hc).mpr⟩

/-- Elements that are not told apart by the key and `s` are not told apart by `s`. -/
theorem byKey_apart (hkey : ∀ a, P a → IsNumber (key a)) {a b : τ} (ha : P a) (hb : P b)
    (hab : byKey key s a b = false) (hba : byKey key s b a = false) :
    s a b = false ∧ s b a = false := by
  unfold byKey at hab hba
  have hbeq := IeeeDouble.beq_iff (key a) (key b) (hkey a ha) (hkey b hb)
  have hbeq' := IeeeDouble.beq_iff (key b) (key a) (hkey b hb) (hkey a ha)
  by_cases heq : (key a == key b) = true
  · have heq' : (key b == key a) = true := hbeq'.mpr (hbeq.mp heq).symm
    simp only [bne, heq, heq', Bool.not_true, Bool.false_eq_true, if_false] at hab hba
    exact ⟨hab, hba⟩
  · have heq' : ¬ (key b == key a) = true := fun h => heq (hbeq.mpr (hbeq'.mp h).symm)
    simp only [bne, heq, heq', Bool.not_false, if_true, decide_eq_false_iff_not] at hab hba
    exact absurd (hbeq.mpr ⟨hab, hba⟩) heq

/-- A sorted list of numbers above zero is that of the numbers. -/
theorem sort_pos_congr {l l' : List α} (hl : ∀ a ∈ l, 0 < a) (hperm : l.Perm l') :
    sortBy (fun a b => decide (a < b)) l = sortBy (fun a b => decide (a < b)) l' := by
  have hsort : StrictWeakOn (fun a : α => 0 < a) fun a b => decide (a < b) = true :=
    strictWeakOn_number fun _ ha => isNumber_of_pos ha
  refine sortBy_congr hsort (fun a b ha hb hab hba => ?_) hl hperm
  simp only [decide_eq_false_iff_not] at hab hba
  exact IeeeDouble.eq_of_pos a b ha hb hab hba

end Sorting

end DocParser
