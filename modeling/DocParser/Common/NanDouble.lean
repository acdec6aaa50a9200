import DocParser.Common.IeeeDouble

/-!
# Numbers with a NaN

The rationals with a value that is no number. Comparisons with it are false, and a result of it is
it again. What is proved over `IeeeDouble` under the condition that a value is a number is tried
here on inputs where it is not.
-/

namespace DocParser

open Comparators

inductive NanDouble
  | number (value : ℚ)
  | nan
  deriving DecidableEq, Repr

namespace NanDouble

def lift (op : ℚ → ℚ → ℚ) : NanDouble → NanDouble → NanDouble
  | number a, number b => number (op a b)
  | _, _ => nan

/-- There are no infinities: a quotient by zero is no number. -/
def divide : NanDouble → NanDouble → NanDouble
  | number a, number b => if b = 0 then nan else number (a / b)
  | _, _ => nan

def Related (r : ℚ → ℚ → Prop) : NanDouble → NanDouble → Prop
  | number a, number b => r a b
  | _, _ => False

instance decidableRelated (r : ℚ → ℚ → Prop) [h : DecidableRel r] : DecidableRel (Related r)
  | number a, number b => h a b
  | nan, number _ => isFalse id
  | number _, nan => isFalse id
  | nan, nan => isFalse id

instance toDouble : Double NanDouble where
  add := lift (· + ·)
  sub := lift (· - ·)
  mul := lift (· * ·)
  div := divide
  lt := Related (· < ·)
  le := Related (· ≤ ·)
  beq a b := decide (Related (· = ·) a b)
  ofScientific m s e := number (OfScientific.ofScientific m s e)
  ofInt n := number n
  isFinite a := a ≠ nan
  ceil
    | number a => Rat.ceil a
    | nan => 0
  largest := number ((2 ^ 53 - 1) * 2 ^ 971)
  decidableLt := decidableRelated (· < ·)
  decidableLe := decidableRelated (· ≤ ·)

theorem lt_iff {a b : NanDouble} : a < b ↔ Related (· < ·) a b := Iff.rfl

theorem le_iff {a b : NanDouble} : a ≤ b ↔ Related (· ≤ ·) a b := Iff.rfl

@[simp] theorem number_lt {a b : ℚ} : number a < number b ↔ a < b := Iff.rfl

@[simp] theorem number_le {a b : ℚ} : number a ≤ number b ↔ a ≤ b := Iff.rfl

theorem isNumber_iff {a : NanDouble} : IsNumber a ↔ ∃ q, a = number q := by
  cases a with
  | number q => exact ⟨fun _ => ⟨q, rfl⟩, fun _ => decide_eq_true (rfl : q = q)⟩
  | nan => exact ⟨fun h => absurd (of_decide_eq_true h) id, fun ⟨_, h⟩ => by cases h⟩

theorem not_isNumber_nan : ¬ IsNumber nan := by
  rw [isNumber_iff]
  rintro ⟨_, h⟩
  cases h

theorem numbers_of_related {r : ℚ → ℚ → Prop} {a b : NanDouble} (h : Related r a b) :
    ∃ p q, a = number p ∧ b = number q ∧ r p q := by
  cases a with
  | nan => cases h
  | number p =>
    cases b with
    | nan => cases h
    | number q => exact ⟨p, q, rfl, rfl, h⟩

theorem zero_eq : (0 : NanDouble) = number 0 := congrArg number Int.cast_zero

theorem finite_number {a : NanDouble} (h : Double.isFinite a = true) : ∃ q, a = number q := by
  cases a with
  | number q => exact ⟨q, rfl⟩
  | nan => exact absurd rfl (of_decide_eq_true h)

instance : IeeeDouble NanDouble where
  isFinite_zero := decide_eq_true (by rw [zero_eq]; exact NanDouble.noConfusion)
  isNumber_of_isFinite a h := isNumber_iff.mpr (finite_number h)
  isNumber_of_lt a b h := by
    obtain ⟨p, q, rfl, rfl, -⟩ := numbers_of_related (lt_iff.mp h)
    exact ⟨isNumber_iff.mpr ⟨p, rfl⟩, isNumber_iff.mpr ⟨q, rfl⟩⟩
  isNumber_of_le a b h := by
    obtain ⟨p, q, rfl, rfl, -⟩ := numbers_of_related (le_iff.mp h)
    exact ⟨isNumber_iff.mpr ⟨p, rfl⟩, isNumber_iff.mpr ⟨q, rfl⟩⟩
  strictWeakOn := by
    constructor
    · intro a b ha hb hab hba
      obtain ⟨p, q, rfl, rfl, hlt⟩ := numbers_of_related (lt_iff.mp hab)
      exact lt_asymm hlt (number_lt.mp hba)
    · intro a b c ha hb hc hac
      obtain ⟨p, q, rfl, rfl, hlt⟩ := numbers_of_related (lt_iff.mp hac)
      obtain ⟨m, rfl⟩ := isNumber_iff.mp hb
      exact (lt_or_ge p m).imp number_lt.mpr fun hle => number_lt.mpr (lt_of_le_of_lt hle hlt)
  beq_iff a b ha hb := by
    obtain ⟨p, rfl⟩ := isNumber_iff.mp ha
    obtain ⟨q, rfl⟩ := isNumber_iff.mp hb
    rw [number_lt, number_lt, not_lt, not_lt]
    exact ⟨fun h => ⟨(of_decide_eq_true h : p = q).ge, (of_decide_eq_true h : p = q).le⟩,
      fun h => decide_eq_true (le_antisymm h.2 h.1 : p = q)⟩
  le_iff a b ha hb := by
    obtain ⟨p, rfl⟩ := isNumber_iff.mp ha
    obtain ⟨q, rfl⟩ := isNumber_iff.mp hb
    rw [number_lt, number_le, not_lt]
  eq_of_pos a b ha hb hab hba := by
    obtain ⟨_, p, -, rfl, -⟩ := numbers_of_related (lt_iff.mp ha)
    obtain ⟨_, q, -, rfl, -⟩ := numbers_of_related (lt_iff.mp hb)
    rw [number_lt, not_lt] at hab hba
    rw [le_antisymm hba hab]
  isNumber_add a b ha hb := by
    obtain ⟨p, rfl⟩ := finite_number ha
    obtain ⟨q, rfl⟩ := finite_number hb
    exact isNumber_iff.mpr ⟨p + q, rfl⟩
  isNumber_sub a b ha hb := by
    obtain ⟨p, rfl⟩ := finite_number ha
    obtain ⟨q, rfl⟩ := finite_number hb
    exact isNumber_iff.mpr ⟨p - q, rfl⟩
  isNumber_mul a c ha hc _ := by
    obtain ⟨p, rfl⟩ := isNumber_iff.mp ha
    obtain ⟨q, rfl⟩ := finite_number hc
    exact isNumber_iff.mpr ⟨p * q, rfl⟩
  sub_pos a b ha hb := by
    obtain ⟨p, rfl⟩ := finite_number ha
    obtain ⟨q, rfl⟩ := finite_number hb
    rw [zero_eq]
    exact sub_pos (a := p) (b := q)
  add_nonneg a b ha hb := by
    rw [zero_eq] at ha hb ⊢
    obtain ⟨_, p, -, rfl, -⟩ := numbers_of_related (le_iff.mp ha)
    obtain ⟨_, q, -, rfl, -⟩ := numbers_of_related (le_iff.mp hb)
    exact number_le.mpr (add_nonneg (number_le.mp ha) (number_le.mp hb))
  mul_nonneg a c ha _ hc := by
    rw [zero_eq] at ha hc ⊢
    obtain ⟨_, p, -, rfl, -⟩ := numbers_of_related (le_iff.mp ha)
    obtain ⟨_, q, -, rfl, -⟩ := numbers_of_related (lt_iff.mp hc)
    exact number_le.mpr (mul_nonneg (number_le.mp ha) (number_lt.mp hc).le)
  decimal m e hm hm' he := by
    obtain ⟨-, hpos⟩ := IeeeDouble.decimal (α := ℚ) m e hm hm' he
    rw [Double.ofNat_rat, Nat.cast_zero] at hpos
    rw [zero_eq]
    exact ⟨decide_eq_true NanDouble.noConfusion, hpos⟩

end NanDouble

end DocParser
