import Mathlib.Data.Rat.Cast.Order
import Mathlib.Tactic.NormNum
import DocParser.Lib.Comparators

/-!
# Numbers of the document model

The code computes with `double`. The model takes the operations it uses as a class without any
law, so that what holds over every instance holds of the machine's numbers with their rounding,
infinities and NaNs; `max`, `min` and `abs` are those of the standard library. Statements about
exact geometry use the instance of the rationals, and the few facts that a proof needs are
`LawfulDouble` for conversions and `OrderedDouble` for comparisons.
-/

namespace DocParser

open Comparators

/-- The operations of `double` that the code uses. -/
class Double (α : Type) extends Add α, Sub α, Mul α, Div α, LT α, LE α, BEq α,
    OfScientific α where
  ofInt : Int → α
  isFinite : α → Bool
  /-- `std::ceil`, converted to an integer. -/
  ceil : α → Int
  /-- `std::numeric_limits<double>::max()` -/
  largest : α
  decidableLt : DecidableLT α
  decidableLe : DecidableLE α

namespace Double

variable {α : Type} [Double α]

instance (priority := low) : DecidableLT α := decidableLt

instance (priority := low) : DecidableLE α := decidableLe

instance (priority := low) numeral {n : Nat} : OfNat α n := ⟨ofInt n⟩

instance (priority := low) : Inhabited α := ⟨ofInt 0⟩

/-- `std::max`. -/
def max (a b : α) : α := if a < b then b else a

/-- `std::min`. -/
def min (a b : α) : α := if b < a then b else a

/-- `std::abs`. -/
def abs (a : α) : α := if a < 0 then 0 - a else a

/-- The same number, if zeros of both signs are one. -/
def Same (a b : α) : Prop :=
  a = b ∨ (isFinite a = true ∧ isFinite b = true ∧ ¬ a < b ∧ ¬ b < a)

end Double

/-- Conversions from `int` are finite and keep the sign. The code converts nothing beyond the range
of `int`, so that `ofInt` may saturate there (`lawful_saturating`). -/
class LawfulDouble (α : Type) [Double α] : Prop where
  isFinite_ofInt : ∀ n : Int, Double.isFinite (Double.ofInt n : α) = true
  nonpos_of_ofInt_le : ∀ n : Int, (Double.ofInt n : α) ≤ Double.ofInt 0 → n ≤ 0

namespace Double

variable {α : Type}

/-- The nearest value of `int`. -/
def clampInt (n : Int) : Int := Max.max (-2 ^ 31) (Min.min (2 ^ 31 - 1) n)

/-- The same operations with conversions that saturate. -/
abbrev saturating (α : Type) [Double α] : Double α :=
  { (inferInstance : Double α) with ofInt := fun n => Double.ofInt (clampInt n) }

/-- The laws are those of the conversions from the range of `int`, where a machine number is
exact. -/
theorem lawful_saturating [Double α]
    (hfinite : ∀ n : Int, -2 ^ 31 ≤ n → n < 2 ^ 31 → isFinite (ofInt n : α) = true)
    (hsign : ∀ n : Int, -2 ^ 31 ≤ n → n < 2 ^ 31 → (ofInt n : α) ≤ ofInt 0 → n ≤ 0) :
    @LawfulDouble α (saturating α) := by
  have hlow : ∀ n : Int, -2 ^ 31 ≤ clampInt n := fun n => Int.le_max_left _ _
  have hhigh : ∀ n : Int, clampInt n < 2 ^ 31 := by
    intro n
    unfold clampInt
    omega
  refine @LawfulDouble.mk α (saturating α) (fun n => hfinite _ (hlow n) (hhigh n)) ?_
  intro n hle
  have hclamp := hsign _ (hlow n) (hhigh n) hle
  unfold clampInt at hclamp
  omega

end Double

/-- The finite numbers are ordered. -/
class OrderedDouble (α : Type) [Double α] : Prop where
  strictWeakOn : StrictWeakOn (fun a : α => Double.isFinite a = true) (· < ·)

/-- The rationals; the largest `double` is `(2 ^ 53 - 1) * 2 ^ 971`. -/
instance : Double ℚ where
  ofInt := Int.cast
  isFinite _ := true
  ceil := Rat.ceil
  largest := (2 ^ 53 - 1) * 2 ^ 971
  decidableLt := inferInstance
  decidableLe := inferInstance

instance : LawfulDouble ℚ where
  isFinite_ofInt _ := rfl
  nonpos_of_ofInt_le _ h := Int.cast_le.mp h

instance : OrderedDouble ℚ where
  strictWeakOn := strictWeakOn_of_linear id

namespace Double

/-- A numeral of the model is the numeral of `ℚ`. -/
theorem ofNat_rat (n : Nat) : (@OfNat.ofNat ℚ n numeral) = (n : ℚ) := by
  show ((n : Int) : ℚ) = (n : ℚ)
  norm_cast

end Double

end DocParser
