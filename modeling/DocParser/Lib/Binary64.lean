import Mathlib.Algebra.Order.Ring.Nat
import Mathlib.Data.Nat.Log
import Mathlib.Tactic.Ring

/-!
# Natural numbers as doubles

The nearest double of a natural number, ties to even. It keeps the order (`nearest_mono`), and a
double is the nearest one of itself (`representable_nearest`).
-/

namespace Binary64

/-- The distance between the doubles around a natural number. -/
def unit (n : Nat) : Nat := 2 ^ (n.log2 - 52)

def nearest (n : Nat) : Nat :=
  let down := n / unit n * unit n
  if 2 * (n - down) < unit n ∨ 2 * (n - down) = unit n ∧ n / unit n % 2 = 0 then down
  else down + unit n

/-- A double has this value. -/
def Representable (n : Nat) : Prop := nearest n = n

theorem unit_pos (n : Nat) : 0 < unit n := Nat.two_pow_pos _

theorem le_nearest (n : Nat) : n / unit n * unit n ≤ nearest n := by
  unfold nearest
  dsimp only
  split_ifs <;> omega

theorem nearest_le (n : Nat) : nearest n ≤ n / unit n * unit n + unit n := by
  unfold nearest
  dsimp only
  split_ifs <;> omega

theorem unit_dvd_nearest (n : Nat) : unit n ∣ nearest n := by
  unfold nearest
  dsimp only
  split_ifs
  · exact Nat.dvd_mul_left _ _
  · exact Nat.dvd_add (Nat.dvd_mul_left _ _) (Nat.dvd_refl _)

theorem nearest_of_dvd {n : Nat} (h : unit n ∣ n) : nearest n = n := by
  have hdown : n / unit n * unit n = n := Nat.div_mul_cancel h
  unfold nearest
  dsimp only
  rw [hdown, if_pos]
  left
  have := unit_pos n
  omega

theorem representable_of_lt {n : Nat} (h : n < 2 ^ 53) : Representable n := by
  have hlog : n.log2 - 52 = 0 := by
    rcases Nat.eq_zero_or_pos n with rfl | hpos
    · rfl
    · have := (Nat.log2_lt hpos.ne').mpr h
      omega
  refine nearest_of_dvd ?_
  rw [unit, hlog, Nat.pow_zero]
  exact Nat.one_dvd n

/-- The powers of two around a number are multiples of its unit. -/
theorem nearest_bounds {n : Nat} (hn : n ≠ 0) :
    2 ^ n.log2 ≤ nearest n ∧ nearest n ≤ 2 ^ (n.log2 + 1) := by
  have hlow : unit n ∣ 2 ^ n.log2 := Nat.pow_dvd_pow 2 (Nat.sub_le _ _)
  have hhigh : unit n ∣ 2 ^ (n.log2 + 1) := Nat.pow_dvd_pow 2 (by omega)
  have hle : 2 ^ n.log2 ≤ n := Nat.log2_self_le hn
  have hlt : n < 2 ^ (n.log2 + 1) := Nat.lt_log2_self
  constructor
  · calc 2 ^ n.log2 = 2 ^ n.log2 / unit n * unit n := (Nat.div_mul_cancel hlow).symm
      _ ≤ n / unit n * unit n := Nat.mul_le_mul_right _ (Nat.div_le_div_right hle)
      _ ≤ nearest n := le_nearest n
  · have hdiv : n / unit n < 2 ^ (n.log2 + 1) / unit n :=
      Nat.div_lt_div_of_lt_of_dvd hhigh hlt
    calc nearest n ≤ n / unit n * unit n + unit n := nearest_le n
      _ = (n / unit n + 1) * unit n := by ring
      _ ≤ 2 ^ (n.log2 + 1) / unit n * unit n := Nat.mul_le_mul_right _ hdiv
      _ = 2 ^ (n.log2 + 1) := Nat.div_mul_cancel hhigh

/-- **Order.** Rounding keeps the order. -/
theorem nearest_mono {m n : Nat} (h : m ≤ n) : nearest m ≤ nearest n := by
  rcases Nat.eq_zero_or_pos m with rfl | hpos
  · exact Nat.zero_le _
  have hlog : m.log2 ≤ n.log2 :=
    (Nat.le_log2 (by omega)).mpr ((Nat.log2_self_le hpos.ne').trans h)
  by_cases hunit : unit m = unit n
  · have hdiv : m / unit n ≤ n / unit n := Nat.div_le_div_right h
    rcases Nat.eq_or_lt_of_le hdiv with heq | hlt
    · unfold nearest
      dsimp only
      rw [hunit, heq]
      split_ifs <;> omega
    · calc nearest m ≤ m / unit n * unit n + unit n := hunit ▸ nearest_le m
        _ = (m / unit n + 1) * unit n := by ring
        _ ≤ n / unit n * unit n := Nat.mul_le_mul_right _ hlt
        _ ≤ nearest n := le_nearest n
  · have hlt : m.log2 + 1 ≤ n.log2 := by
      have hne : m.log2 ≠ n.log2 := fun heq => hunit (by rw [unit, unit, heq])
      omega
    calc nearest m ≤ 2 ^ (m.log2 + 1) := (nearest_bounds hpos.ne').2
      _ ≤ 2 ^ n.log2 := Nat.pow_le_pow_right (by decide) hlt
      _ ≤ nearest n := (nearest_bounds (by omega)).1

/-- **Idempotence.** What rounding gives is a double. -/
theorem representable_nearest (n : Nat) : Representable (nearest n) := by
  rcases Nat.eq_zero_or_pos n with rfl | hpos
  · rfl
  obtain ⟨hlow, hhigh⟩ := nearest_bounds hpos.ne'
  rcases Nat.eq_or_lt_of_le hhigh with heq | hlt
  · refine nearest_of_dvd ?_
    rw [heq, unit, Nat.log2_two_pow]
    exact Nat.pow_dvd_pow 2 (Nat.sub_le _ _)
  · have hne : nearest n ≠ 0 := by
      have := Nat.two_pow_pos n.log2
      omega
    have hlog : (nearest n).log2 < n.log2 + 1 := (Nat.log2_lt hne).mpr hlt
    refine nearest_of_dvd (Nat.dvd_trans ?_ (unit_dvd_nearest n))
    exact Nat.pow_dvd_pow 2 (by omega)

end Binary64
