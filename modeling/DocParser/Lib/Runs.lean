import Mathlib.Data.List.Destutter

/-!
# Runs of equal keys

A loop that compares each element with the one before it sees the first element of every run.
`foldl_pass`: it folds over these, whatever it does with them.
-/

namespace Runs

variable {τ κ σ : Type} [DecidableEq κ] (key : τ → κ) (f : σ → τ → σ)

/-- The first elements of the runs. -/
def firsts (l : List τ) : List τ := l.destutter fun a b => key a ≠ key b

/-- One element of a loop that remembers the last key. -/
def pass (s : σ × Option κ) (a : τ) : σ × Option κ :=
  if s.2 = some (key a) then s else (f s.1 a, some (key a))

theorem destutter'_eq_cons (r : τ → τ → Prop) [DecidableRel r] (l : List τ) : ∀ a : τ,
    l.destutter' r a = a :: (l.destutter' r a).tail := by
  induction l with
  | nil => exact fun a => rfl
  | cons b l ih =>
    intro a
    by_cases h : r a b
    · rw [List.destutter'_cons_pos _ h, List.tail_cons]
    · rw [List.destutter'_cons_neg _ h]
      exact ih a

/-- Behind an element the loop sees the rest of the runs. -/
theorem foldl_pass_cons (l : List τ) : ∀ (a : τ) (s : σ),
    (l.foldl (pass key f) (s, some (key a))).1 =
      ((l.destutter' (fun a b => key a ≠ key b) a).tail).foldl f s := by
  induction l with
  | nil => exact fun a s => rfl
  | cons b l ih =>
    intro a s
    rw [List.foldl_cons]
    unfold pass
    by_cases h : key a = key b
    · rw [if_pos (congrArg some h), List.destutter'_cons_neg _ (not_not.mpr h)]
      exact ih a s
    · rw [if_neg (fun heq => h (Option.some.inj heq)), List.destutter'_cons_pos _ h, List.tail_cons,
        destutter'_eq_cons, List.foldl_cons]
      exact ih b (f s b)

/-- **A pass** folds over the first elements of the runs. -/
theorem foldl_pass (l : List τ) (s : σ) :
    (l.foldl (pass key f) (s, none)).1 = (firsts key l).foldl f s := by
  cases l with
  | nil => rfl
  | cons a l =>
    unfold firsts
    rw [List.destutter_cons', destutter'_eq_cons]
    exact foldl_pass_cons key f l a (f s a)

end Runs
