import Mathlib.Order.Basic

/-!
# Labelled transition systems

A system is a set of initial states and a labelled step relation. `Reachable` is closed under
steps, `Run` lists the labels of a finite run, and `Simulation` relates a concrete system to an
abstract one through a function on states. The rules used elsewhere are

* `Reachable.invariant`: what holds initially and is kept by every step holds in every
  reachable state;
* `Run.preserves`: what every step keeps is kept by a whole run;
* `Simulation.reachable`: invariants of the abstract system hold of the concrete one.
-/

namespace Transition

universe u v w

/-- Initial states and labelled steps. -/
structure System (σ : Type u) (ι : Type v) where
  init : σ → Prop
  step : σ → ι → σ → Prop

namespace System

variable {σ : Type u} {ι : Type v} (S : System σ ι)

/-- States that some finite run from an initial state ends in. -/
inductive Reachable : σ → Prop
  | init {s : σ} : S.init s → Reachable s
  | step {s t : σ} {l : ι} : Reachable s → S.step s l t → Reachable t

/-- Finite runs, with the labels they take in order. -/
inductive Run : σ → List ι → σ → Prop
  | nil (s : σ) : Run s [] s
  | cons {s t u : σ} {l : ι} {ls : List ι} : S.step s l t → Run t ls u → Run s (l :: ls) u

variable {S}

/-- **Invariant rule.** The step may use that its source is reachable. -/
theorem Reachable.invariant {I : σ → Prop} (hinit : ∀ s, S.init s → I s)
    (hstep : ∀ s l t, S.Reachable s → I s → S.step s l t → I t) {s : σ}
    (hs : S.Reachable s) : I s := by
  induction hs with
  | init h => exact hinit _ h
  | step hr hst ih => exact hstep _ _ _ hr ih hst

theorem Reachable.run {s t : σ} {ls : List ι} (hs : S.Reachable s) (hr : S.Run s ls t) :
    S.Reachable t := by
  induction hr with
  | nil => exact hs
  | cons h _ ih => exact ih (hs.step h)

/-- **Stability rule.** What every step from a reachable state keeps, every run keeps. -/
theorem Run.preserves {P : σ → Prop}
    (hstep : ∀ s l t, S.Reachable s → P s → S.step s l t → P t) {s t : σ} {ls : List ι}
    (hs : S.Reachable s) (hr : S.Run s ls t) (hP : P s) : P t := by
  induction hr with
  | nil => exact hP
  | cons h _ ih => exact ih (hs.step h) (hstep _ _ _ hs hP h)

end System

/-- Every concrete step is an abstract step or leaves the abstract state alone. -/
structure Simulation {σ : Type u} {ι : Type v} {τ : Type w} {κ : Type v}
    (C : System σ ι) (A : System τ κ) (abs : σ → τ) : Prop where
  init : ∀ s, C.init s → A.init (abs s)
  step : ∀ s l t, C.Reachable s → C.step s l t →
    abs t = abs s ∨ ∃ k, A.step (abs s) k (abs t)

theorem Simulation.reachable {σ : Type u} {ι : Type v} {τ : Type w} {κ : Type v}
    {C : System σ ι} {A : System τ κ} {abs : σ → τ} (h : Simulation C A abs) {s : σ}
    (hs : C.Reachable s) : A.Reachable (abs s) := by
  refine System.Reachable.invariant (I := fun s => A.Reachable (abs s))
    (fun s hi => .init (h.init s hi)) (fun s l t hr ih hst => ?_) hs
  rcases h.step s l t hr hst with heq | ⟨k, hk⟩
  · rw [heq]; exact ih
  · exact ih.step hk

end Transition
