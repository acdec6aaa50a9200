import Mathlib.Data.List.Induction

/-!
# Programs that emit

A program emits observations while it runs, and returns a value or stops with an error; what is
left of it after an error emits nothing. Two kinds of rules reason about such programs.

* `wp`: a monitor reads what is emitted, one state after the other, and gets stuck at what it
  rejects. The rules `wp_pure`, `wp_bind`, `wp_emit`, `wp_stop` and `wp_mono` compute the weakest
  precondition of a program that the monitor reads to the end; `run_split` looks into the run of
  the monitor again.
* `Returns`: what holds of every value that a program returns. `Yields`: also which errors it may
  stop with. `Refines`: whenever one program returns, so does another, with a related value. What
  they emit may differ.
-/

namespace Emission

structure Program (ω ε α : Type) where
  emitted : List ω
  result : Except ε α

variable {ω ε α β γ δ σ : Type}

namespace Program

def returning (a : α) : Program ω ε α := ⟨[], .ok a⟩

/-- The second program runs only if the first one returns. -/
def andThen (x : Program ω ε α) (f : α → Program ω ε β) : Program ω ε β :=
  match x.result with
  | .error e => ⟨x.emitted, .error e⟩
  | .ok a => ⟨x.emitted ++ (f a).emitted, (f a).result⟩

instance : Monad (Program ω ε) where
  pure := returning
  bind := andThen

end Program

open Program

def emit (o : ω) : Program ω ε Unit := ⟨[o], .ok ()⟩

def stop (e : ε) : Program ω ε α := ⟨[], .error e⟩

/-- Emits for every element of a list. -/
def emitAll (l : List ω) : Program ω ε Unit := ⟨l, .ok ()⟩

theorem result_bind_ok {x : Program ω ε α} {a : α} (h : x.result = .ok a)
    (f : α → Program ω ε β) : (x >>= f).result = (f a).result := by
  show (x.andThen f).result = _
  unfold andThen
  rw [h]

/-- A program that returns has returned at every step. -/
theorem ok_of_bind_ok {x : Program ω ε α} {f : α → Program ω ε β} {b : β}
    (h : (x >>= f).result = .ok b) : ∃ a, x.result = .ok a ∧ (f a).result = .ok b := by
  cases hx : x.result with
  | error e =>
    have hstop : (x >>= f).result = .error e := by
      show (x.andThen f).result = _
      unfold andThen
      rw [hx]
    rw [hstop] at h
    cases h
  | ok a =>
    rw [result_bind_ok hx] at h
    exact ⟨a, rfl, h⟩

/-! ## Monitors -/

section Monitors

variable (step : σ → ω → Option σ)

/-- The state of a monitor after a trace, or `none` when it is stuck. -/
def run : List ω → σ → Option σ
  | [], s => some s
  | o :: trace, s => (step s o).bind (run trace)

@[simp] theorem run_nil (s : σ) : run step [] s = some s := rfl

theorem run_append (front back : List ω) (s : σ) :
    run step (front ++ back) s = (run step front s).bind (run step back) := by
  induction front generalizing s with
  | nil => rfl
  | cons o front ih =>
    show (step s o).bind (run step (front ++ back)) = _
    rw [funext (fun t => ih t), ← Option.bind_assoc]
    rfl

/-- The state of the monitor before and after one of the things it reads. -/
theorem run_split {front back : List ω} {o : ω} {s u : σ}
    (h : run step (front ++ o :: back) s = some u) :
    ∃ t t', run step front s = some t ∧ step t o = some t' ∧ run step back t' = some u := by
  rw [run_append, Option.bind_eq_some_iff] at h
  obtain ⟨t, hfront, hrest⟩ := h
  obtain ⟨t', hstep, hback⟩ := Option.bind_eq_some_iff.mp hrest
  exact ⟨t, t', hfront, hstep, hback⟩

/-- **Invariant rule.** What holds of the empty trace and is kept whenever the monitor reads on
holds of every trace that it reads. -/
theorem run_invariant {I : List ω → σ → Prop} {s : σ} (hinit : I [] s)
    (hstep : ∀ trace t o t', run step trace s = some t → I trace t → step t o = some t' →
      I (trace ++ [o]) t') {trace : List ω} {t : σ} (h : run step trace s = some t) :
    I trace t := by
  induction trace using List.reverseRecOn generalizing t with
  | nil =>
    obtain rfl := Option.some.inj h
    exact hinit
  | append_singleton trace o ih =>
    obtain ⟨u, u', hfront, ho, hnil⟩ := run_split step h
    obtain rfl := Option.some.inj hnil
    exact hstep trace u o _ hfront (ih hfront) ho

/-- From a state, the monitor reads all that a program emits, and ends in a state that the
result allows. -/
def wp (x : Program ω ε α) (Q : α → σ → Prop) (E : ε → σ → Prop) (s : σ) : Prop :=
  ∃ t, run step x.emitted s = some t ∧
    match x.result with
    | .ok a => Q a t
    | .error e => E e t

variable {step} {Q : α → σ → Prop} {E : ε → σ → Prop} {s : σ}

theorem wp_pure {a : α} : wp step (pure a : Program ω ε α) Q E s ↔ Q a s := by
  constructor
  · rintro ⟨t, hrun, h⟩
    obtain rfl := Option.some.inj hrun
    exact h
  · exact fun h => ⟨s, rfl, h⟩

theorem wp_stop {e : ε} : wp step (stop e : Program ω ε α) Q E s ↔ E e s := by
  constructor
  · rintro ⟨t, hrun, h⟩
    obtain rfl := Option.some.inj hrun
    exact h
  · exact fun h => ⟨s, rfl, h⟩

theorem wp_emit {o : ω} {Q : Unit → σ → Prop} :
    wp step (emit o : Program ω ε Unit) Q E s ↔ ∃ t, step s o = some t ∧ Q () t := by
  unfold wp emit run
  simp only [Option.bind_eq_some_iff, run_nil, Option.some.injEq]
  constructor
  · rintro ⟨t, ⟨u, hu, rfl⟩, h⟩
    exact ⟨u, hu, h⟩
  · rintro ⟨t, ht, h⟩
    exact ⟨t, ⟨t, ht, rfl⟩, h⟩

theorem wp_bind {x : Program ω ε α} {f : α → Program ω ε β} {Q : β → σ → Prop} :
    wp step (x >>= f) Q E s ↔ wp step x (fun a => wp step (f a) Q E) E s := by
  show wp step (x.andThen f) Q E s ↔ _
  unfold wp andThen
  cases hx : x.result with
  | error e => rfl
  | ok a =>
    simp only [run_append, Option.bind_eq_some_iff]
    constructor
    · rintro ⟨u, ⟨t, hx', hf⟩, h⟩
      exact ⟨t, hx', u, hf, h⟩
    · rintro ⟨t, hx', u, hf, h⟩
      exact ⟨u, ⟨t, hx', hf⟩, h⟩

/-- **Consequence.** -/
theorem wp_mono {x : Program ω ε α} {Q' : α → σ → Prop} (h : wp step x Q E s)
    (hQ : ∀ a t, Q a t → Q' a t) : wp step x Q' E s := by
  obtain ⟨t, hrun, h⟩ := h
  refine ⟨t, hrun, ?_⟩
  split at h
  · exact hQ _ _ h
  · exact h

/-- A state that the monitor keeps while it reads a list. -/
theorem wp_emitAll {l : List ω} {Q : Unit → σ → Prop} (hstep : ∀ o ∈ l, step s o = some s)
    (h : Q () s) : wp step (emitAll l : Program ω ε Unit) Q E s := by
  refine ⟨s, ?_, h⟩
  show run step l s = some s
  induction l with
  | nil => rfl
  | cons o l ih =>
    unfold run
    rw [hstep o List.mem_cons_self]
    exact ih fun o' ho' => hstep o' (List.mem_cons_of_mem _ ho')

end Monitors

/-! ## Values that are returned -/

/-- What a program returns, if it returns, has a property. -/
def Returns (P : α → Prop) (x : Program ω ε α) : Prop := ∀ a, x.result = .ok a → P a

namespace Returns

variable {P : α → Prop} {x : Program ω ε α}

theorem returning {a : α} (h : P a) : Returns P (pure a : Program ω ε α) := by
  intro a' ha'
  obtain rfl := Except.ok.inj ha'
  exact h

theorem stopped (e : ε) : Returns P (stop e : Program ω ε α) := by
  intro a ha
  cases ha

theorem bind {Q : β → Prop} {f : α → Program ω ε β} (hx : Returns P x)
    (hf : ∀ a, P a → Returns Q (f a)) : Returns Q (x >>= f) := by
  intro b hb
  obtain ⟨a, ha, hfa⟩ := ok_of_bind_ok hb
  exact hf a (hx a ha) b hfa

/-- A first part of which nothing needs to be known. -/
theorem after {Q : β → Prop} {f : α → Program ω ε β} (hf : ∀ a, Returns Q (f a)) :
    Returns Q (x >>= f) :=
  bind (P := fun _ => True) (fun _ _ => trivial) fun a _ => hf a

theorem mono {P' : α → Prop} (h : Returns P x) (hP : ∀ a, P a → P' a) : Returns P' x :=
  fun a ha => hP a (h a ha)

end Returns

/-! ## Values and errors -/

/-- What a program returns has a property, and it stops with allowed errors only. -/
structure Yields (P : α → Prop) (E : ε → Prop) (x : Program ω ε α) : Prop where
  value : Returns P x
  error : ∀ e, x.result = .error e → E e

namespace Yields

variable {P : α → Prop} {E : ε → Prop} {x : Program ω ε α}

theorem returning {a : α} (h : P a) : Yields P E (pure a : Program ω ε α) where
  value := .returning h
  error e he := by cases he

theorem stopped {e : ε} (h : E e) : Yields P E (stop e : Program ω ε α) where
  value := .stopped e
  error e' he' := by
    obtain rfl := Except.error.inj he'
    exact h

theorem bind {Q : β → Prop} {f : α → Program ω ε β} (hx : Yields P E x)
    (hf : ∀ a, P a → Yields Q E (f a)) : Yields Q E (x >>= f) where
  value := hx.value.bind fun a ha => (hf a ha).value
  error e he := by
    cases hcase : x.result with
    | error e' =>
      have hstop : (x >>= f).result = .error e' := by
        show (x.andThen f).result = _
        unfold andThen
        rw [hcase]
      obtain rfl := Except.error.inj (hstop.symm.trans he)
      exact hx.error _ hcase
    | ok a =>
      rw [result_bind_ok hcase] at he
      exact (hf a (hx.value a hcase)).error e he

theorem emitted (o : ω) : Yields (fun _ => True) E (emit o : Program ω ε Unit) where
  value _ _ := trivial
  error e he := by cases he

theorem emittedAll (l : List ω) : Yields (fun _ => True) E (emitAll l : Program ω ε Unit) where
  value _ _ := trivial
  error e he := by cases he

/-- A first part that cannot stop wrongly, and of which nothing else needs to be known. -/
theorem after {Q : β → Prop} {f : α → Program ω ε β} (hx : Yields (fun _ => True) E x)
    (hf : ∀ a, Yields Q E (f a)) : Yields Q E (x >>= f) := hx.bind fun a _ => hf a

theorem mono {P' : α → Prop} (h : Yields P E x) (hP : ∀ a, P a → P' a) : Yields P' E x :=
  ⟨h.value.mono hP, h.error⟩

end Yields

/-! ## Refinement -/

/-- Whenever the first program returns, so does the second one, with a related value. -/
def Refines (R : α → β → Prop) (x : Program ω ε α) (y : Program ω ε β) : Prop :=
  ∀ a, x.result = .ok a → ∃ b, y.result = .ok b ∧ R a b

namespace Refines

theorem refl (x : Program ω ε α) : Refines Eq x x := fun a h => ⟨a, h, rfl⟩

theorem returning {R : α → β → Prop} {a : α} {b : β} (h : R a b) :
    Refines R (pure a : Program ω ε α) (pure b) := by
  intro a' ha'
  obtain rfl := Except.ok.inj ha'
  exact ⟨b, rfl, h⟩

/-- Nothing is asked of the second program when the first one stops. -/
theorem stopped {R : α → β → Prop} (e : ε) (y : Program ω ε β) :
    Refines R (stop e) y := by
  intro a ha
  cases ha

theorem emitted (o o' : ω) : Refines Eq (emit o : Program ω ε Unit) (emit o') :=
  fun a _ => ⟨a, rfl, rfl⟩

theorem bind {R : α → β → Prop} {S : γ → δ → Prop} {x : Program ω ε α} {y : Program ω ε β}
    {f : α → Program ω ε γ} {g : β → Program ω ε δ} (hx : Refines R x y)
    (hf : ∀ a b, R a b → Refines S (f a) (g b)) : Refines S (x >>= f) (y >>= g) := by
  intro c hc
  obtain ⟨a, ha, hfa⟩ := ok_of_bind_ok hc
  obtain ⟨b, hb, hab⟩ := hx a ha
  obtain ⟨d, hd, hcd⟩ := hf a b hab c hfa
  exact ⟨d, by rw [result_bind_ok hb]; exact hd, hcd⟩

/-- A common first part is run once. -/
theorem bind_same {S : γ → δ → Prop} (x : Program ω ε α) {f : α → Program ω ε γ}
    {g : α → Program ω ε δ} (hf : ∀ a, x.result = .ok a → Refines S (f a) (g a)) :
    Refines S (x >>= f) (x >>= g) := by
  intro c hc
  obtain ⟨a, ha, hfa⟩ := ok_of_bind_ok hc
  obtain ⟨d, hd, hcd⟩ := hf a ha c hfa
  exact ⟨d, by rw [result_bind_ok ha]; exact hd, hcd⟩

/-- What is known of the values of the first program relates them to those of the second one. -/
theorem of_returns {P : α → Prop} {R : α → β → Prop} {x : Program ω ε α} {y : Program ω ε β}
    (hx : Returns P x) (h : ∀ a, P a → ∃ b, y.result = .ok b ∧ R a b) : Refines R x y :=
  fun a ha => h a (hx a ha)

theorem mono {R S : α → β → Prop} {x : Program ω ε α} {y : Program ω ε β} (h : Refines R x y)
    (hRS : ∀ a b, R a b → S a b) : Refines S x y := by
  intro a ha
  obtain ⟨b, hb, hab⟩ := h a ha
  exact ⟨b, hb, hRS a b hab⟩

end Refines

end Emission
