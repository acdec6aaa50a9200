import Mathlib.Data.List.Induction

/-!
# Histories

A history is the list of facts that a system has established so far, oldest first. A rule says
of a fact when it may follow the facts before it, and a history is *justified* when every fact
in it follows the rule. A system whose steps append only facts that follow the rule keeps its
history justified (`Justified.concat`), and what the rule says then holds at every split.
-/

namespace History

variable {φ : Type*} {rule : List φ → φ → Prop} {h pre post : List φ} {f g : φ}

/-- Every fact follows the rule at its place. -/
def Justified (rule : List φ → φ → Prop) (h : List φ) : Prop :=
  ∀ pre f post, h = pre ++ f :: post → rule pre f

theorem Justified.nil : Justified rule [] := by
  intro pre f post heq
  simp at heq

theorem Justified.of_take (hrule : ∀ n (hn : n < h.length), rule (h.take n) (h.get ⟨n, hn⟩)) :
    Justified rule h := by
  rintro pre f post rfl
  simpa using hrule pre.length (by simp)

theorem Justified.concat (hj : Justified rule h) (hf : rule h f) : Justified rule (h ++ [f]) := by
  intro pre g post heq
  rcases List.eq_nil_or_concat post with rfl | ⟨post', x, rfl⟩
  · obtain ⟨rfl, hfg⟩ := List.append_inj' heq rfl
    obtain rfl := List.cons.inj hfg |>.1
    exact hf
  · rw [List.concat_eq_append, ← List.cons_append, ← List.append_assoc] at heq
    exact hj pre g post' (List.append_inj' heq rfl).1

theorem Justified.of_concat (hj : Justified rule (h ++ [f])) : Justified rule h :=
  fun pre g post heq => hj pre g (post ++ [f]) (by rw [heq, List.append_assoc, List.cons_append])

/-- A fact after `f` follows the rule with `f` before it. -/
theorem Justified.later (hj : Justified rule h) (heq : h = pre ++ f :: post) (hg : g ∈ post) :
    ∃ before, f ∈ before ∧ rule before g := by
  obtain ⟨mid, rest, rfl⟩ := List.append_of_mem hg
  refine ⟨pre ++ f :: mid, by simp, hj _ g rest ?_⟩
  rw [heq, List.append_assoc, List.cons_append]

theorem Justified.at_mem (hj : Justified rule h) (hf : f ∈ h) :
    ∃ before, (∀ x ∈ before, x ∈ h) ∧ rule before f := by
  obtain ⟨pre, post, rfl⟩ := List.append_of_mem hf
  exact ⟨pre, fun x hx => List.mem_append_left _ hx, hj pre f post rfl⟩

/-- Two facts that exclude each other are one fact. -/
theorem Justified.eq_of_exclude (hj : Justified rule h) (hf : f ∈ h) (hg : g ∈ h)
    (hfg : ∀ before, f ∈ before → ¬ rule before g)
    (hgf : ∀ before, g ∈ before → ¬ rule before f) : f = g := by
  obtain ⟨pre, post, heq⟩ := List.append_of_mem hf
  rw [heq, List.mem_append, List.mem_cons] at hg
  rcases hg with hg | rfl | hg
  · exact absurd (hj pre f post heq) (hgf pre hg)
  · rfl
  · obtain ⟨before, hmem, hrule⟩ := hj.later heq hg
    exact absurd hrule (hfg before hmem)

/-- A kind of fact that the rule allows only once occurs at most once. -/
theorem Justified.countP_le_one {p : φ → Bool}
    (hp : ∀ pre f, rule pre f → p f = true → ∀ g ∈ pre, p g = false) (hj : Justified rule h) :
    h.countP p ≤ 1 := by
  induction h using List.reverseRecOn with
  | nil => simp
  | append_singleton l f ih =>
    have hl : Justified rule l := hj.of_concat
    rw [List.countP_append, List.countP_singleton]
    cases hpf : p f with
    | false => simpa using ih hl
    | true =>
      have hnone : l.countP p = 0 := List.countP_eq_zero.mpr fun g hg => by
        simp [hp l f (hj l f [] rfl) hpf g hg]
      simp [hnone]

end History
