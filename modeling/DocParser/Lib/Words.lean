import Mathlib.Data.List.Infix

/-!
# Words

The words of a text are its longest parts without separators. A part of a text that has no
separator lies on one side of every separator.
-/

namespace Words

variable {σ τ : Type} (isSpace : σ → Bool)

/-- A text is split at its separators; empty parts are left out. -/
def words (text : List σ) : List (List σ) :=
  (text.splitOnP isSpace).filter fun word => !word.isEmpty

variable {isSpace} {word : List σ}

theorem mem_splitOnP {text : List σ} : (∀ part, (text.splitOnP isSpace).head? = some part →
      part <+: text) ∧
    ∀ part ∈ text.splitOnP isSpace, part <:+: text ∧ ∀ c ∈ part, isSpace c = false := by
  induction text with
  | nil => simp
  | cons c text ih =>
    rw [List.splitOnP_cons_eq_if_modifyHead]
    obtain ⟨ihHead, ihParts⟩ := ih
    by_cases hc : isSpace c = true
    · rw [if_pos hc]
      refine ⟨by simp, fun part hpart => ?_⟩
      rcases List.mem_cons.mp hpart with rfl | hpart
      · simp
      · obtain ⟨hinside, hspaceless⟩ := ihParts part hpart
        exact ⟨List.infix_cons hinside, hspaceless⟩
    · rw [if_neg hc]
      cases hparts : text.splitOnP isSpace with
      | nil => simp
      | cons first rest =>
        rw [hparts] at ihHead ihParts
        have hstart : c :: first <+: c :: text := by simpa using ihHead first rfl
        refine ⟨by simpa using hstart, fun part hpart => ?_⟩
        rcases List.mem_cons.mp hpart with rfl | hpart
        · refine ⟨hstart.isInfix, fun d hd => ?_⟩
          rcases List.mem_cons.mp hd with rfl | hd
          · simpa using hc
          · exact (ihParts first (by simp)).2 d hd
        · obtain ⟨hinside, hspaceless⟩ := ihParts part (by simp [hpart])
          exact ⟨List.infix_cons hinside, hspaceless⟩

/-- A word is a part of its text, not empty and without separators. -/
theorem mem_words {text : List σ} (h : word ∈ words isSpace text) :
    word ≠ [] ∧ word <:+: text ∧ ∀ c ∈ word, isSpace c = false := by
  obtain ⟨hmem, hnonempty⟩ := List.mem_filter.mp h
  exact ⟨by simpa using hnonempty, mem_splitOnP.2 word hmem⟩

theorem eq_nil_of_spaceless {back : List σ} {c : σ} (hc : isSpace c = true)
    (hword : ∀ d ∈ word, isSpace d = false) (h : word <+: c :: back) : word = [] := by
  rcases List.prefix_cons_iff.mp h with rfl | ⟨rest, rfl, -⟩
  · rfl
  · simp [hword c (by simp)] at hc

/-- **Sides.** A part without separators lies on one side of a separator. -/
theorem infix_of_separator {front back : List σ} {c : σ} (hc : isSpace c = true)
    (hword : ∀ d ∈ word, isSpace d = false) (h : word <:+: front ++ c :: back) :
    word <:+: front ∨ word <:+: back := by
  rcases List.infix_append_iff.mp h with hfront | hback | ⟨before, after, rfl, hbefore, hafter⟩
  · exact Or.inl hfront
  · rcases List.infix_cons_iff.mp hback with hstart | hback
    · rw [eq_nil_of_spaceless hc hword hstart]
      exact Or.inl List.nil_infix
    · exact Or.inr hback
  · -- what lies behind the separator starts with it
    have hnil := eq_nil_of_spaceless hc (fun d hd => hword d (by simp [hd])) hafter
    rw [hnil, List.append_nil]
    exact Or.inl hbefore.isInfix

theorem infix_of_intercalate {c : σ} (hc : isSpace c = true) (hnonempty : word ≠ [])
    (hword : ∀ d ∈ word, isSpace d = false) {texts : List (List σ)}
    (h : word <:+: [c].intercalate texts) : ∃ text ∈ texts, word <:+: text := by
  induction texts with
  | nil => simp_all
  | cons text texts ih =>
    cases texts with
    | nil => exact ⟨text, by simp, by simpa using h⟩
    | cons next texts =>
      rw [List.intercalate_cons_cons] at h
      simp only [List.append_assoc, List.singleton_append] at h
      rcases infix_of_separator hc hword h with htext | hrest
      · exact ⟨text, by simp, htext⟩
      · obtain ⟨other, hother, hinside⟩ := ih hrest
        exact ⟨other, List.mem_cons_of_mem _ hother, hinside⟩

theorem infix_flatMap {text : List σ} (f : σ → List τ) (h : word <:+: text) :
    word.flatMap f <:+: text.flatMap f := by
  obtain ⟨before, after, rfl⟩ := h
  exact ⟨before.flatMap f, after.flatMap f, by simp⟩

end Words
