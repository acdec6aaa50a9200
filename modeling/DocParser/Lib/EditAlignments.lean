import Mathlib

/-!
# Edit alignments

How one string is edited into another one, from its first character to its last. The last edit
says how the ends of the strings are aligned (`aligns_concat_iff`), which is the recurrence of the
dynamic programs for the edit distance. A character of the source either costs an edit or is matched
exactly (`length_source_le`), and what costs nothing is an equal string (`Aligns.eq_of_cost`).
-/

namespace EditAlignments

variable {χ : Type}

inductive Edit (χ : Type)
  | pair (a b : χ)
  | delete (a : χ)
  | insert (b : χ)
  deriving DecidableEq, Repr

namespace Edit

def source : Edit χ → List χ
  | pair a _ => [a]
  | delete a => [a]
  | insert _ => []

def target : Edit χ → List χ
  | pair _ b => [b]
  | delete _ => []
  | insert b => [b]

variable [DecidableEq χ]

def cost : Edit χ → Nat
  | pair a b => if a = b then 0 else 1
  | delete _ => 1
  | insert _ => 1

def exact : Edit χ → Nat
  | pair a b => if a = b then 1 else 0
  | delete _ => 0
  | insert _ => 0

end Edit

def source (edits : List (Edit χ)) : List χ := edits.flatMap Edit.source

def target (edits : List (Edit χ)) : List χ := edits.flatMap Edit.target

/-- The edits align the two strings. -/
def Aligns (edits : List (Edit χ)) (r t : List χ) : Prop := source edits = r ∧ target edits = t

section Alignments

variable {edits : List (Edit χ)} {r t : List χ} {a : χ}

theorem source_cons (edit : Edit χ) (edits : List (Edit χ)) :
    source (edit :: edits) = edit.source ++ source edits := rfl

theorem target_cons (edit : Edit χ) (edits : List (Edit χ)) :
    target (edit :: edits) = edit.target ++ target edits := rfl

theorem source_concat (edits : List (Edit χ)) (edit : Edit χ) :
    source (edits ++ [edit]) = source edits ++ edit.source := by simp [source]

theorem target_concat (edits : List (Edit χ)) (edit : Edit χ) :
    target (edits ++ [edit]) = target edits ++ edit.target := by simp [target]

theorem Aligns.pair (h : Aligns edits r t) (a b : χ) :
    Aligns (edits ++ [.pair a b]) (r ++ [a]) (t ++ [b]) :=
  ⟨by rw [source_concat, h.1]; rfl, by rw [target_concat, h.2]; rfl⟩

theorem Aligns.delete (h : Aligns edits r t) (a : χ) :
    Aligns (edits ++ [.delete a]) (r ++ [a]) t :=
  ⟨by rw [source_concat, h.1]; rfl, by rw [target_concat, h.2]; exact List.append_nil t⟩

theorem Aligns.insert (h : Aligns edits r t) (b : χ) :
    Aligns (edits ++ [.insert b]) r (t ++ [b]) :=
  ⟨by rw [source_concat, h.1]; exact List.append_nil r, by rw [target_concat, h.2]; rfl⟩

/-- **The last edit** of an alignment. -/
theorem aligns_concat_iff : Aligns edits (r ++ [a]) t ↔
    (∃ init u b, edits = init ++ [.pair a b] ∧ t = u ++ [b] ∧ Aligns init r u) ∨
    (∃ init, edits = init ++ [.delete a] ∧ Aligns init r t) ∨
    (∃ init u b, edits = init ++ [.insert b] ∧ t = u ++ [b] ∧ Aligns init (r ++ [a]) u) := by
  constructor
  · rintro ⟨hsource, rfl⟩
    rcases List.eq_nil_or_concat edits with rfl | ⟨init, edit, rfl⟩
    · simp [source] at hsource
    rw [List.concat_eq_append] at hsource ⊢
    rw [source_concat] at hsource
    cases edit with
    | pair x b =>
      obtain ⟨hinit, hlast⟩ := List.append_inj' hsource rfl
      cases hlast
      exact .inl ⟨init, _, b, rfl, target_concat init _, hinit, rfl⟩
    | delete x =>
      obtain ⟨hinit, hlast⟩ := List.append_inj' hsource rfl
      cases hlast
      refine .inr (.inl ⟨init, rfl, hinit, ?_⟩)
      rw [target_concat]
      exact (List.append_nil _).symm
    | insert b =>
      refine .inr (.inr ⟨init, _, b, rfl, target_concat init _, ?_, rfl⟩)
      rw [← hsource]
      exact (List.append_nil _).symm
  · rintro (⟨init, u, b, rfl, rfl, h⟩ | ⟨init, rfl, h⟩ | ⟨init, u, b, rfl, rfl, h⟩)
    · exact h.pair a b
    · exact h.delete a
    · exact h.insert b

end Alignments

/-! ## Costs -/

section Costs

variable [DecidableEq χ]

def cost (edits : List (Edit χ)) : Nat := (edits.map Edit.cost).sum

/-- The number of characters that are matched exactly. -/
def exact (edits : List (Edit χ)) : Nat := (edits.map Edit.exact).sum

variable {edits : List (Edit χ)} {r t : List χ} {a : χ}

theorem cost_cons (edit : Edit χ) (edits : List (Edit χ)) :
    cost (edit :: edits) = edit.cost + cost edits := rfl

theorem exact_cons (edit : Edit χ) (edits : List (Edit χ)) :
    exact (edit :: edits) = edit.exact + exact edits := rfl

theorem cost_concat (edits : List (Edit χ)) (edit : Edit χ) :
    cost (edits ++ [edit]) = cost edits + edit.cost := by simp [cost]

theorem exact_concat (edits : List (Edit χ)) (edit : Edit χ) :
    exact (edits ++ [edit]) = exact edits + edit.exact := by simp [exact]

/-- Insertions only. -/
theorem Aligns.of_source_nil (h : Aligns edits [] t) : cost edits = t.length ∧ exact edits = 0 := by
  obtain ⟨hsource, rfl⟩ := h
  induction edits with
  | nil => exact ⟨rfl, rfl⟩
  | cons edit edits ih =>
    cases edit with
    | insert b =>
      obtain ⟨hcost, hexact⟩ := ih hsource
      rw [cost_cons, exact_cons, target_cons, List.length_append, hcost, hexact]
      exact ⟨rfl, rfl⟩
    | pair a b => simp [source, Edit.source] at hsource
    | delete a => simp [source, Edit.source] at hsource

/-- Deletions only. -/
theorem Aligns.of_target_nil (h : Aligns edits r []) : cost edits = r.length ∧ exact edits = 0 := by
  obtain ⟨rfl, htarget⟩ := h
  induction edits with
  | nil => exact ⟨rfl, rfl⟩
  | cons edit edits ih =>
    cases edit with
    | delete a =>
      obtain ⟨hcost, hexact⟩ := ih htarget
      rw [cost_cons, exact_cons, source_cons, List.length_append, hcost, hexact]
      exact ⟨rfl, rfl⟩
    | pair a b => simp [target, Edit.target] at htarget
    | insert b => simp [target, Edit.target] at htarget

theorem length_source_le (edits : List (Edit χ)) :
    (source edits).length ≤ cost edits + exact edits := by
  induction edits with
  | nil => exact Nat.le_refl 0
  | cons edit edits ih =>
    have hedit : edit.source.length ≤ edit.cost + edit.exact := by
      cases edit with
      | pair a b =>
        simp only [Edit.source, Edit.cost, Edit.exact]
        split_ifs <;> simp
      | delete a => exact Nat.le_refl 1
      | insert b => exact Nat.zero_le _
    rw [source_cons, cost_cons, exact_cons, List.length_append]
    omega

/-- What costs nothing is an equal string. -/
theorem Aligns.eq_of_cost (h : Aligns edits r t) (hcost : cost edits = 0) :
    r = t ∧ exact edits = r.length := by
  obtain ⟨rfl, rfl⟩ := h
  induction edits with
  | nil => exact ⟨rfl, rfl⟩
  | cons edit edits ih =>
    rw [cost_cons, Nat.add_eq_zero_iff] at hcost
    obtain ⟨hedit, hcost⟩ := hcost
    cases edit with
    | pair a b =>
      have hab : a = b := by
        by_contra hne
        simp [Edit.cost, hne] at hedit
      subst hab
      obtain ⟨heq, hexact⟩ := ih hcost
      rw [source_cons, target_cons, exact_cons, List.length_append, hexact, heq]
      exact ⟨rfl, congrArg (· + _) (if_pos rfl)⟩
    | delete a => cases hedit
    | insert b => cases hedit

/-- An exact match is a common character. -/
theorem Aligns.exact_eq_zero (h : Aligns edits r t) (hdisjoint : ∀ c ∈ r, c ∉ t) :
    exact edits = 0 := by
  obtain ⟨rfl, rfl⟩ := h
  induction edits with
  | nil => rfl
  | cons edit edits ih =>
    have hrest : exact edits = 0 := ih fun c hc hc' => hdisjoint c
      (List.mem_append_right _ hc) (List.mem_append_right _ hc')
    have hedit : edit.exact = 0 := by
      cases edit with
      | pair a b =>
        refine if_neg fun hab => hdisjoint b ?_ ?_
        · exact List.mem_append_left _ (List.mem_singleton.mpr hab.symm)
        · exact List.mem_append_left _ (List.mem_singleton_self b)
      | delete a => rfl
      | insert b => rfl
    rw [exact_cons, hedit, hrest]

omit [DecidableEq χ] in
theorem delete_aligns (r : List χ) : Aligns (r.map Edit.delete) r [] := by
  induction r with
  | nil => exact ⟨rfl, rfl⟩
  | cons a r ih => exact ⟨congrArg (a :: ·) ih.1, ih.2⟩

/-- One character of a string is matched, and the others are deleted. -/
theorem exists_aligns_singleton {c : χ} (hc : c ∈ r) :
    ∃ edits, Aligns edits r [c] ∧ cost edits + 1 = r.length := by
  induction r with
  | nil => cases hc
  | cons a r ih =>
    by_cases hca : c = a
    · subst hca
      refine ⟨.pair c c :: r.map Edit.delete, ⟨?_, ?_⟩, ?_⟩
      · exact congrArg (c :: ·) (delete_aligns r).1
      · exact congrArg (c :: ·) (delete_aligns r).2
      · rw [cost_cons, (delete_aligns r).of_target_nil.1]
        simp [Edit.cost]
    · obtain ⟨edits, haligns, hcost⟩ := ih ((List.mem_cons.mp hc).resolve_left hca)
      refine ⟨.delete a :: edits, ⟨congrArg (a :: ·) haligns.1, haligns.2⟩, ?_⟩
      rw [cost_cons, List.length_cons, ← hcost]
      show 1 + cost edits + 1 = cost edits + 1 + 1
      omega

/-- The string itself. -/
def keep (r : List χ) : List (Edit χ) := r.map fun c => .pair c c

omit [DecidableEq χ] in
theorem keep_aligns (r : List χ) : Aligns (keep r) r r := by
  induction r with
  | nil => exact ⟨rfl, rfl⟩
  | cons c r ih => exact ⟨congrArg (c :: ·) ih.1, congrArg (c :: ·) ih.2⟩

theorem cost_keep (r : List χ) : cost (keep r) = 0 := by
  induction r with
  | nil => rfl
  | cons c r ih =>
    show Edit.cost (.pair c c) + cost (keep r) = 0
    rw [ih]
    exact if_pos rfl

end Costs

end EditAlignments
