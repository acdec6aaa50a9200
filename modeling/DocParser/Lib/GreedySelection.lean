import Mathlib.Data.List.Perm.Basic

/-!
# Greedy selection

A list is read once. An element that is admitted is kept unless it conflicts with one that was kept
before it, so only kept elements drop others. The decisions are read off position by position
(`exists_decisions`), no two kept elements conflict (`select_pairwise`), and every dropped element
has a kept one to blame (`exists_dropped`).
-/

namespace Greedy

variable {σ : Type} (admits : σ → Bool) (conflicts : σ → σ → Bool)

/-- Adds an element to the kept ones unless it conflicts with one of them. -/
def step (kept : List σ) (a : σ) : List σ :=
  if admits a && !kept.any (conflicts a) then kept ++ [a] else kept

/-- The elements of `start` and those that are kept of `l`. -/
def select (start l : List σ) : List σ := l.foldl (step admits conflicts) start

variable {admits conflicts} {start l : List σ} {a : σ}

@[simp] theorem select_nil : select admits conflicts start [] = start := rfl

theorem select_cons : select admits conflicts start (a :: l) =
    select admits conflicts (step admits conflicts start a) l := rfl

theorem select_append (l' : List σ) : select admits conflicts start (l ++ l') =
    select admits conflicts (select admits conflicts start l) l' := List.foldl_append

variable (admits conflicts) in
theorem step_cases (kept : List σ) (a : σ) :
    (step admits conflicts kept a = kept ++ [a] ∧ admits a = true ∧
      ∀ b ∈ kept, conflicts a b = false) ∨
    (step admits conflicts kept a = kept ∧
      (admits a = false ∨ ∃ b ∈ kept, conflicts a b = true)) := by
  unfold step
  split
  next h =>
    rw [Bool.and_eq_true, Bool.not_eq_true', List.any_eq_false] at h
    exact .inl ⟨rfl, h.1, fun b hb => by simpa using h.2 b hb⟩
  next h =>
    rw [Bool.and_eq_true, Bool.not_eq_true', not_and_or, Bool.not_eq_true, Bool.not_eq_false,
      List.any_eq_true] at h
    exact .inr ⟨rfl, h⟩

theorem prefix_select (l : List σ) :
    ∀ start : List σ, start <+: select admits conflicts start l := by
  induction l with
  | nil => exact fun start => List.prefix_refl start
  | cons a l ih =>
    intro start
    refine List.IsPrefix.trans ?_ (ih (step admits conflicts start a))
    rcases step_cases admits conflicts start a with ⟨heq, -⟩ | ⟨heq, -⟩
    · rw [heq]
      exact List.prefix_append start [a]
    · exact heq.symm ▸ List.prefix_refl start

/-! ## Decisions -/

/-- The elements at the positions that are decided for. -/
def chosen (keep : Nat → Bool) (l : List σ) : List σ :=
  (l.zipIdx.filter fun p => keep p.2).map Prod.fst

theorem chosen_concat (keep : Nat → Bool) (l : List σ) (a : σ) :
    chosen keep (l ++ [a]) = chosen keep l ++ if keep l.length then [a] else [] := by
  unfold chosen
  rw [List.zipIdx_append, List.filter_append, List.map_append]
  congr 1
  simp only [List.zipIdx_singleton, Nat.zero_add]
  by_cases h : keep l.length <;> simp [h]

theorem chosen_sublist (keep : Nat → Bool) (l : List σ) : (chosen keep l).Sublist l := by
  have h := (List.filter_sublist (p := fun p : σ × Nat => keep p.2) (l := l.zipIdx)).map Prod.fst
  rwa [List.zipIdx_map_fst] at h

variable (admits conflicts) in
/-- The decision at a position: the element is admitted and conflicts with none kept before. -/
def decision (start l : List σ) (i : Nat) : Bool :=
  match l[i]? with
  | none => false
  | some a => admits a && !(select admits conflicts start (l.take i)).any (conflicts a)

variable (admits conflicts) in
theorem select_take (start l : List σ) : ∀ n ≤ l.length,
    select admits conflicts start (l.take n) =
      start ++ chosen (decision admits conflicts start l) (l.take n) := by
  intro n
  induction n with
  | zero => intro _; simp [chosen]
  | succ n ih =>
    intro hn
    have hget : l[n]? = some l[n] := List.getElem?_eq_getElem hn
    have hlen : (l.take n).length = n := List.length_take_of_le (Nat.le_of_succ_le hn)
    have hdecision : decision admits conflicts start l n = (admits l[n] &&
        !(select admits conflicts start (l.take n)).any (conflicts l[n])) := by
      unfold decision
      rw [hget]
    rw [List.take_add_one, hget, Option.toList_some, select_append, chosen_concat, hlen,
      hdecision, select_cons, select_nil, ← List.append_assoc, ← ih (Nat.le_of_succ_le hn)]
    unfold step
    split
    · rfl
    · rw [List.append_nil]

variable (admits conflicts start l) in
/-- **Decisions.** An element is kept exactly when it is admitted and conflicts with none of
`start` and none kept before it. -/
theorem exists_decisions : ∃ keep : Nat → Bool,
    (∀ i, ∀ h : i < l.length, keep i = true ↔ admits l[i] = true ∧
      ∀ b ∈ start ++ chosen keep (l.take i), conflicts l[i] b = false) ∧
    select admits conflicts start l = start ++ chosen keep l := by
  refine ⟨decision admits conflicts start l, fun i h => ?_, ?_⟩
  · rw [← select_take admits conflicts start l i (Nat.le_of_lt h)]
    unfold decision
    rw [List.getElem?_eq_getElem h]
    simp
  · have hall := select_take admits conflicts start l l.length (Nat.le_refl _)
    rwa [List.take_length] at hall

/-! ## Kept and dropped elements -/

/-- **No conflict** between elements that are kept. -/
theorem select_pairwise (l : List σ) : ∀ {start : List σ},
    (start.Pairwise fun b a => conflicts a b = false) →
    (select admits conflicts start l).Pairwise fun b a => conflicts a b = false := by
  induction l with
  | nil => exact fun h => h
  | cons a l ih =>
    intro start h
    apply ih
    rcases step_cases admits conflicts start a with ⟨heq, -, hfree⟩ | ⟨heq, -⟩
    · rw [heq]
      refine List.pairwise_append.mpr ⟨h, List.pairwise_singleton _ a, fun b hb c hc => ?_⟩
      rw [List.mem_singleton.mp hc]
      exact hfree b hb
    · rwa [heq]

/-- Elements without a conflict are all kept. -/
theorem select_eq_append (l : List σ) : ∀ {start : List σ}, (∀ a ∈ l, admits a = true) →
    ((start ++ l).Pairwise fun b a => conflicts a b = false) →
    select admits conflicts start l = start ++ l := by
  induction l with
  | nil => intro start _ _; simp
  | cons a l ih =>
    intro start hadmits h
    obtain ⟨ha, hl⟩ := List.forall_mem_cons.mp hadmits
    have hassoc : start ++ a :: l = (start ++ [a]) ++ l := by simp
    have hfree : ∀ b ∈ start, conflicts a b = false := fun b hb =>
      (List.pairwise_append.mp h).2.2 b hb a (List.mem_cons_self ..)
    rcases step_cases admits conflicts start a with
      ⟨heq, -⟩ | ⟨-, hnot | ⟨b, hb, hconflict⟩⟩
    · rw [select_cons, heq, hassoc]
      exact ih hl (hassoc ▸ h)
    · rw [ha] at hnot
      cases hnot
    · rw [hfree b hb] at hconflict
      cases hconflict

variable (admits conflicts) in
/-- **Dropped elements.** What is not kept is not admitted or conflicts with an element that is
kept and stands before it. -/
theorem exists_dropped {before : σ → σ → Prop} (l : List σ) : ∀ start : List σ,
    (start ++ l).Pairwise before → ∃ dropped,
      (select admits conflicts start l ++ dropped).Perm (start ++ l) ∧
      ∀ a ∈ dropped, admits a = false ∨
        ∃ b ∈ select admits conflicts start l, conflicts a b = true ∧ before b a := by
  induction l with
  | nil => exact fun _ _ => ⟨[], .refl _, fun a ha => absurd ha List.not_mem_nil⟩
  | cons a l ih =>
    intro start h
    have hassoc : start ++ a :: l = (start ++ [a]) ++ l := by simp
    rcases step_cases admits conflicts start a with ⟨heq, -⟩ | ⟨heq, hblame⟩
    · rw [select_cons, heq, hassoc]
      exact ih (start ++ [a]) (hassoc ▸ h)
    · have hrest : (start ++ l).Pairwise before :=
        h.sublist ((List.sublist_cons_self a l).append_left start)
      obtain ⟨dropped, hperm, hdropped⟩ := ih start hrest
      rw [select_cons, heq]
      refine ⟨a :: dropped, ?_, fun c hc => ?_⟩
      · exact List.perm_middle.trans ((hperm.cons a).trans List.perm_middle.symm)
      · rcases List.mem_cons.mp hc with rfl | hc
        · refine hblame.imp_right fun ⟨b, hb, hconflict⟩ => ⟨b, ?_, hconflict, ?_⟩
          · exact (prefix_select l start).subset hb
          · exact (List.pairwise_append.mp h).2.2 b hb c (List.mem_cons_self ..)
        · exact hdropped c hc

theorem select_sublist (l : List σ) : (select admits conflicts [] l).Sublist l := by
  obtain ⟨keep, -, heq⟩ := exists_decisions admits conflicts [] l
  rw [heq]
  exact chosen_sublist keep l

end Greedy
