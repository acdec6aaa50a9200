import Mathlib.Data.List.Chain
import Mathlib.Data.List.Induction
import Mathlib.Data.List.Perm.Basic

/-!
# Swap passes

An insertion sort whose test need not be transitive: every element moves to the front past its
neighbours, as long as it overtakes them. The result is in general not sorted. If of two elements
at most one overtakes the other, no neighbours are left of which the second one overtakes the first
(`swapPass_spec`), and a list without such neighbours stays as it is (`swapPass_eq_self`).
-/

namespace SwapPasses

variable {σ : Type} (overtakes : σ → σ → Bool)

/-- The element at the index moves to the front past what it overtakes. -/
def swapDown : Nat → List σ → List σ
  | 0, l => l
  | current + 1, l =>
    match l[current]?, l[current + 1]? with
    | some previous, some element =>
      if overtakes element previous then
        swapDown current ((l.set (current + 1) previous).set current element)
      else l
    | _, _ => l

/-- The elements in their order, without the first one. -/
def swapPass (l : List σ) : List σ :=
  (List.range' 1 (l.length - 1)).foldl (fun l index => swapDown overtakes index l) l

/-- Neighbours that need no swap. -/
def Settled (a b : σ) : Prop := overtakes b a = false

variable {overtakes}

/-- **One element.** The list without it is settled, and it is settled before what it has passed. -/
theorem swapDown_spec {P : σ → Prop}
    (hasymm : ∀ a b, P a → P b → overtakes a b = true → overtakes b a = false)
    (front back rest : List σ) (x : σ) (hP : ∀ a ∈ front ++ x :: back, P a)
    (hchain : (front ++ back).IsChain (Settled overtakes))
    (hback : ∀ b ∈ back.head?, Settled overtakes x b) :
    ∃ l, swapDown overtakes front.length (front ++ x :: back ++ rest) = l ++ rest ∧
      l.Perm (front ++ x :: back) ∧ l.IsChain (Settled overtakes) := by
  induction front using List.reverseRecOn generalizing back with
  | nil => exact ⟨x :: back, rfl, .refl _, List.isChain_cons.mpr ⟨hback, hchain⟩⟩
  | append_singleton front a ih =>
    have hlist : front ++ [a] ++ x :: back ++ rest = front ++ a :: x :: (back ++ rest) := by simp
    have hprevious : (front ++ a :: x :: (back ++ rest))[front.length]? = some a := by simp
    have helement : (front ++ a :: x :: (back ++ rest))[front.length + 1]? = some x := by
      rw [List.getElem?_append_right (Nat.le_add_right _ 1), Nat.add_sub_cancel_left]
      rfl
    rw [List.length_append, List.length_singleton, hlist]
    unfold swapDown
    simp only [hprevious, helement]
    split
    next hovertakes =>
      have hswap : ((front ++ a :: x :: (back ++ rest)).set (front.length + 1) a).set
          front.length x = front ++ x :: (a :: back) ++ rest := by
        rw [List.set_append_right _ _ (Nat.le_add_right _ 1), Nat.add_sub_cancel_left,
          List.set_append_right _ _ (Nat.le_refl _), Nat.sub_self]
        simp
      have hperm : (front ++ x :: a :: back).Perm (front ++ [a] ++ x :: back) := by
        rw [List.append_assoc]
        exact (List.Perm.swap a x back).append_left front
      obtain ⟨l, hl, hlperm, hlchain⟩ := ih (a :: back) (fun b hb => hP b (hperm.mem_iff.mp hb))
        (by rwa [List.append_assoc] at hchain)
        (fun b hb => by
          cases hb
          exact hasymm x a (hP x (by simp)) (hP a (by simp)) hovertakes)
      exact ⟨l, hswap ▸ hl, hlperm.trans hperm, hlchain⟩
    next hsettled =>
      refine ⟨front ++ [a] ++ x :: back, by simp, .refl _, ?_⟩
      have hfront := hchain.left_of_append
      refine hfront.append (List.isChain_cons.mpr ⟨hback, hchain.right_of_append⟩) ?_
      intro b hb c hc
      rw [List.getLast?_concat] at hb
      cases hb
      cases hc
      exact Bool.eq_false_iff.mpr hsettled

/-- **A pass** over the elements behind a settled prefix. -/
theorem foldl_swapDown {P : σ → Prop}
    (hasymm : ∀ a b, P a → P b → overtakes a b = true → overtakes b a = false) :
    ∀ (rest l : List σ), (∀ a ∈ l ++ rest, P a) → l.IsChain (Settled overtakes) →
      ((List.range' l.length rest.length).foldl (fun l index => swapDown overtakes index l)
          (l ++ rest)).Perm (l ++ rest) ∧
      ((List.range' l.length rest.length).foldl (fun l index => swapDown overtakes index l)
          (l ++ rest)).IsChain (Settled overtakes)
  | [], l, _, hchain => by simpa using hchain
  | x :: rest, l, hP, hchain => by
    obtain ⟨l', hl', hperm, hchain'⟩ := swapDown_spec hasymm l [] rest x
      (fun a ha => hP a (by simp only [List.mem_append, List.mem_cons] at ha ⊢; tauto))
      (by rwa [List.append_nil]) (fun b hb => by cases hb)
    have hlength : l'.length = l.length + 1 := by simpa using hperm.length_eq
    have hall : (l' ++ rest).Perm (l ++ x :: rest) := by
      have happend := hperm.append_right rest
      simpa using happend
    obtain ⟨hrest, hsettled⟩ := foldl_swapDown hasymm rest l'
      (fun a ha => hP a (hall.mem_iff.mp ha)) hchain'
    rw [List.length_cons, List.range'_succ, List.foldl_cons]
    rw [List.append_assoc] at hl'
    rw [show l ++ x :: rest = l ++ ([x] ++ rest) from rfl, hl', ← hlength]
    exact ⟨hrest.trans hall, hsettled⟩

theorem swapPass_spec {P : σ → Prop}
    (hasymm : ∀ a b, P a → P b → overtakes a b = true → overtakes b a = false) (l : List σ)
    (hP : ∀ a ∈ l, P a) :
    (swapPass overtakes l).Perm l ∧ (swapPass overtakes l).IsChain (Settled overtakes) := by
  cases l with
  | nil => exact ⟨.refl _, .nil⟩
  | cons a l => exact foldl_swapDown hasymm l [a] hP (.singleton a)

/-- **A settled list** stays as it is. -/
theorem swapPass_eq_self {l : List σ} (h : l.IsChain (Settled overtakes)) :
    swapPass overtakes l = l := by
  have hdown : ∀ index, swapDown overtakes index l = l := by
    intro index
    cases index with
    | zero => rfl
    | succ current =>
      unfold swapDown
      split
      next previous element hprevious helement =>
        obtain ⟨hlt, rfl⟩ := List.getElem?_eq_some_iff.mp helement
        obtain ⟨hlt', rfl⟩ := List.getElem?_eq_some_iff.mp hprevious
        have hsettled : overtakes l[current + 1] l[current] = false :=
          List.isChain_iff_getElem.mp h current hlt
        rw [hsettled]
        rfl
      next => rfl
  unfold swapPass
  generalize List.range' 1 (l.length - 1) = indices
  induction indices with
  | nil => rfl
  | cons index indices ih =>
    rw [List.foldl_cons, hdown]
    exact ih

end SwapPasses
