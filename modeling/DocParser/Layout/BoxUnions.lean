import DocParser.Layout.Lines

/-!
# Unions of boxes

The least box with some boxes in it: each of its sides is a side of one of them, and none of them
crosses it. Expanding a box by others ends with their union (`isUnion_foldl`).
-/

namespace DocParser.Layout

open Document Comparators

/-- A member that no other one comes before. -/
def IsFirst {κ : Type} (r : κ → κ → Prop) (a : κ) (l : List κ) : Prop := a ∈ l ∧ ∀ b ∈ l, ¬ r b a

theorem IsFirst.pick {κ : Type} {r : κ → κ → Prop} [DecidableRel r] [IsStrictOrder κ r] {a : κ}
    {l : List κ} (h : IsFirst r a l) (b : κ) : IsFirst r (pick r a b) (l ++ [b]) := by
  constructor
  · unfold Comparators.pick
    split
    · exact List.mem_append_right l (List.mem_singleton_self b)
    · exact List.mem_append_left [b] h.1
  · intro c hc
    rcases List.mem_append.mp hc with hc | hc
    · exact not_rel_pick b (h.2 c hc)
    · rw [List.mem_singleton.mp hc]
      exact not_rel_pick_right a b

section Unions

variable {α : Type} [Double α] {bbox : BBox α} {boxes boxes' : List (BBox α)}

structure IsUnion (bbox : BBox α) (boxes : List (BBox α)) : Prop where
  left : IsFirst (· < ·) bbox.x0 (boxes.map (·.x0))
  top : IsFirst (· < ·) bbox.y0 (boxes.map (·.y0))
  right : IsFirst (fun a b => b < a) bbox.x1 (boxes.map (·.x1))
  bottom : IsFirst (fun a b => b < a) bbox.y1 (boxes.map (·.y1))

theorem IsUnion.congr (h : IsUnion bbox boxes) (hsame : ∀ b, b ∈ boxes ↔ b ∈ boxes') :
    IsUnion bbox boxes' := by
  have hmap : ∀ (f : BBox α → α) (a : α), a ∈ boxes.map f ↔ a ∈ boxes'.map f := by
    intro f a
    simp only [List.mem_map, hsame]
  have hfirst : ∀ {r : α → α → Prop} {a : α} (f : BBox α → α), IsFirst r a (boxes.map f) →
      IsFirst r a (boxes'.map f) := fun f hf =>
    ⟨(hmap f _).mp hf.1, fun b hb => hf.2 b ((hmap f b).mpr hb)⟩
  exact ⟨hfirst _ h.left, hfirst _ h.top, hfirst _ h.right, hfirst _ h.bottom⟩

variable [IsStrictOrder α (· < ·)]

theorem isUnion_singleton (bbox : BBox α) : IsUnion bbox [bbox] := by
  have hfirst : ∀ (r : α → α → Prop) [IsStrictOrder α r] (a : α), IsFirst r a [a] := by
    intro r _ a
    refine ⟨List.mem_singleton_self a, fun b hb => ?_⟩
    rw [List.mem_singleton.mp hb]
    exact irrefl a
  exact ⟨hfirst _ _, hfirst _ _, hfirst (fun a b => b < a) _, hfirst (fun a b => b < a) _⟩

/-- **Expanding** a union adds a box to it. -/
theorem IsUnion.expand (h : IsUnion bbox boxes) (other : BBox α) :
    IsUnion (expandBBox bbox other) (boxes ++ [other]) := by
  have hright := @IsFirst.pick α (fun a b => b < a)
  constructor
  · rw [List.map_append]
    exact h.left.pick other.x0
  · rw [List.map_append]
    exact h.top.pick other.y0
  · rw [List.map_append]
    exact hright h.right other.x1
  · rw [List.map_append]
    exact hright h.bottom other.y1

theorem isUnion_foldl (l : List (BBox α)) : ∀ {bbox : BBox α} {boxes : List (BBox α)},
    IsUnion bbox boxes → IsUnion (l.foldl expandBBox bbox) (boxes ++ l) := by
  induction l with
  | nil =>
    intro bbox boxes h
    rwa [List.append_nil]
  | cons other l ih =>
    intro bbox boxes h
    rw [show boxes ++ other :: l = boxes ++ [other] ++ l by simp]
    exact ih (h.expand other)

end Unions

end DocParser.Layout
