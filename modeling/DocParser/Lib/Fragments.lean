import Mathlib.Data.List.Basic

/-!
# Fragmented input

A reader takes items from a buffer and, when they are not enough, receives the next piece of the
input. `receive_view`: a rule that keeps its answer when more items follow gives the same answer
and leaves the same items, however the input is cut into pieces.
-/

namespace Fragments

variable {α β : Type}

/-- What one call receives. An empty piece would be the end of the input. -/
abbrev Piece (α : Type) := {piece : List α // piece ≠ []}

/-- The items of pieces in order. -/
def items (pieces : List (Piece α)) : List α := pieces.flatMap Subtype.val

/-- The items that were received and not read, and the pieces that are still to be received. -/
structure Connection (α : Type) where
  inputBuffer : List α
  pieces : List (Piece α)

/-- All items that are still to be read. -/
def Connection.content (c : Connection α) : List α := c.inputBuffer ++ items c.pieces

/-- Receives pieces until a rule has an answer, which takes items off the front of the buffer. -/
def receive (ready : List α → Option (β × List α)) (buffer : List α) :
    List (Piece α) → Option (β × Connection α)
  | [] => (ready buffer).map fun r => (r.1, ⟨r.2, []⟩)
  | piece :: pieces =>
    match ready buffer with
    | some r => some (r.1, ⟨r.2, piece :: pieces⟩)
    | none => receive ready (buffer ++ piece.val) pieces

/-- An answer stays when more items follow, and they stay behind what it leaves. -/
def Extends (ready : List α → Option (β × List α)) : Prop :=
  ∀ buffer more r, ready buffer = some r → ready (buffer ++ more) = some (r.1, r.2 ++ more)

/-- **Fragmentation.** What is received is the answer of the rule on the whole input. -/
theorem receive_view {ready : List α → Option (β × List α)} (hready : Extends ready)
    (buffer : List α) (pieces : List (Piece α)) :
    (receive ready buffer pieces).map (fun r => (r.1, r.2.content)) =
      ready (buffer ++ items pieces) := by
  induction pieces generalizing buffer with
  | nil =>
    have hcontent : ∀ r : β × List α,
        (r.1, (⟨r.2, []⟩ : Connection α).content) = r := by
      intro r
      simp [Connection.content, items]
    simp [receive, items, Function.comp_def, hcontent]
  | cons piece pieces ih =>
    rw [receive]
    cases h : ready buffer with
    | some r => exact (hready buffer (items (piece :: pieces)) r h).symm
    | none =>
      rw [show buffer ++ items (piece :: pieces) = buffer ++ piece.val ++ items pieces by
        rw [List.append_assoc]; rfl]
      exact ih (buffer ++ piece.val)

/-! ## Cutting off a number of items -/

/-- The first items, when there are enough. -/
def cut (size : Nat) (buffer : List α) : Option (List α × List α) :=
  if buffer.length < size then none else some (buffer.take size, buffer.drop size)

theorem extends_cut (size : Nat) : Extends (cut (α := α) size) := by
  intro buffer more r h
  unfold cut at h ⊢
  split at h
  · contradiction
  next hle =>
    cases h
    have hlong : size ≤ buffer.length := Nat.le_of_not_lt hle
    rw [if_neg, List.take_append_of_le_length hlong, List.drop_append_of_le_length hlong]
    rw [List.length_append]
    omega

theorem cut_append (data rest : List α) : cut data.length (data ++ rest) = some (data, rest) := by
  unfold cut
  rw [if_neg, List.take_left, List.drop_left]
  rw [List.length_append]
  omega

theorem cut_eq_some {size : Nat} {buffer : List α} {r : List α × List α}
    (h : cut size buffer = some r) : buffer = r.1 ++ r.2 ∧ r.1.length = size := by
  unfold cut at h
  split at h
  · contradiction
  next hle =>
    cases h
    exact ⟨(List.take_append_drop size buffer).symm,
      List.length_take_of_le (Nat.le_of_not_lt hle)⟩

/-! ## Searching for a separator -/

section Search

variable [DecidableEq α]

/-- The position of the first occurrence. -/
def find (pattern text : List α) : Option Nat :=
  (List.range (text.length + 1)).find? fun i => decide (pattern <+: text.drop i)

theorem find_eq_some {pattern text : List α} {i : Nat} : find pattern text = some i ↔
    i ≤ text.length ∧ pattern <+: text.drop i ∧ ∀ j < i, ¬ pattern <+: text.drop j := by
  unfold find
  rw [List.find?_range_eq_some, List.mem_range, Nat.lt_succ_iff]
  simp [and_left_comm]

theorem find_append {pattern text : List α} {i : Nat} (h : find pattern text = some i)
    (more : List α) : find pattern (text ++ more) = some i := by
  obtain ⟨hle, hfound, hfirst⟩ := find_eq_some.mp h
  have hlength := hfound.length_le
  rw [List.length_drop] at hlength
  refine find_eq_some.mpr ⟨?_, ?_, fun j hj hprefix => ?_⟩
  · rw [List.length_append]
    omega
  · rw [List.drop_append_of_le_length hle]
    exact hfound.trans (List.prefix_append _ more)
  · rw [List.drop_append_of_le_length (by omega)] at hprefix
    refine hfirst j hj (List.prefix_of_prefix_length_le hprefix (List.prefix_append _ more) ?_)
    rw [List.length_drop]
    omega

/-- The items before the first separator, and those behind it. -/
def splitAt (separator buffer : List α) : Option (List α × List α) :=
  (find separator buffer).map fun i => (buffer.take i, buffer.drop (i + separator.length))

theorem extends_splitAt (separator : List α) : Extends (splitAt separator) := by
  intro buffer more r h
  obtain ⟨i, hi, rfl⟩ := Option.map_eq_some_iff.mp h
  obtain ⟨hle, hfound, -⟩ := find_eq_some.mp hi
  have hlength := hfound.length_le
  rw [List.length_drop] at hlength
  unfold splitAt
  rw [find_append hi more, Option.map_some, List.take_append_of_le_length hle,
    List.drop_append_of_le_length (by omega)]

theorem splitAt_eq_some {separator buffer : List α} {r : List α × List α}
    (h : splitAt separator buffer = some r) : buffer = r.1 ++ (separator ++ r.2) := by
  obtain ⟨i, hi, rfl⟩ := Option.map_eq_some_iff.mp h
  obtain ⟨-, ⟨rest, hrest⟩, -⟩ := find_eq_some.mp hi
  have hdrop : buffer.drop (i + separator.length) = rest := by
    rw [← List.drop_drop, ← hrest, List.drop_left]
  rw [hdrop, hrest, List.take_append_drop]

theorem splitAt_append {separator line : List α} (rest : List α)
    (hline : ∀ j < line.length, ¬ separator <+: (line ++ separator).drop j) :
    splitAt separator (line ++ (separator ++ rest)) = some (line, rest) := by
  have hfind : find separator (line ++ separator) = some line.length := by
    refine find_eq_some.mpr ⟨?_, ?_, hline⟩
    · rw [List.length_append]
      omega
    · simp only [List.drop_left, List.prefix_rfl]
  unfold splitAt
  rw [← List.append_assoc, find_append hfind rest, Option.map_some, ← List.drop_drop,
    List.append_assoc, List.take_left, List.drop_left, List.drop_left]

end Search

end Fragments
