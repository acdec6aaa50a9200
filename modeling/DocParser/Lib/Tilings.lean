import Mathlib.Algebra.Order.BigOperators.Group.List
import Mathlib.Data.List.Dedup
import Mathlib.Data.List.ProdSigma
import Mathlib.Tactic.Ring

/-!
# Tilings

Pieces of a grid are drawn in another place than they are marked: which slots the marks leave free
is decided by the one, what is covered in the end by the other. With as many slots drawn as marked
and nothing drawn further from the origin, the drawn pieces and the free slots make up the grid
only where the marks are disjoint and every piece is drawn where it is marked
(`perm_grid_iff`). A box of scattered rows and columns that is drawn as the rectangle from its
first row and column is such a piece (`rectangle_weight_le`, `ranges_eq_of_weight`).
-/

namespace Tilings

section Pieces

variable {σ ι : Type} [DecidableEq σ]

/-- The slots of the grid outside of all the marks. -/
def free (marked : ι → List σ) (pieces : List ι) (grid : List σ) : List σ :=
  grid.filter fun s => s ∉ pieces.flatMap marked

/-- Free are the slots that no test for the marks finds. -/
theorem filter_not_eq_free {marked : ι → List σ} {pieces : List ι} {grid : List σ} {p : σ → Bool}
    (hp : ∀ s, p s = true ↔ s ∈ pieces.flatMap marked) :
    grid.filter (fun s => !p s) = free marked pieces grid := by
  unfold free
  congr 1
  funext s
  rw [Bool.eq_iff_iff, Bool.not_eq_true', ← Bool.not_eq_true, hp, decide_eq_true_eq]

/-- Termwise bounds with one sum are equalities. -/
theorem eq_of_sum_eq {f g : ι → ℕ} {l : List ι} (hle : ∀ i ∈ l, f i ≤ g i)
    (hsum : (l.map f).sum = (l.map g).sum) : ∀ i ∈ l, f i = g i := by
  induction l with
  | nil => simp
  | cons a l ih =>
    obtain ⟨ha, hl⟩ := List.forall_mem_cons.mp hle
    have htail : (l.map f).sum ≤ (l.map g).sum := List.sum_le_sum hl
    simp only [List.map_cons, List.sum_cons] at hsum
    refine List.forall_mem_cons.mpr ⟨by omega, ih hl (by omega)⟩

/-- A list with as many different elements as elements has no duplicates. -/
theorem nodup_of_length_dedup {l : List σ} (h : l.dedup.length = l.length) : l.Nodup := by
  rw [← (List.dedup_sublist l).eq_of_length h]
  exact List.nodup_dedup l

/-- The slots of the grid in a list, up to the order. -/
theorem filter_mem_perm_dedup {grid l : List σ} (hgrid : grid.Nodup) (hl : l ⊆ grid) :
    (grid.filter fun s => s ∈ l).Perm l.dedup := by
  refine (List.perm_ext_iff_of_nodup (hgrid.filter _) (List.nodup_dedup l)).mpr fun s => ?_
  rw [List.mem_filter, List.mem_dedup, decide_eq_true_eq]
  exact and_iff_right_of_imp fun hs => hl hs

omit [DecidableEq σ] in
theorem sum_map_flatMap {f : ι → List σ} {weight : σ → ℕ} (l : List ι) :
    ((l.flatMap f).map weight).sum = (l.map fun i => ((f i).map weight).sum).sum := by
  induction l with
  | nil => rfl
  | cons a l ih => simp [ih]

/-- **Tiling**: the drawn pieces and the free slots make up the grid exactly where the marks are
disjoint and the pieces are drawn where they are marked. -/
theorem perm_grid_iff {drawn marked : ι → List σ} {pieces : List ι} {grid : List σ}
    (weight : σ → ℕ) (hgrid : grid.Nodup)
    (hmarked : ∀ p ∈ pieces, (marked p).Nodup ∧ marked p ⊆ grid)
    (hlength : ∀ p ∈ pieces, (drawn p).length = (marked p).length)
    (hweight : ∀ p ∈ pieces, ((drawn p).map weight).sum ≤ ((marked p).map weight).sum)
    (hpacked : ∀ p ∈ pieces,
      ((drawn p).map weight).sum = ((marked p).map weight).sum → drawn p = marked p) :
    (pieces.flatMap drawn ++ free marked pieces grid).Perm grid ↔
      pieces.Pairwise (fun p q => (marked p).Disjoint (marked q)) ∧
        ∀ p ∈ pieces, drawn p = marked p := by
  have hsub : pieces.flatMap marked ⊆ grid := by
    intro s hs
    obtain ⟨p, hp, hsp⟩ := List.mem_flatMap.mp hs
    exact (hmarked p hp).2 hsp
  have hsplit : ((pieces.flatMap marked).dedup ++ free marked pieces grid).Perm grid := by
    refine ((filter_mem_perm_dedup hgrid hsub).symm.append_right _).trans ?_
    rw [← filter_not_eq_free fun s => decide_eq_true_iff]
    exact List.filter_append_perm (fun s => decide (s ∈ pieces.flatMap marked)) grid
  have hnodup : (pieces.flatMap marked).Nodup ↔
      pieces.Pairwise fun p q => (marked p).Disjoint (marked q) := by
    rw [List.nodup_flatMap]
    exact and_iff_right fun p hp => (hmarked p hp).1
  rw [← hnodup]
  constructor
  · intro hperm
    have hcount : (pieces.flatMap drawn).length = (pieces.flatMap marked).length := by
      rw [List.length_flatMap, List.length_flatMap]
      exact congrArg List.sum (List.map_congr_left hlength)
    have hmarks : (pieces.flatMap marked).Nodup := by
      apply nodup_of_length_dedup
      have h₁ := hperm.length_eq
      have h₂ := hsplit.length_eq
      rw [List.length_append] at h₁ h₂
      omega
    refine ⟨hmarks, fun p hp => hpacked p hp ?_⟩
    rw [hmarks.dedup] at hsplit
    have hdrawn := List.perm_append_right_iff _ |>.mp (hperm.trans hsplit.symm)
    have hsum := (hdrawn.map weight).sum_eq
    rw [sum_map_flatMap, sum_map_flatMap] at hsum
    exact eq_of_sum_eq hweight hsum p hp
  · rintro ⟨hmarks, hdrawn⟩
    rw [hmarks.dedup] at hsplit
    rw [List.flatMap_congr hdrawn]
    exact hsplit

end Pieces

/-! ## Boxes -/

section Boxes

/-- An increasing list is not below the consecutive numbers from its first one, and is these
numbers if it has their sum. -/
theorem range'_sum_le (l : List ℕ) : ∀ a : ℕ, (a :: l).Pairwise (· < ·) →
    (List.range' a (l.length + 1)).sum ≤ (a :: l).sum ∧
      ((List.range' a (l.length + 1)).sum = (a :: l).sum →
        List.range' a (l.length + 1) = a :: l) := by
  induction l with
  | nil =>
    intro a _
    simp
  | cons b l ih =>
    intro a h
    obtain ⟨hfirst, htail⟩ := List.pairwise_cons.mp h
    have hab := hfirst b (List.mem_cons_self ..)
    have ⟨hle, heq⟩ := ih b htail
    have hshift : ∀ (n : ℕ) (a b : ℕ), a ≤ b →
        (List.range' a n).sum + (b - a) * n = (List.range' b n).sum := by
      intro n
      induction n with
      | zero => simp
      | succ n ihn =>
        intro a b hab
        have := ihn (a + 1) (b + 1) (by omega)
        rw [List.range'_succ, List.range'_succ, List.sum_cons, List.sum_cons, ← this,
          Nat.mul_succ, Nat.add_sub_add_right]
        omega
    have hnext := hshift (l.length + 1) (a + 1) b hab
    rw [List.length_cons, List.range'_succ, List.sum_cons, List.sum_cons]
    refine ⟨by omega, fun hsum => ?_⟩
    have hzero : (b - (a + 1)) * (l.length + 1) = 0 := by omega
    have hb : b = a + 1 := by
      rcases Nat.mul_eq_zero.mp hzero with h | h <;> omega
    subst hb
    rw [heq (by omega)]

/-- The distance of a slot from the origin. -/
def slotWeight (s : ℕ × ℕ) : ℕ := s.1 + s.2

/-- The slots in some rows and columns. -/
def box (rows columns : List ℕ) : List (ℕ × ℕ) := rows ×ˢ columns

@[simp] theorem mem_box {rows columns : List ℕ} {s : ℕ × ℕ} :
    s ∈ box rows columns ↔ s.1 ∈ rows ∧ s.2 ∈ columns := List.pair_mem_product

/-- The slots of the rectangle from a slot, with as many rows and columns as a box. -/
def rectangle (row column rowSpan columnSpan : ℕ) : List (ℕ × ℕ) :=
  box (List.range' row rowSpan) (List.range' column columnSpan)

theorem mem_rectangle {row column rowSpan columnSpan : ℕ} {s : ℕ × ℕ} :
    s ∈ rectangle row column rowSpan columnSpan ↔
      (row ≤ s.1 ∧ s.1 < row + rowSpan) ∧ (column ≤ s.2 ∧ s.2 < column + columnSpan) := by
  rw [rectangle, mem_box, List.mem_range'_1, List.mem_range'_1]

theorem box_nodup {rows columns : List ℕ} (hr : rows.Nodup) (hc : columns.Nodup) :
    (box rows columns).Nodup := hr.product hc

theorem rectangle_nodup (row column rowSpan columnSpan : ℕ) :
    (rectangle row column rowSpan columnSpan).Nodup :=
  box_nodup List.nodup_range' List.nodup_range'

theorem box_length (rows columns : List ℕ) :
    (box rows columns).length = rows.length * columns.length := List.length_product _ _

theorem box_weight (rows columns : List ℕ) : ((box rows columns).map slotWeight).sum =
    columns.length * rows.sum + rows.length * columns.sum := by
  induction rows with
  | nil => simp [box]
  | cons a rows ih =>
    have hrow : ∀ columns : List ℕ, (columns.map fun c => a + c).sum =
        columns.length * a + columns.sum := by
      intro columns
      induction columns with
      | nil => simp
      | cons c columns ihc =>
        rw [List.map_cons, List.sum_cons, ihc, List.length_cons, List.sum_cons]
        ring
    have hcons : box (a :: rows) columns = columns.map (fun c => (a, c)) ++ box rows columns :=
      List.product_cons ..
    rw [hcons, List.map_append, List.sum_append, ih, List.map_map]
    show (columns.map fun c => a + c).sum + _ = _
    rw [hrow, List.length_cons, List.sum_cons]
    ring

variable {r c : ℕ} {rows columns : List ℕ}

theorem rectangle_weight_le (hr : (r :: rows).Pairwise (· < ·))
    (hc : (c :: columns).Pairwise (· < ·)) :
    ((rectangle r c (r :: rows).length (c :: columns).length).map slotWeight).sum ≤
      ((box (r :: rows) (c :: columns)).map slotWeight).sum := by
  rw [rectangle, box_weight, box_weight, List.length_range', List.length_range']
  exact Nat.add_le_add (Nat.mul_le_mul_left _ (range'_sum_le rows r hr).1)
    (Nat.mul_le_mul_left _ (range'_sum_le columns c hc).1)

/-- A box that weighs what its rectangle weighs has consecutive rows and columns. -/
theorem ranges_eq_of_weight (hr : (r :: rows).Pairwise (· < ·)) (hc : (c :: columns).Pairwise (· < ·))
    (h : ((rectangle r c (r :: rows).length (c :: columns).length).map slotWeight).sum =
      ((box (r :: rows) (c :: columns)).map slotWeight).sum) :
    List.range' r (r :: rows).length = r :: rows ∧
      List.range' c (c :: columns).length = c :: columns := by
  obtain ⟨hrle, hreq⟩ := range'_sum_le rows r hr
  obtain ⟨hcle, hceq⟩ := range'_sum_le columns c hc
  rw [rectangle, box_weight, box_weight, List.length_range', List.length_range'] at h
  have hr' := Nat.mul_le_mul_left (c :: columns).length hrle
  have hc' := Nat.mul_le_mul_left (r :: rows).length hcle
  simp only [List.length_cons] at h hr' hc' ⊢
  exact ⟨hreq (Nat.eq_of_mul_eq_mul_left (Nat.add_one_pos columns.length) (by omega)),
    hceq (Nat.eq_of_mul_eq_mul_left (Nat.add_one_pos rows.length) (by omega))⟩

end Boxes

end Tilings
