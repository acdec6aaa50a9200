import Mathlib.Algebra.BigOperators.Group.List.Basic
import DocParser.Layout.BoxUnions
import DocParser.Layout.DenseGrid

/-!
# The merges of a run

What the run of merges leaves of the groups.
`coalesceDenseGridGroups_merges`: the run ends, it takes six groups or more for each merged one, a
merged group stays, and the groups of no merge stay in their order.
-/

namespace DocParser.Layout

open Document

section Runs

variable {α : Type} [Double α] {scale : GridScale α} {text : PageText α} {page : PageArtifact}
  {groups groups' final : List (FallbackLineGroup α)} {merge : GridMerge α}
  {merges : List (GridMerge α)} {medianLineHeight : α}

/-- The groups that some merges have made. -/
def mergedGroups (merges : List (GridMerge α)) : List (FallbackLineGroup α) :=
  merges.map (·.merged)

theorem MergeRun.exists_merges (h : MergeRun scale text groups merges final) :
    ∀ merge ∈ merges, ∃ before after, Merges before after merge := by
  induction h with
  | done => exact fun _ h => absurd h List.not_mem_nil
  | round hround hmerge hrun ih =>
    intro merge hmem
    rcases List.mem_cons.mp hmem with rfl | hmem
    · exact ⟨_, _, hmerge⟩
    · exact ih merge hmem

/-- **A run** keeps the groups of no merge, in their order. -/
theorem MergeRun.kept (h : MergeRun scale text groups merges final) :
    ∃ kept : List (FallbackLineGroup α), kept.Sublist groups ∧ kept.Sublist final ∧
      groups.Perm (kept ++ replacedGroups merges) ∧ final.Perm (kept ++ mergedGroups merges) := by
  induction h with
  | @done groups =>
    refine ⟨groups, .refl _, .refl _, ?_, ?_⟩ <;> exact List.Perm.of_eq (List.append_nil _).symm
  | @round groups groups' final merge merges hround hmerge hrun ih =>
    obtain ⟨kept, hsub, hfinal, hgroups, hmade⟩ := ih
    obtain ⟨before, after, rfl, hplace, hperm⟩ := hmerge.place
    obtain ⟨front, back, rfl, hfront, hback⟩ := List.sublist_append_iff.mp hsub
    rcases List.sublist_cons_iff.mp hback with hafter | ⟨back, rfl, hafter⟩
    · -- a later merge would have replaced the merged group, which has a label
      have hlabelled : (replacedGroups merges).countP (fun g => !g.sourceLabel.isEmpty) = 0 := by
        refine List.countP_eq_zero.mpr fun group hgroup => ?_
        obtain ⟨later, hlater, hmem⟩ := List.mem_flatMap.mp hgroup
        obtain ⟨_, _, hlater⟩ := hrun.exists_merges later hlater
        rw [hlater.unlabelled group hmem]
        decide
      have hcount := hgroups.countP_eq fun g => !g.sourceLabel.isEmpty
      have hless := List.Sublist.countP_le (p := fun g => !g.sourceLabel.isEmpty)
        (hfront.append hafter)
      rw [List.countP_append, List.countP_append, hlabelled, List.countP_cons, hmerge.labelled,
        if_pos (by decide)] at hcount
      rw [@List.countP_append _ _ before] at hless
      omega
    · refine ⟨front ++ back, (hfront.append hafter).trans hplace, ?_, ?_, ?_⟩
      · exact ((List.Sublist.refl front).append (List.sublist_cons_self ..)).trans hfinal
      · have hrest : (before ++ after).Perm (front ++ back ++ replacedGroups merges) := by
          refine List.Perm.cons_inv (a := merge.merged) ?_
          refine List.perm_middle.symm.trans (hgroups.trans ?_)
          rw [List.append_assoc, List.append_assoc]
          exact List.perm_middle
        refine hperm.trans ((hrest.append_right _).trans ?_)
        rw [List.append_assoc]
        exact List.perm_append_comm.append_left _
      · exact hmade.trans ((List.perm_middle.append_right _).trans (List.Perm.symm List.perm_middle))

/-- Six groups without a label, or more, and the labelled one in their place. -/
structure IsGridMerge (merge : GridMerge α) : Prop where
  many : 6 ≤ merge.replaced.length
  unlabelled : ∀ group ∈ merge.replaced, group.sourceLabel = ""
  labelled : merge.merged.sourceLabel = "text_grid_fallback"
  lines : merge.merged.lineIndices.Perm (groupLines merge.replaced)
  bbox : IsUnion merge.merged.bbox (merge.replaced.map (·.bbox))

theorem Merges.isGridMerge [IsStrictOrder α (· < ·)] (h : Merges groups groups' merge) :
    IsGridMerge merge := by
  obtain ⟨first, hfirst, hbbox⟩ := h.bbox
  refine ⟨h.many, h.unlabelled, h.labelled, h.lines, ?_⟩
  rw [hbbox]
  refine (isUnion_foldl _ (isUnion_singleton first.bbox)).congr fun bbox => ?_
  have hmem := List.mem_map_of_mem (f := fun group : FallbackLineGroup α => group.bbox) hfirst
  rw [List.mem_append, List.mem_singleton]
  exact ⟨fun hor => hor.elim (fun heq => heq ▸ hmem) id, Or.inr⟩

/-- **Coalescing** is over after some merges, and they alone change the groups. -/
theorem coalesceDenseGridGroups_merges [IsStrictOrder α (· < ·)] (text : PageText α)
    (page : PageArtifact) (groups : List (FallbackLineGroup α)) (medianLineHeight : α) :
    ∃ (merges : List (GridMerge α)) (final kept : List (FallbackLineGroup α)),
      coalesceDenseGridGroups text page groups medianLineHeight =
        some (final, (replacedGroups merges).length) ∧
      (((groups.length < 6 ∨ medianLineHeight ≤ 0) ∧ merges = [] ∧ final = groups) ∨
        MergeRun (gridScale page medianLineHeight) text groups merges final) ∧
      (groupLines final).Perm (groupLines groups) ∧
      (∀ merge ∈ merges, IsGridMerge merge) ∧
      kept.Sublist groups ∧ kept.Sublist final ∧
      groups.Perm (kept ++ replacedGroups merges) ∧ final.Perm (kept ++ mergedGroups merges) := by
  obtain ⟨groups', n, hresult, hlines, -⟩ :=
    coalesceDenseGridGroups_spec text page groups medianLineHeight
  by_cases hearly : groups.length < 6 ∨ medianLineHeight ≤ 0
  · refine ⟨[], groups, groups, if_pos hearly, .inl ⟨hearly, rfl, rfl⟩, .refl _,
      fun _ h => absurd h List.not_mem_nil, .refl _, .refl _, ?_, ?_⟩ <;>
      exact List.Perm.of_eq (List.append_nil _).symm
  · obtain ⟨merges, final, hrun, hloop⟩ :=
      coalesceLoop_run (gridScale page medianLineHeight) text _ groups 0
        (Nat.lt_succ_of_le (List.countP_le_length ..))
    rw [Nat.zero_add] at hloop
    have hcoalesce : coalesceDenseGridGroups text page groups medianLineHeight =
        some (final, (replacedGroups merges).length) := (if_neg hearly).trans hloop
    obtain ⟨rfl, -⟩ := Prod.mk.inj (Option.some.inj (hresult.symm.trans hcoalesce))
    obtain ⟨kept, hkept⟩ := hrun.kept
    refine ⟨merges, groups', kept, hcoalesce, .inr hrun, hlines, fun merge hmerge => ?_, hkept⟩
    obtain ⟨_, _, hmerges⟩ := hrun.exists_merges merge hmerge
    exact hmerges.isGridMerge

end Runs

/-! ## A grid of six -/

section Example

def gridBBox (x y : ℚ) : BBox ℚ := ⟨x, y, x + 20, y + 10⟩

/-- Three rows of two lines, and one line far below. -/
def gridPlaces : List (BBox ℚ) :=
  [gridBBox 0 0, gridBBox 40 0, gridBBox 0 20, gridBBox 40 20, gridBBox 0 40, gridBBox 40 40,
    gridBBox 0 900]

def gridText : PageText ℚ where
  pageIndex := 0
  pageNumber := 1
  hasText := true
  preferredSource := .ocr
  lines := gridPlaces.map fun bbox => ⟨"cell", bbox, .ocr, 1, []⟩

def gridPage : PageArtifact := ⟨0, 1, "page-0001.png", 600, 1000⟩

/-- Every line is a group. -/
def gridGroups : List (FallbackLineGroup ℚ) :=
  gridPlaces.zipIdx.map fun p => ⟨p.1, p.1, [(p.2 : Int)], ""⟩

/-- The cells of the grid are merged, and the line below stays. -/
theorem coalesceDenseGridGroups_gridGroups :
    ∃ merged : FallbackLineGroup ℚ, coalesceDenseGridGroups gridText gridPage gridGroups 10 =
        some ([merged, ⟨gridBBox 0 900, gridBBox 0 900, [6], ""⟩], 6) ∧
      merged.sourceLabel = "text_grid_fallback" ∧ merged.bbox = ⟨0, 0, 60, 50⟩ ∧
      (groupLines [merged, ⟨gridBBox 0 900, gridBBox 0 900, [6], ""⟩]).Perm
        (groupLines gridGroups) := by
  obtain ⟨merges, final, kept, hresult, -, hlines, -⟩ :=
    coalesceDenseGridGroups_merges gridText gridPage gridGroups 10
  have hvalue : coalesceDenseGridGroups gridText gridPage gridGroups 10 =
      some ([⟨⟨0, 0, 60, 50⟩, gridBBox 40 40, [0, 1, 2, 3, 4, 5], "text_grid_fallback"⟩,
        ⟨gridBBox 0 900, gridBBox 0 900, [6], ""⟩], 6) := by decide +kernel
  obtain ⟨rfl, -⟩ := Prod.mk.inj (Option.some.inj (hresult.symm.trans hvalue))
  exact ⟨_, hvalue, rfl, rfl, hlines⟩

end Example

end DocParser.Layout
