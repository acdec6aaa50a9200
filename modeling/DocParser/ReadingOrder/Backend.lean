import Mathlib.Data.List.Nodup
import DocParser.ReadingOrder.Bands

/-!
# The reading order of a page

`order` puts the headers first, then the body, then the footers. In the body a caption is a
child of its figure or table: it takes no part in the geometry and follows its target at once.
`withCaptions_perm` says that the roots with their captions are all elements, `orderBody_spec`
what the order of the body is made of.
-/

namespace DocParser.ReadingOrder

open Document

section Definitions

variable {α : Type} [Double α]

/-- A text block that the layout model labelled as a caption. -/
def isCaption (block : LayoutBlock α) : Bool :=
  block.type == .text && (block.sourceLabel == "Caption" || block.sourceLabel == "caption" ||
    block.sourceLabel == "figure_title")

def isCaptionTarget (block : LayoutBlock α) : Bool := block.type == .figure || block.type == .table

/-- The figure or table that an element is a caption of. -/
def captionParent (elements : List (PageElement α)) (index : Nat) : Option Nat :=
  let block := (elementAt elements index).block
  match elements.findIdx? fun e => e.block.id == block.relatedBlockId with
  | none => none
  | some target =>
    if isCaption block && target != index && isCaptionTarget (elementAt elements target).block then
      some target
    else none

/-- The captions of a target, from top to bottom. -/
def captionsOf (elements : List (PageElement α)) (target : Nat) : List Nat :=
  sortedByPosition elements
    ((List.range elements.length).filter fun i => captionParent elements i == some target)

/-- The elements that are not captions of another one. -/
def rootIndices (elements : List (PageElement α)) : List Nat :=
  (List.range elements.length).filter fun i => captionParent elements i == none

/-- A caption takes the placement of its target. -/
def placeCaption (elements : List (PageElement α)) (placement : ReadingOrderPlacement)
    (caption : Nat) : ReadingOrderPlacement :=
  { placement with
    layoutBlockId := (elementAt elements caption).block.id
    parentLayoutBlockId := placement.layoutBlockId }

/-- The loop over the ordered roots. `placements.at` fails for an id without a placement. -/
def placeCaptions (elements : List (PageElement α)) (placements : List ReadingOrderPlacement) :
    List Nat → ReadingOrderTrace α → Option (ReadingOrderTrace α)
  | [], trace => some trace
  | index :: rest, trace =>
    let captions := captionsOf elements index
    if captions.isEmpty then placeCaptions elements placements rest trace
    else
      match placements.find? fun p => p.layoutBlockId == (elementAt elements index).block.id with
      | none => none
      | some placement =>
        placeCaptions elements placements rest { trace with
          placements := trace.placements ++ captions.map (placeCaption elements placement)
          edgeCounts := captions.foldl (fun counts _ => bump "caption_target" counts)
            trace.edgeCounts }

/-- The order of the body: every root is followed by its captions. -/
def orderBody (elements : List (PageElement α)) (nextBandIndex : Nat)
    (trace : ReadingOrderTrace α) : Option (GroupState α) :=
  let roots := rootIndices elements
  match predictGroupOrder (roots.map (elementAt elements)) "body" nextBandIndex trace with
  | none => none
  | some s =>
    let rootOrder := s.order.map fun root => roots.getD root 0
    (placeCaptions elements s.trace.placements rootOrder s.trace).map fun trace =>
      { s with
        order := rootOrder.flatMap fun index => index :: captionsOf elements index
        trace := trace }

def appendItems (elements : List (PageElement α)) (order : List Nat)
    (items : List ReadingOrderItem) : List ReadingOrderItem :=
  order.foldl (fun items index =>
    let element := elementAt elements index
    items ++ [⟨element.block.id, element.layoutBlockIndex, items.length⟩]) items

/-- The blocks with one of the types, or those without. -/
def collectElements (layout : PageLayout α) (types : List LayoutBlockType)
    (includeMatchingTypes : Bool) : List (PageElement α) :=
  (layout.blocks.zipIdx.filter fun p => types.contains p.1.type == includeMatchingTypes).map
    fun p => ⟨p.2, p.1, p.1.bbox⟩

def hasFiniteBox (block : LayoutBlock α) : Bool :=
  Double.isFinite block.bbox.x0 && Double.isFinite block.bbox.y0 &&
    Double.isFinite block.bbox.x1 && Double.isFinite block.bbox.y1

def emptyReadingOrder : PageReadingOrder α := ⟨0, 0, [], ⟨"", [], [], []⟩⟩

/-- `DoclingLikeReadingOrderBackend::order`: the returned flag and the result. `none` is a run
that does not end normally. -/
def order (layout : PageLayout α) : Option (Bool × PageReadingOrder α) :=
  if !layout.blocks.all hasFiniteBox then some (false, emptyReadingOrder)
  else
    let headers := collectElements layout [.header] true
    let body := collectElements layout [.header, .footer] false
    let footers := collectElements layout [.footer] true
    match predictGroupOrder headers "header" 0 ⟨"band-column-topological-v3", [], [], []⟩ with
    | none => none
    | some h =>
      match orderBody body h.nextBandIndex h.trace with
      | none => none
      | some b =>
        match predictGroupOrder footers "footer" b.nextBandIndex b.trace with
        | none => none
        | some f =>
          let items := appendItems headers h.order []
          let items := appendItems body b.order items
          let items := appendItems footers f.order items
          some (true, ⟨layout.pageIndex, layout.pageNumber, items, f.trace⟩)

end Definitions

section Captions

variable {α : Type} [Double α] {elements : List (PageElement α)}

theorem mem_captionsOf {target i : Nat} :
    i ∈ captionsOf elements target ↔ i < elements.length ∧
      captionParent elements i = some target := by
  unfold captionsOf sortedByPosition
  rw [(sortBy_perm _ _).mem_iff, List.mem_filter, List.mem_range]
  simp

theorem mem_rootIndices {i : Nat} :
    i ∈ rootIndices elements ↔ i < elements.length ∧ captionParent elements i = none := by
  unfold rootIndices
  rw [List.mem_filter, List.mem_range]
  simp

/-- What the parent of a caption is: the first element with the id that the caption names. -/
theorem captionParent_eq {i target : Nat} (h : captionParent elements i = some target) :
    (elements.findIdx? fun e => e.block.id == (elementAt elements i).block.relatedBlockId) =
      some target ∧ isCaption (elementAt elements i).block = true := by
  unfold captionParent at h
  dsimp only at h
  split at h
  · cases h
  next j hj =>
    split_ifs at h with hc
    simp only [Bool.and_eq_true] at hc
    exact ⟨h ▸ hj, hc.1.1⟩

/-- A target is a figure or a table, so it is no caption itself. -/
theorem captionParent_some {i target : Nat} (h : captionParent elements i = some target) :
    target < elements.length ∧ captionParent elements target = none := by
  unfold captionParent at h
  dsimp only at h
  split at h
  · cases h
  next j hj =>
    split_ifs at h with hc
    obtain rfl := Option.some.inj h
    simp only [Bool.and_eq_true] at hc
    refine ⟨(List.findIdx?_eq_some_iff_findIdx_eq.mp hj).1, ?_⟩
    have hnot : isCaption (elementAt elements j).block = false := by
      have hfig := hc.2
      unfold isCaptionTarget at hfig
      unfold isCaption
      cases ht : (elementAt elements j).block.type <;> rw [ht] at hfig <;> simp_all
    unfold captionParent
    dsimp only
    split
    · rfl
    · rw [hnot]
      rfl

theorem captionsOf_nodup (target : Nat) : (captionsOf elements target).Nodup := by
  unfold captionsOf sortedByPosition
  rw [(sortBy_perm _ _).nodup_iff]
  exact List.nodup_range.filter _

/-- **Roots with their captions** are all elements, each once. -/
theorem withCaptions_perm {roots : List Nat} (h : roots.Perm (rootIndices elements)) :
    (roots.flatMap fun index => index :: captionsOf elements index).Perm
      (List.range elements.length) := by
  have hroots : roots.Nodup := h.nodup_iff.mpr (List.nodup_range.filter _)
  have hroot : ∀ r ∈ roots, r < elements.length ∧ captionParent elements r = none :=
    fun r hr => mem_rootIndices.mp (h.mem_iff.mp hr)
  have hmem : ∀ r ∈ roots, ∀ i ∈ r :: captionsOf elements r,
      i < elements.length ∧ (i = r ∨ captionParent elements i = some r) := by
    intro r hr i hi
    rcases List.mem_cons.mp hi with rfl | hi
    · exact ⟨(hroot i hr).1, Or.inl rfl⟩
    · exact ⟨(mem_captionsOf.mp hi).1, Or.inr (mem_captionsOf.mp hi).2⟩
  refine (List.perm_ext_iff_of_nodup ?_ List.nodup_range).mpr fun i => ?_
  · refine List.nodup_flatMap.mpr ⟨fun r hr => ?_, ?_⟩
    · refine List.nodup_cons.mpr ⟨fun hr' => ?_, captionsOf_nodup r⟩
      have := (mem_captionsOf.mp hr').2
      rw [(hroot r hr).2] at this
      cases this
    · refine hroots.imp_of_mem fun {r r'} hr hr' hne i hi hi' => ?_
      -- an element of both runs would be a root and a caption, or have two parents
      rcases (hmem r hr i hi).2 with rfl | hp <;> rcases (hmem r' hr' i hi').2 with rfl | hp'
      · exact hne rfl
      · rw [(hroot i hr).2] at hp'; cases hp'
      · rw [(hroot i hr').2] at hp; cases hp
      · rw [hp] at hp'; exact hne (Option.some.inj hp')
  · rw [List.mem_flatMap, List.mem_range]
    constructor
    · rintro ⟨r, hr, hi⟩
      exact (hmem r hr i hi).1
    · intro hi
      cases hp : captionParent elements i with
      | none =>
        exact ⟨i, h.mem_iff.mpr (mem_rootIndices.mpr ⟨hi, hp⟩), List.mem_cons_self ..⟩
      | some r =>
        exact ⟨r, h.mem_iff.mpr (mem_rootIndices.mpr (captionParent_some hp)),
          List.mem_cons_of_mem _ (mem_captionsOf.mpr ⟨hi, hp⟩)⟩

/-- The loop over the roots finds the placement of every target. -/
theorem placeCaptions_spec {placements : List ReadingOrderPlacement} (roots : List Nat) :
    ∀ trace : ReadingOrderTrace α,
      (∀ r ∈ roots, ∃ p ∈ placements, p.layoutBlockId = (elementAt elements r).block.id) →
      ∃ trace', placeCaptions elements placements roots trace = some trace' ∧
        ∃ new, trace'.placements = trace.placements ++ new ∧
          new.map (·.layoutBlockId) = (roots.flatMap (captionsOf elements)).map fun i =>
            (elementAt elements i).block.id := by
  induction roots with
  | nil => exact fun trace _ => ⟨trace, rfl, [], by simp, rfl⟩
  | cons r roots ih =>
    intro trace h
    have h' := fun x hx => h x (List.mem_cons_of_mem _ hx)
    unfold placeCaptions
    dsimp only
    by_cases hc : (captionsOf elements r).isEmpty = true
    · rw [if_pos hc]
      obtain ⟨trace', heq, new, hnew, hids⟩ := ih trace h'
      refine ⟨trace', heq, new, hnew, ?_⟩
      rw [hids, List.flatMap_cons, List.isEmpty_iff.mp hc, List.nil_append]
    · rw [if_neg hc]
      obtain ⟨p, hp, hid⟩ := h r (List.mem_cons_self ..)
      have hsome : (placements.find? fun p =>
          p.layoutBlockId == (elementAt elements r).block.id).isSome = true :=
        List.find?_isSome.mpr ⟨p, hp, by simpa using hid⟩
      obtain ⟨q, hq⟩ := Option.isSome_iff_exists.mp hsome
      rw [hq]
      dsimp only
      obtain ⟨trace', heq, new, hnew, hids⟩ := ih { trace with
        placements := trace.placements ++ (captionsOf elements r).map (placeCaption elements q)
        edgeCounts := (captionsOf elements r).foldl (fun counts _ => bump "caption_target" counts)
          trace.edgeCounts } h'
      refine ⟨trace', heq, (captionsOf elements r).map (placeCaption elements q) ++ new, ?_, ?_⟩
      · rw [hnew, List.append_assoc]
      · rw [List.map_append, hids, List.flatMap_cons, List.map_append, List.map_map]
        rfl

/-- **The body**: its order is made of the roots, each with its captions behind it, and every
element is placed once. -/
theorem orderBody_spec (elements : List (PageElement α)) (nextBandIndex : Nat)
    (trace : ReadingOrderTrace α) :
    ∃ (s : GroupState α) (roots : List Nat), orderBody elements nextBandIndex trace = some s ∧
      roots.Perm (rootIndices elements) ∧
      s.order = (roots.flatMap fun index => index :: captionsOf elements index) ∧
      ∃ new, s.trace.placements = trace.placements ++ new ∧
        (new.map (·.layoutBlockId)).Perm (elements.map fun e => e.block.id) := by
  obtain ⟨s, hs, horder, new, hnew, hids⟩ := predictGroupOrder_spec
    ((rootIndices elements).map (elementAt elements)) "body" nextBandIndex trace
  rw [List.length_map] at horder
  have hroots := perm_map_getD horder
  rw [List.map_map] at hids
  have hplaced : ∀ r ∈ s.order.map (fun root => (rootIndices elements).getD root 0),
      ∃ p ∈ s.trace.placements, p.layoutBlockId = (elementAt elements r).block.id := by
    intro r hr
    have hmem : (elementAt elements r).block.id ∈ new.map (·.layoutBlockId) :=
      hids.mem_iff.mpr (List.mem_map.mpr ⟨r, hroots.mem_iff.mp hr, rfl⟩)
    obtain ⟨p, hp, hid⟩ := List.mem_map.mp hmem
    exact ⟨p, by rw [hnew]; exact List.mem_append_right _ hp, hid⟩
  obtain ⟨trace', htrace, new', hnew', hids'⟩ := placeCaptions_spec _ s.trace hplaced
  refine ⟨{ s with
    order := (s.order.map fun root => (rootIndices elements).getD root 0).flatMap fun index =>
      index :: captionsOf elements index
    trace := trace' }, _, ?_, hroots, rfl, new ++ new', ?_, ?_⟩
  · unfold orderBody
    dsimp only
    rw [hs]
    dsimp only
    rw [htrace]
    rfl
  · show trace'.placements = _
    rw [hnew', hnew, List.append_assoc]
  · -- the placements of the roots and of the captions are those of all elements
    rw [List.map_append, hids']
    have hall : (List.range elements.length).map (fun i => (elementAt elements i).block.id) =
        elements.map fun e => e.block.id := by
      refine List.ext_getElem (by simp) fun i hi hi' => ?_
      have hlt : i < elements.length := by simpa using hi'
      simp [elementAt, List.getD, hlt]
    rw [← hall]
    have hsplit : ∀ l : List Nat, (l ++ l.flatMap (captionsOf elements)).Perm
        (l.flatMap fun index => index :: captionsOf elements index) := by
      intro l
      induction l with
      | nil => exact .refl _
      | cons i l ih =>
        rw [List.flatMap_cons, List.flatMap_cons, List.cons_append, List.cons_append]
        refine List.Perm.cons _ ?_
        rw [← List.append_assoc]
        refine (List.perm_append_comm.append_right _).trans ?_
        rw [List.append_assoc]
        exact ih.append_left _
    have hperm := (hsplit _).trans (withCaptions_perm hroots)
    refine List.Perm.trans ?_ (hperm.map fun i => (elementAt elements i).block.id)
    rw [List.map_append]
    exact (hids.trans (hroots.symm.map _)).append_right _

end Captions

end DocParser.ReadingOrder
