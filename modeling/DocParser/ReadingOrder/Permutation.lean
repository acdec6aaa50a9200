import DocParser.ReadingOrder.Backend

/-!
# The reading order is a permutation

`reading_order_permutation`: on finite boxes and distinct ids, whatever the types, labels, links
and hints, the backend succeeds. Its items name every block once, headers before the body before
the footers, every caption stands in the run behind its target, and the trace holds one
placement for each block.
-/

namespace DocParser.ReadingOrder

open Document

section

variable {α : Type} [Double α] {layout : PageLayout α}

/-- The block that an item points to. -/
def itemBlock (layout : PageLayout α) (item : ReadingOrderItem) : LayoutBlock α :=
  layout.blocks.getD item.layoutBlockIndex.toNat default

/-- A caption of the figure or table with the id. -/
def CaptionOf (layout : PageLayout α) (id : String) (item : ReadingOrderItem) : Prop :=
  isCaption (itemBlock layout item) = true ∧ (itemBlock layout item).relatedBlockId = id

/-- The contract of a reading order. -/
structure IsReadingOrder (layout : PageLayout α) (readingOrder : PageReadingOrder α) : Prop where
  once : (readingOrder.items.map fun item => (item.layoutBlockIndex, item.layoutBlockId)).Perm
    (layout.blocks.zipIdx.map fun p => ((p.2 : Int), p.1.id))
  sequence : readingOrder.items.map (·.sequenceIndex) =
    (List.range layout.blocks.length).map Int.ofNat
  groups : ∃ headers body footers, readingOrder.items = headers ++ body ++ footers ∧
    (∀ item ∈ headers, (itemBlock layout item).type = .header) ∧
    (∀ item ∈ body, (itemBlock layout item).type ≠ .header ∧
      (itemBlock layout item).type ≠ .footer) ∧
    ∀ item ∈ footers, (itemBlock layout item).type = .footer
  captions : ∀ caption ∈ layout.blocks, ∀ target ∈ layout.blocks,
    isCaption caption = true → isCaptionTarget target = true →
    caption.relatedBlockId = target.id →
    ∃ front item run rest, readingOrder.items = front ++ item :: run ++ rest ∧
      item.layoutBlockId = target.id ∧
      (∃ c ∈ run, c.layoutBlockId = caption.id) ∧ ∀ c ∈ run, CaptionOf layout target.id c
  placements : (readingOrder.trace.placements.map (·.layoutBlockId)).Perm
    (layout.blocks.map (·.id))

/-! ## Collected elements -/

omit [Double α] in
theorem mem_collectElements {types : List LayoutBlockType} {matching : Bool}
    {e : PageElement α} :
    e ∈ collectElements layout types matching ↔
      layout.blocks[e.layoutBlockIndex]? = some e.block ∧ e.bbox = e.block.bbox ∧
        types.contains e.block.type = matching := by
  unfold collectElements
  rw [List.mem_map]
  constructor
  · rintro ⟨⟨block, index⟩, hp, rfl⟩
    obtain ⟨hmem, htype⟩ := List.mem_filter.mp hp
    exact ⟨List.mem_zipIdx_iff_getElem?.mp hmem, rfl, by simpa using htype⟩
  · rintro ⟨hget, hbox, htype⟩
    refine ⟨(e.block, e.layoutBlockIndex), List.mem_filter.mpr
      ⟨List.mem_zipIdx_iff_getElem?.mpr hget, by simpa using htype⟩, ?_⟩
    rw [← hbox]

omit [Double α] in
/-- **Headers, body and footers** are all blocks, each once. -/
theorem collectElements_perm (layout : PageLayout α) :
    (collectElements layout [.header] true ++ collectElements layout [.header, .footer] false ++
      collectElements layout [.footer] true).Perm
      (layout.blocks.zipIdx.map fun p => ⟨p.2, p.1, p.1.bbox⟩) := by
  unfold collectElements
  rw [← List.map_append, ← List.map_append]
  refine List.Perm.map _ ?_
  induction layout.blocks.zipIdx with
  | nil => exact .refl _
  | cons p l ih =>
    obtain ⟨block, index⟩ := p
    cases htype : block.type <;> simp only [List.filter_cons, htype] <;>
      first
      | exact ih.cons _
      | exact (List.Perm.append_right _ List.perm_middle).trans (ih.cons _)
      | exact List.perm_middle.trans (ih.cons _)

omit [Double α] in
theorem collectElements_ids_nodup {types : List LayoutBlockType} {matching : Bool}
    (hids : (layout.blocks.map (·.id)).Nodup) :
    ((collectElements layout types matching).map fun e => e.block.id).Nodup := by
  unfold collectElements
  rw [List.map_map]
  have hsub : ((layout.blocks.zipIdx.filter fun p =>
      types.contains p.1.type == matching).map fun p => p.1.id).Sublist
      (layout.blocks.zipIdx.map fun p => p.1.id) := List.filter_sublist.map _
  refine hsub.nodup ?_
  have hmap : (layout.blocks.zipIdx.map fun p => p.1.id) = layout.blocks.map (·.id) := by
    calc (layout.blocks.zipIdx.map fun p => p.1.id)
        = (layout.blocks.zipIdx.map Prod.fst).map (·.id) := by rw [List.map_map]; rfl
      _ = layout.blocks.map (·.id) := by rw [List.zipIdx_map_fst]
  rw [hmap]
  exact hids

/-! ## Items -/

/-- The item of an element at a place of the order. -/
def itemOf (element : PageElement α) (sequenceIndex : Nat) : ReadingOrderItem :=
  ⟨element.block.id, element.layoutBlockIndex, sequenceIndex⟩

theorem itemBlock_itemOf {types : List LayoutBlockType} {matching : Bool} {e : PageElement α}
    (h : e ∈ collectElements layout types matching) (n : Nat) :
    itemBlock layout (itemOf e n) = e.block := by
  have hget := (mem_collectElements.mp h).1
  show layout.blocks.getD e.layoutBlockIndex default = e.block
  rw [List.getD_eq_getElem?_getD, hget]
  rfl

theorem appendItems_eq (elements : List (PageElement α)) (order : List Nat) :
    ∀ items, appendItems elements order items = items ++
      ((order.map (elementAt elements)).zipIdx items.length).map fun p => itemOf p.1 p.2 := by
  induction order with
  | nil => intro items; simp [appendItems]
  | cons index order ih =>
    intro items
    show appendItems elements order (items ++ [itemOf (elementAt elements index) items.length]) = _
    rw [ih, List.length_append, List.map_cons, List.zipIdx_cons, List.map_cons]
    simp

/-- The items of three orders in a row are those of the ordered elements. -/
theorem appendItems_three (headers body footers : List (PageElement α)) (h b f : List Nat) :
    appendItems footers f (appendItems body b (appendItems headers h [])) =
      (h.map (elementAt headers) ++ b.map (elementAt body) ++
        f.map (elementAt footers)).zipIdx.map fun p => itemOf p.1 p.2 := by
  rw [appendItems_eq footers, appendItems_eq body, appendItems_eq headers]
  simp [List.zipIdx_append]

theorem map_elementAt_perm {elements : List (PageElement α)} {order : List Nat}
    (h : order.Perm (List.range elements.length)) :
    (order.map (elementAt elements)).Perm elements := by
  refine (h.map _).trans (List.Perm.of_eq ?_)
  refine List.ext_getElem (by simp) fun i hi hi' => ?_
  simp [elementAt, List.getD, hi']

/-! ## Captions -/

/-- In a body with distinct ids the parent of a caption is the target that it names. -/
theorem captionParent_of_mem {elements : List (PageElement α)} {i j : Nat}
    (hids : (elements.map fun e => e.block.id).Nodup) (hi : i < elements.length)
    (hj : j < elements.length) (hcaption : isCaption elements[i].block = true)
    (htarget : isCaptionTarget elements[j].block = true)
    (hlink : elements[i].block.relatedBlockId = elements[j].block.id) :
    captionParent elements i = some j := by
  have hget : ∀ (k : Nat) (hk : k < elements.length), elementAt elements k = elements[k] :=
    fun k hk => by simp [elementAt, List.getD, hk]
  have hfind : (elements.findIdx? fun e =>
      e.block.id == (elementAt elements i).block.relatedBlockId) = some j := by
    rw [hget i hi, hlink, List.findIdx?_eq_some_iff_getElem]
    refine ⟨hj, by simp, fun k hk => ?_⟩
    have hne : elements[k].block.id ≠ elements[j].block.id := fun heq => by
      have hinj := List.nodup_iff_injective_getElem.mp hids
      have hkj := @hinj ⟨k, by simpa using hk.trans hj⟩ ⟨j, by simpa using hj⟩ (by simpa using heq)
      exact hk.ne (by simpa using hkj)
    simpa using hne
  have hne : j ≠ i := by
    rintro rfl
    unfold isCaption at hcaption
    unfold isCaptionTarget at htarget
    cases htype : elements[j].block.type <;> rw [htype] at hcaption htarget <;> simp_all
  unfold captionParent
  dsimp only
  rw [hfind]
  dsimp only
  rw [hget i hi, hget j hj, hcaption, htarget]
  simp [hne]

/-- A caption in the run of a target is a caption with its id. -/
theorem captionOf_of_mem {elements : List (PageElement α)} {c target : Nat}
    (h : c ∈ captionsOf elements target) :
    isCaption (elementAt elements c).block = true ∧
      (elementAt elements c).block.relatedBlockId = (elementAt elements target).block.id := by
  obtain ⟨hfind, hcaption⟩ := captionParent_eq (mem_captionsOf.mp h).2
  rw [List.findIdx?_eq_some_iff_getElem] at hfind
  obtain ⟨hlt, hid, _⟩ := hfind
  refine ⟨hcaption, ?_⟩
  have hid := (beq_iff_eq.mp hid).symm
  rw [hid]
  simp [elementAt, List.getD, hlt]

omit [Double α] in
theorem isCaption_type {block : LayoutBlock α} (h : isCaption block = true) :
    block.type ≠ .header ∧ block.type ≠ .footer := by
  unfold isCaption at h
  constructor <;> intro htype <;> rw [htype] at h <;> cases h

omit [Double α] in
theorem isCaptionTarget_type {block : LayoutBlock α} (h : isCaptionTarget block = true) :
    block.type ≠ .header ∧ block.type ≠ .footer := by
  unfold isCaptionTarget at h
  constructor <;> intro htype <;> rw [htype] at h <;> cases h

omit [Double α] in
/-- A block that is no furniture is an element of the body. -/
theorem exists_body_element {block : LayoutBlock α} (hmem : block ∈ layout.blocks)
    (htype : block.type ≠ .header ∧ block.type ≠ .footer) :
    ∃ i, ∃ hi : i < (collectElements layout [.header, .footer] false).length,
      (collectElements layout [.header, .footer] false)[i].block = block := by
  obtain ⟨index, hindex⟩ := List.mem_iff_getElem?.mp hmem
  have helem : (⟨index, block, block.bbox⟩ : PageElement α) ∈
      collectElements layout [.header, .footer] false :=
    mem_collectElements.mpr ⟨hindex, rfl, by simpa using htype⟩
  obtain ⟨i, hi, heq⟩ := List.mem_iff_getElem.mp helem
  exact ⟨i, hi, by rw [heq]⟩

omit [Double α] in
/-- A run of elements becomes a run of items. -/
theorem items_run (front run rest : List (PageElement α)) (t : PageElement α) :
    ∃ front' item rest' k, ((front ++ t :: run ++ rest).zipIdx.map fun p => itemOf p.1 p.2) =
      front' ++ item :: (run.zipIdx k).map (fun p => itemOf p.1 p.2) ++ rest' ∧
      item.layoutBlockId = t.block.id := by
  refine ⟨front.zipIdx.map fun p => itemOf p.1 p.2, itemOf t front.length,
    (rest.zipIdx (front ++ t :: run).length).map fun p => itemOf p.1 p.2, front.length + 1, ?_,
    rfl⟩
  simp [List.zipIdx_append, List.zipIdx_cons, Nat.add_assoc, Nat.add_comm 1]

/-- **Captions** stand in the run behind their target. -/
theorem captions_anchored {headers footers : List (PageElement α)} {roots b : List Nat}
    (hids : (layout.blocks.map (·.id)).Nodup)
    (hroots : roots.Perm (rootIndices (collectElements layout [.header, .footer] false)))
    (hb : b = roots.flatMap fun index =>
      index :: captionsOf (collectElements layout [.header, .footer] false) index)
    {caption target : LayoutBlock α} (hc : caption ∈ layout.blocks) (ht : target ∈ layout.blocks)
    (hcaption : isCaption caption = true) (htarget : isCaptionTarget target = true)
    (hlink : caption.relatedBlockId = target.id) :
    ∃ front item run rest, ((headers ++
        b.map (elementAt (collectElements layout [.header, .footer] false)) ++
          footers).zipIdx.map fun p => itemOf p.1 p.2) = front ++ item :: run ++ rest ∧
      item.layoutBlockId = target.id ∧
      (∃ c ∈ run, c.layoutBlockId = caption.id) ∧ ∀ c ∈ run, CaptionOf layout target.id c := by
  obtain ⟨i, hi, hieq⟩ := exists_body_element hc (isCaption_type hcaption)
  obtain ⟨j, hj, hjeq⟩ := exists_body_element ht (isCaptionTarget_type htarget)
  set body := collectElements layout [.header, .footer] false with hbody
  have hparent : captionParent body i = some j := captionParent_of_mem
    (collectElements_ids_nodup hids) hi hj (by rw [hieq]; exact hcaption)
    (by rw [hjeq]; exact htarget) (by rw [hieq, hjeq]; exact hlink)
  have hget : ∀ (k : Nat) (hk : k < body.length), elementAt body k = body[k] :=
    fun k hk => by simp [elementAt, List.getD, hk]
  -- the order splits at the target, and its captions are the run behind it
  obtain ⟨before, after, rfl⟩ := List.append_of_mem
    (hroots.mem_iff.mpr (mem_rootIndices.mpr (captionParent_some hparent)))
  obtain ⟨front, item, rest, k, hitems, hid⟩ := items_run
    (headers ++
      (before.flatMap fun index => index :: captionsOf body index).map (elementAt body))
    ((captionsOf body j).map (elementAt body))
    ((after.flatMap fun index => index :: captionsOf body index).map (elementAt body) ++ footers)
    (elementAt body j)
  refine ⟨front, item,
    (((captionsOf body j).map (elementAt body)).zipIdx k).map fun p => itemOf p.1 p.2, rest,
    ?_, ?_, ?_, ?_⟩
  · rw [← hitems, hb]
    simp [List.append_assoc]
  · rw [hid, hget j hj, hjeq]
  · have hmem : elementAt body i ∈ (captionsOf body j).map (elementAt body) :=
      List.mem_map_of_mem (mem_captionsOf.mpr ⟨hi, hparent⟩)
    rw [← List.zipIdx_map_fst k ((captionsOf body j).map (elementAt body))] at hmem
    obtain ⟨p, hp, hfst⟩ := List.mem_map.mp hmem
    refine ⟨_, List.mem_map_of_mem hp, ?_⟩
    show p.1.block.id = caption.id
    rw [hfst, hget i hi, hieq]
  · intro c hc
    obtain ⟨⟨e, n⟩, hp, rfl⟩ := List.mem_map.mp hc
    obtain ⟨x, hx, rfl⟩ := List.mem_map.mp (List.fst_mem_of_mem_zipIdx hp)
    have hxlt := (mem_captionsOf.mp hx).1
    have hxmem : elementAt body x ∈ body := by
      rw [hget x hxlt]
      exact List.getElem_mem hxlt
    obtain ⟨hcap, hrel⟩ := captionOf_of_mem hx
    unfold CaptionOf
    rw [itemBlock_itemOf hxmem, hrel, hget j hj, hjeq]
    exact ⟨hcap, rfl⟩

/-! ## The contract -/

/-- The result of a run whose groups were ordered. -/
theorem order_eq (hfinite : layout.blocks.all hasFiniteBox = true) :
    ∃ (h b f : List Nat) (roots : List Nat) (trace : ReadingOrderTrace α),
      order layout = some (true, ⟨layout.pageIndex, layout.pageNumber,
        ((h.map (elementAt (collectElements layout [.header] true)) ++
          b.map (elementAt (collectElements layout [.header, .footer] false)) ++
          f.map (elementAt (collectElements layout [.footer] true))).zipIdx.map fun p =>
            itemOf p.1 p.2), trace⟩) ∧
      h.Perm (List.range (collectElements layout [.header] true).length) ∧
      roots.Perm (rootIndices (collectElements layout [.header, .footer] false)) ∧
      b = (roots.flatMap fun index =>
        index :: captionsOf (collectElements layout [.header, .footer] false) index) ∧
      f.Perm (List.range (collectElements layout [.footer] true).length) ∧
      (trace.placements.map (·.layoutBlockId)).Perm
        ((collectElements layout [.header] true ++
          collectElements layout [.header, .footer] false ++
          collectElements layout [.footer] true).map fun e => e.block.id) := by
  obtain ⟨h, hh, hhorder, newh, hnewh, hhids⟩ := predictGroupOrder_spec
    (collectElements layout [.header] true) "header" 0
    ⟨"band-column-topological-v3", [], [], []⟩
  obtain ⟨b, roots, hb, hroots, hborder, newb, hnewb, hbids⟩ := orderBody_spec
    (collectElements layout [.header, .footer] false) h.nextBandIndex h.trace
  obtain ⟨f, hf, hforder, newf, hnewf, hfids⟩ := predictGroupOrder_spec
    (collectElements layout [.footer] true) "footer" b.nextBandIndex b.trace
  refine ⟨h.order, b.order, f.order, roots, f.trace, ?_, hhorder, hroots, hborder, hforder, ?_⟩
  · unfold order
    rw [hfinite]
    dsimp only
    rw [hh]
    dsimp only
    rw [hb]
    dsimp only
    rw [hf]
    dsimp only
    rw [appendItems_three]
    rfl
  · rw [hnewf, hnewb, hnewh, List.nil_append, List.map_append, List.map_append, List.map_append,
      List.map_append]
    exact (hhids.append hbids).append hfids

/-- **Reading order.** On finite boxes and distinct ids the backend succeeds, and what it returns
is a reading order of the layout. -/
theorem reading_order_permutation (layout : PageLayout α)
    (hfinite : ∀ block ∈ layout.blocks, hasFiniteBox block = true)
    (hids : (layout.blocks.map (·.id)).Nodup) :
    ∃ readingOrder, order layout = some (true, readingOrder) ∧
      IsReadingOrder layout readingOrder := by
  obtain ⟨h, b, f, roots, trace, horder, hh, hroots, hb, hf, hplaced⟩ :=
    order_eq (List.all_eq_true.mpr hfinite)
  set headers := collectElements layout [.header] true with hheaders
  set body := collectElements layout [.header, .footer] false with hbody
  set footers := collectElements layout [.footer] true with hfooters
  have hbperm : b.Perm (List.range body.length) := hb ▸ withCaptions_perm hroots
  have hall : (h.map (elementAt headers) ++ b.map (elementAt body) ++
      f.map (elementAt footers)).Perm (layout.blocks.zipIdx.map fun p => ⟨p.2, p.1, p.1.bbox⟩) :=
    (((map_elementAt_perm hh).append (map_elementAt_perm hbperm)).append
      (map_elementAt_perm hf)).trans (collectElements_perm layout)
  refine ⟨_, horder, ?_, ?_, ?_, ?_, ?_⟩
  · -- every block once
    rw [List.map_map]
    have hkey : ∀ l : List (PageElement α), (l.zipIdx.map
        ((fun item : ReadingOrderItem => (item.layoutBlockIndex, item.layoutBlockId)) ∘
          fun p => itemOf p.1 p.2)) =
        l.map fun e => ((e.layoutBlockIndex : Int), e.block.id) := by
      intro l
      calc (l.zipIdx.map _) = (l.zipIdx.map Prod.fst).map
            fun e => ((e.layoutBlockIndex : Int), e.block.id) := by rw [List.map_map]; rfl
        _ = _ := by rw [List.zipIdx_map_fst]
    rw [hkey]
    refine (hall.map _).trans (List.Perm.of_eq ?_)
    rw [List.map_map]
    rfl
  · -- the items are numbered in order
    rw [List.map_map]
    have hlen := hall.length_eq
    rw [List.length_map, List.length_zipIdx] at hlen
    rw [← hlen]
    have hsnd := List.zipIdx_map_snd 0 (h.map (elementAt headers) ++ b.map (elementAt body) ++
      f.map (elementAt footers))
    rw [List.range_eq_range', ← hsnd, List.map_map]
    rfl
  · -- headers, body and footers
    have hmem : ∀ {types : List LayoutBlockType} {matching : Bool} {o : List Nat} {k : Nat},
        o.Perm (List.range (collectElements layout types matching).length) →
        ∀ item ∈ ((o.map (elementAt (collectElements layout types matching))).zipIdx k).map
          fun p => itemOf p.1 p.2, types.contains (itemBlock layout item).type = matching := by
      intro types matching o k ho item hitem
      obtain ⟨⟨e, n⟩, he, rfl⟩ := List.mem_map.mp hitem
      have he := (map_elementAt_perm ho).mem_iff.mp (List.fst_mem_of_mem_zipIdx he)
      rw [itemBlock_itemOf he]
      exact (mem_collectElements.mp he).2.2
    refine ⟨_, _, _, by rw [List.zipIdx_append, List.zipIdx_append, List.map_append,
      List.map_append], ?_, ?_, ?_⟩
    · intro item hitem
      simpa using hmem hh item hitem
    · intro item hitem
      simpa using hmem hbperm item hitem
    · intro item hitem
      simpa using hmem hf item hitem
  · intro caption hc target ht hcaption htarget hlink
    exact captions_anchored hids hroots hb hc ht hcaption htarget hlink
  · refine hplaced.trans ?_
    refine ((collectElements_perm layout).map _).trans (List.Perm.of_eq ?_)
    calc _ = (layout.blocks.zipIdx.map Prod.fst).map (·.id) := by
          rw [List.map_map, List.map_map]; rfl
      _ = layout.blocks.map (·.id) := by rw [List.zipIdx_map_fst]

end

/-- A page with furniture, a figure with two captions and a paragraph beside it. -/
def figurePage : PageLayout ℚ where
  pageIndex := 0
  pageNumber := 1
  blocks := [
    ⟨"foot", .footer, "Page-footer", "", ⟨0, 95, 100, 100⟩, 1, -1, []⟩,
    ⟨"cap1", .text, "Caption", "fig", ⟨5, 60, 45, 65⟩, 1, -1, [1]⟩,
    ⟨"fig", .figure, "Picture", "", ⟨5, 20, 45, 58⟩, 1, -1, []⟩,
    ⟨"par", .text, "Text", "fig", ⟨55, 20, 95, 80⟩, 1, -1, [2]⟩,
    ⟨"cap2", .text, "figure_title", "fig", ⟨5, 66, 45, 70⟩, 1, -1, [3]⟩,
    ⟨"head", .header, "Page-header", "", ⟨0, 0, 100, 5⟩, 1, -1, [0]⟩]

theorem reading_order_permutation_figure_page :
    ∃ readingOrder, order figurePage = some (true, readingOrder) ∧
      IsReadingOrder figurePage readingOrder :=
  reading_order_permutation figurePage (fun _ _ => rfl) (by decide)

end DocParser.ReadingOrder
