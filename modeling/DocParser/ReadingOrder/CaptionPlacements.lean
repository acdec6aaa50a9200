import DocParser.ReadingOrder.Permutation

/-!
# Placements of captions

The placements with a parent are those of the captions of figures and tables, each with the id of
its target (`order_captions`).
-/

namespace DocParser.ReadingOrder

open Document

section

variable {α : Type} [Double α] {elements : List (PageElement α)}

/-- From `s` to `s'` only placements without a parent are added. -/
def AddsRoots (s s' : GroupState α) : Prop :=
  ∃ new, s'.trace.placements = s.trace.placements ++ new ∧
    ∀ p ∈ new, p.parentLayoutBlockId = ""

omit [Double α] in
theorem AddsRoots.trans {s s' s'' : GroupState α} (h : AddsRoots s s') (h' : AddsRoots s' s'') :
    AddsRoots s s'' := by
  obtain ⟨new, hnew, hroots⟩ := h
  obtain ⟨new', hnew', hroots'⟩ := h'
  refine ⟨new ++ new', by rw [hnew', hnew, List.append_assoc], fun p hp => ?_⟩
  rcases List.mem_append.mp hp with hp | hp
  · exact hroots p hp
  · exact hroots' p hp

theorem appendBand_addsRoots {group : String} {band : List Nat} {s s' : GroupState α}
    (h : appendBand elements group band s = some s') : AddsRoots s s' := by
  unfold appendBand at h
  split_ifs at h with hempty
  · obtain rfl := Option.some.inj h
    exact ⟨[], (List.append_nil _).symm, fun p hp => absurd hp List.not_mem_nil⟩
  · dsimp only at h
    split at h
    · cases h
    · obtain rfl := Option.some.inj h
      refine ⟨_, rfl, fun p hp => ?_⟩
      obtain ⟨element, -, rfl⟩ := List.mem_map.mp hp
      rfl

theorem orderBands_addsRoots {group : String} {columnCount : Nat} (separators : List Nat) :
    ∀ {remaining : List Nat} {s s' : GroupState α},
      orderBands elements group columnCount separators remaining s = some s' →
        AddsRoots s s' := by
  induction separators with
  | nil => exact fun h => appendBand_addsRoots h
  | cons separator separators ih =>
    intro remaining s s' h
    unfold orderBands at h
    dsimp only at h
    split at h
    · cases h
    next s₁ hs₁ =>
      have hseparator : AddsRoots s₁
          (appendSeparator elements group columnCount separator s₁) := by
        refine ⟨_, rfl, fun p hp => ?_⟩
        rw [List.mem_singleton.mp hp]
      exact ((appendBand_addsRoots hs₁).trans hseparator).trans (ih h)

theorem predictGroupOrder_roots {group : String} {nextBandIndex : Nat}
    {trace : ReadingOrderTrace α} {s : GroupState α}
    (h : predictGroupOrder elements group nextBandIndex trace = some s) :
    ∃ new, s.trace.placements = trace.placements ++ new ∧
      ∀ p ∈ new, p.parentLayoutBlockId = "" := by
  unfold predictGroupOrder at h
  split_ifs at h
  · obtain rfl := Option.some.inj h
    exact ⟨[], (List.append_nil _).symm, fun p hp => absurd hp List.not_mem_nil⟩
  · exact orderBands_addsRoots _ h

/-- The ids of the captions of roots, each with that of its target. -/
def captionLinks (elements : List (PageElement α)) (roots : List Nat) : List (String × String) :=
  roots.flatMap fun r => (captionsOf elements r).map fun i =>
    ((elementAt elements i).block.id, (elementAt elements r).block.id)

/-- The loop over the roots places each caption below its target. -/
theorem placeCaptions_links {placements : List ReadingOrderPlacement} (roots : List Nat) :
    ∀ {trace trace' : ReadingOrderTrace α},
      placeCaptions elements placements roots trace = some trace' →
      ∃ new, trace'.placements = trace.placements ++ new ∧
        (new.map fun p => (p.layoutBlockId, p.parentLayoutBlockId)) =
          captionLinks elements roots := by
  induction roots with
  | nil =>
    intro trace trace' h
    obtain rfl := Option.some.inj h
    exact ⟨[], (List.append_nil _).symm, rfl⟩
  | cons r roots ih =>
    intro trace trace' h
    unfold placeCaptions at h
    dsimp only at h
    unfold captionLinks
    rw [List.flatMap_cons]
    by_cases hc : (captionsOf elements r).isEmpty = true
    · rw [if_pos hc] at h
      obtain ⟨new, hnew, hlinks⟩ := ih h
      refine ⟨new, hnew, ?_⟩
      rw [hlinks, List.isEmpty_iff.mp hc]
      rfl
    · rw [if_neg hc] at h
      split at h
      · cases h
      next placement hplacement =>
        obtain ⟨new, hnew, hlinks⟩ := ih h
        have hid : placement.layoutBlockId = (elementAt elements r).block.id := by
          simpa using List.find?_some hplacement
        refine ⟨(captionsOf elements r).map (placeCaption elements placement) ++ new, ?_, ?_⟩
        · rw [hnew, List.append_assoc]
        · rw [List.map_append, hlinks, List.map_map]
          congr 1
          refine List.map_congr_left fun i _ => ?_
          show ((elementAt elements i).block.id, placement.layoutBlockId) = _
          rw [hid]

/-- The parent of a caption is a figure or a table. -/
theorem captionParent_target {i target : Nat} (h : captionParent elements i = some target) :
    isCaptionTarget (elementAt elements target).block = true := by
  unfold captionParent at h
  dsimp only at h
  split at h
  · cases h
  · split_ifs at h with hc
    obtain rfl := Option.some.inj h
    rw [Bool.and_eq_true] at hc
    exact hc.2

variable {layout : PageLayout α} {readingOrder : PageReadingOrder α}

/-- The placements with a parent are those of the captions of the body. -/
theorem order_links (h : order layout = some (true, readingOrder)) :
    ∃ roots, roots.Perm (rootIndices (collectElements layout [.header, .footer] false)) ∧
      ∀ link : String × String, link.2 ≠ "" →
        ((∃ p ∈ readingOrder.trace.placements,
          (p.layoutBlockId, p.parentLayoutBlockId) = link) ↔
            link ∈ captionLinks (collectElements layout [.header, .footer] false) roots) := by
  unfold order at h
  split_ifs at h
  · cases h
  dsimp only at h
  split at h
  · cases h
  next headers hheaders =>
    split at h
    · cases h
    next body hbody =>
      split at h
      · cases h
      next footers hfooters =>
        obtain rfl := (Prod.mk.inj (Option.some.inj h)).2
        obtain ⟨newh, hnewh, hrooth⟩ := predictGroupOrder_roots hheaders
        obtain ⟨newf, hnewf, hrootf⟩ := predictGroupOrder_roots hfooters
        unfold orderBody at hbody
        dsimp only at hbody
        split at hbody
        · cases hbody
        next s₁ hs₁ =>
          obtain ⟨trace, htrace, rfl⟩ := Option.map_eq_some_iff.mp hbody
          obtain ⟨newb, hnewb, hrootb⟩ := predictGroupOrder_roots hs₁
          obtain ⟨newc, hnewc, hlinks⟩ := placeCaptions_links _ htrace
          obtain ⟨s₂, hs₂, horder, -⟩ := predictGroupOrder_spec
            ((rootIndices (collectElements layout [.header, .footer] false)).map
              (elementAt (collectElements layout [.header, .footer] false))) "body"
            headers.nextBandIndex headers.trace
          obtain rfl : s₂ = s₁ := Option.some.inj (hs₂.symm.trans hs₁)
          rw [List.length_map] at horder
          refine ⟨_, perm_map_getD horder, fun link hlink => ?_⟩
          have hall : footers.trace.placements = newh ++ newb ++ newc ++ newf := by
            rw [hnewf]
            show trace.placements ++ newf = _
            rw [hnewc, hnewb, hnewh, List.nil_append]
          rw [← hlinks, List.mem_map]
          show (∃ p ∈ footers.trace.placements, _) ↔ _
          rw [hall]
          constructor
          · rintro ⟨p, hp, heq⟩
            refine ⟨p, ?_, heq⟩
            have hparent : p.parentLayoutBlockId ≠ "" := by
              rw [← heq] at hlink
              exact hlink
            rcases List.mem_append.mp hp with hp | hp
            · rcases List.mem_append.mp hp with hp | hp
              · rcases List.mem_append.mp hp with hp | hp
                · exact absurd (hrooth p hp) hparent
                · exact absurd (hrootb p hp) hparent
              · exact hp
            · exact absurd (hrootf p hp) hparent
          · rintro ⟨p, hp, heq⟩
            exact ⟨p, List.mem_append_left _ (List.mem_append_right _ hp), heq⟩

/-- The block is a caption, and the figure or table is the one that it names. -/
structure IsCaptionOf (layout : PageLayout α) (caption target : LayoutBlock α) : Prop where
  captionMem : caption ∈ layout.blocks
  targetMem : target ∈ layout.blocks
  captionLabel : isCaption caption = true
  targetType : isCaptionTarget target = true
  link : caption.relatedBlockId = target.id

/-- **Captions.** The placements with a parent are those of the captions, each below its target. -/
theorem order_captions (hids : (layout.blocks.map (·.id)).Nodup)
    (hempty : ∀ block ∈ layout.blocks, block.id ≠ "")
    (h : order layout = some (true, readingOrder)) (id parent : String) :
    (parent ≠ "" ∧ ∃ p ∈ readingOrder.trace.placements,
        p.layoutBlockId = id ∧ p.parentLayoutBlockId = parent) ↔
      ∃ caption target, IsCaptionOf layout caption target ∧ caption.id = id ∧
        target.id = parent := by
  obtain ⟨roots, hroots, hlinks⟩ := order_links h
  set body := collectElements layout [.header, .footer] false with hbody
  have hget : ∀ (k : Nat) (hk : k < body.length), elementAt body k = body[k] :=
    fun k hk => by simp [elementAt, List.getD, hk]
  have hmem : ∀ k < body.length, (elementAt body k).block ∈ layout.blocks := by
    intro k hk
    rw [hget k hk]
    exact List.mem_of_getElem? (mem_collectElements.mp (List.getElem_mem hk)).1
  have hchar : ∀ i j : String, (i, j) ∈ captionLinks body roots ↔
      ∃ caption target, IsCaptionOf layout caption target ∧ caption.id = i ∧ target.id = j := by
    intro i j
    unfold captionLinks
    rw [List.mem_flatMap]
    constructor
    · rintro ⟨r, hr, hlink⟩
      obtain ⟨k, hk, heq⟩ := List.mem_map.mp hlink
      obtain ⟨rfl, rfl⟩ := Prod.mk.inj heq
      obtain ⟨hklt, hparent⟩ := mem_captionsOf.mp hk
      have hrlt := (captionParent_some hparent).1
      obtain ⟨hcaption, hrelated⟩ := captionOf_of_mem hk
      exact ⟨_, _, ⟨hmem k hklt, hmem r hrlt, hcaption, captionParent_target hparent, hrelated⟩,
        rfl, rfl⟩
    · rintro ⟨caption, target, hcap, rfl, rfl⟩
      obtain ⟨k, hk, hkeq⟩ := exists_body_element hcap.captionMem (isCaption_type hcap.captionLabel)
      obtain ⟨r, hr, hreq⟩ :=
        exists_body_element hcap.targetMem (isCaptionTarget_type hcap.targetType)
      have hparent : captionParent body k = some r := captionParent_of_mem
        (collectElements_ids_nodup hids) hk hr (by rw [hkeq]; exact hcap.captionLabel)
        (by rw [hreq]; exact hcap.targetType) (by rw [hkeq, hreq]; exact hcap.link)
      refine ⟨r, hroots.mem_iff.mpr (mem_rootIndices.mpr (captionParent_some hparent)),
        List.mem_map.mpr ⟨k, mem_captionsOf.mpr ⟨hk, hparent⟩, ?_⟩⟩
      rw [hget k hk, hget r hr, hkeq, hreq]
  constructor
  · rintro ⟨hparent, p, hp, rfl, rfl⟩
    exact (hchar _ _).mp ((hlinks (_, _) hparent).mp ⟨p, hp, rfl⟩)
  · intro hcaption
    have hparent : parent ≠ "" := by
      obtain ⟨caption, target, hcap, -, rfl⟩ := hcaption
      exact hempty target hcap.targetMem
    obtain ⟨p, hp, heq⟩ := (hlinks (id, parent) hparent).mpr ((hchar id parent).mpr hcaption)
    obtain ⟨hid, hpar⟩ := Prod.mk.inj heq
    exact ⟨hparent, p, hp, hid, hpar⟩

end

end DocParser.ReadingOrder
