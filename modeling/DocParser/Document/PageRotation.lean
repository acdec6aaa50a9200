import DocParser.Document.Boxes

/-!
# Page corrections

A rotated page is read upright: its text is moved to working coordinates, and after assembly all
boxes are moved back to the source. `coordinate_restoration` says that over exact numbers the two
maps are inverse and stay on the page, and that the restoration applies the right one to every
box of an assembled document once.
-/

namespace DocParser.Document

section Definitions

variable {α : Type} [Double α]

def rotate (box : BBox α) (width height degrees : Int) : BBox α :=
  let w : α := Double.ofInt width
  let h : α := Double.ofInt height
  if degrees = 90 then ⟨h - box.y1, box.x0, h - box.y0, box.x1⟩
  else if degrees = 180 then ⟨w - box.x1, h - box.y1, w - box.x0, h - box.y0⟩
  else if degrees = 270 then ⟨box.y0, w - box.x1, box.y1, w - box.x0⟩
  else box

/-- A clockwise correction of a page, with the size of the source page. -/
structure PageRotation where
  sourceWidth : Int
  sourceHeight : Int
  degrees : Int
  quarterTurn : degrees = 0 ∨ degrees = 90 ∨ degrees = 180 ∨ degrees = 270
  positive : degrees ≠ 0 → 0 < sourceWidth ∧ 0 < sourceHeight

namespace PageRotation

/-- The constructor, which throws for other angles and for rotated pages without a size. -/
def make (sourceWidth sourceHeight clockwiseDegrees : Int) : Except String PageRotation :=
  if hq : clockwiseDegrees = 0 ∨ clockwiseDegrees = 90 ∨ clockwiseDegrees = 180 ∨
      clockwiseDegrees = 270 then
    if hp : clockwiseDegrees ≠ 0 → 0 < sourceWidth ∧ 0 < sourceHeight then
      .ok ⟨sourceWidth, sourceHeight, clockwiseDegrees, hq, hp⟩
    else .error "rotated page dimensions must be positive"
  else .error "page correction must be 0, 90, 180 or 270 degrees"

variable (rotation : PageRotation)

def workingWidth : Int :=
  if rotation.degrees % 180 = 0 then rotation.sourceWidth else rotation.sourceHeight

def workingHeight : Int :=
  if rotation.degrees % 180 = 0 then rotation.sourceHeight else rotation.sourceWidth

def toWorking (box : BBox α) : BBox α :=
  rotate box rotation.sourceWidth rotation.sourceHeight rotation.degrees

def toSource (box : BBox α) : BBox α :=
  rotate box rotation.workingWidth rotation.workingHeight ((360 - rotation.degrees) % 360)

def textToWorking (text : PageText α) : PageText α :=
  { text with
    lines := text.lines.map fun line =>
      { line with
        bbox := rotation.toWorking line.bbox
        spans := line.spans.map fun span => { span with bbox := rotation.toWorking span.bbox } } }

end PageRotation

/-- The corrections of the pages by page id. -/
abbrev RotationsByPage := List (String × PageRotation)

def restoreRefs (refs : List (SourceReference α)) (rotations : RotationsByPage) :
    List (SourceReference α) :=
  refs.map fun ref =>
    match rotations.lookup ref.pageId with
    | some rotation => { ref with bbox := rotation.toSource ref.bbox }
    | none => ref

def restoreRows (rows : List (TableRow α)) (rotation : PageRotation)
    (rotations : RotationsByPage) : List (TableRow α) :=
  rows.map fun row =>
    { row with
      bbox := rotation.toSource row.bbox
      cells := row.cells.map fun cell =>
        { cell with
          bbox := rotation.toSource cell.bbox
          sourceRefs := restoreRefs cell.sourceRefs rotations } }

/-- The loop over the pages, for one of them. -/
def restorePage (rotations : RotationsByPage) (rotation : PageRotation)
    (page : PipelinePageArtifacts α) : PipelinePageArtifacts α :=
  { page with
    image := { page.image with width := rotation.sourceWidth, height := rotation.sourceHeight }
    text := { page.text with
      lines := page.text.lines.map fun line =>
        { line with
          bbox := rotation.toSource line.bbox
          spans := line.spans.map fun span => { span with bbox := rotation.toSource span.bbox } } }
    layout := { page.layout with
      blocks := page.layout.blocks.map fun block =>
        { block with bbox := rotation.toSource block.bbox } }
    tables := { page.tables with
      tables := page.tables.tables.map fun table =>
        { table with
          bbox := rotation.toSource table.bbox
          columns := table.columns.map fun column =>
            { column with bbox := rotation.toSource column.bbox }
          structureObjects := table.structureObjects.map fun object =>
            { object with bbox := rotation.toSource object.bbox }
          rows := restoreRows table.rows rotation rotations } } }

def restorePageSize (rotation : PageRotation) (page : DocumentPage α) : DocumentPage α :=
  { page with
    width := Double.ofInt rotation.sourceWidth
    height := Double.ofInt rotation.sourceHeight }

/-- The loop over the document blocks. The rows of a block are left alone when its page is
unknown. -/
def restoreBlock (rotations : RotationsByPage) (block : DocumentBlock α) : DocumentBlock α :=
  let block :=
    match rotations.lookup block.pageId with
    | some rotation =>
      { block with
        bbox := rotation.toSource block.bbox
        tableRows := restoreRows block.tableRows rotation rotations }
    | none => block
  { block with sourceRefs := restoreRefs block.sourceRefs rotations }

def restoreSourceCoordinates (document : ParsedDocument α)
    (pages : List (PipelinePageArtifacts α)) (rotations : List PageRotation) :
    Except String (ParsedDocument α × List (PipelinePageArtifacts α)) :=
  if rotations.length ≠ pages.length ∨ rotations.length ≠ document.pages.length then
    .error "page rotation count does not match assembled pages"
  else if rotations.all fun rotation => rotation.degrees == 0 then .ok (document, pages)
  else
    let byPage : RotationsByPage := (document.pages.map (·.id)).zip rotations
    .ok ({ document with
        pages := rotations.zipWith restorePageSize document.pages
        blocks := document.blocks.map (restoreBlock byPage) },
      rotations.zipWith (restorePage byPage) pages)

end Definitions

/-! ## The two maps -/

section Maps

variable {α : Type} [Double α]

/-- Moves boxes of a page to the source by the correction of that page. -/
def placeOn (rotations : RotationsByPage) (pageId : String) (box : BBox α) : BBox α :=
  match rotations.lookup pageId with
  | some rotation => rotation.toSource box
  | none => box

theorem PageRotation.toSource_of_upright {rotation : PageRotation} (h : rotation.degrees = 0)
    (box : BBox α) : rotation.toSource box = box := by
  unfold PageRotation.toSource rotate
  rw [h]
  rfl

theorem PageRotation.workingWidth_of_upright {rotation : PageRotation}
    (h : rotation.degrees = 0) : rotation.workingWidth = rotation.sourceWidth := by
  unfold PageRotation.workingWidth
  rw [h]
  rfl

theorem PageRotation.workingHeight_of_upright {rotation : PageRotation}
    (h : rotation.degrees = 0) : rotation.workingHeight = rotation.sourceHeight := by
  unfold PageRotation.workingHeight
  rw [h]
  rfl

end Maps

section Exact

variable (rotation : PageRotation) (box : BBox ℚ)

theorem PageRotation.toSource_toWorking : rotation.toSource (rotation.toWorking box) = box := by
  obtain ⟨w, h, d, hq, hp⟩ := rotation
  obtain ⟨x0, y0, x1, y1⟩ := box
  rcases hq with rfl | rfl | rfl | rfl <;>
    simp [PageRotation.toSource, PageRotation.toWorking, rotate, PageRotation.workingWidth,
      PageRotation.workingHeight]

theorem PageRotation.toWorking_toSource : rotation.toWorking (rotation.toSource box) = box := by
  obtain ⟨w, h, d, hq, hp⟩ := rotation
  obtain ⟨x0, y0, x1, y1⟩ := box
  rcases hq with rfl | rfl | rfl | rfl <;>
    simp [PageRotation.toSource, PageRotation.toWorking, rotate, PageRotation.workingWidth,
      PageRotation.workingHeight]

/-- A box on a page of the size. -/
structure Inside (box : BBox ℚ) (width height : Int) : Prop where
  left : 0 ≤ box.x0
  horizontal : box.x0 ≤ box.x1
  right : box.x1 ≤ width
  top : 0 ≤ box.y0
  vertical : box.y0 ≤ box.y1
  bottom : box.y1 ≤ height

theorem PageRotation.inside_toSource
    (hbox : Inside box rotation.workingWidth rotation.workingHeight) :
    Inside (rotation.toSource box) rotation.sourceWidth rotation.sourceHeight := by
  obtain ⟨w, h, d, hq, hp⟩ := rotation
  obtain ⟨hleft, hhor, hright, htop, hver, hbottom⟩ := hbox
  rcases hq with rfl | rfl | rfl | rfl
  · exact ⟨hleft, hhor, hright, htop, hver, hbottom⟩
  · exact ⟨htop, hver, hbottom, sub_nonneg.mpr hright, sub_le_sub_left hhor _,
      sub_le_self _ hleft⟩
  · exact ⟨sub_nonneg.mpr hright, sub_le_sub_left hhor _, sub_le_self _ hleft,
      sub_nonneg.mpr hbottom, sub_le_sub_left hver _, sub_le_self _ htop⟩
  · exact ⟨sub_nonneg.mpr hbottom, sub_le_sub_left hver _, sub_le_self _ htop, hleft, hhor,
      hright⟩

end Exact

/-! ## The restoration -/

section Restoration

variable {α : Type} [Double α] {rotations : List PageRotation} {document : ParsedDocument α}
  {pages : List (PipelinePageArtifacts α)}

theorem restoreRefs_eq (refs : List (SourceReference α)) (byPage : RotationsByPage) :
    restoreRefs refs byPage = refs.map (SourceReference.mapBox (placeOn byPage)) := by
  refine List.map_congr_left fun ref _ => ?_
  unfold SourceReference.mapBox placeOn
  cases byPage.lookup ref.pageId with
  | none => rfl
  | some rotation => rfl

theorem restoreRows_eq (rows : List (TableRow α)) (rotation : PageRotation)
    (byPage : RotationsByPage) :
    restoreRows rows rotation byPage =
      rows.map (TableRow.mapBoxes rotation.toSource (placeOn byPage)) := by
  unfold restoreRows TableRow.mapBoxes TableCell.mapBoxes
  simp only [restoreRefs_eq]

theorem restorePage_eq (byPage : RotationsByPage) (rotation : PageRotation)
    (page : PipelinePageArtifacts α) :
    restorePage byPage rotation page =
      { page.mapBoxes rotation.toSource (placeOn byPage) with
        image := { page.image with
          width := rotation.sourceWidth
          height := rotation.sourceHeight } } := by
  unfold restorePage
  simp only [restoreRows_eq]
  rfl

theorem PageRotation.textToWorking_eq (rotation : PageRotation) (text : PageText α) :
    rotation.textToWorking text = text.mapBoxes rotation.toWorking := rfl

theorem restoreBlock_eq {byPage : RotationsByPage} {block : DocumentBlock α}
    (rotation : PageRotation) (h : byPage.lookup block.pageId = some rotation) :
    restoreBlock byPage block = block.mapBoxes (placeOn byPage) := by
  have hplace : placeOn byPage block.pageId = rotation.toSource (α := α) := by
    funext box
    unfold placeOn
    rw [h]
  unfold restoreBlock DocumentBlock.mapBoxes
  rw [h, hplace]
  simp only [restoreRows_eq, restoreRefs_eq]

theorem lookup_zip {τ : Type} {ids : List String} (hids : ids.Nodup) :
    ∀ {values : List τ} {i : Nat} {id : String} {value : τ}, ids[i]? = some id →
      values[i]? = some value → (ids.zip values).lookup id = some value := by
  induction ids with
  | nil => intro _ i _ _ h; simp at h
  | cons head ids ih =>
    intro values i id value hid hvalue
    cases values with
    | nil => simp at hvalue
    | cons first values =>
      cases i with
      | zero =>
        obtain rfl := Option.some.inj hid
        obtain rfl := Option.some.inj hvalue
        simp
      | succ i =>
        have hne : (id == head) = false := by
          have hmem : id ∈ ids := List.mem_of_getElem? hid
          refine beq_eq_false_iff_ne.mpr ?_
          rintro rfl
          exact (List.nodup_cons.mp hids).1 hmem
        rw [List.zip_cons_cons, List.lookup_cons, hne]
        exact ih (List.nodup_cons.mp hids).2 hid hvalue

theorem lookup_zip_none {τ : Type} {ids : List String} {values : List τ} {id : String}
    (h : id ∉ ids) : (ids.zip values).lookup id = none := by
  refine List.lookup_eq_none_iff.mpr fun p hp => ?_
  have hne : id ≠ p.1 := fun heq => h (heq ▸ (List.of_mem_zip hp).1)
  simpa using hne

/-- A document whose pages were assembled in working coordinates: it has one correction for each
page, with distinct ids, and every block is on one of the pages. -/
structure Assembled (rotations : List PageRotation) (document : ParsedDocument α)
    (pages : List (PipelinePageArtifacts α)) : Prop where
  pagesLength : rotations.length = pages.length
  documentLength : rotations.length = document.pages.length
  ids : (document.pages.map (·.id)).Nodup
  owned : ∀ block ∈ document.blocks, block.pageId ∈ document.pages.map (·.id)
  pageSizes : ∀ (i : Nat) (rotation : PageRotation) (page : DocumentPage α),
    rotations[i]? = some rotation → document.pages[i]? = some page →
      page.width = Double.ofInt rotation.workingWidth ∧
      page.height = Double.ofInt rotation.workingHeight
  imageSizes : ∀ (i : Nat) (rotation : PageRotation) (page : PipelinePageArtifacts α),
    rotations[i]? = some rotation → pages[i]? = some page →
    page.image.width = rotation.workingWidth ∧ page.image.height = rotation.workingHeight

/-- The pages and the document after the restoration, where `place` moves the boxes of every
page. -/
structure Restored (rotations : List PageRotation) (place : String → BBox α → BBox α)
    (document document' : ParsedDocument α) (pages pages' : List (PipelinePageArtifacts α)) :
    Prop where
  owner : ∀ (i : Nat) (rotation : PageRotation) (page : DocumentPage α),
    rotations[i]? = some rotation → document.pages[i]? = some page →
    place page.id = rotation.toSource
  stranger : ∀ id, id ∉ document.pages.map (·.id) → place id = fun box => box
  rest : document' = { document with
    pages := document'.pages
    blocks := document.blocks.map (DocumentBlock.mapBoxes place) }
  documentPages : ∀ (i : Nat) (rotation : PageRotation) (page : DocumentPage α),
    rotations[i]? = some rotation → document.pages[i]? = some page →
      document'.pages[i]? = some { page with
      width := Double.ofInt rotation.sourceWidth
      height := Double.ofInt rotation.sourceHeight }
  pagesLength : pages'.length = pages.length ∧ document'.pages.length = document.pages.length
  artifacts : ∀ (i : Nat) (rotation : PageRotation) (page : PipelinePageArtifacts α),
    rotations[i]? = some rotation → pages[i]? = some page →
    pages'[i]? = some { page.mapBoxes rotation.toSource place with
      image := { page.image with
        width := rotation.sourceWidth
        height := rotation.sourceHeight } }

/-- When no page is rotated, the restoration has nothing to do. -/
theorem restored_of_upright (h : Assembled rotations document pages)
    (hupright : ∀ rotation ∈ rotations, rotation.degrees = 0) :
    Restored rotations (fun _ box => box) document document pages pages := by
  have hid : ∀ {i : Nat} {rotation : PageRotation}, rotations[i]? = some rotation →
      (rotation.toSource : BBox α → BBox α) = fun box => box := fun hi =>
    funext (PageRotation.toSource_of_upright (hupright _ (List.mem_of_getElem? hi)))
  refine ⟨fun i rotation page hi _ => (hid hi).symm, fun _ _ => rfl, ?_, ?_, ⟨rfl, rfl⟩, ?_⟩
  · rw [List.map_id'' DocumentBlock.mapBoxes_id]
  · intro i rotation page hi hpage
    have hzero := hupright _ (List.mem_of_getElem? hi)
    obtain ⟨hwidth, hheight⟩ := h.pageSizes i rotation page hi hpage
    rw [PageRotation.workingWidth_of_upright hzero] at hwidth
    rw [PageRotation.workingHeight_of_upright hzero] at hheight
    rw [← hwidth, ← hheight]
    exact hpage
  · intro i rotation page hi hpage
    have hzero := hupright _ (List.mem_of_getElem? hi)
    obtain ⟨hwidth, hheight⟩ := h.imageSizes i rotation page hi hpage
    rw [PageRotation.workingWidth_of_upright hzero] at hwidth
    rw [PageRotation.workingHeight_of_upright hzero] at hheight
    rw [← hwidth, ← hheight, hid hi, PipelinePageArtifacts.mapBoxes_id]
    exact hpage

/-- **Restoration.** Every box of an assembled document is moved by the correction of its page. -/
theorem restoreSourceCoordinates_spec (h : Assembled rotations document pages) :
    ∃ document' pages' place,
      restoreSourceCoordinates document pages rotations = .ok (document', pages') ∧
        Restored rotations place document document' pages pages' := by
  unfold restoreSourceCoordinates
  rw [if_neg (by rw [← h.pagesLength, ← h.documentLength]; simp)]
  by_cases hupright : (rotations.all fun rotation => rotation.degrees == 0) = true
  · rw [if_pos hupright]
    exact ⟨_, _, _, rfl, restored_of_upright h (by simpa using hupright)⟩
  · rw [if_neg hupright]
    set byPage := (document.pages.map (·.id)).zip rotations with hby
    have hlookup : ∀ (i : Nat) (rotation : PageRotation) (page : DocumentPage α),
        rotations[i]? = some rotation → document.pages[i]? = some page →
        byPage.lookup page.id = some rotation := fun i rotation page hi hpage =>
      lookup_zip h.ids (by rw [List.getElem?_map, hpage]; rfl) hi
    refine ⟨_, _, placeOn byPage, rfl, ?_, ?_, ?_, ?_, ?_, ?_⟩
    · intro i rotation page hi hpage
      funext box
      unfold placeOn
      rw [hlookup i rotation page hi hpage]
    · intro id hid
      funext box
      unfold placeOn
      rw [lookup_zip_none hid]
    · have hblocks : document.blocks.map (restoreBlock byPage) =
          document.blocks.map (DocumentBlock.mapBoxes (placeOn byPage)) := by
        refine List.map_congr_left fun block hblock => ?_
        obtain ⟨page, hpage, hid⟩ := List.mem_map.mp (h.owned block hblock)
        obtain ⟨i, hi⟩ := List.mem_iff_getElem?.mp hpage
        have hlt : i < rotations.length := by
          rw [h.documentLength]
          exact (List.getElem?_eq_some_iff.mp hi).1
        refine restoreBlock_eq rotations[i] ?_
        rw [← hid]
        exact hlookup i _ page (List.getElem?_eq_getElem hlt) hi
      rw [hblocks]
    · intro i rotation page hi hpage
      show (rotations.zipWith restorePageSize document.pages)[i]? = _
      rw [List.getElem?_zipWith, hi, hpage]
      rfl
    · refine ⟨?_, ?_⟩
      · rw [List.length_zipWith, h.pagesLength, Nat.min_self]
      · show (rotations.zipWith restorePageSize document.pages).length = _
        rw [List.length_zipWith, h.documentLength, Nat.min_self]
    · intro i rotation page hi hpage
      rw [List.getElem?_zipWith, hi, hpage]
      exact congrArg some (restorePage_eq byPage rotation page)

end Restoration

/-- **Coordinates.** Over exact numbers the two maps are inverse and stay on the page. The
restoration of an assembled document moves every box once, by the correction of its own page, a
reference by that of the page it names; sizes are those of the source, and every text is what it
was before it was turned. -/
theorem coordinate_restoration :
    (∀ (rotation : PageRotation) (box : BBox ℚ),
      rotation.toSource (rotation.toWorking box) = box ∧
      rotation.toWorking (rotation.toSource box) = box ∧
      (Inside box rotation.workingWidth rotation.workingHeight →
        Inside (rotation.toSource box) rotation.sourceWidth rotation.sourceHeight)) ∧
    ∀ (rotations : List PageRotation) (document : ParsedDocument ℚ)
      (pages : List (PipelinePageArtifacts ℚ)), Assembled rotations document pages →
      ∃ document' pages' place,
        restoreSourceCoordinates document pages rotations = .ok (document', pages') ∧
        Restored rotations place document document' pages pages' ∧
        (∀ (i : Nat) (rotation : PageRotation) (page page' : PipelinePageArtifacts ℚ),
          rotations[i]? = some rotation → pages[i]? = some page → pages'[i]? = some page' →
          page'.boxes = page.boxes.map rotation.toSource ∧
          page'.references = page.references.map (SourceReference.mapBox place) ∧
          ∀ text, page.text = rotation.textToWorking text → page'.text = text) ∧
        ∀ (i : Nat) (block block' : DocumentBlock ℚ),
          document.blocks[i]? = some block → document'.blocks[i]? = some block' →
          block'.boxes = block.boxes.map (place block.pageId) ∧
          block'.references = block.references.map (SourceReference.mapBox place) := by
  refine ⟨fun rotation box => ⟨rotation.toSource_toWorking box, rotation.toWorking_toSource box,
    rotation.inside_toSource box⟩, fun rotations document pages h => ?_⟩
  obtain ⟨document', pages', place, hrestore, hrestored⟩ := restoreSourceCoordinates_spec h
  refine ⟨document', pages', place, hrestore, hrestored, ?_, ?_⟩
  · intro i rotation page page' hi hpage hpage'
    obtain rfl := Option.some.inj (hpage'.symm.trans (hrestored.artifacts i rotation page hi hpage))
    refine ⟨page.boxes_mapBoxes rotation.toSource place,
      page.references_mapBoxes rotation.toSource place, fun text htext => ?_⟩
    show page.text.mapBoxes rotation.toSource = text
    rw [htext, rotation.textToWorking_eq, PageText.mapBoxes_mapBoxes]
    have hinverse : (rotation.toSource ∘ rotation.toWorking : BBox ℚ → BBox ℚ) = fun box => box :=
      funext rotation.toSource_toWorking
    rw [hinverse, PageText.mapBoxes_id]
  · intro i block block' hblock hblock'
    rw [hrestored.rest, List.getElem?_map, hblock] at hblock'
    obtain rfl := Option.some.inj hblock'
    exact ⟨block.boxes_mapBoxes place, block.references_mapBoxes place⟩

/-! ## Two pages with different turns -/

def turned : List PageRotation :=
  [⟨100, 60, 180, by decide, by decide⟩, ⟨100, 60, 90, by decide, by decide⟩]

def turnedRow : TableRow ℚ :=
  ⟨0, ⟨10, 20, 30, 50⟩, 1, false, [⟨0, 0, 2, 3, false, "cell", ⟨10, 20, 30, 50⟩, 1,
    [⟨"page_1", ⟨10, 20, 30, 50⟩, "local", .ocr⟩,
      ⟨"page_2", ⟨10, 10, 40, 30⟩, "remote", .pdfTextLayer⟩]⟩]⟩

def turnedPages : List (PipelinePageArtifacts ℚ) :=
  [⟨0, 1, ⟨0, 1, "", 100, 60⟩, ⟨0, 1, true, .ocr, [⟨"line", ⟨10, 20, 30, 50⟩, .ocr, 1, []⟩]⟩,
      ⟨0, 1, [⟨"b", .text, "", "", ⟨10, 20, 30, 50⟩, 1, -1, [0]⟩]⟩, ⟨0, 1, [], ⟨"", [], [], []⟩⟩,
      ⟨0, 1, []⟩⟩,
    ⟨1, 2, ⟨1, 2, "", 60, 100⟩, ⟨1, 2, false, .unknown, []⟩, ⟨1, 2, []⟩,
      ⟨1, 2, [], ⟨"", [], [], []⟩⟩, ⟨1, 2, []⟩⟩]

def turnedDocument : ParsedDocument ℚ where
  source := ⟨"", "", "", "", none, ""⟩
  dpi := 200
  blocks := [⟨"b", .table, "", "", 0, 1, ⟨10, 20, 30, 50⟩, 1, "", [], "t", "", false, false,
    [turnedRow], "page_1", []⟩]
  documentId := ""
  status := .complete
  producer := ⟨"", "", "", ""⟩
  pages := [⟨"page_1", 1, 100, 60, "", "", ""⟩, ⟨"page_2", 2, 60, 100, "", "", ""⟩]
  relations := []
  warnings := []

theorem assembled_turned : Assembled turned turnedDocument turnedPages where
  pagesLength := rfl
  documentLength := rfl
  ids := by decide
  owned block hblock := by
    rw [List.mem_singleton.mp hblock]
    decide
  pageSizes i rotation page hi hpage := by
    match i with
    | 0 => cases hi; cases hpage; exact ⟨rfl, rfl⟩
    | 1 => cases hi; cases hpage; exact ⟨rfl, rfl⟩
    | i + 2 => cases hi
  imageSizes i rotation page hi hpage := by
    match i with
    | 0 => cases hi; cases hpage; exact ⟨rfl, rfl⟩
    | 1 => cases hi; cases hpage; exact ⟨rfl, rfl⟩
    | i + 2 => cases hi

theorem coordinate_restoration_two_turns :
    ∃ document' pages' place,
      restoreSourceCoordinates turnedDocument turnedPages turned = .ok (document', pages') ∧
      Restored turned place turnedDocument document' turnedPages pages' := by
  obtain ⟨document', pages', place, hrestore, hrestored, _⟩ :=
    coordinate_restoration.2 turned turnedDocument turnedPages assembled_turned
  exact ⟨document', pages', place, hrestore, hrestored⟩

end DocParser.Document
