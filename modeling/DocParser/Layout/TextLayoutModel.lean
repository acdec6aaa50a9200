import DocParser.Layout.BoxUnions
import DocParser.Layout.GroupTypes

/-!
# A layout from the text alone

Without a layout model the lines of a page are classified one after the other and gathered to
blocks: a line joins the last block or starts one. `analyze_partitions_lines` says which lines the
blocks have, how they are numbered and which of them hold one line only.
-/

namespace DocParser.TextLayoutModel

open Document Layout

section Definitions

variable {α : Type} [Double α]

structure LineCandidate (α : Type) where
  index : Int
  text : String
  bbox : BBox α
  height : α
  deriving DecidableEq, Repr

instance : Inhabited (LineCandidate α) := ⟨⟨0, "", default, 0⟩⟩

def bboxWidth (bbox : BBox α) : α := Double.max 0 (bbox.x1 - bbox.x0)

def bboxHeight (bbox : BBox α) : α := Double.max 0 (bbox.y1 - bbox.y0)

/-- A bullet, or a number with a point or a parenthesis, and white space behind it. -/
def startsWithListMarker (text : String) : Bool :=
  match (trim text).toList with
  | [] => false
  | first :: rest =>
    if first == '-' || first == '*' || first == '+' then
      match rest with
      | [] => false
      | c :: _ => isSpace c
    else if !isDigit first then false
    else
      match rest.dropWhile isDigit with
      | mark :: c :: _ => (mark == '.' || mark == ')') && isSpace c
      | _ => false

/-- `sort` stands for `std::sort` by the left edges, which leaves the order of equal ones open. -/
def hasTableLikeSpanGaps (sort : List (TextSpan α) → List (TextSpan α)) (line : TextLine α) :
    Bool :=
  if line.spans.length < 3 then false
  else
    let spans := sort line.spans
    let threshold := Double.max 16.0 (bboxHeight line.bbox * 1.8)
    let largeGaps := (spans.zip spans.tail).countP fun p =>
      decide (threshold < p.2.bbox.x0 - p.1.bbox.x1)
    decide (2 ≤ largeGaps)

def hasRepeatedDotLeader (text : String) : Bool :=
  containsText text.toList "...".toList || containsText text.toList " . . ".toList

def medianLineHeight (lines : List (LineCandidate α)) : α :=
  let heights := (lines.map (·.height)).filter fun height => decide (0 < height)
  let sorted := sortBy (fun a b => decide (a < b)) heights
  if heights.isEmpty then 0 else sorted.getD (heights.length / 2) 0

def classifyLine (sort : List (TextSpan α) → List (TextSpan α)) (page : PageArtifact)
    (line : TextLine α) (candidate : LineCandidate α) (medianHeight : α) (firstBodyLine : Bool) :
    LayoutBlockType :=
  let pageHeight :=
    if 0 < page.height then Double.ofInt page.height else Double.max candidate.bbox.y1 1.0
  let topRatio := candidate.bbox.y0 / pageHeight
  let bottomRatio := candidate.bbox.y1 / pageHeight
  if topRatio < 0.08 then .header
  else if 0.92 < bottomRatio then .footer
  else if hasTableLikeSpanGaps sort line || hasRepeatedDotLeader candidate.text then .table
  else if startsWithListMarker candidate.text then .list
  else if firstBodyLine && decide (candidate.text.length ≤ 120) &&
      (decide (medianHeight ≤ 0) || decide (medianHeight * 1.05 ≤ candidate.height)) then .title
  else .text

def blockConfidence (type : LayoutBlockType) (lineCount : Nat) : α :=
  match type with
  | .title => 0.70
  | .header | .footer => 0.65
  | .table | .list => 0.60
  | .figure => 0.55
  | .text => if 1 < lineCount then 0.75 else 0.68
  | .unknown => 0.40

/-- Blocks of these types are never continued. -/
def isSingleLine : LayoutBlockType → Bool
  | .title | .header | .footer => true
  | _ => false

def canMerge (block : LayoutBlock α) (nextType : LayoutBlockType)
    (previous next : LineCandidate α) : Bool :=
  if block.type != nextType then false
  else if isSingleLine nextType then false
  else
    let previousHeight := Double.max 1.0 previous.height
    let gap := next.bbox.y0 - previous.bbox.y1
    let leftDelta := Double.abs (next.bbox.x0 - previous.bbox.x0)
    decide (0 ≤ gap) && decide (gap ≤ previousHeight * 1.8) &&
      decide (leftDelta ≤ previousHeight * 4.0)

def blockId (pageNumber : Int) (blockIndex : Nat) : String :=
  "page_" ++ toString pageNumber ++ "_block_" ++ toString (blockIndex + 1)

/-- A line with a text and an area. -/
def lineCandidate? (line : TextLine α) (index : Nat) : Option (LineCandidate α) :=
  let text := trim line.text
  if text.isEmpty || decide (bboxWidth line.bbox ≤ 0) || decide (bboxHeight line.bbox ≤ 0) then none
  else some ⟨index, text, line.bbox, bboxHeight line.bbox⟩

def lineCandidates (text : PageText α) : List (LineCandidate α) :=
  text.lines.zipIdx.filterMap fun p => lineCandidate? p.1 p.2

/-- The variables of the loop over the candidates. -/
structure AnalyzeState (α : Type) where
  blocks : List (LayoutBlock α)
  sawBodyLine : Bool
  previousLine : LineCandidate α

/-- A block of one line. -/
def startBlock (page : PageArtifact) (blockCount : Nat) (type : LayoutBlockType)
    (candidate : LineCandidate α) : LayoutBlock α where
  id := blockId page.pageNumber blockCount
  type := type
  sourceLabel := ""
  relatedBlockId := ""
  bbox := candidate.bbox
  confidence := blockConfidence type 1
  readingOrderHint := -1
  textLineIndices := [candidate.index]

def continueBlock (candidate : LineCandidate α) (block : LayoutBlock α) : LayoutBlock α :=
  { block with
    bbox := expandBBox block.bbox candidate.bbox
    textLineIndices := block.textLineIndices ++ [candidate.index]
    confidence := blockConfidence block.type (block.textLineIndices.length + 1) }

/-- Adds a line to the last block or behind it. -/
def placeLine (page : PageArtifact) (blocks : List (LayoutBlock α)) (type : LayoutBlockType)
    (previous candidate : LineCandidate α) : List (LayoutBlock α) :=
  match blocks.getLast? with
  | none => [startBlock page 0 type candidate]
  | some block =>
    if canMerge block type previous candidate then
      blocks.dropLast ++ [continueBlock candidate block]
    else blocks ++ [startBlock page blocks.length type candidate]

def analyzeLine (sort : List (TextSpan α) → List (TextSpan α)) (page : PageArtifact)
    (text : PageText α) (medianHeight : α) (state : AnalyzeState α)
    (candidate : LineCandidate α) : AnalyzeState α :=
  let firstBodyLine := !state.sawBodyLine &&
    decide (Double.ofInt (max 0 page.height) * 0.08 ≤ candidate.bbox.y0)
  let type := classifyLine sort page (lineAt text candidate.index) candidate medianHeight
    firstBodyLine
  { blocks := placeLine page state.blocks type state.previousLine candidate
    sawBodyLine := state.sawBodyLine || !isFurniture type
    previousLine := candidate }

/-- The block of a page without a line. -/
def figureBlock (page : PageArtifact) : LayoutBlock α where
  id := blockId page.pageNumber 0
  type := .figure
  sourceLabel := ""
  relatedBlockId := ""
  bbox := ⟨0, 0, Double.ofInt page.width, Double.ofInt page.height⟩
  confidence := blockConfidence .figure 0
  readingOrderHint := -1
  textLineIndices := []

def analyze (sort : List (TextSpan α) → List (TextSpan α)) (page : PageArtifact)
    (text : PageText α) : PageLayout α :=
  let candidates := lineCandidates text
  { pageIndex := page.pageIndex
    pageNumber := page.pageNumber
    blocks :=
      if candidates.isEmpty then
        if 0 < page.width ∧ 0 < page.height then [figureBlock page] else []
      else
        (candidates.foldl (analyzeLine sort page text (medianLineHeight candidates))
          ⟨[], false, default⟩).blocks }

end Definitions

/-! ## Candidates -/

section Candidates

variable {α : Type} [Double α] {text : PageText α}

theorem lineCandidate?_eq_some {line : TextLine α} {index : Nat} {candidate : LineCandidate α}
    (h : lineCandidate? line index = some candidate) :
    candidate.index = index ∧ candidate.bbox = line.bbox := by
  unfold lineCandidate? at h
  dsimp only at h
  split at h
  · cases h
  · obtain rfl := Option.some.inj h
    exact ⟨rfl, rfl⟩

/-- The lines that are candidates. -/
def HasArea (line : TextLine α) : Prop :=
  trim line.text ≠ "" ∧ ¬ bboxWidth line.bbox ≤ 0 ∧ ¬ bboxHeight line.bbox ≤ 0

theorem isSome_lineCandidate? {line : TextLine α} {index : Nat} :
    (∃ candidate, lineCandidate? line index = some candidate) ↔ HasArea line := by
  unfold lineCandidate? HasArea
  dsimp only
  split
  next h =>
    simp only [Bool.or_eq_true, String.isEmpty_iff, decide_eq_true_eq] at h
    constructor
    · rintro ⟨candidate, hcandidate⟩
      cases hcandidate
    · rintro ⟨htext, hwidth, hheight⟩
      rcases h with (h | h) | h
      · exact absurd h htext
      · exact absurd h hwidth
      · exact absurd h hheight
  next h =>
    simp only [Bool.or_eq_true, String.isEmpty_iff, decide_eq_true_eq, not_or] at h
    exact iff_of_true ⟨_, rfl⟩ ⟨h.1.1, h.1.2, h.2⟩

theorem mem_lineCandidates {candidate : LineCandidate α} : candidate ∈ lineCandidates text ↔
    ∃ index line, text.lines[index]? = some line ∧ lineCandidate? line index = some candidate := by
  unfold lineCandidates
  rw [List.mem_filterMap]
  constructor
  · rintro ⟨⟨line, index⟩, hmem, hcandidate⟩
    exact ⟨index, line, List.mem_zipIdx_iff_getElem?.mp hmem, hcandidate⟩
  · rintro ⟨index, line, hline, hcandidate⟩
    exact ⟨(line, index), List.mem_zipIdx_iff_getElem?.mpr hline, hcandidate⟩

theorem lineCandidates_bbox {candidate : LineCandidate α} (h : candidate ∈ lineCandidates text) :
    candidate.bbox = lineBBox text candidate.index := by
  obtain ⟨index, line, hline, hcandidate⟩ := mem_lineCandidates.mp h
  obtain ⟨hindex, hbbox⟩ := lineCandidate?_eq_some hcandidate
  unfold lineBBox lineAt
  rw [hbbox, hindex, Int.toNat_natCast, List.getD, hline, Option.getD_some]

theorem lineCandidates_ascending (text : PageText α) :
    ((lineCandidates text).map (·.index)).Pairwise (· < ·) := by
  have hindices : text.lines.zipIdx.Pairwise fun p q => p.2 < q.2 := by
    refine List.pairwise_map.mp ?_
    rw [List.zipIdx_map_snd]
    exact List.pairwise_lt_range'
  refine List.pairwise_map.mpr (List.Pairwise.filterMap _ ?_ hindices)
  intro p q hlt c hc d hd
  rw [(lineCandidate?_eq_some hc).1, (lineCandidate?_eq_some hd).1]
  exact Int.ofNat_lt.mpr hlt

theorem mem_candidate_indices {index : Int} :
    index ∈ (lineCandidates text).map (·.index) ↔
      ∃ line, lineAt? text index = some line ∧ HasArea line := by
  rw [List.mem_map]
  constructor
  · rintro ⟨candidate, hmem, rfl⟩
    obtain ⟨n, line, hline, hcandidate⟩ := mem_lineCandidates.mp hmem
    refine ⟨line, ?_, isSome_lineCandidate?.mp ⟨candidate, hcandidate⟩⟩
    unfold lineAt?
    rw [(lineCandidate?_eq_some hcandidate).1, if_neg (by omega), Int.toNat_natCast, hline]
  · rintro ⟨line, hline, harea⟩
    unfold lineAt? at hline
    split at hline
    · cases hline
    next hnonneg =>
      obtain ⟨candidate, hcandidate⟩ := isSome_lineCandidate?.mpr harea
      refine ⟨candidate, mem_lineCandidates.mpr ⟨index.toNat, line, hline, hcandidate⟩, ?_⟩
      rw [(lineCandidate?_eq_some hcandidate).1, Int.toNat_of_nonneg (not_lt.mp hnonneg)]

end Candidates

/-! ## The loop -/

section Loop

variable {α : Type} [Double α] {text : PageText α} {page : PageArtifact}

/-- A block with the lines that it lists in its box. -/
structure BlockOk (text : PageText α) (block : LayoutBlock α) : Prop where
  box : IsUnion block.bbox (block.textLineIndices.map (lineBBox text))
  single : isSingleLine block.type = true → block.textLineIndices.length = 1

/-- The blocks after the lines with the indices `seen`. -/
structure BlocksOk (text : PageText α) (page : PageArtifact) (blocks : List (LayoutBlock α))
    (seen : List Int) : Prop where
  lines : blockLines blocks = seen
  ids : blocks.map (·.id) = (List.range blocks.length).map (blockId page.pageNumber)
  blocks : ∀ block ∈ blocks, BlockOk text block

def titleCount (blocks : List (LayoutBlock α)) : Nat := blocks.countP fun block => block.type == .title

omit [Double α] in
theorem ids_concat {pageNumber : Int} {blocks : List (LayoutBlock α)} {block : LayoutBlock α}
    (h : blocks.map (·.id) = (List.range blocks.length).map (blockId pageNumber))
    (hid : block.id = blockId pageNumber blocks.length) :
    (blocks ++ [block]).map (·.id) =
      (List.range (blocks ++ [block]).length).map (blockId pageNumber) := by
  rw [List.map_append, h, List.length_append, List.length_singleton, List.range_succ,
    List.map_append, List.map_singleton, List.map_singleton, hid]

theorem not_single_of_canMerge {block : LayoutBlock α} {type : LayoutBlockType}
    {previous next : LineCandidate α} (h : canMerge block type previous next = true) :
    isSingleLine block.type = false := by
  unfold canMerge at h
  split at h
  · cases h
  next hsame =>
    split at h
    · cases h
    next hsingle =>
      rw [show block.type = type by simpa using hsame]
      simpa using hsingle

/-- **Placing a line** keeps the blocks in order. -/
theorem BlocksOk.placeLine [IsStrictOrder α (· < ·)] {blocks : List (LayoutBlock α)}
    {seen : List Int} (h : BlocksOk text page blocks seen) (type : LayoutBlockType)
    (previous : LineCandidate α) {candidate : LineCandidate α}
    (hbbox : candidate.bbox = lineBBox text candidate.index) :
    BlocksOk text page (placeLine page blocks type previous candidate)
      (seen ++ [candidate.index]) := by
  have hstart : ∀ count, BlockOk text (startBlock page count type candidate) := by
    intro count
    refine ⟨?_, fun _ => rfl⟩
    show IsUnion candidate.bbox [lineBBox text candidate.index]
    rw [hbbox]
    exact isUnion_singleton _
  have hnew : BlocksOk text page (blocks ++ [startBlock page blocks.length type candidate])
      (seen ++ [candidate.index]) := by
    refine ⟨?_, ids_concat h.ids rfl, fun block hblock => ?_⟩
    · rw [← h.lines]
      exact List.flatMap_append
    · rcases List.mem_append.mp hblock with hold | hnew
      · exact h.blocks block hold
      · rw [List.mem_singleton.mp hnew]
        exact hstart _
  unfold TextLayoutModel.placeLine
  cases hlast : blocks.getLast? with
  | none =>
    obtain rfl := List.getLast?_eq_none_iff.mp hlast
    exact hnew
  | some last =>
    obtain ⟨front, rfl⟩ := List.getLast?_eq_some_iff.mp hlast
    dsimp only
    split
    next hmerge =>
      have hok := h.blocks last (List.mem_append_right _ (List.mem_singleton_self last))
      have hcontinued : BlockOk text (continueBlock candidate last) := by
        refine ⟨?_, fun hsingle => ?_⟩
        · show IsUnion (expandBBox last.bbox candidate.bbox)
            ((last.textLineIndices ++ [candidate.index]).map (lineBBox text))
          rw [List.map_append, List.map_singleton, ← hbbox]
          exact hok.box.expand candidate.bbox
        · rw [show (continueBlock candidate last).type = last.type from rfl,
            not_single_of_canMerge hmerge] at hsingle
          cases hsingle
      rw [List.dropLast_concat]
      refine ⟨?_, ?_, fun block hblock => ?_⟩
      · rw [← h.lines]
        unfold blockLines
        rw [List.flatMap_append, List.flatMap_append, List.append_assoc, List.flatMap_singleton,
          List.flatMap_singleton]
        rfl
      · have hids := h.ids
        rw [List.map_append] at hids ⊢
        rw [List.length_append] at hids ⊢
        exact hids
      · rcases List.mem_append.mp hblock with hold | hnew
        · exact h.blocks block (List.mem_append_left _ hold)
        · rw [List.mem_singleton.mp hnew]
          exact hcontinued
    next => exact hnew

theorem titleCount_placeLine (blocks : List (LayoutBlock α)) (type : LayoutBlockType)
    (previous candidate : LineCandidate α) :
    titleCount (placeLine page blocks type previous candidate) ≤
      titleCount blocks + if type = .title then 1 else 0 := by
  have hnew : titleCount (blocks ++ [startBlock page blocks.length type candidate]) =
      titleCount blocks + if type = .title then 1 else 0 := by
    unfold titleCount
    rw [List.countP_append, List.countP_singleton]
    simp [startBlock]
  unfold placeLine
  cases hlast : blocks.getLast? with
  | none =>
    obtain rfl := List.getLast?_eq_none_iff.mp hlast
    exact hnew.le
  | some last =>
    obtain ⟨front, rfl⟩ := List.getLast?_eq_some_iff.mp hlast
    dsimp only
    split
    · rw [List.dropLast_concat]
      refine Nat.le_trans (Nat.le_of_eq ?_) (Nat.le_add_right _ _)
      unfold titleCount
      rw [List.countP_append, List.countP_append]
      rfl
    · exact hnew.le

/-- Only a line before all body lines is a title. -/
theorem firstBodyLine_of_title {sort : List (TextSpan α) → List (TextSpan α)} {line : TextLine α}
    {candidate : LineCandidate α} {medianHeight : α} {firstBodyLine : Bool}
    (h : classifyLine sort page line candidate medianHeight firstBodyLine = .title) :
    firstBodyLine = true := by
  by_contra hnot
  unfold classifyLine at h
  simp only [Bool.not_eq_true _ ▸ hnot, Bool.false_and, Bool.false_eq_true, if_false] at h
  split_ifs at h

/-- The state of the loop after the lines with the indices `seen`. -/
structure StateOk (text : PageText α) (page : PageArtifact) (state : AnalyzeState α)
    (seen : List Int) : Prop where
  blocks : BlocksOk text page state.blocks seen
  titles : titleCount state.blocks ≤ if state.sawBodyLine then 1 else 0

/-- **One line** keeps the state. -/
theorem StateOk.analyzeLine [IsStrictOrder α (· < ·)] {state : AnalyzeState α} {seen : List Int}
    (h : StateOk text page state seen) (sort : List (TextSpan α) → List (TextSpan α))
    (medianHeight : α) {candidate : LineCandidate α}
    (hbbox : candidate.bbox = lineBBox text candidate.index) :
    StateOk text page (analyzeLine sort page text medianHeight state candidate)
      (seen ++ [candidate.index]) := by
  unfold TextLayoutModel.analyzeLine
  dsimp only
  generalize htype : classifyLine sort page (lineAt text candidate.index) candidate medianHeight
    (!state.sawBodyLine &&
      decide (Double.ofInt (max 0 page.height) * 0.08 ≤ candidate.bbox.y0)) = type
  refine ⟨h.blocks.placeLine type state.previousLine hbbox, ?_⟩
  refine (titleCount_placeLine state.blocks type state.previousLine candidate).trans ?_
  have htitles := h.titles
  by_cases htitle : type = .title
  · have hfirst := firstBodyLine_of_title (htype.trans htitle)
    rw [Bool.and_eq_true, Bool.not_eq_true'] at hfirst
    rw [hfirst.1] at htitles ⊢
    rw [htitle]
    simpa [isFurniture] using htitles
  · rw [if_neg htitle, Nat.add_zero]
    cases hsaw : state.sawBodyLine with
    | true => rwa [hsaw] at htitles
    | false =>
      rw [hsaw] at htitles
      exact htitles.trans (Nat.zero_le _)

/-- **The loop** keeps the state. -/
theorem StateOk.foldl [IsStrictOrder α (· < ·)] (sort : List (TextSpan α) → List (TextSpan α))
    (medianHeight : α) (candidates : List (LineCandidate α)) :
    ∀ {state : AnalyzeState α} {seen : List Int}, StateOk text page state seen →
      (∀ candidate ∈ candidates, candidate.bbox = lineBBox text candidate.index) →
      StateOk text page
        (candidates.foldl (TextLayoutModel.analyzeLine sort page text medianHeight) state)
        (seen ++ candidates.map (·.index)) := by
  induction candidates with
  | nil =>
    intro state seen h _
    rwa [List.map_nil, List.append_nil]
  | cons candidate candidates ih =>
    intro state seen h hbbox
    obtain ⟨hfirst, hrest⟩ := List.forall_mem_cons.mp hbbox
    rw [List.map_cons, show seen ++ candidate.index :: candidates.map (·.index) =
      seen ++ [candidate.index] ++ candidates.map (·.index) by simp]
    exact ih (h.analyzeLine sort medianHeight hfirst) hrest

/-- **The layout of the text** has every line with a text and an area in one block, in their order.
The box of a block is the union of its lines, the blocks are numbered in order, titles, headers and
footers have one line each, and there is one title at most. -/
theorem analyze_partitions_lines [IsStrictOrder α (· < ·)]
    (sort : List (TextSpan α) → List (TextSpan α)) (page : PageArtifact) (text : PageText α) :
    (blockLines (analyze sort page text).blocks).Pairwise (· < ·) ∧
    (∀ index, index ∈ blockLines (analyze sort page text).blocks ↔
      ∃ line, lineAt? text index = some line ∧ HasArea line) ∧
    (∀ block ∈ (analyze sort page text).blocks, block.textLineIndices ≠ [] →
      IsUnion block.bbox (block.textLineIndices.map (lineBBox text))) ∧
    (analyze sort page text).blocks.map (·.id) =
      (List.range (analyze sort page text).blocks.length).map (blockId page.pageNumber) ∧
    (∀ block ∈ (analyze sort page text).blocks, isSingleLine block.type = true →
      block.textLineIndices.length = 1) ∧
    titleCount (analyze sort page text).blocks ≤ 1 := by
  have hascending := lineCandidates_ascending text
  have hmember : ∀ index, index ∈ (lineCandidates text).map (·.index) ↔
      ∃ line, lineAt? text index = some line ∧ HasArea line := fun _ => mem_candidate_indices
  unfold analyze
  dsimp only
  split
  next hempty =>
    rw [List.isEmpty_iff.mp hempty] at hmember
    split
    · refine ⟨List.Pairwise.nil, hmember, fun block hblock hlines => ?_, rfl,
        fun block hblock hsingle => ?_, Nat.zero_le _⟩
      · rw [List.mem_singleton.mp hblock] at hlines
        exact absurd rfl hlines
      · rw [List.mem_singleton.mp hblock] at hsingle
        cases hsingle
    · exact ⟨List.Pairwise.nil, hmember, fun _ h => absurd h List.not_mem_nil, rfl,
        fun _ h => absurd h List.not_mem_nil, Nat.zero_le _⟩
  next =>
    have hstart : StateOk text page ⟨[], false, default⟩ [] :=
      ⟨⟨rfl, rfl, fun _ h => absurd h List.not_mem_nil⟩, Nat.le_refl _⟩
    have hloop := StateOk.foldl sort (medianLineHeight (lineCandidates text))
      (lineCandidates text) hstart fun candidate hcandidate => lineCandidates_bbox hcandidate
    rw [List.nil_append] at hloop
    have hblocks := hloop.blocks
    refine ⟨?_, fun index => ?_, fun block hblock _ => (hblocks.blocks block hblock).box,
      hblocks.ids, fun block hblock => (hblocks.blocks block hblock).single, ?_⟩
    · rw [hblocks.lines]
      exact hascending
    · rw [hblocks.lines]
      exact hmember index
    · refine hloop.titles.trans ?_
      split <;> omega

/-- A running head, a heading, an empty line and two lines of text. -/
def articleText : PageText ℚ :=
  let line (text : String) (y0 y1 : ℚ) : TextLine ℚ := ⟨text, ⟨10, y0, 80, y1⟩, .ocr, 1, []⟩
  ⟨0, 1, true, .ocr, [line "Review" 2 6, line "Parsing pages" 20 32, line " " 34 38,
    line "Lines make" 40 48, line "a block." 50 58]⟩

def articlePage : PageArtifact := ⟨0, 1, "page_1.png", 90, 100⟩

def leftEdgeSort (spans : List (TextSpan ℚ)) : List (TextSpan ℚ) :=
  sortBy (fun lhs rhs => decide (lhs.bbox.x0 < rhs.bbox.x0)) spans

theorem analyze_articleText :
    (analyze leftEdgeSort articlePage articleText).blocks.map
      (fun block => (block.type, block.textLineIndices)) =
      [(.header, [0]), (.title, [1]), (.text, [3, 4])] ∧
    (blockLines (analyze leftEdgeSort articlePage articleText).blocks).Pairwise (· < ·) ∧
    titleCount (analyze leftEdgeSort articlePage articleText).blocks ≤ 1 := by
  obtain ⟨hascending, -, -, -, -, htitle⟩ :=
    analyze_partitions_lines leftEdgeSort articlePage articleText
  exact ⟨by decide +kernel, hascending, htitle⟩

end Loop

end DocParser.TextLayoutModel
