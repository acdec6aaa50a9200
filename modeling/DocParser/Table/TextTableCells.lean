import DocParser.Common.Sorting
import DocParser.Layout.Lines

/-!
# Cells of a text table

A table without a recognised structure takes one row from each line: the spans of the line, from
left to right, are cut into cells where a gap is wide. The code measures a gap from the span before
it. `cells_partition_line_iff`: the cells always partition the spans, and they lie apart when no
span before a wide gap reaches into it.
-/

namespace DocParser.TextTable

open Document Layout

section Definitions

variable {α : Type} [Double α]

def bboxHeight (bbox : BBox α) : α := Double.max 0 (bbox.y1 - bbox.y0)

variable (α) in
/-- Dots, dashes and blanks for three quarters of the text at least. -/
def isDotLeader (text : String) : Bool :=
  let value := (trim text).toList
  let leaderChars := value.countP fun c => c == '.' || c == '_' || c == '-' || c == ' '
  !decide (value.length < 3) &&
    decide ((0.75 : α) ≤ Double.ofInt (leaderChars : Int) / Double.ofInt (value.length : Int))

def joinCellText (spans : List (TextSpan α)) : String :=
  spans.foldl (fun text span =>
    let value := trim span.text
    if value.isEmpty then text
    else (if text.isEmpty then text else text ++ " ") ++ value) ""

/-- A cell of spans. -/
def makeCell (spans : List (TextSpan α)) (rowIndex columnIndex : Int) : TableCell α where
  rowIndex := rowIndex
  columnIndex := columnIndex
  rowSpan := 1
  columnSpan := 1
  isHeader := false
  text := joinCellText spans
  bbox := match spans with
    | [] => default
    | first :: _ => spans.foldl (fun bbox span => expandBBox bbox span.bbox) first.bbox
  confidence := match spans with
    | [] => 0
    | _ => spans.foldl (fun sum span => sum + span.confidence) 0 /
      Double.ofInt (spans.length : Int)
  sourceRefs := []

/-- A span that goes into a cell. -/
def isCellSpan (span : TextSpan α) : Bool :=
  !(trim span.text).isEmpty && !isDotLeader α span.text

def cellSpans (line : TextLine α) : List (TextSpan α) := line.spans.filter isCellSpan

def gapThreshold (line : TextLine α) : α := Double.max 24.0 (bboxHeight line.bbox * 2.0)

/-- The loop over the sorted spans, with the spans of the current cell. -/
def splitSpans (threshold : α) :
    List (TextSpan α) → List (TextSpan α) → List (List (TextSpan α))
  | current, [] => if current.isEmpty then [] else [current]
  | current, span :: rest =>
    match current.getLast? with
    | none => splitSpans threshold [span] rest
    | some last =>
      if threshold < span.bbox.x0 - last.bbox.x1 then
        current :: splitSpans threshold [span] rest
      else splitSpans threshold (current ++ [span]) rest

/-- `sort` stands for `std::sort` by the left edges, which leaves the order of equal ones open. -/
def cellsFromLine (sort : List (TextSpan α) → List (TextSpan α)) (line : TextLine α)
    (rowIndex : Int) : List (TableCell α) :=
  let spans := sort (cellSpans line)
  if spans.isEmpty then
    [{ makeCell [] rowIndex 0 with
        text := trim line.text, bbox := line.bbox, confidence := line.confidence }]
  else
    (splitSpans (gapThreshold line) [] spans).zipIdx.map fun p => makeCell p.1 rowIndex p.2

/-- What `std::sort` promises. -/
structure SortsByLeftEdge (sort : List (TextSpan α) → List (TextSpan α)) : Prop where
  perm : ∀ spans, (sort spans).Perm spans
  sorted : ∀ spans, (sort spans).Pairwise fun a b => ¬ b.bbox.x0 < a.bbox.x0

end Definitions

/-! ## Groups of spans -/

section Groups

variable {α : Type} [Double α] {threshold : α}

theorem splitSpans_cons {current : List (TextSpan α)} {last : TextSpan α}
    (hlast : current.getLast? = some last) (span : TextSpan α) (rest : List (TextSpan α)) :
    splitSpans threshold current (span :: rest) =
      if threshold < span.bbox.x0 - last.bbox.x1 then
        current :: splitSpans threshold [span] rest
      else splitSpans threshold (current ++ [span]) rest := by
  rw [splitSpans, hlast]

theorem splitSpans_nil_cons (span : TextSpan α) (rest : List (TextSpan α)) :
    splitSpans threshold [] (span :: rest) = splitSpans threshold [span] rest := by
  rw [splitSpans]
  rfl

theorem splitSpans_nil {current : List (TextSpan α)} (h : current ≠ []) :
    splitSpans threshold current [] = [current] := by
  rw [splitSpans, if_neg (by simpa using h)]

variable (threshold) in
/-- **The groups** hold the spans in their order. -/
theorem splitSpans_flatten (rest : List (TextSpan α)) : ∀ current,
    (splitSpans threshold current rest).flatten = current ++ rest := by
  induction rest with
  | nil =>
    intro current
    by_cases h : current = []
    · rw [h]
      rfl
    · rw [splitSpans_nil h]
      simp
  | cons span rest ih =>
    intro current
    cases hlast : current.getLast? with
    | none =>
      rw [List.getLast?_eq_none_iff.mp hlast, splitSpans_nil_cons, ih]
      rfl
    | some last =>
      rw [splitSpans_cons hlast]
      split
      · rw [List.flatten_cons, ih]
        rfl
      · rw [ih, List.append_assoc]
        rfl

variable (threshold) in
theorem splitSpans_ne_nil (rest : List (TextSpan α)) : ∀ current,
    ∀ group ∈ splitSpans threshold current rest, group ≠ [] := by
  induction rest with
  | nil =>
    intro current group hgroup
    by_cases h : current = []
    · rw [h] at hgroup
      cases hgroup
    · rw [splitSpans_nil h, List.mem_singleton] at hgroup
      rwa [hgroup]
  | cons span rest ih =>
    intro current group hgroup
    cases hlast : current.getLast? with
    | none =>
      rw [List.getLast?_eq_none_iff.mp hlast, splitSpans_nil_cons] at hgroup
      exact ih [span] group hgroup
    | some last =>
      rw [splitSpans_cons hlast] at hgroup
      split at hgroup
      · rcases List.mem_cons.mp hgroup with rfl | hgroup
        · rintro rfl
          cases hlast
        · exact ih [span] group hgroup
      · exact ih _ group hgroup

variable (threshold) in
/-- The first group starts with the current spans. -/
theorem splitSpans_head (rest : List (TextSpan α)) : ∀ {current : List (TextSpan α)},
    current ≠ [] → ∃ more groups, splitSpans threshold current rest = (current ++ more) :: groups ∧
      ∀ span ∈ more, span ∈ rest := by
  induction rest with
  | nil =>
    intro current h
    exact ⟨[], [], by rw [splitSpans_nil h, List.append_nil], fun _ hspan => hspan⟩
  | cons span rest ih =>
    intro current h
    obtain ⟨last, hlast⟩ := Option.isSome_iff_exists.mp (List.getLast?_isSome.mpr h)
    rw [splitSpans_cons hlast]
    split
    · exact ⟨[], _, by rw [List.append_nil], fun _ hspan => absurd hspan List.not_mem_nil⟩
    · obtain ⟨more, groups, heq, hmore⟩ := ih (List.append_ne_nil_of_right_ne_nil current
        (List.cons_ne_nil span []))
      refine ⟨span :: more, groups, by rw [heq, List.append_assoc]; rfl, fun next hnext => ?_⟩
      exact List.mem_cons.mpr ((List.mem_cons.mp hnext).imp_right (hmore next))

end Groups

/-! ## Wide gaps -/

section Gaps

/-- Every span of the second group starts more than the threshold behind all of the first. -/
def GroupsApart (threshold : ℚ) (left right : List (TextSpan ℚ)) : Prop :=
  ∀ e ∈ left, ∀ span ∈ right, threshold < span.bbox.x0 - e.bbox.x1

/-- Behind `earlier`, a span that lies apart from the span before it lies apart from all spans
before it. -/
def GapsClear (threshold : ℚ) (earlier rest : List (TextSpan ℚ)) : Prop :=
  ∀ front span back, rest = front ++ span :: back → ∀ last ∈ (earlier ++ front).getLast?,
    threshold < span.bbox.x0 - last.bbox.x1 →
    ∀ e ∈ earlier ++ front, threshold < span.bbox.x0 - e.bbox.x1

variable {threshold : ℚ} {earlier rest : List (TextSpan ℚ)} {span last : TextSpan ℚ}

theorem gapsClear_nil (threshold : ℚ) (earlier : List (TextSpan ℚ)) :
    GapsClear threshold earlier [] := by
  intro front span back h
  simp at h

theorem gapsClear_cons (hlast : earlier.getLast? = some last) :
    GapsClear threshold earlier (span :: rest) ↔
      (threshold < span.bbox.x0 - last.bbox.x1 →
        ∀ e ∈ earlier, threshold < span.bbox.x0 - e.bbox.x1) ∧
      GapsClear threshold (earlier ++ [span]) rest := by
  constructor
  · intro h
    refine ⟨fun hgap => ?_, fun front next back heq => ?_⟩
    · have hfirst := h [] span rest rfl last (by rw [List.append_nil]; exact hlast) hgap
      rwa [List.append_nil] at hfirst
    · have hnext := h (span :: front) next back (by rw [heq]; rfl)
      rwa [show earlier ++ span :: front = earlier ++ [span] ++ front by simp] at hnext
  · rintro ⟨hfirst, hrest⟩ front next back heq
    cases front with
    | nil =>
      obtain ⟨rfl, rfl⟩ := List.cons.inj heq
      rw [List.append_nil]
      intro last' hlast' hgap
      rw [hlast] at hlast'
      obtain rfl := Option.some.inj hlast'
      exact hfirst hgap
    | cons first front =>
      obtain ⟨rfl, hback⟩ := List.cons.inj heq
      rw [show earlier ++ span :: front = earlier ++ [span] ++ front by simp]
      exact hrest front next back hback

/-- Spans that lie apart from all that follow do not matter. -/
theorem gapsClear_append {front : List (TextSpan ℚ)} (hne : earlier ≠ [])
    (hfront : ∀ e ∈ front, ∀ span ∈ rest, threshold < span.bbox.x0 - e.bbox.x1) :
    GapsClear threshold (front ++ earlier) rest ↔ GapsClear threshold earlier rest := by
  have hlast : ∀ l : List (TextSpan ℚ), (front ++ earlier ++ l).getLast? =
      (earlier ++ l).getLast? := by
    intro l
    rw [List.append_assoc, List.getLast?_append_of_ne_nil]
    exact List.append_ne_nil_of_left_ne_nil hne l
  unfold GapsClear
  constructor
  · intro h mid next back heq last hl hgap e he
    refine h mid next back heq last (by rw [hlast]; exact hl) hgap e ?_
    rw [List.append_assoc]
    exact List.mem_append_right front he
  · intro h mid next back heq last hl hgap e he
    rw [List.append_assoc] at he
    rcases List.mem_append.mp he with he | he
    · exact hfront e he next (by rw [heq]; simp)
    · exact h mid next back heq last (by rw [← hlast]; exact hl) hgap e he

/-- **Groups of sorted spans** lie apart exactly when the gaps are clear. -/
theorem splitSpans_isChain_iff (rest : List (TextSpan ℚ)) : ∀ {current : List (TextSpan ℚ)},
    current ≠ [] → (current ++ rest).Pairwise (fun a b => a.bbox.x0 ≤ b.bbox.x0) →
    ((splitSpans threshold current rest).IsChain (GroupsApart threshold) ↔
      GapsClear threshold current rest) := by
  induction rest with
  | nil =>
    intro current h _
    rw [splitSpans_nil h]
    exact iff_of_true (List.IsChain.singleton current) (gapsClear_nil threshold current)
  | cons span rest ih =>
    intro current h hsorted
    obtain ⟨last, hlast⟩ := Option.isSome_iff_exists.mp (List.getLast?_isSome.mpr h)
    have hassoc : current ++ span :: rest = current ++ [span] ++ rest := by simp
    rw [splitSpans_cons hlast, gapsClear_cons hlast]
    split
    next hgap =>
      obtain ⟨-, hsorted', -⟩ := List.pairwise_append.mp hsorted
      have hbehind := (List.pairwise_cons.mp hsorted').1
      have hclear : ∀ e : TextSpan ℚ, threshold < span.bbox.x0 - e.bbox.x1 → ∀ next ∈ rest,
          threshold < next.bbox.x0 - e.bbox.x1 := fun e he next hnext =>
        he.trans_le (sub_le_sub_right (hbehind next hnext) e.bbox.x1)
      obtain ⟨more, groups, heq, hmore⟩ := splitSpans_head threshold rest
        (List.cons_ne_nil span [])
      have happart : GroupsApart threshold current ([span] ++ more) ↔
          ∀ e ∈ current, threshold < span.bbox.x0 - e.bbox.x1 := by
        constructor
        · exact fun h e he => h e he span (List.mem_append_left _ (List.mem_singleton_self span))
        · intro h e he next hnext
          rcases List.mem_cons.mp hnext with rfl | hnext
          · exact h e he
          · exact hclear e (h e he) next (hmore next hnext)
      have hchain := ih (List.cons_ne_nil span []) hsorted'
      rw [heq] at hchain ⊢
      rw [List.isChain_cons_cons, happart, hchain]
      constructor
      · rintro ⟨hfirst, hrest⟩
        exact ⟨fun _ => hfirst, (gapsClear_append (List.cons_ne_nil _ _) fun e he =>
          hclear e (hfirst e he)).mpr hrest⟩
      · rintro ⟨hfirst, hrest⟩
        exact ⟨hfirst hgap, (gapsClear_append (List.cons_ne_nil _ _) fun e he =>
          hclear e (hfirst hgap e he)).mp hrest⟩
    next hjoin =>
      rw [ih (List.append_ne_nil_of_right_ne_nil _ (List.cons_ne_nil _ _)) (hassoc ▸ hsorted)]
      exact (and_iff_right fun hgap => absurd hgap hjoin).symm

end Gaps

/-! ## Cells -/

section Cells

variable {threshold : ℚ} {spans : List (TextSpan ℚ)}

/-- The box of spans that grows from a box. -/
theorem expand_spans (spans : List (TextSpan ℚ)) : ∀ (bbox : BBox ℚ) (t : ℚ),
    ((spans.foldl (fun bbox span => expandBBox bbox span.bbox) bbox).x1 < t ↔
      bbox.x1 < t ∧ ∀ e ∈ spans, e.bbox.x1 < t) ∧
    (t < (spans.foldl (fun bbox span => expandBBox bbox span.bbox) bbox).x0 ↔
      t < bbox.x0 ∧ ∀ e ∈ spans, t < e.bbox.x0) := by
  induction spans with
  | nil => exact fun _ _ => ⟨by simp, by simp⟩
  | cons span spans ih =>
    intro bbox t
    obtain ⟨hright, hleft⟩ := ih (expandBBox bbox span.bbox) t
    have hx1 : (expandBBox bbox span.bbox).x1 = max bbox.x1 span.bbox.x1 := double_max _ _
    have hx0 : (expandBBox bbox span.bbox).x0 = min bbox.x0 span.bbox.x0 := double_min _ _
    rw [hx1, max_lt_iff] at hright
    rw [hx0, lt_min_iff] at hleft
    simp only [List.foldl_cons, List.forall_mem_cons, hright, hleft, and_assoc, and_self]

/-- Two cells lie apart when all their spans do. -/
theorem cells_apart_iff {left right : List (TextSpan ℚ)} (hleft : left ≠ []) (hright : right ≠ [])
    (row i j : Int) :
    threshold < (makeCell right row j).bbox.x0 - (makeCell left row i).bbox.x1 ↔
      GroupsApart threshold left right := by
  obtain ⟨e, left, rfl⟩ := List.exists_cons_of_ne_nil hleft
  obtain ⟨first, right, rfl⟩ := List.exists_cons_of_ne_nil hright
  have hx1 : ∀ t, ((e :: left).foldl (fun bbox span => expandBBox bbox span.bbox) e.bbox).x1 < t ↔
      ∀ e' ∈ e :: left, e'.bbox.x1 < t := by
    intro t
    rw [(expand_spans (e :: left) e.bbox t).1, List.forall_mem_cons, and_self_left]
  have hx0 : ∀ t, t < ((first :: right).foldl (fun bbox span => expandBBox bbox span.bbox)
      first.bbox).x0 ↔ ∀ span ∈ first :: right, t < span.bbox.x0 := by
    intro t
    rw [(expand_spans (first :: right) first.bbox t).2, List.forall_mem_cons, and_self_left]
  show threshold < ((first :: right).foldl (fun bbox span => expandBBox bbox span.bbox)
      first.bbox).x0 - ((e :: left).foldl (fun bbox span => expandBBox bbox span.bbox) e.bbox).x1 ↔ _
  rw [lt_sub_comm, hx1]
  unfold GroupsApart
  refine forall₂_congr fun e' _ => ?_
  rw [lt_sub_iff_add_lt, hx0]
  refine forall₂_congr fun span _ => ?_
  rw [lt_sub_iff_add_lt, add_comm]

/-- Neighbouring cells lie apart when their groups do. -/
theorem cells_isChain_iff (row : Int) (groups : List (List (TextSpan ℚ))) :
    ∀ n : Nat, (∀ group ∈ groups, group ≠ []) →
    (((groups.zipIdx n).map fun p => makeCell p.1 row p.2).IsChain
      (fun a b => threshold < b.bbox.x0 - a.bbox.x1) ↔ groups.IsChain (GroupsApart threshold)) := by
  induction groups with
  | nil => exact fun _ _ => iff_of_true .nil .nil
  | cons left groups ih =>
    intro n hne
    obtain ⟨hleft, hgroups⟩ := List.forall_mem_cons.mp hne
    cases groups with
    | nil => exact iff_of_true (.singleton _) (.singleton _)
    | cons right groups =>
      have hrest := ih (n + 1) hgroups
      rw [List.zipIdx_cons, List.map_cons, List.zipIdx_cons, List.map_cons,
        List.isChain_cons_cons, List.isChain_cons_cons,
        cells_apart_iff hleft (hgroups right (List.mem_cons_self ..))]
      rw [List.zipIdx_cons, List.map_cons] at hrest
      rw [hrest]

/-- Cells of groups of spans: the spans of the line, each in one group, from left to right. -/
def PartitionsLine (line : TextLine ℚ) (rowIndex : Int) (cells : List (TableCell ℚ)) : Prop :=
  ∃ groups : List (List (TextSpan ℚ)),
    cells = groups.zipIdx.map (fun p => makeCell p.1 rowIndex p.2) ∧
    (∀ group ∈ groups, group ≠ []) ∧ groups.flatten.Perm (cellSpans line) ∧
    groups.flatten.Pairwise fun a b => a.bbox.x0 ≤ b.bbox.x0

/-- Neighbouring cells lie apart by more than the threshold. -/
def CellsApart (line : TextLine ℚ) (cells : List (TableCell ℚ)) : Prop :=
  cells.IsChain fun a b => gapThreshold line < b.bbox.x0 - a.bbox.x1

variable {sort : List (TextSpan ℚ) → List (TextSpan ℚ)} {line : TextLine ℚ}

theorem cellsFromLine_eq (hsort : SortsByLeftEdge sort) (hspans : cellSpans line ≠ [])
    (rowIndex : Int) : cellsFromLine sort line rowIndex =
      (splitSpans (gapThreshold line) [] (sort (cellSpans line))).zipIdx.map
        fun p => makeCell p.1 rowIndex p.2 := by
  have hne : sort (cellSpans line) ≠ [] := fun hnil =>
    hspans ((hnil ▸ hsort.perm (cellSpans line)).symm.eq_nil)
  unfold cellsFromLine
  dsimp only
  rw [if_neg (by simpa using hne)]

theorem cellsFromLine_partitions (hsort : SortsByLeftEdge sort) (hspans : cellSpans line ≠ [])
    (rowIndex : Int) : PartitionsLine line rowIndex (cellsFromLine sort line rowIndex) := by
  refine ⟨_, cellsFromLine_eq hsort hspans rowIndex, splitSpans_ne_nil _ _ [], ?_, ?_⟩
  · rw [splitSpans_flatten, List.nil_append]
    exact hsort.perm _
  · rw [splitSpans_flatten, List.nil_append]
    exact (hsort.sorted _).imp fun h => not_lt.mp h

theorem cellsFromLine_columns (hsort : SortsByLeftEdge sort) (hspans : cellSpans line ≠ [])
    (rowIndex : Int) : (cellsFromLine sort line rowIndex).map (·.columnIndex) =
      (List.range (cellsFromLine sort line rowIndex).length).map Int.ofNat := by
  rw [cellsFromLine_eq hsort hspans, List.map_map, List.length_map, List.length_zipIdx,
    List.range_eq_range', ← List.zipIdx_map_snd 0, List.map_map]
  rfl

/-- **The cells of a line** partition its spans, in the order of the columns. They lie apart
exactly when every span that starts behind a wide gap from the span before it also does so from
all spans before that one. -/
theorem cells_partition_line_iff (hsort : SortsByLeftEdge sort) (hspans : cellSpans line ≠ [])
    (rowIndex : Int) :
    (PartitionsLine line rowIndex (cellsFromLine sort line rowIndex) ∧
      (cellsFromLine sort line rowIndex).map (·.columnIndex) =
        (List.range (cellsFromLine sort line rowIndex).length).map Int.ofNat ∧
      CellsApart line (cellsFromLine sort line rowIndex)) ↔
    ∀ front last span back, sort (cellSpans line) = front ++ last :: span :: back →
      gapThreshold line < span.bbox.x0 - last.bbox.x1 →
      ∀ e ∈ front, gapThreshold line < span.bbox.x0 - e.bbox.x1 := by
  rw [and_iff_right (cellsFromLine_partitions hsort hspans rowIndex),
    and_iff_right (cellsFromLine_columns hsort hspans rowIndex)]
  have hsorted := (hsort.sorted (cellSpans line)).imp fun {a b} h => not_lt.mp h
  unfold CellsApart
  rw [cellsFromLine_eq hsort hspans, cells_isChain_iff rowIndex _ 0 (splitSpans_ne_nil _ _ [])]
  cases hcase : sort (cellSpans line) with
  | nil => exact absurd ((hcase ▸ hsort.perm (cellSpans line)).symm.eq_nil) hspans
  | cons first rest =>
    rw [hcase] at hsorted
    rw [splitSpans_nil_cons, splitSpans_isChain_iff rest (List.cons_ne_nil first []) hsorted]
    constructor
    · intro h front last span back heq hgap e he
      cases front with
      | nil => cases he
      | cons first' front =>
        obtain ⟨rfl, hrest⟩ := List.cons.inj heq
        have hlast : ([first] ++ (front ++ [last])).getLast? = some last := by
          rw [← List.append_assoc, List.getLast?_concat]
        refine h (front ++ [last]) span back (by rw [hrest]; simp) last hlast hgap e ?_
        rw [← List.append_assoc]
        exact List.mem_append_left [last] he
    · intro h front span back heq last hlast hgap e he
      obtain ⟨front', hfront⟩ := List.getLast?_eq_some_iff.mp hlast
      rw [hfront] at he
      rcases List.mem_append.mp he with he | he
      · refine h front' last span back ?_ hgap e he
        rw [heq, ← List.cons_append, show first :: front = [first] ++ front from rfl, hfront]
        simp
      · rw [List.mem_singleton.mp he]
        exact hgap

/-! ## A span inside another one -/

/-- The stable sort is one that `std::sort` may be. -/
def sortByLeftEdge (spans : List (TextSpan ℚ)) : List (TextSpan ℚ) :=
  sortBy (fun lhs rhs => decide (lhs.bbox.x0 < rhs.bbox.x0)) spans

theorem sortsByLeftEdge : SortsByLeftEdge sortByLeftEdge where
  perm spans := sortBy_perm _ spans
  sorted spans := by
    refine (sortBy_sorted (P := fun _ => True) (strictWeakOn_decide fun span : TextSpan ℚ =>
      span.bbox.x0) fun _ _ => trivial).imp fun {a b} h => ?_
    simpa using h

def wordBetween (text : String) (x0 x1 : ℚ) : TextSpan ℚ :=
  ⟨text, ⟨x0, 0, x1, 10⟩, .pdfTextLayer, 1⟩

def lineOf (spans : List (TextSpan ℚ)) : TextLine ℚ :=
  ⟨"", ⟨0, 0, 100, 10⟩, .pdfTextLayer, 1, spans⟩

/-- The second word is inside the first one, and far from the third. -/
def nestedLine : TextLine ℚ :=
  lineOf [wordBetween "Total amount" 0 100, wordBetween "due" 10 20, wordBetween "5" 50 60]

/-- The third word makes a cell that lies inside the first one. -/
theorem nestedLine_cells_overlap : cellSpans nestedLine ≠ [] ∧
    (cellsFromLine sortByLeftEdge nestedLine 0).map (·.bbox) =
      [⟨0, 0, 100, 10⟩, ⟨50, 0, 60, 10⟩] ∧
    ¬ CellsApart nestedLine (cellsFromLine sortByLeftEdge nestedLine 0) := by
  unfold CellsApart
  decide +kernel

def twoWordLine : TextLine ℚ := lineOf [wordBetween "5" 60 80, wordBetween "Total" 0 20]

/-- No span is before the two that are apart. -/
theorem twoWordLine_cells_partition : cellSpans twoWordLine ≠ [] ∧
    PartitionsLine twoWordLine 0 (cellsFromLine sortByLeftEdge twoWordLine 0) ∧
      (cellsFromLine sortByLeftEdge twoWordLine 0).map (·.bbox) =
        [⟨0, 0, 20, 10⟩, ⟨60, 0, 80, 10⟩] ∧
      CellsApart twoWordLine (cellsFromLine sortByLeftEdge twoWordLine 0) := by
  have hspans : cellSpans twoWordLine ≠ [] := by decide +kernel
  have hlength : (sortByLeftEdge (cellSpans twoWordLine)).length = 2 := by decide +kernel
  obtain ⟨hpartition, -, hapart⟩ :=
    (cells_partition_line_iff sortsByLeftEdge hspans 0).mpr fun front last span back heq _ => by
      rw [heq, List.length_append, List.length_cons, List.length_cons] at hlength
      obtain rfl : front = [] := List.eq_nil_of_length_eq_zero (by omega)
      exact fun e he => absurd he List.not_mem_nil
  exact ⟨hspans, hpartition, by decide +kernel, hapart⟩

end Cells

end DocParser.TextTable
