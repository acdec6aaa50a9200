import DocParser.Common.Sorting
import DocParser.ReadingOrder.Bands

/-!
# Separators

The elements of a group that span all its columns cut it into bands.
`group_cut_at_separators`: they are in the order by position, and another element stands before a
separator exactly when its centre is above that of the separator or of an earlier one.

The loop takes off, at each separator, what is left above it (`orderBands_cut`), so an element is
gone when its centre was above any separator so far.
-/

namespace DocParser.ReadingOrder

open Comparators Document

section Precedence

variable {τ : Type} {l l' : List τ} {a b c : τ}

/-- `a` stands before `b`. -/
def Precedes (l : List τ) (a b : τ) : Prop := ∃ front back, l = front ++ a :: back ∧ b ∈ back

theorem precedes_cons : Precedes (c :: l) a b ↔ (c = a ∧ b ∈ l) ∨ Precedes l a b := by
  constructor
  · rintro ⟨front, back, heq, hb⟩
    cases front with
    | nil =>
      rw [List.nil_append, List.cons.injEq] at heq
      exact Or.inl ⟨heq.1, heq.2 ▸ hb⟩
    | cons d front =>
      rw [List.cons_append, List.cons.injEq] at heq
      exact Or.inr ⟨front, back, heq.2, hb⟩
  · rintro (⟨rfl, hb⟩ | ⟨front, back, rfl, hb⟩)
    · exact ⟨[], l, rfl, hb⟩
    · exact ⟨c :: front, back, rfl, hb⟩

theorem Precedes.mem_right (h : Precedes l a b) : b ∈ l := by
  obtain ⟨front, back, rfl, hb⟩ := h
  exact List.mem_append_right _ (List.mem_cons_of_mem _ hb)

theorem Precedes.mem_left (h : Precedes l a b) : a ∈ l := by
  obtain ⟨front, back, rfl, -⟩ := h
  exact List.mem_append_right _ (List.mem_cons_self ..)

/-- Before an element behind `l` stands what is in `l` and what precedes it behind `l`. -/
theorem precedes_append (hb : b ∉ l) :
    Precedes (l ++ l') a b ↔ (a ∈ l ∧ b ∈ l') ∨ Precedes l' a b := by
  induction l with
  | nil => simp
  | cons c l ih =>
    rw [List.mem_cons, not_or] at hb
    rw [List.cons_append, precedes_cons, ih hb.2, List.mem_append, List.mem_cons, eq_comm (a := c)]
    have hnot : ¬ b ∈ l := hb.2
    tauto

/-- A list cut at `x` and then at the separators behind it: the elements above `x` come first, and
the others are cut by the separators that are left. -/
theorem precedes_cut {above : τ → τ → Prop} {x : τ} {separators remaining band rest : List τ}
    (hxSeparators : x ∉ separators) (hxRemaining : x ∉ remaining)
    (hdisjoint : ∀ y ∈ separators, y ∉ remaining)
    (hband : ∀ i, i ∈ band ↔ i ∈ remaining ∧ above i x)
    (hrest : ∀ i, i ∈ rest ↔ i ∈ separators ∨ i ∈ remaining ∧ ¬ above i x)
    (hcut : ∀ y ∈ separators, ∀ b ∈ remaining, ¬ above b x →
      (Precedes rest b y ↔ ∃ t, (t = y ∨ Precedes separators t y) ∧ above b t)) :
    ∀ y ∈ x :: separators, ∀ b ∈ remaining, Precedes (band ++ x :: rest) b y ↔
      ∃ t, (t = y ∨ Precedes (x :: separators) t y) ∧ above b t := by
  intro y hy b hb
  have hyBand : y ∉ band := fun h => by
    have hrem := ((hband y).mp h).1
    rcases List.mem_cons.mp hy with rfl | hy
    · exact hxRemaining hrem
    · exact hdisjoint y hy hrem
  have hbx : x ≠ b := fun heq => hxRemaining (heq ▸ hb)
  rw [precedes_append hyBand, precedes_cons, hband]
  rcases List.mem_cons.mp hy with rfl | hySep
  · -- the first separator: the band stands before it
    have hyRest : y ∉ rest := fun h => by
      rcases (hrest y).mp h with h | h
      · exact hxSeparators h
      · exact hxRemaining h.1
    have hfirst : ∀ t, ¬ Precedes (y :: separators) t y := by
      intro t ht
      rcases precedes_cons.mp ht with ⟨-, h⟩ | h
      · exact hxSeparators h
      · exact hxSeparators h.mem_right
    constructor
    · rintro (⟨⟨-, habove⟩, -⟩ | ⟨heq, -⟩ | h)
      · exact ⟨y, Or.inl rfl, habove⟩
      · exact absurd heq hbx
      · exact absurd h.mem_right hyRest
    · rintro ⟨t, rfl | ht, habove⟩
      · exact Or.inl ⟨⟨hb, habove⟩, List.mem_cons_self ..⟩
      · exact absurd ht (hfirst t)
  · -- a later separator: what is left is cut by those behind `x`
    have hyRest : y ∈ rest := (hrest y).mpr (Or.inl hySep)
    have hxPrecedes : Precedes (x :: separators) x y := precedes_cons.mpr (Or.inl ⟨rfl, hySep⟩)
    by_cases hbx' : above b x
    · constructor
      · exact fun _ => ⟨x, Or.inr hxPrecedes, hbx'⟩
      · exact fun _ => Or.inl ⟨⟨hb, hbx'⟩, List.mem_cons_of_mem _ hyRest⟩
    · have hcut' := hcut y hySep b hb hbx'
      constructor
      · rintro (⟨⟨-, habove⟩, -⟩ | ⟨heq, -⟩ | h)
        · exact absurd habove hbx'
        · exact absurd heq hbx
        · obtain ⟨t, ht, habove⟩ := hcut'.mp h
          exact ⟨t, ht.imp_right fun h => precedes_cons.mpr (Or.inr h), habove⟩
      · rintro ⟨t, ht, habove⟩
        refine Or.inr (Or.inr (hcut'.mpr ⟨t, ?_, habove⟩))
        rcases ht with rfl | ht
        · exact Or.inl rfl
        · rcases precedes_cons.mp ht with ⟨rfl, -⟩ | ht
          · exact absurd habove hbx'
          · exact Or.inr ht

end Precedence

section Definitions

variable {α : Type} [Double α]

/-- The element spans all columns of the group. -/
def isSeparator (elements : List (PageElement α)) (index : Nat) : Bool :=
  spansAllColumns (elementAt elements index).bbox
    (inferColumns elements (List.range elements.length))

def separatorsOf (elements : List (PageElement α)) : List Nat :=
  (List.range elements.length).filter (isSeparator elements)

/-- The centre of the first element is above that of the second. -/
def Above (elements : List (PageElement α)) (upper lower : Nat) : Prop :=
  centerY (elementAt elements upper).bbox < centerY (elementAt elements lower).bbox

/-- The separators cut the order into bands. -/
structure CutAtSeparators (elements : List (PageElement α)) (order : List Nat) : Prop where
  once : order.Perm (List.range elements.length)
  separators : order.filter (isSeparator elements) =
    sortedByPosition elements (separatorsOf elements)
  sorted : StrictWeakOn (· ∈ separatorsOf elements)
      (fun a b => positionLess (elementAt elements a) (elementAt elements b) = true) →
    (order.filter (isSeparator elements)).Pairwise fun a b =>
      positionLess (elementAt elements b) (elementAt elements a) = false
  cut : ∀ s ∈ separatorsOf elements, ∀ b < elements.length, isSeparator elements b = false →
    (Precedes order b s ↔ ∃ t, (t = s ∨ Precedes (sortedByPosition elements
      (separatorsOf elements)) t s) ∧ Above elements b t)

end Definitions

section Cut

variable {α : Type} [Double α] {elements : List (PageElement α)}

/-- **Run.** What the loop appends is cut at its separators. -/
theorem orderBands_cut (group : String) (columnCount : Nat) (separators : List Nat) :
    ∀ (remaining : List Nat) (s s' : GroupState α), (separators ++ remaining).Nodup →
      orderBands elements group columnCount separators remaining s = some s' →
      ∃ new, s'.order = s.order ++ new ∧ new.Perm (separators ++ remaining) ∧
        (∀ p : Nat → Bool, (∀ i ∈ separators, p i = true) → (∀ i ∈ remaining, p i = false) →
          new.filter p = separators) ∧
        ∀ x ∈ separators, ∀ b ∈ remaining, Precedes new b x ↔
          ∃ t, (t = x ∨ Precedes separators t x) ∧ Above elements b t := by
  induction separators with
  | nil =>
    intro remaining s s' hnodup hrun
    obtain ⟨s₁, hs₁, hadds⟩ := appendBand_spec elements group remaining s
    obtain rfl : s₁ = s' := Option.some.inj (hs₁.symm.trans hrun)
    obtain ⟨new, hnew, hperm⟩ := hadds.order
    refine ⟨new, hnew, hperm, fun p _ hnone => ?_, fun x hx => absurd hx List.not_mem_nil⟩
    rw [List.filter_eq_nil_iff]
    intro i hi
    rw [hnone i (hperm.mem_iff.mp hi)]
    exact Bool.false_ne_true
  | cons x separators ih =>
    intro remaining s s' hnodup hrun
    set above : Nat → Bool := fun index => decide
      (centerY (elementAt elements index).bbox < centerY (elementAt elements x).bbox)
    have hiff : ∀ b, above b = true ↔ Above elements b x := fun b => decide_eq_true_iff
    unfold orderBands at hrun
    dsimp only at hrun
    obtain ⟨s₁, hs₁, hadds⟩ := appendBand_spec elements group (remaining.filter above) s
    rw [hs₁] at hrun
    obtain ⟨band, hband, hbandPerm⟩ := hadds.order
    have hmemBand : ∀ i, i ∈ band ↔ i ∈ remaining ∧ Above elements i x := fun i => by
      rw [hbandPerm.mem_iff, List.mem_filter, hiff]
    rw [List.cons_append, List.nodup_cons, List.mem_append, not_or] at hnodup
    obtain ⟨⟨hxSeparators, hxRemaining⟩, hnodup⟩ := hnodup
    have hdisjoint := (List.nodup_append.mp hnodup).2.2
    have hrestNodup : (separators ++ remaining.filter fun i => !above i).Nodup :=
      hnodup.sublist (List.Sublist.append_left List.filter_sublist _)
    obtain ⟨rest, hrest, hrestPerm, hrestFilter, hrestCut⟩ := ih _ _ _ hrestNodup hrun
    have hmemLeft : ∀ i, i ∈ remaining.filter (fun i => !above i) ↔
        i ∈ remaining ∧ ¬ Above elements i x := fun i => by
      rw [List.mem_filter, Bool.not_eq_true', ← Bool.not_eq_true, hiff]
    have hmemRest : ∀ i, i ∈ rest ↔ i ∈ separators ∨ i ∈ remaining ∧ ¬ Above elements i x :=
      fun i => by rw [hrestPerm.mem_iff, List.mem_append, hmemLeft]
    refine ⟨band ++ x :: rest, ?_, ?_, fun p hsep hrem => ?_, ?_⟩
    · rw [hrest]
      show s₁.order ++ [x] ++ rest = _
      rw [hband]
      simp
    · refine (List.perm_middle.trans (List.Perm.cons x ?_))
      refine ((hbandPerm.append hrestPerm).trans ?_)
      refine (List.perm_append_comm_assoc _ _ _).trans (List.Perm.append_left _ ?_)
      exact List.filter_append_perm above remaining
    · have hbandNone : band.filter p = [] := by
        rw [List.filter_eq_nil_iff]
        intro i hi
        rw [hrem i ((hmemBand i).mp hi).1]
        exact Bool.false_ne_true
      rw [List.filter_append, hbandNone, List.nil_append,
        List.filter_cons_of_pos (hsep x (List.mem_cons_self ..)),
        hrestFilter p (fun i hi => hsep i (List.mem_cons_of_mem _ hi)) fun i hi =>
          hrem i (List.mem_filter.mp hi).1]
    · exact precedes_cut hxSeparators hxRemaining (fun y hy hrem => hdisjoint y hy y hrem rfl)
        hmemBand hmemRest fun y hy b hb hnot => hrestCut y hy b ((hmemLeft b).mpr ⟨hb, hnot⟩)

/-- **Separators.** A group is cut at the elements that span its columns. -/
theorem group_cut_at_separators (elements : List (PageElement α)) (group : String)
    (nextBandIndex : Nat) (trace : ReadingOrderTrace α) :
    ∃ s, predictGroupOrder elements group nextBandIndex trace = some s ∧
      CutAtSeparators elements s.order := by
  obtain ⟨s, hs, hperm, -⟩ := predictGroupOrder_spec elements group nextBandIndex trace
  refine ⟨s, hs, ?_⟩
  have hbefore : s.order.filter (isSeparator elements) =
        sortedByPosition elements (separatorsOf elements) ∧
      ∀ x ∈ separatorsOf elements, ∀ b < elements.length, isSeparator elements b = false →
        (Precedes s.order b x ↔ ∃ t, (t = x ∨ Precedes (sortedByPosition elements
          (separatorsOf elements)) t x) ∧ Above elements b t) := by
    unfold predictGroupOrder at hs
    cases hempty : elements.isEmpty with
    | true =>
      rw [List.isEmpty_iff] at hempty
      subst hempty
      obtain rfl := Option.some.inj hs
      exact ⟨rfl, fun x hx => absurd hx List.not_mem_nil⟩
    | false =>
      rw [if_neg (by simp [hempty])] at hs
      dsimp only at hs
      have hsortPerm : (sortedByPosition elements (separatorsOf elements)).Perm
          (separatorsOf elements) := sortBy_perm _ _
      have hnodup : (sortedByPosition elements (separatorsOf elements) ++
          (List.range elements.length).filter fun i => !isSeparator elements i).Nodup :=
        (((hsortPerm.append_right _).trans (List.filter_append_perm _ _)).nodup_iff).mpr
          List.nodup_range
      obtain ⟨new, hnew, -, hfilter, hcut⟩ := orderBands_cut group _ _ _ _ _ hnodup hs
      rw [List.nil_append] at hnew
      rw [hnew]
      refine ⟨hfilter _ (fun i hi => ?_) (fun i hi => ?_), fun x hx b hb hnot => ?_⟩
      · exact (List.mem_filter.mp (hsortPerm.mem_iff.mp hi)).2
      · simpa using (List.mem_filter.mp hi).2
      · refine hcut x (hsortPerm.mem_iff.mpr hx) b (List.mem_filter.mpr ⟨List.mem_range.mpr hb, ?_⟩)
        rw [hnot]
        rfl
  refine ⟨hperm, hbefore.1, fun hweak => ?_, hbefore.2⟩
  rw [hbefore.1]
  exact sortBy_sorted hweak fun _ h => h

end Cut

/-! ## Exact positions -/

/-- The comparator of the positions, in exact arithmetic. -/
theorem positionLess_strictWeakOn (elements : List (PageElement ℚ)) (P : Nat → Prop) :
    StrictWeakOn P fun a b =>
      positionLess (elementAt elements a) (elementAt elements b) = true := by
  show StrictWeakOn P fun a b =>
    lexBy (fun i => (elementAt elements i).bbox.y0)
      (lexBy (fun i => (elementAt elements i).bbox.x0) fun a b =>
        decide ((elementAt elements a).layoutBlockIndex < (elementAt elements b).layoutBlockIndex))
      a b = true
  exact strictWeakOn_lexBy (strictWeakOn_lexBy
    (strictWeakOn_decide fun i => (elementAt elements i).layoutBlockIndex))

/-- In exact arithmetic the separators ascend by position. -/
theorem separators_ascend {elements : List (PageElement ℚ)} {order : List Nat}
    (h : CutAtSeparators elements order) :
    (order.filter (isSeparator elements)).Pairwise fun a b =>
      positionLess (elementAt elements b) (elementAt elements a) = false :=
  h.sorted (positionLess_strictWeakOn elements _)

/-! ## Separators beside each other -/

def textElement (index : Nat) (bbox : BBox ℚ) : PageElement ℚ :=
  ⟨index, ⟨"b", .text, "", "", bbox, 1, -1, []⟩, bbox⟩

/-- Two columns below a tall and a flat separator. -/
def tallAndFlat : List (PageElement ℚ) :=
  [textElement 0 ⟨0, 0, 210, 40⟩, textElement 1 ⟨0, 10, 210, 20⟩, textElement 2 ⟨0, 50, 100, 90⟩,
    textElement 3 ⟨0, 100, 100, 140⟩, textElement 4 ⟨110, 50, 210, 90⟩,
    textElement 5 ⟨110, 100, 210, 140⟩]

/-- A separator stands before a later one whatever their centres are. -/
theorem tall_separator_first :
    (predictGroupOrder tallAndFlat "body" 0 ⟨"", [], [], []⟩).map (·.order) =
        some [0, 1, 2, 3, 4, 5] ∧
      ¬ ∀ s ∈ separatorsOf tallAndFlat, ∀ b < tallAndFlat.length, b ≠ s →
        (Precedes [0, 1, 2, 3, 4, 5] b s ↔ ∃ t, (t = s ∨ Precedes (sortedByPosition tallAndFlat
          (separatorsOf tallAndFlat)) t s) ∧ Above tallAndFlat b t) := by
  have hseparators : separatorsOf tallAndFlat = [0, 1] := by decide +kernel
  have hsorted : sortedByPosition tallAndFlat [0, 1] = [0, 1] := by decide +kernel
  have htall : ∀ t ∈ [0, 1], ¬ Above tallAndFlat 0 t := by
    unfold Above
    decide +kernel
  refine ⟨by decide +kernel, fun h => ?_⟩
  have hfirst : Precedes [0, 1, 2, 3, 4, 5] 0 1 := ⟨[], [1, 2, 3, 4, 5], rfl, by decide⟩
  rw [hseparators, hsorted] at h
  obtain ⟨t, ht, habove⟩ := (h 1 (by decide) 0 (by decide) (by decide)).mp hfirst
  refine htall t ?_ habove
  rcases ht with rfl | ht
  · decide
  · exact ht.mem_left

end DocParser.ReadingOrder
