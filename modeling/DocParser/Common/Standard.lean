import Mathlib.Data.List.Sort

/-!
# The standard library

Sorting and the character classes of the C locale. Sorting is the stable insertion sort of
`Mathlib`, which agrees with `std::sort` wherever the comparator tells all elements apart.
-/

namespace DocParser

/-- Sorts by a strict comparator. -/
def sortBy {τ : Type} (lt : τ → τ → Bool) (l : List τ) : List τ :=
  l.insertionSort fun a b => lt b a = false

theorem sortBy_perm {τ : Type} (lt : τ → τ → Bool) (l : List τ) : (sortBy lt l).Perm l :=
  List.perm_insertionSort _ l

/-- A search through a list with its indices ends with an index of the list. -/
theorem foldl_zipIdx_lt {σ β : Type} {step : Option Nat × β → σ × Nat → Option Nat × β}
    (hstep : ∀ best p, (step best p).1 = best.1 ∨ (step best p).1 = some p.2) (l : List σ) (b : β)
    {i : Nat} (h : (l.zipIdx.foldl step (none, b)).1 = some i) : i < l.length := by
  refine List.foldlRecOn (motive := fun best : Option Nat × β => ∀ j, best.1 = some j →
    j < l.length) l.zipIdx step (fun j hj => by cases hj) (fun best hbest p hp j hj => ?_) i h
  rcases hstep best p with heq | heq
  · exact hbest j (heq ▸ hj)
  · obtain rfl := Option.some.inj (heq.symm.trans hj)
    simpa using List.snd_lt_add_of_mem_zipIdx hp

theorem map_getD_range {σ : Type} (l : List σ) (d : σ) :
    (List.range l.length).map (fun i => l.getD i d) = l := by
  refine List.ext_getElem (by simp) fun i hi hi' => ?_
  simp [List.getD, hi']

/-! ## Exceptions -/

section Exceptions

variable {ε σ τ : Type}

theorem ok_of_bind {x : Except ε σ} {f : σ → Except ε τ} {b : τ} (h : x >>= f = .ok b) :
    ∃ a, x = .ok a ∧ f a = .ok b := by
  cases x with
  | error e => cases h
  | ok a => exact ⟨a, rfl, h⟩

theorem bind_congr_ok {x : Except ε σ} {f g : σ → Except ε τ} (h : ∀ a, x = .ok a → f a = g a) :
    x >>= f = x >>= g := by
  cases x with
  | error e => rfl
  | ok a => exact h a rfl

end Exceptions

/-! ## First occurrences -/

section FirstOccurrences

variable {τ : Type} [DecidableEq τ]

theorem mem_eraseDups {a : τ} (l : List τ) : a ∈ l.eraseDups ↔ a ∈ l := by
  induction hn : l.length using Nat.strong_induction_on generalizing l with
  | _ n ih =>
    cases l with
    | nil => simp
    | cons b l =>
      have hlt : (l.filter fun x => !x == b).length < n := by
        rw [← hn]
        exact Nat.lt_succ_of_le (List.length_filter_le _ _)
      rw [List.eraseDups_cons, List.mem_cons, List.mem_cons, ih _ hlt _ rfl, List.mem_filter]
      by_cases h : a = b <;> simp [h]

theorem nodup_eraseDups (l : List τ) : l.eraseDups.Nodup := by
  induction hn : l.length using Nat.strong_induction_on generalizing l with
  | _ n ih =>
    cases l with
    | nil => simp
    | cons b l =>
      have hlt : (l.filter fun x => !x == b).length < n := by
        rw [← hn]
        exact Nat.lt_succ_of_le (List.length_filter_le _ _)
      rw [List.eraseDups_cons, List.nodup_cons, mem_eraseDups]
      exact ⟨by simp, ih _ hlt _ rfl⟩

theorem eraseDups_of_nodup {l : List τ} (h : l.Nodup) : l.eraseDups = l := by
  induction l with
  | nil => rfl
  | cons b l ih =>
    obtain ⟨hb, hl⟩ := List.nodup_cons.mp h
    have hfilter : (l.filter fun x => !x == b) = l := by
      refine List.filter_eq_self.mpr fun x hx => ?_
      simpa using fun heq : x = b => hb (heq ▸ hx)
    rw [List.eraseDups_cons, hfilter, ih hl]

end FirstOccurrences

/-! ## Characters -/

/-- `std::isspace`: a blank or one of the controls from tab to carriage return. -/
def isSpace (c : Char) : Bool := c == ' ' || (decide (9 ≤ c.toNat) && decide (c.toNat ≤ 13))

/-- `std::isdigit`. -/
def isDigit (c : Char) : Bool := c.isDigit

/-- `std::isalpha`. -/
def isAlpha (c : Char) : Bool := c.isAlpha

/-- `std::tolower`. -/
def toLower (c : Char) : Char := c.toLower

/-- A text without the white space around it. -/
def trim (text : String) : String :=
  String.ofList ((text.toList.dropWhile isSpace).reverse.dropWhile isSpace).reverse

/-! ## Decimal numerals -/

/-- `std::to_string` of a count is told apart by its characters. -/
theorem toString_nat_inj {m n : Nat} (h : (toString m).toList = (toString n).toList) : m = n := by
  have hdigits : Nat.toDigits 10 m = Nat.toDigits 10 n := by simpa using h
  rw [← Nat.ofDigitChars_ten_toDigits (n := m), hdigits, Nat.ofDigitChars_ten_toDigits]

theorem isDigit_of_mem_toString {n : Nat} {c : Char} (h : c ∈ (toString n).toList) :
    c.isDigit = true := by
  have hdigits : c ∈ Nat.toDigits 10 n := by simpa using h
  exact Nat.isDigit_of_mem_toDigits (by decide) (by decide) hdigits

/-- `std::to_string` of an integer is told apart by its characters. -/
theorem toString_int_inj {m n : Int} (h : (toString m).toList = (toString n).toList) : m = n := by
  have hdigit : ∀ (a b : Nat), (toString a).toList ≠ ("-" ++ toString b).toList := by
    intro a b heq
    have hmem : '-' ∈ (toString a).toList := by
      rw [heq, String.toList_append]
      exact List.mem_append_left _ (by decide)
    exact absurd (isDigit_of_mem_toString hmem) (by decide)
  cases m with
  | ofNat m =>
    cases n with
    | ofNat n => exact congrArg Int.ofNat (toString_nat_inj h)
    | negSucc n => exact absurd h (hdigit m (n + 1))
  | negSucc m =>
    cases n with
    | ofNat n => exact absurd h.symm (hdigit n (m + 1))
    | negSucc n =>
      have hchars : ("-" ++ toString (m + 1)).toList = ("-" ++ toString (n + 1)).toList := h
      rw [String.toList_append, String.toList_append] at hchars
      have := toString_nat_inj (List.append_cancel_left hchars)
      exact congrArg Int.negSucc (Nat.succ.inj this)

/-- A counter behind a separator that is no digit is told apart by the whole text. -/
theorem suffix_counter_inj {front front' : List Char} {c : Char} {m n : Nat}
    (hc : c.isDigit = false)
    (h : front ++ c :: (toString m).toList = front' ++ c :: (toString n).toList) : m = n := by
  have htail : ∀ (l : List Char) (k : Nat),
      (l ++ c :: (toString k).toList).reverse.takeWhile Char.isDigit =
        (toString k).toList.reverse := by
    intro l k
    rw [List.reverse_append, List.reverse_cons, List.append_assoc,
      List.takeWhile_append_of_pos fun x hx => isDigit_of_mem_toString (List.mem_reverse.mp hx)]
    simp [hc]
  refine toString_nat_inj (List.reverse_injective ?_)
  rw [← htail front m, ← htail front' n, h]

end DocParser
