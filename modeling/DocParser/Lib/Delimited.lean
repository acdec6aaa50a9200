import Mathlib

/-!
# Delimited text

A line is cut into fields at a separator, and an escape in front of a separator makes it a part of
its field. A run of escapes counts by its parity: the escapes of a run of even length escape each
other.

`unescaped_escape`: a text whose separators are escaped one by one, and whose escapes are left as
they are, has one separator for each one that was escaped before.
-/

namespace Delimited

variable {σ : Type} [DecidableEq σ] (sep esc : σ)

/-- Whether an odd number of escapes stands at the end of a text, from a state before it. -/
def parity (odd : Bool) (text : List σ) : Bool :=
  text.foldl (fun odd c => decide (c = esc) && !odd) odd

/-- The number of separators behind an even number of escapes. -/
def unescaped : Bool → List σ → Nat
  | _, [] => 0
  | odd, c :: rest =>
    (if c = sep ∧ odd = false then 1 else 0) + unescaped (decide (c = esc) && !odd) rest

/-- The number of separators behind an odd number of escapes. -/
def escaped : Bool → List σ → Nat
  | _, [] => 0
  | odd, c :: rest =>
    (if c = sep ∧ odd = true then 1 else 0) + escaped (decide (c = esc) && !odd) rest

/-- The parts of a text between its unescaped separators. -/
def fields : Bool → List σ → List (List σ)
  | _, [] => [[]]
  | odd, c :: rest =>
    if c = sep ∧ odd = false then [] :: fields false rest
    else (fields (decide (c = esc) && !odd) rest).modifyHead (c :: ·)

/-- Parts with a separator behind each of them. -/
def terminated (parts : List (List σ)) : List σ := parts.flatMap (· ++ [sep])

/-! ## Parity -/

section Parity

variable {sep esc}

@[simp] theorem parity_nil (odd : Bool) : parity esc odd [] = odd := rfl

theorem parity_cons (odd : Bool) (c : σ) (text : List σ) :
    parity esc odd (c :: text) = parity esc (decide (c = esc) && !odd) text := rfl

theorem parity_append (odd : Bool) (front back : List σ) :
    parity esc odd (front ++ back) = parity esc (parity esc odd front) back := by
  unfold parity; rw [List.foldl_append]

theorem parity_concat {odd : Bool} {text : List σ} {c : σ} (hc : c ≠ esc) :
    parity esc odd (text ++ [c]) = false := by
  rw [parity_append, parity_cons, decide_eq_false hc]
  rfl

/-- The state is the parity of the run of escapes at the end. -/
theorem parity_eq (text : List σ) : parity esc false text =
    decide ((text.reverse.takeWhile fun c => decide (c = esc)).length % 2 = 1) := by
  induction text using List.reverseRecOn with
  | nil => simp
  | append_singleton text c ih =>
    rw [List.reverse_append, List.reverse_singleton, List.singleton_append, List.takeWhile_cons]
    by_cases hc : c = esc
    · rw [parity_append, ih, parity_cons, parity_nil, decide_eq_true hc, if_pos rfl,
        List.length_cons, Bool.true_and, ← decide_not]
      exact decide_eq_decide.mpr (by omega)
    · rw [parity_concat hc, decide_eq_false hc, if_neg (by simp)]
      rfl

end Parity

/-! ## Counts -/

section Counts

variable {sep esc}

theorem unescaped_append (front back : List σ) : ∀ odd,
    unescaped sep esc odd (front ++ back) =
      unescaped sep esc odd front + unescaped sep esc (parity esc odd front) back := by
  induction front with
  | nil => intro odd; simp [unescaped]
  | cons c front ih =>
    intro odd
    rw [List.cons_append, unescaped, unescaped, ih, parity_cons]
    omega

theorem escaped_append (front back : List σ) : ∀ odd,
    escaped sep esc odd (front ++ back) =
      escaped sep esc odd front + escaped sep esc (parity esc odd front) back := by
  induction front with
  | nil => intro odd; simp [escaped]
  | cons c front ih =>
    intro odd
    rw [List.cons_append, escaped, escaped, ih, parity_cons]
    omega

theorem unescaped_of_notMem {text : List σ} (h : sep ∉ text) : ∀ odd,
    unescaped sep esc odd text = 0 := by
  induction text with
  | nil => intro odd; rfl
  | cons c text ih =>
    intro odd
    rw [List.mem_cons, not_or] at h
    rw [unescaped, if_neg fun hc => h.1 hc.1.symm, ih h.2]

/-- A text has an escaped separator when one stands behind an odd number of escapes. -/
theorem escaped_ne_zero {text : List σ} {odd : Bool} : escaped sep esc odd text ≠ 0 ↔
    ∃ front back, text = front ++ sep :: back ∧ parity esc odd front = true := by
  constructor
  · intro h
    induction text generalizing odd with
    | nil => exact absurd rfl h
    | cons c text ih =>
      by_cases hc : c = sep ∧ odd = true
      · exact ⟨[], text, by rw [hc.1]; rfl, hc.2⟩
      · rw [escaped, if_neg hc, Nat.zero_add] at h
        obtain ⟨front, back, rfl, hodd⟩ := ih h
        exact ⟨c :: front, back, rfl, hodd⟩
  · rintro ⟨front, back, rfl, hodd⟩
    rw [escaped_append, hodd, escaped, if_pos ⟨rfl, rfl⟩]
    omega

theorem unescaped_terminated (hne : sep ≠ esc) {parts : List (List σ)}
    (h : ∀ part ∈ parts, parity esc false part = false) :
    unescaped sep esc false (terminated sep parts) =
      (parts.map (unescaped sep esc false)).sum + parts.length := by
  induction parts with
  | nil => rfl
  | cons part parts ih =>
    have hpart := h part (List.mem_cons_self ..)
    have hrest := ih fun other hother => h other (List.mem_cons_of_mem _ hother)
    unfold terminated at hrest ⊢
    rw [List.flatMap_cons, unescaped_append, unescaped_append, parity_concat hne, hpart, hrest,
      List.map_cons, List.sum_cons, List.length_cons]
    simp only [unescaped, and_self, if_true]
    omega

end Counts

/-! ## Fields -/

section Fields

variable {sep esc}


/-- Splitting takes a field without separators off the text. -/
theorem fields_append {part : List σ} (back : List σ) : ∀ {odd},
    unescaped sep esc odd part = 0 → parity esc odd part = false →
    fields sep esc odd (part ++ sep :: back) = part :: fields sep esc false back := by
  induction part with
  | nil =>
    intro odd _ hodd
    rw [List.nil_append, fields, if_pos ⟨rfl, hodd⟩]
  | cons c part ih =>
    intro odd hcount hodd
    rw [unescaped] at hcount
    have hc : ¬(c = sep ∧ odd = false) := fun hc => by rw [if_pos hc] at hcount; omega
    have hrest : unescaped sep esc (decide (c = esc) && !odd) part = 0 := by omega
    rw [List.cons_append, fields, if_neg hc, ih hrest hodd]
    rfl

theorem fields_terminated {parts : List (List σ)}
    (hcount : ∀ part ∈ parts, unescaped sep esc false part = 0)
    (hodd : ∀ part ∈ parts, parity esc false part = false) :
    fields sep esc false (terminated sep parts) = parts ++ [[]] := by
  induction parts with
  | nil => rfl
  | cons part parts ih =>
    have hpart := fields_append (terminated sep parts) (hcount part (List.mem_cons_self ..))
      (hodd part (List.mem_cons_self ..))
    have hrest := ih (fun other h => hcount other (List.mem_cons_of_mem _ h))
      fun other h => hodd other (List.mem_cons_of_mem _ h)
    unfold terminated at hpart hrest ⊢
    rw [List.flatMap_cons, List.append_assoc, List.singleton_append, hpart, hrest,
      List.cons_append]

end Fields

/-! ## Escaping -/

section Escaping

variable {sep esc} {replace : σ → List σ}

theorem parity_of_notMem {text : List σ} (hne : text ≠ []) (h : esc ∉ text) (odd : Bool) :
    parity esc odd text = false := by
  rcases List.eq_nil_or_concat' text with rfl | ⟨front, c, rfl⟩
  · exact absurd rfl hne
  · exact parity_concat fun hc => h (by simp [hc])

/-- **Escaping.** A separator that was escaped already is not escaped any more. -/
theorem unescaped_escape (hne : sep ≠ esc) (hsep : replace sep = [esc, sep])
    (hesc : replace esc = [esc])
    (hother : ∀ c, c ≠ sep → c ≠ esc → replace c ≠ [] ∧ sep ∉ replace c ∧ esc ∉ replace c)
    (text : List σ) : ∀ odd,
    unescaped sep esc odd (text.flatMap replace) = escaped sep esc odd text ∧
      parity esc odd (text.flatMap replace) = parity esc odd text := by
  induction text with
  | nil => intro odd; exact ⟨rfl, rfl⟩
  | cons c text ih =>
    intro odd
    -- one character adds its separator and leaves the state of the original
    have hstep : unescaped sep esc odd (replace c) = (if c = sep ∧ odd = true then 1 else 0) ∧
        parity esc odd (replace c) = (decide (c = esc) && !odd) := by
      by_cases hc : c = sep
      · subst hc
        rw [hsep, parity_cons, parity_cons, parity_nil, decide_eq_false hne]
        cases odd <;> simp [unescaped, hne.symm]
      · by_cases hce : c = esc
        · subst hce
          rw [hesc, unescaped_of_notMem (by simp [hne]), if_neg (by simp [hc])]
          exact ⟨rfl, by rw [parity_cons, parity_nil]⟩
        · obtain ⟨hnil, hnosep, hnoesc⟩ := hother c hc hce
          rw [unescaped_of_notMem hnosep, parity_of_notMem hnil hnoesc, if_neg (by simp [hc]),
            decide_eq_false hce]
          exact ⟨rfl, rfl⟩
    obtain ⟨hcount, hparity⟩ := ih (decide (c = esc) && !odd)
    rw [List.flatMap_cons, unescaped_append, parity_append, hstep.1, hstep.2, hcount, hparity,
      escaped, parity_cons]
    exact ⟨rfl, rfl⟩

end Escaping

end Delimited
