import Mathlib.Data.List.Basic

/-!
# JSON values

Values whose numbers are of any type. An object is the list of its members in the order in which
they were put in; a writer may sort them. The lemmas compute `field` after `set`, which is all
that a proof about a built object needs.
-/

inductive Json (α : Type) where
  | null
  | bool (b : Bool)
  | int (n : Int)
  | number (x : α)
  | string (s : String)
  | array (elements : List (Json α))
  | object (members : List (String × Json α))

namespace Json

variable {α : Type}

/-- The member of an object. -/
def field (key : String) : Json α → Option (Json α)
  | .object members => members.lookup key
  | _ => none

/-- The elements of an array. -/
def elements : Json α → List (Json α)
  | .array elements => elements
  | _ => []

/-- The elements of the array under a key, none when it is missing. -/
def list (key : String) (value : Json α) : List (Json α) := ((value.field key).map elements).getD []

/-- `value[key] = x` for a key that the object does not have yet. -/
def set (value : Json α) (key : String) (x : Json α) : Json α :=
  match value with
  | .object members => .object (members ++ [(key, x)])
  | value => value

/-- `value[key] = x` under a condition. -/
def setIf (value : Json α) (condition : Bool) (key : String) (x : Json α) : Json α :=
  if condition then value.set key x else value

def isObject : Json α → Bool
  | .object _ => true
  | _ => false

@[simp] theorem elements_array (l : List (Json α)) : (Json.array l).elements = l := rfl

@[simp] theorem field_object_nil (key : String) : (Json.object [] : Json α).field key = none := rfl

@[simp] theorem field_object_cons (key key' : String) (x : Json α)
    (members : List (String × Json α)) :
    (Json.object ((key', x) :: members)).field key =
      if key = key' then some x else (Json.object members).field key := by
  show ((key', x) :: members).lookup key = if key = key' then some x else members.lookup key
  rw [List.lookup_cons]
  by_cases h : key = key'
  · simp [h]
  · rw [if_neg h, beq_eq_false_iff_ne.mpr h]

@[simp] theorem isObject_object (members : List (String × Json α)) :
    (Json.object members).isObject = true := rfl

@[simp] theorem isObject_set (key : String) (x value : Json α) :
    (value.set key x).isObject = value.isObject := by
  cases value <;> rfl

@[simp] theorem isObject_setIf (c : Bool) (key : String) (x value : Json α) :
    (value.setIf c key x).isObject = value.isObject := by
  unfold setIf
  split
  · exact isObject_set key x value
  · rfl

/-- Putting a member in hides no other member, and the new one is found when it was missing. -/
theorem field_set {key key' : String} {x value : Json α} (hobject : value.isObject = true) :
    (value.set key' x).field key =
      ((value.field key).orElse fun _ => if key = key' then some x else none) := by
  cases value with
  | object members =>
    show (members ++ [(key', x)]).lookup key = ((members.lookup key).orElse fun _ => _)
    rw [List.lookup_append]
    by_cases h : key = key'
    · simp [h]
    · rw [if_neg h, List.lookup_cons, beq_eq_false_iff_ne.mpr h]
      cases members.lookup key <;> rfl
  | _ => cases hobject

theorem field_set_ne {key key' : String} (h : key ≠ key') (x value : Json α) :
    (value.set key' x).field key = value.field key := by
  cases value with
  | object members =>
    show (members ++ [(key', x)]).lookup key = members.lookup key
    rw [List.lookup_append, List.lookup_cons, beq_eq_false_iff_ne.mpr h]
    simp
  | _ => rfl

theorem field_setIf_ne {key key' : String} (h : key ≠ key') (c : Bool) (x value : Json α) :
    (value.setIf c key' x).field key = value.field key := by
  unfold setIf
  split
  · exact field_set_ne h x value
  · rfl

theorem field_setIf_self {key : String} {value : Json α} (hobject : value.isObject = true)
    (hmissing : value.field key = none) (c : Bool) (x : Json α) :
    (value.setIf c key x).field key = if c then some x else none := by
  unfold setIf
  split
  · rw [field_set hobject, hmissing, if_pos rfl]
    rfl
  · exact hmissing

theorem list_setIf_ne {key key' : String} (h : key ≠ key') (c : Bool) (x value : Json α) :
    (value.setIf c key' x).list key = value.list key := by
  unfold list
  rw [field_setIf_ne h]

/-- An array that is put in unless it is empty is read back in either case. -/
theorem list_setIf_self {key : String} {value : Json α} (hobject : value.isObject = true)
    (hmissing : value.field key = none) {c : Bool} {l : List (Json α)} (hc : c = false → l = []) :
    (value.setIf c key (.array l)).list key = l := by
  unfold list
  rw [field_setIf_self hobject hmissing]
  cases c with
  | false => rw [hc rfl]; rfl
  | true => rfl

theorem list_of_field {key : String} {value : Json α} {l : List (Json α)}
    (h : value.field key = some (.array l)) : value.list key = l := by
  unfold list
  rw [h]
  rfl

end Json
