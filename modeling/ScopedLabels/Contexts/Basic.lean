import ScopedLabels.Contexts.Value
import ScopedLabels.Error
import Std.Data.ExtTreeMap

/-!
# Context stacks — one last-in-first-out list under every key

The keys are independent: an operation on one key never touches the list of another. `values` is
the view through which everything is read, the list of a key with its innermost value first; a key
that holds nothing is not kept at all, so a stack is determined by its view.

Reading and popping a key that holds nothing is an error. The typed forms also refuse a value of
another type, and then leave it where it is.
-/

namespace ScopedLabels

/-- Lists of values under keys. -/
structure Contexts where
  lists : Std.ExtTreeMap Text (List Value)
  /-- A key is kept only while it holds a value. -/
  nonempty : ∀ key : Text, lists[key]? ≠ some []

namespace Contexts

/-- No key of the empty map holds anything. -/
theorem getElem?_empty_ne (key : Text) :
    (∅ : Std.ExtTreeMap Text (List Value))[key]? ≠ some [] := by
  rw [Std.ExtTreeMap.getElem?_empty]
  exact nofun

/-- The stack that holds nothing under any key. -/
def empty : Contexts := ⟨∅, getElem?_empty_ne⟩

instance : EmptyCollection Contexts := ⟨empty⟩

/-- The values of a key, innermost first. -/
def values (stack : Contexts) (key : Text) : List Value :=
  stack.lists.getD key []

/-- Replace the values of a key. -/
def put (stack : Contexts) (key : Text) : List Value → Contexts
  | [] =>
    { lists := stack.lists.erase key
      nonempty := by
        intro k
        rw [Std.ExtTreeMap.getElem?_erase]
        split
        · simp
        · exact stack.nonempty k }
  | value :: rest =>
    { lists := stack.lists.insert key (value :: rest)
      nonempty := by
        intro k
        rw [Std.ExtTreeMap.getElem?_insert]
        split
        · simp
        · exact stack.nonempty k }

theorem values_put (stack : Contexts) (key other : Text) (list : List Value) :
    (stack.put key list).values other = if key = other then list else stack.values other := by
  cases list with
  | nil => simp [values, put, Std.ExtTreeMap.getD_erase]
  | cons value rest => simp [values, put, Std.ExtTreeMap.getD_insert]

theorem values_empty (key : Text) : (∅ : Contexts).values key = [] :=
  Std.ExtTreeMap.getD_empty

/-- A stack is determined by its view. -/
theorem ext_values {s t : Contexts} (h : ∀ key, s.values key = t.values key) : s = t := by
  obtain ⟨a, ha⟩ := s
  obtain ⟨b, hb⟩ := t
  have : a = b := by
    apply Std.ExtTreeMap.ext_getElem?
    intro k
    have hk := h k
    have hak := ha k
    have hbk := hb k
    simp only [values, Std.ExtTreeMap.getD_eq_getD_getElem?] at hk
    cases hx : a[k]? with
    | none => cases hy : b[k]? with
      | none => rfl
      | some l => simp_all
    | some l => cases hy : b[k]? with
      | none => simp_all
      | some m => simp_all
  subst this
  rfl

/-! ## Queries -/

/-- How many values a key holds. -/
def size (stack : Contexts) (key : Text) : Nat :=
  (stack.values key).length

/-- Does a key hold nothing? -/
def isEmpty (stack : Contexts) (key : Text) : Bool :=
  (stack.values key).isEmpty

/-- The values of a key, outermost first. -/
def toList (stack : Contexts) (key : Text) : List Value :=
  (stack.values key).reverse

/-- The innermost value of a key. -/
def top (stack : Contexts) (key : Text) : Except Error Value :=
  match stack.values key with
  | [] => .error (.noContext key)
  | value :: _ => .ok value

/-- The data of the innermost value of a key, which must have the type. -/
def topAs (stack : Contexts) (type : ValueType) (key : Text) : Except Error type.Carrier := do
  match (← stack.top key).as? type with
  | some data => .ok data
  | none => .error (.contextType key)

/-- The innermost value is on the stack. -/
theorem mem_of_top {stack : Contexts} {key : Text} {value : Value}
    (h : stack.top key = .ok value) : value ∈ stack.values key := by
  rw [top] at h
  split at h
  · cases h
  · next hvalues =>
      cases h
      exact hvalues ▸ List.mem_cons_self

/-- What is read off with a type is the innermost value. -/
theorem mem_of_topAs {stack : Contexts} {type : ValueType} {key : Text} {data : type.Carrier}
    (h : stack.topAs type key = .ok data) : .of type data ∈ stack.values key := by
  rw [topAs] at h
  cases htop : stack.top key with
  | error e =>
      rw [htop] at h
      cases h
  | ok value =>
      have hmem := mem_of_top htop
      rw [htop] at h
      cases type <;> cases value <;> cases h <;> exact hmem

/-! ## Updates -/

/-- Put a value on top of a key. -/
def push (stack : Contexts) (key : Text) (value : Value) : Contexts :=
  stack.put key (value :: stack.values key)

/-- Drop the innermost value of a key, if it holds any. -/
def dropTop (stack : Contexts) (key : Text) : Contexts :=
  stack.put key (stack.values key).tail

/-- Take the innermost value off a key. -/
def pop (stack : Contexts) (key : Text) : Except Error (Value × Contexts) := do
  return (← stack.top key, stack.dropTop key)

/-- Take the innermost value off a key, which must have the type. -/
def popAs (stack : Contexts) (type : ValueType) (key : Text) :
    Except Error (type.Carrier × Contexts) := do
  return (← stack.topAs type key, stack.dropTop key)

/-- Erase every value of a key that has the type and the data, at any depth. Also returns how many
there were. -/
def eraseAll (stack : Contexts) (type : ValueType) (key : Text) (data : type.Carrier) :
    Nat × Contexts :=
  let value := Value.of type data
  let list := stack.values key
  (list.count value, stack.put key (list.filter (· != value)))

theorem values_push (stack : Contexts) (key other : Text) (value : Value) :
    (stack.push key value).values other =
      if key = other then value :: stack.values key else stack.values other :=
  stack.values_put key other _

theorem values_dropTop (stack : Contexts) (key other : Text) :
    (stack.dropTop key).values other =
      if key = other then (stack.values key).tail else stack.values other :=
  stack.values_put key other _

/-- Dropping what was pushed restores the whole stack. -/
theorem dropTop_push (stack : Contexts) (key : Text) (value : Value) :
    (stack.push key value).dropTop key = stack := by
  apply ext_values
  intro other
  rw [values_dropTop, values_push, values_push]
  by_cases h : key = other
  · rw [if_pos h, if_pos rfl, h]
    rfl
  · rw [if_neg h, if_neg h]

end Contexts

end ScopedLabels
