import ScopedLabels.Proofs.Faults

/-!
# Keyed — every key of a context stack is a list of its own

A caller uses a context stack by `Call`s: an operation on one key, or clearing all keys at once.
What an operation does depends on the list of its key alone, and it changes that list alone
(`Call.perform_on`). Read with its outermost value first, a list grows and shrinks at its end. So
one key behaves as a plain list does on which only the calls that concern the key are made
(`Call.run_key`): a key that was never used, one whose values are all gone and one that was cleared
are the same empty list.

Two ways of checking a type meet here. A typed access asks whether the innermost value has the type,
and then reads off its data; erasing compares whole values with the value that the data would make.
They agree (`Value.holds_iff`): a value of another type is never equal to it.

Failures and queries change nothing at all. Where a key sees neither erasing nor clearing, it can
only be pushed on and popped off, and by how much it has grown is by how many more pushes than pops
there were (`Call.run_above`).
-/

namespace ScopedLabels

/-! ## Values with a type and data -/

instance (type : ValueType) : DecidableEq type.Carrier :=
  match type with
  | .int => inferInstanceAs (DecidableEq Int64)
  | .bool => inferInstanceAs (DecidableEq Bool)
  | .text => inferInstanceAs (DecidableEq Text)
  | .scope => inferInstanceAs (DecidableEq ScopeId)

/-- Does a value have the type, and this data? -/
def Value.holds (type : ValueType) (data : type.Carrier) (value : Value) : Bool :=
  value.as? type == some data

/-- A value has the type and the data if and only if it is the value that they make. -/
theorem Value.holds_iff {type : ValueType} {data : type.Carrier} {value : Value} :
    value.holds type data = true ↔ value = .of type data := by
  cases type <;> cases value <;> simp [holds, as?, of]

namespace Contexts

/-! ## Calls -/

/-- What can be done with one key of a context stack. -/
inductive Operation
  | push (value : Value)
  | pop
  | top
  | popAs (type : ValueType)
  | topAs (type : ValueType)
  | eraseAll (type : ValueType) (data : type.Carrier)
  | listing
  | size
  | isEmpty
deriving DecidableEq

/-- One use of a context stack. -/
inductive Call
  | on (key : Text) (operation : Operation)
  | clear
deriving DecidableEq

/-- What a call is answered with. -/
inductive Answer
  | nothing
  | value (value : Value)
  | data (type : ValueType) (data : type.Carrier)
  | values (list : List Value)
  | number (n : Nat)
  | flag (b : Bool)
deriving DecidableEq

/-- Make a call on the context stack of a name. -/
def Call.perform (stack : Text) : Call → Action Answer
  | .on key (.push value) => do
    modify (·.modifyStack stack (·.push key value))
    return .nothing
  | .on key .pop => do return .value (← Action.takeFromStack stack (·.pop key))
  | .on key .top => do return .value (← Action.readStack stack (·.top key))
  | .on key (.popAs type) => do
    return .data type (← Action.takeFromStack stack (·.popAs type key))
  | .on key (.topAs type) => do return .data type (← Action.readStack stack (·.topAs type key))
  | .on key (.eraseAll type data) => do
    return .number (← Action.takeFromStack stack fun s => .ok (s.eraseAll type key data))
  | .on key .listing => do return .values (((← get).stack stack).toList key)
  | .on key .size => do return .number (((← get).stack stack).size key)
  | .on key .isEmpty => do return .flag (((← get).stack stack).isEmpty key)
  | .clear => do
    modify (·.modifyStack stack fun _ => ∅)
    return .nothing

/-- An operation that only looks. -/
def Operation.isQuery : Operation → Bool
  | .top | .topAs _ | .listing | .size | .isEmpty => true
  | .push _ | .pop | .popAs _ | .eraseAll _ _ => false

/-- Does a call concern a key? -/
def Call.concerns (key : Text) : Call → Bool
  | .on other _ => other == key
  | .clear => true

/-! ## Plain lists -/

/-- The value at the end of a list, which is all that a key holds. -/
def last (key : Text) (list : List Value) : Except Error Value :=
  match list.getLast? with
  | none => .error (.noContext key)
  | some value => .ok value

/-- The data of the value at the end of a list, which must have the type. -/
def lastAs (type : ValueType) (key : Text) (list : List Value) : Except Error type.Carrier := do
  match (← last key list).as? type with
  | some data => .ok data
  | none => .error (.contextType key)

/-- An operation on a list that is all that its key holds, outermost value first. -/
def Operation.onList (key : Text) (list : List Value) :
    Operation → Except Error (Answer × List Value)
  | .push value => .ok (.nothing, list ++ [value])
  | .pop => do return (.value (← last key list), list.dropLast)
  | .top => do return (.value (← last key list), list)
  | .popAs type => do return (.data type (← lastAs type key list), list.dropLast)
  | .topAs type => do return (.data type (← lastAs type key list), list)
  | .eraseAll type data =>
    .ok (.number (list.countP (·.holds type data)), list.filter (!·.holds type data))
  | .listing => .ok (.values list, list)
  | .size => .ok (.number list.length, list)
  | .isEmpty => .ok (.flag list.isEmpty, list)

/-- Why an operation fails on a key that holds a list. -/
def Operation.Fault (key : Text) (list : List Value) : Operation → Error → Prop
  | .pop, e | .top, e => list = [] ∧ e = .noContext key
  | .popAs type, e | .topAs type, e =>
    (list = [] ∧ e = .noContext key) ∨
      ∃ value, list.getLast? = some value ∧ value.as? type = none ∧ e = .contextType key
  | .push _, _ | .eraseAll _ _, _ | .listing, _ | .size, _ | .isEmpty, _ => False

/-- Only the empty list has no value at its end. -/
theorem last_error_iff {key : Text} {list : List Value} {e : Error} :
    last key list = .error e ↔ list = [] ∧ e = .noContext key := by
  rcases List.eq_nil_or_concat list with rfl | ⟨front, value, rfl⟩
  · simp [last, eq_comm]
  · simp [last]

/-- A typed access fails on the empty list, and on a value of another type at the end. -/
theorem lastAs_error_iff {type : ValueType} {key : Text} {list : List Value} {e : Error} :
    lastAs type key list = .error e ↔ (list = [] ∧ e = .noContext key) ∨
      ∃ value, list.getLast? = some value ∧ value.as? type = none ∧ e = .contextType key := by
  rcases List.eq_nil_or_concat list with rfl | ⟨front, value, rfl⟩
  · simp [lastAs, last, bind, Except.bind, eq_comm]
  · cases htype : value.as? type with
    | none => simpa [lastAs, last, bind, Except.bind, htype] using eq_comm
    | some data => simp [lastAs, last, bind, Except.bind, htype]

/-- On a plain list, an operation fails for the listed reasons and for no others. -/
theorem Operation.onList_error_iff {key : Text} {list : List Value} {op : Operation} {e : Error} :
    op.onList key list = .error e ↔ op.Fault key list e := by
  cases op with
  | pop | top =>
      rw [Fault, ← last_error_iff, onList]
      cases last key list <;> simp [bind, Except.bind, pure, Except.pure]
  | popAs type | topAs type =>
      rw [Fault, ← lastAs_error_iff, onList]
      cases lastAs type key list <;> simp [bind, Except.bind, pure, Except.pure]
  | push value | eraseAll type data | listing | size | isEmpty => exact ⟨nofun, False.elim⟩

/-! ## Contexts, read with the outermost value first -/

section View

variable (stack : Contexts) (key : Text)

theorem toList_put (other : Text) (list : List Value) :
    (stack.put key list.reverse).toList other =
      if key = other then list else stack.toList other := by
  rw [toList, values_put]
  split
  · rw [List.reverse_reverse]
  · rfl

theorem toList_empty : (∅ : Contexts).toList key = [] := by
  rw [toList, values_empty, List.reverse_nil]

/-- The innermost value is the one at the end of the list. -/
theorem top_eq_last : stack.top key = last key (stack.toList key) := by
  rw [top, last, toList, List.getLast?_reverse]
  cases stack.values key <;> rfl

theorem topAs_eq_lastAs (type : ValueType) :
    stack.topAs type key = lastAs type key (stack.toList key) := by
  rw [lastAs, ← top_eq_last]
  rfl

/-- Dropping the innermost value takes the last one off the list. -/
theorem dropTop_eq_put : stack.dropTop key = stack.put key (stack.toList key).dropLast.reverse := by
  rw [dropTop, toList, List.dropLast_reverse, List.reverse_reverse]

/-- Pushing puts one more value at the end of the list. -/
theorem push_eq_put (value : Value) :
    stack.push key value = stack.put key (stack.toList key ++ [value]).reverse := by
  rw [push, toList, List.reverse_append, List.reverse_reverse]
  rfl

/-- Erasing counts and takes away what has the type and the data, although it compares whole values.
    -/
theorem eraseAll_eq_put (type : ValueType) (data : type.Carrier) :
    stack.eraseAll type key data =
      ((stack.toList key).countP (·.holds type data),
        stack.put key ((stack.toList key).filter (!·.holds type data)).reverse) := by
  have hholds : (fun value : Value => value.holds type data) = (· == .of type data) := by
    funext value
    rw [Bool.eq_iff_iff, Value.holds_iff, beq_iff_eq]
  have hothers : (fun value : Value => !value.holds type data) = (· != .of type data) := by
    funext value
    rw [congrFun hholds value]
    rfl
  rw [eraseAll, toList, hholds, hothers, List.countP_reverse, List.filter_reverse,
    List.reverse_reverse]
  rfl

end View

/-! ## One call -/

/-- What an operation does goes by the list of its key alone. It is done there as on a plain list;
    nothing changes if it fails or only looks. -/
theorem Call.perform_on (stack key : Text) (op : Operation) (w : World) :
    (Call.on key op).perform stack w =
      match op.onList key ((w.stack stack).toList key) with
      | .ok (answer, list) =>
        .ok answer (if op.isQuery then w else w.modifyStack stack (·.put key list.reverse))
      | .error e => .error e w := by
  cases op with
  | push value =>
      rw [Operation.onList]
      show EStateM.Result.ok Answer.nothing (w.modifyStack stack (·.push key value)) = _
      rw [World.modifyStack, push_eq_put]
      rfl
  | pop =>
      rw [perform, bind_apply, Action.takeFromStack_apply, pop, top_eq_last, Operation.onList]
      cases last key ((w.stack stack).toList key) with
      | error e => rfl
      | ok value =>
          simp only [dropTop_eq_put]
          rfl
  | top =>
      rw [perform, bind_apply, Action.readStack_apply, top_eq_last, Operation.onList]
      cases last key ((w.stack stack).toList key) <;> rfl
  | popAs type =>
      rw [perform, bind_apply, Action.takeFromStack_apply, popAs, topAs_eq_lastAs, Operation.onList]
      cases lastAs type key ((w.stack stack).toList key) with
      | error e => rfl
      | ok data =>
          simp only [dropTop_eq_put]
          rfl
  | topAs type =>
      rw [perform, bind_apply, Action.readStack_apply, topAs_eq_lastAs, Operation.onList]
      cases lastAs type key ((w.stack stack).toList key) <;> rfl
  | eraseAll type data =>
      rw [perform, bind_apply, Action.takeFromStack_apply, eraseAll_eq_put]
      rfl
  | listing => rfl
  | size =>
      rw [Operation.onList, toList, List.length_reverse]
      rfl
  | isEmpty =>
      rw [Operation.onList, toList, List.isEmpty_reverse]
      rfl

/-- An operation on a key fails for the listed reasons, and leaves the world as it was then. -/
theorem Call.perform_on_fails (stack key : Text) (op : Operation) (w : World) :
    Fails ((Call.on key op).perform stack) w (op.Fault key ((w.stack stack).toList key)) := by
  have hperform := perform_on stack key op w
  cases hlist : op.onList key ((w.stack stack).toList key) with
  | ok made =>
      rw [hlist] at hperform
      refine .of_ok hperform fun e hfault => ?_
      cases hlist.symm.trans (Operation.onList_error_iff.mpr hfault)
  | error e =>
      rw [hlist] at hperform
      refine .of_error hperform fun other => ?_
      rw [← Operation.onList_error_iff, hlist, Except.error.injEq, eq_comm]

theorem Call.perform_clear (stack : Text) (w : World) :
    Call.clear.perform stack w = .ok .nothing (w.modifyStack stack fun _ => ∅) := rfl

/-- Whatever a query is answered with, it changes nothing. -/
theorem Call.after_query (stack key : Text) {op : Operation} (hquery : op.isQuery = true)
    (w : World) : after ((Call.on key op).perform stack) w = w := by
  rw [after, perform_on]
  cases op.onList key ((w.stack stack).toList key) with
  | ok made => exact if_pos hquery
  | error e => rfl

/-- What a query leaves on a plain list is what was there. -/
theorem Operation.onList_query {key : Text} {list after : List Value} {op : Operation}
    {answer : Answer} (hquery : op.isQuery = true)
    (h : op.onList key list = .ok (answer, after)) : after = list := by
  cases op with
  | top =>
      rw [onList] at h
      cases hlast : last key list <;> rw [hlast] at h <;> cases h
      rfl
  | topAs type =>
      rw [onList] at h
      cases hlast : lastAs type key list <;> rw [hlast] at h <;> cases h
      rfl
  | listing | size | isEmpty =>
      cases h
      rfl
  | push value | pop | popAs type | eraseAll type data => cases hquery

/-- What a call comes to, and the world after it. -/
def Call.made (stack : Text) (call : Call) (w : World) : Except Error Answer × World :=
  match call.perform stack w with
  | .ok answer v => (.ok answer, v)
  | .error e v => (.error e, v)

/-- What a call comes to on a list that is all that its key holds, and the list after it. -/
def Call.onList (key : Text) (list : List Value) : Call → Except Error Answer × List Value
  | .on _ op =>
    match op.onList key list with
    | .ok (answer, after) => (.ok answer, after)
    | .error e => (.error e, list)
  | .clear => (.ok .nothing, [])

/-- Seen from its own key an operation is done on a plain list, and no other key sees it. -/
theorem Call.made_on (stack key : Text) (op : Operation) (w : World) :
    let plain := (Call.on key op).onList key ((w.stack stack).toList key)
    let v := ((Call.on key op).made stack w).2
    ((Call.on key op).made stack w).1 = plain.1 ∧
      ∀ other, (v.stack stack).toList other =
        if key = other then plain.2 else (w.stack stack).toList other := by
  intro plain v
  have hsame : ∀ other, (w.stack stack).toList other =
      if key = other then (w.stack stack).toList key else (w.stack stack).toList other := by
    intro other
    split
    · next heq => rw [heq]
    · rfl
  have hperform := perform_on stack key op w
  -- a failure and a query leave the whole world, and all else is put back under the key
  simp only [v, plain, made, onList]
  cases hlist : op.onList key ((w.stack stack).toList key) with
  | error e =>
      simp only [hperform, hlist]
      exact ⟨trivial, hsame⟩
  | ok result =>
      obtain ⟨answer, list⟩ := result
      simp only [hperform, hlist]
      refine ⟨trivial, fun other => ?_⟩
      split
      · next hquery =>
          cases op.onList_query hquery hlist
          exact hsame other
      · rw [World.stack_modifyStack, if_pos rfl, toList_put]

/-- A call that concerns a key is made there as on a plain list. -/
theorem Call.made_concerned (stack : Text) {key : Text} {call : Call}
    (hconcerns : call.concerns key = true) (w : World) :
    let plain := call.onList key ((w.stack stack).toList key)
    (call.made stack w).1 = plain.1 ∧
      ((call.made stack w).2.stack stack).toList key = plain.2 := by
  cases call with
  | on other op =>
      obtain rfl : other = key := by simpa [concerns] using hconcerns
      obtain ⟨hanswer, hlists⟩ := made_on stack other op w
      exact ⟨hanswer, by rw [hlists, if_pos rfl]⟩
  | clear =>
      refine ⟨rfl, ?_⟩
      simp only [made, perform_clear]
      rw [World.stack_modifyStack, if_pos rfl, toList_empty]
      rfl

/-- A call that does not concern a key leaves what the key holds. -/
theorem Call.made_unconcerned (stack : Text) {key : Text} {call : Call}
    (hconcerns : call.concerns key = false) (w : World) :
    ((call.made stack w).2.stack stack).toList key = (w.stack stack).toList key := by
  cases call with
  | on other op =>
      have hne : ¬ other = key := by simpa [concerns] using hconcerns
      rw [(made_on stack other op w).2, if_neg hne]
  | clear => cases hconcerns

/-! ## Runs -/

/-- Make calls one after the other, also after calls that fail. Returns every call with what it
    came to, and the world in the end. -/
def Call.run (stack : Text) : List Call → World → List (Call × Except Error Answer) × World
  | [], w => ([], w)
  | call :: rest, w =>
    let (answer, v) := call.made stack w
    let (record, u) := run stack rest v
    ((call, answer) :: record, u)

theorem Call.run_cons (stack : Text) (call : Call) (rest : List Call) (w : World) :
    run stack (call :: rest) w =
      ((call, (call.made stack w).1) :: (run stack rest (call.made stack w).2).1,
        (run stack rest (call.made stack w).2).2) := rfl

/-- Make calls on a list that is all that its key holds. -/
def Call.runOnList (key : Text) :
    List Call → List Value → List (Call × Except Error Answer) × List Value
  | [], list => ([], list)
  | call :: rest, list =>
    let (answer, after) := call.onList key list
    let (record, final) := runOnList key rest after
    ((call, answer) :: record, final)

/-- Seen from one key, a run is that of the calls that concern the key, on a plain list. -/
theorem Call.run_key (stack key : Text) (calls : List Call) (w : World) :
    let plain := runOnList key (calls.filter (·.concerns key)) ((w.stack stack).toList key)
    (run stack calls w).1.filter (·.1.concerns key) = plain.1 ∧
      ((run stack calls w).2.stack stack).toList key = plain.2 := by
  induction calls generalizing w with
  | nil => exact ⟨rfl, rfl⟩
  | cons call rest ih =>
      obtain ⟨hrecord, hfinal⟩ := ih (call.made stack w).2
      cases hconcerns : call.concerns key with
      | true =>
          obtain ⟨hanswer, hlist⟩ := made_concerned stack hconcerns w
          rw [hlist] at hrecord hfinal
          simp only [run_cons, List.filter_cons, hconcerns, if_true, runOnList]
          exact ⟨by rw [hanswer, hrecord], hfinal⟩
      | false =>
          rw [made_unconcerned stack hconcerns] at hrecord hfinal
          simp only [run_cons, List.filter_cons, hconcerns, Bool.false_eq_true, if_false]
          exact ⟨hrecord, hfinal⟩

/-! ## Levels -/

/-- Does a call leave a key to pushing and popping? Then it is not erasing values of the key, and
    not clearing. -/
def Call.isGentle (key : Text) : Call → Bool
  | .on other (.eraseAll _ _) => other != key
  | .on _ _ => true
  | .clear => false

/-- A push on a key. -/
def pushes (key : Text) : Call × Except Error Answer → Bool
  | (.on other (.push _), _) => other == key
  | _ => false

/-- A pop off a key, typed or not, that did not fail. -/
def pops (key : Text) : Call × Except Error Answer → Bool
  | (.on other .pop, .ok _) | (.on other (.popAs _), .ok _) => other == key
  | _ => false

/-- A call that does not concern a key neither pushes on it nor pops off it. -/
theorem Call.level_unconcerned {key : Text} {call : Call} (hconcerns : call.concerns key = false)
    (answer : Except Error Answer) :
    pushes key (call, answer) = false ∧ pops key (call, answer) = false := by
  cases call with
  | on other op =>
      have hother : (other == key) = false := hconcerns
      cases op <;> cases answer <;> simp [pushes, pops, hother]
  | clear => cases hconcerns

/-- On a plain list, a gentle call pushes, or pops, or leaves the list as it is. -/
theorem Call.onList_level {key : Text} {op : Operation}
    (hgentle : (Call.on key op).isGentle key = true) (list : List Value) :
    let plain := (Call.on key op).onList key list
    let entry := (Call.on key op, plain.1)
    (pushes key entry = true ∧ pops key entry = false ∧ ∃ value, plain.2 = list ++ [value]) ∨
      (pushes key entry = false ∧ pops key entry = true ∧ plain.2 = list.dropLast) ∨
      (pushes key entry = false ∧ pops key entry = false ∧ plain.2 = list) := by
  have hkey : (key == key) = true := beq_self_eq_true key
  cases op with
  | push value => exact .inl ⟨hkey, rfl, value, rfl⟩
  | pop =>
      simp only [onList, Operation.onList]
      cases last key list with
      | ok value => exact .inr (.inl ⟨rfl, hkey, rfl⟩)
      | error e => exact .inr (.inr ⟨rfl, rfl, rfl⟩)
  | popAs type =>
      simp only [onList, Operation.onList]
      cases lastAs type key list with
      | ok data => exact .inr (.inl ⟨rfl, hkey, rfl⟩)
      | error e => exact .inr (.inr ⟨rfl, rfl, rfl⟩)
  | top =>
      simp only [onList, Operation.onList]
      cases last key list <;> exact .inr (.inr ⟨rfl, rfl, rfl⟩)
  | topAs type =>
      simp only [onList, Operation.onList]
      cases lastAs type key list <;> exact .inr (.inr ⟨rfl, rfl, rfl⟩)
  | listing | size | isEmpty => exact .inr (.inr ⟨rfl, rfl, rfl⟩)
  | eraseAll type data => simp [isGentle] at hgentle

/-- A gentle call pushes on the key, or pops off it, or leaves it as it is. -/
theorem Call.made_level (stack : Text) {key : Text} {call : Call}
    (hgentle : call.isGentle key = true) (w : World) :
    let before := (w.stack stack).toList key
    let entry := (call, (call.made stack w).1)
    let after := ((call.made stack w).2.stack stack).toList key
    (pushes key entry = true ∧ pops key entry = false ∧ ∃ value, after = before ++ [value]) ∨
      (pushes key entry = false ∧ pops key entry = true ∧ after = before.dropLast) ∨
      (pushes key entry = false ∧ pops key entry = false ∧ after = before) := by
  intro before entry after
  cases hconcerns : call.concerns key with
  | false =>
      obtain ⟨hpush, hpop⟩ := level_unconcerned hconcerns (call.made stack w).1
      exact .inr (.inr ⟨hpush, hpop, made_unconcerned stack hconcerns w⟩)
  | true =>
      obtain ⟨hanswer, hlist⟩ := made_concerned stack hconcerns w
      cases call with
      | on other op =>
          obtain rfl : other = key := by simpa [concerns] using hconcerns
          have hplain := onList_level hgentle before
          simp only [entry, after, hanswer, hlist]
          exact hplain
      | clear => cases hgentle

/-- If there is something above the start wherever a call pops, the start is still there after the
    call, and above it is as much more as the call pushes, or less as it pops. -/
theorem Call.made_above {stack key : Text} {call : Call} (hgentle : call.isGentle key = true)
    {w : World} {start above : List Value} (hstart : (w.stack stack).toList key = start ++ above)
    (hroom : [(call, (call.made stack w).1)].countP (pops key) ≤
      above.length + [(call, (call.made stack w).1)].countP (pushes key)) :
    ∃ next, ((call.made stack w).2.stack stack).toList key = start ++ next ∧
      next.length + [(call, (call.made stack w).1)].countP (pops key) =
        above.length + [(call, (call.made stack w).1)].countP (pushes key) := by
  -- the call pushes, pops or leaves the key, and only a pop needs the room
  rcases made_level stack hgentle w with
    ⟨hpush, hpop, value, hlist⟩ | ⟨hpush, hpop, hlist⟩ | ⟨hpush, hpop, hlist⟩
  · refine ⟨above ++ [value], by rw [hlist, hstart, List.append_assoc], ?_⟩
    simp [hpush, hpop]
  · simp only [List.countP_singleton, hpush, hpop] at hroom ⊢
    have hne : above ≠ [] := by
      rintro rfl
      cases hroom
    refine ⟨above.dropLast, ?_, ?_⟩
    · rw [hlist, hstart, List.dropLast_append_of_ne_nil hne]
    · have hlength := List.length_pos_iff.mpr hne
      simp only [List.length_dropLast, if_true, Bool.false_eq_true, if_false]
      omega
  · exact ⟨above, by rw [hlist, hstart], by simp [hpush, hpop]⟩

/-- As long as no more is popped than was pushed since, what a key held at the start is still
    there, and above it is what has been pushed more than popped. -/
theorem Call.run_above {stack key : Text} {calls : List Call}
    (hgentle : ∀ call ∈ calls, call.isGentle key = true) {start above : List Value} {w : World}
    (hstart : (w.stack stack).toList key = start ++ above)
    (hlevel : ∀ record, record <+: (run stack calls w).1 →
      record.countP (pops key) ≤ above.length + record.countP (pushes key)) :
    ∃ final, ((run stack calls w).2.stack stack).toList key = start ++ final ∧
      final.length + (run stack calls w).1.countP (pops key) =
        above.length + (run stack calls w).1.countP (pushes key) := by
  induction calls generalizing w above with
  | nil => exact ⟨above, hstart, rfl⟩
  | cons call rest ih =>
      rw [run_cons] at hlevel
      have hsplit : ∀ (p : Call × Except Error Answer → Bool) record,
          ((call, (call.made stack w).1) :: record).countP p =
            [(call, (call.made stack w).1)].countP p + record.countP p :=
        fun p record => by rw [← List.countP_append, List.singleton_append]
      -- the record of the first call alone is a beginning of the whole record
      have hroom := hlevel [(call, (call.made stack w).1)]
        (List.cons_prefix_cons.mpr ⟨rfl, List.nil_prefix⟩)
      obtain ⟨next, hnext, hcount⟩ := made_above (hgentle call List.mem_cons_self) hstart hroom
      have hlater : ∀ record, record <+: (run stack rest (call.made stack w).2).1 →
          record.countP (pops key) ≤ next.length + record.countP (pushes key) := by
        intro record hprefix
        have hbefore := hlevel _ (List.cons_prefix_cons.mpr ⟨rfl, hprefix⟩)
        rw [hsplit (pops key), hsplit (pushes key)] at hbefore
        omega
      obtain ⟨final, hfinal, hcounts⟩ := ih
        (fun other hmem => hgentle other (List.mem_cons_of_mem _ hmem)) hnext hlater
      refine ⟨final, hfinal, ?_⟩
      rw [run_cons, hsplit (pops key), hsplit (pushes key)]
      omega

/-! ## What every key can rely on -/

/-- From any world, and for every key of any of its context stacks: whatever is done with the stack,
    under this key or others, what the calls that concern the key come to and what the key holds in
    the end are what the same calls come to on a plain list, pushing and popping at its end. An
    operation fails exactly where the key holds nothing or the value at the end is of another type,
    and then changes nothing. A query never changes anything. Erasing takes away the values with
    the type and the data, at any depth, counts them, and keeps the others in order. So in a run
    with no clearing, and with no erasing under the key, where at no point more has been popped off
    the key than pushed on it, the key keeps what it held before, with as much on top of it as was
    pushed more than popped: nothing if that is equally much. -/
theorem keys_are_lists (stack : Text) (w : World) :
    (∀ calls key,
      let plain :=
        Call.runOnList key (calls.filter (·.concerns key)) ((w.stack stack).toList key)
      (Call.run stack calls w).1.filter (·.1.concerns key) = plain.1 ∧
        ((Call.run stack calls w).2.stack stack).toList key = plain.2) ∧
    (∀ key op,
      Fails ((Call.on key op).perform stack) w (op.Fault key ((w.stack stack).toList key)) ∧
        (op.isQuery = true → after ((Call.on key op).perform stack) w = w)) ∧
    Fails (Call.clear.perform stack) w (fun _ => False) ∧
    (∀ key type data, ∃ v,
      (Call.on key (.eraseAll type data)).perform stack w =
        .ok (.number (((w.stack stack).toList key).countP (·.holds type data))) v ∧
      (v.stack stack).toList key =
        ((w.stack stack).toList key).filter (!·.holds type data) ∧
      ∀ other, other ≠ key → (v.stack stack).toList other = (w.stack stack).toList other) ∧
    (∀ type data value, Value.holds type data value = true ↔ value = .of type data) ∧
    (∀ calls key, (∀ call ∈ calls, call.isGentle key = true) →
      let record := (Call.run stack calls w).1
      let v := (Call.run stack calls w).2
      (∀ begun, begun <+: record → begun.countP (pops key) ≤ begun.countP (pushes key)) →
        (∃ pushed, (v.stack stack).toList key = (w.stack stack).toList key ++ pushed ∧
          pushed.length + record.countP (pops key) = record.countP (pushes key)) ∧
        (record.countP (pushes key) = record.countP (pops key) →
          (v.stack stack).toList key = (w.stack stack).toList key)) := by
  refine ⟨?runs, ?faults, ?clearing, ?erasing, ?values, ?level⟩
  case runs =>
    intro calls key
    exact Call.run_key stack key calls w
  case faults =>
    intro key op
    exact ⟨Call.perform_on_fails stack key op w, fun hquery => Call.after_query stack key hquery w⟩
  case clearing => exact .of_ok (Call.perform_clear stack w) fun _ => not_false
  case values =>
    intro type data value
    exact Value.holds_iff
  case erasing =>
    intro key type data
    refine ⟨_, Call.perform_on stack key _ w, ?_, fun other hne => ?_⟩
    · simp only [Operation.isQuery, Bool.false_eq_true, if_false]
      rw [World.stack_modifyStack, if_pos rfl, toList_put, if_pos rfl]
    · simp only [Operation.isQuery, Bool.false_eq_true, if_false]
      rw [World.stack_modifyStack, if_pos rfl, toList_put, if_neg (Ne.symm hne)]
  case level =>
    intro calls key hgentle record v hlevel
    have hstart : (w.stack stack).toList key = (w.stack stack).toList key ++ [] :=
      (List.append_nil _).symm
    obtain ⟨pushed, hfinal, hcount⟩ := Call.run_above hgentle hstart (by simpa using hlevel)
    rw [List.length_nil, Nat.zero_add] at hcount
    refine ⟨⟨pushed, hfinal, hcount⟩, fun hbalanced => ?_⟩
    -- equally many of both leave nothing above the start
    have hnone : pushed = [] := by
      rw [hbalanced, Nat.add_eq_right] at hcount
      exact List.length_eq_zero_iff.mp hcount
    rw [hfinal, hnone, List.append_nil]

/-- A key that holds a text. -/
def textWorld : World :=
  ({} : World).modifyStack "s" (·.push "k" (.text "t"))

/-- A number is pushed, asked for as a truth value, covered by an empty value and uncovered again,
    and popped as the number that it is, while another key is pushed on. -/
def mixedCalls : List Call :=
  [.on "k" (.push (.int 1)), .on "j" (.push (.bool true)), .on "k" (.popAs .bool),
    .on "k" (.push .empty), .on "j" .top, .on "k" .pop, .on "k" (.popAs .int)]

/-- In the end the key holds the text again. -/
theorem keys_are_lists_mixed :
    ((Call.run "s" mixedCalls textWorld).2.stack "s").toList "k" = [.text "t"] := by
  have hlevels : ∀ begun ∈ (Call.run "s" mixedCalls textWorld).1.inits,
      begun.countP (pops "k") ≤ begun.countP (pushes "k") := by decide +kernel
  have hbalanced : (Call.run "s" mixedCalls textWorld).1.countP (pushes "k") =
      (Call.run "s" mixedCalls textWorld).1.countP (pops "k") := by decide +kernel
  obtain ⟨-, hkept⟩ := (keys_are_lists "s" textWorld).2.2.2.2.2 mixedCalls "k"
    (by decide +kernel) fun begun hprefix => hlevels begun ((List.mem_inits _ _).mpr hprefix)
  exact (hkept hbalanced).trans (by decide +kernel)

end Contexts

end ScopedLabels
