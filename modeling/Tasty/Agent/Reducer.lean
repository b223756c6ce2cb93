/-
The composition of the outputs of several tasks into one value
(`reduce_typed` of `crates/tasty-agent/src/reducer.rs`): the strategies,
the deep merge of objects with its policy for conflicts, and the equality
by which a conflict is told. That is an equivalence: arrays are equal item
by item, objects key by key.
-/
import Tasty.Agent.Dag
import Tasty.Agent.Numbers
import Tasty.Lib.Orderless

namespace Tasty.Agent

open Entries List

-- ==== equality

namespace Value

mutual

/-- `json_equal`: numbers by their value, not by how they are written. -/
def jsonEqual : Value → Value → Bool
  | number x, number y => x.equal y
  | array x, array y => jsonEqualItems x y
  | object x, object y => x.length = y.length && jsonEqualEntries x y
  | a, b => a.same b

/-- Of lists of one length, item by item. -/
def jsonEqualItems : List Value → List Value → Bool
  | [], [] => true
  | p :: x, q :: y => p.jsonEqual q && jsonEqualItems x y
  | _, _ => false

/-- Each entry of the first is found in the second. -/
def jsonEqualEntries :
    List (String × Value) → List (String × Value) → Bool
  | [], _ => true
  | (k, p) :: x, y =>
    (match Entries.get y k with
      | some q => p.jsonEqual q
      | none => false)
    && jsonEqualEntries x y

end

/-- `type_name`. -/
def typeName : Value → String
  | null => "null"
  | bool _ => "bool"
  | number _ => "number"
  | string _ => "string"
  | array _ => "array"
  | object _ => "object"

-- ==== what a map can be

mutual

/-- The keys of every object ascend, and the numbers are finite: what a
value holds by its type. -/
def Proper : Value → Prop
  | number n => n.Finite
  | array items => ProperItems items
  | object entries => Entries.Sorted entries ∧ ProperEntries entries
  | _ => True

def ProperItems : List Value → Prop
  | [] => True
  | v :: rest => v.Proper ∧ ProperItems rest

def ProperEntries : List (String × Value) → Prop
  | [] => True
  | (_, v) :: rest => v.Proper ∧ ProperEntries rest

end

-- ==== the equality of values

theorem properItems_iff {items : List Value} :
    ProperItems items ↔ ∀ v ∈ items, v.Proper := by
  induction items with
  | nil => simp [ProperItems]
  | cons v items ih => simp [ProperItems, ih]

theorem properEntries_iff {entries : List (String × Value)} :
    ProperEntries entries ↔ ∀ e ∈ entries, e.2.Proper := by
  induction entries with
  | nil => simp [ProperEntries]
  | cons e entries ih => simp [ProperEntries, ih]

theorem jsonEqualItems_iff {x y : List Value} : jsonEqualItems x y = true
      ↔ List.Forall₂ (fun p q => p.jsonEqual q = true) x y := by
  induction x generalizing y with
  | nil =>
    cases y with
    | nil => simp [jsonEqualItems]
    | cons q y => simp [jsonEqualItems]
  | cons p x ih =>
    cases y with
    | nil => simp [jsonEqualItems]
    | cons q y => simp [jsonEqualItems, ih]

theorem jsonEqualEntries_iff {x y : List (String × Value)} :
    jsonEqualEntries x y = true ↔ ∀ e ∈ x, ∃ q, Entries.get y e.1 = some q
        ∧ e.2.jsonEqual q = true := by
  induction x with
  | nil => simp [jsonEqualEntries]
  | cons e x ih =>
    obtain ⟨k, p⟩ := e
    rw [jsonEqualEntries, Bool.and_eq_true, ih, forall_mem_cons]
    refine and_congr_left fun _ => ?_
    cases Entries.get y k with
    | none => simp
    | some q => simp

/-- Proper values that `json_equal` takes for one. -/
def Equals (a b : Value) : Prop :=
  a.Proper ∧ b.Proper ∧ a.jsonEqual b = true

theorem equals_array {x y : List Value} :
    (array x).Equals (array y) ↔ List.Forall₂ Equals x y := by
  show ProperItems x ∧ ProperItems y ∧ jsonEqualItems x y = true ↔ _
  rw [jsonEqualItems_iff]
  constructor
  · rintro ⟨hx, hy, h⟩
    induction h with
    | nil => exact .nil
    | cons hpq _ ih => exact .cons ⟨hx.1, hy.1, hpq⟩ (ih hx.2 hy.2)
  · intro h
    induction h with
    | nil => exact ⟨trivial, trivial, .nil⟩
    | cons hpq _ ih =>
      obtain ⟨hx, hy, h⟩ := ih
      exact ⟨⟨hpq.1, hx⟩, ⟨hpq.2.1, hy⟩, .cons hpq.2.2 h⟩

theorem equals_object {x y : List (String × Value)} :
    (object x).Equals (object y) ↔ Entries.Sorted x ∧ Entries.Sorted y
        ∧ ∀ k, Option.Rel Equals (Entries.get x k) (Entries.get y k) := by
  show (Entries.Sorted x ∧ ProperEntries x)
    ∧ (Entries.Sorted y ∧ ProperEntries y)
    ∧ (x.length = y.length && jsonEqualEntries x y) = true ↔ _
  rw [Bool.and_eq_true, decide_eq_true_eq, properEntries_iff,
    properEntries_iff, jsonEqualEntries_iff]
  constructor
  · rintro ⟨⟨hx, hxs⟩, ⟨hy, hys⟩, hlen, h⟩
    refine ⟨hx, hy, fun k => ?_⟩
    have hmore := hx.keys_subset hlen fun k hk => by
      obtain ⟨e, he, rfl⟩ := mem_map.1 hk
      obtain ⟨q, hq, _⟩ := h e he
      rw [← get_isSome_iff, hq]
      rfl
    cases hp : Entries.get x k with
    | some p =>
      have hmem := mem_of_get hp
      obtain ⟨q, hq, heq⟩ := h _ hmem
      rw [hq]
      exact .some ⟨hxs _ hmem, hys _ (mem_of_get hq), heq⟩
    | none =>
      cases hq : Entries.get y k with
      | none => exact .none
      | some q =>
        have hk := hmore k (get_isSome_iff.1 (by rw [hq]; rfl))
        rw [← get_isSome_iff, hp] at hk
        cases hk
  · rintro ⟨hx, hy, h⟩
    have hleft {k : String} {p : Value} (hp : (k, p) ∈ x) :
        ∃ q, Entries.get y k = some q ∧ p.Equals q := by
      have hrel := h k
      rw [hx.mem_iff.1 hp] at hrel
      cases hq : Entries.get y k with
      | none => rw [hq] at hrel; cases hrel
      | some q =>
        rw [hq] at hrel
        cases hrel with
        | some hpq => exact ⟨q, rfl, hpq⟩
    have hright {k : String} {q : Value} (hq : (k, q) ∈ y) :
        ∃ p, Entries.get x k = some p ∧ p.Equals q := by
      have hrel := h k
      rw [hy.mem_iff.1 hq] at hrel
      cases hp : Entries.get x k with
      | none => rw [hp] at hrel; cases hrel
      | some p =>
        rw [hp] at hrel
        cases hrel with
        | some hpq => exact ⟨p, rfl, hpq⟩
    refine ⟨⟨hx, fun e he => ?_⟩, ⟨hy, fun e he => ?_⟩, ?_, fun e he => ?_⟩
    · obtain ⟨q, _, hpq⟩ := hleft he
      exact hpq.1
    · obtain ⟨p, _, hpq⟩ := hright he
      exact hpq.2.1
    · have hkeys : (Entries.keys x).Perm (Entries.keys y) := by
        refine (perm_ext_iff_of_nodup hx.nodup hy.nodup).2 fun k => ?_
        rw [← get_isSome_iff, ← get_isSome_iff]
        have hrel := h k
        revert hrel
        cases Entries.get x k <;> cases Entries.get y k <;> intro hrel
        · rfl
        · cases hrel
        · cases hrel
        · rfl
      have hlen := hkeys.length_eq
      rwa [Entries.keys, Entries.keys, length_map, length_map] at hlen
    · obtain ⟨q, hq, hpq⟩ := hleft he
      exact ⟨q, hq, hpq.2.2⟩

def isObject : Value → Bool
  | object _ => true
  | _ => false

variable {a b : Value}

theorem Equals.isObject_eq (h : a.Equals b) : a.isObject = b.isObject := by
  obtain ⟨-, -, h⟩ := h
  cases a <;> cases b <;> first | rfl | cases h

-- ==== an equivalence

theorem equals_refl (h : a.Proper) : a.Equals a := by
  induction a using content_induction with
  | hnull => exact ⟨trivial, trivial, rfl⟩
  | hbool b | hstring s => exact ⟨trivial, trivial, decide_eq_true rfl⟩
  | hnumber n => exact ⟨h, h, Number.equal_refl h⟩
  | harray items ih =>
    have hitems := properItems_iff.1 h
    exact equals_array.2 (forall₂_same.2 fun v hv =>
      ih v hv (hitems v hv))
  | hobject entries ih =>
    have hentries := properEntries_iff.1 h.2
    refine equals_object.2 ⟨h.1, h.1, fun k => ?_⟩
    cases hv : Entries.get entries k with
    | none => exact .none
    | some v =>
      have hmem := mem_of_get hv
      exact .some (ih _ hmem (hentries _ hmem))

/-- What equals one value is equal. -/
theorem Equals.euclid {c : Value} (h : a.Equals b) (h' : a.Equals c) :
    b.Equals c := by
  induction a using content_induction generalizing b c with
  | hnull =>
    cases b <;> first | exact h' | cases h.2.2
  | hbool p =>
    cases b with
    | bool q =>
      obtain rfl : p = q := of_decide_eq_true h.2.2
      exact h'
    | _ => cases h.2.2
  | hnumber n =>
    cases b with
    | number m =>
      cases c with
      | number l =>
        exact ⟨h.2.1, h'.2.1,
          Number.equal_trans (Number.equal_symm h.2.2) h'.2.2⟩
      | _ => cases h'.2.2
    | _ => cases h.2.2
  | hstring s =>
    cases b with
    | string t =>
      obtain rfl : s = t := of_decide_eq_true h.2.2
      exact h'
    | _ => cases h.2.2
  | harray x ih =>
    cases b with
    | array y =>
      cases c with
      | array z =>
        rw [equals_array] at h h' ⊢
        induction h generalizing z with
        | nil =>
          cases h'
          exact .nil
        | cons hpq _ hrest =>
          obtain ⟨hp, hx⟩ := forall_mem_cons.1 ih
          cases h' with
          | cons hpr hxz => exact .cons (hp hpq hpr) (hrest hx _ hxz)
      | _ => cases h'.2.2
    | _ => cases h.2.2
  | hobject x ih =>
    cases b with
    | object y =>
      cases c with
      | object z =>
        rw [equals_object] at h h' ⊢
        obtain ⟨_, hy, h⟩ := h
        obtain ⟨_, hz, h'⟩ := h'
        exact ⟨hy, hz, fun k =>
          optionRel_euclid (h k) (h' k) fun p q r hp =>
            ih _ (mem_of_get hp)⟩
      | _ => cases h'.2.2
    | _ => cases h.2.2

theorem Equals.symm (h : a.Equals b) : b.Equals a :=
  h.euclid (equals_refl h.1)

theorem Equals.trans {c : Value} (h : a.Equals b) (h' : b.Equals c) :
    a.Equals c := h.symm.euclid h'

theorem jsonEqual_congr_left {a' : Value} (h : a.Equals a') (hb : b.Proper) : a.jsonEqual b = a'.jsonEqual b := by
  rw [Bool.eq_iff_iff]
  constructor
  · intro hab
    exact (h.symm.trans ⟨h.1, hb, hab⟩).2.2
  · intro hab
    exact (h.trans ⟨h.2.1, hb, hab⟩).2.2

theorem proper_get {m : Entries Value} (h : (object m).Proper)
    {k : String} {v : Value} (hv : Entries.get m k = some v) : v.Proper :=
  properEntries_iff.1 h.2 _ (mem_of_get hv)

end Value

-- ==== merging

variable [F64Text]

/-- One entry, where not both are objects. -/
def mergeLeaf (conflict : MergeConflict) (here k : String)
    (dst : Entries Value) (found : Option Value) (v : Value) :
    Except String (Entries Value) :=
  match found with
  | some existing =>
    if existing.jsonEqual v then .ok dst
    else
      match conflict with
      | .overwrite => .ok (Entries.insert k v dst)
      | .error => .error (s!"merge_json: conflicting values at {here}: "
          ++ s!"{existing.text} vs {v.text}")
  | none => .ok (Entries.insert k v dst)

mutual

/-- `merge_typed`: the entries of `src`, one after the other, into
`dst`. -/
def mergeTyped (conflict : MergeConflict) (path : String)
    (dst : Entries Value) :
    List (String × Value) → Except String (Entries Value)
  | [] => .ok dst
  | (k, v) :: src => do
      let dst ← mergeValue conflict (path ++ "/" ++ k) k dst v
      mergeTyped conflict path dst src

/-- One entry; `here` is the path of its key. -/
def mergeValue (conflict : MergeConflict) (here k : String)
    (dst : Entries Value) : Value → Except String (Entries Value)
  | .object s =>
    match Entries.get dst k with
    | some (.object d) => do
        let d ← mergeTyped conflict here d s
        .ok (Entries.insert k (.object d) dst)
    | found => mergeLeaf conflict here k dst found (.object s)
  | v => mergeLeaf conflict here k dst (Entries.get dst k) v

end

-- ==== reducing

/-- An input of a v2 reduce. -/
structure TypedReducerInput where
  taskId : TaskId
  state : String
  /-- False for an input that did not succeed with an output. -/
  hasOutput : Bool
  output : TypedValue
  attemptId : Option String
  proper : output.toInternal.Proper

namespace TypedReducerInput

/-- What `all` and a custom reducer see of an input. -/
def record (i : TypedReducerInput) : Value :=
  let m := Entries.insert "task_id" (.string i.taskId) []
  let m := Entries.insert "state" (.string i.state) m
  let m := Entries.insert "has_output" (.bool i.hasOutput) m
  let m := match i.attemptId with
    | some a => Entries.insert "attempt_id" (.string a) m
    | none => m
  -- by the type the input declares: an int64 is decimal text
  let m := if i.hasOutput then Entries.insert "output" i.output.toWire m
    else m
  .object m

/-- The JSON with int64 as integers. -/
def requireOutput (i : TypedReducerInput) : Except String Value :=
  if i.hasOutput then .ok i.output.toInternal
  else .error s!"input {i.taskId} has no output (state {i.state})"

end TypedReducerInput

/-- The output of an input, merged into what has been merged. -/
def mergeInput (conflict : MergeConflict) (acc : Entries Value)
    (input : TypedReducerInput) : Except String (Entries Value) := do
  let output ← input.requireOutput
  match output with
  | .object map => mergeTyped conflict "" acc map
  | output => .error (s!"merge_json: input {input.taskId} output is "
      ++ s!"{output.typeName}, not an object")

/-- The output of an input, appended to the text so far. -/
def concatInput (out : String) (input : TypedReducerInput) :
    Except String String := do
  let output ← input.requireOutput
  match output with
  | .string s => .ok (out ++ s)
  | other => .error (s!"concat_text: input {input.taskId} output is "
      ++ s!"{other.typeName}, not a string; convert it explicitly")

/-- `reduce_typed`. The shell that runs a custom reducer, and the parser
of its output, are parameters. -/
def reduceTyped (strategy : ReducerStrategy)
    (inputs : List TypedReducerInput) (conflict : MergeConflict)
    (runner : String → String → Except String String)
    (fromStr : String → Except String Value) : Except String Value :=
  match strategy with
  | .firstSuccess =>
    match inputs.find? TypedReducerInput.hasOutput with
    | some i => .ok i.output.toInternal
    | none => .error "first_success: no input succeeded with an output"
  | .all => .ok (.array (inputs.map TypedReducerInput.record))
  | .mergeJson => do
      let acc ← inputs.foldlM (mergeInput conflict) []
      .ok (.object acc)
  | .concatText => do
      let out ← inputs.foldlM concatInput ""
      .ok (.string out)
  | .custom command =>
    let stdin := Value.array (inputs.map TypedReducerInput.record)
    match runner command stdin.text with
    | .error e => .error s!"custom reducer command failed: {e}"
    | .ok stdout =>
      match fromStr (trim stdout) with
      | .ok v => .ok v
      | .error e => .error
          s!"custom reducer stdout is not one JSON value: {e}"

end Tasty.Agent
