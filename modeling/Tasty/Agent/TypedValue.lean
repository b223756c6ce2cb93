/-
Values that know their declared type
(`crates/tasty-agent/src/task/types/value.rs`): the two JSON forms, the
wire form with int64 as decimal text and the internal one with integer
tokens, and the typed form of a validated value.
-/
import Tasty.Agent.Assign

namespace Tasty.Agent

inductive TypedValue where
  | null
  | bool (b : Bool)
  | int64 (i : Int64)
  | float64 (n : Number)
  | string (s : String)
  | list (items : List TypedValue)
  | object (fields : List (String × TypedValue))
  | json (v : Value)

namespace TypedValue

mutual

/-- The JSON with int64 as integers, for calculations inside. -/
def toInternal : TypedValue → Value
  | null => .null
  | bool b => .bool b
  | int64 i => .ofI64 i
  | float64 n => .number n
  | string s => .string s
  | list items => .array (toInternalItems items)
  | object fields => .object (toInternalFields fields)
  | json v => v

def toInternalItems : List TypedValue → List Value
  | [] => []
  | v :: rest => v.toInternal :: toInternalItems rest

def toInternalFields : List (String × TypedValue) → List (String × Value)
  | [] => []
  | (k, v) :: rest => (k, v.toInternal) :: toInternalFields rest

end

mutual

/-- The JSON that is stored and sent: int64 as decimal text. -/
def toWire : TypedValue → Value
  | int64 i => .string (toString i.toInt)
  | list items => .array (toWireItems items)
  | object fields => .object (toWireFields fields)
  | null => .null
  | bool b => .bool b
  | float64 n => .number n
  | string s => .string s
  | json v => v

def toWireItems : List TypedValue → List Value
  | [] => []
  | v :: rest => v.toWire :: toWireItems rest

def toWireFields : List (String × TypedValue) → List (String × Value)
  | [] => []
  | (k, v) :: rest => (k, v.toWire) :: toWireFields rest

end

end TypedValue

variable [F64Text]

/-- The typed form where a value has no parts with types of their own. -/
def typedScalar (schema : TypeSchema) (path : String) (value : Value) :
    TypeKind → Typed TypedValue
  | .int64 =>
    match int64Of value with
    | .ok i => .ok (.int64 i)
    | .error kind => .error ⟨kind, path, "int64", value.describe⟩
  | .json => .ok (.json value)
  | kind =>
    match kind, value with
    | .boolean, .bool b => .ok (.bool b)
    | .float64 _ _, .number n => .ok (.float64 n)
    | .string _, .string s => .ok (.string s)
    | .enum _, .string s => .ok (.string s)
    | _, _ => .error (typeMismatch schema value path)

namespace TypeDefs

variable (defs : TypeDefs)

mutual

/-- The typed form of a value along a schema; ranges, lengths and required
fields are not checked. -/
def typedAt (schema : TypeSchema) (path : String) :
    Value → Typed TypedValue
  | .null => .ok .null
  | .array arr => do
      let resolved ← defs.resolve schema
      match resolved.kind with
      | .list items _ => do
          let out ← typedItems items path 0 arr
          .ok (.list out)
      | kind => typedScalar schema path (.array arr) kind
  | .object map => do
      let resolved ← defs.resolve schema
      match resolved.kind with
      | .object fields => do
          let out ← typedFields fields path map
          .ok (.object out)
      | kind => typedScalar schema path (.object map) kind
  | .bool b => do
      let resolved ← defs.resolve schema
      typedScalar schema path (.bool b) resolved.kind
  | .number n => do
      let resolved ← defs.resolve schema
      typedScalar schema path (.number n) resolved.kind
  | .string s => do
      let resolved ← defs.resolve schema
      typedScalar schema path (.string s) resolved.kind

def typedItems (items : TypeSchema) (path : String) (i : Nat) :
    List Value → Typed (List TypedValue)
  | [] => .ok []
  | v :: rest => do
      let t ← typedAt items (childPath path (toString i)) v
      let out ← typedItems items path (i + 1) rest
      .ok (t :: out)

def typedFields (fields : List (String × FieldSchema)) (path : String) :
    List (String × Value) → Typed (List (String × TypedValue))
  | [] => .ok []
  | (name, v) :: rest => do
      let fpath := childPath path name
      let field ← match Entries.get fields name with
        | some field => .ok field
        | none => .error ⟨.unexpectedField, fpath, "a declared field",
            v.describe⟩
      let t ← typedAt field.schema fpath v
      let out ← typedFields fields path rest
      .ok ((name, t) :: out)

end

/-- `typed_value`: for a validated value, or one that was stored. -/
def typedValue (schema : TypeSchema) (value : Value) : Typed TypedValue :=
  defs.typedAt schema "" value

/-- Check a value, fill in defaults, and give it its type. -/
def validateTyped (schema : TypeSchema) (value : Value) :
    Typed TypedValue := do
  let checked ← defs.validate schema value
  defs.typedValue schema checked

end TypeDefs

-- ==== a validated value

section Validated

variable {defs : TypeDefs}

/-- The typed form of a value that gives the value back. -/
def TypedAs (defs : TypeDefs) (schema : TypeSchema) (v : Value) : Prop :=
  ∀ path, ∃ t, defs.typedAt schema path v = .ok t ∧ t.toInternal = v

theorem typedItems_typedAs {items : TypeSchema} {arr : List Value}
    (h : ∀ v ∈ arr, TypedAs defs items v) (path : String) (i : Nat) :
    ∃ out, defs.typedItems items path i arr = .ok out
      ∧ TypedValue.toInternalItems out = arr := by
  induction arr generalizing i with
  | nil => exact ⟨[], rfl, rfl⟩
  | cons v arr ih =>
    obtain ⟨t, ht, hv⟩ :=
      h v List.mem_cons_self (childPath path (toString i))
    obtain ⟨out, hout, harr⟩ :=
      ih (fun x hx => h x (List.mem_cons_of_mem _ hx)) (i + 1)
    refine ⟨t :: out, ?_, ?_⟩
    · unfold TypeDefs.typedItems
      exact bind_eq_ok.2 ⟨t, ht, bind_eq_ok.2 ⟨out, hout, rfl⟩⟩
    · unfold TypedValue.toInternalItems
      rw [hv, harr]

theorem typedFields_typedAs {fields : List (String × FieldSchema)}
    {entries : List (String × Value)} (h : ∀ e ∈ entries, ∃ field : FieldSchema,
      Entries.get fields e.1 = some field ∧ TypedAs defs field.schema e.2)
    (path : String) :
    ∃ out, defs.typedFields fields path entries = .ok out
      ∧ TypedValue.toInternalFields out = entries := by
  induction entries with
  | nil => exact ⟨[], rfl, rfl⟩
  | cons entry entries ih =>
    obtain ⟨name, v⟩ := entry
    obtain ⟨field, hfield, htyped⟩ := h _ List.mem_cons_self
    obtain ⟨t, ht, hv⟩ := htyped (childPath path name)
    obtain ⟨out, hout, hentries⟩ :=
      ih fun x hx => h x (List.mem_cons_of_mem _ hx)
    refine ⟨(name, t) :: out, ?_, ?_⟩
    · unfold TypeDefs.typedFields
      dsimp only at hfield
      rw [hfield]
      refine bind_eq_ok.2 ⟨field, rfl, ?_⟩
      exact bind_eq_ok.2 ⟨t, ht, bind_eq_ok.2 ⟨out, hout, rfl⟩⟩
    · unfold TypedValue.toInternalFields
      rw [hv, hentries]

variable {schema : TypeSchema} {v : Value}

theorem Validates.typedAs {left : Nat} {w : Value}
    (h : Validates defs left schema v w) : TypedAs defs schema w := by
  induction left generalizing schema v w with
  | zero => exact h.elim
  | succ left ih =>
    intro path
    obtain ⟨r, hr, h⟩ := h
    split at h
    · obtain ⟨_, rfl⟩ := h
      exact ⟨.null, rfl, rfl⟩
    · cases hkind : r.kind with
      | boolean =>
        rw [hkind] at h
        obtain ⟨b, rfl, rfl⟩ := h
        refine ⟨.bool b, ?_, rfl⟩
        unfold TypeDefs.typedAt
        refine bind_eq_ok.2 ⟨r, hr, ?_⟩
        rw [hkind]
        rfl
      | int64 =>
        rw [hkind] at h
        obtain ⟨i, _, rfl⟩ := h
        refine ⟨.int64 i, ?_, rfl⟩
        unfold TypeDefs.typedAt Value.ofI64
        refine bind_eq_ok.2 ⟨r, hr, ?_⟩
        have hof : int64Of (.number (.ofI64 i)) = .ok i :=
          int64Of_ofI64 i
        rw [hkind]
        unfold typedScalar
        rw [hof]
      | float64 min max =>
        rw [hkind] at h
        obtain ⟨n, f, rfl, _, _, _, rfl⟩ := h
        refine ⟨.float64 n, ?_, rfl⟩
        unfold TypeDefs.typedAt
        refine bind_eq_ok.2 ⟨r, hr, ?_⟩
        rw [hkind]
        rfl
      | string maxLen | enum values =>
        rw [hkind] at h
        obtain ⟨s, rfl, _, rfl⟩ := h
        refine ⟨.string s, ?_, rfl⟩
        unfold TypeDefs.typedAt
        refine bind_eq_ok.2 ⟨r, hr, ?_⟩
        rw [hkind]
        rfl
      | object fields =>
        rw [hkind] at h
        obtain ⟨obj, out, rfl, _, hout, rfl⟩ := h
        have hfields : ∀ e ∈ out.filterMap id, ∃ field : FieldSchema,
            Entries.get fields e.1 = some field
              ∧ TypedAs defs field.schema e.2 := by
          intro e he
          obtain ⟨field, x, hfield, hx⟩ := validated_mem hout he
          exact ⟨field, hfield, ih hx⟩
        obtain ⟨ts, hts, hback⟩ := typedFields_typedAs hfields path
        refine ⟨.object ts, ?_, ?_⟩
        · unfold TypeDefs.typedAt
          refine bind_eq_ok.2 ⟨r, hr, ?_⟩
          rw [hkind]
          exact bind_eq_ok.2 ⟨ts, hts, rfl⟩
        · unfold TypedValue.toInternal
          rw [hback]
      | list items maxLen =>
        rw [hkind] at h
        obtain ⟨arr, out, rfl, _, hout, rfl⟩ := h
        have hitems : ∀ x ∈ out, TypedAs defs items x := by
          intro x hx
          obtain ⟨y, _, hy⟩ := forall₂_right hout hx
          exact ih hy
        obtain ⟨ts, hts, hback⟩ := typedItems_typedAs hitems path 0
        refine ⟨.list ts, ?_, ?_⟩
        · unfold TypeDefs.typedAt
          refine bind_eq_ok.2 ⟨r, hr, ?_⟩
          rw [hkind]
          exact bind_eq_ok.2 ⟨ts, hts, rfl⟩
        · unfold TypedValue.toInternal
          rw [hback]
      | unit =>
        rw [hkind] at h
        obtain ⟨_, rfl⟩ := h
        exact ⟨.null, rfl, rfl⟩
      | json =>
        rw [hkind] at h
        obtain ⟨_, rfl⟩ := h
        cases w with
        | null => exact ⟨.null, rfl, rfl⟩
        | _ =>
          refine ⟨.json _, ?_, rfl⟩
          unfold TypeDefs.typedAt
          refine bind_eq_ok.2 ⟨r, hr, ?_⟩
          rw [hkind]
          rfl
      | ref name =>
        rw [hkind] at h
        exact h.elim

theorem validateTyped_eq_ok {t : TypedValue}
    (h : defs.validateTyped schema v = .ok t) :
    ∃ w, defs.validate schema v = .ok w ∧ t.toInternal = w := by
  obtain ⟨w, hw, ht⟩ := bind_ok h
  obtain ⟨t', ht', hback⟩ :=
    (validateAt_eq_ok.1 (guard_ok hw).2).typedAs ""
  have hsame : defs.typedAt schema "" w = .ok t := ht
  rw [ht'] at hsame
  cases hsame
  exact ⟨w, hw, hback⟩

theorem validateTyped_succeeds {w : Value}
    (h : defs.validate schema v = .ok w) :
    ∃ t, defs.validateTyped schema v = .ok t := by
  obtain ⟨t, ht, _⟩ :=
    (validateAt_eq_ok.1 (guard_ok h).2).typedAs ""
  exact ⟨t, bind_eq_ok.2 ⟨w, h, ht⟩⟩

end Validated

end Tasty.Agent
