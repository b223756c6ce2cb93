/-
The JSON form in which value types are declared
(`crates/tasty-agent/src/task/types.rs`): what is read as a schema, and
how a schema is written. The keys of a field's schema and those of the
field itself share one object.

As in the checks of schemas, `left` is what is left of the depth.
-/
import Tasty.Agent.Numbers
import Tasty.Agent.Types

namespace Tasty.Agent

-- ==== reading

section Reading

variable [F64Text]

/-- `invalid`: a declaration of another form. -/
def invalidSchema (path expected actual : String) : TypeError :=
  ⟨.invalidSchema, path, expected, actual⟩

/-- A flag, off where it is not given. -/
def optBool (m : Entries Value) (key path : String) : Typed Bool :=
  match Entries.get m key with
  | none => .ok false
  | some (.bool b) => .ok b
  | some other => .error
      (invalidSchema (childPath path key) "boolean" other.describe)

/-- `as_u64`, and then as 32 bits. -/
def Value.asU32 : Value → Option UInt32
  | .number (.posInt n) =>
    if n.toNat < UInt32.size then some n.toUInt32 else none
  | _ => none

/-- `opt_u32`. -/
def optU32 (m : Entries Value) (key path : String) :
    Typed (Option UInt32) :=
  match Entries.get m key with
  | none => .ok none
  | some v =>
    match v.asU32 with
    | some n => .ok (some n)
    | none => .error (invalidSchema (childPath path key)
        "unsigned 32-bit integer" v.describe)

/-- `as_f64` of a value. -/
def Value.asF64 : Value → Option F64
  | .number n => some n.asF64
  | _ => none

/-- `opt_finite`. -/
def optFinite (m : Entries Value) (key path : String) :
    Typed (Option F64) :=
  match Entries.get m key with
  | none => .ok none
  | some v =>
    match v.asF64.filter F64.isFinite with
    | some f => .ok (some f)
    | none => .error
        (invalidSchema (childPath path key) "finite number" v.describe)

/-- The values of an enumeration that follow those `seen`. -/
def parseEnumItems (vpath : String) :
    Nat → List String → List Value → Typed (List String)
  | _, _, [] => .ok []
  | i, seen, item :: rest =>
    let ipath := childPath vpath (toString i)
    match item with
    | .string s =>
      if seen.contains s then
        .error (invalidSchema ipath "unique value" s!"duplicate \"{s}\"")
      else do
        let values ← parseEnumItems vpath (i + 1) (s :: seen) rest
        .ok (s :: values)
    | item => .error (invalidSchema ipath "string" item.describe)

def parseEnumValues (m : Entries Value) (path : String) :
    Typed (List String) :=
  let vpath := childPath path "values"
  match Entries.get m "values" with
  | some (.array arr) =>
    if arr.isEmpty then
      .error (invalidSchema vpath "at least one value" "empty array")
    else parseEnumItems vpath 0 [] arr
  | _ => .error
      (invalidSchema vpath "array of strings" "missing or not an array")

/-- A schema with what it says of the field that it is the schema of:
whether it is optional, and its default. -/
structure ParsedSchema where
  schema : TypeSchema
  optional : Bool
  default : Option Value

/-- Reading of a part, one level down; the flag says whether it is that of
a field. -/
abbrev ParsePart := Value → String → Bool → Typed ParsedSchema

/-- The fields of `fm`, one after the other. -/
def parseFieldEntries (part : ParsePart) (fpath : String) :
    List (String × FieldSchema) → List (String × Value) →
    Typed (List (String × FieldSchema))
  | fields, [] => .ok fields
  | fields, (name, fv) :: rest => do
      let p ← part fv (childPath fpath name) true
      parseFieldEntries part fpath
        (Entries.insert name ⟨p.schema, p.optional, p.default⟩ fields) rest

def parseFields (part : ParsePart) (m : Entries Value) (path : String) :
    Typed (List (String × FieldSchema)) :=
  let fpath := childPath path "fields"
  match Entries.get m "fields" with
  | some (.object fm) =>
    parseFieldEntries part fpath [] (Entries.iter fm)
  | _ => .error (invalidSchema fpath "object of field schemas"
      "missing or not an object")

/-- The bounds of a float64, in order. -/
def parseBounds (m : Entries Value) (path : String) : Typed TypeKind := do
  let min ← optFinite m "min" path
  let max ← optFinite m "max" path
  match min, max with
  | some lo, some hi =>
    if hi.lt lo then
      .error (invalidSchema path "min <= max"
        s!"min {F64Text.display lo} > max {F64Text.display hi}")
    else .ok (.float64 (some lo) (some hi))
  | min, max => .ok (.float64 min max)

def parseList (part : ParsePart) (m : Entries Value) (path : String) :
    Typed TypeKind :=
  match Entries.get m "items" with
  | none => .error (invalidSchema path "'items' schema" "missing")
  | some itemsV => do
      let p ← part itemsV (childPath path "items") false
      let maxLen ← optU32 m "max_len" path
      .ok (.list p.schema maxLen)

/-- The kind that `type` names, and its keys beside the common ones. -/
def parseNamedKind (part : ParsePart) (m : Entries Value) (path : String) :
    String → Typed (TypeKind × List String)
  | "boolean" => .ok (.boolean, [])
  | "int64" => .ok (.int64, [])
  | "float64" => do
      let kind ← parseBounds m path
      .ok (kind, ["min", "max"])
  | "string" => do
      let maxLen ← optU32 m "max_len" path
      .ok (.string maxLen, ["max_len"])
  | "enum" => do
      let values ← parseEnumValues m path
      .ok (.enum values, ["values"])
  | "object" => do
      let fields ← parseFields part m path
      .ok (.object fields, ["fields"])
  | "list" => do
      let kind ← parseList part m path
      .ok (kind, ["items", "max_len"])
  | "unit" => .ok (.unit, [])
  | "json" => .ok (.json, [])
  | other => .error (invalidSchema (childPath path "type")
      "boolean|int64|float64|string|enum|object|list|unit|json"
      s!"\"{other}\"")

/-- A reference, or a kind of its own. -/
def parseKind (part : ParsePart) (m : Entries Value) (path : String) :
    Typed (TypeKind × List String) :=
  match Entries.get m "ref" with
  | some r =>
    if Entries.contains m "type" then
      .error (invalidSchema path "either 'type' or 'ref'" "both")
    else
      match r with
      | .string name => .ok (.ref name, ["ref"])
      | r => .error
          (invalidSchema (childPath path "ref") "type name" r.describe)
  | none =>
    match Entries.get m "type" with
    | some (.string ty) => parseNamedKind part m path ty
    | some other => .error
        (invalidSchema (childPath path "type") "type name" other.describe)
    | none => .error (invalidSchema path "'type' or 'ref'" "neither")

def schemaKeysCommon : List String := ["type", "nullable"]

def fieldKeys : List String := ["optional", "default"]

/-- Every key is one that the kind declares. -/
def checkSchemaKeys (m : Entries Value) (path : String)
    (allowed : List String) (asField : Bool) : Typed Unit :=
  match (Entries.keys m).find? fun key =>
      !(schemaKeysCommon.contains key || allowed.contains key
        || (asField && fieldKeys.contains key)) with
  | some key => .error ⟨.unexpectedField, childPath path key,
      "a declared schema key", s!"\"{key}\""⟩
  | none => .ok ()

/-- Whether a field is optional. -/
def parseOptional (m : Entries Value) (path : String) (asField : Bool) :
    Typed Bool :=
  if asField then optBool m "optional" path else .ok false

/-- `parse_schema`. -/
def parseSchema : Nat → Value → String → Bool → Typed ParsedSchema
  | 0, _, path, _ => .error (schemaTooDeep path)
  | left + 1, .object m, path, asField => do
      let nullable ← optBool m "nullable" path
      let optional ← parseOptional m path asField
      let default := if asField then Entries.get m "default" else none
      let (kind, allowed) ← parseKind (parseSchema left) m path
      let _ ← checkSchemaKeys m path allowed asField
      -- these take null as they are
      if nullable && kind.takesNull then
        .error (invalidSchema (childPath path "nullable")
          "no 'nullable' on unit or json" "nullable: true")
      else .ok ⟨⟨kind, nullable⟩, optional, default⟩
  | _ + 1, v, path, _ =>
    .error (invalidSchema path "schema object" v.describe)

/-- `TypeSchema::from_json`. -/
def TypeSchema.fromJson (v : Value) : Typed TypeSchema := do
  let p ← parseSchema (maxSchemaDepth + 1) v "" false
  .ok p.schema

end Reading

-- ==== writing

/-- A key that is written if it has a value. -/
def insertSome (key : String) (v : Option Value) (m : Entries Value) :
    Entries Value :=
  match v with
  | some v => Entries.insert key v m
  | none => m

/-- A flag, written if it is on. -/
def insertTrue (key : String) (b : Bool) (m : Entries Value) :
    Entries Value :=
  insertSome key (if b then some (.bool true) else none) m

/-- `Value::from` of a double. -/
def ofF64 (f : F64) : Value :=
  if f.isFinite then .number (.float f) else .null

/-- `Value::from` of 32 bits. -/
def ofU32 (n : UInt32) : Value := .number (.posInt n.toUInt64)

mutual

/-- `write_json`, into the keys that are there. -/
def TypeSchema.writeJson : TypeSchema → Entries Value → Entries Value
  | ⟨kind, nullable⟩, m => insertTrue "nullable" nullable (kind.writeJson m)

/-- The kind and what belongs to it. -/
def TypeKind.writeJson : TypeKind → Entries Value → Entries Value
  | .ref name, m => Entries.insert "ref" (.string name) m
  | .boolean, m => Entries.insert "type" (.string "boolean") m
  | .int64, m => Entries.insert "type" (.string "int64") m
  | .float64 min max, m =>
    insertSome "max" (max.map ofF64)
      (insertSome "min" (min.map ofF64)
        (Entries.insert "type" (.string "float64") m))
  | .string maxLen, m =>
    insertSome "max_len" (maxLen.map ofU32)
      (Entries.insert "type" (.string "string") m)
  | .enum values, m =>
    Entries.insert "values" (.array (values.map .string))
      (Entries.insert "type" (.string "enum") m)
  | .object fields, m =>
    Entries.insert "fields" (.object (writeFields fields []))
      (Entries.insert "type" (.string "object") m)
  | .list items maxLen, m =>
    insertSome "max_len" (maxLen.map ofU32)
      (Entries.insert "items" (.object (items.writeJson []))
        (Entries.insert "type" (.string "list") m))
  | .unit, m => Entries.insert "type" (.string "unit") m
  | .json, m => Entries.insert "type" (.string "json") m

/-- The declarations of fields, one after the other. -/
def writeFields :
    List (String × FieldSchema) → Entries Value → Entries Value
  | [], fm => fm
  | (name, ⟨schema, optional, default⟩) :: rest, fm =>
    writeFields rest (Entries.insert name
      (.object (insertSome "default" default
        (insertTrue "optional" optional (schema.writeJson [])))) fm)

end

/-- `TypeSchema::to_json`. -/
def TypeSchema.toJson (s : TypeSchema) : Value := .object (s.writeJson [])

end Tasty.Agent
