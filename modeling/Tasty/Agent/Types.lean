/-
Value types of typed tasks (`crates/tasty-agent/src/task/types.rs`):
schemas with named references, the checks on their declaration, and the
validation of a value, which fills in defaults.

The recursions of the source count a depth up to a limit. Here they count
down what is left of it: `left` is `MAX_SCHEMA_DEPTH + 1 - depth`, or
`MAX_VALUE_DEPTH + 1 - depth`, and zero left is too deep.
-/
import Tasty.Agent.Value
import Tasty.Lib.Except

namespace Tasty.Agent

def maxSchemaDepth : Nat := 32
def maxValueDepth : Nat := 64
def maxValueBytes : Nat := 256 * 1024

mutual

/-- The kind of a schema. -/
inductive TypeKind where
  | boolean
  | int64
  | float64 (min max : Option F64)
  | string (maxLen : Option UInt32)
  | enum (values : List String)
  | object (fields : List (String × FieldSchema))
  | list (items : TypeSchema) (maxLen : Option UInt32)
  | unit
  | json
  | ref (name : String)

/-- A value type; a nullable one also takes `null`. -/
structure TypeSchema where
  kind : TypeKind
  nullable : Bool

/-- A field of an object: an optional one may be absent, a default fills
in for an absent one. -/
structure FieldSchema where
  schema : TypeSchema
  optional : Bool
  default : Option Value

end

namespace TypeSchema

def new (kind : TypeKind) : TypeSchema := { kind, nullable := false }

def unit : TypeSchema := .new .unit

def json : TypeSchema := .new .json

def int64 : TypeSchema := .new .int64

def string : TypeSchema := .new (.string none)

end TypeSchema

/-- `optional` without a `default`: the value can be absent even after
validation. -/
def FieldSchema.mayBeAbsent (field : FieldSchema) : Bool :=
  field.optional && field.default.isNone

/-- The field can be left out of what is validated. -/
def FieldSchema.mayBeOmitted (field : FieldSchema) : Bool :=
  field.optional || field.default.isSome

inductive TypeErrorKind where
  | invalidSchema
  | unknownTypeRef
  | recursiveType
  | typeMismatch
  | notInteger
  | outOfRange
  | notFinite
  | unknownEnumValue
  | nullNotAllowed
  | missingField
  | unexpectedField
  | tooLong
  | tooDeep
  | tooLarge
  | incompatible
  deriving DecidableEq

/-- A type error; `path` is a JSON pointer into the value or schema. -/
structure TypeError where
  kind : TypeErrorKind
  path : String
  expected : String
  actual : String
  deriving DecidableEq

abbrev Typed := Except TypeError

/-- A token of a JSON pointer (`~` and `/` escaped). -/
def escape (token : String) : String :=
  String.ofList (token.toList.flatMap fun c =>
    if c = '~' then ['~', '0'] else if c = '/' then ['~', '1'] else [c])

def childPath (path token : String) : String := path ++ "/" ++ escape token

-- ==== short forms

section

variable [F64Text]

mutual

def TypeSchema.describe : TypeSchema → String
  | ⟨kind, nullable⟩ =>
    if nullable then kind.describe ++ "?" else kind.describe

/-- The kind as it appears in errors. -/
def TypeKind.describe : TypeKind → String
  | .boolean => "boolean"
  | .int64 => "int64"
  | .float64 none none => "float64"
  | .float64 min max =>
    let bound (b : Option F64) := (b.map F64Text.display).getD ""
    "float64[" ++ bound min ++ ".." ++ bound max ++ "]"
  | .string none => "string"
  | .string (some n) => s!"string(max {n.toNat})"
  | .enum values => "enum(" ++ String.intercalate "|" values ++ ")"
  | .object _ => "object"
  | .list items _ => "list<" ++ items.describe ++ ">"
  | .unit => "unit"
  | .json => "json"
  | .ref name => name

end

/-- The depth limits as errors. -/
def schemaTooDeep (path : String) : TypeError :=
  ⟨.tooDeep, path, s!"schema depth <= {maxSchemaDepth}", "deeper schema"⟩

def valueTooDeep (path : String) : TypeError :=
  ⟨.tooDeep, path, s!"value depth <= {maxValueDepth}", "deeper value"⟩

/-- A value of another JSON kind than its schema's. -/
def typeMismatch (schema : TypeSchema) (value : Value) (path : String) :
    TypeError :=
  ⟨.typeMismatch, path, schema.describe, value.describe⟩

end

-- ==== named types

/-- The named types of one contract. -/
structure TypeDefs where
  types : List (String × TypeSchema)

def TypeDefs.empty : TypeDefs := ⟨[]⟩

/-- What a schema is once its references are followed. -/
structure ResolvedSchema where
  kind : TypeKind
  nullable : Bool

namespace TypeDefs

/-- The loop of `resolve`; `left` counts the hops that may follow. -/
def resolveFrom (defs : TypeDefs) :
    Nat → TypeSchema → Bool → Typed ResolvedSchema
  | left, cur, nullable =>
    match cur.kind with
    | .ref name =>
      match left with
      | 0 => .error ⟨.recursiveType, "", "a non-recursive type",
          s!"\"{name}\""⟩
      | left + 1 =>
        match Entries.get defs.types name with
        | none => .error ⟨.unknownTypeRef, "",
            "a type declared in 'types'", s!"\"{name}\""⟩
        | some target =>
          resolveFrom defs left target (nullable || target.nullable)
    | kind => .ok ⟨kind, nullable⟩

/-- Follow the references of a schema. -/
def resolve (defs : TypeDefs) (schema : TypeSchema) :
    Typed ResolvedSchema :=
  resolveFrom defs maxSchemaDepth schema schema.nullable

/-- The same for a value: an error is one at the path of the value. -/
def resolveAt (defs : TypeDefs) (schema : TypeSchema) (path : String) :
    Typed ResolvedSchema :=
  match defs.resolve schema with
  | .ok resolved => .ok resolved
  | .error e => .error { e with path }

theorem resolveAt_eq_ok {defs : TypeDefs} {schema : TypeSchema}
    {path : String} {r : ResolvedSchema} :
    defs.resolveAt schema path = .ok r ↔ defs.resolve schema = .ok r := by
  unfold resolveAt
  cases defs.resolve schema <;> simp

end TypeDefs

-- ==== scalars

/-- `-?(0|[1-9][0-9]*)`, and not `-0`. -/
def isCanonicalInt (s : String) : Bool :=
  let digits := match s.toList with
    | '-' :: rest => rest
    | all => all
  !digits.isEmpty && digits.all Char.isDigit
    && (digits = ['0'] || digits.head? ≠ some '0') && s ≠ "-0"

/-- The value of a canonical integer string. -/
def decimal (s : String) : Int :=
  let value (digits : List Char) : Nat :=
    digits.foldl (fun n c => 10 * n + (c.toNat - '0'.toNat)) 0
  match s.toList with
  | '-' :: rest => -(value rest : Int)
  | all => value all

/-- `parse::<i64>` of a canonical integer string. -/
def parseI64 (s : String) : Option Int64 :=
  let i := decimal s
  if -2 ^ 63 ≤ i ∧ i < 2 ^ 63 then some (Int64.ofInt i) else none

section

variable [F64Text]

/-- An int64 from its wire form, a decimal string, or from an integer
token. -/
def int64Of : Value → Except TypeErrorKind Int64
  | .string s =>
    if isCanonicalInt s then
      match parseI64 s with
      | some i => .ok i
      | none => .error .outOfRange
    else if (F64Text.parse s).any fun f => f.isFinite && !f.isWhole then
      .error .notInteger
    else .error .typeMismatch
  | .number n =>
    match n.asI64 with
    | some i => .ok i
    | none =>
      match n with
      | .float f =>
        -- 2^63 as a double is 1086 * 2^52
        if f.isWhole && 1086 * 2 ^ 52 ≤ f.magnitude then
          .error .outOfRange
        else .error .notInteger
      | _ => .error .outOfRange
  | _ => .error .typeMismatch

/-- An integer token is a float64 only when it is one exactly. -/
def floatOf : Number → Option F64
  | .posInt n => F64.ofIntExact n.toNat
  | .negInt n => F64.ofIntExact n.toInt
  | .float f => some f

def validateInt64 (schema : TypeSchema) (value : Value) (path : String) :
    Typed Value :=
  match int64Of value with
  | .ok i => .ok (.ofI64 i)
  | .error .outOfRange => .error ⟨.outOfRange, path,
      s!"int64 in [{(-2 ^ 63 : Int)}, {(2 ^ 63 - 1 : Int)}]",
      value.describe⟩
  | .error kind => .error ⟨kind, path, schema.describe, value.describe⟩

def validateFloat64 (schema : TypeSchema) (min max : Option F64)
    (value : Value) (path : String) : Typed Value :=
  match value with
  | .number n =>
    match floatOf n with
    | none => .error ⟨.outOfRange, path,
        "integer exactly representable as float64", value.describe⟩
    | some f =>
      if f.isFinite = false then
        .error ⟨.notFinite, path, schema.describe, value.describe⟩
      else if min.any f.lt || max.any (·.lt f) then
        .error ⟨.outOfRange, path, schema.describe, value.describe⟩
      else .ok value
  | _ => .error (typeMismatch schema value path)

def validateString (schema : TypeSchema) (maxLen : Option UInt32)
    (value : Value) (path : String) : Typed Value :=
  match value with
  | .string s =>
    if maxLen.any fun n => n.toNat < s.toList.length then
      .error ⟨.tooLong, path, schema.describe,
        s!"string of {s.toList.length} chars"⟩
    else .ok value
  | _ => .error (typeMismatch schema value path)

def validateEnum (schema : TypeSchema) (values : List String)
    (value : Value) (path : String) : Typed Value :=
  match value with
  | .string s =>
    if values.contains s then .ok value
    else .error ⟨.unknownEnumValue, path, schema.describe,
      value.describe⟩
  | _ => .error (typeMismatch schema value path)

-- ==== containers

/-- Validation of a part, one level down. -/
abbrev ValidatePart := TypeSchema → Value → String → Typed Value

/-- One declared field: its value, its default, or nothing. -/
def validateField (part : ValidatePart) (obj : List (String × Value))
    (path : String) : String × FieldSchema →
    Typed (Option (String × Value))
  | (name, field) =>
    let fpath := childPath path name
    match Entries.get obj name with
    | some v => do
        let w ← part field.schema v fpath
        .ok (some (name, w))
    | none =>
      match field.default with
      | some d => do
          let w ← part field.schema d fpath
          .ok (some (name, w))
      | none =>
        if field.optional then .ok none
        else .error ⟨.missingField, fpath, field.schema.describe,
          "absent"⟩

def validateObject (part : ValidatePart) (schema : TypeSchema)
    (fields : List (String × FieldSchema)) (value : Value)
    (path : String) : Typed Value :=
  match value with
  | .object obj =>
    match (Entries.keys obj).find?
        fun k => !Entries.contains fields k with
    | some extra => .error ⟨.unexpectedField, childPath path extra,
        "no undeclared field", s!"field \"{extra}\""⟩
    | none => do
        let out ← (Entries.iter fields).mapM (validateField part obj path)
        .ok (.object (out.filterMap id))
  | _ => .error (typeMismatch schema value path)

def validateList (part : ValidatePart) (schema items : TypeSchema)
    (maxLen : Option UInt32) (value : Value) (path : String) :
    Typed Value :=
  match value with
  | .array arr =>
    if maxLen.any fun n => n.toNat < arr.length then
      .error ⟨.tooLong, path, schema.describe,
        s!"list of {arr.length} items"⟩
    else do
      let out ← arr.zipIdx.mapM fun (v, i) =>
        part items v (childPath path (toString i))
      .ok (.array out)
  | _ => .error (typeMismatch schema value path)

def TypeKind.takesNull : TypeKind → Bool
  | .unit | .json => true
  | _ => false

/-- The value of a resolved kind; `left` levels may follow. -/
def validateKind (part : ValidatePart) (left : Nat) (schema : TypeSchema)
    (value : Value) (path : String) : TypeKind → Typed Value
  | .boolean =>
    match value with
    | .bool _ => .ok value
    | _ => .error (typeMismatch schema value path)
  | .int64 => validateInt64 schema value path
  | .float64 min max => validateFloat64 schema min max value path
  | .string maxLen => validateString schema maxLen value path
  | .enum values => validateEnum schema values value path
  | .object fields => validateObject part schema fields value path
  | .list items maxLen => validateList part schema items maxLen value path
  | .unit =>
    if value.isNull then .ok .null
    else .error (typeMismatch schema value path)
  | .json =>
    if left < value.depth then .error (valueTooDeep path)
    else .ok value
  -- `resolve` follows every reference
  | .ref _ => .error (typeMismatch schema value path)

namespace TypeDefs

variable (defs : TypeDefs)

/-- `validate_at`: check a value and fill in defaults. -/
def validateAt : Nat → TypeSchema → Value → String → Typed Value
  | 0, _, _, path => .error (valueTooDeep path)
  | left + 1, schema, value, path => do
      let resolved ← defs.resolveAt schema path
      if value.isNull && !resolved.kind.takesNull then
        if resolved.nullable then .ok .null
        else .error ⟨.nullNotAllowed, path, schema.describe, "null"⟩
      else
        validateKind (validateAt left) left schema value path resolved.kind

/-- Check a value and fill in defaults. -/
def validate (schema : TypeSchema) (value : Value) : Typed Value :=
  if maxValueBytes < value.size then
    .error ⟨.tooLarge, "", s!"serialized value <= {maxValueBytes} bytes",
      s!"{value.size} bytes"⟩
  else defs.validateAt (maxValueDepth + 1) schema value ""

-- ==== declaration checks

/-- The default of a field is a value of it, checked as a whole value. -/
def checkDefault (path : String) (field : FieldSchema) : Typed Unit :=
  match field.default with
  | some d => do
      let _ ← defs.validateAt (maxValueDepth + 1) field.schema d
        (childPath path "default")
      .ok ()
  | none => .ok ()

/-- References exist and do not recur, the depth is bounded, defaults are
valid. -/
def checkSchema : Nat → TypeSchema → String → List String → Typed Unit
  | 0, _, path, _ => .error (schemaTooDeep path)
  | left + 1, schema, path, stack =>
    match schema.kind with
    | .ref name =>
      match Entries.get defs.types name with
      | none => .error ⟨.unknownTypeRef, path,
          "a type declared in 'types'", s!"\"{name}\""⟩
      | some target =>
        if stack.contains name then
          .error ⟨.recursiveType, path, "a non-recursive type",
            String.intercalate " -> " stack ++ " -> " ++ name⟩
        else checkSchema left target path (stack ++ [name])
    | .object fields =>
      (Entries.iter fields).forM fun (name, field) => do
        let fpath := childPath (childPath path "fields") name
        checkSchema left field.schema fpath stack
        defs.checkDefault fpath field
    | .list items _ =>
      checkSchema left items (childPath path "items") stack
    | _ => .ok ()

/-- Check the named types. -/
def check : Typed Unit :=
  (Entries.iter defs.types).forM fun (name, schema) =>
    defs.checkSchema (maxSchemaDepth + 1) schema (childPath "/types" name)
      [name]

/-- Check a schema that is used outside the names. -/
def checkSchemaAt (schema : TypeSchema) (path : String) : Typed Unit :=
  defs.checkSchema (maxSchemaDepth + 1) schema path []

end TypeDefs

end

end Tasty.Agent
