/-
The input bindings of v2 tasks (`crates/tasty-agent/src/task/binding.rs`):
JSON pointers, the check of the bindings when a task is created, and the
reading of the values when it runs. The record of what was read, kept for
display, is left out.
-/
import Tasty.Agent.Task

namespace Tasty.Agent

-- ==== pointers

/-- A token of a pointer without its `~` escapes. -/
def unescape (pointer : String) : List Char → Except String (List Char)
  | [] => .ok []
  | '~' :: '0' :: rest => do
      let out ← unescape pointer rest
      .ok ('~' :: out)
  | '~' :: '1' :: rest => do
      let out ← unescape pointer rest
      .ok ('/' :: out)
  | '~' :: _ =>
    .error s!"JSON pointer '{pointer}' has an invalid '~' escape"
  | c :: rest => do
      let out ← unescape pointer rest
      .ok (c :: out)

/-- The parts of a text between its slashes. -/
def splitSlash : List Char → List (List Char)
  | [] => [[]]
  | '/' :: rest => [] :: splitSlash rest
  | c :: rest =>
    match splitSlash rest with
    | [] => [[c]]
    | part :: parts => (c :: part) :: parts

/-- `pointer_tokens`: the empty pointer is the whole value. -/
def pointerTokens (pointer : String) : Except String (List String) :=
  match pointer.toList with
  | [] => .ok []
  | '/' :: rest => (splitSlash rest).mapM fun raw => do
      let token ← unescape pointer raw
      .ok (String.ofList token)
  | _ => .error s!"JSON pointer '{pointer}' must be empty or start with '/'"

def isArrayIndex (token : String) : Bool :=
  !token.toList.isEmpty && token.toList.all Char.isDigit
    && (token = "0" || token.toList.head? ≠ some '0')

/-- The decimal number of an index. -/
def arrayIndex (token : String) : Nat :=
  token.toList.foldl (fun n c => 10 * n + (c.toNat - '0'.toNat)) 0

/-- One step of a pointer into a value. -/
def Value.step (token : String) : Value → Option Value
  | .object map => Entries.get map token
  | .array items =>
    if isArrayIndex token then items[arrayIndex token]? else none
  | _ => none

/-- Where a pointer leads in a value. -/
def Value.walk : List String → Value → Option Value
  | [], value => some value
  | token :: rest, value => (value.step token).bind (Value.walk rest)

-- ==== types

section Check

variable [F64Text]

/-- The loop of `schema_at`; `at` is the path so far. -/
def TypeDefs.schemaAtFrom (defs : TypeDefs) :
    List String → TypeSchema → Bool → String → Typed (TypeSchema × Bool)
  | [], cur, mayBeAbsent, _ => .ok (cur, mayBeAbsent)
  | token :: rest, cur, mayBeAbsent, path => do
      let path := childPath path token
      let resolved ← defs.resolve cur
      let mayBeAbsent := mayBeAbsent || resolved.nullable
      let mismatch : Typed (TypeSchema × Bool) :=
        .error ⟨.typeMismatch, path, "an object field or list index",
          s!"{(TypeSchema.new resolved.kind).describe} has no \"{token}\""⟩
      match resolved.kind with
      | .object fields =>
        match Entries.get fields token with
        | some field =>
          defs.schemaAtFrom rest field.schema
            (mayBeAbsent || field.mayBeAbsent) path
        | none => .error ⟨.missingField, path,
            "a field declared in the source output", s!"\"{token}\""⟩
      | .list items _ =>
        if isArrayIndex token then
          defs.schemaAtFrom rest items mayBeAbsent path
        else mismatch
      | .json => .ok (.json, mayBeAbsent)
      | _ => mismatch

/-- The type a pointer leads to in a schema, and whether the value there
may be absent. Items of lists and what is inside `json` are looked at when
the task runs. -/
def TypeDefs.schemaAt (defs : TypeDefs) (schema : TypeSchema)
    (pointer : String) : Typed (TypeSchema × Bool) :=
  match pointerTokens pointer with
  | .ok tokens => defs.schemaAtFrom tokens schema false ""
  | .error m => .error ⟨.typeMismatch, pointer, "a JSON pointer", m⟩

-- ==== the check

abbrev Checking := Except TaskFailure

def inputFailure (message location : String) : TaskFailure :=
  { TaskFailure.new .input message with location := some location }

/-- A type error of an input, at a place of the definition. -/
def typedFailure (taskId : TaskId) (e : TypeError) (location : String)
    (message : Option String) : TaskFailure :=
  let f := TaskFailure.typed .input (some taskId) e
  { f with message := message.getD f.message, location := some location }

/-- The kinds with a plain text form. -/
def TypeKind.hasText : TypeKind → Bool
  | .string _ | .enum _ | .int64 | .boolean => true
  | _ => false

def TypeKind.isInt64 : TypeKind → Bool
  | .int64 => true
  | _ => false

/-- The conversion of a source type to the type of the field. -/
def checkConversion (sdefs : TypeDefs) (sub : TypeSchema)
    (defs : TypeDefs) (target : TypeSchema) :
    Option Conversion → Typed Unit
  | none => checkAssignable sdefs sub defs target
  | some .assert => .ok ()
  | some .toString => do
      let r ← sdefs.resolve sub
      if r.kind.hasText && !r.nullable then
        checkAssignable .empty .string defs target
      else .error ⟨.incompatible, "",
        "string, enum, int64 or boolean for to_string", sub.describe⟩
  | some .int64ToFloat64 => do
      let r ← sdefs.resolve sub
      if r.kind.isInt64 && !r.nullable then do
        let t ← defs.resolve target
        match t.kind with
        | .float64 _ _ => .ok ()
        | _ => .error ⟨.incompatible, "",
            "a float64 input field for int64_to_float64", target.describe⟩
      else .error ⟨.incompatible, "", "int64 for int64_to_float64",
        sub.describe⟩

def checkSource (taskId : TaskId) (defs : TypeDefs) (field : FieldSchema)
    (lookup : TaskId → Option Task) (convert : Option Conversion)
    (loc : String) (source : BindingSource) : Checking Unit :=
  match lookup source.fromTask with
  | none => .error (inputFailure
      s!"task {taskId}: binding source task not found: {source.fromTask}"
      (loc ++ "/from_task"))
  | some producer =>
    if producer.id = taskId then
      .error (inputFailure
        s!"task {taskId}: a task cannot bind its own output"
        (loc ++ "/from_task"))
    else
      let (sdefs, sschema) := outputSchemaOf producer
      let described := s!"task {taskId}: input from task " ++
        s!"{source.fromTask} at '{source.pointer}'"
      match sdefs.schemaAt sschema source.pointer with
      | .error e => .error (typedFailure taskId e (loc ++ "/pointer")
          (some (described ++ ": " ++ e.display)))
      | .ok (sub, mayBeAbsent) =>
        if mayBeAbsent && !field.mayBeOmitted then
          .error (inputFailure (described
            ++ ": the source value may be absent (optional or "
            ++ "nullable on the way); make the input field optional "
            ++ "or give it a default") (loc ++ "/pointer"))
        else
          match checkConversion sdefs sub defs field.schema convert with
          | .error e => .error (typedFailure taskId e loc
              (some (described ++ ": " ++ e.display)))
          | .ok () => .ok ()

/-- The sources of a `one_of`, each from another task; `seen` are the
tasks before. -/
def checkOneOf (taskId : TaskId) (defs : TypeDefs) (field : FieldSchema)
    (lookup : TaskId → Option Task) (convert : Option Conversion)
    (loc : String) : List TaskId → List BindingSource → Checking Unit
  | _, [] => .ok ()
  | seen, s :: rest => do
      let place := loc ++ s!"/one_of/{seen.length}"
      if seen.contains s.fromTask then
        .error (inputFailure (s!"task {taskId}: one_of lists task "
          ++ s!"{s.fromTask} more than once") place)
      else do
        checkSource taskId defs field lookup convert place s
        checkOneOf taskId defs field lookup convert loc
          (seen ++ [s.fromTask]) rest

def checkBinding (taskId : TaskId) (defs : TypeDefs) (field : FieldSchema)
    (lookup : TaskId → Option Task) (loc : String) :
    InputBinding → Checking Unit
  | .literal v =>
    match defs.validate field.schema v with
    | .ok _ => .ok ()
    | .error e => .error (typedFailure taskId
        { e with path := "/literal" ++ e.path } loc none)
  | .fromTask source convert =>
    checkSource taskId defs field lookup convert loc source
  | .oneOf sources convert =>
    if sources.length < 2 then
      .error (inputFailure
        s!"task {taskId}: one_of needs at least two sources"
        (loc ++ "/one_of"))
    else checkOneOf taskId defs field lookup convert loc [] sources

/-- One input field: its binding, or the right to go without. -/
def checkField (taskId : TaskId) (contract : TaskContract) (place : String)
    (lookup : TaskId → Option Task) : String × FieldSchema → Checking Unit
  | (name, field) =>
    let loc := place ++ "/bindings/" ++ escape name
    match Entries.get contract.bindings name with
    | some binding =>
      checkBinding taskId contract.defs field lookup loc binding
    | none =>
      if field.mayBeOmitted then .ok ()
      else .error (inputFailure
        (s!"task {taskId}: required input field '{name}' "
          ++ s!"({field.schema.describe}) has no binding or default")
        loc)

end Check

end Tasty.Agent
