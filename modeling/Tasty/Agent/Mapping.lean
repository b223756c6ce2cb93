/-
Where the input of a task goes when it runs
(`crates/tasty-agent/src/task/binding/mapping.rs`), as it is checked when
the task is created, and the names of barriers.
-/
import Tasty.Agent.Binding

namespace Tasty.Agent

/-- The debug forms of characters and strings, in errors. -/
class DebugText where
  char : Char → String
  string : String → String

-- ==== keys

/-- The bytes of a text, as the characters of the same codes. -/
def byteChars (s : String) : List Char :=
  s.toUTF8.toList.map fun b => Char.ofNat b.toNat

def maxKeyLen : Nat := 256

def keyAllowedChars : String := "lowercase a-z, 0-9, '.', '_', '-'"

def isKeyChar (c : Char) : Bool :=
  c.isLower || c.isDigit || c = '.' || c = '_' || c = '-'

section

variable [DebugText]

/-- The keys of the memory store. -/
def validateKey (key : String) : Except String Unit :=
  if key = "" then .error "empty key"
  else if maxKeyLen < key.utf8ByteSize then
    .error s!"key too long: {key.utf8ByteSize} > {maxKeyLen}"
  else
    match (byteChars key).zipIdx.find? fun (c, _) => !isKeyChar c with
    | some (c, i) => .error s!"invalid char at {i}: {DebugText.char c}"
    | none => .ok ()

/-- A key made of a prefix and a value of the caller. -/
def componentKey (keyPrefix label value : String) : Except String String :=
  let key := keyPrefix ++ value
  match validateKey key with
  | .ok () => .ok key
  | .error full =>
    let budget := maxKeyLen - keyPrefix.utf8ByteSize
    let bad := value.toList.zipIdx.find? fun (c, _) =>
      (validateKey (String.singleton c)).toOption.isNone
    let reason := match bad with
      | some (c, i) => s!"invalid char at {i}: {DebugText.char c}"
      | none =>
        if value = "" then full
        else s!"too long: {value.utf8ByteSize} bytes > {budget}"
    .error (s!"invalid argument: {label} {DebugText.string value}: "
      ++ s!"{reason} (allowed: {keyAllowedChars}; at most {budget} bytes)")

def barrierKeyPrefix : String := "tasty.agent.barrier."

/-- A name that a barrier can have. -/
def checkBarrierName (name : String) : Except String Unit := do
  let _ ← componentKey barrierKeyPrefix "barrier name" name
  .ok ()

end

-- ==== the mapping

section Mapping

variable [F64Text] [DebugText]

def TypeKind.isUnit : TypeKind → Bool
  | .unit => true
  | _ => false

def TypeKind.isString : TypeKind → Bool
  | .string _ => true
  | _ => false

/-- A barrier name has one source, and a name in the command is one. -/
def checkBarrierSource (taskId : TaskId) (name : Option String)
    (fromInput : Bool) (place : String) : Checking Unit :=
  let fail (m loc : String) : Checking Unit :=
    .error (inputFailure s!"task {taskId}: {m}" loc)
  match name, fromInput with
  | some _, true => fail
      ("wait_barrier takes its barrier name from command name or "
        ++ "input_mapping barrier, not both")
      (place ++ "/input_mapping/barrier")
  | none, false => fail
      ("wait_barrier needs a barrier name: set command name or "
        ++ "input_mapping barrier") (place ++ "/command")
  | some n, false =>
    match checkBarrierName n with
    | .ok () => .ok ()
    | .error e => fail e (place ++ "/command/name")
  | none, true => .ok ()

/-- The type of an input position that is always there. -/
def presentAt (taskId : TaskId) (defs : TypeDefs) (input : TypeSchema)
    (pointer loc : String) : Checking TypeSchema :=
  match defs.schemaAt input pointer with
  | .error e => .error (typedFailure taskId e loc
      (some s!"task {taskId}: input pointer '{pointer}': {e.display}"))
  | .ok (s, mayBeAbsent) =>
    if mayBeAbsent then
      .error (inputFailure (s!"task {taskId}: input pointer '{pointer}' "
        ++ "may be absent; mapped inputs must always be present") loc)
    else .ok s

def checkArg (taskId : TaskId) (defs : TypeDefs) (input : TypeSchema)
    (loc : String) (source : ArgSource) : Checking Unit := do
  let pointer := source.pointer
  let s ← presentAt taskId defs input pointer loc
  match defs.resolve s with
  | .error e => .error (typedFailure taskId e loc none)
  | .ok r =>
    match source with
    | .file _ =>
      if r.kind.isString && !r.nullable then .ok ()
      else .error (inputFailure (s!"task {taskId}: file path at "
        ++ s!"'{pointer}' is {s.describe}; a file path is a string")
        (loc ++ "/file"))
    | .value _ =>
      if r.kind.hasText && !r.nullable then .ok ()
      else .error (inputFailure (s!"task {taskId}: argv value at "
        ++ s!"'{pointer}' is {s.describe}; argv takes string, enum, "
        ++ "int64 or boolean (pass structured input through stdin)")
        loc)

/-- The parent of a position in the parameters of a command. -/
def paramsParent (taskId : TaskId) (pointer loc : String) :
    Value → List String → Checking Value
  | cur, [] => .ok cur
  | cur, t :: rest =>
    match (match cur with
      | .object map => Entries.get map t
      | _ => none) with
    | some v => paramsParent taskId pointer loc v rest
    | none => .error (inputFailure (s!"task {taskId}: params pointer "
        ++ s!"'{pointer}': parent object is missing in params") loc)

def checkParam (taskId : TaskId) (defs : TypeDefs) (input : TypeSchema)
    (params : Value) (place : String) :
    String × String → Checking Unit
  | (paramPtr, inputPtr) => do
      let loc := place ++ "/params/" ++ escape paramPtr
      let fail (m : String) : Checking Unit :=
        .error (inputFailure s!"task {taskId}: {m}" loc)
      let _ ← presentAt taskId defs input inputPtr loc
      match pointerTokens paramPtr with
      | .error m => fail m
      | .ok [] =>
        fail "a params pointer must name a field, not the whole params"
      | .ok (token :: rest) => do
          let parent := (token :: rest).dropLast
          let cur ← paramsParent taskId paramPtr loc params parent
          match cur with
          | .object _ => .ok ()
          | cur =>
            if parent.isEmpty && cur.isNull then .ok ()
            else
              fail s!"params pointer '{paramPtr}': parent is not an object"

/-- A barrier name from the input is a string. -/
def checkBarrierPointer (taskId : TaskId) (defs : TypeDefs)
    (input : TypeSchema) (loc pointer : String) : Checking Unit := do
  let s ← presentAt taskId defs input pointer loc
  match defs.resolve s with
  | .error e => .error (typedFailure taskId e loc none)
  | .ok r =>
    if r.kind.isString && !r.nullable then .ok ()
    else .error (inputFailure (s!"task {taskId}: barrier name at "
      ++ s!"'{pointer}' is {s.describe}; a barrier name is a string") loc)

/-- Which parts of a mapping go with which kind of command. -/
def checkMappingKind (taskId : TaskId) (defs : TypeDefs)
    (input : TypeSchema) (mapping : InputMapping) (command : TaskCommand)
    (place : String) : Checking Unit := do
  let loc := place ++ "/input_mapping"
  let fail (m l : String) : Checking Unit :=
    .error (inputFailure s!"task {taskId}: {m}" l)
  let kind := commandKind command
  let isRun := match command with | .run .. => true | _ => false
  let isCustom := match command with | .custom .. => true | _ => false
  let isAgent := match command with | .agent .. => true | _ => false
  match command with
  | .waitBarrier name =>
    checkBarrierSource taskId name mapping.barrier.isSome place
  | _ =>
    if mapping.barrier.isSome then
      fail s!"input_mapping barrier applies to wait_barrier, not {kind}"
        (loc ++ "/barrier")
    else .ok ()
  if mapping.inputBlock && !isAgent then
    fail s!"input_mapping input_block applies to agent, not {kind}" loc
  else .ok ()
  if (!mapping.args.isEmpty || mapping.stdin) && !isRun then
    fail s!"input_mapping args/stdin apply to run, not {kind}" loc
  else .ok ()
  if !mapping.params.isEmpty && !isCustom then
    fail s!"input_mapping params apply to custom, not {kind}" loc
  else .ok ()
  let inputIsUnit := match defs.resolve input with
    | .ok r => r.kind.isUnit
    | .error _ => false
  if !inputIsUnit && isAgent && !mapping.inputBlock then
    fail ("agent input reaches the session only through input_mapping "
      ++ "input_block") loc
  else .ok ()
  if mapping.inputBlock && inputIsUnit then
    fail "input_mapping input_block needs a non-unit input"
      (loc ++ "/input_block")
  else .ok ()
  if !inputIsUnit && !isRun && !isCustom && !isAgent
      && mapping.barrier.isNone then
    fail s!"{kind} has no input mapping; its input_schema must be unit"
      (place ++ "/input_schema")
  else .ok ()
  if mapping.stdin && inputIsUnit then
    fail "input_mapping stdin needs a non-unit input" (loc ++ "/stdin")
  else .ok ()

def checkMapping (taskId : TaskId) (defs : TypeDefs) (input : TypeSchema)
    (contract : TaskContract) (command : TaskCommand) (place : String) :
    Checking Unit := do
  let mapping := contract.inputMapping.getD .default
  let loc := place ++ "/input_mapping"
  checkMappingKind taskId defs input mapping command place
  mapping.args.zipIdx.forM fun (source, i) =>
    checkArg taskId defs input (loc ++ s!"/args/{i}") source
  match mapping.barrier with
  | some pointer =>
    checkBarrierPointer taskId defs input (loc ++ "/barrier") pointer
  | none => .ok ()
  match command with
  | .custom _ params =>
    (Entries.iter mapping.params).forM
      (checkParam taskId defs input params loc)
  | _ => .ok ()

end Mapping

end Tasty.Agent
