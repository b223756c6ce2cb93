/-
Where the values of an input go when a task runs (`resolve_execution` of
`crates/tasty-agent/src/task/binding/mapping.rs`), and the parameters that
a custom command is given before and after it.
-/
import Tasty.Agent.Mapping
import Tasty.Agent.Route

namespace Tasty.Agent

-- ==== the surroundings

/-- What is asked of the file system about an argument that is a file. -/
class FileSystem where
  isAbsolute : String → Bool
  join : String → String → String
  isFile : String → Except String Bool
  openable : String → Except String Unit

/-- The texts of values in errors and instructions that only
`serde_json` and the standard library lay out. -/
class ValueText where
  debug : Option Value → String
  pretty : Value → String

/-- `check_readable_file`: relative paths are of the directory of the
run, and without one they are refused. -/
def checkReadableFile [FileSystem] (path : String) (cwd : Option String) :
    Except String Unit := do
  let full ←
    if FileSystem.isAbsolute path then .ok path
    else
      match cwd with
      | some cwd => .ok (FileSystem.join cwd path)
      | none => .error "is a relative path but the run has no cwd"
  match FileSystem.isFile full with
  | .error e => .error s!"cannot be read: {e}"
  | .ok false => .error "is not a regular file"
  | .ok true =>
    match FileSystem.openable full with
    | .error e => .error s!"cannot be read: {e}"
    | .ok () => .ok ()

def inputBlockHeader : String := "Task input (JSON):"

/-- `compose_instruction` with an input. -/
def composeInstruction [ValueText] (instruction : String) (input : Value) :
    String :=
  instruction ++ "\n\n" ++ inputBlockHeader ++ "\n```json\n"
    ++ ValueText.pretty input ++ "\n```"

-- ==== positions

/-- One step of `value_at`. -/
def Value.stepAt (token : String) : Value → Option Value
  | .object map => Entries.get map token
  | .array items => (parseUsize token).bind fun i => items[i]?
  | _ => none

/-- The loop of `value_at`. -/
def Value.walkAt : List String → Value → Option Value
  | [], value => some value
  | token :: rest, value => (value.stepAt token).bind (Value.walkAt rest)

/-- `value_at`: the value at an input pointer. -/
def valueAt (value : Value) (pointer : String) : Option Value :=
  match pointerTokens pointer with
  | .ok tokens => value.walkAt tokens
  | .error _ => none

-- ==== execution

structure ResolvedExecution where
  args : List String
  stdin : Bool
  /-- What a custom command was given. -/
  params : Option Value
  instruction : Option String
  barrier : Option String

def ResolvedExecution.default : ResolvedExecution :=
  { args := [], stdin := false, params := none, instruction := none,
    barrier := none }

def InputMapping.isEmpty (m : InputMapping) : Bool :=
  m.args.isEmpty && !m.stdin && m.params.isEmpty && !m.inputBlock
    && m.barrier.isNone

section

variable [FileSystem] [ValueText]

/-- The `i`-th element that the input adds to the arguments. -/
def resolveArg (taskId : TaskId) (cwd : Option String) (internal : Value)
    (source : ArgSource) (i : Nat) : Checking String :=
  let pointer := source.pointer
  let loc := s!"/input_mapping/args/{i}"
  let fail (m loc : String) : Checking String :=
    .error (inputFailure s!"task {taskId}: {m}" loc)
  match source with
  | .file _ =>
    match valueAt internal pointer with
    | some (.string path) =>
      match checkReadableFile path cwd with
      | .ok () => .ok path
      | .error why => fail
          s!"file '{path}' (from '{pointer}') {why}" (loc ++ "/file")
    | _ => fail s!"file path at '{pointer}' is not a string"
        (loc ++ "/file")
  | .value _ =>
    let other (found : Option Value) : Checking String :=
      fail (s!"argv value at '{pointer}' is not a string, int64 or "
        ++ "boolean: " ++ ValueText.debug found) loc
    match valueAt internal pointer with
    | some (.string s) => .ok s
    | some (.bool b) => .ok (if b then "true" else "false")
    | some (.number n) =>
      match n.asI64 with
      | some i => .ok (toString i.toInt)
      | none => other (some (.number n))
    | found => other found

end

/-- One value put into the parameters: the objects on the way are there
already, and `last` is a field of the innermost. -/
def insertParam (taskId : TaskId) (pointer loc : String) :
    List String → String → Value → Value → Checking Value
  | [], last, v, .object m => .ok (.object (Entries.insert last v m))
  | [], _, _, _ => .error (inputFailure (s!"task {taskId}: params pointer "
      ++ s!"'{pointer}': parent is not an object") loc)
  | t :: rest, last, v, .object m =>
    match Entries.get m t with
    | some cur => do
        let cur ← insertParam taskId pointer loc rest last v cur
        .ok (.object (Entries.insert t cur m))
    | none => .error (inputFailure
        s!"task {taskId}: params has no '{t}'" loc)
  | t :: _, _, _, _ => .error (inputFailure
      s!"task {taskId}: params has no '{t}'" loc)

/-- One entry of the parameter mapping. -/
def mapParam (taskId : TaskId) (internal params : Value)
    (entry : String × String) : Checking Value :=
  let loc := "/input_mapping/params/" ++ escape entry.1
  let fail (m : String) : Checking Value :=
    .error (inputFailure s!"task {taskId}: {m}" loc)
  match valueAt internal entry.2 with
  | none => fail s!"input has nothing at '{entry.2}'"
  | some v =>
    match pointerTokens entry.1 with
    | .error m => fail m
    | .ok tokens =>
      match tokens.getLast? with
      | none => fail "empty params pointer"
      | some last =>
        insertParam taskId entry.1 loc tokens.dropLast last v params

/-- What the mapped values are put into: no parameters are an empty
object. -/
def paramsStart (base : Option Value) : Value :=
  let params := base.getD .null
  if params.isNull then .object [] else params

/-- The parameters with all mapped values, in the order of the pointers. -/
def mapParams (taskId : TaskId) (internal : Value)
    (mapping : List (String × String)) (base : Option Value) :
    Checking Value :=
  (Entries.iter mapping).foldlM (mapParam taskId internal)
    (paramsStart base)

section

variable [DebugText] [FileSystem] [ValueText]

/-- The barrier that the input names. -/
def resolveBarrier (taskId : TaskId) (internal : Value) (pointer : String) :
    Checking String :=
  let fail (m : String) : Checking String :=
    .error (inputFailure s!"task {taskId}: {m}" "/input_mapping/barrier")
  match valueAt internal pointer with
  | some (.string name) =>
    match checkBarrierName name with
    | .ok () => .ok name
    | .error e => fail e
  | found => fail (s!"barrier name at '{pointer}' is not a string: "
      ++ ValueText.debug found)

/-- `resolve_execution`: what a task is run with. -/
def resolveExecution (task : Task) (contract : TaskContract)
    (value : TypedValue) (baseParams : Option Value) :
    Checking ResolvedExecution :=
  match contract.inputMapping.filter fun m => !m.isEmpty with
  | none => .ok .default
  | some mapping => do
      let internal := value.toInternal
      let cwd := match task.command with
        | .run _ _ cwd => cwd
        | _ => none
      let args ← mapping.args.zipIdx.mapM fun (source, i) =>
        resolveArg task.id cwd internal source i
      let params ←
        if mapping.params.isEmpty then .ok none
        else (mapParams task.id internal mapping.params baseParams).map some
      let barrier ←
        match mapping.barrier with
        | some pointer =>
          (resolveBarrier task.id internal pointer).map some
        | none => .ok none
      let instruction := match task.command with
        | .agent _ _ instruction _ =>
          if mapping.inputBlock then
            some (composeInstruction instruction value.toWire)
          else none
        | _ => none
      .ok { args, stdin := mapping.stdin, params, instruction, barrier }

end

-- ==== parameters

namespace Value

mutual

/-- The parameters with each text that has placeholders replaced: by a
text, or by the output of another task. -/
def substituteTexts (f : String → Value) : Value → Value
  | string s => f s
  | array items => array (substituteItems f items)
  | object entries => object (substituteEntries f entries)
  | null => null
  | bool b => bool b
  | number n => number n

def substituteItems (f : String → Value) : List Value → List Value
  | [] => []
  | v :: rest => v.substituteTexts f :: substituteItems f rest

def substituteEntries (f : String → Value) :
    List (String × Value) → List (String × Value)
  | [] => []
  | (k, v) :: rest => (k, v.substituteTexts f) :: substituteEntries f rest

end

end Value

/-- `custom_params`: the mapped parameters, if there are any. -/
def customParams (execution : ResolvedExecution) (params : Value) : Value :=
  execution.params.getD params

end Tasty.Agent
