/-
The inputs of a v2 task as a whole (`check_inputs` and `resolve_value` of
`crates/tasty-agent/src/task/binding.rs`): the check when it is created,
and the values it gets when it runs.
-/
import Tasty.Agent.Mapping

namespace Tasty.Agent

section Check

variable [F64Text] [DebugText]

/-- The first half of `check_inputs`: each binding has a field, and each
field a binding or the right to go without. -/
def checkBindings (taskId : TaskId) (contract : TaskContract)
    (place : String) (lookup : TaskId → Option Task) : Checking Unit :=
  let defs := contract.defs
  let input := contract.inputSchema
  match defs.resolve input with
  | .error e =>
    .error (typedFailure taskId e (place ++ "/input_schema") none)
  | .ok resolved =>
    match resolved.kind with
    | .object fields => do
        (Entries.keys contract.bindings).forM fun name =>
          if Entries.contains fields name then .ok ()
          else .error (inputFailure (s!"task {taskId}: binding for "
            ++ s!"undeclared input field '{name}'")
            (place ++ "/bindings/" ++ escape name))
        (Entries.iter fields).forM
          (checkField taskId contract place lookup)
    | _ =>
      if !contract.bindings.isEmpty then
        .error (inputFailure (s!"task {taskId}: bindings fill object "
          ++ s!"input fields; input_schema is {input.describe}")
          (place ++ "/bindings"))
      else
        match defs.validate input .null with
        | .ok _ => .ok ()
        | .error e => .error (typedFailure taskId
            { e with path := "/input" ++ e.path }
            (place ++ "/input_schema") none)

/-- The check of schema, bindings and mapping; `lookup` finds the source
tasks, and `place` is where the definition stands. -/
def checkInputs (taskId : TaskId) (contract : TaskContract)
    (command : TaskCommand) (place : String)
    (lookup : TaskId → Option Task) : Checking Unit := do
  checkBindings taskId contract place lookup
  checkMapping taskId contract.defs contract.inputSchema contract command
    place

end Check

-- ==== the values

/-- How the reading of the inputs stops: the task fails, or a binding has
no field and the index panics. -/
inductive InputStop where
  | failed (failure : TaskFailure)
  | panicked

abbrev Resolving := Except InputStop

/-- The output of a task that succeeded. -/
def producerOutput (producer : Task) : Option Value :=
  match producer.state with
  | .succeeded =>
    match producer.typedResult with
    | some t => if t.hasOutput then some t.output.toInternal else none
    | none => producer.result.bind TaskResult.output
  | _ => none

section Resolve

variable [F64Text]

def stopWith {α : Type} (taskId : TaskId) (message loc : String) :
    Resolving α :=
  .error (.failed (inputFailure s!"task {taskId}: {message}" loc))

/-- The text of an integer an argument cannot take exactly. -/
def exactFloat : String := "an int64 that float64 represents exactly"

def convertValue (convert : Option Conversion) (v : Value) : Typed Value :=
  let mismatch (expected : String) : TypeError :=
    ⟨.typeMismatch, "", expected, v.describe⟩
  match convert with
  | none | some .assert => .ok v
  | some .toString =>
    match v with
    | .string _ => .ok v
    | .bool b => .ok (.string (if b then "true" else "false"))
    | .number n =>
      match n.asI64 with
      | some i => .ok (.string (toString i.toInt))
      | none =>
        .error (mismatch "string, int64 or boolean for to_string")
    | _ => .error (mismatch "string, int64 or boolean for to_string")
  | some .int64ToFloat64 =>
    match int64Of v with
    | .error kind => .error { mismatch "int64" with kind }
    | .ok i =>
      match F64.ofIntExact i.toInt with
      | none => .error ⟨.outOfRange, "", exactFloat, toString i.toInt⟩
      | some f =>
        if f.isFinite then .ok (.number (.float f))
        else .error (mismatch "a finite float64")

/-- The value at a source, if its task has an output. -/
def readSource (task : Task) (stored : TaskId → Option Task) (loc : String)
    (s : BindingSource) : Resolving (Option Value) :=
  match stored s.fromTask with
  | none => stopWith task.id
      s!"binding source task not found: {s.fromTask}" loc
  | some producer =>
    match producerOutput producer with
    | none => .ok none
    | some output =>
      match pointerTokens s.pointer with
      | .error m => stopWith task.id m loc
      | .ok tokens =>
        match output.walk tokens with
        | some v => .ok (some v)
        | none => stopWith task.id (s!"output of task {s.fromTask} "
            ++ s!"has nothing at '{s.pointer}'") loc

/-- The values of a `one_of`, from the sources that have one. -/
def readSources (task : Task) (stored : TaskId → Option Task)
    (loc : String) (sources : List BindingSource) :
    Resolving (List (BindingSource × Value)) := do
  let read ← sources.mapM fun s => do
    let v ← readSource task stored loc s
    .ok (v.map fun v => (s, v))
  .ok (read.filterMap id)

/-- What a binding gives its field, before conversion. -/
def readBinding (task : Task) (stored : TaskId → Option Task)
    (field : FieldSchema) (loc : String) :
    InputBinding → Resolving (Option Value)
  | .literal v => .ok (some v)
  | .fromTask source _ =>
    -- no way to the source was selected: the field goes without
    if field.mayBeOmitted && (stored source.fromTask).any isNotSelected
    then .ok none
    else do
      let v ← readSource task stored loc source
      match v with
      | some v => .ok (some v)
      | none =>
        stopWith task.id
          s!"source task {source.fromTask} has no successful output" loc
  | .oneOf sources _ => do
      let found ← readSources task stored loc sources
      match found with
      | [] =>
        if field.mayBeOmitted then .ok none
        else
          stopWith task.id "no one_of source succeeded with an output" loc
      | [(_, v)] => .ok (some v)
      | found =>
        let ids := found.map fun (s, _) => s.fromTask
        stopWith task.id ("one_of expects exactly one succeeded source, "
          ++ "got " ++ String.intercalate ", " ids) loc

/-- One entry of the input object. -/
def resolveBinding (task : Task) (stored : TaskId → Option Task)
    (fields : List (String × FieldSchema)) :
    String × InputBinding → Resolving (Option (String × Value))
  | (name, binding) =>
    match Entries.get fields name with
    | none => .error .panicked
    | some field => do
        let loc := "/bindings/" ++ escape name
        let raw ← readBinding task stored field loc binding
        match raw with
        | none => .ok none
        | some raw =>
          match convertValue binding.convert raw with
          | .ok v => .ok (some (name, v))
          | .error e =>
            .error (.failed (typedFailure task.id e loc none))

/-- The place of a type error of the whole input: its field. -/
def inputLocation (e : TypeError) : String :=
  match (splitSlash e.path.toList)[1]? with
  | some field =>
    if field.isEmpty then "/input_schema"
    else "/bindings/" ++ String.ofList field
  | none => "/input_schema"

/-- The input of a task whose schema is an object of fields. -/
def resolveObject (task : Task) (contract : TaskContract)
    (stored : TaskId → Option Task)
    (fields : List (String × FieldSchema)) : Resolving TypedValue := do
  let obj ← (Entries.iter contract.bindings).mapM
    (resolveBinding task stored fields)
  match contract.defs.validateTyped contract.inputSchema
      (.object (obj.filterMap id)) with
  | .ok t => .ok t
  | .error e => .error (.failed (typedFailure task.id
      { e with path := "/input" ++ e.path } (inputLocation e) none))

/-- The input of a task without fields to bind. -/
def resolveWhole (task : Task) (contract : TaskContract) :
    Resolving TypedValue :=
  match contract.defs.validateTyped contract.inputSchema .null with
  | .ok t => .ok t
  | .error e =>
    .error (.failed (typedFailure task.id e "/input_schema" none))

/-- The input of a task, from the outputs that are stored. -/
def resolveValue (task : Task) (contract : TaskContract)
    (stored : TaskId → Option Task) : Resolving TypedValue :=
  match contract.defs.resolve contract.inputSchema with
  | .error _ => resolveWhole task contract
  | .ok resolved =>
    match resolved.kind with
    | .object fields => resolveObject task contract stored fields
    | _ => resolveWhole task contract

end Resolve

end Tasty.Agent
