/-
The check of a v2 task when it is created (`check_contract`, `check_task`
and `check_reduce` of `crates/tasty-agent/src/task/contract.rs`,
`check_spec` of `postprocess.rs`, `check_command` of `agent.rs`).
-/
import Tasty.Agent.Inputs
import Tasty.Agent.TaskGraph

namespace Tasty.Agent

/-- The plugins: whether an agent provider can collect results. -/
class AgentProviders where
  check : String → Except String Unit

-- ==== equal schemas

mutual

/-- `==` of schemas. -/
def TypeSchema.same : TypeSchema → TypeSchema → Bool
  | ⟨k, n⟩, ⟨l, m⟩ => k.same l && n = m

def TypeKind.same : TypeKind → TypeKind → Bool
  | .boolean, .boolean | .int64, .int64 | .unit, .unit | .json, .json =>
    true
  | .float64 a b, .float64 c d => a = c && b = d
  | .string a, .string b => a = b
  | .enum a, .enum b => a = b
  | .object a, .object b => sameFieldSchemas a b
  | .list a n, .list b m => a.same b && n = m
  | .ref a, .ref b => a = b
  | _, _ => false

def sameFieldSchemas : List (String × FieldSchema) →
    List (String × FieldSchema) → Bool
  | [], [] => true
  | (k, f) :: fs, (l, g) :: gs =>
    k = l && f.same g && sameFieldSchemas fs gs
  | _, _ => false

def FieldSchema.same : FieldSchema → FieldSchema → Bool
  | ⟨s, o, d⟩, ⟨t, p, e⟩ =>
    s.same t && o = p &&
      match d, e with
      | none, none => true
      | some v, some w => v.same w
      | _, _ => false

end

section Check

variable [F64Text] [DebugText] [AgentProviders]

def contractError (message : String) : TaskFailure := .new .input message

/-- A type error, not yet of a task. -/
def untyped (e : TypeError) : TaskFailure := .typed .input none e

/-- A type check as a check of a contract. -/
def checking {α : Type} (x : Typed α) : Checking α :=
  match x with
  | .ok a => .ok a
  | .error e => .error (untyped e)

-- ==== postprocess

def maxPostprocessTimeoutMs : UInt64 := 86400000

def maxPostprocessRetries : UInt32 := 10

def maxPostprocessRetryDelayMs : UInt64 := 3600000

def specError (loc message : String) : TaskFailure :=
  { TaskFailure.new .input message with
    location := some ("/postprocess" ++ loc) }

def checkRetry (r : PostprocessRetry) : Checking Unit :=
  if r.maxRetries = 0 ∨ maxPostprocessRetries < r.maxRetries then
    .error (specError "/retry/max_retries" ("postprocess retry "
      ++ s!"max_retries must be 1..={maxPostprocessRetries}"))
  else if maxPostprocessRetryDelayMs < r.delayMs then
    .error (specError "/retry/delay_ms" ("postprocess retry delay_ms "
      ++ s!"must be at most {maxPostprocessRetryDelayMs}"))
  else .ok ()

def checkPointer (loc p : String) : Checking Unit :=
  match pointerTokens p with
  | .ok _ => .ok ()
  | .error m => .error (specError loc m)

def checkStdin : String × PostprocessSource → Checking Unit
  | (field, source) =>
    if source.document = .removedArtifacts then
      .error (specError s!"/stdin/{field}/from"
        "the artifacts source was removed")
    else
      match source.pointer with
      | some p => checkPointer s!"/stdin/{field}/pointer" p
      | none => .ok ()

def checkStdout (stdout : StdoutSpec) : Checking Unit :=
  match stdout.format, stdout.pointer with
  | .text, some _ => .error (specError "/stdout/pointer"
      "stdout pointer applies to the json format only")
  | .json, some p => checkPointer "/stdout/pointer" p
  | _, none => .ok ()

/-- The declaration of a postprocess. -/
def checkSpec (spec : PostprocessSpec) : Checking Unit := do
  if (spec.command.head?.getD "").isEmpty then
    .error (specError "/command" "postprocess command needs an executable")
  else if spec.timeoutMs = 0 ∨ maxPostprocessTimeoutMs < spec.timeoutMs then
    .error (specError "/timeout_ms" ("postprocess timeout_ms must be "
      ++ s!"1..={maxPostprocessTimeoutMs}"))
  else
    match spec.retry with
    | some r => checkRetry r
    | none => .ok ()
  (Entries.iter spec.stdin).forM checkStdin
  checkStdout spec.stdout

-- ==== agents

/-- White space as Unicode has it. -/
def isWhitespace (c : Char) : Bool :=
  let n := c.toNat
  (9 ≤ n && n ≤ 13) || n = 0x20 || n = 0x85 || n = 0xA0 || n = 0x1680
    || (0x2000 ≤ n && n ≤ 0x200A) || n = 0x2028 || n = 0x2029
    || n = 0x202F || n = 0x205F || n = 0x3000

/-- An agent command. -/
def checkAgentCommand (provider instruction : String)
    (timeoutMs : Option UInt64) : Except String Unit := do
  AgentProviders.check provider
  if instruction.toList.all isWhitespace then
    .error "agent instruction must not be empty"
  else if timeoutMs = some 0 then
    .error "agent timeout_ms must be positive"
  else .ok ()

def checkAgent : TaskCommand → Checking Unit
  | .agent provider _ instruction timeoutMs =>
    match checkAgentCommand provider instruction timeoutMs with
    | .ok () => .ok ()
    | .error m => .error (contractError m)
  | _ => .ok ()

-- ==== reduce

/-- A check of the output of each input of a reduce. -/
def eachInput (lookup : TaskId → Option Task) (inputs : List TaskId)
    (check : TaskId → TypeDefs → TypeSchema → Checking Unit) :
    Checking Unit :=
  inputs.forM fun id =>
    match lookup id with
    | none => .error (contractError s!"reduce input task not found: {id}")
    | some t => check id (outputSchemaOf t).1 (outputSchemaOf t).2

/-- A type check of an input as a check of a contract. -/
def checkingFor {α : Type} (id : TaskId) (x : Typed α) : Checking α :=
  match x with
  | .ok a => .ok a
  | .error e => .error (.typed .input (some id) e)

def TypeKind.isObjectOrJson : TypeKind → Bool
  | .object _ | .json => true
  | _ => false

/-- The output of a reduce against its strategy and inputs. -/
def checkReduce (defs : TypeDefs) (output : TypeSchema) (declared : Bool)
    (inputs : List TaskId) (strategy : ReducerStrategy)
    (lookup : TaskId → Option Task) : Checking Unit :=
  match strategy with
  | .all =>
    if declared && !output.same reduceAllRecordListSchema then
      .error (contractError
        "reduce all output is the fixed record list; omit output_schema")
    else .ok ()
  | .concatText => do
      let resolved ← checking (defs.resolve output)
      if !resolved.kind.isString || resolved.nullable then
        .error (contractError "reduce concat_text output is string")
      else
        eachInput lookup inputs fun id idefs ischema =>
          checkingFor id (checkAssignable idefs ischema .empty .string)
  | .firstSuccess =>
    eachInput lookup inputs fun id idefs ischema =>
      checkingFor id (checkAssignable idefs ischema defs output)
  | .mergeJson => do
      let resolved ← checking (defs.resolve output)
      if !resolved.kind.isObjectOrJson then
        .error (contractError "reduce merge_json output is an object")
      else
        eachInput lookup inputs fun id idefs ischema => do
          let r ← checkingFor id (idefs.resolve ischema)
          if r.kind.isObjectOrJson then .ok ()
          else .error (contractError (s!"reduce merge_json input {id} "
            ++ s!"outputs {ischema.describe}, not an object"))
  | .custom _ => .ok ()

-- ==== the contract

def TaskCommand.isRun : TaskCommand → Bool
  | .run .. => true
  | _ => false

def TaskCommand.isMerge : TaskCommand → Bool
  | .reduce _ .mergeJson => true
  | _ => false

def TypeKind.isInt : TypeKind → Bool
  | .int64 => true
  | _ => false

/-- An inline fallback is for v1 tasks. -/
def checkNoInline : OnFailure → Checking Unit
  | .fallback _ (some _) => .error (contractError
      ("inline fallback is not supported for contract_version 2; declare "
        ++ "the fallback task up front"))
  | _ => .ok ()

/-- The fields of a contract that go with one kind of command. -/
def checkKindFields (contract : TaskContract) (command : TaskCommand) :
    Checking Unit :=
  if contract.allowedExitCodes.isSome && !command.isRun then
    .error (contractError "allowed_exit_codes applies to run only")
  else if contract.allowedExitCodes.any List.isEmpty then
    .error (contractError "allowed_exit_codes must not be empty")
  else if contract.mergeConflict.isSome && !command.isMerge then
    .error (contractError
      "merge_conflict applies to reduce merge_json only")
  else .ok ()

/-- The output of the kind of command. -/
def checkOutput (contract : TaskContract) (command : TaskCommand)
    (output : TypeSchema) (lookup : TaskId → Option Task) :
    Checking Unit := do
  let resolved ← checking (contract.defs.resolve output)
  match command with
  | .run .. =>
    if !resolved.kind.isInt || output.nullable then
      .error (contractError ("run output is the int64 exit code; other "
        ++ "outputs need an explicit extraction step"))
    else .ok ()
  | .waitBarrier _ =>
    if !resolved.kind.isUnit then
      .error (contractError "wait_barrier output is unit")
    else .ok ()
  | .custom .. | .agent .. => .ok ()
  | .reduce inputs strategy =>
    checkReduce contract.defs output contract.outputSchema?.isSome inputs
      strategy lookup

/-- A postprocess makes the output itself. -/
def checkPostprocess (spec : PostprocessSpec) (command : TaskCommand) :
    Checking Unit := do
  checkSpec spec
  if command.isRun || command.isCustomOrAgent then .ok ()
  else .error (contractError
    "postprocess applies to run, custom and agent")

/-- `check_contract`. -/
def checkContract (contract : TaskContract) (command : TaskCommand)
    (onFailure : OnFailure) (lookup : TaskId → Option Task) :
    Checking Unit := do
  if contract.contractVersion ≠ 2 then
    .error (contractError (s!"unsupported contract_version "
      ++ s!"{contract.contractVersion} (supported: 2)"))
  else .ok ()
  let output := contract.outputSchema command
  checking contract.defs.check
  checking (contract.defs.checkSchemaAt contract.inputSchema
    "/input_schema")
  checking (contract.defs.checkSchemaAt output "/output_schema")
  checkNoInline onFailure
  checkKindFields contract command
  checkAgent command
  match contract.postprocess with
  | some spec => checkPostprocess spec command
  | none => checkOutput contract command output lookup

-- ==== the task

/-- The place and the task of a failure, where it has none. -/
def TaskFailure.locate (f : TaskFailure) (taskId : TaskId)
    (location : String) : TaskFailure :=
  { f with
    location := some (f.location.getD location)
    taskId := some (f.taskId.getD taskId) }

/-- The tasks that `from_task` bindings read. -/
def dataSources (contract : TaskContract) : List TaskId :=
  (Entries.iter contract.bindings).filterMap fun (_, b) =>
    match b with
    | .fromTask source _ => some source.fromTask
    | _ => none

/-- A dependency that a fallback may stand in for has no output to read. -/
def checkDependency (task : Task) (sources : List TaskId) (place : String)
    (lookup : TaskId → Option Task) (dep : TaskId) : Checking Unit :=
  match (lookup dep).bind fun main => main.onFailure.fallbackTask with
  | none => .ok ()
  | some fb =>
    if sources.contains dep then
      .error ((contractError (s!"task {task.id}: depends_on {dep} "
        ++ s!"accepts its fallback {fb}, but a binding reads {dep}'s own "
        ++ "output, which does not exist when the fallback ran; bind "
        ++ s!"with one_of [{dep}, {fb}] instead")).locate task.id
          (place ++ "/bindings"))
    else .ok ()

/-- The fallback of a v2 task is one too. -/
def checkFallback (task : Task) (place : String)
    (lookup : TaskId → Option Task) : Checking Unit :=
  match task.onFailure.fallbackTask with
  | none => .ok ()
  | some fb =>
    match lookup fb with
    | none => .ok ()
    | some t =>
      if t.isTyped then .ok ()
      else .error ((contractError (s!"fallback {fb} is a v1 task; a v2 "
        ++ "fallback must be a typed task declared up front")).locate
          task.id (place ++ "/on_failure/task"))

/-- A task that reads an output does not go on without it. -/
def checkPolicy (task : Task) (sources : List TaskId) (place : String) :
    Checking Unit :=
  if !sources.isEmpty && task.onFailure.isContinueDownstream then
    .error ((contractError ("continue_downstream cannot run a task whose "
      ++ "input producer failed; the input would have no value")).locate
        task.id (place ++ "/on_failure"))
  else .ok ()

/-- The contract of a task, located in the definition. -/
def checkTaskContract (task : Task) (contract : TaskContract)
    (place : String) (lookup : TaskId → Option Task) : Checking Unit :=
  match checkContract contract task.command task.onFailure lookup with
  | .ok () => .ok ()
  | .error f =>
    -- the place of a contract failure is relative to the task
    .error ({ f with location := none }.locate task.id
      (place ++ f.location.getD ""))

/-- `check_task`: the contract, the inputs, and how they go with the
failure policies. -/
def checkTask (task : Task) (place : String)
    (lookup : TaskId → Option Task) : Checking Unit :=
  match task.contract with
  | none => .ok ()
  | some contract => do
      checkTaskContract task contract place lookup
      checkInputs task.id contract task.command place lookup
      checkPolicy task (dataSources contract) place
      task.dependsOn.forM
        (checkDependency task (dataSources contract) place lookup)
      checkFallback task place lookup

end Check

end Tasty.Agent
