/-
Tasks and their contracts (`crates/tasty-agent/src/task.rs`,
`task/contract.rs`, `task/binding.rs`): what a task declares, the state it
is in and what it has produced.
-/
import Tasty.Agent.TypedValue

namespace Tasty.Agent

abbrev TaskId := String

inductive TaskState where
  | waiting
  | ready
  | running
  | succeeded
  | failed (error : String)
  | cancelled
  | skipped
  /-- It may have ended, but its result cannot be had. -/
  | unknown (reason : Option String)
  deriving DecidableEq

namespace TaskState

def name : TaskState → String
  | waiting => "waiting"
  | ready => "ready"
  | running => "running"
  | succeeded => "succeeded"
  | failed _ => "failed"
  | cancelled => "cancelled"
  | skipped => "skipped"
  | unknown _ => "unknown"

def isTerminal : TaskState → Bool
  | succeeded | failed _ | cancelled | skipped => true
  | waiting | ready | running | unknown _ => false

def isFailed : TaskState → Bool
  | failed _ => true
  | _ => false

end TaskState

inductive ReducerStrategy where
  | firstSuccess
  | all
  | mergeJson
  | concatText
  | custom (command : String)
  deriving DecidableEq

/-- What a task runs. -/
inductive TaskCommand where
  | run (command : List String) (workspaceId : UInt32)
      (cwd : Option String)
  | custom (ipcMethod : String) (params : Value)
  | reduce (inputs : List TaskId) (strategy : ReducerStrategy)
  | waitBarrier (name : Option String)
  | agent (provider : String) (workspaceId : UInt32)
      (instruction : String) (timeoutMs : Option UInt64)

/-- The name of a kind of command, for errors. -/
def commandKind : TaskCommand → String
  | .run .. => "run"
  | .custom .. => "custom"
  | .reduce .. => "reduce"
  | .waitBarrier _ => "wait_barrier"
  | .agent .. => "agent"

/-- The tasks a reduce reads. -/
def TaskCommand.reduceInputs : TaskCommand → List TaskId
  | .reduce inputs _ => inputs
  | _ => []

mutual

/-- What is done when a task fails, or cannot run since another failed. -/
inductive OnFailure where
  | abort
  | continueDownstream
  /-- A task that runs in its place: one that exists, or one made then. -/
  | fallback (task : Option TaskId) (inline : Option InlineFallbackSpec)

structure InlineFallbackSpec where
  command : TaskCommand
  dependsOnOverride : Option (List TaskId)
  onFailure : OnFailure
  metadata : Value

end

namespace OnFailure

/-- The fallback that is a task of its own. -/
def fallbackTask : OnFailure → Option TaskId
  | fallback task _ => task
  | abort | continueDownstream => none

def isFallback : OnFailure → Bool
  | fallback _ _ => true
  | abort | continueDownstream => false

def isContinueDownstream : OnFailure → Bool
  | continueDownstream => true
  | abort | fallback _ _ => false

end OnFailure

-- ==== bindings

/-- The place in an output that a binding reads; `pointer` is a JSON
pointer, and the empty one is the whole output. -/
structure BindingSource where
  fromTask : TaskId
  pointer : String
  deriving DecidableEq

inductive Conversion where
  | assert
  | toString
  | int64ToFloat64
  deriving DecidableEq

/-- How one input field is filled. -/
inductive InputBinding where
  | literal (value : Value)
  | fromTask (source : BindingSource) (convert : Option Conversion)
  | oneOf (sources : List BindingSource) (convert : Option Conversion)

namespace InputBinding

/-- The sources it reads. -/
def sources : InputBinding → List BindingSource
  | literal _ => []
  | fromTask source _ => [source]
  | oneOf sources _ => sources

def convert : InputBinding → Option Conversion
  | literal _ => none
  | fromTask _ convert | oneOf _ convert => convert

end InputBinding

/-- Where one element of an argument list comes from: an input position,
or the path of a file there. -/
inductive ArgSource where
  | value (pointer : String)
  | file (pointer : String)
  deriving DecidableEq

def ArgSource.pointer : ArgSource → String
  | value p | file p => p

/-- Where the checked input goes when the task runs. -/
structure InputMapping where
  args : List ArgSource
  stdin : Bool
  params : List (String × String)
  inputBlock : Bool
  barrier : Option String

def InputMapping.default : InputMapping :=
  { args := [], stdin := false, params := [], inputBlock := false,
    barrier := none }

-- ==== transitions

inductive TransitionMode where
  | exclusive
  | allMatches
  deriving DecidableEq

inductive CompareOp where
  | eq
  | ne
  | lt
  | le
  | gt
  | ge
  deriving DecidableEq

/-- A condition on an output; `input` names an input of a reduce `all`. -/
inductive Condition where
  | all (items : List Condition)
  | any (items : List Condition)
  | not (inner : Condition)
  | compare (path : String) (op : CompareOp) (value : Value)
      (input : Option TaskId)
  | mem (path : String) (values : List Value) (input : Option TaskId)

structure TransitionCase where
  when : Condition
  targets : List TaskId

/-- Which tasks go on after a success. -/
structure Transitions where
  mode : TransitionMode
  cases : List TransitionCase
  otherwise : Option (List TaskId)
  /-- `no_match: finish`. -/
  noMatch : Bool

/-- All that can be selected, with repetitions. -/
def Transitions.targets (t : Transitions) : List TaskId :=
  t.cases.flatMap TransitionCase.targets ++ t.otherwise.getD []

-- ==== postprocess

inductive StdoutFormat where
  | json
  | text
  deriving DecidableEq

structure StdoutSpec where
  format : StdoutFormat
  pointer : Option String

inductive SourceDocument where
  | input
  | raw
  | removedArtifacts
  deriving DecidableEq

structure PostprocessSource where
  document : SourceDocument
  pointer : Option String

structure PostprocessRetry where
  maxRetries : UInt32
  delayMs : UInt64

/-- The command that turns the result of the main work into the output. -/
structure PostprocessSpec where
  command : List String
  stdin : List (String × PostprocessSource)
  stdout : StdoutSpec
  timeoutMs : UInt64
  retry : Option PostprocessRetry

namespace PostprocessSpec

def maxRuns (spec : PostprocessSpec) : UInt32 :=
  1 + (spec.retry.map PostprocessRetry.maxRetries).getD 0

def retryDelayMs (spec : PostprocessSpec) : UInt64 :=
  (spec.retry.map PostprocessRetry.delayMs).getD 0

end PostprocessSpec

-- ==== contracts

inductive MergeConflict where
  | error
  | overwrite
  deriving DecidableEq

/-- The contract of a v2 task. -/
structure TaskContract where
  contractVersion : UInt32
  types : List (String × TypeSchema)
  inputSchema? : Option TypeSchema
  outputSchema? : Option TypeSchema
  bindings : List (String × InputBinding)
  inputMapping : Option InputMapping
  postprocess : Option PostprocessSpec
  allowedExitCodes : Option (List Int32) := none
  mergeConflict : Option MergeConflict := none
  transitions : Option Transitions := none

/-- The states a record of a reduce `all` output names. -/
def reduceAllRecordStates : List String :=
  ["waiting", "ready", "running", "succeeded", "failed", "cancelled",
    "skipped", "unknown"]

def requiredField (schema : TypeSchema) : FieldSchema :=
  { schema, optional := false, default := none }

def optionalField (schema : TypeSchema) : FieldSchema :=
  { schema, optional := true, default := none }

/-- The output of reduce `all`: one record for each input. -/
def reduceAllRecordListSchema : TypeSchema :=
  .new (.list (.new (.object
    [("attempt_id", optionalField .string),
      ("has_output", requiredField (.new .boolean)),
      ("output", optionalField .json),
      ("state", requiredField (.new (.enum reduceAllRecordStates))),
      ("task_id", requiredField .string)])) none)

/-- The output of a task that declares none, by the kind of command. -/
def defaultOutputSchema : TaskCommand → TypeSchema
  | .run .. => .int64
  | .custom .. => .json
  | .waitBarrier _ => .unit
  | .agent .. => .string
  | .reduce _ .concatText => .string
  | .reduce _ .all => reduceAllRecordListSchema
  | .reduce _ .firstSuccess => .json
  | .reduce _ .mergeJson => .json
  | .reduce _ (.custom _) => .json

namespace TaskContract

/-- The named types. -/
def defs (contract : TaskContract) : TypeDefs := ⟨contract.types⟩

/-- A contract without an input schema takes nothing. -/
def inputSchema (contract : TaskContract) : TypeSchema :=
  contract.inputSchema?.getD .unit

/-- The final output: as declared, or what the postprocess prints, or that
of the command. -/
def outputSchema (contract : TaskContract) (command : TaskCommand) :
    TypeSchema :=
  match contract.outputSchema? with
  | some schema => schema
  | none =>
    match contract.postprocess with
    | some spec =>
      match spec.stdout.format with
      | .text => .string
      | .json => .json
    | none => defaultOutputSchema command

end TaskContract

-- ==== results

inductive FailureStage where
  | input
  | execution
  | postprocess
  | outputValidation
  | persistence
  | route
  deriving DecidableEq

/-- Failures of one stage told apart; only agent tasks have them. -/
inductive FailureCode where
  | resultMissing
  | agentExited
  | agentTurnError
  | timedOut
  | agentUnavailable
  deriving DecidableEq

namespace FailureCode

def asStr : FailureCode → String
  | resultMissing => "result_missing"
  | agentExited => "agent_exited"
  | agentTurnError => "agent_turn_error"
  | timedOut => "timed_out"
  | agentUnavailable => "agent_unavailable"

def codes : List FailureCode :=
  [resultMissing, agentExited, agentTurnError, timedOut, agentUnavailable]

/-- The text of a failure, `code: detail`. -/
def message (code : FailureCode) (detail : String) : String :=
  s!"{code.asStr}: {detail}"

/-- The code that a text of that form names. -/
def parseMessage (text : String) : Option FailureCode :=
  codes.find? fun code => (code.asStr ++ ": ").isPrefixOf text

end FailureCode

/-- Why a task failed, or a definition was refused; `location` is a JSON
pointer into the definition. -/
structure TaskFailure where
  stage : FailureStage
  message : String
  taskId : Option TaskId
  typeError : Option TypeError
  location : Option String
  code : Option FailureCode := none
  deriving DecidableEq

def TypeErrorKind.label : TypeErrorKind → String
  | .invalidSchema => "invalid schema"
  | .unknownTypeRef => "unknown type"
  | .recursiveType => "recursive type"
  | .typeMismatch => "type mismatch"
  | .notInteger => "not an integer"
  | .outOfRange => "out of range"
  | .notFinite => "not finite"
  | .unknownEnumValue => "unknown enum value"
  | .nullNotAllowed => "null not allowed"
  | .missingField => "missing field"
  | .unexpectedField => "unexpected field"
  | .tooLong => "too long"
  | .tooDeep => "too deep"
  | .tooLarge => "too large"
  | .incompatible => "incompatible types"

/-- The text of a type error. -/
def TypeError.display (e : TypeError) : String :=
  e.kind.label ++ " at " ++ (if e.path = "" then "/" else e.path)
    ++ ": expected " ++ e.expected ++ ", got " ++ e.actual

namespace TaskFailure

def new (stage : FailureStage) (message : String) : TaskFailure :=
  { stage, message, taskId := none, typeError := none, location := none }

/-- A type error as a failure, of a task if there is one. -/
def typed (stage : FailureStage) (taskId : Option TaskId) (e : TypeError) :
    TaskFailure :=
  { stage
    message := match taskId with
      | some id => s!"task {id}: {e.display}"
      | none => e.display
    taskId, typeError := some e, location := none }

end TaskFailure

/-- What a v1 task produced, and what an execution reports. -/
structure TaskResult where
  exitCode : Option Int32 := none
  output : Option Value
  error : Option String := none

/-- A JSON value up to a size: whole, or the head of its text. -/
structure CappedJson where
  response : Option Value := none
  text : Option String := none
  truncated : Bool := false
  droppedBytes : UInt64 := 0

inductive PostprocessCause where
  | stdinMapping
  | spawn
  | stdinWrite
  | nonzeroExit
  | signal
  | timeout
  | cancelled
  | stdoutTooLarge
  | stdoutRead
  | invalidUtf8
  | invalidJson
  | multipleDocuments
  | emptyOutput
  | pointerMissing
  | outcomeUnknown
  | resultTooLarge
  deriving DecidableEq

namespace PostprocessCause

/-- The causes after which another run makes sense. -/
def retryable : PostprocessCause → Bool
  | stdinMapping | cancelled | outcomeUnknown | resultTooLarge => false
  | _ => true

def name : PostprocessCause → String
  | stdinMapping => "stdin_mapping"
  | spawn => "spawn"
  | stdinWrite => "stdin_write"
  | nonzeroExit => "nonzero_exit"
  | signal => "signal"
  | timeout => "timeout"
  | cancelled => "cancelled"
  | stdoutTooLarge => "stdout_too_large"
  | stdoutRead => "stdout_read"
  | invalidUtf8 => "invalid_utf8"
  | invalidJson => "invalid_json"
  | multipleDocuments => "multiple_documents"
  | emptyOutput => "empty_output"
  | pointerMissing => "pointer_missing"
  | outcomeUnknown => "outcome_unknown"
  | resultTooLarge => "result_too_large"

end PostprocessCause

/-- A postprocess run that failed and was followed by another. -/
structure PostprocessRunSummary where
  run : UInt32
  exitCode : Option Int32
  cause : PostprocessCause
  message : String

/-- What a postprocess run left, beside the output. -/
structure PostprocessRaw where
  command : List String
  run : UInt32
  exitCode : Option Int32
  stdout : Option Value
  stderr : Option String
  stderrTruncated : Bool
  cause : Option PostprocessCause
  failedRuns : List PostprocessRunSummary

/-- What the main work of a task left. -/
structure RawResult where
  exitCode : Option Int32 := none
  execution : Option Value := none
  executionTruncated : Option CappedJson := none
  postprocess : Option PostprocessRaw := none
  accepted : Option CappedJson := none

/-- Where an output comes from. -/
structure Provenance where
  contractVersion : UInt32
  kind : String
  outputSource : String
  deriving DecidableEq

/-- What a v2 task produced; `output` means something when `hasOutput`. -/
structure TypedResult where
  hasOutput : Bool
  output : TypedValue
  raw : RawResult := {}
  error : Option TaskFailure := none
  provenance : Provenance

/-- Why a task ended as skipped. -/
inductive SkipReason where
  /-- No way to it was selected; this is no failure. -/
  | branchNotSelected
  /-- What it needs did not succeed. -/
  | upstreamUnavailable (source : TaskId) (sourceState : String)
  deriving DecidableEq

/-- Which way an attempt selected. -/
structure RouteDecision where
  attemptId : Option String
  matched : List Nat
  otherwise : Bool
  selected : List TaskId
  deriving DecidableEq

/-- The input of a run as it was resolved, or why it was not. -/
structure InputSnapshot where
  value : TypedValue
  failure : Option TaskFailure

inductive PostprocessPhase where
  | pending (run : UInt32) (notBeforeMs : UInt64)
  | started (run : UInt32) (startedAt : UInt64)
  | finished (run : UInt32)
  deriving DecidableEq

/-- The main work has succeeded and its postprocess is on. -/
structure PostprocessProgress where
  execution : TaskResult
  mainDigest : String
  phase : PostprocessPhase
  failedRuns : List PostprocessRunSummary

/-- One run of a task; `completion` is the digest of the report that ended
it. -/
structure TaskAttempt where
  id : String
  number : UInt32
  startedAt : UInt64
  completion : Option String
  postprocess : Option PostprocessProgress

structure Task where
  id : TaskId
  command : TaskCommand
  dependsOn : List TaskId := []
  state : TaskState
  createdAt : UInt64 := 0
  startedAt : Option UInt64 := none
  finishedAt : Option UInt64 := none
  result : Option TaskResult
  onFailure : OnFailure := .abort
  metadata : Value := .null
  /-- It waits for the main task it is to be the fallback of. -/
  reservedForFallback : Bool := false
  contract : Option TaskContract
  typedResult : Option TypedResult
  /-- It was submitted in a graph: not run before the graph is active. -/
  graphId : Option String := none
  inputSnapshot : Option InputSnapshot := none
  accepted : Option CappedJson := none
  attempt : Option TaskAttempt := none
  route : Option RouteDecision := none
  skip : Option SkipReason

namespace Task

/-- It has a v2 contract. -/
def isTyped (task : Task) : Bool := task.contract.isSome

/-- `metadata.fallback_of`. -/
def fallbackOf (task : Task) : Option TaskId :=
  match task.metadata with
  | .object entries =>
    match Entries.get entries "fallback_of" with
    | some (.string id) => some id
    | _ => none
  | _ => none

end Task

/-- It ended because no way to it was selected. -/
def isNotSelected (task : Task) : Bool :=
  task.skip = some .branchNotSelected

/-- The types and the schema of an output; that of a v1 task is untyped. -/
def outputSchemaOf (task : Task) : TypeDefs × TypeSchema :=
  match task.contract with
  | some contract => (contract.defs, contract.outputSchema task.command)
  | none => (.empty, .json)

end Tasty.Agent
