/-
What the report of an execution makes of a task: the typed result
(`finalize_result` and `project_v1` of
`crates/tasty-agent/src/task/contract.rs`, `candidate` of `agent.rs`,
`finalize_postprocessed` of `postprocess.rs`) and the state it ends in
(`record_result` and `settle_typed_terminal` of `store.rs`).
-/
import Tasty.Agent.Binding

namespace Tasty.Agent

-- ==== raw values

/-- The longest head of a text of at most `cap` bytes. -/
def headWithin : Nat → List Char → List Char
  | _, [] => []
  | cap, c :: rest =>
    if c.utf8Size ≤ cap then c :: headWithin (cap - c.utf8Size) rest
    else []

/-- An escape of a pointer, read without complaint. -/
def looseUnescape : List Char → List Char
  | [] => []
  | '~' :: '0' :: rest => '~' :: looseUnescape rest
  | '~' :: '1' :: rest => '/' :: looseUnescape rest
  | c :: rest => c :: looseUnescape rest

/-- `serde_json::Value::pointer`. -/
def Value.pointer (value : Value) (p : String) : Option Value :=
  match p.toList with
  | [] => some value
  | '/' :: rest =>
    value.walk ((splitSlash rest).map fun t =>
      String.ofList (looseUnescape t))
  | _ => none

/-- The least size at which a response is cut. -/
def acceptedResponseCap : Nat := 64 * 1024

def executionResponseCap : Nat := acceptedResponseCap

section Finalize

variable [F64Text]

def CappedJson.captureWithin (value : Value) (cap : Nat) : CappedJson :=
  let text := value.text
  if text.utf8ByteSize ≤ cap then { response := some value }
  else
    let head := String.ofList (headWithin cap text.toList)
    { text := some head, truncated := true
      droppedBytes :=
        UInt64.ofNat (text.utf8ByteSize - head.utf8ByteSize) }

def TaskCommand.isCustomOrAgent : TaskCommand → Bool
  | .custom .. | .agent .. => true
  | _ => false

/-- The response as it is kept beside the output. -/
def rawExecution (command : TaskCommand) (execution : Option Value) :
    Option Value × Option CappedJson :=
  match execution with
  | some v =>
    if command.isCustomOrAgent then
      let capped := CappedJson.captureWithin v executionResponseCap
      if capped.truncated then (none, some capped)
      else (capped.response, none)
    else (some v, none)
  | none => (none, none)

-- ==== agents

/-- The type asks for a result handed in, not for the last answer. -/
def needsSubmission (contract : TaskContract) (command : TaskCommand) :
    Bool :=
  if contract.postprocess.isSome then false
  else
    match contract.defs.resolve (contract.outputSchema command) with
    | .ok r =>
      match r.kind with
      | .string _ => false
      | _ => true
    | .error _ => true

/-- The field of a report that is an object. -/
def Value.field (value : Value) (name : String) : Option Value :=
  match value with
  | .object map => Entries.get map name
  | _ => none

/-- The output of an agent turn and where it comes from. -/
def candidate (report : Option Value) (needs : Bool) :
    Option (Value × String) :=
  match report with
  | none => none
  | some report =>
    match report.field "submitted" with
    | some v => some (v, "agent.submitted")
    | none =>
      if needs then none
      else
        match report.field "final_answer" with
        | some (.string s) => some (.string s, "agent.final_answer")
        | _ => none

-- ==== results

/-- The output that a report has for a kind of command, and its source; or
the failure. -/
def reportedOutput (task : Task) (contract : TaskContract)
    (reported : TaskResult) :
    Except (TaskFailure × String) (Value × String) :=
  match task.command with
  | .run .. =>
    match reported.exitCode with
    | some code => .ok (.ofI64 code.toInt64, "run.exit_code")
    | none => .error (.new .execution
        "run finished without a numeric exit code", "run.exit_code")
  | .waitBarrier _ => .ok (.null, "wait_barrier.closed")
  | .agent .. =>
    let needs := needsSubmission contract task.command
    match candidate reported.output needs with
    | some found => .ok found
    | none =>
      let why :=
        if needs then
          "the turn ended without submitting the required result "
            ++ "(tasty agent task-submit)"
        else "the agent turn ended without a final answer"
      .error ({ TaskFailure.new .outputValidation
          (FailureCode.resultMissing.message why) with
        code := some .resultMissing },
        if needs then "agent.submitted" else "agent.final_answer")
  | .custom .. =>
    match reported.output with
    | some v => .ok (v, "custom.response")
    | none => .error (.new .outputValidation "no output was produced",
        "custom.response")
  | .reduce .. =>
    match reported.output with
    | some v => .ok (v, "reduce.value")
    | none => .error (.new .outputValidation "no output was produced",
        "reduce.value")

def TaskCommand.isAgent : TaskCommand → Bool
  | .agent .. => true
  | _ => false

def TaskCommand.isReduce : TaskCommand → Bool
  | .reduce .. => true
  | _ => false

/-- A reported error, with the code an agent puts before it. -/
def reportedError (command : TaskCommand) (error : String) : TaskFailure :=
  let code :=
    if command.isAgent then FailureCode.parseMessage error else none
  let stage : FailureStage :=
    if code = some .resultMissing then .outputValidation else .execution
  { TaskFailure.new stage error with code }

/-- The result of a task from what its execution reports. -/
def finalizeResult (task : Task) (contract : TaskContract)
    (reported : TaskResult) : TypedResult :=
  let provenance (source : String) : Provenance :=
    ⟨contract.contractVersion, commandKind task.command, source⟩
  let (execution, executionTruncated) :=
    rawExecution task.command reported.output
  let raw : RawResult :=
    { exitCode := reported.exitCode, execution, executionTruncated
      accepted := task.accepted }
  let failed (failure : TaskFailure) (source : String) : TypedResult :=
    { hasOutput := false, output := .null, raw, error := some failure
      provenance := provenance source }
  match reported.error with
  | some error => failed (reportedError task.command error) "none"
  | none =>
    match reportedOutput task contract reported with
    | .error (failure, source) => failed failure source
    | .ok (value, source) =>
      match contract.defs.validateTyped
          (contract.outputSchema task.command) value with
      | .ok output =>
        -- the response of a reduce is the output itself
        { hasOutput := true, output
          raw :=
            if task.command.isReduce then
              { exitCode := raw.exitCode }
            else raw
          provenance := provenance source }
      | .error e =>
        failed (.typed .outputValidation (some task.id) e) source

/-- The result in the v1 form. -/
def projectV1 (typed : TypedResult) : TaskResult :=
  { exitCode := typed.raw.exitCode
    output := if typed.hasOutput then some typed.output.toWire else none
    error := typed.error.map TaskFailure.message }

/-- Put a reported result on a task. -/
def recordResult (task : Task) (result : TaskResult) : Task :=
  match task.contract with
  | none => { task with result := some result }
  | some contract =>
    let typed := finalizeResult task contract result
    let inputFailure := task.inputSnapshot.bind InputSnapshot.failure
    -- an input that could not be resolved is what failed
    let typed :=
      if result.error.isSome && inputFailure.isSome then
        { typed with error := inputFailure }
      else typed
    { task with
      result := some (projectV1 typed), typedResult := some typed
      accepted := none }

/-- The result of a task that failed without one; what it was accepted
with stays. -/
def failureResult (task : Task) (failure : TaskFailure) : TypedResult :=
  { hasOutput := false, output := .null
    raw :=
      { accepted := task.accepted.or
          (task.typedResult.bind fun t => t.raw.accepted) }
    error := some failure
    provenance :=
      ⟨(task.contract.map TaskContract.contractVersion).getD 0,
        commandKind task.command, "none"⟩ }

/-- Put the result of a failure on a task. -/
def recordFailure (task : Task) (failure : TaskFailure) : Task :=
  let typed := failureResult task failure
  { task with
    result := some (projectV1 typed), typedResult := some typed
    accepted := none }

/-- The final state of a v2 task agrees with its result: no success
without an output, no failure without a reason. -/
def settleTypedTerminal (task : Task) (requested : TaskState) :
    Task × TaskState :=
  if !task.isTyped then (task, requested)
  else
    match requested with
    | .succeeded =>
      match task.typedResult with
      | some t =>
        if t.hasOutput && t.error.isNone then (task, .succeeded)
        else
          let failure := t.error.getD
            (.new .outputValidation "no output was produced")
          (task, .failed failure.message)
      | none =>
        let failure := TaskFailure.new .persistence
          "no result was recorded before completion"
        (recordFailure task failure, .failed failure.message)
    | .failed error =>
      if (task.typedResult.bind TypedResult.error).isNone then
        (recordFailure task (.new .execution error), .failed error)
      else (task, .failed error)
    | other => (task, other)

-- ==== postprocess

/-- A postprocess run as it is reported. -/
inductive PostprocessOutcome where
  | collected (stdout : Value)
  | failed (cause : PostprocessCause) (message : String)

structure PostprocessReport where
  run : UInt32
  exitCode : Option Int32
  stderr : Option String
  stderrTruncated : Bool
  outcome : PostprocessOutcome

def PostprocessReport.cause (report : PostprocessReport) :
    Option PostprocessCause :=
  match report.outcome with
  | .failed cause _ => some cause
  | .collected _ => none

/-- The output that was asked for in the standard output. -/
def outputCandidate (stdout : StdoutSpec) (document : Value) :
    Option Value :=
  match stdout.pointer with
  | none => some document
  | some p => document.pointer p

/-- The run that follows a report, if one does. -/
def nextRun (spec : PostprocessSpec) (report : PostprocessReport) :
    Option UInt32 :=
  match report.cause with
  | none => none
  | some cause =>
    if cause.retryable && report.run < spec.maxRuns then
      some (report.run + 1)
    else none

/-- The result of a task whose last postprocess run is reported. -/
def finalizePostprocessed (task : Task) (contract : TaskContract)
    (spec : PostprocessSpec) (progress : PostprocessProgress)
    (report : PostprocessReport) : TypedResult :=
  let (execution, executionTruncated) :=
    rawExecution task.command progress.execution.output
  let raw (stdout : Option Value) : RawResult :=
    { exitCode := progress.execution.exitCode, execution
      executionTruncated
      postprocess := some
        { command := spec.command, run := report.run
          exitCode := report.exitCode, stdout, stderr := report.stderr
          stderrTruncated := report.stderrTruncated
          cause := report.cause, failedRuns := progress.failedRuns }
      accepted := task.accepted }
  let provenance (source : String) : Provenance :=
    ⟨contract.contractVersion, commandKind task.command, source⟩
  let failed (raw : RawResult) (failure : TaskFailure)
      (source : String) : TypedResult :=
    { hasOutput := false, output := .null, raw, error := some failure
      provenance := provenance source }
  match report.outcome with
  | .failed cause message =>
    failed (raw none)
      (.new .postprocess s!"postprocess {cause.name}: {message}") "none"
  | .collected stdout =>
    let source :=
      match spec.stdout.format with
      | .json => "postprocess.stdout.json"
      | .text => "postprocess.stdout.text"
    let raw :=
      raw (if spec.stdout.pointer.isSome then some stdout else none)
    match outputCandidate spec.stdout stdout with
    | none => failed raw (.new .postprocess
        "postprocess pointer_missing: stdout pointer has no value") source
    | some value =>
      match contract.defs.validateTyped
          (contract.outputSchema task.command) value with
      | .ok output =>
        { hasOutput := true, output, raw
          provenance := provenance source }
      | .error e => failed raw
          (.typed .outputValidation (some task.id) e) source

/-- The postprocess of a task that has ended is over. -/
def closePhase (task : Task) : Task :=
  let close (p : PostprocessProgress) : PostprocessProgress :=
    { p with
      phase := match p.phase with
        | .pending run _ => .finished (run - 1)
        | .started run _ => .finished run
        | .finished run => .finished run }
  { task with
    attempt := task.attempt.map fun a =>
      { a with postprocess := a.postprocess.map close } }

end Finalize

end Tasty.Agent
