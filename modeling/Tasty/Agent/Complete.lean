/-
Reports of executions (`crates/tasty-agent/src/task/store/complete.rs`,
`store/postprocess.rs` and `task/attempt.rs`): a v2 task takes its result
and its end in one write, once for each attempt.
-/
import Tasty.Agent.Transition

namespace Tasty.Agent

inductive CompletionOutcome where
  | succeeded
  | failed (error : String)
  /-- The result cannot be had: the task stays open. -/
  | lost (reason : String)

def CompletionOutcome.state : CompletionOutcome → TaskState
  | succeeded => .succeeded
  | failed error => .failed error
  | lost reason => .unknown (some reason)

/-- The report of an execution; without an attempt it is of the current
one. With `postprocess` it reports that run instead. -/
structure Completion where
  attemptId : Option String
  result : TaskResult
  outcome : CompletionOutcome
  postprocess : Option PostprocessReport
  /-- The copy of the main result is dropped, so that the record fits. -/
  mainCopyDropped : Bool

/-- The digest of what is reported; of the attempt it says nothing. -/
class ReportDigest where
  digest : TaskResult → CompletionOutcome → Option PostprocessReport →
    String

def Completion.digest [ReportDigest] (c : Completion) : String :=
  ReportDigest.digest c.result c.outcome c.postprocess

structure CompletionReceipt where
  task : Task
  transitioned : List Task
  duplicate : Bool

/-- What the postprocess makes of a report. -/
inductive PostprocessStep where
  | notApplicable
  /-- The task goes on running. -/
  | continue (receipt : CompletionReceipt)
  /-- The attempt ends; the result is on the task. -/
  | finalize (task : Task)

section Complete

variable [TaskHost] [ReportDigest]

/-- A response that is too large to be kept for the postprocess. -/
def responseTooLarge (t : Task) (result : TaskResult) : Bool :=
  t.command.isCustomOrAgent
    && result.output.any fun v => maxValueBytes < v.text.utf8ByteSize

def rejected (t : Task) (reported : Option String)
    (reason : CompletionRejection) : AgentError :=
  .completionRejected t.id reported (t.attempt.map TaskAttempt.id) reason

def transitionError (t : Task) (requested : TaskState) : AgentError :=
  .invalidTransition t.state.name requested.name

def Task.withProgress (t : Task) (p : PostprocessProgress) : Task :=
  { t with attempt := t.attempt.map fun a => { a with postprocess := p } }

/-- `keep_running`: the progress is written, unless it was before. -/
def keepRunning (t : Task) (p : PostprocessProgress) (duplicate : Bool) :
    TaskProg PostprocessStep := do
  let t := if duplicate then t else t.withProgress p
  if !duplicate then putTask t
  pure (.continue ⟨t, [], duplicate⟩)

/-- The run that a postprocess is at. -/
def PostprocessPhase.current : PostprocessPhase → Option UInt32
  | .pending run _ | .started run _ => some run
  | .finished _ => none

/-- The reported run is one that has failed, for the same reason. -/
def sameFailure (report : PostprocessReport)
    (r : PostprocessRunSummary) : Bool :=
  r.run = report.run && some r.cause = report.cause
    && r.exitCode = report.exitCode

/-- The progress when another run follows a report. -/
def PostprocessProgress.retried (p : PostprocessProgress)
    (spec : PostprocessSpec) (report : PostprocessReport) (run : UInt32)
    (now : UInt64) : PostprocessProgress :=
  { p with
    failedRuns := match report.outcome with
      | .failed cause message =>
        p.failedRuns ++ [⟨report.run, report.exitCode, cause, message⟩]
      | .collected _ => p.failedRuns
    -- saturating_add
    phase := .pending run
      (UInt64.ofNat (min (now.toNat + spec.retryDelayMs.toNat)
        (2 ^ 64 - 1))) }

/-- The task with the result of its last postprocess run. -/
def Task.postprocessed (t : Task) (contract : TaskContract)
    (spec : PostprocessSpec) (p : PostprocessProgress)
    (report : PostprocessReport) (mainCopyDropped : Bool) : Task :=
  let p :=
    if mainCopyDropped then
      { p with execution := { p.execution with output := none } }
    else p
  let typed := finalizePostprocessed t contract spec p report
  { t.withProgress { p with phase := .finished report.run } with
    result := some (projectV1 typed), typedResult := some typed
    accepted := none }

/-- The report of the main work, the first or sent again. -/
def mainReport (t : Task) (completion : Completion) (now : UInt64) :
    Option PostprocessProgress → TaskProg PostprocessStep
  | none =>
    match completion.outcome with
    | .succeeded =>
      if responseTooLarge t completion.result then
        pure .notApplicable
      else
        keepRunning t
          { execution := completion.result
            mainDigest := completion.digest
            phase := .pending 1 now, failedRuns := [] } false
    | _ => pure .notApplicable
  | some p =>
    if p.mainDigest = completion.digest then keepRunning t p true
    else throw (rejected t completion.attemptId .differentReport)

/-- The report of a postprocess run. -/
def postprocessReport (t : Task) (contract : TaskContract)
    (spec : PostprocessSpec) (completion : Completion)
    (report : PostprocessReport) (now : UInt64) :
    Option PostprocessProgress → TaskProg PostprocessStep
  | none =>
    throw (.invalidArgument (s!"task {t.id}: postprocess report before "
      ++ "the main execution finished"))
  | some p =>
    if p.failedRuns.any fun r => r.run = report.run then
      if p.failedRuns.any (sameFailure report) then keepRunning t p true
      else throw (rejected t completion.attemptId .differentReport)
    else if p.phase.current ≠ some report.run then
      throw (rejected t completion.attemptId .staleAttempt)
    else
      match nextRun spec report with
      | some run => keepRunning t (p.retried spec report run now) false
      | none =>
        pure (.finalize (t.postprocessed contract spec p report
          completion.mainCopyDropped))

/-- `postprocess_step`. -/
def postprocessStep (t : Task) (completion : Completion) (now : UInt64) :
    TaskProg PostprocessStep :=
  match t.contract with
  | none => pure .notApplicable
  | some contract =>
    match contract.postprocess with
    | none => pure .notApplicable
    | some spec =>
      let progress := t.attempt.bind TaskAttempt.postprocess
      match completion.postprocess with
      | none => mainReport t completion now progress
      | some report =>
        postprocessReport t contract spec completion report now
          progress

/-- The end of an attempt: the state agrees with the result that is on the
task, and the digest of the report is noted. -/
def Task.completed (s : Store) (t : Task) (requested : TaskState)
    (digest : String) (now : UInt64) : Task :=
  let (t, state) := settleTypedTerminal t requested
  let (t, state) := settleRoute s t state
  { t with
    state, finishedAt := some now
    attempt := t.attempt.map fun a => { a with completion := digest } }

/-- The result cannot be had. -/
def Task.lost (t : Task) (requested : TaskState) : Task :=
  closePhase { t with state := requested }

/-- A v1 task takes its result, then its state. -/
def completeV1 (t : Task) (completion : Completion) (now : UInt64) :
    TaskProg CompletionReceipt :=
  if !isValidTransition t.state completion.outcome.state then
    throw (transitionError t completion.outcome.state)
  else do
    let _ ← setResult t.id completion.result
    let (t, transitioned) ← setState t.id completion.outcome.state now
    pure ⟨t, transitioned, false⟩

/-- A report for a task that has ended: the same one is told so, and what
follows it is done again. -/
def completeEnded (t : Task) (completion : Completion) (now : UInt64) :
    TaskProg CompletionReceipt :=
  match t.attempt.bind TaskAttempt.completion with
  | some digest =>
    if digest = completion.digest then do
      let transitioned ← propagate now t
      pure ⟨t, transitioned, true⟩
    else throw (rejected t completion.attemptId .differentReport)
  | none => throw (rejected t completion.attemptId .alreadyTerminal)

/-- The last report of an attempt. -/
def endAttempt (t : Task) (completion : Completion) (now : UInt64) :
    TaskProg CompletionReceipt := do
  let s ← Prog.read
  let t := t.completed s completion.outcome.state completion.digest now
  putTask t
  let transitioned ← propagate now t
  pure ⟨t, transitioned, false⟩

/-- What follows the postprocess step of a report. -/
def afterPostprocess (t : Task) (completion : Completion) (now : UInt64) :
    PostprocessStep → TaskProg CompletionReceipt
  | .continue receipt => pure receipt
  | .finalize t => endAttempt t completion now
  | .notApplicable =>
    endAttempt (recordResult t completion.result) completion now

/-- A report for a task that runs. -/
def completeRunning (t : Task) (completion : Completion) (now : UInt64) :
    TaskProg CompletionReceipt :=
  match completion.outcome with
  | .lost _ => do
      let t := t.lost completion.outcome.state
      putTask t
      pure ⟨t, [], false⟩
  | _ => do
      let step ← postprocessStep t completion now
      afterPostprocess t completion now step

/-- The attempt that a report names is not the current one. -/
def isStale (t : Task) (completion : Completion) : Bool :=
  completion.attemptId.any fun reported =>
    t.attempt.map TaskAttempt.id ≠ some reported

/-- `complete`. -/
def completeTask (id : TaskId) (completion : Completion) (now : UInt64) :
    TaskProg CompletionReceipt := do
  let t ← fetchTask id
  if !t.isTyped then completeV1 t completion now
  else if isStale t completion then
    throw (rejected t completion.attemptId .staleAttempt)
  else if t.state.isTerminal then completeEnded t completion now
  else if t.state ≠ .running then
    throw (transitionError t completion.outcome.state)
  else completeRunning t completion now

/-- The postprocess run that is to start. -/
def checkPending (t : Task) (attemptId : String) (run : UInt32) :
    Except AgentError PostprocessProgress :=
  match (t.attempt.filter fun a => a.id = attemptId).bind
      TaskAttempt.postprocess with
  | none => .error (rejected t (some attemptId) .staleAttempt)
  | some p =>
    match p.phase with
    | .pending r _ =>
      if r = run then .ok p
      else .error (.invalidArgument
        s!"task {t.id}: postprocess run {run} is not pending")
    | _ => .error (.invalidArgument
        s!"task {t.id}: postprocess run {run} is not pending")

/-- `begin_postprocess_run`: noted before the process is started. -/
def beginPostprocessRun (id : TaskId) (attemptId : String) (run : UInt32)
    (now : UInt64) : TaskProg (Task × PostprocessSpec × TaskResult) := do
  let t ← fetchTask id
  if t.state ≠ .running then
    throw (.invalidTransition t.state.name "postprocessing")
  else
    match t.contract.bind TaskContract.postprocess with
    | none => throw (.invalidArgument s!"task {id} has no postprocess")
    | some spec => do
        let p ← Prog.lift (checkPending t attemptId run)
        let t := t.withProgress { p with phase := .started run now }
        putTask t
        pure (t, spec, p.execution)

/-- `resettle_waiting`: judge all waiting tasks again, after a restart. -/
def resettleWaiting (now : UInt64) : TaskProg (List Task) := do
  let all ← listTasks
  let ids := (all.filter fun t => t.state = .waiting).map Task.id
  let settled ← settleWaiting all ids now
  let others ← cascadeAll now
    ((settled.filter fun t => t.state.isTerminal).map Task.id)
  pure (settled ++ others)

end Complete

end Tasty.Agent
