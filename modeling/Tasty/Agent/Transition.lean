/-
Transitions (`crates/tasty-agent/src/task/store/transition.rs`, and the
creation of tasks in `store.rs`): the state of a task changes, and then
the tasks that wait for it are judged again.
-/
import Tasty.Agent.Store

namespace Tasty.Agent

-- ==== the states

/-- `is_valid_transition`; a retry goes its own way. -/
def isValidTransition : TaskState → TaskState → Bool
  | .waiting, .ready | .waiting, .skipped | .waiting, .cancelled => true
  | .ready, .running | .ready, .cancelled => true
  | .running, .succeeded | .running, .failed _ | .running, .cancelled
  | .running, .unknown _ => true
  | .unknown _, .ready | .unknown _, .cancelled
  | .unknown _, .waiting => true
  | _, _ => false

/-- `apply_on_failure`: what becomes of a task when one that it needs has
failed. -/
def applyOnFailure (t : Task) : Option TaskState :=
  match t.onFailure with
  | .abort => some .skipped
  | .continueDownstream => some .ready
  -- a v2 fallback is for a failure of the task itself
  | .fallback _ _ => if t.isTyped then some .skipped else none

/-- `settle_target`: the state that a waiting task goes to, and why. -/
def settleTarget (g : TaskGraph) (t : Task) :
    Option (TaskState × Option SkipReason) :=
  match g.readiness t.id with
  | none => none
  | some .ready => some (.ready, none)
  | some .notSelected => some (.skipped, some .branchNotSelected)
  | some (.unavailable reason) =>
    (applyOnFailure t).map fun next =>
      (next, if next = .skipped then reason else none)

/-- A waiting task that is judged. -/
def Task.settledTo (t : Task) (next : TaskState) (skip : Option SkipReason)
    (now : UInt64) : Task :=
  { t with
    state := next, skip
    finishedAt := if next.isTerminal then some now else t.finishedAt }

def attemptId (id : TaskId) (number : UInt32) : String := s!"{id}#{number}"

/-- The attempt that a start opens; v1 tasks have none. -/
def nextAttempt (t : Task) (now : UInt64) : Option TaskAttempt :=
  if !t.isTyped then none
  else
    let number :=
      match t.attempt with
      | none => 1
      | some a => a.number + 1
    some
      { id := attemptId t.id number, number, startedAt := now
        completion := none, postprocess := none }

section Transition

variable [TaskHost]

/-- `settle_route`: a v2 task that succeeds chooses its route; without one
it fails. -/
def settleRoute (s : Store) (t : Task) (state : TaskState) :
    Task × TaskState :=
  if state ≠ .succeeded ∨ !t.isTyped then (t, state)
  else
    match decideRoute t fun id => (s.get id).toOption.join with
    | .ok decision => ({ t with route := decision }, state)
    | .error failure =>
      let typed := t.typedResult.map fun r =>
        { r with error := some failure }
      ({ t with typedResult := typed, result := typed.map projectV1 },
        .failed failure.message)

/-- What else changes when a task comes into a state. -/
def Task.arrive (t : Task) (state : TaskState) (now : UInt64) : Task :=
  let t :=
    match state with
    | .running =>
      { t with
        startedAt := some now, route := none, skip := none
        attempt := (nextAttempt t now).or t.attempt }
    | .succeeded | .failed _ | .cancelled | .skipped =>
      closePhase { t with finishedAt := some now }
    | .waiting | .ready | .unknown _ => t
  { t with state }

/-- A task whose state is set; its end agrees with its result. -/
def Task.moved (s : Store) (t : Task) (requested : TaskState)
    (now : UInt64) : Task :=
  let (t, state) := settleTypedTerminal t requested
  let (t, state) := settleRoute s t state
  t.arrive state now

-- ==== settling

/-- The tasks as they have been read and settled, those that were, and
whether this round has settled one. -/
structure Settling where
  all : List Task
  updated : List Task
  changed : Bool

/-- The record of an id in the list; a v2 task comes later. -/
def lastWith (id : TaskId) (all : List Task) : Option Task :=
  all.reverse.find? fun t => t.id = id

def replaceRecord (t : Task) (all : List Task) : List Task :=
  all.map fun u => if u.slot = t.slot then t else u

/-- Judge one task, if it waits. -/
def settleOne (inactive : List TaskId) (now : UInt64) (st : Settling)
    (id : TaskId) : TaskProg Settling :=
  match lastWith id st.all with
  | none => pure st
  | some t =>
    if t.state ≠ .waiting then pure st
    else do
      let g ← buildGraph st.all
      match settleTarget (g.withInactive inactive) t with
      | none => pure st
      | some (next, skip) =>
        if next = .waiting ∨ !isValidTransition t.state next then
          pure st
        else do
          let t := t.settledTo next skip now
          putTask t
          pure
            { all := replaceRecord t st.all
              updated := st.updated ++ [t], changed := true }

def settleRound (inactive : List TaskId) (now : UInt64)
    (ids : List TaskId) (st : Settling) : TaskProg Settling :=
  ids.foldlM (settleOne inactive now) { st with changed := false }

/-- Rounds until one settles nothing. -/
def settleRounds (inactive : List TaskId) (now : UInt64)
    (ids : List TaskId) : Nat → Settling → TaskProg Settling
  | 0, st => pure st
  | fuel + 1, st => do
      let st ← settleRound inactive now ids st
      if st.changed then settleRounds inactive now ids fuel st
      else pure st

/-- How many tasks wait: each round but the last settles one. -/
def waitingCount (all : List Task) : Nat :=
  all.countP fun t => t.state = .waiting

/-- `settle_waiting`: judge the waiting tasks among `ids`, and those that
are settled by it too. -/
def settleWaiting (all : List Task) (ids : List TaskId) (now : UInt64) :
    TaskProg (List Task) := do
  let s ← Prog.read
  let inactive ← Prog.lift (inactiveTaskIds s all)
  let st ← settleRounds inactive now ids (waitingCount all + 1)
    { all, updated := [], changed := true }
  pure st.updated

/-- `cascade_downstream`: judge all that follows a task. -/
def cascadeDownstream (id : TaskId) (now : UInt64) :
    TaskProg (List Task) := do
  let all ← listTasks
  let g ← buildGraph all
  settleWaiting all (g.transitiveDownstream id) now

-- ==== creation

/-- What a task is created from. -/
structure TaskCreateOpts where
  command : TaskCommand
  dependsOn : List TaskId
  onFailure : OnFailure
  metadata : Value
  now : UInt64

def agentNeedsContract : String :=
  "agent tasks need contract_version 2; submit them with "
    ++ "agent.task_graph_submit"

/-- The commands that need a contract. -/
def checkV1Command (contract : Option TaskContract)
    (command : TaskCommand) : Except AgentError Unit :=
  if contract.isSome then .ok ()
  else
    match command with
    | .agent .. => .error (.invalidArgument agentNeedsContract)
    | .waitBarrier none => .error (.invalidArgument
        "wait_barrier needs a barrier name (name)")
    | _ => .ok ()

/-- A fallback is a task or made inline, one of them. -/
def checkFallbackForm : OnFailure → Except AgentError Unit
  | .fallback none none => .error (.invalidArgument
      "OnFailure::Fallback requires either 'task' or 'inline'")
  | .fallback (some _) (some _) => .error (.invalidArgument
      "OnFailure::Fallback cannot have both 'task' and 'inline'")
  | _ => .ok ()

def checkKnown (known : List Task) (ids : List TaskId) :
    Except AgentError Unit :=
  ids.forM fun id =>
    if known.any fun t => t.id = id then .ok ()
    else .error (.unknownDependency id)

/-- What a task that is created refers to exists. -/
def checkReferences (known : List Task) (opts : TaskCreateOpts) :
    Except AgentError Unit := do
  checkKnown known opts.dependsOn
  checkKnown known opts.onFailure.fallbackTask.toList
  checkKnown known opts.command.reduceInputs

def newTask (opts : TaskCreateOpts) (contract : Option TaskContract)
    (id : TaskId) : Task :=
  { id, command := opts.command, dependsOn := opts.dependsOn
    state := .waiting, createdAt := opts.now, result := none
    onFailure := opts.onFailure, metadata := opts.metadata, contract
    typedResult := none, skip := none }

/-- A failed check as an error of the store. -/
def asContract (x : Checking Unit) : Except AgentError Unit :=
  x.mapError .typeContract

/-- The contract of a task that is created; it selects no others. -/
def checkCreated (existing : List Task) (t : Task) :
    Except AgentError Unit := do
  asContract (checkTask t "" fun id => existing.find? fun u => u.id = id)
  if (t.contract.bind TaskContract.transitions).isSome then
    .error (.invalidArgument ("transitions select tasks submitted "
      ++ "together; use a task graph submission"))
  else .ok ()

/-- The fallback of a main task that now exists waits for it. -/
def releaseFallback (main : Task) : TaskProg Unit :=
  match main.onFailure.fallbackTask with
  | none => pure ()
  | some id => do
      match ← getTask id with
      | none => pure ()
      | some fb =>
        if fb.reservedForFallback || fb.state = .ready then
          putTask
            { fb with
              reservedForFallback := false
              state := if fb.state = .ready then .waiting
                else fb.state }
        else pure ()

/-- The record as it is first written. -/
def judgedNew (g : TaskGraph) (t : Task) : Task :=
  { t with state := (g.evaluateReadiness t.id).getD t.state }

/-- `create_with_contract`. -/
def createTask (opts : TaskCreateOpts) (contract : Option TaskContract) :
    TaskProg Task := do
  Prog.lift (checkV1Command contract opts.command)
  let existing ← listTasks
  let id ← unusedId opts.now existing
  Prog.lift (checkFallbackForm opts.onFailure)
  Prog.lift (checkReferences existing opts)
  let t := newTask opts contract id
  Prog.lift (checkCreated existing t)
  let s ← Prog.read
  let inactive ← Prog.lift (inactiveTaskIds s existing)
  let g ← buildGraph (existing ++ [t])
  let g := g.withInactive inactive
  Prog.lift g.detectCycles
  let t := judgedNew g t
  Prog.lift ((checkRecord t "the definition").mapError .invalidArgument)
  putTask t
  releaseFallback t
  pure t

/-- `create_reserved_for_fallback`: it waits before its main task is
there. -/
def createReservedForFallback (opts : TaskCreateOpts) : TaskProg Task := do
  let t ← createTask opts none
  let t := { t with state := .waiting, reservedForFallback := true }
  putTask t
  pure t

-- ==== propagation

/-- `advance_existing_fallback`. -/
def advanceExistingFallback (id : TaskId) : TaskProg (Option Task) := do
  match ← getTask id with
  | none => pure none
  | some fb => do
      let all ← listTasks
      let g ← readinessGraph all
      match g.evaluateReadiness id with
      | none => pure none
      | some target =>
        if target = .waiting ∨ !isValidTransition fb.state target then
          pure none
        else do
          let fb := { fb with state := target }
          putTask fb
          pure (some fb)

/-- The metadata of an inline fallback names its main task. -/
def fallbackMetadata (metadata : Value) (main : TaskId) : Value :=
  let entries :=
    match metadata with
    | .object entries => entries
    | _ => []
  .object (("fallback_of", .string main)
    :: entries.filter fun e => e.1 ≠ "fallback_of")

/-- `materialize_inline_fallback`, once for each main task. -/
def materializeInlineFallback (main : Task) (spec : InlineFallbackSpec)
    (now : UInt64) : TaskProg (Option Task) := do
  let existing ← listTasks
  if existing.any fun t => t.fallbackOf = some main.id then pure none
  else do
    let t ← createTask
      { command := spec.command
        dependsOn := spec.dependsOnOverride.getD main.dependsOn
        onFailure := spec.onFailure
        metadata := fallbackMetadata spec.metadata main.id, now } none
    pure (some t)

def promoteExisting : Option TaskId → TaskProg (Option Task)
  | some id => advanceExistingFallback id
  | none => pure none

def promoteInline (t : Task) (now : UInt64) :
    Option InlineFallbackSpec → TaskProg (Option Task)
  | some spec => materializeInlineFallback t spec now
  | none => pure none

/-- The fallback of a task that has failed goes on, or is made. -/
def promoteFallback (t : Task) (now : UInt64) : TaskProg (List Task) :=
  match t.state, t.onFailure with
  | .failed _, .fallback existing inline => do
      let a ← promoteExisting existing
      let b ← promoteInline t now inline
      pure (a.toList ++ b.toList)
  | _, _ => pure []

/-- The tasks that a task is the fallback of. -/
def mainsOf (all : List Task) (id : TaskId) : List TaskId :=
  (all.filter fun t => t.onFailure.fallbackTask = some id).map Task.id
    ++ ((all.find? fun t => t.id = id).bind Task.fallbackOf).toList

def cascadeAll (now : UInt64) : List TaskId → TaskProg (List Task)
  | [] => pure []
  | id :: rest => do
      let a ← cascadeDownstream id now
      let b ← cascadeAll now rest
      pure (a ++ b)

/-- Judge what follows the tasks that an ended task is the fallback of. -/
def cascadeMains (t : Task) (now : UInt64) : TaskProg (List Task) :=
  if t.state.isTerminal then do
    let all ← listTasks
    cascadeAll now (mainsOf all t.id)
  else pure []

/-- `set_state`, with what follows it. -/
def setStateThen (propagate : Task → TaskProg (List Task)) (id : TaskId)
    (requested : TaskState) (now : UInt64) :
    TaskProg (Task × List Task) := do
  let t ← fetchTask id
  if !isValidTransition t.state requested then
    throw (.invalidTransition t.state.name requested.name)
  else do
    let s ← Prog.read
    let t :=
      if requested = .running
          && (checkRecord t "the definition").toOption.isNone then
        -- refuse_to_start
        { t with state := .failed refusedToStart, finishedAt := some now }
      else t.moved s requested now
    putTask t
    let transitioned ← propagate t
    pure (t, transitioned)

/-- It ended well, or not by itself. -/
def endsUnfailed : TaskState → Bool
  | .succeeded | .cancelled | .skipped => true
  | _ => false

/-- The fallback that a v1 task needs no more ends with it. -/
def retireFallback (propagate : Task → TaskProg (List Task)) (t : Task)
    (now : UInt64) : TaskProg (List Task) :=
  match t.onFailure.fallbackTask with
  | some id =>
    if !t.isTyped && endsUnfailed t.state then do
      let fb ← getTask id
      if (fb.map Task.state) = some .waiting then do
        let (fb, more) ← setStateThen propagate id .skipped now
        pure (fb :: more)
      else pure []
    else pure []
  | none => pure []

/-- `propagate_transition`: each round ends a fallback that waits. -/
def propagateTransition (now : UInt64) :
    Nat → Task → TaskProg (List Task)
  | 0, _ => pure []
  | fuel + 1, t => do
      let promoted ← promoteFallback t now
      let retired ← retireFallback (propagateTransition now fuel) t now
      let settled ← cascadeDownstream t.id now
      let others ← cascadeMains t now
      pure (promoted ++ retired ++ settled ++ others)

def propagate (now : UInt64) (t : Task) : TaskProg (List Task) := do
  let all ← listTasks
  propagateTransition now (all.length + 1) t

def setState (id : TaskId) (requested : TaskState) (now : UInt64) :
    TaskProg (Task × List Task) :=
  setStateThen (propagate now) id requested now

/-- `set_result`. -/
def setResult (id : TaskId) (result : TaskResult) : TaskProg Task := do
  let t ← fetchTask id
  let t := recordResult t result
  putTask t
  pure t

/-- `cancel`. -/
def cancelTask (id : TaskId) (now : UInt64) :
    TaskProg (Task × List Task) := do
  let t ← fetchTask id
  if t.state.isTerminal then throw (.alreadyTerminal t.state.name)
  else setState id .cancelled now

end Transition

end Tasty.Agent
