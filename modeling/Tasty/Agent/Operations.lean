/-
The rest of the task store: retries (`crates/tasty-agent/src/task/store/
retry.rs`), the submission of graphs (`graph_submit.rs`) and deletion
(`sweep.rs`); and its runs, one operation after another, with any write
failing and a restart at any time.
-/
import Tasty.Agent.Complete

namespace Tasty.Agent

section Operations

variable [TaskHost]

-- ==== retries

/-- A retry may start from it. -/
def isRetryable : TaskState → Bool
  | .failed _ | .cancelled | .skipped | .unknown _ => true
  | _ => false

/-- A task as before its runs; its attempt stays. -/
def Task.reset (t : Task) : Task :=
  { t with
    state := .waiting, startedAt := none, finishedAt := none
    result := none, typedResult := none, inputSnapshot := none
    accepted := none, route := none, skip := none }

/-- A fallback that is in use. -/
def isTaken : TaskState → Bool
  | .ready | .running | .succeeded => true
  | _ => false

/-- `refuse_retry_after_fallback`. -/
def refuseRetryAfterFallback (t : Task) : TaskProg Unit :=
  match t.onFailure.fallbackTask with
  | none => pure ()
  | some id =>
    if !t.isTyped then pure ()
    else do
      match ← getTask id with
      | none => pure ()
      | some fb =>
        if isTaken fb.state then
          throw (.invalidArgument (s!"typed task {t.id} cannot be "
            ++ s!"retried: its fallback {id} is {fb.state.name} and "
            ++ "stays the outcome of this run; submit a new task to "
            ++ "run it again"))
        else pure ()

/-- `refuse_retry_of_unselected`. -/
def refuseRetryOfUnselected (t : Task) : TaskProg Unit :=
  if !t.isTyped || !isNotSelected t then pure ()
  else do
    let all ← listTasks
    let g ← readinessGraph all
    if g.readiness t.id = some .notSelected then
      throw (.invalidArgument (s!"typed task {t.id} cannot be retried: "
        ++ "its branch was not selected and is still not selected, so it "
        ++ "would be skipped again without running; submit a new task to "
        ++ "run it"))
    else pure ()

/-- `settle_report_block`: the report of the attempt before is closed,
beside the record. -/
def settleReportBlock (t : Task) : TaskProg Unit :=
  if t.isTyped && t.state ≠ .skipped && reportKeyRoom t.id then
    Prog.beside .memory
  else pure ()

/-- A task that was reset may go on, or end, at once. -/
def settleReset (g : TaskGraph) (t : Task) (now : UInt64) :
    TaskProg Task :=
  match settleTarget g t with
  | none => pure t
  | some (next, skip) =>
    if next = .waiting then pure t
    else do
      let t := t.settledTo next skip now
      putTask t
      pure t

/-- The states of followers that a retry resets. -/
def isResettable : TaskState → Bool
  | .skipped | .failed _ | .cancelled => true
  | _ => false

def resetFollower (id : TaskId) : TaskProg PUnit := do
  match ← getTask id with
  | none => pure ()
  | some d =>
    if isResettable d.state then putTask d.reset
    else pure ()

def resetFollowers (all : List Task) (id : TaskId) (now : UInt64) :
    TaskProg Unit := do
  let g ← buildGraph all
  (g.transitiveDownstream id).forM resetFollower
  let _ ← cascadeDownstream id now
  pure ()

/-- `retry`. -/
def retryTask (id : TaskId) (resetDownstream : Bool) (now : UInt64) :
    TaskProg Task := do
  let t ← fetchTask id
  if !isRetryable t.state then
    throw (.invalidTransition t.state.name "waiting (retry)")
  else do
    refuseRetryAfterFallback t
    refuseRetryOfUnselected t
    if resetDownstream && t.isTyped then
      throw (.invalidArgument (s!"typed task {id} cannot be retried with "
        ++ "reset_downstream: downstream tasks already settled on this "
        ++ "run's failure or route and are not rewound; retry without "
        ++ "it, or submit a new graph for the follow-up work"))
    else do
      settleReportBlock t
      let t := t.reset
      putTask t
      let all ← listTasks
      let g ← readinessGraph all
      let t ← settleReset g t now
      if resetDownstream then resetFollowers all id now
      pure t

-- ==== graphs

structure GraphTaskSpec where
  id : TaskId
  command : TaskCommand
  dependsOn : List TaskId
  onFailure : OnFailure
  metadata : Value
  inputSchema : Option TypeSchema
  outputSchema : Option TypeSchema
  bindings : List (String × InputBinding)
  inputMapping : Option InputMapping
  allowedExitCodes : Option (List Int32)
  mergeConflict : Option MergeConflict
  postprocess : Option PostprocessSpec
  transitions : Option Transitions

/-- A graph of v2 tasks, submitted as one. -/
structure TaskGraphSpec where
  contractVersion : UInt32
  types : List (String × TypeSchema)
  tasks : List GraphTaskSpec
  durability : GraphDurability

/-- A graph that passed the checks; nothing of it is stored. -/
structure GraphPlan where
  graphId : String
  tasks : List Task
  durability : GraphDurability

def maxGraphTasks : Nat := 1000

def graphError (message location : String) : AgentError :=
  .typeContract
    { TaskFailure.new .input message with location := some location }

/-- The keys that an id makes, its own and those of its reports. -/
def checkIdKeys (id : TaskId) : Except AgentError Unit := do
  typedTaskKey id
  checkReportKeyRoom id

/-- A bad key as an error of the graph. -/
def keyError (place : String) : AgentError → AgentError
  | .invalidKey text => graphError text (place ++ "/id")
  | e => e

/-- The ids of a graph are new, and make keys. -/
def checkGraphId (existing planned : List Task) (id : TaskId)
    (place : String) : Except AgentError Unit := do
  (checkIdKeys id).mapError (keyError place)
  if existing.any fun t => t.id = id then
    .error (graphError
      s!"task id {id} already exists in this workspace" (place ++ "/id"))
  else if planned.any fun t => t.id = id then
    .error (graphError s!"task id {id} appears more than once in the graph"
      (place ++ "/id"))
  else .ok ()

/-- `entry(key).or_insert(value)`, of a map in the order of its keys. -/
def orInsert (key : String) (value : Value) :
    List (String × Value) → List (String × Value)
  | [] => [(key, value)]
  | (k, v) :: rest =>
    if k = key then (k, v) :: rest
    else if key < k then (key, value) :: (k, v) :: rest
    else (k, v) :: orInsert key value rest

/-- The tasks of a graph are shown as one group, unless they name
another. -/
def graphMetadata (metadata : Value) (graphId place : String) :
    Except AgentError Value :=
  match metadata with
  | .null => .ok (.object [("dag", .string graphId)])
  | .object entries =>
    .ok (.object (orInsert "dag" (.string graphId) entries))
  | _ => .error (graphError "metadata must be an object"
      (place ++ "/metadata"))

def plannedTask (spec : TaskGraphSpec) (t : GraphTaskSpec)
    (graphId : String) (metadata : Value) (now : UInt64) : Task :=
  { id := t.id, command := t.command, dependsOn := t.dependsOn
    state := .waiting, createdAt := now, result := none
    onFailure := t.onFailure, metadata
    contract := some
      { contractVersion := spec.contractVersion, types := spec.types
        inputSchema? := t.inputSchema, outputSchema? := t.outputSchema
        bindings := t.bindings, inputMapping := t.inputMapping
        postprocess := t.postprocess
        allowedExitCodes := t.allowedExitCodes
        mergeConflict := t.mergeConflict, transitions := t.transitions }
    typedResult := none, graphId := some graphId, skip := none }

/-- The tasks of a graph, one after another. -/
def planTasks (spec : TaskGraphSpec) (graphId : String)
    (existing : List Task) (now : UInt64) :
    List Task → List GraphTaskSpec → Except AgentError (List Task)
  | planned, [] => .ok planned
  | planned, t :: rest => do
      let place := s!"/tasks/{planned.length}"
      checkGraphId existing planned t.id place
      let metadata ← graphMetadata t.metadata graphId place
      planTasks spec graphId existing now
        (planned ++ [plannedTask spec t graphId metadata now]) rest

/-- What is found under an id: the tasks of the graph come first. -/
def planLookup (existing planned : List Task) (id : TaskId) :
    Option Task :=
  (planned.find? fun t => t.id = id).or
    (existing.find? fun t => t.id = id)

/-- All ids of a list are found. -/
def checkFound (lookup : TaskId → Option Task) (what place : String)
    (taskId : TaskId) (ids : List TaskId) : Except AgentError Unit :=
  ids.zipIdx.forM fun (id, j) =>
    if (lookup id).isSome then .ok ()
    else .error (graphError s!"task {taskId}: {what} not found: {id}"
      s!"{place}/{j}")

def checkFallbackFound (lookup : TaskId → Option Task) (t : Task)
    (place : String) : Except AgentError Unit :=
  match t.onFailure.fallbackTask with
  | none => .ok ()
  | some fb =>
    if (lookup fb).isSome then .ok ()
    else .error (graphError
      s!"task {t.id}: fallback task not found: {fb}"
      (place ++ "/on_failure/task"))

/-- One task of a graph, in the graph. -/
def checkPlanned (existing planned : List Task) (t : Task)
    (place : String) : Except AgentError Unit := do
  let lookup := planLookup existing planned
  checkFound lookup "depends_on task" (place ++ "/depends_on") t.id
    t.dependsOn
  checkFound lookup "reduce input task" (place ++ "/command/inputs") t.id
    t.command.reduceInputs
  checkFallbackFound lookup t place
  (checkRecord t "the definition").mapError fun m => graphError m place
  asContract (checkTask t place lookup)
  asContract (checkTransitions t place planned lookup)

def checkGraphForm (spec : TaskGraphSpec) : Except AgentError Unit :=
  if spec.contractVersion ≠ 2 then
    .error (graphError (s!"unsupported contract_version "
      ++ s!"{spec.contractVersion} (supported: 2)") "/contract_version")
  else if spec.tasks.isEmpty then
    .error (graphError "a task graph needs at least one task" "/tasks")
  else if maxGraphTasks < spec.tasks.length then
    .error (graphError (s!"a task graph holds at most {maxGraphTasks} "
      ++ s!"tasks, got {spec.tasks.length}; split it into smaller graphs")
      "/tasks")
  else .ok ()

/-- Only a cycle refuses a graph. -/
def checkAcyclic (g : TaskGraph) : Except AgentError Unit :=
  match g.detectCycles with
  | .error (.dependencyCycle ids) =>
    .error (graphError
      ("dependency cycle: " ++ String.intercalate " -> " ids) "/tasks")
  | _ => .ok ()

/-- `plan_graph`. -/
def planGraph (spec : TaskGraphSpec) (now : UInt64) :
    TaskProg GraphPlan := do
  Prog.lift (checkGraphForm spec)
  let existing ← listTasks
  let graphId ← freshName (graphIdOf now) (existing.filterMap Task.graphId)
  let planned ← Prog.lift
    (planTasks spec graphId existing now [] spec.tasks)
  Prog.lift (planned.zipIdx.forM fun (t, i) =>
    checkPlanned existing planned t s!"/tasks/{i}")
  Prog.lift (asContract (checkRouteInputs planned (existing ++ planned)))
  let g ← buildGraph (existing ++ planned)
  Prog.lift (checkAcyclic g)
  pure { graphId, tasks := planned, durability := spec.durability }

/-- `rollback_staged`: what cannot be deleted stays inactive. -/
def rollbackStaged (written : List Task) : TaskProg PUnit :=
  written.forM fun t => do
    let _ ← Prog.attempt (deleteTask t.id)
    pure ()

def stageFrom : List Task → List Task → TaskProg Unit
  | _, [] => pure ()
  | written, t :: rest => do
      match ← Prog.attempt (putTask t) with
      | .ok () => stageFrom (written ++ [t]) rest
      | .error e => do
          rollbackStaged written
          throw e

/-- `stage_graph`. -/
def stageGraph (plan : GraphPlan) : TaskProg Unit :=
  stageFrom [] plan.tasks

def GraphPlan.record (plan : GraphPlan) (now : UInt64) : GraphRecord :=
  { taskIds := plan.tasks.map Task.id, activatedAt := now
    durability := plan.durability }

/-- The record is written. -/
def putGraphRecord (plan : GraphPlan) (now : UInt64) : TaskProg Unit := do
  Prog.lift (graphKey plan.graphId)
  Prog.commit .memory fun s => s.activate plan.graphId (plan.record now)

/-- `apply_graph_readiness`: judge the tasks of the graph, and what
follows those that end by it. -/
def applyGraphReadiness (plan : GraphPlan) (now : UInt64) :
    TaskProg (List Task) := do
  let all ← listTasks
  let ids := plan.tasks.map Task.id
  let settled ← settleWaiting all ids now
  let _ ← cascadeAll now
    ((settled.filter fun t => t.state.isTerminal).map Task.id)
  let all ← listTasks
  pure (all.filter fun t => ids.contains t.id)

/-- `activate_graph`: once the record is written nothing is undone. -/
def activateGraph (plan : GraphPlan) (now : UInt64) :
    TaskProg (List Task) := do
  match ← Prog.attempt (putGraphRecord plan now) with
  | .error e => do
      rollbackStaged plan.tasks
      throw e
  | .ok () =>
    Prog.mapError (.graphPartiallyActivated plan.graphId)
      (applyGraphReadiness plan now)

/-- `submit_graph`. -/
def submitGraph (spec : TaskGraphSpec) (now : UInt64) :
    TaskProg (String × List Task) := do
  let plan ← planGraph spec now
  stageGraph plan
  let tasks ← activateGraph plan now
  pure (plan.graphId, tasks)

-- ==== deletion

/-- `prune_graph_records`: a graph without tasks is no more. -/
def pruneGraphRecords : TaskProg PUnit := do
  let s ← Prog.read
  let live := s.list.filterMap Task.graphId
  s.graphs.toList.forM fun r =>
    if live.contains r.1 then pure ()
    else Prog.commit .memory fun s => s.deactivate r.1

structure TaskDeleteOpts where
  cascade : Bool
  force : Bool

def isRunning (t : Task) : Bool := t.state = .running

/-- What a deletion deletes: all that refers to the task too, or nothing
refers to it. -/
def deleteTargets (all : List Task) (order : HashOrder) (id : TaskId)
    (opts : TaskDeleteOpts) : Except AgentError (List TaskId) :=
  if opts.cascade then
    let seen := id :: transitiveReferencingTaskIds all id
    let targets := order.iterate (all.filter fun t => seen.contains t.id)
    match targets.find? isRunning with
    | some t => .error (.taskRunning t.id)
    | none => .ok (distinct (targets.map Task.id))
  else if opts.force then .ok [id]
  else
    let referencers := referencingTaskIds all id
    if referencers.isEmpty then .ok [id]
    else .error (.taskReferenced id referencers)

def deleteAll (ids : List TaskId) : TaskProg PUnit := ids.forM deleteTask

/-- `delete_checked`. -/
def deleteChecked (id : TaskId) (opts : TaskDeleteOpts) :
    TaskProg (List TaskId) := do
  let t ← fetchTask id
  if isRunning t then throw (.taskRunning id)
  else do
    let all ← listTasks
    let order ← freshOrder
    let targets ← Prog.lift (deleteTargets all order id opts)
    deleteAll targets
    pruneGraphRecords
    pure targets

/-- `apply_sweep_plan`, of the ids that a plan deletes. -/
def applySweepPlan (deleted : List TaskId) : TaskProg PUnit := do
  deleteAll deleted
  pruneGraphRecords

end Operations

-- ==== runs

/-- The operations of the store. A graph is submitted as a whole, or in
its parts. -/
inductive StoreOp where
  | create (opts : TaskCreateOpts) (contract : Option TaskContract)
  | createReserved (opts : TaskCreateOpts)
  | setState (id : TaskId) (requested : TaskState) (now : UInt64)
  | setResult (id : TaskId) (result : TaskResult)
  | complete (id : TaskId) (completion : Completion) (now : UInt64)
  | beginPostprocess (id : TaskId) (attemptId : String) (run : UInt32)
      (now : UInt64)
  | cancel (id : TaskId) (now : UInt64)
  | retry (id : TaskId) (resetDownstream : Bool) (now : UInt64)
  | setInputSnapshot (id : TaskId) (snapshot : InputSnapshot)
  | setAccepted (id : TaskId) (accepted : CappedJson)
  | touch (id : TaskId)
  | resettle (now : UInt64)
  | dryRun (spec : TaskGraphSpec) (now : UInt64)
  | submit (spec : TaskGraphSpec) (now : UInt64)
  | stage (plan : GraphPlan)
  | activate (plan : GraphPlan) (now : UInt64)
  | delete (id : TaskId) (opts : TaskDeleteOpts)
  | sweep (deleted : List TaskId)

section Runs

variable [TaskHost] [ReportDigest]

def StoreOp.run : StoreOp → TaskProg Unit
  | .create opts contract => do let _ ← createTask opts contract
  | .createReserved opts => do let _ ← createReservedForFallback opts
  | .setState id requested now => do
      let _ ← Agent.setState id requested now
  | .setResult id result => do let _ ← Agent.setResult id result
  | .complete id completion now => do
      let _ ← completeTask id completion now
  | .beginPostprocess id attemptId run now => do
      let _ ← beginPostprocessRun id attemptId run now
  | .cancel id now => do let _ ← cancelTask id now
  | .retry id resetDownstream now => do
      let _ ← retryTask id resetDownstream now
  | .setInputSnapshot id snapshot => do
      let _ ← Agent.setInputSnapshot id snapshot
  | .setAccepted id accepted => do
      let _ ← Agent.setAccepted id accepted
  | .touch id => do let _ ← touchTask id
  | .resettle now => do let _ ← resettleWaiting now
  | .dryRun spec now => do let _ ← planGraph spec now
  | .submit spec now => do let _ ← submitGraph spec now
  | .stage plan => stageGraph plan
  | .activate plan now => do let _ ← activateGraph plan now
  | .delete id opts => do let _ ← deleteChecked id opts
  | .sweep deleted => applySweepPlan deleted

/-- A plan that the check let pass, at some time. -/
def GraphPlan.IsPlanned (plan : GraphPlan) : Prop :=
  ∃ (spec : TaskGraphSpec) (now : UInt64) (d : TaskDisk),
    (planGraph spec now d).1 = .ok plan

/-- Only plans are staged and activated. -/
def StoreOp.WellFormed : StoreOp → Prop
  | .stage plan => plan.IsPlanned
  | .activate plan _ => plan.IsPlanned
  | _ => True

/-- No graph is staged or activated in parts. -/
def StoreOp.isWhole : StoreOp → Bool
  | .stage _ | .activate _ _ => false
  | _ => true

/-- The disk with the fate of the next writes, and the orders of the next
hash maps. -/
def TaskDisk.facing (d : TaskDisk) (outcomes : List Bool)
    (orders : List HashOrder) : TaskDisk :=
  { d with outcomes, env := { d.env with orders } }

/-- One operation on a store that allows it, or a restart, after which
numbers are handed out from zero again. A crash is an operation whose
writes fail from some point on, and a restart. -/
inductive StoreStep (C : Store → StoreOp → Prop) : TaskDisk → TaskDisk → Prop
  | op (d : TaskDisk) (o : StoreOp) (outcomes : List Bool)
      (orders : List HashOrder) : o.WellFormed → C d.store o →
      StoreStep C d (o.run (TaskDisk.facing d outcomes orders)).2
  | restart (d : TaskDisk) :
      StoreStep C d { d with env := { d.env with seq := 0 } }

/-- From one disk to another by operations that `C` allows. -/
def StoreRun (C : Store → StoreOp → Prop) : TaskDisk → TaskDisk → Prop :=
  Relation.ReflTransGen (StoreStep C)

def TaskDisk.initial : TaskDisk :=
  { store := .empty, past := [], outcomes := [], env := ⟨0, []⟩ }

/-- A disk that a run of the store can lead to. -/
def ReachableStore (C : Store → StoreOp → Prop) (d : TaskDisk) : Prop :=
  StoreRun C TaskDisk.initial d

end Runs

-- ==== runs on fixed inputs

/-- A host for runs on fixed inputs: any record fits. -/
@[reducible] def sampleHost : TaskHost where
  display _ := ""
  json _ := ""
  parse _ := none
  char _ := ""
  string s := s
  check _ := .ok ()
  recordSize _ := 0
  recordLimit := 0

/-- The digest of a report is its error. -/
@[reducible] def sampleDigest : ReportDigest :=
  ⟨fun result _ _ => result.error.getD ""⟩

/-- A task of a graph that takes nothing and waits for nothing. -/
def sampleTask (id : TaskId) : GraphTaskSpec :=
  { id, command := .custom "system.ping" (.object []), dependsOn := []
    onFailure := .abort, metadata := .null, inputSchema := none
    outputSchema := none, bindings := [], inputMapping := none
    allowedExitCodes := none, mergeConflict := none, postprocess := none
    transitions := none }

def sampleGraph (tasks : List GraphTaskSpec) : TaskGraphSpec :=
  { contractVersion := 2, types := [], tasks, durability := .required }

end Tasty.Agent
