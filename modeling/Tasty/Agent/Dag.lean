/-
The tasks of the workspaces by graph, as they are shown
(`crates/tasty-agent/src/task/dag.rs`): tasks that name a graph in their
metadata are one by that name, the others are one where references connect
them. No record of a graph is kept; all is derived from the tasks.
-/
import Tasty.Agent.Contract
import Tasty.Lib.Grouping

namespace Tasty.Agent

/-- Workspaces are listed by their ids. -/
scoped instance workspaceOrder : LinearOrder UInt32 where
  le_refl a := UInt32.le_refl a
  le_trans _ _ _ := UInt32.le_trans
  le_antisymm _ _ := UInt32.le_antisymm
  le_total := UInt32.le_total
  lt_iff_le_not_ge a b := by
    rw [UInt32.not_le]
    exact ⟨fun h => ⟨UInt32.le_of_lt h, h⟩, And.right⟩
  toDecidableLE := inferInstance
  toDecidableEq := inferInstance

/-- A task of some workspace. -/
structure ListedTask extends Task where
  workspaceId : UInt32
  name : String
  /-- The agent of its attempt waits for a person. -/
  awaitsInput : Bool

def explicitIdPrefix : String := "d:"

def derivedIdPrefix : String := "c:"

-- ==== metadata

/-- `str::trim`. -/
def trim (s : String) : String :=
  let start := s.toList.dropWhile isWhitespace
  String.ofList (start.reverse.dropWhile isWhitespace).reverse

/-- A text that the metadata has under `key`, unless it is blank. -/
def metadataText (t : Task) (key : String) : Option String :=
  match t.metadata with
  | .object entries =>
    match Entries.get entries key with
    | some (.string s) => if trim s = "" then none else some (trim s)
    | _ => none
  | _ => none

def explicitDagKey (t : Task) : Option String := metadataText t "dag"

-- ==== counts

structure DagStateCounts where
  waiting : Nat := 0
  ready : Nat := 0
  running : Nat := 0
  succeeded : Nat := 0
  failed : Nat := 0
  cancelled : Nat := 0
  skipped : Nat := 0
  unknown : Nat := 0
  /-- Skipped since no way to it was selected. -/
  notSelected : Nat := 0
  /-- Failed, but a fallback succeeded in its place. -/
  recovered : Nat := 0
  /-- Waiting, and nothing will make it ready. -/
  blocked : Nat := 0
  succeededEnds : Nat := 0
  awaitingInput : Nat := 0

namespace DagStateCounts

def addState (c : DagStateCounts) : TaskState → DagStateCounts
  | .waiting => { c with waiting := c.waiting + 1 }
  | .ready => { c with ready := c.ready + 1 }
  | .running => { c with running := c.running + 1 }
  | .succeeded => { c with succeeded := c.succeeded + 1 }
  | .failed _ => { c with failed := c.failed + 1 }
  | .cancelled => { c with cancelled := c.cancelled + 1 }
  | .skipped => { c with skipped := c.skipped + 1 }
  | .unknown _ => { c with unknown := c.unknown + 1 }

/-- Its phase is `awaiting_input`. -/
def isAwaitingInput (t : ListedTask) : Bool :=
  match t.command, t.state with
  | .agent .., .running => t.awaitsInput
  | _, _ => false

def add (c : DagStateCounts) (t : ListedTask) : DagStateCounts :=
  let c := { c with
    notSelected := c.notSelected + (isNotSelected t.toTask).toNat
    awaitingInput := c.awaitingInput + (isAwaitingInput t).toNat }
  c.addState t.state

def rollup (c : DagStateCounts) : String :=
  if 0 < c.running then "running"
  else if 0 < c.ready then "ready"
  else if c.blocked < c.waiting then "waiting"
  else if c.recovered < c.failed then
    if 0 < c.succeededEnds then "partially_failed" else "failed"
  else if 0 < c.blocked || 0 < c.unknown then "waiting"
  else if c.cancelled = 0 && c.skipped ≤ c.notSelected then "succeeded"
  else "skipped"

end DagStateCounts

structure DagSummary where
  id : String
  workspaceId : UInt32
  name : String
  source : String
  taskCount : Nat
  stateCounts : DagStateCounts
  rollupState : String
  createdAt : UInt64
  updatedAt : UInt64
  rootTaskIds : List TaskId
  hasCycle : Bool
  taskIds : List TaskId

-- ==== the components

/-- The index of a task; of several with one id, of the last. -/
def poolIndex (pool : List ListedTask) (id : TaskId) :
    Option (Fin pool.length) :=
  (List.finRange pool.length).reverse.find? fun i => (pool.get i).id = id

/-- What a task is united with, in turn. -/
def poolEdges (pool : List ListedTask) :
    List (Fin pool.length × Fin pool.length) :=
  (List.finRange pool.length).flatMap fun i =>
    let t := (pool.get i).toTask
    (referencedTaskIds t ++ t.fallbackOf.toList).filterMap fun id =>
      (poolIndex pool id).map fun j => (i, j)

def poolClasses (pool : List ListedTask) : UnionFind pool.length :=
  (poolEdges pool).foldl (fun u (edge : Fin pool.length × Fin pool.length) =>
    u.union edge.1 edge.2) (.start pool.length)

/-- The representative of each index; searching for one moves parents. -/
def findAll {n : Nat} (u : UnionFind n) : List (Fin n) → List (Fin n × Fin n)
  | [] => []
  | i :: rest => ((u.find i).1, i) :: findAll (u.find i).2 rest

def weaklyConnectedComponents (pool : List ListedTask) :
    List (List ListedTask) :=
  let found := findAll (poolClasses pool) (List.finRange pool.length)
  (grouped Prod.fst found).map fun entry =>
    entry.2.map fun p => pool.get p.2

-- ==== the counts

/-- The fallback of a failed task that is in its group. -/
def fallbackIn (group : List ListedTask) (t : ListedTask) :
    Option ListedTask :=
  match t.onFailure with
  | .fallback (some id) _ => group.find? fun u => u.id = id
  | .fallback none (some _) =>
    group.find? fun u => u.toTask.fallbackOf = some t.id
  | _ => none

/-- A fallback succeeded in its place, or one of the fallback; `seen` ends a
circle, so that a way has no more steps than the group has tasks. -/
def recoveredByFallback (group : List ListedTask) :
    Nat → List TaskId → ListedTask → Bool
  | 0, _, _ => false
  | fuel + 1, seen, t =>
    if !t.state.isFailed || seen.contains t.id then false
    else
      match fallbackIn group t with
      | some fb =>
        if fb.state = .succeeded then true
        else recoveredByFallback group fuel (seen ++ [t.id]) fb
      | none => false

def isRecovered (group : List ListedTask) (t : ListedTask) : Bool :=
  recoveredByFallback group (group.length + 1) [] t

/-- What a task refers to that comes after it. -/
def forwardRefs (t : Task) : List TaskId :=
  transitionTargets t ++ t.onFailure.fallbackTask.toList

/-- Nothing of the group comes after it. -/
def isEnd (group : List ListedTask) (fallbackTaskIds : List TaskId)
    (t : ListedTask) : Bool :=
  if fallbackTaskIds.contains t.id then false
  else
    let selectable (id : TaskId) : Bool :=
      group.any fun m => m.id = id && !isNotSelected m.toTask
    let flowsOn := (transitionTargets t.toTask).any selectable
    let awaited := group.any fun m =>
      m.id ≠ t.id && !isNotSelected m.toTask
        && (referencedTaskIds m.toTask).contains t.id
        && !(forwardRefs m.toTask).contains t.id
    !flowsOn && !awaited

/-- What must end before the task can run. -/
def awaitedIds (all : List ListedTask) (t : ListedTask) : List TaskId :=
  t.dependsOn ++ t.command.reduceInputs ++ bindingTaskIds t.toTask
    ++ (all.filter fun m =>
        m.id ≠ t.id && (forwardRefs m.toTask).contains t.id).map (·.id)
    ++ t.toTask.fallbackOf.toList

/-- One pass over the waiting tasks. -/
def blockPass (unknown : List TaskId)
    (waiting : List (TaskId × List TaskId)) (blocked : List TaskId) :
    List TaskId :=
  waiting.foldl (fun blocked (w : TaskId × List TaskId) =>
    if !blocked.contains w.1
        && w.2.any fun a => blocked.contains a || unknown.contains a
    then blocked ++ [w.1]
    else blocked) blocked

/-- Pass after pass, until one blocks nothing; each but the last blocks a
waiting task. -/
def blockPasses (unknown : List TaskId)
    (waiting : List (TaskId × List TaskId)) :
    Nat → List TaskId → List TaskId
  | 0, blocked => blocked
  | fuel + 1, blocked =>
    let after := blockPass unknown waiting blocked
    if after.length = blocked.length then after
    else blockPasses unknown waiting fuel after

/-- The waiting tasks that nothing will make ready. -/
def blockedTaskIds (order : HashOrder) (all : List ListedTask) :
    List TaskId :=
  let graph := TaskGraph.build order (all.map (·.toTask))
  let isUnavailable (t : ListedTask) : Bool :=
    match graph.readiness t.id with
    | some (.unavailable _) => true
    | _ => false
  let waiting := all.filter fun t => t.state = .waiting
  let unknown := all.filter fun t =>
    match t.state with
    | .unknown _ => true
    | _ => false
  blockPasses (unknown.map (·.id))
    (waiting.map fun t => (t.id, awaitedIds all t)) (waiting.length + 1)
    ((waiting.filter isUnavailable).map (·.id))

-- ==== the summaries

/-- It comes before the other one, or is no later. -/
def Listed (t u : ListedTask) : Prop :=
  t.createdAt < u.createdAt ∨ t.createdAt = u.createdAt ∧ t.id ≤ u.id

instance (t u : ListedTask) : Decidable (Listed t u) :=
  inferInstanceAs (Decidable (_ ∨ _))

/-- Fallbacks of members that name their main task. -/
def inlineFallbackIds (group : List ListedTask) : List TaskId :=
  (group.filter fun t =>
    t.toTask.fallbackOf.any (group.map (·.id)).contains).map (·.id)

def countStates (blocked : List TaskId) (sorted : List ListedTask) :
    DagStateCounts :=
  let counts := sorted.foldl (fun (c : DagStateCounts) t =>
    let c := c.add t
    { c with
      recovered := c.recovered + (isRecovered sorted t).toNat
      blocked := c.blocked + (blocked.contains t.id).toNat }) {}
  let fallbackTaskIds :=
    sorted.filterMap (fun t => t.onFailure.fallbackTask)
      ++ inlineFallbackIds sorted
  { counts with
    succeededEnds := ((sorted.filter (isEnd sorted fallbackTaskIds)).filter
      fun t => t.state = .succeeded || isRecovered sorted t).length }

/-- The time a task was last changed at, as far as it says. -/
def lastChange (latest : UInt64) (t : ListedTask) : UInt64 :=
  max (max (max latest (t.finishedAt.getD 0)) (t.startedAt.getD 0))
    t.createdAt

/-- The tasks that no member comes before. -/
def rootTasks (sorted : List ListedTask) : List ListedTask :=
  let flowsFromMember :=
    sorted.flatMap (fun t => forwardRefs t.toTask)
      ++ inlineFallbackIds sorted
  sorted.filter fun t =>
    !flowsFromMember.contains t.id
      && !(referencedTaskIds t.toTask).any fun id =>
        (sorted.map (·.id)).contains id && !(forwardRefs t.toTask).contains id

def hasCycle (order : HashOrder) (group : List ListedTask) : Bool :=
  match (TaskGraph.build order (group.map (·.toTask))).detectCycles with
  | .error (.dependencyCycle _) => true
  | _ => false

def summarize (order : HashOrder) (blocked : List TaskId)
    (workspaceId : UInt32) (id source : String)
    (explicitKey : Option String) (group : List ListedTask) : DagSummary :=
  let sorted := group.insertionSort Listed
  let earliest := sorted.foldl (fun first t => min first t.createdAt)
    (UInt64.ofNat (2 ^ 64 - 1))
  let counts := countStates blocked sorted
  { id, workspaceId, source
    name :=
      ((sorted.findSome? fun t => metadataText t.toTask "dag_name").or
        (explicitKey.or (sorted.head?.map (·.name)))).getD ""
    taskCount := sorted.length
    stateCounts := counts
    rollupState := counts.rollup
    createdAt := if earliest = UInt64.ofNat (2 ^ 64 - 1) then 0 else earliest
    updatedAt := sorted.foldl lastChange 0
    rootTaskIds := (rootTasks sorted).map (·.id)
    hasCycle := hasCycle order sorted
    taskIds := sorted.map (·.id) }

-- ==== the groups

/-- The iteration orders of the hash maps that a grouping builds: one for
each workspace, and one for each group. -/
structure DagOrders where
  blocked : UInt32 → HashOrder
  cycles : UInt32 → String → HashOrder

/-- The first of the least, `min_by_key`. -/
def firstListed : List ListedTask → Option ListedTask
  | [] => none
  | t :: rest =>
    match firstListed rest with
    | none => some t
    | some u => if Listed t u then some t else some u

/-- The tasks that name a graph, each with its name. -/
def explicitTasks (tasks : List ListedTask) : List (String × ListedTask) :=
  tasks.filterMap fun t => (explicitDagKey t.toTask).map fun key => (key, t)

def derivedPool (tasks : List ListedTask) : List ListedTask :=
  tasks.filter fun t => (explicitDagKey t.toTask).isNone

def explicitSummaries (orders : DagOrders) (blocked : List TaskId)
    (workspaceId : UInt32) (tasks : List ListedTask) : List DagSummary :=
  (grouped Prod.fst (explicitTasks tasks)).map fun entry =>
    let id := explicitIdPrefix ++ entry.1
    summarize (orders.cycles workspaceId id) blocked workspaceId id
      "explicit" (some entry.1) (entry.2.map Prod.snd)

def derivedSummary (orders : DagOrders) (blocked : List TaskId)
    (workspaceId : UInt32) (root : ListedTask) (group : List ListedTask) :
    DagSummary :=
  let id := derivedIdPrefix ++ root.id
  summarize (orders.cycles workspaceId id) blocked workspaceId id
    "derived" none group

/-- No component is empty, so each has a first task. -/
def derivedSummaries (orders : DagOrders) (blocked : List TaskId)
    (workspaceId : UInt32) (tasks : List ListedTask) : List DagSummary :=
  (weaklyConnectedComponents (derivedPool tasks)).filterMap fun group =>
    (firstListed group).map fun root =>
      derivedSummary orders blocked workspaceId root group

def groupWithinWorkspace (orders : DagOrders) (workspaceId : UInt32)
    (tasks : List ListedTask) : List DagSummary :=
  let blocked := blockedTaskIds (orders.blocked workspaceId) tasks
  (explicitSummaries orders blocked workspaceId tasks
      ++ derivedSummaries orders blocked workspaceId tasks).insertionSort
    fun a b => a.id ≤ b.id

def groupTasksIntoDags (orders : DagOrders) (tasks : List ListedTask) :
    List DagSummary :=
  (grouped (·.workspaceId) tasks).flatMap fun entry =>
    groupWithinWorkspace orders entry.1 entry.2

end Tasty.Agent
