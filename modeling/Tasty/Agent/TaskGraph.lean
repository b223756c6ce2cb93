/-
The dependencies of the tasks of a workspace
(`crates/tasty-agent/src/task/graph.rs`): which waiting task may go on,
which tasks follow another, cycles, and who refers to whom.

The tasks are looked up in a hash map, whose iteration order is not
specified: a graph is built with an order of its own.
-/
import Tasty.Agent.Route

namespace Tasty.Agent

open List

/-- Why a report does not complete its attempt. -/
inductive CompletionRejection where
  | staleAttempt
  | differentReport
  | alreadyTerminal
  deriving DecidableEq

inductive AgentError where
  | taskNotFound (id : TaskId)
  | dependencyCycle (ids : List TaskId)
  | unknownDependency (id : TaskId)
  | invalidTransition (before after : String)
  | alreadyTerminal (state : String)
  | invalidArgument (message : String)
  /-- `InvalidArgument` of a key, as it is displayed. -/
  | invalidKey (text : String)
  | taskReferenced (task : TaskId) (referencedBy : List TaskId)
  | taskRunning (id : TaskId)
  | typeContract (failure : TaskFailure)
  | completionRejected (taskId : TaskId) (attemptId : Option String)
      (currentAttemptId : Option String) (reason : CompletionRejection)
  | graphPartiallyActivated (graphId : String) (source : AgentError)
  /-- The memory store could not write. -/
  | memory

/-- The iteration order of a hash map. -/
structure HashOrder where
  iterate : List Task → List Task
  perm : ∀ tasks, (iterate tasks).Perm tasks

def HashOrder.asListed : HashOrder := ⟨id, fun _ => .refl _⟩

/-- The entries of a map that the tasks are put into one by one: the last
of each id. -/
def mapEntries : List Task → List Task
  | [] => []
  | t :: rest =>
    if rest.any fun u => u.id = t.id then mapEntries rest
    else t :: mapEntries rest

theorem mem_of_mem_mapEntries {tasks : List Task} {t : Task}
    (h : t ∈ mapEntries tasks) : t ∈ tasks := by
  induction tasks with
  | nil => exact h
  | cons u rest ih =>
    unfold mapEntries at h
    split at h
    · exact mem_cons_of_mem _ (ih h)
    · rcases mem_cons.1 h with rfl | h
      · exact mem_cons_self
      · exact mem_cons_of_mem _ (ih h)

theorem mapEntries_covers {tasks : List Task} {t : Task} (h : t ∈ tasks) :
    ∃ u ∈ mapEntries tasks, u.id = t.id := by
  induction tasks generalizing t with
  | nil => cases h
  | cons v rest ih =>
    unfold mapEntries
    rcases mem_cons.1 h with rfl | h
    · split
      · rename_i hany
        obtain ⟨u, hu, hid⟩ := any_eq_true.1 hany
        obtain ⟨w, hw, hwid⟩ := ih hu
        exact ⟨w, hw, hwid.trans (of_decide_eq_true hid)⟩
      · exact ⟨t, mem_cons_self, rfl⟩
    · obtain ⟨u, hu, hid⟩ := ih h
      split
      · exact ⟨u, hu, hid⟩
      · exact ⟨u, mem_cons_of_mem _ hu, hid⟩

structure TaskGraph where
  /-- The tasks as they were given. -/
  listed : List Task
  /-- The entries of the map, in its order. -/
  values : List Task
  /-- The tasks of graphs that are not active. -/
  inactive : List TaskId

inductive Readiness where
  | ready
  /-- What it needs did not succeed: its failure policy applies. -/
  | unavailable (reason : Option SkipReason)
  /-- No way to it is selected: no policy applies. -/
  | notSelected
  deriving DecidableEq

-- ==== the tallies

/-- The order and data edges seen so far. -/
structure PathTally where
  any : Bool
  allNotSelected : Bool
  failed : Option (TaskId × String)

namespace PathTally

def start : PathTally := ⟨false, true, none⟩

/-- The first failure counts. -/
def fail (tally : PathTally) (source : TaskId) (state : String) :
    PathTally :=
  { tally with failed := tally.failed.or (some (source, state)) }

/-- A strict edge; none while it is pending. -/
def see (tally : PathTally) : EdgeStatus → Option PathTally
  | .pending => none
  | .notSelected => some { tally with any := true }
  | .available =>
    some { tally with any := true, allNotSelected := false }
  | .unavailable source state =>
    some ({ tally with any := true, allNotSelected := false }.fail
      source state)

/-- An edge where ways meet: only its end is waited for. -/
def seeMerge (tally : PathTally) : EdgeStatus → Option PathTally
  | .pending => none
  | .notSelected => some { tally with any := true }
  | .available | .unavailable _ _ =>
    some { tally with any := true, allNotSelected := false }

def decide (tally : PathTally) (noControls : Bool) : Readiness :=
  if noControls && tally.any && tally.allNotSelected then .notSelected
  else
    match tally.failed with
    | some (source, state) =>
      .unavailable (some (.upstreamUnavailable source state))
    | none => .ready

end PathTally

/-- What the control edges seen so far say. -/
structure ControlTally where
  selected : Bool
  failed : Option (TaskId × String)

def ControlTally.see (tally : ControlTally) :
    EdgeStatus → Option ControlTally
  | .pending => none
  | .available => some { tally with selected := true }
  | .notSelected => some tally
  | .unavailable source state =>
    some { tally with failed := tally.failed.or (some (source, state)) }

/-- The verdict of the control edges, if they give one. -/
def ControlTally.decide (tally : ControlTally) : Option Readiness :=
  match tally.failed with
  | some (source, state) =>
    some (.unavailable (some (.upstreamUnavailable source state)))
  | none => if tally.selected then none else some .notSelected

/-- The control edges to `target`: none while one of them is pending. -/
def controlReadiness (sources : List Task) (target : TaskId) :
    Option (Option Readiness) :=
  (sources.foldlM (fun (tally : ControlTally) s =>
    tally.see (controlStatus s target)) ⟨false, none⟩).map
      ControlTally.decide

-- ==== readiness

namespace TaskGraph

def build (order : HashOrder) (tasks : List Task) : TaskGraph :=
  { listed := tasks, values := order.iterate (mapEntries tasks)
    inactive := [] }

def withInactive (g : TaskGraph) (inactive : List TaskId) : TaskGraph :=
  { g with inactive }

def get (g : TaskGraph) (id : TaskId) : Option Task :=
  g.values.find? fun t => t.id = id

/-- The tasks that can select `id`. -/
def controls (g : TaskGraph) (id : TaskId) : List Task :=
  g.listed.filter fun t => (transitionTargets t).contains id

/-- It is kept for a main task that has not failed. -/
def dormantAsPendingFallback (g : TaskGraph) (id : TaskId) : Bool :=
  (g.get id).any Task.reservedForFallback ||
    g.values.any fun main =>
      main.onFailure.fallbackTask = some id && !main.state.isFailed

/-- The v2 fallback of a main task that ended without failing. -/
def fallbackNotNeeded (g : TaskGraph) (task : Task) : Option Readiness :=
  match g.values.find? fun m =>
      m.onFailure.fallbackTask = some task.id with
  | none => none
  | some main =>
    if !main.state.isTerminal || main.state.isFailed then none
    else
      match pathStatus main with
      | .available | .notSelected => some .notSelected
      | _ => some (.unavailable
          (some (.upstreamUnavailable main.id main.state.name)))

/-- The state of the fallback of a main task. -/
def fallbackState (g : TaskGraph) (main : Task) : Option TaskState :=
  match main.onFailure with
  | .fallback (some id) _ => (g.get id).map Task.state
  | .fallback none (some _) =>
    (g.values.find? fun t => t.fallbackOf = some main.id).map Task.state
  | _ => none

/-- Whether the fallback stands in for a failed main task; none while that
is open. -/
def fallbackCovers (g : TaskGraph) (main : Task) : Option Bool :=
  if !main.onFailure.isFallback then some false
  else
    match g.fallbackState main with
    | some .succeeded => some true
    | some s => if s.isTerminal then some false else none
    | none => if main.state.isFailed then none else some false

-- ----------------------------------------------------------------- v1 tasks

/-- The data inputs of a binding: whether they failed, none while they are
open. -/
def bindingFailed (g : TaskGraph) (c : TaskContract) (failed : Bool) :
    String × InputBinding → Option Bool
  | (_, .literal _) => some failed
  | (_, .fromTask source _) => do
      let t ← g.get source.fromTask
      if t.state = .succeeded then some failed
      else if t.state.isTerminal then some true
      else none
  | (field, .oneOf sources _) => do
      let states ← sources.mapM fun s => do
        let t ← g.get s.fromTask
        if t.state.isTerminal then some t.state else none
      if !states.contains .succeeded && !fieldMayBeAbsent c field then
        some true
      else some failed

def dataInputsFailed (g : TaskGraph) (task : Task) : Option Bool :=
  match task.contract with
  | none => some false
  | some c => (Entries.iter c.bindings).foldlM (g.bindingFailed c) false

/-- One dependency of a v1 task, whether it failed. -/
def dependencyFailed (g : TaskGraph) (failed : Bool) (id : TaskId) :
    Option Bool := do
  let dep ← g.get id
  match dep.state with
  | .succeeded => some failed
  | .failed _ | .cancelled | .skipped =>
    -- the fallback of a failed main task counts in its place
    if dep.onFailure.isFallback then
      match g.fallbackState dep with
      | some .succeeded => some failed
      | some (.failed _) | some .cancelled | some .skipped => some true
      | _ => none
    else some true
  | .waiting | .ready | .running | .unknown _ => none

/-- A reduce waits for all its inputs to end. -/
def reduceInputsEnded (g : TaskGraph) (task : Task) : Option Unit :=
  task.command.reduceInputs.forM fun id => do
    let input ← g.get id
    if input.state.isTerminal then some () else none

def v1Readiness (g : TaskGraph) (task : Task) : Option TaskState := do
  let dataFailed ← g.dataInputsFailed task
  g.reduceInputsEnded task
  let failed ← task.dependsOn.foldlM g.dependencyFailed dataFailed
  some (if failed then .skipped else .ready)

-- ----------------------------------------------------------------- v2 tasks

def tallyDependency (g : TaskGraph) (tally : PathTally) (id : TaskId) :
    Option PathTally := do
  let dep ← g.get id
  match pathStatus dep with
  | .unavailable source state =>
    match g.fallbackCovers dep with
    | none => none
    | some true => tally.see .available
    | some false => tally.see (.unavailable source state)
  | status => tally.see status

/-- One source of a `one_of`, and whether one succeeded. -/
def tallySource (g : TaskGraph) :
    Bool × PathTally → BindingSource → Option (Bool × PathTally)
  | (succeeded, tally), s => do
      let t ← g.get s.fromTask
      let status := pathStatus t
      let tally ← tally.seeMerge status
      some (succeeded || status = .available, tally)

def tallyBinding (g : TaskGraph) (c : TaskContract) (tally : PathTally) :
    String × InputBinding → Option PathTally
  | (_, .literal _) => some tally
  | (field, .fromTask source _) => do
      let s ← g.get source.fromTask
      match pathStatus s with
      | .notSelected =>
        -- there is no value: only a field that may go without goes on
        let tally ← tally.see .notSelected
        some (if fieldMayBeAbsent c field then tally
          else tally.fail s.id "not_selected")
      | status => tally.see status
  | (field, .oneOf sources _) => do
      let (succeeded, tally) ← sources.foldlM g.tallySource (false, tally)
      if !succeeded && !fieldMayBeAbsent c field then
        let first := (sources.head?.map BindingSource.fromTask).getD ""
        some (tally.fail first "no one_of source succeeded")
      else some tally

def tallyReduceInput (g : TaskGraph) (tally : PathTally) (id : TaskId) :
    Option PathTally := do
  let t ← g.get id
  tally.seeMerge (pathStatus t)

/-- What all the order and data edges say. -/
def pathReadiness (g : TaskGraph) (task : Task) (noControls : Bool) :
    Option Readiness := do
  let c ← task.contract
  let tally ← task.dependsOn.foldlM g.tallyDependency .start
  let tally ← (Entries.iter c.bindings).foldlM (g.tallyBinding c) tally
  let tally ← task.command.reduceInputs.foldlM g.tallyReduceInput tally
  some (tally.decide noControls)

/-- The control edges come first: one of them must have selected it. -/
def typedReadiness (g : TaskGraph) (task : Task) : Option Readiness :=
  if (g.controls task.id).isEmpty then g.pathReadiness task true
  else
    match controlReadiness (g.controls task.id) task.id with
    | none => none
    | some (some decided) => some decided
    | some none => g.pathReadiness task false

/-- The verdict once no fallback stands in the way. -/
def plainReadiness (g : TaskGraph) (task : Task) : Option Readiness :=
  if g.dormantAsPendingFallback task.id then none
  else if task.isTyped then g.typedReadiness task
  else
    match g.v1Readiness task with
    | none => none
    | some .ready => some .ready
    | some _ => some (.unavailable none)

/-- The verdict on a waiting task; none while it has to wait. -/
def readiness (g : TaskGraph) (id : TaskId) : Option Readiness :=
  match g.get id with
  | none => none
  | some task =>
    if g.inactive.contains id then none
    else if task.isTyped then
      match g.fallbackNotNeeded task with
      | some r => some r
      | none => g.plainReadiness task
    else g.plainReadiness task

def evaluateReadiness (g : TaskGraph) (id : TaskId) : Option TaskState :=
  (g.readiness id).map fun
    | .ready => .ready
    | .unavailable _ | .notSelected => .skipped

-- ==== cycles

/-- The edges out of a task, and whether what they lead to must exist. -/
def cycleEdges (g : TaskGraph) (task : Task) : List (TaskId × Bool) :=
  task.dependsOn.map (·, true) ++
    (task.command.reduceInputs ++ bindingTaskIds task ++
      (g.controls task.id).map Task.id).map (·, false)

/-- Depth first from `node`; `stack` is the way to it and `done` what has
been left. A way has no more steps than there are tasks. -/
def dfsCycle (g : TaskGraph) : Nat → List TaskId → List TaskId → TaskId →
    Except AgentError (List TaskId)
  | 0, _, done, _ => .ok done
  | fuel + 1, stack, done, node => do
      let stack := stack ++ [node]
      match g.get node with
      | none => .ok (done ++ [node])
      | some task => do
          let visit (done : List TaskId) (edge : TaskId × Bool) :
              Except AgentError (List TaskId) :=
            let (dep, required) := edge
            if (g.get dep).isNone then
              if required then .error (.unknownDependency dep)
              else .ok done
            else if done.contains dep then .ok done
            else if stack.contains dep then
              .error (.dependencyCycle (stack.dropWhile (· ≠ dep)))
            else g.dfsCycle fuel stack done dep
          let done ← (g.cycleEdges task).foldlM visit done
          .ok (done ++ [node])

def detectCycles (g : TaskGraph) : Except AgentError Unit := do
  let _ ← g.values.foldlM (fun done t =>
    if done.contains t.id then .ok done
    else g.dfsCycle (g.values.length + 1) [] done t.id) []
  .ok ()

-- ==== downstream

/-- It directly follows `id`. -/
def follows (g : TaskGraph) (id : TaskId) (t : Task) : Bool :=
  t.dependsOn.contains id || t.command.reduceInputs.contains id
    || (bindingTaskIds t).contains id
    || ((g.controls t.id).any fun s => s.id = id)
    -- a v2 fallback is judged when its main task ends without failing
    || (t.isTyped && (g.get id).any fun m =>
      m.onFailure.fallbackTask = some t.id)

def downstreamOf (g : TaskGraph) (id : TaskId) : List TaskId :=
  (g.values.filter (g.follows id)).map Task.id

/-- The worklist: the last id queued comes first. -/
def downstreamFrom (g : TaskGraph) : Nat → List TaskId → List TaskId →
    List TaskId
  | 0, _, out => out
  | _, [], out => out
  | fuel + 1, cur :: queue, out =>
    if out.contains cur then g.downstreamFrom fuel queue out
    else
      g.downstreamFrom fuel ((g.downstreamOf cur).reverse ++ queue)
        (out ++ [cur])

/-- All that follows `id`; each task queues at most all the tasks. -/
def transitiveDownstream (g : TaskGraph) (id : TaskId) : List TaskId :=
  let n := g.values.length
  g.downstreamFrom (n * (n + 1) + 1) (g.downstreamOf id).reverse []

end TaskGraph

-- ==== references

/-- All ids that a task refers to. -/
def referencedTaskIds (task : Task) : List TaskId :=
  task.dependsOn ++ task.onFailure.fallbackTask.toList
    ++ task.command.reduceInputs ++ bindingTaskIds task
    ++ transitionTargets task

def referencingTaskIds (tasks : List Task) (id : TaskId) : List TaskId :=
  (tasks.filter fun t => (referencedTaskIds t).contains id).map Task.id

def referencingFrom (tasks : List Task) : Nat → List TaskId →
    List TaskId → List TaskId
  | 0, _, out => out
  | _, [], out => out
  | fuel + 1, cur :: queue, out =>
    if out.contains cur then referencingFrom tasks fuel queue out
    else
      referencingFrom tasks fuel
        ((referencingTaskIds tasks cur).reverse ++ queue) (out ++ [cur])

/-- All tasks that refer to `id`, also through others. -/
def transitiveReferencingTaskIds (tasks : List Task) (id : TaskId) :
    List TaskId :=
  let n := tasks.length
  referencingFrom tasks (n * (n + 1) + 1)
    (referencingTaskIds tasks id).reverse []

end Tasty.Agent
