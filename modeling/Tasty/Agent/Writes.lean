/-
What the operations of the task store write: each write of each operation
is of one of a few kinds, which is said once here. What holds over the
runs of the store follows from the kinds. A graph that `plan_graph` lets
pass is written by the plan: its tasks are new, wait, and have passed the
checks together.
-/
import Tasty.Agent.Operations

namespace Tasty.Agent

open List

-- ==== graphs that are planned

variable {t : Task} {s : Store}

section Plans

variable [TaskHost]

/-- What a plan has passed, against the tasks that existed. -/
structure GraphPlan.Passed (plan : GraphPlan) (existing : List Task)
    (spec : TaskGraphSpec) (now : UInt64) : Prop where
  named : ∃ n, plan.graphId = graphIdOf now n
  tasks : planTasks spec plan.graphId existing now [] spec.tasks
    = .ok plan.tasks
  checked : ∀ (t : Task) (i : Nat), (t, i) ∈ plan.tasks.zipIdx →
    checkPlanned existing plan.tasks t s!"/tasks/{i}" = .ok ()
  routes : checkRouteInputs plan.tasks (existing ++ plan.tasks) = .ok ()

/-- A plan that passed against the tasks of the store; some of its own may
be there by now. -/
def GraphPlan.IsOn (plan : GraphPlan) (s : Store) : Prop :=
  ∃ (existing : List Task) (spec : TaskGraphSpec) (now : UInt64),
    plan.Passed existing spec now
      ∧ (∀ u ∈ s.list, u ∈ existing ∨ u ∈ plan.tasks)
      ∧ ∀ u ∈ existing, u ∈ s.list

omit [TaskHost] in
theorem mapError_eq_ok {ε δ α : Type} {f : ε → δ} {x : Except ε α}
    {a : α} (h : x.mapError f = .ok a) : x = .ok a := by
  cases x with
  | ok b => cases h; rfl
  | error e => cases h

theorem runs_planGraph {R : Store → Store → Prop} (spec : TaskGraphSpec)
    (now : UInt64) (d : TaskDisk) :
    Runs R (planGraph spec now) d fun plan d' =>
      d'.store = d.store ∧ plan.Passed d.store.list spec now := by
  unfold planGraph
  refine Runs.lift_bind fun _ _ => ?_
  refine runs_listTasks_bind ?_
  refine (runs_freshName (Q := fun id d₂ => d₂.store = d.store ∧
    ∃ n, id = graphIdOf now n) fun n _ _ hd => ⟨hd, n, rfl⟩).bind ?_
  rintro graphId d₂ - ⟨hd₂, hnamed⟩
  refine Runs.lift_bind fun planned htasks => ?_
  refine Runs.lift_bind fun _ hchecked => ?_
  have hchecked := fun t i hti => forM_eq_ok.1 hchecked (t, i) hti
  refine Runs.lift_bind fun _ hroutes => ?_
  have hroutes := mapError_eq_ok hroutes
  refine runs_buildGraph_bind fun order d₆ hd₆ => Runs.lift_bind fun _ _ => ?_
  exact .pure ⟨hd₆.trans hd₂, ⟨hnamed, htasks, hchecked, hroutes⟩⟩

theorem GraphPlan.IsPlanned.passed {plan : GraphPlan} (h : plan.IsPlanned) :
    ∃ (existing : List Task) (spec : TaskGraphSpec) (now : UInt64),
      plan.Passed existing spec now := by
  obtain ⟨spec, now, d, hd⟩ := h
  have hruns := runs_planGraph (R := fun _ _ => True) spec now d
  exact ⟨_, spec, now, (hruns.2 plan hd).2⟩

-- ==== its tasks

/-- A task as it is planned, with an id that was not taken and makes a
key. -/
def IsNewIn (spec : TaskGraphSpec) (graphId : String) (now : UInt64)
    (existing : List Task) (t : Task) : Prop :=
  (∃ (gt : GraphTaskSpec) (metadata : Value),
    t = plannedTask spec gt graphId metadata now)
    ∧ (∀ u ∈ existing, u.id ≠ t.id) ∧ typedTaskKey t.id = .ok ()

theorem checkGraphId_ok {existing planned : List Task} {id : TaskId}
    {place : String} (h : checkGraphId existing planned id place = .ok ()) :
    (∀ u ∈ existing, u.id ≠ id) ∧ (∀ u ∈ planned, u.id ≠ id)
      ∧ typedTaskKey id = .ok () := by
  unfold checkGraphId at h
  obtain ⟨_, hkeys, h⟩ := bind_ok h
  obtain ⟨_, hkey, -⟩ := bind_ok (mapError_eq_ok hkeys)
  obtain ⟨hexisting, h⟩ := guard_ok h
  obtain ⟨hplanned, -⟩ := guard_ok h
  simp only [any_eq_true, decide_eq_true_eq, not_exists, not_and]
    at hexisting hplanned
  exact ⟨hexisting, hplanned, hkey⟩

theorem planTasks_spec {spec : TaskGraphSpec} {graphId : String}
    {existing planned tasks : List Task} {now : UInt64}
    {rest : List GraphTaskSpec}
    (h : planTasks spec graphId existing now planned rest = .ok tasks)
    (hplanned : ∀ t ∈ planned, IsNewIn spec graphId now existing t)
    (hnodup : (planned.map Task.id).Nodup) :
    (∀ t ∈ tasks, IsNewIn spec graphId now existing t)
      ∧ (tasks.map Task.id).Nodup := by
  induction rest generalizing planned with
  | nil =>
    cases h
    exact ⟨hplanned, hnodup⟩
  | cons gt rest ih =>
    obtain ⟨_, hid, h⟩ := bind_ok h
    obtain ⟨metadata, -, h⟩ := bind_ok h
    obtain ⟨hexisting, hother, hkey⟩ := checkGraphId_ok hid
    refine ih h (fun t ht => ?_) ?_
    · rcases mem_append.1 ht with ht | ht
      · exact hplanned t ht
      · obtain rfl := mem_singleton.1 ht
        exact ⟨⟨gt, metadata, rfl⟩, hexisting, hkey⟩
    · rw [map_append, nodup_append]
      refine ⟨hnodup, pairwise_singleton _ _, ?_⟩
      intro id hid' id' hid'' heq
      obtain ⟨u, hu, rfl⟩ := mem_map.1 hid'
      rw [map_singleton, mem_singleton] at hid''
      exact hother u hu (heq.trans hid'')

namespace GraphPlan.Passed

variable {plan : GraphPlan} {existing : List Task} {spec : TaskGraphSpec}
  {now : UInt64}

theorem isNew (h : plan.Passed existing spec now) :
    ∀ t ∈ plan.tasks, IsNewIn spec plan.graphId now existing t :=
  (planTasks_spec h.tasks (by simp) nodup_nil).1

theorem nodup (h : plan.Passed existing spec now) :
    (plan.tasks.map Task.id).Nodup :=
  (planTasks_spec h.tasks (by simp) nodup_nil).2

theorem checkPlanned_ok (h : plan.Passed existing spec now)
    (ht : t ∈ plan.tasks) :
    ∃ i : Nat, checkPlanned existing plan.tasks t s!"/tasks/{i}" = .ok () := by
  obtain ⟨i, hi, rfl⟩ := mem_iff_getElem.1 ht
  refine ⟨i, h.checked _ i ?_⟩
  rw [mk_mem_zipIdx_iff_getElem?]
  exact getElem?_eq_getElem hi

theorem isOn (h : plan.Passed s.list spec now) : plan.IsOn s :=
  ⟨s.list, spec, now, h, fun _ hu => .inl hu, fun _ hu => hu⟩

end GraphPlan.Passed

theorem GraphPlan.IsOn.put {plan : GraphPlan}
    (h : plan.IsOn s) (ht : t ∈ plan.tasks)
    (hfree : ∀ u ∈ s.list, u.id ≠ t.id) : plan.IsOn (s.put t) := by
  obtain ⟨existing, spec, now, hpassed, hcovers, hkept⟩ := h
  refine ⟨existing, spec, now, hpassed, fun u hu => ?_, fun u hu => ?_⟩
  · rcases Store.mem_list_put.1 hu with rfl | ⟨hu, -⟩
    · exact .inr ht
    · exact hcovers u hu
  · exact Store.mem_list_put.2 (.inr ⟨hkept u hu, fun hslot =>
      hfree u (hkept u hu) (congrArg Prod.snd hslot)⟩)

end Plans

-- ==== graphs of a store

/-- The task belongs to a graph that has no activation record. -/
def Store.isInactive (s : Store) (t : Task) : Bool :=
  t.graphId.any fun g => !s.isActive g

/-- It is a readiness graph of the store, whatever its order. -/
structure TaskGraph.IsOf (g : TaskGraph) (s : Store) : Prop where
  listed : ∀ t, t ∈ g.listed ↔ t ∈ s.list
  values : ∀ t ∈ g.values, t ∈ s.list
  covers : ∀ t ∈ s.list, ∃ u ∈ g.values, u.id = t.id
  inactive : ∀ id, id ∈ g.inactive ↔
    ∃ t ∈ s.list, t.id = id ∧ s.isInactive t = true

namespace TaskGraph.IsOf

variable {g : TaskGraph} {s : Store} {id : TaskId} {t : Task}

/-- An inactive task is not judged. -/
theorem readiness_eq_none (h : g.IsOf s) (ht : t ∈ s.list)
    (hinactive : s.isInactive t = true) : g.readiness t.id = none := by
  have hmem : g.inactive.contains t.id = true :=
    contains_iff_mem.2 ((h.inactive _).2 ⟨t, ht, rfl, hinactive⟩)
  unfold TaskGraph.readiness
  cases g.get t.id with
  | none => rfl
  | some u =>
    dsimp only
    rw [if_pos hmem]

end TaskGraph.IsOf

theorem isOf_build {all : List Task} {inactive : List TaskId}
    (order : HashOrder) (hall : ∀ t, t ∈ all ↔ t ∈ s.list)
    (hin : ∀ id, id ∈ inactive ↔
      ∃ t ∈ s.list, t.id = id ∧ s.isInactive t = true) :
    ((TaskGraph.build order all).withInactive inactive).IsOf s where
  listed := hall
  values := fun t ht =>
    (hall t).1 (mem_of_mem_mapEntries
      ((order.perm (mapEntries all)).mem_iff.1 ht))
  covers := by
    intro t ht
    obtain ⟨u, hu, hid⟩ := mapEntries_covers ((hall t).2 ht)
    exact ⟨u, (order.perm (mapEntries all)).mem_iff.2 hu, hid⟩
  inactive := hin

section Kinds

variable [TaskHost]

theorem inactiveMark_eq_ok {o : Option TaskId}
    (h : inactiveMark s t = .ok o) (id : TaskId) :
    o = some id ↔ t.id = id ∧ s.isInactive t = true := by
  unfold inactiveMark at h
  unfold Store.isInactive
  cases hg : t.graphId with
  | none =>
    rw [hg] at h
    cases h
    simp
  | some g =>
    rw [hg] at h
    have h := then_ok h
    cases h
    by_cases hactive : s.isActive g = true <;> simp [hactive]

theorem mem_inactiveTaskIds {tasks : List Task}
    {ids : List TaskId} (h : inactiveTaskIds s tasks = .ok ids) (id : TaskId) :
    id ∈ ids ↔ ∃ t ∈ tasks, t.id = id ∧ s.isInactive t = true := by
  unfold inactiveTaskIds at h
  obtain ⟨marked, hmarked, h⟩ := bind_ok h
  cases h
  rw [mapM_eq_ok] at hmarked
  rw [mem_filterMap]
  constructor
  · rintro ⟨o, ho, rfl⟩
    obtain ⟨t, ht, hto⟩ := forall₂_right hmarked ho
    exact ⟨t, ht, (inactiveMark_eq_ok hto id).1 rfl⟩
  · rintro ⟨t, ht, hid⟩
    obtain ⟨o, ho, hto⟩ := forall₂_left hmarked ht
    exact ⟨o, ho, (inactiveMark_eq_ok hto id).2 hid⟩

-- ==== the kinds

/-- The states that start a task. -/
def isStart : TaskState → Bool
  | .ready | .running => true
  | _ => false

/-- How the store is used: which tasks are started, or given a result, by
hand, which may be retried, whether graphs are submitted and tasks deleted,
and whether graphs are submitted as a whole. -/
structure Usage where
  force : Store → Task → TaskState → Prop
  record : Store → Task → Prop
  reset : TaskId → Prop
  graphs : Prop
  whole : Prop

/-- How a postprocess goes on: the main work has succeeded, a run has failed
and another one follows, or a run is started. -/
inductive Progresses (spec : PostprocessSpec) :
    Option PostprocessProgress → PostprocessProgress → Prop
  | main (execution : TaskResult) (mainDigest : String) (now : UInt64) :
      Progresses spec none
        { execution, mainDigest, phase := .pending 1 now, failedRuns := [] }
  | retried {p : PostprocessProgress} {run : UInt32}
      (report : PostprocessReport) (now : UInt64) :
      p.phase.current = some report.run → nextRun spec report = some run →
      Progresses spec (some p) (p.retried spec report run now)
  | started {p : PostprocessProgress} {run : UInt32} {notBefore : UInt64}
      (now : UInt64) : p.phase = .pending run notBefore →
      Progresses spec (some p) { p with phase := .started run now }

/-- What a report makes of a task before it ends. -/
inductive Reported : Task → Task → Prop
  | main {t : Task} (result : TaskResult) : Reported t (recordResult t result)
  | postprocess {t : Task} {contract : TaskContract} {spec : PostprocessSpec}
      {p : PostprocessProgress} {report : PostprocessReport}
      (mainCopyDropped : Bool) : t.contract = some contract →
      contract.postprocess = some spec →
      t.attempt.bind TaskAttempt.postprocess = some p →
      p.phase.current = some report.run →
      Reported t (t.postprocessed contract spec p report mainCopyDropped)

/-- What a write makes of the record of a task. -/
inductive Change (U : Usage) (s : Store) : Task → Task → Prop
  /-- A waiting task is judged. -/
  | settle {t : Task} {g : TaskGraph} {next : TaskState}
      {skip : Option SkipReason} (now : UInt64) : g.IsOf s →
      t.state = .waiting → settleTarget g t = some (next, skip) →
      Change U s t (t.settledTo next skip now)
  /-- The fallback of a task that failed goes on. -/
  | advance {t : Task} {g : TaskGraph} {target : TaskState} : g.IsOf s →
      g.evaluateReadiness t.id = some target → target ≠ .waiting →
      isValidTransition t.state target = true →
      Change U s t { t with state := target }
  /-- Its state is set. -/
  | moved {t : Task} {requested : TaskState} (now : UInt64) :
      isValidTransition t.state requested = true →
      (isStart requested = true → U.force s t requested) →
      Change U s t (t.moved s requested now)
  /-- Its definition is too large to be started. -/
  | refuse {t : Task} (now : UInt64) : t.state = .ready →
      Change U s t
        { t with state := .failed refusedToStart, finishedAt := some now }
  /-- It is given a result. -/
  | record {t : Task} (result : TaskResult) :
      (t.isTyped = true → U.record s t) →
      Change U s t (recordResult t result)
  /-- Its attempt ends with a report. -/
  | complete {t u : Task} {requested : TaskState} (digest : String)
      (now : UInt64) : t.isTyped = true → t.state = .running →
      Reported t u → requested.isTerminal = true →
      requested ≠ .cancelled → requested ≠ .skipped →
      Change U s t (u.completed s requested digest now)
  /-- The result of its attempt cannot be had. -/
  | lost {t : Task} (reason : Option String) : t.state = .running →
      Change U s t (t.lost (.unknown reason))
  /-- Its postprocess goes on. -/
  | progress {t : Task} {contract : TaskContract} {spec : PostprocessSpec}
      (p : PostprocessProgress) : t.state = .running →
      t.contract = some contract → contract.postprocess = some spec →
      Progresses spec (t.attempt.bind TaskAttempt.postprocess) p →
      Change U s t (t.withProgress p)
  /-- Something is noted on it. -/
  | note {t : Task} (snapshot : Option InputSnapshot)
      (accepted : Option CappedJson) :
      Change U s t
        { t with inputSnapshot := snapshot, accepted := accepted }
  /-- It is to run again. -/
  | reset {t : Task} : isRetryable t.state = true → U.reset t.id →
      Change U s t t.reset
  /-- A fallback waits for its main task, which is there now. -/
  | release {t : Task} :
      Change U s t
        { t with
          reservedForFallback := false
          state := if t.state = .ready then .waiting else t.state }
  /-- A fallback waits for its main task, which is to come. -/
  | reserve {t : Task} : t.graphId = none → t.isTyped = false →
      Change U s t { t with state := .waiting, reservedForFallback := true }

/-- A task that is created: its id was issued and is new, what it refers to
exists, and it passed its check. -/
structure IsCreated (s : Store) (opts : TaskCreateOpts)
    (contract : Option TaskContract) (id : TaskId) : Prop where
  issued : ∃ n, id = taskIdOf opts.now n
  isNew : ∀ u ∈ s.list, u.id ≠ id
  references : checkReferences s.list opts = .ok ()
  checked : checkCreated s.list (newTask opts contract id) = .ok ()

/-- One write of an operation. -/
inductive Write (U : Usage) : Store → Store → Prop
  | change {s : Store} {t u : Task} : t ∈ s.list → Change U s t u →
      Write U s (s.put u)
  /-- A task is created, under a new id, and judged with the others. -/
  | create {s : Store} {g : TaskGraph} {id : TaskId} (opts : TaskCreateOpts)
      (contract : Option TaskContract) : IsCreated s opts contract id →
      g.IsOf (s.put (newTask opts contract id)) →
      Write U s (s.put (judgedNew g (newTask opts contract id)))
  /-- A task of a graph is stored. -/
  | stage {s : Store} {plan : GraphPlan} {t : Task} : U.graphs →
      plan.IsPlanned → t ∈ plan.tasks →
      (U.whole → plan.IsOn s ∧ ∀ u ∈ s.list, u.id ≠ t.id) →
      Write U s (s.put t)
  /-- A graph becomes active. -/
  | activate {s : Store} (graphId : String) (r : GraphRecord) :
      U.graphs → Write U s (s.activate graphId r)
  | erase {s : Store} (k : Slot) : U.graphs → Write U s (s.erase k)
  /-- The record of a graph without tasks goes. -/
  | deactivate {s : Store} {graphId : String} : U.graphs →
      (∀ t ∈ s.list, t.graphId ≠ some graphId) →
      Write U s (s.deactivate graphId)

/-- A program that only writes so. -/
def Writes {α : Type} (U : Usage) (x : TaskProg α) (d : TaskDisk) : Prop :=
  Runs (Write U) x d fun _ _ => True

/-- The operations of a usage. -/
def StoreOp.Within (U : Usage) (s : Store) : StoreOp → Prop
  | .setState id requested _ => isStart requested = true →
      ∀ t, s.find id = some t → U.force s t requested
  | .setResult id _ =>
    ∀ t, s.find id = some t → t.isTyped = true → U.record s t
  | .retry id resetDownstream _ =>
    U.reset id ∧ (resetDownstream = true → ∀ follower, U.reset follower)
  | .submit _ _ | .delete _ _ | .sweep _ => U.graphs
  | .stage _ | .activate _ _ => U.graphs ∧ ¬ U.whole
  | _ => True

-- ==== which writes they make

variable {U : Usage} {d : TaskDisk}

namespace Writes

variable {α β : Type} {x : TaskProg α}

theorem of_runs {Q : α → TaskDisk → Prop} (h : Runs (Write U) x d Q) :
    Writes U x d :=
  h.weaken fun _ _ _ => trivial

theorem pure (a : α) : Writes U (Pure.pure a : TaskProg α) d :=
  Runs.pure trivial

theorem throw {e : AgentError} : Writes U (throw e : TaskProg α) d :=
  Runs.throw

theorem bind {f : α → TaskProg β} (hx : Writes U x d)
    (hf : ∀ a d', Evolves (Write U) d d' → Writes U (f a) d') :
    Writes U (x >>= f) d :=
  Runs.bind hx fun a d' hd _ => hf a d' hd

/-- What a program answers with has no writes of its own. -/
theorem then_pure {f : α → β} (hx : Writes U x d) :
    Writes U (x >>= fun a => Pure.pure (f a)) d :=
  hx.bind fun _ _ _ => .pure _

theorem lift {y : Except AgentError α} :
    Writes U (Prog.lift y : TaskProg α) d :=
  Runs.lift fun _ _ => trivial

theorem put {u : Task} (ht : t ∈ d.store.list)
    (h : Change U d.store t u) : Writes U (putTask u) d :=
  runs_putTask (.change ht h) fun _ _ => trivial

theorem forM {γ : Type} {f : γ → TaskProg PUnit} {l : List γ}
    (hf : ∀ c ∈ l, ∀ d, Writes U (f c) d) : Writes U (l.forM f) d :=
  Runs.forM (I := fun _ => True) (fun c hc d _ => hf c hc d) trivial

end Writes

end Kinds

end Tasty.Agent
