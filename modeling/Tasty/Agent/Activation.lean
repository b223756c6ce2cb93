/-
The activation of graphs: as long as the record of a graph is not written
none of its tasks is ready or runs, whatever write a submission stops at
and whatever is done to the store; and when it is written the tasks of the
graph are judged, by the activation itself or after a restart.
-/
import Tasty.Agent.Changes

namespace Tasty.Agent

/-- Tasks of graphs without a record have not been started, and none is
about to be. -/
def Store.HoldsBack (s : Store) : Prop :=
  ∀ t ∈ s.list, s.isInactive t = true →
    t.state ≠ .ready ∧ t.state ≠ .running

/-- The states of a task that was never started. -/
def isDormant : TaskState → Bool
  | .waiting | .cancelled | .skipped => true
  | _ => false

/-- What keeps tasks back: they wait, or have ended without a run. -/
def Store.Dormant (s : Store) : Prop :=
  ∀ t ∈ s.list, s.isInactive t = true → isDormant t.state = true

theorem Store.Dormant.holdsBack {s : Store} (h : s.Dormant) : s.HoldsBack := by
  intro t ht hinactive
  have hdormant := h t ht hinactive
  constructor <;>
    · intro hstate
      rw [hstate] at hdormant
      cases hdormant

/-- No waiting task of a graph without a record is set ready by hand. -/
def ForcesNoInactive (s : Store) : StoreOp → Prop
  | .setState id .ready _ => ∀ t, s.find id = some t →
      ¬ (s.isInactive t = true ∧ t.state = .waiting)
  | _ => True

/-- The usage of the store in which that is so. -/
def holdingBack : Usage where
  force s t requested := requested = .ready →
    ¬ (s.isInactive t = true ∧ t.state = .waiting)
  record _ _ := True
  reset _ := True
  graphs := True
  whole := False

theorem within_holdingBack {s : Store} {o : StoreOp}
    (h : ForcesNoInactive s o) : o.Within holdingBack s := by
  cases o with
  | setState id requested now =>
    rintro - t ht rfl
    exact h t ht
  | setResult id result => exact fun _ _ _ => trivial
  | retry id resetDownstream now => exact ⟨trivial, fun _ _ => trivial⟩
  | stage plan => exact ⟨trivial, id⟩
  | activate plan now => exact ⟨trivial, id⟩
  | _ => trivial

/-- A dormant task can only end, unless it is forced. -/
theorem dormant_transition {before after : TaskState}
    (h : isDormant before = true)
    (hvalid : isValidTransition before after = true) :
    before = .waiting ∧ after = .ready
      ∨ isDormant after = true ∧ after ≠ .succeeded := by
  cases before <;> cases after <;>
    simp_all [isDormant, isValidTransition]

section Steps

variable [TaskHost] {s s' : Store} {t u : Task}

theorem Change.dormant (h : Change holdingBack s t u) (ht : t ∈ s.list)
    (hinactive : s.isInactive t = true)
    (hdormant : isDormant t.state = true) : isDormant u.state = true := by
  cases h with
  | settle now hg _ htarget =>
    unfold settleTarget at htarget
    rw [hg.readiness_eq_none ht hinactive] at htarget
    cases htarget
  | advance hg heval _ _ =>
    unfold TaskGraph.evaluateReadiness at heval
    rw [hg.readiness_eq_none ht hinactive] at heval
    cases heval
  | @moved requested now hvalid hforce =>
    rcases dormant_transition hdormant hvalid with
      ⟨hwait, hready⟩ | ⟨hrequested, hne⟩
    · subst hready
      exact absurd ⟨hinactive, hwait⟩ (hforce rfl rfl)
    · rw [state_moved hne]
      exact hrequested
  | refuse now hready =>
    rw [hready] at hdormant
    cases hdormant
  | record result _ =>
    rw [state_recordResult]
    exact hdormant
  | complete digest now _ hrunning | lost reason hrunning
  | progress p hrunning =>
    rw [hrunning] at hdormant
    cases hdormant
  | note => exact hdormant
  | reset => rfl
  | release =>
    show isDormant (if t.state = .ready then .waiting else t.state) = true
    split
    · rfl
    · exact hdormant
  | reserve => rfl

variable {U : Usage}

/-- Where inactive tasks come from: a write makes no graph inactive that
has other tasks. -/
theorem Write.isInactive_of (h : Write U s s') (ht : t ∈ s.list)
    (hinactive : s'.isInactive t = true) : s.isInactive t = true := by
  cases h with
  | change | create | stage => rwa [isInactive_put] at hinactive
  | activate graphId r _ =>
    unfold Store.isInactive at hinactive ⊢
    obtain ⟨g, hg, hnot⟩ := (Option.any_eq_true _ _).1 hinactive
    refine (Option.any_eq_true _ _).2 ⟨g, hg, ?_⟩
    simp only [Bool.not_eq_true', Bool.eq_false_iff, ne_eq] at hnot ⊢
    exact fun hactive => hnot ((Store.isActive_activate _ _ _ _).2
      (.inr hactive))
  | erase k _ =>
    unfold Store.isInactive Store.isActive at hinactive ⊢
    rwa [Store.graphs_erase] at hinactive
  | @deactivate graphId _ hnone =>
    unfold Store.isInactive at hinactive ⊢
    obtain ⟨g, hg, hnot⟩ := (Option.any_eq_true _ _).1 hinactive
    refine (Option.any_eq_true _ _).2 ⟨g, hg, ?_⟩
    simp only [Bool.not_eq_true', Bool.eq_false_iff, ne_eq] at hnot ⊢
    refine fun hactive => hnot ((Store.isActive_deactivate _ _ _).2
      ⟨?_, hactive⟩)
    rintro rfl
    exact hnone t ht hg

/-- Each write keeps the tasks of inactive graphs dormant. -/
theorem Write.dormant (h : Write holdingBack s s') (hs : s.Dormant) :
    s'.Dormant := by
  intro u hu hinactive
  rcases h.mem_list hu with hmem | ⟨t, ht, hchange⟩ | harrives
  · exact hs u hmem (h.isInactive_of hmem hinactive)
  · -- the record of `t` is the one that changed
    have hsame : s.isInactive t = true := by
      refine h.isInactive_of ht ?_
      rw [hchange.sameDef.isInactive] at hinactive
      exact hinactive
    exact hchange.dormant ht hsame (hs t ht hsame)
  · cases harrives with
    | create opts contract =>
      unfold Store.isInactive at hinactive
      cases hinactive
    | stage _ hplanned ht _ =>
      obtain ⟨existing, spec, now, hpassed⟩ := hplanned.passed
      obtain ⟨⟨gt, metadata, rfl⟩, -⟩ := hpassed.isNew u ht
      rfl

-- ==== judging

/-- On the way from one disk to another, it was like that. -/
def Passes (d d' : TaskDisk) (P : Store → Prop) : Prop :=
  ∃ d₁ : TaskDisk, d.stores <:+ d₁.stores ∧ d₁.stores <:+ d'.stores
    ∧ P d₁.store

/-- The tasks of a graph that is active have been judged, all of them on
one store. -/
def Store.Activated (s : Store) (plan : GraphPlan) : Prop :=
  s.isActive plan.graphId = true ∧ ∀ t ∈ plan.tasks, s.Judged t.id

variable {now : UInt64} {d : TaskDisk}

theorem runs_applyGraphReadiness {plan : GraphPlan}
    (hactive : d.store.isActive plan.graphId = true) :
    Runs (Write U) (applyGraphReadiness plan now) d fun _ d' =>
      Passes d d' fun s => s.Activated plan := by
  unfold applyGraphReadiness
  refine runs_listTasks_bind ?_
  refine runs_settleWaiting.bind ?_
  rintro settled d₁ hev₁ ⟨hgraphs, hjudged⟩
  have hactivated : d₁.store.Activated plan := by
    refine ⟨?_, fun t ht => hjudged t.id (List.mem_map_of_mem ht)⟩
    unfold Store.isActive at hactive ⊢
    rwa [hgraphs]
  refine Runs.bind (P := fun _ _ => True) (cascadeAll_writes _ d₁) ?_
  intro _ d₂ hev₂ _
  exact runs_listTasks_bind <| .pure ⟨d₁, hev₁.suffix, hev₂.suffix, hactivated⟩

theorem runs_activateGraph (hgraphs : U.graphs) {plan : GraphPlan} :
    Runs (Write U) (activateGraph plan now) d fun _ d' =>
      Passes d d' fun s => s.Activated plan := by
  have hput : Runs (Write U) (putGraphRecord plan now) d fun _ d' =>
      d'.store.isActive plan.graphId = true := by
    unfold putGraphRecord
    refine Runs.lift_bind fun _ _ => ?_
    refine .commit (.activate _ _ hgraphs) fun d'' hd'' => ?_
    rw [hd'', Store.isActive_activate]
    exact .inl rfl
  unfold activateGraph
  refine (Runs.attempt (Q := fun r d => ∀ u, r = .ok u →
    d.store.isActive plan.graphId = true) hput.1
    fun u hu => hput.2 u hu).bind ?_
  intro r d hev hactive
  cases r with
  | error e =>
    exact Runs.bind (P := fun _ _ => True)
      (rollbackStaged_writes hgraphs plan.tasks d) fun _ d'' _ _ => .throw
  | ok u =>
    refine Runs.mapError ((runs_applyGraphReadiness (hactive u rfl)).weaken ?_)
    rintro _ d'' ⟨d₁, hsuffix, hsuffix', hactivated⟩
    exact ⟨d₁, hev.suffix.trans hsuffix, hsuffix', hactivated⟩

theorem runs_resettleWaiting :
    Runs (Write U) (resettleWaiting now) d fun _ d' =>
      Passes d d' fun s =>
        ∀ t ∈ d.store.list, t.state = .waiting → s.Judged t.id := by
  unfold resettleWaiting
  refine runs_listTasks_bind ?_
  refine runs_settleWaiting.bind ?_
  rintro settled d₁ hev₁ ⟨-, hjudged⟩
  refine Runs.bind (P := fun _ _ => True) (cascadeAll_writes _ d₁) ?_
  intro _ d₂ hev₂ _
  refine .pure ⟨d₁, hev₁.suffix, hev₂.suffix, fun t ht hwait => ?_⟩
  refine hjudged t.id (List.mem_map_of_mem (List.mem_filter.2 ⟨ht, ?_⟩))
  exact decide_eq_true hwait

end Steps

-- ==== runs

section Runs

variable [TaskHost] [ReportDigest]

/-- Graphs are activated as a whole: in every run in which no waiting task
of a graph without a record is set ready by hand, no such task is ready or
runs at any store of the run; and an activation judges all tasks of its
graph on a store that has its record, as a restart judges all that wait. -/
theorem graph_activation {d : TaskDisk}
    (h : ReachableStore ForcesNoInactive d) :
    (∀ s ∈ d.stores, s.HoldsBack)
      ∧ (∀ (plan : GraphPlan) (now : UInt64) (d₀ : TaskDisk)
          (tasks : List Task), (activateGraph plan now d₀).1 = .ok tasks →
          Passes d₀ (activateGraph plan now d₀).2 fun s =>
            s.Activated plan)
      ∧ ∀ (now : UInt64) (d₀ : TaskDisk) (tasks : List Task),
          (resettleWaiting now d₀).1 = .ok tasks →
          Passes d₀ (resettleWaiting now d₀).2 fun s =>
            ∀ t ∈ d₀.store.list, t.state = .waiting → s.Judged t.id := by
  have hrun := h.evolves (U := holdingBack) fun s o => within_holdingBack
  refine ⟨fun s hs => ?_, fun plan now d₀ tasks hok => ?_,
    fun now d₀ tasks hok => ?_⟩
  · have hempty : ∀ s ∈ TaskDisk.initial.stores, s.Dormant := by
      intro s hs t ht _
      rw [List.mem_singleton.1 hs] at ht
      cases ht
    exact (hrun.keeps_all (fun s s' hw hs => hw.dormant hs) hempty s
      hs).holdsBack
  · exact (runs_activateGraph (U := holdingBack) trivial).2 tasks hok
  · exact (runs_resettleWaiting (U := holdingBack)).2 tasks hok

end Runs

section Inactive

local instance activationHost : TaskHost := sampleHost

local instance activationDigest : ReportDigest := sampleDigest

/-- A graph of one task, whose submission stops before its record. -/
def stagedDisk : TaskDisk :=
  ((StoreOp.submit (sampleGraph [sampleTask "a"]) 0).run
    (TaskDisk.facing TaskDisk.initial [true, false, false] [])).2

/-- The task is set ready by hand. -/
def forcedDisk : TaskDisk :=
  ((StoreOp.setState "a" .ready 1).run
    (TaskDisk.facing stagedDisk [] [])).2

theorem graph_activation_staged :
    stagedDisk.store.HoldsBack :=
  (graph_activation (d := stagedDisk) (.single (.op _
    (.submit (sampleGraph [sampleTask "a"]) 0) _ _ trivial trivial))).1 _
    List.mem_cons_self

/-- By hand a task becomes ready though its graph is not active. -/
theorem forced_inactive : ¬ ∀ d : TaskDisk,
    ReachableStore (fun _ _ => True) d → ∀ s ∈ d.stores, s.HoldsBack := by
  intro h
  have hd : ReachableStore (fun _ _ => True) forcedDisk :=
    (Relation.ReflTransGen.single (.op _
      (.submit (sampleGraph [sampleTask "a"]) 0) _ _ trivial trivial)).tail
      (.op stagedDisk (.setState "a" .ready 1) _ _ trivial trivial)
  have hforced : (forcedDisk.store.find "a").any (fun t =>
      forcedDisk.store.isInactive t && t.state = .ready) = true := by
    decide +kernel
  obtain ⟨t, hfind, ht⟩ := (Option.any_eq_true _ _).1 hforced
  simp only [Bool.and_eq_true, decide_eq_true_eq] at ht
  exact (h _ hd _ List.mem_cons_self t (Store.mem_of_find hfind).1 ht.1).1
    ht.2

end Inactive

end Tasty.Agent
