/-
The operations of the task store, each followed through its program: all
that they write is of the kinds of `Writes`.
-/
import Tasty.Agent.Settling

namespace Tasty.Agent

open Store Runs List Option

variable {id : TaskId} {R : Store → Store → Prop} {p : PostprocessProgress}

section Operations

variable [TaskHost] {U : Usage} {d : TaskDisk}

-- ==== creation

variable {opts : TaskCreateOpts}

omit [TaskHost] in
theorem known_of_checkReferences {known : List Task}
    (h : checkReferences known opts = .ok ())
    (hid : opts.onFailure.fallbackTask = some id) : ∃ t ∈ known, t.id = id := by
  unfold checkReferences at h
  have h := then_ok h
  obtain ⟨_, h, -⟩ := bind_ok h
  have hk := forM_eq_ok.1 h id (by rw [hid]; exact mem_singleton_self id)
  obtain ⟨hany, -⟩ := guard_not_ok hk
  obtain ⟨t, ht, hteq⟩ := any_eq_true.1 hany
  exact ⟨t, ht, of_decide_eq_true hteq⟩

variable {t : Task}

theorem runs_releaseFallback (ht : t ∈ d.store.list)
    (hself : t.onFailure.fallbackTask ≠ some t.id) :
    Runs (Write U) (releaseFallback t) d fun _ d' => t ∈ d'.store.list := by
  unfold releaseFallback
  cases hfb : t.onFailure.fallbackTask with
  | none => exact .pure ht
  | some id =>
    dsimp only
    refine runs_getTask_bind ?_
    cases hfind : d.store.find id with
    | none => exact .pure ht
    | some fb =>
      obtain ⟨hmem, hid⟩ := mem_of_find hfind
      refine Runs.ite (fun _ => ?_) fun _ => .pure ht
      refine runs_putTask (.change hmem .release) fun d'' hd'' => ?_
      rw [hd'', mem_list_put]
      refine .inr ⟨ht, fun hslot => hself ?_⟩
      rw [hfb, ← hid]
      exact congrArg some (congrArg Prod.snd hslot).symm

omit [TaskHost] in
theorem isOf_new {s : Store} {inactive : List TaskId}
    (order : HashOrder) (hnew : ∀ u ∈ s.list, u.id ≠ t.id)
    (hgraph : t.graphId = none) (hin : ∀ id, id ∈ inactive ↔
      ∃ u ∈ s.list, u.id = id ∧ s.isInactive u = true) :
    ((TaskGraph.build order (s.list ++ [t])).withInactive inactive).IsOf
      (s.put t) := by
  have hslot : ∀ u ∈ s.list, u.slot ≠ t.slot := fun u hu heq =>
    hnew u hu (congrArg Prod.snd heq)
  refine isOf_build order (fun u => ?_) fun id => ?_
  · rw [mem_append, mem_singleton, mem_list_put]
    constructor
    · rintro (hu | rfl)
      · exact .inr ⟨hu, hslot u hu⟩
      · exact .inl rfl
    · rintro (rfl | ⟨hu, -⟩)
      · exact .inr rfl
      · exact .inl hu
  · rw [hin]
    constructor
    · rintro ⟨u, hu, hid, hinactive⟩
      exact ⟨u, mem_list_put.2 (.inr ⟨hu, hslot u hu⟩), hid,
        (isInactive_put s t u).trans hinactive⟩
    · rintro ⟨u, hu, hid, hinactive⟩
      rw [isInactive_put] at hinactive
      rcases mem_list_put.1 hu with rfl | ⟨hu, -⟩
      · unfold isInactive at hinactive
        rw [hgraph] at hinactive
        cases hinactive
      · exact ⟨u, hu, hid, hinactive⟩

theorem runs_createTask {contract : Option TaskContract} :
    Runs (Write U) (createTask opts contract) d fun t d' =>
      t ∈ d'.store.list ∧ t.graphId = none ∧ t.contract = contract := by
  unfold createTask
  refine lift_bind fun _ _ => ?_
  refine runs_listTasks_bind ?_
  unfold unusedId
  refine (runs_freshName (Q := fun id d₂ => d₂.store = d.store ∧
    (∃ n, id = taskIdOf opts.now n) ∧ id ∉ d.store.list.map Task.id)
    fun n d₂ hn hd => ⟨hd, ⟨n, rfl⟩, hn⟩).bind ?_
  rintro id d₂ - ⟨hd₂, hissued, hid⟩
  refine lift_bind fun _ _ => ?_
  refine lift_bind fun _ hrefs => ?_
  refine lift_bind fun _ hcreated => ?_
  rw [← hd₂] at hid hrefs hcreated ⊢
  have hnew : ∀ u ∈ d₂.store.list, u.id ≠ id := fun u hu heq =>
    hid (mem_map.2 ⟨u, hu, heq⟩)
  refine read_bind ?_
  refine lift_bind fun inactive hin => ?_
  have hin := mem_inactiveTaskIds hin
  refine runs_buildGraph_bind fun order d₈ hd₈ => ?_
  have hg := isOf_new (t := newTask opts contract id) order hnew rfl hin
  generalize TaskGraph.build order _ = g at hg ⊢
  rw [← hd₈] at hnew hrefs hcreated hg
  refine lift_bind fun _ _ => ?_
  refine lift_bind fun _ _ => ?_
  refine (runs_putTask (Q := fun _ d'' => d''.store = d₈.store.put
    (judgedNew (g.withInactive inactive) (newTask opts contract id)))
    (.create opts contract ⟨hissued, hnew, hrefs, hcreated⟩ hg) fun _ hd => hd).bind ?_
  rintro _ d'' - hd''
  refine (runs_releaseFallback (t := judgedNew (g.withInactive inactive)
    (newTask opts contract id)) ?_ ?_).bind ?_
  · rw [hd'', mem_list_put]
    exact .inl rfl
  · intro hself
    obtain ⟨u, hu, huid⟩ := known_of_checkReferences hrefs hself
    exact hnew u hu huid
  · intro _ d₀ _ hmem
    exact .pure ⟨hmem, rfl, rfl⟩

theorem createTask_writes (opts : TaskCreateOpts)
    (contract : Option TaskContract) (d : TaskDisk) :
    Writes U (createTask opts contract) d :=
  Writes.of_runs runs_createTask

theorem createReservedForFallback_writes (opts : TaskCreateOpts)
    (d : TaskDisk) : Writes U (createReservedForFallback opts) d := by
  unfold createReservedForFallback
  refine Runs.bind runs_createTask ?_
  rintro t d' - ⟨hmem, hgraph, hcontract⟩
  have htyped : t.isTyped = false := by
    unfold Task.isTyped
    rw [hcontract]
    rfl
  refine (Writes.put hmem (.reserve hgraph htyped)).then_pure

-- ==== propagation

theorem runs_readinessGraph {d : TaskDisk} {Q : TaskGraph → TaskDisk → Prop}
    (h : ∀ g d', g.IsOf d.store → d'.store = d.store → Q g d') :
    Runs R (readinessGraph d.store.list) d Q := by
  unfold readinessGraph
  refine read_bind ?_
  refine lift_bind fun inactive hin => ?_
  have hin := mem_inactiveTaskIds hin
  exact runs_buildGraph_bind fun order d₂ hd =>
    .pure (h _ d₂ (isOf_build order (fun _ => .rfl) hin) hd)

theorem runs_readinessGraph_bind {d : TaskDisk} {f : TaskGraph → TaskProg α}
    {Q : α → TaskDisk → Prop} (h : ∀ g d', g.IsOf d.store →
      d'.store = d.store → Runs R (f g) d' Q) :
    Runs R (readinessGraph d.store.list >>= f) d Q :=
  (runs_readinessGraph (Q := fun g d' => g.IsOf d.store ∧ d'.store = d.store)
    fun _ _ hg hd => ⟨hg, hd⟩).bind fun g d' _ ⟨hg, hd⟩ => h g d' hg hd

theorem advanceExistingFallback_writes (id : TaskId) (d : TaskDisk) :
    Writes U (advanceExistingFallback id) d := by
  unfold advanceExistingFallback
  refine runs_getTask_bind ?_
  cases hfind : d.store.find id with
  | none => exact Writes.pure _
  | some fb =>
    obtain ⟨hmem, hid⟩ := mem_of_find hfind
    refine runs_listTasks_bind ?_
    refine runs_readinessGraph_bind fun g d₂ hg hd => ?_
    cases htarget : g.evaluateReadiness id with
    | none => exact Writes.pure _
    | some target =>
      refine Runs.ite (fun _ => Writes.pure _) fun hvalid => ?_
      simp only [not_or, Bool.not_eq_true', Bool.not_eq_false] at hvalid
      refine Writes.bind (Writes.put (hd ▸ hmem)
        (.advance (hd ▸ hg) (hid ▸ htarget) hvalid.1 hvalid.2))
        fun _ d₃ _ => Writes.pure _

theorem materializeInlineFallback_writes (main : Task)
    (spec : InlineFallbackSpec) (now : UInt64) (d : TaskDisk) :
    Writes U (materializeInlineFallback main spec now) d := by
  unfold materializeInlineFallback
  refine runs_listTasks_bind ?_
  refine Runs.ite (fun _ => Writes.pure _) fun _ => ?_
  exact (createTask_writes _ _ d).then_pure

theorem promoteFallback_writes (t : Task) (now : UInt64) (d : TaskDisk) :
    Writes U (promoteFallback t now) d := by
  have hexisting : ∀ existing d, Writes U (promoteExisting existing) d := by
    rintro (_ | id) d
    · exact Writes.pure _
    · exact advanceExistingFallback_writes id d
  have hinline : ∀ inline d, Writes U (promoteInline t now inline) d := by
    rintro (_ | spec) d
    · exact Writes.pure _
    · exact materializeInlineFallback_writes t spec now d
  unfold promoteFallback
  split
  · refine (hexisting _ d).bind fun a d' _ => ?_
    exact (hinline _ d').then_pure
  · exact Writes.pure _

theorem cascadeMains_writes (t : Task) (now : UInt64) (d : TaskDisk) :
    Writes U (cascadeMains t now) d := by
  unfold cascadeMains
  refine Runs.ite (fun _ => ?_) fun _ => Writes.pure _
  exact runs_listTasks_bind (cascadeAll_writes _ d)

theorem setStateThen_writes {propagate : Task → TaskProg (List Task)}
    (hpropagate : ∀ t d, Writes U (propagate t) d) (id : TaskId)
    (requested : TaskState) (now : UInt64) (d : TaskDisk)
    (hforce : isStart requested = true →
      ∀ t, d.store.find id = some t → U.force d.store t requested) :
    Writes U (setStateThen propagate id requested now) d := by
  unfold setStateThen
  refine runs_fetchTask_bind fun t hfind => ?_
  obtain ⟨hmem, -⟩ := mem_of_find hfind
  refine Runs.ite (fun _ => Writes.throw) fun hvalid => ?_
  simp only [Bool.not_eq_true', Bool.not_eq_false] at hvalid
  refine read_bind ?_
  refine Writes.bind (Writes.put hmem ?_) fun _ d₂ _ =>
    (hpropagate _ d₂).then_pure
  split
  · rename_i hrunning
    have hreq : requested = .running := by
      simp only [Bool.and_eq_true, decide_eq_true_eq] at hrunning
      exact hrunning.1
    refine .refuse now ?_
    rw [hreq] at hvalid
    cases hstate : t.state <;> rw [hstate] at hvalid <;>
      simp [isValidTransition] at hvalid ⊢
  · exact .moved now hvalid fun hstart => hforce hstart t hfind

theorem retireFallback_writes {propagate : Task → TaskProg (List Task)}
    (hpropagate : ∀ t d, Writes U (propagate t) d) (t : Task)
    (now : UInt64) (d : TaskDisk) :
    Writes U (retireFallback propagate t now) d := by
  unfold retireFallback
  split
  · refine Runs.ite (fun _ => ?_) fun _ => Writes.pure _
    refine runs_getTask_bind ?_
    refine Runs.ite (fun _ => ?_) fun _ => Writes.pure _
    refine (setStateThen_writes hpropagate _ .skipped now d
      fun h => nomatch h).bind ?_
    intro _ d'' _
    exact Writes.pure _
  · exact Writes.pure _

theorem propagateTransition_writes (now : UInt64) (fuel : Nat) (t : Task)
    (d : TaskDisk) : Writes U (propagateTransition now fuel t) d := by
  induction fuel generalizing t d with
  | zero => exact Writes.pure _
  | succ fuel ih =>
    unfold propagateTransition
    refine (promoteFallback_writes t now d).bind fun _ d₁ _ => ?_
    refine (retireFallback_writes ih t now d₁).bind fun _ d₂ _ => ?_
    refine (cascadeDownstream_writes t.id d₂).bind fun _ d₃ _ => ?_
    exact (cascadeMains_writes t now d₃).then_pure

theorem propagate_writes (now : UInt64) (t : Task) (d : TaskDisk) :
    Writes U (propagate now t) d := by
  unfold propagate
  exact runs_listTasks_bind (propagateTransition_writes now _ t d)

theorem setState_writes (id : TaskId) (requested : TaskState)
    (now : UInt64) (d : TaskDisk) (hforce : isStart requested = true →
      ∀ t, d.store.find id = some t → U.force d.store t requested) :
    Writes U (setState id requested now) d :=
  setStateThen_writes (propagate_writes now) id requested now d hforce

theorem cancelTask_writes (id : TaskId) (now : UInt64) (d : TaskDisk) :
    Writes U (cancelTask id now) d := by
  unfold cancelTask
  exact runs_fetchTask_bind fun t _ => Runs.ite (fun _ => Writes.throw) fun _ =>
    setState_writes id .cancelled now d fun h => nomatch h

-- ==== results

theorem setResult_writes (id : TaskId) (result : TaskResult) (d : TaskDisk)
    (hrecord : ∀ t, d.store.find id = some t → t.isTyped = true →
      U.record d.store t) : Writes U (setResult id result) d := by
  unfold setResult
  refine runs_fetchTask_bind fun t hfind => ?_
  refine (Writes.put (mem_of_find hfind).1
    (.record result (hrecord t hfind))).then_pure

/-- A v2 task that is found, for a note on it. -/
theorem noted_writes {u : Task → Task} {e : AgentError}
    (d : TaskDisk) (hu : ∀ t, Change U d.store t (u t)) :
    Writes U (do
      let t ← fetchTask id
      if !t.isTyped then throw e
      else do
        let t := u t
        putTask t
        pure t) d := by
  refine runs_fetchTask_bind fun t hfind => ?_
  refine Runs.ite (fun _ => Writes.throw) fun _ => ?_
  exact (Writes.put (mem_of_find hfind).1 (hu t)).then_pure

theorem setInputSnapshot_writes (id : TaskId) (snapshot : InputSnapshot)
    (d : TaskDisk) : Writes U (setInputSnapshot id snapshot) d := by
  refine noted_writes (u := fun t => withSnapshot t snapshot) d fun t => ?_
  unfold withSnapshot
  dsimp only
  split <;> exact .note _ t.accepted

theorem setAccepted_writes (id : TaskId) (accepted : CappedJson)
    (d : TaskDisk) : Writes U (setAccepted id accepted) d :=
  noted_writes (u := fun t => { t with accepted := some accepted }) d
    fun t => .note t.inputSnapshot _

theorem touchTask_writes (id : TaskId) (d : TaskDisk) :
    Writes U (touchTask id) d := by
  unfold touchTask
  refine runs_fetchTask_bind fun t hfind => ?_
  exact (Writes.put (mem_of_find hfind).1
    (.note t.inputSnapshot t.accepted)).then_pure

section Reports

variable {t : Task} {completion : Completion} {now : UInt64}

/-- What a step of the postprocess leaves to be done. -/
def StepLeaves (t : Task) (s : Store) (step : PostprocessStep)
    (s' : Store) : Prop :=
  (∀ u, step = .finalize u → s' = s ∧ Reported t u)
    ∧ (step = .notApplicable → s' = s)

theorem runs_keepRunning_again :
    Runs (Write U) (keepRunning t p true) d fun step d' =>
      StepLeaves t d.store step d'.store := by
  unfold keepRunning
  exact .pure ⟨fun _ h => (nomatch h), fun h => nomatch h⟩

section Spec

variable {contract : TaskContract} {spec : PostprocessSpec}

theorem runs_keepRunning
    (ht : t ∈ d.store.list) (hrunning : t.state = .running)
    (hcontract : t.contract = some contract)
    (hspec : contract.postprocess = some spec)
    (hp : Progresses spec (t.attempt.bind TaskAttempt.postprocess) p) :
    Runs (Write U) (keepRunning t p false) d fun step d' =>
      StepLeaves t d.store step d'.store := by
  unfold keepRunning
  refine Runs.bind (Writes.put (U := U) ht
    (.progress p hrunning hcontract hspec hp)) ?_
  intro _ d' _ _
  exact .pure ⟨fun _ h => (nomatch h), fun h => nomatch h⟩

theorem stepLeaves_skip :
    Runs (Write U) (pure .notApplicable : TaskProg PostprocessStep) d
      fun step d' => StepLeaves t d.store step d'.store :=
  .pure ⟨fun _ h => (nomatch h), fun _ => rfl⟩

theorem runs_mainReport [ReportDigest] (ht : t ∈ d.store.list)
    (hrunning : t.state = .running) (hcontract : t.contract = some contract)
    (hspec : contract.postprocess = some spec) :
    Runs (Write U) (mainReport t completion now
      (t.attempt.bind TaskAttempt.postprocess)) d fun step d' =>
        StepLeaves t d.store step d'.store := by
  unfold mainReport
  cases hprogress : t.attempt.bind TaskAttempt.postprocess with
  | none =>
    dsimp only
    cases completion.outcome with
    | succeeded =>
      refine Runs.ite (fun _ => stepLeaves_skip) fun _ => ?_
      refine runs_keepRunning ht hrunning hcontract hspec ?_
      rw [hprogress]
      exact .main completion.result completion.digest now
    | failed error => exact stepLeaves_skip
    | lost reason => exact stepLeaves_skip
  | some p =>
    exact Runs.ite (fun _ => runs_keepRunning_again) fun _ => .throw

theorem runs_postprocessReport {report : PostprocessReport}
    (ht : t ∈ d.store.list) (hrunning : t.state = .running)
    (hcontract : t.contract = some contract)
    (hspec : contract.postprocess = some spec) :
    Runs (Write U) (postprocessReport t contract spec completion report now
      (t.attempt.bind TaskAttempt.postprocess)) d fun step d' =>
        StepLeaves t d.store step d'.store := by
  unfold postprocessReport
  cases hprogress : t.attempt.bind TaskAttempt.postprocess with
  | none => exact .throw
  | some p =>
    dsimp only
    refine Runs.ite (fun _ => Runs.ite
      (fun _ => runs_keepRunning_again) fun _ => .throw) fun _ => ?_
    refine Runs.ite (fun _ => .throw) fun hcurrent => ?_
    have hcurrent := Decidable.not_not.1 hcurrent
    cases hnext : nextRun spec report with
    | some run =>
      refine runs_keepRunning ht hrunning hcontract hspec ?_
      rw [hprogress]
      exact .retried report now hcurrent hnext
    | none =>
      refine .pure ⟨fun u h => ?_, fun h => nomatch h⟩
      cases h
      exact ⟨rfl, .postprocess _ hcontract hspec hprogress hcurrent⟩

end Spec

variable [ReportDigest]

theorem runs_postprocessStep (ht : t ∈ d.store.list)
    (hrunning : t.state = .running) :
    Runs (Write U) (postprocessStep t completion now) d fun step d' =>
      StepLeaves t d.store step d'.store := by
  unfold postprocessStep
  cases hcontract : t.contract with
  | none => exact stepLeaves_skip
  | some contract =>
    dsimp only
    cases hspec : contract.postprocess with
    | none => exact stepLeaves_skip
    | some spec =>
      dsimp only
      cases completion.postprocess with
      | none => exact runs_mainReport ht hrunning hcontract hspec
      | some report =>
        exact runs_postprocessReport ht hrunning hcontract hspec

/-- The end of an attempt, unless the result is lost. -/
theorem change_completed {s : Store} {u : Task} (htyped : t.isTyped = true)
    (hrunning : t.state = .running) (hu : Reported t u)
    (hlost : ∀ reason, completion.outcome ≠ .lost reason) :
    Change U s t (u.completed s completion.outcome.state completion.digest
      now) := by
  cases houtcome : completion.outcome with
  | lost reason => exact absurd houtcome (hlost reason)
  | succeeded | failed error =>
    exact .complete _ now htyped hrunning hu rfl (fun h => nomatch h)
      fun h => nomatch h

theorem endAttempt_writes {u : Task} (ht : t ∈ d.store.list)
    (htyped : t.isTyped = true) (hrunning : t.state = .running)
    (hu : Reported t u) (hlost : ∀ reason, completion.outcome ≠ .lost reason) :
    Writes U (endAttempt u completion now) d := by
  unfold endAttempt
  refine read_bind ?_
  exact Writes.bind (Writes.put ht
    (change_completed htyped hrunning hu hlost)) fun _ d₂ _ =>
      (propagate_writes now _ d₂).then_pure

theorem completeRunning_writes (ht : t ∈ d.store.list)
    (htyped : t.isTyped = true) (hrunning : t.state = .running) :
    Writes U (completeRunning t completion now) d := by
  have hfinish : (∀ reason, completion.outcome ≠ .lost reason) →
      Writes U (postprocessStep t completion now >>=
        afterPostprocess t completion now) d := by
    intro hlost
    refine (runs_postprocessStep ht hrunning).bind ?_
    rintro step d' - ⟨hfinal, hskip⟩
    cases step with
    | «continue» receipt => exact Writes.pure _
    | finalize u =>
      obtain ⟨hd, hu⟩ := hfinal u rfl
      exact endAttempt_writes (hd ▸ ht) htyped hrunning hu hlost
    | notApplicable =>
      exact endAttempt_writes (hskip rfl ▸ ht) htyped hrunning
        (.main completion.result) hlost
  unfold completeRunning
  cases houtcome : completion.outcome with
  | lost reason =>
    exact (Writes.put ht (.lost _ hrunning)).then_pure
  | succeeded =>
    rw [houtcome] at hfinish
    exact hfinish fun reason h => nomatch h
  | failed error =>
    rw [houtcome] at hfinish
    exact hfinish fun reason h => nomatch h

omit [ReportDigest] in
theorem completeV1_writes (hfind : d.store.find t.id = some t)
    (htyped : t.isTyped = false) :
    Writes U (completeV1 t completion now) d := by
  unfold completeV1
  refine Runs.ite (fun _ => Writes.throw) fun _ => ?_
  refine Writes.bind (setResult_writes t.id completion.result d ?_) ?_
  · intro u hu hutyped
    rw [hfind] at hu
    cases hu
    rw [htyped] at hutyped
    cases hutyped
  · intro _ d' _
    refine (setState_writes t.id completion.outcome.state now d' ?_).then_pure
    intro h
    cases houtcome : completion.outcome <;> rw [houtcome] at h <;> cases h

theorem completeTask_writes (id : TaskId) (completion : Completion)
    (now : UInt64) (d : TaskDisk) :
    Writes U (completeTask id completion now) d := by
  unfold completeTask
  refine runs_fetchTask_bind fun t hfind => ?_
  obtain ⟨hmem, hid⟩ := mem_of_find hfind
  refine Runs.ite (fun hv1 => ?_) fun htyped => ?_
  · exact completeV1_writes (hid.symm ▸ hfind) (by simpa using hv1)
  · simp only [Bool.not_eq_true', Bool.not_eq_false] at htyped
    refine Runs.ite (fun _ => Writes.throw) fun _ => ?_
    refine Runs.ite (fun _ => ?_) fun _ => ?_
    · unfold completeEnded
      split
      · refine Runs.ite (fun _ => ?_) fun _ => Writes.throw
        exact (propagate_writes now t d).then_pure
      · exact Writes.throw
    · refine Runs.ite (fun _ => Writes.throw) fun hrunning => ?_
      exact completeRunning_writes hmem htyped
        (Decidable.not_not.1 hrunning)

end Reports

omit [TaskHost] in
theorem checkPending_eq_ok {attemptId : String} {run : UInt32}
    (h : checkPending t attemptId run = .ok p) :
    t.attempt.map TaskAttempt.id = some attemptId
      ∧ t.attempt.bind TaskAttempt.postprocess = some p
      ∧ ∃ notBefore, p.phase = .pending run notBefore := by
  unfold checkPending at h
  cases hattempt : t.attempt with
  | none =>
    rw [hattempt] at h
    cases h
  | some a =>
    rw [hattempt] at h
    by_cases hid : a.id = attemptId
    · rw [filter_some_pos (by simpa using hid)] at h
      cases hp : a.postprocess with
      | none =>
        simp only [bind_some, hp] at h
        cases h
      | some q =>
        simp only [bind_some, hp] at h
        cases hphase : q.phase with
        | pending r notBefore =>
          rw [hphase] at h
          dsimp only at h
          by_cases hr : r = run
          · rw [if_pos hr] at h
            cases h
            exact ⟨congrArg some hid, hp, notBefore, hr ▸ hphase⟩
          · rw [if_neg hr] at h
            cases h
        | started r startedAt =>
          rw [hphase] at h
          cases h
        | finished r =>
          rw [hphase] at h
          cases h
    · rw [filter_some_neg (by simpa using hid)] at h
      cases h

theorem beginPostprocessRun_writes (id : TaskId) (attemptId : String)
    (run : UInt32) (now : UInt64) (d : TaskDisk) :
    Writes U (beginPostprocessRun id attemptId run now) d := by
  unfold beginPostprocessRun
  refine runs_fetchTask_bind fun t hfind => ?_
  refine Runs.ite (fun _ => Writes.throw) fun hrunning => ?_
  cases hspec : t.contract.bind TaskContract.postprocess with
  | none => exact Writes.throw
  | some spec =>
    obtain ⟨contract, hcontract, hspec⟩ := bind_eq_some_iff.1 hspec
    refine lift_bind fun p hp => ?_
    obtain ⟨-, hprogress, notBefore, hphase⟩ := checkPending_eq_ok hp
    refine (Writes.put (mem_of_find hfind).1
      (.progress _ (Decidable.not_not.1 hrunning) hcontract hspec ?_)).then_pure
    rw [hprogress]
    exact .started now hphase

theorem resettleWaiting_writes (now : UInt64) (d : TaskDisk) :
    Writes U (resettleWaiting now) d := by
  unfold resettleWaiting
  refine runs_listTasks_bind ?_
  refine Writes.bind (Writes.of_runs runs_settleWaiting) ?_
  intro settled d₁ _
  exact (cascadeAll_writes _ d₁).then_pure

-- ==== retries

theorem resetFollower_writes (hreset : U.reset id)
    (d : TaskDisk) : Writes U (resetFollower id) d := by
  unfold resetFollower
  refine runs_getTask_bind ?_
  cases hfind : d.store.find id with
  | none => exact Writes.pure _
  | some t =>
    refine Runs.ite (fun hstate => ?_) fun _ => Writes.pure _
    obtain ⟨hmem, rfl⟩ := mem_of_find hfind
    refine Writes.put hmem (.reset ?_ hreset)
    cases ht : t.state <;> rw [ht] at hstate <;>
      first | rfl | cases hstate

theorem settleReset_writes {g : TaskGraph} {now : UInt64}
    (hg : g.IsOf d.store) (ht : t ∈ d.store.list)
    (hwait : t.state = .waiting) : Writes U (settleReset g t now) d := by
  unfold settleReset
  cases htarget : settleTarget g t with
  | none => exact Writes.pure _
  | some target =>
    obtain ⟨next, skip⟩ := target
    refine Runs.ite (fun _ => Writes.pure _) fun _ => ?_
    exact Writes.bind (Writes.put ht (.settle now hg hwait htarget))
      fun _ d' _ => Writes.pure _

theorem resetFollowers_writes (hreset : ∀ follower, U.reset follower)
    (all : List Task) (id : TaskId) (now : UInt64) (d : TaskDisk) :
    Writes U (resetFollowers all id now) d := by
  unfold resetFollowers
  refine runs_buildGraph_bind fun order d' _ => ?_
  refine (Writes.forM fun id' _ d =>
    resetFollower_writes (hreset id') d).bind fun _ d₁ _ => ?_
  exact (cascadeDownstream_writes id d₁).then_pure

/-- The refusals read only. -/
theorem runs_refuseRetryAfterFallback (t : Task) (d : TaskDisk) :
    Runs R (refuseRetryAfterFallback t) d fun _ d' => d' = d := by
  unfold refuseRetryAfterFallback
  cases t.onFailure.fallbackTask with
  | none => exact .pure rfl
  | some id =>
    refine Runs.ite (fun _ => .pure rfl) fun _ => ?_
    refine runs_getTask_bind ?_
    cases d.store.find id with
    | none => exact .pure rfl
    | some fb => exact Runs.ite (fun _ => .throw) fun _ => .pure rfl

theorem runs_refuseRetryOfUnselected (t : Task) (d : TaskDisk) :
    Runs R (refuseRetryOfUnselected t) d fun _ d' => d'.store = d.store := by
  unfold refuseRetryOfUnselected
  refine Runs.ite (fun _ => .pure rfl) fun _ => ?_
  refine runs_listTasks_bind ?_
  refine runs_readinessGraph_bind fun g d₁ _ hd => ?_
  exact Runs.ite (fun _ => .throw) fun _ => .pure hd

theorem runs_settleReportBlock (t : Task) (d : TaskDisk) :
    Runs R (settleReportBlock t) d fun _ d' => d'.store = d.store := by
  unfold settleReportBlock
  exact Runs.ite (fun _ => .beside fun _ hd => hd) fun _ => .pure rfl

theorem retryTask_writes {resetDownstream : Bool} (hreset : U.reset id)
    (hfollowers : resetDownstream = true → ∀ follower, U.reset follower)
    (now : UInt64) (d : TaskDisk) :
    Writes U (retryTask id resetDownstream now) d := by
  unfold retryTask
  refine runs_fetchTask_bind fun t hfind => ?_
  obtain ⟨hmem, rfl⟩ := mem_of_find hfind
  refine Runs.ite (fun _ => Writes.throw) fun hstate => ?_
  simp only [Bool.not_eq_true', Bool.not_eq_false] at hstate
  refine (runs_refuseRetryAfterFallback t d).bind ?_
  rintro _ d₁ - rfl
  refine (runs_refuseRetryOfUnselected t d₁).bind fun _ d₂ _ hd₂ => ?_
  refine Runs.ite (fun _ => Writes.throw) fun _ => ?_
  refine (runs_settleReportBlock t d₂).bind fun _ d₃ _ hd₃ => ?_
  have hmem₃ : t ∈ d₃.store.list := by
    rw [hd₃, hd₂]
    exact hmem
  refine (runs_putTask (Q := fun _ d₄ => d₄.store = d₃.store.put t.reset)
    (.change hmem₃ (.reset hstate hreset)) fun _ hd => hd).bind ?_
  intro _ d₄ _ hd₄
  refine runs_listTasks_bind ?_
  refine runs_readinessGraph_bind fun g d₆ hg hd₆ => ?_
  have hmem₆ : t.reset ∈ d₆.store.list := by
    rw [hd₆, hd₄, mem_list_put]
    exact .inl rfl
  refine Writes.bind (settleReset_writes (hd₆ ▸ hg) hmem₆ rfl) ?_
  intro t' d₇ _
  refine Runs.ite (fun hdown => ?_) fun _ => Writes.pure _
  exact (resetFollowers_writes (hfollowers hdown) _ t.id now d₇).then_pure

-- ==== graphs

theorem deleteTask_writes (hgraphs : U.graphs) (id : TaskId)
    (d : TaskDisk) : Writes U (deleteTask id) d :=
  runs_deleteTask (fun k => .erase k hgraphs) fun _ _ _ _ _ => trivial

theorem rollbackStaged_writes (hgraphs : U.graphs) (written : List Task) (d : TaskDisk) :
    Writes U (rollbackStaged written) d := by
  unfold rollbackStaged
  refine Writes.forM fun t _ d => ?_
  refine Writes.bind (Runs.attempt (deleteTask_writes hgraphs t.id d).1 trivial)
    fun _ d' _ => Writes.pure _

theorem stageFrom_writes (hgraphs : U.graphs) {plan : GraphPlan}
    (hplanned : plan.IsPlanned) (written rest : List Task) (d : TaskDisk)
    (hrest : ∀ t ∈ rest, t ∈ plan.tasks)
    (hfree : U.whole → plan.IsOn d.store ∧ (rest.map Task.id).Nodup ∧
      ∀ t ∈ rest, ∀ u ∈ d.store.list, u.id ≠ t.id) :
    Writes U (stageFrom written rest) d := by
  induction rest generalizing written d with
  | nil => exact Writes.pure _
  | cons t rest ih =>
    unfold stageFrom
    have hput : Runs (Write U) (putTask t) d fun _ d' =>
        d'.store = d.store.put t :=
      runs_putTask (.stage hgraphs hplanned (hrest t mem_cons_self)
        fun hwhole => ⟨(hfree hwhole).1,
          (hfree hwhole).2.2 t mem_cons_self⟩) fun _ hd => hd
    refine (Runs.attempt
      (Q := fun r d' => ∀ u, r = .ok u → d'.store = d.store.put t)
      hput.1 fun u hu => hput.2 u hu).bind ?_
    intro r d' _ hd'
    cases r with
    | error e =>
      exact (rollbackStaged_writes hgraphs written d').bind
        fun _ d'' _ => Writes.throw
    | ok u =>
      refine ih _ d' (fun t' ht' => hrest t' (mem_cons_of_mem _ ht'))
        fun hwhole => ?_
      obtain ⟨hon, hnodup, hids⟩ := hfree hwhole
      rw [map_cons, nodup_cons] at hnodup
      rw [hd' u rfl]
      refine ⟨hon.put (hrest t mem_cons_self)
        (hids t mem_cons_self), hnodup.2, fun t' ht' v hv => ?_⟩
      rcases mem_list_put.1 hv with rfl | ⟨hv, -⟩
      · intro heq
        exact hnodup.1 (mem_map.2 ⟨t', ht', heq.symm⟩)
      · exact hids t' (mem_cons_of_mem _ ht') v hv

theorem applyGraphReadiness_writes (plan : GraphPlan) (now : UInt64)
    (d : TaskDisk) : Writes U (applyGraphReadiness plan now) d := by
  unfold applyGraphReadiness
  refine runs_listTasks_bind ?_
  refine Writes.bind (Writes.of_runs runs_settleWaiting) ?_
  intro settled d₁ _
  refine (cascadeAll_writes _ d₁).bind fun _ d₂ _ => ?_
  exact runs_listTasks_bind (Writes.pure _)

theorem putGraphRecord_writes (hgraphs : U.graphs) (plan : GraphPlan) (now : UInt64)
    (d : TaskDisk) : Writes U (putGraphRecord plan now) d := by
  unfold putGraphRecord
  refine lift_bind fun _ _ => ?_
  exact .commit (.activate _ _ hgraphs) fun _ _ => trivial

theorem activateGraph_writes (hgraphs : U.graphs) (plan : GraphPlan) (now : UInt64)
    (d : TaskDisk) : Writes U (activateGraph plan now) d := by
  unfold activateGraph
  refine (Runs.attempt (Q := fun _ _ => True)
    (putGraphRecord_writes hgraphs plan now d).1 trivial).bind ?_
  intro r d' _ _
  cases r with
  | error e =>
    exact (rollbackStaged_writes hgraphs plan.tasks d').bind
      fun _ d'' _ => Writes.throw
  | ok u => exact (applyGraphReadiness_writes plan now d').mapError

theorem planGraph_writes (spec : TaskGraphSpec) (now : UInt64)
    (d : TaskDisk) : Writes U (planGraph spec now) d :=
  Writes.of_runs (runs_planGraph spec now d)

theorem submitGraph_writes (hgraphs : U.graphs) (spec : TaskGraphSpec)
    (now : UInt64) (d : TaskDisk) : Writes U (submitGraph spec now) d := by
  have hplan := runs_planGraph (R := Write U) spec now d
  unfold submitGraph
  refine Runs.bind (P := fun plan d' => plan.IsPlanned ∧
    d'.store = d.store ∧ plan.Passed d.store.list spec now)
    ⟨hplan.1, fun plan h => ⟨⟨spec, now, d, h⟩, hplan.2 plan h⟩⟩ ?_
  rintro plan d' - ⟨hplanned, hd, hpassed⟩
  have hon : plan.IsOn d'.store := hd ▸ hpassed.isOn
  refine Writes.bind (stageFrom_writes hgraphs hplanned [] plan.tasks d'
    (fun _ h => h) fun _ => ⟨hon, hpassed.nodup, fun t ht u hu => ?_⟩) ?_
  · exact (hpassed.isNew t ht).2.1 u (hd ▸ hu)
  · intro _ d'' _
    exact (activateGraph_writes hgraphs plan now d'').then_pure

-- ==== deletion

theorem pruneGraphRecords_writes (hgraphs : U.graphs) (d : TaskDisk) :
    Writes U pruneGraphRecords d := by
  unfold pruneGraphRecords
  refine read_bind ?_
  refine (Runs.forM (I := fun d₁ => d₁.store.list = d.store.list) ?_
    rfl).weaken fun _ _ _ => trivial
  intro r _ d₁ hd₁
  refine Runs.ite (fun _ => .pure hd₁) fun hlive => ?_
  refine .commit (.deactivate hgraphs fun t ht hgraph => hlive ?_)
    fun d₂ hd₂ => hd₂ ▸ hd₁
  rw [contains_iff_mem, mem_filterMap]
  exact ⟨t, hd₁ ▸ ht, hgraph⟩

theorem deleteAll_writes (hgraphs : U.graphs) (ids : List TaskId)
    (d : TaskDisk) : Writes U (deleteAll ids) d :=
  Writes.forM fun id _ d => deleteTask_writes hgraphs id d

theorem deleteChecked_writes (hgraphs : U.graphs) (id : TaskId)
    (opts : TaskDeleteOpts) (d : TaskDisk) : Writes U (deleteChecked id opts) d := by
  unfold deleteChecked
  refine runs_fetchTask_bind fun t _ => ?_
  refine Runs.ite (fun _ => Writes.throw) fun _ => ?_
  refine runs_listTasks_bind ?_
  refine (runs_freshOrder (Q := fun _ _ => True) fun _ _ _ => trivial).bind
    ?_
  intro order d₃ _ _
  refine Writes.lift.bind fun targets d₄ _ => ?_
  refine (deleteAll_writes hgraphs targets d₄).bind fun _ d₅ _ => ?_
  exact (pruneGraphRecords_writes hgraphs d₅).then_pure

theorem applySweepPlan_writes (hgraphs : U.graphs)
    (deleted : List TaskId) (d : TaskDisk) :
    Writes U (applySweepPlan deleted) d :=
  (deleteAll_writes hgraphs deleted d).bind fun _ d' _ =>
    pruneGraphRecords_writes hgraphs d'

-- ==== operations

variable [ReportDigest]

theorem StoreOp.run_writes {o : StoreOp} (hwf : o.WellFormed)
    (hwithin : o.Within U d.store) : Writes U o.run d := by
  have hdrop : ∀ {α : Type} {x : TaskProg α}, Writes U x d →
      Writes U (do let _ ← x) d := fun hx =>
    hx.then_pure
  cases o with
  | create opts contract => exact hdrop (createTask_writes opts contract d)
  | createReserved opts =>
    exact hdrop (createReservedForFallback_writes opts d)
  | setState id requested now =>
    exact hdrop (setState_writes id requested now d hwithin)
  | setResult id result => exact hdrop (setResult_writes id result d hwithin)
  | complete id completion now =>
    exact hdrop (completeTask_writes id completion now d)
  | beginPostprocess id attemptId run now =>
    exact hdrop (beginPostprocessRun_writes id attemptId run now d)
  | cancel id now => exact hdrop (cancelTask_writes id now d)
  | retry id resetDownstream now =>
    exact hdrop (retryTask_writes hwithin.1 hwithin.2 now d)
  | setInputSnapshot id snapshot =>
    exact hdrop (setInputSnapshot_writes id snapshot d)
  | setAccepted id accepted => exact hdrop (setAccepted_writes id accepted d)
  | touch id => exact hdrop (touchTask_writes id d)
  | resettle now => exact hdrop (resettleWaiting_writes now d)
  | dryRun spec now => exact hdrop (planGraph_writes spec now d)
  | submit spec now => exact hdrop (submitGraph_writes hwithin spec now d)
  | stage plan =>
    exact stageFrom_writes hwithin.1 hwf [] plan.tasks d (fun _ h => h)
      fun hwhole => absurd hwhole hwithin.2
  | activate plan now =>
    exact hdrop (activateGraph_writes hwithin.1 plan now d)
  | delete id opts => exact hdrop (deleteChecked_writes hwithin id opts d)
  | sweep deleted => exact applySweepPlan_writes hwithin deleted d

theorem StoreRun.evolves {C : Store → StoreOp → Prop}
    (hC : ∀ s o, C s o → o.Within U s) {d d' : TaskDisk}
    (h : StoreRun C d d') : Evolves (Write U) d d' := by
  induction h with
  | refl => exact .refl _
  | tail _ hstep ih =>
    cases hstep with
    | op o outcomes orders hwf hallowed =>
      have hfacing : Evolves (Write U) d
          (TaskDisk.facing _ outcomes orders) := ih.quiet rfl rfl
      refine hfacing.trans ?_
      have hwithin := hC _ _ hallowed
      exact (StoreOp.run_writes (d := TaskDisk.facing _ outcomes orders)
        hwf hwithin).1
    | restart => exact ih.quiet rfl rfl

end Operations

end Tasty.Agent
