/-
The runs of a postprocess over every run of the store: a begin takes the
run that is pending, and takes it for good; a report ends the attempt once.
-/
import Mathlib.Data.List.Nodup
import Tasty.Agent.Postprocess

namespace Tasty.Agent

section Runs

variable {d d' : TaskDisk} {t u : Task} {id : TaskId} {n : UInt32}

-- ==== counted

variable {p : PostprocessProgress} {spec : PostprocessSpec}

theorem PostprocessProgress.Counted.nodup (h : p.Counted spec) :
    (p.failedRuns.map PostprocessRunSummary.run).Nodup := by
  have hroom := h.room
  have hbound := spec.maxRuns.toNat_lt
  rw [h.failed]
  refine List.Nodup.map_on (fun i hi j hj hij => ?_) List.nodup_range
  have hi := List.mem_range.1 hi
  have hj := List.mem_range.1 hj
  have hnat := congrArg UInt32.toNat hij
  rw [UInt32.toNat_ofNat_of_lt' (by show i + 1 < 2 ^ 32; omega),
    UInt32.toNat_ofNat_of_lt' (by show j + 1 < 2 ^ 32; omega)] at hnat
  omega

section Reachable

variable [TaskHost] [ReportDigest]

theorem counted_of_reachable
    (hd : ReachableStore (fun _ o => o.isWhole = true) d) :
    ∀ s ∈ d.stores, ∀ t ∈ s.list, t.Counted := by
  refine (evolves_wholeGraphs hd).keeps_all
    (fun _ _ hwrite hs => hwrite.counted hs) fun s hs t ht => ?_
  obtain rfl := List.mem_singleton.1 hs
  rw [show TaskDisk.initial.store.list = [] from rfl] at ht
  cases ht

end Reachable

-- ==== begins

/-- What a begin that succeeds found, and what it leaves. -/
structure Begun (s s' : Store) (id : TaskId) (run : UInt32)
    (spec : PostprocessSpec) (t : Task) (p : PostprocessProgress) : Prop where
  found : s.find id = some t
  running : t.state = .running
  spec : t.contract.bind TaskContract.postprocess = some spec
  progress : t.progress = some p
  pending : ∃ notBefore, p.phase = .pending run notBefore
  left : ∃ now, s' = s.put (t.withProgress { p with phase := .started run now })

theorem runs_begin [TaskHost] (id : TaskId) (attemptId : String) (run : UInt32)
    (now : UInt64) (d : TaskDisk) :
    Runs (fun _ _ => True) (beginPostprocessRun id attemptId run now) d
      fun r d' => ∃ t p, Begun d.store d'.store id run r.2.1 t p := by
  unfold beginPostprocessRun
  refine runs_fetchTask_bind fun t hfind => ?_
  refine Runs.ite (fun _ => .throw) fun hrunning => ?_
  cases hspec : t.contract.bind TaskContract.postprocess with
  | none => exact .throw
  | some spec =>
    refine Runs.lift_bind fun p hp => ?_
    obtain ⟨-, hprogress, hpending⟩ := checkPending_eq_ok hp
    refine (runs_putTask (Q := fun _ d₃ => d₃.store = d.store.put
      (t.withProgress { p with phase := .started run now })) trivial
      fun _ h => h).bind ?_
    intro _ d₃ _ hd₃
    exact .pure ⟨t, p, hfind, Decidable.not_not.1 hrunning, hspec,
      hprogress, hpending, now, hd₃⟩

namespace Begun

variable {s s' : Store} {run : UInt32} {spec : PostprocessSpec}
  {p : PostprocessProgress}

theorem typed (h : Begun s s' id run spec t p) : t.isTyped = true := by
  obtain ⟨contract, hcontract, -⟩ := Option.bind_eq_some_iff.1 h.spec
  unfold Task.isTyped
  rw [hcontract]
  rfl

theorem rank (h : Begun s s' id run spec t p) : t.rank = 2 * run.toNat := by
  obtain ⟨notBefore, hphase⟩ := h.pending
  unfold Task.rank
  rw [h.progress]
  dsimp only
  rw [hphase]
  rfl

/-- In the attempt `n` the run has started: the postprocess is past it. -/
theorem onward (h : Begun s s' id run spec t p) (hs : s.UniqueIds)
    (hn : t.number = some n) : s'.InAttempt id n
      ∧ s'.Onward id (2 * run.toNat + 1) False := by
  obtain ⟨now, rfl⟩ := h.left
  obtain ⟨hunique, hfind⟩ := hs.find_put
    (u := t.withProgress { p with phase := .started run now })
    h.found rfl rfl
  have hsome : t.attempt.isSome = true := by
    have hp := h.progress
    unfold Task.progress at hp
    cases hattempt : t.attempt with
    | none =>
      rw [hattempt] at hp
      cases hp
    | some a => rfl
  refine ⟨⟨_, hfind, h.typed, ?_⟩, hunique, fun u hu => ?_⟩
  · rw [number_withProgress, hn]
  · obtain rfl := Option.some.inj (hfind.symm.trans hu)
    refine ⟨?_, fun h => h.elim⟩
    unfold Task.rank
    rw [progress_withProgress hsome]
    exact Nat.le_refl _

end Begun

variable {run : UInt32}

/-- A begin that succeeds starts the run after those that failed, one that
the declaration allows. -/
theorem begin_counted [TaskHost] [ReportDigest]
    (hd : ReachableStore (fun _ o => o.isWhole = true) d) {s' : Store}
    (h : Begun d.store s' id run spec t p) :
    p.failedRuns.map PostprocessRunSummary.run
        = (List.range (run.toNat - 1)).map (fun i => UInt32.ofNat (i + 1))
      ∧ 1 ≤ run.toNat ∧ run.toNat ≤ spec.maxRuns.toNat := by
  obtain ⟨contract, hcontract, hspec⟩ := Option.bind_eq_some_iff.1 h.spec
  obtain ⟨notBefore, hphase⟩ := h.pending
  have hcounted := (counted_of_reachable hd d.store List.mem_cons_self t
    (Store.mem_of_find h.found).1 contract spec hcontract hspec).2 p
      h.progress
  have hrun := hcounted.current run (by rw [hphase]; rfl)
  have hroom := hcounted.room
  refine ⟨?_, by omega, by omega⟩
  rw [hcounted.failed, hrun, Nat.add_sub_cancel]

-- ==== the end

section Ends

variable [TaskHost] {U : Usage} {completion : Completion} {now : UInt64}

/-- On the way the record of the task is replaced by one that does not
run. -/
def EndsWithin (U : Usage) (d d' : TaskDisk) (id : TaskId) : Prop :=
  ∃ d₁ t u, Evolves (Write U) d d₁ ∧ Evolves (Write U) d₁ d'
    ∧ d.store.find id = some t ∧ d₁.store = d.store.put u
    ∧ SameDef t u ∧ u.state ≠ .running

/-- From there on it does not run. -/
theorem EndsWithin.onward (h : EndsWithin U d d' id)
    (hs : d.store.UniqueIds) : ∃ d₁ : TaskDisk, Evolves (Write U) d d₁
      ∧ Evolves (Write U) d₁ d' ∧ d₁.store.Onward id 0 True := by
  obtain ⟨d₁, t, u, hev, hev', hfind, hput, hsame, hstate⟩ := h
  obtain ⟨hunique, hfound⟩ := hs.find_put hfind hsame.id hsame.slot
  rw [← hput] at hunique hfound
  refine ⟨d₁, hev, hev', hunique, fun v hv => ⟨Nat.zero_le _, fun _ => ?_⟩⟩
  obtain rfl := Option.some.inj (hfound.symm.trans hv)
  exact hstate

variable [ReportDigest]

/-- The end of an attempt is an end. -/
theorem completed_not_running (s : Store) (u : Task)
    (hlost : ∀ reason, completion.outcome ≠ .lost reason) :
    (u.completed s completion.outcome.state completion.digest now).state
      ≠ .running := by
  have hends : ∀ requested : TaskState, requested.isTerminal = true →
      requested ≠ .cancelled → requested ≠ .skipped →
      (u.completed s requested completion.digest now).state ≠ .running := by
    intro requested hend hcancel hskip
    have hstate : (u.completed s requested completion.digest now).state
          = .succeeded
        ∨ ∃ error, (u.completed s requested completion.digest now).state
          = .failed error := state_completed hend hcancel hskip
    rcases hstate with h | ⟨error, h⟩
    · rw [h]
      exact fun h => by cases h
    · rw [h]
      exact fun h => by cases h
  cases houtcome : completion.outcome with
  | lost reason => exact absurd houtcome (hlost reason)
  | succeeded | failed error =>
    exact hends _ rfl (fun h => by cases h) fun h => by cases h

theorem runs_endAttempt (hfind : d.store.find id = some t)
    (htyped : t.isTyped = true) (hrunning : t.state = .running)
    (hu : Reported t u) (hlost : ∀ reason, completion.outcome ≠ .lost reason) :
    Runs (Write U) (endAttempt u completion now) d fun _ d' =>
      EndsWithin U d d' id := by
  unfold endAttempt
  refine Runs.read_bind ?_
  have hchange : Change U d.store t (u.completed d.store
      completion.outcome.state completion.digest now) :=
    change_completed htyped hrunning hu hlost
  have hstate : (u.completed d.store completion.outcome.state
      completion.digest now).state ≠ .running :=
    completed_not_running d.store u hlost
  refine (runs_putTask (Q := fun _ d₁ => d₁.store = _)
    (.change (Store.mem_of_find hfind).1 hchange) fun _ h => h).bind ?_
  intro _ d₁ hev₁ hput₁
  refine Runs.bind (P := fun _ _ => True) (propagate_writes now _ d₁) ?_
  intro _ d₂ hev₂ _
  exact .pure ⟨d₁, t, _, hev₁, hev₂, hfind, hput₁, hchange.sameDef, hstate⟩

omit [ReportDigest] in
theorem runs_keepRunning_state {again : Bool} :
    Runs (fun _ _ => True) (keepRunning t p again) d fun step _ =>
      ∀ r, step = .continue r → r.task.state = t.state := by
  unfold keepRunning
  cases again with
  | true =>
    refine .pure fun r hr => ?_
    cases hr
    rfl
  | false =>
    refine (runs_putTask (Q := fun _ _ => True) trivial
      fun _ _ => trivial).bind fun _ _ _ _ => .pure fun r hr => ?_
    cases hr
    rfl

theorem runs_postprocessStep_state :
    Runs (fun _ _ => True) (postprocessStep t completion now) d
      fun step _ => ∀ r, step = .continue r → r.task.state = t.state := by
  have hskip : ∀ step : PostprocessStep, (∀ r, step ≠ .continue r) →
      Runs (fun _ _ => True) (pure step : TaskProg PostprocessStep) d
        fun step _ => ∀ r, step = .continue r → r.task.state = t.state :=
    fun step hstep => .pure fun r hr => absurd hr (hstep r)
  unfold postprocessStep
  cases t.contract with
  | none => exact hskip _ fun _ h => by cases h
  | some contract =>
    dsimp only
    cases contract.postprocess with
    | none => exact hskip _ fun _ h => by cases h
    | some spec =>
      dsimp only
      cases completion.postprocess with
      | none =>
        unfold mainReport
        cases t.attempt.bind TaskAttempt.postprocess with
        | none =>
          dsimp only
          cases completion.outcome with
          | succeeded =>
            exact Runs.ite (fun _ => hskip _ fun _ h => by cases h)
              fun _ => runs_keepRunning_state
          | failed error | lost reason => exact hskip _ fun _ h => by cases h
        | some p =>
          exact Runs.ite (fun _ => runs_keepRunning_state)
            fun _ => .throw
      | some report =>
        unfold postprocessReport
        cases t.attempt.bind TaskAttempt.postprocess with
        | none => exact .throw
        | some p =>
          dsimp only
          refine Runs.ite (fun _ => Runs.ite
            (fun _ => runs_keepRunning_state) fun _ => .throw)
            fun _ => Runs.ite (fun _ => .throw) fun _ => ?_
          cases nextRun spec report with
          | some run => exact runs_keepRunning_state
          | none => exact hskip _ fun _ h => by cases h

theorem runs_completeRunning (hfind : d.store.find id = some t)
    (htyped : t.isTyped = true) (hrunning : t.state = .running) :
    Runs (Write U) (completeRunning t completion now) d fun r d' =>
      r.task.state ≠ .running → EndsWithin U d d' id := by
  have hmem := (Store.mem_of_find hfind).1
  have hfinish : (∀ reason, completion.outcome ≠ .lost reason) →
      Runs (Write U) (postprocessStep t completion now >>=
        afterPostprocess t completion now) d fun r d' =>
          r.task.state ≠ .running → EndsWithin U d d' id := by
    intro hlost
    have hstep : Runs (Write U) (postprocessStep t completion now) d
        fun step d' => StepLeaves t d.store step d'.store
          ∧ ∀ r, step = .continue r → r.task.state = t.state :=
      ⟨(runs_postprocessStep hmem hrunning).1, fun step hok =>
        ⟨(runs_postprocessStep (U := U) hmem hrunning).2 step hok,
          runs_postprocessStep_state.2 step hok⟩⟩
    refine hstep.bind ?_
    rintro step d' hev ⟨⟨hfinal, hskip⟩, hcontinue⟩
    have hend : ∀ {v : Task}, Reported t v → d'.store = d.store →
        Runs (Write U) (endAttempt v completion now) d' fun r d'' =>
          r.task.state ≠ .running → EndsWithin U d d'' id := by
      intro v hv hd'
      rw [← hd'] at hfind
      refine (runs_endAttempt hfind htyped hrunning hv hlost).weaken ?_
      rintro r d'' ⟨d₁, v, w, hev₁, hev₂, hfind₁, hput, hsame, hstate⟩ -
      rw [hd'] at hfind₁ hput
      exact ⟨d₁, v, w, hev.trans hev₁, hev₂, hfind₁, hput, hsame, hstate⟩
    cases step with
    | «continue» receipt =>
      refine .pure fun hnot => absurd ?_ hnot
      rw [hcontinue receipt rfl, hrunning]
    | finalize v =>
      obtain ⟨hd, hv⟩ := hfinal v rfl
      exact hend hv hd
    | notApplicable => exact hend (.main completion.result) (hskip rfl)
  unfold completeRunning
  cases houtcome : completion.outcome with
  | lost reason =>
    have hchange : Change U d.store t (t.lost (.unknown (some reason))) :=
      .lost _ hrunning
    refine (runs_putTask (Q := fun _ d₁ => d₁.store = _)
      (.change hmem hchange) fun _ h => h).bind ?_
    intro _ d₁ hev₁ hput₁
    exact .pure fun _ => ⟨d₁, t, _, hev₁, .refl d₁, hfind, hput₁,
      hchange.sameDef, fun h => by cases h⟩
  | succeeded =>
    rw [houtcome] at hfinish
    exact hfinish fun reason h => nomatch h
  | failed error =>
    rw [houtcome] at hfinish
    exact hfinish fun reason h => nomatch h

/-- A report is news to a v2 task only while it runs; one that is answered
with another state has ended the attempt. -/
theorem runs_completeTask (hfind : d.store.find id = some t)
    (htyped : t.isTyped = true) :
    Runs (Write U) (completeTask id completion now) d fun r d' =>
      r.duplicate = false → t.state = .running
        ∧ (r.task.state ≠ .running → EndsWithin U d d' id) := by
  unfold completeTask
  refine runs_fetchTask_bind fun v hv => ?_
  cases hv.symm.trans hfind
  refine Runs.ite (fun hv1 => absurd htyped (by simpa using hv1)) fun _ => ?_
  refine Runs.ite (fun _ => .throw) fun _ => ?_
  refine Runs.ite (fun _ => ?_) fun _ => ?_
  · unfold completeEnded
    cases t.attempt.bind TaskAttempt.completion with
    | none => exact .throw
    | some digest =>
      refine Runs.ite (fun _ => ?_) fun _ => .throw
      refine Runs.bind (P := fun _ _ => True) (propagate_writes now _ d) ?_
      exact fun _ _ _ _ => .pure fun h => by cases h
  · refine Runs.ite (fun _ => .throw) fun hrunning => ?_
    have hrunning := Decidable.not_not.1 hrunning
    exact (runs_completeRunning hfind htyped hrunning).weaken
      fun r d₁ hends _ => ⟨hrunning, hends⟩

end Ends

-- ==== the attempt

section Attempt

variable [TaskHost] [ReportDigest]

/-- A begin of the run succeeds. -/
def Begins (d d' : TaskDisk) (id : TaskId) (run : UInt32)
    (spec : PostprocessSpec) : Prop :=
  ∃ attemptId now outcomes orders r,
    beginPostprocessRun id attemptId run now (d.facing outcomes orders)
      = (.ok r, d') ∧ r.2.1 = spec

/-- A report that is news ends the attempt. -/
def Finalises (d d' : TaskDisk) (id : TaskId) : Prop :=
  ∃ completion now outcomes orders r,
    completeTask id completion now (d.facing outcomes orders) = (.ok r, d')
      ∧ r.duplicate = false ∧ r.task.state ≠ .running

omit [ReportDigest] in
theorem Begins.begun (h : Begins d d' id run spec) :
    ∃ t p, Begun d.store d'.store id run spec t p := by
  obtain ⟨attemptId, now, outcomes, orders, r, hrun, rfl⟩ := h
  have hbegun := (runs_begin id attemptId run now
    (d.facing outcomes orders)).2 r (by rw [hrun])
  rw [hrun] at hbegun
  exact hbegun

omit [ReportDigest] in
theorem not_begins {rank : Nat} {ended : Prop}
    (hd : d.store.Onward id rank ended)
    (hrank : 2 * run.toNat < rank) : ¬ Begins d d' id run spec := by
  intro h
  obtain ⟨t, p, hbegun⟩ := h.begun
  have hle := (hd.onward t hbegun.found).1
  rw [hbegun.rank] at hle
  omega

theorem Finalises.ends {U : Usage} (h : Finalises d d' id)
    (hin : d.store.InAttempt id n) : (∃ t, d.store.find id = some t
        ∧ t.state = .running)
      ∧ ∃ d₀ : TaskDisk, d₀.store = d.store ∧ d₀.stores = d.stores
        ∧ EndsWithin U d₀ d' id := by
  obtain ⟨completion, now, outcomes, orders, r, hrun, hnews, hended⟩ := h
  obtain ⟨t, hfind, htyped, -⟩ := hin
  have hruns : Runs (Write U) (completeTask id completion now)
      (d.facing outcomes orders) fun r d' => r.duplicate = false →
        t.state = .running
          ∧ (r.task.state ≠ .running →
            EndsWithin U (d.facing outcomes orders) d' id) :=
    runs_completeTask hfind htyped
  have hends := hruns.2 r (by rw [hrun]) hnews
  rw [hrun] at hends
  exact ⟨⟨t, hfind, hends.1⟩, d.facing outcomes orders, rfl, rfl,
    hends.2 hended⟩

/-- In every run of the store, with graphs stored as a whole: the runs of a
postprocess that failed are distinct, they are the first ones in turn; a
run that is begun is the one after them and within the bound; and in one
attempt, whatever is done in between, no run is begun twice, none is begun
once the postprocess is over, and the attempt is ended by one report. -/
theorem postprocess_runs
    (hd : ReachableStore (fun _ o => o.isWhole = true) d) :
    (∀ s ∈ d.stores, ∀ t ∈ s.list, ∀ contract spec p,
        t.contract = some contract → contract.postprocess = some spec →
        t.progress = some p → p.Counted spec
          ∧ (p.failedRuns.map PostprocessRunSummary.run).Nodup)
      ∧ ∀ id n, d.store.InAttempt id n →
        (∀ d₁ run spec, Begins d d₁ id run spec →
          (∃ t p, d.store.find id = some t ∧ t.progress = some p
            ∧ p.failedRuns.map PostprocessRunSummary.run
              = (List.range (run.toNat - 1)).map
                  fun i => UInt32.ofNat (i + 1))
          ∧ 1 ≤ run.toNat ∧ run.toNat ≤ spec.maxRuns.toNat
          ∧ ∀ d', AttemptRun id n d₁ d' →
            ∀ d₂ spec', ¬ Begins d' d₂ id run spec')
        ∧ (∀ t p run, d.store.find id = some t → t.progress = some p →
          p.phase = .finished run → ∀ d', AttemptRun id n d d' →
            ∀ d₂ run' spec', ¬ Begins d' d₂ id run' spec')
        ∧ ∀ d₁, Finalises d d₁ id →
          ∀ d', StoreRun (fun _ o => o.isWhole = true) d₁ d' →
            d.Since d' (fun s => s.InAttempt id n) →
            ∀ d₂, ¬ Finalises d' d₂ id := by
  have hunique := uniqueIds_of_reachable hd
  refine ⟨fun s hs t ht contract spec p hcontract hspec hp => ?_,
    fun id n hin => ⟨fun d₁ run spec hbegins => ?_,
      fun t p run hfind hp hphase d' hrun d₂ run' spec' => ?_,
      fun d₁ hfinal d' hrun hstays d₂ hagain => ?_⟩⟩
  · have hcounted := (counted_of_reachable hd s hs t ht contract spec
      hcontract hspec).2 p hp
    exact ⟨hcounted, hcounted.nodup⟩
  · obtain ⟨t, p, hbegun⟩ := hbegins.begun
    obtain ⟨hfailed, hone, hmax⟩ := begin_counted hd hbegun
    refine ⟨⟨t, p, hbegun.found, hbegun.progress, hfailed⟩, hone, hmax,
      fun d' hrun d₂ spec' => ?_⟩
    obtain ⟨v, hv, -, hn⟩ := hin
    obtain rfl := Option.some.inj (hv.symm.trans hbegun.found)
    obtain ⟨hin₁, honward⟩ := hbegun.onward hunique hn
    exact not_begins (hrun.onward hin₁ honward).2 (by omega)
  · have honward : d.store.Onward id (2 ^ 34) False := by
      refine ⟨hunique, fun v hv => ⟨?_, fun h => h.elim⟩⟩
      obtain rfl := Option.some.inj (hv.symm.trans hfind)
      unfold Task.rank
      rw [hp]
      dsimp only
      rw [hphase]
      exact Nat.le_refl _
    have hlt := run'.toNat_lt
    exact not_begins (hrun.onward hin honward).2 (by omega)
  · obtain ⟨-, d₀, hstore, hstores, hends⟩ :=
      hfinal.ends (U := wholeGraphs) hin
    rw [← hstore] at hunique hin
    obtain ⟨d₃, hev, hev', honward⟩ := hends.onward hunique
    have hrest := evolves_wholeGraphs hrun
    have hstays : d₀.Since d' fun s => s.InAttempt id n := by
      unfold Disk.Since at *
      rwa [hstores]
    obtain ⟨hin₃, hsince⟩ := hev.since (hev'.trans hrest) hin hstays
    obtain ⟨hin', honward'⟩ := honward.evolves hin₃ (hev'.trans hrest)
      trivial hsince
    obtain ⟨⟨t, hfind, hrunning⟩, -⟩ := hagain.ends (U := wholeGraphs) hin'
    exact (honward'.onward t hfind).2 trivial hrunning

end Attempt

end Runs

section Sample

local instance postprocessHost : TaskHost := sampleHost

local instance postprocessDigest : ReportDigest := sampleDigest

/-- A task with a postprocess that may be tried twice. -/
def sampleCounted : GraphTaskSpec :=
  { sampleTask "a" with
    postprocess := some
      { command := ["wc"], stdin := [], stdout := ⟨.text, none⟩
        timeoutMs := 1000, retry := some ⟨1, 0⟩ } }

def countedDisk : TaskDisk :=
  ((StoreOp.submit (sampleGraph [sampleCounted]) 0).run
    (TaskDisk.facing TaskDisk.initial [] [])).2

def countedRunning : TaskDisk :=
  ((StoreOp.setState "a" .running 1).run
    (TaskDisk.facing countedDisk [] [])).2

/-- The main work is done. -/
def countedReported : TaskDisk :=
  ((StoreOp.complete "a" ⟨none, { output := none }, .succeeded, none, false⟩
    2).run (TaskDisk.facing countedRunning [] [])).2

def countedBegun : TaskDisk :=
  (beginPostprocessRun "a" "a#1" 1 3
    (TaskDisk.facing countedReported [] [])).2

theorem postprocess_runs_counted :
    (∃ spec, Begins countedReported countedBegun "a" 1 spec)
      ∧ ∀ d', AttemptRun "a" 1 countedBegun d' →
        ∀ d₂ spec, ¬ Begins d' d₂ "a" 1 spec := by
  have hd : ReachableStore (fun _ o => o.isWhole = true) countedReported :=
    ((Relation.ReflTransGen.single (.op _
      (.submit (sampleGraph [sampleCounted]) 0) _ _ trivial rfl)).tail
      (.op countedDisk (.setState "a" .running 1) _ _ trivial rfl)).tail
      (.op countedRunning (.complete "a" _ 2) _ _ trivial rfl)
  have hin : countedReported.store.InAttempt "a" 1 := by
    have hany : (countedReported.store.find "a").any (fun t =>
        t.isTyped && t.number = some 1) = true := by decide +kernel
    obtain ⟨t, hfind, ht⟩ := (Option.any_eq_true _ _).1 hany
    simp only [Bool.and_eq_true, decide_eq_true_eq] at ht
    exact ⟨t, hfind, ht.1, ht.2⟩
  have hbegins : ∃ spec, Begins countedReported countedBegun "a" 1 spec := by
    have hok : (beginPostprocessRun "a" "a#1" 1 3
        (TaskDisk.facing countedReported [] [])).1.toOption.isSome = true := by
      decide +kernel
    cases hr : (beginPostprocessRun "a" "a#1" 1 3
        (TaskDisk.facing countedReported [] [])).1 with
    | error e =>
      rw [hr] at hok
      cases hok
    | ok r => exact ⟨r.2.1, "a#1", 3, [], [], r, Prod.ext hr rfl, rfl⟩
  refine ⟨hbegins, ?_⟩
  obtain ⟨spec, hbegins⟩ := hbegins
  exact (((postprocess_runs hd).2 "a" 1 hin).1 countedBegun 1 spec
    hbegins).2.2.2

end Sample

end Tasty.Agent
