/-
The postprocess runs of one attempt, whatever the store does in between:
each write that leaves the task in the attempt takes its postprocess on,
never back (`AttemptChange`), and its runs are counted as they go
(`Counted`). So a run is started at most once, and the attempt ends once.
-/
import Tasty.Agent.Changes

namespace Tasty.Agent

-- ==== one attempt

namespace Task

/-- Which attempt the task is in. -/
def number (t : Task) : Option UInt32 := t.attempt.map TaskAttempt.number

/-- How far its postprocess is. -/
def progress (t : Task) : Option PostprocessProgress :=
  t.attempt.bind TaskAttempt.postprocess

end Task

/-- The postprocess is over, without a report. -/
def PostprocessProgress.closed (p : PostprocessProgress) :
    PostprocessProgress :=
  { p with
    phase := match p.phase with
      | .pending run _ => .finished (run - 1)
      | .started run _ => .finished run
      | .finished run => .finished run }

/-- What a write does to the attempt of a task. -/
inductive AttemptChange (t u : Task) : Prop
  | kept : u.number = t.number → u.progress = t.progress →
      AttemptChange t u
  | closed : u.number = t.number →
      u.progress = t.progress.map PostprocessProgress.closed →
      AttemptChange t u
  /-- Another attempt is started. -/
  | started : u.number ≠ t.number → u.progress = none → AttemptChange t u
  | progressed {contract : TaskContract} {spec : PostprocessSpec}
      {p : PostprocessProgress} : u.number = t.number →
      t.contract = some contract → contract.postprocess = some spec →
      Progresses spec t.progress p → u.progress = some p →
      AttemptChange t u
  /-- The last run is reported. -/
  | ended {p q : PostprocessProgress} {run : UInt32} :
      u.number = t.number → t.progress = some p →
      p.phase.current = some run → u.progress = some q →
      q.failedRuns = p.failedRuns → q.phase = .finished run →
      AttemptChange t u

section Functions

variable {t u : Task}

theorem AttemptChange.of_attempt (h : u.attempt = t.attempt) :
    AttemptChange t u := by
  refine .kept ?_ ?_
  · unfold Task.number
    rw [h]
  · unfold Task.progress
    rw [h]

theorem number_closePhase (t : Task) : (closePhase t).number = t.number := by
  unfold closePhase Task.number
  dsimp only
  cases t.attempt <;> rfl

theorem progress_closePhase (t : Task) : (closePhase t).progress
    = t.progress.map PostprocessProgress.closed := by
  unfold closePhase Task.progress
  dsimp only
  cases t.attempt <;> rfl

theorem number_withProgress (t : Task) (p : PostprocessProgress) :
    (t.withProgress p).number = t.number := by
  unfold Task.withProgress Task.number
  dsimp only
  cases t.attempt <;> rfl

theorem progress_withProgress {p : PostprocessProgress}
    (h : t.attempt.isSome = true) : (t.withProgress p).progress = some p := by
  obtain ⟨a, ha⟩ := Option.isSome_iff_exists.1 h
  unfold Task.withProgress Task.progress
  dsimp only
  rw [ha]
  rfl

theorem attempt_settleTypedTerminal (t : Task) (requested : TaskState) :
    (settleTypedTerminal t requested).1.attempt = t.attempt := by
  unfold settleTypedTerminal
  split
  · rfl
  · cases requested with
    | succeeded =>
      dsimp only
      cases t.typedResult with
      | none => rfl
      | some r =>
        dsimp only
        split <;> rfl
    | failed error =>
      dsimp only
      split <;> rfl
    | _ => rfl

theorem attempt_arrive_running (h : t.isTyped = true) {now : UInt64} :
    (t.arrive .running now).attempt = nextAttempt t now := by
  unfold Task.arrive nextAttempt
  dsimp only
  rw [h]
  rfl

theorem number_arrive_running (h : t.isTyped = true) (now : UInt64) :
    (t.arrive .running now).number ≠ t.number := by
  unfold Task.number
  rw [attempt_arrive_running h]
  unfold nextAttempt
  rw [h]
  cases t.attempt with
  | none => exact fun h => by cases h
  | some a =>
    intro h
    have heq : a.number + 1 = a.number := Option.some.inj h
    simp at heq

/-- A start opens another attempt of a v2 task; an end closes the phase. -/
theorem attemptChange_arrive (t : Task) (state : TaskState) (now : UInt64) :
    AttemptChange t (t.arrive state now) := by
  have hclosed : ∀ v : Task, v.attempt = t.attempt → ∀ w : Task,
      w.attempt = (closePhase v).attempt → AttemptChange t w := by
    intro v hv w hw
    refine .closed ?_ ?_
    · have := number_closePhase v
      unfold Task.number at *
      rw [hw, this, hv]
    · have := progress_closePhase v
      unfold Task.progress at *
      rw [hw, this, hv]
  cases state with
  | running =>
    by_cases htyped : t.isTyped = true
    · refine .started (number_arrive_running htyped now) ?_
      unfold Task.progress
      rw [attempt_arrive_running htyped]
      unfold nextAttempt
      rw [htyped]
      rfl
    · refine .of_attempt ?_
      unfold Task.arrive nextAttempt
      dsimp only
      rw [if_pos (by simpa using htyped)]
      rfl
  | waiting => exact .of_attempt rfl
  | ready => exact .of_attempt rfl
  | unknown reason => exact .of_attempt rfl
  | succeeded | failed error | cancelled | skipped =>
    exact hclosed { t with finishedAt := some now } rfl _ rfl

theorem AttemptChange.of_eq {v : Task} (h : AttemptChange v u)
    (hattempt : v.attempt = t.attempt) (hcontract : v.contract = t.contract) :
    AttemptChange t u := by
  have hnumber : v.number = t.number := by
    unfold Task.number
    rw [hattempt]
  have hprogress : v.progress = t.progress := by
    unfold Task.progress
    rw [hattempt]
  cases h with
  | kept hn hp => exact .kept (hn.trans hnumber) (hp.trans hprogress)
  | closed hn hp =>
    rw [hprogress] at hp
    exact .closed (hn.trans hnumber) hp
  | started hn hp =>
    rw [hnumber] at hn
    exact .started hn hp
  | progressed hn hc hs hprogresses hp =>
    rw [hprogress] at hprogresses
    exact .progressed (hn.trans hnumber) (hcontract ▸ hc) hs hprogresses hp
  | ended hn hp hcurrent hq hfailed hphase =>
    exact .ended (hn.trans hnumber) (hprogress ▸ hp) hcurrent hq hfailed
      hphase

variable [TaskHost]

theorem attempt_recordResult (t : Task) (r : TaskResult) :
    (recordResult t r).attempt = t.attempt := by
  unfold recordResult
  cases t.contract <;> rfl

theorem attempt_settleRoute (s : Store) (t : Task) (state : TaskState) :
    (settleRoute s t state).1.attempt = t.attempt := by
  unfold settleRoute
  split
  · rfl
  · split <;> rfl

theorem attemptChange_moved (s : Store) (t : Task) (requested : TaskState)
    (now : UInt64) : AttemptChange t (t.moved s requested now) := by
  rw [moved_eq]
  refine (attemptChange_arrive _ _ now).of_eq ?_ ?_
  · rw [attempt_settleRoute, attempt_settleTypedTerminal]
  · exact ((sameDef_settleTypedTerminal t requested).trans
      (sameDef_settleRoute s _ _)).contract

theorem number_moved_running {s : Store} {now : UInt64}
    (h : t.isTyped = true) : (t.moved s .running now).number ≠ t.number := by
  have hmoved : t.moved s .running now = t.arrive .running now := by
    rw [moved_eq]
    unfold settleTypedTerminal settleRoute
    rw [h]
    rfl
  rw [hmoved]
  exact number_arrive_running h now

theorem attemptChange_reported (h : Reported t u) : AttemptChange t u := by
  cases h with
  | main result => exact .of_attempt (attempt_recordResult t result)
  | @postprocess contract spec p report dropped hcontract hspec hp hcurrent =>
    have hsome : t.attempt.isSome = true := by
      cases hattempt : t.attempt with
      | none =>
        rw [hattempt] at hp
        cases hp
      | some a => rfl
    unfold Task.postprocessed
    dsimp only
    refine .ended ?_ hp hcurrent (progress_withProgress hsome) ?_ rfl
    · exact number_withProgress t _
    · cases dropped <;> rfl

theorem attemptChange_completed (h : Reported t u) (s : Store)
    (requested : TaskState) (digest : String) (now : UInt64) :
    AttemptChange t (u.completed s requested digest now) := by
  have hattempt : ((settleRoute s (settleTypedTerminal u requested).1
      (settleTypedTerminal u requested).2).1).attempt = u.attempt := by
    rw [attempt_settleRoute, attempt_settleTypedTerminal]
  have hnumber : (u.completed s requested digest now).number = u.number := by
    rw [completed_eq]
    unfold Task.number
    dsimp only
    rw [hattempt]
    cases u.attempt <;> rfl
  have hprogress : (u.completed s requested digest now).progress
      = u.progress := by
    rw [completed_eq]
    unfold Task.progress
    dsimp only
    rw [hattempt]
    cases u.attempt <;> rfl
  cases attemptChange_reported h with
  | kept hn hp => exact .kept (hnumber.trans hn) (hprogress.trans hp)
  | closed hn hp => exact .closed (hnumber.trans hn) (hprogress.trans hp)
  | started hn hp =>
    rw [← hnumber] at hn
    exact .started hn (hprogress.trans hp)
  | progressed hn hc hs hprogresses hp =>
    exact .progressed (hnumber.trans hn) hc hs hprogresses
      (hprogress.trans hp)
  | ended hn hp hcurrent hq hfailed hphase =>
    exact .ended (hnumber.trans hn) hp hcurrent (hprogress.trans hq)
      hfailed hphase

end Functions

section Writes

variable [TaskHost] {U : Usage} {s s' : Store} {t u : Task}

/-- What each write of a record does to its attempt. -/
theorem Change.attempt (h : Change U s t u) : AttemptChange t u := by
  cases h with
  | moved now => exact attemptChange_moved s t _ now
  | record result => exact .of_attempt (attempt_recordResult t result)
  | complete digest now _ _ hreported =>
    exact attemptChange_completed hreported s _ digest now
  | lost reason =>
    refine .closed (number_closePhase _) (progress_closePhase _)
  | progress p _ hcontract hspec hp =>
    cases hattempt : t.attempt with
    | none =>
      refine .of_attempt ?_
      unfold Task.withProgress
      dsimp only
      rw [hattempt]
      rfl
    | some a =>
      refine .progressed (number_withProgress t p) hcontract hspec hp
        (progress_withProgress ?_)
      rw [hattempt]
      rfl
  | _ => exact .of_attempt rfl

/-- Only a start makes a v2 task run, and that is another attempt. -/
theorem Change.not_running (h : Change U s t u) (htyped : t.isTyped = true)
    (hnot : t.state ≠ .running) (hnumber : u.number = t.number) :
    u.state ≠ .running := by
  cases h with
  | settle now _ _ htarget =>
    rcases settleTarget_cases htarget with rfl | rfl
    · exact fun h => by cases h
    · exact fun h => by cases h
  | advance _ htarget =>
    unfold TaskGraph.evaluateReadiness at htarget
    obtain ⟨r, -, rfl⟩ := Option.map_eq_some_iff.1 htarget
    cases r <;> exact fun h => by cases h
  | @moved requested now =>
    by_cases hsucceeded : requested = .succeeded
    · rw [hsucceeded]
      rcases state_moved_succeeded s t now with h | ⟨error, h⟩
      · rw [h]
        exact fun h => by cases h
      · rw [h]
        exact fun h => by cases h
    · rw [state_moved hsucceeded]
      intro hrunning
      rw [hrunning] at hnumber
      refine number_moved_running htyped hnumber
  | refuse => exact fun h => by cases h
  | record result =>
    rw [state_recordResult]
    exact hnot
  | complete digest now _ hrunning => exact absurd hrunning hnot
  | lost reason hrunning => exact absurd hrunning hnot
  | progress p hrunning => exact absurd hrunning hnot
  | note => exact hnot
  | reset => exact fun h => by cases h
  | release =>
    by_cases hready : t.state = .ready
    · rw [if_pos hready]
      exact fun h => by cases h
    · rw [if_neg hready]
      exact hnot
  | reserve => exact fun h => by cases h

end Writes

-- ==== the counting

/-- The runs that failed are the first ones, in turn; the run it is at comes
next, and there is room for it. -/
structure PostprocessProgress.Counted (p : PostprocessProgress)
    (spec : PostprocessSpec) : Prop where
  failed : p.failedRuns.map PostprocessRunSummary.run
    = (List.range p.failedRuns.length).map fun i => UInt32.ofNat (i + 1)
  room : p.failedRuns.length + 1 ≤ spec.maxRuns.toNat
  current : ∀ run, p.phase.current = some run →
    run.toNat = p.failedRuns.length + 1
  bounded : ∀ run, p.phase = .finished run →
    run.toNat ≤ p.failedRuns.length + 1

/-- A postprocess is allowed a run, and its runs are counted. -/
def Task.Counted (t : Task) : Prop :=
  ∀ contract spec, t.contract = some contract →
    contract.postprocess = some spec → 1 ≤ spec.maxRuns.toNat
      ∧ ∀ p, t.progress = some p → p.Counted spec

section Counting

variable {spec : PostprocessSpec} {p q : PostprocessProgress}

theorem nextRun_eq_some {report : PostprocessReport} {run : UInt32}
    (h : nextRun spec report = some run) :
    (∃ cause message, report.outcome = .failed cause message)
      ∧ report.run < spec.maxRuns ∧ run = report.run + 1 := by
  unfold nextRun at h
  cases hcause : report.cause with
  | none =>
    rw [hcause] at h
    cases h
  | some cause =>
    rw [hcause] at h
    dsimp only at h
    by_cases hnext : (cause.retryable && report.run < spec.maxRuns) = true
    · rw [if_pos hnext] at h
      obtain ⟨-, hlt⟩ := (Bool.and_eq_true _ _).mp hnext
      refine ⟨?_, of_decide_eq_true hlt, (Option.some.inj h).symm⟩
      unfold PostprocessReport.cause at hcause
      cases houtcome : report.outcome with
      | collected stdout =>
        rw [houtcome] at hcause
        cases hcause
      | failed cause message => exact ⟨cause, message, rfl⟩
    · rw [if_neg hnext] at h
      cases h

theorem toNat_succ {run bound : UInt32} (h : run < bound) :
    (run + 1).toNat = run.toNat + 1 := by
  have hlt := UInt32.lt_iff_toNat_lt.1 h
  have hbound := bound.toNat_lt
  rw [UInt32.toNat_add, Nat.mod_eq_of_lt]
  · rfl
  · show run.toNat + 1 < 2 ^ 32
    omega

theorem PostprocessProgress.Counted.closed (h : p.Counted spec) :
    p.closed.Counted spec where
  failed := h.failed
  room := h.room
  current run hrun := by
    unfold PostprocessProgress.closed at hrun
    dsimp only at hrun
    cases hphase : p.phase <;> rw [hphase] at hrun <;> cases hrun
  bounded run hrun := by
    unfold PostprocessProgress.closed at hrun ⊢
    dsimp only at hrun ⊢
    cases hphase : p.phase with
    | pending r notBefore =>
      rw [hphase] at hrun
      cases hrun
      have hr := h.current r (by rw [hphase]; rfl)
      have hone : (1 : UInt32) ≤ r := UInt32.le_iff_toNat_le.2 (by
        show 1 ≤ r.toNat
        omega)
      rw [UInt32.toNat_sub_of_le _ _ hone]
      show r.toNat - 1 ≤ _
      omega
    | started r startedAt =>
      rw [hphase] at hrun
      obtain rfl : r = run := PostprocessPhase.finished.inj hrun
      exact Nat.le_of_eq (h.current r (by rw [hphase]; rfl))
    | finished r =>
      rw [hphase] at hrun
      obtain rfl : r = run := PostprocessPhase.finished.inj hrun
      exact h.bounded r hphase

theorem Progresses.counted {o : Option PostprocessProgress}
    (h : Progresses spec o p) (hruns : 1 ≤ spec.maxRuns.toNat)
    (ho : ∀ q, o = some q → q.Counted spec) : p.Counted spec := by
  cases h with
  | main execution mainDigest now =>
    refine ⟨rfl, hruns, fun run hrun => ?_, fun run hrun => ?_⟩
    · cases hrun
      rfl
    · cases hrun
  | @retried q run report now hcurrent hnext =>
    have hq := ho q rfl
    obtain ⟨⟨cause, message, houtcome⟩, hlt, rfl⟩ := nextRun_eq_some hnext
    have hrun := hq.current _ hcurrent
    have hsucc := toNat_succ hlt
    have hbound := UInt32.lt_iff_toNat_lt.1 hlt
    have hfailed : (q.retried spec report (report.run + 1) now).failedRuns
        = q.failedRuns
          ++ [⟨report.run, report.exitCode, cause, message⟩] := by
      unfold PostprocessProgress.retried
      dsimp only
      rw [houtcome]
    have hlength : (q.retried spec report (report.run + 1)
        now).failedRuns.length = q.failedRuns.length + 1 := by
      rw [hfailed, List.length_append]
      rfl
    refine ⟨?_, ?_, fun r hr => ?_, fun r hr => ?_⟩
    · rw [hlength, hfailed, List.map_append, hq.failed, List.range_succ,
        List.map_append]
      refine congrArg (_ ++ ·) ?_
      refine congrArg (fun r => [r]) ?_
      dsimp only
      rw [← hrun, UInt32.ofNat_toNat]
    · omega
    · cases hr
      omega
    · cases hr
  | @started q run notBefore now hphase =>
    have hq := ho q rfl
    refine ⟨hq.failed, hq.room, fun r hr => ?_, fun r hr => ?_⟩
    · cases hr
      exact hq.current run (by rw [hphase]; rfl)
    · cases hr

/-- Whatever a write does, the runs stay counted. -/
theorem AttemptChange.counted {t u : Task} (h : AttemptChange t u)
    (hcontract : u.contract = t.contract) (ht : t.Counted) : u.Counted := by
  intro contract spec hc hspec
  obtain ⟨hruns, hp⟩ := ht contract spec (hcontract ▸ hc) hspec
  refine ⟨hruns, fun p hup => ?_⟩
  cases h with
  | kept _ hsame => exact hp p (hsame ▸ hup)
  | closed _ hclosed =>
    rw [hup] at hclosed
    obtain ⟨q, hq, rfl⟩ := Option.map_eq_some_iff.1 hclosed.symm
    exact (hp q hq).closed
  | started _ hnone =>
    rw [hnone] at hup
    cases hup
  | progressed _ hc' hspec' hprogresses hq =>
    rw [hcontract, hc'] at hc
    cases hc
    rw [hspec'] at hspec
    cases hspec
    rw [hq] at hup
    cases hup
    exact hprogresses.counted hruns hp
  | ended _ hq hcurrent hu hfailed hphase =>
    rw [hu] at hup
    cases hup
    have hcounted := hp _ hq
    have hrun := hcounted.current _ hcurrent
    refine ⟨?_, ?_, fun r hr => ?_, fun r hr => ?_⟩
    · rw [hfailed]
      exact hcounted.failed
    · rw [hfailed]
      exact hcounted.room
    · rw [hphase] at hr
      cases hr
    · rw [hphase] at hr
      cases hr
      rw [hfailed]
      exact Nat.le_of_eq hrun

end Counting

-- ==== the rank

/-- How far a postprocess is; it is never further than when it is over. -/
def PostprocessPhase.rank : PostprocessPhase → Nat
  | .pending run _ => 2 * run.toNat
  | .started run _ => 2 * run.toNat + 1
  | .finished _ => 2 ^ 34

def Task.rank (t : Task) : Nat :=
  match t.progress with
  | none => 0
  | some p => p.phase.rank

section Rank

variable {spec : PostprocessSpec} {p : PostprocessProgress}

theorem rank_le (phase : PostprocessPhase) : phase.rank ≤ 2 ^ 34 := by
  cases phase with
  | pending run notBefore =>
    have := run.toNat_lt
    show 2 * run.toNat ≤ 2 ^ 34
    omega
  | started run startedAt =>
    have := run.toNat_lt
    show 2 * run.toNat + 1 ≤ 2 ^ 34
    omega
  | finished run => exact Nat.le_refl _

theorem rank_closed (p : PostprocessProgress) :
    p.phase.rank ≤ p.closed.phase.rank := by
  have hover : ∃ run, p.closed.phase = .finished run := by
    unfold PostprocessProgress.closed
    dsimp only
    cases p.phase <;> exact ⟨_, rfl⟩
  obtain ⟨run, hrun⟩ := hover
  rw [hrun]
  exact rank_le _

theorem Progresses.rank {q : PostprocessProgress}
    (h : Progresses spec (some q) p) : q.phase.rank ≤ p.phase.rank := by
  cases h with
  | @retried _ run report now hcurrent hnext =>
    obtain ⟨-, hlt, rfl⟩ := nextRun_eq_some hnext
    have hsucc := toNat_succ hlt
    unfold PostprocessProgress.retried
    dsimp only
    show q.phase.rank ≤ 2 * (report.run + 1).toNat
    cases hphase : q.phase with
    | pending r notBefore =>
      rw [hphase] at hcurrent
      cases hcurrent
      show 2 * report.run.toNat ≤ _
      omega
    | started r startedAt =>
      rw [hphase] at hcurrent
      cases hcurrent
      show 2 * report.run.toNat + 1 ≤ _
      omega
    | finished r =>
      rw [hphase] at hcurrent
      cases hcurrent
  | @started _ run notBefore now hphase =>
    rw [hphase]
    show 2 * run.toNat ≤ 2 * run.toNat + 1
    omega

theorem AttemptChange.rank {t u : Task} (h : AttemptChange t u)
    (hnumber : u.number = t.number) : t.rank ≤ u.rank := by
  unfold Task.rank
  cases h with
  | kept _ hsame => rw [hsame]
  | closed _ hclosed =>
    rw [hclosed]
    cases t.progress with
    | none => exact Nat.le_refl _
    | some p => exact rank_closed p
  | started hother => exact absurd hnumber hother
  | progressed _ _ _ hprogresses hp =>
    rw [hp]
    cases hq : t.progress with
    | none => exact Nat.zero_le _
    | some q =>
      rw [hq] at hprogresses
      exact hprogresses.rank
  | ended _ _ _ hq _ hphase =>
    rw [hq]
    dsimp only
    rw [hphase]
    cases t.progress with
    | none => exact Nat.zero_le _
    | some p => exact rank_le p.phase

end Rank

-- ==== one write

section Arrival

variable [TaskHost] {U : Usage} {s s' : Store} {t u : Task}

variable {spec : PostprocessSpec}

omit [TaskHost] in
theorem room_of_checkSpec
    (h : checkSpec spec = .ok ()) : 1 ≤ spec.maxRuns.toNat := by
  unfold checkSpec at h
  dsimp only at h
  obtain ⟨-, h⟩ := guard_ok h
  obtain ⟨-, h⟩ := guard_ok h
  unfold PostprocessSpec.maxRuns
  cases hretry : spec.retry with
  | none => exact Nat.le_refl 1
  | some r =>
    rw [hretry] at h
    obtain ⟨_, hcheck, -⟩ := bind_ok h
    unfold checkRetry at hcheck
    obtain ⟨hbound, -⟩ := guard_ok hcheck
    have hle : r.maxRetries ≤ maxPostprocessRetries :=
      UInt32.not_lt.1 fun hlt => hbound (.inr hlt)
    have hlt : r.maxRetries < 11 := by
      refine UInt32.lt_of_le_of_lt hle ?_
      decide
    have hsucc := toNat_succ hlt
    show 1 ≤ (1 + r.maxRetries).toNat
    rw [UInt32.add_comm, hsucc]
    omega

variable {lookup : TaskId → Option Task}

theorem room_of_checkTask {place : String} {contract : TaskContract}
    (h : checkTask t place lookup = .ok ())
    (hcontract : t.contract = some contract)
    (hspec : contract.postprocess = some spec) : 1 ≤ spec.maxRuns.toNat := by
  unfold checkTask at h
  rw [hcontract] at h
  obtain ⟨_, h, -⟩ := bind_ok h
  unfold checkTaskContract at h
  cases hcheck : checkContract contract t.command t.onFailure lookup with
  | error f =>
    rw [hcheck] at h
    cases h
  | ok x =>
    unfold checkContract at hcheck
    dsimp only at hcheck
    obtain ⟨-, hcheck⟩ := guard_ok hcheck
    have hcheck := then_ok (then_ok (then_ok (then_ok (then_ok (then_ok (then_ok hcheck))))))
    rw [hspec] at hcheck
    unfold checkPostprocess at hcheck
    obtain ⟨_, hcheck, -⟩ := bind_ok hcheck
    exact room_of_checkSpec hcheck

theorem counted_of_check {place : String}
    (h : checkTask t place lookup = .ok ()) (hnone : t.attempt = none) :
    t.Counted := by
  intro contract spec hcontract hspec
  refine ⟨room_of_checkTask h hcontract hspec, fun p hp => ?_⟩
  unfold Task.progress at hp
  rw [hnone] at hp
  cases hp

/-- A task comes without an attempt, and with a postprocess that passed. -/
theorem Arrives.counted (h : Arrives U s u) : u.Counted := by
  cases h with
  | @create g id opts contract hnew hg =>
    have hchecked := hnew.checked
    unfold checkCreated at hchecked
    obtain ⟨_, hcheck, -⟩ := bind_ok hchecked
    have hcounted := counted_of_check (mapError_eq_ok hcheck) rfl
    exact hcounted
  | stage _ hplanned ht =>
    obtain ⟨existing, spec, now, hpassed⟩ := hplanned.passed
    obtain ⟨i, hcheck⟩ := hpassed.checkPlanned_ok ht
    obtain ⟨⟨gt, metadata, heq⟩, -, -⟩ := hpassed.isNew u ht
    unfold checkPlanned at hcheck
    dsimp only at hcheck
    have hcheck := then_ok (then_ok (then_ok (then_ok hcheck)))
    obtain ⟨_, hcheck, -⟩ := bind_ok hcheck
    refine counted_of_check (mapError_eq_ok hcheck) ?_
    rw [heq]
    rfl

theorem Write.find (h : Write U s s') (hs : s.UniqueIds)
    (hwhole : U.whole) {id : TaskId} (ht : s.find id = some t)
    (hu : s'.find id = some u) : u = t ∨ Change U s t u := by
  obtain ⟨htl, htid⟩ := Store.mem_of_find ht
  obtain ⟨hul, huid⟩ := Store.mem_of_find hu
  rcases h.mem_list hul with hul | ⟨v, hv, hchange⟩ | harrives
  · exact .inl (hs u hul t htl (huid.trans htid.symm))
  · have hvt := hs v hv t htl
      ((hchange.sameDef.id.symm.trans huid).trans htid.symm)
    exact .inr (hvt ▸ hchange)
  · refine absurd (htid.trans huid.symm) ?_
    cases harrives with
    | create opts contract hnew => exact hnew.isNew t htl
    | stage _ _ _ hfree => exact (hfree hwhole).2 t htl

/-- Whatever is written, the runs of every task are counted. -/
theorem Write.counted (h : Write U s s') (hs : ∀ t ∈ s.list, t.Counted) :
    ∀ u ∈ s'.list, u.Counted := by
  intro u hu
  rcases h.mem_list hu with hu | ⟨t, ht, hchange⟩ | harrives
  · exact hs u hu
  · exact hchange.attempt.counted hchange.sameDef.contract (hs t ht)
  · exact harrives.counted

end Arrival

-- ==== in an attempt

/-- The v2 task of the id is in the attempt. -/
def Store.InAttempt (s : Store) (id : TaskId) (n : UInt32) : Prop :=
  ∃ t, s.find id = some t ∧ t.isTyped = true ∧ t.number = some n

/-- A run of the store in which the task stays in the attempt. -/
structure AttemptRun [TaskHost] [ReportDigest] (id : TaskId) (n : UInt32)
    (d d' : TaskDisk) : Prop where
  run : StoreRun (fun _ o => o.isWhole = true) d d'
  stays : d.Since d' fun s => s.InAttempt id n

/-- The postprocess of the task is at least at `rank`, and the task has
ended if it had. -/
structure Store.Onward (s : Store) (id : TaskId) (rank : Nat)
    (ended : Prop) : Prop where
  unique : s.UniqueIds
  onward : ∀ t, s.find id = some t → rank ≤ t.rank
    ∧ (ended → t.state ≠ .running)

section Attempt

variable [TaskHost] {U : Usage} {s s' : Store} {d d' : TaskDisk}
  {id : TaskId} {n : UInt32} {rank : Nat} {ended : Prop}

theorem Write.onward (h : Write U s s') (hwhole : U.whole)
    (hin : s.InAttempt id n) (hin' : s'.InAttempt id n)
    (hs : s.Onward id rank ended) : s'.Onward id rank ended := by
  refine ⟨h.uniqueIds hwhole hs.unique, fun u hu => ?_⟩
  obtain ⟨t, ht, htyped, htn⟩ := hin
  obtain ⟨u', hu', -, hun⟩ := hin'
  obtain rfl : u = u' := Option.some.inj (hu.symm.trans hu')
  obtain ⟨hrank, hended⟩ := hs.onward t ht
  rcases h.find hs.unique hwhole ht hu with rfl | hchange
  · exact ⟨hrank, hended⟩
  · have hnumber := hun.trans htn.symm
    exact ⟨hrank.trans (hchange.attempt.rank hnumber), fun h =>
      hchange.not_running htyped (hended h) hnumber⟩

variable [ReportDigest]

omit [ReportDigest] in
/-- In an attempt everything goes on. -/
theorem Store.Onward.evolves (hd : d.store.Onward id rank ended)
    (hin : d.store.InAttempt id n) (h : Evolves (Write U) d d')
    (hwhole : U.whole) (hstays : d.Since d' fun s => s.InAttempt id n) :
    d'.store.InAttempt id n ∧ d'.store.Onward id rank ended :=
  h.keeps_since (fun _ _ hwrite hP hP' => hwrite.onward hwhole hP hP') hin hd
    hstays

theorem AttemptRun.onward (h : AttemptRun id n d d')
    (hin : d.store.InAttempt id n) (hd : d.store.Onward id rank ended) :
    d'.store.InAttempt id n ∧ d'.store.Onward id rank ended :=
  hd.evolves hin (evolves_wholeGraphs h.run) trivial h.stays

end Attempt

end Tasty.Agent
