/-
What `settle_waiting` judges stays as it was judged: when other tasks that
waited have been settled since, a verdict that was given is given again.
So a verdict depends neither on which of them come first nor on the order
of the hash map, where a fallback has one main task.
-/
import Tasty.Lib.Decisions
import Tasty.Agent.Changes

namespace Tasty.Agent

open List

-- ==== one task

/-- `u` is the task `t`, or `t` waited and has been settled since. -/
inductive Task.Ahead (t u : Task) : Prop
  | same : u = t → Task.Ahead t u
  | settled {next : TaskState} (skip : Option SkipReason) (now : UInt64) :
      t.state = .waiting → next = .ready ∨ next = .skipped →
      u = t.settledTo next skip now → Task.Ahead t u

namespace Task.Ahead

variable {t u : Task}

theorem refl (t : Task) : t.Ahead t := .same rfl

variable (h : t.Ahead u)

include h

theorem sameDef : SameDef t u := by
  cases h with
  | same h => rw [h]; exact .refl t
  | settled skip now _ _ h => rw [h]; exact ⟨rfl, rfl, rfl, rfl, rfl, rfl, rfl⟩

theorem reserved : u.reservedForFallback = t.reservedForFallback := by
  cases h with
  | same h => rw [h]
  | settled skip now _ _ h => rw [h]; rfl

theorem route : u.route = t.route := by
  cases h with
  | same h => rw [h]
  | settled skip now _ _ h => rw [h]; rfl

theorem fallbackOf : u.fallbackOf = t.fallbackOf := by
  unfold Task.fallbackOf
  rw [h.sameDef.metadata]

theorem state : t.state = .waiting ∨ u.state = t.state := by
  cases h with
  | same h => exact .inr (by rw [h])
  | settled _ _ hwait => exact .inl hwait

theorem isFailed : u.state.isFailed = t.state.isFailed := by
  cases h with
  | same h => rw [h]
  | settled skip now hwait hnext h =>
    rw [h, hwait]
    rcases hnext with rfl | rfl <;> rfl

/-- Only an end that there was is told. -/
theorem pathStatus :
    Agent.pathStatus t = .pending ∨ Agent.pathStatus u = Agent.pathStatus t := by
  cases h with
  | same h => exact .inr (by rw [h])
  | settled skip now hwait =>
    refine .inl ?_
    unfold Agent.pathStatus
    rw [hwait]

theorem controlStatus (target : TaskId) :
    Agent.controlStatus t target = .pending
      ∨ Agent.controlStatus u target = Agent.controlStatus t target := by
  unfold Agent.controlStatus
  rcases h.pathStatus with hp | hp
  · rw [hp]
    exact .inl rfl
  · rw [hp, h.route, h.sameDef.id]
    exact .inr rfl

omit h

end Task.Ahead

-- ==== the tallies

section Tallies

variable {t u : Task} {tally : PathTally}

theorem seeMerge_stays (h : t.Ahead u) :
    Stays (tally.seeMerge (pathStatus t)) (tally.seeMerge (pathStatus u)) := by
  rcases h.pathStatus with hp | hp
  · rw [hp]
    exact .none
  · rw [hp]
    exact .refl _

theorem controlReadiness_stays {sources sources' : List Task}
    (h : List.Forall₂ Task.Ahead sources sources') (target : TaskId) :
    Stays (controlReadiness sources target)
      (controlReadiness sources' target) := by
  refine Stays.map (Stays.foldlM_rel h (fun acc s s' hs => ?_) _)
  rcases hs.controlStatus target with hp | hp
  · rw [hp]
    exact .none
  · rw [hp]
    exact .refl _

end Tallies

-- ==== the graphs

/-- What the end of a fallback says of its main task: whether it stands in
for it, none while it is open. -/
def TaskState.standsIn : TaskState → Option Bool
  | .succeeded => some true
  | .failed _ | .cancelled | .skipped => some false
  | .waiting | .ready | .running | .unknown _ => none

/-- A graph of the same tasks, some of which have been settled since. -/
structure TaskGraph.Ahead (g g' : TaskGraph) : Prop where
  get : ∀ id, g.get id = none ∧ g'.get id = none
    ∨ ∃ t u, g.get id = some t ∧ g'.get id = some u ∧ t.Ahead u
  controls : ∀ id, List.Forall₂ Task.Ahead (g.controls id) (g'.controls id)
  values : ∀ u ∈ g'.values, ∃ t ∈ g.values, t.Ahead u
  covers : ∀ t ∈ g.values, ∃ u ∈ g'.values, t.Ahead u
  inactive : g'.inactive = g.inactive

/-- The fallbacks of what `t` depends on say the same. -/
def TaskGraph.FallbacksStay (g g' : TaskGraph) (t : Task) : Prop :=
  ∀ id ∈ t.dependsOn, ∀ m m', g.get id = some m → g'.get id = some m' →
    (g.fallbackState m).isSome = (g'.fallbackState m').isSome
      ∧ Stays ((g.fallbackState m).bind TaskState.standsIn)
        ((g'.fallbackState m').bind TaskState.standsIn)

namespace TaskGraph.Ahead

variable {g g' : TaskGraph} {t : Task}

/-- What is made of a task that is looked up. -/
theorem bind_get {β : Type} {f f' : Task → Option β} (h : g.Ahead g')
    (id : TaskId) (hf : ∀ t u, g.get id = some t → g'.get id = some u →
      t.Ahead u → Stays (f t) (f' u)) :
    Stays (g.get id >>= f) (g'.get id >>= f') := by
  rcases h.get id with ⟨hg, hg'⟩ | ⟨t, u, hg, hg', htu⟩
  · rw [hg, hg']
    exact .refl _
  · rw [hg, hg']
    exact hf t u hg hg' htu

/-- A search that the settling does not touch succeeds in both. -/
theorem find_isSome (h : g.Ahead g') {p : Task → Bool}
    (hp : ∀ t u, t.Ahead u → p u = p t) :
    (g.values.find? p).isSome = (g'.values.find? p).isSome := by
  rw [Bool.eq_iff_iff, List.find?_isSome, List.find?_isSome]
  constructor
  · rintro ⟨t, ht, hpt⟩
    obtain ⟨u, hu, htu⟩ := h.covers t ht
    exact ⟨u, hu, (hp t u htu).trans hpt⟩
  · rintro ⟨u, hu, hpu⟩
    obtain ⟨t, ht, htu⟩ := h.values u hu
    exact ⟨t, ht, (hp t u htu).symm.trans hpu⟩

theorem bindingFailed (h : g.Ahead g') (c : TaskContract) (failed : Bool)
    (b : String × InputBinding) :
    Stays (g.bindingFailed c failed b) (g'.bindingFailed c failed b) := by
  obtain ⟨field, b⟩ := b
  unfold TaskGraph.bindingFailed
  cases b with
  | literal v => exact .refl _
  | fromTask source convert =>
    refine h.bind_get _ fun t u _ _ htu => ?_
    rcases htu.state with hwait | hsame
    · rw [hwait]
      exact .none
    · rw [hsame]
      exact .refl _
  | oneOf sources convert =>
    refine Stays.bind (Stays.mapM fun s _ => ?_) fun states _ => .refl _
    refine h.bind_get _ fun t u _ _ htu => ?_
    rcases htu.state with hwait | hsame
    · rw [hwait]
      exact .none
    · rw [hsame]
      exact .refl _

theorem dataInputsFailed (h : g.Ahead g') (t : Task) :
    Stays (g.dataInputsFailed t) (g'.dataInputsFailed t) := by
  unfold TaskGraph.dataInputsFailed
  cases t.contract with
  | none => exact .refl _
  | some c => exact Stays.foldlM (fun acc b _ => h.bindingFailed c acc b) _

theorem reduceInputsEnded (h : g.Ahead g') (t : Task) :
    Stays (g.reduceInputsEnded t) (g'.reduceInputsEnded t) := by
  refine Stays.forM fun id _ => h.bind_get id fun t u _ _ htu => ?_
  rcases htu.state with hwait | hsame
  · rw [hwait]
    exact .none
  · rw [hsame]
    exact .refl _

/-- What a v1 task makes of a fallback. -/
def fallbackFailed (failed : Bool) : Option TaskState → Option Bool
  | some .succeeded => some failed
  | some (.failed _) | some .cancelled | some .skipped => some true
  | _ => none

theorem fallbackFailed_eq (failed : Bool) (o : Option TaskState) :
    fallbackFailed failed o = (o.bind TaskState.standsIn).map
      fun ok => if ok = true then failed else true := by
  cases o with
  | none => rfl
  | some state => cases state <;> rfl

variable {id : TaskId}

theorem dependencyFailed_eq {failed : Bool} {m : Task}
    (hm : g.get id = some m) :
    g.dependencyFailed failed id = m.state.standsIn.bind fun ok =>
      if ok = true then some failed
      else if m.onFailure.isFallback = true then
        ((g.fallbackState m).bind TaskState.standsIn).map
          fun ok => if ok = true then failed else true else some true := by
  unfold TaskGraph.dependencyFailed
  rw [hm]
  simp only [Option.bind_eq_bind, Option.bind_some]
  have hends := fallbackFailed_eq failed (g.fallbackState m)
  cases m.state with
  | failed error | cancelled | skipped => exact (if_congr Iff.rfl hends rfl)
  | _ => rfl

theorem dependencyFailed (h : g.Ahead g')
    (hfallbacks : g.FallbacksStay g' t) (failed : Bool)
    (hid : id ∈ t.dependsOn) :
    Stays (g.dependencyFailed failed id) (g'.dependencyFailed failed id) := by
  rcases h.get id with ⟨hm, -⟩ | ⟨m, u, hm, hu, hmu⟩
  · unfold TaskGraph.dependencyFailed
    rw [hm]
    exact .none
  rw [dependencyFailed_eq hm, dependencyFailed_eq hu, hmu.sameDef.onFailure]
  rcases hmu.state with hwait | hsame
  · rw [hwait]
    exact .none
  · rw [hsame]
    refine Stays.bind (.refl _) fun ok _ => Stays.ite (fun _ => .refl _)
      fun _ => Stays.ite (fun _ => ?_) fun _ => .refl _
    exact (hfallbacks id hid m u hm hu).2.map

theorem v1Readiness (h : g.Ahead g') (hfallbacks : g.FallbacksStay g' t) :
    Stays (g.v1Readiness t) (g'.v1Readiness t) := by
  refine Stays.bind (h.dataInputsFailed t) fun failed _ => ?_
  refine Stays.bind (h.reduceInputsEnded t) fun _ _ => ?_
  refine Stays.bind (Stays.foldlM (fun acc id hid =>
    h.dependencyFailed hfallbacks acc hid) failed) fun _ _ => .refl _

theorem fallbackCovers_eq (m : Task) :
    g.fallbackCovers m = if m.onFailure.isFallback = true then
        if (g.fallbackState m).isSome = true then
          (g.fallbackState m).bind TaskState.standsIn
        else if m.state.isFailed = true then none
        else some false else some false := by
  unfold TaskGraph.fallbackCovers
  by_cases hf : m.onFailure.isFallback = true
  · rw [if_pos hf, if_neg (by simp [hf])]
    cases g.fallbackState m with
    | none => rfl
    | some state => cases state <;> rfl
  · rw [if_neg hf, if_pos (by simp [hf])]

variable (h : g.Ahead g')

include h

theorem tallyDependency (hfallbacks : g.FallbacksStay g' t)
    (tally : PathTally) (hid : id ∈ t.dependsOn) :
    Stays (g.tallyDependency tally id) (g'.tallyDependency tally id) := by
  refine h.bind_get id fun m u hm hu hmu => ?_
  rcases hmu.pathStatus with hp | hp
  · rw [hp]
    exact .none
  have hcovers : Stays (g.fallbackCovers m) (g'.fallbackCovers u) := by
    obtain ⟨hsome, hstays⟩ := hfallbacks id hid m u hm hu
    rw [fallbackCovers_eq, fallbackCovers_eq, hmu.sameDef.onFailure, hsome,
      hmu.isFailed]
    refine Stays.ite (fun _ => ?_) fun _ => .refl _
    exact Stays.ite (fun _ => hstays) fun _ => .refl _
  rw [hp]
  cases Agent.pathStatus m with
  | unavailable source state =>
    dsimp only
    cases hc : g.fallbackCovers m with
    | none => exact .none
    | some covered =>
      rw [hcovers covered hc]
      exact .refl _
  | pending => exact .refl _
  | notSelected => exact .refl _
  | available => exact .refl _

theorem tallySource (acc : Bool × PathTally) (s : BindingSource) :
    Stays (g.tallySource acc s) (g'.tallySource acc s) := by
  obtain ⟨succeeded, tally⟩ := acc
  refine h.bind_get _ fun t u _ _ htu => ?_
  rcases htu.pathStatus with hp | hp
  · dsimp only
    rw [hp]
    exact .none
  · dsimp only
    rw [hp]
    exact .refl _

theorem tallyBinding (c : TaskContract) (tally : PathTally)
    (b : String × InputBinding) :
    Stays (g.tallyBinding c tally b) (g'.tallyBinding c tally b) := by
  obtain ⟨field, b⟩ := b
  unfold TaskGraph.tallyBinding
  cases b with
  | literal v => exact .refl _
  | fromTask source convert =>
    refine h.bind_get _ fun s u _ _ hsu => ?_
    rcases hsu.pathStatus with hp | hp
    · rw [hp]
      exact .none
    · rw [hp, hsu.sameDef.id]
      exact .refl _
  | oneOf sources convert =>
    refine Stays.bind (Stays.foldlM
      (fun acc s _ => h.tallySource acc s) _) fun _ _ => .refl _

theorem tallyReduceInput (tally : PathTally) (id : TaskId) :
    Stays (g.tallyReduceInput tally id) (g'.tallyReduceInput tally id) :=
  h.bind_get id fun _ _ _ _ htu => seeMerge_stays htu

theorem pathReadiness (hfallbacks : g.FallbacksStay g' t) (noControls : Bool) :
    Stays (g.pathReadiness t noControls) (g'.pathReadiness t noControls) := by
  refine Stays.bind (.refl _) fun c _ => ?_
  refine Stays.bind (Stays.foldlM (fun acc id hid =>
    h.tallyDependency hfallbacks acc hid) _) fun tally _ => ?_
  refine Stays.bind (Stays.foldlM (fun acc b _ =>
    h.tallyBinding c acc b) _) fun tally _ => ?_
  exact Stays.bind (Stays.foldlM (fun acc id _ =>
    h.tallyReduceInput acc id) _) fun _ _ => .refl _

theorem typedReadiness (hfallbacks : g.FallbacksStay g' t) :
    Stays (g.typedReadiness t) (g'.typedReadiness t) := by
  have hcontrols := h.controls t.id
  have hempty : (g'.controls t.id).isEmpty = (g.controls t.id).isEmpty := by
    rw [Bool.eq_iff_iff, isEmpty_iff_length_eq_zero,
      isEmpty_iff_length_eq_zero, hcontrols.length_eq]
  unfold TaskGraph.typedReadiness
  rw [hempty]
  refine Stays.ite (fun _ => h.pathReadiness hfallbacks true) fun _ => ?_
  cases hc : controlReadiness (g.controls t.id) t.id with
  | none => exact .none
  | some decided =>
    rw [controlReadiness_stays hcontrols t.id decided hc]
    cases decided with
    | some decided => exact .refl _
    | none => exact h.pathReadiness hfallbacks false

omit h

end TaskGraph.Ahead

-- ==== the target

/-- What a main task that has ended without failing says of its fallback. -/
def mainVerdict (main : Task) : Option Readiness :=
  if !main.state.isTerminal || main.state.isFailed then none
  else
    match pathStatus main with
    | .available | .notSelected => some .notSelected
    | _ => some (.unavailable
        (some (.upstreamUnavailable main.id main.state.name)))

/-- Where a verdict takes a task. -/
def Task.target (t : Task) : Readiness → Option (TaskState × Option SkipReason)
  | .ready => some (.ready, none)
  | .notSelected => some (.skipped, some .branchNotSelected)
  | .unavailable reason => (applyOnFailure t).map fun next =>
    (next, if next = .skipped then reason else none)

/-- A main task of the fallback `id`. -/
def Task.isMainOf (m : Task) (id : TaskId) : Bool :=
  m.onFailure.fallbackTask = some id

/-- The main tasks of `t` say the same of it. -/
def TaskGraph.MainsStay (g g' : TaskGraph) (t : Task) : Prop :=
  t.isTyped = true → ∀ m ∈ g.values, ∀ m' ∈ g'.values,
    m.isMainOf t.id = true → m'.isMainOf t.id = true →
      Stays ((mainVerdict m).bind t.target) ((mainVerdict m').bind t.target)

section Target

variable {g g' : TaskGraph} {t u w w' : Task}

theorem settleTarget_eq (g : TaskGraph) (t : Task) :
    settleTarget g t = (g.readiness t.id).bind t.target := by
  unfold settleTarget Task.target
  cases g.readiness t.id with
  | none => rfl
  | some r => cases r <;> rfl

theorem mainVerdict_ahead (h : t.Ahead u) :
    Stays (mainVerdict t) (mainVerdict u) := by
  rcases h.state with hwait | hsame
  · unfold mainVerdict
    rw [hwait]
    exact .none
  · rcases h.pathStatus with hp | hp
    · have hopen : t.state.isTerminal = false := by
        unfold pathStatus at hp
        cases hstate : t.state with
        | skipped =>
          rw [hstate] at hp
          dsimp only at hp
          split at hp <;> cases hp
        | succeeded => rw [hstate] at hp; cases hp
        | failed error => rw [hstate] at hp; cases hp
        | cancelled => rw [hstate] at hp; cases hp
        | _ => rfl
      unfold mainVerdict
      rw [hopen]
      exact .none
    · unfold mainVerdict
      rw [hsame, hp, h.sameDef.id]
      exact .refl _

theorem fallbackNotNeeded_eq (g : TaskGraph) (t : Task) :
    g.fallbackNotNeeded t
      = (g.values.find? fun m => m.isMainOf t.id).bind mainVerdict := by
  unfold TaskGraph.fallbackNotNeeded Task.isMainOf
  cases g.values.find? _ <;> rfl

/-- The verdict on a record depends on its definition. -/
theorem plainReadiness_congr (h : SameDef t w) :
    g.plainReadiness w = g.plainReadiness t := by
  unfold TaskGraph.plainReadiness TaskGraph.typedReadiness
    TaskGraph.pathReadiness TaskGraph.v1Readiness TaskGraph.dataInputsFailed
    TaskGraph.reduceInputsEnded
  rw [h.isTyped, h.id, h.contract, h.dependsOn, h.command]

theorem readiness_eq (hw : g.get t.id = some w) (h : SameDef t w) :
    g.readiness t.id = if g.inactive.contains t.id = true then none
      else if t.isTyped = true then
        (g.fallbackNotNeeded t).or (g.plainReadiness t)
      else g.plainReadiness t := by
  have hneeded : g.fallbackNotNeeded w = g.fallbackNotNeeded t := by
    rw [fallbackNotNeeded_eq, fallbackNotNeeded_eq, h.id]
  unfold TaskGraph.readiness
  rw [hw]
  dsimp only
  rw [h.isTyped, hneeded, plainReadiness_congr h]
  cases g.fallbackNotNeeded t <;> rfl

theorem TaskGraph.Ahead.dormant (h : g.Ahead g') (id : TaskId) :
    g'.dormantAsPendingFallback id = g.dormantAsPendingFallback id := by
  have hreserved : (g'.get id).any Task.reservedForFallback
      = (g.get id).any Task.reservedForFallback := by
    rcases h.get id with ⟨hg, hg'⟩ | ⟨t, u, hg, hg', htu⟩
    · rw [hg, hg']
    · rw [hg, hg']
      exact htu.reserved
  unfold TaskGraph.dormantAsPendingFallback
  rw [hreserved]
  refine congrArg _ ?_
  rw [Bool.eq_iff_iff, any_eq_true, any_eq_true]
  constructor
  · rintro ⟨u, hu, hopen⟩
    obtain ⟨t, ht, htu⟩ := h.values u hu
    refine ⟨t, ht, ?_⟩
    rwa [htu.sameDef.onFailure, htu.isFailed] at hopen
  · rintro ⟨t, ht, hopen⟩
    obtain ⟨u, hu, htu⟩ := h.covers t ht
    refine ⟨u, hu, ?_⟩
    rwa [htu.sameDef.onFailure, htu.isFailed]

theorem TaskGraph.Ahead.plainReadiness (h : g.Ahead g')
    (hfallbacks : g.FallbacksStay g' t) :
    Stays (g.plainReadiness t) (g'.plainReadiness t) := by
  unfold TaskGraph.plainReadiness
  rw [h.dormant]
  refine Stays.ite (fun _ => .refl _) fun _ => Stays.ite
    (fun _ => h.typedReadiness hfallbacks) fun _ => ?_
  cases hv : g.v1Readiness t with
  | none => exact .none
  | some state =>
    rw [h.v1Readiness hfallbacks state hv]
    exact .refl _

/-- Where a fallback that wakes up is judged its main tasks have failed. -/
theorem mainVerdict_of_awake (hawake : g.dormantAsPendingFallback t.id = false)
    (hu : u ∈ g.values) (hmain : u.isMainOf t.id = true) :
    mainVerdict u = none := by
  unfold TaskGraph.dormantAsPendingFallback at hawake
  have hnone := (Bool.or_eq_false_iff.1 hawake).2
  have hfailed := any_eq_false.1 hnone u hu
  unfold Task.isMainOf at hmain
  rw [hmain, Bool.true_and] at hfailed
  unfold mainVerdict
  have hf : u.state.isFailed = true := by simpa using hfailed
  rw [hf, Bool.or_true]
  rfl

theorem settleTarget_stays (h : g.Ahead g')
    (hfallbacks : g.FallbacksStay g' t) (hmains : g.MainsStay g' t)
    (hw : g.get t.id = some w) (hsame : SameDef t w)
    (hw' : g'.get t.id = some w') (hsame' : SameDef t w') :
    Stays (settleTarget g t) (settleTarget g' t) := by
  rw [settleTarget_eq, settleTarget_eq, readiness_eq hw hsame,
    readiness_eq hw' hsame', h.inactive]
  have hplain := h.plainReadiness hfallbacks
  by_cases hin : g.inactive.contains t.id = true
  · rw [if_pos hin]
    exact .none
  rw [if_neg hin, if_neg hin]
  by_cases htyped : t.isTyped = true
  · rw [if_pos htyped, if_pos htyped]
    rw [fallbackNotNeeded_eq, fallbackNotNeeded_eq]
    have hfinds := h.find_isSome (p := fun m => m.isMainOf t.id)
      fun m u hmu => by
        show u.isMainOf t.id = m.isMainOf t.id
        unfold Task.isMainOf
        rw [hmu.sameDef.onFailure]
    cases hfind : g.values.find? fun m => m.isMainOf t.id with
    | none =>
      rw [hfind] at hfinds
      rw [Option.isSome_eq_false_iff.1 hfinds.symm |>
        Option.isNone_iff_eq_none.1]
      exact Stays.bind hplain fun _ _ => .refl _
    | some m =>
      rw [hfind] at hfinds
      obtain ⟨m', hfind'⟩ := Option.isSome_iff_exists.1 hfinds.symm
      have hm := mem_of_find?_eq_some hfind
      have hmain := List.find?_some hfind
      have hm' := mem_of_find?_eq_some hfind'
      have hmain' := List.find?_some hfind'
      have hstays := hmains htyped m hm m' hm' hmain hmain'
      rw [hfind']
      dsimp only [Option.bind_some]
      cases hv : mainVerdict m with
      | some r =>
        intro b' hb'
        have heq : t.target r = some b' := hb'
        have hto := hstays b' (by rw [hv]; exact heq)
        obtain ⟨r', hr', htarget⟩ := Option.bind_eq_some_iff.1 hto
        rw [hr']
        exact htarget
      | none =>
        intro b hb
        obtain ⟨r, hr, htarget⟩ := Option.bind_eq_some_iff.1 hb
        have hr : g.plainReadiness t = some r := hr
        have hawake : g'.dormantAsPendingFallback t.id = false := by
          rw [h.dormant]
          unfold TaskGraph.plainReadiness at hr
          by_cases hd : g.dormantAsPendingFallback t.id = true
          · rw [if_pos hd] at hr
            cases hr
          · simpa using hd
        rw [mainVerdict_of_awake hawake hm' hmain']
        exact Option.bind_eq_some_iff.2 ⟨r, hplain r hr, htarget⟩
  · rw [if_neg htyped, if_neg htyped]
    exact Stays.bind hplain fun _ _ => .refl _

end Target

end Tasty.Agent
