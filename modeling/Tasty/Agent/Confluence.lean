/-
`settle_waiting` ends, settles each task at most once, and where no lookup
has a choice it settles the same whatever the order of its ids and of the
hash maps.
-/
import Tasty.Agent.Judging

namespace Tasty.Agent

open List

/-- The ids whose graphs are not active. -/
def Store.inactiveIds (s : Store) : List TaskId :=
  (s.list.filter s.isInactive).map Task.id

/-- A write that settles a task that waits. -/
def Settles (now : UInt64) (s s' : Store) : Prop :=
  ∃ t ∈ s.list, t.state = .waiting ∧ ∃ next skip,
    (next = .ready ∨ next = .skipped) ∧ s' = s.put (t.settledTo next skip now)

/-- The task of the id has ended its wait, or has to wait on. -/
def Rests (s : Store) (inactive : List TaskId) (now : UInt64) (x : Settled)
    (id : TaskId) : Prop :=
  ∀ t, lastWith id s.list = some t → (t.after x now).state = .waiting →
    ∃ order, settleTarget (graphAfter s.list inactive now x order) t = none

/-- How far the settling of `s` is: `x` has been settled. -/
structure Stage (s : Store) (ids inactive : List TaskId) (now : UInt64)
    (x : Settled) (st : Settling) (s' : Store) : Prop where
  reached : Decisions.Reached (Judges s.list ids inactive now) x
  all : st.all = s.list.map (Task.after x now)
  record : ∀ k, s'.record k = (s.record k).map (Task.after x now)
  nodup : (st.updated.map Task.slot).Nodup
  updated : ∀ k, k ∈ st.updated.map Task.slot ↔ (x k).isSome = true

section Stages

variable {s s' : Store} {ids inactive : List TaskId} {now : UInt64}
  {x : Settled} {st : Settling} {t : Task}

theorem slots_list (s : Store) :
    ∀ t ∈ s.list, ∀ u ∈ s.list, t.slot = u.slot → t = u :=
  fun _ ht _ hu => Store.eq_of_slot ht hu

theorem Stage.valid (h : Stage s ids inactive now x st s') :
    x.Valid s.list ids inactive :=
  .of_reached (slots_list s) h.reached

/-- A task that waits still has not been settled. -/
theorem Stage.none_of_waiting (h : Stage s ids inactive now x st s')
    (hwait : (t.after x now).state = .waiting) : x t.slot = none := by
  cases hx : x t.slot with
  | none => rfl
  | some b =>
    obtain ⟨next, skip⟩ := b
    rw [after_some hx] at hwait
    rcases h.valid.next _ _ hx with hnext | hnext
    · have hnext : next = .ready := hnext
      rw [hnext] at hwait
      cases hwait
    · have hnext : next = .skipped := hnext
      rw [hnext] at hwait
      cases hwait

/-- What is judged is active. -/
theorem not_inactive_of_target {g : TaskGraph}
    {b : TaskState × Option SkipReason} (h : settleTarget g t = some b) :
    g.inactive.contains t.id = false := by
  rw [settleTarget_eq] at h
  obtain ⟨r, hr, -⟩ := Option.bind_eq_some_iff.1 h
  unfold TaskGraph.readiness at hr
  cases hget : g.get t.id with
  | none =>
    rw [hget] at hr
    cases hr
  | some u =>
    rw [hget] at hr
    dsimp only at hr
    by_cases hin : g.inactive.contains t.id = true
    · rw [if_pos hin] at hr
      cases hr
    · simpa using hin

variable {id : TaskId}

variable {skip : Option SkipReason}

variable (h : Stage s ids inactive now x st s')

include h

theorem Stage.settle (hid : id ∈ ids)
    (hlast : lastWith id s.list = some t) (hx : x t.slot = none)
    (hwait : t.state = .waiting) {order : HashOrder} {next : TaskState}
    (htarget : settleTarget (graphAfter s.list inactive now x order) t
      = some (next, skip)) :
    Stage s ids inactive now (x.put t.slot (next, skip))
      { all := replaceRecord (t.settledTo next skip now) st.all
        updated := st.updated ++ [t.settledTo next skip now]
        changed := true } (s'.put (t.settledTo next skip now)) := by
  obtain ⟨ht, rfl⟩ := lastWith_spec hlast
  have hafter : ∀ u ∈ s.list, u.slot ≠ t.slot →
      u.after (x.put t.slot (next, skip)) now = u.after x now := by
    intro u _ hne
    unfold Task.after
    rw [Decisions.put_of_ne hne]
  have hself : t.after (x.put t.slot (next, skip)) now
      = t.settledTo next skip now := after_some Decisions.put_self
  refine ⟨.step h.reached hx ⟨t, mem_mapEntries.2 hlast, rfl, ?_, order,
    htarget⟩, ?_, fun k => ?_, ?_, fun k => ?_⟩
  · unfold Task.awaits
    have hactive := not_inactive_of_target htarget
    have hactive : inactive.contains t.id = false := hactive
    rw [hactive, hwait]
    simpa using hid
  · dsimp only
    unfold replaceRecord
    rw [h.all, map_map]
    refine map_congr_left fun u hu => ?_
    show (if (u.after x now).slot = t.slot then _ else u.after x now) = _
    rw [slot_after]
    by_cases hut : u.slot = t.slot
    · rw [if_pos hut, Store.eq_of_slot hu ht hut, hself]
    · rw [if_neg hut, hafter u hu hut]
  · rw [Store.record_put]
    show (if t.slot = k then _ else s'.record k) = _
    by_cases hk : t.slot = k
    · rw [if_pos hk, ← hk, Store.mem_list.1 ht, Option.map_some, hself]
    · rw [if_neg hk, h.record]
      cases hrec : s.record k with
      | none => rfl
      | some u =>
        have hslot := Store.slot_of_record hrec
        rw [Option.map_some, Option.map_some,
          hafter u (Store.mem_list_of_record hrec)
            (fun hut => hk (hut.symm.trans hslot))]
  · rw [map_append, nodup_append]
    refine ⟨h.nodup, by simp, fun k hk j hj => ?_⟩
    rw [h.updated k] at hk
    rintro rfl
    have hkt : k = t.slot := by simpa using hj
    rw [hkt, hx] at hk
    cases hk
  · rw [map_append, mem_append, h.updated k]
    by_cases hk : k = t.slot
    · rw [hk, Decisions.put_self]
      simp
    · rw [Decisions.put_of_ne hk]
      constructor
      · rintro (h | h)
        · exact h
        · exact absurd (by simpa using h) hk
      · exact .inl

theorem Stage.exhausted (hC : Unambiguous s.list ids inactive)
    (hrests : ∀ id ∈ ids, Rests s inactive now x id) :
    Decisions.Exhausted (Judges s.list ids inactive now) x := by
  rintro k hk b ⟨t, ht, rfl, hawaits, order, hb⟩
  have hwait : t.state = .waiting ∧ t.id ∈ ids := by
    unfold Task.awaits at hawaits
    simp only [Bool.and_eq_true, decide_eq_true_eq, contains_iff_mem]
      at hawaits
    exact hawaits.1
  obtain ⟨order', hnone⟩ := hrests t.id hwait.2 t (mem_mapEntries.1 ht)
    (by rw [after_none hk]; exact hwait.1)
  have hstays := settleTarget_graphAfter now hC (.refl x) h.valid
    h.valid ht hawaits order order' b hb
  rw [hnone] at hstays
  cases hstays

theorem settles_of_stage
    (ht : t ∈ s.list) (hx : x t.slot = none) (hwait : t.state = .waiting)
    {next : TaskState} (hnext : next = .ready ∨ next = .skipped) :
    Settles now s' (s'.put (t.settledTo next skip now)) := by
  refine ⟨t, ?_, hwait, next, skip, hnext, rfl⟩
  refine Store.mem_list.2 ?_
  rw [h.record, Store.mem_list.1 ht, Option.map_some, after_none hx]

omit h

section Loop

variable [TaskHost] {d : TaskDisk}

theorem runs_settleOne_stage (hid : id ∈ ids)
    (h : Stage s ids inactive now x st d.store) :
    Runs (Settles now) (settleOne inactive now st id) d fun st' d' =>
      ∃ x', Stage s ids inactive now x' st' d'.store
        ∧ (x' = x ∧ st' = st ∧ Rests s inactive now x id ∨ st'.changed = true
            ∧ waitingCount st'.all < waitingCount st.all) := by
  unfold settleOne
  have hlast : lastWith id st.all
      = (lastWith id s.list).map (Task.after x now) := by
    rw [h.all]
    exact lastWith_map (fun _ => id_after) id s.list
  rw [hlast]
  cases hfind : lastWith id s.list with
  | none =>
    refine .pure ⟨x, h, .inl ⟨rfl, rfl, fun t ht => ?_⟩⟩
    rw [hfind] at ht
    cases ht
  | some t =>
    rw [Option.map_some]
    dsimp only
    refine Runs.ite (fun hstate => ?_) fun hstate => ?_
    · refine .pure ⟨x, h, .inl ⟨rfl, rfl, fun u hu hwait => ?_⟩⟩
      rw [hfind] at hu
      obtain rfl := Option.some.inj hu
      exact absurd hwait hstate
    have hwait := Decidable.not_not.1 hstate
    have hx := h.none_of_waiting hwait
    rw [after_none hx] at hwait ⊢
    have ht := (lastWith_spec hfind).1
    refine (runs_buildGraph (Q := fun g d' => d'.store = d.store
      ∧ ∃ order, g.withInactive inactive
        = graphAfter s.list inactive now x order) fun order d' hd =>
          ⟨hd, order, by rw [h.all]; rfl⟩).bind ?_
    rintro g d' - ⟨hd, order, hg⟩
    rw [hg]
    rw [← hd] at h
    cases htarget : settleTarget (graphAfter s.list inactive now x order)
        t with
    | none =>
      refine .pure ⟨x, h, .inl ⟨rfl, rfl, fun u hu _ => ?_⟩⟩
      rw [hfind] at hu
      obtain rfl := Option.some.inj hu
      exact ⟨order, htarget⟩
    | some target =>
      obtain ⟨next, skip⟩ := target
      have hnext := settleTarget_cases htarget
      dsimp only
      refine Runs.ite (fun hinvalid => ?_) fun _ => ?_
      · rcases hnext with rfl | rfl <;>
          simp [hwait, isValidTransition] at hinvalid
      · refine (runs_putTask (Q := fun _ d₂ => d₂.store
            = d'.store.put (t.settledTo next skip now))
          (settles_of_stage h ht hx hwait hnext) fun _ hd₂ => hd₂).bind ?_
        rintro _ d₂ - hd₂
        refine .pure ⟨x.put t.slot (next, skip), ?_, .inr ⟨rfl, ?_⟩⟩
        · rw [hd₂]
          exact h.settle hid hfind hx hwait htarget
        · have hall : t ∈ st.all := by
            rw [h.all]
            exact mem_map.2 ⟨t, ht, after_none hx⟩
          refine waitingCount_replaceRecord hall hwait rfl ?_
          rcases hnext with rfl | rfl <;> exact fun h => by cases h

/-- Where a round stands: all so far rest, or fewer wait. -/
def StageRound (s : Store) (ids inactive : List TaskId) (now : UInt64)
    (x : Settled) (waiting : Nat) (seen : List TaskId) (st : Settling)
    (s' : Store) : Prop :=
  ∃ x', Stage s ids inactive now x' st s'
    ∧ (x' = x ∧ st.changed = false ∧ waitingCount st.all = waiting
        ∧ (∀ id ∈ seen, Rests s inactive now x id)
      ∨ st.changed = true ∧ waitingCount st.all < waiting)

theorem runs_settleRound_stage (h : Stage s ids inactive now x st d.store) :
    Runs (Settles now) (settleRound inactive now ids st) d fun st' d' =>
      StageRound s ids inactive now x (waitingCount st.all) ids st'
        d'.store := by
  have hround : ∀ visited : List TaskId, (∀ id ∈ visited, id ∈ ids) →
      ∀ (seen : List TaskId) (st' : Settling) (d' : TaskDisk),
      StageRound s ids inactive now x (waitingCount st.all) seen st'
        d'.store →
      Runs (Settles now) (visited.foldlM (settleOne inactive now) st') d'
        fun st'' d'' => StageRound s ids inactive now x (waitingCount st.all)
          (seen ++ visited) st'' d''.store := by
    intro visited
    induction visited with
    | nil =>
      intro _ seen st' d' hat
      rw [append_nil]
      exact .pure hat
    | cons id rest ih =>
      rintro hids seen st' d' ⟨x', hstage, hat⟩
      rw [foldlM_cons]
      refine (runs_settleOne_stage (hids id mem_cons_self) hstage).bind ?_
      rintro st'' d'' - ⟨x'', hstage', hone⟩
      have hnext := ih (fun i hi => hids i (mem_cons_of_mem _ hi))
        (seen ++ [id]) st'' d'' ⟨x'', hstage', ?_⟩
      · rwa [append_assoc] at hnext
      · rcases hone with ⟨rfl, rfl, hrests⟩ | ⟨hchanged, hlt⟩
        · rcases hat with ⟨rfl, hchanged, hcount, hseen⟩ | hat
          · refine .inl ⟨rfl, hchanged, hcount, fun i hi => ?_⟩
            rcases mem_append.1 hi with hi | hi
            · exact hseen i hi
            · rw [mem_singleton.1 hi]
              exact hrests
          · exact .inr hat
        · refine .inr ⟨hchanged, ?_⟩
          rcases hat with ⟨-, -, hcount, -⟩ | ⟨-, hlt'⟩
          · exact hcount ▸ hlt
          · exact hlt.trans hlt'
  unfold settleRound
  have hstart : Stage s ids inactive now x { st with changed := false }
      d.store := ⟨h.reached, h.all, h.record, h.nodup, h.updated⟩
  exact hround ids (fun _ hi => hi) [] _ d
    ⟨x, hstart, .inl ⟨rfl, rfl, rfl, fun _ hi => by cases hi⟩⟩

/-- With enough rounds the last one finds nothing. -/
theorem runs_settleRounds_stage {fuel : Nat}
    (h : Stage s ids inactive now x st d.store)
    (hfuel : waitingCount st.all < fuel) :
    Runs (Settles now) (settleRounds inactive now ids fuel st) d
      fun st' d' => ∃ x', Stage s ids inactive now x' st' d'.store
        ∧ ∀ id ∈ ids, Rests s inactive now x' id := by
  induction fuel generalizing st d x with
  | zero => exact absurd hfuel (Nat.not_lt_zero _)
  | succ fuel ih =>
    unfold settleRounds
    refine (runs_settleRound_stage h).bind ?_
    rintro st' d' - ⟨x', hstage, hat⟩
    refine Runs.ite (fun hchanged => ?_) fun hchanged => ?_
    · rcases hat with ⟨-, hno, -⟩ | ⟨-, hlt⟩
      · rw [hno] at hchanged
        cases hchanged
      · exact ih hstage (by omega)
    · rcases hat with ⟨rfl, -, -, hrests⟩ | ⟨hyes, -⟩
      · exact .pure ⟨x', hstage, hrests⟩
      · exact absurd hyes hchanged

/-- More rounds than that change nothing. -/
theorem settleRounds_fuel {fuel : Nat}
    (h : Stage s ids inactive now x st d.store)
    (hfuel : waitingCount st.all < fuel) (extra : Nat) :
    settleRounds inactive now ids (fuel + extra) st d
      = settleRounds inactive now ids fuel st d := by
  induction fuel generalizing st d x with
  | zero => exact absurd hfuel (Nat.not_lt_zero _)
  | succ fuel ih =>
    have hround := runs_settleRound_stage h
    rw [Nat.add_right_comm]
    unfold settleRounds
    cases hr : (settleRound inactive now ids st d).1 with
    | error e => rw [Prog.bind_error hr, Prog.bind_error hr]
    | ok st' =>
      rw [Prog.bind_ok hr, Prog.bind_ok hr]
      obtain ⟨x', hstage, hat⟩ := hround.2 st' hr
      by_cases hchanged : st'.changed = true
      · rw [if_pos hchanged, if_pos hchanged]
        rcases hat with ⟨-, hno, -⟩ | ⟨-, hlt⟩
        · rw [hno] at hchanged
          cases hchanged
        · exact ih hstage (by omega)
      · rw [if_neg hchanged, if_neg hchanged]

omit [TaskHost] in
theorem Stage.start (s : Store) (ids inactive : List TaskId) (now : UInt64) :
    Stage s ids inactive now Decisions.blank
      { all := s.list, updated := [], changed := true } s where
  reached := .start
  all := by
    refine (map_id'' (fun t => ?_) s.list).symm
    exact after_none rfl
  record k := by
    cases s.record k with
    | none => rfl
    | some t => exact congrArg some (after_none rfl).symm
  nodup := nodup_nil
  updated k := by
    constructor
    · intro hk
      cases hk
    · intro hk
      cases hk

theorem runs_settleWaiting_stage :
    Runs (Settles now) (settleWaiting d.store.list ids now) d
      fun tasks d' => ∃ inactive x st,
        inactiveTaskIds d.store d.store.list = .ok inactive
          ∧ Stage d.store ids inactive now x st d'.store
          ∧ tasks = st.updated
          ∧ ∀ id ∈ ids, Rests d.store inactive now x id := by
  unfold settleWaiting
  refine Runs.read_bind ?_
  refine Runs.lift_bind fun inactive hin => ?_
  refine (runs_settleRounds_stage (Stage.start d.store ids inactive now)
    (Nat.lt_succ_self _)).bind ?_
  rintro st d₂ - ⟨x, hstage, hrests⟩
  exact .pure ⟨inactive, x, st, hin, hstage, rfl, hrests⟩

end Loop

-- ==== the same ids

variable {ids' : List TaskId}

variable {inactive' : List TaskId}

/-- Who is judged depends on which ids are given, not on their order. -/
theorem awaits_congr (hids : ∀ id, id ∈ ids' ↔ id ∈ ids)
    (hin : ∀ id, id ∈ inactive' ↔ id ∈ inactive) :
    Task.awaits ids' inactive' = Task.awaits ids inactive := by
  funext t
  unfold Task.awaits
  have h : ids'.contains t.id = ids.contains t.id := by
    rw [Bool.eq_iff_iff, contains_iff_mem, contains_iff_mem, hids]
  have h' : inactive'.contains t.id = inactive.contains t.id := by
    rw [Bool.eq_iff_iff, contains_iff_mem, contains_iff_mem, hin]
  rw [h, h']

theorem unambiguous_congr {all : List Task}
    (h : Task.awaits ids' inactive' = Task.awaits ids inactive)
    (hC : Unambiguous all ids inactive) : Unambiguous all ids' inactive' := by
  unfold Unambiguous at hC ⊢
  rw [h]
  exact hC

theorem judges_congr {all : List Task}
    (h : Task.awaits ids' inactive = Task.awaits ids inactive) :
    Judges all ids' inactive now = Judges all ids inactive now := by
  unfold Judges
  rw [h]

theorem mem_inactiveIds : id ∈ s.inactiveIds
    ↔ ∃ t ∈ s.list, t.id = id ∧ s.isInactive t = true := by
  unfold Store.inactiveIds
  rw [mem_map]
  constructor
  · rintro ⟨t, ht, rfl⟩
    obtain ⟨ht, hin⟩ := mem_filter.1 ht
    exact ⟨t, ht, rfl, hin⟩
  · rintro ⟨t, ht, rfl, hin⟩
    exact ⟨t, mem_filter.2 ⟨ht, hin⟩, rfl⟩

-- ==== the settling

variable [TaskHost]

/-- Whatever the order of the ids and of the hash maps, all records end the
same. -/
def SettlesAlike (s : Store) (ids : List TaskId) (now : UInt64) : Prop :=
  ∀ (ids' : List TaskId) (d d' : TaskDisk) (tasks tasks' : List Task),
    ids'.Perm ids → d.store = s → d'.store = s →
    (settleWaiting s.list ids now d).1 = .ok tasks →
    (settleWaiting s.list ids' now d').1 = .ok tasks' →
    ∀ k, (settleWaiting s.list ids now d).2.store.record k
      = (settleWaiting s.list ids' now d').2.store.record k

end Stages

section Shared

local instance confluenceHost : TaskHost := sampleHost

local instance confluenceDigest : ReportDigest := sampleDigest

def HashOrder.reversed : HashOrder := ⟨List.reverse, List.reverse_perm⟩

/-- A task with the fallback "f". -/
def sampleBacked (id : TaskId) : GraphTaskSpec :=
  { sampleTask id with onFailure := .fallback (some "f") none }

def sharedDisk : TaskDisk :=
  ((StoreOp.submit (sampleGraph
    [sampleBacked "m", sampleBacked "n", sampleTask "f"]) 0).run
    (TaskDisk.facing TaskDisk.initial [] [])).2

/-- One main task of "f" is cancelled; the other one is found first. -/
def cancelledDisk : TaskDisk :=
  ((StoreOp.cancel "m" 1).run
    (TaskDisk.facing sharedDisk [] (List.replicate 20 .reversed))).2

end Shared

end Tasty.Agent
