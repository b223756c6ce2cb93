/-
The loop of `settle_waiting`: it writes what it judges, keeps its list in
step with the store, and stops only when no task that it was given can go
on or end.
-/
import Tasty.Agent.Writes

namespace Tasty.Agent

open List

variable {all : List Task} {t u : Task} {st : Settling} {d : TaskDisk}
  {ids : List TaskId}

-- ==== the list of it

theorem lastWith_spec {id : TaskId}     (h : lastWith id all = some t) : t ∈ all ∧ t.id = id := by
  unfold lastWith at h
  have hid := List.find?_some h
  exact ⟨mem_reverse.1 (mem_of_find?_eq_some h), of_decide_eq_true hid⟩

/-- The last record of an id is the v2 task, if there is one. -/
theorem lastWith_list {s : Store} (ht : t ∈ s.list)
    (htyped : t.isTyped = true) : lastWith t.id s.list = some t := by
  have hv2 : t ∈ s.v2.list := by
    unfold Store.list at ht
    rcases mem_append.1 ht with h | h
    · rw [Records.mem_list] at h
      rw [Records.isTyped_of_get h] at htyped
      cases htyped
    · exact h
  unfold lastWith Store.list
  rw [reverse_append, List.find?_append]
  cases hfind : s.v2.list.reverse.find? fun u => u.id = t.id with
  | none =>
    have := List.find?_eq_none.1 hfind t (mem_reverse.2 hv2)
    simp at this
  | some u =>
    have hid := List.find?_some hfind
    rw [decide_eq_true_eq] at hid
    have hu := mem_reverse.1 (mem_of_find?_eq_some hfind)
    rw [Records.mem_list] at hu hv2
    rw [hid, hv2] at hu
    exact hu.symm

theorem slot_replace {v : Task} :
    (if v.slot = u.slot then u else v).slot = v.slot := by
  by_cases h : v.slot = u.slot
  · rw [if_pos h, h]
  · rw [if_neg h]

theorem lastWith_replaceRecord (id : TaskId) (u : Task) (all : List Task) :
    lastWith id (replaceRecord u all)
      = (lastWith id all).map fun v => if v.slot = u.slot then u else v := by
  unfold lastWith replaceRecord
  rw [← map_reverse, List.find?_map]
  congr 2
  funext v
  have h := congrArg Prod.snd (slot_replace (u := u) (v := v))
  show decide ((if v.slot = u.slot then u else v).id = id) = _
  rw [show (if v.slot = u.slot then u else v).id = v.id from h]

theorem mem_replaceRecord {w : Task} (ht : t ∈ all) (hslot : t.slot = u.slot) :
    w ∈ replaceRecord u all ↔ w = u ∨ w ∈ all ∧ w.slot ≠ u.slot := by
  unfold replaceRecord
  rw [mem_map]
  constructor
  · rintro ⟨v, hv, rfl⟩
    by_cases h : v.slot = u.slot
    · rw [if_pos h]
      exact .inl rfl
    · rw [if_neg h]
      exact .inr ⟨hv, h⟩
  · rintro (rfl | ⟨hw, hne⟩)
    · exact ⟨t, ht, if_pos hslot⟩
    · exact ⟨w, hw, if_neg hne⟩

theorem waitingCount_replaceRecord (ht : t ∈ all) (hwait : t.state = .waiting) (hslot : t.slot = u.slot)
    (hu : u.state ≠ .waiting) :
    waitingCount (replaceRecord u all) < waitingCount all := by
  have hle : ∀ l : List Task,
      waitingCount (replaceRecord u l) ≤ waitingCount l := by
    intro l
    unfold waitingCount replaceRecord
    rw [countP_map]
    refine countP_mono_left fun v _ hv => ?_
    by_cases h : v.slot = u.slot
    · simp [h, hu] at hv
    · simpa [h] using hv
  obtain ⟨before, after, rfl⟩ := append_of_mem ht
  have hb := hle before
  have ha := hle after
  unfold waitingCount replaceRecord at *
  simp only [map_append, map_cons, countP_append, countP_cons, hslot, hwait, hu,
    if_true, decide_true, decide_false] at *
  simp only [Bool.false_eq_true, if_false]
  omega

@[simp] theorem isInactive_put (s : Store) (u t : Task) :
    (s.put u).isInactive t = s.isInactive t := by
  unfold Store.isInactive Store.isActive
  rw [Store.graphs_put]

/-- The list agrees with the store. -/
structure Settling.Agrees (st : Settling) (inactive : List TaskId)
    (s : Store) : Prop where
  all : ∀ t, t ∈ st.all ↔ t ∈ s.list
  inactive : ∀ id, id ∈ inactive ↔
    ∃ t ∈ s.list, t.id = id ∧ s.isInactive t = true
  typed : ∀ t ∈ st.all, t.isTyped = true → lastWith t.id st.all = some t

theorem Settling.Agrees.replace {st' : Settling}
    {inactive : List TaskId} {s : Store}
    (h : st.Agrees inactive s) (ht : t ∈ st.all) (hslot : u.slot = t.slot)
    (hgraph : u.graphId = t.graphId) (hall : st'.all = replaceRecord u st.all) :
    st'.Agrees inactive (s.put u) where
  all := by
    intro w
    rw [hall, mem_replaceRecord ht hslot.symm, Store.mem_list_put, h.all]
  inactive := by
    intro id
    rw [h.inactive]
    constructor
    · rintro ⟨v, hv, hid, hin⟩
      by_cases hvs : v.slot = u.slot
      · have hvt : v = t :=
          Store.eq_of_slot hv ((h.all t).1 ht) (hvs.trans hslot)
        refine ⟨u, Store.mem_list_put.2 (.inl rfl), ?_, ?_⟩
        · exact (congrArg Prod.snd hvs).symm.trans hid
        · rw [isInactive_put]
          unfold Store.isInactive at hin ⊢
          rwa [hgraph, ← hvt]
      · exact ⟨v, Store.mem_list_put.2 (.inr ⟨hv, hvs⟩), hid,
          (isInactive_put s u v).trans hin⟩
    · rintro ⟨v, hv, hid, hin⟩
      rw [isInactive_put] at hin
      rcases Store.mem_list_put.1 hv with rfl | ⟨hv, -⟩
      · refine ⟨t, (h.all t).1 ht, ?_, ?_⟩
        · exact (congrArg Prod.snd hslot).symm.trans hid
        · unfold Store.isInactive at hin ⊢
          rwa [hgraph] at hin
      · exact ⟨v, hv, hid, hin⟩
  typed := by
    intro w hw htyped
    rw [hall] at hw ⊢
    rw [lastWith_replaceRecord]
    rcases (mem_replaceRecord ht hslot.symm).1 hw with rfl | ⟨hw, hne⟩
    · have hid : w.id = t.id := congrArg Prod.snd hslot
      have ht' : t.isTyped = true := (congrArg Prod.fst hslot).symm.trans
        htyped
      rw [hid, h.typed t ht ht', Option.map_some, if_pos hslot.symm]
    · rw [h.typed w hw htyped, Option.map_some, if_neg hne]

-- ==== the rounds

/-- The v2 task of an id, if it waits, was judged on the store as it is,
and has to wait. -/
def Store.Judged (s : Store) (id : TaskId) : Prop :=
  ∀ t ∈ s.list, t.isTyped = true → t.id = id → t.state = .waiting →
    ∃ g : TaskGraph, g.IsOf s ∧ settleTarget g t = none

theorem settleTarget_cases {g : TaskGraph} {next : TaskState}
    {skip : Option SkipReason} (h : settleTarget g t = some (next, skip)) :
    next = .ready ∨ next = .skipped := by
  unfold settleTarget at h
  split at h
  · cases h
  · cases h
    exact .inl rfl
  · cases h
    exact .inr rfl
  · obtain ⟨state, hstate, h⟩ := Option.map_eq_some_iff.1 h
    cases h
    unfold applyOnFailure at hstate
    cases honFailure : t.onFailure with
    | abort =>
      rw [honFailure] at hstate
      cases hstate
      exact .inr rfl
    | continueDownstream =>
      rw [honFailure] at hstate
      cases hstate
      exact .inl rfl
    | fallback task inline =>
      rw [honFailure] at hstate
      dsimp only at hstate
      split at hstate
      · cases hstate
        exact .inr rfl
      · cases hstate

section Rounds

variable [TaskHost] {U : Usage} {inactive : List TaskId} {now : UInt64}

theorem runs_settleOne {id : TaskId} (h : st.Agrees inactive d.store) :
    Runs (Write U) (settleOne inactive now st id) d fun st' d' =>
      st'.Agrees inactive d'.store ∧ d'.store.graphs = d.store.graphs ∧
        (st' = st ∧ d'.store = d.store ∧ d.store.Judged id ∨
          st'.changed = true ∧ waitingCount st'.all < waitingCount st.all) := by
  unfold settleOne
  cases hlast : lastWith id st.all with
  | none =>
    refine .pure ⟨h, rfl, .inl ⟨rfl, rfl, fun t ht htyped hid _ => ?_⟩⟩
    have := h.typed t ((h.all t).2 ht) htyped
    rw [hid, hlast] at this
    cases this
  | some t =>
    obtain ⟨ht, hid⟩ := lastWith_spec hlast
    have hjudged : (t.state = .waiting → t.isTyped = true →
        ∃ g : TaskGraph, g.IsOf d.store ∧ settleTarget g t = none) →
        d.store.Judged id := by
      intro htarget u hu htyped huid hwait
      have heq := h.typed u ((h.all u).2 hu) htyped
      rw [huid, hlast] at heq
      cases heq
      exact htarget hwait htyped
    dsimp only
    refine Runs.ite (fun hstate => ?_) fun hstate => ?_
    · exact .pure ⟨h, rfl, .inl ⟨rfl, rfl,
        hjudged fun hwait _ => absurd hwait hstate⟩⟩
    · have hwait := Decidable.not_not.1 hstate
      refine runs_buildGraph_bind fun order d' hd => ?_
      have hg := isOf_build order h.all h.inactive
      generalize TaskGraph.build order _ = g at hg ⊢
      cases htarget : settleTarget (g.withInactive inactive) t with
      | none =>
        exact .pure ⟨hd ▸ h, hd ▸ rfl, .inl ⟨rfl, hd,
          hjudged fun _ _ => ⟨_, hg, htarget⟩⟩⟩
      | some target =>
        obtain ⟨next, skip⟩ := target
        have hnext := settleTarget_cases htarget
        dsimp only
        refine Runs.ite (fun hinvalid => ?_) fun _ => ?_
        · rcases hnext with rfl | rfl <;>
            simp [hwait, isValidTransition] at hinvalid
        · have hchange : Change U d'.store t
              (t.settledTo next skip now) :=
            .settle now (hd ▸ hg) hwait htarget
          refine (runs_putTask (Q := fun _ d₂ => d₂.store
              = d'.store.put (t.settledTo next skip now))
            (.change (hd ▸ (h.all t).1 ht) hchange)
            fun _ hd₂ => hd₂).bind ?_
          rintro _ d₂ - hd₂
          refine .pure ⟨?_, ?_, .inr ⟨rfl, ?_⟩⟩
          · rw [hd₂, hd]
            exact h.replace ht rfl rfl rfl
          · rw [hd₂, hd, Store.graphs_put]
          · refine waitingCount_replaceRecord ht hwait rfl ?_
            rcases hnext with rfl | rfl <;> exact nofun

/-- Where a round stands: nothing has changed and all so far were judged,
or fewer wait. -/
def RoundAt (st : Settling) (inactive : List TaskId) (d : TaskDisk)
    (seen : List TaskId) (st' : Settling) (d' : TaskDisk) : Prop :=
  st'.Agrees inactive d'.store ∧ d'.store.graphs = d.store.graphs ∧
    ((st'.changed = false ∧ st'.all = st.all ∧ d'.store = d.store ∧
        ∀ id ∈ seen, d.store.Judged id) ∨
      (st'.changed = true ∧ waitingCount st'.all < waitingCount st.all))

theorem runs_settleRound (h : st.Agrees inactive d.store) :
    Runs (Write U) (settleRound inactive now ids st) d
      fun st' d' => RoundAt st inactive d ids st' d' := by
  unfold settleRound
  refine Runs.foldlM (I := RoundAt st inactive d) ?_ ?_
  · rintro seen id st' d' ⟨hagrees, hgraphs, hat⟩
    refine (runs_settleOne hagrees).weaken ?_
    rintro st'' d'' ⟨hagrees', hgraphs', hone⟩
    refine ⟨hagrees', hgraphs'.trans hgraphs, ?_⟩
    rcases hone with ⟨rfl, hd, hjudged⟩ | ⟨hchanged, hlt⟩
    · rcases hat with ⟨hchanged, hall, hd', hseen⟩ | hat
      · refine .inl ⟨hchanged, hall, hd.trans hd', fun id' hid' => ?_⟩
        rcases mem_append.1 hid' with hid' | hid'
        · exact hseen id' hid'
        · rw [mem_singleton.1 hid', ← hd']
          exact hjudged
      · exact .inr hat
    · rcases hat with ⟨-, hall, -, -⟩ | ⟨-, hlt'⟩
      · exact .inr ⟨hchanged, hall ▸ hlt⟩
      · exact .inr ⟨hchanged, hlt.trans hlt'⟩
  · exact ⟨⟨h.all, h.inactive, h.typed⟩, rfl,
      .inl ⟨rfl, rfl, rfl, fun _ hid => nomatch hid⟩⟩

/-- With enough rounds the last one finds nothing. -/
theorem runs_settleRounds {fuel : Nat} (h : st.Agrees inactive d.store)
    (hfuel : waitingCount st.all < fuel) :
    Runs (Write U) (settleRounds inactive now ids fuel st) d
      fun _ d' => d'.store.graphs = d.store.graphs ∧
        ∀ id ∈ ids, d'.store.Judged id := by
  induction fuel generalizing st d with
  | zero => exact absurd hfuel (Nat.not_lt_zero _)
  | succ fuel ih =>
    unfold settleRounds
    refine (runs_settleRound h).bind ?_
    rintro st' d' - ⟨hagrees, hgraphs, hat⟩
    refine Runs.ite (fun hchanged => ?_) fun hchanged => ?_
    · refine (ih hagrees ?_).weaken fun _ _ h =>
        ⟨h.1.trans hgraphs, h.2⟩
      rcases hat with ⟨hno, -⟩ | ⟨-, hlt⟩
      · rw [hno] at hchanged
        cases hchanged
      · omega
    · rcases hat with ⟨-, -, hd, hjudged⟩ | ⟨hyes, -⟩
      · exact .pure ⟨hgraphs, fun id hid => hd ▸ hjudged id hid⟩
      · exact absurd hyes hchanged

theorem runs_settleWaiting :
    Runs (Write U) (settleWaiting d.store.list ids now) d
      fun _ d' => d'.store.graphs = d.store.graphs ∧
        ∀ id ∈ ids, d'.store.Judged id := by
  unfold settleWaiting
  refine Runs.read_bind ?_
  refine Runs.lift_bind fun inactive hin => ?_
  have hin := mem_inactiveTaskIds hin
  refine (runs_settleRounds (d := d) ⟨fun _ => .rfl, hin,
    fun t ht htyped => lastWith_list ht htyped⟩
    (Nat.lt_succ_self _)).bind ?_
  intro st d₂ _ hjudged
  exact .pure hjudged

theorem cascadeDownstream_writes (id : TaskId) (d : TaskDisk) :
    Writes U (cascadeDownstream id now) d := by
  unfold cascadeDownstream
  refine runs_listTasks_bind ?_
  refine runs_buildGraph_bind fun order d₁ hd => ?_
  rw [← hd]
  exact Writes.of_runs runs_settleWaiting

theorem cascadeAll_writes (ids : List TaskId) (d : TaskDisk) :
    Writes U (cascadeAll now ids) d := by
  induction ids generalizing d with
  | nil => exact .pure _
  | cons id rest ih =>
    refine (cascadeDownstream_writes id d).bind fun _ d' _ => ?_
    exact (ih d').bind fun _ d'' _ => .pure _

end Rounds

end Tasty.Agent
