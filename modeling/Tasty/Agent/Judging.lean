/-
The verdicts of `settle_waiting` as decisions on places, one after another:
what is looked up in the graph once some have been settled, and where no
lookup has a choice, that the verdicts are steady.
-/
import Tasty.Agent.Steady

namespace Tasty.Agent

open List

/-- What has been settled, by place. -/
abbrev Settled := Decisions Slot (TaskState × Option SkipReason)

/-- The task as it has been settled. -/
def Task.after (x : Settled) (now : UInt64) (t : Task) : Task :=
  match x t.slot with
  | some (next, skip) => t.settledTo next skip now
  | none => t

section After

variable {x y : Settled} {now : UInt64} {t u : Task}

@[simp] theorem slot_settledTo (t : Task) (next : TaskState)
    (skip : Option SkipReason) (now : UInt64) :
    (t.settledTo next skip now).slot = t.slot := rfl

theorem after_none (h : x t.slot = none) : t.after x now = t := by
  unfold Task.after
  rw [h]

theorem after_some {next : TaskState} {skip : Option SkipReason}
    (h : x t.slot = some (next, skip)) :
    t.after x now = t.settledTo next skip now := by
  unfold Task.after
  rw [h]

theorem sameDef_after (x : Settled) (now : UInt64) (t : Task) :
    SameDef t (t.after x now) := by
  unfold Task.after
  cases x t.slot with
  | none => exact .refl t
  | some b => exact ⟨rfl, rfl, rfl, rfl, rfl, rfl, rfl⟩

@[simp] theorem id_after : (t.after x now).id = t.id :=
  (sameDef_after x now t).id

@[simp] theorem slot_after : (t.after x now).slot = t.slot :=
  (sameDef_after x now t).slot

end After

-- ==== the entries

theorem lastWith_map {f : Task → Task} (hf : ∀ t, (f t).id = t.id)
    (id : TaskId) (all : List Task) :
    lastWith id (all.map f) = (lastWith id all).map f := by
  unfold lastWith
  rw [← map_reverse, List.find?_map]
  refine congrArg (Option.map f) (congrArg (List.find? · all.reverse) ?_)
  funext t
  show decide ((f t).id = id) = decide (t.id = id)
  rw [hf]

theorem mapEntries_map {f : Task → Task} (hf : ∀ t, (f t).id = t.id)
    (all : List Task) : mapEntries (all.map f) = (mapEntries all).map f := by
  induction all with
  | nil => rfl
  | cons t rest ih =>
    have hany : (rest.map f).any (fun u => u.id = (f t).id)
        = rest.any fun u => u.id = t.id := by
      rw [any_map, hf]
      refine congrArg (List.any rest) ?_
      funext u
      show decide ((f u).id = t.id) = decide (u.id = t.id)
      rw [hf]
    rw [map_cons]
    unfold mapEntries
    rw [hany, ih]
    by_cases h : (rest.any fun u => u.id = t.id) = true
    · rw [if_pos h, if_pos h]
    · rw [if_neg h, if_neg h, map_cons]

/-- The entries are the last records of their ids. -/
theorem mem_mapEntries {all : List Task} {t : Task} :
    t ∈ mapEntries all ↔ lastWith t.id all = some t := by
  induction all with
  | nil => simp [mapEntries, lastWith]
  | cons u rest ih =>
    have hlast : lastWith t.id (u :: rest)
        = (lastWith t.id rest).or (if u.id = t.id then some u else none) := by
      unfold lastWith
      rw [reverse_cons, List.find?_append]
      refine congrArg (Option.or _) ?_
      by_cases h : u.id = t.id <;> simp [h]
    rw [hlast]
    unfold mapEntries
    by_cases hany : (rest.any fun v => v.id = u.id) = true
    · rw [if_pos hany, ih]
      cases hrest : lastWith t.id rest with
      | some v => simp
      | none =>
        obtain ⟨v, hv, hvu⟩ := any_eq_true.1 hany
        have hnone := List.find?_eq_none.1 hrest v
          (mem_reverse.2 hv)
        have hne : u.id ≠ t.id := by
          intro h
          exact hnone (decide_eq_true ((of_decide_eq_true hvu).trans h))
        rw [if_neg hne]
        rfl
    · rw [if_neg hany, mem_cons, ih]
      cases hrest : lastWith t.id rest with
      | some v =>
        have hv := lastWith_spec hrest
        constructor
        · rintro (rfl | h)
          · refine absurd (any_eq_true.2 ⟨v, hv.1, ?_⟩) hany
            exact decide_eq_true hv.2
          · rw [h]
            rfl
        · exact .inr
      | none =>
        by_cases h : u.id = t.id
        · rw [if_pos h]
          constructor
          · rintro (rfl | h)
            · rfl
            · cases h
          · intro h
            exact .inl (Option.some.inj h).symm
        · rw [if_neg h]
          constructor
          · rintro (rfl | h')
            · exact absurd rfl h
            · cases h'
          · intro h'
            cases h'

theorem get_build (order : HashOrder) (all : List Task) (id : TaskId) :
    (TaskGraph.build order all).get id = lastWith id all := by
  have hmem : ∀ t, t ∈ (TaskGraph.build order all).values
      ↔ lastWith t.id all = some t := fun t =>
    (order.perm (mapEntries all)).mem_iff.trans mem_mapEntries
  unfold TaskGraph.get
  cases hfind : (TaskGraph.build order all).values.find? fun t => t.id = id with
  | some t =>
    have hid : t.id = id := by simpa using List.find?_some hfind
    rw [← hid]
    exact ((hmem t).1 (mem_of_find?_eq_some hfind)).symm
  | none =>
    cases hlast : lastWith id all with
    | none => rfl
    | some t =>
      obtain ⟨-, rfl⟩ := lastWith_spec hlast
      have := List.find?_eq_none.1 hfind t ((hmem t).2 hlast)
      simp at this

-- ==== the verdicts

/-- The task waits and is among those that are judged. -/
def Task.awaits (ids inactive : List TaskId) (t : Task) : Bool :=
  t.state = .waiting && ids.contains t.id && !inactive.contains t.id

/-- The graph over the tasks as they have been settled. -/
def graphAfter (all : List Task) (inactive : List TaskId) (now : UInt64)
    (x : Settled) (order : HashOrder) : TaskGraph :=
  (TaskGraph.build order (all.map (Task.after x now))).withInactive inactive

/-- In some order of the hash map the task in the place is judged so. -/
def Judges (all : List Task) (ids inactive : List TaskId) (now : UInt64)
    (x : Settled) (k : Slot) (b : TaskState × Option SkipReason) : Prop :=
  ∃ t ∈ mapEntries all, t.slot = k ∧ t.awaits ids inactive = true
    ∧ ∃ order, settleTarget (graphAfter all inactive now x order) t = some b

/-- No lookup for a task that is judged has a choice: main tasks of a
fallback are one, or stay as they are and say the same of it; so do tasks
that are marked as the fallback of a task it depends on. -/
def Unambiguous (all : List Task) (ids inactive : List TaskId) : Prop :=
  ∀ t ∈ mapEntries all, t.awaits ids inactive = true →
    (t.isTyped = true → ∀ m ∈ mapEntries all, ∀ m' ∈ mapEntries all,
      m.isMainOf t.id = true → m'.isMainOf t.id = true →
        m.id = m'.id ∨ m.awaits ids inactive = false
          ∧ m'.awaits ids inactive = false
          ∧ (mainVerdict m).bind t.target = (mainVerdict m').bind t.target)
    ∧ ∀ m ∈ mapEntries all, m.id ∈ t.dependsOn →
        m.onFailure.fallbackTask = none → m.onFailure.isFallback = true →
        ∀ f ∈ mapEntries all, ∀ f' ∈ mapEntries all,
          f.fallbackOf = some m.id → f'.fallbackOf = some m.id →
            f.id = f'.id ∨ f.awaits ids inactive = false
              ∧ f'.awaits ids inactive = false
              ∧ f.state.standsIn = f'.state.standsIn

section Verdicts

variable {all : List Task} {ids inactive : List TaskId} {now : UInt64}
  {x y : Settled} {t u : Task}

theorem eq_of_id (ht : t ∈ mapEntries all) (hu : u ∈ mapEntries all)
    (h : t.id = u.id) : t = u := by
  rw [mem_mapEntries] at ht hu
  rw [h, hu] at ht
  exact (Option.some.inj ht).symm

/-- Only tasks that were judged have been settled, ready or skipped. -/
structure Settled.Valid (x : Settled) (all : List Task)
    (ids inactive : List TaskId) : Prop where
  awaits : ∀ t ∈ all, ∀ b, x t.slot = some b →
    t ∈ mapEntries all ∧ t.awaits ids inactive = true
  next : ∀ k b, x k = some b → b.1 = .ready ∨ b.1 = .skipped

theorem Settled.Valid.waiting (h : x.Valid all ids inactive) (ht : t ∈ all)
    {b : TaskState × Option SkipReason} (hx : x t.slot = some b) :
    t.state = .waiting := by
  have hawaits := (h.awaits t ht b hx).2
  unfold Task.awaits at hawaits
  simp only [Bool.and_eq_true, decide_eq_true_eq] at hawaits
  exact hawaits.1.1

/-- What is not judged stays as it is. -/
theorem Settled.Valid.after_eq (h : x.Valid all ids inactive) (ht : t ∈ all)
    (hnot : t.awaits ids inactive = false) : t.after x now = t := by
  refine after_none ?_
  cases hx : x t.slot with
  | none => rfl
  | some b =>
    rw [(h.awaits t ht b hx).2] at hnot
    cases hnot

theorem Settled.Valid.of_reached
    (hslots : ∀ t ∈ all, ∀ u ∈ all, t.slot = u.slot → t = u)
    (hx : Decisions.Reached (Judges all ids inactive now) x) :
    x.Valid all ids inactive := by
  induction hx with
  | start => exact ⟨fun _ _ _ h => (by cases h), fun _ _ h => by cases h⟩
  | @step x k b _ hk hb ih =>
    obtain ⟨t, ht, rfl, hawaits, order, htarget⟩ := hb
    refine ⟨fun u hu c hc => ?_, fun j c hc => ?_⟩
    · by_cases hut : u.slot = t.slot
      · obtain rfl := hslots u hu t (mem_of_mem_mapEntries ht) hut
        exact ⟨ht, hawaits⟩
      · rw [Decisions.put_of_ne hut] at hc
        exact ih.awaits u hu c hc
    · by_cases hj : j = t.slot
      · rw [hj, Decisions.put_self] at hc
        cases hc
        exact settleTarget_cases htarget
      · rw [Decisions.put_of_ne hj] at hc
        exact ih.next j c hc

theorem after_ahead (now : UInt64) (hwithin : Decisions.Within x y)
    (hy : y.Valid all ids inactive) (ht : t ∈ all) :
    (t.after x now).Ahead (t.after y now) := by
  cases hx : x t.slot with
  | some b =>
    obtain ⟨next, skip⟩ := b
    rw [after_some hx, after_some (hwithin _ _ hx)]
    exact .refl _
  | none =>
    rw [after_none hx]
    cases hyt : y t.slot with
    | none =>
      rw [after_none hyt]
      exact .refl t
    | some b =>
      obtain ⟨next, skip⟩ := b
      rw [after_some hyt]
      exact .settled skip now (hy.waiting ht hyt) (hy.next _ _ hyt) rfl

theorem get_graphAfter (x : Settled) (order : HashOrder) (id : TaskId) :
    (graphAfter all inactive now x order).get id
      = (lastWith id all).map (Task.after x now) :=
  (get_build order _ id).trans (lastWith_map (fun _ => id_after) id all)

theorem mem_values_graphAfter {order : HashOrder} :
    u ∈ (graphAfter all inactive now x order).values
      ↔ ∃ t ∈ mapEntries all, t.after x now = u := by
  unfold graphAfter TaskGraph.withInactive TaskGraph.build
  dsimp only
  rw [(order.perm _).mem_iff, mapEntries_map fun _ => id_after, mem_map]

theorem transitionTargets_after : transitionTargets (t.after x now)
    = transitionTargets t := by
  unfold transitionTargets
  rw [(sameDef_after x now t).contract]

theorem controls_graphAfter (order : HashOrder) (id : TaskId) :
    (graphAfter all inactive now x order).controls id
      = (all.filter fun t => (transitionTargets t).contains id).map
          (Task.after x now) := by
  unfold TaskGraph.controls graphAfter TaskGraph.withInactive
    TaskGraph.build
  dsimp only
  rw [filter_map]
  refine congrArg _ (filter_congr fun t _ => ?_)
  show (transitionTargets (t.after x now)).contains id = _
  rw [transitionTargets_after]

theorem graphAfter_ahead (now : UInt64) (hwithin : Decisions.Within x y)
    (hy : y.Valid all ids inactive) (order order' : HashOrder) :
    (graphAfter all inactive now x order).Ahead
      (graphAfter all inactive now y order') where
  get id := by
    rw [get_graphAfter, get_graphAfter]
    cases hlast : lastWith id all with
    | none => exact .inl ⟨rfl, rfl⟩
    | some t =>
      exact .inr ⟨_, _, rfl, rfl,
        after_ahead now hwithin hy (lastWith_spec hlast).1⟩
  controls id := by
    rw [controls_graphAfter, controls_graphAfter, forall₂_map_left_iff,
      forall₂_map_right_iff, forall₂_same]
    exact fun t ht => after_ahead now hwithin hy (mem_filter.1 ht).1
  values u hu := by
    obtain ⟨t, ht, rfl⟩ := mem_values_graphAfter.1 hu
    exact ⟨_, mem_values_graphAfter.2 ⟨t, ht, rfl⟩,
      after_ahead now hwithin hy (mem_of_mem_mapEntries ht)⟩
  covers u hu := by
    obtain ⟨t, ht, rfl⟩ := mem_values_graphAfter.1 hu
    exact ⟨_, mem_values_graphAfter.2 ⟨t, ht, rfl⟩,
      after_ahead now hwithin hy (mem_of_mem_mapEntries ht)⟩
  inactive := rfl

theorem mainsStay_graphAfter (hC : Unambiguous all ids inactive)
    (hwithin : Decisions.Within x y) (hx : x.Valid all ids inactive)
    (hy : y.Valid all ids inactive) (ht : t ∈ mapEntries all)
    (hawaits : t.awaits ids inactive = true) (order order' : HashOrder) :
    (graphAfter all inactive now x order).MainsStay
      (graphAfter all inactive now y order') t := by
  intro htyped m hm m' hm' hmain hmain'
  obtain ⟨m₀, hm₀, rfl⟩ := mem_values_graphAfter.1 hm
  obtain ⟨m₁, hm₁, rfl⟩ := mem_values_graphAfter.1 hm'
  unfold Task.isMainOf at hmain hmain'
  rw [(sameDef_after _ _ _).onFailure] at hmain hmain'
  rcases (hC t ht hawaits).1 htyped m₀ hm₀ m₁ hm₁ hmain hmain' with
    hid | ⟨hstatic, hstatic', hsame⟩
  · rw [← eq_of_id hm₀ hm₁ hid]
    have hahead := mainVerdict_ahead (after_ahead now hwithin hy
      (mem_of_mem_mapEntries hm₀))
    exact Stays.bind hahead fun _ _ => .refl _
  · rw [hx.after_eq (mem_of_mem_mapEntries hm₀) hstatic,
      hy.after_eq (mem_of_mem_mapEntries hm₁) hstatic']
    exact .of_eq hsame

theorem standsIn_ahead (h : t.Ahead u) :
    Stays t.state.standsIn u.state.standsIn := by
  rcases h.state with hwait | hsame
  · rw [hwait]
    exact .none
  · rw [hsame]
    exact .refl _

theorem fallbackOf_after : (t.after x now).fallbackOf = t.fallbackOf := by
  unfold Task.fallbackOf
  rw [(sameDef_after x now t).metadata]

theorem standsIn_marked (hC : Unambiguous all ids inactive)
    (hwithin : Decisions.Within x y) (hx : x.Valid all ids inactive)
    (hy : y.Valid all ids inactive) (ht : t ∈ mapEntries all)
    (hawaits : t.awaits ids inactive = true) {m f f' : Task}
    (hm : m ∈ mapEntries all) (hid : m.id ∈ t.dependsOn)
    (hnone : m.onFailure.fallbackTask = none)
    (hfallback : m.onFailure.isFallback = true)
    (hf : f ∈ mapEntries all) (hf' : f' ∈ mapEntries all)
    (hof : f.fallbackOf = some m.id) (hof' : f'.fallbackOf = some m.id) :
    Stays (f.after x now).state.standsIn (f'.after y now).state.standsIn := by
  rcases (hC t ht hawaits).2 m hm hid hnone hfallback f hf f' hf' hof hof'
    with hsame | ⟨hstatic, hstatic', hsame⟩
  · rw [← eq_of_id hf hf' hsame]
    exact standsIn_ahead (after_ahead now hwithin hy (mem_of_mem_mapEntries hf))
  · rw [hx.after_eq (mem_of_mem_mapEntries hf) hstatic,
      hy.after_eq (mem_of_mem_mapEntries hf') hstatic']
    exact .of_eq hsame

theorem fallbacksStay_graphAfter (hC : Unambiguous all ids inactive)
    (hwithin : Decisions.Within x y) (hx : x.Valid all ids inactive)
    (hy : y.Valid all ids inactive) (ht : t ∈ mapEntries all)
    (hawaits : t.awaits ids inactive = true) (order order' : HashOrder) :
    (graphAfter all inactive now x order).FallbacksStay
      (graphAfter all inactive now y order') t := by
  have hahead := graphAfter_ahead now hwithin hy order order'
  intro id hid m m' hm hm'
  rw [get_graphAfter] at hm hm'
  obtain ⟨m, hlast, rfl⟩ := Option.map_eq_some_iff.1 hm
  rw [hlast, Option.map_some] at hm'
  obtain rfl := Option.some.inj hm'
  obtain ⟨-, rfl⟩ := lastWith_spec hlast
  unfold TaskGraph.fallbackState
  rw [(sameDef_after _ _ _).onFailure, (sameDef_after _ _ _).onFailure,
    id_after, id_after]
  cases honFailure : m.onFailure with
  | abort => exact ⟨rfl, .refl _⟩
  | continueDownstream => exact ⟨rfl, .refl _⟩
  | fallback task inline =>
    cases task with
    | some fallback =>
      dsimp only
      rcases hahead.get fallback with ⟨hg, hg'⟩ | ⟨f, f', hg, hg', hff⟩
      · rw [hg, hg']
        exact ⟨rfl, .refl _⟩
      · rw [hg, hg']
        exact ⟨rfl, standsIn_ahead hff⟩
    | none =>
      cases inline with
      | none => exact ⟨rfl, .refl _⟩
      | some inline =>
        dsimp only
        have hfinds := hahead.find_isSome
          (p := fun t => t.fallbackOf = some m.id)
          fun f u hfu => by rw [hfu.fallbackOf]
        refine ⟨by simpa using hfinds, ?_⟩
        cases hfind : (graphAfter all inactive now x order).values.find?
            fun t => t.fallbackOf = some m.id with
        | none => exact .none
        | some f =>
          rw [hfind] at hfinds
          obtain ⟨f', hfind'⟩ :=
            Option.isSome_iff_exists.1 hfinds.symm
          rw [hfind']
          have hof := List.find?_some hfind
          have hof' := List.find?_some hfind'
          obtain ⟨f₀, hf₀, rfl⟩ := mem_values_graphAfter.1
            (mem_of_find?_eq_some hfind)
          obtain ⟨f₁, hf₁, rfl⟩ := mem_values_graphAfter.1
            (mem_of_find?_eq_some hfind')
          rw [decide_eq_true_eq, fallbackOf_after] at hof hof'
          exact standsIn_marked hC hwithin hx hy ht hawaits
            (mem_mapEntries.2 hlast) hid (by rw [honFailure]; rfl)
            (by rw [honFailure]; rfl) hf₀ hf₁ hof hof'

theorem settleTarget_graphAfter (now : UInt64)
    (hC : Unambiguous all ids inactive) (hwithin : Decisions.Within x y) (hx : x.Valid all ids inactive)
    (hy : y.Valid all ids inactive) (ht : t ∈ mapEntries all)
    (hawaits : t.awaits ids inactive = true) (order order' : HashOrder) :
    Stays (settleTarget (graphAfter all inactive now x order) t)
      (settleTarget (graphAfter all inactive now y order') t) := by
  have hget : ∀ (z : Settled) (order : HashOrder),
      (graphAfter all inactive now z order).get t.id
        = some (t.after z now) := by
    intro z order
    rw [get_graphAfter, mem_mapEntries.1 ht]
    rfl
  exact settleTarget_stays (graphAfter_ahead now hwithin hy order order')
    (fallbacksStay_graphAfter hC hwithin hx hy ht hawaits order order')
    (mainsStay_graphAfter hC hwithin hx hy ht hawaits order order')
    (hget x order) (sameDef_after x now t) (hget y order')
    (sameDef_after y now t)

theorem judges_steady
    (hslots : ∀ t ∈ all, ∀ u ∈ all, t.slot = u.slot → t = u)
    (hC : Unambiguous all ids inactive) :
    Decisions.Steady (Judges all ids inactive now) where
  unique := by
    rintro x k b c hx ⟨t, ht, rfl, hawaits, order, hb⟩
      ⟨u, hu, hslot, -, order', hc⟩
    have hx := Settled.Valid.of_reached hslots hx
    obtain rfl := hslots u (mem_of_mem_mapEntries hu) t
      (mem_of_mem_mapEntries ht) hslot
    have hstays := settleTarget_graphAfter now hC (.refl x) hx hx ht
      hawaits order order' b hb
    exact Option.some.inj (hstays.symm.trans hc)
  stays := by
    rintro x y k b hx hy hwithin ⟨t, ht, rfl, hawaits, order, hb⟩
    have hx := Settled.Valid.of_reached hslots hx
    have hy := Settled.Valid.of_reached hslots hy
    exact ⟨t, ht, rfl, hawaits, order, settleTarget_graphAfter now hC hwithin hx
      hy ht hawaits order order b hb⟩

end Verdicts

end Tasty.Agent
