/-
What of a task is for good: what it was defined as, as long as its record
is there, and what a v2 task ended as, until it is retried.
-/
import Tasty.Agent.PostprocessRuns

namespace Tasty.Agent

/-- What a task ended as. -/
def Task.ending (t : Task) :=
  (t.state, t.result, t.typedResult, t.attempt, t.route, t.skip)

/-- The task is not retried, no retry resets followers, and its result is
not set by hand. -/
def KeepsEnd (id : TaskId) (o : StoreOp) : Prop :=
  o.isWhole = true ∧ match o with
    | .setResult other _ => other ≠ id
    | .retry other resetDownstream _ => other ≠ id ∧ resetDownstream = false
    | _ => True

/-- The usage of the store in which that is so. -/
def keepingEnd (id : TaskId) : Usage where
  force _ _ _ := True
  record _ t := t.id ≠ id
  reset other := other ≠ id
  graphs := True
  whole := True

theorem within_keepingEnd {s : Store} {o : StoreOp} {id : TaskId}
    (h : KeepsEnd id o) : o.Within (keepingEnd id) s := by
  cases o with
  | setState => exact fun _ _ _ => trivial
  | setResult other result =>
    intro t ht _
    rw [show (keepingEnd id).record s t = (t.id ≠ id) from rfl,
      (Store.mem_of_find ht).2]
    exact h.2
  | retry other resetDownstream now =>
    refine ⟨h.2.1, fun hreset => ?_⟩
    rw [h.2.2] at hreset
    cases hreset
  | stage | activate => cases h.1
  | _ => trivial

theorem isValidTransition_terminal {before : TaskState} (after : TaskState)
    (h : before.isTerminal = true) :
    isValidTransition before after = false := by
  cases before <;> first | rfl | cases h

section Kept

variable [TaskHost] {U : Usage} {d d' : TaskDisk} {id : TaskId} {t : Task}

theorem Change.ending {s : Store} {u : Task}
    (h : Change (keepingEnd t.id) s t u) (htyped : t.isTyped = true)
    (hend : t.state.isTerminal = true) : u.ending = t.ending := by
  cases h with
  | settle _ _ hstate | refuse _ hstate | complete _ _ _ hstate
  | lost _ hstate | progress _ hstate =>
    rw [hstate] at hend
    cases hend
  | advance _ _ _ hvalid | moved _ hvalid =>
    rw [isValidTransition_terminal _ hend] at hvalid
    cases hvalid
  | record _ hrecord => exact absurd rfl (hrecord htyped)
  | note => rfl
  | reset _ hreset => exact absurd rfl hreset
  | release =>
    refine congrArg (·, _) (if_neg fun hready => ?_)
    rw [hready] at hend
    cases hend
  | reserve _ huntyped =>
    rw [htyped] at huntyped
    cases huntyped

/-- What every change of a record keeps holds of it as long as it is
there. -/
theorem record_keeps {P : Task → Prop}
    (hstep : ∀ s t u, Change U s t u → t.id = id → P t → P u)
    (h : Evolves (Write U) d d') (hwhole : U.whole)
    (hs : d.store.UniqueIds) (ht : d.store.find id = some t) (hP : P t)
    (hthere : d.Since d' fun s => (s.find id).isSome = true) :
    ∃ u, d'.store.find id = some u ∧ P u := by
  have hkept := h.keeps_since
    (I := fun s => s.UniqueIds ∧ ∀ t, s.find id = some t → P t)
    (fun s s' hwrite hin _ hI => ?_) (by rw [ht]; rfl) ⟨hs, fun v hv => ?_⟩
    hthere
  · obtain ⟨hin, -, hall⟩ := hkept
    obtain ⟨u, hu⟩ := Option.isSome_iff_exists.1 hin
    exact ⟨u, hu, hall u hu⟩
  · refine ⟨hwrite.uniqueIds hwhole hI.1, fun u hu => ?_⟩
    obtain ⟨t, ht⟩ := Option.isSome_iff_exists.1 hin
    rcases hwrite.find hI.1 hwhole ht hu with rfl | hchange
    · exact hI.2 u ht
    · exact hstep s t u hchange (Store.mem_of_find ht).2 (hI.2 t ht)
  · exact Option.some.inj (ht.symm.trans hv) ▸ hP

variable [ReportDigest]

/-- As long as the record of a task is there its definition is the same. -/
theorem definition_stays
    (hd : ReachableStore (fun _ o => o.isWhole = true) d)
    (ht : d.store.find id = some t)
    (hrun : StoreRun (fun _ o => o.isWhole = true) d d')
    (hthere : d.Since d' fun s => (s.find id).isSome = true) :
    ∃ u, d'.store.find id = some u ∧ SameDef t u :=
  record_keeps (fun _ _ _ hchange _ hsame => hsame.trans hchange.sameDef)
    (evolves_wholeGraphs hrun) trivial (uniqueIds_of_reachable hd) ht
    (.refl t) hthere

/-- What a v2 task ended as stays until it is retried: no report, no state
that is set, no judgement and no submission changes it. -/
theorem end_stays (hd : ReachableStore (fun _ o => o.isWhole = true) d)
    (ht : d.store.find id = some t) (htyped : t.isTyped = true)
    (hend : t.state.isTerminal = true)
    (hrun : StoreRun (fun _ o => KeepsEnd id o) d d')
    (hthere : d.Since d' fun s => (s.find id).isSome = true) :
    ∃ u, d'.store.find id = some u ∧ u.ending = t.ending := by
  have hkept := record_keeps (U := keepingEnd id)
    (P := fun u => u.ending = t.ending ∧ u.isTyped = true)
    (fun s v u hchange hid hv => ?_)
    (hrun.evolves fun _ _ => within_keepingEnd) trivial
    (uniqueIds_of_reachable hd) ht ⟨rfl, htyped⟩ hthere
  · obtain ⟨u, hu, hsame, -⟩ := hkept
    exact ⟨u, hu, hsame⟩
  · obtain ⟨hsame, hv⟩ := hv
    rw [← hid] at hchange
    have hstate : v.state = t.state := congrArg Prod.fst hsame
    exact ⟨(hchange.ending hv (hstate ▸ hend)).trans hsame,
      hchange.sameDef.isTyped.trans hv⟩

end Kept

section Sample

local instance finalityHost : TaskHost := sampleHost

local instance finalityDigest : ReportDigest := sampleDigest

/-- A task that is cancelled before it runs. -/
def stoppedDisk : TaskDisk :=
  ((StoreOp.cancel "a" 1).run (TaskDisk.facing countedDisk [] [])).2

/-- Another graph is submitted after it. -/
def goneOnDisk : TaskDisk :=
  ((StoreOp.submit (sampleGraph [sampleTask "b"]) 2).run
    (TaskDisk.facing stoppedDisk [] [])).2

theorem stoppedDisk_spec :
    ReachableStore (fun _ o => o.isWhole = true) stoppedDisk
      ∧ ∃ t, stoppedDisk.store.find "a" = some t ∧ t.isTyped = true
        ∧ t.state.isTerminal = true := by
  have hany : (stoppedDisk.store.find "a").any (fun t =>
      t.isTyped && t.state.isTerminal) = true := by decide +kernel
  obtain ⟨t, hfind, ht⟩ := (Option.any_eq_true _ _).1 hany
  exact ⟨(Relation.ReflTransGen.single (.op _
      (.submit (sampleGraph [sampleCounted]) 0) _ _ trivial rfl)).tail
    (.op countedDisk (.cancel "a" 1) _ _ trivial rfl),
    t, hfind, Bool.and_eq_true_iff.1 ht⟩

theorem stoppedDisk_goesOn {allowed : Store → StoreOp → Prop}
    (h : allowed stoppedDisk.store
      (.submit (sampleGraph [sampleTask "b"]) 2)) :
    StoreRun allowed stoppedDisk goneOnDisk :=
  .single (.op _ _ _ _ trivial h)

theorem stoppedDisk_since :
    stoppedDisk.Since goneOnDisk fun s => (s.find "a").isSome = true := by
  obtain ⟨written, hwritten⟩ :=
    (evolves_wholeGraphs (stoppedDisk_goesOn rfl)).suffix
  have hsum := congrArg List.length hwritten
  rw [List.length_append, (by decide +kernel : stoppedDisk.stores.length = 5),
    (by decide +kernel : goneOnDisk.stores.length = 8)] at hsum
  have hall : (goneOnDisk.stores.take 3).all
      (fun s => (s.find "a").isSome) = true := by decide +kernel
  rw [← hwritten, List.take_left' (by omega)] at hall
  exact ⟨written, hwritten.symm, List.all_eq_true.1 hall⟩

theorem definition_stays_stopped : ∃ t u,
    stoppedDisk.store.find "a" = some t
      ∧ goneOnDisk.store.find "a" = some u ∧ SameDef t u := by
  obtain ⟨hd, t, ht, -, -⟩ := stoppedDisk_spec
  obtain ⟨u, hu⟩ :=
    definition_stays hd ht (stoppedDisk_goesOn rfl) stoppedDisk_since
  exact ⟨t, u, ht, hu⟩

theorem end_stays_stopped : ∃ t u : Task,
    t.state.isTerminal = true ∧ goneOnDisk.store.find "a" = some u
      ∧ u.ending = t.ending := by
  obtain ⟨hd, t, ht, htyped, hend⟩ := stoppedDisk_spec
  obtain ⟨u, hu⟩ := end_stays hd ht htyped hend
    (stoppedDisk_goesOn ⟨rfl, trivial⟩) stoppedDisk_since
  exact ⟨t, u, hend, hu⟩

end Sample

end Tasty.Agent
