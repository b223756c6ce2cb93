/-
What stays when the record of a task changes: what it was defined as, and
what the writes say of its state, its result, its attempt and its route.
-/
import Tasty.Agent.OpWrites

namespace Tasty.Agent

/-- A task that is defined as another is. -/
structure SameDef (t u : Task) : Prop where
  id : u.id = t.id
  command : u.command = t.command
  dependsOn : u.dependsOn = t.dependsOn
  onFailure : u.onFailure = t.onFailure
  metadata : u.metadata = t.metadata
  contract : u.contract = t.contract
  graphId : u.graphId = t.graphId

namespace SameDef

variable {t u v : Task}

theorem refl (t : Task) : SameDef t t := ⟨rfl, rfl, rfl, rfl, rfl, rfl, rfl⟩

theorem trans (h : SameDef t u) (h' : SameDef u v) : SameDef t v where
  id := h'.id.trans h.id
  command := h'.command.trans h.command
  dependsOn := h'.dependsOn.trans h.dependsOn
  onFailure := h'.onFailure.trans h.onFailure
  metadata := h'.metadata.trans h.metadata
  contract := h'.contract.trans h.contract
  graphId := h'.graphId.trans h.graphId

theorem isTyped (h : SameDef t u) : u.isTyped = t.isTyped := by
  unfold Task.isTyped
  rw [h.contract]

theorem slot (h : SameDef t u) : u.slot = t.slot := by
  unfold Task.slot
  rw [h.isTyped, h.id]

theorem isInactive (h : SameDef t u) (s : Store) :
    s.isInactive u = s.isInactive t := by
  unfold Store.isInactive
  rw [h.graphId]

end SameDef

-- ==== of each function

theorem sameDef_settleTypedTerminal (t : Task) (requested : TaskState) :
    SameDef t (settleTypedTerminal t requested).1 := by
  unfold settleTypedTerminal
  split
  · exact .refl t
  · cases requested with
    | succeeded =>
      dsimp only
      cases t.typedResult with
      | none => exact ⟨rfl, rfl, rfl, rfl, rfl, rfl, rfl⟩
      | some r =>
        dsimp only
        split <;> exact .refl t
    | failed error =>
      dsimp only
      split
      · exact ⟨rfl, rfl, rfl, rfl, rfl, rfl, rfl⟩
      · exact .refl t
    | _ => exact .refl t

variable {requested : TaskState}

variable {t : Task}

theorem state_settleTypedTerminal (h : requested ≠ .succeeded) :
    (settleTypedTerminal t requested).2 = requested := by
  unfold settleTypedTerminal
  split
  · rfl
  · cases requested with
    | succeeded => exact absurd rfl h
    | failed error =>
      dsimp only
      split <;> rfl
    | _ => rfl

/-- A success stays one or becomes a failure. -/
theorem state_settleTypedTerminal_succeeded (t : Task) :
    (settleTypedTerminal t .succeeded).2 = .succeeded
      ∨ ∃ error, (settleTypedTerminal t .succeeded).2 = .failed error := by
  unfold settleTypedTerminal
  split
  · exact .inl rfl
  · dsimp only
    cases t.typedResult with
    | none => exact .inr ⟨_, rfl⟩
    | some r =>
      dsimp only
      split
      · exact .inl rfl
      · exact .inr ⟨_, rfl⟩

theorem sameDef_arrive (t : Task) (state : TaskState) (now : UInt64) :
    SameDef t (t.arrive state now) := by
  unfold Task.arrive
  cases state <;> exact ⟨rfl, rfl, rfl, rfl, rfl, rfl, rfl⟩

@[simp] theorem state_arrive (t : Task) (state : TaskState) (now : UInt64) :
    (t.arrive state now).state = state := rfl

variable {s : Store}

section Functions

variable [TaskHost]

theorem sameDef_recordResult (t : Task) (r : TaskResult) :
    SameDef t (recordResult t r) := by
  unfold recordResult
  split <;> exact ⟨rfl, rfl, rfl, rfl, rfl, rfl, rfl⟩

theorem state_recordResult (t : Task) (r : TaskResult) :
    (recordResult t r).state = t.state := by
  unfold recordResult
  cases t.contract <;> rfl

theorem sameDef_settleRoute (s : Store) (t : Task) (state : TaskState) :
    SameDef t (settleRoute s t state).1 := by
  unfold settleRoute
  split
  · exact .refl t
  · split <;> exact ⟨rfl, rfl, rfl, rfl, rfl, rfl, rfl⟩

theorem state_settleRoute {state : TaskState}
    (h : state ≠ .succeeded) : (settleRoute s t state).2 = state := by
  unfold settleRoute
  rw [if_pos (.inl h)]

theorem state_settleRoute_succeeded (s : Store) (t : Task) :
    (settleRoute s t .succeeded).2 = .succeeded
      ∨ ∃ error, (settleRoute s t .succeeded).2 = .failed error := by
  unfold settleRoute
  split
  · exact .inl rfl
  · split
    · exact .inl rfl
    · exact .inr ⟨_, rfl⟩

/-- The steps of a state that is set. -/
theorem moved_eq (s : Store) (t : Task) (requested : TaskState) (now : UInt64) :
    t.moved s requested now =
      (settleRoute s (settleTypedTerminal t requested).1
        (settleTypedTerminal t requested).2).1.arrive
        (settleRoute s (settleTypedTerminal t requested).1
          (settleTypedTerminal t requested).2).2 now := rfl

theorem sameDef_moved (s : Store) (t : Task) (requested : TaskState)
    (now : UInt64) : SameDef t (t.moved s requested now) := by
  rw [moved_eq]
  exact ((sameDef_settleTypedTerminal t requested).trans
    (sameDef_settleRoute s _ _)).trans (sameDef_arrive _ _ now)

theorem state_moved {now : UInt64} (h : requested ≠ .succeeded) :
    (t.moved s requested now).state = requested := by
  rw [moved_eq, state_arrive, state_settleTypedTerminal h, state_settleRoute h]

/-- A success that is set stays one or becomes a failure. -/
theorem state_moved_succeeded (s : Store) (t : Task) (now : UInt64) :
    (t.moved s .succeeded now).state = .succeeded
      ∨ ∃ error, (t.moved s .succeeded now).state = .failed error := by
  rw [moved_eq, state_arrive]
  rcases state_settleTypedTerminal_succeeded t with h | ⟨error, h⟩
  · rw [h]
    exact state_settleRoute_succeeded s _
  · rw [h, state_settleRoute (by exact nofun)]
    exact .inr ⟨error, rfl⟩

theorem sameDef_reported {u : Task} (h : Reported t u) : SameDef t u := by
  cases h with
  | main result => exact sameDef_recordResult t result
  | postprocess => exact ⟨rfl, rfl, rfl, rfl, rfl, rfl, rfl⟩

theorem completed_eq (s : Store) (t : Task) (requested : TaskState)
    (digest : String) (now : UInt64) :
    t.completed s requested digest now =
      let r := settleRoute s (settleTypedTerminal t requested).1
        (settleTypedTerminal t requested).2
      { r.1 with
        state := r.2, finishedAt := some now
        attempt := r.1.attempt.map fun a =>
          { a with completion := digest } } := rfl

theorem sameDef_completed (s : Store) (t : Task) (requested : TaskState)
    (digest : String) (now : UInt64) :
    SameDef t (t.completed s requested digest now) := by
  rw [completed_eq]
  have h := (sameDef_settleTypedTerminal t requested).trans
    (sameDef_settleRoute s _ (settleTypedTerminal t requested).2)
  exact ⟨h.id, h.command, h.dependsOn, h.onFailure, h.metadata,
    h.contract, h.graphId⟩

/-- A report ends a task well or not. -/
theorem state_completed {digest : String}
    {now : UInt64} (hend : requested.isTerminal = true)
    (hcancel : requested ≠ .cancelled) (hskip : requested ≠ .skipped) :
    (t.completed s requested digest now).state = .succeeded
      ∨ ∃ error, (t.completed s requested digest now).state
        = .failed error := by
  rw [completed_eq]
  cases requested with
  | succeeded =>
    dsimp only
    rcases state_settleTypedTerminal_succeeded t with h | ⟨error, h⟩
    · rw [h]
      exact state_settleRoute_succeeded s _
    · rw [h, state_settleRoute (by exact nofun)]
      exact .inr ⟨error, rfl⟩
  | failed error =>
    dsimp only
    rw [state_settleTypedTerminal (by exact nofun),
      state_settleRoute (by exact nofun)]
    exact .inr ⟨error, rfl⟩
  | cancelled => exact absurd rfl hcancel
  | skipped => exact absurd rfl hskip
  | _ => cases hend

-- ==== of each write

variable {U : Usage} {s s' : Store} {t u : Task}

/-- No write changes the definition of a task. -/
theorem Change.sameDef (h : Change U s t u) : SameDef t u := by
  cases h with
  | moved => exact sameDef_moved s t _ _
  | record => exact sameDef_recordResult t _
  | complete digest now _ _ hreported =>
    exact (sameDef_reported hreported).trans
      (sameDef_completed s _ _ digest now)
  | _ => exact ⟨rfl, rfl, rfl, rfl, rfl, rfl, rfl⟩

/-- How a task comes to be. -/
inductive Arrives (U : Usage) (s : Store) : Task → Prop
  | create {g : TaskGraph} {id : TaskId} (opts : TaskCreateOpts)
      (contract : Option TaskContract) : IsCreated s opts contract id →
      g.IsOf (s.put (newTask opts contract id)) →
      Arrives U s (judgedNew g (newTask opts contract id))
  | stage {plan : GraphPlan} {t : Task} : U.graphs → plan.IsPlanned →
      t ∈ plan.tasks →
      (U.whole → plan.IsOn s ∧ ∀ u ∈ s.list, u.id ≠ t.id) →
      Arrives U s t

/-- Where the records after a write come from. -/
theorem Write.mem_list (h : Write U s s') (hu : u ∈ s'.list) :
    u ∈ s.list ∨ (∃ t ∈ s.list, Change U s t u) ∨ Arrives U s u := by
  cases h with
  | change ht hchange =>
    rcases Store.mem_list_put.1 hu with rfl | ⟨hu, -⟩
    · exact .inr (.inl ⟨_, ht, hchange⟩)
    · exact .inl hu
  | create opts contract hnew hg =>
    rcases Store.mem_list_put.1 hu with rfl | ⟨hu, -⟩
    · exact .inr (.inr (.create opts contract hnew hg))
    · exact .inl hu
  | stage hgraphs hplanned ht hfree =>
    rcases Store.mem_list_put.1 hu with rfl | ⟨hu, -⟩
    · exact .inr (.inr (.stage hgraphs hplanned ht hfree))
    · exact .inl hu
  | activate => exact .inl hu
  | erase => exact .inl (Store.mem_list_erase.1 hu).1
  | deactivate => exact .inl hu

theorem Write.uniqueIds (h : Write U s s') (hwhole : U.whole)
    (hs : s.UniqueIds) : s'.UniqueIds := by
  cases h with
  | change ht hchange =>
    have hsame := hchange.sameDef
    refine hs.put fun v hv hid => ?_
    rw [hs v hv _ ht (hid.trans hsame.id), hsame.slot]
  | create opts contract hnew hg =>
    exact hs.put fun v hv hid => absurd hid (hnew.isNew v hv)
  | stage _ _ _ hfree =>
    exact hs.put fun v hv hid => absurd hid ((hfree hwhole).2 v hv)
  | activate => exact hs
  | erase k => exact hs.erase k
  | deactivate => exact hs

end Functions

-- ==== graphs stored as a whole

/-- Any operation, where graphs are submitted as a whole. -/
def wholeGraphs : Usage where
  force _ _ _ := True
  record _ _ := True
  reset _ := True
  graphs := True
  whole := True

section Whole

variable [TaskHost] [ReportDigest]

omit [TaskHost] [ReportDigest] in
theorem within_wholeGraphs {o : StoreOp} (h : o.isWhole = true) :
    o.Within wholeGraphs s := by
  cases o with
  | setState => exact fun _ _ _ => trivial
  | setResult => exact fun _ _ _ => trivial
  | retry => exact ⟨trivial, fun _ _ => trivial⟩
  | stage => cases h
  | activate => cases h
  | _ => trivial

theorem evolves_wholeGraphs {d d' : TaskDisk}
    (h : StoreRun (fun _ o => o.isWhole = true) d d') :
    Evolves (Write wholeGraphs) d d' :=
  StoreRun.evolves (fun _ _ => within_wholeGraphs) h

/-- A store in which graphs were submitted as a whole has each id once. -/
theorem uniqueIds_of_reachable {d : TaskDisk}
    (hd : ReachableStore (fun _ o => o.isWhole = true) d) : d.store.UniqueIds :=
  (evolves_wholeGraphs hd).keeps
    (fun _ _ hwrite => hwrite.uniqueIds trivial) .empty

end Whole

end Tasty.Agent
