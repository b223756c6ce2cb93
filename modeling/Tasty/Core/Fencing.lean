/-
Activation generations over command runs.

A preparation takes the generation after every one handed out or used for
its surface id, and raises the mark of the id to it; nothing lowers a
mark. So the generations reserved for an id strictly increase along a
history, whatever became of the operations that reserved them. A surface
that is in the model is not created again under its id, so the
generation of its activation only rises.
-/
import Tasty.Core.Outcomes

namespace Tasty.Core

open List

/-- The generation an event reserves for a surface id. -/
def DomainEvent.reserves (surface : UInt32) : DomainEvent → Option UInt64
  | operationPrepared op =>
    match op.creation with
    | some plan =>
      if plan.surface.id = surface then some op.activationGeneration
      else none
    | none => none
  | _ => none

/-- The generations a list of events reserves for a surface id, in
order. -/
def reservations (surface : UInt32) (es : List DomainEvent) :
    List UInt64 :=
  es.filterMap (DomainEvent.reserves surface)

-- ==== one event

section Step

variable {m m' : JournalModel} {e : DomainEvent} {surface : UInt32}

theorem mark_le_last (m : JournalModel) (surface : UInt32) :
    m.mark surface ≤ lastGeneration m surface :=
  Effect.le_max_generation _ _

theorem prepares_mark {op : Operation} (h : Prepares m op m') :
    (∀ g, DomainEvent.reserves surface (.operationPrepared op) = some g →
        m.mark surface < g ∧ m'.mark surface = g)
      ∧ m.mark surface ≤ m'.mark surface := by
  obtain ⟨marks, hmarks, rfl⟩ := h.result
  unfold reserveGeneration at hmarks
  cases hcreation : op.creation with
  | none =>
    rw [hcreation] at hmarks
    cases hmarks
    refine ⟨fun g hg => ?_, UInt64.le_refl _⟩
    simp [DomainEvent.reserves, hcreation] at hg
  | some plan =>
    rw [hcreation] at hmarks
    obtain ⟨hnext, hmarks⟩ := guard_ok hmarks
    cases hmarks
    rw [not_not, checkedSucc_eq_some] at hnext
    by_cases hid : plan.surface.id = surface
    · subst hid
      have hlast := UInt64.le_iff_toNat_le.1 (mark_le_last m plan.surface.id)
      have hlt : m.mark plan.surface.id < op.activationGeneration := by
        rw [UInt64.lt_iff_toNat_lt]
        omega
      have hmark : JournalModel.mark { m with
          activationHighWater := m.activationHighWater.insert
            plan.surface.id op.activationGeneration
          operations := m.operations.insert op.id op } plan.surface.id
          = op.activationGeneration := by
        simp [JournalModel.mark]
      refine ⟨fun g hg => ?_, ?_⟩
      · simp only [DomainEvent.reserves, hcreation, if_true] at hg
        cases hg
        exact ⟨hlt, hmark⟩
      · rw [hmark]
        exact UInt64.le_of_lt hlt
    · refine ⟨fun g hg => ?_, ?_⟩
      · simp [DomainEvent.reserves, hcreation, hid] at hg
      · simp [JournalModel.mark, hid]

/-- No event lowers a mark. -/
theorem apply_mark (hok : apply m e = .ok m') :
    m.mark surface ≤ m'.mark surface := by
  cases hkind : e.onLedger with
  | false => exact (apply_effect hkind hok).ledger.marks surface
  | true =>
    by_cases hprepares : ∃ op, e = .operationPrepared op
    · obtain ⟨op, rfl⟩ := hprepares
      exact (prepares_mark (prepare_eq_ok hok)).2
    · have hmarks := (apply_elsewhere hok).2 hkind
        fun op he => hprepares ⟨op, he⟩
      unfold JournalModel.mark
      rw [hmarks]
      exact UInt64.le_refl _

theorem apply_reserves (hok : apply m e = .ok m') {g : UInt64}
    (hg : e.reserves surface = some g) :
    m.mark surface < g ∧ m'.mark surface = g := by
  cases e with
  | operationPrepared op =>
    exact (prepares_mark (prepare_eq_ok hok)).1 g hg
  | _ => cases hg

end Step

-- ==== one batch

section Batch

variable {m m' : JournalModel} {es : List DomainEvent} {surface : UInt32}

theorem Applies.mark (h : Applies m es m') :
    m.mark surface ≤ m'.mark surface := by
  induction es generalizing m with
  | nil =>
    obtain ⟨a, rfl⟩ := h
    exact UInt64.le_refl _
  | cons e es ih =>
    obtain ⟨m₁, a, happly, hrest⟩ := h
    have hlater := ih hrest
    exact UInt64.le_trans (apply_mark happly) hlater

/-- The generations a batch reserves increase, from past the mark before
it to the mark after it. -/
theorem Applies.reservations (h : Applies m es m') :
    (reservations surface es).Pairwise (· < ·)
      ∧ ∀ g ∈ reservations surface es,
        m.mark surface < g ∧ g ≤ m'.mark surface := by
  induction es generalizing m with
  | nil => exact ⟨.nil, fun g hg => absurd hg not_mem_nil⟩
  | cons e es ih =>
    obtain ⟨m₁, a, happly, hrest⟩ := h
    obtain ⟨hincreasing, hbounds⟩ := ih hrest
    have hup : m.mark surface ≤ m₁.mark surface := apply_mark happly
    have hbounds' : ∀ g ∈ Core.reservations surface es,
        m.mark surface < g ∧ g ≤ m'.mark surface := by
      intro g hg
      obtain ⟨hlow, hhigh⟩ := hbounds g hg
      exact ⟨UInt64.lt_of_le_of_lt hup hlow, hhigh⟩
    cases hg : e.reserves surface with
    | none =>
      rw [Core.reservations, filterMap_cons_none hg]
      exact ⟨hincreasing, hbounds'⟩
    | some g =>
      obtain ⟨hpast, hraised⟩ := apply_reserves happly hg
      have hlast : m₁.mark surface ≤ m'.mark surface := hrest.mark
      rw [Core.reservations, filterMap_cons_some hg]
      refine ⟨pairwise_cons.2 ⟨fun g' hg' => ?_, hincreasing⟩, fun g' hg' => ?_⟩
      · rw [← hraised]
        exact (hbounds g' hg').1
      · rcases mem_cons.1 hg' with rfl | hg'
        · rw [← hraised]
          exact ⟨hraised ▸ hpast, hlast⟩
        · exact hbounds' g' hg'

end Batch

-- ==== histories

section History

variable {batches : List (List DomainEvent)} {m m' : JournalModel}
  {surface : UInt32}

theorem History.reservations (h : History batches m) :
    (reservations surface batches.flatten).Pairwise (· < ·)
      ∧ ∀ g ∈ reservations surface batches.flatten,
        0 < g ∧ g ≤ m.mark surface := by
  induction h with
  | start => exact ⟨.nil, fun g hg => absurd hg not_mem_nil⟩
  | @step batches m m' facts hrun hstep ih =>
    obtain ⟨hincreasing, hbounds⟩ := ih
    obtain ⟨hnew, hnewBounds⟩ := hstep.applies.reservations
    have hsplit : Core.reservations surface (batches ++ [facts]).flatten
        = Core.reservations surface batches.flatten
          ++ Core.reservations surface facts := by
      simp [Core.reservations, filterMap_append]
    rw [hsplit]
    refine ⟨pairwise_append.2 ⟨hincreasing, hnew,
      fun g hg g' hg' => ?_⟩, fun g hg => ?_⟩
    · exact UInt64.lt_of_le_of_lt (hbounds g hg).2 (hnewBounds g' hg').1
    · rcases mem_append.1 hg with hg | hg
      · obtain ⟨hpositive, hle⟩ := hbounds g hg
        exact ⟨hpositive, UInt64.le_trans hle hstep.applies.mark⟩
      · obtain ⟨hlow, hhigh⟩ := hnewBounds g hg
        exact ⟨UInt64.lt_of_le_of_lt UInt64.zero_le hlow, hhigh⟩

theorem History.reserved (h : History batches m) {id : OperationId}
    {op : Operation} {plan : CreationPlan}
    (hop : m.operations[id]? = some op) (hplan : op.creation = some plan) :
    op.activationGeneration
      ∈ Core.reservations plan.surface.id batches.flatten := by
  induction h generalizing op with
  | start => simp [JournalModel.default] at hop
  | @step batches m m' facts hrun hstep ih =>
    have hsplit : Core.reservations plan.surface.id
          (batches ++ [facts]).flatten
        = Core.reservations plan.surface.id batches.flatten
          ++ Core.reservations plan.surface.id facts := by
      simp [Core.reservations, filterMap_append]
    rw [hsplit]
    rcases hstep.applies.origin hop with
      ⟨old, hold, hlater⟩ | ⟨new, hprepared, _, hlater⟩
    · rw [hlater.activationGeneration]
      exact mem_append_left _ (ih hold (hlater.creation ▸ hplan))
    · rw [hlater.activationGeneration]
      refine mem_append_right _
        (mem_filterMap.2 ⟨_, hprepared, ?_⟩)
      rw [hlater.creation] at hplan
      simp [DomainEvent.reserves, hplan]

/-- A surface keeps its activation, or is activated with a newer
generation, as long as it is in the model. -/
theorem Runs.onward (hm : Reachable m) (h : Runs m m') {s s' : Surface}
    (hs : m.surfaces[surface]? = some s)
    (hs' : m'.surfaces[surface]? = some s') : s.Onward s' := by
  induction h generalizing s' with
  | refl =>
    rw [hs] at hs'
    cases hs'
    exact .refl s
  | @tail between last hrun hlast ih =>
    obtain ⟨facts, hstep⟩ := hlast
    rcases hstep.applies.grows.surfaces surface s' hs' with
      ⟨old, hold, honward⟩ | hnew
    · exact (ih hold).trans honward
    · -- the id is taken: no later batch creates it
      obtain ⟨e, he, hnew⟩ := mem_flatMap.1 hnew
      have hheld : m.holds ⟨.surface, surface⟩ = true := by
        rw [JournalModel.holds]
        exact Std.ExtTreeMap.contains_iff_mem.2
          ((BTreeMap.mem_iff_get ..).2 ⟨s, hs⟩)
      exact absurd hnew
        (hstep.creates_fresh hm hrun hheld (by simp) he)

end History

-- ==== results

/-- The activation generations of a surface id over a history. -/
structure Fenced (batches : List (List DomainEvent)) (m : JournalModel)
    (surface : UInt32) : Prop where
  increasing : (reservations surface batches.flatten).Pairwise (· < ·)
  bounded : ∀ g ∈ reservations surface batches.flatten,
    ∃ high, m.activationHighWater[surface]? = some high ∧ g ≤ high
  recorded : ∀ (id : OperationId) (op : Operation) (plan : CreationPlan),
    m.operations[id]? = some op → op.creation = some plan →
    plan.surface.id = surface →
    op.activationGeneration ∈ reservations surface batches.flatten
  onward : ∀ (m' : JournalModel) (s s' : Surface), Runs m m' →
    m.surfaces[surface]? = some s → m'.surfaces[surface]? = some s' →
    ∀ g, s.generation = some g → ∃ g', s'.generation = some g' ∧ g ≤ g'

/-- Over every command run, the generations reserved for a surface id
strictly increase and stay below its high water mark, and the generation
of its activation never decreases. -/
theorem activations_fenced {batches : List (List DomainEvent)}
    {m : JournalModel} (h : History batches m) (surface : UInt32) :
    Fenced batches m surface where
  increasing := h.reservations.1
  bounded g hg := by
    obtain ⟨hpositive, hle⟩ := h.reservations.2 g hg
    unfold JournalModel.mark at hle
    cases hhigh : m.activationHighWater[surface]? with
    | none =>
      rw [hhigh] at hle
      exact absurd (UInt64.lt_of_lt_of_le hpositive hle) (by simp)
    | some high =>
      rw [hhigh] at hle
      exact ⟨high, rfl, hle⟩
  recorded id op plan hop hplan hid := by
    subst hid
    exact h.reserved hop hplan
  onward m' s s' hrun hs hs' := Runs.onward h.reachable hrun hs hs'

/-- Two preparations for the surface of `creationRun`: one that fails,
and one after it. -/
def fencingRun : List StructuralCommand := creationRun ++ [
  .prepareCreation ⟨"first"⟩ "command" ⟨1⟩ {
    destination := .convert 4 (some 1) none
    surface := ⟨4, "editor", none⟩
    tabName := "tab"
    explicitName := none },
  .finishCreation ⟨"first"⟩ (.failed "no editor"),
  .prepareCreation ⟨"second"⟩ "command" ⟨1⟩ {
    destination := .convert 4 (some 1) none
    surface := ⟨4, "editor", none⟩
    tabName := "tab"
    explicitName := none }]

theorem activations_fenced_reserved :
    ∃ batches m, History batches m
      ∧ reservations 4 batches.flatten = [1, 2, 3]
      ∧ Fenced batches m 4 := by
  obtain ⟨⟨batches, m⟩, hrun, hcheck⟩ := exists_of_check (by decide +kernel :
    (runCommands JournalModel.default fencingRun).toOption.any
      (fun r => reservations 4 r.1.flatten = [1, 2, 3]) = true)
  have h : History batches m := runCommands_history .start hrun
  exact ⟨batches, m, h, of_decide_eq_true hcheck, activations_fenced h 4⟩

end Tasty.Core
