/-
From one event to a batch, and from a batch to a run.

`evolve` numbers the events it applies; nothing it decides about the
structure reads those numbers. `Applies m facts m'` is the batch without
the journal position: each fact applied in turn. A property that every
event keeps, and that does not speak of the position, is kept by every
accepted batch and so by every run.
-/
import Tasty.Core.ForestReplace

namespace Tasty.Core

variable {m m' : JournalModel} {es : List DomainEvent}

-- ==== one batch

/-- `m'` is `m` after the facts, whatever the journal position. -/
def Applies (m : JournalModel) : List DomainEvent → JournalModel → Prop
  | [], m' => ∃ a, m' = { m with applied := a }
  | e :: es, m' =>
    ∃ m₁ a, apply m e = .ok m₁ ∧ Applies { m₁ with applied := a } es m'

/-- Moving the journal position at the end changes nothing else. -/
theorem Applies.withApplied (h : Applies m es m') (a : Applied) :
    Applies m es { m' with applied := a } := by
  induction es generalizing m with
  | nil =>
    obtain ⟨b, hb⟩ := h
    exact ⟨a, by rw [hb]⟩
  | cons e es ih =>
    obtain ⟨m₁, b, happly, hrest⟩ := h
    exact ⟨m₁, b, happly, ih hrest⟩

theorem applyRecordedAll_applies {events : List RecordedEvent}
    (h : applyRecordedAll m events = .ok m') :
    Applies m (events.map RecordedEvent.event) m' := by
  induction events generalizing m with
  | nil =>
    cases h
    exact ⟨_, rfl⟩
  | cons recorded events ih =>
    obtain ⟨m₁, hone, hrest⟩ := bind_ok h
    obtain ⟨_, hone⟩ := guard_ok hone
    obtain ⟨m₂, happly, hone⟩ := bind_ok hone
    cases hone
    exact ⟨m₂, _, happly, ih hrest⟩

/-- A batch in two parts. -/
theorem Applies.split {es' : List DomainEvent} (h : Applies m (es ++ es') m') :
    ∃ between, Applies m es between ∧ Applies between es' m' := by
  induction es generalizing m with
  | nil => exact ⟨m, ⟨m.applied, rfl⟩, h⟩
  | cons e es ih =>
    obtain ⟨m₁, a, happly, hrest⟩ := h
    obtain ⟨between, hfirst, hsecond⟩ := ih hrest
    exact ⟨between, ⟨m₁, a, happly, hfirst⟩, hsecond⟩

/-- A batch of one fact. -/
theorem Applies.single {e : DomainEvent} (h : Applies m [e] m') :
    ∃ m₁ a, apply m e = .ok m₁ ∧ m' = { m₁ with applied := a } := by
  obtain ⟨m₁, _, happly, a, hm'⟩ := h
  exact ⟨m₁, a, happly, hm'⟩

theorem evolve_applies {b : DomainBatch}
    (h : evolve m b = .ok m') : Applies m b.facts m' := by
  have h := then_ok h
  split at h
  · rename_i hempty
    cases h
    unfold DomainBatch.facts
    rw [List.isEmpty_iff.1 hempty]
    exact ⟨_, rfl⟩
  · have h := then_ok h
    obtain ⟨next, hall, h⟩ := bind_ok h
    cases h
    exact (applyRecordedAll_applies hall).withApplied _

/-- The induction rule of a batch: what no position and no event of it
breaks, the batch keeps. -/
theorem Applies.preserves {I : JournalModel → Prop}
    (hposition : ∀ m a, I m → I { m with applied := a })
    (hevent : ∀ m m' e, e ∈ es → I m → apply m e = .ok m' → I m')
    (hm : I m) (h : Applies m es m') : I m' := by
  induction es generalizing m with
  | nil =>
    obtain ⟨a, ha⟩ := h
    rw [ha]
    exact hposition m a hm
  | cons e es ih =>
    obtain ⟨m₁, a, happly, hrest⟩ := h
    have hm₁ := hevent m m₁ e List.mem_cons_self hm happly
    exact ih
      (fun m m' e he => hevent m m' e (List.mem_cons_of_mem _ he))
      (hposition m₁ a hm₁) hrest

-- ==== runs

/-- One accepted batch. -/
def Batched (m m' : JournalModel) : Prop :=
  ∃ b : DomainBatch, evolve m b = .ok m'

/-- Any number of accepted batches. -/
def Replays : JournalModel → JournalModel → Prop :=
  Relation.ReflTransGen Batched

/-- What every event keeps, every run of batches keeps. -/
theorem Replays.preserves {I : JournalModel → Prop}
    (hposition : ∀ m a, I m → I { m with applied := a })
    (hevent : ∀ m m' e, I m → apply m e = .ok m' → I m')
    {m m' : JournalModel} (hm : I m) (h : Replays m m') : I m' := by
  induction h with
  | refl => exact hm
  | tail _ hstep ih =>
    obtain ⟨b, hb⟩ := hstep
    exact (evolve_applies hb).preserves hposition
      (fun m m' e _ => hevent m m' e) ih

-- ==== well-formedness

/-- The events that leave the structure alone, and the others, each by its
lemma. -/
theorem apply_wellFormed {e : DomainEvent}
    (h : WellFormed m) (hok : apply m e = .ok m') : WellFormed m' := by
  by_cases hkind : e.onLedger = true
  · exact (apply_onLedger hkind hok).1.forest h
  cases e with
  | structureReplaced => exact Forest.replaceStructure h hok
  | categoryCreated => exact h.createCategory hok
  | categoryRenamed =>
    obtain ⟨categories, hcategories, hok⟩ := bind_ok hok
    cases hok
    exact h.renameCategory hcategories
  | categoryMoved =>
    obtain ⟨order, horder, hok⟩ := bind_ok hok
    cases hok
    exact { h with
      categories := h.categories.perm (moveIn_eq_ok horder) }
  | categoryClosed => exact h.closeCategory hok
  | workspaceCreated => exact h.createWorkspace hok
  | workspaceRenamed | workspaceDetailsSet | workspaceAttachMappingSet =>
    exact h.editWorkspace (by intro w; rfl) (by intro w; rfl) hok
  | workspaceMoved => exact h.moveWorkspace hok
  | workspaceClosed => exact h.closeWorkspace hok
  | paneSplit => exact h.splitPane (by simp) hok
  | paneMoved => exact h.movePane (by simp) hok
  | paneClosed => exact h.closePane hok
  | tabCreated => exact h.createTab (by simp) (by simp) hok
  | tabRenamed => exact h.editTab (by intro t; rfl) (by intro t; rfl) hok
  | tabExplicitNameSet =>
    exact h.editTab (by intro t; rfl) (by intro t; rfl) hok
  | tabMoved => exact h.moveTab (by simp) hok
  | tabClosed => exact h.closeTab (by simp) hok
  | surfaceSplit => exact h.splitSurface (by simp) hok
  | surfaceMoved => exact h.moveSurface (by simp) hok
  | surfaceClosed => exact h.closeSurface hok
  | surfaceConverted => exact h.convertSurface hok
  | surfaceCreationSeeded => exact h.seedSurface hok
  | surfaceSeedImported => exact h.importSeed hok
  | surfaceDataRecorded => exact h.recordData hok
  | surfaceActivationChanged => exact h.activation hok
  | paneRatioSet => exact h.setPaneRatio hok
  | surfaceRatioSet => exact h.setSurfaceRatio hok
  | metadataSet =>
    unfold apply at hok
    exact h.editMetadata hok
  | metadataRemoved => exact h.editMetadata hok
  | _ => exact absurd rfl hkind

theorem Replays.wellFormed
    (h : Replays JournalModel.default m) : WellFormed m :=
  h.preserves (fun _ a hm => hm.withApplied a)
    (fun _ _ _ hm hok => apply_wellFormed hm hok) wellFormed_default

end Tasty.Core
