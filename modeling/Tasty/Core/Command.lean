/-
Structural commands and what deciding one yields
(`crates/tasty-core/src/command.rs`): inputs with fixed identities and
values, never live services or an id allocator.

A decision is computed in `Decided`. A Rust `Err(Rejection(..))` is
`reject`; a map index, slice or addition that would panic is `panic`, so
that the absence of panics can be stated.
-/
import Tasty.Core.Evolve
import Tasty.Lib.Except

namespace Tasty.Core

inductive StructuralCommand where
  | reconcilePreparation (operation : OperationId) (evidence : DataRef)
      (discarded : Option String)
  | reconcileRetirement (operation : OperationId) (evidence : DataRef)
  | recoverOperation (operation : OperationId)
      (outcome : OperationOutcome) (evidence : DataRef)
  | replace (operation : OperationId) (commandId : String)
      (input : DataRef) (replacement : Replacement)
      (expected : List RetiredSurface)
  | prepareForward (operation : OperationId) (commandId : String)
      (input : DataRef)
  | finishForward (operation : OperationId) (outcome : OperationOutcome)
  | prepareAssembly (operation : OperationId) (commandId : String)
      (input : DataRef) (plan : CreationAssembly)
  | recordCapture (surface : UInt32) (kind : String)
      (activation : Option UInt64) (contentGeneration : UInt64)
      (snapshotSchema : UInt32) (data : DataRef)
  | close (operation : OperationId) (commandId : String)
      (input : DataRef) (target : CloseTarget)
      (expected : List RetiredSurface) (undo : Option UndoCapture)
      (isUserClose remoteUserClose : Bool)
  | finishRetirement (operation : OperationId)
      (outcome : OperationOutcome)
  | retireEngine (expectedIncarnation : UInt64)
  | openEngine (expectedIncarnation : UInt64) (resetStructure : Bool)
      (normalCategoryName : String)
  | prepareCreation (operation : OperationId) (commandId : String)
      (input : DataRef) (plan : CreationPlan)
  | cancelUnstartedCreation (operation : OperationId) (reason : String)
  | rejectInstallation (operation : OperationId) (reason : String)
  | finishCleanup (operation : OperationId)
  | markPreparationUncertain (operation : OperationId) (reason : String)
  | finishCreation (operation : OperationId) (result : PreparationResult)
  | resetCategories
  | createCategory (reservedId : UInt32) (name : String)
  | renameCategory (id : UInt32) (name : String)
  | deleteCategory (id : UInt32)
  | reorderCategory (id : UInt32) (toIndex : Usize)
  | setWorkspaceCategory (workspaceId category : UInt32)
  | updateWorkspaceMeta (workspaceId : UInt32)
      (name subtitle description : Option String)
  | setWorkspaceAttachMapping (workspaceId : UInt32)
      (mapping : Option WorkspaceAttachMapping)
  | moveWorkspace (workspaceId : UInt32) (toIndex : Usize)
  | renameTab (tabId : UInt32) (name : Option String)
  | moveTab (paneId tabId : UInt32) (toIndex : Usize)
  | setPaneRatio (workspaceId : UInt32) (path : List Bool)
      (expectedLeaves : List UInt32) (expectedRevision : UInt64)
      (ratio : Ratio)
  | setSurfaceRatio (tabId : UInt32) (path : List Bool)
      (expectedLeaves : List UInt32) (expectedRevision : UInt64)
      (ratio : Ratio)

inductive StructuralResult where
  | closed (closed : Bool)
  | engineOpened (incarnation : UInt64)
  | pending (operation : OperationId)
  | created (workspace pane tab : Option UInt32) (surface : UInt32)
  | failed (reason : String)
  | updated
  | createdCategory (id : UInt32)
  | moved (moved : Bool)
  deriving DecidableEq

/-- Obligations, not callbacks (`creation.rs`). -/
inductive StructuralEffect where
  | forwardStructure (operation : OperationId) (input : DataRef)
  | retireSurfaces (operation : OperationId) (plan : RetirementPlan)
  | prepareSurface (operation : OperationId) (input : DataRef)
      (surface : UInt32) (kind : String) (activationGeneration : UInt64)
  deriving DecidableEq

structure StructuralDecision where
  events : List DomainEvent
  result : StructuralResult
  effects : List StructuralEffect
  completedCommand : Option String

/-- How deciding fails. -/
inductive DecideError where
  | reject (reason : Rejection)
  | panic
  deriving DecidableEq

abbrev Decided := Except DecideError

-- ==== errors of a decision

/-- `return Err(Rejection(message))` under a condition. -/
def rejectIf (p : Prop) [Decidable p] (message : String) : Decided Unit :=
  if p then .error (.reject ⟨message⟩) else .ok ()

/-- `ok_or_else(|| Rejection(message))`. -/
def orReject {α : Type} (value : Option α) (message : String) :
    Decided α :=
  match value with
  | some a => .ok a
  | none => .error (.reject ⟨message⟩)

/-- `map[&key]`: a panic when the key is missing. -/
def orPanic {α : Type} (value : Option α) : Decided α :=
  match value with
  | some a => .ok a
  | none => .error .panic

/-- `?` on a result whose error is a `Rejection`. -/
def orRaise {α : Type} (value : Except Rejection α) : Decided α :=
  match value with
  | .ok a => .ok a
  | .error r => .error (.reject r)

/-- `map_err(|error| Rejection(error.to_string()))`. -/
def orInvalid {α : Type} (value : Evolved α) : Decided α :=
  match value with
  | .ok a => .ok a
  | .error e => .error (.reject ⟨e.text⟩)

section

variable {α : Type} {a : α} {message : String}

@[simp] theorem rejectIf_eq_ok {p : Prop} [Decidable p] {u : Unit} :
    rejectIf p message = .ok u ↔ ¬ p := by
  unfold rejectIf
  by_cases hp : p <;> simp [hp]

@[simp] theorem orReject_eq_ok {value : Option α} :
    orReject value message = .ok a ↔ value = some a := by
  unfold orReject
  cases value <;> simp

@[simp] theorem orPanic_eq_ok {value : Option α} :
    orPanic value = .ok a ↔ value = some a := by
  unfold orPanic
  cases value <;> simp

@[simp] theorem orRaise_eq_ok {value : Except Rejection α} :
    orRaise value = .ok a ↔ value = .ok a := by
  unfold orRaise
  cases value <;> simp

@[simp] theorem orInvalid_eq_ok {value : Evolved α} :
    orInvalid value = .ok a ↔ value = .ok a := by
  unfold orInvalid
  cases value <;> simp

end

-- ==== what families share

/-- A decision that emits nothing. -/
def StructuralDecision.noop (result : StructuralResult) :
    StructuralDecision :=
  { events := [], result, effects := [], completedCommand := none }

/-- A decision of events alone. -/
def StructuralDecision.plain (events : List DomainEvent)
    (result : StructuralResult) : StructuralDecision :=
  { events, result, effects := [], completedCommand := none }

/-- The fields every prepared operation starts with. -/
def Operation.new (m : JournalModel) (id : OperationId)
    (commandId : String) (input : DataRef) : Operation where
  id := id
  commandId := commandId
  engineIncarnation := m.engineIncarnation
  creation := none
  assembly := none
  retirement := none
  forward := false
  targets := []
  reserved := []
  input := input
  activationGeneration := 0
  outcome := none
  pendingOutcome := none
  cleanup := none
  preparedData := none
  preparedDeferred := false
  resourcePrepared := false
  reconciliationEvidence := none

/-- `after.checked_add(index as u64 + 1)`. -/
def revisionAt (after : UInt64) (index : Nat) : Option UInt64 :=
  if after.toNat + (index + 1) < UInt64.size then
    some (after + UInt64.ofNat (index + 1))
  else none

/-- The events with the revisions that follow `after`. -/
def record (overflow : DecideError) (after : UInt64) :
    Nat → List DomainEvent → Decided (List RecordedEvent)
  | _, [] => .ok []
  | index, event :: rest => do
      let revision ← (match revisionAt after index with
        | some revision => .ok revision
        | none => .error overflow)
      let recorded ← record overflow after (index + 1) rest
      .ok (⟨revision, event⟩ :: recorded)

theorem record_events {overflow : DecideError} {after : UInt64}
    {index : Nat} {events : List DomainEvent} {recorded : List RecordedEvent}
    (h : record overflow after index events = .ok recorded) :
    recorded.map RecordedEvent.event = events := by
  induction events generalizing index recorded with
  | nil =>
    cases h
    rfl
  | cons event rest ih =>
    obtain ⟨revision, _, h⟩ := bind_ok h
    obtain ⟨later, hlater, h⟩ := bind_ok h
    cases h
    rw [List.map_cons, ih hlater]

end Tasty.Core
