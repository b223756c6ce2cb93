/-
The engine's binding, forwarded commands, captures and recovery
(`crates/tasty-core/src/command/{bootstrap,forward}.rs`, `command.rs`).
-/
import Tasty.Core.Command

namespace Tasty.Core

namespace Bootstrap

/-- `StructuralCommand::RetireEngine`. -/
def retireEngine (m : JournalModel) (expectedIncarnation : UInt64) :
    Decided StructuralDecision := do
  rejectIf (m.engineIncarnation ≠ expectedIncarnation
      ∨ expectedIncarnation = 0)
    "cannot retire a different engine incarnation"
  .ok (.plain
    (if m.engineRetired then [] else [.engineRetired expectedIncarnation])
    .updated)

/-- What a reset removes: undo records, workspaces, every category but
`normal`. -/
def resetEvents (m : JournalModel) : List DomainEvent :=
  m.undoRecords.map (fun record => .undoRecordEvicted record.id)
    ++ m.workspaceOrder.map .workspaceClosed
    ++ (m.categoryOrder.filter (· ≠ 0)).map .categoryClosed

/-- The incarnation an engine opens in, and the event that starts it. -/
def nextIncarnation (m : JournalModel) (reset : Bool) :
    Decided (List DomainEvent × UInt64) :=
  if reset ∨ m.engineIncarnation = 0 then do
    let current ← orReject (checkedSucc m.engineIncarnation)
      "engine incarnation exhausted"
    .ok ([.engineIncarnationStarted m.engineIncarnation current], current)
  else .ok ([], m.engineIncarnation)

/-- `normal` is created when it is missing, at the front. -/
def normalEvents (m : JournalModel) (name : String) :
    List DomainEvent :=
  if m.categories.contains 0 then [] else [.categoryCreated 0 name 0]

/-- `StructuralCommand::OpenEngine`. -/
def openEngine (m : JournalModel) (expectedIncarnation : UInt64)
    (resetStructure : Bool) (normalCategoryName : String) :
    Decided StructuralDecision := do
  rejectIf (m.engineIncarnation ≠ expectedIncarnation)
    "engine binding changed before bootstrap"
  let reset := resetStructure || m.engineRetired
  let (started, incarnation) ← nextIncarnation m reset
  .ok (.plain
    (started ++ (if reset then resetEvents m else [])
      ++ normalEvents m normalCategoryName)
    (.engineOpened incarnation))

end Bootstrap

namespace Forward

/-- `StructuralCommand::PrepareForward`. -/
def prepareForward (m : JournalModel) (operation : OperationId)
    (commandId : String) (input : DataRef) :
    Decided StructuralDecision :=
  .ok {
    events := [.operationPrepared
      { Operation.new m operation commandId input with forward := true }]
    result := .pending operation
    effects := [.forwardStructure operation input]
    completedCommand := none }

def finishedResult (operation : OperationId) :
    OperationOutcome → Decided StructuralResult
  | .succeeded => .ok .updated
  | .uncertain _ => .ok (.pending operation)
  | .failed reason | .cancelled reason => .ok (.failed reason)
  | .superseded _ => .error (.reject
      ⟨"forward cannot be silently superseded"⟩)

/-- `StructuralCommand::FinishForward`. -/
def finishForward (m : JournalModel) (operation : OperationId)
    (outcome : OperationOutcome) : Decided StructuralDecision := do
  let original ← orReject
    (m.operations[operation]?.filter fun op =>
      op.forward && op.outcome.isNone)
    "forward operation is not pending"
  let result ← finishedResult operation outcome
  .ok {
    events := [.operationFinished operation outcome]
    result
    effects := []
    completedCommand :=
      if outcome.isUncertain then none else some original.commandId }

end Forward

namespace Recovery

/-- The outcomes recovery may write. -/
def mayRecover : OperationOutcome → Bool
  | .cancelled _ | .uncertain _ | .superseded _ => true
  | _ => false

/-- `StructuralCommand::RecoverOperation`. -/
def recoverOperation (m : JournalModel) (operation : OperationId)
    (outcome : OperationOutcome) (evidence : DataRef) :
    Decided StructuralDecision := do
  let previous ← orReject m.operations[operation]?
    "recovery operation missing"
  rejectIf (previous.outcome.isSome = true ∨ evidence.raw = 0
      ∨ mayRecover outcome = false)
    "recovery observation cannot invent a successful execution"
  .ok {
    events := [.operationFinished operation outcome,
      .operationRecoveryObserved operation evidence]
    result := .pending operation
    effects := []
    completedCommand := some previous.commandId }

/-- `StructuralCommand::RecordCapture`. -/
def recordCapture (m : JournalModel) (surface : UInt32) (kind : String)
    (activation : Option UInt64) (contentGeneration : UInt64)
    (snapshotSchema : UInt32) (data : DataRef) :
    Decided StructuralDecision := do
  let current ← orReject m.surfaces[surface]?
    "capture target no longer exists"
  rejectIf (current.kind ≠ kind ∨ current.generation ≠ activation)
    "capture belongs to an earlier kind instance"
  .ok (.plain
    [.surfaceDataRecorded surface activation contentGeneration
      snapshotSchema data]
    .updated)

end Recovery

end Tasty.Core
