/-
Closing a subtree and replacing one by another
(`crates/tasty-core/src/command/{retirement,replacement}.rs`), with the
reconciliation of their cleanup (`command.rs`).
-/
import Tasty.Core.Command

namespace Tasty.Core

namespace Retirement

/-- What a plan records of a surface it retires. -/
def retired (id : UInt32) (surface : Surface) : RetiredSurface where
  id := id
  kind := surface.kind
  activationGeneration := surface.generation

/-- The surfaces a close retires, as they are now. -/
def observed (m : JournalModel) (ids : List UInt32) :
    Decided (List RetiredSurface) :=
  ids.mapM fun id => do
    let surface ← orReject m.surfaces[id]? s!"surface {id} is missing"
    .ok (retired id surface)

/-- The pane each closed tab was listed in. -/
def tabParents (m : JournalModel) (removed : List EntityId) :
    Decided (List (UInt32 × UInt32)) :=
  (removed.filter (·.kind = .tab)).mapM fun entity => do
    let (pane, _) ← orReject (tabParent m entity.id)
      "closed tab has no parent"
    .ok (entity.id, pane)

/-- The undo facts of a close; a full list loses its oldest record. -/
def undoFacts (m : JournalModel) (operation : OperationId)
    (target : CloseTarget) (isUserClose remoteUserClose : Bool) :
    Option UndoCapture → Decided (List DomainEvent)
  | none => .ok []
  | some capture => do
      rejectIf (isUserClose = false ∧ remoteUserClose = false)
        "only user close can append an undo record"
      let added := DomainEvent.undoRecordAdded
        { id := operation, target, capture }
      match m.undoRecords with
      | oldest :: _ =>
        if m.undoRecords.length ≥ 10 then
          .ok [.undoRecordEvicted oldest.id, added]
        else .ok [added]
      | [] => .ok [added]

/-- `StructuralCommand::Close`. -/
def close (m : JournalModel) (operation : OperationId)
    (commandId : String) (input : DataRef) (target : CloseTarget)
    (expected : List RetiredSurface) (undo : Option UndoCapture)
    (isUserClose remoteUserClose : Bool) :
    Decided StructuralDecision := do
  rejectIf (isUserClose = true ∧ remoteUserClose = true)
    "close cannot have both local and remote user origins"
  match closeFacts m target with
  | none => .ok (.noop (.closed false))
  | some (event, removed, ids) => do
      let surfaces ← observed m ids
      rejectIf (surfaces ≠ expected)
        "close target instance changed before commit"
      let parents ← tabParents m removed
      let plan : RetirementPlan :=
        { replacement := none, target, removed, surfaces,
          tabParents := parents, isUserClose, remoteUserClose, undo }
      let operationRecord :=
        { Operation.new m operation commandId input with
          retirement := some plan
          targets := removed }
      let undoing ← undoFacts m operation target isUserClose
        remoteUserClose undo
      .ok {
        events := .operationPrepared operationRecord :: undoing ++ [event]
        result := .pending operation
        effects := [.retireSurfaces operation plan]
        completedCommand := none }

/-- What a finished retirement reports. -/
def finishedResult (plan : RetirementPlan) :
    OperationOutcome → Decided StructuralResult
  | .succeeded =>
    if plan.replacement.isSome then .ok (.moved true)
    else .ok (.closed true)
  | .uncertain reason => .ok (.failed reason)
  | _ => .error (.reject
      ⟨"committed close cleanup requires success or explicit uncertainty"⟩)

/-- `StructuralCommand::FinishRetirement`. -/
def finishRetirement (m : JournalModel) (operation : OperationId)
    (outcome : OperationOutcome) : Decided StructuralDecision := do
  let op ← orReject m.operations[operation]?
    "retirement operation missing"
  match op.retirement with
  | none => .error (.reject
      ⟨"retirement cannot be completed from this state"⟩)
  | some plan => do
      rejectIf (op.outcome.isSome = true)
        "retirement cannot be completed from this state"
      let result ← finishedResult plan outcome
      .ok {
        events := [.operationFinished operation outcome]
        result
        effects := []
        completedCommand := some op.commandId }

/-- `StructuralCommand::ReconcileRetirement`. -/
def reconcileRetirement (m : JournalModel) (operation : OperationId)
    (evidence : DataRef) : Decided StructuralDecision := do
  let previous ← orReject m.operations[operation]?
    "reconciliation operation missing"
  rejectIf (previous.retirement.isNone = true
      ∨ previous.isUncertain = false ∨ evidence.raw = 0)
    "retirement reconciliation needs an uncertain cleanup and evidence"
  .ok {
    events := [.operationReconciled operation .succeeded evidence]
    result := .closed true
    effects := []
    completedCommand := some previous.commandId }

-- ==== replacement

/-- The surfaces of a list, indexed (`model.surfaces[&id]`). -/
def indexed (m : JournalModel) (ids : List UInt32) :
    Decided (List RetiredSurface) :=
  ids.mapM fun id => do
    let surface ← orPanic m.surfaces[id]?
    .ok (retired id surface)

/-- The pane each removed tab names (`model.tabs[&id].pane`). -/
def indexedParents (m : JournalModel) (removed : List EntityId) :
    Decided (List (UInt32 × UInt32)) :=
  (removed.filter (·.kind = .tab)).mapM fun entity => do
    let tab ← orPanic m.tabs[entity.id]?
    .ok (entity.id, tab.pane)

/-- The close target a replacement counts as. -/
def replacedTarget (target : EntityId) : Decided CloseTarget :=
  match target.kind with
  | .surface => .ok (.surface target.id)
  | .tab => .ok (.tab target.id)
  | .pane => .ok (.pane target.id)
  | _ => .error (.reject ⟨"unsupported replacement target"⟩)

/-- `StructuralCommand::Replace` once both subtrees are known. -/
def replaceKnown (m : JournalModel) (operation : OperationId)
    (commandId : String) (input : DataRef) (replacement : Replacement)
    (expected : List RetiredSurface) (source target : List UInt32) :
    Decided StructuralDecision := do
  let observed ← indexed m (source ++ target)
  rejectIf (observed ≠ expected)
    "replacement source or target instance changed before commit"
  let (_, removed) ← orRaise (replacement.simulate m)
  let surfaces ← indexed m
    ((removed.filter (·.kind = .surface)).map EntityId.id)
  let parents ← indexedParents m removed
  let closed ← replacedTarget replacement.target
  let plan : RetirementPlan :=
    { replacement := some replacement, target := closed, removed, surfaces,
      tabParents := parents, isUserClose := false,
      remoteUserClose := false, undo := none }
  let operationRecord :=
    { Operation.new m operation commandId input with
      retirement := some plan
      targets := [replacement.source, replacement.target] }
  .ok {
    events := [.operationPrepared operationRecord,
      .structureReplaced replacement removed]
    result := .pending operation
    effects := [.retireSurfaces operation plan]
    completedCommand := none }

/-- `StructuralCommand::Replace`. -/
def replace (m : JournalModel) (operation : OperationId)
    (commandId : String) (input : DataRef) (replacement : Replacement)
    (expected : List RetiredSurface) : Decided StructuralDecision :=
  if replacement.source = replacement.target then
    .ok (.noop (.moved false))
  else
    match Replacement.surfaces m replacement.source,
        Replacement.surfaces m replacement.target with
    | some source, some target =>
      replaceKnown m operation commandId input replacement expected
        source target
    | _, _ => .ok (.noop (.moved false))

end Retirement

end Tasty.Core
