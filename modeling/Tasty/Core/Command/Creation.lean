/-
Creations (`crates/tasty-core/src/command/creation.rs`): a resource is
prepared privately, then installed by one publication.
-/
import Tasty.Core.Command.Assembly

namespace Tasty.Core.Creation

open Assembly (installedPhase)

def validateTarget (m : JournalModel) (plan : CreationPlan) :
    Decided Unit :=
  rejectIf (m.engineRetired = true ∨ plan.targetIsLive m = false)
    "creation target no longer exists or its activation changed"

/-- An operation that still owns its surface. -/
def ownsSurface (surface : UInt32) (op : Operation) : Bool :=
  (match op.creation with
    | some creation => creation.surface.id = surface
    | none => false)
  && (op.outcome.isNone || op.isUncertain)

/-- `StructuralCommand::PrepareCreation`. -/
def prepareCreation (m : JournalModel) (operation : OperationId)
    (commandId : String) (input : DataRef) (plan : CreationPlan) :
    Decided StructuralDecision := do
  validateTarget m plan
  rejectIf (BTreeMap.anyValue m.operations
      (ownsSurface plan.surface.id) = true)
    "surface has an unresolved creation owner"
  rejectIf (plan.surface.kind.isEmpty = true)
    "surface kind must not be empty"
  let generation ← orReject
    (checkedSucc (lastGeneration m plan.surface.id))
    "activation generation exhausted"
  let op :=
    { Operation.new m operation commandId input with
      creation := some plan
      targets := plan.targets
      reserved := plan.reservedIds
      activationGeneration := generation }
  .ok {
    events := [.operationPrepared op]
    result := .pending operation
    effects := [.prepareSurface operation input plan.surface.id
      plan.surface.kind generation]
    completedCommand := none }

/-- A preparation that failed; with `discard` the resource it made has to
be released first. -/
def failed (op : Operation) (plan : CreationPlan) (reason : String)
    (discard : Bool) : StructuralDecision where
  events :=
    if discard then
      [.operationAwaitingCleanup op.id (.cancelled reason)
        (.discardPrepared plan.surface.id op.activationGeneration) none
        false]
    else [.operationFinished op.id (.failed reason)]
  result := .failed reason
  effects := []
  completedCommand := if discard then none else some op.commandId

/-- `Some(previous_activation)` where a leaf is taken over. -/
def previousActivation : CreationDestination → Option (Option UInt64)
  | .convert _ previous _ | .restore _ previous => some previous
  | _ => none

/-- A resource that is ready awaits its installation. -/
def awaitInstallation (id : OperationId) (plan : CreationPlan)
    (data : Option DataRef) (deferred : Bool) : StructuralDecision :=
  .plain
    [.operationAwaitingCleanup id .succeeded
      (.installPrepared plan.surface.id
        (previousActivation plan.destination))
      data deferred]
    (.pending id)

/-- `FinishCreation` of a creation that is no member. -/
def finishPrepared (m : JournalModel) (id : OperationId)
    (op : Operation) (plan : CreationPlan) (result : PreparationResult) :
    StructuralDecision :=
  let install (data : Option DataRef) (deferred : Bool) :=
    if op.engineIncarnation ≠ m.engineIncarnation then
      failed op plan "engine incarnation changed during preparation" true
    else
      match validateTarget m plan with
      | .error (.reject error) => failed op plan error.message true
      | _ => awaitInstallation id plan data deferred
  match result with
  | .failed reason => failed op plan reason false
  | .ready data => install data false
  | .deferred data => install data true

/-- `StructuralCommand::FinishCreation`. -/
def finishCreation (m : JournalModel) (id : OperationId)
    (result : PreparationResult) : Decided StructuralDecision := do
  let op ← orReject m.operations[id]? "preparation operation not found"
  rejectIf (op.outcome.isSome = true ∨ op.pendingOutcome.isSome = true
      ∨ op.resourcePrepared = true)
    "preparation already has a result"
  let plan ← orReject op.creation "operation is not a creation"
  if op.isMember then Assembly.preparedMember m op result
  else .ok (finishPrepared m id op plan result)

/-- `StructuralCommand::MarkPreparationUncertain`. -/
def markPreparationUncertain (m : JournalModel) (id : OperationId)
    (reason : String) : Decided StructuralDecision := do
  let op ← orReject m.operations[id]? "uncertain operation not found"
  rejectIf (op.outcome.isSome = true) "operation already has an outcome"
  .ok (.plain [.operationFinished id (.uncertain reason)] (.pending id))

-- ==== publication

/-- The name a conversion gives the tab of its surface, when the surface
is alone in it. -/
def convertedName (m : JournalModel) (surface : UInt32)
    (explicitName : Option (Option String)) : List DomainEvent :=
  match explicitName, m.surfaces[surface]? with
  | some name, some s =>
    match m.tabs[s.tab]? with
    | some { layout := .leaf _, .. } => [.tabExplicitNameSet s.tab name]
    | _ => []
  | _, _ => []

/-- The tab a creation makes, with its explicit name. -/
def tabEvents (plan : CreationPlan) (pane tab : UInt32) (index : Usize) :
    List DomainEvent :=
  .tabCreated tab pane index plan.tabName plan.surface
    :: match plan.explicitName with
      | some name => [.tabExplicitNameSet tab (some name)]
      | none => []

/-- The structure facts of a publication. -/
def creationEvents (m : JournalModel) (plan : CreationPlan) :
    List DomainEvent :=
  match plan.destination with
  | .workspace workspace pane tab name category subtitle description
      attachMapping =>
      [.workspaceCreated workspace name category
          (usizeLen m.workspaceOrder) pane,
        .workspaceDetailsSet workspace subtitle description]
        ++ (if attachMapping.isSome then
            [.workspaceAttachMappingSet workspace attachMapping]
          else [])
        ++ tabEvents plan pane tab 0
  | .tab pane tab index => tabEvents plan pane tab index
  | .pane target pane tab split =>
    .paneSplit target pane split :: tabEvents plan pane tab 0
  | .split target split => [.surfaceSplit target plan.surface split]
  | .restore _ _ | .assembly _ => []
  | .convert surface _ explicitName =>
    .surfaceConverted surface plan.surface.kind plan.surface.data
      :: convertedName m surface explicitName

/-- `matches!(destination, Restore { .. })`. -/
def isRestore : CreationDestination → Bool
  | .restore .. => true
  | _ => false

/-- The facts of an installation: structure, activation and seed. -/
def installEvents (m : JournalModel) (op : Operation)
    (plan : CreationPlan) : List DomainEvent :=
  let plan := { plan with
    surface := { plan.surface with data := op.preparedData } }
  creationEvents m plan
    ++ [.surfaceActivationChanged plan.surface.id
        ((m.surfaces[plan.surface.id]?).bind Surface.generation)
        ⟨op.activationGeneration, installedPhase op⟩]
    ++ (if isRestore plan.destination then []
      else [.surfaceCreationSeeded plan.surface.id op.activationGeneration
        op.input])

/-- The facts before the outcome: those of an installation, checked
against the present model, or none. -/
def cleanupEvents (m : JournalModel) (op : Operation) :
    Decided (List DomainEvent) :=
  if op.awaitsInstallation then do
    let plan ← orReject op.creation "creation plan missing"
    validateTarget m plan
    rejectIf (op.engineIncarnation ≠ m.engineIncarnation)
      "engine incarnation changed while installation was authorized"
    .ok (installEvents m op plan)
  else .ok []

/-- What a finished cleanup reports. -/
def cleanupResult (op : Operation) :
    OperationOutcome → Decided StructuralResult
  | .succeeded => do
      let plan ← orReject op.creation "creation plan missing"
      .ok plan.createdResult
  | .failed reason | .cancelled reason | .superseded reason
  | .uncertain reason => .ok (.failed reason)

/-- `StructuralCommand::FinishCleanup`. -/
def finishCleanup (m : JournalModel) (id : OperationId) :
    Decided StructuralDecision := do
  let op ← orReject m.operations[id]? "cleanup operation not found"
  rejectIf (op.outcome.isSome = true) "cleanup already finished"
  let outcome ← orReject op.pendingOutcome
    "operation is not awaiting cleanup"
  if op.isMember then Assembly.settle m op outcome
  else do
    let result ← cleanupResult op outcome
    let events ← cleanupEvents m op
    .ok {
      events := events ++ [.operationFinished id outcome]
      result
      effects := []
      completedCommand := some op.commandId }

/-- A terminal decision that writes one outcome. -/
def terminal (id : OperationId) (op : Operation)
    (outcome : OperationOutcome) (reason : String) :
    StructuralDecision where
  events := [.operationFinished id outcome]
  result := .failed reason
  effects := []
  completedCommand := some op.commandId

/-- `StructuralCommand::RejectInstallation`. -/
def rejectInstallation (m : JournalModel) (id : OperationId)
    (reason : String) : Decided StructuralDecision := do
  let op ← orReject m.operations[id]? "installation operation missing"
  rejectIf (op.outcome.isSome = true ∨ op.awaitsInstallation = false)
    "installation is not waiting for publication"
  if op.isMember then Assembly.settle m op (.failed reason)
  else .ok (terminal id op (.failed reason) reason)

/-- `StructuralCommand::CancelUnstartedCreation`. -/
def cancelUnstartedCreation (m : JournalModel) (id : OperationId)
    (reason : String) : Decided StructuralDecision := do
  let op ← orReject m.operations[id]? "preparation operation not found"
  rejectIf (op.outcome.isSome = true ∨ op.pendingOutcome.isSome = true
      ∨ op.resourcePrepared = true)
    "operation is no longer unstarted"
  if op.isMember then Assembly.cancelUnstartedMember m op reason
  else .ok (terminal id op (.cancelled reason) reason)

-- ==== reconciliation

/-- The operation without its outcome. -/
def reopened (op : Operation) : Operation := { op with outcome := none }

/-- The scratch model of a reconciliation: the operation, and its
coordinator when that is uncertain too, lose their outcome. -/
def resume (m : JournalModel) (id : OperationId) (op : Operation)
    (plan : CreationPlan) : Decided JournalModel :=
  let operations := m.operations.insert id (reopened op)
  match plan.destination with
  | .assembly group => do
      let coordinator ← orReject operations[group]?
        "assembly coordinator missing"
      if coordinator.isUncertain then
        .ok { m with
          operations := operations.insert group (reopened coordinator) }
      else .ok { m with operations }
  | _ => .ok { m with operations }

/-- `model.operations.get(&id)` has an uncertain outcome. -/
def wasUncertain (m : JournalModel) (id : OperationId) : Bool :=
  match m.operations[id]? with
  | some op => op.isUncertain
  | none => false

/-- An outcome over an uncertain one becomes a reconciliation; one that
stays uncertain is not written again. -/
def reconciled (m : JournalModel) (evidence : DataRef) :
    DomainEvent → List DomainEvent
  | .operationFinished id outcome =>
    if wasUncertain m id then
      if outcome.isUncertain then []
      else [.operationReconciled id outcome evidence]
    else [.operationFinished id outcome]
  | event => [event]

/-- `StructuralCommand::ReconcilePreparation`: the terminal rules run on
the scratch model, the facts are reconciliations. -/
def reconcile (m : JournalModel) (id : OperationId) (evidence : DataRef)
    (discarded : Option String) : Decided StructuralDecision := do
  let previous ← orReject m.operations[id]?
    "preparation reconciliation operation missing"
  let plan ← orReject previous.creation
    "reconciliation operation is not a creation"
  rejectIf (evidence.raw = 0 ∨ previous.isUncertain = false)
    "preparation reconciliation requires an uncertain owner and evidence"
  let resumed ← resume m id previous plan
  let decision ← (match discarded with
    | some reason => rejectInstallation resumed id reason
    | none => finishCleanup resumed id)
  .ok { decision with
    events := decision.events.flatMap (reconciled m evidence) }

end Tasty.Core.Creation
