/-
Multi-leaf restoration (`crates/tasty-core/src/command/assembly.rs`): a
coordinator and one member operation for each leaf, published at once.
-/
import Tasty.Core.Plan

namespace Tasty.Core.Assembly

open CreationAssembly (member)

/-- `checked_add(1)` on a batch position. -/
def nextBatch (m : JournalModel) (message : String) : Decided BatchId :=
  orReject (checkedSucc (m.applied.batch.getD 0)) message

/-- Apply the events to a private copy, as the next batch. -/
def tryBatch (m : JournalModel) (exhausted : String)
    (overflow : DecideError) (events : List DomainEvent) :
    Decided Unit := do
  let batchId ← nextBatch m exhausted
  let events ← record overflow (m.applied.revision.getD 0) 0 events
  let _ ← orInvalid (evolve m ⟨batchId, events⟩)
  .ok ()

-- ==== preparation

/-- The operation of one leaf. -/
def memberOperation (m : JournalModel) (operation : OperationId)
    (commandId : String) (plan : CreationAssembly) (surface : UInt32)
    (value : Surface) : Decided Operation := do
  let generation ← orReject
    (checkedSucc ((m.activationHighWater[surface]?).getD 0))
    "surface activation exhausted"
  let tab ← orReject plan.snapshot.tabs[value.tab]?
    "assembly surface parent missing"
  let input ← orPanic plan.inputs[surface]?
  .ok { Operation.new m (member operation surface) commandId input with
    creation := some {
      destination := .assembly operation
      surface := { id := surface, kind := value.kind, data := value.data }
      tabName := tab.name
      explicitName := tab.explicitName }
    activationGeneration := generation }

/-- The effect that prepares one leaf. -/
def memberEffect (op : Operation) (surface : UInt32) (value : Surface) :
    StructuralEffect :=
  .prepareSurface op.id op.input surface value.kind op.activationGeneration

/-- The members of an assembly, in id order. -/
def memberOperations (m : JournalModel) (operation : OperationId)
    (commandId : String) (plan : CreationAssembly) :
    List (UInt32 × Surface) →
    Decided (List (Operation × StructuralEffect))
  | [] => .ok []
  | (surface, value) :: rest => do
      let op ← memberOperation m operation commandId plan surface value
      let members ← memberOperations m operation commandId plan rest
      .ok ((op, memberEffect op surface value) :: members)

/-- The coordinator of an assembly. -/
def coordinator (m : JournalModel) (operation : OperationId)
    (commandId : String) (input : DataRef) (plan : CreationAssembly) :
    Operation :=
  { Operation.new m operation commandId input with
    assembly := some plan
    reserved := plan.reservedIds }

/-- `StructuralCommand::PrepareAssembly`: the complete candidate is tried
before any leaf is prepared. -/
def prepareAssembly (m : JournalModel) (operation : OperationId)
    (commandId : String) (input : DataRef) (plan : CreationAssembly) :
    Decided StructuralDecision := do
  rejectIf (plan.targetIsLive m = false
      ∨ plan.snapshot.surfaces.isEmpty = true
      ∨ plan.inputs.keys ≠ plan.snapshot.surfaces.keys)
    "restoration assembly is empty or its fixed inputs/target differ"
  let facts ← plan.facts m plan.snapshot.surfaces.keys
  tryBatch m "batch exhausted" .panic facts
  let members ← memberOperations m operation commandId plan
    plan.snapshot.surfaces.toList
  .ok {
    events := .operationPrepared (coordinator m operation commandId input plan)
      :: members.map fun (op, _) => .operationPrepared op
    result := .pending operation
    effects := members.map Prod.snd
    completedCommand := none }

-- ==== settlement

/-- `Some(Failed | Cancelled | Superseded)`. -/
def fellThrough : Option OperationOutcome → Bool
  | some (.failed _) | some (.cancelled _) | some (.superseded _) => true
  | _ => false

/-- The coordinator a member belongs to, its operation and its plan. -/
def groupOf (m : JournalModel) (op : Operation) (message : String) :
    Decided (OperationId × Operation × CreationAssembly) :=
  match op.creation with
  | some { destination := .assembly group, .. } => do
      let coordinator ← orReject m.operations[group]?
        "assembly coordinator missing"
      let plan ← orReject coordinator.assembly "assembly plan missing"
      .ok (group, coordinator, plan)
  | _ => .error (.reject ⟨message⟩)

/-- The outcome of the member for a leaf; the settling one has the
outcome it is being given. -/
def leafOutcome (m : JournalModel) (group : OperationId)
    (settling : OperationId) (outcome : OperationOutcome)
    (surface : UInt32) : Option OperationOutcome :=
  if member group surface = settling then some outcome
  else (m.operations[member group surface]?).bind Operation.outcome

/-- The prepared payload of each ready leaf replaces the captured one. -/
def withPrepared (m : JournalModel) (group : OperationId) :
    CreationAssembly → List UInt32 → Decided CreationAssembly
  | plan, [] => .ok plan
  | plan, surface :: rest => do
      let op ← orPanic m.operations[member group surface]?
      match op.preparedData with
      | none => withPrepared m group plan rest
      | some data => do
          let leaf ← orReject plan.snapshot.surfaces[surface]?
            "prepared surface missing"
          let surfaces := plan.snapshot.surfaces.insert surface
            { leaf with data := some data }
          withPrepared m group
            { plan with snapshot := { plan.snapshot with surfaces } } rest

/-- The phase a prepared resource is installed in. -/
def installedPhase (op : Operation) : ActivationPhase :=
  if op.preparedDeferred then .deferred else .ready

/-- Activation and seed of each ready leaf. -/
def leafActivations (m : JournalModel) (group : OperationId)
    (plan : CreationAssembly) : List UInt32 → Decided (List DomainEvent)
  | [] => .ok []
  | surface :: rest => do
      let op ← orPanic m.operations[member group surface]?
      let leaf ← orPanic plan.snapshot.surfaces[surface]?
      let later ← leafActivations m group plan rest
      .ok (.surfaceActivationChanged surface none
          ⟨op.activationGeneration, installedPhase op⟩
        :: .surfaceCreationSeeded surface op.activationGeneration
          (leaf.creationSeed.getD op.input)
        :: later)

/-- The undo record a finished assembly uses up. -/
def consumed (plan : CreationAssembly) : List DomainEvent :=
  match plan.undo with
  | some id => [.undoRecordConsumed id]
  | none => []

/-- A settlement that leaves its group waiting for recovery. -/
def uncertainGroup (events : List DomainEvent) (group : OperationId)
    (reason : String) : StructuralDecision :=
  .plain (events ++ [.operationFinished group (.uncertain reason)])
    (.pending group)

/-- No leaf is left: the group fails. -/
def emptyGroup (events : List DomainEvent) (group : OperationId)
    (commandId : String) : StructuralDecision :=
  let reason := "no restorable surface remained"
  { events := events ++ [.operationFinished group (.failed reason)]
    result := .failed reason
    effects := []
    completedCommand := some commandId }

/-- The publication of the ready leaves. -/
def publish (m : JournalModel) (group : OperationId)
    (commandId : String) (plan : CreationAssembly) (ready : List UInt32)
    (events : List DomainEvent) : Decided StructuralDecision := do
  let completed ← withPrepared m group plan ready
  let facts ← completed.facts m ready
  let activations ← leafActivations m group plan ready
  .ok {
    events := events ++ facts ++ activations ++ consumed plan
      ++ [.operationFinished group .succeeded]
    result := plan.result ready
    effects := []
    completedCommand := some commandId }

/-- A member's cleanup is over. The last one decides for the group. -/
def settle (m : JournalModel) (op : Operation)
    (outcome : OperationOutcome) : Decided StructuralDecision := do
  let (group, coordinator, plan) ← groupOf m op
    "operation is not an assembly member"
  let events := [DomainEvent.operationFinished op.id outcome]
  let outcomes := plan.snapshot.surfaces.keys.map fun surface =>
    (surface, leafOutcome m group op.id outcome surface)
  let ready :=
    (outcomes.filter (·.2 = some .succeeded)).map Prod.fst
  let failed := outcomes.any fun o => fellThrough o.2
  let waiting := outcomes.any fun o =>
    o.2 ≠ some .succeeded && !fellThrough o.2
  if waiting then .ok (.plain events (.pending group))
  else if failed && !plan.omitFailed && !ready.isEmpty then
    -- Installed peers may be registered outside; recovery has to
    -- reconcile those owners.
    .ok (uncertainGroup events group
      "assembly peer failed after resources were prepared")
  else if ready.isEmpty then
    .ok (emptyGroup events group coordinator.commandId)
  else if !plan.targetIsLive m
      || coordinator.engineIncarnation ≠ m.engineIncarnation then
    .ok (uncertainGroup events group
      "assembly target changed after installation")
  else publish m group coordinator.commandId plan ready events

-- ==== prepared members

/-- The fact a preparation result is recorded as. -/
def preparedFact (id : OperationId) : PreparationResult → DomainEvent
  | .ready data => .operationResourcePrepared id data false
  | .deferred data => .operationResourcePrepared id data true
  | .failed reason => .operationFinished id (.failed reason)

/-- Where a peer stands: a private resource, fallen through, or not
known yet. -/
inductive PeerState where
  | held (op : Operation) (data : Option DataRef) (deferred : Bool)
  | fell
  | waits

def peerState (op : Operation) (settling : OperationId)
    (id : OperationId) (result : PreparationResult) : PeerState :=
  if id = settling then
    match result with
    | .ready data => .held op data false
    | .deferred data => .held op data true
    | .failed _ => .fell
  else if fellThrough op.outcome then .fell
  else if op.outcome.isNone && op.pendingOutcome.isNone
      && op.cleanup.isNone && op.resourcePrepared then
    .held op op.preparedData op.preparedDeferred
  else .waits

/-- The state of every member of the group, in id order. -/
def peerStates (m : JournalModel) (group settling : OperationId)
    (result : PreparationResult) :
    List UInt32 → Decided (List PeerState)
  | [] => .ok []
  | surface :: rest => do
      let peer ← orReject m.operations[member group surface]?
        "assembly member missing"
      let states ← peerStates m group settling result rest
      .ok (peerState peer settling (member group surface) result :: states)

/-- The obligation of one private resource: install it, or discard it
with its group. -/
def authorize (discarded : Bool) :
    List PeerState → Decided (List DomainEvent)
  | [] => .ok []
  | .held op data deferred :: rest => do
      let plan ← orReject op.creation "assembly peer has no leaf"
      let later ← authorize discarded rest
      let fact :=
        if discarded then
          DomainEvent.operationAwaitingCleanup op.id
            (.cancelled
              "assembly was cancelled before external installation")
            (.discardPrepared plan.surface.id op.activationGeneration)
            data deferred
        else
          .operationAwaitingCleanup op.id .succeeded
            (.installPrepared plan.surface.id none) data deferred
      .ok (fact :: later)
  | .fell :: rest | .waits :: rest => authorize discarded rest

def PeerState.isHeld : PeerState → Bool
  | held .. => true
  | _ => false

def PeerState.isFell : PeerState → Bool
  | fell => true
  | _ => false

def PeerState.isWaiting : PeerState → Bool
  | waits => true
  | _ => false

/-- A member's private resource is ready or failed. Nothing is
authorized before every member has a result. -/
def preparedMember (m : JournalModel) (op : Operation)
    (result : PreparationResult) : Decided StructuralDecision := do
  let (group, coordinator, plan) ← groupOf m op
    "preparation is not an assembly member"
  let events := [preparedFact op.id result]
  let states ← peerStates m group op.id result
    plan.snapshot.surfaces.keys
  if states.any PeerState.isWaiting then
    .ok (.plain events (.pending group))
  else if !states.any PeerState.isHeld then
    .ok (emptyGroup events group coordinator.commandId)
  else do
    let discarded := (!plan.omitFailed && states.any PeerState.isFell)
      || !plan.targetIsLive m
      || coordinator.engineIncarnation ≠ m.engineIncarnation
    let obligations ← authorize discarded states
    .ok (.plain (events ++ obligations) (.pending group))

/-- Whether a member of the group entered installation or has an outcome
recovery has to look at. -/
def enteredInstallation (m : JournalModel) (group : OperationId) : Bool :=
  BTreeMap.anyValue m.operations fun peer =>
    (match peer.creation with
      | some { destination := .assembly operation, .. } => operation = group
      | _ => false)
    && (peer.pendingOutcome.isSome || peer.cleanup.isSome
      || peer.outcome = some .succeeded || peer.isUncertain)

/-- A cancelled member is a preparation result for its peers, unless one
of them is past preparation. -/
def cancelUnstartedMember (m : JournalModel) (op : Operation)
    (reason : String) : Decided StructuralDecision :=
  match op.creation with
  | some { destination := .assembly group, .. } =>
    if enteredInstallation m group then
      settle m op (.cancelled reason)
    else do
      let decision ← preparedMember m op (.failed reason)
      match decision.events with
      | .operationFinished id _ :: rest => do
          rejectIf (id ≠ op.id)
            "cancelled member fact belongs to another operation"
          .ok { decision with
            events := .operationFinished id (.cancelled reason) :: rest }
      | _ => .error (.reject
          ⟨"cancelled member has no terminal preparation fact"⟩)
  | _ => .error (.reject
      ⟨"cancelled preparation is not an assembly member"⟩)

end Tasty.Core.Assembly
