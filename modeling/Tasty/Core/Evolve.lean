/-
Pure evolve (`crates/tasty-core/src/evolve.rs`,
`evolve/lifecycle.rs`): one batch applied to a private copy of the
model, published only when every event applied.

A Rust helper that mutates through `get_mut` becomes a read followed by
an insertion at the same key. An error leaves no model behind, as the
copy is dropped.
-/
import Tasty.Core.Retirement

namespace Tasty.Core

/-- Why a batch does not apply. -/
inductive EvolveError where
  | staleBatch (last got : BatchId)
  | revisionGap (expected got : Revision)
  | missing (what : String)
  | duplicate (what : String)
  | indexOutOfRange (index len : Nat)
  | lastLeaf (what : String)
  | categoryNotEmpty (id : UInt32)
  | selfTarget (what : String)
  | missingKey (target key : String)
  | invalidFact (what : String)
  deriving DecidableEq

/-- The error text. -/
def EvolveError.text : EvolveError → String
  | staleBatch last got =>
    s!"batch {got} is not after the last applied batch {last}"
  | revisionGap expected got =>
    s!"structure revision {got} does not follow {expected}"
  | missing what => s!"{what} does not exist"
  | duplicate what => s!"{what} already exists"
  | indexOutOfRange index len =>
    s!"index {index} is out of range for {len} items"
  | lastLeaf what => s!"{what} is the last node of its layout"
  | categoryNotEmpty id => s!"category:{id} still has workspaces"
  | selfTarget what => s!"{what} cannot be moved next to itself"
  | missingKey target key => s!"metadata key {key} is not set on {target}"
  | invalidFact what => s!"invalid committed fact: {what}"

abbrev Evolved := Except EvolveError

-- ==== map and list

/-- `kind:id`, as errors name an entity. -/
def entityName (kind : IdKind) (id : UInt32) : String :=
  s!"{kind.label}:{id}"

/-- `get` and `get_mut`. -/
def get {V : Type} (map : BTreeMap UInt32 V) (kind : IdKind)
    (id : UInt32) : Evolved V :=
  match map[id]? with
  | some v => .ok v
  | none => .error (.missing (entityName kind id))

/-- `get_mut` followed by an assignment through the reference. -/
def modify {V : Type} (map : BTreeMap UInt32 V) (kind : IdKind)
    (id : UInt32) (f : V → V) : Evolved (BTreeMap UInt32 V) := do
  let v ← get map kind id
  .ok (map.insert id (f v))

def ensureAbsent {V : Type} (map : BTreeMap UInt32 V) (kind : IdKind)
    (id : UInt32) : Evolved Unit :=
  if map.contains id then .error (.duplicate (entityName kind id))
  else .ok ()

def insertAt (list : List UInt32) (index : Nat) (item : UInt32) :
    Evolved (List UInt32) :=
  if index > list.length then
    .error (.indexOutOfRange index list.length)
  else .ok (list.insertIdx index item)

/-- Take an item out and put it back at `index`, counted after the
removal. -/
def moveIn (list : List UInt32) (kind : IdKind) (item : UInt32)
    (index : Nat) : Evolved (List UInt32) :=
  if list.contains item then insertAt (list.erase item) index item
  else .error (.missing (entityName kind item))

/-- What a removal from a layout did, as a result. -/
def removedTree (result : RemoveLeaf UInt32) (name : String) :
    Evolved (SplitTree UInt32) :=
  match result with
  | .removed tree => .ok tree
  | .notFound => .error (.missing name)
  | .lastLeaf => .error (.lastLeaf name)

/-- `layout.split_leaf`, with the error of its caller. -/
def splitTree (layout : SplitTree UInt32) (target new : UInt32)
    (split : SplitSpec) (name : String) : Evolved (SplitTree UInt32) :=
  match layout.splitLeaf target new split.direction split.ratio
      split.placement with
  | some tree => .ok tree
  | none => .error (.missing name)

-- ==== categories

def createCategory (m : JournalModel) (id : UInt32) (name : String)
    (index : Nat) : Evolved JournalModel := do
  ensureAbsent m.categories .category id
  let order ← insertAt m.categoryOrder index id
  .ok { m with
    categoryOrder := order
    categories := m.categories.insert id { name } }

def closeCategory (m : JournalModel) (id : UInt32) :
    Evolved JournalModel := do
  let _ ← get m.categories .category id
  if BTreeMap.anyValue m.workspaces (·.category = id) then
    .error (.categoryNotEmpty id)
  else
    .ok { m with
      categories := m.categories.erase id
      categoryOrder := m.categoryOrder.filter (· ≠ id) }

-- ==== dropping whole subtrees

/-- Remove each listed surface; each must exist. -/
def dropSurfaces (surfaces : BTreeMap UInt32 Surface) :
    List UInt32 → Evolved (BTreeMap UInt32 Surface)
  | [] => .ok surfaces
  | id :: rest => do
      let _ ← get surfaces .surface id
      dropSurfaces (surfaces.erase id) rest

/-- Remove a tab and its surfaces. -/
def dropTab (m : JournalModel) (id : UInt32) : Evolved JournalModel := do
  let tab ← get m.tabs .tab id
  let surfaces ← dropSurfaces m.surfaces tab.layout.leaves
  .ok { m with tabs := m.tabs.erase id, surfaces }

def dropTabs (m : JournalModel) : List UInt32 → Evolved JournalModel
  | [] => .ok m
  | id :: rest => do
      let m ← dropTab m id
      dropTabs m rest

/-- Remove a pane with its tabs and surfaces; the caller has already
taken it out of its layout. -/
def dropPane (m : JournalModel) (id : UInt32) :
    Evolved JournalModel := do
  let pane ← get m.panes .pane id
  dropTabs { m with panes := m.panes.erase id } pane.tabs

def dropPanes (m : JournalModel) : List UInt32 → Evolved JournalModel
  | [] => .ok m
  | id :: rest => do
      let m ← dropPane m id
      dropPanes m rest

-- ==== workspaces

def createWorkspace (m : JournalModel) (id : UInt32) (name : String)
    (category : UInt32) (index : Nat) (pane : UInt32) :
    Evolved JournalModel := do
  ensureAbsent m.workspaces .workspace id
  ensureAbsent m.panes .pane pane
  let _ ← get m.categories .category category
  let order ← insertAt m.workspaceOrder index id
  .ok { m with
    workspaceOrder := order
    workspaces := m.workspaces.insert id
      { name, category, layout := .leaf pane, subtitle := "",
        description := "", attachMapping := none, metadata := ∅ }
    panes := m.panes.insert pane { workspace := id, tabs := [] } }

def moveWorkspace (m : JournalModel) (id category : UInt32)
    (index : Nat) : Evolved JournalModel := do
  let _ ← get m.categories .category category
  let workspaces ← modify m.workspaces .workspace id
    fun w => { w with category }
  let order ← moveIn m.workspaceOrder .workspace id index
  .ok { m with workspaces, workspaceOrder := order }

def closeWorkspace (m : JournalModel) (id : UInt32) :
    Evolved JournalModel := do
  let workspace ← get m.workspaces .workspace id
  dropPanes
    { m with
      workspaces := m.workspaces.erase id
      workspaceOrder := m.workspaceOrder.filter (· ≠ id) }
    workspace.layout.leaves

-- ==== panes

def attachPane (m : JournalModel) (workspace target pane : UInt32)
    (split : SplitSpec) : Evolved JournalModel := do
  let w ← get m.workspaces .workspace workspace
  let layout ← splitTree w.layout target pane split
    s!"pane:{target} in workspace:{workspace}"
  .ok { m with
    workspaces := m.workspaces.insert workspace { w with layout } }

def detachPane (m : JournalModel) (workspace pane : UInt32) :
    Evolved JournalModel := do
  let w ← get m.workspaces .workspace workspace
  let layout ← removedTree (w.layout.removeLeaf pane)
    (entityName .pane pane)
  .ok { m with
    workspaces := m.workspaces.insert workspace { w with layout } }

def splitPane (m : JournalModel) (target pane : UInt32)
    (split : SplitSpec) : Evolved JournalModel := do
  ensureAbsent m.panes .pane pane
  let beside ← get m.panes .pane target
  let m ← attachPane m beside.workspace target pane split
  .ok { m with
    panes := m.panes.insert pane
      { workspace := beside.workspace, tabs := [] } }

def movePane (m : JournalModel) (id target : UInt32)
    (split : SplitSpec) : Evolved JournalModel :=
  if id = target then .error (.selfTarget (entityName .pane id))
  else do
    let from_ ← get m.panes .pane id
    let dest ← get m.panes .pane target
    let m ← detachPane m from_.workspace id
    let m ← attachPane m dest.workspace target id split
    let panes ← modify m.panes .pane id
      fun p => { p with workspace := dest.workspace }
    .ok { m with panes }

def closePane (m : JournalModel) (id : UInt32) :
    Evolved JournalModel := do
  let pane ← get m.panes .pane id
  let m ← detachPane m pane.workspace id
  dropPane m id

-- ==== tabs

/-- The surface a creation event makes. -/
def newSurface (tab : UInt32) (spec : SurfaceSpec) : Surface where
  tab := tab
  kind := spec.kind
  data := spec.data
  creationSeed := none
  metadata := ∅
  activation := none
  contentGeneration := 0
  snapshotSchema := 0

def createTab (m : JournalModel) (id pane : UInt32) (index : Nat)
    (name : String) (surface : SurfaceSpec) : Evolved JournalModel := do
  ensureAbsent m.tabs .tab id
  ensureAbsent m.surfaces .surface surface.id
  let p ← get m.panes .pane pane
  let tabs ← insertAt p.tabs index id
  .ok { m with
    panes := m.panes.insert pane { p with tabs }
    tabs := m.tabs.insert id
      { pane, name, explicitName := none, layout := .leaf surface.id }
    surfaces := m.surfaces.insert surface.id (newSurface id surface) }

def moveTab (m : JournalModel) (id pane : UInt32) (index : Nat) :
    Evolved JournalModel := do
  let tab ← get m.tabs .tab id
  let _ ← get m.panes .pane pane
  let panes ← modify m.panes .pane tab.pane
    fun p => { p with tabs := p.tabs.filter (· ≠ id) }
  let dest ← get panes .pane pane
  let tabs ← insertAt dest.tabs index id
  .ok { m with
    panes := panes.insert pane { dest with tabs }
    tabs := m.tabs.insert id { tab with pane } }

def closeTab (m : JournalModel) (id : UInt32) :
    Evolved JournalModel := do
  let tab ← get m.tabs .tab id
  let panes ← modify m.panes .pane tab.pane
    fun p => { p with tabs := p.tabs.filter (· ≠ id) }
  dropTab { m with panes } id

-- ==== surfaces

def attachSurface (m : JournalModel) (tab target surface : UInt32)
    (split : SplitSpec) : Evolved JournalModel := do
  let t ← get m.tabs .tab tab
  let layout ← splitTree t.layout target surface split
    s!"surface:{target} in tab:{tab}"
  .ok { m with tabs := m.tabs.insert tab { t with layout } }

/-- `layout.remove_leaf` on a tab's layout. -/
def detachSurface (m : JournalModel) (tab surface : UInt32) :
    Evolved JournalModel := do
  let t ← get m.tabs .tab tab
  let layout ← removedTree (t.layout.removeLeaf surface)
    (entityName .surface surface)
  .ok { m with tabs := m.tabs.insert tab { t with layout } }

def splitSurface (m : JournalModel) (target : UInt32)
    (surface : SurfaceSpec) (split : SplitSpec) :
    Evolved JournalModel := do
  ensureAbsent m.surfaces .surface surface.id
  let beside ← get m.surfaces .surface target
  let m ← attachSurface m beside.tab target surface.id split
  .ok { m with
    surfaces :=
      m.surfaces.insert surface.id (newSurface beside.tab surface) }

def moveSurface (m : JournalModel) (id target : UInt32)
    (split : SplitSpec) : Evolved JournalModel :=
  if id = target then .error (.selfTarget (entityName .surface id))
  else do
    let from_ ← get m.surfaces .surface id
    let dest ← get m.surfaces .surface target
    let m ← detachSurface m from_.tab id
    let m ← attachSurface m dest.tab target id split
    let surfaces ← modify m.surfaces .surface id
      fun s => { s with tab := dest.tab }
    .ok { m with surfaces }

def closeSurface (m : JournalModel) (id : UInt32) :
    Evolved JournalModel := do
  let surface ← get m.surfaces .surface id
  let m ← detachSurface m surface.tab id
  .ok { m with surfaces := m.surfaces.erase id }

-- ==== surface contents

def convertSurface (m : JournalModel) (id : UInt32) (kind : String)
    (data : Option DataRef) : Evolved JournalModel := do
  let surfaces ← modify m.surfaces .surface id fun s =>
    { s with kind, data, contentGeneration := 0, snapshotSchema := 0 }
  .ok { m with surfaces }

def seedSurface (m : JournalModel) (id : UInt32)
    (activationGeneration : UInt64) (input : DataRef) :
    Evolved JournalModel := do
  let s ← get m.surfaces .surface id
  if input.raw = 0 ∨ s.generation ≠ some activationGeneration then
    .error (.invalidFact "creation seed belongs to an earlier activation")
  else
    .ok { m with
      surfaces := m.surfaces.insert id { s with creationSeed := input } }

def importSeed (m : JournalModel) (id : UInt32) (input : DataRef) :
    Evolved JournalModel := do
  let s ← get m.surfaces .surface id
  if input.raw = 0 ∨ s.activation.isSome ∨ s.creationSeed.isSome then
    .error (.invalidFact
      "import seed requires an inactive surface without a seed")
  else
    .ok { m with
      surfaces := m.surfaces.insert id { s with creationSeed := input } }

def recordData (m : JournalModel) (id : UInt32)
    (activationGeneration : Option UInt64) (contentGeneration : UInt64)
    (snapshotSchema : UInt32) (data : DataRef) :
    Evolved JournalModel := do
  let s ← get m.surfaces .surface id
  if s.generation ≠ activationGeneration
      ∨ contentGeneration ≤ s.contentGeneration
      ∨ snapshotSchema = 0 then
    .error (.invalidFact "stale surface content generation")
  else
    .ok { m with
      surfaces := m.surfaces.insert id
        { s with data := some data, contentGeneration, snapshotSchema } }

/-- Which phases may follow within one generation. -/
def phaseTransition : ActivationPhase → ActivationPhase → Bool
  | .requested, .deferred | .requested, .ready | .requested, .failed
  | .requested, .retired | .requested, .uncertain => true
  | .deferred, .requested | .deferred, .ready | .deferred, .failed
  | .deferred, .retired => true
  | .ready, .exited | .ready, .retired | .ready, .uncertain => true
  | .exited, .retired | .failed, .retired => true
  | .uncertain, .ready | .uncertain, .failed
  | .uncertain, .retired => true
  | _, _ => false

/-- Whether `next` may not replace `current`: an older generation, or
the same one in a phase that does not follow. -/
def staleActivation (current : Option Activation) (next : Activation) :
    Bool :=
  match current with
  | none => false
  | some a =>
    next.generation < a.generation
      || (next.generation = a.generation
        && !phaseTransition a.phase next.phase)

/-- Record a generation handed out for a surface. -/
def raiseHighWater (marks : BTreeMap UInt32 UInt64) (id : UInt32)
    (generation : UInt64) : BTreeMap UInt32 UInt64 :=
  match marks[id]? with
  | some last => marks.insert id (max last generation)
  | none => marks.insert id generation

def activation (m : JournalModel) (id : UInt32)
    (previous : Option UInt64) (next : Activation) :
    Evolved JournalModel := do
  let s ← get m.surfaces .surface id
  if s.generation ≠ previous ∨ next.generation = 0
      ∨ staleActivation s.activation next then
    .error (.invalidFact "stale or invalid activation transition")
  else
    .ok { m with
      surfaces := m.surfaces.insert id { s with activation := some next }
      activationHighWater :=
        raiseHighWater m.activationHighWater id next.generation }

/-- Walk the path, then set the split's ratio (`lifecycle::ratio`). -/
def setRatio (value : Ratio) :
    List Bool → SplitTree UInt32 → Evolved (SplitTree UInt32)
  | [], .leaf _ => .error (.missing "split node")
  | [], .split d _ first second => .ok (.split d value first second)
  | _ :: _, .leaf _ => .error (.missing "split path")
  | false :: path, .split d r first second => do
      let first ← setRatio value path first
      .ok (.split d r first second)
  | true :: path, .split d r first second => do
      let second ← setRatio value path second
      .ok (.split d r first second)

def ratio (layout : SplitTree UInt32) (path : List Bool)
    (value : Ratio) : Evolved (SplitTree UInt32) :=
  if value.inRange then setRatio value path layout
  else .error (.invalidFact "split ratio is outside 0.1..=0.9")

-- ==== operations

/-- The checks on a prepared operation that read it alone. -/
def Operation.malformed (op : Operation) : Bool :=
  op.id.raw.isEmpty
    || op.commandId.isEmpty
    || (op.activationGeneration = 0 && op.retirement.isNone
        && op.assembly.isNone && !op.forward)
    || op.input.raw = 0
    || (op.creation.isSome && op.retirement.isSome)
    || op.outcome.isSome
    || op.pendingOutcome.isSome
    || op.cleanup.isSome
    || op.preparedData.isSome
    || op.reconciliationEvidence.isSome

/-- The owners and surfaces a retirement plan has to name. -/
def retirementOwners (m : JournalModel) (plan : RetirementPlan) :
    Evolved (List EntityId × List UInt32) :=
  match plan.replacement with
  | some replacement =>
    match replacement.simulate m with
    | .error r => .error (.invalidFact r.message)
    | .ok (_, removed) =>
      .ok (removed,
        (removed.filter (·.kind = .surface)).map EntityId.id)
  | none =>
    match closeFacts m plan.target with
    | none => .error (.invalidFact "retirement target cannot close")
    | some (_, removed, surfaces) => .ok (removed, surfaces)

/-- Whether the plan differs from the owners that exist. -/
def retirementDiffers (m : JournalModel) (plan : RetirementPlan)
    (removed : List EntityId) (surfaces : List UInt32) : Bool :=
  removed ≠ plan.removed
    || surfaces ≠ plan.surfaces.map RetiredSurface.id
    || plan.tabParents.length
        ≠ (removed.filter (·.kind = .tab)).length
    || plan.tabParents.any (fun (tab, pane) =>
        !removed.contains ⟨.tab, tab⟩
          || !(match m.panes[pane]? with
              | some p => p.tabs.contains tab
              | none => false))
    || plan.surfaces.any (fun target =>
        match m.surfaces[target.id]? with
        | none => true
        | some s =>
          s.kind ≠ target.kind
            || s.generation ≠ target.activationGeneration)

def checkRetirement (m : JournalModel) (op : Operation) :
    Evolved Unit :=
  match op.retirement with
  | none => .ok ()
  | some plan => do
      let (removed, surfaces) ← retirementOwners m plan
      if retirementDiffers m plan removed surfaces then
        .error (.invalidFact
          "retirement plan does not name the exact existing owners")
      else .ok ()

/-- Every reserved id is nonzero, unused and reserved by nobody else. -/
def checkReserved (m : JournalModel) (seen : List EntityId) :
    List EntityId → Evolved Unit
  | [] => .ok ()
  | e :: rest =>
    if e.id = 0 || m.holds e || seen.contains e
        || BTreeMap.anyValue m.operations (·.reserved.contains e) then
      .error (.duplicate s!"reserved {e.kind.label}:{e.id}")
    else checkReserved m (e :: seen) rest

/-- The last generation handed out for a surface. -/
def lastGeneration (m : JournalModel) (surface : UInt32) : UInt64 :=
  max ((m.activationHighWater[surface]?).getD 0)
    (((m.surfaces[surface]?).bind Surface.generation).getD 0)

/-- Reserve the next activation generation of the surface a creation
is about. -/
def reserveGeneration (m : JournalModel) (op : Operation) :
    Evolved (BTreeMap UInt32 UInt64) :=
  match op.creation with
  | none => .ok m.activationHighWater
  | some plan =>
    if checkedSucc (lastGeneration m plan.surface.id)
        ≠ some op.activationGeneration then
      .error (.invalidFact
        "activation generation was already reserved or skipped")
    else
      .ok (m.activationHighWater.insert plan.surface.id
        op.activationGeneration)

def prepare (m : JournalModel) (op : Operation) :
    Evolved JournalModel :=
  if op.malformed then
    .error (.invalidFact "invalid operation preparation")
  else do
    checkRetirement m op
    if m.operations.contains op.id then
      .error (.duplicate s!"operation:{op.id.raw}")
    else do
      checkReserved m [] op.reserved
      let marks ← reserveGeneration m op
      .ok { m with
        activationHighWater := marks
        operations := m.operations.insert op.id op }

/-- `m.operations.get_mut(&id)`. -/
def getOperation (m : JournalModel) (id : OperationId) :
    Evolved Operation :=
  match m.operations[id]? with
  | some op => .ok op
  | none => .error (.missing s!"operation:{id.raw}")

/-- Whether an outcome may be written over the present one. -/
def outcomeAllowed (present : Option OperationOutcome)
    (outcome : OperationOutcome) (evidence : Option DataRef) : Bool :=
  match present, evidence with
  | none, none => true
  | some (.uncertain _), some data =>
    data.raw ≠ 0
      && match outcome with
        | .uncertain _ | .superseded _ => false
        | _ => true
  | _, _ => false

/-- `matches!(creation.destination, Assembly { .. })`. -/
def Operation.isMember (op : Operation) : Bool :=
  match op.creation with
  | some { destination := .assembly _, .. } => true
  | _ => false

/-- The operation once its outcome is written. -/
def Operation.settled (op : Operation) (outcome : OperationOutcome)
    (evidence : Option DataRef) : Operation :=
  let op :=
    if outcome.isUncertain then op
    else
      { op with
        pendingOutcome := none
        cleanup := none
        preparedData := if op.isMember then op.preparedData else none }
  { op with outcome := some outcome, reconciliationEvidence := evidence }

def finish (m : JournalModel) (id : OperationId)
    (outcome : OperationOutcome) (evidence : Option DataRef) :
    Evolved JournalModel := do
  let op ← getOperation m id
  if outcomeAllowed op.outcome outcome evidence then
    .ok { m with
      operations := m.operations.insert id (op.settled outcome evidence) }
  else
    .error (.invalidFact
      "operation outcome cannot be overwritten without reconciliation")

/-- A payload reference that is present is nonzero. -/
def zeroRef (data : Option DataRef) : Bool :=
  match data with
  | some d => d.raw = 0
  | none => false

def awaitCleanup (m : JournalModel) (id : OperationId)
    (outcome : OperationOutcome) (cleanup : CleanupPlan)
    (preparedData : Option DataRef) (deferred : Bool) :
    Evolved JournalModel := do
  let op ← getOperation m id
  if op.outcome.isSome || op.pendingOutcome.isSome || op.cleanup.isSome
      || zeroRef preparedData || outcome.isUncertain then
    .error (.invalidFact "operation cannot await cleanup from this state")
  else
    .ok { m with
      operations := m.operations.insert id
        { op with
          pendingOutcome := some outcome
          cleanup := some cleanup
          preparedData
          preparedDeferred := deferred } }

def prepared (m : JournalModel) (id : OperationId)
    (data : Option DataRef) (deferred : Bool) :
    Evolved JournalModel := do
  let op ← getOperation m id
  if op.resourcePrepared || op.outcome.isSome || op.pendingOutcome.isSome
      || zeroRef data then
    .error (.invalidFact "invalid private preparation result")
  else
    .ok { m with
      operations := m.operations.insert id
        { op with
          resourcePrepared := true
          preparedData := data
          preparedDeferred := deferred } }

/-- Recovery evidence is kept for an outcome that recovery wrote. -/
def recoverable : Option OperationOutcome → Bool
  | some (.cancelled _) | some (.uncertain _) | some (.superseded _) => true
  | _ => false

def observeRecovery (m : JournalModel) (id : OperationId)
    (evidence : DataRef) : Evolved JournalModel := do
  let op ← getOperation m id
  if evidence.raw = 0 || op.reconciliationEvidence.isSome
      || !recoverable op.outcome then
    .error (.invalidFact "invalid recovery observation")
  else
    .ok { m with
      operations := m.operations.insert id
        { op with reconciliationEvidence := some evidence } }

-- ==== undo list

/-- Whether the record belongs to a user close that captured it. -/
def ownsUndo (m : JournalModel) (record : UndoRecord) : Bool :=
  match (m.operations[record.id]?).bind Operation.retirement with
  | none => false
  | some plan =>
    (plan.isUserClose || plan.remoteUserClose)
      && plan.target = record.target
      && plan.undo = some record.capture

def addUndo (m : JournalModel) (record : UndoRecord) :
    Evolved JournalModel :=
  if !ownsUndo m record
      || m.undoRecords.any (·.id = record.id)
      || record.capture.snapshot.raw = 0
      || m.undoRecords.length ≥ 10 then
    .error (.invalidFact "invalid undo record")
  else .ok { m with undoRecords := m.undoRecords ++ [record] }

/-- Remove the first record with the id. -/
def removeUndo (m : JournalModel) (id : OperationId) :
    Evolved JournalModel :=
  if m.undoRecords.any (·.id = id) then
    .ok { m with undoRecords := m.undoRecords.eraseP (·.id = id) }
  else .error (.missing s!"undo:{id.raw}")

-- ==== metadata

def targetName : MetadataTarget → String
  | .workspace id => entityName .workspace id
  | .surface id => entityName .surface id

/-- Edit the metadata map of a workspace or surface. -/
def editMetadata (m : JournalModel) (target : MetadataTarget)
    (edit : BTreeMap String String → Evolved (BTreeMap String String)) :
    Evolved JournalModel :=
  match target with
  | .workspace id => do
      let w ← get m.workspaces .workspace id
      let metadata ← edit w.metadata
      .ok { m with workspaces := m.workspaces.insert id { w with metadata } }
  | .surface id => do
      let s ← get m.surfaces .surface id
      let metadata ← edit s.metadata
      .ok { m with surfaces := m.surfaces.insert id { s with metadata } }

def removeKey (target : MetadataTarget) (key : String)
    (metadata : BTreeMap String String) :
    Evolved (BTreeMap String String) :=
  if metadata.contains key then .ok (metadata.erase key)
  else .error (.missingKey (targetName target) key)

-- ==== one event

def replaceStructure (m : JournalModel) (replacement : Replacement)
    (removed : List EntityId) : Evolved JournalModel :=
  match replacement.simulate m with
  | .error r => .error (.invalidFact r.message)
  | .ok (after, actual) =>
    if actual ≠ removed then
      .error (.invalidFact "replacement removal set differs from its fact")
    else .ok after

def startIncarnation (m : JournalModel) (previous current : UInt64) :
    Evolved JournalModel :=
  if m.engineIncarnation ≠ previous
      ∨ checkedSucc previous ≠ some current then
    .error (.invalidFact
      "engine incarnation did not advance from its predecessor")
  else
    .ok { m with engineIncarnation := current, engineRetired := false }

def retireEngine (m : JournalModel) (incarnation : UInt64) :
    Evolved JournalModel :=
  if m.engineIncarnation ≠ incarnation ∨ incarnation = 0 then
    .error (.invalidFact
      "retirement belongs to another engine incarnation")
  else .ok { m with engineRetired := true }

def editWorkspace (m : JournalModel) (id : UInt32)
    (f : Workspace → Workspace) : Evolved JournalModel := do
  let workspaces ← modify m.workspaces .workspace id f
  .ok { m with workspaces }

def editTab (m : JournalModel) (id : UInt32) (f : Tab → Tab) :
    Evolved JournalModel := do
  let tabs ← modify m.tabs .tab id f
  .ok { m with tabs }

def setPaneRatio (m : JournalModel) (workspace : UInt32)
    (path : List Bool) (value : Ratio) : Evolved JournalModel := do
  let w ← get m.workspaces .workspace workspace
  let layout ← ratio w.layout path value
  .ok { m with
    workspaces := m.workspaces.insert workspace { w with layout } }

def setSurfaceRatio (m : JournalModel) (tab : UInt32)
    (path : List Bool) (value : Ratio) : Evolved JournalModel := do
  let t ← get m.tabs .tab tab
  let layout ← ratio t.layout path value
  .ok { m with tabs := m.tabs.insert tab { t with layout } }

/-- `evolve.rs`, `apply`. -/
def apply (m : JournalModel) : DomainEvent → Evolved JournalModel
  | .engineIncarnationStarted previous current =>
    startIncarnation m previous current
  | .engineRetired incarnation => retireEngine m incarnation
  | .structureReplaced replacement removed =>
    replaceStructure m replacement removed
  | .undoRecordAdded record => addUndo m record
  | .undoRecordConsumed id => removeUndo m id
  | .undoRecordEvicted id => removeUndo m id
  | .categoryCreated id name index =>
    createCategory m id name index.toNat
  | .categoryRenamed id name => do
      let categories ← modify m.categories .category id
        fun c => { c with name }
      .ok { m with categories }
  | .categoryMoved id index => do
      let order ← moveIn m.categoryOrder .category id index.toNat
      .ok { m with categoryOrder := order }
  | .categoryClosed id => closeCategory m id
  | .workspaceCreated id name category index pane =>
    createWorkspace m id name category index.toNat pane
  | .workspaceRenamed id name =>
    editWorkspace m id fun w => { w with name }
  | .workspaceDetailsSet id subtitle description =>
    editWorkspace m id fun w => { w with subtitle, description }
  | .workspaceAttachMappingSet id mapping =>
    editWorkspace m id fun w => { w with attachMapping := mapping }
  | .workspaceMoved id category index =>
    moveWorkspace m id category index.toNat
  | .workspaceClosed id => closeWorkspace m id
  | .paneSplit target pane split => splitPane m target pane split
  | .paneMoved id target split => movePane m id target split
  | .paneClosed id => closePane m id
  | .tabCreated id pane index name surface =>
    createTab m id pane index.toNat name surface
  | .tabRenamed id name => editTab m id fun t => { t with name }
  | .tabExplicitNameSet id name =>
    editTab m id fun t => { t with explicitName := name }
  | .tabMoved id pane index => moveTab m id pane index.toNat
  | .tabClosed id => closeTab m id
  | .surfaceSplit target surface split =>
    splitSurface m target surface split
  | .surfaceMoved id target split => moveSurface m id target split
  | .surfaceClosed id => closeSurface m id
  | .surfaceConverted id kind data => convertSurface m id kind data
  | .surfaceCreationSeeded id generation input =>
    seedSurface m id generation input
  | .surfaceSeedImported id input => importSeed m id input
  | .surfaceDataRecorded id generation contentGeneration schema data =>
    recordData m id generation contentGeneration schema data
  | .surfaceActivationChanged id previous next =>
    activation m id previous next
  | .paneRatioSet workspace path value =>
    setPaneRatio m workspace path value
  | .surfaceRatioSet tab path value => setSurfaceRatio m tab path value
  | .operationPrepared op => prepare m op
  | .operationResourcePrepared id data deferred =>
    prepared m id data deferred
  | .operationAwaitingCleanup id outcome cleanup data deferred =>
    awaitCleanup m id outcome cleanup data deferred
  | .operationFinished id outcome => finish m id outcome none
  | .operationRecoveryObserved id evidence => observeRecovery m id evidence
  | .operationReconciled id outcome evidence =>
    finish m id outcome (some evidence)
  | .metadataSet target key value =>
    editMetadata m target fun md => .ok (md.insert key value)
  | .metadataRemoved target key =>
    editMetadata m target (removeKey target key)

-- ==== one batch

def checkBatch (m : JournalModel) (batchId : BatchId) : Evolved Unit :=
  match m.applied.batch with
  | some last =>
    if batchId ≤ last then .error (.staleBatch last batchId) else .ok ()
  | none => .ok ()

/-- One event at its revision. The revision counter is a plain `u64`
addition. -/
def applyRecorded (m : JournalModel) (recorded : RecordedEvent) :
    Evolved JournalModel := do
  let expected := m.applied.revision.getD 0 + 1
  if recorded.revision ≠ expected then
    .error (.revisionGap expected recorded.revision)
  else
    let m ← apply m recorded.event
    .ok { m with
      applied := { m.applied with revision := some recorded.revision } }

def applyRecordedAll (m : JournalModel) :
    List RecordedEvent → Evolved JournalModel
  | [] => .ok m
  | recorded :: rest => do
      let m ← applyRecorded m recorded
      applyRecordedAll m rest

/-- Mark the batch as the last one applied. -/
def JournalModel.atBatch (m : JournalModel) (batchId : BatchId) :
    JournalModel :=
  { m with applied := { m.applied with batch := some batchId } }

/-- `evolve_owned`: the candidate is private to the call. -/
def evolveOwned (m : JournalModel) (batch : DomainBatch) :
    Evolved JournalModel := do
  checkBatch m batch.batchId
  let next ← applyRecordedAll m batch.events
  .ok (next.atBatch batch.batchId)

/-- Apply a batch; on an error the model is the one before. -/
def evolve (m : JournalModel) (batch : DomainBatch) :
    Evolved JournalModel := do
  checkBatch m batch.batchId
  if batch.events.isEmpty then .ok (m.atBatch batch.batchId)
  else evolveOwned m batch

end Tasty.Core
