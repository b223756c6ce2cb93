/-
The journal's structure model and the records it holds
(`crates/tasty-core/src/{ids,model,operation,creation,undo,assembly,
retirement,replacement}.rs`): the data of one engine stream, without
the functions over it. Domain events of that stream (`event.rs`): facts
already decided, applied by `evolve` without minting ids or reading a clock.

Conventions. Entity ids are `u32`, payload references, generations and
journal positions are `u64`, list positions (`usize`) are 64 bits. A
`BTreeMap` is an ordered finite map. A field keeps its Rust name.
-/
import Tasty.Core.SplitTree
import Tasty.Lib.BTreeMap

namespace Tasty.Core

-- ==== identities

/-- Position of an event in its structure stream; the first is 1. -/
abbrev Revision := UInt64

/-- Number of a committed batch in the journal. -/
abbrev BatchId := UInt64

/-- A list position, on a 64-bit target. -/
abbrev Usize := UInt64

/-- `list.len()`; no list reaches the bound of a position. -/
def usizeLen {α : Type} (list : List α) : Usize :=
  UInt64.ofNat list.length

/-- `u64::checked_add(1)`. -/
def checkedSucc (n : UInt64) : Option UInt64 :=
  if n.toNat + 1 < UInt64.size then some (n + 1) else none

theorem checkedSucc_eq_some {n k : UInt64} :
    checkedSucc n = some k ↔ k.toNat = n.toNat + 1 := by
  unfold checkedSucc
  split
  case isTrue h =>
    constructor
    · rintro ⟨rfl⟩
      rw [UInt64.toNat_add]
      exact Nat.mod_eq_of_lt h
    · intro hk
      congr 1
      rw [← UInt64.toNat_inj, UInt64.toNat_add, hk]
      exact Nat.mod_eq_of_lt h
  case isFalse h =>
    refine ⟨fun h => (by cases h), fun hk => absurd k.toNat_lt ?_⟩
    unfold UInt64.size at h
    omega

/-- The value spaces new ids are taken from. -/
inductive IdKind where
  | category
  | workspace
  | pane
  | tab
  | surface
  deriving DecidableEq

/-- The name used in error texts. -/
def IdKind.label : IdKind → String
  | .category => "category"
  | .workspace => "workspace"
  | .pane => "pane"
  | .tab => "tab"
  | .surface => "surface"

/-- An entity identity fixed when the command is accepted. -/
structure EntityId where
  kind : IdKind
  id : UInt32
  deriving DecidableEq

/-- Reference to an immutable payload of the journal. -/
structure DataRef where
  raw : UInt64
  deriving DecidableEq

/-- Identity of an operation; the journal's keys are strings. -/
structure OperationId where
  raw : String
  deriving DecidableEq

instance : Ord OperationId where
  compare a b := compare a.raw b.raw

instance : Std.TransOrd OperationId where
  eq_swap {a b} := @Std.OrientedCmp.eq_swap String compare _ a.raw b.raw
  isLE_trans {a b c} :=
    @Std.TransCmp.isLE_trans String compare _ a.raw b.raw c.raw

instance : Std.LawfulEqOrd OperationId where
  compare_self {a} := @Std.ReflCmp.compare_self String compare _ a.raw
  eq_of_compare {a b} h := by
    cases a
    cases b
    congr 1
    exact @Std.LawfulEqCmp.eq_of_compare String compare _ _ _ h

-- ==== activation

inductive ActivationPhase where
  | requested
  | deferred
  | ready
  | exited
  | failed
  | retired
  | uncertain
  deriving DecidableEq

/-- Historical surface activation. -/
structure Activation where
  generation : UInt64
  phase : ActivationPhase
  deriving DecidableEq

-- ==== entities

/-- `tasty_model::WorkspaceAttachTarget`. -/
inductive WorkspaceAttachTarget where
  | profile (name : String)
  | inline (host : String) (remoteTasty portMode portFile : Option String)
  deriving DecidableEq

/-- `tasty_model::WorkspaceAttachMapping`. -/
structure WorkspaceAttachMapping where
  target : WorkspaceAttachTarget
  remoteWorkspace : Option UInt32
  deriving DecidableEq

structure Category where
  name : String
  deriving DecidableEq

structure Workspace where
  name : String
  category : UInt32
  layout : SplitTree UInt32
  subtitle : String
  description : String
  attachMapping : Option WorkspaceAttachMapping
  metadata : BTreeMap String String
  deriving DecidableEq

structure Pane where
  workspace : UInt32
  tabs : List UInt32
  deriving DecidableEq

structure Tab where
  pane : UInt32
  name : String
  explicitName : Option String
  layout : SplitTree UInt32
  deriving DecidableEq

structure Surface where
  tab : UInt32
  kind : String
  data : Option DataRef
  creationSeed : Option DataRef
  metadata : BTreeMap String String
  activation : Option Activation
  contentGeneration : UInt64
  snapshotSchema : UInt32
  deriving DecidableEq

/-- Generation of the surface's activation, if it has one. -/
def Surface.generation (s : Surface) : Option UInt64 :=
  s.activation.map Activation.generation

-- ==== creation and close

/-- Kind and payload of a new surface. -/
structure SurfaceSpec where
  id : UInt32
  kind : String
  data : Option DataRef
  deriving DecidableEq

/-- Where a split puts its new node. -/
structure SplitSpec where
  direction : SplitDirection
  ratio : Ratio
  placement : Placement
  deriving DecidableEq

/-- What a close names. -/
inductive CloseTarget where
  | workspace (id : UInt32)
  | pane (id : UInt32)
  | tab (id : UInt32)
  | surface (id : UInt32)
  deriving DecidableEq

/-- Move an existing subtree into another position. -/
structure Replacement where
  source : EntityId
  target : EntityId
  deriving DecidableEq

structure RetiredSurface where
  id : UInt32
  kind : String
  activationGeneration : Option UInt64
  deriving DecidableEq

/-- Payload of an undo: the snapshot and what it depends on. -/
structure UndoCapture where
  snapshot : DataRef
  retained : List DataRef
  deriving DecidableEq

structure RetirementPlan where
  replacement : Option Replacement
  target : CloseTarget
  removed : List EntityId
  surfaces : List RetiredSurface
  tabParents : List (UInt32 × UInt32)
  isUserClose : Bool
  remoteUserClose : Bool
  undo : Option UndoCapture
  deriving DecidableEq

structure UndoRecord where
  id : OperationId
  target : CloseTarget
  capture : UndoCapture
  deriving DecidableEq

structure UndoPresentation where
  focusedPanes : BTreeMap UInt32 UInt32
  selectedTabs : BTreeMap UInt32 UInt32
  selectedSurfaces : BTreeMap UInt32 UInt32
  deriving DecidableEq

structure ClosedPanePosition where
  sibling : UInt32
  split : SplitSpec
  deriving DecidableEq

/-- A closed subtree, as captured for undo. -/
structure ClosedSnapshot where
  version : UInt32
  presentation : UndoPresentation
  panePosition : Option ClosedPanePosition
  root : EntityId
  originWorkspace : Option UInt32
  workspaces : BTreeMap UInt32 Workspace
  panes : BTreeMap UInt32 Pane
  tabs : BTreeMap UInt32 Tab
  surfaces : BTreeMap UInt32 Surface
  tabName : Option String
  deriving DecidableEq

inductive AssemblyDestination where
  | workspace
  | pane (target : UInt32) (split : SplitSpec)
  | tab (pane : UInt32) (index : Usize)
  deriving DecidableEq

/-- A multi-leaf restoration, published at once. -/
structure CreationAssembly where
  snapshot : ClosedSnapshot
  destination : AssemblyDestination
  inputs : BTreeMap UInt32 DataRef
  undo : Option OperationId
  omitFailed : Bool
  deriving DecidableEq

/-- Where a prepared kind resource is going to be installed. -/
inductive CreationDestination where
  | assembly (operation : OperationId)
  | workspace (workspace pane tab : UInt32) (name : String)
      (category : UInt32) (subtitle description : String)
      (attachMapping : Option WorkspaceAttachMapping)
  | tab (pane tab : UInt32) (index : Usize)
  | pane (target pane tab : UInt32) (split : SplitSpec)
  | split (target : UInt32) (split : SplitSpec)
  | restore (surface : UInt32) (previousActivation : Option UInt64)
  /-- `explicitName`: `none` keeps the name, `some none` clears it,
  `some (some name)` replaces it. -/
  | convert (surface : UInt32) (previousActivation : Option UInt64)
      (explicitName : Option (Option String))
  deriving DecidableEq

structure CreationPlan where
  destination : CreationDestination
  surface : SurfaceSpec
  tabName : String
  explicitName : Option String
  deriving DecidableEq

/-- What an adapter reports about a preparation. -/
inductive PreparationResult where
  | deferred (data : Option DataRef)
  | ready (data : Option DataRef)
  | failed (reason : String)
  deriving DecidableEq

/-- Continuation that remains under the materialization effect. -/
inductive CleanupPlan where
  /-- `previousActivation = some none` retires a legacy owner with no
  durable activation yet. -/
  | installPrepared (surface : UInt32)
      (previousActivation : Option (Option UInt64))
  | discardPrepared (surface : UInt32) (activationGeneration : UInt64)
  deriving DecidableEq

-- ==== operations

inductive OperationOutcome where
  | succeeded
  | failed (reason : String)
  | cancelled (reason : String)
  | superseded (reason : String)
  /-- A reconciliation result is required. -/
  | uncertain (reason : String)
  deriving DecidableEq

/-- `matches!(outcome, Uncertain { .. })`. -/
def OperationOutcome.isUncertain : OperationOutcome → Bool
  | uncertain _ => true
  | _ => false

/-- Prepared work, replayable without the effect-attempt table. -/
structure Operation where
  id : OperationId
  commandId : String
  engineIncarnation : UInt64
  creation : Option CreationPlan
  assembly : Option CreationAssembly
  retirement : Option RetirementPlan
  forward : Bool
  targets : List EntityId
  reserved : List EntityId
  input : DataRef
  activationGeneration : UInt64
  outcome : Option OperationOutcome
  pendingOutcome : Option OperationOutcome
  cleanup : Option CleanupPlan
  preparedData : Option DataRef
  preparedDeferred : Bool
  resourcePrepared : Bool
  reconciliationEvidence : Option DataRef
  deriving DecidableEq

/-- `matches!(outcome, Some(Uncertain { .. }))`. -/
def Operation.isUncertain (op : Operation) : Bool :=
  match op.outcome with
  | some outcome => outcome.isUncertain
  | none => false

/-- `matches!(cleanup, Some(InstallPrepared { .. }))`. -/
def Operation.awaitsInstallation (op : Operation) : Bool :=
  match op.cleanup with
  | some (.installPrepared ..) => true
  | _ => false

-- ==== the model

/-- The journal position last applied. -/
structure Applied where
  batch : Option BatchId
  revision : Option Revision
  deriving DecidableEq

/-- The result of applying one engine's structure stream. -/
structure JournalModel where
  applied : Applied
  engineIncarnation : UInt64
  engineRetired : Bool
  activationHighWater : BTreeMap UInt32 UInt64
  categories : BTreeMap UInt32 Category
  categoryOrder : List UInt32
  workspaces : BTreeMap UInt32 Workspace
  workspaceOrder : List UInt32
  panes : BTreeMap UInt32 Pane
  tabs : BTreeMap UInt32 Tab
  surfaces : BTreeMap UInt32 Surface
  operations : BTreeMap OperationId Operation
  undoRecords : List UndoRecord
  deriving DecidableEq

/-- `JournalModel::default()`: the empty model. -/
def JournalModel.default : JournalModel where
  applied := ⟨none, none⟩
  engineIncarnation := 0
  engineRetired := false
  activationHighWater := ∅
  categories := ∅
  categoryOrder := []
  workspaces := ∅
  workspaceOrder := []
  panes := ∅
  tabs := ∅
  surfaces := ∅
  operations := ∅
  undoRecords := []

/-- Whether the model holds the entity (`evolve/lifecycle.rs`,
`exists`). -/
def JournalModel.holds (m : JournalModel) (e : EntityId) : Bool :=
  match e.kind with
  | .category => m.categories.contains e.id
  | .workspace => m.workspaces.contains e.id
  | .pane => m.panes.contains e.id
  | .tab => m.tabs.contains e.id
  | .surface => m.surfaces.contains e.id

/-- What carries user metadata. -/
inductive MetadataTarget where
  | workspace (id : UInt32)
  | surface (id : UInt32)
  deriving DecidableEq

/-- One structure fact. -/
inductive DomainEvent where
  | structureReplaced (replacement : Replacement) (removed : List EntityId)
  | undoRecordAdded (record : UndoRecord)
  | undoRecordConsumed (id : OperationId)
  | undoRecordEvicted (id : OperationId)
  | engineIncarnationStarted (previous current : UInt64)
  | engineRetired (incarnation : UInt64)
  | categoryCreated (id : UInt32) (name : String) (index : Usize)
  | categoryRenamed (id : UInt32) (name : String)
  | categoryMoved (id : UInt32) (index : Usize)
  /-- Only a category without workspaces can be closed. -/
  | categoryClosed (id : UInt32)
  /-- Created with its first pane; tabs come from later events. -/
  | workspaceCreated (id : UInt32) (name : String) (category : UInt32)
      (index : Usize) (pane : UInt32)
  | workspaceRenamed (id : UInt32) (name : String)
  | workspaceDetailsSet (id : UInt32) (subtitle description : String)
  | workspaceAttachMappingSet (id : UInt32)
      (mapping : Option WorkspaceAttachMapping)
  /-- Changes order and category together. -/
  | workspaceMoved (id category : UInt32) (index : Usize)
  /-- Closes its panes, tabs and surfaces too. -/
  | workspaceClosed (id : UInt32)
  | paneSplit (target pane : UInt32) (split : SplitSpec)
  /-- Takes a pane out and puts it back next to `target`, possibly in
  another workspace. -/
  | paneMoved (id target : UInt32) (split : SplitSpec)
  /-- Closes its tabs and surfaces; never the last pane. -/
  | paneClosed (id : UInt32)
  | tabCreated (id pane : UInt32) (index : Usize) (name : String)
      (surface : SurfaceSpec)
  | tabRenamed (id : UInt32) (name : String)
  | tabExplicitNameSet (id : UInt32) (name : Option String)
  | tabMoved (id pane : UInt32) (index : Usize)
  | tabClosed (id : UInt32)
  | surfaceSplit (target : UInt32) (surface : SurfaceSpec)
      (split : SplitSpec)
  | surfaceMoved (id target : UInt32) (split : SplitSpec)
  /-- Never the last surface of a tab: that closes the tab. -/
  | surfaceClosed (id : UInt32)
  | surfaceConverted (id : UInt32) (kind : String) (data : Option DataRef)
  | surfaceCreationSeeded (id : UInt32) (activationGeneration : UInt64)
      (input : DataRef)
  | surfaceSeedImported (id : UInt32) (input : DataRef)
  | surfaceDataRecorded (id : UInt32)
      (activationGeneration : Option UInt64) (contentGeneration : UInt64)
      (snapshotSchema : UInt32) (data : DataRef)
  | surfaceActivationChanged (id : UInt32)
      (previousGeneration : Option UInt64) (activation : Activation)
  /-- A path within the layout, `false` for first, `true` for second. -/
  | paneRatioSet (workspace : UInt32) (path : List Bool) (ratio : Ratio)
  | surfaceRatioSet (tab : UInt32) (path : List Bool) (ratio : Ratio)
  | operationPrepared (operation : Operation)
  | operationResourcePrepared (id : OperationId) (data : Option DataRef)
      (deferred : Bool)
  | operationAwaitingCleanup (id : OperationId)
      (outcome : OperationOutcome) (cleanup : CleanupPlan)
      (preparedData : Option DataRef) (deferred : Bool)
  | operationFinished (id : OperationId) (outcome : OperationOutcome)
  | operationRecoveryObserved (id : OperationId) (evidence : DataRef)
  | operationReconciled (id : OperationId) (outcome : OperationOutcome)
      (evidence : DataRef)
  | metadataSet (target : MetadataTarget) (key value : String)
  | metadataRemoved (target : MetadataTarget) (key : String)

/-- An event with the revision it has in its stream. -/
structure RecordedEvent where
  revision : Revision
  event : DomainEvent

/-- The events one committed batch holds for one engine stream. -/
structure DomainBatch where
  batchId : BatchId
  events : List RecordedEvent

/-- The facts of a batch, without their revisions. -/
def DomainBatch.facts (b : DomainBatch) : List DomainEvent :=
  b.events.map RecordedEvent.event

end Tasty.Core
