/-
The derived encodings of the journal's types
(`crates/tasty-core/src/*.rs`, every `derive(Serialize, Deserialize)`).

Each type has the object serde's derive gives it: the field names and
defaults of the source, enums externally tagged, `Ratio`, `DataRef` and
`OperationId` transparent. A type that comes back unchanged has a
`RoundTrip`; `CreationDestination` and `CleanupPlan`, and what holds
them, come back as their `collapse`.
-/
import Tasty.Core.Streams
import Tasty.Lib.Json

namespace Tasty.Core

open Serde WorkspaceAttachMapping Option

-- ==== scalars and trees

/-- `#[serde(transparent)]` wrappers. -/
instance : Serde DataRef where
  ser d := ser d.raw
  de j := (de j).map DataRef.mk

instance : RoundTrip DataRef where
  de_ser d := by
    show (de (ser d.raw)).map DataRef.mk = some d
    simp

instance : NonNull DataRef where
  ser_ne_null _ h := by cases h

instance : Serde OperationId where
  ser id := ser id.raw
  de j := (de j).map OperationId.mk

instance : RoundTrip OperationId where
  de_ser id := by
    show (de (ser id.raw)).map OperationId.mk = some id
    simp

instance : NonNull OperationId where
  ser_ne_null _ h := by cases h

instance : SerdeKey OperationId where
  toKey id := id.raw
  ofKey s := some ⟨s⟩
  ofKey_toKey _ := rfl

instance : Serde Ratio where
  ser r := ser r.bits
  de j := (de j).map Ratio.mk

instance : RoundTrip Ratio where
  de_ser r := by
    show (de (ser r.bits)).map Ratio.mk = some r
    simp

/-- `SplitDirectionDef`. -/
def SplitDirection.toJson : SplitDirection → Json
  | .horizontal => .str "Horizontal"
  | .vertical => .str "Vertical"

def SplitDirection.ofJson : Json → Option SplitDirection :=
  deVariant [("Horizontal", .horizontal), ("Vertical", .vertical)] []

instance : Serde SplitDirection :=
  ⟨SplitDirection.toJson, SplitDirection.ofJson, none⟩

instance : RoundTrip SplitDirection where
  de_ser x := by cases x <;> rfl

def Placement.toJson : Placement → Json
  | .before => .str "Before"
  | .after => .str "After"

def Placement.ofJson : Json → Option Placement :=
  deVariant [("Before", .before), ("After", .after)] []

instance : Serde Placement := ⟨Placement.toJson, Placement.ofJson, none⟩

instance : RoundTrip Placement where
  de_ser x := by cases x <;> rfl

def IdKind.toJson : IdKind → Json
  | .category => .str "Category"
  | .workspace => .str "Workspace"
  | .pane => .str "Pane"
  | .tab => .str "Tab"
  | .surface => .str "Surface"

def IdKind.ofJson : Json → Option IdKind :=
  deVariant [("Category", .category), ("Workspace", .workspace),
    ("Pane", .pane), ("Tab", .tab), ("Surface", .surface)] []

instance : Serde IdKind := ⟨IdKind.toJson, IdKind.ofJson, none⟩

instance : RoundTrip IdKind where
  de_ser x := by cases x <;> rfl

def ActivationPhase.toJson : ActivationPhase → Json
  | .requested => .str "Requested"
  | .deferred => .str "Deferred"
  | .ready => .str "Ready"
  | .exited => .str "Exited"
  | .failed => .str "Failed"
  | .retired => .str "Retired"
  | .uncertain => .str "Uncertain"

def ActivationPhase.ofJson : Json → Option ActivationPhase :=
  deVariant [("Requested", .requested), ("Deferred", .deferred),
    ("Ready", .ready), ("Exited", .exited), ("Failed", .failed),
    ("Retired", .retired), ("Uncertain", .uncertain)] []

instance : Serde ActivationPhase :=
  ⟨ActivationPhase.toJson, ActivationPhase.ofJson, none⟩

instance : RoundTrip ActivationPhase where
  de_ser x := by cases x <;> rfl

/-- A tree of leaf ids. -/
def serTree : SplitTree UInt32 → Json
  | .leaf id => .obj [("Leaf", ser id)]
  | .split direction ratio first second =>
    .obj [("Split", .obj [("direction", ser direction),
      ("ratio", ser ratio), ("first", serTree first),
      ("second", serTree second)])]

/-- One level of a tree, given the reader of the next. -/
def deTreeStep (next : Json → Option (SplitTree UInt32)) :
    Json → Option (SplitTree UInt32) :=
  deVariant []
    [("Leaf", fun j => (de j).map .leaf),
     ("Split", deStruct fun o => do
        let direction ← field o "direction"
        let ratio ← field o "ratio"
        let [first] := o.find "first" | none
        let [second] := o.find "second" | none
        some (.split direction ratio (← next first) (← next second)))]

/-- The reader of trees up to some nesting. -/
def deTreeUpTo : Nat → Json → Option (SplitTree UInt32)
  | 0 => fun _ => none
  | n + 1 => deTreeStep (deTreeUpTo n)

/-- No tree nests deeper than its document. -/
instance : Serde (SplitTree UInt32) where
  ser := serTree
  de j := deTreeUpTo j.depth j

theorem deTreeUpTo_ser {n : Nat} {t : SplitTree UInt32}
    (h : (serTree t).depth ≤ n) : deTreeUpTo n (serTree t) = some t := by
  induction t generalizing n with
  | leaf id =>
    cases n with
    | zero => simp [serTree, Json.depth] at h
    | succ n =>
      simp [deTreeUpTo, deTreeStep, serTree, deVariant, List.lookup]
  | split direction ratio first second ihf ihs =>
    simp only [serTree, Json.depth, Json.depthEntries] at h
    cases n with
    | zero => omega
    | succ n =>
      have hf := ihf (n := n) (by omega)
      have hs := ihs (n := n) (by omega)
      simp [deTreeUpTo, deTreeStep, serTree, deVariant, List.lookup,
        field, hf, hs]

instance : RoundTrip (SplitTree UInt32) where
  de_ser _ := deTreeUpTo_ser (Nat.le_refl _)

-- ==== entities

def EntityId.toJson (x : EntityId) : Json :=
  .obj [("kind", ser x.kind), ("id", ser x.id)]

def EntityId.ofJson : Json → Option EntityId := deStruct fun o => do
  some {
    kind := ← field o "kind"
    id := ← field o "id" }

instance : Serde EntityId := ⟨EntityId.toJson, EntityId.ofJson, none⟩

instance : RoundTrip EntityId where
  de_ser x := by
    show EntityId.ofJson x.toJson = some x
    simp [EntityId.toJson, EntityId.ofJson, field]

instance : NonNull EntityId where
  ser_ne_null _ h := by cases h

def Activation.toJson (x : Activation) : Json :=
  .obj [("generation", ser x.generation), ("phase", ser x.phase)]

def Activation.ofJson : Json → Option Activation := deStruct fun o => do
  some {
    generation := ← field o "generation"
    phase := ← field o "phase" }

instance : Serde Activation :=
  ⟨Activation.toJson, Activation.ofJson, none⟩

instance : RoundTrip Activation where
  de_ser x := by
    show Activation.ofJson x.toJson = some x
    simp [Activation.toJson, Activation.ofJson, field]

instance : NonNull Activation where
  ser_ne_null _ h := by cases h

/-- `skip_serializing_if = "Option::is_none"`: a field only when
there is a value. -/
def serSome (name : String) (value : Option String) : Fields :=
  match value with
  | none => []
  | some s => [(name, ser s)]

def WorkspaceAttachTarget.toJson : WorkspaceAttachTarget → Json
  | .profile name => .obj [("Profile", .obj [("name", ser name)])]
  | .inline host remoteTasty portMode portFile =>
    .obj [("Inline", .obj (("host", ser host)
      :: (serSome "remote_tasty" remoteTasty
        ++ serSome "port_mode" portMode
        ++ serSome "port_file" portFile)))]

def WorkspaceAttachTarget.ofJson : Json → Option WorkspaceAttachTarget :=
  deVariant []
    [("Profile", deStruct fun o => do
        some (.profile (← field o "name"))),
     ("Inline", deStruct fun o => do
        some (.inline (← field o "host")
          (← fieldOr o "remote_tasty" none)
          (← fieldOr o "port_mode" none)
          (← fieldOr o "port_file" none)))]

instance : Serde WorkspaceAttachTarget :=
  ⟨WorkspaceAttachTarget.toJson, WorkspaceAttachTarget.ofJson, none⟩

/-- A present option, as the field reader sees it. -/
@[simp] theorem de_option_str (s : String) :
    (de (ser s) : Option (Option String)) = some (some s) := rfl

instance : RoundTrip WorkspaceAttachTarget where
  de_ser x := by
    show WorkspaceAttachTarget.ofJson x.toJson = some x
    cases x with
    | profile name =>
      simp [WorkspaceAttachTarget.toJson, WorkspaceAttachTarget.ofJson,
        deVariant, List.lookup, field]
    | inline host remoteTasty portMode portFile =>
      cases remoteTasty <;> cases portMode <;> cases portFile <;>
        simp [WorkspaceAttachTarget.toJson, WorkspaceAttachTarget.ofJson,
          deVariant, List.lookup, field, fieldOr, serSome, readOnce]

def WorkspaceAttachMapping.toJson (x : WorkspaceAttachMapping) : Json :=
  .obj (("target", ser x.target) :: match x.remoteWorkspace with
    | none => []
    | some id => [("remote_workspace", ser id)])

def WorkspaceAttachMapping.ofJson :
    Json → Option WorkspaceAttachMapping := deStruct fun o => do
  some {
    target := ← field o "target"
    remoteWorkspace := ← fieldOr o "remote_workspace" none }

instance : Serde WorkspaceAttachMapping :=
  ⟨toJson, ofJson, none⟩

instance : RoundTrip WorkspaceAttachMapping where
  de_ser x := by
    show ofJson x.toJson = some x
    obtain ⟨target, remoteWorkspace⟩ := x
    cases remoteWorkspace with
    | none =>
      simp [toJson,
        ofJson, field, fieldOr, readOnce]
    | some id =>
      have hid : (de (ser id) : Option (Option UInt32))
          = some (some id) := RoundTrip.de_ser (some id)
      simp [toJson,
        ofJson, field, fieldOr, hid]

instance : NonNull WorkspaceAttachMapping where
  ser_ne_null _ h := by cases h

def Category.toJson (x : Category) : Json :=
  .obj [("name", ser x.name)]

def Category.ofJson : Json → Option Category := deStruct fun o => do
  some {
    name := ← field o "name" }

instance : Serde Category := ⟨Category.toJson, Category.ofJson, none⟩

instance : RoundTrip Category where
  de_ser x := by
    show Category.ofJson x.toJson = some x
    simp [Category.toJson, Category.ofJson, field]

def Workspace.toJson (x : Workspace) : Json :=
  .obj [("name", ser x.name), ("category", ser x.category),
    ("layout", ser x.layout), ("subtitle", ser x.subtitle),
    ("description", ser x.description),
    ("attach_mapping", ser x.attachMapping),
    ("metadata", ser x.metadata)]

def Workspace.ofJson : Json → Option Workspace := deStruct fun o => do
  some {
    name := ← field o "name"
    category := ← field o "category"
    layout := ← field o "layout"
    subtitle := ← field o "subtitle"
    description := ← field o "description"
    attachMapping := ← field o "attach_mapping"
    metadata := ← field o "metadata" }

instance : Serde Workspace := ⟨Workspace.toJson, Workspace.ofJson, none⟩

instance : RoundTrip Workspace where
  de_ser x := by
    show Workspace.ofJson x.toJson = some x
    simp [Workspace.toJson, Workspace.ofJson, field]

def Pane.toJson (x : Pane) : Json :=
  .obj [("workspace", ser x.workspace), ("tabs", ser x.tabs)]

def Pane.ofJson : Json → Option Pane := deStruct fun o => do
  some {
    workspace := ← field o "workspace"
    tabs := ← field o "tabs" }

instance : Serde Pane := ⟨Pane.toJson, Pane.ofJson, none⟩

instance : RoundTrip Pane where
  de_ser x := by
    show Pane.ofJson x.toJson = some x
    simp [Pane.toJson, Pane.ofJson, field]

def Tab.toJson (x : Tab) : Json :=
  .obj [("pane", ser x.pane), ("name", ser x.name),
    ("explicit_name", ser x.explicitName), ("layout", ser x.layout)]

def Tab.ofJson : Json → Option Tab := deStruct fun o => do
  some {
    pane := ← field o "pane"
    name := ← field o "name"
    explicitName := ← field o "explicit_name"
    layout := ← field o "layout" }

instance : Serde Tab := ⟨Tab.toJson, Tab.ofJson, none⟩

instance : RoundTrip Tab where
  de_ser x := by
    show Tab.ofJson x.toJson = some x
    simp [Tab.toJson, Tab.ofJson, field]

def Surface.toJson (x : Surface) : Json :=
  .obj [("tab", ser x.tab), ("kind", ser x.kind), ("data", ser x.data),
    ("creation_seed", ser x.creationSeed), ("metadata", ser x.metadata),
    ("activation", ser x.activation),
    ("content_generation", ser x.contentGeneration),
    ("snapshot_schema", ser x.snapshotSchema)]

def Surface.ofJson : Json → Option Surface := deStruct fun o => do
  some {
    tab := ← field o "tab"
    kind := ← field o "kind"
    data := ← field o "data"
    creationSeed := ← fieldOr o "creation_seed" none
    metadata := ← field o "metadata"
    activation := ← fieldOr o "activation" none
    contentGeneration := ← fieldOr o "content_generation" 0
    snapshotSchema := ← fieldOr o "snapshot_schema" 0 }

instance : Serde Surface := ⟨Surface.toJson, Surface.ofJson, none⟩

instance : RoundTrip Surface where
  de_ser x := by
    show Surface.ofJson x.toJson = some x
    simp [Surface.toJson, Surface.ofJson, field, fieldOr]

-- ==== creation and close

def SurfaceSpec.toJson (x : SurfaceSpec) : Json :=
  .obj [("id", ser x.id), ("kind", ser x.kind), ("data", ser x.data)]

def SurfaceSpec.ofJson : Json → Option SurfaceSpec := deStruct fun o => do
  some {
    id := ← field o "id"
    kind := ← field o "kind"
    data := ← field o "data" }

instance : Serde SurfaceSpec :=
  ⟨SurfaceSpec.toJson, SurfaceSpec.ofJson, none⟩

instance : RoundTrip SurfaceSpec where
  de_ser x := by
    show SurfaceSpec.ofJson x.toJson = some x
    simp [SurfaceSpec.toJson, SurfaceSpec.ofJson, field]

def SplitSpec.toJson (x : SplitSpec) : Json :=
  .obj [("direction", ser x.direction), ("ratio", ser x.ratio),
    ("placement", ser x.placement)]

def SplitSpec.ofJson : Json → Option SplitSpec := deStruct fun o => do
  some {
    direction := ← field o "direction"
    ratio := ← field o "ratio"
    placement := ← field o "placement" }

instance : Serde SplitSpec := ⟨SplitSpec.toJson, SplitSpec.ofJson, none⟩

instance : RoundTrip SplitSpec where
  de_ser x := by
    show SplitSpec.ofJson x.toJson = some x
    simp [SplitSpec.toJson, SplitSpec.ofJson, field]

def CloseTarget.toJson : CloseTarget → Json
  | .workspace id => .obj [("Workspace", ser id)]
  | .pane id => .obj [("Pane", ser id)]
  | .tab id => .obj [("Tab", ser id)]
  | .surface id => .obj [("Surface", ser id)]

def CloseTarget.ofJson : Json → Option CloseTarget :=
  deVariant []
    [("Workspace", fun j => (de j).map .workspace),
     ("Pane", fun j => (de j).map .pane),
     ("Tab", fun j => (de j).map .tab),
     ("Surface", fun j => (de j).map .surface)]

instance : Serde CloseTarget :=
  ⟨CloseTarget.toJson, CloseTarget.ofJson, none⟩

instance : RoundTrip CloseTarget where
  de_ser x := by
    show CloseTarget.ofJson x.toJson = some x
    cases x <;>
      simp [CloseTarget.toJson, CloseTarget.ofJson,
        deVariant, List.lookup]

def Replacement.toJson (x : Replacement) : Json :=
  .obj [("source", ser x.source), ("target", ser x.target)]

def Replacement.ofJson : Json → Option Replacement := deStruct fun o => do
  some {
    source := ← field o "source"
    target := ← field o "target" }

instance : Serde Replacement :=
  ⟨Replacement.toJson, Replacement.ofJson, none⟩

instance : RoundTrip Replacement where
  de_ser x := by
    show Replacement.ofJson x.toJson = some x
    simp [Replacement.toJson, Replacement.ofJson, field]

instance : NonNull Replacement where
  ser_ne_null _ h := by cases h

def RetiredSurface.toJson (x : RetiredSurface) : Json :=
  .obj [("id", ser x.id), ("kind", ser x.kind),
    ("activation_generation", ser x.activationGeneration)]

def RetiredSurface.ofJson : Json → Option RetiredSurface :=
  deStruct fun o => do
  some {
    id := ← field o "id"
    kind := ← field o "kind"
    activationGeneration := ← field o "activation_generation" }

instance : Serde RetiredSurface :=
  ⟨RetiredSurface.toJson, RetiredSurface.ofJson, none⟩

instance : RoundTrip RetiredSurface where
  de_ser x := by
    show RetiredSurface.ofJson x.toJson = some x
    simp [RetiredSurface.toJson, RetiredSurface.ofJson, field]

def UndoCapture.toJson (x : UndoCapture) : Json :=
  .obj [("snapshot", ser x.snapshot), ("retained", ser x.retained)]

def UndoCapture.ofJson : Json → Option UndoCapture := deStruct fun o => do
  some {
    snapshot := ← field o "snapshot"
    retained := ← field o "retained" }

instance : Serde UndoCapture :=
  ⟨UndoCapture.toJson, UndoCapture.ofJson, none⟩

instance : RoundTrip UndoCapture where
  de_ser x := by
    show UndoCapture.ofJson x.toJson = some x
    simp [UndoCapture.toJson, UndoCapture.ofJson, field]

instance : NonNull UndoCapture where
  ser_ne_null _ h := by cases h

def RetirementPlan.toJson (x : RetirementPlan) : Json :=
  .obj [("replacement", ser x.replacement), ("target", ser x.target),
    ("removed", ser x.removed), ("surfaces", ser x.surfaces),
    ("tab_parents", ser x.tabParents),
    ("is_user_close", ser x.isUserClose),
    ("remote_user_close", ser x.remoteUserClose), ("undo", ser x.undo)]

def RetirementPlan.ofJson : Json → Option RetirementPlan :=
  deStruct fun o => do
  some {
    replacement := ← fieldOr o "replacement" none
    target := ← field o "target"
    removed := ← field o "removed"
    surfaces := ← field o "surfaces"
    tabParents := ← field o "tab_parents"
    isUserClose := ← field o "is_user_close"
    remoteUserClose := ← fieldOr o "remote_user_close" false
    undo := ← field o "undo" }

instance : Serde RetirementPlan :=
  ⟨RetirementPlan.toJson, RetirementPlan.ofJson, none⟩

instance : RoundTrip RetirementPlan where
  de_ser x := by
    show RetirementPlan.ofJson x.toJson = some x
    simp [RetirementPlan.toJson, RetirementPlan.ofJson, field, fieldOr]

instance : NonNull RetirementPlan where
  ser_ne_null _ h := by cases h

def UndoRecord.toJson (x : UndoRecord) : Json :=
  .obj [("id", ser x.id), ("target", ser x.target),
    ("capture", ser x.capture)]

def UndoRecord.ofJson : Json → Option UndoRecord := deStruct fun o => do
  some {
    id := ← field o "id"
    target := ← field o "target"
    capture := ← field o "capture" }

instance : Serde UndoRecord :=
  ⟨UndoRecord.toJson, UndoRecord.ofJson, none⟩

instance : RoundTrip UndoRecord where
  de_ser x := by
    show UndoRecord.ofJson x.toJson = some x
    simp [UndoRecord.toJson, UndoRecord.ofJson, field]

/-- `UndoPresentation::default()`. -/
def UndoPresentation.default : UndoPresentation := ⟨∅, ∅, ∅⟩

def UndoPresentation.toJson (x : UndoPresentation) : Json :=
  .obj [("focused_panes", ser x.focusedPanes),
    ("selected_tabs", ser x.selectedTabs),
    ("selected_surfaces", ser x.selectedSurfaces)]

def UndoPresentation.ofJson : Json → Option UndoPresentation :=
  deStruct fun o => do
  some {
    focusedPanes := ← field o "focused_panes"
    selectedTabs := ← field o "selected_tabs"
    selectedSurfaces := ← field o "selected_surfaces" }

instance : Serde UndoPresentation :=
  ⟨UndoPresentation.toJson, UndoPresentation.ofJson, none⟩

instance : RoundTrip UndoPresentation where
  de_ser x := by
    show UndoPresentation.ofJson x.toJson = some x
    simp [UndoPresentation.toJson, UndoPresentation.ofJson, field]

def ClosedPanePosition.toJson (x : ClosedPanePosition) : Json :=
  .obj [("sibling", ser x.sibling), ("split", ser x.split)]

def ClosedPanePosition.ofJson : Json → Option ClosedPanePosition :=
  deStruct fun o => do
  some {
    sibling := ← field o "sibling"
    split := ← field o "split" }

instance : Serde ClosedPanePosition :=
  ⟨ClosedPanePosition.toJson, ClosedPanePosition.ofJson, none⟩

instance : RoundTrip ClosedPanePosition where
  de_ser x := by
    show ClosedPanePosition.ofJson x.toJson = some x
    simp [ClosedPanePosition.toJson, ClosedPanePosition.ofJson, field]

instance : NonNull ClosedPanePosition where
  ser_ne_null _ h := by cases h

def ClosedSnapshot.toJson (x : ClosedSnapshot) : Json :=
  .obj [("version", ser x.version),
    ("presentation", ser x.presentation),
    ("pane_position", ser x.panePosition), ("root", ser x.root),
    ("origin_workspace", ser x.originWorkspace),
    ("workspaces", ser x.workspaces), ("panes", ser x.panes),
    ("tabs", ser x.tabs), ("surfaces", ser x.surfaces),
    ("tab_name", ser x.tabName)]

def ClosedSnapshot.ofJson : Json → Option ClosedSnapshot :=
  deStruct fun o => do
  some {
    version := ← field o "version"
    presentation := ← fieldOr o "presentation" .default
    panePosition := ← fieldOr o "pane_position" none
    root := ← field o "root"
    originWorkspace := ← field o "origin_workspace"
    workspaces := ← field o "workspaces"
    panes := ← field o "panes"
    tabs := ← field o "tabs"
    surfaces := ← field o "surfaces"
    tabName := ← field o "tab_name" }

instance : Serde ClosedSnapshot :=
  ⟨ClosedSnapshot.toJson, ClosedSnapshot.ofJson, none⟩

instance : RoundTrip ClosedSnapshot where
  de_ser x := by
    show ClosedSnapshot.ofJson x.toJson = some x
    simp [ClosedSnapshot.toJson, ClosedSnapshot.ofJson, field, fieldOr]

def AssemblyDestination.toJson : AssemblyDestination → Json
  | .workspace => .str "Workspace"
  | .pane target split =>
    .obj [("Pane", .obj [("target", ser target),
      ("split", ser split)])]
  | .tab paneId index =>
    .obj [("Tab", .obj [("pane", ser paneId), ("index", ser index)])]

def AssemblyDestination.ofJson : Json → Option AssemblyDestination :=
  deVariant [("Workspace", .workspace)]
    [("Pane", deStruct fun o => do
        some (.pane (← field o "target") (← field o "split"))),
     ("Tab", deStruct fun o => do
        some (.tab (← field o "pane") (← field o "index")))]

instance : Serde AssemblyDestination :=
  ⟨AssemblyDestination.toJson, AssemblyDestination.ofJson, none⟩

instance : RoundTrip AssemblyDestination where
  de_ser x := by
    show AssemblyDestination.ofJson x.toJson = some x
    cases x <;>
      simp [AssemblyDestination.toJson, AssemblyDestination.ofJson,
        deVariant, List.lookup, field]

def CreationAssembly.toJson (x : CreationAssembly) : Json :=
  .obj [("snapshot", ser x.snapshot),
    ("destination", ser x.destination), ("inputs", ser x.inputs),
    ("undo", ser x.undo), ("omit_failed", ser x.omitFailed)]

def CreationAssembly.ofJson : Json → Option CreationAssembly :=
  deStruct fun o => do
  some {
    snapshot := ← field o "snapshot"
    destination := ← field o "destination"
    inputs := ← field o "inputs"
    undo := ← field o "undo"
    omitFailed := ← field o "omit_failed" }

instance : Serde CreationAssembly :=
  ⟨CreationAssembly.toJson, CreationAssembly.ofJson, none⟩

instance : RoundTrip CreationAssembly where
  de_ser x := by
    show CreationAssembly.ofJson x.toJson = some x
    simp [CreationAssembly.toJson, CreationAssembly.ofJson, field]

instance : NonNull CreationAssembly where
  ser_ne_null _ h := by cases h

def OperationOutcome.toJson : OperationOutcome → Json
  | .succeeded => .str "Succeeded"
  | .failed reason =>
    .obj [("Failed", .obj [("reason", ser reason)])]
  | .cancelled reason =>
    .obj [("Cancelled", .obj [("reason", ser reason)])]
  | .superseded reason =>
    .obj [("Superseded", .obj [("reason", ser reason)])]
  | .uncertain reason =>
    .obj [("Uncertain", .obj [("reason", ser reason)])]

def OperationOutcome.ofJson : Json → Option OperationOutcome :=
  deVariant [("Succeeded", .succeeded)]
    [("Failed", deStruct fun o => do
        some (.failed (← field o "reason"))),
     ("Cancelled", deStruct fun o => do
        some (.cancelled (← field o "reason"))),
     ("Superseded", deStruct fun o => do
        some (.superseded (← field o "reason"))),
     ("Uncertain", deStruct fun o => do
        some (.uncertain (← field o "reason")))]

instance : Serde OperationOutcome :=
  ⟨OperationOutcome.toJson, OperationOutcome.ofJson, none⟩

instance : RoundTrip OperationOutcome where
  de_ser x := by
    show OperationOutcome.ofJson x.toJson = some x
    cases x <;>
      simp [OperationOutcome.toJson, OperationOutcome.ofJson,
        deVariant, List.lookup, field]

instance : NonNull OperationOutcome where
  ser_ne_null x h := by cases x <;> cases h
-- ==== what does not come back

/-- An option of an option, as `null` can stand for: no value, or a
value that is not empty. -/
def collapseOption {α : Type} : Option (Option α) → Option (Option α)
  | some none => none
  | e => e

theorem de_ser_optionOption {α : Type} [Serde α] [RoundTrip α]
    [NonNull α] (e : Option (Option α)) :
    de (ser e) = some (collapseOption e) := by
  cases e with
  | none => rfl
  | some e =>
    cases e with
    | none => rfl
    | some a =>
      have hser : ser (some a) ≠ .null := NonNull.ser_ne_null a
      rw [de_ser_some hser, RoundTrip.de_ser (some a)]
      rfl

theorem collapseOption_eq_self {α : Type} {e : Option (Option α)} :
    collapseOption e = e ↔ e ≠ some none := by
  unfold collapseOption
  split
  · simp
  · rename_i hne
    exact ⟨fun _ => hne, fun _ => rfl⟩

def CreationDestination.toJson : CreationDestination → Json
  | .assembly operation =>
    .obj [("Assembly", .obj [("operation", ser operation)])]
  | .workspace workspaceId paneId tabId name category subtitle description
      attachMapping =>
      .obj [("Workspace", .obj [("workspace", ser workspaceId),
        ("pane", ser paneId), ("tab", ser tabId), ("name", ser name),
        ("category", ser category), ("subtitle", ser subtitle),
        ("description", ser description),
        ("attach_mapping", ser attachMapping)])]
  | .tab paneId tabId index =>
    .obj [("Tab", .obj [("pane", ser paneId), ("tab", ser tabId),
      ("index", ser index)])]
  | .pane target paneId tabId splitId =>
    .obj [("Pane", .obj [("target", ser target), ("pane", ser paneId),
      ("tab", ser tabId), ("split", ser splitId)])]
  | .split target splitId =>
    .obj [("Split", .obj [("target", ser target),
      ("split", ser splitId)])]
  | .restore surface previousActivation =>
    .obj [("Restore", .obj [("surface", ser surface),
      ("previous_activation", ser previousActivation)])]
  | .convert surface previousActivation explicitName =>
    .obj [("Convert", .obj [("surface", ser surface),
      ("previous_activation", ser previousActivation),
      ("explicit_name", ser explicitName)])]

def CreationDestination.ofJson : Json → Option CreationDestination :=
  deVariant []
    [("Assembly", deStruct fun o => do
        some (.assembly (← field o "operation"))),
     ("Workspace", deStruct fun o => do
        some (.workspace (← field o "workspace") (← field o "pane")
          (← field o "tab") (← field o "name")
          (← field o "category") (← field o "subtitle")
          (← field o "description")
          (← fieldOr o "attach_mapping" none))),
     ("Tab", deStruct fun o => do
        some (.tab (← field o "pane") (← field o "tab")
          (← field o "index"))),
     ("Pane", deStruct fun o => do
        some (.pane (← field o "target") (← field o "pane")
          (← field o "tab") (← field o "split"))),
     ("Split", deStruct fun o => do
        some (.split (← field o "target") (← field o "split"))),
     ("Restore", deStruct fun o => do
        some (.restore (← field o "surface")
          (← field o "previous_activation"))),
     ("Convert", deStruct fun o => do
        some (.convert (← field o "surface")
          (← field o "previous_activation")
          (← field o "explicit_name")))]

instance : Serde CreationDestination :=
  ⟨CreationDestination.toJson, CreationDestination.ofJson, none⟩

/-- A conversion that clears the name is one that keeps it. -/
def CreationDestination.collapse :
    CreationDestination → CreationDestination
  | .convert surface previousActivation explicitName =>
    .convert surface previousActivation (collapseOption explicitName)
  | d => d

def CreationDestination.lossy : CreationDestination → Bool
  | .convert _ _ explicitName => explicitName = some none
  | _ => false

theorem CreationDestination.de_ser (d : CreationDestination) :
    de (ser d) = some d.collapse := by
  show CreationDestination.ofJson d.toJson = some d.collapse
  cases d <;>
    simp [CreationDestination.toJson, CreationDestination.ofJson,
      CreationDestination.collapse, deVariant, List.lookup, field,
      fieldOr, de_ser_optionOption]

theorem CreationDestination.collapse_eq_self {d : CreationDestination} :
    d.collapse = d ↔ d.lossy = false := by
  cases d <;>
    simp [CreationDestination.collapse, CreationDestination.lossy,
      collapseOption_eq_self]

def CreationPlan.toJson (x : CreationPlan) : Json :=
  .obj [("destination", ser x.destination), ("surface", ser x.surface),
    ("tab_name", ser x.tabName), ("explicit_name", ser x.explicitName)]

def CreationPlan.ofJson : Json → Option CreationPlan :=
  deStruct fun o => do
  some {
    destination := ← field o "destination"
    surface := ← field o "surface"
    tabName := ← field o "tab_name"
    explicitName := ← field o "explicit_name" }

instance : Serde CreationPlan :=
  ⟨CreationPlan.toJson, CreationPlan.ofJson, none⟩

instance : NonNull CreationPlan where
  ser_ne_null _ h := by cases h

def CreationPlan.collapse (x : CreationPlan) : CreationPlan :=
  { x with destination := x.destination.collapse }

theorem CreationPlan.collapse_eq_self {x : CreationPlan} :
    x.collapse = x ↔ x.destination.lossy = false := by
  obtain ⟨destination, _, _, _⟩ := x
  simp [CreationPlan.collapse, CreationDestination.collapse_eq_self]

theorem CreationPlan.de_ser (x : CreationPlan) :
    de (ser x) = some x.collapse := by
  show CreationPlan.ofJson x.toJson = some x.collapse
  simp [CreationPlan.toJson, CreationPlan.ofJson, CreationPlan.collapse,
    field, CreationDestination.de_ser]

def CleanupPlan.toJson : CleanupPlan → Json
  | .installPrepared surface previousActivation =>
    .obj [("InstallPrepared", .obj [("surface", ser surface),
      ("previous_activation", ser previousActivation)])]
  | .discardPrepared surface activationGeneration =>
    .obj [("DiscardPrepared", .obj [("surface", ser surface),
      ("activation_generation", ser activationGeneration)])]

def CleanupPlan.ofJson : Json → Option CleanupPlan :=
  deVariant []
    [("InstallPrepared", deStruct fun o => do
        some (.installPrepared (← field o "surface")
          (← field o "previous_activation"))),
     ("DiscardPrepared", deStruct fun o => do
        some (.discardPrepared (← field o "surface")
          (← field o "activation_generation")))]

instance : Serde CleanupPlan :=
  ⟨CleanupPlan.toJson, CleanupPlan.ofJson, none⟩

instance : NonNull CleanupPlan where
  ser_ne_null x h := by cases x <;> cases h

/-- An install over a legacy owner is one over no owner. -/
def CleanupPlan.collapse : CleanupPlan → CleanupPlan
  | .installPrepared surface previousActivation =>
    .installPrepared surface (collapseOption previousActivation)
  | plan => plan

def CleanupPlan.lossy : CleanupPlan → Bool
  | .installPrepared _ previousActivation =>
    previousActivation = some none
  | _ => false

theorem CleanupPlan.de_ser (plan : CleanupPlan) :
    de (ser plan) = some plan.collapse := by
  show CleanupPlan.ofJson plan.toJson = some plan.collapse
  cases plan <;>
    simp [CleanupPlan.toJson, CleanupPlan.ofJson, CleanupPlan.collapse,
      deVariant, List.lookup, field, de_ser_optionOption]

theorem CleanupPlan.collapse_eq_self {plan : CleanupPlan} :
    plan.collapse = plan ↔ plan.lossy = false := by
  cases plan <;>
    simp [CleanupPlan.collapse, CleanupPlan.lossy, collapseOption_eq_self]

-- ==== operations and models

def Operation.toJson (x : Operation) : Json :=
  .obj [("id", ser x.id), ("command_id", ser x.commandId),
    ("engine_incarnation", ser x.engineIncarnation),
    ("creation", ser x.creation), ("assembly", ser x.assembly),
    ("retirement", ser x.retirement), ("forward", ser x.forward),
    ("targets", ser x.targets), ("reserved", ser x.reserved),
    ("input", ser x.input),
    ("activation_generation", ser x.activationGeneration),
    ("outcome", ser x.outcome),
    ("pending_outcome", ser x.pendingOutcome),
    ("cleanup", ser x.cleanup), ("prepared_data", ser x.preparedData),
    ("prepared_deferred", ser x.preparedDeferred),
    ("resource_prepared", ser x.resourcePrepared),
    ("reconciliation_evidence", ser x.reconciliationEvidence)]

def Operation.ofJson : Json → Option Operation := deStruct fun o => do
  some {
    id := ← field o "id"
    commandId := ← field o "command_id"
    engineIncarnation := ← fieldOr o "engine_incarnation" 0
    creation := ← fieldOr o "creation" none
    assembly := ← fieldOr o "assembly" none
    retirement := ← fieldOr o "retirement" none
    forward := ← fieldOr o "forward" false
    targets := ← field o "targets"
    reserved := ← field o "reserved"
    input := ← field o "input"
    activationGeneration := ← field o "activation_generation"
    outcome := ← field o "outcome"
    pendingOutcome := ← fieldOr o "pending_outcome" none
    cleanup := ← fieldOr o "cleanup" none
    preparedData := ← fieldOr o "prepared_data" none
    preparedDeferred := ← fieldOr o "prepared_deferred" false
    resourcePrepared := ← fieldOr o "resource_prepared" false
    reconciliationEvidence := ← field o "reconciliation_evidence" }

instance : Serde Operation := ⟨Operation.toJson, Operation.ofJson, none⟩

def Operation.collapse (op : Operation) : Operation :=
  { op with
    creation := op.creation.map CreationPlan.collapse
    cleanup := op.cleanup.map CleanupPlan.collapse }

/-- The operation holds one of the two options that do not come back. -/
def Operation.lossy (op : Operation) : Bool :=
  op.creation.any (·.destination.lossy) || op.cleanup.any CleanupPlan.lossy

theorem Operation.de_ser (op : Operation) : de (ser op) = some op.collapse := by
  -- each name of the object finds its own entry
  show (do
    some {
      id := ← de (ser op.id)
      commandId := ← de (ser op.commandId)
      engineIncarnation := ← de (ser op.engineIncarnation)
      creation := ← de (ser op.creation)
      assembly := ← de (ser op.assembly)
      retirement := ← de (ser op.retirement)
      forward := ← de (ser op.forward)
      targets := ← de (ser op.targets)
      reserved := ← de (ser op.reserved)
      input := ← de (ser op.input)
      activationGeneration := ← de (ser op.activationGeneration)
      outcome := ← de (ser op.outcome)
      pendingOutcome := ← de (ser op.pendingOutcome)
      cleanup := ← de (ser op.cleanup)
      preparedData := ← de (ser op.preparedData)
      preparedDeferred := ← de (ser op.preparedDeferred)
      resourcePrepared := ← de (ser op.resourcePrepared)
      reconciliationEvidence := ← de (ser op.reconciliationEvidence) })
    = some op.collapse
  simp only [RoundTrip.de_ser, de_ser_option CreationPlan.de_ser, de_ser_option
    CleanupPlan.de_ser, bind_eq_bind, bind_some]
  rfl

theorem Operation.collapse_eq_self {op : Operation} :
    op.collapse = op ↔ op.lossy = false := by
  obtain ⟨_, _, _, creation, _, _, _, _, _, _, _, _, _, cleanup⟩ := op
  cases creation <;> cases cleanup <;>
    simp [Operation.collapse, Operation.lossy,
      CreationPlan.collapse_eq_self, CleanupPlan.collapse_eq_self]

def Applied.toJson (x : Applied) : Json :=
  .obj [("batch", ser x.batch), ("revision", ser x.revision)]

def Applied.ofJson : Json → Option Applied := deStruct fun o => do
  some {
    batch := ← field o "batch"
    revision := ← field o "revision" }

instance : Serde Applied := ⟨Applied.toJson, Applied.ofJson, none⟩

instance : RoundTrip Applied where
  de_ser x := by
    show Applied.ofJson x.toJson = some x
    simp [Applied.toJson, Applied.ofJson, field]

def JournalModel.toJson (m : JournalModel) : Json :=
  .obj [("applied", ser m.applied),
    ("engine_incarnation", ser m.engineIncarnation),
    ("engine_retired", ser m.engineRetired),
    ("activation_high_water", ser m.activationHighWater),
    ("categories", ser m.categories),
    ("category_order", ser m.categoryOrder),
    ("workspaces", ser m.workspaces),
    ("workspace_order", ser m.workspaceOrder), ("panes", ser m.panes),
    ("tabs", ser m.tabs), ("surfaces", ser m.surfaces),
    ("operations", ser m.operations),
    ("undo_records", ser m.undoRecords)]

def JournalModel.ofJson : Json → Option JournalModel :=
  deStruct fun o => do
  some {
    applied := ← field o "applied"
    engineIncarnation := ← fieldOr o "engine_incarnation" 0
    engineRetired := ← fieldOr o "engine_retired" false
    activationHighWater := ← fieldOr o "activation_high_water" ∅
    categories := ← field o "categories"
    categoryOrder := ← field o "category_order"
    workspaces := ← field o "workspaces"
    workspaceOrder := ← field o "workspace_order"
    panes := ← field o "panes"
    tabs := ← field o "tabs"
    surfaces := ← field o "surfaces"
    operations := ← fieldOr o "operations" ∅
    undoRecords := ← fieldOr o "undo_records" [] }

instance : Serde JournalModel :=
  ⟨JournalModel.toJson, JournalModel.ofJson, none⟩

def JournalModel.collapse (m : JournalModel) : JournalModel :=
  { m with operations := m.operations.map fun _ op => op.collapse }

def JournalModel.lossy (m : JournalModel) : Bool :=
  BTreeMap.anyValue m.operations Operation.lossy

theorem JournalModel.de_ser (m : JournalModel) :
    de (ser m) = some m.collapse := by
  show JournalModel.ofJson m.toJson = some m.collapse
  simp only [JournalModel.toJson, JournalModel.ofJson, deStruct, field, fieldOr,
    Fields.find_cons, Fields.find_nil, String.reduceEq, reduceIte, readOnce_one,
    RoundTrip.de_ser, de_ser_map Operation.de_ser, bind_eq_bind, bind_some]
  rfl

def StructureModels.toJson (x : StructureModels) : Json :=
  .obj [("batch", ser x.batch), ("streams", ser x.streams)]

def StructureModels.ofJson : Json → Option StructureModels :=
  deStruct fun o => do
  some {
    batch := ← field o "batch"
    streams := ← field o "streams" }

instance : Serde StructureModels :=
  ⟨StructureModels.toJson, StructureModels.ofJson, none⟩

def StructureModels.collapse (x : StructureModels) : StructureModels :=
  { x with streams := x.streams.map fun _ m => m.collapse }

def StructureModels.lossy (x : StructureModels) : Bool :=
  BTreeMap.anyValue x.streams JournalModel.lossy

theorem StructureModels.de_ser (x : StructureModels) :
    de (ser x) = some x.collapse := by
  show StructureModels.ofJson x.toJson = some x.collapse
  simp [StructureModels.toJson, StructureModels.ofJson,
    StructureModels.collapse, field, de_ser_map JournalModel.de_ser]

-- ==== events

def MetadataTarget.toJson : MetadataTarget → Json
  | .workspace id => .obj [("Workspace", ser id)]
  | .surface id => .obj [("Surface", ser id)]

def MetadataTarget.ofJson : Json → Option MetadataTarget :=
  deVariant []
    [("Workspace", fun j => (de j).map .workspace),
     ("Surface", fun j => (de j).map .surface)]

instance : Serde MetadataTarget :=
  ⟨MetadataTarget.toJson, MetadataTarget.ofJson, none⟩

instance : RoundTrip MetadataTarget where
  de_ser x := by
    show MetadataTarget.ofJson x.toJson = some x
    cases x <;>
      simp [MetadataTarget.toJson, MetadataTarget.ofJson,
        deVariant, List.lookup]

/-- `type_tag`. -/
def DomainEvent.typeTag : DomainEvent → String
  | .structureReplaced .. => "structure.replaced"
  | .undoRecordAdded .. => "undo.added"
  | .undoRecordConsumed .. => "undo.consumed"
  | .undoRecordEvicted .. => "undo.evicted"
  | .engineIncarnationStarted .. => "engine.incarnation_started"
  | .engineRetired .. => "engine.retired"
  | .categoryCreated .. => "category.created"
  | .categoryRenamed .. => "category.renamed"
  | .categoryMoved .. => "category.moved"
  | .categoryClosed .. => "category.closed"
  | .workspaceCreated .. => "workspace.created"
  | .workspaceRenamed .. => "workspace.renamed"
  | .workspaceDetailsSet .. => "workspace.details_set"
  | .workspaceAttachMappingSet .. => "workspace.attach_mapping_set"
  | .workspaceMoved .. => "workspace.moved"
  | .workspaceClosed .. => "workspace.closed"
  | .paneSplit .. => "pane.split"
  | .paneMoved .. => "pane.moved"
  | .paneClosed .. => "pane.closed"
  | .tabCreated .. => "tab.created"
  | .tabRenamed .. => "tab.renamed"
  | .tabExplicitNameSet .. => "tab.explicit_name_set"
  | .tabMoved .. => "tab.moved"
  | .tabClosed .. => "tab.closed"
  | .surfaceSplit .. => "surface.split"
  | .surfaceMoved .. => "surface.moved"
  | .surfaceClosed .. => "surface.closed"
  | .surfaceConverted .. => "surface.converted"
  | .surfaceCreationSeeded .. => "surface.creation_seeded"
  | .surfaceSeedImported .. => "surface.seed_imported"
  | .surfaceDataRecorded .. => "surface.data_recorded"
  | .surfaceActivationChanged .. => "surface.activation_changed"
  | .paneRatioSet .. => "pane.ratio_set"
  | .surfaceRatioSet .. => "surface.ratio_set"
  | .operationPrepared .. => "operation.prepared"
  | .operationResourcePrepared .. => "operation.resource_prepared"
  | .operationAwaitingCleanup .. => "operation.awaiting_cleanup"
  | .operationFinished .. => "operation.finished"
  | .operationRecoveryObserved .. => "operation.recovery_observed"
  | .operationReconciled .. => "operation.reconciled"
  | .metadataSet .. => "metadata.set"
  | .metadataRemoved .. => "metadata.removed"

/-- `TAGS`: every tag this build knows. -/
def DomainEvent.tags : List String :=
  ["structure.replaced", "undo.added", "undo.consumed", "undo.evicted",
   "engine.incarnation_started", "engine.retired", "category.created",
   "category.renamed", "category.moved", "category.closed",
   "workspace.created", "workspace.renamed", "workspace.details_set",
   "workspace.attach_mapping_set", "workspace.moved",
   "workspace.closed", "pane.split", "pane.moved", "pane.closed",
   "tab.created", "tab.renamed", "tab.explicit_name_set", "tab.moved",
   "tab.closed", "surface.split", "surface.moved", "surface.closed",
   "surface.converted", "surface.data_recorded",
   "surface.creation_seeded", "surface.seed_imported",
   "surface.activation_changed", "pane.ratio_set", "surface.ratio_set",
   "operation.prepared", "operation.resource_prepared",
   "operation.awaiting_cleanup", "operation.finished",
   "operation.recovery_observed", "operation.reconciled",
   "metadata.set", "metadata.removed"]

/-- The fields of the variant, without its tag. -/
def DomainEvent.fields : DomainEvent → Fields
  | .structureReplaced replacement removed =>
    [("replacement", ser replacement), ("removed", ser removed)]
  | .undoRecordAdded record =>
    [("record", ser record)]
  | .undoRecordConsumed id =>
    [("id", ser id)]
  | .undoRecordEvicted id =>
    [("id", ser id)]
  | .engineIncarnationStarted previous current =>
    [("previous", ser previous), ("current", ser current)]
  | .engineRetired incarnation =>
    [("incarnation", ser incarnation)]
  | .categoryCreated id name index =>
    [("id", ser id), ("name", ser name), ("index", ser index)]
  | .categoryRenamed id name =>
    [("id", ser id), ("name", ser name)]
  | .categoryMoved id index =>
    [("id", ser id), ("index", ser index)]
  | .categoryClosed id =>
    [("id", ser id)]
  | .workspaceCreated id name category index pane =>
    [("id", ser id), ("name", ser name), ("category", ser category),
     ("index", ser index), ("pane", ser pane)]
  | .workspaceRenamed id name =>
    [("id", ser id), ("name", ser name)]
  | .workspaceDetailsSet id subtitle description =>
    [("id", ser id), ("subtitle", ser subtitle),
     ("description", ser description)]
  | .workspaceAttachMappingSet id mapping =>
    [("id", ser id), ("mapping", ser mapping)]
  | .workspaceMoved id category index =>
    [("id", ser id), ("category", ser category), ("index", ser index)]
  | .workspaceClosed id =>
    [("id", ser id)]
  | .paneSplit target pane split =>
    [("target", ser target), ("pane", ser pane), ("split", ser split)]
  | .paneMoved id target split =>
    [("id", ser id), ("target", ser target), ("split", ser split)]
  | .paneClosed id =>
    [("id", ser id)]
  | .tabCreated id pane index name surface =>
    [("id", ser id), ("pane", ser pane), ("index", ser index),
     ("name", ser name), ("surface", ser surface)]
  | .tabRenamed id name =>
    [("id", ser id), ("name", ser name)]
  | .tabExplicitNameSet id name =>
    [("id", ser id), ("name", ser name)]
  | .tabMoved id pane index =>
    [("id", ser id), ("pane", ser pane), ("index", ser index)]
  | .tabClosed id =>
    [("id", ser id)]
  | .surfaceSplit target surface split =>
    [("target", ser target), ("surface", ser surface),
     ("split", ser split)]
  | .surfaceMoved id target split =>
    [("id", ser id), ("target", ser target), ("split", ser split)]
  | .surfaceClosed id =>
    [("id", ser id)]
  | .surfaceConverted id kind data =>
    [("id", ser id), ("kind", ser kind), ("data", ser data)]
  | .surfaceCreationSeeded id activationGeneration input =>
    [("id", ser id),
     ("activation_generation", ser activationGeneration),
     ("input", ser input)]
  | .surfaceSeedImported id input =>
    [("id", ser id), ("input", ser input)]
  | .surfaceDataRecorded id activationGeneration contentGeneration
      snapshotSchema data =>
      [("id", ser id),
       ("activation_generation", ser activationGeneration),
       ("content_generation", ser contentGeneration),
       ("snapshot_schema", ser snapshotSchema), ("data", ser data)]
  | .surfaceActivationChanged id previousGeneration activation =>
    [("id", ser id), ("previous_generation", ser previousGeneration),
     ("activation", ser activation)]
  | .paneRatioSet workspace path ratio =>
    [("workspace", ser workspace), ("path", ser path),
     ("ratio", ser ratio)]
  | .surfaceRatioSet tab path ratio =>
    [("tab", ser tab), ("path", ser path), ("ratio", ser ratio)]
  | .operationPrepared operation =>
    [("operation", ser operation)]
  | .operationResourcePrepared id data deferred =>
    [("id", ser id), ("data", ser data), ("deferred", ser deferred)]
  | .operationAwaitingCleanup id outcome cleanup preparedData
      deferred =>
      [("id", ser id), ("outcome", ser outcome),
       ("cleanup", ser cleanup), ("prepared_data", ser preparedData),
       ("deferred", ser deferred)]
  | .operationFinished id outcome =>
    [("id", ser id), ("outcome", ser outcome)]
  | .operationRecoveryObserved id evidence =>
    [("id", ser id), ("evidence", ser evidence)]
  | .operationReconciled id outcome evidence =>
    [("id", ser id), ("outcome", ser outcome),
     ("evidence", ser evidence)]
  | .metadataSet target key value =>
    [("target", ser target), ("key", ser key), ("value", ser value)]
  | .metadataRemoved target key =>
    [("target", ser target), ("key", ser key)]

def DomainEvent.toJson (e : DomainEvent) : Json :=
  .obj (("type", ser e.typeTag) :: e.fields)

/-- `#[serde(tag = "type")]`: the readers of the variants, by tag. -/
def DomainEvent.readers :
    List (String × (Fields → Option DomainEvent)) :=
  [("structure.replaced", fun o => do
      some (.structureReplaced (← field o "replacement")
        (← field o "removed"))),
   ("undo.added", fun o => do
      some (.undoRecordAdded (← field o "record"))),
   ("undo.consumed", fun o => do
      some (.undoRecordConsumed (← field o "id"))),
   ("undo.evicted", fun o => do
      some (.undoRecordEvicted (← field o "id"))),
   ("engine.incarnation_started", fun o => do
      some (.engineIncarnationStarted (← field o "previous")
        (← field o "current"))),
   ("engine.retired", fun o => do
      some (.engineRetired (← field o "incarnation"))),
   ("category.created", fun o => do
      some (.categoryCreated (← field o "id") (← field o "name")
        (← field o "index"))),
   ("category.renamed", fun o => do
      some (.categoryRenamed (← field o "id") (← field o "name"))),
   ("category.moved", fun o => do
      some (.categoryMoved (← field o "id") (← field o "index"))),
   ("category.closed", fun o => do
      some (.categoryClosed (← field o "id"))),
   ("workspace.created", fun o => do
      some (.workspaceCreated (← field o "id") (← field o "name")
        (← field o "category") (← field o "index")
        (← field o "pane"))),
   ("workspace.renamed", fun o => do
      some (.workspaceRenamed (← field o "id") (← field o "name"))),
   ("workspace.details_set", fun o => do
      some (.workspaceDetailsSet (← field o "id")
        (← field o "subtitle") (← field o "description"))),
   ("workspace.attach_mapping_set", fun o => do
      some (.workspaceAttachMappingSet (← field o "id")
        (← field o "mapping"))),
   ("workspace.moved", fun o => do
      some (.workspaceMoved (← field o "id")
        (← field o "category") (← field o "index"))),
   ("workspace.closed", fun o => do
      some (.workspaceClosed (← field o "id"))),
   ("pane.split", fun o => do
      some (.paneSplit (← field o "target") (← field o "pane")
        (← field o "split"))),
   ("pane.moved", fun o => do
      some (.paneMoved (← field o "id") (← field o "target")
        (← field o "split"))),
   ("pane.closed", fun o => do
      some (.paneClosed (← field o "id"))),
   ("tab.created", fun o => do
      some (.tabCreated (← field o "id") (← field o "pane")
        (← field o "index") (← field o "name")
        (← field o "surface"))),
   ("tab.renamed", fun o => do
      some (.tabRenamed (← field o "id") (← field o "name"))),
   ("tab.explicit_name_set", fun o => do
      some (.tabExplicitNameSet (← field o "id")
        (← field o "name"))),
   ("tab.moved", fun o => do
      some (.tabMoved (← field o "id") (← field o "pane")
        (← field o "index"))),
   ("tab.closed", fun o => do
      some (.tabClosed (← field o "id"))),
   ("surface.split", fun o => do
      some (.surfaceSplit (← field o "target")
        (← field o "surface") (← field o "split"))),
   ("surface.moved", fun o => do
      some (.surfaceMoved (← field o "id") (← field o "target")
        (← field o "split"))),
   ("surface.closed", fun o => do
      some (.surfaceClosed (← field o "id"))),
   ("surface.converted", fun o => do
      some (.surfaceConverted (← field o "id") (← field o "kind")
        (← field o "data"))),
   ("surface.creation_seeded", fun o => do
      some (.surfaceCreationSeeded (← field o "id")
        (← field o "activation_generation") (← field o "input"))),
   ("surface.seed_imported", fun o => do
      some (.surfaceSeedImported (← field o "id")
        (← field o "input"))),
   ("surface.data_recorded", fun o => do
      some (.surfaceDataRecorded (← field o "id")
        (← field o "activation_generation")
        (← field o "content_generation")
        (← field o "snapshot_schema") (← field o "data"))),
   ("surface.activation_changed", fun o => do
      some (.surfaceActivationChanged (← field o "id")
        (← field o "previous_generation") (← field o "activation"))),
   ("pane.ratio_set", fun o => do
      some (.paneRatioSet (← field o "workspace")
        (← field o "path") (← field o "ratio"))),
   ("surface.ratio_set", fun o => do
      some (.surfaceRatioSet (← field o "tab") (← field o "path")
        (← field o "ratio"))),
   ("operation.prepared", fun o => do
      some (.operationPrepared (← field o "operation"))),
   ("operation.resource_prepared", fun o => do
      some (.operationResourcePrepared (← field o "id")
        (← field o "data") (← field o "deferred"))),
   ("operation.awaiting_cleanup", fun o => do
      some (.operationAwaitingCleanup (← field o "id")
        (← field o "outcome") (← field o "cleanup")
        (← field o "prepared_data") (← fieldOr o "deferred" false))),
   ("operation.finished", fun o => do
      some (.operationFinished (← field o "id")
        (← field o "outcome"))),
   ("operation.recovery_observed", fun o => do
      some (.operationRecoveryObserved (← field o "id")
        (← field o "evidence"))),
   ("operation.reconciled", fun o => do
      some (.operationReconciled (← field o "id")
        (← field o "outcome") (← field o "evidence"))),
   ("metadata.set", fun o => do
      some (.metadataSet (← field o "target") (← field o "key")
        (← field o "value"))),
   ("metadata.removed", fun o => do
      some (.metadataRemoved (← field o "target")
        (← field o "key")))]

def DomainEvent.ofJson : Json → Option DomainEvent :=
  deStruct fun o => do
    let tag ← field o "type"
    let read ← DomainEvent.readers.lookup tag
    read o

instance : Serde DomainEvent :=
  ⟨DomainEvent.toJson, DomainEvent.ofJson, none⟩

/-- What is read back from the event's encoding. -/
def DomainEvent.collapse : DomainEvent → DomainEvent
  | .operationPrepared operation => .operationPrepared operation.collapse
  | .operationAwaitingCleanup id outcome cleanup preparedData deferred =>
    .operationAwaitingCleanup id outcome cleanup.collapse preparedData
      deferred
  | e => e

/-- The event holds an option that does not come back. -/
def DomainEvent.lossy : DomainEvent → Bool
  | .operationPrepared operation => operation.lossy
  | .operationAwaitingCleanup _ _ cleanup _ _ => cleanup.lossy
  | _ => false

variable (e : DomainEvent)

theorem DomainEvent.field_type :
    field (("type", ser e.typeTag) :: e.fields) "type"
      = some e.typeTag := by
  cases e <;> simp [field, DomainEvent.fields]

theorem DomainEvent.de_ser : de (ser e) = some e.collapse := by
  show DomainEvent.ofJson e.toJson = some e.collapse
  unfold DomainEvent.ofJson DomainEvent.toJson
  rw [deStruct_obj]
  refine bind_eq_some_iff.2 ⟨_, e.field_type, ?_⟩
  cases e <;>
    refine bind_eq_some_iff.2 ⟨_, rfl, ?_⟩ <;>
    simp [DomainEvent.fields, DomainEvent.collapse, field, fieldOr,
      Operation.de_ser, CleanupPlan.de_ser]

theorem DomainEvent.collapse_eq_self {e : DomainEvent} :
    e.collapse = e ↔ e.lossy = false := by
  cases e <;>
    simp [DomainEvent.collapse, DomainEvent.lossy,
      Operation.collapse_eq_self, CleanupPlan.collapse_eq_self]

@[simp] theorem DomainEvent.typeTag_collapse :
    e.collapse.typeTag = e.typeTag := by
  cases e <;> rfl

theorem DomainEvent.typeTag_mem_tags : e.typeTag ∈ DomainEvent.tags := by
  cases e <;> simp [DomainEvent.typeTag, DomainEvent.tags]
end Tasty.Core
