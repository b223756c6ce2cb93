/-
The plans of prepared resources (`crates/tasty-core/src/{creation,
assembly}.rs`): which ids they reserve, whether their target is still
there, and the structure facts a restored subtree compiles to.

A `BTreeSet<u32>` of kept leaves is the list of its members.
-/
import Tasty.Core.Command

namespace Tasty.Core

namespace CreationAssembly

/-- The operation of one leaf of an assembly. -/
def member (group : OperationId) (surface : UInt32) : OperationId :=
  ⟨s!"{group.raw}/leaf/{surface}"⟩

/-- `model.panes.get(pane).is_some_and(|pane| index <= pane.tabs.len())`. -/
def indexIsLive (m : JournalModel) (pane : UInt32) (index : Usize) :
    Bool :=
  match m.panes[pane]? with
  | some pane => index.toNat ≤ pane.tabs.length
  | none => false

def destinationIsLive (m : JournalModel) : AssemblyDestination → Bool
  | .workspace => true
  | .pane target _ => m.panes.contains target
  | .tab pane index => indexIsLive m pane index

def targetIsLive (plan : CreationAssembly) (m : JournalModel) : Bool :=
  !m.engineRetired
    && destinationIsLive m plan.destination
    && match plan.undo with
      | some id => m.undoRecords.any (·.id = id)
      | none => true

def reservedIds (plan : CreationAssembly) : List EntityId :=
  plan.snapshot.workspaces.keys.map (⟨.workspace, ·⟩)
    ++ plan.snapshot.panes.keys.map (⟨.pane, ·⟩)
    ++ plan.snapshot.tabs.keys.map (⟨.tab, ·⟩)
    ++ plan.snapshot.surfaces.keys.map (⟨.surface, ·⟩)

-- ==== the graph check

/-- Visit every owned id once; each must name its owner. The result is
what was seen. -/
def visit (names : UInt32 → UInt32 → Bool) (seen : List UInt32) :
    List (UInt32 × UInt32) → Option (List UInt32)
  | [] => some seen
  | (owner, id) :: rest =>
    if seen.contains id || !names owner id then none
    else visit names (id :: seen) rest

/-- The owned ids of every entry, each with its owner. -/
def owned {V : Type} (children : V → List UInt32)
    (map : BTreeMap UInt32 V) : List (UInt32 × UInt32) :=
  map.toList.flatMap fun (id, v) => (children v).map (id, ·)

def surfaceNames (s : ClosedSnapshot) (tab surface : UInt32) : Bool :=
  match s.surfaces[surface]? with
  | some leaf => leaf.tab = tab
  | none => false

def tabNames (s : ClosedSnapshot) (pane tab : UInt32) : Bool :=
  match s.tabs[tab]? with
  | some tab => tab.pane = pane
  | none => false

def paneNames (s : ClosedSnapshot) (workspace pane : UInt32) : Bool :=
  match s.panes[pane]? with
  | some pane => pane.workspace = workspace
  | none => false

/-- The shape the destination asks of the subtree. -/
def rootFits (plan : CreationAssembly)
    (seenTabs seenPanes : List UInt32) : Bool :=
  let s := plan.snapshot
  match plan.destination with
  | .workspace =>
    s.root.kind = .workspace && s.workspaces.size = 1
      && s.workspaces.contains s.root.id
      && seenPanes.length = s.panes.size
      && seenTabs.length = s.tabs.size
  | .pane _ _ =>
    s.root.kind = .pane && s.workspaces.isEmpty && s.panes.size = 1
      && s.panes.contains s.root.id && seenTabs.length = s.tabs.size
  | .tab _ _ =>
    s.root.kind = .tab && s.workspaces.isEmpty && s.panes.isEmpty
      && s.tabs.size = 1 && s.tabs.contains s.root.id

def graphError : Rejection :=
  ⟨"restore subtree contains inconsistent IDs or parent references"⟩

/-- `validate_graph`. Every failure has the same text, so the checks of
one loop are done together. -/
def validateGraph (plan : CreationAssembly) : Except Rejection Unit :=
  let s := plan.snapshot
  if s.version ≠ 1 || s.surfaces.isEmpty then .error graphError
  else
    match visit (surfaceNames s) []
        (owned (fun tab => tab.layout.leaves) s.tabs) with
    | none => .error graphError
    | some seenSurfaces =>
      if seenSurfaces.length ≠ s.surfaces.size
          || BTreeMap.anyValue s.panes (fun pane => pane.tabs.isEmpty)
      then .error graphError
      else
        match visit (tabNames s) [] (owned Pane.tabs s.panes),
            visit (paneNames s) []
              (owned (fun w => w.layout.leaves) s.workspaces) with
        | some seenTabs, some seenPanes =>
          if !rootFits plan seenTabs seenPanes
              || plan.reservedIds.any (·.id = 0) then
            .error graphError
          else .ok ()
        | _, _ => .error graphError

-- ==== the subtree

/-- Drop the leaves that are not kept and collapse their splits. -/
def prune (keep : UInt32 → Bool) :
    SplitTree UInt32 → Option (SplitTree UInt32)
  | .leaf id => if keep id then some (.leaf id) else none
  | .split d r first second =>
    match prune keep first, prune keep second with
    | some first, some second => some (.split d r first second)
    | some first, none => some first
    | none, second => second

/-- The splits that rebuild a tree from its leftmost leaf, as
(target, new leaf, split). -/
def splits : SplitTree UInt32 → List (UInt32 × UInt32 × SplitSpec)
  | .leaf _ => []
  | .split direction ratio one two =>
    (one.first, two.first, ⟨direction, ratio, .after⟩)
      :: (splits one ++ splits two)

/-- The tabs that keep a leaf, with their pruned layouts. -/
def keptTabs (plan : CreationAssembly) (surviving : List UInt32) :
    BTreeMap UInt32 Tab :=
  plan.snapshot.tabs.filterMap fun _ tab =>
    (prune surviving.contains tab.layout).map
      fun layout => { tab with layout }

/-- The panes that keep a tab. -/
def keptPanes (plan : CreationAssembly) (tabs : BTreeMap UInt32 Tab) :
    BTreeMap UInt32 Pane :=
  plan.snapshot.panes.filterMap fun _ pane =>
    let kept := pane.tabs.filter tabs.contains
    if kept.isEmpty then none else some { pane with tabs := kept }

/-- The facts of the restored workspace, without its tabs. -/
def workspaceFacts (plan : CreationAssembly) (m : JournalModel)
    (workspace : Workspace) (layout : SplitTree UInt32) :
    List DomainEvent :=
  let id := plan.snapshot.root.id
  [.workspaceCreated id workspace.name
      (if m.categories.contains workspace.category then workspace.category
       else 0)
      (usizeLen m.workspaceOrder) layout.first,
    .workspaceDetailsSet id workspace.subtitle workspace.description,
    .workspaceAttachMappingSet id workspace.attachMapping]
    ++ (splits layout).map (fun (target, pane, split) =>
        .paneSplit target pane split)
    ++ workspace.metadata.toList.map fun (key, value) =>
        .metadataSet (.workspace id) key value

/-- `self.snapshot.surfaces[&id]` as the payload of a new surface. -/
def spec (plan : CreationAssembly) (id : UInt32) :
    Decided SurfaceSpec := do
  let value ← orPanic plan.snapshot.surfaces[id]?
  .ok { id, kind := value.kind, data := value.data }

/-- The metadata of one restored surface. -/
def leafMetadata (plan : CreationAssembly) (id : UInt32) :
    Decided (List DomainEvent) := do
  let value ← orPanic plan.snapshot.surfaces[id]?
  .ok (value.metadata.toList.map fun (key, value) =>
    .metadataSet (.surface id) key value)

/-- The facts of one restored tab. -/
def tabFacts (plan : CreationAssembly) (tabs : BTreeMap UInt32 Tab)
    (paneId tabId : UInt32) (index : Usize) :
    Decided (List DomainEvent) := do
  let tab ← orPanic tabs[tabId]?
  let created ← spec plan tab.layout.first
  let split ← (splits tab.layout).mapM fun (target, surface, split) => do
    let new ← spec plan surface
    .ok (DomainEvent.surfaceSplit target new split)
  let metadata ← tab.layout.leaves.mapM (leafMetadata plan)
  .ok (.tabCreated tabId paneId index tab.name created
    :: .tabExplicitNameSet tabId tab.explicitName
    :: (split ++ metadata.flatten))

/-- The position of a tab: the destination's own for a restored tab,
else its place in the captured pane. -/
def tabIndex (plan : CreationAssembly) (index : Nat) : Usize :=
  match plan.destination with
  | .tab _ index => index
  | _ => UInt64.ofNat index

/-- The facts of a pane's tabs, in order. -/
def paneFacts (plan : CreationAssembly) (tabs : BTreeMap UInt32 Tab)
    (paneId : UInt32) : Nat → List UInt32 → Decided (List DomainEvent)
  | _, [] => .ok []
  | index, tabId :: rest => do
      let here ← tabFacts plan tabs paneId tabId (plan.tabIndex index)
      let later ← paneFacts plan tabs paneId (index + 1) rest
      .ok (here ++ later)

/-- The facts of every pane's tabs. -/
def allTabFacts (plan : CreationAssembly) (tabs : BTreeMap UInt32 Tab) :
    List (UInt32 × Pane) → Decided (List DomainEvent)
  | [] => .ok []
  | (paneId, pane) :: rest => do
      let here ← paneFacts plan tabs paneId 0 pane.tabs
      let later ← allTabFacts plan tabs rest
      .ok (here ++ later)

/-- What stands above the tabs, and the tabs and panes to fill in. `none`
when nothing survives below the root. -/
def rootFacts (plan : CreationAssembly) (m : JournalModel)
    (tabs : BTreeMap UInt32 Tab) (panes : BTreeMap UInt32 Pane) :
    Decided (Option (List DomainEvent × BTreeMap UInt32 Tab
      × BTreeMap UInt32 Pane)) :=
  let root := plan.snapshot.root.id
  match plan.destination with
  | .workspace => do
      let workspace ← orReject plan.snapshot.workspaces[root]?
        "assembly workspace root missing"
      match prune panes.contains workspace.layout with
      | none => .ok none
      | some layout =>
        .ok (some (workspaceFacts plan m workspace layout, tabs, panes))
  | .pane target split =>
    if panes.isEmpty then .ok none
    else .ok (some ([.paneSplit target root split], tabs, panes))
  | .tab pane _ =>
    match tabs[root]? with
    | none => .ok none
    | some tab => do
        -- The destination owns the order; the captured pane is not
        -- created again.
        let owner ← orPanic m.panes[pane]?
        .ok (some ([], tabs.insert root { tab with pane },
          (∅ : BTreeMap UInt32 Pane).insert pane
            ⟨owner.workspace, [root]⟩))

/-- Compile a fixed subtree into ordinary structure facts. -/
def facts (plan : CreationAssembly) (m : JournalModel)
    (surviving : List UInt32) : Decided (List DomainEvent) := do
  orRaise plan.validateGraph
  rejectIf (plan.targetIsLive m = false) "assembly target was retired"
  let tabs := plan.keptTabs surviving
  let above ← plan.rootFacts m tabs (plan.keptPanes tabs)
  match above with
  | none => .ok []
  | some (events, tabs, panes) => do
      let below ← plan.allTabFacts tabs panes.toList
      .ok (events ++ below)

/-- What a finished assembly reports: its first surviving leaf. -/
def result (plan : CreationAssembly) (surviving : List UInt32) :
    StructuralResult :=
  let surface := surviving.head?.getD 0
  let tab := plan.snapshot.surfaces[surface]?.map Surface.tab
  let pane := (tab.bind fun tab => plan.snapshot.tabs[tab]?).map Tab.pane
  let workspace :=
    (pane.bind fun pane => plan.snapshot.panes[pane]?).map Pane.workspace
  .created workspace pane tab surface

end CreationAssembly

namespace CreationPlan

/-- The ids a creation mints; a member, a restoration and a conversion
mint none. -/
def reservedIds (plan : CreationPlan) : List EntityId :=
  match plan.destination with
  | .workspace workspace pane tab _ _ _ _ _ =>
    [⟨.workspace, workspace⟩, ⟨.pane, pane⟩, ⟨.tab, tab⟩,
      ⟨.surface, plan.surface.id⟩]
  | .tab _ tab _ => [⟨.tab, tab⟩, ⟨.surface, plan.surface.id⟩]
  | .pane _ pane tab _ =>
    [⟨.pane, pane⟩, ⟨.tab, tab⟩, ⟨.surface, plan.surface.id⟩]
  | .split _ _ => [⟨.surface, plan.surface.id⟩]
  | .assembly _ | .convert .. | .restore .. => []

/-- The coordinator waits and plans this leaf. -/
def groupIsLive (plan : CreationPlan) (m : JournalModel)
    (operation : OperationId) : Bool :=
  match m.operations[operation]? with
  | none => false
  | some group =>
    group.outcome.isNone
      && match group.assembly with
        | some assembly =>
          assembly.snapshot.surfaces.contains plan.surface.id
            && assembly.targetIsLive m
        | none => false

/-- The leaf a restoration or conversion is about has the activation it
was planned for. -/
def ownerIsLive (plan : CreationPlan) (m : JournalModel)
    (surface : UInt32) (previous : Option UInt64) (sameContent : Bool) :
    Bool :=
  surface = plan.surface.id
    && match m.surfaces[surface]? with
      | none => false
      | some s =>
        s.generation = previous
          && (!sameContent
            || (s.kind = plan.surface.kind && s.data = plan.surface.data))

def targetIsLive (plan : CreationPlan) (m : JournalModel) : Bool :=
  match plan.destination with
  | .assembly operation => plan.groupIsLive m operation
  | .workspace _ _ _ _ category _ _ _ => m.categories.contains category
  | .tab pane _ index => CreationAssembly.indexIsLive m pane index
  | .pane target _ _ _ => m.panes.contains target
  | .split target _ => m.surfaces.contains target
  | .restore surface previous => plan.ownerIsLive m surface previous true
  | .convert surface previous _ =>
    plan.ownerIsLive m surface previous false

def targets (plan : CreationPlan) : List EntityId :=
  match plan.destination with
  | .assembly _ => []
  | .workspace _ _ _ _ category _ _ _ => [⟨.category, category⟩]
  | .tab pane _ _ => [⟨.pane, pane⟩]
  | .pane target _ _ _ => [⟨.pane, target⟩]
  | .split target _ => [⟨.surface, target⟩]
  | .convert surface _ _ | .restore surface _ => [⟨.surface, surface⟩]

def createdResult (plan : CreationPlan) : StructuralResult :=
  match plan.destination with
  | .workspace workspace pane tab _ _ _ _ _ =>
    .created workspace pane tab plan.surface.id
  | .tab pane tab _ | .pane _ pane tab _ =>
    .created none pane tab plan.surface.id
  | _ => .created none none none plan.surface.id

end CreationPlan

end Tasty.Core
