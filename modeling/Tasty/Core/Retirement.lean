/-
What a close removes (`crates/tasty-core/src/command/retirement.rs`,
`close_facts`) and what a replacement does
(`crates/tasty-core/src/replacement.rs`, `simulate`).

Both are read by `evolve` when it checks a retirement plan and by the
commands that write one, so they stand below both. Rust collects the
removed owners into two growing vectors; here each collector returns
its share and the caller concatenates.
-/
import Tasty.Core.Model

namespace Tasty.Core

/-- A domain rejection: no event is made. -/
structure Rejection where
  message : String
  deriving DecidableEq

-- ==== closing

/-- The first pane, in id order, whose tab list holds the tab. -/
def tabParent (m : JournalModel) (id : UInt32) :
    Option (UInt32 × Pane) :=
  BTreeMap.findEntry m.panes fun pane => pane.tabs.contains id

/-- The first workspace, in id order, whose layout holds the pane. -/
def paneParent (m : JournalModel) (id : UInt32) :
    Option (UInt32 × Workspace) :=
  BTreeMap.findEntry m.workspaces fun w => w.layout.leaves.contains id

/-- The owners of one tab and its surfaces. -/
def collectTab (m : JournalModel) (id : UInt32) :
    Option (List EntityId × List UInt32) := do
  let tab ← m.tabs[id]?
  some (⟨.tab, id⟩ :: tab.layout.leaves.map (⟨.surface, ·⟩),
    tab.layout.leaves)

/-- The owners of one pane, its tabs and their surfaces. -/
def collectPane (m : JournalModel) (id : UInt32) :
    Option (List EntityId × List UInt32) := do
  let pane ← m.panes[id]?
  let parts ← pane.tabs.mapM (collectTab m)
  some (⟨.pane, id⟩ :: parts.flatMap Prod.fst, parts.flatMap Prod.snd)

/-- The target a close really has: the last surface of a tab closes
the tab, the last tab of a pane the pane, the last pane of a workspace
the workspace. -/
def closeActual (m : JournalModel) : CloseTarget → Option CloseTarget
  | .tab id => do
      let (_, pane) ← tabParent m id
      if pane.tabs.length ≤ 1 then none else some (.tab id)
  | .pane id => do
      let (_, workspace) ← paneParent m id
      if workspace.layout.leaves.length ≤ 1 then none else some (.pane id)
  | .workspace id => do
      let _ ← m.workspaces[id]?
      some (.workspace id)
  | .surface id => do
      let (tabId, tab) ←
        BTreeMap.findEntry m.tabs fun tab => tab.layout.leaves.contains id
      if tab.layout.leaves.length > 1 then some (.surface id)
      else
        let (paneId, pane) ← tabParent m tabId
        if pane.tabs.length > 1 then some (.tab tabId)
        else
          let (workspaceId, workspace) ← paneParent m paneId
          if workspace.layout.leaves.length > 1 then some (.pane paneId)
          else some (.workspace workspaceId)

/-- The closing event, the owners it removes and their surfaces. -/
def closeFacts (m : JournalModel) (target : CloseTarget) :
    Option (DomainEvent × List EntityId × List UInt32) := do
  let actual ← closeActual m target
  match actual with
  | .surface id => some (.surfaceClosed id, [⟨.surface, id⟩], [id])
  | .tab id =>
    let (removed, surfaces) ← collectTab m id
    some (.tabClosed id, removed, surfaces)
  | .pane id =>
    let (removed, surfaces) ← collectPane m id
    some (.paneClosed id, removed, surfaces)
  | .workspace id =>
    let workspace ← m.workspaces[id]?
    let parts ← workspace.layout.leaves.mapM (collectPane m)
    some (.workspaceClosed id,
      ⟨.workspace, id⟩ :: parts.flatMap Prod.fst,
      parts.flatMap Prod.snd)

-- ==== replacement

namespace Replacement

/-- Take a pane out of its workspace; a workspace losing its last pane
goes. -/
def detachPane (m : JournalModel) (id workspaceId : UInt32) :
    Except Rejection JournalModel :=
  match m.workspaces[workspaceId]? with
  | none => .error ⟨"source workspace missing"⟩
  | some workspace =>
    match workspace.layout.removeLeaf id with
    | .removed layout =>
      .ok { m with
        workspaces :=
          m.workspaces.insert workspaceId { workspace with layout } }
    | .lastLeaf =>
      .ok { m with
        workspaces := m.workspaces.erase workspaceId
        workspaceOrder := m.workspaceOrder.filter (· ≠ workspaceId) }
    | .notFound => .error ⟨"source pane slot missing"⟩

/-- Take a tab out of its pane; a pane losing its last tab goes. -/
def detachTab (m : JournalModel) (id paneId : UInt32) :
    Except Rejection JournalModel :=
  match m.panes[paneId]? with
  | none => .error ⟨"source pane missing"⟩
  | some pane =>
    let tabs := pane.tabs.filter (· ≠ id)
    let m := { m with panes := m.panes.insert paneId { pane with tabs } }
    if tabs.isEmpty then do
      let m ← detachPane m paneId pane.workspace
      .ok { m with panes := m.panes.erase paneId }
    else .ok m

/-- Take a surface out of its tab; a tab losing its last surface
goes. -/
def detachSurface (m : JournalModel) (id : UInt32) :
    Except Rejection JournalModel :=
  match m.surfaces[id]? with
  | none => .error ⟨"source surface missing"⟩
  | some surface =>
    match m.tabs[surface.tab]? with
    | none => .error ⟨"source tab missing"⟩
    | some tab =>
      match tab.layout.removeLeaf id with
      | .removed layout =>
        .ok { m with
          tabs := m.tabs.insert surface.tab { tab with layout } }
      | .lastLeaf => do
          let m ← detachTab m surface.tab tab.pane
          .ok { m with tabs := m.tabs.erase surface.tab }
      | .notFound => .error ⟨"source leaf missing"⟩

/-- The ids of `before` that `after` no longer holds. -/
def lost {V : Type} (kind : IdKind) (before after : BTreeMap UInt32 V) :
    List EntityId :=
  (before.keys.filter fun id => !after.contains id).map (⟨kind, ·⟩)

/-- Every owner of `m` that `next` no longer holds, by kind. -/
def removedOwners (m next : JournalModel) : List EntityId :=
  lost .workspace m.workspaces next.workspaces
    ++ lost .pane m.panes next.panes
    ++ lost .tab m.tabs next.tabs
    ++ lost .surface m.surfaces next.surfaces

/-- Drop each listed surface. -/
def dropSurfaces (m : JournalModel) (ids : List UInt32) : JournalModel :=
  { m with surfaces := ids.foldl (fun s id => s.erase id) m.surfaces }

/-- Drop each listed tab that exists, with its surfaces. -/
def dropTabs (m : JournalModel) (ids : List UInt32) : JournalModel :=
  ids.foldl (fun m id =>
    match m.tabs[id]? with
    | none => m
    | some tab =>
      dropSurfaces { m with tabs := m.tabs.erase id }
        tab.layout.leaves) m

/-- The `IdKind::Surface` arm of `simulate`. -/
def simulateSurface (source target : UInt32) (m : JournalModel) :
    Except Rejection JournalModel :=
  match m.surfaces[source]?, m.surfaces[target]? with
  | none, _ => .error ⟨"source surface missing"⟩
  | some _, none => .error ⟨"target surface missing"⟩
  | some _, some old => do
      let next ← detachSurface m source
      match next.tabs[old.tab]? with
      | none => .error ⟨"target tab disappeared"⟩
      | some tab =>
        match tab.layout.replaceLeaf target source with
        | none => .error ⟨"target surface slot missing"⟩
        | some layout =>
          let surfaces := next.surfaces.erase target
          match surfaces[source]? with
          | none => .error ⟨"moved source disappeared"⟩
          | some moved =>
            .ok { next with
              tabs := next.tabs.insert old.tab { tab with layout }
              surfaces :=
                surfaces.insert source { moved with tab := old.tab } }

/-- The `IdKind::Tab` arm of `simulate`. -/
def simulateTab (source target : UInt32) (m : JournalModel) :
    Except Rejection JournalModel :=
  match m.tabs[source]?, m.tabs[target]? with
  | none, _ => .error ⟨"source tab missing"⟩
  | some _, none => .error ⟨"target tab missing"⟩
  | some from_, some old => do
      let next ← detachTab m source from_.pane
      match next.panes[old.pane]? with
      | none => .error ⟨"target pane disappeared"⟩
      | some pane =>
        if pane.tabs.contains target then
          let tabs := pane.tabs.set (pane.tabs.idxOf target) source
          let next := { next with
            panes := next.panes.insert old.pane { pane with tabs } }
          let next := dropSurfaces next old.layout.leaves
          let kept := next.tabs.erase target
          match kept[source]? with
          | none => .error ⟨"moved tab disappeared"⟩
          | some moved =>
            .ok { next with
              tabs := kept.insert source { moved with pane := old.pane } }
        else .error ⟨"target tab slot missing"⟩

/-- The `IdKind::Pane` arm of `simulate`. -/
def simulatePane (source target : UInt32) (m : JournalModel) :
    Except Rejection JournalModel :=
  match m.panes[source]?, m.panes[target]? with
  | none, _ => .error ⟨"source pane missing"⟩
  | some _, none => .error ⟨"target pane missing"⟩
  | some from_, some old => do
      let next ← detachPane m source from_.workspace
      match next.workspaces[old.workspace]? with
      | none => .error ⟨"target workspace disappeared"⟩
      | some workspace =>
        match workspace.layout.replaceLeaf target source with
        | none => .error ⟨"target pane slot missing"⟩
        | some layout =>
          let next := { next with
            workspaces :=
              next.workspaces.insert old.workspace
                { workspace with layout } }
          let next := dropTabs next old.tabs
          let kept := next.panes.erase target
          match kept[source]? with
          | none => .error ⟨"moved pane disappeared"⟩
          | some moved =>
            .ok { next with
              panes :=
                kept.insert source
                  { moved with workspace := old.workspace } }

/-- The model after the replacement and the owners it removed. -/
def simulate (r : Replacement) (m : JournalModel) :
    Except Rejection (JournalModel × List EntityId) :=
  if r.source = r.target ∨ r.source.kind ≠ r.target.kind then
    .error ⟨"replacement requires different targets of the same kind"⟩
  else do
    let next ← (match r.source.kind with
      | .surface => simulateSurface r.source.id r.target.id m
      | .tab => simulateTab r.source.id r.target.id m
      | .pane => simulatePane r.source.id r.target.id m
      | _ => .error ⟨"unsupported replacement kind"⟩)
    .ok (next, removedOwners m next)

/-- The surfaces below an entity; `none` when it does not exist. -/
def surfaces (m : JournalModel) (e : EntityId) : Option (List UInt32) :=
  match e.kind with
  | .surface => if m.surfaces.contains e.id then some [e.id] else none
  | .tab => (m.tabs[e.id]?).map (·.layout.leaves)
  | .pane => do
      let pane ← m.panes[e.id]?
      let tabs ← pane.tabs.mapM fun tab =>
        (m.tabs[tab]?).map (·.layout.leaves)
      some tabs.flatten
  | _ => none

end Replacement

end Tasty.Core
