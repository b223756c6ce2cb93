/-
The live workspaces of an engine (`crates/tasty-core/src/workspaces.rs`,
`state.rs`): the local ones and the mirrors are in lists of their own, and
a display order joins them into one sequence that is read without a copy.

The tokens of the mirror projections are left out: no sequence reads them.
What a workspace shows is any type. `none` is a panic: an assertion, an
index out of range.
-/
import Mathlib.Data.List.Perm.Lattice

namespace Tasty.Core.Live

structure Workspace (α : Type) where
  id : UInt32
  mirror : Bool
  content : α

structure CoreState (α : Type) where
  localWorkspaces : List (Workspace α)
  mirrorWorkspaces : List (Workspace α)
  workspaceDisplayOrder : List UInt32

variable {α : Type}

def ids (ws : List (Workspace α)) : List UInt32 := ws.map Workspace.id

/-- `iter().any(|workspace| workspace.id == id)`. -/
def hasId (ws : List (Workspace α)) (id : UInt32) : Bool :=
  ws.any fun w => w.id = id

-- ==== the view

structure WorkspaceRead (α : Type) where
  locals : List (Workspace α)
  mirrors : List (Workspace α)
  order : List UInt32

structure WorkspaceIter (α : Type) where
  read : WorkspaceRead α
  ordered : Nat
  fallback : Nat
  yielded : Nat

namespace WorkspaceRead

def all (r : WorkspaceRead α) : List (Workspace α) := r.locals ++ r.mirrors

def len (r : WorkspaceRead α) : Nat := r.locals.length + r.mirrors.length

def find (r : WorkspaceRead α) (id : UInt32) : Option (Workspace α) :=
  r.all.find? fun w => w.id = id

def iter (r : WorkspaceRead α) : WorkspaceIter α := ⟨r, 0, 0, 0⟩

end WorkspaceRead

namespace WorkspaceIter

/-- The first loop of `next`, over the rest of the order. -/
def scanOrder (r : WorkspaceRead α) : List UInt32 → Nat →
    Option (Workspace α) × Nat
  | [], n => (none, n)
  | id :: rest, n =>
    match r.find id with
    | some w => (some w, n + 1)
    | none => scanOrder r rest (n + 1)

/-- The second loop of `next`, over the rest of the workspaces. -/
def scanRest (r : WorkspaceRead α) : List (Workspace α) → Nat →
    Option (Workspace α) × Nat
  | [], n => (none, n)
  | w :: rest, n =>
    if !r.order.contains w.id then (some w, n + 1)
    else scanRest r rest (n + 1)

/-- `Iterator::next`. -/
def next (it : WorkspaceIter α) : Option (Workspace α) × WorkspaceIter α :=
  match scanOrder it.read (it.read.order.drop it.ordered) it.ordered with
  | (some w, ordered) =>
    (some w, { it with ordered, yielded := it.yielded + 1 })
  | (none, ordered) =>
    match scanRest it.read (it.read.all.drop it.fallback) it.fallback with
    | (some w, fallback) =>
      (some w, { it with ordered, fallback, yielded := it.yielded + 1 })
    | (none, fallback) => (none, { it with ordered, fallback })

/-- `size_hint`: both bounds. -/
def sizeHint (it : WorkspaceIter α) : Nat × Option Nat :=
  (it.read.len - it.yielded, some (it.read.len - it.yielded))

/-- `Iterator::nth`. -/
def nth (it : WorkspaceIter α) : Nat → Option (Workspace α)
  | 0 => it.next.1
  | n + 1 =>
    match it.next with
    | (some _, it) => it.nth n
    | (none, _) => none

/-- `collect`, of at most so many. -/
def collectUpTo : Nat → WorkspaceIter α → List (Workspace α)
  | 0, _ => []
  | fuel + 1, it =>
    match it.next with
    | (some w, it) => w :: collectUpTo fuel it
    | (none, _) => []

/-- `collect`; each call of `next` that yields takes an entry of the order
or a workspace. -/
def collect (it : WorkspaceIter α) : List (Workspace α) :=
  collectUpTo (it.read.order.length + it.read.len + 1) it

end WorkspaceIter

/-- `WorkspaceRead::get`. -/
def WorkspaceRead.get (r : WorkspaceRead α) (index : Nat) :
    Option (Workspace α) :=
  r.iter.nth index

namespace CoreState

def newBase : CoreState α := ⟨[], [], []⟩

def workspaces (s : CoreState α) : WorkspaceRead α :=
  if s.mirrorWorkspaces.isEmpty then ⟨s.localWorkspaces, [], []⟩
  else ⟨s.localWorkspaces, s.mirrorWorkspaces, s.workspaceDisplayOrder⟩

def workspaceAt (s : CoreState α) (index : Nat) : Option (Workspace α) :=
  s.workspaces.get index

def hasWorkspace (s : CoreState α) (id : UInt32) : Bool :=
  hasId s.workspaces.iter.collect id

-- ==== the mutators

/-- `refresh_workspace_display_order`. -/
def refresh (s : CoreState α) : CoreState α :=
  { s with workspaceDisplayOrder := ids s.workspaces.iter.collect }

/-- The new order of `reconcile_local_display_order`: each mirror in its
place, the locals in the others, and those left over at the end. -/
def weave (mirrors : List (Workspace α)) : List UInt32 → List UInt32 →
    List UInt32
  | [], locals => locals
  | id :: order, locals =>
    if hasId mirrors id then id :: weave mirrors order locals
    else
      match locals with
      | [] => weave mirrors order []
      | l :: locals => l :: weave mirrors order locals

/-- `reconcile_local_display_order`. -/
def reconcile (s : CoreState α) : CoreState α :=
  refresh { s with
    workspaceDisplayOrder := weave s.mirrorWorkspaces
      s.workspaceDisplayOrder (ids s.localWorkspaces) }

def insertLocalWorkspace (s : CoreState α) (index : Nat)
    (w : Workspace α) : Option (CoreState α) :=
  if w.mirror then none
  else
    let s := s.refresh
    if s.workspaceDisplayOrder.length < index then none
    else
      let localIndex := ((s.workspaceDisplayOrder.take index).filter
        (hasId s.localWorkspaces)).length
      some { s with
        workspaceDisplayOrder := s.workspaceDisplayOrder.insertIdx index w.id
        localWorkspaces := s.localWorkspaces.insertIdx localIndex w }

def pushLocalWorkspace (s : CoreState α) (w : Workspace α) :
    Option (CoreState α) :=
  s.insertLocalWorkspace s.workspaces.len w

def pushMirrorWorkspace (s : CoreState α) (w : Workspace α) :
    Option (CoreState α) :=
  if !w.mirror then none
  else
    let s := s.refresh
    some { s with
      workspaceDisplayOrder := s.workspaceDisplayOrder ++ [w.id]
      mirrorWorkspaces := s.mirrorWorkspaces ++ [w] }

/-- `remove(position(|workspace| workspace.id == id))`. -/
def removeId (ws : List (Workspace α)) (id : UInt32) : List (Workspace α) :=
  ws.eraseP fun w => w.id = id

/-- The order without an id: `retain`. -/
def forget (order : List UInt32) (id : UInt32) : List UInt32 :=
  order.filter (· ≠ id)

def removeWorkspaceAt (s : CoreState α) (index : Nat) :
    Option (CoreState α) :=
  match s.workspaceAt index with
  | none => none
  | some w =>
    let s := { s with
      workspaceDisplayOrder := forget s.workspaceDisplayOrder w.id }
    if hasId s.localWorkspaces w.id then
      some { s with localWorkspaces := removeId s.localWorkspaces w.id }
    else if hasId s.mirrorWorkspaces w.id then
      some { s with mirrorWorkspaces := removeId s.mirrorWorkspaces w.id }
    else none

/-- The slot of this id is overwritten, if there is one. -/
def replaceFirst (ws : List (Workspace α)) (w : Workspace α) :
    List (Workspace α) :=
  match ws with
  | [] => []
  | v :: ws => if v.id = w.id then w :: ws else v :: replaceFirst ws w

def replaceMirrorWorkspace (s : CoreState α) (w : Workspace α) :
    Option (CoreState α) :=
  if !w.mirror then none
  else some { s with mirrorWorkspaces := replaceFirst s.mirrorWorkspaces w }

def removeMirrorWorkspace (s : CoreState α) (id : UInt32) : CoreState α :=
  if hasId s.mirrorWorkspaces id then
    { s with
      workspaceDisplayOrder := forget s.workspaceDisplayOrder id
      mirrorWorkspaces := removeId s.mirrorWorkspaces id }
  else s

/-- An entry of an order is not one that came before it. -/
def noRepeats : List UInt32 → List UInt32 → Bool
  | _, [] => true
  | before, id :: order => !before.contains id && noRepeats (before ++ [id]) order

/-- `apply_workspace_display_order`, with what it answers. -/
def applyWorkspaceDisplayOrder (s : CoreState α) (order : List UInt32) :
    CoreState α × Bool :=
  if order.length ≠ s.workspaces.len
      || !(noRepeats [] order && order.all s.hasWorkspace)
      || order.filter (hasId s.localWorkspaces) ≠ ids s.localWorkspaces then
    (s, false)
  else ({ s with workspaceDisplayOrder := order }, true)

/-- `Option<usize>` compared. -/
def positionLe : Option Nat → Option Nat → Bool
  | none, _ => true
  | some _, none => false
  | some a, some b => a ≤ b

/-- `reorder_local_workspaces`; an order that does not fit changes
nothing. -/
def reorderLocalWorkspaces (s : CoreState α) (order : List UInt32) :
    CoreState α × Bool :=
  if order.length ≠ s.localWorkspaces.length
      || !(noRepeats [] order && order.all (hasId s.localWorkspaces)) then
    (s, false)
  else
    (reconcile { s with
      localWorkspaces := s.localWorkspaces.mergeSort fun v w =>
        positionLe (order.idxOf? v.id) (order.idxOf? w.id) }, true)

def replaceLocalWorkspaces (s : CoreState α) (ws : List (Workspace α)) :
    Option (CoreState α) :=
  if ws.any Workspace.mirror then none
  else some (reconcile { s with localWorkspaces := ws })

end CoreState

end Tasty.Core.Live
