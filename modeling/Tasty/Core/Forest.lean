/-
The ownership forest of a journal model, and the edits that keep it.

A `JournalModel` writes every containment twice: an owner lists what it
holds, and what it holds names its owner. `Forest m P T S` says that the
two records agree at all five levels, except for the panes `P`, tabs `T`
and surfaces `S`, which are out of every list for the moment. Evolve's
helpers pass through such states: dropping a pane orphans its tabs,
dropping a tab its surfaces. An event starts and ends with no orphans,
and that is `WellFormed`.

Each level is one `Linked` of the library, seen through a view of the
maps, so an event's proof names the library edits it is made of.
-/
import Tasty.Core.Evolve
import Tasty.Lib.Linked
import Tasty.Lib.Except

namespace Tasty.Core

open BTreeMap (view view_insert view_erase view_insert_same view_of_get
  view_eq_none view_eq_some view_empty)

-- ==== the invariant

/-- An order list names each key of its map, once. -/
def Ordered {V : Type} (order : List UInt32) (map : BTreeMap UInt32 V) :
    Prop :=
  Linked (fun _ : Unit => some order) (view (fun _ => ()) map) []

/-- Owners and owned agree, except for the orphans. -/
structure Forest (m : JournalModel) (orphanPanes orphanTabs
    orphanSurfaces : List UInt32) : Prop where
  categories : Ordered m.categoryOrder m.categories
  workspaces : Ordered m.workspaceOrder m.workspaces
  panes : Linked (view (fun w => w.layout.leaves) m.workspaces)
    (view (fun p => p.workspace) m.panes) orphanPanes
  tabs : Linked (view (fun p => p.tabs) m.panes)
    (view (fun t => t.pane) m.tabs) orphanTabs
  surfaces : Linked (view (fun t => t.layout.leaves) m.tabs)
    (view (fun s => s.tab) m.surfaces) orphanSurfaces
  category : ∀ {id : UInt32} {w : Workspace},
    m.workspaces[id]? = some w → w.category ∈ m.categories

/-- No owner and no owned entity is out of step. -/
def WellFormed (m : JournalModel) : Prop := Forest m [] [] []

theorem Forest.withApplied {m : JournalModel} {P T S : List UInt32}
    (h : Forest m P T S) (a : Applied) : Forest { m with applied := a } P T S :=
  { h with }

-- ==== order lists

variable {list : List UInt32} {item : UInt32}

theorem perm_cons_filter (hnd : list.Nodup) (hmem : item ∈ list) :
    list.Perm (item :: list.filter (· ≠ item)) := by
  have herase : list.erase item = list.filter (· ≠ item) := by
    rw [hnd.erase_eq_filter]
    exact List.filter_congr fun x _ => by simp [bne, beq_eq_decide]
  rw [← herase]
  exact List.perm_cons_erase hmem

namespace Ordered

variable {V : Type} {order order' : List UInt32}
  {map : BTreeMap UInt32 V} {id : UInt32}

private theorem const_update (l l' : List UInt32) :
    Function.update (fun _ : Unit => some l) () (some l')
      = fun _ => some l' := by
  funext u
  exact Function.update_self ..

theorem empty : Ordered [] (∅ : BTreeMap UInt32 V) where
  nodup h := by
    cases h
    exact List.nodup_nil
  down h hb := by
    cases h
    cases hb
  free h hb := by
    cases h
    cases hb
  listed h := by
    rw [view_empty] at h
    cases h

variable (h : Ordered order map)

include h

theorem nodup : order.Nodup :=
  Linked.nodup h (a := ()) rfl

/-- The list and the key set are the same. -/
theorem mem_iff : id ∈ order ↔ id ∈ map := by
  rw [BTreeMap.mem_iff_get]
  constructor
  · intro hid
    obtain ⟨v, hv, -⟩ := view_eq_some.1 (Linked.down h (a := ()) rfl hid)
    exact ⟨v, hv⟩
  · intro hv
    obtain ⟨v, hv⟩ := hv
    obtain ⟨l, hl, hid⟩ :=
      Linked.listed h (view_of_get hv fun _ => ()) (by simp)
    cases hl
    exact hid

/-- A new key enters the list. -/
theorem insert (hnew : map[id]? = none)
    (v : V) (hp : order'.Perm (id :: order)) :
    Ordered order' (map.insert id v) := by
  have hins := Linked.insert h (view_eq_none.2 hnew) (by simp)
    (a := ()) rfl hp
  rw [const_update] at hins
  rwa [Ordered, view_insert]

/-- A key leaves the list. -/
theorem erase {v : V} (hv : map[id]? = some v) :
    Ordered (order.filter (· ≠ id)) (map.erase id) := by
  have hmem : id ∈ order := h.mem_iff.2 ((BTreeMap.mem_iff_get ..).2 ⟨v, hv⟩)
  have hp := perm_cons_filter h.nodup hmem
  have hrem := Linked.remove h (a := ()) rfl hp
  rw [const_update] at hrem
  rwa [Ordered, view_erase]

/-- The list is rearranged. -/
theorem perm (hp : order'.Perm order) : Ordered order' map := by
  have hre := Linked.reorder h (a := ()) rfl hp
  rwa [const_update] at hre

theorem replace {v : V} (hv : map[id]? = some v) (w : V) :
    Ordered order (map.insert id w) := by
  rwa [Ordered, view_insert_same (f := fun _ => ()) hv rfl]

omit h

end Ordered

theorem wellFormed_default : WellFormed JournalModel.default where
  categories := Ordered.empty
  workspaces := Ordered.empty
  panes := by
    simpa [JournalModel.default] using Linked.empty
  tabs := by
    simpa [JournalModel.default] using Linked.empty
  surfaces := by
    simpa [JournalModel.default] using Linked.empty
  category h := by
    simp [JournalModel.default] at h

-- ==== small helpers

variable {kind : IdKind}

variable {id : UInt32}

/-- What a successful lookup says. -/
theorem get_eq_ok {V : Type} {map : BTreeMap UInt32 V} {v : V} :
    get map kind id = .ok v ↔ map[id]? = some v := by
  unfold get
  cases map[id]? <;> simp

/-- What a successful edit of one entry says. -/
theorem modify_eq_ok {V : Type} {map map' : BTreeMap UInt32 V} {f : V → V} :
    modify map kind id f = .ok map' ↔
      ∃ v, map[id]? = some v ∧ map' = map.insert id (f v) := by
  unfold modify
  rw [bind_eq_ok]
  simp only [get_eq_ok, Except.ok.injEq, eq_comm (b := map')]

theorem ensureAbsent_eq_ok {V : Type} {map : BTreeMap UInt32 V} {u : Unit} :
    ensureAbsent map kind id = .ok u ↔ map[id]? = none := by
  unfold ensureAbsent
  rw [guard_eq_ok, ← BTreeMap.not_mem_iff_get]
  simp

theorem insertAt_eq_ok {list' : List UInt32} {index : Nat}
    (h : insertAt list index item = .ok list') : list'.Perm (item :: list) := by
  unfold insertAt at h
  obtain ⟨hlen, h⟩ := guard_ok h
  cases h
  exact List.perm_insertIdx _ _ (by omega)

theorem moveIn_eq_ok {list' : List UInt32} {index : Nat}
    (h : moveIn list kind item index = .ok list') : list'.Perm list := by
  unfold moveIn at h
  obtain ⟨hmem, h⟩ := guard_not_ok h
  have hp := List.perm_cons_erase (List.contains_iff_mem.1 hmem)
  exact (insertAt_eq_ok h).trans hp.symm

variable {tree : SplitTree UInt32}

theorem removedTree_eq_ok {result : RemoveLeaf UInt32} {name : String}
    : removedTree result name = .ok tree ↔ result = .removed tree := by
  cases result <;> simp [removedTree]

variable {layout : SplitTree UInt32}

theorem splitTree_eq_ok {target new : UInt32}
    {split : SplitSpec} {name : String}
    (h : splitTree layout target new split name = .ok tree) :
    tree.leaves.Perm (new :: layout.leaves) := by
  unfold splitTree at h
  cases hs : layout.splitLeaf target new split.direction split.ratio
      split.placement with
  | none =>
    rw [hs] at h
    cases h
  | some t =>
    rw [hs] at h
    cases h
    exact SplitTree.leaves_splitLeaf hs

variable {layout' : SplitTree UInt32}

theorem setRatio_leaves {value : Ratio} {path : List Bool}
    (h : setRatio value path layout = .ok layout') :
    layout'.leaves = layout.leaves := by
  induction path generalizing layout layout' with
  | nil =>
    cases layout with
    | leaf id => cases h
    | split d r s t =>
      cases h
      rfl
  | cons side path ih =>
    cases layout with
    | leaf id => cases side <;> cases h
    | split d r s t =>
      cases side with
      | false =>
        obtain ⟨s', hs, h⟩ := bind_ok h
        cases h
        rw [SplitTree.leaves_split, ih hs, SplitTree.leaves_split]
      | true =>
        obtain ⟨t', ht, h⟩ := bind_ok h
        cases h
        rw [SplitTree.leaves_split, ih ht, SplitTree.leaves_split]

theorem ratio_leaves {value : Ratio} {path : List Bool}
    (h : ratio layout path value = .ok layout') :
    layout'.leaves = layout.leaves :=
  setRatio_leaves (guard_not_ok h).2

-- ==== values of one entry

namespace Forest

variable {m : JournalModel} {P T S : List UInt32} {id : UInt32}

theorem categoryInsert (h : Forest m P T S) {w : Workspace}
    (hcat : w.category ∈ m.categories) {k : UInt32} {v : Workspace}
    (hv : (m.workspaces.insert id w)[k]? = some v) :
    v.category ∈ m.categories := by
  rw [BTreeMap.get_insert] at hv
  split at hv
  · cases hv
    exact hcat
  · exact h.category hv

theorem setWorkspace (h : Forest m P T S) {w v : Workspace}
    (hw : m.workspaces[id]? = some w)
    (hleaves : v.layout.leaves = w.layout.leaves)
    (hcat : v.category ∈ m.categories) :
    Forest { m with workspaces := m.workspaces.insert id v } P T S :=
  { h with
    workspaces := h.workspaces.replace hw v
    panes := by
      rw [view_insert_same hw hleaves]
      exact h.panes
    category := h.categoryInsert hcat }

theorem setTab (h : Forest m P T S) {t t' : Tab}
    (ht : m.tabs[id]? = some t) (hpane : t'.pane = t.pane)
    (hleaves : t'.layout.leaves = t.layout.leaves) :
    Forest { m with tabs := m.tabs.insert id t' } P T S :=
  { h with
    tabs := by
      rw [view_insert_same ht hpane]
      exact h.tabs
    surfaces := by
      rw [view_insert_same ht hleaves]
      exact h.surfaces }

theorem setSurface (h : Forest m P T S) {s v : Surface}
    (hs : m.surfaces[id]? = some s) (htab : v.tab = s.tab) :
    Forest { m with surfaces := m.surfaces.insert id v } P T S :=
  { h with
    surfaces := by
      rw [view_insert_same hs htab]
      exact h.surfaces }

end Forest

end Tasty.Core
