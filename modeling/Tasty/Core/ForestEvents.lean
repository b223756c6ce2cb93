/-
Every structural event keeps the forest well formed.

One lemma for each of `apply`'s handlers, in the order of `Evolve`. A
handler that removes an owner leaves the owned as orphans, and the drop
helpers bury them: their lemmas carry the orphan lists, the handlers'
lemmas start and end with none.
-/
import Tasty.Core.Forest

namespace Tasty.Core

open BTreeMap (view view_insert view_erase view_insert_same view_of_get
  view_eq_none view_eq_some)

namespace Forest

variable {m m' : JournalModel} {P T S : List UInt32} {id : UInt32}

-- ==== dropping whole subtrees

variable {ids : List UInt32}

theorem dropSurfaces {surfaces : BTreeMap UInt32 Surface}
    (h : Forest m P T (ids ++ S))
    (hok : dropSurfaces m.surfaces ids = .ok surfaces) :
    Forest { m with surfaces } P T S := by
  induction ids generalizing m with
  | nil =>
    cases hok
    exact h
  | cons id ids ih =>
    have hok := then_ok hok
    refine ih (m := { m with surfaces := m.surfaces.erase id }) ?_ hok
    exact { h with
      surfaces := by
        rw [view_erase]
        exact h.surfaces.bury }

theorem dropTab (h : Forest m P (id :: T) S)
    (hok : dropTab m id = .ok m') : Forest m' P T S := by
  obtain ⟨tab, htab, hok⟩ := bind_ok hok
  obtain ⟨surfaces, hdrop, hok⟩ := bind_ok hok
  cases hok
  rw [get_eq_ok] at htab
  have hforest : Forest { m with tabs := m.tabs.erase id } P T
      (tab.layout.leaves ++ S) :=
    { h with
      tabs := by
        rw [view_erase]
        exact h.tabs.bury
      surfaces := by
        rw [view_erase]
        exact h.surfaces.dropParent (view_of_get htab _) }
  exact hforest.dropSurfaces hdrop

theorem dropTabs (h : Forest m P (ids ++ T) S)
    (hok : dropTabs m ids = .ok m') : Forest m' P T S := by
  induction ids generalizing m with
  | nil =>
    cases hok
    exact h
  | cons id ids ih =>
    obtain ⟨m₁, htab, hok⟩ := bind_ok hok
    exact ih (h.dropTab htab) hok

theorem dropPane (h : Forest m (id :: P) T S)
    (hok : dropPane m id = .ok m') : Forest m' P T S := by
  obtain ⟨pane, hpane, hok⟩ := bind_ok hok
  rw [get_eq_ok] at hpane
  have hforest : Forest { m with panes := m.panes.erase id } P
      (pane.tabs ++ T) S :=
    { h with
      panes := by
        rw [view_erase]
        exact h.panes.bury
      tabs := by
        rw [view_erase]
        exact h.tabs.dropParent (view_of_get hpane _) }
  exact hforest.dropTabs hok

theorem dropPanes (h : Forest m (ids ++ P) T S)
    (hok : dropPanes m ids = .ok m') : Forest m' P T S := by
  induction ids generalizing m with
  | nil =>
    cases hok
    exact h
  | cons id ids ih =>
    obtain ⟨m₁, hpane, hok⟩ := bind_ok hok
    exact ih (h.dropPane hpane) hok

-- ==== categories

variable {name : String} {index : Nat}

theorem createCategory (h : Forest m P T S)
    (hok : createCategory m id name index = .ok m') : Forest m' P T S := by
  obtain ⟨_, habsent, hok⟩ := bind_ok hok
  obtain ⟨order, horder, hok⟩ := bind_ok hok
  cases hok
  exact { h with
    categories := h.categories.insert (ensureAbsent_eq_ok.1 habsent) _
      (insertAt_eq_ok horder)
    category := by
      intro k w hw
      have hmem := h.category hw
      show w.category ∈ m.categories.insert id { name }
      simp [hmem] }

/-- A category goes only when no workspace is in it. -/
theorem closeCategory (h : Forest m P T S)
    (hok : closeCategory m id = .ok m') : Forest m' P T S := by
  obtain ⟨c, hc, hok⟩ := bind_ok hok
  obtain ⟨hempty, hok⟩ := guard_ok hok
  cases hok
  exact { h with
    categories := h.categories.erase (get_eq_ok.1 hc)
    category := by
      intro k w hw
      have hne : w.category ≠ id := by
        intro heq
        exact hempty ((BTreeMap.anyValue_iff ..).2 ⟨k, w, hw, by simp [heq]⟩)
      have hmem := h.category hw
      show w.category ∈ m.categories.erase id
      simp [hmem, hne.symm] }

theorem renameCategory {categories : BTreeMap UInt32 Category}
    (h : Forest m P T S)
    (hok : modify m.categories .category id (fun c => { c with name })
      = .ok categories) : Forest { m with categories } P T S := by
  obtain ⟨c, hc, rfl⟩ := modify_eq_ok.1 hok
  exact { h with
    categories := h.categories.replace hc _
    category := by
      intro k w hw
      have hmem := h.category hw
      show w.category ∈ m.categories.insert id _
      simp [hmem] }

-- ==== workspaces

variable {pane : UInt32}

theorem createWorkspace {category : UInt32} (h : Forest m [] T S)
    (hok : createWorkspace m id name category index pane = .ok m') :
    Forest m' [] T S := by
  obtain ⟨_, hnew, hok⟩ := bind_ok hok
  obtain ⟨_, hpane, hok⟩ := bind_ok hok
  obtain ⟨c, hc, hok⟩ := bind_ok hok
  obtain ⟨order, horder, hok⟩ := bind_ok hok
  cases hok
  rw [ensureAbsent_eq_ok] at hnew hpane
  rw [get_eq_ok] at hc
  exact { h with
    workspaces := h.workspaces.insert hnew _ (insertAt_eq_ok horder)
    panes := by
      rw [view_insert, view_insert]
      exact h.panes.addFamily (view_eq_none.2 hnew)
        (view_eq_none.2 hpane) (by simp)
    tabs := by
      rw [view_insert]
      exact h.tabs.addParent (view_eq_none.2 hpane)
    category := h.categoryInsert ((BTreeMap.mem_iff_get ..).2 ⟨c, hc⟩) }

/-- A workspace changes in place, its leaves and category kept. -/
theorem editWorkspace {f : Workspace → Workspace} (h : Forest m P T S)
    (hleaves : ∀ w, (f w).layout = w.layout)
    (hcat : ∀ w, (f w).category = w.category)
    (hok : editWorkspace m id f = .ok m') : Forest m' P T S := by
  obtain ⟨ws, hws, hok⟩ := bind_ok hok
  obtain ⟨w, hw, rfl⟩ := modify_eq_ok.1 hws
  cases hok
  refine h.setWorkspace hw (by rw [hleaves]) ?_
  rw [hcat]
  exact h.category hw

theorem moveWorkspace {category : UInt32} (h : Forest m P T S)
    (hok : moveWorkspace m id category index = .ok m') : Forest m' P T S := by
  obtain ⟨c, hc, hok⟩ := bind_ok hok
  obtain ⟨ws, hws, hok⟩ := bind_ok hok
  obtain ⟨order, horder, hok⟩ := bind_ok hok
  obtain ⟨w, hw, rfl⟩ := modify_eq_ok.1 hws
  cases hok
  have hcat : category ∈ m.categories :=
    (BTreeMap.mem_iff_get ..).2 ⟨c, get_eq_ok.1 hc⟩
  have hset := h.setWorkspace (v := { w with category }) hw rfl hcat
  exact { hset with
    workspaces := hset.workspaces.perm (moveIn_eq_ok horder) }

theorem closeWorkspace (h : Forest m P T S)
    (hok : closeWorkspace m id = .ok m') : Forest m' P T S := by
  obtain ⟨w, hw, hok⟩ := bind_ok hok
  rw [get_eq_ok] at hw
  have hforest : Forest { m with
      workspaces := m.workspaces.erase id
      workspaceOrder := m.workspaceOrder.filter (· ≠ id) }
      (w.layout.leaves ++ P) T S :=
    { h with
      workspaces := h.workspaces.erase hw
      panes := by
        rw [view_erase]
        exact h.panes.dropParent (view_of_get hw _)
      category := by
        intro k v hv
        simp only [BTreeMap.get_erase] at hv
        split at hv
        · cases hv
        · exact h.category hv }
  exact hforest.dropPanes hok

-- ==== panes

variable {workspace target : UInt32} {split : SplitSpec}

theorem attachPane_eq_ok
    (hok : attachPane m workspace target pane split = .ok m') :
    ∃ w layout, m.workspaces[workspace]? = some w
      ∧ layout.leaves.Perm (pane :: w.layout.leaves)
      ∧ m' = { m with
          workspaces := m.workspaces.insert workspace
            { w with layout } } := by
  obtain ⟨w, hw, hok⟩ := bind_ok hok
  obtain ⟨layout, hlayout, hok⟩ := bind_ok hok
  cases hok
  exact ⟨w, layout, get_eq_ok.1 hw, splitTree_eq_ok hlayout, rfl⟩

/-- A pane taken out of its layout is an orphan. -/
theorem detachPane (h : Forest m P T S)
    (hok : detachPane m workspace id = .ok m') : Forest m' (id :: P) T S := by
  obtain ⟨w, hw, hok⟩ := bind_ok hok
  obtain ⟨layout, hlayout, hok⟩ := bind_ok hok
  cases hok
  rw [get_eq_ok] at hw
  have hperm := SplitTree.leaves_removeLeaf (removedTree_eq_ok.1 hlayout)
  have hcat := h.category hw
  exact { h with
    workspaces := h.workspaces.replace hw _
    panes := by
      rw [view_insert]
      exact h.panes.detach (view_of_get hw _) hperm
    category := h.categoryInsert (w := { w with layout }) hcat }

/-- An orphan pane joins a layout and names its workspace. -/
theorem attachPane {pane : Pane} (h : Forest m (id :: P) T S) (hid : id ∉ P)
    (htabs : Linked (view (fun p => p.tabs) (m.panes.insert id pane))
      (view (fun t => t.pane) m.tabs) T)
    (hworkspace : pane.workspace = workspace)
    (hok : Core.attachPane m workspace target id split = .ok m') :
    Forest { m' with panes := m'.panes.insert id pane } P T S := by
  obtain ⟨w, layout, hw, hperm, rfl⟩ := attachPane_eq_ok hok
  have hcat := h.category hw
  exact { h with
    workspaces := h.workspaces.replace hw _
    panes := by
      rw [view_insert, view_insert, hworkspace]
      exact h.panes.adopt hid (view_of_get hw _) hperm
    tabs := htabs
    category := h.categoryInsert (w := { w with layout }) hcat }

variable (h : Forest m P T S)

include h

theorem splitPane (hnew : pane ∉ P)
    (hok : splitPane m target pane split = .ok m') : Forest m' P T S := by
  obtain ⟨_, habsent, hok⟩ := bind_ok hok
  obtain ⟨beside, _, hok⟩ := bind_ok hok
  obtain ⟨m₁, hattach, hok⟩ := bind_ok hok
  cases hok
  rw [ensureAbsent_eq_ok] at habsent
  have hmint : Forest m (pane :: P) T S :=
    { h with panes := h.panes.mint (view_eq_none.2 habsent) }
  refine hmint.attachPane hnew ?_ rfl hattach
  rw [view_insert]
  exact h.tabs.addParent (view_eq_none.2 habsent)

theorem movePane (hid : id ∉ P)
    (hok : movePane m id target split = .ok m') : Forest m' P T S := by
  obtain ⟨_, hok⟩ := guard_ok hok
  obtain ⟨source, _, hok⟩ := bind_ok hok
  obtain ⟨dest, _, hok⟩ := bind_ok hok
  obtain ⟨m₁, hdetach, hok⟩ := bind_ok hok
  obtain ⟨m₂, hattach, hok⟩ := bind_ok hok
  obtain ⟨panes, hpanes, hok⟩ := bind_ok hok
  cases hok
  obtain ⟨p, hp, rfl⟩ := modify_eq_ok.1 hpanes
  have hforest := h.detachPane hdetach
  have hkept : m₂.panes = m₁.panes := by
    obtain ⟨_, _, _, _, hm₂⟩ := attachPane_eq_ok hattach
    rw [hm₂]
  rw [hkept] at hp
  refine hforest.attachPane hid ?_ rfl hattach
  rw [view_insert_same hp]
  · exact hforest.tabs
  · rfl

theorem closePane (hok : closePane m id = .ok m') : Forest m' P T S := by
  obtain ⟨pane, _, hok⟩ := bind_ok hok
  obtain ⟨m₁, hdetach, hok⟩ := bind_ok hok
  exact (h.detachPane hdetach).dropPane hok

-- ==== tabs

theorem createTab {surface : SurfaceSpec}
    (hid : id ∉ T) (hsurface : surface.id ∉ S)
    (hok : createTab m id pane index name surface = .ok m') :
    Forest m' P T S := by
  obtain ⟨_, htab, hok⟩ := bind_ok hok
  obtain ⟨_, hsurf, hok⟩ := bind_ok hok
  obtain ⟨p, hp, hok⟩ := bind_ok hok
  obtain ⟨tabs, htabs, hok⟩ := bind_ok hok
  cases hok
  rw [ensureAbsent_eq_ok] at htab hsurf
  rw [get_eq_ok] at hp
  exact { h with
    panes := by
      rw [view_insert_same hp]
      · exact h.panes
      · rfl
    tabs := by
      rw [view_insert, view_insert]
      exact h.tabs.insert (view_eq_none.2 htab) hid (view_of_get hp _)
        (insertAt_eq_ok htabs)
    surfaces := by
      rw [view_insert, view_insert]
      exact h.surfaces.addFamily (view_eq_none.2 htab)
        (view_eq_none.2 hsurf) hsurface }

theorem detachTab {tab : Tab}
    {panes : BTreeMap UInt32 Pane} (htab : m.tabs[id]? = some tab)
    (hid : id ∉ T) (hok : modify m.panes .pane tab.pane
      (fun p => { p with tabs := p.tabs.filter (· ≠ id) })
      = .ok panes) : Forest { m with panes } P (id :: T) S := by
  obtain ⟨p, hp, rfl⟩ := modify_eq_ok.1 hok
  have hlist : view (fun p => p.tabs) m.panes tab.pane = some p.tabs :=
    view_of_get hp _
  obtain ⟨l, hl, hmem⟩ := h.tabs.listed (view_of_get htab _) hid
  rw [hlist] at hl
  cases hl
  exact { h with
    panes := by
      rw [view_insert_same hp]
      · exact h.panes
      · rfl
    tabs := by
      rw [view_insert]
      exact h.tabs.detach hlist
        (perm_cons_filter (h.tabs.nodup hlist) hmem) }

theorem moveTab (hid : id ∉ T)
    (hok : moveTab m id pane index = .ok m') : Forest m' P T S := by
  obtain ⟨tab, htab, hok⟩ := bind_ok hok
  have hok := then_ok hok
  obtain ⟨panes, hpanes, hok⟩ := bind_ok hok
  obtain ⟨dest, hdest, hok⟩ := bind_ok hok
  obtain ⟨tabs, htabs, hok⟩ := bind_ok hok
  cases hok
  rw [get_eq_ok] at htab hdest
  have hforest := h.detachTab htab hid hpanes
  exact { hforest with
    panes := by
      rw [view_insert_same hdest]
      · exact hforest.panes
      · rfl
    tabs := by
      rw [view_insert, view_insert]
      exact hforest.tabs.adopt hid (view_of_get hdest _)
        (insertAt_eq_ok htabs)
    surfaces := by
      rw [view_insert_same htab]
      · exact h.surfaces
      · rfl }

theorem closeTab (hid : id ∉ T)
    (hok : closeTab m id = .ok m') : Forest m' P T S := by
  obtain ⟨tab, htab, hok⟩ := bind_ok hok
  obtain ⟨panes, hpanes, hok⟩ := bind_ok hok
  exact (h.detachTab (get_eq_ok.1 htab) hid hpanes).dropTab hok

/-- A tab changes in place, its pane and leaves kept. -/
theorem editTab {f : Tab → Tab} (hpane : ∀ t, (f t).pane = t.pane)
    (hleaves : ∀ t, (f t).layout = t.layout)
    (hok : editTab m id f = .ok m') : Forest m' P T S := by
  obtain ⟨tabs, htabs, hok⟩ := bind_ok hok
  obtain ⟨t, ht, rfl⟩ := modify_eq_ok.1 htabs
  cases hok
  exact h.setTab ht (hpane t) (by rw [hleaves])

omit h

-- ==== surfaces

variable {tab : UInt32}

theorem attachSurface_eq_ok {surface : UInt32}
    (hok : attachSurface m tab target surface split = .ok m') :
    ∃ t layout, m.tabs[tab]? = some t
      ∧ layout.leaves.Perm (surface :: t.layout.leaves)
      ∧ m' = { m with tabs := m.tabs.insert tab { t with layout } } := by
  obtain ⟨t, ht, hok⟩ := bind_ok hok
  obtain ⟨layout, hlayout, hok⟩ := bind_ok hok
  cases hok
  exact ⟨t, layout, get_eq_ok.1 ht, splitTree_eq_ok hlayout, rfl⟩

/-- A surface taken out of its layout is an orphan. -/
theorem detachSurface (h : Forest m P T S)
    (hok : detachSurface m tab id = .ok m') : Forest m' P T (id :: S) := by
  obtain ⟨t, ht, hok⟩ := bind_ok hok
  obtain ⟨layout, hlayout, hok⟩ := bind_ok hok
  cases hok
  rw [get_eq_ok] at ht
  have hperm := SplitTree.leaves_removeLeaf (removedTree_eq_ok.1 hlayout)
  exact { h with
    tabs := by
      rw [view_insert_same ht]
      · exact h.tabs
      · rfl
    surfaces := by
      rw [view_insert]
      exact h.surfaces.detach (view_of_get ht _) hperm }

/-- An orphan surface joins a layout and names its tab. -/
theorem attachSurface {surface : Surface} (h : Forest m P T (id :: S))
    (hid : id ∉ S) (htab : surface.tab = tab)
    (hok : Core.attachSurface m tab target id split = .ok m') :
    Forest { m' with surfaces := m'.surfaces.insert id surface } P T S := by
  obtain ⟨t, layout, ht, hperm, rfl⟩ := attachSurface_eq_ok hok
  exact { h with
    tabs := by
      rw [view_insert_same ht]
      · exact h.tabs
      · rfl
    surfaces := by
      rw [view_insert, view_insert, htab]
      exact h.surfaces.adopt hid (view_of_get ht _) hperm }

variable (h : Forest m P T S)

include h

theorem splitSurface {surface : SurfaceSpec} (hnew : surface.id ∉ S)
    (hok : splitSurface m target surface split = .ok m') : Forest m' P T S := by
  obtain ⟨_, habsent, hok⟩ := bind_ok hok
  obtain ⟨beside, _, hok⟩ := bind_ok hok
  obtain ⟨m₁, hattach, hok⟩ := bind_ok hok
  cases hok
  rw [ensureAbsent_eq_ok] at habsent
  have hmint : Forest m P T (surface.id :: S) :=
    { h with surfaces := h.surfaces.mint (view_eq_none.2 habsent) }
  exact hmint.attachSurface hnew rfl hattach

theorem moveSurface (hid : id ∉ S)
    (hok : moveSurface m id target split = .ok m') : Forest m' P T S := by
  obtain ⟨_, hok⟩ := guard_ok hok
  obtain ⟨source, _, hok⟩ := bind_ok hok
  obtain ⟨dest, _, hok⟩ := bind_ok hok
  obtain ⟨m₁, hdetach, hok⟩ := bind_ok hok
  obtain ⟨m₂, hattach, hok⟩ := bind_ok hok
  obtain ⟨surfaces, hsurfaces, hok⟩ := bind_ok hok
  cases hok
  obtain ⟨s, _, rfl⟩ := modify_eq_ok.1 hsurfaces
  exact (h.detachSurface hdetach).attachSurface hid rfl hattach

theorem closeSurface (hok : closeSurface m id = .ok m') : Forest m' P T S := by
  obtain ⟨surface, _, hok⟩ := bind_ok hok
  obtain ⟨m₁, hdetach, hok⟩ := bind_ok hok
  cases hok
  have hforest := h.detachSurface hdetach
  exact { hforest with
    surfaces := by
      rw [view_erase]
      exact hforest.surfaces.bury }

-- ==== surface contents

/-- Edits of a surface's contents keep its tab. -/
theorem convertSurface {kind : String} {data : Option DataRef}
    (hok : convertSurface m id kind data = .ok m') : Forest m' P T S := by
  obtain ⟨surfaces, hsurfaces, hok⟩ := bind_ok hok
  obtain ⟨s, hs, rfl⟩ := modify_eq_ok.1 hsurfaces
  cases hok
  exact h.setSurface hs rfl

theorem seedSurface {generation : UInt64} {input : DataRef}
    (hok : seedSurface m id generation input = .ok m') : Forest m' P T S := by
  obtain ⟨s, hs, hok⟩ := bind_ok hok
  obtain ⟨_, hok⟩ := guard_ok hok
  cases hok
  exact h.setSurface (get_eq_ok.1 hs) rfl

theorem importSeed {input : DataRef}
    (hok : importSeed m id input = .ok m') : Forest m' P T S := by
  obtain ⟨s, hs, hok⟩ := bind_ok hok
  obtain ⟨_, hok⟩ := guard_ok hok
  cases hok
  exact h.setSurface (get_eq_ok.1 hs) rfl

theorem recordData {generation : Option UInt64}
    {contentGeneration : UInt64} {schema : UInt32} {data : DataRef}
    (hok : recordData m id generation contentGeneration schema data
      = .ok m') : Forest m' P T S := by
  obtain ⟨s, hs, hok⟩ := bind_ok hok
  obtain ⟨_, hok⟩ := guard_ok hok
  cases hok
  exact h.setSurface (get_eq_ok.1 hs) rfl

theorem activation {previous : Option UInt64} {next : Activation}
    (hok : activation m id previous next = .ok m') : Forest m' P T S := by
  obtain ⟨s, hs, hok⟩ := bind_ok hok
  obtain ⟨_, hok⟩ := guard_ok hok
  cases hok
  have hset := h.setSurface (v := { s with activation := some next })
    (get_eq_ok.1 hs) rfl
  exact { hset with }

theorem setPaneRatio {path : List Bool} {value : Ratio}
    (hok : setPaneRatio m id path value = .ok m') : Forest m' P T S := by
  obtain ⟨w, hw, hok⟩ := bind_ok hok
  obtain ⟨layout, hlayout, hok⟩ := bind_ok hok
  cases hok
  rw [get_eq_ok] at hw
  have hcat := h.category hw
  exact h.setWorkspace (v := { w with layout }) hw
    (ratio_leaves hlayout) hcat

theorem setSurfaceRatio {path : List Bool} {value : Ratio}
    (hok : setSurfaceRatio m id path value = .ok m') : Forest m' P T S := by
  obtain ⟨t, ht, hok⟩ := bind_ok hok
  obtain ⟨layout, hlayout, hok⟩ := bind_ok hok
  cases hok
  exact h.setTab (get_eq_ok.1 ht) rfl (ratio_leaves hlayout)

theorem editMetadata {target : MetadataTarget}
    {edit : BTreeMap String String → Evolved (BTreeMap String String)}
    (hok : editMetadata m target edit = .ok m') : Forest m' P T S := by
  cases target with
  | workspace id =>
    obtain ⟨w, hw, hok⟩ := bind_ok hok
    obtain ⟨metadata, _, hok⟩ := bind_ok hok
    cases hok
    rw [get_eq_ok] at hw
    have hcat := h.category hw
    exact h.setWorkspace (v := { w with metadata }) hw rfl hcat
  | surface id =>
    obtain ⟨s, hs, hok⟩ := bind_ok hok
    obtain ⟨metadata, _, hok⟩ := bind_ok hok
    cases hok
    exact h.setSurface (get_eq_ok.1 hs) rfl

omit h

end Forest

-- ==== events that leave the structure alone

/-- Two models with the same entities. -/
structure SameEntities (m m' : JournalModel) : Prop where
  categories : m'.categories = m.categories
  categoryOrder : m'.categoryOrder = m.categoryOrder
  workspaces : m'.workspaces = m.workspaces
  workspaceOrder : m'.workspaceOrder = m.workspaceOrder
  panes : m'.panes = m.panes
  tabs : m'.tabs = m.tabs
  surfaces : m'.surfaces = m.surfaces

namespace SameEntities

variable {m m' : JournalModel} {id : OperationId}

theorem forest (same : SameEntities m m') {P T S : List UInt32}
    (h : Forest m P T S) : Forest m' P T S where
  categories := by
    rw [same.categories, same.categoryOrder]
    exact h.categories
  workspaces := by
    rw [same.workspaces, same.workspaceOrder]
    exact h.workspaces
  panes := by
    rw [same.workspaces, same.panes]
    exact h.panes
  tabs := by
    rw [same.panes, same.tabs]
    exact h.tabs
  surfaces := by
    rw [same.tabs, same.surfaces]
    exact h.surfaces
  category := by
    rw [same.workspaces, same.categories]
    exact h.category

theorem ledger (marks : BTreeMap UInt32 UInt64) (incarnation : UInt64)
    (retired : Bool) (operations : BTreeMap OperationId Operation)
    (undoRecords : List UndoRecord) :
    SameEntities m { m with
      activationHighWater := marks
      engineIncarnation := incarnation
      engineRetired := retired
      operations
      undoRecords } :=
  ⟨rfl, rfl, rfl, rfl, rfl, rfl, rfl⟩

end SameEntities

/-- Operations, undo records and the engine's binding have their own
events. -/
def DomainEvent.onLedger : DomainEvent → Bool
  | undoRecordAdded _ | undoRecordConsumed _ | undoRecordEvicted _
  | engineIncarnationStarted .. | engineRetired _
  | operationPrepared _ | operationResourcePrepared ..
  | operationAwaitingCleanup .. | operationFinished ..
  | operationRecoveryObserved .. | operationReconciled .. => true
  | _ => false

/-- Events over the undo records. -/
def DomainEvent.editsUndo : DomainEvent → Bool
  | undoRecordAdded _ | undoRecordConsumed _ | undoRecordEvicted _ => true
  | _ => false

/-- What an event of the ledger leaves alone. -/
theorem apply_onLedger {m m' : JournalModel} {e : DomainEvent}
    (hkind : e.onLedger = true) (hok : apply m e = .ok m') :
    SameEntities m m'
      ∧ (e.editsUndo = false → m'.undoRecords = m.undoRecords)
      ∧ ((∀ op, e ≠ .operationPrepared op) →
        m'.activationHighWater = m.activationHighWater) := by
  cases e with
  | undoRecordAdded record =>
    obtain ⟨_, hok⟩ := guard_ok hok
    cases hok
    exact ⟨.ledger .., fun h => (by cases h), fun _ => rfl⟩
  | undoRecordConsumed id | undoRecordEvicted id =>
    obtain ⟨_, hok⟩ := guard_not_ok hok
    cases hok
    exact ⟨.ledger .., fun h => (by cases h), fun _ => rfl⟩
  | engineIncarnationStarted previous current | engineRetired incarnation =>
    obtain ⟨_, hok⟩ := guard_ok hok
    cases hok
    exact ⟨.ledger .., fun _ => rfl, fun _ => rfl⟩
  | operationPrepared op =>
    obtain ⟨_, hok⟩ := guard_ok hok
    have hok := then_ok hok
    obtain ⟨_, hok⟩ := guard_ok hok
    have hok := then_ok hok
    obtain ⟨_, _, hok⟩ := bind_ok hok
    cases hok
    exact ⟨.ledger .., fun _ => rfl, fun h => absurd rfl (h op)⟩
  | operationResourcePrepared id data deferred
  | operationAwaitingCleanup id outcome cleanup data deferred
  | operationRecoveryObserved id evidence =>
    obtain ⟨_, _, hok⟩ := bind_ok hok
    obtain ⟨_, hok⟩ := guard_ok hok
    cases hok
    exact ⟨.ledger .., fun _ => rfl, fun _ => rfl⟩
  | operationFinished id outcome | operationReconciled id outcome evidence =>
    obtain ⟨_, _, hok⟩ := bind_ok hok
    obtain ⟨_, hok⟩ := guard_not_ok hok
    cases hok
    exact ⟨.ledger .., fun _ => rfl, fun _ => rfl⟩
  | _ => cases hkind

end Tasty.Core
