/-
The canonical form of a journal model
(`crates/tasty-core/src/canonical.rs`, `Canonical::of_journal`): the
structure as nested values, in display order, and a list of the places
where the flat maps disagree.

Rust pushes defects into one vector while it walks; here each level
returns its defects in the same order. `attach_mapping` stands for its
sorted JSON value, and `D` for what a `ResolveData` makes of stored
data. After every accepted batch each containment is recorded once on each
side, and the canonical form reports no defect.
-/
import Tasty.Core.Run

namespace Tasty.Core

open List hiding mem_iff_get

open BTreeMap

-- ==== the canon form

inductive IdMode where
  | exact
  | positional
  deriving DecidableEq

structure CanonCategory where
  id : UInt32
  name : String
  deriving DecidableEq

inductive CanonTree where
  | leaf (id : UInt32)
  | split (direction : String) (ratio : UInt32)
      (first second : CanonTree)
  deriving DecidableEq

structure CanonSurface (D : Type) where
  id : UInt32
  kind : String
  data : D
  metadata : BTreeMap String String
  deriving DecidableEq

structure CanonTab (D : Type) where
  id : UInt32
  name : String
  explicitName : Option String
  layout : CanonTree
  surfaces : List (CanonSurface D)
  deriving DecidableEq

structure CanonPane (D : Type) where
  id : UInt32
  tabs : List (CanonTab D)
  deriving DecidableEq

structure CanonWorkspace (D : Type) where
  id : UInt32
  name : String
  category : UInt32
  subtitle : String
  description : String
  attachMapping : Option WorkspaceAttachMapping
  metadata : BTreeMap String String
  layout : CanonTree
  panes : List (CanonPane D)
  deriving DecidableEq

structure Canonical (D : Type) where
  ids : IdMode
  categories : List CanonCategory
  workspaces : List (CanonWorkspace D)
  /-- What no order list reaches, and references that do not match. -/
  defects : List String
  deriving DecidableEq

/-- `SkipData`: stored data is not compared. -/
def skipData (_ : Option DataRef) : Unit := ()

def directionName : SplitDirection → String
  | .horizontal => "horizontal"
  | .vertical => "vertical"

/-- A layout, with the name of each direction and the bits of each
ratio. -/
def canonTree : SplitTree UInt32 → CanonTree
  | .leaf id => .leaf id
  | .split direction ratio first second =>
    .split (directionName direction) ratio.bits (canonTree first)
      (canonTree second)

-- ==== of_journal

section OfJournal

variable {D : Type} (m : JournalModel) (resolve : Option DataRef → D)

/-- A missing entity gives no value and one defect. -/
abbrev Walk (α : Type) := Option α × List String

def canonCategory (id : UInt32) : CanonCategory × List String :=
  match m.categories[id]? with
  | some category => (⟨id, category.name⟩, [])
  | none => (⟨id, ""⟩, [s!"category {id} is ordered but missing"])

def canonSurface (tabId id : UInt32) : Walk (CanonSurface D) :=
  match m.surfaces[id]? with
  | none => (none, [s!"surface {id} is in a layout but missing"])
  | some surface =>
    (some ⟨id, surface.kind, resolve surface.data, surface.metadata⟩,
      if surface.tab ≠ tabId then
        [s!"surface {id} is in tab {tabId} but names {surface.tab}"]
      else [])

def canonTab (paneId id : UInt32) : Walk (CanonTab D) :=
  match m.tabs[id]? with
  | none => (none, [s!"tab {id} is listed but missing"])
  | some tab =>
    let surfaces := tab.layout.leaves.map (canonSurface m resolve id)
    (some ⟨id, tab.name, tab.explicitName, canonTree tab.layout,
      surfaces.filterMap Prod.fst⟩,
      (if tab.pane ≠ paneId then
        [s!"tab {id} is in pane {paneId} but names {tab.pane}"]
      else []) ++ surfaces.flatMap Prod.snd)

def canonPane (workspaceId id : UInt32) : Walk (CanonPane D) :=
  match m.panes[id]? with
  | none => (none, [s!"pane {id} is in a layout but missing"])
  | some pane =>
    let tabs := pane.tabs.map (canonTab m resolve id)
    (some ⟨id, tabs.filterMap Prod.fst⟩,
      (if pane.workspace ≠ workspaceId then
        [s!"pane {id} is in workspace {workspaceId} but names "
          ++ s!"{pane.workspace}"]
      else []) ++ tabs.flatMap Prod.snd)

def canonWorkspace (id : UInt32) : Walk (CanonWorkspace D) :=
  match m.workspaces[id]? with
  | none => (none, [s!"workspace {id} is ordered but missing"])
  | some w =>
    let panes := w.layout.leaves.map (canonPane m resolve id)
    (some {
        id, name := w.name, category := w.category
        subtitle := w.subtitle, description := w.description
        attachMapping := w.attachMapping, metadata := w.metadata
        layout := canonTree w.layout
        panes := panes.filterMap Prod.fst },
      panes.flatMap Prod.snd)

/-- `seen_panes`: the panes of the ordered workspaces. -/
def seenPanes : List UInt32 :=
  m.workspaceOrder.flatMap fun id =>
    match m.workspaces[id]? with
    | none => []
    | some w => w.layout.leaves

/-- `seen_tabs`: the tabs of those panes. -/
def seenTabs : List UInt32 :=
  (seenPanes m).flatMap fun id =>
    match m.panes[id]? with
    | none => []
    | some pane => pane.tabs

/-- `seen_surfaces`: the surfaces of those tabs. -/
def seenSurfaces : List UInt32 :=
  (seenTabs m).flatMap fun id =>
    match m.tabs[id]? with
    | none => []
    | some tab => tab.layout.leaves

/-- The keys of a map that a list leaves out. -/
def unseen {V : Type} (map : BTreeMap UInt32 V) (seen : List UInt32)
    (defect : UInt32 → String) : List String :=
  (map.keys.filter fun id => !seen.contains id).map defect

def Canonical.ofJournal : Canonical D :=
  let categories := m.categoryOrder.map (canonCategory m)
  let workspaces := m.workspaceOrder.map (canonWorkspace m resolve)
  { ids := .exact
    categories := categories.map Prod.fst
    workspaces := workspaces.filterMap Prod.fst
    defects :=
      categories.flatMap Prod.snd
        ++ unseen m.categories m.categoryOrder
          (fun id => s!"category {id} is not ordered")
        ++ workspaces.flatMap Prod.snd
        ++ unseen m.workspaces m.workspaceOrder
          (fun id => s!"workspace {id} is not ordered")
        ++ unseen m.panes (seenPanes m)
          (fun id => s!"pane {id} is unreachable")
        ++ unseen m.tabs (seenTabs m)
          (fun id => s!"tab {id} is unreachable")
        ++ unseen m.surfaces (seenSurfaces m)
          (fun id => s!"surface {id} is unreachable") }

end OfJournal

open BTreeMap (view_eq_some view_of_get)

variable {id p t s : UInt32} {pane : Pane} {tab : Tab}

-- ==== reading the forest

namespace WellFormed

variable {m : JournalModel}

variable (h : WellFormed m)

include h

theorem pane_of_leaf {w : Workspace}
    (hw : m.workspaces[id]? = some w) (hp : p ∈ w.layout.leaves) :
    ∃ pane, m.panes[p]? = some pane ∧ pane.workspace = id :=
  view_eq_some.1 (h.panes.down (view_of_get hw _) hp)

theorem leaf_of_pane     (hp : m.panes[p]? = some pane) :
    ∃ w, m.workspaces[pane.workspace]? = some w ∧ p ∈ w.layout.leaves := by
  obtain ⟨l, hl, hmem⟩ := h.panes.listed (view_of_get hp _) (by simp)
  obtain ⟨w, hw, rfl⟩ := view_eq_some.1 hl
  exact ⟨w, hw, hmem⟩

theorem tab_of_item     (hpane : m.panes[id]? = some pane) (ht : t ∈ pane.tabs) :
    ∃ tab, m.tabs[t]? = some tab ∧ tab.pane = id :=
  view_eq_some.1 (h.tabs.down (view_of_get hpane _) ht)

theorem item_of_tab     (ht : m.tabs[t]? = some tab) :
    ∃ pane, m.panes[tab.pane]? = some pane ∧ t ∈ pane.tabs := by
  obtain ⟨l, hl, hmem⟩ := h.tabs.listed (view_of_get ht _) (by simp)
  obtain ⟨pane, hpane, rfl⟩ := view_eq_some.1 hl
  exact ⟨pane, hpane, hmem⟩

theorem surface_of_leaf     (ht : m.tabs[id]? = some tab) (hs : s ∈ tab.layout.leaves) :
    ∃ surface, m.surfaces[s]? = some surface ∧ surface.tab = id :=
  view_eq_some.1 (h.surfaces.down (view_of_get ht _) hs)

theorem leaf_of_surface
    {surface : Surface} (hs : m.surfaces[s]? = some surface) :
    ∃ tab, m.tabs[surface.tab]? = some tab ∧ s ∈ tab.layout.leaves := by
  obtain ⟨l, hl, hmem⟩ := h.surfaces.listed (view_of_get hs _) (by simp)
  obtain ⟨tab, ht, rfl⟩ := view_eq_some.1 hl
  exact ⟨tab, ht, hmem⟩

omit h

end WellFormed

-- ==== the statement

/-- Each order list names its map's keys once; each pane, tab and
surface is listed by exactly one owner, once, and names it; what an
owner lists exists; every workspace's category exists. -/
structure Sound (m : JournalModel) : Prop where
  categoryOrder_nodup : m.categoryOrder.Nodup
  categoryOrder_keys : ∀ id, id ∈ m.categoryOrder ↔ id ∈ m.categories
  workspaceOrder_nodup : m.workspaceOrder.Nodup
  workspaceOrder_keys : ∀ id, id ∈ m.workspaceOrder ↔ id ∈ m.workspaces
  layout_nodup : ∀ {id : UInt32} {w : Workspace},
    m.workspaces[id]? = some w → w.layout.leaves.Nodup
  layout_panes : ∀ {id : UInt32} {w : Workspace},
    m.workspaces[id]? = some w → ∀ p ∈ w.layout.leaves, p ∈ m.panes
  pane_once : ∀ {p : UInt32} {pane : Pane}, m.panes[p]? = some pane →
    ∀ id, (∃ w : Workspace, m.workspaces[id]? = some w ∧ p ∈ w.layout.leaves)
      ↔ id = pane.workspace
  tabs_nodup : ∀ {id : UInt32} {pane : Pane}, m.panes[id]? = some pane →
    pane.tabs.Nodup
  pane_tabs : ∀ {id : UInt32} {pane : Pane}, m.panes[id]? = some pane →
    ∀ t ∈ pane.tabs, t ∈ m.tabs
  tab_once : ∀ {t : UInt32} {tab : Tab}, m.tabs[t]? = some tab →
    ∀ id, (∃ pane : Pane, m.panes[id]? = some pane ∧ t ∈ pane.tabs)
      ↔ id = tab.pane
  tab_layout_nodup : ∀ {id : UInt32} {tab : Tab}, m.tabs[id]? = some tab →
    tab.layout.leaves.Nodup
  tab_surfaces : ∀ {id : UInt32} {tab : Tab}, m.tabs[id]? = some tab →
    ∀ s ∈ tab.layout.leaves, s ∈ m.surfaces
  surface_once : ∀ {s : UInt32} {surface : Surface},
    m.surfaces[s]? = some surface →
    ∀ id, (∃ tab : Tab, m.tabs[id]? = some tab ∧ s ∈ tab.layout.leaves)
      ↔ id = surface.tab
  category : ∀ {id : UInt32} {w : Workspace},
    m.workspaces[id]? = some w → w.category ∈ m.categories

theorem WellFormed.sound {m : JournalModel} (h : WellFormed m) : Sound m where
  categoryOrder_nodup := h.categories.nodup
  categoryOrder_keys _ := h.categories.mem_iff
  workspaceOrder_nodup := h.workspaces.nodup
  workspaceOrder_keys _ := h.workspaces.mem_iff
  layout_nodup hw := h.panes.nodup (view_of_get hw _)
  layout_panes hw p hp := by
    obtain ⟨pane, hpane, -⟩ := h.pane_of_leaf hw hp
    exact (mem_iff_get ..).2 ⟨pane, hpane⟩
  pane_once {p pane} hp id := by
    constructor
    · intro hid
      obtain ⟨w, hw, hmem⟩ := hid
      obtain ⟨pane', hpane', hid⟩ := h.pane_of_leaf hw hmem
      rw [hp] at hpane'
      cases hpane'
      exact hid.symm
    · intro hid
      rw [hid]
      exact h.leaf_of_pane hp
  tabs_nodup hp := h.tabs.nodup (view_of_get hp _)
  pane_tabs hp t ht := by
    obtain ⟨tab, htab, -⟩ := h.tab_of_item hp ht
    exact (mem_iff_get ..).2 ⟨tab, htab⟩
  tab_once {t tab} ht id := by
    constructor
    · intro hid
      obtain ⟨pane, hpane, hmem⟩ := hid
      obtain ⟨tab', htab', hid⟩ := h.tab_of_item hpane hmem
      rw [ht] at htab'
      cases htab'
      exact hid.symm
    · intro hid
      rw [hid]
      exact h.item_of_tab ht
  tab_layout_nodup ht := h.surfaces.nodup (view_of_get ht _)
  tab_surfaces ht s hs := by
    obtain ⟨surface, hsurface, -⟩ := h.surface_of_leaf ht hs
    exact (mem_iff_get ..).2 ⟨surface, hsurface⟩
  surface_once {s surface} hs id := by
    constructor
    · intro hid
      obtain ⟨tab, htab, hmem⟩ := hid
      obtain ⟨surface', hsurface', hid⟩ := h.surface_of_leaf htab hmem
      rw [hs] at hsurface'
      cases hsurface'
      exact hid.symm
    · intro hid
      rw [hid]
      exact h.leaf_of_surface hs
  category := h.category

-- ==== no defects

section Defects

variable {D : Type} {m : JournalModel} {resolve : Option DataRef → D}

variable (h : WellFormed m)

include h

theorem canonSurface_defects (ht : m.tabs[id]? = some tab)
    (hs : s ∈ tab.layout.leaves) : (canonSurface m resolve id s).2 = [] := by
  obtain ⟨surface, hsurface, howner⟩ := h.surface_of_leaf ht hs
  unfold canonSurface
  simp [hsurface, howner]

theorem canonTab_defects     (hp : m.panes[id]? = some pane) (ht : t ∈ pane.tabs) :
    (canonTab m resolve id t).2 = [] := by
  obtain ⟨tab, htab, howner⟩ := h.tab_of_item hp ht
  unfold canonTab
  simp only [htab, howner, ne_eq, not_true_eq_false, if_false,
    nil_append, flatMap_eq_nil_iff, mem_map]
  rintro _ ⟨s, hs, rfl⟩
  exact canonSurface_defects h htab hs

theorem canonPane_defects {w : Workspace} (hw : m.workspaces[id]? = some w)
    (hp : p ∈ w.layout.leaves) : (canonPane m resolve id p).2 = [] := by
  obtain ⟨pane, hpane, howner⟩ := h.pane_of_leaf hw hp
  unfold canonPane
  simp only [hpane, howner, ne_eq, not_true_eq_false, if_false,
    nil_append, flatMap_eq_nil_iff, mem_map]
  rintro _ ⟨t, ht, rfl⟩
  exact canonTab_defects h hpane ht

theorem canonWorkspace_defects (hid : id ∈ m.workspaceOrder) :
    (canonWorkspace m resolve id).2 = [] := by
  obtain ⟨w, hw⟩ := (mem_iff_get ..).1 (h.workspaces.mem_iff.1 hid)
  unfold canonWorkspace
  simp only [hw, flatMap_eq_nil_iff, mem_map]
  rintro _ ⟨p, hp, rfl⟩
  exact canonPane_defects h hw hp

theorem mem_seenPanes (hp : p ∈ m.panes) : p ∈ seenPanes m := by
  obtain ⟨pane, hpane⟩ := (mem_iff_get ..).1 hp
  obtain ⟨w, hw, hmem⟩ := h.leaf_of_pane hpane
  have hid := h.workspaces.mem_iff.2 ((mem_iff_get ..).2 ⟨w, hw⟩)
  unfold seenPanes
  rw [mem_flatMap]
  exact ⟨_, hid, by rw [hw]; exact hmem⟩

theorem mem_seenTabs (ht : t ∈ m.tabs) : t ∈ seenTabs m := by
  obtain ⟨tab, htab⟩ := (mem_iff_get ..).1 ht
  obtain ⟨pane, hpane, hmem⟩ := h.item_of_tab htab
  have hid := mem_seenPanes h ((mem_iff_get ..).2 ⟨pane, hpane⟩)
  unfold seenTabs
  rw [mem_flatMap]
  exact ⟨_, hid, by rw [hpane]; exact hmem⟩

theorem mem_seenSurfaces (hs : s ∈ m.surfaces) : s ∈ seenSurfaces m := by
  obtain ⟨surface, hsurface⟩ := (mem_iff_get ..).1 hs
  obtain ⟨tab, htab, hmem⟩ := h.leaf_of_surface hsurface
  have hid := mem_seenTabs h ((mem_iff_get ..).2 ⟨tab, htab⟩)
  unfold seenSurfaces
  rw [mem_flatMap]
  exact ⟨_, hid, by rw [htab]; exact hmem⟩

omit h

theorem unseen_eq_nil {V : Type} {map : BTreeMap UInt32 V}
    {seen : List UInt32} {defect : UInt32 → String}
    (h : ∀ id ∈ map, id ∈ seen) : unseen map seen defect = [] := by
  unfold unseen
  simp only [map_eq_nil_iff, filter_eq_nil_iff, Std.ExtTreeMap.mem_keys,
    Bool.not_eq_true, Bool.not_eq_false', contains_iff_mem]
  exact h

theorem WellFormed.defects (h : WellFormed m) :
    (Canonical.ofJournal m resolve).defects = [] := by
  have hcategories : (m.categoryOrder.map (canonCategory m)).flatMap
      Prod.snd = [] := by
    simp only [flatMap_eq_nil_iff, mem_map]
    rintro _ ⟨id, hid, rfl⟩
    obtain ⟨c, hc⟩ :=
      (mem_iff_get ..).1 (h.categories.mem_iff.1 hid)
    unfold canonCategory
    simp [hc]
  have hworkspaces : (m.workspaceOrder.map
      (canonWorkspace m resolve)).flatMap Prod.snd = [] := by
    simp only [flatMap_eq_nil_iff, mem_map]
    rintro _ ⟨id, hid, rfl⟩
    exact canonWorkspace_defects h hid
  unfold Canonical.ofJournal
  simp only [hcategories, hworkspaces, nil_append,
    unseen_eq_nil fun id hid => h.categories.mem_iff.2 hid,
    unseen_eq_nil fun id hid => h.workspaces.mem_iff.2 hid,
    unseen_eq_nil fun id hid => mem_seenPanes h hid,
    unseen_eq_nil fun id hid => mem_seenTabs h hid,
    unseen_eq_nil fun id hid => mem_seenSurfaces h hid]

end Defects

-- ==== over whole runs

/-- Whatever batches a journal accepted, from the empty model on. -/
theorem replay_sound {m : JournalModel}
    (h : Replays JournalModel.default m) :
    Sound m ∧ ∀ (D : Type) (resolve : Option DataRef → D),
      (Canonical.ofJournal m resolve).defects = [] :=
  ⟨h.wellFormed.sound, fun _ _ => h.wellFormed.defects⟩

/-- A batch that opens one workspace with one terminal. -/
def openingBatch : DomainBatch where
  batchId := 1
  events := [
    ⟨1, .categoryCreated 0 "default" 0⟩,
    ⟨2, .workspaceCreated 1 "workspace" 0 0 2⟩,
    ⟨3, .tabCreated 3 2 0 "tab" ⟨4, "terminal", none⟩⟩]

/-- The model after it. -/
def openedModel : JournalModel :=
  { JournalModel.default with
    applied := ⟨some 1, some 3⟩
    categories := (∅ : BTreeMap UInt32 Category).insert 0 ⟨"default"⟩
    categoryOrder := [0]
    workspaces := (∅ : BTreeMap UInt32 Workspace).insert 1
      { name := "workspace", category := 0, layout := .leaf 2,
        subtitle := "", description := "", attachMapping := none,
        metadata := ∅ }
    workspaceOrder := [1]
    panes := (∅ : BTreeMap UInt32 Pane).insert 2 ⟨1, [3]⟩
    tabs := (∅ : BTreeMap UInt32 Tab).insert 3
      { pane := 2, name := "tab", explicitName := none,
        layout := .leaf 4 }
    surfaces := (∅ : BTreeMap UInt32 Surface).insert 4
      (newSurface 3 ⟨4, "terminal", none⟩) }

theorem evolve_openingBatch :
    evolve JournalModel.default openingBatch = .ok openedModel := by
  decide +kernel

theorem replay_sound_opened :
    Sound openedModel ∧ ∀ (D : Type) (resolve : Option DataRef → D),
      (Canonical.ofJournal openedModel resolve).defects = [] :=
  replay_sound (.single ⟨openingBatch, evolve_openingBatch⟩)

end Tasty.Core
