/-
A replacement keeps the forest well formed.

`Replacement.simulate` takes the source out of its owner (closing owners
left empty on the way up), deletes the target with everything under it,
and puts the source into the target's place. Between the two halves the
source is the one orphan.
-/
import Tasty.Core.ForestEvents

namespace Tasty.Core

open List Function

open BTreeMap (view view_insert view_erase view_insert_same view_of_get
  view_eq_none view_eq_some)

variable {target source : UInt32}

/-- Overwriting one position of a list by another item. -/
theorem perm_set_idxOf {list : List UInt32} (hmem : target ∈ list) :
    (list.set (list.idxOf target) source).Perm
      (source :: list.erase target) := by
  induction list with
  | nil => cases hmem
  | cons x xs ih =>
    by_cases hx : x = target
    · subst hx
      simp
    · have hxs : target ∈ xs :=
        (mem_cons.1 hmem).resolve_left (Ne.symm hx)
      rw [idxOf_cons_ne _ hx, set_cons_succ,
        erase_cons_tail (by simpa using hx)]
      exact ((ih hxs).cons x).trans (List.Perm.swap _ _ _)

namespace Replacement

variable {m m' : JournalModel} {P T S : List UInt32} {id : UInt32}

-- ==== taking it out

theorem detachPane_forest {workspace : UInt32} (h : Forest m P T S)
    (hok : detachPane m id workspace = .ok m') :
    Forest m' (id :: P) T S ∧ m'.panes = m.panes ∧ m'.tabs = m.tabs
      ∧ m'.surfaces = m.surfaces := by
  unfold detachPane at hok
  split at hok
  · cases hok
  · rename_i w hw
    have hcat := h.category hw
    split at hok
    · rename_i layout hremove
      cases hok
      have hperm := SplitTree.leaves_removeLeaf hremove
      refine ⟨?_, rfl, rfl, rfl⟩
      exact { h with
        workspaces := h.workspaces.replace hw _
        panes := by
          rw [view_insert]
          exact h.panes.detach (view_of_get hw _) hperm
        category := h.categoryInsert (w := { w with layout }) hcat }
    · rename_i hlast
      cases hok
      have hleaves : w.layout.leaves = [id] := by
        rw [SplitTree.removeLeaf_lastLeaf.1 hlast, SplitTree.leaves_leaf]
      refine ⟨?_, rfl, rfl, rfl⟩
      exact { h with
        workspaces := h.workspaces.erase hw
        panes := by
          have hdrop := h.panes.dropParent (view_of_get hw _)
          rw [hleaves] at hdrop
          rw [view_erase]
          exact hdrop
        category := by
          intro k v hv
          simp only [BTreeMap.get_erase] at hv
          split at hv
          · cases hv
          · exact h.category hv }
    · cases hok

theorem detachTab_forest {tab : Tab} (h : Forest m P T S)
    (htab : m.tabs[id]? = some tab) (hid : id ∉ T)
    (hok : detachTab m id tab.pane = .ok m') :
    Forest m' P (id :: T) S ∧ m'.tabs = m.tabs ∧ m'.surfaces = m.surfaces := by
  unfold detachTab at hok
  split at hok
  · cases hok
  · rename_i pane hpane
    have hout := h.detachTab htab hid (modify_eq_ok.2 ⟨pane, hpane, rfl⟩)
    simp only at hok
    split at hok
    · rename_i hempty
      obtain ⟨m₁, hdetach, hok⟩ := bind_ok hok
      cases hok
      obtain ⟨hforest, hpanes, htabs, hsurfaces⟩ :=
        detachPane_forest hout hdetach
      have hget : m₁.panes[tab.pane]?
          = some { pane with tabs := pane.tabs.filter (· ≠ id) } := by
        rw [hpanes]
        simp
      refine ⟨?_, htabs, hsurfaces⟩
      exact { hforest with
        panes := by
          rw [view_erase]
          exact hforest.panes.bury
        tabs := by
          have hdrop := hforest.tabs.dropParent (view_of_get hget _)
          rw [List.isEmpty_iff.1 hempty] at hdrop
          rw [view_erase]
          exact hdrop }
    · cases hok
      exact ⟨hout, rfl, rfl⟩

/-- A surface leaves its tab, or the tab goes with its last surface.
Surfaces are untouched. -/
theorem detachSurface_forest (h : Forest m P [] S)
    (hok : detachSurface m id = .ok m') :
    Forest m' P [] (id :: S) ∧ m'.surfaces = m.surfaces := by
  unfold detachSurface at hok
  split at hok
  · cases hok
  · split at hok
    · cases hok
    · rename_i surface hsurface _ tab htab
      split at hok
      · rename_i layout hremove
        cases hok
        refine ⟨?_, rfl⟩
        exact h.detachSurface (bind_eq_ok.2 ⟨tab, get_eq_ok.2 htab,
          bind_eq_ok.2 ⟨layout, removedTree_eq_ok.2 hremove, rfl⟩⟩)
      · rename_i hlast
        obtain ⟨m₁, hdetach, hok⟩ := bind_ok hok
        cases hok
        obtain ⟨hforest, htabs, hsurfaces⟩ :=
          detachTab_forest h htab (by simp) hdetach
        have hleaves : tab.layout.leaves = [id] := by
          rw [SplitTree.removeLeaf_lastLeaf.1 hlast, SplitTree.leaves_leaf]
        have hget : m₁.tabs[surface.tab]? = some tab := by
          rw [htabs]
          exact htab
        refine ⟨?_, hsurfaces⟩
        exact { hforest with
          tabs := by
            rw [view_erase]
            exact hforest.tabs.bury
          surfaces := by
            have hdrop := hforest.surfaces.dropParent (view_of_get hget _)
            rw [hleaves] at hdrop
            rw [view_erase]
            exact hdrop }
      · cases hok

-- ==== dropping the rest

/-- Orphan surfaces are buried, whether they exist or not. -/
theorem dropSurfaces_forest {ids : List UInt32}
    (h : Forest m P T (ids ++ S)) : Forest (dropSurfaces m ids) P T S := by
  induction ids generalizing m with
  | nil => exact h
  | cons id ids ih =>
    refine ih (m := { m with surfaces := m.surfaces.erase id }) ?_
    exact { h with
      surfaces := by
        rw [view_erase]
        exact h.surfaces.bury }

/-- Orphan tabs are buried with their surfaces. -/
theorem dropTabs_forest {ids : List UInt32}
    (h : Forest m P (ids ++ T) S) : Forest (dropTabs m ids) P T S := by
  induction ids generalizing m with
  | nil => exact h
  | cons id ids ih =>
    unfold dropTabs
    rw [foldl_cons]
    cases htab : m.tabs[id]? with
    | none =>
      exact ih { h with tabs := h.tabs.forget (view_eq_none.2 htab) }
    | some tab =>
      refine ih (dropSurfaces_forest ?_)
      exact { h with
        tabs := by
          rw [view_erase]
          exact h.tabs.bury
        surfaces := by
          rw [view_erase]
          exact h.surfaces.dropParent (view_of_get htab _) }

theorem dropTabs_withPanes (m : JournalModel) (ids : List UInt32)
    (panes : BTreeMap UInt32 Pane) :
    dropTabs { m with panes } ids = { dropTabs m ids with panes } := by
  induction ids generalizing m with
  | nil => rfl
  | cons id ids ih =>
    unfold dropTabs
    rw [foldl_cons, foldl_cons]
    cases htab : m.tabs[id]? with
    | none =>
      simp only
      exact ih m
    | some tab =>
      simp only
      exact ih (dropSurfaces { m with tabs := m.tabs.erase id }
        tab.layout.leaves)

theorem dropTabs_panes (m : JournalModel) (ids : List UInt32) :
    (dropTabs m ids).panes = m.panes := by
  have h : (dropTabs { m with panes := m.panes } ids).panes = m.panes := by
    rw [dropTabs_withPanes]
  exact h

-- ==== what was replaced

theorem simulateSurface_eq_ok
    (hok : simulateSurface source target m = .ok m') :
    ∃ from_ old next tab layout moved, m.surfaces[source]? = some from_
      ∧ m.surfaces[target]? = some old
      ∧ detachSurface m source = .ok next
      ∧ next.tabs[old.tab]? = some tab
      ∧ tab.layout.replaceLeaf target source = some layout
      ∧ (next.surfaces.erase target)[source]? = some moved
      ∧ m' = { next with
          tabs := next.tabs.insert old.tab { tab with layout }
          surfaces := (next.surfaces.erase target).insert source
            { moved with tab := old.tab } } := by
  unfold simulateSurface at hok
  split at hok
  · cases hok
  · cases hok
  · rename_i hfrom hold
    obtain ⟨next, hdetach, hok⟩ := bind_ok hok
    split at hok
    · cases hok
    · rename_i htab
      split at hok
      · cases hok
      · rename_i hlayout
        dsimp only at hok
        split at hok
        · cases hok
        · rename_i hmoved
          cases hok
          exact ⟨_, _, next, _, _, _, hfrom, hold, hdetach, htab, hlayout,
            hmoved, rfl⟩

theorem simulateTab_eq_ok (hok : simulateTab source target m = .ok m') :
    ∃ from_ old next pane moved, m.tabs[source]? = some from_
      ∧ m.tabs[target]? = some old
      ∧ detachTab m source from_.pane = .ok next
      ∧ next.panes[old.pane]? = some pane ∧ target ∈ pane.tabs
      ∧ (next.tabs.erase target)[source]? = some moved
      ∧ m' = { dropSurfaces { next with
            panes := next.panes.insert old.pane { pane with
              tabs := pane.tabs.set (pane.tabs.idxOf target) source } }
            old.layout.leaves with
          tabs := (next.tabs.erase target).insert source
            { moved with pane := old.pane } } := by
  unfold simulateTab at hok
  split at hok
  · cases hok
  · cases hok
  · rename_i hfrom hold
    obtain ⟨next, hdetach, hok⟩ := bind_ok hok
    split at hok
    · cases hok
    · rename_i hpane
      obtain ⟨hslot, hok⟩ := guard_not_ok hok
      dsimp only at hok
      split at hok
      · cases hok
      · rename_i hmoved
        cases hok
        exact ⟨_, _, next, _, _, hfrom, hold, hdetach, hpane,
          contains_iff_mem.1 hslot, hmoved, rfl⟩

theorem simulatePane_eq_ok (hok : simulatePane source target m = .ok m') :
    ∃ from_ old next workspace layout out moved,
      m.panes[source]? = some from_ ∧ m.panes[target]? = some old
      ∧ detachPane m source from_.workspace = .ok next
      ∧ next.workspaces[old.workspace]? = some workspace
      ∧ workspace.layout.replaceLeaf target source = some layout
      ∧ out = dropTabs { next with
          workspaces := next.workspaces.insert old.workspace
            { workspace with layout } } old.tabs
      ∧ (out.panes.erase target)[source]? = some moved
      ∧ m' = { out with
          panes := (out.panes.erase target).insert source
            { moved with workspace := old.workspace } } := by
  unfold simulatePane at hok
  split at hok
  · cases hok
  · cases hok
  · rename_i hfrom hold
    obtain ⟨next, hdetach, hok⟩ := bind_ok hok
    split at hok
    · cases hok
    · rename_i hworkspace
      split at hok
      · cases hok
      · rename_i hlayout
        dsimp only at hok
        split at hok
        · cases hok
        · rename_i hmoved
          cases hok
          exact ⟨_, _, next, _, _, _, _, hfrom, hold, hdetach, hworkspace,
            hlayout, rfl, hmoved, rfl⟩

-- ==== putting it in place

theorem simulateSurface_forest (h : Forest m P [] [])
    (hok : simulateSurface source target m = .ok m') : Forest m' P [] [] := by
  obtain ⟨_, old, next, tab, layout, moved, -, -, hdetach, htab, hlayout, -,
    rfl⟩ := simulateSurface_eq_ok hok
  obtain ⟨hforest, -⟩ := detachSurface_forest h hdetach
  obtain ⟨rest, htarget, hsource⟩ := SplitTree.leaves_replaceLeaf hlayout
  -- the target leaves its slot and is deleted, then the source takes the
  -- slot
  have hout := hforest.surfaces.remove (view_of_get htab _) htarget
  have hin := hout.adopt (by simp) (update_self ..) hsource
  rw [update_idem] at hin
  exact { hforest with
    tabs := by
      rw [view_insert_same htab]
      · exact hforest.tabs
      · rfl
    surfaces := by
      rw [view_insert, view_insert, view_erase]
      exact hin }

theorem simulateTab_forest (h : Forest m P [] [])
    (hok : simulateTab source target m = .ok m') : Forest m' P [] [] := by
  obtain ⟨from_, old, next, pane, moved, hfrom, hold, hdetach, hpane, hmem,
    hmoved, rfl⟩ := simulateTab_eq_ok hok
  obtain ⟨hforest, htabs, -⟩ := detachTab_forest h hfrom (by simp) hdetach
  have hout := hforest.tabs.remove (view_of_get hpane _)
    (perm_cons_erase hmem)
  have hin := hout.adopt (by simp) (update_self ..)
    (perm_set_idxOf hmem)
  rw [update_idem] at hin
  have htarget : next.tabs[target]? = some old := by
    rw [htabs]
    exact hold
  have hdrop := hforest.surfaces.dropParent (view_of_get htarget _)
  -- the target's surfaces are the orphans left to bury
  refine dropSurfaces_forest (m := { next with
    panes := next.panes.insert old.pane
      { pane with tabs := pane.tabs.set (pane.tabs.idxOf target) source }
    tabs := (next.tabs.erase target).insert source
      { moved with pane := old.pane } }) ?_
  exact { hforest with
    panes := by
      rw [view_insert_same hpane]
      · exact hforest.panes
      · rfl
    tabs := by
      rw [view_insert, view_insert, view_erase]
      exact hin
    surfaces := by
      rw [view_insert_same hmoved, view_erase]
      · exact hdrop
      · rfl }

theorem simulatePane_forest (h : WellFormed m)
    (hok : simulatePane source target m = .ok m') : WellFormed m' := by
  obtain ⟨from_, old, next, workspace, layout, _, moved, hfrom, hold, hdetach,
    hworkspace, hlayout, rfl, hmoved, rfl⟩ := simulatePane_eq_ok hok
  obtain ⟨hforest, hpanes, -, -⟩ := detachPane_forest h hdetach
  rw [dropTabs_panes] at hmoved ⊢
  rw [← dropTabs_withPanes]
  obtain ⟨rest, htarget, hsource⟩ :=
    SplitTree.leaves_replaceLeaf hlayout
  have hout := hforest.panes.remove (view_of_get hworkspace _)
    htarget
  have hin := hout.adopt (by simp) (update_self ..)
    hsource
  rw [update_idem] at hin
  have hgone : next.panes[target]? = some old := by
    rw [hpanes]
    exact hold
  have hdrop := hforest.tabs.dropParent (view_of_get hgone _)
  have hcat := hforest.category hworkspace
  -- the target's tabs are the orphans left to bury
  refine dropTabs_forest ?_
  exact { hforest with
    workspaces := hforest.workspaces.replace hworkspace _
    panes := by
      rw [view_insert, view_insert, view_erase]
      exact hin
    tabs := by
      rw [view_insert_same hmoved, view_erase]
      · exact hdrop
      · rfl
    category :=
      hforest.categoryInsert (w := { workspace with layout }) hcat }

end Replacement

-- ==== the whole event

theorem Forest.replaceStructure {m m' : JournalModel}
    {replacement : Replacement} {removed : List EntityId} (h : WellFormed m)
    (hok : replaceStructure m replacement removed = .ok m') :
    WellFormed m' := by
  unfold Core.replaceStructure at hok
  split at hok
  · cases hok
  · rename_i after actual hsim
    obtain ⟨_, hok⟩ := guard_ok hok
    cases hok
    obtain ⟨_, hsim⟩ := guard_ok hsim
    obtain ⟨next, hkind, hsim⟩ := bind_ok hsim
    cases hsim
    split at hkind
    · exact Replacement.simulateSurface_forest h hkind
    · exact Replacement.simulateTab_forest h hkind
    · exact Replacement.simulatePane_forest h hkind
    · cases hkind

end Tasty.Core
