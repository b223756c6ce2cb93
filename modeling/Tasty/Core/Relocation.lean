/-
What a replacement does to the model (`crates/tasty-core/src/
replacement.rs`, `simulate`).

The source leaves its place first, as `without` has it; then the target
goes with everything below it and the source stands where the target
stood. `relocated` writes this in one step, over the model before the
replacement, and the three arms of `simulate` compute it.

The slot the source gets is the one the target has when the source is
out. It need not be the one the target had: taking the source out moves
up the items after it and folds a split of the two onto the target.
-/
import Tasty.Core.Vacating

namespace Tasty.Core.Replacement

open List hiding getElem?_map getElem?_insert contains_iff_mem mem_iff_get

open BTreeMap Std.ExtTreeMap Option

open BTreeMap (view_of_get filterMap_self insert_eq_filterMap
  replace_eq_filterMap)

variable {m next : JournalModel} {e c source target : EntityId}
  {kind : IdKind} {id : UInt32}

-- ==== the subtree

/-- An entity and what is below it, down to `n` levels. -/
def subtreeWithin (m : JournalModel) : Nat → EntityId → List EntityId
  | 0, e => [e]
  | n + 1, e => e :: (contents m e).flatMap (subtreeWithin m n)

/-- An entity and everything below it; nothing is more than three
levels down. -/
def subtree (m : JournalModel) (e : EntityId) : List EntityId :=
  subtreeWithin m 3 e

theorem contents_of_rank (h : rank e.kind = 0) : contents m e = [] := by
  refine eq_nil_iff_forall_not_mem.2 fun c hc => ?_
  have hrank := rank_of_mem hc
  omega

theorem subtreeWithin_stable {n : Nat} (h : rank e.kind ≤ n) :
    subtreeWithin m (n + 1) e = subtreeWithin m n e := by
  induction n generalizing e with
  | zero =>
    show e :: (contents m e).flatMap (subtreeWithin m 0) = [e]
    rw [contents_of_rank (Nat.le_zero.1 h)]
    rfl
  | succ n ih =>
    rw [subtreeWithin, subtreeWithin]
    congr 1
    refine flatMap_congr fun c hc => ih ?_
    have hrank := rank_of_mem hc
    omega

theorem subtree_eq (m : JournalModel) (e : EntityId) :
    subtree m e = e :: (contents m e).flatMap (subtree m) := by
  have h := subtreeWithin_stable (m := m) (rank_le e.kind)
  exact h.symm

theorem mem_subtree :
    c ∈ subtree m e ↔ c = e ∨ ∃ d ∈ contents m e, c ∈ subtree m d := by
  rw [subtree_eq, mem_cons, mem_flatMap]

theorem subtree_surface (m : JournalModel) (id : UInt32) :
    subtree m ⟨.surface, id⟩ = [⟨.surface, id⟩] := by
  rw [subtree_eq, contents_surface]
  rfl

theorem mem_subtree_tab {tab : Tab} (h : m.tabs[id]? = some tab) :
    c ∈ subtree m ⟨.tab, id⟩ ↔ c = ⟨.tab, id⟩
      ∨ c.kind = .surface ∧ c.id ∈ tab.layout.leaves := by
  obtain ⟨kind, cid⟩ := c
  rw [mem_subtree, contents_tab h]
  simp only [List.mem_map, exists_exists_and_eq_and, subtree_surface,
    mem_singleton, EntityId.mk.injEq]
  refine or_congr_right ⟨fun hs => ?_, fun hs => ?_⟩
  · obtain ⟨s, hs, rfl, rfl⟩ := hs
    exact ⟨rfl, hs⟩
  · exact ⟨cid, hs.2, hs.1, rfl⟩

theorem mem_subtree_pane {pane : Pane} (h : m.panes[id]? = some pane) :
    c ∈ subtree m ⟨.pane, id⟩ ↔ c = ⟨.pane, id⟩
      ∨ ∃ t ∈ pane.tabs, c ∈ subtree m ⟨.tab, t⟩ := by
  rw [mem_subtree, contents_pane h]
  simp

/-- What is below an entity is not above it. -/
theorem rank_of_subtree {e : EntityId} (h : c ∈ subtree m e) :
    rank c.kind ≤ rank e.kind := by
  rcases mem_subtree.1 h with rfl | ⟨d, hd, hc⟩
  · exact Nat.le_refl _
  · have hrank := rank_of_mem hd
    have hbelow := rank_of_subtree hc
    omega
termination_by rank e.kind

theorem mem_subtree_kind (h : c.kind = e.kind) : c ∈ subtree m e ↔ c = e := by
  rw [mem_subtree]
  refine or_iff_left fun hbelow => ?_
  obtain ⟨d, hd, hc⟩ := hbelow
  have hrank := rank_of_mem hd
  have hle := rank_of_subtree hc
  rw [h] at hle
  omega

variable {t : UInt32}

theorem surface_mem_subtree :
    ⟨.surface, id⟩ ∈ subtree m ⟨.tab, t⟩
      ↔ ⟨.surface, id⟩ ∈ contents m ⟨.tab, t⟩ := by
  rw [mem_subtree, or_iff_right (by simp)]
  constructor
  · intro h
    obtain ⟨d, hd, hc⟩ := h
    have hrank := rank_of_mem hd
    have hnil : contents m d = [] :=
      contents_of_rank (Nat.succ.inj hrank).symm
    rw [mem_subtree, hnil] at hc
    rcases hc with rfl | ⟨_, hmem, _⟩
    · exact hd
    · cases hmem
  · intro h
    exact ⟨_, h, mem_subtree.2 (.inl rfl)⟩

-- ==== the model after it

/-- The item at a place once the source stands for the target. -/
def slot (source target : EntityId) (kind : IdKind) (id : UInt32) :
    UInt32 :=
  if (⟨kind, id⟩ : EntityId) = target then source.id else id

/-- The owner an entity names afterwards: the source names the
target's. -/
def rehomed (m : JournalModel) (source target : EntityId)
    (kind : IdKind) (id old : UInt32) : UInt32 :=
  match owner m target with
  | some o => if (⟨kind, id⟩ : EntityId) = source then o.id else old
  | none => old

/-- The model with the source out of its place, the target's subtree
gone and the source in the target's slot. -/
def relocated (m : JournalModel) (source target : EntityId) :
    JournalModel :=
  let out := without m source
  { out with
    workspaces := out.workspaces.map fun _ workspace =>
      { workspace with
        layout := workspace.layout.map (slot source target .pane) }
    panes := out.panes.filterMap fun id pane =>
      if ⟨.pane, id⟩ ∈ subtree m target then none
      else some {
        workspace := rehomed m source target .pane id pane.workspace
        tabs := pane.tabs.map (slot source target .tab) }
    tabs := out.tabs.filterMap fun id tab =>
      if ⟨.tab, id⟩ ∈ subtree m target then none
      else some { tab with
        pane := rehomed m source target .tab id tab.pane
        layout := tab.layout.map (slot source target .surface) }
    surfaces := out.surfaces.filterMap fun id surface =>
      if ⟨.surface, id⟩ ∈ subtree m target then none
      else some { surface with
        tab := rehomed m source target .surface id surface.tab } }

-- ==== its parts, one by one

theorem slot_other (h : kind ≠ target.kind) :
    slot source target kind id = id := by
  unfold slot
  rw [if_neg fun heq => h (by rw [← heq])]

theorem slot_same :
    slot source ⟨kind, id⟩ kind = fun i => if i = id then source.id else i := by
  funext i
  simp [slot]

variable {layout : SplitTree UInt32}

theorem map_slot_other (h : kind ≠ target.kind) :
    layout.map (slot source target kind) = layout := by
  induction layout with
  | leaf id =>
    unfold SplitTree.map
    rw [slot_other h]
  | split d r s t ihs iht =>
    unfold SplitTree.map
    rw [ihs, iht]

variable {old : UInt32}

theorem rehomed_other (h : kind ≠ source.kind) :
    rehomed m source target kind id old = old := by
  unfold rehomed
  split
  · rw [if_neg fun heq => h (by rw [← heq])]
  · rfl

theorem rehomed_self {o : EntityId} (h : owner m target = some o) :
    rehomed m ⟨kind, id⟩ target kind id old = o.id := by
  simp [rehomed, h]

theorem rehomed_beside {i : UInt32} (h : i ≠ id) :
    rehomed m ⟨kind, id⟩ target kind i old = old := by
  unfold rehomed
  split
  · rw [if_neg (by simp [h])]
  · rfl

/-- Workspaces keep their layouts unless panes are moved. -/
theorem relocated_workspaces (h : IdKind.pane ≠ target.kind) :
    (relocated m source target).workspaces
      = (without m source).workspaces := by
  refine map_eq_self_iff.2 fun k w _ => ?_
  rw [map_slot_other h]

theorem relocated_panes (hsource : source.kind = .surface)
    (htarget : target.kind = .surface) :
    (relocated m source target).panes = (without m source).panes := by
  refine filterMap_self fun k pane _ => ?_
  have hout : (⟨.pane, k⟩ : EntityId) ∉ subtree m target := by
    intro hmem
    have hrank := rank_of_subtree hmem
    rw [htarget] at hrank
    exact Nat.not_succ_le_zero 1 hrank
  have hslot : slot source target .tab = id :=
    funext fun i => slot_other (by simp [htarget])
  rw [if_neg hout, rehomed_other (by simp [hsource]), hslot, List.map_id]

/-- Surfaces under a moved tab or pane keep their entries. -/
theorem get_relocated_surfaces (h : source.kind ≠ .surface) (k : UInt32) :
    (relocated m source target).surfaces[k]?
      = if ⟨.surface, k⟩ ∈ subtree m target then none else m.surfaces[k]? := by
  unfold relocated
  rw [getElem?_filterMap']
  change (m.surfaces[k]?).bind _ = _
  cases m.surfaces[k]? with
  | none => simp
  | some s => simp only [bind_some, rehomed_other (Ne.symm h)]

theorem get_relocated_tabs (hsource : source.kind = .pane)
    (htarget : target.kind = .pane) (k : UInt32) :
    (relocated m source target).tabs[k]?
      = if ⟨.tab, k⟩ ∈ subtree m target then none else m.tabs[k]? := by
  unfold relocated
  rw [getElem?_filterMap', without_tabs (by rw [hsource]; exact Nat.le_succ _)]
  cases m.tabs[k]? with
  | none => simp
  | some t =>
    rw [bind_some, rehomed_other (by simp [hsource]),
      map_slot_other (by simp [htarget])]

theorem eq_relocated {workspaces : BTreeMap UInt32 Workspace}
    {panes : BTreeMap UInt32 Pane} {tabs : BTreeMap UInt32 Tab}
    {surfaces : BTreeMap UInt32 Surface}
    (hworkspaces : workspaces = (relocated m source target).workspaces)
    (hpanes : panes = (relocated m source target).panes)
    (htabs : tabs = (relocated m source target).tabs)
    (hsurfaces : surfaces = (relocated m source target).surfaces) :
    { without m source with workspaces, panes, tabs, surfaces }
      = relocated m source target := by
  rw [hworkspaces, hpanes, htabs, hsurfaces]
  rfl

-- ==== the three arms

theorem ne_of_get_erase {V : Type} {map : BTreeMap UInt32 V} {k k' : UInt32}
    {v : V} (h : (map.erase k)[k']? = some v) : k' ≠ k := by
  rintro rfl
  rw [get_erase, if_pos rfl] at h
  cases h

theorem simulateSurface_eq (h : WellFormed m) {source target : UInt32}
    (hok : simulateSurface source target m = .ok next) :
    next = relocated m ⟨.surface, source⟩ ⟨.surface, target⟩ := by
  obtain ⟨_, old, out, tab, layout, moved, -, hold, hdetach, htab, hlayout,
    hmoved, rfl⟩ := simulateSurface_eq_ok hok
  obtain ⟨hforest, -⟩ := detachSurface_forest h hdetach
  have hout := detachSurface_eq h hdetach
  subst hout
  have hmem : target ∈ tab.layout.leaves := by
    rw [← SplitTree.replaceLeaf_isSome, hlayout]
    rfl
  refine eq_relocated (m := m) (relocated_workspaces (by simp)).symm
    (relocated_panes rfl rfl).symm ?_ ?_
  · refine insert_eq_filterMap htab ?_ ?_
    · have hnew := SplitTree.map_of_replaceLeaf
        (hforest.surfaces.nodup (view_of_get htab _)) hlayout
      rw [if_neg (by simp [subtree_surface]),
        rehomed_other (by simp), slot_same, ← hnew]
    · intro k t hk ht
      rw [if_neg (by simp [subtree_surface]),
        rehomed_other (by simp), slot_same,
        SplitTree.map_rename_of_not_mem]
      intro hleaf
      exact hk (hforest.surfaces.parent_unique
        (view_of_get ht _) hleaf (view_of_get htab _) hmem)
  · refine replace_eq_filterMap hmoved ?_ ?_ ?_
    · intro v
      rw [if_pos (by simp [subtree_surface])]
    · have hne := ne_of_get_erase hmoved
      rw [if_neg (by simp [subtree_surface, hne]),
        rehomed_self (owner_surface hold)]
    · intro k u hks hkt hu
      rw [if_neg (by simp [subtree_surface, hkt]),
        rehomed_beside hks]

-- Lists of items, as the layouts above.

variable {s : UInt32}

theorem map_rename_of_not_mem {list : List UInt32} (h : t ∉ list) : list.map (fun i => if i = t then s else i) = list := by
  conv_rhs => rw [← List.map_id list]
  refine map_congr_left fun i hi => ?_
  have hne : i ≠ t := fun heq => h (heq ▸ hi)
  rw [if_neg hne, id_eq]

theorem set_idxOf {list : List UInt32} (hnd : list.Nodup) (hmem : t ∈ list) :
    list.set (list.idxOf t) s
      = list.map fun i => if i = t then s else i := by
  induction list with
  | nil => cases hmem
  | cons x xs ih =>
    rw [nodup_cons] at hnd
    by_cases hx : x = t
    · subst hx
      rw [idxOf_cons_self, set_cons_zero, map_cons,
        map_rename_of_not_mem hnd.1, if_pos rfl]
    · have hxs := (mem_cons.1 hmem).resolve_left (Ne.symm hx)
      rw [idxOf_cons_ne _ hx, set_cons_succ, map_cons, if_neg hx, ih hnd.2 hxs]

theorem get_dropSurfaces (m : JournalModel) (ids : List UInt32) (k : UInt32) :
    (dropSurfaces m ids).surfaces[k]?
      = if k ∈ ids then none else m.surfaces[k]? := by
  induction ids generalizing m with
  | nil => simp [dropSurfaces]
  | cons id ids ih =>
    have hcons : dropSurfaces m (id :: ids)
        = dropSurfaces { m with surfaces := m.surfaces.erase id } ids :=
      rfl
    rw [hcons, ih]
    dsimp only
    rw [get_erase]
    by_cases hk : k ∈ ids
    · simp [hk]
    · by_cases hid : id = k
      · simp [hid]
      · simp [hk, hid, Ne.symm hid]

theorem get_dropTabs_tabs (m : JournalModel) (ids : List UInt32) (k : UInt32) :
    (dropTabs m ids).tabs[k]?
      = if k ∈ ids then none else m.tabs[k]? := by
  induction ids generalizing m with
  | nil => simp [dropTabs]
  | cons id ids ih =>
    unfold dropTabs at ih ⊢
    rw [foldl_cons, ih]
    cases htab : m.tabs[id]? with
    | none =>
      dsimp only
      by_cases hid : k = id
      · simp [hid, htab]
      · simp [hid]
    | some tab =>
      dsimp only [dropSurfaces]
      rw [get_erase]
      by_cases hid : k = id
      · simp [hid]
      · simp [hid, Ne.symm hid]

theorem dropTabs_eq (m : JournalModel) (ids : List UInt32) :
    dropTabs m ids = { m with
      tabs := (dropTabs m ids).tabs
      surfaces := (dropTabs m ids).surfaces } := by
  induction ids generalizing m with
  | nil => rfl
  | cons id ids ih =>
    unfold dropTabs at ih ⊢
    rw [foldl_cons]
    cases m.tabs[id]? with
    | none => exact ih m
    | some tab => exact ih _

theorem get_dropTabs_surfaces (m : JournalModel) (ids : List UInt32)
    (k : UInt32) :
    (dropTabs m ids).surfaces[k]?
      = if ⟨.surface, k⟩ ∈ ids.flatMap fun t => contents m ⟨.tab, t⟩
        then none else m.surfaces[k]? := by
  induction ids generalizing m with
  | nil => simp [dropTabs]
  | cons id ids ih =>
    unfold dropTabs at ih ⊢
    rw [foldl_cons, ih, flatMap_cons]
    cases htab : m.tabs[id]? with
    | none =>
      have hnone : contents m ⟨.tab, id⟩ = [] := by
        simp only [contents, htab]
      rw [hnone, nil_append]
    | some tab =>
      dsimp only
      rw [get_dropSurfaces, contents_tab htab]
      by_cases hk : k ∈ tab.layout.leaves
      · simp [hk]
      · -- the other tabs hold what they held
        have hsame : ∀ t, (⟨.surface, k⟩ : EntityId)
              ∈ contents (dropSurfaces { m with tabs := m.tabs.erase id }
                  tab.layout.leaves) ⟨.tab, t⟩
            ↔ (⟨.surface, k⟩ : EntityId) ∈ contents m ⟨.tab, t⟩ := by
          intro t
          simp only [contents, dropSurfaces, get_erase]
          by_cases ht : id = t
          · simp [← ht, htab, hk]
          · rw [if_neg ht]
        simp only [mem_append, mem_flatMap, hsame]
        simp [hk]

theorem simulateTab_eq (h : WellFormed m) {source target : UInt32}
    (hok : simulateTab source target m = .ok next) :
    next = relocated m ⟨.tab, source⟩ ⟨.tab, target⟩ := by
  obtain ⟨from_, old, out, pane, moved, hfrom, hold, hdetach, hpane, hmem,
    hmoved, rfl⟩ := simulateTab_eq_ok hok
  obtain ⟨hforest, htabs, hsurfaces⟩ :=
    detachTab_forest h hfrom (by simp) hdetach
  have hout := detachTab_eq h hfrom hdetach
  subst hout
  refine eq_relocated (m := m) ?_ ?_ ?_ ?_
  · rw [relocated_workspaces (by simp)]
    rfl
  · refine insert_eq_filterMap hpane ?_ ?_
    · rw [if_neg (by simp [mem_subtree_tab hold]),
        rehomed_other (by simp), slot_same,
        set_idxOf (hforest.tabs.nodup (view_of_get hpane _)) hmem]
    · intro k p hk hp
      rw [if_neg (by simp [mem_subtree_tab hold]),
        rehomed_other (by simp), slot_same, map_rename_of_not_mem]
      intro hitem
      exact hk (hforest.tabs.parent_unique (view_of_get hp _) hitem
        (view_of_get hpane _) hmem)
  · refine replace_eq_filterMap hmoved ?_ ?_ ?_
    · intro v
      rw [if_pos (mem_subtree.2 (.inl rfl))]
    · have hne := ne_of_get_erase hmoved
      rw [if_neg (by simp [mem_subtree_tab hold, hne]),
        rehomed_self (owner_tab hold), map_slot_other (by simp)]
    · intro k t hks hkt ht
      rw [if_neg (by simp [mem_subtree_tab hold, hkt]),
        rehomed_beside hks, map_slot_other (by simp)]
  · refine ext_getElem? fun k => ?_
    rw [get_dropSurfaces, get_relocated_surfaces (by simp)]
    refine if_congr ?_ rfl rfl
    rw [mem_subtree_tab hold]
    simp

theorem simulatePane_eq (h : WellFormed m) {source target : UInt32}
    (hok : simulatePane source target m = .ok next) :
    next = relocated m ⟨.pane, source⟩ ⟨.pane, target⟩ := by
  obtain ⟨from_, old, out, workspace, layout, _, moved, hfrom, hold, hdetach,
    hworkspace, hlayout, rfl, hmoved, rfl⟩ := simulatePane_eq_ok hok
  obtain ⟨hforest, hpanes, htabs, hsurfaces⟩ := detachPane_forest h hdetach
  have hout := detachPane_eq h hfrom hdetach
  subst hout
  rw [dropTabs_panes] at hmoved ⊢
  have hmem : target ∈ workspace.layout.leaves := by
    rw [← SplitTree.replaceLeaf_isSome, hlayout]
    rfl
  rw [dropTabs_eq]
  refine eq_relocated (m := m) ?_ ?_ ?_ ?_
  · refine ext_getElem? fun k => ?_
    unfold relocated
    rw [get_insert, getElem?_map]
    split
    · rename_i hk
      have hnew := SplitTree.map_of_replaceLeaf
        (hforest.panes.nodup (view_of_get hworkspace _)) hlayout
      rw [← hk, hworkspace, map_some, slot_same, ← hnew]
    · rename_i hk
      cases hw : (without m ⟨.pane, source⟩).workspaces[k]? with
      | none => rfl
      | some w =>
        rw [map_some, slot_same, SplitTree.map_rename_of_not_mem]
        intro hleaf
        exact hk (hforest.panes.parent_unique (view_of_get hworkspace _) hmem
          (view_of_get hw _) hleaf)
  · refine replace_eq_filterMap hmoved ?_ ?_ ?_
    · intro v
      rw [if_pos (mem_subtree.2 (.inl rfl))]
    · have hne := ne_of_get_erase hmoved
      rw [if_neg (by simp [mem_subtree_kind, hne]),
        rehomed_self (owner_pane hold)]
      have hslot : slot ⟨.pane, source⟩ ⟨.pane, target⟩ .tab
          = id := funext fun i => slot_other (by simp)
      rw [hslot, List.map_id]
    · intro k p hks hkt hp
      have hslot : slot ⟨.pane, source⟩ ⟨.pane, target⟩ .tab
          = id := funext fun i => slot_other (by simp)
      rw [if_neg (by simp [mem_subtree_kind, hkt]),
        rehomed_beside hks, hslot, List.map_id]
  · refine ext_getElem? fun k => ?_
    rw [get_dropTabs_tabs, get_relocated_tabs rfl rfl]
    dsimp only
    rw [htabs]
    refine if_congr ?_ rfl rfl
    rw [mem_subtree_pane hold]
    simp [mem_subtree_kind]
  · refine ext_getElem? fun k => ?_
    rw [get_dropTabs_surfaces, get_relocated_surfaces (by simp)]
    dsimp only
    rw [hsurfaces]
    refine if_congr ?_ rfl rfl
    rw [mem_subtree_pane hold, mem_flatMap]
    simp only [surface_mem_subtree, contents, htabs]
    simp

-- ==== what is removed

theorem mem_lost {V : Type} {before after : BTreeMap UInt32 V} :
    e ∈ lost kind before after
      ↔ e.kind = kind ∧ e.id ∈ before ∧ e.id ∉ after := by
  unfold lost
  simp only [List.mem_map, List.mem_filter, Std.ExtTreeMap.mem_keys,
    Bool.not_eq_true', ← Bool.not_eq_true, contains_iff_mem]
  constructor
  · intro h
    obtain ⟨id, hid, rfl⟩ := h
    exact ⟨rfl, hid⟩
  · intro h
    obtain ⟨rfl, hid⟩ := h
    exact ⟨e.id, hid, rfl⟩

theorem mem_removedOwners :
    e ∈ removedOwners m next ↔ e.kind ≠ .category
      ∧ m.holds e = true ∧ next.holds e = false := by
  obtain ⟨kind, id⟩ := e
  unfold removedOwners JournalModel.holds
  simp only [mem_append, mem_lost, ← Bool.not_eq_true]
  cases kind <;> simp

/-- The kind of what an owner holds. -/
def heldKind : IdKind → IdKind
  | .workspace => .pane
  | .pane => .tab
  | .tab => .surface
  | kind => kind

theorem kind_of_mem (h : c ∈ contents m e) : c.kind = heldKind e.kind := by
  unfold contents at h
  split at h
  case h_4 => cases h
  all_goals
    rename_i hkind
    split at h
    · obtain ⟨i, _, rfl⟩ := mem_map.1 h
      rw [hkind]
      rfl
    · cases h

theorem contents_nodup (h : WellFormed m) : (contents m e).Nodup := by
  obtain ⟨kind, id⟩ := e
  have hinj : ∀ k : IdKind,
      Function.Injective fun i : UInt32 => (⟨k, i⟩ : EntityId) :=
    fun k i j hij => congrArg EntityId.id hij
  cases kind with
  | workspace =>
    cases hw : m.workspaces[id]? with
    | none => simp [contents, hw]
    | some w =>
      rw [contents_workspace hw]
      exact (h.panes.nodup (view_of_get hw _)).map (hinj _)
  | pane =>
    cases hp : m.panes[id]? with
    | none => simp [contents, hp]
    | some pane =>
      rw [contents_pane hp]
      exact (h.tabs.nodup (view_of_get hp _)).map (hinj _)
  | tab =>
    cases ht : m.tabs[id]? with
    | none => simp [contents, ht]
    | some tab =>
      rw [contents_tab ht]
      exact (h.surfaces.nodup (view_of_get ht _)).map (hinj _)
  | surface => exact nodup_nil
  | category => exact nodup_nil

variable {x : EntityId}

theorem leaving_unique (h : WellFormed m) {e e' : EntityId}
    (he : e = x ∨ emptied m x e = true)
    (he' : e' = x ∨ emptied m x e' = true) (hkind : e.kind = e'.kind) :
    e = e' := by
  rcases he with rfl | he
  · rcases he' with rfl | he'
    · rfl
    · have hlt := rank_lt_of_emptied he'
      rw [hkind] at hlt
      omega
  · rcases he' with rfl | he'
    · have hlt := rank_lt_of_emptied he
      rw [hkind] at hlt
      omega
    · obtain ⟨c, hc, hx⟩ := emptied_iff.1 he
      obtain ⟨c', hc', hx'⟩ := emptied_iff.1 he'
      have hmem : c ∈ contents m e := hc ▸ mem_singleton_self c
      have hmem' : c' ∈ contents m e' := hc' ▸ mem_singleton_self c'
      have hrank := rank_of_mem hmem
      have hcc := leaving_unique h hx hx'
        (by rw [kind_of_mem hmem, kind_of_mem hmem', hkind])
      have hown := owner_of_mem h hmem
      rw [hcc, owner_of_mem h hmem'] at hown
      exact (Option.some.inj hown).symm
termination_by rank e.kind

theorem emptied_of_leaving (h : WellFormed m) (hne : contents m e ≠ [])
    (hall : ∀ c ∈ contents m e, c = x ∨ emptied m x c = true) :
    emptied m x e = true := by
  have hnd := contents_nodup (e := e) h
  cases hcontents : contents m e with
  | nil => exact absurd hcontents hne
  | cons c rest =>
    have hmem : c ∈ contents m e := by
      rw [hcontents]
      exact mem_cons_self
    have hrest : rest = [] := by
      refine eq_nil_iff_forall_not_mem.2 fun d hd => ?_
      have hmem' : d ∈ contents m e := by
        rw [hcontents]
        exact mem_cons_of_mem _ hd
      have hcd := leaving_unique h (hall c hmem) (hall d hmem')
        (by rw [kind_of_mem hmem, kind_of_mem hmem'])
      rw [hcontents, nodup_cons, hcd] at hnd
      exact hnd.1 hd
    exact emptied_iff.2 ⟨c, by rw [hcontents, hrest], hall c hmem⟩

theorem stays_eq_false :
    stays m x kind id = false
      ↔ (⟨kind, id⟩ : EntityId) = x ∨ emptied m x ⟨kind, id⟩ = true := by
  unfold stays
  rw [Bool.not_eq_false', Bool.or_eq_true, decide_eq_true_eq]

theorem emptied_iff_leaving (h : WellFormed m) (hne : contents m e ≠ []) :
    emptied m x e = true
      ↔ ∀ c ∈ contents m e, c = x ∨ emptied m x c = true := by
  refine ⟨fun hx => ?_, emptied_of_leaving h hne⟩
  obtain ⟨c, hc, hcx⟩ := emptied_iff.1 hx
  intro d hd
  rw [hc, mem_singleton] at hd
  rw [hd]
  exact hcx

/-- A layout goes with its owner. -/
theorem prune_stays_eq_none (h : WellFormed m)
    (hcontents : contents m e = layout.leaves.map (⟨kind, ·⟩)) :
    CreationAssembly.prune (stays m x kind) layout = none
      ↔ emptied m x e = true := by
  have hne : contents m e ≠ [] := by
    rw [hcontents]
    simp [layout.leaves_ne_nil]
  rw [SplitTree.prune_eq_none, emptied_iff_leaving h hne, hcontents]
  simp [stays_eq_false]

theorem relocated_workspace_none (h : WellFormed m) {w : Workspace}
    (hw : m.workspaces[id]? = some w) :
    (relocated m source target).workspaces[id]? = none
      ↔ emptied m source ⟨.workspace, id⟩ = true := by
  unfold relocated without
  rw [getElem?_map, getElem?_filterMap', hw, map_eq_none_iff, bind_some,
    map_eq_none_iff, prune_stays_eq_none h (contents_workspace hw)]

theorem relocated_pane_none {pane : Pane} (hp : m.panes[id]? = some pane) :
    (relocated m source target).panes[id]? = none
      ↔ ⟨.pane, id⟩ ∈ subtree m target
        ∨ emptied m source ⟨.pane, id⟩ = true := by
  unfold relocated without
  rw [getElem?_filterMap', getElem?_filterMap', hp, bind_some]
  by_cases hx : emptied m source ⟨.pane, id⟩ = true
  · simp [hx]
  · simp [hx]

theorem relocated_tab_none (h : WellFormed m) {tab : Tab}
    (ht : m.tabs[id]? = some tab) :
    (relocated m source target).tabs[id]? = none
      ↔ ⟨.tab, id⟩ ∈ subtree m target ∨ emptied m source ⟨.tab, id⟩ = true := by
  unfold relocated without
  rw [getElem?_filterMap', getElem?_filterMap',
    ht, bind_some, ← prune_stays_eq_none h (contents_tab ht)]
  cases CreationAssembly.prune (stays m source .surface) tab.layout with
  | none => simp
  | some layout => simp

theorem relocated_surface_none {s : Surface} (hs : m.surfaces[id]? = some s) :
    (relocated m source target).surfaces[id]? = none
      ↔ ⟨.surface, id⟩ ∈ subtree m target := by
  unfold relocated
  rw [getElem?_filterMap']
  change (m.surfaces[id]?).bind _ = none ↔ _
  rw [hs, bind_some]
  simp

theorem contains_iff {V : Type} {map : BTreeMap UInt32 V} :
    map.contains id = true ↔ ∃ v, map[id]? = some v := by
  rw [contains_iff_mem, mem_iff_get]

theorem contains_eq_false {V : Type} {map : BTreeMap UInt32 V} :
    map.contains id = false ↔ map[id]? = none := by
  rw [← Bool.not_eq_true, contains_iff_mem, not_mem_iff_get]

/-- What is held is there. -/
theorem holds_of_mem (h : WellFormed m) (hc : c ∈ contents m e) :
    m.holds c = true ∧ c.kind ≠ .category := by
  have hown := owner_of_mem h hc
  obtain ⟨kind, id⟩ := c
  unfold owner at hown
  unfold JournalModel.holds
  cases kind with
  | workspace => cases hown
  | category => cases hown
  | pane | tab | surface =>
    obtain ⟨v, hv, _⟩ := map_eq_some_iff.1 hown
    exact ⟨contains_iff.2 ⟨v, hv⟩, by simp⟩

theorem holds_of_subtree (h : WellFormed m) {e : EntityId}
    (he : m.holds e = true ∧ e.kind ≠ .category)
    (hc : c ∈ subtree m e) : m.holds c = true ∧ c.kind ≠ .category := by
  rcases mem_subtree.1 hc with rfl | ⟨d, hd, hc⟩
  · exact he
  · have hrank := rank_of_mem hd
    exact holds_of_subtree h (holds_of_mem h hd) hc
termination_by rank e.kind

theorem holds_of_contents (hc : c ∈ contents m e) :
    m.holds e = true ∧ e.kind ≠ .category := by
  obtain ⟨kind, id⟩ := e
  unfold contents at hc
  unfold JournalModel.holds
  cases kind with
  | category => cases hc
  | surface => cases hc
  | workspace | pane | tab =>
    dsimp only at hc
    split at hc
    · rename_i v hv
      exact ⟨contains_iff.2 ⟨v, hv⟩, by simp⟩
    · cases hc

theorem mem_removed (h : WellFormed m)
    (htarget : m.holds target = true ∧ target.kind ≠ .category)
    (hrank : rank target.kind ≤ 2) :
    e ∈ removedOwners m (relocated m source target)
      ↔ e ∈ subtree m target ∨ emptied m source e = true := by
  rw [mem_removedOwners]
  have hheld : e ∈ subtree m target ∨ emptied m source e = true →
      m.holds e = true ∧ e.kind ≠ .category := by
    intro hgone
    rcases hgone with hgone | hgone
    · exact holds_of_subtree h htarget hgone
    · obtain ⟨c, hc, _⟩ := emptied_iff.1 hgone
      exact holds_of_contents (hc ▸ mem_singleton_self c)
  -- what goes was there, and what was there is looked up in both models
  suffices hlost : m.holds e = true → e.kind ≠ .category →
      ((relocated m source target).holds e = false
        ↔ e ∈ subtree m target ∨ emptied m source e = true) by
    constructor
    · intro hgone
      exact (hlost hgone.2.1 hgone.1).1 hgone.2.2
    · intro hgone
      obtain ⟨hholds, hcat⟩ := hheld hgone
      exact ⟨hcat, hholds, (hlost hholds hcat).2 hgone⟩
  obtain ⟨kind, id⟩ := e
  intro hholds hcat
  unfold JournalModel.holds at hholds ⊢
  cases kind with
  | category => exact absurd rfl hcat
  | workspace =>
    obtain ⟨w, hw⟩ := contains_iff.1 hholds
    have hout : (⟨.workspace, id⟩ : EntityId) ∉ subtree m target := by
      intro hmem
      have hle := Nat.le_trans (rank_of_subtree hmem) hrank
      exact Nat.not_succ_le_self 2 hle
    rw [or_iff_right hout]
    exact contains_eq_false.trans (relocated_workspace_none h hw)
  | pane =>
    obtain ⟨pane, hp⟩ := contains_iff.1 hholds
    exact contains_eq_false.trans (relocated_pane_none hp)
  | tab =>
    obtain ⟨tab, ht⟩ := contains_iff.1 hholds
    exact contains_eq_false.trans (relocated_tab_none h ht)
  | surface =>
    obtain ⟨s, hs⟩ := contains_iff.1 hholds
    have hkept : emptied m source ⟨.surface, id⟩ = false :=
      emptied_eq_false (Nat.zero_le _)
    rw [hkept, or_iff_left Bool.false_ne_true]
    exact contains_eq_false.trans (relocated_surface_none hs)

theorem mem_surfaces (h : WellFormed m) {e : EntityId}
    (hheld : m.holds e = true) (hrank : rank e.kind ≤ 2)
    (hcat : e.kind ≠ .category) :
    ∃ ids, surfaces m e = some ids
      ∧ ∀ s, ⟨.surface, s⟩ ∈ subtree m e ↔ s ∈ ids := by
  obtain ⟨kind, id⟩ := e
  unfold JournalModel.holds at hheld
  unfold surfaces
  cases kind with
  | category => exact absurd rfl hcat
  | workspace => exact absurd hrank (Nat.not_succ_le_self 2)
  | surface =>
    refine ⟨[id], if_pos hheld, fun s => ?_⟩
    simp [subtree_surface]
  | tab =>
    obtain ⟨tab, ht⟩ := contains_iff.1 hheld
    refine ⟨tab.layout.leaves, by simp [ht], fun s => ?_⟩
    simp [mem_subtree_tab ht]
  | pane =>
    obtain ⟨pane, hp⟩ := contains_iff.1 hheld
    have hlists : ∀ l : List UInt32, (∀ t ∈ l, t ∈ pane.tabs) →
        ∃ lists, l.mapM (fun t => (m.tabs[t]?).map (·.layout.leaves))
            = some lists
          ∧ ∀ s, (∃ t ∈ l, ⟨.surface, s⟩ ∈ subtree m ⟨.tab, t⟩)
            ↔ s ∈ lists.flatten := by
      intro l hl
      induction l with
      | nil => exact ⟨[], rfl, by simp⟩
      | cons t l ih =>
        obtain ⟨lists, hlists, hmem⟩ :=
          ih fun i hi => hl i (mem_cons_of_mem _ hi)
        obtain ⟨tab, ht, _⟩ :=
          WellFormed.tab_of_item h hp (hl t mem_cons_self)
        refine ⟨tab.layout.leaves :: lists, ?_, fun s => ?_⟩
        · rw [mapM_cons, ht, hlists]
          rfl
        · rw [flatten_cons, mem_append, ← hmem]
          simp [mem_subtree_tab ht]
    obtain ⟨lists, hmap, hmem⟩ := hlists pane.tabs fun t ht => ht
    refine ⟨lists.flatten, by simp [hp, hmap], fun s => ?_⟩
    rw [mem_subtree_pane hp, or_iff_right (by simp), hmem]

-- ==== what is moved

/-- Subtrees of two entities of one kind share nothing. -/
theorem subtree_disjoint (h : WellFormed m) {e e' : EntityId}
    (hne : e ≠ e') (hkind : e.kind = e'.kind) (hc : c ∈ subtree m e) :
    c ∉ subtree m e' := by
  intro hc'
  rcases mem_subtree.1 hc with rfl | ⟨d, hd, hcd⟩
  · exact hne ((mem_subtree_kind hkind).1 hc')
  · have hrank := rank_of_mem hd
    rcases mem_subtree.1 hc' with rfl | ⟨d', hd', hcd'⟩
    · have hle := rank_of_subtree hcd
      rw [hkind] at hrank
      omega
    · refine subtree_disjoint h ?_ ?_ hcd hcd'
      · intro heq
        have hown := owner_of_mem h hd
        rw [heq, owner_of_mem h hd'] at hown
        exact hne (Option.some.inj hown).symm
      · rw [kind_of_mem hd, kind_of_mem hd', hkind]
termination_by rank e.kind

/-- A surface below the source keeps all but the owner it names, and
that changes in the source alone. -/
theorem relocated_surface (h : WellFormed m) (hne : source ≠ target)
    (hkind : source.kind = target.kind)
    (hk : ⟨.surface, id⟩ ∈ subtree m source) :
    (relocated m source target).surfaces[id]?
      = (m.surfaces[id]?).map fun s => { s with
          tab := rehomed m source target .surface id s.tab } := by
  unfold relocated
  rw [getElem?_filterMap']
  change (m.surfaces[id]?).bind _ = _
  simp only [subtree_disjoint h hne hkind hk, if_false]
  exact map_eq_bind.symm

theorem relocated_tab (h : WellFormed m) (hne : source ≠ target)
    (hkind : source.kind = target.kind) (hk : ⟨.tab, id⟩ ∈ subtree m source) :
    (relocated m source target).tabs[id]?
      = (m.tabs[id]?).map fun t => { t with
          pane := rehomed m source target .tab id t.pane } := by
  have hrank := rank_of_subtree hk
  have htarget : IdKind.surface ≠ target.kind := by
    intro hsurface
    rw [hkind, ← hsurface] at hrank
    exact Nat.not_succ_le_zero 0 hrank
  unfold relocated
  rw [getElem?_filterMap', without_tabs hrank]
  simp only [subtree_disjoint h hne hkind hk, if_false, map_slot_other htarget]
  exact map_eq_bind.symm

theorem relocated_pane (h : WellFormed m) (hne : source ≠ target)
    (hkind : source.kind = target.kind) (hk : ⟨.pane, id⟩ ∈ subtree m source) :
    (relocated m source target).panes[id]?
      = (m.panes[id]?).map fun p => { p with
          workspace := rehomed m source target .pane id p.workspace } := by
  have hrank := rank_of_subtree hk
  have hslot : slot source target .tab = fun i => i := by
    refine funext fun i => slot_other ?_
    intro htab
    rw [hkind, ← htab] at hrank
    exact Nat.not_succ_le_self 1 hrank
  unfold relocated
  rw [getElem?_filterMap', without_panes hrank]
  simp only [subtree_disjoint h hne hkind hk, if_false, hslot, List.map_id']
  exact map_eq_bind.symm

theorem owner_relocated (h : WellFormed m) (hne : source ≠ target)
    (hkind : source.kind = target.kind) (hsource : m.holds source = true)
    (htarget : m.holds target = true) :
    owner (relocated m source target) source = owner m target := by
  have hself : source ∈ subtree m source := mem_subtree.2 (.inl rfl)
  obtain ⟨kind, s⟩ := source
  obtain ⟨kind', t⟩ := target
  dsimp only at hkind
  subst hkind
  unfold JournalModel.holds at hsource htarget
  cases kind with
  | category => rfl
  | workspace => rfl
  | pane =>
    obtain ⟨_, hs⟩ := contains_iff.1 hsource
    obtain ⟨_, ht⟩ := contains_iff.1 htarget
    have hget := relocated_pane h hne rfl hself
    rw [hs, map_some, rehomed_self (owner_pane ht)] at hget
    rw [owner_pane hget, owner_pane ht]
  | tab =>
    obtain ⟨_, hs⟩ := contains_iff.1 hsource
    obtain ⟨_, ht⟩ := contains_iff.1 htarget
    have hget := relocated_tab h hne rfl hself
    rw [hs, map_some, rehomed_self (owner_tab ht)] at hget
    rw [owner_tab hget, owner_tab ht]
  | surface =>
    obtain ⟨_, hs⟩ := contains_iff.1 hsource
    obtain ⟨_, ht⟩ := contains_iff.1 htarget
    have hget := relocated_surface h hne rfl hself
    rw [hs, map_some, rehomed_self (owner_surface ht)] at hget
    rw [owner_surface hget, owner_surface ht]

theorem items_relocated (hkind : source.kind = target.kind)
    (items : List UInt32) :
    ((items.filter (stays m source kind)).map
        (slot source target kind)).map (⟨kind, ·⟩)
      = ((items.map (⟨kind, ·⟩)).filter
            fun c : EntityId => stays m source c.kind c.id).map
          fun c => if c = target then source else c := by
  rw [List.filter_map, List.map_map, List.map_map]
  refine map_congr_left fun i _ => ?_
  simp only [Function.comp, slot]
  by_cases hi : (⟨kind, i⟩ : EntityId) = target
  · rw [if_pos hi, if_pos hi]
    have hk : kind = source.kind := by rw [hkind, ← hi]
    rw [hk]
  · rw [if_neg hi, if_neg hi]

/-- An owner that remains holds what it held, in order: what leaves is
taken out and the source stands for the target. -/
theorem contents_relocated (h : WellFormed m)
    (hkind : source.kind = target.kind) (hout : e ∉ subtree m target)
    (hkept : emptied m source e = false) :
    contents (relocated m source target) e
      = ((contents m e).filter fun c => stays m source c.kind c.id).map
          fun c => if c = target then source else c := by
  obtain ⟨kind, id⟩ := e
  cases kind with
  | category => rfl
  | surface => rfl
  | workspace =>
    cases hw : m.workspaces[id]? with
    | none =>
      have hget : (relocated m source target).workspaces[id]?
          = none := by
        unfold relocated without
        rw [getElem?_map, getElem?_filterMap', hw]
        rfl
      simp [contents, hw, hget]
    | some w =>
      have hcontents := contents_workspace hw
      cases hlayout : CreationAssembly.prune (stays m source .pane)
          w.layout with
      | none =>
        rw [prune_stays_eq_none h hcontents, hkept] at hlayout
        cases hlayout
      | some layout =>
        have hget : (relocated m source target).workspaces[id]?
            = some { w with
                layout := layout.map (slot source target .pane) } := by
          unfold relocated without
          rw [getElem?_map, getElem?_filterMap', hw, bind_some, hlayout]
          rfl
        rw [contents_workspace hget, hcontents, SplitTree.leaves_map,
          CreationAssembly.leaves_prune hlayout, items_relocated hkind]
  | pane =>
    cases hp : m.panes[id]? with
    | none =>
      have hget : (relocated m source target).panes[id]? = none := by
        unfold relocated without
        rw [getElem?_filterMap', getElem?_filterMap', hp]
        rfl
      simp [contents, hp, hget]
    | some pane =>
      have hget : (relocated m source target).panes[id]?
          = some {
              workspace :=
                rehomed m source target .pane id pane.workspace
              tabs := (pane.tabs.filter (stays m source .tab)).map
                (slot source target .tab) } := by
        unfold relocated without
        rw [getElem?_filterMap', getElem?_filterMap', hp, bind_some, hkept,
          if_neg Bool.false_ne_true, bind_some, if_neg hout]
      rw [contents_pane hget, contents_pane hp, items_relocated hkind]
  | tab =>
    cases ht : m.tabs[id]? with
    | none =>
      have hget : (relocated m source target).tabs[id]? = none := by
        unfold relocated without
        rw [getElem?_filterMap', getElem?_filterMap', ht]
        rfl
      simp [contents, ht, hget]
    | some tab =>
      have hcontents := contents_tab ht
      cases hlayout : CreationAssembly.prune (stays m source .surface)
          tab.layout with
      | none =>
        rw [prune_stays_eq_none h hcontents, hkept] at hlayout
        cases hlayout
      | some layout =>
        have hget : (relocated m source target).tabs[id]?
            = some { tab with
                pane := rehomed m source target .tab id tab.pane
                layout :=
                  layout.map (slot source target .surface) } := by
          unfold relocated without
          rw [getElem?_filterMap', getElem?_filterMap', ht, bind_some, hlayout,
            map_some, bind_some, if_neg hout]
        rw [contents_tab hget, hcontents, SplitTree.leaves_map,
          CreationAssembly.leaves_prune hlayout, items_relocated hkind]

-- ==== the replacement

variable {r : Replacement} {removed : List EntityId}

/-- What an accepted replacement was asked and answers. -/
theorem simulate_eq_ok (h : WellFormed m)
    (hok : r.simulate m = .ok (next, removed)) :
    r.source ≠ r.target ∧ r.source.kind = r.target.kind
      ∧ m.holds r.source = true ∧ m.holds r.target = true
      ∧ rank r.target.kind ≤ 2 ∧ r.target.kind ≠ .category
      ∧ next = relocated m r.source r.target ∧ WellFormed next
      ∧ removed = removedOwners m next := by
  obtain ⟨hdistinct, hok⟩ := guard_ok hok
  rw [not_or, ne_eq, not_not] at hdistinct
  obtain ⟨hne, hkind⟩ := hdistinct
  obtain ⟨after, hafter, hok⟩ := bind_ok hok
  cases hok
  obtain ⟨⟨kind, s⟩, ⟨kind', t⟩⟩ := r
  dsimp only at hne hkind hafter
  subst hkind
  dsimp only
  refine ⟨hne, rfl, ?_⟩
  unfold JournalModel.holds
  cases kind with
  | category => cases hafter
  | workspace => cases hafter
  | pane =>
    have hpane : simulatePane s t m = .ok next := hafter
    obtain ⟨_, _, _, _, _, _, _, hs, ht, -⟩ :=
      simulatePane_eq_ok hpane
    exact ⟨contains_iff.2 ⟨_, hs⟩, contains_iff.2 ⟨_, ht⟩, Nat.le_refl _,
      by simp, simulatePane_eq h hpane, simulatePane_forest h hpane, rfl⟩
  | tab =>
    have htab : simulateTab s t m = .ok next := hafter
    obtain ⟨_, _, _, _, _, hs, ht, -⟩ :=
      simulateTab_eq_ok htab
    exact ⟨contains_iff.2 ⟨_, hs⟩, contains_iff.2 ⟨_, ht⟩, Nat.le_succ _,
      by simp, simulateTab_eq h htab, simulateTab_forest h htab, rfl⟩
  | surface =>
    have hsurface : simulateSurface s t m = .ok next := hafter
    obtain ⟨_, _, _, _, _, _, hs, ht, -⟩ :=
      simulateSurface_eq_ok hsurface
    exact ⟨contains_iff.2 ⟨_, hs⟩, contains_iff.2 ⟨_, ht⟩, Nat.zero_le _,
      by simp, simulateSurface_eq h hsurface,
      simulateSurface_forest h hsurface, rfl⟩

/-- The source's subtree stands in the target's place, and nothing else
is changed but what leaves with it. -/
structure Moves (m : JournalModel) (r : Replacement)
    (next : JournalModel) (removed : List EntityId) : Prop where
  wellFormed : WellFormed next
  /-- every field of the model -/
  model : next = relocated m r.source r.target
  /-- the surfaces removed are the target's -/
  surfaces : ∃ ids, surfaces m r.target = some ids
    ∧ ∀ id, ⟨.surface, id⟩ ∈ removed ↔ id ∈ ids
  /-- the owners removed are the target's and the emptied ones -/
  owners : ∀ e, e ∈ removed
    ↔ e ∈ subtree m r.target ∨ emptied m r.source e = true
  /-- the source has the target's owner -/
  home : owner next r.source = owner m r.target
  /-- and there the target's slot, once what leaves is out -/
  places : ∀ e, e ∉ removed → contents next e
    = ((contents m e).filter fun c => stays m r.source c.kind c.id).map
        fun c => if c = r.target then r.source else c
  /-- below the source only its own owner is rewritten -/
  pane : ∀ id, ⟨.pane, id⟩ ∈ subtree m r.source →
    next.panes[id]? = (m.panes[id]?).map fun p => { p with
      workspace := rehomed m r.source r.target .pane id p.workspace }
  tab : ∀ id, ⟨.tab, id⟩ ∈ subtree m r.source →
    next.tabs[id]? = (m.tabs[id]?).map fun t => { t with
      pane := rehomed m r.source r.target .tab id t.pane }
  surface : ∀ id, ⟨.surface, id⟩ ∈ subtree m r.source →
    next.surfaces[id]? = (m.surfaces[id]?).map fun s => { s with
      tab := rehomed m r.source r.target .surface id s.tab }

/-- A replacement moves one subtree. -/
theorem simulate_moves (h : WellFormed m)
    (hok : r.simulate m = .ok (next, removed)) :
    Moves m r next removed := by
  obtain ⟨hne, hkind, hsource, htarget, hrank, hcat, rfl, hwf, rfl⟩ :=
    simulate_eq_ok h hok
  have hremoved : ∀ e, e ∈ removedOwners m
        (relocated m r.source r.target)
      ↔ e ∈ subtree m r.target ∨ emptied m r.source e = true :=
    fun e => mem_removed h ⟨htarget, hcat⟩ hrank
  have hsurfaces : ∃ ids, surfaces m r.target = some ids
      ∧ ∀ id, ⟨.surface, id⟩ ∈ removedOwners m
          (relocated m r.source r.target) ↔ id ∈ ids := by
    obtain ⟨ids, hids, hmem⟩ := mem_surfaces h htarget hrank hcat
    refine ⟨ids, hids, fun id => ?_⟩
    have hkept : emptied m r.source ⟨.surface, id⟩ = false :=
      emptied_eq_false (Nat.zero_le _)
    rw [hremoved, hkept, or_iff_left Bool.false_ne_true, hmem]
  exact {
    wellFormed := hwf
    model := rfl
    surfaces := hsurfaces
    owners := hremoved
    home := owner_relocated h hne hkind hsource htarget
    places := by
      intro e he
      rw [hremoved, not_or, Bool.not_eq_true] at he
      exact contents_relocated h hkind he.1 he.2
    pane := fun id hid => relocated_pane h hne hkind hid
    tab := fun id hid => relocated_tab h hne hkind hid
    surface := fun id hid => relocated_surface h hne hkind hid }

/-- A batch that opens one pane with two tabs. -/
def pairingBatch : DomainBatch where
  batchId := 1
  events := [
    ⟨1, .categoryCreated 0 "default" 0⟩,
    ⟨2, .workspaceCreated 1 "workspace" 0 0 2⟩,
    ⟨3, .tabCreated 3 2 0 "left" ⟨4, "terminal", none⟩⟩,
    ⟨4, .tabCreated 5 2 1 "right" ⟨6, "terminal", none⟩⟩]

/-- The model after it. -/
def pairedModel : JournalModel :=
  { openedModel with
    applied := ⟨some 1, some 4⟩
    panes := (∅ : BTreeMap UInt32 Pane).insert 2 ⟨1, [3, 5]⟩
    tabs := ((∅ : BTreeMap UInt32 Tab).insert 3
        { pane := 2, name := "left", explicitName := none,
          layout := .leaf 4 }).insert 5
        { pane := 2, name := "right", explicitName := none,
          layout := .leaf 6 }
    surfaces := ((∅ : BTreeMap UInt32 Surface).insert 4
        (newSurface 3 ⟨4, "terminal", none⟩)).insert 6
        (newSurface 5 ⟨6, "terminal", none⟩) }

theorem evolve_pairingBatch :
    evolve JournalModel.default pairingBatch = .ok pairedModel := by
  decide +kernel

theorem pairedModel_wellFormed : WellFormed pairedModel :=
  Replays.wellFormed (.single ⟨pairingBatch, evolve_pairingBatch⟩)

/-- The left tab put in the right one's place. -/
def leftForRight : Replacement := ⟨⟨.tab, 3⟩, ⟨.tab, 5⟩⟩

/-- The model after that. -/
def replacedModel : JournalModel :=
  { pairedModel with
    panes := (∅ : BTreeMap UInt32 Pane).insert 2 ⟨1, [3]⟩
    tabs := (∅ : BTreeMap UInt32 Tab).insert 3
        { pane := 2, name := "left", explicitName := none,
          layout := .leaf 4 }
    surfaces := (∅ : BTreeMap UInt32 Surface).insert 4
        (newSurface 3 ⟨4, "terminal", none⟩) }

theorem simulate_leftForRight :
    leftForRight.simulate pairedModel
      = .ok (replacedModel, [⟨.tab, 5⟩, ⟨.surface, 6⟩]) := by
  decide +kernel

theorem simulate_moves_left : Moves pairedModel leftForRight
    replacedModel [⟨.tab, 5⟩, ⟨.surface, 6⟩] :=
  simulate_moves pairedModel_wellFormed simulate_leftForRight

/-- The source need not stand at the index the target had: the left tab
comes first where the right one came second. -/
theorem simulate_moves_index :
    ¬ ∀ (m next : JournalModel) (r : Replacement)
        (removed : List EntityId), WellFormed m →
        r.simulate m = .ok (next, removed) →
        ∀ o, owner m r.target = some o →
          (contents next o).idxOf r.source
            = (contents m o).idxOf r.target := by
  intro h
  have hindex := h pairedModel replacedModel leftForRight _
    pairedModel_wellFormed simulate_leftForRight ⟨.pane, 2⟩
    (by decide +kernel)
  revert hindex
  decide +kernel

end Tasty.Core.Replacement
