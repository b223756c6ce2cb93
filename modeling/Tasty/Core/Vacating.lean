/-
Taking one subtree out of the model (`crates/tasty-core/src/
replacement.rs`, `detach_surface`, `detach_tab`, `detach_pane`).

The code walks up: an owner that loses its last item is taken out in
turn. Here the result is said without the walk. An owner is `emptied`
when all it holds is the subtree's root, or one owner that is emptied
itself; `without m x` prunes every layout and every tab list of `x` and
of what is emptied, and drops the emptied owners. The three walks
compute it.
-/
import Tasty.Core.Closing

namespace Tasty.Core

open List Option

open BTreeMap (view_of_get filterMap_self insert_eq_filterMap
  erase_eq_filterMap erase_insert_self)

-- ==== pruned layouts

namespace SplitTree

open CreationAssembly (prune leaves_prune prune_leaves)

variable {keep keep' : UInt32 → Bool} {t t' : SplitTree UInt32}
  {id target source : UInt32}

/-- A tree that loses no leaf is untouched. -/
theorem prune_all (h : ∀ i ∈ t.leaves, keep i = true) :
    prune keep t = some t := by
  induction t with
  | leaf id =>
    unfold prune
    rw [if_pos (h id (by simp))]
  | split d r s u ihs ihu =>
    unfold prune
    rw [ihs fun i hi => h i (mem_append_left _ hi),
      ihu fun i hi => h i (mem_append_right _ hi)]

/-- A tree goes when it loses every leaf. -/
theorem prune_eq_none :
    prune keep t = none ↔ ∀ i ∈ t.leaves, keep i = false := by
  have hleaves := prune_leaves keep t
  constructor
  · intro hnone i hi
    rw [hnone, map_none, getD_none] at hleaves
    have hfilter := filter_eq_nil_iff.1 hleaves.symm i hi
    simpa using hfilter
  · intro hall
    cases hp : prune keep t with
    | none => rfl
    | some t' =>
      refine absurd ?_ t'.leaves_ne_nil
      rw [leaves_prune hp, filter_eq_nil_iff]
      intro i hi
      simp [hall i hi]

theorem map_ne_singleton {β : Type} {f : UInt32 → β} {x : β}
    (h : t.removeLeaf id = .removed t') : t.leaves.map f ≠ [x] := by
  intro hone
  have hlength := congrArg List.length hone
  rw [length_map, (leaves_removeLeaf h).length_eq] at hlength
  exact t'.leaves_ne_nil
    (eq_nil_of_length_eq_zero (Nat.succ.inj hlength))

/-- A leaf stands on one side of a split at most. -/
theorem nodup_split {d : SplitDirection} {r : Ratio}
    {s u : SplitTree UInt32} (h : (split d r s u).leaves.Nodup) :
    s.leaves.Nodup ∧ u.leaves.Nodup ∧ ∀ i ∈ s.leaves, i ∉ u.leaves := by
  rw [leaves_split, nodup_append] at h
  exact ⟨h.1, h.2.1, fun i hs hu => h.2.2 i hs i hu rfl⟩

/-- Renaming a leaf that is not there changes nothing. -/
theorem map_rename_of_not_mem (h : target ∉ t.leaves) :
    t.map (fun i => if i = target then source else i) = t := by
  induction t with
  | leaf i =>
    have hne : i ≠ target := fun heq => h (by simp [heq])
    unfold map
    rw [if_neg hne]
  | split d r s u ihs ihu =>
    rw [leaves_split, mem_append, not_or] at h
    unfold map
    rw [ihs h.1, ihu h.2]

theorem map_of_replaceLeaf (hnd : t.leaves.Nodup)
    (h : t.replaceLeaf target source = some t') :
    t' = t.map (fun i => if i = target then source else i) := by
  induction t generalizing t' with
  | leaf i =>
    simp only [replaceLeaf] at h
    split at h
    case isFalse => cases h
    case isTrue heq =>
      cases h
      simp [map, heq]
  | split d r s u ihs ihu =>
    obtain ⟨hs, hu, hdisjoint⟩ := nodup_split hnd
    simp only [replaceLeaf] at h
    unfold map
    split at h
    case h_1 s' hreplaced =>
      cases h
      have hsome : (s.replaceLeaf target source).isSome := by
        rw [hreplaced]
        rfl
      have hnot := hdisjoint target (replaceLeaf_isSome.1 hsome)
      rw [← ihs hs hreplaced, map_rename_of_not_mem hnot]
    case h_2 hnone =>
      obtain ⟨u', hreplaced, rfl⟩ := map_eq_some_iff.1 h
      have hnot : target ∉ s.leaves := by
        intro hmem
        have hsome : (s.replaceLeaf target source).isSome :=
          replaceLeaf_isSome.2 hmem
        rw [hnone] at hsome
        cases hsome
      rw [← ihu hu hreplaced, map_rename_of_not_mem hnot]

end SplitTree

namespace Replacement

variable {m : JournalModel} {x y e c : EntityId}

-- ==== what an entity holds

/-- What an entity holds itself, in order. -/
def contents (m : JournalModel) (e : EntityId) : List EntityId :=
  match e.kind with
  | .workspace =>
    match m.workspaces[e.id]? with
    | some workspace => workspace.layout.leaves.map (⟨.pane, ·⟩)
    | none => []
  | .pane =>
    match m.panes[e.id]? with
    | some pane => pane.tabs.map (⟨.tab, ·⟩)
    | none => []
  | .tab =>
    match m.tabs[e.id]? with
    | some tab => tab.layout.leaves.map (⟨.surface, ·⟩)
    | none => []
  | _ => []

variable {id : UInt32}

theorem contents_workspace {w : Workspace} (h : m.workspaces[id]? = some w) :
    contents m ⟨.workspace, id⟩ = w.layout.leaves.map (⟨.pane, ·⟩) := by
  simp only [contents, h]

variable {pane : Pane}

theorem contents_pane (h : m.panes[id]? = some pane) :
    contents m ⟨.pane, id⟩ = pane.tabs.map (⟨.tab, ·⟩) := by
  simp only [contents, h]

variable {tab : Tab}

theorem contents_tab (h : m.tabs[id]? = some tab) :
    contents m ⟨.tab, id⟩ = tab.layout.leaves.map (⟨.surface, ·⟩) := by
  simp only [contents, h]

theorem contents_surface (m : JournalModel) (id : UInt32) :
    contents m ⟨.surface, id⟩ = [] := rfl

/-- How many levels of owners stand below a kind. -/
def rank : IdKind → Nat
  | .workspace => 3
  | .pane => 2
  | .tab => 1
  | _ => 0

/-- What an entity holds is one level below it. -/
theorem rank_of_mem (h : c ∈ contents m e) : rank e.kind = rank c.kind + 1 := by
  unfold contents at h
  split at h
  case h_4 => cases h
  all_goals
    rename_i hkind
    split at h
    · obtain ⟨id, _, rfl⟩ := mem_map.1 h
      rw [hkind]
      rfl
    · cases h

-- ==== emptied owners

/-- Whether nothing is left of `e` without `x`: what it holds is `x`
alone, or one owner of which nothing is left. `n` is how far down to
look. -/
def emptiedWithin (m : JournalModel) (x : EntityId) :
    Nat → EntityId → Bool
  | 0, _ => false
  | n + 1, e =>
    match contents m e with
    | [c] => c = x || emptiedWithin m x n c
    | _ => false

/-- An owner left with nothing when `x` is taken out; no entity is more
than three levels up. -/
def emptied (m : JournalModel) (x e : EntityId) : Bool :=
  emptiedWithin m x 3 e

theorem emptiedWithin_succ {n : Nat} :
    emptiedWithin m x (n + 1) e = true
      ↔ ∃ c, contents m e = [c] ∧ (c = x ∨ emptiedWithin m x n c = true) := by
  rw [emptiedWithin]
  split
  · rename_i c hc
    simp [hc]
  · rename_i hc
    refine ⟨fun h => (by cases h), fun h => ?_⟩
    obtain ⟨c, hc', _⟩ := h
    exact absurd hc' (hc c)

/-- Looking further down than the levels below finds nothing new. -/
theorem emptiedWithin_stable {n : Nat} (h : rank e.kind ≤ n) :
    emptiedWithin m x (n + 1) e = emptiedWithin m x n e := by
  induction n generalizing e with
  | zero =>
    rw [Bool.eq_iff_iff, emptiedWithin_succ]
    constructor
    · intro hone
      obtain ⟨c, hc, _⟩ := hone
      have hrank := rank_of_mem (hc ▸ mem_singleton_self c)
      omega
    · intro hfalse
      cases hfalse
  | succ n ih =>
    rw [Bool.eq_iff_iff, emptiedWithin_succ, emptiedWithin_succ]
    refine exists_congr fun c => and_congr_right fun hc => ?_
    have hrank := rank_of_mem (hc ▸ mem_singleton_self c)
    rw [ih (by omega)]

theorem rank_le (k : IdKind) : rank k ≤ 3 := by
  cases k <;> decide

/-- Nothing is left of an owner of one item that is `x` or emptied. -/
theorem emptied_iff :
    emptied m x e = true
      ↔ ∃ c, contents m e = [c] ∧ (c = x ∨ emptied m x c = true) := by
  unfold emptied
  rw [← emptiedWithin_stable (rank_le e.kind), emptiedWithin_succ]

/-- Only owners above `x` are emptied. -/
theorem rank_lt_of_emptied {e : EntityId} (h : emptied m x e = true) :
    rank x.kind < rank e.kind := by
  obtain ⟨c, hc, hx⟩ := emptied_iff.1 h
  have hrank := rank_of_mem (hc ▸ mem_singleton_self c)
  rcases hx with rfl | hx
  · omega
  · have hlt := rank_lt_of_emptied hx
    omega
termination_by rank e.kind

theorem emptied_eq_false (h : rank e.kind ≤ rank x.kind) :
    emptied m x e = false := by
  rw [Bool.eq_false_iff]
  intro hemptied
  have hlt := rank_lt_of_emptied hemptied
  omega

/-- The walk up: taking `x` out empties its owner `y`, and then what
taking `y` out empties, or nothing. -/
theorem emptied_owner {e : EntityId} (honly : ∀ o, x ∈ contents m o → o = y) :
    emptied m x e = true
      ↔ contents m y = [x] ∧ (e = y ∨ emptied m y e = true) := by
  constructor
  · intro h
    obtain ⟨c, hc, hx⟩ := emptied_iff.1 h
    have hrank := rank_of_mem (hc ▸ mem_singleton_self c)
    rcases hx with rfl | hx
    · have he : e = y := honly e (hc ▸ mem_singleton_self c)
      exact ⟨he ▸ hc, .inl he⟩
    · obtain ⟨hy, hcy⟩ := (emptied_owner honly).1 hx
      exact ⟨hy, .inr (emptied_iff.2 ⟨c, hc, hcy⟩)⟩
  · intro h
    obtain ⟨hy, he⟩ := h
    rcases he with rfl | he
    · exact emptied_iff.2 ⟨x, hy, .inl rfl⟩
    · obtain ⟨c, hc, hcy⟩ := emptied_iff.1 he
      have hrank := rank_of_mem (hc ▸ mem_singleton_self c)
      exact emptied_iff.2
        ⟨c, hc, .inr ((emptied_owner honly).2 ⟨hy, hcy⟩)⟩
termination_by rank e.kind

-- ==== the owner's side

/-- The entity that holds another, as the other names it. -/
def owner (m : JournalModel) (e : EntityId) : Option EntityId :=
  match e.kind with
  | .pane => (m.panes[e.id]?).map fun pane => ⟨.workspace, pane.workspace⟩
  | .tab => (m.tabs[e.id]?).map fun tab => ⟨.pane, tab.pane⟩
  | .surface => (m.surfaces[e.id]?).map fun s => ⟨.tab, s.tab⟩
  | _ => none

/-- What holds an entity is the owner the entity names. -/
theorem owner_of_mem (h : WellFormed m) (hx : x ∈ contents m e) :
    owner m x = some e := by
  obtain ⟨kind, id⟩ := e
  cases kind with
  | workspace =>
    cases hw : m.workspaces[id]? with
    | none => simp [contents, hw] at hx
    | some w =>
      rw [contents_workspace hw] at hx
      obtain ⟨p, hp, rfl⟩ := mem_map.1 hx
      obtain ⟨pane, hpane, howner⟩ := h.pane_of_leaf hw hp
      simp [owner, hpane, howner]
  | pane =>
    cases hpane : m.panes[id]? with
    | none => simp [contents, hpane] at hx
    | some pane =>
      rw [contents_pane hpane] at hx
      obtain ⟨t, ht, rfl⟩ := mem_map.1 hx
      obtain ⟨tab, htab, howner⟩ := h.tab_of_item hpane ht
      simp [owner, htab, howner]
  | tab =>
    cases htab : m.tabs[id]? with
    | none => simp [contents, htab] at hx
    | some tab =>
      rw [contents_tab htab] at hx
      obtain ⟨s, hs, rfl⟩ := mem_map.1 hx
      obtain ⟨surface, hsurface, howner⟩ := h.surface_of_leaf htab hs
      simp [owner, hsurface, howner]
  | surface => cases hx
  | category => cases hx

/-- Only its owner holds an entity. -/
theorem owner_only (h : WellFormed m) (ho : owner m x = some y) :
    ∀ o, x ∈ contents m o → o = y := by
  intro o hmem
  have hown := owner_of_mem h hmem
  rw [ho] at hown
  exact (Option.some.inj hown).symm

-- ==== taking it out

/-- Whether an item stays where it is when `x` is taken out. -/
def stays (m : JournalModel) (x : EntityId) (kind : IdKind)
    (id : UInt32) : Bool :=
  !((⟨kind, id⟩ : EntityId) = x || emptied m x ⟨kind, id⟩)

open CreationAssembly (prune)

/-- The model with `x` in no layout and no tab list, and without the
owners this empties. What is below `x`, and `x` itself, keep their
entries. -/
def without (m : JournalModel) (x : EntityId) : JournalModel :=
  { m with
    workspaces := m.workspaces.filterMap fun _ workspace =>
      (prune (stays m x .pane) workspace.layout).map
        fun layout => { workspace with layout }
    workspaceOrder :=
      m.workspaceOrder.filter fun id => !emptied m x ⟨.workspace, id⟩
    panes := m.panes.filterMap fun id pane =>
      if emptied m x ⟨.pane, id⟩ then none
      else some { pane with tabs := pane.tabs.filter (stays m x .tab) }
    tabs := m.tabs.filterMap fun _ tab =>
      (prune (stays m x .surface) tab.layout).map
        fun layout => { tab with layout } }

variable {kind : IdKind} {id : UInt32}

theorem stays_eq_true :
    stays m x kind id = true
      ↔ (⟨kind, id⟩ : EntityId) ≠ x ∧ emptied m x ⟨kind, id⟩ = false := by
  simp [stays]

/-- Below and beside `x` nothing goes but `x`. -/
theorem stays_of_rank (h : rank kind ≤ rank x.kind) :
    stays m x kind id = decide ((⟨kind, id⟩ : EntityId) ≠ x) := by
  rw [Bool.eq_iff_iff, stays_eq_true, decide_eq_true_eq, emptied_eq_false h]
  simp

theorem stays_owner (honly : ∀ o, x ∈ contents m o → o = y)
    (hy : contents m y = [x]) (hne : (⟨kind, id⟩ : EntityId) ≠ x) :
    stays m x kind id = stays m y kind id := by
  have habove := emptied_owner (e := ⟨kind, id⟩) honly
  rw [Bool.eq_iff_iff, stays_eq_true, stays_eq_true, ← Bool.not_eq_true,
    ← Bool.not_eq_true, habove]
  simp [hy, hne]

theorem emptied_above_owner (honly : ∀ o, x ∈ contents m o → o = y)
    (hy : contents m y = [x]) (hne : e ≠ y) :
    emptied m x e = emptied m y e := by
  rw [Bool.eq_iff_iff, emptied_owner honly]
  simp [hy, hne]

/-- Nothing is emptied when the owner holds more. -/
theorem emptied_shared (honly : ∀ o, x ∈ contents m o → o = y)
    (hy : contents m y ≠ [x]) : emptied m x e = false := by
  rw [Bool.eq_false_iff, ne_eq, emptied_owner honly]
  simp [hy]

/-- Tabs lose nothing when a tab or a pane is taken out. -/
theorem without_tabs (h : rank .tab ≤ rank x.kind) :
    (without m x).tabs = m.tabs := by
  refine filterMap_self fun k tab _ => ?_
  have hstays : ∀ i ∈ tab.layout.leaves,
      stays m x .surface i = true := by
    intro i _
    have hle : rank .surface ≤ rank x.kind := Nat.zero_le _
    rw [stays_of_rank hle, decide_eq_true_eq]
    intro heq
    rw [← heq] at h
    exact Nat.not_succ_le_zero 0 h
  rw [SplitTree.prune_all hstays, map_some]

theorem without_panes (h : rank .pane ≤ rank x.kind) :
    (without m x).panes = m.panes := by
  refine filterMap_self fun k pane _ => ?_
  have hstays : ∀ i ∈ pane.tabs, stays m x .tab i = true := by
    intro i _
    have hle : rank .tab ≤ rank x.kind := Nat.le_trans (by decide) h
    rw [stays_of_rank hle, decide_eq_true_eq]
    intro heq
    rw [← heq] at h
    exact Nat.not_succ_le_self 1 h
  rw [emptied_eq_false h, if_neg Bool.false_ne_true, filter_eq_self.2 hstays]

-- ==== the three walks

variable {next : JournalModel}

theorem owner_pane (h : m.panes[id]? = some pane) :
    owner m ⟨.pane, id⟩ = some ⟨.workspace, pane.workspace⟩ := by
  simp [owner, h]

theorem owner_tab (h : m.tabs[id]? = some tab) :
    owner m ⟨.tab, id⟩ = some ⟨.pane, tab.pane⟩ := by
  simp [owner, h]

theorem owner_surface {s : Surface} (h : m.surfaces[id]? = some s) :
    owner m ⟨.surface, id⟩ = some ⟨.tab, s.tab⟩ := by
  simp [owner, h]

theorem stays_beside : stays m ⟨kind, id⟩ kind = fun i => !decide (i = id) := by
  funext i
  rw [stays_of_rank (Nat.le_refl _), Bool.eq_iff_iff]
  simp

/-- What another owner holds stays. -/
theorem stays_elsewhere {items : List UInt32}
    (honly : ∀ o, ⟨kind, id⟩ ∈ contents m o → o = y) (hne : e ≠ y)
    (hitems : contents m e = items.map (⟨kind, ·⟩)) :
    ∀ i ∈ items, stays m ⟨kind, id⟩ kind i = true := by
  intro i hi
  rw [stays_beside, Bool.not_eq_true', decide_eq_false_iff_not]
  intro hid
  refine hne (honly e ?_)
  rw [hitems]
  exact mem_map.2 ⟨i, hi, by rw [hid]⟩

variable {panes : BTreeMap UInt32 Pane}

theorem eq_without {workspaces : BTreeMap UInt32 Workspace}
    {workspaceOrder : List UInt32} {tabs : BTreeMap UInt32 Tab}
    (hworkspaces : workspaces = (without m x).workspaces)
    (horder : workspaceOrder = (without m x).workspaceOrder)
    (hpanes : panes = (without m x).panes) (htabs : tabs = (without m x).tabs) :
    { m with workspaces, workspaceOrder, panes, tabs } = without m x := by
  rw [hworkspaces, horder, hpanes, htabs]
  rfl

theorem detachPane_eq (h : WellFormed m) (hp : m.panes[id]? = some pane)
    (hok : detachPane m id pane.workspace = .ok next) :
    next = without m ⟨.pane, id⟩ := by
  have honly := owner_only h (owner_pane hp)
  have htabs : (without m ⟨.pane, id⟩).tabs = m.tabs :=
    without_tabs (Nat.le_succ _)
  have hpanes : (without m ⟨.pane, id⟩).panes = m.panes :=
    without_panes (Nat.le_refl _)
  unfold detachPane at hok
  split at hok
  · cases hok
  · rename_i w hw
    have hnd := h.panes.nodup (view_of_get hw _)
    have hcontents := contents_workspace hw
    -- the other workspaces do not hold the pane
    have hother : ∀ (k : UInt32) (v : Workspace), k ≠ pane.workspace →
        m.workspaces[k]? = some v →
        (prune (stays m ⟨.pane, id⟩ .pane) v.layout).map
          (fun layout => { v with layout }) = some v := by
      intro k v hk hv
      rw [SplitTree.prune_all (stays_elsewhere honly (by simp [hk])
        (contents_workspace hv)), map_some]
    split at hok
    · rename_i layout hremove
      cases hok
      have hshared : contents m ⟨.workspace, pane.workspace⟩
          ≠ [⟨.pane, id⟩] :=
        hcontents ▸ SplitTree.map_ne_singleton hremove
      refine eq_without (m := m) (insert_eq_filterMap hw ?_ hother) ?_
        hpanes.symm htabs.symm
      · rw [stays_beside,
          SplitTree.prune_of_removed hnd (fun _ _ => rfl) hremove,
          map_some]
      · refine (filter_eq_self.2 fun k _ => ?_).symm
        rw [emptied_shared honly hshared, Bool.not_false]
    · rename_i hlast
      cases hok
      have hlayout := SplitTree.removeLeaf_lastLeaf.1 hlast
      have halone : contents m ⟨.workspace, pane.workspace⟩
          = [⟨.pane, id⟩] := by
        rw [hcontents, hlayout]
        rfl
      refine eq_without (m := m) (erase_eq_filterMap ?_ hother) ?_
        hpanes.symm htabs.symm
      · intro v hv
        rw [hw] at hv
        cases hv
        rw [stays_beside, hlayout]
        simp [prune]
      · refine filter_congr fun k _ => ?_
        have habove := emptied_owner (e := ⟨.workspace, k⟩) honly
        have hup : emptied m ⟨.workspace, pane.workspace⟩ ⟨.workspace, k⟩
            = false := emptied_eq_false (Nat.le_refl _)
        rw [Bool.eq_iff_iff, decide_eq_true_eq, Bool.not_eq_true',
          ← Bool.not_eq_true, habove]
        simp [halone, hup]
    · cases hok

theorem detachPane_withPanes {workspace : UInt32}
    (hok : detachPane { m with panes } id workspace = .ok next) :
    ∃ next', detachPane m id workspace = .ok next'
      ∧ next = { next' with panes } := by
  unfold detachPane at hok ⊢
  split at hok
  · cases hok
  · rename_i w hw
    dsimp only at hw
    simp only [hw]
    split at hok
    · cases hok
      exact ⟨_, rfl, rfl⟩
    · cases hok
      exact ⟨_, rfl, rfl⟩
    · cases hok

theorem without_workspaces_owner
    (honly : ∀ o, x ∈ contents m o → o = y) (hy : contents m y = [x])
    (hx : x.kind ≠ .pane) :
    (without m x).workspaces = (without m y).workspaces := by
  have hstays : stays m x .pane = stays m y .pane :=
    funext fun i => stays_owner honly hy fun hi => hx (by rw [← hi])
  unfold without
  rw [hstays]

theorem without_workspaceOrder_owner
    (honly : ∀ o, x ∈ contents m o → o = y) (hy : contents m y = [x])
    (hkind : y.kind ≠ .workspace) :
    (without m x).workspaceOrder = (without m y).workspaceOrder := by
  refine filter_congr fun k _ => ?_
  have hne : (⟨.workspace, k⟩ : EntityId) ≠ y :=
    fun hk => hkind (by rw [← hk])
  rw [emptied_above_owner honly hy hne]

/-- Nothing above an owner that keeps an item is touched. -/
theorem without_workspaces_shared
    (honly : ∀ o, x ∈ contents m o → o = y) (hy : contents m y ≠ [x])
    (hx : x.kind ≠ .pane) :
    (without m x).workspaces = m.workspaces
      ∧ (without m x).workspaceOrder = m.workspaceOrder := by
  constructor
  · refine filterMap_self fun k w _ => ?_
    rw [SplitTree.prune_all, map_some]
    intro i _
    rw [stays_eq_true]
    exact ⟨fun hi => hx (by rw [← hi]), emptied_shared honly hy⟩
  · refine filter_eq_self.2 fun k _ => ?_
    rw [emptied_shared honly hy, Bool.not_false]

theorem detachTab_eq (h : WellFormed m) (ht : m.tabs[id]? = some tab)
    (hok : detachTab m id tab.pane = .ok next) :
    next = without m ⟨.tab, id⟩ := by
  have honly := owner_only h (owner_tab ht)
  have htabs : (without m ⟨.tab, id⟩).tabs = m.tabs :=
    without_tabs (Nat.le_refl _)
  unfold detachTab at hok
  split at hok
  · cases hok
  · rename_i pane hpane
    have hcontents := contents_pane hpane
    obtain ⟨pane', hpane', hmem⟩ := h.item_of_tab ht
    rw [hpane] at hpane'
    cases hpane'
    -- the other panes do not list the tab
    have hother : ∀ (k : UInt32) (p : Pane), k ≠ tab.pane →
        m.panes[k]? = some p → p.tabs.filter (stays m ⟨.tab, id⟩ .tab)
          = p.tabs := by
      intro k p hk hp
      exact filter_eq_self.2
        (stays_elsewhere honly (by simp [hk]) (contents_pane hp))
    dsimp only at hok
    split at hok
    · rename_i hempty
      have hfilter := List.isEmpty_iff.1 hempty
      have halone : contents m ⟨.pane, tab.pane⟩ = [⟨.tab, id⟩] := by
        have hperm := perm_cons_filter
          (h.tabs.nodup (view_of_get hpane _)) hmem
        rw [hfilter] at hperm
        rw [hcontents, perm_singleton.1 hperm]
        rfl
      obtain ⟨m₁, hdetach, hok⟩ := bind_ok hok
      cases hok
      obtain ⟨m₀, hpaneOut, rfl⟩ := detachPane_withPanes hdetach
      rw [detachPane_eq h hpane hpaneOut]
      dsimp only
      rw [without_tabs (Nat.le_succ _), erase_insert_self,
        ← without_workspaces_owner honly halone (by simp),
        ← without_workspaceOrder_owner honly halone (by simp)]
      refine eq_without (m := m) rfl rfl ?_ htabs.symm
      · refine erase_eq_filterMap ?_ ?_
        · intro v _
          have hgone : emptied m ⟨.tab, id⟩ ⟨.pane, tab.pane⟩ = true :=
            (emptied_owner honly).2 ⟨halone, .inl rfl⟩
          rw [if_pos hgone]
        · intro k p hk hp
          have hkept : emptied m ⟨.tab, id⟩ ⟨.pane, k⟩ = false := by
            rw [emptied_above_owner honly halone (by simp [hk])]
            exact emptied_eq_false (Nat.le_refl _)
          rw [hkept, if_neg Bool.false_ne_true, hother k p hk hp]
    · rename_i hmore
      cases hok
      have hshared : contents m ⟨.pane, tab.pane⟩ ≠ [⟨.tab, id⟩] := by
        intro hone
        rw [hcontents] at hone
        obtain ⟨i, htabs, hi⟩ := map_eq_singleton_iff.1 hone
        cases hi
        refine hmore ?_
        rw [htabs]
        simp
      obtain ⟨hworkspaces, horder⟩ :=
        without_workspaces_shared honly hshared (by simp)
      refine eq_without (m := m) hworkspaces.symm horder.symm
        (insert_eq_filterMap hpane ?_ ?_) htabs.symm
      · rw [emptied_shared honly hshared, stays_beside,
          if_neg Bool.false_ne_true]
        simp
      · intro k p hk hp
        rw [emptied_shared honly hshared, hother k p hk hp,
          if_neg Bool.false_ne_true]

theorem detachSurface_eq (h : WellFormed m)
    (hok : detachSurface m id = .ok next) :
    next = without m ⟨.surface, id⟩ := by
  unfold detachSurface at hok
  split at hok
  · cases hok
  · rename_i surface hsurface
    have honly := owner_only h (owner_surface hsurface)
    split at hok
    · cases hok
    · rename_i tab htab
      have hnd := h.surfaces.nodup (view_of_get htab _)
      have hcontents := contents_tab htab
      -- the other tabs do not hold the surface
      have hother : ∀ (k : UInt32) (t : Tab), k ≠ surface.tab →
          m.tabs[k]? = some t →
          (prune (stays m ⟨.surface, id⟩ .surface) t.layout).map
            (fun layout => { t with layout }) = some t := by
        intro k t hk ht
        rw [SplitTree.prune_all (stays_elsewhere honly (by simp [hk])
          (contents_tab ht)), map_some]
      split at hok
      · rename_i layout hremove
        cases hok
        have hshared : contents m ⟨.tab, surface.tab⟩
            ≠ [⟨.surface, id⟩] :=
          hcontents ▸ SplitTree.map_ne_singleton hremove
        obtain ⟨hworkspaces, horder⟩ :=
          without_workspaces_shared honly hshared (by simp)
        refine eq_without (m := m) hworkspaces.symm horder.symm ?_
          (insert_eq_filterMap htab ?_ hother)
        · refine (filterMap_self fun k pane _ => ?_).symm
          rw [emptied_shared honly hshared, if_neg Bool.false_ne_true,
            filter_eq_self.2]
          intro i _
          rw [stays_eq_true]
          exact ⟨by simp, emptied_shared honly hshared⟩
        · rw [stays_beside,
            SplitTree.prune_of_removed hnd (fun _ _ => rfl) hremove,
            map_some]
      · rename_i hlast
        obtain ⟨m₁, hdetach, hok⟩ := bind_ok hok
        cases hok
        have hlayout := SplitTree.removeLeaf_lastLeaf.1 hlast
        have halone : contents m ⟨.tab, surface.tab⟩
            = [⟨.surface, id⟩] := by
          rw [hcontents, hlayout]
          rfl
        rw [detachTab_eq h htab hdetach]
        refine eq_without (m := m)
          (without_workspaces_owner honly halone (by simp)).symm
          (without_workspaceOrder_owner honly halone (by simp)).symm ?_ ?_
        · have hstays : stays m ⟨.surface, id⟩ .tab
              = stays m ⟨.tab, surface.tab⟩ .tab :=
            funext fun i => stays_owner honly halone (by simp)
          have habove : ∀ k, emptied m ⟨.surface, id⟩ ⟨.pane, k⟩
              = emptied m ⟨.tab, surface.tab⟩ ⟨.pane, k⟩ :=
            fun k => emptied_above_owner honly halone (by simp)
          unfold without
          simp only [hstays, habove]
        · rw [without_tabs (Nat.le_refl _)]
          refine erase_eq_filterMap ?_ hother
          intro v hv
          rw [htab] at hv
          cases hv
          rw [stays_beside, hlayout]
          simp [prune]
      · cases hok

end Replacement

end Tasty.Core
