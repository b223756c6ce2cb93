/-
A close is exact: what `close_facts` predicts is what `evolve` takes away,
and nothing else changes.

The drop helpers take whole families out (`dropPanes_eq`), the collectors
list the same families (`collectPane_eq`), and a well-formed model keeps
families apart. So each of the four closing events leaves the model without
what was listed (`Pruned`).
-/
import Tasty.Core.Composite
import Tasty.Core.WellFormed
import Tasty.Lib.Pruning

namespace Tasty.Core

open List hiding mem_iff_get

open BTreeMap

open BTreeMap (view view_eq_some view_of_get eraseAll)
open Linked (family)

variable {m m' : JournalModel} {id : UInt32}

-- ==== the families

namespace JournalModel

def panesOf (m : JournalModel) (workspaces : List UInt32) : List UInt32 :=
  family (view (fun w => w.layout.leaves) m.workspaces) workspaces

def tabsOf (m : JournalModel) (panes : List UInt32) : List UInt32 :=
  family (view (fun p => p.tabs) m.panes) panes

def surfacesOf (m : JournalModel) (tabs : List UInt32) : List UInt32 :=
  family (view (fun t => t.layout.leaves) m.tabs) tabs

end JournalModel

theorem surfacesOf_cons (m : JournalModel) (a : UInt32) (l : List UInt32) :
    m.surfacesOf (a :: l) = m.surfacesOf [a] ++ m.surfacesOf l := by
  simp [JournalModel.surfacesOf]

theorem tabsOf_cons (m : JournalModel) (a : UInt32) (l : List UInt32) :
    m.tabsOf (a :: l) = m.tabsOf [a] ++ m.tabsOf l := by
  simp [JournalModel.tabsOf]

theorem surfacesOf_append (m : JournalModel) (l l' : List UInt32) :
    m.surfacesOf (l ++ l') = m.surfacesOf l ++ m.surfacesOf l' :=
  flatMap_append

variable {tab : Tab}

theorem surfacesOf_singleton (h : m.tabs[id]? = some tab) :
    m.surfacesOf [id] = tab.layout.leaves :=
  Linked.family_singleton (view_of_get h _)

variable {pane : Pane}

theorem tabsOf_singleton (h : m.panes[id]? = some pane) :
    m.tabsOf [id] = pane.tabs :=
  Linked.family_singleton (view_of_get h _)

variable {ids : List UInt32}

theorem dropSurfaces_eq {surfaces : BTreeMap UInt32 Surface} (hnd : ids.Nodup)
    (hin : ∀ s ∈ ids, ∃ v, surfaces[s]? = some v) :
    dropSurfaces surfaces ids = .ok (eraseAll surfaces ids) := by
  induction ids generalizing surfaces with
  | nil => rfl
  | cons id ids ih =>
    obtain ⟨hid, hnd⟩ := nodup_cons.1 hnd
    obtain ⟨v, hv⟩ := hin id (.head _)
    unfold dropSurfaces
    rw [get_eq_ok.2 hv, ok_bind]
    refine ih hnd fun s hs => ?_
    obtain ⟨u, hu⟩ := hin s (.tail _ hs)
    refine ⟨u, ?_⟩
    rw [get_erase, if_neg, hu]
    rintro rfl
    exact hid hs

/-- Tabs whose families are there and apart. -/
structure Droppable (m : JournalModel) (ids : List UInt32) : Prop where
  nodup : ids.Nodup
  tabs : ∀ t ∈ ids, ∃ tab, m.tabs[t]? = some tab
  apart : (m.surfacesOf ids).Nodup
  surfaces : ∀ s ∈ m.surfacesOf ids, ∃ v, m.surfaces[s]? = some v

theorem dropTab_eq (htab : m.tabs[id]? = some tab)
    (hnd : tab.layout.leaves.Nodup)
    (hin : ∀ s ∈ tab.layout.leaves, ∃ v, m.surfaces[s]? = some v) :
    dropTab m id = .ok { m with
      tabs := m.tabs.erase id
      surfaces := eraseAll m.surfaces tab.layout.leaves } := by
  unfold dropTab
  rw [get_eq_ok.2 htab, ok_bind, dropSurfaces_eq hnd hin]
  rfl

theorem Droppable.left {ids' : List UInt32}
    (h : Droppable m (ids ++ ids')) : Droppable m ids := by
  have hfam := surfacesOf_append m ids ids'
  refine ⟨(nodup_append.1 h.nodup).1,
    fun t ht => h.tabs t (mem_append_left _ ht), ?_, fun s hs => ?_⟩
  · exact (nodup_append.1 (hfam ▸ h.apart)).1
  · exact h.surfaces s (hfam ▸ mem_append_left _ hs)

theorem Droppable.right {ids' : List UInt32} (h : Droppable m (ids ++ ids')) :
    JournalModel.surfacesOf { m with
        tabs := eraseAll m.tabs ids
        surfaces := eraseAll m.surfaces (m.surfacesOf ids) } ids'
        = m.surfacesOf ids'
      ∧ Droppable { m with
        tabs := eraseAll m.tabs ids
        surfaces := eraseAll m.surfaces (m.surfacesOf ids) } ids' := by
  have hfam := surfacesOf_append m ids ids'
  obtain ⟨-, hnd, hdisj⟩ := nodup_append.1 h.nodup
  obtain ⟨-, hapart, hdisj'⟩ := nodup_append.1 (hfam ▸ h.apart)
  have hkept : ∀ t ∈ ids', (eraseAll m.tabs ids)[t]? = m.tabs[t]? := by
    intro t ht
    rw [get_eraseAll, if_neg]
    exact fun hl => hdisj t hl t ht rfl
  have hsame : JournalModel.surfacesOf { m with
      tabs := eraseAll m.tabs ids
      surfaces := eraseAll m.surfaces (m.surfacesOf ids) } ids'
      = m.surfacesOf ids' := by
    refine Linked.family_congr fun t ht => ?_
    unfold view
    rw [hkept t ht]
  refine ⟨hsame, hnd, fun t ht => ?_, hsame ▸ hapart, ?_⟩
  · obtain ⟨u, hu⟩ := h.tabs t (mem_append_right _ ht)
    exact ⟨u, (hkept t ht).trans hu⟩
  · rw [hsame]
    intro s hs
    obtain ⟨v, hv⟩ := h.surfaces s (hfam ▸ mem_append_right _ hs)
    refine ⟨v, ?_⟩
    rw [get_eraseAll, if_neg, hv]
    exact fun hl => hdisj' s hl s hs rfl

theorem dropTabs_eq (h : Droppable m ids) :
    dropTabs m ids = .ok { m with
      tabs := eraseAll m.tabs ids
      surfaces := eraseAll m.surfaces (m.surfacesOf ids) } := by
  induction ids generalizing m with
  | nil => rfl
  | cons id ids ih =>
    have h : Droppable m ([id] ++ ids) := h
    obtain ⟨tab, htab⟩ := h.tabs id (.head _)
    have hone := surfacesOf_singleton htab
    have hfam := surfacesOf_cons m id ids
    rw [hone] at hfam
    obtain ⟨hsame, hright⟩ := h.right
    rw [hone] at hsame hright
    have hfirst := dropTab_eq htab (hone ▸ h.left.apart)
      (hone ▸ h.left.surfaces)
    unfold dropTabs
    rw [hfirst, ok_bind]
    refine (ih hright).trans ?_
    rw [hfam, eraseAll_append]
    exact congrArg (fun l => Except.ok { m with
      tabs := eraseAll m.tabs (id :: ids)
      surfaces := eraseAll (eraseAll m.surfaces tab.layout.leaves) l }) hsame

theorem dropPane_eq (hpane : m.panes[id]? = some pane)
    (h : Droppable m pane.tabs) :
    dropPane m id = .ok { m with
      panes := m.panes.erase id
      tabs := eraseAll m.tabs pane.tabs
      surfaces := eraseAll m.surfaces (m.surfacesOf pane.tabs) } := by
  have h' : Droppable { m with panes := m.panes.erase id } pane.tabs :=
    ⟨h.nodup, h.tabs, h.apart, h.surfaces⟩
  unfold dropPane
  rw [get_eq_ok.2 hpane, ok_bind, dropTabs_eq h']
  rfl

theorem dropPanes_eq (hnd : ids.Nodup)
    (hin : ∀ p ∈ ids, ∃ pane, m.panes[p]? = some pane)
    (h : Droppable m (m.tabsOf ids)) :
    dropPanes m ids = .ok { m with
      panes := eraseAll m.panes ids
      tabs := eraseAll m.tabs (m.tabsOf ids)
      surfaces := eraseAll m.surfaces (m.surfacesOf (m.tabsOf ids)) } := by
  induction ids generalizing m with
  | nil => rfl
  | cons id ids ih =>
    obtain ⟨hid, hnd⟩ := nodup_cons.1 hnd
    obtain ⟨pane, hpane⟩ := hin id (.head _)
    have hfam := tabsOf_cons m id ids
    rw [tabsOf_singleton hpane] at hfam
    have hfam' := surfacesOf_append m pane.tabs (m.tabsOf ids)
    rw [hfam] at h
    have hkept : ∀ p ∈ ids, (m.panes.erase id)[p]? = m.panes[p]? := by
      intro p hp
      rw [get_erase, if_neg]
      rintro rfl
      exact hid hp
    have htabs : JournalModel.tabsOf { m with
        panes := m.panes.erase id
        tabs := eraseAll m.tabs pane.tabs
        surfaces := eraseAll m.surfaces (m.surfacesOf pane.tabs) } ids
        = m.tabsOf ids := by
      refine Linked.family_congr fun p hp => ?_
      unfold view
      rw [hkept p hp]
    obtain ⟨hsurf, hright⟩ := h.right
    unfold dropPanes
    rw [dropPane_eq hpane h.left, ok_bind, ih hnd]
    · rw [htabs, hfam, hfam', eraseAll_append, eraseAll_append]
      show Except.ok { m with
        panes := _, tabs := _
        surfaces := eraseAll _ (JournalModel.surfacesOf { m with
          tabs := eraseAll m.tabs pane.tabs
          surfaces := eraseAll m.surfaces (m.surfacesOf pane.tabs) }
          (m.tabsOf ids)) } = _
      rw [hsurf]
      rfl
    · intro p hp
      obtain ⟨q, hq⟩ := hin p (.tail _ hp)
      exact ⟨q, (hkept p hp).trans hq⟩
    · rw [htabs]
      exact ⟨hright.nodup, hright.tabs, hright.apart, hright.surfaces⟩

-- ==== the collectors

/-- Entities, kind by kind. -/
def entities (workspaces panes tabs surfaces : List UInt32) :
    List EntityId :=
  workspaces.map (⟨.workspace, ·⟩) ++ panes.map (⟨.pane, ·⟩)
    ++ tabs.map (⟨.tab, ·⟩) ++ surfaces.map (⟨.surface, ·⟩)

/-- A collector that is right for each of some owners is right for all. -/
theorem mapM_collect {f : UInt32 → Option (List EntityId × List UInt32)}
    {E : List UInt32 → List EntityId} {S : List UInt32 → List UInt32}
    (hE : ∀ a l, (E (a :: l)).Perm (E [a] ++ E l)) (hnil : E [] = [])
    (hS : ∀ a l, S (a :: l) = S [a] ++ S l) (hnil' : S [] = [])
    (hf : ∀ id ∈ ids, ∃ removed, f id = some (removed, S [id])
      ∧ removed.Perm (E [id])) :
    ∃ parts, ids.mapM f = some parts ∧ parts.flatMap Prod.snd = S ids
      ∧ (parts.flatMap Prod.fst).Perm (E ids) := by
  induction ids with
  | nil => exact ⟨[], rfl, hnil'.symm, by rw [hnil]; rfl⟩
  | cons id ids ih =>
    obtain ⟨removed, hid, hperm⟩ := hf id (.head _)
    obtain ⟨parts, hparts, hsnd, hfst⟩ :=
      ih fun id hid => hf id (.tail _ hid)
    refine ⟨(removed, S [id]) :: parts, ?_, ?_, ?_⟩
    · rw [mapM_cons, hid, hparts]
      rfl
    · rw [flatMap_cons, hsnd]
      exact (hS id ids).symm
    · rw [flatMap_cons]
      exact (hperm.append hfst).trans (hE id ids).symm

theorem collectTab_eq (h : m.tabs[id]? = some tab) :
    collectTab m id
      = some (⟨.tab, id⟩ :: (m.surfacesOf [id]).map (⟨.surface, ·⟩),
        m.surfacesOf [id]) := by
  unfold collectTab
  rw [h, surfacesOf_singleton h]
  rfl

theorem collectPane_eq (h : m.panes[id]? = some pane)
    (htabs : ∀ t ∈ pane.tabs, ∃ tab, m.tabs[t]? = some tab) :
    ∃ removed,
      collectPane m id = some (removed, m.surfacesOf (m.tabsOf [id]))
      ∧ removed.Perm (entities [] [id] (m.tabsOf [id])
        (m.surfacesOf (m.tabsOf [id]))) := by
  have hcollect : ∀ t ∈ pane.tabs, ∃ removed,
      collectTab m t = some (removed, m.surfacesOf [t])
        ∧ removed.Perm (entities [] [] [t] (m.surfacesOf [t])) := by
    intro t ht
    obtain ⟨tab, htab⟩ := htabs t ht
    exact ⟨_, collectTab_eq htab, by simp [entities]⟩
  have hcons : ∀ a l, (entities [] [] (a :: l) (m.surfacesOf (a :: l))).Perm
      (entities [] [] [a] (m.surfacesOf [a])
        ++ entities [] [] l (m.surfacesOf l)) := by
    intro a l
    rw [perm_iff_count, surfacesOf_cons]
    intro e
    simp only [entities, map_append, map_cons, map_nil,
      count_append, count_cons, count_nil]
    omega
  obtain ⟨parts, hparts, hsnd, hfst⟩ :=
    mapM_collect (E := fun l => entities [] [] l (m.surfacesOf l)) hcons rfl
      (surfacesOf_cons m) rfl hcollect
  refine ⟨⟨.pane, id⟩ :: parts.flatMap Prod.fst, ?_, ?_⟩
  · unfold collectPane
    rw [h]
    show (pane.tabs.mapM (collectTab m) >>= fun parts => _) = _
    rw [hparts, tabsOf_singleton h, ← hsnd]
    rfl
  · rw [tabsOf_singleton h]
    exact (hfst.cons _).trans (by simp [entities])

theorem collectPanes_eq
    (hpanes : ∀ p ∈ ids, ∃ pane, m.panes[p]? = some pane)
    (htabs : ∀ t ∈ m.tabsOf ids, ∃ tab, m.tabs[t]? = some tab) :
    ∃ parts, ids.mapM (collectPane m) = some parts
      ∧ parts.flatMap Prod.snd = m.surfacesOf (m.tabsOf ids)
      ∧ (parts.flatMap Prod.fst).Perm (entities [] ids (m.tabsOf ids)
        (m.surfacesOf (m.tabsOf ids))) := by
  have hcollect : ∀ p ∈ ids, ∃ removed,
      collectPane m p = some (removed, m.surfacesOf (m.tabsOf [p]))
        ∧ removed.Perm (entities [] [p] (m.tabsOf [p])
          (m.surfacesOf (m.tabsOf [p]))) := by
    intro p hp
    obtain ⟨pane, hpane⟩ := hpanes p hp
    refine collectPane_eq hpane fun t ht => htabs t ?_
    exact Linked.mem_family.2 ⟨p, hp, pane.tabs, view_of_get hpane _, ht⟩
  have hsurf : ∀ a l, m.surfacesOf (m.tabsOf (a :: l))
      = m.surfacesOf (m.tabsOf [a]) ++ m.surfacesOf (m.tabsOf l) := by
    intro a l
    rw [tabsOf_cons, surfacesOf_append]
  have hcons : ∀ a l, (entities [] (a :: l) (m.tabsOf (a :: l))
        (m.surfacesOf (m.tabsOf (a :: l)))).Perm
      (entities [] [a] (m.tabsOf [a]) (m.surfacesOf (m.tabsOf [a]))
        ++ entities [] l (m.tabsOf l) (m.surfacesOf (m.tabsOf l))) := by
    intro a l
    rw [perm_iff_count, hsurf, tabsOf_cons]
    intro e
    simp only [entities, map_append, map_cons, map_nil,
      count_append, count_cons, count_nil]
    omega
  exact mapM_collect
    (E := fun l => entities [] l (m.tabsOf l) (m.surfacesOf (m.tabsOf l)))
    (S := fun l => m.surfacesOf (m.tabsOf l)) hcons rfl hsurf rfl hcollect

-- ==== what is left

namespace SplitTree

open CreationAssembly (prune)

variable {gone : UInt32 → Bool} {target : UInt32} {t t' : SplitTree UInt32}

/-- A tree that loses nothing stays as it is. -/
theorem prune_of_none (h : ∀ x ∈ t.leaves, gone x = false) :
    prune (fun x => !gone x) t = some t := by
  induction t with
  | leaf id => simp [prune, h id (.head _)]
  | split d r s u ihs ihu =>
    have hs := ihs fun x hx => h x (mem_append_left _ hx)
    have hu := ihu fun x hx => h x (mem_append_right _ hx)
    simp [prune, hs, hu]

theorem prune_of_removed (hnd : t.leaves.Nodup)
    (hgone : ∀ x ∈ t.leaves, gone x = decide (x = target))
    (h : t.removeLeaf target = .removed t') :
    prune (fun x => !gone x) t = some t' := by
  have hstays : ∀ {u : SplitTree UInt32}, target ∉ u.leaves →
      (∀ x ∈ u.leaves, gone x = decide (x = target)) →
      prune (fun x => !gone x) u = some u := by
    intro u hu hg
    refine prune_of_none fun x hx => ?_
    rw [hg x hx]
    exact decide_eq_false fun hxt => hu (hxt ▸ hx)
  induction t generalizing t' with
  | leaf id =>
    unfold removeLeaf at h
    split at h <;> cases h
  | split d r s u ihs ihu =>
    obtain ⟨hsnd, hund, hdisj⟩ := nodup_append.1 hnd
    have hgs : ∀ x ∈ s.leaves, gone x = decide (x = target) :=
      fun x hx => hgone x (mem_append_left _ hx)
    have hgu : ∀ x ∈ u.leaves, gone x = decide (x = target) :=
      fun x hx => hgone x (mem_append_right _ hx)
    unfold removeLeaf at h
    split at h
    case isTrue hs =>
      cases h
      obtain rfl := isLeaf_iff.1 hs
      have hg : gone target = true := by simpa using hgs target (.head _)
      have hu : target ∉ u.leaves :=
        fun hx => hdisj target (.head _) target hx rfl
      simp [prune, hg, hstays hu hgu]
    case isFalse =>
      split at h
      case isTrue hu =>
        cases h
        obtain rfl := isLeaf_iff.1 hu
        have hg : gone target = true := by simpa using hgu target (.head _)
        have hs : target ∉ s.leaves :=
          fun hx => hdisj target hx target (.head _) rfl
        simp [prune, hg, hstays hs hgs]
      case isFalse =>
        split at h
        case h_1 s' hs =>
          cases h
          have hmem : target ∈ s.leaves :=
            (leaves_removeLeaf hs).mem_iff.2 (.head _)
          have hu : target ∉ u.leaves :=
            fun hx => hdisj target hmem target hx rfl
          simp [prune, ihs hsnd hgs hs, hstays hu hgu]
        case h_2 => cases h
        case h_3 hs =>
          have hs := removeLeaf_notFound.1 hs
          split at h
          case h_1 u' hu =>
            cases h
            simp [prune, ihu hund hgu hu, hstays hs hgs]
          case h_2 => cases h
          case h_3 => cases h

/-- The tree without the leaves that are gone, as long as one stays. -/
def without (gone : UInt32 → Bool) (t : SplitTree UInt32) :
    SplitTree UInt32 :=
  (prune (fun x => !gone x) t).getD t

theorem without_of_none (h : ∀ x ∈ t.leaves, gone x = false) :
    t.without gone = t := by
  rw [without, prune_of_none h]
  rfl

theorem without_of_removed (hnd : t.leaves.Nodup)
    (hgone : ∀ x ∈ t.leaves, gone x = decide (x = target))
    (h : t.removeLeaf target = .removed t') : t.without gone = t' := by
  rw [without, prune_of_removed hnd hgone h]
  rfl

theorem removeLeaf_of_mem (hmem : target ∈ t.leaves)
    (hlong : 1 < t.leaves.length) :
    ∃ t', t.removeLeaf target = .removed t' := by
  cases h : t.removeLeaf target with
  | removed t' => exact ⟨t', rfl⟩
  | notFound => exact absurd hmem (removeLeaf_notFound.1 h)
  | lastLeaf =>
    rw [removeLeaf_lastLeaf.1 h] at hlong
    exact absurd hlong (Nat.lt_irrefl 1)

end SplitTree

/-- The workspace without the panes that are gone. -/
def Workspace.cut (gone : UInt32 → Bool) (w : Workspace) : Workspace :=
  { w with layout := w.layout.without gone }

/-- The pane without the tabs that are gone. -/
def Pane.cut (gone : UInt32 → Bool) (p : Pane) : Pane :=
  { p with tabs := p.tabs.filter fun t => !gone t }

/-- The tab without the surfaces that are gone. -/
def Tab.cut (gone : UInt32 → Bool) (t : Tab) : Tab :=
  { t with layout := t.layout.without gone }

theorem Workspace.cut_of_none {gone : UInt32 → Bool} {w : Workspace}
    (h : ∀ p ∈ w.layout.leaves, gone p = false) : w.cut gone = w := by
  rw [Workspace.cut, SplitTree.without_of_none h]

theorem Pane.cut_of_none {gone : UInt32 → Bool} {p : Pane}
    (h : ∀ t ∈ p.tabs, gone t = false) : p.cut gone = p := by
  have hall : p.tabs.filter (fun t => !gone t) = p.tabs :=
    filter_eq_self.2 fun t ht => by rw [h t ht]; rfl
  rw [Pane.cut, hall]

theorem Tab.cut_of_none {gone : UInt32 → Bool} {t : Tab}
    (h : ∀ s ∈ t.layout.leaves, gone s = false) : t.cut gone = t := by
  rw [Tab.cut, SplitTree.without_of_none h]

/-- The entity is there. -/
def JournalModel.Has (m : JournalModel) (e : EntityId) : Prop :=
  match e.kind with
  | .category => e.id ∈ m.categories
  | .workspace => e.id ∈ m.workspaces
  | .pane => e.id ∈ m.panes
  | .tab => e.id ∈ m.tabs
  | .surface => e.id ∈ m.surfaces

/-- The model without what is gone. What stays keeps all it had, but for
its place in what it was cut from. -/
structure Pruned (m : JournalModel) (gone : EntityId → Bool)
    (m' : JournalModel) : Prop where
  workspaces : ∀ id, m'.workspaces[id]?
    = if gone ⟨.workspace, id⟩ then none
      else (m.workspaces[id]?).map (.cut fun p => gone ⟨.pane, p⟩)
  order : m'.workspaceOrder
    = m.workspaceOrder.filter fun w => !gone ⟨.workspace, w⟩
  panes : ∀ id, m'.panes[id]?
    = if gone ⟨.pane, id⟩ then none
      else (m.panes[id]?).map (.cut fun t => gone ⟨.tab, t⟩)
  tabs : ∀ id, m'.tabs[id]?
    = if gone ⟨.tab, id⟩ then none
      else (m.tabs[id]?).map (.cut fun s => gone ⟨.surface, s⟩)
  surfaces : ∀ id, m'.surfaces[id]?
    = if gone ⟨.surface, id⟩ then none else m.surfaces[id]?
  rest : m' = { m with
    applied := m'.applied
    workspaces := m'.workspaces
    workspaceOrder := m'.workspaceOrder
    panes := m'.panes
    tabs := m'.tabs
    surfaces := m'.surfaces }

theorem Pruned.gone {removed : List EntityId}
    (h : Pruned m (fun e => decide (e ∈ removed)) m')
    (hin : ∀ e ∈ removed, m.Has e)
    (hkind : ∀ e ∈ removed, e.kind ≠ .category) (e : EntityId) :
    e ∈ removed ↔ m.Has e ∧ ¬ m'.Has e := by
  obtain ⟨kind, id⟩ := e
  have hmem := hin ⟨kind, id⟩
  cases kind with
  | category =>
    have hsame : m'.categories = m.categories := by rw [h.rest]
    unfold JournalModel.Has
    dsimp only
    rw [hsame]
    exact ⟨fun hr => absurd rfl (hkind _ hr), fun hm => absurd hm.1 hm.2⟩
  | workspace => exact gone_of_get (h.workspaces id) hmem
  | pane => exact gone_of_get (h.panes id) hmem
  | tab => exact gone_of_get (h.tabs id) hmem
  | surface =>
    refine @BTreeMap.gone_of_get _ _ _ _ _ _ _ _ _ (fun s => s) ?_ hmem
    rw [h.surfaces id]
    simp

-- ==== under a target

namespace JournalModel

/-- The surfaces under a target. -/
def surfacesUnder (m : JournalModel) : CloseTarget → List UInt32
  | .surface id => [id]
  | .tab id => m.surfacesOf [id]
  | .pane id => m.surfacesOf (m.tabsOf [id])
  | .workspace id => m.surfacesOf (m.tabsOf (m.panesOf [id]))

/-- A target with everything under it. -/
def under (m : JournalModel) : CloseTarget → List EntityId
  | .surface id => entities [] [] [] [id]
  | .tab id => entities [] [] [id] (m.surfacesOf [id])
  | .pane id => entities [] [id] (m.tabsOf [id])
      (m.surfacesOf (m.tabsOf [id]))
  | .workspace id => entities [id] (m.panesOf [id])
      (m.tabsOf (m.panesOf [id])) (m.surfacesOf (m.tabsOf (m.panesOf [id])))

end JournalModel

section Entities

variable {W P T S : List UInt32}

@[simp] theorem mem_entities_workspace :
    ⟨.workspace, id⟩ ∈ entities W P T S ↔ id ∈ W := by
  simp [entities]

@[simp] theorem mem_entities_pane :
    ⟨.pane, id⟩ ∈ entities W P T S ↔ id ∈ P := by
  simp [entities]

@[simp] theorem mem_entities_tab : ⟨.tab, id⟩ ∈ entities W P T S ↔ id ∈ T := by
  simp [entities]

@[simp] theorem mem_entities_surface :
    ⟨.surface, id⟩ ∈ entities W P T S ↔ id ∈ S := by
  simp [entities]

theorem not_mem_entities_category : ⟨.category, id⟩ ∉ entities W P T S := by
  simp [entities]

theorem nodup_entities (hW : W.Nodup) (hP : P.Nodup) (hT : T.Nodup)
    (hS : S.Nodup) : (entities W P T S).Nodup := by
  have hmap : ∀ {kind : IdKind} {l : List UInt32}, l.Nodup →
      (l.map (EntityId.mk kind)).Nodup :=
    fun hl => hl.map fun a b hab => (EntityId.mk.inj hab).2
  have hapart : ∀ {kind : IdKind} {l : List UInt32} {es : List EntityId},
      es.Nodup → l.Nodup → (∀ e ∈ es, e.kind ≠ kind) →
      (es ++ l.map (EntityId.mk kind)).Nodup := by
    intro kind l es hes hl hne
    refine nodup_append.2 ⟨hes, hmap hl, ?_⟩
    rintro e he _ hm rfl
    obtain ⟨_, _, rfl⟩ := mem_map.1 hm
    exact hne _ he rfl
  unfold entities
  refine hapart (hapart (hapart (hmap hW) hP ?_) hT ?_) hS ?_
  · intro e he
    obtain ⟨_, _, rfl⟩ := mem_map.1 he
    simp
  · intro e he
    rcases mem_append.1 he with he | he
    all_goals
      obtain ⟨_, _, rfl⟩ := mem_map.1 he
      simp
  · intro e he
    simp only [mem_append] at he
    rcases he with (he | he) | he
    all_goals
      obtain ⟨_, _, rfl⟩ := mem_map.1 he
      simp

theorem Pruned.of_lists (hw : ∀ id, m'.workspaces[id]? = if id ∈ W then none
      else (m.workspaces[id]?).map (.cut fun p => decide (p ∈ P)))
    (ho : m'.workspaceOrder = m.workspaceOrder.filter fun w => !decide (w ∈ W))
    (hp : ∀ id, m'.panes[id]? = if id ∈ P then none
      else (m.panes[id]?).map (.cut fun t => decide (t ∈ T)))
    (ht : ∀ id, m'.tabs[id]? = if id ∈ T then none
      else (m.tabs[id]?).map (.cut fun s => decide (s ∈ S)))
    (hs : ∀ id, m'.surfaces[id]? = if id ∈ S then none
      else m.surfaces[id]?) (hrest : m' = { m with
      applied := m'.applied
      workspaces := m'.workspaces
      workspaceOrder := m'.workspaceOrder
      panes := m'.panes
      tabs := m'.tabs
      surfaces := m'.surfaces }) :
    Pruned m (fun e => decide (e ∈ entities W P T S)) m' where
  workspaces id := by simpa using hw id
  order := by simpa using ho
  panes id := by simpa using hp id
  tabs id := by simpa using ht id
  surfaces id := by simpa using hs id
  rest := hrest

end Entities

-- ==== well-formed

namespace WellFormed

variable {ids : List UInt32}

variable (h : WellFormed m)

include h

theorem panesOf_in {p : UInt32} (hp : p ∈ m.panesOf ids) :
    ∃ pane, m.panes[p]? = some pane := by
  obtain ⟨id, -, l, hl, hpl⟩ := Linked.mem_family.1 hp
  obtain ⟨w, hw, rfl⟩ := view_eq_some.1 hl
  obtain ⟨pane, hpane, -⟩ := h.pane_of_leaf hw hpl
  exact ⟨pane, hpane⟩

theorem tabsOf_in {t : UInt32} (ht : t ∈ m.tabsOf ids) :
    ∃ tab, m.tabs[t]? = some tab := by
  obtain ⟨id, -, l, hl, htl⟩ := Linked.mem_family.1 ht
  obtain ⟨pane, hpane, rfl⟩ := view_eq_some.1 hl
  obtain ⟨tab, htab, -⟩ := h.tab_of_item hpane htl
  exact ⟨tab, htab⟩

theorem surfacesOf_in {s : UInt32}
    (hs : s ∈ m.surfacesOf ids) : ∃ v, m.surfaces[s]? = some v := by
  obtain ⟨id, -, l, hl, hsl⟩ := Linked.mem_family.1 hs
  obtain ⟨tab, htab, rfl⟩ := view_eq_some.1 hl
  obtain ⟨v, hv, -⟩ := h.surface_of_leaf htab hsl
  exact ⟨v, hv⟩

theorem panesOf_nodup (hnd : ids.Nodup) :
    (m.panesOf ids).Nodup := h.panes.nodup_family hnd

theorem tabsOf_nodup (hnd : ids.Nodup) :
    (m.tabsOf ids).Nodup := h.tabs.nodup_family hnd

theorem surfacesOf_nodup (hnd : ids.Nodup) :
    (m.surfacesOf ids).Nodup := h.surfaces.nodup_family hnd

theorem droppable (hnd : ids.Nodup)
    (hin : ∀ t ∈ ids, ∃ tab, m.tabs[t]? = some tab) : Droppable m ids :=
  ⟨hnd, hin, h.surfacesOf_nodup hnd, fun _ hs => h.surfacesOf_in hs⟩

theorem workspace_spared {w : Workspace}
    (hw : m.workspaces[id]? = some w) (hid : id ∉ ids) :
    w.cut (fun p => decide (p ∈ m.panesOf ids)) = w :=
  Workspace.cut_of_none fun _ hp =>
    decide_eq_false (h.panes.spared hid (view_of_get hw _) hp)

theorem pane_spared {p : Pane} (hp : m.panes[id]? = some p) (hid : id ∉ ids) :
    p.cut (fun t => decide (t ∈ m.tabsOf ids)) = p :=
  Pane.cut_of_none fun _ ht =>
    decide_eq_false (h.tabs.spared hid (view_of_get hp _) ht)

theorem tab_spared {t : Tab} (ht : m.tabs[id]? = some t) (hid : id ∉ ids) :
    t.cut (fun s => decide (s ∈ m.surfacesOf ids)) = t :=
  Tab.cut_of_none fun _ hs =>
    decide_eq_false (h.surfaces.spared hid (view_of_get ht _) hs)

/-- What is under a target is listed once. -/
theorem under_nodup (target : CloseTarget) : (m.under target).Nodup := by
  have hone : ∀ id : UInt32, [id].Nodup := nodup_singleton
  cases target with
  | surface id => exact nodup_entities .nil .nil .nil (hone id)
  | tab id =>
    exact nodup_entities .nil .nil (hone id) (h.surfacesOf_nodup (hone id))
  | pane id =>
    have htabs := h.tabsOf_nodup (hone id)
    exact nodup_entities .nil (hone id) htabs (h.surfacesOf_nodup htabs)
  | workspace id =>
    have hpanes := h.panesOf_nodup (hone id)
    have htabs := h.tabsOf_nodup hpanes
    exact nodup_entities (hone id) hpanes htabs (h.surfacesOf_nodup htabs)

theorem surfacesUnder_nodup (target : CloseTarget) :
    (m.surfacesUnder target).Nodup := by
  have hone : ∀ id : UInt32, [id].Nodup := nodup_singleton
  cases target with
  | surface id => exact hone id
  | tab id => exact h.surfacesOf_nodup (hone id)
  | pane id => exact h.surfacesOf_nodup (h.tabsOf_nodup (hone id))
  | workspace id =>
    exact h.surfacesOf_nodup (h.tabsOf_nodup (h.panesOf_nodup (hone id)))

omit h

theorem mem_surfacesUnder (target : CloseTarget) :
    id ∈ m.surfacesUnder target ↔ ⟨.surface, id⟩ ∈ m.under target := by
  cases target <;> simp [JournalModel.surfacesUnder, JournalModel.under]

theorem under_has (h : WellFormed m) {target : CloseTarget}
    (hc : m.Closable target) : ∀ e ∈ m.under target, m.Has e := by
  have hpanes : ∀ {ids p}, p ∈ m.panesOf ids → m.Has ⟨.pane, p⟩ :=
    fun hp => (mem_iff_get ..).2 (h.panesOf_in hp)
  have htabs : ∀ {ids t}, t ∈ m.tabsOf ids → m.Has ⟨.tab, t⟩ :=
    fun ht => (mem_iff_get ..).2 (h.tabsOf_in ht)
  have hsurfaces : ∀ {ids s}, s ∈ m.surfacesOf ids → m.Has ⟨.surface, s⟩ :=
    fun hs => (mem_iff_get ..).2 (h.surfacesOf_in hs)
  intro e he
  cases target with
  | surface id =>
    obtain ⟨owner, tab, htab, hid, -⟩ := hc
    obtain ⟨v, hv, -⟩ := h.surface_of_leaf htab hid
    cases mem_singleton.1 he
    exact (mem_iff_get ..).2 ⟨v, hv⟩
  | tab id =>
    obtain ⟨owner, pane, hpane, hid, -⟩ := hc
    obtain ⟨tab, htab, -⟩ := h.tab_of_item hpane hid
    simp only [JournalModel.under, entities, map_nil, nil_append,
      map_cons, mem_append, mem_singleton, mem_map] at he
    rcases he with rfl | ⟨s, hs, rfl⟩
    · exact (mem_iff_get ..).2 ⟨tab, htab⟩
    · exact hsurfaces hs
  | pane id =>
    obtain ⟨owner, w, hw, hid, -⟩ := hc
    obtain ⟨pane, hpane, -⟩ := h.pane_of_leaf hw hid
    simp only [JournalModel.under, entities, map_nil, nil_append,
      map_cons, mem_append, mem_singleton, mem_map] at he
    rcases he with (rfl | ⟨t, ht, rfl⟩) | ⟨s, hs, rfl⟩
    · exact (mem_iff_get ..).2 ⟨pane, hpane⟩
    · exact htabs ht
    · exact hsurfaces hs
  | workspace id =>
    simp only [JournalModel.under, entities, map_nil, map_cons,
      mem_append, mem_singleton, mem_map] at he
    rcases he with ((rfl | ⟨p, hp, rfl⟩) | ⟨t, ht, rfl⟩) | ⟨s, hs, rfl⟩
    · exact hc
    · exact hpanes hp
    · exact htabs ht
    · exact hsurfaces hs

end WellFormed

-- ==== what evolve takes

/-- What a closing event leaves. -/
structure Taken (m : JournalModel) (target : CloseTarget)
    (m' : JournalModel) : Prop where
  pruned : Pruned m (fun e => decide (e ∈ m.under target)) m'
  stocked : Stocked m'

theorem stocked_eraseAll (hs : Stocked m)
    (hp : m'.panes = eraseAll m.panes ids) : Stocked m' := by
  intro id p h
  rw [hp, get_eraseAll] at h
  split at h
  · cases h
  · exact hs h

variable (h : WellFormed m)

include h

theorem closeWorkspace_taken (hs : Stocked m)
    (hc : m.Closable (.workspace id)) :
    ∃ m', closeWorkspace m id = .ok m' ∧ Taken m (.workspace id) m' := by
  obtain ⟨w, hw⟩ := (mem_iff_get ..).1 hc
  have hpanes : m.panesOf [id] = w.layout.leaves :=
    Linked.family_singleton (view_of_get hw _)
  have hnd := h.panesOf_nodup (nodup_singleton id)
  have htabs := h.droppable (h.tabsOf_nodup hnd) fun _ => h.tabsOf_in
  have hclose : closeWorkspace m id = .ok { m with
      workspaces := m.workspaces.erase id
      workspaceOrder := m.workspaceOrder.filter (· ≠ id)
      panes := eraseAll m.panes (m.panesOf [id])
      tabs := eraseAll m.tabs (m.tabsOf (m.panesOf [id]))
      surfaces := eraseAll m.surfaces
        (m.surfacesOf (m.tabsOf (m.panesOf [id]))) } := by
    unfold closeWorkspace
    rw [get_eq_ok.2 hw, ok_bind, ← hpanes]
    exact dropPanes_eq hnd (fun _ => h.panesOf_in)
      ⟨htabs.nodup, htabs.tabs, htabs.apart, htabs.surfaces⟩
  refine ⟨_, hclose, .of_lists ?_ ?_ ?_ ?_ ?_ rfl, stocked_eraseAll hs rfl⟩
  · exact @BTreeMap.get_eraseAll_map _ _ _ _ _ _ m.workspaces [id] _
      fun _ _ hw hid => h.workspace_spared hw hid
  · simp
  · exact get_eraseAll_map fun _ _ hp hid => h.pane_spared hp hid
  · exact get_eraseAll_map fun _ _ ht hid => h.tab_spared ht hid
  · exact get_eraseAll _ _

/-- A pane goes from the one layout that has it. -/
theorem closePane_taken (hs : Stocked m) (hc : m.Closable (.pane id)) :
    ∃ m', closePane m id = .ok m' ∧ Taken m (.pane id) m' := by
  obtain ⟨owner, w, hw, hid, hlong⟩ := hc
  obtain ⟨pane, hpane, rfl⟩ := h.pane_of_leaf hw hid
  obtain ⟨layout, hlayout⟩ := SplitTree.removeLeaf_of_mem hid hlong
  have hcut : w.cut (fun p => decide (p ∈ [id])) = { w with layout } := by
    rw [Workspace.cut, SplitTree.without_of_removed
      (h.panes.nodup (view_of_get hw _)) (fun p _ => by simp) hlayout]
  have htabs := tabsOf_singleton hpane
  have hnd := h.tabsOf_nodup (nodup_singleton id)
  have hdrop := h.droppable hnd fun _ => h.tabsOf_in
  rw [htabs] at hdrop
  have hclose : closePane m id = .ok { m with
      workspaces := m.workspaces.insert pane.workspace { w with layout }
      panes := m.panes.erase id
      tabs := eraseAll m.tabs pane.tabs
      surfaces := eraseAll m.surfaces (m.surfacesOf pane.tabs) } := by
    unfold closePane detachPane
    rw [get_eq_ok.2 hpane, ok_bind, get_eq_ok.2 hw, ok_bind, hlayout]
    exact dropPane_eq hpane
      ⟨hdrop.nodup, hdrop.tabs, hdrop.apart, hdrop.surfaces⟩
  refine ⟨_, hclose, .of_lists ?_ ?_ ?_ ?_ ?_ rfl,
    @stocked_eraseAll m _ [id] hs rfl⟩
  · rw [← hcut]
    refine get_insert_map hw fun a v hv hne => ?_
    refine Workspace.cut_of_none fun p hp => decide_eq_false ?_
    rw [mem_singleton]
    rintro rfl
    exact hne (h.panes.parent_unique (view_of_get hv _) hp
      (view_of_get hw _) hid)
  · simp
  · exact @BTreeMap.get_eraseAll_map _ _ _ _ _ _ m.panes [id] _
      fun _ _ hp hid => h.pane_spared hp hid
  · rw [← htabs]
    exact get_eraseAll_map fun _ _ ht hid => h.tab_spared ht hid
  · rw [← htabs]
    exact get_eraseAll _ _

/-- A tab goes from the one list that has it. -/
theorem closeTab_taken (hs : Stocked m) (hc : m.Closable (.tab id)) :
    ∃ m', closeTab m id = .ok m' ∧ Taken m (.tab id) m' := by
  obtain ⟨owner, pane, hpane, hid, hlong⟩ := hc
  obtain ⟨tab, htab, rfl⟩ := h.tab_of_item hpane hid
  have hcut : pane.cut (fun t => decide (t ∈ [id]))
      = { pane with tabs := pane.tabs.filter (· ≠ id) } := by
    simp [Pane.cut]
  have hsurfaces := surfacesOf_singleton htab
  have hnd := h.surfacesOf_nodup (nodup_singleton id)
  have hin : ∀ s ∈ m.surfacesOf [id], ∃ v, m.surfaces[s]? = some v :=
    fun _ => h.surfacesOf_in
  rw [hsurfaces] at hnd hin
  have hclose : closeTab m id = .ok { m with
      panes := m.panes.insert tab.pane
        { pane with tabs := pane.tabs.filter (· ≠ id) }
      tabs := m.tabs.erase id
      surfaces := eraseAll m.surfaces tab.layout.leaves } := by
    unfold closeTab modify
    rw [get_eq_ok.2 htab, ok_bind, get_eq_ok.2 hpane]
    exact dropTab_eq htab hnd hin
  refine ⟨_, hclose, .of_lists ?_ ?_ ?_ ?_ ?_ rfl,
    closeTab_stocked h hs hpane hid hlong hclose⟩
  · exact fun _ => get_map_same
      fun _ _ => Workspace.cut_of_none fun _ _ => rfl
  · simp
  · rw [← hcut]
    refine get_insert_map hpane fun a v hv hne => ?_
    refine Pane.cut_of_none fun t ht => decide_eq_false ?_
    rw [mem_singleton]
    rintro rfl
    exact hne (h.tabs.parent_unique (view_of_get hv _) ht
      (view_of_get hpane _) hid)
  · exact @BTreeMap.get_eraseAll_map _ _ _ _ _ _ m.tabs [id] _
      fun _ _ ht hid => h.tab_spared ht hid
  · rw [hsurfaces]
    exact get_eraseAll _ _

/-- A surface goes from the one layout that has it. -/
theorem closeSurface_taken (hs : Stocked m) (hc : m.Closable (.surface id)) :
    ∃ m', closeSurface m id = .ok m' ∧ Taken m (.surface id) m' := by
  obtain ⟨owner, tab, htab, hid, hlong⟩ := hc
  obtain ⟨surface, hsurface, rfl⟩ := h.surface_of_leaf htab hid
  obtain ⟨layout, hlayout⟩ := SplitTree.removeLeaf_of_mem hid hlong
  have hcut : tab.cut (fun s => decide (s ∈ [id])) = { tab with layout } := by
    rw [Tab.cut, SplitTree.without_of_removed
      (h.surfaces.nodup (view_of_get htab _)) (fun p _ => by simp) hlayout]
  have hclose : closeSurface m id = .ok { m with
      tabs := m.tabs.insert surface.tab { tab with layout }
      surfaces := m.surfaces.erase id } := by
    unfold closeSurface detachSurface
    rw [get_eq_ok.2 hsurface, ok_bind, get_eq_ok.2 htab, ok_bind, hlayout]
    rfl
  refine ⟨_, hclose, .of_lists ?_ ?_ ?_ ?_ ?_ rfl, hs⟩
  · exact fun _ => get_map_same
      fun _ _ => Workspace.cut_of_none fun _ _ => rfl
  · simp
  · exact fun _ => get_map_same
      fun _ _ => Pane.cut_of_none fun _ _ => rfl
  · rw [← hcut]
    refine get_insert_map htab fun a v hv hne => ?_
    refine Tab.cut_of_none fun s hs => decide_eq_false ?_
    rw [mem_singleton]
    rintro rfl
    exact hne (h.surfaces.parent_unique (view_of_get hv _) hs
      (view_of_get htab _) hid)
  · exact get_eraseAll m.surfaces [id]

/-- The closing event is accepted and takes what is under its target. -/
theorem apply_closing (hs : Stocked m)
    {target : CloseTarget} (hc : m.Closable target) :
    ∃ m', apply m target.closing = .ok m' ∧ Taken m target m' := by
  cases target with
  | surface id => exact closeSurface_taken h hs hc
  | tab id => exact closeTab_taken h hs hc
  | pane id => exact closePane_taken h hs hc
  | workspace id => exact closeWorkspace_taken h hs hc

-- ==== what was predicted

/-- What is predicted is the closing event of the real target and what is
under it. -/
theorem closeFacts_eq {target actual : CloseTarget}
    (hactual : closeActual m target = some actual) :
    ∃ removed, closeFacts m target
        = some (actual.closing, removed, m.surfacesUnder actual)
      ∧ removed.Perm (m.under actual) := by
  have hc := closeActual_closable hactual
  unfold closeFacts
  rw [hactual, Option.bind_eq_bind, Option.bind_some]
  cases actual with
  | surface id => exact ⟨_, rfl, .refl _⟩
  | tab id =>
    obtain ⟨owner, pane, hpane, hid, -⟩ := hc
    obtain ⟨tab, htab, -⟩ := h.tab_of_item hpane hid
    refine ⟨⟨.tab, id⟩ :: (m.surfacesOf [id]).map (⟨.surface, ·⟩), ?_,
      by simp [JournalModel.under, entities]⟩
    dsimp only
    rw [collectTab_eq htab]
    rfl
  | pane id =>
    obtain ⟨owner, w, hw, hid, -⟩ := hc
    obtain ⟨pane, hpane, -⟩ := h.pane_of_leaf hw hid
    obtain ⟨removed, hcollect, hperm⟩ := collectPane_eq hpane fun t ht => by
      obtain ⟨tab, htab, -⟩ := h.tab_of_item hpane ht
      exact ⟨tab, htab⟩
    refine ⟨removed, ?_, hperm⟩
    dsimp only
    rw [hcollect]
    rfl
  | workspace id =>
    obtain ⟨w, hw⟩ := (mem_iff_get ..).1 hc
    have hpanes : m.panesOf [id] = w.layout.leaves :=
      Linked.family_singleton (view_of_get hw _)
    obtain ⟨parts, hparts, hsnd, hfst⟩ :=
      @collectPanes_eq m (m.panesOf [id]) (fun _ => h.panesOf_in)
        fun _ => h.tabsOf_in
    refine ⟨⟨.workspace, id⟩ :: parts.flatMap Prod.fst, ?_, ?_⟩
    · dsimp only
      rw [hw, Option.bind_eq_bind, Option.bind_some, ← hpanes, hparts]
      exact congrArg (fun l => some (DomainEvent.workspaceClosed id,
        ⟨.workspace, id⟩ :: parts.flatMap Prod.fst, l)) hsnd
    · exact (hfst.cons _).trans (by simp [JournalModel.under, entities])

omit h

/-- What cannot be closed: what is not there, the only tab of a pane and
the only pane of a workspace. -/
def Refused (m : JournalModel) : CloseTarget → Prop
  | .surface id => id ∉ m.surfaces
  | .tab id => id ∉ m.tabs
      ∨ ∃ (owner : UInt32) (pane : Pane),
        m.panes[owner]? = some pane ∧ pane.tabs = [id]
  | .pane id => id ∉ m.panes
      ∨ ∃ (owner : UInt32) (w : Workspace),
        m.workspaces[owner]? = some w ∧ w.layout.leaves = [id]
  | .workspace id => id ∉ m.workspaces

theorem findEntry_of_mem {V : Type} {map : BTreeMap UInt32 V}
    {owner : UInt32} {v : V} (children : V → List UInt32)
    (hv : map[owner]? = some v) (hid : id ∈ children v) :
    ∃ owner' v', findEntry map (fun v => (children v).contains id)
        = some (owner', v') ∧ map[owner']? = some v' ∧ id ∈ children v' := by
  cases hfound : findEntry map fun v => (children v).contains id with
  | none =>
    have hnone := findEntry_none.1 hfound owner v hv
    rw [contains_iff_mem.2 hid] at hnone
    cases hnone
  | some e =>
    obtain ⟨hget, hmem⟩ := findEntry_some hfound
    exact ⟨e.1, e.2, rfl, hget, contains_iff_mem.1 hmem⟩

theorem refused_iff {V : Type} {map : BTreeMap UInt32 V}
    {children : V → List UInt32} {up : UInt32 → Option UInt32}
    (hl : Linked (BTreeMap.view children map) up []) {t : CloseTarget} :
    ((findEntry map fun v => (children v).contains id).bind
        fun e => if (children e.2).length ≤ 1 then none else some t) = none
      ↔ up id = none ∨ ∃ (owner : UInt32) (v : V),
        map[owner]? = some v ∧ children v = [id] := by
  cases hfound : findEntry map fun v => (children v).contains id with
  | none =>
    have hnone := findEntry_none.1 hfound
    refine ⟨fun _ => .inl ?_, fun _ => rfl⟩
    cases hup : up id with
    | none => rfl
    | some owner =>
      obtain ⟨l, hlist, hid⟩ := hl.listed hup not_mem_nil
      obtain ⟨v, hv, rfl⟩ := view_eq_some.1 hlist
      have hmiss := hnone owner v hv
      rw [contains_iff_mem.2 hid] at hmiss
      cases hmiss
  | some e =>
    obtain ⟨hget, hmem⟩ := findEntry_some hfound
    have hid := contains_iff_mem.1 hmem
    rw [Option.bind_some, ite_eq_left_iff]
    constructor
    · intro hshort
      have hshort : (children e.2).length ≤ 1 := by
        by_contra hlong
        cases hshort hlong
      refine .inr ⟨e.1, e.2, hget, ?_⟩
      obtain ⟨x, hx⟩ := length_eq_one_iff.1
        (Nat.le_antisymm hshort (length_pos_of_mem hid))
      rw [hx, mem_singleton] at hid
      rw [hx, hid]
    · rintro (hup | ⟨owner, v, hv, hlone⟩) hlong
      · rw [hl.down (view_of_get hget _) hid] at hup
        cases hup
      · have hown := hl.parent_unique (view_of_get hget _) hid
          (view_of_get hv _) (hlone ▸ mem_singleton_self id)
        rw [← hown, hget] at hv
        cases hv
        rw [hlone] at hlong
        exact absurd (Nat.le_refl 1) hlong

/-- Nothing is predicted exactly for what cannot be closed. -/
theorem closeActual_none (h : WellFormed m) {target : CloseTarget} :
    closeActual m target = none ↔ Refused m target := by
  cases target with
  | tab id =>
    refine (refused_iff h.tabs).trans ?_
    rw [view_eq_none, ← not_mem_iff_get]
    rfl
  | pane id =>
    refine (refused_iff h.panes).trans ?_
    rw [view_eq_none, ← not_mem_iff_get]
    rfl
  | workspace id =>
    refine Iff.trans ?_ (not_mem_iff_get ..).symm
    unfold closeActual
    cases hw : m.workspaces[id]? <;> simp [hw]
  | surface id =>
    constructor
    · intro hnone hid
      obtain ⟨surface, hsurface⟩ := (mem_iff_get ..).1 hid
      obtain ⟨_, htab, hs⟩ := h.leaf_of_surface hsurface
      obtain ⟨tabId, tab, hfound, htab, -⟩ :=
        findEntry_of_mem (fun t : Tab => t.layout.leaves) htab hs
      obtain ⟨_, hpane, ht⟩ := h.item_of_tab htab
      obtain ⟨paneId, pane, hfound', hpane, -⟩ :=
        findEntry_of_mem (fun p : Pane => p.tabs) hpane ht
      obtain ⟨_, hw, hp⟩ := h.leaf_of_pane hpane
      obtain ⟨owner, w, hfound'', -, -⟩ :=
        findEntry_of_mem (fun w : Workspace => w.layout.leaves) hw hp
      unfold closeActual tabParent paneParent at hnone
      dsimp only at hnone
      rw [hfound, Option.bind_eq_bind, Option.bind_some] at hnone
      dsimp only at hnone
      rw [hfound', Option.bind_eq_bind, Option.bind_some] at hnone
      dsimp only at hnone
      rw [hfound'', Option.bind_eq_bind, Option.bind_some] at hnone
      dsimp only at hnone
      split at hnone
      · cases hnone
      · split at hnone
        · cases hnone
        · split at hnone <;> cases hnone
    · intro hid
      cases hfound : findEntry m.tabs
          fun tab => tab.layout.leaves.contains id with
      | none =>
        unfold closeActual
        dsimp only
        rw [hfound]
        rfl
      | some e =>
        obtain ⟨htab, hmem⟩ := findEntry_some hfound
        obtain ⟨v, hv, -⟩ :=
          h.surface_of_leaf htab (contains_iff_mem.1 hmem)
        exact absurd ((mem_iff_get ..).2 ⟨v, hv⟩) hid

-- ==== one batch

/-- The next batch of a model, with one event. -/
def JournalModel.nextBatch (m : JournalModel) (batchId : BatchId)
    (event : DomainEvent) : DomainBatch where
  batchId := batchId
  events := [⟨m.applied.revision.getD 0 + 1, event⟩]

theorem evolve_nextBatch {batchId : BatchId} {event : DomainEvent}
    (hnew : ∀ last ∈ m.applied.batch, last < batchId)
    (happly : apply m event = .ok m') :
    evolve m (m.nextBatch batchId event) = .ok { m' with
      applied := ⟨some batchId, some (m.applied.revision.getD 0 + 1)⟩ } := by
  have hcheck : checkBatch m batchId = .ok () := by
    unfold checkBatch
    split
    · rename_i last hlast
      exact if_neg (UInt64.not_le.2 (hnew last hlast))
    · rfl
  unfold evolve evolveOwned JournalModel.nextBatch
  dsimp only
  rw [hcheck, ok_bind, if_neg (by simp)]
  unfold applyRecordedAll applyRecorded applyRecordedAll
  dsimp only
  rw [if_neg (by simp), happly]
  rfl

/-- The numbers of the batch are no part of what is pruned. -/
theorem Pruned.applied {gone : EntityId → Bool} (h : Pruned m gone m')
    (applied : Applied) : Pruned m gone { m' with applied } where
  workspaces := h.workspaces
  order := h.order
  panes := h.panes
  tabs := h.tabs
  surfaces := h.surfaces
  rest := congrArg (fun x => { x with applied }) h.rest

/-- The prediction is right in every respect: what is listed is what goes,
each once, the surfaces among it are the ones listed as such, the rest stays
as it was, and every pane left has a tab. -/
structure ClosesExactly (m : JournalModel) (removed : List EntityId)
    (surfaces : List UInt32) (m' : JournalModel) : Prop where
  removed_nodup : removed.Nodup
  removed_iff : ∀ e, e ∈ removed ↔ m.Has e ∧ ¬ m'.Has e
  surfaces_nodup : surfaces.Nodup
  surfaces_iff : ∀ s, s ∈ surfaces ↔ ⟨.surface, s⟩ ∈ removed
  pruned : Pruned m (fun e => decide (e ∈ removed)) m'
  stocked : Stocked m'

/-- A close is exact, for every target that is not refused. -/
theorem close_exact (h : WellFormed m) (hs : Stocked m)
    (target : CloseTarget) :
    (∀ event removed surfaces,
      closeFacts m target = some (event, removed, surfaces) →
      ∀ batchId, (∀ last ∈ m.applied.batch, last < batchId) →
      ∃ m', evolve m (m.nextBatch batchId event) = .ok m'
        ∧ ClosesExactly m removed surfaces m')
    ∧ (closeFacts m target = none ↔ Refused m target) := by
  cases hactual : closeActual m target with
  | none =>
    have hnone : closeFacts m target = none := by
      unfold closeFacts
      rw [hactual]
      rfl
    refine ⟨fun event removed surfaces hfacts => ?_, fun _ => ?_,
      fun _ => hnone⟩
    · rw [hnone] at hfacts
      cases hfacts
    · exact (closeActual_none h).1 hactual
  | some actual =>
    have hc := closeActual_closable hactual
    obtain ⟨removed, hfacts, hperm⟩ := closeFacts_eq h hactual
    obtain ⟨m', happly, htaken⟩ := apply_closing h hs hc
    have hin : ∀ e ∈ removed, m.Has e :=
      fun e he => h.under_has hc e (hperm.mem_iff.1 he)
    have hkind : ∀ e ∈ removed, e.kind ≠ .category := by
      rintro ⟨kind, id⟩ he rfl
      have hunder := hperm.mem_iff.1 he
      cases actual <;> exact not_mem_entities_category hunder
    have hgone : (fun e => decide (e ∈ removed))
        = fun e => decide (e ∈ m.under actual) := by
      funext e
      exact decide_eq_decide.2 hperm.mem_iff
    have hpruned : ∀ applied,
        Pruned m (fun e => decide (e ∈ removed)) { m' with applied } :=
      fun applied => hgone ▸ htaken.pruned.applied applied
    refine ⟨fun event removed' surfaces hfacts' batchId hnew => ?_,
      fun hnone => ?_, fun hrefused => ?_⟩
    · rw [hfacts] at hfacts'
      cases hfacts'
      refine ⟨_, evolve_nextBatch hnew happly, ?_⟩
      exact {
        removed_nodup := hperm.nodup_iff.2 (h.under_nodup actual)
        removed_iff := (hpruned _).gone hin hkind
        surfaces_nodup := h.surfacesUnder_nodup actual
        surfaces_iff := fun s =>
          (WellFormed.mem_surfacesUnder actual).trans hperm.mem_iff.symm
        pruned := hpruned _
        stocked := htaken.stocked }
    · rw [hfacts] at hnone
      cases hnone
    · rw [(closeActual_none h).2 hrefused] at hactual
      cases hactual

theorem openedModel_wellFormed : WellFormed openedModel :=
  Replays.wellFormed (.single ⟨openingBatch, evolve_openingBatch⟩)

theorem openedModel_stocked : Stocked openedModel := by
  intro id p hp
  unfold openedModel at hp
  rw [get_insert] at hp
  split at hp
  · cases hp
    exact cons_ne_nil _ _
  · simp at hp

theorem closeFacts_opened : closeFacts openedModel (.surface 4)
    = some (.workspaceClosed 1,
      [⟨.workspace, 1⟩, ⟨.pane, 2⟩, ⟨.tab, 3⟩, ⟨.surface, 4⟩], [4]) := by
  have hactual : closeActual openedModel (.surface 4)
      = some (.workspace 1) := by
    decide +kernel
  have hlists : (closeFacts openedModel (.surface 4)).map Prod.snd
      = some ([⟨.workspace, 1⟩, ⟨.pane, 2⟩, ⟨.tab, 3⟩, ⟨.surface, 4⟩],
        [4]) := by
    decide +kernel
  obtain ⟨removed, hfacts, -⟩ := closeFacts_eq openedModel_wellFormed hactual
  rw [hfacts, Option.map_some] at hlists
  rw [hfacts]
  exact congrArg (fun l => some (DomainEvent.workspaceClosed 1, l))
    (Option.some.inj hlists)

/-- Closing the only surface closes the workspace. -/
theorem close_exact_opened :
    ∃ m', evolve openedModel (openedModel.nextBatch 2 (.workspaceClosed 1))
        = .ok m'
      ∧ ClosesExactly openedModel
        [⟨.workspace, 1⟩, ⟨.pane, 2⟩, ⟨.tab, 3⟩, ⟨.surface, 4⟩] [4] m' := by
  have hnew : ∀ last ∈ openedModel.applied.batch, last < 2 := by
    intro last hlast
    cases Option.some.inj hlast
    decide
  exact (close_exact openedModel_wellFormed openedModel_stocked
    (.surface 4)).1 _ _ _ closeFacts_opened 2 hnew

/-- The only workspace is no exception: it is closed as any other. -/
theorem last_workspace_closes :
    ¬ ∀ (m : JournalModel) (target : CloseTarget), WellFormed m →
      Stocked m → (closeFacts m target = none ↔ Refused m target
        ∨ ∃ id, target = .workspace id ∧ m.workspaceOrder = [id]) := by
  intro hclaim
  have hnone := (hclaim openedModel (.workspace 1) openedModel_wellFormed
    openedModel_stocked).2 (.inr ⟨1, rfl, rfl⟩)
  have hsome : (closeFacts openedModel (.workspace 1)).isSome = true := by
    decide +kernel
  rw [hnone] at hsome
  cases hsome

end Tasty.Core
