/-
What the graph check of a restored subtree establishes
(`crates/tasty-core/src/assembly.rs`, `validate_graph`).

The check visits every owned id once and asks it to name its owner. So
the tabs and the surfaces of a checked snapshot are linked the way a
model's are, and so are the layers above, as far as the destination asks
for them: a restored pane has no workspace of its own, and a restored
tab no pane.
-/
import Tasty.Core.PlanFacts

namespace Tasty.Core.CreationAssembly

open List hiding mem_iff_get

open Std.ExtTreeMap

open BTreeMap (view view_eq_some view_of_get mem_iff_get mem_toList_iff)

-- ==== the visit

section Visit

variable {names : UInt32 → UInt32 → Bool} {seen seen' : List UInt32}
  {pairs : List (UInt32 × UInt32)}

/-- A visit that ends saw every id once, each naming its owner. -/
theorem visit_eq_some (h : visit names seen pairs = some seen') :
    (∀ p ∈ pairs, names p.1 p.2 = true)
      ∧ (∀ p ∈ pairs, p.2 ∉ seen)
      ∧ (pairs.map Prod.snd).Nodup
      ∧ seen' = (pairs.map Prod.snd).reverse ++ seen := by
  induction pairs generalizing seen with
  | nil =>
    cases h
    exact ⟨by simp, by simp, by simp, rfl⟩
  | cons pair pairs ih =>
    obtain ⟨owner, id⟩ := pair
    unfold visit at h
    split at h
    · cases h
    · rename_i hnew
      simp only [Bool.or_eq_true, not_or, Bool.not_eq_true,
        Bool.not_eq_false'] at hnew
      obtain ⟨hunseen, hnames⟩ := hnew
      obtain ⟨hall, hfresh, hnodup, hseen⟩ := ih h
      refine ⟨?_, ?_, ?_, ?_⟩
      · intro p hp
        rcases mem_cons.1 hp with rfl | hp
        · exact hnames
        · exact hall p hp
      · intro p hp
        rcases mem_cons.1 hp with rfl | hp
        · simpa using hunseen
        · exact fun hmem => hfresh p hp (mem_cons_of_mem _ hmem)
      · rw [map_cons, nodup_cons]
        refine ⟨?_, hnodup⟩
        intro hmem
        obtain ⟨p, hp, rfl⟩ := mem_map.1 hmem
        exact hfresh p hp mem_cons_self
      · simp [hseen]

end Visit

section Owned

variable {V C : Type} {children : V → List UInt32} {up : C → UInt32}
  {map : BTreeMap UInt32 V} {below : BTreeMap UInt32 C}
  {names : UInt32 → UInt32 → Bool} {seen : List UInt32}

theorem mem_owned {owner id : UInt32} :
    (owner, id) ∈ owned children map
      ↔ ∃ v, map[owner]? = some v ∧ id ∈ children v := by
  simp only [owned, mem_flatMap, Prod.exists, mem_toList_iff,
    mem_map, Prod.mk.injEq]
  constructor
  · rintro ⟨k, v, hv, id', hid, rfl, rfl⟩
    exact ⟨v, hv, hid⟩
  · rintro ⟨v, hv, hid⟩
    exact ⟨owner, v, hv, id, hid, rfl, rfl⟩

theorem children_sublist {owner : UInt32} {v : V} (hv : map[owner]? = some v) :
    (children v).Sublist ((owned children map).map Prod.snd) := by
  have hmem : (owner, v) ∈ map.toList := (mem_toList_iff ..).2 hv
  obtain ⟨before, after, hsplit⟩ := append_of_mem hmem
  unfold owned
  rw [hsplit, flatMap_append, flatMap_cons, List.map_append,
    List.map_append, List.map_map]
  have hself : (children v).map (Prod.snd ∘ fun x => (owner, x))
      = children v := by
    rw [show (Prod.snd ∘ fun x : UInt32 => (owner, x)) = id from rfl,
      List.map_id]
  rw [hself]
  exact (sublist_append_left _ _).trans (sublist_append_right _ _)

theorem linked_of_visit
    (hvisit : visit names [] (owned children map) = some seen)
    (hnames : ∀ owner id, names owner id = true →
      ∃ c, below[id]? = some c ∧ up c = owner) :
    Linked (view children map) (view up below)
      (below.keys.filter fun id => !seen.contains id) := by
  obtain ⟨hall, _, hnodup, hseen⟩ := visit_eq_some hvisit
  have hmem : ∀ id, id ∈ seen ↔ ∃ (owner : UInt32) (v : V),
      map[owner]? = some v ∧ id ∈ children v := by
    intro id
    rw [hseen, append_nil, mem_reverse, mem_map]
    constructor
    · rintro ⟨⟨owner, id'⟩, hp, rfl⟩
      exact ⟨owner, mem_owned.1 hp⟩
    · rintro ⟨owner, hv⟩
      exact ⟨(owner, id), mem_owned.2 hv, rfl⟩
  refine ⟨?_, ?_, ?_, ?_⟩
  · intro owner list hlist
    obtain ⟨v, hv, rfl⟩ := view_eq_some.1 hlist
    exact hnodup.sublist (children_sublist hv)
  · intro owner list id hlist hid
    obtain ⟨v, hv, rfl⟩ := view_eq_some.1 hlist
    obtain ⟨c, hc, hup⟩ := hnames owner id (hall _ (mem_owned.2 ⟨v, hv, hid⟩))
    exact view_eq_some.2 ⟨c, hc, hup⟩
  · intro owner list id hlist hid horphan
    obtain ⟨v, hv, rfl⟩ := view_eq_some.1 hlist
    have hin : id ∈ seen := (hmem id).2 ⟨owner, v, hv, hid⟩
    rw [mem_filter] at horphan
    simp [hin] at horphan
  · intro owner id hup hkept
    obtain ⟨c, hc, hcup⟩ := view_eq_some.1 hup
    have hkey : id ∈ below.keys :=
      mem_keys.2 ((mem_iff_get ..).2 ⟨c, hc⟩)
    have hin : id ∈ seen := by
      by_contra hout
      exact hkept (mem_filter.2 ⟨hkey, by simpa using hout⟩)
    obtain ⟨owner', v, hv, hid⟩ := (hmem id).1 hin
    obtain ⟨c', hc', hup'⟩ :=
      hnames owner' id (hall _ (mem_owned.2 ⟨v, hv, hid⟩))
    rw [hc] at hc'
    cases hc'
    rw [← hcup, hup']
    exact ⟨children v, view_of_get hv _, hid⟩

/-- A visit that saw as many ids as there are saw them all. -/
theorem unseen_eq_nil
    (hvisit : visit names [] (owned children map) = some seen)
    (hnames : ∀ owner id, names owner id = true →
      ∃ c, below[id]? = some c ∧ up c = owner)
    (hsize : seen.length = below.size) :
    (below.keys.filter fun id => !seen.contains id) = [] := by
  obtain ⟨hall, _, hnodup, hseen⟩ := visit_eq_some hvisit
  have hnd : seen.Nodup := by
    rw [hseen, append_nil, nodup_reverse]
    exact hnodup
  have hsub : seen ⊆ below.keys := by
    intro id hid
    rw [hseen, append_nil, mem_reverse, mem_map] at hid
    obtain ⟨p, hp, rfl⟩ := hid
    obtain ⟨c, hc, _⟩ := hnames p.1 p.2 (hall p hp)
    exact mem_keys.2 ((mem_iff_get ..).2 ⟨c, hc⟩)
  have hlength : below.keys.length ≤ seen.length := by
    rw [length_keys]
    exact Nat.le_of_eq hsize.symm
  have hperm := (subperm_of_subset hnd hsub).perm_of_length_le hlength
  rw [filter_eq_nil_iff]
  intro id hid
  simpa using hperm.mem_iff.2 hid

end Owned

-- ==== the graph

/-- The tabs that are owned by no captured pane. -/
def rootTabs (plan : CreationAssembly) : List UInt32 :=
  match plan.destination with
  | .tab _ _ => plan.snapshot.tabs.keys
  | _ => []

/-- The panes that are owned by no captured workspace. -/
def rootPanes (plan : CreationAssembly) : List UInt32 :=
  match plan.destination with
  | .workspace => []
  | _ => plan.snapshot.panes.keys

/-- The part of the snapshot the destination asks for. -/
def Fits (plan : CreationAssembly) : Prop :=
  match plan.destination with
  | .workspace =>
    plan.snapshot.workspaces.size = 1
      ∧ plan.snapshot.root.id ∈ plan.snapshot.workspaces
  | .pane _ _ =>
    plan.snapshot.workspaces.isEmpty = true
      ∧ plan.snapshot.panes.size = 1
      ∧ plan.snapshot.root.id ∈ plan.snapshot.panes
  | .tab _ _ =>
    plan.snapshot.workspaces.isEmpty = true
      ∧ plan.snapshot.panes.isEmpty = true
      ∧ plan.snapshot.tabs.size = 1
      ∧ plan.snapshot.root.id ∈ plan.snapshot.tabs

/-- A checked subtree. -/
structure Graph (plan : CreationAssembly) : Prop where
  surfaces : Linked (view (fun t => t.layout.leaves) plan.snapshot.tabs)
    (view Surface.tab plan.snapshot.surfaces) []
  tabs : Linked (view Pane.tabs plan.snapshot.panes)
    (view Tab.pane plan.snapshot.tabs) plan.rootTabs
  panes : Linked (view (fun w => w.layout.leaves) plan.snapshot.workspaces)
    (view Pane.workspace plan.snapshot.panes) plan.rootPanes
  filled : ∀ {id : UInt32} {pane : Pane},
    plan.snapshot.panes[id]? = some pane → pane.tabs ≠ []
  fits : plan.Fits
  nonzero : ∀ x ∈ plan.reservedIds, x.id ≠ 0

variable {plan : CreationAssembly}

variable {id : UInt32} {s : ClosedSnapshot}

theorem surfaceNames_iff {tab : UInt32} (h : surfaceNames s tab id = true) :
    ∃ leaf, s.surfaces[id]? = some leaf ∧ leaf.tab = tab := by
  unfold surfaceNames at h
  split at h
  · rename_i leaf hleaf
    exact ⟨leaf, hleaf, of_decide_eq_true h⟩
  · cases h

theorem tabNames_iff {pane : UInt32} (h : tabNames s pane id = true) :
    ∃ tab, s.tabs[id]? = some tab ∧ tab.pane = pane := by
  unfold tabNames at h
  split at h
  · rename_i tab htab
    exact ⟨tab, htab, of_decide_eq_true h⟩
  · cases h

theorem paneNames_iff {workspace : UInt32}
    (h : paneNames s workspace id = true) :
    ∃ pane, s.panes[id]? = some pane ∧ pane.workspace = workspace := by
  unfold paneNames at h
  split at h
  · rename_i pane hpane
    exact ⟨pane, hpane, of_decide_eq_true h⟩
  · cases h

theorem owned_isEmpty {V : Type} {children : V → List UInt32}
    {map : BTreeMap UInt32 V} (h : map.isEmpty = true) :
    owned children map = [] := by
  rw [Std.ExtTreeMap.isEmpty_iff] at h
  rw [h]
  rfl

theorem validateGraph_graph (h : plan.validateGraph = .ok ()) : plan.Graph := by
  unfold validateGraph at h
  obtain ⟨_, h⟩ := guard_ok h
  split at h
  · cases h
  · rename_i seenSurfaces hsurfaces
    obtain ⟨hsize, h⟩ := guard_ok h
    split at h
    · rename_i seenTabs seenPanes htabs hpanes
      obtain ⟨hroot, _⟩ := guard_ok h
      simp only [Bool.or_eq_true, not_or, Bool.not_eq_true, decide_eq_true_eq,
        ne_eq, not_not, Bool.not_eq_false', any_eq_false] at hsize hroot
      obtain ⟨hsize, hfilled⟩ := hsize
      obtain ⟨hfits, hnonzero⟩ := hroot
      have hlinkedTabs := linked_of_visit htabs
        (fun _ _ => tabNames_iff)
      have hlinkedPanes := linked_of_visit hpanes
        (fun _ _ => paneNames_iff)
      have hlinkedSurfaces := linked_of_visit hsurfaces
        (fun _ _ => surfaceNames_iff)
      rw [unseen_eq_nil hsurfaces (fun _ _ => surfaceNames_iff) hsize]
        at hlinkedSurfaces
      have hfilled : ∀ {id : UInt32} {pane : Pane},
          plan.snapshot.panes[id]? = some pane → pane.tabs ≠ [] := by
        intro id pane hpane hnil
        have hsome := BTreeMap.anyValue_eq_false.1 hfilled id pane hpane
        rw [hnil] at hsome
        cases hsome
      have hnonzero : ∀ x ∈ plan.reservedIds, x.id ≠ 0 := by
        intro x hx
        simpa using hnonzero x hx
      unfold rootFits at hfits
      cases hdest : plan.destination with
      | workspace =>
        simp only [hdest, Bool.and_eq_true, decide_eq_true_eq] at hfits
        obtain ⟨⟨⟨⟨_, hone⟩, hroot⟩, hallPanes⟩, hallTabs⟩ := hfits
        rw [unseen_eq_nil htabs (fun _ _ => tabNames_iff) hallTabs]
          at hlinkedTabs
        rw [unseen_eq_nil hpanes (fun _ _ => paneNames_iff) hallPanes]
          at hlinkedPanes
        refine ⟨hlinkedSurfaces, ?_, ?_, hfilled, ?_, hnonzero⟩
        · unfold rootTabs
          rwa [hdest]
        · unfold rootPanes
          rwa [hdest]
        · unfold Fits
          rw [hdest]
          exact ⟨hone, contains_iff_mem.1 hroot⟩
      | pane target split =>
        simp only [hdest, Bool.and_eq_true, decide_eq_true_eq] at hfits
        obtain ⟨⟨⟨⟨_, hnone⟩, hone⟩, hroot⟩, hallTabs⟩ := hfits
        rw [unseen_eq_nil htabs (fun _ _ => tabNames_iff) hallTabs]
          at hlinkedTabs
        rw [owned_isEmpty hnone] at hpanes
        cases hpanes
        refine ⟨hlinkedSurfaces, ?_, ?_, hfilled, ?_, hnonzero⟩
        · unfold rootTabs
          rwa [hdest]
        · unfold rootPanes
          simpa [hdest] using hlinkedPanes
        · unfold Fits
          rw [hdest]
          exact ⟨hnone, hone, contains_iff_mem.1 hroot⟩
      | tab pane index =>
        simp only [hdest, Bool.and_eq_true, decide_eq_true_eq] at hfits
        obtain ⟨⟨⟨⟨_, hnone⟩, hnoPane⟩, hone⟩, hroot⟩ := hfits
        rw [owned_isEmpty hnone] at hpanes
        rw [owned_isEmpty hnoPane] at htabs
        cases hpanes
        cases htabs
        refine ⟨hlinkedSurfaces, ?_, ?_, hfilled, ?_, hnonzero⟩
        · unfold rootTabs
          simpa [hdest] using hlinkedTabs
        · unfold rootPanes
          simpa [hdest] using hlinkedPanes
        · unfold Fits
          rw [hdest]
          exact ⟨hnone, hnoPane, hone, contains_iff_mem.1 hroot⟩
    · cases h

-- ==== reading the graph

variable {tab : Tab}

namespace Graph

theorem surface_of_leaf (h : plan.Graph) {s : UInt32}
    (ht : plan.snapshot.tabs[id]? = some tab) (hs : s ∈ tab.layout.leaves) :
    ∃ leaf, plan.snapshot.surfaces[s]? = some leaf ∧ leaf.tab = id :=
  view_eq_some.1 (h.surfaces.down (view_of_get ht _) hs)

end Graph

-- ==== survivors

variable {surviving : List UInt32}

theorem keptTabs_get :
    (plan.keptTabs surviving)[id]? = some tab
      ↔ ∃ captured layout, plan.snapshot.tabs[id]? = some captured
        ∧ prune surviving.contains captured.layout = some layout
        ∧ tab = { captured with layout } := by
  unfold keptTabs
  rw [getElem?_filterMap', Option.bind_eq_some_iff]
  constructor
  · rintro ⟨captured, hcaptured, hkept⟩
    obtain ⟨layout, hlayout, rfl⟩ := Option.map_eq_some_iff.1 hkept
    exact ⟨captured, layout, hcaptured, hlayout, rfl⟩
  · rintro ⟨captured, layout, hcaptured, hlayout, rfl⟩
    exact ⟨captured, hcaptured, Option.map_eq_some_iff.2 ⟨layout, hlayout, rfl⟩⟩

theorem keptPanes_iff {tabs : BTreeMap UInt32 Tab} {pane : Pane} :
    (plan.keptPanes tabs)[id]? = some pane
      ↔ ∃ captured, plan.snapshot.panes[id]? = some captured
        ∧ captured.tabs.filter tabs.contains ≠ []
        ∧ pane = { captured with
            tabs := captured.tabs.filter tabs.contains } := by
  unfold keptPanes
  rw [getElem?_filterMap', Option.bind_eq_some_iff]
  constructor
  · rintro ⟨captured, hcaptured, hkept⟩
    dsimp only at hkept
    split at hkept
    · cases hkept
    · rename_i hsome
      cases hkept
      refine ⟨captured, hcaptured, fun hnil => hsome ?_, rfl⟩
      exact List.isEmpty_iff.2 hnil
  · rintro ⟨captured, hcaptured, hsome, rfl⟩
    refine ⟨captured, hcaptured, ?_⟩
    dsimp only
    rw [if_neg fun hempty => hsome (List.isEmpty_iff.1 hempty)]

theorem Graph.keptTabs_leaf (h : plan.Graph) {s : UInt32}
    (htab : (plan.keptTabs surviving)[id]? = some tab)
    (hs : s ∈ tab.layout.leaves) :
    s ∈ surviving ∧ ∃ leaf, plan.snapshot.surfaces[s]? = some leaf
      ∧ leaf.tab = id := by
  obtain ⟨captured, layout, hcaptured, hlayout, rfl⟩ := keptTabs_get.1 htab
  rw [leaves_prune hlayout, mem_filter, List.contains_iff_mem] at hs
  exact ⟨hs.2, h.surface_of_leaf hcaptured hs.1⟩


end Tasty.Core.CreationAssembly
