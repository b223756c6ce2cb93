/-
What a plan's facts create: only ids the plan reserved.

`Built ids e` is a structural fact that creates entities of `ids` alone
and touches neither the ledger, nor the order of the categories, nor a
pane's tabs except to add one. Every fact an assembly compiles to, and
every fact an installation is made of, is one.
-/
import Tasty.Core.Command.Creation
import Tasty.Core.Effects

namespace Tasty.Core

open Std.ExtTreeMap List

variable {ids : List EntityId} {e : DomainEvent} {layout : SplitTree UInt32}
  {id paneId : UInt32} {surviving : List UInt32} {tabs : BTreeMap UInt32 Tab}
  {es : List DomainEvent} {index : Usize}

/-- A structural fact that creates nothing outside `ids`. -/
structure Built (ids : List EntityId) (e : DomainEvent) : Prop where
  structural : e.onLedger = false
  keepsTabs : e.strips = false
  keepsCategories : e.reordersCategories = false
  within : ∀ x ∈ e.introduces, x ∈ ids

theorem Built.quiet (hstructural : e.onLedger = false)
    (htabs : e.strips = false) (hcategories : e.reordersCategories = false)
    (hnew : e.introduces = []) : Built ids e :=
  ⟨hstructural, htabs, hcategories, by simp [hnew]⟩

theorem Built.pair {x y : EntityId} (hstructural : e.onLedger = false)
    (htabs : e.strips = false) (hcategories : e.reordersCategories = false)
    (hnew : e.introduces = [x, y]) (hx : x ∈ ids) (hy : y ∈ ids) :
    Built ids e :=
  ⟨hstructural, htabs, hcategories, by simp [hnew, hx, hy]⟩

theorem Built.mono {ids' : List EntityId}
    (h : Built ids e) (hids : ∀ x ∈ ids, x ∈ ids') : Built ids' e :=
  { h with within := fun x hx => hids x (h.within x hx) }

theorem Built.of_nil (h : Built [] e) : Built ids e :=
  h.mono fun _ hx => absurd hx not_mem_nil

-- ==== kept leaves

variable {panes : List (UInt32 × Pane)} {above : List DomainEvent}

namespace CreationAssembly

variable {plan : CreationAssembly} {m : JournalModel}

theorem prune_leaves (keep : UInt32 → Bool) (layout : SplitTree UInt32) :
    ((prune keep layout).map SplitTree.leaves).getD []
      = layout.leaves.filter keep := by
  induction layout with
  | leaf id =>
    unfold prune
    by_cases hid : keep id = true <;> simp [hid]
  | split d r one two ihone ihtwo =>
    unfold prune
    rw [SplitTree.leaves_split, filter_append, ← ihone, ← ihtwo]
    cases prune keep one <;> cases prune keep two <;> simp

theorem leaves_prune {keep : UInt32 → Bool} {layout' : SplitTree UInt32}
    (h : prune keep layout = some layout') :
    layout'.leaves = layout.leaves.filter keep := by
  rw [← prune_leaves, h]
  rfl

theorem mem_splits {target new : UInt32}
    {split : SplitSpec} (h : (target, new, split) ∈ splits layout) :
    new ∈ layout.leaves := by
  induction layout with
  | leaf id => cases h
  | split d r one two ihone ihtwo =>
    unfold splits at h
    rw [SplitTree.leaves_split, mem_append]
    rcases mem_cons.1 h with hhead | h
    · cases hhead
      exact .inr two.first_mem_leaves
    · rcases mem_append.1 h with h | h
      · exact .inl (ihone h)
      · exact .inr (ihtwo h)

-- ==== reserved ids

@[simp] theorem mem_reservedIds_workspace :
    ⟨.workspace, id⟩ ∈ plan.reservedIds ↔ id ∈ plan.snapshot.workspaces := by
  simp [reservedIds]

@[simp] theorem mem_reservedIds_pane :
    ⟨.pane, id⟩ ∈ plan.reservedIds ↔ id ∈ plan.snapshot.panes := by
  simp [reservedIds]

@[simp] theorem mem_reservedIds_tab :
    ⟨.tab, id⟩ ∈ plan.reservedIds ↔ id ∈ plan.snapshot.tabs := by
  simp [reservedIds]

@[simp] theorem mem_reservedIds_surface :
    ⟨.surface, id⟩ ∈ plan.reservedIds ↔ id ∈ plan.snapshot.surfaces := by
  simp [reservedIds]

theorem reservedIds_kind {e : EntityId} (h : e ∈ plan.reservedIds) :
    e.kind ≠ .category := by
  simp only [reservedIds, mem_append, mem_map] at h
  rcases h with ((⟨_, _, rfl⟩ | ⟨_, _, rfl⟩) | ⟨_, _, rfl⟩) | ⟨_, _, rfl⟩
  all_goals simp

/-- The ids of the plan's tabs and surfaces. -/
def leafIds (plan : CreationAssembly) : List EntityId :=
  plan.snapshot.tabs.keys.map (⟨.tab, ·⟩)
    ++ plan.snapshot.surfaces.keys.map (⟨.surface, ·⟩)

theorem leafIds_reserved {e : EntityId} (h : e ∈ plan.leafIds) :
    e ∈ plan.reservedIds ∧ e.kind ≠ .pane := by
  simp only [leafIds, mem_append, mem_map] at h
  rcases h with ⟨id, hid, rfl⟩ | ⟨id, hid, rfl⟩
  · exact ⟨by simpa using hid, by simp⟩
  · exact ⟨by simpa using hid, by simp⟩

theorem mem_leafIds_tab (h : id ∈ plan.snapshot.tabs) :
    ⟨.tab, id⟩ ∈ plan.leafIds := by
  simp [leafIds, h]

theorem mem_leafIds_surface (h : id ∈ plan.snapshot.surfaces) :
    ⟨.surface, id⟩ ∈ plan.leafIds := by
  simp [leafIds, h]

-- ==== kept owners

theorem keptTabs_mem {tab : Tab}
    (h : (plan.keptTabs surviving)[id]? = some tab) : id ∈ plan.snapshot.tabs :=
  mem_of_mem_filterMap
    ((BTreeMap.mem_iff_get ..).2 ⟨tab, h⟩)

theorem keptPanes_get {pane : Pane} (h : (plan.keptPanes tabs)[id]? = some pane) :
    id ∈ plan.snapshot.panes ∧ pane.tabs ≠ [] := by
  refine ⟨mem_of_mem_filterMap ((BTreeMap.mem_iff_get ..).2 ⟨pane, h⟩), ?_⟩
  unfold keptPanes at h
  rw [getElem?_filterMap'] at h
  obtain ⟨captured, _, hkept⟩ := Option.bind_eq_some_iff.1 h
  simp only at hkept
  split at hkept
  · cases hkept
  · rename_i hsome
    cases hkept
    exact fun hnil => hsome (List.isEmpty_iff.2 hnil)

theorem validateGraph_pane (h : plan.validateGraph = .ok ())
    {target : UInt32} {split : SplitSpec}
    (hdest : plan.destination = .pane target split) :
    plan.snapshot.panes.size = 1
      ∧ plan.snapshot.root.id ∈ plan.snapshot.panes := by
  unfold validateGraph at h
  obtain ⟨_, h⟩ := guard_ok h
  split at h
  · cases h
  · obtain ⟨_, h⟩ := guard_ok h
    split at h
    · obtain ⟨hfits, _⟩ := guard_ok h
      simp only [rootFits, hdest, Bool.or_eq_true, not_or, Bool.not_eq_true',
        Bool.not_eq_false, Bool.and_eq_true, decide_eq_true_eq] at hfits
      obtain ⟨⟨⟨⟨⟨_, _⟩, hsize⟩, hroot⟩, _⟩, _⟩ := hfits
      exact ⟨hsize, contains_iff_mem.1 hroot⟩
    · cases h

-- ==== the facts

theorem facts_eq_ok (h : plan.facts m surviving = .ok es) :
    plan.validateGraph = .ok () ∧ plan.targetIsLive m = true
      ∧ (es = [] ∨ ∃ above tabs panes below,
          plan.rootFacts m (plan.keptTabs surviving)
            (plan.keptPanes (plan.keptTabs surviving))
            = .ok (some (above, tabs, panes))
          ∧ plan.allTabFacts tabs panes.toList = .ok below
          ∧ es = above ++ below) := by
  obtain ⟨_, hgraph, h⟩ := bind_ok h
  obtain ⟨_, hlive, h⟩ := bind_ok h
  obtain ⟨found, hroot, h⟩ := bind_ok h
  refine ⟨orRaise_eq_ok.1 hgraph, by simpa using hlive, ?_⟩
  split at h
  · cases h
    exact .inl rfl
  · rename_i above tabs panes
    obtain ⟨below, hbelow, h⟩ := bind_ok h
    cases h
    exact .inr ⟨above, tabs, panes, below, hroot, hbelow, rfl⟩

theorem spec_eq_ok {s : SurfaceSpec} (h : plan.spec id = .ok s) :
    s.id = id ∧ id ∈ plan.snapshot.surfaces := by
  obtain ⟨value, hvalue, h⟩ := bind_ok h
  cases h
  exact ⟨rfl, (BTreeMap.mem_iff_get ..).2 ⟨value, orPanic_eq_ok.1 hvalue⟩⟩

theorem leafMetadata_built (h : plan.leafMetadata id = .ok es) (he : e ∈ es) :
    Built [] e := by
  obtain ⟨value, _, h⟩ := bind_ok h
  cases h
  obtain ⟨⟨key, value⟩, _, rfl⟩ := mem_map.1 he
  exact ⟨rfl, rfl, rfl, fun x hx => hx⟩

variable (htabs : ∀ id tab, tabs[id]? = some tab → id ∈ plan.snapshot.tabs)

include htabs

theorem tabFacts_built
    {tabId : UInt32}     (h : plan.tabFacts tabs paneId tabId index = .ok es)
    (he : e ∈ es) : Built plan.leafIds e := by
  obtain ⟨tab, htab, h⟩ := bind_ok h
  obtain ⟨created, hcreated, h⟩ := bind_ok h
  obtain ⟨split, hsplit, h⟩ := bind_ok h
  obtain ⟨metadata, hmetadata, h⟩ := bind_ok h
  cases h
  have htab := htabs tabId tab (orPanic_eq_ok.1 htab)
  obtain ⟨hid, hsurface⟩ := spec_eq_ok hcreated
  simp only [mem_cons, mem_append, mem_flatten] at he
  rcases he with rfl | rfl | he | ⟨part, hpart, he⟩
  · refine .pair rfl rfl rfl rfl ?_ ?_
    · exact mem_leafIds_tab htab
    · rw [hid]
      exact mem_leafIds_surface hsurface
  · exact .quiet rfl rfl rfl rfl
  · obtain ⟨⟨target, surface, spec⟩, _, hnew⟩ :=
      mem_of_mapM_eq_ok hsplit he
    obtain ⟨new, hspec, hnew⟩ := bind_ok hnew
    cases hnew
    obtain ⟨hid, hsurface⟩ := spec_eq_ok hspec
    refine ⟨rfl, rfl, rfl, fun x hx => ?_⟩
    simp only [DomainEvent.introduces, mem_singleton] at hx
    rw [hx, hid]
    exact mem_leafIds_surface hsurface
  · obtain ⟨leaf, _, hleaf⟩ := mem_of_mapM_eq_ok hmetadata hpart
    exact (leafMetadata_built hleaf he).of_nil

theorem paneFacts_built {index : Nat} {ids : List UInt32}
    (h : plan.paneFacts tabs paneId index ids = .ok es)
    (he : e ∈ es) : Built plan.leafIds e := by
  induction ids generalizing index es with
  | nil =>
    cases h
    cases he
  | cons id ids ih =>
    obtain ⟨here, hhere, h⟩ := bind_ok h
    obtain ⟨later, hlater, h⟩ := bind_ok h
    cases h
    rcases mem_append.1 he with he | he
    · exact tabFacts_built htabs hhere he
    · exact ih hlater he

theorem allTabFacts_built (h : plan.allTabFacts tabs panes = .ok es)
    (he : e ∈ es) : Built plan.leafIds e := by
  induction panes generalizing es with
  | nil =>
    cases h
    cases he
  | cons entry panes ih =>
    obtain ⟨here, hhere, h⟩ := bind_ok h
    obtain ⟨later, hlater, h⟩ := bind_ok h
    cases h
    rcases mem_append.1 he with he | he
    · exact paneFacts_built htabs hhere he
    · exact ih hlater he

omit htabs

theorem workspaceFacts_built {workspace : Workspace}
    (hroot : plan.snapshot.root.id ∈ plan.snapshot.workspaces)
    (hleaves : ∀ p ∈ layout.leaves, p ∈ plan.snapshot.panes)
    (he : e ∈ plan.workspaceFacts m workspace layout) :
    Built plan.reservedIds e := by
  simp only [workspaceFacts, mem_append, mem_cons,
    not_mem_nil, or_false, mem_map] at he
  rcases he with ((rfl | rfl | rfl) | ⟨⟨target, pane, split⟩, hsplit, rfl⟩)
      | ⟨⟨key, value⟩, _, rfl⟩
  · refine .pair rfl rfl rfl rfl ?_ ?_
    · simpa using hroot
    · simpa using hleaves _ layout.first_mem_leaves
  · exact .quiet rfl rfl rfl rfl
  · exact .quiet rfl rfl rfl rfl
  · refine ⟨rfl, rfl, rfl, fun x hx => ?_⟩
    simp only [DomainEvent.introduces, mem_singleton] at hx
    rw [hx]
    simpa using hleaves _ (mem_splits hsplit)
  · exact .quiet rfl rfl rfl rfl

theorem rootFacts_built (hgraph : plan.validateGraph = .ok ())
    {panes : BTreeMap UInt32 Pane}
    (h : plan.rootFacts m (plan.keptTabs surviving)
      (plan.keptPanes (plan.keptTabs surviving))
      = .ok (some (above, tabs, panes))) :
    (∀ e ∈ above, Built plan.reservedIds e)
      ∧ ∀ id tab, tabs[id]? = some tab → id ∈ plan.snapshot.tabs := by
  unfold rootFacts at h
  simp only at h
  split at h
  · obtain ⟨workspace, hworkspace, h⟩ := bind_ok h
    split at h
    · cases h
    · rename_i layout hlayout
      cases h
      refine ⟨fun e he => workspaceFacts_built ?_ ?_ he,
        fun id tab => keptTabs_mem⟩
      · exact (BTreeMap.mem_iff_get ..).2
          ⟨workspace, orReject_eq_ok.1 hworkspace⟩
      · intro p hp
        rw [leaves_prune hlayout, mem_filter] at hp
        obtain ⟨pane, hpane⟩ := (BTreeMap.mem_iff_get ..).1
          (contains_iff_mem.1 hp.2)
        exact (keptPanes_get hpane).1
  · rename_i target split hdest
    obtain ⟨_, h⟩ | ⟨_, h⟩ := ite_eq_iff.1 h
    · cases h
    · cases h
      refine ⟨fun e he => ?_, fun id tab => keptTabs_mem⟩
      rw [mem_singleton] at he
      subst he
      refine ⟨rfl, rfl, rfl, fun x hx => ?_⟩
      simp only [DomainEvent.introduces, mem_singleton] at hx
      rw [hx]
      simpa using (validateGraph_pane hgraph hdest).2
  · split at h
    · cases h
    · rename_i tab htab
      obtain ⟨owner, _, h⟩ := bind_ok h
      cases h
      refine ⟨fun e he => absurd he not_mem_nil, fun id t ht => ?_⟩
      rw [BTreeMap.get_insert] at ht
      split at ht
      · rename_i hid
        rw [← hid]
        exact keptTabs_mem htab
      · exact keptTabs_mem ht

theorem facts_built (h : plan.facts m surviving = .ok es)
    (he : e ∈ es) : Built plan.reservedIds e := by
  obtain ⟨hgraph, _, hes⟩ := facts_eq_ok h
  rcases hes with rfl | ⟨above, tabs, panes, below, hroot, hbelow, rfl⟩
  · cases he
  · obtain ⟨habove, htabs⟩ := rootFacts_built hgraph hroot
    rcases mem_append.1 he with he | he
    · exact habove e he
    · exact (allTabFacts_built htabs hbelow he).mono
        fun x hx => (leafIds_reserved hx).1

-- ==== new panes

end CreationAssembly

/-- Whether the event creates a tab in the pane. -/
def DomainEvent.fills (pane : UInt32) : DomainEvent → Bool
  | tabCreated _ owner _ _ _ => owner = pane
  | _ => false

/-- Every pane that is created gets a tab from a later fact. -/
def Filled : List DomainEvent → Prop
  | [] => True
  | e :: es =>
    (∀ pane, ⟨.pane, pane⟩ ∈ e.introduces →
      es.any (DomainEvent.fills pane) = true)
    ∧ Filled es

variable {es' : List DomainEvent}

/-- Facts whose panes are filled by the facts after them. -/
theorem Filled.prepend (h' : Filled es')
    (h : ∀ e ∈ es, ∀ pane, ⟨.pane, pane⟩ ∈ e.introduces →
      es'.any (DomainEvent.fills pane) = true) : Filled (es ++ es') := by
  induction es with
  | nil => exact h'
  | cons e es ih =>
    refine ⟨fun pane hpane => ?_, ih fun e' he' => h e' (mem_cons_of_mem _ he')⟩
    show (es ++ es').any (DomainEvent.fills pane) = true
    rw [any_append, Bool.or_eq_true]
    exact .inr (h e mem_cons_self pane hpane)

/-- Facts that create no pane. -/
theorem Filled.of_none (h : ∀ e ∈ es, ∀ pane, ⟨.pane, pane⟩ ∉ e.introduces) :
    Filled es := by
  have hnil : Filled (es ++ []) :=
    Filled.prepend trivial
      fun e he pane hpane => absurd hpane (h e he pane)
  rwa [append_nil] at hnil

theorem Filled.append (h : Filled es)
    (h' : Filled es') : Filled (es ++ es') := by
  induction es with
  | nil => exact h'
  | cons e es ih =>
    refine ⟨fun pane hpane => ?_, ih h.2⟩
    show (es ++ es').any (DomainEvent.fills pane) = true
    rw [any_append, h.1 pane hpane]
    rfl

namespace CreationAssembly

variable {plan : CreationAssembly} {m : JournalModel}

theorem paneFacts_fills {index : Nat} {ids : List UInt32}
    (h : plan.paneFacts tabs paneId index ids = .ok es)
    (hids : ids ≠ []) : es.any (DomainEvent.fills paneId) = true := by
  cases ids with
  | nil => exact absurd rfl hids
  | cons id ids =>
    obtain ⟨here, hhere, h⟩ := bind_ok h
    obtain ⟨later, _, h⟩ := bind_ok h
    cases h
    obtain ⟨tab, _, hhere⟩ := bind_ok hhere
    obtain ⟨created, _, hhere⟩ := bind_ok hhere
    obtain ⟨split, _, hhere⟩ := bind_ok hhere
    obtain ⟨metadata, _, hhere⟩ := bind_ok hhere
    cases hhere
    simp [DomainEvent.fills]

theorem allTabFacts_fills (h : plan.allTabFacts tabs panes = .ok es)
    {pane : Pane} (hpane : (paneId, pane) ∈ panes) (htabs : pane.tabs ≠ []) :
    es.any (DomainEvent.fills paneId) = true := by
  induction panes generalizing es with
  | nil => cases hpane
  | cons entry panes ih =>
    obtain ⟨here, hhere, h⟩ := bind_ok h
    obtain ⟨later, hlater, h⟩ := bind_ok h
    cases h
    rw [any_append, Bool.or_eq_true]
    rcases mem_cons.1 hpane with hhead | hpane
    · subst hhead
      exact .inl (paneFacts_fills hhere htabs)
    · exact .inr (ih hlater hpane)

theorem key_unique {V : Type} {map : BTreeMap UInt32 V}
    (hsize : map.size = 1) {a b : UInt32} (ha : a ∈ map) (hb : b ∈ map) :
    a = b := by
  have hlength : map.keys.length = 1 := by
    rw [length_keys, hsize]
  obtain ⟨k, hk⟩ := length_eq_one_iff.1 hlength
  have ha := mem_keys.2 ha
  have hb := mem_keys.2 hb
  rw [hk, mem_singleton] at ha hb
  rw [ha, hb]

theorem rootFacts_panes (hgraph : plan.validateGraph = .ok ())
    {panes : BTreeMap UInt32 Pane}
    (h : plan.rootFacts m (plan.keptTabs surviving)
      (plan.keptPanes (plan.keptTabs surviving))
      = .ok (some (above, tabs, panes))) (he : e ∈ above)
    (hid : ⟨.pane, id⟩ ∈ e.introduces) :
    ∃ pane, (id, pane) ∈ panes.toList ∧ pane.tabs ≠ [] := by
  have hkept : id ∈ plan.keptPanes (plan.keptTabs surviving) →
      ∃ pane, (id, pane)
        ∈ (plan.keptPanes (plan.keptTabs surviving)).toList
        ∧ pane.tabs ≠ [] := by
    intro hmem
    obtain ⟨pane, hpane⟩ := (BTreeMap.mem_iff_get ..).1 hmem
    exact ⟨pane, mem_toList_iff_getElem?_eq_some.2 hpane,
      (keptPanes_get hpane).2⟩
  unfold rootFacts at h
  simp only at h
  split at h
  · obtain ⟨workspace, _, h⟩ := bind_ok h
    split at h
    · cases h
    · rename_i layout hlayout
      cases h
      refine hkept ?_
      have hleaf : id ∈ layout.leaves := by
        simp only [workspaceFacts, mem_append, mem_cons,
          not_mem_nil, or_false, mem_map] at he
        rcases he with ((rfl | rfl | rfl) | ⟨⟨target, pane, split⟩, hsplit,
          rfl⟩) | ⟨⟨key, value⟩, _, rfl⟩
        · simp only [DomainEvent.introduces, mem_cons,
            not_mem_nil, or_false] at hid
          rcases hid with hid | hid
          · cases hid
          · cases hid
            exact layout.first_mem_leaves
        · cases hid
        · cases hid
        · cases mem_singleton.1 hid
          exact mem_splits hsplit
        · cases hid
      rw [leaves_prune hlayout, mem_filter] at hleaf
      exact contains_iff_mem.1 hleaf.2
  · rename_i target split hdest
    obtain ⟨_, h⟩ | ⟨hsome, h⟩ := ite_eq_iff.1 h
    · cases h
    · cases h
      refine hkept ?_
      cases mem_singleton.1 he
      cases mem_singleton.1 hid
      -- the kept panes are not empty, and the root is the only one
      obtain ⟨hsize, hroot⟩ := validateGraph_pane hgraph hdest
      obtain ⟨k, hk⟩ : ∃ k, k ∈ plan.keptPanes (plan.keptTabs surviving) := by
        rw [← isEmpty_keys, List.isEmpty_iff] at hsome
        obtain ⟨k, hk⟩ := exists_mem_of_ne_nil _ hsome
        exact ⟨k, mem_keys.1 hk⟩
      obtain ⟨pane, hpane⟩ := (BTreeMap.mem_iff_get ..).1 hk
      rw [← key_unique hsize (keptPanes_get hpane).1 hroot]
      exact hk
  · split at h
    · cases h
    · obtain ⟨owner, _, h⟩ := bind_ok h
      cases h
      cases he

/-- Every pane of an assembly is filled. -/
theorem facts_filled (h : plan.facts m surviving = .ok es) : Filled es := by
  obtain ⟨hgraph, _, hes⟩ := facts_eq_ok h
  rcases hes with rfl | ⟨above, tabs, panes, below, hroot, hbelow, rfl⟩
  · exact trivial
  · obtain ⟨_, htabs⟩ := rootFacts_built hgraph hroot
    refine Filled.prepend (Filled.of_none fun e he pane hpane => ?_)
      fun e he pane hpane => ?_
    · have hleaf := (allTabFacts_built htabs hbelow he).within _ hpane
      exact (leafIds_reserved hleaf).2 rfl
    · obtain ⟨p, hp, hne⟩ := rootFacts_panes hgraph hroot he hpane
      exact allTabFacts_fills hbelow hp hne

end CreationAssembly

namespace Creation

variable {m : JournalModel} {plan : CreationPlan} {op : Operation}

theorem reservedIds_kind {e : EntityId} (h : e ∈ plan.reservedIds) :
    e.kind ≠ .category := by
  unfold CreationPlan.reservedIds at h
  split at h
  all_goals
    simp only [mem_cons, not_mem_nil, or_false] at h
  · rcases h with rfl | rfl | rfl | rfl
    all_goals simp
  · rcases h with rfl | rfl
    all_goals simp
  · rcases h with rfl | rfl | rfl
    all_goals simp
  · rw [h]
    simp

/-- A new tab and its name. -/
theorem tabEvents_built {pane tab : UInt32} (htab : ⟨.tab, tab⟩ ∈ ids)
    (hsurface : ⟨.surface, plan.surface.id⟩ ∈ ids)
    (he : e ∈ tabEvents plan pane tab index) : Built ids e := by
  unfold tabEvents at he
  rcases mem_cons.1 he with rfl | he
  · refine .pair rfl rfl rfl rfl ?_ ?_
    · exact htab
    · exact hsurface
  · split at he
    · rw [mem_singleton] at he
      subst he
      exact .quiet rfl rfl rfl rfl
    · cases he

theorem tabEvents_noPane {pane tab : UInt32}
    (he : e ∈ tabEvents plan pane tab index)
    (id : UInt32) : ⟨.pane, id⟩ ∉ e.introduces := by
  intro hid
  have hbuilt : Built [⟨.tab, tab⟩, ⟨.surface, plan.surface.id⟩] e :=
    tabEvents_built (by simp) (by simp) he
  simpa using hbuilt.within _ hid

theorem convertedName_built {surface : UInt32} {name : Option (Option String)}
    (he : e ∈ convertedName m surface name) : Built [] e := by
  unfold convertedName at he
  split at he
  · split at he
    · rw [mem_singleton] at he
      subst he
      exact ⟨rfl, rfl, rfl, fun x hx => hx⟩
    · cases he
  · cases he

theorem creationEvents_built
    (he : e ∈ creationEvents m plan) : Built plan.reservedIds e := by
  unfold creationEvents at he
  unfold CreationPlan.reservedIds
  split at he
  · rename_i workspace pane tab name category subtitle description mapping
      hdest
    rw [hdest]
    simp only [mem_append, mem_cons, not_mem_nil, or_false] at he
    rcases he with ((rfl | rfl) | he) | he
    · refine .pair rfl rfl rfl rfl ?_ ?_
      · simp
      · simp
    · exact .quiet rfl rfl rfl rfl
    · split at he
      · rw [mem_singleton] at he
        subst he
        exact .quiet rfl rfl rfl rfl
      · cases he
    · exact tabEvents_built (by simp) (by simp) he
  · rename_i hdest
    rw [hdest]
    exact tabEvents_built (by simp) (by simp) he
  · rename_i hdest
    rw [hdest]
    rcases mem_cons.1 he with rfl | he
    · refine ⟨rfl, rfl, rfl, fun x hx => ?_⟩
      simp only [DomainEvent.introduces, mem_singleton] at hx
      rw [hx]
      simp
    · exact tabEvents_built (by simp) (by simp) he
  · rename_i hdest
    rw [hdest]
    rw [mem_singleton] at he
    subst he
    exact ⟨rfl, rfl, rfl, fun x hx => hx⟩
  · cases he
  · cases he
  · rename_i hdest
    rw [hdest]
    rcases mem_cons.1 he with rfl | he
    · exact .quiet rfl rfl rfl rfl
    · exact (convertedName_built he).of_nil

theorem installEvents_built
    (he : e ∈ installEvents m op plan) : Built plan.reservedIds e := by
  unfold installEvents at he
  simp only [mem_append, mem_singleton] at he
  rcases he with (he | rfl) | he
  · -- the prepared payload changes no id of the plan
    have hbuilt := creationEvents_built he
    exact hbuilt
  · exact .quiet rfl rfl rfl rfl
  · split at he
    · cases he
    · rw [mem_singleton] at he
      subst he
      exact .quiet rfl rfl rfl rfl

theorem creationEvents_filled : Filled (creationEvents m plan) := by
  unfold creationEvents
  split
  · refine Filled.prepend (Filled.of_none fun e he pane hpane => ?_)
      fun e he pane hpane => ?_
    · exact tabEvents_noPane he pane hpane
    · simp only [mem_append, mem_cons, not_mem_nil, or_false] at he
      rcases he with (rfl | rfl) | he
      · simp only [DomainEvent.introduces, mem_cons,
          not_mem_nil, or_false] at hpane
        rcases hpane with hpane | hpane
        · cases hpane
        · cases hpane
          simp [tabEvents, DomainEvent.fills]
      · cases hpane
      · split at he
        · cases mem_singleton.1 he
          cases hpane
        · cases he
  · exact Filled.of_none fun e he => tabEvents_noPane he
  · refine ⟨fun pane hpane => ?_, Filled.of_none fun e he =>
      tabEvents_noPane he⟩
    cases mem_singleton.1 hpane
    simp [tabEvents, DomainEvent.fills]
  · exact ⟨fun pane hpane => (by cases mem_singleton.1 hpane), trivial⟩
  · exact trivial
  · exact trivial
  · refine Filled.of_none fun e he pane hpane => ?_
    rcases mem_cons.1 he with rfl | he
    · cases hpane
    · exact not_mem_nil ((convertedName_built he).within _ hpane)

theorem installEvents_filled : Filled (installEvents m op plan) := by
  unfold installEvents
  refine Filled.append (Filled.append creationEvents_filled ?_) ?_
  · exact ⟨fun pane hpane => (by cases hpane), trivial⟩
  · split
    · exact trivial
    · exact ⟨fun pane hpane => (by cases hpane), trivial⟩

end Creation

end Tasty.Core
