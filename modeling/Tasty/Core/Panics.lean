/-
The decider and its panics (`crates/tasty-core/src/command/*.rs`,
`assembly.rs`): a command is decided or rejected.

Every map index is backed by an invariant: the order lists name the
entities, the graph check of a restored subtree names its surfaces, and
a member whose success is counted has an operation. The one exception is
an addition: `PrepareAssembly` numbers the facts of its trial with a
plain `u64` sum, where `decide_structure` numbers the same way with
`checked_add`.
-/
import Tasty.Core.Graph
import Tasty.Core.Outcomes
import Tasty.Core.WellFormed

namespace Tasty.Core

open List hiding getElem?_eq_some_iff mem_iff_get

open Assembly BTreeMap Std.ExtTreeMap

open CreationAssembly (member)

variable {index : Nat} {events : List DomainEvent} {ids : List UInt32}
  {outcome : OperationOutcome} {tabs : BTreeMap UInt32 Tab}
  {group : OperationId} {op : Operation} {result : PreparationResult}
  {reason : String}

/-- The computation does not panic. -/
abbrev Calmly {α : Type} (x : Decided α) : Prop := Avoids DecideError.panic x

-- ==== the ways of failing

section Ways

variable {α : Type} {message : String}

theorem rejectIf_calmly {p : Prop} [Decidable p] :
    Calmly (rejectIf p message) :=
  .ite (fun _ => .error (by simp)) fun _ => .ok ()

theorem orReject_calmly {value : Option α} :
    Calmly (orReject value message) := by
  cases value with
  | none => exact .error (by simp)
  | some a => exact .ok a

theorem orRaise_calmly {value : Except Rejection α} :
    Calmly (orRaise value) := by
  cases value with
  | error r => exact .error (by simp)
  | ok a => exact .ok a

theorem orInvalid_calmly {value : Evolved α} : Calmly (orInvalid value) := by
  cases value with
  | error r => exact .error (by simp)
  | ok a => exact .ok a

/-- An index is fine when the key is there. -/
theorem orPanic_calmly {value : Option α} {a : α} (h : value = some a) :
    Calmly (orPanic value) :=
  .of_eq (orPanic_eq_ok.2 h)

end Ways

/-- Numbering facts ends in the error it is given. -/
theorem record_calmly {r : Rejection} {after : UInt64}
    : Calmly (record (.reject r) after index events) := by
  induction events generalizing index with
  | nil => exact .ok []
  | cons event events ih =>
    unfold record
    refine .bind ?_ fun revision _ => ih.bind fun later _ => .ok _
    cases revisionAt after index with
    | none => exact .error (by simp)
    | some revision => exact .ok revision

/-- The trial of a decision rejects. -/
theorem tryBatch_calmly {m : JournalModel} {exhausted : String}
    {r : Rejection} : Calmly (tryBatch m exhausted (.reject r) events) :=
  orReject_calmly.bind fun _ _ => record_calmly.bind fun _ _ =>
    orInvalid_calmly.bind fun _ _ => .ok ()

-- ==== metadata

section Metadata

variable {m : JournalModel}

theorem moveToNormal_calmly (hm : WellFormed m) {leaves : UInt32 → Bool}
    (hids : ∀ id ∈ ids, id ∈ m.workspaceOrder) :
    Calmly (Metadata.moveToNormal m leaves index ids) := by
  induction ids generalizing index with
  | nil => exact .ok []
  | cons id ids ih =>
    have hmem := hm.workspaces.mem_iff.1 (hids id mem_cons_self)
    obtain ⟨w, hw⟩ := (mem_iff_get ..).1 hmem
    unfold Metadata.moveToNormal
    refine (orPanic_calmly hw).bind fun w _ => ?_
    refine (ih fun x hx => hids x (mem_cons_of_mem _ hx)).bind
      fun moves _ => ?_
    exact .ite (fun _ => .ok _) fun _ => .ok _

theorem named_calmly {result : Except CategoryNameError String} :
    Calmly (Metadata.named result) := by
  cases result with
  | error e => exact .error (by simp)
  | ok name => exact .ok name

theorem checkSplit_calmly {tree : SplitTree UInt32} {path : List Bool}
    {expected : List UInt32} :
    Calmly (Metadata.checkSplit tree path expected) := by
  refine .bind ?_ fun node _ => rejectIf_calmly
  induction path generalizing tree with
  | nil =>
    unfold Metadata.nodeAt
    exact .ok tree
  | cons side path ih =>
    cases tree with
    | leaf id => exact .error (by simp)
    | split d r first second =>
      unfold Metadata.nodeAt
      exact ih

theorem mutableCategory_calmly {id : UInt32} :
    Calmly (Metadata.mutableCategory m id) :=
  rejectIf_calmly.bind fun _ _ => rejectIf_calmly

theorem moveWorkspace_calmly (hm : WellFormed m) {id : UInt32}
    {index : Usize} : Calmly (Metadata.moveWorkspace m id index) := by
  unfold Metadata.moveWorkspace
  split
  · exact .ok _
  · rename_i position hposition
    refine .ite (fun _ => ?_) fun _ => .ok _
    have hmem : id ∈ m.workspaceOrder := by
      rw [← isSome_idxOf?, hposition]
      rfl
    obtain ⟨w, hw⟩ :=
      (mem_iff_get ..).1 (hm.workspaces.mem_iff.1 hmem)
    exact (orPanic_calmly hw).bind fun _ _ => .ok _

end Metadata

-- ==== retirement

section Retirement

variable {m : JournalModel}

theorem observed_calmly : Calmly (Retirement.observed m ids) :=
  .mapM fun _ _ => orReject_calmly.bind fun _ _ => .ok _

variable {removed : List EntityId}

theorem tabParents_calmly : Calmly (Retirement.tabParents m removed) := by
  refine .mapM fun entity _ => ?_
  exact orReject_calmly.bind fun _ _ => .ok _

variable {operation : OperationId} {target : CloseTarget}
  {undo : Option UndoCapture}

theorem undoFacts_calmly {isUserClose remoteUserClose : Bool} :
    Calmly (Retirement.undoFacts m operation target isUserClose
      remoteUserClose undo) := by
  cases undo with
  | none => exact .ok []
  | some capture =>
    refine rejectIf_calmly.bind fun _ _ => ?_
    split
    · exact .ite (fun _ => .ok _) fun _ => .ok _
    · exact .ok _

variable {expected : List RetiredSurface}

theorem close_calmly {commandId : String} {input : DataRef}
    {isUserClose remoteUserClose : Bool} :
    Calmly (Retirement.close m operation commandId input target expected
      undo isUserClose remoteUserClose) := by
  refine rejectIf_calmly.bind fun _ _ => ?_
  split
  · exact .ok _
  · refine observed_calmly.bind fun _ _ => rejectIf_calmly.bind
      fun _ _ => tabParents_calmly.bind fun _ _ => ?_
    exact undoFacts_calmly.bind fun _ _ => .ok _

theorem finishRetirement_calmly
    : Calmly (Retirement.finishRetirement m operation outcome) := by
  refine orReject_calmly.bind fun op _ => ?_
  split
  · exact .error (by simp)
  · rename_i plan _
    refine rejectIf_calmly.bind fun _ _ => .bind ?_ fun _ _ => .ok _
    cases outcome with
    | succeeded => exact .ite (fun _ => .ok _) fun _ => .ok _
    | uncertain reason => exact .ok _
    | failed reason | cancelled reason | superseded reason =>
      exact .error (by simp)

theorem surfaces_mem (hm : WellFormed m) {e : EntityId}
    (h : Replacement.surfaces m e = some ids)
    {id : UInt32} (hid : id ∈ ids) : ∃ s, m.surfaces[id]? = some s := by
  have htab : ∀ {t : UInt32} {leaves : List UInt32},
      (m.tabs[t]?).map (fun tab => tab.layout.leaves) = some leaves →
      id ∈ leaves → ∃ s, m.surfaces[id]? = some s := by
    intro t leaves ht hleaf
    obtain ⟨tab, htab, rfl⟩ := Option.map_eq_some_iff.1 ht
    obtain ⟨s, hs, _⟩ := WellFormed.surface_of_leaf hm htab hleaf
    exact ⟨s, hs⟩
  unfold Replacement.surfaces at h
  split at h
  · split at h
    · rename_i hheld
      cases h
      rw [mem_singleton] at hid
      rw [hid]
      exact (mem_iff_get ..).1
        (contains_iff_mem.1 hheld)
    · cases h
  · exact htab h hid
  · obtain ⟨pane, hpane, h⟩ := Option.bind_eq_some_iff.1 h
    obtain ⟨lists, hlists, h⟩ := Option.bind_eq_some_iff.1 h
    cases h
    obtain ⟨leaves, hleaves, hleaf⟩ := mem_flatten.1 hid
    obtain ⟨t, _, ht⟩ := mem_of_mapM_eq_some hlists hleaves
    exact htab ht hleaf
  · cases h

theorem simulate_removed {r : Replacement} {next : JournalModel}
    (h : r.simulate m = .ok (next, removed))
    {e : EntityId} (he : e ∈ removed) : m.holds e = true := by
  obtain ⟨_, h⟩ := guard_ok h
  obtain ⟨after, _, h⟩ := bind_ok h
  cases h
  have hlost : ∀ {V : Type} {kind : IdKind} {before after : BTreeMap UInt32 V},
      e ∈ Replacement.lost kind before after →
      e.kind = kind ∧ before.contains e.id = true := by
    intro V kind before after hmem
    obtain ⟨id, hid, rfl⟩ := mem_map.1 hmem
    rw [mem_filter] at hid
    exact ⟨rfl, contains_iff_mem.2 (mem_keys.1 hid.1)⟩
  simp only [Replacement.removedOwners, mem_append] at he
  unfold JournalModel.holds
  rcases he with ((he | he) | he) | he
  all_goals
    obtain ⟨hkind, hheld⟩ := hlost he
    rw [hkind]
    exact hheld

theorem indexed_calmly (h : ∀ id ∈ ids, ∃ s, m.surfaces[id]? = some s) :
    Calmly (Retirement.indexed m ids) := by
  refine .mapM fun id hid => ?_
  obtain ⟨s, hs⟩ := h id hid
  exact (orPanic_calmly hs).bind fun _ _ => .ok _

theorem replace_calmly (hm : WellFormed m)
    {commandId : String} {input : DataRef} {replacement : Replacement}
    :
    Calmly (Retirement.replace m operation commandId input replacement
      expected) := by
  refine .ite (fun _ => .ok _) fun _ => ?_
  split
  · rename_i source target hsource htarget
    have hboth : ∀ id ∈ source ++ target,
        ∃ s, m.surfaces[id]? = some s := by
      intro id hid
      rcases mem_append.1 hid with hid | hid
      · exact surfaces_mem hm hsource hid
      · exact surfaces_mem hm htarget hid
    refine (indexed_calmly hboth).bind fun observed _ => ?_
    refine rejectIf_calmly.bind fun _ _ => ?_
    refine orRaise_calmly.bind fun found hfound => ?_
    obtain ⟨next, removed⟩ := found
    have hremoved := @simulate_removed _ _ _ _ (orRaise_eq_ok.1 hfound)
    refine (indexed_calmly ?_).bind fun surfaces _ => ?_
    · intro id hid
      obtain ⟨e, he, rfl⟩ := mem_map.1 hid
      rw [mem_filter, decide_eq_true_eq] at he
      have hheld := hremoved he.1
      unfold JournalModel.holds at hheld
      rw [he.2] at hheld
      exact (mem_iff_get ..).1
        (contains_iff_mem.1 hheld)
    · refine Avoids.bind ?_ fun parents _ => Avoids.bind ?_ fun _ _ => .ok _
      · refine .mapM fun e he => ?_
        rw [mem_filter, decide_eq_true_eq] at he
        have hheld := hremoved he.1
        unfold JournalModel.holds at hheld
        rw [he.2] at hheld
        obtain ⟨tab, htab⟩ := (mem_iff_get ..).1
          (contains_iff_mem.1 hheld)
        exact (orPanic_calmly htab).bind fun _ _ => .ok _
      · unfold Retirement.replacedTarget
        split
        · exact .ok _
        · exact .ok _
        · exact .ok _
        · exact .error (by simp)
  · exact .ok _

end Retirement

-- ==== assembly facts

namespace CreationAssembly

variable {plan : CreationAssembly} {m : JournalModel}

/-- The leaves of the tabs are captured. -/
def Leaved (plan : CreationAssembly) (tabs : BTreeMap UInt32 Tab) : Prop :=
  ∀ (id : UInt32) (tab : Tab), tabs[id]? = some tab →
    ∀ s ∈ tab.layout.leaves, ∃ leaf, plan.snapshot.surfaces[s]? = some leaf

theorem tabFacts_calmly
    (hleaved : plan.Leaved tabs) {paneId tabId : UInt32} {index : Usize}
    (htab : tabId ∈ tabs) : Calmly (plan.tabFacts tabs paneId tabId index) := by
  obtain ⟨tab, htab⟩ := (mem_iff_get ..).1 htab
  have hspec : ∀ s ∈ tab.layout.leaves, Calmly (plan.spec s) := by
    intro s hs
    obtain ⟨leaf, hleaf⟩ := hleaved tabId tab htab s hs
    exact (orPanic_calmly hleaf).bind fun _ _ => .ok _
  refine (orPanic_calmly htab).bind fun found hfound => ?_
  rw [orPanic_eq_ok, htab] at hfound
  cases hfound
  refine (hspec _ tab.layout.first_mem_leaves).bind fun created _ => ?_
  refine Avoids.bind ?_ fun split _ => Avoids.bind ?_ fun metadata _ => .ok _
  · refine .mapM fun entry hentry => ?_
    obtain ⟨target, surface, split⟩ := entry
    exact (hspec _ (mem_splits hentry)).bind fun _ _ => .ok _
  · refine .mapM fun s hs => ?_
    obtain ⟨leaf, hleaf⟩ := hleaved tabId tab htab s hs
    exact (orPanic_calmly hleaf).bind fun _ _ => .ok _

theorem paneFacts_calmly (hleaved : plan.Leaved tabs) {paneId : UInt32}
    (hids : ∀ id ∈ ids, id ∈ tabs) :
    Calmly (plan.paneFacts tabs paneId index ids) := by
  induction ids generalizing index with
  | nil => exact .ok []
  | cons id ids ih =>
    refine (tabFacts_calmly hleaved (hids id mem_cons_self)).bind
      fun here _ => ?_
    refine (ih fun x hx => hids x (mem_cons_of_mem _ hx)).bind
      fun later _ => ?_
    exact .ok _

theorem allTabFacts_calmly
    (hleaved : plan.Leaved tabs) {panes : List (UInt32 × Pane)}
    (hpanes : ∀ entry ∈ panes, ∀ id ∈ entry.2.tabs, id ∈ tabs) :
    Calmly (plan.allTabFacts tabs panes) := by
  induction panes with
  | nil => exact .ok []
  | cons entry panes ih =>
    refine (paneFacts_calmly hleaved
      (hpanes entry mem_cons_self)).bind fun here _ => ?_
    refine (ih fun x hx => hpanes x (mem_cons_of_mem _ hx)).bind
      fun later _ => ?_
    exact .ok _

variable {surviving : List UInt32}

theorem rootFacts_backed (hgraph : plan.Graph) {above : List DomainEvent}
    {panes : BTreeMap UInt32 Pane}
    (h : plan.rootFacts m (plan.keptTabs surviving)
      (plan.keptPanes (plan.keptTabs surviving))
      = .ok (some (above, tabs, panes))) :
    plan.Leaved tabs
      ∧ ∀ entry ∈ panes.toList, ∀ id ∈ entry.2.tabs, id ∈ tabs := by
  have hkept : plan.Leaved (plan.keptTabs surviving) := by
    intro id tab htab s hs
    obtain ⟨_, leaf, hleaf, _⟩ := hgraph.keptTabs_leaf htab hs
    exact ⟨leaf, hleaf⟩
  have hlisted : ∀ entry ∈ (plan.keptPanes (plan.keptTabs surviving)).toList,
      ∀ id ∈ entry.2.tabs, id ∈ plan.keptTabs surviving := by
    intro entry hentry id hid
    obtain ⟨captured, _, _, hpane⟩ :=
      keptPanes_iff.1 ((mem_toList_iff ..).1 hentry)
    rw [hpane, mem_filter] at hid
    exact contains_iff_mem.1 hid.2
  unfold rootFacts at h
  simp only at h
  split at h
  · obtain ⟨workspace, _, h⟩ := bind_ok h
    split at h
    · cases h
    · cases h
      exact ⟨hkept, hlisted⟩
  · obtain ⟨_, h⟩ | ⟨_, h⟩ := ite_eq_iff.1 h
    · cases h
    · cases h
      exact ⟨hkept, hlisted⟩
  · split at h
    · cases h
    · rename_i pane index _ tab htab
      obtain ⟨owner, _, h⟩ := bind_ok h
      cases h
      refine ⟨fun id t ht s hs => ?_, fun entry hentry id hid => ?_⟩
      · rw [get_insert] at ht
        split at ht
        · cases ht
          exact hkept _ tab htab s hs
        · exact hkept id t ht s hs
      · have hentry := (mem_toList_iff ..).1 hentry
        rw [get_insert] at hentry
        split at hentry
        · rw [← Option.some.inj hentry, mem_singleton] at hid
          rw [hid]
          exact mem_insert_self
        · simp at hentry

theorem facts_calmly : Calmly (plan.facts m surviving) := by
  refine orRaise_calmly.bind fun _ hgraph => ?_
  have hgraph := validateGraph_graph (orRaise_eq_ok.1 hgraph)
  refine rejectIf_calmly.bind fun _ hlive => ?_
  rw [rejectIf_eq_ok, Bool.not_eq_false] at hlive
  refine Avoids.bind ?_ fun found hfound => ?_
  · unfold rootFacts
    simp only
    split
    · refine orReject_calmly.bind fun workspace _ => ?_
      split
      · exact .ok none
      · exact .ok _
    · exact .ite (fun _ => .ok _) fun _ => .ok _
    · rename_i pane index hdest
      split
      · exact .ok none
      · unfold targetIsLive at hlive
        rw [hdest] at hlive
        simp only [Bool.and_eq_true, destinationIsLive, indexIsLive]
          at hlive
        have hpane := hlive.1.2
        split at hpane
        · rename_i owner howner
          exact (orPanic_calmly howner).bind fun _ _ => .ok _
        · cases hpane
  · split
    · exact .ok []
    · obtain ⟨hleaved, hpanes⟩ := rootFacts_backed hgraph hfound
      exact (allTabFacts_calmly hleaved hpanes).bind fun _ _ => .ok _

end CreationAssembly

-- ==== settlement

section Settlement

variable {m : JournalModel}

variable {plan : CreationAssembly}

theorem withPrepared_calmly {ready : List UInt32}
    (h : ∀ s ∈ ready, ∃ op, m.operations[member group s]? = some op)
    : Calmly (withPrepared m group plan ready) := by
  induction ready generalizing plan with
  | nil => exact .ok plan
  | cons s ready ih =>
    have hrest := fun x hx => h x (mem_cons_of_mem s hx)
    obtain ⟨op, hop⟩ := h s mem_cons_self
    refine (orPanic_calmly hop).bind fun op _ => ?_
    split
    · exact ih hrest
    · exact orReject_calmly.bind fun _ _ => ih hrest

theorem leafActivations_calmly {ready : List UInt32}
    (h : ∀ s ∈ ready, (∃ op, m.operations[member group s]? = some op)
      ∧ ∃ leaf, plan.snapshot.surfaces[s]? = some leaf) :
    Calmly (leafActivations m group plan ready) := by
  induction ready with
  | nil => exact .ok []
  | cons s ready ih =>
    obtain ⟨⟨op, hop⟩, leaf, hleaf⟩ := h s mem_cons_self
    refine (orPanic_calmly hop).bind fun op _ => ?_
    refine (orPanic_calmly hleaf).bind fun leaf _ => ?_
    refine (ih fun x hx => h x (mem_cons_of_mem s hx)).bind
      fun later _ => ?_
    exact .ok _

theorem groupOf_calmly {message : String} : Calmly (groupOf m op message) := by
  unfold groupOf
  split
  · exact orReject_calmly.bind fun _ _ => orReject_calmly.bind
      fun _ _ => .ok _
  · exact .error (by simp)

theorem leafOutcome_found {surface : UInt32} {o : OperationOutcome}
    (hop : ∃ found, m.operations[op.id]? = some found)
    (h : leafOutcome m group op.id outcome surface = some o) :
    ∃ found, m.operations[member group surface]? = some found := by
  unfold leafOutcome at h
  split at h
  · rename_i hself
    rwa [hself]
  · obtain ⟨found, hfound, _⟩ := Option.bind_eq_some_iff.1 h
    exact ⟨found, hfound⟩

theorem settle_calmly (hop : ∃ found, m.operations[op.id]? = some found) :
    Calmly (Assembly.settle m op outcome) := by
  refine groupOf_calmly.bind fun found _ => ?_
  obtain ⟨group, coordinator, plan⟩ := found
  refine .ite (fun _ => .ok _) fun _ => .ite (fun _ => .ok _) fun _ =>
    .ite (fun _ => .ok _) fun _ => .ite (fun _ => .ok _) fun _ => ?_
  have hready : ∀ s ∈ ((plan.snapshot.surfaces.keys.map fun surface =>
      (surface, leafOutcome m group op.id outcome surface)).filter
        (·.2 = some .succeeded)).map Prod.fst,
      (∃ found, m.operations[member group s]? = some found)
      ∧ ∃ leaf, plan.snapshot.surfaces[s]? = some leaf := by
    intro s hs
    obtain ⟨pair, hpair, rfl⟩ := mem_map.1 hs
    obtain ⟨hpair, hsucceeded⟩ := mem_filter.1 hpair
    obtain ⟨surface, hsurface, rfl⟩ := mem_map.1 hpair
    exact ⟨leafOutcome_found hop (of_decide_eq_true hsucceeded),
      (mem_iff_get ..).1 (mem_keys.1 hsurface)⟩
  refine (withPrepared_calmly fun s hs => (hready s hs).1).bind
    fun completed _ => ?_
  refine CreationAssembly.facts_calmly.bind fun facts _ => ?_
  exact (leafActivations_calmly hready).bind fun _ _ => .ok _

theorem peerStates_calmly {settling : OperationId} {surfaces : List UInt32} :
    Calmly (peerStates m group settling result surfaces) := by
  induction surfaces with
  | nil => exact .ok []
  | cons surface surfaces ih =>
    exact orReject_calmly.bind fun _ _ => ih.bind fun _ _ => .ok _

theorem authorize_calmly {discarded : Bool} {states : List Assembly.PeerState} :
    Calmly (Assembly.authorize discarded states) := by
  induction states with
  | nil => exact .ok []
  | cons state states ih =>
    cases state with
    | held op data deferred =>
      exact orReject_calmly.bind fun _ _ => ih.bind fun _ _ => .ok _
    | fell => exact ih
    | waits => exact ih

theorem preparedMember_calmly : Calmly (preparedMember m op result) := by
  refine groupOf_calmly.bind fun found _ => ?_
  obtain ⟨group, coordinator, plan⟩ := found
  refine peerStates_calmly.bind fun states _ => ?_
  refine .ite (fun _ => .ok _) fun _ => .ite (fun _ => .ok _) fun _ => ?_
  exact authorize_calmly.bind fun _ _ => .ok _

theorem cancelUnstartedMember_calmly (hop : ∃ found, m.operations[op.id]? = some found) :
    Calmly (cancelUnstartedMember m op reason) := by
  unfold cancelUnstartedMember
  split
  · refine .ite (fun _ => settle_calmly hop) fun _ => ?_
    refine preparedMember_calmly.bind fun decision _ => ?_
    split
    · exact rejectIf_calmly.bind fun _ _ => .ok _
    · exact .error (by simp)
  · exact .error (by simp)

end Settlement

-- ==== creations

section Creations

variable {m : JournalModel} {id : OperationId}

theorem validateTarget_calmly {plan : CreationPlan} :
    Calmly (Creation.validateTarget m plan) :=
  rejectIf_calmly

theorem finishCreation_calmly :
    Calmly (Creation.finishCreation m id result) := by
  refine orReject_calmly.bind fun op _ => rejectIf_calmly.bind
    fun _ _ => orReject_calmly.bind fun plan _ => ?_
  exact .ite (fun _ => preparedMember_calmly) fun _ => .ok _

theorem finishCleanup_calmly (hkeyed : Keyed m) :
    Calmly (Creation.finishCleanup m id) := by
  refine orReject_calmly.bind fun op hop => rejectIf_calmly.bind
    fun _ _ => orReject_calmly.bind fun outcome _ => ?_
  have hop := orReject_eq_ok.1 hop
  refine .ite (fun _ => settle_calmly ⟨op, ?_⟩) fun _ => ?_
  · rwa [hkeyed hop]
  · refine Avoids.bind ?_ fun result _ => Avoids.bind ?_ fun events _ => .ok _
    · cases outcome with
      | succeeded => exact orReject_calmly.bind fun _ _ => .ok _
      | failed reason | cancelled reason | superseded reason
      | uncertain reason => exact .ok _
    · refine .ite (fun _ => ?_) fun _ => .ok []
      exact orReject_calmly.bind fun _ _ => validateTarget_calmly.bind
        fun _ _ => rejectIf_calmly.bind fun _ _ => .ok _

theorem rejectInstallation_calmly (hkeyed : Keyed m) :
    Calmly (Creation.rejectInstallation m id reason) := by
  refine orReject_calmly.bind fun op hop => rejectIf_calmly.bind
    fun _ _ => ?_
  have hop := orReject_eq_ok.1 hop
  refine .ite (fun _ => settle_calmly ⟨op, ?_⟩) fun _ => .ok _
  rwa [hkeyed hop]

theorem cancelUnstartedCreation_calmly (hkeyed : Keyed m)
    : Calmly (Creation.cancelUnstartedCreation m id reason) := by
  refine orReject_calmly.bind fun op hop => rejectIf_calmly.bind
    fun _ _ => ?_
  have hop := orReject_eq_ok.1 hop
  refine .ite (fun _ => cancelUnstartedMember_calmly ⟨op, ?_⟩)
    fun _ => .ok _
  rwa [hkeyed hop]

theorem resume_keyed (hkeyed : Keyed m)
    {plan : CreationPlan} {resumed : JournalModel}
    (hop : m.operations[id]? = some op)
    (h : Creation.resume m id op plan = .ok resumed) : Keyed resumed := by
  have hone : ∀ {k : OperationId} {found : Operation},
      (m.operations.insert id (Creation.reopened op))[k]? = some found →
      found.id = k := by
    intro k found hfound
    rw [get_insert] at hfound
    split at hfound
    · rename_i hk
      cases hfound
      exact (hkeyed hop).trans hk
    · exact hkeyed hfound
  unfold Creation.resume at h
  split at h
  · obtain ⟨coordinator, hcoordinator, h⟩ := bind_ok h
    have hcoordinator := orReject_eq_ok.1 hcoordinator
    split at h
    · cases h
      intro k found hfound
      rw [get_insert] at hfound
      split at hfound
      · rename_i hk
        cases hfound
        exact (hone hcoordinator).trans hk
      · exact hone hfound
    · cases h
      intro k found hfound
      exact hone hfound
  · cases h
    intro k found hfound
    exact hone hfound

theorem reconcile_calmly (hkeyed : Keyed m) {evidence : DataRef}
    {discarded : Option String} :
    Calmly (Creation.reconcile m id evidence discarded) := by
  refine orReject_calmly.bind fun op hop => orReject_calmly.bind
    fun plan _ => rejectIf_calmly.bind fun _ _ => ?_
  have hop := orReject_eq_ok.1 hop
  refine Avoids.bind ?_ fun resumed hresumed => ?_
  · unfold Creation.resume
    split
    · refine orReject_calmly.bind fun _ _ => ?_
      exact .ite (fun _ => .ok _) fun _ => .ok _
    · exact .ok _
  · have hresumed : Keyed resumed := resume_keyed hkeyed hop hresumed
    refine Avoids.bind ?_ fun decision _ => .ok _
    cases discarded with
    | some reason => exact rejectInstallation_calmly hresumed
    | none => exact finishCleanup_calmly hresumed

end Creations

-- ==== the trial

/-- Numbering runs past the last revision when there are too many facts,
and only then. -/
theorem record_overflows {o : DecideError} {after : UInt64}
    (hroom : after.toNat + index < UInt64.size) :
    record o after index events = .error o
      ↔ UInt64.size ≤ after.toNat + index + events.length := by
  induction events generalizing index with
  | nil =>
    constructor
    · intro h
      cases h
    · intro h
      rw [length_nil] at h
      omega
  | cons event events ih =>
    rw [length_cons]
    unfold record revisionAt
    by_cases hnext : after.toNat + (index + 1) < UInt64.size
    · rw [if_pos hnext]
      have hrest := ih hnext
      constructor
      · intro h
        cases hlater : record o after (index + 1) events with
        | error e =>
          have he : record o after (index + 1) events = .error o := by
            rw [hlater] at h ⊢
            exact h
          have hlong := hrest.1 he
          omega
        | ok later =>
          rw [hlater] at h
          cases h
      · intro h
        have he := hrest.2 (by omega)
        show (record o after (index + 1) events >>= _) = _
        rw [he]
        rfl
    · rw [if_neg hnext]
      constructor
      · intro _
        omega
      · intro _
        rfl

/-- The facts of the trial have no revision left for the last of them. -/
def CreationAssembly.TrialOverflows (plan : CreationAssembly)
    (m : JournalModel) : Prop :=
  plan.targetIsLive m = true
    ∧ plan.snapshot.surfaces.isEmpty = false
    ∧ plan.inputs.keys = plan.snapshot.surfaces.keys
    ∧ (m.applied.batch.getD 0).toNat + 1 < UInt64.size
    ∧ ∃ facts, plan.facts m plan.snapshot.surfaces.keys = .ok facts
      ∧ UInt64.size
        ≤ (m.applied.revision.getD 0).toNat + facts.length

section Trial

variable {m : JournalModel} {operation : OperationId} {commandId : String}
  {input : DataRef} {plan : CreationAssembly}

theorem memberOperations_calmly {leaves : List (UInt32 × Surface)}
    (h : ∀ entry ∈ leaves, entry.1 ∈ plan.inputs) :
    Calmly (memberOperations m operation commandId plan leaves) := by
  induction leaves with
  | nil => exact .ok []
  | cons entry leaves ih =>
    obtain ⟨surface, value⟩ := entry
    obtain ⟨found, hfound⟩ :=
      (mem_iff_get ..).1 (h _ mem_cons_self)
    refine Avoids.bind ?_ fun op _ => ?_
    · exact orReject_calmly.bind fun _ _ => orReject_calmly.bind
        fun _ _ => (orPanic_calmly hfound).bind fun _ _ => .ok _
    · exact (ih fun x hx => h x (mem_cons_of_mem _ hx)).bind
        fun _ _ => .ok _

/-- A trial panics when it overflows. -/
theorem tryBatch_panics {exhausted : String} :
    tryBatch m exhausted .panic events = .error .panic
      ↔ (m.applied.batch.getD 0).toNat + 1 < UInt64.size
        ∧ UInt64.size ≤ (m.applied.revision.getD 0).toNat + events.length := by
  have hroom : (m.applied.revision.getD 0).toNat + 0 < UInt64.size :=
    (m.applied.revision.getD 0).toNat_lt
  have hcounts : record .panic (m.applied.revision.getD 0) 0 events
      = .error .panic ↔ _ := record_overflows hroom
  rw [Nat.add_zero] at hcounts
  constructor
  · intro h
    by_cases hover : UInt64.size
        ≤ (m.applied.revision.getD 0).toNat + events.length
    · refine ⟨?_, hover⟩
      by_contra hlast
      have hnone : checkedSucc (m.applied.batch.getD 0) = none := by
        unfold checkedSucc
        exact if_neg (by omega)
      unfold tryBatch nextBatch at h
      rw [hnone] at h
      cases h
    · have hcalm : Calmly (tryBatch m exhausted .panic events) := by
        refine orReject_calmly.bind fun _ _ => Avoids.bind ?_ fun _ _ =>
          orInvalid_calmly.bind fun _ _ => .ok ()
        exact fun h => hover (hcounts.1 h)
      exact absurd h hcalm
  · rintro ⟨hbatch, hover⟩
    unfold tryBatch nextBatch checkedSucc
    rw [if_pos (by omega), hcounts.2 hover]
    rfl

theorem prepareAssembly_panics :
    Assembly.prepareAssembly m operation commandId input plan
        = .error .panic ↔ plan.TrialOverflows m := by
  constructor
  · intro h
    by_contra hover
    refine absurd h ?_
    refine rejectIf_calmly.bind fun _ hchecked => ?_
    have hchecked := rejectIf_eq_ok.1 hchecked
    simp only [not_or, Bool.not_eq_false, Bool.not_eq_true, ne_eq,
      not_not] at hchecked
    obtain ⟨hlive, hfilled, hkeys⟩ := hchecked
    refine CreationAssembly.facts_calmly.bind fun facts hfacts => ?_
    refine Avoids.bind ?_ fun _ _ => ?_
    · intro htrial
      obtain ⟨hbatch, hlong⟩ := tryBatch_panics.1 htrial
      exact hover ⟨hlive, hfilled, hkeys, hbatch, facts, hfacts, hlong⟩
    · refine (memberOperations_calmly fun entry hentry => ?_).bind
        fun _ _ => .ok _
      rw [← Std.ExtTreeMap.mem_keys, hkeys, Std.ExtTreeMap.mem_keys]
      exact (mem_iff_get ..).2
        ⟨entry.2, (mem_toList_iff ..).1 hentry⟩
  · rintro ⟨hlive, hfilled, hkeys, hbatch, facts, hfacts, hlong⟩
    unfold Assembly.prepareAssembly rejectIf
    rw [if_neg (by simp [hlive, hfilled, hkeys])]
    show (plan.facts m plan.snapshot.surfaces.keys >>= _) = _
    rw [hfacts]
    show (tryBatch m "batch exhausted" .panic facts >>= _) = _
    rw [tryBatch_panics.2 ⟨hbatch, hlong⟩]
    rfl

end Trial

-- ==== every command

/-- The command is the preparation of an assembly whose trial
overflows. -/
def StructuralCommand.Overflows (m : JournalModel) :
    StructuralCommand → Prop
  | .prepareAssembly _ _ _ plan => plan.TrialOverflows m
  | _ => False

theorem decideCommand_panics {m : JournalModel} (hm : WellFormed m)
    (hkeyed : Keyed m) {command : StructuralCommand} :
    decideCommand m command = .error .panic ↔ command.Overflows m := by
  have hcalm : ∀ {x : Decided StructuralDecision}, Calmly x →
      (x = .error .panic ↔ False) :=
    fun h => ⟨h, False.elim⟩
  cases command with
  | prepareAssembly => exact prepareAssembly_panics
  | reconcilePreparation => exact hcalm (reconcile_calmly hkeyed)
  | reconcileRetirement | recoverOperation | recordCapture
  | markPreparationUncertain =>
    exact hcalm (orReject_calmly.bind fun _ _ => rejectIf_calmly.bind
      fun _ _ => .ok _)
  | replace => exact hcalm (replace_calmly hm)
  | prepareForward => exact hcalm (.ok _)
  | finishForward operation outcome =>
    refine hcalm (orReject_calmly.bind fun _ _ => Avoids.bind ?_
      fun _ _ => .ok _)
    cases outcome with
    | succeeded | uncertain reason | failed reason | cancelled reason =>
      exact .ok _
    | superseded reason => exact .error (by simp)
  | close => exact hcalm close_calmly
  | finishRetirement => exact hcalm finishRetirement_calmly
  | retireEngine | renameTab =>
    exact hcalm (rejectIf_calmly.bind fun _ _ => .ok _)
  | openEngine =>
    refine hcalm (rejectIf_calmly.bind fun _ _ => Avoids.bind ?_
      fun _ _ => .ok _)
    exact .ite (fun _ => orReject_calmly.bind fun _ _ => .ok _)
      fun _ => .ok _
  | prepareCreation =>
    refine hcalm (validateTarget_calmly.bind fun _ _ => ?_)
    exact rejectIf_calmly.bind fun _ _ => rejectIf_calmly.bind
      fun _ _ => orReject_calmly.bind fun _ _ => .ok _
  | cancelUnstartedCreation =>
    exact hcalm (cancelUnstartedCreation_calmly hkeyed)
  | rejectInstallation => exact hcalm (rejectInstallation_calmly hkeyed)
  | finishCleanup => exact hcalm (finishCleanup_calmly hkeyed)
  | finishCreation => exact hcalm finishCreation_calmly
  | resetCategories =>
    exact hcalm ((moveToNormal_calmly hm fun _ h => h).bind fun _ _ => .ok _)
  | createCategory =>
    exact hcalm (rejectIf_calmly.bind fun _ _ => named_calmly.bind
      fun _ _ => .ok _)
  | renameCategory =>
    exact hcalm (mutableCategory_calmly.bind fun _ _ => named_calmly.bind
      fun _ _ => .ok _)
  | deleteCategory =>
    exact hcalm (mutableCategory_calmly.bind fun _ _ =>
      (moveToNormal_calmly hm fun _ h => h).bind fun _ _ => .ok _)
  | reorderCategory =>
    exact hcalm (rejectIf_calmly.bind fun _ _ => orReject_calmly.bind
      fun _ _ => rejectIf_calmly.bind fun _ _ => .ok _)
  | setWorkspaceCategory =>
    exact hcalm (rejectIf_calmly.bind fun _ _ => orReject_calmly.bind
      fun _ _ => .ok _)
  | updateWorkspaceMeta | setWorkspaceAttachMapping =>
    exact hcalm (orReject_calmly.bind fun _ _ => .ok _)
  | moveWorkspace => exact hcalm (moveWorkspace_calmly hm)
  | moveTab pane tab index =>
    refine hcalm ?_
    show Calmly (Metadata.moveTab m pane tab index)
    unfold Metadata.moveTab
    split
    · exact .ite (fun _ => .ok _) fun _ => .ok _
    · exact .ok _
  | setPaneRatio =>
    exact hcalm (rejectIf_calmly.bind fun _ _ => orReject_calmly.bind
      fun _ _ => checkSplit_calmly.bind fun _ _ => .ok _)
  | setSurfaceRatio =>
    exact hcalm (orReject_calmly.bind fun _ _ => rejectIf_calmly.bind
      fun _ _ => checkSplit_calmly.bind fun _ _ => .ok _)

/-- Deciding ends in a decision or a rejection unless the trial of an
assembly overflows. -/
theorem decideStructure_calm_iff {m : JournalModel} (hm : Reachable m)
    (command : StructuralCommand) :
    decideStructure m command ≠ .error .panic ↔ ¬ command.Overflows m := by
  have hcommand : decideCommand m command = .error .panic ↔ _ :=
    decideCommand_panics hm.wellFormed hm.recorded.keyed
  refine not_congr ⟨fun h => ?_, fun h => ?_⟩
  · by_contra hover
    refine absurd h (rejectIf_calmly.bind fun _ _ => ?_)
    exact Avoids.bind (fun h => hover (hcommand.1 h)) fun _ _ =>
      tryBatch_calmly.bind fun _ _ => .ok _
  · have hactive : m.engineRetired = false := by
      cases command with
      | prepareAssembly operation commandId input plan =>
        have hlive := h.1
        unfold CreationAssembly.targetIsLive at hlive
        simp only [Bool.and_eq_true, Bool.not_eq_true'] at hlive
        exact hlive.1.1
      | _ => exact h.elim
    unfold decideStructure rejectIf
    rw [if_neg (by simp [hactive])]
    show (decideCommand m command >>= _) = _
    rw [hcommand.2 h]
    rfl

-- ==== a trial that overflows

section Idle

/-- The model at another journal position. -/
def JournalModel.position (m : JournalModel) (n : UInt64) : JournalModel :=
  { m with applied := ⟨some n, some n⟩ }

variable {m : JournalModel} {id : UInt32} {tab : Tab} {n b : UInt64}

/-- Giving a tab the name it has moves the position and nothing else. -/
theorem evolve_idle (htab : m.tabs[id]? = some tab)
    (hbatch : ∀ last ∈ m.applied.batch, last < b)
    (hrevision : m.applied.revision.getD 0 = n) :
    evolve m ⟨b, [⟨n + 1, .tabExplicitNameSet id tab.explicitName⟩]⟩
      = .ok { m with applied := ⟨some b, some (n + 1)⟩ } := by
  have hchecked : checkBatch m b = .ok () := by
    unfold checkBatch
    split
    · rename_i last hlast
      exact if_neg (UInt64.not_le.2 (hbatch last hlast))
    · rfl
  have hsame : m.tabs.insert id { tab with explicitName := tab.explicitName }
      = m.tabs := by
    refine ext_getElem? fun k => ?_
    rw [get_insert]
    split
    · rename_i hk
      rw [← hk, htab]
    · rfl
  have happly : apply m (.tabExplicitNameSet id tab.explicitName)
      = .ok m := by
    show editTab m id _ = _
    unfold editTab modify get
    rw [htab]
    exact congrArg (fun tabs => Except.ok { m with tabs }) hsame
  have hone : applyRecorded m
      ⟨n + 1, .tabExplicitNameSet id tab.explicitName⟩
      = .ok { m with applied := { m.applied with revision := some (n + 1) } }
      := by
    unfold applyRecorded
    dsimp only
    rw [hrevision, if_neg (fun h => h rfl), happly]
    rfl
  unfold evolve evolveOwned applyRecordedAll
  rw [hchecked]
  show (applyRecorded m _ >>= _) >>= _ = _
  rw [hone]
  rfl

theorem accepts_idle (hactive : m.engineRetired = false)
    (htab : m.tabs[id]? = some tab) (hbatch : m.applied.batch.getD 0 ≤ n)
    (hrevision : m.applied.revision.getD 0 = n)
    (hroom : n.toNat + 1 < UInt64.size) : Commanded m (m.position (n + 1)) := by
  have hstep : (n + 1).toNat = n.toNat + 1 := by
    rw [UInt64.toNat_add]
    exact Nat.mod_eq_of_lt hroom
  have hafter : ∀ {k : UInt64}, m.applied.batch.getD 0 < k →
      ∀ last ∈ m.applied.batch, last < k := by
    intro k hk last hlast
    rw [Option.mem_def] at hlast
    rwa [hlast] at hk
  have hlast := UInt64.le_iff_toNat_le.1 hbatch
  let e : DomainEvent := .tabExplicitNameSet id tab.explicitName
  refine ⟨[e], ⟨.renameTab id tab.explicitName, .plain [e] .updated, ?_,
    rfl⟩, ⟨n + 1, [⟨n + 1, e⟩]⟩, rfl, evolve_idle htab (hafter ?_) hrevision⟩
  · obtain ⟨next, hnext⟩ :
        ∃ next, checkedSucc (m.applied.batch.getD 0) = some next := by
      unfold checkedSucc
      rw [if_pos (by omega)]
      exact ⟨_, rfl⟩
    have hsucc := checkedSucc_eq_some.1 hnext
    have hrecord : record (.reject ⟨"structure revision range exhausted"⟩)
        (m.applied.revision.getD 0) 0 [e] = .ok [⟨n + 1, e⟩] := by
      unfold record revisionAt
      rw [hrevision, if_pos (by omega)]
      rfl
    have hevolve := evolve_idle htab
      (hafter (UInt64.lt_iff_toNat_lt.2 (by omega : _ < next.toNat)))
      hrevision
    refine bind_eq_ok.2 ⟨(), rejectIf_eq_ok.2 (by simp [hactive]), ?_⟩
    refine bind_eq_ok.2 ⟨.plain [e] .updated, ?_, ?_⟩
    · refine bind_eq_ok.2 ⟨(), rejectIf_eq_ok.2 ?_, rfl⟩
      rw [Bool.not_eq_false]
      exact contains_iff_mem.2
        ((mem_iff_get ..).2 ⟨tab, htab⟩)
    · refine bind_eq_ok.2 ⟨(), ?_, rfl⟩
      refine bind_eq_ok.2 ⟨next, orReject_eq_ok.2 hnext, ?_⟩
      refine bind_eq_ok.2 ⟨_, hrecord, ?_⟩
      exact bind_eq_ok.2 ⟨_, orInvalid_eq_ok.2 hevolve, rfl⟩
  · rw [UInt64.lt_iff_toNat_lt, hstep]
    omega

theorem reaches_position (hm : Reachable m)
    (hactive : m.engineRetired = false) (htab : m.tabs[id]? = some tab)
    (hbatch : m.applied.batch.getD 0 ≤ n)
    (hrevision : m.applied.revision.getD 0 = n) (k : Nat)
    (hroom : n.toNat + (k + 1) < UInt64.size) :
    Reachable (m.position (UInt64.ofNat (n.toNat + (k + 1)))) := by
  have hnat : ∀ {x : Nat}, x < UInt64.size → (UInt64.ofNat x).toNat = x :=
    fun h => Nat.mod_eq_of_lt h
  induction k with
  | zero =>
    have hone := accepts_idle hactive htab hbatch hrevision hroom
    have hn : UInt64.ofNat (n.toNat + 1) = n + 1 := by
      rw [UInt64.ofNat_add, UInt64.ofNat_toNat]
      rfl
    rw [hn]
    exact Relation.ReflTransGen.tail hm hone
  | succ k ih =>
    have hbefore := ih (by omega)
    have hone := accepts_idle
      (m := m.position (UInt64.ofNat (n.toNat + (k + 1))))
      (n := UInt64.ofNat (n.toNat + (k + 1))) hactive htab
      (UInt64.le_refl _) rfl (by rw [hnat (by omega)]; omega)
    have hn : UInt64.ofNat (n.toNat + (k + 1 + 1))
        = UInt64.ofNat (n.toNat + (k + 1)) + 1 := by
      rw [← Nat.add_assoc, UInt64.ofNat_add]
      rfl
    rw [hn]
    exact Relation.ReflTransGen.tail hbefore hone

end Idle

/-- A workspace with one terminal, restored under new ids. -/
def workspaceAssembly : CreationAssembly where
  snapshot := {
    version := 1
    presentation := ⟨∅, ∅, ∅⟩
    panePosition := none
    root := ⟨.workspace, 11⟩
    originWorkspace := none
    workspaces := (∅ : BTreeMap UInt32 Workspace).insert 11
      { name := "workspace", category := 0, layout := .leaf 12,
        subtitle := "", description := "", attachMapping := none,
        metadata := ∅ }
    panes := (∅ : BTreeMap UInt32 Pane).insert 12 ⟨11, [13]⟩
    tabs := (∅ : BTreeMap UInt32 Tab).insert 13
      { pane := 12, name := "tab", explicitName := none,
        layout := .leaf 14 }
    surfaces := (∅ : BTreeMap UInt32 Surface).insert 14
      (newSurface 13 ⟨14, "terminal", none⟩)
    tabName := none }
  destination := .workspace
  inputs := (∅ : BTreeMap UInt32 DataRef).insert 14 ⟨2⟩
  undo := none
  omitFailed := false

theorem decideStructure_calm_iff_created :
    ∃ m, Reachable m ∧ m.holds ⟨.surface, 4⟩ = true
      ∧ decideStructure m (.prepareAssembly ⟨"restore"⟩ "command" ⟨1⟩
        workspaceAssembly) ≠ .error .panic := by
  obtain ⟨⟨batches, m⟩, hrun, hcheck⟩ := exists_of_check (by decide +kernel :
    (runCommands JournalModel.default creationRun).toOption.any
      (fun r => r.2.holds ⟨.surface, 4⟩
        && (workspaceAssembly.facts r.2
            workspaceAssembly.snapshot.surfaces.keys).toOption.all
          (fun facts => (r.2.applied.revision.getD 0).toNat + facts.length
            < UInt64.size))
      = true)
  obtain ⟨hheld, hroom⟩ := Bool.and_eq_true_iff.1 hcheck
  have hm : Reachable m := runCommands_runs hrun
  refine ⟨m, hm, hheld, (decideStructure_calm_iff hm _).2 ?_⟩
  rintro ⟨_, _, _, _, facts, hfacts, hlong⟩
  rw [hfacts] at hroom
  exact absurd hlong (Nat.not_le.2 (of_decide_eq_true hroom))

/-- The counters have room for the two events the command emits, not for
the five facts of its trial. -/
theorem prepareAssembly_panics_within_range :
    ∃ m operation commandId input plan, Reachable m
      ∧ (m.applied.batch.getD 0).toNat
        + (1 + plan.snapshot.surfaces.size) < UInt64.size
      ∧ (m.applied.revision.getD 0).toNat
        + (1 + plan.snapshot.surfaces.size) < UInt64.size
      ∧ decideStructure m (.prepareAssembly operation commandId input plan)
        = .error .panic := by
  obtain ⟨⟨batches, m⟩, hrun, hcheck⟩ := exists_of_check (by decide +kernel :
    (runCommands JournalModel.default creationRun).toOption.any
      (fun r => decide (r.2.engineRetired = false
          ∧ r.2.applied.batch.getD 0 ≤ r.2.applied.revision.getD 0
          ∧ (r.2.applied.revision.getD 0).toNat + 4 < UInt64.size)
        && (r.2.tabs[(3 : UInt32)]?).isSome
        && workspaceAssembly.targetIsLive r.2
        && (workspaceAssembly.facts r.2
            workspaceAssembly.snapshot.surfaces.keys).toOption.any
          (fun facts => facts.length = 5))
      = true)
  simp only [Bool.and_eq_true, decide_eq_true_eq,
    Option.isSome_iff_exists] at hcheck
  obtain ⟨⟨⟨⟨hactive, hbatch, hearly⟩, tab, htab⟩, hlive⟩, hfacts⟩ :=
    hcheck
  obtain ⟨facts, hfacts, hlength⟩ := exists_of_check hfacts
  have hlength := of_decide_eq_true hlength
  have hlate := reaches_position (runCommands_runs hrun) hactive htab hbatch
    rfl (UInt64.size - 4 - (m.applied.revision.getD 0).toNat) (by omega)
  have hposition : (m.applied.revision.getD 0).toNat
      + (UInt64.size - 4 - (m.applied.revision.getD 0).toNat + 1)
      = UInt64.size - 3 := by omega
  rw [hposition] at hlate
  have hemitted : (UInt64.ofNat (UInt64.size - 3)).toNat
      + (1 + workspaceAssembly.snapshot.surfaces.size) < UInt64.size := by
    decide +kernel
  have htried : UInt64.size
      ≤ (UInt64.ofNat (UInt64.size - 3)).toNat + facts.length := by
    rw [hlength]
    decide +kernel
  refine ⟨_, ⟨"restore"⟩, "command", ⟨1⟩, workspaceAssembly, hlate,
    hemitted, hemitted, ?_⟩
  by_contra hcalm
  refine (decideStructure_calm_iff hlate _).1 hcalm ?_
  exact ⟨hlive, by decide +kernel, by decide +kernel,
    (by decide +kernel : (UInt64.ofNat (UInt64.size - 3)).toNat + 1
      < UInt64.size), facts, hfacts, htried⟩

end Tasty.Core
