/-
Operations over whole runs: outcomes are final, and what an operation
reserved is in the model only once it succeeded.

A batch either creates no workspace, pane, tab or surface, or it is a
`Publication`: it creates only ids that one prepared operation reserved
and writes that operation's success. As no id is reserved twice, the
owners of everything in the model are succeeded operations.
-/
import Tasty.Core.Emission

namespace Tasty.Core

open List Option

-- ==== one fact of a decision

/-- What an operation is prepared as. -/
structure Operation.Planned (op : Operation) : Prop where
  creation : ∀ plan, op.creation = some plan →
    op.reserved = plan.reservedIds ∧ op.assembly = none
  assembly : ∀ plan, op.assembly = some plan →
    op.reserved = plan.reservedIds ∧ op.creation = none
      ∧ op.retirement = none ∧ op.forward = false
  plain : op.creation = none → op.assembly = none → op.reserved = []

section Planned

variable {op : Operation}

theorem Operation.Planned.ofCreation {plan : CreationPlan}
    (hplan : op.creation = some plan)
    (hreserved : op.reserved = plan.reservedIds)
    (hassembly : op.assembly = none) : op.Planned where
  creation p hp := by
    rw [hplan] at hp
    cases hp
    exact ⟨hreserved, hassembly⟩
  assembly p hp := by
    rw [hassembly] at hp
    cases hp
  plain hnone := by
    rw [hplan] at hnone
    cases hnone

theorem Operation.Planned.ofAssembly {plan : CreationAssembly}
    (hplan : op.assembly = some plan)
    (hreserved : op.reserved = plan.reservedIds)
    (hroles : op.creation = none ∧ op.retirement = none
      ∧ op.forward = false) : op.Planned where
  creation p hp := by
    rw [hroles.1] at hp
    cases hp
  assembly p hp := by
    rw [hplan] at hp
    cases hp
    exact ⟨hreserved, hroles⟩
  plain _ hnone := by
    rw [hplan] at hnone
    cases hnone

theorem Operation.Planned.ofNone (hcreation : op.creation = none)
    (hassembly : op.assembly = none) (hreserved : op.reserved = []) :
    op.Planned where
  creation p hp := by
    rw [hcreation] at hp
    cases hp
  assembly p hp := by
    rw [hassembly] at hp
    cases hp
  plain _ _ := hreserved

end Planned

variable {op : Operation}

theorem Operation.Planned.later {op' : Operation} (h : op.Planned)
    (hlater : op.Later op') : op'.Planned where
  creation plan hplan := by
    rw [hlater.reserved, hlater.assembly]
    exact h.creation plan (hlater.creation ▸ hplan)
  assembly plan hplan := by
    rw [hlater.reserved, hlater.creation, hlater.retirement, hlater.forward]
    exact h.assembly plan (hlater.assembly ▸ hplan)
  plain hcreation hassembly := by
    rw [hlater.reserved]
    exact h.plain (hlater.creation ▸ hcreation)
      (hlater.assembly ▸ hassembly)

theorem Operation.Planned.kind (h : op.Planned)
    {x : EntityId} (hx : x ∈ op.reserved) : x.kind ≠ .category := by
  cases hassembly : op.assembly with
  | some plan =>
    rw [(h.assembly plan hassembly).1] at hx
    exact CreationAssembly.reservedIds_kind hx
  | none =>
    cases hcreation : op.creation with
    | some plan =>
      rw [(h.creation plan hcreation).1] at hx
      exact Creation.reservedIds_kind hx
    | none =>
      rw [h.plain hcreation hassembly] at hx
      cases hx

/-- A member of the group names a leaf its coordinator plans; the
coordinator is there, or prepared in the same batch. -/
def Coordinated (m : JournalModel) (es : List DomainEvent)
    (plan : CreationPlan) (group : OperationId) : Prop :=
  ∃ coordinator aplan,
    (m.operations[group]? = some coordinator
      ∨ .operationPrepared coordinator ∈ es ∧ coordinator.id = group)
    ∧ coordinator.assembly = some aplan
    ∧ plan.surface.id ∈ aplan.snapshot.surfaces

/-- One fact of an accepted decision. -/
inductive Emitted (m : JournalModel) (es : List DomainEvent) :
    DomainEvent → Prop
  | quiet {e : DomainEvent} (h : Quiet m e) : Emitted m es e
  | structural {e : DomainEvent} (h : e.onLedger = false) : Emitted m es e
  | prepared {op : Operation} (h : op.Planned)
      (hmember : ∀ plan group, op.creation = some plan →
        plan.destination = .assembly group →
        Coordinated m es plan group) :
      Emitted m es (.operationPrepared op)
  | evicted {id : OperationId} : Emitted m es (.undoRecordEvicted id)
  | consumed {id : OperationId} : Emitted m es (.undoRecordConsumed id)
  | added {record : UndoRecord} {op : Operation}
      (hop : .operationPrepared op ∈ es) (hid : op.id = record.id) :
      Emitted m es (.undoRecordAdded record)
  | started {previous current : UInt64} :
      Emitted m es (.engineIncarnationStarted previous current)
  | wrote {e : DomainEvent} {id : OperationId} {o : OperationOutcome}
      (h : e.writes = some (id, o)) : Emitted m es e

variable {m : JournalModel}

theorem memberOperations_planned
    {operation : OperationId} {commandId : String}
    {plan : CreationAssembly} {leaves : List (UInt32 × Surface)}
    {members : List (Operation × StructuralEffect)}
    (h : Assembly.memberOperations m operation commandId plan leaves
      = .ok members) {effect : StructuralEffect}
    (hop : (op, effect) ∈ members) :
    op.Planned ∧ ∃ leaf ∈ leaves, ∃ cplan, op.creation = some cplan
      ∧ cplan.destination = .assembly operation
      ∧ cplan.surface.id = leaf.1 := by
  induction leaves generalizing members with
  | nil =>
    cases h
    cases hop
  | cons leaf leaves ih =>
    obtain ⟨surface, value⟩ := leaf
    obtain ⟨new, hnew, h⟩ := bind_ok h
    obtain ⟨rest, hrest, h⟩ := bind_ok h
    cases h
    rcases mem_cons.1 hop with hhead | hop
    · cases hhead
      obtain ⟨generation, _, hnew⟩ := bind_ok hnew
      obtain ⟨tab, _, hnew⟩ := bind_ok hnew
      obtain ⟨input, _, hnew⟩ := bind_ok hnew
      cases hnew
      exact ⟨.ofCreation rfl rfl rfl, _, mem_cons_self, _, rfl, rfl, rfl⟩
    · obtain ⟨hplanned, leaf, hleaf, hrest⟩ := ih hrest hop
      exact ⟨hplanned, leaf, mem_cons_of_mem _ hleaf, hrest⟩

variable {plan : CreationPlan} {group : OperationId}

variable {es : List DomainEvent}

theorem targetIsLive_coordinated (hlive : plan.targetIsLive m = true)
    (hgroup : plan.destination = .assembly group) :
    Coordinated m es plan group := by
  unfold CreationPlan.targetIsLive at hlive
  rw [hgroup] at hlive
  dsimp only at hlive
  unfold CreationPlan.groupIsLive at hlive
  split at hlive
  · cases hlive
  · rename_i coordinator hcoordinator
    rw [Bool.and_eq_true] at hlive
    obtain ⟨_, hlive⟩ := hlive
    split at hlive
    · rename_i aplan haplan
      rw [Bool.and_eq_true] at hlive
      exact ⟨coordinator, aplan, .inl hcoordinator, haplan,
        Std.ExtTreeMap.contains_iff_mem.1 hlive.1⟩
    · cases hlive

/-- The event that closes a target. -/
def CloseTarget.closing : CloseTarget → DomainEvent
  | .surface id => .surfaceClosed id
  | .tab id => .tabClosed id
  | .pane id => .paneClosed id
  | .workspace id => .workspaceClosed id

/-- What may go alone: a workspace, or one of several under one owner. -/
def JournalModel.Closable (m : JournalModel) : CloseTarget → Prop
  | .surface id => ∃ (owner : UInt32) (tab : Tab), m.tabs[owner]? = some tab
      ∧ id ∈ tab.layout.leaves ∧ 1 < tab.layout.leaves.length
  | .tab id => ∃ (owner : UInt32) (pane : Pane),
      m.panes[owner]? = some pane ∧ id ∈ pane.tabs ∧ 1 < pane.tabs.length
  | .pane id => ∃ (owner : UInt32) (w : Workspace),
      m.workspaces[owner]? = some w
      ∧ id ∈ w.layout.leaves ∧ 1 < w.layout.leaves.length
  | .workspace id => id ∈ m.workspaces

variable {target : CloseTarget}

/-- What a close really closes may go alone. -/
theorem closeActual_closable {actual : CloseTarget}
    (h : closeActual m target = some actual) : m.Closable actual := by
  cases target with
  | tab id =>
    obtain ⟨⟨owner, pane⟩, hfound, h⟩ := bind_eq_some_iff.1 h
    obtain ⟨hpane, hid⟩ := BTreeMap.findEntry_some hfound
    dsimp only at h
    split at h
    · cases h
    · rename_i hlong
      cases h
      exact ⟨owner, pane, hpane, contains_iff_mem.1 hid, Nat.lt_of_not_le hlong⟩
  | pane id =>
    obtain ⟨⟨owner, w⟩, hfound, h⟩ := bind_eq_some_iff.1 h
    obtain ⟨hw, hid⟩ := BTreeMap.findEntry_some hfound
    dsimp only at h
    split at h
    · cases h
    · rename_i hlong
      cases h
      exact ⟨owner, w, hw, contains_iff_mem.1 hid, Nat.lt_of_not_le hlong⟩
  | workspace id =>
    obtain ⟨w, hw, h⟩ := bind_eq_some_iff.1 h
    cases h
    exact (BTreeMap.mem_iff_get ..).2 ⟨w, hw⟩
  | surface id =>
    obtain ⟨⟨tabId, tab⟩, htab, h⟩ := bind_eq_some_iff.1 h
    obtain ⟨htab, hid⟩ := BTreeMap.findEntry_some htab
    dsimp only at h
    split at h
    case isTrue hlong =>
      cases h
      exact ⟨tabId, tab, htab, contains_iff_mem.1 hid, hlong⟩
    case isFalse =>
      obtain ⟨⟨paneId, pane⟩, hpane, h⟩ := bind_eq_some_iff.1 h
      obtain ⟨hpane, hid⟩ := BTreeMap.findEntry_some hpane
      dsimp only at h
      split at h
      case isTrue hlong =>
        cases h
        exact ⟨paneId, pane, hpane, contains_iff_mem.1 hid, hlong⟩
      case isFalse =>
        obtain ⟨⟨owner, w⟩, hw, h⟩ := bind_eq_some_iff.1 h
        obtain ⟨hw, hid⟩ := BTreeMap.findEntry_some hw
        dsimp only at h
        split at h
        case isTrue hlong =>
          cases h
          exact ⟨owner, w, hw, contains_iff_mem.1 hid, hlong⟩
        case isFalse =>
          cases h
          exact (BTreeMap.mem_iff_get ..).2 ⟨w, hw⟩

variable {removed : List EntityId}

theorem closeFacts_closing {event : DomainEvent} {ids : List UInt32}
    (h : closeFacts m target = some (event, removed, ids)) :
    ∃ actual, closeActual m target = some actual ∧ event = actual.closing := by
  obtain ⟨actual, hactual, h⟩ := bind_eq_some_iff.1 h
  refine ⟨actual, hactual, ?_⟩
  cases actual with
  | surface id =>
    cases h
    rfl
  | tab id | pane id =>
    obtain ⟨_, _, h⟩ := bind_eq_some_iff.1 h
    cases h
    rfl
  | workspace id =>
    obtain ⟨_, _, h⟩ := bind_eq_some_iff.1 h
    obtain ⟨_, _, h⟩ := bind_eq_some_iff.1 h
    cases h
    rfl

theorem closeFacts_event {event : DomainEvent} {ids : List UInt32}
    (h : closeFacts m target = some (event, removed, ids)) :
    event.onLedger = false ∧ event.introduces = [] := by
  obtain ⟨actual, -, rfl⟩ := closeFacts_closing h
  cases actual <;> exact ⟨rfl, rfl⟩

variable {e : DomainEvent}

/-- Resetting an engine removes only. -/
theorem resetEvents_mem (he : e ∈ Bootstrap.resetEvents m) :
    (∃ id, e = .undoRecordEvicted id) ∨ (∃ id, e = .workspaceClosed id)
      ∨ ∃ id, id ≠ 0 ∧ e = .categoryClosed id := by
  simp only [Bootstrap.resetEvents, mem_append, List.mem_map,
    mem_filter, decide_eq_true_eq] at he
  rcases he with (⟨record, _, rfl⟩ | ⟨id, _, rfl⟩) | ⟨id, ⟨_, hid⟩, rfl⟩
  · exact .inl ⟨_, rfl⟩
  · exact .inr (.inl ⟨id, rfl⟩)
  · exact .inr (.inr ⟨id, hid, rfl⟩)

theorem opened_mem {started : List DomainEvent} {reset : Bool} {name : String}
    (hstarted : started = [] ∨ ∃ previous current,
      started = [.engineIncarnationStarted previous current])
    (he : e ∈ started ++ (if reset then Bootstrap.resetEvents m else [])
      ++ Bootstrap.normalEvents m name) :
    (∃ previous current, e = .engineIncarnationStarted previous current)
      ∨ (∃ id, e = .undoRecordEvicted id)
      ∨ (∃ id, e = .workspaceClosed id)
      ∨ (∃ id, id ≠ 0 ∧ e = .categoryClosed id)
      ∨ e = .categoryCreated 0 name 0 := by
  rcases mem_append.1 he with he | he
  · rcases mem_append.1 he with he | he
    · rcases hstarted with rfl | ⟨previous, current, rfl⟩
      · cases he
      · exact .inl ⟨previous, current, mem_singleton.1 he⟩
    · split at he
      · rcases resetEvents_mem he with h | h | h
        · exact .inr (.inl h)
        · exact .inr (.inr (.inl h))
        · exact .inr (.inr (.inr (.inl h)))
      · cases he
  · unfold Bootstrap.normalEvents at he
    split at he
    · cases he
    · exact .inr (.inr (.inr (.inr (mem_singleton.1 he))))

/-- Each fact of a decision is of one kind. -/
theorem Emits.mem (h : Emits m es) (he : e ∈ es) : Emitted m es e := by
  cases h with
  | quiet h => exact .quiet (h e he)
  | categoryCreated | categoryMoved | tabMoved =>
    cases mem_singleton.1 he
    exact .structural rfl
  | opened hstarted =>
    rcases opened_mem hstarted he with ⟨_, _, rfl⟩ | ⟨_, rfl⟩ | ⟨_, rfl⟩
        | ⟨_, _, rfl⟩ | rfl
    · exact .started
    · exact .evicted
    · exact .structural rfl
    · exact .structural rfl
    · exact .structural rfl
  | forwarded =>
    cases mem_singleton.1 he
    refine .prepared (.ofNone rfl rfl rfl) fun plan group hplan => ?_
    cases hplan
  | creationPrepared hlive =>
    cases mem_singleton.1 he
    refine .prepared (.ofCreation rfl rfl rfl)
      fun plan group hplan hgroup => ?_
    cases hplan
    exact targetIsLive_coordinated hlive hgroup
  | assemblyPrepared hmembers =>
    rcases mem_cons.1 he with rfl | he
    · refine .prepared (.ofAssembly rfl rfl ⟨rfl, rfl, rfl⟩)
        fun plan group hplan => ?_
      cases hplan
    · obtain ⟨⟨op, effect⟩, hop, rfl⟩ := mem_map.1 he
      obtain ⟨hplanned, ⟨surface, value⟩, hleaf, cplan, hcplan, hdest,
        hsurface⟩ := memberOperations_planned hmembers hop
      refine .prepared hplanned fun plan group hplan hgroup => ?_
      rw [hcplan] at hplan
      cases hplan
      rw [hdest] at hgroup
      cases hgroup
      refine ⟨_, _, .inr ⟨mem_cons_self, rfl⟩, rfl, ?_⟩
      rw [hsurface, BTreeMap.mem_iff_get]
      exact ⟨value, Std.ExtTreeMap.mem_toList_iff_getElem?_eq_some.1 hleaf⟩
  | closed hclose hundoing =>
    simp only [cons_append, mem_cons, mem_append, not_mem_nil, or_false] at he
    rcases he with rfl | he | rfl
    · refine .prepared (.ofNone rfl rfl rfl) fun plan group hplan => ?_
      cases hplan
    · rcases hundoing e he with ⟨id, rfl⟩ | ⟨record, rfl, hid⟩
      · exact .evicted
      · exact .added mem_cons_self hid.symm
    · exact .structural (closeFacts_event hclose).1
  | replaced =>
    rcases mem_cons.1 he with rfl | he
    · refine .prepared (.ofNone rfl rfl rfl) fun plan group hplan => ?_
      cases hplan
    · cases mem_singleton.1 he
      exact .structural rfl
  | installed _ _ _ _ _ _ htail =>
    rcases mem_append.1 he with he | he
    · exact .structural (Creation.installEvents_built he).structural
    · exact .wrote (htail.mem he)
  | published _ _ hhead hfacts _ hactivations htail =>
    simp only [mem_append] at he
    rcases he with (((he | he) | he) | he) | he
    · obtain ⟨id, o, hwrites, _⟩ := hhead e he
      exact .wrote hwrites
    · exact .structural
        (CreationAssembly.facts_built hfacts he).structural
    · exact .structural (hactivations e he).structural
    · unfold Assembly.consumed at he
      split at he
      · cases mem_singleton.1 he
        exact .consumed
      · cases he
    · exact .wrote (htail.mem he)

section Facts

variable {m : JournalModel} {es : List DomainEvent}

theorem Emits.prepares (h : Emits m es) (hop : .operationPrepared op ∈ es) :
    op.Planned ∧ ∀ plan group, op.creation = some plan →
      plan.destination = .assembly group → Coordinated m es plan group := by
  cases h.mem hop with
  | quiet hquiet =>
    cases hquiet with
    | built hbuilt => cases hbuilt.structural
    | wrote hwrites => cases hwrites
  | structural hledger => cases hledger
  | prepared hplanned hmember => exact ⟨hplanned, hmember⟩
  | wrote hwrites => cases hwrites

/-- A decision authorizes an installation only for a success. -/
theorem Emits.pairs (h : Emits m es) (he : e ∈ es) : e.PairsCleanup := by
  cases e with
  | operationAwaitingCleanup id o cleanup data deferred =>
    cases cleanup with
    | discardPrepared => exact trivial
    | installPrepared surface previous =>
      cases h.mem he with
      | quiet hquiet =>
        cases hquiet with
        | built hbuilt => cases hbuilt.structural
        | awaiting _ _ hinstall => exact hinstall _ _ rfl
        | wrote hwrites => cases hwrites
      | structural hledger => cases hledger
      | wrote hwrites => cases hwrites
  | _ => exact trivial

theorem Emits.added (h : Emits m es) {record : UndoRecord}
    (hadded : .undoRecordAdded record ∈ es) :
    ∃ op, .operationPrepared op ∈ es ∧ op.id = record.id := by
  cases h.mem hadded with
  | quiet hquiet =>
    cases hquiet with
    | built hbuilt => cases hbuilt.structural
    | wrote hwrites => cases hwrites
  | structural hledger => cases hledger
  | added hop hid => exact ⟨_, hop, hid⟩
  | wrote hwrites => cases hwrites

end Facts

-- ==== invariants of the ledger

/-- What every reachable ledger satisfies. -/
structure Recorded (m : JournalModel) : Prop where
  keyed : Keyed m
  reservedOnce : ReservedOnce m
  planned : ∀ {id : OperationId} {op : Operation},
    m.operations[id]? = some op → op.Planned
  paired : ∀ {id : OperationId} {op : Operation},
    m.operations[id]? = some op → op.Paired
  members : ∀ {id : OperationId} {op : Operation} {plan : CreationPlan}
    {group : OperationId}, m.operations[id]? = some op →
    op.creation = some plan → plan.destination = .assembly group →
    Coordinated m [] plan group

variable {facts : List DomainEvent}

theorem Coordinated.after {m' : JournalModel}
    (h : Coordinated m facts plan group) (hfacts : Applies m facts m') :
    Coordinated m' [] plan group := by
  obtain ⟨coordinator, aplan, hfound, haplan, hleaf⟩ := h
  have hafter : ∃ later, m'.operations[group]? = some later
      ∧ coordinator.Later later := by
    rcases hfound with hfound | ⟨hprepared, rfl⟩
    · exact hfacts.keeps hfound
    · exact (hfacts.prepared hprepared).2
  obtain ⟨later, hlater, hkeeps⟩ := hafter
  exact ⟨later, aplan, .inl hlater, hkeeps.assembly.trans haplan, hleaf⟩

theorem Recorded.step {m' : JournalModel} (h : Recorded m)
    (hstep : Accepts m m' facts) : Recorded m' where
  keyed := hstep.applies.preserves (I := Keyed)
    (fun _ _ h => h) (fun _ _ _ _ h => apply_keyed h) h.keyed
  reservedOnce := hstep.applies.preserves (I := ReservedOnce)
    (fun _ _ h => h) (fun _ _ _ _ h => apply_reservedOnce h)
    h.reservedOnce
  planned {id op'} hop' := by
    rcases hstep.applies.origin hop' with
      ⟨op, hop, hlater⟩ | ⟨op, hmem, _, hlater⟩
    · exact (h.planned hop).later hlater
    · exact ((hstep.emits h.keyed).prepares hmem).1.later hlater
  paired := hstep.applies.preserves
    (I := fun m => ∀ {id : OperationId} {op : Operation},
      m.operations[id]? = some op → op.Paired)
    (fun _ _ h => h)
    (fun _ _ _ he hpaired hok =>
      apply_paired ((hstep.emits h.keyed).pairs he) hpaired hok) h.paired
  members {id op' plan group} hop' hplan hgroup := by
    rcases hstep.applies.origin hop' with
      ⟨op, hop, hlater⟩ | ⟨op, hmem, _, hlater⟩
    · rw [hlater.creation] at hplan
      obtain ⟨coordinator, aplan, hfound, hleaf⟩ :=
        h.members hop hplan hgroup
      have hthere : m.operations[group]? = some coordinator := by
        rcases hfound with hfound | ⟨hmem, _⟩
        · exact hfound
        · cases hmem
      exact Coordinated.after ⟨coordinator, aplan, .inl hthere, hleaf⟩
        hstep.applies
    · rw [hlater.creation] at hplan
      exact (((hstep.emits h.keyed).prepares hmem).2 plan group hplan
        hgroup).after hstep.applies

theorem Reachable.recorded (h : Reachable m) : Recorded m := by
  refine h.induct ?_ fun _ _ _ _ h hstep => h.step hstep
  constructor <;> simp [JournalModel.default, Keyed, ReservedOnce]

-- ==== publications

/-- A fact that publishes nothing: it creates at most a category,
succeeds no coordinator, and uses up no undo record. -/
structure Still (m : JournalModel) (e : DomainEvent) : Prop where
  creates : ∀ x ∈ e.introduces, x.kind = .category
  succeeds : ∀ id, e.writes = some (id, .succeeded) → Leaf m id
  keeps : ∀ id, e ≠ .undoRecordConsumed id

/-- A batch that creates ids of one operation alone, and writes its
success. -/
structure Publication (m : JournalModel) (key : OperationId)
    (op : Operation) (es : List DomainEvent) : Prop where
  found : m.operations[key]? = some op
  within : ∀ e ∈ es, ∀ x ∈ e.introduces, x ∈ op.reserved
  success : ∃ e ∈ es, e.writes = some (key, .succeeded)
  others : ∀ e ∈ es, ∀ id, e.writes = some (id, .succeeded) →
    id = key ∨ Leaf m id
  consumes : ∀ id, .undoRecordConsumed id ∈ es ↔
    ∃ plan, op.assembly = some plan ∧ plan.undo = some id
  prepares : ∀ new, .operationPrepared new ∉ es

variable {o : OperationOutcome}

section Still

variable {m : JournalModel} {e : DomainEvent}

theorem Still.structural (hledger : e.onLedger = false)
    (hcreates : ∀ x ∈ e.introduces, x.kind = .category) : Still m e where
  creates := hcreates
  succeeds id hwrites := by cases e <;> cases hwrites <;> cases hledger
  keeps id he := by
    rw [he] at hledger
    cases hledger

theorem Still.ledger (hcreates : e.introduces = [])
    (hwrites : e.writes = none) (hkeeps : ∀ id, e ≠ .undoRecordConsumed id) :
    Still m e where
  creates x hx := by
    rw [hcreates] at hx
    cases hx
  succeeds id hsuccess := by
    rw [hwrites] at hsuccess
    cases hsuccess
  keeps := hkeeps

theorem DomainEvent.introduces_of_writes {id : OperationId}
    (h : e.writes = some (id, o)) : e.introduces = [] := by
  cases e <;> first | rfl | cases h

theorem Quiet.still (h : Quiet m e) : Still m e := by
  cases h with
  | built hbuilt =>
    exact .structural hbuilt.structural
      fun x hx => absurd (hbuilt.within x hx) not_mem_nil
  | categoryClosed => exact .structural rfl fun x hx => by cases hx
  | engineRetired | resource | recovery | awaiting =>
    exact .ledger rfl rfl (by simp)
  | wrote hwrites hleaf =>
    refine ⟨fun x hx => ?_, fun id hsuccess => ?_, fun id he => ?_⟩
    · rw [DomainEvent.introduces_of_writes hwrites] at hx
      cases hx
    · rw [hwrites] at hsuccess
      cases hsuccess
      exact hleaf rfl
    · subst he
      cases hwrites

theorem Still.prepared : Still m (.operationPrepared op) :=
  .ledger rfl rfl (by simp)

end Still

theorem Assembly.mem_consumed {plan : CreationAssembly} {id : OperationId} :
    .undoRecordConsumed id ∈ consumed plan ↔ plan.undo = some id := by
  unfold consumed
  cases plan.undo <;> simp [eq_comm]

section Publication

variable {m : JournalModel}

theorem publication_installed (hm : Recorded m) {key : OperationId}
    {tail : List DomainEvent}
    (hop : m.operations[key]? = some op) (hplan : op.creation = some plan)
    (hcleanup : op.awaitsInstallation = true)
    (hpending : op.pendingOutcome = some o) (htail : Writes key o tail) :
    Publication m key op (Creation.installEvents m op plan ++ tail) := by
  -- an installation is only ever authorized for a success
  have ho : o = .succeeded := by
    have hsuccess := (hm.paired hop).install hcleanup
    rw [hpending] at hsuccess
    exact Option.some.inj hsuccess
  subst ho
  have hbuilt : ∀ e ∈ Creation.installEvents m op plan,
      Built plan.reservedIds e := fun e he => Creation.installEvents_built he
  obtain ⟨hreserved, hassembly⟩ := (hm.planned hop).creation plan hplan
  refine {
    found := hop
    within := fun e he x hx => ?_
    success := ?_
    others := fun e he id hwrites => ?_
    consumes := fun id => ⟨fun he => ?_, ?_⟩
    prepares := fun new he => ?_ }
  · rcases mem_append.1 he with he | he
    · rw [hreserved]
      exact (hbuilt e he).within x hx
    · rw [DomainEvent.introduces_of_writes (htail.mem he)] at hx
      cases hx
  · cases htail with
    | finished => exact ⟨_, mem_append_right _ mem_cons_self, rfl⟩
    | reconciled =>
      exact ⟨_, mem_append_right _ mem_cons_self, rfl⟩
    | kept hkept => cases hkept
  · rcases mem_append.1 he with he | he
    · rw [(hbuilt e he).writes] at hwrites
      cases hwrites
    · rw [htail.mem he] at hwrites
      cases hwrites
      exact .inl rfl
  · rcases mem_append.1 he with he | he
    · cases (hbuilt _ he).structural
    · cases htail.mem he
  · rintro ⟨aplan, haplan, _⟩
    rw [hassembly] at haplan
    cases haplan
  · rcases mem_append.1 he with he | he
    · cases (hbuilt _ he).structural
    · cases htail.mem he

theorem publication_published (hm : Recorded m) {coordinator : Operation}
    {plan completed : CreationAssembly} {ready : List UInt32}
    {head activations tail : List DomainEvent}
    (hgroup : m.operations[group]? = some coordinator)
    (hplan : coordinator.assembly = some plan)
    (hhead : ∀ e ∈ head, ∃ id o, e.writes = some (id, o) ∧ Leaf m id)
    (hfacts : completed.facts m ready = .ok facts)
    (hcompleted : ∀ x ∈ completed.reservedIds, x ∈ plan.reservedIds)
    (hactivations : ∀ e ∈ activations, Built [] e)
    (htail : Writes group .succeeded tail) :
    Publication m group coordinator
      (head ++ facts ++ activations ++ Assembly.consumed plan ++ tail) := by
  obtain ⟨hreserved, _⟩ := (hm.planned hgroup).assembly plan hplan
  have hbuilt : ∀ e ∈ facts, Built completed.reservedIds e :=
    fun e he => CreationAssembly.facts_built hfacts he
  -- each fact with what it creates, writes and uses up
  have hmem : ∀ e ∈ head ++ facts ++ activations
      ++ Assembly.consumed plan ++ tail,
      (∃ id o, e.writes = some (id, o) ∧ (Leaf m id ∨ id = group))
      ∨ Built plan.reservedIds e
      ∨ e ∈ Assembly.consumed plan := by
    intro e he
    simp only [mem_append] at he
    rcases he with (((he | he) | he) | he) | he
    · obtain ⟨id, o, hwrites, hleaf⟩ := hhead e he
      exact .inl ⟨id, o, hwrites, .inl hleaf⟩
    · exact .inr (.inl { hbuilt e he with
        within := fun x hx => hcompleted x ((hbuilt e he).within x hx) })
    · exact .inr (.inl (hactivations e he).of_nil)
    · exact .inr (.inr he)
    · exact .inl ⟨group, .succeeded, htail.mem he, .inr rfl⟩
  refine {
    found := hgroup
    within := fun e he x hx => ?_
    success := ?_
    others := fun e he id hwrites => ?_
    consumes := fun id => ⟨fun he => ?_, ?_⟩
    prepares := fun new he => ?_ }
  · rcases hmem e he with ⟨id, o, hwrites, _⟩ | hbuilt | hconsumed
    · rw [DomainEvent.introduces_of_writes hwrites] at hx
      cases hx
    · rw [hreserved]
      exact hbuilt.within x hx
    · unfold Assembly.consumed at hconsumed
      split at hconsumed
      · cases mem_singleton.1 hconsumed
        cases hx
      · cases hconsumed
  · cases htail with
    | finished => exact ⟨_, mem_append_right _ mem_cons_self, rfl⟩
    | reconciled =>
      exact ⟨_, mem_append_right _ mem_cons_self, rfl⟩
    | kept hkept => cases hkept
  · rcases hmem e he with ⟨id', o, hother, howner⟩ | hbuilt | hconsumed
    · rw [hother] at hwrites
      cases hwrites
      exact howner.symm
    · rw [hbuilt.writes] at hwrites
      cases hwrites
    · rw [Assembly.consumed_writes hconsumed] at hwrites
      cases hwrites
  · rcases hmem _ he with ⟨_, _, hwrites, _⟩ | hbuilt | hconsumed
    · cases hwrites
    · cases hbuilt.structural
    · exact ⟨plan, hplan, Assembly.mem_consumed.1 hconsumed⟩
  · rintro ⟨p, hp, hundo⟩
    rw [hplan] at hp
    cases hp
    exact mem_append_left _
      (mem_append_right _ (Assembly.mem_consumed.2 hundo))
  · rcases hmem _ he with ⟨_, _, hwrites, _⟩ | hbuilt | hconsumed
    · cases hwrites
    · cases hbuilt.structural
    · unfold Assembly.consumed at hconsumed
      split at hconsumed
      · cases mem_singleton.1 hconsumed
      · cases hconsumed

/-- A decision publishes nothing, or one operation. -/
theorem Emits.publication (h : Emits m es) (hm : Recorded m) :
    (∀ e ∈ es, Still m e) ∨ ∃ key op, Publication m key op es := by
  cases h with
  | quiet h => exact .inl fun e he => (h e he).still
  | categoryCreated =>
    refine .inl fun e he => ?_
    cases mem_singleton.1 he
    refine .structural rfl fun x hx => ?_
    cases mem_singleton.1 hx
    rfl
  | categoryMoved | tabMoved =>
    refine .inl fun e he => ?_
    cases mem_singleton.1 he
    exact .structural rfl fun x hx => by cases hx
  | opened hstarted =>
    refine .inl fun e he => ?_
    rcases opened_mem hstarted he with ⟨_, _, rfl⟩ | ⟨_, rfl⟩ | ⟨_, rfl⟩
        | ⟨_, _, rfl⟩ | rfl
    · exact .ledger rfl rfl (by simp)
    · exact .ledger rfl rfl (by simp)
    · exact .structural rfl fun x hx => by cases hx
    · exact .structural rfl fun x hx => by cases hx
    · refine .structural rfl fun x hx => ?_
      cases mem_singleton.1 hx
      rfl
  | forwarded | creationPrepared =>
    refine .inl fun e he => ?_
    cases mem_singleton.1 he
    exact .prepared
  | assemblyPrepared =>
    refine .inl fun e he => ?_
    rcases mem_cons.1 he with rfl | he
    · exact .prepared
    · obtain ⟨_, _, rfl⟩ := mem_map.1 he
      exact .prepared
  | closed hclose hundoing =>
    refine .inl fun e he => ?_
    simp only [cons_append, mem_cons, mem_append, not_mem_nil, or_false] at he
    rcases he with rfl | he | rfl
    · exact .prepared
    · rcases hundoing e he with ⟨id, rfl⟩ | ⟨record, rfl, _⟩
      · exact .ledger rfl rfl (by simp)
      · exact .ledger rfl rfl (by simp)
    · obtain ⟨hledger, hcreates⟩ := closeFacts_event hclose
      refine .structural hledger fun x hx => ?_
      rw [hcreates] at hx
      cases hx
  | replaced =>
    refine .inl fun e he => ?_
    rcases mem_cons.1 he with rfl | he
    · exact .prepared
    · cases mem_singleton.1 he
      exact .structural rfl fun x hx => by cases hx
  | installed hop hplan _ hcleanup hpending _ htail =>
    exact .inr ⟨_, _,
      publication_installed hm hop hplan hcleanup hpending htail⟩
  | published hgroup hplan hhead hfacts hcompleted hactivations htail =>
    exact .inr ⟨_, _, publication_published hm hgroup hplan hhead hfacts
      hcompleted hactivations htail⟩

end Publication

end Tasty.Core
