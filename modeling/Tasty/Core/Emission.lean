/-
What a decision can be.

Every accepted command emits one of the shapes of `Emits`. The commands
over outcomes run twice in the source: on the model, and on the scratch
model of a reconciliation, whose facts are then rewritten. `Resumes`
covers both runs, so each settlement is read once.
-/
import Tasty.Core.PlanFacts
import Tasty.Core.Ledger
import Tasty.Core.Decide

namespace Tasty.Core

open List

variable {es : List DomainEvent} {name commandId reason : String}
  {index : Usize} {incarnation : UInt64} {operation group : OperationId}
  {outcome : OperationOutcome} {evidence input : DataRef}
  {plan : CreationPlan} {result : PreparationResult}

-- ==== the vocabulary

/-- The facts that write an outcome: one event, or none where an
uncertain outcome stays. -/
inductive Writes (id : OperationId) (o : OperationOutcome) :
    List DomainEvent → Prop
  | finished : Writes id o [.operationFinished id o]
  | reconciled (evidence : DataRef) :
      Writes id o [.operationReconciled id o evidence]
  | kept (h : o.isUncertain = true) : Writes id o []

/-- An operation of the model that is no coordinator. -/
def Leaf (m : JournalModel) (id : OperationId) : Prop :=
  ∃ op : Operation, m.operations[id]? = some op
    ∧ (op.creation.isSome = true ∨ op.retirement.isSome = true
      ∨ op.forward = true)

/-- A fact that creates no entity, and succeeds no coordinator. -/
inductive Quiet (m : JournalModel) : DomainEvent → Prop
  | built {e : DomainEvent} (h : Built [] e) : Quiet m e
  | categoryClosed {id : UInt32} (h : id ≠ 0) :
      Quiet m (.categoryClosed id)
  | engineRetired {incarnation : UInt64} :
      Quiet m (.engineRetired incarnation)
  | resource {id : OperationId} {data : Option DataRef}
      {deferred : Bool} :
      Quiet m (.operationResourcePrepared id data deferred)
  | recovery {id : OperationId} {evidence : DataRef} :
      Quiet m (.operationRecoveryObserved id evidence)
  | awaiting {id : OperationId} {op : Operation} {o : OperationOutcome}
      {cleanup : CleanupPlan} {data : Option DataRef} {deferred : Bool}
      (hop : m.operations[id]? = some op)
      (hcreation : op.creation.isSome = true)
      (hinstall : ∀ surface previous,
        cleanup = .installPrepared surface previous → o = .succeeded) :
      Quiet m (.operationAwaitingCleanup id o cleanup data deferred)
  | wrote {e : DomainEvent} {id : OperationId} {o : OperationOutcome}
      (h : e.writes = some (id, o))
      (hleaf : o = .succeeded → Leaf m id) : Quiet m e

/-- The undo facts of a close: an eviction, or the record of the close
itself. -/
def Undoing (operation : OperationId) (e : DomainEvent) : Prop :=
  (∃ id, e = .undoRecordEvicted id)
    ∨ ∃ record, e = .undoRecordAdded record ∧ record.id = operation

/-- The shapes of an accepted decision. -/
inductive Emits (m : JournalModel) : List DomainEvent → Prop
  | quiet {es : List DomainEvent} (h : ∀ e ∈ es, Quiet m e) : Emits m es
  | categoryCreated {id : UInt32} {name : String} (hid : id ≠ 0) :
      Emits m [.categoryCreated id name (usizeLen m.categoryOrder)]
  | categoryMoved {id : UInt32} {index : Usize} (hid : id ≠ 0)
      (hindex : index ≠ 0) : Emits m [.categoryMoved id index]
  | tabMoved {pane id : UInt32} {index : Usize} {p : Pane}
      (hp : m.panes[pane]? = some p) (hid : id ∈ p.tabs) :
      Emits m [.tabMoved id pane index]
  | opened {started : List DomainEvent} {reset : Bool} {name : String}
      (hstarted : started = [] ∨ ∃ previous current,
        started = [.engineIncarnationStarted previous current]) :
      Emits m (started ++ (if reset then Bootstrap.resetEvents m else [])
        ++ Bootstrap.normalEvents m name)
  | forwarded {operation : OperationId} {commandId : String}
      {input : DataRef} :
      Emits m [.operationPrepared
        { Operation.new m operation commandId input with forward := true }]
  | creationPrepared {operation : OperationId} {commandId : String}
      {input : DataRef} {plan : CreationPlan} {generation : UInt64}
      (hlive : plan.targetIsLive m = true) :
      Emits m [.operationPrepared
        { Operation.new m operation commandId input with
          creation := some plan
          targets := plan.targets
          reserved := plan.reservedIds
          activationGeneration := generation }]
  | assemblyPrepared {operation : OperationId} {commandId : String}
      {input : DataRef} {plan : CreationAssembly}
      {members : List (Operation × StructuralEffect)}
      (hmembers : Assembly.memberOperations m operation commandId plan
        plan.snapshot.surfaces.toList = .ok members) :
      Emits m (.operationPrepared
          (Assembly.coordinator m operation commandId input plan)
        :: members.map fun (op, _) => .operationPrepared op)
  | closed {operation : OperationId} {commandId : String}
      {input : DataRef} {plan : RetirementPlan} {target : CloseTarget}
      {undoing : List DomainEvent} {event : DomainEvent}
      {removed : List EntityId} {ids : List UInt32}
      (hclose : closeFacts m target = some (event, removed, ids))
      (hundoing : ∀ e ∈ undoing, Undoing operation e) :
      Emits m (.operationPrepared
          { Operation.new m operation commandId input with
            retirement := some plan
            targets := removed }
        :: undoing ++ [event])
  | replaced {operation : OperationId} {commandId : String}
      {input : DataRef} {plan : RetirementPlan}
      {replacement : Replacement} {removed targets : List EntityId} :
      Emits m [.operationPrepared
          { Operation.new m operation commandId input with
            retirement := some plan
            targets },
        .structureReplaced replacement removed]
  | installed {key : OperationId} {op : Operation} {plan : CreationPlan}
      {o : OperationOutcome} {tail : List DomainEvent}
      (hop : m.operations[key]? = some op)
      (hplan : op.creation = some plan) (hmember : op.isMember = false)
      (hcleanup : op.awaitsInstallation = true)
      (hpending : op.pendingOutcome = some o)
      (hlive : plan.targetIsLive m = true) (htail : Writes key o tail) :
      Emits m (Creation.installEvents m op plan ++ tail)
  | published {group : OperationId} {coordinator : Operation}
      {plan completed : CreationAssembly} {ready : List UInt32}
      {head facts activations tail : List DomainEvent}
      (hgroup : m.operations[group]? = some coordinator)
      (hplan : coordinator.assembly = some plan)
      (hhead : ∀ e ∈ head, ∃ id o, e.writes = some (id, o) ∧ Leaf m id)
      (hfacts : completed.facts m ready = .ok facts)
      (hcompleted : ∀ x ∈ completed.reservedIds, x ∈ plan.reservedIds)
      (hactivations : ∀ e ∈ activations, Built [] e)
      (htail : Writes group .succeeded tail) :
      Emits m (head ++ facts ++ activations ++ Assembly.consumed plan
        ++ tail)

namespace Emits

variable {m : JournalModel} {e : DomainEvent}

theorem nil : Emits m [] :=
  .quiet fun _ he => absurd he not_mem_nil

theorem single (h : Quiet m e) : Emits m [e] := by
  refine .quiet fun e' he => ?_
  cases mem_singleton.1 he
  exact h

end Emits

variable {e : DomainEvent}

/-- An edit that creates nothing. -/
theorem quiet_edit {m : JournalModel}
    (hledger : e.onLedger = false) (hstrips : e.strips = false)
    (hcategories : e.reordersCategories = false)
    (hnew : e.introduces = []) : Quiet m e := by
  refine .built ⟨hledger, hstrips, hcategories, fun x hx => ?_⟩
  rwa [hnew] at hx

-- ==== metadata commands

namespace Metadata

variable {m : JournalModel} {d : StructuralDecision}

theorem moveToNormal_quiet {leaves : UInt32 → Bool} {index : Nat}
    {ids : List UInt32} (h : moveToNormal m leaves index ids = .ok es) :
    ∀ e ∈ es, Quiet m e := by
  induction ids generalizing index es with
  | nil =>
    cases h
    exact fun e he => absurd he not_mem_nil
  | cons id ids ih =>
    obtain ⟨w, _, h⟩ := bind_ok h
    obtain ⟨moves, hmoves, h⟩ := bind_ok h
    have hrest := ih hmoves
    split at h
    · cases h
      intro e he
      rcases mem_cons.1 he with rfl | he
      · exact quiet_edit rfl rfl rfl rfl
      · exact hrest e he
    · cases h
      exact hrest

theorem resetCategories_emits (h : resetCategories m = .ok d) :
    Emits m d.events := by
  obtain ⟨moves, hmoves, h⟩ := bind_ok h
  cases h
  refine .quiet fun e he => ?_
  rcases mem_append.1 he with he | he
  · exact moveToNormal_quiet hmoves e he
  · obtain ⟨id, hid, rfl⟩ := mem_map.1 he
    rw [mem_filter] at hid
    exact .categoryClosed (by simpa using hid.2)

theorem createCategory_emits {id : UInt32}
    (h : createCategory m id name = .ok d) : Emits m d.events := by
  obtain ⟨_, hfresh, h⟩ := bind_ok h
  obtain ⟨name, _, h⟩ := bind_ok h
  cases h
  rw [rejectIf_eq_ok, not_or] at hfresh
  exact .categoryCreated hfresh.1

theorem renameCategory_emits {id : UInt32}
    (h : renameCategory m id name = .ok d) : Emits m d.events := by
  have h := then_ok h
  obtain ⟨name, _, h⟩ := bind_ok h
  cases h
  exact .single (quiet_edit rfl rfl rfl rfl)

theorem deleteCategory_emits {id : UInt32}
    (h : deleteCategory m id = .ok d) : Emits m d.events := by
  obtain ⟨_, hmutable, h⟩ := bind_ok h
  obtain ⟨moves, hmoves, h⟩ := bind_ok h
  cases h
  obtain ⟨_, hid, _⟩ := bind_ok hmutable
  rw [rejectIf_eq_ok] at hid
  refine .quiet fun e he => ?_
  rcases mem_append.1 he with he | he
  · exact moveToNormal_quiet hmoves e he
  · cases mem_singleton.1 he
    exact .categoryClosed hid

theorem reorderCategory_emits {id : UInt32}
    (h : reorderCategory m id index = .ok d) : Emits m d.events := by
  obtain ⟨_, hfixed, h⟩ := bind_ok h
  obtain ⟨position, _, h⟩ := bind_ok h
  have h := then_ok h
  cases h
  rw [rejectIf_eq_ok, not_or] at hfixed
  show Emits m (if _ then _ else _)
  split
  · exact .categoryMoved hfixed.1 hfixed.2
  · exact .nil

theorem setWorkspaceCategory_emits {id category : UInt32}
    (h : setWorkspaceCategory m id category = .ok d) : Emits m d.events := by
  have h := then_ok h
  obtain ⟨position, _, h⟩ := bind_ok h
  cases h
  exact .single (quiet_edit rfl rfl rfl rfl)

theorem updateWorkspaceMeta_emits {id : UInt32}
    {name subtitle description : Option String}
    (h : updateWorkspaceMeta m id name subtitle description = .ok d) :
    Emits m d.events := by
  obtain ⟨ws, _, h⟩ := bind_ok h
  cases h
  refine .quiet fun e he => ?_
  rcases mem_append.1 he with he | he
  · split at he
    · cases mem_singleton.1 he
      exact quiet_edit rfl rfl rfl rfl
    · cases he
  · split at he
    · cases mem_singleton.1 he
      exact quiet_edit rfl rfl rfl rfl
    · cases he

theorem setWorkspaceAttachMapping_emits {id : UInt32}
    {mapping : Option WorkspaceAttachMapping}
    (h : setWorkspaceAttachMapping m id mapping = .ok d) :
    Emits m d.events := by
  have h := then_ok h
  cases h
  exact .single (quiet_edit rfl rfl rfl rfl)

theorem noop_emits {result : StructuralResult}
    (h : (.ok (.noop result) : Decided StructuralDecision) = .ok d) :
    Emits m d.events := by
  cases h
  exact .nil

theorem moveWorkspace_emits {id : UInt32}
    (h : moveWorkspace m id index = .ok d) : Emits m d.events := by
  unfold moveWorkspace at h
  split at h
  · exact noop_emits h
  · split at h
    · obtain ⟨w, _, h⟩ := bind_ok h
      cases h
      exact .single (quiet_edit rfl rfl rfl rfl)
    · exact noop_emits h

theorem renameTab_emits {id : UInt32} {name : Option String}
    (h : renameTab m id name = .ok d) : Emits m d.events := by
  have h := then_ok h
  cases h
  exact .single (quiet_edit rfl rfl rfl rfl)

theorem canMoveTab_mem {pane : Pane} {id : UInt32}
    (h : canMoveTab pane id index = true) : id ∈ pane.tabs := by
  unfold canMoveTab at h
  split at h
  · rename_i position hposition
    have hsome : (pane.tabs.idxOf? id).isSome := by rw [hposition]; rfl
    exact isSome_idxOf?.1 hsome
  · cases h

theorem moveTab_emits {pane id : UInt32}
    (h : moveTab m pane id index = .ok d) : Emits m d.events := by
  unfold moveTab at h
  split at h
  · rename_i p hp
    split at h
    · rename_i hmove
      cases h
      exact .tabMoved hp (canMoveTab_mem hmove)
    · exact noop_emits h
  · exact noop_emits h

variable {leaves : List UInt32}

theorem setPaneRatio_emits {id : UInt32} {path : List Bool}
    {revision : UInt64} {ratio : Ratio}
    (h : setPaneRatio m id path leaves revision ratio = .ok d) :
    Emits m d.events := by
  have h := then_ok h
  obtain ⟨ws, _, h⟩ := bind_ok h
  have h := then_ok h
  cases h
  exact .single (quiet_edit rfl rfl rfl rfl)

theorem setSurfaceRatio_emits {id : UInt32} {path : List Bool}
    {revision : UInt64} {ratio : Ratio}
    (h : setSurfaceRatio m id path leaves revision ratio = .ok d) :
    Emits m d.events := by
  obtain ⟨tab, _, h⟩ := bind_ok h
  have h := then_ok (then_ok h)
  cases h
  exact .single (quiet_edit rfl rfl rfl rfl)

end Metadata

-- ==== engine and recovery

section Engine

variable {m : JournalModel} {d : StructuralDecision}

theorem Bootstrap.retireEngine_emits
    (h : Bootstrap.retireEngine m incarnation = .ok d) : Emits m d.events := by
  have h := then_ok h
  cases h
  show Emits m (if _ then _ else _)
  split
  · exact .nil
  · exact .single .engineRetired

theorem Bootstrap.nextIncarnation_started {reset : Bool}
    {started : List DomainEvent}
    (h : Bootstrap.nextIncarnation m reset = .ok (started, incarnation)) :
    started = [] ∨ ∃ previous current,
      started = [.engineIncarnationStarted previous current] := by
  unfold Bootstrap.nextIncarnation at h
  split at h
  · obtain ⟨current, _, h⟩ := bind_ok h
    cases h
    exact .inr ⟨_, _, rfl⟩
  · cases h
    exact .inl rfl

theorem Bootstrap.openEngine_emits {reset : Bool}
    (h : Bootstrap.openEngine m incarnation reset name = .ok d) :
    Emits m d.events := by
  have h := then_ok h
  obtain ⟨⟨started, current⟩, hstarted, h⟩ := bind_ok h
  cases h
  exact .opened (Bootstrap.nextIncarnation_started hstarted)

theorem Forward.finishForward_emits
    (h : Forward.finishForward m operation outcome = .ok d) :
    Emits m d.events := by
  obtain ⟨original, horiginal, h⟩ := bind_ok h
  obtain ⟨result, _, h⟩ := bind_ok h
  cases h
  obtain ⟨hop, hpending⟩ :=
    Option.filter_eq_some_iff.1 (orReject_eq_ok.1 horiginal)
  rw [Bool.and_eq_true] at hpending
  exact .single (.wrote rfl fun _ =>
    ⟨original, hop, .inr (.inr hpending.1)⟩)

theorem Recovery.recoverOperation_emits
    (h : Recovery.recoverOperation m operation outcome evidence = .ok d) :
    Emits m d.events := by
  obtain ⟨previous, _, h⟩ := bind_ok h
  obtain ⟨_, hmay, h⟩ := bind_ok h
  cases h
  simp only [rejectIf_eq_ok, not_or, Bool.not_eq_false] at hmay
  refine .quiet fun e he => ?_
  rcases mem_cons.1 he with rfl | he
  · refine .wrote rfl fun hsuccess => ?_
    rw [hsuccess] at hmay
    cases hmay.2.2
  · cases mem_singleton.1 he
    exact .recovery

theorem Recovery.recordCapture_emits {surface : UInt32} {kind : String}
    {activation : Option UInt64} {content : UInt64} {schema : UInt32}
    {data : DataRef}
    (h : Recovery.recordCapture m surface kind activation content schema
      data = .ok d) : Emits m d.events := by
  obtain ⟨current, _, h⟩ := bind_ok h
  have h := then_ok h
  cases h
  exact .single (quiet_edit rfl rfl rfl rfl)

end Engine

-- ==== retirements

namespace Retirement

variable {m : JournalModel} {d : StructuralDecision}

variable {target : CloseTarget} {undo : Option UndoCapture}

theorem undoFacts_undoing {isUser remoteUser : Bool}
    (h : undoFacts m operation target isUser remoteUser undo = .ok es) :
    ∀ e ∈ es, Undoing operation e := by
  unfold undoFacts at h
  split at h
  · cases h
    exact fun e he => absurd he not_mem_nil
  · rename_i capture
    have h := then_ok h
    have hadded : Undoing operation
        (.undoRecordAdded { id := operation, target, capture }) :=
      .inr ⟨_, rfl, rfl⟩
    split at h
    · split at h
      · cases h
        intro e he
        rcases mem_cons.1 he with rfl | he
        · exact .inl ⟨_, rfl⟩
        · cases mem_singleton.1 he
          exact hadded
      · cases h
        intro e he
        cases mem_singleton.1 he
        exact hadded
    · cases h
      intro e he
      cases mem_singleton.1 he
      exact hadded

variable {expected : List RetiredSurface}

theorem close_emits
        {isUser remoteUser : Bool}
    (h : close m operation commandId input target expected undo isUser
      remoteUser = .ok d) : Emits m d.events := by
  have h := then_ok h
  split at h
  · exact Metadata.noop_emits h
  · rename_i event removed ids hclose
    obtain ⟨surfaces, _, h⟩ := bind_ok h
    have h := then_ok h
    obtain ⟨parents, _, h⟩ := bind_ok h
    obtain ⟨undoing, hundoing, h⟩ := bind_ok h
    cases h
    exact .closed hclose (undoFacts_undoing hundoing)

theorem finishRetirement_emits
    (h : finishRetirement m operation outcome = .ok d) : Emits m d.events := by
  obtain ⟨op, hop, h⟩ := bind_ok h
  rw [orReject_eq_ok] at hop
  split at h
  · cases h
  · rename_i plan hplan
    have h := then_ok h
    obtain ⟨result, _, h⟩ := bind_ok h
    cases h
    exact .single (.wrote rfl fun _ =>
      ⟨op, hop, .inr (.inl (by simp [hplan]))⟩)

theorem reconcileRetirement_emits
    (h : reconcileRetirement m operation evidence = .ok d) :
    Emits m d.events := by
  obtain ⟨op, hop, h⟩ := bind_ok h
  obtain ⟨_, hready, h⟩ := bind_ok h
  cases h
  rw [orReject_eq_ok] at hop
  simp only [rejectIf_eq_ok, not_or] at hready
  exact .single (.wrote rfl fun _ =>
    ⟨op, hop,
      .inr (.inl (by simpa [Option.isSome_iff_ne_none] using hready.1))⟩)

theorem replace_emits {replacement : Replacement}
    (h : replace m operation commandId input replacement expected
      = .ok d) : Emits m d.events := by
  unfold replace at h
  split at h
  · exact Metadata.noop_emits h
  · split at h
    · obtain ⟨observed, _, h⟩ := bind_ok h
      have h := then_ok h
      obtain ⟨⟨after, removed⟩, _, h⟩ := bind_ok h
      obtain ⟨surfaces, _, h⟩ := bind_ok h
      obtain ⟨parents, _, h⟩ := bind_ok h
      obtain ⟨closed, _, h⟩ := bind_ok h
      cases h
      exact .replaced
    · exact Metadata.noop_emits h

end Retirement

-- ==== the model a settlement runs on

/-- `r` is the model a settlement reads and `f` what becomes of its
facts: the model itself and the facts as they are, or a reconciliation's
scratch model and reconciliations. -/
structure Resumes (m r : JournalModel)
    (f : DomainEvent → List DomainEvent) : Prop where
  model : ∃ operations, r = { m with operations }
  operation : ∀ {id : OperationId} {op' : Operation},
    r.operations[id]? = some op' →
    ∃ op, m.operations[id]? = some op
      ∧ (op' = op ∨ op' = Creation.reopened op)
  plain : ∀ e, e.writes = none → f e = [e]
  verdict : ∀ id o, Writes id o (f (.operationFinished id o))

variable {o : OperationOutcome}

theorem Writes.mem {id : OperationId} (h : Writes id o es)
    (he : e ∈ es) : e.writes = some (id, o) := by
  cases h with
  | finished | reconciled =>
    cases mem_singleton.1 he
    rfl
  | kept => cases he

namespace Resumes

variable {m r : JournalModel} {f : DomainEvent → List DomainEvent}

theorem self (m : JournalModel) : Resumes m m fun e => [e] where
  model := ⟨m.operations, rfl⟩
  operation h := ⟨_, h, .inl rfl⟩
  plain _ _ := rfl
  verdict _ _ := .finished

/-- Facts that write no outcome are not rewritten. -/
theorem flatMap_plain (h : Resumes m r f)
    (hes : ∀ e ∈ es, e.writes = none) : es.flatMap f = es := by
  induction es with
  | nil => rfl
  | cons e es ih =>
    rw [flatMap_cons, h.plain e (hes e mem_cons_self),
      ih fun e' he' => hes e' (mem_cons_of_mem _ he')]
    rfl

/-- What the scratch model holds is in the model, with the same plans and
progress. -/
theorem lookup (h : Resumes m r f) {id : OperationId} {op' : Operation}
    (hop' : r.operations[id]? = some op') :
    ∃ op, m.operations[id]? = some op ∧ op'.id = op.id
      ∧ op'.creation = op.creation ∧ op'.assembly = op.assembly
      ∧ op'.pendingOutcome = op.pendingOutcome
      ∧ op'.cleanup = op.cleanup
      ∧ ∀ m plan, Creation.installEvents m op' plan
          = Creation.installEvents m op plan := by
  obtain ⟨op, hop, rfl | rfl⟩ := h.operation hop'
  · exact ⟨op', hop, rfl, rfl, rfl, rfl, rfl, fun _ _ => rfl⟩
  · exact ⟨op, hop, rfl, rfl, rfl, rfl, rfl, fun _ _ => rfl⟩

/-- A written outcome is a quiet fact, unless it succeeds a
coordinator. -/
theorem quiet (h : Resumes m r f) {id : OperationId}
    (hleaf : o = .succeeded → Leaf m id)
    (he : e ∈ f (.operationFinished id o)) : Quiet m e :=
  .wrote ((h.verdict id o).mem he) hleaf

end Resumes

/-- A structural fact writes no outcome. -/
theorem Built.writes {ids : List EntityId}
    (h : Built ids e) : e.writes = none := by
  have hledger := h.structural
  cases e <;> first | rfl | cases hledger

-- ==== assemblies

namespace Assembly

variable {m r : JournalModel} {f : DomainEvent → List DomainEvent}
  {d : StructuralDecision} {op : Operation}

theorem prepareAssembly_emits {plan : CreationAssembly}
    (h : prepareAssembly m operation commandId input plan = .ok d) :
    Emits m d.events := by
  have h := then_ok h
  obtain ⟨facts, _, h⟩ := bind_ok h
  have h := then_ok h
  obtain ⟨members, hmembers, h⟩ := bind_ok h
  cases h
  exact .assemblyPrepared hmembers

theorem groupOf_eq_ok {message : String}
    {coordinator : Operation} {plan : CreationAssembly}
    (h : groupOf r op message = .ok (group, coordinator, plan)) :
    op.creation.isSome = true
      ∧ r.operations[group]? = some coordinator
      ∧ coordinator.assembly = some plan := by
  unfold groupOf at h
  split at h
  · rename_i hcreation
    obtain ⟨coordinator, hcoordinator, h⟩ := bind_ok h
    obtain ⟨plan, hplan, h⟩ := bind_ok h
    cases h
    rw [hcreation]
    exact ⟨rfl, orReject_eq_ok.1 hcoordinator, orReject_eq_ok.1 hplan⟩
  · cases h

/-- Putting the prepared payloads in changes no id. -/
theorem withPrepared_reserved
    {ready : List UInt32} {plan completed : CreationAssembly}
    (h : withPrepared r group plan ready = .ok completed) :
    ∀ x ∈ completed.reservedIds, x ∈ plan.reservedIds := by
  induction ready generalizing plan with
  | nil =>
    cases h
    exact fun x hx => hx
  | cons surface ready ih =>
    obtain ⟨op, _, h⟩ := bind_ok h
    split at h
    · exact ih h
    · rename_i data hdata
      obtain ⟨leaf, hleaf, h⟩ := bind_ok h
      rw [orReject_eq_ok] at hleaf
      intro x hx
      have hx := ih h x hx
      obtain ⟨kind, id⟩ := x
      cases kind with
      | category => exact absurd rfl (CreationAssembly.reservedIds_kind hx)
      | surface =>
        rw [CreationAssembly.mem_reservedIds_surface] at hx ⊢
        have hmem := Std.ExtTreeMap.mem_insert.1 hx
        rcases hmem with heq | hmem
        · rw [Std.LawfulEqOrd.compare_eq_iff_eq] at heq
          rw [← heq]
          exact (BTreeMap.mem_iff_get ..).2 ⟨leaf, hleaf⟩
        · exact hmem
      | _ => simpa using hx

theorem leafActivations_built {plan : CreationAssembly} {ready : List UInt32}
    (h : leafActivations r group plan ready = .ok es) :
    ∀ e ∈ es, Built [] e := by
  induction ready generalizing es with
  | nil =>
    cases h
    exact fun e he => absurd he not_mem_nil
  | cons surface ready ih =>
    obtain ⟨op, _, h⟩ := bind_ok h
    obtain ⟨leaf, _, h⟩ := bind_ok h
    obtain ⟨later, hlater, h⟩ := bind_ok h
    cases h
    intro e he
    simp only [mem_cons] at he
    rcases he with rfl | rfl | he
    · exact ⟨rfl, rfl, rfl, fun x hx => hx⟩
    · exact ⟨rfl, rfl, rfl, fun x hx => hx⟩
    · exact ih hlater e he

/-- Using up an undo record writes no outcome. -/
theorem consumed_writes {plan : CreationAssembly}
    (he : e ∈ consumed plan) : e.writes = none := by
  unfold consumed at he
  split at he
  · cases mem_singleton.1 he
    rfl
  · cases he

/-- A settlement writes its member, and at the end its group. -/
theorem settle_emits (hr : Resumes m r f) {id : OperationId}
    (hop : r.operations[id]? = some op) (hid : op.id = id)
    (h : settle r op outcome = .ok d) : Emits m (d.events.flatMap f) := by
  obtain ⟨⟨group, coordinator, plan⟩, hgroup, h⟩ := bind_ok h
  obtain ⟨hcreation, hcoordinator, hplan⟩ := groupOf_eq_ok hgroup
  obtain ⟨own, hown, _, hsame, _⟩ := hr.lookup hop
  have hleaf : Leaf m op.id := by
    rw [hid]
    exact ⟨own, hown, .inl (by rw [← hsame]; exact hcreation)⟩
  have hmember : ∀ e ∈ f (.operationFinished op.id outcome), Quiet m e :=
    fun e he => hr.quiet (fun _ => hleaf) he
  -- a group that does not succeed is one more quiet fact
  have hunsettled : ∀ o, o ≠ OperationOutcome.succeeded →
      Emits m (flatMap f [.operationFinished op.id outcome,
        .operationFinished group o]) := by
    intro o ho
    refine .quiet fun e he => ?_
    simp only [flatMap_cons, flatMap_nil, append_nil, mem_append] at he
    rcases he with he | he
    · exact hmember e he
    · exact hr.quiet (fun hsuccess => absurd hsuccess ho) he
  dsimp only at h
  split at h
  · cases h
    refine .quiet fun e he => hmember e ?_
    simpa [StructuralDecision.plain] using he
  · split at h
    · cases h
      exact hunsettled _ (by simp)
    · split at h
      · cases h
        exact hunsettled _ (by simp)
      · split at h
        · cases h
          exact hunsettled _ (by simp)
        · obtain ⟨completed, hcompleted, h⟩ := bind_ok h
          obtain ⟨facts, hfacts, h⟩ := bind_ok h
          obtain ⟨activations, hactivations, h⟩ := bind_ok h
          cases h
          obtain ⟨found, hfound, _, _, hassembly, _⟩ :=
            hr.lookup hcoordinator
          obtain ⟨operations, rfl⟩ := hr.model
          have hbuilt := leafActivations_built hactivations
          simp only [flatMap_append]
          rw [hr.flatMap_plain fun e he =>
              (CreationAssembly.facts_built hfacts he).writes,
            hr.flatMap_plain fun e he => (hbuilt e he).writes,
            hr.flatMap_plain fun e he => consumed_writes he]
          refine .published hfound (hassembly ▸ hplan) ?_ hfacts
            (withPrepared_reserved hcompleted) hbuilt ?_
          · intro e he
            simp only [flatMap_cons, flatMap_nil, append_nil] at he
            exact ⟨_, _, (hr.verdict _ _).mem he, hleaf⟩
          · simpa using hr.verdict group .succeeded

theorem preparedFact_quiet (hleaf : Leaf m op.id)
    : Quiet m (preparedFact op.id result) := by
  cases result with
  | deferred data => exact .resource
  | ready data => exact .resource
  | failed reason => exact .wrote rfl fun _ => hleaf

variable {states : List PeerState}

theorem peerStates_held (hkeyed : Keyed m) {settling : OperationId}
    {surfaces : List UInt32}
    (h : peerStates m group settling result surfaces = .ok states)
    {peer : Operation} {data : Option DataRef} {deferred : Bool}
    (hheld : .held peer data deferred ∈ states) :
    m.operations[peer.id]? = some peer := by
  induction surfaces generalizing states with
  | nil =>
    cases h
    cases hheld
  | cons surface surfaces ih =>
    obtain ⟨found, hfound, h⟩ := bind_ok h
    obtain ⟨rest, hrest, h⟩ := bind_ok h
    cases h
    rw [orReject_eq_ok] at hfound
    rcases mem_cons.1 hheld with hhead | hheld
    · have hpeer : peer = found := by
        unfold peerState at hhead
        split at hhead
        · split at hhead <;> cases hhead <;> rfl
        · split at hhead
          · cases hhead
          · split at hhead
            · cases hhead
              rfl
            · cases hhead
      rw [hpeer, hkeyed hfound]
      exact hfound
    · exact ih hrest hheld

theorem authorize_quiet {discarded : Bool}
    (hstates : ∀ peer data deferred, .held peer data deferred ∈ states →
      m.operations[peer.id]? = some peer)
    (h : authorize discarded states = .ok es) : ∀ e ∈ es, Quiet m e := by
  induction states generalizing es with
  | nil =>
    cases h
    exact fun e he => absurd he not_mem_nil
  | cons state states ih =>
    have hrest := fun peer data deferred hheld =>
      hstates peer data deferred (mem_cons_of_mem _ hheld)
    cases state with
    | held peer data deferred =>
      obtain ⟨plan, hplan, h⟩ := bind_ok h
      obtain ⟨later, hlater, h⟩ := bind_ok h
      cases h
      rw [orReject_eq_ok] at hplan
      have hpeer := hstates peer data deferred mem_cons_self
      intro e he
      rcases mem_cons.1 he with rfl | he
      · split
        · refine .awaiting hpeer (by simp [hplan]) fun _ _ h => ?_
          cases h
        · exact .awaiting hpeer (by simp [hplan]) fun _ _ _ => rfl
      · exact ih hrest hlater e he
    | fell => exact ih hrest h
    | waits => exact ih hrest h

theorem preparedMember_quiet (hkeyed : Keyed m)
    (hop : m.operations[op.id]? = some op)
    (h : preparedMember m op result = .ok d) :
    ∃ rest, d.events = preparedFact op.id result :: rest
      ∧ Leaf m op.id ∧ ∀ e ∈ rest, Quiet m e := by
  obtain ⟨⟨group, coordinator, plan⟩, hgroup, h⟩ := bind_ok h
  obtain ⟨states, hstates, h⟩ := bind_ok h
  have hleaf : Leaf m op.id := ⟨op, hop, .inl (groupOf_eq_ok hgroup).1⟩
  split at h
  · cases h
    exact ⟨[], rfl, hleaf, fun e he => absurd he not_mem_nil⟩
  · split at h
    · cases h
      refine ⟨_, rfl, hleaf, fun e he => ?_⟩
      cases mem_singleton.1 he
      exact .wrote rfl fun hsuccess => by cases hsuccess
    · obtain ⟨obligations, hobligations, h⟩ := bind_ok h
      cases h
      exact ⟨obligations, rfl, hleaf, authorize_quiet
          (fun _ _ _ => peerStates_held hkeyed hstates) hobligations⟩

theorem preparedMember_emits (hkeyed : Keyed m)
    (hop : m.operations[op.id]? = some op)
    (h : preparedMember m op result = .ok d) : Emits m d.events := by
  obtain ⟨rest, hevents, hleaf, hrest⟩ :=
    preparedMember_quiet hkeyed hop h
  rw [hevents]
  refine .quiet fun e he => ?_
  rcases mem_cons.1 he with rfl | he
  · exact preparedFact_quiet hleaf
  · exact hrest e he

theorem cancelUnstartedMember_emits (hkeyed : Keyed m)
    (hop : m.operations[op.id]? = some op)
    (h : cancelUnstartedMember m op reason = .ok d) : Emits m d.events := by
  unfold cancelUnstartedMember at h
  split at h
  · split at h
    · have hsettle := settle_emits (.self m) hop rfl h
      rwa [flatMap_singleton'] at hsettle
    · obtain ⟨decision, hprepared, h⟩ := bind_ok h
      obtain ⟨rest, hevents, hleaf, hrest⟩ :=
        preparedMember_quiet hkeyed hop hprepared
      rw [hevents] at h
      have h := then_ok h
      cases h
      refine .quiet fun e he => ?_
      rcases mem_cons.1 he with rfl | he
      · exact .wrote rfl fun hsuccess => by cases hsuccess
      · exact hrest e he
  · cases h

end Assembly

-- ==== creations

namespace Creation

variable {m r : JournalModel} {f : DomainEvent → List DomainEvent}
  {d : StructuralDecision} {id : OperationId}

theorem validateTarget_eq_ok {u : Unit} :
    validateTarget m plan = .ok u
      ↔ m.engineRetired = false ∧ plan.targetIsLive m = true := by
  unfold validateTarget
  rw [rejectIf_eq_ok, not_or]
  simp

theorem prepareCreation_emits (h : prepareCreation m id commandId input plan = .ok d) :
    Emits m d.events := by
  obtain ⟨_, htarget, h⟩ := bind_ok h
  have h := then_ok (then_ok h)
  obtain ⟨generation, _, h⟩ := bind_ok h
  cases h
  exact .creationPrepared (validateTarget_eq_ok.1 htarget).2

variable {op : Operation}

/-- A preparation that failed writes or awaits no success. -/
theorem failed_emits
    (hop : m.operations[op.id]? = some op) (hplan : op.creation = some plan)
    (reason : String) (discard : Bool) :
    Emits m (failed op plan reason discard).events := by
  cases discard with
  | true =>
    refine .single (.awaiting hop (by simp [hplan]) fun _ _ h => ?_)
    cases h
  | false => exact .single (.wrote rfl fun h => by cases h)

theorem finishPrepared_emits
    (hop : m.operations[op.id]? = some op) (hplan : op.creation = some plan)
    (result : PreparationResult) :
    Emits m (finishPrepared m op.id op plan result).events := by
  have hinstall : ∀ data deferred,
      Emits m (awaitInstallation op.id plan data deferred).events :=
    fun data deferred =>
      .single (.awaiting hop (by simp [hplan]) fun _ _ _ => rfl)
  unfold finishPrepared
  dsimp only
  cases result with
  | failed reason => exact failed_emits hop hplan reason false
  | ready data =>
    dsimp only
    split
    · exact failed_emits hop hplan _ true
    · split
      · exact failed_emits hop hplan _ true
      · exact hinstall data false
  | deferred data =>
    dsimp only
    split
    · exact failed_emits hop hplan _ true
    · split
      · exact failed_emits hop hplan _ true
      · exact hinstall data true

theorem finishCreation_emits (hkeyed : Keyed m)
    (h : finishCreation m id result = .ok d) : Emits m d.events := by
  obtain ⟨op, hop, h⟩ := bind_ok h
  have h := then_ok h
  obtain ⟨plan, hplan, h⟩ := bind_ok h
  rw [orReject_eq_ok] at hop hplan
  have hid := hkeyed hop
  subst hid
  split at h
  · exact Assembly.preparedMember_emits hkeyed hop h
  · cases h
    exact finishPrepared_emits hop hplan result

theorem markPreparationUncertain_emits
    (h : markPreparationUncertain m id reason = .ok d) : Emits m d.events := by
  obtain ⟨op, _, h⟩ := bind_ok h
  have h := then_ok h
  cases h
  exact .single (.wrote rfl fun h => by cases h)

theorem targetIsLive_operations
    (hplan : op.creation = some plan) (hmember : op.isMember = false)
    (operations : BTreeMap OperationId Operation) :
    plan.targetIsLive { m with operations } = plan.targetIsLive m := by
  unfold CreationPlan.targetIsLive
  split
  · rename_i hdest
    unfold Operation.isMember at hmember
    obtain ⟨destination, surface, tabName, explicitName⟩ := plan
    cases hdest
    rw [hplan] at hmember
    cases hmember
  all_goals rfl

theorem finishCleanup_emits (hr : Resumes m r f) (hkeyed : Keyed m)
    (h : finishCleanup r id = .ok d) : Emits m (d.events.flatMap f) := by
  obtain ⟨op, hop, h⟩ := bind_ok h
  have h := then_ok h
  obtain ⟨outcome, hpending, h⟩ := bind_ok h
  rw [orReject_eq_ok] at hop hpending
  obtain ⟨own, hown, hid, hcreation, _, hsamePending, hsameCleanup,
    hinstall⟩ := hr.lookup hop
  split at h
  · exact Assembly.settle_emits hr hop (hid.trans (hkeyed hown)) h
  · rename_i hmember
    rw [Bool.not_eq_true] at hmember
    obtain ⟨result, hresult, h⟩ := bind_ok h
    obtain ⟨events, hevents, h⟩ := bind_ok h
    cases h
    unfold cleanupEvents at hevents
    rw [flatMap_append]
    split at hevents
    · rename_i hcleanup
      obtain ⟨plan, hplan, hevents⟩ := bind_ok hevents
      obtain ⟨_, htarget, hevents⟩ := bind_ok hevents
      have hevents := then_ok hevents
      cases hevents
      rw [orReject_eq_ok] at hplan
      obtain ⟨_, hlive⟩ := validateTarget_eq_ok.1 htarget
      obtain ⟨operations, rfl⟩ := hr.model
      rw [targetIsLive_operations hplan hmember] at hlive
      rw [hr.flatMap_plain fun e he => (installEvents_built he).writes,
        hinstall]
      refine .installed hown (hcreation ▸ hplan) ?_ ?_
        (hsamePending ▸ hpending) hlive ?_
      · unfold Operation.isMember at hmember ⊢
        rwa [hcreation] at hmember
      · unfold Operation.awaitsInstallation at hcleanup ⊢
        rwa [hsameCleanup] at hcleanup
      · simpa using hr.verdict id outcome
    · cases hevents
      refine .quiet fun e he => ?_
      simp only [flatMap_nil, nil_append, flatMap_cons, append_nil] at he
      refine hr.quiet (fun hsuccess => ?_) he
      rw [hsuccess] at hresult
      obtain ⟨plan, hplan, _⟩ := bind_ok hresult
      rw [orReject_eq_ok, hcreation] at hplan
      exact ⟨own, hown, .inl (by simp [hplan])⟩

theorem rejectInstallation_emits (hr : Resumes m r f) (hkeyed : Keyed m)
    (h : rejectInstallation r id reason = .ok d) :
    Emits m (d.events.flatMap f) := by
  obtain ⟨op, hop, h⟩ := bind_ok h
  have h := then_ok h
  rw [orReject_eq_ok] at hop
  obtain ⟨own, hown, hid, _⟩ := hr.lookup hop
  split at h
  · exact Assembly.settle_emits hr hop (hid.trans (hkeyed hown)) h
  · cases h
    refine .quiet fun e he => ?_
    simp only [terminal, flatMap_cons, flatMap_nil, append_nil] at he
    exact hr.quiet (fun hsuccess => by cases hsuccess) he

theorem cancelUnstartedCreation_emits (hkeyed : Keyed m)
    (h : cancelUnstartedCreation m id reason = .ok d) : Emits m d.events := by
  obtain ⟨op, hop, h⟩ := bind_ok h
  have h := then_ok h
  rw [orReject_eq_ok] at hop
  have hid := hkeyed hop
  subst hid
  split at h
  · exact Assembly.cancelUnstartedMember_emits hkeyed hop h
  · cases h
    exact .single (.wrote rfl fun hsuccess => by cases hsuccess)

-- ==== reconciliation

theorem reconciled_verdict (evidence : DataRef) (id : OperationId)
    (o : OperationOutcome) :
    Writes id o (reconciled m evidence (.operationFinished id o)) := by
  show Writes id o (if _ then if _ then _ else _ else _)
  split
  · split
    · rename_i hkept
      exact .kept hkept
    · exact .reconciled evidence
  · exact .finished

/-- A reconciliation reads the model with outcomes taken away. -/
theorem resume_resumes (hop : m.operations[id]? = some op)
    (h : resume m id op plan = .ok r) (evidence : DataRef) :
    Resumes m r (reconciled m evidence) := by
  have hplain : ∀ e : DomainEvent, e.writes = none →
      reconciled m evidence e = [e] := by
    intro e he
    cases e <;> first | rfl | cases he
  have hone : ∀ {k : OperationId} {op' : Operation},
      (m.operations.insert id (reopened op))[k]? = some op' →
      ∃ o, m.operations[k]? = some o ∧ (op' = o ∨ op' = reopened o) := by
    intro k op' hk
    rw [BTreeMap.get_insert] at hk
    split at hk
    · rename_i heq
      cases hk
      exact ⟨op, heq ▸ hop, .inr rfl⟩
    · exact ⟨op', hk, .inl rfl⟩
  unfold resume at h
  dsimp only at h
  split at h
  · rename_i group hdest
    obtain ⟨coordinator, hcoordinator, h⟩ := bind_ok h
    rw [orReject_eq_ok] at hcoordinator
    split at h
    · cases h
      refine ⟨⟨_, rfl⟩, fun {k op'} hk => ?_, hplain,
        reconciled_verdict evidence⟩
      simp only [BTreeMap.get_insert (m.operations.insert id _)] at hk
      split at hk
      · rename_i heq
        cases hk
        rw [← heq]
        obtain ⟨o, ho, rfl | rfl⟩ := hone hcoordinator
        · exact ⟨_, ho, .inr rfl⟩
        · exact ⟨o, ho, .inr rfl⟩
      · exact hone hk
    · cases h
      exact ⟨⟨_, rfl⟩, hone, hplain, reconciled_verdict evidence⟩
  · cases h
    exact ⟨⟨_, rfl⟩, hone, hplain, reconciled_verdict evidence⟩

theorem reconcile_emits (hkeyed : Keyed m) {discarded : Option String}
    (h : reconcile m id evidence discarded = .ok d) : Emits m d.events := by
  obtain ⟨previous, hprevious, h⟩ := bind_ok h
  obtain ⟨plan, _, h⟩ := bind_ok h
  have h := then_ok h
  obtain ⟨resumed, hresumed, h⟩ := bind_ok h
  obtain ⟨decision, hdecision, h⟩ := bind_ok h
  cases h
  rw [orReject_eq_ok] at hprevious
  have hr := resume_resumes hprevious hresumed evidence
  cases discarded with
  | some reason => exact rejectInstallation_emits hr hkeyed hdecision
  | none => exact finishCleanup_emits hr hkeyed hdecision

end Creation

-- ==== every command

theorem decideCommand_emits {m : JournalModel} (hkeyed : Keyed m)
    {command : StructuralCommand} {d : StructuralDecision}
    (h : decideCommand m command = .ok d) : Emits m d.events := by
  cases command with
  | reconcilePreparation => exact Creation.reconcile_emits hkeyed h
  | reconcileRetirement => exact Retirement.reconcileRetirement_emits h
  | recoverOperation => exact Recovery.recoverOperation_emits h
  | replace => exact Retirement.replace_emits h
  | prepareForward =>
    cases h
    exact .forwarded
  | finishForward => exact Forward.finishForward_emits h
  | prepareAssembly => exact Assembly.prepareAssembly_emits h
  | recordCapture => exact Recovery.recordCapture_emits h
  | close => exact Retirement.close_emits h
  | finishRetirement => exact Retirement.finishRetirement_emits h
  | retireEngine => exact Bootstrap.retireEngine_emits h
  | openEngine => exact Bootstrap.openEngine_emits h
  | prepareCreation => exact Creation.prepareCreation_emits h
  | cancelUnstartedCreation =>
    exact Creation.cancelUnstartedCreation_emits hkeyed h
  | rejectInstallation =>
    have hemits := Creation.rejectInstallation_emits (.self m) hkeyed h
    rwa [flatMap_singleton'] at hemits
  | finishCleanup =>
    have hemits := Creation.finishCleanup_emits (.self m) hkeyed h
    rwa [flatMap_singleton'] at hemits
  | markPreparationUncertain =>
    exact Creation.markPreparationUncertain_emits h
  | finishCreation => exact Creation.finishCreation_emits hkeyed h
  | resetCategories => exact Metadata.resetCategories_emits h
  | createCategory => exact Metadata.createCategory_emits h
  | renameCategory => exact Metadata.renameCategory_emits h
  | deleteCategory => exact Metadata.deleteCategory_emits h
  | reorderCategory => exact Metadata.reorderCategory_emits h
  | setWorkspaceCategory => exact Metadata.setWorkspaceCategory_emits h
  | updateWorkspaceMeta => exact Metadata.updateWorkspaceMeta_emits h
  | setWorkspaceAttachMapping =>
    exact Metadata.setWorkspaceAttachMapping_emits h
  | moveWorkspace => exact Metadata.moveWorkspace_emits h
  | renameTab => exact Metadata.renameTab_emits h
  | moveTab => exact Metadata.moveTab_emits h
  | setPaneRatio => exact Metadata.setPaneRatio_emits h
  | setSurfaceRatio => exact Metadata.setSurfaceRatio_emits h

theorem Accepts.emits {m m' : JournalModel} {facts : List DomainEvent}
    (hkeyed : Keyed m) (h : Accepts m m' facts) : Emits m facts := by
  obtain ⟨command, decision, hdecide, hfacts⟩ := h.decided
  rw [← hfacts]
  exact decideCommand_emits hkeyed (decideStructure_decides hdecide)

end Tasty.Core
