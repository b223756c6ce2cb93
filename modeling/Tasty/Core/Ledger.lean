/-
The ledger of operations and undo records, event by event.

An operation is prepared once under a fresh id and never removed. What it
was prepared with stays; only its progress and its outcome are written,
and an outcome that is not uncertain is never written over. `Later` says
this of two states of one operation, and every event and batch is a
`Later` step of every operation.
-/
import Tasty.Core.Effects

namespace Tasty.Core

open List Option

open BTreeMap (Stems)

-- ==== one operation

/-- `op'` is a later state of `op`. -/
structure Operation.Later (op op' : Operation) : Prop where
  id : op'.id = op.id
  commandId : op'.commandId = op.commandId
  engineIncarnation : op'.engineIncarnation = op.engineIncarnation
  creation : op'.creation = op.creation
  assembly : op'.assembly = op.assembly
  retirement : op'.retirement = op.retirement
  forward : op'.forward = op.forward
  targets : op'.targets = op.targets
  reserved : op'.reserved = op.reserved
  input : op'.input = op.input
  activationGeneration : op'.activationGeneration = op.activationGeneration
  final : ∀ o, op.outcome = some o → o.isUncertain = false →
    op'.outcome = some o

namespace Operation.Later

variable {op op' op'' : Operation}

theorem refl (op : Operation) : Later op op where
  id := rfl
  commandId := rfl
  engineIncarnation := rfl
  creation := rfl
  assembly := rfl
  retirement := rfl
  forward := rfl
  targets := rfl
  reserved := rfl
  input := rfl
  activationGeneration := rfl
  final _ h _ := h

theorem trans (h₁ : Later op op') (h₂ : Later op' op'') : Later op op'' where
  id := h₂.id.trans h₁.id
  commandId := h₂.commandId.trans h₁.commandId
  engineIncarnation := h₂.engineIncarnation.trans h₁.engineIncarnation
  creation := h₂.creation.trans h₁.creation
  assembly := h₂.assembly.trans h₁.assembly
  retirement := h₂.retirement.trans h₁.retirement
  forward := h₂.forward.trans h₁.forward
  targets := h₂.targets.trans h₁.targets
  reserved := h₂.reserved.trans h₁.reserved
  input := h₂.input.trans h₁.input
  activationGeneration :=
    h₂.activationGeneration.trans h₁.activationGeneration
  final o ho hfinal := h₂.final o (h₁.final o ho hfinal) hfinal

end Operation.Later

/-- The outcome an event writes, and for which operation. -/
def DomainEvent.writes :
    DomainEvent → Option (OperationId × OperationOutcome)
  | operationFinished id outcome => some (id, outcome)
  | operationReconciled id outcome _ => some (id, outcome)
  | _ => none

/-- How an event edits an operation that exists. -/
inductive Edits : DomainEvent → OperationId → Operation → Operation → Prop
  | resource {id : OperationId} {op : Operation} {data : Option DataRef}
      {deferred : Bool} (hpending : op.pendingOutcome = none)
      (houtcome : op.outcome = none) :
      Edits (.operationResourcePrepared id data deferred) id op
        { op with
          resourcePrepared := true
          preparedData := data
          preparedDeferred := deferred }
  | awaiting {id : OperationId} {op : Operation}
      {outcome : OperationOutcome} {cleanup : CleanupPlan}
      {data : Option DataRef} {deferred : Bool}
      (houtcome : op.outcome = none) (hpending : op.pendingOutcome = none)
      (hcleanup : op.cleanup = none)
      (hcertain : outcome.isUncertain = false) :
      Edits (.operationAwaitingCleanup id outcome cleanup data deferred) id
        op
        { op with
          pendingOutcome := some outcome
          cleanup := some cleanup
          preparedData := data
          preparedDeferred := deferred }
  | finished {id : OperationId} {op : Operation}
      {outcome : OperationOutcome} (hopen : op.outcome = none) :
      Edits (.operationFinished id outcome) id op (op.settled outcome none)
  | recovery {id : OperationId} {op : Operation} {evidence : DataRef} :
      Edits (.operationRecoveryObserved id evidence) id op
        { op with reconciliationEvidence := some evidence }
  | reconciled {id : OperationId} {op : Operation}
      {outcome : OperationOutcome} {evidence : DataRef}
      (hopen : op.isUncertain = true) (hevidence : evidence.raw ≠ 0) :
      Edits (.operationReconciled id outcome evidence) id op
        (op.settled outcome (some evidence))

section Settled

variable {op : Operation} {outcome : OperationOutcome}
  {evidence : Option DataRef}

theorem Operation.settled_outcome :
    (op.settled outcome evidence).outcome = some outcome := by
  unfold settled
  split <;> rfl

theorem Operation.settled_later
    (hopen : ∀ o, op.outcome = some o → o.isUncertain = true) :
    op.Later (op.settled outcome evidence) := by
  have hfinal : ∀ {p : Option OperationOutcome → Prop} o,
      op.outcome = some o → o.isUncertain = false → p (some o) := by
    intro p o ho hcertain
    rw [hopen o ho] at hcertain
    cases hcertain
  unfold settled
  split
  · exact { Operation.Later.refl op with final := fun o => hfinal o }
  · exact { Operation.Later.refl op with final := fun o => hfinal o }

end Settled

variable {e : DomainEvent} {id : OperationId} {op : Operation}
  {op' : Operation}

theorem Edits.later (h : Edits e id op op') : op.Later op' := by
  cases h with
  | resource | awaiting | recovery => exact { Operation.Later.refl op with }
  | finished hopen =>
    refine Operation.settled_later fun o ho => ?_
    rw [hopen] at ho
    cases ho
  | reconciled hopen =>
    refine Operation.settled_later fun o ho => ?_
    unfold Operation.isUncertain at hopen
    rwa [ho] at hopen

theorem Edits.outcome (h : Edits e id op op') :
    op'.outcome = op.outcome
      ∨ ∃ o, e.writes = some (id, o) ∧ op'.outcome = some o := by
  cases h with
  | resource => exact .inl rfl
  | awaiting => exact .inl rfl
  | finished | reconciled => exact .inr ⟨_, rfl, Operation.settled_outcome⟩
  | recovery => exact .inl rfl

-- ==== the handlers

section Handlers

variable {m m' : JournalModel} {id : OperationId}

theorem getOperation_eq_ok :
    getOperation m id = .ok op ↔ m.operations[id]? = some op := by
  unfold getOperation
  cases m.operations[id]? <;> simp

/-- What a preparation checks and does. -/
structure Prepares (m : JournalModel) (op : Operation)
    (m' : JournalModel) : Prop where
  formed : op.malformed = false
  retirement : checkRetirement m op = .ok ()
  fresh : m.operations[op.id]? = none
  reserved : checkReserved m [] op.reserved = .ok ()
  result : ∃ marks, reserveGeneration m op = .ok marks
    ∧ m' = { m with
        activationHighWater := marks
        operations := m.operations.insert op.id op }

theorem prepare_eq_ok (hok : prepare m op = .ok m') : Prepares m op m' := by
  obtain ⟨hformed, hok⟩ := guard_ok hok
  obtain ⟨_, hretirement, hok⟩ := bind_ok hok
  obtain ⟨hfresh, hok⟩ := guard_ok hok
  obtain ⟨_, hreserved, hok⟩ := bind_ok hok
  obtain ⟨marks, hmarks, hok⟩ := bind_ok hok
  cases hok
  exact {
    formed := by simpa using hformed
    retirement := hretirement
    fresh := by
      rw [← BTreeMap.not_mem_iff_get]
      exact fun h => hfresh (Std.ExtTreeMap.contains_iff_mem.2 h)
    reserved := hreserved
    result := ⟨marks, hmarks, rfl⟩ }

theorem Prepares.outcome (h : Prepares m op m') : op.outcome = none := by
  have hformed := h.formed
  simp only [Operation.malformed, Bool.or_eq_false_iff,
    isSome_eq_false_iff, isNone_iff_eq_none] at hformed
  obtain ⟨⟨⟨⟨⟨_, houtcome⟩, _⟩, _⟩, _⟩, _⟩ := hformed
  exact houtcome

variable {outcome : OperationOutcome}

theorem outcomeAllowed_none {present : Option OperationOutcome}
    (h : outcomeAllowed present outcome none = true) : present = none := by
  cases present with
  | none => rfl
  | some o => cases o <;> simp [outcomeAllowed] at h

theorem outcomeAllowed_some {evidence : DataRef}
    (h : outcomeAllowed op.outcome outcome (some evidence) = true) :
    op.isUncertain = true ∧ evidence.raw ≠ 0 := by
  unfold Operation.isUncertain
  cases hop : op.outcome with
  | none => simp [outcomeAllowed, hop] at h
  | some o =>
    cases o <;> simp_all [outcomeAllowed, OperationOutcome.isUncertain]

/-- What an event does to the operations: nothing, a new one, or an edit
of one. -/
inductive OperationStep (m m' : JournalModel) (e : DomainEvent) : Prop
  | same (h : m'.operations = m.operations)
  | prepares {op : Operation} (he : e = .operationPrepared op)
      (h : Prepares m op m')
  | edits {id : OperationId} {op op' : Operation}
      (hop : m.operations[id]? = some op) (h : Edits e id op op')
      (hm' : m'.operations = m.operations.insert id op')

theorem apply_operationStep
    (hok : apply m e = .ok m') : OperationStep m m' e := by
  cases e with
  | operationPrepared op => exact .prepares rfl (prepare_eq_ok hok)
  | operationResourcePrepared id data deferred =>
    obtain ⟨op, hop, hok⟩ := bind_ok hok
    obtain ⟨hopen, hok⟩ := guard_ok hok
    cases hok
    simp only [Bool.or_eq_true, not_or, Bool.not_eq_true,
      isSome_eq_false_iff, isNone_iff_eq_none] at hopen
    obtain ⟨⟨⟨_, houtcome⟩, hpending⟩, _⟩ := hopen
    exact .edits (getOperation_eq_ok.1 hop) (.resource hpending houtcome)
      rfl
  | operationAwaitingCleanup id outcome cleanup data deferred =>
    obtain ⟨op, hop, hok⟩ := bind_ok hok
    obtain ⟨hopen, hok⟩ := guard_ok hok
    cases hok
    simp only [Bool.or_eq_true, not_or, Bool.not_eq_true,
      isSome_eq_false_iff, isNone_iff_eq_none] at hopen
    obtain ⟨⟨⟨⟨houtcome, hpending⟩, hcleanup⟩, _⟩, hcertain⟩ := hopen
    exact .edits (getOperation_eq_ok.1 hop)
      (.awaiting houtcome hpending hcleanup hcertain) rfl
  | operationFinished id outcome =>
    obtain ⟨op, hop, hok⟩ := bind_ok hok
    obtain ⟨hallowed, hok⟩ := guard_not_ok hok
    cases hok
    exact .edits (getOperation_eq_ok.1 hop)
      (.finished (outcomeAllowed_none hallowed)) rfl
  | operationRecoveryObserved id evidence =>
    obtain ⟨op, hop, hok⟩ := bind_ok hok
    obtain ⟨_, hok⟩ := guard_ok hok
    cases hok
    exact .edits (getOperation_eq_ok.1 hop) .recovery rfl
  | operationReconciled id outcome evidence =>
    obtain ⟨op, hop, hok⟩ := bind_ok hok
    obtain ⟨hallowed, hok⟩ := guard_not_ok hok
    cases hok
    obtain ⟨hopen, hevidence⟩ := outcomeAllowed_some hallowed
    exact .edits (getOperation_eq_ok.1 hop) (.reconciled hopen hevidence)
      rfl
  | undoRecordAdded record | engineIncarnationStarted previous current
  | engineRetired incarnation =>
    obtain ⟨_, hok⟩ := guard_ok hok
    cases hok
    exact .same rfl
  | undoRecordConsumed id | undoRecordEvicted id =>
    obtain ⟨_, hok⟩ := guard_not_ok hok
    cases hok
    exact .same rfl
  | _ => exact .same (apply_effect rfl hok).ledger.operations

theorem apply_elsewhere (hok : apply m e = .ok m') :
    (e.editsUndo = false → m'.undoRecords = m.undoRecords)
      ∧ (e.onLedger = true → (∀ op, e ≠ .operationPrepared op) →
        m'.activationHighWater = m.activationHighWater) := by
  cases hkind : e.onLedger with
  | false =>
    refine ⟨fun _ => (apply_effect hkind hok).ledger.undoRecords, fun h => ?_⟩
    cases h
  | true =>
    obtain ⟨-, hundo, hmarks⟩ := apply_onLedger hkind hok
    exact ⟨hundo, fun _ => hmarks⟩

end Handlers

-- ==== operations in a run

section Step

variable {m m' : JournalModel} {e : DomainEvent} {id : OperationId}

variable (hok : apply m e = .ok m')

include hok

theorem apply_keeps (hop : m.operations[id]? = some op) :
    ∃ op', m'.operations[id]? = some op' ∧ op.Later op' := by
  cases apply_operationStep hok with
  | same h =>
    rw [h]
    exact ⟨op, hop, .refl op⟩
  | prepares he h =>
    rename_i new
    obtain ⟨marks, _, hm'⟩ := h.result
    have hne : new.id ≠ id := by
      intro heq
      have hfresh := h.fresh
      rw [heq, hop] at hfresh
      cases hfresh
    rw [hm']
    exact ⟨op, by simp [hne, hop], .refl op⟩
  | edits hedited h hm' =>
    rename_i target before after
    rw [hm', BTreeMap.get_insert]
    split
    · rename_i heq
      rw [heq, hop] at hedited
      cases hedited
      exact ⟨after, rfl, h.later⟩
    · exact ⟨op, hop, .refl op⟩

theorem apply_origin (hop' : m'.operations[id]? = some op') :
    (∃ op, m.operations[id]? = some op ∧ op.Later op'
        ∧ (op'.outcome = op.outcome
          ∨ ∃ o, e.writes = some (id, o) ∧ op'.outcome = some o))
      ∨ e = .operationPrepared op' ∧ op'.id = id := by
  cases apply_operationStep hok with
  | same h =>
    rw [h] at hop'
    exact .inl ⟨op', hop', .refl op', .inl rfl⟩
  | prepares he h =>
    rename_i new
    obtain ⟨marks, _, hm'⟩ := h.result
    simp only [hm', BTreeMap.get_insert] at hop'
    split at hop'
    · rename_i hid
      cases hop'
      exact .inr ⟨he, hid⟩
    · exact .inl ⟨op', hop', .refl op', .inl rfl⟩
  | edits hedited h hm' =>
    rename_i target before after
    rw [hm', BTreeMap.get_insert] at hop'
    split at hop'
    · rename_i heq
      cases hop'
      subst heq
      exact .inl ⟨before, hedited, h.later, h.outcome⟩
    · exact .inl ⟨op', hop', .refl op', .inl rfl⟩

theorem apply_writes {o : OperationOutcome}
    (hwrites : e.writes = some (id, o)) :
    ∃ op op', m.operations[id]? = some op
      ∧ m'.operations[id]? = some op' ∧ op'.outcome = some o
      ∧ (op.outcome = none ∧ e = .operationFinished id o
        ∨ op.isUncertain = true ∧ ∃ evidence,
          evidence.raw ≠ 0 ∧ e = .operationReconciled id o evidence) := by
  cases e with
  | operationFinished id outcome =>
    cases hwrites
    obtain ⟨op, hop, hok⟩ := bind_ok hok
    obtain ⟨hallowed, hok⟩ := guard_not_ok hok
    cases hok
    exact ⟨op, op.settled o none, getOperation_eq_ok.1 hop, by simp,
      Operation.settled_outcome,
      .inl ⟨outcomeAllowed_none hallowed, rfl⟩⟩
  | operationReconciled id outcome evidence =>
    cases hwrites
    obtain ⟨op, hop, hok⟩ := bind_ok hok
    obtain ⟨hallowed, hok⟩ := guard_not_ok hok
    cases hok
    obtain ⟨hopen, hevidence⟩ := outcomeAllowed_some hallowed
    exact ⟨op, op.settled o (some evidence), getOperation_eq_ok.1 hop,
      by simp, Operation.settled_outcome,
      .inr ⟨hopen, evidence, hevidence, rfl⟩⟩
  | _ => cases hwrites

theorem apply_open {o o' : OperationOutcome} (hwrites : e.writes = some (id, o))
    (hop : m.operations[id]? = some op) (ho' : op.outcome = some o') :
    o'.isUncertain = true := by
  obtain ⟨found, _, hfound, _, _, hopen⟩ := apply_writes hok hwrites
  rw [hop] at hfound
  cases hfound
  rcases hopen with ⟨hnone, _⟩ | ⟨huncertain, _⟩
  · rw [ho'] at hnone
    cases hnone
  · unfold Operation.isUncertain at huncertain
    rwa [ho'] at huncertain

omit hok

end Step

section Batch

variable {m m' : JournalModel} {es : List DomainEvent}
  {id : OperationId}

variable (h : Applies m es m')

include h

theorem Applies.keeps (hop : m.operations[id]? = some op) :
    ∃ op', m'.operations[id]? = some op' ∧ op.Later op' := by
  induction es generalizing m op with
  | nil =>
    obtain ⟨a, ha⟩ := h
    rw [ha]
    exact ⟨op, hop, .refl op⟩
  | cons e es ih =>
    obtain ⟨m₁, a, happly, hrest⟩ := h
    obtain ⟨op₁, hop₁, hlater₁⟩ := apply_keeps happly hop
    obtain ⟨op', hop', hlater⟩ := ih hrest hop₁
    exact ⟨op', hop', hlater₁.trans hlater⟩

theorem Applies.origin (hop' : m'.operations[id]? = some op') :
    (∃ op, m.operations[id]? = some op ∧ op.Later op')
      ∨ ∃ op, DomainEvent.operationPrepared op ∈ es ∧ op.id = id
          ∧ op.Later op' := by
  induction es generalizing m with
  | nil =>
    obtain ⟨a, ha⟩ := h
    rw [ha] at hop'
    exact .inl ⟨op', hop', .refl op'⟩
  | cons e es ih =>
    obtain ⟨m₁, a, happly, hrest⟩ := h
    rcases ih hrest with ⟨op₁, hop₁, hlater⟩ | ⟨op, hmem, hid, hlater⟩
    · have hop₁ : m₁.operations[id]? = some op₁ := hop₁
      rcases apply_origin happly hop₁ with
        ⟨op, hop, hlater₁, _⟩ | ⟨he, hid⟩
      · exact .inl ⟨op, hop, hlater₁.trans hlater⟩
      · exact .inr ⟨op₁, by simp [he], hid, hlater⟩
    · exact .inr ⟨op, mem_cons_of_mem _ hmem, hid, hlater⟩

variable {o : OperationOutcome}

theorem Applies.wrote
    (hop' : m'.operations[id]? = some op') (ho : op'.outcome = some o) :
    (∃ op, m.operations[id]? = some op ∧ op.outcome = some o)
      ∨ ∃ e ∈ es, e.writes = some (id, o) := by
  induction es generalizing m with
  | nil =>
    obtain ⟨a, ha⟩ := h
    rw [ha] at hop'
    exact .inl ⟨op', hop', ho⟩
  | cons e es ih =>
    obtain ⟨m₁, a, happly, hrest⟩ := h
    rcases ih hrest with ⟨op₁, hop₁, ho₁⟩ | ⟨w, hw, hwrites⟩
    · have hop₁ : m₁.operations[id]? = some op₁ := hop₁
      rcases apply_origin happly hop₁ with
        ⟨op, hop, _, hsame | ⟨o', hwrites, ho'⟩⟩ | ⟨he, hid⟩
      · exact .inl ⟨op, hop, hsame ▸ ho₁⟩
      · rw [ho₁] at ho'
        cases ho'
        exact .inr ⟨e, mem_cons_self, hwrites⟩
      · -- nothing is prepared with an outcome
        subst he
        rw [(prepare_eq_ok happly).outcome] at ho₁
        cases ho₁
    · exact .inr ⟨w, mem_cons_of_mem _ hw, hwrites⟩

theorem Applies.written (he : e ∈ es) (hwrites : e.writes = some (id, o))
    (hcertain : o.isUncertain = false) :
    ∃ op', m'.operations[id]? = some op' ∧ op'.outcome = some o := by
  induction es generalizing m with
  | nil => cases he
  | cons head es ih =>
    obtain ⟨m₁, a, happly, hrest⟩ := h
    rcases mem_cons.1 he with hhead | he
    · subst hhead
      obtain ⟨_, op₁, _, hop₁, ho₁, _⟩ := apply_writes happly hwrites
      obtain ⟨op', hop', hlater⟩ := hrest.keeps hop₁
      exact ⟨op', hop', hlater.final o ho₁ hcertain⟩
    · exact ih hrest he

theorem Applies.prepared (hop : .operationPrepared op ∈ es) :
    m.operations[op.id]? = none
      ∧ ∃ op', m'.operations[op.id]? = some op' ∧ op.Later op' := by
  induction es generalizing m with
  | nil => cases hop
  | cons e es ih =>
    obtain ⟨m₁, a, happly, hrest⟩ := h
    rcases mem_cons.1 hop with hhead | hop
    · subst hhead
      have hprepares := prepare_eq_ok happly
      obtain ⟨marks, _, hm₁⟩ := hprepares.result
      refine ⟨hprepares.fresh, hrest.keeps ?_⟩
      simp [hm₁]
    · obtain ⟨hnone, hafter⟩ := ih hrest hop
      refine ⟨?_, hafter⟩
      cases hbefore : m.operations[op.id]? with
      | none => rfl
      | some old =>
        obtain ⟨old', hold', _⟩ := apply_keeps happly hbefore
        have hnone : m₁.operations[op.id]? = none := hnone
        rw [hold'] at hnone
        cases hnone

theorem Applies.open_of_writes
    (he : e ∈ es) (hwrites : e.writes = some (id, o))
    (hop : m.operations[id]? = some op) {o' : OperationOutcome}
    (ho' : op.outcome = some o') : o'.isUncertain = true := by
  induction es generalizing m op with
  | nil => cases he
  | cons head es ih =>
    obtain ⟨m₁, a, happly, hrest⟩ := h
    cases hcertain : o'.isUncertain with
    | true => rfl
    | false =>
      rcases mem_cons.1 he with hhead | he
      · subst hhead
        exact absurd hcertain (by
          rw [apply_open happly hwrites hop ho']
          simp)
      · obtain ⟨op₁, hop₁, hlater⟩ := apply_keeps happly hop
        rw [← hcertain]
        exact ih hrest he hop₁ (hlater.final o' ho' hcertain)

omit h

end Batch

-- ==== invariants

/-- Every operation is stored under its own id. -/
def Keyed (m : JournalModel) : Prop :=
  ∀ {id : OperationId} {op : Operation},
    m.operations[id]? = some op → op.id = id

/-- No id is reserved by two operations. -/
def ReservedOnce (m : JournalModel) : Prop :=
  ∀ {a b : OperationId} {opA opB : Operation} {x : EntityId},
    m.operations[a]? = some opA → m.operations[b]? = some opB →
    x ∈ opA.reserved → x ∈ opB.reserved → a = b

/-- An installation is authorized with the outcome success, and no
pending outcome is uncertain. -/
structure Operation.Paired (op : Operation) : Prop where
  install : op.awaitsInstallation = true →
    op.pendingOutcome = some .succeeded
  certain : ∀ o, op.pendingOutcome = some o → o.isUncertain = false

/-- The obligation an event makes due is paired. -/
def DomainEvent.PairsCleanup : DomainEvent → Prop
  | operationAwaitingCleanup _ o (.installPrepared ..) _ _ =>
    o = .succeeded
  | _ => True

section Invariants

variable {m m' : JournalModel} {e : DomainEvent}

theorem apply_keyed (h : Keyed m) (hok : apply m e = .ok m') : Keyed m' := by
  intro id op' hop'
  rcases apply_origin hok hop' with ⟨op, hop, hlater, _⟩ | ⟨_, hid⟩
  · rw [hlater.id]
    exact h hop
  · exact hid

theorem checkReserved_eq_ok {seen reserved : List EntityId}
    (hok : checkReserved m seen reserved = .ok ()) {x : EntityId}
    (hx : x ∈ reserved) :
    m.holds x = false ∧ ∀ {id : OperationId} {op : Operation},
      m.operations[id]? = some op → x ∉ op.reserved := by
  induction reserved generalizing seen with
  | nil => cases hx
  | cons y reserved ih =>
    obtain ⟨hfree, hok⟩ := guard_ok hok
    rcases mem_cons.1 hx with rfl | hx
    · simp only [Bool.or_eq_true, not_or, Bool.not_eq_true] at hfree
      obtain ⟨⟨⟨_, hheld⟩, _⟩, howned⟩ := hfree
      refine ⟨hheld, fun {id op} hop hmem => ?_⟩
      have hnone := BTreeMap.anyValue_eq_false.1 howned id op hop
      rw [← Bool.not_eq_true] at hnone
      exact hnone (contains_iff_mem.2 hmem)
    · exact ih hok hx

theorem apply_reservedOnce (h : ReservedOnce m)
    (hok : apply m e = .ok m') : ReservedOnce m' := by
  intro a b opA opB x hA hB hxA hxB
  -- a prepared operation reserves nothing an older one did
  have hfresh : ∀ {op old : Operation} {id : OperationId},
      e = .operationPrepared op → x ∈ op.reserved →
      m.operations[id]? = some old → x ∉ old.reserved := by
    intro op old id he hx hold
    subst he
    exact (checkReserved_eq_ok (prepare_eq_ok hok).reserved hx).2 hold
  rcases apply_origin hok hA with ⟨oldA, holdA, hlaterA, _⟩ | ⟨heA, hidA⟩
  · rw [hlaterA.reserved] at hxA
    rcases apply_origin hok hB with ⟨oldB, holdB, hlaterB, _⟩ | ⟨heB, _⟩
    · rw [hlaterB.reserved] at hxB
      exact h holdA holdB hxA hxB
    · exact absurd hxA (hfresh heB hxB holdA)
  · rcases apply_origin hok hB with ⟨oldB, holdB, hlaterB, _⟩ | ⟨heB, hidB⟩
    · rw [hlaterB.reserved] at hxB
      exact absurd hxB (hfresh heA hxA holdB)
    · rw [heA] at heB
      cases heB
      rw [← hidA, hidB]

theorem Operation.Paired.settled (h : op.Paired)
    (o : OperationOutcome) (evidence : Option DataRef) :
    (op.settled o evidence).Paired := by
  unfold Operation.settled
  split
  · exact ⟨h.install, h.certain⟩
  · refine ⟨fun hinstall => ?_, fun o ho => ?_⟩
    · cases hinstall
    · cases ho

theorem Edits.paired
    (h : Edits e id op op') (he : e.PairsCleanup) (hop : op.Paired) :
    op'.Paired := by
  cases h with
  | resource | recovery => exact ⟨hop.install, hop.certain⟩
  | @awaiting _ _ o cleanup data deferred _ _ _ hcertain =>
    refine ⟨fun hinstall => ?_, fun o' ho' => ?_⟩
    · cases cleanup with
      | installPrepared =>
        have hsuccess : o = .succeeded := he
        rw [hsuccess]
      | discardPrepared => cases hinstall
    · cases ho'
      exact hcertain
  | finished => exact hop.settled _ _
  | reconciled => exact hop.settled _ _

theorem apply_paired (he : e.PairsCleanup)
    (h : ∀ {id : OperationId} {op : Operation},
      m.operations[id]? = some op → op.Paired) (hok : apply m e = .ok m')
    (hop' : m'.operations[id]? = some op') : op'.Paired := by
  cases apply_operationStep hok with
  | same hsame =>
    rw [hsame] at hop'
    exact h hop'
  | prepares _ hprepares =>
    rename_i op
    obtain ⟨marks, _, hm'⟩ := hprepares.result
    simp only [hm', BTreeMap.get_insert] at hop'
    split at hop'
    · cases hop'
      have hformed := hprepares.formed
      simp only [Operation.malformed, Bool.or_eq_false_iff,
        isSome_eq_false_iff, isNone_iff_eq_none] at hformed
      obtain ⟨⟨⟨⟨_, hpending⟩, hcleanup⟩, _⟩, _⟩ := hformed
      refine ⟨fun hinstall => ?_, fun o ho => ?_⟩
      · unfold Operation.awaitsInstallation at hinstall
        rw [hcleanup] at hinstall
        cases hinstall
      · rw [hpending] at ho
        cases ho
    · exact h hop'
  | edits hedited hedits hm' =>
    rw [hm', BTreeMap.get_insert] at hop'
    split at hop'
    · cases hop'
      exact hedits.paired he (h hedited)
    · exact h hop'

end Invariants

end Tasty.Core
