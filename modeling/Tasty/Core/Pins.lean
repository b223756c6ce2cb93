/-
Which payloads a model and an event name (`data_refs` of
`crates/tasty-core/src/{model,event,assembly,undo}.rs`), and that no
decision makes the model name a payload that none of its events names.

The storage pins the payloads of each event in the event's commit and
collects what neither a pin nor a model names. Within a batch an
operation either has only covered payloads, or it is resolved for good:
its own outcome is decided, and so is that of the group it belongs to.
-/
import Tasty.Core.Outcomes

namespace Tasty.Core

open Operation List

variable {r : DataRef}

-- ==== the payloads

/-- Every payload an operation names. -/
def Operation.dataRefs (op : Operation) : List DataRef :=
  op.input :: op.assemblyRefs ++ op.reconciliationEvidence.toList
    ++ op.preparedData.toList ++ op.creationData.toList ++ op.undoRefs

/-- `outcome.is_none() || matches!(outcome, Some(Uncertain { .. }))`. -/
def unresolved : Option OperationOutcome → Bool
  | none => true
  | some outcome => outcome.isUncertain

/-- Whether the model keeps naming the payloads of an operation: it is
unresolved, or it is a member of an unresolved group. -/
def JournalModel.retains (m : JournalModel) (op : Operation) : Bool :=
  unresolved op.outcome
    || match op.creation with
      | some { destination := .assembly group, .. } =>
        match m.operations[group]? with
        | some coordinator => unresolved coordinator.outcome
        | none => false
      | _ => false

/-- `JournalModel::data_refs`. -/
def JournalModel.dataRefs (m : JournalModel) : List DataRef :=
  (m.surfaces.toList.flatMap fun entry => entry.2.dataRefs)
    ++ (((m.operations.toList.map Prod.snd).filter m.retains).flatMap
      Operation.dataRefs)
    ++ m.undoRecords.flatMap fun record => record.capture.dataRefs

-- ==== one event

section Event

variable {P : List DataRef} {m m' : JournalModel} {e : DomainEvent}

/-- An event whose payloads are covered keeps the surfaces covered. -/
theorem apply_surfacesIn (h : SurfacesIn P m.surfaces)
    (he : ∀ r ∈ e.dataRefs, r ∈ P) (hok : apply m e = .ok m') :
    SurfacesIn P m'.surfaces := by
  cases hkind : e.onLedger with
  | true => rwa [(apply_onLedger hkind hok).1.surfaces]
  | false => exact (apply_effect hkind hok).payloads P he h

theorem apply_undoIn
    (h : ∀ record ∈ m.undoRecords, ∀ r ∈ record.capture.dataRefs, r ∈ P)
    (he : ∀ r ∈ e.dataRefs, r ∈ P) (hok : apply m e = .ok m') :
    ∀ record ∈ m'.undoRecords, ∀ r ∈ record.capture.dataRefs, r ∈ P := by
  cases hedits : e.editsUndo with
  | false => rwa [(apply_elsewhere hok).1 hedits]
  | true =>
    cases e with
    | undoRecordAdded new =>
      obtain ⟨_, hok⟩ := guard_ok hok
      cases hok
      intro record hrecord
      rcases mem_append.1 hrecord with hrecord | hrecord
      · exact h record hrecord
      · cases mem_singleton.1 hrecord
        exact he
    | undoRecordConsumed id | undoRecordEvicted id =>
      obtain ⟨_, hok⟩ := guard_not_ok hok
      cases hok
      exact fun record hrecord => h record (mem_of_mem_eraseP hrecord)
    | _ => cases hedits

end Event

-- ==== one operation

/-- The operation is decided, and so is the group it is a member of: the
model never names its payloads again. -/
structure Resolved (m : JournalModel) (op : Operation) : Prop where
  own : unresolved op.outcome = false
  group : ∀ plan group, op.creation = some plan →
    plan.destination = .assembly group →
    ∃ coordinator, m.operations[group]? = some coordinator
      ∧ unresolved coordinator.outcome = false

section Operations

variable {P : List DataRef} {m m' : JournalModel} {op op' : Operation}

/-- A decided outcome stays decided. -/
theorem Operation.Later.resolved (h : op.Later op')
    (hop : unresolved op.outcome = false) : unresolved op'.outcome = false := by
  cases ho : op.outcome with
  | none =>
    rw [ho] at hop
    cases hop
  | some o =>
    rw [ho] at hop
    rw [h.final o ho hop]
    exact hop

theorem Resolved.step {e : DomainEvent} (h : Resolved m op)
    (hok : apply m e = .ok m') (hlater : op.Later op') : Resolved m' op' where
  own := hlater.resolved h.own
  group plan group hplan hgroup := by
    rw [hlater.creation] at hplan
    obtain ⟨coordinator, hfound, hdecided⟩ := h.group plan group hplan hgroup
    obtain ⟨next, hnext, hlater⟩ := apply_keeps hok hfound
    exact ⟨next, hnext, hlater.resolved hdecided⟩

theorem Resolved.retains (h : Resolved m op) : m.retains op = false := by
  unfold JournalModel.retains
  rw [h.own, Bool.false_or]
  split
  · rename_i group _ _ _ hplan
    obtain ⟨coordinator, hfound, hdecided⟩ := h.group _ group hplan rfl
    rw [hfound]
    exact hdecided
  · rfl

theorem Recorded.resolved (hm : Recorded m) {id : OperationId}
    (hop : m.operations[id]? = some op) (hdrop : m.retains op = false) :
    Resolved m op := by
  unfold JournalModel.retains at hdrop
  rw [Bool.or_eq_false_iff] at hdrop
  refine ⟨hdrop.1, fun plan group hplan hgroup => ?_⟩
  obtain ⟨coordinator, aplan, hfound, _, _⟩ :=
    hm.members hop hplan hgroup
  have hfound : m.operations[group]? = some coordinator := by
    rcases hfound with hfound | ⟨hnew, _⟩
    · exact hfound
    · cases hnew
  refine ⟨coordinator, hfound, ?_⟩
  obtain ⟨destination, surface, tabName, explicitName⟩ := plan
  cases hgroup
  have hgroup := hdrop.2
  rw [hplan] at hgroup
  dsimp only at hgroup
  rwa [hfound] at hgroup

theorem Operation.mem_dataRefs :
    r ∈ op.dataRefs ↔ r = op.input ∨ r ∈ op.assemblyRefs
      ∨ r ∈ op.reconciliationEvidence ∨ r ∈ op.preparedData
      ∨ r ∈ op.creationData ∨ r ∈ op.undoRefs := by
  simp only [dataRefs, cons_append, mem_cons,
    mem_append, Option.mem_toList, Option.mem_def, or_assoc]

theorem Prepares.dataRefs (h : Prepares m op m')
    (hr : r ∈ op.dataRefs) : r ∈ (DomainEvent.operationPrepared op).dataRefs := by
  have hformed := h.formed
  simp only [Operation.malformed, Bool.or_eq_false_iff,
    Option.isSome_eq_false_iff, Option.isNone_iff_eq_none] at hformed
  obtain ⟨⟨_, hdata⟩, hevidence⟩ := hformed
  simp only [DomainEvent.dataRefs, mem_append, mem_singleton, Option.mem_toList]
  rcases mem_dataRefs.1 hr with hr | hr | hr | hr | hr | hr
  · exact .inl (.inl (.inr hr))
  · exact .inl (.inl (.inl hr))
  · rw [hevidence] at hr
    cases hr
  · rw [hdata] at hr
    cases hr
  · exact .inl (.inr hr)
  · exact .inr hr

/-- An outcome drops the prepared payload, or keeps it, and replaces the
evidence. -/
theorem Operation.settled_dataRefs {o : OperationOutcome}
    {evidence : Option DataRef} (hr : r ∈ (op.settled o evidence).dataRefs) :
    r ∈ op.dataRefs ∨ r ∈ evidence := by
  have hlater : ∀ x, x ∈ (op.settled o evidence).preparedData →
      x ∈ op.preparedData := by
    intro x hx
    unfold Operation.settled at hx
    by_cases ho : o.isUncertain
    · simpa [ho] using hx
    · by_cases hmember : op.isMember
      · simpa [ho, hmember] using hx
      · simp [ho, hmember] at hx
  rw [mem_dataRefs] at hr
  rw [mem_dataRefs]
  have hinput : (op.settled o evidence).input = op.input := by
    unfold Operation.settled
    split <;> rfl
  have hassembly : (op.settled o evidence).assembly = op.assembly := by
    unfold Operation.settled
    split <;> rfl
  have hcreation : (op.settled o evidence).creation = op.creation := by
    unfold Operation.settled
    split <;> rfl
  have hretirement : (op.settled o evidence).retirement = op.retirement := by
    unfold Operation.settled
    split <;> rfl
  rw [hinput] at hr
  unfold assemblyRefs creationData undoRefs at *
  rw [hassembly, hcreation, hretirement] at hr
  rcases hr with hr | hr | hr | hr | hr | hr
  · exact .inl (.inl hr)
  · exact .inl (.inr (.inl hr))
  · exact .inr hr
  · exact .inl (.inr (.inr (.inr (.inl (hlater r hr)))))
  · exact .inl (.inr (.inr (.inr (.inr (.inl hr)))))
  · exact .inl (.inr (.inr (.inr (.inr (.inr hr)))))

theorem Edits.dataRefs {e : DomainEvent} {id : OperationId}
    (h : Edits e id op op') {r : DataRef} (hr : r ∈ op'.dataRefs) :
    r ∈ op.dataRefs ∨ r ∈ e.dataRefs := by
  cases h with
  | resource | awaiting =>
    rw [mem_dataRefs] at hr
    rw [mem_dataRefs]
    rcases hr with hr | hr | hr | hr | hr | hr
    · exact .inl (.inl hr)
    · exact .inl (.inr (.inl hr))
    · exact .inl (.inr (.inr (.inl hr)))
    · exact .inr (Option.mem_toList.2 hr)
    · exact .inl (.inr (.inr (.inr (.inr (.inl hr)))))
    · exact .inl (.inr (.inr (.inr (.inr (.inr hr)))))
  | finished =>
    rcases settled_dataRefs hr with hr | hr
    · exact .inl hr
    · cases hr
  | recovery =>
    rw [mem_dataRefs] at hr
    rw [mem_dataRefs]
    rcases hr with hr | hr | hr | hr | hr | hr
    · exact .inl (.inl hr)
    · exact .inl (.inr (.inl hr))
    · cases hr
      exact .inr mem_cons_self
    · exact .inl (.inr (.inr (.inr (.inl hr))))
    · exact .inl (.inr (.inr (.inr (.inr (.inl hr)))))
    · exact .inl (.inr (.inr (.inr (.inr (.inr hr)))))
  | reconciled =>
    rcases settled_dataRefs hr with hr | hr
    · exact .inl hr
    · cases hr
      exact .inr mem_cons_self

end Operations

-- ==== one batch

/-- Everything the model may still name is in `P`. -/
structure Covered (P : List DataRef) (m : JournalModel) : Prop where
  surfaces : SurfacesIn P m.surfaces
  undoRecords : ∀ record ∈ m.undoRecords,
    ∀ r ∈ record.capture.dataRefs, r ∈ P
  operations : ∀ (id : OperationId) (op : Operation),
    m.operations[id]? = some op →
    (∀ r ∈ op.dataRefs, r ∈ P) ∨ Resolved m op

section Covered

variable {P : List DataRef} {m m' : JournalModel} {e : DomainEvent}

theorem Covered.step (h : Covered P m) (he : ∀ r ∈ e.dataRefs, r ∈ P)
    (hok : apply m e = .ok m') : Covered P m' where
  surfaces := apply_surfacesIn h.surfaces he hok
  undoRecords := apply_undoIn h.undoRecords he hok
  operations id op' hop' := by
    have hkept : ∀ {op : Operation}, m.operations[id]? = some op →
        op.Later op' → (∀ r ∈ op'.dataRefs, r ∈ op.dataRefs ∨ r ∈ P) →
        (∀ r ∈ op'.dataRefs, r ∈ P) ∨ Resolved m' op' := by
      intro op hop hlater hrefs
      rcases h.operations id op hop with hin | hresolved
      · refine .inl fun r hr => ?_
        rcases hrefs r hr with hr | hr
        · exact hin r hr
        · exact hr
      · exact .inr (hresolved.step hok hlater)
    cases apply_operationStep hok with
    | same hsame =>
      rw [hsame] at hop'
      exact hkept hop' (.refl op') fun r hr => .inl hr
    | @prepares op hprepared hprep =>
      obtain ⟨marks, _, hresult⟩ := hprep.result
      rw [hresult] at hop'
      simp only [BTreeMap.get_insert] at hop'
      by_cases hid : op.id = id
      · rw [if_pos hid] at hop'
        cases hop'
        refine .inl fun r hr => he r ?_
        rw [hprepared]
        exact hprep.dataRefs hr
      · rw [if_neg hid] at hop'
        exact hkept hop' (.refl op') fun r hr => .inl hr
    | @edits k op new hop hedits hresult =>
      rw [hresult, BTreeMap.get_insert] at hop'
      by_cases hid : k = id
      · rw [if_pos hid] at hop'
        cases hop'
        subst hid
        refine hkept hop hedits.later fun r hr => ?_
        rcases hedits.dataRefs hr with hr | hr
        · exact .inl hr
        · exact .inr (he r hr)
      · rw [if_neg hid] at hop'
        exact hkept hop' (.refl op') fun r hr => .inl hr

theorem JournalModel.mem_dataRefs :
    r ∈ m.dataRefs ↔
      (∃ (id : UInt32) (s : Surface), m.surfaces[id]? = some s ∧ r ∈ s.dataRefs)
      ∨ (∃ (id : OperationId) (op : Operation),
          m.operations[id]? = some op ∧ m.retains op = true
          ∧ r ∈ op.dataRefs)
      ∨ ∃ record ∈ m.undoRecords, r ∈ record.capture.dataRefs := by
  simp only [JournalModel.dataRefs, mem_append, mem_flatMap, mem_filter,
    mem_map, Prod.exists, BTreeMap.mem_toList_iff, or_assoc]
  constructor
  · rintro (h | ⟨op, ⟨⟨id, _, hop, rfl⟩, hretains⟩, hr⟩ | h)
    · exact .inl h
    · exact .inr (.inl ⟨id, _, hop, hretains, hr⟩)
    · exact .inr (.inr h)
  · rintro (h | ⟨id, op, hop, hretains, hr⟩ | h)
    · exact .inl h
    · exact .inr (.inl ⟨op, ⟨⟨id, op, hop, rfl⟩, hretains⟩, hr⟩)
    · exact .inr (.inr h)

theorem Recorded.covered (hm : Recorded m)
    (hP : ∀ r ∈ m.dataRefs, r ∈ P) : Covered P m where
  surfaces id s hs r hr :=
    hP r (JournalModel.mem_dataRefs.2 (.inl ⟨id, s, hs, hr⟩))
  undoRecords record hrecord r hr :=
    hP r (JournalModel.mem_dataRefs.2 (.inr (.inr ⟨record, hrecord, hr⟩)))
  operations id op hop := by
    cases hretains : m.retains op with
    | false => exact .inr (hm.resolved hop hretains)
    | true =>
      refine .inl fun r hr => hP r (JournalModel.mem_dataRefs.2 ?_)
      exact .inr (.inl ⟨id, op, hop, hretains, hr⟩)

/-- A covered model names nothing else. -/
theorem Covered.dataRefs (h : Covered P m) : ∀ r ∈ m.dataRefs, r ∈ P := by
  intro r hr
  rcases JournalModel.mem_dataRefs.1 hr with ⟨id, s, hs, hr⟩
      | ⟨id, op, hop, hretains, hr⟩ | ⟨record, hrecord, hr⟩
  · exact h.surfaces id s hs r hr
  · rcases h.operations id op hop with hin | hresolved
    · exact hin r hr
    · rw [hresolved.retains] at hretains
      cases hretains
  · exact h.undoRecords record hrecord r hr

end Covered

theorem Applies.dataRefs {m m' : JournalModel} {es : List DomainEvent}
    (hm : Recorded m) (h : Applies m es m')
    (hr : r ∈ m'.dataRefs) : r ∈ m.dataRefs ∨ ∃ e ∈ es, r ∈ e.dataRefs := by
  have hstart : Covered (m.dataRefs ++ es.flatMap DomainEvent.dataRefs) m :=
    hm.covered fun r hr => mem_append.2 (.inl hr)
  have hend := Applies.preserves
    (I := Covered (m.dataRefs ++ es.flatMap DomainEvent.dataRefs))
    (fun _ _ h => ⟨h.surfaces, h.undoRecords, fun id op hop =>
      (h.operations id op hop).imp (fun h => h) fun h => ⟨h.own, h.group⟩⟩)
    (fun m m' e he h hok => h.step (fun r hr => mem_append.2
        (.inr (mem_flatMap.2 ⟨e, he, hr⟩))) hok)
    hstart h
  rcases mem_append.1 (hend.dataRefs r hr) with hr | hr
  · exact .inl hr
  · exact .inr (mem_flatMap.1 hr)

/-- A decision makes the model name no payload that neither the model
before nor one of its events names. -/
theorem decisions_pin_payloads {m m' : JournalModel}
    {command : StructuralCommand} {decision : StructuralDecision}
    {b : DomainBatch} (hm : Reachable m)
    (hdecide : decideStructure m command = .ok decision)
    (hfacts : b.facts = decision.events) (hevolve : evolve m b = .ok m') :
    ∀ r ∈ m'.dataRefs,
      r ∈ m.dataRefs ∨ ∃ e ∈ decision.events, r ∈ e.dataRefs := by
  intro r hr
  have hstep : Accepts m m' decision.events :=
    ⟨⟨command, decision, hdecide, rfl⟩, b, hfacts, hevolve⟩
  exact hstep.applies.dataRefs hm.recorded hr

theorem decisions_pin_payloads_captured :
    ∃ (m m' : JournalModel) (decision : StructuralDecision),
      decideStructure m (.recordCapture 4 "terminal" (some 1) 1 1 ⟨9⟩)
        = .ok decision
      ∧ ⟨9⟩ ∈ m'.dataRefs ∧ ⟨9⟩ ∉ m.dataRefs
      ∧ ∀ r ∈ m'.dataRefs,
        r ∈ m.dataRefs ∨ ∃ e ∈ decision.events, r ∈ e.dataRefs := by
  obtain ⟨⟨batches, m⟩, hrun, hcheck⟩ := exists_of_check (by decide +kernel :
    (runCommands JournalModel.default creationRun).toOption.any
      (fun r => (runCommand r.2
          (.recordCapture 4 "terminal" (some 1) 1 1 ⟨9⟩)).toOption.any
        (fun next => next.2.dataRefs.contains ⟨9⟩
          && !r.2.dataRefs.contains ⟨9⟩)) = true)
  obtain ⟨⟨facts, m'⟩, hnext, hcheck⟩ := exists_of_check hcheck
  rw [Bool.and_eq_true, List.contains_iff_mem, Bool.not_eq_true',
    ← Bool.not_eq_true, List.contains_iff_mem] at hcheck
  obtain ⟨decision, b, hdecide, hevents, hfacts, hevolve⟩ :=
    runCommand_decides hnext
  subst hevents
  have hm : Reachable m := runCommands_runs hrun
  exact ⟨m, m', decision, hdecide, hcheck.1, hcheck.2,
    decisions_pin_payloads hm hdecide hfacts hevolve⟩

end Tasty.Core
