/-
Undo records over command runs.

A record is added by the close it names and removed by its eviction or by
the assembly that restores it. `UndoList` is what the list satisfies
under any events; `Spent` says that a record id was used up, and no
decision can bring it back, because the id of a close is never prepared
again. So an id is consumed once, and the batch that consumes it is the
one that publishes the restored subtree and succeeds its coordinator.
-/
import Tasty.Core.Outcomes

namespace Tasty.Core

open DomainEvent List

-- ==== one event

/-- What an event does to the undo records. -/
inductive UndoStep (m m' : JournalModel) : DomainEvent → Prop
  | same {e : DomainEvent} (h : m'.undoRecords = m.undoRecords)
      (hconsumes : ∀ id, e ≠ .undoRecordConsumed id)
      (hadds : ∀ record, e ≠ .undoRecordAdded record) : UndoStep m m' e
  | added {record : UndoRecord} (howns : ownsUndo m record = true)
      (hfresh : ∀ r ∈ m.undoRecords, r.id ≠ record.id)
      (hroom : m.undoRecords.length < 10)
      (h : m'.undoRecords = m.undoRecords ++ [record]) :
      UndoStep m m' (.undoRecordAdded record)
  | removed {e : DomainEvent} {id : OperationId}
      (he : e = .undoRecordConsumed id ∨ e = .undoRecordEvicted id)
      (hfound : ∃ r ∈ m.undoRecords, r.id = id)
      (h : m'.undoRecords = m.undoRecords.eraseP (·.id = id)) :
      UndoStep m m' e

variable {id : OperationId}

section Step

variable {m m' : JournalModel} {e : DomainEvent}

theorem removeUndo_step
    (he : e = .undoRecordConsumed id ∨ e = .undoRecordEvicted id)
    (hok : removeUndo m id = .ok m') : UndoStep m m' e := by
  obtain ⟨hfound, hok⟩ := guard_not_ok hok
  cases hok
  simp only [any_eq_true, decide_eq_true_eq] at hfound
  exact .removed he hfound rfl

theorem apply_undoStep (hok : apply m e = .ok m') : UndoStep m m' e := by
  cases hkind : e.editsUndo with
  | false =>
    refine .same ((apply_elsewhere hok).1 hkind) (fun id he => ?_)
      fun record he => ?_
    · rw [he] at hkind
      cases hkind
    · rw [he] at hkind
      cases hkind
  | true =>
    cases e with
    | undoRecordAdded record =>
      obtain ⟨hallowed, hok⟩ := guard_ok hok
      cases hok
      simp only [Bool.or_eq_true, not_or, Bool.not_eq_true, Bool.not_eq_false',
        any_eq_false, decide_eq_true_eq, Nat.not_le] at hallowed
      obtain ⟨⟨⟨howns, hfresh⟩, _⟩, hroom⟩ := hallowed
      exact .added howns hfresh hroom rfl
    | undoRecordConsumed id => exact removeUndo_step (.inl rfl) hok
    | undoRecordEvicted id => exact removeUndo_step (.inr rfl) hok
    | _ => cases hkind

end Step

-- ==== the undo list

/-- At most ten records with distinct ids, each that of a user's close. -/
structure UndoList (m : JournalModel) : Prop where
  short : m.undoRecords.length ≤ 10
  distinct : (m.undoRecords.map UndoRecord.id).Nodup
  owned : ∀ record ∈ m.undoRecords, ∃ op plan,
    m.operations[record.id]? = some op ∧ op.retirement = some plan

variable {m : JournalModel}

theorem ownsUndo_retirement {record : UndoRecord}
    (h : ownsUndo m record = true) :
    ∃ op plan, m.operations[record.id]? = some op
      ∧ op.retirement = some plan := by
  unfold ownsUndo at h
  split at h
  · cases h
  · rename_i plan hplan
    obtain ⟨op, hop, hretirement⟩ := Option.bind_eq_some_iff.1 hplan
    exact ⟨op, plan, hop, hretirement⟩

variable {e : DomainEvent}

theorem apply_undoList {m' : JournalModel}
    (h : UndoList m) (hok : apply m e = .ok m') : UndoList m' := by
  -- an operation keeps its retirement
  have howned : ∀ {id : OperationId},
      (∃ op plan, m.operations[id]? = some op ∧ op.retirement = some plan) →
      ∃ op plan, m'.operations[id]? = some op
        ∧ op.retirement = some plan := by
    rintro id ⟨op, plan, hop, hplan⟩
    obtain ⟨op', hop', hlater⟩ := apply_keeps hok hop
    exact ⟨op', plan, hop', hlater.retirement.trans hplan⟩
  cases apply_undoStep hok with
  | same hsame =>
    refine ⟨?_, ?_, fun record hrecord => ?_⟩
    · rw [hsame]
      exact h.short
    · rw [hsame]
      exact h.distinct
    · rw [hsame] at hrecord
      exact howned (h.owned record hrecord)
  | added howns hfresh hroom hadded =>
    refine ⟨?_, ?_, fun record hrecord => ?_⟩
    · rw [hadded, length_append]
      exact hroom
    · rw [hadded, map_append]
      refine nodup_append.2 ⟨h.distinct, by simp, ?_⟩
      intro a ha b hb
      obtain ⟨r, hr, rfl⟩ := mem_map.1 ha
      cases mem_singleton.1 hb
      exact hfresh r hr
    · rw [hadded] at hrecord
      rcases mem_append.1 hrecord with hrecord | hrecord
      · exact howned (h.owned record hrecord)
      · cases mem_singleton.1 hrecord
        exact howned (ownsUndo_retirement howns)
  | removed _ _ hremoved =>
    have hsub : m'.undoRecords.Sublist m.undoRecords := by
      rw [hremoved]
      exact eraseP_sublist
    refine ⟨Nat.le_trans hsub.length_le h.short, h.distinct.sublist (hsub.map _),
      fun record hrecord => howned (h.owned record (hsub.subset hrecord))⟩

theorem undoList_default : UndoList JournalModel.default := by
  constructor <;> simp [JournalModel.default]

theorem Replays.undoList (h : Replays JournalModel.default m) : UndoList m :=
  h.preserves (I := UndoList) (fun _ _ h => ⟨h.short, h.distinct, h.owned⟩)
    (fun _ _ _ h hok => apply_undoList h hok) undoList_default

-- ==== consumption

/-- Whether the event uses the undo record up. -/
def DomainEvent.consumesUndo (id : OperationId) : DomainEvent → Bool
  | undoRecordConsumed used => used = id
  | _ => false

theorem consumesUndo_iff :
    e.consumesUndo id = true ↔ e = .undoRecordConsumed id := by
  cases e <;> simp [consumesUndo]

variable {es : List DomainEvent}

theorem countP_consumesUndo (h : .undoRecordConsumed id ∉ es) :
    es.countP (consumesUndo id) = 0 := by
  rw [countP_eq_zero]
  intro e he hconsumes
  exact h (consumesUndo_iff.1 hconsumes ▸ he)

/-- The operation `id` is there, and no record of it. -/
structure Spent (id : OperationId) (m : JournalModel) : Prop where
  prepared : ∃ op, m.operations[id]? = some op
  gone : ∀ record ∈ m.undoRecords, record.id ≠ id

section Spent

variable {m m' : JournalModel} {e : DomainEvent} {id : OperationId}

theorem apply_spent (h : Spent id m)
    (hadds : ∀ record, e = .undoRecordAdded record → record.id ≠ id)
    (hok : apply m e = .ok m') : Spent id m' := by
  obtain ⟨op, hop⟩ := h.prepared
  obtain ⟨op', hop', _⟩ := apply_keeps hok hop
  refine ⟨⟨op', hop'⟩, fun record hrecord => ?_⟩
  cases apply_undoStep hok with
  | same hsame =>
    rw [hsame] at hrecord
    exact h.gone record hrecord
  | added _ _ _ hadded =>
    rw [hadded] at hrecord
    rcases mem_append.1 hrecord with hrecord | hrecord
    · exact h.gone record hrecord
    · cases mem_singleton.1 hrecord
      exact hadds _ rfl
  | removed _ _ hremoved =>
    rw [hremoved] at hrecord
    exact h.gone record (mem_of_mem_eraseP hrecord)

theorem apply_consumed_present
    (hok : apply m (.undoRecordConsumed id) = .ok m') : ¬ Spent id m := by
  intro h
  cases apply_undoStep hok with
  | same _ hconsumes => exact hconsumes id rfl
  | removed he hfound =>
    obtain ⟨record, hrecord, hid⟩ := hfound
    rcases he with he | he
    · cases he
      exact h.gone record hrecord hid
    · cases he

theorem apply_consumed (hm : UndoList m)
    (hok : apply m (.undoRecordConsumed id) = .ok m') : Spent id m' := by
  cases apply_undoStep hok with
  | same _ hconsumes => exact absurd rfl (hconsumes id)
  | removed he hfound hremoved =>
    rcases he with he | he
    · cases he
      obtain ⟨record, hrecord, rfl⟩ := hfound
      obtain ⟨op, _, hop, _⟩ := hm.owned record hrecord
      obtain ⟨op', hop', _⟩ := apply_keeps hok hop
      refine ⟨⟨op', hop'⟩, fun r hr => ?_⟩
      -- the first record with the id is the only one
      rw [hremoved] at hr
      have hids := mem_map_of_mem (f := UndoRecord.id) hr
      have herase : (m.undoRecords.eraseP (·.id = record.id)).map
          UndoRecord.id = (m.undoRecords.map UndoRecord.id).erase
            record.id := by
        rw [erase_eq_eraseP', eraseP_map]
        rfl
      rw [herase] at hids
      exact fun heq => hm.distinct.not_mem_erase (heq ▸ hids)
    · cases he

end Spent

section Batch

variable {m m' : JournalModel} {es : List DomainEvent} {id : OperationId}

theorem Applies.spent (h : Applies m es m')
    (hadds : ∀ record, .undoRecordAdded record ∈ es → record.id ≠ id)
    (hm : Spent id m) : .undoRecordConsumed id ∉ es ∧ Spent id m' := by
  induction es generalizing m with
  | nil =>
    obtain ⟨a, rfl⟩ := h
    exact ⟨not_mem_nil, hm.prepared, hm.gone⟩
  | cons e es ih =>
    obtain ⟨m₁, a, happly, hrest⟩ := h
    have hspent := apply_spent hm
      (fun record he => hadds record (he ▸ mem_cons_self)) happly
    obtain ⟨hconsumes, hafter⟩ := ih hrest
      (fun record hmem => hadds record (mem_cons_of_mem _ hmem))
      ⟨hspent.prepared, hspent.gone⟩
    refine ⟨fun hmem => ?_, hafter⟩
    rcases mem_cons.1 hmem with rfl | hmem
    · exact apply_consumed_present happly hm
    · exact hconsumes hmem

theorem Applies.consumes (h : Applies m es m') (hm : UndoList m)
    (hadds : ∀ record, .undoRecordAdded record ∈ es → record.id ≠ id) :
    es.countP (consumesUndo id) ≤ 1
      ∧ (.undoRecordConsumed id ∈ es → Spent id m') := by
  induction es generalizing m with
  | nil => exact ⟨Nat.zero_le 1, fun hmem => absurd hmem not_mem_nil⟩
  | cons e es ih =>
    obtain ⟨m₁, a, happly, hrest⟩ := h
    have hlater : ∀ record, .undoRecordAdded record ∈ es →
        record.id ≠ id :=
      fun record hmem => hadds record (mem_cons_of_mem _ hmem)
    have hlist := apply_undoList hm happly
    obtain ⟨hcount, hafter⟩ :=
      ih hrest ⟨hlist.short, hlist.distinct, hlist.owned⟩ hlater
    by_cases he : e = .undoRecordConsumed id
    · subst he
      have hspent := apply_consumed hm happly
      obtain ⟨hnone, hend⟩ :=
        hrest.spent hlater ⟨hspent.prepared, hspent.gone⟩
      refine ⟨?_, fun _ => hend⟩
      rw [countP_cons, countP_consumesUndo hnone]
      simp [consumesUndo]
    · have hskip : e.consumesUndo id = false := by
        rw [← Bool.not_eq_true, consumesUndo_iff]
        exact he
      refine ⟨by simpa [countP_cons, hskip] using hcount,
        fun hmem => ?_⟩
      rcases mem_cons.1 hmem with hhead | hmem
      · exact absurd hhead.symm he
      · exact hafter hmem

end Batch

-- ==== histories

variable {op : Operation} {batches : List (List DomainEvent)}

section History

variable {m m' : JournalModel} {es facts : List DomainEvent}

/-- An operation that is no coordinator never becomes one. -/
theorem Leaf.later (h : Leaf m id)
    (hstep : Applies m facts m') : Leaf m' id := by
  obtain ⟨op, hop, hrole⟩ := h
  obtain ⟨op', hop', hlater⟩ := hstep.keeps hop
  refine ⟨op', hop', ?_⟩
  rw [hlater.creation, hlater.retirement, hlater.forward]
  exact hrole

theorem Still.later (h : Still m e)
    (hstep : Applies m facts m') : Still m' e where
  creates := h.creates
  succeeds id hwrites := Leaf.later (h.succeeds id hwrites) hstep
  keeps := h.keeps

/-- What published an operation published it for good. -/
theorem Publication.later {key : OperationId}
    (h : Publication m key op es) (hstep : Applies m facts m') :
    ∃ op', Publication m' key op' es ∧ op.Later op' := by
  obtain ⟨op', hop', hlater⟩ := hstep.keeps h.found
  refine ⟨op', {
    found := hop'
    within := fun e he x hx => by
      rw [hlater.reserved]
      exact h.within e he x hx
    success := h.success
    others := fun e he id hwrites => ?_
    consumes := fun id => by
      rw [h.consumes, hlater.assembly]
    prepares := h.prepares }, hlater⟩
  exact (h.others e he id hwrites).imp_right
    fun hleaf => Leaf.later hleaf hstep

/-- Every batch of a history publishes nothing, or one operation, which
has succeeded since. -/
theorem History.publication (h : History batches m) :
    ∀ es ∈ batches, (∀ e ∈ es, Still m e)
      ∨ ∃ key op, Publication m key op es ∧ op.outcome = some .succeeded := by
  induction h with
  | start => exact fun es hes => absurd hes not_mem_nil
  | @step batches m m' facts hrun hstep ih =>
    have hm := hrun.reachable.recorded
    intro es hes
    rcases mem_append.1 hes with hes | hes
    · rcases ih es hes with hstill | ⟨key, op, hpub, hdone⟩
      · exact .inl fun e he => (hstill e he).later hstep.applies
      · obtain ⟨op', hpub', hlater⟩ := hpub.later hstep.applies
        exact .inr ⟨key, op', hpub', hlater.final _ hdone rfl⟩
    · cases mem_singleton.1 hes
      rcases (hstep.emits hm.keyed).publication hm with
        hstill | ⟨key, op, hpub⟩
      · exact .inl fun e he => (hstill e he).later hstep.applies
      · obtain ⟨op', hpub', _⟩ := hpub.later hstep.applies
        obtain ⟨e, he, hwrites⟩ := hpub.success
        obtain ⟨found, hfound, hdone⟩ :=
          hstep.applies.written he hwrites rfl
        rw [hpub'.found] at hfound
        cases hfound
        exact .inr ⟨key, op', hpub', hdone⟩

theorem History.consumes (h : History batches m) (id : OperationId) :
    batches.flatten.countP (consumesUndo id) ≤ 1
      ∧ (.undoRecordConsumed id ∈ batches.flatten → Spent id m) := by
  induction h with
  | start =>
    exact ⟨Nat.zero_le 1, fun hmem => absurd hmem not_mem_nil⟩
  | @step batches m m' facts hrun hstep ih =>
    obtain ⟨hcount, hspent⟩ := ih
    have hm := hrun.reachable.recorded
    have hlist := hrun.reachable.replays.undoList
    have hemits := hstep.emits hm.keyed
    have hflat : (batches ++ [facts]).flatten
        = batches.flatten ++ facts := by simp
    rw [hflat, countP_append]
    by_cases hbefore : .undoRecordConsumed id ∈ batches.flatten
    · -- a record added now is of an operation prepared now
      have hold := hspent hbefore
      have hadds : ∀ record, .undoRecordAdded record ∈ facts →
          record.id ≠ id := by
        intro record hadded hid
        obtain ⟨op, hprepared, hop⟩ := hemits.added hadded
        obtain ⟨old, hfound⟩ := hold.prepared
        rw [← hid, ← hop, (hstep.applies.prepared hprepared).1] at hfound
        cases hfound
      obtain ⟨hnone, hafter⟩ := hstep.applies.spent hadds hold
      rw [countP_consumesUndo hnone]
      exact ⟨hcount, fun _ => hafter⟩
    · rw [countP_consumesUndo hbefore, Nat.zero_add]
      by_cases hnow : .undoRecordConsumed id ∈ facts
      · -- a batch that consumes prepares nothing, so it adds no record
        have hadds : ∀ record, .undoRecordAdded record ∈ facts →
            record.id ≠ id := by
          intro record hadded _
          obtain ⟨op, hprepared, _⟩ := hemits.added hadded
          rcases hemits.publication hm with hstill | ⟨key, op', hpub⟩
          · exact (hstill _ hnow).keeps id rfl
          · exact hpub.prepares op hprepared
        obtain ⟨honce, hafter⟩ := hstep.applies.consumes hlist hadds
        exact ⟨honce, fun _ => hafter hnow⟩
      · rw [countP_consumesUndo hnow]
        refine ⟨Nat.zero_le 1, fun hmem => ?_⟩
        rcases mem_append.1 hmem with hmem | hmem
        · exact absurd hmem hbefore
        · exact absurd hmem hnow

end History

-- ==== results

/-- The coordinator `group` restored the undo record `id`. -/
def Restored (m : JournalModel) (id group : OperationId) : Prop :=
  ∃ op plan, m.operations[group]? = some op ∧ op.assembly = some plan
    ∧ plan.undo = some id ∧ op.outcome = some .succeeded

theorem consuming_batch_unique {es' : List DomainEvent}
    (hcount : batches.flatten.countP (consumesUndo id) ≤ 1)
    (hes : es ∈ batches) (hes' : es' ∈ batches)
    (hconsumes : .undoRecordConsumed id ∈ es)
    (hconsumes' : .undoRecordConsumed id ∈ es') : es = es' := by
  by_contra hne
  have hpos : ∀ {l : List DomainEvent}, .undoRecordConsumed id ∈ l →
      0 < l.countP (consumesUndo id) := fun hl =>
    countP_pos_iff.2 ⟨_, hl, consumesUndo_iff.2 rfl⟩
  obtain ⟨before, after, rfl⟩ := append_of_mem hes
  have hother : es' ∈ before ++ after := by
    rcases mem_append.1 hes' with hmem | hmem
    · exact mem_append_left _ hmem
    · rcases mem_cons.1 hmem with rfl | hmem
      · exact absurd rfl hne
      · exact mem_append_right _ hmem
  have htwo := hpos (mem_flatten.2 ⟨es', hother, hconsumes'⟩)
  have hone := hpos hconsumes
  simp only [flatten_append, flatten_cons, countP_append] at hcount htwo
  omega

variable {plan : CreationAssembly}

/-- A coordinator is none of the operations that may succeed alone. -/
theorem Recorded.not_leaf (hm : Recorded m)
        (hop : m.operations[id]? = some op) (hplan : op.assembly = some plan) :
    ¬ Leaf m id := by
  rintro ⟨found, hfound, hrole⟩
  rw [hop] at hfound
  cases hfound
  obtain ⟨_, hcreation, hretirement, hforward⟩ :=
    (hm.planned hop).assembly plan hplan
  rw [hcreation, hretirement, hforward] at hrole
  simp at hrole

section Restored

variable {batches : List (List DomainEvent)} {m : JournalModel}
  {id group : OperationId}

/-- A coordinator that succeeded was published. -/
theorem History.restored (h : History batches m) (hdone : Restored m id group) :
    ∃ es ∈ batches, .undoRecordConsumed id ∈ es
      ∧ ∃ e ∈ es, e.writes = some (group, .succeeded) := by
  induction h with
  | start =>
    obtain ⟨op, plan, hop, _⟩ := hdone
    simp [JournalModel.default] at hop
  | @step batches m m' facts hrun hstep ih =>
    obtain ⟨op', plan, hop', hplan, hundo, ho⟩ := hdone
    have hm := hrun.reachable.recorded
    rcases hstep.applies.wrote hop' ho with
      ⟨op, hop, hbefore⟩ | ⟨e, he, hwrites⟩
    · -- it had succeeded before
      obtain ⟨later, hlater, hkeeps⟩ := hstep.applies.keeps hop
      rw [hop'] at hlater
      cases hlater
      obtain ⟨es, hes, hbatch⟩ := ih
        ⟨op, plan, hop, hkeeps.assembly ▸ hplan, hundo, hbefore⟩
      exact ⟨es, mem_append_left _ hes, hbatch⟩
    · refine ⟨facts, mem_append_right _ (mem_singleton_self _),
        ?_, e, he, hwrites⟩
      have hcoordinator := (hm.step hstep).not_leaf hop' hplan
      rcases (hstep.emits hm.keyed).publication hm with
        hstill | ⟨key, op, hpub⟩
      · exact absurd (((hstill e he).later hstep.applies).succeeds _
          hwrites) hcoordinator
      · obtain ⟨later, hpub', _⟩ := hpub.later hstep.applies
        rcases hpub'.others e he _ hwrites with rfl | hleaf
        · have hfound := hpub'.found
          rw [hop'] at hfound
          cases hfound
          exact (hpub'.consumes id).2 ⟨plan, hplan, hundo⟩
        · exact absurd hleaf hcoordinator

theorem History.consumes_together (h : History batches m)
        (hop : m.operations[group]? = some op)
    (hplan : op.assembly = some plan) (hundo : plan.undo = some id)
    (hes : es ∈ batches)
    (hevent : ∃ e ∈ es, (∃ x ∈ e.introduces, x ∈ plan.reservedIds)
      ∨ e.writes = some (group, .succeeded)) :
    .undoRecordConsumed id ∈ es ∧ Restored m id group := by
  have hm := h.reachable.recorded
  obtain ⟨hreserved, _⟩ := (hm.planned hop).assembly plan hplan
  have hcoordinator := hm.not_leaf hop hplan
  obtain ⟨e, he, hevent⟩ := hevent
  rcases h.publication es hes with hstill | ⟨key, owner, hpub, hdone⟩
  · rcases hevent with ⟨x, hx, hmem⟩ | hwrites
    · exact absurd ((hstill e he).creates x hx)
        (CreationAssembly.reservedIds_kind hmem)
    · exact absurd ((hstill e he).succeeds _ hwrites) hcoordinator
  · have hkey : key = group := by
      rcases hevent with ⟨x, hx, hmem⟩ | hwrites
      · exact hm.reservedOnce hpub.found hop (hpub.within e he x hx)
          (hreserved ▸ hmem)
      · rcases hpub.others e he _ hwrites with heq | hleaf
        · exact heq.symm
        · exact absurd hleaf hcoordinator
    subst hkey
    have hfound := hpub.found
    rw [hop] at hfound
    cases hfound
    exact ⟨(hpub.consumes id).2 ⟨plan, hplan, hundo⟩,
      op, plan, hop, hplan, hundo, hdone⟩

/-- At most one coordinator restores a record. -/
theorem History.restored_unique (h : History batches m)
    {other : OperationId} (hgroup : Restored m id group)
    (hother : Restored m id other) : group = other := by
  obtain ⟨es, hes, hconsumes, hwrites⟩ := h.restored hgroup
  obtain ⟨es', hes', hconsumes', e', he', hwrites'⟩ := h.restored hother
  have hsame := consuming_batch_unique (h.consumes id).1 hes hes' hconsumes
    hconsumes'
  subst hsame
  obtain ⟨op, plan, hop, hplan, _⟩ := hgroup
  obtain ⟨op', plan', hop', hplan', _⟩ := hother
  have hm := h.reachable.recorded
  obtain ⟨e, he, hwrites⟩ := hwrites
  -- one batch succeeds one coordinator
  have hkey : ∀ {g : OperationId} {o : Operation} {p : CreationAssembly}
      {key : OperationId} {owner : Operation}, Publication m key owner es →
      m.operations[g]? = some o → o.assembly = some p →
      (∃ e ∈ es, e.writes = some (g, .succeeded)) → g = key := by
    rintro g o p key owner hpub hg hp ⟨e, he, hwrites⟩
    rcases hpub.others e he _ hwrites with heq | hleaf
    · exact heq
    · exact absurd hleaf (hm.not_leaf hg hp)
  rcases h.publication es hes with hstill | ⟨key, owner, hpub, _⟩
  · exact absurd rfl ((hstill _ hconsumes).keeps id)
  · rw [hkey hpub hop hplan ⟨e, he, hwrites⟩,
      hkey hpub hop' hplan' ⟨e', he', hwrites'⟩]

end Restored

/-- The undo record `id` over a history: one coordinator at most restores
it, for good; the record is consumed at most once; and the batch that
publishes the coordinator's subtree, or succeeds it, is the one that
consumes the record. -/
structure RestoredOnce (batches : List (List DomainEvent))
    (m : JournalModel) (id : OperationId) : Prop where
  unique : ∀ a b, Restored m id a → Restored m id b → a = b
  stays : ∀ m' group, Runs m m' → Restored m id group →
    Restored m' id group
  consumedOnce :
    batches.flatten.countP (DomainEvent.consumesUndo id) ≤ 1
  together : ∀ (group : OperationId) (op : Operation)
    (plan : CreationAssembly), m.operations[group]? = some op →
    op.assembly = some plan → plan.undo = some id → ∀ es ∈ batches,
    (∃ e ∈ es, (∃ x ∈ e.introduces, x ∈ plan.reservedIds)
      ∨ e.writes = some (group, .succeeded)) →
    .undoRecordConsumed id ∈ es ∧ Restored m id group
  published : ∀ group, Restored m id group →
    ∃ es ∈ batches, .undoRecordConsumed id ∈ es
      ∧ ∃ e ∈ es, e.writes = some (group, .succeeded)

/-- Over every command run, each undo record is restored at most once. -/
theorem undo_restored_once {batches : List (List DomainEvent)}
    {m : JournalModel} (h : History batches m) (id : OperationId) :
    RestoredOnce batches m id where
  unique _ _ ha hb := h.restored_unique ha hb
  stays m' group hrun := by
    rintro ⟨op, plan, hop, hplan, hundo, hdone⟩
    obtain ⟨op', hop', hlater⟩ := hrun.keeps hop
    exact ⟨op', plan, hop', hlater.assembly.trans hplan, hundo,
      hlater.final _ hdone rfl⟩
  consumedOnce := (h.consumes id).1
  together _ _ _ hop hplan hundo _ hes hevent :=
    h.consumes_together hop hplan hundo hes hevent
  published _ hdone := h.restored hdone

/-- Close the workspace of `creationRun` and restore it under new ids. -/
def undoRun : List StructuralCommand := creationRun ++ [
  .close ⟨"close"⟩ "command" ⟨1⟩ (.workspace 1)
    [⟨4, "terminal", some 1⟩] (some ⟨⟨7⟩, []⟩) true false,
  .prepareAssembly ⟨"restore"⟩ "command" ⟨1⟩ {
    snapshot := {
      version := 1
      presentation := ⟨∅, ∅, ∅⟩
      panePosition := none
      root := ⟨.workspace, 11⟩
      originWorkspace := some 1
      workspaces := (∅ : BTreeMap UInt32 Workspace).insert 11
        { name := "workspace", category := 0, layout := .leaf 12,
          subtitle := "", description := "", attachMapping := none,
          metadata := ∅ }
      panes := (∅ : BTreeMap UInt32 Pane).insert 12 ⟨11, [13]⟩
      tabs := (∅ : BTreeMap UInt32 Tab).insert 13
        { pane := 12, name := "tab", explicitName := none,
          layout := .leaf 14 }
      surfaces := (∅ : BTreeMap UInt32 Surface).insert 14
        (newSurface 13 ⟨14, "terminal", none⟩)
      tabName := none }
    destination := .workspace
    inputs := (∅ : BTreeMap UInt32 DataRef).insert 14 ⟨2⟩
    undo := some ⟨"close"⟩
    omitFailed := false },
  .finishCreation (CreationAssembly.member ⟨"restore"⟩ 14) (.ready none),
  .finishCleanup (CreationAssembly.member ⟨"restore"⟩ 14)]

theorem undo_restored_once_restored :
    ∃ batches m, History batches m
      ∧ Restored m ⟨"close"⟩ ⟨"restore"⟩
      ∧ RestoredOnce batches m ⟨"close"⟩ := by
  obtain ⟨⟨batches, m⟩, hrun, hcheck⟩ := exists_of_check (by decide +kernel :
    (runCommands JournalModel.default undoRun).toOption.any
      (fun r => r.2.operations[(⟨"restore"⟩ : OperationId)]?.any
        (fun op => op.assembly.any (·.undo = some ⟨"close"⟩)
          && op.outcome = some .succeeded))
      = true)
  simp only [Bool.and_eq_true, Option.any_eq_true,
    decide_eq_true_eq] at hcheck
  obtain ⟨op, hop, ⟨plan, hplan, hundo⟩, hdone⟩ := hcheck
  have h : History batches m := runCommands_history .start hrun
  exact ⟨batches, m, h, ⟨op, plan, hop, hplan, hundo, hdone⟩,
    undo_restored_once h ⟨"close"⟩⟩

end Tasty.Core
