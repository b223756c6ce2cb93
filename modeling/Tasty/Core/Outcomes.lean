/-
Outcomes over command runs: a decided outcome is final, an uncertain one
is only reconciled against evidence, and what an operation reserved is in
the model only once the operation succeeded.

The last holds because a batch that creates an entity is the publication
of the one operation that reserved it, so the id and the success come in
together; everything else a decision emits creates categories at most.
-/
import Tasty.Core.Publication

namespace Tasty.Core

open List

variable {m m' : JournalModel} {id : OperationId} {op : Operation}
  {e : DomainEvent} {x : EntityId} {facts : List DomainEvent}

-- ==== finality

theorem Runs.keeps {m m' : JournalModel} (h : Runs m m')
    {id : OperationId} {op : Operation} (hop : m.operations[id]? = some op) :
    ∃ op', m'.operations[id]? = some op' ∧ op.Later op' := by
  induction h with
  | refl => exact ⟨op, hop, .refl op⟩
  | tail _ hlast ih =>
    obtain ⟨facts, hstep⟩ := hlast
    obtain ⟨op₁, hop₁, hlater₁⟩ := ih
    obtain ⟨op', hop', hlater⟩ := hstep.applies.keeps hop₁
    exact ⟨op', hop', hlater₁.trans hlater⟩

variable {o : OperationOutcome}

theorem Runs.final (h : Runs m m')
    (hop : m.operations[id]? = some op) (ho : op.outcome = some o)
    (hdecided : o.isUncertain = false) :
    ∃ op', m'.operations[id]? = some op' ∧ op'.outcome = some o := by
  obtain ⟨op', hop', hlater⟩ := h.keeps hop
  exact ⟨op', hop', hlater.final o ho hdecided⟩

theorem apply_outcome (hok : apply m e = .ok m') {op' : Operation}
    (hop : m.operations[id]? = some op) (hop' : m'.operations[id]? = some op') :
    op'.outcome = op.outcome
      ∨ ∃ o, e.writes = some (id, o) ∧ op'.outcome = some o := by
  rcases apply_origin hok hop' with ⟨found, hfound, _, h⟩ | ⟨he, hid⟩
  · rw [hop] at hfound
    cases hfound
    exact h
  · -- an operation that exists is not prepared again
    subst he
    have hfresh := (prepare_eq_ok hok).fresh
    rw [hid, hop] at hfresh
    cases hfresh

variable {es : List DomainEvent}

/-- So does a batch. -/
theorem Applies.outcome {m m' : JournalModel} (h : Applies m es m')
    {id : OperationId} {op op' : Operation} (hop : m.operations[id]? = some op)
    (hop' : m'.operations[id]? = some op') :
    op'.outcome = op.outcome
      ∨ ∃ e ∈ es, ∃ o, e.writes = some (id, o) ∧ op'.outcome = some o := by
  induction es generalizing m op with
  | nil =>
    obtain ⟨a, ha⟩ := h
    rw [ha, hop] at hop'
    cases hop'
    exact .inl rfl
  | cons e es ih =>
    obtain ⟨m₁, a, happly, hrest⟩ := h
    obtain ⟨op₁, hop₁, _⟩ := apply_keeps happly hop
    rcases ih hrest hop₁ with hsame | ⟨w, hw, hwrites⟩
    · rcases apply_outcome happly hop hop₁ with hkept | ⟨o, hwrites, ho⟩
      · exact .inl (hsame.trans hkept)
      · exact .inr ⟨e, mem_cons_self, o, hwrites, hsame.trans ho⟩
    · exact .inr ⟨w, mem_cons_of_mem _ hw, hwrites⟩

theorem Applies.reconciles (h : Applies m es m')
    (hop : m.operations[id]? = some op) (huncertain : op.isUncertain = true)
    (he : e ∈ es) (hwrites : e.writes = some (id, o)) :
    ∃ evidence, evidence.raw ≠ 0 ∧ e = .operationReconciled id o evidence := by
  induction es generalizing m op with
  | nil => cases he
  | cons head es ih =>
    obtain ⟨m₁, a, happly, hrest⟩ := h
    unfold Operation.isUncertain at huncertain
    rcases mem_cons.1 he with hhead | he
    · subst hhead
      obtain ⟨found, _, hfound, _, _, hopen⟩ :=
        apply_writes happly hwrites
      rw [hop] at hfound
      cases hfound
      rcases hopen with ⟨hnone, _⟩ | ⟨_, hevidence⟩
      · rw [hnone] at huncertain
        cases huncertain
      · exact hevidence
    · obtain ⟨op₁, hop₁, _⟩ := apply_keeps happly hop
      refine ih hrest hop₁ ?_ he
      -- the outcome is still there, and open as `e` can write it
      have hsome : ∃ o₁, op₁.outcome = some o₁ := by
        rcases apply_outcome happly hop hop₁ with hkept | ⟨o₁, _, ho₁⟩
        · rw [hkept]
          cases hout : op.outcome with
          | none =>
            rw [hout] at huncertain
            cases huncertain
          | some o₁ => exact ⟨o₁, rfl⟩
        · exact ⟨o₁, ho₁⟩
      obtain ⟨o₁, ho₁⟩ := hsome
      unfold Operation.isUncertain
      rw [ho₁]
      exact hrest.open_of_writes he hwrites hop₁ ho₁

-- ==== publication

theorem Applies.unpublished (h : Applies m es m')
    (hop : .operationPrepared op ∈ es) (hx : x ∈ op.reserved)
    (hheld : m'.holds x = true) : ∃ e ∈ es, x ∈ e.introduces := by
  induction es generalizing m with
  | nil => cases hop
  | cons e es ih =>
    obtain ⟨m₁, a, happly, hrest⟩ := h
    rcases mem_cons.1 hop with hhead | hop
    · subst hhead
      have hfree :=
        (checkReserved_eq_ok (prepare_eq_ok happly).reserved hx).1
      rcases hrest.holds hheld with hbefore | ⟨w, hw, hnew⟩
      · have hbefore : m₁.holds x = true := hbefore
        rcases (apply_grows happly).holds hbefore with hold | hnew
        · rw [hold] at hfree
          cases hfree
        · cases hnew
      · exact ⟨w, mem_cons_of_mem _ hw, hnew⟩
    · obtain ⟨w, hw, hnew⟩ := ih hrest hop
      exact ⟨w, mem_cons_of_mem _ hw, hnew⟩

/-- What an unfinished operation reserved is not in the model. -/
def Hidden (m : JournalModel) : Prop :=
  ∀ {id : OperationId} {op : Operation} {x : EntityId},
    m.operations[id]? = some op → x ∈ op.reserved →
    m.holds x = true → op.outcome = some .succeeded

/-- An entity a batch creates is no category only if the batch is the
publication of an operation that reserved it. -/
theorem Accepts.publishes (hm : Recorded m) (h : Accepts m m' facts)
    (he : e ∈ facts) (hx : x ∈ e.introduces) (hkind : x.kind ≠ .category) :
    ∃ key op, Publication m key op facts ∧ x ∈ op.reserved := by
  rcases (h.emits hm.keyed).publication hm with hstill | ⟨key, op, hpub⟩
  · exact absurd ((hstill e he).creates x hx) hkind
  · exact ⟨key, op, hpub, hpub.within e he x hx⟩

theorem Hidden.step {m m' : JournalModel}
    (hm : Recorded m) (h : Hidden m) (hstep : Accepts m m' facts) :
    Hidden m' := by
  intro id op' x hop' hx hheld
  have hafter := hm.step hstep
  have hkind := (hafter.planned hop').kind hx
  rcases hstep.applies.origin hop' with
    ⟨op, hop, hlater⟩ | ⟨op, hprepared, _, hlater⟩
  · rw [hlater.reserved] at hx
    rcases hstep.applies.holds hheld with hbefore | ⟨e, he, hnew⟩
    · exact hlater.final _ (h hop hx hbefore) rfl
    · obtain ⟨key, owner, hpub, hmem⟩ := hstep.publishes hm he hnew hkind
      -- the published operation is this one
      have hkey := hm.reservedOnce hop hpub.found hx hmem
      subst hkey
      obtain ⟨w, hw, hwrites⟩ := hpub.success
      obtain ⟨done, hdone, hout⟩ := hstep.applies.written hw hwrites rfl
      rw [hop'] at hdone
      cases hdone
      exact hout
  · rw [hlater.reserved] at hx
    obtain ⟨e, he, hnew⟩ :=
      hstep.applies.unpublished hprepared hx hheld
    obtain ⟨_, _, hpub, _⟩ := hstep.publishes hm he hnew hkind
    exact absurd hprepared (hpub.prepares op)

theorem Reachable.hidden (h : Reachable m) : Hidden m := by
  refine Reachable.induct (I := Hidden) ?_
    (fun _ _ _ hm hhidden hstep => hhidden.step hm.recorded hstep) h
  intro id op x hop
  simp [JournalModel.default] at hop

/-- Every workspace, pane, tab and surface was reserved by an
operation. -/
def Owned (m : JournalModel) : Prop :=
  ∀ {x : EntityId}, m.holds x = true → x.kind ≠ .category →
    ∃ (id : OperationId) (op : Operation), m.operations[id]? = some op
      ∧ x ∈ op.reserved

theorem Owned.step {m m' : JournalModel}
    (hm : Recorded m) (h : Owned m) (hstep : Accepts m m' facts) :
    Owned m' := by
  intro x hheld hkind
  have howner : ∃ (id : OperationId) (op : Operation),
      m.operations[id]? = some op ∧ x ∈ op.reserved := by
    rcases hstep.applies.holds hheld with hbefore | ⟨e, he, hnew⟩
    · exact h hbefore hkind
    · obtain ⟨key, op, hpub, hx⟩ := hstep.publishes hm he hnew hkind
      exact ⟨key, op, hpub.found, hx⟩
  obtain ⟨id, op, hop, hx⟩ := howner
  obtain ⟨op', hop', hlater⟩ := hstep.applies.keeps hop
  exact ⟨id, op', hop', hlater.reserved ▸ hx⟩

theorem Reachable.owned (h : Reachable m) : Owned m := by
  refine Reachable.induct (I := Owned) ?_
    (fun _ _ _ hm howned hstep => howned.step hm.recorded hstep) h
  intro x hheld
  obtain ⟨kind, id⟩ := x
  cases kind <;> simp [JournalModel.default, JournalModel.holds] at hheld

theorem Accepts.creates_fresh {m₀ : JournalModel}
    (hm₀ : Reachable m₀) (hrun : Runs m₀ m)
    (h : Accepts m m' facts) (hheld : m₀.holds x = true)
    (hkind : x.kind ≠ .category) (he : e ∈ facts) : x ∉ e.introduces := by
  intro hnew
  have hm : Reachable m := Relation.ReflTransGen.trans hm₀ hrun
  obtain ⟨id, op, hop, hx⟩ := hm₀.owned hheld hkind
  have hdone := hm₀.hidden hop hx hheld
  obtain ⟨op', hop', hlater⟩ := hrun.keeps hop
  obtain ⟨key, owner, hpub, hmem⟩ :=
    h.publishes hm.recorded he hnew hkind
  have hkey := hm.recorded.reservedOnce hop' hpub.found
    (hlater.reserved ▸ hx) hmem
  subst hkey
  -- its owner has succeeded, and no event writes over that
  obtain ⟨w, hw, hwrites⟩ := hpub.success
  have hopen := h.applies.open_of_writes hw hwrites hop'
    (hlater.final _ hdone rfl)
  cases hopen

-- ==== results

/-- A decided outcome of `m` is the outcome in `m'`. -/
def KeepsDecided (m m' : JournalModel) : Prop :=
  ∀ (id : OperationId) (op : Operation) (o : OperationOutcome),
    m.operations[id]? = some op → op.outcome = some o →
    o.isUncertain = false →
    ∃ op', m'.operations[id]? = some op' ∧ op'.outcome = some o

/-- An uncertain outcome of `m` is the outcome in `m'`, or one of the
facts reconciled it with evidence. -/
def ReconcilesUncertain (m m' : JournalModel) (facts : List DomainEvent) :
    Prop :=
  ∀ (id : OperationId) (op : Operation) (reason : String),
    m.operations[id]? = some op → op.outcome = some (.uncertain reason) →
    ∃ op', m'.operations[id]? = some op'
      ∧ (op'.outcome = op.outcome
        ∨ ∃ o evidence, .operationReconciled id o evidence ∈ facts
          ∧ evidence.raw ≠ 0 ∧ op'.outcome = some o)

/-- The ids a creation or a coordinator reserved are those of its plan,
and are in the model only if it succeeded. A member's leaf is its
coordinator's. -/
structure PublishedAtomically (m : JournalModel) : Prop where
  creation : ∀ (id : OperationId) (op : Operation) (plan : CreationPlan),
    m.operations[id]? = some op → op.creation = some plan →
    op.reserved = plan.reservedIds
      ∧ ∀ x ∈ plan.reservedIds, m.holds x = true →
        op.outcome = some .succeeded
  coordinator : ∀ (id : OperationId) (op : Operation)
    (plan : CreationAssembly),
    m.operations[id]? = some op → op.assembly = some plan →
    op.reserved = plan.reservedIds
      ∧ ∀ x ∈ plan.reservedIds, m.holds x = true →
        op.outcome = some .succeeded
  member : ∀ (id : OperationId) (op : Operation) (plan : CreationPlan)
    (group : OperationId),
    m.operations[id]? = some op → op.creation = some plan →
    plan.destination = .assembly group →
    ∃ coordinator aplan, m.operations[group]? = some coordinator
      ∧ coordinator.assembly = some aplan
      ∧ ⟨.surface, plan.surface.id⟩ ∈ aplan.reservedIds
      ∧ (m.holds ⟨.surface, plan.surface.id⟩ = true →
        coordinator.outcome = some .succeeded)

theorem Runs.keepsDecided (h : Runs m m') : KeepsDecided m m' :=
  fun _ _ _ hop ho hdecided => h.final hop ho hdecided

theorem Accepts.reconcilesUncertain (h : Accepts m m' facts) :
    ReconcilesUncertain m m' facts := by
  intro id op reason hop ho
  obtain ⟨op', hop', _⟩ := h.applies.keeps hop
  refine ⟨op', hop', ?_⟩
  have huncertain : op.isUncertain = true := by
    unfold Operation.isUncertain
    rw [ho]
    rfl
  rcases h.applies.outcome hop hop' with hsame | ⟨e, he, o, hwrites, ho'⟩
  · exact .inl hsame
  · obtain ⟨evidence, hevidence, rfl⟩ :=
      h.applies.reconciles hop huncertain he hwrites
    exact .inr ⟨o, evidence, he, hevidence, ho'⟩

theorem Reachable.publishedAtomically
    (h : Reachable m) : PublishedAtomically m where
  creation id op plan hop hplan := by
    have hreserved := ((h.recorded.planned hop).creation plan hplan).1
    rw [← hreserved]
    exact ⟨rfl, fun x hx hheld => h.hidden hop hx hheld⟩
  coordinator id op plan hop hplan := by
    have hreserved := ((h.recorded.planned hop).assembly plan hplan).1
    rw [← hreserved]
    exact ⟨rfl, fun x hx hheld => h.hidden hop hx hheld⟩
  member id op plan group hop hplan hgroup := by
    obtain ⟨coordinator, aplan, hfound, haplan, hleaf⟩ :=
      h.recorded.members hop hplan hgroup
    rcases hfound with hfound | ⟨hmem, _⟩
    · have hreserved := ((h.recorded.planned hfound).assembly aplan haplan).1
      have hmem : ⟨.surface, plan.surface.id⟩ ∈ aplan.reservedIds :=
        CreationAssembly.mem_reservedIds_surface.2 hleaf
      refine ⟨coordinator, aplan, hfound, haplan, hmem, fun hheld => ?_⟩
      exact h.hidden hfound (hreserved ▸ hmem) hheld
    · cases hmem

/-- Along every command run, a decided outcome never changes, an uncertain
one changes only by a reconciliation with evidence, and what an operation
reserved is in the model only if it succeeded. -/
theorem outcomes_final_and_atomic {m m' : JournalModel}
    (hm : Reachable m) (hrun : Runs m m') :
    KeepsDecided m m'
      ∧ (∀ next facts, Accepts m' next facts →
        ReconcilesUncertain m' next facts)
      ∧ PublishedAtomically m' := by
  have hm' : Reachable m' := Relation.ReflTransGen.trans hm hrun
  exact ⟨hrun.keepsDecided, fun _ _ hstep => hstep.reconcilesUncertain,
    hm'.publishedAtomically⟩

/-- Create a workspace with one terminal. -/
def createWorkspaceRun (operation : OperationId)
    (workspace pane tab surface : UInt32) : List StructuralCommand := [
  .prepareCreation operation "command" ⟨1⟩ {
    destination := .workspace workspace pane tab "workspace" 0 "" "" none
    surface := ⟨surface, "terminal", none⟩
    tabName := "tab"
    explicitName := none },
  .finishCreation operation (.ready none),
  .finishCleanup operation]

/-- Open an engine and create a workspace. -/
def creationRun : List StructuralCommand :=
  .openEngine 0 false "default" :: createWorkspaceRun ⟨"create"⟩ 1 2 3 4

theorem outcomes_final_and_atomic_created :
    ∃ m op plan, Reachable m
      ∧ m.operations[(⟨"create"⟩ : OperationId)]? = some op
      ∧ op.creation = some plan ∧ ⟨.surface, 4⟩ ∈ plan.reservedIds
      ∧ m.holds ⟨.surface, 4⟩ = true ∧ op.outcome = some .succeeded := by
  obtain ⟨⟨batches, m⟩, hrun, hcheck⟩ := exists_of_check (by decide +kernel :
    (runCommands JournalModel.default creationRun).toOption.any
      (fun r => r.2.holds ⟨.surface, 4⟩
        && r.2.operations[(⟨"create"⟩ : OperationId)]?.any
          (fun op => op.creation.any
            (fun plan => plan.reservedIds.contains ⟨.surface, 4⟩)))
      = true)
  simp only [Bool.and_eq_true, Option.any_eq_true] at hcheck
  obtain ⟨hheld, op, hop, plan, hplan, hreserved⟩ := hcheck
  have hmem := List.contains_iff_mem.1 hreserved
  have hm : Reachable m := runCommands_runs hrun
  obtain ⟨_, _, hatomic⟩ := outcomes_final_and_atomic hm .refl
  exact ⟨m, op, plan, hm, hop, hplan, hmem, hheld,
    (hatomic.creation _ op plan hop hplan).2 _ hmem hheld⟩

end Tasty.Core
