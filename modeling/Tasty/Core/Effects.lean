/-
What one event may change, for every event.

A structural event leaves the ledger alone: operations, undo records and
the engine's binding. Any event only adds the entities it names, and
whatever else is in the model after it was there before, changed at most
so far: a pane that has tabs keeps one (unless the event takes a tab out
of a list), and a surface's activation never goes back. `Effect` says
this of two models; it composes, so a handler's lemma follows its code.
-/
import Tasty.Core.Run

namespace Tasty.Core

open List

open BTreeMap (Stems)

-- ==== the payloads

/-- The capture's snapshot and what that depends on. -/
def UndoCapture.dataRefs (capture : UndoCapture) : List DataRef :=
  capture.snapshot :: capture.retained

/-- `surface.data.into_iter().chain(surface.creation_seed)`. -/
def Surface.dataRefs (s : Surface) : List DataRef :=
  s.data.toList ++ s.creationSeed.toList

def ClosedSnapshot.dataRefs (s : ClosedSnapshot) : List DataRef :=
  s.surfaces.toList.flatMap fun entry => entry.2.dataRefs

def CreationAssembly.dataRefs (plan : CreationAssembly) : List DataRef :=
  plan.snapshot.dataRefs ++ plan.inputs.toList.map Prod.snd

/-- The payload of the surface an operation creates. -/
def Operation.creationData (op : Operation) : Option DataRef :=
  op.creation.bind fun plan => plan.surface.data

/-- The payloads of the undo record a retirement captured. -/
def Operation.undoRefs (op : Operation) : List DataRef :=
  match op.retirement.bind RetirementPlan.undo with
  | some capture => capture.dataRefs
  | none => []

/-- The payloads of the subtree an operation restores. -/
def Operation.assemblyRefs (op : Operation) : List DataRef :=
  match op.assembly with
  | some plan => plan.dataRefs
  | none => []

/-- `DomainEvent::data_refs`: what the storage pins with the event. -/
def DomainEvent.dataRefs : DomainEvent → List DataRef
  | undoRecordAdded record => record.capture.dataRefs
  | tabCreated _ _ _ _ surface | surfaceSplit _ surface _ =>
    surface.data.toList
  | surfaceConverted _ _ data => data.toList
  | surfaceDataRecorded _ _ _ _ data => [data]
  | surfaceCreationSeeded _ _ input | surfaceSeedImported _ input =>
    [input]
  | operationPrepared op =>
    op.assemblyRefs ++ [op.input] ++ op.creationData.toList ++ op.undoRefs
  | operationResourcePrepared _ data _ => data.toList
  | operationAwaitingCleanup _ _ _ preparedData _ => preparedData.toList
  | operationRecoveryObserved _ evidence
  | operationReconciled _ _ evidence => [evidence]
  | _ => []

/-- Every surface names only payloads of `P`. -/
def SurfacesIn (P : List DataRef) (surfaces : BTreeMap UInt32 Surface) :
    Prop :=
  ∀ (id : UInt32) (s : Surface), surfaces[id]? = some s →
    ∀ r ∈ s.dataRefs, r ∈ P

/-- What the surfaces name they named before, or it is one of `refs`. -/
def Supplied (refs : List DataRef)
    (surfaces surfaces' : BTreeMap UInt32 Surface) : Prop :=
  ∀ P, (∀ r ∈ refs, r ∈ P) → SurfacesIn P surfaces → SurfacesIn P surfaces'

namespace Supplied

variable {refs : List DataRef} {id : UInt32} {s : Surface}
  {surfaces surfaces' surfaces'' : BTreeMap UInt32 Surface}

theorem refl (surfaces : BTreeMap UInt32 Surface) :
    Supplied refs surfaces surfaces := fun _ _ h => h

theorem trans (h : Supplied refs surfaces surfaces')
    (h' : Supplied refs surfaces' surfaces'') :
    Supplied refs surfaces surfaces'' :=
  fun P hP hin => h' P hP (h P hP hin)

theorem insert (hs : ∀ r ∈ s.dataRefs,
      r ∈ refs ∨ ∃ t, surfaces[id]? = some t ∧ r ∈ t.dataRefs) :
    Supplied refs surfaces (surfaces.insert id s) := by
  intro P hP hin k v hv r hr
  rw [BTreeMap.get_insert] at hv
  split at hv
  · cases hv
    rcases hs r hr with hr | ⟨t, ht, hr⟩
    · exact hP r hr
    · exact hin id t ht r hr
  · exact hin k v hv r hr

theorem erase (id : UInt32) : Supplied refs surfaces (surfaces.erase id) := by
  intro P hP hin k v hv
  rw [BTreeMap.get_erase] at hv
  split at hv
  · cases hv
  · exact hin k v hv

end Supplied

-- ==== the frame

/-- `s'` is not activated with an older generation than `s`. -/
def Surface.Onward (s s' : Surface) : Prop :=
  ∀ g, s.generation = some g → ∃ g', s'.generation = some g' ∧ g ≤ g'

theorem Surface.Onward.same {s s' : Surface}
    (h : s'.generation = s.generation) : s.Onward s' :=
  fun g hg => ⟨g, h.trans hg, UInt64.le_refl g⟩

theorem Surface.Onward.refl (s : Surface) : s.Onward s := .same rfl

theorem Surface.Onward.trans {s t u : Surface} (h₁ : s.Onward t)
    (h₂ : t.Onward u) : s.Onward u := by
  intro g hg
  obtain ⟨g', hg', hle⟩ := h₁ g hg
  obtain ⟨g'', hg'', hle'⟩ := h₂ g' hg'
  exact ⟨g'', hg'', UInt64.le_trans hle hle'⟩

/-- The last generation handed out for a surface id. -/
def JournalModel.mark (m : JournalModel) (id : UInt32) : UInt64 :=
  (m.activationHighWater[id]?).getD 0

/-- Operations, undo records and binding are the same; marks only
rise. -/
structure SameLedger (m m' : JournalModel) : Prop where
  operations : m'.operations = m.operations
  undoRecords : m'.undoRecords = m.undoRecords
  engineIncarnation : m'.engineIncarnation = m.engineIncarnation
  engineRetired : m'.engineRetired = m.engineRetired
  marks : ∀ id, m.mark id ≤ m'.mark id

/-- `m'` has the entities of `m`, except for removed and `new` ones. With
`strips`, a tab may have left a pane's list. -/
structure Grows (m m' : JournalModel) (new : List EntityId)
    (strips : Bool) : Prop where
  categories : Stems (fun _ _ => True) (⟨.category, ·⟩ ∈ new)
    m.categories m'.categories
  workspaces : Stems (fun _ _ => True) (⟨.workspace, ·⟩ ∈ new)
    m.workspaces m'.workspaces
  panes : Stems
    (fun p p' => strips = false → p.tabs ≠ [] → p'.tabs ≠ [])
    (⟨.pane, ·⟩ ∈ new) m.panes m'.panes
  tabs : Stems (fun _ _ => True) (⟨.tab, ·⟩ ∈ new) m.tabs m'.tabs
  surfaces : Stems Surface.Onward (⟨.surface, ·⟩ ∈ new)
    m.surfaces m'.surfaces

/-- A structural step. Without `reorders`, the order of the categories
is the same; only payloads of `refs` are new to the surfaces. -/
structure Effect (m m' : JournalModel) (new : List EntityId)
    (strips reorders : Bool) (refs : List DataRef) : Prop where
  ledger : SameLedger m m'
  grows : Grows m m' new strips
  order : reorders = false → m'.categoryOrder = m.categoryOrder
  payloads : Supplied refs m.surfaces m'.surfaces

section Frame

variable {m m' m'' : JournalModel} {new : List EntityId}
  {strips reorders : Bool} {refs : List DataRef}

theorem SameLedger.refl (m : JournalModel) : SameLedger m m :=
  ⟨rfl, rfl, rfl, rfl, fun _ => UInt64.le_refl _⟩

theorem SameLedger.trans (h₁ : SameLedger m m') (h₂ : SameLedger m' m'') :
    SameLedger m m'' where
  operations := h₂.operations.trans h₁.operations
  undoRecords := h₂.undoRecords.trans h₁.undoRecords
  engineIncarnation := h₂.engineIncarnation.trans h₁.engineIncarnation
  engineRetired := h₂.engineRetired.trans h₁.engineRetired
  marks id := UInt64.le_trans (h₁.marks id) (h₂.marks id)

theorem Grows.refl (m : JournalModel) : Grows m m new strips where
  categories := Stems.refl fun _ => trivial
  workspaces := Stems.refl fun _ => trivial
  panes := Stems.refl fun _ _ h => h
  tabs := Stems.refl fun _ => trivial
  surfaces := Stems.refl Surface.Onward.refl

theorem Grows.trans (h₁ : Grows m m' new strips)
    (h₂ : Grows m' m'' new strips) : Grows m m'' new strips where
  categories := h₁.categories.trans h₂.categories fun _ _ _ _ _ => trivial
  workspaces := h₁.workspaces.trans h₂.workspaces fun _ _ _ _ _ => trivial
  panes := h₁.panes.trans h₂.panes
    fun _ _ _ f g hs hne => g hs (f hs hne)
  tabs := h₁.tabs.trans h₂.tabs fun _ _ _ _ _ => trivial
  surfaces := h₁.surfaces.trans h₂.surfaces
    fun _ _ _ => Surface.Onward.trans

theorem Effect.refl (m : JournalModel) : Effect m m new strips reorders refs :=
  ⟨.refl m, .refl m, fun _ => rfl, .refl _⟩

theorem Effect.trans (h₁ : Effect m m' new strips reorders refs)
    (h₂ : Effect m' m'' new strips reorders refs) :
    Effect m m'' new strips reorders refs :=
  ⟨h₁.ledger.trans h₂.ledger, h₁.grows.trans h₂.grows,
    fun h => (h₂.order h).trans (h₁.order h), h₁.payloads.trans h₂.payloads⟩

end Frame

-- ==== one map changes

variable {panes : BTreeMap UInt32 Pane} {input : DataRef}

namespace Effect

variable {m m' : JournalModel} {new : List EntityId} {strips reorders : Bool} {refs : List DataRef}
  {id : UInt32}

theorem setCategories {categories : BTreeMap UInt32 Category}
    (h : Stems (fun _ _ => True) (⟨.category, ·⟩ ∈ new) m.categories
      categories) : Effect m { m with categories } new strips reorders refs :=
  ⟨{ SameLedger.refl m with },
    { @Grows.refl new strips m with categories := h },
    fun _ => rfl, .refl _⟩

theorem setWorkspaces {workspaces : BTreeMap UInt32 Workspace}
    (h : Stems (fun _ _ => True) (⟨.workspace, ·⟩ ∈ new) m.workspaces
      workspaces) : Effect m { m with workspaces } new strips reorders refs :=
  ⟨{ SameLedger.refl m with },
    { @Grows.refl new strips m with workspaces := h },
    fun _ => rfl, .refl _⟩

theorem setPanes
    (h : Stems (fun p p' => strips = false → p.tabs ≠ [] → p'.tabs ≠ [])
      (⟨.pane, ·⟩ ∈ new) m.panes panes) :
    Effect m { m with panes } new strips reorders refs :=
  ⟨{ SameLedger.refl m with }, { @Grows.refl new strips m with panes := h },
    fun _ => rfl, .refl _⟩

theorem setTabs {tabs : BTreeMap UInt32 Tab}
    (h : Stems (fun _ _ => True) (⟨.tab, ·⟩ ∈ new) m.tabs tabs) :
    Effect m { m with tabs } new strips reorders refs :=
  ⟨{ SameLedger.refl m with }, { @Grows.refl new strips m with tabs := h },
    fun _ => rfl, .refl _⟩

theorem setSurfaces {surfaces : BTreeMap UInt32 Surface}
    (h : Stems Surface.Onward (⟨.surface, ·⟩ ∈ new) m.surfaces surfaces)
    (hrefs : Supplied refs m.surfaces surfaces) :
    Effect m { m with surfaces } new strips reorders refs :=
  ⟨{ SameLedger.refl m with }, { @Grows.refl new strips m with surfaces := h },
    fun _ => rfl, hrefs⟩

theorem setCategoryOrder (order : List UInt32) :
    Effect m { m with categoryOrder := order } new strips true refs :=
  ⟨{ SameLedger.refl m with }, { @Grows.refl new strips m with },
    (fun h => by cases h), .refl _⟩

theorem setWorkspaceOrder (order : List UInt32) :
    Effect m { m with workspaceOrder := order } new strips reorders refs :=
  ⟨{ SameLedger.refl m with }, { @Grows.refl new strips m with },
    fun _ => rfl, .refl _⟩

theorem setWorkspace {w w' : Workspace} (hw : m.workspaces[id]? = some w) :
    Effect m { m with workspaces := m.workspaces.insert id w' } new
      strips reorders refs :=
  setWorkspaces (Stems.set hw trivial fun _ => trivial)

theorem setPane {p p' : Pane} (hp : m.panes[id]? = some p)
    (hstock : strips = false → p.tabs ≠ [] → p'.tabs ≠ []) :
    Effect m { m with panes := m.panes.insert id p' } new strips reorders refs :=
  setPanes (Stems.set hp hstock fun _ _ h => h)

theorem setTab {t t' : Tab} (ht : m.tabs[id]? = some t) :
    Effect m { m with tabs := m.tabs.insert id t' } new strips reorders refs :=
  setTabs (Stems.set ht trivial fun _ => trivial)

/-- A surface changes, its activation not going back. -/
theorem setSurface {s s' : Surface} (hs : m.surfaces[id]? = some s)
    (hreached : s.Onward s')
    (hrefs : ∀ r ∈ s'.dataRefs, r ∈ refs ∨ r ∈ s.dataRefs) :
    Effect m { m with surfaces := m.surfaces.insert id s' } new strips
      reorders refs :=
  setSurfaces (Stems.set hs hreached Surface.Onward.refl)
    (.insert fun r hr => (hrefs r hr).imp_right fun hr => ⟨s, hs, hr⟩)

/-- A surface keeps its payloads. -/
theorem editSurface {s s' : Surface} (hs : m.surfaces[id]? = some s)
    (hreached : s.Onward s') (hrefs : s'.dataRefs = s.dataRefs) :
    Effect m { m with surfaces := m.surfaces.insert id s' } new strips
      reorders refs :=
  setSurface hs hreached fun _ hr => .inr (hrefs ▸ hr)

theorem setSeed {s : Surface} (hs : m.surfaces[id]? = some s) :
    Effect m { m with
      surfaces := m.surfaces.insert id { s with creationSeed := input } } new
      strips reorders [input] :=
  setSurface hs (.same rfl) fun _ hr =>
    (mem_append.1 hr).symm.imp_right (mem_append_left _)

theorem addSurface {spec : SurfaceSpec} (tab : UInt32)
    (hnew : (⟨.surface, spec.id⟩ : EntityId) ∈ new) :
    Effect m { m with
      surfaces := m.surfaces.insert spec.id (newSurface tab spec) } new strips
      reorders spec.data.toList := by
  refine setSurfaces (Stems.add (a := spec.id) hnew _ Surface.Onward.refl)
    (.insert fun r hr => .inl ?_)
  simpa [Surface.dataRefs, newSurface] using hr

theorem eraseWorkspace (id : UInt32) :
    Effect m { m with workspaces := m.workspaces.erase id } new strips reorders refs :=
  setWorkspaces (Stems.erase id fun _ => trivial)

theorem erasePane (id : UInt32) :
    Effect m { m with panes := m.panes.erase id } new strips reorders refs :=
  setPanes (Stems.erase id fun _ _ h => h)

theorem eraseTab (id : UInt32) :
    Effect m { m with tabs := m.tabs.erase id } new strips reorders refs :=
  setTabs (Stems.erase id fun _ => trivial)

theorem eraseSurface (id : UInt32) :
    Effect m { m with surfaces := m.surfaces.erase id } new strips reorders refs :=
  setSurfaces (Stems.erase id Surface.Onward.refl) (.erase id)

end Effect

-- ==== the event's own words

/-- The entities an event creates. -/
def DomainEvent.introduces : DomainEvent → List EntityId
  | categoryCreated id _ _ => [⟨.category, id⟩]
  | workspaceCreated id _ _ _ pane => [⟨.workspace, id⟩, ⟨.pane, pane⟩]
  | paneSplit _ pane _ => [⟨.pane, pane⟩]
  | tabCreated id _ _ _ surface => [⟨.tab, id⟩, ⟨.surface, surface.id⟩]
  | surfaceSplit _ surface _ => [⟨.surface, surface.id⟩]
  | _ => []

/-- Events that create, move or close a category. -/
def DomainEvent.reordersCategories : DomainEvent → Bool
  | categoryCreated .. | categoryMoved .. | categoryClosed _ => true
  | _ => false

/-- Whether an event takes a tab out of a pane that stays. -/
def DomainEvent.strips : DomainEvent → Bool
  | tabMoved .. | tabClosed _ => true
  | _ => false

-- ==== dropping whole subtrees

variable {workspace : UInt32}

namespace Effect

variable {m m' : JournalModel} {new : List EntityId} {strips reorders : Bool} {refs : List DataRef}
  {id : UInt32}

variable {ids : List UInt32}

theorem dropSurfaces {surfaces surfaces' : BTreeMap UInt32 Surface}
    (hok : dropSurfaces surfaces ids = .ok surfaces') :
    Stems Surface.Onward (⟨.surface, ·⟩ ∈ new) surfaces surfaces'
      ∧ Supplied refs surfaces surfaces' := by
  induction ids generalizing surfaces with
  | nil =>
    cases hok
    exact ⟨Stems.refl Surface.Onward.refl, .refl _⟩
  | cons id ids ih =>
    have hok := then_ok hok
    obtain ⟨hstems, hrefs⟩ := ih hok
    exact ⟨(Stems.erase id Surface.Onward.refl).trans hstems
      fun _ _ _ => Surface.Onward.trans, (Supplied.erase id).trans hrefs⟩

theorem dropTab (hok : dropTab m id = .ok m') :
    Effect m m' new strips reorders refs := by
  obtain ⟨tab, _, hok⟩ := bind_ok hok
  obtain ⟨surfaces, hdrop, hok⟩ := bind_ok hok
  cases hok
  obtain ⟨hstems, hrefs⟩ := dropSurfaces hdrop
  exact (eraseTab _).trans (setSurfaces hstems hrefs)

theorem dropTabs (hok : dropTabs m ids = .ok m') :
    Effect m m' new strips reorders refs := by
  induction ids generalizing m with
  | nil =>
    cases hok
    exact .refl _
  | cons id ids ih =>
    obtain ⟨m₁, htab, hok⟩ := bind_ok hok
    exact (dropTab htab).trans (ih hok)

theorem dropPane (hok : dropPane m id = .ok m') :
    Effect m m' new strips reorders refs := by
  obtain ⟨pane, _, hok⟩ := bind_ok hok
  exact (erasePane _).trans (dropTabs hok)

theorem dropPanes (hok : dropPanes m ids = .ok m') :
    Effect m m' new strips reorders refs := by
  induction ids generalizing m with
  | nil =>
    cases hok
    exact .refl _
  | cons id ids ih =>
    obtain ⟨m₁, hpane, hok⟩ := bind_ok hok
    exact (dropPane hpane).trans (ih hok)

-- ==== categories and workspaces

variable {name : String} {index : Nat}

theorem createCategory (hok : createCategory m id name index = .ok m') :
    Effect m m' [⟨.category, id⟩] strips true refs := by
  have hok := then_ok hok
  obtain ⟨order, _, hok⟩ := bind_ok hok
  cases hok
  exact (setCategoryOrder order).trans
    (setCategories (Stems.add (by simp) _ fun _ => trivial))

theorem closeCategory (hok : closeCategory m id = .ok m') :
    Effect m m' new strips true refs := by
  have hok := then_ok hok
  obtain ⟨_, hok⟩ := guard_ok hok
  cases hok
  exact (setCategories (Stems.erase id fun _ => trivial)).trans
    (setCategoryOrder _)

variable {pane : UInt32}

theorem createWorkspace {category : UInt32}
    (hok : createWorkspace m id name category index pane = .ok m') :
    Effect m m' [⟨.workspace, id⟩, ⟨.pane, pane⟩] strips reorders refs := by
  have hok := then_ok (then_ok (then_ok hok))
  obtain ⟨order, _, hok⟩ := bind_ok hok
  cases hok
  exact ((setWorkspaceOrder order).trans
    (setWorkspaces (Stems.add (by simp) _ fun _ => trivial))).trans
    (setPanes (Stems.add (by simp) _ fun _ _ h => h))

theorem editWorkspace {f : Workspace → Workspace}
    (hok : editWorkspace m id f = .ok m') : Effect m m' new strips reorders refs := by
  obtain ⟨workspaces, hedit, hok⟩ := bind_ok hok
  cases hok
  obtain ⟨w, hw, rfl⟩ := modify_eq_ok.1 hedit
  exact setWorkspace hw

theorem moveWorkspace {category : UInt32}
    (hok : moveWorkspace m id category index = .ok m') :
    Effect m m' new strips reorders refs := by
  have hok := then_ok hok
  obtain ⟨workspaces, hedit, hok⟩ := bind_ok hok
  obtain ⟨order, _, hok⟩ := bind_ok hok
  cases hok
  obtain ⟨w, hw, rfl⟩ := modify_eq_ok.1 hedit
  exact (setWorkspace hw).trans (setWorkspaceOrder order)

theorem closeWorkspace (hok : closeWorkspace m id = .ok m') :
    Effect m m' new strips reorders refs := by
  obtain ⟨w, _, hok⟩ := bind_ok hok
  exact ((eraseWorkspace _).trans (setWorkspaceOrder _)).trans (dropPanes hok)

-- ==== panes

variable {target : UInt32} {split : SplitSpec}

theorem attachPane
    (hok : attachPane m workspace target pane split = .ok m') :
    Effect m m' new strips reorders refs ∧ m'.panes = m.panes := by
  obtain ⟨w, layout, hw, _, rfl⟩ := Forest.attachPane_eq_ok hok
  exact ⟨setWorkspace hw, rfl⟩

theorem detachPane (hok : detachPane m workspace id = .ok m') :
    Effect m m' new strips reorders refs ∧ m'.panes = m.panes := by
  obtain ⟨w, hw, hok⟩ := bind_ok hok
  obtain ⟨layout, _, hok⟩ := bind_ok hok
  cases hok
  exact ⟨setWorkspace (get_eq_ok.1 hw), rfl⟩

theorem splitPane (hok : splitPane m target pane split = .ok m') :
    Effect m m' [⟨.pane, pane⟩] strips reorders refs := by
  have hok := then_ok hok
  obtain ⟨beside, _, hok⟩ := bind_ok hok
  obtain ⟨m₁, hattach, hok⟩ := bind_ok hok
  cases hok
  exact (attachPane hattach).1.trans
    (setPanes (Stems.add (by simp) _ fun _ _ h => h))

theorem movePane (hok : movePane m id target split = .ok m') :
    Effect m m' new strips reorders refs := by
  obtain ⟨_, hok⟩ := guard_ok hok
  obtain ⟨source, _, hok⟩ := bind_ok hok
  obtain ⟨dest, _, hok⟩ := bind_ok hok
  obtain ⟨m₁, hdetach, hok⟩ := bind_ok hok
  obtain ⟨m₂, hattach, hok⟩ := bind_ok hok
  obtain ⟨panes, hedit, hok⟩ := bind_ok hok
  cases hok
  obtain ⟨p, hp, rfl⟩ := modify_eq_ok.1 hedit
  have hplaced : Effect m m₂ new strips reorders refs :=
    (detachPane hdetach).1.trans (attachPane hattach).1
  exact hplaced.trans (setPane hp fun _ h => h)

theorem closePane (hok : closePane m id = .ok m') :
    Effect m m' new strips reorders refs := by
  obtain ⟨pane, _, hok⟩ := bind_ok hok
  obtain ⟨m₁, hdetach, hok⟩ := bind_ok hok
  exact (detachPane hdetach).1.trans (dropPane hok)

-- ==== tabs

theorem insertAt_ne_nil {list list' : List UInt32} {item : UInt32}
    (hok : insertAt list index item = .ok list') : list' ≠ [] := by
  intro hnil
  have hperm := insertAt_eq_ok hok
  rw [hnil] at hperm
  exact absurd hperm.length_eq (by simp)

variable {surface : SurfaceSpec}

theorem createTab (hok : createTab m id pane index name surface = .ok m') :
    Effect m m' [⟨.tab, id⟩, ⟨.surface, surface.id⟩] strips reorders
      surface.data.toList := by
  have hok := then_ok (then_ok hok)
  obtain ⟨p, hp, hok⟩ := bind_ok hok
  obtain ⟨tabs, htabs, hok⟩ := bind_ok hok
  cases hok
  refine ((setPane (get_eq_ok.1 hp) ?_).trans
    (setTabs (Stems.add (by simp) _ fun _ => trivial))).trans
    (addSurface id (by simp))
  intro _ _
  exact insertAt_ne_nil htabs

theorem editTab {f : Tab → Tab} (hok : editTab m id f = .ok m') :
    Effect m m' new strips reorders refs := by
  obtain ⟨tabs, hedit, hok⟩ := bind_ok hok
  cases hok
  obtain ⟨t, ht, rfl⟩ := modify_eq_ok.1 hedit
  exact setTab ht

theorem stripTab (hok : modify m.panes .pane pane
      (fun p => { p with tabs := p.tabs.filter (· ≠ id) }) = .ok panes) :
    Effect m { m with panes } new true reorders refs := by
  obtain ⟨p, hp, rfl⟩ := modify_eq_ok.1 hok
  exact setPane hp fun h => by cases h

theorem moveTab (hok : moveTab m id pane index = .ok m') :
    Effect m m' new true reorders refs := by
  obtain ⟨tab, htab, hok⟩ := bind_ok hok
  have hok := then_ok hok
  obtain ⟨panes, hpanes, hok⟩ := bind_ok hok
  obtain ⟨dest, hdest, hok⟩ := bind_ok hok
  obtain ⟨tabs, _, hok⟩ := bind_ok hok
  cases hok
  have hstrip : Effect m { m with panes } new true reorders refs :=
    stripTab hpanes
  exact (hstrip.trans (setPane (get_eq_ok.1 hdest) fun h => by cases h)).trans
    (setTab (get_eq_ok.1 htab))

theorem closeTab (hok : closeTab m id = .ok m') :
    Effect m m' new true reorders refs := by
  obtain ⟨tab, _, hok⟩ := bind_ok hok
  obtain ⟨panes, hpanes, hok⟩ := bind_ok hok
  exact (stripTab hpanes).trans (dropTab hok)

-- ==== surfaces

theorem attachSurface {tab surface : UInt32}
    (hok : attachSurface m tab target surface split = .ok m') :
    Effect m m' new strips reorders refs := by
  obtain ⟨t, layout, ht, _, rfl⟩ := Forest.attachSurface_eq_ok hok
  exact setTab ht

theorem detachSurface {tab : UInt32} (hok : detachSurface m tab id = .ok m') :
    Effect m m' new strips reorders refs := by
  obtain ⟨t, ht, hok⟩ := bind_ok hok
  obtain ⟨layout, _, hok⟩ := bind_ok hok
  cases hok
  exact setTab (get_eq_ok.1 ht)

theorem splitSurface (hok : splitSurface m target surface split = .ok m') :
    Effect m m' [⟨.surface, surface.id⟩] strips reorders
      surface.data.toList := by
  have hok := then_ok hok
  obtain ⟨beside, _, hok⟩ := bind_ok hok
  obtain ⟨m₁, hattach, hok⟩ := bind_ok hok
  cases hok
  exact (attachSurface hattach).trans (addSurface beside.tab (by simp))

theorem moveSurface (hok : moveSurface m id target split = .ok m') :
    Effect m m' new strips reorders refs := by
  obtain ⟨_, hok⟩ := guard_ok hok
  obtain ⟨source, _, hok⟩ := bind_ok hok
  obtain ⟨dest, _, hok⟩ := bind_ok hok
  obtain ⟨m₁, hdetach, hok⟩ := bind_ok hok
  obtain ⟨m₂, hattach, hok⟩ := bind_ok hok
  obtain ⟨surfaces, hedit, hok⟩ := bind_ok hok
  cases hok
  obtain ⟨s, hs, rfl⟩ := modify_eq_ok.1 hedit
  have hplaced : Effect m m₂ new strips reorders refs :=
    (detachSurface hdetach).trans (attachSurface hattach)
  exact hplaced.trans (editSurface hs (.same rfl) rfl)

theorem closeSurface (hok : closeSurface m id = .ok m') :
    Effect m m' new strips reorders refs := by
  obtain ⟨s, _, hok⟩ := bind_ok hok
  obtain ⟨m₁, hdetach, hok⟩ := bind_ok hok
  cases hok
  exact (detachSurface hdetach).trans (eraseSurface _)

theorem convertSurface {kind : String} {data : Option DataRef}
    (hok : convertSurface m id kind data = .ok m') :
    Effect m m' new strips reorders data.toList := by
  obtain ⟨surfaces, hedit, hok⟩ := bind_ok hok
  cases hok
  obtain ⟨s, hs, rfl⟩ := modify_eq_ok.1 hedit
  exact setSurface hs (.same rfl) fun _ hr =>
    (mem_append.1 hr).imp_right (mem_append_right _)

theorem seedSurface {generation : UInt64}
    (hok : seedSurface m id generation input = .ok m') :
    Effect m m' new strips reorders [input] := by
  obtain ⟨s, hs, hok⟩ := bind_ok hok
  obtain ⟨_, hok⟩ := guard_ok hok
  cases hok
  exact setSeed (get_eq_ok.1 hs)

theorem importSeed
    (hok : importSeed m id input = .ok m') : Effect m m' new strips reorders [input] := by
  obtain ⟨s, hs, hok⟩ := bind_ok hok
  obtain ⟨_, hok⟩ := guard_ok hok
  cases hok
  exact setSeed (get_eq_ok.1 hs)

theorem recordData {generation : Option UInt64}
    {contentGeneration : UInt64} {schema : UInt32} {data : DataRef}
    (hok : recordData m id generation contentGeneration schema data
      = .ok m') : Effect m m' new strips reorders [data] := by
  obtain ⟨s, hs, hok⟩ := bind_ok hok
  obtain ⟨_, hok⟩ := guard_ok hok
  cases hok
  exact setSurface (get_eq_ok.1 hs) (.same rfl) fun _ hr =>
    (mem_append.1 hr).imp_right (mem_append_right _)

theorem le_max_generation (a b : UInt64) : a ≤ max a b := by
  rw [show max a b = if a ≤ b then b else a from rfl]
  split
  · assumption
  · exact UInt64.le_refl a

theorem mark_le_raise (marks : BTreeMap UInt32 UInt64) (id k : UInt32)
    (generation : UInt64) :
    (marks[k]?).getD 0 ≤ ((raiseHighWater marks id generation)[k]?).getD 0 := by
  unfold raiseHighWater
  cases hid : marks[id]? with
  | none =>
    by_cases hk : id = k
    · subst hk
      simp [hid]
    · simp [hk]
  | some last =>
    by_cases hk : id = k
    · subst hk
      simp only [hid, BTreeMap.get_insert, if_true, Option.getD_some]
      exact le_max_generation last generation
    · simp [hk]

theorem activation {previous : Option UInt64} {next : Activation}
    (hok : activation m id previous next = .ok m') :
    Effect m m' new strips reorders refs := by
  obtain ⟨s, hs, hok⟩ := bind_ok hok
  obtain ⟨hfresh, hok⟩ := guard_ok hok
  cases hok
  rw [get_eq_ok] at hs
  simp only [not_or] at hfresh
  have hreached : s.Onward { s with activation := some next } := by
    intro g hg
    obtain ⟨a, ha, rfl⟩ := Option.map_eq_some_iff.1 hg
    refine ⟨next.generation, rfl, ?_⟩
    rw [← UInt64.not_lt]
    intro hlt
    simp [staleActivation, ha, hlt] at hfresh
  have hset : Effect m _ new strips reorders refs :=
    editSurface hs hreached rfl
  exact ⟨{ hset.ledger with
    marks := fun k => mark_le_raise m.activationHighWater id k _ },
    { hset.grows with }, fun _ => rfl, hset.payloads⟩

-- ==== ratios and metadata

theorem setPaneRatio {path : List Bool} {value : Ratio}
    (hok : setPaneRatio m id path value = .ok m') :
    Effect m m' new strips reorders refs := by
  obtain ⟨w, hw, hok⟩ := bind_ok hok
  obtain ⟨layout, _, hok⟩ := bind_ok hok
  cases hok
  exact setWorkspace (get_eq_ok.1 hw)

theorem setSurfaceRatio {path : List Bool} {value : Ratio}
    (hok : setSurfaceRatio m id path value = .ok m') :
    Effect m m' new strips reorders refs := by
  obtain ⟨t, ht, hok⟩ := bind_ok hok
  obtain ⟨layout, _, hok⟩ := bind_ok hok
  cases hok
  exact setTab (get_eq_ok.1 ht)

theorem editMetadata {target : MetadataTarget}
    {edit : BTreeMap String String → Evolved (BTreeMap String String)}
    (hok : editMetadata m target edit = .ok m') :
    Effect m m' new strips reorders refs := by
  cases target with
  | workspace id =>
    obtain ⟨w, hw, hok⟩ := bind_ok hok
    obtain ⟨metadata, _, hok⟩ := bind_ok hok
    cases hok
    exact setWorkspace (get_eq_ok.1 hw)
  | surface id =>
    obtain ⟨s, hs, hok⟩ := bind_ok hok
    obtain ⟨metadata, _, hok⟩ := bind_ok hok
    cases hok
    exact editSurface (get_eq_ok.1 hs) (.same rfl) rfl

end Effect

-- ==== replacement

variable {removed : List EntityId}

namespace Replacement

variable {m m' : JournalModel} {new : List EntityId} {strips reorders : Bool} {refs : List DataRef}
  {id : UInt32}

theorem detachPane_effect (hok : detachPane m id workspace = .ok m') :
    Effect m m' new strips reorders refs ∧ m'.panes = m.panes := by
  unfold detachPane at hok
  split at hok
  · cases hok
  · rename_i w hw
    split at hok
    · cases hok
      exact ⟨.setWorkspace hw, rfl⟩
    · cases hok
      exact ⟨(Effect.eraseWorkspace _).trans (.setWorkspaceOrder _), rfl⟩
    · cases hok

theorem detachTab_effect {pane : UInt32}
    (hok : detachTab m id pane = .ok m') : Effect m m' new strips reorders refs := by
  unfold detachTab at hok
  split at hok
  · cases hok
  · rename_i p hp
    simp only at hok
    split at hok
    · rename_i hempty
      obtain ⟨m₁, hdetach, hok⟩ := bind_ok hok
      cases hok
      -- the emptied pane is written and then erased
      have hdetach : Effect _ m₁ new strips reorders refs ∧ _ :=
        detachPane_effect hdetach
      obtain ⟨⟨hledger, hgrows, horder, hrefs⟩, hpanes⟩ := hdetach
      refine ⟨{ hledger with }, { hgrows with panes := ?_ }, horder, hrefs⟩
      show Stems _ _ m.panes (m₁.panes.erase pane)
      rw [hpanes]
      intro k p' hp'
      simp only [BTreeMap.get_erase, BTreeMap.get_insert] at hp'
      by_cases hk : pane = k
      · simp [hk] at hp'
      · simp only [hk, if_false] at hp'
        exact .inl ⟨p', hp', fun _ h => h⟩
    · rename_i hsome
      cases hok
      refine .setPane hp fun _ _ hnil => hsome ?_
      exact List.isEmpty_iff.2 hnil

theorem detachSurface_effect (hok : detachSurface m id = .ok m') :
    Effect m m' new strips reorders refs := by
  unfold detachSurface at hok
  split at hok
  · cases hok
  · split at hok
    · cases hok
    · rename_i tab htab
      split at hok
      · cases hok
        exact .setTab htab
      · obtain ⟨m₁, hdetach, hok⟩ := bind_ok hok
        cases hok
        exact (detachTab_effect hdetach).trans (.eraseTab _)
      · cases hok

theorem dropSurfaces_effect (m : JournalModel) (ids : List UInt32) :
    Effect m (dropSurfaces m ids) new strips reorders refs := by
  induction ids generalizing m with
  | nil => exact .refl m
  | cons id ids ih =>
    exact (Effect.eraseSurface _).trans
      (ih { m with surfaces := m.surfaces.erase id })

theorem dropTabs_effect (m : JournalModel) (ids : List UInt32) :
    Effect m (dropTabs m ids) new strips reorders refs := by
  induction ids generalizing m with
  | nil => exact .refl m
  | cons id ids ih =>
    unfold dropTabs
    rw [foldl_cons]
    cases htab : m.tabs[id]? with
    | none => exact ih m
    | some tab =>
      refine Effect.trans ?_ (ih _)
      exact (Effect.eraseTab _).trans (dropSurfaces_effect _ _)

variable {source target : UInt32}

theorem simulateSurface_effect
    (hok : simulateSurface source target m = .ok m') :
    Effect m m' new strips reorders refs := by
  obtain ⟨_, old, next, tab, layout, moved, -, -, hdetach, htab, -, hmoved,
    rfl⟩ := simulateSurface_eq_ok hok
  have hslot : Effect next
      { next with tabs := next.tabs.insert old.tab { tab with layout } }
      new strips reorders refs := .setTab htab
  have hgone := hslot.trans (.eraseSurface target)
  refine (detachSurface_effect hdetach).trans (hgone.trans ?_)
  exact .editSurface hmoved (.same rfl) rfl

theorem simulateTab_effect (hok : simulateTab source target m = .ok m') :
    Effect m m' new strips reorders refs := by
  obtain ⟨_, old, next, pane, moved, -, -, hdetach, hpane, -, hmoved, rfl⟩ :=
    simulateTab_eq_ok hok
  refine (detachTab_effect hdetach).trans ?_
  have hslot : Effect next
      { next with
        panes := next.panes.insert old.pane { pane with
          tabs := pane.tabs.set (pane.tabs.idxOf target) source } }
      new strips reorders refs :=
    .setPane hpane fun _ hne hnil => hne ((set_eq_nil_iff _ _).1 hnil)
  have hdrop := hslot.trans (dropSurfaces_effect _ old.layout.leaves)
  have hgone := hdrop.trans (.eraseTab target)
  exact hgone.trans (.setTab hmoved)

theorem simulatePane_effect (hok : simulatePane source target m = .ok m') :
    Effect m m' new strips reorders refs := by
  obtain ⟨_, old, next, workspace, layout, _, moved, -, -, hdetach,
    hworkspace, -, rfl, hmoved, rfl⟩ := simulatePane_eq_ok hok
  refine (detachPane_effect hdetach).1.trans ?_
  have hslot : Effect next
      { next with
        workspaces := next.workspaces.insert old.workspace
          { workspace with layout } }
      new strips reorders refs := .setWorkspace hworkspace
  have hdrop := hslot.trans (dropTabs_effect _ old.tabs)
  have hgone := hdrop.trans (.erasePane target)
  exact hgone.trans (.setPane hmoved fun _ h => h)

theorem simulate_effect {r : Replacement}
    (hok : r.simulate m = .ok (m', removed)) :
    Effect m m' new strips reorders refs := by
  obtain ⟨_, hok⟩ := guard_ok hok
  obtain ⟨next, hkind, hok⟩ := bind_ok hok
  cases hok
  split at hkind
  · exact simulateSurface_effect hkind
  · exact simulateTab_effect hkind
  · exact simulatePane_effect hkind
  · cases hkind

end Replacement

variable {new : List EntityId} {strips : Bool}

theorem Effect.replaceStructure {m m' : JournalModel}
    {reorders : Bool} {refs : List DataRef} {replacement : Replacement}
    (hok : replaceStructure m replacement removed = .ok m') :
    Effect m m' new strips reorders refs := by
  unfold Core.replaceStructure at hok
  split at hok
  · cases hok
  · rename_i after actual hsim
    obtain ⟨_, hok⟩ := guard_ok hok
    cases hok
    exact Replacement.simulate_effect hsim

-- ==== every event

theorem SameEntities.grows {m m' : JournalModel} (same : SameEntities m m') :
    Grows m m' new strips where
  categories := by
    rw [same.categories]
    exact Stems.refl fun _ => trivial
  workspaces := by
    rw [same.workspaces]
    exact Stems.refl fun _ => trivial
  panes := by
    rw [same.panes]
    exact Stems.refl fun _ _ h => h
  tabs := by
    rw [same.tabs]
    exact Stems.refl fun _ => trivial
  surfaces := by
    rw [same.surfaces]
    exact Stems.refl Surface.Onward.refl

variable {e : DomainEvent}

/-- A structural event adds what it names and keeps the ledger. -/
theorem apply_effect {m m' : JournalModel} (hkind : e.onLedger = false)
    (hok : apply m e = .ok m') :
    Effect m m' e.introduces e.strips e.reordersCategories e.dataRefs := by
  cases e with
  | structureReplaced => exact .replaceStructure hok
  | categoryCreated => exact .createCategory hok
  | categoryRenamed =>
    obtain ⟨categories, hedit, hok⟩ := bind_ok hok
    cases hok
    obtain ⟨c, hc, rfl⟩ := modify_eq_ok.1 hedit
    exact .setCategories (Stems.set hc trivial fun _ => trivial)
  | categoryMoved =>
    obtain ⟨order, _, hok⟩ := bind_ok hok
    cases hok
    exact .setCategoryOrder order
  | categoryClosed => exact .closeCategory hok
  | workspaceCreated => exact .createWorkspace hok
  | workspaceRenamed => exact .editWorkspace hok
  | workspaceDetailsSet => exact .editWorkspace hok
  | workspaceAttachMappingSet => exact .editWorkspace hok
  | workspaceMoved => exact .moveWorkspace hok
  | workspaceClosed => exact .closeWorkspace hok
  | paneSplit => exact .splitPane hok
  | paneMoved => exact .movePane hok
  | paneClosed => exact .closePane hok
  | tabCreated => exact .createTab hok
  | tabRenamed => exact .editTab hok
  | tabExplicitNameSet => exact .editTab hok
  | tabMoved => exact .moveTab hok
  | tabClosed => exact .closeTab hok
  | surfaceSplit => exact .splitSurface hok
  | surfaceMoved => exact .moveSurface hok
  | surfaceClosed => exact .closeSurface hok
  | surfaceConverted => exact .convertSurface hok
  | surfaceCreationSeeded => exact .seedSurface hok
  | surfaceSeedImported => exact .importSeed hok
  | surfaceDataRecorded => exact .recordData hok
  | surfaceActivationChanged => exact .activation hok
  | paneRatioSet => exact .setPaneRatio hok
  | surfaceRatioSet => exact .setSurfaceRatio hok
  | metadataSet =>
    unfold apply at hok
    exact .editMetadata hok
  | metadataRemoved => exact .editMetadata hok
  | _ => cases hkind

/-- Any event adds at most what it names. -/
theorem apply_grows {m m' : JournalModel} (hok : apply m e = .ok m') : Grows m m' e.introduces e.strips := by
  cases hkind : e.onLedger with
  | true => exact (apply_onLedger hkind hok).1.grows
  | false => exact (apply_effect hkind hok).grows

-- ==== one batch

theorem Grows.holds {m m' : JournalModel}
    (h : Grows m m' new strips) {e : EntityId}
    (he : m'.holds e = true) : m.holds e = true ∨ e ∈ new := by
  obtain ⟨kind, id⟩ := e
  have key : ∀ {V : Type} {R : V → V → Prop} {k : IdKind}
      {map map' : BTreeMap UInt32 V},
      Stems R (⟨k, ·⟩ ∈ new) map map' → map'.contains id = true →
      map.contains id = true ∨ (⟨k, id⟩ : EntityId) ∈ new := by
    intro V R k map map' hstems hmem
    obtain ⟨v', hv'⟩ := (BTreeMap.mem_iff_get ..).1
      (Std.ExtTreeMap.contains_iff_mem.1 hmem)
    rcases hstems id v' hv' with ⟨v, hv, _⟩ | hnew
    · exact .inl (Std.ExtTreeMap.contains_iff_mem.2
        ((BTreeMap.mem_iff_get ..).2 ⟨v, hv⟩))
    · exact .inr hnew
  cases kind with
  | category => exact key h.categories he
  | workspace => exact key h.workspaces he
  | pane => exact key h.panes he
  | tab => exact key h.tabs he
  | surface => exact key h.surfaces he

theorem Grows.mono {m m' : JournalModel} {new' : List EntityId}
    {strips' : Bool} (h : Grows m m' new strips)
    (hnew : ∀ x ∈ new, x ∈ new') (hstrips : strips' = false → strips = false) :
    Grows m m' new' strips' where
  categories := h.categories.mono (fun _ _ h => h) fun _ => hnew _
  workspaces := h.workspaces.mono (fun _ _ h => h) fun _ => hnew _
  panes := h.panes.mono (fun _ _ h hs => h (hstrips hs)) fun _ => hnew _
  tabs := h.tabs.mono (fun _ _ h => h) fun _ => hnew _
  surfaces := h.surfaces.mono (fun _ _ h => h) fun _ => hnew _

variable {es : List DomainEvent}

/-- A batch adds at most what its events name. -/
theorem Applies.grows {m m' : JournalModel} (h : Applies m es m') :
    Grows m m' (es.flatMap DomainEvent.introduces)
      (es.any DomainEvent.strips) := by
  induction es generalizing m with
  | nil =>
    obtain ⟨a, ha⟩ := h
    rw [ha]
    exact { Grows.refl m with }
  | cons event es ih =>
    obtain ⟨m₁, a, happly, hrest⟩ := h
    have hone : Grows m m₁ ((event :: es).flatMap DomainEvent.introduces)
        ((event :: es).any DomainEvent.strips) := by
      refine (apply_grows happly).mono (fun x hx => ?_) fun hs => ?_
      · rw [flatMap_cons, mem_append]
        exact .inl hx
      · rw [any_cons, Bool.or_eq_false_iff] at hs
        exact hs.1
    have hmany : Grows { m₁ with applied := a } m'
        ((event :: es).flatMap DomainEvent.introduces)
        ((event :: es).any DomainEvent.strips) := by
      refine (ih hrest).mono (fun x hx => ?_) fun hs => ?_
      · rw [flatMap_cons, mem_append]
        exact .inr hx
      · rw [any_cons, Bool.or_eq_false_iff] at hs
        exact hs.2
    exact hone.trans { hmany with }

/-- What a model holds after a batch it held before, or an event of the
batch creates it. -/
theorem Applies.holds {m m' : JournalModel}
    (h : Applies m es m') {e : EntityId} (he : m'.holds e = true) :
    m.holds e = true ∨ ∃ event ∈ es, e ∈ event.introduces := by
  rw [← mem_flatMap]
  exact h.grows.holds he

end Tasty.Core
