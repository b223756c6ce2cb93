/-
Invariants that no event keeps alone, but every command does: a pane has
a tab, the category `normal` (id 0) comes first, and the undo records are
those of closes.

`Emits` leaves two kinds of batches. A `Tame` one takes no tab out of a
list, fills every pane it creates, and leaves the order of the categories
alone except for closing others than `normal`. The `Special` ones are five
single decisions, each kept in line by a check of its command.
-/
import Tasty.Core.Undo

namespace Tasty.Core

open List

variable {ids list : List UInt32} {pane id item : UInt32} {p : Pane}

-- ==== the two kinds

/-- Events that leave `normal` where it is. -/
def DomainEvent.KeepsNormal (e : DomainEvent) : Prop :=
  e.reordersCategories = false ∨ ∃ id, id ≠ 0 ∧ e = .categoryClosed id

/-- A batch that is kept in line by its events alone. -/
structure Tame (es : List DomainEvent) : Prop where
  keepsTabs : ∀ e ∈ es, e.strips = false
  keepsNormal : ∀ e ∈ es, e.KeepsNormal
  filled : Filled es

/-- The batches that need their command's check. -/
inductive Special (m : JournalModel) : List DomainEvent → Prop
  | categoryCreated {id : UInt32} {name : String} (hid : id ≠ 0) :
      Special m [.categoryCreated id name (usizeLen m.categoryOrder)]
  | categoryMoved {id : UInt32} {index : Usize} (hid : id ≠ 0)
      (hindex : index ≠ 0) : Special m [.categoryMoved id index]
  | tabMoved {pane id : UInt32} {index : Usize} {p : Pane}
      (hp : m.panes[pane]? = some p) (hid : id ∈ p.tabs) :
      Special m [.tabMoved id pane index]
  | opened {before : List DomainEvent} {name : String}
      (hbefore : Tame before) :
      Special m (before ++ Bootstrap.normalEvents m name)
  | tabClosed {before : List DomainEvent} {target : CloseTarget}
      {id : UInt32} {removed : List EntityId} {ids : List UInt32}
      (hbefore : ∀ e ∈ before, e.onLedger = true)
      (hclose : closeFacts m target = some (.tabClosed id, removed, ids)) :
      Special m (before ++ [.tabClosed id])

variable {target : CloseTarget} {removed : List EntityId}

section Tame

variable {m : JournalModel} {e : DomainEvent} {es es' : List DomainEvent}

theorem Tame.append (h : Tame es) (h' : Tame es') : Tame (es ++ es') where
  keepsTabs e he := by
    rcases mem_append.1 he with he | he
    · exact h.keepsTabs e he
    · exact h'.keepsTabs e he
  keepsNormal e he := by
    rcases mem_append.1 he with he | he
    · exact h.keepsNormal e he
    · exact h'.keepsNormal e he
  filled := h.filled.append h'.filled

/-- One event that creates no pane. -/
structure Calm (e : DomainEvent) : Prop where
  keepsTabs : e.strips = false
  keepsNormal : e.KeepsNormal
  noPane : ∀ pane, ⟨.pane, pane⟩ ∉ e.introduces

theorem Tame.of_calm (h : ∀ e ∈ es, Calm e) : Tame es :=
  ⟨fun e he => (h e he).keepsTabs, fun e he => (h e he).keepsNormal,
    Filled.of_none fun e he => (h e he).noPane⟩

/-- The facts of a plan, whose panes are filled. -/
theorem Tame.of_built {ids : List EntityId}
    (h : ∀ e ∈ es, Built ids e) (hfilled : Filled es) : Tame es :=
  ⟨fun e he => (h e he).keepsTabs,
    fun e he => .inl (h e he).keepsCategories, hfilled⟩

theorem Calm.of_ledger (h : e.onLedger = true) : Calm e := by
  cases e with
  | undoRecordAdded | undoRecordConsumed | undoRecordEvicted
  | engineIncarnationStarted | engineRetired | operationPrepared
  | operationAwaitingCleanup | operationFinished | operationReconciled =>
    exact ⟨rfl, .inl rfl, fun _ h => by cases h⟩
  | operationResourcePrepared =>
    exact ⟨rfl, .inl rfl, fun _ h => by cases h⟩
  | operationRecoveryObserved =>
    exact ⟨rfl, .inl rfl, fun _ h => by cases h⟩
  | _ => cases h

variable {o : OperationOutcome}

theorem DomainEvent.onLedger_of_writes {id : OperationId}
    (h : e.writes = some (id, o)) : e.onLedger = true := by
  cases e <;> first | rfl | cases h

theorem Quiet.calm (h : Quiet m e) : Calm e := by
  cases h with
  | built hbuilt =>
    exact ⟨hbuilt.keepsTabs, .inl hbuilt.keepsCategories,
      fun pane hpane => not_mem_nil (hbuilt.within _ hpane)⟩
  | categoryClosed hid =>
    exact ⟨rfl, .inr ⟨_, hid, rfl⟩, fun _ h => by cases h⟩
  | engineRetired => exact .of_ledger rfl
  | resource => exact .of_ledger rfl
  | recovery => exact .of_ledger rfl
  | awaiting => exact .of_ledger rfl
  | wrote hwrites => exact .of_ledger (DomainEvent.onLedger_of_writes hwrites)

theorem Writes.calm {id : OperationId}
    (h : Writes id o es) : ∀ e ∈ es, Calm e :=
  fun _ he => .of_ledger (DomainEvent.onLedger_of_writes (h.mem he))

theorem opened_calm {started : List DomainEvent} {reset : Bool}
    (hstarted : started = [] ∨ ∃ previous current,
      started = [.engineIncarnationStarted previous current]) :
    ∀ e ∈ started ++ (if reset then Bootstrap.resetEvents m else []),
      Calm e := by
  intro e he
  rcases mem_append.1 he with he | he
  · rcases hstarted with rfl | ⟨previous, current, rfl⟩
    · cases he
    · cases mem_singleton.1 he
      exact .of_ledger rfl
  · split at he
    · rcases resetEvents_mem he with ⟨id, rfl⟩ | ⟨id, rfl⟩ | ⟨id, hid, rfl⟩
      · exact .of_ledger rfl
      · exact ⟨rfl, .inl rfl, fun _ h => by cases h⟩
      · exact ⟨rfl, .inr ⟨id, hid, rfl⟩, fun _ h => by cases h⟩
    · cases he

theorem closeFacts_calm {event : DomainEvent}
    (h : closeFacts m target = some (event, removed, ids)) :
    Calm event ∨ ∃ id, event = .tabClosed id := by
  obtain ⟨actual, -, rfl⟩ := closeFacts_closing h
  cases actual with
  | tab id => exact .inr ⟨id, rfl⟩
  | _ => exact .inl ⟨rfl, .inl rfl, fun _ h => by cases h⟩

theorem Emits.tame (h : Emits m es) : Tame es ∨ Special m es := by
  cases h with
  | quiet h => exact .inl (.of_calm fun e he => (h e he).calm)
  | categoryCreated hid => exact .inr (.categoryCreated hid)
  | categoryMoved hid hindex => exact .inr (.categoryMoved hid hindex)
  | tabMoved hp hid => exact .inr (.tabMoved hp hid)
  | opened hstarted => exact .inr (.opened (.of_calm (opened_calm hstarted)))
  | forwarded | creationPrepared =>
    refine .inl (.of_calm fun e he => ?_)
    cases mem_singleton.1 he
    exact .of_ledger rfl
  | assemblyPrepared =>
    refine .inl (.of_calm fun e he => ?_)
    rcases mem_cons.1 he with rfl | he
    · exact .of_ledger rfl
    · obtain ⟨_, _, rfl⟩ := mem_map.1 he
      exact .of_ledger rfl
  | closed hclose hundoing =>
    rename_i operation commandId input plan target undoing event removed
      ids
    have hbefore : ∀ e ∈ .operationPrepared
        { Operation.new m operation commandId input with
          retirement := some plan
          targets := removed } :: undoing, e.onLedger = true := by
      intro e he
      rcases mem_cons.1 he with rfl | he
      · rfl
      · rcases hundoing e he with ⟨id, rfl⟩ | ⟨record, rfl, _⟩
        · rfl
        · rfl
    rcases closeFacts_calm hclose with hcalm | ⟨id, rfl⟩
    · refine .inl (.of_calm fun e he => ?_)
      rcases mem_append.1 he with he | he
      · exact .of_ledger (hbefore e he)
      · cases mem_singleton.1 he
        exact hcalm
    · exact .inr (.tabClosed hbefore hclose)
  | replaced =>
    refine .inl (.of_calm fun e he => ?_)
    rcases mem_cons.1 he with rfl | he
    · exact .of_ledger rfl
    · cases mem_singleton.1 he
      exact ⟨rfl, .inl rfl, fun _ h => by cases h⟩
  | installed _ _ _ _ _ _ htail =>
    refine .inl (.append ?_ (.of_calm htail.calm))
    exact .of_built (fun e he => Creation.installEvents_built he)
      Creation.installEvents_filled
  | published _ _ hhead hfacts _ hactivations htail =>
    refine .inl (.append (.append (.append (.append ?_ ?_) ?_) ?_) ?_)
    · refine .of_calm fun e he => ?_
      obtain ⟨id, o, hwrites, _⟩ := hhead e he
      exact .of_ledger (DomainEvent.onLedger_of_writes hwrites)
    · exact .of_built (fun e he => CreationAssembly.facts_built hfacts he)
        (CreationAssembly.facts_filled hfacts)
    · refine .of_built hactivations (Filled.of_none fun e he pane hpane => ?_)
      exact not_mem_nil ((hactivations e he).within _ hpane)
    · refine .of_calm fun e he => ?_
      unfold Assembly.consumed at he
      split at he
      · cases mem_singleton.1 he
        exact .of_ledger rfl
      · cases he
    · exact .of_calm htail.calm

end Tame

-- ==== panes have tabs

/-- Every pane has a tab. -/
def Stocked (m : JournalModel) : Prop :=
  ∀ {id : UInt32} {p : Pane}, m.panes[id]? = some p → p.tabs ≠ []

variable {e : DomainEvent} {es : List DomainEvent}

section Stocked

variable {m m' : JournalModel}

theorem apply_fills
    (hok : apply m e = .ok m') (hfills : e.fills pane = true)
    (hp : m'.panes[pane]? = some p) : p.tabs ≠ [] := by
  cases e with
  | tabCreated id owner index name surface =>
    cases of_decide_eq_true hfills
    have hok := then_ok (then_ok hok)
    obtain ⟨before, _, hok⟩ := bind_ok hok
    obtain ⟨tabs, htabs, hok⟩ := bind_ok hok
    cases hok
    simp only [BTreeMap.get_insert, if_true] at hp
    cases hp
    exact Effect.insertAt_ne_nil htabs
  | _ => cases hfills

/-- A tame batch leaves no pane without a tab, not even one that waits
for the batch to fill it. -/
theorem Applies.stocked (h : Applies m es m')
    (hkeeps : ∀ e ∈ es, e.strips = false) (hfilled : Filled es)
    (hm : ∀ {id : UInt32} {p : Pane}, m.panes[id]? = some p →
      p.tabs ≠ [] ∨ es.any (DomainEvent.fills id) = true) : Stocked m' := by
  induction es generalizing m with
  | nil =>
    obtain ⟨a, rfl⟩ := h
    intro id p hp
    rcases hm hp with hne | hany
    · exact hne
    · cases hany
  | cons e es ih =>
    obtain ⟨m₁, a, happly, hrest⟩ := h
    refine ih hrest (fun w hw => hkeeps w (mem_cons_of_mem _ hw))
      hfilled.2 fun {id p} hp => ?_
    have hp : m₁.panes[id]? = some p := hp
    cases hfills : e.fills id with
    | true => exact .inl (apply_fills happly hfills hp)
    | false =>
      rcases (apply_grows happly).panes id p hp with
        ⟨before, hbefore, hkept⟩ | hnew
      · rcases hm hbefore with hne | hany
        · exact .inl (hkept (hkeeps e mem_cons_self) hne)
        · rw [any_cons, hfills, Bool.false_or] at hany
          exact .inr hany
      · exact .inr (hfilled.1 id hnew)

theorem WellFormed.tab_pane (hwf : WellFormed m)
    {tab : Tab} (hp : m.panes[pane]? = some p)
    (hid : id ∈ p.tabs) (htab : m.tabs[id]? = some tab) : tab.pane = pane := by
  have hdown := hwf.tabs.down (BTreeMap.view_of_get hp fun p => p.tabs) hid
  rw [BTreeMap.view_of_get htab fun t => t.pane] at hdown
  exact Option.some.inj hdown

theorem moveTab_stocked (hwf : WellFormed m) (h : Stocked m) {index : Nat}
    (hp : m.panes[pane]? = some p) (hid : id ∈ p.tabs)
    (hok : moveTab m id pane index = .ok m') : Stocked m' := by
  obtain ⟨tab, htab, hok⟩ := bind_ok hok
  have hok := then_ok hok
  obtain ⟨panes, hpanes, hok⟩ := bind_ok hok
  obtain ⟨dest, hdest, hok⟩ := bind_ok hok
  obtain ⟨tabs, htabs, hok⟩ := bind_ok hok
  cases hok
  have hown := hwf.tab_pane hp hid (get_eq_ok.1 htab)
  obtain ⟨source, _, rfl⟩ := modify_eq_ok.1 hpanes
  intro k q hq
  simp only [BTreeMap.get_insert] at hq
  by_cases hk : pane = k
  · simp only [hk, if_true] at hq
    cases hq
    exact Effect.insertAt_ne_nil htabs
  · simp only [hown, hk, if_false] at hq
    exact h hq

/-- Taking one of several out of a list leaves some. -/
theorem filter_ne_ne_nil (hnodup : list.Nodup) (hlong : 1 < list.length) :
    list.filter (· ≠ item) ≠ [] := by
  intro hnil
  have hall : ∀ x ∈ list, x = item := by
    intro x hx
    by_contra hne
    have hmem : x ∈ list.filter (· ≠ item) :=
      mem_filter.2 ⟨hx, by simpa using hne⟩
    rw [hnil] at hmem
    cases hmem
  rw [eq_replicate_of_mem hall, nodup_replicate] at hnodup
  omega

theorem dropTab_panes (hok : dropTab m id = .ok m') : m'.panes = m.panes := by
  obtain ⟨tab, _, hok⟩ := bind_ok hok
  obtain ⟨surfaces, _, hok⟩ := bind_ok hok
  cases hok
  rfl

theorem closeTab_stocked (hwf : WellFormed m) (h : Stocked m)
    (hp : m.panes[pane]? = some p)
    (hid : id ∈ p.tabs) (hlong : 1 < p.tabs.length)
    (hok : closeTab m id = .ok m') : Stocked m' := by
  obtain ⟨tab, htab, hok⟩ := bind_ok hok
  obtain ⟨panes, hpanes, hok⟩ := bind_ok hok
  have hown := hwf.tab_pane hp hid (get_eq_ok.1 htab)
  obtain ⟨source, hsource, rfl⟩ := modify_eq_ok.1 hpanes
  rw [hown, hp] at hsource
  cases hsource
  have hsame := dropTab_panes hok
  intro k q hq
  rw [hsame] at hq
  simp only [hown, BTreeMap.get_insert] at hq
  split at hq
  · cases hq
    exact filter_ne_ne_nil
      (hwf.tabs.nodup (BTreeMap.view_of_get hp fun p => p.tabs)) hlong
  · exact h hq

theorem closeFacts_tab
    (h : closeFacts m target = some (.tabClosed id, removed, ids)) :
    ∃ (pane : UInt32) (p : Pane), m.panes[pane]? = some p ∧ id ∈ p.tabs
      ∧ 1 < p.tabs.length := by
  obtain ⟨actual, hactual, hevent⟩ := closeFacts_closing h
  cases actual with
  | tab =>
    cases hevent
    exact closeActual_closable hactual
  | _ => cases hevent

theorem Applies.sameEntities
    (h : Applies m es m') (hes : ∀ e ∈ es, e.onLedger = true) :
    SameEntities m m' := by
  refine h.preserves (I := SameEntities m) (fun _ _ same => { same with })
    (fun _ _ e he same hok => ?_) ⟨rfl, rfl, rfl, rfl, rfl, rfl, rfl⟩
  obtain ⟨hstep, -⟩ := apply_onLedger (hes e he) hok
  exact {
    categories := hstep.categories.trans same.categories
    categoryOrder := hstep.categoryOrder.trans same.categoryOrder
    workspaces := hstep.workspaces.trans same.workspaces
    workspaceOrder := hstep.workspaceOrder.trans same.workspaceOrder
    panes := hstep.panes.trans same.panes
    tabs := hstep.tabs.trans same.tabs
    surfaces := hstep.surfaces.trans same.surfaces }

end Stocked

theorem Stocked.step {m m' : JournalModel}
    (hwf : WellFormed m) (h : Stocked m) (hemits : Emits m es)
    (hes : Applies m es m') : Stocked m' := by
  rcases hemits.tame with htame | hspecial
  · exact hes.stocked htame.keepsTabs htame.filled fun hp => .inl (h hp)
  · cases hspecial with
    | categoryCreated =>
      refine hes.stocked (fun e he => ?_)
        ⟨fun pane hpane => (by cases mem_singleton.1 hpane), trivial⟩
        fun hp => .inl (h hp)
      cases mem_singleton.1 he
      rfl
    | categoryMoved =>
      refine hes.stocked (fun e he => ?_)
        ⟨fun pane hpane => (by cases hpane), trivial⟩
        fun hp => .inl (h hp)
      cases mem_singleton.1 he
      rfl
    | tabMoved hp hid =>
      obtain ⟨m₁, a, hok, rfl⟩ := hes.single
      exact moveTab_stocked hwf h hp hid hok
    | @opened before name hbefore =>
      refine hes.stocked (fun e he => ?_)
        (hbefore.filled.append ?_) fun hp => .inl (h hp)
      · rcases mem_append.1 he with he | he
        · exact hbefore.keepsTabs e he
        · unfold Bootstrap.normalEvents at he
          split at he
          · cases he
          · cases mem_singleton.1 he
            rfl
      · unfold Bootstrap.normalEvents
        split
        · exact trivial
        · exact ⟨fun pane hpane => (by cases mem_singleton.1 hpane),
            trivial⟩
    | tabClosed hbefore hclose =>
      obtain ⟨between, hledger, hlast⟩ := hes.split
      have same := hledger.sameEntities hbefore
      obtain ⟨m₁, a, hok, rfl⟩ := hlast.single
      obtain ⟨pane, p, hp, hid, hlong⟩ := closeFacts_tab hclose
      have hstocked : Stocked between := by
        intro k q hq
        rw [same.panes] at hq
        exact h hq
      intro k q hq
      exact closeTab_stocked (same.forest hwf) hstocked
        (same.panes ▸ hp) hid hlong hok hq

-- ==== the category `normal`

/-- If there is a category `normal`, it comes first. -/
def Headed (m : JournalModel) : Prop :=
  0 ∈ m.categoryOrder → m.categoryOrder.head? = some 0

section Headed

variable {m m' : JournalModel} {es : List DomainEvent}

/-- A list of distinct ids is shorter than any position. -/
theorem nodup_length (h : ids.Nodup) : ids.length ≤ UInt32.size := by
  have hmap : (ids.map UInt32.toNat).Nodup :=
    h.map fun a b hab => UInt32.toNat_inj.1 hab
  have hsub : ids.map UInt32.toNat ⊆ List.range (UInt32.size) := by
    intro n hn
    obtain ⟨id, _, rfl⟩ := mem_map.1 hn
    exact mem_range.2 id.toNat_lt
  have hle := (subperm_of_subset hmap hsub).length_le
  rwa [length_map, length_range] at hle

/-- Putting an id behind the first keeps the first. -/
theorem insertAt_head {list' : List UInt32} {index : Nat}
    {first : UInt32} (hfirst : list.head? = some first)
    (hindex : index ≠ 0) (hok : insertAt list index item = .ok list') :
    list'.head? = some first := by
  obtain ⟨_, hok⟩ := guard_ok hok
  cases hok
  cases list with
  | nil => cases hfirst
  | cons head rest =>
    cases index with
    | zero => exact absurd rfl hindex
    | succ index => simpa using hfirst

/-- Taking another id out keeps the first. -/
theorem filter_head {first : UInt32}
    (hfirst : list.head? = some first) (hne : first ≠ item) :
    (list.filter (· ≠ item)).head? = some first := by
  cases list with
  | nil => cases hfirst
  | cons head rest =>
    cases hfirst
    simp [hne]

theorem apply_categoryOrder
    (hkeeps : e.reordersCategories = false) (hok : apply m e = .ok m') :
    m'.categoryOrder = m.categoryOrder := by
  cases hkind : e.onLedger with
  | true => exact (apply_onLedger hkind hok).1.categoryOrder
  | false => exact (apply_effect hkind hok).order hkeeps

/-- What a step does to `normal`: it stays, and stays first. -/
structure NormalKept (m m' : JournalModel) : Prop where
  there : 0 ∈ m.categoryOrder → 0 ∈ m'.categoryOrder
  first : Headed m → Headed m'

theorem NormalKept.refl (m : JournalModel) : NormalKept m m :=
  ⟨fun h => h, fun h => h⟩

theorem NormalKept.trans {m'' : JournalModel} (h : NormalKept m m')
    (h' : NormalKept m' m'') : NormalKept m m'' :=
  ⟨fun hm => h'.there (h.there hm), fun hm => h'.first (h.first hm)⟩

theorem NormalKept.same (h : m'.categoryOrder = m.categoryOrder) :
    NormalKept m m' := by
  constructor
  · rw [h]
    exact fun hm => hm
  · unfold Headed
    rw [h]
    exact fun hm => hm

theorem apply_normalKept (hkeeps : e.KeepsNormal)
    (hok : apply m e = .ok m') : NormalKept m m' := by
  rcases hkeeps with hkeeps | ⟨id, hid, rfl⟩
  · exact .same (apply_categoryOrder hkeeps hok)
  · have hok := then_ok hok
    obtain ⟨_, hok⟩ := guard_ok hok
    cases hok
    refine ⟨fun hmem => ?_, fun hfirst hmem => ?_⟩
    · exact mem_filter.2 ⟨hmem, by simpa using hid.symm⟩
    · exact filter_head (hfirst (mem_filter.1 hmem).1) hid.symm

theorem Applies.normalKept (h : Applies m es m')
    (hes : ∀ e ∈ es, e.KeepsNormal) : NormalKept m m' := by
  refine h.preserves (I := NormalKept m)
    (fun _ _ hkept => ⟨hkept.there, hkept.first⟩)
    (fun _ _ e he hkept hok => ?_) (.refl m)
  exact hkept.trans (apply_normalKept (hes e he) hok)

theorem opened_normal {before : List DomainEvent} {name : String}
    (hwf : WellFormed m) (hbefore : ∀ e ∈ before, e.KeepsNormal)
    (h : Applies m (before ++ Bootstrap.normalEvents m name) m') :
    0 ∈ m'.categoryOrder ∧ (Headed m → Headed m') := by
  obtain ⟨between, hfirst, hlast⟩ := h.split
  have hkept := hfirst.normalKept hbefore
  unfold Bootstrap.normalEvents at hlast
  split at hlast
  · rename_i hthere
    obtain ⟨a, rfl⟩ := hlast
    have hmem := hwf.categories.mem_iff.2
      (Std.ExtTreeMap.contains_iff_mem.1 hthere)
    exact ⟨hkept.there hmem, hkept.first⟩
  · obtain ⟨m₁, a, hok, rfl⟩ := hlast.single
    have hok := then_ok hok
    obtain ⟨order, horder, hok⟩ := bind_ok hok
    cases hok
    obtain ⟨_, horder⟩ := guard_ok horder
    cases horder
    refine ⟨?_, fun _ _ => ?_⟩
    · simp
    · simp

theorem Special.normalKept (hwf : WellFormed m) (hspecial : Special m es)
    (h : Applies m es m') : NormalKept m m' := by
  cases hspecial with
  | @categoryCreated id name hid =>
    obtain ⟨m₁, a, hok, rfl⟩ := h.single
    have hok := then_ok hok
    obtain ⟨order, horder, hok⟩ := bind_ok hok
    cases hok
    have hmem : ∀ {x : UInt32}, x ∈ order ↔ x ∈ id :: m.categoryOrder :=
      (insertAt_eq_ok horder).mem_iff
    refine ⟨fun hthere => hmem.2 (mem_cons_of_mem _ hthere),
      fun hfirst hthere => ?_⟩
    -- the new category goes last, behind `normal`
    have hold : 0 ∈ m.categoryOrder := by
      rcases mem_cons.1 (hmem.1 hthere) with h0 | hold
      · exact absurd h0.symm hid
      · exact hold
    refine insertAt_head (hfirst hold) ?_ horder
    have hpos := length_pos_of_mem hold
    have hlength := nodup_length hwf.categories.nodup
    unfold UInt32.size at hlength
    unfold usizeLen
    rw [UInt64.toNat_ofNat', Nat.mod_eq_of_lt (by omega)]
    omega
  | @categoryMoved id index hid hindex =>
    obtain ⟨m₁, a, hok, rfl⟩ := h.single
    obtain ⟨order, horder, hok⟩ := bind_ok hok
    cases hok
    have hmem : ∀ {x : UInt32}, x ∈ order ↔ x ∈ m.categoryOrder :=
      (moveIn_eq_ok horder).mem_iff
    refine ⟨fun hthere => hmem.2 hthere, fun hfirst hthere => ?_⟩
    obtain ⟨_, horder⟩ := guard_not_ok horder
    refine insertAt_head ?_ ?_ horder
    · have hhead := hfirst (hmem.1 hthere)
      cases hlist : m.categoryOrder with
      | nil =>
        rw [hlist] at hhead
        cases hhead
      | cons head rest =>
        rw [hlist] at hhead
        cases hhead
        rw [erase_cons_tail (by simpa using hid.symm)]
        rfl
    · intro hzero
      exact hindex (UInt64.toNat_inj.1 hzero)
  | tabMoved =>
    refine h.normalKept fun e he => ?_
    cases mem_singleton.1 he
    exact .inl rfl
  | opened hbefore =>
    obtain ⟨hthere, hfirst⟩ := opened_normal hwf hbefore.keepsNormal h
    exact ⟨fun _ => hthere, hfirst⟩
  | tabClosed hbefore =>
    refine h.normalKept fun e he => ?_
    rcases mem_append.1 he with he | he
    · exact (Calm.of_ledger (hbefore e he)).keepsNormal
    · cases mem_singleton.1 he
      exact .inl rfl

theorem Emits.normalKept (hwf : WellFormed m) (hemits : Emits m es)
    (h : Applies m es m') : NormalKept m m' := by
  rcases hemits.tame with htame | hspecial
  · exact h.normalKept htame.keepsNormal
  · exact hspecial.normalKept hwf h

end Headed

-- ==== results

/-- What a state satisfies after the engine was opened. -/
structure Composite (m : JournalModel) : Prop where
  panes : ∀ (id : UInt32) (p : Pane), m.panes[id]? = some p → p.tabs ≠ []
  normal : (0 : UInt32) ∈ m.categories
  normalFirst : m.categoryOrder.head? = some 0
  undoShort : m.undoRecords.length ≤ 10
  undoDistinct : (m.undoRecords.map UndoRecord.id).Nodup
  undoOwned : ∀ record ∈ m.undoRecords, ∃ op plan,
    m.operations[record.id]? = some op ∧ op.retirement = some plan

/-- What every reachable state satisfies. -/
structure Orderly (m : JournalModel) : Prop where
  stocked : Stocked m
  headed : Headed m

theorem Reachable.orderly {m : JournalModel} (h : Reachable m) : Orderly m := by
  refine Reachable.induct (I := Orderly) ?_
    (fun m m' facts hm horderly hstep => ?_) h
  · refine ⟨fun {id p} hp => ?_, fun hmem => ?_⟩
    · simp [JournalModel.default] at hp
    · cases hmem
  · have hemits := hstep.emits hm.recorded.keyed
    exact ⟨Stocked.step hm.wellFormed horderly.stocked hemits hstep.applies,
      (hemits.normalKept hm.wellFormed hstep.applies).first
        horderly.headed⟩

theorem Runs.normalThere {m m' : JournalModel} (hm : Reachable m)
    (h : Runs m m') (hthere : 0 ∈ m.categoryOrder) : 0 ∈ m'.categoryOrder := by
  induction h with
  | refl => exact hthere
  | @tail between last hrun hlast ih =>
    obtain ⟨facts, hstep⟩ := hlast
    have hbetween : Reachable between :=
      Relation.ReflTransGen.trans hm hrun
    have hemits := hstep.emits hbetween.recorded.keyed
    exact (hemits.normalKept hbetween.wellFormed hstep.applies).there ih

/-- `m'` is `m` after an accepted `OpenEngine`. -/
def Opens (m m' : JournalModel) : Prop :=
  ∃ incarnation reset name decision, ∃ b : DomainBatch,
    decideStructure m (.openEngine incarnation reset name) = .ok decision
      ∧ b.facts = decision.events ∧ evolve m b = .ok m'

theorem Opens.normalThere {m m' : JournalModel} (hwf : WellFormed m)
    (h : Opens m m') : 0 ∈ m'.categoryOrder := by
  obtain ⟨incarnation, reset, name, decision, b, hdecide, hfacts, hevolve⟩ := h
  have happlies := evolve_applies hevolve
  have hopen := decideStructure_decides hdecide
  have hopen := then_ok hopen
  obtain ⟨⟨started, current⟩, hstarted, hopen⟩ := bind_ok hopen
  cases hopen
  rw [hfacts] at happlies
  exact (opened_normal hwf (fun e he =>
    (opened_calm (Bootstrap.nextIncarnation_started hstarted) e
      he).keepsNormal) happlies).1

/-- Over every command run, the invariants hold in every state after an
`OpenEngine`. -/
theorem composite_after_open {m₀ m₁ m : JournalModel}
    (hm₀ : Reachable m₀) (hopen : Opens m₀ m₁) (hrun : Runs m₁ m) :
    Composite m := by
  have hm₁ : Reachable m₁ := by
    obtain ⟨_, _, _, decision, b, hdecide, hfacts, hevolve⟩ := hopen
    exact Relation.ReflTransGen.tail hm₀
      ⟨decision.events, ⟨_, decision, hdecide, rfl⟩, b, hfacts, hevolve⟩
  have hm : Reachable m := Relation.ReflTransGen.trans hm₁ hrun
  have hthere := hrun.normalThere hm₁ (hopen.normalThere hm₀.wellFormed)
  have hundo := hm.replays.undoList
  exact {
    panes := fun _ _ hp => hm.orderly.stocked hp
    normal := hm.wellFormed.categories.mem_iff.1 hthere
    normalFirst := hm.orderly.headed hthere
    undoShort := hundo.short
    undoDistinct := hundo.distinct
    undoOwned := hundo.owned }

theorem runCommand_opens {m m' : JournalModel} {incarnation : UInt64}
    {reset : Bool} {name : String} {facts : List DomainEvent}
    (h : runCommand m (.openEngine incarnation reset name)
      = .ok (facts, m')) : Opens m m' := by
  obtain ⟨decision, b, hdecide, hevents, hfacts, hevolve⟩ :=
    runCommand_decides h
  subst hevents
  exact ⟨_, _, _, decision, b, hdecide, hfacts, hevolve⟩

/-- Create a workspace, close it and create another. -/
def compositeRun : List StructuralCommand :=
  createWorkspaceRun ⟨"create"⟩ 1 2 3 4
    ++ [.close ⟨"close"⟩ "command" ⟨1⟩ (.workspace 1)
      [⟨4, "terminal", some 1⟩] (some ⟨⟨7⟩, []⟩) true false]
    ++ createWorkspaceRun ⟨"again"⟩ 5 6 7 8

theorem composite_after_open_created :
    ∃ m, m.undoRecords.length = 1 ∧ m.panes.size = 1 ∧ Composite m := by
  obtain ⟨⟨facts, m₁⟩, hopen, hcheck⟩ := exists_of_check (by decide +kernel :
    (runCommand JournalModel.default
        (.openEngine 0 false "default")).toOption.any
      (fun r => (runCommands r.2 compositeRun).toOption.any
        (fun r => decide (r.2.undoRecords.length = 1
          ∧ r.2.panes.size = 1))) = true)
  obtain ⟨⟨batches, m⟩, hrun, hcheck⟩ := exists_of_check hcheck
  obtain ⟨hrecords, hpanes⟩ := of_decide_eq_true hcheck
  exact ⟨m, hrecords, hpanes,
    composite_after_open .refl (runCommand_opens hopen)
      (runCommands_runs hrun)⟩

end Tasty.Core
