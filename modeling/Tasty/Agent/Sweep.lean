/-
What a purge deletes (`crates/tasty-agent/src/task/store/sweep.rs`).

Of the tasks that the filter matches, those go that nothing refers to from
outside what goes: the greatest such set (`sweep_deletes_greatest`). A hash
set of ids is a finite set here; the answers list it in order.
-/
import Mathlib.Data.Finset.Sort
import Tasty.Agent.Changes
import Tasty.Lib.Shrink

namespace Tasty.Agent

open List

structure TaskPurgeFilter where
  states : Option (List String)
  olderThanMs : Option UInt64
  nowMs : UInt64

structure TaskSweepPlan where
  deleted : List TaskId
  retained : List TaskId
  skipped : List TaskId

namespace TaskPurgeFilter

/-- Its state is one of those asked for. -/
def matchesState (f : TaskPurgeFilter) (t : Task) : Bool :=
  match f.states with
  | none => true
  | some states => states.any fun s => s = t.state.name

/-- It is as old as asked for. -/
def matchesAge (f : TaskPurgeFilter) (t : Task) : Bool :=
  match f.olderThanMs with
  | none => true
  | some threshold =>
    threshold.toNat ≤ f.nowMs.toNat - (t.finishedAt.getD t.createdAt).toNat

def admitsTask (f : TaskPurgeFilter) (t : Task) : Bool :=
  !isRunning t && f.matchesState t && f.matchesAge t

end TaskPurgeFilter

/-- The tasks that the filter admits. -/
def sweepCandidates (all : List Task) (filter : TaskPurgeFilter) :
    Finset TaskId :=
  ((all.filter filter.admitsTask).map Task.id).toFinset

/-- It is referred to from outside. -/
def isBlocked (all : List Task) (eligible : Finset TaskId) (id : TaskId) :
    Bool :=
  (referencingTaskIds all id).any fun r => r ∉ eligible

/-- `plan_sweep`, of the tasks that are listed. -/
def planSweep (all : List Task) (filter : TaskPurgeFilter)
    (keep : Finset TaskId) : TaskSweepPlan :=
  let candidates := sweepCandidates all filter
  let skipped := candidates ∩ keep
  let candidates := candidates \ keep
  let eligible := shrink (isBlocked all) candidates
  { deleted := eligible.sort (· ≤ ·)
    retained := (candidates \ eligible).sort (· ≤ ·)
    skipped := skipped.sort (· ≤ ·) }

-- ==== what is deleted

/-- The first task refers to the second. -/
def Refers (all : List Task) (a b : TaskId) : Prop :=
  ∃ t ∈ all, t.id = a ∧ b ∈ referencedTaskIds t

/-- A purge may delete it. -/
def Deletable (all : List Task) (filter : TaskPurgeFilter)
    (keep : Finset TaskId) (id : TaskId) : Prop :=
  (∃ t ∈ all, t.id = id ∧ filter.admitsTask t = true) ∧ id ∉ keep

/-- A set of ids that can be deleted together. -/
structure Sweepable (all : List Task) (filter : TaskPurgeFilter)
    (keep : Finset TaskId) (S : Set TaskId) : Prop where
  deletable : ∀ id ∈ S, Deletable all filter keep id
  closed : ∀ t ∈ all, t.id ∉ S → ∀ r ∈ referencedTaskIds t, r ∉ S

section Plan

variable {all : List Task} {filter : TaskPurgeFilter} {keep : Finset TaskId}
  {id : TaskId}

theorem mem_referencing {a b : TaskId} :
    a ∈ referencingTaskIds all b ↔ Refers all a b := by
  unfold referencingTaskIds Refers
  simp only [mem_map, mem_filter, contains_iff_mem]
  constructor
  · rintro ⟨t, ⟨ht, hb⟩, rfl⟩
    exact ⟨t, ht, rfl, hb⟩
  · rintro ⟨t, ht, rfl, hb⟩
    exact ⟨t, ⟨ht, hb⟩, rfl⟩

theorem mem_candidates :
    id ∈ sweepCandidates all filter \ keep ↔ Deletable all filter keep id := by
  unfold sweepCandidates Deletable
  rw [Finset.mem_sdiff, mem_toFinset, mem_map]
  simp only [mem_filter]
  constructor
  · rintro ⟨⟨t, ⟨ht, hadmits⟩, rfl⟩, hkeep⟩
    exact ⟨⟨t, ht, rfl, hadmits⟩, hkeep⟩
  · rintro ⟨⟨t, ht, rfl, hadmits⟩, hkeep⟩
    exact ⟨⟨t, ⟨ht, hadmits⟩, rfl⟩, hkeep⟩

theorem isBlocked_iff {eligible : Finset TaskId} :
    isBlocked all eligible id = true ↔ ∃ a, Refers all a id ∧ a ∉ eligible := by
  unfold isBlocked
  simp only [any_eq_true, decide_eq_true_eq, mem_referencing]

theorem mem_deleted : id ∈ (planSweep all filter keep).deleted
    ↔ id ∈ shrink (isBlocked all) (sweepCandidates all filter \ keep) :=
  Finset.mem_sort _

theorem planSweep_sweepable : Sweepable all filter keep
    {id | id ∈ (planSweep all filter keep).deleted} where
  deletable id hid :=
    mem_candidates.1 (shrink_subset _ (mem_deleted.1 hid))
  closed t ht hout r hr hin := by
    have hgood := shrink_stable _ r (mem_deleted.1 hin)
    rw [Bool.eq_false_iff] at hgood
    exact hgood (isBlocked_iff.2 ⟨t.id, ⟨t, ht, rfl, hr⟩,
      fun hmem => hout (mem_deleted.2 hmem)⟩)

theorem Sweepable.subset {S : Set TaskId} (h : Sweepable all filter keep S) :
    S ⊆ {id | id ∈ (planSweep all filter keep).deleted} := by
  have hall : S ⊆ ↑(shrink (isBlocked all)
      (sweepCandidates all filter \ keep)) := by
    refine subset_shrink
      (fun id hid => mem_candidates.2 (h.deletable id hid)) ?_
    intro u hu id hid
    rw [Bool.eq_false_iff, Ne, isBlocked_iff]
    rintro ⟨a, ⟨t, ht, rfl, hr⟩, hout⟩
    exact h.closed t ht (fun hin => hout (hu hin)) id hr hid
  exact fun id hid => mem_deleted.2 (hall hid)

/-- A task that may go and stays is needed, over any number of references,
by a task that may not go. -/
theorem needed_of_not_deleted (hid : Deletable all filter keep id)
    (hstays : id ∉ (planSweep all filter keep).deleted) :
    ∃ t ∈ all, ¬ Deletable all filter keep t.id
      ∧ Relation.TransGen (Refers all) t.id id := by
  by_contra hno
  -- what nothing needs that must stay could go as well
  have hfree : Sweepable all filter keep {id | Deletable all filter keep id
      ∧ ¬ ∃ t ∈ all, ¬ Deletable all filter keep t.id
        ∧ Relation.TransGen (Refers all) t.id id} := by
    refine ⟨fun id h => h.1, fun t ht hout r hr hin => ?_⟩
    have hedge : Refers all t.id r := ⟨t, ht, rfl, hr⟩
    by_cases hmay : Deletable all filter keep t.id
    · refine hout ⟨hmay, ?_⟩
      rintro ⟨u, hu, hmust, hpath⟩
      exact hin.2 ⟨u, hu, hmust, hpath.tail hedge⟩
    · exact hin.2 ⟨t, ht, hmay, .single hedge⟩
  exact hstays (hfree.subset ⟨hid, hno⟩)

end Plan

-- ==== applying the plan

theorem resolves_after {all : List Task} {filter : TaskPurgeFilter}
    {keep : Finset TaskId} {t : Task} {r : TaskId} (ht : t ∈ all)
    (hstays : t.id ∉ (planSweep all filter keep).deleted)
    (hr : r ∈ referencedTaskIds t) (hbefore : ∃ u ∈ all, u.id = r) :
    ∃ u ∈ all, u.id ∉ (planSweep all filter keep).deleted ∧ u.id = r := by
  obtain ⟨u, hu, rfl⟩ := hbefore
  have hsafe : Sweepable all filter keep _ := planSweep_sweepable
  exact ⟨u, hu, hsafe.closed t ht hstays u.id hr, rfl⟩

/-- Any write. -/
def AnyWrite (_ _ : Store) : Prop := True

section Apply

variable {d : TaskDisk}

theorem runs_pruneGraphRecords :
    Runs AnyWrite pruneGraphRecords d fun _ d' =>
      d'.store.list = d.store.list := by
  unfold pruneGraphRecords
  refine Runs.read_bind ?_
  let I := fun d₁ : TaskDisk => d₁.store.list = d.store.list
  refine Runs.forM (I := I) ?_ rfl
  intro r _ d₁ hd₁
  refine Runs.ite (fun _ => .pure hd₁) fun _ => ?_
  refine .commit trivial fun d₂ hd₂ => ?_
  show d₂.store.list = d.store.list
  rw [hd₂]
  exact hd₁

variable [TaskHost]

theorem runs_deleteAll {ids : List TaskId} (hunique : d.store.UniqueIds) :
    Runs AnyWrite (deleteAll ids) d fun _ d' =>
      ∀ u, u ∈ d'.store.list ↔ u ∈ d.store.list ∧ u.id ∉ ids := by
  induction ids generalizing d with
  | nil => exact .pure fun u => by simp
  | cons id ids ih =>
    show Runs AnyWrite (deleteTask id >>= fun _ => deleteAll ids) d _
    have hfirst : Runs AnyWrite (deleteTask id) d fun _ d' =>
        d'.store.UniqueIds
          ∧ ∀ u, u ∈ d'.store.list ↔ u ∈ d.store.list ∧ u.id ≠ id := by
      refine runs_deleteTask (fun _ => trivial) fun k d' hk hsome hd' => ?_
      rw [hd']
      refine ⟨hunique.erase k, fun u => ?_⟩
      rw [hunique.mem_erase hsome, hk]
    refine hfirst.bind fun _ d₁ _ ⟨hunique₁, hlist₁⟩ => ?_
    refine (ih hunique₁).weaken fun _ d₂ hlist₂ u => ?_
    rw [hlist₂, hlist₁, mem_cons, not_or, and_assoc]

/-- A plan that was applied took its tasks out, and nothing else. -/
theorem applySweepPlan_list {deleted : List TaskId}
    (hunique : d.store.UniqueIds)
    (hok : (applySweepPlan deleted d).1 = .ok ()) (u : Task) :
    u ∈ (applySweepPlan deleted d).2.store.list
      ↔ u ∈ d.store.list ∧ u.id ∉ deleted := by
  have hruns : Runs AnyWrite (applySweepPlan deleted) d fun _ d' =>
      ∀ u, u ∈ d'.store.list ↔ u ∈ d.store.list ∧ u.id ∉ deleted := by
    unfold applySweepPlan
    refine (runs_deleteAll hunique).bind fun _ d₁ _ hlist => ?_
    exact runs_pruneGraphRecords.weaken fun _ d₂ hsame u => by
      rw [hsame, hlist]
  exact hruns.2 () hok u

end Apply

/-- A purge deletes the greatest set that nothing outside it refers to, so
that what stays refers to nothing that goes; what it spares is needed by a
task that must stay. A store that applied the plan has the tasks that were
to stay. -/
theorem sweep_deletes_greatest [TaskHost] [ReportDigest] :
    (∀ (all : List Task) (filter : TaskPurgeFilter) (keep : Finset TaskId),
      IsGreatest {S | Sweepable all filter keep S}
          {id | id ∈ (planSweep all filter keep).deleted}
        ∧ (∀ t ∈ all, t.id ∉ (planSweep all filter keep).deleted →
          ∀ r ∈ referencedTaskIds t, (∃ u ∈ all, u.id = r) →
          ∃ u ∈ all, u.id ∉ (planSweep all filter keep).deleted ∧ u.id = r)
        ∧ ∀ id, Deletable all filter keep id →
          id ∉ (planSweep all filter keep).deleted →
          ∃ t ∈ all, ¬ Deletable all filter keep t.id
            ∧ Relation.TransGen (Refers all) t.id id)
    ∧ ∀ (d : TaskDisk) (deleted : List TaskId),
      ReachableStore (fun _ o => o.isWhole = true) d →
      (applySweepPlan deleted d).1 = .ok () →
      ∀ t, t ∈ (applySweepPlan deleted d).2.store.list
        ↔ t ∈ d.store.list ∧ t.id ∉ deleted :=
  ⟨fun _ _ _ => ⟨⟨planSweep_sweepable, fun _ h => h.subset⟩,
    fun _ ht hstays _ => resolves_after ht hstays,
    fun _ hid hstays => needed_of_not_deleted hid hstays⟩,
    fun _ _ hd => applySweepPlan_list (uniqueIds_of_reachable hd)⟩

end Tasty.Agent
