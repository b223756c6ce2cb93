/-
How the tasks of the workspaces are grouped
(`crates/tasty-agent/src/task/dag.rs`): each task is in one group, the
groups without a name are the components of the references, and neither
depends on the order of the tasks.
-/
import Mathlib.Data.List.Pairwise
import Tasty.Agent.Dag

namespace Tasty.Agent

open DagSummary List

-- ==== the components

/-- One task of a pool refers to another one. -/
structure Related (pool : List ListedTask) (t u : ListedTask) : Prop where
  left : t ∈ pool
  right : u ∈ pool
  refers : u.id ∈ referencedTaskIds t.toTask ∨ t.toTask.fallbackOf = some u.id

/-- A way leads from one to the other, whatever its directions. -/
def Connected (pool : List ListedTask) : ListedTask → ListedTask → Prop :=
  Relation.EqvGen (Related pool)

/-- No two tasks of the list have one id. -/
def DistinctIds (tasks : List ListedTask) : Prop :=
  (tasks.map (·.id)).Nodup

variable {group : List ListedTask}

section Components

variable {pool : List ListedTask} {t u : ListedTask}

variable (h : DistinctIds pool)

include h

theorem DistinctIds.eq (ht : t ∈ pool) (hu : u ∈ pool)
    (hid : t.id = u.id) : t = u :=
  inj_on_of_nodup_map h ht hu hid

theorem DistinctIds.nodup : pool.Nodup :=
  List.Nodup.of_map _ h

theorem DistinctIds.sublist {part : List ListedTask}
    (hpart : part.Sublist pool) : DistinctIds part :=
  List.Nodup.sublist (hpart.map _) h

theorem DistinctIds.perm {pool' : List ListedTask}
    (hperm : pool.Perm pool') : DistinctIds pool' :=
  (hperm.map _).nodup_iff.1 h

theorem poolIndex_eq {id : TaskId} {j : Fin pool.length} :
    poolIndex pool id = some j ↔ (pool.get j).id = id := by
  unfold poolIndex
  constructor
  · intro hfind
    simpa using List.find?_some hfind
  · intro hid
    cases hfind : (finRange pool.length).reverse.find?
        fun i => (pool.get i).id = id with
    | none =>
      have hno := List.find?_eq_none.1 hfind j (by simp)
      exact absurd (decide_eq_true hid) hno
    | some i =>
      have hi : (pool.get i).id = id := by
        simpa using List.find?_some hfind
      have heq := h.eq (get_mem pool i) (get_mem pool j)
        (hi.trans hid.symm)
      rw [(nodup_iff_injective_get.1 h.nodup) heq]

theorem mem_poolEdges {i j : Fin pool.length} :
    (i, j) ∈ poolEdges pool ↔ Related pool (pool.get i) (pool.get j) := by
  unfold poolEdges
  simp only [mem_flatMap, mem_filterMap, mem_append,
    Option.mem_toList, Option.map_eq_some_iff]
  constructor
  · rintro ⟨i', -, id, hid, j', hj, heq⟩
    obtain ⟨rfl, rfl⟩ := Prod.mk.inj heq
    rw [poolIndex_eq h] at hj
    rw [← hj] at hid
    exact ⟨get_mem _ _, get_mem _ _, hid⟩
  · intro hrel
    exact ⟨i, mem_finRange i, (pool.get j).id, hrel.refers, j,
      (poolIndex_eq h).2 rfl, rfl⟩

/-- Uniting indices is connecting tasks. -/
theorem eqvGen_edges {i j : Fin pool.length} :
    Relation.EqvGen (fun a b => (a, b) ∈ poolEdges pool) i j
      ↔ Connected pool (pool.get i) (pool.get j) := by
  constructor
  · intro hij
    induction hij with
    | rel _ _ hmem => exact .rel _ _ ((mem_poolEdges h).1 hmem)
    | refl => exact .refl _
    | symm _ _ _ ih => exact ih.symm
    | trans _ _ _ _ _ ih ih' => exact ih.trans _ _ _ ih'
  · have hinj := nodup_iff_injective_get.1 h.nodup
    have hway : ∀ t u, Connected pool t u → t = u ∨ ∃ i j,
        pool.get i = t ∧ pool.get j = u
          ∧ Relation.EqvGen (fun a b => (a, b) ∈ poolEdges pool) i j := by
      intro t u htu
      induction htu with
      | rel t u hrel =>
        obtain ⟨i, rfl⟩ := List.mem_iff_get.1 hrel.left
        obtain ⟨j, rfl⟩ := List.mem_iff_get.1 hrel.right
        exact .inr ⟨i, j, rfl, rfl, .rel _ _ ((mem_poolEdges h).2 hrel)⟩
      | refl => exact .inl rfl
      | symm t u _ ih =>
        rcases ih with rfl | ⟨i, j, hi, hj, hij⟩
        · exact .inl rfl
        · exact .inr ⟨j, i, hj, hi, hij.symm⟩
      | trans t u v _ _ ih ih' =>
        rcases ih with rfl | ⟨i, j, hi, hj, hij⟩
        · exact ih'
        · rcases ih' with rfl | ⟨j', k, hj', hk, hjk⟩
          · exact .inr ⟨i, j, hi, hj, hij⟩
          · obtain rfl := hinj (hj.trans hj'.symm)
            exact .inr ⟨i, k, hi, hk, hij.trans _ _ _ hjk⟩
    intro hij
    rcases hway _ _ hij with heq | ⟨i', j', hi, hj, hij⟩
    · rw [hinj heq]
      exact .refl _
    · rwa [hinj hi, hinj hj] at hij

omit h

/-- Searching moves parents, but finds the representatives. -/
theorem findAll_eq {n : Nat} {u u' : UnionFind n}
    (h : ∀ z, u'.root z = u.root z) (l : List (Fin n)) :
    findAll u' l = l.map fun i => (u.root i, i) := by
  induction l generalizing u' with
  | nil => rfl
  | cons i l ih =>
    obtain ⟨hroot, hrest⟩ := u'.find_spec i
    unfold findAll
    rw [ih fun z => (hrest z).trans (h z), hroot, h, map_cons]

theorem components_eq : weaklyConnectedComponents pool
    = (grouped Prod.fst ((finRange pool.length).map fun i =>
        ((poolClasses pool).root i, i))).map
      fun entry => entry.2.map fun p => pool.get p.2 := by
  unfold weaklyConnectedComponents
  dsimp only
  rw [findAll_eq fun z => rfl]

theorem components_perm :
    (weaklyConnectedComponents pool).flatten.Perm pool := by
  rw [components_eq, ← flatMap_def, ← map_flatMap]
  refine (grouped_perm.map _).trans (.of_eq ?_)
  rw [map_map]
  exact map_get_finRange pool

theorem same_poolClasses (h : DistinctIds pool) {i j : Fin pool.length} :
    (poolClasses pool).root i = (poolClasses pool).root j
      ↔ Connected pool (pool.get i) (pool.get j) := by
  have hjoins := UnionFind.joins_start.foldl (poolEdges pool)
  rw [← eqvGen_edges h]
  exact hjoins i j

theorem mem_components (h : DistinctIds pool)
    (hgroup : group ∈ weaklyConnectedComponents pool) (ht : t ∈ group) :
    u ∈ group ↔ u ∈ pool ∧ Connected pool t u := by
  rw [components_eq, mem_map] at hgroup
  obtain ⟨⟨r, entries⟩, hentry, rfl⟩ := hgroup
  have hmem : ∀ v, v ∈ entries.map (fun p => pool.get p.2) ↔
      ∃ i, (poolClasses pool).root i = r ∧ pool.get i = v := by
    have hentries : entries = _ := (mem_grouped.1 hentry).2
    intro v
    rw [hentries]
    simp only [mem_map, mem_filter, decide_eq_true_eq]
    constructor
    · rintro ⟨p, ⟨⟨i, -, rfl⟩, hr⟩, rfl⟩
      exact ⟨i, hr, rfl⟩
    · rintro ⟨i, hr, rfl⟩
      exact ⟨(_, i), ⟨⟨i, mem_finRange i, rfl⟩, hr⟩, rfl⟩
  obtain ⟨i, hi, rfl⟩ := (hmem t).1 ht
  rw [hmem u]
  constructor
  · rintro ⟨j, hj, rfl⟩
    exact ⟨get_mem _ _, (same_poolClasses h).1 (hi.trans hj.symm)⟩
  · rintro ⟨hu, hconn⟩
    obtain ⟨j, rfl⟩ := List.mem_iff_get.1 hu
    exact ⟨j, ((same_poolClasses h).2 hconn).symm.trans hi, rfl⟩

theorem exists_component (ht : t ∈ pool) :
    ∃ group ∈ weaklyConnectedComponents pool, t ∈ group := by
  obtain ⟨group, hgroup, hmem⟩ :=
    mem_flatten.1 (components_perm.mem_iff.2 ht)
  exact ⟨group, hgroup, hmem⟩

theorem component_ne_nil
    (hgroup : group ∈ weaklyConnectedComponents pool) : group ≠ [] := by
  rw [components_eq, mem_map] at hgroup
  obtain ⟨entry, hentry, rfl⟩ := hgroup
  exact fun h => ne_nil_of_grouped hentry (map_eq_nil_iff.1 h)

theorem component_subset
    (hgroup : group ∈ weaklyConnectedComponents pool) : group ⊆ pool :=
  fun _ ht => components_perm.mem_iff.1 (mem_flatten.2 ⟨group, hgroup, ht⟩)

end Components

-- ==== the summaries

/-- A summary without what is read off the states of the tasks, which may
depend on the order of a hash map. -/
def DagSummary.withoutStates (s : DagSummary) : DagSummary :=
  { s with stateCounts := {}, rollupState := "", hasCycle := false }

instance : Std.Total Listed where
  total t u := by
    unfold Listed
    rcases lt_trichotomy t.createdAt.toNat u.createdAt.toNat with h | h | h
    · exact .inl (.inl h)
    · have heq := UInt64.toNat_inj.1 h
      rcases le_total t.id u.id with hid | hid
      · exact .inl (.inr ⟨heq, hid⟩)
      · exact .inr (.inr ⟨heq.symm, hid⟩)
    · exact .inr (.inl h)

instance : IsTrans ListedTask Listed where
  trans t u v htu huv := by
    unfold Listed at *
    rcases htu with htu | ⟨htu, hid⟩
    · rcases huv with huv | ⟨huv, -⟩
      · exact .inl (UInt64.lt_trans htu huv)
      · exact .inl (huv ▸ htu)
    · rcases huv with huv | ⟨huv, hid'⟩
      · exact .inl (htu ▸ huv)
      · exact .inr ⟨htu.trans huv, hid.trans hid'⟩

section Summaries

variable {group group' : List ListedTask}

theorem listed_antisymm {t u : ListedTask} (h : Listed t u)
    (h' : Listed u t) : t.id = u.id := by
  unfold Listed at *
  rcases h with h | ⟨heq, hid⟩
  · rcases h' with h' | ⟨heq, -⟩
    · exact absurd (UInt64.lt_trans h h') (UInt64.lt_irrefl _)
    · exact absurd (heq ▸ h) (UInt64.lt_irrefl _)
  · rcases h' with h' | ⟨-, hid'⟩
    · exact absurd (heq ▸ h') (UInt64.lt_irrefl _)
    · exact le_antisymm hid hid'

theorem sort_of_perm (h : DistinctIds group) (hperm : group.Perm group') :
    group.insertionSort Listed = group'.insertionSort Listed :=
  insertionSort_of_perm hperm fun _ ha _ hb hab hba =>
    h.eq ha hb (listed_antisymm hab hba)

theorem firstListed_eq (group : List ListedTask) :
    firstListed group = (group.insertionSort Listed).head? := by
  induction group with
  | nil => rfl
  | cons t rest ih =>
    unfold firstListed
    rw [ih, insertionSort_cons]
    cases rest.insertionSort Listed with
    | nil => rfl
    | cons u sorted =>
      rw [orderedInsert_cons]
      dsimp only [List.head?_cons]
      by_cases h : Listed t u
      · rw [if_pos h, if_pos h]
        rfl
      · rw [if_neg h, if_neg h]
        rfl

theorem mem_of_firstListed {root : ListedTask}
    (h : firstListed group = some root) : root ∈ group := by
  rw [firstListed_eq] at h
  exact (mem_insertionSort _).1 (mem_of_mem_head? h)

theorem exists_firstListed (h : group ≠ []) :
    ∃ root, firstListed group = some root := by
  rw [firstListed_eq]
  cases hsort : group.insertionSort Listed with
  | nil =>
    have hnil := perm_insertionSort Listed group
    rw [hsort] at hnil
    exact absurd hnil.nil_eq.symm h
  | cons root rest => exact ⟨root, rfl⟩

variable {order order' : HashOrder} {blocked blocked' : List TaskId}
  {workspaceId : UInt32} {id source : String} {explicitKey : Option String}

theorem taskIds_summarize :
    (summarize order blocked workspaceId id source explicitKey
      group).taskIds.Perm (group.map (·.id)) := by
  unfold summarize
  exact (perm_insertionSort _ _).map _

theorem summarize_of_perm (h : DistinctIds group) (hperm : group.Perm group') :
    (summarize order blocked workspaceId id source explicitKey
        group).withoutStates
      = (summarize order' blocked' workspaceId id source explicitKey
        group').withoutStates := by
  unfold summarize withoutStates
  dsimp only
  rw [sort_of_perm h hperm]

end Summaries

-- ==== of a workspace

section Workspace

variable {tasks : List ListedTask} {t u : ListedTask} {orders : DagOrders}
  {blocked : List TaskId} {workspaceId : UInt32} {s : DagSummary}

theorem explicitTasks_snd : (explicitTasks tasks).map Prod.snd
    = tasks.filter fun t => (explicitDagKey t.toTask).isSome := by
  unfold explicitTasks
  induction tasks with
  | nil => rfl
  | cons t tasks ih =>
    cases hkey : explicitDagKey t.toTask with
    | none =>
      rw [filterMap_cons_none (by rw [hkey]; rfl),
        filter_cons_of_neg (by rw [hkey]; exact Bool.false_ne_true), ih]
    | some key =>
      rw [filterMap_cons_some (b := (key, t)) (by rw [hkey]; rfl),
        filter_cons_of_pos (by rw [hkey]; rfl), map_cons, ih]

theorem mem_explicitTasks {key : String} :
    (key, t) ∈ explicitTasks tasks
      ↔ t ∈ tasks ∧ explicitDagKey t.toTask = some key := by
  unfold explicitTasks
  rw [mem_filterMap]
  constructor
  · rintro ⟨u, hu, heq⟩
    obtain ⟨k, hk, heq⟩ := Option.map_eq_some_iff.1 heq
    obtain ⟨rfl, rfl⟩ := Prod.mk.inj heq
    exact ⟨hu, hk⟩
  · rintro ⟨ht, hkey⟩
    exact ⟨t, ht, by rw [hkey]; rfl⟩

theorem explicit_append_derived :
    ((explicitTasks tasks).map Prod.snd ++ derivedPool tasks).Perm tasks := by
  have hpool : derivedPool tasks = tasks.filter fun t =>
      !(explicitDagKey t.toTask).isSome := by
    unfold derivedPool
    exact filter_congr fun t _ => by
      cases explicitDagKey t.toTask <;> rfl
  rw [explicitTasks_snd, hpool]
  exact filter_append_perm _ _

theorem distinct_pool (h : DistinctIds tasks) :
    DistinctIds (derivedPool tasks) :=
  h.sublist filter_sublist

theorem mem_explicitSummaries :
    s ∈ explicitSummaries orders blocked workspaceId tasks ↔
      ∃ key, (∃ t ∈ tasks, explicitDagKey t.toTask = some key) ∧
        s = summarize (orders.cycles workspaceId (explicitIdPrefix ++ key))
          blocked workspaceId (explicitIdPrefix ++ key) "explicit" (some key)
          (((explicitTasks tasks).filter fun p => p.1 = key).map Prod.snd) := by
  unfold explicitSummaries
  rw [mem_map]
  constructor
  · rintro ⟨⟨key, entries⟩, hentry, rfl⟩
    obtain ⟨⟨⟨key', t⟩, hmem, hkey⟩, hentries⟩ := mem_grouped.1 hentry
    dsimp only at hkey
    subst hkey
    obtain ⟨ht, hkey⟩ := mem_explicitTasks.1 hmem
    refine ⟨key', ⟨t, ht, hkey⟩, ?_⟩
    exact congrArg (fun l => summarize _ _ _ _ _ _ (l.map Prod.snd)) hentries
  · rintro ⟨key, ⟨t, ht, hkey⟩, rfl⟩
    exact ⟨(key, _), mem_grouped.2
      ⟨⟨(key, t), mem_explicitTasks.2 ⟨ht, hkey⟩, rfl⟩, rfl⟩, rfl⟩

theorem mem_derivedSummaries :
    s ∈ derivedSummaries orders blocked workspaceId tasks ↔
      ∃ group ∈ weaklyConnectedComponents (derivedPool tasks), ∃ root,
        firstListed group = some root ∧
        s = derivedSummary orders blocked workspaceId root group := by
  unfold derivedSummaries
  rw [mem_filterMap]
  refine exists_congr fun group => and_congr_right fun _ => ?_
  rw [Option.map_eq_some_iff]
  exact exists_congr fun root => and_congr_right fun _ => eq_comm

theorem taskIds_explicit :
    ((explicitSummaries orders blocked workspaceId tasks).flatMap
      taskIds).Perm (((explicitTasks tasks).map Prod.snd).map (·.id)) := by
  unfold explicitSummaries
  rw [flatMap_map]
  have hgroups : (((grouped Prod.fst (explicitTasks tasks)).flatMap
      Prod.snd).map fun p => p.2.id).Perm
      ((explicitTasks tasks).map fun p => p.2.id) := grouped_perm.map _
  rw [map_flatMap] at hgroups
  rw [map_map]
  refine (List.Perm.flatMap_left _ fun entry _ => ?_).trans hgroups
  refine taskIds_summarize.trans (.of_eq ?_)
  rw [map_map]
  rfl

theorem taskIds_derived :
    ((derivedSummaries orders blocked workspaceId tasks).flatMap
      taskIds).Perm ((derivedPool tasks).map (·.id)) := by
  have hall : ∀ l : List (List ListedTask), (∀ group ∈ l, group ≠ []) →
      ((l.filterMap fun group => (firstListed group).map fun root =>
        derivedSummary orders blocked workspaceId root group).flatMap
          taskIds).Perm (l.flatten.map (·.id)) := by
    intro l
    induction l with
    | nil => exact fun _ => .refl _
    | cons group l ih =>
      intro hne
      obtain ⟨root, hroot⟩ :=
        exists_firstListed (hne group mem_cons_self)
      have hrest := ih fun g hg => hne g (mem_cons_of_mem _ hg)
      rw [filterMap_cons_some (by rw [hroot]; rfl),
        flatMap_cons, flatten_cons, map_append]
      exact taskIds_summarize.append hrest
  exact (hall _ fun group hgroup => component_ne_nil hgroup).trans
    (components_perm.map _)

theorem taskIds_workspace :
    ((groupWithinWorkspace orders workspaceId tasks).flatMap
      taskIds).Perm (tasks.map (·.id)) := by
  unfold groupWithinWorkspace
  dsimp only
  refine ((perm_insertionSort _ _).flatMap_right _).trans ?_
  rw [flatMap_append]
  refine (taskIds_explicit.append taskIds_derived).trans ?_
  rw [← map_append]
  exact explicit_append_derived.map _

-- ------------------------------------------------------------ distinct ids

theorem explicitId_ne_derivedId {a b : String} :
    explicitIdPrefix ++ a ≠ derivedIdPrefix ++ b := by
  intro h
  have hlist := congrArg String.toList h
  rw [String.toList_append, String.toList_append] at hlist
  have hhead : some 'd' = some 'c' := congrArg List.head? hlist
  exact absurd hhead (by decide)

theorem nodup_explicit : ((explicitSummaries orders blocked workspaceId
    tasks).map (·.id)).Nodup := by
  have hids : (explicitSummaries orders blocked workspaceId tasks).map (·.id)
      = (groupKeys Prod.fst (explicitTasks tasks)).map
        fun key => explicitIdPrefix ++ key := by
    unfold explicitSummaries
    rw [← map_fst_grouped, map_map, map_map]
    rfl
  rw [hids]
  exact nodup_groupKeys.map fun _ _ => (String.append_right_inj _).1

theorem nodup_derived (h : DistinctIds tasks) : ((derivedSummaries orders
    blocked workspaceId tasks).map (·.id)).Nodup := by
  have hall : ∀ l : List (List ListedTask), (l.flatten.map (·.id)).Nodup →
      ((l.filterMap fun group => (firstListed group).map fun root =>
        derivedSummary orders blocked workspaceId root group).map
          (·.id)).Nodup := by
    intro l
    induction l with
    | nil => exact fun _ => nodup_nil
    | cons group l ih =>
      intro hnodup
      rw [flatten_cons, map_append, nodup_append] at hnodup
      obtain ⟨-, hrest, hdisjoint⟩ := hnodup
      cases hroot : firstListed group with
      | none =>
        rw [filterMap_cons_none (by rw [hroot]; rfl)]
        exact ih hrest
      | some root =>
        rw [filterMap_cons_some (by rw [hroot]; rfl), map_cons,
          nodup_cons]
        refine ⟨fun hmem => ?_, ih hrest⟩
        obtain ⟨s, hs, hid⟩ := mem_map.1 hmem
        obtain ⟨group', hgroup', heq⟩ := mem_filterMap.1 hs
        obtain ⟨root', hroot', rfl⟩ := Option.map_eq_some_iff.1 heq
        have hflat := mem_flatten.2
          ⟨group', hgroup', mem_of_firstListed hroot'⟩
        exact hdisjoint root.id
          (mem_map_of_mem (mem_of_firstListed hroot)) root'.id
          (mem_map_of_mem hflat) ((String.append_right_inj _).1 hid.symm)
  refine hall _ ?_
  exact (components_perm.map _).nodup_iff.2 (distinct_pool h)

theorem nodup_workspace (h : DistinctIds tasks) :
    ((explicitSummaries orders blocked workspaceId tasks
      ++ derivedSummaries orders blocked workspaceId tasks).map
        (·.id)).Nodup := by
  rw [map_append, nodup_append]
  refine ⟨nodup_explicit, nodup_derived h, fun a ha b hb => ?_⟩
  obtain ⟨s, hs, rfl⟩ := mem_map.1 ha
  obtain ⟨s', hs', rfl⟩ := mem_map.1 hb
  obtain ⟨key, -, rfl⟩ := mem_explicitSummaries.1 hs
  obtain ⟨group, -, root, -, rfl⟩ := mem_derivedSummaries.1 hs'
  exact explicitId_ne_derivedId

-- ---------------------------------------------------------- in any order

section Order

variable {tasks' : List ListedTask} {orders' : DagOrders}
  {blocked' : List TaskId}

theorem connected_of_perm {pool pool' : List ListedTask}
    (h : pool.Perm pool') (htu : Connected pool t u) : Connected pool' t u :=
  Relation.EqvGen.mono (fun _ _ hrel =>
    ⟨h.mem_iff.1 hrel.left, h.mem_iff.1 hrel.right, hrel.refers⟩) t u htu

theorem explicit_of_perm (h : DistinctIds tasks) (hperm : tasks.Perm tasks') :
    (explicitSummaries orders blocked workspaceId tasks).map
        withoutStates
      = (explicitSummaries orders' blocked' workspaceId tasks').map
        withoutStates := by
  have hexplicit : (explicitTasks tasks).Perm (explicitTasks tasks') :=
    hperm.filterMap _
  have hids : DistinctIds ((explicitTasks tasks).map Prod.snd) := by
    rw [explicitTasks_snd]
    exact h.sublist filter_sublist
  unfold explicitSummaries grouped
  rw [groupKeys_of_perm hexplicit]
  simp only [map_map]
  refine map_congr_left fun key _ => ?_
  refine summarize_of_perm (hids.sublist ?_)
    ((hexplicit.filter _).map Prod.snd)
  exact filter_sublist.map _

theorem derived_of_perm (h : DistinctIds tasks) (hperm : tasks.Perm tasks')
    (hs : s ∈ derivedSummaries orders blocked workspaceId tasks) :
    ∃ s' ∈ derivedSummaries orders' blocked' workspaceId tasks',
      s'.withoutStates = s.withoutStates := by
  obtain ⟨group, hgroup, root, hroot, rfl⟩ := mem_derivedSummaries.1 hs
  have hpool : (derivedPool tasks).Perm (derivedPool tasks') :=
    hperm.filter _
  have hids := distinct_pool h
  have hids' := hids.perm hpool
  have hmem := mem_of_firstListed hroot
  obtain ⟨group', hgroup', hmem'⟩ :=
    exists_component (hpool.mem_iff.1 (component_subset hgroup hmem))
  have hnodup : ∀ {pool : List ListedTask}, DistinctIds pool →
      ∀ g ∈ weaklyConnectedComponents pool, DistinctIds g := by
    intro pool hpool g hg
    have hflat := hpool.perm components_perm.symm
    exact hflat.sublist (sublist_flatten_of_mem hg)
  have hsame : group.Perm group' := by
    rw [perm_ext_iff_of_nodup (hnodup hids _ hgroup).nodup
      (hnodup hids' _ hgroup').nodup]
    intro v
    rw [mem_components hids hgroup hmem, mem_components hids' hgroup' hmem',
      hpool.mem_iff]
    exact and_congr_right fun _ =>
      ⟨connected_of_perm hpool, connected_of_perm hpool.symm⟩
  have hsort := sort_of_perm (hnodup hids _ hgroup) hsame
  refine ⟨_, mem_derivedSummaries.2 ⟨group', hgroup', root, ?_, rfl⟩, ?_⟩
  · rw [firstListed_eq, ← hsort, ← firstListed_eq, hroot]
  · exact (summarize_of_perm (hnodup hids _ hgroup) hsame).symm

theorem nodup_withoutStates {l : List DagSummary} (h : (l.map (·.id)).Nodup) :
    ((l.map withoutStates).map (·.id)).Nodup := by
  rw [map_map]
  exact h

theorem summaries_of_perm (h : DistinctIds tasks) (hperm : tasks.Perm tasks') :
    ((explicitSummaries orders blocked workspaceId tasks
        ++ derivedSummaries orders blocked workspaceId tasks).map
          withoutStates).Perm
      ((explicitSummaries orders' blocked' workspaceId tasks'
        ++ derivedSummaries orders' blocked' workspaceId tasks').map
          withoutStates) := by
  rw [map_append, map_append, explicit_of_perm h hperm]
  refine List.Perm.append_left _ ?_
  rw [perm_ext_iff_of_nodup
    (List.Nodup.of_map _ (nodup_withoutStates (nodup_derived h)))
    (List.Nodup.of_map _ (nodup_withoutStates (nodup_derived (h.perm hperm))))]
  intro s
  simp only [mem_map]
  constructor
  · rintro ⟨s, hs, rfl⟩
    exact derived_of_perm h hperm hs
  · rintro ⟨s, hs, rfl⟩
    exact derived_of_perm (h.perm hperm) hperm.symm hs

theorem workspace_of_perm (h : DistinctIds tasks) (hperm : tasks.Perm tasks') :
    (groupWithinWorkspace orders workspaceId tasks).map
        withoutStates
      = (groupWithinWorkspace orders' workspaceId tasks').map
        withoutStates := by
  have htotal : Std.Total fun a b : DagSummary => a.id ≤ b.id :=
    ⟨fun a b => le_total a.id b.id⟩
  have htrans : IsTrans DagSummary fun a b => a.id ≤ b.id :=
    ⟨fun _ _ _ => le_trans⟩
  have hmap : ∀ l : List DagSummary,
      (l.insertionSort fun a b => a.id ≤ b.id).map withoutStates
        = (l.map withoutStates).insertionSort
          fun a b => a.id ≤ b.id := fun l =>
    map_insertionSort _ _ _ l fun _ _ _ _ => Iff.rfl
  unfold groupWithinWorkspace
  dsimp only
  rw [hmap, hmap]
  refine insertionSort_of_perm (summaries_of_perm h hperm) ?_
  intro a ha b hb hab hba
  exact inj_on_of_nodup_map (nodup_withoutStates (nodup_workspace h))
    ha hb (le_antisymm hab hba)

end Order

end Workspace

-- ==== of all workspaces

/-- No two tasks of one workspace have one id. -/
def DistinctTasks (tasks : List ListedTask) : Prop :=
  (tasks.map fun t => (t.workspaceId, t.id)).Nodup

/-- The tasks of a workspace. -/
def ofWorkspace (tasks : List ListedTask) (workspaceId : UInt32) :
    List ListedTask :=
  tasks.filter fun t => t.workspaceId = workspaceId

/-- The ids of each group of a workspace that no task names. -/
def derivedGroups (orders : DagOrders) (tasks : List ListedTask)
    (workspaceId : UInt32) : Set (Set TaskId) :=
  {S | ∃ s ∈ groupTasksIntoDags orders tasks, s.workspaceId = workspaceId
    ∧ s.source = "derived" ∧ S = {id | id ∈ s.taskIds}}

/-- The ids of each weakly connected component of the references among the
tasks of a workspace that name no graph. -/
def referenceComponents (tasks : List ListedTask) (workspaceId : UInt32) :
    Set (Set TaskId) :=
  {S | ∃ t ∈ derivedPool (ofWorkspace tasks workspaceId),
    S = {id | ∃ u ∈ derivedPool (ofWorkspace tasks workspaceId),
      u.id = id ∧ Connected (derivedPool (ofWorkspace tasks workspaceId)) t u}}

section All

variable {tasks tasks' : List ListedTask} {orders orders' : DagOrders}
  {s : DagSummary} {workspaceId : UInt32}

theorem DistinctTasks.workspace (h : DistinctTasks tasks)
    (workspaceId : UInt32) : DistinctIds (ofWorkspace tasks workspaceId) := by
  unfold DistinctIds ofWorkspace
  have hsub : ((tasks.filter fun t => t.workspaceId = workspaceId).map
      fun t => (t.workspaceId, t.id)).Nodup :=
    List.Nodup.sublist (filter_sublist.map _) h
  rw [nodup_map_iff_inj_on (List.Nodup.of_map _ hsub)]
  intro t ht u hu hid
  refine inj_on_of_nodup_map hsub ht hu (Prod.ext ?_ hid)
  have htw := of_decide_eq_true (mem_filter.1 ht).2
  have huw := of_decide_eq_true (mem_filter.1 hu).2
  exact htw.trans huw.symm

variable {ws : List ListedTask}

theorem workspaceId_of_mem
    (hs : s ∈ groupWithinWorkspace orders workspaceId ws) :
    s.workspaceId = workspaceId := by
  unfold groupWithinWorkspace at hs
  rw [mem_insertionSort, mem_append] at hs
  rcases hs with hs | hs
  · obtain ⟨key, -, rfl⟩ := mem_explicitSummaries.1 hs
    rfl
  · obtain ⟨group, -, root, -, rfl⟩ := mem_derivedSummaries.1 hs
    rfl

theorem groupTasks_eq : groupTasksIntoDags orders tasks
    = (groupKeys (·.workspaceId) tasks).flatMap fun workspaceId =>
      groupWithinWorkspace orders workspaceId
        (ofWorkspace tasks workspaceId) := by
  unfold groupTasksIntoDags grouped
  rw [flatMap_map]
  rfl

theorem taskIds_all :
    ((groupTasksIntoDags orders tasks).flatMap fun s =>
      s.taskIds.map fun id => (s.workspaceId, id)).Perm
    (tasks.map fun t => (t.workspaceId, t.id)) := by
  have hone : ∀ w, ((groupWithinWorkspace orders w
      (ofWorkspace tasks w)).flatMap fun s =>
        s.taskIds.map fun id => (s.workspaceId, id)).Perm
      ((ofWorkspace tasks w).map fun t => (t.workspaceId, t.id)) := by
    intro w
    have hids : ((groupWithinWorkspace orders w
        (ofWorkspace tasks w)).flatMap fun s =>
          s.taskIds.map fun id => (s.workspaceId, id))
        = ((groupWithinWorkspace orders w
          (ofWorkspace tasks w)).flatMap taskIds).map
            fun id => (w, id) := by
      rw [map_flatMap]
      exact flatMap_congr fun s hs => by rw [workspaceId_of_mem hs]
    rw [hids]
    refine (taskIds_workspace.map _).trans (.of_eq ?_)
    rw [map_map]
    refine map_congr_left fun t ht => ?_
    have htw := of_decide_eq_true (mem_filter.1 ht).2
    exact Prod.ext htw.symm rfl
  rw [groupTasks_eq, flatMap_assoc]
  refine (List.Perm.flatMap_left _ fun w _ => hone w).trans ?_
  rw [← map_flatMap]
  refine List.Perm.map _ ?_
  exact flatMap_filter_perm nodup_groupKeys fun t ht =>
    mem_groupKeys.2 ⟨t, ht, rfl⟩

theorem mem_groupTasks : s ∈ groupTasksIntoDags orders tasks ↔
    s ∈ groupWithinWorkspace orders s.workspaceId
      (ofWorkspace tasks s.workspaceId) := by
  rw [groupTasks_eq, mem_flatMap]
  constructor
  · rintro ⟨w, -, hs⟩
    rwa [workspaceId_of_mem hs]
  · intro hs
    refine ⟨_, ?_, hs⟩
    by_contra hno
    have hnil : ofWorkspace tasks s.workspaceId = [] :=
      filter_eq_nil_iff.2 fun t ht htw => hno
        (mem_groupKeys.2 ⟨t, ht, of_decide_eq_true htw⟩)
    rw [hnil] at hs
    exact absurd hs not_mem_nil

theorem mem_workspace :
    s ∈ groupWithinWorkspace orders workspaceId ws ↔
      s ∈ explicitSummaries orders
          (blockedTaskIds (orders.blocked workspaceId) ws) workspaceId ws
        ∨ s ∈ derivedSummaries orders
          (blockedTaskIds (orders.blocked workspaceId) ws) workspaceId ws := by
  unfold groupWithinWorkspace
  rw [mem_insertionSort, mem_append]

theorem mem_taskIds_derived {pool : List ListedTask}
    {blocked : List TaskId} {t root : ListedTask} (h : DistinctIds pool)
    (hgroup : group ∈ weaklyConnectedComponents pool) (ht : t ∈ group)
    (id : TaskId) :
    id ∈ (derivedSummary orders blocked workspaceId root group).taskIds
      ↔ ∃ u ∈ pool, u.id = id ∧ Connected pool t u := by
  unfold derivedSummary
  rw [taskIds_summarize.mem_iff, mem_map]
  refine exists_congr fun u => ?_
  rw [mem_components h hgroup ht, and_assoc]
  exact and_congr_right fun _ => and_comm

theorem derivedGroups_eq (h : DistinctTasks tasks) (workspaceId : UInt32) :
    derivedGroups orders tasks workspaceId
      = referenceComponents tasks workspaceId := by
  have hids := distinct_pool (h.workspace workspaceId)
  ext S
  constructor
  · rintro ⟨s, hs, rfl, hsource, rfl⟩
    rcases mem_workspace.1 (mem_groupTasks.1 hs) with hs | hs
    · obtain ⟨key, -, heq⟩ := mem_explicitSummaries.1 hs
      have hsame : "explicit" = "derived" :=
        (congrArg DagSummary.source heq).symm.trans hsource
      exact absurd hsame (by decide)
    · obtain ⟨group, hgroup, root, hroot, heq⟩ := mem_derivedSummaries.1 hs
      have hmem := mem_of_firstListed hroot
      refine ⟨root, component_subset hgroup hmem, ?_⟩
      rw [heq]
      exact Set.ext (mem_taskIds_derived hids hgroup hmem)
  · rintro ⟨t, ht, rfl⟩
    obtain ⟨group, hgroup, hmem⟩ := exists_component ht
    obtain ⟨root, hroot⟩ := exists_firstListed (component_ne_nil hgroup)
    refine ⟨derivedSummary orders (blockedTaskIds (orders.blocked workspaceId)
        (ofWorkspace tasks workspaceId)) workspaceId root group,
      mem_groupTasks.2 (mem_workspace.2 (.inr (mem_derivedSummaries.2
        ⟨group, hgroup, root, hroot, rfl⟩))), rfl, rfl, ?_⟩
    exact Set.ext fun id => (mem_taskIds_derived hids hgroup hmem id).symm

theorem nodup_all (h : DistinctTasks tasks) :
    ((groupTasksIntoDags orders tasks).map fun s =>
      (s.workspaceId, s.id)).Nodup := by
  rw [groupTasks_eq, map_flatMap, nodup_flatMap]
  refine ⟨fun w _ => List.Nodup.of_map Prod.snd ?_, ?_⟩
  · rw [map_map]
    unfold groupWithinWorkspace
    refine ((perm_insertionSort _ _).map _).nodup_iff.2 ?_
    exact nodup_workspace (h.workspace w)
  · refine List.Pairwise.imp (fun {w w'} hne => ?_) nodup_groupKeys
    intro p hp hp'
    obtain ⟨s, hs, rfl⟩ := mem_map.1 hp
    obtain ⟨s', hs', heq⟩ := mem_map.1 hp'
    have hws := congrArg Prod.fst heq
    dsimp only at hws
    rw [workspaceId_of_mem hs, workspaceId_of_mem hs'] at hws
    exact hne hws.symm

theorem all_of_perm (h : DistinctTasks tasks) (hperm : tasks.Perm tasks') :
    (groupTasksIntoDags orders tasks).map withoutStates
      = (groupTasksIntoDags orders' tasks').map withoutStates := by
  rw [groupTasks_eq, groupTasks_eq, map_flatMap, map_flatMap,
    groupKeys_of_perm hperm]
  refine flatMap_congr fun workspaceId _ => ?_
  exact workspace_of_perm (h.workspace workspaceId) (hperm.filter _)

end All

/-- Where no two tasks of a workspace have one id, each task is in exactly
one group; the groups that no task names are the components of the
references; in its workspace a group has an id of its own; and the order of
the tasks does not matter, nor does that of a hash map, up to the states. -/
theorem groups_partition {tasks : List ListedTask}
    (h : DistinctTasks tasks) (orders : DagOrders) :
    (∀ t ∈ tasks, ∃! s, s ∈ groupTasksIntoDags orders tasks
        ∧ s.workspaceId = t.workspaceId ∧ t.id ∈ s.taskIds)
      ∧ ((groupTasksIntoDags orders tasks).flatMap fun s =>
          s.taskIds.map fun id => (s.workspaceId, id)).Perm
        (tasks.map fun t => (t.workspaceId, t.id))
      ∧ (∀ workspaceId, derivedGroups orders tasks workspaceId
          = referenceComponents tasks workspaceId)
      ∧ ((groupTasksIntoDags orders tasks).map fun s =>
          (s.workspaceId, s.id)).Nodup
      ∧ ∀ (orders' : DagOrders) (tasks' : List ListedTask),
        tasks.Perm tasks' →
        (groupTasksIntoDags orders tasks).map DagSummary.withoutStates
          = (groupTasksIntoDags orders' tasks').map
            DagSummary.withoutStates := by
  refine ⟨fun t ht => ?_, taskIds_all, derivedGroups_eq h, nodup_all h,
    fun orders' tasks' => all_of_perm h⟩
  have hnodup : ((groupTasksIntoDags orders tasks).flatMap fun s =>
      s.taskIds.map fun id => (s.workspaceId, id)).Nodup :=
    taskIds_all.nodup_iff.2 h
  have hin : (t.workspaceId, t.id) ∈ (groupTasksIntoDags orders tasks).flatMap
      fun s => s.taskIds.map fun id => (s.workspaceId, id) :=
    taskIds_all.mem_iff.2 (List.mem_map_of_mem ht)
  obtain ⟨s, hs, hmem⟩ := List.mem_flatMap.1 hin
  obtain ⟨id, hid, heq⟩ := List.mem_map.1 hmem
  obtain ⟨hw, rfl⟩ := Prod.mk.inj heq
  refine ⟨s, ⟨hs, hw, hid⟩, fun s' ⟨hs', hw', hid'⟩ => ?_⟩
  by_contra hne
  have hdisjoint := (List.nodup_flatMap.1 hnodup).2
  have hsymm : Std.Symm (Function.onFun List.Disjoint fun s : DagSummary =>
      s.taskIds.map fun id => (s.workspaceId, id)) :=
    ⟨fun _ _ => List.Disjoint.symm⟩
  refine hdisjoint.forall hs hs' (Ne.symm hne) hmem ?_
  exact List.mem_map.2 ⟨t.id, hid', by rw [hw']⟩

-- ==== runs on fixed inputs

def inDag (workspaceId : UInt32) (id : TaskId) (dag : String) : ListedTask :=
  { id, command := .custom "system.ping" (.object []), state := .waiting
    result := none, metadata := .object [("dag", .string dag)]
    contract := none, typedResult := none, skip := none
    workspaceId, name := id, awaitsInput := false }

def listedOrders : DagOrders := ⟨fun _ => .asListed, fun _ _ => .asListed⟩

/-- One task names a graph, the other does not. -/
theorem groups_partition_two :
    ((groupTasksIntoDags listedOrders [inDag 1 "a" "x", inDag 1 "b" ""]).map
      fun s => (s.workspaceId, s.id)).Nodup :=
  (groups_partition (by unfold DistinctTasks; decide) listedOrders).2.2.2.1

/-- Two workspaces may name their graphs alike, and of two tasks with one id
each may be a group. -/
theorem group_ids_repeat :
    (¬ ∀ (orders : DagOrders) (tasks : List ListedTask),
      ((groupTasksIntoDags orders tasks).map (·.id)).Nodup)
    ∧ ¬ ∀ (orders : DagOrders) (tasks : List ListedTask),
      ((groupTasksIntoDags orders tasks).map fun s =>
        (s.workspaceId, s.id)).Nodup := by
  constructor
  · intro h
    have hids : (groupTasksIntoDags listedOrders
        [inDag 1 "a" "x", inDag 2 "b" "x"]).map (·.id) = ["d:x", "d:x"] := by
      decide +kernel
    have hnodup := h listedOrders [inDag 1 "a" "x", inDag 2 "b" "x"]
    rw [hids] at hnodup
    exact absurd hnodup (by decide)
  · intro h
    have hids : (groupTasksIntoDags listedOrders
        [inDag 1 "a" "", inDag 1 "a" ""]).map
          (fun s => (s.workspaceId, s.id)) = [(1, "c:a"), (1, "c:a")] := by
      decide +kernel
    have hnodup := h listedOrders [inDag 1 "a" "", inDag 1 "a" ""]
    rw [hids] at hnodup
    exact absurd hnodup (by decide)

end Tasty.Agent
