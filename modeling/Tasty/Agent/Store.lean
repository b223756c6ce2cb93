/-
The task store (`crates/tasty-agent/src/task/store.rs`): the records of
the tasks of a workspace, those of v1 and of v2 tasks apart, and the
graphs that are active.

A record is one value of the memory store and is written as a whole, so a
write is atomic and any write may fail. The obligations to notify that
are written along with an end, the report blocks and the revisions of the
records are left out: nothing here reads them.
-/
import Tasty.Lib.BTreeMap
import Tasty.Lib.Disk
import Tasty.Agent.Contract

namespace Tasty.Agent

/-- What the store is told from outside: the sizes of records, the digest
of a report, and what its parts need. -/
class TaskHost extends F64Text, DebugText, AgentProviders where
  /-- The size of a record as it is written. -/
  recordSize : Task → Nat
  /-- How large a record may be before it has a result. -/
  recordLimit : Nat

-- ==== the records

/-- Where a record is: in which namespace, and its id. -/
abbrev Slot := Bool × TaskId

def Task.slot (t : Task) : Slot := (t.isTyped, t.id)

/-- A namespace: each record is under its own id, and none carries a
contract that does not belong there. -/
structure Records (typed : Bool) where
  map : BTreeMap String Task
  own : ∀ (id : TaskId) (t : Task), map[id]? = some t →
    t.slot = (typed, id)

variable {id : TaskId}

namespace Records

variable {typed : Bool}

def empty : Records typed := ⟨∅, by simp⟩

def put (r : Records typed) (t : Task) (h : t.isTyped = typed) :
    Records typed where
  map := r.map.insert t.id t
  own := by
    intro id u hu
    rw [BTreeMap.get_insert] at hu
    by_cases hid : t.id = id
    · rw [if_pos hid] at hu
      cases hu
      rw [← h, ← hid]
      rfl
    · rw [if_neg hid] at hu
      exact r.own id u hu

def erase (r : Records typed) (id : TaskId) : Records typed where
  map := r.map.erase id
  own := by
    intro id' u hu
    rw [BTreeMap.get_erase] at hu
    by_cases hid : id = id'
    · rw [if_pos hid] at hu
      cases hu
    · rw [if_neg hid] at hu
      exact r.own id' u hu

def list (r : Records typed) : List Task := r.map.toList.map Prod.snd

theorem mem_list {r : Records typed} {t : Task} :
    t ∈ r.list ↔ r.map[t.id]? = some t := by
  unfold list
  rw [List.mem_map]
  constructor
  · rintro ⟨⟨id, u⟩, hu, rfl⟩
    rw [BTreeMap.mem_toList_iff] at hu
    have hslot := r.own id u hu
    cases hslot
    exact hu
  · intro h
    exact ⟨(t.id, t), (BTreeMap.mem_toList_iff _ _ _).2 h, rfl⟩

theorem isTyped_of_get {r : Records typed} {t : Task}
    (h : r.map[id]? = some t) : t.isTyped = typed :=
  congrArg Prod.fst (r.own id t h)

end Records

/-- Whether a graph is to go on after a restart. -/
inductive GraphDurability where
  | required
  | bestEffort
  deriving DecidableEq

/-- The record that makes a graph active. -/
structure GraphRecord where
  taskIds : List TaskId
  activatedAt : UInt64
  durability : GraphDurability

structure Store where
  v1 : Records false
  v2 : Records true
  graphs : BTreeMap String GraphRecord

namespace Store

def empty : Store := ⟨.empty, .empty, ∅⟩

def record (s : Store) : Slot → Option Task
  | (false, id) => s.v1.map[id]?
  | (true, id) => s.v2.map[id]?

/-- The records in the order they are listed. -/
def list (s : Store) : List Task := s.v1.list ++ s.v2.list

/-- `TaskStore::put`, once the keys are checked. -/
def put (s : Store) (t : Task) : Store :=
  if h : t.isTyped = true then { s with v2 := s.v2.put t h }
  else { s with v1 := s.v1.put t (Bool.eq_false_of_not_eq_true h) }

def erase (s : Store) : Slot → Store
  | (false, id) => { s with v1 := s.v1.erase id }
  | (true, id) => { s with v2 := s.v2.erase id }

def activate (s : Store) (graphId : String) (r : GraphRecord) : Store :=
  { s with graphs := s.graphs.insert graphId r }

def deactivate (s : Store) (graphId : String) : Store :=
  { s with graphs := s.graphs.erase graphId }

/-- The graph has its activation record. -/
def isActive (s : Store) (graphId : String) : Bool :=
  (s.graphs[graphId]?).isSome

variable {t : Task} {s : Store} {k : Slot}

theorem slot_of_record (h : s.record k = some t) : t.slot = k := by
  obtain ⟨typed, id⟩ := k
  cases typed with
  | false => exact s.v1.own id t h
  | true => exact s.v2.own id t h

theorem mem_list : t ∈ s.list ↔ s.record t.slot = some t := by
  unfold list
  rw [List.mem_append, Records.mem_list, Records.mem_list]
  unfold record Task.slot
  cases ht : t.isTyped with
  | false =>
    constructor
    · rintro (h | h)
      · exact h
      · rw [Records.isTyped_of_get h] at ht
        cases ht
    · exact .inl
  | true =>
    constructor
    · rintro (h | h)
      · rw [Records.isTyped_of_get h] at ht
        cases ht
      · exact h
    · exact .inr

theorem mem_list_of_record (h : s.record k = some t) : t ∈ s.list := by
  rw [mem_list, slot_of_record h]
  exact h

variable {u : Task}

/-- Two listed records in one place are one. -/
theorem eq_of_slot (ht : t ∈ s.list) (hu : u ∈ s.list) (h : t.slot = u.slot) : t = u := by
  rw [mem_list] at ht hu
  rw [h, hu] at ht
  exact (Option.some.inj ht).symm

theorem record_put (s : Store) (t : Task) (k : Slot) :
    (s.put t).record k = if t.slot = k then some t else s.record k := by
  obtain ⟨typed, id⟩ := k
  unfold put record Task.slot
  by_cases h : t.isTyped = true
  · cases typed with
    | false => simp [h]
    | true => simp [h, Records.put]
  · have h' := Bool.eq_false_of_not_eq_true h
    cases typed with
    | false => simp [h', Records.put]
    | true => simp [h']

theorem record_erase (s : Store) (j k : Slot) :
    (s.erase j).record k = if j = k then none else s.record k := by
  obtain ⟨typed, id⟩ := j
  obtain ⟨typed', id'⟩ := k
  cases typed <;> cases typed' <;>
    simp [erase, record, Records.erase]

theorem mem_list_put :
    u ∈ (s.put t).list ↔ u = t ∨ u ∈ s.list ∧ u.slot ≠ t.slot := by
  rw [mem_list, mem_list, record_put]
  by_cases h : t.slot = u.slot
  · rw [if_pos h]
    constructor
    · intro heq
      exact .inl (Option.some.inj heq).symm
    · rintro (rfl | ⟨-, hne⟩)
      · rfl
      · exact absurd h.symm hne
  · rw [if_neg h]
    constructor
    · intro hu
      exact .inr ⟨hu, Ne.symm h⟩
    · rintro (rfl | ⟨hu, -⟩)
      · exact absurd rfl h
      · exact hu

theorem mem_list_erase : u ∈ (s.erase k).list ↔ u ∈ s.list ∧ u.slot ≠ k := by
  rw [mem_list, mem_list, record_erase]
  by_cases h : k = u.slot
  · rw [if_pos h]
    constructor
    · intro heq
      cases heq
    · rintro ⟨-, hne⟩
      exact absurd h.symm hne
  · rw [if_neg h]
    exact ⟨fun hu => ⟨hu, Ne.symm h⟩, And.left⟩

@[simp] theorem graphs_put (s : Store) (t : Task) :
    (s.put t).graphs = s.graphs := by
  unfold put
  split <;> rfl

@[simp] theorem graphs_erase (s : Store) (k : Slot) :
    (s.erase k).graphs = s.graphs := by
  obtain ⟨typed, id⟩ := k
  cases typed <;> rfl

theorem isActive_activate (s : Store) (g g' : String) (r : GraphRecord) :
    (s.activate g r).isActive g' = true ↔ g = g' ∨ s.isActive g' = true := by
  unfold activate isActive
  rw [BTreeMap.get_insert]
  by_cases h : g = g'
  · simp [h]
  · simp [h]

theorem isActive_deactivate (s : Store) (g g' : String) :
    (s.deactivate g).isActive g' = true ↔ g ≠ g' ∧ s.isActive g' = true := by
  unfold deactivate isActive
  rw [BTreeMap.get_erase]
  by_cases h : g = g'
  · simp [h]
  · simp [h]

/-- The record of an id; a v1 task comes first. -/
def find (s : Store) (id : TaskId) : Option Task :=
  (s.record (false, id)).or (s.record (true, id))

theorem mem_of_find (h : s.find id = some t) : t ∈ s.list ∧ t.id = id := by
  unfold find at h
  rcases Option.or_eq_some_iff.1 h with h | ⟨-, h⟩
  · exact ⟨mem_list_of_record h, congrArg Prod.snd (slot_of_record h)⟩
  · exact ⟨mem_list_of_record h, congrArg Prod.snd (slot_of_record h)⟩

theorem find_eq_none : s.find id = none ↔ ∀ t ∈ s.list, t.id ≠ id := by
  constructor
  · intro h t ht hid
    unfold find at h
    obtain ⟨h₁, h₂⟩ := Option.or_eq_none_iff.1 h
    rw [mem_list, Task.slot, hid] at ht
    cases htyped : t.isTyped with
    | false => rw [htyped, h₁] at ht; cases ht
    | true => rw [htyped, h₂] at ht; cases ht
  · intro h
    cases hf : s.find id with
    | none => rfl
    | some t => exact absurd (mem_of_find hf).2 (h t (mem_of_find hf).1)

/-- No two tasks have one id, whatever their namespaces. -/
def UniqueIds (s : Store) : Prop :=
  ∀ t ∈ s.list, ∀ u ∈ s.list, t.id = u.id → t = u

theorem UniqueIds.find (h : s.UniqueIds) (ht : t ∈ s.list) : s.find t.id = some t := by
  cases hf : s.find t.id with
  | none => exact absurd rfl (find_eq_none.1 hf t ht)
  | some u =>
    obtain ⟨hu, hid⟩ := mem_of_find hf
    rw [h u hu t ht hid]

theorem UniqueIds.empty : Store.empty.UniqueIds := by
  have hnone : ∀ k, Store.empty.record k = none := by
    rintro ⟨typed, id⟩
    cases typed <;> rfl
  intro t ht
  rw [mem_list, hnone] at ht
  cases ht

/-- A record is only replaced by one of the same task. -/
theorem UniqueIds.put (hs : s.UniqueIds)
    (hu : ∀ v ∈ s.list, v.id = u.id → v.slot = u.slot) :
    (s.put u).UniqueIds := by
  intro v hv w hw hid
  rw [mem_list_put] at hv hw
  rcases hv with hvu | ⟨hv, hvu⟩
  · rcases hw with hwu | ⟨hw, hwu⟩
    · exact hvu.trans hwu.symm
    · exact absurd (hu w hw (hvu ▸ hid.symm)) hwu
  · rcases hw with hwu | ⟨hw, hwu⟩
    · exact absurd (hu v hv (hwu ▸ hid)) hvu
    · exact hs v hv w hw hid

/-- A record that is replaced by one of the same task is found. -/
theorem UniqueIds.find_put (hs : s.UniqueIds)
    (ht : s.find id = some t) (hid : u.id = t.id) (hslot : u.slot = t.slot) :
    (s.put u).UniqueIds ∧ (s.put u).find id = some u := by
  obtain ⟨htl, htid⟩ := mem_of_find ht
  have hunique : (s.put u).UniqueIds := hs.put fun v hv hvu => by
    rw [hs v hv t htl (hvu.trans hid), hslot]
  refine ⟨hunique, ?_⟩
  rw [← htid, ← hid]
  exact hunique.find (mem_list_put.2 (.inl rfl))

theorem UniqueIds.erase (h : s.UniqueIds) (k : Slot) :
    (s.erase k).UniqueIds := fun t ht u hu =>
  h t (mem_list_erase.1 ht).1 u (mem_list_erase.1 hu).1

theorem UniqueIds.mem_erase (h : s.UniqueIds)
    (hsome : (s.record k).isSome = true) :
    u ∈ (s.erase k).list ↔ u ∈ s.list ∧ u.id ≠ k.2 := by
  rw [mem_list_erase]
  obtain ⟨t, ht⟩ := Option.isSome_iff_exists.1 hsome
  have hslot := slot_of_record ht
  have htl := mem_list_of_record ht
  refine and_congr_right fun hu => not_congr ⟨fun heq => ?_, fun heq => ?_⟩
  · exact congrArg Prod.snd heq
  · have hid : t.id = k.2 := congrArg Prod.snd hslot
    rw [h u hu t htl (heq.trans hid.symm), hslot]

end Store

-- ==== its keys

/-- What is kept beside the store: the next number of an id, and the
iteration orders of the hash maps to come. -/
structure Env where
  seq : UInt64
  orders : List HashOrder

abbrev TaskDisk := Disk Store Env

abbrev TaskProg := Prog Store Env AgentError

section Keys

variable [TaskHost]

/-- A key, as the task store reports a bad one. -/
def checkKey (keyPrefix label value : String) : Except AgentError Unit :=
  match componentKey keyPrefix label value with
  | .ok _ => .ok ()
  | .error text => .error (.invalidKey text)

def taskKey (id : TaskId) : Except AgentError Unit :=
  checkKey "tasty.agent.task." "task id" id

def typedTaskKey (id : TaskId) : Except AgentError Unit :=
  checkKey "tasty.agent.typed_task." "task id" id

def graphKey (graphId : String) : Except AgentError Unit :=
  checkKey "tasty.agent.task_graph." "graph id" graphId

/-- Whether the report blocks of a task can have keys: those of the last
attempt are the longest. -/
def reportKeyRoom (id : TaskId) : Bool :=
  (componentKey "tasty.agent.task_report_auto." "task report key"
    s!"{id}.4294967295").toOption.isSome

def reportAutoKeyPrefix : String := "tasty.agent.task_report_auto."

/-- `check_report_key_room`. -/
def checkReportKeyRoom (id : TaskId) : Except AgentError Unit :=
  if reportKeyRoom id then .ok ()
  else
    let budget :=
      maxKeyLen - (reportAutoKeyPrefix.utf8ByteSize + ".4294967295".length)
    .error (.invalidKey (s!"invalid argument: task id "
      ++ s!"{DebugText.string id}: too long for its report keys: "
      ++ s!"{id.utf8ByteSize} bytes > {budget}"))

-- ==== reading

/-- `TaskStore::get`. -/
def Store.get (s : Store) (id : TaskId) :
    Except AgentError (Option Task) := do
  taskKey id
  match s.record (false, id) with
  | some t => .ok (some t)
  | none => do
      typedTaskKey id
      .ok (s.record (true, id))

variable {id : TaskId}

theorem Store.get_eq_ok {s : Store} {r : Option Task} (h : s.get id = .ok r) : r = s.find id := by
  unfold Store.get at h
  have h := then_ok h
  unfold Store.find
  cases h1 : s.record (false, id) with
  | some t =>
    rw [h1] at h
    cases h
    rfl
  | none =>
    rw [h1] at h
    have h := then_ok h
    cases h
    rfl

def getTask (id : TaskId) : TaskProg (Option Task) := do
  let s ← Prog.read
  Prog.lift (s.get id)

/-- A task that must be there. -/
def fetchTask (id : TaskId) : TaskProg Task := do
  match ← getTask id with
  | some t => pure t
  | none => throw (.taskNotFound id)

def listTasks : TaskProg (List Task) := do
  let s ← Prog.read
  pure s.list

/-- `put`: the end of a task is written with a note of it, for which the
record is read again. -/
def putTask (t : Task) : TaskProg Unit := do
  Prog.lift (if t.isTyped then typedTaskKey t.id else taskKey t.id)
  if t.state.isTerminal then
    let _ ← getTask t.id
  Prog.commit .memory fun s => s.put t

/-- `delete`: the report blocks of a v2 task go first. -/
def deleteTask (id : TaskId) : TaskProg Unit := do
  let s ← Prog.read
  Prog.lift (typedTaskKey id)
  if (s.record (true, id)).isSome then
    let task ← getTask id
    if task.isSome then Prog.beside .memory
    Prog.commit .memory fun s => s.erase (true, id)
  else do
    Prog.lift (taskKey id)
    if (s.record (false, id)).isSome then
      Prog.commit .memory fun s => s.erase (false, id)
    else throw .memory

-- ==== graphs and readiness

/-- The task, if its graph has no activation record. -/
def inactiveMark (s : Store) (t : Task) :
    Except AgentError (Option TaskId) :=
  match t.graphId with
  | none => .ok none
  | some graphId => do
      graphKey graphId
      .ok (if s.isActive graphId then none else some t.id)

/-- The tasks whose graphs have no activation record. -/
def inactiveTaskIds (s : Store) (tasks : List Task) :
    Except AgentError (List TaskId) := do
  let marked ← tasks.mapM (inactiveMark s)
  .ok (marked.filterMap fun id => id)

/-- The order that the next hash map has. -/
def freshOrder : TaskProg HashOrder :=
  Prog.withEnv fun env =>
    (env.orders.headD .asListed, { env with orders := env.orders.tail })

/-- A graph of all the given tasks, active or not. -/
def buildGraph (tasks : List Task) : TaskProg TaskGraph := do
  let order ← freshOrder
  pure (.build order tasks)

/-- `readiness_graph`. -/
def readinessGraph (tasks : List Task) : TaskProg TaskGraph := do
  let s ← Prog.read
  let inactive ← Prog.lift (inactiveTaskIds s tasks)
  let g ← buildGraph tasks
  pure (g.withInactive inactive)

-- ==== identifiers

/-- A number in at least `width` digits. -/
def padded (width n : Nat) : String :=
  let digits := toString n
  String.ofList (List.replicate (width - digits.length) '0')
    ++ digits

def taskIdOf (now seq : UInt64) : TaskId :=
  s!"t-{now.toNat}-{padded 6 seq.toNat}"

def graphIdOf (now seq : UInt64) : String :=
  s!"g-{now.toNat}-{padded 6 seq.toNat}"

/-- The first number from `seq` on whose name is free. There are no more
names taken than there are tasks, so that many more are tried. -/
def firstFree (name : UInt64 → String) (taken : List String)
    (seq : UInt64) : Option UInt64 :=
  ((List.range (taken.length + 1)).map fun i => seq + UInt64.ofNat i).find?
    fun n => !taken.contains (name n)

/-- A name that is not taken; the numbers up to it are used up. -/
def freshName (name : UInt64 → String) (taken : List String) :
    TaskProg String := do
  let found ← Prog.withEnv fun env =>
    match firstFree name taken env.seq with
    | some n => (some (name n), { env with seq := n + 1 })
    | none => (none, env)
  match found with
  | some id => pure id
  | none => throw .memory

/-- `unused_id`. -/
def unusedId (now : UInt64) (existing : List Task) : TaskProg TaskId :=
  freshName (taskIdOf now) (existing.map Task.id)

-- ==== the record limit

/-- Why a record over the limit is not started. -/
def refusedToStart : String :=
  "task record too large: the definition leaves no room for a result"

/-- `record_limit::check`; `what` is what made the record large. -/
def checkRecord (t : Task) (what : String) : Except String Unit :=
  let size := TaskHost.recordSize t
  if size ≤ TaskHost.recordLimit then .ok ()
  else
    .error (s!"task record too large: task {t.id}: {what} makes the task "
      ++ s!"record {size} bytes, over the {TaskHost.recordLimit} byte "
      ++ "limit for a task before its result; keep large data out of the "
      ++ "task (store it elsewhere and pass a reference)")

-- ==== what is noted on a task

/-- `set_input_snapshot`: an input that makes the record too large is a
failure of the input. -/
def withSnapshot (t : Task) (snapshot : InputSnapshot) : Task :=
  let t := { t with inputSnapshot := some snapshot }
  match checkRecord t "the resolved input" with
  | .ok () => t
  | .error message =>
    { t with
      inputSnapshot := some
        { value := .null
          failure := some
            { TaskFailure.new .input message with
              location := some "/bindings" } } }

def setInputSnapshot (id : TaskId) (snapshot : InputSnapshot) :
    TaskProg Task := do
  let t ← fetchTask id
  if !t.isTyped then
    throw (.invalidArgument
      s!"task {id} is not a typed task; it has no input snapshot")
  else do
    let t := withSnapshot t snapshot
    putTask t
    pure t

def setAccepted (id : TaskId) (accepted : CappedJson) : TaskProg Task := do
  let t ← fetchTask id
  if !t.isTyped then
    throw (.invalidArgument
      s!"task {id} is not a typed task; it has no raw result")
  else do
    let t := { t with accepted := some accepted }
    putTask t
    pure t

/-- A write that changes nothing of a task that is modelled: the token of
its report, or the link to the session of its agent. -/
def touchTask (id : TaskId) : TaskProg Task := do
  let t ← fetchTask id
  putTask t
  pure t

-- ==== following its programs

section Rules

variable {R : Store → Store → Prop} {d : TaskDisk}

theorem runs_getTask {Q : Option Task → TaskDisk → Prop}
    (h : Q (d.store.find id) d) : Runs R (getTask id) d Q := by
  unfold getTask
  refine Runs.read_bind (Runs.lift fun o ho => ?_)
  rw [Store.get_eq_ok ho]
  exact h

variable {Q : α → TaskDisk → Prop}

theorem runs_getTask_bind {f : Option Task → TaskProg α}
    (h : Runs R (f (d.store.find id)) d Q) : Runs R (getTask id >>= f) d Q := by
  refine (runs_getTask (Q := fun o d' => o = d.store.find id ∧ d' = d)
    ⟨rfl, rfl⟩).bind ?_
  rintro o d' - ⟨rfl, rfl⟩
  exact h

theorem runs_fetchTask {Q : Task → TaskDisk → Prop}
    (h : ∀ t, d.store.find id = some t → Q t d) :
    Runs R (fetchTask id) d Q := by
  unfold fetchTask
  refine runs_getTask_bind ?_
  cases hfind : d.store.find id with
  | none => exact .throw
  | some t => exact .pure (h t hfind)

omit [TaskHost] in
theorem runs_listTasks {Q : List Task → TaskDisk → Prop}
    (h : Q d.store.list d) : Runs R listTasks d Q := by
  unfold listTasks
  exact Runs.read_bind (.pure h)

theorem runs_fetchTask_bind {f : Task → TaskProg α}
    (h : ∀ t, d.store.find id = some t → Runs R (f t) d Q) :
    Runs R (fetchTask id >>= f) d Q := by
  refine (runs_fetchTask (Q := fun t d' => d.store.find id = some t ∧ d' = d)
    fun t ht => ⟨ht, rfl⟩).bind ?_
  rintro t d' - ⟨hfind, rfl⟩
  exact h t hfind

omit [TaskHost] in
theorem runs_listTasks_bind {f : List Task → TaskProg α}
    (h : Runs R (f d.store.list) d Q) : Runs R (listTasks >>= f) d Q := by
  refine (runs_listTasks (Q := fun all d' => all = d.store.list ∧ d' = d)
    ⟨rfl, rfl⟩).bind ?_
  rintro all d' - ⟨rfl, rfl⟩
  exact h

theorem runs_putTask {t : Task} {Q : Unit → TaskDisk → Prop}
    (hR : R d.store (d.store.put t))
    (hQ : ∀ d', d'.store = d.store.put t → Q () d') :
    Runs R (putTask t) d Q := by
  have hcommit : Runs R (Prog.commit AgentError.memory fun s => s.put t) d Q :=
    .commit hR hQ
  unfold putTask
  refine Runs.lift_bind fun _ _ => ?_
  dsimp only
  exact Runs.ite (fun _ => runs_getTask_bind hcommit) fun _ => hcommit

theorem runs_deleteTask {Q : Unit → TaskDisk → Prop}
    (hR : ∀ k : Slot, R d.store (d.store.erase k))
    (hQ : ∀ (k : Slot) (d' : TaskDisk), k.2 = id →
      (d.store.record k).isSome = true → d'.store = d.store.erase k →
      Q () d') : Runs R (deleteTask id) d Q := by
  unfold deleteTask
  refine Runs.read_bind (Runs.lift_bind fun _ _ => ?_)
  dsimp only
  refine Runs.ite (fun htyped => ?_) fun _ => ?_
  · refine runs_getTask_bind ?_
    have hcommit : ∀ d₃ : TaskDisk, d₃.store = d.store →
        Runs R (Prog.commit AgentError.memory fun s => s.erase (true, id))
          d₃ Q := by
      intro d₃ hd₃
      refine .commit (hd₃ ▸ hR _) fun d₄ hd₄ => ?_
      exact hQ (true, id) d₄ rfl htyped (hd₃ ▸ hd₄)
    refine Runs.ite (fun _ => ?_) fun _ => hcommit d rfl
    exact (Runs.beside (Q := fun _ d₃ => d₃.store = d.store)
      fun _ hd₃ => hd₃).bind fun _ d₃ _ hd₃ => hcommit d₃ hd₃
  · refine Runs.lift_bind fun _ _ => ?_
    exact Runs.ite
      (fun hplain => .commit (hR _) fun d₃ hd₃ => hQ _ d₃ rfl hplain hd₃)
      fun _ => .throw

omit [TaskHost] in
theorem runs_freshOrder {Q : HashOrder → TaskDisk → Prop}
    (h : ∀ order d', d'.store = d.store → Q order d') : Runs R freshOrder d Q :=
  .withEnv (h _ _ rfl)

omit [TaskHost] in
theorem runs_buildGraph {tasks : List Task} {Q : TaskGraph → TaskDisk → Prop}
    (h : ∀ order d', d'.store = d.store → Q (.build order tasks) d') :
    Runs R (buildGraph tasks) d Q := by
  unfold buildGraph
  refine (runs_freshOrder (Q := fun _ d' => d'.store = d.store)
    fun _ _ hd => hd).bind ?_
  intro order d' _ hd
  exact .pure (h order d' hd)

omit [TaskHost] in
theorem runs_buildGraph_bind {tasks : List Task} {f : TaskGraph → TaskProg α}
    (h : ∀ order d', d'.store = d.store →
      Runs R (f (.build order tasks)) d' Q) :
    Runs R (buildGraph tasks >>= f) d Q := by
  refine (runs_buildGraph (Q := fun g d' => d'.store = d.store ∧
    ∃ order, g = .build order tasks) fun order _ hd => ⟨hd, order, rfl⟩).bind ?_
  rintro g d' - ⟨hd, order, rfl⟩
  exact h order d' hd

variable {name : UInt64 → String}

omit [TaskHost] in
theorem firstFree_spec {taken : List String}
    {seq n : UInt64} (h : firstFree name taken seq = some n) :
    name n ∉ taken := by
  have hfree := List.find?_some h
  intro hmem
  simp [hmem] at hfree

omit [TaskHost] in
theorem runs_freshName {taken : List String} {Q : String → TaskDisk → Prop}
    (h : ∀ n d', name n ∉ taken → d'.store = d.store → Q (name n) d') :
    Runs R (freshName name taken) d Q := by
  unfold freshName
  refine (Runs.withEnv (Q := fun found d' => d'.store = d.store ∧
      ∀ id, found = some id → ∃ n, name n = id ∧ id ∉ taken)
    ?_).bind ?_
  · refine ⟨rfl, fun id hid => ?_⟩
    cases hfree : firstFree name taken d.env.seq with
    | none =>
      rw [hfree] at hid
      cases hid
    | some n =>
      rw [hfree] at hid
      cases hid
      exact ⟨n, rfl, firstFree_spec hfree⟩
  · rintro found d' - ⟨hd, hfound⟩
    cases found with
    | none => exact .throw
    | some id =>
      obtain ⟨n, rfl, hn⟩ := hfound id rfl
      exact .pure (h n d' hn hd)

end Rules

end Keys

end Tasty.Agent
