/-
Requests in one transaction (`group.rs`, `store.rs`): a group sees what its
requests have written, gives back what a request that fails has written, and
is published as a whole. An error of the database aborts it.
-/
import Mathlib.Logic.Relation
import Tasty.Journal.Commit

namespace Tasty.Journal

/-- A store that a journal was opened as. -/
structure EventStore where
  journalId : String
  maxPendingEffects : Nat
  /-- It holds the lock of the writer. -/
  isWriter : Bool

/-- `write_tx`: the store is the writer, and the epoch is the current one. -/
def EventStore.writeTx (s : EventStore) (db : Database)
    (epoch : WriterEpoch) : Except StoreError Unit :=
  if s.isWriter = false then .error .notWriter
  else if db.archived then .error .journalArchived
  else if db.writerEpoch ≠ epoch then
    .error (.fenced epoch db.writerEpoch)
  else .ok ()

/-- `register_epoch`. -/
def Database.registerEpoch (db : Database) :
    Except StoreError (WriterEpoch × Database) :=
  if db.archived then .error .journalArchived
  else do
    let next ← toI64 (db.writerEpoch + 1)
    .ok (next, { db with writerEpoch := next })

/-- `archive`. -/
def EventStore.archive (s : EventStore) (db : Database)
    (epoch : WriterEpoch) : Except StoreError Database := do
  s.writeTx db epoch
  .ok { db with archived := true }

-- ==== the requests

/-- The command of a request that is known by its key. -/
def Database.known (db : Database) (r : CommitRequest) :
    Except StoreError (Option CommandRecord) :=
  match r.command with
  | none => .ok none
  | some c =>
    match c.key with
    | none => .ok none
    | some key =>
      match db.findByKey key with
      | none => .ok none
      | some existing =>
        if existing.requestDigest ≠ c.requestDigest then
          .error (.keyConflict key.callerScope key.idempotencyKey)
        else .ok (some existing)

/-- `append_in`: a request that is not known is written. -/
def Database.appendIn (db : Database) (r : CommitRequest)
    (journalId : String) (effectLimit : Nat) :
    Except StoreError (Database × CommitOutcome × Nat) := do
  let known ← db.known r
  match known with
  | some existing => .ok (db, .duplicate existing, 0)
  | none => do
      db.requireEffectCapacity r.effects.length effectLimit
      let (db, batch, bytes) ← db.writeAll r journalId
      .ok (db, .committed batch, bytes)

/-- `CommitGroup`; `db` is what the transaction sees. -/
structure CommitGroup where
  db : Database
  journalId : String
  epoch : WriterEpoch
  effectLimit : Nat
  logical : Nat
  bytes : Nat
  poisoned : Bool

/-- `begin_commit_group`. -/
def EventStore.beginCommitGroup (s : EventStore) (db : Database)
    (epoch : WriterEpoch) : Except StoreError CommitGroup := do
  s.writeTx db epoch
  .ok
    { db, journalId := s.journalId, epoch, effectLimit := s.maxPendingEffects
      logical := 0, bytes := 0, poisoned := false }

/-- A request that was written. -/
def CommitGroup.wrote (g : CommitGroup) (db : Database) (bytes : Nat) :
    CommitGroup :=
  { g with
    db, logical := g.logical + 1
    bytes := min (g.bytes + bytes) (2 ^ 64 - 1) }

/-- `CommitGroup::append`; `fails` when the database fails at a statement.
A request that fails is rolled back to its savepoint. -/
def CommitGroup.append (g : CommitGroup) (r : CommitRequest)
    (fails : Bool) : Except StoreError CommitOutcome × CommitGroup :=
  if g.poisoned then (.error .groupAborted, g)
  else if r.writerEpoch ≠ g.epoch then
    (.error (.fenced r.writerEpoch g.epoch), g)
  else if fails then (.error .sqlite, { g with poisoned := true })
  else
    match g.db.appendIn r g.journalId g.effectLimit with
    | .ok (db, .committed batch, bytes) =>
      (.ok (.committed batch), g.wrote db bytes)
    | .ok (_, .duplicate record, _) => (.ok (.duplicate record), g)
    | .error e => (.error e, { g with poisoned := e = .sqlite })

/-- `finish`: the tables that are there after it. -/
def CommitGroup.finish (g : CommitGroup) (db : Database) (fails : Bool) :
    Except StoreError Unit × Database :=
  if g.poisoned then (.error .groupAborted, db)
  else if g.logical = 0 then (.ok (), db)
  else if fails then (.error .sqlite, db)
  else (.ok (), g.db)

/-- `commit`: a group of one request. -/
def EventStore.commit (s : EventStore) (db : Database) (r : CommitRequest)
    (fails : Bool) : Except StoreError CommitOutcome × Database :=
  match s.beginCommitGroup db r.writerEpoch with
  | .error e => (.error e, db)
  | .ok g =>
    match g.append r fails with
    | (.error e, _) => (.error e, db)
    | (.ok outcome, g) =>
      match g.finish db fails with
      | (.error e, db) => (.error e, db)
      | (.ok _, db) => (.ok outcome, db)

/-- `transition_effect`. -/
def EventStore.transitionEffect (s : EventStore) (db : Database)
    (epoch : WriterEpoch) (t : EffectTransition) :
    Except StoreError Database := do
  let _ ← budget t.charges 0
  s.writeTx db epoch
  db.applyTransition t s.journalId epoch

-- ==== runs

/-- A journal: the tables that are committed, and the group that is under
way. `applied` are the transitions of effects that the committed requests
have made, and `staged` those of the group. -/
structure State where
  db : Database
  group : Option CommitGroup
  applied : List EffectTransition
  staged : List EffectTransition

/-- A new journal, on which nothing was called. -/
def State.empty : State := ⟨.empty, none, [], []⟩

/-- The calls that write. A call that `fails` does so by an error of the
database. -/
inductive Call where
  | acquireWriter
  | archive (epoch : WriterEpoch)
  | commit (r : CommitRequest) (fails : Bool)
  | beginCommitGroup (epoch : WriterEpoch)
  | append (r : CommitRequest) (fails : Bool)
  | finish (fails : Bool)
  /-- The group is dropped. -/
  | abandon
  | transitionEffect (epoch : WriterEpoch) (t : EffectTransition)

/-- The transitions of a request that was written. -/
def CommitRequest.made (r : CommitRequest) :
    Except StoreError CommitOutcome → List EffectTransition
  | .ok (.committed _) => r.effectTransitions
  | _ => []

/-- A call of a store. While a group is under way only its own calls are
made: it borrows the store, and has the lock of the database. -/
def State.call (s : EventStore) (j : State) (c : Call) : State :=
  match j.group, c with
  | none, .acquireWriter =>
    match j.db.registerEpoch with
    | .ok (_, db) => { j with db }
    | .error _ => j
  | none, .archive epoch =>
    match s.archive j.db epoch with
    | .ok db => { j with db }
    | .error _ => j
  | none, .commit r fails =>
    let (outcome, db) := s.commit j.db r fails
    { j with db, applied := j.applied ++ r.made outcome }
  | none, .beginCommitGroup epoch =>
    match s.beginCommitGroup j.db epoch with
    | .ok g => { j with group := some g, staged := [] }
    | .error _ => j
  | none, .transitionEffect epoch t =>
    match s.transitionEffect j.db epoch t with
    | .ok db => { j with db, applied := j.applied ++ [t] }
    | .error _ => j
  | some g, .append r fails =>
    let (outcome, g) := g.append r fails
    { j with group := some g, staged := j.staged ++ r.made outcome }
  | some g, .finish fails =>
    match g.finish j.db fails with
    | (.ok _, db) =>
      { j with db, group := none, applied := j.applied ++ j.staged }
    | (.error _, db) => { j with db, group := none }
  | some _, .abandon => { j with group := none }
  | _, _ => j

/-- The calls of any stores, one after another. -/
def State.Step (j j' : State) : Prop :=
  ∃ (s : EventStore) (c : Call), j' = j.call s c

def State.Run : State → State → Prop :=
  Relation.ReflTransGen State.Step

def State.Reachable (j : State) : Prop := State.empty.Run j

end Tasty.Journal
