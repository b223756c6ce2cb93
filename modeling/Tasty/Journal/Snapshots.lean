/-
Snapshots of the model and the history behind them (`payload.rs`,
`snapshot.rs`, `read.rs`, `retention.rs`): a snapshot is a payload that its
own pins keep, and events are removed up to one that replay can start from.
-/
import Mathlib.Data.List.Sort
import Tasty.Journal.Group

namespace Tasty.Journal

/-- The checksum of a payload. -/
class Sha256 where
  digest : Bytes → Bytes

structure NewSnapshot where
  batchId : BatchId
  modelVersion : UInt32
  bytes : Bytes
  referencedPayloads : List PayloadRef

structure DomainSnapshot where
  snapshotId : SnapshotId
  cut : JournalCut
  modelVersion : UInt32
  bytes : Bytes

/-- A snapshot, if there is one, and the batches after it. -/
structure Replay where
  snapshot : Option DomainSnapshot
  /-- The snapshots that could not be verified. -/
  rejected : List (SnapshotId × StoreError)
  tail : List StoredBatch

structure Compaction where
  retainedAfterBatch : BatchId
  removedEvents : Nat
  removedPayloads : Nat

/-- `snapshot_holder`. -/
def snapshotHolder (id : SnapshotId) : String := s!"snapshot:{id}"

def liveHolder (consumer : String) : String := s!"live:{consumer}"

/-- The holder name of a manifest. -/
def manifestHolder (key : String) : String := s!"restore-manifest:{key}"

-- ==== reading

namespace Database

/-- `retention::floor`: events up to here were removed. -/
def floor (db : Database) : Option BatchId :=
  db.anchor.map RetentionAnchor.batchId

/-- `anchor_snapshot`. -/
def anchorSnapshot (db : Database) : Option SnapshotId :=
  db.anchor.map RetentionAnchor.snapshotId

/-- `require_cursor`. -/
def requireCursor (db : Database) (after : Option BatchId) :
    Except StoreError Unit :=
  match db.floor with
  | none => .ok ()
  | some floor =>
    if after.all (· < floor) then .error (.resyncRequired floor)
    else .ok ()

/-- The heads of the streams after a batch. -/
def headsAt (db : Database) (batchId : BatchId) :
    BTreeMap StreamId Revision :=
  (db.batchRevisions.filter fun r => r.batchId ≤ batchId).foldl
    (fun m r => m.insert r.streamId
      (max r.lastRevision (m[r.streamId]?.getD 0))) ∅

/-- `cut_at`. -/
def cutAt (db : Database) (batchId : BatchId) :
    Except StoreError JournalCut := do
  let id ← toI64 batchId
  if db.batches.any fun b => b.batchId = id then
    .ok ⟨some batchId, db.headsAt id⟩
  else .error (.unknownBatch batchId)

/-- A batch as it is read, with all its events. -/
def stored (db : Database) (b : BatchRow) : StoredBatch where
  cut :=
    { batchId := b.batchId
      revisions := (db.batchRevisions.filter fun r =>
        r.batchId = b.batchId).foldl
          (fun m r => m.insert r.streamId r.lastRevision) ∅ }
  commandId := b.commandId
  events := (db.events.filter fun e =>
    e.batchId = b.batchId).insertionSort fun e e' =>
      e.batchIndex ≤ e'.batchIndex

/-- `load_batch`. -/
def loadBatch (db : Database) (batchId : BatchId) :
    Except StoreError StoredBatch := do
  reject (db.floor.any (batchId ≤ ·)) (.resyncRequired (db.floor.getD 0))
  let id ← toI64 batchId
  match Table.find BatchRow.batchId id db.batches with
  | none => .error (.unknownBatch batchId)
  | some b => .ok (db.stored b)

/-- `batches_after`, without a limit. -/
def batchesAfter (db : Database) (after : Option BatchId) :
    Except StoreError (List StoredBatch) := do
  db.requireCursor after
  let cursor ← toI64 (after.getD 0)
  let rows := (db.batches.filter fun b => cursor < b.batchId).insertionSort
    fun b b' => b.batchId ≤ b'.batchId
  rows.mapM fun b => db.loadBatch b.batchId

-- ==== payloads

section Payloads

variable [Sha256]

/-- `payload::insert`. -/
def insertPayload (db : Database) (bytes : Bytes) :
    Except StoreError (Database × PayloadRef) := do
  blob bytes.length
  let id ← nextRowid db.lastPayload
  let row : PayloadRow := ⟨id, Sha256.digest bytes, bytes⟩
  .ok ({ db with payloads := db.payloads ++ [row], lastPayload := id }, id)

/-- `read_verified`. -/
def readVerified (db : Database) (payload : PayloadRef) :
    Except StoreError Bytes := do
  let id ← toI64 payload
  match Table.find PayloadRow.payloadId id db.payloads with
  | none => .error (.payloadMissing payload)
  | some row =>
    if Sha256.digest row.bytes ≠ row.sha256 then
      .error (.payloadCorrupt payload)
    else .ok row.bytes

def verifyAll (db : Database) : List PayloadRef → Except StoreError Unit
  | [] => .ok ()
  | payload :: rest => do
      let _ ← db.readVerified payload
      db.verifyAll rest

/-- The payloads that a holder has pinned. -/
def pinnedBy (db : Database) (holder : String) : List PayloadRef :=
  (db.pins.filter fun p => p.holder = holder).map PinRow.payloadId

/-- The pins of a holder are released. -/
def release (db : Database) (holder : String) : Database :=
  { db with pins := Table.delete (fun p => p.holder = holder) db.pins }

/-- `replace_holder_in`. -/
def replaceHolder (db : Database) (holder : String)
    (references : List PayloadRef) : Except StoreError Database := do
  db.verifyAll references
  (db.release holder).pinAll holder references

def isPinned (db : Database) (payload : PayloadRef) : Bool :=
  db.pins.any fun p => p.payloadId = payload

/-- A row of another table refers to the payload. -/
def isReferenced (db : Database) (payload : PayloadRef) : Bool :=
  (db.snapshots.any fun s => s.payloadId = payload)
    || db.manifests.any fun m => m.payloadId = payload

/-- The payloads without a pin are deleted: the tables, and how many. -/
def collectPayloads (db : Database) :
    Except StoreError (Database × Nat) := do
  let unpinned := db.payloads.filter fun p => !db.isPinned p.payloadId
  require (unpinned.all fun p => !db.isReferenced p.payloadId)
  .ok ({ db with
      payloads := Table.delete (fun p => !db.isPinned p.payloadId)
        db.payloads }, unpinned.length)

-- ==== snapshots

/-- `insert_snapshot`. -/
def insertSnapshot (db : Database) (s : NewSnapshot) :
    Except StoreError (Database × SnapshotId) := do
  let _ ← budget
    [.record, .bytes s.bytes.length, refsCharge s.referencedPayloads] 0
  let _ ← db.cutAt s.batchId
  let (db, body) ← db.insertPayload s.bytes
  let id ← nextRowid db.lastSnapshot
  let row : SnapshotRow := ⟨id, s.batchId, s.modelVersion, body⟩
  let db := { db with snapshots := db.snapshots ++ [row], lastSnapshot := id }
  let db ← db.pin body (snapshotHolder id)
  let db ← db.pinAll (snapshotHolder id) s.referencedPayloads
  .ok (db, id)

/-- `verify_snapshot`. -/
def verifySnapshot (db : Database) (id : SnapshotId) (body : PayloadRef) :
    Except StoreError Bytes := do
  let bytes ← db.readVerified body
  db.verifyAll (db.pinnedBy (snapshotHolder id))
  .ok bytes

/-- The pin is one of explicit bytes: its holder is a manifest of another
snapshot that refers to the payload on its own. -/
def isExplicit (db : Database) (s : SnapshotRow) (pin : PinRow) : Bool :=
  db.manifests.any fun m => db.manifestRefs.any fun x =>
    x.restoreKey = m.restoreKey && pin.holder = manifestHolder m.restoreKey
      && m.snapshotId ≠ s.snapshotId && x.payloadId = pin.payloadId

/-- `externally_held`. -/
def externallyHeld (db : Database) (id : SnapshotId) : Bool :=
  db.snapshots.any fun s => s.snapshotId = id
    && db.pins.any fun pin => pin.payloadId = s.payloadId
      && pin.holder ≠ snapshotHolder id && !db.isExplicit s pin

/-- A snapshot is deleted with its pins, unless another table refers to
it. -/
def dropSnapshot (db : Database) (id : SnapshotId) :
    Except StoreError Database := do
  require (db.anchorSnapshot ≠ some id
    && !db.manifests.any fun m => m.snapshotId = id)
  .ok ({ db with
    snapshots := Table.delete (fun s => s.snapshotId = id)
      db.snapshots }.release (snapshotHolder id))

/-- The latest batch first, and of one batch the latest snapshot. -/
def newer (s s' : SnapshotRow) : Prop :=
  s'.batchId < s.batchId
    ∨ s.batchId = s'.batchId ∧ s'.snapshotId ≤ s.snapshotId

instance : DecidableRel newer := fun _ _ =>
  inferInstanceAs (Decidable (_ ∨ _))

/-- A damaged payload, which does not end a search. -/
def isDamage : StoreError → Bool
  | .payloadCorrupt _ | .payloadMissing _ => true
  | _ => false

/-- The loop of `retain_snapshots`; `keep` snapshots are still to be
verified. -/
def retainLoop : List SnapshotRow → Nat → Database →
    Except StoreError Database
  | [], _, db => .ok db
  | s :: rest, keep + 1, db =>
    match db.verifySnapshot s.snapshotId s.payloadId with
    | .ok _ => retainLoop rest keep db
    | .error e => if isDamage e then retainLoop rest (keep + 1) db
        else .error e
  | s :: rest, 0, db =>
    if db.externallyHeld s.snapshotId
        || db.anchorSnapshot = some s.snapshotId then
      retainLoop rest 0 db
    else do
      let db ← db.dropSnapshot s.snapshotId
      retainLoop rest 0 db

/-- `retain_snapshots`. -/
def retainSnapshots (db : Database) (version : UInt32) (keep : Nat) :
    Except StoreError Database :=
  retainLoop ((db.snapshots.filter fun s =>
    s.modelVersion = version).insertionSort newer) keep db

/-- The loop of `latest_valid`: the first snapshot that is not behind the
floor and can be verified, and those that could not. -/
def latestLoop (db : Database) :
    List SnapshotRow → List (SnapshotId × StoreError) →
      Except StoreError
        (Option DomainSnapshot × List (SnapshotId × StoreError))
  | [], rejected =>
    match db.floor with
    | some floor => .error (.resyncRequired floor)
    | none => .ok (none, rejected)
  | s :: rest, rejected =>
    if db.floor.any (s.batchId < ·) then db.latestLoop rest rejected
    else
      match db.verifySnapshot s.snapshotId s.payloadId with
      | .ok bytes => do
          let cut ← db.cutAt s.batchId
          .ok (some ⟨s.snapshotId, cut, s.modelVersion, bytes⟩, rejected)
      | .error e =>
        if isDamage e then
          db.latestLoop rest (rejected ++ [(s.snapshotId, e)])
        else .error e

/-- `snapshot_and_tail`. -/
def snapshotAndTail (db : Database) (version : UInt32) :
    Except StoreError Replay := do
  let (snapshot, rejected) ← db.latestLoop ((db.snapshots.filter fun s =>
    s.modelVersion = version).insertionSort newer) []
  let tail ← db.batchesAfter (snapshot.bind fun s => s.cut.lastBatch)
  .ok ⟨snapshot, rejected, tail⟩

-- ==== checkpoints

/-- The position of a consumer. -/
def checkpoint (db : Database) (consumer : String) (version : UInt32) :
    Option CheckpointRow :=
  Table.find (fun c => (c.consumerId, c.projectionVersion))
    (consumer, version) db.checkpoints

/-- `advance_checkpoint`. -/
def advanceCheckpoint (db : Database) (consumer : String) (version : UInt32)
    (batchId : BatchId) : Except StoreError Database := do
  reject ((consumer, version) ∈ db.projectionScopes)
    (.projectionScope "scoped consumer requires scoped projection API")
  db.requireCursor (some batchId)
  let _ ← db.cutAt batchId
  let current := (db.checkpoint consumer version).map CheckpointRow.batchId
  reject (current.any (batchId < ·))
    (.checkpointRegression consumer (current.getD 0) batchId)
  .ok { db with
    checkpoints := Table.upsert (fun c => (c.consumerId, c.projectionVersion))
      ⟨consumer, version, batchId⟩ db.checkpoints }

-- ==== compaction

/-- The snapshots of a version that can be verified, at most `keep` of
them. -/
def validSnapshots (db : Database) (version : UInt32) :
    List SnapshotRow → Nat → Except StoreError (List SnapshotRow)
  | [], _ => .ok []
  | _ :: _, 0 => .ok []
  | s :: rest, keep + 1 =>
    if s.modelVersion ≠ version then db.validSnapshots version rest (keep + 1)
    else
      match db.verifySnapshot s.snapshotId s.payloadId with
      | .ok _ => do
          let valid ← db.validSnapshots version rest keep
          .ok (s :: valid)
      | .error e =>
        if isDamage e then db.validSnapshots version rest (keep + 1)
        else .error e

/-- The boundary moves back to each older snapshot that is held; there is
none when one of another version is. -/
def heldBoundary (db : Database) (version : UInt32) :
    List SnapshotRow → SnapshotRow → Except StoreError (Option SnapshotRow)
  | [], boundary => .ok (some boundary)
  | s :: rest, boundary =>
    if boundary.batchId ≤ s.batchId then
      db.heldBoundary version rest boundary
    else if db.externallyHeld s.snapshotId then
      if s.modelVersion ≠ version then .ok none
      else do
        let _ ← db.verifySnapshot s.snapshotId s.payloadId
        db.heldBoundary version rest s
    else db.heldBoundary version rest boundary

/-- The last revisions of the streams up to a batch. -/
def revisionsUpTo (db : Database) (batchId : BatchId) : List HeadRow :=
  (db.batchRevisions.filter fun r => r.batchId ≤ batchId).foldl
    (fun rows r => Table.upsert HeadRow.streamId
      ⟨r.streamId, max r.lastRevision
        (((Table.find HeadRow.streamId r.streamId rows).map
          HeadRow.revision).getD 0)⟩ rows) []

/-- The older snapshots are deleted. -/
def dropOlder (boundary : BatchId) :
    List SnapshotRow → Database → Except StoreError Database
  | [], db => .ok db
  | s :: rest, db =>
    if s.batchId < boundary then do
      let db ← db.dropSnapshot s.snapshotId
      dropOlder boundary rest db
    else dropOlder boundary rest db

/-- The events up to the boundary are removed, with their pins; their
identities stay. -/
def removeEvents (db : Database) (boundary : BatchId) :
    Except StoreError (Database × Nat) := do
  let old := db.events.filter fun e => e.batchId ≤ boundary
  require (old.all fun e => e.eventId ∉ db.retainedEventIds)
  .ok ({ db with
    retainedEventIds := db.retainedEventIds ++ old.map StoredEvent.eventId
    pins := Table.delete (fun p =>
      old.any fun e => p.holder = eventHolder e.eventId) db.pins
    events := Table.delete (fun e => e.batchId ≤ boundary) db.events },
    old.length)

/-- `compact_history`, behind the boundary that was found. -/
def compactBehind (db : Database) (boundary : SnapshotRow)
    (snapshots : List SnapshotRow) :
    Except StoreError (Database × Compaction) := do
  let db := { db with
    anchor := some ⟨boundary.batchId, boundary.snapshotId⟩
    retainedRevisions := db.revisionsUpTo boundary.batchId }
  let db ← dropOlder boundary.batchId snapshots db
  let (db, removedEvents) ← db.removeEvents boundary.batchId
  let (db, removedPayloads) ← db.collectPayloads
  .ok (db, ⟨boundary.batchId, removedEvents, removedPayloads⟩)

/-- `compact_history`: nothing is done without two snapshots of the version,
or behind the floor. -/
def compactHistory (db : Database) (version : UInt32) :
    Except StoreError (Database × Option Compaction) := do
  let snapshots := db.snapshots.insertionSort newer
  let valid ← db.validSnapshots version snapshots 2
  match valid[1]? with
  | none => .ok (db, none)
  | some second => do
      let boundary ← db.heldBoundary version snapshots second
      match boundary with
      | none => .ok (db, none)
      | some boundary =>
        if db.floor.any (boundary.batchId ≤ ·) then .ok (db, none)
        else do
          let (db, compaction) ← db.compactBehind boundary snapshots
          .ok (db, some compaction)

end Payloads

end Database

-- ==== operations

section Operations

variable [Sha256]

/-- `put_payload`. -/
def EventStore.putPayload (s : EventStore) (db : Database)
    (epoch : WriterEpoch) (bytes : Bytes) :
    Except StoreError (Database × PayloadRef) := do
  s.writeTx db epoch
  db.insertPayload bytes

/-- `gc_payloads`. -/
def EventStore.gcPayloads (s : EventStore) (db : Database)
    (epoch : WriterEpoch) : Except StoreError (Database × Nat) := do
  s.writeTx db epoch
  db.collectPayloads

/-- `save_snapshot`. -/
def EventStore.saveSnapshot (s : EventStore) (db : Database)
    (epoch : WriterEpoch) (snapshot : NewSnapshot) :
    Except StoreError (Database × SnapshotId) := do
  s.writeTx db epoch
  db.insertSnapshot snapshot

/-- `save_live_snapshot`. -/
def EventStore.saveLiveSnapshot (s : EventStore) (db : Database)
    (epoch : WriterEpoch) (snapshot : NewSnapshot) (consumer : String) :
    Except StoreError (Database × SnapshotId) := do
  s.writeTx db epoch
  reject (consumer ∈ db.projectionRows)
    (.checkpointOwnedByProjection consumer)
  let db ← db.advanceCheckpoint consumer snapshot.modelVersion
    snapshot.batchId
  let (db, id) ← db.insertSnapshot snapshot
  let db ← db.replaceHolder (liveHolder consumer)
    snapshot.referencedPayloads
  let db ← db.retainSnapshots snapshot.modelVersion 2
  let (db, _) ← db.collectPayloads
  .ok (db, id)

/-- `delete_snapshot`. -/
def EventStore.deleteSnapshot (s : EventStore) (db : Database)
    (epoch : WriterEpoch) (id : SnapshotId) : Except StoreError Database := do
  s.writeTx db epoch
  reject (db.anchorSnapshot = some id)
    (.corrupt "cannot delete the retained history anchor snapshot")
  reject (db.externallyHeld id)
    (.corrupt "cannot delete a snapshot retained by an external holder")
  let _ ← toI64 id
  db.dropSnapshot id

/-- `compact_history`. -/
def EventStore.compactHistory (s : EventStore) (db : Database)
    (epoch : WriterEpoch) (version : UInt32) :
    Except StoreError (Database × Option Compaction) := do
  s.writeTx db epoch
  db.compactHistory version

end Operations

end Tasty.Journal
