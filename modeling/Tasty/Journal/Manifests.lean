/-
Restore manifests (`manifest.rs`, `manifest_rebase.rs`): the view of a slot
together with the snapshot that it is a view of, under one key. A frozen
alias of a manifest is a manifest of its own that is not written again.
-/
import Tasty.Journal.Snapshots

namespace Tasty.Journal

structure NewRestoreManifest where
  restoreKey : String
  incarnation : Nat
  runtimeEpoch : Nat
  sequence : Nat
  snapshotId : SnapshotId
  view : Bytes
  /-- The payloads that it keeps on its own, beside those of its snapshot. -/
  referencedPayloads : List PayloadRef

structure RestoreManifest where
  incarnation : Nat
  runtimeEpoch : Nat
  sequence : Nat
  snapshot : DomainSnapshot
  view : Bytes

/-- The row of a manifest with its view. -/
def NewRestoreManifest.row (m : NewRestoreManifest) (view : PayloadRef) :
    ManifestRow :=
  ⟨m.restoreKey, m.incarnation, m.runtimeEpoch, m.sequence, m.snapshotId,
    view⟩

/-- `Budget::manifest`. -/
def NewRestoreManifest.charges (m : NewRestoreManifest) : List Charge :=
  [.record, .bytes m.view.length, .add m.restoreKey.utf8ByteSize,
    refsCharge m.referencedPayloads]

/-- `Budget::snapshot`. -/
def NewSnapshot.charges (s : NewSnapshot) : List Charge :=
  [.record, .bytes s.bytes.length, refsCharge s.referencedPayloads]

/-- The number of a manifest among those of its key. -/
abbrev ManifestNumber := Nat × Nat × Nat

def ManifestRow.number (m : ManifestRow) : ManifestNumber :=
  (m.incarnation, m.runtimeEpoch, m.sequence)

def ManifestNumber.precedes (a b : ManifestNumber) : Bool :=
  a.1 < b.1 || a.1 = b.1 && (a.2.1 < b.2.1 || a.2.1 = b.2.1 && a.2.2 < b.2.2)

namespace Database

/-- A row of `restore_manifests`. -/
def manifest (db : Database) (key : String) : Option ManifestRow :=
  Table.find ManifestRow.restoreKey key db.manifests

def snapshot (db : Database) (id : SnapshotId) : Option SnapshotRow :=
  Table.find SnapshotRow.snapshotId id db.snapshots

/-- `snapshot_row`. -/
def snapshotRow (db : Database) (id : SnapshotId) :
    Except StoreError SnapshotRow := do
  let id ← toI64 id
  match db.snapshot id with
  | none => .error (.restoreSnapshotMissing id)
  | some s => .ok s

/-- The key is that of a frozen alias. -/
def isFrozen (db : Database) (key : String) : Bool :=
  db.aliasInputs.any fun a => a.restoreKey = key

variable [Sha256]

/-- A manifest with its snapshot, both verified. -/
def readManifest (db : Database) (m : ManifestRow) :
    Except StoreError RestoreManifest := do
  let s ← db.snapshotRow m.snapshotId
  db.requireCursor (some s.batchId)
  let bytes ← db.verifySnapshot m.snapshotId s.payloadId
  let view ← db.readVerified m.payloadId
  db.verifyAll (db.pinnedBy (manifestHolder m.restoreKey))
  let cut ← db.cutAt s.batchId
  .ok ⟨m.incarnation, m.runtimeEpoch, m.sequence,
    ⟨m.snapshotId, cut, s.modelVersion, bytes⟩, view⟩

/-- `read_in`. -/
def readIn (db : Database) (key : String) :
    Except StoreError (Option RestoreManifest) :=
  match db.manifest key with
  | none => .ok none
  | some m => do
      let manifest ← db.readManifest m
      .ok (some manifest)

/-- The manifest that is there: a new one is of no older batch, and one of
the same number has the same view. -/
def requireSuccessor (db : Database) (key : String)
    (number : ManifestNumber) (batch : BatchId) (view : Bytes) :
    Except StoreError Unit :=
  match db.manifest key with
  | none => .ok ()
  | some old =>
    match db.snapshot old.snapshotId with
    | none => .ok ()
    | some s =>
      if batch < s.batchId then .error (.manifestRegression key)
      else if old.number ≠ number then .ok ()
      else do
        let stored ← db.readVerified old.payloadId
        reject (stored ≠ view) (.manifestRegression key)

/-- The rows of the explicit references of a manifest. -/
def referTo (db : Database) (key : String) (payloads : List PayloadRef) :
    List ManifestRefRow :=
  payloads.foldl (fun rows payload => Table.insertOrIgnore ⟨key, payload⟩ rows)
    (Table.delete (fun x => x.restoreKey = key) db.manifestRefs)

/-- `save_in`. -/
def saveIn (db : Database) (m : NewRestoreManifest) :
    Except StoreError Database := do
  let _ ← budget m.charges 0
  reject (db.isFrozen m.restoreKey) (.restoreAliasConflict m.restoreKey)
  let incarnation ← toI64 m.incarnation
  let runtimeEpoch ← toI64 m.runtimeEpoch
  let sequence ← toI64 m.sequence
  let number : ManifestNumber := (incarnation, runtimeEpoch, sequence)
  reject ((db.manifest m.restoreKey).any (number.precedes ·.number))
    (.manifestRegression m.restoreKey)
  let s ← db.snapshotRow m.snapshotId
  db.requireSuccessor m.restoreKey number s.batchId m.view
  db.requireCursor (some s.batchId)
  let _ ← db.verifySnapshot m.snapshotId s.payloadId
  let (db, view) ← db.insertPayload m.view
  let db ← db.replaceHolder (manifestHolder m.restoreKey)
    (m.referencedPayloads ++ [s.payloadId, view])
  .ok { db with
    manifests :=
      Table.upsert ManifestRow.restoreKey (m.row view) db.manifests
    manifestRefs := db.referTo m.restoreKey m.referencedPayloads }

/-- The batch of a request that is not known, as it is read in the
transaction that writes it. -/
def importBatch (db : Database) (r : CommitRequest) (journalId : String)
    (effectLimit : Nat) : Except StoreError (Database × StoredBatch) := do
  db.requireEffectCapacity r.effects.length effectLimit
  let (db, batch, _) ← db.writeAll r journalId
  match batch with
  | none => .error (.corrupt "restore import has no initial event batch")
  | some cut => do
      let stored ← db.loadBatch cut.batchId
      .ok (db, stored)

end Database

-- ==== operations

section Operations

variable [Sha256]

/-- `save_restore_manifest`. -/
def EventStore.saveRestoreManifest (s : EventStore) (db : Database)
    (epoch : WriterEpoch) (m : NewRestoreManifest) :
    Except StoreError Database := do
  s.writeTx db epoch
  db.saveIn m

/-- `save_restore_checkpoint`. -/
def EventStore.saveRestoreCheckpoint (s : EventStore) (db : Database)
    (epoch : WriterEpoch) (snapshot : NewSnapshot) (m : NewRestoreManifest) :
    Except StoreError (Database × SnapshotId) := do
  let _ ← budget (snapshot.charges ++ m.charges) 0
  s.writeTx db epoch
  let (db, id) ← db.insertSnapshot snapshot
  let db ← db.saveIn { m with snapshotId := id }
  let db ← db.retainSnapshots snapshot.modelVersion 2
  let (db, _) ← db.collectPayloads
  .ok (db, id)

/-- What an import is published with, made of its batch. -/
abbrev Prepare :=
  StoredBatch → Except StoreError (NewSnapshot × NewRestoreManifest)

/-- `commit_with_restore_checkpoint`. -/
def EventStore.commitWithRestoreCheckpoint (s : EventStore) (db : Database)
    (r : CommitRequest) (prepare : Prepare) :
    Except StoreError (Database × CommitOutcome) := do
  s.writeTx db r.writerEpoch
  let known ← db.known r
  match known with
  | some existing => .ok (db, .duplicate existing)
  | none => do
      let (db, batch) ← db.importBatch r s.journalId s.maxPendingEffects
      let (snapshot, m) ← prepare batch
      let _ ← budget (r.charges ++ snapshot.charges ++ m.charges) 0
      if snapshot.batchId ≠ batch.cut.batchId then
        .error (.corrupt "import snapshot differs from committed batch")
      else do
        let (db, id) ← db.insertSnapshot snapshot
        let db ← db.saveIn { m with snapshotId := id }
        let db ← db.retainSnapshots snapshot.modelVersion 2
        .ok (db, .committed (some batch.cut))

/-- `freeze_restore_alias`: a retry with the same input reads the alias. -/
def EventStore.freezeRestoreAlias (s : EventStore) (db : Database)
    (epoch : WriterEpoch) (key sourceKey : String) (requestDigest : Bytes) :
    Except StoreError (Database × RestoreManifest) := do
  let charges : List Charge :=
    [.record, .add key.utf8ByteSize, .add sourceKey.utf8ByteSize,
      .add requestDigest.length]
  let used ← budget charges 0
  s.writeTx db epoch
  match Table.find AliasInputRow.restoreKey key db.aliasInputs with
  | some input =>
    if input.sourceKey ≠ sourceKey ∨ input.requestDigest ≠ requestDigest then
      .error (.restoreAliasConflict key)
    else do
      let manifest ← db.readIn key
      match manifest with
      | none => .error (.corrupt "frozen restore alias lost its manifest")
      | some manifest => .ok (db, manifest)
  | none =>
    if key = sourceKey ∨ (db.manifest key).isSome then
      .error (.restoreAliasConflict key)
    else do
      let selected ← db.readIn sourceKey
      match selected with
      | none => .error (.corrupt "source restore manifest is missing")
      | some selected => do
          let m : NewRestoreManifest :=
            ⟨key, selected.incarnation, selected.runtimeEpoch,
              selected.sequence, selected.snapshot.snapshotId,
              selected.view, db.pinnedBy (manifestHolder sourceKey)⟩
          let _ ← budget m.charges used
          let db ← db.saveIn m
          .ok ({ db with
              aliasInputs :=
                db.aliasInputs ++ [⟨key, sourceKey, requestDigest⟩] },
            selected)

/-- The last revision of a stream up to a batch. -/
def Database.revisionAt (db : Database) (stream : StreamId)
    (batch : BatchId) : Option Revision :=
  ((db.batchRevisions.filter fun r =>
    r.streamId = stream && r.batchId ≤ batch).map
      BatchRevisionRow.lastRevision).max?

/-- A snapshot that is not there ends a rebase with an error of the
database. -/
def Database.rebaseRow (db : Database) (id : SnapshotId) :
    Except StoreError SnapshotRow := do
  let id ← toI64 id
  match db.snapshot id with
  | none => .error .sqlite
  | some s => .ok s

/-- The manifest moves from one snapshot to another: the new body is pinned
before the old one is released, unless that is kept explicitly. -/
def Database.moveManifest (db : Database) (key : String)
    (source target : SnapshotRow) : Except StoreError Database := do
  let db ← db.pin target.payloadId (manifestHolder key)
  let explicit := db.manifestRefs.any fun x =>
    x.restoreKey = key && x.payloadId = source.payloadId
  let db := if source.payloadId ≠ target.payloadId ∧ explicit = false then
      { db with
        pins := Table.delete (fun p => p.holder = manifestHolder key
          && p.payloadId = source.payloadId) db.pins }
    else db
  .ok { db with
    manifests := Table.update (fun m => m.restoreKey = key)
      (fun m => { m with snapshotId := target.snapshotId }) db.manifests }

/-- `rebase_restore_manifest`. -/
def EventStore.rebaseRestoreManifest (s : EventStore) (db : Database)
    (epoch : WriterEpoch) (key : String) (stream : StreamId)
    (target : SnapshotId) : Except StoreError (Database × Bool) := do
  s.writeTx db epoch
  match db.manifest key with
  | none => .ok (db, false)
  | some m =>
    if db.isFrozen key ∨ m.snapshotId = target then .ok (db, false)
    else do
      let old ← db.rebaseRow m.snapshotId
      let new ← db.rebaseRow target
      let before := db.revisionAt stream old.batchId
      if new.batchId < old.batchId ∨ new.modelVersion ≠ old.modelVersion
          ∨ before = none ∨ before ≠ db.revisionAt stream new.batchId then
        .ok (db, false)
      else do
        db.requireCursor (some new.batchId)
        let _ ← db.verifySnapshot m.snapshotId old.payloadId
        let _ ← db.verifySnapshot target new.payloadId
        let db ← db.moveManifest key old new
        .ok (db, true)

/-- `delete_restore_manifest`; what refers to the manifest goes with it. -/
def EventStore.deleteRestoreManifest (s : EventStore) (db : Database)
    (epoch : WriterEpoch) (key : String) (incarnation : Nat) :
    Except StoreError (Database × Bool) := do
  s.writeTx db epoch
  let incarnation ← toI64 incarnation
  let isIt (m : ManifestRow) : Bool :=
    m.restoreKey = key && m.incarnation = incarnation
  if db.manifests.any isIt then
    .ok ({ db with
        manifests := Table.delete isIt db.manifests
        manifestRefs :=
          Table.delete (fun x => x.restoreKey = key) db.manifestRefs
        aliasInputs :=
          Table.delete (fun a => a.restoreKey = key) db.aliasInputs
        }.release (manifestHolder key), true)
  else .ok (db, false)

end Operations

end Tasty.Journal
