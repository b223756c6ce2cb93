/-
The values of the journal (`crates/tasty-event-store`): batches of events,
commands with their retry keys, and effects, which are carried out in
attempts that hold a claim. Its tables and the limits of their columns
(`schema.rs`, `store.rs`, `write_limits.rs`). A transaction is a computation
on the tables that may fail: what it wrote is then lost, which is its
rollback.
-/
import Mathlib.Algebra.GroupWithZero.Nat
import Tasty.Lib.BTreeMap
import Tasty.Lib.Table

namespace Tasty.Journal

abbrev Bytes := List UInt8

/-- `StreamId`. -/
abbrev StreamId := String

abbrev Revision := Nat

abbrev BatchId := Nat

abbrev WriterEpoch := Nat

abbrev PayloadRef := Nat

abbrev SnapshotId := Nat

inductive ExpectedRevision where
  | noStream
  | exact (revision : Revision)
  | any
deriving DecidableEq

structure OpaquePayload where
  typeTag : String
  schemaVersion : UInt32
  bytes : Bytes
deriving DecidableEq

-- ==== commands

structure CommandKey where
  callerScope : String
  idempotencyKey : String
deriving DecidableEq

inductive CommandStatus where
  | accepted
  | inProgress
  | completed
  | failed
  | cancelled
deriving DecidableEq

def CommandStatus.isTerminal : CommandStatus → Bool
  | completed | failed | cancelled => true
  | _ => false

def CommandStatus.stage : CommandStatus → Nat
  | accepted => 0
  | inProgress => 1
  | completed | failed | cancelled => 2

structure NewCommand where
  commandId : String
  key : Option CommandKey
  requestDigest : Bytes
  resolved : Bytes
  status : CommandStatus
  response : Option Bytes
deriving DecidableEq

structure CommandUpdate where
  commandId : String
  status : CommandStatus
  response : Option Bytes

/-- A command as it is read, with the batches that it made. -/
structure CommandRecord where
  commandId : String
  key : Option CommandKey
  requestDigest : Bytes
  resolved : Bytes
  status : CommandStatus
  response : Option Bytes
  batchIds : List BatchId
deriving DecidableEq

-- ==== events

structure NewEvent where
  eventId : String
  payload : OpaquePayload
  recordedAtMs : Nat
  causationId : Option String
  actor : String
  origin : String
  payloadRefs : List PayloadRef

structure StreamAppend where
  streamId : StreamId
  expected : ExpectedRevision
  events : List NewEvent

/-- `StoredEvent`, which is also the row of an event. -/
structure StoredEvent where
  streamId : StreamId
  streamRevision : Revision
  eventId : String
  batchId : BatchId
  batchIndex : Nat
  payload : OpaquePayload
  recordedAtMs : Nat
  commandId : Option String
  causationId : Option String
  actor : String
  origin : String
deriving DecidableEq

/-- The streams that a batch changed, with their revisions after it. -/
structure BatchCut where
  batchId : BatchId
  revisions : BTreeMap StreamId Revision

structure StoredBatch where
  cut : BatchCut
  commandId : Option String
  events : List StoredEvent

/-- The last batch, and the heads of all streams. -/
structure JournalCut where
  lastBatch : Option BatchId
  heads : BTreeMap StreamId Revision

-- ==== effects

inductive EffectState where
  | pending
  /-- An attempt holds the claim to carry it out. -/
  | running
  /-- It waits, and only proceeds when it is activated. -/
  | deferred
  | succeeded
  | failed
  | cancelled
  | superseded
  /-- The result of its last attempt is not known. -/
  | uncertain
deriving DecidableEq

def EffectState.canTransitionTo : EffectState → EffectState → Bool
  | pending, running | pending, deferred | pending, cancelled
  | pending, superseded => true
  | deferred, pending | deferred, running | deferred, cancelled
  | deferred, superseded => true
  | running, succeeded | running, failed | running, uncertain => true
  | failed, pending => true
  | uncertain, succeeded | uncertain, failed | uncertain, cancelled => true
  | _, _ => false

structure ActivationClaim where
  engineId : String
  surfaceId : Option String
  runtimeEpoch : Nat
  activationGeneration : Nat
deriving DecidableEq

structure ObligationClaim where
  engineId : String
  engineIncarnation : Nat
  operationId : String
  runtimeEpoch : Nat
deriving DecidableEq

inductive ClaimKind where
  | activation
  | obligation
deriving DecidableEq

inductive EffectClaim where
  | activation (claim : ActivationClaim)
  | obligation (claim : ObligationClaim)
deriving DecidableEq

structure NewEffect where
  claimKind : ClaimKind
  effectId : String
  operationId : String
  resourceGeneration : Nat
  payload : OpaquePayload
  initial : EffectState

structure EffectTransition where
  effectId : String
  source : EffectState
  target : EffectState
  resourceGeneration : Nat
  /-- The attempt that reports its result, out of `running`. -/
  attempt : Option Nat
  /-- The claim of the attempt that begins, into `running`. -/
  claim : Option EffectClaim
  result : Option Bytes
deriving DecidableEq

-- ==== requests

/-- `CommitRequest`: what is written at once. -/
structure CommitRequest where
  writerEpoch : WriterEpoch
  command : Option NewCommand
  appends : List StreamAppend
  commandUpdates : List CommandUpdate
  effects : List NewEffect
  effectTransitions : List EffectTransition

def CommitRequest.new (writerEpoch : WriterEpoch) : CommitRequest :=
  ⟨writerEpoch, none, [], [], [], []⟩

inductive CommitOutcome where
  | committed (batch : Option BatchCut)
  | duplicate (record : CommandRecord)

-- ==== errors

inductive StoreError where
  | groupAborted
  | writeSizeExceeded (kind : String) (bytes limit : Nat)
  | pendingEffectCapacity (pending newEffects limit : Nat)
  | projectionScope (message : String)
  /-- An error of the database. -/
  | sqlite
  | journalArchived
  | notWriter
  | fenced (presented current : WriterEpoch)
  | revisionConflict (stream : StreamId) (expected : ExpectedRevision)
      (actual : Option Revision)
  | emptyAppend (stream : StreamId)
  | duplicateStream (stream : StreamId)
  | keyConflict (callerScope idempotencyKey : String)
  | unknownCommand (commandId : String)
  | commandFinished (commandId : String) (status : CommandStatus)
  | commandRegression (commandId : String) (source target : CommandStatus)
  | unknownEffect (effectId : String)
  | effectStateMismatch (effectId : String) (expected actual : EffectState)
  | invalidEffectTransition (effectId : String)
      (source target : EffectState)
  | staleGeneration (effectId : String) (presented current : Nat)
  | staleAttempt (effectId : String) (presented : Option Nat)
      (current : Nat)
  | invalidInitialEffectState (effectId : String) (state : EffectState)
  | evidenceRequired (effectId : String)
  | claimRequired (effectId : String)
  | claimHeld (effectId holder : String)
  | payloadMissing (payload : PayloadRef)
  | payloadCorrupt (payload : PayloadRef)
  | unknownBatch (batch : BatchId)
  | resyncRequired (retainedAfterBatch : BatchId)
  | checkpointRegression (consumerId : String) (current requested : BatchId)
  | checkpointOwnedByProjection (consumerId : String)
  | restoreAliasConflict (restoreKey : String)
  | manifestRegression (restoreKey : String)
  | restoreSnapshotMissing (snapshot : SnapshotId)
  | corrupt (message : String)
deriving DecidableEq

-- ==== the rows

structure HeadRow where
  streamId : StreamId
  revision : Revision
deriving DecidableEq

structure BatchRow where
  batchId : BatchId
  commandId : Option String
  writerEpoch : WriterEpoch
deriving DecidableEq

/-- The revisions of a stream that a batch made. -/
structure BatchRevisionRow where
  batchId : BatchId
  streamId : StreamId
  firstRevision : Revision
  lastRevision : Revision
deriving DecidableEq

structure EffectRow where
  claimKind : ClaimKind
  effectId : String
  operationId : String
  resourceGeneration : Nat
  causeBatchId : Option BatchId
  commandId : Option String
  payload : OpaquePayload
  state : EffectState
  attempt : Nat
  result : Option Bytes
deriving DecidableEq

/-- An activation claim as it is stored: no surface is the empty one. -/
structure ActivationKey where
  engineId : String
  surfaceId : String
  runtimeEpoch : Nat
  activationGeneration : Nat
deriving DecidableEq

/-- The claim columns of an attempt; the kind says which of them are null. -/
inductive AttemptClaim where
  | activation (key : ActivationKey)
  | obligation (claim : ObligationClaim)
deriving DecidableEq

structure AttemptRow where
  effectId : String
  attempt : Nat
  journalId : String
  claim : AttemptClaim
  writerEpoch : WriterEpoch
  /-- The state out of `running`, when the attempt has ended. -/
  outcome : Option EffectState
  result : Option Bytes
  /-- How an attempt that ended uncertain was reconciled. -/
  reconciledOutcome : Option EffectState
  reconciledResult : Option Bytes
deriving DecidableEq

/-- A claim and the effect that holds it. -/
structure Held (κ : Type) where
  claim : κ
  effectId : String
deriving DecidableEq

structure PayloadRow where
  payloadId : PayloadRef
  sha256 : Bytes
  bytes : Bytes
deriving DecidableEq

structure PinRow where
  payloadId : PayloadRef
  holder : String
deriving DecidableEq

structure SnapshotRow where
  snapshotId : SnapshotId
  batchId : BatchId
  modelVersion : UInt32
  payloadId : PayloadRef
deriving DecidableEq

structure CheckpointRow where
  consumerId : String
  projectionVersion : UInt32
  batchId : BatchId
deriving DecidableEq

structure RetentionAnchor where
  batchId : BatchId
  snapshotId : SnapshotId
deriving DecidableEq

structure ManifestRow where
  restoreKey : String
  incarnation : Nat
  runtimeEpoch : Nat
  sequence : Nat
  snapshotId : SnapshotId
  payloadId : PayloadRef
deriving DecidableEq

structure AliasInputRow where
  restoreKey : String
  sourceKey : String
  requestDigest : Bytes
deriving DecidableEq

structure ManifestRefRow where
  restoreKey : String
  payloadId : PayloadRef
deriving DecidableEq

/-- The tables; the last three numbers are those of `AUTOINCREMENT`, which
are not used again. -/
structure Database where
  writerEpoch : WriterEpoch
  archived : Bool
  streamHeads : List HeadRow
  batches : List BatchRow
  batchRevisions : List BatchRevisionRow
  events : List StoredEvent
  commands : List NewCommand
  effects : List EffectRow
  attempts : List AttemptRow
  activationClaims : List (Held ActivationKey)
  obligationClaims : List (Held ObligationClaim)
  payloads : List PayloadRow
  pins : List PinRow
  snapshots : List SnapshotRow
  checkpoints : List CheckpointRow
  /-- The consumers with projection rows, and those with a scope. -/
  projectionRows : List String
  projectionScopes : List (String × UInt32)
  anchor : Option RetentionAnchor
  retainedEventIds : List String
  retainedRevisions : List HeadRow
  manifests : List ManifestRow
  aliasInputs : List AliasInputRow
  manifestRefs : List ManifestRefRow
  lastBatch : Nat
  lastPayload : Nat
  lastSnapshot : Nat

/-- A new journal. -/
def Database.empty : Database where
  writerEpoch := 0
  archived := false
  streamHeads := []
  batches := []
  batchRevisions := []
  events := []
  commands := []
  effects := []
  attempts := []
  activationClaims := []
  obligationClaims := []
  payloads := []
  pins := []
  snapshots := []
  checkpoints := []
  projectionRows := []
  projectionScopes := []
  anchor := none
  retainedEventIds := []
  retainedRevisions := []
  manifests := []
  aliasInputs := []
  manifestRefs := []
  lastBatch := 0
  lastPayload := 0
  lastSnapshot := 0

-- ==== the columns

/-- `to_i64`. -/
def toI64 (value : Nat) : Except StoreError Nat :=
  if value < 2 ^ 63 then .ok value
  else .error (.corrupt s!"{value} exceeds i64")

/-- The next number of an `AUTOINCREMENT` column. -/
def nextRowid (last : Nat) : Except StoreError Nat :=
  if last + 1 < 2 ^ 63 then .ok (last + 1) else .error .sqlite

/-- A constraint of the tables that does not hold. -/
def require (holds : Bool) : Except StoreError Unit :=
  if holds then .ok () else .error .sqlite

/-- A check of the code, with its error. -/
def reject (bad : Bool) (e : StoreError) : Except StoreError Unit :=
  if bad then .error e else .ok ()

/-- `stream_head`. -/
def Database.streamHead (db : Database) (stream : StreamId) :
    Option Revision :=
  (Table.find HeadRow.streamId stream db.streamHeads).map HeadRow.revision

-- ==== write limits

def maxWriteBytes : Nat := 64 * 1024 * 1024

/-- A part of a request: bytes that are limited on their own, or a size. -/
inductive Charge where
  | bytes (n : Nat)
  | add (n : Nat)

/-- Each record, beside what it contains. -/
def Charge.record : Charge := .add 256

def Charge.optional (bytes : Option Bytes) : List Charge :=
  match bytes with
  | none => []
  | some bytes => [.bytes bytes.length]

/-- `write_limits::blob`. -/
def blob (n : Nat) : Except StoreError Unit :=
  if maxWriteBytes < n then
    .error (.writeSizeExceeded "payload" n maxWriteBytes)
  else .ok ()

/-- `Budget::add`; the sum saturates. -/
def addCharge (used n : Nat) : Except StoreError Nat :=
  let used := min (used + n) (2 ^ 64 - 1)
  if maxWriteBytes < used then
    .error (.writeSizeExceeded "batch" used maxWriteBytes)
  else .ok used

/-- `Budget`, which adds up the parts of a request in turn. -/
def budget : List Charge → Nat → Except StoreError Nat
  | [], used => .ok used
  | .add n :: rest, used => do
      let used ← addCharge used n
      budget rest used
  | .bytes n :: rest, used => do
      blob n
      let used ← addCharge used n
      budget rest used

def refsCharge (refs : List PayloadRef) : Charge :=
  .add (min (refs.length * 8) (2 ^ 64 - 1))

/-- `Budget::transition`. -/
def EffectTransition.charges (t : EffectTransition) : List Charge :=
  [.record, .add t.effectId.utf8ByteSize] ++ Charge.optional t.result
    ++ match t.claim with
      | some (.activation claim) =>
        [.add claim.engineId.utf8ByteSize,
          .add (claim.surfaceId.elim 0 String.utf8ByteSize)]
      | some (.obligation claim) =>
        [.add claim.engineId.utf8ByteSize,
          .add claim.operationId.utf8ByteSize]
      | none => []

def NewCommand.charges (c : NewCommand) : List Charge :=
  [.record, .add c.commandId.utf8ByteSize]
    ++ (match c.key with
      | some key =>
        [.add key.callerScope.utf8ByteSize,
          .add key.idempotencyKey.utf8ByteSize]
      | none => [])
    ++ [.bytes c.requestDigest.length, .bytes c.resolved.length]
    ++ Charge.optional c.response

def NewEvent.charges (e : NewEvent) : List Charge :=
  [.record, .add e.eventId.utf8ByteSize,
    .add e.payload.typeTag.utf8ByteSize, .bytes e.payload.bytes.length,
    .add e.actor.utf8ByteSize, .add e.origin.utf8ByteSize,
    .add (e.causationId.elim 0 String.utf8ByteSize),
    refsCharge e.payloadRefs]

def NewEffect.charges (e : NewEffect) : List Charge :=
  [.record, .add e.effectId.utf8ByteSize, .add e.operationId.utf8ByteSize,
    .add e.payload.typeTag.utf8ByteSize, .bytes e.payload.bytes.length]

/-- `write_limits::commit`. -/
def CommitRequest.charges (r : CommitRequest) : List Charge :=
  [.record] ++ r.command.elim [] NewCommand.charges
    ++ (r.appends.flatMap fun a =>
      [.record, .add a.streamId.utf8ByteSize]
        ++ a.events.flatMap NewEvent.charges)
    ++ (r.commandUpdates.flatMap fun u =>
      [.record, .add u.commandId.utf8ByteSize]
        ++ Charge.optional u.response)
    ++ r.effects.flatMap NewEffect.charges
    ++ r.effectTransitions.flatMap EffectTransition.charges

end Tasty.Journal
