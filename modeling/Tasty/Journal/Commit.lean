/-
What a request writes (`command.rs`, `commit.rs`, `effect.rs`): its command,
a batch of events, the progress of other commands, new effects, and the
transitions of effects. Whatever fails loses all of it.
-/
import Tasty.Journal.Database

namespace Tasty.Journal

-- ==== pins

/-- `payload::pin_in`. -/
def Database.pin (db : Database) (payload : PayloadRef) (holder : String) :
    Except StoreError Database := do
  let id ← toI64 payload
  if (Table.find PayloadRow.payloadId id db.payloads).isSome then
    .ok { db with pins := Table.insertOrIgnore ⟨id, holder⟩ db.pins }
  else .error (.payloadMissing payload)

/-- The pins of several payloads by one holder. -/
def Database.pinAll (db : Database) (holder : String) :
    List PayloadRef → Except StoreError Database
  | [] => .ok db
  | payload :: rest => do
      let db ← db.pin payload holder
      db.pinAll holder rest

-- ==== commands

/-- `command::finish`: the record of a stored command. -/
def Database.record (db : Database) (c : NewCommand) : CommandRecord where
  commandId := c.commandId
  key := c.key
  requestDigest := c.requestDigest
  resolved := c.resolved
  status := c.status
  response := c.response
  batchIds := (db.batches.filter fun b =>
    b.commandId = some c.commandId).map BatchRow.batchId

/-- `find_by_key`. -/
def Database.findByKey (db : Database) (key : CommandKey) :
    Option CommandRecord :=
  (Table.find NewCommand.key (some key) db.commands).map db.record

/-- The key of one of the commands is that of `c`. -/
def keyTaken (c : NewCommand) (commands : List NewCommand) : Bool :=
  c.key.isSome && Table.clashes NewCommand.key c commands

/-- `command::insert`. -/
def Database.insertCommand (db : Database) (c : NewCommand) :
    Except StoreError Database := do
  require (!Table.clashes NewCommand.commandId c db.commands
    && !keyTaken c db.commands)
  .ok { db with commands := db.commands ++ [c] }

/-- The command with the status and the response of an update. -/
def CommandUpdate.apply (u : CommandUpdate) (c : NewCommand) : NewCommand :=
  { c with status := u.status, response := u.response.or c.response }

/-- `command::apply_update`. -/
def Database.updateCommand (db : Database) (u : CommandUpdate) :
    Except StoreError Database :=
  match Table.find NewCommand.commandId u.commandId db.commands with
  | none => .error (.unknownCommand u.commandId)
  | some c =>
    if c.status.isTerminal then
      .error (.commandFinished u.commandId c.status)
    else if u.status.stage < c.status.stage then
      .error (.commandRegression u.commandId c.status u.status)
    else
      .ok { db with
        commands := Table.update (fun c => c.commandId = u.commandId)
          u.apply db.commands }

def Database.updateCommands (db : Database) :
    List CommandUpdate → Except StoreError Database
  | [] => .ok db
  | u :: rest => do
      let db ← db.updateCommand u
      db.updateCommands rest

-- ==== events

/-- `event_holder`. -/
def eventHolder (eventId : String) : String := s!"event:{eventId}"

def ExpectedRevision.accepts (actual : Option Revision) :
    ExpectedRevision → Bool
  | any => true
  | noStream => actual.isNone
  | exact revision => actual = some revision

/-- `check_streams`; `seen` are the streams before. -/
def Database.checkStreams (db : Database) (seen : List StreamId) :
    List StreamAppend → Except StoreError Unit
  | [] => .ok ()
  | a :: rest =>
    if a.events.isEmpty then .error (.emptyAppend a.streamId)
    else if a.streamId ∈ seen then .error (.duplicateStream a.streamId)
    else if a.expected.accepts (db.streamHead a.streamId) then
      db.checkStreams (a.streamId :: seen) rest
    else
      .error (.revisionConflict a.streamId a.expected
        (db.streamHead a.streamId))

/-- The row of an event of a batch. -/
def NewEvent.row (e : NewEvent) (stream : StreamId) (batchId : BatchId)
    (commandId : Option String) (revision : Revision) (index : Nat) :
    StoredEvent where
  streamId := stream
  streamRevision := revision
  eventId := e.eventId
  batchId := batchId
  batchIndex := index
  payload := e.payload
  recordedAtMs := e.recordedAtMs
  commandId := commandId
  causationId := e.causationId
  actor := e.actor
  origin := e.origin

/-- The `INSERT` of an event: the keys of its table, and the identities of
the events that were removed. -/
def Database.insertEvent (db : Database) (e : StoredEvent) :
    Except StoreError Database := do
  let _ ← toI64 e.streamRevision
  let _ ← toI64 e.batchId
  let _ ← toI64 e.recordedAtMs
  require (!Table.clashes (fun e => (e.streamId, e.streamRevision)) e
      db.events
    && !Table.clashes StoredEvent.eventId e db.events
    && !Table.clashes (fun e => (e.batchId, e.batchIndex)) e db.events
    && e.eventId ∉ db.retainedEventIds)
  .ok { db with events := db.events ++ [e] }

/-- The loop of `append_stream`, from the next revision and index on. -/
def Database.appendEvents (db : Database) (stream : StreamId)
    (batchId : BatchId) (commandId : Option String) :
    List NewEvent → Revision → Nat → Except StoreError Database
  | [], _, _ => .ok db
  | e :: rest, revision, index => do
      let db ← db.insertEvent (e.row stream batchId commandId revision index)
      let db ← db.pinAll (eventHolder e.eventId) e.payloadRefs
      db.appendEvents stream batchId commandId rest (revision + 1) (index + 1)

/-- `record_head`. -/
def Database.recordHead (db : Database) (stream : StreamId)
    (batchId : BatchId) (first last : Revision) :
    Except StoreError Database := do
  let _ ← toI64 first
  let _ ← toI64 last
  let row : BatchRevisionRow := ⟨batchId, stream, first, last⟩
  require (!Table.clashes (fun r => (r.batchId, r.streamId)) row
    db.batchRevisions)
  .ok { db with
    batchRevisions := db.batchRevisions ++ [row]
    streamHeads :=
      Table.upsert HeadRow.streamId ⟨stream, last⟩ db.streamHeads }

/-- `append_stream`: the tables, and the last revision of the stream. -/
def Database.appendStream (db : Database) (a : StreamAppend)
    (batchId : BatchId) (commandId : Option String) (index : Nat) :
    Except StoreError (Database × Revision) := do
  let start := (db.streamHead a.streamId).getD 0
  let last := start + a.events.length
  let db ← db.appendEvents a.streamId batchId commandId a.events (start + 1)
    index
  let db ← db.recordHead a.streamId batchId (start + 1) last
  .ok (db, last)

/-- The loop of `append_batch`. -/
def Database.appendStreams (db : Database) (batchId : BatchId)
    (commandId : Option String) :
    List StreamAppend → Nat → BTreeMap StreamId Revision →
      Except StoreError (Database × BTreeMap StreamId Revision)
  | [], _, revisions => .ok (db, revisions)
  | a :: rest, index, revisions => do
      let (db, last) ← db.appendStream a batchId commandId index
      db.appendStreams batchId commandId rest (index + a.events.length)
        (revisions.insert a.streamId last)

/-- `append_batch`. -/
def Database.appendBatch (db : Database) (appends : List StreamAppend)
    (epoch : WriterEpoch) (commandId : Option String) :
    Except StoreError (Database × BatchCut) := do
  db.checkStreams [] appends
  let epoch ← toI64 epoch
  let batchId ← nextRowid db.lastBatch
  let row : BatchRow := ⟨batchId, commandId, epoch⟩
  let db := { db with batches := db.batches ++ [row], lastBatch := batchId }
  let (db, revisions) ← db.appendStreams batchId commandId appends 0 ∅
  .ok (db, ⟨batchId, revisions⟩)

-- ==== effects

/-- `effect::insert`. -/
def Database.insertEffect (db : Database) (e : NewEffect)
    (cause : Option BatchId) (commandId : Option String) :
    Except StoreError Database := do
  if e.initial ≠ .pending ∧ e.initial ≠ .deferred then
    .error (.invalidInitialEffectState e.effectId e.initial)
  else do
    let generation ← toI64 e.resourceGeneration
    let row : EffectRow :=
      ⟨e.claimKind, e.effectId, e.operationId, generation, cause, commandId,
        e.payload, e.initial, 0, none⟩
    require (!Table.clashes EffectRow.effectId row db.effects)
    .ok { db with effects := db.effects ++ [row] }

def Database.insertEffects (db : Database) (cause : Option BatchId)
    (commandId : Option String) :
    List NewEffect → Except StoreError Database
  | [] => .ok db
  | e :: rest => do
      let db ← db.insertEffect e cause commandId
      db.insertEffects cause commandId rest

/-- `validate`: the transition is from the state that is stored, of the
generation that is stored, and one that is allowed. -/
def EffectTransition.validate (t : EffectTransition) (state : EffectState)
    (generation : Nat) : Except StoreError Unit :=
  if state ≠ t.source then
    .error (.effectStateMismatch t.effectId t.source state)
  else if generation ≠ t.resourceGeneration then
    .error (.staleGeneration t.effectId t.resourceGeneration generation)
  else if t.source.canTransitionTo t.target = false then
    .error (.invalidEffectTransition t.effectId t.source t.target)
  else if t.source = .uncertain ∧ t.target = .cancelled ∧ t.result = none then
    .error (.evidenceRequired t.effectId)
  else .ok ()

/-- The row of an attempt of an effect. -/
def AttemptRow.isOf (effectId : String) (attempt : Nat) (r : AttemptRow) :
    Bool :=
  r.effectId = effectId && r.attempt = attempt

/-- `close_attempt`: only the current attempt reports. -/
def Database.closeAttempt (db : Database) (t : EffectTransition)
    (current : Nat) : Except StoreError Database :=
  if t.attempt ≠ some current then
    .error (.staleAttempt t.effectId t.attempt current)
  else
    .ok { db with
      attempts := Table.update (AttemptRow.isOf t.effectId current)
        (fun r => { r with outcome := some t.target, result := t.result })
        db.attempts }

/-- `record_reconciliation`. -/
def Database.recordReconciliation (db : Database) (t : EffectTransition)
    (attempt : Nat) : Database :=
  { db with
    attempts := Table.update (AttemptRow.isOf t.effectId attempt)
      (fun r => { r with
        reconciledOutcome := some t.target, reconciledResult := t.result })
      db.attempts }

/-- An effect takes a claim that nobody holds, or keeps the one that it
holds; otherwise the holder is returned. -/
def takeHeld {κ : Type} [DecidableEq κ] (claim : κ) (effectId : String)
    (held : List (Held κ)) : Except String (List (Held κ)) :=
  match Table.find Held.claim claim held with
  | some h => if h.effectId = effectId then .ok held else .error h.effectId
  | none => .ok (held ++ [⟨claim, effectId⟩])

/-- `take_claim`. -/
def Database.takeClaim (db : Database) (claim : ActivationClaim)
    (effectId : String) :
    Except StoreError (Database × AttemptClaim) := do
  let runtimeEpoch ← toI64 claim.runtimeEpoch
  let generation ← toI64 claim.activationGeneration
  let key : ActivationKey :=
    ⟨claim.engineId, claim.surfaceId.getD "", runtimeEpoch, generation⟩
  match takeHeld key effectId db.activationClaims with
  | .error holder => .error (.claimHeld effectId holder)
  | .ok held => .ok ({ db with activationClaims := held }, .activation key)

/-- `take_obligation_claim`. -/
def Database.takeObligationClaim (db : Database) (claim : ObligationClaim)
    (effectId : String) :
    Except StoreError (Database × AttemptClaim) := do
  let _ ← toI64 claim.engineIncarnation
  let _ ← toI64 claim.runtimeEpoch
  match takeHeld claim effectId db.obligationClaims with
  | .error holder =>
    .error (.corrupt s!"cleanup obligation is held by {holder}")
  | .ok held => .ok ({ db with obligationClaims := held }, .obligation claim)

/-- The claim of the attempt is taken, if it is of the kind of the effect, of
the epoch of the writer, and for the operation of the effect. -/
def Database.takeFor (db : Database) (claim : EffectClaim) (e : EffectRow)
    (epoch : WriterEpoch) : Except StoreError (Database × AttemptClaim) :=
  match claim, e.claimKind with
  | .activation claim, .activation =>
    if claim.runtimeEpoch = epoch then db.takeClaim claim e.effectId
    else .error differs
  | .obligation claim, .obligation =>
    if claim.runtimeEpoch = epoch ∧ claim.operationId = e.operationId then
      db.takeObligationClaim claim e.effectId
    else .error differs
  | _, _ => .error differs
where
  differs : StoreError := .corrupt
    "effect claim class, operation or runtime owner differs from its obligation"

/-- `open_attempt`. -/
def Database.openAttempt (db : Database) (t : EffectTransition)
    (e : EffectRow) (attempt : Nat) (journalId : String)
    (epoch : WriterEpoch) : Except StoreError Database :=
  match t.claim with
  | none => .error (.claimRequired t.effectId)
  | some claim => do
      let (db, key) ← db.takeFor claim e epoch
      let epoch ← toI64 epoch
      let row : AttemptRow :=
        ⟨t.effectId, attempt, journalId, key, epoch, none, none, none, none⟩
      require (!Table.clashes (fun r => (r.effectId, r.attempt)) row
        db.attempts)
      .ok { db with attempts := db.attempts ++ [row] }

/-- `checked_add` of one to a `u32`. -/
def checkedNext32 (n : Nat) : Option Nat :=
  if n + 1 < 2 ^ 32 then some (n + 1) else none

/-- The effect after a transition; a retry leaves no result behind. -/
def EffectTransition.apply (t : EffectTransition) (attempt : Nat)
    (e : EffectRow) : EffectRow :=
  { e with
    state := t.target
    attempt := attempt
    result := if t.source = .failed ∧ t.target = .pending then none
      else t.result.or e.result }

/-- The attempt that a transition begins, if it begins one. -/
def Database.beginAttempt (db : Database) (t : EffectTransition)
    (e : EffectRow) (journalId : String) (epoch : WriterEpoch) :
    Except StoreError (Database × Nat) :=
  if t.target = .running then
    match checkedNext32 e.attempt with
    | none => .error (.corrupt "effect attempt range exhausted")
    | some next => do
        let db ← db.openAttempt t e next journalId epoch
        .ok (db, next)
  else .ok (db, e.attempt)

/-- What a transition records of the current attempt. -/
def Database.endAttempt (db : Database) (t : EffectTransition)
    (attempt : Nat) : Except StoreError Database :=
  if t.source = .running then db.closeAttempt t attempt
  else if t.source = .uncertain then .ok (db.recordReconciliation t attempt)
  else .ok db

/-- `apply_transition`. -/
def Database.applyTransition (db : Database) (t : EffectTransition)
    (journalId : String) (epoch : WriterEpoch) :
    Except StoreError Database :=
  match Table.find EffectRow.effectId t.effectId db.effects with
  | none => .error (.unknownEffect t.effectId)
  | some e => do
      t.validate e.state e.resourceGeneration
      let db ← db.endAttempt t e.attempt
      let (db, attempt) ← db.beginAttempt t e journalId epoch
      .ok { db with
        effects := Table.update (fun e => e.effectId = t.effectId)
          (t.apply attempt) db.effects }

def Database.applyTransitions (db : Database) (journalId : String)
    (epoch : WriterEpoch) :
    List EffectTransition → Except StoreError Database
  | [] => .ok db
  | t :: rest => do
      let db ← db.applyTransition t journalId epoch
      db.applyTransitions journalId epoch rest

-- ==== a request

/-- `require_effect_capacity`. -/
def Database.requireEffectCapacity (db : Database) (newEffects limit : Nat) :
    Except StoreError Unit :=
  let pending := (db.effects.filter fun e => e.state = .pending
    || e.state = .deferred || e.state = .running
    || e.state = .uncertain).length
  if newEffects ≠ 0 ∧ limit < pending + newEffects then
    .error (.pendingEffectCapacity pending newEffects limit)
  else .ok ()

/-- The command of a request is inserted. -/
def Database.insertNew (db : Database) :
    Option NewCommand → Except StoreError Database
  | none => .ok db
  | some c => db.insertCommand c

/-- The batch of a request, if it has events. -/
def Database.appendNew (db : Database) (r : CommitRequest)
    (commandId : Option String) :
    Except StoreError (Database × Option BatchCut) :=
  if r.appends.isEmpty then .ok (db, none)
  else do
    let (db, cut) ← db.appendBatch r.appends r.writerEpoch commandId
    .ok (db, some cut)

/-- `write_all`: the tables, the batch, and the size of the request. -/
def Database.writeAll (db : Database) (r : CommitRequest)
    (journalId : String) :
    Except StoreError (Database × Option BatchCut × Nat) := do
  let bytes ← budget r.charges 0
  let commandId := r.command.map NewCommand.commandId
  let db ← db.insertNew r.command
  let (db, batch) ← db.appendNew r commandId
  let db ← db.updateCommands r.commandUpdates
  let db ← db.insertEffects (batch.map BatchCut.batchId) commandId r.effects
  let db ← db.applyTransitions journalId r.writerEpoch r.effectTransitions
  .ok (db, batch, bytes)

end Tasty.Journal
