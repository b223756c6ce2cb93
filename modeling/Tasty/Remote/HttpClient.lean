/-
The client of one remote HTML document: `ClientDocument`, which requests
responses of a server, hands out credit for their bodies, and takes the
server's messages as they come.

A message concerns one attempt. What it does to that attempt, and what it
gives back of the reserved bytes and adds to the received ones, is an
`Outcome`; the document puts outcomes back at their index.
-/
import Mathlib.Algebra.GroupWithZero.Nat

namespace Tasty.Remote.Http

abbrev Bytes := List UInt8

/-- `AUTO_BYTES`. -/
def AUTO_BYTES : Nat := 100000

/-- `DOCUMENT_BYTES`. -/
def DOCUMENT_BYTES : Nat := 2000000

/-- `CHUNK_BYTES`. -/
def CHUNK_BYTES : Nat := 48 * 1024

-- ==== wire

structure TransferId where
  epoch : Nat
  surfaceId : Nat
  binding : Nat
  document : Nat
  request : Nat
  transfer : Nat
  deriving DecidableEq, Repr

structure ResponseId where
  request : TransferId
  sourceGeneration : Nat
  serial : Nat
  deriving DecidableEq, Repr

structure BodyIdentity where
  bytes : Nat
  sha256 : Bytes
  deriving DecidableEq, Repr

structure Header where
  name : String
  value : Bytes
  deriving DecidableEq, Repr

structure ResponseHead where
  id : ResponseId
  logicalUrl : String
  status : Nat
  headers : List Header
  encodedLength : Option Nat
  hasBody : Bool
  deriving DecidableEq, Repr

/-- `CommandKind`, as far as a rejection is asked for it. -/
inductive CommandKind where
  | begin
  | other
  deriving DecidableEq, Repr

/-- `HttpRequest::Begin`. -/
structure Begin where
  id : TransferId
  sourceGeneration : Nat
  method : String
  logicalUrl : String
  headers : List Header
  upload : BodyIdentity
  allowRemoteContent : Bool
  deriving DecidableEq, Repr

inductive HttpRequest where
  | reload (previous : ResponseId) (begin : Begin)
  | begin (begin : Begin)
  | upload (id : TransferId) (sourceGeneration offset : Nat) (data : Bytes)
  | commit (id : TransferId) (sourceGeneration : Nat)
  | credit (response : ResponseId) (offset maxBytes : Nat)
      (allowLarge : Bool)
  | cancel (id : TransferId) (sourceGeneration : Nat)
  | reuse (response : ResponseId)
  | release (response : ResponseId)
  | stop (entry : TransferId) (sourceGeneration : Nat)
  | close (entry : TransferId) (sourceGeneration : Nat)
  deriving DecidableEq, Repr

inductive HttpReply where
  | uploadReady (id : TransferId) (sourceGeneration offset maxBytes : Nat)
  | head (head : ResponseHead)
  | allowanceRequired (response : ResponseId) (encodedAtLeast : Nat)
      (knownLength : Option Nat)
  | chunk (response : ResponseId) (offset : Nat) (dataB64 : String)
  | complete (response : ResponseId) (encoded decoded : BodyIdentity)
  | failure (id : TransferId) (sourceGeneration : Nat)
      (response : Option ResponseId) (reason : String)
  | commandRejected (id : TransferId) (sourceGeneration : Nat)
      (command : CommandKind) (response : Option ResponseId)
      (reason : String)
  | cancelled (id : TransferId) (sourceGeneration : Nat)
      (response : Option ResponseId)
  deriving DecidableEq, Repr

namespace HttpReply

/-- `HttpReply::id`. -/
def id : HttpReply → TransferId
  | .uploadReady id _ _ _ | .failure id _ _ _ | .commandRejected id _ _ _ _
  | .cancelled id _ _ => id
  | .head h => h.id.request
  | .allowanceRequired response _ _ | .chunk response _ _
  | .complete response _ _ => response.request

/-- The source generation of a message. -/
def generation : HttpReply → Nat
  | .uploadReady _ generation _ _ | .failure _ generation _ _
  | .commandRejected _ generation _ _ _ | .cancelled _ generation _ =>
    generation
  | .head h => h.id.sourceGeneration
  | .allowanceRequired response _ _ | .chunk response _ _
  | .complete response _ _ => response.sourceGeneration

/-- The response that a message names. -/
def response : HttpReply → Option ResponseId
  | .uploadReady _ _ _ _ => none
  | .failure _ _ response _ | .commandRejected _ _ _ response _
  | .cancelled _ _ response => response
  | .head h => some h.id
  | .allowanceRequired response _ _ | .chunk response _ _
  | .complete response _ _ => some response

end HttpReply

/-- The checks and encodings of the wire format, and the digest. What
follows holds whatever they say. -/
structure Wire where
  validRequest : HttpRequest → Bool
  validReply : HttpReply → Bool
  decodeChunk : String → Option Bytes
  sha256 : Bytes → Bytes

/-- What the shared budgets grant during one call; other documents use them
too. -/
structure Grants where
  upload : Bool
  request : Bool
  head : Bool
  scratch : Bool
  body : Bool
  slot : Bool
  worker : Bool

-- ==== attempts

inductive ReceiveState where
  | uploading
  | waitingHead
  | sizeNotice
  | ready
  | receiving
  | verifying
  | verified
  | reusing
  | cancelling
  | skipped
  | failed
  | cancelled
  | released
  deriving DecidableEq, Repr

structure Upload where
  bytes : Bytes
  offset : Nat
  window : Option Nat
  deriving DecidableEq, Repr

structure Credit where
  max : Nat
  reserved : Nat
  deriving DecidableEq, Repr

/-- `VerifiedBody`. -/
structure VerifiedBody where
  head : ResponseHead
  method : String
  upload : BodyIdentity
  encodedIdentity : BodyIdentity
  decodedIdentity : BodyIdentity
  deriving DecidableEq, Repr

/-- `VerifiedBody::matches_native`. -/
def VerifiedBody.matchesNative (v : VerifiedBody) (response : ResponseId)
    (method : String) (upload : BodyIdentity) : Bool :=
  v.head.id == response && v.method == method && v.upload == upload

/-- `Attempt`; of what it owns only for others, whether it is there. -/
structure Attempt where
  id : TransferId
  request : Option Begin
  state : ReceiveState
  upload : Option Upload
  head : Option ResponseHead
  headLease : Bool
  body : Bytes
  offset : Nat
  credit : Option Credit
  allowed : Bool
  committed : Bool
  verified : Option VerifiedBody
  replayHead : Bool
  completion : Option (BodyIdentity × BodyIdentity)
  owner : Bool
  job : Bool
  result : Bool
  deriving DecidableEq, Repr

structure DocumentKey where
  entry : TransferId
  sourceGeneration : Nat
  entryUrl : String
  allowRemoteContent : Bool

structure ClientLimits where
  requests : Nat
  uploadBytes : Nat
  encodedBytes : Nat
  decodedBytes : Nat

namespace Attempt

/-- `Attempt::response`. -/
def response (a : Attempt) : Option ResponseId := a.head.map (·.id)

/-- `Attempt::terminal`. -/
def terminal (a : Attempt) : Bool :=
  a.state == .failed || a.state == .cancelled || a.state == .released
    || (a.state == .skipped && a.credit.isNone)

/-- The reserved bytes of its credit. -/
def outstanding (a : Attempt) : Nat := a.credit.elim 0 (·.reserved)

/-- `Attempt::discard`. -/
def discard (a : Attempt) : Attempt :=
  { a with
    owner := false
    result := false
    job := false
    upload := none
    body := []
    headLease := false
    head := none
    verified := none
    request := none }

end Attempt

/-- What a message does: to the attempt, and to the counts of the document;
an invalid message fails the attempt afterwards. -/
structure Outcome where
  attempt : Attempt
  refund : Nat
  taken : Nat
  valid : Bool

namespace Outcome

/-- The attempt as it is, and a verdict. -/
def keep (a : Attempt) (valid : Bool) : Outcome := ⟨a, 0, 0, valid⟩

/-- `self.reserved -= a.settle()`. -/
def settle (o : Outcome) : Outcome :=
  { o with
    attempt := { o.attempt with credit := none }
    refund := o.refund + o.attempt.outstanding }

/-- `ClientDocument::fail`. -/
def fail (o : Outcome) : Outcome :=
  let o := o.settle
  { o with attempt := { o.attempt.discard with state := .failed } }

end Outcome

namespace Attempt

variable (w : Wire) (g : Grants) (limits : ClientLimits)

/-- `upload_ready`. -/
def uploadReady (a : Attempt) (offset maxBytes : Nat) : Outcome :=
  if a.state ≠ .uploading then .keep a false
  else match a.upload with
    | none => .keep a false
    | some u =>
      if u.window.isSome || offset != u.offset || maxBytes == 0
          || CHUNK_BYTES < maxBytes then .keep a false
      else
        .keep { a with upload := some { u with window := some maxBytes } }
          true

/-- `head_received`. -/
def headReceived (a : Attempt) (head : ResponseHead) : Outcome :=
  if a.state = .reusing then
    if a.replayHead || !a.verified.any (·.head == head) then .keep a false
    else .keep { a with replayHead := true } true
  else if a.state ≠ .waitingHead || !a.committed then .keep a false
  else if head.encodedLength.any (limits.encodedBytes < ·) then
    .keep a false
  else if !g.head then .keep a false
  else
    let state := if head.hasBody && head.encodedLength.any (AUTO_BYTES < ·)
      then ReceiveState.sizeNotice else .ready
    .keep { a with state, head := some head, headLease := true } true

/-- A skipped attempt without a credit is over. -/
def dropSkipped (a : Attempt) : Attempt :=
  if a.state = .skipped ∧ a.credit = none then a.discard else a

/-- Any other that was not allowed waits for the user. -/
def awaitUser (a : Attempt) : Attempt :=
  if a.state ≠ .skipped ∧ a.allowed = false
  then { a with state := .sizeNotice } else a

/-- The end of `allowance`. -/
def noticed (o : Outcome) : Outcome :=
  { o with attempt := o.attempt.dropSkipped.awaitUser }

/-- `allowance`. -/
def allowance (a : Attempt) (encodedAtLeast : Nat)
    (knownLength : Option Nat) : Outcome :=
  if a.state ≠ .receiving ∧ a.state ≠ .ready ∧ a.state ≠ .sizeNotice
      ∧ a.state ≠ .skipped then .keep a false
  else match a.head with
    | none => .keep a false
    | some head =>
      if knownLength ≠ head.encodedLength ∨ encodedAtLeast ≤ AUTO_BYTES
          ∨ knownLength.any (· ≠ encodedAtLeast) then .keep a false
      else if head.encodedLength.isNone then
        if a.offset ≠ AUTO_BYTES ∨ !a.credit.any (·.max == 1) then
          .keep a false
        else noticed (Outcome.keep a true).settle
      else noticed (.keep a true)

/-- `chunk_received`. -/
def chunkReceived (a : Attempt) (offset : Nat) (dataB64 : String) :
    Outcome :=
  if a.state ≠ .receiving ∧ a.state ≠ .skipped then .keep a false
  else match a.credit, g.scratch, w.decodeChunk dataB64, a.head with
    | some c, true, some bytes, some head =>
      let bound := offset + bytes.length
      if 2 ^ 64 ≤ bound then .keep a false
      else if bytes.isEmpty || c.max < bytes.length || offset != a.offset
          || c.reserved == 0 || limits.encodedBytes < bound
          || head.encodedLength.any (· < bound) || !head.hasBody
          || (!a.allowed && AUTO_BYTES < bound) then .keep a false
      else if a.state ≠ .skipped ∧ !g.body then .keep a false
      else
        let o := (Outcome.keep a true).settle
        let a' := { o.attempt with offset := bound }
        let a' := if a.state ≠ .skipped
          then { a' with state := .ready, body := a.body ++ bytes }
          else a'.discard
        { o with attempt := a', taken := bytes.length }
    | _, _, _, _ => .keep a false

/-- `complete_received`. -/
def completeReceived (a : Attempt) (encoded decoded : BodyIdentity) :
    Outcome :=
  if a.state = .reusing then
    if !a.replayHead || !a.verified.any (fun v =>
        v.encodedIdentity == encoded && v.decodedIdentity == decoded) then
      .keep a false
    else .keep { a with state := .verified } true
  else if a.state = .skipped then
    let o := (Outcome.keep a true).settle
    { o with attempt := o.attempt.discard }
  else if (a.state ≠ .ready ∧ a.state ≠ .receiving)
      ∨ encoded.bytes ≠ a.offset ∨ limits.decodedBytes < decoded.bytes
      ∨ !a.head.any (fun h => h.encodedLength.all (· == encoded.bytes)) then
    .keep a false
  else if !g.slot then .keep a false
  else if !g.body then .keep a false
  else if !a.headLease then .keep a false
  else if !g.worker then .keep { a with headLease := false } false
  else
    let o := (Outcome.keep a true).settle
    if !a.owner then { o with valid := false }
    else { o with
      attempt := { o.attempt with
        job := true
        body := []
        completion := some (encoded, decoded)
        result := true
        state := .verifying } }

/-- `apply`. -/
def apply (a : Attempt) : HttpReply → Outcome
  | .failure .. => (Outcome.keep a true).fail
  | .cancelled .. =>
    let o := (Outcome.keep a true).settle
    let state := if a.state = .skipped then ReceiveState.skipped
      else .cancelled
    { o with attempt := { o.attempt.discard with state } }
  | .uploadReady _ _ offset maxBytes => a.uploadReady offset maxBytes
  | .head h => a.headReceived g limits h
  | .allowanceRequired _ encodedAtLeast knownLength =>
    a.allowance encodedAtLeast knownLength
  | .chunk _ offset dataB64 => a.chunkReceived w g limits offset dataB64
  | .complete _ encoded decoded => a.completeReceived g limits encoded decoded
  -- `unreachable!`: handled before
  | .commandRejected .. => .keep a true

/-- A message that repeats what is known already. -/
def repeated (a : Attempt) : HttpReply → Bool
  | .complete _ encoded decoded =>
    a.state == .verifying && a.completion == some (encoded, decoded)
  | .allowanceRequired _ encodedAtLeast (some length) =>
    encodedAtLeast == length
      && a.head.any (·.encodedLength == some length)
      && (a.allowed || a.state == .sizeNotice)
  | _ => false

/-- A message that may come once the body is verified. -/
def allowedOnceVerified : HttpReply → Bool
  | .commandRejected .. | .failure .. | .cancelled .. => true
  | _ => false

/-- `receive_inner`, once the attempt is found; nothing if the message is
ignored. -/
def receive (key : DocumentKey) (a : Attempt) (reply : HttpReply) :
    Option Outcome :=
  if reply.generation ≠ key.sourceGeneration then none
  else if a.terminal then none
  else if a.response.any fun known =>
      reply.response.any fun got => known ≠ got then none
  else if a.state == .verified && !allowedOnceVerified reply then none
  else if !w.validReply reply then some (Outcome.keep a true).fail
  else if a.repeated reply then none
  else match reply with
    | .commandRejected _ _ command _ _ =>
      if command = .begin ∧ a.state = .uploading
          ∧ a.upload.any (fun u => u.window.isNone && u.offset == 0) then
        some (Outcome.keep a true).fail
      else none
    | reply =>
      let o := a.apply w g limits reply
      if o.valid then some o else some o.fail

-- ==== local

/-- `upload_command`. -/
def uploadCommand (a : Attempt) (sourceGeneration : Nat) :
    Option (HttpRequest × Attempt) :=
  if a.state ≠ .uploading then none
  else match a.upload with
    | none => none
    | some u =>
      if u.offset = u.bytes.length ∧ (u.offset ≠ 0 ∨ u.window.isSome) then
        some (.commit a.id sourceGeneration,
          { a with committed := true, state := .waitingHead, upload := none })
      else match u.window with
        | none => none
        | some max =>
          let bound := u.offset + min max (u.bytes.length - u.offset)
          let data := (u.bytes.drop u.offset).take (bound - u.offset)
          some (.upload a.id sourceGeneration u.offset data,
            { a with upload := some { u with offset := bound, window := none } })

/-- `credit_window`. -/
def creditWindow (a : Attempt) (head : ResponseHead) : Nat × Nat :=
  if !head.hasBody || head.encodedLength == some a.offset then (1, 0)
  else
    let remaining := head.encodedLength.elim CHUNK_BYTES (· - a.offset)
    let automatic := if a.allowed then CHUNK_BYTES
      else if a.offset < AUTO_BYTES then AUTO_BYTES - a.offset else 1
    let max := min (min remaining automatic) CHUNK_BYTES
    (max, max)

/-- `decline`, for the attempt that it names. -/
def decline (a : Attempt) : Option Attempt :=
  if a.terminal || a.state == .verified || a.state == .skipped
      || a.state == .reusing then none
  else
    let b := { a with
      owner := false, result := false, job := false, upload := none
      body := [] }
    let b := if b.credit.isNone then b.discard else b
    some { b with state := .skipped }

/-- What `stop` does to an attempt, and whether that skips it. -/
def stop (a : Attempt) : Attempt × Bool :=
  if a.state = .reusing then ({ a with state := .verified }, false)
  else if !a.terminal && a.state ≠ .verified then
    match a.decline with
    | some b => (b, true)
    | none => (a, false)
  else (a, false)

/-- What `send_failed` does to an attempt. -/
def abandon (a : Attempt) : Attempt :=
  { { a with credit := none }.discard with state := .cancelled }

/-- `poll_verification` for an attempt whose worker posted this. -/
def verification (a : Attempt) (posted : Except Unit VerifiedBody) :
    Option Outcome :=
  if !a.result || a.state ≠ .verifying || !a.owner then none
  else match posted with
    | .ok body => some (.keep { a with
        result := false, verified := some body, state := .verified } true)
    | .error _ => some (Outcome.keep { a with result := false } true).fail

end Attempt

-- ==== document

/-- `ClientDocument`. The code's `reserved` is unsigned: here it is an
integer, and never negative (`Ledger`). -/
structure ClientDocument where
  key : DocumentKey
  epochActive : Bool
  limits : ClientLimits
  attempts : List Attempt
  lastRequest : Nat
  lastTransfer : Nat
  received : Nat
  reserved : Int
  continued : Bool
  paused : Bool
  stopped : Bool
  closed : Bool
  skipped : Nat

inductive ClientError where
  | invalid
  | closed
  | stale
  | quota
  | alreadyUsed
  deriving DecidableEq, Repr

/-- What a pass over the attempts for a credit does: the attempts after it,
whether the document is paused, and the credit with its reservation. -/
structure CreditScan where
  attempts : List Attempt
  paused : Bool
  granted : Option (HttpRequest × Nat)

namespace ClientDocument

variable (w : Wire) (g : Grants)

/-- `ClientDocument::new`, its arguments checked and its storage granted. -/
def new (key : DocumentKey) (limits : ClientLimits) : ClientDocument where
  key
  epochActive := true
  limits
  attempts := []
  lastRequest := 0
  lastTransfer := 0
  received := 0
  reserved := 0
  continued := false
  paused := false
  stopped := false
  closed := false
  skipped := 0

/-- `active`. -/
def active (d : ClientDocument) : Bool := !d.closed && d.epochActive

/-- `document_matches`. -/
def documentMatches (d : ClientDocument) (id : TransferId) : Bool :=
  let k := d.key.entry
  id.epoch == k.epoch && id.surfaceId == k.surfaceId
    && id.binding == k.binding && id.document == k.document

/-- The attempt of an admitted request. -/
def admitted (begin : Begin) (upload : Bytes) : Attempt where
  id := begin.id
  request := some begin
  state := .uploading
  upload := some ⟨upload, 0, none⟩
  head := none
  headLease := false
  body := []
  offset := 0
  credit := none
  allowed := false
  committed := false
  verified := none
  replayHead := false
  completion := none
  owner := true
  job := false
  result := false

/-- `HttpRequest::into_initial`, for a begin or a reload. -/
def intoInitial : HttpRequest → Option (Begin × Option ResponseId)
  | .reload previous b => some (b, some previous)
  | .begin b => some (b, none)
  | _ => none

/-- `admit`. -/
def admitRequest (d : ClientDocument) (request : HttpRequest) (upload : Bytes) :
    Except ClientError HttpRequest × ClientDocument :=
  if !d.active || d.stopped then (.error .closed, d)
  else if !w.validRequest request then (.error .invalid, d)
  else match intoInitial request with
    | none => (.error .invalid, d)
    | some (b, previous) =>
      if previous.isSome && !d.attempts.isEmpty then (.error .invalid, d)
      else if !d.documentMatches b.id
          || b.sourceGeneration != d.key.sourceGeneration then
        (.error .stale, d)
      else if b.allowRemoteContent != d.key.allowRemoteContent
          || (d.attempts.isEmpty
            && (b.id != d.key.entry || b.logicalUrl != d.key.entryUrl)) then
        (.error .invalid, d)
      else if b.id.request ≤ d.lastRequest
          || b.id.transfer ≤ d.lastTransfer then (.error .alreadyUsed, d)
      else if d.attempts.length == d.limits.requests
          || d.limits.uploadBytes < upload.length then (.error .quota, d)
      else if b.upload.bytes != upload.length
          || b.upload.sha256 != w.sha256 upload then (.error .invalid, d)
      else if !g.upload || !g.request then (.error .quota, d)
      else
        (.ok (previous.elim (.begin b) (.reload · b)),
          { d with
            lastRequest := b.id.request
            lastTransfer := b.id.transfer
            attempts := d.attempts ++ [admitted b upload] })

/-- An outcome is put back at its index. -/
def commit (d : ClientDocument) (i : Nat) (o : Outcome) : ClientDocument :=
  { d with
    attempts := d.attempts.set i o.attempt
    reserved := d.reserved - o.refund
    received := d.received + o.taken }

/-- `receive`. -/
def receive (d : ClientDocument) (reply : HttpReply) :
    Bool × ClientDocument :=
  if !d.active then (false, d)
  else
    let i := d.attempts.findIdx (·.id == reply.id)
    match d.attempts[i]? with
    | none => (false, d)
    | some a =>
      match a.receive w g d.limits d.key reply with
      | none => (false, d)
      | some o => (true, d.commit i o)

/-- The first attempt that `f` changes. -/
def findMap {β : Type} (f : Attempt → Option (β × Attempt)) :
    List Attempt → Option (β × List Attempt)
  | [] => none
  | a :: rest =>
    match f a with
    | some (b, a) => some (b, a :: rest)
    | none => (findMap f rest).map fun (b, rest) => (b, a :: rest)

/-- The loop of `next_credit`. -/
def creditScan (d : ClientDocument) (paused : Bool) :
    List Attempt → CreditScan
  | [] => ⟨[], paused, none⟩
  | a :: rest =>
    let skip := fun paused =>
      let scan := creditScan d paused rest
      { scan with attempts := a :: scan.attempts }
    if a.state ≠ .ready ∨ a.credit.isSome then skip paused
    else match a.head with
      | none => ⟨a :: rest, paused, none⟩
      | some head =>
        let max := (a.creditWindow head).1
        let reservation := (a.creditWindow head).2
        let total := d.received + d.reserved + reservation
        if paused ∧ reservation ≠ 0 then skip paused
        else if ((2 ^ 64 : Nat) : Int) ≤ total then skip paused
        else if !d.continued ∧ (DOCUMENT_BYTES : Int) < total then skip true
        else
          ⟨{ a with
              credit := some ⟨max, reservation⟩, state := .receiving } :: rest,
            paused,
            some (.credit head.id a.offset max a.allowed, reservation)⟩

/-- `next_credit`. -/
def nextCredit (d : ClientDocument) : Option HttpRequest × ClientDocument :=
  let scan := d.creditScan d.paused d.attempts
  (scan.granted.map (·.1),
    { d with
      attempts := scan.attempts
      paused := scan.paused
      reserved := d.reserved + (scan.granted.elim 0 (·.2) : Nat) })

/-- `next_command`. -/
def nextCommand (d : ClientDocument) : Option HttpRequest × ClientDocument :=
  if !d.active || d.stopped then (none, d)
  else match findMap (·.uploadCommand d.key.sourceGeneration) d.attempts with
    | some (command, attempts) => (some command, { d with attempts })
    | none => d.nextCredit

/-- `send_failed`. -/
def sendFailed (d : ClientDocument) : ClientDocument :=
  { d with
    closed := true
    stopped := true
    paused := false
    attempts := d.attempts.map (·.abandon)
    reserved := 0 }

/-- `take_verify_job`. -/
def takeVerifyJob (d : ClientDocument) : Bool × ClientDocument :=
  if !d.active then (false, d.sendFailed)
  else
    match findMap (fun a => if a.job then some ((), { a with job := false })
      else none) d.attempts with
    | some (_, attempts) => (true, { d with attempts })
    | none => (false, d)

/-- The loop of `poll_verification`, over the indices that are left. -/
def pollFrom (posted : Nat → Option (Except Unit VerifiedBody)) :
    List Nat → ClientDocument → Bool × ClientDocument
  | [], d => (false, d)
  | i :: rest, d =>
    match d.attempts[i]?.bind fun a => (posted i).bind a.verification with
    | none => pollFrom posted rest d
    | some o => (true, (pollFrom posted rest (d.commit i o)).2)

/-- `poll_verification`; `posted` is what the workers left in the
mailboxes. -/
def pollVerification (d : ClientDocument)
    (posted : Nat → Option (Except Unit VerifiedBody)) :
    Bool × ClientDocument :=
  if !d.active then (!d.closed, d.sendFailed)
  else pollFrom posted (List.range d.attempts.length) d

/-- `allow`. -/
def allow (d : ClientDocument) (id : TransferId) : Bool × ClientDocument :=
  if !d.active || d.stopped then (false, d)
  else
    match findMap (fun a => if a.id == id && a.state == .sizeNotice
      then some ((), { a with allowed := true, state := .ready }) else none)
      d.attempts with
    | some (_, attempts) => (true, { d with attempts })
    | none => (false, d)

/-- `continue_receiving`. -/
def continueReceiving (d : ClientDocument) : Bool × ClientDocument :=
  if !d.active || d.stopped || d.continued then (false, d)
  else (true, { d with continued := true, paused := false })

/-- `decline`. -/
def decline (d : ClientDocument) (id : TransferId) :
    Option HttpRequest × ClientDocument :=
  if !d.active then (none, d)
  else
    let i := d.attempts.findIdx (·.id == id)
    match d.attempts[i]?.bind (·.decline) with
    | none => (none, d)
    | some a =>
      (some (.cancel id d.key.sourceGeneration),
        { d with attempts := d.attempts.set i a, skipped := d.skipped + 1 })

/-- `stop`. -/
def stop (d : ClientDocument) : Option HttpRequest × ClientDocument :=
  if !d.active || d.stopped then (none, d)
  else
    (some (.stop d.key.entry d.key.sourceGeneration),
      { d with
        attempts := d.attempts.map (·.stop.1)
        skipped := d.skipped + d.attempts.countP (·.stop.2)
        stopped := true
        paused := false })

/-- `close`. -/
def close (d : ClientDocument) : Option HttpRequest × ClientDocument :=
  if d.closed then (none, d)
  else
    (if d.epochActive then
        some (.close d.key.entry d.key.sourceGeneration) else none,
      d.sendFailed)

/-- The attempt of a response that may be used again, if it is that of the
request. -/
def reusable (response : ResponseId) (a : Attempt) :
    Option (HttpRequest × Attempt) :=
  match a.request, a.verified with
  | some b, some v =>
    if v.matchesNative response b.method b.upload then
      some (.reuse response, { a with state := .reusing, replayHead := false })
    else none
  | _, _ => none

/-- `reuse`. -/
def reuse (d : ClientDocument) (response : ResponseId) :
    Option HttpRequest × ClientDocument :=
  if !d.active then (none, d)
  else
    let i := d.attempts.findIdx fun a =>
      a.response == some response && a.state == .verified
    match d.attempts[i]?.bind (reusable response) with
    | none => (none, d)
    | some (command, a) =>
      (some command, { d with attempts := d.attempts.set i a })

/-- `release`. -/
def release (d : ClientDocument) (response : ResponseId) :
    Option HttpRequest × ClientDocument :=
  if !d.active then (none, d)
  else
    match findMap (fun a => if a.response == some response
        && (a.state == .verified || a.state == .reusing)
      then some ((), { a.discard with state := .released }) else none)
      d.attempts with
    | some (_, attempts) => (some (.release response), { d with attempts })
    | none => (none, d)

end ClientDocument

/-- A message of the server, or what the client does by itself. -/
inductive Action where
  | receive (grants : Grants) (reply : HttpReply)
  | admitRequest (grants : Grants) (request : HttpRequest) (upload : Bytes)
  | nextCommand
  | takeVerifyJob
  | pollVerification (posted : Nat → Option (Except Unit VerifiedBody))
  | allow (id : TransferId)
  | continueReceiving
  | decline (id : TransferId)
  | stop
  | close
  | sendFailed
  | reuse (response : ResponseId)
  | release (response : ResponseId)
  | retireEpoch

namespace ClientDocument

def step (w : Wire) (d : ClientDocument) : Action → ClientDocument
  | .receive grants reply => (d.receive w grants reply).2
  | .admitRequest grants request upload => (d.admitRequest w grants request upload).2
  | .nextCommand => d.nextCommand.2
  | .takeVerifyJob => d.takeVerifyJob.2
  | .pollVerification posted => (d.pollVerification posted).2
  | .allow id => (d.allow id).2
  | .continueReceiving => d.continueReceiving.2
  | .decline id => (d.decline id).2
  | .stop => d.stop.2
  | .close => d.close.2
  | .sendFailed => d.sendFailed
  | .reuse response => (d.reuse response).2
  | .release response => (d.release response).2
  | .retireEpoch => { d with epochActive := false }

/-- The document after some actions. -/
def run (w : Wire) (d : ClientDocument) (actions : List Action) :
    ClientDocument :=
  actions.foldl (step w) d

end ClientDocument

end Tasty.Remote.Http
