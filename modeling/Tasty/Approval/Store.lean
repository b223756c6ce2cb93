/-
Approvals (`tasty-approval`): agents ask, users and other callers answer, and
whoever waits is told. Each lock section of the store is one function here. No
call panics while it holds the lock, so the lock is never poisoned. What a
request carries along for others to read (its body, where it came from, how
severe it is) is left out.
-/
import Tasty.Lib.BTreeMap

namespace Tasty.Approval

abbrev ApprovalId := String

inductive Requester where
  | user
  | plugin (id : String)
  | agent (id : String)
  deriving DecidableEq

inductive Responder where
  | user
  | agent (id : String)
  | system
  deriving DecidableEq

/-- Whether they are the same caller. The user always counts as another
one. -/
def Requester.matchesResponder : Requester → Responder → Bool
  | .user, _ => false
  | .plugin a, .agent b => a = b
  | .plugin _, .system => false
  | .agent a, .agent b => a = b
  | _, _ => false

structure ApprovalChoice where
  key : String
  label : String
  destructive : Bool
  deriving DecidableEq

namespace ApprovalChoice

def approve : ApprovalChoice := ⟨"approve", "Approve", false⟩

def deny : ApprovalChoice := ⟨"deny", "Deny", true⟩

end ApprovalChoice

/-- What is granted when an elevation that the host asked for is approved. -/
structure HostElevation where
  agentId : String
  permission : String
  grantTtlSecs : Option Nat
  deriving DecidableEq

structure ApprovalRequest where
  id : ApprovalId
  requester : Requester
  title : String
  choices : List ApprovalChoice
  defaultChoice : Option String
  createdAt : Nat
  hostElevation : Option HostElevation
  deriving DecidableEq

inductive ApprovalState where
  | pending
  | responded (choice : String) (responder : Responder)
      (comment : Option String) (time : Nat)
  | timedOut (defaultChoice : Option String) (time : Nat)
  | cancelled (time : Nat)
  deriving DecidableEq

def ApprovalState.isTerminal : ApprovalState → Bool
  | .pending => false
  | _ => true

/-- One transition; every change of the state adds one. -/
structure HistoryEntry where
  time : Nat
  transition : String
  choice : Option String
  responder : Option Responder
  comment : Option String
  deriving DecidableEq

structure ApprovalRecord where
  request : ApprovalRequest
  state : ApprovalState
  history : List HistoryEntry
  deriving DecidableEq

def ApprovalRecord.new (request : ApprovalRequest) : ApprovalRecord where
  request := request
  state := .pending
  history := [⟨request.createdAt, "created", none, none, none⟩]

inductive ApprovalError where
  | notFound (id : String)
  | alreadyResponded (id : ApprovalId)
  | selfResponse
  | userResponseRequired (id : ApprovalId)
  | invalidChoice (message : String)
  | invalidRequest (message : String)
  deriving DecidableEq

inductive ChangeKind where
  | created
  | responded
  | timedOut
  | cancelled
  deriving DecidableEq

structure StateChange where
  record : ApprovalRecord
  kind : ChangeKind
  deriving DecidableEq

/-- What a wait ends with, and what a waiter is sent. -/
inductive WaitOutcome where
  | responded (choice : String) (responder : Responder)
      (comment : Option String)
  | timedOut (defaultChoice : Option String)
  | cancelled
  deriving DecidableEq

/-- `change` is there only when this call applied the expiry. -/
structure Awaited where
  outcome : WaitOutcome
  change : Option StateChange
  deriving DecidableEq

def terminalToOutcome : ApprovalState → Option WaitOutcome
  | .pending => none
  | .responded choice responder comment _ =>
    some (.responded choice responder comment)
  | .timedOut defaultChoice _ => some (.timedOut defaultChoice)
  | .cancelled _ => some .cancelled

/-- What the lock protects. A waiter is the number of its channel. -/
structure Inner where
  records : BTreeMap ApprovalId ApprovalRecord
  waiters : BTreeMap ApprovalId (List Nat)

namespace Inner

def new : Inner := ⟨∅, ∅⟩

variable (g : Inner)

/-- The request as it is stored. -/
def completed (request : ApprovalRequest) (now : Nat) : ApprovalRequest :=
  { request with
    choices :=
      if request.choices.isEmpty then
        [ApprovalChoice.approve, ApprovalChoice.deny]
      else request.choices
    createdAt := if request.createdAt = 0 then now else request.createdAt }

def request (request : ApprovalRequest) (now : Nat) :
    Except ApprovalError StateChange × Inner :=
  if request.title.isEmpty then
    (.error (.invalidRequest "title is empty"), g)
  else
    let request := completed request now
    let unknown := match request.defaultChoice with
      | some default =>
        if request.choices.any fun c => c.key = default then none
        else some s!"default_choice '{default}' not in choices"
      | none => none
    match unknown with
    | some message => (.error (.invalidChoice message), g)
    | none =>
      let id := request.id
      let record := ApprovalRecord.new request
      if g.records.contains id then
        (.error (.invalidRequest s!"duplicate id: {id}"), g)
      else
        (.ok ⟨record, .created⟩, { g with records := g.records.insert id record })

/-- A transition: the record takes the state and one more entry, and its
waiters are taken out, each to be sent the outcome. -/
def close (id : ApprovalId) (record : ApprovalRecord) (state : ApprovalState)
    (entry : HistoryEntry) (outcome : WaitOutcome) :
    ApprovalRecord × Inner × List (Nat × WaitOutcome) :=
  let record := { record with state, history := record.history ++ [entry] }
  let waiters := g.waiters[id]?.getD []
  (record,
    { records := g.records.insert id record, waiters := g.waiters.erase id },
    waiters.map fun tx => (tx, outcome))

def respond (id : ApprovalId) (choice : String) (responder : Responder)
    (comment : Option String) (now : Nat) :
    Except ApprovalError StateChange × Inner × List (Nat × WaitOutcome) :=
  match g.records[id]? with
  | none => (.error (.notFound id), g, [])
  | some record =>
    if record.state.isTerminal then (.error (.alreadyResponded id), g, [])
    else if record.request.hostElevation.isSome && responder ≠ .user then
      (.error (.userResponseRequired id), g, [])
    else if record.request.requester.matchesResponder responder then
      (.error .selfResponse, g, [])
    else if !record.request.choices.any fun c => c.key = choice then
      (.error (.invalidChoice choice), g, [])
    else
      let (record, g, sent) :=
        g.close id record (.responded choice responder comment now)
          ⟨now, "responded", some choice, some responder, comment⟩
          (.responded choice responder comment)
      (.ok ⟨record, .responded⟩, g, sent)

def cancel (id : ApprovalId) (now : Nat) :
    Except ApprovalError StateChange × Inner × List (Nat × WaitOutcome) :=
  match g.records[id]? with
  | none => (.error (.notFound id), g, [])
  | some record =>
    if record.state.isTerminal then (.error (.alreadyResponded id), g, [])
    else
      let (record, g, sent) := g.close id record (.cancelled now)
        ⟨now, "cancelled", none, none, none⟩ .cancelled
      (.ok ⟨record, .cancelled⟩, g, sent)

/-- The first lock section of `await_transition`: the answer, or the store
with the caller's channel among the waiters. -/
def register (id : ApprovalId) (tx : Nat) :
    Except ApprovalError Awaited ⊕ Inner :=
  match g.records[id]? with
  | none => .inl (.error (.notFound id))
  | some record =>
    match terminalToOutcome record.state with
    | some outcome => .inl (.ok ⟨outcome, none⟩)
    | none =>
      .inr { g with
        waiters := g.waiters.insert id (g.waiters[id]?.getD [] ++ [tx]) }

/-- The lock section of `wait_with_timeout` after the time is over. -/
def expire (id : ApprovalId) (now : Nat) :
    Awaited × Inner × List (Nat × WaitOutcome) :=
  match g.records[id]? with
  | none => (⟨.cancelled, none⟩, g, [])
  | some record =>
    match terminalToOutcome record.state with
    | some outcome => (⟨outcome, none⟩, g, [])
    | none =>
      let defaultChoice := record.request.defaultChoice
      let (record, g, sent) := g.close id record (.timedOut defaultChoice now)
        ⟨now, "timed_out", defaultChoice, some .system, none⟩
        (.timedOut defaultChoice)
      (⟨.timedOut defaultChoice, some ⟨record, .timedOut⟩⟩, g, sent)

end Inner

-- ==== interleavings

/-- Where a call stands. -/
inductive Call where
  | idle
  /-- It waits at its channel, for a time or without end. -/
  | waiting (id : ApprovalId) (rx : Nat) (timeout : Option Nat)
  /-- Its time was over; it goes for the lock. -/
  | late (id : ApprovalId)
  /-- A request, a response or a cancellation has returned. -/
  | changed (answer : Except ApprovalError StateChange)
  | awaited (id : ApprovalId) (answer : Except ApprovalError Awaited)

/-- The store, what lies in each channel, and the calls by number. -/
structure World where
  inner : Inner
  queues : Nat → Option WaitOutcome
  channels : Nat
  calls : Nat → Call

/-- One atomic step of a call. -/
inductive Event where
  | request (call : Nat) (request : ApprovalRequest) (now : Nat)
  | respond (call : Nat) (id : ApprovalId) (choice : String)
      (responder : Responder) (comment : Option String) (now : Nat)
  | cancel (call : Nat) (id : ApprovalId) (now : Nat)
  | await (call : Nat) (id : ApprovalId) (timeout : Option Nat)
  /-- The channel gives its message. -/
  | receive (call : Nat)
  /-- Every sender of the channel is gone. -/
  | disconnect (call : Nat)
  /-- The time of a wait is over, whatever the clock of the others says. -/
  | timeout (call : Nat)
  | expire (call : Nat) (now : Nat)

namespace World

def new : World where
  inner := Inner.new
  queues _ := none
  channels := 0
  calls _ := .idle

variable (w : World)

/-- `notify_waiter`: a channel holds one message; a second is dropped. -/
def notify (queues : Nat → Option WaitOutcome) (sent : Nat × WaitOutcome) :
    Nat → Option WaitOutcome :=
  if queues sent.1 = none then Function.update queues sent.1 (some sent.2)
  else queues

/-- A lock section of `call` is over: the store, the messages and where the
call stands then. -/
def after (call : Nat) (inner : Inner) (sent : List (Nat × WaitOutcome))
    (standing : Call) : World :=
  { w with
    inner
    queues := sent.foldl notify w.queues
    calls := Function.update w.calls call standing }

def registered (rx : Nat) : Bool :=
  w.inner.waiters.anyValue fun waiters => waiters.contains rx

/-- The step, where the call can take it. -/
def step : Event → Option World
  | .request call request now =>
    match w.calls call with
    | .idle =>
      let (answer, inner) := w.inner.request request now
      some (w.after call inner [] (.changed answer))
    | _ => none
  | .respond call id choice responder comment now =>
    match w.calls call with
    | .idle =>
      let (answer, inner, sent) :=
        w.inner.respond id choice responder comment now
      some (w.after call inner sent (.changed answer))
    | _ => none
  | .cancel call id now =>
    match w.calls call with
    | .idle =>
      let (answer, inner, sent) := w.inner.cancel id now
      some (w.after call inner sent (.changed answer))
    | _ => none
  | .await call id timeout =>
    match w.calls call with
    | .idle =>
      match w.inner.register id w.channels with
      | .inl answer => some (w.after call w.inner [] (.awaited id answer))
      | .inr inner =>
        some { w.after call inner [] (.waiting id w.channels timeout) with
          channels := w.channels + 1 }
    | _ => none
  | .receive call =>
    match w.calls call with
    | .waiting id rx _ =>
      (w.queues rx).map fun outcome =>
        w.after call w.inner [] (.awaited id (.ok ⟨outcome, none⟩))
    | _ => none
  | .disconnect call =>
    match w.calls call with
    | .waiting id rx _ =>
      if w.queues rx = none ∧ ¬ w.registered rx then
        some (w.after call w.inner [] (.awaited id (.ok ⟨.cancelled, none⟩)))
      else none
    | _ => none
  | .timeout call =>
    match w.calls call with
    | .waiting id _ (some _) => some (w.after call w.inner [] (.late id))
    | _ => none
  | .expire call now =>
    match w.calls call with
    | .late id =>
      let (answer, inner, sent) := w.inner.expire id now
      some (w.after call inner sent (.awaited id (.ok answer)))
    | _ => none

def run : World → List Event → Option World
  | w, [] => some w
  | w, event :: events => (w.step event).bind fun w => run w events

end World

end Tasty.Approval
