/-
One registration of the stream hub: its bounded queue, the sink that the
hub keeps of it, and the receiver that the writer thread drains.

The hub works under the lock of its sinks; the receiver takes frames off
the queue without it. So what the holder of the lock does is cut into the
steps that the other thread can see, and an action is one step of either.
-/
import Tasty.Lib.Lossy

namespace Tasty.Ipc.StreamHub

/-- `SINK_CAP`. -/
def SINK_CAP : Nat := 1024

/-- `LAG_LIMIT`. -/
def LAG_LIMIT : Nat := 64

/-- `StreamSink`, as far as frames and their loss go. -/
structure StreamSink where
  lag : Nat
  lossNotify : Bool
  pendingLoss : Nat
  deriving DecidableEq, Repr

/-- `StreamHub::owes`. -/
def owes (sink : StreamSink) : Bool :=
  sink.lossNotify && sink.pendingLoss != 0

/-- `PushResult`. -/
inductive PushResult where
  | sent
  | unknown
  | dropped
  | disconnected
  deriving DecidableEq, Repr

/-- Whether a push is for this registration, by its binding or its
reservation, and its bytes can be charged. -/
inductive Admission where
  | admitted
  | unbound
  | uncharged
  deriving DecidableEq, Repr

/-- What the holder of the lock goes on with once the notice was tried: the
frame of its push, the other sinks of `repay_all_pending_loss`, or the
return of the receiver's `repay_now`. -/
inductive Next (α : Type) where
  | push (x : α)
  | repaid
  | took
  deriving DecidableEq, Repr

/-- Where the holder of the lock is. -/
inductive Holder (α : Type) where
  | nobody
  /-- `repay_pending_loss`, with a notice to put in -/
  | notice (next : Next α)
  | noticeCounted (next : Next α)
  | noticeRefused (next : Next α)
  | noticeSent (next : Next α)
  /-- `enqueue_held` of the frame of a push -/
  | frame (x : α)
  | frameCounted (x : α)
  | frameRefused (full : Bool)
  | frameLost
  deriving DecidableEq, Repr

/-- The lock is free. -/
def Holder.free {α : Type} : Holder α → Bool
  | .nobody => true
  | _ => false

/-- Where the receiver is: in `took` it has a frame in hand. -/
inductive Reader where
  | waiting
  | taken
  | counted
  | asking
  | repaying
  deriving DecidableEq, Repr

/-- The registration. The code's `queued` is unsigned: here it is an
integer, and never negative (`Marked`). What was received, what became of
the pushes and how the last one ended is kept on the side. -/
structure State (α : Type) where
  queue : List (Seen α)
  /-- the receiver is still there -/
  connected : Bool
  sink : Option StreamSink
  owesNotice : Bool
  queued : Int
  holder : Holder α
  reader : Reader
  received : List (Seen α)
  fates : List (Fate α)
  result : Option PushResult
  deriving DecidableEq, Repr

/-- One step of the holder of the lock, or of the receiver, or of a thread
that takes the lock. -/
inductive Action (α : Type) where
  /-- `push_to`, up to its first attempt -/
  | push (x : α) (admission : Admission)
  /-- `enable_loss_notify` -/
  | declare
  /-- `repay_all_pending_loss`, at the end of `pump_inbound` -/
  | pump
  /-- `unregister` -/
  | unregister
  /-- the next step under the lock; a notice's bytes may not be charged -/
  | advance (charged : Bool)
  /-- the receiver takes a frame off the queue -/
  | recv
  /-- the next step of the receiver that has one -/
  | read
  /-- the receiver is dropped, with what is still queued -/
  | hangUp
  deriving DecidableEq, Repr

variable {α : Type}

/-- `StreamHub::register`. -/
def register : State α where
  queue := []
  connected := true
  sink := some ⟨0, false, 0⟩
  owesNotice := false
  queued := 0
  holder := .nobody
  reader := .waiting
  received := []
  fates := []
  result := none

namespace State

/-- `sync_owed`. -/
def syncOwed (s : State α) (sink : StreamSink) : State α :=
  { s with sink := some sink, owesNotice := owes sink }

/-- What comes after `repay_pending_loss`. -/
def proceed (s : State α) : Next α → State α
  | .push x => { s with holder := .frame x }
  | .repaid => { s with holder := .nobody }
  | .took => { s with holder := .nobody, reader := .waiting }

/-- `push_to`, its lock taken. -/
def push (s : State α) (x : α) (admission : Admission) : State α :=
  match s.sink, admission with
  | none, _ | some _, .unbound => { s with result := some .unknown }
  | some _, .uncharged => { s with result := some .dropped }
  | some sink, .admitted =>
    if owes sink then { s with holder := .notice (.push x) }
    else { s with holder := .frame x }

/-- `enable_loss_notify`. -/
def declare (s : State α) : State α :=
  match s.sink with
  | none => s
  | some sink => s.syncOwed { sink with lossNotify := true }

/-- `repay_pending_loss`, for somebody who then goes on with `next`. -/
def repay (s : State α) (next : Next α) : State α :=
  match s.sink with
  | none => s.proceed next
  | some sink =>
    if owes sink then { s with holder := .notice next } else s.proceed next

/-- There is room for `try_send`. -/
def room (s : State α) : Bool := s.connected && s.queue.length < SINK_CAP

/-- The end of a push that found the queue full. -/
def lose (s : State α) (sink : StreamSink) : State α :=
  let sink := { sink with pendingLoss := sink.pendingLoss + 1 }
  let s := s.syncOwed sink
  let sink := { sink with lag := sink.lag + 1 }
  let s := { s with fates := s.fates ++ [Fate.lost], holder := .nobody }
  if LAG_LIMIT ≤ sink.lag then
    { s with sink := none, result := some .disconnected }
  else { s with sink := some sink, result := some .dropped }

/-- The next step under the lock, which is held with this sink. -/
def advance (s : State α) (sink : StreamSink) (charged : Bool) : State α :=
  match s.holder with
  | .nobody => s
  | .notice next =>
    if charged then
      { s with queued := s.queued + 1, holder := .noticeCounted next }
    else s.proceed next
  | .noticeCounted next =>
    if s.room then
      { s with
        queue := s.queue ++ [.notice sink.pendingLoss]
        holder := .noticeSent next }
    else { s with holder := .noticeRefused next }
  | .noticeRefused next => { s with queued := s.queued - 1 }.proceed next
  | .noticeSent next =>
    (s.syncOwed { sink with pendingLoss := 0 }).proceed next
  | .frame x => { s with queued := s.queued + 1, holder := .frameCounted x }
  | .frameCounted x =>
    if s.room then
      { s with
        queue := s.queue ++ [.frame x]
        sink := some { sink with lag := 0 }
        fates := s.fates ++ [.sent x sink.lossNotify]
        holder := .nobody
        result := some .sent }
    else { s with holder := .frameRefused s.connected }
  | .frameRefused full =>
    if full then { s with queued := s.queued - 1, holder := .frameLost }
    else { s with
      queued := s.queued - 1
      sink := none
      holder := .nobody
      result := some .unknown }
  | .frameLost => s.lose sink

/-- A frame is taken off the queue, if one is there. -/
def recv (s : State α) : State α :=
  match s.queue with
  | [] => s
  | f :: rest =>
    { s with queue := rest, received := s.received ++ [f], reader := .taken }

/-- `took`: the count goes down, and if a notice is owed the lock is asked
for. -/
def read (s : State α) : State α :=
  match s.reader with
  | .waiting | .repaying => s
  | .taken => { s with queued := s.queued - 1, reader := .counted }
  | .counted =>
    { s with reader := if s.owesNotice then .asking else .waiting }
  | .asking =>
    if s.holder.free then
      { s with reader := .repaying }.repay .took
    else s

/-- One action. An action that takes the lock waits while it is held: it
does nothing then, and comes again. -/
def step (s : State α) : Action α → State α
  | .push x admission =>
    if s.holder.free then s.push x admission else s
  | .declare => if s.holder.free then s.declare else s
  | .pump => if s.holder.free then s.repay .repaid else s
  | .unregister =>
    if s.holder.free then { s with sink := none } else s
  | .advance charged =>
    match s.sink with
    | none => s
    | some sink => s.advance sink charged
  | .recv =>
    if s.connected ∧ s.reader = .waiting then s.recv else s
  | .read => s.read
  | .hangUp =>
    if s.reader = .waiting then { s with connected := false } else s

/-- The registration after some actions. -/
def run (s : State α) (actions : List (Action α)) : State α :=
  actions.foldl step s

end State

end Tasty.Ipc.StreamHub
