/-
The attach stream of a terminal
(`crates/tasty-terminal/src/attach_stream.rs`): output and resizes go to a
subscriber through a bounded queue, which one producer fills under the
parser lock and one consumer polls from another thread.

A call is cut into its atomic steps, each of which reads or writes what the
two threads share once, so that a run is any interleaving of the steps. The
stores and loads that the source orders (release and acquire) are in the
order of the run.
-/
import Mathlib.Algebra.BigOperators.Group.List.Basic
import Mathlib.Algebra.GroupWithZero.Nat
import Mathlib.Data.List.Infix

namespace Tasty.Terminal

-- ==== the events

inductive AttachEvent where
  | output (bytes : List UInt8)
  | resize (cols rows : Nat)
  /-- The prefix is complete, but its next event could not be retained. -/
  | loss
deriving DecidableEq

/-- The limits of a queue, and what an event costs beside its bytes. -/
structure Limits where
  maxEvents : Nat
  maxBytes : Nat
  charge : Nat

/-- `AttachEvent::weight`. -/
def AttachEvent.weight (L : Limits) : AttachEvent → Nat
  | output bytes => L.charge + bytes.length
  | resize _ _ | loss => L.charge

/-- The values of `usize`. -/
def usizeSize : Nat := 2 ^ 64

def checkedAdd (a b : Nat) : Option Nat :=
  if a + b < usizeSize then some (a + b) else none

/-- The weight as `send` computes it. -/
def AttachEvent.checkedWeight (L : Limits) : AttachEvent → Option Nat
  | output bytes => checkedAdd bytes.length L.charge
  | resize _ _ | loss => some L.charge

/-- `fetch_sub`, which wraps. -/
def fetchSub (used w : Nat) : Nat :=
  if w ≤ used then used - w else used + usizeSize - w

inductive TryRecvError where
  | empty
  | disconnected
deriving DecidableEq

-- ==== the state

/-- Where the producer is in `send`. -/
inductive Producer where
  | idle
  /-- `is_live` is to be read. -/
  | entered (e : AttachEvent)
  /-- The bytes are to be counted. -/
  | live (e : AttachEvent)
  /-- They are counted, and the event is to be queued. -/
  | reserved (e : AttachEvent)
  /-- It was not queued, and the bytes are to be given back. -/
  | returning (e : AttachEvent) (full : Bool)
  /-- The loss is to be noted. -/
  | losing
  /-- `send` answered false, and the tap is to be removed. -/
  | refused
  | removed
  /-- The terminal is dropped. -/
  | gone
deriving DecidableEq

/-- Where the consumer is in `try_recv`. -/
inductive Consumer where
  | idle
  | polling
  /-- An event was taken, and its bytes are to be given back. -/
  | taken (e : AttachEvent)
  /-- There was none, and the loss is to be read. -/
  | missed (e : TryRecvError)
  /-- There is a loss, and the queue is to be read again. -/
  | rechecking
  /-- It is closed, and the queue is to be dropped. -/
  | closing
  | gone
deriving DecidableEq

abbrev Answer := Except TryRecvError AttachEvent

/-- One subscription; `sent` is what the terminal has put out since, and
`answers` what `try_recv` has answered. -/
structure Stream where
  queue : List AttachEvent
  bytes : Nat
  lost : Bool
  receiverClosed : Bool
  ended : Bool
  producer : Producer
  consumer : Consumer
  sent : List AttachEvent
  answers : List Answer

/-- `snapshot_and_stream`. -/
def Stream.subscribed : Stream where
  queue := []
  bytes := 0
  lost := false
  receiverClosed := false
  ended := false
  producer := .idle
  consumer := .idle
  sent := []
  answers := []

/-- The sender is dropped with its tap. -/
def Producer.isDropped : Producer → Bool
  | removed | gone => true
  | _ => false

def Stream.answer (s : Stream) (a : Answer) : Stream :=
  { s with consumer := .idle, answers := s.answers ++ [a] }

-- ==== its steps

/-- An event of the terminal; without a tap it goes nowhere. -/
def Stream.fanOut (e : AttachEvent) (s : Stream) : Option Stream :=
  match s.producer with
  | .idle => some { s with producer := .entered e, sent := s.sent ++ [e] }
  | .removed => some { s with sent := s.sent ++ [e] }
  | _ => none

/-- The next step of `send`. -/
def Stream.produce (L : Limits) (s : Stream) : Option Stream :=
  match s.producer with
  | .entered e => some
      { s with
        producer := if s.receiverClosed then .refused else .live e }
  | .live e =>
    match (e.checkedWeight L).bind (checkedAdd s.bytes) with
    | some total =>
      if total ≤ L.maxBytes then
        some { s with bytes := total, producer := .reserved e }
      else some { s with producer := .losing }
    | none => some { s with producer := .losing }
  | .reserved e =>
    if s.consumer = .gone then
      some { s with producer := .returning e false }
    else if s.queue.length < L.maxEvents then
      some { s with queue := s.queue ++ [e], producer := .idle }
    else some { s with producer := .returning e true }
  | .returning e full => some
      { s with
        bytes := fetchSub s.bytes (e.weight L)
        producer := if full then .losing else .refused }
  | .losing => some { s with lost := true, producer := .refused }
  | .refused => some { s with producer := .removed }
  | .idle | .removed | .gone => none

/-- Another subscription removes the taps that are closed. -/
def Stream.prune (s : Stream) : Option Stream :=
  match s.producer with
  | .idle => some
      { s with producer := if s.receiverClosed then .removed else .idle }
  | _ => none

def Stream.dropTerminal (s : Stream) : Option Stream :=
  match s.producer with
  | .idle | .removed => some { s with producer := .gone }
  | _ => none

/-- `try_recv` is called. -/
def Stream.poll (s : Stream) : Option Stream :=
  match s.consumer with
  | .idle =>
    if s.ended then some (s.answer (.error .disconnected))
    else some { s with consumer := .polling }
  | _ => none

/-- The next step of `try_recv`, or of the drop of the receiver. -/
def Stream.consume (L : Limits) (s : Stream) : Option Stream :=
  match s.consumer with
  | .polling =>
    match s.queue with
    | e :: rest => some { s with queue := rest, consumer := .taken e }
    | [] => some
        { s with
          consumer := .missed
            (if s.producer.isDropped then TryRecvError.disconnected
              else .empty) }
  | .taken e => some
      ({ s with bytes := fetchSub s.bytes (e.weight L) }.answer (.ok e))
  | .missed error =>
    if s.lost then some { s with consumer := .rechecking }
    else some
      ({ s with ended := s.ended || error = TryRecvError.disconnected }.answer
        (.error error))
  | .rechecking =>
    -- the only producer appends no more once it has noted a loss
    match s.queue with
    | e :: rest => some { s with queue := rest, consumer := .taken e }
    | [] => some ({ s with ended := true }.answer (.ok .loss))
  | .closing => some { s with queue := [], consumer := .gone }
  | .idle | .gone => none

def Stream.dropReceiver (s : Stream) : Option Stream :=
  match s.consumer with
  | .idle => some { s with receiverClosed := true, consumer := .closing }
  | _ => none

inductive Action where
  | output (bytes : List UInt8)
  | resize (cols rows : Nat)
  | produce
  | prune
  | dropTerminal
  | poll
  | consume
  | dropReceiver

def Stream.act (L : Limits) : Action → Stream → Option Stream
  | .output bytes, s => s.fanOut (.output bytes)
  | .resize cols rows, s => s.fanOut (.resize cols rows)
  | .produce, s => s.produce L
  | .prune, s => s.prune
  | .dropTerminal, s => s.dropTerminal
  | .poll, s => s.poll
  | .consume, s => s.consume L
  | .dropReceiver, s => s.dropReceiver

def Stream.Step (L : Limits) (s s' : Stream) : Prop :=
  ∃ a, s.act L a = some s'

/-- Any interleaving of the steps. -/
def Stream.Run (L : Limits) : Stream → Stream → Prop :=
  Relation.ReflTransGen (Stream.Step L)

def Stream.Reachable (L : Limits) (s : Stream) : Prop :=
  Stream.Run L .subscribed s

/-- A run that is given by its actions. -/
def Stream.play (L : Limits) : List Action → Stream → Option Stream
  | [], s => some s
  | a :: rest, s => (s.act L a).bind (Stream.play L rest)

theorem Stream.run_of_play {L : Limits} {actions : List Action}
    {s s' : Stream} (h : s.play L actions = some s') : Stream.Run L s s' := by
  induction actions generalizing s with
  | nil =>
    cases h
    exact .refl
  | cons a rest ih =>
    obtain ⟨s₁, hact, hrest⟩ := Option.bind_eq_some_iff.1 h
    exact .head ⟨a, hact⟩ (ih hrest)

end Tasty.Terminal
