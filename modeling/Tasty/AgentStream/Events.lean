/-
The event buffer of the plugin and its SSE subscribers
(`crates/tasty-plugin-agent-stream/src/{registry,sse/hub,sse/server}.rs`):
numbering, fan-out through bounded queues, replay from a cursor, saving the
counter, and a crash.

Three kinds of threads meet here. The holder of the registry lock numbers an
event, asks the hub whether anybody listens, publishes and then buffers the
event; the hub has a lock of its own, so a connection may subscribe or end in
between. A connection reads the buffer once, under the registry lock, and
then only its own queue. An action is one step of one of them. The `Sub` that
the hub holds of a connection stands in the connection itself.

An event and what is made of it for the wire (`Published`, its SSE frame) are
one record here; the text of a frame is left out. A number is a `u64` in the
code, and no run reaches its bound.
-/
import Mathlib.Algebra.BigOperators.Group.List.Basic
import Mathlib.Algebra.GroupWithZero.Nat
import Tasty.Lib.BTreeMap

namespace Tasty.AgentStream.Sse

/-- `EVENT_BUFFER_CAP`. -/
def EVENT_BUFFER_CAP : Nat := 4096

/-- `SUBSCRIBER_QUEUE_CAP`. -/
def SUBSCRIBER_QUEUE_CAP : Nat := 256

/-- `DROP_STREAK_LIMIT`. -/
def DROP_STREAK_LIMIT : Nat := 64

inductive EventKind where
  | text
  | thinking
  | toolUse
  | turnEnd
  deriving DecidableEq, Repr

/-- The input of a tool is JSON, kept as its text. -/
structure StreamEvent where
  kind : EventKind
  recordUuid : Option String
  timestamp : Option String
  text : Option String
  toolName : Option String
  toolInput : Option String
  reason : Option String
  deriving DecidableEq, Repr

/-- An event with its number, as it is buffered and sent. -/
structure BufferedEvent where
  seq : Nat
  surfaceId : UInt32
  sessionId : String
  requestId : Option String
  event : StreamEvent
  deriving DecidableEq, Repr

structure SubOptions where
  filterSurface : Option UInt32
  includeThinking : Bool
  deriving DecidableEq, Repr

/-- `Option::is_none_or(|s| s == id)`. -/
def admits (filter : Option UInt32) (id : UInt32) : Bool :=
  match filter with
  | none => true
  | some s => s = id

/-- `SubOptions::wants`. -/
def SubOptions.wants (opts : SubOptions) (e : BufferedEvent) : Bool :=
  if !opts.includeThinking && e.event.kind = .thinking then false
  else admits opts.filterSurface e.surfaceId

-- ==== registry

/-- An open turn of a surface; times are in any unit. -/
structure TurnState where
  requestId : String
  lastActivity : Nat
  timeout : Nat
  deriving DecidableEq, Repr

structure StreamRegistry where
  events : List BufferedEvent
  nextSeq : Nat
  dropped : Nat
  /-- `snapshot_path` is there -/
  persistent : Bool
  dirty : Bool
  turns : BTreeMap UInt32 TurnState

namespace StreamRegistry

/-- `StreamRegistry::new`. -/
def new (persistent : Bool) : StreamRegistry where
  events := []
  nextSeq := 0
  dropped := 0
  persistent := persistent
  dirty := false
  turns := ∅

/-- `push_event`, up to the question whether anybody listens. -/
def number (r : StreamRegistry) (surfaceId : UInt32) (sessionId : String)
    (event : StreamEvent) (now : Nat) : StreamRegistry × BufferedEvent :=
  let turn := r.turns[surfaceId]?
  let turns := match turn with
    | some turn =>
      r.turns.insert surfaceId { turn with lastActivity := now }
    | none => r.turns
  ({ r with nextSeq := r.nextSeq + 1, dirty := true, turns },
    ⟨r.nextSeq + 1, surfaceId, sessionId, turn.map TurnState.requestId,
      event⟩)

/-- The loop of `push_event` that drops the oldest events over the bound;
with them their number. -/
def evict : List BufferedEvent → Nat → List BufferedEvent × Nat
  | [], dropped => ([], dropped)
  | e :: events, dropped =>
    if EVENT_BUFFER_CAP < (e :: events).length then
      evict events (dropped + 1)
    else (e :: events, dropped)

/-- `push_event`, from where the event is published on. -/
def buffer (r : StreamRegistry) (e : BufferedEvent) : StreamRegistry :=
  let kept := evict (r.events ++ [e]) r.dropped
  { r with
    events := kept.1
    dropped := kept.2
    turns :=
      if e.event.kind = .turnEnd then r.turns.erase e.surfaceId
      else r.turns }

/-- The end of `start_turn`, for a watched surface. -/
def startTurn (r : StreamRegistry) (surfaceId : UInt32)
    (requestId : String) (timeout now : Nat) : StreamRegistry :=
  if r.turns.contains surfaceId then r
  else
    { r with turns := r.turns.insert surfaceId ⟨requestId, now, timeout⟩ }

end StreamRegistry

structure Replay where
  gap : Option (Nat × Nat)
  events : List BufferedEvent

/-- The oldest buffered number; of an empty buffer, the next one. -/
def StreamRegistry.firstAvailable (r : StreamRegistry) : Nat :=
  match r.events.head? with
  | some e => e.seq
  | none => r.nextSeq + 1

/-- `replay_after`. -/
def StreamRegistry.replayAfter (r : StreamRegistry) (afterSeq : Nat)
    (opts : SubOptions) : Replay :=
  { gap :=
      if afterSeq + 1 < r.firstAvailable then
        some (afterSeq + 1, r.firstAvailable - 1)
      else none
    events := ((r.events.filter fun e => afterSeq < e.seq).filter
      fun e => opts.includeThinking || e.event.kind ≠ .thinking).filter
      fun e => admits opts.filterSurface e.surfaceId }

-- ==== connections

/-- What a connection writes. A gap goes out under the number before it, so
that it does not move the reader's cursor. -/
inductive Frame where
  | preamble
  | retry
  | gap (id first last : Nat)
  | event (e : BufferedEvent)
  | keepAlive

/-- `Sub`, as far as losses go. -/
structure Sub where
  sent : Nat
  dropped : Nat
  dropStreak : Nat
  deriving DecidableEq, Repr

/-- Where a connection is in `stream` and `pump_stream`. -/
inductive Phase where
  /-- subscribed, the replay not read yet -/
  | subscribed
  /-- with frames to write -/
  | writing (frames : List Frame)
  /-- before `recv_timeout` -/
  | pumping
  | ended

/-- A connection. On the side it has what its reader had seen before, the
number the reader began from, the number this connection goes on from, what
the reader's full queues refused, and whether a crash took a number back
that the reader had seen. -/
structure Connection where
  opts : SubOptions
  resume : Option Nat
  sub : Option Sub
  queue : List BufferedEvent
  /-- the receiver is still there -/
  receiving : Bool
  /-- `ctx.stop` -/
  stop : Bool
  phase : Phase
  lastSeq : Nat
  out : List Frame
  before : List Frame
  start : Nat
  cursor : Nat
  refusedBefore : List Nat
  refused : List Nat
  stale : Bool

def eventOf : Frame → Option BufferedEvent
  | .event e => some e
  | _ => none

def gapOf : Frame → Option (Nat × Nat)
  | .gap _ first last => some (first, last)
  | _ => none

def eventsOf (frames : List Frame) : List BufferedEvent :=
  frames.filterMap eventOf

def gapsOf (frames : List Frame) : List (Nat × Nat) :=
  frames.filterMap gapOf

namespace Connection

/-- `SseHub::subscribe`, for a reader that begins with this cursor. -/
def subscribe (opts : SubOptions) (resume : Option Nat) (cursor : Nat)
    (stale : Bool) : Connection where
  opts := opts
  resume := resume
  sub := some ⟨0, 0, 0⟩
  queue := []
  receiving := true
  stop := false
  phase := .subscribed
  lastSeq := 0
  out := []
  before := []
  start := cursor
  cursor := cursor
  refusedBefore := []
  refused := []
  stale := stale

/-- What the reader has seen once `k` frames of this connection came. -/
def view (c : Connection) (k : Nat) : List Frame :=
  c.before ++ c.out.take k

/-- The last event id the reader has seen by then. -/
def lastId (c : Connection) (k : Nat) : Option Nat :=
  match (eventsOf (c.view k)).getLast? with
  | some e => some e.seq
  | none => c.resume

/-- `deliver`, to a subscriber of the hub; with it what the hub adds to its
total when it drops the subscriber. -/
def deliver (c : Connection) (sub : Sub) (e : BufferedEvent) :
    Connection × Nat :=
  if !c.opts.wants e then (c, 0)
  else if !c.receiving then ({ c with sub := none }, sub.dropped)
  else if c.queue.length < SUBSCRIBER_QUEUE_CAP then
    ({ c with
      queue := c.queue ++ [e]
      sub := some { sub with sent := sub.sent + 1, dropStreak := 0 } }, 0)
  else
    let sub := { sub with
      dropped := sub.dropped + 1
      dropStreak := sub.dropStreak + 1 }
    let c := { c with refused := c.refused ++ [e.seq] }
    if DROP_STREAK_LIMIT ≤ sub.dropStreak then
      ({ c with sub := none }, sub.dropped)
    else ({ c with sub := some sub }, 0)

/-- What `publish` does with a connection. -/
def offer (c : Connection) (e : BufferedEvent) : Connection × Nat :=
  match c.sub with
  | some sub => c.deliver sub e
  | none => (c, 0)

/-- The end of a connection: `Subscription::drop`, then its receiver. -/
def leave (c : Connection) : Connection × Nat :=
  ({ c with sub := none, receiving := false, phase := .ended },
    (c.sub.map Sub.dropped).getD 0)

/-- What `stream` writes before it pumps. -/
def opening (replay : Replay) : List Frame :=
  [.preamble, .retry]
    ++ (replay.gap.map fun g => Frame.gap (g.1 - 1) g.1 g.2).toList
    ++ replay.events.map .event

/-- `collect_replay`. -/
def collectReplay (c : Connection) (r : StreamRegistry) : Replay :=
  match c.resume with
  | some afterSeq => r.replayAfter afterSeq c.opts
  | none => ⟨none, []⟩

/-- The replay is read, and what `stream` makes of it. -/
def collect (c : Connection) (r : StreamRegistry) : Connection :=
  { c with phase := .writing (opening (c.collectReplay r)) }

/-- `write_str` of the next frame; a failure ends the connection. -/
def write (c : Connection) (f : Frame) (rest : List Frame)
    (succeeds : Bool) : Connection × Nat :=
  if succeeds then
    ({ c with
      out := c.out ++ [f]
      lastSeq := match eventOf f with
        | some e => e.seq
        | none => c.lastSeq
      phase := if rest.isEmpty then .pumping else .writing rest }, 0)
  else c.leave

/-- One round of `pump_stream` up to its write; `elapsed` is the keep-alive
time. -/
def pump (c : Connection) (elapsed : Bool) : Connection × Nat :=
  if c.stop then c.leave
  else match c.queue with
    | e :: queue =>
      if e.seq ≤ c.lastSeq then ({ c with queue }, 0)
      else ({ c with queue, phase := .writing [.event e] }, 0)
    | [] =>
      if c.sub.isNone then c.leave
      else if elapsed then ({ c with phase := .writing [.keepAlive] }, 0)
      else (c, 0)

/-- The next step of the thread of a connection. -/
def advance (c : Connection) (flag : Bool) : Connection × Nat :=
  match c.phase with
  | .writing (f :: rest) => c.write f rest flag
  | .pumping => c.pump flag
  | _ => (c, 0)

end Connection

-- ==== the run

/-- Where the holder of the registry lock is in `push_event`. -/
inductive Stage where
  /-- before `is_idle` -/
  | numbered
  /-- before `publish` -/
  | publishing
  | published
  deriving DecidableEq, Repr

/-- An event that got a number, and whether a crash took it back: then it
came after the save that the restart went back to. -/
structure Given where
  event : BufferedEvent
  lost : Bool

/-- A connection of an earlier process, and the number up to which no crash
since took anything back. -/
structure Past where
  connection : Connection
  limit : Nat

structure State where
  registry : StreamRegistry
  pushing : Option (BufferedEvent × Stage)
  /-- the `next_seq` of the snapshot file -/
  saved : Option Nat
  connections : List Connection
  /-- `HubInner::total_dropped` -/
  totalDropped : Nat
  past : List Past
  given : List Given

inductive Action where
  /-- `push_event`, its number given -/
  | push (surfaceId : UInt32) (sessionId : String) (event : StreamEvent)
      (now : Nat)
  /-- its next step under the lock -/
  | proceed
  | startTurn (surfaceId : UInt32) (requestId : String) (timeout now : Nat)
  /-- `save_if_dirty`; the file system may refuse -/
  | save (succeeds : Bool)
  /-- a reader that begins with a cursor, or with none -/
  | connect (opts : SubOptions) (resume : Option Nat)
  /-- the reader of a connection that saw so many of its frames -/
  | reconnect (i k : Nat)
  /-- `collect_replay` -/
  | collect (i : Nat)
  /-- the next step of the thread of a connection -/
  | advance (i : Nat) (flag : Bool)
  /-- the server of a connection is told to stop -/
  | stop (i : Nat)
  /-- `close_all` -/
  | closeAll
  /-- the process dies and starts again from the snapshot file -/
  | crash

namespace State

/-- What no crash took back, in order. -/
def log (s : State) : List BufferedEvent :=
  (s.given.filter fun g => !g.lost).map Given.event

/-- The numbers up to which the hub is done. -/
def published (s : State) : Nat :=
  match s.pushing with
  | some (_, .numbered) | some (_, .publishing) => s.registry.nextSeq - 1
  | _ => s.registry.nextSeq

/-- `SseHub::is_idle`. -/
def isIdle (s : State) : Bool :=
  s.connections.all fun c => c.sub.isNone

/-- A connection after one of its own steps. -/
def put (s : State) (i : Nat) (r : Connection × Nat) : State :=
  { s with
    connections := s.connections.set i r.1
    totalDropped := s.totalDropped + r.2 }

/-- A step that the hub takes with every connection. -/
def each (s : State) (f : Connection → Connection × Nat) : State :=
  { s with
    connections := s.connections.map fun c => (f c).1
    totalDropped := s.totalDropped
      + (s.connections.map fun c => (f c).2).sum }

/-- The next step of `push_event`. -/
def proceed (s : State) : State :=
  match s.pushing with
  | none => s
  | some (e, .numbered) =>
    { s with
      pushing := some (e, if s.isIdle then .published else .publishing) }
  | some (e, .publishing) =>
    { s.each (·.offer e) with pushing := some (e, .published) }
  | some (e, .published) =>
    { s with registry := s.registry.buffer e, pushing := none }

/-- `save_if_dirty`. -/
def save (s : State) (succeeds : Bool) : State :=
  if !s.registry.dirty then s
  else if !s.registry.persistent then
    { s with registry := { s.registry with dirty := false } }
  else if succeeds then
    { s with
      registry := { s.registry with dirty := false }
      saved := some s.registry.nextSeq }
  else s

/-- A new reader. A number that was not given out yet cannot have been seen
by anybody. -/
def connect (s : State) (opts : SubOptions) (resume : Option Nat) : State :=
  let cursor := resume.getD s.published
  { s with
    connections := s.connections
      ++ [.subscribe opts resume cursor (s.published < cursor)] }

/-- The reader of a connection subscribes again, with the last id it saw.
If it has none it begins anew. -/
def reconnect (s : State) (c : Connection) (limit : Option Nat) (k : Nat) :
    State :=
  match c.lastId k with
  | none => s.connect c.opts none
  | some r =>
    let fresh := Connection.subscribe c.opts (some r) r
      (c.stale || match limit with
        | some limit => limit < r
        | none => false)
    { s with
      connections := s.connections ++ [{ fresh with
        before := c.view k
        start := c.start
        refusedBefore := c.refusedBefore ++ c.refused }] }

/-- A new process: `StreamRegistry::new` and `restore`. -/
def crash (s : State) : State :=
  let nextSeq := s.saved.getD 0
  { s with
    registry := { StreamRegistry.new s.registry.persistent with nextSeq }
    pushing := none
    connections := []
    totalDropped := 0
    past := s.past.map (fun p => { p with limit := min p.limit nextSeq })
      ++ s.connections.map (⟨·, nextSeq⟩)
    given := s.given.map fun g =>
      { g with lost := g.lost || nextSeq < g.event.seq } }

/-- One action. What the registry lock guards waits for the push. -/
def step (s : State) : Action → State
  | .push surfaceId sessionId event now =>
    if s.pushing.isSome then s
    else
      let r := s.registry.number surfaceId sessionId event now
      { s with
        registry := r.1
        pushing := some (r.2, .numbered)
        given := s.given ++ [⟨r.2, false⟩] }
  | .proceed => s.proceed
  | .startTurn surfaceId requestId timeout now =>
    if s.pushing.isSome then s
    else
      { s with
        registry := s.registry.startTurn surfaceId requestId timeout now }
  | .save succeeds => if s.pushing.isSome then s else s.save succeeds
  | .connect opts resume => s.connect opts resume
  | .reconnect i k =>
    match s.past[i]?, s.connections[i - s.past.length]? with
    | some p, _ => s.reconnect p.connection (some p.limit) k
    | none, some c => s.reconnect c none k
    | none, none => s
  | .collect i =>
    match s.connections[i]? with
    | some c =>
      match c.phase with
      | .subscribed =>
        if s.pushing.isSome then s else s.put i (c.collect s.registry, 0)
      | _ => s
    | none => s
  | .advance i flag =>
    match s.connections[i]? with
    | some c => s.put i (c.advance flag)
    | none => s
  | .stop i =>
    match s.connections[i]? with
    | some c => s.put i ({ c with stop := true }, 0)
    | none => s
  | .closeAll =>
    s.each fun c => ({ c with sub := none }, (c.sub.map Sub.dropped).getD 0)
  | .crash => s.crash

/-- The first process, with no snapshot yet. -/
def init (persistent : Bool) : State where
  registry := .new persistent
  pushing := none
  saved := none
  connections := []
  totalDropped := 0
  past := []
  given := []

def run (s : State) (actions : List Action) : State :=
  actions.foldl step s

end State

end Tasty.AgentStream.Sse
