/-
The watches of the registry and the turns that correlate their events
(`crates/tasty-plugin-agent-stream/src/registry.rs`).

A watch whose target changes gets a new generation, and with it a tail of
its own; a tail in the hands of a pump carries the generation it was taken
under. What the pumps have in hand is kept beside the registry, and a call
gives the events it records. The subscribers are left out, and so are the
uuids that a watch remembers.
-/
import Mathlib.Data.List.Sort
import Tasty.AgentStream.Events
import Tasty.AgentStream.Tail
import Tasty.Lib.Table

namespace Tasty.AgentStream.Turns

open Sse (StreamEvent BufferedEvent TurnState)

def REASON_SESSION_ENDED : String := "stream:session_ended"

def REASON_REWATCHED : String := "stream:rewatched"

def REASON_TURN_TIMEOUT : String := "stream:turn_timeout"

/-- `StreamEvent::turn_end`. -/
def turnEnd (reason : String) : StreamEvent where
  kind := .turnEnd
  recordUuid := none
  timestamp := none
  text := none
  toolName := none
  toolInput := none
  reason := some reason

/-- A path, by its components. -/
abbrev Path := List String

/-- What the file system answers about a path. -/
structure Probe where
  file : Transcript
  known : Bool
  fault : Fault

structure Watch extends AgentStream.Watch where
  surfaceId : UInt32
  sessionId : String
  transcript : Path

structure TailCheckout extends AgentStream.TailCheckout where
  surfaceId : UInt32
  sessionId : String
  transcript : Path

/-- `new_watch`; `insert` gives it its generation. -/
def newWatch (surfaceId : UInt32) (sessionId : String) (transcript : Path)
    (fromStart : Bool) (probe : Probe) : Watch :=
  let tail :=
    if fromStart then
      TailState.resumeAt probe.file 0 probe.known probe.fault
    else TailState.atEnd probe.file probe.known probe.fault
  { surfaceId, sessionId, transcript
    tail := some tail
    offset := tail.offset
    generation := 0 }

/-- A watch that begins with another file. -/
def Watch.retarget (w : Watch) (transcript : Path) (probe : Probe)
    (generation : Nat) : Watch :=
  { w with
    transcript, generation
    tail := some (.resumeAt probe.file 0 probe.known probe.fault)
    offset := 0 }

/-- No surface has two watches. -/
structure Registry extends Sse.StreamRegistry where
  watches : List Watch
  nextGeneration : Nat

/-- What a call leaves, what it records, and its answer. -/
structure Called where
  registry : Registry
  events : List BufferedEvent
  answer : Bool

inductive TurnError where
  | notWatched
  | alreadyOpen (requestId : String)

namespace Registry

/-- `StreamRegistry::new`. -/
def new (persistent : Bool) : Registry :=
  { Sse.StreamRegistry.new persistent with watches := [], nextGeneration := 0 }

/-- The watch of a surface. -/
def watch (r : Registry) (id : UInt32) : Option Watch :=
  Table.find Watch.surfaceId id r.watches

/-- The watch of a surface, changed in place. -/
def setWatch (r : Registry) (w : Watch) : Registry :=
  { r with
    watches := Table.update (fun v => v.surfaceId = w.surfaceId) (fun _ => w)
      r.watches }

/-- A number for the next watch. -/
def issue (r : Registry) : Registry :=
  { r with nextGeneration := r.nextGeneration + 1 }

/-- `push_event`, with the event as it is recorded. -/
def pushEvent (r : Registry) (surfaceId : UInt32) (sessionId : String)
    (event : StreamEvent) (now : Nat) : Registry × BufferedEvent :=
  let numbered := r.number surfaceId sessionId event now
  ({ r with toStreamRegistry := numbered.1.buffer numbered.2 }, numbered.2)

/-- `remove`. -/
def remove (r : Registry) (surfaceId : UInt32) (reason : String)
    (now : Nat) : Called :=
  match r.watch surfaceId with
  | none => ⟨r, [], false⟩
  | some w =>
    let watches := Table.delete (fun v => v.surfaceId = surfaceId) r.watches
    let pushed := { r with watches }.pushEvent surfaceId w.sessionId
      (turnEnd reason) now
    ⟨{ pushed.1 with dirty := true }, [pushed.2], true⟩

/-- `insert`, which takes an earlier watch out as `remove` does. -/
def insert (r : Registry) (w : Watch) (now : Nat) : Called :=
  let removed := r.issue.remove w.surfaceId REASON_REWATCHED now
  let watches := removed.registry.watches
    ++ [{ w with generation := r.nextGeneration + 1 }]
  { removed with
    registry :=
      { removed.registry with
        watches := watches.insertionSort fun v w => v.surfaceId ≤ w.surfaceId
        dirty := true } }

/-- `check_out`. -/
def checkOut (r : Registry) (surfaceId : UInt32) :
    Option (TailCheckout × Registry) := do
  let w ← r.watch surfaceId
  let taken ← w.toWatch.checkOut
  some (⟨taken.1, surfaceId, w.sessionId, w.transcript⟩,
    r.setWatch { w with toWatch := taken.2 })

/-- `check_in`. -/
def checkIn (r : Registry) (c : TailCheckout) : Bool × Registry :=
  match r.watch c.surfaceId with
  | none => (false, r)
  | some w =>
    let put := w.toWatch.checkIn c.toTailCheckout
    (put.1, if put.1 then r.setWatch { w with toWatch := put.2 } else r)

/-- `set_transcript`. -/
def setTranscript (r : Registry) (surfaceId : UInt32)
    (expectSession : String) (transcript : Path) (probe : Probe) : Called :=
  match r.watch surfaceId with
  | none => ⟨r.issue, [], false⟩
  | some w =>
    if w.sessionId ≠ expectSession ∨ w.transcript = transcript then
      ⟨r.issue, [], false⟩
    else
      let w := w.retarget transcript probe (r.nextGeneration + 1)
      ⟨{ r.issue.setWatch w with dirty := true }, [], true⟩

/-- `switch_session`; its answer says whether there was a watch. -/
def switchSession (r : Registry) (surfaceId : UInt32) (sessionId : String)
    (transcript : Path) (probe : Probe) (now : Nat) : Called :=
  match r.watch surfaceId with
  | none => ⟨r.issue, [], false⟩
  | some w =>
    let next := w.retarget transcript probe (r.nextGeneration + 1)
    let pushed := (r.issue.setWatch { next with sessionId }).pushEvent
      surfaceId w.sessionId (turnEnd REASON_SESSION_ENDED) now
    ⟨{ pushed.1 with dirty := true }, [pushed.2], true⟩

/-- `start_turn`. -/
def startTurn (r : Registry) (surfaceId : UInt32) (requestId : String)
    (timeout now : Nat) : Except TurnError Registry :=
  if (r.watch surfaceId).isNone then .error .notWatched
  else match r.turns[surfaceId]? with
    | some existing => .error (.alreadyOpen existing.requestId)
    | none => .ok { r with
        toStreamRegistry :=
          r.toStreamRegistry.startTurn surfaceId requestId timeout now }

/-- The surfaces whose turn was inactive for too long. -/
def stale (r : Registry) (now : Nat) : List UInt32 :=
  (r.turns.toList.filter fun t => t.2.timeout ≤ now - t.2.lastActivity).map
    Prod.fst

/-- The loop of `sweep_stale_turns`. -/
def closeTurns (r : Registry) (now : Nat) :
    List UInt32 → Registry × List BufferedEvent
  | [] => (r, [])
  | id :: ids =>
    let sessionId := ((r.watch id).map Watch.sessionId).getD ""
    let pushed := r.pushEvent id sessionId (turnEnd REASON_TURN_TIMEOUT) now
    let rest := pushed.1.closeTurns now ids
    (rest.1, pushed.2 :: rest.2)

/-- `sweep_stale_turns`, in any `order` that the hash map gives its turns;
`later` is the time of the events. -/
def sweepStaleTurns (r : Registry) (now : Nat) (order : List UInt32)
    (later : Nat) : Registry × List BufferedEvent :=
  r.closeTurns later
    (if order.Perm (r.stale now) then order else r.stale now)

end Registry

-- ==== the run

/-- The registry and the tails in the hands of pumps. -/
structure World where
  registry : Registry
  out : List TailCheckout

inductive Call where
  | insert (surfaceId : UInt32) (sessionId : String) (transcript : Path)
      (fromStart : Bool) (probe : Probe) (now : Nat)
  | remove (surfaceId : UInt32) (reason : String) (now : Nat)
  | switchSession (surfaceId : UInt32) (sessionId : String)
      (transcript : Path) (probe : Probe) (now : Nat)
  | setTranscript (surfaceId : UInt32) (expectSession : String)
      (transcript : Path) (probe : Probe)
  | checkOut (surfaceId : UInt32)
  /-- the tail of a checkout comes back as the pump left it -/
  | checkIn (i : Nat) (tail : TailState)
  | pushEvent (surfaceId : UInt32) (sessionId : String)
      (event : StreamEvent) (now : Nat)
  | startTurn (surfaceId : UInt32) (requestId : String) (timeout now : Nat)
  | sweepStaleTurns (now : Nat) (order : List UInt32) (later : Nat)

namespace World

def start (persistent : Bool) : World := ⟨.new persistent, []⟩

/-- One call, and the events it records. -/
def step (s : World) : Call → World × List BufferedEvent
  | .insert surfaceId sessionId transcript fromStart probe now =>
    let w := newWatch surfaceId sessionId transcript fromStart probe
    let c := s.registry.insert w now
    (⟨c.registry, s.out⟩, c.events)
  | .remove surfaceId reason now =>
    let c := s.registry.remove surfaceId reason now
    (⟨c.registry, s.out⟩, c.events)
  | .switchSession surfaceId sessionId transcript probe now =>
    let c := s.registry.switchSession surfaceId sessionId transcript probe now
    (⟨c.registry, s.out⟩, c.events)
  | .setTranscript surfaceId expectSession transcript probe =>
    let c := s.registry.setTranscript surfaceId expectSession transcript probe
    (⟨c.registry, s.out⟩, c.events)
  | .checkOut surfaceId =>
    match s.registry.checkOut surfaceId with
    | none => (s, [])
    | some (c, registry) => (⟨registry, s.out ++ [c]⟩, [])
  | .checkIn i tail =>
    match s.out[i]? with
    | none => (s, [])
    | some c =>
      let c := { c with tail }
      (⟨(s.registry.checkIn c).2, s.out.eraseIdx i⟩, [])
  | .pushEvent surfaceId sessionId event now =>
    let pushed := s.registry.pushEvent surfaceId sessionId event now
    (⟨pushed.1, s.out⟩, [pushed.2])
  | .startTurn surfaceId requestId timeout now =>
    match s.registry.startTurn surfaceId requestId timeout now with
    | .error _ => (s, [])
    | .ok registry => (⟨registry, s.out⟩, [])
  | .sweepStaleTurns now order later =>
    let swept := s.registry.sweepStaleTurns now order later
    (⟨swept.1, s.out⟩, swept.2)

def run (s : World) (calls : List Call) : World :=
  calls.foldl (fun s c => (s.step c).1) s

end World

end Tasty.AgentStream.Turns
