/-
The store of idempotency keys
(`src/adapters/ipc/handler/idempotency.rs`): a request with a key that was
seen is not executed again, and a retry of one that is still running waits
for its result. The entries are lost by age and for room, also while their
execution runs on.
-/
import Mathlib.Algebra.BigOperators.Group.List.Basic
import Mathlib.Algebra.GroupWithZero.Nat

namespace Tasty.Ipc

-- ==== the limits

/-- In milliseconds. -/
def retention : Nat := 600000

def capacity : Nat := 256

def maxStoredResponseBytes : Nat := 64 * 1024

def totalBudgetBytes : Nat := 4 * 1024 * 1024

/-- `digest`: of the method and the parameters of a request. -/
class RequestDigest (Params : Type) where
  digest : String → Params → UInt64

/-- The length of a response as it is sent; one that cannot be serialised
counts as empty. -/
class ResponseSize (Response : Type) where
  size : Response → Nat

-- ==== the entries

inductive Stored (Response Waiter : Type) where
  | response (r : Response)
  /-- It was executed, but its response was too large to be kept. -/
  | discarded
  | inFlight (ticket : Nat) (waiters : List Waiter)

structure Entry (Response Waiter : Type) where
  scope : String
  key : String
  digest : UInt64
  storedAt : Nat
  outcome : Stored Response Waiter
  bytes : Nat

inductive Decision (Response : Type) where
  | execute (digest : UInt64)
  | replay (r : Response)
  | conflict
  | discarded
  | inFlight

/-- The decisions so far, of each kind. -/
structure RetryCounts where
  executed : Nat
  replayed : Nat
  conflicted : Nat
  discarded : Nat
  inFlight : Nat

/-- `saturating_add` of one. -/
def increment (n : Nat) : Nat := min (n + 1) (2 ^ 64 - 1)

/-- `RetryCounts::note`. -/
def RetryCounts.note {Response : Type} (c : RetryCounts) :
    Decision Response → RetryCounts
  | .execute _ => { c with executed := increment c.executed }
  | .replay _ => { c with replayed := increment c.replayed }
  | .conflict => { c with conflicted := increment c.conflicted }
  | .discarded => { c with discarded := increment c.discarded }
  | .inFlight => { c with inFlight := increment c.inFlight }

/-- The entries in the order in which they were stored. -/
structure Store (Response Waiter : Type) where
  entries : List (Entry Response Waiter)
  totalBytes : Nat
  nextTicket : Nat
  counts : RetryCounts

/-- The retries that wait for a result, and whether it was kept. -/
structure Handoff (Waiter : Type) where
  waiters : List Waiter
  kept : Bool

section Store

variable {Params Response Waiter : Type}

def Stored.isInFlight : Stored Response Waiter → Bool
  | inFlight _ _ => true
  | _ => false

/-- The entry is of this key of this caller. -/
def Entry.isOf (scope key : String) (e : Entry Response Waiter) : Bool :=
  e.scope = scope && e.key = key

/-- It is in flight, with this ticket. -/
def Entry.runs (ticket : Nat) (e : Entry Response Waiter) : Bool :=
  match e.outcome with
  | .inFlight t _ => t = ticket
  | _ => false

/-- Another retry waits for its result. -/
def Entry.joinedBy (w : Waiter) (e : Entry Response Waiter) :
    Entry Response Waiter :=
  match e.outcome with
  | .inFlight t ws => { e with outcome := .inFlight t (ws ++ [w]) }
  | _ => e

namespace Store

def empty : Store Response Waiter :=
  ⟨[], 0, 0, ⟨0, 0, 0, 0, 0⟩⟩

def find (s : Store Response Waiter) (scope key : String) :
    Option (Entry Response Waiter) :=
  s.entries.find? (Entry.isOf scope key)

/-- The first entry that `p` holds of is removed, with its bytes. -/
def removeFirst (s : Store Response Waiter)
    (p : Entry Response Waiter → Bool) : Store Response Waiter :=
  match s.entries.find? p with
  | none => s
  | some e =>
    { s with
      entries := s.entries.eraseP p, totalBytes := s.totalBytes - e.bytes }

/-- `remove`. -/
def remove (s : Store Response Waiter) (scope key : String) :
    Store Response Waiter :=
  s.removeFirst (Entry.isOf scope key)

/-- Remove from the front as long as `p` holds of the store. -/
def popWhile (p : Store Response Waiter → Entry Response Waiter → Bool) :
    List (Entry Response Waiter) → Store Response Waiter →
      Store Response Waiter
  | [], s => { s with entries := [] }
  | e :: rest, s =>
    if p { s with entries := e :: rest } e then
      popWhile p rest { s with totalBytes := s.totalBytes - e.bytes }
    else { s with entries := e :: rest }

/-- `purge_expired`. -/
def purgeExpired (s : Store Response Waiter) (now : Nat) :
    Store Response Waiter :=
  popWhile (fun _ e => retention ≤ now - e.storedAt) s.entries s

/-- `enforce_bounds`. -/
def enforceBounds (s : Store Response Waiter) : Store Response Waiter :=
  popWhile (fun s _ => capacity < s.entries.length
    || totalBudgetBytes < s.totalBytes) s.entries s

/-- What is known of a key decides what is done with a request. -/
def judge (s : Store Response Waiter) (scope key : String)
    (digest : UInt64) : Decision Response :=
  match s.find scope key with
  | none => .execute digest
  | some e =>
    if e.digest ≠ digest then .conflict
    else
      match e.outcome with
      | .response r => .replay r
      | .discarded => .discarded
      | .inFlight _ _ => .inFlight

/-- `decide`. -/
def decide [RequestDigest Params] (s : Store Response Waiter)
    (now : Nat) (scope key method : String) (params : Params) :
    Decision Response × Store Response Waiter :=
  let s := s.purgeExpired now
  let decision := s.judge scope key (RequestDigest.digest method params)
  (decision, { s with counts := s.counts.note decision })

/-- `open`: the ticket of an execution that begins. -/
def «open» (s : Store Response Waiter) (now : Nat) (scope key : String)
    (digest : UInt64) : Nat × Store Response Waiter :=
  let ticket := (s.nextTicket + 1) % 2 ^ 64
  let s := { s with nextTicket := ticket }.remove scope key
  let e : Entry Response Waiter :=
    { scope, key, digest, storedAt := now
      outcome := .inFlight ticket [], bytes := 0 }
  (ticket, { s with entries := s.entries ++ [e] }.enforceBounds)

/-- The first entry that `p` holds of is changed. -/
def modifyFirst (p : Entry Response Waiter → Bool)
    (f : Entry Response Waiter → Entry Response Waiter) :
    List (Entry Response Waiter) → List (Entry Response Waiter)
  | [] => []
  | e :: rest => if p e then f e :: rest else e :: modifyFirst p f rest

/-- `join`: the ticket of the execution that is waited for, if there is
one. -/
def join (s : Store Response Waiter) (scope key : String) (w : Waiter) :
    Option Nat × Store Response Waiter :=
  match s.find scope key with
  | some e =>
    match e.outcome with
    | .inFlight t _ =>
      (some t, { s with
        entries := modifyFirst (Entry.isOf scope key)
          (Entry.joinedBy w) s.entries })
    | _ => (none, s)
  | none => (none, s)

/-- `abandon`: only the execution of the ticket. -/
def abandon (s : Store Response Waiter) (scope key : String)
    (ticket : Nat) : Store Response Waiter :=
  s.removeFirst fun e => e.isOf scope key && e.runs ticket

/-- `abandon_unhandled`. -/
def abandonUnhandled (s : Store Response Waiter) (scope key : String)
    (ticket : Nat) : Store Response Waiter :=
  let s := s.abandon scope key ticket
  { s with counts := { s.counts with executed := s.counts.executed - 1 } }

/-- The waiters of an execution that reports, unless another one is in
flight under its key. -/
def takeWaiters (s : Store Response Waiter) (scope key : String)
    (ticket : Option Nat) : Option (List Waiter) :=
  match ticket, s.find scope key with
  | some mine, some e =>
    match e.outcome with
    | .inFlight t ws => if t = mine then some ws else none
    | _ => some []
  | _, _ => some []

/-- The entry of a result; a large response is not kept. -/
def settled [ResponseSize Response] (now : Nat) (scope key : String)
    (digest : UInt64) (r : Response) : Entry Response Waiter :=
  let size := ResponseSize.size r
  if maxStoredResponseBytes < size then
    { scope, key, digest, storedAt := now, outcome := .discarded
      bytes := 0 }
  else
    { scope, key, digest, storedAt := now, outcome := .response r
      bytes := size }

/-- `settle`: the result of an execution, with the ticket that `open` gave
it, or of one that was not opened. -/
def settle [ResponseSize Response] (s : Store Response Waiter) (now : Nat)
    (scope key : String) (digest : UInt64) (ticket : Option Nat)
    (r : Response) : Handoff Waiter × Store Response Waiter :=
  match s.takeWaiters scope key ticket with
  | none => (⟨[], false⟩, s)
  | some waiters =>
    let s := s.remove scope key
    let e := settled now scope key digest r
    let kept :=
      match e.outcome with
      | .response _ => true
      | _ => false
    (⟨waiters, kept⟩,
      { s with
        entries := s.entries ++ [e]
        totalBytes := s.totalBytes + e.bytes }.enforceBounds)

end Store

end Store

-- ==== runs

/-- The calls of the store. -/
inductive Call (Params Response Waiter : Type) where
  | decide (now : Nat) (scope key method : String) (params : Params)
  | open (now : Nat) (scope key : String) (digest : UInt64)
  | join (scope key : String) (w : Waiter)
  | settle (now : Nat) (scope key : String) (digest : UInt64)
      (ticket : Option Nat) (r : Response)
  | abandon (scope key : String) (ticket : Nat)
  | abandonUnhandled (scope key : String) (ticket : Nat)

/-- An execution that was opened. -/
structure Execution where
  ticket : Nat
  scope : String
  key : String
  digest : UInt64
deriving DecidableEq

/-- The latest execution of a key, with the results that it has reported.
One without a ticket is there from its result on. -/
structure Latest (Response : Type) where
  ticket : Option Nat
  digest : UInt64
  results : List Response

/-- The store and what has happened to it: the executions that were opened,
the latest of each key, which retries joined which execution, and which were
answered by which. -/
structure World (Response Waiter : Type) where
  store : Store Response Waiter
  opened : List Execution
  latest : String → String → Option (Latest Response)
  joined : List (Nat × Waiter)
  answered : List (Option Nat × Waiter × Response)

section Runs

variable {Params Response Waiter : Type} [RequestDigest Params]
  [ResponseSize Response]

namespace World

def initial : World Response Waiter :=
  ⟨.empty, [], fun _ _ => none, [], []⟩

def setLatest (w : World Response Waiter) (scope key : String)
    (l : Latest Response) : World Response Waiter :=
  { w with
    latest := fun sc k =>
      if sc = scope ∧ k = key then some l else w.latest sc k }

def latestTicket (w : World Response Waiter) (scope key : String) :
    Option Nat :=
  (w.latest scope key).bind Latest.ticket

/-- A result is noted for its execution, if it is the latest of its key. -/
def report (w : World Response Waiter) (scope key : String)
    (digest : UInt64) (ticket : Option Nat) (r : Response) :
    World Response Waiter :=
  match ticket, w.latest scope key with
  | none, _ => w.setLatest scope key ⟨none, digest, [r]⟩
  | some t, some l =>
    if l.ticket = some t then
      w.setLatest scope key { l with results := l.results ++ [r] }
    else w
  | some _, none => w

def call (w : World Response Waiter) :
    Call Params Response Waiter → World Response Waiter
  | .decide now scope key method params =>
    { w with store := (w.store.decide now scope key method params).2 }
  | .open now scope key digest =>
    let r := w.store.open now scope key digest
    let w : World Response Waiter :=
      { w with
        store := r.2
        opened := w.opened ++ [⟨r.1, scope, key, digest⟩] }
    w.setLatest scope key ⟨some r.1, digest, []⟩
  | .join scope key waiter =>
    let r := w.store.join scope key waiter
    { w with
      store := r.2
      joined := w.joined ++ (r.1.map fun t => (t, waiter)).toList }
  | .settle now scope key digest ticket r =>
    let s := w.store.settle now scope key digest ticket r
    let w : World Response Waiter :=
      { w with
        store := s.2
        answered := w.answered
          ++ s.1.waiters.map fun waiter => (ticket, waiter, r) }
    w.report scope key digest ticket r
  | .abandon scope key ticket =>
    { w with store := w.store.abandon scope key ticket }
  | .abandonUnhandled scope key ticket =>
    { w with store := w.store.abandonUnhandled scope key ticket }

end World

/-- A ticket is used for the execution that it was given to. -/
def Call.WellFormed (w : World Response Waiter) :
    Call Params Response Waiter → Prop
  | .settle _ scope key digest (some t) _ =>
    Execution.mk t scope key digest ∈ w.opened
  | .abandon scope key t | .abandonUnhandled scope key t =>
    ∃ digest, Execution.mk t scope key digest ∈ w.opened
  | _ => True

/-- A run of calls that `C` allows. -/
inductive World.Reachable
    (C : World Response Waiter → Call Params Response Waiter → Prop) :
    World Response Waiter → Prop
  | initial : Reachable C .initial
  | call {w : World Response Waiter} (c : Call Params Response Waiter) :
      Reachable C w → c.WellFormed w → C w c → Reachable C (w.call c)

end Runs

end Tasty.Ipc
