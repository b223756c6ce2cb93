/-
Leases (`crates/tasty-agent/src/lease.rs`): who holds which resource until
when, one at a time or any of a pool that may grow.

The memory of one workspace is a map of keys; a lease and the counter of a
pool are its values, as JSON that is not spelled out. Any read or write may
fail: then it changes nothing, and what was written before stays. Times are
in milliseconds.
-/
import Tasty.Agent.Mapping
import Tasty.Lib.BTreeMap
import Tasty.Lib.Disk
import Tasty.Lib.Codes

namespace Tasty.Agent

-- ==== keys

def LEASE_KEY_PREFIX : String := "tasty.agent.lease."

def LEASE_POOL_COUNTER_KEY_PREFIX : String :=
  "tasty.agent.lease_pool_counter."

def POOL_KEY_SEPARATOR : String := "_-"

/-- A hexadecimal digit, in lower case. -/
def hexDigit (n : Nat) : Char :=
  if n < 10 then Char.ofNat (48 + n) else Char.ofNat (87 + n)

/-- A byte of a name in a key. -/
def encodeKeyByte (c : Char) : List Char :=
  if c = '_' then ['_', '_']
  else if c.isLower || c.isDigit || c = '.' || c = '-' then [c]
  else ['_', hexDigit (c.toNat / 16), hexDigit (c.toNat % 16)]

def encodeKeyComponent (s : String) : String :=
  String.ofList ((byteChars s).flatMap encodeKeyByte)

def leaseKey (resource : String) : String :=
  LEASE_KEY_PREFIX ++ encodeKeyComponent resource

def poolCounterKey (candidates : List String) : String :=
  LEASE_POOL_COUNTER_KEY_PREFIX
    ++ POOL_KEY_SEPARATOR.intercalate (candidates.map encodeKeyComponent)

-- ==== the records

inductive LeaseMode where
  | fail
  | block
  deriving DecidableEq

structure Lease where
  workspaceId : UInt32
  resource : String
  holder : String
  acquiredAt : Nat
  expiresAt : Option Nat
  deriving DecidableEq

def Lease.isExpired (l : Lease) (now : Nat) : Bool :=
  match l.expiresAt with
  | some t => t ≤ now
  | none => false

structure AcquireOutcome where
  acquired : Bool
  lease : Lease

structure ElasticSpec where
  maxCandidates : Option UInt32
  overflowPrefix : Option String

structure AcquireAnyOutcome where
  acquired : Bool
  resource : Option String
  lease : Option Lease
  synthesized : Bool

structure ReleaseOutcome where
  released : Bool
  lease : Option Lease

inductive MemoryValue where
  | lease (l : Lease)
  | counter (n : Nat)

abbrev Memory := BTreeMap String MemoryValue

/-- What a lease operation fails with. -/
inductive LeaseError where
  | invalidArgument (message : String)
  | leaseConflict (resource holder : String)
  | leasePoolExhausted (candidates : List String) (holder : String)
  | invalidKey (text : String)
  /-- The value of a lease key is not a lease. -/
  | serde
  /-- The memory store could not read or write. -/
  | memory

abbrev LeaseProg := Prog Memory Unit LeaseError

/-- `u64::saturating_add`. -/
def saturatingAdd64 (a b : Nat) : Nat := min (a + b) 18446744073709551615

/-- `u32::saturating_add` of one. -/
def saturatingSucc32 (n : Nat) : Nat := min (n + 1) 4294967295

-- ==== the store

namespace LeaseStore

variable [DebugText]

def checkKey (key : String) : Except LeaseError Unit :=
  (validateKey key).mapError .invalidKey

/-- `MemoryStorage::get`. -/
def memGet (key : String) : LeaseProg (Option MemoryValue) := do
  Prog.lift (checkKey key)
  Prog.beside .memory
  let mem ← Prog.read
  pure mem[key]?

/-- `MemoryStorage::put`. -/
def memPut (key : String) (value : MemoryValue) : LeaseProg Unit := do
  Prog.lift (checkKey key)
  Prog.commit .memory fun mem => mem.insert key value

/-- `MemoryStorage::delete`, of a key that is there. -/
def memDelete (key : String) : LeaseProg Unit := do
  Prog.lift (checkKey key)
  Prog.commit .memory fun mem => mem.erase key

def put (lease : Lease) : LeaseProg Unit :=
  memPut (leaseKey lease.resource) (.lease lease)

def get (resource : String) : LeaseProg (Option Lease) := do
  match ← memGet (leaseKey resource) with
  | some (.lease l) => pure (some l)
  | some (.counter _) => throw .serde
  | none => pure none

/-- The lease that `acquire` writes. -/
def newLease (ws : UInt32) (resource holder : String) (ttl : Option Nat)
    (now : Nat) : Lease :=
  ⟨ws, resource, holder, now, ttl.map (saturatingAdd64 now)⟩

/-- The end of `acquire`: the lease is the holder's. -/
def grant (lease : Lease) : LeaseProg AcquireOutcome := do
  put lease
  pure ⟨true, lease⟩

def acquire (ws : UInt32) (resource holder : String) (ttl : Option Nat)
    (mode : LeaseMode) (now : Nat) : LeaseProg AcquireOutcome := do
  if resource = "" then
    throw (.invalidArgument "lease.resource must be non-empty")
  if holder = "" then
    throw (.invalidArgument "lease.holder must be non-empty")
  match ← get resource with
  | some cur =>
    if cur.holder = holder then
      grant (newLease ws resource holder ttl now)
    else if !cur.isExpired now then
      match mode with
      | .fail => throw (.leaseConflict resource cur.holder)
      | .block => pure ⟨false, cur⟩
    else grant (newLease ws resource holder ttl now)
  | none => grant (newLease ws resource holder ttl now)

def getPoolCounter (candidates : List String) : LeaseProg Nat := do
  match ← memGet (poolCounterKey candidates) with
  | some (.counter n) => pure n
  | some (.lease _) => pure 0
  | none => pure 0

def bumpPoolCounter (candidates : List String) : LeaseProg Nat := do
  let next := saturatingSucc32 (← getPoolCounter candidates)
  memPut (poolCounterKey candidates) (.counter next)
  pure next

/-- A pool: the candidates and how it grows. -/
structure Pool where
  workspaceId : UInt32
  candidates : List String
  elastic : Option ElasticSpec

namespace Pool

def overflowPrefix (p : Pool) : String :=
  match p.elastic.bind ElasticSpec.overflowPrefix with
  | some s => s
  | none => p.candidates.getLastD "" ++ "-overflow-"

/-- The name of the `n`th candidate that was made up. -/
def overflowName (p : Pool) (n : Nat) : String :=
  p.overflowPrefix ++ toString n

/-- `scan_list`, when so many names were made up. -/
def names (p : Pool) (made : Nat) : List String :=
  p.candidates ++ (List.range' 1 made).map p.overflowName

/-- `cap_ok`: room for one more than so many names. -/
def capOk (spec : ElasticSpec) (length : Nat) : Bool :=
  match spec.maxCandidates with
  | some max => length % 4294967296 < max.toNat
  | none => true

end Pool

/-- The first loop of `acquire_any`: what the holder has already. -/
def reacquire (ws : UInt32) (holder : String) (ttl : Option Nat)
    (now : Nat) : List String → LeaseProg (Option AcquireAnyOutcome)
  | [] => pure none
  | r :: rest => do
    match ← get r with
    | some cur =>
      if cur.holder = holder ∧ !cur.isExpired now then
        let outcome ← acquire ws r holder ttl .block now
        pure (some ⟨true, some r, some outcome.lease, false⟩)
      else reacquire ws holder ttl now rest
    | none => reacquire ws holder ttl now rest

/-- The second loop of `acquire_any`: the first that is free. -/
def acquireFree (ws : UInt32) (holder : String) (ttl : Option Nat)
    (now : Nat) : List String → LeaseProg (Option AcquireAnyOutcome)
  | [] => pure none
  | r :: rest => do
    let outcome ← acquire ws r holder ttl .block now
    if outcome.acquired then
      pure (some ⟨true, some r, some outcome.lease, false⟩)
    else acquireFree ws holder ttl now rest

/-- The growth of a pool in `acquire_any`. -/
def acquireNew (p : Pool) (spec : ElasticSpec) (scanned : Nat)
    (holder : String) (ttl : Option Nat) (now : Nat) :
    LeaseProg (Option AcquireAnyOutcome) := do
  if Pool.capOk spec scanned then
    let made ← bumpPoolCounter p.candidates
    let resource := p.overflowName made
    let outcome ← acquire p.workspaceId resource holder ttl .block now
    if outcome.acquired then
      pure (some ⟨true, some resource, some outcome.lease, true⟩)
    else pure none
  else pure none

/-- The end of `acquire_any`: nothing is free. -/
def exhausted (scanList : List String) (holder : String)
    (mode : LeaseMode) : LeaseProg AcquireAnyOutcome :=
  match mode with
  | .fail => throw (.leasePoolExhausted scanList holder)
  | .block => do
    let lease ← get (scanList.headD "")
    pure ⟨false, none, lease, false⟩

/-- `acquire_any`, once the names to scan are known. -/
def acquireAmong (p : Pool) (scanList : List String) (holder : String)
    (ttl : Option Nat) (mode : LeaseMode) (now : Nat) :
    LeaseProg AcquireAnyOutcome := do
  match ← reacquire p.workspaceId holder ttl now scanList with
  | some outcome => pure outcome
  | none =>
    match ← acquireFree p.workspaceId holder ttl now scanList with
    | some outcome => pure outcome
    | none =>
      match p.elastic with
      | some spec =>
        match ← acquireNew p spec scanList.length holder ttl now with
        | some outcome => pure outcome
        | none => exhausted scanList holder mode
      | none => exhausted scanList holder mode

def acquireAny (p : Pool) (holder : String) (ttl : Option Nat)
    (mode : LeaseMode) (now : Nat) : LeaseProg AcquireAnyOutcome := do
  if p.candidates = [] then
    throw (.invalidArgument "lease.candidates must be non-empty")
  if holder = "" then
    throw (.invalidArgument "lease.holder must be non-empty")
  if p.elastic.isSome then
    let made ← getPoolCounter p.candidates
    acquireAmong p (p.names made) holder ttl mode now
  else acquireAmong p p.candidates holder ttl mode now

def release (resource holder : String) : LeaseProg ReleaseOutcome := do
  match ← get resource with
  | none => pure ⟨false, none⟩
  | some cur =>
    if cur.holder ≠ holder then pure ⟨false, some cur⟩
    else do
      memDelete (leaseKey resource)
      pure ⟨true, some cur⟩

end LeaseStore

end Tasty.Agent
