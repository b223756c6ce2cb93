/-
Sessions of agents (`session.rs`): a secret token names a record in the
memory of the host, and the record says what its holder may do. Records and
grants that have run out stay until a call comes across them.
-/
import Tasty.Manifest.Permission
import Tasty.Memory.Plan

namespace Tasty.Ipc

open Agent (Value)
open Manifest (Permission)
open Memory

-- ==== the tokens

def lowerHexDigits : List Char := "0123456789abcdef".toList

/-- `is_ascii_hexdigit`. -/
def isAsciiHexdigit (c : Char) : Bool :=
  lowerHexDigits.contains c || "ABCDEF".toList.contains c

/-- A text of 64 lower-case hexadecimal digits. -/
structure SessionToken where
  text : String
  length : text.toList.length = 64
  digits : ∀ c ∈ text.toList, c ∈ lowerHexDigits

instance : DecidableEq SessionToken := fun a b =>
  decidable_of_iff (a.text = b.text) <| by
    cases a
    cases b
    simp

theorem toLower_mem_lowerHexDigits {c : Char} (h : isAsciiHexdigit c = true) :
    c.toLower ∈ lowerHexDigits := by
  have hall : (lowerHexDigits ++ "ABCDEF".toList).all (fun c =>
      lowerHexDigits.contains c.toLower) = true := by decide +kernel
  refine List.contains_iff_mem.1
    (List.all_eq_true.1 hall c (List.mem_append.2 ?_))
  unfold isAsciiHexdigit at h
  rw [Bool.or_eq_true, List.contains_iff_mem, List.contains_iff_mem] at h
  exact h

/-- `from_str`; where every byte is a digit, bytes are characters. -/
def SessionToken.parse (s : String) : Option SessionToken :=
  if h : s.toList.length = 64 ∧ s.toList.all isAsciiHexdigit = true then
    some
      { text := String.ofList (s.toList.map Char.toLower)
        length := by rw [String.toList_ofList, List.length_map, h.1]
        digits := fun c hc => by
          rw [String.toList_ofList] at hc
          obtain ⟨d, hd, rfl⟩ := List.mem_map.1 hc
          exact toLower_mem_lowerHexDigits (List.all_eq_true.1 h.2 d hd) }
  else none

def SESSION_KEY_PREFIX : String := "tasty.session."

def sessionKey (token : SessionToken) : String :=
  SESSION_KEY_PREFIX ++ token.text

/-- The token that a key is read as. -/
def tokenOfKey (key : String) : Option SessionToken :=
  SessionToken.parse ((stripPrefix SESSION_KEY_PREFIX key).getD key)

-- ==== the records

structure TempGrant where
  permission : String
  expiresAtMs : Option UInt64
  deriving DecidableEq

structure AgentSession where
  agentId : String
  parent : Option String
  permissions : List String
  tempGrants : List TempGrant
  createdAtMs : UInt64
  expiresAtMs : Option UInt64
  revoked : Bool
  deriving DecidableEq

/-- `matches!(expires_at_ms, Some(exp) if now_ms >= exp)`. -/
def isOver (expiresAtMs : Option UInt64) (nowMs : UInt64) : Bool :=
  match expiresAtMs with
  | some exp => exp ≤ nowMs
  | none => false

def TempGrant.isExpired (g : TempGrant) (nowMs : UInt64) : Bool :=
  isOver g.expiresAtMs nowMs

namespace AgentSession

/-- The permissions that the tokens of a session name, as a list; the
source collects them into a set. -/
def permissionSet (s : AgentSession) : List Permission :=
  (s.permissions ++ s.tempGrants.map TempGrant.permission).filterMap
    Permission.fromToken

def isExpired (s : AgentSession) (nowMs : UInt64) : Bool :=
  isOver s.expiresAtMs nowMs

/-- The session without the grants that are over, and whether some were. -/
def evictExpiredGrants (s : AgentSession) (nowMs : UInt64) :
    AgentSession × Bool :=
  let kept := s.tempGrants.filter fun g => !g.isExpired nowMs
  ({ s with tempGrants := kept }, s.tempGrants.length != kept.length)

end AgentSession

-- ==== its JSON

def ofU64 (n : UInt64) : Value := .number (.posInt n)

def readU64 : Value → Option UInt64
  | .number (.posInt n) => some n
  | _ => none

def ofOption {α : Type} (write : α → Value) : Option α → Value
  | some a => write a
  | none => .null

def readBool : Value → Option Bool
  | .bool b => some b
  | _ => none

/-- A field that may be absent from an object, but not from an array. -/
def readOptional {α : Type} (record : Value) (read : Value → Option α) :
    Option Value → Option (Option α)
  | some v => readOption read v
  | none =>
    match record with
    | .object _ => some none
    | _ => none

def TempGrant.toValue (g : TempGrant) : Value :=
  .object [("expires_at_ms", ofOption ofU64 g.expiresAtMs),
    ("permission", .string g.permission)]

def TempGrant.read (v : Value) : Option TempGrant := do
  let field ← fieldsOf ["permission", "expires_at_ms"] v
  let permission ← (field "permission").bind readString
  let expiresAtMs ← readOptional v readU64 (field "expires_at_ms")
  some { permission, expiresAtMs }

def readGrants : Value → Option (List TempGrant)
  | .array items => items.mapM TempGrant.read
  | _ => none

/-- `serde_json::to_value(session)`. -/
def AgentSession.toValue (s : AgentSession) : Value :=
  .object [("agent_id", .string s.agentId),
    ("created_at_ms", ofU64 s.createdAtMs),
    ("expires_at_ms", ofOption ofU64 s.expiresAtMs),
    ("parent", ofOption .string s.parent),
    ("permissions", .array (s.permissions.map .string)),
    ("revoked", .bool s.revoked),
    ("temp_grants", .array (s.tempGrants.map TempGrant.toValue))]

/-- `serde_json::from_value::<AgentSession>`. -/
def AgentSession.read (v : Value) : Option AgentSession := do
  let field ← fieldsOf ["agent_id", "parent", "permissions", "temp_grants",
    "created_at_ms", "expires_at_ms", "revoked"] v
  let agentId ← (field "agent_id").bind readString
  let parent ← readOptional v readString (field "parent")
  let permissions ← (field "permissions").bind readStrings
  let tempGrants ← readOr [] readGrants (field "temp_grants")
  let createdAtMs ← (field "created_at_ms").bind readU64
  let expiresAtMs ← readOptional v readU64 (field "expires_at_ms")
  let revoked ← readOr false readBool (field "revoked")
  some ⟨agentId, parent, permissions, tempGrants, createdAtMs, expiresAtMs,
    revoked⟩

/-- The library that turns sessions to text: the text of values, and what
it says of a value that is no session. -/
structure SessionText extends ValueText where
  sessionError : Value → String

inductive SessionError where
  | invalidArgument (text : String)
  | memory (e : MemoryError)
  | serde (text : String)
  deriving DecidableEq

-- ==== the store

/-- What a call meets: the time that it is given, and what its accesses to
the memory meet one after another. -/
structure SessionEnv where
  nowMs : UInt64
  access : Nat → Env

/-- `u64::saturating_add`. -/
def saturatingAdd (a b : UInt64) : UInt64 :=
  if a.toNat + b.toNat < 2 ^ 64 then a + b else 18446744073709551615

/-- `ttl_ms.map(|t| now_ms.saturating_add(t))`. -/
def expiryOf (ttlMs : Option UInt64) (nowMs : UInt64) : Option UInt64 :=
  ttlMs.map (saturatingAdd nowMs)

namespace SessionStore

variable (layer : SessionText) (env : SessionEnv) (mem : MemoryStore)
  (owner : String)

def put (access : Env) (token : SessionToken) (session : AgentSession) :
    MemoryStore × Except SessionError Unit :=
  match mem.put layer.toValueText access owner .global (sessionKey token)
      (.json session.toValue) .default with
  | (mem, .ok _) => (mem, .ok ())
  | (mem, .error e) => (mem, .error (.memory e))

def delete (access : Env) (key : String) :
    MemoryStore × Except SessionError Unit :=
  match mem.delete access owner .global key none with
  | (mem, .ok ()) => (mem, .ok ())
  | (mem, .error e) => (mem, .error (.memory e))

def getRaw (access : Env) (token : SessionToken) :
    Except SessionError (Option AgentSession) :=
  match mem.get layer.toValueText access .global (sessionKey token) with
  | .error e => .error (.memory e)
  | .ok none => .ok none
  | .ok (some entry) =>
    match entry.value with
    | .json v =>
      match AgentSession.read v with
      | some session => .ok (some session)
      | none => .error (.serde (layer.sessionError v))
    | _ => .error (.invalidArgument "session entry is not json")

/-- The token is drawn at random. -/
def issue (agentId : String) (parent : Option String)
    (permissions : List Permission) (ttlMs : Option UInt64)
    (generated : SessionToken) :
    MemoryStore × Except SessionError (SessionToken × AgentSession) :=
  if agentId = "" then
    (mem, .error (.invalidArgument "agent_id must be non-empty"))
  else
    let session : AgentSession :=
      { agentId, parent
        permissions := permissions.map Permission.asToken
        tempGrants := []
        createdAtMs := env.nowMs
        expiresAtMs := expiryOf ttlMs env.nowMs
        revoked := false }
    match put layer mem owner (env.access 0) generated session with
    | (mem, .ok ()) => (mem, .ok (generated, session))
    | (mem, .error e) => (mem, .error e)

def resolve (token : SessionToken) :
    MemoryStore × Except SessionError (Option AgentSession) :=
  match getRaw layer mem (env.access 0) token with
  | .error e => (mem, .error e)
  | .ok none => (mem, .ok none)
  | .ok (some session) =>
    if session.revoked then (mem, .ok none)
    else if session.isExpired env.nowMs then
      match delete mem owner (env.access 1) (sessionKey token) with
      | (mem, .ok ()) => (mem, .ok none)
      | (mem, .error e) => (mem, .error e)
    else
      match session.evictExpiredGrants env.nowMs with
      | (session, true) =>
        match put layer mem owner (env.access 1) token session with
        | (mem, .ok ()) => (mem, .ok (some session))
        | (mem, .error e) => (mem, .error e)
      | (session, false) => (mem, .ok (some session))

/-- The later of two expiries, where none is never. -/
def laterExpiry : Option UInt64 → Option UInt64 → Option UInt64
  | some a, some b => some (max a b)
  | _, _ => none

/-- The first grant of the permission with a later expiry, or a new one. -/
def mergeGrant (permission : String) (expiry : Option UInt64) :
    List TempGrant → List TempGrant
  | [] => [⟨permission, expiry⟩]
  | g :: rest =>
    if g.permission = permission then
      { g with expiresAtMs := laterExpiry g.expiresAtMs expiry } :: rest
    else g :: mergeGrant permission expiry rest

def grantPermission (token : SessionToken) (permission : String)
    (ttlMs : Option UInt64) : MemoryStore × Except SessionError Bool :=
  if (Permission.fromToken permission).isNone then
    (mem, .error (.invalidArgument
      s!"unknown permission token: {permission}"))
  else
    match getRaw layer mem (env.access 0) token with
    | .error e => (mem, .error e)
    | .ok none =>
      (mem, .error (.invalidArgument "session token not found"))
    | .ok (some session) =>
      if session.revoked || session.isExpired env.nowMs then
        (mem, .error (.invalidArgument "session is revoked or expired"))
      else
        let (session, _) := session.evictExpiredGrants env.nowMs
        if permission ∈ session.permissions then (mem, .ok false)
        else
          let session :=
            { session with
              tempGrants := mergeGrant permission
                (expiryOf ttlMs env.nowMs) session.tempGrants }
          match put layer mem owner (env.access 1) token session with
          | (mem, .ok ()) => (mem, .ok true)
          | (mem, .error e) => (mem, .error e)

def revokePermission (token : SessionToken) (permission : String) :
    MemoryStore × Except SessionError Bool :=
  match getRaw layer mem (env.access 0) token with
  | .error e => (mem, .error e)
  | .ok none => (mem, .ok false)
  | .ok (some session) =>
    let kept := session.tempGrants.filter (·.permission ≠ permission)
    let removed := session.tempGrants.length != kept.length
    let (session, evicted) :=
      { session with tempGrants := kept }.evictExpiredGrants env.nowMs
    if removed || evicted then
      match put layer mem owner (env.access 1) token session with
      | (mem, .ok ()) => (mem, .ok removed)
      | (mem, .error e) => (mem, .error e)
    else (mem, .ok removed)

def revoke (token : SessionToken) : MemoryStore × Except SessionError Bool :=
  match getRaw layer mem (env.access 0) token with
  | .error e => (mem, .error e)
  | .ok none => (mem, .ok false)
  | .ok (some session) =>
    match put layer mem owner (env.access 1) token
        { session with revoked := true } with
    | (mem, .ok ()) => (mem, .ok true)
    | (mem, .error e) => (mem, .error e)

-- ==== the listings

/-- The entries that `find_by_agent_id` and `list` go through. -/
def entries (access : Env) : Except SessionError (List MemoryEntry) :=
  match mem.list layer.toValueText access .global
      (.ofPrefix SESSION_KEY_PREFIX) with
  | .ok entries => .ok entries
  | .error e => .error (.memory e)

/-- The session that an entry holds, if it holds one. -/
def sessionOf (entry : MemoryEntry) : Option AgentSession :=
  match entry.value with
  | .json v => AgentSession.read v
  | _ => none

def findIn (agentId : String) : List MemoryEntry →
    MemoryStore × Except SessionError (Option (SessionToken × AgentSession))
  | [] => (mem, .ok none)
  | entry :: rest =>
    match sessionOf entry with
    | none => findIn agentId rest
    | some session =>
      if session.agentId ≠ agentId then findIn agentId rest
      else if session.revoked || session.isExpired env.nowMs then
        findIn agentId rest
      else
        match tokenOfKey entry.key with
        | none => findIn agentId rest
        | some token =>
          match session.evictExpiredGrants env.nowMs with
          | (session, true) =>
            match put layer mem owner (env.access 1) token
                session with
            | (mem, .ok ()) => (mem, .ok (some (token, session)))
            | (mem, .error e) => (mem, .error e)
          | (session, false) => (mem, .ok (some (token, session)))

def findByAgentId (agentId : String) :
    MemoryStore × Except SessionError (Option (SessionToken × AgentSession)) :=
  match entries layer mem (env.access 0) with
  | .error e => (mem, .error e)
  | .ok entries => findIn layer env mem owner agentId entries

/-- What a listing finds: the sessions alive, the keys to evict and the
sessions to save again. -/
structure Listed where
  alive : List AgentSession
  toEvict : List String
  toResave : List (SessionToken × AgentSession)

def sortOut (nowMs : UInt64) : List MemoryEntry → Listed
  | [] => ⟨[], [], []⟩
  | entry :: rest =>
    let listed := sortOut nowMs rest
    match sessionOf entry with
    | none => listed
    | some session =>
      if session.revoked || session.isExpired nowMs then
        { listed with toEvict := entry.key :: listed.toEvict }
      else
        let (session, evicted) := session.evictExpiredGrants nowMs
        { listed with
          alive := session :: listed.alive
          toResave :=
            (if evicted then (tokenOfKey entry.key).toList else []).map
              (·, session) ++ listed.toResave }

/-- The writes after a listing, from the `n`-th access on; those that fail
are logged only. -/
def evictKeys : Nat → MemoryStore → List String → MemoryStore
  | _, mem, [] => mem
  | n, mem, key :: rest =>
    evictKeys (n + 1) (delete mem owner (env.access n) key).1 rest

def resave : Nat → MemoryStore → List (SessionToken × AgentSession) →
    MemoryStore
  | _, mem, [] => mem
  | n, mem, (token, session) :: rest =>
    resave (n + 1) (put layer mem owner (env.access n) token session).1 rest

def persistListCleanup (listed : Listed) : MemoryStore :=
  resave layer env owner (1 + listed.toEvict.length)
    (evictKeys env owner 1 mem listed.toEvict) listed.toResave

def list : MemoryStore × Except SessionError (List AgentSession) :=
  match entries layer mem (env.access 0) with
  | .error e => (mem, .error e)
  | .ok entries =>
    let listed := sortOut env.nowMs entries
    (persistListCleanup layer env mem owner listed, .ok listed.alive)

end SessionStore

-- ==== peeks

inductive SessionPeek where
  | missing
  | valid (session : AgentSession)
  | needsWrite

/-- The session that a peek lets through. -/
def SessionPeek.session : SessionPeek → Option AgentSession
  | valid session => some session
  | _ => none

/-- `peek_session`; its read is that of `get_raw`. -/
def peekSession (layer : SessionText) (access : Env) (mem : MemoryStore)
    (token : SessionToken) (nowMs : UInt64) :
    Except SessionError SessionPeek :=
  match SessionStore.getRaw layer mem access token with
  | .error e => .error e
  | .ok none => .ok .missing
  | .ok (some session) =>
    if session.revoked || session.isExpired nowMs then .ok .missing
    else if session.tempGrants.any (·.isExpired nowMs) then .ok .needsWrite
    else .ok (.valid session)

end Tasty.Ipc
