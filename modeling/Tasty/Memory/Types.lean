/-
The key-value store of the host (`crates/tasty-memory`): the scopes, keys,
owners and values that its callers name, and what they are refused with.
-/
import Tasty.Agent.Value

namespace Tasty.Memory

open Agent (Value)

/-- `str::as_bytes`. -/
def asBytes (s : String) : List UInt8 := s.toUTF8.data.toList

/-- A byte read as a character and written in the debug format. -/
def debugByte (b : UInt8) : String :=
  let shown : List Char :=
    if b = 0x09 then ['\\', 't']
    else if b = 0x0A then ['\\', 'n']
    else if b = 0x0D then ['\\', 'r']
    else if b = 0x00 then ['\\', '0']
    else if b = 0x27 then ['\\', Char.ofNat 0x27]
    else if b = 0x5C then ['\\', '\\']
    else if b < 0x20 ∨ (0x7F ≤ b ∧ b ≤ 0xA0) ∨ b = 0xAD then
      ['\\', 'u', Char.ofNat 0x7B] ++ Nat.toDigits 16 b.toNat
        ++ [Char.ofNat 0x7D]
    else [Char.ofNat b.toNat]
  String.ofList (Char.ofNat 0x27 :: shown ++ [Char.ofNat 0x27])

-- ==== scopes

inductive Scope where
  | global
  | account (id : String)
  | window (id : UInt64)
  | workspace (id : UInt32)
  | surface (id : UInt32)
  deriving DecidableEq

def Scope.asToken : Scope → String
  | .global => "global"
  | .account id => "account:" ++ id
  | .window id => "window:" ++ toString id.toNat
  | .workspace id => "workspace:" ++ toString id.toNat
  | .surface id => "surface:" ++ toString id.toNat

-- ==== errors

inductive MemoryArea where
  | regular
  | secret
  deriving DecidableEq

inductive MemoryError where
  | notFound (scope key : String)
  | alreadyExists (scope key : String)
  | casConflict (expected actual : Nat)
  | ownedByOther (owner : String)
  | quotaExceeded (area : MemoryArea) (used limit : Nat)
  | invalidKey (text : String)
  | invalidOwner (text : String)
  | invalidContentType (text : String)
  | valueTooLarge (actual max : Nat)
  | db (text : String)
  deriving DecidableEq

-- ==== checks

/-- `if p { return Err(e) }`. -/
def rejectIf (p : Prop) [Decidable p] (e : MemoryError) :
    Except MemoryError Unit :=
  if p then .error e else .ok ()

theorem rejectIf_eq_ok {p : Prop} [Decidable p] {e : MemoryError} {u : Unit} :
    rejectIf p e = .ok u ↔ ¬ p := by
  unfold rejectIf
  by_cases h : p
  · rw [if_pos h]
    exact ⟨fun h => (by cases h), fun hn => absurd h hn⟩
  · rw [if_neg h]
    exact ⟨fun _ => h, fun _ => rfl⟩

def MAX_KEY_LEN : Nat := 256

/-- `_host`, which may change every entry. -/
def HOST_OWNER : String := "_host"

def isLowercase (b : UInt8) : Bool := 0x61 ≤ b && b ≤ 0x7A

def isDigit (b : UInt8) : Bool := 0x30 ≤ b && b ≤ 0x39

/-- The first byte that is not allowed, with where it stands. -/
def firstNot (ok : UInt8 → Bool) (bytes : List UInt8) :
    Option (Nat × UInt8) :=
  (bytes.findIdx? fun b => !ok b).map fun i => (i, bytes.getD i 0)

/-- A byte that may stand in a key: `a-z`, `0-9`, `.`, `_` or `-`. -/
def isKeyByte (b : UInt8) : Bool :=
  isLowercase b || isDigit b || b == 0x2E || b == 0x5F || b == 0x2D

def validateKey (key : String) : Except MemoryError Unit :=
  if key.utf8ByteSize = 0 then .error (.invalidKey "empty key")
  else if MAX_KEY_LEN < key.utf8ByteSize then
    .error (.invalidKey
      s!"key too long: {key.utf8ByteSize} > {MAX_KEY_LEN}")
  else match firstNot isKeyByte (asBytes key) with
    | some (i, b) =>
      .error (.invalidKey s!"invalid char at {i}: {debugByte b}")
    | none => .ok ()

def validateOwner (owner : String) : Except MemoryError Unit :=
  if owner.utf8ByteSize = 0 then .error (.invalidOwner "empty")
  else if 256 < owner.utf8ByteSize then
    .error (.invalidOwner s!"too long: {owner.utf8ByteSize} > 256")
  else .ok ()

def ownerCanModify (callerOwner existingOwner : String) : Bool :=
  callerOwner == HOST_OWNER || callerOwner == existingOwner

-- ==== values

/-- The JSON text layer (`serde_json::to_vec` and `from_slice`), and how
bytes that are not UTF-8 are complained about. -/
structure ValueText where
  toVec : Value → Except String (List UInt8)
  fromSlice : List UInt8 → Except String Value
  utf8Error : List UInt8 → String

inductive MemoryValue where
  | text (s : String)
  | json (v : Value)
  | binary (b : List UInt8)

namespace MemoryValue

def contentType : MemoryValue → String
  | text _ => "text/plain"
  | json _ => "application/json"
  | binary _ => "application/octet-stream"

def toBytes (layer : ValueText) : MemoryValue → Except String (List UInt8)
  | text s => .ok (asBytes s)
  | json v => layer.toVec v
  | binary b => .ok b

def fromDb (layer : ValueText) (contentType : String) (bytes : List UInt8) :
    Except MemoryError MemoryValue :=
  if contentType = "text/plain" then
    match String.fromUTF8? ⟨bytes.toArray⟩ with
    | some s => .ok (.text s)
    | none => .error (.invalidContentType
        ("text/plain not utf8: " ++ layer.utf8Error bytes))
  else if contentType = "application/json" then
    match layer.fromSlice bytes with
    | .ok v => .ok (.json v)
    | .error e => .error (.invalidContentType ("invalid json: " ++ e))
  else if contentType = "application/octet-stream" then .ok (.binary bytes)
  else .error (.invalidContentType contentType)

end MemoryValue

def serializeValue (layer : ValueText) (value : MemoryValue) :
    Except MemoryError (List UInt8) :=
  match value.toBytes layer with
  | .ok bytes => .ok bytes
  | .error e => .error (.invalidContentType e)

structure MemoryEntry where
  scope : String
  key : String
  value : MemoryValue
  createdAt : Int
  updatedAt : Int
  expiresAt : Option Int
  version : Nat
  owner : Option String

structure PutOpts where
  expiresAt : Option Int
  cas : Option Nat

/-- `PutOpts::default()`. -/
def PutOpts.default : PutOpts := { expiresAt := none, cas := none }

structure ListOpts where
  prefix? : Option String
  limit : Option Nat
  since : Option Int
  until? : Option Int
  offset : Option Nat

/-- `ListOpts { prefix, ..Default::default() }`. -/
def ListOpts.ofPrefix (p : String) : ListOpts where
  prefix? := some p
  limit := none
  since := none
  until? := none
  offset := none

structure MemoryConfig where
  entryMaxBytes : Nat
  secretQuotaPerOwnerBytes : Nat
  regularQuotaTotalBytes : Nat

inductive MemoryChangeKind where
  | created
  | updated
  | deleted
  | expired
  deriving DecidableEq

structure MemoryChange where
  scope : String
  key : String
  kind : MemoryChangeKind
  version : Option Nat
  deriving DecidableEq

structure PurgeStats where
  regular : Nat
  secret : Nat
  deriving DecidableEq

structure MemoryStats where
  scope : Option String
  entries : Nat
  bytes : Nat
  deriving DecidableEq

end Tasty.Memory
