/-
The store itself (`lib.rs`, `read.rs`, `write.rs`): the rows of its two
tables, and what each call reads and writes of them. A call runs in a
transaction of its own, so one that fails leaves the store as it was. Rows
that have expired stay until something deletes them.
-/
import Mathlib.Data.List.Sort
import Tasty.Lib.Table
import Tasty.Memory.Types

namespace Tasty.Memory

-- ==== rows

structure Row where
  scope : String
  key : String
  value : List UInt8
  contentType : String
  createdAt : Int
  updatedAt : Int
  expiresAt : Option Int
  version : Nat
  owner : String

namespace Row

/-- The primary key of `memory`. -/
def place (r : Row) : String × String := (r.scope, r.key)

/-- The primary key of `memory_secret`. -/
def secretPlace (r : Row) : String × String × String :=
  (r.owner, r.scope, r.key)

/-- `expires_at IS NOT NULL AND expires_at <= now`. -/
def isExpired (now : Int) (r : Row) : Bool :=
  match r.expiresAt with
  | some expiresAt => expiresAt ≤ now
  | none => false

/-- The row after an `UPDATE` with the columns of a new one. -/
def overwrite (new : Row) (version : Nat) (old : Row) : Row :=
  { old with
    value := new.value
    contentType := new.contentType
    updatedAt := new.updatedAt
    expiresAt := new.expiresAt
    version }

/-- What a read makes of a row; a secret one keeps its owner to itself. -/
def entry (layer : ValueText) (secret : Bool) (r : Row) :
    Except MemoryError MemoryEntry :=
  match MemoryValue.fromDb layer r.contentType r.value with
  | .error e => .error e
  | .ok value => .ok
      { scope := r.scope
        key := r.key
        value
        createdAt := r.createdAt
        updatedAt := r.updatedAt
        expiresAt := r.expiresAt
        version := r.version
        owner := if secret then none else some r.owner }

end Row

/-- `COALESCE(SUM(LENGTH(value)), 0)`. -/
def usedBytes : List Row → Int
  | [] => 0
  | r :: rows => r.value.length + usedBytes rows

/-- The rows that a read sees. -/
def live (now : Int) (rows : List Row) : List Row :=
  rows.filter fun r => !r.isExpired now

/-- `x as u64`. -/
def asU64 (x : Int) : Nat :=
  if x < 0 then (x + 18446744073709551616).toNat else x.toNat

/-- `x as i64` where a negative value means that there is no limit. -/
def asLimit (n : Nat) : Option Nat :=
  if n < 9223372036854775808 then some n else none

/-- `key LIKE 'p%'` with the wildcards in `p` escaped. -/
def likePrefix (p key : String) : Bool :=
  (p.toList.map Char.toLower).isPrefixOf (key.toList.map Char.toLower)

-- ==== the store

structure MemoryStore where
  config : MemoryConfig
  memory : List Row
  memorySecret : List Row
  regularUsedBytes : Int
  pendingChanges : List MemoryChange

/-- What a call meets: the time, and the database error if there is one. -/
structure Env where
  now : Int
  fault : Option String

structure Effect where
  regularUsed : Option Int
  changes : List MemoryChange

namespace Effect

def secretWrite : Effect := { regularUsed := none, changes := [] }

end Effect

namespace MemoryStore

/-- The store as it is opened on these rows. -/
def prepare (config : MemoryConfig) (memory memorySecret : List Row) :
    MemoryStore where
  config := config
  memory := memory
  memorySecret := memorySecret
  regularUsedBytes := usedBytes memory
  pendingChanges := []

/-- The body of a write in its transaction. -/
def writeStep {α : Type} (env : Env) (s : MemoryStore)
    (op : Except MemoryError (α × Effect × List Row × List Row)) :
    MemoryStore × Except MemoryError α :=
  match env.fault with
  | some e => (s, .error (.db e))
  | none =>
    match op with
    | .error e => (s, .error e)
    | .ok (a, effect, memory, memorySecret) =>
      ({ s with
          memory
          memorySecret
          regularUsedBytes :=
            effect.regularUsed.getD s.regularUsedBytes
          pendingChanges := s.pendingChanges ++ effect.changes },
        .ok a)

def readStep {α : Type} (env : Env) (read : Except MemoryError α) :
    Except MemoryError α :=
  match env.fault with
  | some e => .error (.db e)
  | none => read

def checkEntrySize (config : MemoryConfig) (len : Nat) :
    Except MemoryError Unit :=
  if config.entryMaxBytes < len then
    .error (.valueTooLarge len config.entryMaxBytes)
  else .ok ()

-- ==== reads

/-- The live row with this key, as an entry. -/
def getRow {κ : Type} [DecidableEq κ] (layer : ValueText) (secret : Bool)
    (place : Row → κ) (k : κ) (now : Int) (rows : List Row) :
    Except MemoryError (Option MemoryEntry) :=
  match Table.find place k rows with
  | none => .ok none
  | some r =>
    if r.isExpired now then .ok none
    else (r.entry layer secret).map some

def get (layer : ValueText) (env : Env) (s : MemoryStore) (scope : Scope)
    (key : String) : Except MemoryError (Option MemoryEntry) := do
  validateKey key
  readStep env
    (getRow layer false Row.place (scope.asToken, key) env.now s.memory)

def getSecret (layer : ValueText) (env : Env) (s : MemoryStore)
    (owner : String) (scope : Scope) (key : String) :
    Except MemoryError (Option MemoryEntry) := do
  validateOwner owner
  validateKey key
  readStep env (getRow layer true Row.secretPlace
    (owner, scope.asToken, key) env.now s.memorySecret)

/-- `push_list_filters`: the filters, the order, the limit and the offset. -/
def listRows (opts : ListOpts) (rows : List Row) : List Row :=
  let matching := rows.filter fun r =>
    opts.prefix?.all (likePrefix · r.key)
      && opts.since.all (· ≤ r.updatedAt)
      && opts.until?.all (r.updatedAt < ·)
  let sorted := matching.insertionSort fun a b => a.key ≤ b.key
  let behind := sorted.drop ((opts.offset.bind asLimit).getD 0)
  match opts.limit.bind asLimit with
  | some limit => behind.take limit
  | none => behind

def list (layer : ValueText) (env : Env) (s : MemoryStore) (scope : Scope)
    (opts : ListOpts) : Except MemoryError (List MemoryEntry) :=
  readStep env <| (listRows opts <| (live env.now s.memory).filter fun r =>
    r.scope = scope.asToken).mapM (Row.entry layer false)

def listSecret (layer : ValueText) (env : Env) (s : MemoryStore)
    (owner : String) (scope : Scope) (opts : ListOpts) :
    Except MemoryError (List MemoryEntry) := do
  validateOwner owner
  readStep env <|
    (listRows opts <| (live env.now s.memorySecret).filter fun r =>
      r.owner = owner && r.scope = scope.asToken).mapM (Row.entry layer true)

/-- The number of rows, or of those with the prefix. -/
def countRows (prefix? : Option String) (rows : List Row) : Nat :=
  (rows.filter fun r => prefix?.all (likePrefix · r.key)).length

def count (env : Env) (s : MemoryStore) (scope : Scope)
    (prefix? : Option String) : Except MemoryError Nat :=
  readStep env <| .ok <| countRows prefix? <|
    (live env.now s.memory).filter fun r => r.scope = scope.asToken

def countSecret (env : Env) (s : MemoryStore) (owner : String)
    (scope : Scope) (prefix? : Option String) : Except MemoryError Nat := do
  validateOwner owner
  readStep env <| .ok <| countRows prefix? <|
    (live env.now s.memorySecret).filter fun r =>
      r.owner = owner && r.scope = scope.asToken

-- ==== puts

/-- What a put checks before its transaction, and the bytes it puts. -/
def putChecks (layer : ValueText) (config : MemoryConfig)
    (owner key : String) (value : MemoryValue) :
    Except MemoryError (List UInt8) := do
  validateOwner owner
  validateKey key
  let bytes ← serializeValue layer value
  checkEntrySize config bytes.length
  .ok bytes

/-- The row that a put inserts. -/
def newRow (env : Env) (owner : String) (scope : Scope) (key : String)
    (value : MemoryValue) (opts : PutOpts) (bytes : List UInt8) : Row where
  scope := scope.asToken
  key := key
  value := bytes
  contentType := value.contentType
  createdAt := env.now
  updatedAt := env.now
  expiresAt := opts.expiresAt
  version := 1
  owner := owner

/-- The version that the caller expects is the one that is there. -/
def checkVersion (existing : Option Row) (cas : Option Nat) :
    Except MemoryError Unit :=
  match existing, cas with
  | none, some expected => .error (.casConflict expected 0)
  | some r, some expected =>
    if r.version ≠ expected then
      .error (.casConflict expected r.version)
    else .ok ()
  | _, none => .ok ()

def checkOwner (owner : String) (existing : Option Row) :
    Except MemoryError Unit :=
  match existing with
  | some r =>
    if ownerCanModify owner r.owner then .ok ()
    else .error (.ownedByOther r.owner)
  | none => .ok ()

/-- An `UPDATE` of the live row with this key or an `INSERT` of a row that
takes the place of an expired one, with the new version. -/
def writeRow {κ : Type} [DecidableEq κ] (place : Row → κ) (new : Row)
    (existing : Option Row) (expired : Bool) (rows : List Row) :
    Nat × List Row :=
  match existing with
  | some r =>
    (r.version + 1, Table.update (fun old => place old = place new)
      (Row.overwrite new (r.version + 1)) rows)
  | none =>
    (1, (if expired then Table.delete (fun r => place r = place new) rows
      else rows) ++ [new])

/-- The quota of the regular entries. The counter holds the bytes of all
rows; only when they exceed the quota are the expired rows of other keys
taken off. -/
def checkRegularQuota (usedBefore : Int) (quota : Nat) (now : Int)
    (new : Row) (rows : List Row) : Except MemoryError Unit :=
  let replacedSize : Int :=
    ((Table.find Row.place new.place rows).map fun r =>
      (r.value.length : Int)).getD 0
  let projected := usedBefore - replacedSize + new.value.length
  if quota < asU64 projected then
    let expiredElsewhere := usedBytes (rows.filter fun r =>
      r.isExpired now && !(r.place = new.place : Bool))
    let live := projected - expiredElsewhere
    if quota < asU64 live then
      .error (.quotaExceeded .regular (max live 0).toNat quota)
    else .ok ()
  else .ok ()

def putRegularRows (usedBefore : Int) (quota : Nat) (now : Int)
    (cas : Option Nat) (new : Row) (rows : List Row) :
    Except MemoryError (Nat × Effect × List Row) := do
  let row := Table.find Row.place new.place rows
  let existing := row.filter fun r => !r.isExpired now
  let expired := row.any (Row.isExpired now)
  checkRegularQuota usedBefore quota now new rows
  checkVersion existing cas
  checkOwner new.owner existing
  let replacedSize : Int := (row.map fun r => (r.value.length : Int)).getD 0
  let (version, rows) := writeRow Row.place new existing expired rows
  let gone : List MemoryChange :=
    if expired then [⟨new.scope, new.key, .expired, none⟩] else []
  let kind : MemoryChangeKind :=
    if existing.isSome then .updated else .created
  .ok (version,
    { regularUsed := some (usedBefore - replacedSize + new.value.length)
      changes := gone ++ [⟨new.scope, new.key, kind, some version⟩] },
    rows)

def put (layer : ValueText) (env : Env) (s : MemoryStore) (owner : String)
    (scope : Scope) (key : String) (value : MemoryValue) (opts : PutOpts) :
    MemoryStore × Except MemoryError Nat :=
  match putChecks layer s.config owner key value with
  | .error e => (s, .error e)
  | .ok bytes =>
    let new := newRow env owner scope key value opts bytes
    writeStep env s <|
      (putRegularRows s.regularUsedBytes s.config.regularQuotaTotalBytes
        env.now opts.cas new s.memory).map fun (version, effect, memory) =>
          (version, effect, memory, s.memorySecret)

/-- The quota of the secrets of one owner. -/
def checkSecretQuota (quota : Nat) (now : Int) (new : Row)
    (existing : Option Row) (rows : List Row) : Except MemoryError Unit :=
  let existingSize : Int :=
    (existing.map fun r => (r.value.length : Int)).getD 0
  let currentUsed := usedBytes ((live now rows).filter fun r =>
    r.owner = new.owner)
  let projected := currentUsed - existingSize + new.value.length
  if quota < asU64 projected then
    .error (.quotaExceeded .secret (max projected 0).toNat quota)
  else .ok ()

def putSecretRows (quota : Nat) (now : Int) (cas : Option Nat) (new : Row)
    (rows : List Row) : Except MemoryError (Nat × Effect × List Row) := do
  let row := Table.find Row.secretPlace new.secretPlace rows
  let existing := row.filter fun r => !r.isExpired now
  let expired := row.any (Row.isExpired now)
  checkSecretQuota quota now new existing rows
  checkVersion existing cas
  let (version, rows) := writeRow Row.secretPlace new existing expired rows
  .ok (version, .secretWrite, rows)

def putSecret (layer : ValueText) (env : Env) (s : MemoryStore)
    (owner : String) (scope : Scope) (key : String) (value : MemoryValue)
    (opts : PutOpts) : MemoryStore × Except MemoryError Nat :=
  match putChecks layer s.config owner key value with
  | .error e => (s, .error e)
  | .ok bytes =>
    let new := newRow env owner scope key value opts bytes
    writeStep env s <|
      (putSecretRows s.config.secretQuotaPerOwnerBytes env.now opts.cas new
        s.memorySecret).map fun (version, effect, memorySecret) =>
          (version, effect, s.memory, memorySecret)

-- ==== deletes

/-- What a delete checks before its transaction. -/
def deleteChecks (owner key : String) : Except MemoryError Unit := do
  validateOwner owner
  validateKey key

def deleteRegularRows (usedBefore : Int) (owner scopeToken key : String)
    (cas : Option Nat) (rows : List Row) :
    Except MemoryError (Unit × Effect × List Row) :=
  match Table.find Row.place (scopeToken, key) rows with
  | none => .error (.notFound scopeToken key)
  | some r => do
      checkVersion (some r) cas
      checkOwner owner (some r)
      .ok ((),
        { regularUsed := some (max (usedBefore - r.value.length) 0)
          changes := [⟨scopeToken, key, .deleted, none⟩] },
        Table.delete (fun r => r.place = (scopeToken, key)) rows)

def delete (env : Env) (s : MemoryStore) (owner : String) (scope : Scope)
    (key : String) (cas : Option Nat) :
    MemoryStore × Except MemoryError Unit :=
  match deleteChecks owner key with
  | .error e => (s, .error e)
  | .ok () =>
    writeStep env s <|
      (deleteRegularRows s.regularUsedBytes owner scope.asToken key cas
        s.memory).map fun (u, effect, memory) =>
          (u, effect, memory, s.memorySecret)

def deleteSecretRows (owner scopeToken key : String) (cas : Option Nat)
    (rows : List Row) : Except MemoryError (Unit × Effect × List Row) :=
  match Table.find Row.secretPlace (owner, scopeToken, key) rows with
  | none => .error (.notFound scopeToken key)
  | some r => do
      checkVersion (some r) cas
      .ok ((), .secretWrite,
        Table.delete (fun r => r.secretPlace = (owner, scopeToken, key)) rows)

def deleteSecret (env : Env) (s : MemoryStore) (owner : String)
    (scope : Scope) (key : String) (cas : Option Nat) :
    MemoryStore × Except MemoryError Unit :=
  match deleteChecks owner key with
  | .error e => (s, .error e)
  | .ok () =>
    writeStep env s <|
      (deleteSecretRows owner scope.asToken key cas s.memorySecret).map
        fun (u, effect, memorySecret) => (u, effect, s.memory, memorySecret)

-- ==== maintenance

def purgeExpired (env : Env) (s : MemoryStore) :
    MemoryStore × Except MemoryError PurgeStats :=
  let expired := s.memory.filter (Row.isExpired env.now)
  let memory := Table.delete (Row.isExpired env.now) s.memory
  let memorySecret := Table.delete (Row.isExpired env.now) s.memorySecret
  writeStep env s <| .ok (
    { regular := s.memory.length - memory.length
      secret := s.memorySecret.length - memorySecret.length },
    { regularUsed := some (usedBytes memory)
      changes := expired.map fun r => ⟨r.scope, r.key, .expired, none⟩ },
    memory, memorySecret)

def purgeScope (env : Env) (s : MemoryStore) (scope : Scope) :
    MemoryStore × Except MemoryError PurgeStats :=
  let cleared := s.memory.filter fun r => r.scope = scope.asToken
  let memory := Table.delete (fun r => r.scope = scope.asToken) s.memory
  let memorySecret :=
    Table.delete (fun r => r.scope = scope.asToken) s.memorySecret
  writeStep env s <| .ok (
    { regular := s.memory.length - memory.length
      secret := s.memorySecret.length - memorySecret.length },
    { regularUsed := some (usedBytes memory)
      changes := cleared.map fun r =>
        ⟨scope.asToken, r.key, .deleted, none⟩ },
    memory, memorySecret)

/-- `pruned_effect`: the counter is counted again if a row went. -/
def pruned (env : Env) (s : MemoryStore) (memory : List Row) :
    MemoryStore × Except MemoryError Nat :=
  let deleted := s.memory.length - memory.length
  writeStep env s <| .ok (deleted,
    { regularUsed := if 0 < deleted then some (usedBytes memory) else none
      changes := [] },
    memory, s.memorySecret)

/-- The keys with the prefix but for the latest ones, in any scope. -/
def prunePrefixKeepRecent (env : Env) (s : MemoryStore) (p : String)
    (keepRecent : Nat) : MemoryStore × Except MemoryError Nat :=
  let keys := ((s.memory.filter fun r => likePrefix p r.key).map
    Row.key).insertionSort fun a b => b ≤ a
  let cutoff := keys[min keepRecent 9223372036854775807]?
  s.pruned env (Table.delete
    (fun r => likePrefix p r.key && cutoff.any (r.key ≤ ·)) s.memory)

/-- `format!("{n:013}")`. -/
def padded13 (n : Nat) : String :=
  let digits := toString n
  String.ofList (List.replicate (13 - digits.length) '0') ++ digits

/-- The keys with the prefix whose time is before the cutoff. -/
def prunePrefixOlderThan (env : Env) (s : MemoryStore) (p : String)
    (cutoffMs : Nat) : MemoryStore × Except MemoryError Nat :=
  let boundary := p ++ padded13 cutoffMs
  s.pruned env (Table.delete
    (fun r => likePrefix p r.key && decide (r.key < boundary)) s.memory)

end MemoryStore

end Tasty.Memory
