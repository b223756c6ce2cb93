/-
Blackboards (`blackboard.rs` and its `crud.rs` and `snapshot.rs`): fields
of a workspace under one name, an entry each, and snapshots of them that
are one entry each. A restore is many calls of the store and may stop
between two of them.
-/
import Tasty.Lib.Texts
import Tasty.Memory.Base64
import Tasty.Memory.Plan

namespace Tasty.Memory

open Agent (Value)

def BB_KEY_PREFIX : String := "tasty.bb."
def BB_NAME_MAX : Nat := 64
def BB_FIELD_MAX : Nat := 64

/-- The check of an id under another label. -/
def validateNameInner (name : String) (max : Nat) (label : String) :
    Except MemoryError Unit :=
  validateIdInner name max label

def validateBbName (name : String) : Except MemoryError Unit :=
  validateNameInner name BB_NAME_MAX "bb_name"

def validateFieldName (name : String) : Except MemoryError Unit :=
  validateNameInner name BB_FIELD_MAX "field_name"

def validateSnapshotId (sid : String) : Except MemoryError Unit :=
  validateNameInner sid BB_NAME_MAX "snapshot_id"

def metaKey (bb : String) : String := BB_KEY_PREFIX ++ bb ++ "._meta"

def fieldsPrefix (bb : String) : String := BB_KEY_PREFIX ++ bb ++ ".fields."

def fieldKey (bb field : String) : String := fieldsPrefix bb ++ field

def snapshotKey (bb sid : String) : String :=
  BB_KEY_PREFIX ++ bb ++ ".snapshots." ++ sid

/-- What a call meets: the clock of its own, and what its accesses to the
store meet one after another. -/
structure BbEnv where
  nowMs : Int64
  access : Nat → Env

-- ==== the fields

structure BlackboardMeta where
  name : String
  schema : Option Value
  createdAt : Int64
  createdBy : String

/-- `serde_json::to_value(meta)`. -/
def BlackboardMeta.toValue (m : BlackboardMeta) : Value :=
  .object ([("created_at", .ofI64 m.createdAt),
    ("created_by", .string m.createdBy), ("name", .string m.name)]
    ++ m.schema.toList.map fun v => ("schema", v))

section Fields

variable (layer : ValueText) (store : MemoryStore) (workspaceId : UInt32)
  (bb : String)

def bbGetMeta (access : Env) : Except MemoryError (Option MemoryEntry) := do
  validateBbName bb
  store.get layer access (.workspace workspaceId) (metaKey bb)

def bbExists (access : Env) : Except MemoryError Bool :=
  (bbGetMeta layer store workspaceId bb access).map Option.isSome

def bbCreate (env : BbEnv) (owner : String) (schema : Option Value) :
    MemoryStore × Except MemoryError Nat :=
  let scope := Scope.workspace workspaceId
  let checked : Except MemoryError Unit := do
    validateBbName bb
    let existing ← store.get layer (env.access 0) scope (metaKey bb)
    rejectIf existing.isSome (.alreadyExists scope.asToken (metaKey bb))
  match checked with
  | .error e => (store, .error e)
  | .ok () =>
    let value : BlackboardMeta :=
      { name := bb, schema, createdAt := env.nowMs, createdBy := owner }
    store.put layer (env.access 1) owner scope (metaKey bb)
      (.json value.toValue) .default

def bbPut (env : BbEnv) (owner field : String) (value : MemoryValue)
    (cas : Option Nat) : MemoryStore × Except MemoryError Nat :=
  let scope := Scope.workspace workspaceId
  let checked : Except MemoryError Unit := do
    validateBbName bb
    validateFieldName field
    let known ← bbExists layer store workspaceId bb (env.access 0)
    rejectIf (!known) (.notFound scope.asToken (metaKey bb))
  match checked with
  | .error e => (store, .error e)
  | .ok () =>
    store.put layer (env.access 1) owner scope (fieldKey bb field) value
      { expiresAt := none, cas }

def bbGetAll (access : Env) : Except MemoryError (List MemoryEntry) := do
  validateBbName bb
  store.list layer access (.workspace workspaceId)
    (.ofPrefix (fieldsPrefix bb))

def bbDeleteField (env : BbEnv) (owner field : String) (cas : Option Nat) :
    MemoryStore × Except MemoryError Unit :=
  let checked : Except MemoryError Unit := do
    validateBbName bb
    validateFieldName field
  match checked with
  | .error e => (store, .error e)
  | .ok () =>
    store.delete (env.access 0) owner (.workspace workspaceId)
      (fieldKey bb field) cas

end Fields

-- ==== the snapshots

structure SnapshotField where
  field : String
  contentType : String
  payload : Value

namespace SnapshotField

def fromMemory (field : String) : MemoryValue → SnapshotField
  | .text s =>
    { field, contentType := "text/plain", payload := .string s }
  | .json j => { field, contentType := "application/json", payload := j }
  | .binary b =>
    { field, contentType := "application/octet-stream"
      payload := .string (encodeB64 b) }

def toMemory (sf : SnapshotField) : Except MemoryError MemoryValue :=
  if sf.contentType = "text/plain" then
    match sf.payload with
    | .string s => .ok (.text s)
    | _ => .error (.invalidContentType
        "snapshot text/plain payload must be a string")
  else if sf.contentType = "application/json" then .ok (.json sf.payload)
  else if sf.contentType = "application/octet-stream" then
    match sf.payload with
    | .string s =>
      match decodeB64 s with
      | .ok bytes => .ok (.binary bytes)
      | .error e => .error (.invalidContentType e)
    | _ => .error (.invalidContentType
        "snapshot binary payload must be a base64 string")
  else .error (.invalidContentType sf.contentType)

def toValue (sf : SnapshotField) : Value :=
  .object [("content_type", .string sf.contentType),
    ("field", .string sf.field), ("payload", sf.payload)]

def read (v : Value) : Option SnapshotField := do
  let entry ← fieldsOf ["field", "content_type", "payload"] v
  let field ← (entry "field").bind readString
  let contentType ← (entry "content_type").bind readString
  let payload ← entry "payload"
  some { field, contentType, payload }

end SnapshotField

structure BlackboardSnapshot where
  bbName : String
  snapshotId : String
  takenAt : Int64
  takenBy : String
  bbMeta : Option Value
  fields : List SnapshotField

/-- `serde_json::to_value(snapshot)`. -/
def BlackboardSnapshot.toValue (s : BlackboardSnapshot) : Value :=
  .object ([("bb_name", .string s.bbName),
      ("fields", .array (s.fields.map SnapshotField.toValue))]
    ++ s.bbMeta.toList.map (fun v => ("meta", v))
    ++ [("snapshot_id", .string s.snapshotId), ("taken_at", .ofI64 s.takenAt),
      ("taken_by", .string s.takenBy)])

def readFields : Value → Option (List SnapshotField)
  | .array items => items.mapM SnapshotField.read
  | _ => none

/-- `serde_json::from_value::<BlackboardSnapshot>`. -/
def BlackboardSnapshot.read (v : Value) : Option BlackboardSnapshot := do
  let entry ← fieldsOf
    ["bb_name", "snapshot_id", "taken_at", "taken_by", "meta", "fields"] v
  let bbName ← (entry "bb_name").bind readString
  let snapshotId ← (entry "snapshot_id").bind readString
  let takenAt ← (entry "taken_at").bind readI64
  let takenBy ← (entry "taken_by").bind readString
  let bbMeta ← readOr none (readOption some) (entry "meta")
  let fields ← (entry "fields").bind readFields
  some { bbName, snapshotId, takenAt, takenBy, bbMeta, fields }

/-- The library that turns snapshots to text: the text of values, and what
it says of a value that is no snapshot. -/
structure SnapshotText extends ValueText where
  snapshotError : Value → String

/-- The field name of a key, and what its entry holds. -/
def fieldOf (bb : String) (e : MemoryEntry) : String × MemoryValue :=
  ((stripPrefix (fieldsPrefix bb) e.key).getD e.key, e.value)

section Snapshots

variable (layer : SnapshotText) (env : BbEnv) (store : MemoryStore)
  (owner : String) (workspaceId : UInt32) (bb snapshotId : String)

/-- What a snapshot is made of. -/
def snapshotOf : Except MemoryError BlackboardSnapshot := do
  let scope := Scope.workspace workspaceId
  validateBbName bb
  validateSnapshotId snapshotId
  let metaEntry ←
    bbGetMeta layer.toValueText store workspaceId bb (env.access 0)
  rejectIf metaEntry.isNone (.notFound scope.asToken (metaKey bb))
  let key := snapshotKey bb snapshotId
  let existing ← store.get layer.toValueText (env.access 1) scope key
  rejectIf existing.isSome (.alreadyExists scope.asToken key)
  let entries ←
    bbGetAll layer.toValueText store workspaceId bb (env.access 2)
  .ok
    { bbName := bb
      snapshotId
      takenAt := env.nowMs
      takenBy := owner
      bbMeta := metaEntry.bind fun e =>
        match e.value with
        | .json v => some v
        | _ => none
      fields := entries.map fun e =>
        .fromMemory (fieldOf bb e).1 (fieldOf bb e).2 }

def bbSnapshot : MemoryStore × Except MemoryError Nat :=
  match snapshotOf layer env store owner workspaceId bb snapshotId with
  | .error e => (store, .error e)
  | .ok snap =>
    store.put layer.toValueText (env.access 3) owner
      (.workspace workspaceId) (snapshotKey bb snapshotId)
      (.json snap.toValue) .default

def bbSnapshotGet (access : Env) :
    Except MemoryError (Option BlackboardSnapshot) := do
  validateBbName bb
  validateSnapshotId snapshotId
  let entry ← store.get layer.toValueText access (.workspace workspaceId)
    (snapshotKey bb snapshotId)
  match entry with
  | none => .ok none
  | some entry =>
    match entry.value with
    | .json v =>
      match BlackboardSnapshot.read v with
      | some snap => .ok (some snap)
      | none => .error (.invalidContentType
          ("invalid snapshot json: " ++ layer.snapshotError v))
    | _ => .error (.invalidContentType
        ("snapshot entry is not application/json: " ++ entry.key))

/-- What a restore reads before it writes. -/
def restoreOf :
    Except MemoryError (BlackboardSnapshot × List MemoryEntry) := do
  let scope := Scope.workspace workspaceId
  validateBbName bb
  validateSnapshotId snapshotId
  let snap ←
    bbSnapshotGet layer store workspaceId bb snapshotId (env.access 0)
  match snap with
  | none => .error (.notFound scope.asToken (snapshotKey bb snapshotId))
  | some snap => do
      let entries ←
        bbGetAll layer.toValueText store workspaceId bb (env.access 1)
      .ok (snap, entries)

/-- The deletes of a restore, from the `n`-th access on. -/
def deleteKeys : Nat → MemoryStore → List String →
    MemoryStore × Except MemoryError Unit
  | _, store, [] => (store, .ok ())
  | n, store, key :: rest =>
    match store.delete (env.access n) owner (.workspace workspaceId) key
        none with
    | (store, .error e) => (store, .error e)
    | (store, .ok ()) => deleteKeys (n + 1) store rest

/-- The `_meta` of a blackboard that has none. -/
def restoreMeta (n : Nat) (store : MemoryStore) (snap : BlackboardSnapshot) :
    MemoryStore × Except MemoryError Unit :=
  match bbExists layer.toValueText store workspaceId bb (env.access n) with
  | .error e => (store, .error e)
  | .ok true => (store, .ok ())
  | .ok false =>
    let value := snap.bbMeta.getD (.object
      [("created_at", .ofI64 env.nowMs), ("created_by", .string owner),
        ("name", .string bb), ("restored_from", .string snapshotId)])
    (store.put layer.toValueText (env.access (n + 1)) owner
      (.workspace workspaceId) (metaKey bb) (.json value) .default).map id
        (Except.map fun _ => ())

/-- The puts of a restore, with the number of fields restored before. -/
def restoreFields : Nat → Nat → MemoryStore → List SnapshotField →
    MemoryStore × Except MemoryError Nat
  | _, restored, store, [] => (store, .ok restored)
  | n, restored, store, sf :: rest =>
    let checked : Except MemoryError MemoryValue := do
      validateFieldName sf.field
      sf.toMemory
    match checked with
    | .error e => (store, .error e)
    | .ok value =>
      match store.put layer.toValueText (env.access n) owner
          (.workspace workspaceId) (fieldKey bb sf.field) value
          .default with
      | (store, .error e) => (store, .error e)
      | (store, .ok _) => restoreFields (n + 1) (restored + 1) store rest

def bbSnapshotRestore : MemoryStore × Except MemoryError Nat :=
  match restoreOf layer env store workspaceId bb snapshotId with
  | .error e => (store, .error e)
  | .ok (snap, entries) =>
    match deleteKeys env owner workspaceId 2 store
        (entries.map MemoryEntry.key) with
    | (store, .error e) => (store, .error e)
    | (store, .ok ()) =>
      let n := 2 + entries.length
      match restoreMeta layer env owner workspaceId bb snapshotId n store
          snap with
      | (store, .error e) => (store, .error e)
      | (store, .ok ()) =>
        restoreFields layer env owner workspaceId bb (n + 2) 0 store
          snap.fields

end Snapshots

end Tasty.Memory
