/-
Stored events and snapshots (`crates/tasty-core/src/codec.rs`), and how
much of them comes back.

Writing and reading go through the derived encodings of `Codec` and a
text layer. Everything comes back except what two fields of type
`Option<Option<_>>` say with `Some(None)`, and a record that nests
beyond the parser's limit is not read at all.
-/
import Tasty.Core.Codec
import Tasty.Core.Run

namespace Tasty.Core

open Serde

-- ==== the codec

def eventSchemaVersion : UInt32 := 1

def modelVersion : UInt32 := 4

/-- Why stored bytes are refused. The parser's own error is left out. -/
inductive CodecError where
  | unknownTag (tag : String)
  | unsupportedVersion (tag : String) (version : UInt32)
  | body (tag : String)
  | tagMismatch (tag body : String)
  | unsupportedModelVersion (version : UInt32)
  | snapshot
  deriving DecidableEq

/-- The body of an event, with the tag and version of its envelope. -/
structure EncodedEvent (T : JsonText) where
  typeTag : String
  schemaVersion : UInt32
  bytes : T.Bytes

def encodeEvent (T : JsonText) (event : DomainEvent) : EncodedEvent T where
  typeTag := event.typeTag
  schemaVersion := eventSchemaVersion
  bytes := T.toVec (ser event)

def decodeEvent (T : JsonText) (tag : String) (version : UInt32)
    (bytes : T.Bytes) : Except CodecError DomainEvent :=
  if !DomainEvent.tags.contains tag then .error (.unknownTag tag)
  else if version ≠ eventSchemaVersion then
    .error (.unsupportedVersion tag version)
  else
    match (T.fromSlice bytes).bind de with
    | none => .error (.body tag)
    | some event =>
      if DomainEvent.typeTag event ≠ tag then
        .error (.tagMismatch tag event.typeTag)
      else .ok event

def encodeSnapshot (T : JsonText) (models : StructureModels) : T.Bytes :=
  T.toVec (ser models)

def decodeSnapshot (T : JsonText) (version : UInt32) (bytes : T.Bytes) :
    Except CodecError StructureModels :=
  if version = 2 ∨ version = modelVersion then
    match (T.fromSlice bytes).bind de with
    | none => .error .snapshot
    | some models => .ok models
  else .error (.unsupportedModelVersion version)

-- ==== what comes back

/-- How deeply the stored event nests. -/
def DomainEvent.nesting (e : DomainEvent) : Nat := (ser e).depth

/-- How deeply the stored snapshot nests. -/
def StructureModels.nesting (m : StructureModels) : Nat := (ser m).depth

variable (T : JsonText)

/-- Reading back what was written, through any text layer. -/
theorem bind_de_fromSlice_toVec {α : Type} [Serde α] {a a' : α}
    (h : de (ser a) = some a') :
    (T.fromSlice (T.toVec (ser a))).bind de
      = if (ser a).depth ≤ Json.recursionLimit then some a' else none := by
  rw [T.fromSlice_toVec]
  split
  · exact h
  · rfl

theorem decodeEvent_encodeEvent (e : DomainEvent) :
    decodeEvent T (encodeEvent T e).typeTag
        (encodeEvent T e).schemaVersion (encodeEvent T e).bytes
      = if e.nesting ≤ Json.recursionLimit then .ok e.collapse
        else .error (.body e.typeTag) := by
  have htag := e.typeTag_mem_tags
  have hread := bind_de_fromSlice_toVec T e.de_ser
  unfold decodeEvent encodeEvent DomainEvent.nesting
  by_cases hlimit : (ser e).depth ≤ Json.recursionLimit
  · rw [if_pos hlimit] at hread ⊢
    simp [htag, hread]
  · rw [if_neg hlimit] at hread ⊢
    simp [htag, hread]

theorem decodeSnapshot_encodeSnapshot (m : StructureModels) :
    decodeSnapshot T modelVersion (encodeSnapshot T m)
      = if m.nesting ≤ Json.recursionLimit then .ok m.collapse
        else .error .snapshot := by
  have hread := bind_de_fromSlice_toVec T m.de_ser
  unfold decodeSnapshot encodeSnapshot StructureModels.nesting
  by_cases hlimit : (ser m).depth ≤ Json.recursionLimit
  · rw [if_pos hlimit] at hread ⊢
    simp [hread]
  · rw [if_neg hlimit] at hread ⊢
    simp [hread]

theorem JournalModel.collapse_eq_self {m : JournalModel} :
    m.collapse = m ↔ m.lossy = false := by
  unfold JournalModel.lossy
  rw [BTreeMap.anyValue_eq_false]
  simp only [← Operation.collapse_eq_self]
  rw [← BTreeMap.map_eq_self_iff]
  constructor
  · intro h
    exact congrArg JournalModel.operations h
  · intro h
    unfold JournalModel.collapse
    rw [h]

theorem StructureModels.collapse_eq_self {m : StructureModels} :
    m.collapse = m ↔ m.lossy = false := by
  unfold StructureModels.lossy
  rw [BTreeMap.anyValue_eq_false]
  simp only [← JournalModel.collapse_eq_self]
  rw [← BTreeMap.map_eq_self_iff]
  constructor
  · intro h
    exact congrArg StructureModels.streams h
  · intro h
    unfold StructureModels.collapse
    rw [h]

/-- What is stored comes back as it was exactly when it holds no
collapsing option and stays within the parser's limit. -/
theorem stored_comes_back_iff (T : JsonText) :
    (∀ e : DomainEvent,
      decodeEvent T (encodeEvent T e).typeTag
          (encodeEvent T e).schemaVersion (encodeEvent T e).bytes = .ok e
        ↔ e.lossy = false ∧ e.nesting ≤ Json.recursionLimit)
    ∧ ∀ m : StructureModels,
      decodeSnapshot T modelVersion (encodeSnapshot T m) = .ok m
        ↔ m.lossy = false ∧ m.nesting ≤ Json.recursionLimit := by
  constructor
  · intro e
    rw [decodeEvent_encodeEvent, ← DomainEvent.collapse_eq_self]
    by_cases hlimit : e.nesting ≤ Json.recursionLimit
    · simp [hlimit]
    · simp [hlimit]
  · intro m
    rw [decodeSnapshot_encodeSnapshot, ← StructureModels.collapse_eq_self]
    by_cases hlimit : m.nesting ≤ Json.recursionLimit
    · simp [hlimit]
    · simp [hlimit]

-- ==== an event lost

/-- A conversion of surface 1 that clears its tab's explicit name. -/
def clearingConversion : Operation where
  id := ⟨"op"⟩
  commandId := "command"
  engineIncarnation := 1
  creation := some
    { destination := .convert 1 none (some none)
      surface := ⟨1, "terminal", none⟩
      tabName := ""
      explicitName := none }
  assembly := none
  retirement := none
  forward := false
  targets := [⟨.surface, 1⟩]
  reserved := []
  input := ⟨1⟩
  activationGeneration := 1
  outcome := none
  pendingOutcome := none
  cleanup := none
  preparedData := none
  preparedDeferred := false
  resourcePrepared := false
  reconciliationEvidence := none

/-- The event that prepares it. -/
def clearingEvent : DomainEvent := .operationPrepared clearingConversion

/-- The first batch of a journal, holding that event. -/
def clearingBatch : StreamBatch where
  batchId := 1
  streams := (∅ : BTreeMap String (List RecordedEvent)).insert
    "structure:engine" [⟨1, clearingEvent⟩]

/-- The models after it. -/
def clearedModels : StructureModels where
  batch := some 1
  streams := (∅ : BTreeMap String JournalModel).insert "structure:engine"
    { JournalModel.default with
      applied := ⟨some 1, some 1⟩
      activationHighWater := (∅ : BTreeMap UInt32 UInt64).insert 1 1
      operations := (∅ : BTreeMap OperationId Operation).insert ⟨"op"⟩
        clearingConversion }

/-- The event is read as one that keeps the name, and so is the snapshot
of the models the accepted batch leads to. -/
theorem stored_clear_comes_back_as_keep :
    (¬ ∃ T : JsonText,
      decodeEvent T (encodeEvent T clearingEvent).typeTag
          (encodeEvent T clearingEvent).schemaVersion
          (encodeEvent T clearingEvent).bytes = .ok clearingEvent)
    ∧ evolveStreams .default clearingBatch = .ok clearedModels
    ∧ ¬ ∃ T : JsonText, decodeSnapshot T modelVersion
        (encodeSnapshot T clearedModels) = .ok clearedModels := by
  refine ⟨?_, by decide +kernel, ?_⟩
  · intro h
    obtain ⟨T, h⟩ := h
    have hread := decodeEvent_encodeEvent T clearingEvent
    rw [h] at hread
    split at hread
    · have hsame := DomainEvent.collapse_eq_self.1
        (Except.ok.inj hread).symm
      revert hsame
      decide
    · cases hread
  · intro h
    obtain ⟨T, h⟩ := h
    have hread := decodeSnapshot_encodeSnapshot T clearedModels
    rw [h] at hread
    split at hread
    · have hsame := StructureModels.collapse_eq_self.1
        (Except.ok.inj hread).symm
      revert hsame
      decide
    · cases hread

end Tasty.Core
