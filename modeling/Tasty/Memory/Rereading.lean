/-
JSON values that were written as text and read again. The text has the
structure, the strings and the whole numbers as they were; a double goes
through its decimal text and may come back as another one.
-/
import Tasty.Memory.Types

namespace Tasty.Agent.Value

-- ==== ordered maps

mutual

/-- Every object holds its keys in their order and once each. -/
def Ordered : Value → Prop
  | array items => OrderedItems items
  | object entries => Entries.Sorted entries ∧ OrderedEntries entries
  | null | bool _ | number _ | string _ => True

def OrderedItems : List Value → Prop
  | [] => True
  | v :: rest => v.Ordered ∧ OrderedItems rest

def OrderedEntries : List (String × Value) → Prop
  | [] => True
  | (_, v) :: rest => v.Ordered ∧ OrderedEntries rest

end

theorem orderedItems_iff {items : List Value} :
    OrderedItems items ↔ ∀ v ∈ items, v.Ordered := by
  induction items with
  | nil => simp [OrderedItems]
  | cons v items ih => simp [OrderedItems, ih]

theorem orderedEntries_iff {entries : List (String × Value)} :
    OrderedEntries entries ↔ ∀ e ∈ entries, e.2.Ordered := by
  induction entries with
  | nil => simp [OrderedEntries]
  | cons e entries ih =>
    obtain ⟨k, v⟩ := e
    simp [OrderedEntries, ih]

-- ==== equality

mutual

/-- `==` on values. -/
def identical : Value → Value → Bool
  | null, null => true
  | bool a, bool b => a = b
  | number a, number b => a = b
  | string a, string b => a = b
  | array a, array b => identicalItems a b
  | object a, object b => identicalEntries a b
  | _, _ => false

def identicalItems : List Value → List Value → Bool
  | [], [] => true
  | a :: as, b :: bs => a.identical b && identicalItems as bs
  | _, _ => false

def identicalEntries : List (String × Value) → List (String × Value) → Bool
  | [], [] => true
  | (k, a) :: as, (k', b) :: bs =>
    k = k' && a.identical b && identicalEntries as bs
  | _, _ => false

end

mutual

theorem identical_iff : ∀ a b : Value, a.identical b = true ↔ a = b
  | null, b => by cases b <;> simp [identical]
  | bool _, b => by cases b <;> simp [identical]
  | number _, b => by cases b <;> simp [identical]
  | string _, b => by cases b <;> simp [identical]
  | array as, b => by cases b <;> simp [identical, identicalItems_iff as]
  | object as, b => by cases b <;> simp [identical, identicalEntries_iff as]

theorem identicalItems_iff : ∀ as bs : List Value,
    identicalItems as bs = true ↔ as = bs
  | [], bs => by cases bs <;> simp [identicalItems]
  | a :: as, bs => by
      cases bs <;> simp [identicalItems, identical_iff a, identicalItems_iff as]

theorem identicalEntries_iff : ∀ as bs : List (String × Value),
    identicalEntries as bs = true ↔ as = bs
  | [], bs => by cases bs <;> simp [identicalEntries]
  | (k, a) :: as, bs => by
      cases bs <;> simp [identicalEntries, identical_iff a,
        identicalEntries_iff as, Prod.ext_iff]

end

-- ==== doubles

mutual

/-- The value with its doubles replaced. -/
def mapFloats (f : F64 → F64) : Value → Value
  | null => null
  | bool b => bool b
  | number (.float x) => number (.float (f x))
  | number n => number n
  | string s => string s
  | array items => array (mapFloatsItems f items)
  | object entries => object (mapFloatsEntries f entries)

def mapFloatsItems (f : F64 → F64) : List Value → List Value
  | [] => []
  | v :: rest => v.mapFloats f :: mapFloatsItems f rest

def mapFloatsEntries (f : F64 → F64) :
    List (String × Value) → List (String × Value)
  | [] => []
  | (k, v) :: rest => (k, v.mapFloats f) :: mapFloatsEntries f rest

end

variable {f : F64 → F64}

theorem mapFloatsItems_eq (items : List Value) :
    mapFloatsItems f items = items.map (mapFloats f) := by
  induction items with
  | nil => rw [mapFloatsItems, List.map_nil]
  | cons v items ih => rw [mapFloatsItems, ih, List.map_cons]

theorem mapFloatsEntries_eq (entries : List (String × Value)) :
    mapFloatsEntries f entries
      = entries.map fun e => (e.1, e.2.mapFloats f) := by
  induction entries with
  | nil => rw [mapFloatsEntries, List.map_nil]
  | cons e entries ih =>
    obtain ⟨k, v⟩ := e
    rw [mapFloatsEntries, ih, List.map_cons]

@[simp] theorem mapFloats_string (s : String) :
    (string s).mapFloats f = string s := by
  rw [mapFloats]

@[simp] theorem mapFloats_array (items : List Value) :
    (array items).mapFloats f = array (items.map (mapFloats f)) := by
  rw [mapFloats, mapFloatsItems_eq]

@[simp] theorem mapFloats_object (entries : List (String × Value)) :
    (object entries).mapFloats f
      = object (entries.map fun e => (e.1, e.2.mapFloats f)) := by
  rw [mapFloats, mapFloatsEntries_eq]

@[simp] theorem mapFloats_ofI64 (i : Int64) :
    (ofI64 i).mapFloats f = ofI64 i := by
  unfold ofI64 Number.ofI64
  split <;> rw [mapFloats] <;> nofun

end Tasty.Agent.Value

namespace Tasty.Memory

open Agent (Value)

/-- A JSON text layer that reads what it has written, but for what becomes
of doubles. -/
structure Rereads (layer : ValueText) (reread : F64 → F64) : Prop where
  ordered : ∀ bytes v, layer.fromSlice bytes = .ok v → v.Ordered
  reads : ∀ v bytes v', v.Ordered → layer.toVec v = .ok bytes →
    layer.fromSlice bytes = .ok v' → v' = v.mapFloats reread

/-- What a value is after it was written and read. -/
def MemoryValue.reread (f : F64 → F64) : MemoryValue → MemoryValue
  | .json v => .json (v.mapFloats f)
  | v => v

theorem fromUTF8_asBytes (s : String) :
    String.fromUTF8? ⟨(asBytes s).toArray⟩ = some s := by
  have hdata : (⟨(asBytes s).toArray⟩ : ByteArray) = s.toByteArray := by
    simp [asBytes]
  rw [hdata, String.fromUTF8?, dif_pos s.isValidUTF8]
  rfl

theorem MemoryValue.fromDb_toBytes {layer : ValueText} {f : F64 → F64}
    (hlayer : Rereads layer f) {value value' : MemoryValue}
    {bytes : List UInt8} (hordered : ∀ v, value = .json v → v.Ordered)
    (hbytes : value.toBytes layer = .ok bytes)
    (hread : MemoryValue.fromDb layer value.contentType bytes = .ok value') :
    value' = value.reread f := by
  unfold MemoryValue.fromDb at hread
  cases value with
  | text s =>
    cases hbytes
    rw [show (MemoryValue.text s).contentType = "text/plain" from rfl,
      if_pos rfl, fromUTF8_asBytes] at hread
    cases hread
    rfl
  | json v =>
    rw [show (MemoryValue.json v).contentType = "application/json" from rfl,
      if_neg (by decide), if_pos rfl] at hread
    cases hslice : layer.fromSlice bytes with
    | error e =>
      rw [hslice] at hread
      cases hread
    | ok v' =>
      rw [hslice] at hread
      cases hread
      rw [hlayer.reads v bytes v' (hordered v rfl) hbytes hslice]
      rfl
  | binary b =>
    cases hbytes
    rw [show (MemoryValue.binary bytes).contentType = "application/octet-stream"
      from rfl, if_neg (by decide), if_neg (by decide), if_pos rfl] at hread
    cases hread
    rfl

theorem MemoryValue.ordered_of_fromDb {layer : ValueText} {f : F64 → F64}
    (hlayer : Rereads layer f) {contentType : String} {bytes : List UInt8}
    {v : Value}
    (h : MemoryValue.fromDb layer contentType bytes = .ok (.json v)) :
    v.Ordered := by
  unfold MemoryValue.fromDb at h
  split at h
  · split at h <;> cases h
  split at h
  · split at h
    · rename_i hslice
      cases h
      exact hlayer.ordered _ _ hslice
    · cases h
  split at h <;> cases h

end Tasty.Memory
