/-
JSON trees, and records written to and read from them.

A `Json` value is a document without its text. `Serde` gives a type its
derived encoding: a struct is an object of its fields, an enum variant
an object with the variant's name as its one key (or just the name, for
a variant without fields), an absent option is `null` and a present one
the encoding of its content. `RoundTrip` says that reading undoes
writing. It needs `NonNull` under an option: an option of an option has
no `RoundTrip`, as both of its empty values are `null`.

The text itself belongs to a library; `JsonText` is what is documented
of it: printing and parsing are inverse up to a nesting limit.
Readers of records take the fields in any order, ignore unknown ones and
refuse a repeated one. A struct written as an array is not read here.
-/
import Mathlib
import Tasty.Lib.BTreeMap
import Tasty.Lib.Texts

namespace Tasty

-- ==== the trees

/-- A JSON document; its numbers are the unsigned 64-bit ones. -/
inductive Json where
  | null
  | bool (b : Bool)
  | num (n : UInt64)
  | str (s : String)
  | arr (items : List Json)
  | obj (entries : List (String × Json))

mutual

/-- How deeply arrays and objects nest. -/
def Json.depth : Json → Nat
  | .null | .bool _ | .num _ | .str _ => 0
  | .arr items => Json.depthItems items + 1
  | .obj entries => Json.depthEntries entries + 1

def Json.depthItems : List Json → Nat
  | [] => 0
  | j :: rest => max j.depth (Json.depthItems rest)

def Json.depthEntries : List (String × Json) → Nat
  | [] => 0
  | (_, j) :: rest => max j.depth (Json.depthEntries rest)

end

/-- `remaining_depth` of a parser, less the level that already fails. -/
def Json.recursionLimit : Nat := 127

/-- A JSON printer and parser. The parser reads back what the printer
wrote, unless it nests beyond the recursion limit. -/
structure JsonText where
  Bytes : Type
  toVec : Json → Bytes
  fromSlice : Bytes → Option Json
  fromSlice_toVec : ∀ j, fromSlice (toVec j)
    = if j.depth ≤ Json.recursionLimit then some j else none

/-- The text layer whose bytes are the documents themselves. -/
def JsonText.plain : JsonText where
  Bytes := Json
  toVec j := j
  fromSlice j := if j.depth ≤ Json.recursionLimit then some j else none
  fromSlice_toVec _ := rfl

-- ==== the encodings

/-- The derived encoding of a type. `missing` is the value of a field
that is not there. -/
class Serde (α : Type) where
  ser : α → Json
  de : Json → Option α
  missing : Option α := none

open Serde

/-- Reading undoes writing. -/
class RoundTrip (α : Type) [Serde α] : Prop where
  de_ser : ∀ a : α, de (ser a) = some a

attribute [simp] RoundTrip.de_ser

/-- No value is written as `null`. -/
class NonNull (α : Type) [Serde α] : Prop where
  ser_ne_null : ∀ a : α, ser a ≠ .null

section Scalars

instance : Serde Bool where
  ser b := .bool b
  de
    | .bool b => some b
    | _ => none

instance : RoundTrip Bool where
  de_ser _ := rfl

instance : Serde UInt64 where
  ser n := .num n
  de
    | .num n => some n
    | _ => none

instance : RoundTrip UInt64 where
  de_ser _ := rfl

instance : NonNull UInt64 where
  ser_ne_null _ h := by cases h

instance : Serde UInt32 where
  ser n := .num n.toUInt64
  de
    | .num n => if n.toNat < UInt32.size then some n.toUInt32 else none
    | _ => none

instance : RoundTrip UInt32 where
  de_ser n := by
    have hlt : n.toUInt64.toNat < UInt32.size := by
      rw [UInt32.toNat_toUInt64]
      exact n.toNat_lt
    show (if n.toUInt64.toNat < UInt32.size then some n.toUInt64.toUInt32
      else none) = some n
    rw [if_pos hlt, UInt32.toUInt32_toUInt64]

instance : NonNull UInt32 where
  ser_ne_null _ h := by cases h

instance : Serde String where
  ser s := .str s
  de
    | .str s => some s
    | _ => none

instance : RoundTrip String where
  de_ser _ := rfl

instance : NonNull String where
  ser_ne_null _ h := by cases h

end Scalars

-- ==== structs and enums

/-- The entries of an object. -/
abbrev Fields := List (String × Json)

/-- The values under a name. -/
def Fields.find (o : Fields) (name : String) : List Json :=
  (o.filter fun e => e.1 = name).map Prod.snd

@[simp] theorem Fields.find_nil (name : String) :
    Fields.find [] name = [] := rfl

@[simp] theorem Fields.find_cons (k name : String) (j : Json) (o : Fields) :
    Fields.find ((k, j) :: o) name
      = if k = name then j :: Fields.find o name else Fields.find o name := by
  by_cases h : k = name <;> simp [Fields.find, h]

/-- A struct as an object. -/
def deStruct {α : Type} (read : Fields → Option α) : Json → Option α
  | .obj o => read o
  | _ => none

@[simp] theorem deStruct_obj {α : Type} (read : Fields → Option α)
    (o : Fields) : deStruct read (.obj o) = read o := rfl

/-- Read what stands under a name, given what its absence means. -/
def readOnce {α : Type} [Serde α] (missing : Option α) :
    List Json → Option α
  | [] => missing
  | [j] => de j
  | _ => none

@[simp] theorem readOnce_one {α : Type} [Serde α] (missing : Option α)
    (j : Json) : readOnce missing [j] = de j := rfl

/-- A field. -/
def field {α : Type} [Serde α] (o : Fields) (name : String) :
    Option α :=
  readOnce missing (o.find name)

/-- A field with `#[serde(default)]`. -/
def fieldOr {α : Type} [Serde α] (o : Fields) (name : String)
    (default : α) : Option α :=
  readOnce (some default) (o.find name)

/-- An externally tagged enum: the names of the variants without
content, and the readers of the others. -/
def deVariant {α : Type} (units : List (String × α))
    (variants : List (String × (Json → Option α))) : Json → Option α
  | .str name => units.lookup name
  | .obj [(name, body)] => (variants.lookup name).bind (· body)
  | _ => none

-- ==== options

section Options

variable {α : Type} [Serde α]

instance : Serde (Option α) where
  ser
    | none => .null
    | some a => ser a
  de
    | .null => some none
    | j => (de j).map some
  missing := some none

theorem de_ser_some {a : α} (h : ser a ≠ .null) :
    (de (ser (some a)) : Option (Option α)) = (de (ser a)).map some := by
  show (match ser a with
    | .null => some none
    | j => (de j).map some) = _
  split
  · rename_i hnull
    exact absurd hnull h
  · rfl

/-- A present value comes back as whatever its content comes back as,
unless the content is written as `null`. -/
theorem de_ser_option [NonNull α] {f : α → α}
    (h : ∀ a, de (ser a) = some (f a)) (o : Option α) :
    de (ser o) = some (o.map f) := by
  cases o with
  | none => rfl
  | some a =>
    rw [de_ser_some (NonNull.ser_ne_null a), h]
    rfl

instance [RoundTrip α] [NonNull α] : RoundTrip (Option α) where
  de_ser o := by
    rw [de_ser_option (f := id) RoundTrip.de_ser, Option.map_id, id]

end Options

-- ==== lists and pairs

section Lists

variable {α β : Type} [Serde α] [Serde β]

instance : Serde (List α) where
  ser l := .arr (l.map ser)
  de
    | .arr items => items.mapM de
    | _ => none

instance [RoundTrip α] : RoundTrip (List α) where
  de_ser l := by
    show (l.map ser).mapM de = some l
    induction l with
    | nil => rfl
    | cons a l ih => simp [ih]

instance : Serde (α × β) where
  ser p := .arr [ser p.1, ser p.2]
  de
    | .arr [a, b] => do some (← de a, ← de b)
    | _ => none

instance [RoundTrip α] [RoundTrip β] : RoundTrip (α × β) where
  de_ser p := by
    show (do some (← de (ser p.1), ← de (ser p.2))) = some p
    simp

end Lists

-- ==== maps

/-- How a map key is written as an object key. -/
class SerdeKey (α : Type) where
  toKey : α → String
  ofKey : String → Option α
  ofKey_toKey : ∀ a, ofKey (toKey a) = some a

instance : SerdeKey String where
  toKey s := s
  ofKey s := some s
  ofKey_toKey _ := rfl

instance : SerdeKey UInt32 where
  toKey n := toString n.toNat
  ofKey s :=
    if canonicalDecimal s.toList then
      let n := Nat.ofDigitChars 10 s.toList 0
      if n < UInt32.size then some (UInt32.ofNat n) else none
    else none
  ofKey_toKey n := by
    rw [Nat.toString_eq_repr, Nat.toList_repr,
      if_pos (canonicalDecimal_toDigits _)]
    simp only [Nat.ofDigitChars_ten_toDigits]
    rw [if_pos n.toNat_lt, UInt32.ofNat_toNat]

section Maps

open Std

variable {α β : Type} [Ord α] [TransOrd α] [SerdeKey α] [Serde β]

/-- The entries inserted one after another, a later one winning. -/
def deEntries (m : BTreeMap α β) : List (String × Json) →
    Option (BTreeMap α β)
  | [] => some m
  | (k, j) :: rest => do
      let a ← SerdeKey.ofKey k
      let b ← de j
      deEntries (m.insert a b) rest

instance : Serde (BTreeMap α β) where
  ser m := .obj (m.toList.map fun e => (SerdeKey.toKey e.1, ser e.2))
  de
    | .obj entries => deEntries ∅ entries
    | _ => none

theorem deEntries_ser {f : β → β} (h : ∀ b, de (ser b) = some (f b))
    (m : BTreeMap α β) (entries : List (α × β)) :
    deEntries m (entries.map fun e => (SerdeKey.toKey e.1, ser e.2))
      = some (entries.foldl (fun m e => m.insert e.1 (f e.2)) m) := by
  induction entries generalizing m with
  | nil => rfl
  | cons e entries ih =>
    simp only [List.map_cons, deEntries, SerdeKey.ofKey_toKey, h,
      Option.bind_eq_bind, Option.bind_some, List.foldl_cons]
    exact ih _

variable [LawfulEqOrd α]

/-- A map comes back as its entries do. -/
theorem de_ser_map {f : β → β} (h : ∀ b : β, de (ser b) = some (f b))
    (m : BTreeMap α β) : de (ser m) = some (m.map fun _ b => f b) := by
  show deEntries ∅ (m.toList.map fun e => (SerdeKey.toKey e.1, ser e.2))
    = _
  rw [deEntries_ser h, ← BTreeMap.foldl_insert_toList (m.map _),
    ExtTreeMap.toList_map, List.foldl_map]

instance [RoundTrip β] : RoundTrip (BTreeMap α β) where
  de_ser m := by
    rw [de_ser_map (f := id) RoundTrip.de_ser]
    congr 1
    refine ExtTreeMap.ext_getElem? fun a => ?_
    rw [ExtTreeMap.getElem?_map]
    exact Option.map_id_apply

end Maps

end Tasty
