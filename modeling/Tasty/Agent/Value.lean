/-
Untyped JSON as the task crate holds it (`serde_json::Value`): integer
tokens kept exactly, objects as ordered maps, and the compact text whose
length the size limits measure.
-/
import Tasty.Lib.Entries
import Tasty.Lib.Float64

namespace Tasty.Agent

/-- `serde_json::Number`: unsigned and negative integer tokens, and
doubles. -/
inductive Number where
  | posInt (n : UInt64)
  | negInt (n : Int64)
  | float (f : F64)
  deriving DecidableEq

namespace Number

/-- `as_i64`. -/
def asI64 : Number → Option Int64
  | posInt n => if n.toNat < 2 ^ 63 then some n.toInt64 else none
  | negInt n => some n
  | float _ => none

/-- `is_u64`. -/
def isU64 : Number → Bool
  | posInt _ => true
  | _ => false

/-- `is_f64`. -/
def isF64 : Number → Bool
  | float _ => true
  | _ => false

/-- `Number::from(i64)`. -/
def ofI64 (i : Int64) : Number :=
  if 0 ≤ i then posInt i.toUInt64 else negInt i

theorem asI64_ofI64 (i : Int64) : (ofI64 i).asI64 = some i := by
  unfold ofI64
  split
  · rename_i h
    have hint : (0 : Int) ≤ i.toInt := Int64.le_iff_toInt_le.1 h
    have hlt : i.toUInt64.toNat < 2 ^ 63 := by
      have := i.toInt_lt
      have hbv := i.toBitVec.isLt
      have hval : i.toInt = i.toBitVec.toInt := rfl
      rw [hval, BitVec.toInt_eq_toNat_cond] at hint
      show i.toBitVec.toNat < 2 ^ 63
      split at hint <;> omega
    show (if i.toUInt64.toNat < 2 ^ 63 then some i.toUInt64.toInt64
      else none) = some i
    rw [if_pos hlt]
    rfl
  · rfl

end Number

inductive Value where
  | null
  | bool (b : Bool)
  | number (n : Number)
  | string (s : String)
  | array (items : List Value)
  | object (entries : List (String × Value))

namespace Value

/-- `Value::from(i64)`. -/
def ofI64 (i : Int64) : Value := .number (.ofI64 i)

def isNull : Value → Bool
  | null => true
  | _ => false

-- ==== its depth

mutual

/-- `json_depth`: a scalar and an empty container have depth one. -/
def depth : Value → Nat
  | array items => depthItems items + 1
  | object entries => depthEntries entries + 1
  | null | bool _ | number _ | string _ => 1

def depthItems : List Value → Nat
  | [] => 0
  | v :: rest => max v.depth (depthItems rest)

def depthEntries : List (String × Value) → Nat
  | [] => 0
  | (_, v) :: rest => max v.depth (depthEntries rest)

end

theorem depthItems_le {items : List Value} {n : Nat} :
    depthItems items ≤ n ↔ ∀ v ∈ items, v.depth ≤ n := by
  induction items with
  | nil => simp [depthItems]
  | cons v items ih => simp [depthItems, ih]

theorem depthEntries_le {entries : List (String × Value)} {n : Nat} :
    depthEntries entries ≤ n ↔ ∀ e ∈ entries, e.2.depth ≤ n := by
  induction entries with
  | nil => simp [depthEntries]
  | cons e entries ih =>
    obtain ⟨k, v⟩ := e
    simp [depthEntries, ih]

/-- To prove something of every value, prove it of a container from its
content. -/
theorem content_induction {P : Value → Prop} (hnull : P null)
    (hbool : ∀ b, P (bool b)) (hnumber : ∀ n, P (number n))
    (hstring : ∀ s, P (string s))
    (harray : ∀ items, (∀ v ∈ items, P v) → P (array items))
    (hobject : ∀ entries, (∀ e ∈ entries, P e.2) → P (object entries))
    (v : Value) : P v := by
  induction h : v.depth using Nat.strongRecOn generalizing v with
  | ind n ih =>
    subst h
    cases v with
    | null => exact hnull
    | bool b => exact hbool b
    | number n => exact hnumber n
    | string s => exact hstring s
    | array items =>
      refine harray items fun v hv => ih _ ?_ v rfl
      exact Nat.lt_succ_of_le (depthItems_le.1 (Nat.le_refl _) v hv)
    | object entries =>
      refine hobject entries fun e he => ih _ ?_ e.2 rfl
      exact Nat.lt_succ_of_le (depthEntries_le.1 (Nat.le_refl _) e he)

-- ==== its text

section Text

/-- A lowercase hexadecimal digit. -/
def hexDigit (n : Nat) : Char := Nat.digitChar n

/-- One character of a JSON string. -/
def escapeChar (c : Char) : List Char :=
  if c = '"' then ['\\', '"']
  else if c = '\\' then ['\\', '\\']
  else if c.toNat = 0x8 then ['\\', 'b']
  else if c.toNat = 0xC then ['\\', 'f']
  else if c = '\n' then ['\\', 'n']
  else if c = '\r' then ['\\', 'r']
  else if c = '\t' then ['\\', 't']
  else if c.toNat < 0x20 then
    ['\\', 'u', '0', '0', hexDigit (c.toNat / 16), hexDigit (c.toNat % 16)]
  else [c]

def stringText (s : String) : String :=
  String.ofList ('"' :: s.toList.flatMap escapeChar ++ ['"'])

variable [F64Text]

def numberText : Number → String
  | .posInt n => toString n.toNat
  | .negInt n => toString n.toInt
  | .float f => F64Text.json f

mutual

/-- The compact text of a value. -/
def text : Value → String
  | null => "null"
  | bool b => if b then "true" else "false"
  | number n => numberText n
  | string s => stringText s
  | array items => "[" ++ String.intercalate "," (textItems items) ++ "]"
  | object entries =>
    String.ofList [Char.ofNat 0x7b]
      ++ String.intercalate "," (textEntries entries)
      ++ String.ofList [Char.ofNat 0x7d]

def textItems : List Value → List String
  | [] => []
  | v :: rest => v.text :: textItems rest

def textEntries : List (String × Value) → List String
  | [] => []
  | (k, v) :: rest =>
    (stringText k ++ ":" ++ v.text) :: textEntries rest

end

/-- `serde_json::to_vec(value).len()`. -/
def size (v : Value) : Nat := v.text.utf8ByteSize

/-- The kind of a value and a short form of it, for errors
(`describe_value`). -/
def describe (v : Value) : String :=
  let short (kind : String) : String :=
    let chars := v.text.toList
    if 64 < chars.length then
      kind ++ " " ++ String.ofList (chars.take 64) ++ "…"
    else kind ++ " " ++ v.text
  match v with
  | null => "null"
  | bool b => "boolean " ++ (if b then "true" else "false")
  | number n => short (if n.isF64 then "float" else "integer")
  | string _ => short "string"
  | array items => s!"array(len {items.length})"
  | object _ => "object"

end Text

end Value

end Tasty.Agent
