/-
The wire form of typed values (`crates/tasty-agent/src/task/types/value.rs`):
the decimal text of an int64 is read back as the integer, and the typed
form of a validated value is what both of its JSON forms are read as.
-/
import Tasty.Lib.Texts
import Tasty.Agent.TypedValue

namespace Tasty.Agent

-- ==== decimal text

/-- Digits without a leading zero, as `isCanonicalInt` looks at them. -/
theorem canonical_toDigits (n : Nat) :
    (!(Nat.toDigits 10 n).isEmpty && (Nat.toDigits 10 n).all Char.isDigit
      && (decide (Nat.toDigits 10 n = ['0'])
        || decide ((Nat.toDigits 10 n).head? ≠ some '0'))) = true := by
  have hcanonical := canonicalDecimal_toDigits n
  unfold canonicalDecimal at hcanonical
  rcases Nat.eq_zero_or_pos n with rfl | hpos
  · decide
  · have hhead := head?_toDigits hpos
    simp_all

theorem head?_toDigits_ne_minus (n : Nat) :
    (Nat.toDigits 10 n).head? ≠ some '-' := by
  intro h
  have hmem : '-' ∈ Nat.toDigits 10 n := List.mem_of_mem_head? h
  have hdigit := Nat.isDigit_of_mem_toDigits (by decide) (by decide) hmem
  revert hdigit
  decide

theorem toList_toString (i : Int) : (toString i).toList
    = if i < 0 then '-' :: Nat.toDigits 10 i.natAbs
      else Nat.toDigits 10 i.natAbs := by
  rw [Int.toString_eq_repr]
  cases i with
  | ofNat n =>
    have hpos : ¬(Int.ofNat n < 0) := Int.not_lt.2 (Int.natCast_nonneg n)
    rw [if_neg hpos]
    exact Nat.toList_repr
  | negSucc n =>
    rw [if_pos (by omega)]
    show (String.toList ("-" ++ Nat.repr (n + 1))) = _
    rw [String.toList_append, Nat.toList_repr]
    rfl

/-- The text of an integer is canonical. -/
theorem isCanonicalInt_toString (i : Int) :
    isCanonicalInt (toString i) = true := by
  have hdigits := canonical_toDigits i.natAbs
  have hlist := toList_toString i
  have hzero : toString i ≠ "-0" := by
    intro h
    rw [h] at hlist
    split at hlist
    · rename_i hneg
      have hone : Nat.toDigits 10 i.natAbs = ['0'] :=
        (List.cons.inj hlist).2.symm
      have habs : i.natAbs = Nat.ofDigitChars 10 ['0'] 0 := by
        rw [← hone, Nat.ofDigitChars_ten_toDigits]
      have habs : i.natAbs = 0 := habs
      omega
    · refine head?_toDigits_ne_minus i.natAbs ?_
      rw [← hlist]
      rfl
  unfold isCanonicalInt
  rw [hlist, decide_eq_true hzero, Bool.and_true]
  by_cases hneg : i < 0
  · rw [if_pos hneg]
    exact hdigits
  · rw [if_neg hneg]
    split
    · rename_i rest hrest
      exact (head?_toDigits_ne_minus _ (by rw [hrest]; rfl)).elim
    · exact hdigits

theorem decimal_toString (i : Int) : decimal (toString i) = i := by
  have hvalue : (Nat.toDigits 10 i.natAbs).foldl
      (fun n c => 10 * n + (c.toNat - '0'.toNat)) 0 = i.natAbs :=
    Nat.ofDigitChars_ten_toDigits
  unfold decimal
  rw [toList_toString i]
  by_cases hneg : i < 0
  · rw [if_pos hneg]
    show -(((Nat.toDigits 10 i.natAbs).foldl
      (fun n c => 10 * n + (c.toNat - '0'.toNat)) 0 : Nat) : Int) = i
    rw [hvalue]
    omega
  · rw [if_neg hneg]
    split
    · rename_i rest hrest
      exact (head?_toDigits_ne_minus _ (by rw [hrest]; rfl)).elim
    · dsimp only
      rw [hvalue]
      omega

variable [F64Text]

/-- An int64 is read back from its wire form. -/
theorem int64Of_toString (i : Int64) :
    int64Of (.string (toString i.toInt)) = .ok i := by
  have hlow := i.le_toInt
  have hhigh := i.toInt_lt
  unfold int64Of
  dsimp only
  rw [if_pos (isCanonicalInt_toString _)]
  unfold parseI64
  dsimp only
  rw [decimal_toString, if_pos ⟨by omega, by omega⟩]
  dsimp only
  rw [Int64.ofInt_toInt]

-- ==== read back

section ReadBack

variable {defs : TypeDefs}

/-- The typed form is what its wire form is read as. -/
def WireReadBack (defs : TypeDefs) (schema : TypeSchema)
    (t : TypedValue) : Prop :=
  ∀ path, defs.typedAt schema path t.toWire = .ok t

variable {schema : TypeSchema} {path : String} {v : Value}

theorem typedScalar_toWire {t : TypedValue} {r : ResolvedSchema}
    (hr : defs.resolve schema = .ok r) (hv : v.isNull = false)
    (h : typedScalar schema path v r.kind = .ok t) :
    WireReadBack defs schema t := by
  intro path'
  have hread {w : Value} (hw : w.isNull = false)
      (hscalar : typedScalar schema path' w r.kind = .ok t)
      (hlist : ∀ items maxLen, r.kind ≠ .list items maxLen)
      (hobject : ∀ fields, r.kind ≠ .object fields) :
      defs.typedAt schema path' w = .ok t := by
    cases w with
    | null => cases hw
    | bool b | number n | string s =>
      exact bind_eq_ok.2 ⟨r, hr, hscalar⟩
    | array arr =>
      refine bind_eq_ok.2 ⟨r, hr, ?_⟩
      split
      · rename_i items maxLen hk
        exact (hlist _ _ hk).elim
      · exact hscalar
    | object map =>
      refine bind_eq_ok.2 ⟨r, hr, ?_⟩
      split
      · rename_i fields hk
        exact (hobject _ hk).elim
      · exact hscalar
  have hplain (hlist : ∀ items maxLen, r.kind ≠ .list items maxLen)
      (hobject : ∀ fields, r.kind ≠ .object fields)
      (hsame : typedScalar schema path' v r.kind = .ok t)
      (hwire : t.toWire = v) :
      defs.typedAt schema path' t.toWire = .ok t := by
    rw [hwire]
    exact hread hv hsame hlist hobject
  cases hk : r.kind with
  | int64 =>
    rw [hk] at h
    unfold typedScalar at h
    dsimp only at h
    split at h
    · rename_i i hi
      cases h
      refine hread rfl ?_ (by simp [hk]) (by simp [hk])
      have hof := int64Of_toString i
      rw [hk]
      unfold typedScalar TypedValue.toWire
      rw [hof]
    · cases h
  | json =>
    rw [hk] at h
    cases h
    exact hplain (by simp [hk]) (by simp [hk]) (by rw [hk]; rfl) rfl
  | boolean =>
    rw [hk] at h
    cases v with
    | bool b =>
      cases h
      exact hplain (by simp [hk]) (by simp [hk]) (by rw [hk]; rfl) rfl
    | _ => cases h
  | float64 min max =>
    rw [hk] at h
    cases v with
    | number n =>
      cases h
      exact hplain (by simp [hk]) (by simp [hk]) (by rw [hk]; rfl) rfl
    | _ => cases h
  | string maxLen | «enum» values =>
    rw [hk] at h
    cases v with
    | string s =>
      cases h
      exact hplain (by simp [hk]) (by simp [hk]) (by rw [hk]; rfl) rfl
    | _ => cases h
  | list items maxLen | object fields | unit | ref name =>
    rw [hk] at h
    cases v <;> cases h

theorem typedItems_toWire {items : TypeSchema} {i : Nat} {arr : List Value}
    {out : List TypedValue}
    (ih : ∀ v ∈ arr, ∀ path t, defs.typedAt items path v = .ok t →
      WireReadBack defs items t)
    (h : defs.typedItems items path i arr = .ok out) (path' : String)
    (i' : Nat) :
    defs.typedItems items path' i' (TypedValue.toWireItems out)
      = .ok out := by
  induction arr generalizing i out i' with
  | nil =>
    cases h
    rfl
  | cons v arr hrest =>
    obtain ⟨hv, ih⟩ := List.forall_mem_cons.1 ih
    obtain ⟨t, ht, h⟩ := bind_ok h
    obtain ⟨out, hout, h⟩ := bind_ok h
    cases h
    exact bind_eq_ok.2 ⟨t, hv _ _ ht _, bind_eq_ok.2
      ⟨out, hrest ih hout (i' + 1), rfl⟩⟩

theorem typedFields_toWire {fields : List (String × FieldSchema)}
    {map : List (String × Value)} {out : List (String × TypedValue)}
    (ih : ∀ e ∈ map, ∀ schema path t, defs.typedAt schema path e.2 = .ok t →
      WireReadBack defs schema t)
    (h : defs.typedFields fields path map = .ok out) (path' : String) :
    defs.typedFields fields path' (TypedValue.toWireFields out)
      = .ok out := by
  induction map generalizing out with
  | nil =>
    cases h
    rfl
  | cons e map hrest =>
    obtain ⟨name, v⟩ := e
    obtain ⟨hv, ih⟩ := List.forall_mem_cons.1 ih
    unfold TypeDefs.typedFields at h
    cases hget : Entries.get fields name with
    | some field =>
      dsimp only at h
      rw [hget] at h
      obtain ⟨_, hfield, h⟩ := bind_ok h
      cases hfield
      obtain ⟨t, ht, h⟩ := bind_ok h
      obtain ⟨out, hout, h⟩ := bind_ok h
      cases h
      unfold TypedValue.toWireFields TypeDefs.typedFields
      rw [hget]
      exact bind_eq_ok.2 ⟨field, rfl, bind_eq_ok.2
        ⟨t, hv _ _ _ ht _, bind_eq_ok.2 ⟨out, hrest ih hout, rfl⟩⟩⟩
    | none =>
      dsimp only at h
      rw [hget] at h
      cases h

theorem typedAt_toWire {t : TypedValue}
    (h : defs.typedAt schema path v = .ok t) : WireReadBack defs schema t := by
  induction v using Value.content_induction generalizing schema path t with
  | hnull =>
    cases h
    exact fun _ => rfl
  | hbool b | hnumber n | hstring s =>
    obtain ⟨r, hr, h⟩ := bind_ok h
    exact typedScalar_toWire hr rfl h
  | harray arr ih =>
    obtain ⟨r, hr, h⟩ := bind_ok h
    split at h
    · rename_i items maxLen hk
      obtain ⟨out, hout, h⟩ := bind_ok h
      cases h
      intro path'
      refine bind_eq_ok.2 ⟨r, hr, ?_⟩
      rw [hk]
      exact bind_eq_ok.2 ⟨out,
        typedItems_toWire (fun v hv _ _ => ih v hv) hout _ _, rfl⟩
    · exact typedScalar_toWire hr rfl h
  | hobject map ih =>
    obtain ⟨r, hr, h⟩ := bind_ok h
    split at h
    · rename_i fields hk
      obtain ⟨out, hout, h⟩ := bind_ok h
      cases h
      intro path'
      refine bind_eq_ok.2 ⟨r, hr, ?_⟩
      rw [hk]
      exact bind_eq_ok.2 ⟨out,
        typedFields_toWire (fun e he _ _ _ => ih e he) hout _, rfl⟩
    · exact typedScalar_toWire hr rfl h

theorem Validates.typedValue {left : Nat} {w : Value}
    (h : Validates defs left schema v w) :
    ∃ t, defs.typedValue schema w = .ok t
      ∧ defs.typedValue schema t.toWire = .ok t
      ∧ defs.typedValue schema t.toInternal = .ok t ∧ t.toInternal = w := by
  obtain ⟨t, ht, hback⟩ := h.typedAs ""
  exact ⟨t, ht, typedAt_toWire ht "", hback ▸ ht, hback⟩

end ReadBack

end Tasty.Agent
