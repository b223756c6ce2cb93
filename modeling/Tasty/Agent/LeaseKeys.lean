/-
The keys of leases and of the counters of pools
(`crates/tasty-agent/src/lease.rs`). The bytes of a name and the separator
behind it are the letters of one prefix code, so that a key spells its
names in one way only.
-/
import Tasty.Agent.Lease
import Tasty.Terminal.Utf8Text

namespace Tasty.Agent

open List

/-- A byte of a name, or the separator. -/
def keyLetter : Option Char → List Char
  | none => ['_', '-']
  | some c => encodeKeyByte c

theorem hexDigit_inj : ∀ m < 16, ∀ n < 16,
    hexDigit m = hexDigit n → m = n := by decide

theorem hexDigit_isKeyChar : ∀ n < 16, isKeyChar (hexDigit n) = true
    ∧ hexDigit n ≠ '_' ∧ hexDigit n ≠ '-' := by decide

variable {s : Option Char}

theorem keyLetter_cases (hs : ∀ c ∈ s, c.toNat < 256) :
    (s = none ∧ keyLetter s = ['_', '-'])
    ∨ (s = some '_' ∧ keyLetter s = ['_', '_'])
    ∨ (∃ c, s = some c ∧ c ≠ '_' ∧ isKeyChar c = true ∧ keyLetter s = [c])
    ∨ ∃ c, ∃ m < 16, ∃ n < 16, s = some c ∧ c.toNat = 16 * m + n
        ∧ keyLetter s = ['_', hexDigit m, hexDigit n] := by
  cases s with
  | none => exact .inl ⟨rfl, rfl⟩
  | some c =>
    have hc := hs c rfl
    refine .inr ?_
    unfold keyLetter encodeKeyByte isKeyChar
    dsimp only
    split
    · exact .inl ⟨by simp [*], rfl⟩
    · split
      · rename_i hne hplain
        refine .inr (.inl ⟨c, rfl, hne, ?_, rfl⟩)
        simp only [Bool.or_eq_true, decide_eq_true_eq] at hplain ⊢
        tauto
      · exact .inr (.inr ⟨c, _, by omega, _, by omega, rfl, by omega, rfl⟩)

theorem keyLetter_prefixCode :
    PrefixCode keyLetter fun s => ∀ c ∈ s, c.toNat < 256 where
  nonempty s := by
    cases s with
    | none => simp [keyLetter]
    | some c =>
      unfold keyLetter encodeKeyByte
      dsimp only
      split
      · simp
      · split <;> simp
  unique a b xs ys ha hb heq := by
    have hdigit : ∀ m, m < 16 → hexDigit m ≠ '_' ∧ hexDigit m ≠ '-' :=
      fun m hm => (hexDigit_isKeyChar m hm).2
    rcases keyLetter_cases ha with ⟨rfl, h⟩ | ⟨rfl, h⟩ | ⟨c, rfl, hc, -, h⟩
      | ⟨c, m, hm, n, hn, rfl, hc, h⟩ <;>
    rcases keyLetter_cases hb with ⟨rfl, h'⟩ | ⟨rfl, h'⟩
      | ⟨d, rfl, hd, -, h'⟩ | ⟨d, k, hk, l, hl, rfl, hd, h'⟩ <;>
    simp only [h, h', cons_append, nil_append, List.cons.injEq] at heq
    case inr.inr.inr.inr.inr.inr =>
      obtain ⟨-, hmk, hnl, -⟩ := heq
      rw [← hexDigit_inj m hm k hk hmk, ← hexDigit_inj n hn l hl hnl, ← hc]
        at hd
      rw [Char.toNat_inj.1 hd]
    all_goals grind

/-- The letters of some names, with separators between them. -/
def keyLetters (names : List String) : List (Option Char) :=
  [none].intercalate (names.map fun name => (byteChars name).map some)

theorem keyLetters_cons_cons (a b : String) (names : List String) :
    keyLetters (a :: b :: names)
      = (byteChars a).map some ++ [none] ++ keyLetters (b :: names) :=
  intercalate_cons_cons

theorem toList_encodeKeyComponent (name : String) :
    (encodeKeyComponent name).toList
      = ((byteChars name).map some).flatMap keyLetter := by
  rw [encodeKeyComponent, String.toList_ofList, flatMap_map]
  rfl

variable (names : List String)

theorem toList_intercalate_encode :
    (POOL_KEY_SEPARATOR.intercalate (names.map encodeKeyComponent)).toList
      = (keyLetters names).flatMap keyLetter := by
  induction names with
  | nil => rfl
  | cons a names ih =>
    cases names with
    | nil => simp [keyLetters, toList_encodeKeyComponent]
    | cons b names =>
      have hsep : POOL_KEY_SEPARATOR.toList = [none].flatMap keyLetter := rfl
      rw [map_cons] at ih
      rw [map_cons, map_cons, String.intercalate_cons_cons,
        keyLetters_cons_cons, String.toList_append, String.toList_append, ih,
        hsep, toList_encodeKeyComponent, flatMap_append, flatMap_append]

theorem toList_loop (bytes : ByteArray) (i : Nat) (r : List UInt8) :
    ByteArray.toList.loop bytes i r
      = r.reverse ++ bytes.data.toList.drop i := by
  fun_induction ByteArray.toList.loop bytes i r with
  | case1 i r hi ih =>
    have hget : bytes.get! i = bytes.data.toList[i] := by
      simp [ByteArray.get!, getElem!_pos bytes.data i hi]
    rw [ih, hget, reverse_cons, append_assoc, singleton_append,
      getElem_cons_drop]
  | case2 i r hi =>
    rw [drop_eq_nil_of_le (Nat.le_of_not_lt hi), append_nil]

theorem byteChars_eq (s : String) :
    byteChars s = (Terminal.Utf8.bytes s).map fun b => Char.ofNat b.toNat := by
  rw [byteChars, ByteArray.toList, toList_loop]
  rfl

theorem toNat_byteChar (b : UInt8) : (Char.ofNat b.toNat).toNat = b.toNat := by
  have hb := b.toNat_lt
  rw [Char.ofNat, dif_pos (Or.inl (by omega))]
  rfl

theorem keyLetters_lt : ∀ s ∈ keyLetters names, ∀ c ∈ s, c.toNat < 256 := by
  have hname : ∀ name, ∀ s ∈ (byteChars name).map some, ∀ c ∈ s,
      c.toNat < 256 := by
    intro name s hs c hc
    obtain ⟨d, hd, rfl⟩ := mem_map.1 hs
    obtain ⟨b, -, rfl⟩ := mem_map.1 hd
    rw [← Option.some.inj hc, toNat_byteChar]
    exact b.toNat_lt
  induction names with
  | nil => exact fun s hs => absurd hs not_mem_nil
  | cons a names ih =>
    cases names with
    | nil => simpa [keyLetters] using hname a
    | cons b names =>
      rw [keyLetters_cons_cons, forall_mem_append, forall_mem_append]
      exact ⟨⟨hname a, by simp⟩, ih⟩

theorem byteChars_inj {a b : String} (h : byteChars a = byteChars b) :
    a = b := by
  rw [byteChars_eq, byteChars_eq] at h
  have hbytes := map_injective_iff.2 (fun b c hbc => ?_) h
  · exact String.toByteArray_inj.1
      (ByteArray.ext (Array.toList_inj.1 hbytes))
  · have hnat := congrArg Char.toNat hbc
    rw [toNat_byteChar, toNat_byteChar] at hnat
    exact UInt8.toNat_inj.1 hnat

theorem keyLetters_inj {p q : List String} (hp : p ≠ []) (hq : q ≠ [])
    (h : keyLetters p = keyLetters q) : p = q := by
  have hsplit : ∀ names : List String, names ≠ [] →
      (keyLetters names).splitOn none
        = names.map fun name => (byteChars name).map some := by
    intro names hne
    refine splitOn_intercalate none ?_ (by simpa using hne)
    simp
  have hmap := (hsplit p hp).symm.trans (h ▸ hsplit q hq)
  refine map_injective_iff.2 (fun a b hab => byteChars_inj ?_) hmap
  exact map_injective_iff.2 (Option.some_injective _) hab

theorem toNat_lt_of_isKeyChar {c : Char} (h : isKeyChar c = true) :
    c.toNat < 128 := by
  simp only [isKeyChar, Bool.or_eq_true, decide_eq_true_eq] at h
  rcases h with (((h | h) | rfl) | rfl) | rfl
  · have h := of_decide_eq_true (Bool.and_eq_true_iff.1 h).2
    exact Nat.lt_of_le_of_lt (UInt32.le_iff_toNat_le.1 h) (by decide)
  · have h := of_decide_eq_true (Bool.and_eq_true_iff.1 h).2
    exact Nat.lt_of_le_of_lt (UInt32.le_iff_toNat_le.1 h) (by decide)
  all_goals decide

theorem byteChars_of_isKeyChar {s : String}
    (h : ∀ c ∈ s.toList, isKeyChar c = true) : byteChars s = s.toList := by
  have hchar : ∀ n < 128, (String.utf8EncodeChar (Char.ofNat n)).map
      (fun b => Char.ofNat b.toNat) = [Char.ofNat n] := by decide
  rw [byteChars_eq, Terminal.Utf8.bytes_eq, map_flatMap]
  conv_rhs => rw [← flatMap_singleton' s.toList]
  refine flatMap_congr fun c hc => ?_
  have hc := hchar c.toNat (toNat_lt_of_isKeyChar (h c hc))
  rwa [Char.ofNat_toNat] at hc

theorem isKeyChar_letters :
    ∀ c ∈ (keyLetters names).flatMap keyLetter, isKeyChar c = true := by
  intro c hc
  obtain ⟨s, hs, hc⟩ := mem_flatMap.1 hc
  rcases keyLetter_cases (keyLetters_lt names s hs) with ⟨-, h⟩ | ⟨-, h⟩
    | ⟨d, -, -, hd, h⟩ | ⟨d, m, hm, n, hn, -, -, h⟩ <;>
  rw [h] at hc
  · have hall : ['_', '-'].all isKeyChar = true := by decide
    exact all_eq_true.1 hall c hc
  · have hall : ['_', '_'].all isKeyChar = true := by decide
    exact all_eq_true.1 hall c hc
  · rwa [mem_singleton.1 hc]
  · have hm' := (hexDigit_isKeyChar m hm).1
    have hn' := (hexDigit_isKeyChar n hn).1
    simp only [mem_cons, not_mem_nil, or_false] at hc
    rcases hc with rfl | rfl | rfl
    · decide
    · exact hm'
    · exact hn'

theorem lease_keys_injective :
    Function.Injective leaseKey
    ∧ Set.InjOn poolCounterKey {candidates | candidates ≠ []}
    ∧ (∀ resource, ∀ c ∈ byteChars (leaseKey resource), isKeyChar c = true)
    ∧ ∀ candidates, ∀ c ∈ byteChars (poolCounterKey candidates),
        isKeyChar c = true := by
  have hspells : ∀ p q : List String,
      (keyLetters p).flatMap keyLetter = (keyLetters q).flatMap keyLetter →
        keyLetters p = keyLetters q := fun p q =>
    keyLetter_prefixCode.flatMap_inj (keyLetters_lt p) (keyLetters_lt q)
  have hpool : ∀ candidates, (poolCounterKey candidates).toList
      = LEASE_POOL_COUNTER_KEY_PREFIX.toList
        ++ (keyLetters candidates).flatMap keyLetter := by
    intro candidates
    rw [poolCounterKey, String.toList_append, toList_intercalate_encode]
  have hlease : ∀ resource, (leaseKey resource).toList
      = LEASE_KEY_PREFIX.toList
        ++ (keyLetters [resource]).flatMap keyLetter := by
    intro resource
    rw [leaseKey, String.toList_append, toList_encodeKeyComponent, keyLetters,
      List.map_singleton, List.intercalate_singleton]
  have hkeys : ∀ s : String, (∀ c ∈ s.toList, isKeyChar c = true) →
      ∀ c ∈ byteChars s, isKeyChar c = true := fun s hs =>
    (byteChars_of_isKeyChar hs).symm ▸ hs
  refine ⟨fun a b hab => ?_, fun p hp q hq hpq => ?_, fun a c hc => ?_,
    fun p c hc => ?_⟩
  · have hlist := congrArg String.toList hab
    rw [hlease, hlease] at hlist
    have hone := keyLetters_inj (by simp) (by simp)
      (hspells [a] [b] (List.append_cancel_left hlist))
    exact List.singleton_inj.1 hone
  · have hlist := congrArg String.toList hpq
    rw [hpool, hpool] at hlist
    exact keyLetters_inj hp hq (hspells p q (List.append_cancel_left hlist))
  · refine hkeys _ ?_ c hc
    rw [hlease, List.forall_mem_append]
    exact ⟨List.all_eq_true.1 (by decide), isKeyChar_letters [a]⟩
  · refine hkeys _ ?_ c hc
    rw [hpool, List.forall_mem_append]
    exact ⟨List.all_eq_true.1 (by decide), isKeyChar_letters p⟩

end Tasty.Agent
