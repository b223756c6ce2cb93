/-
Text in UTF-8: the bytes of texts one after another, and what is read of
them when they are cut.
-/
import Mathlib.Data.List.TakeWhile
import Tasty.Terminal.ScrollbackLine

namespace Tasty.Terminal

open UInt8 List

-- ==== its bytes

theorem Utf8.bytes_eq (s : String) :
    Utf8.bytes s = s.toList.flatMap String.utf8EncodeChar := by
  unfold Utf8.bytes
  rw [← String.utf8Encode_toList, List.utf8Encode, toList_data_toByteArray]

theorem Utf8.bytes_append (s t : String) :
    Utf8.bytes (s ++ t) = Utf8.bytes s ++ Utf8.bytes t := by
  rw [Utf8.bytes_eq, Utf8.bytes_eq, Utf8.bytes_eq, String.toList_append,
    flatMap_append]

/-- Bytes that are text from the first to the last. -/
def IsText (bytes : List UInt8) : Prop := ∃ s : String, Utf8.bytes s = bytes

variable (chars : List Char)

theorem isText_flatMap : IsText (chars.flatMap String.utf8EncodeChar) :=
  ⟨String.ofList chars, by rw [Utf8.bytes_eq, String.toList_ofList]⟩

variable {a b : List UInt8}

theorem IsText.append (ha : IsText a) (hb : IsText b) : IsText (a ++ b) := by
  obtain ⟨s, rfl⟩ := ha
  obtain ⟨t, rfl⟩ := hb
  exact ⟨s ++ t, Utf8.bytes_append s t⟩

theorem IsText.exists_rest {chars : List Char} (ha : IsText a)
    (h : a ++ b <+: chars.flatMap String.utf8EncodeChar) :
    ∃ after : List Char, b <+: after.flatMap String.utf8EncodeChar
      ∧ chars.flatMap String.utf8EncodeChar
        = a ++ after.flatMap String.utf8EncodeChar := by
  obtain ⟨s, rfl⟩ := ha
  obtain ⟨more, hmore⟩ := h
  rw [Utf8.bytes_eq, append_assoc] at hmore
  obtain ⟨after, rfl⟩ := isPrefix_of_utf8Encode_append_eq_utf8Encode
    (l := s.toList) (m := chars) (b ++ more).toByteArray (by
      rw [List.utf8Encode, List.utf8Encode, ← toByteArray_append, hmore])
  rw [flatMap_append] at hmore ⊢
  exact ⟨after, ⟨more, append_cancel_left hmore⟩,
    by rw [Utf8.bytes_eq]⟩

theorem IsText.of_append (ha : IsText a) (h : IsText (a ++ b)) : IsText b := by
  obtain ⟨s, hs⟩ := h
  rw [Utf8.bytes_eq] at hs
  have hpre : a ++ b <+: s.toList.flatMap String.utf8EncodeChar := by
    exact hs ▸ prefix_refl _
  obtain ⟨after, -, hafter⟩ := ha.exists_rest hpre
  rw [hs] at hafter
  exact append_cancel_left hafter ▸ isText_flatMap after

-- ==== a character

namespace Utf8

theorem width_one : ∀ n < 128, width (ofNat n) = 1 := by decide

theorem width_two : ∀ n < 32, 2 ≤ n → width (ofNat (n + 0xC0)) = 2 := by decide

theorem width_three : ∀ n < 16, width (ofNat (n + 0xE0)) = 3 := by
  decide

theorem width_four : ∀ n < 5, width (ofNat (n + 0xF0)) = 4 := by
  decide

theorem isContinuation_ofNat : ∀ n < 64,
    isContinuation (ofNat (n + 0x80)) = true := by decide

theorem isSecond_two : ∀ n < 32, ∀ m < 64,
    isSecond (ofNat (n + 0xC0)) (ofNat (m + 0x80)) = true := by
  decide +kernel

/-- Three bytes hold neither what two hold nor a half of a pair. -/
theorem isSecond_three : ∀ n < 16, ∀ m < 64, (n = 0 → 32 ≤ m) →
    (n = 13 → m < 32) →
    isSecond (ofNat (n + 0xE0)) (ofNat (m + 0x80)) = true := by
  decide +kernel

/-- Four bytes hold neither what three hold nor more than there are
characters. -/
theorem isSecond_four : ∀ n < 5, ∀ m < 64, (n = 0 → 16 ≤ m) →
    (n = 4 → m < 16) →
    isSecond (ofNat (n + 0xF0)) (ofNat (m + 0x80)) = true := by
  decide +kernel

/-- A character takes all of its bytes. -/
theorem following_append {first : UInt8} {rest : List UInt8}
    (hwidth : width first = rest.length + 1)
    (hsecond : ∀ b ∈ rest.head?, isSecond first b = true)
    (hmore : ∀ b ∈ rest.tail, isContinuation b = true)
    (more : List UInt8) : following first (rest ++ more) = rest.length := by
  unfold following
  rw [hwidth, Nat.add_sub_cancel, take_left,
    takeWhile_eq_self_iff.2, length_zipIdx]
  rintro ⟨b, i⟩ hb
  have hat : rest[i]? = some b := mem_zipIdx_iff_getElem?.1 hb
  cases i with
  | zero => exact hsecond b (List.head?_eq_getElem?.trans hat)
  | succ i =>
    refine hmore b (mem_of_getElem? (i := i) ?_)
    rw [getElem?_tail, hat]

theorem lossyChars_append {first : UInt8} {rest : List UInt8} {c : Char}
    (hwidth : width first = rest.length + 1)
    (hsecond : ∀ b ∈ rest.head?, isSecond first b = true)
    (hmore : ∀ b ∈ rest.tail, isContinuation b = true)
    (hdecode : decode first rest = c) (more : List UInt8) (n : Nat) :
    lossyChars (n + 1) (first :: rest ++ more) = c :: lossyChars n more := by
  rw [cons_append, lossyChars, following_append hwidth hsecond hmore more,
    if_pos hwidth, take_left, drop_left, hdecode]

/-- A character is read back. -/
theorem lossyChars_char (c : Char) (more : List UInt8) (n : Nat) :
    lossyChars (n + 1) (String.utf8EncodeChar c ++ more)
      = c :: lossyChars n more := by
  have hv : c.val.toNat < 0xD800 ∨ 0xDFFF < c.val.toNat
      ∧ c.val.toNat < 0x110000 := c.valid
  have hc : Char.ofNat c.val.toNat = c := Char.ofNat_toNat c
  unfold String.utf8EncodeChar
  generalize c.val.toNat = v at hv hc
  have hlow : v % 64 < 64 := Nat.mod_lt v (by decide)
  have hmid : v / 64 % 64 < 64 := Nat.mod_lt _ (by decide)
  have hhigh : v / 4096 % 64 < 64 := Nat.mod_lt _ (by decide)
  have hcont {m : Nat} (hm : m < 64) := isContinuation_ofNat m hm
  subst hc
  dsimp only
  split
  · rename_i h
    apply lossyChars_append
    · exact width_one v (by omega)
    · nofun
    · nofun
    · simp only [decode, length_nil, foldl_nil, toNat_ofNat']
      congr 1
      omega
  split
  · apply lossyChars_append
    · exact width_two _ (Nat.mod_lt _ (by decide)) (by omega)
    · intro b hb
      cases hb
      exact isSecond_two _ (Nat.mod_lt _ (by decide)) _ hlow
    · nofun
    · simp only [decode, length_cons, length_nil, foldl_cons,
        foldl_nil, toNat_ofNat']
      congr 1
      omega
  split
  · apply lossyChars_append
    · exact width_three _ (Nat.mod_lt _ (by decide))
    · intro b hb
      cases hb
      exact isSecond_three _ (Nat.mod_lt _ (by decide)) _ hmid
        (by omega) (by omega)
    · exact forall_mem_cons.2 ⟨hcont hlow, nofun⟩
    · simp only [decode, length_cons, length_nil, foldl_cons,
        foldl_nil, toNat_ofNat']
      congr 1
      omega
  · apply lossyChars_append
    · exact width_four _ (by omega)
    · intro b hb
      cases hb
      exact isSecond_four _ (by omega) _ hhigh (by omega) (by omega)
    · exact forall_mem_cons.2 ⟨hcont hmid,
        forall_mem_cons.2 ⟨hcont hlow, nofun⟩⟩
    · simp only [decode, length_cons, length_nil, foldl_cons,
        foldl_nil, toNat_ofNat']
      congr 1
      omega

-- ==== cut text

theorem lossyChars_flatMap (more : List UInt8) (n : Nat) :
    lossyChars (chars.length + n)
        (chars.flatMap String.utf8EncodeChar ++ more)
      = chars ++ lossyChars n more := by
  induction chars with
  | nil => rw [length_nil, Nat.zero_add]; rfl
  | cons c chars ih =>
    rw [length_cons, Nat.add_right_comm, flatMap_cons,
      append_assoc, lossyChars_char, ih, cons_append]

theorem length_lossyChars_le (n : Nat) (bs : List UInt8) :
    (lossyChars n bs).length ≤ bs.length := by
  induction n generalizing bs with
  | zero => exact Nat.zero_le _
  | succ n ih =>
    cases bs with
    | nil => exact Nat.le_refl 0
    | cons first rest =>
      have hrest := ih (rest.drop (following first rest))
      rw [length_drop] at hrest
      rw [lossyChars, length_cons, length_cons]
      omega

theorem length_flatMap_utf8EncodeChar_le :
    (chars.flatMap String.utf8EncodeChar).length ≤ 4 * chars.length := by
  induction chars with
  | nil => exact Nat.le_refl 0
  | cons c chars ih =>
    have hc := c.utf8Size_le_four
    rw [flatMap_cons, length_append, length_cons, String.length_utf8EncodeChar]
    omega

theorem length_le_flatMap_utf8EncodeChar :
    chars.length ≤ (chars.flatMap String.utf8EncodeChar).length := by
  induction chars with
  | nil => exact Nat.le_refl 0
  | cons c chars ih =>
    have hc := c.utf8Size_pos
    rw [flatMap_cons, length_append, length_cons, String.length_utf8EncodeChar]
    omega

/-- Cut text is whole characters and less than another. -/
theorem exists_chars_tail {chars : List Char} {bs : List UInt8}
    (h : bs <+: chars.flatMap String.utf8EncodeChar) :
    ∃ (before : List Char) (tail : List UInt8),
      bs = before.flatMap String.utf8EncodeChar ++ tail ∧ tail.length ≤ 3 := by
  induction chars generalizing bs with
  | nil =>
    rw [flatMap_nil, prefix_nil] at h
    exact ⟨[], [], h, Nat.zero_le 3⟩
  | cons c chars ih =>
    rw [flatMap_cons] at h
    by_cases hlong : c.utf8Size ≤ bs.length
    · rw [← String.length_utf8EncodeChar] at hlong
      obtain ⟨rest, rfl⟩ :=
        prefix_of_prefix_length_le (prefix_append _ _) h hlong
      obtain ⟨before, tail, rfl, htail⟩ :=
        ih ((prefix_append_right_inj _).1 h)
      exact ⟨c :: before, tail, by rw [flatMap_cons, append_assoc], htail⟩
    · have hc := c.utf8Size_le_four
      exact ⟨[], bs, rfl, by omega⟩

/-- What is read of cut text is hardly longer than what was left of it. -/
theorem utf8ByteSize_fromLossy_take_le (s : String) (n : Nat) :
    (fromLossy ((bytes s).take n)).utf8ByteSize ≤ n + 12 := by
  unfold fromLossy
  rw [String.fromUTF8?]
  split
  · show ((bytes s).take n).toArray.size ≤ _
    rw [size_toArray, length_take]
    omega
  · have hpre : (bytes s).take n <+: s.toList.flatMap String.utf8EncodeChar :=
      bytes_eq s ▸ take_prefix n _
    have hlen : ((bytes s).take n).length ≤ n := length_take_le n _
    obtain ⟨before, tail, hbs, htail⟩ := exists_chars_tail hpre
    rw [hbs] at hlen ⊢
    rw [length_append] at hlen ⊢
    have hchars := length_le_flatMap_utf8EncodeChar before
    obtain ⟨k, hk⟩ : ∃ k, (before.flatMap String.utf8EncodeChar).length
        + tail.length = before.length + k :=
      ⟨_, (Nat.add_sub_of_le (by omega)).symm⟩
    have hread := length_lossyChars_le k tail
    have hsize := length_flatMap_utf8EncodeChar_le (lossyChars k tail)
    rw [hk, lossyChars_flatMap, Option.getD_none, ← length_bytes, bytes_eq,
      String.toList_ofList, flatMap_append, length_append]
    omega

end Utf8

end Tasty.Terminal
