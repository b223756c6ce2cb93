/-
The base64 texts of binary fields (`blackboard/snapshot.rs`). What is
encoded is decoded again; the decoder counts the padding of four bytes
without looking where it stands.
-/
import Tasty.Lib.Except
import Tasty.Memory.Types

namespace Tasty.Memory

open List

-- ==== the alphabet

def BASE64_ALPHA : List UInt8 := asBytes
  "ABCDEFGHIJKLMNOPQRSTUVWXYZabcdefghijklmnopqrstuvwxyz0123456789+/"

/-- `ALPHA[(x & 0x3F) as usize]`. -/
def alphaAt (x : UInt32) : UInt8 := BASE64_ALPHA.getD (x &&& 0x3F).toNat 0

def PAD : UInt8 := 0x3D

/-- The value of a byte of a text, where padding is 64. -/
def sextet (b : UInt8) : Except String UInt8 :=
  if 0x41 ≤ b ∧ b ≤ 0x5A then .ok (b - 0x41)
  else if 0x61 ≤ b ∧ b ≤ 0x7A then .ok (b - 0x61 + 26)
  else if 0x30 ≤ b ∧ b ≤ 0x39 then .ok (b - 0x30 + 52)
  else if b = 0x2B then .ok 62
  else if b = 0x2F then .ok 63
  else if b = PAD then .ok 64
  else .error ("invalid base64 char: " ++ debugByte b)

-- ==== the encoder

def encodeBytes : List UInt8 → List UInt8
  | x :: y :: z :: rest =>
    let b := x.toUInt32 <<< 16 ||| y.toUInt32 <<< 8 ||| z.toUInt32
    alphaAt (b >>> 18) :: alphaAt (b >>> 12) :: alphaAt (b >>> 6)
      :: alphaAt b :: encodeBytes rest
  | [x] =>
    let b := x.toUInt32 <<< 16
    [alphaAt (b >>> 18), alphaAt (b >>> 12), PAD, PAD]
  | [x, y] =>
    let b := x.toUInt32 <<< 16 ||| y.toUInt32 <<< 8
    [alphaAt (b >>> 18), alphaAt (b >>> 12), alphaAt (b >>> 6), PAD]
  | [] => []

def encodeB64 (bytes : List UInt8) : String :=
  String.ofList ((encodeBytes bytes).map fun b => Char.ofNat b.toNat)

-- ==== the decoder

/-- `char::is_whitespace`. -/
def isWhitespace (c : Char) : Bool :=
  (0x09 ≤ c.toNat && c.toNat ≤ 0x0D) || c.toNat == 0x20 || c.toNat == 0x85
    || c.toNat == 0xA0 || c.toNat == 0x1680
    || (0x2000 ≤ c.toNat && c.toNat ≤ 0x200A) || c.toNat == 0x2028
    || c.toNat == 0x2029 || c.toNat == 0x202F || c.toNat == 0x205F
    || c.toNat == 0x3000

/-- `str::trim`. -/
def trim (s : String) : String :=
  String.ofList
    ((s.toList.dropWhile isWhitespace).reverse.dropWhile isWhitespace).reverse

/-- The bytes of four sextets, of which the last ones may be padding. -/
def chunkBytes (pad : Nat) (x₀ x₁ x₂ x₃ : UInt8) : List UInt8 :=
  (x₀ <<< 2 ||| x₁ >>> 4)
    :: (if pad < 2 then [x₁ <<< 4 ||| x₂ >>> 2] else [])
    ++ if pad < 1 then [x₂ <<< 6 ||| x₃] else []

/-- The number of bytes is a multiple of four. -/
def decodeChunks : List UInt8 → Except String (List UInt8)
  | b₀ :: b₁ :: b₂ :: b₃ :: rest => do
      let x₀ ← sextet b₀
      let x₁ ← sextet b₁
      let x₂ ← sextet b₂
      let x₃ ← sextet b₃
      let pad := ([b₀, b₁, b₂, b₃].filter (· == PAD)).length
      let bytes ← decodeChunks rest
      .ok (chunkBytes pad x₀ x₁ x₂ x₃ ++ bytes)
  | _ => .ok []

def decodeB64 (s : String) : Except String (List UInt8) :=
  let bytes := asBytes (trim s)
  if bytes.length % 4 ≠ 0 then
    .error "invalid base64: length must be multiple of 4"
  else decodeChunks bytes

-- ==== decoding what was encoded

/-- The alphabet: the letters, the digits and two more. -/
theorem base64_alphabet : BASE64_ALPHA
    = (List.range 26).map (fun i => UInt8.ofNat (0x41 + i))
      ++ (List.range 26).map (fun i => UInt8.ofNat (0x61 + i))
      ++ (List.range 10).map (fun i => UInt8.ofNat (0x30 + i))
      ++ [0x2B, 0x2F] := by
  decide +kernel

theorem sextet_alpha : ∀ i : Fin 64,
    sextet (BASE64_ALPHA.getD i.val 0) = .ok (UInt8.ofNat i.val)
      ∧ (BASE64_ALPHA.getD i.val 0 == PAD) = false
      ∧ (BASE64_ALPHA.getD i.val 0).toNat < 128
      ∧ isWhitespace (Char.ofNat (BASE64_ALPHA.getD i.val 0).toNat)
        = false := by
  rw [base64_alphabet]
  decide +kernel

theorem and_lt_64 (x : UInt32) : (x &&& 0x3F).toNat < 64 := by
  rw [UInt32.toNat_and]
  exact Nat.lt_of_le_of_lt Nat.and_le_right (by decide)

theorem sextet_alphaAt (x : UInt32) :
    sextet (alphaAt x) = .ok (x &&& 0x3F).toUInt8
      ∧ (alphaAt x == PAD) = false := by
  obtain ⟨hvalue, hpad, -⟩ := sextet_alpha ⟨(x &&& 0x3F).toNat, and_lt_64 x⟩
  exact ⟨hvalue, hpad⟩

/-- Bytes of the same bits are the same. -/
theorem eq_of_bits {x y : UInt8} (h₀ : x.toBitVec[0] = y.toBitVec[0])
    (h₁ : x.toBitVec[1] = y.toBitVec[1]) (h₂ : x.toBitVec[2] = y.toBitVec[2])
    (h₃ : x.toBitVec[3] = y.toBitVec[3]) (h₄ : x.toBitVec[4] = y.toBitVec[4])
    (h₅ : x.toBitVec[5] = y.toBitVec[5]) (h₆ : x.toBitVec[6] = y.toBitVec[6])
    (h₇ : x.toBitVec[7] = y.toBitVec[7]) : x = y := by
  refine UInt8.toBitVec_inj.1 (BitVec.eq_of_getElem_eq fun i hi => ?_)
  have hcases : i = 0 ∨ i = 1 ∨ i = 2 ∨ i = 3 ∨ i = 4 ∨ i = 5 ∨ i = 6 ∨ i = 7 := by
    omega
  rcases hcases with rfl | rfl | rfl | rfl | rfl | rfl | rfl | rfl <;> assumption

variable (b : UInt32)

/-- The bytes of a word, joined from its sextets. -/
theorem join_first :
    (b >>> 18 &&& 0x3F).toUInt8 <<< 2 ||| (b >>> 12 &&& 0x3F).toUInt8 >>> 4
      = (b >>> 16).toUInt8 := by
  apply eq_of_bits <;> simp

theorem join_second :
    (b >>> 12 &&& 0x3F).toUInt8 <<< 4 ||| (b >>> 6 &&& 0x3F).toUInt8 >>> 2
      = (b >>> 8).toUInt8 := by
  apply eq_of_bits <;> simp

theorem join_third :
    (b >>> 6 &&& 0x3F).toUInt8 <<< 6 ||| (b &&& 0x3F).toUInt8
      = b.toUInt8 := by
  apply eq_of_bits <;> simp

/-- Three bytes as one word. -/
def word (x y z : UInt8) : UInt32 :=
  x.toUInt32 <<< 16 ||| y.toUInt32 <<< 8 ||| z.toUInt32

theorem word_first (x y z : UInt8) : (word x y z >>> 16).toUInt8 = x := by
  apply eq_of_bits <;> simp [word]

theorem word_second (x y z : UInt8) : (word x y z >>> 8).toUInt8 = y := by
  apply eq_of_bits <;> simp [word]

theorem word_third (x y z : UInt8) : (word x y z).toUInt8 = z := by
  apply eq_of_bits <;> simp [word]

theorem word_one (x : UInt8) : x.toUInt32 <<< 16 = word x 0 0 := by
  simp [word]

theorem word_two (x y : UInt8) :
    x.toUInt32 <<< 16 ||| y.toUInt32 <<< 8 = word x y 0 := by
  simp [word]

theorem sextet_pad : sextet PAD = .ok 64 := by decide

/-- Four bytes without padding. -/
theorem decodeChunks_alpha (rest : List UInt8) :
    decodeChunks (alphaAt (b >>> 18) :: alphaAt (b >>> 12)
        :: alphaAt (b >>> 6) :: alphaAt b :: rest)
      = (decodeChunks rest).map fun bytes =>
        (b >>> 16).toUInt8 :: (b >>> 8).toUInt8 :: b.toUInt8 :: bytes := by
  rw [decodeChunks]
  simp only [(sextet_alphaAt _).1, (sextet_alphaAt _).2, filter_cons,
    filter_nil, ok_bind, chunkBytes, join_first, join_second, join_third]
  cases decodeChunks rest <;> rfl

theorem decodeChunks_alpha_one :
    decodeChunks [alphaAt (b >>> 18), alphaAt (b >>> 12), PAD, PAD]
      = .ok [(b >>> 16).toUInt8] := by
  rw [decodeChunks]
  simp only [(sextet_alphaAt _).1, (sextet_alphaAt _).2, filter_cons,
    filter_nil, ok_bind, sextet_pad, chunkBytes, join_first]
  rfl

theorem decodeChunks_alpha_two :
    decodeChunks [alphaAt (b >>> 18), alphaAt (b >>> 12), alphaAt (b >>> 6),
        PAD]
      = .ok [(b >>> 16).toUInt8, (b >>> 8).toUInt8] := by
  rw [decodeChunks]
  simp only [(sextet_alphaAt _).1, (sextet_alphaAt _).2, filter_cons,
    filter_nil, ok_bind, sextet_pad, chunkBytes, join_first, join_second]
  rfl

variable (bytes : List UInt8)

theorem decodeChunks_encodeBytes :
    decodeChunks (encodeBytes bytes) = .ok bytes := by
  induction bytes using encodeBytes.induct with
  | case1 x y z rest ih =>
    rw [encodeBytes, decodeChunks_alpha, ih]
    show Except.ok ((word x y z >>> 16).toUInt8 :: (word x y z >>> 8).toUInt8
      :: (word x y z).toUInt8 :: rest) = _
    rw [word_first, word_second, word_third]
  | case2 x =>
    rw [encodeBytes, decodeChunks_alpha_one, word_one, word_first]
  | case3 x y =>
    rw [encodeBytes, decodeChunks_alpha_two, word_two, word_first, word_second]
  | case4 => rfl

-- ==== as a text

theorem encodeBytes_ascii {bytes : List UInt8} {b : UInt8}
    (h : b ∈ encodeBytes bytes) :
    b.toNat < 128 ∧ isWhitespace (Char.ofNat b.toNat) = false := by
  have hpad : PAD.toNat < 128
      ∧ isWhitespace (Char.ofNat PAD.toNat) = false := by decide
  have halpha (x : UInt32) : (alphaAt x).toNat < 128
      ∧ isWhitespace (Char.ofNat (alphaAt x).toNat) = false :=
    (sextet_alpha ⟨(x &&& 0x3F).toNat, and_lt_64 x⟩).2.2
  induction bytes using encodeBytes.induct with
  | case1 x y z rest ih =>
    rw [encodeBytes] at h
    simp only [mem_cons] at h
    rcases h with rfl | rfl | rfl | rfl | h
    · exact halpha _
    · exact halpha _
    · exact halpha _
    · exact halpha _
    · exact ih h
  | case2 x =>
    rw [encodeBytes] at h
    simp only [mem_cons, not_mem_nil, or_false] at h
    rcases h with rfl | rfl | rfl | rfl
    · exact halpha _
    · exact halpha _
    · exact hpad
    · exact hpad
  | case3 x y =>
    rw [encodeBytes] at h
    simp only [mem_cons, not_mem_nil, or_false] at h
    rcases h with rfl | rfl | rfl | rfl
    · exact halpha _
    · exact halpha _
    · exact halpha _
    · exact hpad
  | case4 => cases h

theorem length_encodeBytes : (encodeBytes bytes).length % 4 = 0 := by
  induction bytes using encodeBytes.induct with
  | case1 x y z rest ih =>
    rw [encodeBytes]
    simp only [length_cons]
    omega
  | case2 x => simp [encodeBytes]
  | case3 x y => simp [encodeBytes]
  | case4 => rfl

theorem asBytes_eq (s : String) :
    asBytes s = s.toList.flatMap String.utf8EncodeChar := by
  show s.toByteArray.data.toList = _
  rw [← String.utf8Encode_toList, List.utf8Encode, toList_data_toByteArray]

theorem utf8EncodeChar_ascii : ∀ n : Fin 128,
    String.utf8EncodeChar (Char.ofNat n.val) = [UInt8.ofNat n.val] := by
  decide +kernel

theorem asBytes_ofList {bytes : List UInt8} (h : ∀ b ∈ bytes, b.toNat < 128) :
    asBytes (String.ofList (bytes.map fun b => Char.ofNat b.toNat))
      = bytes := by
  rw [asBytes_eq, String.toList_ofList, flatMap_map]
  induction bytes with
  | nil => rfl
  | cons b bytes ih =>
    have hb := utf8EncodeChar_ascii ⟨b.toNat, h b mem_cons_self⟩
    rw [flatMap_cons, hb, ih fun x hx => h x (mem_cons_of_mem _ hx),
      UInt8.ofNat_toNat]
    rfl

theorem dropWhile_eq_self {α : Type} {p : α → Bool} {l : List α}
    (h : ∀ a ∈ l, p a = false) : l.dropWhile p = l := by
  cases l with
  | nil => rfl
  | cons a l => rw [dropWhile_cons, h a mem_cons_self, if_neg nofun]

theorem decodeB64_encodeB64 : decodeB64 (encodeB64 bytes) = .ok bytes := by
  have htrim : trim (encodeB64 bytes) = encodeB64 bytes := by
    have hnone : ∀ c ∈ (encodeBytes bytes).map fun b => Char.ofNat b.toNat,
        isWhitespace c = false := by
      intro c hc
      obtain ⟨b, hb, rfl⟩ := mem_map.1 hc
      exact (encodeBytes_ascii hb).2
    unfold trim encodeB64
    rw [String.toList_ofList, dropWhile_eq_self hnone, dropWhile_eq_self
      fun c hc => hnone c (mem_reverse.1 hc), reverse_reverse]
  unfold decodeB64
  rw [htrim]
  unfold encodeB64
  rw [asBytes_ofList fun b hb => (encodeBytes_ascii hb).1]
  dsimp only
  rw [length_encodeBytes, if_neg (by decide), decodeChunks_encodeBytes]

-- ==== what is refused

/-- A byte of the alphabet, or padding. -/
def isBase64Byte (b : UInt8) : Bool :=
  (0x41 ≤ b && b ≤ 0x5A) || (0x61 ≤ b && b ≤ 0x7A) || (0x30 ≤ b && b ≤ 0x39)
    || b == 0x2B || b == 0x2F || b == PAD

theorem sextet_isOk (b : UInt8) :
    (∃ x, sextet b = .ok x) ↔ isBase64Byte b = true := by
  simp only [isBase64Byte, Bool.or_eq_true, Bool.and_eq_true,
    decide_eq_true_eq, beq_iff_eq]
  unfold sextet
  split_ifs <;> simp_all

theorem decodeChunks_isOk (hlen : bytes.length % 4 = 0) :
    (∃ decoded, decodeChunks bytes = .ok decoded)
      ↔ bytes.all isBase64Byte = true := by
  induction bytes using decodeChunks.induct with
  | case1 b₀ b₁ b₂ b₃ rest ih =>
    have hrest : rest.length % 4 = 0 := by
      simp only [length_cons] at hlen
      omega
    simp only [all_cons, Bool.and_eq_true, ← ih hrest, ← sextet_isOk,
      decodeChunks, bind_eq_ok]
    constructor
    · intro h
      obtain ⟨_, x₀, h₀, x₁, h₁, x₂, h₂, x₃, h₃, r, hr, -⟩ := h
      exact ⟨⟨x₀, h₀⟩, ⟨x₁, h₁⟩, ⟨x₂, h₂⟩, ⟨x₃, h₃⟩, r, hr⟩
    · intro h
      obtain ⟨⟨x₀, h₀⟩, ⟨x₁, h₁⟩, ⟨x₂, h₂⟩, ⟨x₃, h₃⟩, r, hr⟩ := h
      exact ⟨_, x₀, h₀, x₁, h₁, x₂, h₂, x₃, h₃, r, hr, rfl⟩
  | case2 bytes hshort =>
    cases bytes with
    | nil => exact ⟨fun _ => rfl, fun _ => ⟨[], rfl⟩⟩
    | cons b₀ bytes =>
      match bytes, hshort, hlen with
      | [], _, hlen => cases hlen
      | [_], _, hlen => cases hlen
      | [_, _], _, hlen => cases hlen
      | b₁ :: b₂ :: b₃ :: rest, hshort, _ =>
        exact absurd rfl (hshort b₀ b₁ b₂ b₃ rest)

theorem decodeB64_refuses (s : String) :
    (∃ e, decodeB64 s = .error e)
      ↔ (asBytes (trim s)).length % 4 ≠ 0
        ∨ (asBytes (trim s)).all isBase64Byte = false := by
  unfold decodeB64
  dsimp only
  by_cases hlen : (asBytes (trim s)).length % 4 ≠ 0
  · rw [if_pos hlen]
    exact iff_of_true ⟨_, rfl⟩ (.inl hlen)
  · rw [if_neg hlen, or_iff_right hlen, ← Bool.not_eq_true,
      ← decodeChunks_isOk _ (not_not.1 hlen)]
    cases decodeChunks (asBytes (trim s)) with
    | error e => exact iff_of_true ⟨e, rfl⟩ nofun
    | ok r => exact iff_of_false nofun (not_not.2 ⟨r, rfl⟩)

/-- A `=` that is neither the last nor the last but one byte of a text. -/
def MisplacedPad (s : String) : Prop :=
  ∃ i, i + 2 < (asBytes (trim s)).length
    ∧ (asBytes (trim s))[i]? = some PAD

end Tasty.Memory
