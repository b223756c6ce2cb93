/-
A line of the scrollback and the bytes it has in the swap file: the mark of
a soft wrap, the text in UTF-8, the length of each cell, and the runs of
equal attributes with what the file keeps of them.
-/
import Tasty.Lib.Bytes

namespace Tasty.Terminal

open ByteFile List

open ByteFile (le ofLe)

-- ==== attributes

structure SrgbaTuple where
  r : Float32
  g : Float32
  b : Float32
  a : Float32

inductive ColorAttribute
  | default
  | paletteIndex (idx : UInt8)
  | trueColorWithDefaultFallback (c : SrgbaTuple)
  | trueColorWithPaletteFallback (c : SrgbaTuple) (idx : UInt8)

inductive Intensity
  | normal | bold | half
  deriving DecidableEq

inductive Underline
  | none | single | double | curly | dotted | dashed
  deriving DecidableEq

/-- The attributes of a cell; `rest` is what the file has no place for. -/
structure CellAttributes (ρ : Type) where
  foreground : ColorAttribute
  background : ColorAttribute
  intensity : Intensity
  italic : Bool
  underline : Underline
  strikethrough : Bool
  rest : ρ

variable {ρ : Type}

def CellAttributes.default [Inhabited ρ] : CellAttributes ρ where
  foreground := .default
  background := .default
  intensity := .normal
  italic := false
  underline := .none
  strikethrough := false
  rest := Inhabited.default

/-- A line as joined text, the byte length of each cell, and runs of equal
attributes. -/
structure ScrollbackLine (ρ : Type) where
  text : String
  cellLens : List UInt16
  attrRuns : List (UInt32 × CellAttributes ρ)
  wrapped : Bool

namespace ScrollbackLine

/-- `ScrollbackLine::new(Vec::new(), wrapped)`. -/
def blank (wrapped : Bool) : ScrollbackLine ρ where
  text := ""
  cellLens := []
  attrRuns := []
  wrapped := wrapped

/-- Cells without a run of attributes get a default one. -/
def fromRawParts [Inhabited ρ] (text : String) (cellLens : List UInt16)
    (attrRuns : List (UInt32 × CellAttributes ρ)) (wrapped : Bool) :
    ScrollbackLine ρ where
  text := text
  cellLens := cellLens
  attrRuns :=
    if !cellLens.isEmpty && attrRuns.isEmpty then
      [(UInt32.ofNat cellLens.length, .default)]
    else attrRuns
  wrapped := wrapped

end ScrollbackLine

-- ==== UTF-8

namespace Utf8

def isContinuation (b : UInt8) : Bool := 0x80 ≤ b && b ≤ 0xBF

/-- The bytes of a character that begins with `first`; 0 when none does. -/
def width (first : UInt8) : Nat :=
  if first < 0x80 then 1
  else if 0xC2 ≤ first && first ≤ 0xDF then 2
  else if 0xE0 ≤ first && first ≤ 0xEF then 3
  else if 0xF0 ≤ first && first ≤ 0xF4 then 4
  else 0

/-- The second byte is narrower after some first ones. -/
def isSecond (first b : UInt8) : Bool :=
  if first == 0xE0 then 0xA0 ≤ b && b ≤ 0xBF
  else if first == 0xED then 0x80 ≤ b && b ≤ 0x9F
  else if first == 0xF0 then 0x90 ≤ b && b ≤ 0xBF
  else if first == 0xF4 then 0x80 ≤ b && b ≤ 0x8F
  else isContinuation b

/-- How many of the bytes after the first belong to its character. -/
def following (first : UInt8) (rest : List UInt8) : Nat :=
  ((rest.take (width first - 1)).zipIdx.takeWhile fun (b, i) =>
    if i == 0 then isSecond first b else isContinuation b).length

/-- The character with these bytes. -/
def decode (first : UInt8) (rest : List UInt8) : Char :=
  let lead := match rest.length with
    | 0 => first.toNat
    | 1 => first.toNat % 32
    | 2 => first.toNat % 16
    | _ => first.toNat % 8
  Char.ofNat (rest.foldl (fun n b => n * 64 + b.toNat % 64) lead)

/-- Every longest run of bytes that no character has is one replacement
character. -/
def lossyChars : Nat → List UInt8 → List Char
  | n + 1, first :: rest =>
    let k := following first rest
    (if width first = k + 1 then decode first (rest.take k)
      else Char.ofNat 0xFFFD) :: lossyChars n (rest.drop k)
  | _, _ => []

/-- `str::as_bytes`. -/
def bytes (s : String) : List UInt8 := s.toByteArray.data.toList

/-- `String::from_utf8_lossy`. -/
def fromLossy (bs : List UInt8) : String :=
  (String.fromUTF8? ⟨bs.toArray⟩).getD
    (String.ofList (lossyChars bs.length bs))

@[simp] theorem length_bytes (s : String) :
    (bytes s).length = s.utf8ByteSize := rfl

/-- Text is read back as it was written. -/
@[simp] theorem fromLossy_bytes (s : String) : fromLossy (bytes s) = s := by
  have hvalid : s.toByteArray.IsValidUTF8 := s.isValidUTF8
  have hdata : (⟨(bytes s).toArray⟩ : ByteArray) = s.toByteArray := by
    simp [bytes]
  unfold fromLossy
  rw [hdata, String.fromUTF8?, dif_pos hvalid]
  rfl

end Utf8

-- ==== the bytes

/-- `(channel * 255.0) as u8`. -/
def channelByte (c : Float32) : UInt8 := (c * 255.0).toUInt8

/-- `byte as f32 / 255.0`. -/
def byteChannel (b : UInt8) : Float32 := b.toFloat32 / 255.0

def serializeColor : ColorAttribute → List UInt8
  | .default => [0]
  | .paletteIndex idx => [1, idx]
  | .trueColorWithDefaultFallback c
  | .trueColorWithPaletteFallback c _ =>
    [2, channelByte c.r, channelByte c.g, channelByte c.b]

/-- The colour at the front, and how many bytes it takes. -/
def deserializeColor : List UInt8 → ColorAttribute × Nat
  | [] => (.default, 0)
  | 0 :: _ => (.default, 1)
  | 1 :: idx :: _ => (.paletteIndex idx, 2)
  | 1 :: [] => (.default, 1)
  | 2 :: r :: g :: b :: _ =>
    (.trueColorWithDefaultFallback
      ⟨byteChannel r, byteChannel g, byteChannel b, 1.0⟩, 4)
  | _ :: _ => (.default, 1)

/-- bit0 bold, bit1 italic, bit2 underline, bit3 strikethrough, bit4 dim. -/
def attrFlags (attrs : CellAttributes ρ) : UInt8 :=
  (match attrs.intensity with
    | .bold => 1
    | .half => 16
    | .normal => 0)
  ||| (if attrs.italic then 2 else 0)
  ||| (if attrs.underline ≠ .none then 4 else 0)
  ||| (if attrs.strikethrough then 8 else 0)

def readFlags [Inhabited ρ] (fg bg : ColorAttribute) (flags : UInt8) :
    CellAttributes ρ where
  foreground := fg
  background := bg
  intensity :=
    if flags &&& 1 ≠ 0 then .bold
    else if flags &&& 16 ≠ 0 then .half else .normal
  italic := flags &&& 2 ≠ 0
  underline := if flags &&& 4 ≠ 0 then .single else .none
  strikethrough := flags &&& 8 ≠ 0
  rest := Inhabited.default

def serializeRun (run : UInt32 × CellAttributes ρ) : List UInt8 :=
  le 4 run.1.toNat ++ serializeColor run.2.foreground
    ++ serializeColor run.2.background ++ [attrFlags run.2]

/-- Numbers that do not fit their field keep their low bytes, as the casts
do. -/
def serializeLine (line : ScrollbackLine ρ) : List UInt8 :=
  [if line.wrapped then 1 else 0]
    ++ le 4 (Utf8.bytes line.text).length ++ Utf8.bytes line.text
    ++ le 4 line.cellLens.length
    ++ line.cellLens.flatMap (fun len => le 2 len.toNat)
    ++ le 4 line.attrRuns.length ++ line.attrRuns.flatMap serializeRun

/-- The lengths of up to `count` cells, and the bytes after them. -/
def readLens : Nat → List UInt8 → List UInt16 × List UInt8
  | 0, data => ([], data)
  | count + 1, data =>
    if data.length < 2 then ([], data)
    else
      let (lens, rest) := readLens count (data.drop 2)
      (UInt16.ofNat (ofLe (data.take 2)) :: lens, rest)

/-- Up to `count` runs of attributes. -/
def readRuns [Inhabited ρ] :
    Nat → List UInt8 → List (UInt32 × CellAttributes ρ)
  | 0, _ => []
  | count + 1, data =>
    if data.length < 4 then []
    else
      let runLen := UInt32.ofNat (ofLe (data.take 4))
      let (fg, advance) := deserializeColor (data.drop 4)
      let rest := (data.drop 4).drop advance
      let (bg, advance) := deserializeColor rest
      match rest.drop advance with
      | [] => []
      | flags :: rest => (runLen, readFlags fg bg flags) :: readRuns count rest

def deserializeLine [Inhabited ρ] (data : List UInt8) : ScrollbackLine ρ :=
  if data.length < 5 then .blank false
  else
    let wrapped := data.headD 0 != 0
    let data := data.tail
    let textLen := ofLe (data.take 4)
    let data := data.drop 4
    if data.length < textLen then .blank wrapped
    else
      let text := Utf8.fromLossy (data.take textLen)
      let data := data.drop textLen
      if data.length < 4 then .fromRawParts text [] [] wrapped
      else
        let (cellLens, data) := readLens (ofLe (data.take 4)) (data.drop 4)
        let attrRuns :=
          if data.length < 4 then []
          else readRuns (ofLe (data.take 4)) (data.drop 4)
        .fromRawParts text cellLens attrRuns wrapped

-- ==== what is read back

/-- A colour as the file keeps it: eight bits a channel, and no other
fallback. -/
def ColorAttribute.kept : ColorAttribute → ColorAttribute
  | .trueColorWithDefaultFallback c
  | .trueColorWithPaletteFallback c _ =>
    .trueColorWithDefaultFallback
      ⟨byteChannel (channelByte c.r), byteChannel (channelByte c.g),
        byteChannel (channelByte c.b), 1.0⟩
  | c => c

/-- Attributes as the file keeps them. -/
def CellAttributes.kept [Inhabited ρ] (attrs : CellAttributes ρ) :
    CellAttributes ρ where
  foreground := attrs.foreground.kept
  background := attrs.background.kept
  intensity := attrs.intensity
  italic := attrs.italic
  underline := if attrs.underline = .none then .none else .single
  strikethrough := attrs.strikethrough
  rest := Inhabited.default

/-- A line as the file keeps it: text, cells and wrap mark unchanged. -/
def ScrollbackLine.kept [Inhabited ρ] (line : ScrollbackLine ρ) :
    ScrollbackLine ρ :=
  .fromRawParts line.text line.cellLens
    (line.attrRuns.map fun run => (run.1, run.2.kept)) line.wrapped

theorem deserializeColor_serializeColor (c : ColorAttribute)
    (rest : List UInt8) :
    deserializeColor (serializeColor c ++ rest)
      = (c.kept, (serializeColor c).length) := by
  cases c <;> rfl

theorem readFlags_attrFlags [Inhabited ρ] (attrs : CellAttributes ρ) :
    readFlags attrs.foreground.kept attrs.background.kept (attrFlags attrs)
      = attrs.kept := by
  obtain ⟨fg, bg, intensity, italic, underline, strikethrough, rest⟩ := attrs
  cases intensity <;> cases italic <;> cases underline <;>
    cases strikethrough <;>
    simp [readFlags, attrFlags, CellAttributes.kept] <;> decide

theorem readLens_serialize (lens : List UInt16) (rest : List UInt8) :
    readLens lens.length (lens.flatMap (fun len => le 2 len.toNat) ++ rest)
      = (lens, rest) := by
  induction lens with
  | nil => rfl
  | cons len lens ih =>
    have htake : ∀ more : List UInt8,
        (le 2 len.toNat ++ more).take 2 = le 2 len.toNat := fun more =>
      take_left' (length_le 2 _)
    have hdrop : ∀ more : List UInt8,
        (le 2 len.toNat ++ more).drop 2 = more := fun more =>
      drop_left' (length_le 2 _)
    have hlt : len.toNat < 256 ^ 2 := len.toNat_lt
    have hlong : ∀ more : List UInt8, ¬ (le 2 len.toNat ++ more).length < 2 :=
      fun more => by
        rw [length_append, length_le]
        omega
    rw [length_cons, flatMap_cons, append_assoc, readLens,
      htake, hdrop, ih, if_neg (hlong _), ofLe_le_of_lt hlt]
    simp

theorem readRuns_serializeRun [Inhabited ρ]
    (run : UInt32 × CellAttributes ρ) (count : Nat) (rest : List UInt8) :
    readRuns (count + 1) (serializeRun run ++ rest)
      = (run.1, run.2.kept) :: readRuns count rest := by
  have hlt : run.1.toNat < 256 ^ 4 := run.1.toNat_lt
  have hdata : serializeRun run ++ rest
      = le 4 run.1.toNat ++ (serializeColor run.2.foreground
        ++ (serializeColor run.2.background ++ (attrFlags run.2 :: rest))) := by
    simp [serializeRun]
  rw [hdata, readRuns, if_neg (by rw [length_append, length_le]; omega),
    take_left' (length_le 4 _),
    drop_left' (length_le 4 _),
    deserializeColor_serializeColor]
  dsimp only
  rw [drop_left, deserializeColor_serializeColor]
  dsimp only
  rw [drop_left, ofLe_le_of_lt hlt]
  dsimp only
  rw [readFlags_attrFlags]
  simp

theorem readRuns_serialize [Inhabited ρ]
    (runs : List (UInt32 × CellAttributes ρ)) (rest : List UInt8) :
    readRuns runs.length (runs.flatMap serializeRun ++ rest)
      = runs.map fun run => (run.1, run.2.kept) := by
  induction runs with
  | nil => rfl
  | cons run runs ih =>
    rw [length_cons, flatMap_cons, append_assoc,
      readRuns_serializeRun, ih, map_cons]

theorem serializeLine_eq (line : ScrollbackLine ρ) : serializeLine line
    = (if line.wrapped then 1 else 0) :: (le 4 line.text.utf8ByteSize
      ++ (Utf8.bytes line.text ++ (le 4 line.cellLens.length
        ++ (line.cellLens.flatMap (fun len => le 2 len.toNat)
          ++ (le 4 line.attrRuns.length
            ++ line.attrRuns.flatMap serializeRun))))) := by
  simp [serializeLine]

/-- The numbers of the parts of a line, and of its bytes, fit their
fields. -/
structure ScrollbackLine.Fits (line : ScrollbackLine ρ) : Prop where
  text : line.text.utf8ByteSize < 256 ^ 4
  cells : line.cellLens.length < 256 ^ 4
  runs : line.attrRuns.length < 256 ^ 4
  bytes : (serializeLine line).length < 256 ^ 4

/-- What was written of a line is read back as the file keeps it. -/
theorem deserializeLine_serializeLine [Inhabited ρ]
    {line : ScrollbackLine ρ} (h : line.Fits) :
    deserializeLine (serializeLine line) = line.kept := by
  have htake : ∀ (n : Nat) (more : List UInt8),
      (le 4 n ++ more).take 4 = le 4 n := fun n more =>
    take_left' (length_le 4 n)
  have hdrop : ∀ (n : Nat) (more : List UInt8),
      (le 4 n ++ more).drop 4 = more := fun n more =>
    drop_left' (length_le 4 n)
  have hwrapped : ((if line.wrapped then (1 : UInt8) else 0) != 0)
      = line.wrapped := by
    cases line.wrapped <;> rfl
  rw [serializeLine_eq, ← append_nil (line.attrRuns.flatMap _),
    deserializeLine, if_neg (by
    rw [length_cons, length_append, length_le]
    omega)]
  simp only [headD_cons, tail_cons, htake, hdrop, hwrapped,
    ofLe_le_of_lt h.text]
  rw [if_neg (by rw [length_append, Utf8.length_bytes]; omega),
    take_left' (Utf8.length_bytes _),
    drop_left' (Utf8.length_bytes _),
    if_neg (by rw [length_append, length_le]; omega)]
  simp only [htake, hdrop, ofLe_le_of_lt h.cells, readLens_serialize,
    ofLe_le_of_lt h.runs, readRuns_serialize, Utf8.fromLossy_bytes]
  rw [if_neg (by rw [length_append, length_le]; omega)]
  rfl

end Tasty.Terminal
