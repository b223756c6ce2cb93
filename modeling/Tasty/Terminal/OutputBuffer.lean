/-
The raw output of a terminal (`output_buffer.rs`): the last bytes of a
stream, positions that count from its beginning, two marks, and reads from
a position that say what they left out.

Positions and the counter of the tokens are 64-bit numbers that no stream
or process comes to the end of; they are natural numbers here.
-/
import Tasty.Lib.Texts
import Tasty.Lib.Codes
import Tasty.Terminal.Utf8Text

namespace Tasty.Terminal

open List

-- ==== the tokens

/-- `mint_stream_id`: the time and the count of a new stream in hexadecimal
digits. -/
def mintStreamId (nanos seq : Nat) : String :=
  String.ofList (Nat.toDigits 16 nanos ++ '-' :: Nat.toDigits 16 seq)

-- ==== the reads

def outputRetentionMaxBytes : Nat := 1048576

/-- Where a read starts: at the mark of the terminal, or at a position
that the consumer holds. -/
inductive OutputCursor where
  | mark
  | position (p : Nat)
  deriving DecidableEq

structure OutputReadRequest where
  start : OutputCursor
  /-- A bound on the raw bytes, not on the text. -/
  maxBytes : Nat
  stripAnsi : Bool
  expectStream : Option String

structure OutputRead where
  text : String
  rawBytes : Nat
  /-- Where the read actually started. -/
  cursor : Nat
  nextCursor : Nat
  retentionStart : Nat
  retentionEnd : Nat
  /-- Bytes between the position asked for and the start. -/
  skipped : Nat
  stream : String
  deriving DecidableEq

inductive OutputReadError where
  | aheadOfStream (cursor retentionEnd : Nat)
  | streamMismatch (expected actual : String)
  deriving DecidableEq

/-- `byte & 0b1100_0000 == 0b1000_0000`. -/
def splitsChar (b : UInt8) : Bool := b &&& 0xC0 == 0x80

/-- Up to three bytes less, so as not to end inside a character, but not
nothing. -/
def cutBeforeSplitChar (bytes : List UInt8) (max : Nat) : Nat :=
  if bytes.length ≤ max then bytes.length
  else
    let cut := backOff splitsChar bytes 3 max
    if cut = 0 then max else cut

/-- How text without its escape sequences is got. -/
class AnsiText where
  strip : String → String

/-- The text of raw bytes. -/
def outputText [AnsiText] (stripAnsi : Bool) (bytes : List UInt8) : String :=
  let text := Utf8.fromLossy bytes
  if stripAnsi then AnsiText.strip text else text

-- ==== the buffer

structure OutputBuffer where
  buffer : List UInt8
  /-- The position of the first byte in the buffer. -/
  base : Nat
  readMark : Option Nat
  scanMark : Nat
  stream : String
  deriving DecidableEq

namespace OutputBuffer

def new (stream : String) : OutputBuffer where
  buffer := []
  base := 0
  readMark := none
  scanMark := 0
  stream := stream

/-- One past the newest byte. -/
def last (b : OutputBuffer) : Nat := b.base + b.buffer.length

def append (b : OutputBuffer) (data : List UInt8) : OutputBuffer :=
  let buffer := b.buffer ++ data
  if outputRetentionMaxBytes < buffer.length then
    let excess := buffer.length - outputRetentionMaxBytes
    { b with buffer := buffer.drop excess, base := b.base + excess }
  else { b with buffer := buffer }

/-- The bytes and the positions stay. -/
def renewStream (b : OutputBuffer) (stream : String) : OutputBuffer :=
  { b with stream := stream }

def setMark (b : OutputBuffer) : OutputBuffer :=
  { b with readMark := some b.last }

def markPosition (b : OutputBuffer) : Nat := b.readMark.getD b.base

section Reads

variable [AnsiText]

/-- The position is moved into what is retained. -/
def readFrom (b : OutputBuffer) (requested maxBytes : Nat)
    (stripAnsi : Bool) : OutputRead :=
  let start := min (max requested b.base) b.last
  let bytes := b.buffer.drop (start - b.base)
  let take := cutBeforeSplitChar bytes maxBytes
  { text := outputText stripAnsi (bytes.take take)
    rawBytes := take
    cursor := start
    nextCursor := start + take
    retentionStart := b.base
    retentionEnd := b.last
    skipped := start - requested
    stream := b.stream }

/-- `max_bytes.clamp(1, OUTPUT_RETENTION_MAX_BYTES)`. -/
def clampBytes (maxBytes : Nat) : Nat :=
  min (max maxBytes 1) outputRetentionMaxBytes

def requested (b : OutputBuffer) : OutputCursor → Nat
  | .mark => b.markPosition
  | .position p => p

def read (b : OutputBuffer) (req : OutputReadRequest) :
    Except OutputReadError OutputRead :=
  match req.expectStream.filter (· ≠ b.stream) with
  | some expected => .error (.streamMismatch expected b.stream)
  | none =>
    if b.last < b.requested req.start then
      .error (.aheadOfStream (b.requested req.start) b.last)
    else
      .ok (b.readFrom (b.requested req.start) (clampBytes req.maxBytes)
        req.stripAnsi)

/-- The text from the mark, or from the oldest byte. -/
def readSinceMark (b : OutputBuffer) (stripAnsi : Bool) : String :=
  (b.readFrom b.markPosition outputRetentionMaxBytes stripAnsi).text

/-- What has come since the last scan, and the scan mark behind it. -/
def takeSinceScanMark (b : OutputBuffer) (stripAnsi : Bool) :
    String × OutputBuffer :=
  ((b.readFrom (max b.scanMark b.base) outputRetentionMaxBytes
    stripAnsi).text, { b with scanMark := b.last })

end Reads

end OutputBuffer

-- ==== where it is cut

theorem cutBeforeSplitChar_le (bytes : List UInt8) (max : Nat) :
    cutBeforeSplitChar bytes max ≤ bytes.length := by
  unfold cutBeforeSplitChar
  split
  · exact Nat.le_refl _
  · dsimp only
    have hback := backOff_le splitsChar bytes 3 max
    split <;> omega

variable {bytes : List UInt8} {max : Nat}

/-- Something is read where there is something. -/
theorem cutBeforeSplitChar_pos (hbytes : bytes ≠ []) (hmax : 0 < max) :
    0 < cutBeforeSplitChar bytes max := by
  unfold cutBeforeSplitChar
  split
  · exact length_pos_iff.2 hbytes
  · dsimp only
    split <;> omega

/-- All is read exactly if the bound allows it. -/
theorem cutBeforeSplitChar_eq_length :
    cutBeforeSplitChar bytes max = bytes.length ↔ bytes.length ≤ max := by
  unfold cutBeforeSplitChar
  split
  · rename_i h
    exact iff_of_true rfl h
  · rename_i h
    dsimp only
    have hback := backOff_le splitsChar bytes 3 max
    refine iff_of_false ?_ h
    split <;> omega

-- ==== its text

theorem splitsChar_ofNat : ∀ n < 64,
    splitsChar (UInt8.ofNat (n + 0x80)) = true := by decide

theorem not_splitsChar_one : ∀ n < 128,
    splitsChar (UInt8.ofNat n) = false := by decide

theorem not_splitsChar_two : ∀ n < 32,
    splitsChar (UInt8.ofNat (n + 0xC0)) = false := by decide

theorem not_splitsChar_three : ∀ n < 16,
    splitsChar (UInt8.ofNat (n + 0xE0)) = false := by decide

theorem not_splitsChar_four : ∀ n < 8,
    splitsChar (UInt8.ofNat (n + 0xF0)) = false := by decide

theorem selfSync_utf8 : SelfSync String.utf8EncodeChar splitsChar 3 := by
  intro c
  have hmore (n : Nat) : splitsChar (UInt8.ofNat (n % 64 + 0x80)) = true :=
    splitsChar_ofNat _ (Nat.mod_lt n (by decide))
  unfold String.utf8EncodeChar
  dsimp only
  split
  · rename_i h
    exact ⟨_, _, rfl, not_splitsChar_one _ (Nat.lt_succ_of_le h), nofun,
      by decide⟩
  split
  · refine ⟨_, _, rfl, not_splitsChar_two _ (Nat.mod_lt _ (by decide)),
      ?_, by simp⟩
    exact forall_mem_cons.2 ⟨hmore _, nofun⟩
  split
  · refine ⟨_, _, rfl, not_splitsChar_three _ (Nat.mod_lt _ (by decide)),
      ?_, by simp⟩
    exact forall_mem_cons.2 ⟨hmore _, forall_mem_cons.2 ⟨hmore _, nofun⟩⟩
  · refine ⟨_, _, rfl, not_splitsChar_four _ (Nat.mod_lt _ (by decide)),
      ?_, by simp⟩
    exact forall_mem_cons.2 ⟨hmore _, forall_mem_cons.2
      ⟨hmore _, forall_mem_cons.2 ⟨hmore _, nofun⟩⟩⟩

theorem take_cutBeforeSplitChar (hmax : 4 ≤ max) {chars : List Char}
    (hpre : bytes <+: chars.flatMap String.utf8EncodeChar)
    (hall : bytes.length ≤ max → IsText bytes) :
    IsText (bytes.take (cutBeforeSplitChar bytes max)) := by
  unfold cutBeforeSplitChar
  split
  · rename_i h
    rw [take_length]
    exact hall h
  · rename_i h
    obtain ⟨before, after, rfl, hcut, hle, hnear⟩ :=
      selfSync_utf8.backOff_eq hpre (Nat.lt_of_not_le h)
    dsimp only
    rw [hcut, if_neg (by omega)]
    have htake : bytes.take (before.flatMap String.utf8EncodeChar).length
        = before.flatMap String.utf8EncodeChar := by
      obtain ⟨more, hmore⟩ := hpre
      rw [flatMap_append] at hmore
      have h := congrArg
        (List.take (before.flatMap String.utf8EncodeChar).length) hmore
      rwa [take_left, take_append_of_le_length (by omega)] at h
    rw [htake]
    exact isText_flatMap before

-- ==== what is kept

namespace OutputBuffer

/-- The buffer holds the end of what was appended, all of it or as much as
is retained, and the marks are not beyond it. -/
structure Retains (b : OutputBuffer) (appended : List UInt8) : Prop where
  buffer : b.buffer = appended.drop b.base
  base_le : b.base ≤ appended.length
  full : b.base = 0 ∨ b.buffer.length = outputRetentionMaxBytes
  readMark : ∀ m, b.readMark = some m → m ≤ appended.length
  scanMark : b.scanMark ≤ appended.length

variable {b : OutputBuffer} {appended data : List UInt8}

theorem append_stream (b : OutputBuffer) (data : List UInt8) :
    (b.append data).stream = b.stream := by
  unfold append
  dsimp only
  split <;> rfl

theorem retains_new (stream : String) : (new stream).Retains [] where
  buffer := rfl
  base_le := Nat.le_refl 0
  full := .inl rfl
  readMark := fun _ h => by cases h
  scanMark := Nat.le_refl 0

namespace Retains

variable (h : b.Retains appended)

include h

theorem last_eq : b.last = appended.length := by
  unfold last
  rw [h.buffer, length_drop]
  have := h.base_le
  omega

theorem append (data : List UInt8) :
    (b.append data).Retains (appended ++ data) := by
  have hbase := h.base_le
  have hmark : ∀ m, b.readMark = some m → m ≤ (appended ++ data).length := by
    intro m hm
    have := h.readMark m hm
    rw [length_append]
    omega
  have hscan : b.scanMark ≤ (appended ++ data).length := by
    have := h.scanMark
    rw [length_append]
    omega
  have hbuffer : b.buffer ++ data = (appended ++ data).drop b.base := by
    rw [drop_append_of_le_length hbase, h.buffer]
  unfold OutputBuffer.append
  dsimp only
  split
  · rename_i hlong
    refine ⟨?_, ?_, .inr ?_, hmark, hscan⟩
    · dsimp only
      rw [hbuffer, drop_drop]
    · have hlen := congrArg List.length hbuffer
      rw [length_drop] at hlen
      have hexcess := Nat.sub_le (b.buffer ++ data).length
        outputRetentionMaxBytes
      have happended : (appended ++ data).length
          = appended.length + data.length := length_append
      dsimp only
      omega
    · dsimp only
      rw [length_drop]
      exact Nat.sub_sub_self (Nat.le_of_lt hlong)
  · rename_i hshort
    refine ⟨hbuffer, ?_, ?_, hmark, hscan⟩
    · show b.base ≤ _
      rw [length_append]
      omega
    · rcases h.full with hzero | hfull
      · exact .inl hzero
      · refine .inr (Nat.le_antisymm (Nat.le_of_not_lt hshort) ?_)
        rw [← hfull, length_append]
        exact Nat.le_add_right _ _

theorem setMark : b.setMark.Retains appended where
  buffer := h.buffer
  base_le := h.base_le
  full := h.full
  readMark := fun m hm => by
    cases hm
    exact Nat.le_of_eq h.last_eq
  scanMark := h.scanMark

theorem renewStream (stream : String) :
    (b.renewStream stream).Retains appended :=
  ⟨h.buffer, h.base_le, h.full, h.readMark, h.scanMark⟩

theorem takeSinceScanMark [AnsiText] (stripAnsi : Bool) :
    (b.takeSinceScanMark stripAnsi).2.Retains appended :=
  ⟨h.buffer, h.base_le, h.full, h.readMark, Nat.le_of_eq h.last_eq⟩

omit h

end Retains

end OutputBuffer

-- ==== what is read

/-- A read answers for a position of what was appended before it: the
bytes from where it starts, and how many before that it skips. -/
structure Answers [AnsiText] (appended : List UInt8)
    (req : OutputReadRequest) (requested : Nat) (r : OutputRead) : Prop where
  skipped : r.cursor = requested + r.skipped
  inside : r.cursor ≤ r.retentionEnd
  appended_before : r.retentionEnd ≤ appended.length
  rawBytes : r.rawBytes = cutBeforeSplitChar
    ((appended.take r.retentionEnd).drop r.cursor)
    (OutputBuffer.clampBytes req.maxBytes)
  next : r.nextCursor = r.cursor + r.rawBytes
  text : r.text = outputText req.stripAnsi
    ((appended.drop r.cursor).take r.rawBytes)
  progress : requested < r.retentionEnd → 0 < r.rawBytes
  stream : ∀ token, req.expectStream = some token → r.stream = token

section Answered

variable [AnsiText] {b : OutputBuffer} {appended data : List UInt8}
  {req : OutputReadRequest} {requested : Nat} {r : OutputRead}

theorem Answers.next_le (h : Answers appended req requested r) :
    r.nextCursor ≤ r.retentionEnd := by
  have hcut := cutBeforeSplitChar_le
    ((appended.take r.retentionEnd).drop r.cursor)
    (OutputBuffer.clampBytes req.maxBytes)
  rw [← h.rawBytes, length_drop, length_take] at hcut
  have := h.inside
  have := h.appended_before
  rw [h.next]
  omega

theorem Answers.append (h : Answers appended req requested r)
    (data : List UInt8) : Answers (appended ++ data) req requested r := by
  have hin := h.inside
  have hbefore := h.appended_before
  have hnext := h.next_le
  rw [h.next] at hnext
  refine { h with appended_before := ?_, rawBytes := ?_, text := ?_ }
  · rw [length_append]
    omega
  · rw [take_append_of_le_length hbefore]
    exact h.rawBytes
  · rw [drop_append_of_le_length (by omega),
      take_append_of_le_length (by rw [length_drop]; omega)]
    exact h.text

theorem OutputBuffer.Retains.read (h : b.Retains appended)
    (hread : b.read req = .ok r) :
    Answers appended req (b.requested req.start) r
      ∧ r.retentionEnd = appended.length ∧ r.stream = b.stream := by
  unfold OutputBuffer.read at hread
  split at hread
  · cases hread
  rename_i hstream
  split at hread
  · cases hread
  rename_i hahead
  cases hread
  have hlast := h.last_eq
  have hbase := h.base_le
  rw [hlast] at hahead
  have hexpect : ∀ token, req.expectStream = some token →
      b.stream = token := by
    intro token htoken
    rw [htoken, Option.filter_eq_none_iff] at hstream
    have hsame := hstream token rfl
    simp only [ne_eq, decide_not, Bool.not_eq_true, Bool.not_eq_false',
      decide_eq_true_eq] at hsame
    exact hsame.symm
  generalize b.requested req.start = requested at hahead ⊢
  have hcursor : min (max requested b.base) b.last
      = max requested b.base := by omega
  have hbytes : b.buffer.drop (max requested b.base - b.base)
      = (appended.take appended.length).drop (max requested b.base) := by
    rw [h.buffer, drop_drop, take_length, Nat.add_sub_cancel' (by omega)]
  unfold OutputBuffer.readFrom
  dsimp only
  rw [hcursor, hlast, hbytes, take_length]
  refine ⟨⟨?_, ?_, Nat.le_refl _, ?_, rfl, rfl, ?_, hexpect⟩, rfl, rfl⟩
  · dsimp only
    omega
  · dsimp only
    omega
  · dsimp only
    rw [take_length]
  · -- where bytes were dropped, the buffer is full
    intro hunread
    dsimp only at hunread ⊢
    have hstart : max requested b.base < appended.length := by
      rcases h.full with hzero | hfull
      · omega
      · have hlen := congrArg List.length h.buffer
        rw [hfull, length_drop] at hlen
        have hcap : 0 < outputRetentionMaxBytes := by decide
        omega
    refine cutBeforeSplitChar_pos ?_ ?_
    · intro hnil
      have := drop_eq_nil_iff.1 hnil
      omega
    · unfold OutputBuffer.clampBytes
      have hcap : 0 < outputRetentionMaxBytes := by decide
      omega

end Answered

end Tasty.Terminal
