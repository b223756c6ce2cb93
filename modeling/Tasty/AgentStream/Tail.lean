/-
Reading a transcript that another process appends to: `TailState`, one
`poll` of it, and how the bytes that were read become lines.

A line is handed on once its newline was read; what follows the last
newline is held back. The offset counts what is held back as read.
-/
import Tasty.Lib.Lines

namespace Tasty.AgentStream

abbrev Bytes := List UInt8

abbrev Text := List Char

-- ==== decoding

/-- A character of which some bytes were read: its value so far, how many
bytes are to come, and the range of the next one. -/
structure Sequence where
  value : Nat
  left : Nat
  low : Nat
  high : Nat

/-- What a first byte of a character starts; a byte that starts none is
replaced by itself. -/
def firstByte (b : Nat) : List Char × Option Sequence :=
  if b < 0x80 then ([Char.ofNat b], none)
  else if 0xC2 ≤ b ∧ b ≤ 0xDF then ([], some ⟨b % 32, 1, 0x80, 0xBF⟩)
  else if b = 0xE0 then ([], some ⟨0, 2, 0xA0, 0xBF⟩)
  else if b = 0xED then ([], some ⟨13, 2, 0x80, 0x9F⟩)
  else if 0xE1 ≤ b ∧ b ≤ 0xEF then ([], some ⟨b % 16, 2, 0x80, 0xBF⟩)
  else if b = 0xF0 then ([], some ⟨0, 3, 0x90, 0xBF⟩)
  else if 0xF1 ≤ b ∧ b ≤ 0xF3 then ([], some ⟨b % 8, 3, 0x80, 0xBF⟩)
  else if b = 0xF4 then ([], some ⟨4, 3, 0x80, 0x8F⟩)
  else (['\uFFFD'], none)

/-- The next byte; a sequence that it does not continue is replaced, and
the byte starts over. -/
def nextByte : Option Sequence → Nat → List Char × Option Sequence
  | none, b => firstByte b
  | some sq, b =>
    if sq.low ≤ b ∧ b ≤ sq.high then
      let value := sq.value * 64 + b % 64
      if sq.left ≤ 1 then ([Char.ofNat value], none)
      else ([], some ⟨value, sq.left - 1, 0x80, 0xBF⟩)
    else ('\uFFFD' :: (firstByte b).1, (firstByte b).2)

/-- `String::from_utf8_lossy`, with a sequence begun. -/
def fromUtf8Lossy (begun : Option Sequence) : Bytes → Text
  | [] => if begun.isSome then ['\uFFFD'] else []
  | b :: bytes =>
    (nextByte begun b.toNat).1 ++ fromUtf8Lossy (nextByte begun b.toNat).2 bytes

/-- `char::is_whitespace`: the property White_Space. -/
def isWhitespace (c : Char) : Bool :=
  let n := c.toNat
  (9 ≤ n && n ≤ 13) || n == 0x20 || n == 0x85 || n == 0xA0 || n == 0x1680
    || (0x2000 ≤ n && n ≤ 0x200A) || n == 0x2028 || n == 0x2029
    || n == 0x202F || n == 0x205F || n == 0x3000

/-- `trim_end_matches('\r')`. -/
def trimEndCr (text : Text) : Text :=
  (text.reverse.dropWhile (· == '\r')).reverse

/-- The text of a complete line; a blank line has none. -/
def lineText (line : Bytes) : Option Text :=
  let text := trimEndCr (fromUtf8Lossy none line)
  if text.all isWhitespace then none else some text

/-- `b'\n'`. -/
def newline : UInt8 := 10

/-- The texts of the complete lines of some bytes. -/
def textsOf (bytes : Bytes) : List Text :=
  (Lines.lines newline bytes).filterMap lineText

-- ==== the tail

/-- `MAX_READ_PER_TICK`. -/
def MAX_READ_PER_TICK : Nat := 1 <<< 22

/-- The transcript at its path: its bytes, once it exists, and its inode or
file index. -/
structure Transcript where
  content : Option Bytes
  identity : Nat

def Transcript.bytes (f : Transcript) : Bytes := f.content.getD []

/-- `file_identity`, which may not be had. -/
def Transcript.fileIdentity (f : Transcript) (known : Bool) : Option Nat :=
  if known then some f.identity else none

structure TailState where
  offset : Nat
  partialLine : Bytes
  identity : Option Nat

inductive TailPoll where
  | missing
  | lines (lines : List Text) (resynced : Bool)

/-- Where the file system fails: nowhere, at the metadata, or at opening
and reading the file. -/
inductive Fault where
  | none
  | metadata
  | read
  deriving DecidableEq

namespace TailState

/-- `TailState::at_end`. -/
def atEnd (f : Transcript) (known : Bool) (fault : Fault) : TailState :=
  match fault, f.content with
  | .metadata, _ | _, none => ⟨0, [], none⟩
  | _, some bytes => ⟨bytes.length, [], f.fileIdentity known⟩

/-- `TailState::resume_at`. -/
def resumeAt (f : Transcript) (offset : Nat) (known : Bool)
    (fault : Fault) : TailState :=
  match fault, f.content with
  | .metadata, _ | _, none => ⟨offset, [], none⟩
  | _, some _ => ⟨offset, [], f.fileIdentity known⟩

/-- `TailState::resync`. -/
def resync (t : TailState) : TailState :=
  { t with offset := 0, partialLine := [] }

/-- Another file at the same path, as far as that can be told. -/
def replaced (t : TailState) (identity : Option Nat) : Bool :=
  match t.identity, identity with
  | some prev, some now => prev != now
  | _, _ => false

/-- `TailState::reconcile`, for a file of this length. -/
def reconcile (t : TailState) (length : Nat) (identity : Option Nat) :
    Bool × TailState :=
  let replaced := t.replaced identity
  let t' := { t with identity := identity.or t.identity }
  if replaced || length < t.offset then
    (true, { t'.resync with identity })
  else (false, t')

/-- `TailState::split_lines`. -/
def splitLines (t : TailState) (chunk : Bytes) : List Text × TailState :=
  let all := t.partialLine ++ chunk
  (textsOf all, { t with partialLine := Lines.rest newline all })

/-- `TailState::poll`; a file that fails gives no lines. -/
def poll (t : TailState) (f : Transcript) (known : Bool) (fault : Fault) :
    Except Fault TailPoll × TailState :=
  if fault = .metadata then (.error fault, t)
  else match f.content with
    | none => (.ok .missing, { t.resync with identity := none })
    | some bytes =>
      let (resynced, t) := t.reconcile bytes.length (f.fileIdentity known)
      if fault = .read then (.error fault, t)
      else
        let want := min (bytes.length - t.offset) MAX_READ_PER_TICK
        let buf := (bytes.drop t.offset).take want
        let t := { t with offset := t.offset + buf.length }
        let (lines, t) := t.splitLines buf
        (.ok (.lines lines resynced), t)

end TailState

-- ==== the watch

/-- `Watch`, as far as its file is concerned. -/
structure Watch where
  tail : Option TailState
  offset : Nat
  generation : Nat

/-- `TailCheckout`. -/
structure TailCheckout where
  tail : TailState
  generation : Nat

namespace Watch

/-- `StreamRegistry::check_out`. -/
def checkOut (w : Watch) : Option (TailCheckout × Watch) :=
  w.tail.map fun tail => (⟨tail, w.generation⟩, { w with tail := none })

/-- `StreamRegistry::check_in`. -/
def checkIn (w : Watch) (c : TailCheckout) : Bool × Watch :=
  if w.generation ≠ c.generation then (false, w)
  else (true, { w with offset := c.tail.offset, tail := some c.tail })

end Watch

/-- The lines that a poll gives. -/
def pollLines : Except Fault TailPoll → List Text
  | .ok (.lines lines _) => lines
  | .ok .missing | .error _ => []

/-- A plugin that watches one transcript: the watch, the tail that its pump
has in hand with what it read, and the snapshot on disk.

`emitted` is every line that was handed on, over all processes. `start` is
where the watch began; `handed` counts the bytes behind it up to the end of
the last complete line that was handed on. -/
structure Plugin where
  file : Transcript
  watch : Watch
  out : Option (TailCheckout × Option (Except Fault TailPoll))
  dirty : Bool
  saved : Option Nat
  emitted : List Text
  start : Nat
  handed : Nat

inductive Action where
  | append (bytes : Bytes)
  | checkOut
  | poll (known : Bool) (fault : Fault)
  | checkIn
  | markDirty
  | save (succeeds : Bool)
  | restart (known : Bool) (fault : Fault)

namespace Plugin

/-- `new_watch` and `insert`: from the start of the file or from its end. -/
def watching (file : Transcript) (fromStart known : Bool) (fault : Fault)
    (generation : Nat) : Plugin :=
  let tail := if fromStart then TailState.resumeAt file 0 known fault
    else TailState.atEnd file known fault
  { file
    watch := ⟨some tail, tail.offset, generation⟩
    out := none
    dirty := true
    saved := none
    emitted := []
    start := tail.offset
    handed := 0 }

/-- `apply_poll`. -/
def applyPoll (s : Plugin) (c : TailCheckout)
    (result : Except Fault TailPoll) : Plugin :=
  let (accepted, watch) := s.watch.checkIn c
  if !accepted then { s with out := none }
  else
    let lines := pollLines result
    let read := c.tail.offset - c.tail.partialLine.length
    { s with
      watch
      out := none
      dirty := s.dirty || !lines.isEmpty
      emitted := s.emitted ++ lines
      handed := max s.handed (read - s.start) }

/-- What happens next. A snapshot that fails to be written changes nothing;
a process starts again from a snapshot, if there is one. -/
def step (s : Plugin) : Action → Plugin
  | .append bytes =>
    { s with file := { s.file with content := some (s.file.bytes ++ bytes) } }
  | .checkOut =>
    match s.watch.checkOut with
    | none => s
    | some (c, watch) => { s with watch, out := some (c, none) }
  | .poll known fault =>
    match s.out with
    | some (c, none) =>
      let (result, tail) := c.tail.poll s.file known fault
      { s with out := some ({ c with tail }, some result) }
    | _ => s
  | .checkIn =>
    match s.out with
    | some (c, some result) => s.applyPoll c result
    | _ => s
  | .markDirty => { s with dirty := true }
  | .save succeeds =>
    if s.dirty && succeeds then
      { s with saved := some s.watch.offset, dirty := false }
    else s
  | .restart known fault =>
    match s.saved with
    | none => s
    | some offset =>
      { s with
        watch := ⟨some (TailState.resumeAt s.file offset known fault),
          offset, 1⟩
        out := none
        dirty := false }

/-- The state after some actions. -/
def run (s : Plugin) (actions : List Action) : Plugin :=
  actions.foldl step s

end Plugin

end Tasty.AgentStream
