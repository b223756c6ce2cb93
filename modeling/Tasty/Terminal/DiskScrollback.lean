/-
The swap file of a scrollback: rows that left the memory are records of one
file, found by their offsets. Every call to the file system may fail, an
append after any number of bytes; rows dropped at the front stay in the
file until a compaction moves the others to a fresh one.

`Layout` says what the counters mean, and one lemma for each operation says
which records it leaves.
-/
import Tasty.Terminal.ScrollbackLine

namespace Tasty.Terminal

open List hiding getElem?_eq_some_iff

open ByteFile

open ByteFile (le ofLe offsets)

-- ==== the model

/-- `FILE_MAGIC`, then `FORMAT_VERSION`. -/
def header : List UInt8 := [0x54, 0x53, 0x53, 0x42] ++ le 4 3

def HEADER_LEN : Nat := 8

/-- The size of a write, about. -/
def WRITE_CHUNK : Nat := 2 ^ 20

def MIN_COMPACTION_RECORDS : Nat := 4096

def compactionThreshold (cap : Nat) : Nat := max cap MIN_COMPACTION_RECORDS

/-- The file behind the held handle, and whether its path still leads to
it. -/
structure BackingFile where
  bytes : List UInt8
  position : Nat
  linked : Bool

/-- `write_all` at the position of the handle. -/
def BackingFile.write (f : BackingFile) (bytes : List UInt8) : BackingFile :=
  { f with
    bytes := ByteFile.writeAt f.bytes f.position bytes
    position := f.position + bytes.length }

/-- A new instance file with its header written. -/
def BackingFile.fresh : BackingFile where
  bytes := header
  position := HEADER_LEN
  linked := true

/-- What becomes of one append. -/
inductive Append
  | done
  /-- The seek after an earlier failure fails. -/
  | noSeek
  /-- The write stops after so many bytes. -/
  | short (n : Nat)

/-- Which of the calls of one compaction succeed. -/
structure Compaction where
  copied : Bool
  cleared : Bool
  replaced : Bool
  restarted : Bool

structure DiskScrollback where
  /-- Records at the front that were dropped but are still in the file. -/
  head : Nat
  lineOffsets : List Nat
  fileSize : Nat
  file : BackingFile
  positionKnown : Bool
  lossReported : Bool

namespace DiskScrollback

variable {ρ : Type}

def new : DiskScrollback where
  head := 0
  lineOffsets := []
  fileSize := HEADER_LEN
  file := .fresh
  positionKnown := true
  lossReported := false

/-- `len:u32 | line_bytes`. -/
def record (line : ScrollbackLine ρ) : List UInt8 :=
  le 4 (serializeLine line).length ++ serializeLine line

/-- Answers whether the bytes were written. -/
def append (d : DiskScrollback) (bytes : List UInt8) (w : Append) :
    DiskScrollback × Bool :=
  if bytes.isEmpty then (d, true)
  else
    let sought := if d.positionKnown then d else
      { d with file.position := d.fileSize, positionKnown := true }
    match w with
    | .done => ({ sought with file := sought.file.write bytes }, true)
    | .noSeek => (d, false)
    | .short n =>
      ({ sought with file := sought.file.write (bytes.take n) }, false)

/-- The loop of `push_lines` over the lines that are left: what was written
so far, what waits in the buffer, and the offsets; `none` when an append
failed. -/
def writeLines (start : Nat) : List (ScrollbackLine ρ) → List Append →
    DiskScrollback → (written : Nat) → (buf : List UInt8) →
    (offsets : List Nat) → DiskScrollback × Option (Nat × List Nat)
  | [], ws, d, written, buf, offsets =>
    match d.append buf (ws.headD .done) with
    | (d, true) => (d, some (written + buf.length, offsets))
    | (d, false) => (d, none)
  | line :: lines, ws, d, written, buf, offsets =>
    let offsets := offsets ++ [start + written + buf.length]
    let buf := buf ++ record line
    if WRITE_CHUNK ≤ buf.length then
      match d.append buf (ws.headD .done) with
      | (d, true) =>
        writeLines start lines ws.tail d (written + buf.length) [] offsets
      | (d, false) => (d, none)
    else writeLines start lines ws d written buf offsets

/-- Cut the file after a failed append; the cut may fail as well. -/
def discardFrom (d : DiskScrollback) (size : Nat) (cut : Bool) :
    DiskScrollback :=
  { d with
    positionKnown := false
    file := if cut then
        { d.file with bytes := ByteFile.setLen d.file.bytes size }
      else d.file }

/-- All or nothing; answers whether the lines were written. -/
def pushLines (d : DiskScrollback) (lines : List (ScrollbackLine ρ))
    (ws : List Append) (cut : Bool) : DiskScrollback × Bool :=
  if lines.isEmpty then (d, true)
  else match writeLines d.fileSize lines ws d 0 [] [] with
    | (d', none) => (d'.discardFrom d.fileSize cut, false)
    | (d', some (written, offsets)) =>
      ({ d' with
        lineOffsets := d'.lineOffsets ++ offsets
        fileSize := d.fileSize + written }, true)

def lineCount (d : DiskScrollback) : Nat := d.lineOffsets.length - d.head

/-- Where the oldest retained record begins. -/
def startOffset (d : DiskScrollback) : Nat :=
  d.lineOffsets[d.head]?.getD d.fileSize

def resetToHeader (d : DiskScrollback) (positionKnown : Bool) :
    DiskScrollback :=
  { d with
    head := 0
    lineOffsets := []
    fileSize := HEADER_LEN
    positionKnown := positionKnown }

/-- Cut the file to its header. -/
def clear (d : DiskScrollback) (cut : Bool) : DiskScrollback × Bool :=
  if cut then
    (({ d with
      file.bytes := ByteFile.setLen d.file.bytes HEADER_LEN }).resetToHeader
        false, true)
  else (d, false)

def replaceWithFreshFile (d : DiskScrollback) (replaced : Bool) :
    DiskScrollback × Bool :=
  if replaced then ({ d with file := .fresh }.resetToHeader true, true)
  else (d, false)

/-- The copy of the retained records; the path is opened anew to read
them. -/
def copyRetained (d : DiskScrollback) (copied : Bool) :
    Option (BackingFile × Nat) :=
  let base := d.startOffset
  let length := d.fileSize - base
  let moved := (d.file.bytes.drop base).take length
  if copied && d.file.linked && moved.length == length then
    some ({ bytes := header ++ moved
            position := HEADER_LEN + moved.length
            linked := true }, base)
  else none

def adoptCopy (d : DiskScrollback) (file : BackingFile) (base : Nat) :
    DiskScrollback :=
  { d with
    file := file
    lineOffsets :=
      (d.lineOffsets.drop d.head).map fun o => o - base + HEADER_LEN
    fileSize := d.fileSize - base + HEADER_LEN
    head := 0
    positionKnown := true }

/-- A missing file is replaced, another one cut to its header; when neither
works, the counters restart alone. -/
def restartStorage (d : DiskScrollback) (c : Compaction) : DiskScrollback :=
  match if d.file.linked then d.clear c.restarted
    else match d.replaceWithFreshFile c.replaced with
      | (d, true) => (d, true)
      | (d, false) => d.clear c.restarted with
  | (d, true) => d
  | (d, false) => d.resetToHeader false

/-- Give up every record; the loss is reported once in a row. -/
def restartAfterFailure (d : DiskScrollback) (c : Compaction) :
    DiskScrollback :=
  { d.restartStorage c with lossReported := true }

/-- Release the dropped prefix; answers how many retained rows were given
up because that failed. -/
def compact (d : DiskScrollback) (c : Compaction) : DiskScrollback × Nat :=
  if d.head = 0 then (d, 0)
  else if d.lineCount = 0 then
    match d.clear c.cleared with
    | (d, true) => (d, 0)
    | (d, false) => (d.restartAfterFailure c, 0)
  else match d.copyRetained c.copied with
    | some (file, base) =>
      ({ d.adoptCopy file base with lossReported := false }, 0)
    | none => (d.restartAfterFailure c, d.lineCount)

/-- Drop the oldest `count` retained rows, at least; answers how many were
dropped. -/
def dropFront (d : DiskScrollback) (count cap : Nat) (c : Compaction) :
    DiskScrollback × Nat :=
  let dropped := min count d.lineCount
  let d := { d with head := d.head + dropped }
  if compactionThreshold cap ≤ d.head || d.lineCount == 0 then
    let (d, lost) := d.compact c
    (d, dropped + lost)
  else (d, dropped)

/-- Read a row; `none` for an error, `some none` beyond the last row. -/
def readLine [Inhabited ρ] (d : DiskScrollback) (index : Nat)
    (opened : Bool) : Option (Option (ScrollbackLine ρ)) :=
  if d.lineCount ≤ index then some none
  else if opened && d.file.linked then do
    let offset ← d.lineOffsets[d.head + index]?
    let rest := d.file.bytes.drop offset
    if rest.length < 4 then none
    else
      let len := ofLe (rest.take 4)
      let data := (rest.drop 4).take len
      if data.length < len then none else some (some (deserializeLine data))
  else none

-- ==== the layout

/-- The pieces of a file that begin at the offsets. -/
def slices (bytes : List UInt8) (fileSize : Nat) :
    List Nat → List (List UInt8)
  | [] => []
  | o :: os =>
    (bytes.drop o).take (os.headD fileSize - o) :: slices bytes fileSize os

/-- The retained records. -/
def records (d : DiskScrollback) : List (List UInt8) :=
  slices d.file.bytes d.fileSize (d.lineOffsets.drop d.head)

/-- The length in front of a record does not lead out of it. -/
def Framed (r : List UInt8) : Prop :=
  4 ≤ r.length ∧ ofLe (r.take 4) ≤ r.length - 4

/-- The file holds its header and these records, and the counters say
where. -/
structure Layout (d : DiskScrollback) (recs : List (List UInt8)) : Prop where
  bytes : d.file.bytes.take d.fileSize = header ++ recs.flatten
  size : d.fileSize = HEADER_LEN + recs.flatten.length
  offsets : d.lineOffsets = ByteFile.offsets HEADER_LEN recs
  head : d.head ≤ recs.length
  position : d.positionKnown = true → d.file.position = d.fileSize
  framed : ∀ r ∈ recs, Framed r

@[simp] theorem length_header : header.length = HEADER_LEN := rfl

theorem framed_record (line : ScrollbackLine ρ) : Framed (record line) := by
  have htake : (record line).take 4 = le 4 (serializeLine line).length :=
    take_left' (length_le 4 _)
  have hlen : (record line).length = 4 + (serializeLine line).length := by
    simp [record]
  refine ⟨by omega, ?_⟩
  rw [htake, ofLe_le, hlen, Nat.add_sub_cancel_left]
  exact Nat.mod_le _ _

theorem slices_offsets {bytes rest : List UInt8} {fileSize : Nat} :
    ∀ (recs : List (List UInt8)) (base : Nat),
      bytes.drop base = recs.flatten ++ rest →
      fileSize = base + recs.flatten.length →
      slices bytes fileSize (offsets base recs) = recs
  | [], _, _, _ => rfl
  | r :: recs, base, hbytes, hsize => by
    rw [flatten_cons, append_assoc] at hbytes
    rw [flatten_cons, length_append, ← Nat.add_assoc] at hsize
    have hnext : (offsets (base + r.length) recs).headD fileSize
        = base + r.length := by
      cases recs with
      | nil => simpa [offsets] using hsize
      | cons _ _ => rfl
    have hdrop : bytes.drop (base + r.length) = recs.flatten ++ rest := by
      rw [← drop_drop, hbytes, drop_left]
    rw [offsets, slices, hnext, slices_offsets recs _ hdrop hsize,
      Nat.add_sub_cancel_left, hbytes, take_left]

theorem flatten_eq (n : Nat) (recs : List (List UInt8)) :
    recs.flatten = (recs.take n).flatten ++ (recs.drop n).flatten := by
  rw [← flatten_append, take_append_drop]

namespace Layout

variable {d : DiskScrollback} {recs : List (List UInt8)}

variable (h : d.Layout recs)

include h

theorem size_le : d.fileSize ≤ d.file.bytes.length := by
  have hlen := congrArg List.length h.bytes
  have hsize := h.size
  simp only [length_take, length_append, length_header] at hlen
  omega

theorem lineCount : d.lineCount = recs.length - d.head := by
  rw [DiskScrollback.lineCount, h.offsets, length_offsets]

/-- The file from a record on. -/
theorem drop_bytes (n : Nat) :
    d.file.bytes.drop (HEADER_LEN + (recs.take n).flatten.length)
      = (recs.drop n).flatten ++ d.file.bytes.drop d.fileSize := by
  have hsplit : d.file.bytes = (header ++ (recs.take n).flatten)
      ++ ((recs.drop n).flatten ++ d.file.bytes.drop d.fileSize) := by
    rw [append_assoc, ← append_assoc (recs.take n).flatten,
      ← flatten_eq, ← append_assoc, ← h.bytes, take_append_drop]
  conv_lhs => rw [hsplit]
  exact drop_left' (by rw [length_append, length_header])

theorem records : d.records = recs.drop d.head := by
  have hsize : d.fileSize = HEADER_LEN + (recs.take d.head).flatten.length
      + (recs.drop d.head).flatten.length := by
    rw [h.size, flatten_eq d.head recs, length_append, Nat.add_assoc]
  rw [DiskScrollback.records, h.offsets, offsets_drop,
    slices_offsets _ _ (h.drop_bytes _) hsize]

theorem length_records : d.records.length = d.lineCount := by
  rw [h.records, h.lineCount, length_drop]

omit h

end Layout

theorem new_layout : new.Layout [] where
  bytes := rfl
  size := rfl
  offsets := rfl
  head := Nat.le_refl 0
  position := fun _ => rfl
  framed := by simp

-- ==== appending

/-- In the middle of a batch that began at `d₀`: `done` lies behind what
the counters know, and the handle stands behind it. -/
structure Writing (d₀ d : DiskScrollback) (done : List UInt8) : Prop where
  frame : d = { d₀ with file := d.file, positionKnown := d.positionKnown }
  bytes : d.file.bytes.take (d₀.fileSize + done.length)
    = d₀.file.bytes.take d₀.fileSize ++ done
  fits : d₀.fileSize + done.length ≤ d.file.bytes.length
  known : d.positionKnown = true →
    d.file.position = d₀.fileSize + done.length
  unknown : d.positionKnown = false → done = []

/-- A batch that failed left what the counters know. -/
structure Spoilt (d₀ d : DiskScrollback) : Prop where
  frame : d = { d₀ with file := d.file, positionKnown := d.positionKnown }
  bytes : d.file.bytes.take d₀.fileSize = d₀.file.bytes.take d₀.fileSize
  fits : d₀.fileSize ≤ d.file.bytes.length

variable {d₀ d d' : DiskScrollback} {done bytes : List UInt8} {w : Append}
  {recs : List (List UInt8)}

theorem Layout.writing (h : d.Layout recs) : Writing d d [] where
  frame := rfl
  bytes := by simp
  fits := h.size_le
  known := h.position
  unknown := fun _ => rfl

theorem Writing.spoilt (h : Writing d₀ d done) : Spoilt d₀ d where
  frame := h.frame
  bytes := by
    have hlen := h.fits
    have := congrArg (List.take d₀.fileSize) h.bytes
    rw [take_take, Nat.min_eq_left (by omega),
      take_append_of_le_length] at this
    · simpa [take_take] using this
    · have hpre := congrArg List.length h.bytes
      simp only [length_take, length_append] at hpre ⊢
      omega
  fits := by
    have := h.fits
    omega

/-- What one write adds, from where the handle is known to stand. -/
theorem Writing.write (h : Writing d₀ d done)
    (hk : d.positionKnown = true) (bytes : List UInt8) :
    Writing d₀ { d with file := d.file.write bytes } (done ++ bytes) where
  frame := by
    rw [h.frame]
  bytes := by
    have hpos := h.known hk
    have hle : d.file.position ≤ d.file.bytes.length := by
      rw [hpos]
      exact h.fits
    rw [length_append, ← Nat.add_assoc, ← hpos]
    show (writeAt d.file.bytes d.file.position bytes).take _ = _
    rw [take_writeAt hle, hpos, h.bytes, append_assoc]
  fits := by
    have hpos := h.known hk
    have hle : d.file.position ≤ d.file.bytes.length := by
      rw [hpos]
      exact h.fits
    rw [length_append, ← Nat.add_assoc, ← hpos]
    exact length_writeAt hle
  known := fun _ => by
    show d.file.position + bytes.length = _
    rw [h.known hk, length_append, Nat.add_assoc]
  unknown := fun hu => by
    rw [show d.positionKnown = false from hu] at hk
    cases hk

/-- After a failed append the next one first seeks back to the end that the
counters know. -/
theorem Writing.seek (h : Writing d₀ d done) (hu : d.positionKnown = false) :
    Writing d₀ { d with
      file.position := d.fileSize, positionKnown := true } done where
  frame := by
    rw [h.frame]
  bytes := h.bytes
  fits := h.fits
  known := fun _ => by
    rw [h.unknown hu]
    show d.fileSize = _
    rw [h.frame]
    rfl
  unknown := nofun

theorem Writing.append (h : Writing d₀ d done) (bytes : List UInt8)
    (w : Append) :
    (∃ d', d.append bytes w = (d', true) ∧ Writing d₀ d' (done ++ bytes))
      ∨ (∃ d', d.append bytes w = (d', false) ∧ Spoilt d₀ d') := by
  by_cases he : bytes.isEmpty
  · refine .inl ⟨d, if_pos he, ?_⟩
    rw [List.isEmpty_iff.1 he, append_nil]
    exact h
  · obtain ⟨sought, hdef, hs, hk⟩ : ∃ sought,
        sought = (if d.positionKnown then d else
          { d with file.position := d.fileSize, positionKnown := true })
        ∧ Writing d₀ sought done ∧ sought.positionKnown = true := by
      refine ⟨_, rfl, ?_⟩
      split
      · next hk => exact ⟨h, hk⟩
      · next hk => exact ⟨h.seek (by simpa using hk), rfl⟩
    unfold DiskScrollback.append
    rw [if_neg he]
    dsimp only
    rw [← hdef]
    cases w with
    | done => exact .inl ⟨_, rfl, hs.write hk bytes⟩
    | noSeek => exact .inr ⟨_, rfl, h.spoilt⟩
    | short n => exact .inr ⟨_, rfl, (hs.write hk (bytes.take n)).spoilt⟩

theorem Writing.lines (lines : List (ScrollbackLine ρ)) (ws : List Append)
    (buf : List UInt8) (offs : List Nat) (h : Writing d₀ d done) :
    (∃ d' ws', writeLines d₀.fileSize lines ws d done.length buf offs
          = (d', some ws')
        ∧ Writing d₀ d' (done ++ buf ++ (lines.map record).flatten)
        ∧ ws'.1 = (done ++ buf ++ (lines.map record).flatten).length
        ∧ ws'.2 = offs ++ offsets
            (d₀.fileSize + done.length + buf.length) (lines.map record))
      ∨ (∃ d', writeLines d₀.fileSize lines ws d done.length buf offs
          = (d', none) ∧ Spoilt d₀ d') := by
  induction lines generalizing ws d done buf offs with
  | nil =>
    unfold writeLines
    obtain ⟨d', he, hw⟩ | ⟨d', he, hs⟩ := h.append buf (ws.headD .done)
    · rw [he]
      exact .inl ⟨d', (done.length + buf.length, offs), rfl,
        by simpa using hw, by simp, by simp [offsets]⟩
    · rw [he]
      exact .inr ⟨d', rfl, hs⟩
  | cons line lines ih =>
    unfold writeLines
    dsimp only
    split
    · -- the buffer is full: it is written before the next line
      obtain ⟨d', he, hw⟩ | ⟨d', he, hs⟩ :=
        h.append (buf ++ record line) (ws.headD .done)
      · rw [he]
        have hnext := ih ws.tail []
          (offs ++ [d₀.fileSize + done.length + buf.length]) hw
        rw [length_append] at hnext
        obtain ⟨d'', ws', he, hw, hlen, hoffs⟩ | hspoilt := hnext
        · refine .inl ⟨d'', ws', he, by simpa using hw,
            by simpa [Nat.add_assoc] using hlen, ?_⟩
          rw [hoffs]
          simp [offsets, Nat.add_assoc]
        · exact .inr hspoilt
      · rw [he]
        exact .inr ⟨d', rfl, hs⟩
    · obtain ⟨d', ws', he, hw, hlen, hoffs⟩ | hspoilt :=
        ih ws (buf ++ record line)
          (offs ++ [d₀.fileSize + done.length + buf.length]) h
      · refine .inl ⟨d', ws', he, by simpa using hw,
          by simpa [Nat.add_assoc] using hlen, ?_⟩
        rw [hoffs]
        simp [offsets, Nat.add_assoc]
      · exact .inr hspoilt

-- ==== the operations

/-- The counters describe the file. -/
def Sound (d : DiskScrollback) : Prop := ∃ recs, d.Layout recs

theorem Sound.length_records (h : d.Sound) :
    d.records.length = d.lineCount := by
  obtain ⟨recs, h⟩ := h
  exact h.length_records

theorem new_sound : new.Sound := ⟨[], new_layout⟩

@[simp] theorem new_records : new.records = [] := rfl

/-- The handle still leads to a file that was removed. -/
theorem Sound.unlink (h : d.Sound) : Sound { d with file.linked := false } := by
  obtain ⟨recs, h⟩ := h
  exact ⟨recs, { h with }⟩

theorem Layout.discardFrom (h : d.Layout recs) (hs : Spoilt d d')
    (cut : Bool) : (d'.discardFrom d.fileSize cut).Layout recs := by
  have hbytes : (d'.discardFrom d.fileSize cut).file.bytes.take d.fileSize
      = header ++ recs.flatten := by
    rw [← h.bytes, ← hs.bytes]
    unfold DiskScrollback.discardFrom
    cases cut with
    | false => rfl
    | true =>
      show (setLen d'.file.bytes d.fileSize).take _ = _
      rw [take_setLen hs.fits, take_take, Nat.min_self]
  have hframe := hs.frame
  have hsize : d'.fileSize = d.fileSize := by rw [hframe]
  have hoffsets : d'.lineOffsets = d.lineOffsets := by rw [hframe]
  have hhead : d'.head = d.head := by rw [hframe]
  exact {
    bytes := by
      show (d'.discardFrom d.fileSize cut).file.bytes.take d'.fileSize = _
      rw [hsize]
      exact hbytes
    size := hsize.trans h.size
    offsets := hoffsets.trans h.offsets
    head := by
      show d'.head ≤ _
      rw [hhead]
      exact h.head
    position := nofun
    framed := h.framed }

/-- A batch is written as a whole, or nothing of it. -/
theorem Sound.pushLines (h : d.Sound) (lines : List (ScrollbackLine ρ))
    (ws : List Append) (cut : Bool) :
    (∃ d', d.pushLines lines ws cut = (d', true) ∧ d'.Sound
        ∧ d'.records = d.records ++ lines.map record)
      ∨ (∃ d', d.pushLines lines ws cut = (d', false) ∧ d'.Sound
        ∧ d'.records = d.records) := by
  have hd := h
  obtain ⟨recs, h⟩ := h
  unfold DiskScrollback.pushLines
  split
  · next he =>
    refine .inl ⟨d, rfl, hd, ?_⟩
    rw [List.isEmpty_iff.1 he, map_nil, append_nil]
  · obtain ⟨d', ws', he, hw, hlen, hoffs⟩ | ⟨d', he, hs⟩ :=
      h.writing.lines lines ws [] []
    · simp only [length_nil, nil_append] at he hw
      simp only [nil_append, length_nil, Nat.add_zero]
        at hlen hoffs
      rw [he]
      have hframe := hw.frame
      have hhead : d'.head = d.head := by rw [hframe]
      have hoffsets : d'.lineOffsets = d.lineOffsets := by rw [hframe]
      have hlay : Layout { d' with
          lineOffsets := d'.lineOffsets ++ ws'.2
          fileSize := d.fileSize + ws'.1 } (recs ++ lines.map record) := {
        bytes := by
          show d'.file.bytes.take (d.fileSize + ws'.1) = _
          rw [hlen, hw.bytes, h.bytes, flatten_append, append_assoc]
        size := by
          show d.fileSize + ws'.1 = _
          rw [hlen, h.size, flatten_append, length_append, Nat.add_assoc]
        offsets := by
          show d'.lineOffsets ++ ws'.2 = _
          rw [hoffsets, hoffs, h.offsets, offsets_append, h.size]
        head := by
          show d'.head ≤ _
          have := h.head
          rw [hhead, length_append]
          omega
        position := fun hk => by
          show d'.file.position = d.fileSize + ws'.1
          rw [hw.known hk, hlen]
        framed := fun r hr => by
          rcases mem_append.1 hr with hr | hr
          · exact h.framed r hr
          · obtain ⟨line, -, rfl⟩ := mem_map.1 hr
            exact framed_record line }
      refine .inl ⟨_, rfl, ⟨_, hlay⟩, ?_⟩
      rw [hlay.records, h.records]
      show (recs ++ lines.map record).drop d'.head = _
      rw [hhead, drop_append_of_le_length h.head]
    · simp only [length_nil] at he
      rw [he]
      have hlay := h.discardFrom hs cut
      refine .inr ⟨_, rfl, ⟨_, hlay⟩, ?_⟩
      rw [hlay.records, h.records]
      show recs.drop d'.head = _
      rw [hs.frame]

/-- Counters that restart describe any file that has its header. -/
theorem resetToHeader_layout (hbytes : d.file.bytes.take HEADER_LEN = header)
    {known : Bool} (hk : known = true → d.file.position = HEADER_LEN) :
    (d.resetToHeader known).Layout [] where
  bytes := by
    rw [flatten_nil, append_nil]
    exact hbytes
  size := rfl
  offsets := rfl
  head := Nat.le_refl 0
  position := hk
  framed := by simp

theorem Layout.header_bytes (h : d.Layout recs) :
    d.file.bytes.take HEADER_LEN = header := by
  have := congrArg (List.take HEADER_LEN) h.bytes
  rw [take_take, Nat.min_eq_left (by rw [h.size]; omega),
    take_append_of_le_length (Nat.le_of_eq length_header.symm),
    ← length_header, take_length] at this
  exact this

theorem layout_nil_records (h : d.Layout []) : d.records = [] := by
  rw [h.records, drop_nil]

theorem Layout.clear (h : d.Layout recs) : (d.clear true).1.Layout [] := by
  have hlen : HEADER_LEN ≤ d.file.bytes.length := by
    have := h.size_le
    have := h.size
    omega
  refine resetToHeader_layout ?_ nofun
  show (setLen d.file.bytes HEADER_LEN).take HEADER_LEN = header
  rw [take_setLen hlen, take_take, Nat.min_self]
  exact h.header_bytes

/-- Clearing drops every record, or nothing when the file cannot be cut. -/
theorem Sound.clear (h : d.Sound) (cut : Bool) :
    (d.clear cut).1.Sound
      ∧ ((d.clear cut).1.records = []
        ∨ (d.clear cut).2 = false ∧ (d.clear cut).1 = d) := by
  cases cut with
  | false => exact ⟨h, .inr ⟨rfl, rfl⟩⟩
  | true =>
    obtain ⟨recs, h⟩ := h
    exact ⟨⟨[], h.clear⟩, .inl (layout_nil_records h.clear)⟩

variable (h : d.Layout recs)

include h

theorem Layout.restartStorage (c : Compaction) :
    (d.restartStorage c).Layout [] := by
  have hreset : (d.resetToHeader false).Layout [] :=
    resetToHeader_layout h.header_bytes nofun
  have hclear : Layout (match d.clear c.restarted with
      | (d, true) => d
      | (d, false) => d.resetToHeader false) [] := by
    cases hr : c.restarted with
    | true => exact h.clear
    | false => exact hreset
  unfold DiskScrollback.restartStorage
  cases d.file.linked with
  | true => exact hclear
  | false =>
    cases hr : c.replaced with
    | true => exact resetToHeader_layout rfl fun _ => rfl
    | false => exact hclear

theorem Layout.restartAfterFailure (c : Compaction) :
    (d.restartAfterFailure c).Layout [] := by
  have := h.restartStorage c
  exact { this with }

theorem Layout.startOffset :
    d.startOffset = HEADER_LEN + (recs.take d.head).flatten.length := by
  unfold DiskScrollback.startOffset
  rw [h.offsets]
  by_cases hlt : d.head < recs.length
  · rw [offsets_getElem? hlt]
    rfl
  · rw [getElem?_eq_none (by rw [length_offsets]; omega),
      take_of_length_le (by omega)]
    exact h.size

/-- The bytes of the retained records. -/
theorem Layout.length_retained :
    d.fileSize - d.startOffset = (recs.drop d.head).flatten.length := by
  rw [h.size, h.startOffset, flatten_eq d.head recs, length_append]
  omega

theorem Layout.adoptCopy {copied : Bool} {file : BackingFile} {base : Nat}
    (hc : d.copyRetained copied = some (file, base)) :
    (d.adoptCopy file base).Layout (recs.drop d.head) := by
  have hbase := h.startOffset
  have hsize := h.length_retained
  have hmoved : (d.file.bytes.drop d.startOffset).take
      (d.fileSize - d.startOffset) = (recs.drop d.head).flatten := by
    rw [hsize, hbase, h.drop_bytes, take_left]
  unfold DiskScrollback.copyRetained at hc
  dsimp only at hc
  rw [hmoved] at hc
  split at hc
  · simp only [Option.some.injEq, Prod.mk.injEq] at hc
    obtain ⟨hfile, hb⟩ := hc
    have hfs : (d.adoptCopy file base).fileSize
        = HEADER_LEN + (recs.drop d.head).flatten.length := by
      show d.fileSize - base + HEADER_LEN = _
      rw [← hb, hsize, Nat.add_comm]
    exact {
      bytes := by
        rw [hfs]
        show file.bytes.take _ = _
        rw [← hfile]
        exact take_of_length_le (by simp)
      size := hfs
      offsets := by
        show (d.lineOffsets.drop d.head).map _ = _
        rw [h.offsets, offsets_drop, ← hb, hbase, offsets_shift _ _ (Nat.le_refl
          _), Nat.sub_self, Nat.zero_add]
      head := Nat.zero_le _
      position := fun _ => by
        rw [hfs]
        show file.position = _
        rw [← hfile]
      framed := fun r hr => h.framed r (mem_of_mem_drop hr) }
  · cases hc

omit h

theorem Sound.compact (h : d.Sound) (c : Compaction) :
    (d.compact c).1.Sound
      ∧ (d.compact c).1.records = d.records.drop (d.compact c).2
      ∧ (d.compact c).2 ≤ d.lineCount := by
  have hd := h
  obtain ⟨recs, h⟩ := h
  have hrestart := h.restartAfterFailure c
  have hlen := h.length_records
  unfold DiskScrollback.compact
  split
  · exact ⟨hd, by simp, Nat.zero_le _⟩
  · split
    · next hzero =>
      have hnone : d.records = [] := by
        rw [← length_eq_zero_iff, hlen, hzero]
      rw [hnone]
      cases hc : c.cleared with
      | true =>
        exact ⟨⟨[], h.clear⟩, layout_nil_records h.clear, Nat.zero_le _⟩
      | false =>
        exact ⟨⟨[], hrestart⟩, layout_nil_records hrestart, Nat.zero_le _⟩
    · split
      · next file base hcopy =>
        have hcopied := h.adoptCopy hcopy
        have hlay : Layout { d.adoptCopy file base with
            lossReported := false } (recs.drop d.head) := { hcopied with }
        refine ⟨⟨_, hlay⟩, ?_, Nat.zero_le _⟩
        rw [hlay.records, h.records]
        rfl
      · refine ⟨⟨[], hrestart⟩, ?_, Nat.le_refl _⟩
        rw [layout_nil_records hrestart, drop_eq_nil_of_le]
        exact Nat.le_of_eq hlen

theorem Layout.advance (h : d.Layout recs) {n : Nat} (hn : n ≤ d.lineCount) :
    Layout { d with head := d.head + n } recs where
  bytes := h.bytes
  size := h.size
  offsets := h.offsets
  head := by
    have := h.lineCount
    have := h.head
    show d.head + n ≤ recs.length
    omega
  position := h.position
  framed := h.framed

/-- At least what was asked for goes at the front, and as many rows as it
answers. -/
theorem Sound.dropFront (h : d.Sound) (count cap : Nat) (c : Compaction) :
    (d.dropFront count cap c).1.Sound
      ∧ (d.dropFront count cap c).1.records
        = d.records.drop (d.dropFront count cap c).2
      ∧ min count d.lineCount ≤ (d.dropFront count cap c).2
      ∧ (d.dropFront count cap c).2 ≤ d.lineCount := by
  obtain ⟨recs, h⟩ := h
  have hle : min count d.lineCount ≤ d.lineCount := Nat.min_le_right _ _
  have hadv := h.advance hle
  have hrecords : ({ d with
        head := d.head + min count d.lineCount } : DiskScrollback).records
      = d.records.drop (min count d.lineCount) := by
    rw [hadv.records, h.records, drop_drop]
  have hcount : ({ d with
        head := d.head + min count d.lineCount } : DiskScrollback).lineCount
      = d.lineCount - min count d.lineCount := by
    have := h.lineCount
    rw [hadv.lineCount]
    show recs.length - (d.head + _) = _
    omega
  unfold DiskScrollback.dropFront
  dsimp only
  split
  · obtain ⟨hs, hr, hl⟩ := Sound.compact ⟨recs, hadv⟩ c
    refine ⟨hs, ?_, Nat.le_add_right _ _, ?_⟩
    · rw [hr, hrecords, drop_drop]
    · rw [hcount] at hl
      dsimp only
      omega
  · exact ⟨⟨recs, hadv⟩, hrecords, Nat.le_refl _, hle⟩

/-- What a record reads as. -/
def readRecord [Inhabited ρ] (r : List UInt8) : ScrollbackLine ρ :=
  deserializeLine ((r.drop 4).take (ofLe (r.take 4)))

theorem Sound.readLine [Inhabited ρ] (h : d.Sound) {i : Nat}
    {r : List UInt8} (hr : d.records[i]? = some r) (opened : Bool) :
    d.readLine (ρ := ρ) i opened = if opened && d.file.linked then
      some (some (readRecord r)) else none := by
  obtain ⟨recs, h⟩ := h
  rw [h.records, getElem?_drop] at hr
  obtain ⟨hlt, hget⟩ := getElem?_eq_some_iff.1 hr
  have hcount := h.lineCount
  unfold DiskScrollback.readLine
  rw [if_neg (by omega)]
  split
  · obtain ⟨hfour, hlen⟩ := h.framed r (mem_of_getElem? hr)
    have hrest := h.drop_bytes (d.head + i)
    rw [← getElem_cons_drop hlt, hget, flatten_cons, append_assoc] at hrest
    rw [h.offsets, offsets_getElem? hlt]
    simp only [Option.bind_eq_bind, Option.bind_some, hrest]
    rw [if_neg (by rw [length_append]; omega),
      take_append_of_le_length hfour,
      drop_append_of_le_length hfour,
      take_append_of_le_length (by rw [length_drop]; exact hlen),
      if_neg (by
        rw [length_take, length_drop, Nat.min_eq_left hlen]
        omega)]
    rfl
  · rfl

theorem readRecord_record [Inhabited ρ] {line : ScrollbackLine ρ}
    (h : line.Fits) : readRecord (record line) = line.kept := by
  unfold readRecord record
  rw [take_left' (length_le 4 _), drop_left' (length_le 4 _),
    ofLe_le_of_lt h.bytes, take_length]
  exact deserializeLine_serializeLine h

end DiskScrollback

end Tasty.Terminal
