/-
The swap file as a queue of rows: what the calls answer tells which rows
are in it, and every read agrees, whichever calls to the file system failed.
-/
import Tasty.Terminal.LineCodec

namespace Tasty.Terminal.DiskScrollback

open List

open ByteFile (frame unframe)

variable {ρ : Type}

-- ==== the model

def recordsLen (d : DiskScrollback) : Nat := d.fileSize - d.startOffset

/-- The rows of a range that are visited, with their indices, and whether
the end is reached; `reads` rows can be read before a call fails. -/
def forEachInRange [Inhabited ρ] (d : DiskScrollback) (start stop : Nat)
    (opened : Bool) (reads : Nat) : List (ScrollbackLine ρ × Nat) × Bool :=
  let stop := min stop d.lineCount
  if stop ≤ start then ([], true)
  else if opened && d.file.linked then
    match d.lineOffsets[d.head + start]? with
    | none => ([], false)
    | some offset =>
      let data := ((unframe (d.file.bytes.drop offset)).take
        (stop - start)).take reads
      ((data.map deserializeLine).zipIdx start, data.length == stop - start)
  else ([], false)

/-- A run of the calls that write, beside the rows that their answers tell
of. -/
inductive Run : DiskScrollback → List (ScrollbackLine ρ) → Prop
  | new : Run .new []
  | pushLines {d q} (h : Run d q) (lines : List (ScrollbackLine ρ))
    (ws : List Append) (cut : Bool) :
    Run (d.pushLines lines ws cut).1
      (if (d.pushLines lines ws cut).2 then q ++ lines else q)
  | dropFront {d q} (h : Run d q) (count cap : Nat) (c : Compaction) :
    Run (d.dropFront count cap c).1 (q.drop (d.dropFront count cap c).2)
  | compact {d q} (h : Run d q) (c : Compaction) :
    Run (d.compact c).1 (q.drop (d.compact c).2)
  | clear {d q} (h : Run d q) (cut : Bool) :
    Run (d.clear cut).1 (if (d.clear cut).2 then [] else q)
  /-- The file is removed from outside. -/
  | unlink {d q} (h : Run d q) : Run { d with file.linked := false } q

/-- What a visit of rows shows, when `reads` of them can be read. -/
def visited [Inhabited ρ] (rows : List (ScrollbackLine ρ)) (start : Nat)
    (opens : Bool) (reads : Nat) : List (ScrollbackLine ρ × Nat) × Bool :=
  if rows.isEmpty then ([], true)
  else if opens then
    (((rows.take reads).map ScrollbackLine.kept).zipIdx start,
      decide (rows.length ≤ reads))
  else ([], false)

variable {d : DiskScrollback} {q lines : List (ScrollbackLine ρ)}

/-- The retained records are those of the rows. -/
structure Holds (d : DiskScrollback) (q : List (ScrollbackLine ρ)) : Prop where
  sound : d.Sound
  records : d.records = q.map record

theorem Run.holds (h : Run d q) : Holds d q := by
  induction h with
  | new => exact ⟨new_sound, rfl⟩
  | pushLines _ lines ws cut ih =>
    obtain ⟨d', he, hs, hr⟩ | ⟨d', he, hs, hr⟩ :=
      ih.sound.pushLines lines ws cut
    · rw [he]
      exact ⟨hs, by rw [hr, ih.records, if_pos rfl, map_append]⟩
    · rw [he]
      exact ⟨hs, hr.trans ih.records⟩
  | dropFront _ count cap c ih =>
    obtain ⟨hs, hr, -, -⟩ := ih.sound.dropFront count cap c
    exact ⟨hs, by rw [hr, ih.records, map_drop]⟩
  | compact _ c ih =>
    obtain ⟨hs, hr, -⟩ := ih.sound.compact c
    exact ⟨hs, by rw [hr, ih.records, map_drop]⟩
  | clear _ cut ih =>
    obtain ⟨recs, hl⟩ := ih.sound
    cases cut with
    | true => exact ⟨⟨[], hl.clear⟩, layout_nil_records hl.clear⟩
    | false => exact ih
  | unlink _ ih => exact ⟨ih.sound.unlink, ih.records⟩

-- ==== what is read

theorem Holds.lineCount (h : Holds d q) : d.lineCount = q.length := by
  rw [← h.sound.length_records, h.records, length_map]

theorem Holds.recordsLen (h : Holds d q) :
    d.recordsLen = (q.map serializedRecordLen).sum := by
  obtain ⟨⟨recs, hl⟩, hr⟩ := h
  rw [hl.records] at hr
  rw [DiskScrollback.recordsLen, hl.length_retained, hr, length_flatten,
    map_map]
  exact congrArg List.sum
    (map_congr_left fun line _ => length_frame_serializeLine line)

theorem Holds.readLine [Inhabited ρ] (h : Holds d q) {index : Nat}
    {line : ScrollbackLine ρ} (hline : q[index]? = some line)
    (hfits : line.Fits) (opened : Bool) :
    d.readLine index opened = if opened && d.file.linked then
      some (some line.kept) else none := by
  have hr : d.records[index]? = some (record line) := by
    rw [h.records, getElem?_map, hline]
    rfl
  rw [h.sound.readLine hr, readRecord_record hfits]

theorem unframe_records {more : List UInt8} (h : ∀ line ∈ lines, line.Fits) :
    unframe ((lines.map record).flatten ++ more)
      = lines.map serializeLine ++ unframe more := by
  induction lines with
  | nil => rfl
  | cons line lines ih =>
    obtain ⟨hline, hrest⟩ := forall_mem_cons.1 h
    rw [map_cons, flatten_cons, append_assoc,
      show record line = frame (serializeLine line) from rfl,
      ByteFile.unframe_frame_append, Nat.mod_eq_of_lt hline.bytes,
      take_length, drop_length, nil_append, ih hrest]
    rfl

theorem Holds.forEachInRange [Inhabited ρ] (h : Holds d q)
    {start stop : Nat} (hfits : ∀ line ∈ (q.take stop).drop start, line.Fits)
    (opened : Bool) (reads : Nat) :
    d.forEachInRange start stop opened reads
      = visited ((q.take stop).drop start) start (opened && d.file.linked)
        reads := by
  have hcount := h.lineCount
  obtain ⟨⟨recs, hl⟩, hr⟩ := h
  generalize hrows : (q.take stop).drop start = rows at hfits ⊢
  have hlen : rows.length = min stop q.length - start := by
    rw [← hrows, length_drop, length_take]
  unfold DiskScrollback.forEachInRange visited
  dsimp only
  rw [hcount]
  by_cases hle : min stop q.length ≤ start
  · have hnil : rows = [] := eq_nil_of_length_eq_zero (by omega)
    rw [if_pos hle, hnil]
    rfl
  · have hne : ¬ rows.isEmpty := by
      rw [isEmpty_iff_length_eq_zero]
      omega
    rw [if_neg hle, if_neg hne, ← hlen]
    split
    · rw [hl.records] at hr
      have hlt : d.head + start < recs.length := by
        have := hl.lineCount
        omega
      have hq : q.drop start = rows ++ q.drop stop := by
        conv_lhs => rw [← take_append_drop stop q]
        rw [drop_append_of_le_length, hrows]
        rw [length_take]
        omega
      rw [hl.offsets, ByteFile.offsets_getElem? hlt]
      dsimp only
      rw [hl.drop_bytes, ← drop_drop, hr, ← map_drop, hq, map_append,
        flatten_append, append_assoc, unframe_records hfits, take_left'
        (length_map _), ← map_take, map_map]
      have hkept : (rows.take reads).map (deserializeLine ∘ serializeLine)
          = (rows.take reads).map ScrollbackLine.kept :=
        map_congr_left fun line hline => by
          rw [Function.comp_apply,
            deserializeLine_serializeLine (hfits line (mem_of_mem_take hline))]
      rw [hkept, length_map, length_take]
      congr 1
      rw [Bool.eq_iff_iff, beq_iff_eq, decide_eq_true_iff]
      omega
    · rfl

-- ==== what is dropped

theorem Sound.compact_head (h : d.Sound) (c : Compaction) :
    (d.compact c).1.head = 0 := by
  obtain ⟨recs, h⟩ := h
  have hrestart := Nat.le_zero.1 (h.restartAfterFailure c).head
  unfold DiskScrollback.compact
  split
  · assumption
  · split
    · cases c.cleared with
      | true => rfl
      | false => exact hrestart
    · split
      · rfl
      · exact hrestart

/-- The dropped records that stay in the file are below the threshold. -/
theorem Sound.dropFront_head (h : d.Sound) (count cap : Nat) (c : Compaction) :
    (d.dropFront count cap c).1.head < compactionThreshold cap := by
  have hpos : 0 < compactionThreshold cap :=
    Nat.lt_of_lt_of_le (by decide) (Nat.le_max_right cap _)
  obtain ⟨recs, h⟩ := h
  have hadv := h.advance (Nat.min_le_right count d.lineCount)
  unfold DiskScrollback.dropFront
  dsimp only
  split
  · rw [Sound.compact_head ⟨recs, hadv⟩]
    exact hpos
  · next hfew =>
    simp only [Bool.or_eq_true, decide_eq_true_eq, not_or] at hfew
    exact Nat.lt_of_not_le hfew.1

/-- Whatever failed, the file holds the rows that the answers tell of, and
gives them back as it keeps them. -/
structure Refines [Inhabited ρ] (d : DiskScrollback)
    (q : List (ScrollbackLine ρ)) : Prop where
  lineCount : d.lineCount = q.length
  recordsLen : d.recordsLen = (q.map serializedRecordLen).sum
  beyond : ∀ index opened, q.length ≤ index →
    d.readLine (ρ := ρ) index opened = some none
  readLine : ∀ index line opened, q[index]? = some line → line.Fits →
    d.readLine index opened = if opened && d.file.linked then
      some (some line.kept) else none
  forEachInRange : ∀ start stop opened reads,
    (∀ line ∈ (q.take stop).drop start, line.Fits) →
    d.forEachInRange start stop opened reads
      = visited ((q.take stop).drop start) start (opened && d.file.linked)
        reads
  dropFront : ∀ count cap c, let r := d.dropFront count cap c
    r.1.lineCount = q.length - r.2 ∧ min count q.length ≤ r.2
      ∧ r.2 ≤ q.length
      ∧ r.1.lineOffsets.length < r.1.lineCount + compactionThreshold cap

theorem refines_queue [Inhabited ρ] (h : Run d q) : Refines d q := by
  have hh := h.holds
  have hcount := hh.lineCount
  exact {
    lineCount := hcount
    recordsLen := hh.recordsLen
    beyond := fun index opened hle => if_pos (hcount ▸ hle)
    readLine := fun _ _ opened hline hfits => hh.readLine hline hfits opened
    forEachInRange := fun _ _ opened reads hfits =>
      hh.forEachInRange hfits opened reads
    dropFront := fun count cap c => by
      obtain ⟨-, -, hmin, hmax⟩ := hh.sound.dropFront count cap c
      have hafter := (h.dropFront count cap c).holds
      have hhead := hh.sound.dropFront_head count cap c
      obtain ⟨recs, hl⟩ := hafter.sound
      have hle := hl.head
      have hall := hl.lineCount
      rw [hcount] at hmin hmax
      refine ⟨by rw [hafter.lineCount, List.length_drop], hmin, hmax, ?_⟩
      rw [hl.offsets, ByteFile.length_offsets]
      omega }

def blankRow : ScrollbackLine Unit := .blank false

theorem refines_blankRow :
    Refines (new.pushLines [blankRow] [] true).1 [blankRow] :=
  refines_queue (.pushLines .new [blankRow] [] true)

-- ==== what does not hold

theorem append_done (bytes : List UInt8) :
    ∃ d', d.append bytes .done = (d', true) := by
  unfold DiskScrollback.append
  split <;> exact ⟨_, rfl⟩

/-- A push succeeds when no call fails. -/
theorem pushLines_done (cut : Bool) : (d.pushLines lines [] cut).2 = true := by
  have hwrite : ∀ start written buf offs, ∀ d : DiskScrollback, ∃ d' r,
      writeLines start lines [] d written buf offs = (d', some r) := by
    induction lines with
    | nil =>
      intro start written buf offs d
      obtain ⟨d', he⟩ := append_done (d := d) buf
      exact ⟨d', _, by rw [writeLines, headD_nil, he]⟩
    | cons line lines ih =>
      intro start written buf offs d
      rw [writeLines]
      split
      · obtain ⟨d', he⟩ := append_done (d := d) (buf ++ record line)
        rw [headD_nil, he]
        exact ih ..
      · exact ih ..
  unfold DiskScrollback.pushLines
  split
  · rfl
  · obtain ⟨d', r, hr⟩ := hwrite d.fileSize 0 [] [] d
    rw [hr]

/-- A row with a double underline. -/
def doubled : ScrollbackLine Unit where
  text := "a"
  cellLens := [1]
  attrRuns := [(1, { CellAttributes.default with underline := .double })]
  wrapped := false

/-- The rows of the file are bounded, not their bytes; and a row may be
read with less than it had. -/
theorem not_refines_exactly :
    (¬ ∀ (d : DiskScrollback) (q : List (ScrollbackLine Unit)) (cap : Nat),
      Run d q → q.length ≤ cap →
        d.recordsLen ≤ cap + compactionThreshold cap)
    ∧ ¬ ∀ (d : DiskScrollback) (q : List (ScrollbackLine Unit))
        (index : Nat) (row : Option (ScrollbackLine Unit)), Run d q →
      d.readLine index true = some row → row = q[index]? := by
  constructor
  · intro h
    have hrun := Run.new.pushLines (List.replicate 4096 blankRow) [] true
    rw [pushLines_done, if_pos rfl, List.nil_append] at hrun
    have hle := h _ _ 4096 hrun (Nat.le_of_eq List.length_replicate)
    rw [hrun.holds.recordsLen, List.map_replicate, List.sum_replicate_nat] at hle
    revert hle
    decide
  · intro h
    have hrun := Run.new.pushLines [doubled] [] true
    rw [pushLines_done, if_pos rfl, List.nil_append] at hrun
    have hfits : doubled.Fits := fits_of_length_lt (by decide)
    have hline : [doubled][0]? = some doubled := rfl
    have hread := hrun.holds.readLine hline hfits true
    have hsame := h _ _ 0 _ hrun hread
    exact absurd (congrArg (Option.map fun l : ScrollbackLine Unit =>
      l.attrRuns.map fun run => run.2.underline) hsame) (by decide)

end Tasty.Terminal.DiskScrollback
