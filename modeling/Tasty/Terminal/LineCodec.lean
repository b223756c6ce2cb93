/-
Lines of the scrollback as one blob (`disk_scrollback.rs`): the writer, the
reader, and how long a record is. The reader goes by positions; `Checked`
is the reader as the code has it, with nothing for its answer where an
index or a slice would panic.
-/
import Tasty.Terminal.Cells
import Tasty.Terminal.DiskScrollback

namespace Tasty.Terminal

open ByteFile ScrollbackLine List Option

open ByteFile (le ofLe frame unframe)

variable {ρ : Type}

-- ==== the model

def FILE_MAGIC : List UInt8 := [0x54, 0x53, 0x53, 0x42]

def FORMAT_VERSION : Nat := 3

/-- The length in front of a line keeps its low 32 bits. -/
def serializeLines (lines : List (ScrollbackLine ρ)) : List UInt8 :=
  FILE_MAGIC ++ le 4 FORMAT_VERSION
    ++ lines.flatMap fun line => frame (serializeLine line)

def colorLen : ColorAttribute → Nat
  | .default => 1
  | .paletteIndex _ => 2
  | .trueColorWithDefaultFallback _
  | .trueColorWithPaletteFallback _ _ => 4

/-- The bytes of a line with its length, without writing them. -/
def serializedRecordLen (line : ScrollbackLine ρ) : Nat :=
  let runs := (line.attrRuns.map fun run =>
    4 + colorLen run.2.foreground + colorLen run.2.background + 1).sum
  4 + 1 + 4 + line.text.utf8ByteSize + 4 + 2 * line.cellLens.length + 4
    + runs

namespace Checked

/-- `u32::from_le_bytes([data[pos], …, data[pos + 3]])`. -/
def u32At (data : List UInt8) (pos : Nat) : Option Nat := do
  let b0 ← data[pos]?
  let b1 ← data[pos + 1]?
  let b2 ← data[pos + 2]?
  let b3 ← data[pos + 3]?
  some (ofLe [b0, b1, b2, b3])

/-- `&data[start..stop]`. -/
def slice (data : List UInt8) (start stop : Nat) : Option (List UInt8) :=
  if start ≤ stop ∧ stop ≤ data.length then
    some ((data.drop start).take (stop - start))
  else none

/-- The lengths of up to so many cells, and the position behind them. -/
def lensAt (data : List UInt8) :
    Nat → Nat → Option (List UInt16 × Nat)
  | 0, pos => some ([], pos)
  | count + 1, pos =>
    if data.length < pos + 2 then some ([], pos)
    else do
      let b0 ← data[pos]?
      let b1 ← data[pos + 1]?
      let rest ← lensAt data count (pos + 2)
      some (UInt16.ofNat (ofLe [b0, b1]) :: rest.1, rest.2)

section Lines

variable [Inhabited ρ]

def runsAt (data : List UInt8) :
    Nat → Nat → Option (List (UInt32 × CellAttributes ρ))
  | 0, _ => some []
  | count + 1, pos =>
    if data.length < pos + 4 then some []
    else do
      let runLen ← u32At data pos
      let pos := pos + 4
      let fg := deserializeColor (← slice data pos data.length)
      let pos := pos + fg.2
      let bg := deserializeColor (← slice data pos data.length)
      let pos := pos + bg.2
      if data.length ≤ pos then some []
      else do
        let flags ← data[pos]?
        let rest ← runsAt data count (pos + 1)
        some ((UInt32.ofNat runLen, readFlags fg.1 bg.1 flags) :: rest)

/-- The runs behind the cells, if there is a count of them. -/
def attrRunsAt (data : List UInt8) (pos : Nat) :
    Option (List (UInt32 × CellAttributes ρ)) :=
  if pos + 4 ≤ data.length then do
    let runCount ← u32At data pos
    runsAt data runCount (pos + 4)
  else some []

/-- The cells and the runs behind the text. -/
def cellsAt (text : String) (wrapped : Bool) (data : List UInt8)
    (pos : Nat) : Option (ScrollbackLine ρ) :=
  if data.length < pos + 4 then some (.fromRawParts text [] [] wrapped)
  else do
    let cellCount ← u32At data pos
    let cells ← lensAt data cellCount (pos + 4)
    let attrRuns ← attrRunsAt data cells.2
    some (.fromRawParts text cells.1 attrRuns wrapped)

/-- `deserialize_line`. -/
def deserializeLine (data : List UInt8) : Option (ScrollbackLine ρ) :=
  if data.length < 5 then some (.blank false)
  else do
    let wrapped := (← data[0]?) != 0
    if data.length < 1 + 4 then some (.blank wrapped)
    else do
      let textLen ← u32At data 1
      if data.length < 5 + textLen then some (.blank wrapped)
      else do
        let bytes ← slice data 5 (5 + textLen)
        cellsAt (Utf8.fromLossy bytes) wrapped data (5 + textLen)

/-- The records from a position on, up to a truncated one. -/
def linesAt (data : List UInt8) (pos : Nat) :
    Option (List (ScrollbackLine ρ)) :=
  if data.length < pos + 4 then some []
  else
    match u32At data pos with
    | none => none
    | some len =>
      if data.length < pos + 4 + len then some []
      else
        match slice data (pos + 4) (pos + 4 + len) with
        | none => none
        | some bytes =>
          match deserializeLine bytes, linesAt data (pos + 4 + len) with
          | some line, some lines => some (line :: lines)
          | _, _ => none
termination_by data.length - pos

/-- `deserialize_lines`: the inner nothing is a blob with another magic or
version. -/
def deserializeLines (data : List UInt8) :
    Option (Option (List (ScrollbackLine ρ))) :=
  if data.length < HEADER_LEN then some none
  else do
    let magic ← slice data 0 4
    if magic ≠ FILE_MAGIC then some none
    else do
      let version ← u32At data 4
      if version ≠ FORMAT_VERSION then some none
      else do
        let lines ← linesAt data HEADER_LEN
        some (some lines)

end Lines

end Checked

/-- The reader without its positions. -/
def deserializeLines [Inhabited ρ] (data : List UInt8) :
    Option (List (ScrollbackLine ρ)) :=
  if data.take HEADER_LEN = header then
    some ((unframe (data.drop HEADER_LEN)).map deserializeLine)
  else none

-- ==== no index leads out

section Positions

variable {data : List UInt8} {pos : Nat}

theorem drop_eq_cons (h : pos < data.length) :
    ∃ b, data[pos]? = some b ∧ data.drop pos = b :: data.drop (pos + 1) :=
  ⟨data[pos], getElem?_eq_getElem h, drop_eq_getElem_cons h⟩

theorem Checked.u32At_eq (h : pos + 4 ≤ data.length) :
    Checked.u32At data pos = some (ofLe ((data.drop pos).take 4)) := by
  obtain ⟨b0, h0, hd0⟩ := drop_eq_cons (by omega : pos < data.length)
  obtain ⟨b1, h1, hd1⟩ := drop_eq_cons (by omega : pos + 1 < data.length)
  obtain ⟨b2, h2, hd2⟩ := drop_eq_cons (by omega : pos + 2 < data.length)
  obtain ⟨b3, h3, hd3⟩ := drop_eq_cons (by omega : pos + 3 < data.length)
  unfold Checked.u32At
  rw [h0, h1, h2, h3, hd0, hd1, hd2, hd3]
  rfl

theorem Checked.slice_eq {stop : Nat} (h : pos ≤ stop)
    (hstop : stop ≤ data.length) :
    Checked.slice data pos stop
      = some ((data.drop pos).take (stop - pos)) := if_pos ⟨h, hstop⟩

theorem Checked.slice_length (h : pos ≤ data.length) :
    Checked.slice data pos data.length = some (data.drop pos) := by
  rw [Checked.slice_eq h (Nat.le_refl _), ← length_drop, take_length]

theorem Checked.lensAt_eq (count : Nat) (h : pos ≤ data.length) :
    ∃ stop, Checked.lensAt data count pos
        = some ((readLens count (data.drop pos)).1, stop)
      ∧ (readLens count (data.drop pos)).2 = data.drop stop
      ∧ stop ≤ data.length := by
  induction count generalizing pos with
  | zero => exact ⟨pos, rfl, rfl, h⟩
  | succ count ih =>
    unfold Checked.lensAt readLens
    rw [length_drop]
    by_cases hshort : data.length < pos + 2
    · rw [if_pos hshort, if_pos (by omega)]
      exact ⟨pos, rfl, rfl, h⟩
    · rw [if_neg hshort, if_neg (by omega)]
      obtain ⟨b0, h0, hd0⟩ := drop_eq_cons (by omega : pos < data.length)
      obtain ⟨b1, h1, hd1⟩ :=
        drop_eq_cons (by omega : pos + 1 < data.length)
      obtain ⟨stop, hlens, hrest, hstop⟩ :=
        ih (by omega : pos + 2 ≤ data.length)
      rw [h0, h1, hlens, drop_drop, hd0, hd1]
      exact ⟨stop, rfl, hrest, hstop⟩

theorem deserializeColor_advance_le (data : List UInt8) :
    (deserializeColor data).2 ≤ data.length := by
  fun_cases deserializeColor data <;> simp

variable [Inhabited ρ]

theorem Checked.runsAt_eq (count : Nat) (h : pos ≤ data.length) :
    Checked.runsAt (ρ := ρ) data count pos
      = some (readRuns count (data.drop pos)) := by
  induction count generalizing pos with
  | zero => rfl
  | succ count ih =>
    unfold Checked.runsAt readRuns
    rw [length_drop]
    by_cases hshort : data.length < pos + 4
    · rw [if_pos hshort, if_pos (by omega)]
    · rw [if_neg hshort, if_neg (by omega)]
      have hfg := deserializeColor_advance_le (data.drop (pos + 4))
      rw [length_drop] at hfg
      have hbg := deserializeColor_advance_le (data.drop
        (pos + 4 + (deserializeColor (data.drop (pos + 4))).2))
      rw [length_drop] at hbg
      simp only [bind_eq_bind, Checked.u32At_eq
        (by omega : pos + 4 ≤ data.length), bind_some,
        Checked.slice_length (by omega : pos + 4 ≤ data.length),
        Checked.slice_length (by omega : pos + 4
          + (deserializeColor (data.drop (pos + 4))).2 ≤ data.length),
        drop_drop]
      generalize (deserializeColor (data.drop (pos + 4))) = fg at hfg hbg
      generalize deserializeColor (data.drop (pos + 4 + fg.2)) = bg
        at hbg
      by_cases hend : data.length ≤ pos + 4 + fg.2 + bg.2
      · rw [if_pos hend, drop_eq_nil_of_le hend]
      · rw [if_neg hend]
        obtain ⟨flags, hflags, hdrop⟩ := drop_eq_cons
          (by omega : pos + 4 + fg.2 + bg.2 < data.length)
        rw [hflags, hdrop, bind_some, ih (by omega)]
        rfl

theorem Checked.attrRunsAt_eq (h : pos ≤ data.length) :
    Checked.attrRunsAt (ρ := ρ) data pos
      = some (if (data.drop pos).length < 4 then []
        else readRuns (ofLe ((data.drop pos).take 4))
          ((data.drop pos).drop 4)) := by
  unfold Checked.attrRunsAt
  rw [length_drop]
  by_cases hlong : pos + 4 ≤ data.length
  · rw [if_pos hlong, if_neg (by omega), Checked.u32At_eq hlong,
      drop_drop]
    exact Checked.runsAt_eq _ hlong
  · rw [if_neg hlong, if_pos (by omega)]

/-- Reading a line never leaves its bytes. -/
theorem Checked.deserializeLine_eq (data : List UInt8) :
    Checked.deserializeLine (ρ := ρ) data
      = some (Terminal.deserializeLine data) := by
  unfold Checked.deserializeLine Terminal.deserializeLine
  by_cases hshort : data.length < 5
  · rw [if_pos hshort, if_pos hshort]
  rw [if_neg hshort, if_neg hshort]
  obtain ⟨first, hfirst, hdrop⟩ :=
    drop_eq_cons (by omega : 0 < data.length)
  rw [drop_zero] at hdrop
  have hhead : data.headD 0 = first := by rw [hdrop]; rfl
  have htail : data.tail = data.drop 1 := drop_one.symm
  rw [hfirst, Checked.u32At_eq (by omega : 1 + 4 ≤ data.length), hhead,
    htail]
  simp only [bind_eq_bind, bind_some, if_neg hshort, drop_drop, length_drop]
  generalize ofLe ((data.drop 1).take 4) = textLen
  by_cases htext : data.length < 5 + textLen
  · rw [if_pos htext, if_pos (by omega)]
  rw [if_neg htext, if_neg (by omega),
    Checked.slice_eq (by omega) (by omega), bind_some,
    Nat.add_sub_cancel_left]
  unfold Checked.cellsAt
  by_cases hcells : data.length < 5 + textLen + 4
  · rw [if_pos hcells, if_pos (by omega)]
  rw [if_neg hcells, if_neg (by omega),
    Checked.u32At_eq (by omega)]
  obtain ⟨stop, hlens, hrest, hstop⟩ :=
    Checked.lensAt_eq (ofLe ((data.drop (5 + textLen)).take 4))
      (by omega : 5 + textLen + 4 ≤ data.length)
  simp only [bind_eq_bind, bind_some, hlens, hrest, Checked.attrRunsAt_eq hstop]

theorem Checked.linesAt_eq (h : pos ≤ data.length) :
    Checked.linesAt (ρ := ρ) data pos
      = some ((unframe (data.drop pos)).map Terminal.deserializeLine) := by
  induction hleft : data.length - pos using Nat.strong_induction_on
    generalizing pos with
  | _ n ih =>
    rw [Checked.linesAt, unframe, length_drop]
    by_cases hshort : data.length < pos + 4
    · rw [if_pos hshort, if_pos (by omega)]
      rfl
    rw [if_neg hshort, if_neg (by omega),
      Checked.u32At_eq (by omega : pos + 4 ≤ data.length)]
    simp only [drop_drop, length_drop]
    generalize ofLe ((data.drop pos).take 4) = len
    by_cases hend : data.length < pos + 4 + len
    · rw [if_pos hend, if_pos (by omega)]
      rfl
    rw [if_neg hend, if_neg (by omega),
      Checked.slice_eq (by omega) (by omega), Nat.add_sub_cancel_left]
    dsimp only
    rw [Checked.deserializeLine_eq, ih _ (by omega) (by omega) rfl]
    rfl

/-- Reading a blob never leaves its bytes. -/
theorem Checked.deserializeLines_eq (data : List UInt8) :
    Checked.deserializeLines (ρ := ρ) data
      = some (Terminal.deserializeLines data) := by
  have hheader : header = FILE_MAGIC ++ le 4 FORMAT_VERSION := rfl
  unfold Checked.deserializeLines Terminal.deserializeLines
  by_cases hshort : data.length < HEADER_LEN
  · rw [if_pos hshort, if_neg]
    intro h
    have hlen := congrArg List.length h
    rw [length_take, DiskScrollback.length_header] at hlen
    omega
  have hlong : HEADER_LEN ≤ data.length := Nat.le_of_not_lt hshort
  have height : HEADER_LEN = 4 + 4 := rfl
  have hsplit : data.take HEADER_LEN
      = data.take 4 ++ (data.drop 4).take 4 := by
    rw [height, take_add]
  rw [if_neg hshort, Checked.slice_eq (Nat.zero_le 4) (by omega),
    Checked.u32At_eq (by omega : 4 + 4 ≤ data.length), hsplit]
  simp only [bind_eq_bind, bind_some, drop_zero, Nat.sub_zero]
  have hmagic : (data.take 4).length = FILE_MAGIC.length := by
    rw [length_take]
    exact Nat.min_eq_left (by omega)
  have hfour : ((data.drop 4).take 4).length = 4 := by
    rw [length_take, length_drop]
    omega
  have hversion : ofLe ((data.drop 4).take 4) = FORMAT_VERSION
      ↔ (data.drop 4).take 4 = le 4 FORMAT_VERSION := by
    constructor
    · intro h
      have hbytes := le_ofLe ((data.drop 4).take 4)
      rw [hfour, h] at hbytes
      exact hbytes.symm
    · intro h
      rw [h]
      rfl
  have hheaders : data.take 4 ++ (data.drop 4).take 4 = header
      ↔ data.take 4 = FILE_MAGIC
        ∧ ofLe ((data.drop 4).take 4) = FORMAT_VERSION := by
    rw [hversion, hheader]
    exact ⟨fun h => append_inj h hmagic, fun h => by rw [h.1, h.2]⟩
  by_cases h : data.take 4 = FILE_MAGIC
    ∧ ofLe ((data.drop 4).take 4) = FORMAT_VERSION
  · rw [if_pos (hheaders.2 h), if_neg (not_not.2 h.1),
      if_neg (not_not.2 h.2), Checked.linesAt_eq hlong]
    rfl
  · rw [if_neg (mt hheaders.1 h)]
    by_cases hm : data.take 4 = FILE_MAGIC
    · rw [if_neg (not_not.2 hm), if_pos fun hv => h ⟨hm, hv⟩]
    · rw [if_pos hm]

end Positions

-- ==== how long a record is

theorem length_serializeColor (c : ColorAttribute) :
    (serializeColor c).length = colorLen c := by
  cases c <;> rfl

theorem length_serializeRun (run : UInt32 × CellAttributes ρ) :
    (serializeRun run).length = 4 + colorLen run.2.foreground
      + colorLen run.2.background + 1 := by
  simp only [serializeRun, length_append, length_le,
    length_serializeColor, length_singleton]

theorem length_flatMap_le (lens : List UInt16) :
    (lens.flatMap fun len => le 2 len.toNat).length = 2 * lens.length := by
  induction lens with
  | nil => rfl
  | cons len lens ih =>
    rw [flatMap_cons, length_append, length_le, ih, length_cons]
    omega

theorem length_serializeLine (line : ScrollbackLine ρ) :
    (serializeLine line).length = 13 + line.text.utf8ByteSize
      + 2 * line.cellLens.length
      + (line.attrRuns.flatMap serializeRun).length := by
  simp only [serializeLine, length_append, length_le,
    length_flatMap_le,    length_singleton, Utf8.length_bytes]
  omega

theorem length_frame_serializeLine (line : ScrollbackLine ρ) :
    (frame (serializeLine line)).length = serializedRecordLen line := by
  have hruns : (line.attrRuns.flatMap serializeRun).length
      = (line.attrRuns.map fun run => 4 + colorLen run.2.foreground
        + colorLen run.2.background + 1).sum := by
    rw [length_flatMap]
    simp only [length_serializeRun]
  rw [length_frame, length_serializeLine, hruns, serializedRecordLen]
  omega

variable (lines : List (ScrollbackLine ρ))

theorem length_serializeLines :
    (serializeLines lines).length
      = HEADER_LEN + (lines.map serializedRecordLen).sum := by
  have hmagic : FILE_MAGIC.length = 4 := rfl
  have hheader : HEADER_LEN = 4 + 4 := rfl
  rw [serializeLines, length_append, length_append, hmagic,
    length_le, hheader, length_flatMap]
  simp only [length_frame_serializeLine]

-- ==== a record that is cut

theorem colorLen_le (c : ColorAttribute) : colorLen c ≤ 4 := by
  cases c <;> simp [colorLen]

theorem length_serializeRun_le (run : UInt32 × CellAttributes ρ) :
    (serializeRun run).length ≤ 13 := by
  have hfg := colorLen_le run.2.foreground
  have hbg := colorLen_le run.2.background
  rw [length_serializeRun]
  omega

theorem length_flatMap_serializeRun_le
    (runs : List (UInt32 × CellAttributes ρ)) :
    (runs.flatMap serializeRun).length ≤ 13 * runs.length := by
  induction runs with
  | nil => exact Nat.le_refl 0
  | cons run runs ih =>
    have hrun := length_serializeRun_le run
    rw [flatMap_cons, length_append, length_cons]
    omega

variable {line : ScrollbackLine ρ}

/-- A record of less than 2^32 bytes has no part that does not fit its
field. -/
theorem fits_of_length_lt (h : (serializeLine line).length < 256 ^ 4) : line.Fits := by
  have hlen := length_serializeLine line
  have hruns : line.attrRuns.length
      ≤ (line.attrRuns.flatMap serializeRun).length := by
    induction line.attrRuns with
    | nil => exact Nat.le_refl 0
    | cons run runs ih =>
      have hrun := length_serializeRun run
      rw [flatMap_cons, length_append, length_cons]
      omega
  exact ⟨by omega, by omega, by omega, h⟩

section Cut

variable [Inhabited ρ]

theorem length_readLens_le (count : Nat) (data : List UInt8) :
    (readLens count data).1.length ≤ count
      ∧ 2 * (readLens count data).1.length ≤ data.length := by
  induction count generalizing data with
  | zero => exact ⟨Nat.le_refl 0, Nat.zero_le _⟩
  | succ count ih =>
    unfold readLens
    split
    · exact ⟨Nat.zero_le _, Nat.zero_le _⟩
    · obtain ⟨hcount, hdata⟩ := ih (data.drop 2)
      rw [length_drop] at hdata
      dsimp only
      rw [length_cons]
      omega

theorem min_one_le_advance (data : List UInt8) :
    min 1 data.length ≤ (deserializeColor data).2 := by
  fun_cases deserializeColor data <;> simp

theorem length_readRuns_mul_le (count : Nat) (data : List UInt8) :
    7 * (readRuns (ρ := ρ) count data).length ≤ data.length := by
  induction count generalizing data with
  | zero => exact Nat.zero_le _
  | succ count ih =>
    unfold readRuns
    split
    · exact Nat.zero_le _
    · dsimp only
      split
      · exact Nat.zero_le _
      · rename_i flags rest hdrop
        have hlen := congrArg List.length hdrop
        rw [length_drop, length_drop, length_drop, length_cons] at hlen
        have hfg := min_one_le_advance (data.drop 4)
        have hbg := min_one_le_advance
          ((data.drop 4).drop (deserializeColor (data.drop 4)).2)
        rw [length_drop] at hfg
        rw [length_drop, length_drop] at hbg
        have hrest := ih rest
        rw [length_cons]
        omega

variable {n : Nat}

variable {runs : List (UInt32 × CellAttributes ρ)}

/-- Where all runs are read of cut ones, less than a run was cut off. -/
theorem length_runs_le_of_read
    {count : Nat} (h : runs.length ≤ max 1 (readRuns (ρ := ρ) count
      ((runs.flatMap serializeRun).take n)).length) :
    (runs.flatMap serializeRun).length ≤ n + 13 := by
  induction runs generalizing count n with
  | nil => exact Nat.zero_le _
  | cons run runs ih =>
    have hrun := length_serializeRun_le run
    rw [flatMap_cons, length_append]
    rw [flatMap_cons] at h
    by_cases hn : (serializeRun run).length ≤ n
    · obtain ⟨m, rfl⟩ := Nat.exists_eq_add_of_le hn
      rw [take_length_add_append, length_cons] at h
      cases count with
      | zero =>
        rw [readRuns, length_nil] at h
        have hone : runs = [] := length_eq_zero_iff.1 (by omega)
        subst hone
        rw [flatMap_nil, length_nil]
        omega
      | succ count =>
        rw [readRuns_serializeRun, length_cons] at h
        have hread : runs.length ≤ max 1 (readRuns (ρ := ρ) count
            ((runs.flatMap serializeRun).take m)).length := by
          omega
        have hrest := ih hread
        omega
    · have hread := length_readRuns_mul_le (ρ := ρ) count
        ((serializeRun run ++ runs.flatMap serializeRun).take n)
      rw [length_take] at hread
      rw [length_cons] at h
      have hone : runs = [] := length_eq_zero_iff.1 (by omega)
      subst hone
      rw [flatMap_nil, length_nil]
      omega

theorem length_fromRawParts (text : String) (lens : List UInt16)
    (runs : List (UInt32 × CellAttributes ρ)) (wrapped : Bool) :
    runs.length
        ≤ (fromRawParts text lens runs wrapped).attrRuns.length
      ∧ (fromRawParts text lens runs wrapped).attrRuns.length
        ≤ max 1 runs.length := by
  unfold fromRawParts
  dsimp only
  split
  · rename_i h
    rw [Bool.and_eq_true, List.isEmpty_iff] at h
    rw [h.2]
    exact ⟨Nat.zero_le _, Nat.le_refl _⟩
  · exact ⟨Nat.le_refl _, Nat.le_max_right _ _⟩

variable {text : String} {wrapped : Bool}

theorem length_attrRuns_le {lens : List UInt16}
    (h : fromRawParts text lens runs wrapped = line.kept) :
    line.attrRuns.length ≤ max 1 runs.length := by
  have hread := (length_fromRawParts text lens runs wrapped).2
  have hkept := (length_fromRawParts line.text line.cellLens
    (line.attrRuns.map fun run => (run.1, run.2.kept)) line.wrapped).1
  rw [h] at hread
  rw [length_map] at hkept
  exact Nat.le_trans hkept hread

theorem length_serializeLine_of_no_cells
    (h : fromRawParts text [] [] wrapped = line.kept) :
    (serializeLine line).length = 13 + text.utf8ByteSize := by
  have htext : text = line.text := congrArg ScrollbackLine.text h
  have hlens : [] = line.cellLens := congrArg cellLens h
  have hruns : [] = line.kept.attrRuns :=
    congrArg ScrollbackLine.attrRuns h
  have hkept := (length_fromRawParts line.text line.cellLens
    (line.attrRuns.map fun run => (run.1, run.2.kept)) line.wrapped).1
  have hnone : line.attrRuns = [] := by
    rw [length_map] at hkept
    refine length_eq_zero_iff.1 (Nat.le_zero.1 ?_)
    exact hkept.trans (Nat.le_of_eq (congrArg List.length hruns.symm))
  rw [length_serializeLine, ← htext, ← hlens, hnone]
  rfl

/-- The cells and the runs behind the text. -/
def cellsBehind (text : String) (wrapped : Bool) (data : List UInt8) :
    ScrollbackLine ρ :=
  if data.length < 4 then .fromRawParts text [] [] wrapped
  else
    let cells := readLens (ofLe (data.take 4)) (data.drop 4)
    let attrRuns :=
      if cells.2.length < 4 then []
      else readRuns (ofLe (cells.2.take 4)) (cells.2.drop 4)
    .fromRawParts text cells.1 attrRuns wrapped

theorem text_cellsBehind (text : String) (wrapped : Bool) (data : List UInt8) :
    (cellsBehind (ρ := ρ) text wrapped data).text = text := by
  unfold cellsBehind
  split <;> rfl

theorem take_le (n i : Nat) (more : List UInt8) :
    (le 4 n ++ more).take (4 + i) = le 4 n ++ more.take i := by
  rw [take_append, length_le, Nat.add_sub_cancel_left,
    take_of_length_le (by rw [length_le]; omega)]

theorem deserializeLine_le {first : UInt8} {data : List UInt8} :
    deserializeLine (ρ := ρ) (first :: (le 4 n ++ data))
      = if data.length < n % 256 ^ 4 then .fromRawParts "" [] [] (first != 0)
        else cellsBehind (Utf8.fromLossy (data.take (n % 256 ^ 4)))
          (first != 0) (data.drop (n % 256 ^ 4)) := by
  rw [deserializeLine, if_neg (by
    rw [length_cons, length_append, length_le]
    omega)]
  simp only [headD_cons, tail_cons, ofLe_le, take_left' (length_le 4 n),
    drop_left' (length_le 4 n)]
  rfl

/-- Where the cells and runs of a line are read of cut ones, hardly
anything was cut off. -/
theorem length_le_of_cellsBehind
    (h : cellsBehind text wrapped ((le 4 line.cellLens.length
        ++ (line.cellLens.flatMap (fun len => le 2 len.toNat)
          ++ (le 4 line.attrRuns.length
            ++ line.attrRuns.flatMap serializeRun))).take n) = line.kept) :
    (serializeLine line).length ≤ line.text.utf8ByteSize + n + 22 := by
  have hlen := length_serializeLine line
  unfold cellsBehind at h
  by_cases hfour : n < 4
  · rw [if_pos (by rw [length_take]; omega)] at h
    have hnone := length_serializeLine_of_no_cells h
    have htext : text = line.text := congrArg ScrollbackLine.text h
    rw [htext] at hnone
    omega
  obtain ⟨n, rfl⟩ := Nat.exists_eq_add_of_le (Nat.le_of_not_lt hfour)
  rw [take_le, if_neg (by
      rw [length_append, length_le]
      omega), take_left' (length_le 4 _),
    drop_left' (length_le 4 _), ofLe_le] at h
  have hlens := length_flatMap_le line.cellLens
  have hread : (readLens (line.cellLens.length % 256 ^ 4)
      ((line.cellLens.flatMap (fun len => le 2 len.toNat)
        ++ (le 4 line.attrRuns.length
          ++ line.attrRuns.flatMap serializeRun)).take n)).1
      = line.cellLens := congrArg cellLens h
  obtain ⟨hcount, hbytes⟩ := length_readLens_le
    (line.cellLens.length % 256 ^ 4)
    ((line.cellLens.flatMap (fun len => le 2 len.toNat)
      ++ (le 4 line.attrRuns.length
        ++ line.attrRuns.flatMap serializeRun)).take n)
  rw [hread] at hcount hbytes
  rw [length_take] at hbytes
  obtain ⟨n, rfl⟩ := Nat.exists_eq_add_of_le
    (by omega : 2 * line.cellLens.length ≤ n)
  rw [← hlens, take_length_add_append,
    Nat.le_antisymm (Nat.mod_le _ _) hcount, readLens_serialize] at h
  dsimp only at h
  by_cases hcut : n < 4
  · rw [if_pos (by rw [length_take]; omega)] at h
    have hone := length_attrRuns_le h
    rw [length_nil, Nat.max_zero] at hone
    have hruns := length_flatMap_serializeRun_le line.attrRuns
    omega
  obtain ⟨n, rfl⟩ := Nat.exists_eq_add_of_le (Nat.le_of_not_lt hcut)
  rw [take_le, if_neg (by
      rw [length_append, length_le]
      omega), take_left' (length_le 4 _),
    drop_left' (length_le 4 _)] at h
  have hruns := length_runs_le_of_read (length_attrRuns_le h)
  omega

/-- A record that is cut to what the low 32 bits of its length say is not
read as its line. -/
theorem length_lt_of_read (h : deserializeLine ((serializeLine line).take
      ((serializeLine line).length % 256 ^ 4)) = line.kept) :
    (serializeLine line).length < 256 ^ 4 := by
  refine Nat.lt_of_not_le fun hlong => ?_
  have hlow (n : Nat) : n % 256 ^ 4 = n ∨ n % 256 ^ 4 + 256 ^ 4 ≤ n := by
    by_cases hn : n < 256 ^ 4
    · exact .inl (Nat.mod_eq_of_lt hn)
    · have hdiv := Nat.div_add_mod n (256 ^ 4)
      have hpos := Nat.div_pos (Nat.le_of_not_lt hn) (by decide)
      have hmul := Nat.le_mul_of_pos_right (256 ^ 4) hpos
      omega
  have hcut : (serializeLine line).length % 256 ^ 4 + 256 ^ 4
      ≤ (serializeLine line).length := by
    rcases hlow (serializeLine line).length with heq | hle
    · have hlt := Nat.mod_lt (serializeLine line).length
        (by decide : 0 < 256 ^ 4)
      omega
    · exact hle
  generalize (serializeLine line).length % 256 ^ 4 = m at h hcut
  by_cases hfive : m < 5
  · have hblank : deserializeLine ((serializeLine line).take m)
        = fromRawParts (ρ := ρ) "" [] [] false :=
      if_pos (by rw [length_take]; omega)
    rw [hblank] at h
    have hnone := length_serializeLine_of_no_cells h
    rw [String.utf8ByteSize_empty] at hnone
    omega
  obtain ⟨m, rfl⟩ := Nat.exists_eq_add_of_le (Nat.le_of_not_lt hfive)
  rw [serializeLine_eq, show 5 + m = 4 + m + 1 by omega, take_succ_cons,
    take_le] at h
  by_cases htext : line.text.utf8ByteSize % 256 ^ 4 ≤ m
  · have hsize : (Utf8.bytes line.text).length = line.text.utf8ByteSize :=
      Utf8.length_bytes _
    have hmod := Nat.mod_le line.text.utf8ByteSize (256 ^ 4)
    rw [deserializeLine_le, if_neg (by
        rw [length_take, length_append, hsize]
        omega), take_take, Nat.min_eq_left htext,
      take_append_of_le_length (by omega)] at h
    -- the text is whole, or longer than what is read of it
    have hread := congrArg ScrollbackLine.text h
    rw [text_cellsBehind] at hread
    have hle := Utf8.utf8ByteSize_fromLossy_take_le line.text
      (line.text.utf8ByteSize % 256 ^ 4)
    rw [hread] at hle
    have hwhole : line.text.utf8ByteSize % 256 ^ 4
        = line.text.utf8ByteSize := by
      rcases hlow line.text.utf8ByteSize with heq | hlt
      · exact heq
      · exact absurd hle (by
          show ¬ line.text.utf8ByteSize ≤ _
          omega)
    rw [hwhole] at h htext
    obtain ⟨m, rfl⟩ := Nat.exists_eq_add_of_le htext
    rw [← hsize, take_length_add_append, drop_left] at h
    have hbehind := length_le_of_cellsBehind h
    omega
  · have hblank : fromRawParts (ρ := ρ) "" [] []
        ((if line.wrapped then (1 : UInt8) else 0) != 0) = line.kept := by
      rw [← h, deserializeLine_le]
      refine (if_pos ?_).symm
      rw [length_take]
      omega
    have hnone := length_serializeLine_of_no_cells hblank
    rw [String.utf8ByteSize_empty] at hnone
    omega

/-- Every record is read as it was written exactly if each has less than
2^32 bytes. -/
theorem map_unframe_iff :
    (unframe (lines.flatMap fun line => frame (serializeLine line))).map
        deserializeLine = lines.map ScrollbackLine.kept
      ↔ ∀ line ∈ lines, (serializeLine line).length < 256 ^ 4 := by
  induction lines with
  | nil =>
    rw [flatMap_nil, unframe_nil]
    exact iff_of_true rfl fun _ h => absurd h not_mem_nil
  | cons line lines ih =>
    rw [flatMap_cons, unframe_frame_append, map_cons,
      map_cons, List.cons.injEq, forall_mem_cons]
    constructor
    · rintro ⟨hline, hlines⟩
      have hlt := length_lt_of_read hline
      rw [Nat.mod_eq_of_lt hlt, drop_length, nil_append]
        at hlines
      exact ⟨hlt, ih.1 hlines⟩
    · rintro ⟨hlt, hlines⟩
      rw [Nat.mod_eq_of_lt hlt, take_length, drop_length, nil_append]
      exact ⟨deserializeLine_serializeLine (fits_of_length_lt hlt), ih.2 hlines⟩

end Cut

-- ==== the codec

section Codec

variable [Inhabited ρ]

theorem exists_toCells_fromRawParts (text : String) (lens : List UInt16)
    (runs : List (UInt32 × CellAttributes ρ)) (wrapped : Bool) :
    ∃ cells, (fromRawParts text lens runs wrapped).toCells
      = some cells := by
  cases lens with
  | nil => exact ⟨[], toCells_of_no_cells rfl⟩
  | cons len lens =>
    cases runs with
    | nil | cons run runs => exact ⟨_, toCells_eq_some rfl⟩

theorem exists_toCells_deserializeLine (data : List UInt8) :
    ∃ cells, (deserializeLine (ρ := ρ) data).toCells = some cells := by
  have hblank (wrapped : Bool) : ∃ cells,
      (ScrollbackLine.blank (ρ := ρ) wrapped).toCells = some cells :=
    ⟨[], toCells_of_no_cells rfl⟩
  unfold deserializeLine
  split
  · exact hblank false
  dsimp only
  split
  · exact hblank _
  split
  · exact exists_toCells_fromRawParts _ _ _ _
  · exact exists_toCells_fromRawParts _ _ _ _

/-- What the file keeps of lines is read of what was written of them,
exactly if no record is too long for its length. -/
theorem deserializeLines_serializeLines_iff :
    Checked.deserializeLines (serializeLines lines)
        = some (some (lines.map ScrollbackLine.kept))
      ↔ ∀ line ∈ lines, (serializeLine line).length < 256 ^ 4 := by
  have hlen : (FILE_MAGIC ++ le 4 FORMAT_VERSION).length = HEADER_LEN := rfl
  have hheader : FILE_MAGIC ++ le 4 FORMAT_VERSION = header := rfl
  rw [Checked.deserializeLines_eq, deserializeLines, serializeLines, take_left'
    hlen, drop_left' hlen, if_pos hheader, some_inj, some_inj]
  exact map_unframe_iff lines

theorem exists_deserializeLines (data : List UInt8) :
    ∃ read : Option (List (ScrollbackLine ρ)),
      Checked.deserializeLines data = some read
        ∧ ∀ lines ∈ read, ∀ line ∈ lines,
          ∃ cells, line.toCells = some cells := by
  refine ⟨_, Checked.deserializeLines_eq data, fun lines hlines => ?_⟩
  unfold deserializeLines at hlines
  split at hlines
  · cases hlines
    intro line hline
    obtain ⟨bytes, -, rfl⟩ := mem_map.1 hline
    exact exists_toCells_deserializeLine bytes
  · cases hlines

variable [DecidableEq (CellAttributes ρ)]

/-- Rows are read back from their lines, and lines from their bytes, of
which there are as many as foretold; and nothing read of any bytes
panics. -/
structure CodecSound (row : List (Cell ρ)) (wrapped : Bool)
    (lines : List (ScrollbackLine ρ)) (data : List UInt8) : Prop where
  cellsBack : (ScrollbackLine.fromCells row wrapped).toCells = some row
  linesBack : Checked.deserializeLines (serializeLines lines)
    = some (some (lines.map ScrollbackLine.kept))
  foretold : (serializeLines lines).length
    = HEADER_LEN + (lines.map serializedRecordLen).sum
  anyBytes : ∃ read : Option (List (ScrollbackLine ρ)),
    Checked.deserializeLines data = some read
      ∧ ∀ lines ∈ read, ∀ line ∈ lines,
        ∃ cells, line.toCells = some cells

/-- The codec is sound for exactly the rows that fit a line and the lines
of less than 2^32 bytes. -/
theorem codecSound_iff (row : List (Cell ρ)) (wrapped : Bool)
    (lines : List (ScrollbackLine ρ)) (data : List UInt8) :
    CodecSound row wrapped lines data
      ↔ ScrollbackLine.RowFits row
        ∧ ∀ line ∈ lines, (serializeLine line).length < 256 ^ 4 := by
  constructor
  · intro h
    exact ⟨(ScrollbackLine.toCells_fromCells_iff row wrapped).1 h.cellsBack,
      (deserializeLines_serializeLines_iff lines).1 h.linesBack⟩
  · rintro ⟨hrow, hlines⟩
    exact {
      cellsBack := (ScrollbackLine.toCells_fromCells_iff row wrapped).2 hrow
      linesBack := (deserializeLines_serializeLines_iff lines).2 hlines
      foretold := length_serializeLines lines
      anyBytes := exists_deserializeLines data }

end Codec

theorem utf8ByteSize_replicate (n : Nat) :
    (String.ofList (List.replicate n 'a')).utf8ByteSize = n := by
  rw [← Utf8.length_bytes, Utf8.bytes_eq, String.toList_ofList, length_flatMap,
    map_replicate, sum_replicate_nat, String.length_utf8EncodeChar]
  exact Nat.mul_one n

open scoped Classical in
/-- A cell of 65536 bytes is read back without its text. -/
theorem not_codecSound_long : ¬ CodecSound (ρ := Unit)
    [(String.ofList (List.replicate 65536 'a'), .default)] false [] [] := by
  intro h
  have hfits :=
    (ScrollbackLine.toCells_fromCells_iff _ _).1 h.cellsBack
  have hlong := hfits.texts _ List.mem_cons_self
  rw [utf8ByteSize_replicate] at hlong
  exact absurd hlong (by decide)

end Tasty.Terminal
