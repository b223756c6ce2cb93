/-
The cells of a line (`scrollback.rs`): the builder that joins their texts
and counts equal attributes, and the iterator that takes the cells out of
the line again.
-/
import Tasty.Lib.RunLength
import Tasty.Terminal.Utf8Text

namespace Tasty.Terminal

open List

variable {ρ : Type}

-- ==== the builder

structure ScrollbackLineBuilder (ρ : Type) where
  text : String
  cellLens : List UInt16
  attrRuns : List (UInt32 × CellAttributes ρ)

namespace ScrollbackLineBuilder

def new : ScrollbackLineBuilder ρ where
  text := ""
  cellLens := []
  attrRuns := []

/-- The length of the text keeps its low 16 bits, and the count of a run
its low 32. -/
def push [DecidableEq (CellAttributes ρ)] (b : ScrollbackLineBuilder ρ)
    (grapheme : String) (attrs : CellAttributes ρ) :
    ScrollbackLineBuilder ρ where
  text := b.text ++ grapheme
  cellLens := b.cellLens ++ [UInt16.ofNat grapheme.utf8ByteSize]
  attrRuns := pushRun b.attrRuns attrs

def finish (b : ScrollbackLineBuilder ρ) (wrapped : Bool) :
    ScrollbackLine ρ where
  text := b.text
  cellLens := b.cellLens
  attrRuns := b.attrRuns
  wrapped := wrapped

end ScrollbackLineBuilder

/-- A cell: its text and its attributes. -/
abbrev Cell (ρ : Type) := String × CellAttributes ρ

def ScrollbackLine.fromCells [DecidableEq (CellAttributes ρ)]
    (cells : List (Cell ρ)) (wrapped : Bool) : ScrollbackLine ρ :=
  let push (b : ScrollbackLineBuilder ρ) (cell : Cell ρ) :=
    b.push cell.1 cell.2
  (cells.foldl push .new).finish wrapped

-- ==== the iterator

/-- `text.get(start..stop).unwrap_or("")`: the bytes in between, if there
are so many and both ends lie between characters, so that the bytes are
text. -/
def textBetween (text : String) (start stop : Nat) : String :=
  if stop ≤ text.utf8ByteSize then
    (String.fromUTF8?
      ⟨(((Utf8.bytes text).take stop).drop start).toArray⟩).getD ""
  else ""

/-- The iterator without the lengths that are left, over which it runs. -/
structure CellsIter (ρ : Type) where
  text : String
  bytePos : Nat
  runs : List (UInt32 × CellAttributes ρ)
  runIdx : Nat
  runRemaining : UInt32

namespace CellsIter

/-- The loop over runs that are used up, from the one at `idx` into the
`later` ones. -/
def skipRuns : List (UInt32 × CellAttributes ρ) → Nat → Nat × UInt32
  | [], idx => (idx + 1, 1)
  | (n, _) :: later, idx =>
    if n = 0 then skipRuns later (idx + 1) else (idx + 1, n)

def coveringRun (it : CellsIter ρ) : Nat × UInt32 :=
  if it.runRemaining = 0 then
    skipRuns (it.runs.drop (it.runIdx + 1)) it.runIdx
  else (it.runIdx, it.runRemaining)

/-- `next` behind `self.lens.next()?`; nothing where `self.runs[0]`
panics. -/
def next (it : CellsIter ρ) (len : UInt16) :
    Option (Cell ρ × CellsIter ρ) :=
  let stop := it.bytePos + len.toNat
  let s := textBetween it.text it.bytePos stop
  let run := it.coveringRun
  match it.runs.head? with
  | none => none
  | some first =>
    let attrs := (it.runs[run.1]?.map Prod.snd).getD first.2
    some ((s, attrs), { it with
      bytePos := stop, runIdx := run.1, runRemaining := run.2 - 1 })

def collect : List UInt16 → CellsIter ρ → Option (List (Cell ρ))
  | [], _ => some []
  | len :: lens, it =>
    match it.next len with
    | none => none
    | some (cell, it) => (collect lens it).map (cell :: ·)

end CellsIter

namespace ScrollbackLine

def cells (line : ScrollbackLine ρ) : CellsIter ρ where
  text := line.text
  bytePos := 0
  runs := line.attrRuns
  runIdx := 0
  runRemaining := (line.attrRuns.head?.map Prod.fst).getD 0

/-- Nothing where it panics. -/
def toCells (line : ScrollbackLine ρ) : Option (List (Cell ρ)) :=
  line.cells.collect line.cellLens

end ScrollbackLine

-- ==== what is read of it

/-- The texts of cells with these lengths, the first of them at `pos`. -/
def textsAt (text : String) : Nat → List UInt16 → List String
  | _, [] => []
  | pos, len :: lens =>
    textBetween text pos (pos + len.toNat)
      :: textsAt text (pos + len.toNat) lens

@[simp] theorem length_textsAt (text : String) (pos : Nat)
    (lens : List UInt16) : (textsAt text pos lens).length = lens.length := by
  induction lens generalizing pos with
  | nil => rfl
  | cons len lens ih => rw [textsAt, length_cons, ih, length_cons]

/-- The runs with their counts as numbers. -/
def counted (runs : List (UInt32 × CellAttributes ρ)) :
    List (Nat × CellAttributes ρ) := runs.map (Prod.map UInt32.toNat id)

variable {first : UInt32 × CellAttributes ρ}

namespace CellsIter

/-- What is left of the runs in a place among them. -/
def leftOf (runs : List (UInt32 × CellAttributes ρ)) (run : Nat × UInt32) :
    List (Nat × CellAttributes ρ) :=
  match runs.drop run.1 with
  | [] => []
  | (_, a) :: later => (run.2.toNat, a) :: counted later

def left (it : CellsIter ρ) : List (Nat × CellAttributes ρ) :=
  leftOf it.runs (it.runIdx, it.runRemaining)

section Skipping

variable {runs later : List (UInt32 × CellAttributes ρ)}
  {run : Nat × UInt32} {n : UInt32} {a : CellAttributes ρ}

theorem leftOf_nil (h : runs.drop run.1 = []) : leftOf runs run = [] := by
  unfold leftOf
  rw [h]

theorem leftOf_cons (h : runs.drop run.1 = (n, a) :: later) :
    leftOf runs run = (run.2.toNat, a) :: counted later := by
  unfold leftOf
  rw [h]

theorem drop_succ_of_cons {i : Nat} (h : runs.drop i = (n, a) :: later) :
    runs.drop (i + 1) = later := by
  rw [← drop_drop, h]
  rfl

variable (beyond : CellAttributes ρ)

/-- The loop stops in a run that is not used up, and passes nothing. -/
theorem skipRuns_spec {idx : Nat} (h : runs.drop (idx + 1) = later) :
    (skipRuns later idx).2 ≠ 0
      ∧ ∀ k, runAt beyond (leftOf runs (skipRuns later idx)) k
        = runAt beyond (counted later) k := by
  induction later generalizing idx with
  | nil =>
    refine ⟨Ne.symm (by decide : (0 : UInt32) ≠ 1), fun k => ?_⟩
    rw [skipRuns, leftOf_nil h]
    rfl
  | cons run later ih =>
    obtain ⟨n, a⟩ := run
    unfold skipRuns
    by_cases hn : n = 0
    · rw [if_pos hn]
      obtain ⟨hleft, hread⟩ := ih (drop_succ_of_cons h)
      refine ⟨hleft, fun k => (hread k).trans ?_⟩
      subst hn
      exact (runAt_of_le (Nat.zero_le k)).symm
    · rw [if_neg hn]
      refine ⟨hn, fun k => ?_⟩
      rw [leftOf_cons h]
      rfl

theorem coveringRun_spec (it : CellsIter ρ) :
    it.coveringRun.2 ≠ 0
      ∧ ∀ k, runAt beyond (leftOf it.runs it.coveringRun) k
        = runAt beyond it.left k := by
  unfold coveringRun left
  by_cases hused : it.runRemaining = 0
  · rw [if_pos hused, hused]
    obtain ⟨hleft, hread⟩ := skipRuns_spec beyond
      (rfl : it.runs.drop (it.runIdx + 1) = _)
    refine ⟨hleft, fun k => (hread k).trans ?_⟩
    cases hdrop : it.runs.drop it.runIdx with
    | nil =>
      rw [leftOf_nil hdrop, ← drop_drop, hdrop]
      rfl
    | cons run later =>
      obtain ⟨n, a⟩ := run
      rw [leftOf_cons hdrop, drop_succ_of_cons hdrop]
      exact (runAt_of_le (Nat.zero_le k)).symm
  · rw [if_neg hused]
    exact ⟨hused, fun k => rfl⟩

variable {beyond}

theorem runAt_leftOf_zero (hrun : run.2 ≠ 0) :
    runAt beyond (leftOf runs run) 0
      = (runs[run.1]?.map Prod.snd).getD beyond := by
  have hpos : 0 < run.2.toNat :=
    Nat.pos_of_ne_zero fun h => hrun (UInt32.toNat_inj.1 h)
  rw [← List.head?_drop]
  cases hdrop : runs.drop run.1 with
  | nil =>
    rw [leftOf_nil hdrop]
    rfl
  | cons first later =>
    obtain ⟨n, a⟩ := first
    rw [leftOf_cons hdrop, runAt_of_lt hpos]
    rfl

theorem runAt_leftOf_pred (hrun : run.2 ≠ 0) (k : Nat) :
    runAt beyond (leftOf runs (run.1, run.2 - 1)) k
      = runAt beyond (leftOf runs run) (k + 1) := by
  have hpos : 0 < run.2.toNat :=
    Nat.pos_of_ne_zero fun h => hrun (UInt32.toNat_inj.1 h)
  have hle : 1 ≤ run.2 := UInt32.le_iff_toNat_le.2 hpos
  have hone : (run.2 - 1).toNat = run.2.toNat - 1 :=
    UInt32.toNat_sub_of_le _ _ hle
  cases hdrop : runs.drop run.1 with
  | nil =>
    rw [leftOf_nil hdrop, @leftOf_nil _ _ (run.1, run.2 - 1) hdrop]
    rfl
  | cons first later =>
    obtain ⟨n, a⟩ := first
    rw [leftOf_cons hdrop,
      @leftOf_cons _ _ _ (run.1, run.2 - 1) _ _ hdrop, hone]
    exact runAt_pred hpos k

end Skipping

theorem next_eq_some {it : CellsIter ρ}
    (hfirst : it.runs.head? = some first) (len : UInt16) :
    ∃ it' : CellsIter ρ, it.next len
        = some ((textBetween it.text it.bytePos (it.bytePos + len.toNat),
          runAt first.2 it.left 0), it')
      ∧ it'.text = it.text ∧ it'.bytePos = it.bytePos + len.toNat
      ∧ it'.runs = it.runs
      ∧ ∀ k, runAt first.2 it'.left k = runAt first.2 it.left (k + 1) := by
  obtain ⟨hleft, hread⟩ := coveringRun_spec first.2 it
  unfold next
  rw [hfirst]
  dsimp only
  rw [← runAt_leftOf_zero hleft, hread]
  refine ⟨_, rfl, rfl, rfl, rfl, fun k => ?_⟩
  rw [← hread]
  exact runAt_leftOf_pred hleft k

theorem collect_eq_some {it : CellsIter ρ}
    (hfirst : it.runs.head? = some first) (lens : List UInt16) :
    it.collect lens = some ((textsAt it.text it.bytePos lens).zip
      ((List.range lens.length).map (runAt first.2 it.left))) := by
  induction lens generalizing it with
  | nil => rfl
  | cons len lens ih =>
    obtain ⟨it', hnext, htext, hpos, hruns, hread⟩ :=
      next_eq_some hfirst len
    have hrest := ih (hruns ▸ hfirst : it'.runs.head? = some first)
    rw [htext, hpos] at hrest
    unfold collect
    rw [hnext]
    dsimp only
    rw [hrest, Option.map_some, textsAt, length_cons, range_succ_eq_map,
      map_cons, zip_cons_cons, map_map]
    congr 4
    funext k
    exact hread k

end CellsIter

namespace ScrollbackLine

variable {line : ScrollbackLine ρ}

theorem toCells_eq_some (hfirst : line.attrRuns.head? = some first) :
    line.toCells = some ((textsAt line.text 0 line.cellLens).zip
      ((List.range line.cellLens.length).map
        (runAt first.2 (counted line.attrRuns)))) := by
  have hleft : line.cells.left = counted line.attrRuns := by
    unfold cells CellsIter.left CellsIter.leftOf
    rw [hfirst]
    cases hruns : line.attrRuns with
    | nil => rfl
    | cons run runs =>
      rw [hruns] at hfirst
      cases hfirst
      rfl
  have hcells : line.cells.runs.head? = some first := hfirst
  unfold toCells
  rw [CellsIter.collect_eq_some hcells, hleft]
  rfl

theorem toCells_of_no_cells
    (h : line.cellLens = []) : line.toCells = some [] := by
  unfold toCells
  rw [h]
  rfl

end ScrollbackLine

-- ==== the texts of a row

theorem textBetween_bytes {text t : String} {before behind : List UInt8}
    (h : Utf8.bytes text = before ++ (Utf8.bytes t ++ behind)) :
    textBetween text before.length (before.length + t.utf8ByteSize) = t := by
  have hsize := congrArg List.length h
  rw [Utf8.length_bytes, length_append, length_append,
    Utf8.length_bytes] at hsize
  have hslice : ((Utf8.bytes text).take
      (before.length + t.utf8ByteSize)).drop before.length
        = Utf8.bytes t := by
    rw [h, take_length_add_append, drop_left, ← Utf8.length_bytes, take_left]
  have hdata : (⟨(Utf8.bytes t).toArray⟩ : ByteArray) = t.toByteArray := by
    simp [Utf8.bytes]
  unfold textBetween
  rw [if_pos (by omega), hslice, hdata, String.fromUTF8?,
    dif_pos t.isValidUTF8]
  rfl

theorem utf8ByteSize_textBetween_le (text : String) (start n : Nat) :
    (textBetween text start (start + n)).utf8ByteSize ≤ n := by
  unfold textBetween
  split
  · rw [String.fromUTF8?]
    split
    · show ((((Utf8.bytes text).take (start + n)).drop start).toArray).size
        ≤ n
      rw [size_toArray, length_drop, length_take]
      omega
    · exact Nat.zero_le n
  · exact Nat.zero_le n

theorem textsAt_bytes {text : String} {texts : List String}
    {before : List UInt8}
    (h : Utf8.bytes text = before ++ texts.flatMap Utf8.bytes)
    (hfit : ∀ t ∈ texts, t.utf8ByteSize < 2 ^ 16) :
    textsAt text before.length
      (texts.map fun t => UInt16.ofNat t.utf8ByteSize) = texts := by
  induction texts generalizing before with
  | nil => rfl
  | cons t texts ih =>
    obtain ⟨ht, hfit⟩ := forall_mem_cons.1 hfit
    have hlen : (UInt16.ofNat t.utf8ByteSize).toNat = t.utf8ByteSize :=
      UInt16.toNat_ofNat_of_lt' ht
    rw [flatMap_cons] at h
    rw [map_cons, textsAt, hlen, textBetween_bytes h]
    rw [← append_assoc] at h
    have hrest := ih h hfit
    rw [length_append, Utf8.length_bytes] at hrest
    rw [hrest]

theorem utf8ByteSize_lt_of_mem_textsAt {text t : String} {pos : Nat}
    {lens : List UInt16} (h : t ∈ textsAt text pos lens) :
    t.utf8ByteSize < 2 ^ 16 := by
  induction lens generalizing pos with
  | nil => cases h
  | cons len lens ih =>
    rcases mem_cons.1 h with rfl | h
    · exact Nat.lt_of_le_of_lt (utf8ByteSize_textBetween_le text pos _)
        len.toNat_lt
    · exact ih h

-- ==== a whole row

namespace ScrollbackLine

variable [DecidableEq (CellAttributes ρ)]

variable (row : List (Cell ρ))

theorem fromCells_fields (wrapped : Bool) :
    Utf8.bytes (fromCells row wrapped).text
        = (row.map Prod.fst).flatMap Utf8.bytes
      ∧ (fromCells row wrapped).cellLens
        = (row.map Prod.fst).map (fun t => UInt16.ofNat t.utf8ByteSize)
      ∧ (fromCells row wrapped).attrRuns
        = (row.map Prod.snd).foldl pushRun [] := by
  unfold fromCells
  dsimp only
  induction row using reverseRecOn with
  | nil => exact ⟨rfl, rfl, rfl⟩
  | append_singleton row cell ih =>
    obtain ⟨htext, hlens, hruns⟩ := ih
    simp only [foldl_append, map_append, flatMap_append]
    rw [← htext, ← hlens, ← hruns]
    refine ⟨?_, rfl, rfl⟩
    rw [map_singleton, flatMap_singleton]
    exact Utf8.bytes_append _ _

theorem attrRuns_fromCells (wrapped : Bool) :
    (fromCells row wrapped).attrRuns
      = (runsOf (row.map Prod.snd)).map (Prod.map UInt32.ofNat id) := by
  rw [(fromCells_fields row wrapped).2.2]
  exact (map_foldl_pushRun (h := UInt32.ofNat) rfl
    (fun n => UInt32.ofNat_add n 1) (row.map Prod.snd) []).symm

theorem counted_fromCells (wrapped : Bool) :
    counted (fromCells row wrapped).attrRuns
      = cutRuns (· % 2 ^ 32) (runsOf (row.map Prod.snd)) := by
  rw [attrRuns_fromCells, counted, cutRuns, map_map]
  rfl

/-- What the numbers of a line can hold of a row: texts of less than
65536 bytes, and less than 2^32 equal attributes in a row, where those of
the last cells need no count if they are those of the first. -/
structure RowFits (row : List (Cell ρ)) : Prop where
  texts : ∀ cell ∈ row, cell.1.utf8ByteSize < 2 ^ 16
  inner : ∀ run ∈ (runsOf (row.map Prod.snd)).dropLast, run.1 < 2 ^ 32
  last : ∀ run ∈ (runsOf (row.map Prod.snd)).getLast?,
    run.1 < 2 ^ 32 ∨ ∀ cell ∈ row.head?, run.2 = cell.2

theorem rowFits_nil : RowFits ([] : List (Cell ρ)) where
  texts _ h := absurd h not_mem_nil
  inner _ h := absurd h not_mem_nil
  last _ h := absurd h (Option.not_mem_none _)

omit [DecidableEq (CellAttributes ρ)] in
theorem zip_eq_iff {texts : List String} {attrs : List (CellAttributes ρ)}
    {row : List (Cell ρ)} (htexts : texts.length = row.length)
    (hattrs : attrs.length = row.length) :
    texts.zip attrs = row
      ↔ texts = row.map Prod.fst ∧ attrs = row.map Prod.snd := by
  constructor
  · rintro rfl
    rw [map_fst_zip (by omega), map_snd_zip (by omega)]
    exact ⟨rfl, rfl⟩
  · rintro ⟨rfl, rfl⟩
    exact (zip_of_prod rfl rfl).symm

theorem textsAt_fromCells_iff (wrapped : Bool) :
    textsAt (fromCells row wrapped).text 0 (fromCells row wrapped).cellLens
        = row.map Prod.fst ↔ ∀ cell ∈ row, cell.1.utf8ByteSize < 2 ^ 16 := by
  obtain ⟨htext, hlens, -⟩ := fromCells_fields row wrapped
  constructor
  · intro h cell hcell
    exact utf8ByteSize_lt_of_mem_textsAt
      (h.symm ▸ mem_map_of_mem (f := Prod.fst) hcell)
  · intro hfit
    rw [hlens]
    refine @textsAt_bytes _ _ [] htext fun t ht => ?_
    obtain ⟨cell, hcell, rfl⟩ := mem_map.1 ht
    exact hfit cell hcell

theorem toCells_fromCells_iff (wrapped : Bool) :
    (fromCells row wrapped).toCells = some row ↔ RowFits row := by
  obtain ⟨-, hlens, -⟩ := fromCells_fields row wrapped
  cases hrow : row with
  | nil =>
    rw [hrow] at hlens
    exact iff_of_true (toCells_of_no_cells hlens) rowFits_nil
  | cons cell rest =>
    rw [← hrow]
    obtain ⟨n, hhead⟩ := exists_head_runsOf cell.2 (rest.map Prod.snd)
    have hfirst : (fromCells row wrapped).attrRuns.head?
        = some (UInt32.ofNat n, cell.2) := by
      rw [attrRuns_fromCells, hrow, map_cons, List.head?_map, hhead]
      rfl
    have hcount : (fromCells row wrapped).cellLens.length = row.length := by
      rw [hlens, length_map, length_map]
    rw [toCells_eq_some hfirst, Option.some_inj,
      zip_eq_iff (by rw [length_textsAt, hcount])
        (by rw [length_map, length_range, hcount]),
      textsAt_fromCells_iff, hcount, counted_fromCells,
      ← length_map Prod.snd,
      map_runAt_cutRuns_iff fun n => Nat.mod_le n _]
    have hkept (n : Nat) : n % 2 ^ 32 = n ↔ n < 2 ^ 32 :=
      Nat.mod_eq_iff_lt (by decide)
    constructor
    · rintro ⟨htexts, hinner, hlast⟩
      refine ⟨htexts, fun run hrun => (hkept _).1 (hinner run hrun),
        fun run hrun => ?_⟩
      rcases hlast run hrun with h | h
      · exact .inl ((hkept _).1 h)
      · rw [hrow]
        exact .inr fun c hc => by cases hc; exact h
    · rintro ⟨htexts, hinner, hlast⟩
      refine ⟨htexts, fun run hrun => (hkept _).2 (hinner run hrun),
        fun run hrun => ?_⟩
      rcases hlast run hrun with h | h
      · exact .inl ((hkept _).2 h)
      · rw [hrow] at h
        exact .inr (h cell rfl)

end ScrollbackLine

end Tasty.Terminal
