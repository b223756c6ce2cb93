/-
A viewport is the reading position of one display: a row number and the
epoch it was taken in, resolved against a cut of the content. The numbers
of the rows keep their meaning within an epoch, so a viewport that is
anchored to a row shows that row until it is trimmed.
-/
import Tasty.Terminal.Rows

namespace Tasty.Terminal

open List

variable {ρ : Type}

-- ==== the model

/-- What a viewport needs of a cut: its epoch, and where the history and
the live grid begin. -/
structure ContentCut where
  epoch : ContentEpoch
  firstRow : Nat
  screenStart : Nat
  alternate : Bool

def ContentCut.historyLen (c : ContentCut) : Nat := c.screenStart - c.firstRow

structure Anchor where
  epoch : ContentEpoch
  row : Nat

/-- Without an anchor it follows the live grid. -/
structure TerminalViewport where
  anchor : Option Anchor

structure ViewportInfo where
  cut : ContentCut
  topRow : Nat

def ViewportInfo.scrollOffset (i : ViewportInfo) : Nat :=
  i.cut.screenStart - i.topRow

namespace TerminalViewport

/-- An anchor of another epoch resolves to the live grid as well. -/
def resolve (v : TerminalViewport) (cut : ContentCut) : ViewportInfo :=
  if cut.alternate then ⟨cut, cut.screenStart⟩
  else
    let topRow := match v.anchor with
      | some a =>
        if a.epoch = cut.epoch then max cut.firstRow (min a.row cut.screenStart)
        else cut.screenStart
      | none => cut.screenStart
    ⟨cut, topRow⟩

def setScrollOffset (v : TerminalViewport) (cut : ContentCut)
    (offset : Nat) : TerminalViewport :=
  if cut.alternate then v
  else
    let offset := min offset cut.historyLen
    ⟨if offset ≠ 0 then some ⟨cut.epoch, cut.screenStart - offset⟩
      else none⟩

def scrollUp (v : TerminalViewport) (cut : ContentCut) (rows : Nat) :
    TerminalViewport :=
  if cut.alternate then v
  else v.setScrollOffset cut ((v.resolve cut).scrollOffset + rows)

def scrollDown (v : TerminalViewport) (cut : ContentCut) (rows : Nat) :
    TerminalViewport :=
  if cut.alternate then v
  else v.setScrollOffset cut ((v.resolve cut).scrollOffset - rows)

def scrollToBottom (_ : TerminalViewport) : TerminalViewport := ⟨none⟩

/-- The ways to scroll a viewport over a cut. -/
inductive Scrolls (cut : ContentCut) : TerminalViewport → TerminalViewport →
    Prop
  | up (v : TerminalViewport) (rows : Nat) : Scrolls cut v (v.scrollUp cut rows)
  | down (v : TerminalViewport) (rows : Nat) :
    Scrolls cut v (v.scrollDown cut rows)
  | bottom (v : TerminalViewport) : Scrolls cut v v.scrollToBottom
  | offset (v : TerminalViewport) (offset : Nat) :
    Scrolls cut v (v.setScrollOffset cut offset)

theorem anchor_of_scrolls {cut : ContentCut} {v w : TerminalViewport}
    (hprimary : cut.alternate = false) (h : Scrolls cut v w) {a : Anchor}
    (ha : w.anchor = some a) :
    a.epoch = cut.epoch ∧ cut.firstRow ≤ a.row ∧ a.row < cut.screenStart := by
  have hset : ∀ offset, (v.setScrollOffset cut offset).anchor = some a →
      a.epoch = cut.epoch ∧ cut.firstRow ≤ a.row
        ∧ a.row < cut.screenStart := by
    intro offset hoffset
    unfold setScrollOffset at hoffset
    rw [if_neg (by simp [hprimary])] at hoffset
    dsimp only at hoffset
    split at hoffset
    · next hne =>
      rw [Option.some.injEq] at hoffset
      subst hoffset
      unfold ContentCut.historyLen at hne ⊢
      dsimp only
      exact ⟨rfl, by omega, by omega⟩
    · cases hoffset
  cases h with
  | up rows =>
    rw [scrollUp, if_neg (by simp [hprimary])] at ha
    exact hset _ ha
  | down rows =>
    rw [scrollDown, if_neg (by simp [hprimary])] at ha
    exact hset _ ha
  | bottom => cases ha
  | offset offset => exact hset _ ha

end TerminalViewport

/-- The cut of a terminal; `alternate` is the epoch of the alternate screen
while that is shown. -/
def Scrollback.contentCut (s : Scrollback ρ)
    (alternate : Option ContentEpoch) : ContentCut :=
  match alternate with
  | some e =>
    { epoch := { e with alternate := true }
      firstRow := 0, screenStart := 0, alternate := true }
  | none =>
    { epoch := s.epoch
      firstRow := s.firstRow
      screenStart := s.firstRow + s.totalLen
      alternate := false }

-- ==== the result

namespace Process

/-- The row under a number. -/
def row (p : Process ρ) (r : Nat) : Option (Stored ρ) := p.timeline.row r

/-- The content of the primary screen. -/
def cut (p : Process ρ) : ContentCut := p.scrollback.contentCut none

variable {p p' : Process ρ}

theorem Sound.screenStart (h : p.Sound) :
    p.cut.screenStart = p.timeline.next := by
  show p.scrollback.firstRow + p.scrollback.totalLen = _
  rw [← h.scrollback.length_rows]
  rfl

theorem later_of_epoch (hlater : p.timeline.Later Stored.Moved p'.timeline)
    (he : p'.scrollback.epoch = p.scrollback.epoch) :
    ∃ added, p.timeline.Extends Stored.Moved added p'.timeline :=
  hlater.extends (congrArg ContentEpoch.serial he)

variable {x : Stored ρ}

theorem Sound.lineFull [Inhabited ρ] (h : p.Sound) {r : Nat}
    (hx : p.row r = some x) (opened : Bool) :
    p.scrollback.lineFull (r - p.scrollback.firstRow) opened = some x.read
      ∨ (∃ record, x = .onDisk record)
        ∧ p.scrollback.lineFull (r - p.scrollback.firstRow) opened
          = none := by
  obtain ⟨hfirst, hget⟩ := Timeline.row_eq_some.1 hx
  change (p.scrollback.rows)[r - p.scrollback.firstRow]? = some x at hget
  have hlen := h.scrollback.length_diskRecords
  unfold Scrollback.rows at hget
  unfold Scrollback.lineFull
  split
  · next hlt =>
    rw [getElem?_append_left (by rw [length_map]; omega),
      getElem?_map] at hget
    obtain ⟨record, hrec, rfl⟩ := Option.map_eq_some_iff.1 hget
    cases hd : p.scrollback.disk with
    | none =>
      rw [Scrollback.diskRecords, hd] at hrec
      cases hrec
    | some ds =>
      rw [Scrollback.diskRecords, hd] at hrec
      have hread := (h.scrollback.disk ds hd).readLine (ρ := ρ) hrec opened
      split at hread
      · exact .inl (by simp [hread, Stored.read])
      · exact .inr ⟨⟨record, rfl⟩, by simp [hread]⟩
  · next hge =>
    rw [getElem?_append_right (by rw [length_map]; omega),
      length_map, getElem?_map, hlen] at hget
    obtain ⟨line, hline, rfl⟩ := Option.map_eq_some_iff.1 hget
    exact .inl hline

theorem Sound.line (h : p.Sound) {r : Nat} (hx : p.row r = some x) :
    ∃ line : ScrollbackLine ρ, (Stored.inMemory line).Moved x := by
  obtain ⟨-, hget⟩ := Timeline.row_eq_some.1 hx
  have hmem : x ∈ p.scrollback.rows := mem_of_getElem? hget
  rcases mem_append.1 hmem with hmem | hmem
  · obtain ⟨record, hrec, rfl⟩ := mem_map.1 hmem
    obtain ⟨line, rfl⟩ := h.scrollback.records record hrec
    exact ⟨line, .spilled line⟩
  · obtain ⟨line, -, rfl⟩ := mem_map.1 hmem
    exact ⟨line, .refl _⟩

/-- A line reads as itself from memory, and from disk as the file keeps
it. -/
theorem read_of_moved [Inhabited ρ] {line : ScrollbackLine ρ}
    (h : (Stored.inMemory line).Moved x) (hfit : line.Fits) :
    x.read = line ∨ x.read = line.kept := by
  cases h with
  | refl => exact .inl rfl
  | spilled => exact .inr (DiskScrollback.readRecord_record hfit)

/-- What holds of a state `p`, and between it and a later one `p'`. -/
structure Stable [Inhabited ρ] (p p' : Process ρ) : Prop where
  /-- Memory and disk hold at most their limits. -/
  bounded : p.scrollback.Bounded
  /-- The numbers of the kept rows are one range. -/
  contiguous : ∀ r,
    (p.row r).isSome ↔ p.cut.firstRow ≤ r ∧ r < p.cut.screenStart
  /-- A kept row is a line, where that is or as its record. -/
  line : ∀ r x, p.row r = some x →
    ∃ line : ScrollbackLine ρ, (Stored.inMemory line).Moved x
      ∧ (line.Fits → x.read = line ∨ x.read = line.kept)
  /-- Reading it by its index gives that, unless the disk fails. -/
  reads : ∀ r x opened, p.row r = some x →
    p.scrollback.lineFull (r - p.cut.firstRow) opened = some x.read
      ∨ (∃ record, x = .onDisk record)
        ∧ p.scrollback.lineFull (r - p.cut.firstRow) opened = none
  /-- The lines that are pushed get the numbers that come next. -/
  pushed : ∀ lines f q, q = Op.apply p (.pushLines lines, f) →
    q.cut.epoch = p.cut.epoch → ∀ i line, lines[i]? = some line →
      q.cut.firstRow ≤ p.cut.screenStart + i →
      ∃ x, q.row (p.cut.screenStart + i) = some x
        ∧ (Stored.inMemory line).Moved x
  /-- An epoch that has ended does not come back. -/
  epoch_le : p.cut.epoch.serial ≤ p'.cut.epoch.serial
  first_le : p'.cut.epoch = p.cut.epoch → p.cut.firstRow ≤ p'.cut.firstRow
  /-- Numbers are not given out twice. -/
  next_le : p'.cut.epoch = p.cut.epoch →
    p.cut.screenStart ≤ p'.cut.screenStart
  /-- A number that is kept stands for the same row. -/
  kept : p'.cut.epoch = p.cut.epoch → ∀ r x, p.row r = some x →
    p'.cut.firstRow ≤ r → ∃ y, p'.row r = some y ∧ x.Moved y
  /-- One that is not kept stands for none. -/
  dropped : ∀ r, r < p'.cut.firstRow → p'.row r = none
  /-- An anchor stands on a kept row. -/
  anchors : ∀ (v w : TerminalViewport) a, TerminalViewport.Scrolls p.cut v w →
    w.anchor = some a → a.epoch = p.cut.epoch ∧ (p.row a.row).isSome
  /-- What is anchored to a row shows it until it is trimmed. -/
  shows : p'.cut.epoch = p.cut.epoch → ∀ (v : TerminalViewport) r,
    v.anchor = some ⟨p.cut.epoch, r⟩ → (p.row r).isSome →
    p'.cut.firstRow ≤ r → (v.resolve p'.cut).topRow = r

theorem Sound.stable [Inhabited ρ] (h : p.Sound) (h' : p'.Sound)
    (hlater : p.timeline.Later Stored.Moved p'.timeline) : p.Stable p' where
  bounded := h.bounded
  contiguous r := by
    rw [h.screenStart]
    exact Timeline.row_isSome
  line r x hx := by
    obtain ⟨line, hm⟩ := h.line hx
    exact ⟨line, hm, read_of_moved hm⟩
  reads r x opened hx := h.lineFull hx opened
  pushed lines f q hq he i line hline hfirst := by
    obtain ⟨-, hstep⟩ := apply_spec h (.pushLines lines) f
    rw [← hq] at hstep
    have hserial : q.timeline.epoch = p.timeline.epoch :=
      congrArg ContentEpoch.serial he
    rw [h.screenStart] at hfirst ⊢
    obtain hext | hlt := hstep
    · refine hext.added_row ?_ hfirst
      show (lines.map Stored.inMemory)[i]? = _
      rw [getElem?_map, hline]
      rfl
    · exact absurd hserial (Nat.ne_of_gt hlt)
  epoch_le := hlater.epoch_le
  first_le he := by
    obtain ⟨added, hext⟩ := later_of_epoch hlater he
    exact hext.first_le
  next_le he := by
    obtain ⟨added, hext⟩ := later_of_epoch hlater he
    rw [h.screenStart, h'.screenStart, hext.next_eq]
    exact Nat.le_add_right _ _
  kept he r x hx hr := by
    obtain ⟨added, hext⟩ := later_of_epoch hlater he
    exact hext.row hx hr
  dropped r hr := Timeline.row_of_lt hr
  anchors v w a hscroll ha := by
    obtain ⟨he, hfirst, hlt⟩ :=
      TerminalViewport.anchor_of_scrolls rfl hscroll ha
    refine ⟨he, Timeline.row_isSome.2 ⟨hfirst, ?_⟩⟩
    rw [← h.screenStart]
    exact hlt
  shows he v r ha hr hfirst := by
    obtain ⟨added, hext⟩ := later_of_epoch hlater he
    have hlt := (Timeline.row_isSome.1 hr).2
    have hnext := hext.next_eq
    rw [← h.screenStart, ← h'.screenStart] at hnext
    rw [← h.screenStart] at hlt
    unfold TerminalViewport.resolve
    rw [if_neg (by simp [cut, Scrollback.contentCut]), ha]
    dsimp only
    rw [if_pos he.symm]
    omega

/-- In any run of pushes, limit changes and erasures, whatever calls to the
file system fail: within an epoch a number stands for one row as long as
that is kept, and for none afterwards. -/
theorem rows_stay_under_their_numbers [Inhabited ρ] (next : Nat)
    (before after : List (Op ρ × Faults)) :
    Stable ((new next : Process ρ).run before)
      (((new next : Process ρ).run before).run after) := by
  have h := (run_spec (new_sound next) before).1
  obtain ⟨h', hlater⟩ := run_spec h after
  exact h.stable h' hlater

end Process

end Tasty.Terminal
