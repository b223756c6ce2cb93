/-
The scrollback of a terminal: rows in memory, and on disk those that went
over the limit. A row has a number for good within one content epoch: rows
leave only at the front, and a loss in between starts another epoch.

What the rows are is a timeline: the records on disk, then the lines in
memory. An operation extends the timeline, with rows moving from memory to
disk on the way, or begins another epoch; so does a run.
-/
import Tasty.Terminal.DiskScrollback
import Tasty.Lib.Timeline

namespace Tasty.Terminal

open List

variable {ρ : Type}

-- ==== the model

/-- The identity of a history. -/
structure ContentEpoch where
  serial : Nat
  alternate : Bool
  deriving DecidableEq

/-- `next` is what the process-wide counter holds. -/
def ContentEpoch.fresh (next : Nat) : ContentEpoch := ⟨next, false⟩

/-- What the calls to the file system of one operation meet. -/
structure Faults where
  spill : Compaction
  appends : List Append
  cut : Bool
  trim : Compaction

/-- Counts are naturals: no history lives to see 2 ^ 64 rows. -/
structure Scrollback (ρ : Type) where
  lines : List (ScrollbackLine ρ)
  limit : Nat
  epoch : ContentEpoch
  firstRow : Nat
  disk : Option DiskScrollback
  /-- The most rows that the disk keeps. -/
  diskLimit : Option Nat

namespace Scrollback

def new (next : Nat) : Scrollback ρ where
  lines := []
  limit := 10000
  epoch := .fresh next
  firstRow := 0
  disk := none
  diskLimit := none

/-- Drop the oldest disk rows past the disk limit. -/
def trimDisk (s : Scrollback ρ) (c : Compaction) : Scrollback ρ :=
  match s.diskLimit, s.disk with
  | some cap, some ds =>
    let excess := ds.lineCount - cap
    if 0 < excess then
      let (ds, dropped) := ds.dropFront excess cap c
      { s with disk := some ds, firstRow := s.firstRow + dropped }
    else s
  | _, _ => s

/-- Rows that the cap would drop right after writing are dropped before it:
the disk, the rows to write, and how many were dropped. -/
def dropUnwritten (ds : DiskScrollback) (spilled : List (ScrollbackLine ρ))
    (diskLimit : Option Nat) (c : Compaction) :
    DiskScrollback × List (ScrollbackLine ρ) × Nat :=
  match diskLimit with
  | none => (ds, spilled, 0)
  | some cap =>
    let unwritten := spilled.length - cap
    if 0 < unwritten then
      let (ds, dropped) := ds.dropFront ds.lineCount cap c
      (ds, spilled.drop unwritten, dropped + unwritten)
    else (ds, spilled, 0)

/-- Move rows over the limit to disk, or drop them without one. The second
component is the counter of epochs, before and after. -/
def flushToDisk (s : Scrollback ρ) (next : Nat) (f : Faults) :
    Scrollback ρ × Nat :=
  let excess := s.lines.length - s.limit
  if excess = 0 then (s, next)
  else match s.disk with
    | none =>
      ({ s with
        lines := s.lines.drop excess, firstRow := s.firstRow + excess }, next)
    | some ds =>
      let (ds, spilled, gone) :=
        dropUnwritten ds (s.lines.take excess) s.diskLimit f.spill
      let s := { s with
        lines := s.lines.drop excess, firstRow := s.firstRow + gone }
      match ds.pushLines spilled f.appends f.cut with
      | (ds, true) => ({ s with disk := some ds }.trimDisk f.trim, next)
      | (ds, false) =>
        -- the batch is lost between the rows on disk and those in memory
        ({ s with disk := some ds, epoch := .fresh next, firstRow := 0 },
          next + 1)

def setDiskLimit (s : Scrollback ρ) (limit : Option Nat) (f : Faults) :
    Scrollback ρ :=
  { s with diskLimit := limit }.trimDisk f.trim

def setLimit (s : Scrollback ρ) (limit : Nat) (next : Nat) (f : Faults) :
    Scrollback ρ × Nat :=
  { s with limit := limit }.flushToDisk next f

/-- `created` says whether the instance file could be made. -/
def enableDisk (s : Scrollback ρ) (created : Bool) : Scrollback ρ :=
  if s.disk.isNone && created then { s with disk := some .new } else s

def pushLines (s : Scrollback ρ) (lines : List (ScrollbackLine ρ))
    (next : Nat) (f : Faults) : Scrollback ρ × Nat :=
  { s with lines := s.lines ++ lines }.flushToDisk next f

/-- Discard every row; the file may refuse to be cut. -/
def clear (s : Scrollback ρ) (next : Nat) (f : Faults) :
    Scrollback ρ × Nat :=
  ({ s with
    lines := []
    epoch := .fresh next
    firstRow := 0
    disk := s.disk.map fun ds => (ds.clear f.cut).1 }, next + 1)

def diskCount (s : Scrollback ρ) : Nat :=
  s.disk.elim 0 DiskScrollback.lineCount

def totalLen (s : Scrollback ρ) : Nat := s.diskCount + s.lines.length

/-- A whole line by its index; a row on disk that cannot be read is not
there. -/
def lineFull [Inhabited ρ] (s : Scrollback ρ) (index : Nat)
    (opened : Bool) : Option (ScrollbackLine ρ) :=
  if index < s.diskCount then
    s.disk.bind fun ds => (ds.readLine index opened).join
  else s.lines[index - s.diskCount]?

end Scrollback

/-- A process with one terminal, and its counter of epochs. -/
structure Process (ρ : Type) where
  scrollback : Scrollback ρ
  nextEpoch : Nat

/-- What can happen to the scrollback, and around it. -/
inductive Op (ρ : Type)
  | pushLines (lines : List (ScrollbackLine ρ))
  | setLimit (limit : Nat)
  | setDiskLimit (limit : Option Nat)
  | enableDisk (created : Bool)
  | clear
  /-- The swap file is removed from outside. -/
  | unlink
  /-- Other histories begin. -/
  | others (epochs : Nat)

/-- One operation, with what its calls to the file system meet. -/
def Op.apply (p : Process ρ) : Op ρ × Faults → Process ρ
  | (.pushLines lines, f) =>
    let (s, n) := p.scrollback.pushLines lines p.nextEpoch f
    ⟨s, n⟩
  | (.setLimit limit, f) =>
    let (s, n) := p.scrollback.setLimit limit p.nextEpoch f
    ⟨s, n⟩
  | (.setDiskLimit limit, f) =>
    { p with scrollback := p.scrollback.setDiskLimit limit f }
  | (.enableDisk created, _) =>
    { p with scrollback := p.scrollback.enableDisk created }
  | (.clear, f) =>
    let (s, n) := p.scrollback.clear p.nextEpoch f
    ⟨s, n⟩
  | (.unlink, _) =>
    { p with scrollback.disk :=
        p.scrollback.disk.map fun ds => { ds with file.linked := false } }
  | (.others epochs, _) => { p with nextEpoch := p.nextEpoch + epochs }

/-- A process whose terminal is new; other histories may have begun. -/
def Process.new (next : Nat) : Process ρ := ⟨.new next, next + 1⟩

/-- One operation after another. -/
def Process.run (p : Process ρ) (ops : List (Op ρ × Faults)) : Process ρ :=
  ops.foldl Op.apply p

-- ==== rows

/-- Where a row is, and as what. -/
inductive Stored (ρ : Type)
  | inMemory (line : ScrollbackLine ρ)
  | onDisk (record : List UInt8)

/-- A row stays what it is, or goes from memory to disk as the record of
its line. -/
inductive Stored.Moved : Stored ρ → Stored ρ → Prop
  | refl (x : Stored ρ) : Moved x x
  | spilled (line : ScrollbackLine ρ) :
    Moved (.inMemory line) (.onDisk (DiskScrollback.record line))

instance : Std.Refl (Stored.Moved (ρ := ρ)) := ⟨.refl⟩

instance : IsTrans (Stored ρ) Stored.Moved where
  trans _ _ _ h h' := by
    cases h with
    | refl => exact h'
    | spilled line => cases h'; exact .spilled line

/-- What a row reads as. -/
def Stored.read [Inhabited ρ] : Stored ρ → ScrollbackLine ρ
  | inMemory line => line
  | onDisk record => DiskScrollback.readRecord record

namespace Scrollback

/-- The records on disk. -/
def diskRecords (s : Scrollback ρ) : List (List UInt8) :=
  s.disk.elim [] DiskScrollback.records

/-- The rows, the oldest first. -/
def rows (s : Scrollback ρ) : List (Stored ρ) :=
  s.diskRecords.map .onDisk ++ s.lines.map .inMemory

def timeline (s : Scrollback ρ) : Timeline (Stored ρ) where
  epoch := s.epoch.serial
  first := s.firstRow
  rows := s.rows

/-- The counters of the disk describe its file, and its records are those
of lines. -/
structure Sound (s : Scrollback ρ) : Prop where
  disk : ∀ ds ∈ s.disk, ds.Sound
  records : ∀ r ∈ s.diskRecords,
    ∃ line : ScrollbackLine ρ, r = DiskScrollback.record line
  primary : s.epoch.alternate = false

/-- The disk is within its cap. -/
def DiskBounded (s : Scrollback ρ) : Prop :=
  ∀ cap ∈ s.diskLimit, s.diskCount ≤ cap

/-- The memory and the disk are within their limits. -/
structure Bounded (s : Scrollback ρ) : Prop where
  memory : s.lines.length ≤ s.limit
  disk : s.DiskBounded

variable {s : Scrollback ρ}

theorem Sound.length_diskRecords (h : s.Sound) :
    s.diskRecords.length = s.diskCount := by
  unfold diskRecords diskCount
  cases hd : s.disk with
  | none => rfl
  | some ds => exact (h.disk ds hd).length_records

theorem Sound.length_rows (h : s.Sound) : s.rows.length = s.totalLen := by
  rw [rows, length_append, length_map, length_map,
    h.length_diskRecords, totalLen]

-- ==== operations

variable {ds : DiskScrollback}

theorem Sound.of_some (hd : s.disk = some ds) (hs : ds.Sound)
    (hrec : ∀ r ∈ ds.records,
      ∃ line : ScrollbackLine ρ, r = DiskScrollback.record line)
    (hp : s.epoch.alternate = false) : s.Sound where
  disk := fun ds' hd' => by
    rw [Option.mem_def, hd, Option.some.injEq] at hd'
    rw [← hd']
    exact hs
  records := by
    rw [diskRecords, hd]
    exact hrec
  primary := hp

theorem Sound.of_record (h : s.Sound) (hd : s.disk = some ds) :
    ∀ r ∈ ds.records,
      ∃ line : ScrollbackLine ρ, r = DiskScrollback.record line := by
  have := h.records
  rw [diskRecords, hd] at this
  exact this

theorem diskBounded_some {cap : Nat} (hd : s.disk = some ds)
    (hl : s.diskLimit = some cap) : s.DiskBounded ↔ ds.lineCount ≤ cap := by
  unfold DiskBounded diskCount
  rw [hl, hd]
  simp

/-- What a step does to the rows: more of them, or another epoch. -/
def Steps (s : Scrollback ρ) (next : Nat) (added : List (Stored ρ))
    (r : Scrollback ρ × Nat) : Prop :=
  (r.2 = next ∧ r.1.epoch = s.epoch
      ∧ s.timeline.Extends Stored.Moved added r.1.timeline)
    ∨ (r.2 = next + 1 ∧ r.1.epoch = .fresh next)

variable {n : Nat}

/-- Rows that go at the front of the disk. -/
theorem extends_drop {ds' : DiskScrollback} (hd : s.disk = some ds)
    (hs : ds.Sound) (hrec : ds'.records = ds.records.drop n)
    (hn : n ≤ ds.lineCount) :
    s.timeline.Extends Stored.Moved []
      { s with disk := some ds', firstRow := s.firstRow + n }.timeline := by
  have hlen := hs.length_records
  have hrows : s.rows
      = ds.records.map Stored.onDisk ++ s.lines.map Stored.inMemory := by
    rw [rows, diskRecords, hd]
    rfl
  refine ⟨rfl, n, rfl, ?_, ?_⟩
  · show n ≤ (s.rows ++ []).length
    rw [hrows]
    simp only [length_append, length_map]
    omega
  · show List.Forall₂ _ ((s.rows ++ []).drop n)
      (ds'.records.map Stored.onDisk ++ s.lines.map Stored.inMemory)
    rw [append_nil, hrows, hrec, map_drop,
      drop_append_of_le_length (by rw [length_map]; omega)]
    exact forall₂_refl _

theorem trimDisk_spec (h : s.Sound) (c : Compaction) :
    (s.trimDisk c).Sound ∧ (s.trimDisk c).DiskBounded
      ∧ (s.trimDisk c).lines = s.lines ∧ (s.trimDisk c).limit = s.limit
      ∧ (s.trimDisk c).epoch = s.epoch
      ∧ s.timeline.Extends Stored.Moved [] (s.trimDisk c).timeline := by
  unfold trimDisk
  split
  · next cap ds hl hd =>
    have hds := h.disk ds hd
    dsimp only
    split
    · next hlt =>
      obtain ⟨hs, hrec, hmin, hmax⟩ :=
        hds.dropFront (ds.lineCount - cap) cap c
      have hcount := hs.length_records
      rw [hrec, length_drop, hds.length_records] at hcount
      refine ⟨.of_some rfl hs ?_ h.primary, ?_, rfl, rfl, rfl,
        extends_drop hd hds hrec hmax⟩
      · intro r hr
        rw [hrec] at hr
        exact h.of_record hd r (mem_of_mem_drop hr)
      · have hbound :
            (ds.dropFront (ds.lineCount - cap) cap c).1.lineCount ≤ cap := by
          omega
        intro cap' hcap
        cases hl.symm.trans hcap
        exact hbound
    · next hle =>
      refine ⟨h, ?_, rfl, rfl, rfl, .refl _⟩
      refine (diskBounded_some hd hl).2 ?_
      omega
  · next hno =>
    refine ⟨h, ?_, rfl, rfl, rfl, .refl _⟩
    intro cap hcap
    rw [diskCount]
    cases hd : s.disk with
    | none => exact Nat.zero_le _
    | some ds => exact absurd hd (hno cap ds hcap)

/-- Rows before the last ones go from the disk, then from those to write. -/
theorem dropUnwritten_spec (hs : ds.Sound)
    (spilled : List (ScrollbackLine ρ)) (limit : Option Nat) (c : Compaction) :
    ∃ ds' n m, dropUnwritten ds spilled limit c
        = (ds', spilled.drop m, n + m)
      ∧ ds'.Sound ∧ ds'.records = ds.records.drop n
      ∧ n ≤ ds.lineCount ∧ m ≤ spilled.length ∧ (m = 0 ∨ n = ds.lineCount) := by
  have hnone : ∃ ds' n m, (ds, spilled, 0) = (ds', spilled.drop m, n + m)
      ∧ ds'.Sound ∧ ds'.records = ds.records.drop n
      ∧ n ≤ ds.lineCount ∧ m ≤ spilled.length
      ∧ (m = 0 ∨ n = ds.lineCount) :=
    ⟨ds, 0, 0, rfl, hs, rfl, Nat.zero_le _, Nat.zero_le _, .inl rfl⟩
  unfold dropUnwritten
  split
  · exact hnone
  · next cap =>
    dsimp only
    split
    · obtain ⟨hs', hrec, hmin, hmax⟩ := hs.dropFront ds.lineCount cap c
      refine ⟨_, _, _, rfl, hs', hrec, hmax, by omega, .inr ?_⟩
      omega
    · exact hnone

theorem drop_add_append {α : Type} {as bs cs : List α} {m : Nat}
    (hn : n ≤ as.length) (hm : m ≤ bs.length) (h : m = 0 ∨ n = as.length) :
    (as ++ (bs ++ cs)).drop (n + m) = as.drop n ++ (bs.drop m ++ cs) := by
  obtain rfl | rfl := h
  · rw [Nat.add_zero, drop_append_of_le_length hn, drop_zero]
  · rw [← drop_drop, drop_left, drop_length,
      nil_append, drop_append_of_le_length hm]

theorem forall₂_spilled (lines : List (ScrollbackLine ρ)) :
    List.Forall₂ Stored.Moved (lines.map Stored.inMemory)
      ((lines.map DiskScrollback.record).map Stored.onDisk) := by
  induction lines with
  | nil => exact .nil
  | cons line lines ih => exact .cons (.spilled line) ih

/-- The oldest lines in memory are written behind the rows on disk, after
some of both were dropped. -/
theorem extends_spill {ds' : DiskScrollback} {excess m : Nat}
    (hd : s.disk = some ds) (hs : ds.Sound)
    (hrec : ds'.records = ds.records.drop n
      ++ ((s.lines.take excess).drop m).map DiskScrollback.record)
    (hn : n ≤ ds.lineCount) (hm : m ≤ (s.lines.take excess).length)
    (hall : m = 0 ∨ n = ds.lineCount) :
    s.timeline.Extends Stored.Moved []
      { s with
        lines := s.lines.drop excess, firstRow := s.firstRow + (n + m)
        disk := some ds' }.timeline := by
  have hlen := hs.length_records
  have hrows : s.rows = ds.records.map Stored.onDisk
      ++ ((s.lines.take excess).map Stored.inMemory
        ++ (s.lines.drop excess).map Stored.inMemory) := by
    rw [rows, diskRecords, hd, ← map_append, take_append_drop]
    rfl
  have hrows' : (s.rows ++ []).drop (n + m)
      = (ds.records.drop n).map Stored.onDisk
        ++ (((s.lines.take excess).drop m).map Stored.inMemory
          ++ (s.lines.drop excess).map Stored.inMemory) := by
    rw [append_nil, hrows, drop_add_append
      (by rw [length_map]; omega) (by rw [length_map]; exact hm)
      (by rw [length_map]; omega),
      map_drop (l := ds.records),
      map_drop (l := s.lines.take excess)]
  refine ⟨rfl, n + m, rfl, ?_, ?_⟩
  · show n + m ≤ (s.rows ++ []).length
    rw [hrows]
    simp only [length_append, length_map]
    omega
  · show List.Forall₂ _ ((s.rows ++ []).drop (n + m))
      (ds'.records.map Stored.onDisk
        ++ (s.lines.drop excess).map Stored.inMemory)
    rw [hrows', hrec, map_append, append_assoc]
    exact rel_append (forall₂_refl _)
      (rel_append (forall₂_spilled _) (forall₂_refl _))

theorem extends_forget (hd : s.disk = none) (hn : n ≤ s.lines.length) :
    s.timeline.Extends Stored.Moved []
      { s with
        lines := s.lines.drop n, firstRow := s.firstRow + n }.timeline := by
  have hrows : s.rows = s.lines.map Stored.inMemory := by
    rw [rows, diskRecords, hd]
    rfl
  refine ⟨rfl, n, rfl, ?_, ?_⟩
  · show n ≤ (s.rows ++ []).length
    rw [append_nil, hrows, length_map]
    exact hn
  · show List.Forall₂ _ ((s.rows ++ []).drop n)
      ((s.disk.elim [] DiskScrollback.records).map Stored.onDisk
        ++ (s.lines.drop n).map Stored.inMemory)
    rw [append_nil, hrows, hd, map_drop]
    exact forall₂_refl _

/-- What a flush does: the memory comes within its limit, and rows go on
under their numbers or the epoch ends. -/
theorem flushToDisk_spec (h : s.Sound) (hb : s.DiskBounded) (next : Nat)
    (f : Faults) :
    (s.flushToDisk next f).1.Sound ∧ (s.flushToDisk next f).1.Bounded
      ∧ s.Steps next [] (s.flushToDisk next f) := by
  unfold flushToDisk
  dsimp only
  split
  · next hfits =>
    exact ⟨h, ⟨Nat.le_of_sub_eq_zero hfits, hb⟩, .inl ⟨rfl, rfl, .refl _⟩⟩
  · next hexcess =>
    split
    · next hd =>
      refine ⟨⟨h.disk, h.records, h.primary⟩, ⟨?_, hb⟩,
        .inl ⟨rfl, rfl, extends_forget hd (by omega)⟩⟩
      show (s.lines.drop _).length ≤ s.limit
      rw [length_drop]
      omega
    · next ds hd =>
      have hds := h.disk ds hd
      obtain ⟨ds', n, m, hdrop, hs', hrec, hn, hm, hall⟩ :=
        dropUnwritten_spec hds (s.lines.take (s.lines.length - s.limit))
          s.diskLimit f.spill
      have hmem : (s.lines.drop (s.lines.length - s.limit)).length
          ≤ s.limit := by
        rw [length_drop]
        omega
      have hold : ∀ r ∈ ds'.records,
          ∃ line : ScrollbackLine ρ, r = DiskScrollback.record line := by
        intro r hr
        rw [hrec] at hr
        exact h.of_record hd r (mem_of_mem_drop hr)
      rw [hdrop]
      dsimp only
      obtain ⟨ds'', he, hs'', hrec''⟩ | ⟨ds'', he, hs'', hrec''⟩ :=
        hs'.pushLines ((s.lines.take (s.lines.length - s.limit)).drop m)
          f.appends f.cut
      · rw [he]
        dsimp only
        rw [hrec] at hrec''
        have hext := extends_spill hd hds hrec'' hn hm hall
        have hsound : Sound { s with
            lines := s.lines.drop (s.lines.length - s.limit)
            firstRow := s.firstRow + (n + m), disk := some ds'' } := by
          refine .of_some rfl hs'' ?_ h.primary
          intro r hr
          rw [hrec'', ← hrec] at hr
          rcases mem_append.1 hr with hr | hr
          · exact hold r hr
          · obtain ⟨line, -, rfl⟩ := mem_map.1 hr
            exact ⟨line, rfl⟩
        obtain ⟨ht, htb, hlines, hlimit, hepoch, htext⟩ :=
          trimDisk_spec hsound f.trim
        refine ⟨ht, ⟨?_, htb⟩, .inl ⟨rfl, hepoch, hext.trans htext⟩⟩
        rw [hlines, hlimit]
        exact hmem
      · rw [he]
        dsimp only
        have hcount : ds''.lineCount ≤ ds.lineCount := by
          rw [← hs''.length_records, hrec'', hrec, length_drop,
            hds.length_records]
          omega
        refine ⟨.of_some rfl hs'' (by rw [hrec'']; exact hold) rfl,
          ⟨hmem, ?_⟩, .inr ⟨rfl, rfl⟩⟩
        intro cap hcap
        have := hb cap hcap
        rw [diskCount, hd] at this
        exact Nat.le_trans hcount this

/-- New lines come behind the last row. -/
theorem extends_lines (s : Scrollback ρ) (lines : List (ScrollbackLine ρ)) :
    s.timeline.Extends Stored.Moved (lines.map .inMemory)
      { s with lines := s.lines ++ lines }.timeline := by
  refine ⟨rfl, 0, rfl, Nat.zero_le _, ?_⟩
  show List.Forall₂ _ ((s.rows ++ lines.map Stored.inMemory).drop 0)
    (s.diskRecords.map Stored.onDisk ++ (s.lines ++ lines).map Stored.inMemory)
  rw [drop_zero, map_append, ← append_assoc]
  exact forall₂_refl _

theorem pushLines_spec (h : s.Sound) (hb : s.DiskBounded)
    (lines : List (ScrollbackLine ρ)) (next : Nat) (f : Faults) :
    (s.pushLines lines next f).1.Sound
      ∧ (s.pushLines lines next f).1.Bounded
      ∧ s.Steps next (lines.map .inMemory) (s.pushLines lines next f) := by
  have hs : Sound { s with lines := s.lines ++ lines } :=
    ⟨h.disk, h.records, h.primary⟩
  obtain ⟨hs', hb', hsteps⟩ := flushToDisk_spec hs hb next f
  refine ⟨hs', hb', ?_⟩
  obtain ⟨hn, he, hext⟩ | hfresh := hsteps
  · have := (s.extends_lines lines).trans hext
    rw [append_nil] at this
    exact .inl ⟨hn, he, this⟩
  · exact .inr hfresh

theorem enableDisk_spec (h : s.Sound) (hb : s.Bounded) (created : Bool) :
    (s.enableDisk created).Sound ∧ (s.enableDisk created).Bounded
      ∧ (s.enableDisk created).epoch = s.epoch
      ∧ (s.enableDisk created).timeline = s.timeline := by
  unfold enableDisk
  split
  · next hc =>
    have hd : s.disk = none := by
      cases hd : s.disk with
      | none => rfl
      | some ds => simp [hd] at hc
    have htl : { s with disk := some .new : Scrollback ρ }.timeline
        = s.timeline := by
      unfold timeline rows diskRecords
      rw [hd]
      rfl
    exact ⟨.of_some rfl DiskScrollback.new_sound (by simp) h.primary,
      ⟨hb.memory, fun _ _ => Nat.zero_le _⟩, rfl, htl⟩
  · exact ⟨h, hb, rfl, rfl⟩

theorem clear_spec (h : s.Sound) (hb : s.Bounded) (next : Nat) (f : Faults) :
    (s.clear next f).1.Sound ∧ (s.clear next f).1.Bounded
      ∧ s.Steps next [] (s.clear next f) := by
  refine ⟨?_, ⟨Nat.zero_le _, ?_⟩, .inr ⟨rfl, rfl⟩⟩
  · cases hd : s.disk with
    | none =>
      have hdisk : (s.clear next f).1.disk = none := by
        simp [clear, hd]
      exact ⟨by simp [hdisk], by simp [diskRecords, hdisk], rfl⟩
    | some ds =>
      obtain ⟨hs, hrec⟩ := (h.disk ds hd).clear f.cut
      have hdisk : (s.clear next f).1.disk = some (ds.clear f.cut).1 := by
        simp [clear, hd]
      refine .of_some hdisk hs ?_ rfl
      obtain hnil | ⟨-, heq⟩ := hrec
      · rw [hnil]
        simp
      · rw [heq]
        exact h.of_record hd
  · intro cap hcap
    refine Nat.le_trans ?_ (hb.disk cap hcap)
    unfold diskCount
    cases hd : s.disk with
    | none => simp [clear, hd]
    | some ds =>
      obtain ⟨hs, hrec⟩ := (h.disk ds hd).clear f.cut
      have hlen := hs.length_records
      simp only [clear, hd, Option.map_some, Option.elim_some]
      obtain hnil | ⟨-, heq⟩ := hrec
      · rw [← hlen, hnil]
        exact Nat.zero_le _
      · exact Nat.le_of_eq (congrArg DiskScrollback.lineCount heq)

theorem unlink_spec (h : s.Sound) (hb : s.Bounded) {s' : Scrollback ρ}
    (hs' : s' = { s with
      disk := s.disk.map fun ds => { ds with file.linked := false } }) :
    s'.Sound ∧ s'.Bounded ∧ s'.epoch = s.epoch ∧ s'.timeline = s.timeline := by
  cases hd : s.disk with
  | none =>
    have : s' = s := by
      obtain ⟨_, _, _, _, _, _⟩ := s
      cases hd
      exact hs'
    rw [this]
    exact ⟨h, hb, rfl, rfl⟩
  | some ds =>
    have hd' : s'.disk = some { ds with file.linked := false } := by
      rw [hs', hd]
      rfl
    have hrec : s'.diskRecords = s.diskRecords := by
      rw [diskRecords, diskRecords, hd, hd']
      rfl
    have hcount : s'.diskCount = s.diskCount := by
      rw [diskCount, diskCount, hd, hd']
      rfl
    have hlines : s'.lines = s.lines := by rw [hs']
    have hlimit : s'.limit = s.limit := by rw [hs']
    have hcap : s'.diskLimit = s.diskLimit := by rw [hs']
    have hepoch : s'.epoch = s.epoch := by rw [hs']
    have hfirst : s'.firstRow = s.firstRow := by rw [hs']
    have hold := h.of_record hd
    refine ⟨.of_some hd' (h.disk ds hd).unlink hold ?_, ⟨?_, ?_⟩, hepoch, ?_⟩
    · rw [hepoch]
      exact h.primary
    · rw [hlines, hlimit]
      exact hb.memory
    · intro cap hc
      rw [hcount]
      exact hb.disk cap (hcap ▸ hc)
    · rw [timeline, timeline, rows, rows, hrec, hlines, hepoch, hfirst]

end Scrollback

-- ==== runs

namespace Process

/-- The scrollback is in order, and its epoch was taken from the
counter. -/
structure Sound (p : Process ρ) : Prop where
  scrollback : p.scrollback.Sound
  bounded : p.scrollback.Bounded
  epoch : p.scrollback.epoch.serial < p.nextEpoch

def timeline (p : Process ρ) : Timeline (Stored ρ) := p.scrollback.timeline

theorem new_sound (next : Nat) : (new next : Process ρ).Sound where
  scrollback := ⟨nofun, by simp [Scrollback.diskRecords, new, Scrollback.new],
    rfl⟩
  bounded := ⟨Nat.zero_le _, fun _ h => by cases h⟩
  epoch := Nat.lt_succ_self next

/-- What an operation adds, where the epoch goes on. -/
def added : Op ρ → List (Stored ρ)
  | .pushLines lines => lines.map .inMemory
  | _ => []

variable {p : Process ρ}

theorem step_of_steps {r : Scrollback ρ × Nat} {xs : List (Stored ρ)}
    (h : p.Sound) (hs : r.1.Sound) (hb : r.1.Bounded)
    (hsteps : p.scrollback.Steps p.nextEpoch xs r) :
    Sound ⟨r.1, r.2⟩
      ∧ (p.timeline.Extends Stored.Moved xs r.1.timeline
        ∨ p.timeline.epoch < r.1.timeline.epoch) := by
  have hlt := h.epoch
  obtain ⟨hn, he, hext⟩ | ⟨hn, he⟩ := hsteps
  · refine ⟨⟨hs, hb, ?_⟩, .inl hext⟩
    show r.1.epoch.serial < r.2
    rw [hn, he]
    exact hlt
  · refine ⟨⟨hs, hb, ?_⟩, .inr ?_⟩
    · show r.1.epoch.serial < r.2
      rw [hn, he]
      exact Nat.lt_succ_self _
    · show p.scrollback.epoch.serial < r.1.epoch.serial
      rw [he]
      exact hlt

/-- One operation: the rows go on under their numbers, or a later epoch
begins. -/
theorem apply_spec (h : p.Sound) (op : Op ρ) (f : Faults) :
    (Op.apply p (op, f)).Sound
      ∧ (p.timeline.Extends Stored.Moved (added op)
          (Op.apply p (op, f)).timeline
        ∨ p.timeline.epoch < (Op.apply p (op, f)).timeline.epoch) := by
  cases op with
  | pushLines lines =>
    obtain ⟨hs, hb, hsteps⟩ := Scrollback.pushLines_spec h.scrollback
      h.bounded.disk lines p.nextEpoch f
    exact step_of_steps h hs hb hsteps
  | setLimit limit =>
    have hs : Scrollback.Sound { p.scrollback with limit := limit } :=
      ⟨h.scrollback.disk, h.scrollback.records, h.scrollback.primary⟩
    obtain ⟨hs', hb, hsteps⟩ := Scrollback.flushToDisk_spec hs
      h.bounded.disk p.nextEpoch f
    exact step_of_steps h hs' hb hsteps
  | setDiskLimit limit =>
    have hs : Scrollback.Sound { p.scrollback with diskLimit := limit } :=
      ⟨h.scrollback.disk, h.scrollback.records, h.scrollback.primary⟩
    obtain ⟨ht, htb, hlines, hlimit, hepoch, hext⟩ :=
      Scrollback.trimDisk_spec hs f.trim
    refine ⟨⟨ht, ⟨?_, htb⟩, ?_⟩, .inl hext⟩
    · rw [show (Op.apply p (.setDiskLimit limit, f)).scrollback.lines = _
        from hlines, show (Op.apply p (.setDiskLimit limit, f)).scrollback.limit
          = _ from hlimit]
      exact h.bounded.memory
    · rw [show (Op.apply p (.setDiskLimit limit, f)).scrollback.epoch = _
        from hepoch]
      exact h.epoch
  | enableDisk created =>
    obtain ⟨hs, hb, he, htl⟩ :=
      Scrollback.enableDisk_spec h.scrollback h.bounded created
    refine ⟨⟨hs, hb, ?_⟩, .inl ?_⟩
    · rw [show (Op.apply p (.enableDisk created, f)).scrollback.epoch = _
        from he]
      exact h.epoch
    · rw [show (Op.apply p (.enableDisk created, f)).timeline = p.timeline
        from htl]
      exact .refl _
  | clear =>
    obtain ⟨hs, hb, hsteps⟩ :=
      Scrollback.clear_spec h.scrollback h.bounded p.nextEpoch f
    exact step_of_steps h hs hb hsteps
  | unlink =>
    have hdef : (Op.apply p (.unlink, f)).scrollback = { p.scrollback with
        disk := p.scrollback.disk.map fun ds =>
          { ds with file.linked := false } } := rfl
    obtain ⟨hs, hb, he, htl⟩ :=
      Scrollback.unlink_spec h.scrollback h.bounded hdef
    refine ⟨⟨hs, hb, ?_⟩, .inl ?_⟩
    · rw [he]
      exact h.epoch
    · rw [show (Op.apply p (.unlink, f)).timeline = p.timeline from htl]
      exact .refl _
  | others epochs =>
    refine ⟨⟨h.scrollback, h.bounded, ?_⟩, .inl (.refl _)⟩
    exact Nat.lt_of_lt_of_le h.epoch (Nat.le_add_right _ _)

/-- A run is one long step. -/
theorem run_spec (h : p.Sound) (ops : List (Op ρ × Faults)) :
    (p.run ops).Sound ∧ p.timeline.Later Stored.Moved (p.run ops).timeline := by
  induction ops generalizing p with
  | nil => exact ⟨h, .refl _⟩
  | cons op ops ih =>
    obtain ⟨hs, hstep⟩ := apply_spec h op.1 op.2
    obtain ⟨hs', hlater⟩ := ih hs
    refine ⟨hs', Timeline.Later.trans ?_ hlater⟩
    exact hstep.imp (fun hext => ⟨_, hext⟩) id

end Process

end Tasty.Terminal
