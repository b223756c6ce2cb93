/-
The order of the events. The revisions of a stream are those from one to its
head, along the batches; each batch numbers its events from zero, and the
revisions that it made of a stream follow those of the batch before.
-/
import Mathlib.Data.List.Range
import Tasty.Journal.Runs

namespace Tasty.Journal

open List

variable {last : Nat} {e : StoredEvent} {holder : String}
  {as : List StreamAppend}

-- ==== the log

/-- The tables of the events. -/
structure Log where
  streamHeads : List HeadRow
  batches : List BatchRow
  batchRevisions : List BatchRevisionRow
  events : List StoredEvent
  lastBatch : BatchId

def Database.log (db : Database) : Log :=
  ⟨db.streamHeads, db.batches, db.batchRevisions, db.events, db.lastBatch⟩

/-- The ranges follow one another, from the first number to the last one. -/
def Tiles : Nat → List (Nat × Nat) → Nat → Prop
  | first, [], last => last + 1 = first
  | first, (a, b) :: rest, last =>
    a = first ∧ a ≤ b ∧ Tiles (b + 1) rest last

theorem Tiles.append {ranges : List (Nat × Nat)} {first b : Nat}
    (h : Tiles first ranges last) (hb : last < b) :
    Tiles first (ranges ++ [(last + 1, b)]) b := by
  induction ranges generalizing first with
  | nil => exact ⟨h, hb, rfl⟩
  | cons range rest ih =>
    obtain ⟨hfirst, hle, hrest⟩ := h
    exact ⟨hfirst, hle, ih hrest⟩

variable {index : Nat}

namespace Log

/-- The last revision of a stream, zero when it has no event. -/
def head (l : Log) (stream : StreamId) : Revision :=
  ((Table.find HeadRow.streamId stream l.streamHeads).map
    HeadRow.revision).getD 0

def ofStream (l : Log) (stream : StreamId) : List StoredEvent :=
  l.events.filter fun e => e.streamId = stream

def ofBatch (l : Log) (batchId : BatchId) : List StoredEvent :=
  l.events.filter fun e => e.batchId = batchId

/-- The ranges of revisions of a stream, batch by batch. -/
def rangesOf (l : Log) (stream : StreamId) : List (Nat × Nat) :=
  (l.batchRevisions.filter fun r => r.streamId = stream).map fun r =>
    (r.firstRevision, r.lastRevision)

/-- In the order of the batches, and of the events in a batch. -/
def Before (e e' : StoredEvent) : Prop :=
  e.batchId < e'.batchId
    ∨ e.batchId = e'.batchId ∧ e.batchIndex < e'.batchIndex

structure Intact (l : Log) : Prop where
  /-- The table is in the order of the batches. -/
  order : l.events.Pairwise Before
  revisions : ∀ stream, (l.ofStream stream).map StoredEvent.streamRevision
    = List.range' 1 (l.head stream)
  indexes : ∀ batchId, (l.ofBatch batchId).map StoredEvent.batchIndex
    = List.range' 0 (l.ofBatch batchId).length
  ranges : ∀ stream, Tiles 1 (l.rangesOf stream) (l.head stream)
  /-- Each range is that of the events of its batch. -/
  made : ∀ r ∈ l.batchRevisions,
    ((l.ofStream r.streamId).filter fun e => e.batchId = r.batchId).map
        StoredEvent.streamRevision
      = List.range' r.firstRevision (r.lastRevision + 1 - r.firstRevision)
  recorded : ∀ e ∈ l.events, ∃ r ∈ l.batchRevisions,
    r.batchId = e.batchId ∧ r.streamId = e.streamId
  batched : ∀ r ∈ l.batchRevisions, ∃ b ∈ l.batches,
    b.batchId = r.batchId
  numbers : l.batches.Pairwise fun b b' => b.batchId < b'.batchId
  bounded : ∀ b ∈ l.batches, b.batchId ≤ l.lastBatch

theorem empty_intact : Database.empty.log.Intact where
  order := .nil
  revisions := fun _ => rfl
  indexes := fun _ => rfl
  ranges := fun _ => rfl
  made := fun _ hr => nomatch hr
  recorded := fun _ he => nomatch he
  batched := fun _ hr => nomatch hr
  numbers := .nil
  bounded := fun _ hb => nomatch hb

-- ==== what is appended

/-- Events of one stream and one batch, numbered from a revision and an
index on. -/
structure Block (stream : StreamId) (batchId : BatchId) (revision index : Nat)
    (rows : List StoredEvent) : Prop where
  stream : ∀ e ∈ rows, e.streamId = stream
  batch : ∀ e ∈ rows, e.batchId = batchId
  revisions : rows.map StoredEvent.streamRevision
    = List.range' revision rows.length
  indexes : rows.map StoredEvent.batchIndex = List.range' index rows.length

theorem Block.nil (stream : StreamId) (batchId : BatchId)
    (revision index : Nat) : Block stream batchId revision index [] :=
  ⟨fun _ he => (nomatch he), fun _ he => (nomatch he), rfl, rfl⟩

theorem Block.cons {stream : StreamId} {batchId : BatchId}
    {revision : Nat} {rows : List StoredEvent}
    (h : Block stream batchId (revision + 1) (index + 1) rows) (e : NewEvent)
    (commandId : Option String) :
    Block stream batchId revision index
      (e.row stream batchId commandId revision index :: rows) := by
  refine ⟨?_, ?_, ?_, ?_⟩
  · intro e' he'
    rcases mem_cons.1 he' with rfl | he'
    · rfl
    · exact h.stream e' he'
  · intro e' he'
    rcases mem_cons.1 he' with rfl | he'
    · rfl
    · exact h.batch e' he'
  · rw [map_cons, h.revisions]
    rfl
  · rw [map_cons, h.indexes]
    rfl

/-- The log with a block of the last batch. -/
def push (l : Log) (stream : StreamId) (rows : List StoredEvent) : Log :=
  let last := l.head stream + rows.length
  { l with
    events := l.events ++ rows
    batchRevisions := l.batchRevisions
      ++ [⟨l.lastBatch, stream, l.head stream + 1, last⟩]
    streamHeads :=
      Table.upsert HeadRow.streamId ⟨stream, last⟩ l.streamHeads }

section Push

variable {l : Log} {stream : StreamId} {index : Nat}
  {rows : List StoredEvent}

theorem head_push (s : StreamId) :
    (l.push stream rows).head s
      = if stream = s then l.head stream + rows.length else l.head s := by
  unfold push head
  rw [Table.find_upsert]
  by_cases hs : stream = s <;> simp [hs]

theorem ofStream_push (hstream : ∀ e ∈ rows, e.streamId = stream)
    (s : StreamId) :
    (l.push stream rows).ofStream s
      = l.ofStream s ++ if stream = s then rows else [] := by
  unfold ofStream push
  rw [filter_append]
  congr 1
  by_cases hs : stream = s
  · rw [if_pos hs]
    exact filter_eq_self.2 fun e he =>
      decide_eq_true ((hstream e he).trans hs)
  · rw [if_neg hs]
    exact filter_eq_nil_iff.2 fun e he h =>
      hs ((hstream e he).symm.trans (of_decide_eq_true h))

theorem ofBatch_push (hbatch : ∀ e ∈ rows, e.batchId = l.lastBatch)
    (b : BatchId) :
    (l.push stream rows).ofBatch b
      = l.ofBatch b ++ if l.lastBatch = b then rows else [] := by
  unfold ofBatch push
  rw [filter_append]
  congr 1
  by_cases hb : l.lastBatch = b
  · rw [if_pos hb]
    exact filter_eq_self.2 fun e he =>
      decide_eq_true ((hbatch e he).trans hb)
  · rw [if_neg hb]
    exact filter_eq_nil_iff.2 fun e he h =>
      hb ((hbatch e he).symm.trans (of_decide_eq_true h))

theorem rangesOf_push (s : StreamId) :
    (l.push stream rows).rangesOf s
      = l.rangesOf s ++ if stream = s then
          [(l.head stream + 1, l.head stream + rows.length)] else [] := by
  unfold rangesOf push
  rw [filter_append, map_append]
  congr 1
  by_cases hs : stream = s <;> simp [hs]

/-- Where the events of a batch are, none is later than its count. -/
theorem Intact.index_lt (h : l.Intact) (he : e ∈ l.events) :
    e.batchIndex < (l.ofBatch e.batchId).length := by
  have hmem : e ∈ l.ofBatch e.batchId :=
    mem_filter.2 ⟨he, decide_eq_true rfl⟩
  have hindex := mem_map_of_mem (f := StoredEvent.batchIndex) hmem
  rw [h.indexes, mem_range'_1] at hindex
  omega

theorem Intact.batch_le (h : l.Intact)
    (he : e ∈ l.events) : e.batchId ≤ l.lastBatch := by
  obtain ⟨r, hr, hbatch, -⟩ := h.recorded e he
  obtain ⟨b, hb, hid⟩ := h.batched r hr
  rw [← hbatch, ← hid]
  exact h.bounded b hb

theorem Block.order {batchId : BatchId} {revision : Nat}
    (h : Block stream batchId revision index rows) : rows.Pairwise Before := by
  have hsorted : (rows.map StoredEvent.batchIndex).Pairwise (· < ·) := by
    rw [h.indexes]
    exact pairwise_lt_range'
  refine (pairwise_map.1 hsorted).imp_of_mem ?_
  intro e e' he he' hlt
  exact .inr ⟨(h.batch e he).trans (h.batch e' he').symm, hlt⟩

theorem Intact.push (h : l.Intact)
    (hrows : Block stream l.lastBatch (l.head stream + 1)
      (l.ofBatch l.lastBatch).length rows)
    (hne : rows ≠ []) (hlast : ∃ b ∈ l.batches, b.batchId = l.lastBatch)
    (hfresh : ∀ r ∈ l.batchRevisions,
      ¬ (r.batchId = l.lastBatch ∧ r.streamId = stream)) :
    (l.push stream rows).Intact := by
  have hpos : 0 < rows.length := length_pos_of_ne_nil hne
  refine ⟨?_, ?_, ?_, ?_, ?_, ?_, ?_, h.numbers, h.bounded⟩
  · refine pairwise_append.2 ⟨h.order, hrows.order, ?_⟩
    intro e he e' he'
    rcases Nat.lt_or_eq_of_le (h.batch_le he) with hlt | heq
    · exact .inl (by rw [hrows.batch e' he']; exact hlt)
    · refine .inr ⟨heq.trans (hrows.batch e' he').symm, ?_⟩
      have hindex := h.index_lt he
      have hmem := mem_map_of_mem (f := StoredEvent.batchIndex) he'
      rw [hrows.indexes, mem_range'_1] at hmem
      rw [heq] at hindex
      omega
  · intro s
    rw [ofStream_push hrows.stream, head_push, map_append, h.revisions]
    by_cases hs : stream = s
    · rw [if_pos hs, if_pos hs, hrows.revisions, ← hs, Nat.add_comm _ 1,
        List.range'_append_1]
    · rw [if_neg hs, if_neg hs]
      exact append_nil _
  · intro b
    rw [ofBatch_push hrows.batch, map_append, h.indexes]
    by_cases hb : l.lastBatch = b
    · rw [if_pos hb, hrows.indexes, ← hb, length_append]
      have happend := @List.range'_append_1 0 (l.ofBatch l.lastBatch).length
        rows.length
      rw [Nat.zero_add] at happend
      exact happend
    · rw [if_neg hb, append_nil]
      exact append_nil _
  · intro s
    rw [rangesOf_push, head_push]
    by_cases hs : stream = s
    · rw [if_pos hs, if_pos hs, ← hs]
      exact (h.ranges stream).append (by omega)
    · rw [if_neg hs, if_neg hs, append_nil]
      exact h.ranges s
  · intro r hr
    rcases mem_append.1 hr with hr | hr
    · -- an older range has no event of the block
      rw [ofStream_push hrows.stream, filter_append, map_append, h.made r hr]
      have hnone : (if stream = r.streamId then rows else []).filter
          (fun e => e.batchId = r.batchId) = [] := by
        by_cases hs : stream = r.streamId
        · rw [if_pos hs]
          exact filter_eq_nil_iff.2 fun e he hb =>
            hfresh r hr ⟨(of_decide_eq_true hb).symm.trans
              (hrows.batch e he), hs.symm⟩
        · rw [if_neg hs]
          rfl
      rw [hnone]
      exact append_nil _
    · -- the range of the block has no older event
      rw [mem_singleton.1 hr]
      dsimp only
      rw [ofStream_push hrows.stream, if_pos rfl, filter_append]
      have hold : (l.ofStream stream).filter
          (fun e => e.batchId = l.lastBatch) = [] := by
        refine filter_eq_nil_iff.2 fun e he hb => ?_
        obtain ⟨he, hs⟩ := mem_filter.1 he
        obtain ⟨r', hr', hbatch, hstream⟩ := h.recorded e he
        exact hfresh r' hr' ⟨hbatch.trans (of_decide_eq_true hb),
          hstream.trans (of_decide_eq_true hs)⟩
      have hnew : rows.filter (fun e => e.batchId = l.lastBatch) = rows :=
        filter_eq_self.2 fun e he => decide_eq_true (hrows.batch e he)
      rw [hold, hnew, nil_append, hrows.revisions]
      congr 1
      omega
  · intro e he
    rcases mem_append.1 he with he | he
    · obtain ⟨r, hr, hr'⟩ := h.recorded e he
      exact ⟨r, mem_append_left _ hr, hr'⟩
    · exact ⟨_, mem_append_right _ (mem_singleton_self _),
        (hrows.batch e he).symm, (hrows.stream e he).symm⟩
  · intro r hr
    rcases mem_append.1 hr with hr | hr
    · exact h.batched r hr
    · rw [mem_singleton.1 hr]
      exact hlast

end Push

end Log

-- ==== the pins

/-- Pins are only added, for payloads that exist, by holders that `P` holds
of. -/
def Pinned (db : Database) (P : String → Prop) (pins : List PinRow) : Prop :=
  (∀ p ∈ db.pins, p ∈ pins) ∧ ∀ p ∈ pins, p ∈ db.pins
    ∨ P p.holder ∧ ∃ row ∈ db.payloads, row.payloadId = p.payloadId

section Pins

variable {db db' : Database} {P : String → Prop}

theorem Pinned.refl (db : Database) : Pinned db P db.pins :=
  ⟨fun _ hp => hp, fun _ hp => .inl hp⟩

theorem Pinned.trans {pins : List PinRow} (h : Pinned db P pins)
    {pins' : List PinRow} (h' : Pinned { db with pins := pins } P pins') :
    Pinned db P pins' := by
  refine ⟨fun p hp => h'.1 p (h.1 p hp), fun p hp => ?_⟩
  rcases h'.2 p hp with hp | hp
  · exact h.2 p hp
  · exact .inr hp

variable {payload : PayloadRef}

theorem pin_ok (h : db.pin payload holder = .ok db') :
    db' = { db with
        pins := Table.insertOrIgnore ⟨payload, holder⟩ db.pins }
      ∧ ∃ row ∈ db.payloads, row.payloadId = payload := by
  obtain ⟨id, hid, h⟩ := bind_ok h
  unfold toI64 at hid
  obtain ⟨-, hid⟩ := guard_not_ok hid
  cases hid
  obtain ⟨hsome, h⟩ := guard_not_ok h
  cases h
  obtain ⟨row, hrow⟩ := Option.isSome_iff_exists.1 hsome
  exact ⟨rfl, row, Table.find_mem hrow, Table.find_key hrow⟩

theorem mem_insertOrIgnore {ρ : Type} [DecidableEq ρ] {r r' : ρ}
    {t : List ρ} : r' ∈ Table.insertOrIgnore r t ↔ r' ∈ t ∨ r' = r := by
  unfold Table.insertOrIgnore
  split
  · rename_i hr
    constructor
    · exact .inl
    · intro h
      rcases h with h | rfl
      · exact h
      · exact hr
  · rw [mem_append, mem_singleton]

theorem pinned_pin (hP : P holder) (h : db.pin payload holder = .ok db') :
    db' = { db with pins := db'.pins } ∧ Pinned db P db'.pins := by
  obtain ⟨rfl, hrow⟩ := pin_ok h
  refine ⟨rfl, fun p hp => mem_insertOrIgnore.2 (.inl hp), fun p hp => ?_⟩
  rcases mem_insertOrIgnore.1 hp with hp | rfl
  · exact .inl hp
  · exact .inr ⟨hP, hrow⟩

theorem pinned_pinAll (hP : P holder) {payloads : List PayloadRef}
    (h : db.pinAll holder payloads = .ok db') :
    db' = { db with pins := db'.pins } ∧ Pinned db P db'.pins := by
  induction payloads generalizing db with
  | nil =>
    cases h
    exact ⟨rfl, .refl _⟩
  | cons payload rest ih =>
    obtain ⟨db₁, hpin, h⟩ := bind_ok h
    obtain ⟨heq, hpins⟩ := pinned_pin hP hpin
    obtain ⟨heq', hpins'⟩ := ih h
    rw [heq] at heq' hpins'
    exact ⟨heq', hpins.trans hpins'⟩

end Pins

-- ==== the requests

section Appends

variable {db db' : Database} {stream : StreamId} {batchId : BatchId}
  {commandId : Option String}

/-- The holders of the payloads of events. -/
def IsEventHolder (holder : String) : Prop :=
  ∃ eventId, holder = eventHolder eventId

theorem insertEvent_ok (h : db.insertEvent e = .ok db') :
    db' = { db with events := db.events ++ [e] }
      ∧ Table.clashes StoredEvent.eventId e db.events = false
      ∧ e.eventId ∉ db.retainedEventIds := by
  have h := then_ok (then_ok (then_ok h))
  obtain ⟨_, hunique, h⟩ := bind_ok h
  cases h
  obtain ⟨hunique, -⟩ := guard_not_ok hunique
  simp only [Bool.and_eq_true, Bool.not_eq_true', decide_eq_true_eq]
    at hunique
  exact ⟨rfl, hunique.1.1.2, hunique.2⟩

theorem appendEvents_ok {es : List NewEvent} {revision : Nat}
    (h : db.appendEvents stream batchId commandId es revision index = .ok db') :
    ∃ rows, Log.Block stream batchId revision index rows
      ∧ rows.length = es.length
      ∧ Pinned db IsEventHolder db'.pins
      ∧ db' = { db with
          events := db.events ++ rows, pins := db'.pins } := by
  induction es generalizing db revision index with
  | nil =>
    cases h
    exact ⟨[], .nil _ _ _ _, rfl, .refl _, by rw [append_nil]⟩
  | cons e es ih =>
    obtain ⟨db₁, hinsert, h⟩ := bind_ok h
    obtain ⟨db₂, hpins, h⟩ := bind_ok h
    obtain ⟨heq, -, -⟩ := insertEvent_ok hinsert
    obtain ⟨heq', hpinned⟩ := pinned_pinAll (P := IsEventHolder)
      ⟨e.eventId, rfl⟩ hpins
    obtain ⟨rows, hblock, hlen, hpinned', heq''⟩ := ih h
    refine ⟨_, hblock.cons e commandId, by rw [length_cons, hlen]; rfl,
      ?_, ?_⟩
    · rw [heq'] at hpinned'
      rw [heq] at hpinned hpinned'
      exact hpinned.trans hpinned'
    · rw [heq', heq] at heq''
      rw [heq'']
      simp

theorem recordHead_ok {first last : Revision}
    (h : db.recordHead stream batchId first last = .ok db') :
    db' = { db with
        batchRevisions :=
          db.batchRevisions ++ [⟨batchId, stream, first, last⟩]
        streamHeads :=
          Table.upsert HeadRow.streamId ⟨stream, last⟩ db.streamHeads }
      ∧ ∀ r ∈ db.batchRevisions,
        ¬ (r.batchId = batchId ∧ r.streamId = stream) := by
  have h := then_ok (then_ok h)
  obtain ⟨_, hunique, h⟩ := bind_ok h
  cases h
  obtain ⟨hunique, -⟩ := guard_not_ok hunique
  rw [Bool.not_eq_true'] at hunique
  refine ⟨rfl, fun r hr hkey => ?_⟩
  exact Table.clashes_eq_false.1 hunique r hr (Prod.ext hkey.1 hkey.2)

theorem appendStream_ok {a : StreamAppend}
    (h : db.appendStream a batchId commandId index = .ok (db', last)) :
    ∃ rows, Log.Block a.streamId batchId (db.log.head a.streamId + 1) index
        rows
      ∧ rows.length = a.events.length
      ∧ Pinned db IsEventHolder db'.pins
      ∧ last = db.log.head a.streamId + a.events.length
      ∧ (∀ r ∈ db.batchRevisions,
        ¬ (r.batchId = batchId ∧ r.streamId = a.streamId))
      ∧ db' = { db with
          events := db.events ++ rows
          pins := db'.pins
          batchRevisions := db.batchRevisions
            ++ [⟨batchId, a.streamId, db.log.head a.streamId + 1, last⟩]
          streamHeads := Table.upsert HeadRow.streamId ⟨a.streamId, last⟩
            db.streamHeads } := by
  obtain ⟨db₁, hevents, h⟩ := bind_ok h
  obtain ⟨db₂, hhead, h⟩ := bind_ok h
  cases h
  obtain ⟨rows, hblock, hlen, hpinned, heq⟩ := appendEvents_ok hevents
  obtain ⟨heq', hfresh⟩ := recordHead_ok hhead
  rw [heq] at hfresh heq'
  refine ⟨rows, hblock, hlen, ?_, rfl, hfresh, ?_⟩
  · rw [heq']
    exact hpinned
  · rw [heq']
    rfl

/-- What the loop over the streams writes. -/
theorem appendStreams_ok {revisions revisions' : BTreeMap StreamId Revision}
    (h : db.appendStreams batchId commandId as index revisions
      = .ok (db', revisions')) :
    (∃ rows, db'.events = db.events ++ rows ∧ ∀ e ∈ rows, e.batchId = batchId)
      ∧ Pinned db IsEventHolder db'.pins
      ∧ db' = { db with
          events := db'.events
          pins := db'.pins
          batchRevisions := db'.batchRevisions
          streamHeads := db'.streamHeads } := by
  induction as generalizing db index revisions with
  | nil =>
    cases h
    exact ⟨⟨[], (append_nil _).symm, fun _ he => (nomatch he)⟩, .refl _, rfl⟩
  | cons a as ih =>
    obtain ⟨⟨db₁, last⟩, happend, h⟩ := bind_ok h
    obtain ⟨rows, hblock, -, hpinned, -, -, heq⟩ := appendStream_ok happend
    obtain ⟨⟨rows', hrows', hbatch'⟩, hpinned', heq'⟩ := ih h
    rw [heq] at hrows' hpinned' heq'
    refine ⟨⟨rows ++ rows', ?_, ?_⟩, hpinned.trans hpinned', heq'⟩
    · rw [hrows', append_assoc]
    · intro e he
      rcases mem_append.1 he with he | he
      · exact hblock.batch e he
      · exact hbatch' e he

theorem checkStreams_ok {seen : List StreamId}
    (h : db.checkStreams seen as = .ok ()) : ∀ a ∈ as, a.events ≠ [] := by
  induction as generalizing seen with
  | nil => exact fun _ ha => (nomatch ha)
  | cons a as ih =>
    unfold Database.checkStreams at h
    obtain ⟨hempty, h⟩ := guard_ok h
    obtain ⟨-, h⟩ := guard_ok h
    obtain ⟨-, h⟩ := guard_not_ok h
    intro a' ha'
    rcases mem_cons.1 ha' with rfl | ha'
    · exact fun hnil => hempty (List.isEmpty_iff.2 hnil)
    · exact ih h a' ha'

theorem Log.Intact.appendStreams (hlog : db.log.Intact)
    (hlast : ∃ b ∈ db.batches, b.batchId = db.lastBatch)
    {as : List StreamAppend} (has : ∀ a ∈ as, a.events ≠ [])
    (hindex : index = (db.log.ofBatch db.lastBatch).length)
    {revisions revisions' : BTreeMap StreamId Revision}
    (h : db.appendStreams db.lastBatch commandId as index revisions
      = .ok (db', revisions')) : db'.log.Intact := by
  induction as generalizing db index revisions with
  | nil =>
    cases h
    exact hlog
  | cons a as ih =>
    obtain ⟨⟨db₁, last⟩, happend, h⟩ := bind_ok h
    obtain ⟨rows, hblock, hlen, -, rfl, hfresh, heq⟩ :=
      appendStream_ok happend
    have hne : rows ≠ [] := by
      rw [← length_pos_iff, hlen]
      exact length_pos_of_ne_nil (has a mem_cons_self)
    rw [hindex] at hblock
    have hpushed := hlog.push hblock hne hlast hfresh
    have hlog₁ : db₁.log = db.log.push a.streamId rows := by
      rw [heq]
      unfold Log.push
      rw [hlen]
      rfl
    have hlast₁ : db₁.lastBatch = db.lastBatch := by rw [heq]
    have hbatches₁ : db₁.batches = db.batches := by rw [heq]
    have hbatch₁ : (db₁.log.ofBatch db₁.lastBatch).length
        = index + a.events.length := by
      have hid : db.log.lastBatch = db.lastBatch := rfl
      rw [hlast₁, hlog₁, Log.ofBatch_push hblock.batch, if_pos hid,
        length_append, hlen, hindex]
    have hrest : db₁.appendStreams db₁.lastBatch commandId as
        (index + a.events.length)
        (revisions.insert a.streamId (db.log.head a.streamId + a.events.length))
        = .ok (db', revisions') := by
      rw [hlast₁]
      exact h
    refine ih (hlog₁ ▸ hpushed) ?_
      (fun a' ha' => has a' (mem_cons_of_mem _ ha')) hbatch₁.symm hrest
    rw [hlast₁, hbatches₁]
    exact hlast

theorem nextRowid_ok {next : Nat} (h : nextRowid last = .ok next) :
    next = last + 1 := by
  obtain ⟨-, h⟩ := guard_not_ok h
  cases h
  rfl

theorem appendBatch_ok {epoch : WriterEpoch} {cut : BatchCut}
    (h : db.appendBatch as epoch commandId = .ok (db', cut)) :
    cut.batchId = db.lastBatch + 1
      ∧ (∃ rows, db'.events = db.events ++ rows
        ∧ ∀ e ∈ rows, e.batchId = db.lastBatch + 1)
      ∧ Pinned db IsEventHolder db'.pins
      ∧ db' = { db with
          batches := db.batches ++ [⟨db.lastBatch + 1, commandId, epoch⟩]
          lastBatch := db.lastBatch + 1
          events := db'.events
          pins := db'.pins
          batchRevisions := db'.batchRevisions
          streamHeads := db'.streamHeads } := by
  have h := then_ok h
  obtain ⟨epoch', hepoch, h⟩ := bind_ok h
  obtain ⟨-, hepoch⟩ := guard_not_ok hepoch
  cases hepoch
  obtain ⟨batchId, hbatch, h⟩ := bind_ok h
  cases nextRowid_ok hbatch
  obtain ⟨⟨db₁, revisions⟩, hstreams, h⟩ := bind_ok h
  cases h
  obtain ⟨hrows, hpinned, heq⟩ := appendStreams_ok hstreams
  exact ⟨rfl, hrows, hpinned, heq⟩

theorem Log.Intact.newBatch {l : Log} (h : l.Intact) (row : BatchRow)
    (hrow : row.batchId = l.lastBatch + 1) :
    { l with
      batches := l.batches ++ [row]
      lastBatch := l.lastBatch + 1 : Log }.Intact where
  order := h.order
  revisions := h.revisions
  indexes := h.indexes
  ranges := h.ranges
  made := h.made
  recorded := h.recorded
  batched := fun r hr => by
    obtain ⟨b, hb, hid⟩ := h.batched r hr
    exact ⟨b, mem_append_left _ hb, hid⟩
  numbers := by
    refine pairwise_append.2 ⟨h.numbers, pairwise_singleton _ _, ?_⟩
    intro b hb b' hb'
    rw [mem_singleton.1 hb', hrow]
    exact Nat.lt_succ_of_le (h.bounded b hb)
  bounded := fun b hb => by
    rcases mem_append.1 hb with hb | hb
    · exact Nat.le_succ_of_le (h.bounded b hb)
    · rw [mem_singleton.1 hb, hrow]

theorem Log.Intact.appendBatch (hlog : db.log.Intact)
    {epoch : WriterEpoch} {cut : BatchCut}
    (h : db.appendBatch as epoch commandId = .ok (db', cut)) :
    db'.log.Intact := by
  obtain ⟨⟨⟩, hchecked, h⟩ := bind_ok h
  obtain ⟨epoch', -, h⟩ := bind_ok h
  obtain ⟨batchId, hbatch, h⟩ := bind_ok h
  cases nextRowid_ok hbatch
  obtain ⟨⟨db₁, revisions⟩, hstreams, h⟩ := bind_ok h
  cases h
  let row : BatchRow := ⟨db.lastBatch + 1, commandId, epoch'⟩
  let db₀ : Database := { db with
    batches := db.batches ++ [row], lastBatch := db.lastBatch + 1 }
  have hnew : db₀.log.Intact := hlog.newBatch row rfl
  have hnone : db₀.log.ofBatch db₀.lastBatch = [] := by
    refine filter_eq_nil_iff.2 fun e he hb => ?_
    have hle : e.batchId ≤ db.lastBatch := hlog.batch_le he
    have heq : e.batchId = db.lastBatch + 1 := of_decide_eq_true hb
    exact Nat.not_succ_le_self _ (heq ▸ hle)
  refine hnew.appendStreams
    ⟨row, mem_append_right _ (mem_singleton_self row), rfl⟩
    (checkStreams_ok hchecked) ?_ hstreams
  rw [hnone]
  rfl

end Appends

end Tasty.Journal
