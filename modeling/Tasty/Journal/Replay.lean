/-
Compaction preserves replay. What is read is the last snapshot that is not
behind the floor, and the batches after it; the snapshot stands for those
before. The history that was ever committed is recorded beside the tables,
and agrees with them after the floor.
-/
import Tasty.Journal.Execution
import Tasty.Journal.Maintenance

namespace Tasty.Journal

open List

variable [Sha256]

-- ==== the history

/-- The batches that are in the tables are those that were committed, and
after the floor they still have their events. -/
def Told (db : Database) (history : List StoredBatch) : Prop :=
  List.Forall₂ (fun h b => h.cut.batchId = b.batchId
    ∧ (db.floor.getD 0 < b.batchId → h = db.stored b)) history db.batches

/-- The batches up to one of them, and those after it. -/
def upTo (history : List StoredBatch) (batch : BatchId) : List StoredBatch :=
  history.filter fun h => h.cut.batchId ≤ batch

def after (history : List StoredBatch) (batch : BatchId) : List StoredBatch :=
  history.filter fun h => batch < h.cut.batchId

section History

variable {db db' : Database} {history : List StoredBatch} {c : Changes}

omit [Sha256] in
theorem Later.stored_eq (h : Later c db db') {b : BatchRow}
    (hb : b.batchId ≤ db.lastBatch) (hfloor : db'.floor.getD 0 < b.batchId) :
    db'.stored b = db.stored b := by
  obtain ⟨rows, hrows, hlt⟩ := h.revisions
  have hnone : rows.filter (fun r => r.batchId = b.batchId) = [] := by
    refine filter_eq_nil_iff.2 fun r hr heq => ?_
    have hnew := hlt r hr
    rw [of_decide_eq_true heq] at hnew
    exact absurd hnew (Nat.not_lt.2 hb)
  unfold Database.stored
  rw [hrows, filter_append, hnone, append_nil, h.events b.batchId hb hfloor]

/-- What is committed is recorded. -/
theorem Told.later (htold : Told db history) (h : Later c db db')
    (hdb : db.Sound) :
    Told db' (history
      ++ (db'.batches.drop db.batches.length).map db'.stored) := by
  obtain ⟨rows, hrows, -⟩ := h.batches
  unfold Told
  rw [hrows, drop_left]
  refine rel_append ?_ ?_
  · refine forall₂_imp_right htold fun x b hb hx => ⟨hx.1, fun hfloor => ?_⟩
    rw [hx.2 (Nat.lt_of_le_of_lt h.floor hfloor)]
    exact (h.stored_eq (hdb.batches.bounds b hb).2 hfloor).symm
  · refine forall₂_map_left_iff.2 (forall₂_same.2 ?_)
    exact fun b _ => ⟨rfl, fun _ => rfl⟩

omit [Sha256] in
theorem Told.numbers (htold : Told db history) :
    history.map (fun h => h.cut.batchId) = db.batches.map BatchRow.batchId := by
  have hmap := forall₂_map_left_iff.2 (forall₂_map_right_iff.2
    (htold.imp fun x b hx => hx.1))
  rwa [forall₂_eq_eq_eq] at hmap

theorem Told.pairwise (htold : Told db history) (hdb : db.Sound) :
    history.Pairwise fun a b => a.cut.batchId < b.cut.batchId := by
  have hmap : (db.batches.map BatchRow.batchId).Pairwise (· < ·) :=
    pairwise_map.2 hdb.batches.order
  rw [← htold.numbers] at hmap
  exact pairwise_map.1 hmap

omit [Sha256] in
theorem upTo_append_after
    (h : history.Pairwise fun a b => a.cut.batchId < b.cut.batchId)
    (batch : BatchId) : upTo history batch ++ after history batch = history := by
  induction history with
  | nil => rfl
  | cons x rest ih =>
    obtain ⟨hx, hrest⟩ := pairwise_cons.1 h
    unfold upTo after at ih ⊢
    rw [filter_cons, filter_cons]
    by_cases hle : x.cut.batchId ≤ batch
    · rw [if_pos (decide_eq_true hle), if_neg (by simpa using hle),
        cons_append, ih hrest]
    · -- all that follow are after the batch as well
      have hlt : batch < x.cut.batchId := Nat.not_le.1 hle
      have hnone : rest.filter (fun h => h.cut.batchId ≤ batch) = [] := by
        refine filter_eq_nil_iff.2 fun y hy hyle => ?_
        have hy' := Nat.lt_of_lt_of_le (hx y hy) (of_decide_eq_true hyle)
        exact Nat.lt_asymm hlt hy'
      have hall : rest.filter (fun h => batch < h.cut.batchId) = rest := by
        refine filter_eq_self.2 fun y hy => decide_eq_true ?_
        exact Nat.lt_trans hlt (hx y hy)
      rw [if_neg (by simpa using hlt), if_pos (decide_eq_true hlt), hnone,
        hall, nil_append]

omit [Sha256] in
theorem upTo_later (h : Later c db db')
    {batch : BatchId} (hbatch : batch ≤ db.lastBatch) :
    upTo (history ++ (db'.batches.drop db.batches.length).map db'.stored) batch
      = upTo history batch := by
  obtain ⟨rows, hrows, hlt⟩ := h.batches
  have hnone : (rows.map db'.stored).filter (fun h => h.cut.batchId ≤ batch)
      = [] := by
    refine filter_eq_nil_iff.2 fun x hx hle => ?_
    obtain ⟨b, hb, rfl⟩ := mem_map.1 hx
    have hb' : b.batchId ≤ batch := of_decide_eq_true hle
    exact absurd (hlt b hb) (Nat.not_lt.2 (hb'.trans hbatch))
  unfold upTo
  rw [filter_append, hrows, drop_left, hnone, append_nil]

end History

-- ==== what is read

section Reading

variable {db : Database} {history : List StoredBatch}

theorem loadBatch_mem (h : db.Sound) {b : BatchRow} (hb : b ∈ db.batches)
    (hfloor : db.floor.getD 0 < b.batchId) :
    db.loadBatch b.batchId = .ok (db.stored b) := by
  have hrange : b.batchId < 2 ^ 63 :=
    Nat.lt_of_le_of_lt (h.batches.bounds b hb).2 h.batchRange
  have hnot : db.floor.any (b.batchId ≤ ·) = false := by
    cases hf : db.floor with
    | none => rfl
    | some floor =>
      rw [hf] at hfloor
      exact decide_eq_false (Nat.not_le.2 hfloor)
  have hfind : Table.find BatchRow.batchId b.batchId db.batches = some b :=
    h.batches.unique.find_eq_some.2 ⟨hb, rfl⟩
  unfold Database.loadBatch reject
  rw [hnot, if_neg Bool.false_ne_true, ok_bind, toI64_of_lt hrange, ok_bind,
    hfind]

theorem batchesAfter_eq (h : db.Sound) (htold : Told db history)
    {cursor : Option BatchId} (hcursor : db.requireCursor cursor = .ok ())
    (hrange : cursor.getD 0 < 2 ^ 63)
    (hfloor : db.floor.getD 0 ≤ cursor.getD 0) :
    db.batchesAfter cursor = .ok (after history (cursor.getD 0)) := by
  have hsorted : ((db.batches.filter fun b => cursor.getD 0 < b.batchId)
      |>.insertionSort fun b b' => b.batchId ≤ b'.batchId)
      = db.batches.filter fun b => cursor.getD 0 < b.batchId := by
    refine List.Pairwise.insertionSort_eq (List.Pairwise.filter _ ?_)
    exact h.batches.order.imp Nat.le_of_lt
  have hload : ∀ b ∈ db.batches.filter (fun b => cursor.getD 0 < b.batchId),
      db.loadBatch b.batchId = .ok (db.stored b) := by
    intro b hb
    obtain ⟨hb, hlt⟩ := mem_filter.1 hb
    exact loadBatch_mem h hb
      (Nat.lt_of_le_of_lt hfloor (of_decide_eq_true hlt))
  have hsame : after history (cursor.getD 0)
      = (db.batches.filter fun b => cursor.getD 0 < b.batchId).map
        db.stored := by
    rw [← forall₂_eq_eq_eq, forall₂_map_right_iff]
    have hfiltered := rel_filter
      (p := fun h : StoredBatch => cursor.getD 0 < h.cut.batchId)
      (q := fun b : BatchRow => cursor.getD 0 < b.batchId)
      (fun x b hx => by dsimp only; rw [hx.1]) htold
    refine forall₂_imp_right hfiltered fun x b hb hx => hx.2 ?_
    exact Nat.lt_of_le_of_lt hfloor
      (of_decide_eq_true (mem_filter.1 hb).2)
  unfold Database.batchesAfter
  rw [hcursor, ok_bind, toI64_of_lt hrange, ok_bind, hsorted,
    mapM_eq_map hload, hsame]

theorem latestLoop_eq (h : db.Sound) {snapshots : List SnapshotRow}
    (hmem : ∀ s ∈ snapshots, s ∈ db.snapshots)
    (hanchor : ∀ floor, db.floor = some floor →
      ∃ s ∈ snapshots, floor ≤ s.batchId)
    (rejected : List (SnapshotId × StoreError)) :
    (db.floor = none ∧ db.latestLoop snapshots rejected = .ok (none, rejected))
      ∨ ∃ s ∈ db.snapshots, ∃ body ∈ db.payloads,
        body.payloadId = s.payloadId
          ∧ (∀ floor, db.floor = some floor → floor ≤ s.batchId)
          ∧ db.latestLoop snapshots rejected
            = .ok (some ⟨s.snapshotId,
              ⟨some s.batchId, db.headsAt s.batchId⟩, s.modelVersion,
              body.bytes⟩, rejected) := by
  induction snapshots with
  | nil =>
    refine .inl ?_
    cases hf : db.floor with
    | none =>
      unfold Database.latestLoop
      rw [hf]
      exact ⟨rfl, rfl⟩
    | some floor =>
      obtain ⟨s, hs, -⟩ := hanchor floor hf
      cases hs
  | cons s rest ih =>
    have hs := hmem s mem_cons_self
    unfold Database.latestLoop
    split
    · -- it is behind the floor
      rename_i hbehind
      refine ih (fun s' hs' => hmem s' (mem_cons_of_mem _ hs'))
        fun floor hf => ?_
      obtain ⟨s', hs', hle⟩ := hanchor floor hf
      rcases mem_cons.1 hs' with rfl | hs'
      · rw [hf] at hbehind
        exact absurd hle (Nat.not_le.2 (of_decide_eq_true hbehind))
      · exact ⟨s', hs', hle⟩
    · rename_i hahead
      obtain ⟨body, hbody, hid, hverify⟩ := verifySnapshot_mem h hs
      refine .inr ⟨s, hs, body, hbody, hid, fun floor hf => ?_, ?_⟩
      · rw [hf] at hahead
        exact Nat.not_lt.1 fun hlt => hahead (decide_eq_true hlt)
      · rw [hverify]
        dsimp only
        rw [cutAt_mem h hs, ok_bind]

end Reading

-- ==== replaying

section Replaying

variable {M : Type} (apply : M → StoredBatch → M) (start : M)
  (decode : Bytes → M) (version : UInt32)

/-- The model of a sequence of batches. -/
def modelOf (batches : List StoredBatch) : M := batches.foldl apply start

/-- What a replay is folded to. -/
def Replay.model (r : Replay) : M :=
  r.tail.foldl apply (r.snapshot.elim start fun s => decode s.bytes)

/-- The snapshot that an act saves encodes the model of all batches up to
its own. -/
def Encodes (s : EventStore) (st : Store) (a : Act) : Prop :=
  ∀ n, a.snapshot s st.journal.db = some n → n.modelVersion = version
    ∧ decode n.bytes
      = modelOf apply start (upTo (st.act s a).history n.batchId)

/-- The snapshots that are there encode the batches up to theirs. -/
def Encoded (db : Database) (history : List StoredBatch) : Prop :=
  ∀ s ∈ db.snapshots, s.modelVersion = version
    ∧ ∀ p ∈ db.payloads, p.payloadId = s.payloadId →
      decode p.bytes = modelOf apply start (upTo history s.batchId)

structure Store.Faithful (st : Store) : Prop where
  sound : st.Sound
  told : Told st.journal.db st.history
  encoded : Encoded apply start decode version st.journal.db st.history

variable {apply start decode version}

theorem Store.Faithful.empty :
    Store.Faithful apply start decode version .empty where
  sound := .empty
  told := .nil
  encoded := fun _ hs => nomatch hs

theorem Store.Faithful.step {st st' : Store}
    (h : st.Faithful apply start decode version)
    (hstep : st.Step (Encodes apply start decode version) st') :
    st'.Faithful apply start decode version := by
  obtain ⟨s, a, hencodes, rfl⟩ := hstep
  obtain ⟨hsound, hlater⟩ := h.sound.act s a
  have htables := h.sound.tables
  have hhistory := st.act_history s a
  refine ⟨hsound, ?_, fun r hr => ?_⟩
  · rw [hhistory]
    exact h.told.later hlater htables
  · rcases hlater.snapshots r hr with hold | ⟨-, -, n, hn, hbatch, hv, hbody⟩
    · -- an older snapshot has the body that it had
      obtain ⟨hversion, hdecode⟩ := h.encoded r hold
      refine ⟨hversion, fun p hp hid => ?_⟩
      obtain ⟨row, hrow, hrowId⟩ := htables.pins _ (htables.bodies r hold)
      obtain ⟨b, hb, hbId⟩ := htables.cuts r hold
      have hle : r.batchId ≤ st.journal.db.lastBatch :=
        hbId ▸ (htables.batches.bounds b hb).2
      rw [hhistory, upTo_later hlater hle]
      rcases hlater.payloads p hp with hp | hnew
      · exact hdecode p hp hid
      · have hbound := (htables.payloads.bounds row hrow).2
        rw [hrowId] at hbound
        exact absurd hnew (Nat.not_lt.2 (hid ▸ hbound))
    · obtain ⟨hversion, hdecode⟩ := hencodes n hn
      refine ⟨hv.symm.trans hversion, fun p hp hid => ?_⟩
      rw [hbody p hp hid, hdecode, hbatch]

/-- Along a run the tables are sound and the snapshots encode the history. -/
theorem Store.Faithful.run {st st' : Store}
    (h : st.Faithful apply start decode version)
    (hrun : st.Run (Encodes apply start decode version) st') :
    st'.Faithful apply start decode version := by
  induction hrun with
  | refl => exact h
  | tail _ hstep ih => exact ih.step hstep

/-- What is read is a snapshot or the beginning, and the batches after it. -/
theorem Store.Faithful.replay {st : Store}
    (h : st.Faithful apply start decode version) :
    ∃ replay, st.journal.db.snapshotAndTail version = .ok replay
      ∧ replay.model apply start decode = modelOf apply start st.history := by
  have htables := h.sound.tables
  have hall : ∀ s ∈ (st.journal.db.snapshots.filter fun s =>
      s.modelVersion = version).insertionSort Database.newer,
      s ∈ st.journal.db.snapshots := fun s hs =>
    (mem_filter.1 ((mem_insertionSort _).1 hs)).1
  have hanchor : ∀ floor, st.journal.db.floor = some floor →
      ∃ s ∈ (st.journal.db.snapshots.filter fun s =>
        s.modelVersion = version).insertionSort Database.newer,
        floor ≤ s.batchId := by
    intro floor hf
    obtain ⟨anchor, hanchor, rfl⟩ := Option.map_eq_some_iff.1 hf
    obtain ⟨s, hs, -, hbatch⟩ := htables.anchor anchor hanchor
    refine ⟨s, (mem_insertionSort _).2 (mem_filter.2 ⟨hs, ?_⟩), hbatch.ge⟩
    exact decide_eq_true (h.encoded s hs).1
  have hpairwise := h.told.pairwise htables
  rcases latestLoop_eq htables hall hanchor [] with ⟨hfloor, hloop⟩ |
    ⟨s, hs, body, hbody, hid, hfloor, hloop⟩
  · -- all batches are read
    have hcursor : st.journal.db.requireCursor none = .ok () := by
      unfold Database.requireCursor
      rw [hfloor]
    have htail := batchesAfter_eq htables h.told hcursor (by decide)
      (by rw [hfloor])
    refine ⟨⟨none, [], after st.history 0⟩, ?_, ?_⟩
    · unfold Database.snapshotAndTail
      rw [hloop, ok_bind]
      dsimp only
      rw [Option.bind_none, htail, ok_bind]
      rfl
    · have hafter : after st.history 0 = st.history := by
        refine filter_eq_self.2 fun x hx => decide_eq_true ?_
        obtain ⟨b, hb, hxb⟩ := forall₂_left h.told hx
        rw [hxb.1]
        exact (htables.batches.bounds b hb).1
      show (after st.history 0).foldl apply start = _
      rw [hafter]
      rfl
  · -- the snapshot stands for the batches up to its own
    obtain ⟨b, hb, hbId⟩ := htables.cuts s hs
    have hrange : s.batchId < 2 ^ 63 := by
      rw [← hbId]
      exact Nat.lt_of_le_of_lt (htables.batches.bounds b hb).2
        htables.batchRange
    have hbehind : st.journal.db.floor.getD 0 ≤ s.batchId := by
      cases hf : st.journal.db.floor with
      | none => exact Nat.zero_le _
      | some floor => exact hfloor floor hf
    have htail := batchesAfter_eq htables h.told
      (requireCursor_of_le hfloor) hrange hbehind
    refine ⟨⟨some ⟨s.snapshotId,
      ⟨some s.batchId, st.journal.db.headsAt s.batchId⟩, s.modelVersion,
      body.bytes⟩, [], after st.history s.batchId⟩, ?_, ?_⟩
    · unfold Database.snapshotAndTail
      rw [hloop, ok_bind]
      dsimp only
      rw [Option.bind_some, htail, ok_bind]
      rfl
    · show (after st.history s.batchId).foldl apply (decode body.bytes) = _
      rw [(h.encoded s hs).2 body hbody hid, modelOf, modelOf,
        ← foldl_append, upTo_append_after hpairwise]

/-- A run of commits and of upkeep whose snapshots encode the batches up to
theirs can always be replayed, and leads to the model of all batches that
were ever committed. -/
theorem snapshot_and_tail_replays {st : Store}
    (hrun : Store.empty.Run (Encodes apply start decode version) st) :
    ∃ replay, st.journal.db.snapshotAndTail version = .ok replay
      ∧ replay.model apply start decode = modelOf apply start st.history :=
  (Store.Faithful.empty.run hrun).replay

end Replaying

-- ==== samples

section Samples

section

variable {M : Type} [DecidableEq M] (apply : M → StoredBatch → M) (start : M)
  (decode : Bytes → M) (version : UInt32)

def encodes (s : EventStore) (st : Store) (a : Act) : Bool :=
  (a.snapshot s st.journal.db).all fun n => n.modelVersion = version
    && decode n.bytes
      = modelOf apply start (upTo (st.act s a).history n.batchId)

theorem encodes_iff (s : EventStore) (st : Store) (a : Act)
    (h : encodes apply start decode version s st a = true) :
    Encodes apply start decode version s st a := by
  intro n hn
  unfold encodes at h
  rw [hn, Option.all_some, Bool.and_eq_true_iff] at h
  exact ⟨of_decide_eq_true h.1, of_decide_eq_true h.2⟩

end

/-- A checksum for short payloads. -/
@[reducible] def sampleSum : Sha256 := ⟨id⟩

/-- A commit of one event. -/
def sampleCommit (id : String) : Act :=
  .call (.commit { CommitRequest.new 1 with
    appends := [⟨"stream", .any,
      [⟨id, ⟨"opened", 1, []⟩, 0, none, "user", "test", []⟩]⟩] } false)

/-- Three events, with a snapshot after the first, the second and the third
one, of which only two are kept; then the history up to the second one is
removed. A snapshot holds one byte for each event. -/
def compactingActs : List Act :=
  let save (batch : BatchId) (bytes : Bytes) : Act :=
    .maintain (.saveLiveSnapshot 1 ⟨batch, 1, bytes, []⟩ "model")
  [.call .acquireWriter, sampleCommit "a", save 1 [0], sampleCommit "b",
    save 2 [0, 0], sampleCommit "c", save 3 [0, 0, 0],
    .maintain (.compactHistory 1 1)]

/-- The model is how many events there were. -/
def countEvents (n : Nat) (b : StoredBatch) : Nat := n + b.events.length

def compactedStore : Store :=
  @Store.play sampleSum sampleStore .empty compactingActs

omit [Sha256] in
theorem snapshot_and_tail_replays_compacted :
    compactedStore.journal.db.events.length = 1
      ∧ ∃ replay, @Database.snapshotAndTail sampleSum
          compactedStore.journal.db 1 = .ok replay
        ∧ replay.model countEvents 0 List.length
          = modelOf countEvents 0 compactedStore.history :=
  ⟨by decide, @snapshot_and_tail_replays sampleSum _ _ _ _ _ _
    (@Store.run_play sampleSum _ _
      (@encodes_iff sampleSum _ _ countEvents 0 List.length 1) _ _ _
      (by decide))⟩

end Samples

end Tasty.Journal
