/-
What the statements on snapshots and payloads keep: from sound tables each
leads to sound ones, and leaves the rows that it does not delete.
-/
import Tasty.Journal.Sound

namespace Tasty.Journal

open Database Table List

variable [Sha256]

variable {holder : String} {id : SnapshotId} {version : UInt32}
  {snapshots : List SnapshotRow} {boundary : SnapshotRow}

/-- From sound tables a step leads to sound ones. -/
def Keeps (c : Changes) (db db' : Database) : Prop :=
  db.Sound → db'.Sound ∧ Later c db db'

theorem Keeps.refl (c : Changes) (db : Database) : Keeps c db db :=
  fun h => ⟨h, .refl c db⟩

variable {c : Changes}

theorem Keeps.trans {db db' db'' : Database}
    (h : Keeps c db db') (h' : Keeps c db' db'') : Keeps c db db'' := by
  intro hdb
  obtain ⟨hdb', hlater⟩ := h hdb
  obtain ⟨hdb'', hlater'⟩ := h' hdb'
  exact ⟨hdb'', hlater.trans hlater'⟩

-- ==== other tables

/-- The tables that `Later` is about. -/
structure Stock where
  payloads : List PayloadRow
  lastPayload : Nat
  snapshots : List SnapshotRow
  lastSnapshot : Nat
  lastBatch : Nat
  batches : List BatchRow
  revisions : List BatchRevisionRow
  anchor : Option RetentionAnchor
  events : List StoredEvent
  manifests : List ManifestRow
  aliasInputs : List AliasInputRow

def Database.stock (db : Database) : Stock :=
  ⟨db.payloads, db.lastPayload, db.snapshots, db.lastSnapshot, db.lastBatch,
    db.batches, db.batchRevisions, db.anchor, db.events,
    db.manifests, db.aliasInputs⟩

omit [Sha256] in
/-- A step on other tables. -/
theorem Later.of_stock {db db' : Database}
    (h : db'.stock = db.stock) : Later c db db' := by
  injection h with hp hlp hs hls hlb hb hr ha he hm hf
  exact
    { lastPayload := hlp ▸ Nat.le_refl _
      payloads := fun _ h => .inl (hp ▸ h)
      lastSnapshot := hls ▸ Nat.le_refl _
      snapshots := fun _ h => .inl (hs ▸ h)
      lastBatch := hlb ▸ Nat.le_refl _
      batches := ⟨[], by rw [hb, append_nil], fun _ h => nomatch h⟩
      revisions := ⟨[], by rw [hr, append_nil], fun _ h => nomatch h⟩
      floor := by
        unfold Database.floor
        rw [ha]
      events := fun _ _ _ => by rw [he]
      stored := fun key _ h => by
        unfold Database.manifest
        rw [hm]
        exact h
      frozen := fun key _ h => by
        unfold isFrozen Database.manifest
        rw [hm, hf]
        exact ⟨h, rfl⟩ }

theorem Keeps.of_stock {db db' : Database}
    (h : db'.stock = db.stock) (hpins : db'.pins = db.pins) :
    Keeps c db db' := by
  intro hdb
  refine ⟨?_, .of_stock h⟩
  cases db
  cases db'
  injection h with hp hlp hs hls hlb hb hr ha he hm hf
  subst hp hlp hs hls hlb hb hr ha he hm hf
  cases hpins
  exact { hdb with manifests := hdb.manifests }

-- ==== the pins

section Pins

variable {db db' : Database} {c : Changes}

/-- Pins of others come and go. -/
theorem Keeps.repin {pins : List PinRow} (hthere : ∀ p ∈ pins, p ∈ db.pins
      ∨ ∃ row ∈ db.payloads, row.payloadId = p.payloadId)
    (hkept : ∀ p ∈ db.pins, Holds p.holder → p ∈ pins) :
    Keeps c db { db with pins := pins } := by
  intro h
  refine ⟨?_, .of_stock rfl⟩
  exact
    { h with
      pins := fun p hp => by
        rcases hthere p hp with hp | hrow
        · exact h.pins p hp
        · exact hrow
      bodies := fun s hs => hkept _ (h.bodies s hs) (holds_snapshot _)
      manifests := fun m hm => by
        obtain ⟨s, hs, hid, hfloor, hbody, hview⟩ := h.manifests m hm
        exact ⟨s, hs, hid, hfloor, hkept _ hbody (holds_manifest _),
          hkept _ hview (holds_manifest _)⟩ }

/-- What is added is there, and no pin is released. -/
theorem Keeps.pinned {P : String → Prop} {pins : List PinRow}
    (hpins : Pinned db P pins) : Keeps c db { db with pins := pins } := by
  refine .repin (fun p hp => ?_) fun p hp _ => hpins.1 p hp
  rcases hpins.2 p hp with hp | ⟨-, hrow⟩
  · exact .inl hp
  · exact .inr hrow

omit [Sha256] in
theorem mem_pinAll {payloads : List PayloadRef}
    (h : db.pinAll holder payloads = .ok db') :
    ∀ payload ∈ payloads, ⟨payload, holder⟩ ∈ db'.pins := by
  induction payloads generalizing db with
  | nil => exact fun _ hp => nomatch hp
  | cons payload rest ih =>
    obtain ⟨db₁, hpin, h⟩ := bind_ok h
    intro q hq
    rcases mem_cons.1 hq with rfl | hq
    · obtain ⟨rfl, -⟩ := pin_ok hpin
      obtain ⟨-, hpinned⟩ := pinned_pinAll (P := fun _ => True) trivial h
      exact hpinned.1 _ (mem_insertOrIgnore.2 (.inr rfl))
    · exact ih h q hq

variable {references : List PayloadRef}

theorem replaceHolder_ok
    (h : db.replaceHolder holder references = .ok db') :
    db' = { db with pins := db'.pins }
      ∧ (∀ p ∈ db.pins, p.holder ≠ holder → p ∈ db'.pins)
      ∧ (∀ p ∈ db'.pins, p ∈ db.pins
        ∨ ∃ row ∈ db.payloads, row.payloadId = p.payloadId)
      ∧ ∀ payload ∈ references, ⟨payload, holder⟩ ∈ db'.pins := by
  have h := then_ok h
  obtain ⟨heq, hpinned⟩ := pinned_pinAll (P := fun _ => True) trivial h
  refine ⟨heq, fun p hp hne => ?_, fun p hp => ?_, mem_pinAll h⟩
  · exact hpinned.1 p (mem_delete.2 ⟨hp, decide_eq_false hne⟩)
  · rcases hpinned.2 p hp with hp | ⟨-, hrow⟩
    · exact .inl (mem_delete.1 hp).1
    · exact .inr hrow

theorem Keeps.replaceHolder (hholder : ¬ Holds holder)
    (h : db.replaceHolder holder references = .ok db') : Keeps c db db' := by
  obtain ⟨heq, hkept, hthere, -⟩ := replaceHolder_ok h
  rw [heq]
  refine .repin hthere fun p hp hholds => hkept p hp fun hp => ?_
  exact hholder (hp ▸ hholds)

end Pins

-- ==== the payloads

section Payloads

variable {db db' : Database} {c : Changes}

theorem insertPayload_ok {bytes : Bytes} {id : PayloadRef}
    (h : db.insertPayload bytes = .ok (db', id)) :
    id = db.lastPayload + 1 ∧ id < 2 ^ 63
      ∧ db' = { db with
          payloads := db.payloads ++ [⟨id, Sha256.digest bytes, bytes⟩]
          lastPayload := id } := by
  have h := then_ok h
  obtain ⟨id', hid, h⟩ := bind_ok h
  cases h
  unfold nextRowid at hid
  split at hid
  · rename_i hlt
    cases hid
    exact ⟨rfl, hlt, rfl⟩
  · cases hid

theorem Keeps.payload (bytes : Bytes) (hlt : db.lastPayload + 1 < 2 ^ 63) :
    Keeps c db { db with
      payloads := db.payloads
        ++ [⟨db.lastPayload + 1, Sha256.digest bytes, bytes⟩]
      lastPayload := db.lastPayload + 1 } := by
  intro h
  constructor
  · exact
      { h with
        payloads := h.payloads.append rfl
        payloadRange := hlt
        digests := fun p hp => by
          rcases mem_append.1 hp with hp | hp
          · exact h.digests p hp
          · rw [mem_singleton.1 hp]
        pins := fun p hp => by
          obtain ⟨row, hrow, hid⟩ := h.pins p hp
          exact ⟨row, mem_append_left _ hrow, hid⟩
        manifests := h.manifests }
  · exact
      { Later.refl c db with
        lastPayload := Nat.le_succ _
        payloads := fun p hp => by
          rcases mem_append.1 hp with hp | hp
          · exact .inl hp
          · rw [mem_singleton.1 hp]
            exact .inr (Nat.lt_succ_self _)
        snapshots := fun _ hs => .inl hs }

theorem Keeps.insertPayload {bytes : Bytes} {id : PayloadRef}
    (h : db.insertPayload bytes = .ok (db', id)) : Keeps c db db' := by
  obtain ⟨rfl, hlt, rfl⟩ := insertPayload_ok h
  exact .payload bytes hlt

/-- Only payloads without a pin are deleted. -/
theorem Keeps.collectPayloads {removed : Nat}
    (h : db.collectPayloads = .ok (db', removed)) : Keeps c db db' := by
  have h := then_ok h
  cases h
  intro h
  constructor
  · exact
      { h with
        payloads := h.payloads.sublist (delete_sublist _ _)
        digests := fun p hp => h.digests p (mem_delete.1 hp).1
        pins := fun p hp => by
          obtain ⟨row, hrow, hid⟩ := h.pins p hp
          refine ⟨row, mem_delete.2 ⟨hrow, ?_⟩, hid⟩
          rw [Bool.not_eq_false']
          exact any_eq_true.2 ⟨p, hp, decide_eq_true hid.symm⟩
        manifests := h.manifests }
  · exact
      { Later.refl c db with
        payloads := fun p hp => .inl (mem_delete.1 hp).1
        snapshots := fun _ hs => .inl hs }

end Payloads

-- ==== the snapshots

variable {keep : Nat}

section Snapshots

variable {db db' : Database} {c : Changes}

omit [Sha256] in
theorem cutAt_ok {batch : BatchId} {cut : JournalCut}
    (h : db.cutAt batch = .ok cut) : ∃ b ∈ db.batches, b.batchId = batch := by
  obtain ⟨id, hid, h⟩ := bind_ok h
  obtain ⟨rfl, -⟩ := toI64_ok hid
  obtain ⟨hany, -⟩ := guard_not_ok h
  obtain ⟨b, hb, hid⟩ := any_eq_true.1 hany
  exact ⟨b, hb, of_decide_eq_true hid⟩

theorem insertSnapshot_ok {n : NewSnapshot}
    (h : db.insertSnapshot n = .ok (db', id)) :
    id = db.lastSnapshot + 1 ∧ id < 2 ^ 63 ∧ db.lastPayload + 1 < 2 ^ 63
      ∧ (∃ b ∈ db.batches, b.batchId = n.batchId)
      ∧ ⟨db.lastPayload + 1, snapshotHolder id⟩ ∈ db'.pins
      ∧ (∀ p ∈ db.pins, p ∈ db'.pins)
      ∧ (∀ p ∈ db'.pins, p ∈ db.pins
        ∨ ∃ row ∈ db'.payloads, row.payloadId = p.payloadId)
      ∧ db' = { db with
          payloads := db.payloads
            ++ [⟨db.lastPayload + 1, Sha256.digest n.bytes, n.bytes⟩]
          lastPayload := db.lastPayload + 1
          snapshots := db.snapshots
            ++ [⟨id, n.batchId, n.modelVersion, db.lastPayload + 1⟩]
          lastSnapshot := id
          pins := db'.pins } := by
  have h := then_ok h
  obtain ⟨cut, hcut, h⟩ := bind_ok h
  obtain ⟨⟨db₁, body⟩, hbody, h⟩ := bind_ok h
  obtain ⟨id', hid, h⟩ := bind_ok h
  obtain ⟨db₂, hpin, h⟩ := bind_ok h
  obtain ⟨db₃, hpins, h⟩ := bind_ok h
  cases h
  obtain ⟨rfl, hpayload, rfl⟩ := insertPayload_ok hbody
  obtain ⟨rfl, hrow⟩ := pin_ok hpin
  obtain ⟨heq, hpinned⟩ := pinned_pinAll (P := fun _ => True) trivial hpins
  have hlt : id < 2 ^ 63 := by
    unfold nextRowid at hid
    split at hid
    · cases hid
      assumption
    · cases hid
  have hnext := nextRowid_ok hid
  have hpayloads : db'.payloads = db.payloads
      ++ [⟨db.lastPayload + 1, Sha256.digest n.bytes, n.bytes⟩] := by
    rw [heq]
  refine ⟨hnext, hlt, hpayload, cutAt_ok hcut, ?_, ?_, ?_, heq⟩
  · exact hpinned.1 _ (mem_insertOrIgnore.2 (.inr rfl))
  · exact fun p hp => hpinned.1 p (mem_insertOrIgnore.2 (.inl hp))
  · intro p hp
    rw [hpayloads]
    rcases hpinned.2 p hp with hp | ⟨-, hrow⟩
    · rcases mem_insertOrIgnore.1 hp with hp | rfl
      · exact .inl hp
      · exact .inr hrow
    · exact .inr hrow

theorem Keeps.insertSnapshot {n : NewSnapshot} (hn : c.saved n)
    (h : db.insertSnapshot n = .ok (db', id)) : Keeps c db db' := by
  obtain ⟨rfl, hid, hpayload, hbatch, hbody, hkept, hthere, heq⟩ :=
    insertSnapshot_ok h
  intro h
  obtain ⟨hmid, hlater⟩ := Keeps.payload (c := c) n.bytes hpayload h
  have hold : ∀ p ∈ db.pins, p.payloadId ≤ db.lastPayload := by
    intro p hp
    obtain ⟨row, hrow, hid⟩ := h.pins p hp
    rw [← hid]
    exact (h.payloads.bounds row hrow).2
  rw [heq] at hthere ⊢
  constructor
  · exact
      { hmid with
        pins := fun p hp => (hthere p hp).elim (hmid.pins p) id
        snapshots := h.snapshots.append rfl
        snapshotRange := hid
        bodies := fun s hs => by
          rcases mem_append.1 hs with hs | hs
          · exact hkept _ (h.bodies s hs)
          · rw [mem_singleton.1 hs]
            exact hbody
        cuts := fun s hs => by
          rcases mem_append.1 hs with hs | hs
          · exact h.cuts s hs
          · rw [mem_singleton.1 hs]
            exact hbatch
        anchor := fun a ha => by
          obtain ⟨s, hs, hanchor⟩ := h.anchor a ha
          exact ⟨s, mem_append_left _ hs, hanchor⟩
        manifests := fun m hm => by
          obtain ⟨s, hs, hid, hfloor, hbody, hview⟩ := h.manifests m hm
          exact ⟨s, mem_append_left _ hs, hid, hfloor, hkept _ hbody,
            hkept _ hview⟩
        views := fun m hm s hs => by
          rcases mem_append.1 hs with hs | hs
          · exact h.views m hm s hs
          · -- the payload of a new snapshot is a new one
            obtain ⟨-, -, -, -, -, hview⟩ := h.manifests m hm
            rw [mem_singleton.1 hs]
            exact Nat.ne_of_lt (Nat.lt_succ_of_le (hold _ hview)) }
  · exact
      { hlater with
        lastSnapshot := Nat.le_succ _
        snapshots := fun s hs => by
          rcases mem_append.1 hs with hs | hs
          · exact .inl hs
          · rw [mem_singleton.1 hs]
            refine .inr ⟨Nat.lt_succ_self _, Nat.le_refl _, n, hn, rfl, rfl, ?_⟩
            intro p hp hid
            rcases mem_append.1 hp with hp | hp
            · have hle := (h.payloads.bounds p hp).2
              rw [hid] at hle
              exact absurd hle (Nat.not_succ_le_self _)
            · rw [mem_singleton.1 hp] }

omit [Sha256] in
/-- Neither the anchor nor a manifest refers to a snapshot that is
deleted. -/
theorem dropSnapshot_ok (h : db.dropSnapshot id = .ok db') :
    db.anchorSnapshot ≠ some id ∧ (∀ m ∈ db.manifests, m.snapshotId ≠ id)
      ∧ db' = { db with
          snapshots := Table.delete (fun s => s.snapshotId = id) db.snapshots
          pins := Table.delete (fun p => p.holder = snapshotHolder id)
            db.pins } := by
  obtain ⟨_, hrequire, h⟩ := bind_ok h
  cases h
  obtain ⟨hrequire, -⟩ := guard_not_ok hrequire
  obtain ⟨hanchor, hmanifests⟩ := (Bool.and_eq_true_iff).1 hrequire
  rw [Bool.not_eq_true', any_eq_false] at hmanifests
  exact ⟨of_decide_eq_true hanchor,
    fun m hm heq => hmanifests m hm (decide_eq_true heq), rfl⟩

theorem Keeps.dropSnapshot
    (h : db.dropSnapshot id = .ok db') : Keeps c db db' := by
  obtain ⟨hanchor, hmanifests, rfl⟩ := dropSnapshot_ok h
  intro h
  have hmem : ∀ s ∈ db.snapshots, s.snapshotId ≠ id →
      s ∈ Table.delete (fun s => s.snapshotId = id) db.snapshots :=
    fun s hs hne => mem_delete.2 ⟨hs, decide_eq_false hne⟩
  have hpin : ∀ p ∈ db.pins, p.holder ≠ snapshotHolder id →
      p ∈ Table.delete (fun p => p.holder = snapshotHolder id) db.pins :=
    fun p hp hne => mem_delete.2 ⟨hp, decide_eq_false hne⟩
  constructor
  · exact
      { h with
        pins := fun p hp => h.pins p (mem_delete.1 hp).1
        snapshots := h.snapshots.sublist (delete_sublist _ _)
        bodies := fun s hs => by
          obtain ⟨hs, hne⟩ := mem_delete.1 hs
          refine hpin _ (h.bodies s hs) fun heq => ?_
          exact of_decide_eq_false hne (snapshotHolder_inj heq)
        cuts := fun s hs => h.cuts s (mem_delete.1 hs).1
        anchor := fun a ha => by
          obtain ⟨s, hs, hid, hbatch⟩ := h.anchor a ha
          refine ⟨s, hmem s hs fun heq => hanchor ?_, hid, hbatch⟩
          unfold anchorSnapshot
          rw [ha, Option.map_some, ← hid, heq]
        manifests := fun m hm => by
          obtain ⟨s, hs, hid, hfloor, hbody, hview⟩ := h.manifests m hm
          exact ⟨s, hmem s hs (hid ▸ hmanifests m hm), hid, hfloor,
            hpin _ hbody (manifest_ne_snapshot _ _),
            hpin _ hview (manifest_ne_snapshot _ _)⟩
        views := fun m hm s hs => h.views m hm s (mem_delete.1 hs).1 }
  · exact
      { Later.refl c db with
        payloads := fun _ hp => .inl hp
        snapshots := fun s hs => .inl (mem_delete.1 hs).1 }

theorem Keeps.retainLoop
    (h : Database.retainLoop snapshots keep db = .ok db') : Keeps c db db' := by
  induction snapshots, keep, db using Database.retainLoop.induct with
  | case1 keep db =>
    cases h
    exact .refl c _
  | case2 s rest keep db bytes hverify ih =>
    rw [Database.retainLoop, hverify] at h
    exact ih h
  | case3 s rest keep db e hverify hdamage ih =>
    rw [Database.retainLoop, hverify] at h
    exact ih ((if_pos hdamage).symm.trans h)
  | case4 s rest keep db e hverify hdamage =>
    rw [Database.retainLoop, hverify] at h
    cases (if_neg hdamage).symm.trans h
  | case5 s rest db hheld ih =>
    rw [Database.retainLoop, if_pos hheld] at h
    exact ih h
  | case6 s rest db hheld ih =>
    rw [Database.retainLoop, if_neg hheld] at h
    obtain ⟨db₁, hdrop, h⟩ := bind_ok h
    exact (Keeps.dropSnapshot hdrop).trans (ih db₁ h)

theorem Keeps.retainSnapshots
    (h : db.retainSnapshots version keep = .ok db') : Keeps c db db' :=
  .retainLoop h

end Snapshots

-- ==== compaction

section Compaction

variable {db db' : Database} {c : Changes}

omit [Sha256] in
theorem dropOlder_ok {boundary : BatchId}
    (h : dropOlder boundary snapshots db = .ok db') :
    db'.anchor = db.anchor ∧ ∀ s ∈ snapshots, s.batchId < boundary →
      ∀ m ∈ db.manifests, m.snapshotId ≠ s.snapshotId := by
  induction snapshots generalizing db with
  | nil =>
    cases h
    exact ⟨rfl, fun _ hs => nomatch hs⟩
  | cons s rest ih =>
    unfold dropOlder at h
    split at h
    · obtain ⟨db₁, hdrop, h⟩ := bind_ok h
      obtain ⟨-, hmanifests, rfl⟩ := dropSnapshot_ok hdrop
      obtain ⟨hanchor, hrest⟩ := ih h
      refine ⟨hanchor, fun s' hs' hlt => ?_⟩
      rcases mem_cons.1 hs' with rfl | hs'
      · exact hmanifests
      · exact hrest s' hs' hlt
    · rename_i hge
      obtain ⟨hanchor, hrest⟩ := ih h
      refine ⟨hanchor, fun s' hs' hlt => ?_⟩
      rcases mem_cons.1 hs' with rfl | hs'
      · exact absurd hlt hge
      · exact hrest s' hs' hlt

theorem Keeps.dropOlder {boundary : BatchId}
    (h : dropOlder boundary snapshots db = .ok db') : Keeps c db db' := by
  induction snapshots generalizing db with
  | nil =>
    cases h
    exact .refl c _
  | cons s rest ih =>
    unfold dropOlder at h
    split at h
    · obtain ⟨db₁, hdrop, h⟩ := bind_ok h
      exact (Keeps.dropSnapshot hdrop).trans (ih h)
    · exact ih h

theorem Keeps.anchor (revisions : List HeadRow) (hmem : boundary ∈ db.snapshots)
    (hfloor : db.floor.getD 0 ≤ boundary.batchId)
    (hmanifests : ∀ s ∈ db.snapshots, s.batchId < boundary.batchId →
      ∀ m ∈ db.manifests, m.snapshotId ≠ s.snapshotId) :
    Keeps c db { db with
      anchor := some ⟨boundary.batchId, boundary.snapshotId⟩
      retainedRevisions := revisions } := by
  intro h
  constructor
  · exact
      { h with
        anchor := fun a ha => by
          cases ha
          exact ⟨boundary, hmem, rfl, rfl⟩
        manifests := fun m hm => by
          obtain ⟨s, hs, hid, -, hpins⟩ := h.manifests m hm
          refine ⟨s, hs, hid, fun floor hf => ?_, hpins⟩
          cases hf
          exact Nat.not_lt.1 fun hlt => hmanifests s hs hlt m hm hid.symm }
  · exact
      { Later.refl c db with
        floor := hfloor
        snapshots := fun _ hs => .inl hs
        events := fun _ _ _ => rfl }

theorem Keeps.removeEvents {boundary : BatchId} {removed : Nat}
    (hfloor : db.floor = some boundary)
    (h : db.removeEvents boundary = .ok (db', removed)) : Keeps c db db' := by
  have h := then_ok h
  cases h
  intro h
  have hkept : ∀ p ∈ db.pins, Holds p.holder → p ∈ Table.delete
      (fun p => (db.events.filter fun e => e.batchId ≤ boundary).any
        fun e => p.holder = eventHolder e.eventId) db.pins := by
    intro p hp hholds
    refine mem_delete.2 ⟨hp, ?_⟩
    rw [any_eq_false]
    intro e _ heq
    exact not_holds_event e.eventId (of_decide_eq_true heq ▸ hholds)
  have hrepin := (Keeps.repin (c := c)
    (fun p hp => .inl (mem_delete.1 hp).1) hkept h).1
  constructor
  · exact { hrepin with manifests := hrepin.manifests }
  · exact
      { Later.refl c db with
        snapshots := fun _ hs => .inl hs
        events := fun b _ hb => by
          have hlt : boundary < b := by
            have hf : db.floor.getD 0 < b := hb
            rwa [hfloor] at hf
          show (Table.delete _ db.events).filter _ = _
          unfold Table.delete
          rw [filter_filter]
          refine filter_congr fun e _ => ?_
          by_cases he : e.batchId = b
          · have hle : ¬ b ≤ boundary := Nat.not_le.2 hlt
            simp [he, hle]
          · simp [he] }

theorem Keeps.compactBehind {compaction : Compaction}
    (hmem : boundary ∈ db.snapshots)
    (hfloor : db.floor.getD 0 ≤ boundary.batchId)
    (hall : ∀ s ∈ db.snapshots, s ∈ snapshots)
    (h : db.compactBehind boundary snapshots = .ok (db', compaction)) :
    Keeps c db db' := by
  obtain ⟨db₁, hdrop, h⟩ := bind_ok h
  obtain ⟨⟨db₂, events⟩, hevents, h⟩ := bind_ok h
  obtain ⟨⟨db₃, payloads⟩, hpayloads, h⟩ := bind_ok h
  cases h
  obtain ⟨hanchor, hmanifests⟩ := dropOlder_ok hdrop
  have hfloor₁ : db₁.floor = some boundary.batchId := by
    unfold Database.floor
    rw [hanchor]
    rfl
  have hbegin := Keeps.anchor (c := c)
    (db.revisionsUpTo boundary.batchId) hmem hfloor
    fun s hs => hmanifests s (hall s hs)
  exact ((hbegin.trans (.dropOlder hdrop)).trans
    (.removeEvents hfloor₁ hevents)).trans (.collectPayloads hpayloads)

theorem mem_validSnapshots {valid : List SnapshotRow}
    (h : db.validSnapshots version snapshots keep = .ok valid) :
    ∀ s ∈ valid, s ∈ snapshots := by
  induction snapshots generalizing keep valid with
  | nil =>
    cases h
    exact fun _ hs => hs
  | cons s rest ih =>
    cases keep with
    | zero =>
      cases h
      exact fun _ hs => nomatch hs
    | succ keep =>
      have hskip : ∀ {valid'}, db.validSnapshots version rest (keep + 1)
          = .ok valid' → ∀ s' ∈ valid', s' ∈ s :: rest :=
        fun h s' hs' => mem_cons_of_mem _ (ih h s' hs')
      rw [validSnapshots] at h
      split at h
      · exact hskip h
      · split at h
        · obtain ⟨valid', hvalid, h⟩ := bind_ok h
          cases h
          intro s' hs'
          rcases mem_cons.1 hs' with rfl | hs'
          · exact mem_cons_self
          · exact mem_cons_of_mem _ (ih hvalid s' hs')
        · split at h
          · exact hskip h
          · cases h

theorem mem_heldBoundary {found : SnapshotRow}
    (h : db.heldBoundary version snapshots boundary = .ok (some found)) :
    found = boundary ∨ found ∈ snapshots := by
  induction snapshots generalizing boundary with
  | nil =>
    cases h
    exact .inl rfl
  | cons s rest ih =>
    have hskip : ∀ {boundary'}, db.heldBoundary version rest boundary'
        = .ok (some found) → boundary' = boundary ∨ boundary' = s →
          found = boundary ∨ found ∈ s :: rest := by
      intro boundary' h hfrom
      rcases ih h with rfl | hfound
      · rcases hfrom with rfl | rfl
        · exact .inl rfl
        · exact .inr mem_cons_self
      · exact .inr (mem_cons_of_mem _ hfound)
    unfold heldBoundary at h
    split at h
    · exact hskip h (.inl rfl)
    · split at h
      · split at h
        · cases h
        · obtain ⟨bytes, -, h⟩ := bind_ok h
          exact hskip h (.inr rfl)
      · exact hskip h (.inl rfl)

theorem Keeps.compactHistory {compaction : Option Compaction}
    (h : db.compactHistory version = .ok (db', compaction)) :
    Keeps c db db' := by
  obtain ⟨valid, hvalid, h⟩ := bind_ok h
  split at h
  · cases h
    exact .refl c _
  · rename_i second hsecond
    obtain ⟨boundary, hheld, h⟩ := bind_ok h
    split at h
    · cases h
      exact .refl c _
    · rename_i boundary
      split at h
      · cases h
        exact .refl c _
      · rename_i hbehind
        obtain ⟨⟨db₁, done⟩, hcompact, h⟩ := bind_ok h
        cases h
        have hmem : boundary ∈ db.snapshots := by
          have hsecond := mem_validSnapshots hvalid second
            (mem_of_getElem? hsecond)
          rcases mem_heldBoundary hheld with rfl | hfound
          · exact mem_insertionSort _ |>.1 hsecond
          · exact mem_insertionSort _ |>.1 hfound
        refine .compactBehind hmem ?_
          (fun s hs => (mem_insertionSort _).2 hs) hcompact
        cases hf : db.floor with
        | none => exact Nat.zero_le _
        | some floor =>
          rw [hf] at hbehind
          exact Nat.le_of_lt (Nat.not_le.1 fun hle =>
            hbehind (decide_eq_true hle))

end Compaction

end Tasty.Journal
