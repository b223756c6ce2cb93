/-
What the tables of snapshots and manifests keep: what is pinned is there,
each snapshot pins its body, and the retained history begins with a snapshot
that is there, which no manifest is behind.
-/
import Tasty.Journal.Appends
import Tasty.Journal.Manifests

namespace Tasty.Journal

open List

-- ==== the holders

/-- Holders of different kinds differ in their first letter. -/
def holderKind (holder : String) : Option Char := holder.toList.head?

theorem kind_snapshot (id : SnapshotId) :
    holderKind (snapshotHolder id) = some 's' := by
  have h : snapshotHolder id = "snapshot:" ++ id.repr := rfl
  rw [holderKind, h, String.toList_append]
  rfl

variable (key : String)

theorem kind_manifest : holderKind (manifestHolder key) = some 'r' := by
  have h : manifestHolder key = "restore-manifest:" ++ key := rfl
  rw [holderKind, h, String.toList_append]
  rfl

theorem kind_event (eventId : String) :
    holderKind (eventHolder eventId) = some 'e' := by
  have h : eventHolder eventId = "event:" ++ eventId := rfl
  rw [holderKind, h, String.toList_append]
  rfl

theorem kind_live (consumer : String) :
    holderKind (liveHolder consumer) = some 'l' := by
  have h : liveHolder consumer = "live:" ++ consumer := rfl
  rw [holderKind, h, String.toList_append]
  rfl

theorem snapshotHolder_inj {a b : SnapshotId}
    (h : snapshotHolder a = snapshotHolder b) : a = b := by
  have hrepr : "snapshot:" ++ Nat.repr a = "snapshot:" ++ Nat.repr b := h
  have hdigits := congrArg String.toList
    ((String.append_right_inj _).1 hrepr)
  rw [Nat.toList_repr, Nat.toList_repr] at hdigits
  rw [← Nat.ofDigitChars_ten_toDigits (n := a), hdigits,
    Nat.ofDigitChars_ten_toDigits]

theorem manifestHolder_inj {a b : String}
    (h : manifestHolder a = manifestHolder b) : a = b := by
  have happend : "restore-manifest:" ++ a = "restore-manifest:" ++ b := h
  exact (String.append_right_inj _).1 happend

/-- A holder of a snapshot or of a manifest; its pins are what replay and
restore rely on. -/
def Holds (holder : String) : Prop :=
  holderKind holder = some 's' ∨ holderKind holder = some 'r'

theorem holds_snapshot (id : SnapshotId) : Holds (snapshotHolder id) :=
  .inl (kind_snapshot id)

theorem holds_manifest : Holds (manifestHolder key) :=
  .inr (kind_manifest key)

theorem not_holds_event (eventId : String) : ¬ Holds (eventHolder eventId) := by
  rw [Holds, kind_event]
  decide

theorem not_holds_live (consumer : String) : ¬ Holds (liveHolder consumer) := by
  rw [Holds, kind_live]
  decide

theorem manifest_ne_snapshot (id : SnapshotId) :
    manifestHolder key ≠ snapshotHolder id := by
  intro h
  have hkind := congrArg holderKind h
  rw [kind_manifest, kind_snapshot] at hkind
  exact absurd hkind (by decide)

-- ==== what is read

theorem toI64_of_lt {n : Nat} (hn : n < 2 ^ 63) : toI64 n = .ok n := if_pos hn

theorem toI64_ok {n m : Nat} (h : toI64 n = .ok m) : m = n ∧ n < 2 ^ 63 := by
  obtain ⟨hn, h⟩ := guard_not_ok h
  cases h
  exact ⟨rfl, hn⟩

theorem reject_ok {bad : Bool} {e : StoreError} {u : Unit}
    (h : reject bad e = .ok u) : bad = false :=
  Bool.eq_false_iff.2 (guard_ok h).1

theorem requireCursor_of_le {db : Database} {batch : BatchId}
    (h : ∀ floor, db.floor = some floor → floor ≤ batch) :
    db.requireCursor (some batch) = .ok () := by
  unfold Database.requireCursor
  cases hf : db.floor with
  | none => rfl
  | some floor =>
    refine if_neg fun hlt => ?_
    exact absurd (of_decide_eq_true hlt) (Nat.not_lt.2 (h floor hf))

-- ==== soundness

variable [Sha256]

/-- The manifest has its snapshot, which is not behind the floor, and holds
the body of it and its own view. -/
def Database.Restorable (db : Database) (m : ManifestRow) : Prop :=
  ∃ s ∈ db.snapshots, s.snapshotId = m.snapshotId
    ∧ (∀ floor, db.floor = some floor → floor ≤ s.batchId)
    ∧ ⟨s.payloadId, manifestHolder m.restoreKey⟩ ∈ db.pins
    ∧ ⟨m.payloadId, manifestHolder m.restoreKey⟩ ∈ db.pins

structure Database.Sound (db : Database) : Prop where
  payloads : Table.Numbered PayloadRow.payloadId db.lastPayload db.payloads
  payloadRange : db.lastPayload < 2 ^ 63
  digests : ∀ p ∈ db.payloads, Sha256.digest p.bytes = p.sha256
  /-- What is pinned is there. -/
  pins : ∀ p ∈ db.pins, ∃ row ∈ db.payloads, row.payloadId = p.payloadId
  snapshots :
    Table.Numbered SnapshotRow.snapshotId db.lastSnapshot db.snapshots
  snapshotRange : db.lastSnapshot < 2 ^ 63
  bodies : ∀ s ∈ db.snapshots,
    ⟨s.payloadId, snapshotHolder s.snapshotId⟩ ∈ db.pins
  batches : Table.Numbered BatchRow.batchId db.lastBatch db.batches
  batchRange : db.lastBatch < 2 ^ 63
  cuts : ∀ s ∈ db.snapshots, ∃ b ∈ db.batches, b.batchId = s.batchId
  anchor : ∀ a, db.anchor = some a →
    ∃ s ∈ db.snapshots, s.snapshotId = a.snapshotId ∧ s.batchId = a.batchId
  keys : Table.Unique ManifestRow.restoreKey db.manifests
  manifests : ∀ m ∈ db.manifests, db.Restorable m
  /-- A view is not the body of a snapshot. -/
  views : ∀ m ∈ db.manifests, ∀ s ∈ db.snapshots, m.payloadId ≠ s.payloadId
  frozen : ∀ a ∈ db.aliasInputs, ∃ m ∈ db.manifests,
    m.restoreKey = a.restoreKey

theorem Database.Sound.empty : Database.Sound .empty where
  payloads := .nil
  payloadRange := by decide
  digests := fun _ h => nomatch h
  pins := fun _ h => nomatch h
  snapshots := .nil
  snapshotRange := by decide
  bodies := fun _ h => nomatch h
  batches := .nil
  batchRange := by decide
  cuts := fun _ h => nomatch h
  anchor := fun _ h => nomatch h
  keys := .nil
  manifests := fun _ h => nomatch h
  views := fun _ h => nomatch h
  frozen := fun _ h => nomatch h

section Reading

variable {db : Database} (h : db.Sound)

include h

theorem readVerified_mem {row : PayloadRow} (hrow : row ∈ db.payloads) :
    db.readVerified row.payloadId = .ok row.bytes := by
  have hid : row.payloadId < 2 ^ 63 :=
    Nat.lt_of_le_of_lt (h.payloads.bounds row hrow).2 h.payloadRange
  have hfind : Table.find PayloadRow.payloadId row.payloadId db.payloads
      = some row := h.payloads.unique.find_eq_some.2 ⟨hrow, rfl⟩
  unfold Database.readVerified
  rw [toI64_of_lt hid, ok_bind, hfind]
  exact if_neg (not_not_intro (h.digests row hrow))

theorem readVerified_pinned {p : PinRow} (hp : p ∈ db.pins) :
    ∃ row ∈ db.payloads, row.payloadId = p.payloadId
      ∧ db.readVerified p.payloadId = .ok row.bytes := by
  obtain ⟨row, hrow, hid⟩ := h.pins p hp
  refine ⟨row, hrow, hid, ?_⟩
  rw [← hid]
  exact readVerified_mem h hrow

theorem verifyAll_pinnedBy (holder : String) :
    db.verifyAll (db.pinnedBy holder) = .ok () := by
  have hall : ∀ payloads : List PayloadRef,
      (∀ payload ∈ payloads, payload ∈ db.pinnedBy holder) →
        db.verifyAll payloads = .ok () := by
    intro payloads
    induction payloads with
    | nil => exact fun _ => rfl
    | cons payload rest ih =>
      intro hmem
      obtain ⟨p, hp, rfl⟩ := mem_map.1 (hmem payload mem_cons_self)
      obtain ⟨row, -, -, hread⟩ :=
        readVerified_pinned h (mem_filter.1 hp).1
      unfold Database.verifyAll
      rw [hread, ok_bind]
      exact ih fun q hq => hmem q (mem_cons_of_mem _ hq)
  exact hall _ fun _ hq => hq

variable {s : SnapshotRow}

theorem verifySnapshot_mem (hs : s ∈ db.snapshots) :
    ∃ row ∈ db.payloads, row.payloadId = s.payloadId
      ∧ db.verifySnapshot s.snapshotId s.payloadId = .ok row.bytes := by
  obtain ⟨row, hrow, hid, hread⟩ := readVerified_pinned h (h.bodies s hs)
  refine ⟨row, hrow, hid, ?_⟩
  unfold Database.verifySnapshot
  rw [hread, ok_bind, verifyAll_pinnedBy h, ok_bind]

theorem cutAt_mem (hs : s ∈ db.snapshots) :
    db.cutAt s.batchId = .ok ⟨some s.batchId, db.headsAt s.batchId⟩ := by
  obtain ⟨b, hb, hid⟩ := h.cuts s hs
  have hrange : s.batchId < 2 ^ 63 := by
    rw [← hid]
    exact Nat.lt_of_le_of_lt (h.batches.bounds b hb).2 h.batchRange
  unfold Database.cutAt
  rw [toI64_of_lt hrange, ok_bind]
  exact if_pos (any_eq_true.2 ⟨b, hb, decide_eq_true hid⟩)

theorem snapshotRow_mem (hs : s ∈ db.snapshots) :
    db.snapshotRow s.snapshotId = .ok s := by
  have hrange : s.snapshotId < 2 ^ 63 :=
    Nat.lt_of_le_of_lt (h.snapshots.bounds s hs).2 h.snapshotRange
  have hfind : db.snapshot s.snapshotId = some s :=
    h.snapshots.unique.find_eq_some.2 ⟨hs, rfl⟩
  unfold Database.snapshotRow
  rw [toI64_of_lt hrange, ok_bind, hfind]

theorem readManifest_mem {m : ManifestRow} (hm : m ∈ db.manifests) :
    ∃ s ∈ db.snapshots, ∃ body ∈ db.payloads, ∃ view ∈ db.payloads,
      s.snapshotId = m.snapshotId ∧ body.payloadId = s.payloadId
        ∧ view.payloadId = m.payloadId
        ∧ (∀ floor, db.floor = some floor → floor ≤ s.batchId)
        ∧ db.readManifest m = .ok
          ⟨m.incarnation, m.runtimeEpoch, m.sequence,
            ⟨s.snapshotId, ⟨some s.batchId, db.headsAt s.batchId⟩,
              s.modelVersion, body.bytes⟩, view.bytes⟩ := by
  obtain ⟨s, hs, hid, hfloor, -, hpin⟩ := h.manifests m hm
  obtain ⟨body, hbody, hbodyId, hverify⟩ := verifySnapshot_mem h hs
  obtain ⟨view, hview, hviewId, hread⟩ := readVerified_pinned h hpin
  refine ⟨s, hs, body, hbody, view, hview, hid, hbodyId, hviewId, hfloor, ?_⟩
  unfold Database.readManifest
  rw [← hid, snapshotRow_mem h hs, ok_bind, requireCursor_of_le hfloor,
    ok_bind, hverify, ok_bind, hread, ok_bind, verifyAll_pinnedBy h, ok_bind,
    cutAt_mem h hs, ok_bind]

end Reading

-- ==== what steps leave

/-- What a step may do: the snapshots that it may save, and the keys of the
manifests that it may delete. -/
structure Changes where
  saved : NewSnapshot → Prop
  deleted : String → Prop

/-- What a step leaves of the tables before it: rows do not change and their
numbers are not used again; a snapshot that is new is one of the `saved`
ones; the batches after the floor keep their events; and a manifest stays
until it is deleted, a frozen one as it is. -/
structure Later (c : Changes) (db db' : Database) : Prop where
  lastPayload : db.lastPayload ≤ db'.lastPayload
  payloads : ∀ p ∈ db'.payloads, p ∈ db.payloads
    ∨ db.lastPayload < p.payloadId
  lastSnapshot : db.lastSnapshot ≤ db'.lastSnapshot
  snapshots : ∀ s ∈ db'.snapshots, s ∈ db.snapshots
    ∨ db.lastSnapshot < s.snapshotId ∧ s.payloadId ≤ db'.lastPayload
      ∧ ∃ n, c.saved n ∧ n.batchId = s.batchId
        ∧ n.modelVersion = s.modelVersion
        ∧ ∀ p ∈ db'.payloads, p.payloadId = s.payloadId → p.bytes = n.bytes
  lastBatch : db.lastBatch ≤ db'.lastBatch
  batches : ∃ rows, db'.batches = db.batches ++ rows
    ∧ ∀ b ∈ rows, db.lastBatch < b.batchId
  revisions : ∃ rows, db'.batchRevisions = db.batchRevisions ++ rows
    ∧ ∀ r ∈ rows, db.lastBatch < r.batchId
  floor : db.floor.getD 0 ≤ db'.floor.getD 0
  events : ∀ b ≤ db.lastBatch, db'.floor.getD 0 < b →
    (db'.events.filter fun e => e.batchId = b)
      = db.events.filter fun e => e.batchId = b
  stored : ∀ key, ¬ c.deleted key → (db.manifest key).isSome →
    (db'.manifest key).isSome
  frozen : ∀ key, ¬ c.deleted key → db.isFrozen key →
    db'.isFrozen key ∧ db'.manifest key = db.manifest key

namespace Later

omit [Sha256]

variable {c : Changes} {db db' db'' : Database}

theorem refl (c : Changes) (db : Database) : Later c db db where
  lastPayload := Nat.le_refl _
  payloads := fun _ hp => .inl hp
  lastSnapshot := Nat.le_refl _
  snapshots := fun _ hs => .inl hs
  lastBatch := Nat.le_refl _
  batches := ⟨[], (append_nil _).symm, fun _ hb => nomatch hb⟩
  revisions := ⟨[], (append_nil _).symm, fun _ hr => nomatch hr⟩
  floor := Nat.le_refl _
  events := fun _ _ _ => rfl
  stored := fun _ _ h => h
  frozen := fun _ _ h => ⟨h, rfl⟩

theorem trans (h : Later c db db') (h' : Later c db' db'') :
    Later c db db'' where
  lastPayload := h.lastPayload.trans h'.lastPayload
  payloads := fun p hp => by
    rcases h'.payloads p hp with hp | hp
    · exact h.payloads p hp
    · exact .inr (Nat.lt_of_le_of_lt h.lastPayload hp)
  lastSnapshot := h.lastSnapshot.trans h'.lastSnapshot
  snapshots := fun s hs => by
    rcases h'.snapshots s hs with hs | ⟨hlt, hnew⟩
    · rcases h.snapshots s hs with hs | ⟨hlt, hle, n, hn, hb, hv, hbody⟩
      · exact .inl hs
      · refine .inr ⟨hlt, hle.trans h'.lastPayload, n, hn, hb, hv, ?_⟩
        intro p hp hid
        rcases h'.payloads p hp with hp | hp
        · exact hbody p hp hid
        · exact absurd hp (Nat.not_lt.2 (hid ▸ hle))
    · exact .inr ⟨Nat.lt_of_le_of_lt h.lastSnapshot hlt, hnew⟩
  lastBatch := h.lastBatch.trans h'.lastBatch
  batches := by
    obtain ⟨rows, hrows, hlt⟩ := h.batches
    obtain ⟨rows', hrows', hlt'⟩ := h'.batches
    refine ⟨rows ++ rows', by rw [hrows', hrows, append_assoc], ?_⟩
    intro b hb
    rcases mem_append.1 hb with hb | hb
    · exact hlt b hb
    · exact Nat.lt_of_le_of_lt h.lastBatch (hlt' b hb)
  revisions := by
    obtain ⟨rows, hrows, hlt⟩ := h.revisions
    obtain ⟨rows', hrows', hlt'⟩ := h'.revisions
    refine ⟨rows ++ rows', by rw [hrows', hrows, append_assoc], ?_⟩
    intro r hr
    rcases mem_append.1 hr with hr | hr
    · exact hlt r hr
    · exact Nat.lt_of_le_of_lt h.lastBatch (hlt' r hr)
  floor := h.floor.trans h'.floor
  events := fun b hb hfloor => by
    rw [h'.events b (hb.trans h.lastBatch) hfloor,
      h.events b hb (Nat.lt_of_le_of_lt h'.floor hfloor)]
  stored := fun key hkey hm => h'.stored key hkey (h.stored key hkey hm)
  frozen := fun key hkey hfrozen => by
    obtain ⟨hfrozen', heq⟩ := h.frozen key hkey hfrozen
    obtain ⟨hfrozen'', heq'⟩ := h'.frozen key hkey hfrozen'
    exact ⟨hfrozen'', heq'.trans heq⟩

end Later

end Tasty.Journal
