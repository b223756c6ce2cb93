/-
Restore manifests stay readable. Whatever upkeep is done, a manifest that is
stored is read with the snapshot and the view that it names, and a frozen
alias with those that it was frozen with.
-/
import Tasty.Journal.Replay

namespace Tasty.Journal

open List

variable [Sha256]

variable {key : String} {m : NewRestoreManifest} {epoch : WriterEpoch}

/-- The manifest is read, and what it needs is there: its snapshot, which is
not behind the floor, the body of that, the view, and all that is pinned for
it or for its snapshot. -/
structure Database.Readable (db : Database) (key : String)
    (r : RestoreManifest) : Prop where
  read : db.readIn key = .ok (some r)
  complete : ∃ m s, db.manifest key = some m ∧ s ∈ db.snapshots
    ∧ s.snapshotId = m.snapshotId
    ∧ r.snapshot.snapshotId = m.snapshotId
    ∧ (∀ floor, db.floor = some floor → floor ≤ s.batchId)
    ∧ (∃ body ∈ db.payloads, body.payloadId = s.payloadId
      ∧ body.bytes = r.snapshot.bytes)
    ∧ (∃ view ∈ db.payloads, view.payloadId = m.payloadId
      ∧ view.bytes = r.view)
    ∧ ∀ p ∈ db.pins, p.holder = manifestHolder key
        ∨ p.holder = snapshotHolder s.snapshotId →
      ∃ row ∈ db.payloads, row.payloadId = p.payloadId
        ∧ db.readVerified p.payloadId = .ok row.bytes

section Reading

variable {db db' : Database} {c : Changes}

theorem readIn_eq {m : ManifestRow} {r : RestoreManifest}
    (hm : db.manifest key = some m) (hread : db.readManifest m = .ok r) :
    db.readIn key = .ok (some r) := by
  unfold Database.readIn
  rw [hm]
  dsimp only
  rw [hread, ok_bind]

theorem Database.Sound.readable (h : db.Sound)
    (hkey : (db.manifest key).isSome) : ∃ r, db.Readable key r := by
  obtain ⟨m, hm⟩ := Option.isSome_iff_exists.1 hkey
  obtain ⟨s, hs, body, hbody, view, hview, hid, hbodyId, hviewId, hfloor,
    hread⟩ := readManifest_mem h (Table.find_mem hm)
  exact ⟨_, readIn_eq hm hread, m, s, hm, hs, hid, hid, hfloor, ⟨body, hbody, hbodyId, rfl⟩,
    ⟨view, hview, hviewId, rfl⟩, fun p hp _ => readVerified_pinned h hp⟩

omit [Sha256] in
theorem Later.headsAt_eq (h : Later c db db') {batch : BatchId}
    (hbatch : batch ≤ db.lastBatch) : db'.headsAt batch = db.headsAt batch := by
  obtain ⟨rows, hrows, hlt⟩ := h.revisions
  have hnone : rows.filter (fun r => r.batchId ≤ batch) = [] := by
    refine filter_eq_nil_iff.2 fun r hr hle => ?_
    have hold := (of_decide_eq_true hle : r.batchId ≤ batch).trans hbatch
    exact absurd (hlt r hr) (Nat.not_lt.2 hold)
  unfold Database.headsAt
  rw [hrows, filter_append, hnone, append_nil]

theorem Later.payload_eq (h : Later c db db') (hdb : db.Sound)
    {p p' : PayloadRow} (hp : p ∈ db.payloads) (hp' : p' ∈ db'.payloads)
    (hid : p'.payloadId = p.payloadId) : p' = p := by
  rcases h.payloads p' hp' with hold | hnew
  · exact hdb.payloads.unique.eq_of_key hold hp hid
  · rw [hid] at hnew
    exact absurd hnew (Nat.not_lt.2 (hdb.payloads.bounds p hp).2)

theorem Later.snapshot_eq (h : Later c db db') (hdb : db.Sound)
    {s s' : SnapshotRow} (hs : s ∈ db.snapshots) (hs' : s' ∈ db'.snapshots)
    (hid : s'.snapshotId = s.snapshotId) : s' = s := by
  rcases h.snapshots s' hs' with hold | ⟨hnew, -⟩
  · exact hdb.snapshots.unique.eq_of_key hold hs hid
  · rw [hid] at hnew
    exact absurd hnew (Nat.not_lt.2 (hdb.snapshots.bounds s hs).2)

theorem Later.readManifest_eq (h : Later c db db') (hdb : db.Sound)
    (hdb' : db'.Sound) {m : ManifestRow} (hm : m ∈ db.manifests)
    (hm' : m ∈ db'.manifests) : db'.readManifest m = db.readManifest m := by
  obtain ⟨s, hs, body, hbody, view, hview, hid, hbodyId, hviewId, -, hread⟩ :=
    readManifest_mem hdb hm
  obtain ⟨s', hs', body', hbody', view', hview', hid', hbodyId', hviewId', -,
    hread'⟩ := readManifest_mem hdb' hm'
  cases h.snapshot_eq hdb hs hs' (hid'.trans hid.symm)
  cases h.payload_eq hdb hbody hbody' (hbodyId'.trans hbodyId.symm)
  cases h.payload_eq hdb hview hview' (hviewId'.trans hviewId.symm)
  obtain ⟨b, hb, hbatch⟩ := hdb.cuts s hs
  have hle : s.batchId ≤ db.lastBatch := hbatch ▸ (hdb.batches.bounds b hb).2
  rw [hread, hread', h.headsAt_eq hle]

theorem Later.readIn_frozen (h : Later c db db') (hdb : db.Sound)
    (hdb' : db'.Sound) (hkey : ¬ c.deleted key)
    (hfrozen : db.isFrozen key = true) : db'.readIn key = db.readIn key := by
  obtain ⟨-, heq⟩ := h.frozen key hkey hfrozen
  unfold Database.readIn
  rw [heq]
  cases hm : db.manifest key with
  | none => rfl
  | some m =>
    have hm' := heq.trans hm
    dsimp only
    rw [h.readManifest_eq hdb hdb' (Table.find_mem hm) (Table.find_mem hm')]

end Reading

-- ==== runs

/-- The act does not delete the manifest of this key. -/
def Spares (key : String) (s : EventStore) (st : Store) (a : Act) : Prop :=
  a.deleted s st.journal.db ≠ some key

/-- Any act. -/
def Anything (_ : EventStore) (_ : Store) (_ : Act) : Prop := True

theorem Store.Sound.spared {st st' : Store} (h : st.Sound)
    (hrun : st.Run (Spares key) st') :
    ((st.journal.db.manifest key).isSome → (st'.journal.db.manifest key).isSome)
      ∧ (st.journal.db.isFrozen key = true → st'.journal.db.isFrozen key = true
          ∧ st'.journal.db.readIn key = st.journal.db.readIn key) := by
  induction hrun with
  | refl => exact ⟨id, fun hfrozen => ⟨hfrozen, rfl⟩⟩
  | tail hrun hstep ih =>
    obtain ⟨s, a, hspared, rfl⟩ := hstep
    have hmid := h.run hrun
    obtain ⟨hafter, hlater⟩ := hmid.act s a
    obtain ⟨hstored, hfrozen⟩ := ih
    refine ⟨fun hm => hlater.stored key hspared (hstored hm), fun hf => ?_⟩
    obtain ⟨hf', hread⟩ := hfrozen hf
    exact ⟨(hlater.frozen key hspared hf').1,
      (hlater.readIn_frozen hmid.tables hafter.tables hspared hf').trans
        hread⟩

-- ==== what is stored

section Stored

variable {s : EventStore} {db db' : Database}

/-- The other statements of an operation leave the manifests that were just
saved. -/
theorem Keeps.manifest_isSome (h : Keeps .none db db') (hdb : db.Sound)
    (hkey : (db.manifest key).isSome) : (db'.manifest key).isSome :=
  (h hdb).2.stored key id hkey

theorem saveIn_isSome (h : db.saveIn m = .ok db') :
    (db'.manifest m.restoreKey).isSome := by
  rw [saveIn_manifest h]
  rfl

theorem saveRestoreCheckpoint_stores (hdb : db.Sound)
    {n : NewSnapshot} {id : SnapshotId}
    (h : s.saveRestoreCheckpoint db epoch n m = .ok (db', id)) :
    (db'.manifest m.restoreKey).isSome := by
  have h := then_ok (then_ok h)
  obtain ⟨⟨db₁, id'⟩, hinsert, h⟩ := bind_ok h
  obtain ⟨db₂, hsave, h⟩ := bind_ok h
  obtain ⟨db₃, hretain, h⟩ := bind_ok h
  obtain ⟨⟨db₄, removed⟩, hcollect, h⟩ := bind_ok h
  cases h
  have hdb₁ := (Keeps.insertSnapshot (c := ⟨(· = n), fun _ => False⟩) rfl
    hinsert hdb).1
  have hdb₂ := (Keeps.saveIn (c := .none) hsave hdb₁).1
  exact ((Keeps.retainSnapshots hretain).trans
    (.collectPayloads hcollect)).manifest_isSome hdb₂
    (saveIn_isSome (m := { m with snapshotId := id }) hsave)

theorem commitWithRestoreCheckpoint_stores (hdb : db.Sound)
    {r : CommitRequest} {prepare : Prepare} {batch : Option BatchCut}
    (h : s.commitWithRestoreCheckpoint db r prepare
      = .ok (db', .committed batch)) :
    ∃ db₁ b n m, db.importBatch r s.journalId s.maxPendingEffects
        = .ok (db₁, b)
      ∧ prepare b = .ok (n, m) ∧ (db'.manifest m.restoreKey).isSome := by
  have h := then_ok h
  obtain ⟨known, -, h⟩ := bind_ok h
  dsimp only at h
  split at h
  · cases h
  · obtain ⟨⟨db₁, b⟩, himport, h⟩ := bind_ok h
    obtain ⟨⟨n, m⟩, hprepare, h⟩ := bind_ok h
    have h := then_ok h
    obtain ⟨-, h⟩ := guard_ok h
    obtain ⟨⟨db₂, id⟩, hinsert, h⟩ := bind_ok h
    obtain ⟨db₃, hsave, h⟩ := bind_ok h
    obtain ⟨db₄, hretain, h⟩ := bind_ok h
    cases h
    refine ⟨db₁, b, n, m, himport, hprepare, ?_⟩
    have hdb₁ := (importBatch_ok himport hdb).1
    have hdb₂ := (Keeps.insertSnapshot (c := ⟨(· = n), fun _ => False⟩) rfl
      hinsert hdb₁).1
    have hdb₃ := (Keeps.saveIn (c := .none) hsave hdb₂).1
    exact (Keeps.retainSnapshots hretain).manifest_isSome hdb₃
      (saveIn_isSome (m := { m with snapshotId := id }) hsave)

theorem saveIn_read (hdb : db.Sound) (h : db.saveIn m = .ok db') :
    ∃ s ∈ db.snapshots, ∃ body ∈ db.payloads,
      s.snapshotId = m.snapshotId ∧ body.payloadId = s.payloadId
        ∧ db'.readManifest (m.row (db.lastPayload + 1)) = .ok
          ⟨m.incarnation, m.runtimeEpoch, m.sequence,
            ⟨s.snapshotId, ⟨some s.batchId, db.headsAt s.batchId⟩,
              s.modelVersion, body.bytes⟩, m.view⟩ := by
  obtain ⟨hdb', hlater⟩ := Keeps.saveIn (c := .none) h hdb
  have hrow := Table.find_mem (saveIn_manifest h)
  obtain ⟨-, s, hs, hid, -, db₁, view, db₂, hinsert, hpins, heq⟩ := saveIn_ok h
  obtain ⟨rfl, -, heq₁⟩ := insertPayload_ok hinsert
  obtain ⟨heq₂, -⟩ := replaceHolder_ok hpins
  have hnew : (⟨db.lastPayload + 1, Sha256.digest m.view, m.view⟩ : PayloadRow)
      ∈ db'.payloads := by
    rw [heq, heq₂, heq₁]
    exact mem_append_right _ (mem_singleton_self _)
  obtain ⟨s', hs', body', hbody', view', hview', hid', hbodyId', hviewId', -,
    hread⟩ := readManifest_mem hdb' hrow
  -- the snapshot and its body are those from before, the view is the new one
  cases hlater.snapshot_eq hdb hs hs' (hid'.trans hid.symm)
  cases hdb'.payloads.unique.eq_of_key hview' hnew hviewId'
  obtain ⟨body, hbody, hbodyId⟩ := hdb.pins _ (hdb.bodies s hs)
  cases hlater.payload_eq hdb hbody hbody' (hbodyId'.trans hbodyId.symm)
  obtain ⟨b, hb, hbatch⟩ := hdb.cuts s hs
  have hle : s.batchId ≤ db.lastBatch := hbatch ▸ (hdb.batches.bounds b hb).2
  refine ⟨s, hs, body', hbody, hid, hbodyId, ?_⟩
  rw [hread, hlater.headsAt_eq hle]
  rfl

theorem freezeRestoreAlias_read (hdb : db.Sound)
    {sourceKey : String} {requestDigest : Bytes} {selected : RestoreManifest}
    (h : s.freezeRestoreAlias db epoch key sourceKey requestDigest
      = .ok (db', selected)) :
    db'.isFrozen key = true ∧ db'.readIn key = .ok (some selected) := by
  rcases freezeRestoreAlias_ok h with ⟨rfl, hfrozen, hread⟩ |
    ⟨db₁, hsource, hsave, rfl⟩
  · exact ⟨hfrozen, hread⟩
  · refine ⟨any_eq_true.2 ⟨_, mem_append_right _
      (mem_singleton_self _), decide_eq_true rfl⟩, ?_⟩
    have hm := saveIn_manifest hsave
    have hdb₁ := (Keeps.saveIn (c := .none) hsave hdb).1
    obtain ⟨hdb₂, hlater⟩ := Keeps.freeze (c := .none)
      (a := ⟨key, sourceKey, requestDigest⟩) (saveIn_isSome hsave) hdb₁
    obtain ⟨t, ht, body, hbody, hid, hbodyId, hread⟩ := saveIn_read hdb hsave
    -- what the source was read with
    unfold Database.readIn at hsource
    split at hsource
    · cases hsource
    · rename_i source hfind
      obtain ⟨r, hr, hsource⟩ := bind_ok hsource
      cases hsource
      obtain ⟨t₀, ht₀, body₀, hbody₀, view₀, hview₀, hid₀, hbodyId₀, -, -,
        hread₀⟩ := readManifest_mem hdb (Table.find_mem hfind)
      rw [hread₀] at hr
      cases hr
      cases hdb.snapshots.unique.eq_of_key ht ht₀ hid
      cases hdb.payloads.unique.eq_of_key hbody hbody₀
        (hbodyId.trans hbodyId₀.symm)
      refine readIn_eq (m := _) hm ?_
      rw [hlater.readManifest_eq hdb₁ hdb₂ (Table.find_mem hm)
        (Table.find_mem hm), hread]

/-- A manifest whose saving succeeds is stored, and an alias that is frozen
is read as its source is. -/
structure EventStore.Stores (s : EventStore) (db : Database) : Prop where
  manifest : ∀ epoch m db', s.saveRestoreManifest db epoch m = .ok db' →
    (db'.manifest m.restoreKey).isSome
  checkpoint : ∀ epoch n m db' id,
    s.saveRestoreCheckpoint db epoch n m = .ok (db', id) →
      (db'.manifest m.restoreKey).isSome
  imported : ∀ r prepare db' batch,
    s.commitWithRestoreCheckpoint db r prepare
        = .ok (db', .committed batch) →
      ∃ db₁ b n m, db.importBatch r s.journalId s.maxPendingEffects
          = .ok (db₁, b)
        ∧ prepare b = .ok (n, m) ∧ (db'.manifest m.restoreKey).isSome
  frozen : ∀ epoch key sourceKey requestDigest db' selected,
    s.freezeRestoreAlias db epoch key sourceKey requestDigest
        = .ok (db', selected) →
      db'.isFrozen key = true ∧ db'.readIn key = .ok (some selected)

theorem Database.Sound.stores (h : db.Sound) : s.Stores db where
  manifest := fun _ _ _ hok => saveIn_isSome (then_ok hok)
  checkpoint := fun _ _ _ _ _ hok => saveRestoreCheckpoint_stores h hok
  imported := fun _ _ _ _ hok => commitWithRestoreCheckpoint_stores h hok
  frozen := fun _ _ _ _ _ _ hok => freezeRestoreAlias_read h hok

end Stored

/-- At any store that acts lead to, what is saved is stored; and from there
on, as long as it is not deleted, a stored manifest is read with all that it
needs, and a frozen one as it was. -/
theorem restore_manifests_stay_readable {st st' : Store} {key : String}
    (hreached : Store.empty.Run Anything st)
    (hrun : st.Run (Spares key) st') :
    (∀ s : EventStore, s.Stores st.journal.db)
      ∧ ((st.journal.db.manifest key).isSome →
        ∃ r, st'.journal.db.Readable key r
          ∧ (st.journal.db.isFrozen key = true →
            st.journal.db.readIn key = .ok (some r))) := by
  have hst := Store.Sound.empty.run hreached
  have hst' := hst.run hrun
  obtain ⟨hstored, hfrozen⟩ := hst.spared hrun
  refine ⟨fun _ => hst.tables.stores, fun hkey => ?_⟩
  obtain ⟨r, hr⟩ := hst'.tables.readable (hstored hkey)
  refine ⟨r, hr, fun hf => ?_⟩
  rw [← (hfrozen hf).2]
  exact hr.read

-- ==== samples

section Samples

def spares (key : String) (s : EventStore) (st : Store) (a : Act) : Bool :=
  a.deleted s st.journal.db ≠ some key

omit [Sha256] in
theorem spares_iff (key : String) (s : EventStore) (st : Store) (a : Act)
    (h : spares key s st a = true) : Spares key s st a :=
  of_decide_eq_true (p := a.deleted s st.journal.db ≠ some key) h

/-- A slot is saved, and an alias of it is frozen. -/
def freezingActs : List Act :=
  [.call .acquireWriter, sampleCommit "a",
    .maintain (.saveRestoreCheckpoint 1 ⟨1, 1, [0], []⟩
      ⟨"slot", 1, 1, 1, 0, [7], []⟩),
    .maintain (.freezeRestoreAlias 1 "alias" "slot" [1])]

/-- The slot is saved again, and deleted. -/
def replacingActs : List Act :=
  [sampleCommit "b",
    .maintain (.saveRestoreCheckpoint 1 ⟨2, 1, [0, 0], []⟩
      ⟨"slot", 1, 1, 2, 0, [8], []⟩),
    .maintain (.deleteRestoreManifest 1 "slot" 1),
    .maintain (.gcPayloads 1)]

def frozenStore : Store :=
  @Store.play sampleSum sampleStore .empty freezingActs

def replacedStore : Store :=
  @Store.play sampleSum sampleStore frozenStore replacingActs

omit [Sha256] in
theorem restore_manifests_stay_readable_frozen :
    (replacedStore.journal.db.manifest "slot").isNone
      ∧ ∃ r, @Database.Readable sampleSum replacedStore.journal.db "alias" r
        ∧ @Database.readIn sampleSum frozenStore.journal.db "alias"
          = .ok (some r) := by
  have hreached := @Store.run_play sampleSum Anything (fun _ _ _ => true)
    (fun _ _ _ _ => trivial) sampleStore .empty freezingActs (by decide)
  have hrun := @Store.run_play sampleSum _ _
    (spares_iff "alias") sampleStore frozenStore replacingActs
    (by decide)
  obtain ⟨r, hr, hfrozen⟩ :=
    (@restore_manifests_stay_readable sampleSum _ _ _ hreached hrun).2
      (by decide)
  exact ⟨by decide, r, hr, hfrozen (by decide)⟩

end Samples

end Tasty.Journal
