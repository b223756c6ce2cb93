/-
What the statements on restore manifests keep: a manifest is published with
the pins of all that it needs, moves to another snapshot only after that is
pinned, and is deleted together with its own pins.
-/
import Tasty.Journal.Upkeep

namespace Tasty.Journal

open Table List

variable [Sha256] {db db' : Database} {c : Changes}

-- ==== publishing

omit [Sha256] in
theorem snapshotRow_ok {id : SnapshotId} {s : SnapshotRow}
    (h : db.snapshotRow id = .ok s) : s ∈ db.snapshots ∧ s.snapshotId = id := by
  obtain ⟨id', hid, hrow⟩ := bind_ok h
  obtain ⟨rfl, -⟩ := toI64_ok hid
  split at hrow
  · cases hrow
  · rename_i hfind
    cases hrow
    exact ⟨find_mem hfind, find_key hfind⟩

omit [Sha256] in
theorem requireCursor_ok {batch : BatchId}
    (h : db.requireCursor (some batch) = .ok ()) :
    ∀ floor, db.floor = some floor → floor ≤ batch := by
  intro floor hfloor
  unfold Database.requireCursor at h
  rw [hfloor] at h
  obtain ⟨hge, -⟩ := guard_ok h
  exact Nat.not_lt.1 fun hlt => hge (decide_eq_true hlt)

theorem saveIn_ok {m : NewRestoreManifest} (h : db.saveIn m = .ok db') :
    db.isFrozen m.restoreKey = false
      ∧ ∃ s ∈ db.snapshots, s.snapshotId = m.snapshotId
        ∧ (∀ floor, db.floor = some floor → floor ≤ s.batchId)
        ∧ ∃ db₁ view db₂, db.insertPayload m.view = .ok (db₁, view)
          ∧ db₁.replaceHolder (manifestHolder m.restoreKey)
            (m.referencedPayloads ++ [s.payloadId, view]) = .ok db₂
          ∧ db' = { db₂ with
              manifests := Table.upsert ManifestRow.restoreKey (m.row view)
                db₂.manifests
              manifestRefs := db'.manifestRefs } := by
  have h := then_ok h
  obtain ⟨_, hfrozen, h⟩ := bind_ok h
  obtain ⟨_, -, h⟩ := bind_ok h
  obtain ⟨_, -, h⟩ := bind_ok h
  obtain ⟨_, -, h⟩ := bind_ok h
  have h := then_ok h
  obtain ⟨s, hs, h⟩ := bind_ok h
  have h := then_ok h
  obtain ⟨_, hcursor, h⟩ := bind_ok h
  have h := then_ok h
  obtain ⟨⟨db₁, view⟩, hview, h⟩ := bind_ok h
  obtain ⟨db₂, hpins, h⟩ := bind_ok h
  cases h
  obtain ⟨hs, hid⟩ := snapshotRow_ok hs
  exact ⟨reject_ok hfrozen, s, hs, hid, requireCursor_ok hcursor,
    db₁, view, db₂, hview, hpins, rfl⟩

variable {key : String}

omit [Sha256] in
theorem isFrozen_of_eq {key' : String} (h : db.isFrozen key = true)
    (h' : db.isFrozen key' = false) : key' ≠ key := by
  rintro rfl
  rw [h] at h'
  cases h'

theorem Keeps.saveIn {m : NewRestoreManifest} (h : db.saveIn m = .ok db') :
    Keeps c db db' := by
  obtain ⟨hfrozen, s, hs, hid, hfloor, db₁, view, db₂, hview, hpins, heq⟩ :=
    saveIn_ok h
  intro h
  obtain ⟨h₁, hlater⟩ := Keeps.insertPayload (c := c) hview h
  obtain ⟨hview, -, heq₁⟩ := insertPayload_ok hview
  obtain ⟨heq₂, hkept, hthere, hrefs⟩ := replaceHolder_ok hpins
  have hs₁ : s ∈ db₁.snapshots := by rw [heq₁]; exact hs
  have hfloor₁ : ∀ floor, db₁.floor = some floor → floor ≤ s.batchId := by
    rw [heq₁]
    exact hfloor
  have hfrozen₁ : db₁.isFrozen m.restoreKey = false := by
    rw [heq₁]
    exact hfrozen
  have hbody := hrefs s.payloadId (by simp)
  have hpin := hrefs view (by simp)
  -- the view is a payload after those of the snapshots
  have hfresh : ∀ s' ∈ db₁.snapshots, view ≠ s'.payloadId := by
    intro s' hs'
    rw [heq₁] at hs'
    obtain ⟨row, hrow, hid⟩ := h.pins _ (h.bodies s' hs')
    have hle := (h.payloads.bounds row hrow).2
    rw [hid] at hle
    rw [hview]
    exact Nat.ne_of_gt (Nat.lt_succ_of_le hle)
  rw [heq₂] at heq
  constructor
  · rw [heq]
    exact
      { h₁ with
        pins := fun p hp => by
          rcases hthere p hp with hp | hrow
          · exact h₁.pins p hp
          · exact hrow
        bodies := fun s hs => hkept _ (h₁.bodies s hs)
          (manifest_ne_snapshot _ _).symm
        keys := h₁.keys.upsert _
        manifests := fun m' hm' => by
          rcases mem_upsert.1 hm' with rfl | ⟨hm', hne⟩
          · exact ⟨s, hs₁, hid, hfloor₁, hbody, hpin⟩
          · obtain ⟨s', hs', hid', hfloor', hbody', hview'⟩ :=
              h₁.manifests m' hm'
            have hholder : manifestHolder m'.restoreKey
                ≠ manifestHolder m.restoreKey :=
              fun heq => hne (manifestHolder_inj heq)
            exact ⟨s', hs', hid', hfloor', hkept _ hbody' hholder,
              hkept _ hview' hholder⟩
        views := fun m' hm' s' hs' => by
          rcases mem_upsert.1 hm' with rfl | ⟨hm', -⟩
          · exact hfresh s' hs'
          · exact h₁.views m' hm' s' hs'
        frozen := fun a ha => by
          obtain ⟨m', hm', hkey⟩ := h₁.frozen a ha
          by_cases hsame : m'.restoreKey = m.restoreKey
          · exact ⟨_, mem_upsert.2 (.inl rfl), hsame.symm.trans hkey⟩
          · exact ⟨m', mem_upsert.2 (.inr ⟨hm', hsame⟩), hkey⟩ }
  · refine hlater.trans ?_
    rw [heq]
    exact
      { Later.refl c db₁ with
        snapshots := fun _ hs => .inl hs
        stored := fun key _ hsome => by
          unfold Database.manifest
          rw [find_upsert]
          split
          · rfl
          · exact hsome
        frozen := fun key _ hkey => by
          refine ⟨hkey, ?_⟩
          unfold Database.manifest
          rw [find_upsert, if_neg]
          exact isFrozen_of_eq hkey hfrozen₁ }

theorem Keeps.freeze {a : AliasInputRow}
    (hm : (db.manifest a.restoreKey).isSome) :
    Keeps c db { db with aliasInputs := db.aliasInputs ++ [a] } := by
  intro h
  constructor
  · exact
      { h with
        manifests := h.manifests
        frozen := fun a' ha' => by
          rcases mem_append.1 ha' with ha' | ha'
          · exact h.frozen a' ha'
          · obtain ⟨m, hm⟩ := Option.isSome_iff_exists.1 hm
            rw [mem_singleton.1 ha']
            exact ⟨m, find_mem hm, find_key hm⟩ }
  · exact
      { Later.refl c db with
        snapshots := fun _ hs => .inl hs
        frozen := fun key _ hkey => by
          refine ⟨?_, rfl⟩
          unfold Database.isFrozen at hkey ⊢
          rw [any_append, hkey, Bool.true_or] }

-- ==== rebasing

omit [Sha256] in
theorem rebaseRow_mem {id : SnapshotId} {s : SnapshotRow}
    (h : db.rebaseRow id = .ok s) : s ∈ db.snapshots := by
  obtain ⟨id', -, hrow⟩ := bind_ok h
  split at hrow
  · cases hrow
  · rename_i hfind
    cases hrow
    exact find_mem hfind

theorem Keeps.moveManifest {source target : SnapshotRow}
    (hsource : source ∈ db.snapshots) (htarget : target ∈ db.snapshots)
    (hfloor : ∀ floor, db.floor = some floor → floor ≤ target.batchId)
    (hfrozen : db.isFrozen key = false)
    (h : db.moveManifest key source target = .ok db') : Keeps c db db' := by
  obtain ⟨db₁, hpin, h⟩ := bind_ok h
  obtain ⟨heq₁, hrow⟩ := pin_ok hpin
  -- only the pin of the old body may be released
  obtain ⟨pins, heq, hthere, hkept⟩ : ∃ pins,
      db' = { db with
        pins := pins
        manifests := Table.update (fun m => m.restoreKey = key)
          (fun m => { m with snapshotId := target.snapshotId })
          db.manifests }
      ∧ (∀ p ∈ pins, p ∈ db₁.pins)
      ∧ ∀ p ∈ db₁.pins, p ∈ pins ∨ p.holder = manifestHolder key
        ∧ p.payloadId = source.payloadId
        ∧ source.payloadId ≠ target.payloadId := by
    dsimp only at h
    cases h
    split
    · rename_i hmoved
      refine ⟨_, by rw [heq₁], fun p hp => (mem_delete.1 hp).1, ?_⟩
      intro p hp
      by_cases hold : p.holder = manifestHolder key
          ∧ p.payloadId = source.payloadId
      · exact .inr ⟨hold.1, hold.2, hmoved.1⟩
      · refine .inl (mem_delete.2 ⟨hp, ?_⟩)
        simpa using hold
    · exact ⟨_, by rw [heq₁], fun _ hp => hp, fun _ hp => .inl hp⟩
  have hpin₁ : ∀ p, p ∈ db₁.pins
      ↔ p ∈ db.pins ∨ p = ⟨target.payloadId, manifestHolder key⟩ := by
    intro p
    rw [heq₁]
    exact mem_insertOrIgnore
  intro h
  have hother : ∀ p ∈ db.pins, p.holder ≠ manifestHolder key → p ∈ pins := by
    intro p hp hne
    rcases hkept p ((hpin₁ p).2 (.inl hp)) with hp | ⟨heq, -⟩
    · exact hp
    · exact absurd heq hne
  have hfind : ∀ key', db'.manifest key' = (db.manifest key').map fun m =>
      if decide (m.restoreKey = key) = true then
        { m with snapshotId := target.snapshotId } else m := by
    intro key'
    rw [heq]
    exact find_update key' db.manifests fun _ _ => rfl
  rw [heq] at hfind ⊢
  constructor
  · exact
      { h with
        pins := fun p hp => by
          rcases (hpin₁ p).1 (hthere p hp) with hp | rfl
          · exact h.pins p hp
          · exact hrow
        bodies := fun s hs => hother _ (h.bodies s hs)
          (manifest_ne_snapshot _ _).symm
        keys := h.keys.update fun _ _ _ => rfl
        manifests := fun m hm => by
          rcases mem_update.1 hm with ⟨hm, hne⟩ | ⟨m₀, hm₀, hkey, rfl⟩
          · obtain ⟨s, hs, hid, hle, hbody, hview⟩ := h.manifests m hm
            have hholder : manifestHolder m.restoreKey
                ≠ manifestHolder key :=
              fun heq => of_decide_eq_false hne (manifestHolder_inj heq)
            exact ⟨s, hs, hid, hle, hother _ hbody hholder,
              hother _ hview hholder⟩
          · have hkey : m₀.restoreKey = key := of_decide_eq_true hkey
            obtain ⟨-, -, -, -, -, hview⟩ := h.manifests m₀ hm₀
            refine ⟨target, htarget, rfl, hfloor, ?_, ?_⟩
            · show _ ∈ pins
              rcases hkept _ ((hpin₁ _).2 (.inr rfl)) with hp | ⟨-, heq, hne⟩
              · rw [hkey]
                exact hp
              · exact absurd heq.symm hne
            · show _ ∈ pins
              rcases hkept _ ((hpin₁ _).2 (.inl hview)) with hp | ⟨-, heq, -⟩
              · exact hp
              · exact absurd heq (h.views m₀ hm₀ source hsource)
        views := fun m hm s hs => by
          rcases mem_update.1 hm with ⟨hm, -⟩ | ⟨m₀, hm₀, -, rfl⟩
          · exact h.views m hm s hs
          · exact h.views m₀ hm₀ s hs
        frozen := fun a ha => by
          obtain ⟨m, hm, hkey⟩ := h.frozen a ha
          by_cases hsame : m.restoreKey = key
          · exact ⟨_, mem_update.2
              (.inr ⟨m, hm, decide_eq_true hsame, rfl⟩), hkey⟩
          · exact ⟨m, mem_update.2 (.inl ⟨hm, decide_eq_false hsame⟩), hkey⟩ }
  · exact
      { Later.refl c db with
        snapshots := fun _ hs => .inl hs
        stored := fun key' _ hsome => by
          rw [hfind, Option.isSome_map]
          exact hsome
        frozen := fun key' _ hkey => by
          refine ⟨hkey, (hfind key').trans ?_⟩
          cases hm : db.manifest key' with
          | none => rfl
          | some m =>
            have hne : m.restoreKey ≠ key := fun heq =>
              isFrozen_of_eq hkey hfrozen (heq.symm.trans (find_key hm))
            rw [Option.map_some, if_neg (by simpa using hne)] }

-- ==== deletion

theorem Keeps.deleteManifest {incarnation : Nat}
    {refs : List ManifestRefRow} (hkey : c.deleted key)
    (hsome : db.manifests.any (fun m => m.restoreKey = key
      && m.incarnation = incarnation) = true) :
    Keeps c db { db with
      manifests := Table.delete (fun m => m.restoreKey = key
        && m.incarnation = incarnation) db.manifests
      manifestRefs := refs
      aliasInputs := Table.delete (fun a => a.restoreKey = key) db.aliasInputs
      pins := Table.delete (fun p => p.holder = manifestHolder key)
        db.pins } := by
  intro h
  obtain ⟨m₀, hm₀, hit⟩ := any_eq_true.1 hsome
  obtain ⟨hkey₀, hincarnation⟩ := Bool.and_eq_true_iff.1 hit
  have hkey₀ : m₀.restoreKey = key := of_decide_eq_true hkey₀
  -- the row that is deleted is the only one of its key
  have hne : ∀ m ∈ Table.delete (fun m => decide (m.restoreKey = key)
      && decide (m.incarnation = incarnation)) db.manifests,
      m ∈ db.manifests ∧ m.restoreKey ≠ key := by
    intro m hm
    obtain ⟨hm, hnot⟩ := mem_delete.1 hm
    refine ⟨hm, fun heq => ?_⟩
    rw [h.keys.eq_of_key hm hm₀ (heq.trans hkey₀.symm), hit] at hnot
    cases hnot
  have hpin : ∀ p ∈ db.pins, p.holder ≠ manifestHolder key →
      p ∈ Table.delete (fun p => p.holder = manifestHolder key) db.pins :=
    fun p hp hne => mem_delete.2 ⟨hp, decide_eq_false hne⟩
  have hmem : ∀ m ∈ db.manifests, m.restoreKey ≠ key →
      m ∈ Table.delete (fun m => decide (m.restoreKey = key)
        && decide (m.incarnation = incarnation)) db.manifests := by
    intro m hm hne
    refine mem_delete.2 ⟨hm, ?_⟩
    rw [decide_eq_false hne, Bool.false_and]
  constructor
  · exact
      { h with
        pins := fun p hp => h.pins p (mem_delete.1 hp).1
        bodies := fun s hs => hpin _ (h.bodies s hs)
          (manifest_ne_snapshot _ _).symm
        keys := h.keys.sublist (delete_sublist _ _)
        manifests := fun m hm => by
          obtain ⟨hm, hne⟩ := hne m hm
          obtain ⟨s, hs, hid, hfloor, hbody, hview⟩ := h.manifests m hm
          have hholder : manifestHolder m.restoreKey ≠ manifestHolder key :=
            fun heq => hne (manifestHolder_inj heq)
          exact ⟨s, hs, hid, hfloor, hpin _ hbody hholder, hpin _ hview hholder⟩
        views := fun m hm s hs => h.views m (hne m hm).1 s hs
        frozen := fun a ha => by
          obtain ⟨ha, hother⟩ := mem_delete.1 ha
          obtain ⟨m, hm, hsame⟩ := h.frozen a ha
          refine ⟨m, hmem m hm fun heq => ?_, hsame⟩
          exact of_decide_eq_false hother (hsame.symm.trans heq) }
  · have hfind : ∀ key', ¬ c.deleted key' →
        Table.find ManifestRow.restoreKey key'
          (Table.delete (fun m => decide (m.restoreKey = key)
            && decide (m.incarnation = incarnation)) db.manifests)
        = db.manifest key' := by
      intro key' hkept
      have hne : key' ≠ key := fun heq => hkept (heq ▸ hkey)
      unfold Database.manifest Table.find Table.delete
      rw [List.find?_filter]
      congr 1
      funext m
      by_cases hm : m.restoreKey = key'
      · simp [hm, hne]
      · simp [hm]
    exact
      { Later.refl c db with
        snapshots := fun _ hs => .inl hs
        stored := fun key' hkept hsome => by
          unfold Database.manifest
          rw [hfind key' hkept]
          exact hsome
        frozen := fun key' hkept hfrozen => by
          refine ⟨?_, hfind key' hkept⟩
          obtain ⟨a, ha, hit⟩ := any_eq_true.1 hfrozen
          have hit' : a.restoreKey = key' := of_decide_eq_true hit
          refine any_eq_true.2 ⟨a, mem_delete.2 ⟨ha, ?_⟩, hit⟩
          exact decide_eq_false fun heq =>
            hkept (hit'.symm.trans heq ▸ hkey) }

end Tasty.Journal
