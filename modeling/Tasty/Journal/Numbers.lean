/-
The numbers of rows over whole runs: a number names one row for ever, also
when that row is collected, and what is pinned is read with the bytes that it
was read with before.
-/
import Tasty.Journal.Readable

namespace Tasty.Journal

/-- Any changes. -/
def Changes.any : Changes := ⟨fun _ => True, fun _ => True⟩

theorem Later.any {c : Changes} {db db' : Database} (h : Later c db db') :
    Later .any db db' :=
  { h with
    snapshots := fun s hs => by
      rcases h.snapshots s hs with hold | ⟨hlt, hle, n, -, hn⟩
      · exact .inl hold
      · exact .inr ⟨hlt, hle, n, trivial, hn⟩
    stored := fun _ hkey => absurd trivial hkey
    frozen := fun _ hkey => absurd trivial hkey }

/-- A row that has the number of an earlier row is that row, and it was there
all the time between. -/
def NamesOnce {ρ : Type} (number : ρ → Nat) (rows rows₁ rows' : List ρ) :
    Prop :=
  ∀ r ∈ rows, ∀ r' ∈ rows', number r' = number r → r' = r ∧ r ∈ rows₁

theorem namesOnce {ρ : Type} {number : ρ → Nat} {last last₁ : Nat}
    {rows rows₁ rows' : List ρ} (h : Table.Numbered number last rows)
    (hle : last ≤ last₁) (h₁ : ∀ r ∈ rows₁, r ∈ rows ∨ last < number r)
    (h' : ∀ r ∈ rows', r ∈ rows₁ ∨ last₁ < number r) :
    NamesOnce number rows rows₁ rows' := by
  intro r hr r' hr' hnumber
  have hlast := (h.bounds r hr).2
  have hmid := (h' r' hr').resolve_right (by omega)
  have hold := (h₁ r' hmid).resolve_right (by omega)
  cases h.unique.eq_of_key hold hr hnumber
  exact ⟨rfl, hmid⟩

theorem Later.batch {c : Changes} {db db' : Database} (h : Later c db db') :
    ∀ b ∈ db'.batches, b ∈ db.batches ∨ db.lastBatch < b.batchId := by
  obtain ⟨rows, hrows, hlt⟩ := h.batches
  intro b hb
  rw [hrows] at hb
  exact (List.mem_append.1 hb).imp_right (hlt b)

section Runs

variable [Sha256] {st st₁ st' : Store}

theorem Store.Sound.later (h : st.Sound) (hrun : st.Run Anything st') :
    Later .any st.journal.db st'.journal.db := by
  induction hrun with
  | refl => exact .refl _ _
  | tail hrun hstep ih =>
    obtain ⟨s, a, -, rfl⟩ := hstep
    exact ih.trans ((h.run hrun).act s a).2.any

/-- No number of a payload, a snapshot or a batch is used again in any run,
and a row never returns that is gone. -/
theorem numbers_name_once (hreached : Store.empty.Run Anything st)
    (hrun : st.Run Anything st₁) (hrun' : st₁.Run Anything st') :
    NamesOnce PayloadRow.payloadId st.journal.db.payloads
        st₁.journal.db.payloads st'.journal.db.payloads
      ∧ NamesOnce SnapshotRow.snapshotId st.journal.db.snapshots
        st₁.journal.db.snapshots st'.journal.db.snapshots
      ∧ NamesOnce BatchRow.batchId st.journal.db.batches
        st₁.journal.db.batches st'.journal.db.batches := by
  have hst := Store.Sound.empty.run hreached
  have h := hst.later hrun
  have h' := (hst.run hrun).later hrun'
  exact ⟨namesOnce hst.tables.payloads h.lastPayload h.payloads h'.payloads,
    namesOnce hst.tables.snapshots h.lastSnapshot
      (fun s hs => (h.snapshots s hs).imp_right (·.1))
      fun s hs => (h'.snapshots s hs).imp_right (·.1),
    namesOnce hst.tables.batches h.lastBatch h.batch h'.batch⟩

theorem readVerified_ok {db : Database} {id : PayloadRef} {bytes : Bytes}
    (h : db.readVerified id = .ok bytes) :
    ∃ p ∈ db.payloads, p.payloadId = id ∧ p.bytes = bytes := by
  obtain ⟨n, hn, h⟩ := bind_ok h
  obtain ⟨rfl, -⟩ := toI64_ok hn
  split at h
  · cases h
  · rename_i p hfind
    obtain ⟨-, h⟩ := guard_ok h
    cases h
    exact ⟨p, Table.find_mem hfind, Table.find_key hfind, rfl⟩

/-- In any run what is pinned can be read, with the bytes that its number was
ever read with; and each snapshot has its body, what is pinned for it and the
cut that it was made at. -/
theorem pinned_reads_same (hreached : Store.empty.Run Anything st)
    (hrun : st.Run Anything st') :
    (∀ p ∈ st'.journal.db.pins, ∃ bytes,
      st'.journal.db.readVerified p.payloadId = .ok bytes
        ∧ ∀ bytes', st.journal.db.readVerified p.payloadId = .ok bytes' →
          bytes' = bytes)
      ∧ ∀ s ∈ st'.journal.db.snapshots,
        (∃ bytes, st'.journal.db.verifySnapshot s.snapshotId s.payloadId
          = .ok bytes) ∧ ∃ cut, st'.journal.db.cutAt s.batchId = .ok cut := by
  have hst := Store.Sound.empty.run hreached
  have hst' := hst.run hrun
  refine ⟨fun p hp => ?_, fun s hs => ?_⟩
  · obtain ⟨row, hrow, hid, hread⟩ := readVerified_pinned hst'.tables hp
    refine ⟨row.bytes, hread, fun bytes hbytes => ?_⟩
    obtain ⟨row₀, hrow₀, hid₀, rfl⟩ := readVerified_ok hbytes
    rw [(hst.later hrun).payload_eq hst.tables hrow₀ hrow (hid.trans hid₀.symm)]
  · obtain ⟨row, -, -, hverify⟩ := verifySnapshot_mem hst'.tables hs
    exact ⟨⟨_, hverify⟩, _, cutAt_mem hst'.tables hs⟩

end Runs

theorem frozen_reached : @Store.Run sampleSum Anything .empty frozenStore :=
  @Store.run_play sampleSum Anything (fun _ _ _ => true)
    (fun _ _ _ _ => trivial) sampleStore .empty freezingActs (by decide)

theorem frozen_replaced :
    @Store.Run sampleSum Anything frozenStore replacedStore :=
  @Store.run_play sampleSum Anything (fun _ _ _ => true)
    (fun _ _ _ _ => trivial) sampleStore frozenStore replacingActs
    (by decide)

theorem numbers_name_once_frozen :
    ∃ p ∈ frozenStore.journal.db.payloads,
      ∀ p' ∈ replacedStore.journal.db.payloads,
        p'.payloadId = p.payloadId → p' = p := by
  have h := (@numbers_name_once sampleSum _ _ _ frozen_reached .refl
    frozen_replaced).1
  exact ⟨_, List.mem_of_getElem? (i := 0) rfl, fun p' hp' hid =>
    (h _ (List.mem_of_getElem? (i := 0) rfl) p' hp' hid).1⟩

theorem pinned_reads_same_frozen :
    ∃ p ∈ replacedStore.journal.db.pins, ∃ bytes,
      @Database.readVerified sampleSum frozenStore.journal.db p.payloadId
          = .ok bytes
        ∧ @Database.readVerified sampleSum replacedStore.journal.db
          p.payloadId = .ok bytes := by
  have h := (@pinned_reads_same sampleSum _ _ frozen_reached
    frozen_replaced).1 _ (List.mem_of_getElem? (i := 0) rfl)
  obtain ⟨bytes, hread, hsame⟩ := h
  refine ⟨_, List.mem_of_getElem? (i := 0) rfl, bytes, ?_, hread⟩
  rw [← hsame _ rfl]
  rfl

end Tasty.Journal
