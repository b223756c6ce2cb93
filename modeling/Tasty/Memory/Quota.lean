/-
The quota of the regular entries over whole runs: what is live never takes
more bytes than it allows. Expired rows are not counted, and a put that would
go beyond the quota is refused.
-/
import Tasty.Memory.Expiry

namespace Tasty.Memory

open Table (Unique)
open MemoryStore

variable {rows rows' : List Row} {new : Row} {now t : Int}

-- ==== the bytes of some of the rows

theorem usedBytes_sublist (h : rows.Sublist rows') :
    usedBytes rows ≤ usedBytes rows' := by
  induction h with
  | slnil => exact Int.le_refl 0
  | cons r _ ih =>
    rw [usedBytes]
    omega
  | cons_cons r _ ih =>
    rw [usedBytes, usedBytes]
    omega

/-- A write leaves the rows of other keys. -/
theorem others_writeRow (existing : Option Row) (expired : Bool) :
    ((writeRow Row.place new existing expired rows).2.filter fun r =>
        !decide (r.place = new.place))
      = rows.filter fun r => !decide (r.place = new.place) := by
  cases existing with
  | some old =>
    show (Table.update _ _ rows).filter _ = _
    rw [Table.filter_update (f := new.overwrite _) fun _ _ _ => rfl]
    refine Table.update_of_none fun r hr => ?_
    simpa using (List.mem_filter.1 hr).2
  | none =>
    cases expired with
    | false => simp [writeRow]
    | true => simp [writeRow, Table.delete]

/-- What is live after a write. -/
theorem usedBytes_writeRow (h : Unique Row.place rows) :
    let written := writeRow Row.place new
      ((Table.find Row.place new.place rows).filter fun r =>
        !r.isExpired now)
      ((Table.find Row.place new.place rows).any (Row.isExpired now)) rows
    usedBytes (live now written.2)
      ≤ usedBytes ((live now rows).filter fun r =>
          !decide (r.place = new.place)) + new.value.length := by
  intro written
  obtain ⟨-, hbytes⟩ := writeRow_keeps new h (fun _ _ => rfl)
    (rfl : _ = (Table.find Row.place new.place rows).filter fun r =>
      !r.isExpired now)
  have hothers : written.2.filter _ = _ := others_writeRow _ _
  have hold := usedBytes_split (fun r => r.place = new.place) rows
  have hnew := usedBytes_split (fun r => r.place = new.place) written.2
  have hlive :=
    usedBytes_split (fun r => r.place = new.place) (live now written.2)
  rw [usedBytes_place h] at hold
  rw [hothers] at hnew
  have hkey := usedBytes_sublist
    ((List.filter_sublist (p := fun r => !r.isExpired now)
      (l := written.2)).filter fun r => decide (r.place = new.place))
  have hcomm (rows : List Row) :
      (live now rows).filter (fun r => !decide (r.place = new.place))
        = live now (rows.filter fun r => !decide (r.place = new.place)) :=
    (live_delete now (fun r => decide (r.place = new.place)) rows).symm
  rw [hcomm, hothers, ← hcomm] at hlive
  change usedBytes ((live now written.2).filter _) ≤ _ at hkey
  change usedBytes written.2 = _ at hbytes
  omega

-- ==== the calls

/-- What is live takes no more than the quota. -/
def WithinQuota (now : Int) (s : MemoryStore) : Prop :=
  usedBytes (live now s.memory) ≤ s.config.regularQuotaTotalBytes

variable {layer : ValueText} {env : Env} {s s' : MemoryStore}

theorem WithinQuota.later (h : WithinQuota now s) (hle : now ≤ t) :
    WithinQuota t s := by
  unfold WithinQuota at h ⊢
  rw [← live_live hle]
  exact (usedBytes_sublist List.filter_sublist).trans h

theorem WithinQuota.wrote (h : WithinQuota now s) (hs : s.Faithful)
    (hwrote : Wrote now s s') : WithinQuota now s' := by
  cases hwrote with
  | refl => exact h
  | put hquota =>
    rw [checkRegularQuota_eq hs.unique hs.counted] at hquota
    obtain ⟨hle, -⟩ := guard_ok hquota
    refine (usedBytes_writeRow hs.unique).trans ?_
    dsimp only
    omega
  | putSecret => exact h
  | deleted hmemory =>
    exact (usedBytes_sublist (hmemory.filter _)).trans h

-- ==== whole runs

/-- In a run whose clock does not run back, and that starts within the quota,
the live entries are within it before and after each call. -/
theorem live_within_quota {start : Int} {calls : List Call}
    (hs : s.Faithful) (h : WithinQuota start s)
    (hclock : Nondecreasing start calls) :
    ∀ d ∈ trace layer s calls, WithinQuota d.env.now d.store
      ∧ WithinQuota d.env.now (d.store.step layer d.env d.op).1 := by
  induction calls generalizing s start with
  | nil => exact fun d hd => nomatch hd
  | cons call calls ih =>
    obtain ⟨env, op⟩ := call
    obtain ⟨hle, hrest⟩ := hclock.head
    have hnow := h.later hle
    have hstep := hnow.wrote hs (@step_wrote layer env s op)
    have hafter := ih (step_faithful hs op) hstep hrest
    intro d hd
    rw [trace] at hd
    split at hd
    · exact hafter d hd
    · rcases List.mem_cons.1 hd with rfl | hd
      · exact ⟨hnow, hstep⟩
      · exact hafter d hd

/-- A quota of one byte, taken again after the entry in it has expired. -/
theorem live_within_quota_expired :
    ∃ d ∈ trace noJson (.prepare { roomy with regularQuotaTotalBytes := 1 }
      [] []) purgedCalls, WithinQuota d.env.now d.store
        ∧ WithinQuota d.env.now (d.store.step noJson d.env d.op).1 := by
  have hclock : Nondecreasing 0 purgedCalls := by
    unfold Nondecreasing
    decide
  refine ⟨_, List.mem_of_getElem? (i := 1) rfl, ?_⟩
  exact live_within_quota ⟨.nil, .nil, rfl⟩ (Int.le.intro 1 rfl) hclock _
    (List.mem_of_getElem? (i := 1) rfl)

end Tasty.Memory
