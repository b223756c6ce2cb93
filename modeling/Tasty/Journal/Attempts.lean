/-
The life of an effect: its attempts are numbered from one, only the last one
can be open, each is ended once by the transition that reports it, and one
whose end is not known is reconciled before the effect goes on.
-/
import Mathlib.Data.List.Range
import Tasty.Journal.Transitions

namespace Tasty.Journal

open List

variable {r : AttemptRow} {s s' : EffectState}

-- ==== one attempt

namespace AttemptRow

/-- The transition reports the end of the attempt. -/
def reportedBy (r : AttemptRow) (t : EffectTransition) : Bool :=
  t.effectId = r.effectId && t.source = .running
    && t.attempt = some r.attempt

/-- What is stored of the reports of an attempt. -/
def reports (r : AttemptRow) : List (EffectState × Option Bytes) :=
  (r.outcome.map fun s => (s, r.result)).toList

/-- It is under way. -/
def IsOpen (r : AttemptRow) : Prop :=
  r.outcome = none ∧ r.reconciledOutcome = none

/-- Its end is not known. -/
def IsUnknown (r : AttemptRow) : Prop :=
  r.outcome = some .uncertain ∧ r.reconciledOutcome = none

/-- Its end was not known, and was found out; that it was cancelled needs
evidence. -/
def IsReconciled (r : AttemptRow) : Prop :=
  r.outcome = some .uncertain
    ∧ (r.reconciledOutcome = some .succeeded
      ∨ r.reconciledOutcome = some .failed
      ∨ r.reconciledOutcome = some .cancelled ∧ r.reconciledResult ≠ none)

def IsEnded (r : AttemptRow) : Prop :=
  (r.outcome = some .succeeded ∨ r.outcome = some .failed)
      ∧ r.reconciledOutcome = none
    ∨ r.IsReconciled

/-- The last attempt of an effect in this state. -/
def Shows (r : AttemptRow) : EffectState → Prop
  | .running => r.IsOpen
  | .uncertain => r.IsUnknown
  | _ => r.IsEnded

theorem IsEnded.shows (h : r.IsEnded)
    (hrunning : s ≠ .running) (huncertain : s ≠ .uncertain) : r.Shows s := by
  cases s with
  | running => exact absurd rfl hrunning
  | uncertain => exact absurd rfl huncertain
  | _ => exact h

theorem Shows.ended (h : r.Shows s)
    (hrunning : s ≠ .running) (huncertain : s ≠ .uncertain) : r.IsEnded := by
  cases s with
  | running => exact absurd rfl hrunning
  | uncertain => exact absurd rfl huncertain
  | _ => exact h

end AttemptRow

/-- The states into which an attempt can end. -/
theorem target_of_running (hs : s = .running)
    (h : s.canTransitionTo s' = true) :
    s' = .succeeded ∨ s' = .failed ∨ s' = .uncertain := by
  subst hs
  cases s' <;> simp [EffectState.canTransitionTo] at h ⊢

theorem target_of_uncertain (hs : s = .uncertain)
    (h : s.canTransitionTo s' = true) :
    s' = .succeeded ∨ s' = .failed ∨ s' = .cancelled := by
  subst hs
  cases s' <;> simp [EffectState.canTransitionTo] at h ⊢

theorem not_attempt_of_begin (hs' : s' = .running)
    (h : s.canTransitionTo s' = true) : s ≠ .running ∧ s ≠ .uncertain := by
  subst hs'
  cases s <;> simp [EffectState.canTransitionTo] at h ⊢

theorem target_ne_uncertain (hs : s ≠ .running)
    (h : s.canTransitionTo s' = true) : s' ≠ .uncertain := by
  cases s <;> cases s' <;> simp [EffectState.canTransitionTo] at h hs ⊢

/-- The states that an effect does not leave. -/
def EffectState.isFinal : EffectState → Bool
  | succeeded | cancelled | superseded => true
  | _ => false

theorem not_final_of_transition
    (h : s.canTransitionTo s' = true) : s.isFinal = false := by
  cases s <;> cases s' <;>
    simp [EffectState.canTransitionTo, EffectState.isFinal] at h ⊢

-- ==== one effect

/-- The attempts of an effect, from the first one on. -/
structure Life (e : EffectRow) (rows : List AttemptRow) : Prop where
  numbered : rows.map AttemptRow.attempt = List.range' 1 e.attempt
  past : ∀ r ∈ rows, r.attempt ≠ e.attempt → r.IsEnded
  current : ∀ r ∈ rows, r.attempt = e.attempt → r.Shows e.state
  begun : e.state = .running ∨ e.state = .uncertain → 0 < e.attempt

namespace Life

variable {e : EffectRow} {rows : List AttemptRow}

variable (h : Life e rows)

include h

theorem attempt_le (hr : r ∈ rows) : 1 ≤ r.attempt ∧ r.attempt ≤ e.attempt := by
  have hmem := mem_map_of_mem (f := AttemptRow.attempt) hr
  rw [h.numbered, mem_range'_1] at hmem
  omega

theorem exists_current (hpos : 0 < e.attempt) :
    ∃ r ∈ rows, r.attempt = e.attempt := by
  have hmem : e.attempt ∈ rows.map AttemptRow.attempt := by
    rw [h.numbered, mem_range'_1]
    omega
  exact mem_map.1 hmem

/-- The numbers are those of the attempts, so that no two are the same. -/
theorem unique : Table.Unique AttemptRow.attempt rows := by
  unfold Table.Unique
  rw [h.numbered]
  exact nodup_range'

theorem open_current (hr : r ∈ rows) (hopen : r.outcome = none) :
    e.state = .running ∧ r.attempt = e.attempt := by
  have hnot : ¬ r.IsEnded := by
    intro hended
    rcases hended with ⟨hout, -⟩ | ⟨hout, -⟩
    · rw [hopen] at hout
      rcases hout with hout | hout <;> cases hout
    · rw [hopen] at hout
      cases hout
  have hcurrent : r.attempt = e.attempt := by
    by_contra hne
    exact hnot (h.past r hr hne)
  have hshows := h.current r hr hcurrent
  refine ⟨?_, hcurrent⟩
  by_contra hrunning
  by_cases huncertain : e.state = .uncertain
  · rw [huncertain] at hshows
    have hout : r.outcome = some .uncertain := hshows.1
    rw [hopen] at hout
    cases hout
  · exact hnot (hshows.ended hrunning huncertain)

/-- An attempt whose end was not known is reconciled, unless it is the
current one of an effect that is uncertain. -/
theorem reconciled (hr : r ∈ rows) (hout : r.outcome = some .uncertain)
    (hleft : ¬ (e.state = .uncertain ∧ r.attempt = e.attempt)) :
    r.IsReconciled := by
  have hended : r.IsEnded := by
    by_cases hcurrent : r.attempt = e.attempt
    · refine (h.current r hr hcurrent).ended ?_
        (fun huncertain => hleft ⟨huncertain, hcurrent⟩)
      intro hrunning
      have hopen := h.current r hr hcurrent
      rw [hrunning] at hopen
      have hnone : r.outcome = none := hopen.1
      rw [hout] at hnone
      cases hnone
    · exact h.past r hr hcurrent
  rcases hended with ⟨hknown, -⟩ | hreconciled
  · rw [hout] at hknown
    rcases hknown with hknown | hknown <;> cases hknown
  · exact hreconciled

variable {t : EffectTransition}

/-- The current attempt is written, and the effect gets another state. -/
theorem write {f : AttemptRow → AttemptRow}
    {e' : EffectRow} (hattempt : e'.attempt = e.attempt)
    (hf : ∀ r, (f r).attempt = r.attempt)
    (hshows : ∀ r ∈ rows, r.attempt = e.attempt → (f r).Shows e'.state)
    (hbegun : e'.state = .running ∨ e'.state = .uncertain → 0 < e.attempt) :
    Life e' (Table.update (fun r => r.attempt = e.attempt) f rows) := by
  refine ⟨?_, ?_, ?_, ?_⟩
  · rw [Table.map_update fun r _ _ => hf r, hattempt]
    exact h.numbered
  · intro r hr hne
    rcases Table.mem_update.1 hr with ⟨hr, -⟩ | ⟨r', hr', hcurrent, rfl⟩
    · exact h.past r hr (hattempt ▸ hne)
    · exact absurd ((hf r').trans (of_decide_eq_true hcurrent))
        (hattempt ▸ hne)
  · intro r hr heq
    rcases Table.mem_update.1 hr with ⟨hr, hcurrent⟩ | ⟨r', hr', hcurrent, rfl⟩
    · exact absurd (heq.trans hattempt) (of_decide_eq_false hcurrent)
    · exact hshows r' hr' (of_decide_eq_true hcurrent)
  · rw [hattempt]
    exact hbegun

theorem report (hstate : e.state = .running)
    (htarget : t.target = .succeeded ∨ t.target = .failed
      ∨ t.target = .uncertain) :
    Life (t.apply e.attempt e)
      (Table.update (fun r => r.attempt = e.attempt) t.report rows) := by
  refine h.write rfl (fun _ => rfl) ?_ fun _ => h.begun (.inl hstate)
  intro r hr hcurrent
  have hopen := h.current r hr hcurrent
  rw [hstate] at hopen
  show (t.report r).Shows t.target
  rcases htarget with htarget | htarget | htarget <;> rw [htarget]
  · refine .inl ⟨.inl ?_, hopen.2⟩
    rw [← htarget]
    rfl
  · refine .inl ⟨.inr ?_, hopen.2⟩
    rw [← htarget]
    rfl
  · refine ⟨?_, hopen.2⟩
    rw [← htarget]
    rfl

theorem reconcile (hstate : e.state = .uncertain)
    (htarget : t.target = .succeeded ∨ t.target = .failed
      ∨ t.target = .cancelled)
    (hevidence : t.target = .cancelled → t.result ≠ none) :
    Life (t.apply e.attempt e)
      (Table.update (fun r => r.attempt = e.attempt) t.reconcile rows) := by
  have hne : t.target ≠ .running ∧ t.target ≠ .uncertain := by
    rcases htarget with htarget | htarget | htarget <;> rw [htarget] <;> simp
  refine h.write rfl (fun _ => rfl) ?_ fun hbegun => ?_
  · intro r hr hcurrent
    have hunknown := h.current r hr hcurrent
    rw [hstate] at hunknown
    have hended : (t.reconcile r).IsEnded := .inr ⟨hunknown.1, ?_⟩
    · exact hended.shows hne.1 hne.2
    show some t.target = _ ∨ some t.target = _
      ∨ some t.target = _ ∧ t.result ≠ none
    rcases htarget with htarget | htarget | htarget
    · exact .inl (congrArg some htarget)
    · exact .inr (.inl (congrArg some htarget))
    · exact .inr (.inr ⟨congrArg some htarget, hevidence htarget⟩)
  · rcases hbegun with hbegun | hbegun
    · exact absurd hbegun hne.1
    · exact absurd hbegun hne.2

theorem begin (hrunning : e.state ≠ .running)
    (huncertain : e.state ≠ .uncertain) (htarget : t.target = .running)
    {row : AttemptRow} (hrow : row.attempt = e.attempt + 1)
    (hopen : row.IsOpen) :
    Life (t.apply (e.attempt + 1) e) (rows ++ [row]) := by
  have hended : ∀ r ∈ rows, r.IsEnded := by
    intro r hr
    by_cases hcurrent : r.attempt = e.attempt
    · exact (h.current r hr hcurrent).ended hrunning huncertain
    · exact h.past r hr hcurrent
  refine ⟨?_, ?_, ?_, fun _ => Nat.succ_pos _⟩
  · show _ = List.range' 1 (e.attempt + 1)
    rw [map_append, h.numbered, List.range'_concat, map_singleton,
      hrow, Nat.one_mul, Nat.add_comm]
  · intro r hr hne
    rcases mem_append.1 hr with hr | hr
    · exact hended r hr
    · rw [mem_singleton.1 hr] at hne
      exact absurd hrow hne
  · intro r hr hcurrent
    rcases mem_append.1 hr with hr | hr
    · have hle := (h.attempt_le hr).2
      have heq : r.attempt = e.attempt + 1 := hcurrent
      omega
    · rw [mem_singleton.1 hr]
      show row.Shows t.target
      rw [htarget]
      exact hopen

theorem pass (hrunning : e.state ≠ .running)
    (huncertain : e.state ≠ .uncertain) (htarget : t.target ≠ .running)
    (htarget' : t.target ≠ .uncertain) : Life (t.apply e.attempt e) rows where
  numbered := h.numbered
  past := h.past
  current := fun r hr hcurrent =>
    ((h.current r hr hcurrent).ended hrunning huncertain).shows htarget
      htarget'
  begun := fun hbegun => by
    rcases hbegun with hbegun | hbegun
    · exact absurd hbegun htarget
    · exact absurd hbegun htarget'

omit h

end Life

end Tasty.Journal
