/-
The execution of effects over runs: their attempts follow their transitions,
every attempt is reported once, no claim is held by two effects, and what is
final stays.
-/
import Tasty.Journal.Appends
import Tasty.Journal.Attempts
import Tasty.Journal.Commands

namespace Tasty.Journal

open AttemptRow Table List

variable {e : EffectRow} {t : EffectTransition} {attempt : Nat} {id : String}
  {j : State}

-- ==== all effects

namespace Work

def attemptsOf (w : Work) (effectId : String) : List AttemptRow :=
  w.attempts.filter fun r => r.effectId = effectId

/-- The tables after the transitions that were applied to the effects. -/
structure Disciplined (w : Work) (applied : List EffectTransition) :
    Prop where
  named : Table.Unique EffectRow.effectId w.effects
  owned : ∀ r ∈ w.attempts, ∃ e ∈ w.effects, e.effectId = r.effectId
  lives : ∀ e ∈ w.effects, Life e (w.attemptsOf e.effectId)
  /-- The end of an attempt is that of the one transition that reports
  it. -/
  reported : ∀ r ∈ w.attempts,
    (applied.filter r.reportedBy).map (fun t => (t.target, t.result))
      = r.reports
  reports : ∀ t ∈ applied, t.source = .running →
    ∃ r ∈ w.attempts, r.reportedBy t = true
  activations : Table.Unique Held.claim w.activationClaims
  obligations : Table.Unique Held.claim w.obligationClaims
  held : ∀ r ∈ w.attempts, w.Holds r.effectId r.claim

end Work

/-- The same effect, later on. -/
structure EffectRow.Follows (e e' : EffectRow) : Prop where
  effectId : e'.effectId = e.effectId
  claimKind : e'.claimKind = e.claimKind
  operationId : e'.operationId = e.operationId
  resourceGeneration : e'.resourceGeneration = e.resourceGeneration
  causeBatchId : e'.causeBatchId = e.causeBatchId
  commandId : e'.commandId = e.commandId
  payload : e'.payload = e.payload
  attempt : e.attempt ≤ e'.attempt
  final : e.state.isFinal = true → e' = e

/-- The same attempt, after some transitions: it is reconciled by one of
them, and what is written of it stays. -/
structure AttemptRow.Follows (ts : List EffectTransition)
    (r r' : AttemptRow) : Prop where
  effectId : r'.effectId = r.effectId
  attempt : r'.attempt = r.attempt
  journalId : r'.journalId = r.journalId
  claim : r'.claim = r.claim
  writerEpoch : r'.writerEpoch = r.writerEpoch
  outcome : r.outcome ≠ none → r'.outcome = r.outcome ∧ r'.result = r.result
  reconciled : r.reconciledOutcome ≠ none →
    r'.reconciledOutcome = r.reconciledOutcome
      ∧ r'.reconciledResult = r.reconciledResult
  reconciledBy : r.reconciledOutcome = none → r'.reconciledOutcome ≠ none →
    ∃ t ∈ ts, t.effectId = r.effectId ∧ t.source = .uncertain
      ∧ r'.reconciledOutcome = some t.target
      ∧ r'.reconciledResult = t.result

namespace EffectRow.Follows

theorem refl (e : EffectRow) : e.Follows e :=
  ⟨rfl, rfl, rfl, rfl, rfl, rfl, rfl, Nat.le_refl _, fun _ => rfl⟩

theorem trans {e' e'' : EffectRow} (h : e.Follows e')
    (h' : e'.Follows e'') : e.Follows e'' where
  effectId := h'.effectId.trans h.effectId
  claimKind := h'.claimKind.trans h.claimKind
  operationId := h'.operationId.trans h.operationId
  resourceGeneration := h'.resourceGeneration.trans h.resourceGeneration
  causeBatchId := h'.causeBatchId.trans h.causeBatchId
  commandId := h'.commandId.trans h.commandId
  payload := h'.payload.trans h.payload
  attempt := Nat.le_trans h.attempt h'.attempt
  final := fun hfinal => by
    have heq := h.final hfinal
    rw [heq] at h'
    exact h'.final hfinal

end EffectRow.Follows

namespace AttemptRow.Follows

variable {ts ts' : List EffectTransition} {r r' r'' : AttemptRow}

theorem refl (r : AttemptRow) : r.Follows ts r :=
  ⟨rfl, rfl, rfl, rfl, rfl, fun _ => ⟨rfl, rfl⟩, fun _ => ⟨rfl, rfl⟩,
    fun hnone hsome => absurd hnone hsome⟩

theorem trans (h : r.Follows ts r') (h' : r'.Follows ts' r'') :
    r.Follows (ts ++ ts') r'' where
  effectId := h'.effectId.trans h.effectId
  attempt := h'.attempt.trans h.attempt
  journalId := h'.journalId.trans h.journalId
  claim := h'.claim.trans h.claim
  writerEpoch := h'.writerEpoch.trans h.writerEpoch
  outcome := fun hsome => by
    obtain ⟨hout, hresult⟩ := h.outcome hsome
    obtain ⟨hout', hresult'⟩ := h'.outcome (hout ▸ hsome)
    exact ⟨hout'.trans hout, hresult'.trans hresult⟩
  reconciled := fun hsome => by
    obtain ⟨hout, hresult⟩ := h.reconciled hsome
    obtain ⟨hout', hresult'⟩ := h'.reconciled (hout ▸ hsome)
    exact ⟨hout'.trans hout, hresult'.trans hresult⟩
  reconciledBy := fun hnone hsome => by
    by_cases hnone' : r'.reconciledOutcome = none
    · obtain ⟨t, ht, hid, hrest⟩ := h'.reconciledBy hnone' hsome
      exact ⟨t, mem_append_right _ ht, hid.trans h.effectId, hrest⟩
    · obtain ⟨t, ht, hid, hsource, hout, hresult⟩ :=
        h.reconciledBy hnone hnone'
      obtain ⟨hout', hresult'⟩ := h'.reconciled hnone'
      exact ⟨t, mem_append_left _ ht, hid, hsource, hout'.trans hout,
        hresult'.trans hresult⟩

end AttemptRow.Follows

/-- Nothing of the effects, their attempts and their claims is lost. -/
structure Work.Follows (ts : List EffectTransition) (w w' : Work) :
    Prop where
  effects : ∀ e ∈ w.effects, ∃ e' ∈ w'.effects, e.Follows e'
  attempts : ∀ r ∈ w.attempts, ∃ r' ∈ w'.attempts, r.Follows ts r'
  activations : ∀ h ∈ w.activationClaims, h ∈ w'.activationClaims
  obligations : ∀ h ∈ w.obligationClaims, h ∈ w'.obligationClaims

namespace Work.Follows

variable {ts ts' : List EffectTransition} {w w' w'' : Work}

theorem refl (w : Work) : w.Follows ts w where
  effects := fun e he => ⟨e, he, .refl e⟩
  attempts := fun r hr => ⟨r, hr, .refl r⟩
  activations := fun _ hh => hh
  obligations := fun _ hh => hh

theorem trans (h : w.Follows ts w') (h' : w'.Follows ts' w'') :
    w.Follows (ts ++ ts') w'' where
  effects := fun e he => by
    obtain ⟨e', he', hfollows⟩ := h.effects e he
    obtain ⟨e'', he'', hfollows'⟩ := h'.effects e' he'
    exact ⟨e'', he'', hfollows.trans hfollows'⟩
  attempts := fun r hr => by
    obtain ⟨r', hr', hfollows⟩ := h.attempts r hr
    obtain ⟨r'', hr'', hfollows'⟩ := h'.attempts r' hr'
    exact ⟨r'', hr'', hfollows.trans hfollows'⟩
  activations := fun x hx => h'.activations x (h.activations x hx)
  obligations := fun x hx => h'.obligations x (h.obligations x hx)

end Work.Follows

/-- From one set of tables to the next the discipline is kept. -/
def WorkLeads (db : Database) (ts : List EffectTransition)
    (db' : Database) : Prop :=
  ∀ applied, db.work.Disciplined applied →
    db'.work.Disciplined (applied ++ ts) ∧ db.work.Follows ts db'.work

variable {w : Work} {r : AttemptRow}

section Steps

variable {db db' : Database} {applied : List EffectTransition}

theorem workLeads_same (h : db'.work = db.work) : WorkLeads db [] db' := by
  intro applied hw
  rw [h, append_nil]
  exact ⟨hw, .refl _⟩

theorem WorkLeads.trans {ts ts' : List EffectTransition} {db'' : Database}
    (h : WorkLeads db ts db') (h' : WorkLeads db' ts' db'') :
    WorkLeads db (ts ++ ts') db'' := by
  intro applied hw
  obtain ⟨hw', hfollows⟩ := h applied hw
  obtain ⟨hw'', hfollows'⟩ := h' _ hw'
  rw [append_assoc] at hw''
  exact ⟨hw'', hfollows.trans hfollows'⟩

theorem workLeads_insert {e : NewEffect} {cause : Option BatchId}
    {commandId : Option String}
    (h : db.insertEffect e cause commandId = .ok db') :
    WorkLeads db [] db' := by
  obtain ⟨row, rfl, hfresh, hstate, hattempt⟩ := insertEffect_ok h
  intro applied hw
  rw [append_nil]
  refine ⟨⟨hw.named.append hfresh, ?_, ?_, hw.reported, hw.reports,
    hw.activations, hw.obligations, hw.held⟩,
    ⟨fun e he => ⟨e, mem_append_left _ he, .refl e⟩,
      fun r hr => ⟨r, hr, .refl r⟩, fun _ hh => hh, fun _ hh => hh⟩⟩
  · intro r hr
    obtain ⟨e, he, hid⟩ := hw.owned r hr
    exact ⟨e, mem_append_left _ he, hid⟩
  · intro e he
    rcases mem_append.1 he with he | he
    · exact hw.lives e he
    · rw [mem_singleton.1 he]
      have hnone : db.work.attemptsOf row.effectId = [] := by
        refine filter_eq_nil_iff.2 fun r hr hid => ?_
        obtain ⟨e', he', hid'⟩ := hw.owned r hr
        exact clashes_eq_false.1 hfresh e' he'
          (hid'.trans (of_decide_eq_true hid))
      show Life row (db.work.attemptsOf row.effectId)
      rw [hnone]
      refine ⟨by rw [hattempt]; rfl, fun _ hr => (nomatch hr),
        fun _ hr => (nomatch hr), fun hbegun => ?_⟩
      rcases hstate with hstate | hstate <;> rw [hstate] at hbegun <;>
        rcases hbegun with hbegun | hbegun <;> cases hbegun

variable {f : AttemptRow → AttemptRow}

theorem filter_attempts
    (hf : ∀ r, (f r).effectId = r.effectId) (effectId id : String)
    (n : Nat) (attempts : List AttemptRow) :
    (Table.update (AttemptRow.isOf effectId n) f attempts).filter
        (fun r => r.effectId = id)
      = if id = effectId then
          Table.update (fun r => r.attempt = n) f
            (attempts.filter fun r => r.effectId = effectId)
        else attempts.filter fun r => r.effectId = id := by
  rw [filter_update fun r _ _ => by rw [hf r]]
  by_cases hid : id = effectId
  · rw [if_pos hid, hid]
    refine map_congr_left fun r hr => ?_
    have heq : r.effectId = effectId :=
      of_decide_eq_true (mem_filter.1 hr).2
    simp [AttemptRow.isOf, heq]
  · rw [if_neg hid]
    refine update_of_none fun r hr => ?_
    have heq : r.effectId = id :=
      of_decide_eq_true (mem_filter.1 hr).2
    simp [AttemptRow.isOf, heq, hid]

theorem lives_transition (hw : w.Disciplined applied)
    (he : e ∈ w.effects) (hid : e.effectId = t.effectId)
    {attempts : List AttemptRow} (hlife : Life (t.apply attempt e)
      (attempts.filter fun r => r.effectId = t.effectId))
    (hothers : ∀ id, id ≠ t.effectId →
      (attempts.filter fun r => r.effectId = id) = w.attemptsOf id) :
    ∀ e' ∈ Table.update (fun e => e.effectId = t.effectId) (t.apply attempt)
      w.effects, Life e' (attempts.filter fun r =>
        r.effectId = e'.effectId) := by
  intro e' he'
  rcases mem_update.1 he' with ⟨he', hne⟩ | ⟨e₀, he₀, hid₀, rfl⟩
  · rw [hothers _ (of_decide_eq_false hne)]
    exact hw.lives e' he'
  · have heq : e₀ = e := hw.named.eq_of_key he₀ he
      ((of_decide_eq_true hid₀).trans hid.symm)
    rw [heq]
    show Life _ (attempts.filter fun r => r.effectId = e.effectId)
    rw [hid]
    exact hlife

theorem effects_follow (hw : w.Disciplined applied)
    (he : e ∈ w.effects) (hid : e.effectId = t.effectId)
    (hattempt : e.attempt ≤ attempt) (hfinal : e.state.isFinal = false) :
    ∀ e₀ ∈ w.effects, ∃ e' ∈ Table.update
      (fun e => e.effectId = t.effectId) (t.apply attempt) w.effects,
      e₀.Follows e' := by
  intro e₀ he₀
  by_cases hid₀ : e₀.effectId = t.effectId
  · have heq : e₀ = e := hw.named.eq_of_key he₀ he (hid₀.trans hid.symm)
    rw [heq]
    refine ⟨t.apply attempt e, mem_update.2 (.inr
      ⟨e, he, decide_eq_true hid, rfl⟩), ?_⟩
    refine ⟨rfl, rfl, rfl, rfl, rfl, rfl, rfl, hattempt, fun h => ?_⟩
    rw [hfinal] at h
    cases h
  · exact ⟨e₀, mem_update.2 (.inl ⟨he₀, decide_eq_false hid₀⟩), .refl e₀⟩

theorem owned_transition     (h : ∃ e ∈ w.effects, e.effectId = id) :
    ∃ e ∈ Table.update (fun e => e.effectId = t.effectId)
      (t.apply attempt) w.effects, e.effectId = id := by
  obtain ⟨e, he, hid⟩ := h
  by_cases hid' : e.effectId = t.effectId
  · exact ⟨t.apply attempt e, mem_update.2 (.inr
      ⟨e, he, decide_eq_true hid', rfl⟩), hid⟩
  · exact ⟨e, mem_update.2 (.inl ⟨he, decide_eq_false hid'⟩), hid⟩

theorem reported_append (h : r.reportedBy t = false) :
    (applied ++ [t]).filter r.reportedBy = applied.filter r.reportedBy := by
  rw [filter_append, filter_cons_of_neg (by rw [h]; simp),
    filter_nil, append_nil]

/-- The current attempt is written. -/
theorem disciplined_write (hw : w.Disciplined applied) (he : e ∈ w.effects)
    (hid : e.effectId = t.effectId) (hfinal : e.state.isFinal = false)
    (hf : ∀ r, (f r).effectId = r.effectId ∧ (f r).attempt = r.attempt
      ∧ (f r).claim = r.claim) (hlife : Life (t.apply e.attempt e)
      (Table.update (fun r => r.attempt = e.attempt) f
        (w.attemptsOf t.effectId)))
    (hreported : ∀ r ∈ w.attempts, r.isOf t.effectId e.attempt = true →
      ((applied ++ [t]).filter r.reportedBy).map
        (fun t => (t.target, t.result)) = (f r).reports)
    (hother : ∀ r : AttemptRow, r.isOf t.effectId e.attempt = false →
      r.reportedBy t = false)
    (hreports : t.source = .running → t.attempt = some e.attempt
      ∧ 0 < e.attempt)
    (hfollows : ∀ r ∈ w.attempts, r.isOf t.effectId e.attempt = true →
      r.Follows [t] (f r)) :
    ({ w with
        effects := Table.update (fun e => e.effectId = t.effectId)
          (t.apply e.attempt) w.effects
        attempts := Table.update (AttemptRow.isOf t.effectId e.attempt) f
          w.attempts } : Work).Disciplined (applied ++ [t])
      ∧ w.Follows [t] { w with
        effects := Table.update (fun e => e.effectId = t.effectId)
          (t.apply e.attempt) w.effects
        attempts := Table.update (AttemptRow.isOf t.effectId e.attempt) f
          w.attempts } := by
  have hsame : ∀ r, (f r).reportedBy = r.reportedBy := by
    intro r
    funext t'
    unfold reportedBy
    rw [(hf r).1, (hf r).2.1]
  -- the row that stands for one of before
  have hkept : ∀ r ∈ w.attempts, ∃ r' ∈ Table.update
      (AttemptRow.isOf t.effectId e.attempt) f w.attempts,
      r'.reportedBy = r.reportedBy ∧ r.Follows [t] r' := by
    intro r hr
    by_cases hof : r.isOf t.effectId e.attempt = true
    · exact ⟨f r, mem_update.2 (.inr ⟨r, hr, hof, rfl⟩), hsame r,
        hfollows r hr hof⟩
    · exact ⟨r, mem_update.2 (.inl ⟨hr, Bool.eq_false_iff.2 hof⟩), rfl, .refl r⟩
  refine ⟨⟨?_, ?_, ?_, ?_, ?_, hw.activations, hw.obligations, ?_⟩,
    ⟨effects_follow hw he hid (Nat.le_refl _) hfinal, fun r hr => ?_,
      fun _ hh => hh, fun _ hh => hh⟩⟩
  · exact hw.named.update fun _ _ _ => rfl
  · intro r hr
    rcases mem_update.1 hr with ⟨hr₀, -⟩ | ⟨r₀, hr₀, -, rfl⟩
    · exact owned_transition (hw.owned r hr₀)
    · rw [(hf r₀).1]
      exact owned_transition (hw.owned r₀ hr₀)
  · refine lives_transition hw he hid ?_ fun id hne => ?_
    · rw [filter_attempts (fun r => (hf r).1), if_pos rfl]
      exact hlife
    · rw [filter_attempts (fun r => (hf r).1), if_neg hne]
      rfl
  · intro r hr
    rcases mem_update.1 hr with ⟨hr₀, hof⟩ | ⟨r₀, hr₀, hof, rfl⟩
    · rw [reported_append (hother r hof)]
      exact hw.reported r hr₀
    · rw [hsame]
      exact hreported r₀ hr₀ hof
  · intro t' ht' hsource
    rcases mem_append.1 ht' with ht' | ht'
    · obtain ⟨r, hr, hby⟩ := hw.reports t' ht' hsource
      obtain ⟨r', hr', heq, -⟩ := hkept r hr
      exact ⟨r', hr', heq ▸ hby⟩
    · cases mem_singleton.1 ht'
      obtain ⟨hattempt, hpos⟩ := hreports hsource
      have hcurrent := (hw.lives e he).exists_current hpos
      obtain ⟨r, hr, hnumber⟩ := hcurrent
      obtain ⟨hr, hof⟩ := mem_filter.1 hr
      obtain ⟨r', hr', heq, -⟩ := hkept r hr
      refine ⟨r', hr', ?_⟩
      rw [heq]
      simp [reportedBy, hsource, hattempt, hnumber, of_decide_eq_true hof, hid]
  · intro r hr
    rcases mem_update.1 hr with ⟨hr₀, -⟩ | ⟨r₀, hr₀, -, rfl⟩
    · exact hw.held r hr₀
    · rw [(hf r₀).1, (hf r₀).2.2]
      exact hw.held r₀ hr₀
  · obtain ⟨r', hr', -, hfollows'⟩ := hkept r hr
    exact ⟨r', hr', hfollows'⟩

theorem mem_attemptsOf {n : Nat}
    (hr : r ∈ w.attempts) (hof : r.isOf id n = true) :
    r ∈ w.attemptsOf id ∧ r.attempt = n ∧ r.effectId = id := by
  unfold AttemptRow.isOf at hof
  rw [Bool.and_eq_true, decide_eq_true_eq, decide_eq_true_eq] at hof
  exact ⟨mem_filter.2 ⟨hr, decide_eq_true hof.1⟩, hof.2, hof.1⟩

theorem disciplined_begin {w' : Work} (hw : db.work.Disciplined applied)
    (he : e ∈ db.work.effects)
    (hid : e.effectId = t.effectId) (hfinal : e.state.isFinal = false)
    (hsource : t.source ≠ .running) {row : AttemptRow}
    (heffect : row.effectId = t.effectId)
    (hnumber : row.attempt = e.attempt + 1) (hout : row.outcome = none)
    (hlife : Life (t.apply (e.attempt + 1) e)
      (db.work.attemptsOf t.effectId ++ [row]))
    (heffects : w'.effects = Table.update (fun e => e.effectId = t.effectId)
      (t.apply (e.attempt + 1)) db.work.effects)
    (hattempts : w'.attempts = db.work.attempts ++ [row])
    {db₂ : Database} (hclaimed : Claimed db db₂ row.claim t.effectId)
    (hactivations : w'.activationClaims = db₂.activationClaims)
    (hobligations : w'.obligationClaims = db₂.obligationClaims) :
    w'.Disciplined (applied ++ [t]) ∧ db.work.Follows [t] w' := by
  have hnot : ∀ r : AttemptRow, r.reportedBy t = false := by
    intro r
    simp [reportedBy, hsource]
  have hlast := hw.lives e he
  rw [hid] at hlast
  refine ⟨⟨?_, ?_, ?_, ?_, ?_, ?_, ?_, ?_⟩, ⟨?_, ?_, ?_, ?_⟩⟩
  · rw [heffects]
    exact hw.named.update fun _ _ _ => rfl
  · intro r hr
    rw [heffects]
    rw [hattempts] at hr
    rcases mem_append.1 hr with hr | hr
    · exact owned_transition (hw.owned r hr)
    · rw [mem_singleton.1 hr, heffect]
      exact owned_transition ⟨e, he, hid⟩
  · unfold Work.attemptsOf
    rw [heffects, hattempts]
    refine lives_transition hw he hid ?_ fun id hne => ?_
    · have hrow : [row].filter (fun r => r.effectId = t.effectId) = [row] :=
        filter_eq_self.2 (by simp [heffect])
      rw [filter_append, hrow]
      exact hlife
    · have hrow : [row].filter (fun r => r.effectId = id) = [] :=
        filter_eq_nil_iff.2 (by simp [heffect, hne.symm])
      rw [filter_append, hrow, append_nil]
      rfl
  · intro r hr
    rw [hattempts] at hr
    rw [reported_append (hnot r)]
    rcases mem_append.1 hr with hr | hr
    · exact hw.reported r hr
    · -- nothing has reported an attempt that begins
      have hnone : applied.filter row.reportedBy = [] := by
        refine filter_eq_nil_iff.2 fun t' ht' hby => ?_
        unfold reportedBy at hby
        simp only [Bool.and_eq_true, decide_eq_true_eq] at hby
        obtain ⟨r', hr', hby'⟩ := hw.reports t' ht' hby.1.2
        unfold reportedBy at hby'
        simp only [Bool.and_eq_true, decide_eq_true_eq] at hby'
        have heffect' : r'.effectId = t.effectId :=
          hby'.1.1.symm.trans (hby.1.1.trans heffect)
        have hnumber' : r'.attempt = row.attempt :=
          Option.some.inj (hby'.2.symm.trans hby.2)
        have hle := (hlast.attempt_le (mem_filter.2
          ⟨hr', decide_eq_true heffect'⟩)).2
        omega
      unfold AttemptRow.reports
      rw [mem_singleton.1 hr, hnone, hout]
      rfl
  · intro t' ht' hsource'
    rcases mem_append.1 ht' with ht' | ht'
    · obtain ⟨r, hr, hby⟩ := hw.reports t' ht' hsource'
      refine ⟨r, ?_, hby⟩
      rw [hattempts]
      exact mem_append_left _ hr
    · rw [mem_singleton.1 ht'] at hsource'
      exact absurd hsource' hsource
  · rw [hactivations]
    exact hclaimed.activationsUnique hw.activations
  · rw [hobligations]
    exact hclaimed.obligationsUnique hw.obligations
  · have hholds : ∀ id c, db₂.work.Holds id c → w'.Holds id c := by
      intro id c hc
      cases c with
      | activation key =>
        show _ ∈ w'.activationClaims
        rw [hactivations]
        exact hc
      | obligation claim =>
        show _ ∈ w'.obligationClaims
        rw [hobligations]
        exact hc
    intro r hr
    rw [hattempts] at hr
    refine hholds _ _ ?_
    rcases mem_append.1 hr with hr | hr
    · have hold := hw.held r hr
      cases hc : r.claim with
      | activation key =>
        rw [hc] at hold
        exact hclaimed.activations _ hold
      | obligation claim =>
        rw [hc] at hold
        exact hclaimed.obligations _ hold
    · rw [mem_singleton.1 hr, heffect]
      exact hclaimed.holds
  · rw [heffects]
    exact effects_follow hw he hid (Nat.le_succ _) hfinal
  · intro r hr
    refine ⟨r, ?_, .refl r⟩
    rw [hattempts]
    exact mem_append_left _ hr
  · rw [hactivations]
    exact hclaimed.activations
  · rw [hobligations]
    exact hclaimed.obligations

/-- Every transition keeps the discipline. -/
theorem workLeads_transition {journalId : String} {epoch : WriterEpoch}
    (h : db.applyTransition t journalId epoch = .ok db') :
    WorkLeads db [t] db' := by
  obtain ⟨e, hmade⟩ := applyTransition_ok h
  obtain ⟨attempt, db₁, hdoes, rfl⟩ := hmade.writes
  have he : e ∈ db.work.effects := find_mem hmade.found
  have hid : e.effectId = t.effectId := find_key hmade.found
  have hfinal : e.state.isFinal = false :=
    not_final_of_transition (hmade.source ▸ hmade.allowed)
  intro applied hw
  have hlife := hw.lives e he
  rw [hid] at hlife
  cases hdoes with
  | report hsource hattempt heq =>
    rw [heq]
    have hstate : e.state = .running := hmade.source.trans hsource
    have htarget := target_of_running hsource hmade.allowed
    have hopen : ∀ r ∈ db.work.attempts,
        r.isOf t.effectId e.attempt = true → r.IsOpen := by
      intro r hr hof
      obtain ⟨hr', hnumber, -⟩ := mem_attemptsOf hr hof
      have hshows := hlife.current r hr' hnumber
      rw [hstate] at hshows
      exact hshows
    refine disciplined_write hw he hid hfinal (f := t.report)
      (fun _ => ⟨rfl, rfl, rfl⟩) (hlife.report hstate htarget) ?_ ?_
      (fun _ => ⟨hattempt, hlife.begun (.inl hstate)⟩) ?_
    · intro r hr hof
      obtain ⟨-, hnumber, heffect⟩ := mem_attemptsOf hr hof
      have hold := hw.reported r hr
      unfold AttemptRow.reports at hold
      rw [(hopen r hr hof).1] at hold
      have hby : r.reportedBy t = true := by
        simp [reportedBy, hsource, hattempt, hnumber, heffect]
      rw [filter_append, map_append, hold, filter_cons_of_pos hby]
      rfl
    · intro r hof
      by_contra hby
      rw [Bool.not_eq_false] at hby
      unfold reportedBy at hby
      rw [hattempt] at hby
      simp only [Bool.and_eq_true, decide_eq_true_eq, Option.some.injEq]
        at hby
      simp [AttemptRow.isOf, hby.1.1, hby.2] at hof
    · intro r hr hof
      obtain ⟨hout, hreconciled⟩ := hopen r hr hof
      refine ⟨rfl, rfl, rfl, rfl, rfl, fun hsome => absurd hout hsome,
        fun _ => ⟨rfl, rfl⟩, fun hnone hsome => absurd hnone hsome⟩
  | reconcile hsource heq =>
    rw [heq]
    have hstate : e.state = .uncertain := hmade.source.trans hsource
    have htarget := target_of_uncertain hsource hmade.allowed
    have hnot : ∀ r : AttemptRow, r.reportedBy t = false := by
      intro r
      simp [reportedBy, hsource]
    refine disciplined_write hw he hid hfinal (f := t.reconcile)
      (fun _ => ⟨rfl, rfl, rfl⟩)
      (hlife.reconcile hstate htarget (hmade.evidence hsource)) ?_
      (fun r _ => hnot r) (fun h => ?_) ?_
    · intro r hr _
      rw [reported_append (hnot r)]
      exact hw.reported r hr
    · rw [hsource] at h
      cases h
    · intro r hr hof
      obtain ⟨hr', hnumber, heffect⟩ := mem_attemptsOf hr hof
      have hshows := hlife.current r hr' hnumber
      rw [hstate] at hshows
      have hnone : r.reconciledOutcome = none := hshows.2
      refine ⟨rfl, rfl, rfl, rfl, rfl, fun _ => ⟨rfl, rfl⟩,
        fun hsome => absurd hnone hsome, fun _ _ => ?_⟩
      exact ⟨t, mem_singleton_self t, heffect.symm, hsource, rfl, rfl⟩
  | begin claim journalId epoch htarget db₂ hclaimed heq =>
    obtain ⟨hrunning, huncertain⟩ :=
      not_attempt_of_begin htarget hmade.allowed
    have hrunning' : t.source ≠ .running := hrunning
    rw [← hmade.source] at hrunning huncertain
    have hbegun := hlife.begin hrunning huncertain htarget
      (rfl : (AttemptRow.begun t.effectId (e.attempt + 1) journalId claim
        epoch).attempt = e.attempt + 1) ⟨rfl, rfl⟩
    rw [heq]
    refine disciplined_begin hw he hid hfinal hrunning' rfl rfl rfl hbegun
      rfl ?_ hclaimed rfl rfl
    show db₂.attempts ++ _ = db.attempts ++ _
    rw [hclaimed.frame]
  | none hsource hsource' htarget heq =>
    rw [heq]
    have hnot : ∀ r : AttemptRow, r.reportedBy t = false := by
      intro r
      simp [reportedBy, hsource]
    have htarget' := target_ne_uncertain hsource hmade.allowed
    have hpassed := hlife.pass (hmade.source ▸ hsource)
      (hmade.source ▸ hsource') htarget htarget'
    refine ⟨⟨hw.named.update fun _ _ _ => rfl,
      fun r hr => owned_transition (hw.owned r hr),
      lives_transition hw he hid hpassed fun _ _ => rfl, ?_, ?_,
      hw.activations, hw.obligations, hw.held⟩,
      ⟨effects_follow hw he hid (Nat.le_refl _) hfinal,
        fun r hr => ⟨r, hr, .refl r⟩, fun _ hh => hh, fun _ hh => hh⟩⟩
    · intro r hr
      rw [reported_append (hnot r)]
      exact hw.reported r hr
    · intro t' ht' hsource'
      rcases mem_append.1 ht' with ht' | ht'
      · exact hw.reports t' ht' hsource'
      · rw [mem_singleton.1 ht'] at hsource'
        exact absurd hsource' hsource

end Steps

-- ==== runs

theorem kept_work : Kept WorkLeads where
  refl := fun _ => workLeads_same rfl
  trans := WorkLeads.trans
  epoch := fun _ _ => workLeads_same rfl
  archived := fun _ => workLeads_same rfl
  command := fun h => by
    obtain ⟨rfl, -⟩ := insertCommand_ok h
    exact workLeads_same rfl
  batch := fun h => by
    obtain ⟨-, -, -, heq⟩ := appendBatch_ok h
    rw [heq]
    exact workLeads_same rfl
  update := fun h => by
    obtain ⟨c, -, -, -, rfl⟩ := updateCommand_ok h
    exact workLeads_same rfl
  effect := workLeads_insert
  transition := workLeads_transition

theorem empty_disciplined : Database.empty.work.Disciplined [] where
  named := nodup_nil
  owned := fun _ hr => nomatch hr
  lives := fun _ he => nomatch he
  reported := fun _ hr => nomatch hr
  reports := fun _ ht => nomatch ht
  activations := nodup_nil
  obligations := nodup_nil
  held := fun _ hr => nomatch hr

theorem State.Reachable.disciplined (h : j.Reachable) :
    j.db.work.Disciplined j.applied :=
  ((kept_work.reachable h).1 [] empty_disciplined).1

/-- From one journal to a later one nothing of the effects is lost. -/
theorem State.Run.follows {j' : State} (hj : j.Reachable)
    (hrun : j.Run j') : ∃ ts, j'.applied = j.applied ++ ts
      ∧ j.db.work.Follows ts j'.db.work := by
  obtain ⟨⟨ts, happlied, hts⟩, -⟩ :=
    kept_work.run hrun (kept_work.reachable hj).2
  exact ⟨ts, happlied, (hts _ hj.disciplined).2⟩

theorem mem_attempts_of_effect :
    r ∈ w.attemptsOf id ↔ r ∈ w.attempts ∧ r.effectId = id := by
  unfold Work.attemptsOf
  rw [mem_filter, decide_eq_true_eq]

theorem Work.Disciplined.one_open
    {applied : List EffectTransition} (hw : w.Disciplined applied)
    {r' : AttemptRow} (hr : r ∈ w.attempts) (hr' : r' ∈ w.attempts)
    (heffect : r.effectId = r'.effectId) (hopen : r.outcome = none)
    (hopen' : r'.outcome = none) : r = r' := by
  obtain ⟨e, he, hid⟩ := hw.owned r hr
  have hlife := hw.lives e he
  have hmem := mem_attempts_of_effect.2 ⟨hr, hid.symm⟩
  have hmem' := mem_attempts_of_effect.2 ⟨hr', (hid.trans heffect).symm⟩
  exact hlife.unique.eq_of_key hmem hmem'
    ((hlife.open_current hmem hopen).2.trans
      (hlife.open_current hmem' hopen').2.symm)

theorem uncertain_left {j' : State} {ts : List EffectTransition}
    (hw : j.db.work.Disciplined j.applied)
    (hw' : j'.db.work.Disciplined j'.applied)
    (hfollows : j.db.work.Follows ts j'.db.work) {e' : EffectRow}
    (he : e ∈ j.db.effects) (huncertain : e.state = .uncertain)
    (he' : e' ∈ j'.db.effects) (hid : e'.effectId = e.effectId)
    (hleft : ¬ (e'.state = .uncertain ∧ e'.attempt = e.attempt)) :
    ∃ r ∈ j'.db.attempts, r.effectId = e.effectId
      ∧ r.attempt = e.attempt ∧ r.IsReconciled
      ∧ ∃ t ∈ ts, t.effectId = e.effectId ∧ t.source = .uncertain
        ∧ r.reconciledOutcome = some t.target
        ∧ r.reconciledResult = t.result := by
  have hlife := hw.lives e he
  obtain ⟨r, hr, hnumber⟩ :=
    hlife.exists_current (hlife.begun (.inr huncertain))
  have hshows := hlife.current r hr hnumber
  rw [huncertain] at hshows
  obtain ⟨hout, hnone⟩ := hshows
  obtain ⟨hr, heffect⟩ := mem_attempts_of_effect.1 hr
  obtain ⟨r', hr', hrow⟩ := hfollows.attempts r hr
  have hout' : r'.outcome = some .uncertain := by
    rw [(hrow.outcome (by rw [hout]; simp)).1, hout]
  have heffect' : r'.effectId = e.effectId := hrow.effectId.trans heffect
  have hnumber' : r'.attempt = e.attempt := hrow.attempt.trans hnumber
  have hreconciled : r'.IsReconciled := by
    refine (hw'.lives e' he').reconciled
      (mem_attempts_of_effect.2 ⟨hr', heffect'.trans hid.symm⟩) hout' ?_
    intro hstill
    exact hleft ⟨hstill.1, hstill.2.symm.trans hnumber'⟩
  have hsome : r'.reconciledOutcome ≠ none := by
    rcases hreconciled.2 with h | h | ⟨h, -⟩ <;> rw [h] <;> simp
  obtain ⟨t, ht, hid', hrest⟩ := hrow.reconciledBy hnone hsome
  exact ⟨r', hr', heffect', hnumber', hreconciled, t, ht,
    hid'.trans heffect, hrest⟩

/-- The execution of effects. In every journal, and from it to every later
one: the attempts of an effect are numbered from one to its counter, and at
most one of them is open; the end of an attempt is that of the one applied
transition that reports it, and stays; a final effect stays as it is; an
effect that was uncertain has been reconciled, with evidence if it was
cancelled; and a claim is held by one effect for ever, which is that of each
attempt under it. -/
theorem effect_execution {j j' : State} (hj : j.Reachable)
    (hrun : j.Run j') :
    (∀ e ∈ j.db.effects,
        (j.db.work.attemptsOf e.effectId).map AttemptRow.attempt
          = List.range' 1 e.attempt)
      ∧ (∀ r ∈ j.db.attempts, ∀ r' ∈ j.db.attempts,
        r.effectId = r'.effectId → r.outcome = none → r'.outcome = none →
          r = r')
      ∧ (∀ r ∈ j.db.attempts,
        (j.applied.filter r.reportedBy).map (fun t => (t.target, t.result))
          = r.reports)
      ∧ ∃ ts, j'.applied = j.applied ++ ts
        ∧ (∀ r ∈ j.db.attempts, ∃ r' ∈ j'.db.attempts, r.Follows ts r')
        ∧ (∀ e ∈ j.db.effects, ∃ e' ∈ j'.db.effects, e.Follows e')
        ∧ (∀ e ∈ j.db.effects, e.state = .uncertain →
          ∀ e' ∈ j'.db.effects, e'.effectId = e.effectId →
            ¬ (e'.state = .uncertain ∧ e'.attempt = e.attempt) →
            ∃ r ∈ j'.db.attempts, r.effectId = e.effectId
              ∧ r.attempt = e.attempt ∧ r.IsReconciled
              ∧ ∃ t ∈ ts, t.effectId = e.effectId ∧ t.source = .uncertain
                ∧ r.reconciledOutcome = some t.target
                ∧ r.reconciledResult = t.result)
        ∧ (∀ h ∈ j.db.activationClaims, ∀ h' ∈ j'.db.activationClaims,
          h.claim = h'.claim → h = h')
        ∧ (∀ h ∈ j.db.obligationClaims, ∀ h' ∈ j'.db.obligationClaims,
          h.claim = h'.claim → h = h')
        ∧ ∀ r ∈ j.db.attempts, j.db.work.Holds r.effectId r.claim := by
  have hw := hj.disciplined
  have hw' := State.Reachable.disciplined (hj.trans hrun)
  obtain ⟨ts, happlied, hfollows⟩ := hrun.follows hj
  refine ⟨fun e he => (hw.lives e he).numbered,
    fun r hr r' hr' heffect hopen hopen' =>
      hw.one_open hr hr' heffect hopen hopen',
    hw.reported, ts, happlied, hfollows.attempts, hfollows.effects, ?_, ?_,
    ?_, hw.held⟩
  · intro e he huncertain e' he' hid hleft
    exact uncertain_left hw hw' hfollows he huncertain he' hid hleft
  · intro h hh h' hh' hclaim
    exact hw'.activations.eq_of_key (hfollows.activations h hh) hh' hclaim
  · intro h hh h' hh' hclaim
    exact hw'.obligations.eq_of_key (hfollows.obligations h hh) hh' hclaim

section Samples

/-- A store that writes. -/
def sampleStore : EventStore := ⟨"journal", 16, true⟩

/-- An effect whose attempt ends uncertain. -/
def uncertainCalls : List Call :=
  let move : EffectTransition :=
    ⟨"start", .pending, .running, 1, none,
      some (.activation ⟨"engine", none, 1, 7⟩), none⟩
  [.acquireWriter,
    .commit { CommitRequest.new 1 with
      effects := [⟨.activation, "start", "open", 1, ⟨"pty", 1, []⟩,
        .pending⟩] } false,
    .transitionEffect 1 move,
    .transitionEffect 1 { move with
      source := .running, target := .uncertain, attempt := some 1 }]

/-- It is found not to have run. -/
def cancelCall : Call :=
  .transitionEffect 1
    ⟨"start", .uncertain, .cancelled, 1, none, none, some [0]⟩

/-- The journal after calls of a store. -/
def State.play (s : EventStore) (j : State) (calls : List Call) : State :=
  calls.foldl (State.call s) j

theorem State.run_play (s : EventStore) (j : State) (calls : List Call) :
    j.Run (j.play s calls) := by
  induction calls generalizing j with
  | nil => exact .refl
  | cons c calls ih => exact .head ⟨s, c, rfl⟩ (ih (j.call s c))

theorem effect_execution_cancelled :
    ∃ j j' : State, j.db.effects.map EffectRow.state = [.uncertain]
      ∧ j'.db.effects.map EffectRow.state = [.cancelled]
      ∧ j.applied.length = 2
      ∧ ∀ r ∈ j.db.attempts,
        (j.applied.filter r.reportedBy).map (fun t => (t.target, t.result))
          = r.reports := by
  let j := State.empty.play sampleStore uncertainCalls
  let j' := j.play sampleStore [cancelCall]
  refine ⟨j, j', by decide, by decide, by decide, ?_⟩
  exact (effect_execution (State.run_play sampleStore _ _)
    (State.run_play sampleStore j [cancelCall])).2.2.1

end Samples

end Tasty.Journal
