/-
The timer hub (`crates/tasty-timer/src/lib.rs`): keyed timers in the order
of their registration, and the drain that returns the due ones and sets
the next time of those that repeat; what every sequence of calls keeps.

An instant is an integer, in nanoseconds on the clock of the caller;
durations are those of the standard library, whose seconds are a `u64`.
-/
import Mathlib.Data.Int.ModEq
import Mathlib.Data.List.Induction
import Mathlib.Data.List.Nodup
import Mathlib.Tactic.Linarith
import Mathlib.Tactic.Ring

namespace Tasty.Timer

open List

-- ==== durations

/-- The first number of nanoseconds that a `Duration` cannot hold. -/
def durationLimit : Nat := 2 ^ 64 * 10 ^ 9

structure Duration where
  nanos : Nat
  fits : nanos < durationLimit
  deriving DecidableEq

/-- `Duration::from_nanos(1)`. -/
def Duration.tick : Duration := ⟨1, by decide⟩

/-- `checked_mul`. -/
def Duration.checkedMul (d : Duration) (n : UInt32) : Option Duration :=
  if h : d.nanos * n.toNat < durationLimit then some ⟨_, h⟩ else none

/-- `u32::try_from`. -/
def tryU32 (n : Nat) : Option UInt32 :=
  if n < 2 ^ 32 then some (UInt32.ofNat n) else none

-- ==== the model

/-- How strongly a timer asks to be woken. -/
inductive Precision where
  | strict
  | lax (slack : Duration)

variable {K : Type}

structure Entry (K : Type) where
  key : K
  /-- A timer without an interval fires once. -/
  interval : Option Duration
  nextDue : Int
  precision : Precision
  lastFired : Option Int

/-- The instant it asks to be woken at. -/
def Entry.hardDeadline (e : Entry K) : Int :=
  match e.precision with
  | .strict => e.nextDue
  | .lax slack => e.nextDue + slack.nanos

structure TimerHub (K : Type) where
  entries : List (Entry K)

/-- An interval of zero becomes the least one. -/
def normalize (interval : Duration) : Duration :=
  if interval.nanos = 0 then .tick else interval

/-- The next time of a repeating timer: a multiple of the interval later,
or, after too long a lag, one interval from now. -/
def advance (nextDue : Int) (interval : Duration) (now : Int) :
    Int :=
  let behind := (now - nextDue).toNat
  let steps := behind / interval.nanos + 1
  match (tryU32 steps).bind interval.checkedMul with
  | some delta => nextDue + delta.nanos
  | none => now + interval.nanos

namespace TimerHub

def new : TimerHub K := ⟨[]⟩

def keys (h : TimerHub K) : List K := h.entries.map Entry.key

section Registration

variable [DecidableEq K]

/-- The slot of the key takes the entry; without one it goes last. -/
def insertInto (entry : Entry K) : List (Entry K) → List (Entry K)
  | [] => [entry]
  | e :: rest =>
    if e.key = entry.key then entry :: rest
    else e :: insertInto entry rest

def insert (h : TimerHub K) (entry : Entry K) : TimerHub K :=
  ⟨insertInto entry h.entries⟩

/-- Fires every `interval`, first at `now + interval`. -/
def every (h : TimerHub K) (key : K) (interval : Duration)
    (precision : Precision) (now : Int) : TimerHub K :=
  let interval := normalize interval
  h.insert
    { key, interval := some interval, nextDue := now + interval.nanos
      precision, lastFired := none }

/-- Fires once, after `delay`. -/
def onceAfter (h : TimerHub K) (key : K) (delay : Duration)
    (precision : Precision) (now : Int) : TimerHub K :=
  h.insert
    { key, interval := none, nextDue := now + delay.nanos
      precision, lastFired := none }

/-- Fires once, at an absolute time. -/
def onceAt (h : TimerHub K) (key : K) (time : Int)
    (precision : Precision) : TimerHub K :=
  h.insert
    { key, interval := none, nextDue := time, precision
      lastFired := none }

def cancel (h : TimerHub K) (key : K) : TimerHub K :=
  ⟨h.entries.filter fun e => e.key ≠ key⟩

end Registration

def cancelIf (h : TimerHub K) (pred : K → Bool) : TimerHub K :=
  ⟨h.entries.filter fun e => !pred e.key⟩

/-- The loop of `drain_due`: the due keys, and the entries that stay. -/
def retainDue (now : Int) :
    List (Entry K) → List K × List (Entry K)
  | [] => ([], [])
  | e :: rest =>
    let (due, kept) := retainDue now rest
    if now < e.nextDue then (due, e :: kept)
    else
      match e.interval with
      | some interval =>
        (e.key :: due,
          { e with
            lastFired := some now
            nextDue := advance e.nextDue interval now } :: kept)
      | none => (e.key :: due, kept)

/-- The keys that are due, and the hub after they fired. -/
def drainDue (h : TimerHub K) (now : Int) : List K × TimerHub K :=
  let (due, kept) := retainDue now h.entries
  (due, ⟨kept⟩)

/-- The earliest hard deadline. -/
def nextDeadline (h : TimerHub K) : Option Int :=
  (h.entries.map Entry.hardDeadline).min?

end TimerHub

-- ==== the phase

theorem tryU32_eq_some {n : Nat} {u : UInt32} (h : tryU32 n = some u) :
    u.toNat = n := by
  unfold tryU32 at h
  split at h
  · rename_i hn
    cases h
    exact UInt32.toNat_ofNat_of_lt' hn
  · cases h

theorem normalize_pos (interval : Duration) :
    0 < (normalize interval).nanos := by
  unfold normalize
  split
  · exact Nat.one_pos
  · rename_i h
    exact Nat.pos_of_ne_zero h

/-- The lag at which the phase is given up: more than 2^32 - 1 intervals,
or a multiple that no duration holds. -/
def LagsBeyond (nextDue : Int) (interval : Duration) (now : Int) : Prop :=
  (2 ^ 32 - 1) * (interval.nanos : Int) < now - nextDue
    ∨ durationLimit
      ≤ interval.nanos * ((now - nextDue).toNat / interval.nanos + 1)

section Advance

variable {nextDue now : Int} {interval : Duration}

/-- The two ways the advance goes. -/
theorem advance_cases (nextDue now : Int) (interval : Duration) :
    let steps := (now - nextDue).toNat / interval.nanos + 1
    (steps < 2 ^ 32 ∧ interval.nanos * steps < durationLimit
      ∧ advance nextDue interval now
        = nextDue + (interval.nanos * steps : Nat))
    ∨ ((2 ^ 32 ≤ steps ∨ durationLimit ≤ interval.nanos * steps)
      ∧ advance nextDue interval now = now + interval.nanos) := by
  intro steps
  by_cases hsteps : steps < 2 ^ 32
  · have htry : tryU32 steps = some (UInt32.ofNat steps) := if_pos hsteps
    have hval : (UInt32.ofNat steps).toNat = steps := tryU32_eq_some htry
    by_cases hfits : interval.nanos * steps < durationLimit
    · refine .inl ⟨hsteps, hfits, ?_⟩
      have hmul : interval.checkedMul (UInt32.ofNat steps)
          = some ⟨interval.nanos * steps, hfits⟩ := by
        unfold Duration.checkedMul
        simp only [hval, dif_pos hfits]
      unfold advance
      dsimp only
      rw [htry, Option.bind_some, hmul]
    · refine .inr ⟨.inr (by omega), ?_⟩
      have hmul : interval.checkedMul (UInt32.ofNat steps) = none := by
        unfold Duration.checkedMul
        simp only [hval, dif_neg hfits]
      unfold advance
      dsimp only
      rw [htry, Option.bind_some, hmul]
  · refine .inr ⟨.inl (by omega), ?_⟩
    have htry : tryU32 steps = none := if_neg hsteps
    unfold advance
    dsimp only
    rw [htry]
    rfl

theorem lag_eq (hdue : nextDue ≤ now) :
    (now - nextDue : Int)
      = (interval.nanos * ((now - nextDue).toNat / interval.nanos) : Nat)
        + ((now - nextDue).toNat % interval.nanos : Nat) := by
  have hlag : ((now - nextDue).toNat : Int) = now - nextDue :=
    Int.toNat_of_nonneg (by omega)
  have hdiv := Nat.div_add_mod (now - nextDue).toNat interval.nanos
  omega

theorem advance_bounds (hpos : 0 < interval.nanos) (hdue : nextDue ≤ now) :
    now < advance nextDue interval now
      ∧ advance nextDue interval now ≤ now + interval.nanos := by
  have hmod := Nat.mod_lt (now - nextDue).toNat hpos
  have hlag := @lag_eq nextDue now interval hdue
  rcases advance_cases nextDue now interval with ⟨-, -, h⟩ | ⟨-, h⟩
  · rw [h, Nat.mul_add, Nat.mul_one]
    omega
  · rw [h]
    omega

/-- The phase is kept. -/
theorem advance_modEq (hpos : 0 < interval.nanos) (hdue : nextDue ≤ now)
    (hlag : ¬ LagsBeyond nextDue interval now) :
    advance nextDue interval now ≡ nextDue [ZMOD interval.nanos] := by
  have hwhole := @lag_eq nextDue now interval hdue
  obtain ⟨hshort, hfits⟩ := not_or.1 hlag
  rcases advance_cases nextDue now interval with
    ⟨-, -, h⟩ | ⟨hmany | hbig, h⟩
  · rw [h, Nat.cast_mul]
    exact Int.modEq_iff_dvd.2 ⟨-((now - nextDue).toNat / interval.nanos + 1),
      by push_cast; ring⟩
  · -- exactly 2^32 - 1 intervals behind, so that now is in phase
    have hfew : (now - nextDue).toNat ≤ (2 ^ 32 - 1) * interval.nanos := by
      omega
    have hquot : (now - nextDue).toNat / interval.nanos = 2 ^ 32 - 1 := by
      have := Nat.div_le_of_le_mul
        (by rw [Nat.mul_comm]; exact hfew :
          (now - nextDue).toNat ≤ interval.nanos * (2 ^ 32 - 1))
      omega
    have hexact : (now - nextDue : Int) = interval.nanos * (2 ^ 32 - 1) := by
      rw [hquot] at hwhole
      omega
    rw [h]
    exact Int.modEq_iff_dvd.2 ⟨-(2 ^ 32), by linarith⟩
  · exact absurd hbig hfits

/-- After too long a lag the phase starts from now. -/
theorem advance_beyond (hpos : 0 < interval.nanos)
    (hlag : LagsBeyond nextDue interval now) :
    advance nextDue interval now = now + interval.nanos := by
  rcases advance_cases nextDue now interval with ⟨hfew, hfits, -⟩ | ⟨-, h⟩
  · exfalso
    rcases hlag with hlong | hbig
    · have hlt : (2 ^ 32 - 1) * interval.nanos
          < (now - nextDue).toNat := by omega
      have := (Nat.le_div_iff_mul_le hpos).2 hlt.le
      omega
    · omega
  · exact h

end Advance

-- ==== one drain

/-- What becomes of an entry when the time is `now`. -/
def Entry.settle (now : Int) (e : Entry K) : Option (Entry K) :=
  if now < e.nextDue then some e
  else e.interval.map fun interval =>
    { e with
      lastFired := some now
      nextDue := advance e.nextDue interval now }

namespace TimerHub

theorem retainDue_eq (now : Int) (entries : List (Entry K)) :
    retainDue now entries
      = ((entries.filter fun e => e.nextDue ≤ now).map Entry.key,
        entries.filterMap (Entry.settle now)) := by
  induction entries with
  | nil => rfl
  | cons e rest ih =>
    unfold retainDue
    rw [ih]
    by_cases hnow : now < e.nextDue
    · have hdue : ¬ e.nextDue ≤ now := by omega
      simp [Entry.settle, hnow, hdue]
    · have hdue : e.nextDue ≤ now := by omega
      cases hi : e.interval <;> simp [Entry.settle, hnow, hdue, hi]

theorem drainDue_fst (h : TimerHub K) (now : Int) :
    (h.drainDue now).1
      = (h.entries.filter fun e => e.nextDue ≤ now).map Entry.key := by
  unfold drainDue
  rw [retainDue_eq]

theorem drainDue_snd (h : TimerHub K) (now : Int) :
    (h.drainDue now).2 = ⟨h.entries.filterMap (Entry.settle now)⟩ := by
  unfold drainDue
  rw [retainDue_eq]

end TimerHub

theorem Entry.settle_key {now : Int} {e e' : Entry K}
    (h : e.settle now = some e') : e'.key = e.key := by
  unfold Entry.settle at h
  split at h
  · cases h
    rfl
  · obtain ⟨_, _, rfl⟩ := Option.map_eq_some_iff.1 h
    rfl

theorem Entry.settle_interval {now : Int} {e e' : Entry K}
    (h : e.settle now = some e') : e'.interval = e.interval := by
  unfold Entry.settle at h
  split at h
  · cases h
    rfl
  · obtain ⟨_, _, rfl⟩ := Option.map_eq_some_iff.1 h
    rfl

namespace TimerHub

/-- Keys that stay, stay in their order. -/
theorem keys_drainDue (h : TimerHub K) (now : Int) :
    (h.drainDue now).2.keys.Sublist h.keys := by
  rw [drainDue_snd]
  show ((h.entries.filterMap (Entry.settle now)).map Entry.key).Sublist
    (h.entries.map Entry.key)
  induction h.entries with
  | nil => exact List.Sublist.refl []
  | cons e rest ih =>
    rw [filterMap_cons]
    split
    · exact ih.cons e.key
    · rename_i e' he'
      rw [map_cons, map_cons, Entry.settle_key he']
      exact ih.cons_cons e.key

/-- Every interval is longer than nothing. -/
def Ticking (h : TimerHub K) : Prop :=
  ∀ e ∈ h.entries, ∀ interval, e.interval = some interval →
    0 < interval.nanos

/-- A repeating entry before and after it fired at `now`. -/
structure Refired (now : Int) (period : Duration) (e e' : Entry K) :
    Prop where
  key : e'.key = e.key
  interval : e'.interval = some period
  precision : e'.precision = e.precision
  lastFired : e'.lastFired = some now
  later : now < e'.nextDue
  soon : e'.nextDue ≤ now + period.nanos
  phase : ¬ LagsBeyond e.nextDue period now →
    e'.nextDue ≡ e.nextDue [ZMOD period.nanos]
  realigned : LagsBeyond e.nextDue period now →
    e'.nextDue = now + period.nanos

section Drain

variable {h : TimerHub K} {now : Int} {e : Entry K}

/-- An entry that is not due stays as it is. -/
theorem mem_drainDue_of_lt (he : e ∈ h.entries) (hnow : now < e.nextDue) :
    e ∈ (h.drainDue now).2.entries := by
  rw [drainDue_snd]
  exact mem_filterMap.2 ⟨e, he, if_pos hnow⟩

/-- A due repeating entry has its next time set. -/
theorem refired_drainDue (ht : h.Ticking) (he : e ∈ h.entries)
    (hdue : e.nextDue ≤ now) {interval : Duration}
    (hi : e.interval = some interval) :
    ∃ e' ∈ (h.drainDue now).2.entries, Refired now interval e e' := by
  have hpos : 0 < interval.nanos := ht e he interval hi
  obtain ⟨hlater, hsoon⟩ := advance_bounds hpos hdue
  have hnow : ¬ now < e.nextDue := by omega
  have hsettle : e.settle now = some
      { e with
        lastFired := some now
        nextDue := advance e.nextDue interval now } := by
    unfold Entry.settle
    rw [if_neg hnow, hi]
    rfl
  refine ⟨{ e with
    lastFired := some now
    nextDue := advance e.nextDue interval now }, ?_,
    ⟨rfl, hi, rfl, rfl, hlater, hsoon, ?_, ?_⟩⟩
  · rw [drainDue_snd]
    exact mem_filterMap.2 ⟨e, he, hsettle⟩
  · exact advance_modEq hpos hdue
  · exact advance_beyond hpos

theorem not_mem_drainDue (hkeys : h.keys.Nodup) (he : e ∈ h.entries)
    (hdue : e.nextDue ≤ now) (hi : e.interval = none) :
    e.key ∉ (h.drainDue now).2.keys := by
  intro hmem
  rw [drainDue_snd] at hmem
  obtain ⟨e', he', hkey⟩ := mem_map.1 hmem
  obtain ⟨d, hd, hsettle⟩ := mem_filterMap.1 he'
  have hde : d = e := by
    apply inj_on_of_nodup_map hkeys hd he
    rw [← Entry.settle_key hsettle, hkey]
  have hnow : ¬ now < e.nextDue := by omega
  rw [hde, Entry.settle, if_neg hnow, hi] at hsettle
  cases hsettle

theorem mem_drainDue_fst {k : K} :
    k ∈ (h.drainDue now).1 ↔ ∃ e ∈ h.entries, e.key = k ∧ e.nextDue ≤ now := by
  rw [drainDue_fst, mem_map]
  constructor
  · rintro ⟨e, he, rfl⟩
    obtain ⟨he, hdue⟩ := mem_filter.1 he
    exact ⟨e, he, rfl, of_decide_eq_true hdue⟩
  · rintro ⟨e, he, rfl, hdue⟩
    exact ⟨e, mem_filter.2 ⟨he, decide_eq_true hdue⟩, rfl⟩

theorem drainDue_fst_sublist : (h.drainDue now).1.Sublist h.keys := by
  rw [drainDue_fst]
  exact filter_sublist.map Entry.key

end Drain

end TimerHub

-- ==== the calls

/-- A call to the hub. -/
inductive Call (K : Type) where
  | every (key : K) (interval : Duration) (precision : Precision)
      (now : Int)
  | onceAfter (key : K) (delay : Duration) (precision : Precision)
      (now : Int)
  | onceAt (key : K) (time : Int) (precision : Precision)
  | cancel (key : K)
  | cancelIf (pred : K → Bool)
  | drainDue (now : Int)

variable [DecidableEq K]

namespace TimerHub

def call (h : TimerHub K) : Call K → TimerHub K
  | .every key interval precision now => h.every key interval precision now
  | .onceAfter key delay precision now =>
    h.onceAfter key delay precision now
  | .onceAt key time precision => h.onceAt key time precision
  | .cancel key => h.cancel key
  | .cancelIf pred => h.cancelIf pred
  | .drainDue now => (h.drainDue now).2

/-- The hub after these calls. -/
def run (calls : List (Call K)) : TimerHub K := calls.foldl call new

variable (calls : List (Call K))

@[simp] theorem run_concat (c : Call K) :
    run (calls ++ [c]) = (run calls).call c := by
  unfold run
  rw [foldl_append]
  rfl

/-- A registered key keeps its place, a new one goes last. -/
theorem keys_insertInto (entry : Entry K) (entries : List (Entry K)) :
    (insertInto entry entries).map Entry.key
      = if entry.key ∈ entries.map Entry.key then entries.map Entry.key
        else entries.map Entry.key ++ [entry.key] := by
  induction entries with
  | nil => simp [insertInto]
  | cons e rest ih =>
    unfold insertInto
    by_cases hkey : e.key = entry.key
    · simp [hkey]
    · have hne : entry.key ≠ e.key := fun h => hkey h.symm
      rw [if_neg hkey, map_cons, ih]
      by_cases hmem : entry.key ∈ rest.map Entry.key
      · simp [hmem]
      · simp [hmem, hne]

theorem mem_insertInto {entry e : Entry K} {entries : List (Entry K)}
    (h : e ∈ insertInto entry entries) : e = entry ∨ e ∈ entries := by
  induction entries with
  | nil => exact .inl (mem_singleton.1 h)
  | cons d rest ih =>
    unfold insertInto at h
    split at h
    · rcases mem_cons.1 h with rfl | h
      · exact .inl rfl
      · exact .inr (mem_cons_of_mem _ h)
    · rcases mem_cons.1 h with rfl | h
      · exact .inr mem_cons_self
      · rcases ih h with h | h
        · exact .inl h
        · exact .inr (mem_cons_of_mem _ h)

/-- What a call does to the keys: some leave, or a new one goes last. -/
theorem keys_call (h : TimerHub K) (c : Call K) :
    (h.call c).keys.Sublist h.keys
      ∨ ∃ k, k ∉ h.keys ∧ (h.call c).keys = h.keys ++ [k] := by
  have hinsert : ∀ entry : Entry K, (h.insert entry).keys.Sublist h.keys
      ∨ ∃ k, k ∉ h.keys ∧ (h.insert entry).keys = h.keys ++ [k] := by
    intro entry
    have hkeys : (h.insert entry).keys
        = if entry.key ∈ h.keys then h.keys else h.keys ++ [entry.key] :=
      keys_insertInto entry h.entries
    by_cases hmem : entry.key ∈ h.keys
    · rw [if_pos hmem] at hkeys
      exact .inl (by rw [hkeys])
    · rw [if_neg hmem] at hkeys
      exact .inr ⟨entry.key, hmem, hkeys⟩
  cases c with
  | every key interval precision now => exact hinsert _
  | onceAfter key delay precision now => exact hinsert _
  | onceAt key time precision => exact hinsert _
  | cancel key | cancelIf pred =>
    exact .inl (filter_sublist.map Entry.key)
  | drainDue now => exact .inl (keys_drainDue h now)

theorem Ticking.insert {h : TimerHub K} {entry : Entry K} (ht : h.Ticking)
    (hentry : ∀ interval, entry.interval = some interval →
      0 < interval.nanos) : (h.insert entry).Ticking := by
  intro e he
  rcases mem_insertInto he with rfl | he
  · exact hentry
  · exact ht e he

theorem Ticking.call {h : TimerHub K} (ht : h.Ticking) (c : Call K) :
    (h.call c).Ticking := by
  cases c with
  | every key interval precision now =>
    refine ht.insert fun i hi => ?_
    cases hi
    exact normalize_pos interval
  | onceAfter key delay precision now =>
    exact ht.insert fun i hi => by cases hi
  | onceAt key time precision => exact ht.insert fun i hi => by cases hi
  | cancel key => exact fun e he => ht e (mem_filter.1 he).1
  | cancelIf pred => exact fun e he => ht e (mem_filter.1 he).1
  | drainDue now =>
    intro e he
    have he : e ∈ (h.drainDue now).2.entries := he
    rw [drainDue_snd] at he
    obtain ⟨d, hd, hsettle⟩ := mem_filterMap.1 he
    rw [Entry.settle_interval hsettle]
    exact ht d hd

-- ==== every run

theorem run_ticking : (run calls).Ticking := by
  induction calls using reverseRecOn with
  | nil => exact fun e he => by cases he
  | append_singleton calls c ih =>
    rw [run_concat]
    exact ih.call c

/-- Keys stay unique. -/
theorem run_nodup : (run calls).keys.Nodup := by
  induction calls using reverseRecOn with
  | nil => exact nodup_nil
  | append_singleton calls c ih =>
    rw [run_concat]
    rcases keys_call (run calls) c with hsub | ⟨k, hk, heq⟩
    · exact ih.sublist hsub
    · rw [heq]
      exact List.Nodup.append ih (nodup_singleton k)
        (disjoint_singleton.2 hk)

/-- `a` was registered before `b`: since some moment without `b` it has
been registered without a break. -/
def RegisteredBefore (calls : List (Call K)) (a b : K) : Prop :=
  ∃ earlier, earlier <+: calls ∧ b ∉ (run earlier).keys
    ∧ ∀ later, earlier <+: later → later <+: calls → a ∈ (run later).keys

/-- The hub holds its keys in the order of their registration. -/
theorem run_registered :
    (run calls).keys.Pairwise (RegisteredBefore calls) := by
  induction calls using reverseRecOn with
  | nil => exact List.Pairwise.nil
  | append_singleton calls c ih =>
    -- a moment before the call serves after it
    have hkeep : ∀ a b, a ∈ (run (calls ++ [c])).keys →
        RegisteredBefore calls a b →
        RegisteredBefore (calls ++ [c]) a b := by
      rintro a b ha ⟨earlier, hprefix, hb, hlater⟩
      refine ⟨earlier, hprefix.trans (prefix_append _ _), hb, ?_⟩
      intro later hle hlast
      rcases prefix_concat_iff.1 hlast with rfl | hlast
      · exact ha
      · exact hlater later hle hlast
    have hmem : ∀ {l : List K}, l.Sublist (run calls).keys →
        l = (run (calls ++ [c])).keys →
        l.Pairwise (RegisteredBefore (calls ++ [c])) := by
      intro l hsub hl
      refine (ih.sublist hsub).imp_of_mem fun ha _ h => ?_
      exact hkeep _ _ (hl ▸ ha) h
    rcases keys_call (run calls) c with hsub | ⟨k, hk, heq⟩
    · rw [run_concat]
      exact hmem hsub (by rw [run_concat])
    · have hnew : (run (calls ++ [c])).keys
          = (run calls).keys ++ [k] := by rw [run_concat, heq]
      have hold : ∀ {a}, a ∈ (run calls).keys →
          a ∈ (run (calls ++ [c])).keys := fun ha => by
        rw [hnew]
        exact mem_append_left _ ha
      rw [hnew, pairwise_append]
      refine ⟨ih.imp_of_mem fun ha _ h => hkeep _ _ (hold ha) h,
        pairwise_singleton _ _, ?_⟩
      intro a ha b hb
      obtain rfl := mem_singleton.1 hb
      -- the moment before the call is one without the new key
      refine ⟨calls, prefix_append _ _, hk, ?_⟩
      intro later hle hlast
      rcases prefix_concat_iff.1 hlast with rfl | hlast
      · exact hold ha
      · rw [← hle.eq_of_length_le hlast.length_le]
        exact ha

-- ==== the drains

/-- After any calls, a drain returns each due key once, in the order of
registration; a timer that fires once is then gone, and a repeating one is
due again within one interval, in phase unless it lagged too far. -/
theorem drain_exact (calls : List (Call K)) (now : Int) :
    (run calls).keys.Nodup
      ∧ ((run calls).drainDue now).2.keys.Nodup
      ∧ ((run calls).drainDue now).1.Nodup
      ∧ ((run calls).drainDue now).1.Pairwise (RegisteredBefore calls)
      ∧ (∀ k, k ∈ ((run calls).drainDue now).1
        ↔ ∃ e ∈ (run calls).entries, e.key = k ∧ e.nextDue ≤ now)
      ∧ ∀ e ∈ (run calls).entries,
        (now < e.nextDue → e ∈ ((run calls).drainDue now).2.entries)
        ∧ (e.nextDue ≤ now → e.interval = none →
          e.key ∉ ((run calls).drainDue now).2.keys)
        ∧ (e.nextDue ≤ now → ∀ interval, e.interval = some interval →
          ∃ e' ∈ ((run calls).drainDue now).2.entries,
            Refired now interval e e') := by
  have hkeys := run_nodup calls
  have hsub := @drainDue_fst_sublist K (run calls) now
  refine ⟨hkeys, hkeys.sublist (keys_drainDue _ now), hkeys.sublist hsub,
    (run_registered calls).sublist hsub, fun k => mem_drainDue_fst, ?_⟩
  intro e he
  refine ⟨mem_drainDue_of_lt he, not_mem_drainDue hkeys he, ?_⟩
  exact fun hdue _ => refired_drainDue (run_ticking calls) he hdue

end TimerHub

end Tasty.Timer
