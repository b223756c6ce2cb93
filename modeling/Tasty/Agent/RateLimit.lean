/-
Rate limits (`crates/tasty-agent/src/rate_limit.rs`): one token bucket for
each agent and metric, kept in the memory of the host under a key made of
an id.

The memory here is the part under the prefix of these keys; a value is the
record, as JSON that is not spelled out. The listing and the write of a
call may fail; then the memory stays as it is.

A record is found by its agent and metric but stored under its id, which
is made of the time and the sanitized agent. So a run keeps one record for
each agent and metric as long as no new record gets the id of one there
is.
-/
import Mathlib.Data.List.Induction
import Tasty.Agent.Mapping
import Tasty.Lib.BTreeMap

namespace Tasty.Agent

open BTreeMap List

-- ==== the records

def RATE_LIMIT_KEY_PREFIX : String := "tasty.agent.rate_limit."

/-- `u64::saturating_add` of one. -/
def saturatingSucc64 (n : UInt64) : UInt64 :=
  if n = UInt64.ofNat (2 ^ 64 - 1) then n else n + 1

structure RateLimit where
  id : String
  agent : String
  metric : String
  /-- How many tokens come back in `perMs`. -/
  limit : UInt32
  perMs : UInt64
  /-- The most tokens there can be. -/
  burst : UInt32
  tokens : Float
  lastRefillMs : UInt64
  throttledCount : UInt64

/-- `f64::min`. -/
def fmin (a b : Float) : Float :=
  if a.isNaN then b else if b.isNaN then a else if a ≤ b then a else b

namespace RateLimit

/-- The tokens that came back since the last time. -/
def refill (rl : RateLimit) (nowMs : UInt64) : RateLimit :=
  if nowMs ≤ rl.lastRefillMs then rl
  else
    let elapsed := (nowMs - rl.lastRefillMs).toFloat
    let rate := rl.limit.toUInt64.toFloat / rl.perMs.toFloat
    { rl with
      tokens := fmin (rl.tokens + elapsed * rate) rl.burst.toUInt64.toFloat
      lastRefillMs := nowMs }

/-- The record is of this agent and metric. -/
def IsOf (rl : RateLimit) (agent metric : String) : Prop :=
  rl.agent = agent ∧ rl.metric = metric

instance decidableIsOf (rl : RateLimit) (agent metric : String) :
    Decidable (rl.IsOf agent metric) :=
  inferInstanceAs (Decidable (_ ∧ _))

end RateLimit

structure ConsumeOutcome where
  allowed : Bool
  tokensLeft : Float

inductive RateLimitError where
  | invalidArgument (message : String)
  /-- There is no such key. -/
  | notFound (key : String)
  /-- The memory could not read or write. -/
  | memory

abbrev RateLimits := BTreeMap String RateLimit

/-- What becomes of the listing and of the write of one call. -/
structure RateLimitIo where
  lists : Bool
  writes : Bool

/-- One character of an agent name in an id. -/
def sanitizeChar (c : Char) : Char :=
  if c.isAlphanum || c = '_' || c = '-' || c = '.' then c.toLower else '_'

def sanitize (s : String) : String := String.ofList (s.toList.map sanitizeChar)

/-- The id of a new record. -/
def rateLimitId (nowMs : UInt64) (agent : String) : String :=
  "rl-" ++ toString nowMs.toNat ++ "-" ++ sanitize agent

-- ==== the store

namespace RateLimitStore

variable [DebugText]

def rateLimitKey (id : String) : Except RateLimitError String :=
  (componentKey RATE_LIMIT_KEY_PREFIX "rate_limit id" id).mapError
    .invalidArgument

def put (mem : RateLimits) (io : RateLimitIo) (rl : RateLimit) :
    Except RateLimitError RateLimits := do
  let key ← rateLimitKey rl.id
  if io.writes then .ok (mem.insert key rl) else .error .memory

/-- All the records, in the order of their keys. -/
def list (mem : RateLimits) (io : RateLimitIo) :
    Except RateLimitError (List RateLimit) :=
  if io.lists then .ok (mem.toList.map Prod.snd) else .error .memory

def findByAgentMetric (mem : RateLimits) (io : RateLimitIo)
    (agent metric : String) : Except RateLimitError (Option RateLimit) := do
  let all ← list mem io
  .ok (all.find? fun rl => rl.IsOf agent metric)

/-- The checks of `set`; gives the capacity of the bucket. -/
def checkSet (agent metric : String) (limit : UInt32) (perMs : UInt64)
    (burst : Option UInt32) : Except RateLimitError UInt32 := do
  if agent = "" then
    .error (.invalidArgument "rate_limit.agent must be non-empty")
  else if limit = 0 then
    .error (.invalidArgument "rate_limit.limit must be >= 1")
  else if perMs = 0 then
    .error (.invalidArgument "rate_limit.per_ms must be >= 1")
  else if metric = "" then
    .error (.invalidArgument "rate_limit.metric must be non-empty")
  else if burst.getD limit = 0 then
    .error (.invalidArgument "rate_limit.burst must be >= 1")
  else .ok (burst.getD limit)

/-- The record that `set` writes. -/
def setRecord (found : Option RateLimit) (agent metric : String)
    (limit : UInt32) (perMs : UInt64) (burst : UInt32) (nowMs : UInt64) :
    RateLimit :=
  match found with
  | some existing =>
    { existing with
      limit, perMs, burst
      tokens := burst.toUInt64.toFloat
      lastRefillMs := nowMs }
  | none =>
    { id := rateLimitId nowMs agent
      agent, metric, limit, perMs, burst
      tokens := burst.toUInt64.toFloat
      lastRefillMs := nowMs
      throttledCount := 0 }

/-- Set the limit of an agent and metric: of the record they have, or of a
new one. -/
def set (mem : RateLimits) (io : RateLimitIo) (agent metric : String)
    (limit : UInt32) (perMs : UInt64) (burst : Option UInt32)
    (nowMs : UInt64) : Except RateLimitError (RateLimit × RateLimits) := do
  let burst ← checkSet agent metric limit perMs burst
  let found ← findByAgentMetric mem io agent metric
  let rl := setRecord found agent metric limit perMs burst nowMs
  let mem ← put mem io rl
  .ok (rl, mem)

def remove (mem : RateLimits) (io : RateLimitIo) (id : String) :
    Except RateLimitError RateLimits := do
  let key ← rateLimitKey id
  if key ∉ mem then .error (.notFound key)
  else if io.writes then .ok (mem.erase key) else .error .memory

/-- The record after an attempt to take `cost` tokens, and its outcome. -/
def consume (rl : RateLimit) (cost : UInt32) (nowMs : UInt64) :
    RateLimit × ConsumeOutcome :=
  let rl := rl.refill nowMs
  if rl.tokens < cost.toUInt64.toFloat then
    ({ rl with throttledCount := saturatingSucc64 rl.throttledCount },
      ⟨false, rl.tokens⟩)
  else
    let left := rl.tokens - cost.toUInt64.toFloat
    ({ rl with tokens := left }, ⟨true, left⟩)

/-- Take tokens, if there are as many. Without a limit all is allowed. -/
def tryConsume (mem : RateLimits) (io : RateLimitIo) (agent metric : String)
    (cost : UInt32) (nowMs : UInt64) :
    Except RateLimitError (ConsumeOutcome × RateLimits) := do
  let found ← findByAgentMetric mem io agent metric
  match found with
  | none => .ok (⟨true, 1 / 0⟩, mem)
  | some rl => do
      let (rl, outcome) := consume rl cost nowMs
      let mem ← put mem io rl
      .ok (outcome, mem)

end RateLimitStore

-- ==== the runs

inductive RateLimitCall where
  | set (agent metric : String) (limit : UInt32) (perMs : UInt64)
      (burst : Option UInt32) (nowMs : UInt64)
  | remove (id : String)
  | tryConsume (agent metric : String) (cost : UInt32) (nowMs : UInt64)

/-- The memory, and the id that each agent and metric was given: by a `set`
that succeeded, until a `remove` of that id succeeds. -/
structure RateLimitRun where
  mem : RateLimits
  given : String → String → Option String

namespace RateLimitRun

def start : RateLimitRun := ⟨∅, fun _ _ => none⟩

variable [DebugText]

/-- One call; one that fails changes nothing. -/
def call (s : RateLimitRun) : RateLimitCall × RateLimitIo → RateLimitRun
  | (.set agent metric limit perMs burst nowMs, io) =>
    match RateLimitStore.set s.mem io agent metric limit perMs burst
      nowMs with
    | .ok (rl, mem) =>
      ⟨mem, fun a m =>
        if a = agent ∧ m = metric then some rl.id else s.given a m⟩
    | .error _ => s
  | (.remove id, io) =>
    match RateLimitStore.remove s.mem io id with
    | .ok mem =>
      ⟨mem, fun a m =>
        if s.given a m = some id then none else s.given a m⟩
    | .error _ => s
  | (.tryConsume agent metric cost nowMs, io) =>
    match RateLimitStore.tryConsume s.mem io agent metric cost nowMs with
    | .ok (_, mem) => { s with mem }
    | .error _ => s

def run (calls : List (RateLimitCall × RateLimitIo)) : RateLimitRun :=
  calls.foldl call start

@[simp] theorem run_concat (calls : List (RateLimitCall × RateLimitIo))
    (c : RateLimitCall × RateLimitIo) :
    run (calls ++ [c]) = (run calls).call c := by
  unfold run
  rw [foldl_append]
  rfl

end RateLimitRun

open RateLimitStore

variable {mem mem' : RateLimits} {io : RateLimitIo}
  {agent metric key : String} {rl : RateLimit} {nowMs : UInt64}

-- ==== one call

theorem rateLimitKey_inj {a b : String}
    (h : RATE_LIMIT_KEY_PREFIX ++ a = RATE_LIMIT_KEY_PREFIX ++ b) : a = b := by
  have hlist := congrArg String.toList h
  rw [String.toList_append, String.toList_append] at hlist
  exact String.toList_inj.1 (append_cancel_left hlist)

theorem refill_id (rl : RateLimit) (nowMs : UInt64) :
    (rl.refill nowMs).id = rl.id ∧ (rl.refill nowMs).agent = rl.agent
      ∧ (rl.refill nowMs).metric = rl.metric := by
  unfold RateLimit.refill
  split <;> exact ⟨rfl, rfl, rfl⟩

/-- An attempt leaves the record its id and what it is of. -/
theorem consume_id (rl : RateLimit) (cost : UInt32) (nowMs : UInt64) :
    (consume rl cost nowMs).1.id = rl.id
      ∧ (consume rl cost nowMs).1.agent = rl.agent
      ∧ (consume rl cost nowMs).1.metric = rl.metric := by
  unfold consume
  dsimp only
  split <;> exact refill_id rl nowMs

theorem findByAgentMetric_eq_ok {found : Option RateLimit}
    (h : findByAgentMetric mem io agent metric = .ok found) :
    (∀ rl, found = some rl → rl.IsOf agent metric
      ∧ ∃ key : String, mem[key]? = some rl)
    ∧ (found = none → ∀ (key : String) rl, mem[key]? = some rl →
      ¬ rl.IsOf agent metric) := by
  obtain ⟨all, hall, h⟩ := bind_ok h
  unfold RateLimitStore.list at hall
  split at hall
  · cases hall
    cases h
    constructor
    · intro rl hrl
      have hof := List.find?_some
        (p := fun rl : RateLimit => decide (rl.IsOf agent metric)) hrl
      refine ⟨of_decide_eq_true hof, ?_⟩
      obtain ⟨e, he, hval⟩ := mem_map.1 (mem_of_find?_eq_some hrl)
      exact ⟨e.1, (mem_toList_iff mem e.1 rl).1 (hval ▸ he)⟩
    · intro hnone key rl hget
      have hmem : rl ∈ mem.toList.map Prod.snd := mem_map.2
        ⟨(key, rl), (mem_toList_iff mem key rl).2 hget, rfl⟩
      have := List.find?_eq_none.1 hnone rl hmem
      exact fun hof => this (decide_eq_true hof)
  · cases hall

section Call

variable [DebugText]

theorem rateLimitKey_eq {id : String} (h : rateLimitKey id = .ok key) :
    key = RATE_LIMIT_KEY_PREFIX ++ id := by
  unfold rateLimitKey componentKey at h
  dsimp only at h
  cases hvalid : validateKey (RATE_LIMIT_KEY_PREFIX ++ id) with
  | ok u =>
    rw [hvalid] at h
    cases h
    rfl
  | error e =>
    rw [hvalid] at h
    cases h

theorem put_eq_ok (h : put mem io rl = .ok mem') :
    mem' = mem.insert (RATE_LIMIT_KEY_PREFIX ++ rl.id) rl := by
  obtain ⟨key, hkey, h⟩ := bind_ok h
  split at h
  · cases h
    rw [rateLimitKey_eq hkey]
  · cases h

/-- What `set` does: it writes the record that was found, or a new one. -/
theorem set_eq_ok {limit : UInt32} {perMs : UInt64} {burst : Option UInt32}
    (h : set mem io agent metric limit perMs burst nowMs = .ok (rl, mem')) :
    mem' = mem.insert (RATE_LIMIT_KEY_PREFIX ++ rl.id) rl
      ∧ rl.IsOf agent metric
      ∧ ((∃ (key : String) (existing : RateLimit),
          mem[key]? = some existing ∧ existing.IsOf agent metric
            ∧ rl.id = existing.id)
        ∨ (∃ b, checkSet agent metric limit perMs burst = .ok b)
          ∧ (∀ (key : String) other, mem[key]? = some other →
            ¬ other.IsOf agent metric) ∧ rl.id = rateLimitId nowMs agent) := by
  obtain ⟨b, hb, h⟩ := bind_ok h
  obtain ⟨found, hfound, h⟩ := bind_ok h
  obtain ⟨m, hput, h⟩ := bind_ok h
  cases h
  obtain ⟨hsome, hnone⟩ := findByAgentMetric_eq_ok hfound
  refine ⟨put_eq_ok hput, ?_⟩
  cases found with
  | some existing =>
    obtain ⟨hof, key, hkey⟩ := hsome existing rfl
    exact ⟨hof, .inl ⟨key, existing, hkey, hof, rfl⟩⟩
  | none => exact ⟨⟨rfl, rfl⟩, .inr ⟨⟨b, hb⟩, hnone rfl, rfl⟩⟩

theorem remove_eq_ok {id : String} (h : remove mem io id = .ok mem') :
    mem' = mem.erase (RATE_LIMIT_KEY_PREFIX ++ id) := by
  obtain ⟨key, hkey, h⟩ := bind_ok h
  split at h
  · cases h
  · split at h
    · cases h
      rw [rateLimitKey_eq hkey]
    · cases h

/-- What an attempt does: nothing, or it writes the record again. -/
theorem tryConsume_eq_ok {cost : UInt32} {outcome : ConsumeOutcome}
    (h : tryConsume mem io agent metric cost nowMs = .ok (outcome, mem')) :
    mem' = mem ∨ ∃ (key : String) (old rl : RateLimit),
      mem[key]? = some old ∧ old.IsOf agent metric
        ∧ mem' = mem.insert (RATE_LIMIT_KEY_PREFIX ++ rl.id) rl
        ∧ rl.id = old.id ∧ rl.IsOf old.agent old.metric := by
  obtain ⟨found, hfound, h⟩ := bind_ok h
  cases found with
  | none =>
    cases h
    exact .inl rfl
  | some old =>
    obtain ⟨m, hput, h⟩ := bind_ok h
    cases h
    obtain ⟨hof, key, hkey⟩ := (findByAgentMetric_eq_ok hfound).1 old rfl
    obtain ⟨hid, hagent, hmetric⟩ := consume_id old cost nowMs
    exact .inr ⟨key, old, (consume old cost nowMs).1, hkey, hof,
      put_eq_ok hput, hid, hagent, hmetric⟩

end Call

-- ==== the invariant

namespace RateLimitRun

/-- The record under `key` is of this agent and metric. -/
def LiveAt (mem : RateLimits) (agent metric key : String) : Prop :=
  ∃ rl, mem[key]? = some rl ∧ rl.IsOf agent metric

/-- Every record lies under its own id, which was given to its agent and
metric, and every id that is given has its record. -/
structure Kept (s : RateLimitRun) : Prop where
  given_of_record : ∀ (key : String) rl, s.mem[key]? = some rl →
    key = RATE_LIMIT_KEY_PREFIX ++ rl.id
      ∧ s.given rl.agent rl.metric = some rl.id
  record_of_given : ∀ agent metric id, s.given agent metric = some id →
    ∃ rl, s.mem[RATE_LIMIT_KEY_PREFIX ++ id]? = some rl ∧ rl.id = id
      ∧ rl.IsOf agent metric

variable {s : RateLimitRun}

/-- A record is written over itself. -/
theorem Kept.rewrite (h : s.Kept) {old : RateLimit}
    (hold : s.mem[key]? = some old) (hid : rl.id = old.id)
    (hof : rl.IsOf old.agent old.metric) :
    Kept { s with
      mem := s.mem.insert (RATE_LIMIT_KEY_PREFIX ++ rl.id) rl } := by
  obtain ⟨hkey, hgiven⟩ := h.given_of_record key old hold
  constructor
  · intro k r hr
    rw [get_insert] at hr
    split at hr
    · rename_i hk
      cases hr
      refine ⟨hk.symm, ?_⟩
      rw [hof.1, hof.2, hid]
      exact hgiven
    · exact h.given_of_record k r hr
  · intro agent metric id hid'
    obtain ⟨r, hr, hrid, hrof⟩ := h.record_of_given agent metric id hid'
    by_cases hsame : id = rl.id
    · subst hsame
      refine ⟨rl, ?_, rfl, ?_⟩
      · rw [get_insert, if_pos rfl]
      · -- the record there is the one that is written over
        rw [hid, ← hkey, hold] at hr
        cases hr
        exact ⟨hof.1.trans hrof.1, hof.2.trans hrof.2⟩
    · refine ⟨r, ?_, hrid, hrof⟩
      rw [get_insert, if_neg fun he => hsame (rateLimitKey_inj he).symm]
      exact hr

/-- A new record is written under a key of its own. -/
theorem Kept.add (h : s.Kept)     (hof : rl.IsOf agent metric)
    (hnone : ∀ (key : String) r, s.mem[key]? = some r → ¬ r.IsOf agent metric)
    (hfresh : ∀ (key : String) r, s.mem[key]? = some r → r.id ≠ rl.id) :
    Kept
      ⟨s.mem.insert (RATE_LIMIT_KEY_PREFIX ++ rl.id) rl, fun a m =>
          if a = agent ∧ m = metric then some rl.id else s.given a m⟩ := by
  constructor
  · intro k r hr
    dsimp only at hr ⊢
    rw [get_insert] at hr
    split at hr
    · rename_i hk
      cases hr
      exact ⟨hk.symm, if_pos hof⟩
    · obtain ⟨hkey, hgiven⟩ := h.given_of_record k r hr
      exact ⟨hkey, (if_neg (hnone k r hr)).trans hgiven⟩
  · intro a m id hid
    dsimp only at hid ⊢
    split at hid
    · rename_i hpair
      cases hid
      refine ⟨rl, ?_, rfl, ?_⟩
      · rw [get_insert, if_pos rfl]
      · exact ⟨hof.1.trans hpair.1.symm, hof.2.trans hpair.2.symm⟩
    · obtain ⟨r, hr, hrid, hrof⟩ := h.record_of_given a m id hid
      refine ⟨r, ?_, hrid, hrof⟩
      rw [get_insert, if_neg]
      · exact hr
      · intro he
        exact hfresh _ r hr (hrid.trans (rateLimitKey_inj he).symm)

/-- A record is taken away, and its id with it. -/
theorem Kept.erase (h : s.Kept) (id : String) :
    Kept
      ⟨s.mem.erase (RATE_LIMIT_KEY_PREFIX ++ id),
        fun a m => if s.given a m = some id then none else s.given a m⟩ := by
  constructor
  · intro k r hr
    dsimp only at hr ⊢
    rw [get_erase] at hr
    split at hr
    · cases hr
    · rename_i hk
      obtain ⟨hkey, hgiven⟩ := h.given_of_record k r hr
      refine ⟨hkey, ?_⟩
      rw [hgiven, if_neg]
      intro he
      cases he
      exact hk hkey.symm
  · intro a m id' hid'
    dsimp only at hid' ⊢
    split at hid'
    · cases hid'
    · rename_i hne
      obtain ⟨r, hr, hrid, hrof⟩ := h.record_of_given a m id' hid'
      refine ⟨r, ?_, hrid, hrof⟩
      rw [get_erase, if_neg]
      · exact hr
      · intro he
        exact hne (by rw [hid', rateLimitKey_inj he])

theorem Kept.liveAt_iff (h : s.Kept) :
    LiveAt s.mem agent metric key
      ↔ ∃ id, s.given agent metric = some id
        ∧ key = RATE_LIMIT_KEY_PREFIX ++ id := by
  constructor
  · rintro ⟨rl, hget, rfl, rfl⟩
    obtain ⟨hkey, hgiven⟩ := h.given_of_record key rl hget
    exact ⟨rl.id, hgiven, hkey⟩
  · rintro ⟨id, hgiven, rfl⟩
    obtain ⟨rl, hget, -, hof⟩ := h.record_of_given agent metric id hgiven
    exact ⟨rl, hget, hof⟩

-- ==== the steps

theorem start_kept : start.Kept where
  given_of_record key rl h := by
    have hnone : (∅ : RateLimits)[key]? = none :=
      Std.ExtTreeMap.getElem?_empty
    rw [show start.mem = ∅ from rfl, hnone] at h
    cases h
  record_of_given agent metric id h := by cases h

section Steps

variable [DebugText]

/-- A new record does not get the id of one there is: none was made in the
same millisecond for an agent whose name reads the same in an id. -/
def Apart (s : RateLimitRun) : RateLimitCall → Prop
  | .set agent metric limit perMs burst nowMs =>
    (∃ b, checkSet agent metric limit perMs burst = .ok b) →
    (∀ (key : String) rl, s.mem[key]? = some rl →
      ¬ rl.IsOf agent metric) →
    ∀ (key : String) rl, s.mem[key]? = some rl →
      rl.id ≠ rateLimitId nowMs agent
  | .remove _ | .tryConsume _ _ _ _ => True

/-- A call keeps the invariant. -/
theorem Kept.call (h : s.Kept) {c : RateLimitCall} (hapart : s.Apart c)
    (io : RateLimitIo) : (s.call (c, io)).Kept := by
  cases c with
  | set agent metric limit perMs burst nowMs =>
    unfold RateLimitRun.call
    dsimp only
    split
    · rename_i rl mem' hset
      obtain ⟨rfl, hof, hwritten⟩ := set_eq_ok hset
      rcases hwritten with ⟨key, old, hold, hofOld, hid⟩ | ⟨hb, hnone, hid⟩
      · obtain ⟨rfl, rfl⟩ := hofOld
        have hgiven : (fun a m =>
            if a = old.agent ∧ m = old.metric then some rl.id
            else s.given a m) = s.given := by
          funext a m
          split
          · rename_i hpair
            rw [hpair.1, hpair.2, hid]
            exact (h.given_of_record key old hold).2.symm
          · rfl
        rw [hgiven]
        exact h.rewrite hold hid hof
      · refine h.add hof hnone fun key r hr => ?_
        rw [hid]
        exact hapart hb hnone key r hr
    · exact h
  | remove id =>
    unfold RateLimitRun.call
    dsimp only
    split
    · rename_i mem' hremove
      rw [remove_eq_ok hremove]
      exact h.erase id
    · exact h
  | tryConsume agent metric cost nowMs =>
    unfold RateLimitRun.call
    dsimp only
    split
    · rename_i outcome mem' htry
      rcases tryConsume_eq_ok htry with
        rfl | ⟨key, old, rl, hold, -, rfl, hid, hof⟩
      · exact h
      · exact h.rewrite hold hid hof
    · exact h

theorem Kept.set_frame (h : s.Kept)
    {limit : UInt32} {perMs : UInt64} {burst : Option UInt32}
    (hapart : s.Apart (.set agent metric limit perMs burst nowMs))
    (io : RateLimitIo) {other : RateLimit}
    (hget : s.mem[key]? = some other) (hne : ¬ other.IsOf agent metric) :
    (s.call (.set agent metric limit perMs burst nowMs, io)).mem[key]?
      = some other := by
  unfold RateLimitRun.call
  dsimp only
  split
  · rename_i rl mem' hset
    obtain ⟨rfl, hof, hwritten⟩ := set_eq_ok hset
    dsimp only
    rw [get_insert, if_neg]
    · exact hget
    · -- what is written does not lie under the key of another
      rintro rfl
      have hid := rateLimitKey_inj (h.given_of_record _ other hget).1
      rcases hwritten with
        ⟨k, old, hold, hofOld, hsame⟩ | ⟨hb, hnone, hnew⟩
      · have hk := (h.given_of_record k old hold).1
        rw [hk, ← hsame, hget] at hold
        cases hold
        exact hne hofOld
      · exact hapart hb hnone _ other hget (hid.symm.trans hnew)
  · exact hget

/-- Each call of a run is apart from the records before it. -/
def AllApart (calls : List (RateLimitCall × RateLimitIo)) : Prop :=
  ∀ before c after, calls = before ++ c :: after → (run before).Apart c.1

theorem run_kept {calls : List (RateLimitCall × RateLimitIo)}
    (h : AllApart calls) : (run calls).Kept := by
  induction calls using reverseRecOn with
  | nil => exact start_kept
  | append_singleton calls c ih =>
    rw [run_concat]
    apply (ih fun before d after he => ?_).call
      (h calls c [] rfl) c.2
    exact h before d (after ++ [c]) (by rw [he, append_assoc]; rfl)

/-- Runs whose new records get new ids: each agent and metric that was set
and not removed has exactly one record, the others have none, and a `set`
leaves the records of others as they are. -/
theorem records_kept (calls : List (RateLimitCall × RateLimitIo))
    (h : AllApart calls) :
    (∀ agent metric, ((run calls).given agent metric).isSome = true →
      ∃! key, LiveAt (run calls).mem agent metric key)
    ∧ (∀ agent metric, (run calls).given agent metric = none →
      ∀ key, ¬ LiveAt (run calls).mem agent metric key)
    ∧ ∀ before agent metric limit perMs burst nowMs io after,
      calls = before
        ++ (.set agent metric limit perMs burst nowMs, io) :: after →
      ∀ (key : String) other, (run before).mem[key]? = some other →
        ¬ other.IsOf agent metric →
        (run (before ++
          [(.set agent metric limit perMs burst nowMs, io)])).mem[key]?
          = some other := by
  have hkept := run_kept h
  refine ⟨?_, ?_, ?_⟩
  · intro agent metric hset
    obtain ⟨id, hid⟩ := Option.isSome_iff_exists.1 hset
    refine ⟨RATE_LIMIT_KEY_PREFIX ++ id, hkept.liveAt_iff.2 ⟨id, hid, rfl⟩,
      ?_⟩
    intro key hkey
    obtain ⟨id', hid', rfl⟩ := hkept.liveAt_iff.1 hkey
    rw [hid] at hid'
    cases hid'
    rfl
  · intro agent metric hnone key hkey
    obtain ⟨id, hid, -⟩ := hkept.liveAt_iff.1 hkey
    rw [hnone] at hid
    cases hid
  · intro before agent metric limit perMs burst nowMs io after hcalls key
      other hget hne
    have hbefore : AllApart before := fun b c a he =>
      h b c (a ++ (.set agent metric limit perMs burst nowMs, io) :: after)
        (by rw [hcalls, he, List.append_assoc]; rfl)
    rw [run_concat]
    exact (run_kept hbefore).set_frame (h _ _ _ hcalls) io hget hne

end Steps

-- ==== one millisecond

section Clobbered

local instance bareText : DebugText where
  char _ := ""
  string s := s

/-- The listing and the write succeed. -/
def fine : RateLimitIo := ⟨true, true⟩

/-- One agent gets two limits in one millisecond. -/
def sameMillisecond : List (RateLimitCall × RateLimitIo) :=
  [(.set "a" "calls" 1 1 none 5, fine),
    (.set "a" "bytes" 1 1 none 5, fine)]

/-- The second limit takes the place of the first. -/
theorem record_clobbered :
    ((run sameMillisecond).given "a" "calls").isSome = true
      ∧ ∀ key, ¬ LiveAt (run sameMillisecond).mem "a" "calls" key := by
  refine ⟨by decide +kernel, ?_⟩
  rintro key ⟨rl, hget, hof⟩
  have hall : (run sameMillisecond).mem.toList.all
      (fun e => !decide (e.2.IsOf "a" "calls")) = true := by
    decide +kernel
  have hmem := (BTreeMap.mem_toList_iff _ key rl).2 hget
  have hnot := List.all_eq_true.1 hall _ hmem
  rw [decide_eq_true hof] at hnot
  cases hnot

/-- The same limits a millisecond apart. -/
theorem records_kept_apart :
    ∃! key, LiveAt (run [(.set "a" "calls" 1 1 none 5, fine),
      (.set "a" "bytes" 1 1 none 6, fine)]).mem "a" "calls" key := by
  refine (records_kept _ ?_).1 "a" "calls" (by decide +kernel)
  intro before c after hcalls
  match before, hcalls with
  | [], hcalls =>
    cases hcalls
    intro _ _ key rl hget
    have hnone : (∅ : RateLimits)[key]? = none :=
      Std.ExtTreeMap.getElem?_empty
    rw [show (run []).mem = ∅ from rfl, hnone] at hget
    cases hget
  | [_], hcalls =>
    cases hcalls
    intro _ _ key rl hget
    have hall : (run [(.set "a" "calls" 1 1 none 5, fine)]).mem.toList.all
        (fun e => e.2.id ≠ rateLimitId 6 "a") = true := by
      decide +kernel
    have hmem := (BTreeMap.mem_toList_iff _ key rl).2 hget
    exact of_decide_eq_true (List.all_eq_true.1 hall _ hmem)
  | _ :: _ :: _ :: _, hcalls => simp at hcalls
  | [_, _], hcalls => simp at hcalls

end Clobbered

end RateLimitRun

end Tasty.Agent
