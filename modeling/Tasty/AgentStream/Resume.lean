/-
What a reader of the event stream can rely on, over any run: however often
it comes back with the last id it saw, and whatever the queues, the buffer
and the crashes do in between.

A crash takes back the numbers that were given since the last save, and they
are given again. A reader that saw one of them has a cursor that means
another event now: it is `stale`. For every other reader the ids rise, and
what it did not see up to its latest id is in a gap it was told of or was
refused by its full queue, which the hub counts.
-/
import Tasty.AgentStream.Serving

namespace Tasty.AgentStream.Sse

open List

open Cursor (Rising Explained Accounted)

-- ==== the readers

/-- What the reader of a connection knows once `k` frames came: the events
are real, their numbers rise, and up to the latest of them the reader saw
every event of its filter, or was told of a gap, or its queue was full. -/
structure Faithful (log : List BufferedEvent) (c : Connection) (k : Nat) :
    Prop where
  rising : Rising BufferedEvent.seq (eventsOf (c.view k))
  real : ∀ e ∈ eventsOf (c.view k), e ∈ log ∧ c.opts.wants e = true
    ∧ c.start < e.seq
  accounted : ∀ x ∈ eventsOf (c.view k), Accounted BufferedEvent.seq log
    c.opts.wants c.start x.seq (eventsOf (c.view k)) (gapsOf (c.view k))
    (c.refusedBefore ++ c.refused)

/-- What the reader knew when it subscribed. -/
structure Began (log : List BufferedEvent) (c : Connection) : Prop where
  rising : Rising BufferedEvent.seq (eventsOf c.before)
  real : ∀ e ∈ eventsOf c.before, e ∈ log ∧ c.opts.wants e = true
    ∧ c.start < e.seq ∧ e.seq ≤ c.cursor
  accounted : Accounted BufferedEvent.seq log c.opts.wants c.start c.cursor
    (eventsOf c.before) (gapsOf c.before) c.refusedBefore
  start_le : c.start ≤ c.cursor

/-- Where a reader goes on from: the number it resumes with, and its first
one if it has seen nothing. -/
structure Rooted (c : Connection) : Prop where
  unseen : eventsOf c.before = [] → c.start = c.cursor
  resumed : ∀ r, c.resume = some r → c.cursor = r

/-- A connection whose reader can rely on it. -/
def Reading (log : List BufferedEvent) (pub : Nat) (c : Connection) : Prop :=
  Began log c ∧ ∃ plan base passed replayed,
    Served log pub c plan base passed replayed

section Readers

variable {log log' : List BufferedEvent} {pub pub' : Nat}
  {c c' : Connection} {k : Nat}

/-- The log has grown, and `c` knew nothing of what is new. -/
theorem Faithful.of_log (h : Faithful log c k)
    (hlog : ∀ e ∈ log, (∃ x ∈ eventsOf (c.view k), e.seq ≤ x.seq) → e ∈ log')
    (hold : ∀ e ∈ log', ∀ x ∈ eventsOf (c.view k), e.seq ≤ x.seq → e ∈ log) :
    Faithful log' c k where
  rising := h.rising
  real e he := ⟨hlog e (h.real e he).1 ⟨e, he, Nat.le_refl _⟩, (h.real e he).2⟩
  accounted x hx :=
    (h.accounted x hx).of_log fun e he hle => hold e he x hx hle

theorem Began.of_log (h : Began log c) (hlog : ∀ e ∈ log, e ∈ log')
    (hold : ∀ e ∈ log', e.seq ≤ c.cursor → e ∈ log) : Began log' c where
  rising := h.rising
  real e he := ⟨hlog e (h.real e he).1, (h.real e he).2⟩
  accounted := h.accounted.of_log hold
  start_le := h.start_le

theorem view_subset (c : Connection) (k : Nat) :
    eventsOf c.before ⊆ eventsOf (c.view k)
      ∧ gapsOf c.before ⊆ gapsOf (c.view k) := by
  unfold Connection.view
  rw [eventsOf_append, gapsOf_append]
  exact ⟨subset_append_left _ _, subset_append_left _ _⟩

/-- A served reader can rely on what it saw, wherever it stops reading. -/
theorem Reading.faithful (h : Reading log pub c) (k : Nat) :
    Faithful log c k := by
  obtain ⟨hbegan, plan, base, passed, replayed, hserved⟩ := h
  have hfront : c.out.take k <+: plan :=
    (List.take_prefix k c.out).trans hserved.written
  have hevents := eventsOf_left hfront
  have hview : eventsOf (c.view k)
      = eventsOf c.before ++ eventsOf (c.out.take k) := by
    rw [Connection.view, eventsOf_append]
  have hlater : ∀ e ∈ eventsOf (c.out.take k), e ∈ log
      ∧ c.opts.wants e = true ∧ c.cursor < e.seq := by
    intro e he
    obtain ⟨hmem, hw, hlo, _⟩ := hserved.plan_mem e (hevents.subset he)
    exact ⟨hmem, hw, hlo⟩
  have hstart := hbegan.start_le
  obtain ⟨hbefore, hgaps⟩ := view_subset c k
  refine ⟨?_, fun e he => ?_, fun x hx e he hw hlo hhi => ?_⟩
  · rw [hview]
    refine hbegan.rising.append
      (hserved.plan_rising.sublist hevents.sublist) fun a ha b hb => ?_
    exact Nat.lt_of_le_of_lt (hbegan.real a ha).2.2.2 (hlater b hb).2.2
  · rw [hview] at he
    rcases mem_append.1 he with he | he
    · obtain ⟨hmem, hw, hlo, _⟩ := hbegan.real e he
      exact ⟨hmem, hw, hlo⟩
    · obtain ⟨hmem, hw, hlo⟩ := hlater e he
      exact ⟨hmem, hw, by omega⟩
  · by_cases hle : e.seq ≤ c.cursor
    · exact (hbegan.accounted e he hw hlo hle).mono hbefore hgaps
        (subset_append_left _ _)
    · have hx : x ∈ eventsOf (c.out.take k) := by
        rw [hview] at hx
        rcases mem_append.1 hx with hx | hx
        · have hxle := (hbegan.real x hx).2.2.2
          omega
        · exact hx
      rcases hserved.accounted (hevents.subset hx) e he hw (by omega) hhi
        with hseen | hgap | hrefused
      · obtain ⟨rest, hrest⟩ := hevents
        have hrising := hserved.plan_rising
        rw [← hrest] at hrising hseen
        rw [hview]
        exact .inl (mem_append_right _ (hrising.mem_left hseen hx hhi))
      · obtain ⟨g, hg, hin⟩ := hgap
        refine .inr (.inl ⟨g, ?_, hin⟩)
        rw [Connection.view, gapsOf_append]
        exact mem_append_right _
          (hserved.gaps_first.gaps_subset hfront hx hg)
      · exact .inr (.inr (mem_append_right _ hrefused))

/-- Whatever the reader of a served connection saw has been published. -/
theorem Reading.le_pub (h : Reading log pub c) :
    c.cursor ≤ pub ∧ ∀ e ∈ eventsOf (c.view k), e.seq ≤ pub := by
  obtain ⟨hbegan, plan, base, passed, replayed, hserved⟩ := h
  have hcursor : c.cursor ≤ pub := Nat.le_trans hserved.cursor_le
    (Nat.le_trans hserved.base_le hserved.passed_le)
  refine ⟨hcursor, fun e he => ?_⟩
  rw [Connection.view, eventsOf_append] at he
  rcases mem_append.1 he with he | he
  · exact Nat.le_trans (hbegan.real e he).2.2.2 hcursor
  · have hmem := (eventsOf_left
      ((List.take_prefix k c.out).trans hserved.written)).subset he
    have hmax := (hserved.plan_mem e hmem).2.2.2
    have hpassed := hserved.passed_le
    have hreplayed := hserved.replayed_le
    omega

/-- A step that does not touch what its reader knew before. -/
structure SameReader (c c' : Connection) : Prop where
  opts : c'.opts = c.opts
  resume : c'.resume = c.resume
  before : c'.before = c.before
  start : c'.start = c.start
  cursor : c'.cursor = c.cursor
  refusedBefore : c'.refusedBefore = c.refusedBefore
  stale : c'.stale = c.stale

theorem SameReader.rfl' (c : Connection) : SameReader c c :=
  ⟨rfl, rfl, rfl, rfl, rfl, rfl, rfl⟩

theorem SameReader.began (hs : SameReader c c') (h : Began log c) :
    Began log c' := by
  obtain ⟨hopts, _, hbefore, hstart, hcursor, hrefused, _⟩ := hs
  refine ⟨?_, ?_, ?_, ?_⟩
  · rw [hbefore]
    exact h.rising
  · rw [hbefore, hopts, hstart, hcursor]
    exact h.real
  · rw [hbefore, hopts, hstart, hcursor, hrefused]
    exact h.accounted
  · rw [hstart, hcursor]
    exact h.start_le

theorem SameReader.rooted (hs : SameReader c c') (h : Rooted c) :
    Rooted c' := by
  obtain ⟨_, hresume, hbefore, hstart, hcursor, _, _⟩ := hs
  refine ⟨?_, ?_⟩
  · rw [hbefore, hstart, hcursor]
    exact h.unseen
  · rw [hresume, hcursor]
    exact h.resumed

theorem sameReader_offer (c : Connection) (e : BufferedEvent) :
    SameReader c (c.offer e).1 := by
  unfold Connection.offer
  cases hsub : c.sub with
  | none => exact .rfl' c
  | some sub =>
    unfold Connection.deliver
    dsimp only
    split
    · exact .rfl' c
    · split
      · exact ⟨rfl, rfl, rfl, rfl, rfl, rfl, rfl⟩
      · split
        · exact ⟨rfl, rfl, rfl, rfl, rfl, rfl, rfl⟩
        · split <;> exact ⟨rfl, rfl, rfl, rfl, rfl, rfl, rfl⟩

theorem sameReader_advance (c : Connection) (flag : Bool) :
    SameReader c (c.advance flag).1 := by
  unfold Connection.advance
  split
  · unfold Connection.write
    split <;> exact ⟨rfl, rfl, rfl, rfl, rfl, rfl, rfl⟩
  · unfold Connection.pump
    split
    · exact ⟨rfl, rfl, rfl, rfl, rfl, rfl, rfl⟩
    · split
      · split <;> exact ⟨rfl, rfl, rfl, rfl, rfl, rfl, rfl⟩
      · split
        · exact ⟨rfl, rfl, rfl, rfl, rfl, rfl, rfl⟩
        · split <;> exact ⟨rfl, rfl, rfl, rfl, rfl, rfl, rfl⟩
  · exact .rfl' c

/-- The reader comes back: what it knows is what it knew. -/
theorem Began.resubscribe (h : Faithful log c k) (hrooted : Rooted c)
    {r : Nat} (hlast : c.lastId k = some r) {stale : Bool} :
    Began log { Connection.subscribe c.opts (some r) r stale with
      before := c.view k, start := c.start
      refusedBefore := c.refusedBefore ++ c.refused } := by
  unfold Connection.lastId at hlast
  split at hlast
  case h_1 x hx =>
    cases hlast
    have hmem := mem_of_getLast? hx
    refine ⟨h.rising, fun e he => ?_, h.accounted x hmem,
      Nat.le_of_lt (h.real x hmem).2.2⟩
    obtain ⟨hin, hw, hlo⟩ := h.real e he
    exact ⟨hin, hw, hlo, h.rising.le_getLast hx he⟩
  case h_2 hnone =>
    have hnone := getLast?_eq_none_iff.1 hnone
    have hbefore : eventsOf c.before = [] :=
      subset_nil.1 (hnone ▸ (view_subset c k).1)
    have hstart : c.start = r :=
      (hrooted.unseen hbefore).trans (hrooted.resumed r hlast)
    refine ⟨?_, fun e he => ?_, ?_, Nat.le_of_eq hstart⟩
    · dsimp only
      rw [hnone]
      exact .nil
    · dsimp only at he
      rw [hnone] at he
      cases he
    · exact .empty (Nat.le_of_eq hstart.symm)

theorem Rooted.resubscribe (hrooted : Rooted c) {r : Nat}
    (hlast : c.lastId k = some r) {stale : Bool} :
    Rooted { Connection.subscribe c.opts (some r) r stale with
      before := c.view k, start := c.start
      refusedBefore := c.refusedBefore ++ c.refused } := by
  refine ⟨fun hnone => ?_, fun r' hr => Option.some.inj hr⟩
  have hbefore : eventsOf c.before = [] :=
    subset_nil.1 (hnone ▸ (view_subset c k).1)
  unfold Connection.lastId at hlast
  split at hlast
  case h_1 x hx =>
    dsimp only at hnone
    rw [hnone] at hx
    cases hx
  case h_2 =>
    exact (hrooted.unseen hbefore).trans (hrooted.resumed r hlast)

end Readers

-- ==== the numbers

/-- The event that is being pushed. -/
def State.pending (s : State) : List BufferedEvent :=
  (s.pushing.map Prod.fst).toList

/-- The numbers that no crash took back are 1, 2, … in order, the buffer has
the last of them, and a number that was given twice was taken back once. -/
structure Numbers (s : State) : Prop where
  numbers : s.log.map BufferedEvent.seq = List.range' 1 s.registry.nextSeq
  ring : ∃ gone, s.log = gone ++ s.registry.events ++ s.pending
  unique : s.given.Pairwise fun a b =>
    a.event.seq = b.event.seq → a.lost = true
  saved_le : s.saved.getD 0 ≤ s.registry.nextSeq

variable {e : BufferedEvent}

section Numbers

variable {s : State}

theorem Numbers.rising (h : Numbers s) : Rising BufferedEvent.seq s.log := by
  have hlt := pairwise_lt_range' (s := 1) (n := s.registry.nextSeq)
  rw [← h.numbers] at hlt
  exact pairwise_map.1 hlt

theorem Numbers.le (h : Numbers s) (he : e ∈ s.log) :
    e.seq ≤ s.registry.nextSeq := by
  have hmem := mem_map_of_mem (f := BufferedEvent.seq) he
  rw [h.numbers, mem_range'_1] at hmem
  omega

theorem pending_of_push {stage : Stage}
    (hpush : s.pushing = some (e, stage)) : s.pending = [e] := by
  rw [State.pending, hpush]
  rfl

theorem Numbers.pushed (h : Numbers s) {stage : Stage}
    (hpush : s.pushing = some (e, stage)) :
    e ∈ s.log ∧ e.seq = s.registry.nextSeq := by
  obtain ⟨gone, hlog⟩ := h.ring
  have hpending := pending_of_push hpush
  rw [hpending] at hlog
  refine ⟨hlog ▸ mem_append_right _ (mem_singleton_self e), ?_⟩
  have hnumbers := h.numbers
  rw [hlog, map_append] at hnumbers
  cases hn : s.registry.nextSeq with
  | zero =>
    rw [hn] at hnumbers
    simp at hnumbers
  | succ n =>
    rw [hn, List.range'_1_concat] at hnumbers
    have hlast := (append_inj' hnumbers rfl).2
    have hseq := (List.cons.inj hlast).1
    omega

theorem Numbers.same (h : Numbers s) {s' : State}
    (hnext : s'.registry.nextSeq = s.registry.nextSeq)
    (hevents : s'.registry.events = s.registry.events)
    (hgiven : s'.given = s.given) (hpending : s'.pending = s.pending)
    (hsaved : s'.saved.getD 0 ≤ s.registry.nextSeq) : Numbers s' := by
  have hlog : s'.log = s.log := by
    unfold State.log
    rw [hgiven]
  refine ⟨?_, ?_, ?_, ?_⟩
  · rw [hlog, hnext]
    exact h.numbers
  · rw [hlog, hevents, hpending]
    exact h.ring
  · rw [hgiven]
    exact h.unique
  · rw [hnext]
    exact hsaved

theorem log_snoc (given : List Given) (e : BufferedEvent) :
    ((given ++ [Given.mk e false]).filter fun g => !g.lost).map Given.event
      = (given.filter fun g => !g.lost).map Given.event ++ [e] := by
  rw [filter_append, map_append]
  rfl

/-- A crash takes the numbers above the saved one back. -/
theorem log_crash (s : State) : s.crash.log
    = s.log.filter fun e => e.seq ≤ s.saved.getD 0 := by
  unfold State.log State.crash
  dsimp only
  induction s.given with
  | nil => rfl
  | cons g given ih =>
    by_cases hlost : g.lost <;>
      by_cases hle : s.saved.getD 0 < g.event.seq <;>
      simp_all

theorem filter_range' {v n : Nat} (h : v ≤ n) :
    (List.range' 1 n).filter (fun i => i ≤ v) = List.range' 1 v := by
  obtain ⟨d, rfl⟩ := Nat.exists_eq_add_of_le h
  rw [← List.range'_append_1, filter_append,
    filter_eq_self.2, filter_eq_nil_iff.2, append_nil]
  · intro i hi
    rw [mem_range'_1] at hi
    simp only [decide_eq_true_eq]
    omega
  · intro i hi
    rw [mem_range'_1] at hi
    simp only [decide_eq_true_eq]
    omega

theorem Numbers.crash (h : Numbers s) : Numbers s.crash := by
  refine ⟨?_, ⟨s.crash.log, by simp [State.crash, State.pending,
    StreamRegistry.new]⟩, ?_, Nat.le_refl _⟩
  · rw [log_crash]
    have hmap := congrArg
      (List.filter fun i => decide (i ≤ s.saved.getD 0)) h.numbers
    rw [filter_range' h.saved_le, filter_map] at hmap
    exact hmap
  · unfold State.crash
    dsimp only
    refine pairwise_map.2 (h.unique.imp fun {a b} hab hseq => ?_)
    dsimp only at hseq ⊢
    rw [hab hseq]
    rfl

theorem Numbers.push (h : Numbers s) (hidle : s.pushing = none)
    (surfaceId : UInt32) (sessionId : String) (event : StreamEvent)
    (now : Nat) {s' : State}
    (hs : s' = s.step (.push surfaceId sessionId event now)) :
    Numbers s' ∧ s'.published = s.published
      ∧ ∃ e, s'.log = s.log ++ [e] ∧ e.seq = s.published + 1 := by
  have hstep : s' = { s with
      registry := (s.registry.number surfaceId sessionId event now).1
      pushing := some
        ((s.registry.number surfaceId sessionId event now).2, .numbered)
      given := s.given
        ++ [⟨(s.registry.number surfaceId sessionId event now).2, false⟩] } := by
    rw [hs]
    unfold State.step
    dsimp only
    rw [hidle]
    rfl
  have hlog : s'.log = s.log
      ++ [(s.registry.number surfaceId sessionId event now).2] := by
    rw [hstep]
    exact log_snoc _ _
  have hpub : s.published = s.registry.nextSeq := by
    unfold State.published
    rw [hidle]
  have hseq : (s.registry.number surfaceId sessionId event now).2.seq
      = s.registry.nextSeq + 1 := rfl
  refine ⟨⟨?_, ?_, ?_, ?_⟩, ?_, _, hlog, by rw [hseq, hpub]⟩
  · rw [hlog, map_append, h.numbers, hstep]
    exact (List.range'_1_concat.trans (by rw [Nat.add_comm]; rfl)).symm
  · obtain ⟨gone, hgone⟩ := h.ring
    refine ⟨gone, ?_⟩
    rw [hlog, hgone, hstep]
    unfold State.pending
    rw [hidle]
    simp [StreamRegistry.number]
  · rw [hstep]
    refine pairwise_append.2
      ⟨h.unique, pairwise_singleton _ _, fun a ha b hb hab => ?_⟩
    rw [mem_singleton.1 hb] at hab
    by_contra hlost
    have hmem : a.event ∈ s.log := mem_map_of_mem
      (mem_filter.2 ⟨ha, by simpa using hlost⟩)
    have hle := h.le hmem
    dsimp only at hab
    omega
  · rw [hstep]
    exact Nat.le_succ_of_le h.saved_le
  · rw [hpub, hstep]
    rfl

end Numbers

-- ==== the run

/-- Every reader, of this process and of those before, can rely on what it
saw of numbers that were not taken back. -/
structure Readers (log : List BufferedEvent) (pub : Nat)
    (connections : List Connection) (past : List Past) : Prop where
  rooted : ∀ c ∈ connections, Rooted c
  reading : ∀ c ∈ connections, c.stale = false → Reading log pub c
  limit_le : ∀ p ∈ past, p.limit ≤ pub
  past_rooted : ∀ p ∈ past, Rooted p.connection
  past_rising : ∀ p ∈ past, p.connection.stale = false → ∀ k,
    Rising BufferedEvent.seq (eventsOf (p.connection.view k))
  faithful : ∀ p ∈ past, p.connection.stale = false → ∀ k,
    (∀ e ∈ eventsOf (p.connection.view k), e.seq ≤ p.limit) →
    Faithful log p.connection k

namespace Readers

variable {log log' : List BufferedEvent} {pub pub' : Nat}
  {connections : List Connection} {past : List Past} {c c' : Connection}

variable (h : Readers log pub connections past)

include h

/-- The log grows and the hub goes on, without these connections. -/
theorem later
    (hlog : ∀ e ∈ log, e ∈ log') (hold : ∀ e ∈ log', e.seq ≤ pub → e ∈ log)
    (hpub : pub ≤ pub')
    (hsub : ∀ c ∈ connections, c.sub.isSome = true → pub' = pub) :
    Readers log' pub' connections past where
  rooted := h.rooted
  reading c hc hstale := by
    have hreading := h.reading c hc hstale
    have hcursor := (hreading.le_pub (k := 0)).1
    obtain ⟨hbegan, plan, base, passed, replayed, hserved⟩ := hreading
    exact ⟨hbegan.of_log hlog fun e he hle => hold e he (by omega), plan,
      base, passed, replayed, hserved.later hlog hold hpub (hsub c hc)⟩
  limit_le p hp := Nat.le_trans (h.limit_le p hp) hpub
  past_rooted := h.past_rooted
  past_rising := h.past_rising
  faithful p hp hstale k hlimit := by
    refine (h.faithful p hp hstale k hlimit).of_log
      (fun e he _ => hlog e he) fun e he x hx hle => hold e he ?_
    have hx := hlimit x hx
    have hp := h.limit_le p hp
    omega

/-- One connection takes a step. -/
theorem set {i : Nat} (hi : connections[i]? = some c) (hsame : SameReader c c')
    (hserved : ∀ plan base passed replayed,
      Served log pub c plan base passed replayed →
      ∃ plan' replayed', Served log pub c' plan' base passed replayed') :
    Readers log pub (connections.set i c') past := by
  have hc := mem_of_getElem? hi
  refine { h with rooted := fun x hx => ?_, reading := fun x hx hstale => ?_ }
  · rcases mem_or_eq_of_mem_set hx with hx | rfl
    · exact h.rooted x hx
    · exact hsame.rooted (h.rooted c hc)
  · rcases mem_or_eq_of_mem_set hx with hx | rfl
    · exact h.reading x hx hstale
    · obtain ⟨hbegan, plan, base, passed, replayed, hc⟩ :=
        h.reading c hc (hsame.stale ▸ hstale)
      obtain ⟨plan', replayed', hc'⟩ :=
        hserved plan base passed replayed hc
      exact ⟨hsame.began hbegan, plan', base, passed, replayed', hc'⟩

/-- The hub takes a step with every connection. -/
theorem map {f : Connection → Connection} (hpub : pub ≤ pub')
    (hsame : ∀ c, SameReader c (f c)) (hserved : ∀ c plan base passed replayed,
      Served log pub c plan base passed replayed →
      ∃ passed', Served log pub' (f c) plan base passed' replayed) :
    Readers log pub' (connections.map f) past where
  rooted x hx := by
    obtain ⟨c, hc, rfl⟩ := mem_map.1 hx
    exact (hsame c).rooted (h.rooted c hc)
  reading x hx hstale := by
    obtain ⟨c, hc, rfl⟩ := mem_map.1 hx
    obtain ⟨hbegan, plan, base, passed, replayed, hc⟩ :=
      h.reading c hc ((hsame c).stale ▸ hstale)
    obtain ⟨passed', hc'⟩ := hserved c plan base passed replayed hc
    exact ⟨(hsame c).began hbegan, plan, base, passed', replayed, hc'⟩
  limit_le p hp := Nat.le_trans (h.limit_le p hp) hpub
  past_rooted := h.past_rooted
  past_rising := h.past_rising
  faithful := h.faithful

theorem snoc (hrooted : Rooted c)
    (hreading : c.stale = false → Reading log pub c) :
    Readers log pub (connections ++ [c]) past := by
  refine { h with rooted := fun x hx => ?_, reading := fun x hx => ?_ }
  · rcases mem_append.1 hx with hx | hx
    · exact h.rooted x hx
    · rw [mem_singleton.1 hx]
      exact hrooted
  · rcases mem_append.1 hx with hx | hx
    · exact h.reading x hx
    · rw [mem_singleton.1 hx]
      exact hreading

theorem connect (opts : SubOptions) (resume : Option Nat) :
    Readers log pub (connections ++ [Connection.subscribe opts resume
      (resume.getD pub) (pub < resume.getD pub)]) past := by
  refine h.snoc ⟨fun _ => rfl, fun r hr => ?_⟩ fun hstale => ⟨?_, ?_⟩
  · have hr : resume = some r := hr
    show resume.getD pub = r
    rw [hr]
    rfl
  · exact ⟨.nil, forall_mem_nil _, .empty (Nat.le_refl _), Nat.le_refl _⟩
  · have hle : resume.getD pub ≤ pub :=
      Nat.le_of_not_lt (of_decide_eq_false hstale)
    exact ⟨_, _, _, _, Served.subscribe hle (fun hnone => by rw [hnone]; rfl)
      (fun r hr => by rw [hr]; rfl) [] _ [] _⟩

omit h

end Readers

/-- What holds in every state of a run. -/
structure Inv (s : State) : Prop where
  numbers : Numbers s
  readers : Readers s.log s.published s.connections s.past

section Run

variable {s : State}

theorem published_of_idle (hidle : s.pushing = none) :
    s.published = s.registry.nextSeq := by
  unfold State.published
  rw [hidle]

/-- A reader of a connection comes back. -/
theorem Inv.reconnect (h : Inv s) {c : Connection} {limit : Option Nat}
    {k : Nat} (hrooted : Rooted c)
    (hfaithful : c.stale = false → ∀ r, c.lastId k = some r →
      (∀ l ∈ limit, r ≤ l) → Faithful s.log c k ∧ r ≤ s.published) :
    Inv (s.reconnect c limit k) := by
  unfold State.reconnect
  split
  case h_1 => exact ⟨h.numbers.same rfl rfl rfl rfl h.numbers.saved_le,
      h.readers.connect c.opts none⟩
  case h_2 r hlast =>
    refine ⟨h.numbers.same rfl rfl rfl rfl h.numbers.saved_le,
      h.readers.snoc (hrooted.resubscribe hlast) fun hstale => ?_⟩
    obtain ⟨hstale, hlimit⟩ := Bool.or_eq_false_iff.1 hstale
    obtain ⟨hfaithful, hle⟩ := hfaithful hstale r hlast fun l hl => by
      rw [Option.mem_def.1 hl] at hlimit
      exact Nat.le_of_not_lt (of_decide_eq_false hlimit)
    exact ⟨.resubscribe hfaithful hrooted hlast, _, _, _, _,
      Served.subscribe hle (fun hnone => by cases hnone)
        (fun r' hr => Option.some.inj hr) _ _ _ _⟩

theorem Inv.crash (h : Inv s) : Inv s.crash := by
  have hmem : ∀ e ∈ s.log, e.seq ≤ s.saved.getD 0 → e ∈ s.crash.log := by
    intro e he hle
    rw [log_crash]
    exact mem_filter.2 ⟨he, decide_eq_true hle⟩
  have hsub : ∀ e ∈ s.crash.log, e ∈ s.log := by
    intro e he
    rw [log_crash] at he
    exact (mem_filter.1 he).1
  have hkeep : ∀ {c : Connection} {k : Nat}, Faithful s.log c k →
      (∀ e ∈ eventsOf (c.view k), e.seq ≤ s.saved.getD 0) →
      Faithful s.crash.log c k := by
    intro c k hc hle
    refine hc.of_log (fun e he hx => ?_) fun e he _ _ _ => hsub e he
    obtain ⟨x, hx, hxe⟩ := hx
    exact hmem e he (Nat.le_trans hxe (hle x hx))
  refine ⟨h.numbers.crash, forall_mem_nil _, forall_mem_nil _,
    fun q hq => ?_, fun q hq => ?_, fun q hq hstale k => ?_,
    fun q hq hstale k hlimit => ?_⟩
  · rcases mem_append.1 hq with hq | hq
    · obtain ⟨p, _, rfl⟩ := mem_map.1 hq
      exact Nat.min_le_right _ _
    · obtain ⟨c, _, rfl⟩ := mem_map.1 hq
      exact Nat.le_refl _
  · rcases mem_append.1 hq with hq | hq
    · obtain ⟨p, hp, rfl⟩ := mem_map.1 hq
      exact h.readers.past_rooted p hp
    · obtain ⟨c, hc, rfl⟩ := mem_map.1 hq
      exact h.readers.rooted c hc
  · rcases mem_append.1 hq with hq | hq
    · obtain ⟨p, hp, rfl⟩ := mem_map.1 hq
      exact h.readers.past_rising p hp hstale k
    · obtain ⟨c, hc, rfl⟩ := mem_map.1 hq
      exact ((h.readers.reading c hc hstale).faithful k).rising
  · rcases mem_append.1 hq with hq | hq
    · obtain ⟨p, hp, rfl⟩ := mem_map.1 hq
      refine hkeep (h.readers.faithful p hp hstale k fun e he => ?_)
        fun e he => ?_
      · exact Nat.le_trans (hlimit e he) (Nat.min_le_left _ _)
      · exact Nat.le_trans (hlimit e he) (Nat.min_le_right _ _)
    · obtain ⟨c, hc, rfl⟩ := mem_map.1 hq
      exact hkeep ((h.readers.reading c hc hstale).faithful k) hlimit

/-- What is dropped comes from the front. -/
theorem evict_suffix (events : List BufferedEvent) (dropped : Nat) :
    ∃ gone, events = gone ++ (StreamRegistry.evict events dropped).1 := by
  induction events generalizing dropped with
  | nil => exact ⟨[], rfl⟩
  | cons e events ih =>
    unfold StreamRegistry.evict
    split
    · obtain ⟨gone, hgone⟩ := ih (dropped + 1)
      exact ⟨e :: gone, congrArg (e :: ·) hgone⟩
    · exact ⟨[], rfl⟩

/-- The next step of a push. -/
theorem Inv.proceed (h : Inv s) : Inv s.proceed := by
  unfold State.proceed
  split
  case h_1 => exact h
  case h_2 e hpush =>
    have hpub : s.published = s.registry.nextSeq - 1 := by
      unfold State.published
      rw [hpush]
    have hring := h.numbers.ring
    have hpending := pending_of_push hpush
    rw [hpending] at hring
    refine ⟨⟨h.numbers.numbers, hring, h.numbers.unique,
      h.numbers.saved_le⟩, ?_⟩
    by_cases hidle : s.isIdle = true
    · rw [if_pos hidle]
      refine h.readers.later (fun _ he => he) (fun _ he _ => he) ?_ ?_
      · rw [hpub]
        exact Nat.sub_le _ _
      · intro c hc hsub
        have hnone := all_eq_true.1 hidle c hc
        rw [Option.isNone_iff_eq_none.1 hnone] at hsub
        cases hsub
    · rw [if_neg hidle]
      have hreaders := h.readers
      rw [hpub] at hreaders
      exact hreaders
  case h_3 e hpush =>
    obtain ⟨he, hseq⟩ := h.numbers.pushed hpush
    have hpub : s.published = s.registry.nextSeq - 1 := by
      unfold State.published
      rw [hpush]
    have hpos : s.published + 1 = s.registry.nextSeq := by
      have hmem := mem_map_of_mem (f := BufferedEvent.seq) he
      rw [h.numbers.numbers, mem_range'_1] at hmem
      omega
    have hring := h.numbers.ring
    have hpending := pending_of_push hpush
    rw [hpending] at hring
    refine ⟨⟨h.numbers.numbers, hring, h.numbers.unique,
      h.numbers.saved_le⟩, ?_⟩
    refine h.readers.map (Nat.le_trans (Nat.le_succ _) (Nat.le_of_eq hpos))
      (fun c => sameReader_offer c e) fun c plan base passed replayed hc => ?_
    have hoffer := hc.offer h.numbers.rising he (by omega)
    rw [hpos] at hoffer
    exact hoffer
  case h_4 e hpush =>
    obtain ⟨gone, hgone⟩ := h.numbers.ring
    have hpending := pending_of_push hpush
    have hpub : s.published = s.registry.nextSeq := by
      unfold State.published
      rw [hpush]
    refine ⟨⟨h.numbers.numbers, ?_, h.numbers.unique, h.numbers.saved_le⟩, ?_⟩
    · obtain ⟨out, hout⟩ :=
        evict_suffix (s.registry.events ++ [e]) s.registry.dropped
      refine ⟨gone ++ out, ?_⟩
      rw [hpending, append_assoc, hout, ← append_assoc] at hgone
      exact hgone.trans (append_nil _).symm
    · have hreaders := h.readers
      rw [hpub] at hreaders
      exact hreaders

theorem Inv.step (h : Inv s) (a : Action) : Inv (s.step a) := by
  cases a with
  | push surfaceId sessionId event now =>
    cases hidle : s.pushing with
    | some p =>
      have hsame : s.step (.push surfaceId sessionId event now) = s := by
        unfold State.step
        dsimp only
        rw [hidle]
        rfl
      rw [hsame]
      exact h
    | none =>
      obtain ⟨hnumbers, hpub, e, hlog, hseq⟩ :=
        h.numbers.push hidle surfaceId sessionId event now rfl
      refine ⟨hnumbers, ?_⟩
      have hconnections : (s.step (.push surfaceId sessionId event
          now)).connections = s.connections
          ∧ (s.step (.push surfaceId sessionId event now)).past = s.past := by
        unfold State.step
        dsimp only
        split <;> exact ⟨rfl, rfl⟩
      rw [hconnections.1, hconnections.2, hpub, hlog]
      refine h.readers.later (fun _ he => mem_append_left _ he)
        (fun x hx hle => ?_) (Nat.le_refl _) fun _ _ _ => rfl
      rcases mem_append.1 hx with hx | hx
      · exact hx
      · rw [mem_singleton.1 hx] at hle
        omega
  | proceed => exact h.proceed
  | startTurn surfaceId requestId timeout now =>
    unfold State.step
    dsimp only
    split
    · exact h
    · unfold StreamRegistry.startTurn
      split <;> exact
        ⟨h.numbers.same rfl rfl rfl rfl h.numbers.saved_le, h.readers⟩
  | save succeeds =>
    unfold State.step State.save
    dsimp only
    split
    · exact h
    · split
      · exact h
      · split
        · exact ⟨h.numbers.same rfl rfl rfl rfl h.numbers.saved_le, h.readers⟩
        · split
          · exact ⟨h.numbers.same rfl rfl rfl rfl (Nat.le_refl _), h.readers⟩
          · exact h
  | connect opts resume =>
    exact ⟨h.numbers.same rfl rfl rfl rfl h.numbers.saved_le,
      h.readers.connect opts resume⟩
  | reconnect i k =>
    unfold State.step
    dsimp only
    split
    case h_1 p hp =>
      have hp := mem_of_getElem? hp
      refine h.reconnect (h.readers.past_rooted p hp)
        fun hstale r hlast hlimit => ?_
      have hr := hlimit p.limit rfl
      have hle := h.readers.limit_le p hp
      refine ⟨h.readers.faithful p hp hstale k fun e he => ?_, by omega⟩
      have hrising := h.readers.past_rising p hp hstale k
      unfold Connection.lastId at hlast
      split at hlast
      case h_1 x hx =>
        cases hlast
        exact Nat.le_trans (hrising.le_getLast hx he) hr
      case h_2 hnone =>
        rw [getLast?_eq_none_iff.1 hnone] at he
        cases he
    case h_2 c _ hc =>
      have hc := mem_of_getElem? hc
      refine h.reconnect (h.readers.rooted c hc) fun hstale r hlast _ => ?_
      have hreading := h.readers.reading c hc hstale
      refine ⟨hreading.faithful k, ?_⟩
      obtain ⟨hcursor, hview⟩ := hreading.le_pub (k := k)
      unfold Connection.lastId at hlast
      split at hlast
      case h_1 x hx =>
        cases hlast
        exact hview x (mem_of_getLast? hx)
      case h_2 =>
        rw [(h.readers.rooted c hc).resumed r hlast] at hcursor
        exact hcursor
    case h_3 => exact h
  | collect i =>
    unfold State.step
    dsimp only
    split
    case h_2 => exact h
    case h_1 c hc =>
      split
      case h_2 => exact h
      case h_1 hphase =>
        split
        case isTrue => exact h
        case isFalse hidle =>
          have hidle : s.pushing = none := by simpa using hidle
          obtain ⟨gone, hgone⟩ := h.numbers.ring
          have hpending : s.pending = [] := by
            rw [State.pending, hidle]
            rfl
          rw [hpending, append_nil] at hgone
          refine ⟨h.numbers.same rfl rfl rfl rfl h.numbers.saved_le, ?_⟩
          refine h.readers.set hc ⟨rfl, rfl, rfl, rfl, rfl, rfl, rfl⟩
            fun plan base passed replayed hserved => ?_
          have hpub := published_of_idle hidle
          exact hserved.collect hphase hgone h.numbers.rising hpub.symm
            fun e he => hpub ▸ h.numbers.le he
  | advance i flag =>
    unfold State.step
    dsimp only
    split
    case h_2 => exact h
    case h_1 c hc =>
      refine ⟨h.numbers.same rfl rfl rfl rfl h.numbers.saved_le, ?_⟩
      refine h.readers.set hc (sameReader_advance c flag)
        fun plan base passed replayed hserved => ?_
      obtain ⟨plan', hserved⟩ := hserved.advance flag
      exact ⟨plan', replayed, hserved⟩
  | stop i =>
    unfold State.step
    dsimp only
    split
    case h_2 => exact h
    case h_1 c hc =>
      refine ⟨h.numbers.same rfl rfl rfl rfl h.numbers.saved_le, ?_⟩
      refine h.readers.set hc ⟨rfl, rfl, rfl, rfl, rfl, rfl, rfl⟩
        fun plan base passed replayed hserved => ?_
      exact ⟨plan, replayed, hserved.leaves hserved.live (.inl rfl)⟩
  | closeAll =>
    refine ⟨h.numbers.same rfl rfl rfl rfl h.numbers.saved_le, ?_⟩
    refine h.readers.map (Nat.le_refl _)
      (fun c => ⟨rfl, rfl, rfl, rfl, rfl, rfl, rfl⟩)
      fun c plan base passed replayed hserved => ?_
    exact ⟨passed, hserved.leaves (fun hs => by cases hs) (.inl rfl)⟩
  | crash => exact h.crash

theorem inv_init (persistent : Bool) : Inv (State.init persistent) := by
  refine ⟨⟨rfl, ⟨[], rfl⟩, .nil, Nat.le_refl _⟩, ?_⟩
  exact ⟨forall_mem_nil _, forall_mem_nil _, forall_mem_nil _,
    forall_mem_nil _, forall_mem_nil _, forall_mem_nil _⟩

theorem Inv.run (h : Inv s) (actions : List Action) : Inv (s.run actions) := by
  unfold State.run
  induction actions generalizing s with
  | nil => exact h
  | cons a actions ih => exact ih (h.step a)

end Run

-- ==== the losses

/-- What the hub counts of the losses of a connection that left it. -/
def Connection.settled (c : Connection) : Nat :=
  if c.sub.isSome then 0 else c.refused.length

/-- The hub's count for a subscriber is right. -/
def Connection.Counts (c : Connection) : Prop :=
  ∀ sub, c.sub = some sub → sub.dropped = c.refused.length

/-- `SseHub::stats`, the sum of all losses. -/
def State.dropped (s : State) : Nat :=
  s.totalDropped
    + (s.connections.map fun c => (c.sub.map Sub.dropped).getD 0).sum

/-- A step of a connection, with what it adds to the total. -/
def Settles (c : Connection) (r : Connection × Nat) : Prop :=
  r.1.Counts ∧ r.1.settled = c.settled + r.2

section Losses

variable {c : Connection}

theorem settles_offer (h : c.Counts) (e : BufferedEvent) :
    Settles c (c.offer e) := by
  unfold Connection.offer
  cases hsub : c.sub with
  | none => exact ⟨h, rfl⟩
  | some sub =>
    have hdropped := h sub hsub
    have hzero : c.settled = 0 := by
      unfold Connection.settled
      rw [hsub]
      rfl
    unfold Connection.deliver
    dsimp only
    split
    · exact ⟨h, rfl⟩
    · split
      · refine ⟨(fun sub' hs => by cases hs), ?_⟩
        rw [hzero, hdropped, Nat.zero_add]
        rfl
      · split
        · refine ⟨fun sub' hs => ?_, by rw [hzero]; rfl⟩
          cases hs
          exact hdropped
        · split
          · refine ⟨(fun sub' hs => by cases hs), ?_⟩
            rw [hzero, hdropped, Nat.zero_add]
            exact length_append
          · refine ⟨fun sub' hs => ?_, by rw [hzero]; rfl⟩
            cases hs
            rw [hdropped]
            exact (@List.length_append _ c.refused [e.seq]).symm

theorem settles_leave (h : c.Counts) {receiving stop : Bool} {phase : Phase} :
    Settles c ({ c with sub := none, receiving, stop, phase },
      (c.sub.map Sub.dropped).getD 0) := by
  refine ⟨(fun sub' hs => by cases hs), ?_⟩
  unfold Connection.settled
  cases hsub : c.sub with
  | none => rfl
  | some sub =>
    dsimp only
    rw [Option.map_some, Option.getD_some, h sub hsub]
    exact (Nat.zero_add _).symm

theorem settles_advance (h : c.Counts) (flag : Bool) :
    Settles c (c.advance flag) := by
  unfold Connection.advance
  split
  · unfold Connection.write
    split
    · exact ⟨h, rfl⟩
    · exact settles_leave h
  · unfold Connection.pump
    split
    · exact settles_leave h
    · split
      · split <;> exact ⟨h, rfl⟩
      · split
        · exact settles_leave h
        · split <;> exact ⟨h, rfl⟩
  · exact ⟨h, rfl⟩

variable {r : Connection × Nat}

theorem sum_set (connections : List Connection) {i : Nat}
    (hi : connections[i]? = some c) (hr : r.1.settled = c.settled + r.2) :
    ((connections.set i r.1).map Connection.settled).sum
      = (connections.map Connection.settled).sum + r.2 := by
  induction connections generalizing i with
  | nil => cases hi
  | cons x connections ih =>
    cases i with
    | zero =>
      cases hi
      simp only [set_cons_zero, map_cons, sum_cons]
      omega
    | succ i =>
      simp only [set_cons_succ, map_cons, sum_cons]
      rw [ih hi]
      omega

variable {f : Connection → Connection × Nat}

theorem sum_map (connections : List Connection)
    (hf : ∀ c ∈ connections, (f c).1.settled = c.settled + (f c).2) :
    ((connections.map fun c => (f c).1).map Connection.settled).sum
      = (connections.map Connection.settled).sum
        + (connections.map fun c => (f c).2).sum := by
  induction connections with
  | nil => rfl
  | cons x connections ih =>
    have hx := hf x (.head _)
    have ih := ih fun c hc => hf c (.tail _ hc)
    simp only [map_cons, sum_cons]
    omega

/-- The hub's counts are right. -/
structure Counted (s : State) : Prop where
  counts : ∀ c ∈ s.connections, c.Counts
  total : s.totalDropped = (s.connections.map Connection.settled).sum

variable {s : State}

variable (h : Counted s)

include h

theorem Counted.put {i : Nat} (hi : s.connections[i]? = some c)
    (hr : c.Counts → Settles c r) : Counted (s.put i r) := by
  obtain ⟨hcounts, hsettled⟩ := hr (h.counts c (mem_of_getElem? hi))
  refine ⟨fun x hx => ?_, ?_⟩
  · rcases mem_or_eq_of_mem_set hx with hx | rfl
    · exact h.counts x hx
    · exact hcounts
  · unfold State.put
    dsimp only
    rw [sum_set _ hi hsettled, h.total]

theorem Counted.each
    (hf : ∀ c, c.Counts → Settles c (f c)) : Counted (s.each f) := by
  refine ⟨fun x hx => ?_, ?_⟩
  · obtain ⟨c, hc, rfl⟩ := mem_map.1 hx
    exact (hf c (h.counts c hc)).1
  · unfold State.each
    dsimp only
    rw [sum_map _ fun c hc => (hf c (h.counts c hc)).2, h.total]

theorem Counted.snoc (hsub : c.sub = some ⟨0, 0, 0⟩)
    (hrefused : c.refused = []) :
    Counted { s with connections := s.connections ++ [c] } := by
  refine ⟨fun x hx => ?_, ?_⟩
  · rcases mem_append.1 hx with hx | hx
    · exact h.counts x hx
    · rw [mem_singleton.1 hx]
      intro sub hs
      rw [hsub] at hs
      cases hs
      rw [hrefused]
      rfl
  · dsimp only
    rw [map_append, sum_append, h.total]
    simp [Connection.settled, hsub]

theorem Counted.step (a : Action) : Counted (s.step a) := by
  cases a with
  | push surfaceId sessionId event now
  | startTurn surfaceId requestId timeout now =>
    unfold State.step
    dsimp only
    split <;> exact ⟨h.counts, h.total⟩
  | proceed =>
    unfold State.step State.proceed
    dsimp only
    split
    · exact h
    · exact ⟨h.counts, h.total⟩
    · rename_i e _
      have heach := h.each fun c hc => settles_offer hc e
      exact ⟨heach.counts, heach.total⟩
    · exact ⟨h.counts, h.total⟩
  | save succeeds =>
    unfold State.step State.save
    dsimp only
    split
    · exact h
    · split
      · exact h
      · split
        · exact ⟨h.counts, h.total⟩
        · split <;> exact ⟨h.counts, h.total⟩
  | connect opts resume => exact h.snoc rfl rfl
  | reconnect i k =>
    have hback : ∀ c limit, Counted (s.reconnect c limit k) := by
      intro c limit
      unfold State.reconnect
      split
      · exact h.snoc rfl rfl
      · exact h.snoc rfl rfl
    unfold State.step
    dsimp only
    split
    · exact hback _ _
    · exact hback _ _
    · exact h
  | collect i =>
    unfold State.step
    dsimp only
    split
    · rename_i c hc
      split
      · split
        · exact h
        · exact h.put hc fun hcounts => ⟨hcounts, rfl⟩
      · exact h
    · exact h
  | advance i flag =>
    unfold State.step
    dsimp only
    split
    · rename_i c hc
      exact h.put hc fun hcounts => settles_advance hcounts flag
    · exact h
  | stop i =>
    unfold State.step
    dsimp only
    split
    · rename_i c hc
      exact h.put hc fun hcounts => ⟨hcounts, rfl⟩
    · exact h
  | closeAll => exact h.each fun c hc => settles_leave hc
  | crash => exact ⟨forall_mem_nil _, rfl⟩

theorem Counted.run (actions : List Action) : Counted (s.run actions) := by
  unfold State.run
  induction actions generalizing s with
  | nil => exact h
  | cons a actions ih => exact ih (h.step a)

/-- All losses are in the hub's sum. -/
theorem Counted.dropped :
    s.dropped = (s.connections.map fun c => c.refused.length).sum := by
  obtain ⟨hcounts, htotal⟩ := h
  unfold State.dropped
  rw [htotal]
  generalize s.connections = connections at hcounts
  induction connections with
  | nil => rfl
  | cons c connections ih =>
    have ih := ih fun c hc => hcounts c (.tail _ hc)
    have hc : c.settled + (c.sub.map Sub.dropped).getD 0
        = c.refused.length := by
      have hc := hcounts c (.head _)
      unfold Connection.settled
      cases hsub : c.sub with
      | none => rfl
      | some sub => exact (Nat.zero_add _).trans (hc sub hsub)
    simp only [map_cons, sum_cons]
    omega

omit h

end Losses

-- ==== the cursor

/-- What the numbers of a state and its readers come to. -/
structure Accountable (s : State) : Prop where
  /-- a number given a second time had been taken back -/
  once : s.given.Pairwise fun a b =>
    a.event.seq = b.event.seq → a.lost = true
  faithful : ∀ c ∈ s.connections, c.stale = false → ∀ k, Faithful s.log c k
  counted : s.dropped = (s.connections.map fun c => c.refused.length).sum

/-- No run of the plugin skips an event unless a queue was full, which the
hub counts, or a crash took a number back. -/
theorem cursor_accounts (persistent : Bool) (actions : List Action) :
    Accountable ((State.init persistent).run actions) where
  once := ((inv_init persistent).run actions).numbers.unique
  faithful c hc hstale k :=
    (((inv_init persistent).run actions).readers.reading c hc
      hstale).faithful k
  counted :=
    (Counted.run ⟨List.forall_mem_nil _, rfl⟩ actions).dropped

def someText : StreamEvent := ⟨.text, none, none, none, none, none, none⟩

/-- A whole push. -/
def pushed : List Action :=
  [.push 1 "" someText 0, .proceed, .proceed, .proceed]

/-- A crash between two events, before any save. -/
def reusing : List Action := pushed ++ [.crash] ++ pushed

theorem reusing_given : ((State.init true).run reusing).given.map
    (fun g => (g.event.seq, g.lost)) = [(1, true), (1, false)] := by
  decide +kernel

/-- A reader of everything that waits for its next event: the numbers in
its queue and of what it has seen, and how often it was refused lately. -/
structure Waits (s : State) (n : Nat) (queue seen : List Nat)
    (streak : Nat) : Prop where
  idle : s.pushing = none
  next : s.registry.nextSeq = n
  log : s.log.map BufferedEvent.seq = List.range' 1 n
  reader : ∃ c sub, s.connections = [c] ∧ c.sub = some sub
    ∧ sub.dropStreak = streak ∧ c.receiving = true ∧ c.stop = false
    ∧ c.opts = ⟨none, true⟩ ∧ c.phase = .pumping ∧ c.stale = false
    ∧ c.start = 0 ∧ c.before = [] ∧ c.queue.map BufferedEvent.seq = queue
    ∧ (eventsOf c.out).map BufferedEvent.seq = seen ∧ gapsOf c.out = []
    ∧ c.lastSeq = seen.getLast?.getD 0

theorem run_pushed {s : State} {c : Connection} {sub : Sub}
    (hidle : s.pushing = none) (hc : s.connections = [c])
    (hsub : c.sub = some sub) (he : e = (s.registry.number 1 "" someText 0).2) :
    (s.run pushed).pushing = none
      ∧ (s.run pushed).registry.nextSeq = s.registry.nextSeq + 1
      ∧ (s.run pushed).log = s.log ++ [e]
      ∧ (s.run pushed).connections = [(c.offer e).1] := by
  subst he
  have hrun : s.run pushed = { s with
      registry := (s.registry.number 1 "" someText 0).1.buffer
        (s.registry.number 1 "" someText 0).2
      pushing := none
      connections := [(c.offer (s.registry.number 1 "" someText 0).2).1]
      totalDropped := s.totalDropped
        + (c.offer (s.registry.number 1 "" someText 0).2).2
      given := s.given
        ++ [⟨(s.registry.number 1 "" someText 0).2, false⟩] } := by
    unfold pushed State.run
    simp [State.step, hidle, State.proceed, State.isIdle, State.each, hc, hsub]
  rw [hrun]
  exact ⟨rfl, rfl, log_snoc _ _, rfl⟩

section Overflow

variable {s : State} {n : Nat} {queue seen : List Nat} {streak : Nat}

theorem Waits.pushed (h : Waits s n queue seen streak) :
    (queue.length < SUBSCRIBER_QUEUE_CAP →
      Waits (s.run pushed) (n + 1) (queue ++ [n + 1]) seen 0)
    ∧ (SUBSCRIBER_QUEUE_CAP ≤ queue.length → streak + 1 < DROP_STREAK_LIMIT →
      Waits (s.run pushed) (n + 1) queue seen (streak + 1)) := by
  obtain ⟨hidle, hnext, hlog, c, sub, hc, hsub, hstreak, hreceiving, hstop,
    hopts, hphase, hstale, hstart, hbefore, hqueue, hseen, hgaps, hlast⟩ := h
  obtain ⟨hidle', hnext', hlog', hc'⟩ := run_pushed hidle hc hsub rfl
  have hseq : (s.registry.number 1 "" someText 0).2.seq = n + 1 := by
    rw [← hnext]
    rfl
  have hwants : c.opts.wants (s.registry.number 1 "" someText 0).2 = true := by
    rw [hopts]
    rfl
  have hnumbers : (s.run Sse.pushed).log.map BufferedEvent.seq
      = List.range' 1 (n + 1) := by
    rw [hlog', map_append, hlog, List.range'_1_concat, Nat.add_comm 1 n]
    exact congrArg (fun m => List.range' 1 n ++ [m]) hseq
  rw [hnext] at hnext'
  have hlength : c.queue.length = queue.length := by
    rw [← hqueue, length_map]
  constructor
  · intro hroom
    unfold Connection.offer Connection.deliver at hc'
    rw [hsub] at hc'
    dsimp only at hc'
    rw [hwants, hreceiving] at hc'
    simp only [Bool.not_true, Bool.false_eq_true, if_false] at hc'
    rw [if_pos (by omega)] at hc'
    refine ⟨hidle', hnext', hnumbers, _, _, hc', rfl, rfl, rfl, hstop, hopts,
      hphase, hstale, hstart, hbefore, ?_, hseen, hgaps, hlast⟩
    rw [map_append, hqueue]
    exact congrArg (fun m => queue ++ [m]) hseq
  · intro hfull hlimit
    unfold Connection.offer Connection.deliver at hc'
    rw [hsub] at hc'
    dsimp only at hc'
    rw [hwants, hreceiving] at hc'
    simp only [Bool.not_true, Bool.false_eq_true, if_false] at hc'
    rw [if_neg (by omega), hstreak, if_neg (by omega)] at hc'
    exact ⟨hidle', hnext', hnumbers, _, _, hc', rfl, rfl, rfl, hstop, hopts,
      hphase, hstale, hstart, hbefore, hqueue, hseen, hgaps, hlast⟩

/-- The reader takes one event. -/
def taken : List Action := [.advance 0 true, .advance 0 true]

theorem Waits.taken {x : Nat} (h : Waits s n (x :: queue) seen streak)
    (hlt : seen.getLast?.getD 0 < x) :
    Waits (s.run taken) n queue (seen ++ [x]) streak := by
  obtain ⟨hidle, hnext, hlog, c, sub, hc, hsub, hstreak, hreceiving, hstop,
    hopts, hphase, hstale, hstart, hbefore, hqueue, hseen, hgaps, hlast⟩ := h
  obtain ⟨e, rest, hcons, rfl, rfl⟩ := map_eq_cons_iff.1 hqueue
  have hnew : ¬ e.seq ≤ c.lastSeq := by omega
  have hrun : s.run Sse.taken = { s with
      connections := [{ c with
        queue := rest, phase := .pumping, out := c.out ++ [.event e]
        lastSeq := e.seq }] } := by
    unfold Sse.taken State.run
    simp [State.step, hc, Connection.advance, hphase, Connection.pump, hstop,
      hcons, hnew, State.put, Connection.write, eventOf]
  rw [hrun]
  refine ⟨hidle, hnext, hlog, _, sub, rfl, hsub, hstreak, hreceiving, hstop,
    hopts, rfl, hstale, hstart, hbefore, rfl, ?_, ?_, ?_⟩
  · dsimp only
    rw [eventsOf_append, map_append, hseen]
    rfl
  · dsimp only
    rw [gapsOf_append, hgaps]
    rfl
  · simp

theorem run_append (s : State) (as bs : List Action) :
    s.run (as ++ bs) = (s.run as).run bs := foldl_append

theorem Waits.pushes (h : Waits s 0 [] seen 0) {n : Nat}
    (hn : n ≤ SUBSCRIBER_QUEUE_CAP) :
    Waits (s.run (List.replicate n Sse.pushed).flatten) n
      (List.range' 1 n) seen 0 := by
  induction n with
  | zero => exact h
  | succ n ih =>
    rw [replicate_succ', flatten_append, flatten_singleton,
      run_append, List.range'_1_concat, Nat.add_comm 1 n]
    exact (ih (by omega)).pushed.1 (by rw [length_range']; omega)

/-- The reader reads all that waits. -/
theorem Waits.drain (h : Waits s n queue seen streak)
    (hrising : (seen.getLast?.getD 0 :: queue).Pairwise (· < ·)) :
    Waits (s.run (List.replicate queue.length Sse.taken).flatten) n []
      (seen ++ queue) streak := by
  induction queue generalizing s seen with
  | nil =>
    rw [append_nil]
    exact h
  | cons x queue ih =>
    obtain ⟨hfirst, hqueue⟩ := pairwise_cons.1 hrising
    have hnext := h.taken (hfirst x (.head _))
    have hrising' :
        ((seen ++ [x]).getLast?.getD 0 :: queue).Pairwise (· < ·) := by
      rw [getLast?_append]
      exact hqueue
    have hall := ih hnext hrising'
    rw [append_assoc] at hall
    rw [length_cons, replicate_succ, flatten_cons, run_append]
    exact hall

end Overflow

/-- A reader that gets its preamble. -/
def joining : List Action :=
  [.connect ⟨none, true⟩ none, .collect 0, .advance 0 true, .advance 0 true]

theorem waits_joining : Waits ((State.init true).run joining) 0 [] [] 0 where
  idle := rfl
  next := rfl
  log := rfl
  reader := ⟨_, _, rfl, rfl, rfl, rfl, rfl, rfl, rfl, rfl, rfl, rfl, rfl, rfl,
    rfl, rfl⟩

/-- The queue of a reader that waits is full for one event; then it reads
on, and gets the next one. -/
def overflowing : List Action :=
  joining ++ (List.replicate 256 pushed).flatten ++ pushed ++ taken ++ pushed
    ++ (List.replicate 256 taken).flatten

theorem waits_overflowing : Waits ((State.init true).run overflowing) 258 []
    (List.range' 1 256 ++ [258]) 0 := by
  have hqueued : Waits (((State.init true).run joining).run
      (List.replicate 256 pushed).flatten) 256 (List.range' 1 256) [] 0 :=
    waits_joining.pushes (Nat.le_refl SUBSCRIBER_QUEUE_CAP)
  have hfull : SUBSCRIBER_QUEUE_CAP ≤ (List.range' 1 256).length := by
    rw [length_range']
    exact Nat.le_refl _
  have hroom : (List.range' 2 255).length < SUBSCRIBER_QUEUE_CAP := by
    rw [length_range']
    exact Nat.lt_succ_self _
  have hrefused : Waits ((((State.init true).run joining).run
      (List.replicate 256 pushed).flatten).run pushed) 257
      (1 :: List.range' 2 255) [] 1 :=
    hqueued.pushed.2 hfull (by decide)
  have hread := hrefused.taken (by decide)
  have hall := (hread.pushed.1 hroom).drain (by decide +kernel)
  have hlength : (List.range' 2 255 ++ [256 + 1 + 1]).length = 256 := by
    rw [length_append, length_range']
    rfl
  rw [hlength] at hall
  unfold overflowing
  rw [run_append, run_append, run_append, run_append, run_append]
  exact hall

/-- A number can go to two events, and a full queue can swallow one without
a notice to its reader. -/
theorem cursor_swallows :
    (¬ ∀ (persistent : Bool) (actions : List Action),
      ((State.init persistent).run actions).given.Pairwise fun a b =>
        a.event.seq ≠ b.event.seq)
    ∧ ¬ ∀ (persistent : Bool) (actions : List Action),
      ∀ c ∈ ((State.init persistent).run actions).connections,
        c.stale = false → ∀ k, ∀ x ∈ eventsOf (c.view k),
          Accounted BufferedEvent.seq
            ((State.init persistent).run actions).log c.opts.wants c.start
            x.seq (eventsOf (c.view k)) (gapsOf (c.view k)) [] := by
  constructor
  · intro h
    have hpair := List.pairwise_map.2 (h true reusing)
    have hgiven := congrArg (List.map Prod.fst) reusing_given
    rw [List.map_map] at hgiven
    exact absurd (hgiven ▸ hpair) (by decide)
  · intro h
    obtain ⟨-, -, hlog, c, -, hc, -, -, -, -, hopts, -, hstale, hstart,
      hbefore, -, hseen, hgaps, -⟩ := waits_overflowing
    have hview : c.view c.out.length = c.out := by
      unfold Connection.view
      rw [hbefore, List.take_length, List.nil_append]
    have hlast : 258 ∈ (eventsOf c.out).map BufferedEvent.seq := by
      rw [hseen]
      exact List.mem_append_right _ (.head _)
    have hmissed : 257 ∈ ((State.init true).run overflowing).log.map
        BufferedEvent.seq := by
      rw [hlog]
      exact List.mem_range'_1.2 ⟨by omega, by omega⟩
    obtain ⟨x, hx, hxseq⟩ := List.mem_map.1 hlast
    obtain ⟨e, he, heseq⟩ := List.mem_map.1 hmissed
    have hwants : c.opts.wants e = true := by
      rw [hopts]
      rfl
    have hall := h true overflowing c (hc ▸ .head _) hstale c.out.length
    rw [hview] at hall
    rcases hall x hx e he hwants (by omega) (by omega) with
      hsaw | ⟨g, hg, -⟩ | hrefused
    · have hsaw := List.mem_map_of_mem (f := BufferedEvent.seq) hsaw
      rw [hseen, heseq] at hsaw
      rcases List.mem_append.1 hsaw with hsaw | hsaw
      · have := List.mem_range'_1.1 hsaw
        omega
      · cases List.mem_singleton.1 hsaw
    · rw [hgaps] at hg
      cases hg
    · cases hrefused

end Tasty.AgentStream.Sse
