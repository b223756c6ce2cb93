/-
One connection: whatever wanted event was passed by the hub or was covered
by the replay has been written, is announced by a gap, was refused by the
full queue, or still waits in the queue.

The frames that a connection has written are a prefix of a plan: what it
wrote and what it is about to write. Replay and queue may overlap; the number
of the last written event tells them apart.
-/
import Tasty.AgentStream.Events
import Tasty.Lib.Cursor

namespace Tasty.AgentStream.Sse

open List

open Cursor (Rising Explained Accounted)

-- ==== the frames

section Frames

variable {xs ys : List Frame}

@[simp] theorem eventsOf_append (xs ys : List Frame) :
    eventsOf (xs ++ ys) = eventsOf xs ++ eventsOf ys :=
  filterMap_append

@[simp] theorem gapsOf_append (xs ys : List Frame) :
    gapsOf (xs ++ ys) = gapsOf xs ++ gapsOf ys :=
  filterMap_append

theorem eventsOf_left (h : xs <+: ys) : eventsOf xs <+: eventsOf ys := by
  obtain ⟨rest, rfl⟩ := h
  exact ⟨eventsOf rest, (eventsOf_append xs rest).symm⟩

theorem eventsOf_map_event (l : List BufferedEvent) :
    eventsOf (l.map .event) = l := by
  unfold eventsOf
  rw [filterMap_map]
  exact filterMap_some

theorem gapsOf_map_event (l : List BufferedEvent) :
    gapsOf (l.map .event) = [] := by
  unfold gapsOf
  rw [filterMap_map]
  exact filterMap_eq_nil_iff.2 fun _ _ => rfl

theorem eventsOf_singleton (f : Frame) : eventsOf [f] = (eventOf f).toList := by
  cases f <;> rfl

/-- The gaps stand before the events. -/
def GapsFirst (plan : List Frame) : Prop :=
  ∃ pre post, plan = pre ++ post ∧ eventsOf pre = [] ∧ gapsOf post = []

variable {plan : List Frame}

theorem GapsFirst.gaps_subset {front : List Frame}
    (h : GapsFirst plan) (hf : front <+: plan) {x : BufferedEvent}
    (hx : x ∈ eventsOf front) : gapsOf plan ⊆ gapsOf front := by
  obtain ⟨pre, post, rfl, hpre, hpost⟩ := h
  rw [gapsOf_append, hpost, append_nil]
  rcases prefix_or_prefix_of_prefix hf (prefix_append pre post)
    with hle | hle
  · have hnone := (eventsOf_left hle).subset hx
    rw [hpre] at hnone
    cases hnone
  · obtain ⟨rest, rfl⟩ := hle
    rw [gapsOf_append]
    exact subset_append_left _ _

theorem GapsFirst.snoc_event (h : GapsFirst plan)
    (e : BufferedEvent) : GapsFirst (plan ++ [.event e]) := by
  obtain ⟨pre, post, rfl, hpre, hpost⟩ := h
  refine ⟨pre, post ++ [.event e], by simp, hpre, ?_⟩
  rw [gapsOf_append, hpost]
  rfl

theorem GapsFirst.snoc_keepAlive (h : GapsFirst plan) :
    GapsFirst (plan ++ [.keepAlive]) := by
  obtain ⟨pre, post, rfl, hpre, hpost⟩ := h
  refine ⟨pre, post ++ [.keepAlive], by simp, hpre, ?_⟩
  rw [gapsOf_append, hpost]
  rfl

end Frames

-- ==== the replay

variable {gone : List BufferedEvent}

section Replay

variable {r : StreamRegistry} {after : Nat} {opts : SubOptions}
  {e : BufferedEvent}

theorem mem_replayAfter : e ∈ (r.replayAfter after opts).events
    ↔ e ∈ r.events ∧ after < e.seq ∧ opts.wants e = true := by
  unfold StreamRegistry.replayAfter SubOptions.wants
  simp only [mem_filter, decide_eq_true_eq, and_assoc]
  refine and_congr_right fun _ => and_congr_right fun _ => ?_
  cases opts.includeThinking <;> by_cases hk : e.event.kind = .thinking <;>
    simp [hk]

theorem replayAfter_rising (h : Rising BufferedEvent.seq r.events) :
    Rising BufferedEvent.seq (r.replayAfter after opts).events := by
  refine h.sublist ?_
  unfold StreamRegistry.replayAfter
  exact (filter_sublist.trans filter_sublist).trans
    filter_sublist

/-- A replay leaves out nothing that it does not announce. -/
theorem replayAfter_accounts
    (h : Rising BufferedEvent.seq (gone ++ r.events))
    (hnext : ∀ e ∈ gone, e.seq ≤ r.nextSeq) (he : e ∈ gone ++ r.events)
    (hafter : after < e.seq) (hw : opts.wants e = true) :
    e ∈ (r.replayAfter after opts).events
      ∨ ∃ g, (r.replayAfter after opts).gap = some g
        ∧ g.1 ≤ e.seq ∧ e.seq ≤ g.2 := by
  have hkept : e ∈ r.events ∨ e.seq < r.firstAvailable := by
    unfold StreamRegistry.firstAvailable
    refine h.kept_or_below (fun x hx => ?_) (fun hnil a ha => ?_) he
    · rw [hx]
    · rw [hnil]
      exact Nat.lt_succ_of_le (hnext a ha)
  rcases hkept with hkept | hbelow
  · exact .inl (mem_replayAfter.2 ⟨hkept, hafter, hw⟩)
  · refine .inr ⟨(after + 1, r.firstAvailable - 1), if_pos (by omega),
      hafter, ?_⟩
    dsimp only
    omega

variable (replay : Replay)

theorem eventsOf_opening :
    eventsOf (Connection.opening replay) = replay.events := by
  unfold Connection.opening
  rw [eventsOf_append, eventsOf_append, eventsOf_map_event]
  cases replay.gap <;> rfl

theorem gapsOf_opening :
    gapsOf (Connection.opening replay) = replay.gap.toList := by
  unfold Connection.opening
  rw [gapsOf_append, gapsOf_append, gapsOf_map_event, append_nil]
  cases replay.gap <;> rfl

theorem gapsFirst_opening : GapsFirst (Connection.opening replay) := by
  refine ⟨_, replay.events.map .event, rfl, ?_, gapsOf_map_event _⟩
  rw [eventsOf_append]
  cases replay.gap <;> rfl

end Replay

-- ==== the connection

def Phase.isEnded : Phase → Bool
  | .ended => true
  | _ => false

def Phase.isSubscribed : Phase → Bool
  | .subscribed => true
  | _ => false

/-- The frames that are about to be written. -/
def Phase.pending : Phase → List Frame
  | .writing frames => frames
  | _ => []

/-- A connection whose reader goes on from a number that was given. The
events of the log up to `pub` are done with by the hub; `base` is where the
hub was at the subscription, `passed` how far this queue was served, and
`replayed` where the replay ends. -/
structure Served (log : List BufferedEvent) (pub : Nat) (c : Connection)
    (plan : List Frame) (base passed replayed : Nat) : Prop where
  written : c.out <+: plan
  planned : c.phase.isEnded = false → plan = c.out ++ c.phase.pending
  gaps_first : GapsFirst plan
  early : c.phase.isSubscribed = true → plan = []
  caught_up : c.phase.isSubscribed = false → base ≤ replayed
  cursor_le : c.cursor ≤ base
  base_le : base ≤ passed
  passed_le : passed ≤ pub
  replayed_le : replayed ≤ pub
  live : c.sub.isSome = true → passed = pub
  fresh : c.resume = none → c.cursor = base
  resumed : ∀ r, c.resume = some r → c.cursor = r
  queue_rising : Rising BufferedEvent.seq c.queue
  queue_mem : ∀ e ∈ c.queue, e ∈ log ∧ c.opts.wants e = true
    ∧ c.cursor < e.seq ∧ e.seq ≤ passed
  plan_rising : Rising BufferedEvent.seq (eventsOf plan)
  plan_mem : ∀ e ∈ eventsOf plan, e ∈ log ∧ c.opts.wants e = true
    ∧ c.cursor < e.seq ∧ e.seq ≤ max passed replayed
  offered : ∀ e ∈ log, c.opts.wants e = true → base < e.seq →
    e.seq ≤ passed → e ∈ c.queue
      ∨ Explained BufferedEvent.seq (eventsOf plan) (gapsOf plan) c.refused e
  replay : Accounted BufferedEvent.seq log c.opts.wants c.cursor replayed
    (eventsOf plan) (gapsOf plan) c.refused
  behind : ∀ e ∈ c.queue, ∀ x ∈ eventsOf plan, e.seq ≤ x.seq →
    Explained BufferedEvent.seq (eventsOf plan) (gapsOf plan) c.refused e
  last_le : ∀ x ∈ eventsOf c.out, x.seq ≤ c.lastSeq
  last_mem : c.lastSeq = 0 ∨ ∃ x ∈ eventsOf c.out, x.seq = c.lastSeq

namespace Served

variable {log log' : List BufferedEvent} {pub pub' : Nat} {c : Connection}
  {plan : List Frame} {base passed replayed : Nat}

variable (h : Served log pub c plan base passed replayed)

include h

/-- Up to whatever was written, every wanted event is explained. -/
theorem accounted {x : BufferedEvent} (hx : x ∈ eventsOf plan) :
    Accounted BufferedEvent.seq log c.opts.wants c.cursor x.seq
      (eventsOf plan) (gapsOf plan) c.refused := by
  intro e he hw hlo hhi
  by_cases hle : e.seq ≤ replayed
  · exact h.replay e he hw hlo hle
  · have hphase : c.phase.isSubscribed = false := by
      by_contra hsub
      rw [h.early (by simpa using hsub)] at hx
      cases hx
    have hbase := h.caught_up hphase
    have hmax := (h.plan_mem x hx).2.2.2
    rcases h.offered e he hw (by omega) (by omega) with hq | hdone
    · exact h.behind e hq x hx hhi
    · exact hdone

/-- The log grows and the hub goes on, without this connection. -/
theorem later
    (hlog : ∀ e ∈ log, e ∈ log') (hold : ∀ e ∈ log', e.seq ≤ pub → e ∈ log)
    (hpub : pub ≤ pub') (hsub : c.sub.isSome = true → pub' = pub) :
    Served log' pub' c plan base passed replayed :=
  { h with
    passed_le := Nat.le_trans h.passed_le hpub
    replayed_le := Nat.le_trans h.replayed_le hpub
    live := fun hs => (h.live hs).trans (hsub hs).symm
    queue_mem := fun e he =>
      ⟨hlog e (h.queue_mem e he).1, (h.queue_mem e he).2⟩
    plan_mem := fun e he =>
      ⟨hlog e (h.plan_mem e he).1, (h.plan_mem e he).2⟩
    offered := fun e he hw hlo hhi =>
      h.offered e (hold e he (Nat.le_trans hhi h.passed_le)) hw hlo hhi
    replay := h.replay.of_log fun e he hle =>
      hold e he (Nat.le_trans hle h.replayed_le) }

theorem leaves {receiving stop : Bool} {sub : Option Sub} {phase : Phase}
    (hsub : sub.isSome = true → passed = pub)
    (hphase : phase = c.phase ∨ phase = .ended ∧ c.phase.isSubscribed = false) :
    Served log pub { c with sub, receiving, stop, phase } plan base passed
      replayed := by
  refine { h with planned := ?_, early := ?_, caught_up := ?_, live := hsub }
  · rcases hphase with rfl | ⟨rfl, _⟩
    · exact h.planned
    · exact fun hended => by cases hended
  · rcases hphase with rfl | ⟨rfl, _⟩
    · exact h.early
    · exact fun hsubscribed => by cases hsubscribed
  · rcases hphase with rfl | ⟨rfl, hphase⟩
    · exact h.caught_up
    · exact fun _ => h.caught_up hphase

variable {queue : List BufferedEvent}

variable {e : BufferedEvent}

/-- The hub is done with the next event: this connection queued it, refused
it, or did not want it. -/
theorem passes (hlive : passed = pub) (he : e ∈ log)
    (hseq : e.seq = pub + 1) {refused : List Nat} {sub : Option Sub}
    (hqueue : queue = c.queue ∨ queue = c.queue ++ [e] ∧ c.opts.wants e = true)
    (hrefused : c.refused ⊆ refused)
    (hdone : ∀ x ∈ log, c.opts.wants x = true → x.seq = pub + 1 →
      x ∈ queue ∨ Explained BufferedEvent.seq (eventsOf plan) (gapsOf plan)
        refused x) :
    Served log (pub + 1) { c with queue, refused, sub } plan base (pub + 1)
      replayed := by
  have hbelow : ∀ x ∈ eventsOf plan, x.seq ≤ pub := by
    intro x hx
    have hle := (h.plan_mem x hx).2.2.2
    have hreplayed := h.replayed_le
    omega
  have hkept : ∀ {x}, Explained BufferedEvent.seq (eventsOf plan)
      (gapsOf plan) c.refused x → Explained BufferedEvent.seq (eventsOf plan)
      (gapsOf plan) refused x := fun hx =>
    hx.mono (List.Subset.refl _) (List.Subset.refl _) hrefused
  have hsub : c.queue ⊆ queue := by
    rcases hqueue with rfl | ⟨rfl, _⟩
    · exact List.Subset.refl _
    · exact subset_append_left _ _
  have hmem : ∀ x ∈ queue, x ∈ c.queue
      ∨ x = e ∧ c.opts.wants e = true := by
    intro x hx
    rcases hqueue with rfl | ⟨rfl, hw⟩
    · exact .inl hx
    · rcases mem_append.1 hx with hx | hx
      · exact .inl hx
      · exact .inr ⟨mem_singleton.1 hx, hw⟩
  have hbase := h.base_le
  have hcursor := h.cursor_le
  refine { h with
    base_le := by omega, passed_le := Nat.le_refl _
    replayed_le := Nat.le_succ_of_le h.replayed_le, live := fun _ => rfl
    queue_rising := ?_, queue_mem := ?_, plan_mem := ?_, offered := ?_
    replay := ?_, behind := ?_ }
  · rcases hqueue with rfl | ⟨rfl, _⟩
    · exact h.queue_rising
    · refine h.queue_rising.snoc fun x hx => ?_
      have hle := (h.queue_mem x hx).2.2.2
      omega
  · intro x hx
    rcases hmem x hx with hx | ⟨rfl, hw⟩
    · obtain ⟨hmem, hw, hlo, hhi⟩ := h.queue_mem x hx
      exact ⟨hmem, hw, hlo, by omega⟩
    · refine ⟨he, hw, ?_, Nat.le_of_eq hseq⟩
      dsimp only
      omega
  · intro x hx
    obtain ⟨hmem, hw, hlo, hhi⟩ := h.plan_mem x hx
    exact ⟨hmem, hw, hlo, by omega⟩
  · intro x hx hw hlo hhi
    by_cases hnew : x.seq = pub + 1
    · exact hdone x hx hw hnew
    · rcases h.offered x hx hw hlo (by omega) with hq | hx
      · exact .inl (hsub hq)
      · exact .inr (hkept hx)
  · exact h.replay.mono (List.Subset.refl _) (List.Subset.refl _) hrefused
  · intro x hx y hy hle
    rcases hmem x hx with hx | ⟨rfl, _⟩
    · exact hkept (h.behind x hx y hy hle)
    · have hlt := hbelow y hy
      omega

theorem offer (hlog : Rising BufferedEvent.seq log) (he : e ∈ log)
    (hseq : e.seq = pub + 1) :
    ∃ passed', Served log (pub + 1) (c.offer e).1 plan base passed'
      replayed := by
  have hsame : ∀ x ∈ log, x.seq = pub + 1 → x = e := fun x hx hxe =>
    hlog.eq_of_num hx he (hxe.trans hseq.symm)
  have hrefl := List.Subset.refl c.refused
  have hout : Served log (pub + 1) { c with sub := none } plan base passed
      replayed :=
    (h.leaves (fun hs => by cases hs) (.inl rfl)).later
      (fun _ hx => hx) (fun _ hx _ => hx) (Nat.le_succ pub)
      fun hs => by cases hs
  unfold Connection.offer
  cases hsub : c.sub with
  | none =>
    refine ⟨passed, ?_⟩
    rw [← hsub] at hout
    exact hout
  | some sub =>
    have hlive : passed = pub := h.live (by rw [hsub]; rfl)
    unfold Connection.deliver
    dsimp only
    split
    case isTrue hwants =>
      refine ⟨pub + 1, h.passes hlive he hseq (.inl rfl) hrefl ?_⟩
      intro x hx hw hxe
      rw [hsame x hx hxe] at hw
      rw [hw] at hwants
      cases hwants
    case isFalse hwants =>
      split
      case isTrue => exact ⟨passed, hout⟩
      case isFalse =>
        split
        case isTrue =>
          refine ⟨pub + 1, h.passes hlive he hseq
            (.inr ⟨rfl, by simpa using hwants⟩) hrefl ?_⟩
          intro x hx hw hxe
          rw [hsame x hx hxe]
          exact .inl (mem_append_right _ (mem_singleton_self e))
        case isFalse =>
          have hrefused : ∀ sub', Served log (pub + 1)
              { c with refused := c.refused ++ [e.seq], sub := sub' } plan
              base (pub + 1) replayed := by
            intro sub'
            refine h.passes hlive he hseq (.inl rfl)
              (subset_append_left _ _) ?_
            intro x hx hw hxe
            rw [hsame x hx hxe]
            exact .inr (.inr (.inr (mem_append_right _ (mem_singleton_self _))))
          split
          · exact ⟨pub + 1, hrefused none⟩
          · exact ⟨pub + 1, hrefused _⟩

/-- The next frame is written, or the connection ends. -/
theorem write {f : Frame}
    {rest : List Frame} (hphase : c.phase = .writing (f :: rest))
    (succeeds : Bool) :
    Served log pub (c.write f rest succeeds).1 plan base passed replayed := by
  have hplan : plan = c.out ++ f :: rest := by
    rw [h.planned (by rw [hphase]; rfl), hphase]
    rfl
  have hsubscribed : c.phase.isSubscribed = false := by rw [hphase]; rfl
  unfold Connection.write
  cases succeeds with
  | false => exact h.leaves (fun hs => by cases hs) (.inr ⟨rfl, hsubscribed⟩)
  | true =>
    have hrising := h.plan_rising
    rw [hplan, eventsOf_append] at hrising
    refine { h with
      written := ⟨rest, by rw [hplan]; simp⟩
      planned := fun _ => ?_, early := fun hearly => ?_
      caught_up := fun _ => h.caught_up hsubscribed
      last_le := ?_, last_mem := ?_ }
    · rw [hplan]
      cases rest <;> simp [Phase.pending]
    · cases rest <;> cases hearly
    · intro x hx
      rw [if_pos rfl] at hx ⊢
      rw [eventsOf_append, eventsOf_singleton] at hx
      cases f with
      | event e =>
        rcases mem_append.1 hx with hx | hx
        · exact Nat.le_of_lt (hrising.lt hx (.head _))
        · rw [mem_singleton.1 hx]
          exact Nat.le_refl _
      | _ => exact h.last_le x (by simpa [eventOf] using hx)
    · rw [if_pos rfl]
      dsimp only
      rw [eventsOf_append, eventsOf_singleton]
      cases f with
      | event e =>
        exact .inr ⟨e, mem_append_right _ (.head _), rfl⟩
      | _ => simpa [eventOf] using h.last_mem

theorem skip (hqueue : c.queue = e :: queue) (hle : e.seq ≤ c.lastSeq) :
    Served log pub { c with queue } plan base passed replayed := by
  have hmem : ∀ x ∈ queue, x ∈ c.queue := fun x hx => by
    rw [hqueue]
    exact .tail _ hx
  have he : e ∈ c.queue := by
    rw [hqueue]
    exact .head _
  have hdone : Explained BufferedEvent.seq (eventsOf plan) (gapsOf plan)
      c.refused e := by
    rcases h.last_mem with hzero | ⟨x, hx, hlast⟩
    · have hlo := (h.queue_mem e he).2.2.1
      omega
    · exact h.behind e he x ((eventsOf_left h.written).subset hx)
        (by omega)
  have hrising := h.queue_rising
  rw [hqueue] at hrising
  refine { h with
    queue_rising := (pairwise_cons.1 hrising).2
    queue_mem := fun x hx => h.queue_mem x (hmem x hx)
    behind := fun x hx => h.behind x (hmem x hx), offered := ?_ }
  intro x hx hw hlo hhi
  rcases h.offered x hx hw hlo hhi with hq | hx
  · rw [hqueue] at hq
    rcases mem_cons.1 hq with rfl | hq
    · exact .inr hdone
    · exact .inl hq
  · exact .inr hx

theorem send (hphase : c.phase = .pumping)
    (hqueue : c.queue = e :: queue) (hlt : c.lastSeq < e.seq) :
    Served log pub { c with queue, phase := .writing [.event e] }
      (plan ++ [.event e]) base passed replayed := by
  have hplan : plan = c.out := by
    rw [h.planned (by rw [hphase]; rfl), hphase]
    exact append_nil _
  have hmem : ∀ x ∈ queue, x ∈ c.queue := fun x hx => by
    rw [hqueue]
    exact .tail _ hx
  have he := h.queue_mem e (by rw [hqueue]; exact .head _)
  have hrising := h.queue_rising
  rw [hqueue] at hrising
  obtain ⟨hfirst, hrising⟩ := pairwise_cons.1 hrising
  have hevents : eventsOf (plan ++ [.event e]) = eventsOf plan ++ [e] :=
    eventsOf_append plan _
  have hsub : eventsOf plan ⊆ eventsOf (plan ++ [.event e]) := by
    rw [hevents]
    exact subset_append_left _ _
  have hgaps : gapsOf plan ⊆ gapsOf (plan ++ [.event e]) := by
    rw [gapsOf_append]
    exact subset_append_left _ _
  have hkept : ∀ {x}, Explained BufferedEvent.seq (eventsOf plan)
      (gapsOf plan) c.refused x → Explained BufferedEvent.seq
      (eventsOf (plan ++ [.event e])) (gapsOf (plan ++ [.event e]))
      c.refused x := fun hx => hx.mono hsub hgaps (List.Subset.refl _)
  refine { h with
    written := h.written.trans (prefix_append _ _)
    planned := fun _ => by rw [hplan]; rfl
    gaps_first := h.gaps_first.snoc_event e
    early := fun hearly => by cases hearly
    caught_up := fun _ => h.caught_up (by rw [hphase]; rfl)
    queue_rising := hrising
    queue_mem := fun x hx => h.queue_mem x (hmem x hx)
    plan_rising := ?_, plan_mem := ?_, offered := ?_
    replay := h.replay.mono hsub hgaps (List.Subset.refl _)
    behind := ?_ }
  · rw [hevents]
    refine h.plan_rising.snoc fun x hx => ?_
    rw [hplan] at hx
    exact Nat.lt_of_le_of_lt (h.last_le x hx) hlt
  · intro x hx
    rw [hevents] at hx
    rcases mem_append.1 hx with hx | hx
    · exact h.plan_mem x hx
    · rw [mem_singleton.1 hx]
      obtain ⟨hlog, hw, hlo, hhi⟩ := he
      exact ⟨hlog, hw, hlo, by omega⟩
  · intro x hx hw hlo hhi
    rcases h.offered x hx hw hlo hhi with hq | hx
    · rw [hqueue] at hq
      rcases mem_cons.1 hq with rfl | hq
      · refine .inr (.inl ?_)
        rw [hevents]
        exact mem_append_right _ (mem_singleton_self _)
      · exact .inl hq
    · exact .inr (hkept hx)
  · intro x hx y hy hle
    rw [hevents] at hy
    rcases mem_append.1 hy with hy | hy
    · exact hkept (h.behind x (hmem x hx) y hy hle)
    · rw [mem_singleton.1 hy] at hle
      have hlater := hfirst x hx
      omega

/-- A sign of life goes out. -/
theorem idle (hphase : c.phase = .pumping) :
    Served log pub { c with phase := .writing [.keepAlive] }
      (plan ++ [.keepAlive]) base passed replayed := by
  have hplan : plan = c.out := by
    rw [h.planned (by rw [hphase]; rfl), hphase]
    exact append_nil _
  have hevents : eventsOf (plan ++ [.keepAlive]) = eventsOf plan := by
    rw [eventsOf_append]
    exact append_nil _
  have hgaps : gapsOf (plan ++ [.keepAlive]) = gapsOf plan := by
    rw [gapsOf_append]
    exact append_nil _
  refine { h with
    written := h.written.trans (prefix_append _ _)
    planned := fun _ => by rw [hplan]; rfl
    gaps_first := h.gaps_first.snoc_keepAlive
    early := fun hearly => by cases hearly
    caught_up := fun _ => h.caught_up (by rw [hphase]; rfl)
    plan_rising := hevents ▸ h.plan_rising
    plan_mem := hevents ▸ h.plan_mem, offered := ?_, replay := ?_
    behind := ?_ }
  · rw [hevents, hgaps]
    exact h.offered
  · rw [hevents, hgaps]
    exact h.replay
  · rw [hevents, hgaps]
    exact h.behind

/-- One step of the thread of a connection. -/
theorem advance (flag : Bool) :
    ∃ plan', Served log pub (c.advance flag).1 plan' base passed replayed := by
  unfold Connection.advance
  split
  case h_1 f rest hphase => exact ⟨plan, h.write hphase flag⟩
  case h_2 hphase =>
    have hleave : Served log pub c.leave.1 plan base passed replayed :=
      h.leaves (fun hs => by cases hs) (.inr ⟨rfl, by rw [hphase]; rfl⟩)
    unfold Connection.pump
    split
    · exact ⟨plan, hleave⟩
    · split
      case h_1 e queue hqueue =>
        split
        case isTrue hle => exact ⟨plan, h.skip hqueue hle⟩
        case isFalse hlt =>
          exact ⟨_, h.send hphase hqueue (Nat.lt_of_not_le hlt)⟩
      case h_2 =>
        split
        · exact ⟨plan, hleave⟩
        · split
          · exact ⟨_, h.idle hphase⟩
          · exact ⟨plan, h⟩
  case h_3 => exact ⟨plan, h⟩

/-- The replay covers all that was given so far; without a cursor there is
nothing to cover. -/
theorem collectReplay {r : StreamRegistry}
    (hlog : log = gone ++ r.events) (hrising : Rising BufferedEvent.seq log)
    (hnext : r.nextSeq = pub) (hle : ∀ e ∈ log, e.seq ≤ pub) :
    ∃ last, base ≤ last ∧ last ≤ pub
      ∧ Rising BufferedEvent.seq (c.collectReplay r).events
      ∧ (∀ e ∈ (c.collectReplay r).events, e ∈ log ∧ c.opts.wants e = true
        ∧ c.cursor < e.seq ∧ e.seq ≤ last)
      ∧ Accounted BufferedEvent.seq log c.opts.wants c.cursor last
        (c.collectReplay r).events (c.collectReplay r).gap.toList
        c.refused := by
  have hpassed := h.passed_le
  have hbase := h.base_le
  unfold Connection.collectReplay
  cases hresume : c.resume with
  | none =>
    exact ⟨base, Nat.le_refl base, by omega, .nil, forall_mem_nil _,
      .empty (Nat.le_of_eq (h.fresh hresume).symm)⟩
  | some after =>
    have hcursor := h.resumed after hresume
    rw [hcursor]
    subst hlog
    refine ⟨pub, by omega, Nat.le_refl pub,
      replayAfter_rising hrising.right, fun x hx => ?_, ?_⟩
    · obtain ⟨hmem, hlo, hw⟩ := mem_replayAfter.1 hx
      have hin := mem_append_right gone hmem
      exact ⟨hin, hw, hlo, hle x hin⟩
    · intro x hx hw hlo hhi
      rcases replayAfter_accounts hrising
        (fun y hy => hnext ▸ hle y (mem_append_left _ hy)) hx hlo hw
        with hin | ⟨g, hg, hgap⟩
      · exact .inl hin
      · exact .inr (.inl ⟨g, by rw [hg]; exact .head _, hgap⟩)

theorem collect (hphase : c.phase = .subscribed) {r : StreamRegistry}
    (hlog : log = gone ++ r.events)
    (hrising : Rising BufferedEvent.seq log) (hnext : r.nextSeq = pub)
    (hle : ∀ e ∈ log, e.seq ≤ pub) :
    ∃ plan' replayed',
      Served log pub (c.collect r) plan' base passed replayed' := by
  have hplan := h.early (by rw [hphase]; rfl)
  subst hplan
  have hout : c.out = [] := prefix_nil.1 h.written
  obtain ⟨last, hfrom, hto, hevents, hmem, hcovered⟩ :=
    h.collectReplay hlog hrising hnext hle
  refine ⟨Connection.opening (c.collectReplay r), last, { h with
    written := hout ▸ nil_prefix
    planned := fun _ => ?_, gaps_first := gapsFirst_opening _
    early := fun hearly => by cases hearly
    caught_up := fun _ => hfrom
    replayed_le := hto, plan_rising := ?_, plan_mem := ?_, replay := ?_
    behind := ?_, offered := ?_ }⟩
  · unfold Connection.collect
    rw [hout]
    rfl
  · rw [eventsOf_opening]
    exact hevents
  · intro x hx
    rw [eventsOf_opening] at hx
    obtain ⟨hin, hw, hlo, hhi⟩ := hmem x hx
    exact ⟨hin, hw, hlo, by omega⟩
  · intro x hx hw hlo hhi
    rcases h.offered x hx hw hlo hhi with hq | hx
    · exact .inl hq
    · exact .inr (hx.mono (nil_subset _) (nil_subset _) (List.Subset.refl _))
  · rw [eventsOf_opening, gapsOf_opening]
    exact hcovered
  · intro x hx y hy hxy
    rw [eventsOf_opening, gapsOf_opening] at *
    obtain ⟨_, _, _, hhi⟩ := hmem y hy
    obtain ⟨hin, hw, hlo, _⟩ := h.queue_mem x hx
    exact hcovered x hin hw hlo (by omega)

omit h

theorem subscribe {opts : SubOptions} {resume : Option Nat} {cursor : Nat}
    (hle : cursor ≤ pub) (hnone : resume = none → cursor = pub)
    (hsome : ∀ r, resume = some r → cursor = r) (before : List Frame)
    (start : Nat) (refusedBefore : List Nat) (stale : Bool) :
    Served log pub { Connection.subscribe opts resume cursor stale with
      before, start, refusedBefore } [] pub pub cursor where
  written := nil_prefix
  planned _ := rfl
  gaps_first := ⟨[], [], rfl, rfl, rfl⟩
  early _ := rfl
  caught_up h := by cases h
  cursor_le := hle
  base_le := Nat.le_refl pub
  passed_le := Nat.le_refl pub
  replayed_le := hle
  live _ := rfl
  fresh := hnone
  resumed := hsome
  queue_rising := .nil
  queue_mem := fun e he => by cases he
  plan_rising := .nil
  plan_mem := fun e he => by cases he
  offered := fun e _ _ hlo hhi => by omega
  replay := .empty (Nat.le_refl cursor)
  behind := fun e he => by cases he
  last_le := fun e he => by cases he
  last_mem := .inl rfl

end Served

end Tasty.AgentStream.Sse
