/-
What a subscriber gets of an attach stream, over all interleavings: an exact
prefix of what the terminal puts out, and a single loss right after it if
something is missing; and how the bytes of the queue are counted.
-/
import Tasty.Terminal.AttachStream

namespace Tasty.Terminal

open Producer Consumer List

-- ==== the invariant

/-- The bytes that a send has counted for an event that is not queued. -/
def Producer.held (L : Limits) : Producer → Nat
  | reserved e | returning e _ => e.weight L
  | _ => 0

/-- The bytes of an event that was taken, before they are given back. -/
def Consumer.held (L : Limits) : Consumer → Nat
  | taken e => e.weight L
  | _ => 0

/-- The event that a send may still queue. -/
def Producer.current : Producer → List AttachEvent
  | entered e | live e | reserved e => [e]
  | _ => []

def Consumer.inHand : Consumer → List AttachEvent
  | taken e => [e]
  | _ => []

/-- A send is about to note a loss. -/
def Producer.isLosing : Producer → Bool
  | returning _ full => full
  | losing => true
  | _ => false

/-- It has sent for the last time. -/
def Producer.isDone : Producer → Bool
  | refused | removed | gone => true
  | _ => false

/-- The receiver is closed. -/
def Consumer.isClosed : Consumer → Bool
  | closing | gone => true
  | _ => false

def Answer.event : Answer → Option AttachEvent
  | .ok .loss => none
  | .ok e => some e
  | .error _ => none

/-- The events that were received. -/
def Stream.received (s : Stream) : List AttachEvent :=
  s.answers.filterMap Answer.event

/-- All events that were received or still can be. -/
def Stream.retained (s : Stream) : List AttachEvent :=
  s.received ++ s.consumer.inHand ++ s.queue ++ s.producer.current

def Stream.queued (L : Limits) (s : Stream) : Nat :=
  (s.queue.map (AttachEvent.weight L)).sum

/-- The bytes that are counted are those of the queue and of the calls under
way; and what was queued at the end stays counted. -/
structure Accounted (L : Limits) (s : Stream) : Prop where
  covers : s.queued L + s.producer.held L + s.consumer.held L ≤ s.bytes
  exact : s.consumer ≠ .gone →
    s.bytes = s.queued L + s.producer.held L + s.consumer.held L
  bounded : s.bytes ≤ L.maxBytes
  fits : s.bytes < usizeSize

/-- Which phases of the two sides go together. -/
structure Phased (s : Stream) : Prop where
  closed : s.receiverClosed = s.consumer.isClosed
  gone_queue : s.consumer = .gone → s.queue = []
  lost_done : s.lost = true → s.producer.isDone = true
  done_cause : s.producer = .refused ∨ s.producer = .removed →
    s.lost = true ∨ s.receiverClosed = true
  returning_closed : ∀ e, s.producer = .returning e false →
    s.receiverClosed = true
  missed_dropped : s.consumer = .missed .disconnected →
    s.producer.isDropped = true ∧ s.queue = []
  rechecking_lost : s.consumer = .rechecking → s.lost = true
  ended_idle : s.ended = true →
    (s.consumer = .idle ∨ s.consumer.isClosed = true) ∧ s.queue = []
      ∧ s.producer.isDone = true

/-- A send may still be successful. -/
def Producer.isActive : Producer → Bool
  | idle | entered _ | live _ | reserved _ => true
  | _ => false

/-- `rest` is missing: it was sent, and will not be received. -/
structure Missing (s : Stream) (rest : List AttachEvent) : Prop where
  sent : s.sent = s.retained ++ rest
  active : s.producer.isActive = true → rest = []
  cause : rest ≠ [] → s.lost = true ∨ s.producer.isLosing = true
    ∨ s.receiverClosed = true
  lossy : s.lost = true ∨ s.producer.isLosing = true → rest ≠ []

/-- What can be received is what was sent, up to where it was lost. -/
structure Ordered (s : Stream) : Prop where
  missing : s.consumer ≠ .gone → ∃ rest, Missing s rest
  received_prefix : s.received <+: s.sent
  no_loss : AttachEvent.loss ∉ s.sent

section Steps

variable {L : Limits} {s s' : Stream}

theorem fetchSub_eq {used w : Nat} (hw : w ≤ used) :
    fetchSub used w = used - w :=
  if_pos hw

theorem checkedWeight_bind {e : AttachEvent} {used total : Nat}
    (h : (e.checkedWeight L).bind (checkedAdd used) = some total) :
    total = used + e.weight L ∧ total < usizeSize := by
  obtain ⟨w, hw, h⟩ := Option.bind_eq_some_iff.1 h
  unfold checkedAdd at h
  split at h
  · rename_i hlt
    cases h
    have hweight : w = e.weight L := by
      cases e with
      | output bytes =>
        simp only [AttachEvent.checkedWeight, checkedAdd] at hw
        split at hw
        · cases hw
          exact Nat.add_comm _ _
        · cases hw
      | resize | loss =>
        cases hw
        rfl
    exact ⟨hweight ▸ rfl, hlt⟩
  · cases h

/-- What a step does to the stream, and when. -/
inductive Move (L : Limits) (s : Stream) : Stream → Prop
  | enter (e : AttachEvent) : e ≠ .loss → s.producer = .idle →
      Move L s { s with producer := .entered e, sent := s.sent ++ [e] }
  | skip (e : AttachEvent) : e ≠ .loss → s.producer = .removed →
      Move L s { s with sent := s.sent ++ [e] }
  | closed {e : AttachEvent} : s.producer = .entered e →
      s.receiverClosed = true → Move L s { s with producer := .refused }
  | live {e : AttachEvent} : s.producer = .entered e →
      Move L s { s with producer := .live e }
  | reserve {e : AttachEvent} : s.producer = .live e →
      s.bytes + e.weight L ≤ L.maxBytes →
      s.bytes + e.weight L < usizeSize →
      Move L s
        { s with bytes := s.bytes + e.weight L, producer := .reserved e }
  | exceed {e : AttachEvent} : s.producer = .live e →
      Move L s { s with producer := .losing }
  | orphan {e : AttachEvent} : s.producer = .reserved e →
      s.consumer = .gone → Move L s { s with producer := .returning e false }
  | enqueue {e : AttachEvent} : s.producer = .reserved e →
      s.consumer ≠ .gone →
      Move L s { s with queue := s.queue ++ [e], producer := .idle }
  | overflow {e : AttachEvent} : s.producer = .reserved e →
      Move L s { s with producer := .returning e true }
  | giveBack {e : AttachEvent} {full : Bool} :
      s.producer = .returning e full →
      Move L s
        { s with
          bytes := fetchSub s.bytes (e.weight L)
          producer := if full then .losing else .refused }
  | lose : s.producer = .losing →
      Move L s { s with lost := true, producer := .refused }
  | remove : s.producer = .refused →
      Move L s { s with producer := .removed }
  | prune : s.producer = .idle → s.receiverClosed = true →
      Move L s { s with producer := .removed }
  | keep : Move L s s
  | dropTerminal : s.producer = .idle ∨ s.producer = .removed →
      Move L s { s with producer := .gone }
  | ended : s.consumer = .idle → s.ended = true →
      Move L s (s.answer (.error .disconnected))
  | poll : s.consumer = .idle → s.ended = false →
      Move L s { s with consumer := .polling }
  | take {e : AttachEvent} {rest : List AttachEvent} :
      s.consumer = .polling ∨ s.consumer = .rechecking →
      s.queue = e :: rest →
      Move L s { s with queue := rest, consumer := .taken e }
  | miss {error : TryRecvError} : s.consumer = .polling → s.queue = [] →
      (error = .disconnected ↔ s.producer.isDropped = true) →
      Move L s { s with consumer := .missed error }
  | release {e : AttachEvent} : s.consumer = .taken e →
      Move L s ({ s with bytes := fetchSub s.bytes (e.weight L) }.answer
        (.ok e))
  | recheck {error : TryRecvError} : s.consumer = .missed error →
      s.lost = true → Move L s { s with consumer := .rechecking }
  | refuse {error : TryRecvError} : s.consumer = .missed error →
      s.lost = false →
      Move L s
        ({ s with ended := s.ended || error = TryRecvError.disconnected
          }.answer (.error error))
  | loss : s.consumer = .rechecking → s.queue = [] →
      Move L s ({ s with ended := true }.answer (.ok .loss))
  | discard : s.consumer = .closing →
      Move L s { s with queue := [], consumer := .gone }
  | close : s.consumer = .idle →
      Move L s { s with receiverClosed := true, consumer := .closing }

theorem move_fanOut {e : AttachEvent} (he : e ≠ .loss)
    (h : s.fanOut e = some s') : Move L s s' := by
  unfold Stream.fanOut at h
  split at h
  · rename_i hp
    cases h
    exact .enter e he hp
  · rename_i hp
    cases h
    exact .skip e he hp
  · cases h

theorem move_produce (h : s.produce L = some s') : Move L s s' := by
  unfold Stream.produce at h
  cases hp : s.producer with
  | entered e =>
    rw [hp] at h
    cases h
    by_cases hclosed : s.receiverClosed = true
    · rw [if_pos hclosed]
      exact .closed hp hclosed
    · rw [if_neg hclosed]
      exact .live hp
  | live e =>
    rw [hp] at h
    dsimp only at h
    cases htotal : (e.checkedWeight L).bind (checkedAdd s.bytes) with
    | none =>
      rw [htotal] at h
      cases h
      exact .exceed hp
    | some total =>
      rw [htotal] at h
      dsimp only at h
      obtain ⟨rfl, hfits⟩ := checkedWeight_bind htotal
      by_cases hle : s.bytes + e.weight L ≤ L.maxBytes
      · rw [if_pos hle] at h
        cases h
        exact .reserve hp hle hfits
      · rw [if_neg hle] at h
        cases h
        exact .exceed hp
  | reserved e =>
    rw [hp] at h
    dsimp only at h
    by_cases hgone : s.consumer = .gone
    · rw [if_pos hgone] at h
      cases h
      exact .orphan hp hgone
    · rw [if_neg hgone] at h
      by_cases hroom : s.queue.length < L.maxEvents
      · rw [if_pos hroom] at h
        cases h
        exact .enqueue hp hgone
      · rw [if_neg hroom] at h
        cases h
        exact .overflow hp
  | returning e full =>
    rw [hp] at h
    cases h
    exact .giveBack hp
  | losing =>
    rw [hp] at h
    cases h
    exact .lose hp
  | refused =>
    rw [hp] at h
    cases h
    exact .remove hp
  | idle | removed | gone =>
    rw [hp] at h
    cases h

theorem move_consume (h : s.consume L = some s') : Move L s s' := by
  unfold Stream.consume at h
  split at h
  · rename_i hc
    split at h
    · rename_i e rest hq
      cases h
      exact .take (.inl hc) hq
    · rename_i hq
      cases h
      refine .miss hc hq ?_
      by_cases hdropped : s.producer.isDropped = true <;> simp [hdropped]
  · rename_i e hc
    cases h
    exact .release hc
  · rename_i error hc
    by_cases hlost : s.lost = true
    · rw [if_pos hlost] at h
      cases h
      exact .recheck hc hlost
    · rw [if_neg hlost] at h
      cases h
      exact .refuse hc (Bool.not_eq_true _ ▸ hlost)
  · rename_i hc
    split at h
    · rename_i e rest hq
      cases h
      exact .take (.inr hc) hq
    · rename_i hq
      cases h
      exact .loss hc hq
  · rename_i hc
    cases h
    exact .discard hc
  · cases h
  · cases h

theorem Stream.Step.move (h : s.Step L s') : Move L s s' := by
  obtain ⟨a, h⟩ := h
  cases a with
  | output bytes | resize cols rows => exact move_fanOut (by exact nofun) h
  | produce => exact move_produce h
  | prune =>
    have h : s.prune = some s' := h
    unfold Stream.prune at h
    split at h
    · rename_i hp
      cases h
      by_cases hclosed : s.receiverClosed = true
      · rw [if_pos hclosed]
        exact .prune hp hclosed
      · rw [if_neg hclosed, ← hp]
        exact .keep
    · cases h
  | dropTerminal =>
    have h : s.dropTerminal = some s' := h
    unfold Stream.dropTerminal at h
    split at h
    · rename_i hp
      cases h
      exact .dropTerminal (.inl hp)
    · rename_i hp
      cases h
      exact .dropTerminal (.inr hp)
    · cases h
  | poll =>
    have h : s.poll = some s' := h
    unfold Stream.poll at h
    split at h
    · rename_i hc
      by_cases hended : s.ended = true
      · rw [if_pos hended] at h
        cases h
        exact .ended hc hended
      · rw [if_neg hended] at h
        cases h
        exact .poll hc (Bool.not_eq_true _ ▸ hended)
    · cases h
  | consume => exact move_consume h
  | dropReceiver =>
    have h : s.dropReceiver = some s' := h
    unfold Stream.dropReceiver at h
    split at h
    · rename_i hc
      cases h
      exact .close hc
    · cases h

-- ==== accounting

theorem Move.accounted (h : Move L s s') (ha : Accounted L s) :
    Accounted L s' := by
  obtain ⟨hcovers, hexact, hbounded, hfits⟩ := ha
  cases h with
  | giveBack hp =>
    rename_i e full
    rw [hp] at hcovers hexact
    simp only [Producer.held] at hcovers hexact
    have hback : fetchSub s.bytes (e.weight L)
        = s.bytes - e.weight L := fetchSub_eq (by omega)
    constructor <;> cases full <;>
      simp only [Stream.queued, Producer.held, hback] at * <;> grind
  | release hc =>
    rename_i e
    rw [hc] at hcovers hexact
    simp only [Consumer.held] at hcovers hexact
    have hback : fetchSub s.bytes (e.weight L)
        = s.bytes - e.weight L := fetchSub_eq (by omega)
    constructor <;>
      simp only [Stream.answer, Stream.queued, Consumer.held, hback] at * <;>
      grind
  | keep => exact ⟨hcovers, hexact, hbounded, hfits⟩
  | dropTerminal hp =>
    have hheld : s.producer.held L = 0 := by
      rcases hp with hp | hp <;> rw [hp] <;> rfl
    rw [hheld] at hcovers hexact
    exact ⟨hcovers, hexact, hbounded, hfits⟩
  | take hc hq =>
    rename_i e rest
    have hheld : s.consumer.held L = 0 := by
      rcases hc with hc | hc <;> rw [hc] <;> rfl
    have hopen : s.consumer ≠ .gone := by
      rcases hc with hc | hc <;> rw [hc] <;> exact nofun
    have hqueued : s.queued L
        = e.weight L + (rest.map (AttachEvent.weight L)).sum := by
      unfold Stream.queued
      rw [hq, map_cons, sum_cons]
    have hbytes := hexact hopen
    rw [hheld, hqueued] at hbytes
    constructor <;>
      simp only [Stream.queued, Consumer.held] <;> omega
  | _ =>
    constructor <;>
      simp_all [Stream.queued, Producer.held, Consumer.held,
        Stream.answer] <;> omega

-- ==== phases

theorem isDone_of_isDropped {p : Producer} (h : p.isDropped = true) :
    p.isDone = true := by
  cases p <;> first | rfl | cases h

theorem Move.phased (h : Move L s s') (hp : Phased s) : Phased s' := by
  obtain ⟨hclosed, hgone, hlost, hdone, hreturn, hmissed, hrecheck,
    hended⟩ := hp
  cases h with
  | keep => exact ⟨hclosed, hgone, hlost, hdone, hreturn, hmissed, hrecheck,
      hended⟩
  | dropTerminal hp =>
    rcases hp with hp | hp <;> constructor <;>
      simp_all [isClosed, isDone, isDropped]
  | take hc hq =>
    rcases hc with hc | hc <;> constructor <;>
      simp_all [isClosed, isDone, isDropped]
  | giveBack hp =>
    rename_i e full
    cases full <;> constructor <;>
      simp_all [isClosed, isDone, isDropped]
  | refuse hc hl =>
    rename_i error
    have hend : error = .disconnected →
        s.producer.isDone = true ∧ s.queue = [] := by
      rintro rfl
      exact ⟨isDone_of_isDropped (hmissed hc).1, (hmissed hc).2⟩
    constructor <;>
      simp_all [isClosed, Stream.answer]
  | _ =>
    constructor <;>
      simp_all [isClosed, isDone, isDropped, Stream.answer]

-- ==== order

theorem received_answer (s : Stream) (a : Answer) :
    (s.answer a).received = s.received ++ a.event.toList := by
  unfold Stream.received Stream.answer
  rw [filterMap_append]
  cases h : a.event <;> simp [h]

theorem Move.missing (h : Move L s s') (hp : Phased s) (ho : Ordered s)
    (hopen : s'.consumer ≠ .gone) : ∃ rest, Missing s' rest := by
  obtain ⟨hclosed, hgone, hlost, hdone, hreturn, hmissed, hrecheck,
    hended⟩ := hp
  have hopen₀ : s.consumer ≠ .gone := by
    cases h with
    | discard => exact absurd rfl hopen
    | _ => simp_all [Stream.answer]
  obtain ⟨rest, hsent, hactive, hcause, hlossy⟩ := ho.missing hopen₀
  have hnoLoss : ∀ e, s.consumer = .taken e →
      Answer.event (.ok e) = some e := by
    intro e hc
    have hmem : e ∈ s.sent := by
      rw [hsent]
      simp [Stream.retained, hc, inHand]
    cases e with
    | loss => exact absurd hmem ho.no_loss
    | _ => rfl
  cases h with
  | keep => exact ⟨rest, hsent, hactive, hcause, hlossy⟩
  | enter e _ hp =>
    refine ⟨[], ?_, ?_, ?_, ?_⟩ <;>
      simp_all [Stream.retained, Producer.current, isActive,
        isLosing, isDone, Stream.received]
  | skip e _ hp =>
    refine ⟨rest ++ [e], ?_, ?_, ?_, ?_⟩ <;>
      simp_all [Stream.retained, isActive, isLosing, Stream.received]
  | @closed e hp _ | @exceed e hp | @overflow e hp =>
    -- the event of this send is the first that is missing
    refine ⟨e :: rest, ?_, ?_, ?_, ?_⟩ <;>
      simp_all [Stream.retained, Producer.current, isActive,
        isLosing, Stream.received]
  | release hc =>
    rename_i e
    have hevent := hnoLoss e hc
    refine ⟨rest, ?_, ?_, ?_, ?_⟩ <;>
      simp_all [Stream.retained, inHand, Stream.answer, Stream.received]
  | take hc hq =>
    refine ⟨rest, ?_, ?_, ?_, ?_⟩
    · rcases hc with hc | hc <;>
        simp_all [Stream.retained, inHand, Stream.received]
    · exact hactive
    · exact hcause
    · exact hlossy
  | dropTerminal hp =>
    refine ⟨rest, ?_, ?_, ?_, ?_⟩ <;> rcases hp with hp | hp <;>
      simp_all [Stream.retained, Producer.current, isActive,
        isLosing, isDone, Stream.received]
  | giveBack hp =>
    rename_i e full
    refine ⟨rest, ?_, ?_, ?_, ?_⟩ <;> cases full <;>
      simp_all [Stream.retained, Producer.current, isActive,
        isLosing, isDone, Stream.received]
  | _ =>
    refine ⟨rest, ?_, ?_, ?_, ?_⟩ <;>
      simp_all [Stream.retained, Producer.current, isActive,
        isLosing, isDone, Stream.received,
        Stream.answer, inHand, Answer.event]

theorem received_congr (h : s'.answers = s.answers) :
    s'.received = s.received :=
  congrArg (filterMap Answer.event) h

/-- Only the end of a call changes what was received. -/
theorem Move.received (h : Move L s s') :
    s'.received = s.received
      ∨ ∃ e, s.consumer = .taken e
        ∧ s'.received = s.received ++ (Answer.event (.ok e)).toList := by
  cases h with
  | release hc =>
    refine .inr ⟨_, hc, ?_⟩
    rw [received_answer]
    exact congrArg (· ++ _) (received_congr rfl)
  | ended | refuse | loss =>
    refine .inl ?_
    rw [received_answer]
    exact (append_nil _).trans (received_congr rfl)
  | _ => exact .inl (received_congr rfl)

theorem Move.sent (h : Move L s s') :
    s'.sent = s.sent ∨ ∃ e, e ≠ .loss ∧ s'.sent = s.sent ++ [e] := by
  cases h with
  | enter e he => exact .inr ⟨e, he, rfl⟩
  | skip e he => exact .inr ⟨e, he, rfl⟩
  | _ => exact .inl rfl

theorem Move.ordered (h : Move L s s') (hp : Phased s) (ho : Ordered s) :
    Ordered s' := by
  have hgrows : s.sent <+: s'.sent := by
    rcases h.sent with heq | ⟨e, -, heq⟩
    · rw [heq]
    · rw [heq]
      exact prefix_append _ _
  refine ⟨h.missing hp ho, ?_, ?_⟩
  · rcases h.received with heq | ⟨e, hc, heq⟩
    · rw [heq]
      exact ho.received_prefix.trans hgrows
    · have hopen : s.consumer ≠ .gone := by
        rw [hc]
        exact nofun
      obtain ⟨rest, hsent, -⟩ := ho.missing hopen
      have hne : e ≠ .loss := by
        rintro rfl
        refine ho.no_loss ?_
        rw [hsent]
        simp [Stream.retained, hc, inHand]
      have hevent : Answer.event (.ok e) = some e := by
        cases e with
        | loss => exact absurd rfl hne
        | _ => rfl
      rw [heq, hevent]
      refine List.IsPrefix.trans ⟨s.queue ++ s.producer.current ++ rest, ?_⟩
        hgrows
      rw [hsent, Stream.retained, hc]
      simp [inHand]
  · rcases h.sent with heq | ⟨e, he, heq⟩
    · rw [heq]
      exact ho.no_loss
    · rw [heq, mem_append, mem_singleton]
      rintro (hmem | rfl)
      · exact ho.no_loss hmem
      · exact he rfl

-- ==== answers

/-- An answer before the end of the stream. -/
def Answer.isEarly : Answer → Bool
  | .ok .loss | .error .disconnected => false
  | .ok _ | .error .empty => true

/-- The stream has ended with a loss: what is missing comes right after what
was received. -/
structure EndedLossy (s : Stream) : Prop where
  lost : s.lost = true
  answers : ∃ (before : List Answer) (k : Nat),
    (∀ a ∈ before, a.isEarly = true) ∧ s.answers
      = before ++ .ok .loss :: List.replicate k (.error .disconnected)
  missing : ∃ rest, rest ≠ [] ∧ s.sent = s.received ++ rest

/-- The stream has ended with the terminal, and all was received. -/
structure EndedWhole (s : Stream) : Prop where
  lost : s.lost = false
  gone : s.producer = .gone
  answers : ∃ (before : List Answer) (k : Nat),
    (∀ a ∈ before, a.isEarly = true) ∧ s.answers
      = before ++ List.replicate (k + 1) (.error .disconnected)
  received : s.sent = s.received

/-- What `try_recv` has answered so far. -/
structure Answered (s : Stream) : Prop where
  early : s.ended = false → ∀ a ∈ s.answers, a.isEarly = true
  ended : s.ended = true → EndedLossy s ∨ EndedWhole s

theorem replicate_snoc {α : Type} (k : Nat) (a : α) :
    List.replicate k a ++ [a] = List.replicate (k + 1) a :=
  replicate_succ'.symm

theorem ended_disconnected (h : EndedLossy s ∨ EndedWhole s) :
    EndedLossy (s.answer (.error .disconnected))
      ∨ EndedWhole (s.answer (.error .disconnected)) := by
  have hreceived : (s.answer (.error .disconnected)).received
      = s.received := by
    rw [received_answer]
    exact append_nil _
  rcases h with ⟨hlost, ⟨before, k, hbefore, hanswers⟩, rest, hrest, hsent⟩
    | ⟨hlost, hgone, ⟨before, k, hbefore, hanswers⟩, hsent⟩
  · refine .inl ⟨hlost, ⟨before, k + 1, hbefore, ?_⟩, rest, hrest, ?_⟩
    · show s.answers ++ _ = _
      rw [hanswers, append_assoc, cons_append, replicate_snoc]
    · rw [hreceived]
      exact hsent
  · refine .inr ⟨hlost, hgone, ⟨before, k + 1, hbefore, ?_⟩, ?_⟩
    · show s.answers ++ _ = _
      rw [hanswers, append_assoc, replicate_snoc]
    · rw [hreceived]
      exact hsent

/-- What concerns the end of a stream stays when a send is refused. -/
theorem ended_congr (h : EndedLossy s ∨ EndedWhole s)
    (hlost : s'.lost = s.lost) (hanswers : s'.answers = s.answers)
    (hgone : s.producer = .gone → s'.producer = .gone) (hsent : s'.sent = s.sent
      ∨ s.producer ≠ .gone ∧ ∃ e, s'.sent = s.sent ++ [e]) :
    EndedLossy s' ∨ EndedWhole s' := by
  have hreceived := received_congr hanswers
  rcases h with ⟨hl, ha, rest, hrest, hmissing⟩ | ⟨hl, hg, ha, hall⟩
  · refine .inl ⟨hlost.trans hl, hanswers ▸ ha, ?_⟩
    rcases hsent with hsent | ⟨-, e, hsent⟩
    · exact ⟨rest, hrest, by rw [hsent, hreceived, hmissing]⟩
    · refine ⟨rest ++ [e], by simp, ?_⟩
      rw [hsent, hreceived, hmissing, append_assoc]
  · refine .inr ⟨hlost.trans hl, hgone hg, hanswers ▸ ha, ?_⟩
    rcases hsent with hsent | ⟨hne, -⟩
    · rw [hsent, hreceived, hall]
    · exact absurd hg hne

theorem Move.after_end (h : Move L s s') (hp : Phased s) (hended : s.ended = true)
    (ha : EndedLossy s ∨ EndedWhole s) :
    s'.ended = true ∧ (EndedLossy s' ∨ EndedWhole s') := by
  obtain ⟨hconsumer, -, hdone⟩ := hp.ended_idle hended
  have hbusy : ∀ c, s.consumer = c → c = .idle ∨ c.isClosed = true := by
    rintro c rfl
    exact hconsumer
  have hproducer : ∀ p, s.producer = p → p.isDone = true := by
    rintro p rfl
    exact hdone
  cases h with
  | keep => exact ⟨hended, ha⟩
  | ended => exact ⟨hended, ended_disconnected ha⟩
  | skip e _ hp =>
    refine ⟨hended, ended_congr ha rfl rfl id (.inr ⟨?_, e, rfl⟩)⟩
    rw [hp]
    exact nofun
  | remove hp =>
    refine ⟨hended, ended_congr ha rfl rfl (fun hg => ?_) (.inl rfl)⟩
    rw [hp] at hg
    cases hg
  | dropTerminal =>
    exact ⟨hended, ended_congr ha rfl rfl (fun _ => rfl) (.inl rfl)⟩
  | close | discard =>
    exact ⟨hended, ended_congr ha rfl rfl id (.inl rfl)⟩
  | poll _ hopen =>
    rw [hended] at hopen
    cases hopen
  | take hc =>
    rcases hc with hc | hc <;>
      exact absurd (hbusy _ hc) (by simp [isClosed])
  | miss hc | release hc | recheck hc | refuse hc | loss hc =>
    exact absurd (hbusy _ hc) (by simp [isClosed])
  | enter _ _ hp | closed hp | live hp | reserve hp | exceed hp | orphan hp
  | enqueue hp | overflow hp | giveBack hp | lose hp | prune hp =>
    cases hproducer _ hp

theorem endedLossy_of_loss (hp : Phased s) (ho : Ordered s)
    (ha : ∀ a ∈ s.answers, a.isEarly = true)
    (hc : s.consumer = .rechecking) (hq : s.queue = []) :
    EndedLossy ({ s with ended := true }.answer (.ok .loss)) := by
  have hlost := hp.rechecking_lost hc
  have hdone := hp.lost_done hlost
  obtain ⟨rest, hsent, -, -, hlossy⟩ := ho.missing (by rw [hc]; exact nofun)
  refine ⟨hlost, ⟨s.answers, 0, ha, rfl⟩, rest, hlossy (.inl hlost), ?_⟩
  show s.sent = _
  rw [received_answer, hsent, Stream.retained, hc, hq]
  have hcurrent : s.producer.current = [] := by
    cases h : s.producer <;> rw [h] at hdone <;> first | rfl | cases hdone
  rw [hcurrent]
  simp only [inHand, append_nil, Answer.event, Option.toList_none]
  rfl

/-- The end of a stream whose terminal is gone. -/
theorem endedWhole_of_missed (hp : Phased s) (ho : Ordered s)
    (ha : ∀ a ∈ s.answers, a.isEarly = true)
    (hc : s.consumer = .missed .disconnected) (hl : s.lost = false) :
    EndedWhole ({ s with ended := true }.answer (.error .disconnected)) := by
  obtain ⟨hdropped, hq⟩ := hp.missed_dropped hc
  have hopen : s.receiverClosed = false := by
    rw [hp.closed, hc]
    rfl
  have hgone : s.producer = .gone := by
    cases h : s.producer <;> rw [h] at hdropped <;>
      first | rfl | cases hdropped
    rcases hp.done_cause (.inr h) with hlost | hclosed
    · rw [hl] at hlost
      cases hlost
    · rw [hopen] at hclosed
      cases hclosed
  obtain ⟨rest, hsent, -, hcause, -⟩ := ho.missing (by rw [hc]; exact nofun)
  have hrest : rest = [] := by
    by_contra hne
    rcases hcause hne with hlost | hlosing | hclosed
    · rw [hl] at hlost
      cases hlost
    · rw [hgone] at hlosing
      cases hlosing
    · rw [hopen] at hclosed
      cases hclosed
  refine ⟨hl, hgone, ⟨s.answers, 0, ha, rfl⟩, ?_⟩
  show s.sent = _
  rw [received_answer, hsent, Stream.retained, hc, hq, hgone, hrest]
  simp only [inHand, Producer.current, append_nil,
    Answer.event, Option.toList_none]
  rfl

theorem Move.answered (h : Move L s s') (hp : Phased s) (ho : Ordered s)
    (ha : Answered s) : Answered s' := by
  by_cases hended : s.ended = true
  · obtain ⟨hended', ha'⟩ := h.after_end hp hended (ha.ended hended)
    exact ⟨fun hnot => absurd hended' (by simp [hnot]), fun _ => ha'⟩
  · have hopen : s.ended = false := Bool.not_eq_true _ ▸ hended
    have hearly := ha.early hopen
    have hsnoc : ∀ a : Answer, a.isEarly = true →
        ∀ b ∈ s.answers ++ [a], b.isEarly = true := by
      intro a hearlyA b hb
      rcases mem_append.1 hb with hb | hb
      · exact hearly b hb
      · rw [mem_singleton.1 hb]
        exact hearlyA
    have hsame : s'.ended = s.ended → s'.answers = s.answers →
        Answered s' := by
      intro he hans
      rw [hopen] at he
      exact ⟨fun _ => hans ▸ hearly, fun h => by rw [he] at h; cases h⟩
    cases h with
    | ended _ hclosed => exact absurd hclosed hended
    | release hc =>
      rename_i e
      refine ⟨fun _ => hsnoc _ ?_, fun h => absurd h hended⟩
      obtain ⟨rest, hsent, -⟩ := ho.missing (by rw [hc]; exact nofun)
      cases e with
      | loss =>
        refine absurd ?_ ho.no_loss
        rw [hsent]
        simp [Stream.retained, hc, inHand]
      | _ => rfl
    | refuse hc hl =>
      rename_i error
      cases error with
      | empty =>
        refine ⟨fun _ => hsnoc _ rfl, fun h => ?_⟩
        have : s.ended = true := by simpa [Stream.answer] using h
        exact absurd this hended
      | disconnected =>
        have hwhole := endedWhole_of_missed hp ho hearly hc hl
        have htrue : (s.ended || decide (TryRecvError.disconnected
            = TryRecvError.disconnected)) = true := by simp
        rw [htrue]
        exact ⟨fun h => (nomatch h), fun _ => .inr hwhole⟩
    | loss hc hq =>
      exact ⟨fun h => (nomatch h),
        fun _ => .inl (endedLossy_of_loss hp ho hearly hc hq)⟩
    | _ => exact hsame rfl rfl

-- ==== progress

/-- How many steps a call has left, at most. -/
def Consumer.remaining : Consumer → Nat
  | polling => 4
  | missed _ => 3
  | rechecking => 2
  | taken _ | closing => 1
  | idle | gone => 0

/-- A call of the consumer that is under way always has a step to do, which
brings it closer to its end. -/
theorem consume_progress (hidle : s.consumer ≠ .idle)
    (hgone : s.consumer ≠ .gone) :
    ∃ s', s.consume L = some s'
      ∧ s'.consumer.remaining < s.consumer.remaining := by
  unfold Stream.consume
  cases hc : s.consumer with
  | idle => exact absurd hc hidle
  | gone => exact absurd hc hgone
  | polling | rechecking =>
    cases hq : s.queue <;> exact ⟨_, rfl, by simp [Consumer.remaining,
      Stream.answer]⟩
  | missed error =>
    dsimp only
    split <;> exact ⟨_, rfl, by simp [Consumer.remaining, Stream.answer]⟩
  | taken e | closing => exact ⟨_, rfl, by simp [Consumer.remaining,
      Stream.answer]⟩

/-- Nothing more will be queued. -/
def Stream.isFinal (s : Stream) : Prop :=
  s.lost = true ∨ s.producer.isDropped = true

/-- The calls that have been answered, and those that still can be before
the end: one for each event that is left, and one that has looked at the
queue before. -/
def Stream.calls (s : Stream) : Nat :=
  s.answers.length + s.queue.length + s.consumer.inHand.length
    + if s.consumer = .missed .empty ∧ s.lost = false then 1 else 0

theorem Move.isFinal (h : Move L s s') (hf : s.isFinal) : s'.isFinal := by
  unfold Stream.isFinal at *
  cases h <;> simp_all [isDropped, Stream.answer]

/-- Each further answer takes an event, until the end. -/
theorem Move.calls (h : Move L s s') (hp : Phased s) (hf : s.isFinal)
    (hopen : s'.ended = false) : s'.calls ≤ s.calls := by
  have hdone : s.producer.isDone = true := by
    rcases hf with hlost | hdropped
    · exact hp.lost_done hlost
    · exact isDone_of_isDropped hdropped
  unfold Stream.isFinal at hf
  cases h with
  | keep => exact Nat.le_refl _
  | refuse hc hl =>
    rename_i error
    cases error with
    | empty =>
      simp_all [Stream.calls, Stream.answer, inHand]
      omega
    | disconnected => simp_all [Stream.answer]
  | miss hc hq hdropped =>
    rename_i error
    cases error with
    | empty =>
      have hnot : ¬ s.producer.isDropped = true := fun h =>
        nomatch hdropped.2 h
      have hlost := hf.resolve_right hnot
      simp_all [Stream.calls, inHand]
    | disconnected => simp_all [Stream.calls, inHand]
  | take hc hq =>
    rcases hc with hc | hc <;>
      simp_all [Stream.calls, inHand] <;> omega
  | _ =>
    simp_all [Stream.calls, Stream.answer, inHand,
      isDone, isDropped] <;> try omega

end Steps

-- ==== runs

section Runs

variable {L : Limits} {s s' : Stream}

theorem accounted_subscribed : Accounted L .subscribed :=
  ⟨Nat.le_refl _, fun _ => rfl, Nat.zero_le _, by decide⟩

theorem phased_subscribed : Phased .subscribed := by
  constructor <;> simp [Stream.subscribed, isClosed]

theorem ordered_subscribed : Ordered .subscribed := by
  refine ⟨fun _ => ⟨[], rfl, fun _ => rfl, fun h => absurd rfl h, ?_⟩,
    prefix_refl _, not_mem_nil⟩
  rintro (h | h) <;> cases h

theorem answered_subscribed : Answered .subscribed :=
  ⟨fun _ _ ha => absurd ha not_mem_nil, fun h => nomatch h⟩

/-- What holds at every state of every run. -/
theorem Stream.Reachable.invariant (h : s.Reachable L) :
    Accounted L s ∧ Phased s ∧ Ordered s ∧ Answered s := by
  induction h with
  | refl =>
    exact ⟨accounted_subscribed, phased_subscribed, ordered_subscribed,
      answered_subscribed⟩
  | tail _ hstep ih =>
    obtain ⟨hacc, hp, ho, ha⟩ := ih
    have hmove := hstep.move
    exact ⟨hmove.accounted hacc, hmove.phased hp, hmove.ordered hp ho,
      hmove.answered hp ho ha⟩

/-- Once nothing more is queued, the calls that are answered are bounded by
the events that are left, until the stream has ended. -/
theorem Stream.Reachable.run_final (h : s.Reachable L) (hf : s.isFinal)
    (hrun : Stream.Run L s s') :
    s'.isFinal ∧ (s'.ended = true ∨ s'.calls ≤ s.calls) := by
  induction hrun with
  | refl => exact ⟨hf, .inr (Nat.le_refl _)⟩
  | @tail s₁ s₂ hrun₁ hstep ih =>
    obtain ⟨hf₁, hcalls⟩ := ih
    have hmove := hstep.move
    have hreach : s₁.Reachable L := Relation.ReflTransGen.trans h hrun₁
    obtain ⟨-, hp, -, ha⟩ := hreach.invariant
    refine ⟨hmove.isFinal hf₁, ?_⟩
    by_cases hended : s₁.ended = true
    · exact .inl (hmove.after_end hp hended (ha.ended hended)).1
    · by_cases hended₂ : s₂.ended = true
      · exact .inl hended₂
      · have hle := hmove.calls hp hf₁ (Bool.not_eq_true _ ▸ hended₂)
        exact .inr (hle.trans (hcalls.resolve_left hended))

end Runs

section Samples

/-- The limits of the source, with a charge for each event. -/
def sourceLimits : Limits := ⟨256, 1024 * 1024, 32⟩

/-- One event is queued, and a second one is too large. -/
def overflowActions : List Action :=
  [.resize 90 30, .produce, .produce, .produce,
    .output (List.replicate 40 0), .produce, .produce, .produce]

end Samples

end Tasty.Terminal
