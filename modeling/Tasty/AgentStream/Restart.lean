/-
What becomes of the lines of a transcript that only grows, over any
sequence of appends, polls, snapshots and restarts.

The invariant cuts the bytes behind the start of the watch at `handed`, a
line boundary: the lines before it were handed on. A tail reads from a
position that is not behind the boundary (`Reads`), so that what it hands
on next leaves no line out (`extend`). A restart keeps to this exactly if
the snapshot's offset is not behind the boundary either: the offset of a
tail that holds a piece of a line is, until that line is handed on.
-/
import Mathlib.Data.List.Infix
import Tasty.AgentStream.Tail

namespace Tasty.AgentStream

open TailState List

variable {xs : Bytes} {m m' : Nat} {s : Plugin} {t : TailState}

/-- What was appended since the watch began. -/
def Plugin.stream (s : Plugin) : Bytes := s.file.bytes.drop s.start

/-- Every complete line since then was handed on, in file order. -/
def Plugin.Delivered (s : Plugin) : Prop :=
  (textsOf s.stream).Sublist s.emitted

/-- A piece of the stream. -/
def piece (xs : Bytes) (m m' : Nat) : Bytes := (xs.drop m).take (m' - m)

theorem textsOf_append (h : Lines.rest newline xs = [])
    (ys : Bytes) : textsOf (xs ++ ys) = textsOf xs ++ textsOf ys := by
  rw [textsOf, Lines.lines_append h, filterMap_append]
  rfl

theorem take_append_piece (h : m ≤ m') :
    xs.take m ++ piece xs m m' = xs.take m' := by
  have := take_add (l := xs) (i := m) (j := m' - m)
  rw [Nat.add_sub_cancel' h] at this
  exact this.symm

theorem piece_append_piece {n : Nat} (h : m ≤ n)
    (h' : n ≤ m') : piece xs m n ++ piece xs n m' = piece xs m m' := by
  unfold piece
  have := take_add (l := xs.drop m) (i := n - m) (j := m' - n)
  rw [drop_drop, Nat.add_sub_cancel' h,
    show n - m + (m' - n) = m' - m by omega] at this
  exact this.symm

/-- Lines that were read from a position before the boundary: behind it
they are the next ones. -/
theorem extend {n : Nat} {emitted : List Text}
    (hn : Lines.rest newline (xs.take n) = [])
    (he : (textsOf (xs.take n)).Sublist emitted) (hm : m ≤ n)
    (hr : Lines.rest newline (piece xs m m') = []) :
    Lines.rest newline (xs.take (max n m')) = []
      ∧ (textsOf (xs.take (max n m'))).Sublist
        (emitted ++ textsOf (piece xs m m')) := by
  by_cases hle : m' ≤ n
  · rw [Nat.max_eq_left hle]
    exact ⟨hn, he.trans (sublist_append_left _ _)⟩
  · have hnm : n ≤ m' := by omega
    rw [Nat.max_eq_right hnm]
    rw [← piece_append_piece hm hnm] at hr ⊢
    rw [← take_append_piece hnm]
    have hfirst : Lines.rest newline (piece xs m n) = [] := by
      rw [← take_append_piece hm] at hn
      exact Lines.rest_of_append hn
    rw [Lines.rest_append_of_nil hn, textsOf_append hn, textsOf_append hfirst]
    refine ⟨Lines.rest_of_append hr, he.append ?_⟩
    exact sublist_append_right _ _

-- ==== positions

/-- A tail that reads a stream from the position `m`: what it holds back
begins there. -/
structure ReadsFrom (xs : Bytes) (start identity m : Nat) (t : TailState) :
    Prop where
  offset : t.offset = start + m + t.partialLine.length
  held : t.partialLine <+: xs.drop m
  unfinished : Lines.lines newline t.partialLine = []
  identity : ∀ i, t.identity = some i → i = identity

abbrev Reads (s : Plugin) (m : Nat) (t : TailState) : Prop :=
  ReadsFrom s.stream s.start s.file.identity m t

/-- A tail that was polled: the lines it read lie between two positions. -/
def Polled (s : Plugin) (t : TailState)
    (result : Except Fault TailPoll) : Prop :=
  ∃ m m', m ≤ s.handed ∧ m ≤ m' ∧ m' ≤ s.stream.length ∧ Reads s m' t
    ∧ pollLines result = textsOf (piece s.stream m m')
    ∧ Lines.rest newline (piece s.stream m m') = []

theorem ReadsFrom.offset_le (h : Reads s m t) (hs : s.start ≤ s.file.bytes.length)
    (hm : m ≤ s.stream.length) : t.offset ≤ s.file.bytes.length := by
  have hlen := h.held.length_le
  have hoff := h.offset
  rw [length_drop] at hlen
  unfold Plugin.stream at hlen hm
  rw [length_drop] at hlen hm
  omega

theorem ReadsFrom.reconcile (h : Reads s m t) (hle : t.offset ≤ s.file.bytes.length)
    (known : Bool) :
    t.reconcile s.file.bytes.length (s.file.fileIdentity known)
      = (false, { t with
          identity := (s.file.fileIdentity known).or t.identity }) := by
  unfold TailState.reconcile
  have hreplaced : t.replaced (s.file.fileIdentity known) = false := by
    unfold TailState.replaced Transcript.fileIdentity
    cases ht : t.identity with
    | none => rfl
    | some i =>
      cases known with
      | false => rfl
      | true => simp [h.identity i ht]
  dsimp only
  rw [hreplaced]
  have hlen : ¬ s.file.bytes.length < t.offset := by omega
  simp [hlen]

theorem ReadsFrom.reidentified (h : Reads s m t) (known : Bool) :
    Reads s m { t with
      identity := (s.file.fileIdentity known).or t.identity } := by
  refine ⟨h.offset, h.held, h.unfinished, fun i hi => ?_⟩
  unfold Transcript.fileIdentity at hi
  cases known with
  | false => exact h.identity i hi
  | true => exact (Option.some.inj hi).symm

/-- What a poll reads: the lines from where it stood to where it stands
now. A file that is not there yet has none. -/
theorem ReadsFrom.poll {m : Nat} {t : TailState}
    (h : Reads s m t) (hs : s.start ≤ s.file.bytes.length)
    (hm : m ≤ s.handed) (hn : s.handed ≤ s.stream.length) (known : Bool)
    (fault : Fault) :
    Polled s (t.poll s.file known fault).2 (t.poll s.file known fault).1 := by
  have hml : m ≤ s.stream.length := Nat.le_trans hm hn
  have hnothing : Lines.rest newline (piece s.stream m m) = []
      ∧ textsOf (piece s.stream m m) = [] := by
    unfold piece
    rw [Nat.sub_self, take_zero]
    exact ⟨rfl, rfl⟩
  unfold TailState.poll
  by_cases hmeta : fault = .metadata
  · rw [if_pos hmeta]
    exact ⟨m, m, hm, Nat.le_refl m, hml, h, hnothing.2.symm, hnothing.1⟩
  rw [if_neg hmeta]
  cases hc : s.file.content with
  | none =>
    -- nothing was written yet, so nothing was read
    have hbytes : s.file.bytes = [] := by simp [Transcript.bytes, hc]
    have hoff := h.offset_le hs hml
    have hoffset := h.offset
    rw [hbytes, length_nil] at hs hoff
    have hm0 : m = 0 := by omega
    subst hm0
    refine ⟨0, 0, hm, Nat.le_refl 0, hml, ⟨?_, ?_, rfl, nofun⟩,
      hnothing.2.symm, hnothing.1⟩
    · show 0 = s.start + 0 + 0
      omega
    · exact nil_prefix
  | some bytes =>
    have hbytes : s.file.bytes = bytes := by simp [Transcript.bytes, hc]
    have hoff := h.offset_le hs hml
    dsimp only
    rw [← hbytes, h.reconcile hoff]
    have h' := h.reidentified known
    dsimp only
    by_cases hread : fault = .read
    · rw [if_pos hread]
      exact ⟨m, m, hm, Nat.le_refl m, hml, h', hnothing.2.symm, hnothing.1⟩
    rw [if_neg hread]
    generalize hbuf : (s.file.bytes.drop t.offset).take
      (min (s.file.bytes.length - t.offset) MAX_READ_PER_TICK) = buf
    -- what was held back and what is read now are one piece of the stream
    have hprefix : t.partialLine ++ buf <+: s.stream.drop m := by
      obtain ⟨after, hafter⟩ := h.held
      have hdrop : s.file.bytes.drop t.offset = after := by
        have := congrArg (List.drop t.partialLine.length) hafter
        rw [drop_left, drop_drop] at this
        rw [this, Plugin.stream, drop_drop, h.offset]
        congr 1
        omega
      rw [hdrop] at hbuf
      rw [← hafter, ← hbuf]
      exact (prefix_append_right_inj _).mpr (List.take_prefix _ _)
    obtain ⟨whole, hall, hlines, hrest⟩ :=
      Lines.split_eq newline (t.partialLine ++ buf)
    have hwhole : whole <+: s.stream.drop m :=
      (prefix_append whole _).trans (hall ▸ hprefix)
    have hpiece : piece s.stream m (m + whole.length) = whole := by
      unfold piece
      rw [Nat.add_sub_cancel_left]
      exact (prefix_iff_eq_take.mp hwhole).symm
    have hlen := hwhole.length_le
    rw [length_drop] at hlen
    refine ⟨m, m + whole.length, hm, by omega, by omega,
      ⟨?_, ?_, ?_, h'.identity⟩, ?_, ?_⟩
    · have htotal := congrArg List.length hall
      rw [length_append, length_append] at htotal
      have := h.offset
      show t.offset + buf.length = s.start + (m + whole.length)
        + (Lines.rest newline (t.partialLine ++ buf)).length
      omega
    · show Lines.rest newline (t.partialLine ++ buf)
        <+: s.stream.drop (m + whole.length)
      obtain ⟨after, hafter⟩ := hprefix
      refine ⟨after, ?_⟩
      rw [← drop_drop, ← hafter]
      conv_rhs => rw [hall, append_assoc, drop_left]
    · exact Lines.lines_rest _
    · show textsOf (t.partialLine ++ buf) = _
      rw [hpiece, textsOf, ← hlines]
      rfl
    · rw [hpiece]
      exact hrest

-- ==== invariant

/-- What holds between two actions. -/
structure Inv (s : Plugin) : Prop where
  started : s.start ≤ s.file.bytes.length
  handed : s.handed ≤ s.stream.length
  boundary : Lines.rest newline (s.stream.take s.handed) = []
  emitted : (textsOf (s.stream.take s.handed)).Sublist s.emitted
  inside : ∀ t, s.watch.tail = some t → ∃ m ≤ s.handed, Reads s m t
  outside : ∀ c, s.out = some (c, none) → ∃ m ≤ s.handed, Reads s m c.tail
  polled : ∀ c result, s.out = some (c, some result) →
    Polled s c.tail result
  generation : ∀ c r, s.out = some (c, r) →
    c.generation = s.watch.generation
  somewhere : s.watch.tail = none → s.out ≠ none
  offset : s.start ≤ s.watch.offset
    ∧ s.watch.offset ≤ s.file.bytes.length
  saved : ∀ o, s.saved = some o → s.start ≤ o
    ∧ o ≤ s.file.bytes.length

theorem inv_watching (file : Transcript) (fromStart known : Bool)
    (fault : Fault) (generation : Nat) :
    Inv (Plugin.watching file fromStart known fault generation) := by
  generalize hs : Plugin.watching file fromStart known fault generation = s
  obtain ⟨t, ht, hoff, hheld, hid⟩ : ∃ t : TailState,
      s = ⟨file, ⟨some t, t.offset, generation⟩, none, true, none, [],
        t.offset, 0⟩
      ∧ t.offset ≤ file.bytes.length ∧ t.partialLine = []
      ∧ ∀ i, t.identity = some i → i = file.identity := by
    subst hs
    refine ⟨_, rfl, ?_⟩
    unfold resumeAt atEnd Transcript.fileIdentity
      Transcript.bytes
    cases fromStart <;> cases fault <;> cases file.content <;>
      cases known <;> simp
  subst ht
  refine ⟨hoff, Nat.zero_le _, rfl, nil_sublist _, ?_, nofun, nofun,
    nofun, nofun, ⟨Nat.le_refl _, hoff⟩, nofun⟩
  intro t' ht'
  obtain rfl := Option.some.inj ht'
  refine ⟨0, Nat.le_refl 0, ?_, ?_, ?_, hid⟩
  · rw [hheld]
    rfl
  · rw [hheld]
    exact nil_prefix
  · rw [hheld]
    rfl

/-- Bytes that are appended come behind everything that was read. -/
theorem stream_append (hs : s.start ≤ s.file.bytes.length)
    (bytes : Bytes) : (s.step (.append bytes)).stream = s.stream ++ bytes := by
  show (s.file.bytes ++ bytes).drop s.start = _
  rw [drop_append_of_le_length hs]
  rfl

theorem ReadsFrom.append (h : Reads s m t) (hs : s.start ≤ s.file.bytes.length)
    (hm : m ≤ s.stream.length) (bytes : Bytes) :
    Reads (s.step (.append bytes)) m t := by
  refine ⟨h.offset, ?_, h.unfinished, h.identity⟩
  rw [stream_append hs, drop_append_of_le_length hm]
  exact h.held.trans (prefix_append _ _)

theorem piece_append (h : m' ≤ xs.length)
    (ys : Bytes) : piece (xs ++ ys) m m' = piece xs m m' := by
  unfold piece
  by_cases hm : m ≤ xs.length
  · rw [drop_append_of_le_length hm,
      take_append_of_le_length (by rw [length_drop]; omega)]
  · rw [show m' - m = 0 by omega, take_zero, take_zero]

theorem Inv.append (h : Inv s) (bytes : Bytes) :
    Inv (s.step (.append bytes)) := by
  have hstream := stream_append h.started bytes
  have hlen : (s.step (.append bytes)).file.bytes.length
      = s.file.bytes.length + bytes.length := length_append
  have htake : (s.step (.append bytes)).stream.take s.handed
      = s.stream.take s.handed := by
    rw [hstream, take_append_of_le_length h.handed]
  refine ⟨?_, ?_, ?_, ?_, ?_, ?_, ?_, h.generation, h.somewhere, ?_, ?_⟩
  · have := h.started
    show s.start ≤ _
    omega
  · have := h.handed
    show s.handed ≤ _
    rw [hstream, length_append]
    omega
  · exact htake ▸ h.boundary
  · exact htake ▸ h.emitted
  · intro t ht
    obtain ⟨m, hm, hr⟩ := h.inside t ht
    exact ⟨m, hm, hr.append h.started (Nat.le_trans hm h.handed) bytes⟩
  · intro c hc
    obtain ⟨m, hm, hr⟩ := h.outside c hc
    exact ⟨m, hm, hr.append h.started (Nat.le_trans hm h.handed) bytes⟩
  · intro c result hc
    obtain ⟨m, m', hm, hmm, hm', hr, hlines, hrest⟩ := h.polled c result hc
    refine ⟨m, m', hm, hmm, ?_, hr.append h.started hm' bytes, ?_, ?_⟩
    · rw [hstream, length_append]
      omega
    · rw [hstream, piece_append hm']
      exact hlines
    · rw [hstream, piece_append hm']
      exact hrest
  · have := h.offset
    show s.start ≤ s.watch.offset ∧ s.watch.offset ≤ _
    omega
  · intro o ho
    have := h.saved o ho
    show s.start ≤ o ∧ o ≤ _
    omega

theorem Inv.checkOut (h : Inv s) : Inv (s.step .checkOut) := by
  unfold Plugin.step Watch.checkOut
  dsimp only
  cases ht : s.watch.tail with
  | none => exact h
  | some t =>
    refine { h with
      inside := nofun, outside := ?_, polled := nofun, generation := ?_
      somewhere := fun _ => Option.some_ne_none _ }
    · intro c hc
      cases hc
      exact h.inside t ht
    · intro c r hc
      cases hc
      rfl

theorem Inv.poll (h : Inv s) (known : Bool) (fault : Fault) :
    Inv (s.step (.poll known fault)) := by
  unfold Plugin.step
  dsimp only
  split
  · next c hc =>
    refine { h with
      outside := ?_, polled := ?_, generation := ?_
      somewhere := fun _ => Option.some_ne_none _ }
    · intro c' hc'
      simp at hc'
    · intro c' result hc'
      cases hc'
      obtain ⟨m, hm, hr⟩ := h.outside c hc
      exact hr.poll h.started hm h.handed known fault
    · intro c' r hc'
      cases hc'
      exact h.generation c none hc
  · exact h

variable {result : Except Fault TailPoll}

/-- The tail that comes back: its lines are handed on, and it reads on. -/
theorem Inv.applyPoll (h : Inv s) {c : TailCheckout}
    (hc : s.out = some (c, some result)) :
    ∃ dirty m', Polled s c.tail result ∧ Reads s m' c.tail
      ∧ s.applyPoll c result
        = { s with
            watch := ⟨some c.tail, c.tail.offset, s.watch.generation⟩
            out := none
            dirty
            emitted := s.emitted ++ pollLines result
            handed := max s.handed m' } ∧ Inv (s.applyPoll c result) := by
  have hpolled := h.polled c result hc
  obtain ⟨m, m', hm, hmm, hm', hr, hlines, hrest⟩ := h.polled c result hc
  obtain ⟨hboundary, hemitted⟩ :=
    extend h.boundary h.emitted hm hrest
  rw [← hlines] at hemitted
  have heq : s.applyPoll c result
      = { s with
          watch := ⟨some c.tail, c.tail.offset, s.watch.generation⟩
          out := none
          dirty := s.dirty || !(pollLines result).isEmpty
          emitted := s.emitted ++ pollLines result
          handed := max s.handed m' } := by
    unfold Plugin.applyPoll Watch.checkIn
    have hgen := h.generation c _ hc
    have hread : c.tail.offset - c.tail.partialLine.length - s.start
        = m' := by
      rw [hr.offset]
      omega
    simp [hgen, hread]
  refine ⟨_, m', hpolled, hr, heq, ?_⟩
  rw [heq]
  have hoff := hr.offset_le h.started hm'
  have hoffset := hr.offset
  refine ⟨h.started, Nat.max_le.mpr ⟨h.handed, hm'⟩, hboundary, hemitted,
    ?_, nofun, nofun, nofun, nofun, ⟨?_, hoff⟩, h.saved⟩
  · intro t ht
    obtain rfl := Option.some.inj ht
    exact ⟨m', Nat.le_max_right _ _, hr.offset, hr.held, hr.unfinished,
      hr.identity⟩
  · show s.start ≤ c.tail.offset
    omega

theorem Plugin.step_checkIn {c : TailCheckout}
    (hc : s.out = some (c, some result)) :
    s.step .checkIn = s.applyPoll c result := by
  simp only [Plugin.step, hc]

theorem Inv.checkIn (h : Inv s) : Inv (s.step .checkIn) := by
  unfold Plugin.step
  dsimp only
  split
  · next c result hc =>
    obtain ⟨_, _, -, -, -, hinv⟩ := h.applyPoll hc
    exact hinv
  · exact h

theorem Inv.save (h : Inv s) (succeeds : Bool) :
    Inv (s.step (.save succeeds)) := by
  show Inv (if _ then _ else _)
  split
  · refine { h with saved := ?_ }
    intro o ho
    obtain rfl := Option.some.inj ho
    exact h.offset
  · exact h

/-- A restart resumes at an offset that is not behind the end of the last
complete line that was handed on. -/
def Plugin.resumes (s : Plugin) : Action → Bool
  | .restart _ _ =>
    match s.saved with
    | none => true
    | some offset => offset ≤ s.start + s.handed
  | _ => true

theorem Inv.restart (h : Inv s) (known : Bool) (fault : Fault)
    (hr : s.resumes (.restart known fault) = true) :
    Inv (s.step (.restart known fault)) := by
  unfold Plugin.resumes at hr
  unfold Plugin.step
  cases hs : s.saved with
  | none => exact h
  | some o =>
    rw [hs] at hr
    dsimp only at hr ⊢
    have hle : o ≤ s.start + s.handed := of_decide_eq_true hr
    obtain ⟨hstart, hlen⟩ := h.saved o hs
    refine ⟨h.started, h.handed, h.boundary, h.emitted, ?_, nofun, nofun,
      nofun, nofun, ⟨hstart, hlen⟩, fun o' ho' => h.saved o' (hs.trans ho')⟩
    intro t ht
    obtain rfl := Option.some.inj ht
    have hid : ∀ i, (resumeAt s.file o known fault).identity
        = some i → i = s.file.identity := by
      unfold resumeAt Transcript.fileIdentity
      cases fault <;> cases s.file.content <;> cases known <;> simp
    have hoffset : (resumeAt s.file o known fault).offset = o := by
      unfold resumeAt
      split <;> rfl
    have hheld : (resumeAt s.file o known fault).partialLine
        = [] := by
      unfold resumeAt
      split <;> rfl
    have hm : o - s.start ≤ s.handed := by omega
    refine ⟨o - s.start, hm, ?_, ?_, ?_, hid⟩
    · rw [hoffset, hheld]
      show o = s.start + (o - s.start) + 0
      omega
    · rw [hheld]
      exact nil_prefix
    · rw [hheld]
      rfl

theorem Inv.step (h : Inv s) {a : Action}
    (hr : s.resumes a = true) : Inv (s.step a) := by
  cases a with
  | append bytes => exact h.append bytes
  | checkOut => exact h.checkOut
  | poll known fault => exact h.poll known fault
  | checkIn => exact h.checkIn
  | markDirty => exact { h with }
  | save succeeds => exact h.save succeeds
  | restart known fault => exact h.restart known fault hr

/-- Every restart of a run meets the condition. -/
def Plugin.resumesAll (s : Plugin) : List Action → Bool
  | [] => true
  | a :: actions => s.resumes a && (s.step a).resumesAll actions

theorem Inv.run (h : Inv s) {actions : List Action}
    (hr : s.resumesAll actions = true) : Inv (s.run actions) := by
  induction actions generalizing s with
  | nil => exact h
  | cons a actions ih =>
    unfold Plugin.resumesAll at hr
    rw [Bool.and_eq_true] at hr
    exact ih (h.step hr.1) hr.2

-- ==== delivery

/-- A tail at the end of the file holds back no complete line. -/
theorem Inv.delivered (h : Inv s)
    (ht : s.watch.tail = some t) (hend : t.offset = s.file.bytes.length) :
    s.Delivered := by
  obtain ⟨m, hm, hr⟩ := h.inside t ht
  have hheld : t.partialLine = s.stream.drop m := by
    apply hr.held.eq_of_length
    have := hr.offset
    have hstart := h.started
    have hhanded := h.handed
    unfold Plugin.stream at hhanded ⊢
    rw [length_drop] at hhanded
    rw [length_drop, length_drop]
    omega
  have hlast : Lines.lines newline (s.stream.drop s.handed) = [] := by
    have hun := hr.unfinished
    rw [hheld, ← take_append_drop (s.handed - m) (s.stream.drop m),
      drop_drop, Nat.add_sub_cancel' hm] at hun
    exact Lines.lines_of_append hun
  have hlines : textsOf s.stream = textsOf (s.stream.take s.handed) := by
    conv_lhs => rw [← take_append_drop s.handed s.stream]
    rw [textsOf_append h.boundary]
    simp [textsOf, hlast]
  unfold Plugin.Delivered
  rw [hlines]
  exact h.emitted

/-- A round of the pump that finds the file: the tail that is out comes
back, and the file is read once more. -/
def Plugin.round (s : Plugin) : Plugin :=
  s.run [.poll true .none, .checkIn, .checkOut, .poll true .none, .checkIn]

def Plugin.rounds (s : Plugin) : Nat → Plugin
  | 0 => s
  | k + 1 => s.round.rounds k

/-- How far a poll gets. -/
theorem ReadsFrom.poll_offset (h : Reads s m t) (hle : t.offset ≤ s.file.bytes.length) :
    (t.poll s.file true .none).2.offset
      = min s.file.bytes.length (t.offset + MAX_READ_PER_TICK) := by
  unfold TailState.poll
  rw [if_neg (by simp)]
  cases hc : s.file.content with
  | none => simp [TailState.resync, Transcript.bytes, hc]
  | some bytes =>
    have hbytes : s.file.bytes = bytes := by simp [Transcript.bytes, hc]
    dsimp only
    rw [← hbytes, h.reconcile hle]
    simp only [reduceCtorEq, if_false, splitLines, length_take, length_drop]
    omega

theorem Inv.back_in (h : Inv s) :
    ∃ t, ((s.step (.poll true .none)).step .checkIn).watch.tail = some t := by
  have hpoll := h.poll true .none
  cases hout : s.out with
  | none =>
    cases ht : s.watch.tail with
    | none => exact absurd hout (h.somewhere ht)
    | some t =>
      refine ⟨t, ?_⟩
      simp [Plugin.step, hout, ht]
  | some p =>
    obtain ⟨c, r⟩ := p
    obtain ⟨c', r', hc'⟩ : ∃ c' r',
        (s.step (.poll true .none)).out = some (c', some r') := by
      cases r with
      | none => exact ⟨_, _, by simp only [Plugin.step, hout]; rfl⟩
      | some r => exact ⟨c, r, by simp only [Plugin.step, hout]⟩
    obtain ⟨_, m', -, -, heq, -⟩ := hpoll.applyPoll hc'
    exact ⟨c'.tail, by rw [Plugin.step_checkIn hc', heq]⟩

theorem Inv.read_once (h : Inv s) (ht : s.watch.tail = some t) :
    ∃ t', (((s.step .checkOut).step (.poll true .none)).step
        .checkIn).watch.tail = some t'
      ∧ t'.offset = min s.file.bytes.length (t.offset + MAX_READ_PER_TICK) := by
  obtain ⟨m, hm, hr⟩ := h.inside t ht
  have hle := hr.offset_le h.started (Nat.le_trans hm h.handed)
  refine ⟨(t.poll s.file true .none).2, ?_, hr.poll_offset hle⟩
  simp [Plugin.step, Watch.checkOut, ht, Plugin.applyPoll, Watch.checkIn]

/-- What no action but an append changes. -/
theorem Plugin.round_file (s : Plugin) :
    s.round.file = s.file ∧ s.round.start = s.start := by
  have hpoll : ∀ s : Plugin, (s.step (.poll true .none)).file = s.file
      ∧ (s.step (.poll true .none)).start = s.start := by
    intro s
    simp only [Plugin.step]
    split <;> exact ⟨rfl, rfl⟩
  have hin : ∀ s : Plugin, (s.step .checkIn).file = s.file
      ∧ (s.step .checkIn).start = s.start := by
    intro s
    simp only [Plugin.step]
    split
    · unfold Plugin.applyPoll
      dsimp only
      split <;> exact ⟨rfl, rfl⟩
    · exact ⟨rfl, rfl⟩
  have hout : ∀ s : Plugin, (s.step .checkOut).file = s.file
      ∧ (s.step .checkOut).start = s.start := by
    intro s
    simp only [Plugin.step]
    split <;> exact ⟨rfl, rfl⟩
  simp only [Plugin.round, Plugin.run, foldl_cons, foldl_nil]
  simp only [hpoll, hin, hout, and_self]

theorem Inv.round (h : Inv s) : Inv s.round :=
  ((((h.poll true .none).checkIn).checkOut).poll true .none).checkIn

theorem Inv.round_inside (h : Inv s) (hout : s.out = none)
    (ht : s.watch.tail = some t) :
    ∃ t', s.round.watch.tail = some t' ∧ t'.offset
      = min s.file.bytes.length (t.offset + MAX_READ_PER_TICK) := by
  have hpoll : s.step (.poll true .none) = s := by
    simp only [Plugin.step, hout]
  have hin : s.step .checkIn = s := by simp only [Plugin.step, hout]
  obtain ⟨t', ht', hoff⟩ := h.read_once ht
  refine ⟨t', ?_, hoff⟩
  simp only [Plugin.round, Plugin.run, foldl_cons, foldl_nil]
  rw [hpoll, hin]
  exact ht'

theorem Inv.round_back (h : Inv s) :
    s.round.out = none ∧ ∃ t, s.round.watch.tail = some t := by
  have hmid := (h.poll true .none).checkIn
  obtain ⟨t, ht⟩ := h.back_in
  obtain ⟨t', ht', -⟩ := hmid.read_once ht
  refine ⟨?_, t', ht'⟩
  simp only [Plugin.round, Plugin.run, foldl_cons, foldl_nil]
  generalize (s.step (.poll true .none)).step .checkIn = s₁ at ht
  have hc : ((s₁.step .checkOut).step (.poll true .none)).out
      = some (⟨(t.poll s₁.file true .none).2, s₁.watch.generation⟩,
        some (t.poll s₁.file true .none).1) := by
    simp [Plugin.step, Watch.checkOut, ht]
  rw [Plugin.step_checkIn hc]
  unfold Plugin.applyPoll
  dsimp only
  split <;> rfl

theorem Inv.rounds_end (h : Inv s) (hout : s.out = none)
    (ht : s.watch.tail = some t) (k : Nat)
    (hk : s.file.bytes.length ≤ t.offset + k) :
    Inv (s.rounds k) ∧ (s.rounds k).file = s.file
      ∧ (s.rounds k).start = s.start ∧ ∃ t', (s.rounds k).watch.tail = some t'
        ∧ s.file.bytes.length ≤ t'.offset := by
  induction k generalizing s t with
  | zero => exact ⟨h, rfl, rfl, t, ht, hk⟩
  | succ k ih =>
    obtain ⟨t', ht', hoff⟩ := h.round_inside hout ht
    obtain ⟨hfile, hstart⟩ := s.round_file
    have hk' : s.round.file.bytes.length ≤ t'.offset + k := by
      have : 1 ≤ MAX_READ_PER_TICK := by decide
      rw [hfile, hoff]
      omega
    obtain ⟨hinv, hf, hs, hend⟩ := ih h.round h.round_back.1 ht' hk'
    rw [hfile] at hf hend
    exact ⟨hinv, hf, hs.trans hstart, hend⟩

/-- Enough rounds hand on every complete line that is in the file now. -/
theorem Inv.rounds_deliver (h : Inv s) :
    ∃ k, ∀ j, k ≤ j → (textsOf s.stream).Sublist (s.rounds j).emitted := by
  refine ⟨s.file.bytes.length + 1, fun j hj => ?_⟩
  obtain ⟨j, rfl⟩ : ∃ j', j = j' + 1 := ⟨j - 1, by omega⟩
  obtain ⟨hout, t, ht⟩ := h.round_back
  obtain ⟨hfile, hstart⟩ := s.round_file
  obtain ⟨hinv, hf, hs, t', ht', hend⟩ := h.round.rounds_end hout ht j
    (by rw [hfile]; omega)
  rw [hfile] at hf hend
  have hle : t'.offset ≤ s.file.bytes.length := by
    obtain ⟨m, hm, hr⟩ := hinv.inside t' ht'
    have := hr.offset_le hinv.started (Nat.le_trans hm hinv.handed)
    rwa [hf] at this
  have hdelivered := hinv.delivered ht' (by rw [hf]; omega)
  unfold Plugin.Delivered Plugin.stream at hdelivered
  rw [hf, hs, hstart] at hdelivered
  exact hdelivered

-- ==== the claim

/-- Nothing is lost: a tail that read all of the file handed on every
complete line, in file order, and enough rounds of the pump bring it
there. -/
def Plugin.LosesNothing (s : Plugin) : Prop :=
  (∀ t, s.watch.tail = some t → t.offset = s.file.bytes.length →
      s.Delivered)
    ∧ ∃ k, ∀ j, k ≤ j → (textsOf s.stream).Sublist (s.rounds j).emitted

/-- Where no restart resumes inside a line that was not handed on, no
record is lost: from any start of a watch, after any appends, polls,
check-outs, check-ins, snapshots and restarts. -/
theorem restart_loses_nothing (file : Transcript) (fromStart known : Bool)
    (fault : Fault) (generation : Nat) (actions : List Action)
    (h : (Plugin.watching file fromStart known fault generation).resumesAll
      actions = true) :
    ((Plugin.watching file fromStart known fault generation).run
      actions).LosesNothing := by
  have hinv := (inv_watching file fromStart known fault generation).run h
  exact ⟨fun t ht hend => hinv.delivered ht hend, hinv.rounds_deliver⟩

/-- An empty transcript. -/
def empty : Transcript := ⟨some [], 1⟩

/-- A line, then a snapshot with nothing held back, a restart, and another
line. -/
def betweenLines : List Action :=
  [.append [120, newline], .checkOut, .poll true .none, .checkIn,
    .save true, .restart true .none, .append [97, newline]]

theorem restart_between_lines :
    ((Plugin.watching empty true true .none 1).run
      betweenLines).LosesNothing :=
  restart_loses_nothing empty true true .none 1 betweenLines (by decide)

/-- A line and a piece of the next one, then a snapshot while the piece is
held back, a restart, and the rest of the line. -/
def insideLine : List Action :=
  [.append [120, newline, 97], .checkOut, .poll true .none, .checkIn,
    .save true, .restart true .none, .append [98, newline], .checkOut,
    .poll true .none, .checkIn]

/-- The line that the restart cuts is never handed on: only its end is. -/
theorem restart_inside_line : ¬ ∀ file fromStart known fault generation
    actions, ((Plugin.watching file fromStart known fault generation).run
      actions).LosesNothing := by
  intro h
  have hlost := (h empty true true .none 1 insideLine).1 _ rfl (by decide)
  have : ¬ ([['x'], ['a', 'b']] : List Text).Sublist [['x'], ['b']] := by
    decide
  exact this hlost

end Tasty.AgentStream
