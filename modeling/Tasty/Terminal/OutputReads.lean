/-
A consumer of the raw output of a terminal that always goes on at the next
position of its last read, in any interleaving with the terminal, the
marks and the renewals of the stream: what it gets, what it is told it
missed, and when a token keeps it from reading on.
-/
import Tasty.Terminal.OutputBuffer
import Mathlib.Data.List.Chain
import Mathlib.Data.List.Nodup

namespace Tasty.Terminal

open List hiding getElem?_eq_some_iff

-- ==== the world

/-- A read that was answered, with the position it asked for and how often
the stream had been renewed. -/
structure Taken where
  request : OutputReadRequest
  requested : Nat
  read : OutputRead
  renewals : Nat

/-- The buffer and one consumer. All that was appended and all tokens the
stream has had are kept for the statements. -/
structure OutputWorld where
  output : OutputBuffer
  /-- The count of the tokens of the process. -/
  nextSeq : Nat
  /-- Where the consumer goes on. -/
  cursor : OutputCursor
  log : List Taken
  /-- What the scans have got. -/
  scans : List String
  appended : List UInt8
  tokens : List String

inductive OutputAct where
  | append (data : List UInt8)
  | setMark
  | takeSinceScanMark (stripAnsi : Bool)
  | renewStream (nanos : Nat)
  /-- Another buffer gets a token. -/
  | otherStream
  /-- The consumer reads on. -/
  | read (maxBytes : Nat) (stripAnsi : Bool) (expectStream : Option String)

def OutputAct.isSetMark : OutputAct → Bool
  | setMark => true
  | _ => false

def OutputAct.isScan : OutputAct → Bool
  | takeSinceScanMark _ => true
  | _ => false

namespace OutputWorld

def start (nanos seq : Nat) (cursor : OutputCursor) : OutputWorld where
  output := .new (mintStreamId nanos seq)
  nextSeq := seq + 1
  cursor := cursor
  log := []
  scans := []
  appended := []
  tokens := [mintStreamId nanos seq]

section Steps

variable [AnsiText]

def readOn (w : OutputWorld) (maxBytes : Nat) (stripAnsi : Bool)
    (expectStream : Option String) : OutputWorld :=
  let request : OutputReadRequest :=
    { start := w.cursor, maxBytes, stripAnsi, expectStream }
  match w.output.read request with
  | .ok read =>
    let taken : Taken :=
      { request, requested := w.output.requested w.cursor, read
        renewals := w.tokens.length - 1 }
    { w with
      cursor := .position read.nextCursor
      log := w.log ++ [taken] }
  | .error _ => w

def step (w : OutputWorld) : OutputAct → OutputWorld
  | .append data =>
    { w with
      output := w.output.append data
      appended := w.appended ++ data }
  | .setMark => { w with output := w.output.setMark }
  | .takeSinceScanMark stripAnsi =>
    let (text, output) := w.output.takeSinceScanMark stripAnsi
    { w with output, scans := w.scans ++ [text] }
  | .renewStream nanos =>
    let token := mintStreamId nanos w.nextSeq
    { w with
      output := w.output.renewStream token
      nextSeq := w.nextSeq + 1
      tokens := w.tokens ++ [token] }
  | .otherStream => { w with nextSeq := w.nextSeq + 1 }
  | .read maxBytes stripAnsi expectStream =>
    w.readOn maxBytes stripAnsi expectStream

def run (w : OutputWorld) (acts : List OutputAct) : OutputWorld :=
  acts.foldl step w

end Steps

end OutputWorld

-- ==== the invariant

/-- The tokens of two streams of one process differ. -/
theorem mintStreamId_inj {nanos seq nanos' seq' : Nat}
    (h : mintStreamId nanos seq = mintStreamId nanos' seq') : seq = seq' := by
  have hdash : ∀ n, '-' ∉ Nat.toDigits 16 n := by
    intro n hmem
    obtain ⟨d, hd, hc⟩ := mem_toDigits (by decide) hmem
    have hnone : ∀ d < 16, '-' ≠ Nat.digitChar d := by decide
    exact hnone d hd hc
  have htext := String.ofList_injective h
  exact toDigits_inj (by decide) (Nat.le_refl 16)
    (append_cons_inj (hdash _) (hdash _) htext).2

/-- A read goes on where the one before it ended. -/
def GoesOn (e e' : Taken) : Prop := e'.requested = e.read.nextCursor

namespace OutputWorld

/-- What holds in every state that is reached. -/
structure Inv [AnsiText] (w : OutputWorld) : Prop where
  retains : w.output.Retains w.appended
  answers : ∀ e ∈ w.log, Answers w.appended e.request e.requested e.read
  chain : w.log.IsChain GoesOn
  cursor : ∀ e, w.log.getLast? = some e →
    w.cursor = .position e.read.nextCursor
  minted : ∀ token ∈ w.tokens, ∃ nanos seq, seq < w.nextSeq
    ∧ token = mintStreamId nanos seq
  nodup : w.tokens.Nodup
  current : w.tokens.getLast? = some w.output.stream
  streams : ∀ e ∈ w.log, w.tokens[e.renewals]? = some e.read.stream

section Invariant

variable [AnsiText] {w : OutputWorld}

theorem inv_start (nanos seq : Nat) (cursor : OutputCursor) :
    (start nanos seq cursor).Inv where
  retains := OutputBuffer.retains_new _
  answers := nofun
  chain := .nil
  cursor := fun _ h => by cases h
  minted := fun token h =>
    ⟨nanos, seq, Nat.lt_succ_self seq, mem_singleton.1 h⟩
  nodup := nodup_singleton _
  current := rfl
  streams := nofun

/-- The position of the current token is the number of renewals. -/
theorem Inv.getElem?_renewals (h : w.Inv) :
    w.tokens[w.tokens.length - 1]? = some w.output.stream := by
  rw [← getLast?_eq_getElem?]
  exact h.current

theorem Inv.readOn (h : w.Inv) (maxBytes : Nat) (stripAnsi : Bool)
    (expectStream : Option String) :
    (w.readOn maxBytes stripAnsi expectStream).Inv := by
  unfold OutputWorld.readOn
  dsimp only
  split
  · rename_i read hread
    obtain ⟨hanswers, -, hstream⟩ := h.retains.read hread
    refine { h with answers := ?_, chain := ?_, cursor := ?_, streams := ?_ }
    · exact forall_mem_append.2
        ⟨h.answers, forall_mem_singleton.2 hanswers⟩
    · refine isChain_append.2 ⟨h.chain, .singleton _, ?_⟩
      intro e he e' he'
      cases he'
      unfold GoesOn
      dsimp only
      rw [h.cursor e he]
      rfl
    · intro e he
      rw [getLast?_concat] at he
      cases he
      rfl
    · refine forall_mem_append.2
        ⟨h.streams, forall_mem_singleton.2 ?_⟩
      dsimp only
      rw [hstream]
      exact h.getElem?_renewals
  · exact h

theorem Inv.step (h : w.Inv) (a : OutputAct) : (w.step a).Inv := by
  cases a with
  | append data =>
    exact { h with
      retains := h.retains.append data
      answers := fun e he => (h.answers e he).append data
      current := by
        rw [show (w.step (.append data)).output.stream = w.output.stream
          from OutputBuffer.append_stream ..]
        exact h.current }
  | setMark => exact { h with retains := h.retains.setMark }
  | takeSinceScanMark stripAnsi =>
    exact { h with retains := h.retains.takeSinceScanMark stripAnsi }
  | renewStream nanos =>
    refine { h with
      retains := h.retains.renewStream _
      minted := ?_, nodup := ?_, current := ?_, streams := ?_ }
    · refine forall_mem_append.2 ⟨fun token ht => ?_,
        forall_mem_singleton.2 ⟨nanos, _, Nat.lt_succ_self _, rfl⟩⟩
      obtain ⟨nanos', seq, hseq, htoken⟩ := h.minted token ht
      exact ⟨nanos', seq, Nat.lt_succ_of_lt hseq, htoken⟩
    · refine nodup_append.2
        ⟨h.nodup, nodup_singleton _, fun token ht token' ht' heq => ?_⟩
      obtain ⟨nanos', seq, hseq, htoken⟩ := h.minted token ht
      rw [htoken, mem_singleton.1 ht'] at heq
      exact Nat.ne_of_lt hseq (mintStreamId_inj heq)
    · exact getLast?_concat
    · intro e he
      have hold := h.streams e he
      show (w.tokens ++ [_])[e.renewals]? = _
      rw [getElem?_append_left (getElem?_eq_some_iff.1 hold).1]
      exact hold
  | otherStream =>
    refine { h with minted := fun token ht => ?_ }
    obtain ⟨nanos, seq, hseq, htoken⟩ := h.minted token ht
    exact ⟨nanos, seq, Nat.lt_succ_of_lt hseq, htoken⟩
  | read maxBytes stripAnsi expectStream =>
    exact h.readOn maxBytes stripAnsi expectStream

theorem Inv.run (h : w.Inv) (acts : List OutputAct) : (w.run acts).Inv := by
  induction acts generalizing w with
  | nil => exact h
  | cons a acts ih => exact ih (h.step a)

end Invariant

end OutputWorld

-- ==== what the consumer gets

/-- The bytes from one position to another. -/
def between (appended : List UInt8) (p q : Nat) : List UInt8 :=
  (appended.drop p).take (q - p)

theorem between_append {appended : List UInt8} {p q r : Nat} (hpq : p ≤ q)
    (hqr : q ≤ r) :
    between appended p q ++ between appended q r = between appended p r := by
  unfold between
  rw [show r - p = (q - p) + (r - q) by omega, take_add,
    drop_drop, Nat.add_sub_cancel' hpq]

theorem take_append_between {appended : List UInt8} {p q : Nat} (hpq : p ≤ q) :
    appended.take p ++ between appended p q = appended.take q := by
  have h := @between_append appended _ _ _ (Nat.zero_le p) hpq
  simpa [between] using h

/-- The bytes that a read returns. -/
def Taken.bytes (appended : List UInt8) (e : Taken) : List UInt8 :=
  between appended e.read.cursor e.read.nextCursor

/-- The bytes that a read reports as skipped. -/
def Taken.gap (appended : List UInt8) (e : Taken) : List UInt8 :=
  (appended.drop e.requested).take e.read.skipped

section Got

variable [AnsiText] {appended : List UInt8} {e : Taken}

variable (h : Answers appended e.request e.requested e.read)

include h

theorem Answers.cursor_le_next : e.read.cursor ≤ e.read.nextCursor := by
  rw [h.next]
  exact Nat.le_add_right _ _

theorem Answers.requested_le_next : e.requested ≤ e.read.nextCursor := by
  have := h.skipped
  have := h.cursor_le_next
  omega

theorem Answers.bytes_eq
    :
    e.bytes appended = (appended.drop e.read.cursor).take e.read.rawBytes := by
  unfold Taken.bytes between
  rw [h.next, Nat.add_sub_cancel_left]

theorem Answers.gap_append_bytes
    :
    e.gap appended ++ e.bytes appended
      = between appended e.requested e.read.nextCursor := by
  have hskipped := h.skipped
  have hgap : e.gap appended
      = between appended e.requested e.read.cursor := by
    unfold Taken.gap between
    rw [hskipped, Nat.add_sub_cancel_left]
  rw [hgap]
  exact between_append (by omega) h.cursor_le_next

omit h

variable {log : List Taken}

theorem flatMap_gap_bytes
    (hanswers : ∀ e ∈ log, Answers appended e.request e.requested e.read)
    (hchain : log.IsChain GoesOn) {first last : Taken}
    (hfirst : log.head? = some first) (hlast : log.getLast? = some last) :
    first.requested ≤ last.read.nextCursor
      ∧ log.flatMap (fun e => e.gap appended ++ e.bytes appended)
        = between appended first.requested last.read.nextCursor := by
  induction log generalizing first with
  | nil => cases hfirst
  | cons e log ih =>
    cases hfirst
    obtain ⟨he, hanswers⟩ := forall_mem_cons.1 hanswers
    cases log with
    | nil =>
      cases hlast
      refine ⟨he.requested_le_next, ?_⟩
      rw [flatMap_cons, flatMap_nil, append_nil]
      exact he.gap_append_bytes
    | cons e' log =>
      obtain ⟨hgoes, hchain⟩ := isChain_cons_cons.1 hchain
      rw [getLast?_cons_cons] at hlast
      obtain ⟨hle, heq⟩ := ih hanswers hchain rfl hlast
      rw [hgoes] at hle heq
      refine ⟨he.requested_le_next.trans hle, ?_⟩
      rw [flatMap_cons, he.gap_append_bytes, heq]
      exact between_append he.requested_le_next hle

-- ==== its text

/-- What makes a read whole text: no escape sequences are taken out, there
is room for a character, and where it ends with the stream so far, a
character ends. -/
structure Taken.ReadsText (appended : List UInt8) (e : Taken) : Prop where
  kept : e.request.stripAnsi = false
  room : 4 ≤ e.request.maxBytes
  complete : e.read.nextCursor = e.read.retentionEnd →
    IsText (appended.take e.read.nextCursor)

theorem Answers.isText {chars : List Char}
    (h : Answers appended e.request e.requested e.read)
    (hreads : e.ReadsText appended)
    (hstream : appended <+: chars.flatMap String.utf8EncodeChar)
    (hstart : IsText (appended.take e.read.cursor)) :
    Utf8.bytes e.read.text = e.bytes appended
      ∧ IsText (appended.take e.read.nextCursor) := by
  have hin := h.inside
  have hbefore := h.appended_before
  have hnext := h.next_le
  have hle := h.cursor_le_next
  have hvisible : between appended e.read.cursor e.read.retentionEnd
      = (appended.take e.read.retentionEnd).drop e.read.cursor := by
    unfold between
    rw [drop_take]
  have hsplit : appended.take e.read.cursor
      ++ between appended e.read.cursor e.read.retentionEnd
      <+: chars.flatMap String.utf8EncodeChar := by
    rw [take_append_between hin]
    exact (List.take_prefix _ _).trans hstream
  obtain ⟨after, hafter, -⟩ := hstart.exists_rest hsplit
  rw [hvisible] at hafter
  have hmax : 4 ≤ OutputBuffer.clampBytes e.request.maxBytes := by
    unfold OutputBuffer.clampBytes
    have hcap : 4 ≤ outputRetentionMaxBytes := by decide
    have := hreads.room
    omega
  have hcut := take_cutBeforeSplitChar hmax hafter fun hall => by
    -- the read ends with the stream so far
    have hraw := h.rawBytes
    rw [cutBeforeSplitChar_eq_length.2 hall, length_drop, length_take] at hraw
    have hends : e.read.nextCursor = e.read.retentionEnd := by
      rw [h.next]
      omega
    have hwhole := hreads.complete hends
    rw [hends, ← take_append_between hin] at hwhole
    rw [← hvisible]
    exact hstart.of_append hwhole
  rw [← h.rawBytes] at hcut
  have hbytes : e.bytes appended
      = ((appended.take e.read.retentionEnd).drop e.read.cursor).take
        e.read.rawBytes := by
    rw [h.bytes_eq, drop_take, take_take, Nat.min_eq_left]
    have := h.next
    omega
  rw [← hbytes] at hcut
  obtain ⟨t, ht⟩ := hcut
  refine ⟨?_, ?_⟩
  · rw [h.text, hreads.kept, ← h.bytes_eq, ← ht]
    show Utf8.bytes (Utf8.fromLossy (Utf8.bytes t)) = _
    rw [Utf8.fromLossy_bytes]
  · rw [← take_append_between hle]
    exact hstart.append ⟨t, ht⟩

theorem bytes_texts {chars : List Char}
    (hanswers : ∀ e ∈ log, Answers appended e.request e.requested e.read)
    (hchain : log.IsChain GoesOn)
    (hreads : ∀ e ∈ log, e.ReadsText appended ∧ e.read.skipped = 0)
    (hstream : appended <+: chars.flatMap String.utf8EncodeChar)
    {first last : Taken} (hfirst : log.head? = some first)
    (hstart : IsText (appended.take first.requested))
    (hlast : log.getLast? = some last) :
    first.requested ≤ last.read.nextCursor
      ∧ Utf8.bytes (String.join (log.map fun e => e.read.text))
        = between appended first.requested last.read.nextCursor := by
  induction log generalizing first with
  | nil => cases hfirst
  | cons e log ih =>
    cases hfirst
    obtain ⟨he, hanswers⟩ := forall_mem_cons.1 hanswers
    obtain ⟨⟨hread, hskip⟩, hreads⟩ := forall_mem_cons.1 hreads
    have hcursor : e.read.cursor = e.requested := by
      rw [he.skipped, hskip, Nat.add_zero]
    rw [← hcursor] at hstart ⊢
    obtain ⟨htext, hends⟩ := he.isText hread hstream hstart
    rw [map_cons, String.join_cons, Utf8.bytes_append, htext]
    cases log with
    | nil =>
      cases hlast
      refine ⟨he.cursor_le_next, ?_⟩
      exact append_nil _
    | cons e' log =>
      obtain ⟨hgoes, hchain⟩ := isChain_cons_cons.1 hchain
      rw [getLast?_cons_cons] at hlast
      obtain ⟨hle, heq⟩ := ih hanswers hchain hreads rfl
        (by rw [hgoes]; exact hends) hlast
      rw [hgoes] at hle heq
      refine ⟨he.cursor_le_next.trans hle, ?_⟩
      rw [heq]
      exact between_append he.cursor_le_next hle

end Got

-- ==== the marks

namespace OutputWorld

variable [AnsiText]

/-- Acts that a relation does not see may be left out of a run. -/
theorem run_filter {R : OutputWorld → OutputWorld → Prop}
    {keep : OutputAct → Bool}
    (hkeep : ∀ w w' a, keep a = true → R w w' → R (w.step a) (w'.step a))
    (hskip : ∀ w w' a, keep a = false → R w w' → R (w.step a) w')
    {w w' : OutputWorld} (h : R w w') (acts : List OutputAct) :
    R (w.run acts) (w'.run (acts.filter keep)) := by
  induction acts generalizing w w' with
  | nil => exact h
  | cons a acts ih =>
    cases ha : keep a with
    | true =>
      rw [filter_cons_of_pos ha]
      exact ih (hkeep w w' a ha h)
    | false =>
      rw [filter_cons_of_neg (by simp [ha])]
      exact ih (hskip w w' a ha h)

theorem readOn_output (w : OutputWorld) (maxBytes : Nat) (stripAnsi : Bool)
    (expectStream : Option String) :
    (w.readOn maxBytes stripAnsi expectStream).output = w.output
      ∧ (w.readOn maxBytes stripAnsi expectStream).scans = w.scans := by
  unfold readOn
  dsimp only
  split <;> exact ⟨rfl, rfl⟩

/-- The same for the scans: only the read mark and the token may
differ. -/
def SameForScans (w w' : OutputWorld) : Prop :=
  ∃ readMark stream, w'.output = { w.output with readMark, stream }
    ∧ w'.scans = w.scans

theorem SameForScans.step {w w' : OutputWorld} (h : SameForScans w w')
    (a : OutputAct) : SameForScans (w.step a) (w'.step a) := by
  obtain ⟨readMark, stream, houtput, hscans⟩ := h
  cases a with
  | append data =>
    refine ⟨readMark, stream, ?_, hscans⟩
    show w'.output.append data = _
    rw [houtput]
    show OutputBuffer.append _ data
      = { w.output.append data with readMark, stream }
    unfold OutputBuffer.append
    dsimp only
    by_cases hlong : outputRetentionMaxBytes
        < (w.output.buffer ++ data).length
    · rw [if_pos hlong, if_pos hlong]
    · rw [if_neg hlong, if_neg hlong]
  | setMark =>
    refine ⟨w'.output.setMark.readMark, stream, ?_, hscans⟩
    show w'.output.setMark = _
    rw [houtput]
    rfl
  | takeSinceScanMark stripAnsi =>
    refine ⟨readMark, stream, ?_, ?_⟩
    · show (w'.output.takeSinceScanMark stripAnsi).2 = _
      rw [houtput]
      rfl
    · show w'.scans ++ [(w'.output.takeSinceScanMark stripAnsi).1] = _
      rw [houtput, hscans]
      rfl
  | renewStream nanos =>
    refine ⟨readMark, mintStreamId nanos w'.nextSeq, ?_, hscans⟩
    show w'.output.renewStream _ = _
    rw [houtput]
    rfl
  | otherStream => exact ⟨readMark, stream, houtput, hscans⟩
  | read maxBytes stripAnsi expectStream =>
    obtain ⟨ho, hs⟩ := w.readOn_output maxBytes stripAnsi expectStream
    obtain ⟨ho', hs'⟩ := w'.readOn_output maxBytes stripAnsi expectStream
    refine ⟨readMark, stream, ?_, ?_⟩
    · show (w'.readOn _ _ _).output
        = { (w.readOn maxBytes stripAnsi expectStream).output with
          readMark, stream }
      rw [ho, ho', houtput]
    · show (w'.readOn _ _ _).scans = (w.readOn _ _ _).scans
      rw [hs, hs', hscans]

theorem scans_filter_setMark (w : OutputWorld) (acts : List OutputAct) :
    (w.run (acts.filter fun a => !a.isSetMark)).scans
      = (w.run acts).scans := by
  have hskip : ∀ v v' a, (!OutputAct.isSetMark a) = false →
      SameForScans v v' → SameForScans (v.step a) v' := by
    intro v v' a ha h
    obtain ⟨readMark, stream, houtput, hscans⟩ := h
    cases a with
    | setMark => exact ⟨readMark, stream, houtput, hscans⟩
    | _ => cases ha
  have hsame : SameForScans w w := ⟨_, _, rfl, rfl⟩
  obtain ⟨-, -, -, h⟩ := run_filter (fun _ _ a _ h => SameForScans.step h a)
    hskip hsame acts
  exact h

/-- The same for the consumer: only the scan mark and the scans may
differ. -/
def SameForReads (w w' : OutputWorld) : Prop :=
  ∃ scanMark scans,
    w' = { w with output := { w.output with scanMark }, scans }

theorem SameForReads.step {w w' : OutputWorld} (h : SameForReads w w')
    {a : OutputAct} (ha : (!a.isScan) = true) :
    SameForReads (w.step a) (w'.step a) := by
  obtain ⟨scanMark, scans, rfl⟩ := h
  refine ⟨scanMark, scans, ?_⟩
  cases a with
  | append data =>
    unfold OutputWorld.step OutputBuffer.append
    dsimp only
    by_cases hlong : outputRetentionMaxBytes
        < (w.output.buffer ++ data).length
    · rw [if_pos hlong, if_pos hlong]
    · rw [if_neg hlong, if_neg hlong]
  | setMark => rfl
  | takeSinceScanMark stripAnsi => cases ha
  | renewStream nanos => rfl
  | otherStream => rfl
  | read maxBytes stripAnsi expectStream =>
    show OutputWorld.readOn _ _ _ _
      = { w.readOn maxBytes stripAnsi expectStream with
        output := { (w.readOn maxBytes stripAnsi expectStream).output with
          scanMark }
        scans }
    have hread : ∀ req,
        ({ w.output with scanMark } : OutputBuffer).read req
          = w.output.read req := fun _ => rfl
    unfold OutputWorld.readOn
    dsimp only
    rw [hread]
    split <;> rfl

/-- Scans change nothing for the consumer. -/
theorem log_filter_scan (w : OutputWorld) (acts : List OutputAct) :
    (w.run (acts.filter fun a => !a.isScan)).log = (w.run acts).log := by
  have hskip : ∀ v v' a, (!OutputAct.isScan a) = false →
      SameForReads v v' → SameForReads (v.step a) v' := by
    intro v v' a ha h
    obtain ⟨scanMark, scans, rfl⟩ := h
    cases a with
    | takeSinceScanMark stripAnsi => exact ⟨scanMark, scans, rfl⟩
    | _ => cases ha
  have hsame : SameForReads w w := ⟨_, _, rfl⟩
  obtain ⟨_, _, h⟩ := run_filter (fun _ _ _ ha h => SameForReads.step h ha)
    hskip hsame acts
  rw [h]

-- ==== the tokens

/-- How often the stream has been renewed. -/
def renewals (w : OutputWorld) : Nat := w.tokens.length - 1

section Tokens

variable {w : OutputWorld} {e e' : Taken}

/-- A read that carries the token of another one has the same stream. -/
theorem Inv.renewals_eq (h : w.Inv) (he : e ∈ w.log) (he' : e' ∈ w.log)
    (htoken : e'.request.expectStream = some e.read.stream) :
    e'.renewals = e.renewals := by
  have hstream := (h.answers e' he').stream _ htoken
  have hget := h.streams e he
  have hget' := h.streams e' he'
  rw [hstream, ← hget] at hget'
  have hlt := (getElem?_eq_some_iff.1 (hget'.trans hget)).1
  exact (getElem?_inj hlt h.nodup).1 hget'

/-- Once the stream is renewed, the token of an earlier read is
refused. -/
theorem Inv.read_renewed (h : w.Inv) (he : e ∈ w.log)
    (hrenewed : e.renewals ≠ w.renewals) {req : OutputReadRequest}
    (htoken : req.expectStream = some e.read.stream) :
    w.output.read req
      = .error (.streamMismatch e.read.stream w.output.stream) := by
  have hne : e.read.stream ≠ w.output.stream := by
    intro heq
    have hget := h.streams e he
    rw [heq, ← h.getElem?_renewals] at hget
    have hlt := (getElem?_eq_some_iff.1 (hget.trans h.getElem?_renewals)).1
    exact hrenewed ((getElem?_inj hlt h.nodup).1 hget)
  unfold OutputBuffer.read
  rw [htoken, Option.filter_some, if_pos (by simpa using hne)]

theorem Inv.goes_on (h : w.Inv) (hlast : w.log.getLast? = some e)
    (maxBytes : Nat) (stripAnsi : Bool) {expectStream : Option String}
    (htoken : ∀ token, expectStream = some token → token = w.output.stream) :
    ∃ r, w.output.read ⟨w.cursor, maxBytes, stripAnsi, expectStream⟩ = .ok r
      ∧ (e.read.nextCursor < w.appended.length →
        e.read.nextCursor < r.nextCursor) := by
  have hmem := mem_of_getLast? hlast
  have hnext := (h.answers e hmem).next_le
  have hbefore := (h.answers e hmem).appended_before
  have hfilter : expectStream.filter (· ≠ w.output.stream) = none := by
    rw [Option.filter_eq_none_iff]
    intro token ht
    simpa using htoken token ht
  rw [h.cursor e hlast]
  obtain ⟨r, hr⟩ : ∃ r, w.output.read ⟨.position e.read.nextCursor, maxBytes,
      stripAnsi, expectStream⟩ = .ok r := by
    unfold OutputBuffer.read
    dsimp only
    rw [hfilter]
    dsimp only
    rw [if_neg]
    · exact ⟨_, rfl⟩
    · rw [h.retains.last_eq]
      show ¬ w.appended.length < e.read.nextCursor
      omega
  refine ⟨r, hr, fun hunread => ?_⟩
  obtain ⟨hanswers, hend, -⟩ := h.retains.read hr
  have hskipped : r.cursor = e.read.nextCursor + r.skipped :=
    hanswers.skipped
  have hpos := hanswers.progress (by rw [hend]; exact hunread)
  have hadvance := hanswers.next
  omega

end Tokens

end OutputWorld

-- ==== the runs

/-- In every run, a consumer that always goes on at the next position of
its last read gets and is reported as skipped all that was appended, in
order and each byte once; it is answered, and gets on where there is
something unread. It shares its reads with those of other renewals only
if it does not carry a token: a token is refused once the stream is
renewed. Neither mark changes what is read by the other. Where each read
that ends with the stream so far ends with a character, the texts of
unskipped reads of four bytes and more are the text of the stream. -/
theorem outputReads_exact [AnsiText] (nanos seq : Nat)
    (cursor : OutputCursor) (acts : List OutputAct) :
    let w := (OutputWorld.start nanos seq cursor).run acts
    w.log.IsChain GoesOn
    ∧ (∀ e ∈ w.log,
      e.read.cursor = e.requested + e.read.skipped
      ∧ e.read.nextCursor = e.read.cursor + e.read.rawBytes
      ∧ e.read.text
        = outputText e.request.stripAnsi (e.bytes w.appended)
      ∧ (e.requested < e.read.retentionEnd → 0 < e.read.rawBytes))
    ∧ (∀ first last, w.log.head? = some first →
      w.log.getLast? = some last →
      w.log.flatMap (fun e => e.gap w.appended ++ e.bytes w.appended)
        = between w.appended first.requested last.read.nextCursor)
    ∧ (∀ last, w.log.getLast? = some last → ∀ maxBytes stripAnsi
      expectStream, (∀ token, expectStream = some token →
        token = w.output.stream) →
      ∃ r, w.output.read ⟨w.cursor, maxBytes, stripAnsi, expectStream⟩
          = .ok r
        ∧ (last.read.nextCursor < w.appended.length →
          last.read.nextCursor < r.nextCursor))
    ∧ (∀ e ∈ w.log, ∀ e' ∈ w.log,
      e'.request.expectStream = some e.read.stream →
      e'.renewals = e.renewals)
    ∧ (∀ e ∈ w.log, e.renewals ≠ w.renewals → ∀ req : OutputReadRequest,
      req.expectStream = some e.read.stream →
      w.output.read req
        = .error (.streamMismatch e.read.stream w.output.stream))
    ∧ ((OutputWorld.start nanos seq cursor).run
        (acts.filter fun a => !a.isSetMark)).scans = w.scans
    ∧ ((OutputWorld.start nanos seq cursor).run
        (acts.filter fun a => !a.isScan)).log = w.log
    ∧ (∀ s : String, w.appended <+: Utf8.bytes s →
      (∀ e ∈ w.log, e.ReadsText w.appended ∧ e.read.skipped = 0) →
      ∀ first last, w.log.head? = some first →
      IsText (w.appended.take first.requested) →
      w.log.getLast? = some last →
      Utf8.bytes (String.join (w.log.map fun e => e.read.text))
        = between w.appended first.requested last.read.nextCursor) := by
  intro w
  have h : w.Inv := (OutputWorld.inv_start nanos seq cursor).run acts
  refine ⟨h.chain, fun e he => ?_, fun first last hfirst hlast => ?_,
    fun last hlast maxBytes stripAnsi _ htoken =>
      h.goes_on hlast maxBytes stripAnsi htoken,
    fun e he e' he' => h.renewals_eq he he',
    fun e he hrenewed req => h.read_renewed he hrenewed,
    OutputWorld.scans_filter_setMark _ acts,
    OutputWorld.log_filter_scan _ acts, ?_⟩
  · have hanswers := h.answers e he
    refine ⟨hanswers.skipped, hanswers.next, ?_, hanswers.progress⟩
    rw [hanswers.bytes_eq]
    exact hanswers.text
  · exact (flatMap_gap_bytes h.answers h.chain hfirst hlast).2
  · intro s hstream hreads first last hfirst hstart hlast
    rw [Utf8.bytes_eq] at hstream
    exact (bytes_texts h.answers h.chain hreads hstream hfirst hstart
      hlast).2

/-- A consumer without a token reads on over a renewal, and one that
reads to the end of half a character gets no character. -/
theorem not_outputReads_exact :
    letI : AnsiText := ⟨id⟩
    let renewed := (OutputWorld.start 0 0 (.position 0)).run
      [.append [0x61], .read 8 false none, .append [0x62],
        .renewStream 0, .read 8 false none]
    let split := (OutputWorld.start 0 0 (.position 0)).run
      [.append [0xC3], .read 8 false none, .append [0xA9],
        .read 8 false none]
    (renewed.log.map fun e => (e.renewals, e.read.text))
        = [(0, "a"), (1, "b")]
      ∧ split.appended = Utf8.bytes "é"
      ∧ String.join (split.log.map fun e => e.read.text) ≠ "é" := by
  decide +kernel

end Tasty.Terminal
