/-
The text of the frames that the server writes (`crates/
tasty-plugin-agent-stream/src/sse/frame.rs`), read by the rules of
server-sent events: whatever the data hold, one frame is one event.

The proof goes over lines. A frame is a few lines without breaks in them,
each ended by a line feed; the reader cuts it there again, and each line is
one field.
-/
import Mathlib.Data.List.Basic
import Mathlib.Tactic.Cases

namespace Tasty.AgentStream.Sse

open List

-- ==== what is written

/-- The lines of a text, the first of them begun with `line`. -/
def splitFrom (line : List Char) : List Char → List (List Char)
  | [] => [line]
  | '\n' :: rest => line :: splitFrom [] rest
  | '\r' :: '\n' :: rest => line :: splitFrom [] rest
  | '\r' :: rest => line :: splitFrom [] rest
  | c :: rest => splitFrom (line ++ [c]) rest

def splitLines (data : String) : List (List Char) :=
  splitFrom [] data.toList

/-- The field of one line of the data, without its end. -/
def dataLine (line : List Char) : List Char :=
  "data:".toList ++ if line.isEmpty then [] else ' ' :: line

def encode (id : Nat) (event data : String) : String :=
  "id: " ++ toString id ++ "\n" ++ "event: " ++ event ++ "\n"
    ++ String.ofList ((splitLines data).flatMap (dataLine · ++ ['\n']))
    ++ "\n"

-- ==== how it is read

/-- The lines of a stream that have ended. -/
def linesFrom (line : List Char) : List Char → List (List Char)
  | [] => []
  | '\r' :: '\n' :: rest => line :: linesFrom [] rest
  | c :: rest =>
    if c = '\r' ∨ c = '\n' then line :: linesFrom [] rest
    else linesFrom (line ++ [c]) rest

structure Buffers where
  data : List Char
  event : List Char
  lastEventId : List Char

structure Dispatched where
  lastEventId : List Char
  type : List Char
  data : List Char

def field (name value : List Char) (b : Buffers) : Buffers :=
  if name = "event".toList then { b with event := value }
  else if name = "data".toList then
    { b with data := b.data ++ value ++ ['\n'] }
  else if name = "id".toList ∧ '\x00' ∉ value then
    { b with lastEventId := value }
  else b

/-- One line that is not blank. -/
def processLine (b : Buffers) (line : List Char) : Buffers :=
  let value := (line.dropWhile (· != ':')).drop 1
  if line.head? = some ':' then b
  else field (line.takeWhile (· != ':'))
    (if value.head? = some ' ' then value.drop 1 else value) b

/-- What a blank line sends off. -/
def dispatch (b : Buffers) : List Dispatched :=
  if b.data = [] then []
  else [{ lastEventId := b.lastEventId
          type := if b.event = [] then "message".toList else b.event
          data := if b.data.getLast? = some '\n' then b.data.dropLast
            else b.data }]

def interpret (b : Buffers) : List (List Char) → List Dispatched
  | [] => []
  | [] :: lines =>
    dispatch b ++ interpret { b with data := [], event := [] } lines
  | line :: lines => interpret (processLine b line) lines

/-- The events of a whole stream. -/
def parse (stream : String) : List Dispatched :=
  interpret ⟨[], [], []⟩ (linesFrom [] stream.toList)

-- ==== what is meant

def Unbroken (line : List Char) : Prop := '\n' ∉ line ∧ '\r' ∉ line

/-- One frame's content; the name of an event has no line breaks. -/
structure Content where
  id : Nat
  event : String
  data : String
  event_ne_nil : event.toList ≠ []
  event_unbroken : Unbroken event.toList

/-- Every line break as one line feed. -/
def normalised : List Char → List Char
  | [] => []
  | '\r' :: '\n' :: rest => '\n' :: normalised rest
  | c :: rest => (if c = '\r' then '\n' else c) :: normalised rest

def Content.frame (f : Content) : String := encode f.id f.event f.data

def Content.read (f : Content) : Dispatched where
  lastEventId := (toString f.id).toList
  type := f.event.toList
  data := normalised f.data.toList

-- ==== lines

variable {line rest : List Char} {lines : List (List Char)}

theorem linesFrom_append (held : List Char) (h : Unbroken line) :
    linesFrom held (line ++ '\n' :: rest)
      = (held ++ line) :: linesFrom [] rest := by
  induction line generalizing held with
  | nil => simp [linesFrom]
  | cons c line ih =>
    obtain ⟨⟨hlf, hlf'⟩, hcr, hcr'⟩ := And.imp
      (not_or.1 ∘ mt mem_cons.2) (not_or.1 ∘ mt mem_cons.2) h
    rw [cons_append, linesFrom.eq_3, if_neg, ih _ ⟨hlf', hcr'⟩, append_assoc]
    · rfl
    · simp [Ne.symm hlf, Ne.symm hcr]
    · exact fun _ h _ => hcr h.symm

theorem linesFrom_flatMap (h : ∀ line ∈ lines, Unbroken line) :
    linesFrom [] (lines.flatMap (· ++ ['\n']) ++ rest)
      = lines ++ linesFrom [] rest := by
  induction lines with
  | nil => rfl
  | cons line lines ih =>
    obtain ⟨hline, hlines⟩ := forall_mem_cons.1 h
    rw [flatMap_cons, append_assoc, append_assoc,
      singleton_append, linesFrom_append [] hline, ih hlines]
    rfl

theorem splitFrom_unbroken (hline : Unbroken line) (text : List Char) :
    ∀ l ∈ splitFrom line text, Unbroken l := by
  fun_induction splitFrom line text with
  | case1 line => simpa using hline
  | case5 line c rest hlf _ hcr ih =>
    refine ih ?_
    simpa [Unbroken, Ne.symm hlf, Ne.symm hcr] using hline
  | case2 line rest ih | case3 line rest ih | case4 line rest _ ih =>
    exact forall_mem_cons.2 ⟨hline, ih (by simp [Unbroken])⟩

theorem splitFrom_normalised (line text : List Char) :
    (splitFrom line text).flatMap (· ++ ['\n'])
      = line ++ normalised text ++ ['\n'] := by
  fun_induction splitFrom line text <;> simp_all [normalised]

-- ==== one frame

/-- The lines of a frame that are not blank. -/
def fieldLines (f : Content) : List (List Char) :=
  ("id: ".toList ++ (toString f.id).toList)
    :: ("event: ".toList ++ f.event.toList)
    :: (splitLines f.data).map dataLine

variable (f : Content)

theorem frame_lines :
    f.frame.toList = (fieldLines f ++ [[]]).flatMap (· ++ ['\n']) := by
  simp [Content.frame, encode, fieldLines, flatMap_map]

theorem id_digits (c : Char) (hc : c ∈ (toString f.id).toList) : c.isDigit = true := by
  have hmem : c ∈ Nat.toDigits 10 f.id := by simpa [Nat.repr] using hc
  exact Nat.isDigit_of_mem_toDigits (by omega) (by omega) hmem

theorem fieldLines_unbroken :
    ∀ line ∈ fieldLines f, line ≠ [] ∧ Unbroken line := by
  have hnil : Unbroken [] := by simp [Unbroken]
  have hsplit := splitFrom_unbroken hnil f.data.toList
  intro line hline
  rcases mem_cons.1 hline with rfl | hline
  · have hdigit := id_digits f
    refine ⟨by simp, fun h => ?_, fun h => ?_⟩
    · exact absurd (hdigit '\n' (by simpa using h)) (by decide)
    · exact absurd (hdigit '\r' (by simpa using h)) (by decide)
  rcases mem_cons.1 hline with rfl | hline
  · exact ⟨by simp, by have := f.event_unbroken; simp_all [Unbroken]⟩
  · obtain ⟨l, hl, rfl⟩ := mem_map.1 hline
    refine ⟨by simp [dataLine], ?_⟩
    have hl := hsplit l hl
    unfold dataLine
    split
    · simp [Unbroken]
    · simpa [Unbroken] using hl

variable (b : Buffers)

theorem field_data (line : List Char) :
    processLine b (dataLine line)
      = { b with data := b.data ++ line ++ ['\n'] } := by
  unfold processLine dataLine
  cases line <;> simp [field]

theorem interpret_line (h : line ≠ []) :
    interpret b (line :: lines) = interpret (processLine b line) lines := by
  cases line with
  | nil => exact absurd rfl h
  | cons => rfl

theorem interpret_data (lines rest : List (List Char)) :
    interpret b (lines.map dataLine ++ rest)
      = interpret { b with data := b.data ++ lines.flatMap (· ++ ['\n']) }
        rest := by
  induction lines generalizing b with
  | nil => simp
  | cons line lines ih =>
    rw [map_cons, cons_append, interpret_line b (by simp [dataLine]),
      field_data, ih, flatMap_cons]
    simp

theorem interpret_frame (id : List Char) (rest : List (List Char)) :
    interpret ⟨[], [], id⟩ (fieldLines f ++ [] :: rest)
      = f.read :: interpret ⟨[], [], (toString f.id).toList⟩ rest := by
  have hid : processLine ⟨[], [], id⟩
      ("id: ".toList ++ (toString f.id).toList)
      = ⟨[], [], (toString f.id).toList⟩ := by
    have hzero : '\x00' ∉ (toString f.id).toList := fun h =>
      absurd (id_digits f _ h) (by decide)
    generalize (toString f.id).toList = digits at hzero
    simp [processLine, field, hzero]
  have hevent : processLine ⟨[], [], (toString f.id).toList⟩
      ("event: ".toList ++ f.event.toList)
      = ⟨[], f.event.toList, (toString f.id).toList⟩ := by
    simp [processLine, field]
  have hsend : dispatch ⟨normalised f.data.toList ++ ['\n'], f.event.toList,
      (toString f.id).toList⟩ = [f.read] := by
    unfold dispatch Content.read
    rw [if_neg (by simp), if_neg f.event_ne_nil, if_pos (by simp),
      dropLast_concat]
  unfold fieldLines
  rw [cons_append, cons_append, interpret_line _ (by simp), hid,
    interpret_line _ (by simp), hevent, interpret_data, splitLines,
    splitFrom_normalised, nil_append, nil_append, interpret, hsend]
  rfl

theorem linesFrom_frame (rest : List Char) :
    linesFrom [] (f.frame.toList ++ rest)
      = fieldLines f ++ [] :: linesFrom [] rest := by
  rw [frame_lines, linesFrom_flatMap, append_assoc]
  · rfl
  · intro line hline
    rcases mem_append.1 hline with hline | hline
    · exact (fieldLines_unbroken f line hline).2
    · rw [mem_singleton.1 hline]
      exact ⟨not_mem_nil, not_mem_nil⟩

theorem interpret_frames (id : List Char) (frames : List Content) :
    interpret ⟨[], [], id⟩
        (linesFrom [] (String.join (frames.map Content.frame)).toList)
      = frames.map Content.read := by
  induction frames generalizing id with
  | nil => rfl
  | cons f frames ih =>
    rw [map_cons, String.join_cons, String.toList_append,
      linesFrom_frame, interpret_frame, ih]
    rfl

/-- Frames in a row are read as the events they were made of, and the only
blank line of each is its last. -/
theorem parse_frames (frames : List Content) :
    parse (String.join (frames.map Content.frame)) = frames.map Content.read
    ∧ ∀ f ∈ frames, ∃ lines, [] ∉ lines
      ∧ linesFrom [] f.frame.toList = lines ++ [[]] := by
  refine ⟨interpret_frames [] frames, fun f _ => ⟨fieldLines f, ?_, ?_⟩⟩
  · exact fun h => (fieldLines_unbroken f [] h).1 rfl
  · have h := linesFrom_frame f []
    rwa [List.append_nil] at h

example : encode 2 "text" "a\r\nb\rc"
    = "id: 2\nevent: text\ndata: a\ndata: b\ndata: c\n\n" := by decide

end Tasty.AgentStream.Sse
