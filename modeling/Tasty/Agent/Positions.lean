/-
Writing several positions of one JSON document, one after the other. A
position is the keys of the objects on the way, and a value is put into an
object that is there. The writes do not disturb each other where no
position leads through another one; where one does, the outer value has
to bring the inner one along.
-/
import Tasty.Agent.Execution
import Tasty.Agent.Reducer

namespace Tasty.Agent

open List Option

namespace Value

-- ==== following

/-- Where keys lead, one step after the other. -/
def along (step : String → Value → Option Value) :
    List String → Value → Option Value
  | [], v => some v
  | t :: rest, v => (step t v).bind (along step rest)

theorem walk_eq_along : walk = along step := by
  funext tokens
  induction tokens with
  | nil => rfl
  | cons t rest ih =>
    funext v
    rw [walk, along, ih]

/-- Where keys lead through objects alone. -/
def descend : List String → Value → Option Value :=
  along fun key v => v.field key

/-- Steps that are fields where they start at objects. -/
def ThroughFields (step : String → Value → Option Value) : Prop :=
  ∀ t m, step t (object m) = Entries.get m t

theorem throughFields_step : ThroughFields step := fun _ _ => rfl

theorem throughFields_field :
    ThroughFields fun key v => v.field key := fun _ _ => rfl

variable {t : String}

section Along

variable {f : String → Value → Option Value} {v w : Value}

theorem along_cons {rest : List String} :
    along f (t :: rest) v = (f t v).bind (along f rest) := rfl

theorem along_append {path rest : List String} :
    along f (path ++ rest) v = (along f path v).bind (along f rest) := by
  induction path generalizing v with
  | nil => rfl
  | cons t path ih =>
    rw [cons_append, along_cons, along_cons, bind_assoc]
    exact Option.bind_congr fun w _ => ih

/-- What is reached through objects is reached by every walk. -/
theorem along_of_descend (hf : ThroughFields f) {path : List String}
    (h : v.descend path = some w) : along f path v = some w := by
  induction path generalizing v with
  | nil => exact h
  | cons t path ih =>
    obtain ⟨u, hu, hw⟩ := bind_eq_some_iff.1 h
    cases v with
    | object m =>
      rw [along_cons, hf t m]
      exact bind_eq_some_iff.2 ⟨u, hu, ih hw⟩
    | _ => cases hu

theorem walk_of_descend {path : List String}
    (h : v.descend path = some w) : v.walk path = some w := by
  rw [walk_eq_along]
  exact along_of_descend throughFields_step h

end Along

variable {rest path : List String}

theorem descend_append {v : Value} :
    v.descend (path ++ rest) = (v.descend path).bind (descend rest) :=
  along_append

theorem descend_cons_object {m : List (String × Value)} :
    (object m).descend (t :: rest)
      = (Entries.get m t).bind (descend rest) := rfl

-- ==== putting

/-- A value put into the object at a position, as the field `last`. -/
def putIn : List String → String → Value → Value → Option Value
  | [], last, v, object m => some (object (Entries.insert last v m))
  | t :: rest, last, v, object m =>
    (Entries.get m t).bind fun cur =>
      (putIn rest last v cur).map fun cur =>
        object (Entries.insert t cur m)
  | _, _, _, _ => none

variable {last : String}

theorem putIn_cons_eq_some {x v v' : Value} :
    putIn (t :: rest) last x v = some v'
      ↔ ∃ m cur cur', v = object m ∧ Entries.get m t = some cur
        ∧ putIn rest last x cur = some cur'
        ∧ v' = object (Entries.insert t cur' m) := by
  cases v with
  | object m =>
    show (Entries.get m t).bind _ = some v' ↔ _
    constructor
    · intro h
      obtain ⟨cur, hcur, h⟩ := bind_eq_some_iff.1 h
      obtain ⟨cur', hput, h⟩ := map_eq_some_iff.1 h
      exact ⟨m, cur, cur', rfl, hcur, hput, h.symm⟩
    · intro h
      obtain ⟨m', cur, cur', hm, hcur, hput, h⟩ := h
      cases hm
      rw [hcur, bind_some, hput, h]
      rfl
  | _ =>
    constructor
    · intro h
      cases h
    · intro h
      obtain ⟨m, cur, cur', hm, h⟩ := h
      cases hm

theorem putIn_nil_eq_some {x v v' : Value} :
    putIn [] last x v = some v'
      ↔ ∃ m, v = object m ∧ v' = object (Entries.insert last x m) := by
  cases v with
  | object m =>
    show some _ = some v' ↔ _
    constructor
    · intro h
      cases h
      exact ⟨m, rfl, rfl⟩
    · intro h
      obtain ⟨m', hm, h⟩ := h
      cases hm
      rw [h]
  | _ =>
    constructor
    · intro h
      cases h
    · intro h
      obtain ⟨m, hm, h⟩ := h
      cases hm

variable {parent : List String}

theorem exists_putIn_iff {x v : Value} :
    (∃ v', putIn parent last x v = some v')
      ↔ ∃ m, v.descend parent = some (object m) := by
  induction parent generalizing v with
  | nil =>
    constructor
    · intro h
      obtain ⟨v', h⟩ := h
      obtain ⟨m, hm, -⟩ := putIn_nil_eq_some.1 h
      exact ⟨m, congrArg some hm⟩
    · intro h
      obtain ⟨m, hm⟩ := h
      exact ⟨_, putIn_nil_eq_some.2 ⟨m, Option.some.inj hm, rfl⟩⟩
  | cons t parent ih =>
    constructor
    · intro h
      obtain ⟨v', h⟩ := h
      obtain ⟨m, cur, cur', rfl, hcur, hput, -⟩ := putIn_cons_eq_some.1 h
      obtain ⟨m', hm'⟩ := ih.1 ⟨cur', hput⟩
      exact ⟨m', bind_eq_some_iff.2 ⟨cur, hcur, hm'⟩⟩
    · intro h
      obtain ⟨m', h⟩ := h
      obtain ⟨cur, hcur, hm'⟩ := bind_eq_some_iff.1 h
      obtain ⟨cur', hput⟩ := ih.2 ⟨m', hm'⟩
      cases v with
      | object m =>
        exact ⟨_, putIn_cons_eq_some.2 ⟨m, cur, cur', rfl, hcur, hput, rfl⟩⟩
      | _ => cases hcur

section Put

variable {parent : List String} {last : String} {x v v' : Value}

theorem descend_putIn_self (h : putIn parent last x v = some v') :
    v'.descend (parent ++ [last]) = some x := by
  induction parent generalizing v v' with
  | nil =>
    obtain ⟨m, -, rfl⟩ := putIn_nil_eq_some.1 h
    rw [nil_append, descend_cons_object, Entries.get_insert, if_pos rfl]
    rfl
  | cons t parent ih =>
    obtain ⟨m, cur, cur', -, -, hput, rfl⟩ := putIn_cons_eq_some.1 h
    rw [cons_append, descend_cons_object, Entries.get_insert, if_pos rfl]
    exact ih hput

/-- What is neither on the way nor behind it is as it was. -/
theorem along_putIn_of_apart {f : String → Value → Option Value}
    (hf : ThroughFields f) (h : putIn parent last x v = some v')
    (hbehind : ¬ parent ++ [last] <+: path)
    (hway : ¬ path <+: parent ++ [last]) :
    along f path v' = along f path v := by
  induction parent generalizing v v' path with
  | nil =>
    obtain ⟨m, rfl, rfl⟩ := putIn_nil_eq_some.1 h
    cases path with
    | nil => exact (hway (List.nil_prefix)).elim
    | cons k path =>
      have hne : k ≠ last := fun hk =>
        hbehind (hk ▸ (prefix_append [k] path))
      rw [along_cons, along_cons, hf, hf, Entries.get_insert, if_neg hne]
  | cons t parent ih =>
    obtain ⟨m, cur, cur', rfl, hcur, hput, rfl⟩ :=
      putIn_cons_eq_some.1 h
    cases path with
    | nil => exact (hway (List.nil_prefix)).elim
    | cons k path =>
      rw [along_cons, along_cons, hf, hf, Entries.get_insert]
      by_cases hk : k = t
      · rw [if_pos hk, hk, hcur]
        subst hk
        refine ih hput (fun hp => hbehind ?_) fun hp => hway ?_
        · exact cons_prefix_cons.2 ⟨rfl, hp⟩
        · exact cons_prefix_cons.2 ⟨rfl, hp⟩
      · rw [if_neg hk]

theorem descend_putIn_of_way (h : putIn parent last x v = some v')
    (hway : path <+: parent) : ∃ m, v'.descend path = some (object m) := by
  induction parent generalizing v v' path with
  | nil =>
    obtain ⟨m, -, rfl⟩ := putIn_nil_eq_some.1 h
    rw [prefix_nil.1 hway]
    exact ⟨_, rfl⟩
  | cons t parent ih =>
    obtain ⟨m, cur, cur', -, -, hput, rfl⟩ := putIn_cons_eq_some.1 h
    cases path with
    | nil => exact ⟨_, rfl⟩
    | cons k path =>
      obtain ⟨rfl, hrest⟩ := cons_prefix_cons.1 hway
      rw [descend_cons_object, Entries.get_insert, if_pos rfl]
      exact ih hput hrest

theorem descend_putIn_of_behind {outer : List String}
    (h : putIn (outer ++ parent) last x v = some v') :
    ∃ u u', v.descend outer = some u ∧ putIn parent last x u = some u'
      ∧ v'.descend outer = some u' := by
  induction outer generalizing v v' with
  | nil => exact ⟨v, v', rfl, h, rfl⟩
  | cons t outer ih =>
    obtain ⟨m, cur, cur', rfl, hcur, hput, rfl⟩ :=
      putIn_cons_eq_some.1 h
    obtain ⟨u, u', hu, hput, hu'⟩ := ih hput
    refine ⟨u, u', ?_, hput, ?_⟩
    · rw [descend_cons_object, hcur]
      exact hu
    · rw [descend_cons_object, Entries.get_insert, if_pos rfl]
      exact hu'

theorem reached_putIn (h : putIn parent last x v = some v')
    (hbehind : ¬ parent ++ [last] <+: path) {P : Value → Prop}
    (hobject : ∀ m, P (object m))
    (hreach : ∃ u, v.descend path = some u ∧ P u) :
    ∃ u, v'.descend path = some u ∧ P u := by
  by_cases hway : path <+: parent ++ [last]
  · rcases prefix_concat_iff.1 hway with rfl | hway
    · exact (hbehind (prefix_refl _)).elim
    · obtain ⟨m, hm⟩ := descend_putIn_of_way h hway
      exact ⟨_, hm, hobject m⟩
  · rw [descend, along_putIn_of_apart throughFields_field h hbehind hway]
    exact hreach

end Put

theorem putIn_of_descend {x v : Value} (hv : v.Proper)
    (h : v.descend (parent ++ [last]) = some x) :
    putIn parent last x v = some v := by
  induction parent generalizing v with
  | nil =>
    cases v with
    | object m =>
      obtain ⟨u, hu, hx⟩ := bind_eq_some_iff.1 h
      cases hx
      refine putIn_nil_eq_some.2 ⟨m, rfl, ?_⟩
      rw [hv.1.insert_of_get hu]
    | _ => cases h
  | cons t parent ih =>
    cases v with
    | object m =>
      obtain ⟨u, hu, hx⟩ := bind_eq_some_iff.1 h
      refine putIn_cons_eq_some.2
        ⟨m, u, u, rfl, hu, ih (proper_get hv hu) hx, ?_⟩
      rw [hv.1.insert_of_get hu]
    | _ => cases h

end Value

-- ==== writes

/-- A value for the field `last` of the object at `parent`. -/
structure ParamWrite where
  parent : List String
  last : String
  value : Value

def ParamWrite.path (w : ParamWrite) : List String := w.parent ++ [w.last]

namespace Value

/-- One write after the other. -/
def putAll (writes : List ParamWrite) (v : Value) : Option Value :=
  writes.foldlM (fun v w => putIn w.parent w.last w.value v) v

variable {writes : List ParamWrite}

theorem putAll_cons_eq_some {w : ParamWrite} {v v' : Value} :
    putAll (w :: writes) v = some v'
      ↔ ∃ u, putIn w.parent w.last w.value v = some u
        ∧ putAll writes u = some v' := by
  unfold putAll
  rw [foldlM_cons]
  exact bind_eq_some_iff

/-- A position that no write is at, leads to or leads through. -/
def ApartFrom (writes : List ParamWrite) (path : List String) : Prop :=
  ∀ w ∈ writes, ¬ w.path <+: path ∧ ¬ path <+: w.path

/-- Each written position has its value, and all others are as before. -/
structure Written (writes : List ParamWrite) (base v : Value) : Prop where
  there : ∀ w ∈ writes, v.walk w.path = some w.value
  others : ∀ path, ApartFrom writes path → v.walk path = base.walk path

/-- A value written where another position leads through has, there, what
is written to that one. -/
def BringsAlong (writes : List ParamWrite) : Prop :=
  ∀ w ∈ writes, ∀ w' ∈ writes, ∀ rest, rest ≠ [] →
    w'.path = w.path ++ rest → w.value.descend rest = some w'.value

-- ==== while it is written

/-- What is known when some of the writes are done. -/
structure Progress (base : Value) (done : List ParamWrite) (v : Value) :
    Prop where
  there : ∀ w ∈ done, v.descend w.path = some w.value
  others : ∀ path, ApartFrom done path → v.walk path = base.walk path
  objects : ∀ path, (∀ w ∈ done, ¬ w.path <+: path) →
    (∃ m, base.descend path = some (object m)) →
    ∃ m, v.descend path = some (object m)

theorem Progress.start (base : Value) : Progress base [] base where
  there := nofun
  others := fun _ _ => rfl
  objects := fun _ _ h => h

section Step

variable {base v : Value} {done : List ParamWrite} {w : ParamWrite}

/-- The object for the next write is there. -/
theorem Progress.parent (h : Progress base done v)
    (hbase : ∃ m, base.descend w.parent = some (object m))
    (hbrings : ∀ d ∈ done, ∀ rest, rest ≠ [] → w.path = d.path ++ rest →
      d.value.descend rest = some w.value) :
    ∃ m, v.descend w.parent = some (object m) := by
  by_cases hthrough : ∃ d ∈ done, d.path <+: w.parent
  · obtain ⟨d, hd, rest, hrest⟩ := hthrough
    have hpath : w.path = d.path ++ (rest ++ [w.last]) := by
      rw [ParamWrite.path, ← hrest, append_assoc]
    have hfield := hbrings d hd _ (by simp) hpath
    rw [descend_append] at hfield
    obtain ⟨u, hu, hlast⟩ := bind_eq_some_iff.1 hfield
    rw [← hrest, descend_append, h.there d hd, bind_some, hu]
    cases u with
    | object m => exact ⟨m, rfl⟩
    | _ => cases hlast
  · exact h.objects w.parent (fun d hd hp => hthrough ⟨d, hd, hp⟩) hbase

/-- A value that is written through keeps what it brings along. -/
theorem Progress.kept (h : Progress base done v) {v' : Value}
    (hput : putIn w.parent w.last w.value v = some v')
    {d : ParamWrite} (hd : d ∈ done) (hproper : d.value.Proper)
    (hafter : ¬ w.path <+: d.path)
    (hbrings : ∀ rest, rest ≠ [] → w.path = d.path ++ rest →
      d.value.descend rest = some w.value) :
    v'.descend d.path = some d.value := by
  by_cases hthrough : d.path <+: w.path
  · rcases prefix_concat_iff.1 hthrough with hsame | hthrough
    · exact (hafter (hsame ▸ prefix_refl _)).elim
    · obtain ⟨rest, hrest⟩ := hthrough
      have hpath : w.path = d.path ++ (rest ++ [w.last]) := by
        rw [ParamWrite.path, ← hrest, append_assoc]
      have hfield := hbrings _ (by simp) hpath
      rw [← hrest] at hput
      obtain ⟨u, u', hu, hinner, hu'⟩ := descend_putIn_of_behind hput
      cases (h.there d hd).symm.trans hu
      cases (putIn_of_descend hproper hfield).symm.trans hinner
      exact hu'
  · rw [descend, along_putIn_of_apart throughFields_field hput hafter hthrough]
    exact h.there d hd

/-- One write more. -/
theorem Progress.put (h : Progress base done v)
    (hbase : ∃ m, base.descend w.parent = some (object m))
    (hproper : ∀ d ∈ done, d.value.Proper)
    (hafter : ∀ d ∈ done, ¬ w.path <+: d.path)
    (hbrings : ∀ d ∈ done, ∀ rest, rest ≠ [] → w.path = d.path ++ rest →
      d.value.descend rest = some w.value) :
    ∃ v', putIn w.parent w.last w.value v = some v'
      ∧ Progress base (done ++ [w]) v' := by
  obtain ⟨v', hput⟩ := exists_putIn_iff.2 (h.parent hbase hbrings)
  refine ⟨v', hput, ?_, ?_, ?_⟩
  · intro d hd
    rcases mem_append.1 hd with hd | hd
    · exact h.kept hput hd (hproper d hd) (hafter d hd) (hbrings d hd)
    · cases mem_singleton.1 hd
      exact descend_putIn_self hput
  · intro path hapart
    obtain ⟨hdone, hw⟩ := forall_mem_append.1 hapart
    obtain ⟨hbehind, hway⟩ := hw w (mem_singleton_self w)
    rw [← h.others path hdone, walk_eq_along,
      along_putIn_of_apart throughFields_step hput hbehind hway]
  · intro path hnot hobject
    obtain ⟨hdone, hw⟩ := forall_mem_append.1 hnot
    obtain ⟨m, hm⟩ := h.objects path hdone hobject
    obtain ⟨u, hu, m', rfl⟩ := reached_putIn hput
      (hw w (mem_singleton_self w))
      (P := fun u => ∃ m, u = object m) (fun m => ⟨m, rfl⟩)
      ⟨_, hm, m, rfl⟩
    exact ⟨m', hu⟩

end Step

theorem Progress.run {base v : Value} {done : List ParamWrite}
    (h : Progress base done v)
    (hbase : ∀ w ∈ writes, ∃ m, base.descend w.parent = some (object m))
    (hproper : ∀ w ∈ done ++ writes, w.value.Proper)
    (horder : (done ++ writes).Pairwise fun w w' => ¬ w'.path <+: w.path)
    (hbrings : BringsAlong (done ++ writes)) :
    ∃ v', putAll writes v = some v' ∧ Progress base (done ++ writes) v' := by
  induction writes generalizing done v with
  | nil =>
    rw [append_nil]
    exact ⟨v, rfl, h⟩
  | cons w writes ih =>
    obtain ⟨hw, hrest⟩ := forall_mem_cons.1 hbase
    have hin : w ∈ done ++ w :: writes :=
      mem_append_right _ mem_cons_self
    obtain ⟨u, hput, hnext⟩ := h.put hw
      (fun d hd => hproper d (mem_append_left _ hd))
      (fun d hd => (pairwise_append.1 horder).2.2 d hd w mem_cons_self)
      fun d hd => hbrings d (mem_append_left _ hd) w hin
    rw [append_cons] at hproper horder hbrings ⊢
    obtain ⟨v', hall, hdone⟩ := ih hnext hrest hproper horder hbrings
    exact ⟨v', putAll_cons_eq_some.2 ⟨u, hput, hall⟩, hdone⟩

/-- Later writes do not cut off what earlier ones reach. -/
theorem reached_putAll {v v' : Value} (h : putAll writes v = some v')
    {path : List String} (hnot : ∀ w ∈ writes, ¬ w.path <+: path)
    (hreach : ∃ u, v.descend path = some u) :
    ∃ u, v'.descend path = some u := by
  induction writes generalizing v with
  | nil =>
    cases h
    exact hreach
  | cons w writes ih =>
    obtain ⟨u, hput, h⟩ := putAll_cons_eq_some.1 h
    obtain ⟨hw, hrest⟩ := forall_mem_cons.1 hnot
    obtain ⟨x, hx⟩ := hreach
    obtain ⟨y, hy, -⟩ := reached_putIn hput hw (P := fun _ => True)
      (fun _ => trivial) ⟨x, hx, trivial⟩
    exact ih h hrest ⟨y, hy⟩

/-- Each written position is reached through objects in the end. -/
theorem reached_of_mem {v v' : Value} (h : putAll writes v = some v')
    (horder : writes.Pairwise fun w w' => ¬ w'.path <+: w.path)
    {w : ParamWrite} (hw : w ∈ writes) : ∃ u, v'.descend w.path = some u := by
  induction writes generalizing v with
  | nil => cases hw
  | cons w' writes ih =>
    obtain ⟨u, hput, h⟩ := putAll_cons_eq_some.1 h
    obtain ⟨hfirst, horder⟩ := pairwise_cons.1 horder
    rcases mem_cons.1 hw with hsame | hw
    · rw [hsame]
      exact reached_putAll h hfirst ⟨_, descend_putIn_self hput⟩
    · exact ih h horder hw

/-- Writes whose objects are there, none before one that it leads through,
succeed and have the written values in the end exactly if each value
brings along what is written behind it. -/
theorem exists_written_iff {base : Value}
    (hbase : ∀ w ∈ writes, ∃ m, base.descend w.parent = some (object m))
    (hproper : ∀ w ∈ writes, w.value.Proper)
    (horder : writes.Pairwise fun w w' => ¬ w'.path <+: w.path) :
    (∃ v, putAll writes base = some v ∧ Written writes base v)
      ↔ BringsAlong writes := by
  constructor
  · intro h
    obtain ⟨v, hput, hwritten⟩ := h
    have hthere {w : ParamWrite} (hw : w ∈ writes) :
        v.descend w.path = some w.value := by
      obtain ⟨u, hu⟩ := reached_of_mem hput horder hw
      rw [hu, ← walk_of_descend hu, hwritten.there w hw]
    intro w hw w' hw' rest _ hpath
    have hinner := hthere hw'
    rw [hpath, descend_append, hthere hw] at hinner
    exact hinner
  · intro h
    obtain ⟨v, hput, hdone⟩ := (Progress.start base).run hbase hproper
      horder h
    exact ⟨v, hput, fun w hw => walk_of_descend (hdone.there w hw),
      hdone.others⟩

end Value

end Tasty.Agent
