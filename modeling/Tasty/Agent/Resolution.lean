/-
When the values of accepted bindings can be read: what the check of the
types settles, and what it leaves to the outputs that are there.
-/
import Tasty.Agent.Inputs

namespace Tasty.Agent

open Entries List Option

variable {target : TypeSchema} {convert : Option Conversion} {x v y : Value}
  {i : Int64} {e : Nat} {s : BindingSource} {sources : List BindingSource}
  {name : String}

section Accepted

variable [F64Text]

-- ==== along the pointer

variable {l : Nat} {sub : TypeSchema}

theorem Validates.walk {defs : TypeDefs} {tokens : List String}
    {schema : TypeSchema} {v w x : Value} {absent absent' : Bool}
    {path : String} (h : Validates defs l schema v w)
    (hat : defs.schemaAtFrom tokens schema absent path
      = .ok (sub, absent')) (hx : w.walk tokens = some x) :
    ∃ l' v', Validates defs l' sub v' x := by
  induction tokens generalizing l schema v w absent path with
  | nil =>
    cases hat
    cases hx
    exact ⟨l, v, h⟩
  | cons token tokens ih =>
    obtain ⟨l, rfl⟩ : ∃ k, l = k + 1 := by
      cases l with
      | zero => exact h.elim
      | succ l => exact ⟨l, rfl⟩
    obtain ⟨r, hr, hat⟩ := bind_ok hat
    obtain ⟨r', hr', h⟩ := h
    rw [hr] at hr'
    cases hr'
    obtain ⟨y, hy, hrest⟩ := bind_eq_some_iff.1 hx
    split at h
    · obtain ⟨_, rfl⟩ := h
      cases hy
    · cases hkind : r.kind with
      | object fields =>
        rw [hkind] at h hat
        obtain ⟨obj, out, _, _, hout, rfl⟩ := h
        obtain ⟨field, z, hfield, hz⟩ :=
          validated_mem hout (mem_of_get hy)
        dsimp only at hat
        rw [hfield] at hat
        exact ih hz hat hrest
      | list items maxLen =>
        rw [hkind] at h hat
        obtain ⟨arr, out, _, _, hout, rfl⟩ := h
        dsimp only at hat
        split at hat
        · rename_i hindex
          have hget : out[arrayIndex token]? = some y := by
            unfold Value.step at hy
            dsimp only at hy
            rwa [if_pos hindex] at hy
          obtain ⟨z, _, hz⟩ :=
            forall₂_right hout (mem_of_getElem? hget)
          exact ih hz hat hrest
        · cases hat
      | json =>
        rw [hkind] at hat
        cases hat
        refine ⟨x.depth + 1, x, ⟨.json, false⟩, rfl, ?_⟩
        rw [if_neg (by simp [TypeKind.takesNull])]
        exact ⟨Nat.le_refl _, rfl⟩
      | _ =>
        rw [hkind] at hat
        cases hat

-- ==== conversions

/-- The errors that a resolution may end in for an accepted binding: a
limit on the size or the depth of a value, and an integer that no double
holds. -/
def TypeError.Excused (e : TypeError) : Prop :=
  e.kind = .tooDeep ∨ e.kind = .tooLarge
    ∨ (e.kind = .outOfRange ∧ e.expected = exactFloat)

/-- A converted integer is within the bounds of its field. -/
def InBounds (defs : TypeDefs) (target : TypeSchema)
    (convert : Option Conversion) (x : Value) : Prop :=
  convert = some .int64ToFloat64 → ∀ i f r min max, int64Of x = .ok i →
    F64.ofIntExact i.toInt = some f → defs.resolve target = .ok r →
    r.kind = .float64 min max → (min.any f.lt || max.any (·.lt f)) = false

/-- What the check of a conversion settles. -/
structure Converts (defs : TypeDefs) (target : TypeSchema)
    (convert : Option Conversion) (x : Value) : Prop where
  excused : Fails TypeError.Excused (convertValue convert x)
  valid : ∀ y, convertValue convert x = .ok y →
    InBounds defs target convert x → ∀ left path,
      OnlyTooDeep (defs.validateAt left target y path)
  bounds : ∀ y, convertValue convert x = .ok y → ∀ left path z,
    defs.validateAt left target y path = .ok z →
      InBounds defs target convert x

/-- A conversion other than that of integers has no bounds to keep. -/
theorem inBounds_of_ne {defs : TypeDefs}
    (h : convert ≠ some .int64ToFloat64) : InBounds defs target convert x :=
  fun heq => absurd heq h

variable {r : ResolvedSchema}

theorem toString_ok {defs : TypeDefs} (h : Validates defs l sub v x)
    (hr : defs.resolve sub = .ok r)
    (hkind : (r.kind.hasText && !r.nullable) = true) :
    ∃ s, convertValue (some .toString) x = .ok (.string s) := by
  cases l with
  | zero => exact h.elim
  | succ l =>
    obtain ⟨r', hr', h⟩ := h
    rw [hr] at hr'
    cases hr'
    obtain ⟨kind, nullable⟩ := r
    split at h
    · obtain ⟨hnull, _⟩ := h
      dsimp only at hnull hkind
      rw [hnull, Bool.not_true, Bool.and_false] at hkind
      cases hkind
    · cases kind with
      | boolean =>
        obtain ⟨b, rfl, rfl⟩ := h
        exact ⟨_, rfl⟩
      | int64 =>
        obtain ⟨i, _, rfl⟩ := h
        refine ⟨toString i.toInt, ?_⟩
        unfold convertValue Value.ofI64
        dsimp only
        rw [Number.asI64_ofI64]
      | string maxLen | enum values =>
        obtain ⟨s, rfl, _, rfl⟩ := h
        exact ⟨s, rfl⟩
      | _ => cases hkind

/-- A text is a value of the plain string type. -/
theorem validates_string (s : String) :
    Validates .empty 1 .string (.string s) (.string s) :=
  ⟨⟨.string none, false⟩, rfl, s, rfl, rfl, rfl⟩

theorem Validates.int64 {defs : TypeDefs} {v x : Value}
    (h : Validates defs l sub v x) (hr : defs.resolve sub = .ok r)
    (hkind : (r.kind.isInt64 && !r.nullable) = true) : ∃ i, x = .ofI64 i := by
  cases l with
  | zero => exact h.elim
  | succ l =>
    obtain ⟨r', hr', h⟩ := h
    rw [hr] at hr'
    cases hr'
    obtain ⟨kind, nullable⟩ := r
    cases kind with
    | int64 =>
      split at h
      · obtain ⟨hnull, _⟩ := h
        dsimp only at hnull hkind
        rw [hnull] at hkind
        cases hkind
      · obtain ⟨i, _, rfl⟩ := h
        exact ⟨i, rfl⟩
    | _ => cases hkind

theorem validateAt_float {defs : TypeDefs} {min max : Option F64} {f : F64}
    (hr : defs.resolve target = .ok r) (hkind : r.kind = .float64 min max)
    (hfinite : f.isFinite = true) {left : Nat} {path : String} :
    (∃ z, defs.validateAt (left + 1) target (.number (.float f)) path = .ok z)
      ↔ (min.any f.lt || max.any (·.lt f)) = false := by
  constructor
  · rintro ⟨z, hz⟩
    obtain ⟨r', hr', h⟩ := validateAt_eq_ok.1 hz
    rw [hr] at hr'
    cases hr'
    rw [if_neg (by simp [Value.isNull]), hkind] at h
    obtain ⟨n, g, hn, hg, _, hbounds, _⟩ := h
    cases hn
    cases hg
    exact hbounds
  · intro hbounds
    refine ⟨.number (.float f), validateAt_eq_ok.2 ⟨r, hr, ?_⟩⟩
    rw [if_neg (by simp [Value.isNull]), hkind]
    exact ⟨_, f, rfl, rfl, hfinite, hbounds, rfl⟩

/-- An integer as a double, if one holds it. -/
theorem convertValue_float {f : F64} (hf : F64.ofIntExact i.toInt = some f) :
    convertValue (some .int64ToFloat64) (.ofI64 i)
      = .ok (.number (.float f)) := by
  unfold convertValue
  dsimp only
  rw [int64Of_ofI64]
  dsimp only
  rw [hf]
  dsimp only
  rw [if_pos (F64.ofIntExact_isFinite hf)]

theorem convertValue_inexact (hf : F64.ofIntExact i.toInt = none) :
    convertValue (some .int64ToFloat64) (.ofI64 i)
      = .error ⟨.outOfRange, "", exactFloat, toString i.toInt⟩ := by
  unfold convertValue
  dsimp only
  rw [int64Of_ofI64]
  dsimp only
  rw [hf]

/-- The conversion of integers. -/
theorem converts_float {defs : TypeDefs}     {t : ResolvedSchema} {min max : Option F64}
    (ht : defs.resolve target = .ok t) (hkind : t.kind = .float64 min max) :
    Converts defs target (some .int64ToFloat64) (.ofI64 i) := by
  cases hf : F64.ofIntExact i.toInt with
  | none =>
    have hconvert := convertValue_inexact hf
    refine ⟨?_, fun y hy => ?_, fun y hy => ?_⟩
    · rw [hconvert]
      exact .error (Or.inr (Or.inr ⟨rfl, rfl⟩))
    · rw [hconvert] at hy
      cases hy
    · rw [hconvert] at hy
      cases hy
  | some f =>
    have hconvert := convertValue_float hf
    have hfinite := F64.ofIntExact_isFinite hf
    refine ⟨.of_eq hconvert, ?_, ?_⟩
    · intro y hy hbounds left path
      rw [hconvert] at hy
      cases hy
      cases left with
      | zero => exact .error rfl
      | succ left =>
        have hin := hbounds rfl i f t min max (int64Of_ofI64 i) hf ht
          hkind
        obtain ⟨z, hz⟩ := (validateAt_float ht hkind hfinite).2 hin
        exact .of_eq hz
    · intro y hy left path z hz _ i' f' t' min' max' hi' hf' ht' hk'
      rw [hconvert] at hy
      cases hy
      rw [int64Of_ofI64] at hi'
      cases hi'
      rw [hf] at hf'
      cases hf'
      rw [ht] at ht'
      cases ht'
      cases left with
      | zero => cases hz
      | succ left =>
        exact (validateAt_float ht hk' hfinite).1 ⟨z, hz⟩

/-- An accepted conversion of a valid value fails only as it may, and so
does the check of its result. -/
theorem converts_of_check {sdefs defs : TypeDefs}
    (hcheck : checkConversion sdefs sub defs target convert = .ok ())
    (hassert : convert ≠ some .assert) (htarget : Checked defs e target)
    (he : e ≤ maxSchemaDepth + 1) (h : Validates sdefs l sub v x) :
    Converts defs target convert x := by
  cases convert with
  | none =>
    refine ⟨.ok _, ?_, fun _ _ _ _ _ _ => inBounds_of_ne (by simp)⟩
    intro y hy _ left path
    cases hy
    exact assignable_onlyTooDeep hcheck htarget he h
  | some conversion =>
    cases conversion with
    | assert => exact absurd rfl hassert
    | toString =>
      obtain ⟨r, hr, hcheck⟩ := bind_ok hcheck
      obtain ⟨hkind, hcheck⟩ := guard_not_ok hcheck
      obtain ⟨s, hs⟩ := toString_ok h hr hkind
      refine ⟨.of_eq hs, ?_, fun _ _ _ _ _ _ => inBounds_of_ne (by simp)⟩
      intro y hy _ left path
      rw [hs] at hy
      cases hy
      exact assignable_onlyTooDeep hcheck htarget he
        (validates_string s)
    | int64ToFloat64 =>
      obtain ⟨r, hr, hcheck⟩ := bind_ok hcheck
      obtain ⟨hkind, hcheck⟩ := guard_not_ok hcheck
      obtain ⟨i, rfl⟩ := h.int64 hr hkind
      obtain ⟨t, ht, hcheck⟩ := bind_ok hcheck
      split at hcheck
      · rename_i hfloat
        exact converts_float ht hfloat
      · cases hcheck

-- ==== the checks

section Checks

variable {taskId : TaskId} {defs : TypeDefs} {field : FieldSchema}
  {lookup : TaskId → Option Task} {loc : String}

/-- What an accepted source has: a task, a pointer into its output, and a
type there that converts. -/
structure SourceChecked (defs : TypeDefs) (field : FieldSchema)
    (lookup : TaskId → Option Task) (convert : Option Conversion)
    (s : BindingSource) (p : Task) (tokens : List String)
    (sub : TypeSchema) : Prop where
  found : lookup s.fromTask = some p
  pointer : pointerTokens s.pointer = .ok tokens
  schema : ∃ absent, (outputSchemaOf p).1.schemaAtFrom tokens
    (outputSchemaOf p).2 false "" = .ok (sub, absent)
  converts : checkConversion (outputSchemaOf p).1 sub defs field.schema
    convert = .ok ()

theorem checkSource_checked
    (h : checkSource taskId defs field lookup convert loc s = .ok ()) :
    ∃ p tokens sub, SourceChecked defs field lookup convert s p tokens sub := by
  unfold checkSource at h
  split at h
  · cases h
  · rename_i p hp
    obtain ⟨_, h⟩ := guard_ok h
    dsimp only at h
    split at h
    · cases h
    · rename_i sub absent hschema
      obtain ⟨_, h⟩ := guard_ok h
      unfold TypeDefs.schemaAt at hschema
      split at hschema
      · rename_i tokens htokens
        split at h
        · cases h
        · rename_i hconvert
          exact ⟨p, tokens, sub, hp, htokens, ⟨absent, hschema⟩, hconvert⟩
      · cases hschema

theorem checkOneOf_checked {seen : List TaskId}
    (h : checkOneOf taskId defs field lookup convert loc seen sources
      = .ok ()) (hs : s ∈ sources) :
    ∃ p tokens sub, SourceChecked defs field lookup convert s p tokens sub := by
  induction sources generalizing seen with
  | nil => cases hs
  | cons s' sources ih =>
    unfold checkOneOf at h
    obtain ⟨_, h⟩ := guard_ok h
    obtain ⟨_, hsource, h⟩ := bind_ok h
    rcases mem_cons.1 hs with rfl | hs
    · exact checkSource_checked hsource
    · exact ih h hs

theorem checkBinding_checked {binding : InputBinding}
    (h : checkBinding taskId defs field lookup loc binding = .ok ())
    (hs : s ∈ binding.sources) :
    ∃ p tokens sub,
      SourceChecked defs field lookup binding.convert s p tokens sub := by
  cases binding with
  | literal v => cases hs
  | fromTask source convert =>
    cases mem_singleton.1 hs
    exact checkSource_checked h
  | oneOf sources convert =>
    obtain ⟨_, h⟩ := guard_ok h
    exact checkOneOf_checked h hs

end Checks

-- ==== the reading

section Reading

omit [F64Text]

variable {task : Task} {stored : TaskId → Option Task} {loc : String}

/-- `x` is what a source reads. -/
def ReadAt (stored : TaskId → Option Task) (s : BindingSource)
    (x : Value) : Prop :=
  ∃ p output tokens, stored s.fromTask = some p
    ∧ producerOutput p = some output
    ∧ pointerTokens s.pointer = .ok tokens ∧ output.walk tokens = some x

/-- The task of a source has an output. -/
def hasOutput (stored : TaskId → Option Task) (s : BindingSource) : Bool :=
  ((stored s.fromTask).bind producerOutput).isSome

theorem ReadAt.hasOutput (h : ReadAt stored s x) : Agent.hasOutput stored s = true := by
  obtain ⟨p, output, _, hp, houtput, _⟩ := h
  unfold Agent.hasOutput
  rw [hp, bind_some, houtput]
  rfl

theorem ReadAt.eq (hx : ReadAt stored s x) (hy : ReadAt stored s y) : x = y := by
  obtain ⟨p, output, tokens, hp, houtput, htokens, hx⟩ := hx
  obtain ⟨p', output', tokens', hp', houtput', htokens', hy⟩ := hy
  rw [hp] at hp'
  cases hp'
  rw [houtput] at houtput'
  cases houtput'
  rw [htokens] at htokens'
  cases htokens'
  rw [hx] at hy
  cases hy
  rfl

theorem readSource_eq_some :
    readSource task stored loc s = .ok (some x) ↔ ReadAt stored s x := by
  unfold readSource
  constructor
  · intro h
    split at h
    · cases h
    · rename_i p hp
      split at h
      · cases h
      · rename_i output houtput
        split at h
        · cases h
        · rename_i tokens htokens
          split at h
          · rename_i y hy
            cases h
            exact ⟨p, output, tokens, hp, houtput, htokens, hy⟩
          · cases h
  · rintro ⟨p, output, tokens, hp, houtput, htokens, hx⟩
    rw [hp]
    dsimp only
    rw [houtput]
    dsimp only
    rw [htokens]
    dsimp only
    rw [hx]

theorem readSource_eq_none (hstored : (stored s.fromTask).isSome = true) :
    readSource task stored loc s = .ok none ↔ hasOutput stored s = false := by
  obtain ⟨p, hp⟩ := isSome_iff_exists.1 hstored
  unfold readSource hasOutput
  rw [hp]
  dsimp only [bind_some]
  cases houtput : producerOutput p with
  | none => simp
  | some output =>
    dsimp only
    split
    · simp [stopWith]
    · split <;> simp [stopWith]

theorem readSources_found {found : List (BindingSource × Value)}
    (h : readSources task stored loc sources = .ok found) :
    found.length = sources.countP (hasOutput stored)
      ∧ (∀ s ∈ sources, hasOutput stored s = true → ∃ x, (s, x) ∈ found)
      ∧ ∀ s x, (s, x) ∈ found → s ∈ sources ∧ ReadAt stored s x := by
  obtain ⟨read, hread, hfound⟩ := bind_ok h
  cases hfound
  replace hread := mapM_eq_ok.1 hread
  clear h
  induction hread with
  | nil => exact ⟨rfl, fun s hs => absurd hs not_mem_nil,
      fun s x hs => absurd hs not_mem_nil⟩
  | @cons s o sources read ho _ ih =>
    obtain ⟨hlen, hall, hfound⟩ := ih
    obtain ⟨v, hv, ho⟩ := bind_ok ho
    cases ho
    cases v with
    | none =>
      have hstored : (stored s.fromTask).isSome = true := by
        unfold readSource at hv
        split at hv
        · cases hv
        · rename_i p hp
          rw [hp]
          rfl
      have hsilent := (readSource_eq_none hstored).1 hv
      refine ⟨?_, ?_, ?_⟩
      · rw [countP_cons_of_neg (by simp [hsilent])]
        exact hlen
      · intro s' hs' houtput
        rcases mem_cons.1 hs' with rfl | hs'
        · rw [hsilent] at houtput
          cases houtput
        · exact hall s' hs' houtput
      · intro s' x hmem
        obtain ⟨hs', hx⟩ := hfound s' x hmem
        exact ⟨mem_cons_of_mem _ hs', hx⟩
    | some x =>
      have hx := readSource_eq_some.1 hv
      refine ⟨?_, ?_, ?_⟩
      · rw [countP_cons_of_pos hx.hasOutput]
        exact congrArg (· + 1) hlen
      · intro s' hs' houtput
        rcases mem_cons.1 hs' with rfl | hs'
        · exact ⟨x, mem_cons_self⟩
        · obtain ⟨y, hy⟩ := hall s' hs' houtput
          exact ⟨y, mem_cons_of_mem _ hy⟩
      · intro s' y hmem
        rcases mem_cons.1 hmem with heq | hmem
        · cases heq
          exact ⟨mem_cons_self, hx⟩
        · obtain ⟨hs', hy⟩ := hfound s' y hmem
          exact ⟨mem_cons_of_mem _ hs', hy⟩

theorem readSources_ok
    (hstored : ∀ s ∈ sources, (stored s.fromTask).isSome = true)
    (hread : ∀ s ∈ sources, hasOutput stored s = true →
      ∃ x, ReadAt stored s x) :
    ∃ found, readSources task stored loc sources = .ok found := by
  have hall : ∀ s ∈ sources, ∃ o,
      (readSource task stored loc s >>= fun v =>
        (.ok (v.map fun v => (s, v)) : Resolving _)) = .ok o := by
    intro s hs
    cases houtput : hasOutput stored s with
    | false =>
      have h : readSource task stored loc s = .ok none :=
        (readSource_eq_none (hstored s hs)).2 houtput
      exact ⟨_, bind_eq_ok.2 ⟨none, h, rfl⟩⟩
    | true =>
      obtain ⟨x, hx⟩ := hread s hs houtput
      exact ⟨_, bind_eq_ok.2 ⟨some x, readSource_eq_some.2 hx, rfl⟩⟩
  obtain ⟨read, hread⟩ := mapM_ok hall
  exact ⟨_, bind_eq_ok.2 ⟨read, hread, rfl⟩⟩

end Reading

-- ==== the bindings

section Bindings

variable {task : Task} {created stored : TaskId → Option Task}
  {defs : TypeDefs} {field : FieldSchema} {loc : String}
  {binding : InputBinding}

/-- An output that passed the validation of its schema. -/
def HoldsValid (p : Task) : Prop :=
  ∀ output, producerOutput p = some output →
    ∃ v, (outputSchemaOf p).1.validate (outputSchemaOf p).2 v = .ok output

/-- The sources of a binding when it is read: each task succeeded with an
output, or was not selected where the field may go without; of a `one_of`
exactly one succeeded, or none where the field may go without. -/
def SourcesMet (stored : TaskId → Option Task) (field : FieldSchema) :
    InputBinding → Prop
  | .literal _ => True
  | .fromTask s _ => ∃ p, stored s.fromTask = some p
      ∧ ((hasOutput stored s = true ∧ isNotSelected p = false)
        ∨ (field.mayBeOmitted = true ∧ p.state = .skipped
          ∧ isNotSelected p = true))
  | .oneOf sources _ => (∀ s ∈ sources, (stored s.fromTask).isSome = true)
      ∧ (sources.countP (hasOutput stored) = 1
        ∨ (field.mayBeOmitted = true
          ∧ sources.countP (hasOutput stored) = 0))

/-- A binding when it is read: its sources are the tasks it was checked
with, and their outputs are valid. -/
structure BindingMet (created stored : TaskId → Option Task)
    (field : FieldSchema) (binding : InputBinding) : Prop where
  same : ∀ s ∈ binding.sources, ∀ p p₀, stored s.fromTask = some p →
    created s.fromTask = some p₀ → outputSchemaOf p = outputSchemaOf p₀
  valid : ∀ s ∈ binding.sources, ∀ p, stored s.fromTask = some p →
    HoldsValid p
  met : SourcesMet stored field binding

/-- What is at the sources of a binding, for those that have an output: a
value, and a converted integer within the bounds of the field. -/
def Readable (stored : TaskId → Option Task) (defs : TypeDefs)
    (field : FieldSchema) (binding : InputBinding) : Prop :=
  ∀ s ∈ binding.sources, hasOutput stored s = true →
    ∃ x, ReadAt stored s x ∧ InBounds defs field.schema binding.convert x

omit [F64Text] in
theorem hasOutput_skipped {p : Task}
    (hp : stored s.fromTask = some p) (h : p.state = .skipped) :
    hasOutput stored s = false := by
  unfold hasOutput producerOutput
  rw [hp, bind_some, h]
  rfl

omit [F64Text] in
theorem readBinding_ok (task : Task) (loc : String)
    (hmet : SourcesMet stored field binding)
    (hread : ∀ s ∈ binding.sources, hasOutput stored s = true →
      ∃ x, ReadAt stored s x) :
    ∃ raw, readBinding task stored field loc binding = .ok raw
      ∧ (raw = none → field.mayBeOmitted = true) := by
  cases binding with
  | literal v => exact ⟨some v, rfl, fun h => by cases h⟩
  | fromTask s convert =>
    obtain ⟨p, hp, hcase⟩ := hmet
    unfold readBinding
    dsimp only
    rw [hp, any_some]
    rcases hcase with ⟨houtput, hselected⟩ | ⟨homit, _, hnot⟩
    · obtain ⟨x, hx⟩ := hread s mem_cons_self houtput
      rw [hselected, Bool.and_false, if_neg Bool.false_ne_true]
      exact ⟨some x, bind_eq_ok.2 ⟨_, readSource_eq_some.2 hx, rfl⟩,
        fun h => by cases h⟩
    · rw [homit, hnot]
      exact ⟨none, rfl, fun _ => rfl⟩
  | oneOf sources convert =>
    obtain ⟨hstored, hcount⟩ := hmet
    obtain ⟨found, hfound⟩ :
        ∃ found, readSources task stored loc sources = .ok found :=
      readSources_ok hstored hread
    obtain ⟨hlen, _, _⟩ := readSources_found hfound
    unfold readBinding
    match found with
    | [] =>
      rcases hcount with hone | ⟨homit, _⟩
      · rw [hone] at hlen
        cases hlen
      · refine ⟨none, bind_eq_ok.2 ⟨[], hfound, ?_⟩, fun _ => homit⟩
        dsimp only
        rw [if_pos homit]
    | [(s, x)] =>
      exact ⟨some x, bind_eq_ok.2 ⟨_, hfound, rfl⟩, fun h => by cases h⟩
    | _ :: _ :: _ =>
      rcases hcount with hone | ⟨_, hnone⟩
      · rw [hone] at hlen
        cases hlen
      · rw [hnone] at hlen
        cases hlen

omit [F64Text] in
theorem readBinding_some {raw : Value}
    (h : readBinding task stored field loc binding = .ok (some raw)) :
    binding = .literal raw ∨ ∃ s ∈ binding.sources, ReadAt stored s raw := by
  cases binding with
  | literal v =>
    cases h
    exact Or.inl rfl
  | fromTask s convert =>
    refine Or.inr ⟨s, mem_cons_self, ?_⟩
    unfold readBinding at h
    dsimp only at h
    split at h
    · cases h
    · obtain ⟨v, hv, h⟩ := bind_ok h
      cases v with
      | none => cases h
      | some x =>
        cases h
        exact readSource_eq_some.1 hv
  | oneOf sources convert =>
    unfold readBinding at h
    obtain ⟨found, hfound, h⟩ := bind_ok h
    obtain ⟨_, _, hread⟩ := readSources_found hfound
    match found with
    | [] =>
      dsimp only at h
      split at h <;> cases h
    | [(s, x)] =>
      cases h
      obtain ⟨hs, hx⟩ := hread s raw mem_cons_self
      exact Or.inr ⟨s, hs, hx⟩
    | _ :: _ :: _ => cases h

omit [F64Text] in
theorem readBinding_reads (hmet : SourcesMet stored field binding)
    {raw : Option Value}
    (h : readBinding task stored field loc binding = .ok raw)
    (hs : s ∈ binding.sources) (houtput : hasOutput stored s = true) :
    ∃ x, raw = some x ∧ ReadAt stored s x := by
  cases binding with
  | literal v => cases hs
  | fromTask s' convert =>
    cases mem_singleton.1 hs
    obtain ⟨p, hp, hcase⟩ := hmet
    unfold readBinding at h
    dsimp only at h
    rw [hp, any_some] at h
    rcases hcase with ⟨_, hselected⟩ | ⟨_, hskipped, _⟩
    · rw [hselected, Bool.and_false, if_neg Bool.false_ne_true] at h
      obtain ⟨v, hv, h⟩ := bind_ok h
      cases v with
      | none => cases h
      | some x =>
        cases h
        exact ⟨x, rfl, readSource_eq_some.1 hv⟩
    · rw [hasOutput_skipped hp hskipped] at houtput
      cases houtput
  | oneOf sources convert =>
    unfold readBinding at h
    obtain ⟨found, hfound, h⟩ := bind_ok h
    obtain ⟨_, hall, hread⟩ := readSources_found hfound
    obtain ⟨x, hx⟩ := hall s hs houtput
    match found with
    | [] => cases hx
    | [(s', y)] =>
      cases h
      cases mem_singleton.1 hx
      exact ⟨_, rfl, (hread _ _ mem_cons_self).2⟩
    | _ :: _ :: _ => cases h

theorem ReadAt.converts {taskId : TaskId} {lookupLoc : String}
    (hcheck : checkBinding taskId defs field created lookupLoc binding = .ok ())
    (hassert : binding.convert ≠ some .assert)
    (htarget : Checked defs e field.schema) (he : e ≤ maxSchemaDepth + 1)
    (hmet : BindingMet created stored field binding) (hs : s ∈ binding.sources)
    (hx : ReadAt stored s x) :
    Converts defs field.schema binding.convert x := by
  obtain ⟨p₀, tokens, sub, hchecked⟩ := checkBinding_checked hcheck hs
  obtain ⟨p, output, tokens', hp, houtput, htokens, hx⟩ := hx
  have hsame := hmet.same s hs p p₀ hp hchecked.found
  obtain ⟨v, hv⟩ := hmet.valid s hs p hp output houtput
  rw [hchecked.pointer] at htokens
  cases htokens
  obtain ⟨absent, hschema⟩ := hchecked.schema
  rw [hsame] at hv
  have hvalid := validateAt_eq_ok.1 (guard_ok hv).2
  obtain ⟨l, v', hvalid⟩ := hvalid.walk hschema hx
  exact converts_of_check hchecked.converts hassert htarget he hvalid

end Bindings

-- ==== the object

section Object

variable {task : Task} {stored : TaskId → Option Task}
  {fields : List (String × FieldSchema)}
  {bindings : List (String × InputBinding)}

theorem resolveBinding_eq_ok {binding : InputBinding}
    {o : Option (String × Value)}
    (h : resolveBinding task stored fields (name, binding) = .ok o) :
    ∃ field raw, Entries.get fields name = some field
      ∧ readBinding task stored field ("/bindings/" ++ escape name) binding
        = .ok raw
      ∧ ((raw = none ∧ o = none) ∨ ∃ x y, raw = some x
        ∧ convertValue binding.convert x = .ok y ∧ o = some (name, y)) := by
  unfold resolveBinding at h
  dsimp only at h
  split at h
  · cases h
  · rename_i field hfield
    obtain ⟨raw, hraw, h⟩ := bind_ok h
    refine ⟨field, raw, hfield, hraw, ?_⟩
    cases raw with
    | none =>
      cases h
      exact Or.inl ⟨rfl, rfl⟩
    | some x =>
      dsimp only at h
      split at h
      · rename_i y hy
        cases h
        exact Or.inr ⟨x, y, rfl, hy, rfl⟩
      · cases h

variable {outs : List (Option (String × Value))}

/-- What each binding resolved to. -/
abbrev ResolvedTo (task : Task) (stored : TaskId → Option Task)
    (fields : List (String × FieldSchema))
    (bindings : List (String × InputBinding))
    (outs : List (Option (String × Value))) : Prop :=
  List.Forall₂
    (fun entry o => resolveBinding task stored fields entry = .ok o)
    (Entries.iter bindings) outs

variable (houts : ResolvedTo task stored fields bindings outs)

include houts

theorem resolved_mem (h : (name, y) ∈ outs.filterMap id) :
    ∃ binding, Entries.get bindings name = some binding
      ∧ resolveBinding task stored fields (name, binding)
        = .ok (some (name, y)) := by
  obtain ⟨o, ho, heq⟩ := mem_filterMap.1 h
  obtain ⟨⟨name', binding⟩, hentry, hresolved⟩ := forall₂_right houts ho
  dsimp only [id] at heq
  rw [heq] at hresolved
  obtain ⟨_, _, _, _, ⟨_, hnone⟩ | ⟨_, _, _, _, hsome⟩⟩ :=
    resolveBinding_eq_ok hresolved
  · cases hnone
  · cases hsome
    exact ⟨binding, mem_iter.1 hentry, hresolved⟩

theorem resolved_get {binding : InputBinding}
    (hbinding : Entries.get bindings name = some binding)
    (h : resolveBinding task stored fields (name, binding)
      = .ok (some (name, y))) :
    Entries.get (outs.filterMap id) name = some y := by
  obtain ⟨o, ho, hresolved⟩ :=
    forall₂_left houts (mem_iter.2 hbinding)
  rw [h] at hresolved
  cases hresolved
  have hmem : (name, y) ∈ outs.filterMap id :=
    mem_filterMap.2 ⟨_, ho, rfl⟩
  have hkey : name ∈ Entries.keys (outs.filterMap id) :=
    mem_map.2 ⟨_, hmem, rfl⟩
  obtain ⟨y', hy'⟩ :=
    isSome_iff_exists.1 (get_isSome_iff.2 hkey)
  obtain ⟨binding', hbinding', h'⟩ :=
    resolved_mem houts (mem_of_get hy')
  rw [hbinding] at hbinding'
  cases hbinding'
  rw [h] at h'
  cases h'
  exact hy'

theorem resolved_absent {binding : InputBinding}
    (hbinding : Entries.get bindings name = some binding)
    (habsent : Entries.get (outs.filterMap id) name = none) :
    resolveBinding task stored fields (name, binding) = .ok none := by
  obtain ⟨o, _, hresolved⟩ :=
    forall₂_left houts (mem_iter.2 hbinding)
  cases o with
  | none => exact hresolved
  | some entry =>
    obtain ⟨name', y⟩ := entry
    obtain ⟨_, _, _, _, ⟨_, hnone⟩ | ⟨_, _, _, _, hsome⟩⟩ :=
      resolveBinding_eq_ok hresolved
    · cases hnone
    · cases hsome
      rw [resolved_get houts hbinding hresolved] at habsent
      cases habsent

omit houts

end Object

-- ==== the input

section Input

/-- The same of a stop. -/
def InputStop.Excused : InputStop → Prop
  | .failed f => ∃ e, f.typeError = some e ∧ e.Excused
  | .panicked => False

theorem validateTyped_excused {defs : TypeDefs} {schema : TypeSchema}
    (h : OnlyTooDeep (defs.validateAt (maxValueDepth + 1) schema v "")) :
    Fails TypeError.Excused (defs.validateTyped schema v) := by
  refine Fails.bind ?_ fun w hw => ?_
  · refine .ite (fun _ => .error (Or.inr (Or.inl rfl))) fun _ e he => ?_
    exact Or.inl (h e he)
  · obtain ⟨t, ht, _⟩ :=
      (validateAt_eq_ok.1 (guard_ok hw).2).typedAs ""
    exact .of_eq ht

theorem checkInputs_fields [DebugText] {taskId : TaskId} {contract : TaskContract}
    {command : TaskCommand} {place : String} {lookup : TaskId → Option Task}
    (h : checkInputs taskId contract command place lookup = .ok ()) :
    ∃ r, contract.defs.resolve contract.inputSchema = .ok r
      ∧ ((∃ fields, r.kind = .object fields
          ∧ (∀ name ∈ Entries.keys contract.bindings,
            Entries.contains fields name = true)
          ∧ ∀ name field, Entries.get fields name = some field →
            checkField taskId contract place lookup (name, field)
              = .ok ())
        ∨ ((∀ fields, r.kind ≠ .object fields)
          ∧ ∃ w, contract.defs.validate contract.inputSchema .null
            = .ok w)) := by
  obtain ⟨_, h, _⟩ := bind_ok h
  unfold checkBindings at h
  dsimp only at h
  split at h
  · cases h
  · rename_i r hr
    refine ⟨r, hr, ?_⟩
    split at h
    · rename_i fields hkind
      obtain ⟨_, hdeclared, h⟩ := bind_ok h
      refine Or.inl ⟨fields, hkind, fun name hname => ?_,
        fun name field hfield => ?_⟩
      · exact (guard_not_ok (forM_eq_ok.1 hdeclared name hname)).1
      · exact forM_eq_ok.1 h _ (mem_iter.2 hfield)
    · rename_i hkind
      obtain ⟨_, h⟩ := guard_ok h
      refine Or.inr ⟨hkind, ?_⟩
      split at h
      · rename_i w hw
        exact ⟨w, hw⟩
      · cases h

variable {task : Task} {contract : TaskContract} {place : String}
  {created stored : TaskId → Option Task}

/-- Every binding of a declared field. -/
def EachBinding (contract : TaskContract)
    (P : FieldSchema → InputBinding → Prop) : Prop :=
  ∀ r fields, contract.defs.resolve contract.inputSchema = .ok r →
    r.kind = .object fields → ∀ name binding field,
    Entries.get contract.bindings name = some binding →
    Entries.get fields name = some field → P field binding

variable {fields : List (String × FieldSchema)} {field : FieldSchema}

section Accepted

variable {binding : InputBinding} {loc : String}
  (hfield : Entries.get fields name = some field)
  (hcheck : checkBinding task.id contract.defs field created loc binding
    = .ok ()) (hassert : binding.convert ≠ some .assert)
  (htarget : Checked contract.defs e field.schema)
  (he : e ≤ maxSchemaDepth + 1)
  (hmet : BindingMet created stored field binding)
  (hread : Readable stored contract.defs field binding)

include hfield hcheck hassert htarget he hmet hread

/-- An accepted binding that reads what it needs resolves, except for an
integer that no double holds. -/
theorem resolveBinding_excused :
    Fails InputStop.Excused
      (resolveBinding task stored fields (name, binding)) := by
  unfold resolveBinding
  dsimp only
  rw [hfield]
  dsimp only
  obtain ⟨raw, hraw, _⟩ := readBinding_ok task
    ("/bindings/" ++ escape name) hmet.met fun s hs houtput => by
      obtain ⟨x, hx, _⟩ := hread s hs houtput
      exact ⟨x, hx⟩
  refine Fails.bind (.of_eq hraw) fun raw' hraw' => ?_
  rw [hraw] at hraw'
  cases hraw'
  cases raw with
  | none => exact .ok _
  | some x =>
    dsimp only
    split
    · exact .ok _
    · rename_i err herr
      refine .error ⟨err, rfl, ?_⟩
      rcases readBinding_some hraw with rfl | ⟨s, hs, hx⟩
      · cases herr
      · exact (hx.converts hcheck hassert htarget he hmet hs).excused err
          herr

theorem resolveBinding_valid
    (h : resolveBinding task stored fields (name, binding)
      = .ok (some (name, y))) (left : Nat) (path : String) :
    OnlyTooDeep (contract.defs.validateAt left field.schema y path) := by
  obtain ⟨field', raw, hfield', hraw, ⟨_, hnone⟩ | ⟨x, y', rfl, hy, hsome⟩⟩
    := resolveBinding_eq_ok h
  · cases hnone
  · cases hsome
    rw [hfield] at hfield'
    cases hfield'
    rcases readBinding_some hraw with rfl | ⟨s, hs, hx⟩
    · cases hy
      unfold checkBinding at hcheck
      dsimp only at hcheck
      split at hcheck
      · rename_i w hw
        exact (validateAt_eq_ok.1 (guard_ok hw).2).onlyTooDeep
      · cases hcheck
    · obtain ⟨x', hx', hbounds⟩ := hread s hs hx.hasOutput
      cases hx.eq hx'
      exact (hx.converts hcheck hassert htarget he hmet hs).valid y hy
        hbounds left path

end Accepted

theorem checkField_omitted {outs : List (Option (String × Value))}
    (houts : ResolvedTo task stored fields contract.bindings outs)
    (hfield : Entries.get fields name = some field)
    (hcheck : checkField task.id contract place created (name, field) = .ok ())
    (hmet : ∀ binding, Entries.get contract.bindings name = some binding →
      BindingMet created stored field binding
        ∧ Readable stored contract.defs field binding)
    (habsent : Entries.get (outs.filterMap id) name = none) :
    field.mayBeOmitted = true := by
  cases hbinding : Entries.get contract.bindings name with
  | none =>
    unfold checkField at hcheck
    dsimp only at hcheck
    rw [hbinding] at hcheck
    exact (guard_not_ok hcheck).1
  | some binding =>
    obtain ⟨hmet, hread⟩ := hmet binding hbinding
    have hnone := resolved_absent houts hbinding habsent
    obtain ⟨field', raw, hfield', hraw, ⟨rfl, _⟩ | ⟨_, _, _, _, hsome⟩⟩
      := resolveBinding_eq_ok hnone
    · rw [hfield] at hfield'
      cases hfield'
      obtain ⟨raw', hraw', homit⟩ := readBinding_ok task
        ("/bindings/" ++ escape name) hmet.met
        fun s hs houtput => by
          obtain ⟨x, hx, _⟩ := hread s hs houtput
          exact ⟨x, hx⟩
      rw [hraw] at hraw'
      cases hraw'
      exact homit rfl
    · cases hsome

/-- The fields of an accepted task, each with its check. -/
structure FieldsChecked (task : Task) (contract : TaskContract)
    (place : String) (created : TaskId → Option Task)
    (fields : List (String × FieldSchema)) : Prop where
  declared : ∀ name ∈ Entries.keys contract.bindings,
    Entries.contains fields name = true
  field : ∀ name field, Entries.get fields name = some field →
    checkField task.id contract place created (name, field) = .ok ()
  schema : ∀ name field, Entries.get fields name = some field →
    ∃ e, e ≤ maxSchemaDepth + 1 ∧ Checked contract.defs e field.schema
      ∧ ∀ d, field.default = some d →
        ∃ w, Validates contract.defs (maxValueDepth + 1) field.schema d w

theorem FieldsChecked.binding
    (h : FieldsChecked task contract place created fields)
    {binding : InputBinding}
    (hbinding : Entries.get contract.bindings name = some binding) :
    ∃ field, Entries.get fields name = some field
      ∧ checkBinding task.id contract.defs field created
        (place ++ "/bindings/" ++ escape name) binding = .ok () := by
  have hkey : name ∈ Entries.keys contract.bindings :=
    get_isSome_iff.1 (by rw [hbinding]; rfl)
  obtain ⟨field, hfield⟩ :=
    isSome_iff_exists.1 (h.declared name hkey)
  have hcheck := h.field name field hfield
  unfold checkField at hcheck
  dsimp only at hcheck
  rw [hbinding] at hcheck
  exact ⟨field, hfield, hcheck⟩

/-- Bindings as they are met, field by field. -/
abbrev EachField (contract : TaskContract)
    (fields : List (String × FieldSchema))
    (P : FieldSchema → InputBinding → Prop) : Prop :=
  ∀ name binding field, Entries.get contract.bindings name = some binding →
    Entries.get fields name = some field → P field binding

section Fields

variable {fields : List (String × FieldSchema)}
  (hchecked : FieldsChecked task contract place created fields)
  (hassert : EachField contract fields fun _ binding =>
    binding.convert ≠ some .assert)
  (hmet : EachField contract fields (BindingMet created stored))
  {r : ResolvedSchema}
  (hr : contract.defs.resolve contract.inputSchema = .ok r)
  (hkind : r.kind = .object fields)

include hchecked hassert hmet hr hkind

/-- What was resolved was there, and within the bounds. -/
theorem resolveObject_reads {t : TypedValue}
    (h : resolveObject task contract stored fields = .ok t) :
    EachField contract fields (Readable stored contract.defs) := by
  intro name binding field hbinding hfield s hs houtput
  obtain ⟨outs, houts, h⟩ := bind_ok h
  have houts := mapM_eq_ok.1 houts
  have hthis := hmet name binding field hbinding hfield
  obtain ⟨o, _, hresolved⟩ :=
    forall₂_left houts (mem_iter.2 hbinding)
  obtain ⟨field', raw, hfield', hraw, hcase⟩ :=
    resolveBinding_eq_ok hresolved
  rw [hfield] at hfield'
  cases hfield'
  obtain ⟨x, rfl, hx⟩ := readBinding_reads hthis.met hraw hs houtput
  refine ⟨x, hx, ?_⟩
  rcases hcase with ⟨hnone, _⟩ | ⟨_, y, hsome, hy, rfl⟩
  · cases hnone
  · cases hsome
    obtain ⟨field', hfield', hcheck⟩ := hchecked.binding hbinding
    rw [hfield] at hfield'
    cases hfield'
    have hget := resolved_get houts hbinding hresolved
    obtain ⟨e, he, htarget, _⟩ := hchecked.schema name field hfield
    have hconverts := hx.converts hcheck
      (hassert name binding field hbinding hfield) htarget he hthis hs
    split at h
    · rename_i t' ht'
      obtain ⟨w, hw, _⟩ := validateTyped_eq_ok ht'
      obtain ⟨r', hr', hobj⟩ := validateAt_eq_ok.1 (guard_ok hw).2
      rw [hr] at hr'
      cases hr'
      rw [if_neg (by simp [Value.isNull]), hkind] at hobj
      obtain ⟨obj, out, hobj, _, hout, _⟩ := hobj
      cases hobj
      obtain ⟨o, _, hvalid⟩ :=
        forall₂_left hout (mem_iter.2 hfield)
      unfold FieldValid at hvalid
      dsimp only at hvalid
      rw [hget] at hvalid
      obtain ⟨z, hz, _⟩ := hvalid
      exact hconverts.bounds y hy _ "" z (validateAt_eq_ok.2 hz)
    · cases h

/-- With everything there, the resolution fails only as it may. -/
theorem resolveObject_excused
    (hread : EachField contract fields (Readable stored contract.defs)) :
    Fails InputStop.Excused (resolveObject task contract stored fields) := by
  have hbound : ∀ {name binding}, Entries.get contract.bindings name
      = some binding → ∃ field loc e,
        Entries.get fields name = some field ∧ e ≤ maxSchemaDepth + 1
        ∧ checkBinding task.id contract.defs field created loc binding
          = .ok ()
        ∧ Checked contract.defs e field.schema := by
    intro name binding hbinding
    obtain ⟨field, hfield, hcheck⟩ := hchecked.binding hbinding
    obtain ⟨e, he, htarget, _⟩ := hchecked.schema name field hfield
    exact ⟨field, _, e, hfield, he, hcheck, htarget⟩
  refine Fails.bind (.mapM fun entry hentry => ?_) fun outs houts => ?_
  · obtain ⟨name, binding⟩ := entry
    have hbinding := mem_iter.1 hentry
    obtain ⟨field, loc, e, hfield, he, hcheck, htarget⟩ := hbound hbinding
    exact resolveBinding_excused hfield hcheck
      (hassert name binding field hbinding hfield) htarget he
      (hmet name binding field hbinding hfield)
      (hread name binding field hbinding hfield)
  · have houts := mapM_eq_ok.1 houts
    have hobject : OnlyTooDeep (contract.defs.validateAt
        (maxValueDepth + 1) contract.inputSchema
        (.object (outs.filterMap id)) "") := by
      refine Fails.bind
        (.of_eq (TypeDefs.resolveAt_eq_ok.2 hr)) fun r' hr' => ?_
      rw [TypeDefs.resolveAt_eq_ok, hr] at hr'
      cases hr'
      rw [if_neg (by simp [Value.isNull]), hkind]
      refine validateObject_onlyTooDeep contract.inputSchema ?_
        fun name field hfield => ?_
      · intro name hname
        obtain ⟨⟨name, y⟩, hmem, rfl⟩ := mem_map.1 hname
        obtain ⟨binding, hbinding, _⟩ := resolved_mem houts hmem
        obtain ⟨field, _, _, hfield, _⟩ := hbound hbinding
        unfold Entries.contains
        rw [hfield]
        rfl
      · refine validateField_onlyTooDeep ?_ ?_ ?_
        · intro y hy path
          obtain ⟨binding, hbinding, hresolved⟩ :=
            resolved_mem houts (mem_of_get hy)
          obtain ⟨field', loc, e, hfield', he, hcheck, htarget⟩ :=
            hbound hbinding
          rw [hfield] at hfield'
          cases hfield'
          exact resolveBinding_valid hfield hcheck
            (hassert name binding field hbinding hfield) htarget he
            (hmet name binding field hbinding hfield)
            (hread name binding field hbinding hfield) hresolved _ path
        · intro d _ hd path
          obtain ⟨_, _, _, hdefault⟩ := hchecked.schema name field hfield
          obtain ⟨w, hw⟩ := hdefault d hd
          exact hw.onlyTooDeep
        · intro habsent
          refine checkField_omitted houts hfield
            (hchecked.field name field hfield) ?_ habsent
          intro binding hbinding
          exact ⟨hmet name binding field hbinding hfield,
            hread name binding field hbinding hfield⟩
    have hexcused := validateTyped_excused hobject
    split
    · exact .ok _
    · rename_i err herr
      exact .error ⟨_, rfl, hexcused err herr⟩

end Fields

/-- The resolution of an accepted task succeeds exactly when each output
that it reads has something at the pointer, and each integer that it
converts is within the bounds of its field; `hexcused` sets the limits
and the integers that no double holds apart. -/
theorem resolveValue_ok_iff [DebugText]
    (hschema : contract.defs.checkSchemaAt contract.inputSchema
      "/input_schema" = .ok ())
    (hinputs : checkInputs task.id contract task.command place created
      = .ok ())
    (hassert : EachBinding contract fun _ binding =>
      binding.convert ≠ some .assert)
    (hmet : EachBinding contract (BindingMet created stored))
    (hexcused : Fails (fun stop => ¬ stop.Excused)
      (resolveValue task contract stored)) :
    (∃ t, resolveValue task contract stored = .ok t)
      ↔ EachBinding contract (Readable stored contract.defs) := by
  obtain ⟨r, hr, hcases⟩ := checkInputs_fields hinputs
  rcases hcases with ⟨fields, hkind, hdeclared, hfields⟩ | ⟨hother, w, hw⟩
  · have hvalue : resolveValue task contract stored
        = resolveObject task contract stored fields := by
      simp only [resolveValue, hr, hkind]
    have hchecked : FieldsChecked task contract place created fields := by
      refine ⟨hdeclared, hfields, fun name field hfield => ?_⟩
      have hchecked : Checked contract.defs (maxSchemaDepth + 1)
          contract.inputSchema := ⟨_, [], hschema⟩
      obtain ⟨r', c, hr', hlt, hkinds⟩ := hchecked.resolve (Nat.le_refl _)
      rw [hr] at hr'
      cases hr'
      obtain ⟨htarget, hdefault⟩ := hkinds.field hkind hfield
      exact ⟨c, Nat.le_of_lt hlt, htarget, hdefault⟩
    have hassert := hassert r fields hr hkind
    have hmet := hmet r fields hr hkind
    rw [hvalue] at hexcused ⊢
    constructor
    · rintro ⟨t, ht⟩ r' fields' hr' hkind'
      rw [hr] at hr'
      cases hr'
      rw [hkind] at hkind'
      cases hkind'
      exact resolveObject_reads hchecked hassert hmet hr hkind ht
    · intro hread
      have hfails := resolveObject_excused hchecked hassert hmet hr hkind
        (hread r fields hr hkind)
      exact hfails.succeeds hexcused
  · have hvalue : resolveValue task contract stored
        = resolveWhole task contract := by
      unfold resolveValue
      rw [hr]
      dsimp only
      split
      · rename_i fields hkind
        exact absurd hkind (hother fields)
      · rfl
    obtain ⟨t, ht⟩ := validateTyped_succeeds hw
    have hwhole : resolveWhole task contract = .ok t := by
      simp only [resolveWhole, ht]
    rw [← hvalue] at hwhole
    refine ⟨fun _ r' fields' hr' hkind' => ?_, fun _ => ⟨t, hwhole⟩⟩
    rw [hr] at hr'
    cases hr'
    exact absurd hkind' (hother fields')

end Input

end Accepted

-- ==== two outputs

section Outputs

/-- A text layer for what holds no doubles, and no debug texts. -/
local instance plainNumbers : F64Text where
  display _ := ""
  json _ := ""
  parse _ := none

local instance noDebugText : DebugText where
  char _ := ""
  string s := s

/-- An object with a number that may be left out. -/
def countSchema : TypeSchema :=
  .new (.object [("count", optionalField .int64)])

def countContract (input output : Option TypeSchema)
    (bindings : List (String × InputBinding)) : TaskContract :=
  { contractVersion := 2, types := [], inputSchema? := input,
    outputSchema? := output, bindings, inputMapping := none,
    postprocess := none }

/-- A task that succeeded with an output of that type. -/
def counter (output : TypedValue) : Task :=
  { id := "p", command := .custom "count" .null, state := .succeeded,
    result := none, contract := some (countContract none countSchema []),
    typedResult := some
      { hasOutput := true, output
        provenance := ⟨2, "custom", "custom.response"⟩ }
    skip := none }

/-- The input field, which may be left out too, is bound to the number. -/
def countBinding : InputBinding := .fromTask ⟨"p", "/count"⟩ none

def consumerContract : TaskContract :=
  countContract countSchema none [("count", countBinding)]

def consumer : Task :=
  { id := "c", command := .run ["true"] 1 none, state := .ready,
    result := none, contract := some consumerContract,
    typedResult := none, skip := none }

def storedCounter (output : TypedValue) (id : TaskId) : Option Task :=
  if id = "p" then some (counter output) else none

theorem eachBinding_consumer {P : FieldSchema → InputBinding → Prop}
    (h : P (optionalField .int64) countBinding) :
    EachBinding consumerContract P := by
  intro r fields hr hkind name binding field hbinding hfield
  cases hr
  cases hkind
  rw [show consumerContract.bindings = [("count", countBinding)] from rfl,
    get_cons] at hbinding
  split at hbinding
  · rename_i hname
    cases hbinding
    rw [get_cons, if_pos hname] at hfield
    cases hfield
    exact h
  · cases hbinding

theorem bindingMet_counter {output : TypedValue}
    (h : ∃ v, (TypeDefs.mk []).validate countSchema v = .ok output.toInternal) :
    BindingMet (storedCounter output) (storedCounter output)
      (optionalField .int64) countBinding := by
  refine ⟨?_, ?_, ?_⟩
  · intro s hs p p₀ hp hp₀
    rw [hp] at hp₀
    cases hp₀
    rfl
  · intro s hs p hp out hout
    cases mem_singleton.1 hs
    cases hp
    cases hout
    exact h
  · exact ⟨counter output, rfl, Or.inl ⟨rfl, rfl⟩⟩

/-- A counted number reaches the field. -/
theorem resolveValue_ok_iff_counted :
    EachBinding consumerContract (Readable
      (storedCounter (.object [("count", .int64 3)]))
      consumerContract.defs) := by
  have hok : ∃ t, resolveValue consumer consumerContract
      (storedCounter (.object [("count", .int64 3)])) = .ok t := by
    obtain ⟨t, ht, _⟩ := exists_of_check (by decide +kernel :
      (resolveValue consumer consumerContract
        (storedCounter (.object [("count", .int64 3)]))).toOption.any
        (fun _ => true) = true)
    exact ⟨t, ht⟩
  have hinputs : checkInputs consumer.id consumerContract consumer.command
      "" (storedCounter (.object [("count", .int64 3)])) = .ok () := by
    decide +kernel
  have hvalid : ∃ v, (TypeDefs.mk []).validate countSchema v
      = .ok (TypedValue.object [("count", .int64 3)]).toInternal :=
    ⟨.object [("count", .ofI64 3)], rfl⟩
  have hmet := bindingMet_counter hvalid
  refine (resolveValue_ok_iff (by decide +kernel) hinputs
    (eachBinding_consumer (by decide)) (eachBinding_consumer hmet) ?_).1 hok
  obtain ⟨t, ht⟩ := hok
  exact .of_eq ht

/-- An output without the number, accepted by both schemas, fails the
task: the field, which may be left out, is not. -/
theorem resolveValue_fails_absent :
    checkInputs "c" consumerContract consumer.command ""
        (storedCounter (.object [])) = .ok ()
      ∧ consumerContract.defs.checkSchemaAt consumerContract.inputSchema
        "/input_schema" = .ok ()
      ∧ EachBinding consumerContract (fun field binding =>
        field.mayBeOmitted = true ∧ binding.convert = none)
      ∧ EachBinding consumerContract
        (BindingMet (storedCounter (.object []))
          (storedCounter (.object [])))
      ∧ resolveValue consumer consumerContract (storedCounter (.object []))
        = .error (.failed (inputFailure
          "task c: output of task p has nothing at '/count'"
          "/bindings/count")) := by
  refine ⟨by decide +kernel, by decide +kernel,
    eachBinding_consumer (by decide),
    eachBinding_consumer (bindingMet_counter ?_), rfl⟩
  exact ⟨.object [], rfl⟩

end Outputs

end Tasty.Agent
