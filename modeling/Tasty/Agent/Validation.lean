/-
What it means that a value has a type, without paths and error texts, and
that `validate_at` decides it. The depth limits are kept apart: `Fits` is
the part of a validation they make, defaults included.
-/
import Tasty.Agent.Types

namespace Tasty.Agent

open List

-- ==== resolution

namespace TypeDefs

variable {defs : TypeDefs}

end TypeDefs

-- ==== the meaning

variable [F64Text]

/-- A field of a valid object: its value, the default, or nothing. -/
def FieldValid (V : TypeSchema → Value → Value → Prop)
    (obj : List (String × Value)) (entry : String × FieldSchema)
    (out : Option (String × Value)) : Prop :=
  match Entries.get obj entry.1 with
  | some v => ∃ w, V entry.2.schema v w ∧ out = some (entry.1, w)
  | none =>
    match entry.2.default with
    | some d => ∃ w, V entry.2.schema d w ∧ out = some (entry.1, w)
    | none => entry.2.optional = true ∧ out = none

/-- `w` is the validated form of `v` at a kind; `V` is validity one level
down, `left` the levels that may follow. -/
def KindValid (V : TypeSchema → Value → Value → Prop) (left : Nat) :
    TypeKind → Value → Value → Prop
  | .boolean, v, w => ∃ b, v = .bool b ∧ w = v
  | .int64, v, w => ∃ i, int64Of v = .ok i ∧ w = .ofI64 i
  | .float64 min max, v, w => ∃ n f, v = .number n ∧ floatOf n = some f
      ∧ f.isFinite = true ∧ (min.any f.lt || max.any (·.lt f)) = false
      ∧ w = v
  | .string maxLen, v, w => ∃ s, v = .string s
      ∧ (maxLen.any fun n => n.toNat < s.toList.length) = false ∧ w = v
  | .enum values, v, w => ∃ s, v = .string s ∧ s ∈ values ∧ w = v
  | .object fields, v, w => ∃ obj out, v = .object obj
      ∧ (∀ k ∈ Entries.keys obj, Entries.contains fields k = true)
      ∧ List.Forall₂ (FieldValid V obj) (Entries.iter fields) out
      ∧ w = .object (out.filterMap id)
  | .list items maxLen, v, w => ∃ arr out, v = .array arr
      ∧ (maxLen.any fun n => n.toNat < arr.length) = false
      ∧ List.Forall₂ (V items) arr out ∧ w = .array out
  | .unit, v, w => v = .null ∧ w = .null
  | .json, v, w => v.depth ≤ left ∧ w = v
  | .ref _, _, _ => False

/-- `w` is the validated form of `v` with `left` levels to go. -/
def Validates (defs : TypeDefs) : Nat → TypeSchema → Value → Value → Prop
  | 0, _, _, _ => False
  | left + 1, schema, v, w => ∃ r, defs.resolve schema = .ok r
      ∧ if v.isNull && !r.kind.takesNull then
          r.nullable = true ∧ w = .null
        else KindValid (Validates defs left) left r.kind v w

variable {obj : List (String × Value)} {entry : String × FieldSchema}

section Kinds

variable {part : ValidatePart} {V : TypeSchema → Value → Value → Prop}
  {schema items : TypeSchema} {v w : Value} {path : String}

theorem validateInt64_eq_ok :
    validateInt64 schema v path = .ok w
      ↔ ∃ i, int64Of v = .ok i ∧ w = .ofI64 i := by
  unfold validateInt64
  split
  · rename_i i hi
    rw [hi]
    constructor
    · intro h
      cases h
      exact ⟨i, rfl, rfl⟩
    · rintro ⟨_, h, rfl⟩
      cases h
      rfl
  all_goals
    rename_i hfail
    rw [hfail]
    constructor
    · intro h
      cases h
    · rintro ⟨_, h, _⟩
      cases h

theorem validateFloat64_eq_ok {min max : Option F64} :
    validateFloat64 schema min max v path = .ok w
      ↔ ∃ n f, v = .number n ∧ floatOf n = some f ∧ f.isFinite = true
        ∧ (min.any f.lt || max.any (·.lt f)) = false ∧ w = v := by
  unfold validateFloat64
  split
  · rename_i n
    split
    · rename_i hnone
      constructor
      · intro h
        cases h
      · rintro ⟨_, _, h, hf, _⟩
        cases h
        rw [hnone] at hf
        cases hf
    · rename_i f hf
      rw [guard_eq_ok, guard_eq_ok, Bool.not_eq_false, Bool.not_eq_true]
      constructor
      · rintro ⟨hfinite, hbounds, h⟩
        cases h
        exact ⟨n, f, rfl, hf, hfinite, hbounds, rfl⟩
      · rintro ⟨_, _, h, hf', hfinite, hbounds, rfl⟩
        cases h
        rw [hf] at hf'
        cases hf'
        exact ⟨hfinite, hbounds, rfl⟩
  · rename_i hother
    constructor
    · intro h
      cases h
    · rintro ⟨n, _, rfl, _⟩
      exact absurd rfl (hother n)

variable {maxLen : Option UInt32}

theorem validateString_eq_ok :
    validateString schema maxLen v path = .ok w
      ↔ ∃ s, v = .string s
        ∧ (maxLen.any fun n => n.toNat < s.toList.length) = false ∧ w = v := by
  unfold validateString
  split
  · rename_i s
    rw [guard_eq_ok, Bool.not_eq_true]
    constructor
    · rintro ⟨hlen, h⟩
      cases h
      exact ⟨s, rfl, hlen, rfl⟩
    · rintro ⟨_, h, hlen, rfl⟩
      cases h
      exact ⟨hlen, rfl⟩
  · rename_i hother
    constructor
    · intro h
      cases h
    · rintro ⟨s, rfl, _⟩
      exact absurd rfl (hother s)

theorem validateEnum_eq_ok {values : List String} :
    validateEnum schema values v path = .ok w
      ↔ ∃ s, v = .string s ∧ s ∈ values ∧ w = v := by
  unfold validateEnum
  split
  · rename_i s
    rw [guard_not_eq_ok, contains_iff_mem]
    constructor
    · rintro ⟨hmem, h⟩
      cases h
      exact ⟨s, rfl, hmem, rfl⟩
    · rintro ⟨_, h, hmem, rfl⟩
      cases h
      exact ⟨hmem, rfl⟩
  · rename_i hother
    constructor
    · intro h
      cases h
    · rintro ⟨s, rfl, _⟩
      exact absurd rfl (hother s)

variable (hpart : ∀ s v w path, part s v path = .ok w ↔ V s v w)

include hpart

theorem validateField_eq_ok
        {out : Option (String × Value)} :
    validateField part obj path entry = .ok out
      ↔ FieldValid V obj entry out := by
  obtain ⟨name, field⟩ := entry
  unfold validateField FieldValid
  dsimp only
  have hone : ∀ {x : Value},
      (part field.schema x (childPath path name) >>= fun w =>
        (.ok (some (name, w)) : Typed (Option (String × Value)))) = .ok out
      ↔ ∃ w, V field.schema x w ∧ out = some (name, w) := by
    intro x
    rw [bind_eq_ok]
    constructor
    · rintro ⟨w, hw, h⟩
      cases h
      exact ⟨w, (hpart ..).1 hw, rfl⟩
    · rintro ⟨w, hw, rfl⟩
      exact ⟨w, (hpart ..).2 hw, rfl⟩
  cases Entries.get obj name with
  | some v => exact hone
  | none =>
    cases field.default with
    | some d => exact hone
    | none =>
      dsimp only
      rw [guard_not_eq_ok, Except.ok.injEq]
      exact and_congr_right fun _ => eq_comm

theorem validateObject_eq_ok {fields : List (String × FieldSchema)} :
    validateObject part schema fields v path = .ok w
      ↔ ∃ obj out, v = .object obj
        ∧ (∀ k ∈ Entries.keys obj, Entries.contains fields k = true)
        ∧ List.Forall₂ (FieldValid V obj) (Entries.iter fields) out
        ∧ w = .object (out.filterMap id) := by
  unfold validateObject
  split
  · rename_i obj
    split
    · rename_i extra hextra
      constructor
      · intro h
        cases h
      · rintro ⟨_, _, h, hdeclared, _⟩
        cases h
        have hmem := mem_of_find?_eq_some hextra
        have hbad := List.find?_some hextra
        rw [hdeclared extra hmem] at hbad
        cases hbad
    · rename_i hnone
      have hdeclared : ∀ k ∈ Entries.keys obj,
          Entries.contains fields k = true := by
        intro k hk
        have h := List.find?_eq_none.1 hnone k hk
        simpa using h
      rw [bind_eq_ok]
      constructor
      · rintro ⟨out, hout, h⟩
        cases h
        refine ⟨obj, out, rfl, hdeclared, ?_, rfl⟩
        exact (mapM_eq_ok.1 hout).imp fun _ _ h =>
          (validateField_eq_ok hpart).1 h
      · rintro ⟨_, out, h, _, hout, rfl⟩
        cases h
        refine ⟨out, mapM_eq_ok.2 ?_, rfl⟩
        exact hout.imp fun _ _ h => (validateField_eq_ok hpart).2 h
  · rename_i hother
    constructor
    · intro h
      cases h
    · rintro ⟨obj, _, rfl, _⟩
      exact absurd rfl (hother obj)

theorem validateList_eq_ok
    :
    validateList part schema items maxLen v path = .ok w
      ↔ ∃ arr out, v = .array arr
        ∧ (maxLen.any fun n => n.toNat < arr.length) = false
        ∧ List.Forall₂ (V items) arr out ∧ w = .array out := by
  have hitems : ∀ {arr out : List Value} {n : Nat},
      List.Forall₂ (fun (a : Value × Nat) b =>
        part items a.1 (childPath path (toString a.2)) = .ok b)
        (arr.zipIdx n) out ↔ List.Forall₂ (V items) arr out := by
    intro arr
    induction arr with
    | nil =>
      intro out n
      rw [zipIdx_nil, forall₂_nil_left_iff, forall₂_nil_left_iff]
    | cons v arr ih =>
      intro out n
      rw [zipIdx_cons, forall₂_cons_left_iff, forall₂_cons_left_iff]
      constructor
      · rintro ⟨b, u, hb, hu, rfl⟩
        exact ⟨b, u, (hpart ..).1 hb, ih.1 hu, rfl⟩
      · rintro ⟨b, u, hb, hu, rfl⟩
        exact ⟨b, u, (hpart ..).2 hb, ih.2 hu, rfl⟩
  unfold validateList
  split
  · rename_i arr
    rw [guard_eq_ok, Bool.not_eq_true, bind_eq_ok]
    constructor
    · rintro ⟨hlen, out, hout, h⟩
      cases h
      exact ⟨arr, out, rfl, hlen, hitems.1 (mapM_eq_ok.1 hout), rfl⟩
    · rintro ⟨_, out, h, hlen, hout, rfl⟩
      cases h
      exact ⟨hlen, out, mapM_eq_ok.2 (hitems.2 hout), rfl⟩
  · rename_i hother
    constructor
    · intro h
      cases h
    · rintro ⟨arr, _, rfl, _⟩
      exact absurd rfl (hother arr)

theorem validateKind_eq_ok {left : Nat} {kind : TypeKind} :
    validateKind part left schema v path kind = .ok w
      ↔ KindValid V left kind v w := by
  cases kind with
  | boolean =>
    unfold validateKind KindValid
    cases v <;> simp [eq_comm]
  | int64 => exact validateInt64_eq_ok
  | float64 min max => exact validateFloat64_eq_ok
  | string maxLen => exact validateString_eq_ok
  | enum values => exact validateEnum_eq_ok
  | object fields => exact validateObject_eq_ok hpart
  | list items maxLen => exact validateList_eq_ok hpart
  | unit =>
    unfold validateKind KindValid
    cases v <;> simp [Value.isNull, eq_comm]
  | json =>
    unfold validateKind KindValid
    rw [guard_eq_ok, Nat.not_lt, Except.ok.injEq]
    exact and_congr_right fun _ => eq_comm
  | ref name =>
    unfold validateKind KindValid
    simp

omit hpart

end Kinds

variable {left : Nat}

theorem validateAt_eq_ok {defs : TypeDefs} {schema : TypeSchema}
    {v w : Value} {path : String} :
    defs.validateAt left schema v path = .ok w
      ↔ Validates defs left schema v w := by
  induction left generalizing schema v w path with
  | zero =>
    unfold TypeDefs.validateAt Validates
    simp
  | succ left ih =>
    unfold TypeDefs.validateAt Validates
    rw [bind_eq_ok]
    refine exists_congr fun r => and_congr TypeDefs.resolveAt_eq_ok ?_
    · split
      · rw [guard_not_eq_ok, Except.ok.injEq]
        exact and_congr_right fun _ => eq_comm
      · have hpart : ∀ s v w path, defs.validateAt left s v path = .ok w
            ↔ Validates defs left s v w := fun _ _ _ _ => ih
        exact validateKind_eq_ok hpart

-- ==== the depth limits

section Limits

variable {defs : TypeDefs}

/-- The error is a depth limit. -/
def TypeError.IsTooDeep (e : TypeError) : Prop := e.kind = .tooDeep

/-- A field is within the limits when its value is, or its default. -/
def FieldFits (F : TypeSchema → Value → Prop)
    (obj : List (String × Value)) (entry : String × FieldSchema) : Prop :=
  match Entries.get obj entry.1 with
  | some v => F entry.2.schema v
  | none => ∀ d, entry.2.default = some d → F entry.2.schema d

/-- The limits on the parts of a value. -/
def KindFits (F : TypeSchema → Value → Prop) (left : Nat) :
    TypeKind → Value → Prop
  | .object fields, .object obj =>
    ∀ entry ∈ Entries.iter fields, FieldFits F obj entry
  | .list items _, .array arr => ∀ v ∈ arr, F items v
  | .json, v => v.depth ≤ left
  | _, _ => True

/-- The value, with the defaults it leaves out, is within the depth
limits. -/
def Fits (defs : TypeDefs) : Nat → TypeSchema → Value → Prop
  | 0, _, _ => False
  | left + 1, schema, v => ∀ r, defs.resolve schema = .ok r →
      (v.isNull && !r.kind.takesNull) = false →
      KindFits (Fits defs left) left r.kind v

/-- What validates is within the limits. -/
theorem Validates.fits {schema : TypeSchema} {v w : Value}
    (h : Validates defs left schema v w) : Fits defs left schema v := by
  induction left generalizing schema v w with
  | zero => exact h
  | succ left ih =>
    intro r hr hnull
    obtain ⟨r', hr', h⟩ := h
    rw [hr] at hr'
    cases hr'
    rw [hnull, if_neg Bool.false_ne_true] at h
    cases hkind : r.kind with
    | object fields =>
      rw [hkind] at h
      obtain ⟨obj, out, rfl, _, hout, _⟩ := h
      intro entry hentry
      obtain ⟨o, _, hvalid⟩ := forall₂_left hout hentry
      unfold FieldFits
      unfold FieldValid at hvalid
      cases hget : Entries.get obj entry.1 with
      | some x =>
        rw [hget] at hvalid
        obtain ⟨y, hy, _⟩ := hvalid
        exact ih hy
      | none =>
        rw [hget] at hvalid
        intro d hd
        rw [hd] at hvalid
        obtain ⟨y, hy, _⟩ := hvalid
        exact ih hy
    | list items maxLen =>
      rw [hkind] at h
      obtain ⟨arr, out, rfl, _, hout, _⟩ := h
      intro x hx
      obtain ⟨y, _, hy⟩ := forall₂_left hout hx
      exact ih hy
    | json =>
      rw [hkind] at h
      exact h.1
    | _ => trivial

/-- The error is none of the depth limits. -/
abbrev NotTooDeep {α : Type} (x : Typed α) : Prop :=
  Fails (fun e => ¬ e.IsTooDeep) x

omit [F64Text] in
theorem notTooDeep_error {α : Type} {e : TypeError}
    (h : e.kind ≠ .tooDeep) : NotTooDeep (.error e : Typed α) :=
  .error h

theorem int64Of_notTooDeep {v : Value} {kind : TypeErrorKind}
    (h : int64Of v = .error kind) : kind ≠ .tooDeep := by
  unfold int64Of at h
  split at h
  · split at h
    · split at h <;> cases h
      simp
    · split at h <;> cases h <;> simp
  · split at h
    · cases h
    · split at h
      · split at h <;> cases h <;> simp
      · cases h
        simp
  · cases h
    simp

omit [F64Text] in
theorem resolveAt_notTooDeep {schema : TypeSchema} {path : String} :
    NotTooDeep (defs.resolveAt schema path) := by
  have hloop : ∀ (left : Nat) (cur : TypeSchema) (nullable : Bool),
      NotTooDeep (defs.resolveFrom left cur nullable) := by
    intro left
    induction left with
    | zero =>
      intro cur nullable
      unfold TypeDefs.resolveFrom
      split
      · exact notTooDeep_error (by simp)
      · exact .ok _
    | succ left ih =>
      intro cur nullable
      unfold TypeDefs.resolveFrom
      split
      · dsimp only
        split
        · exact notTooDeep_error (by simp)
        · exact ih _ _
      · exact .ok _
  unfold TypeDefs.resolveAt
  split
  · exact .ok _
  · rename_i e he
    exact notTooDeep_error (hloop _ _ _ e he)

section

variable {part : ValidatePart} {F : TypeSchema → Value → Prop}
  {schema : TypeSchema} {v : Value} {path : String}

theorem validateField_notTooDeep
    (hpart : ∀ s v path, F s v → NotTooDeep (part s v path))
        (h : FieldFits F obj entry) :
    NotTooDeep (validateField part obj path entry) := by
  obtain ⟨name, field⟩ := entry
  unfold FieldFits at h
  unfold validateField
  dsimp only at h ⊢
  cases hget : Entries.get obj name with
  | some x =>
    rw [hget] at h
    exact (hpart _ _ _ h).bind fun _ _ => .ok _
  | none =>
    rw [hget] at h
    cases hdefault : field.default with
    | some d => exact (hpart _ _ _ (h d hdefault)).bind fun _ _ => .ok _
    | none =>
      exact .ite (fun _ => .ok _) fun _ => notTooDeep_error (by simp)

theorem validateKind_notTooDeep
    (hpart : ∀ s v path, F s v → NotTooDeep (part s v path))
    {kind : TypeKind} (h : KindFits F left kind v) :
    NotTooDeep (validateKind part left schema v path kind) := by
  have hother : NotTooDeep (.error (typeMismatch schema v path)
      : Typed Value) := notTooDeep_error (by simp [typeMismatch])
  cases kind with
  | boolean =>
    unfold validateKind
    dsimp only
    split
    · exact .ok _
    · exact hother
  | int64 =>
    show NotTooDeep (validateInt64 schema v path)
    unfold validateInt64
    split
    · exact .ok _
    · exact notTooDeep_error (by simp)
    · rename_i kind hkind
      exact notTooDeep_error (int64Of_notTooDeep hkind)
  | float64 min max =>
    show NotTooDeep (validateFloat64 schema min max v path)
    unfold validateFloat64
    split
    · split
      · exact notTooDeep_error (by simp)
      · refine .ite (fun _ => notTooDeep_error (by simp)) fun _ => ?_
        exact .ite (fun _ => notTooDeep_error (by simp)) fun _ => .ok _
    · exact hother
  | string maxLen =>
    show NotTooDeep (validateString schema maxLen v path)
    unfold validateString
    split
    · exact .ite (fun _ => notTooDeep_error (by simp)) fun _ => .ok _
    · exact hother
  | enum values =>
    show NotTooDeep (validateEnum schema values v path)
    unfold validateEnum
    split
    · exact .ite (fun _ => .ok _) fun _ => notTooDeep_error (by simp)
    · exact hother
  | object fields =>
    show NotTooDeep (validateObject part schema fields v path)
    unfold validateObject
    split
    · split
      · exact notTooDeep_error (by simp)
      · refine Fails.bind (.mapM fun entry hentry => ?_) fun _ _ => .ok _
        exact validateField_notTooDeep hpart (h entry hentry)
    · exact hother
  | list items maxLen =>
    show NotTooDeep (validateList part schema items maxLen v path)
    unfold validateList
    split
    · refine .ite (fun _ => notTooDeep_error (by simp)) fun _ => ?_
      refine Fails.bind (.mapM fun entry hentry => ?_) fun _ _ => .ok _
      exact hpart _ _ _ (h entry.1 (fst_mem_of_mem_zipIdx hentry))
    · exact hother
  | unit =>
    unfold validateKind
    exact .ite (fun _ => .ok _) fun _ => hother
  | json =>
    unfold validateKind
    exact .ite (fun hdeep => absurd h (Nat.not_le.2 hdeep)) fun _ => .ok _
  | ref name => exact hother

end

/-- Within the limits no limit is met. -/
theorem Fits.notTooDeep {schema : TypeSchema} {v : Value}
    (h : Fits defs left schema v) (path : String) :
    NotTooDeep (defs.validateAt left schema v path) := by
  induction left generalizing schema v path with
  | zero => exact h.elim
  | succ left ih =>
    unfold TypeDefs.validateAt
    refine resolveAt_notTooDeep.bind fun r hr => ?_
    refine .ite (fun _ => ?_) fun hnull => ?_
    · exact .ite (fun _ => .ok _) fun _ => notTooDeep_error (by simp)
    · exact validateKind_notTooDeep (fun _ _ path h => ih h path)
        (h r (TypeDefs.resolveAt_eq_ok.1 hr) (Bool.not_eq_true _ ▸ hnull))

end Limits

end Tasty.Agent
