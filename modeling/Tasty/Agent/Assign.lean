/-
Assignability (`crates/tasty-agent/src/task/types/assign.rs`): which
outputs an input field takes without a conversion.

It is sound up to the depth limits: what validates under the source fails
under the target only for being too deep, and only a default that the
target fills in can be. `check` measures a default as a whole value; it is
filled in one or more levels down.
-/
import Tasty.Agent.Validation

namespace Tasty.Agent

open TypeDefs Entries List

section

variable [F64Text]

-- ==== the definition

/-- The target has no lower bound, or one the source's is not below. -/
def lowerCovered (src dst : Option F64) : Bool :=
  match src, dst with
  | _, none => true
  | some s, some d => d.le s
  | none, some _ => false

def upperCovered (src dst : Option F64) : Bool :=
  match src, dst with
  | _, none => true
  | some s, some d => s.le d
  | none, some _ => false

/-- A length bound of the target that covers the source's. -/
def lengthCovered (src dst : Option UInt32) : Bool :=
  match src, dst with
  | _, none => true
  | some s, some d => s ≤ d
  | none, some _ => false

/-- `Incompatible`, with both types. -/
def incompatible (src dst : TypeSchema) (path : String) : TypeError :=
  ⟨.incompatible, path, dst.describe, src.describe⟩

/-- Assignability of a part, one level down. -/
abbrev AssignPart := TypeSchema → TypeSchema → String → Typed Unit

/-- One field of the target. -/
def assignField (part : AssignPart) (sfields : List (String × FieldSchema))
    (path : String) : String × FieldSchema → Typed Unit
  | (name, dfield) =>
    let fpath := childPath path name
    match Entries.get sfields name with
    | some sfield =>
      -- a source field with a default is always there after validation
      if sfield.mayBeAbsent && !dfield.optional
          && dfield.default.isNone then
        .error ⟨.missingField, fpath, dfield.schema.describe,
          "optional field"⟩
      else part sfield.schema dfield.schema fpath
    | none =>
      if dfield.mayBeOmitted then .ok ()
      else .error ⟨.missingField, fpath, dfield.schema.describe,
        "absent"⟩

/-- The kinds of two resolved schemas. -/
def assignKind (part : AssignPart) (src dst : TypeSchema) (path : String) :
    TypeKind → TypeKind → Typed Unit
  | .boolean, .boolean | .int64, .int64 | .unit, .unit => .ok ()
  | .float64 smin smax, .float64 dmin dmax =>
    if lowerCovered smin dmin && upperCovered smax dmax then .ok ()
    else .error (incompatible src dst path)
  | .string slen, .string dlen =>
    if lengthCovered slen dlen then .ok ()
    else .error (incompatible src dst path)
  | .enum svalues, .enum dvalues =>
    if svalues.all dvalues.contains then .ok ()
    else .error (incompatible src dst path)
  | .list sitems slen, .list ditems dlen =>
    if lengthCovered slen dlen then
      part sitems ditems (childPath path "items")
    else .error (incompatible src dst path)
  | .object sfields, .object dfields =>
    match (Entries.keys sfields).find?
        fun k => !Entries.contains dfields k with
    | some extra => .error ⟨.unexpectedField, childPath path extra,
        "no field outside the target type (project it explicitly)",
        s!"field \"{extra}\""⟩
    | none => (Entries.iter dfields).forM (assignField part sfields path)
  | _, _ => .error (incompatible src dst path)

def TypeKind.isJson : TypeKind → Bool
  | .json => true
  | _ => false

/-- `assignable_at`. -/
def assignableAt (sd dd : TypeDefs) :
    Nat → TypeSchema → TypeSchema → String → Typed Unit
  | 0, _, _, path => .error (schemaTooDeep path)
  | left + 1, src, dst, path => do
      let s ← sd.resolve src
      let d ← dd.resolve dst
      if d.kind.isJson then .ok ()
      else if s.nullable && !d.nullable then
        .error (incompatible src dst path)
      else assignKind (assignableAt sd dd left) src dst path s.kind d.kind

/-- Every value of `src` is one of `dst`; nothing is converted or
dropped. -/
def checkAssignable (sd : TypeDefs) (src : TypeSchema) (dd : TypeDefs)
    (dst : TypeSchema) : Typed Unit :=
  assignableAt sd dd (maxSchemaDepth + 1) src dst ""

-- ==== declared schemas

variable {name : String} {maxLen : Option UInt32}

section Checked

variable {defs : TypeDefs} {left : Nat} {schema : TypeSchema}
  {fields : List (String × FieldSchema)}

/-- The schema passes the declaration check with `left` levels to go. -/
def Checked (defs : TypeDefs) (left : Nat) (schema : TypeSchema) : Prop :=
  ∃ path stack, defs.checkSchema left schema path stack = .ok ()

theorem Checked.pos (h : Checked defs left schema) : 0 < left := by
  obtain ⟨path, stack, h⟩ := h
  cases left with
  | zero => cases h
  | succ left => exact Nat.succ_pos left

theorem Checked.ref (h : Checked defs (left + 1) schema)
    (hkind : schema.kind = .ref name) :
    ∃ target, Entries.get defs.types name = some target
      ∧ Checked defs left target := by
  obtain ⟨path, stack, h⟩ := h
  unfold checkSchema at h
  rw [hkind] at h
  dsimp only at h
  split at h
  · cases h
  · rename_i target htarget
    obtain ⟨_, h⟩ := guard_ok h
    exact ⟨target, htarget, path, _, h⟩

theorem Checked.field (h : Checked defs (left + 1) schema)
    (hkind : schema.kind = .object fields)
    {field : FieldSchema} (hget : Entries.get fields name = some field) :
    Checked defs left field.schema
      ∧ ∀ d, field.default = some d →
        ∃ w, Validates defs (maxValueDepth + 1) field.schema d w := by
  obtain ⟨path, stack, h⟩ := h
  unfold checkSchema at h
  rw [hkind] at h
  have hone := forM_eq_ok.1 h _ (mem_iter.2 hget)
  obtain ⟨_, hschema, hdefault⟩ := bind_ok hone
  refine ⟨⟨_, stack, hschema⟩, fun d hd => ?_⟩
  unfold checkDefault at hdefault
  rw [hd] at hdefault
  obtain ⟨w, hw, _⟩ := bind_ok hdefault
  exact ⟨w, validateAt_eq_ok.1 hw⟩

theorem Checked.items (h : Checked defs (left + 1) schema) {items : TypeSchema}
    (hkind : schema.kind = .list items maxLen) : Checked defs left items := by
  obtain ⟨path, stack, h⟩ := h
  unfold checkSchema at h
  rw [hkind] at h
  exact ⟨_, stack, h⟩

theorem Checked.congr {schema' : TypeSchema} (h : Checked defs left schema)
    (hkind : schema.kind = schema'.kind) : Checked defs left schema' := by
  obtain ⟨path, stack, h⟩ := h
  refine ⟨path, stack, ?_⟩
  cases left with
  | zero => cases h
  | succ left =>
    unfold checkSchema at h ⊢
    rwa [← hkind]

theorem Checked.resolve (h : Checked defs left schema)
    (hleft : left ≤ maxSchemaDepth + 1) :
    ∃ r left', defs.resolve schema = .ok r ∧ left' < left
      ∧ Checked defs (left' + 1) ⟨r.kind, r.nullable⟩ := by
  have hloop : ∀ (hops left : Nat) (cur : TypeSchema) (nullable : Bool),
      Checked defs left cur → left ≤ hops + 1 →
      ∃ r left', defs.resolveFrom hops cur nullable = .ok r ∧ left' < left
        ∧ Checked defs (left' + 1) ⟨r.kind, r.nullable⟩ := by
    intro hops
    induction hops with
    | zero =>
      intro left cur nullable h hleft
      obtain ⟨left', rfl⟩ := Nat.exists_eq_add_one.2 h.pos
      unfold resolveFrom
      cases hkind : cur.kind with
      | ref name =>
        obtain ⟨target, _, htarget⟩ := h.ref hkind
        have := htarget.pos
        omega
      | _ =>
        exact ⟨_, left', rfl, Nat.lt_succ_self left', h.congr hkind⟩
    | succ hops ih =>
      intro left cur nullable h hleft
      obtain ⟨left', rfl⟩ := Nat.exists_eq_add_one.2 h.pos
      unfold resolveFrom
      cases hkind : cur.kind with
      | ref name =>
        obtain ⟨target, hget, htarget⟩ := h.ref hkind
        dsimp only
        rw [hget]
        obtain ⟨r, left'', hr, hlt, hchecked⟩ :=
          ih left' target _ htarget (by omega)
        exact ⟨r, left'', hr, by omega, hchecked⟩
      | _ =>
        exact ⟨_, left', rfl, Nat.lt_succ_self left', h.congr hkind⟩
  exact hloop _ _ _ _ h hleft

end Checked

-- ==== only the depth limits

/-- Its only errors are depth limits. -/
abbrev OnlyTooDeep {α : Type} (x : Typed α) : Prop :=
  Fails TypeError.IsTooDeep x

theorem int64Of_ofI64 (i : Int64) : int64Of (.ofI64 i) = .ok i := by
  unfold int64Of Value.ofI64
  dsimp only
  rw [Number.asI64_ofI64]

section Fields

omit [F64Text]

variable {V : TypeSchema → Value → Value → Prop}
  {obj : List (String × Value)} {fields : List (String × FieldSchema)}
  {out : List (Option (String × Value))} {name : String}

variable (hout : List.Forall₂ (FieldValid V obj) (Entries.iter fields) out)

include hout

theorem validated_mem {w : Value} (h : (name, w) ∈ out.filterMap id) :
    ∃ field v, Entries.get fields name = some field ∧ V field.schema v w := by
  obtain ⟨o, ho, heq⟩ := mem_filterMap.1 h
  obtain ⟨⟨name', field⟩, hentry, hvalid⟩ := forall₂_right hout ho
  have hget := mem_iter.1 hentry
  unfold FieldValid at hvalid
  dsimp only [id] at heq hvalid
  rw [heq] at hvalid
  have hone : ∀ {x : Value}, (∃ y, V field.schema x y
      ∧ some (name, w) = some (name', y)) →
      ∃ field v, Entries.get fields name = some field
        ∧ V field.schema v w := by
    rintro x ⟨y, hy, heq⟩
    cases heq
    exact ⟨field, x, hget, hy⟩
  cases hobj : Entries.get obj name' with
  | some x =>
    rw [hobj] at hvalid
    exact hone hvalid
  | none =>
    rw [hobj] at hvalid
    cases hdefault : field.default with
    | some d =>
      rw [hdefault] at hvalid
      exact hone hvalid
    | none =>
      rw [hdefault] at hvalid
      cases hvalid.2

theorem validated_absent
    {field : FieldSchema} (hget : Entries.get fields name = some field)
    (habsent : Entries.get (out.filterMap id) name = none) :
    field.mayBeAbsent = true := by
  obtain ⟨o, ho, hvalid⟩ := forall₂_left hout (mem_iter.2 hget)
  have hno : ∀ {x : Value}, ¬ ∃ y, V field.schema x y
      ∧ o = some (name, y) := by
    rintro x ⟨y, _, rfl⟩
    have hmem : name ∈ Entries.keys (out.filterMap id) :=
      mem_map.2 ⟨(name, y), mem_filterMap.2 ⟨_, ho, rfl⟩, rfl⟩
    have hthere := get_isSome_iff.2 hmem
    rw [habsent] at hthere
    cases hthere
  unfold FieldValid at hvalid
  dsimp only at hvalid
  cases hobj : Entries.get obj name with
  | some x =>
    rw [hobj] at hvalid
    exact absurd hvalid hno
  | none =>
    rw [hobj] at hvalid
    cases hdefault : field.default with
    | some d =>
      rw [hdefault] at hvalid
      exact absurd hvalid hno
    | none =>
      rw [hdefault] at hvalid
      unfold FieldSchema.mayBeAbsent
      rw [hvalid.1, hdefault]
      rfl

theorem validated_declared (h : name ∈ Entries.keys (out.filterMap id)) :
    Entries.contains fields name = true := by
  obtain ⟨⟨name, w⟩, hmem, rfl⟩ := mem_map.1 h
  obtain ⟨field, _, hget, _⟩ := validated_mem hout hmem
  unfold Entries.contains
  rw [hget]
  rfl

omit hout

end Fields

section Parts

variable {part : ValidatePart} {path : String}

variable {obj : List (String × Value)}

theorem validateObject_onlyTooDeep (schema : TypeSchema)
    {fields : List (String × FieldSchema)}
    (hdeclared : ∀ k ∈ Entries.keys obj, Entries.contains fields k = true)
    (hfields : ∀ name field, Entries.get fields name = some field →
      OnlyTooDeep (validateField part obj path (name, field))) :
    OnlyTooDeep (validateObject part schema fields (.object obj) path) := by
  unfold validateObject
  dsimp only
  split
  · rename_i extra hextra
    have hbad := List.find?_some hextra
    rw [hdeclared extra (mem_of_find?_eq_some hextra)] at hbad
    cases hbad
  · refine Fails.bind (.mapM fun entry hentry => ?_) fun _ _ => .ok _
    exact hfields _ _ (mem_iter.1 hentry)

theorem validateList_onlyTooDeep (schema : TypeSchema) {items : TypeSchema}
    {arr : List Value}
    (hlen : (maxLen.any fun n => n.toNat < arr.length) = false)
    (hitems : ∀ v ∈ arr, ∀ path, OnlyTooDeep (part items v path)) :
    OnlyTooDeep (validateList part schema items maxLen (.array arr) path) := by
  unfold validateList
  dsimp only
  rw [hlen, if_neg Bool.false_ne_true]
  refine Fails.bind (.mapM fun entry hentry => ?_) fun _ _ => .ok _
  exact hitems _ (fst_mem_of_mem_zipIdx hentry) _

theorem validateField_onlyTooDeep {field : FieldSchema}
    (hvalue : ∀ v, Entries.get obj name = some v → ∀ path,
      OnlyTooDeep (part field.schema v path))
    (hdefault : ∀ d, Entries.get obj name = none →
      field.default = some d → ∀ path,
      OnlyTooDeep (part field.schema d path))
    (habsent : Entries.get obj name = none → field.mayBeOmitted = true) :
    OnlyTooDeep (validateField part obj path (name, field)) := by
  unfold validateField
  dsimp only
  cases hget : Entries.get obj name with
  | some v => exact (hvalue v hget _).bind fun _ _ => .ok _
  | none =>
    cases hd : field.default with
    | some d => exact (hdefault d hget hd _).bind fun _ _ => .ok _
    | none =>
      have homitted := habsent hget
      unfold FieldSchema.mayBeOmitted at homitted
      rw [hd, Option.isSome_none, Bool.or_false] at homitted
      dsimp only
      rw [if_pos homitted]
      exact .ok _

end Parts

variable {w v : Value} {l : Nat}

variable {left : Nat} {path : String}

theorem KindValid.scalar {V : TypeSchema → Value → Value → Prop}
    {part : ValidatePart} {schema : TypeSchema}
    {kind : TypeKind} (h : KindValid V l kind v w)
    (hkind : kind.isJson = false ∧ (∀ fields, kind ≠ .object fields)
      ∧ ∀ items maxLen, kind ≠ .list items maxLen) :
    validateKind part left schema v path kind = .ok w := by
  cases kind with
  | boolean =>
    obtain ⟨b, rfl, rfl⟩ := h
    rfl
  | int64 => exact validateInt64_eq_ok.2 h
  | float64 min max => exact validateFloat64_eq_ok.2 h
  | string maxLen => exact validateString_eq_ok.2 h
  | enum values => exact validateEnum_eq_ok.2 h
  | unit =>
    obtain ⟨rfl, rfl⟩ := h
    rfl
  | object fields => exact absurd rfl (hkind.2.1 fields)
  | list items maxLen => exact absurd rfl (hkind.2.2 items maxLen)
  | json => cases hkind.1
  | ref name => exact h.elim

/-- What is valid with some levels to go fails only for depth with
others. -/
theorem Validates.onlyTooDeep {defs : TypeDefs}
    {schema : TypeSchema} (h : Validates defs l schema v w) :
    OnlyTooDeep (defs.validateAt left schema v path) := by
  induction left generalizing l schema v w path with
  | zero => exact .error rfl
  | succ left ih =>
    cases l with
    | zero => exact h.elim
    | succ l =>
      obtain ⟨r, hr, h⟩ := h
      refine Fails.bind
        (.of_eq (resolveAt_eq_ok.2 hr)) fun r' hr' => ?_
      rw [resolveAt_eq_ok, hr] at hr'
      cases hr'
      split at h
      · rename_i hnull
        rw [if_pos hnull, if_pos h.1]
        exact .ok _
      · rename_i hnull
        rw [if_neg hnull]
        cases hkind : r.kind with
        | object fields =>
          rw [hkind] at h
          obtain ⟨obj, out, rfl, hdeclared, hout, _⟩ := h
          refine validateObject_onlyTooDeep schema hdeclared ?_
          intro name field hget
          obtain ⟨o, _, hvalid⟩ :=
            forall₂_left hout (mem_iter.2 hget)
          unfold FieldValid at hvalid
          dsimp only at hvalid
          refine validateField_onlyTooDeep ?_ ?_ ?_
          · intro x hx path
            rw [hx] at hvalid
            obtain ⟨y, hy, _⟩ := hvalid
            exact ih hy
          · intro d hnone hd path
            rw [hnone, hd] at hvalid
            obtain ⟨y, hy, _⟩ := hvalid
            exact ih hy
          · intro hnone
            rw [hnone] at hvalid
            unfold FieldSchema.mayBeOmitted
            cases hd : field.default with
            | some d => simp
            | none =>
              rw [hd] at hvalid
              rw [hvalid.1]
              rfl
        | list items maxLen =>
          rw [hkind] at h
          obtain ⟨arr, out, rfl, hlen, hout, _⟩ := h
          refine validateList_onlyTooDeep schema hlen
            fun x hx path => ?_
          obtain ⟨y, _, hy⟩ := forall₂_left hout hx
          exact ih hy
        | json => exact .ite (fun _ => .error rfl) fun _ => .ok _
        | boolean | int64 | float64 min max | string maxLen
        | enum values | unit | ref name =>
          rw [hkind] at h
          exact .of_eq (h.scalar ⟨rfl, by simp, by simp⟩)

-- ==== soundness

omit [F64Text] in
theorem bounds_kept {smin smax dmin dmax : Option F64} {f : F64}
    (hlower : lowerCovered smin dmin = true)
    (hupper : upperCovered smax dmax = true)
    (h : (smin.any f.lt || smax.any (·.lt f)) = false) :
    (dmin.any f.lt || dmax.any (·.lt f)) = false := by
  obtain ⟨hmin, hmax⟩ := Bool.or_eq_false_iff.1 h
  refine Bool.or_eq_false_iff.2 ⟨?_, ?_⟩
  · cases dmin with
    | none => rfl
    | some d =>
      cases smin with
      | none => cases hlower
      | some s =>
        refine Bool.eq_false_iff.2 fun hbelow => ?_
        have hworse := F64.lt_of_lt_of_le hlower hbelow
        rw [Option.any_some, hworse] at hmin
        cases hmin
  · cases dmax with
    | none => rfl
    | some d =>
      cases smax with
      | none => cases hupper
      | some s =>
        refine Bool.eq_false_iff.2 fun habove => ?_
        have hworse := F64.lt_of_le_of_lt hupper habove
        rw [Option.any_some, hworse] at hmax
        cases hmax

omit [F64Text] in
theorem length_kept {slen dlen : Option UInt32} {n : Nat}
    (hcovered : lengthCovered slen dlen = true)
    (h : (slen.any fun k => k.toNat < n) = false) :
    (dlen.any fun k => k.toNat < n) = false := by
  cases dlen with
  | none => rfl
  | some d =>
    cases slen with
    | none => cases hcovered
    | some s =>
      have hle : s.toNat ≤ d.toNat :=
        UInt32.le_iff_toNat_le.1 (of_decide_eq_true hcovered)
      rw [Option.any_some, decide_eq_false_iff_not] at h ⊢
      omega

/-- A field the target declares: the source's is assignable and there
when it has to be, or it can be left out. -/
def FieldAssigned (A : TypeSchema → TypeSchema → Prop)
    (sfields : List (String × FieldSchema)) (name : String)
    (dfield : FieldSchema) : Prop :=
  match Entries.get sfields name with
  | some sfield => A sfield.schema dfield.schema
      ∧ (sfield.mayBeAbsent = true → dfield.mayBeOmitted = true)
  | none => dfield.mayBeOmitted = true

/-- Assignable kinds; `A` is assignability one level down. -/
inductive KindAssigned (A : TypeSchema → TypeSchema → Prop) :
    TypeKind → TypeKind → Prop
  | boolean : KindAssigned A .boolean .boolean
  | int64 : KindAssigned A .int64 .int64
  | unit : KindAssigned A .unit .unit
  | float64 {smin smax dmin dmax : Option F64}
      (hlower : lowerCovered smin dmin = true)
      (hupper : upperCovered smax dmax = true) :
      KindAssigned A (.float64 smin smax) (.float64 dmin dmax)
  | string {slen dlen : Option UInt32}
      (hlen : lengthCovered slen dlen = true) :
      KindAssigned A (.string slen) (.string dlen)
  | enum {svalues dvalues : List String}
      (hvalues : ∀ v ∈ svalues, v ∈ dvalues) :
      KindAssigned A (.enum svalues) (.enum dvalues)
  | list {sitems ditems : TypeSchema} {slen dlen : Option UInt32}
      (hlen : lengthCovered slen dlen = true) (hitems : A sitems ditems) :
      KindAssigned A (.list sitems slen) (.list ditems dlen)
  | object {sfields dfields : List (String × FieldSchema)}
      (hdeclared : ∀ k, Entries.contains sfields k = true →
        Entries.contains dfields k = true)
      (hfields : ∀ name dfield, Entries.get dfields name = some dfield →
        FieldAssigned A sfields name dfield) :
      KindAssigned A (.object sfields) (.object dfields)

theorem assignField_assigned {ap : AssignPart}
    {sfields : List (String × FieldSchema)} {dfield : FieldSchema}
    (h : assignField ap sfields path (name, dfield) = .ok ()) :
    FieldAssigned (fun s d => ∃ path, ap s d path = .ok ()) sfields name
      dfield := by
  unfold assignField at h
  unfold FieldAssigned
  dsimp only at h ⊢
  cases hget : Entries.get sfields name with
  | some sfield =>
    rw [hget] at h
    obtain ⟨habsent, h⟩ := guard_ok h
    refine ⟨⟨_, h⟩, fun hmay => ?_⟩
    unfold FieldSchema.mayBeOmitted
    rw [hmay] at habsent
    cases hoptional : dfield.optional with
    | true => rfl
    | false =>
      rw [hoptional] at habsent
      cases hdefault : dfield.default with
      | some d => rfl
      | none =>
        rw [hdefault] at habsent
        exact absurd rfl habsent
  | none =>
    rw [hget] at h
    exact (guard_not_ok h).1

variable {src dst : TypeSchema}

theorem assignKind_assigned {ap : AssignPart}
    {sk dk : TypeKind} (h : assignKind ap src dst path sk dk = .ok ()) :
    KindAssigned (fun s d => ∃ path, ap s d path = .ok ()) sk dk := by
  unfold assignKind at h
  split at h
  · exact .boolean
  · exact .int64
  · exact .unit
  · have hbounds := Bool.and_eq_true_iff.1 (guard_not_ok h).1
    exact .float64 hbounds.1 hbounds.2
  · exact .string (guard_not_ok h).1
  · have hvalues := all_eq_true.1 (guard_not_ok h).1
    exact .enum fun v hv => contains_iff_mem.1 (hvalues v hv)
  · obtain ⟨hlen, h⟩ := guard_not_ok h
    exact .list hlen ⟨_, h⟩
  · split at h
    · cases h
    · rename_i hnone
      refine .object (fun k hk => ?_) fun name dfield hget => ?_
      · simpa using List.find?_eq_none.1 hnone k (contains_iff.1 hk)
      · exact assignField_assigned
          (forM_eq_ok.1 h _ (mem_iter.2 hget))
  · cases h

section Sound

variable {sd dd : TypeDefs}

theorem assignable_onlyTooDeep {a e : Nat} {path' : String}
    (hassign : assignableAt sd dd a src dst path' = .ok ())
    (hdst : Checked dd e dst) (he : e ≤ maxSchemaDepth + 1)
    (h : Validates sd l src v w) :
    OnlyTooDeep (dd.validateAt left dst w path) := by
  induction left generalizing l a e src dst v w path path' with
  | zero => exact .error rfl
  | succ left ih =>
    obtain ⟨l, rfl⟩ : ∃ k, l = k + 1 := by
      cases l with
      | zero => exact h.elim
      | succ l => exact ⟨l, rfl⟩
    obtain ⟨a, rfl⟩ : ∃ k, a = k + 1 := by
      cases a with
      | zero => cases hassign
      | succ a => exact ⟨a, rfl⟩
    obtain ⟨s, hs, hassign⟩ := bind_ok hassign
    obtain ⟨d, hd, hassign⟩ := bind_ok hassign
    obtain ⟨d', e', hd', hlt, hchecked⟩ := hdst.resolve he
    rw [hd] at hd'
    cases hd'
    obtain ⟨s', hs', h⟩ := h
    rw [hs] at hs'
    cases hs'
    refine Fails.bind
      (.of_eq (resolveAt_eq_ok.2 hd)) fun d' hd' => ?_
    rw [resolveAt_eq_ok, hd] at hd'
    cases hd'
    by_cases hjson : d.kind.isJson = true
    · have hkind : d.kind = .json := by
        cases hk : d.kind <;> rw [hk] at hjson <;> first | rfl | cases hjson
      rw [hkind, if_neg (by simp [TypeKind.takesNull])]
      exact .ite (fun _ => .error rfl) fun _ => .ok _
    · rw [if_neg hjson] at hassign
      obtain ⟨hnullable, hassign⟩ := guard_ok hassign
      split at h
      · obtain ⟨hsource, rfl⟩ := h
        have hdnull : d.nullable = true := by
          simpa [hsource] using hnullable
        refine .ite (fun _ => ?_) fun hnull => ?_
        · rw [if_pos hdnull]
          exact .ok _
        · have hunit : d.kind = .unit := by
            cases hk : d.kind <;> rw [hk] at hnull hjson <;>
              first | rfl | exact absurd rfl hnull | exact absurd rfl hjson
          rw [hunit]
          exact .ok _
      · obtain ⟨sk, snull⟩ := s
        obtain ⟨dk, dnull⟩ := d
        cases assignKind_assigned hassign with
        | boolean =>
          obtain ⟨b, rfl, rfl⟩ := h
          exact .ok _
        | int64 =>
          obtain ⟨i, _, rfl⟩ := h
          exact .of_eq (validateInt64_eq_ok.2 ⟨i, int64Of_ofI64 i, rfl⟩)
        | unit =>
          obtain ⟨rfl, rfl⟩ := h
          exact .ok _
        | float64 hlower hupper =>
          obtain ⟨n, f, rfl, hf, hfinite, hbounds, rfl⟩ := h
          exact .of_eq (validateFloat64_eq_ok.2 ⟨n, f, rfl, hf, hfinite,
            bounds_kept hlower hupper hbounds, rfl⟩)
        | string hlen =>
          obtain ⟨x, rfl, hx, rfl⟩ := h
          exact .of_eq (validateString_eq_ok.2
            ⟨x, rfl, length_kept hlen hx, rfl⟩)
        | enum hvalues =>
          obtain ⟨x, rfl, hx, rfl⟩ := h
          exact .of_eq (validateEnum_eq_ok.2 ⟨x, rfl, hvalues x hx, rfl⟩)
        | list hlen hitems =>
          obtain ⟨arr, out, _, hbound, hout, rfl⟩ := h
          obtain ⟨path'', hitems⟩ := hitems
          refine validateList_onlyTooDeep dst ?_ fun x hx path => ?_
          · exact length_kept hlen (hout.length_eq ▸ hbound)
          · obtain ⟨y, _, hy⟩ := forall₂_right hout hx
            exact ih hitems (hchecked.items rfl) (by omega) hy
        | object hdeclared hfields =>
          obtain ⟨obj, out, _, _, hout, rfl⟩ := h
          refine validateObject_onlyTooDeep dst
            (fun k hk => hdeclared k (validated_declared hout hk))
            fun name dfield hget => ?_
          have hassigned := hfields name dfield hget
          obtain ⟨hdschema, hddefault⟩ := hchecked.field rfl hget
          unfold FieldAssigned at hassigned
          refine validateField_onlyTooDeep ?_ ?_ ?_
          · intro x hx path
            obtain ⟨sfield, y, hsfield, hy⟩ :=
              validated_mem hout (mem_of_get hx)
            rw [hsfield] at hassigned
            obtain ⟨⟨path'', hpart⟩, _⟩ := hassigned
            exact ih hpart hdschema (by omega) hy
          · intro dv _ hdv path
            obtain ⟨u, hu⟩ := hddefault dv hdv
            exact hu.onlyTooDeep
          · intro hnone
            cases hsfield : Entries.get _ name with
            | some sfield =>
              rw [hsfield] at hassigned
              exact hassigned.2
                (validated_absent hout hsfield hnone)
            | none =>
              rw [hsfield] at hassigned
              exact hassigned

theorem Validates.depth_lt {defs : TypeDefs} {c : Nat} {schema : TypeSchema}
    (h : Validates defs l schema v w) (hchecked : Checked defs c schema)
    (hc : c ≤ maxSchemaDepth + 1) (hroom : c < l) : w.depth < l := by
  induction l generalizing c schema v w with
  | zero => exact h.elim
  | succ l ih =>
    obtain ⟨r, c', hr, hlt, hkind⟩ := hchecked.resolve hc
    obtain ⟨r', hr', h⟩ := h
    rw [hr] at hr'
    cases hr'
    have hpos := hchecked.pos
    have hscalar : ∀ {u : Value}, u.depth = 1 → u.depth < l + 1 := by
      intro u hu
      omega
    split at h
    · obtain ⟨_, rfl⟩ := h
      exact hscalar (by simp [Value.depth])
    · obtain ⟨kind, nullable⟩ := r
      cases kind with
      | boolean =>
        obtain ⟨b, rfl, rfl⟩ := h
        exact hscalar (by simp [Value.depth])
      | int64 =>
        obtain ⟨i, _, rfl⟩ := h
        exact hscalar (by simp [Value.depth, Value.ofI64])
      | float64 min max =>
        obtain ⟨n, f, rfl, _, _, _, rfl⟩ := h
        exact hscalar (by simp [Value.depth])
      | string maxLen | enum values =>
        obtain ⟨x, rfl, _, rfl⟩ := h
        exact hscalar (by simp [Value.depth])
      | object fields =>
        obtain ⟨obj, out, _, _, hout, rfl⟩ := h
        have hparts : Value.depthEntries (out.filterMap id) ≤ l - 1 := by
          refine Value.depthEntries_le.2 fun entry hentry => ?_
          obtain ⟨name, u⟩ := entry
          obtain ⟨field, x, hget, hx⟩ := validated_mem hout hentry
          have hlt := ih hx (hkind.field rfl hget).1 (by omega)
            (by omega)
          show u.depth ≤ l - 1
          omega
        unfold Value.depth
        omega
      | list items maxLen =>
        obtain ⟨arr, out, _, _, hout, rfl⟩ := h
        have hparts : Value.depthItems out ≤ l - 1 := by
          refine Value.depthItems_le.2 fun u hu => ?_
          obtain ⟨x, _, hx⟩ := forall₂_right hout hu
          have hlt := ih hx (hkind.items rfl) (by omega) (by omega)
          omega
        unfold Value.depth
        omega
      | unit =>
        obtain ⟨_, rfl⟩ := h
        exact hscalar (by simp [Value.depth])
      | json =>
        obtain ⟨hdepth, rfl⟩ := h
        omega
      | ref name => exact h.elim

/-- A field is filled in within the limits; `D` is the same one level
down, `F` what a default has to be there. -/
def FieldDefaultsFit (D F : TypeSchema → Value → Prop)
    (obj : List (String × Value)) (entry : String × FieldSchema) : Prop :=
  match Entries.get obj entry.1 with
  | some v => D entry.2.schema v
  | none => ∀ d, entry.2.default = some d → F entry.2.schema d

def KindDefaultsFit (D F : TypeSchema → Value → Prop) :
    TypeKind → Value → Prop
  | .object fields, .object obj =>
    ∀ entry ∈ Entries.iter fields, FieldDefaultsFit D F obj entry
  | .list items _, .array arr => ∀ v ∈ arr, D items v
  | _, _ => True

/-- Each default that the schema fills in for a field the value leaves out
is within the depth limits where it stands. -/
def DefaultsFit (defs : TypeDefs) : Nat → TypeSchema → Value → Prop
  | 0, _, _ => True
  | left + 1, schema, v => ∀ r, defs.resolve schema = .ok r →
      KindDefaultsFit (DefaultsFit defs left) (Fits defs left) r.kind v

omit [F64Text] in
/-- Defaults are part of what has to be within the limits. -/
theorem Fits.defaultsFit {defs : TypeDefs}
    {schema : TypeSchema} (h : Fits defs left schema v) :
    DefaultsFit defs left schema v := by
  induction left generalizing schema v with
  | zero => exact h.elim
  | succ left ih =>
    intro r hr
    have h := h r hr
    obtain ⟨kind, nullable⟩ := r
    cases kind with
    | object fields =>
      cases v with
      | object obj =>
        intro entry hentry
        have hfits := h rfl entry hentry
        unfold FieldFits at hfits
        unfold FieldDefaultsFit
        cases hget : Entries.get obj entry.1 with
        | some x =>
          rw [hget] at hfits
          exact ih hfits
        | none =>
          rw [hget] at hfits
          exact hfits
      | _ => trivial
    | list items maxLen =>
      cases v with
      | array arr => exact fun x hx => ih (h rfl x hx)
      | _ => trivial
    | _ => trivial

/-- Where its defaults are, what validates under the source is within the
limits of an assignable target. -/
theorem assignable_fits {a c e : Nat}
    (hassign : assignableAt sd dd a src dst path = .ok ())
    (hsrc : Checked sd c src) (hc : c ≤ maxSchemaDepth + 1) (hroom : c < l)
    (hdst : Checked dd e dst) (he : e ≤ maxSchemaDepth + 1)
    (h : Validates sd l src v w) (hdefaults : DefaultsFit dd l dst w) : Fits dd l dst w := by
  induction l generalizing a c e src dst v w path with
  | zero => exact h.elim
  | succ l ih =>
    intro d hd _
    obtain ⟨a, rfl⟩ : ∃ k, a = k + 1 := by
      cases a with
      | zero => cases hassign
      | succ a => exact ⟨a, rfl⟩
    have hdeep := h.depth_lt hsrc hc hroom
    obtain ⟨s, hs, hassign⟩ := bind_ok hassign
    obtain ⟨d', hd', hassign⟩ := bind_ok hassign
    rw [hd] at hd'
    cases hd'
    obtain ⟨s', c', hs', hclt, hscheck⟩ := hsrc.resolve hc
    rw [hs] at hs'
    cases hs'
    obtain ⟨d', e', hd', helt, hdcheck⟩ := hdst.resolve he
    rw [hd] at hd'
    cases hd'
    obtain ⟨s', hs', h⟩ := h
    rw [hs] at hs'
    cases hs'
    have hdefaults := hdefaults d hd
    by_cases hjson : d.kind.isJson = true
    · have hkind : d.kind = .json := by
        cases hk : d.kind <;> rw [hk] at hjson <;> first | rfl | cases hjson
      rw [hkind]
      exact Nat.le_of_lt_succ hdeep
    · rw [if_neg hjson] at hassign
      obtain ⟨_, hassign⟩ := guard_ok hassign
      obtain ⟨sk, snull⟩ := s
      obtain ⟨dk, dnull⟩ := d
      cases assignKind_assigned hassign with
      | list hlen hitems =>
        split at h
        · obtain ⟨_, rfl⟩ := h
          trivial
        · obtain ⟨arr, out, _, _, hout, rfl⟩ := h
          obtain ⟨path', hitems⟩ := hitems
          intro x hx
          obtain ⟨y, _, hy⟩ := forall₂_right hout hx
          exact ih hitems (hscheck.items rfl) (by omega) (by omega)
            (hdcheck.items rfl) (by omega) hy (hdefaults x hx)
      | object hdeclared hfields =>
        split at h
        · obtain ⟨_, rfl⟩ := h
          trivial
        · obtain ⟨obj, out, _, _, hout, rfl⟩ := h
          intro entry hentry
          obtain ⟨name, dfield⟩ := entry
          have hget := mem_iter.1 hentry
          have hassigned := hfields name dfield hget
          have hdefault := hdefaults _ hentry
          unfold FieldAssigned at hassigned
          unfold FieldDefaultsFit at hdefault
          unfold FieldFits
          dsimp only at hdefault ⊢
          cases hx : Entries.get (out.filterMap id) name with
          | some x =>
            rw [hx] at hdefault
            obtain ⟨sfield, y, hsfield, hy⟩ :=
              validated_mem hout (mem_of_get hx)
            rw [hsfield] at hassigned
            obtain ⟨⟨path', hpart⟩, _⟩ := hassigned
            exact ih hpart (hscheck.field rfl hsfield).1 (by omega)
              (by omega) (hdcheck.field rfl hget).1 (by omega) hy
              hdefault
          | none =>
            rw [hx] at hdefault
            exact hdefault
      | _ => trivial

end Sound

/-- A value accepted under the source is accepted under an assignable
target, exactly when each default that the target fills in is within the
depth limit where it stands. -/
theorem checkAssignable_sound {sd dd : TypeDefs} {s d : TypeSchema}
    {spath dpath : String} (hs : sd.checkSchemaAt s spath = .ok ())
    (hd : dd.checkSchemaAt d dpath = .ok ())
    (hassign : checkAssignable sd s dd d = .ok ()) {v w : Value}
    (hvalid : sd.validate s v = .ok w) :
    (∃ u, dd.validateAt (maxValueDepth + 1) d w "" = .ok u)
      ↔ DefaultsFit dd (maxValueDepth + 1) d w := by
  have hs : Checked sd (maxSchemaDepth + 1) s := ⟨spath, [], hs⟩
  have hd : Checked dd (maxSchemaDepth + 1) d := ⟨dpath, [], hd⟩
  have hvalid := validateAt_eq_ok.1 (guard_ok hvalid).2
  constructor
  · rintro ⟨u, hu⟩
    exact (validateAt_eq_ok.1 hu).fits.defaultsFit
  · intro hdefaults
    have hfits := assignable_fits hassign hs (Nat.le_refl _) (by decide) hd
      (Nat.le_refl _) hvalid hdefaults
    exact (assignable_onlyTooDeep hassign hd (Nat.le_refl _) hvalid).succeeds
      (hfits.notTooDeep "")

end

-- ==== two targets

section Targets

/-- Arrays in arrays, `n` levels above a `null`. -/
def nested : Nat → Value
  | 0 => .null
  | n + 1 => .array [nested n]

/-- An object of one field, with a default. -/
def defaulting (default : Value) : TypeSchema :=
  .new (.object [("x",
    { schema := .json, optional := false, default := some default })])

/-- A text layer for what holds no doubles. -/
local instance noDoubles : F64Text where
  display _ := ""
  json _ := ""
  parse _ := none

/-- An empty object is taken by an object that fills in a default: it is
within the limits when it nests 63 levels. -/
theorem checkAssignable_sound_filled :
    ∃ w u, TypeDefs.empty.validate (.new (.object [])) (.object []) = .ok w
      ∧ TypeDefs.empty.validateAt (maxValueDepth + 1)
        (defaulting (nested 62)) w "" = .ok u
      ∧ DefaultsFit .empty (maxValueDepth + 1) (defaulting (nested 62))
        w := by
  have hs : TypeDefs.empty.checkSchemaAt (.new (.object [])) "" = .ok () := by
    decide +kernel
  have hd : TypeDefs.empty.checkSchemaAt (defaulting (nested 62)) ""
      = .ok () := by
    decide +kernel
  have hassign : checkAssignable .empty (.new (.object [])) .empty
      (defaulting (nested 62)) = .ok () := by
    decide +kernel
  obtain ⟨w, hw, hcheck⟩ := exists_of_check (by decide +kernel :
    (TypeDefs.empty.validate (.new (.object [])) (.object [])).toOption.any
      (fun w => (TypeDefs.empty.validateAt (maxValueDepth + 1)
        (defaulting (nested 62)) w "").toOption.any fun _ => true) = true)
  obtain ⟨u, hu, _⟩ := exists_of_check hcheck
  exact ⟨w, u, hw, hu, (checkAssignable_sound hs hd hassign hw).1 ⟨u, hu⟩⟩

/-- A default of 64 levels passes the declaration check and is too deep
where it is filled in. -/
theorem checkAssignable_rejects_default :
    TypeDefs.empty.check = .ok ()
      ∧ TypeDefs.empty.checkSchemaAt (.new (.object [])) "" = .ok ()
      ∧ TypeDefs.empty.checkSchemaAt (defaulting (nested 63)) "" = .ok ()
      ∧ checkAssignable .empty (.new (.object [])) .empty
        (defaulting (nested 63)) = .ok ()
      ∧ ∃ w, TypeDefs.empty.validate (.new (.object [])) (.object [])
        = .ok w
        ∧ ∃ e, TypeDefs.empty.validateAt (maxValueDepth + 1)
          (defaulting (nested 63)) w "" = .error e := by
  refine ⟨rfl, by decide +kernel, by decide +kernel, by decide +kernel, ?_⟩
  obtain ⟨w, hw, hcheck⟩ := exists_of_check (by decide +kernel :
    (TypeDefs.empty.validate (.new (.object [])) (.object [])).toOption.any
      (fun w => (TypeDefs.empty.validateAt (maxValueDepth + 1)
        (defaulting (nested 63)) w "").toOption.isNone) = true)
  refine ⟨w, hw, ?_⟩
  cases h : TypeDefs.empty.validateAt (maxValueDepth + 1)
      (defaulting (nested 63)) w "" with
  | error e => exact ⟨e, rfl⟩
  | ok u =>
    rw [h] at hcheck
    cases hcheck

end Targets

end Tasty.Agent
