/-
Validation gives a normal form: what it returns validates to itself, has
one typed form, and gives it back. A value is measured before its defaults
are filled in, and a default where it is declared; where it is filled in
it may be too deep, and the value too large. That is all that can go
wrong.
-/
import Tasty.Agent.WireForm

namespace Tasty.Agent

open String

variable {left : Nat} {v w : Value} {V : TypeSchema → Value → Value → Prop}
  {obj : List (String × Value)} {entry : String × FieldSchema}
  {o : Option (String × Value)}

-- ==== sizes

/-- The length of texts with commas between them. -/
def joinedBytes : List Nat → Nat
  | [] => 0
  | [n] => n
  | n :: m :: rest => n + 1 + joinedBytes (m :: rest)

theorem size_intercalate (l : List String) :
    (String.intercalate "," l).utf8ByteSize
      = joinedBytes (l.map utf8ByteSize) := by
  induction l with
  | nil => rfl
  | cons s l ih =>
    cases l with
    | nil =>
      rw [intercalate_singleton]
      rfl
    | cons t l =>
      rw [intercalate_cons_cons, utf8ByteSize_append, utf8ByteSize_append, ih]
      rfl

section Sizes

variable [F64Text]

/-- The length of a key with its colon. -/
def keyBytes (k : String) : Nat := (Value.stringText k).utf8ByteSize + 1

theorem Value.textItems_eq (items : List Value) :
    Value.textItems items = items.map Value.text := by
  induction items with
  | nil => rfl
  | cons v items ih => rw [Value.textItems, ih, List.map_cons]

theorem Value.textEntries_eq (entries : List (String × Value)) :
    Value.textEntries entries
      = entries.map fun e => Value.stringText e.1 ++ ":" ++ e.2.text := by
  induction entries with
  | nil => rfl
  | cons e entries ih => rw [Value.textEntries, ih, List.map_cons]

theorem Value.size_array (items : List Value) : (Value.array items).size
    = joinedBytes (items.map Value.size) + 2 := by
  have htext : (Value.array items).text
      = "[" ++ String.intercalate "," (items.map Value.text) ++ "]" := by
    rw [Value.text, textItems_eq]
  show (Value.array items).text.utf8ByteSize = _
  rw [htext, utf8ByteSize_append, utf8ByteSize_append,
    size_intercalate, List.map_map]
  have hopen : "[".utf8ByteSize = 1 := rfl
  have hclose : "]".utf8ByteSize = 1 := rfl
  rw [hopen, hclose, Nat.add_comm 1, Nat.add_assoc]
  rfl

theorem Value.size_object (entries : List (String × Value)) :
    (Value.object entries).size
      = joinedBytes (entries.map fun e => keyBytes e.1 + e.2.size) + 2 := by
  have htext : (Value.object entries).text
      = String.ofList [Char.ofNat 0x7b]
        ++ String.intercalate "," (entries.map fun e =>
          Value.stringText e.1 ++ ":" ++ e.2.text)
        ++ String.ofList [Char.ofNat 0x7d] := by
    rw [Value.text, textEntries_eq]
  have hentries : (entries.map fun e =>
        Value.stringText e.1 ++ ":" ++ e.2.text).map utf8ByteSize
      = entries.map fun e => keyBytes e.1 + e.2.size := by
    rw [List.map_map]
    refine List.map_congr_left fun e _ => ?_
    rw [Function.comp_apply, utf8ByteSize_append, utf8ByteSize_append]
    rfl
  have hopen : (String.ofList [Char.ofNat 0x7b]).utf8ByteSize = 1 := rfl
  have hclose : (String.ofList [Char.ofNat 0x7d]).utf8ByteSize = 1 := rfl
  show (Value.object entries).text.utf8ByteSize = _
  rw [htext, utf8ByteSize_append, utf8ByteSize_append, size_intercalate,
    hentries, hopen, hclose, Nat.add_comm 1, Nat.add_assoc]

-- ==== with its defaults

/-- The length of a field, whose value or default is as `part` measures
it. -/
def fieldBytes (part : TypeSchema → Value → Nat)
    (obj : List (String × Value)) (entry : String × FieldSchema) :
    Option Nat :=
  match Entries.get obj entry.1 with
  | some v => some (keyBytes entry.1 + part entry.2.schema v)
  | none =>
    entry.2.default.map fun d =>
      keyBytes entry.1 + part entry.2.schema d

/-- Decimal text counts as the integer. -/
def int64Bytes (v : Value) : Nat :=
  match int64Of v with
  | .ok i => (Value.ofI64 i).size
  | .error _ => v.size

def kindBytes (part : TypeSchema → Value → Nat) : TypeKind → Value → Nat
  | .object fields, .object obj =>
    joinedBytes ((Entries.iter fields).filterMap (fieldBytes part obj)) + 2
  | .list items _, .array arr => joinedBytes (arr.map (part items)) + 2
  | .int64, v => int64Bytes v
  | _, v => v.size

/-- The length of a value with the defaults that it leaves out. -/
def filledBytes (defs : TypeDefs) : Nat → TypeSchema → Value → Nat
  | 0, _, v => v.size
  | left + 1, schema, v =>
    match defs.resolve schema with
    | .error _ => v.size
    | .ok r =>
      if v.isNull && !r.kind.takesNull then v.size
      else kindBytes (filledBytes defs left) r.kind v

end Sizes

-- ==== valid again

section Again

variable [F64Text] {defs : TypeDefs}

theorem Validates.det {schema : TypeSchema} {w' : Value}
    (h : Validates defs left schema v w)
    (h' : Validates defs left schema v w') : w = w' :=
  have hv {u : Value} (hu : Validates defs left schema v u) :
      defs.validateAt left schema v "" = .ok u := validateAt_eq_ok.2 hu
  Except.ok.inj ((hv h).symm.trans (hv h'))

omit [F64Text] in
theorem FieldValid.det (hV : ∀ s v w w', V s v w → V s v w' → w = w')
    {o' : Option (String × Value)} (h : FieldValid V obj entry o)
    (h' : FieldValid V obj entry o') : o = o' := by
  unfold FieldValid at h h'
  cases hget : Entries.get obj entry.1 with
  | some v =>
    rw [hget] at h h'
    obtain ⟨w, hw, rfl⟩ := h
    obtain ⟨w', hw', rfl⟩ := h'
    rw [hV _ _ _ _ hw hw']
  | none =>
    rw [hget] at h h'
    cases hd : entry.2.default with
    | some d =>
      rw [hd] at h h'
      obtain ⟨w, hw, rfl⟩ := h
      obtain ⟨w', hw', rfl⟩ := h'
      rw [hV _ _ _ _ hw hw']
    | none =>
      rw [hd] at h h'
      exact h.2.trans h'.2.symm

omit [F64Text] in
theorem validated_get (hV : ∀ s v w w', V s v w → V s v w' → w = w')
    {fields : List (String × FieldSchema)}
    {out : List (Option (String × Value))}
    (hout : List.Forall₂ (FieldValid V obj) (Entries.iter fields) out)
    (hentry : entry ∈ Entries.iter fields) (ho : o ∈ out)
    (h : FieldValid V obj entry o) :
    Entries.get (out.filterMap id) entry.1 = o.map Prod.snd := by
  have hname {p : String × Value} {entry : String × FieldSchema}
      (h : FieldValid V obj entry (some p)) : p.1 = entry.1 := by
    unfold FieldValid at h
    split at h
    · obtain ⟨w, _, h⟩ := h
      cases h
      rfl
    · split at h
      · obtain ⟨w, _, h⟩ := h
        cases h
        rfl
      · cases h.2
  cases hget : Entries.get (out.filterMap id) entry.1 with
  | some y =>
    -- it stands there for a field of the same name, which is this one
    obtain ⟨o', ho', heq⟩ :=
      List.mem_filterMap.1 (Entries.mem_of_get hget)
    obtain rfl : o' = some (entry.1, y) := heq
    obtain ⟨entry', hentry', h'⟩ := forall₂_right hout ho'
    have hsame : entry' = entry := by
      have hfield := Entries.mem_iter.1 hentry
      have hfield' := Entries.mem_iter.1 hentry'
      have hn : entry.1 = entry'.1 := hname h'
      rw [← hn, hfield] at hfield'
      exact Prod.ext hn.symm (Option.some.inj hfield').symm
    rw [hsame] at h'
    rw [FieldValid.det hV h h']
    rfl
  | none =>
    cases o with
    | none => rfl
    | some p =>
      have hmem : entry.1 ∈ Entries.keys (out.filterMap id) :=
        List.mem_map.2 ⟨p, List.mem_filterMap.2 ⟨_, ho, rfl⟩, hname h⟩
      have hsome := Entries.get_isSome_iff.2 hmem
      rw [hget] at hsome
      cases hsome

omit [F64Text] in
theorem FieldValid.again {obj' : List (String × Value)}
    (hV : ∀ s v w, V s v w → V s w w)
    (hget : Entries.get obj' entry.1 = o.map Prod.snd)
    (h : FieldValid V obj entry o) : FieldValid V obj' entry o := by
  unfold FieldValid at h ⊢
  rw [hget]
  split at h
  · obtain ⟨w, hw, rfl⟩ := h
    exact ⟨w, hV _ _ _ hw, rfl⟩
  · split at h
    · obtain ⟨w, hw, rfl⟩ := h
      exact ⟨w, hV _ _ _ hw, rfl⟩
    · obtain ⟨hoptional, rfl⟩ := h
      exact ⟨hoptional, rfl⟩

theorem KindValid.isNull {V : TypeSchema → Value → Value → Prop}
    {left : Nat} {kind : TypeKind} {v w : Value}
    (hv : (v.isNull && !kind.takesNull) = false)
    (h : KindValid V left kind v w) :
    (w.isNull && !kind.takesNull) = false := by
  cases kind with
  | boolean =>
    obtain ⟨b, rfl, rfl⟩ := h
    rfl
  | int64 =>
    obtain ⟨i, _, rfl⟩ := h
    rfl
  | float64 min max =>
    obtain ⟨n, f, rfl, _, _, _, rfl⟩ := h
    rfl
  | string maxLen | «enum» values =>
    obtain ⟨x, rfl, _, rfl⟩ := h
    rfl
  | object fields | list items maxLen =>
    obtain ⟨_, _, _, _, _, rfl⟩ := h
    rfl
  | unit | json => exact Bool.and_false _
  | ref name => exact h.elim

theorem Validates.again {left : Nat} {schema : TypeSchema} {v w : Value}
    (h : Validates defs left schema v w) : Validates defs left schema w w := by
  induction left generalizing schema v w with
  | zero => exact h.elim
  | succ left ih =>
    obtain ⟨r, hr, h⟩ := h
    refine ⟨r, hr, ?_⟩
    split at h
    · rename_i hnull
      obtain ⟨hnullable, rfl⟩ := h
      have htakes := (Bool.and_eq_true _ _ ▸ hnull).2
      rw [if_pos (show (Value.null.isNull && !r.kind.takesNull) = true
        from htakes)]
      exact ⟨hnullable, rfl⟩
    · rename_i hnull
      rw [if_neg (Bool.eq_false_iff.1 (h.isNull (Bool.eq_false_iff.2 hnull)))]
      cases hkind : r.kind with
      | boolean =>
        rw [hkind] at h
        obtain ⟨b, rfl, rfl⟩ := h
        exact ⟨b, rfl, rfl⟩
      | int64 =>
        rw [hkind] at h
        obtain ⟨i, _, rfl⟩ := h
        exact ⟨i, int64Of_ofI64 i, rfl⟩
      | float64 min max =>
        rw [hkind] at h
        obtain ⟨n, f, rfl, hf, hfinite, hbounds, rfl⟩ := h
        exact ⟨n, f, rfl, hf, hfinite, hbounds, rfl⟩
      | string maxLen =>
        rw [hkind] at h
        obtain ⟨x, rfl, hlen, rfl⟩ := h
        exact ⟨x, rfl, hlen, rfl⟩
      | «enum» values =>
        rw [hkind] at h
        obtain ⟨x, rfl, hmem, rfl⟩ := h
        exact ⟨x, rfl, hmem, rfl⟩
      | object fields =>
        rw [hkind] at h
        obtain ⟨obj, out, rfl, _, hout, rfl⟩ := h
        refine ⟨_, out, rfl, fun k hk => validated_declared hout hk, ?_, rfl⟩
        refine forall₂_imp_mem hout fun entry hentry o ho hvalid => ?_
        have hdet : ∀ s v w w', Validates defs left s v w →
            Validates defs left s v w' → w = w' :=
          fun _ _ _ _ => Validates.det
        exact hvalid.again (fun _ _ _ => ih)
          (validated_get hdet hout hentry ho hvalid)
      | list items maxLen =>
        rw [hkind] at h
        obtain ⟨arr, out, rfl, hlen, hout, rfl⟩ := h
        refine ⟨out, out, rfl, ?_, List.forall₂_same.2 ?_, rfl⟩
        · rw [← hout.length_eq]
          exact hlen
        · intro y hy
          obtain ⟨x, _, hx⟩ := forall₂_right hout hy
          exact ih hx
      | unit =>
        rw [hkind] at h
        obtain ⟨rfl, rfl⟩ := h
        exact ⟨rfl, rfl⟩
      | json =>
        rw [hkind] at h
        obtain ⟨hdepth, rfl⟩ := h
        exact ⟨hdepth, rfl⟩
      | ref name =>
        rw [hkind] at h
        exact h.elim

end Again

-- ==== as long as measured

section Measured

variable [F64Text] {defs : TypeDefs}

theorem FieldValid.bytes {part : TypeSchema → Value → Nat}
    (hV : ∀ s v w, V s v w → part s v = w.size) (h : FieldValid V obj entry o) :
    fieldBytes part obj entry
      = o.map fun e => keyBytes e.1 + e.2.size := by
  unfold FieldValid at h
  unfold fieldBytes
  cases hget : Entries.get obj entry.1 with
  | some v =>
    rw [hget] at h
    obtain ⟨w, hw, rfl⟩ := h
    dsimp only [Option.map_some]
    rw [hV _ _ _ hw]
  | none =>
    rw [hget] at h
    cases hd : entry.2.default with
    | some d =>
      rw [hd] at h
      obtain ⟨w, hw, rfl⟩ := h
      dsimp only [Option.map_some]
      rw [hV _ _ _ hw]
    | none =>
      rw [hd] at h
      obtain ⟨_, rfl⟩ := h
      rfl

/-- What validation returns is as long as what it was given with its
defaults. -/
theorem Validates.size_eq {schema : TypeSchema}
    (h : Validates defs left schema v w) :
    filledBytes defs left schema v = w.size := by
  induction left generalizing schema v w with
  | zero => exact h.elim
  | succ left ih =>
    obtain ⟨r, hr, h⟩ := h
    unfold filledBytes
    rw [hr]
    dsimp only
    split at h
    · rename_i hnull
      obtain ⟨_, rfl⟩ := h
      rw [if_pos hnull]
      cases v with
      | null => rfl
      | _ => cases (Bool.and_eq_true _ _ ▸ hnull).1
    · rename_i hnull
      rw [if_neg hnull]
      cases hkind : r.kind with
      | int64 =>
        rw [hkind] at h
        obtain ⟨i, hi, rfl⟩ := h
        simp only [kindBytes, int64Bytes, hi]
      | object fields =>
        rw [hkind] at h
        obtain ⟨obj, out, rfl, _, hout, rfl⟩ := h
        have hpart : ∀ s v w, Validates defs left s v w →
            filledBytes defs left s v = w.size := fun _ _ _ => ih
        have hfields : (Entries.iter fields).filterMap
            (fieldBytes (filledBytes defs left) obj)
            = (out.filterMap id).map fun e =>
              keyBytes e.1 + e.2.size := by
          rw [List.map_filterMap]
          generalize Entries.iter fields = entries at hout
          induction hout with
          | nil => rfl
          | cons hvalid _ hrest =>
            rw [List.filterMap_cons, List.filterMap_cons,
              hvalid.bytes hpart, hrest]
            rfl
        rw [Value.size_object, ← hfields]
        rfl
      | list items maxLen =>
        rw [hkind] at h
        obtain ⟨arr, out, rfl, hlen, hout, rfl⟩ := h
        have hitems : arr.map (filledBytes defs left items)
            = out.map Value.size := by
          clear hlen hnull
          induction hout with
          | nil => rfl
          | cons hvalid _ hrest =>
            rw [List.map_cons, List.map_cons, ih hvalid, hrest]
        rw [Value.size_array, ← hitems]
        rfl
      | boolean =>
        rw [hkind] at h
        obtain ⟨b, rfl, rfl⟩ := h
        rfl
      | float64 min max =>
        rw [hkind] at h
        obtain ⟨n, f, rfl, _, _, _, rfl⟩ := h
        rfl
      | string maxLen | «enum» values =>
        rw [hkind] at h
        obtain ⟨x, rfl, _, rfl⟩ := h
        rfl
      | unit =>
        rw [hkind] at h
        obtain ⟨rfl, rfl⟩ := h
        rfl
      | json =>
        rw [hkind] at h
        obtain ⟨_, rfl⟩ := h
        rfl
      | ref name =>
        rw [hkind] at h
        exact h.elim

end Measured

-- ==== the defaults

section Defaults

variable [F64Text] {defs : TypeDefs}

/-- Each default that the schema fills in for a field the value leaves out
is accepted where it is filled in, with the levels left there. -/
def DefaultsAccepted (defs : TypeDefs) :
    Nat → TypeSchema → Value → Prop
  | 0, _, _ => True
  | left + 1, schema, v => ∀ r, defs.resolve schema = .ok r →
      KindDefaultsFit (DefaultsAccepted defs left)
        (fun s d => ∃ path w, defs.validateAt left s d path = .ok w)
        r.kind v

/-- A default that is valid as a whole value is accepted anywhere, unless
it is too deep there. -/
theorem default_accepted_iff {l : Nat} {schema : TypeSchema}
    {d : Value} (h : Validates defs l schema d w) :
    (∃ path u, defs.validateAt left schema d path = .ok u)
      ↔ Fits defs left schema d := by
  constructor
  · rintro ⟨path, u, hu⟩
    exact (validateAt_eq_ok.1 hu).fits
  · intro hfits
    exact ⟨"", h.onlyTooDeep.succeeds (hfits.notTooDeep "")⟩

theorem defaultsAccepted_iff {c : Nat} {schema : TypeSchema}
    (h : Checked defs c schema) (hc : c ≤ maxSchemaDepth + 1) :
    DefaultsAccepted defs left schema v ↔ DefaultsFit defs left schema v := by
  induction left generalizing c schema v with
  | zero => exact Iff.rfl
  | succ left ih =>
    obtain ⟨r, c', hr, hlt, hkind⟩ := h.resolve hc
    have hparts : KindDefaultsFit (DefaultsAccepted defs left)
          (fun s d => ∃ path w, defs.validateAt left s d path = .ok w)
          r.kind v
        ↔ KindDefaultsFit (DefaultsFit defs left) (Fits defs left)
          r.kind v := by
      obtain ⟨kind, nullable⟩ := r
      cases kind with
      | object fields =>
        cases v with
        | object obj =>
          refine forall₂_congr fun entry hentry => ?_
          have hfield := hkind.field rfl (Entries.mem_iter.1 hentry)
          unfold FieldDefaultsFit
          cases Entries.get obj entry.1 with
          | some x => exact ih hfield.1 (by omega)
          | none =>
            refine forall₂_congr fun d hd => ?_
            obtain ⟨w, hw⟩ := hfield.2 d hd
            exact default_accepted_iff hw
        | _ => exact Iff.rfl
      | list items maxLen =>
        cases v with
        | array arr =>
          exact forall₂_congr fun x _ =>
            ih (hkind.items rfl) (by omega)
        | _ => exact Iff.rfl
      | _ => exact Iff.rfl
    unfold DefaultsAccepted DefaultsFit
    rw [hr]
    constructor
    · intro h r' hr'
      cases hr'
      exact hparts.1 (h r rfl)
    · intro h r' hr'
      cases hr'
      exact hparts.2 (h r rfl)

end Defaults

-- ==== the normal form

section Normal

variable [F64Text]

/-- What validation is a normal form for, at one value. -/
structure NormalForm (defs : TypeDefs) (schema : TypeSchema)
    (v : Value) : Prop where
  /-- What validates validates to itself. -/
  stable : ∀ w, defs.validate schema v = .ok w →
    defs.validate schema w = .ok w
  /-- It has a typed form, which both of its JSON forms are read as, and
  which gives it back. -/
  typed : ∀ w, defs.validate schema v = .ok w →
    ∃ t, defs.typedValue schema w = .ok t
      ∧ defs.typedValue schema t.toWire = .ok t
      ∧ defs.typedValue schema t.toInternal = .ok t ∧ t.toInternal = w
  /-- A default that is filled in is accepted. -/
  defaults : DefaultsAccepted defs (maxValueDepth + 1) schema v

variable {defs : TypeDefs} {schema : TypeSchema} {path : String}

/-- Validation is a normal form exactly where the defaults that are left
out are within the depth limit where they are filled in, and an accepted
value with its defaults is within the size limit. -/
theorem normalForm_iff (hchecked : defs.checkSchemaAt schema path = .ok ())
    (v : Value) :
    NormalForm defs schema v
      ↔ DefaultsFit defs (maxValueDepth + 1) schema v
        ∧ ((∃ w, defs.validate schema v = .ok w) →
          filledBytes defs (maxValueDepth + 1) schema v
            ≤ maxValueBytes) := by
  have hdefaults : DefaultsAccepted defs (maxValueDepth + 1) schema v
      ↔ DefaultsFit defs (maxValueDepth + 1) schema v :=
    defaultsAccepted_iff ⟨path, [], hchecked⟩ (Nat.le_refl _)
  have hagain {w : Value} (hw : defs.validate schema v = .ok w) :
      defs.validate schema w = .ok w
        ↔ filledBytes defs (maxValueDepth + 1) schema v
          ≤ maxValueBytes := by
    have hvalid := validateAt_eq_ok.1 (guard_ok hw).2
    rw [hvalid.size_eq]
    unfold TypeDefs.validate
    rw [guard_eq_ok, Nat.not_lt]
    exact and_iff_left (validateAt_eq_ok.2 hvalid.again)
  constructor
  · intro h
    refine ⟨hdefaults.1 h.defaults, ?_⟩
    rintro ⟨w, hw⟩
    exact (hagain hw).1 (h.stable w hw)
  · rintro ⟨hfit, hsize⟩
    refine ⟨fun w hw => (hagain hw).2 (hsize ⟨w, hw⟩), fun w hw => ?_,
      hdefaults.2 hfit⟩
    exact (validateAt_eq_ok.1 (guard_ok hw).2).typedValue

end Normal

-- ==== two defaults

section Deep

local instance withoutDoubles : F64Text := noDoubles

/-- A default of 63 levels is filled in, one level down. -/
theorem normalForm_shallow :
    NormalForm .empty (defaulting (nested 62)) (.object []) := by
  have hchecked : TypeDefs.empty.checkSchemaAt (defaulting (nested 62)) ""
      = .ok () := by
    decide +kernel
  obtain ⟨w, hw, hsize⟩ := exists_of_check (by decide +kernel :
    (TypeDefs.empty.validate (defaulting (nested 62))
      (.object [])).toOption.any (fun w => w.size ≤ maxValueBytes) = true)
  have hvalid := validateAt_eq_ok.1 (guard_ok hw).2
  refine (normalForm_iff hchecked (.object [])).2
    ⟨hvalid.fits.defaultsFit, fun _ => ?_⟩
  rw [hvalid.size_eq]
  exact of_decide_eq_true hsize

/-- A default of 64 levels passes the declaration check and is rejected
where it is filled in, and the value with it. -/
theorem not_normalForm_deep :
    TypeDefs.empty.check = .ok ()
      ∧ TypeDefs.empty.checkSchemaAt (defaulting (nested 63)) "" = .ok ()
      ∧ (TypeDefs.empty.validate (defaulting (nested 63))
        (.object [])).toOption.isNone = true
      ∧ ¬NormalForm .empty (defaulting (nested 63)) (.object []) := by
  refine ⟨rfl, by decide +kernel, by decide +kernel, fun h => ?_⟩
  obtain ⟨path, w, hw⟩ := h.defaults _ rfl _ List.mem_cons_self _ rfl
  obtain ⟨r, hr, hjson⟩ := validateAt_eq_ok.1 hw
  cases hr
  have hdepth : (nested 63).depth ≤ 63 := hjson.1
  revert hdepth
  decide +kernel

end Deep

end Tasty.Agent
