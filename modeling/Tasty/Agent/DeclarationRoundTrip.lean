/-
Declarations of value types are read back as they are written, and are
closed: an accepted one has no key that its kind does not declare.

What is read is `Readable`: a schema within the depth, of bounds that are
in order, of values that differ. What is readable is written so that it
is read back; both are inductions on what is left of the depth.
-/
import Tasty.Agent.Declaration

namespace Tasty.Agent

open Entries TypeKind List

variable {fields : List (String × FieldSchema)} {left : Nat}
  {part : ParsePart} {m : Entries Value} {path key k : String}
  {allowed values : List String} {kind : TypeKind}

-- ==== closed objects

/-- The keys that belong to a kind. -/
def TypeKind.declaredKeys : TypeKind → List String
  | .ref _ => ["ref"]
  | .float64 _ _ => ["type", "min", "max"]
  | .string _ => ["type", "max_len"]
  | .enum _ => ["type", "values"]
  | .object _ => ["type", "fields"]
  | .list _ _ => ["type", "items", "max_len"]
  | .boolean | .int64 | .unit | .json => ["type"]

/-- The keys that may stand in the declaration of a kind, or in that of a
field of the kind. -/
def TypeKind.Declares (kind : TypeKind) (asField : Bool) (key : String) :
    Prop :=
  key ∈ kind.declaredKeys ∨ key = "nullable"
    ∨ asField = true ∧ key ∈ fieldKeys

mutual

/-- Every key of a declaration is one that its kind declares, at every
level. -/
def TypeSchema.Closed (asField : Bool) (j : Value) : TypeSchema → Prop
  | ⟨kind, _⟩ => ∃ m, j = .object m
      ∧ (∀ key ∈ Entries.keys m, kind.Declares asField key)
      ∧ kind.ContentClosed m

def TypeKind.ContentClosed (m : Entries Value) : TypeKind → Prop
  | .list items _ => ∃ j, Entries.get m "items" = some j
      ∧ items.Closed false j
  | .object fields => ∃ fm, Entries.get m "fields" = some (.object fm)
      ∧ (∀ name ∈ Entries.keys fm, name ∈ Entries.keys fields)
      ∧ FieldsClosed fm fields
  | _ => True

def FieldsClosed (fm : Entries Value) : List (String × FieldSchema) → Prop
  | [] => True
  | (name, ⟨schema, _, _⟩) :: rest =>
    (∃ j, Entries.get fm name = some j ∧ schema.Closed true j)
      ∧ FieldsClosed fm rest

end

theorem fieldsClosed_iff {fm : Entries Value}
    :
    FieldsClosed fm fields ↔ ∀ e ∈ fields,
      ∃ j, Entries.get fm e.1 = some j ∧ e.2.schema.Closed true j := by
  induction fields with
  | nil => simp [FieldsClosed]
  | cons e fields ih =>
    obtain ⟨name, schema, optional, default⟩ := e
    rw [FieldsClosed, ih, forall_mem_cons]

-- ==== what can be read

mutual

/-- A schema that a declaration can have, with `left` of the depth left. -/
def TypeSchema.Readable : TypeSchema → Nat → Prop
  | _, 0 => False
  | ⟨kind, nullable⟩, left + 1 =>
    kind.Readable left ∧ ¬(nullable = true ∧ kind.takesNull = true)

def TypeKind.Readable : TypeKind → Nat → Prop
  | .float64 min max, _ => (∀ f, min = some f → f.isFinite = true)
      ∧ (∀ f, max = some f → f.isFinite = true)
      ∧ ∀ lo hi, min = some lo → max = some hi → hi.lt lo = false
  | .enum values, _ => values ≠ [] ∧ values.Nodup
  | .object fields, left => Entries.Sorted fields
      ∧ FieldsReadable fields left
  | .list items _, left => items.Readable left
  | _, _ => True

def FieldsReadable : List (String × FieldSchema) → Nat → Prop
  | [], _ => True
  | (_, ⟨schema, _, _⟩) :: rest, left =>
    schema.Readable left ∧ FieldsReadable rest left

end

theorem not_readable_zero (s : TypeSchema) : ¬s.Readable 0 := by
  cases s
  exact id

theorem readable_succ {s : TypeSchema} :
    s.Readable (left + 1) ↔ s.kind.Readable left
      ∧ ¬(s.nullable = true ∧ s.kind.takesNull = true) := by
  cases s
  exact Iff.rfl

theorem fieldsReadable_iff : FieldsReadable fields left
      ↔ ∀ e ∈ fields, e.2.schema.Readable left := by
  induction fields with
  | nil => simp [FieldsReadable]
  | cons e fields ih =>
    obtain ⟨name, schema, optional, default⟩ := e
    rw [FieldsReadable, ih, forall_mem_cons]

-- ==== reading

section Reading

/-- What is known of a part that was read. -/
def PartReads (part : ParsePart) (left : Nat) : Prop :=
  ∀ v path asField p, part v path asField = .ok p →
    p.schema.Readable left ∧ p.schema.Closed asField v
      ∧ (asField = false → p.optional = false ∧ p.default = none)

/-- What is known of a kind that was read. -/
structure KindReads (m : Entries Value) (left : Nat) (kind : TypeKind)
    (allowed : List String) : Prop where
  readable : kind.Readable left
  content : kind.ContentClosed m
  keys : ∀ key ∈ Entries.keys m,
    key ∈ schemaKeysCommon ∨ key ∈ allowed →
      key ∈ kind.declaredKeys ∨ key = "nullable"

theorem parseFieldEntries_eq_ok (hpart : PartReads part left) {fpath : String}
    {fm entries : List (String × Value)} {out : List (String × FieldSchema)}
    (hentries : ∀ e ∈ entries, Entries.get fm e.1 = some e.2)
    (hsorted : Entries.Sorted fields)
    (hfields : ∀ e ∈ fields, e.2.schema.Readable left
      ∧ ∃ j, Entries.get fm e.1 = some j ∧ e.2.schema.Closed true j)
    (h : parseFieldEntries part fpath fields entries = .ok out) :
    Entries.Sorted out
      ∧ (∀ e ∈ out, e.2.schema.Readable left
        ∧ ∃ j, Entries.get fm e.1 = some j ∧ e.2.schema.Closed true j)
      ∧ (∀ name ∈ Entries.keys fields, name ∈ Entries.keys out)
      ∧ ∀ e ∈ entries, e.1 ∈ Entries.keys out := by
  induction entries generalizing fields with
  | nil =>
    cases h
    exact ⟨hsorted, hfields, fun _ h => h, nofun⟩
  | cons e entries ih =>
    obtain ⟨name, fv⟩ := e
    obtain ⟨hfv, hentries⟩ := forall_mem_cons.1 hentries
    obtain ⟨p, hp, hrest⟩ := bind_ok h
    obtain ⟨hread, hclosed, _⟩ := hpart _ _ _ _ hp
    obtain ⟨hs, hout, hkeys, hmem⟩ := ih hentries (hsorted.insert _ _)
      (fun e he => by
        rcases mem_insert he with rfl | he
        · exact ⟨hread, fv, hfv, hclosed⟩
        · exact hfields e he) hrest
    refine ⟨hs, hout, fun n hn => hkeys n ?_, ?_⟩
    · exact mem_keys_insert.2 (.inr hn)
    · rw [forall_mem_cons]
      exact ⟨hkeys name (mem_keys_insert.2 (.inl rfl)), hmem⟩

theorem parseFields_eq_ok (hpart : PartReads part left)     (h : parseFields part m path = .ok fields) :
    (TypeKind.object fields).Readable left
      ∧ (TypeKind.object fields).ContentClosed m := by
  unfold parseFields at h
  dsimp only at h
  split at h
  · rename_i fm hfm
    obtain ⟨hsorted, hfields, _, hmem⟩ := parseFieldEntries_eq_ok hpart
      (fun _ he => mem_iter.1 he) sorted_nil nofun h
    refine ⟨⟨hsorted, fieldsReadable_iff.2 fun e he => (hfields e he).1⟩,
      fm, hfm, fun name hname => ?_,
      fieldsClosed_iff.2 fun e he => (hfields e he).2⟩
    obtain ⟨fv, hfv⟩ :=
      Option.isSome_iff_exists.1 (get_isSome_iff.2 hname)
    exact hmem (name, fv) (mem_iter.2 hfv)
  · cases h

theorem checkSchemaKeys_eq_ok {asField : Bool} :
    checkSchemaKeys m path allowed asField = .ok ()
      ↔ ∀ key ∈ Entries.keys m, key ∈ schemaKeysCommon ∨ key ∈ allowed
        ∨ asField = true ∧ key ∈ fieldKeys := by
  unfold checkSchemaKeys
  split
  · rename_i key hkey
    have hbad := List.find?_some hkey
    refine ⟨nofun, fun hall => ?_⟩
    have := hall key (mem_of_find?_eq_some hkey)
    simp only [← contains_iff_mem] at this
    rcases this with h | h | ⟨h, h'⟩ <;> simp_all
  · rename_i hnone
    refine ⟨fun _ key hkey => ?_, fun _ => rfl⟩
    have := List.find?_eq_none.1 hnone key hkey
    simpa [or_iff_not_imp_left] using this

variable [F64Text]

theorem optFinite_eq_ok {f : F64} (h : optFinite m key path = .ok (some f)) :
    f.isFinite = true := by
  unfold optFinite at h
  split at h
  · cases h
  · split at h
    · rename_i hf
      cases h
      exact (Option.filter_eq_some_iff.1 hf).2
    · cases h

theorem parseEnumItems_eq_ok {vpath : String} {i : Nat}
    {seen : List String} {arr : List Value}
    (h : parseEnumItems vpath i seen arr = .ok values) :
    values.Nodup ∧ (∀ s ∈ values, s ∉ seen) ∧ (arr ≠ [] → values ≠ []) := by
  induction arr generalizing i seen values with
  | nil =>
    cases h
    exact ⟨.nil, nofun, fun h => (h rfl).elim⟩
  | cons item arr ih =>
    unfold parseEnumItems at h
    cases item with
    | string s =>
      dsimp only at h
      split at h
      · cases h
      · rename_i hnew
        obtain ⟨rest, hrest, hv⟩ := bind_ok h
        cases hv
        obtain ⟨hnodup, hout, _⟩ := ih hrest
        refine ⟨nodup_cons.2 ⟨fun hs => ?_, hnodup⟩, ?_, ?_⟩
        · exact hout s hs mem_cons_self
        · rw [forall_mem_cons]
          refine ⟨fun hs => hnew (contains_iff_mem.2 hs), ?_⟩
          exact fun s' hs' hseen =>
            hout s' hs' (mem_cons_of_mem _ hseen)
        · exact fun _ => cons_ne_nil _ _
    | _ => cases h

theorem parseBounds_eq_ok (h : parseBounds m path = .ok kind) :
    ∃ min max, kind = .float64 min max
      ∧ (∀ f, min = some f → f.isFinite = true)
      ∧ (∀ f, max = some f → f.isFinite = true)
      ∧ ∀ lo hi, min = some lo → max = some hi → hi.lt lo = false := by
  obtain ⟨min, hmin, h⟩ := bind_ok h
  obtain ⟨max, hmax, h⟩ := bind_ok h
  have hfinite : (∀ f, min = some f → f.isFinite = true)
      ∧ ∀ f, max = some f → f.isFinite = true :=
    ⟨fun f hf => optFinite_eq_ok (hf ▸ hmin),
      fun f hf => optFinite_eq_ok (hf ▸ hmax)⟩
  refine ⟨min, max, ?_, hfinite.1, hfinite.2, ?_⟩
  · split at h
    · split at h <;> cases h
      rfl
    · cases h
      rfl
  · rintro lo hi rfl rfl
    dsimp only at h
    split at h
    · cases h
    · rename_i hlt
      exact Bool.eq_false_iff.2 hlt

theorem parseEnumValues_eq_ok (h : parseEnumValues m path = .ok values) :
    values ≠ [] ∧ values.Nodup := by
  unfold parseEnumValues at h
  dsimp only at h
  split at h
  · split at h
    · cases h
    · rename_i hne
      obtain ⟨hnodup, _, hsome⟩ := parseEnumItems_eq_ok h
      exact ⟨hsome fun hnil => hne (List.isEmpty_iff.2 hnil), hnodup⟩
  · cases h

theorem parseList_eq_ok (hpart : PartReads part left)     (h : parseList part m path = .ok kind) :
    ∃ items maxLen, kind = .list items maxLen ∧ kind.Readable left
      ∧ kind.ContentClosed m := by
  unfold parseList at h
  split at h
  · cases h
  · rename_i itemsV hitems
    obtain ⟨p, hp, h⟩ := bind_ok h
    obtain ⟨maxLen, _, h⟩ := bind_ok h
    cases h
    obtain ⟨hread, hclosed, _⟩ := hpart _ _ _ _ hp
    exact ⟨p.schema, maxLen, rfl, hread, itemsV, hitems, hclosed⟩

theorem parseNamedKind_eq_ok (hpart : PartReads part left) {ty : String}
    (h : parseNamedKind part m path ty = .ok (kind, allowed)) :
    KindReads m left kind allowed := by
  have hplain {kind : TypeKind} {own : List String}
      (hkeys : kind.declaredKeys = "type" :: own) (key : String) :
      key ∈ schemaKeysCommon ∨ key ∈ own →
        key ∈ kind.declaredKeys ∨ key = "nullable" := by
    rw [hkeys, schemaKeysCommon]
    simp only [mem_cons, not_mem_nil, or_false]
    rintro ((rfl | rfl) | hown)
    · exact .inl (.inl rfl)
    · exact .inr rfl
    · exact .inl (.inr hown)
  unfold parseNamedKind at h
  split at h
  · cases h
    exact ⟨trivial, trivial, fun key _ => hplain rfl key⟩
  · cases h
    exact ⟨trivial, trivial, fun key _ => hplain rfl key⟩
  · obtain ⟨kind, hkind, h⟩ := bind_ok h
    cases h
    obtain ⟨min, max, rfl, hbounds⟩ := parseBounds_eq_ok hkind
    exact ⟨hbounds, trivial, fun key _ => hplain rfl key⟩
  · obtain ⟨maxLen, _, h⟩ := bind_ok h
    cases h
    exact ⟨trivial, trivial, fun key _ => hplain rfl key⟩
  · obtain ⟨values, hvalues, h⟩ := bind_ok h
    cases h
    exact ⟨parseEnumValues_eq_ok hvalues, trivial, fun key _ => hplain rfl key⟩
  · obtain ⟨fields, hfields, h⟩ := bind_ok h
    cases h
    obtain ⟨hread, hclosed⟩ := parseFields_eq_ok hpart hfields
    exact ⟨hread, hclosed, fun key _ => hplain rfl key⟩
  · obtain ⟨kind, hkind, h⟩ := bind_ok h
    cases h
    obtain ⟨items, maxLen, rfl, hread, hclosed⟩ := parseList_eq_ok hpart hkind
    exact ⟨hread, hclosed, fun key _ => hplain rfl key⟩
  · cases h
    exact ⟨trivial, trivial, fun key _ => hplain rfl key⟩
  · cases h
    exact ⟨trivial, trivial, fun key _ => hplain rfl key⟩
  · cases h

theorem parseKind_eq_ok (hpart : PartReads part left)         (h : parseKind part m path = .ok (kind, allowed)) :
    KindReads m left kind allowed := by
  unfold parseKind at h
  split at h
  · split at h
    · cases h
    · rename_i hboth
      split at h
      · cases h
        refine ⟨trivial, trivial, fun key hkey => ?_⟩
        rintro (hcommon | hown)
        · rcases mem_cons.1 hcommon with rfl | hcommon
          · exact (hboth (contains_iff.2 hkey)).elim
          · exact .inr (mem_singleton.1 hcommon)
        · exact .inl hown
      · cases h
  · split at h
    · exact parseNamedKind_eq_ok hpart h
    · cases h
    · cases h

theorem parseSchema_reads (left : Nat) : PartReads (parseSchema left) left := by
  induction left with
  | zero => exact fun _ _ _ _ h => by cases h
  | succ left ih =>
    intro v path asField p h
    cases v with
    | object m =>
      obtain ⟨nullable, _, h⟩ := bind_ok h
      obtain ⟨optional, hopt, h⟩ := bind_ok h
      obtain ⟨⟨kind, allowed⟩, hkind, h⟩ := bind_ok h
      obtain ⟨_, hkeys, h⟩ := bind_ok h
      have hreads := parseKind_eq_ok ih hkind
      split at h
      · cases h
      · rename_i hnull
        cases h
        refine ⟨⟨hreads.readable, by simpa using hnull⟩,
          ⟨m, rfl, fun key hkey => ?_, hreads.content⟩, ?_⟩
        · rcases checkSchemaKeys_eq_ok.1 hkeys key hkey with
            hcommon | hown | hfield
          · exact (hreads.keys key hkey (.inl hcommon)).imp_right .inl
          · exact (hreads.keys key hkey (.inr hown)).imp_right .inl
          · exact .inr (.inr hfield)
        · rintro rfl
          cases hopt
          exact ⟨rfl, rfl⟩
    | _ => cases h

end Reading

-- ==== what is written

theorem get_insertSome_of_ne (h : k ≠ key)
    (v : Option Value) (m : Entries Value) :
    Entries.get (insertSome key v m) k = Entries.get m k := by
  cases v with
  | none => rfl
  | some v => exact (get_insert _ _ _ _).trans (if_neg h)

theorem get_insertSome_self (h : Entries.get m key = none) (v : Option Value) :
    Entries.get (insertSome key v m) key = v := by
  cases v with
  | none => exact h
  | some v => exact (get_insert _ _ _ _).trans (if_pos rfl)

theorem mem_keys_insertSome {v : Option Value}
    (h : k ∈ Entries.keys (insertSome key v m)) :
    k = key ∨ k ∈ Entries.keys m := by
  cases v with
  | none => exact .inr h
  | some v => exact mem_keys_insert.1 h

theorem mem_keys_writeKind (h : k ∈ Entries.keys (kind.writeJson [])) : k ∈ kind.declaredKeys := by
  have hone {key : String} {v : Value}
      (h : k ∈ Entries.keys (Entries.insert key v [])) : k = key := by
    rcases mem_keys_insert.1 h with h | h
    · exact h
    · cases h
  cases kind with
  | boolean | int64 | unit | json | ref _ =>
    exact mem_singleton.2 (hone h)
  | float64 min max =>
    rcases mem_keys_insertSome h with rfl | h
    · simp [declaredKeys]
    · rcases mem_keys_insertSome h with rfl | h
      · simp [declaredKeys]
      · simp [declaredKeys, hone h]
  | string maxLen =>
    rcases mem_keys_insertSome h with rfl | h
    · simp [declaredKeys]
    · simp [declaredKeys, hone h]
  | «enum» values | object fields =>
    rcases mem_keys_insert.1 h with rfl | h
    · simp [declaredKeys]
    · simp [declaredKeys, hone h]
  | list items maxLen =>
    rcases mem_keys_insertSome h with rfl | h
    · simp [declaredKeys]
    · rcases mem_keys_insert.1 h with rfl | h
      · simp [declaredKeys]
      · simp [declaredKeys, hone h]

/-- The keys in which kinds are read. -/
def kindKeys : List String :=
  ["ref", "type", "min", "max", "max_len", "values", "fields", "items"]

theorem declaredKeys_subset (kind : TypeKind) :
    ∀ key ∈ kind.declaredKeys, key ∈ kindKeys := by
  cases kind <;> simp [declaredKeys, kindKeys]

/-- The declaration of a field, or of a schema that is none. -/
def fieldMap (field : FieldSchema) : Entries Value :=
  insertSome "default" field.default
    (insertTrue "optional" field.optional (field.schema.writeJson []))

section Written

variable (field : FieldSchema)

theorem fieldMap_eq : fieldMap field
    = insertSome "default" field.default
        (insertTrue "optional" field.optional
          (insertTrue "nullable" field.schema.nullable
            (field.schema.kind.writeJson []))) := by
  obtain ⟨⟨kind, nullable⟩, optional, default⟩ := field
  rfl

theorem get_fieldMap_of_ne (hd : key ≠ "default")
    (ho : key ≠ "optional") (hn : key ≠ "nullable") :
    Entries.get (fieldMap field) key
      = Entries.get (field.schema.kind.writeJson []) key := by
  rw [fieldMap_eq, get_insertSome_of_ne hd]
  unfold insertTrue
  rw [get_insertSome_of_ne ho, get_insertSome_of_ne hn]

theorem get_writeKind_of_not_mem (kind : TypeKind) (key : String)
    (h : key ∉ kindKeys) : Entries.get (kind.writeJson []) key = none := by
  cases hget : Entries.get (kind.writeJson []) key with
  | none => rfl
  | some v =>
    have hmem := get_isSome_iff.1 (by rw [hget]; rfl)
    exact (h (declaredKeys_subset _ _ (mem_keys_writeKind hmem))).elim

theorem get_fieldMap_nullable : Entries.get (fieldMap field) "nullable"
    = if field.schema.nullable then some (.bool true) else none := by
  rw [fieldMap_eq, get_insertSome_of_ne (by decide)]
  unfold insertTrue
  rw [get_insertSome_of_ne (by decide)]
  exact get_insertSome_self
    (get_writeKind_of_not_mem _ "nullable" (by decide)) _

theorem get_fieldMap_optional : Entries.get (fieldMap field) "optional"
    = if field.optional then some (.bool true) else none := by
  rw [fieldMap_eq, get_insertSome_of_ne (by decide)]
  unfold insertTrue
  refine get_insertSome_self ?_ _
  rw [get_insertSome_of_ne (by decide)]
  exact get_writeKind_of_not_mem _ "optional" (by decide)

theorem get_fieldMap_default :
    Entries.get (fieldMap field) "default" = field.default := by
  rw [fieldMap_eq]
  refine get_insertSome_self ?_ _
  unfold insertTrue
  rw [get_insertSome_of_ne (by decide), get_insertSome_of_ne (by decide)]
  exact get_writeKind_of_not_mem _ "default" (by decide)

theorem mem_keys_fieldMap (h : key ∈ Entries.keys (fieldMap field)) :
    (key = "default" ∧ field.default.isSome = true)
      ∨ (key = "optional" ∧ field.optional = true)
      ∨ key = "nullable" ∨ key ∈ field.schema.kind.declaredKeys := by
  rw [← get_isSome_iff] at h
  by_cases hd : key = "default"
  · rw [hd, get_fieldMap_default] at h
    exact .inl ⟨hd, h⟩
  · by_cases ho : key = "optional"
    · rw [ho, get_fieldMap_optional] at h
      refine .inr (.inl ⟨ho, ?_⟩)
      split at h
      · assumption
      · cases h
    · by_cases hn : key = "nullable"
      · exact .inr (.inr (.inl hn))
      · rw [get_fieldMap_of_ne field hd ho hn, get_isSome_iff] at h
        exact .inr (.inr (.inr (mem_keys_writeKind h)))

/-- Fields in the order of their names are written in that order. -/
theorem writeFields_eq (fm : Entries Value) (hsorted : Entries.Sorted fields)
    (hafter : ∀ k ∈ Entries.keys fm, ∀ name ∈ Entries.keys fields, k < name) :
    writeFields fields fm
      = fm ++ fields.map fun e => (e.1, Value.object (fieldMap e.2)) := by
  induction fields generalizing fm with
  | nil => exact (append_nil _).symm
  | cons e fields ih =>
    obtain ⟨name, schema, optional, default⟩ := e
    obtain ⟨hfirst, hrest⟩ := sorted_cons.1 hsorted
    have hlast : ∀ k ∈ Entries.keys fm, k < name := fun k hk =>
      hafter k hk name mem_cons_self
    rw [writeFields, insert_of_lt hlast, ih _ hrest (lt_of_mem_append hafter
      hfirst), append_assoc]
    rfl

end Written

-- ==== and read back

section Back

/-- What is known of a part that reads what was written. -/
def PartReadsBack (part : ParsePart) (left : Nat) : Prop :=
  ∀ (field : FieldSchema) path asField, field.schema.Readable left →
    (asField = false → field.optional = false ∧ field.default = none) →
    part (.object (fieldMap field)) path asField
      = .ok ⟨field.schema, field.optional, field.default⟩

theorem parseFieldEntries_eq (hpart : PartReadsBack part left) {fpath : String}
    (done : List (String × FieldSchema)) (hsorted : Entries.Sorted fields)
    (hafter : ∀ k ∈ Entries.keys done, ∀ name ∈ Entries.keys fields, k < name)
    (h : FieldsReadable fields left) :
    parseFieldEntries part fpath done
        (fields.map fun e => (e.1, Value.object (fieldMap e.2)))
      = .ok (done ++ fields) := by
  induction fields generalizing done with
  | nil =>
    rw [append_nil]
    rfl
  | cons e fields ih =>
    obtain ⟨name, schema, optional, default⟩ := e
    obtain ⟨hfirst, hrest⟩ := sorted_cons.1 hsorted
    obtain ⟨hread, hfields⟩ := forall_mem_cons.1
      (fieldsReadable_iff.1 h)
    have hlast : ∀ k ∈ Entries.keys done, k < name := fun k hk =>
      hafter k hk name mem_cons_self
    have hback := hpart ⟨schema, optional, default⟩ (childPath fpath name)
      true hread fun h => by cases h
    have hstep := ih (done ++ [(name, ⟨schema, optional, default⟩)])
      hrest
      (lt_of_mem_append hafter hfirst)
      (fieldsReadable_iff.2 hfields)
    rw [append_assoc, ← insert_of_lt hlast] at hstep
    rw [map_cons, parseFieldEntries]
    exact bind_eq_ok.2 ⟨_, hback, hstep⟩

theorem parseFields_eq (hpart : PartReadsBack part left)     (hget : Entries.get m "fields" = some (.object (writeFields fields [])))
    (h : (TypeKind.object fields).Readable left) :
    parseFields part m path = .ok fields := by
  obtain ⟨hsorted, hfields⟩ := h
  have hwritten := writeFields_eq [] hsorted nofun
  rw [nil_append] at hwritten
  have hiter : Entries.iter (writeFields fields [])
      = writeFields fields [] := by
    apply Entries.Sorted.iter_eq
    rw [hwritten]
    unfold Entries.Sorted Entries.keys
    rw [map_map]
    exact hsorted
  unfold parseFields
  dsimp only
  rw [hget]
  show parseFieldEntries part _ [] (Entries.iter _) = _
  rw [hiter, hwritten]
  exact parseFieldEntries_eq hpart [] hsorted nofun hfields

theorem mem_common_or_own {own : List String}
    (h : key ∈ "type" :: own) : key ∈ schemaKeysCommon ∨ key ∈ own := by
  rcases mem_cons.1 h with rfl | h
  · exact .inl (by decide)
  · exact .inr h

variable [F64Text]

theorem parseKind_congr {m' : Entries Value}
    (h : ∀ key ∈ kindKeys, Entries.get m key = Entries.get m' key) :
    parseKind part m path = parseKind part m' path := by
  simp only [kindKeys, forall_mem_cons] at h
  obtain ⟨href, htype, hmin, hmax, hlen, hvalues, hfields, hitems, _⟩ := h
  unfold parseKind parseNamedKind parseBounds parseList parseFields
    parseEnumValues optFinite optU32 Entries.contains
  rw [href, htype, hmin, hmax, hlen, hvalues, hfields, hitems]

theorem optBool_eq (path : String)
    {b : Bool} (h : Entries.get m key = if b then some (.bool true) else none) :
    optBool m key path = .ok b := by
  unfold optBool
  rw [h]
  cases b <;> rfl

theorem optU32_eq {n : Option UInt32} (h : Entries.get m key = n.map ofU32) :
    optU32 m key path = .ok n := by
  unfold optU32
  rw [h]
  cases n with
  | none => rfl
  | some n =>
    have hback : (ofU32 n).asU32 = some n := by
      have hlt : n.toUInt64.toNat < UInt32.size := by
        rw [UInt32.toNat_toUInt64]
        exact n.toNat_lt
      show (if n.toUInt64.toNat < UInt32.size
        then some n.toUInt64.toUInt32 else none) = some n
      rw [if_pos hlt, UInt32.toUInt32_toUInt64]
    simp only [Option.map_some, hback]

theorem optFinite_eq {f : Option F64} (h : Entries.get m key = f.map ofF64)
    (hf : ∀ x, f = some x → x.isFinite = true) :
    optFinite m key path = .ok f := by
  unfold optFinite
  rw [h]
  cases f with
  | none => rfl
  | some f =>
    have hback : ((ofF64 f).asF64).filter F64.isFinite = some f := by
      unfold ofF64
      rw [if_pos (hf f rfl)]
      exact Option.filter_eq_some_iff.2 ⟨rfl, hf f rfl⟩
    simp only [Option.map_some, hback]

theorem parseBounds_eq {min max : Option F64} (hmin : Entries.get m "min" = min.map ofF64)
    (hmax : Entries.get m "max" = max.map ofF64)
    (h : (TypeKind.float64 min max).Readable left) :
    parseBounds m path = .ok (.float64 min max) := by
  obtain ⟨hlo, hhi, horder⟩ := h
  unfold parseBounds
  rw [optFinite_eq hmin hlo, optFinite_eq hmax hhi]
  cases min with
  | none => rfl
  | some lo =>
    cases max with
    | none => rfl
    | some hi =>
      show (if hi.lt lo = true then _ else _) = _
      rw [horder lo hi rfl rfl]
      rfl

theorem parseEnumItems_eq {vpath : String} (i : Nat)
    (seen : List String) (hnodup : values.Nodup)
    (hnew : ∀ s ∈ values, s ∉ seen) :
    parseEnumItems vpath i seen (values.map .string) = .ok values := by
  induction values generalizing i seen with
  | nil => rfl
  | cons s values ih =>
    obtain ⟨hs, hnodup⟩ := nodup_cons.1 hnodup
    obtain ⟨hsnew, hnew⟩ := forall_mem_cons.1 hnew
    have hrest := ih (i + 1) (s :: seen) hnodup fun t ht => by
      rw [mem_cons]
      rintro (rfl | hseen)
      · exact hs ht
      · exact hnew t ht hseen
    show (if seen.contains s = true then _ else _) = _
    rw [if_neg fun h => hsnew (contains_iff_mem.1 h), hrest]
    rfl

theorem parseKind_writeKind (hpart : PartReadsBack part left) (path : String)
    (h : kind.Readable left) :
    ∃ allowed, parseKind part (kind.writeJson []) path = .ok (kind, allowed)
      ∧ ∀ key ∈ kind.declaredKeys, key ∈ schemaKeysCommon ∨ key ∈ allowed := by
  have hnamed (ty : String) {m : Entries Value}
      (href : Entries.get m "ref" = none)
      (htype : Entries.get m "type" = some (.string ty)) :
      parseKind part m path = parseNamedKind part m path ty := by
    unfold parseKind
    rw [href, htype]
  cases kind with
  | boolean | int64 | unit | json =>
    exact ⟨[], rfl, fun _ => mem_common_or_own⟩
  | ref name => exact ⟨["ref"], rfl, fun _ => .inr⟩
  | float64 min max =>
    refine ⟨["min", "max"], ?_, fun _ => mem_common_or_own⟩
    unfold writeJson
    rw [hnamed "float64"]
    · refine bind_eq_ok.2 ⟨_, parseBounds_eq ?_ ?_ h, rfl⟩
      · rw [get_insertSome_of_ne (by decide)]
        exact get_insertSome_self rfl _
      · refine get_insertSome_self ?_ _
        rw [get_insertSome_of_ne (by decide)]
        rfl
    · rw [get_insertSome_of_ne (by decide),
        get_insertSome_of_ne (by decide)]
      rfl
    · rw [get_insertSome_of_ne (by decide),
        get_insertSome_of_ne (by decide)]
      rfl
  | string maxLen =>
    refine ⟨["max_len"], ?_, fun _ => mem_common_or_own⟩
    unfold writeJson
    rw [hnamed "string"]
    · exact bind_eq_ok.2 ⟨_, optU32_eq (get_insertSome_self rfl _), rfl⟩
    · rw [get_insertSome_of_ne (by decide)]
      rfl
    · rw [get_insertSome_of_ne (by decide)]
      rfl
  | «enum» values =>
    refine ⟨["values"], ?_, fun _ => mem_common_or_own⟩
    unfold writeJson
    rw [hnamed "enum" rfl rfl]
    refine bind_eq_ok.2 ⟨values, ?_, rfl⟩
    unfold parseEnumValues
    dsimp only
    rw [get_insert, if_pos rfl]
    dsimp only
    rw [if_neg]
    · exact parseEnumItems_eq _ _ h.2 nofun
    · simpa using h.1
  | object fields =>
    refine ⟨["fields"], ?_, fun _ => mem_common_or_own⟩
    unfold writeJson
    rw [hnamed "object" rfl rfl]
    refine bind_eq_ok.2 ⟨fields, parseFields_eq hpart ?_ h, rfl⟩
    rw [get_insert, if_pos rfl]
  | list items maxLen =>
    refine ⟨["items", "max_len"], ?_, fun _ => mem_common_or_own⟩
    unfold writeJson
    rw [hnamed "list"]
    · refine bind_eq_ok.2 ⟨.list items maxLen, ?_, rfl⟩
      unfold parseList
      rw [get_insertSome_of_ne (by decide), get_insert, if_pos rfl]
      have hitems := hpart ⟨items, false, none⟩ (childPath path "items")
        false h fun _ => ⟨rfl, rfl⟩
      refine bind_eq_ok.2 ⟨_, hitems, bind_eq_ok.2
        ⟨maxLen, optU32_eq (get_insertSome_self rfl _), rfl⟩⟩
    · rw [get_insertSome_of_ne (by decide)]
      rfl
    · rw [get_insertSome_of_ne (by decide)]
      rfl

theorem parseSchema_readsBack (left : Nat) :
    PartReadsBack (parseSchema left) left := by
  induction left with
  | zero => exact fun field _ _ h => (not_readable_zero _ h).elim
  | succ left ih =>
    intro field path asField h hplain
    obtain ⟨hkind, hnull⟩ := readable_succ.1 h
    obtain ⟨allowed, hparse, hkeys⟩ := parseKind_writeKind ih path hkind
    have hother : ∀ key ∈ kindKeys, Entries.get (fieldMap field) key
        = Entries.get (field.schema.kind.writeJson []) key := by
      intro key hkey
      apply get_fieldMap_of_ne <;> rintro rfl <;> revert hkey <;> decide
    have hnullable := optBool_eq path (get_fieldMap_nullable field)
    have hoptional : parseOptional (fieldMap field) path asField
        = .ok field.optional := by
      unfold parseOptional
      cases asField with
      | true => exact optBool_eq path (get_fieldMap_optional field)
      | false => rw [(hplain rfl).1]; rfl
    have hdefault : (if asField = true
        then Entries.get (fieldMap field) "default" else none)
        = field.default := by
      cases asField with
      | true => exact get_fieldMap_default field
      | false => exact (hplain rfl).2.symm
    have hclosed : checkSchemaKeys (fieldMap field) path allowed asField
        = .ok () := by
      refine checkSchemaKeys_eq_ok.2 fun key hkey => ?_
      have hfield (hkey : key ∈ fieldKeys)
          (h : field.default.isSome = true ∨ field.optional = true) :
          asField = true ∧ key ∈ fieldKeys := by
        refine ⟨?_, hkey⟩
        cases asField with
        | true => rfl
        | false =>
          obtain ⟨ho, hd⟩ := hplain rfl
          rw [ho, hd] at h
          simp at h
      rcases mem_keys_fieldMap field hkey with
        ⟨rfl, hd⟩ | ⟨rfl, ho⟩ | rfl | hkind
      · exact .inr (.inr (hfield (by decide) (.inl hd)))
      · exact .inr (.inr (hfield (by decide) (.inr ho)))
      · exact .inl (by decide)
      · exact (hkeys key hkind).imp_right .inl
    refine bind_eq_ok.2 ⟨_, hnullable, bind_eq_ok.2 ⟨_, hoptional,
      bind_eq_ok.2 ⟨_, (parseKind_congr hother).trans hparse,
        bind_eq_ok.2 ⟨(), hclosed, ?_⟩⟩⟩⟩
    rw [hdefault]
    have hnull' : ¬(field.schema.nullable
        && field.schema.kind.takesNull) = true := by
      simpa using hnull
    obtain ⟨⟨kind, nullable⟩, optional, default⟩ := field
    exact if_neg hnull'

end Back

-- ==== the round trip

section RoundTrip

variable [F64Text]

/-- A declaration that is accepted is closed, and its schema is read back
as it is written. -/
theorem fromJson_toJson {j : Value} {s : TypeSchema}
    (h : TypeSchema.fromJson j = .ok s) :
    TypeSchema.fromJson s.toJson = .ok s ∧ s.Closed false j := by
  obtain ⟨p, hp, hs⟩ := bind_ok h
  cases hs
  obtain ⟨hread, hclosed, _⟩ := parseSchema_reads _ _ _ _ _ hp
  have hback := parseSchema_readsBack _ ⟨p.schema, false, none⟩ "" false
    hread fun _ => ⟨rfl, rfl⟩
  exact ⟨bind_eq_ok.2 ⟨_, hback, rfl⟩, hclosed⟩

end RoundTrip

-- ==== a list, say

section Declared

local instance noTexts : F64Text where
  display _ := ""
  json _ := ""
  parse _ := none

/-- A field that is an optional list of integers or nulls. -/
def listDeclaration : Value :=
  .object [("fields", .object [("a", .object
      [("default", .array [.ofI64 1]),
        ("items", .object [("nullable", .bool true),
          ("type", .string "int64")]),
        ("optional", .bool true), ("type", .string "list")])]),
    ("type", .string "object")]

def listSchema : TypeSchema :=
  .new (.object [("a",
    { schema := .new (.list ⟨.int64, true⟩ none)
      optional := true
      default := some (.array [.ofI64 1]) })])

theorem fromJson_toJson_list :
    TypeSchema.fromJson listSchema.toJson = .ok listSchema
      ∧ listSchema.Closed false listDeclaration :=
  fromJson_toJson (by rfl : TypeSchema.fromJson listDeclaration
    = .ok listSchema)

end Declared

end Tasty.Agent
