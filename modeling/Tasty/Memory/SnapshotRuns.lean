/-
The calls on the fields of a blackboard and the calls of a restore, row by
row: a field call leaves the entries of the snapshots alone, and a restore
leaves no live row of a field but its own.
-/
import Tasty.Memory.Blackboard
import Tasty.Memory.PlanRuns
import Tasty.Memory.Rereading

namespace Tasty.Memory

open MemoryStore List

open Agent (Value)

-- ==== the keys

/-- A name of a blackboard or a field. -/
def IsName (name : String) : Prop := '.' ∉ name.toList

variable {name : String}

theorem isName_of_validate {label : String} {max : Nat} {u : Unit}
    (h : validateNameInner name max label = .ok u) : IsName name := by
  intro hdot
  unfold validateNameInner validateIdInner at h
  split at h
  · cases h
  split at h
  · cases h
  split at h
  · cases h
  rename_i hnone
  have hbytes : ∀ b ∈ asBytes name, isIdByte b = true := by
    unfold firstNot at hnone
    rw [Option.map_eq_none_iff, findIdx?_eq_none_iff] at hnone
    intro b hb
    simpa using hnone b hb
  have hmem : (0x2E : UInt8) ∈ asBytes name := by
    rw [asBytes_eq]
    exact mem_flatMap.2 ⟨'.', hdot, by decide⟩
  exact absurd (hbytes _ hmem) (by decide)

/-- What stands before the first dot. -/
theorem takeWhile_name (h : IsName name) (rest : List Char) :
    (name.toList ++ '.' :: rest).takeWhile (· ≠ '.') = name.toList := by
  have hall : ∀ c ∈ name.toList, decide (c ≠ '.') = true := by
    intro c hc
    refine decide_eq_true fun heq => h ?_
    rw [← heq]
    exact hc
  rw [takeWhile_append_of_pos hall]
  simp

theorem fieldKey_ne_snapshotKey {bb bb' field sid : String}
    (hbb : IsName bb) (hbb' : IsName bb') :
    fieldKey bb' field ≠ snapshotKey bb sid := by
  intro heq
  unfold fieldKey fieldsPrefix snapshotKey at heq
  have hchars := congrArg String.toList heq
  simp only [String.toList_append, append_assoc] at hchars
  have hrest := append_cancel_left hchars
  rw [show ".fields.".toList = '.' :: "fields.".toList from rfl,
    show ".snapshots.".toList = '.' :: "snapshots.".toList from rfl,
    cons_append, cons_append] at hrest
  have hnames := congrArg (takeWhile (· ≠ '.')) hrest
  rw [takeWhile_name hbb', takeWhile_name hbb] at hnames
  rw [hnames] at hrest
  have htail := append_cancel_left hrest
  cases htail

theorem likePrefix_self (p rest : String) :
    likePrefix p (p ++ rest) = true := by
  unfold likePrefix
  rw [String.toList_append, map_append]
  exact isPrefixOf_iff_prefix.2 (prefix_append _ _)

theorem likePrefix_metaKey (bb : String) :
    likePrefix (fieldsPrefix bb) (metaKey bb) = false := by
  unfold likePrefix fieldsPrefix metaKey
  simp only [String.toList_append, map_append]
  rw [Bool.eq_false_iff]
  intro h
  have hprefix := (prefix_append_right_inj _).1
    (List.isPrefixOf_iff_prefix.1 h)
  revert hprefix
  decide

theorem fieldOf_fieldKey {bb field : String} {e : MemoryEntry}
    (h : e.key = fieldKey bb field) : fieldOf bb e = (field, e.value) := by
  unfold fieldOf
  rw [h]
  unfold fieldKey
  rw [stripPrefix_append]
  rfl

theorem toLower_eq_dot {c : Char} (h : c.toLower = '.') : c = '.' := by
  unfold Char.toLower at h
  split at h
  · rename_i hupper
    have hval := congrArg (fun c : Char => c.val.toNat) h
    have hle := UInt32.le_iff_toNat_le.1 hupper.1
    have hge := UInt32.le_iff_toNat_le.1 hupper.2
    simp at hval hle hge
    omega
  · exact h

theorem key_of_fieldOf {bb : String} {e : MemoryEntry}
    (hkey : likePrefix (fieldsPrefix bb) e.key = true)
    (hname : IsName (fieldOf bb e).1) :
    e.key = fieldKey bb (fieldOf bb e).1 := by
  unfold fieldOf at hname ⊢
  cases hstrip : stripPrefix (fieldsPrefix bb) e.key with
  | some rest => exact stripPrefix_eq_some.1 hstrip
  | none =>
    rw [hstrip] at hname
    refine absurd ?_ hname
    obtain ⟨t, ht⟩ := isPrefixOf_iff_prefix.1 hkey
    have hdot : '.' ∈ e.key.toList.map Char.toLower := by
      rw [← ht]
      refine mem_append_left _ (mem_map.2 ⟨'.', ?_, by decide⟩)
      unfold fieldsPrefix BB_KEY_PREFIX
      simp [String.toList_append]
    obtain ⟨c, hc, hlower⟩ := mem_map.1 hdot
    rwa [toLower_eq_dot hlower] at hc

-- ==== snapshots as values

namespace SnapshotField

variable {f : F64 → F64}

/-- A field after its snapshot was written and read. -/
def reread (f : F64 → F64) (sf : SnapshotField) : SnapshotField :=
  { sf with payload := sf.payload.mapFloats f }

theorem read_toValue (sf : SnapshotField) : read sf.toValue = some sf := by
  unfold read toValue fieldsOf
  simp [lookup_cons, readString]

theorem mapFloats_toValue (sf : SnapshotField) :
    sf.toValue.mapFloats f = (sf.reread f).toValue := by
  unfold toValue reread
  simp

theorem ordered_toValue {sf : SnapshotField} :
    sf.toValue.Ordered ↔ sf.payload.Ordered := by
  have hkeys : Entries.Sorted [("content_type", Value.string sf.contentType),
      ("field", .string sf.field), ("payload", sf.payload)] := by
    unfold Entries.Sorted
    simp only [Entries.keys, map_cons, map_nil]
    decide
  unfold toValue
  rw [Value.Ordered, Value.orderedEntries_iff]
  simp [hkeys, Value.Ordered]

theorem fromMemory_ordered {value : MemoryValue}
    (h : ∀ v, value = .json v → v.Ordered) :
    (fromMemory name value).payload.Ordered := by
  cases value with
  | json v => exact h v rfl
  | text s | binary b => simp [fromMemory, Value.Ordered]

/-- A captured value comes back of its kind. -/
theorem toMemory_fromMemory (name : String) (value : MemoryValue) :
    ((fromMemory name value).reread f).toMemory = .ok (value.reread f) := by
  unfold toMemory reread fromMemory
  cases value with
  | text s => simp [MemoryValue.reread]
  | json v => simp [MemoryValue.reread]
  | binary b => simp [MemoryValue.reread, decodeB64_encodeB64]

end SnapshotField

namespace BlackboardSnapshot

variable {f : F64 → F64}

def reread (f : F64 → F64) (s : BlackboardSnapshot) : BlackboardSnapshot :=
  { s with
    bbMeta := s.bbMeta.map (Value.mapFloats f)
    fields := s.fields.map (SnapshotField.reread f) }

theorem mapFloats_toValue (s : BlackboardSnapshot) :
    s.toValue.mapFloats f = (s.reread f).toValue := by
  have hfields : (s.fields.map SnapshotField.toValue).map (Value.mapFloats f)
      = (s.fields.map (SnapshotField.reread f)).map SnapshotField.toValue := by
    rw [map_map, map_map]
    exact map_congr_left fun sf _ => sf.mapFloats_toValue
  unfold toValue reread
  cases s.bbMeta <;> simp [← hfields]

theorem fields_read {s s' : BlackboardSnapshot}
    (h : read s.toValue = some s') : s'.fields = s.fields := by
  have hfields : readFields (.array (s.fields.map SnapshotField.toValue))
      = some s.fields :=
    mapM_map_eq_some s.fields fun sf _ => sf.read_toValue
  have htime (t : Int64) : readI64 (.ofI64 t) = some t :=
    Agent.Number.asI64_ofI64 t
  unfold read toValue fieldsOf at h
  cases hmeta : s.bbMeta with
  | none =>
    rw [hmeta] at h
    simp [lookup_cons, readOr, readString, htime, hfields] at h
    rw [← h]
  | some v =>
    rw [hmeta] at h
    simp [lookup_cons, readOr, readString, htime, hfields] at h
    cases hm : readOption some v with
    | none =>
      rw [hm] at h
      cases h
    | some m =>
      rw [hm] at h
      cases h
      rfl

theorem ordered_toValue {s : BlackboardSnapshot}
    (hmeta : ∀ v, s.bbMeta = some v → v.Ordered)
    (hfields : ∀ sf ∈ s.fields, sf.payload.Ordered) : s.toValue.Ordered := by
  have hitems : Value.OrderedItems (s.fields.map SnapshotField.toValue) := by
    rw [Value.orderedItems_iff]
    intro v hv
    obtain ⟨sf, hsf, rfl⟩ := mem_map.1 hv
    exact SnapshotField.ordered_toValue.2 (hfields sf hsf)
  have htime : (Value.ofI64 s.takenAt).Ordered := by
    unfold Value.ofI64
    simp [Value.Ordered]
  unfold toValue
  rw [Value.Ordered, Value.orderedEntries_iff]
  cases hm : s.bbMeta with
  | none =>
    refine ⟨?_, ?_⟩
    · unfold Entries.Sorted
      simp only [Entries.keys, Option.toList_none, map_nil,
        nil_append, cons_append, map_cons]
      decide
    · simp [hitems, htime, Value.Ordered]
  | some v =>
    refine ⟨?_, ?_⟩
    · unfold Entries.Sorted
      simp only [Entries.keys, Option.toList_some, map_nil,
        nil_append, cons_append, map_cons]
      decide
    · simp [hitems, htime, Value.Ordered, hmeta v hm]

theorem ordered_of_toValue {s : BlackboardSnapshot} (h : s.toValue.Ordered) :
    ∀ sf ∈ s.fields, sf.payload.Ordered := by
  intro sf hsf
  unfold toValue at h
  rw [Value.Ordered, Value.orderedEntries_iff] at h
  have harray := h.2 ("fields", .array (s.fields.map SnapshotField.toValue))
    (by simp)
  rw [Value.Ordered, Value.orderedItems_iff] at harray
  exact SnapshotField.ordered_toValue.1
    (harray _ (mem_map_of_mem hsf))

end BlackboardSnapshot

-- ==== the field calls

inductive FieldOp where
  | put (owner : String) (workspaceId : UInt32) (bb field : String)
      (value : MemoryValue) (cas : Option Nat)
  | delete (owner : String) (workspaceId : UInt32) (bb field : String)
      (cas : Option Nat)

/-- The store after a call on a field, whether it is answered or refused. -/
def fieldStep (layer : ValueText) (env : BbEnv) (s : MemoryStore) :
    FieldOp → MemoryStore
  | .put owner workspaceId bb field value cas =>
    (bbPut layer s workspaceId bb env owner field value cas).1
  | .delete owner workspaceId bb field cas =>
    (bbDeleteField s workspaceId bb env owner field cas).1

def fieldRun (layer : ValueText) (s : MemoryStore)
    (calls : List (BbEnv × FieldOp)) : MemoryStore :=
  calls.foldl (fun s c => fieldStep layer c.1 s c.2) s

section Calls

variable {layer : ValueText} {s : MemoryStore} {scope : Scope}
  {bb sid : String}

theorem bbCreate_faithful {workspaceId : UInt32} {schema : Option Value}
    (hs : s.Faithful) (env : BbEnv) (owner : String) :
    (bbCreate layer s workspaceId bb env owner schema).1.Faithful := by
  unfold bbCreate
  dsimp only
  split
  · exact hs
  · exact put_wrote.faithful hs

theorem fieldStep_faithful (hs : s.Faithful) (env : BbEnv) (op : FieldOp) :
    (fieldStep layer env s op).Faithful := by
  cases op with
  | put owner workspaceId bb field value cas =>
    unfold fieldStep bbPut
    dsimp only
    split
    · exact hs
    · exact put_wrote.faithful hs
  | delete owner workspaceId bb field cas =>
    unfold fieldStep bbDeleteField
    dsimp only
    split
    · exact hs
    · exact delete_wrote.faithful hs

theorem fieldStep_rowAt (hbb : IsName bb) (env : BbEnv) (op : FieldOp) :
    (fieldStep layer env s op).rowAt scope (snapshotKey bb sid)
      = s.rowAt scope (snapshotKey bb sid) := by
  have hother {scope' : Scope} {bb' field : String} (hbb' : IsName bb') :
      (scope.asToken, snapshotKey bb sid)
        ≠ (scope'.asToken, fieldKey bb' field) := fun heq =>
    fieldKey_ne_snapshotKey hbb hbb' (Prod.mk.inj heq).2.symm
  cases op with
  | put owner workspaceId bb' field value cas =>
    unfold fieldStep bbPut
    dsimp only
    split
    · rfl
    · rename_i hchecked
      obtain ⟨_, hname, -⟩ := bind_ok hchecked
      cases hput : (s.put layer (env.access 1) owner (.workspace workspaceId)
          (fieldKey bb' field) value { expiresAt := none, cas }).2 with
      | error e => rw [put_error hput]
      | ok version =>
        obtain ⟨-, r, -, hrows⟩ := put_rowAt hput
        unfold rowAt
        rw [hrows, if_neg (hother (isName_of_validate hname))]
  | delete owner workspaceId bb' field cas =>
    unfold fieldStep bbDeleteField
    dsimp only
    split
    · rfl
    · rename_i hchecked
      obtain ⟨_, hname, -⟩ := bind_ok hchecked
      cases hdelete : (s.delete (env.access 0) owner (.workspace workspaceId)
          (fieldKey bb' field) cas).2 with
      | error e => rw [delete_error hdelete]
      | ok u =>
        unfold rowAt
        rw [delete_rowAt hdelete, if_neg (hother (isName_of_validate hname))]

theorem fieldRun_faithful (hs : s.Faithful) (calls : List (BbEnv × FieldOp)) :
    (fieldRun layer s calls).Faithful := by
  induction calls generalizing s with
  | nil => exact hs
  | cons c calls ih => exact ih (fieldStep_faithful hs c.1 c.2)

theorem fieldRun_rowAt (hbb : IsName bb) (calls : List (BbEnv × FieldOp)) :
    (fieldRun layer s calls).rowAt scope (snapshotKey bb sid)
      = s.rowAt scope (snapshotKey bb sid) := by
  induction calls generalizing s with
  | nil => rfl
  | cons c calls ih => exact ih.trans (fieldStep_rowAt hbb c.1 c.2)

end Calls

-- ==== the restore

section Restoring

variable {layer : SnapshotText} {env : BbEnv} {s : MemoryStore}
  {owner bb sid : String} {workspaceId : UInt32}

variable {n : Nat}

/-- The deletes of a restore that are all answered. -/
theorem deleteKeys_rows {keys : List String} (hs : s.Faithful)
    (h : (deleteKeys env owner workspaceId n s keys).2 = .ok ()) :
    (deleteKeys env owner workspaceId n s keys).1.Faithful
      ∧ ∀ k, Table.find Row.place k
          (deleteKeys env owner workspaceId n s keys).1.memory
        = if k.1 = (Scope.workspace workspaceId).asToken ∧ k.2 ∈ keys then none
          else Table.find Row.place k s.memory := by
  induction keys generalizing n s with
  | nil => exact ⟨hs, fun k => (if_neg fun hk => nomatch hk.2).symm⟩
  | cons key rest ih =>
    unfold deleteKeys at h ⊢
    cases hdelete : s.delete (env.access n) owner (.workspace workspaceId)
        key none with
    | mk s' answer =>
      rw [hdelete] at h
      cases answer with
      | error e => cases h
      | ok u =>
        have hrow := delete_rowAt (s := s)
          (congrArg Prod.snd hdelete)
        have hs' : (s.delete (env.access n) owner
            (.workspace workspaceId) key none).1.Faithful :=
          delete_wrote.faithful hs
        rw [hdelete] at hrow hs'
        obtain ⟨hfaithful, hrows⟩ := ih hs' h
        refine ⟨hfaithful, fun k => ?_⟩
        obtain ⟨scope, k⟩ := k
        dsimp only
        rw [hrows, hrow]
        simp only [mem_cons, Prod.mk.injEq]
        by_cases hscope : scope = (Scope.workspace workspaceId).asToken
        · by_cases hk : k = key
          · simp [hscope, hk]
          · simp [hscope, hk]
        · simp [hscope]

theorem restoreMeta_rows {snap : BlackboardSnapshot} (hs : s.Faithful)
    (h : (restoreMeta layer env owner workspaceId bb sid n s snap).2 = .ok ()) :
    (restoreMeta layer env owner workspaceId bb sid n s snap).1.Faithful
      ∧ ∀ k, k.2 ≠ metaKey bb → Table.find Row.place k
          (restoreMeta layer env owner workspaceId bb sid n s snap).1.memory
        = Table.find Row.place k s.memory := by
  unfold restoreMeta at h ⊢
  split
  · exact ⟨hs, fun _ _ => rfl⟩
  · exact ⟨hs, fun _ _ => rfl⟩
  · rename_i hexists
    rw [hexists] at h
    dsimp only [Prod.map] at h ⊢
    obtain ⟨version, hput, -⟩ := map_eq_ok.1 h
    obtain ⟨-, r, -, hrows⟩ := put_rowAt hput
    refine ⟨put_wrote.faithful hs, fun k hk => ?_⟩
    rw [id_eq, hrows, if_neg]
    rintro rfl
    exact hk rfl

/-- A row that a restore has put for a field of the snapshot. -/
def RestoredRow (layer : ValueText) (owner : String) (workspaceId : UInt32)
    (bb : String) (sf : SnapshotField) (r : Row) : Prop :=
  ∃ value before, sf.toMemory = .ok value
    ∧ MemoryStore.PutRow layer owner (fieldKey bb sf.field)
      (.workspace workspaceId) value .default before r

theorem restoreFields_rows {m restored : Nat} {fields : List SnapshotField}
    (hs : s.Faithful)
    (h : (restoreFields layer env owner workspaceId bb n restored s fields).2
      = .ok m) :
    (restoreFields layer env owner workspaceId bb n restored s
        fields).1.Faithful
      ∧ (∀ sf ∈ fields, IsName sf.field)
      ∧ ∀ k, (∃ sf ∈ fields, ∃ r,
          Table.find Row.place k (restoreFields layer env owner workspaceId bb n
            restored s fields).1.memory = some r
          ∧ k = ((Scope.workspace workspaceId).asToken, fieldKey bb sf.field)
          ∧ RestoredRow layer.toValueText owner workspaceId bb sf r)
        ∨ Table.find Row.place k (restoreFields layer env owner workspaceId bb n
            restored s fields).1.memory = Table.find Row.place k s.memory
          ∧ ∀ sf ∈ fields, k
            ≠ ((Scope.workspace workspaceId).asToken, fieldKey bb sf.field) := by
  induction fields generalizing n restored s with
  | nil =>
    exact ⟨hs, fun _ hsf => absurd hsf not_mem_nil,
      fun k => .inr ⟨rfl, fun _ hsf => absurd hsf not_mem_nil⟩⟩
  | cons sf rest ih =>
    unfold restoreFields at h ⊢
    dsimp only at h ⊢
    split at h
    · cases h
    rename_i value hchecked
    obtain ⟨_, hname, hvalue⟩ := bind_ok hchecked
    have hput : (s.put layer.toValueText (env.access n) owner
        (.workspace workspaceId) (fieldKey bb sf.field) value
        .default).1.Faithful := put_wrote.faithful hs
    have hrow := @MemoryStore.put_rowAt layer.toValueText (env.access n) s
      owner (fieldKey bb sf.field) (.workspace workspaceId) value .default
    cases hs' : s.put layer.toValueText (env.access n) owner
        (.workspace workspaceId) (fieldKey bb sf.field) value .default with
    | mk s' answer =>
      rw [hs'] at h hput hrow
      cases answer with
      | error e => cases h
      | ok version =>
        obtain ⟨-, r, hr, hrows⟩ := hrow rfl
        obtain ⟨hfaithful, hnames, hfields⟩ := ih hput h
        refine ⟨hfaithful, ?_, fun k => ?_⟩
        · intro sf' hsf'
          rcases mem_cons.1 hsf' with rfl | hsf'
          · exact isName_of_validate hname
          · exact hnames sf' hsf'
        · rcases hfields k with ⟨sf', hsf', hfield⟩ | ⟨hsame, hother⟩
          · exact .inl ⟨sf', mem_cons_of_mem _ hsf', hfield⟩
          · by_cases hk : k = ((Scope.workspace workspaceId).asToken,
              fieldKey bb sf.field)
            · refine .inl ⟨sf, mem_cons_self, r, ?_, hk, value, _, hvalue, hr⟩
              rw [hsame, hrows, if_pos hk]
            · refine .inr ⟨?_, ?_⟩
              · rw [hsame, hrows, if_neg hk]
              · intro sf' hsf'
                rcases mem_cons.1 hsf' with rfl | hsf'
                · exact hk
                · exact hother sf' hsf'

theorem bbSnapshotRestore_rows (hs : s.Faithful)
    (h : (bbSnapshotRestore layer env s owner workspaceId bb sid).2 = .ok n) :
    ∃ snap, bbSnapshotGet layer s workspaceId bb sid (env.access 0)
        = .ok (some snap)
      ∧ (bbSnapshotRestore layer env s owner workspaceId bb sid).1.Faithful
      ∧ (∀ sf ∈ snap.fields, IsName sf.field)
      ∧ (∀ sf ∈ snap.fields, ∃ r ∈ (bbSnapshotRestore layer env s owner
          workspaceId bb sid).1.memory, ∃ sf' ∈ snap.fields,
          sf'.field = sf.field
          ∧ RestoredRow layer.toValueText owner workspaceId bb sf' r)
      ∧ ∀ r ∈ (bbSnapshotRestore layer env s owner workspaceId bb sid).1.memory,
        r.scope = (Scope.workspace workspaceId).asToken →
        likePrefix (fieldsPrefix bb) r.key = true →
          (∃ sf ∈ snap.fields,
            RestoredRow layer.toValueText owner workspaceId bb sf r)
          ∨ r.isExpired (env.access 1).now = true := by
  unfold bbSnapshotRestore at h ⊢
  cases hread : restoreOf layer env s workspaceId bb sid with
  | error e =>
    rw [hread] at h
    cases h
  | ok read =>
    obtain ⟨snap, entries⟩ := read
    rw [hread] at h
    dsimp only at h ⊢
    have hkeys := @deleteKeys_rows env s owner workspaceId 2
      (entries.map MemoryEntry.key) hs
    cases hdeleted : deleteKeys env owner workspaceId 2 s
        (entries.map MemoryEntry.key) with
    | mk s₁ answer =>
    rw [hdeleted] at h hkeys
    cases answer with
    | error e => cases h
    | ok u =>
    obtain ⟨hs₁, hrows₁⟩ := hkeys rfl
    dsimp only at h ⊢ hs₁ hrows₁
    have hmeta := @restoreMeta_rows layer env s₁ owner bb sid workspaceId
      (2 + entries.length) snap hs₁
    cases hdone : restoreMeta layer env owner workspaceId bb sid
        (2 + entries.length) s₁ snap with
    | mk s₂ answer =>
    rw [hdone] at h hmeta
    cases answer with
    | error e => cases h
    | ok u =>
    obtain ⟨hs₂, hrows₂⟩ := hmeta rfl
    dsimp only at h ⊢ hs₂ hrows₂
    obtain ⟨hs₃, hnames, hrows₃⟩ := restoreFields_rows hs₂ h
    unfold restoreOf at hread
    have hread := then_ok (then_ok hread)
    obtain ⟨found, hget, hread⟩ := bind_ok hread
    cases found with
    | none => cases hread
    | some snap' =>
    obtain ⟨entries', hlist, hread⟩ := bind_ok hread
    cases hread
    refine ⟨snap, hget, hs₃, hnames, ?_, ?_⟩
    · intro sf hsf
      rcases hrows₃ ((Scope.workspace workspaceId).asToken,
        fieldKey bb sf.field) with ⟨sf', hsf', r, hfind, hk, hr⟩ | ⟨-, hother⟩
      · refine ⟨r, Table.find_mem hfind, sf', hsf', ?_, hr⟩
        exact (append_left_cancel (Prod.mk.inj hk).2).symm
      · exact absurd rfl (hother sf hsf)
    · intro r hr hscope hkey
      have hfind := hs₃.unique.find_eq_some.2 ⟨hr, rfl⟩
      rcases hrows₃ r.place with ⟨sf, hsf, r', hfind', -, hr'⟩ | ⟨hsame, -⟩
      · rw [hfind] at hfind'
        cases hfind'
        exact .inl ⟨sf, hsf, hr'⟩
      · right
        have hmetaKey : r.place.2 ≠ metaKey bb := by
          intro heq
          rw [show r.key = metaKey bb from heq, likePrefix_metaKey] at hkey
          cases hkey
        rw [hsame, hrows₂ _ hmetaKey, hrows₁] at hfind
        split at hfind
        · cases hfind
        · rename_i hkept
          by_contra hlive
          have hlist := then_ok hlist
          obtain ⟨e, he, hentry⟩ := (list_eq_ok hlist).2 r
            (Table.find_mem hfind) (Bool.eq_false_iff.2 hlive) hscope hkey
          refine hkept ⟨hscope, mem_map.2 ⟨e, he, ?_⟩⟩
          unfold Row.entry at hentry
          split at hentry
          · cases hentry
          · cases hentry
            rfl

end Restoring

end Tasty.Memory
