/-
What a snapshot captures and what a restore of it brings back: the names,
the texts and the bytes as they were, JSON as its text is read twice.
-/
import Tasty.Memory.SnapshotRuns

namespace Tasty.Memory

open SnapshotField MemoryStore List

open Agent (Value)

variable {r : Row} {e : MemoryEntry} {access : Env}

-- ==== the snapshot

section Capturing

variable {layer : SnapshotText} {f : F64 → F64} {env : BbEnv} {s : MemoryStore}
  {owner bb sid : String} {workspaceId : UInt32} {captured : List MemoryEntry}

variable (hlayer : Rereads layer.toValueText f)

include hlayer

theorem ordered_of_entry (h : r.entry layer.toValueText false = .ok e) :
    ∀ v, e.value = .json v → v.Ordered := by
  unfold Row.entry at h
  split at h
  · cases h
  · rename_i value hvalue
    cases h
    intro v hv
    obtain rfl : value = .json v := hv
    exact MemoryValue.ordered_of_fromDb hlayer hvalue

theorem entry_of_put {key : String} {scope : Scope} {value : MemoryValue}
    {opts : PutOpts} {before : Option Row}    
    (hvalue : ∀ v, value = .json v → v.Ordered)
    (hr : MemoryStore.PutRow layer.toValueText owner key scope value opts before
      r) (h : r.entry layer.toValueText false = .ok e) :
    e.key = key ∧ e.value = value.reread f := by
  unfold Row.entry at h
  split at h
  · cases h
  · rename_i value' hread
    cases h
    rw [hr.contentType] at hread
    exact ⟨(Prod.mk.inj hr.place).2,
      MemoryValue.fromDb_toBytes hlayer hvalue hr.bytes hread⟩

theorem ordered_of_get {scope : Scope} {key : String}
    (h : s.get layer.toValueText access scope key = .ok (some e)) :
    ∀ v, e.value = .json v → v.Ordered := by
  obtain ⟨-, -, h⟩ := get_eq_ok h
  unfold getRow at h
  split at h
  · cases h
  split at h
  · cases h
  obtain ⟨e', hentry, heq⟩ := map_eq_ok.1 h
  cases heq
  exact ordered_of_entry hlayer hentry

theorem ordered_of_bbGetAll {entries : List MemoryEntry}
    (h : bbGetAll layer.toValueText s workspaceId bb access = .ok entries) :
    ∀ e ∈ entries, ∀ v, e.value = .json v → v.Ordered := by
  obtain ⟨_, -, hlist⟩ := bind_ok h
  intro e he
  obtain ⟨r, -, -, -, -, hentry⟩ := (list_eq_ok hlist).1 e he
  exact ordered_of_entry hlayer hentry

theorem snapshotOf_fields {snap : BlackboardSnapshot}
    (hcaptured : bbGetAll layer.toValueText s workspaceId bb (env.access 2)
      = .ok captured)
    (h : snapshotOf layer env s owner workspaceId bb sid = .ok snap) :
    snap.fields = captured.map (fun e =>
        fromMemory (fieldOf bb e).1 e.value) ∧ snap.toValue.Ordered := by
  unfold snapshotOf at h
  have h := then_ok (then_ok h)
  obtain ⟨metaEntry, hmeta, h⟩ := bind_ok h
  have h := then_ok h
  obtain ⟨_, -, h⟩ := bind_ok h
  have h := then_ok h
  rw [hcaptured] at h
  obtain ⟨_, hentries, h⟩ := bind_ok h
  cases hentries
  cases h
  refine ⟨rfl, BlackboardSnapshot.ordered_toValue ?_ ?_⟩
  · intro v hv
    obtain ⟨e, rfl, hjson⟩ := Option.bind_eq_some_iff.1 hv
    obtain ⟨_, -, hget⟩ := bind_ok hmeta
    split at hjson
    · rename_i v' hv'
      cases hjson
      exact ordered_of_get hlayer hget v hv'
    · cases hjson
  · intro sf hsf
    obtain ⟨e, he, rfl⟩ := mem_map.1 hsf
    exact fromMemory_ordered
      (ordered_of_bbGetAll hlayer hcaptured e he)

omit hlayer

/-- The entry of a snapshot that was taken. -/
theorem bbSnapshot_row {version : Nat}
    (h : (bbSnapshot layer env s owner workspaceId bb sid).2 = .ok version) :
    ∃ snap before r, snapshotOf layer env s owner workspaceId bb sid = .ok snap
      ∧ (bbSnapshot layer env s owner workspaceId bb sid).1.rowAt
        (.workspace workspaceId) (snapshotKey bb sid) = some r
      ∧ MemoryStore.PutRow layer.toValueText owner (snapshotKey bb sid)
        (.workspace workspaceId) (.json snap.toValue) .default before r := by
  unfold bbSnapshot at h ⊢
  split at h
  · cases h
  rename_i snap hsnap
  obtain ⟨-, r, hr, hrows⟩ := put_rowAt h
  refine ⟨snap, _, r, hsnap, ?_, hr⟩
  unfold rowAt
  rw [hrows, if_pos rfl]

theorem bbSnapshotGet_fields {owner' : String} {snap snap' : BlackboardSnapshot}
    {before : Option Row}
    (hlayer : Rereads layer.toValueText f) (hordered : snap.toValue.Ordered)
    (hrow : s.rowAt (.workspace workspaceId) (snapshotKey bb sid) = some r)
    (hr : MemoryStore.PutRow layer.toValueText owner' (snapshotKey bb sid)
      (.workspace workspaceId) (.json snap.toValue) .default before r)
    (h : bbSnapshotGet layer s workspaceId bb sid access = .ok (some snap')) :
    snap'.fields = snap.fields.map (SnapshotField.reread f)
      ∧ ∀ sf ∈ snap'.fields, sf.payload.Ordered := by
  unfold bbSnapshotGet at h
  have h := then_ok (then_ok h)
  obtain ⟨entry, hget, h⟩ := bind_ok h
  have hlive : r.isExpired access.now = false := by
    unfold Row.isExpired
    rw [hr.expiresAt]
    rfl
  obtain ⟨e, rfl, hentry⟩ := get_of_some hget hrow hlive
  obtain ⟨-, hvalue⟩ := entry_of_put hlayer
    (fun v hv => by cases hv; exact hordered) hr hentry
  dsimp only at h
  rw [hvalue] at h
  dsimp only [MemoryValue.reread] at h
  rw [snap.mapFloats_toValue] at h
  have hread : (snap.reread f).toValue.Ordered := by
    rw [← snap.mapFloats_toValue]
    exact ordered_of_entry hlayer hentry _ hvalue
  split at h
  · rename_i hsnap
    cases h
    have hfields := BlackboardSnapshot.fields_read hsnap
    rw [hfields]
    exact ⟨rfl, BlackboardSnapshot.ordered_of_toValue hread⟩
  · cases h

/-- A field that was restored, as a listing shows it: its value has been
read twice. -/
theorem fieldOf_restored {name : String} {value : MemoryValue}
    (hlayer : Rereads layer.toValueText f)
    (hordered : ((fromMemory name value).reread f).payload.Ordered)
    (hr : RestoredRow layer.toValueText owner workspaceId bb
      ((fromMemory name value).reread f) r)
    (h : r.entry layer.toValueText false = .ok e) :
    fieldOf bb e = (name, (value.reread f).reread f) := by
  obtain ⟨put, before, hput, hr⟩ := hr
  rw [toMemory_fromMemory] at hput
  cases hput
  have hname : ((fromMemory name value).reread f).field
      = name := by
    cases value <;> rfl
  have hjson : ∀ v, value.reread f = .json v → v.Ordered := by
    intro v hv
    cases value with
    | json j =>
      cases hv
      exact hordered
    | text s => cases hv
    | binary b => cases hv
  obtain ⟨hkey, hvalue⟩ := entry_of_put hlayer hjson hr h
  rw [hname] at hkey
  rw [fieldOf_fieldKey hkey, hvalue]

theorem value_of_fieldOf {e' : MemoryEntry} (hs : s.Faithful)
    (hcaptured : bbGetAll layer.toValueText s workspaceId bb access
      = .ok captured) (hnames : ∀ e ∈ captured, IsName (fieldOf bb e).1)
    (he : e ∈ captured) (he' : e' ∈ captured)
    (hsame : (fieldOf bb e).1 = (fieldOf bb e').1) : e.value = e'.value := by
  obtain ⟨_, -, hlist⟩ := bind_ok hcaptured
  have hrow (e : MemoryEntry) (he : e ∈ captured) :
      ∃ r ∈ s.memory, r.entry layer.toValueText false = .ok e
        ∧ r.place = ((Scope.workspace workspaceId).asToken,
          fieldKey bb (fieldOf bb e).1) := by
    obtain ⟨r, hr, -, hscope, hkey, hentry⟩ :=
      (list_eq_ok hlist).1 e he
    have heq : e.key = r.key := by
      unfold Row.entry at hentry
      split at hentry
      · cases hentry
      · cases hentry
        rfl
    refine ⟨r, hr, hentry, Prod.ext hscope ?_⟩
    rw [← heq] at hkey
    exact heq.symm.trans (key_of_fieldOf hkey (hnames e he))
  obtain ⟨r, hr, hentry, hplace⟩ := hrow e he
  obtain ⟨r', hr', hentry', hplace'⟩ := hrow e' he'
  rw [hsame, ← hplace'] at hplace
  rw [hs.unique.eq_of_key hr hr' hplace, hentry'] at hentry
  cases hentry
  rfl

/-- The fields after a restore are those that were captured, with what they
held read twice. -/
theorem restored_fields {owner' : String} {env' : BbEnv}
    {calls : List (BbEnv × FieldOp)} {version n : Nat}
    {after : List MemoryEntry} (hlayer : Rereads layer.toValueText f)
    (hs : s.Faithful)
    (hcaptured : bbGetAll layer.toValueText s workspaceId bb (env.access 2)
      = .ok captured)
    (hsnapshot : (bbSnapshot layer env s owner workspaceId bb sid).2
      = .ok version)
    (hrestore : (bbSnapshotRestore layer env' (fieldRun layer.toValueText
      (bbSnapshot layer env s owner workspaceId bb sid).1 calls) owner'
      workspaceId bb sid).2 = .ok n) (hclock : (env'.access 1).now ≤ access.now)
    (hafter : bbGetAll layer.toValueText
      (bbSnapshotRestore layer env' (fieldRun layer.toValueText
        (bbSnapshot layer env s owner workspaceId bb sid).1 calls) owner'
        workspaceId bb sid).1 workspaceId bb access = .ok after) :
    (∀ x, x ∈ after.map (fieldOf bb) ↔ ∃ e ∈ captured,
        x = ((fieldOf bb e).1, (e.value.reread f).reread f))
      ∧ ∀ e ∈ captured, ∀ e' ∈ captured,
        (fieldOf bb e).1 = (fieldOf bb e').1 → e.value = e'.value := by
  obtain ⟨snap, before, r₀, hsnap, hrow, hr₀⟩ := bbSnapshot_row hsnapshot
  obtain ⟨hfields, hordered⟩ := snapshotOf_fields hlayer hcaptured hsnap
  have hbb : IsName bb := by
    obtain ⟨_, hname, -⟩ := bind_ok hcaptured
    exact isName_of_validate hname
  have hs₁ : (bbSnapshot layer env s owner workspaceId bb sid).1.Faithful := by
    unfold bbSnapshot
    split
    · exact hs
    · exact put_wrote.faithful hs
  obtain ⟨snap', hget, hs₃, hnames, hput, honly⟩ :=
    bbSnapshotRestore_rows (fieldRun_faithful hs₁ calls) hrestore
  obtain ⟨hfields', hpayloads⟩ := bbSnapshotGet_fields hlayer hordered
    ((fieldRun_rowAt hbb calls).trans hrow) hr₀ hget
  have hcell (sf : SnapshotField) : sf ∈ snap'.fields ↔ ∃ e ∈ captured,
      (fromMemory (fieldOf bb e).1 e.value).reread f = sf := by
    rw [hfields', hfields, map_map]
    exact mem_map
  have hfield (name : String) (value : MemoryValue) :
      ((fromMemory name value).reread f).field = name := by
    cases value <;> rfl
  have hone : ∀ e ∈ captured, ∀ e' ∈ captured,
      (fieldOf bb e).1 = (fieldOf bb e').1 → e.value = e'.value := by
    intro e he e' he' hsame
    refine value_of_fieldOf hs hcaptured (fun e he => ?_) he he' hsame
    have hname := hnames _ ((hcell _).2 ⟨e, he, rfl⟩)
    rwa [hfield] at hname
  refine ⟨fun x => ?_, hone⟩
  obtain ⟨_, -, hlist⟩ := bind_ok hafter
  obtain ⟨hlisted, hlists⟩ := list_eq_ok hlist
  rw [mem_map]
  constructor
  · intro h
    obtain ⟨e', he', rfl⟩ := h
    obtain ⟨r, hr, hlive, hscope, hkey, hentry⟩ := hlisted e' he'
    rcases honly r hr hscope hkey with ⟨sf, hsf, hrestored⟩ | hexpired
    · obtain ⟨e, he, rfl⟩ := (hcell sf).1 hsf
      exact ⟨e, he, fieldOf_restored hlayer (hpayloads _ hsf) hrestored hentry⟩
    · have hstill : r.isExpired access.now = true := by
        unfold Row.isExpired at hexpired ⊢
        split at hexpired
        · exact decide_eq_true ((of_decide_eq_true hexpired).trans hclock)
        · cases hexpired
      rw [hstill] at hlive
      cases hlive
  · intro h
    obtain ⟨e, he, rfl⟩ := h
    obtain ⟨r, hr, sf, hsf, hsame, hrestored⟩ :=
      hput _ ((hcell _).2 ⟨e, he, rfl⟩)
    obtain ⟨e₂, he₂, rfl⟩ := (hcell sf).1 hsf
    rw [hfield, hfield] at hsame
    have hplace : r.place = ((Scope.workspace workspaceId).asToken,
        fieldKey bb (fieldOf bb e₂).1) ∧ r.expiresAt = none := by
      obtain ⟨_, _, -, hr⟩ := hrestored
      rw [← hfield (fieldOf bb e₂).1 e₂.value]
      exact ⟨hr.place, hr.expiresAt⟩
    have hlive : r.isExpired access.now = false := by
      unfold Row.isExpired
      rw [hplace.2]
    have hkey : likePrefix (fieldsPrefix bb) r.key = true := by
      rw [show r.key = fieldKey bb (fieldOf bb e₂).1 from
        (Prod.mk.inj hplace.1).2]
      exact likePrefix_self _ _
    obtain ⟨e', he', hentry⟩ := hlists r hr hlive (Prod.mk.inj hplace.1).1 hkey
    refine ⟨e', he', ?_⟩
    rw [fieldOf_restored hlayer (hpayloads _ hsf) hrestored hentry, hsame,
      hone e₂ he₂ e he hsame]

end Capturing

/-- A restore brings the captured fields back exactly where JSON numbers
come back from their text; base64 text is read as it was written, and what
has a misplaced `=` is refused for its length or for another byte only. -/
theorem snapshot_restores (layer : SnapshotText) (f : F64 → F64)
    (hlayer : Rereads layer.toValueText f) (s : MemoryStore) (hs : s.Faithful)
    (env env' : BbEnv) (owner owner' : String) (workspaceId : UInt32)
    (bb snapshotId : String) (captured : List MemoryEntry)
    (hcaptured : bbGetAll layer.toValueText s workspaceId bb (env.access 2)
      = .ok captured) (version : Nat)
    (hsnapshot : (bbSnapshot layer env s owner workspaceId bb snapshotId).2
      = .ok version) (calls : List (BbEnv × FieldOp)) (restored : Nat)
    (hrestore : (bbSnapshotRestore layer env' (fieldRun layer.toValueText
      (bbSnapshot layer env s owner workspaceId bb snapshotId).1 calls) owner'
      workspaceId bb snapshotId).2 = .ok restored) (access : Env)
    (hclock : (env'.access 1).now ≤ access.now) (after : List MemoryEntry)
    (hafter : bbGetAll layer.toValueText
      (bbSnapshotRestore layer env' (fieldRun layer.toValueText
        (bbSnapshot layer env s owner workspaceId bb snapshotId).1 calls) owner'
        workspaceId bb snapshotId).1 workspaceId bb access = .ok after) :
    ((∀ x, x ∈ after.map (fieldOf bb) ↔ x ∈ captured.map (fieldOf bb))
        ↔ ∀ e ∈ captured, ∀ v, e.value = .json v →
          (v.mapFloats f).mapFloats f = v)
      ∧ (∀ bytes, decodeB64 (encodeB64 bytes) = .ok bytes)
      ∧ ∀ text, MisplacedPad text → ((∃ e, decodeB64 text = .error e)
        ↔ (asBytes (trim text)).length % 4 ≠ 0
          ∨ (asBytes (trim text)).all isBase64Byte = false) := by
  refine ⟨?_, decodeB64_encodeB64, fun text _ => decodeB64_refuses text⟩
  obtain ⟨hfields, hone⟩ := restored_fields hlayer hs hcaptured hsnapshot
    hrestore hclock hafter
  have hexact (value : MemoryValue) : (value.reread f).reread f = value
      ↔ ∀ v, value = .json v → (v.mapFloats f).mapFloats f = v := by
    cases value <;> simp [MemoryValue.reread]
  simp only [← hexact]
  constructor
  · intro h e he
    -- the entry is listed after the restore, as one that was reread
    obtain ⟨e', he', heq⟩ := (hfields _).1
      ((h _).2 (List.mem_map_of_mem he))
    obtain ⟨hname, hvalue⟩ := Prod.mk.inj heq
    rw [hone e he e' he' hname]
    rw [← hvalue]
    exact hone e he e' he' hname
  · intro h x
    rw [hfields, List.mem_map]
    constructor
    · intro hx
      obtain ⟨e, he, rfl⟩ := hx
      exact ⟨e, he, by rw [h e he]; rfl⟩
    · intro hx
      obtain ⟨e, he, rfl⟩ := hx
      exact ⟨e, he, by rw [h e he]; rfl⟩

/-- Padding may stand first. -/
theorem decodeB64_accepts_misplaced :
    ¬ ∀ text, MisplacedPad text → ∃ e, decodeB64 text = .error e := by
  intro h
  obtain ⟨e, he⟩ := h "=AAA" ⟨0, by decide, by decide⟩
  have hread : (decodeB64 "=AAA").isOk = true := by decide +kernel
  rw [he] at hread
  cases hread

/-- A text layer that knows the values of a table and their texts. -/
def tableText (table : List (Value × List UInt8)) : SnapshotText where
  toVec v :=
    match table.find? fun row => row.1.identical v with
    | some (_, bytes) => .ok bytes
    | none => .error "another value"
  fromSlice bytes :=
    match table.find? (·.2 = bytes) with
    | some (v, _) => .ok v
    | none => .error "another text"
  utf8Error _ := "not utf8"
  snapshotError _ := "no snapshot"

theorem tableText_rereads {table : List (Value × List UInt8)} {f : F64 → F64}
    (hbytes : (table.map Prod.snd).Nodup)
    (hordered : ∀ row ∈ table, row.1.Ordered)
    (hwhole : ∀ row ∈ table, row.1.mapFloats f = row.1) :
    Rereads (tableText table).toValueText f where
  ordered := by
    intro bytes v hslice
    unfold tableText at hslice
    dsimp only at hslice
    split at hslice
    · rename_i hfind
      cases hslice
      exact hordered _ (mem_of_find?_eq_some hfind)
    · cases hslice
  reads := by
    intro v bytes v' _ hvec hslice
    unfold tableText at hvec hslice
    dsimp only at hvec hslice
    split at hvec
    · rename_i w _ hfind
      cases hvec
      obtain rfl : w = v := (Value.identical_iff _ _).1 (List.find?_some hfind :)
      have hmem := mem_of_find?_eq_some hfind
      split at hslice
      · rename_i w' bytes' hfind'
        cases hslice
        have hsame : bytes' = bytes :=
          of_decide_eq_true (List.find?_some hfind' :)
        rw [hwhole _ hmem]
        exact (Prod.mk.inj (inj_on_of_nodup_map hbytes
          (mem_of_find?_eq_some hfind') hmem hsame)).1
      · cases hslice
    · cases hvec

def boardMeta : BlackboardMeta where
  name := "b"
  schema := none
  createdAt := 1
  createdBy := "_host"

def boardSnapshot : BlackboardSnapshot where
  bbName := "b"
  snapshotId := "v"
  takenAt := 1
  takenBy := "_host"
  bbMeta := some boardMeta.toValue
  fields := [.fromMemory "x" (.text "1"), .fromMemory "y" (.binary [0xFB])]

def boardTexts : List (Value × List UInt8) :=
  [(boardMeta.toValue, asBytes
      "\x7b\"created_at\":1,\"created_by\":\"_host\",\"name\":\"b\"\x7d"),
    (boardSnapshot.toValue, asBytes ("\x7b\"bb_name\":\"b\",\"fields\":["
      ++ "\x7b\"content_type\":\"text/plain\",\"field\":\"x\","
      ++ "\"payload\":\"1\"\x7d,"
      ++ "\x7b\"content_type\":\"application/octet-stream\","
      ++ "\"field\":\"y\",\"payload\":\"+w==\"\x7d],"
      ++ "\"meta\":\x7b\"created_at\":1,\"created_by\":\"_host\","
      ++ "\"name\":\"b\"\x7d,\"snapshot_id\":\"v\",\"taken_at\":1,"
      ++ "\"taken_by\":\"_host\"\x7d"))]

def boardEnv : BbEnv := ⟨1, fun _ => ⟨1, none⟩⟩

def boardStore : MemoryStore :=
  let layer := (tableText boardTexts).toValueText
  let created := (bbCreate layer (.prepare ⟨1048576, 10485760, 1073741824⟩ []
    []) 1 "b" boardEnv HOST_OWNER none).1
  fieldRun layer created
    [(boardEnv, .put HOST_OWNER 1 "b" "x" (.text "1") none),
      (boardEnv, .put HOST_OWNER 1 "b" "y" (.binary [0xFB]) none)]

def boardCalls : List (BbEnv × FieldOp) :=
  [(boardEnv, .put HOST_OWNER 1 "b" "x" (.text "2") none),
    (boardEnv, .delete HOST_OWNER 1 "b" "y" none),
    (boardEnv, .put HOST_OWNER 1 "b" "z" (.binary []) none)]

theorem boardMeta_ordered : boardMeta.toValue.Ordered := by
  unfold BlackboardMeta.toValue boardMeta
  rw [Value.Ordered, Value.orderedEntries_iff]
  refine ⟨?_, ?_⟩
  · unfold Entries.Sorted
    decide
  · simp [Value.Ordered, Value.ofI64]

theorem boardTexts_reread : Rereads (tableText boardTexts).toValueText id := by
  refine tableText_rereads (by decide +kernel) ?_ ?_
  · intro row hrow
    rcases mem_cons.1 hrow with rfl | hrow
    · exact boardMeta_ordered
    · obtain rfl := mem_singleton.1 hrow
      refine BlackboardSnapshot.ordered_toValue ?_ ?_
      · intro v hv
        cases hv
        exact boardMeta_ordered
      · intro sf hsf
        simp only [boardSnapshot, mem_cons, not_mem_nil, or_false]
          at hsf
        rcases hsf with rfl | rfl
        · exact fromMemory_ordered nofun
        · exact fromMemory_ordered nofun
  · intro row hrow
    refine (Value.identical_iff _ _).1 ?_
    revert row
    decide +kernel

/-- What stands in a board after a restore, read by the same calls. -/
def boardRestored : MemoryStore × Except MemoryError Nat :=
  let taken := bbSnapshot (tableText boardTexts) boardEnv boardStore HOST_OWNER
    1 "b" "v"
  bbSnapshotRestore (tableText boardTexts) boardEnv
    (fieldRun (tableText boardTexts).toValueText taken.1 boardCalls) HOST_OWNER
    1 "b" "v"

def boardEntries (s : MemoryStore) : Except MemoryError (List MemoryEntry) :=
  bbGetAll (tableText boardTexts).toValueText s 1 "b" ⟨1, none⟩

theorem eq_ok_of_isOk {ε α : Type} {x : Except ε α} (d : α)
    (h : x.isOk = true) : x = .ok (x.toOption.getD d) := by
  cases x with
  | ok a => rfl
  | error e => cases h

/-- A text and two bytes come back after the one was put again and the other
deleted. -/
theorem snapshot_restores_board :
    ((boardEntries boardStore).toOption.getD []).length = 2
      ∧ ∀ x, x ∈ ((boardEntries boardRestored.1).toOption.getD []).map
          (fieldOf "b")
        ↔ x ∈ ((boardEntries boardStore).toOption.getD []).map
          (fieldOf "b") := by
  refine ⟨by decide +kernel, ?_⟩
  refine (snapshot_restores (tableText boardTexts) id boardTexts_reread
    boardStore ?_ boardEnv boardEnv HOST_OWNER HOST_OWNER 1 "b" "v" _
    (eq_ok_of_isOk [] (by decide +kernel)) _
    (eq_ok_of_isOk 0 (by decide +kernel)) boardCalls _
    (eq_ok_of_isOk 0 (by decide +kernel)) ⟨1, none⟩ (by decide) _
    (eq_ok_of_isOk [] (by decide +kernel))).1.2 ?_
  · exact fieldRun_faithful (bbCreate_faithful ⟨.nil, .nil, rfl⟩ _ _) _
  · intro e he v hv
    have hnone : ∀ e ∈ (boardEntries boardStore).toOption.getD [],
        e.value.contentType ≠ "application/json" := by
      decide +kernel
    refine absurd ?_ (hnone e he)
    rw [hv]
    rfl

end Tasty.Memory
