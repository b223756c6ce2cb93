/-
The parameters of a custom command as its mapping makes them. Pointers are
taken in the order of their texts, so that an outer position is written
before those inside it. The check at creation sees that the objects on the
way are there; that a value written to an outer position still has them is
left to the input.
-/
import Tasty.Agent.Positions

namespace Tasty.Agent

open List Option

variable {pointer place method : String} {path : List String}
  {taskId : TaskId} {defs : TypeDefs} {input : TypeSchema} {params v' : Value}

-- ==== the text of pointers

theorem flatMap_splitSlash (l : List Char) :
    ((splitSlash l).flatMap fun part => '/' :: part) = '/' :: l := by
  induction l with
  | nil => rfl
  | cons c l ih =>
    unfold splitSlash
    split
    · rename_i h
      cases h
    · rename_i h
      cases h
      rw [flatMap_cons, ih]
      rfl
    · rename_i h
      cases h
      split
      · rename_i hparts
        rw [hparts] at ih
        cases ih
      · rename_i part parts hparts
        rw [hparts, flatMap_cons, cons_append, List.cons.injEq] at ih
        rw [flatMap_cons, cons_append, cons_append, ih.2]

theorem not_mem_of_mem_splitSlash {l part : List Char}
    (h : part ∈ splitSlash l) : '/' ∉ part := by
  induction l generalizing part with
  | nil =>
    rw [mem_singleton.1 h]
    exact not_mem_nil
  | cons c l ih =>
    unfold splitSlash at h
    split at h
    · rename_i h'
      cases h'
    · rename_i h'
      cases h'
      rcases mem_cons.1 h with rfl | h
      · exact not_mem_nil
      · exact ih h
    · rename_i hc h'
      cases h'
      have hne : '/' ≠ c := fun heq => hc heq.symm
      split at h
      · rw [mem_singleton.1 h]
        simpa using hne
      · rename_i first parts hparts
        rw [hparts] at ih
        rcases mem_cons.1 h with rfl | h
        · rw [mem_cons, not_or]
          exact ⟨hne, ih mem_cons_self⟩
        · exact ih (mem_cons_of_mem _ h)

theorem toList_escape (token : String) :
    (escape token).toList = token.toList.flatMap fun c =>
      if c = '~' then ['~', '0'] else if c = '/' then ['~', '1'] else [c] :=
  String.toList_ofList

/-- A token is read from its escaped form only. -/
theorem unescape_eq_ok {raw out : List Char}
    (hraw : '/' ∉ raw) (h : unescape pointer raw = .ok out) :
    raw = (escape (String.ofList out)).toList := by
  rw [toList_escape, String.toList_ofList]
  fun_induction unescape pointer raw generalizing out with
  | case1 =>
    cases h
    rfl
  | case2 rest ih =>
    obtain ⟨out', hout', h⟩ := bind_ok h
    cases h
    rw [flatMap_cons, if_pos rfl, ← ih (by simp_all) hout']
    rfl
  | case3 rest ih =>
    obtain ⟨out', hout', h⟩ := bind_ok h
    cases h
    rw [flatMap_cons, if_neg (by decide), if_pos rfl,
      ← ih (by simp_all) hout']
    rfl
  | case4 => cases h
  | case5 c rest h0 h1 h2 ih =>
    obtain ⟨out', hout', h⟩ := bind_ok h
    cases h
    rw [mem_cons, not_or] at hraw
    rw [flatMap_cons, if_neg h2, if_neg (Ne.symm hraw.1), ← ih hraw.2 hout']
    rfl

theorem toList_of_pointerTokens {tokens : List String}
    (h : pointerTokens pointer = .ok tokens) :
    pointer.toList = tokens.flatMap fun t => '/' :: (escape t).toList := by
  unfold pointerTokens at h
  split at h
  · rename_i hnil
    cases h
    exact hnil
  · rename_i rest hcons
    have hparts := forall₂_imp_mem (mapM_eq_ok.1 h)
      (S := fun raw token => raw = (escape token).toList)
      fun raw hraw token _ hread => by
        obtain ⟨out, hout, hread⟩ := bind_ok hread
        cases hread
        exact unescape_eq_ok (not_mem_of_mem_splitSlash hraw) hout
    rw [hcons, ← flatMap_splitSlash]
    clear h
    generalize splitSlash rest = parts at hparts
    induction hparts with
    | nil => rfl
    | cons hraw _ ih =>
      rw [flatMap_cons, flatMap_cons, hraw]
      exact congrArg _ ih
  · cases h

/-- A pointer whose tokens go on from those of another one does not come
before it. -/
theorem not_prefix_of_lt {p q : String} {path' : List String}
    (hp : pointerTokens p = .ok path) (hq : pointerTokens q = .ok path')
    (hlt : p < q) : ¬ path' <+: path := by
  rintro ⟨rest, rfl⟩
  have htext : q.toList <+: p.toList := by
    rw [toList_of_pointerTokens hp, toList_of_pointerTokens hq, flatMap_append]
    exact prefix_append _ _
  exact htext.le hlt

-- ==== the placeholders

namespace Value

theorem get_substituteEntries (f : String → Value)
    (m : List (String × Value)) (k : String) :
    Entries.get (substituteEntries f m) k
      = (Entries.get m k).map (substituteTexts f) := by
  induction m with
  | nil => rfl
  | cons e m ih =>
    obtain ⟨k', v⟩ := e
    rw [substituteEntries, Entries.get_cons, Entries.get_cons, ih]
    split <;> rfl

theorem descend_substituteTexts {f : String → Value}
    {v : Value} (h : ∃ m, v.descend path = some (object m)) :
    ∃ m, (v.substituteTexts f).descend path = some (object m) := by
  obtain ⟨m, h⟩ := h
  induction path generalizing v with
  | nil =>
    cases h
    exact ⟨substituteEntries f m, rfl⟩
  | cons t path ih =>
    cases v with
    | object entries =>
      obtain ⟨u, hu, hm⟩ := bind_eq_some_iff.1 h
      obtain ⟨m', hm'⟩ := ih hm
      refine ⟨m', ?_⟩
      have hget : Entries.get entries t = some u := hu
      rw [substituteTexts, descend_cons_object, get_substituteEntries, hget]
      exact hm'
    | _ => cases h

end Value

-- ==== the creation

theorem paramsParent_eq_ok {loc : String} {v w : Value} :
    paramsParent taskId pointer loc v path = .ok w
      ↔ v.descend path = some w := by
  induction path generalizing v with
  | nil =>
    constructor
    · intro h
      cases h
      rfl
    · intro h
      cases h
      rfl
  | cons t path ih =>
    cases v with
    | object m =>
      rw [paramsParent, Value.descend_cons_object]
      cases Entries.get m t with
      | none =>
        constructor
        · intro h
          cases h
        · intro h
          cases h
      | some u => exact ih
    | _ =>
      constructor
      · intro h
        cases h
      · intro h
        cases h

section Creation

variable [F64Text]

/-- The pointer of an accepted entry names a field of an object in the
parameters, or of none at all. -/
theorem checkParam_eq_ok {e : String × String}
    (h : checkParam taskId defs input params place e = .ok ()) :
    ∃ parent last, pointerTokens e.1 = .ok (parent ++ [last])
      ∧ ((∃ m, params.descend parent = some (.object m))
        ∨ parent = [] ∧ params = .null) := by
  obtain ⟨p, i⟩ := e
  unfold checkParam at h
  obtain ⟨s, -, h⟩ := bind_ok h
  split at h
  · cases h
  · cases h
  · rename_i t rest htokens
    obtain ⟨cur, hcur, h⟩ := bind_ok h
    refine ⟨(t :: rest).dropLast, (t :: rest).getLast (by simp), ?_, ?_⟩
    · rw [dropLast_concat_getLast]
      exact htokens
    · have hcur := paramsParent_eq_ok.1 hcur
      split at h
      · exact .inl ⟨_, hcur⟩
      · obtain ⟨hnull, -⟩ := guard_not_ok h
        rw [Bool.and_eq_true, List.isEmpty_iff] at hnull
        obtain ⟨hparent, hnull⟩ := hnull
        refine .inr ⟨hparent, ?_⟩
        rw [hparent] at hcur
        cases hcur
        cases params with
        | null => rfl
        | _ => cases hnull

variable [DebugText]

theorem checkMapping_custom {contract : TaskContract}
    (h : checkMapping taskId defs input contract (.custom method params)
      place = .ok ()) :
    let mapping := contract.inputMapping.getD .default
    mapping.args = [] ∧ mapping.barrier = none
      ∧ ∀ e ∈ Entries.iter mapping.params,
        checkParam taskId defs input params (place ++ "/input_mapping") e
          = .ok () := by
  intro mapping
  unfold checkMapping at h
  obtain ⟨_, hkind, h⟩ := bind_ok h
  unfold checkMappingKind at hkind
  obtain ⟨hbarrier, hkind⟩ := check_eq_ok.1 hkind
  obtain ⟨-, hkind⟩ := check_eq_ok.1 hkind
  obtain ⟨hargs, -⟩ := check_eq_ok.1 hkind
  have hargs : mapping.args = [] := by
    cases hm : mapping.args with
    | nil => rfl
    | cons a rest =>
      refine (hargs ?_).elim
      show ((!mapping.args.isEmpty || mapping.stdin) && true) = true
      rw [hm]
      rfl
  have hbarrier : mapping.barrier = none :=
    not_isSome_iff_eq_none.1 hbarrier
  have h := then_ok h
  dsimp only at h
  rw [show (contract.inputMapping.getD .default).barrier = none
    from hbarrier] at h
  have h := then_ok h
  exact ⟨hargs, hbarrier, forM_eq_ok.1 h⟩

end Creation

-- ==== the writing

theorem insertParam_eq_ok {loc last : String}
    {x v : Value} {parent : List String} :
    insertParam taskId pointer loc parent last x v = .ok v'
      ↔ Value.putIn parent last x v = some v' := by
  induction parent generalizing v v' with
  | nil =>
    cases v with
    | object m =>
      exact ⟨(fun h => by cases h; rfl), (fun h => by cases h; rfl)⟩
    | _ => exact iff_of_false (fun h => by cases h) (fun h => by cases h)
  | cons t parent ih =>
    cases v with
    | object m =>
      rw [Value.putIn_cons_eq_some]
      unfold insertParam
      constructor
      · intro h
        split at h
        · rename_i cur hcur
          obtain ⟨cur', hput, h⟩ := bind_ok h
          cases h
          exact ⟨m, cur, cur', rfl, hcur, ih.1 hput, rfl⟩
        · cases h
      · intro h
        obtain ⟨m', cur, cur', hm, hcur, hput, rfl⟩ := h
        cases hm
        rw [hcur]
        exact bind_eq_ok.2 ⟨cur', ih.2 hput, rfl⟩
    | _ => exact iff_of_false (fun h => by cases h) (fun h => by cases h)

/-- What an entry of the mapping writes, and where. -/
def ParamWrites (internal : Value) (e : String × String)
    (w : ParamWrite) : Prop :=
  pointerTokens e.1 = .ok w.path ∧ valueAt internal e.2 = some w.value

theorem mapParam_eq_ok {internal v : Value}
    {e : String × String} {w : ParamWrite} (h : ParamWrites internal e w) :
    mapParam taskId internal v e = .ok v'
      ↔ Value.putIn w.parent w.last w.value v = some v' := by
  obtain ⟨htokens, hvalue⟩ := h
  unfold mapParam
  dsimp only
  rw [hvalue, htokens]
  dsimp only
  rw [ParamWrite.path, getLast?_concat, dropLast_concat]
  exact insertParam_eq_ok

variable {entries : List (String × String)}

theorem foldlM_mapParam_eq_ok {internal v : Value} {writes : List ParamWrite}
    (h : List.Forall₂ (ParamWrites internal) entries writes) :
    entries.foldlM (mapParam taskId internal) v = .ok v'
      ↔ Value.putAll writes v = some v' := by
  induction h generalizing v with
  | nil => exact ⟨(fun h => by cases h; rfl), (fun h => by cases h; rfl)⟩
  | cons he _ ih =>
    rw [foldlM_cons, bind_eq_ok, Value.putAll_cons_eq_some]
    exact exists_congr fun u => and_congr (mapParam_eq_ok he) ih

theorem proper_of_valueAt {v w : Value} (hv : v.Proper)
    (h : valueAt v pointer = some w) : w.Proper := by
  unfold valueAt at h
  split at h
  · rename_i tokens htokens
    clear htokens
    induction tokens generalizing v with
    | nil =>
      cases h
      exact hv
    | cons t rest ih =>
      obtain ⟨u, hu, hw⟩ := bind_eq_some_iff.1 h
      refine ih ?_ hw
      cases v with
      | object m => exact Value.proper_get hv hu
      | array items =>
        obtain ⟨i, -, hi⟩ := bind_eq_some_iff.1 hu
        exact Value.properItems_iff.1 hv u (mem_of_getElem? hi)
      | _ => cases hu
  · cases h

-- ==== the mapping

/-- The parameters that a custom command gets have each mapped value at
its position, and outside the mapped positions what they had. -/
def ParamsMapped [DebugText] [FileSystem] [ValueText] (task : Task)
    (contract : TaskContract) (value : TypedValue) (base : Value) : Prop :=
  let mapping := contract.inputMapping.getD .default
  ∃ execution, resolveExecution task contract value (some base)
      = .ok execution
    ∧ (∀ e ∈ mapping.params, ∀ path, pointerTokens e.1 = .ok path →
      (customParams execution base).walk path
        = valueAt value.toInternal e.2)
    ∧ ∀ path, (∀ e ∈ mapping.params, ∀ mapped,
        pointerTokens e.1 = .ok mapped →
        ¬ mapped <+: path ∧ ¬ path <+: mapped) →
      (customParams execution base).walk path = base.walk path

/-- Where one mapped pointer leads through another one, the input value of
the outer one has objects on the rest of the way, and at its end the input
value of the inner one. -/
def InnerValuesAgree (mapping : InputMapping) (value : TypedValue) : Prop :=
  ∀ outer ∈ mapping.params, ∀ inner ∈ mapping.params, ∀ path rest,
    rest ≠ [] → pointerTokens outer.1 = .ok path →
    pointerTokens inner.1 = .ok (path ++ rest) →
    (valueAt value.toInternal outer.2).bind (Value.descend rest)
      = valueAt value.toInternal inner.2

section Mapped

variable {internal base v : Value} {entries : List (String × String)}
  {writes : List ParamWrite}

/-- Writes in the order of their pointers. -/
theorem pairwise_writes
    (h : List.Forall₂ (ParamWrites internal) entries writes)
    (hsorted : Entries.Sorted entries) :
    writes.Pairwise fun w w' => ¬ w'.path <+: w.path := by
  induction h with
  | nil => exact .nil
  | @cons e w entries writes he hrest ih =>
    obtain ⟨p, i⟩ := e
    obtain ⟨hfirst, hsorted⟩ := Entries.sorted_cons.1 hsorted
    refine .cons (fun w' hw' => ?_) (ih hsorted)
    obtain ⟨e', he', hw'⟩ := forall₂_right hrest hw'
    exact not_prefix_of_lt he.1 hw'.1
      (hfirst _ (mem_map.2 ⟨e', he', rfl⟩))

theorem written_iff (h : List.Forall₂ (ParamWrites internal) entries writes) :
    Value.Written writes base v
      ↔ (∀ e ∈ entries, ∀ path, pointerTokens e.1 = .ok path →
          v.walk path = valueAt internal e.2)
        ∧ ∀ path, (∀ e ∈ entries, ∀ mapped, pointerTokens e.1 = .ok mapped →
            ¬ mapped <+: path ∧ ¬ path <+: mapped) →
          v.walk path = base.walk path := by
  constructor
  · intro hwritten
    constructor
    · intro e he path hpath
      obtain ⟨w, hw, htokens, hvalue⟩ := forall₂_left h he
      cases hpath.symm.trans htokens
      rw [hvalue]
      exact hwritten.there w hw
    · intro path hapart
      refine hwritten.others path fun w hw => ?_
      obtain ⟨e, he, htokens, -⟩ := forall₂_right h hw
      exact hapart e he w.path htokens
  · intro hmapped
    obtain ⟨hthere, hothers⟩ := hmapped
    constructor
    · intro w hw
      obtain ⟨e, he, htokens, hvalue⟩ := forall₂_right h hw
      rw [← hvalue]
      exact hthere e he w.path htokens
    · intro path hapart
      refine hothers path fun e he mapped hmapped => ?_
      obtain ⟨w, hw, htokens, -⟩ := forall₂_left h he
      cases hmapped.symm.trans htokens
      exact hapart w hw

theorem bringsAlong_iff {mapping : InputMapping} {value : TypedValue}
    (h : List.Forall₂ (ParamWrites value.toInternal) mapping.params writes) :
    Value.BringsAlong writes ↔ InnerValuesAgree mapping value := by
  constructor
  · intro hbrings outer ho inner hi path rest hne hpath hinner
    obtain ⟨w, hw, htokens, hvalue⟩ := forall₂_left h ho
    obtain ⟨w', hw', htokens', hvalue'⟩ := forall₂_left h hi
    cases hpath.symm.trans htokens
    rw [hvalue, hvalue', bind_some]
    exact hbrings w hw w' hw' rest hne
      (Except.ok.inj (htokens'.symm.trans hinner))
  · intro hagree w hw w' hw' rest hne hpath
    obtain ⟨e, he, htokens, hvalue⟩ := forall₂_right h hw
    obtain ⟨e', he', htokens', hvalue'⟩ := forall₂_right h hw'
    rw [hpath] at htokens'
    have h := hagree e he e' he' w.path rest hne htokens htokens'
    rw [hvalue, hvalue', bind_some] at h
    exact h

end Mapped

section Resolved

variable {task : Task} {contract : TaskContract} {value : TypedValue}
  {base : Value}

theorem exists_writes [F64Text]     {internal : Value}
    (haccepted : ∀ e ∈ entries,
      checkParam task.id defs input params place e = .ok ())
    (hexist : ∀ e ∈ entries, (valueAt internal e.2).isSome)
    (f : String → Value) :
    ∃ writes, List.Forall₂ (ParamWrites internal) entries writes
      ∧ ∀ w ∈ writes, ∃ m,
        (paramsStart (some (params.substituteTexts f))).descend w.parent
          = some (.object m) := by
  induction entries with
  | nil => exact ⟨[], .nil, nofun⟩
  | cons e entries ih =>
    obtain ⟨he, haccepted⟩ := forall_mem_cons.1 haccepted
    obtain ⟨hsome, hexist⟩ := forall_mem_cons.1 hexist
    obtain ⟨writes, hwrites, hobjects⟩ := ih haccepted hexist
    obtain ⟨parent, last, htokens, hparent⟩ := checkParam_eq_ok he
    obtain ⟨x, hx⟩ := isSome_iff_exists.1 hsome
    refine ⟨⟨parent, last, x⟩ :: writes, .cons ⟨htokens, hx⟩ hwrites,
      forall_mem_cons.2 ⟨?_, hobjects⟩⟩
    rcases hparent with hobject | ⟨rfl, rfl⟩
    · have hbase := Value.descend_substituteTexts (f := f) hobject
      unfold paramsStart
      dsimp only [getD_some]
      rw [if_neg]
      · exact hbase
      · intro hnull
        obtain ⟨m, hm⟩ := hbase
        cases hb : params.substituteTexts f with
        | null =>
          rw [hb] at hm
          cases parent with
          | nil => cases hm
          | cons t parent => cases hm
        | _ =>
          rw [hb] at hnull
          cases hnull
    · exact ⟨[], rfl⟩

theorem walk_paramsStart {base : Value} (h : path ≠ []) :
    (paramsStart (some base)).walk path = base.walk path := by
  unfold paramsStart
  dsimp only [getD_some]
  split
  · cases path with
    | nil => exact (h rfl).elim
    | cons t path =>
      cases base with
      | null => rfl
      | _ => rename_i hnull; cases hnull
  · rfl

variable [DebugText] [FileSystem] [ValueText]

theorem resolveExecution_params (hcommand : task.command = .custom method params)
    (hargs : (contract.inputMapping.getD .default).args = [])
    (hbarrier : (contract.inputMapping.getD .default).barrier = none)
    (hparams : (contract.inputMapping.getD .default).params ≠ [])
    {execution : ResolvedExecution} :
    resolveExecution task contract value (some base) = .ok execution
      ↔ ∃ v, mapParams task.id value.toInternal
            (contract.inputMapping.getD .default).params (some base) = .ok v
          ∧ execution = { ResolvedExecution.default with
            stdin := (contract.inputMapping.getD .default).stdin
            params := some v } := by
  cases hm : contract.inputMapping with
  | none =>
    rw [hm] at hparams
    exact (hparams rfl).elim
  | some mapping =>
    rw [hm] at hargs hbarrier hparams
    obtain ⟨args, stdin, entries, inputBlock, barrier⟩ := mapping
    cases hargs
    cases hbarrier
    cases entries with
    | nil => exact (hparams rfl).elim
    | cons e entries =>
      have hfilter : (some (⟨[], stdin, e :: entries, inputBlock, none⟩
            : InputMapping)).filter (fun m => !m.isEmpty)
          = some ⟨[], stdin, e :: entries, inputBlock, none⟩ := by
        refine filter_eq_some_iff.2 ⟨rfl, ?_⟩
        simp [InputMapping.isEmpty]
      unfold resolveExecution
      rw [hm, hfilter, hcommand]
      dsimp only [getD_some]
      cases mapParams task.id value.toInternal (e :: entries)
          (some base) with
      | error f =>
        constructor
        · intro h
          cases h
        · intro h
          obtain ⟨v, hv, -⟩ := h
          cases hv
      | ok v =>
        constructor
        · intro h
          cases h
          exact ⟨v, rfl, rfl⟩
        · intro h
          obtain ⟨v', hv, h⟩ := h
          cases hv
          rw [h]
          rfl

theorem resolveExecution_noParams (hcommand : task.command = .custom method params)
    (hargs : (contract.inputMapping.getD .default).args = [])
    (hbarrier : (contract.inputMapping.getD .default).barrier = none)
    (hparams : (contract.inputMapping.getD .default).params = []) :
    ∃ execution, resolveExecution task contract value (some base)
      = .ok execution ∧ execution.params = none := by
  cases hm : contract.inputMapping with
  | none =>
    refine ⟨.default, ?_, rfl⟩
    unfold resolveExecution
    rw [hm]
    rfl
  | some mapping =>
    rw [hm] at hargs hbarrier hparams
    obtain ⟨args, stdin, entries, inputBlock, barrier⟩ := mapping
    cases hargs
    cases hbarrier
    cases hparams
    unfold resolveExecution
    rw [hm, hcommand]
    cases stdin with
    | true => exact ⟨_, rfl, rfl⟩
    | false =>
      cases inputBlock with
      | true => exact ⟨_, rfl, rfl⟩
      | false => exact ⟨_, rfl, rfl⟩

/-- For an accepted custom task and an input that has all mapped values,
the parameters are as mapped exactly if the input value of each outer
position has, where a pointer leads through it, the value mapped there. -/
theorem paramsMapped_iff [F64Text] {defs : TypeDefs} {input : TypeSchema}
    {method place : String} {params : Value} (f : String → Value)
    (hcommand : task.command = .custom method (params.substituteTexts f))
    (haccepted : checkMapping task.id defs input contract
      (.custom method params) place = .ok ())
    (hsorted : Entries.Sorted (contract.inputMapping.getD .default).params)
    (hproper : value.toInternal.Proper)
    (hexist : ∀ e ∈ (contract.inputMapping.getD .default).params,
      (valueAt value.toInternal e.2).isSome) :
    ParamsMapped task contract value (params.substituteTexts f)
      ↔ InnerValuesAgree (contract.inputMapping.getD .default) value := by
  obtain ⟨hargs, hbarrier, hchecked⟩ := checkMapping_custom haccepted
  rw [hsorted.iter_eq] at hchecked
  by_cases hparams : (contract.inputMapping.getD .default).params = []
  · refine iff_of_true ?_ ?_
    · obtain ⟨execution, hexecution, hnone⟩ :=
        resolveExecution_noParams hcommand hargs hbarrier hparams
      have hcustom : customParams execution (params.substituteTexts f)
          = params.substituteTexts f := by
        rw [customParams, hnone]
        rfl
      refine ⟨execution, hexecution, ?_, ?_⟩
      · rw [hparams]
        exact nofun
      · intro path _
        rw [hcustom]
    · intro outer ho
      rw [hparams] at ho
      cases ho
  obtain ⟨writes, hwrites, hobjects⟩ := exists_writes hchecked hexist f
  have hvalues : ∀ w ∈ writes, w.value.Proper := by
    intro w hw
    obtain ⟨e, -, -, hvalue⟩ := forall₂_right hwrites hw
    exact proper_of_valueAt hproper hvalue
  rw [← bringsAlong_iff hwrites, ← Value.exists_written_iff hobjects hvalues
    (pairwise_writes hwrites hsorted)]
  have hmapped {v : Value} :
      mapParams task.id value.toInternal
          (contract.inputMapping.getD .default).params
          (some (params.substituteTexts f)) = .ok v
        ↔ Value.putAll writes
          (paramsStart (some (params.substituteTexts f))) = some v := by
    unfold mapParams
    rw [hsorted.iter_eq]
    exact foldlM_mapParam_eq_ok hwrites
  have hstart : ∀ path, (∀ e ∈ (contract.inputMapping.getD .default).params,
      ∀ mapped, pointerTokens e.1 = .ok mapped →
        ¬ mapped <+: path ∧ ¬ path <+: mapped) →
      (paramsStart (some (params.substituteTexts f))).walk path
        = (params.substituteTexts f).walk path := by
    intro path hapart
    refine walk_paramsStart fun hnil => ?_
    obtain ⟨e, he⟩ := List.exists_mem_of_ne_nil _ hparams
    obtain ⟨w, -, htokens, -⟩ := forall₂_left hwrites he
    exact (hapart e he w.path htokens).2 (hnil ▸ List.nil_prefix)
  constructor
  · intro h
    obtain ⟨execution, hexecution, hthere, hothers⟩ := h
    obtain ⟨v, hv, rfl⟩ := (resolveExecution_params hcommand hargs hbarrier
      hparams).1 hexecution
    refine ⟨v, hmapped.1 hv, (written_iff hwrites).2 ⟨hthere, ?_⟩⟩
    intro path hapart
    rw [hstart path hapart]
    exact hothers path hapart
  · intro h
    obtain ⟨v, hput, hwritten⟩ := h
    obtain ⟨hthere, hothers⟩ := (written_iff hwrites).1 hwritten
    refine ⟨_, (resolveExecution_params hcommand hargs hbarrier hparams).2
      ⟨v, hmapped.2 hput, rfl⟩, hthere, ?_⟩
    intro path hapart
    rw [← hstart path hapart]
    exact hothers path hapart

end Resolved

section Inner

local instance wholeNumbers : F64Text := noDoubles

local instance noDebugForms : DebugText where
  char _ := ""
  string _ := ""

local instance noFiles : FileSystem where
  isAbsolute _ := true
  join _ path := path
  isFile _ := .ok false
  openable _ := .ok ()

local instance noForms : ValueText where
  debug _ := ""
  pretty _ := ""

/-- A task whose mapping writes `/a`, an object, and `/a/b` inside it. -/
def innerContract (outer : TypeKind) : TaskContract where
  contractVersion := 2
  types := []
  inputSchema? := some (.new (.object
    [("x", requiredField (.new outer)), ("y", requiredField .int64)]))
  outputSchema? := none
  bindings := []
  inputMapping := some { InputMapping.default with
    params := [("/a", "/x"), ("/a/b", "/y")] }
  postprocess := none

def innerParams : Value :=
  .object [("a", .object [("b", .ofI64 1)])]

def innerTask (contract : TaskContract) : Task where
  id := "task"
  command := .custom "surface.set" innerParams
  state := .running
  result := none
  contract := some contract
  typedResult := none
  skip := none

/-- An outer value that brings the inner one along. -/
def bringing : TypeKind := .object [("b", requiredField .int64)]

def agreeingInput : TypedValue :=
  .object [("x", .object [("b", .int64 7)]), ("y", .int64 7)]

theorem sorted_innerParams : Entries.Sorted [("/a", "/x"), ("/a/b", "/y")] := by
  refine Entries.sorted_cons.2 ⟨?_, Entries.sorted_cons.2
    ⟨nofun, Entries.sorted_nil⟩⟩
  intro k hk
  cases mem_singleton.1 hk
  decide

theorem paramsMapped_agreeing :
    ParamsMapped (innerTask (innerContract bringing))
      (innerContract bringing) agreeingInput innerParams := by
  have hcommand : (innerTask (innerContract bringing)).command
      = .custom "surface.set" (innerParams.substituteTexts .string) := rfl
  have haccepted : checkMapping (innerTask (innerContract bringing)).id
      .empty (innerContract bringing).inputSchema (innerContract bringing)
      (.custom "surface.set" innerParams) "" = .ok () := rfl
  have hproper : agreeingInput.toInternal.Proper :=
    ⟨Entries.sorted_cons.2 ⟨by decide, Entries.sorted_cons.2
      ⟨nofun, Entries.sorted_nil⟩⟩,
      ⟨Entries.sorted_cons.2 ⟨nofun, Entries.sorted_nil⟩, trivial, trivial⟩,
      trivial, trivial⟩
  have hagree : InnerValuesAgree
      ((innerContract bringing).inputMapping.getD .default)
      agreeingInput := by
    intro outer ho inner hi path rest hne hpath hinner
    have hlen : path.length < (path ++ rest).length := by
      rw [List.length_append]
      have hpos := List.length_pos_iff.2 hne
      omega
    -- the inner pointer is longer than the outer one
    rcases List.mem_pair.1 ho with rfl | rfl
    · cases hpath
      rcases List.mem_pair.1 hi with rfl | rfl
      · rw [← Except.ok.inj hinner] at hlen
        exact (Nat.lt_irrefl _ hlen).elim
      · cases List.append_cancel_left (Except.ok.inj hinner).symm
        rfl
    · cases hpath
      rcases List.mem_pair.1 hi with rfl | rfl
      · rw [← Except.ok.inj hinner] at hlen
        exact absurd hlen (by decide)
      · rw [← Except.ok.inj hinner] at hlen
        exact (Nat.lt_irrefl _ hlen).elim
  refine (paramsMapped_iff .string hcommand haccepted sorted_innerParams
    hproper ?_).2 hagree
  exact List.forall_mem_cons.2 ⟨rfl, List.forall_mem_cons.2 ⟨rfl, nofun⟩⟩

/-- The outer value is no object: the inner one has no place. -/
theorem not_paramsMapped_scalar :
    checkMapping "task" .empty (innerContract .int64).inputSchema
        (innerContract .int64) (.custom "surface.set" innerParams) ""
      = .ok ()
    ∧ (TypeDefs.empty.typedValue (innerContract .int64).inputSchema
        (.object [("x", .ofI64 1), ("y", .ofI64 2)])
      = .ok (.object [("x", .int64 1), ("y", .int64 2)]))
    ∧ (∀ e ∈ ((innerContract .int64).inputMapping.getD .default).params,
      (valueAt (.object [("x", .ofI64 1), ("y", .ofI64 2)]) e.2).isSome)
    ∧ ¬ ParamsMapped (innerTask (innerContract .int64))
        (innerContract .int64)
        (.object [("x", .int64 1), ("y", .int64 2)]) innerParams := by
  refine ⟨rfl, rfl, ?_, ?_⟩
  · exact List.forall_mem_cons.2
      ⟨rfl, List.forall_mem_cons.2 ⟨rfl, nofun⟩⟩
  · intro h
    obtain ⟨execution, hexecution, -⟩ := h
    cases hexecution

end Inner

end Tasty.Agent
