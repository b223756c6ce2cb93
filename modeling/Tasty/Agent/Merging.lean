/-
A merge that refuses conflicts does not depend on the order of the inputs.
At each key a merge joins what it found with what it brings: two objects
are merged, equal values are one, and all else is a conflict. The join of
values is commutative, and two joins may be swapped; by induction on how
deep the objects nest, so it is with merges.
-/
import Tasty.Agent.Reducer

namespace Tasty.Agent

open Value

open Value (Equals proper_get)

variable {m : Entries Value} {here : String} {a b v c : Value}
  {o o' : Option Value}

-- ==== key by key

/-- A computation of a map, told by what each key gets. -/
structure Keywise (p : Except String (Entries Value))
    (q : String → Except String (Option Value)) : Prop where
  sorted : ∀ m, p = .ok m → Entries.Sorted m
  get : ∀ m, p = .ok m → ∀ k, q k = .ok (Entries.get m k)
  total : (∀ k, ∃ o, q k = .ok o) → ∃ m, p = .ok m

namespace Keywise

variable {p p' : Except String (Entries Value)}
  {q q' : String → Except String (Option Value)}

theorem done (h : Entries.Sorted m) :
    Keywise (.ok m) fun k => .ok (Entries.get m k) where
  sorted m' hm := by
    cases hm
    exact h
  get m' hm k := by
    cases hm
    rfl
  total _ := ⟨m, rfl⟩

theorem bind {f : Entries Value → Except String (Entries Value)}
    {g : String → Option Value → Except String (Option Value)} (h : Keywise p q)
    (hf : ∀ m, Entries.Sorted m →
      Keywise (f m) fun k => g k (Entries.get m k)) :
    Keywise (p >>= f) fun k => q k >>= g k where
  sorted m' hm := by
    obtain ⟨m, hp, hm⟩ := bind_ok hm
    exact (hf m (h.sorted m hp)).sorted m' hm
  get m' hm k := by
    obtain ⟨m, hp, hm⟩ := bind_ok hm
    exact bind_eq_ok.2
      ⟨_, h.get m hp k, (hf m (h.sorted m hp)).get m' hm k⟩
  total hall := by
    obtain ⟨m, hp⟩ := h.total fun k => by
      obtain ⟨o, ho⟩ := hall k
      obtain ⟨o', ho', _⟩ := bind_ok ho
      exact ⟨o', ho'⟩
    obtain ⟨m', hm'⟩ := (hf m (h.sorted m hp)).total fun k => by
      obtain ⟨o, ho⟩ := hall k
      obtain ⟨o', ho', hg⟩ := bind_ok ho
      cases (h.get m hp k).symm.trans ho'
      exact ⟨o, hg⟩
    exact ⟨m', bind_eq_ok.2 ⟨m, hp, hm'⟩⟩

/-- Only what each key gets counts. -/
theorem congr (h : Keywise p q) (hq : ∀ k, q k = q' k) : Keywise p q' := by
  rwa [show q' = q from funext fun k => (hq k).symm]

theorem agree (h : Keywise p q) (h' : Keywise p' q')
    (hq : ∀ k, Agree (Option.Rel Equals) (q k) (q' k)) :
    Agree (fun m m' => Equals (.object m) (.object m')) p p' := by
  have hiff := fun k => (hq k).exists_ok_iff
  cases hp : p with
  | ok m =>
    have hok k := (hiff k).1 ⟨_, h.get m hp k⟩
    obtain ⟨m', hp'⟩ := h'.total hok
    rw [hp']
    refine .ok (equals_object.2 ⟨h.sorted m hp, h'.sorted m' hp', fun k => ?_⟩)
    exact (hq k).rel (h.get m hp k) (h'.get m' hp' k)
  | error e =>
    cases hp' : p' with
    | error e' => exact .error e e'
    | ok m' =>
      obtain ⟨m, hm⟩ := h.total fun k =>
        (hiff k).2 ⟨_, h'.get m' hp' k⟩
      cases hp.symm.trans hm

/-- One conflict, and nothing is computed. -/
theorem conflict {e e' : String} {k : String} (h : q k = .error e') :
    Keywise (.error e) q where
  sorted _ hm := by cases hm
  get _ hm := by cases hm
  total hall := by
    obtain ⟨o, ho⟩ := hall k
    cases h.symm.trans ho

end Keywise

/-- A new value for one key. -/
theorem keywise_insert (h : Entries.Sorted m) (k : String) (v : Value) :
    Keywise (.ok (Entries.insert k v m)) fun k' =>
      if k' = k then .ok (some v) else .ok (Entries.get m k') := by
  refine (Keywise.done (h.insert k v)).congr fun k' => ?_
  rw [Entries.get_insert]
  split <;> rfl

section Joins

variable [F64Text]

-- ==== the join

/-- What a merge makes of a value that it found and a value it brings. -/
def join (here : String) : Value → Value → Except String Value
  | .object d, .object s => do
      let m ← mergeTyped .error here d s
      .ok (.object m)
  | a, b => if a.jsonEqual b then .ok a else .error here

/-- The join of what a key has and what it is to get. -/
def joinAt (here : String) :
    Option Value → Option Value → Except String (Option Value)
  | some a, some b => do
      let v ← join here a b
      .ok (some v)
  | none, o => .ok o
  | o, none => .ok o

theorem join_object_object (here : String) (d s : Entries Value) :
    join here (.object d) (.object s)
      = (do let m ← mergeTyped .error here d s; .ok (.object m)) := rfl

theorem joinAt_some_some (here : String) (a b : Value) :
    joinAt here (some a) (some b)
      = (do let v ← join here a b; .ok (some v)) := rfl

theorem joinAt_none_left (here : String) (o : Option Value) :
    joinAt here none o = .ok o := by
  cases o <;> rfl

theorem joinAt_none_right (here : String) (o : Option Value) :
    joinAt here o none = .ok o := by
  cases o <;> rfl

theorem join_of_leaf (h : a.isObject = false ∨ b.isObject = false) :
    join here a b = if a.jsonEqual b then .ok a else .error here := by
  cases a with
  | object d =>
    cases b with
    | object s => cases h with | _ h => cases h
    | _ => rfl
  | _ => rfl

theorem mergeLeaf_keywise (h : Entries.Sorted m) (here k : String) (v : Value)
    (hleaf : ∀ a, Entries.get m k = some a →
      a.isObject = false ∨ v.isObject = false) :
    Keywise (mergeLeaf .error here k m (Entries.get m k) v) fun k' =>
      if k' = k then joinAt here (Entries.get m k) (some v)
      else .ok (Entries.get m k') := by
  unfold mergeLeaf
  cases ha : Entries.get m k with
  | none => exact keywise_insert h k v
  | some a =>
    have hjoin : joinAt here (some a) (some v)
        = if a.jsonEqual v then .ok (some a) else .error here := by
      rw [joinAt_some_some, join_of_leaf (hleaf a ha)]
      split <;> rfl
    rw [hjoin]
    dsimp only
    split
    · refine (Keywise.done h).congr fun k' => ?_
      split
      · rename_i hk
        rw [hk, ha]
      · rfl
    · exact Keywise.conflict (if_pos rfl)

/-- An entry is joined to its key. -/
theorem mergeValue_keywise (h : Entries.Sorted m)
    (here k : String) (v : Value) :
    Keywise (mergeValue .error here k m v) fun k' =>
      if k' = k then joinAt here (Entries.get m k) (some v)
      else .ok (Entries.get m k') := by
  cases v with
  | object s =>
    unfold mergeValue
    split
    · rename_i d hd
      rw [hd]
      cases hm : mergeTyped .error here d s with
      | error e =>
        have hat : (if k = k then joinAt here (some (.object d))
            (some (.object s)) else .ok (Entries.get m k))
            = .error e := by
          rw [if_pos rfl, joinAt_some_some, join_object_object, hm]
          rfl
        exact .conflict hat
      | ok d' =>
        refine (keywise_insert h k (.object d')).congr fun k' => ?_
        rw [joinAt_some_some, join_object_object, hm]
        rfl
    · rename_i hd
      refine mergeLeaf_keywise h here k _ fun a ha => .inl ?_
      cases a with
      | object d => exact (hd d ha).elim
      | _ => rfl
  | _ => exact mergeLeaf_keywise h here k _ fun _ _ => .inr rfl

theorem mergeTyped_keywise (path : String)
    (h : Entries.Sorted m) {src : Entries Value} (hsrc : Entries.Sorted src) :
    Keywise (mergeTyped .error path m src) fun k =>
      joinAt (path ++ "/" ++ k) (Entries.get m k) (Entries.get src k) := by
  induction src generalizing m with
  | nil =>
    refine (Keywise.done h).congr fun k => ?_
    rw [Entries.get_nil, joinAt_none_right]
  | cons entry src ih =>
    obtain ⟨k₀, v⟩ := entry
    obtain ⟨hfirst, hrest⟩ := Entries.sorted_cons.1 hsrc
    refine ((mergeValue_keywise h _ k₀ v).bind
      (g := fun k o => joinAt (path ++ "/" ++ k) o (Entries.get src k))
      fun m' hm' => ih hm' hrest).congr fun k => ?_
    rw [Entries.get_cons]
    by_cases hk : k = k₀
    · -- the rest has nothing more for this key
      have hnone : Entries.get src k = none := by
        rw [Option.eq_none_iff_forall_not_mem]
        intro w hw
        have hmem := List.mem_map_of_mem (f := Prod.fst)
          (Entries.mem_of_get hw)
        exact lt_irrefl k (hk ▸ hfirst k hmem)
      rw [if_pos hk, if_pos hk, hnone, hk]
      simp only [joinAt_none_right]
      exact bind_pure _
    · rw [if_neg hk, if_neg hk]
      rfl

-- ==== laws of the join

/-- Maps that are one as documents. -/
abbrev Same (m m' : Entries Value) : Prop :=
  Equals (.object m) (.object m')

theorem join_comm_of_leaf (ha : a.Proper) (hb : b.Proper)
    (h : a.isObject = false ∨ b.isObject = false) :
    Agree Equals (join here a b) (join here b a) := by
  rw [join_of_leaf h, join_of_leaf h.symm]
  by_cases heq : a.jsonEqual b = true
  · have hab : a.Equals b := ⟨ha, hb, heq⟩
    rw [if_pos heq, if_pos hab.symm.2.2]
    exact .ok hab
  · have hne : ¬b.jsonEqual a = true := fun hba =>
      heq (Value.Equals.symm ⟨hb, ha, hba⟩).2.2
    rw [if_neg heq, if_neg hne]
    exact .error _ _

/-- It does not matter which of two values is merged into the other. -/
theorem join_comm (ha : a.Proper)
    (hb : b.Proper) : Agree Equals (join here a b) (join here b a) := by
  induction b using content_induction generalizing here a with
  | hobject s ih =>
    cases a with
    | object d =>
      rw [join_object_object, join_object_object]
      refine Agree.bind (R := Same) ?_ fun _ _ h => .ok h
      refine (mergeTyped_keywise here ha.1 hb.1).agree
        (mergeTyped_keywise here hb.1 ha.1) fun k => ?_
      cases hd : Entries.get d k with
      | none =>
        rw [joinAt_none_left, joinAt_none_right]
        cases hs : Entries.get s k with
        | none => exact .ok .none
        | some b =>
          exact .ok (.some (equals_refl (proper_get hb hs)))
      | some a =>
        cases hs : Entries.get s k with
        | none =>
          exact .ok (.some (equals_refl (proper_get ha hd)))
        | some b =>
          exact (ih _ (Entries.mem_of_get hs) (proper_get ha hd)
            (proper_get hb hs)).bind fun _ _ h => .ok (.some h)
    | _ => exact join_comm_of_leaf ha hb (.inl rfl)
  | _ => exact join_comm_of_leaf ha hb (.inr rfl)

theorem join_congr_of_leaf {a' : Value} (h : a.Equals a') (hb : b.Proper)
    (hobj : a.isObject = false ∨ b.isObject = false) :
    Agree Equals (join here a b) (join here a' b) := by
  rw [join_of_leaf hobj, join_of_leaf (h.isObject_eq ▸ hobj),
    jsonEqual_congr_left h hb]
  split
  · exact .ok h
  · exact .error _ _

theorem mergeTyped_congr_of {path : String} {m' s : Entries Value}
    (h : Same m m') (hs : (Value.object s).Proper)
    (hjoin : ∀ k a a' b, a.Equals a' → Entries.get s k = some b →
      Agree Equals (join (path ++ "/" ++ k) a b)
        (join (path ++ "/" ++ k) a' b)) :
    Agree Same (mergeTyped .error path m s) (mergeTyped .error path m' s) := by
  obtain ⟨hm, hm', hrel⟩ := equals_object.1 h
  refine (mergeTyped_keywise path hm hs.1).agree
    (mergeTyped_keywise path hm' hs.1) fun k => ?_
  have hk := hrel k
  generalize Entries.get m k = o, Entries.get m' k = o' at hk
  cases hb : Entries.get s k with
  | none =>
    rw [joinAt_none_right, joinAt_none_right]
    exact .ok hk
  | some b =>
    cases hk with
    | some h => exact (hjoin k _ _ b h hb).bind fun _ _ h => .ok (.some h)
    | none => exact .ok (.some (equals_refl (proper_get hs hb)))

theorem join_congr {a' : Value} (h : a.Equals a')
    (hb : b.Proper) : Agree Equals (join here a b) (join here a' b) := by
  induction b using content_induction generalizing here a a' with
  | hobject s ih =>
    cases a with
    | object d =>
      cases a' with
      | object d' =>
        rw [join_object_object, join_object_object]
        refine Agree.bind (R := Same) ?_ fun _ _ h => .ok h
        exact mergeTyped_congr_of h hb fun k _ _ _ h hs =>
          ih _ (Entries.mem_of_get hs) h (proper_get hb hs)
      | _ => cases h.isObject_eq
    | _ => exact join_congr_of_leaf h hb (.inl rfl)
  | _ => exact join_congr_of_leaf h hb (.inr rfl)

-- ==== two joins

theorem join_isObject (ha : a.Proper)
    (hb : b.Proper) (h : join here a b = .ok v) :
    a.isObject = b.isObject ∧ v.isObject = a.isObject := by
  by_cases hboth : a.isObject = true ∧ b.isObject = true
  · refine ⟨hboth.1.trans hboth.2.symm, ?_⟩
    cases a with
    | object d =>
      cases b with
      | object s =>
        obtain ⟨m, _, hm⟩ := bind_ok h
        cases hm
        rfl
      | _ => cases hboth.2
    | _ => cases hboth.1
  · have hleaf : a.isObject = false ∨ b.isObject = false :=
      (not_and_or.1 hboth).imp Bool.eq_false_iff.2 Bool.eq_false_iff.2
    rw [join_of_leaf hleaf] at h
    split at h
    · rename_i heq
      cases h
      exact ⟨Value.Equals.isObject_eq ⟨ha, hb, heq⟩, rfl⟩
    · cases h

theorem join_proper (ha : a.Proper)
    (hb : b.Proper) (h : join here a b = .ok v) : v.Proper :=
  ((join_congr (equals_refl ha) hb).rel h h).1

theorem join_join_isObject (ha : a.Proper) (hb : b.Proper) (hc : c.Proper)
    (h : (join here a b >>= (join here · c)) = .ok v) :
    a.isObject = b.isObject ∧ a.isObject = c.isObject := by
  obtain ⟨w, hw, hv⟩ := bind_ok h
  obtain ⟨hab, hwa⟩ := join_isObject ha hb hw
  obtain ⟨hwc, _⟩ := join_isObject (join_proper ha hb hw) hc hv
  exact ⟨hab, hwa.symm.trans hwc⟩

/-- Two joins to a value, one of them with a leaf, may be swapped: they
fail, unless all three are leaves. -/
theorem join_swap_of_leaf (ha : a.Proper) (hb : b.Proper) (hc : c.Proper)
    (h : a.isObject = false ∨ b.isObject = false ∨ c.isObject = false) :
    Agree Equals (join here a b >>= (join here · c))
      (join here a c >>= (join here · b)) := by
  by_cases hleaf : a.isObject = false ∧ b.isObject = false
      ∧ c.isObject = false
  · -- what is found stays, if all are equal to it
    obtain ⟨hla, _, _⟩ := hleaf
    rw [join_of_leaf (.inl hla), join_of_leaf (.inl hla)]
    by_cases hab : a.jsonEqual b = true
    · rw [if_pos hab]
      by_cases hac : a.jsonEqual c = true
      · rw [if_pos hac]
        show Agree Equals (join here a c) (join here a b)
        rw [join_of_leaf (.inl hla), join_of_leaf (.inl hla), if_pos hab,
          if_pos hac]
        exact .ok (equals_refl ha)
      · rw [if_neg hac]
        show Agree Equals (join here a c) (.error here)
        rw [join_of_leaf (.inl hla), if_neg hac]
        exact .error _ _
    · rw [if_neg hab]
      by_cases hac : a.jsonEqual c = true
      · rw [if_pos hac]
        show Agree Equals (.error here) (join here a b)
        rw [join_of_leaf (.inl hla), if_neg hab]
        exact .error _ _
      · rw [if_neg hac]
        exact .error _ _
  · -- an object and a leaf conflict, in whatever order they meet
    have hmixed (hab : a.isObject = b.isObject)
        (hac : a.isObject = c.isObject) : False := by
      refine hleaf ?_
      rw [← hab, ← hac] at h ⊢
      simpa using h
    cases hl : join here a b >>= (join here · c) with
    | ok v =>
      obtain ⟨hab, hac⟩ := join_join_isObject ha hb hc hl
      exact (hmixed hab hac).elim
    | error e =>
      cases hr : join here a c >>= (join here · b) with
      | ok v =>
        obtain ⟨hac, hab⟩ := join_join_isObject ha hc hb hr
        exact (hmixed hab hac).elim
      | error e' => exact .error e e'

theorem joinAt_refl (ho : ∀ v, o = some v → v.Proper) (ho' : ∀ v, o' = some v → v.Proper) :
    Agree (Option.Rel Equals) (joinAt here o o') (joinAt here o o') := by
  cases o with
  | none =>
    rw [joinAt_none_left]
    cases o' with
    | none => exact .ok .none
    | some b => exact .ok (.some (equals_refl (ho' b rfl)))
  | some a =>
    have ha := equals_refl (ho a rfl)
    cases o' with
    | none => exact .ok (.some ha)
    | some b =>
      exact (join_congr ha (ho' b rfl)).bind fun _ _ h => .ok (.some h)

theorem joinAt_comm (ho : ∀ v, o = some v → v.Proper) (ho' : ∀ v, o' = some v → v.Proper) :
    Agree (Option.Rel Equals) (joinAt here o o') (joinAt here o' o) := by
  cases o with
  | none =>
    rw [joinAt_none_right, ← joinAt_none_left here o']
    exact joinAt_refl ho ho'
  | some a =>
    cases o' with
    | none => exact .ok (.some (equals_refl (ho a rfl)))
    | some b =>
      exact (join_comm (ho a rfl) (ho' b rfl)).bind
        fun _ _ h => .ok (.some h)

/-- Two joins at a key may be swapped if those of the values may. -/
theorem joinAt_swap {o'' : Option Value}
    (ho : ∀ v, o = some v → v.Proper) (ho' : ∀ v, o' = some v → v.Proper)
    (ho'' : ∀ v, o'' = some v → v.Proper)
    (hswap : ∀ a b c, o = some a → o' = some b → o'' = some c →
      Agree Equals (join here a b >>= (join here · c))
        (join here a c >>= (join here · b))) :
    Agree (Option.Rel Equals) (joinAt here o o' >>= (joinAt here · o''))
      (joinAt here o o'' >>= (joinAt here · o')) := by
  cases o with
  | none =>
    rw [joinAt_none_left, joinAt_none_left]
    exact joinAt_comm ho' ho''
  | some a =>
    cases o' with
    | none =>
      rw [joinAt_none_right]
      simp only [joinAt_none_right]
      rw [show joinAt here (some a) o'' >>= Except.ok
        = joinAt here (some a) o'' from bind_pure _]
      exact joinAt_refl ho ho''
    | some b =>
      cases o'' with
      | none =>
        rw [joinAt_none_right]
        simp only [joinAt_none_right]
        rw [show joinAt here (some a) (some b) >>= Except.ok
          = joinAt here (some a) (some b) from bind_pure _]
        exact joinAt_refl ho ho'
      | some c =>
        have h := (hswap a b c rfl rfl rfl).bind
          (f := fun v => .ok (some v)) (g := fun v => .ok (some v))
          (S := Option.Rel Equals) fun _ _ h => .ok (.some h)
        rw [bind_assoc, bind_assoc] at h
        rw [joinAt_some_some, joinAt_some_some, bind_assoc, bind_assoc]
        exact h

/-- Two merges into a map may be swapped if the joins at each key may. -/
theorem mergeTyped_swap (path : String) {x y z : Entries Value}
    (hx : (Value.object x).Proper) (hy : (Value.object y).Proper)
    (hz : (Value.object z).Proper)
    (hswap : ∀ k a b c, Entries.get x k = some a →
      Entries.get y k = some b → Entries.get z k = some c →
      Agree Equals
        (join (path ++ "/" ++ k) a b >>= (join (path ++ "/" ++ k) · c))
        (join (path ++ "/" ++ k) a c >>= (join (path ++ "/" ++ k) · b))) :
    Agree Same
      (mergeTyped .error path x y >>= (mergeTyped .error path · z))
      (mergeTyped .error path x z >>= (mergeTyped .error path · y)) := by
  have hkeywise {u v : Entries Value} (hu : Entries.Sorted u)
      (hv : Entries.Sorted v) :
      Keywise (mergeTyped .error path x u >>= (mergeTyped .error path · v))
        fun k =>
          joinAt (path ++ "/" ++ k) (Entries.get x k) (Entries.get u k)
            >>= (joinAt (path ++ "/" ++ k) · (Entries.get v k)) :=
    (mergeTyped_keywise path hx.1 hu).bind
      (g := fun k o => joinAt (path ++ "/" ++ k) o (Entries.get v k))
      fun m hm => mergeTyped_keywise path hm hv
  exact (hkeywise hy.1 hz.1).agree (hkeywise hz.1 hy.1) fun k =>
    joinAt_swap (fun _ => proper_get hx) (fun _ => proper_get hy)
      (fun _ => proper_get hz) (hswap k)

theorem join_swap (ha : a.Proper) (hb : b.Proper) (hc : c.Proper) :
    Agree Equals (join here a b >>= (join here · c))
      (join here a c >>= (join here · b)) := by
  induction c using content_induction generalizing here a b with
  | hobject z ih =>
    cases a with
    | object x =>
      cases b with
      | object y =>
        have h := (mergeTyped_swap here ha hb hc
          fun k a b c hx hy hz => ih _ (Entries.mem_of_get hz)
            (proper_get ha hx) (proper_get hb hy)
            (proper_get hc hz)).bind
          (f := fun m => .ok (.object m)) (g := fun m => .ok (.object m))
          (S := Equals) fun _ _ h => .ok h
        rw [bind_assoc, bind_assoc] at h
        rw [join_object_object, join_object_object, bind_assoc, bind_assoc]
        exact h
      | _ => exact join_swap_of_leaf ha hb hc (.inr (.inl rfl))
    | _ => exact join_swap_of_leaf ha hb hc (.inl rfl)
  | _ => exact join_swap_of_leaf ha hb hc (.inr (.inr rfl))

-- ==== the inputs

/-- The map that an input brings to a merge. -/
def TypedReducerInput.map (i : TypedReducerInput) :
    Except String (Entries Value) := do
  let output ← i.requireOutput
  match output with
  | .object map => .ok map
  | output => .error (s!"merge_json: input {i.taskId} output is "
      ++ s!"{output.typeName}, not an object")

omit [F64Text] in
theorem TypedReducerInput.map_proper {i : TypedReducerInput}
    (h : i.map = .ok m) : (Value.object m).Proper := by
  obtain ⟨output, hout, hm⟩ := bind_ok h
  have hproper : output.Proper := by
    unfold requireOutput at hout
    split at hout
    · cases hout
      exact i.proper
    · cases hout
  cases output with
  | object map =>
    cases hm
    exact hproper
  | _ => cases hm

theorem mergeInput_eq (conflict : MergeConflict) (acc : Entries Value)
    (i : TypedReducerInput) : mergeInput conflict acc i
      = (do let m ← i.map; mergeTyped conflict "" acc m) := by
  unfold mergeInput TypedReducerInput.map
  rw [bind_assoc]
  congr 1
  funext output
  cases output <;> rfl

theorem mergeInput_congr {m' : Entries Value} (i : TypedReducerInput)
    (h : Same m m') :
    Agree Same (mergeInput .error m i) (mergeInput .error m' i) := by
  rw [mergeInput_eq, mergeInput_eq]
  cases hi : i.map with
  | error e => exact .error e e
  | ok s =>
    have hs := TypedReducerInput.map_proper hi
    exact mergeTyped_congr_of h hs fun k _ _ _ h hb =>
      join_congr h (proper_get hs hb)

/-- Two inputs may be merged in either order. -/
theorem mergeInput_swap (i j : TypedReducerInput) (h : Same m m) :
    Agree Same (mergeInput .error m i >>= (mergeInput .error · j))
      (mergeInput .error m j >>= (mergeInput .error · i)) := by
  simp only [mergeInput_eq]
  cases hi : i.map with
  | error e =>
    cases hj : j.map with
    | error e' => exact .error e e'
    | ok s =>
      show Agree Same (.error e)
        (mergeTyped .error "" m s >>= fun _ => .error e)
      cases mergeTyped .error "" m s with
      | error e' => exact .error e e'
      | ok m' => exact .error e e
  | ok s =>
    cases hj : j.map with
    | error e =>
      show Agree Same
        (mergeTyped .error "" m s >>= fun _ => .error e) (.error e)
      cases mergeTyped .error "" m s with
      | error e' => exact .error e' e
      | ok m' => exact .error e e
    | ok s' =>
      have hs := TypedReducerInput.map_proper hi
      have hs' := TypedReducerInput.map_proper hj
      exact mergeTyped_swap _ h.1 hs hs' fun k a b c hm hb hc =>
        join_swap (proper_get h.1 hm) (proper_get hs hb)
          (proper_get hs' hc)

/-- Merging with conflicts as errors does not depend on the order of the
inputs: in every order it fails, or in every order it succeeds, with
results that `json_equal` takes for one. -/
theorem reduceTyped_mergeJson_perm {inputs inputs' : List TypedReducerInput}
    (h : inputs.Perm inputs')
    (runner : String → String → Except String String)
    (fromStr : String → Except String Value) :
    ((∃ v, reduceTyped .mergeJson inputs .error runner fromStr = .ok v)
        ↔ ∃ v, reduceTyped .mergeJson inputs' .error runner fromStr = .ok v)
      ∧ ∀ v v', reduceTyped .mergeJson inputs .error runner fromStr = .ok v →
        reduceTyped .mergeJson inputs' .error runner fromStr = .ok v' →
        v.jsonEqual v' = true := by
  have hempty : Same [] [] :=
    Value.equals_refl ⟨Entries.sorted_nil, trivial⟩
  have hagree : Agree Equals
      (reduceTyped .mergeJson inputs .error runner fromStr)
      (reduceTyped .mergeJson inputs' .error runner fromStr) :=
    (foldlM_perm (R := Same) (fun _ _ => Value.Equals.symm)
      (fun _ _ _ => Value.Equals.trans) (fun _ _ i => mergeInput_congr i)
      (fun _ i j => mergeInput_swap i j) h hempty).bind fun _ _ h => .ok h
  exact ⟨hagree.exists_ok_iff, fun _ _ hv hv' => (hagree.rel hv hv').2.2⟩

end Joins

-- ==== written two ways

section Written

local instance tokensOnly : F64Text := noDoubles

/-- An input that succeeded with an object of one object of one number. -/
def nestedInput (id key : String) (n : Number) (h : n.Finite) :
    TypedReducerInput where
  taskId := id
  state := "succeeded"
  hasOutput := true
  output := .json (.object [("n", .object [(key, .number n)])])
  attemptId := none
  proper := ⟨List.pairwise_singleton _ _,
    ⟨List.pairwise_singleton _ _, h, trivial⟩, trivial⟩

/-- One number as an integer and as a double, and another key beside. -/
theorem reduceTyped_mergeJson_two_tokens :
    let a := nestedInput "a" "p" (.posInt 2) trivial
    let b := nestedInput "b" "q" (.posInt 3) trivial
    let c := nestedInput "c" "p" (.float ⟨0x4000000000000000⟩)
      (by decide : F64.isFinite ⟨0x4000000000000000⟩ = true)
    let reduce := fun inputs => reduceTyped .mergeJson inputs .error
      (fun _ _ => .error "no shell") fun _ => .error "no parser"
    ((∃ v, reduce [a, b, c] = .ok v) ↔ ∃ v, reduce [c, b, a] = .ok v)
      ∧ ∀ v v', reduce [a, b, c] = .ok v → reduce [c, b, a] = .ok v' →
        v.jsonEqual v' = true := by
  intro a b c reduce
  have hperm : [a, b, c].Perm [c, b, a] := (List.reverse_perm _).symm
  exact reduceTyped_mergeJson_perm hperm _ _

/-- The first token is the one that is kept. -/
example : (reduceTyped .mergeJson
    [nestedInput "a" "p" (.posInt 2) trivial,
      nestedInput "c" "p" (.float ⟨0x4000000000000000⟩)
        (by decide : F64.isFinite ⟨0x4000000000000000⟩ = true)] .error
    (fun _ _ => .error "") fun _ => .error "").toOption.map Value.text
      = some "\x7b\"n\":\x7b\"p\":2\x7d\x7d" := by
  decide +kernel

end Written

end Tasty.Agent
