/-
What the assembler answers over a whole run. A chunk and a forgotten
surface touch the slots of their own key and surface only, so the answers
for one frame are those of a run that holds nothing but its chunks. There
the slot holds exactly the parts that came so far.
-/
import Mathlib.Data.List.Nodup
import Mathlib.Data.List.Perm.Subperm
import Tasty.Ipc.MeshStream

namespace Tasty.Ipc.MeshStream

open List Function

-- ==== the runs

inductive MeshOp where
  | push (buf : List UInt8)
  | forget (surfaceId : UInt32)
  deriving DecidableEq

/-- The key that a byte string decodes to. -/
def keyOf (buf : List UInt8) : Option Key :=
  (decodeMeshChunk buf).map fun c => c.1.key

/-- The byte strings of a run, with the answer that each one got. -/
def answers (a : MeshFrameAssembler) :
    List MeshOp → List (List UInt8 × Answer)
  | [] => []
  | .push buf :: ops =>
    (buf, (a.pushChunk buf).2) :: answers (a.pushChunk buf).1 ops
  | .forget surfaceId :: ops => answers (a.forgetSurface surfaceId) ops

/-- The answers to what decodes to this key. -/
def answersFor (k : Key) (a : MeshFrameAssembler) (ops : List MeshOp) :
    List Answer :=
  ((answers a ops).filter fun c => keyOf c.1 = some k).map Prod.snd

def pushes (ops : List MeshOp) : List (List UInt8) :=
  ops.filterMap fun
    | .push buf => some buf
    | .forget _ => none

/-- The frame of an answer, when it brings one. -/
def frameOf : Answer → Option (MeshChunkMeta × List UInt8)
  | .ok frame => frame
  | .error _ => none

/-- The frames that a run returns. -/
def returned (a : MeshFrameAssembler) (ops : List MeshOp) :
    List (MeshChunkMeta × List UInt8) :=
  (answers a ops).filterMap fun c => frameOf c.2

-- ==== the other slots

namespace MeshFrameAssembler

variable {a a' : MeshFrameAssembler} {k : Key}

theorem pushInto_other (m : MeshChunkMeta) (payload : List UInt8)
    (slot : InFlight) (h : m.key ≠ k) :
    (a.pushInto m payload slot).1 k = a k := by
  have hput (value : Option InFlight) :
      Function.update a m.key value k = a k :=
    update_of_ne (Ne.symm h) value a
  simp only [pushInto, remove, insert]
  repeat' split
  · exact hput _
  · exact hput _
  · exact hput _
  · exact hput _

variable {buf : List UInt8}

theorem pushChunk_other (h : keyOf buf ≠ some k) :
    (a.pushChunk buf).1 k = a k := by
  unfold pushChunk
  unfold keyOf at h
  cases hdec : decodeMeshChunk buf with
  | none => rfl
  | some c =>
    rw [hdec] at h
    have hne : c.1.key ≠ k := fun heq => h (congrArg some heq)
    dsimp only
    split
    · rfl
    · split
      · rfl
      · exact pushInto_other _ _ _ hne

theorem forgetSurface_other {surfaceId : UInt32} (h : k.1 ≠ surfaceId) :
    a.forgetSurface surfaceId k = a k := if_neg h

theorem pushInto_same (m : MeshChunkMeta) (payload : List UInt8)
    (slot : InFlight) :
    (a.pushInto m payload slot).1 m.key
        = (a'.pushInto m payload slot).1 m.key
      ∧ (a.pushInto m payload slot).2 = (a'.pushInto m payload slot).2 := by
  have hput (value : Option InFlight) :
      Function.update a m.key value m.key
        = Function.update a' m.key value m.key := by
    rw [update_self, update_self]
  simp only [pushInto, remove, insert]
  repeat' split
  · exact ⟨hput _, rfl⟩
  · exact ⟨hput _, rfl⟩
  · exact ⟨hput _, rfl⟩
  · exact ⟨hput _, rfl⟩

theorem pushChunk_same (hk : keyOf buf = some k) (h : a k = a' k) :
    (a.pushChunk buf).1 k = (a'.pushChunk buf).1 k
      ∧ (a.pushChunk buf).2 = (a'.pushChunk buf).2 := by
  obtain ⟨c, hdec, rfl⟩ := Option.map_eq_some_iff.1 hk
  unfold pushChunk
  rw [hdec]
  dsimp only
  split
  · exact ⟨h, rfl⟩
  · split
    · exact ⟨h, rfl⟩
    · rw [h]
      exact pushInto_same _ _ _

theorem forgetSurface_same (surfaceId : UInt32) (h : a k = a' k) :
    a.forgetSurface surfaceId k = a'.forgetSurface surfaceId k := by
  show (if _ then _ else _) = (if _ then _ else _)
  rw [h]

theorem pushChunk_returns {c : MeshChunkMeta × List UInt8}
    (h : frameOf (a.pushChunk buf).2 = some c) : keyOf buf = some c.1.key := by
  unfold pushChunk at h
  unfold keyOf
  cases hdec : decodeMeshChunk buf with
  | none =>
    rw [hdec] at h
    cases h
  | some d =>
    rw [hdec] at h
    simp only [pushInto, assemble] at h
    repeat' split at h
    all_goals cases h
    rfl

variable {m : MeshChunkMeta}

variable {payload : List UInt8}

theorem pushChunk_of_decode (h : decodeMeshChunk buf = some (m, payload))
    (hindex : ¬ (m.chunkCount = 0 ∨ m.chunkCount ≤ m.chunkIndex))
    (htotal : ¬ m.chunkCount.toNat * MESH_CHUNK_MAX_PAYLOAD
      < m.totalLen.toNat) :
    a.pushChunk buf = a.pushInto m payload ((a m.key).getD (slotOf m)) := by
  rw [pushChunk, h]
  dsimp only
  rw [if_neg hindex, if_neg htotal]

theorem pushInto_of_fits (slot : InFlight)
    (hcount : slot.chunkCount = m.chunkCount)
    (htotal : slot.totalLen = m.totalLen)
    (hpart : payload.length ≤ MESH_CHUNK_MAX_PAYLOAD) :
    a.pushInto m payload slot
      = if UInt32.ofNat
            (putPart slot.received m.chunkIndex payload).length
            = slot.chunkCount then
          (a.remove m.key, assemble m { slot with
            received := putPart slot.received m.chunkIndex payload })
        else (a.insert m.key { slot with
            received := putPart slot.received m.chunkIndex payload },
          .ok none) := by
  rw [pushInto, if_neg (not_or.2 ⟨not_not.2 hcount, not_not.2 htotal⟩),
    if_neg (Nat.not_lt.2 hpart)]

theorem assemble_of_parts {slot : InFlight} {parts : List (List UInt8)}
    (h : ((List.range slot.chunkCount.toNat).mapM fun i =>
      slot.received.lookup (UInt32.ofNat i)) = some parts)
    (hlen : UInt32.ofNat parts.flatten.length = slot.totalLen) :
    assemble m slot = .ok (some (
      { surfaceId := m.surfaceId
        frameId := m.frameId
        chunkIndex := 0
        chunkCount := slot.chunkCount
        totalLen := slot.totalLen
        generation := slot.generation
        frameSeq := slot.frameSeq
        fullTextures := slot.fullTextures }, parts.flatten)) := by
  rw [assemble, h]
  dsimp only
  rw [if_neg (not_not.2 hlen)]

end MeshFrameAssembler

open MeshFrameAssembler

-- ==== one key's run

/-- The operations that touch the slot of a key. -/
def concerns (k : Key) : MeshOp → Bool
  | .push buf => keyOf buf = some k
  | .forget surfaceId => surfaceId = k.1

variable {a a' : MeshFrameAssembler} {k : Key}

theorem answersFor_push_self {buf : List UInt8} (h : keyOf buf = some k)
    (ops : List MeshOp) :
    answersFor k a (.push buf :: ops)
      = (a.pushChunk buf).2 :: answersFor k (a.pushChunk buf).1 ops := by
  rw [answersFor, answers, filter_cons_of_pos (by simpa using h)]
  rfl

theorem answersFor_push_other {buf : List UInt8} (h : keyOf buf ≠ some k)
    (ops : List MeshOp) :
    answersFor k a (.push buf :: ops)
      = answersFor k (a.pushChunk buf).1 ops := by
  rw [answersFor, answers, filter_cons_of_neg (by simpa using h)]
  rfl

theorem answersFor_filter (ops : List MeshOp) (h : a k = a' k) :
    answersFor k a ops = answersFor k a' (ops.filter (concerns k)) := by
  induction ops generalizing a a' with
  | nil => rfl
  | cons op ops ih =>
    cases op with
    | push buf =>
      by_cases hk : keyOf buf = some k
      · obtain ⟨hslot, hans⟩ := pushChunk_same hk h
        rw [filter_cons_of_pos (by simpa [concerns] using hk),
          answersFor_push_self hk, answersFor_push_self hk, hans, ih hslot]
      · rw [filter_cons_of_neg (by simpa [concerns] using hk),
          answersFor_push_other hk]
        exact ih ((pushChunk_other hk).trans h)
    | forget surfaceId =>
      by_cases hk : surfaceId = k.1
      · rw [filter_cons_of_pos (by simpa [concerns] using hk)]
        exact ih (forgetSurface_same surfaceId h)
      · rw [filter_cons_of_neg (by simpa [concerns] using hk)]
        exact ih ((forgetSurface_other (Ne.symm hk)).trans h)

theorem returned_key (a : MeshFrameAssembler) (k : Key) (ops : List MeshOp) :
    (returned a ops).filter (fun c => c.1.key = k)
      = (answersFor k a ops).filterMap frameOf := by
  induction ops generalizing a with
  | nil => rfl
  | cons op ops ih =>
    cases op with
    | forget surfaceId => exact ih _
    | push buf =>
      have hreturned : returned a (.push buf :: ops)
          = (frameOf (a.pushChunk buf).2).toList
            ++ returned (a.pushChunk buf).1 ops := by
        rw [returned, answers, filterMap_cons]
        cases frameOf (a.pushChunk buf).2 <;> rfl
      have hkey (c : MeshChunkMeta × List UInt8)
          (hc : frameOf (a.pushChunk buf).2 = some c) :
          keyOf buf = some c.1.key := pushChunk_returns hc
      rw [hreturned, filter_append, ih]
      by_cases hk : keyOf buf = some k
      · rw [answersFor_push_self hk, filterMap_cons]
        cases hframe : frameOf (a.pushChunk buf).2 with
        | none => rfl
        | some c =>
          have hc : c.1.key = k :=
            Option.some.inj ((hkey c hframe).symm.trans hk)
          rw [Option.toList_some, filter_cons_of_pos (by simpa using hc)]
          rfl
      · rw [answersFor_push_other hk]
        cases hframe : frameOf (a.pushChunk buf).2 with
        | none => rfl
        | some c =>
          have hc : c.1.key ≠ k :=
            fun heq => hk (heq ▸ hkey c hframe)
          rw [Option.toList_some, filter_cons_of_neg (by simpa using hc)]
          rfl

-- ==== one frame

namespace MeshFrame

/-- The chunk with this number. -/
def chunk (f : MeshFrame) (i : Nat) : List UInt8 :=
  encodeMeshChunk (f.header i) (chunkAt MESH_CHUNK_MAX_PAYLOAD f.bytes i)

/-- What the frame should be returned as. -/
def whole (f : MeshFrame) : MeshChunkMeta × List UInt8 :=
  (f.header 0, f.bytes)

/-- The slot of the frame once these chunks came, the last of them first. -/
def slotWith (f : MeshFrame) (came : List Nat) : InFlight :=
  { slotOf (f.header 0) with
    received := partsOf
      (fun i => chunkAt MESH_CHUNK_MAX_PAYLOAD f.bytes i.toNat)
      (came.map UInt32.ofNat) }

variable {f : MeshFrame}

theorem chunkCount_pos (f : MeshFrame) : 0 < f.chunkCount :=
  Nat.lt_of_lt_of_le Nat.zero_lt_one (Nat.le_max_right _ _)

theorem length_le_chunkCount (f : MeshFrame) :
    f.bytes.length ≤ f.chunkCount * MESH_CHUNK_MAX_PAYLOAD := by
  have hceil : (f.bytes.length + (MESH_CHUNK_MAX_PAYLOAD - 1))
      / MESH_CHUNK_MAX_PAYLOAD ≤ f.chunkCount := Nat.le_max_left _ _
  simp only [MESH_CHUNK_MAX_PAYLOAD, MAX_FRAME_LEN, MESH_CHUNK_HEADER_LEN]
    at hceil ⊢
  omega

theorem chunkCount_lt (h : f.bytes.length < 4294967296) :
    f.chunkCount < 4294967296 := by
  simp only [chunkCount, MESH_CHUNK_MAX_PAYLOAD, MAX_FRAME_LEN,
    MESH_CHUNK_HEADER_LEN]
  omega

theorem toNat_chunkCount (h : f.bytes.length < 4294967296) :
    (UInt32.ofNat f.chunkCount).toNat = f.chunkCount :=
  UInt32.toNat_ofNat_of_lt' (chunkCount_lt h)

theorem keyOf_chunk (f : MeshFrame) (i : Nat) :
    keyOf (f.chunk i) = some f.key := by
  rw [keyOf, chunk, decodeMeshChunk_encodeMeshChunk]
  rfl

theorem length_chunk_le (f : MeshFrame) (i : Nat) :
    (f.chunk i).length ≤ MAX_FRAME_LEN := by
  have hpart := length_chunkAt_le MESH_CHUNK_MAX_PAYLOAD f.bytes i
  rw [chunk, length_encodeMeshChunk]
  simp only [MESH_CHUNK_MAX_PAYLOAD, MAX_FRAME_LEN, MESH_CHUNK_HEADER_LEN]
    at hpart ⊢
  omega

theorem assemble_slotWith {i : Nat} {came : List Nat}
    (h : f.bytes.length < 4294967296) (hcame : ∀ j < f.chunkCount, j ∈ came) :
    assemble (f.header i) (f.slotWith came) = .ok (some f.whole) := by
  have hparts : ((List.range (UInt32.ofNat f.chunkCount).toNat).mapM fun j =>
      (f.slotWith came).received.lookup (UInt32.ofNat j))
        = some ((List.range f.chunkCount).map
          (chunkAt MESH_CHUNK_MAX_PAYLOAD f.bytes)) := by
    rw [toNat_chunkCount h]
    refine mapM_eq_some_map fun j hj => ?_
    have hlt := mem_range.1 hj
    have hbound := chunkCount_lt h
    have hfound := lookup_partsOf (fun i : UInt32 =>
      chunkAt MESH_CHUNK_MAX_PAYLOAD f.bytes i.toNat)
      (mem_map_of_mem (f := UInt32.ofNat) (hcame j hlt))
    rw [UInt32.toNat_ofNat_of_lt' (Nat.lt_trans hlt hbound)] at hfound
    exact hfound
  have hflat : ((List.range f.chunkCount).map
      (chunkAt MESH_CHUNK_MAX_PAYLOAD f.bytes)).flatten = f.bytes := by
    rw [← flatMap_def, flatMap_chunkAt]
    exact take_of_length_le (length_le_chunkCount f)
  rw [assemble_of_parts hparts (by rw [hflat]; rfl), hflat]
  rfl

/-- A chunk that comes for the first time goes into the slot; the last one
brings the frame. -/
theorem pushChunk_chunk {a : MeshFrameAssembler} {i : Nat} {came : List Nat}
    (h : f.bytes.length < 4294967296) (hi : i < f.chunkCount)
    (hnew : i ∉ came) (hcame : ∀ j ∈ came, j < f.chunkCount)
    (hlen : came.length < f.chunkCount)
    (hslot : (a f.key).getD (slotOf (f.header 0)) = f.slotWith came) :
    a.pushChunk (f.chunk i)
      = if came.length + 1 = f.chunkCount then
          (a.remove f.key, assemble (f.header i) (f.slotWith (i :: came)))
        else (a.insert f.key (f.slotWith (i :: came)), .ok none) := by
  have hbound := chunkCount_lt h
  have hpart := length_chunkAt_le MESH_CHUNK_MAX_PAYLOAD f.bytes i
  have hcount := toNat_chunkCount h
  have hinew : UInt32.ofNat i ∉ came.map UInt32.ofNat := by
    intro hmem
    obtain ⟨j, hj, heq⟩ := mem_map.1 hmem
    have hij := congrArg UInt32.toNat heq
    rw [UInt32.toNat_ofNat_of_lt' (Nat.lt_trans hi hbound),
      UInt32.toNat_ofNat_of_lt' (Nat.lt_trans (hcame j hj) hbound)] at hij
    exact hnew (hij ▸ hj)
  have hput : putPart (f.slotWith came).received (UInt32.ofNat i)
      (chunkAt MESH_CHUNK_MAX_PAYLOAD f.bytes i)
        = (f.slotWith (i :: came)).received := by
    have hpush := putPart_partsOf (fun i : UInt32 =>
      chunkAt MESH_CHUNK_MAX_PAYLOAD f.bytes i.toNat) hinew
    rw [UInt32.toNat_ofNat_of_lt' (Nat.lt_trans hi hbound)] at hpush
    exact hpush
  have hfull : UInt32.ofNat (f.slotWith (i :: came)).received.length
      = (f.slotWith came).chunkCount ↔ came.length + 1 = f.chunkCount := by
    rw [show (f.slotWith (i :: came)).received.length = came.length + 1 by
      simp [slotWith, partsOf]]
    constructor
    · intro heq
      have hnat := congrArg UInt32.toNat heq
      rw [UInt32.toNat_ofNat_of_lt' (Nat.lt_of_le_of_lt hlen hbound)] at hnat
      exact hnat.trans hcount
    · intro heq
      rw [heq]
      rfl
  have hindex : ¬ ((f.header i).chunkCount = 0
      ∨ (f.header i).chunkCount ≤ (f.header i).chunkIndex) := by
    intro hbad
    rcases hbad with hzero | hle
    · have hnat := congrArg UInt32.toNat hzero
      rw [show (f.header i).chunkCount.toNat = f.chunkCount from hcount]
        at hnat
      exact Nat.ne_of_gt (chunkCount_pos f) hnat
    · rw [UInt32.le_iff_toNat_le,
        show (f.header i).chunkCount.toNat = f.chunkCount from hcount,
        show (f.header i).chunkIndex.toNat = i from
          UInt32.toNat_ofNat_of_lt' (Nat.lt_trans hi hbound)] at hle
      omega
  have htotal : ¬ (f.header i).chunkCount.toNat * MESH_CHUNK_MAX_PAYLOAD
      < (f.header i).totalLen.toNat := by
    rw [show (f.header i).chunkCount.toNat = f.chunkCount from hcount,
      show (f.header i).totalLen.toNat = f.bytes.length from
        UInt32.toNat_ofNat_of_lt' h]
    exact Nat.not_lt.2 (length_le_chunkCount f)
  rw [chunk,
    pushChunk_of_decode (decodeMeshChunk_encodeMeshChunk _ _) hindex htotal,
    show (f.header i).key = f.key from rfl,
    show slotOf (f.header i) = slotOf (f.header 0) from rfl, hslot,
    pushInto_of_fits (f.slotWith came) (by rfl) (by rfl) hpart,
    show (f.header i).chunkIndex = UInt32.ofNat i from rfl, hput]
  simp only [hfull]
  rfl

end MeshFrame

-- ==== its whole run

/-- The answers to the last chunks of a frame, when so many are left. -/
def answersLeft (f : MeshFrame) (left : Nat) : List Answer :=
  (List.range left).reverse.map fun behind =>
    if behind = 0 then .ok (some f.whole) else .ok none

theorem answersLeft_succ (f : MeshFrame) (left : Nat) :
    answersLeft f (left + 1)
      = (if left = 0 then .ok (some f.whole) else .ok none)
        :: answersLeft f left := by
  rw [answersLeft, range_succ, reverse_append, map_append]
  rfl

theorem answersLeft_eq (f : MeshFrame) (left : Nat) :
    answersLeft f (left + 1)
      = List.replicate left (.ok none) ++ [.ok (some f.whole)] := by
  induction left with
  | zero => rfl
  | succ left ih =>
    rw [answersLeft_succ, ih, if_neg (Nat.succ_ne_zero left),
      replicate_succ, cons_append]

/-- As many numbers as there are below a bound are all of them. -/
theorem mem_of_nodup_of_length {n : Nat} {l : List Nat} (hnodup : l.Nodup)
    (hlt : ∀ j ∈ l, j < n) (hlen : l.length = n) (j : Nat) (hj : j < n) :
    j ∈ l := by
  have hsub : l.Subperm (List.range n) :=
    subperm_of_subset hnodup fun j hj => mem_range.2 (hlt j hj)
  have hperm := hsub.perm_of_length_le (by rw [length_range]; omega)
  exact hperm.mem_iff.2 (mem_range.2 hj)

variable {f : MeshFrame}

theorem answersFor_chunks
    (h : f.bytes.length < 4294967296) (ops : List MeshOp)
    (a : MeshFrameAssembler) (left came : List Nat)
    (hpushed : (pushes ops).filter (fun buf => keyOf buf = some f.key)
      = left.map f.chunk)
    (hforget : ∀ surfaceId, .forget surfaceId ∈ ops → f.surfaceId ≠ surfaceId)
    (hnodup : (left ++ came).Nodup) (hlt : ∀ j ∈ left ++ came, j < f.chunkCount)
    (hlen : left.length + came.length = f.chunkCount) (hslot : left ≠ [] →
      (a f.key).getD (slotOf (f.header 0)) = f.slotWith came) :
    answersFor f.key a ops = answersLeft f left.length := by
  induction ops generalizing a left came with
  | nil =>
    obtain rfl : left = [] := map_eq_nil_iff.1 hpushed.symm
    rfl
  | cons op ops ih =>
    have hrest := fun surfaceId hmem =>
      hforget surfaceId (mem_cons_of_mem _ hmem)
    cases op with
    | forget surfaceId =>
      have hother := forgetSurface_other (a := a) (k := f.key)
        (hforget surfaceId mem_cons_self)
      exact ih _ left came hpushed hrest hnodup hlt hlen
        fun hne => hother.symm ▸ hslot hne
    | push buf =>
      rw [show pushes (.push buf :: ops) = buf :: pushes ops from rfl]
        at hpushed
      by_cases hkey : keyOf buf = some f.key
      · rw [filter_cons_of_pos (by simpa using hkey)] at hpushed
        cases left with
        | nil => cases hpushed
        | cons i left =>
          obtain ⟨rfl, hchunks⟩ := cons_eq_cons.1 hpushed
          obtain ⟨hnew, hnodup⟩ := nodup_cons.1 hnodup
          have hpush := MeshFrame.pushChunk_chunk h
            (hlt i mem_cons_self)
            (fun hmem => hnew (mem_append_right _ hmem))
            (fun j hj => hlt j (mem_append_right _ hj))
            (by rw [length_cons] at hlen; omega)
            (hslot (cons_ne_nil i left))
          have hmiddle : (left ++ i :: came).Perm (i :: left ++ came) :=
            perm_middle
          have hnodup' : (left ++ i :: came).Nodup :=
            hmiddle.nodup_iff.2 (nodup_cons.2 ⟨hnew, hnodup⟩)
          have hlt' : ∀ j ∈ left ++ i :: came, j < f.chunkCount :=
            fun j hj => hlt j (hmiddle.mem_iff.1 hj)
          have hlen' : left.length + (i :: came).length
              = f.chunkCount := by
            rw [length_cons] at hlen ⊢
            omega
          rw [answersFor_push_self hkey, length_cons, answersLeft_succ, hpush]
          by_cases hlast : left = []
          · subst hlast
            have hfull : came.length + 1 = f.chunkCount := by
              rw [length_cons, length_nil] at hlen
              omega
            have hall : ∀ j < f.chunkCount, j ∈ i :: came :=
              mem_of_nodup_of_length hnodup' hlt' hfull
            rw [if_pos hfull, MeshFrame.assemble_slotWith h hall]
            exact congrArg _ (ih _ [] (i :: came) hchunks hrest hnodup'
              hlt' hlen' fun hne => absurd rfl hne)
          · have hpos := length_pos_iff.2 hlast
            rw [if_neg (by rw [length_cons] at hlen; omega),
              if_neg (Nat.ne_of_gt hpos)]
            refine congrArg _ (ih _ left (i :: came) hchunks hrest
              hnodup' hlt' hlen' fun _ => ?_)
            exact congrArg (Option.getD · _)
              (update_self f.key _ a)
      · rw [filter_cons_of_neg (by simpa using hkey)] at hpushed
        rw [answersFor_push_other hkey]
        exact ih _ left came hpushed hrest hnodup hlt hlen
          fun hne => (pushChunk_other hkey).symm ▸ hslot hne

/-- The number of the chunk that a byte string decodes to. -/
def indexOf (buf : List UInt8) : Nat :=
  ((decodeMeshChunk buf).map fun c => c.1.chunkIndex.toNat).getD 0

theorem indexOf_chunk (h : f.bytes.length < 4294967296)
    {i : Nat} (hi : i < f.chunkCount) : indexOf (f.chunk i) = i := by
  have hbound := MeshFrame.chunkCount_lt h
  rw [indexOf, MeshFrame.chunk, decodeMeshChunk_encodeMeshChunk,
    Option.map_some, Option.getD_some,
    show (f.header i).chunkIndex = UInt32.ofNat i from rfl,
    UInt32.toNat_ofNat_of_lt' (Nat.lt_trans hi hbound)]

theorem chunks_of_perm (h : f.bytes.length < 4294967296)
    {bufs : List (List UInt8)} (hperm : bufs.Perm (splitMeshFrame f)) :
    ∃ order : List Nat, order.Perm (List.range f.chunkCount)
      ∧ bufs = order.map f.chunk := by
  have hsplit : splitMeshFrame f = (List.range f.chunkCount).map f.chunk := by
    rw [splitMeshFrame, MeshFrame.toNat_chunkCount h]
    rfl
  rw [hsplit] at hperm
  refine ⟨bufs.map indexOf, ?_, ?_⟩
  · have hmap := hperm.map indexOf
    simp only [map_map, comp_def] at hmap
    rw [map_congr_left
      fun i hi => indexOf_chunk h (mem_range.1 hi), map_id'] at hmap
    exact hmap
  · have hself : ∀ buf ∈ bufs, f.chunk (indexOf buf) = buf := by
      intro buf hbuf
      obtain ⟨i, hi, rfl⟩ := mem_map.1 (hperm.mem_iff.1 hbuf)
      rw [indexOf_chunk h (mem_range.1 hi)]
    simp only [map_map, comp_def]
    rw [map_congr_left hself, map_id']

-- ==== all frames

/-- A byte string that decodes to the key of one of these frames. -/
def ofFrames (frames : List MeshFrame) (buf : List UInt8) : Bool :=
  frames.any fun f => keyOf buf = some f.key

theorem filter_chunks {frames : List MeshFrame}
    (hkeys : (frames.map MeshFrame.key).Nodup) (hf : f ∈ frames) :
    (frames.flatMap splitMeshFrame).filter
        (fun buf => keyOf buf = some f.key) = splitMeshFrame f := by
  have hkey (g : MeshFrame) :
      ∀ buf ∈ splitMeshFrame g, keyOf buf = some g.key := by
    intro buf hbuf
    obtain ⟨i, -, rfl⟩ := mem_map.1 hbuf
    exact g.keyOf_chunk i
  have hself : (splitMeshFrame f).filter (fun buf => keyOf buf = some f.key)
      = splitMeshFrame f :=
    filter_eq_self.2 fun buf hbuf => by simpa using hkey f buf hbuf
  have hother (g : MeshFrame) (hne : g.key ≠ f.key) :
      (splitMeshFrame g).filter (fun buf => keyOf buf = some f.key) = [] :=
    filter_eq_nil_iff.2 fun buf hbuf hk =>
      hne (Option.some.inj ((hkey g buf hbuf).symm.trans (by simpa using hk)))
  induction frames with
  | nil => cases hf
  | cons g rest ih =>
    obtain ⟨hnew, hkeys⟩ := nodup_cons.1 hkeys
    rw [flatMap_cons, filter_append]
    rcases mem_cons.1 hf with rfl | hf
    · have hrest : (rest.flatMap splitMeshFrame).filter
          (fun buf => keyOf buf = some f.key) = [] := by
        refine filter_eq_nil_iff.2 fun buf hbuf hk => ?_
        obtain ⟨g, hg, hbuf⟩ := mem_flatMap.1 hbuf
        have heq : g.key = f.key := Option.some.inj
          ((hkey g buf hbuf).symm.trans (by simpa using hk))
        exact hnew (heq ▸ mem_map_of_mem hg)
      rw [hself, hrest, append_nil]
    · have hne : g.key ≠ f.key :=
        fun heq => hnew (heq ▸ mem_map_of_mem hf)
      rw [hother g hne, nil_append, ih hkeys hf]

/-- Every frame whose chunks are pushed once each, in any order and among
anything else, is returned once, at its last chunk and as it was. A chunk
fits a stream frame, and a forgotten surface loses its frames in flight
while the frames of the others go on as they would have. -/
theorem meshFrames_reassembled (frames : List MeshFrame) (ops : List MeshOp)
    (hkeys : (frames.map MeshFrame.key).Nodup)
    (hlen : ∀ f ∈ frames, f.bytes.length < 4294967296)
    (hpushed : ((pushes ops).filter (ofFrames frames)).Perm
      (frames.flatMap splitMeshFrame))
    (hforget : ∀ surfaceId, .forget surfaceId ∈ ops →
      ∀ f ∈ frames, f.surfaceId ≠ surfaceId) :
    (∀ f ∈ frames,
      answersFor f.key .new ops
          = List.replicate (f.chunkCount - 1) (.ok none)
            ++ [.ok (some (f.header 0, f.bytes))]
        ∧ (returned .new ops).filter (fun c => c.1.key = f.key)
          = [(f.header 0, f.bytes)]
        ∧ ∀ chunk ∈ splitMeshFrame f, chunk.length ≤ MAX_FRAME_LEN)
      ∧ ∀ (a : MeshFrameAssembler) (surfaceId : UInt32) (k : Key)
          (later : List MeshOp),
        answersFor k (a.forgetSurface surfaceId) later
          = answersFor k (if k.1 = surfaceId then .new else a) later := by
  constructor
  · intro f hf
    have hsub : (pushes ops).filter (fun buf => keyOf buf = some f.key)
        = ((pushes ops).filter (ofFrames frames)).filter
          (fun buf => keyOf buf = some f.key) := by
      rw [List.filter_filter]
      refine List.filter_congr fun buf _ => ?_
      by_cases hk : keyOf buf = some f.key
      · have hany : ofFrames frames buf = true :=
          List.any_eq_true.2 ⟨f, hf, by simpa using hk⟩
        rw [hany, Bool.and_true]
      · rw [decide_eq_false hk, Bool.false_and]
    have hperm : ((pushes ops).filter
        (fun buf => keyOf buf = some f.key)).Perm (splitMeshFrame f) := by
      rw [hsub, ← filter_chunks hkeys hf]
      exact hpushed.filter _
    obtain ⟨order, horder, hchunks⟩ := chunks_of_perm (hlen f hf) hperm
    have hcount : order.length = f.chunkCount := by
      rw [horder.length_eq, List.length_range]
    have hanswers : answersFor f.key .new ops
        = List.replicate (f.chunkCount - 1) (.ok none)
          ++ [.ok (some f.whole)] := by
      rw [answersFor_chunks (hlen f hf) ops .new order [] hchunks
        (fun surfaceId hmem => hforget surfaceId hmem f hf)
        (by rw [List.append_nil]; exact horder.nodup_iff.2 List.nodup_range)
        (fun j hj => List.mem_range.1
          (horder.mem_iff.1 (by rwa [List.append_nil] at hj)))
        (by rw [hcount, List.length_nil, Nat.add_zero]) (fun _ => rfl), hcount,
        ← answersLeft_eq, Nat.sub_add_cancel f.chunkCount_pos]
    refine ⟨hanswers, ?_, ?_⟩
    · rw [returned_key, hanswers, List.filterMap_append,
        List.filterMap_replicate_of_none (by rfl), List.nil_append]
      rfl
    · intro chunk hchunk
      obtain ⟨i, -, rfl⟩ := List.mem_map.1 hchunk
      exact f.length_chunk_le i
  · intro a surfaceId k later
    have hslot : a.forgetSurface surfaceId k
        = (if k.1 = surfaceId then MeshFrameAssembler.new else a) k := by
      show (if k.1 = surfaceId then none else a k) = _
      split <;> rfl
    rw [answersFor_filter later hslot, ← answersFor_filter later rfl]

/-- Two frames of one surface, the second of them empty and ahead of the
first, with bytes that are no chunk and a surface that is forgotten. -/
theorem meshFrames_reassembled_two :
    let full : MeshFrame := ⟨1, 7, 3, 9, true, [5, 6]⟩
    let empty : MeshFrame := ⟨1, 8, 3, 10, false, []⟩
    (returned .new [.push [0], .push (empty.chunk 0), .forget 2,
        .push (full.chunk 0)]).filter (fun c => c.1.key = full.key)
      = [(full.header 0, [5, 6])] := by
  intro full empty
  have hforget : ∀ surfaceId, MeshOp.forget surfaceId ∈
      [.push [0], .push (empty.chunk 0), .forget 2, .push (full.chunk 0)] →
      ∀ f ∈ [full, empty], f.surfaceId ≠ surfaceId := by
    intro surfaceId hmem
    obtain rfl : surfaceId = 2 := by simpa using hmem
    decide +kernel
  have hwhole := meshFrames_reassembled [full, empty]
    [.push [0], .push (empty.chunk 0), .forget 2, .push (full.chunk 0)]
    (by decide +kernel) (by decide +kernel) (by decide +kernel) hforget
  exact (hwhole.1 full List.mem_cons_self).2.1

end Tasty.Ipc.MeshStream
