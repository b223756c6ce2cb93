/-
Mesh frames in chunks (`mesh_stream.rs`): a frame is cut into chunks with a
header each, and the assembler puts the frames of all surfaces together
again, whatever the order in which their chunks come.
-/
import Tasty.Lib.Bytes

namespace Tasty.Ipc.MeshStream

open List

open ByteFile (be ofBe)

-- ==== the chunks

/-- `stream::MAX_FRAME_LEN`. -/
def MAX_FRAME_LEN : Nat := 1048576

def MESH_CHUNK_HEADER_LEN : Nat := 4 + 8 + 4 + 4 + 4 + 8 + 8 + 1

def MESH_CHUNK_MAX_PAYLOAD : Nat := MAX_FRAME_LEN - MESH_CHUNK_HEADER_LEN

structure MeshChunkMeta where
  surfaceId : UInt32
  frameId : UInt64
  chunkIndex : UInt32
  chunkCount : UInt32
  totalLen : UInt32
  generation : UInt64
  frameSeq : UInt64
  fullTextures : Bool
  deriving DecidableEq

/-- The key under which the assembler keeps a frame. -/
abbrev Key := UInt32 × UInt64

def MeshChunkMeta.key (m : MeshChunkMeta) : Key := (m.surfaceId, m.frameId)

def encodeMeshChunk (m : MeshChunkMeta) (chunk : List UInt8) :
    List UInt8 :=
  be 4 m.surfaceId.toNat ++ be 8 m.frameId.toNat
    ++ be 4 m.chunkIndex.toNat ++ be 4 m.chunkCount.toNat
    ++ be 4 m.totalLen.toNat ++ be 8 m.generation.toNat
    ++ be 8 m.frameSeq.toNat ++ [if m.fullTextures then 1 else 0] ++ chunk

/-- The number in `buf[start..stop]`. -/
def field (buf : List UInt8) (start stop : Nat) : Nat :=
  ofBe ((buf.drop start).take (stop - start))

def decodeMeshChunk (buf : List UInt8) :
    Option (MeshChunkMeta × List UInt8) :=
  if buf.length < MESH_CHUNK_HEADER_LEN then none
  else some (
    { surfaceId := UInt32.ofNat (field buf 0 4)
      frameId := UInt64.ofNat (field buf 4 12)
      chunkIndex := UInt32.ofNat (field buf 12 16)
      chunkCount := UInt32.ofNat (field buf 16 20)
      totalLen := UInt32.ofNat (field buf 20 24)
      generation := UInt64.ofNat (field buf 24 32)
      frameSeq := UInt64.ofNat (field buf 32 40)
      fullTextures := (buf.drop 40).headD 0 != 0 },
    buf.drop MESH_CHUNK_HEADER_LEN)

/-- A frame as the caller hands it over. -/
structure MeshFrame where
  surfaceId : UInt32
  frameId : UInt64
  generation : UInt64
  frameSeq : UInt64
  fullTextures : Bool
  bytes : List UInt8

namespace MeshFrame

def key (f : MeshFrame) : Key := (f.surfaceId, f.frameId)

/-- `bytes.len().div_ceil(MESH_CHUNK_MAX_PAYLOAD).max(1)`. -/
def chunkCount (f : MeshFrame) : Nat :=
  max ((f.bytes.length + (MESH_CHUNK_MAX_PAYLOAD - 1))
    / MESH_CHUNK_MAX_PAYLOAD) 1

/-- The header of the chunk with this number. -/
def header (f : MeshFrame) (i : Nat) : MeshChunkMeta where
  surfaceId := f.surfaceId
  frameId := f.frameId
  chunkIndex := UInt32.ofNat i
  chunkCount := UInt32.ofNat f.chunkCount
  totalLen := UInt32.ofNat f.bytes.length
  generation := f.generation
  frameSeq := f.frameSeq
  fullTextures := f.fullTextures

end MeshFrame

def splitMeshFrame (f : MeshFrame) : List (List UInt8) :=
  (List.range (UInt32.ofNat f.chunkCount).toNat).map fun i =>
    encodeMeshChunk (f.header i)
      (chunkAt MESH_CHUNK_MAX_PAYLOAD f.bytes i)

-- ==== the assembler

inductive MeshAssembleError where
  | malformed
  | lengthMismatch
  deriving DecidableEq

structure InFlight where
  chunkCount : UInt32
  totalLen : UInt32
  generation : UInt64
  frameSeq : UInt64
  fullTextures : Bool
  received : List (UInt32 × List UInt8)

/-- The frames in flight by their key. -/
abbrev MeshFrameAssembler := Key → Option InFlight

abbrev Answer :=
  Except MeshAssembleError (Option (MeshChunkMeta × List UInt8))

namespace MeshFrameAssembler

def new : MeshFrameAssembler := fun _ => none

def remove (a : MeshFrameAssembler) (k : Key) : MeshFrameAssembler :=
  Function.update a k none

def insert (a : MeshFrameAssembler) (k : Key) (slot : InFlight) :
    MeshFrameAssembler :=
  Function.update a k (some slot)

/-- The slot of a chunk that is the first of its frame. -/
def slotOf (m : MeshChunkMeta) : InFlight where
  chunkCount := m.chunkCount
  totalLen := m.totalLen
  generation := m.generation
  frameSeq := m.frameSeq
  fullTextures := m.fullTextures
  received := []

/-- The frame of a slot that has as many parts as it needs. -/
def assemble (m : MeshChunkMeta) (slot : InFlight) : Answer :=
  match (List.range slot.chunkCount.toNat).mapM fun i =>
      slot.received.lookup (UInt32.ofNat i) with
  | none => .error .malformed
  | some parts =>
    let assembled := parts.flatten
    if UInt32.ofNat assembled.length ≠ slot.totalLen then
      .error .lengthMismatch
    else .ok (some (
      { surfaceId := m.surfaceId
        frameId := m.frameId
        chunkIndex := 0
        chunkCount := slot.chunkCount
        totalLen := slot.totalLen
        generation := slot.generation
        frameSeq := slot.frameSeq
        fullTextures := slot.fullTextures }, assembled))

/-- The chunk in the slot of its frame. -/
def pushInto (a : MeshFrameAssembler) (m : MeshChunkMeta)
    (payload : List UInt8) (slot : InFlight) :
    MeshFrameAssembler × Answer :=
  if slot.chunkCount ≠ m.chunkCount ∨ slot.totalLen ≠ m.totalLen then
    (a.remove m.key, .error .malformed)
  else if MESH_CHUNK_MAX_PAYLOAD < payload.length then
    (a.remove m.key, .error .lengthMismatch)
  else
    let slot := { slot with
      received := putPart slot.received m.chunkIndex payload }
    if UInt32.ofNat slot.received.length = slot.chunkCount then
      (a.remove m.key, assemble m slot)
    else (a.insert m.key slot, .ok none)

def pushChunk (a : MeshFrameAssembler) (buf : List UInt8) :
    MeshFrameAssembler × Answer :=
  match decodeMeshChunk buf with
  | none => (a, .error .malformed)
  | some (m, payload) =>
    if m.chunkCount = 0 ∨ m.chunkCount ≤ m.chunkIndex then
      (a, .error .malformed)
    else if m.chunkCount.toNat * MESH_CHUNK_MAX_PAYLOAD
        < m.totalLen.toNat then
      (a, .error .lengthMismatch)
    else a.pushInto m payload ((a m.key).getD (slotOf m))

def forgetSurface (a : MeshFrameAssembler) (surfaceId : UInt32) :
    MeshFrameAssembler :=
  fun k => if k.1 = surfaceId then none else a k

end MeshFrameAssembler

-- ==== a chunk

theorem length_encodeMeshChunk (m : MeshChunkMeta) (chunk : List UInt8) :
    (encodeMeshChunk m chunk).length
      = MESH_CHUNK_HEADER_LEN + chunk.length := by
  simp only [encodeMeshChunk, length_append, ByteFile.length_be,
    length_singleton, MESH_CHUNK_HEADER_LEN]

theorem field_here {w n : Nat} (h : n < 256 ^ w) (rest : List UInt8) :
    field (be w n ++ rest) 0 w = n := by
  rw [field, drop_zero, Nat.sub_zero,
    take_left' (ByteFile.length_be w n), ByteFile.ofBe_be_of_lt h]

theorem field_behind (w n : Nat) (rest : List UInt8) (start stop : Nat) :
    field (be w n ++ rest) (w + start) (w + stop)
      = field rest start stop := by
  rw [field, field, ← drop_drop,
    drop_left' (ByteFile.length_be w n), Nat.add_sub_add_left]

theorem drop_behind (w n : Nat) (rest : List UInt8) (k : Nat) :
    (be w n ++ rest).drop (w + k) = rest.drop k := by
  rw [← drop_drop, drop_left' (ByteFile.length_be w n)]

theorem decodeMeshChunk_encodeMeshChunk (m : MeshChunkMeta)
    (chunk : List UInt8) :
    decodeMeshChunk (encodeMeshChunk m chunk) = some (m, chunk) := by
  have hdata : encodeMeshChunk m chunk
      = be 4 m.surfaceId.toNat ++ (be 8 m.frameId.toNat
        ++ (be 4 m.chunkIndex.toNat ++ (be 4 m.chunkCount.toNat
          ++ (be 4 m.totalLen.toNat ++ (be 8 m.generation.toNat
            ++ (be 8 m.frameSeq.toNat
              ++ ((if m.fullTextures then 1 else 0) :: chunk))))))) := by
    simp [encodeMeshChunk]
  have hlen := length_encodeMeshChunk m chunk
  have h32 (x : UInt32) : x.toNat < 256 ^ 4 := x.toNat_lt
  have h64 (x : UInt64) : x.toNat < 256 ^ 8 := x.toNat_lt
  have hflag : ((if m.fullTextures then (1 : UInt8) else 0) != 0)
      = m.fullTextures := by
    cases m.fullTextures <;> rfl
  unfold decodeMeshChunk
  rw [if_neg (by omega), hdata]
  rw [field_here (h32 _), field_behind 4 _ _ 0 8, field_here (h64 _),
    field_behind 4 _ _ 8 12, field_behind 8 _ _ 0 4, field_here (h32 _),
    field_behind 4 _ _ 12 16, field_behind 8 _ _ 4 8, field_behind 4 _ _ 0 4,
    field_here (h32 _), field_behind 4 _ _ 16 20, field_behind 8 _ _ 8 12,
    field_behind 4 _ _ 4 8, field_behind 4 _ _ 0 4, field_here (h32 _),
    field_behind 4 _ _ 20 28, field_behind 8 _ _ 12 20, field_behind 4 _ _ 8 16,
    field_behind 4 _ _ 4 12, field_behind 4 _ _ 0 8, field_here (h64 _),
    field_behind 4 _ _ 28 36, field_behind 8 _ _ 20 28, field_behind 4 _ _ 16
    24, field_behind 4 _ _ 12 20, field_behind 4 _ _ 8 16, field_behind 8 _ _ 0
    8, field_here (h64 _)]
  have hskip (k : Nat) (rest : List UInt8) :
      (be 4 m.surfaceId.toNat ++ (be 8 m.frameId.toNat
        ++ (be 4 m.chunkIndex.toNat ++ (be 4 m.chunkCount.toNat
          ++ (be 4 m.totalLen.toNat ++ (be 8 m.generation.toNat
            ++ (be 8 m.frameSeq.toNat ++ rest))))))).drop (40 + k)
        = rest.drop k := by
    rw [show 40 + k = 4 + (8 + (4 + (4 + (4 + (8 + (8 + k)))))) by omega]
    simp only [drop_behind]
  rw [hskip 0, show MESH_CHUNK_HEADER_LEN = 40 + 1 from rfl, hskip 1]
  simp only [drop_zero, headD_cons, hflag, drop_one,
    tail_cons, UInt32.ofNat_toNat, UInt64.ofNat_toNat]

end Tasty.Ipc.MeshStream
