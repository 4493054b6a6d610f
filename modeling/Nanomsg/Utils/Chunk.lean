import Mathlib.Logic.Function.Basic
import Nanomsg.Fault
import Nanomsg.Utils.Wire

/-!
# Chunks

`chunk.c`: blocks of memory that are counted references to. A block starts with
a `struct nn_chunk` and goes on with its bytes. A chunk is used by a *handle*, a
pointer into the bytes: the four bytes before it are a tag, and the four before
those say how far back the struct is.

A block is a number, and a pointer into it (`ChunkPtr`) an offset from the end
of its struct. What is read and written is bytes, so that a handle is right only
if the bytes before it are (`Chunks.getptr`). `memory` is what newly allocated
memory holds, or `none` if there is no more.
-/

namespace Nanomsg

open Function

/-- `struct nn_chunk`, the bytes after it, and how often it has been freed. -/
structure Chunk where
  refcount : UInt32
  size : UInt64
  bytes : List UInt8
  freed : ℕ

/-- A pointer into a block, `off` bytes after the end of its struct. -/
structure ChunkPtr where
  chunk : ℕ
  off : ℕ
  deriving DecidableEq, Repr

/-- The blocks allocated so far are those below `allocs`. -/
structure Chunks where
  chunk : ℕ → Chunk
  allocs : ℕ

/-- `NN_CHUNK_TAG` and `NN_CHUNK_TAG_DEALLOCATED`. -/
abbrev chunkTag : UInt32 := 0xdeadcafe
abbrev chunkTagDeallocated : UInt32 := 0xbeefbeef

/-- `sizeof(struct nn_chunk)`, the counter being an atomic builtin. -/
abbrev sizeofChunk : UInt64 := 24

/-- `nn_chunk_hdrsize`. -/
abbrev chunkHdrsize : UInt64 := sizeofChunk + 8

namespace Chunks

variable (h : Chunks)

/-- The chunk `i` being `c`. -/
def set (i : ℕ) (c : Chunk) : Chunks := { h with chunk := update h.chunk i c }

/-- Whether `i` is a chunk that has not been freed. -/
def live (i : ℕ) : Except Fault Unit :=
  if i < h.allocs then
    if (h.chunk i).freed = 0 then .ok () else .error .useAfterFree
  else
    .error .wildPointer

/-- `nn_getl` of the bytes `back` before `p`. -/
def getl (p : ChunkPtr) (back : ℕ) : Except Fault UInt32 := do
  h.live p.chunk
  if back ≤ p.off then
    match (h.chunk p.chunk).bytes.drop (p.off - back) with
    | b₀ :: b₁ :: b₂ :: b₃ :: _ => pure (Nanomsg.getl b₀ b₁ b₂ b₃)
    | _ => .error .wildPointer
  else
    .error .wildPointer

/-- Writing bytes at `p`, as `memcpy` does. -/
def write (p : ChunkPtr) (bytes : List UInt8) : Except Fault Chunks := do
  h.live p.chunk
  let c := h.chunk p.chunk
  if p.off + bytes.length ≤ c.bytes.length then
    pure (h.set p.chunk
      { c with bytes := c.bytes.take p.off ++ bytes ++ c.bytes.drop (p.off + bytes.length) })
  else
    .error .wildPointer

/-- Reading `n` bytes at `p`. -/
def read (p : ChunkPtr) (n : ℕ) : Except Fault (List UInt8) := do
  h.live p.chunk
  let bytes := (h.chunk p.chunk).bytes
  if p.off + n ≤ bytes.length then pure ((bytes.drop p.off).take n) else .error .wildPointer

/-- `nn_putl` at the bytes `back` before `p`. -/
def putl (p : ChunkPtr) (back : ℕ) (val : UInt32) : Except Fault Chunks :=
  if back ≤ p.off then h.write ⟨p.chunk, p.off - back⟩ (Nanomsg.putl val) else .error .wildPointer

/-- `nn_chunk_getptr`: the chunk that the handle `p` is of. -/
def getptr (p : ChunkPtr) : Except Fault ℕ := do
  let tag ← h.getl p 4
  nnAssert (tag = chunkTag)
  let off ← h.getl p 8
  -- Any other pointer is not one to the struct.
  if p.off = 8 + off.toNat then pure p.chunk else .error .wildPointer

/-- `nn_chunk_getdata`. -/
def getdata (self : ℕ) : ChunkPtr := ⟨self, 8⟩

/-- `nn_alloc` of a `struct nn_chunk` and `sz` bytes after it, and its first
    three fields. -/
def newChunk (size : UInt64) (sz : ℕ) (memory : ℕ → UInt8) : Chunks where
  chunk := update h.chunk h.allocs ⟨1, size, (List.range sz).map memory, 0⟩
  allocs := h.allocs + 1

/-- `nn_chunk_alloc`: what it returns, and the result if that is 0. -/
def alloc (size : UInt64) (type : ℤ) (memory : Option (ℕ → UInt8)) :
    Except Fault (Chunks × ℤ × Option ChunkPtr) :=
  let hdrsz := chunkHdrsize
  let sz := hdrsz + size
  if sz < hdrsz then
    .ok (h, -Errno.enomem, none)
  else if type ≠ 0 then
    .ok (h, -Errno.einval, none)
  else
    match memory with
    | none => .ok (h, -Errno.enomem, none)
    | some memory => do
      let self := h.allocs
      let h := h.newChunk size (sz - sizeofChunk).toNat memory
      let h ← h.putl ⟨self, 0⟩ 0 0
      -- The pointer is cast before 1 is added to it.
      let h ← h.putl ⟨self, 0 + 1⟩ 0 chunkTag
      pure (h, 0, some (getdata self))

/-- `nn_chunk_addref`, which is declared only. -/
def addref (p : ChunkPtr) (n : UInt32) : Chunks :=
  let c := h.chunk p.chunk
  h.set p.chunk { c with refcount := c.refcount + n }

/-- `self->ffn(self)`, which is `nn_free`. -/
def ffn (self : ℕ) : Chunks :=
  let c := h.chunk self
  h.set self { c with freed := c.freed + 1 }

/-- `nn_chunk_free`. -/
def free (p : ChunkPtr) : Except Fault Chunks := do
  let self ← h.getptr p
  let c := h.chunk self
  let h := h.set self { c with refcount := c.refcount - 1 }
  if c.refcount ≤ 1 then do
    let h ← h.putl p 4 chunkTagDeallocated
    pure (h.ffn self)
  else
    pure h

/-- `nn_chunk_size`. -/
def size (p : ChunkPtr) : Except Fault UInt64 := do
  let self ← h.getptr p
  pure (h.chunk self).size

/-- `nn_chunk_trim`. -/
def trim (p : ChunkPtr) (n : UInt64) : Except Fault (Chunks × ChunkPtr) := do
  let self ← h.getptr p
  nnAssert (n ≤ (h.chunk self).size)
  let p : ChunkPtr := ⟨p.chunk, p.off + n.toNat⟩
  let h ← h.putl p 4 chunkTag
  let emptySpace := p.off - 8
  nnAssert (emptySpace < UInt32.size - 1)
  let h ← h.putl p 8 (UInt32.ofNat emptySpace)
  let c := h.chunk self
  pure (h.set self { c with size := c.size - n }, p)

/-- `nn_chunk_realloc` where it moves the bytes forward, in the block. What is
    stored is `p`, not where they are. -/
def grow (self : ℕ) (p : ChunkPtr) (size : UInt64) : Except Fault (Chunks × ℤ × ChunkPtr) := do
  let c := h.chunk self
  let newPtr : ChunkPtr := ⟨p.chunk, p.off - (size - c.size).toNat⟩
  let bytes ← h.read p c.size.toNat
  let h ← h.write newPtr bytes
  let c := h.chunk self
  let h := h.set self { c with size := size }
  let empty := newPtr.off - 8
  let h ← h.putl newPtr 4 chunkTag
  let h ← h.putl newPtr 8 (UInt32.ofNat empty)
  pure (h, 0, p)

/-- `nn_chunk_realloc` where it makes a new chunk. What is copied starts where the
    bytes of a chunk never trimmed do. -/
def renew (self : ℕ) (p : ChunkPtr) (size : UInt64) (memory : Option (ℕ → UInt8)) :
    Except Fault (Chunks × ℤ × ChunkPtr) := do
  let (h, rc, newPtr) ← h.alloc size 0 memory
  match newPtr with
  | none => pure (h, rc, p)
  | some newPtr => do
    let bytes ← h.read (getdata self) (h.chunk self).size.toNat
    let h ← h.write newPtr bytes
    let h ← h.free p
    pure (h, 0, newPtr)

/-- `nn_chunk_realloc`: what it returns, and the handle stored. -/
def realloc (size : UInt64) (p : ChunkPtr) (memory : Option (ℕ → UInt8)) :
    Except Fault (Chunks × ℤ × ChunkPtr) := do
  let self ← h.getptr p
  let c := h.chunk self
  if c.refcount = 1 then
    if size ≤ c.size then
      pure (h.set self { c with size := size }, 0, p)
    else if chunkHdrsize + size < size then
      pure (h, -Errno.enomem, p)
    else if (size - c.size).toNat ≤ p.off - 8 then
      h.grow self p size
    else
      h.renew self p size memory
  else
    h.renew self p size memory

/-! ### Allocating -/

variable {h}

/-- A handle leads back to its own chunk, if anywhere. -/
theorem eq_of_getptr {p : ChunkPtr} {i : ℕ} (hg : h.getptr p = .ok i) : i = p.chunk := by
  obtain ⟨_, -, hg⟩ := bind_eq_ok.1 hg
  obtain ⟨_, -, hg⟩ := bind_eq_ok.1 hg
  obtain ⟨_, -, hg⟩ := bind_eq_ok.1 hg
  split at hg
  · exact (Except.ok.inj hg).symm
  · cases hg

/-- Putting a number into the bytes of a live chunk. -/
theorem putl_ok {i off : ℕ} {val : UInt32} (hi : i < h.allocs) (hf : (h.chunk i).freed = 0)
    (hlen : off + 4 ≤ (h.chunk i).bytes.length) :
    h.putl ⟨i, off⟩ 0 val = .ok (h.set i { h.chunk i with
      bytes := (h.chunk i).bytes.take off ++ Nanomsg.putl val ++
        (h.chunk i).bytes.drop (off + 4) }) := by
  simp [putl, write, live, hi, hf, hlen]

/-- The bytes of a new chunk start with the first byte of the number 0 and the
    four bytes of the tag. -/
theorem alloc_ok {size : UInt64} (hs : ¬ chunkHdrsize + size < chunkHdrsize) (memory : ℕ → UInt8) :
    ∃ b₁ b₂ b₃ bytes, bytes.length = size.toNat ∧ h.alloc size 0 (some memory) = .ok
      ({ chunk := update h.chunk h.allocs
          ⟨1, size, 0 :: Nanomsg.putl chunkTag ++ b₁ :: b₂ :: b₃ :: bytes, 0⟩
         allocs := h.allocs + 1 }, 0, some ⟨h.allocs, 8⟩) := by
  have hsz : (chunkHdrsize + size - sizeofChunk).toNat = size.toNat + 8 := by
    have hadd : (chunkHdrsize + size).toNat = (32 + size.toNat) % 2 ^ 64 := UInt64.toNat_add _ _
    have hle : 32 ≤ (chunkHdrsize + size).toNat :=
      UInt64.le_iff_toNat_le.1 (show chunkHdrsize ≤ chunkHdrsize + size by simpa using hs)
    have h24 : (sizeofChunk : UInt64).toNat = 24 := rfl
    have hlt := size.toNat_lt
    rw [UInt64.toNat_sub_of_le _ _ (UInt64.le_iff_toNat_le.2 (by omega))]
    omega
  let m := (List.range (size.toNat + 8)).map memory
  obtain ⟨b₁, b₂, b₃, bytes, hm⟩ : ∃ b₁ b₂ b₃ bytes, m.drop 5 = b₁ :: b₂ :: b₃ :: bytes := by
    have hlen : 3 ≤ (m.drop 5).length := by simp [m]
    match m.drop 5, hlen with
    | b₁ :: b₂ :: b₃ :: bytes, _ => exact ⟨b₁, b₂, b₃, bytes, rfl⟩
  refine ⟨b₁, b₂, b₃, bytes, ?_, ?_⟩
  · have := congrArg List.length hm
    simp only [m, List.length_drop, List.length_map, List.length_range, List.length_cons] at this
    omega
  rw [← hm]
  have h₁ : (h.newChunk size (size.toNat + 8) memory).putl ⟨h.allocs, 0⟩ 0 0 = _ :=
    putl_ok (by simp [newChunk]) (by simp [newChunk]) (by simp [newChunk])
  rw [alloc, if_neg hs, if_neg (by simp), hsz]
  simp only [h₁, ok_bind]
  rw [putl_ok (i := h.allocs) (by simp [newChunk, set]) (by simp [newChunk, set])
    (by simp [newChunk, set]; omega)]
  have hput : Nanomsg.putl 0 = [0, 0, 0, 0] := by decide
  simp [set, newChunk, getdata, hput, m]

end Chunks

end Nanomsg
