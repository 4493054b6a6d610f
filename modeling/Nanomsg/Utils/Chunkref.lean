import Nanomsg.Utils.Chunk

/-!
# References to chunks, and messages

`chunkref.c` and `msg.c`. A `struct nn_chunkref` is an array of 32 bytes, whose
first byte is either the number of bytes that follow or, if it is `0xff`, says
that a pointer to a chunk is there instead. It is one or the other here
(`Chunkref`). The functions that write to it without reading it return what they
leave there.

A message (`Msg`) is three of them.
-/

namespace Nanomsg

/-- `NN_CHUNKREF_MAX`. -/
abbrev chunkrefMax : UInt64 := 32

/-- `struct nn_chunkref`. -/
inductive Chunkref
  | inplace (bytes : List UInt8) (short : bytes.length < 32)
  /-- `struct nn_chunkref_chunk`, the tag being `0xff`. -/
  | chunk (p : ChunkPtr)
  deriving DecidableEq

namespace Chunkref

/-- `errno_assert(rc == 0)` after `nn_chunk_alloc`. -/
def allocated : Chunks × ℤ × Option ChunkPtr → Except Fault (Chunks × ChunkPtr)
  | (h, rc, result) => do
    nnAssert (rc = 0)
    match result with
    | none => .error .wildPointer
    | some p => pure (h, p)

/-- `nn_chunkref_init`. The bytes are those that are there. -/
def init (h : Chunks) (size : UInt64) (bytes : ℕ → UInt8) (memory : Option (ℕ → UInt8)) :
    Except Fault (Chunks × Chunkref) :=
  if hs : size < chunkrefMax then
    .ok (h, inplace ((List.range size.toNat).map bytes) (by
      rw [List.length_map, List.length_range]
      exact UInt64.lt_iff_toNat_lt.1 hs))
  else do
    let (h, p) ← allocated (← h.alloc size 0 memory)
    pure (h, chunk p)

/-- `nn_chunkref_init_chunk`. -/
def initChunk (p : ChunkPtr) : Chunkref := chunk p

variable (h : Chunks) (self : Chunkref)

/-- `nn_chunkref_term`. -/
def term : Except Fault Chunks :=
  match self with
  | chunk p => h.free p
  | inplace _ _ => .ok h

/-- `nn_chunkref_getchunk`: what is left in `self`, and what is returned. Only bytes
    in place are taken out of it. -/
def getchunk (memory : Option (ℕ → UInt8)) : Except Fault (Chunks × Chunkref × ChunkPtr) :=
  match self with
  | chunk p => .ok (h, self, p)
  | inplace bytes _ => do
    let (h, p) ← allocated (← h.alloc (UInt64.ofNat bytes.length) 0 memory)
    let h ← h.write p bytes
    pure (h, inplace [] (by decide), p)

/-- `nn_chunkref_mv`: what is left in the destination, `self` being the source. -/
def mv : Chunkref := self

/-- `nn_chunkref_cp`. -/
def cp : Chunks × Chunkref :=
  match self with
  | chunk p => (h.addref p 1, self)
  | inplace _ _ => (h, self)

/-- The `n` bytes at the pointer that `nn_chunkref_data` returns. -/
def data (n : ℕ) : Except Fault (List UInt8) :=
  match self with
  | chunk p => h.read p n
  | inplace bytes _ => if n ≤ bytes.length then .ok (bytes.take n) else .error .wildPointer

/-- `nn_chunkref_trim`. -/
def trim (n : UInt64) : Except Fault (Chunks × Chunkref) :=
  match self with
  | chunk p => do
    let (h, p) ← h.trim p n
    pure (h, chunk p)
  | inplace bytes short => do
    nnAssert (n.toNat ≤ bytes.length)
    pure (h, inplace (bytes.drop n.toNat)
      (Nat.lt_of_le_of_lt (by rw [List.length_drop]; exact Nat.sub_le ..) short))

/-- `nn_chunkref_bulkcopy_start`. -/
def bulkcopyStart (copies : UInt32) : Chunks :=
  match self with
  | chunk p => h.addref p copies
  | inplace _ _ => h

/-- `nn_chunkref_bulkcopy_cp`. -/
def bulkcopyCp : Chunkref := self

/-! ### New chunks -/

section

variable {h : Chunks}

/-- `h'` has one more chunk than `h`, with one reference. -/
def Made (h h' : Chunks) : Prop :=
  ∃ c, c.refcount = 1 ∧ c.freed = 0 ∧ h' = ⟨Function.update h.chunk h.allocs c, h.allocs + 1⟩

/-- A long chunkref has a new chunk. -/
theorem init_chunk {size : UInt64} (bytes memory : ℕ → UInt8) (hn : ¬ size < chunkrefMax)
    (hs : ¬ chunkHdrsize + size < chunkHdrsize) :
    ∃ h', init h size bytes (some memory) = .ok (h', chunk ⟨h.allocs, 8⟩) ∧ Made h h' := by
  obtain ⟨_, _, _, _, -, hok⟩ := Chunks.alloc_ok (h := h) hs memory
  exact ⟨_, by simp only [init, dif_neg hn, hok, ok_bind, allocated, decide_true, nnAssert_true]; rfl,
    _, rfl, rfl, rfl⟩

/-- Bytes in place are moved to a new chunk. -/
theorem getchunk_inplace {bytes : List UInt8} (hb : bytes.length < 32) (memory : ℕ → UInt8) :
    ∃ h', (inplace bytes hb).getchunk h (some memory) =
      .ok (h', inplace [] (by decide), ⟨h.allocs, 8⟩) ∧ Made h h' := by
  have hsize : (UInt64.ofNat bytes.length).toNat = bytes.length := by
    rw [UInt64.toNat_ofNat']
    omega
  have hs : ¬ chunkHdrsize + UInt64.ofNat bytes.length < chunkHdrsize := by
    rw [UInt64.lt_iff_toNat_lt, UInt64.toNat_add, hsize, show (chunkHdrsize : UInt64).toNat = 32 from rfl]
    omega
  obtain ⟨b₁, b₂, b₃, rest, hlen, hok⟩ := Chunks.alloc_ok (h := h) hs memory
  rw [hsize] at hlen
  let full := 0 :: putl chunkTag ++ b₁ :: b₂ :: b₃ :: rest
  let c : Chunk := ⟨1, UInt64.ofNat bytes.length,
    full.take 8 ++ bytes ++ full.drop (8 + bytes.length), 0⟩
  refine ⟨⟨Function.update h.chunk h.allocs c, h.allocs + 1⟩, ?_, c, rfl, rfl, rfl⟩
  simp only [getchunk, hok, ok_bind, allocated, decide_true, nnAssert_true, Chunks.write,
    Chunks.live, Function.update_self, Nat.lt_succ_self, if_true, pure_eq_ok]
  rw [if_pos (by simp [hlen]; omega)]
  simp [Chunks.set, c, full]

end

end Chunkref

/-- `struct nn_msg`. -/
structure Msg where
  sphdr : Chunkref
  hdrs : Chunkref
  body : Chunkref
  deriving DecidableEq

namespace Msg

open Chunkref

/-- `nn_msg_init`. -/
def init (h : Chunks) (size : UInt64) (bytes : ℕ → UInt8) (memory : Option (ℕ → UInt8)) :
    Except Fault (Chunks × Msg) := do
  let (h, sphdr) ← Chunkref.init h 0 bytes memory
  let (h, hdrs) ← Chunkref.init h 0 bytes memory
  let (h, body) ← Chunkref.init h size bytes memory
  pure (h, ⟨sphdr, hdrs, body⟩)

/-- `nn_msg_init_chunk`. -/
def initChunk (h : Chunks) (p : ChunkPtr) (bytes : ℕ → UInt8) (memory : Option (ℕ → UInt8)) :
    Except Fault (Chunks × Msg) := do
  let (h, sphdr) ← Chunkref.init h 0 bytes memory
  let (h, hdrs) ← Chunkref.init h 0 bytes memory
  pure (h, ⟨sphdr, hdrs, Chunkref.initChunk p⟩)

variable (h : Chunks) (self : Msg)

/-- `nn_msg_term`. -/
def term : Except Fault Chunks := do
  let h ← self.sphdr.term h
  let h ← self.hdrs.term h
  self.body.term h

/-- `nn_msg_mv`, `self` being the source. -/
def mv : Msg := ⟨self.sphdr.mv, self.hdrs.mv, self.body.mv⟩

/-- `nn_msg_cp`, `self` being the source. -/
def cp : Chunks × Msg :=
  let (h, sphdr) := self.sphdr.cp h
  let (h, hdrs) := self.hdrs.cp h
  let (h, body) := self.body.cp h
  (h, ⟨sphdr, hdrs, body⟩)

/-- `nn_msg_bulkcopy_start`. -/
def bulkcopyStart (copies : UInt32) : Chunks :=
  let h := self.sphdr.bulkcopyStart h copies
  let h := self.hdrs.bulkcopyStart h copies
  self.body.bulkcopyStart h copies

/-- `nn_msg_bulkcopy_cp`, `self` being the source. -/
def bulkcopyCp : Msg := ⟨self.sphdr.bulkcopyCp, self.hdrs.bulkcopyCp, self.body.bulkcopyCp⟩

/-- `nn_msg_replace_body`. -/
def replaceBody (newBody : Chunkref) : Except Fault (Chunks × Msg) := do
  let h ← self.body.term h
  pure (h, { self with body := newBody })

end Msg

end Nanomsg
