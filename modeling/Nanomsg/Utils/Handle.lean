import Nanomsg.Lib.System
import Nanomsg.Utils.Chunk

/-!
# Handles

Runs of `nn_chunk_alloc`, `nn_chunk_realloc` and `nn_chunk_trim`. Every handle that
they return should be well formed (`Chunks.WellFormed`): the bytes before it
lead back to its chunk.

`wellFormed_iff_fails`: those of `nn_chunk_alloc` never are. It puts the tag three
bytes too early, so that the first of the four bytes before the handle is the
last one of the tag.
-/

namespace Nanomsg

open Function Transition

namespace Chunks

variable {h h' : Chunks} {p : ChunkPtr}

/-- The handle `p` leads back to its chunk, of `len` bytes. -/
structure WellFormed (h : Chunks) (p : ChunkPtr) (len : UInt64) : Prop where
  tag : h.getl p 4 = .ok chunkTag
  distance : ∃ off, h.getl p 8 = .ok off ∧ p.off = 8 + off.toNat
  getptr : h.getptr p = .ok p.chunk
  size : h.size p = .ok len

/-- The four bytes before the handle returned by `nn_chunk_alloc` are not the tag. -/
theorem getl_alloc {size : UInt64} {memory : Option (ℕ → UInt8)}
    (ha : h.alloc size 0 memory = .ok (h', 0, some p)) :
    ∃ tag, h'.getl p 4 = .ok tag ∧ tag ≠ chunkTag := by
  have hs : ¬ chunkHdrsize + size < chunkHdrsize := by
    intro hs
    simp [alloc, if_pos hs] at ha
  cases memory with
  | none => simp [alloc] at ha
  | some memory =>
    obtain ⟨b₁, b₂, b₃, bytes, -, hok⟩ := alloc_ok (h := h) hs memory
    rw [hok] at ha
    simp only [Except.ok.injEq, Prod.mk.injEq, Option.some.injEq, true_and] at ha
    obtain ⟨rfl, rfl⟩ := ha
    have htag : Nanomsg.putl chunkTag = [0xde, 0xad, 0xca, 0xfe] := by decide
    refine ⟨Nanomsg.getl 0xfe b₁ b₂ b₃, by simp [getl, live, htag], fun he => ?_⟩
    have hnat := congrArg UInt32.toNat he
    rw [toNat_getl] at hnat
    have h₁ := b₁.toNat_lt
    have h₂ := b₂.toNat_lt
    have h₃ := b₃.toNat_lt
    simp only [show (0xfe : UInt8).toNat = 254 from rfl, show chunkTag.toNat = 3735931646 from rfl]
      at hnat
    omega

end Chunks

/-- The chunks, and the handles returned for them, with their lengths. -/
structure Handles where
  chunks : Chunks
  handles : List (ChunkPtr × UInt64)

/-- A call of a function of `chunk.c`, the last two for the `i`th handle. -/
inductive HandleAction
  | alloc (size : UInt64) (memory : Option (ℕ → UInt8))
  | realloc (i : ℕ) (size : UInt64) (memory : Option (ℕ → UInt8))
  | trim (i : ℕ) (n : UInt64)

namespace Handles

/-- No more is trimmed than there is, and less than 2³² - 1 bytes in all. -/
def enabled (w : Handles) : HandleAction → Prop
  | .alloc _ _ => True
  | .realloc i _ _ => i < w.handles.length
  | .trim i n => ∃ p len, w.handles[i]? = some (p, len) ∧ n ≤ len ∧ p.off - 8 + n.toNat < UInt32.size - 1

/-- The handle stored, if what is returned is 0. -/
def store (w : Handles) (chunks : Chunks) (i : ℕ) (rc : ℤ) (p : ChunkPtr) (len : UInt64) : Handles :=
  if rc = 0 then ⟨chunks, w.handles.set i (p, len)⟩ else ⟨chunks, w.handles⟩

/-- Making a call. -/
def exec (w : Handles) : HandleAction → Except Fault Handles
  | .alloc size memory => do
    let (chunks, _, result) ← w.chunks.alloc size 0 memory
    match result with
    | none => pure ⟨chunks, w.handles⟩
    | some p => pure ⟨chunks, w.handles ++ [(p, size)]⟩
  | .realloc i size memory =>
    match w.handles[i]? with
    | none => .ok w
    | some (p, _) => do
      let (chunks, rc, p) ← w.chunks.realloc size p memory
      pure (w.store chunks i rc p size)
  | .trim i n =>
    match w.handles[i]? with
    | none => .ok w
    | some (p, len) => do
      let (chunks, p) ← w.chunks.trim p n
      pure (w.store chunks i 0 p (len - n))

/-- The runs of calls. -/
def system : System Handles HandleAction Fault where
  init w := w.handles = []
  enabled := enabled
  exec := exec

/-- Every handle is well formed. -/
def Right (w : Handles) : Prop := ∀ x ∈ w.handles, w.chunks.WellFormed x.1 x.2

/-- There is no memory for a chunk, or its size with that of the header is not one of 64 bits. -/
def Fails (_ : Handles) : HandleAction → Prop
  | .alloc size memory => memory = none ∨ 2 ^ 64 ≤ chunkHdrsize.toNat + size.toNat
  | _ => True

theorem hdrsize_add_lt_iff {size : UInt64} :
    chunkHdrsize + size < chunkHdrsize ↔ 2 ^ 64 ≤ chunkHdrsize.toNat + size.toNat := by
  have h32 : chunkHdrsize.toNat = 32 := rfl
  have hlt := size.toNat_lt
  rw [UInt64.lt_iff_toNat_lt, UInt64.toNat_add]
  omega

variable {w : Handles} {size : UInt64} {memory : Option (ℕ → UInt8)}

/-- Such a call returns and leaves the handles as they are. -/
theorem exec_alloc_fails (hf : Fails w (.alloc size memory)) :
    ∃ w', exec w (.alloc size memory) = .ok w' ∧ w'.handles = w.handles := by
  by_cases hs : chunkHdrsize + size < chunkHdrsize
  · exact ⟨_, by simp only [exec, Chunks.alloc, if_pos hs, ok_bind]; rfl, rfl⟩
  · obtain rfl := hf.resolve_right (mt hdrsize_add_lt_iff.2 hs)
    exact ⟨_, by simp only [exec, Chunks.alloc, if_neg hs]; rfl, rfl⟩

/-- Any other call of `nn_chunk_alloc` allocates a chunk. -/
theorem exec_alloc_ok (hf : ¬ Fails w (.alloc size memory)) : ∃ chunks p,
    w.chunks.alloc size 0 memory = .ok (chunks, 0, some p) ∧
      exec w (.alloc size memory) = .ok ⟨chunks, w.handles ++ [(p, size)]⟩ := by
  obtain ⟨hm, hs⟩ := not_or.1 hf
  obtain ⟨memory, rfl⟩ := Option.ne_none_iff_exists'.1 hm
  obtain ⟨_, _, _, _, -, hok⟩ :=
    Chunks.alloc_ok (h := w.chunks) (mt hdrsize_add_lt_iff.1 hs) memory
  exact ⟨_, _, hok, by simp only [exec, hok, ok_bind]; rfl⟩

/-- The runs in which every handle is well formed are those in which no chunk is
    ever allocated. -/
theorem wellFormed_iff_fails {w : Handles} (hw : w.handles = []) (as : List HandleAction) :
    system.Correct Right (fun _ _ _ => True) w as ↔ system.Meets Fails w as := by
  refine System.correct_iff_meets (I := fun w => w.handles = []) ?_ ?_ ?_ hw as
  · intro w hw x hx
    simp [hw] at hx
  · rintro w a hw he hf
    cases a with
    | alloc size memory =>
      obtain ⟨w', hx, hh⟩ := exec_alloc_fails hf
      exact ⟨w', hx, trivial, hh.trans hw⟩
    | realloc i size memory => simp [system, enabled, hw] at he
    | trim i n => simp [system, enabled, hw] at he
  · rintro w a w' hw - hx - hr
    cases a with
    | alloc size memory =>
      by_contra hf
      obtain ⟨chunks, p, ha, hx'⟩ := exec_alloc_ok hf
      obtain rfl : _ = w' := Except.ok.inj (hx'.symm.trans hx)
      obtain ⟨tag, hget, hne⟩ := Chunks.getl_alloc ha
      have hwf : chunks.WellFormed p size := hr (p, size) (by simp)
      exact absurd (Except.ok.inj (hget.symm.trans hwf.tag)) hne
    | realloc i size memory => trivial
    | trim i n => trivial

/-- No chunks. -/
def new : Handles := ⟨⟨fun _ => ⟨0, 0, [], 0⟩, 0⟩, []⟩

theorem wellFormed_iff_fails_new : system.Correct Right (fun _ _ _ => True) new
    [.alloc 1 (some fun _ => 0)] ↔ system.Meets Fails new [.alloc 1 (some fun _ => 0)] :=
  wellFormed_iff_fails rfl _

/-- It is not so that the handle of every chunk leads back to it. -/
theorem alloc_not_wellFormed : ∃ chunks p,
    new.chunks.alloc 1 0 (some fun _ => 0) = .ok (chunks, 0, some p) ∧
      chunks.getptr p = .error .assertion ∧ ¬ chunks.WellFormed p 1 := by
  refine ⟨_, _, rfl, by decide, fun h => ?_⟩
  exact absurd h.getptr (by decide)

end Handles

end Nanomsg
