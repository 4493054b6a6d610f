import Nanomsg.Utils.Realloc

/-!
# Inside the blocks

The parts of blocks that `nn_chunk_realloc` and `nn_chunk_trim` read and write: the bytes copied
or moved, and the words of the headers (`Access`). They are told as the functions get to
them, by the same tests; that the functions do no more than this is what `Stays.returns` and
`Stays.trim` say, as the model of a function has no result when it leaves a block.

What is copied to a new chunk are the bytes that the old one has, however many are asked for.
`stays_iff`: a chunk that others refer to is left when it is to have fewer bytes.
-/

namespace Nanomsg

open Function Window

/-- A part of a block that has `room` bytes after its struct, from `off` on. -/
inductive Access
  /-- `n` bytes that `memcpy` or `memmove` reads or writes. -/
  | data (room : ℕ) (off : ℤ) (n : ℕ)
  /-- A word of the header that is put before a handle. -/
  | word (room : ℕ) (off handle : ℤ)
  deriving DecidableEq

/-- The bytes copied are in the data area, which starts after the header; the words are between the
    struct and the handle. -/
def Access.Inside : Access → Prop
  | data room off n => 8 ≤ off ∧ off + n ≤ room
  | word room off handle => 0 ≤ off ∧ off + 4 ≤ handle ∧ handle ≤ room

namespace Chunks

variable (h : Chunks)

/-- The tag and the distance put before a handle. -/
def headerAccesses (room : ℕ) (handle : ℤ) : List Access :=
  [.word room (handle - 4) handle, .word room (handle - 8) handle]

/-- `nn_chunk_alloc`, which succeeds. -/
def allocAccesses (size : UInt64) : List Access :=
  let room := (chunkHdrsize + size - sizeofChunk).toNat
  [.word room 0 8, .word room 1 8]

/-- `nn_chunk_free`. -/
def freeAccesses (p : ChunkPtr) : List Access :=
  let c := h.chunk p.chunk
  if c.refcount ≤ 1 then [.word c.bytes.length (p.off - 4) p.off] else []

/-- `nn_chunk_realloc` where it moves the bytes. -/
def growAccesses (size : UInt64) (p : ChunkPtr) : List Access :=
  let c := h.chunk p.chunk
  let newPtr : ℤ := p.off - (size - c.size).toNat
  [.data c.bytes.length p.off c.size.toNat, .data c.bytes.length newPtr c.size.toNat] ++
    headerAccesses c.bytes.length newPtr

/-- `nn_chunk_realloc` where it makes a new chunk. -/
def renewAccesses (size : UInt64) (p : ChunkPtr) (memory : Option (ℕ → UInt8)) : List Access :=
  let c := h.chunk p.chunk
  if chunkHdrsize + size < chunkHdrsize ∨ memory = none then []
  else
    allocAccesses size ++
      [.data c.bytes.length 8 c.size.toNat,
        .data (chunkHdrsize + size - sizeofChunk).toNat 8 c.size.toNat] ++
      h.freeAccesses p

/-- `nn_chunk_realloc`. -/
def reallocAccesses (size : UInt64) (p : ChunkPtr) (memory : Option (ℕ → UInt8)) : List Access :=
  let c := h.chunk p.chunk
  if c.refcount = 1 then
    if size ≤ c.size then []
    else if chunkHdrsize + size < size then []
    else if (size - c.size).toNat ≤ p.off - 8 then h.growAccesses size p
    else h.renewAccesses size p memory
  else h.renewAccesses size p memory

/-- `nn_chunk_trim`. -/
def trimAccesses (p : ChunkPtr) (n : UInt64) : List Access :=
  headerAccesses (h.chunk p.chunk).bytes.length (p.off + n.toNat)

/-- `size` bytes are asked for, or `n` trimmed, of the `len` that `p` is for, and no block is left. -/
structure Stays (h : Chunks) (p : ChunkPtr) (len size n : UInt64) (memory : Option (ℕ → UInt8)) :
    Prop where
  realloc : ∀ a ∈ h.reallocAccesses size p memory, a.Inside
  returns : ∃ r, h.realloc size p memory = .ok r
  /-- A size that with what is before the bytes is too large is told, where it matters. -/
  wraps : 2 ^ 64 ≤ chunkHdrsize.toNat + size.toNat → h.reallocAccesses size p memory = [] ∧
    ((h.chunk p.chunk).refcount = 1 ∧ size ≤ len ∨
      h.realloc size p memory = .ok (h, -Errno.enomem, p))
  trim : n ≤ len → (∀ a ∈ h.trimAccesses p n, a.Inside) ∧ h.trim p n ≠ .error .wildPointer

/-- More bytes are copied than the new chunk has. -/
structure Overruns (h : Chunks) (p : ChunkPtr) (len size : UInt64) (memory : Option (ℕ → UInt8)) :
    Prop where
  shared : (h.chunk p.chunk).refcount ≠ 1
  fewer : size < len
  fits : chunkHdrsize.toNat + size.toNat < 2 ^ 64
  allocated : memory ≠ none

variable {h} {p : ChunkPtr} {len size n : UInt64} {memory : Option (ℕ → UInt8)}

/-! ### What is read and written -/

theorem headerAccesses_inside {room : ℕ} {handle : ℤ} (h8 : 8 ≤ handle) (hr : handle ≤ room) :
    ∀ a ∈ headerAccesses room handle, a.Inside := by
  simp only [headerAccesses, List.mem_cons, List.not_mem_nil, or_false, forall_eq_or_imp, forall_eq,
    Access.Inside]
  omega

/-- A new block has room for the header and the bytes. -/
theorem room_eq (hs : ¬ 2 ^ 64 ≤ chunkHdrsize.toNat + size.toNat) :
    (chunkHdrsize + size - sizeofChunk).toNat = size.toNat + 8 := by
  have h32 : chunkHdrsize.toNat = 32 := rfl
  have h24 : sizeofChunk.toNat = 24 := rfl
  have hadd : (chunkHdrsize + size).toNat = 32 + size.toNat := by
    rw [UInt64.toNat_add, h32, Nat.mod_eq_of_lt (by omega)]
  rw [UInt64.toNat_sub_of_le _ _ (UInt64.le_iff_toNat_le.2 (by omega))]
  omega

theorem allocAccesses_inside (hs : ¬ 2 ^ 64 ≤ chunkHdrsize.toNat + size.toNat) :
    ∀ a ∈ allocAccesses size, a.Inside := by
  simp only [allocAccesses, room_eq hs, List.mem_cons, List.not_mem_nil, or_false, forall_eq_or_imp,
    forall_eq, Access.Inside]
  omega

theorem freeAccesses_inside (hu : h.Usable p len) : ∀ a ∈ h.freeAccesses p, a.Inside := by
  obtain ⟨-, h8, -, -, -, hr⟩ := usable_iff.1 hu
  intro a ha
  simp only [freeAccesses] at ha
  split at ha
  · obtain rfl := List.mem_singleton.1 ha
    exact ⟨by omega, by omega, by omega⟩
  · simp at ha

theorem growAccesses_inside (hu : h.Usable p len) (hb : (size - len).toNat ≤ p.off - 8) :
    ∀ a ∈ h.growAccesses size p, a.Inside := by
  obtain ⟨-, h8, -, -, rfl, hr⟩ := usable_iff.1 hu
  intro a ha
  rcases List.mem_append.1 ha with ha | ha
  · simp only [List.mem_cons, List.not_mem_nil, or_false] at ha
    rcases ha with rfl | rfl
    · exact ⟨by omega, by omega⟩
    · exact ⟨by omega, by omega⟩
  · exact headerAccesses_inside (by omega) (by omega) a ha

/-- Of a new chunk what is copied to is inside if it has as many bytes as the old one. -/
theorem renewAccesses_inside_iff (hu : h.Usable p len) :
    (∀ a ∈ h.renewAccesses size p memory, a.Inside) ↔
      2 ^ 64 ≤ chunkHdrsize.toNat + size.toNat ∨ memory = none ∨ len ≤ size := by
  obtain ⟨-, h8, -, -, rfl, hr⟩ := usable_iff.1 hu
  simp only [renewAccesses, overflow_iff]
  by_cases hsm : 2 ^ 64 ≤ chunkHdrsize.toNat + size.toNat ∨ memory = none
  · rw [if_pos hsm]
    exact iff_of_true (fun a ha => absurd ha List.not_mem_nil) (hsm.imp_right .inl)
  obtain ⟨hs, hm⟩ := not_or.1 hsm
  rw [if_neg hsm, room_eq hs]
  simp only [hs, hm, false_or]
  constructor
  · intro ha
    obtain ⟨-, hle⟩ := ha (.data (size.toNat + 8) 8 (h.chunk p.chunk).size.toNat) (by simp)
    exact UInt64.le_iff_toNat_le.2 (by omega)
  · intro hle a ha
    have hle := UInt64.le_iff_toNat_le.1 hle
    rcases List.mem_append.1 ha with ha | ha
    · rcases List.mem_append.1 ha with ha | ha
      · exact allocAccesses_inside hs a ha
      · simp only [List.mem_cons, List.not_mem_nil, or_false] at ha
        rcases ha with rfl | rfl
        · exact ⟨by omega, by omega⟩
        · exact ⟨by omega, by omega⟩
    · exact freeAccesses_inside hu a ha

theorem trimAccesses_inside (hu : h.Usable p len) (hn : n ≤ len) :
    ∀ a ∈ h.trimAccesses p n, a.Inside := by
  obtain ⟨-, h8, -, -, rfl, hr⟩ := usable_iff.1 hu
  have hle := UInt64.le_iff_toNat_le.1 hn
  exact headerAccesses_inside (by omega) (by omega)

/-! ### What is returned -/

/-- A handle is usable as long as its chunk is as it was. -/
theorem Usable.of_chunk_eq (hu : h.Usable p len) {h' : Chunks} (hc : h'.chunk p.chunk = h.chunk p.chunk)
    (ha : h.allocs ≤ h'.allocs) : h'.Usable p len := by
  obtain ⟨hl, h8, hn, hw, hs, hr⟩ := usable_iff.1 hu
  obtain ⟨hi, hf⟩ := live_iff.1 hl
  exact usable_iff.2 ⟨live_iff.2 ⟨Nat.lt_of_lt_of_le hi ha, by rw [hc, hf]⟩, h8, hn, by rw [hc, hw],
    by rw [hc, hs], by rw [hc]; exact hr⟩

/-- A reference through a usable handle can be given up. -/
theorem Usable.free (hu : h.Usable p len) : ∃ h', h.free p = .ok h' := by
  obtain ⟨hl, h8, -, -, -, hr⟩ := usable_iff.1 hu
  obtain ⟨c, hc, hf, hlen⟩ : ∃ c : Chunk, c = { h.chunk p.chunk with
      refcount := (h.chunk p.chunk).refcount - 1 } ∧ c.freed = 0 ∧
        c.bytes.length = (h.chunk p.chunk).bytes.length := ⟨_, rfl, (live_iff.1 hl).2, rfl⟩
  have hput : (h.set p.chunk c).putl p 4 chunkTagDeallocated = _ :=
    putl_eq p (live_set hl hf) (by omega) (by rw [set_chunk_self]; omega)
  rw [Chunks.free, hu.getptr, ok_bind]
  dsimp only
  rw [← hc]
  split
  · rw [hput]
    exact ⟨_, rfl⟩
  · exact ⟨_, rfl⟩

/-- The bytes are copied to a chunk that has room for them. -/
theorem copy_returns_iff {i : ℕ} (hu : h.Usable p len) (hi : p.chunk ≠ i) (hl : h.live i = .ok ())
    (hroom : (h.chunk i).bytes.length = size.toNat + 8) :
    (∃ r, (do
      let bytes ← h.read (getdata p.chunk) (h.chunk p.chunk).size.toNat
      let h ← h.write ⟨i, 8⟩ bytes
      let h ← h.free p
      pure (h, (0 : ℤ), (⟨i, 8⟩ : ChunkPtr)) : Except Fault (Chunks × ℤ × ChunkPtr)) = .ok r) ↔
      len ≤ size := by
  obtain ⟨hlive, h8, -, -, hsize, hr⟩ := usable_iff.1 hu
  have hread : h.read (getdata p.chunk) len.toNat = .ok (window (h.chunk p.chunk).bytes 8 len.toNat) :=
    read_ok (p := getdata p.chunk) hlive (show 8 + len.toNat ≤ (h.chunk p.chunk).bytes.length by omega)
  have hw : (window (h.chunk p.chunk).bytes 8 len.toNat).length = len.toNat := length_window (by omega)
  rw [hsize, hread, ok_bind, UInt64.le_iff_toNat_le]
  constructor
  · rintro ⟨r, hx⟩
    obtain ⟨h', hwrite, -⟩ := bind_eq_ok.1 hx
    have hfits := (eq_of_write hwrite).1
    rw [hw] at hfits
    dsimp only at hfits
    omega
  · intro hle
    rw [write_ok hl (by rw [hw]; dsimp only; omega), ok_bind]
    dsimp only
    have hafter : (h.set i { h.chunk i with
        bytes := overwrite (h.chunk i).bytes 8 (window (h.chunk p.chunk).bytes 8 len.toNat) }).Usable
          p len :=
      hu.of_chunk_eq (update_of_ne hi _ _) (Nat.le_refl _)
    obtain ⟨h', hfree⟩ := hafter.free
    rw [hfree]
    exact ⟨_, rfl⟩

/-- A new chunk is made, unless what is copied does not fit into it. -/
theorem renew_returns_iff (hu : h.Usable p len) :
    (∃ r, h.renew p.chunk p size memory = .ok r) ↔
      2 ^ 64 ≤ chunkHdrsize.toNat + size.toNat ∨ memory = none ∨ len ≤ size := by
  by_cases hsm : 2 ^ 64 ≤ chunkHdrsize.toNat + size.toNat ∨ memory = none
  · exact iff_of_true ⟨_, renew_fails _ hsm⟩ (hsm.imp_right .inl)
  obtain ⟨hs, hm⟩ := not_or.1 hsm
  obtain ⟨memory, rfl⟩ := Option.ne_none_iff_exists'.1 hm
  obtain ⟨b₁, b₂, b₃, bytes, hlen, halloc⟩ := alloc_ok (h := h) (mt overflow_iff.1 hs) memory
  have hne : p.chunk ≠ h.allocs := Nat.ne_of_lt (live_iff.1 hu.live).1
  rw [renew, halloc]
  simp only [hs, reduceCtorEq, false_or]
  refine copy_returns_iff (hu.of_chunk_eq (update_of_ne hne _ _) (Nat.le_succ _)) hne
    (live_iff.2 ⟨Nat.lt_succ_self _, ?_⟩) ?_
  · exact congrArg Chunk.freed (update_self h.allocs _ h.chunk)
  · exact (congrArg (·.bytes.length) (update_self h.allocs _ h.chunk)).trans (congrArg (· + 8) hlen)

/-- Nothing outside is asked for, and what is asked for is there. -/
theorem trim_ne_wildPointer (hu : h.Usable p len) (hn : n ≤ len) : h.trim p n ≠ .error .wildPointer := by
  by_cases hnear : p.off + n.toNat - 8 < UInt32.size - 1
  · rw [trim_ok hu hn hnear]
    exact fun he => by cases he
  · rw [trim_far hu hn hnear]
    exact fun he => by cases he

/-! ### Reallocating and trimming -/

theorem not_overruns_iff : ¬ Overruns h p len size memory ↔
    (h.chunk p.chunk).refcount = 1 ∨ 2 ^ 64 ≤ chunkHdrsize.toNat + size.toNat ∨ memory = none ∨
      len ≤ size := by
  constructor
  · intro ho
    by_contra hc
    simp only [not_or] at hc
    exact ho ⟨hc.1, UInt64.not_le.1 hc.2.2.2, Nat.not_le.1 hc.2.1, hc.2.2.1⟩
  · rintro (h1 | hs | hm | hle) ho
    · exact ho.shared h1
    · exact Nat.not_le.2 ho.fits hs
    · exact ho.allocated hm
    · exact UInt64.not_le.2 ho.fewer hle

/-- No block is left, unless a chunk that others refer to is to have fewer bytes. -/
theorem stays_iff (hu : h.Usable p len) :
    Stays h p len size n memory ↔ ¬ Overruns h p len size memory := by
  obtain ⟨-, -, -, -, hs, -⟩ := usable_iff.1 hu
  have htrim : n ≤ len → (∀ a ∈ h.trimAccesses p n, a.Inside) ∧ h.trim p n ≠ .error .wildPointer :=
    fun hn => ⟨trimAccesses_inside hu hn, trim_ne_wildPointer hu hn⟩
  -- Where a new chunk is made.
  have hrenew : h.reallocAccesses size p memory = h.renewAccesses size p memory →
      h.realloc size p memory = h.renew p.chunk p size memory →
      (Stays h p len size n memory ↔
        2 ^ 64 ≤ chunkHdrsize.toNat + size.toNat ∨ memory = none ∨ len ≤ size) := by
    intro ha hx
    refine ⟨fun hst => (renewAccesses_inside_iff hu).1 (ha ▸ hst.realloc), fun hc =>
      ⟨?_, ?_, fun ho => ⟨?_, .inr ?_⟩, htrim⟩⟩
    · rw [ha]
      exact (renewAccesses_inside_iff hu).2 hc
    · rw [hx]
      exact (renew_returns_iff hu).2 hc
    · rw [ha]
      exact if_pos (.inl (overflow_iff.2 ho))
    · rw [hx]
      exact renew_fails _ (.inl ho)
  rw [not_overruns_iff]
  by_cases h1 : (h.chunk p.chunk).refcount = 1
  · refine iff_of_true ?_ (.inl h1)
    by_cases hle : size ≤ len
    · -- Less is wanted.
      have ha : h.reallocAccesses size p memory = [] := by
        simp only [reallocAccesses, if_pos h1, hs, if_pos hle]
      refine ⟨by simp [ha], ?_, fun _ => ⟨ha, .inl ⟨h1, hle⟩⟩, htrim⟩
      simp only [Chunks.realloc, hu.getptr, ok_bind, if_pos h1, hs, if_pos hle, pure_eq_ok]
      exact ⟨_, rfl⟩
    have hlt : len < size := UInt64.not_le.1 hle
    have hx := @realloc_more h p len size memory hu h1 hlt
    by_cases ho : 2 ^ 64 ≤ chunkHdrsize.toNat + size.toNat
    · -- Too much is.
      have ha : h.reallocAccesses size p memory = [] := by
        simp only [reallocAccesses, if_pos h1, hs, if_neg hle, if_pos (overflow_iff'.2 ho)]
      rw [if_pos ho] at hx
      exact ⟨by simp [ha], ⟨_, hx⟩, fun _ => ⟨ha, .inr hx⟩, htrim⟩
    rw [if_neg ho] at hx
    have hsub : (size - len).toNat = size.toNat - len.toNat :=
      UInt64.toNat_sub_of_le _ _ (UInt64.le_iff_toNat_le.2 (Nat.le_of_lt (UInt64.lt_iff_toNat_lt.1 hlt)))
    by_cases hb : (size - len).toNat ≤ p.off - 8
    · -- The bytes are moved.
      have ha : h.reallocAccesses size p memory = h.growAccesses size p := by
        simp only [reallocAccesses, if_pos h1, hs, if_neg hle, if_neg (mt overflow_iff'.1 ho), if_pos hb]
      rw [if_pos (hsub ▸ hb)] at hx
      exact ⟨ha ▸ growAccesses_inside hu hb, ⟨_, hx⟩, fun hc => absurd hc ho, htrim⟩
    · -- There is no room before them.
      have ha : h.reallocAccesses size p memory = h.renewAccesses size p memory := by
        simp only [reallocAccesses, if_pos h1, hs, if_neg hle, if_neg (mt overflow_iff'.1 ho), if_neg hb]
      rw [if_neg (hsub ▸ hb)] at hx
      exact (hrenew ha hx).2 (.inr (.inr (UInt64.le_iff_toNat_le.2
        (Nat.le_of_lt (UInt64.lt_iff_toNat_lt.1 hlt)))))
  · -- There are others that refer to the chunk.
    simp only [h1, false_or]
    refine hrenew ?_ ?_
    · simp only [reallocAccesses, if_neg h1]
    · simp only [Chunks.realloc, hu.getptr, ok_bind, if_neg h1]

theorem stays_iff_sixteen : Stays Chunkref.sixteen ⟨0, 8⟩ 16 17 8 (some fun _ => 0) ↔
    ¬ Overruns Chunkref.sixteen ⟨0, 8⟩ 16 17 (some fun _ => 0) :=
  stays_iff Chunkref.sixteen_usable

/-- Of the 16 bytes of a chunk that is referred to twice 8 are asked for: the 16 are copied into the
    new chunk, past its end. -/
theorem not_stays : (Chunkref.sixteen.addref ⟨0, 8⟩ 1).Usable ⟨0, 8⟩ 16 ∧
    ¬ Stays (Chunkref.sixteen.addref ⟨0, 8⟩ 1) ⟨0, 8⟩ 16 8 0 (some fun _ => 0) := by
  refine ⟨Chunkref.sixteen_usable.addref 1, fun hst => ?_⟩
  obtain ⟨-, hroom⟩ := hst.realloc (.data 16 8 16) (by decide)
  exact absurd hroom (by decide)

end Chunks

end Nanomsg
