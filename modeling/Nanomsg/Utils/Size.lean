import Nanomsg.Utils.Copies
import Nanomsg.Utils.Union

/-!
# The size of a chunkref

`nn_chunkref_size`, byte by byte. It should do nothing but look: return the number of bytes that
`nn_chunkref_data` leads to, and leave what is done after it as it would be without it
(`Observes`).

It assigns where the other functions compare. The tag is replaced by what is returned, which is
the size of the chunk that the bytes 8 to 15 point to, modulo 256, also where the bytes are in place.
`size_correct_iff` says which chunkrefs happen to be left alone: chunks of 255 bytes, and bytes in
place that have the handle of a chunk of that size among them, or left behind them.

As a second call returns the same (`size_size`), `nn_sinproc_send` copies as much as it has allocated,
if it gets there at all, and whatever the message.
-/

namespace Nanomsg

open Window

namespace Union

section

variable (self : Union) (h : Chunks)

/-- `nn_chunkref_size`: the chunkref after it, and what it returns. -/
def size : Except Fault (Union × UInt64) := do
  -- What is assigned to the tag is all of `0xff ? .. : ..`, of which the first is taken.
  let p ← self.getChunk
  let n ← h.size p
  let self ← self.write 0 [.byte n.toUInt8]
  pure (self, n.toUInt8.toUInt64)

/-- `nn_chunkref_size`, `k` times. -/
def sizes : Union → ℕ → Except Fault Union
  | self, 0 => .ok self
  | self, k + 1 => do
    let (self, _) ← self.size h
    sizes self k

/-- What may be done with a chunkref after it has been asked for its size. -/
inductive Use
  | mv (dst : Union)
  | trim (n : UInt64)
  | getchunk (memory : Option (ℕ → UInt8))
  | term

/-- What there is after it: the chunks, the chunkref, the one that it has been moved to and the chunk
    that has been taken out of it. -/
structure Used where
  chunks : Chunks
  self : Union
  dst : Option Union
  chunk : Option ChunkPtr

/-- Using `self`. -/
def Use.exec : Use → Except Fault Used
  | mv dst => do
    let dst ← Union.mv dst self
    pure ⟨h, self, some dst, none⟩
  | trim n => do
    let (h, self) ← self.trim h n
    pure ⟨h, self, none, none⟩
  | getchunk memory => do
    let (h, self, p) ← self.getchunk h memory
    pure ⟨h, self, none, some p⟩
  | term => do
    let h ← self.term h
    pure ⟨h, self, none, none⟩

/-! ### Chunkrefs and how long they are -/

/-- There are `n` bytes where `nn_chunkref_data` leads to, in place or in a chunk with a good handle. -/
inductive Reaches (n : UInt64) : Prop
  | inplace {b : UInt8} (tag : self.tag = .ok b) (short : b.toNat < 32) (length : n.toNat = b.toNat)
  | chunk {p : ChunkPtr} (tag : self.tag = .ok 0xff) (ptr : self.getChunk = .ok p) (usable : h.Usable p n)

end

/-- The chunkrefs of `len` bytes that the functions of `chunkref.c` make, over chunks with good
    handles. What is in a chunkref before is anything. -/
inductive Built : Chunks → Union → UInt64 → Prop
  | init {h h' : Chunks} {self self' : Union} {size : UInt64} {memory : Option (ℕ → UInt8)}
      (hx : self.init h size memory = .ok (h', self'))
      (hw : ¬ size < chunkrefMax → ∃ p, self'.getChunk = .ok p ∧ h'.Usable p size) : Built h' self' size
  | initChunk {h : Chunks} {self self' : Union} {p : ChunkPtr} {len : UInt64} (hu : h.Usable p len)
      (hx : self.initChunk p = .ok self') : Built h self' len
  | mv {h : Chunks} {dst src dst' : Union} {len : UInt64} (hs : Built h src len)
      (hx : mv dst src = .ok dst') : Built h dst' len
  | cp {h h' : Chunks} {dst src dst' : Union} {len : UInt64} (hs : Built h src len)
      (hx : cp h dst src = .ok (h', dst')) : Built h' dst' len
  | trim {h h' : Chunks} {self self' : Union} {len n : UInt64} (hs : Built h self len)
      (hx : self.trim h n = .ok (h', self')) : Built h' self' (len - n)

variable {h h' : Chunks} {self self' sphdr body : Union} {p : ChunkPtr} {m n : UInt64}

/-- The first byte written is the tag. -/
theorem tag_write {b : UInt8} {vals : List Memval} (hx : self.write 0 (.byte b :: vals) = .ok self') :
    self'.tag = .ok b := by
  unfold write at hx
  split at hx
  · rw [← Except.ok.inj hx, tag_eq_ok_iff]
    rfl
  · cases hx

theorem getChunk_eq_ok_iff : self.getChunk = .ok p ↔ window self.cells offsetofChunk 8 = pointer p := by
  refine ⟨fun hg => ?_, getChunk_ok⟩
  unfold getChunk at hg
  split at hg
  · split at hg
    · next hw => rwa [← Except.ok.inj hg]
    · cases hg
  · cases hg

/-- The bytes of a chunk are those of a chunkref that has its handle. -/
theorem holds_chunk_iff : self.Holds (.chunk p) ↔ self.tag = .ok 0xff ∧ self.getChunk = .ok p :=
  and_congr tag_eq_ok_iff.symm getChunk_eq_ok_iff.symm

theorem Holds.reaches (hc : self.Holds (.chunk p)) (hu : h.Usable p n) : Reaches self h n :=
  .chunk (holds_chunk_iff.1 hc).1 (holds_chunk_iff.1 hc).2 hu

/-- What is read from the first byte on starts with the tag. -/
theorem read_tag {b : UInt8} {k : ℕ} {vals : List Memval} (ht : self.tag = .ok b)
    (hx : self.read 0 (k + 1) = .ok vals) : ∃ vals', vals = .byte b :: vals' := by
  unfold read at hx
  split at hx
  · rw [← Except.ok.inj hx]
    unfold tag at ht
    split at ht
    · next b' vals' hc =>
      rw [hc, Except.ok.inj ht]
      exact ⟨_, rfl⟩
    · cases ht
  · cases hx

/-- Bytes in place are copied with their tag. -/
theorem tag_copy {dst : Union} {b : UInt8} {k : ℕ} {vals : List Memval} (ht : self.tag = .ok b)
    (hr : self.read 0 (k + 1) = .ok vals) (hx : dst.write 0 vals = .ok self') : self'.tag = .ok b := by
  obtain ⟨vals', rfl⟩ := read_tag ht hr
  exact tag_write hx

/-- A tag of bytes in place is not that of a chunk. -/
theorem ne_of_short {b : UInt8} (hb : b.toNat < 32) : b ≠ 0xff := fun he => absurd (he ▸ hb) (by decide)

theorem init_reaches {memory : Option (ℕ → UInt8)} (hx : self.init h n memory = .ok (h', self'))
    (hw : ¬ n < chunkrefMax → ∃ p, self'.getChunk = .ok p ∧ h'.Usable p n) : Reaches self' h' n := by
  unfold init at hx
  split at hx
  · next hs =>
    obtain ⟨u, hu, hx⟩ := bind_eq_ok.1 hx
    simp only [pure_eq_ok, Except.ok.injEq, Prod.mk.injEq] at hx
    obtain ⟨rfl, rfl⟩ := hx
    have hlt : n.toNat < 32 := UInt64.lt_iff_toNat_lt.1 hs
    have hnat : n.toUInt8.toNat = n.toNat := by
      rw [UInt64.toNat_toUInt8]
      omega
    exact .inplace (tag_write hu) (by omega) hnat.symm
  · next hs =>
    obtain ⟨u, hu, hx⟩ := bind_eq_ok.1 hx
    obtain ⟨r, -, hx⟩ := bind_eq_ok.1 hx
    obtain ⟨⟨g, q⟩, -, hx⟩ := bind_eq_ok.1 hx
    obtain ⟨v, hv, hx⟩ := bind_eq_ok.1 hx
    simp only [pure_eq_ok, Except.ok.injEq, Prod.mk.injEq] at hx
    obtain ⟨rfl, rfl⟩ := hx
    obtain ⟨p, hp, huse⟩ := hw hs
    -- The two writes are those of `nn_chunkref_init_chunk`.
    obtain ⟨w, hw', hhold⟩ := initChunk_holds self q
    simp only [initChunk, hu, ok_bind, hv, Except.ok.injEq] at hw'
    obtain rfl := hw'
    exact .chunk (holds_chunk_iff.1 hhold).1 hp huse

theorem initChunk_reaches (hu : h.Usable p n) (hx : self.initChunk p = .ok self') : Reaches self' h n := by
  obtain ⟨u, hu', hhold⟩ := initChunk_holds self p
  obtain rfl := Except.ok.inj (hu'.symm.trans hx)
  exact hhold.reaches hu

theorem mv_reaches {dst : Union} (hr : Reaches self h n) (hx : mv dst self = .ok self') :
    Reaches self' h n := by
  cases hr with
  | inplace tag short length =>
    simp only [mv, tag, ok_bind, if_neg (ne_of_short short), bind_eq_ok] at hx
    obtain ⟨vals, hv, hx⟩ := hx
    exact .inplace (tag_copy tag hv hx) short length
  | chunk tag ptr usable =>
    obtain ⟨u, hu, hhold⟩ := mv_holds dst (holds_chunk_iff.2 ⟨tag, ptr⟩)
    obtain rfl := Except.ok.inj (hu.symm.trans hx)
    exact Holds.reaches hhold usable

theorem cp_reaches {dst : Union} (hr : Reaches self h n) (hx : cp h dst self = .ok (h', self')) :
    Reaches self' h' n := by
  cases hr with
  | inplace tag short length =>
    simp only [cp, tag, ok_bind, if_neg (ne_of_short short), bind_eq_ok, pure_eq_ok, Except.ok.injEq,
      Prod.mk.injEq] at hx
    obtain ⟨vals, hv, u, hu, -, rfl⟩ := hx
    exact .inplace (tag_copy tag hv hu) short length
  | chunk tag ptr usable =>
    obtain ⟨u, hu, hhold⟩ := cp_holds (h := h) dst (holds_chunk_iff.2 ⟨tag, ptr⟩)
    obtain ⟨rfl, rfl⟩ := Prod.mk.inj (Except.ok.inj (hu.symm.trans hx))
    exact Holds.reaches hhold (usable.addref 1)

theorem trim_reaches (hr : Reaches self h n) (hx : self.trim h m = .ok (h', self')) :
    Reaches self' h' (n - m) := by
  cases hr with
  | @inplace b tag short length =>
    simp only [trim, tag, ok_bind, if_neg (ne_of_short short), bind_eq_ok, pure_eq_ok, Except.ok.injEq,
      Prod.mk.injEq] at hx
    obtain ⟨⟨⟩, hm, vals, -, u, -, v, hv, -, rfl⟩ := hx
    have hle : m.toNat ≤ b.toNat := by
      by_contra hgt
      simp [hgt] at hm
    have hbyte : m.toUInt8.toNat = m.toNat := by
      rw [UInt64.toNat_toUInt8]
      omega
    -- The tag is counted down by what is trimmed.
    have hsub : (b - m.toUInt8).toNat = b.toNat - m.toNat := by
      rw [UInt8.toNat_sub_of_le _ _ (UInt8.le_iff_toNat_le.2 (by omega)), hbyte]
    refine .inplace (tag_write hv) (by omega) ?_
    rw [UInt64.toNat_sub_of_le _ _ (UInt64.le_iff_toNat_le.2 (by omega)), hsub, length]
  | @chunk p tag ptr usable =>
    simp only [trim, tag, ok_bind, if_true, ptr, bind_eq_ok, Prod.exists, pure_eq_ok,
      Except.ok.injEq, Prod.mk.injEq] at hx
    obtain ⟨g, q, hg, u, hu, rfl, rfl⟩ := hx
    obtain ⟨v, hv, hhold⟩ := setChunk_holds (holds_chunk_iff.2 ⟨tag, ptr⟩) q
    obtain rfl := Except.ok.inj (hv.symm.trans hu)
    have hm : m ≤ n := by
      obtain ⟨-, -, -, -, rfl, -⟩ := Chunks.usable_iff.1 usable
      exact (Chunks.size_of_trim hg).2.1
    by_cases hnear : p.off + m.toNat - 8 < UInt32.size - 1
    · obtain ⟨rfl, rfl⟩ := Prod.mk.inj (Except.ok.inj ((Chunks.trim_ok usable hm hnear).symm.trans hg))
      exact hhold.reaches (usable.trim hm hnear)
    · rw [Chunks.trim_far usable hm hnear] at hg
      cases hg

/-- What has been built over good handles has as many bytes as it should have. -/
theorem Built.reaches (hb : Built h self n) : Reaches self h n := by
  induction hb with
  | init hx hw => exact init_reaches hx hw
  | initChunk hu hx => exact initChunk_reaches hu hx
  | mv _ hx ih => exact mv_reaches ih hx
  | cp _ hx ih => exact cp_reaches ih hx
  | trim _ hx ih => exact trim_reaches ih hx

/-! ### What a call does -/

/-- The bytes 8 to 15 are a handle that leads to a chunk of `n` bytes. -/
def Answers (self : Union) (h : Chunks) (n : UInt64) : Prop :=
  ∃ p, self.getChunk = .ok p ∧ h.size p = .ok n

theorem eq_of_cells {u v : Union} (hc : u.cells = v.cells) : u = v := by
  cases u
  cases v
  subst hc
  rfl

/-- What a call does, whatever the tag. -/
theorem size_eq_ok_iff : self.size h = .ok (self', m) ↔ ∃ k, Answers self h k ∧
    m = k.toUInt8.toUInt64 ∧ self'.cells = overwrite self.cells 0 [.byte k.toUInt8] := by
  simp only [size, bind_eq_ok, pure_eq_ok, Except.ok.injEq, Prod.mk.injEq]
  constructor
  · rintro ⟨p, hp, k, hk, u, hu, rfl, rfl⟩
    obtain ⟨v, hv, hcv⟩ := write_ok self 0 [.byte k.toUInt8] (Nat.le_add_left 1 31)
    obtain rfl := Except.ok.inj (hv.symm.trans hu)
    exact ⟨k, ⟨p, hp, hk⟩, rfl, hcv⟩
  · rintro ⟨k, ⟨p, hp, hk⟩, rfl, hc⟩
    obtain ⟨v, hv, hcv⟩ := write_ok self 0 [.byte k.toUInt8] (Nat.le_add_left 1 31)
    exact ⟨p, hp, k, hk, v, hv, eq_of_cells (hcv.trans hc.symm), rfl⟩

/-- It has another tag then, and the same pointer. -/
theorem tag_size {b : UInt8} (hc : self'.cells = overwrite self.cells 0 [.byte b]) :
    self'.tag = .ok b ∧ ∀ k, Answers self h k → Answers self' h k := by
  refine ⟨tag_eq_ok_iff.2 ?_, fun k ⟨p, hp, hk⟩ => ⟨p, getChunk_eq_ok_iff.2 ?_, hk⟩⟩
  · rw [hc]
    exact window_overwrite (by rw [self.length]; exact Nat.le_add_left 1 31)
  · rw [hc, window_overwrite_of_disjoint (by rw [self.length]; exact Nat.le_add_left 1 31)
      (.inr (Nat.le_add_left 1 7))]
    exact getChunk_eq_ok_iff.1 hp

/-- To put the tag there that is there changes nothing. -/
theorem overwrite_tag {b : UInt8} (ht : self.tag = .ok b) :
    overwrite self.cells 0 [.byte b] = self.cells := by
  have hw := tag_eq_ok_iff.1 ht
  rw [← hw]
  exact overwrite_window (by rw [self.length]; exact Nat.le_add_left 1 31)

/-- A call returns exactly if there is a chunk to ask. -/
theorem size_returns_iff : (∃ self' m, self.size h = .ok (self', m)) ↔ ∃ k, Answers self h k := by
  constructor
  · rintro ⟨self', m, hx⟩
    obtain ⟨k, hk, -, -⟩ := size_eq_ok_iff.1 hx
    exact ⟨k, hk⟩
  · rintro ⟨k, hk⟩
    obtain ⟨u, -, hcu⟩ := write_ok self 0 [.byte k.toUInt8] (Nat.le_add_left 1 31)
    exact ⟨u, _, size_eq_ok_iff.2 ⟨k, hk, rfl, hcu⟩⟩

/-- A second call does nothing, and returns what the first one did. -/
theorem size_size (hx : self.size h = .ok (self', m)) : self'.size h = .ok (self', m) := by
  obtain ⟨k, hk, hm, hc⟩ := size_eq_ok_iff.1 hx
  obtain ⟨ht, hans⟩ := tag_size hc
  exact size_eq_ok_iff.2 ⟨k, hans k hk, hm, (overwrite_tag ht).symm⟩

/-! ### Observing -/

/-- A call of `nn_chunkref_size` returns how many bytes there are and changes none of the
    chunkref, and any number of calls make no difference to what is done with it. -/
structure Observes (u : Union) (h : Chunks) (n : UInt64) : Prop where
  size : u.size h = .ok (u, n)
  later : ∀ k (use : Use), (sizes h u k >>= fun u => use.exec u h) = use.exec u h

/-- The tag and the bytes 8 to 15 are such that nothing happens: the chunk has as many bytes as its tag
    says, or there is one to ask for bytes in place, the size of which is theirs modulo 256. -/
def Coincides (self : Union) (h : Chunks) (n : UInt64) : Prop :=
  self.tag = .ok 0xff ∧ n = 255 ∨
    self.tag ≠ .ok 0xff ∧ ∃ k, Answers self h k ∧ k.toNat % 256 = n.toNat

theorem sizes_eq (hx : self.size h = .ok (self, n)) (k : ℕ) : sizes h self k = .ok self := by
  induction k with
  | zero => rfl
  | succ k ih => simp only [sizes, hx, ok_bind, ih]

theorem toNat_toUInt8_toUInt64 (k : UInt64) : k.toUInt8.toUInt64.toNat = k.toNat % 256 := by
  rw [UInt8.toNat_toUInt64, UInt64.toNat_toUInt8]

/-- Nothing happens in a call exactly where the bytes are such. -/
theorem size_eq_iff (hr : Reaches self h n) : self.size h = .ok (self, n) ↔ Coincides self h n := by
  rw [size_eq_ok_iff]
  cases hr with
  | @inplace b tag short length =>
    have htag : self.tag ≠ .ok 0xff := fun he =>
      ne_of_short short (Except.ok.inj (tag.symm.trans he))
    constructor
    · rintro ⟨k, hk, rfl, -⟩
      exact .inr ⟨htag, k, hk, (toNat_toUInt8_toUInt64 k).symm⟩
    · rintro (⟨he, -⟩ | ⟨-, k, hk, hmod⟩)
      · exact absurd he htag
      · -- What is put there is the number of the bytes in place, which was there.
        have hb : k.toUInt8 = b := UInt8.toNat_inj.1 (by rw [UInt64.toNat_toUInt8]; omega)
        refine ⟨k, hk, UInt64.toNat_inj.1 (by rw [toNat_toUInt8_toUInt64, hmod]), ?_⟩
        rw [hb, overwrite_tag tag]
  | chunk tag ptr usable =>
    constructor
    · rintro ⟨k, ⟨q, hq, hk⟩, hm, hc⟩
      obtain rfl := Except.ok.inj (ptr.symm.trans hq)
      obtain rfl := Except.ok.inj (usable.size.symm.trans hk)
      -- The tag is what it has been.
      have h255 : n.toUInt8 = 0xff := Except.ok.inj ((tag_size (h := h) hc).1.symm.trans tag)
      exact .inl ⟨tag, by rw [hm, h255]; rfl⟩
    · rintro (⟨-, rfl⟩ | ⟨hne, -⟩)
      · exact ⟨255, ⟨_, ptr, usable.size⟩, rfl, (overwrite_tag tag).symm⟩
      · exact absurd tag hne

theorem observes_iff (hr : Reaches self h n) : Observes self h n ↔ Coincides self h n := by
  rw [← size_eq_iff hr]
  refine ⟨Observes.size, fun hx => ⟨hx, fun k use => ?_⟩⟩
  rw [sizes_eq hx, ok_bind]

/-! ### Sending -/

/-- How long things are in `nn_sinproc_send`. -/
structure Lengths where
  /-- What `nn_msg_init` is asked for. -/
  allocated : UInt64
  /-- What the first `memcpy` copies. -/
  sphdr : UInt64
  /-- Where the second one starts, and what it copies. -/
  start : UInt64
  body : UInt64

/-- `nn_chunkref_size(&msg->sphdr) + nn_chunkref_size(&msg->body)`, which `nn_msgqueue_send`
    asks for as well. -/
def msgsz (h : Chunks) (sphdr body : Union) : Except Fault (Union × Union × UInt64) := do
  let (sphdr, m) ← sphdr.size h
  let (body, n) ← body.size h
  pure (sphdr, body, m + n)

/-- The calls of `nn_chunkref_size` in `nn_sinproc_send`. The new message that is made and copied to
    between them is apart from what they ask. -/
def lengths (h : Chunks) (sphdr body : Union) : Except Fault Lengths := do
  let (sphdr, body, allocated) ← msgsz h sphdr body
  let (sphdr, m) ← sphdr.size h
  let (_, start) ← sphdr.size h
  let (_, n) ← body.size h
  pure ⟨allocated, m, start, n⟩

/-- `nn_sinproc_send` allocates what it copies, and copies one part behind the other. -/
def Sends (h : Chunks) (sphdr body : Union) : Prop :=
  ∃ l, lengths h sphdr body = .ok l ∧ l.allocated = l.sphdr + l.body ∧ l.start = l.sphdr

/-- It does exactly if it gets there. -/
theorem sends_iff : Sends h sphdr body ↔ (∃ k, Answers sphdr h k) ∧ ∃ k, Answers body h k := by
  rw [← size_returns_iff, ← size_returns_iff]
  constructor
  · rintro ⟨l, hl, -⟩
    simp only [lengths, msgsz, bind_eq_ok, Prod.exists] at hl
    obtain ⟨-, -, -, ⟨s, m, hs, b, n, hb, -⟩, -⟩ := hl
    exact ⟨⟨s, m, hs⟩, b, n, hb⟩
  · rintro ⟨⟨s, m, hs⟩, b, n, hb⟩
    refine ⟨⟨m + n, m, m, n⟩, ?_, rfl, rfl⟩
    simp only [lengths, msgsz, hs, hb, size_size hs, size_size hb, ok_bind, pure_eq_ok]

/-- When `nn_chunkref_size` only looks, for the parts of any message, and when the message is sent
    as it should be. -/
theorem size_correct_iff (hs : Reaches sphdr h m) (hb : Reaches body h n) :
    (Observes sphdr h m ↔ Coincides sphdr h m) ∧ (Observes body h n ↔ Coincides body h n) ∧
      (Sends h sphdr body ↔ (∃ k, Answers sphdr h k) ∧ ∃ k, Answers body h k) :=
  ⟨observes_iff hs, observes_iff hb, sends_iff⟩

/-! ### Bytes in place, and a chunk of 16 bytes -/

/-- `n` bytes in place, which are 0 as all the others. -/
def zeros (n : UInt8) : Union := ⟨.byte n :: List.replicate 31 (.byte 0), rfl⟩

/-- A chunkref that has the chunk of 16 bytes. -/
def ofSixteen : Union :=
  ⟨.byte 0xff :: List.replicate 7 (.byte 0) ++ pointer ⟨0, 8⟩ ++ List.replicate 16 (.byte 0), rfl⟩

theorem zeros_built : Built Chunkref.sixteen (zeros 5) 5 :=
  @Built.init Chunkref.sixteen _ (zeros 0) _ 5 none rfl fun hs => absurd (by decide) hs

theorem ofSixteen_built : Built Chunkref.sixteen ofSixteen 16 :=
  @Built.initChunk _ (zeros 0) _ ⟨0, 8⟩ _ Chunkref.sixteen_usable rfl

theorem size_correct_iff_sixteen :
    (Observes (zeros 5) Chunkref.sixteen 5 ↔ Coincides (zeros 5) Chunkref.sixteen 5) ∧
      (Observes ofSixteen Chunkref.sixteen 16 ↔ Coincides ofSixteen Chunkref.sixteen 16) ∧
      (Sends Chunkref.sixteen (zeros 5) ofSixteen ↔
        (∃ k, Answers (zeros 5) Chunkref.sixteen k) ∧ ∃ k, Answers ofSixteen Chunkref.sixteen k) :=
  size_correct_iff zeros_built.reaches ofSixteen_built.reaches

/-- It is not so that `nn_chunkref_size` only looks: the chunk of 16 bytes is not freed when the chunkref
    is terminated after a call, but is without one, and 5 bytes in place cannot be asked for at all. -/
theorem size_not_observes :
    Built Chunkref.sixteen ofSixteen 16 ∧ ¬ Observes ofSixteen Chunkref.sixteen 16 ∧
      (∃ self, ofSixteen.size Chunkref.sixteen = .ok (self, 16) ∧
        self.term Chunkref.sixteen = .ok Chunkref.sixteen) ∧
      (∃ h, ofSixteen.term Chunkref.sixteen = .ok h ∧ (h.chunk 0).freed = 1) ∧
    Built Chunkref.sixteen (zeros 5) 5 ∧
      (zeros 5).size Chunkref.sixteen = .error .wildPointer ∧
      ¬ Sends Chunkref.sixteen (zeros 5) ofSixteen := by
  refine ⟨ofSixteen_built, fun ho => ?_, ⟨_, rfl, rfl⟩, ⟨_, rfl, by decide⟩, zeros_built, rfl,
    fun ⟨l, hl, _⟩ => ?_⟩
  · rcases (size_eq_iff ofSixteen_built.reaches).1 ho.size with ⟨-, hn⟩ | ⟨hn, -⟩
    · exact absurd hn (by decide)
    · exact hn rfl
  · have hfails : lengths Chunkref.sixteen (zeros 5) ofSixteen = .error .wildPointer := rfl
    rw [hfails] at hl
    cases hl

end Union

end Nanomsg
