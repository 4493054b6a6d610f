import Nanomsg.Utils.Copies

/-!
# Reallocating

What `nn_chunk_realloc` does to a chunk with a usable handle. It has three ways:

* where the caller alone refers to the chunk and less is wanted, the size is made smaller;
* where there is room before the bytes, they are moved there (`grow`). The old handle is stored,
  not the one of the bytes moved;
* else the bytes are copied to a new chunk (`renew`), whose handle does not lead back to it.

`realloc_preserves_iff` says when the bytes are preserved: in the first case, when nothing
can be allocated, and when moving the bytes happens to leave those of the old handle as
they are.
-/

namespace Nanomsg

open Function Window

namespace Chunks

variable {h h' : Chunks} {p p' : ChunkPtr} {len size : UInt64} {memory : Option (ℕ → UInt8)}

/-! ### What should hold -/

/-- After a success `p'` is a handle of `size` bytes, the first of which are those of
    `p`. The others that refer to the chunk still do, and see the same; where there are none
    and the chunk is used on, its counter is still 1. -/
structure Succeeded (h : Chunks) (p : ChunkPtr) (len size : UInt64) (h' : Chunks) (p' : ChunkPtr) :
    Prop where
  usable : h'.Usable p' size
  bytes : h'.read p' (min len.toNat size.toNat) = h.read p (min len.toNat size.toNat)
  others : 1 < (h.chunk p.chunk).refcount →
    h'.chunk p.chunk = { h.chunk p.chunk with refcount := (h.chunk p.chunk).refcount - 1 }
  alone : (h.chunk p.chunk).refcount = 1 → p'.chunk = p.chunk → (h'.chunk p.chunk).refcount = 1

/-- What is returned tells of a success, or of an error after which nothing is changed. -/
def Outcome (h : Chunks) (p : ChunkPtr) (len size : UInt64) (x : Except Fault (Chunks × ℤ × ChunkPtr)) :
    Prop :=
  ∃ h' rc p', x = .ok (h', rc, p') ∧
    (rc = 0 → Succeeded h p len size h' p') ∧ (rc ≠ 0 → h' = h ∧ p' = p)

/-- `nn_chunk_realloc` returns, and has either succeeded or changed nothing. -/
def Preserves (h : Chunks) (p : ChunkPtr) (len size : UInt64) (memory : Option (ℕ → UInt8)) : Prop :=
  Outcome h p len size (h.realloc size p memory)

/-- When `len` bytes of `xs` from `off` on are moved to `back` before, and a header is put before
    them, every byte of the handle at `off` and of its header gets the value that it has. -/
def Undisturbed (xs : List UInt8) (off len back : ℕ) : Prop :=
  ∀ i, off - 8 ≤ i → i < off + len →
    (off - back ≤ i → i < off - back + len → xs[i + back]? = xs[i]?) ∧
    (off - back - 8 ≤ i → i < off - back → (header (off - back - 8))[i - (off - back - 8)]? = xs[i]?)

/-- When reallocating `size` bytes preserves those of `p`. -/
def Harmless (h : Chunks) (p : ChunkPtr) (len size : UInt64) (memory : Option (ℕ → UInt8)) : Prop :=
  let c := h.chunk p.chunk
  let back := size.toNat - len.toNat
  -- No more is wanted.
  c.refcount = 1 ∧ size ≤ len ∨
  -- Nothing can be allocated.
  2 ^ 64 ≤ chunkHdrsize.toNat + size.toNat ∨
  ¬ (c.refcount = 1 ∧ back ≤ p.off - 8) ∧ memory = none ∨
  -- The bytes are moved, which does not matter to the handle; and there is room.
  c.refcount = 1 ∧ back ≤ p.off - 8 ∧ Undisturbed c.bytes p.off len.toNat back ∧
    p.off + size.toNat ≤ c.bytes.length

theorem outcome_ok {p' : ChunkPtr} :
    Outcome h p len size (.ok (h', 0, p')) ↔ Succeeded h p len size h' p' := by
  constructor
  · rintro ⟨_, _, _, hx, hsucc, -⟩
    simp only [Except.ok.injEq, Prod.mk.injEq] at hx
    obtain ⟨rfl, rfl, rfl⟩ := hx
    exact hsucc rfl
  · exact fun hs => ⟨_, _, _, rfl, fun _ => hs, fun h0 => absurd rfl h0⟩

theorem outcome_enomem : Outcome h p len size (.ok (h, -Errno.enomem, p)) :=
  ⟨_, _, _, rfl, fun h0 => absurd h0 (by decide), fun _ => ⟨rfl, rfl⟩⟩

/-! ### Moving the bytes -/

/-- The bytes from `off` on moved to `back` before, and a header put there. -/
def moved (xs : List UInt8) (off len back : ℕ) : List UInt8 :=
  overwrite (overwrite xs (off - back) (window xs off len)) (off - back - 8) (header (off - back - 8))

theorem length_moved {xs : List UInt8} {off n back : ℕ} (h8 : 8 ≤ off)
    (hr : off + n ≤ xs.length) : (moved xs off n back).length = xs.length := by
  have hw := length_window hr
  have ho : (overwrite xs (off - back) (window xs off n)).length = xs.length :=
    length_overwrite (by omega)
  rw [moved, length_overwrite (by rw [length_header]; omega), ho]

theorem getElem?_moved {xs : List UInt8} {off n back : ℕ} (hb : back ≤ off - 8) (h8 : 8 ≤ off)
    (hr : off + n ≤ xs.length) (i : ℕ) : (moved xs off n back)[i]? =
      if off - back - 8 ≤ i ∧ i < off - back then (header (off - back - 8))[i - (off - back - 8)]?
      else if off - back ≤ i ∧ i < off - back + n then xs[i + back]? else xs[i]? := by
  have hw := length_window hr
  have ho : (overwrite xs (off - back) (window xs off n)).length = xs.length :=
    length_overwrite (by omega)
  rw [moved, getElem?_overwrite (by rw [length_header]; omega), length_header,
    getElem?_overwrite (by omega), hw, show off - back - 8 + 8 = off - back by omega]
  split
  · rfl
  · split
    · rw [getElem?_window, if_pos (by omega)]
      congr 1
      omega
    · rfl

/-- The header and the bytes of the handle at `off` are as they were exactly if they are
    not disturbed. -/
theorem undisturbed_iff {xs : List UInt8} {off n back : ℕ} (hb : back ≤ off - 8) (h8 : 8 ≤ off)
    (hr : off + n ≤ xs.length) : Undisturbed xs off n back ↔
      window (moved xs off n back) (off - 8) (8 + n) = window xs (off - 8) (8 + n) := by
  constructor
  · intro hu
    ext1 i
    rw [getElem?_window, getElem?_window]
    split
    · next hi =>
      obtain ⟨hbytes, hheader⟩ := hu (off - 8 + i) (by omega) (by omega)
      rw [getElem?_moved hb h8 hr]
      split
      · next hh => exact hheader hh.1 hh.2
      · split
        · next hh => exact hbytes hh.1 hh.2
        · rfl
    · rfl
  · intro hw i hlo hhi
    have hi := congrArg (·[i - (off - 8)]?) hw
    simp only [getElem?_window] at hi
    rw [if_pos (by omega), if_pos (by omega), show off - 8 + (i - (off - 8)) = i by omega,
      getElem?_moved hb h8 hr] at hi
    refine ⟨fun hlo' hhi' => ?_, fun hlo' hhi' => ?_⟩
    · rwa [if_neg (by omega), if_pos ⟨hlo', hhi'⟩] at hi
    · rwa [if_pos ⟨hlo', hhi'⟩] at hi

/-- The chunk of `p` after the bytes have been moved. -/
def grown (h : Chunks) (p : ChunkPtr) (len size : UInt64) : Chunks :=
  h.set p.chunk { h.chunk p.chunk with
    bytes := moved (h.chunk p.chunk).bytes p.off len.toNat (size.toNat - len.toNat)
    size := size }

theorem grow_ok (hu : h.Usable p len) (hs : len < size) (hb : size.toNat - len.toNat ≤ p.off - 8) :
    h.grow p.chunk p size = .ok (h.grown p len size, 0, p) := by
  obtain ⟨hl, h8, -, -, rfl, hr⟩ := usable_iff.1 hu
  have hlt := UInt64.lt_iff_toNat_lt.1 hs
  have hsub : (size - (h.chunk p.chunk).size).toNat = size.toNat - (h.chunk p.chunk).size.toNat :=
    UInt64.toNat_sub_of_le _ _ (UInt64.le_iff_toNat_le.2 (Nat.le_of_lt hlt))
  have hw := length_window hr
  generalize hback : size.toNat - (h.chunk p.chunk).size.toNat = back at hsub hb
  have hf := (live_iff.1 hl).2
  -- What is put into the chunk, whatever it is then.
  have hput : ∀ (c : Chunk) (back' : ℕ) (val : UInt32), c.freed = 0 → back' ≤ 8 → 4 ≤ back' →
      c.bytes.length = (h.chunk p.chunk).bytes.length →
      (h.set p.chunk c).putl ⟨p.chunk, p.off - back⟩ back' val = .ok (h.set p.chunk
        { c with bytes := overwrite c.bytes (p.off - back - back') (Nanomsg.putl val) }) := by
    intro c back' val hc h8' h4' hlen
    have : (h.set p.chunk c).putl ⟨p.chunk, p.off - back⟩ back' val = _ :=
      putl_eq _ (live_set hl hc) (by dsimp only; omega)
        (by rw [set_chunk_self, hlen]; dsimp only; omega)
    rwa [set_chunk_self, set_set] at this
  have hmove : h.write ⟨p.chunk, p.off - back⟩ (window (h.chunk p.chunk).bytes p.off
      (h.chunk p.chunk).size.toNat) = _ := write_ok hl (by rw [hw]; dsimp only; omega)
  have hlen : (overwrite (h.chunk p.chunk).bytes (p.off - back) (window (h.chunk p.chunk).bytes p.off
      (h.chunk p.chunk).size.toNat)).length = _ := length_overwrite (by rw [hw]; omega)
  rw [grow, hsub, hu.read]
  simp only [ok_bind, hmove, set_chunk_self, set_set]
  rw [hput { h.chunk p.chunk with bytes := overwrite _ _ _, size := size } 4 _ hf (by decide) le_rfl hlen,
    ok_bind, hput { h.chunk p.chunk with bytes := overwrite _ _ _, size := size } 8 _ hf le_rfl
      (by decide) ((length_overwrite (by rw [length_putl, hlen]; omega)).trans hlen)]
  -- The tag and the distance are one after the other.
  have hover := overwrite_overwrite (overwrite (h.chunk p.chunk).bytes (p.off - back)
    (window (h.chunk p.chunk).bytes p.off (h.chunk p.chunk).size.toNat))
    (Nanomsg.putl (UInt32.ofNat (p.off - back - 8))) (Nanomsg.putl chunkTag) (p.off - back - 8)
    (by rw [length_putl, length_putl, hlen]; omega)
  rw [length_putl, show p.off - back - 8 + 4 = p.off - back - 4 by omega] at hover
  simp only [ok_bind, pure_eq_ok, hover, grown, moved, header, hback]

/-- The old handle is right after the bytes have been moved exactly if they are not disturbed. -/
theorem grown_succeeded_iff (hu : h.Usable p len) (hr : (h.chunk p.chunk).refcount = 1)
    (hs : len < size) (hb : size.toNat - len.toNat ≤ p.off - 8) :
    Succeeded h p len size (h.grown p len size) p ↔
      Undisturbed (h.chunk p.chunk).bytes p.off len.toNat (size.toNat - len.toNat) ∧
        p.off + size.toNat ≤ (h.chunk p.chunk).bytes.length := by
  obtain ⟨hl, h8, hn, hw, -, hroom⟩ := usable_iff.1 hu
  have hlt := UInt64.lt_iff_toNat_lt.1 hs
  have hlen : (moved (h.chunk p.chunk).bytes p.off len.toNat (size.toNat - len.toNat)).length = _ :=
    length_moved h8 hroom
  have hlive : (h.grown p len size).live p.chunk = .ok () := live_set hl (live_iff.1 hl).2
  have hbytes : ((h.grown p len size).chunk p.chunk).bytes =
      moved (h.chunk p.chunk).bytes p.off len.toNat (size.toNat - len.toNat) := by
    rw [grown, set_chunk_self]
  have hread : (h.grown p len size).read p len.toNat = .ok (window
      (moved (h.chunk p.chunk).bytes p.off len.toNat (size.toNat - len.toNat)) p.off len.toNat) := by
    rw [read_ok hlive (by rwa [hbytes, hlen]), hbytes]
  rw [undisturbed_iff hb h8 hroom]
  generalize moved (h.chunk p.chunk).bytes p.off len.toNat (size.toNat - len.toNat) = ys at *
  -- The header and the bytes are one after the other.
  have happ : ∀ xs : List UInt8, window xs (p.off - 8) (8 + len.toNat) =
      window xs (p.off - 8) 8 ++ window xs p.off len.toNat := by
    intro xs
    rw [window, window, window, List.take_add, List.drop_drop, Nat.sub_add_cancel h8]
  have hmin : min len.toNat size.toNat = len.toNat := Nat.min_eq_left (Nat.le_of_lt hlt)
  constructor
  · rintro ⟨husable, hsame, -, -⟩
    obtain ⟨-, -, -, hw', -, hroom'⟩ := usable_iff.1 husable
    rw [hbytes] at hw' hroom'
    rw [hmin, hread, hu.read, Except.ok.injEq] at hsame
    exact ⟨by rw [happ, happ, hw, hw', hsame], by rwa [← hlen]⟩
  · rintro ⟨hwin, hroom'⟩
    rw [happ, happ] at hwin
    obtain ⟨hheader, hsame⟩ := List.append_inj hwin
      ((length_window (by omega)).trans (length_window (by omega)).symm)
    refine ⟨usable_iff.2 ⟨hlive, h8, hn, ?_, ?_, ?_⟩, ?_, fun h1 => ?_, fun _ _ => ?_⟩
    · rw [hbytes, hheader, hw]
    · rw [grown, set_chunk_self]
    · rwa [hbytes, hlen]
    · rw [hmin, hread, hu.read, hsame]
    · exact absurd (hr ▸ h1) (by decide)
    · rwa [grown, set_chunk_self]

/-! ### Less is wanted -/

/-- A chunk that only the caller refers to may be made smaller. -/
theorem shrunk_succeeded (hu : h.Usable p len) (hr : (h.chunk p.chunk).refcount = 1) (hs : size ≤ len) :
    Succeeded h p len size (h.set p.chunk { h.chunk p.chunk with size := size }) p := by
  obtain ⟨hl, h8, hn, hw, -, hroom⟩ := usable_iff.1 hu
  have hle := UInt64.le_iff_toNat_le.1 hs
  have hl' : (h.set p.chunk { h.chunk p.chunk with size := size }).live p.chunk = .ok () :=
    live_set hl (live_iff.1 hl).2
  refine ⟨usable_iff.2 ⟨hl', h8, hn, ?_, ?_, ?_⟩, ?_, fun h1 => ?_, fun _ _ => ?_⟩
  · rwa [set_chunk_self]
  · rw [set_chunk_self]
  · rw [set_chunk_self]
    dsimp only
    omega
  · rw [read_ok hl' (by rw [set_chunk_self]; dsimp only; omega), read_ok hl (by omega), set_chunk_self]
  · exact absurd (hr ▸ h1) (by decide)
  · rwa [set_chunk_self]

/-! ### A new chunk -/

/-- The size with what is before it is more than a `size_t` can say. -/
theorem overflow_iff : chunkHdrsize + size < chunkHdrsize ↔ 2 ^ 64 ≤ chunkHdrsize.toNat + size.toNat := by
  have hlt := size.toNat_lt
  rw [UInt64.lt_iff_toNat_lt, UInt64.toNat_add, show chunkHdrsize.toNat = 32 from rfl]
  omega

theorem overflow_iff' : chunkHdrsize + size < size ↔ 2 ^ 64 ≤ chunkHdrsize.toNat + size.toNat := by
  have hlt := size.toNat_lt
  rw [UInt64.lt_iff_toNat_lt, UInt64.toNat_add, show chunkHdrsize.toNat = 32 from rfl]
  omega

/-- Where there is no memory nothing is changed. -/
theorem renew_fails (self : ℕ) (hm : 2 ^ 64 ≤ chunkHdrsize.toNat + size.toNat ∨ memory = none) :
    h.renew self p size memory = .ok (h, -Errno.enomem, p) := by
  rcases hm with hm | rfl
  · simp only [renew, alloc, if_pos (overflow_iff.2 hm), ok_bind, pure_eq_ok]
  · simp only [renew, alloc, ne_eq, not_true_eq_false, if_false]
    split <;> rfl

/-- Writing changes the bytes of one chunk. -/
theorem eq_of_write {bytes : List UInt8} (hx : h.write p bytes = .ok h') :
    p.off + bytes.length ≤ (h.chunk p.chunk).bytes.length ∧ h' = h.set p.chunk
      { h.chunk p.chunk with bytes := overwrite (h.chunk p.chunk).bytes p.off bytes } := by
  simp only [write, bind_eq_ok] at hx
  obtain ⟨⟨⟩, -, hx⟩ := hx
  split at hx
  · next hr => exact ⟨hr, (Except.ok.inj hx).symm⟩
  · cases hx

/-- Giving a reference up changes the chunk that it is of only. -/
theorem chunk_of_free {i : ℕ} (hx : h.free p = .ok h') (hi : i ≠ p.chunk) : h'.chunk i = h.chunk i := by
  obtain ⟨j, hj, hx⟩ := bind_eq_ok.1 hx
  obtain rfl := eq_of_getptr hj
  dsimp only at hx
  split at hx
  · obtain ⟨g, hg, hx⟩ := bind_eq_ok.1 hx
    simp only [putl] at hg
    split at hg
    · rw [← Except.ok.inj hx, (eq_of_write hg).2]
      exact (update_of_ne hi ..).trans ((update_of_ne hi ..).trans (update_of_ne hi ..))
    · cases hg
  · rw [← Except.ok.inj hx]
    exact update_of_ne hi ..

/-- A new chunk has a tag one byte after its start, so that there is no header. The bytes copied
    come after it. -/
theorem renew_not_usable {self : ℕ} {rc : ℤ} {p' : ChunkPtr} {memory : ℕ → UInt8} (hp : p.chunk < h.allocs)
    (hm : ¬ 2 ^ 64 ≤ chunkHdrsize.toNat + size.toNat)
    (hx : h.renew self p size (some memory) = .ok (h', rc, p')) : rc = 0 ∧ ¬ h'.Usable p' size := by
  obtain ⟨b₁, b₂, b₃, bytes, -, halloc⟩ := alloc_ok (h := h) (mt overflow_iff.1 hm) memory
  simp only [renew, halloc, ok_bind, bind_eq_ok] at hx
  obtain ⟨copied, -, g, hg, g', hg', hx⟩ := hx
  simp only [pure_eq_ok, Except.ok.injEq, Prod.mk.injEq] at hx
  obtain ⟨rfl, rfl, rfl⟩ := hx
  refine ⟨rfl, fun hu => ?_⟩
  obtain ⟨-, -, -, hw, -, -⟩ := usable_iff.1 hu
  -- The bytes before the handle are those put there at first.
  rw [chunk_of_free hg' (Nat.ne_of_gt hp)] at hw
  obtain ⟨hr, rfl⟩ := eq_of_write hg
  rw [set_chunk_self] at hw
  dsimp only at hr hw
  rw [update_self] at hr hw
  rw [window_overwrite_of_disjoint hr (.inl (by decide))] at hw
  have h1 := congrArg (·[1]?) hw
  simp only [window, header, show Nanomsg.putl chunkTag = [0xde, 0xad, 0xca, 0xfe] by decide,
    show Nanomsg.putl (UInt32.ofNat (8 - 8)) = [0, 0, 0, 0] by decide] at h1
  exact absurd (Option.some.inj h1) (by decide)

/-- Where a new chunk is made its handle is not right, and else nothing is changed. -/
theorem renew_outcome_iff {self : ℕ} (hp : p.chunk < h.allocs) :
    Outcome h p len size (h.renew self p size memory) ↔
      2 ^ 64 ≤ chunkHdrsize.toNat + size.toNat ∨ memory = none := by
  constructor
  · rintro ⟨h', rc, p', hx, hsucc, -⟩
    by_contra hm
    rw [not_or] at hm
    obtain ⟨memory, rfl⟩ := Option.ne_none_iff_exists'.1 hm.2
    obtain ⟨hrc, hn⟩ := renew_not_usable hp hm.1 hx
    exact hn (hsucc hrc).usable
  · intro hm
    rw [renew_fails self hm]
    exact outcome_enomem

/-! ### Reallocating -/

/-- A chunk that only the caller refers to, when more is wanted. -/
theorem realloc_more (hu : h.Usable p len) (h1 : (h.chunk p.chunk).refcount = 1) (hlt : len < size) :
    h.realloc size p memory =
      if 2 ^ 64 ≤ chunkHdrsize.toNat + size.toNat then .ok (h, -Errno.enomem, p)
      else if size.toNat - len.toNat ≤ p.off - 8 then .ok (h.grown p len size, 0, p)
      else h.renew p.chunk p size memory := by
  obtain ⟨-, -, -, -, hs, -⟩ := usable_iff.1 hu
  have hsub : (size - len).toNat = size.toNat - len.toNat :=
    UInt64.toNat_sub_of_le _ _ (UInt64.le_iff_toNat_le.2 (Nat.le_of_lt (UInt64.lt_iff_toNat_lt.1 hlt)))
  simp only [realloc, hu.getptr, ok_bind, if_pos h1, hs, if_neg (UInt64.not_le.2 hlt), hsub,
    overflow_iff', pure_eq_ok]
  split
  · rfl
  · split
    · next hb => exact grow_ok hu hlt hb
    · rfl

/-- When `nn_chunk_realloc` preserves what a usable handle is for. -/
theorem realloc_preserves_iff (hu : h.Usable p len) :
    Preserves h p len size memory ↔ Harmless h p len size memory := by
  obtain ⟨hl, -, -, -, hs, -⟩ := usable_iff.1 hu
  have hp := (live_iff.1 hl).1
  unfold Preserves Harmless
  by_cases h1 : (h.chunk p.chunk).refcount = 1
  · by_cases hle : size ≤ len
    · -- Less is wanted.
      have hx : h.realloc size p memory =
          .ok (h.set p.chunk { h.chunk p.chunk with size := size }, 0, p) := by
        simp only [realloc, hu.getptr, ok_bind, if_pos h1, hs, if_pos hle, pure_eq_ok]
      rw [hx, outcome_ok]
      exact iff_of_true (shrunk_succeeded hu h1 hle) (.inl ⟨h1, hle⟩)
    have hlt : len < size := UInt64.not_le.1 hle
    rw [realloc_more hu h1 hlt]
    by_cases ho : 2 ^ 64 ≤ chunkHdrsize.toNat + size.toNat
    · rw [if_pos ho]
      exact iff_of_true outcome_enomem (.inr (.inl ho))
    rw [if_neg ho]
    by_cases hb : size.toNat - len.toNat ≤ p.off - 8
    · -- The bytes are moved.
      rw [if_pos hb, outcome_ok, grown_succeeded_iff hu h1 hlt hb]
      simp only [h1, hle, ho, hb, true_and, and_true, false_or, not_true_eq_false, false_and]
    · -- They are copied, as there is no room before them.
      rw [if_neg hb, renew_outcome_iff hp]
      simp only [h1, hle, ho, hb, true_and, and_false, false_or, not_false_eq_true, false_and, or_false]
  · -- There are others that refer to the chunk.
    have hx : h.realloc size p memory = h.renew p.chunk p size memory := by
      simp only [realloc, hu.getptr, ok_bind, if_neg h1]
    rw [hx, renew_outcome_iff hp]
    simp only [h1, false_and, not_false_eq_true, true_and, false_or, or_false]

theorem realloc_preserves_iff_sixteen :
    Preserves Chunkref.sixteen ⟨0, 8⟩ 16 8 none ↔ Harmless Chunkref.sixteen ⟨0, 8⟩ 16 8 none :=
  realloc_preserves_iff Chunkref.sixteen_usable

/-- It is not so that the bytes are preserved: after 8 of 16 bytes have been trimmed and one is wanted
    back, the handle stored has no tag before it, as this has been moved with the bytes. And a new
    chunk is of no use, whether the chunk has to be copied for its size or for the others. -/
theorem realloc_not_preserves :
    (∃ h' c', Chunkref.trims Chunkref.sixteen (.chunk ⟨0, 8⟩) [8] = .ok (h', c') ∧ c' = .chunk ⟨0, 16⟩ ∧
      h'.Usable ⟨0, 16⟩ 8 ∧ ¬ Preserves h' ⟨0, 16⟩ 8 9 none) ∧
    ¬ Preserves Chunkref.sixteen ⟨0, 8⟩ 16 17 (some fun _ => 0) ∧
    ¬ Preserves (Chunkref.sixteen.addref ⟨0, 8⟩ 1) ⟨0, 8⟩ 16 16 (some fun _ => 0) := by
  -- A handle that cannot be asked for its size is not usable.
  have hnot : ∀ {h h' : Chunks} {p p' : ChunkPtr} {len size : UInt64} {memory : Option (ℕ → UInt8)},
      h.realloc size p memory = .ok (h', 0, p') → h'.size p' = .error .assertion →
      ¬ Preserves h p len size memory := by
    rintro h h' p p' len size memory hx hs ⟨h'', rc, p'', hx', hsucc, -⟩
    rw [hx, Except.ok.injEq, Prod.mk.injEq, Prod.mk.injEq] at hx'
    obtain ⟨rfl, rfl, rfl⟩ := hx'
    rw [(hsucc rfl).usable.size] at hs
    cases hs
  exact ⟨⟨_, _, rfl, rfl,
    usable_iff.2 ⟨by decide, by decide, by decide, by decide, by decide, by decide⟩,
    hnot rfl (by decide)⟩, hnot rfl (by decide), hnot rfl (by decide)⟩

end Chunks

end Nanomsg
