import Nanomsg.Lib.Window
import Nanomsg.Utils.Handle

/-!
# Trimming

What `nn_chunk_trim` does to a chunk with a well-formed handle. It writes the tag
and the distance into the eight bytes before the new start, which for less than
eight bytes trimmed are in part those of the old handle, and makes the size of the
chunk smaller (`trim_ok`). The new handle is well formed and has the bytes from the
new start on (`Usable.trim`, `read_trim`).
-/

namespace Nanomsg

open Function Window

namespace Chunks

variable {h h' : Chunks} {p : ChunkPtr} {len n : UInt64}

/-! ### Reading and writing -/

theorem live_iff {i : ℕ} : h.live i = .ok () ↔ i < h.allocs ∧ (h.chunk i).freed = 0 := by
  unfold live
  by_cases hi : i < h.allocs <;> by_cases hf : (h.chunk i).freed = 0 <;> simp [hi, hf]

theorem read_ok {k : ℕ} (hl : h.live p.chunk = .ok ())
    (hr : p.off + k ≤ (h.chunk p.chunk).bytes.length) :
    h.read p k = .ok (window (h.chunk p.chunk).bytes p.off k) := by
  simp only [read, hl, ok_bind, if_pos hr, pure_eq_ok, window]

theorem write_ok {bytes : List UInt8} (hl : h.live p.chunk = .ok ())
    (hr : p.off + bytes.length ≤ (h.chunk p.chunk).bytes.length) :
    h.write p bytes = .ok (h.set p.chunk
      { h.chunk p.chunk with bytes := overwrite (h.chunk p.chunk).bytes p.off bytes }) := by
  simp only [write, hl, ok_bind, if_pos hr, pure_eq_ok, overwrite]

@[simp] theorem set_chunk_self (h : Chunks) (i : ℕ) (c : Chunk) : (h.set i c).chunk i = c :=
  update_self ..

@[simp] theorem set_set (h : Chunks) (i : ℕ) (c d : Chunk) : (h.set i c).set i d = h.set i d := by
  simp [set]

@[simp] theorem set_self (h : Chunks) (i : ℕ) : h.set i (h.chunk i) = h := by simp [set]

/-- A chunk that is not freed is there still. -/
theorem live_set {i : ℕ} {c : Chunk} (hl : h.live i = .ok ()) (hc : c.freed = 0) :
    (h.set i c).live i = .ok () := by
  rw [live_iff] at hl ⊢
  exact ⟨hl.1, by rwa [set_chunk_self]⟩

theorem putl_eq (p : ChunkPtr) {back : ℕ} {val : UInt32} (hl : h.live p.chunk = .ok ()) (hb : back ≤ p.off)
    (hr : p.off - back + 4 ≤ (h.chunk p.chunk).bytes.length) :
    h.putl p back val = .ok (h.set p.chunk { h.chunk p.chunk with
      bytes := overwrite (h.chunk p.chunk).bytes (p.off - back) (Nanomsg.putl val) }) := by
  rw [putl, if_pos hb]
  exact write_ok hl hr

/-- The number got is the one whose bytes are there. -/
theorem getl_eq_ok_iff {back : ℕ} {val : UInt32} :
    h.getl p back = .ok val ↔ h.live p.chunk = .ok () ∧ back ≤ p.off ∧
      window (h.chunk p.chunk).bytes (p.off - back) 4 = Nanomsg.putl val := by
  rw [getl, bind_eq_ok]
  constructor
  · rintro ⟨⟨⟩, hl, hg⟩
    split at hg
    · next hb =>
      refine ⟨hl, hb, ?_⟩
      split at hg
      · next b₀ b₁ b₂ b₃ rest hd =>
        rw [← Except.ok.inj hg, putl_getl, window, hd]
        rfl
      · simp at hg
    · simp at hg
  · rintro ⟨hl, hb, hw⟩
    refine ⟨(), hl, ?_⟩
    rw [if_pos hb]
    have hlen := congrArg List.length hw
    rw [window, length_putl, List.length_take] at hlen
    rw [window] at hw
    -- The four bytes of the window are the first four there.
    obtain ⟨b₀, b₁, b₂, b₃, rest, hd⟩ : ∃ b₀ b₁ b₂ b₃ rest,
        (h.chunk p.chunk).bytes.drop (p.off - back) = b₀ :: b₁ :: b₂ :: b₃ :: rest := by
      rcases hd : (h.chunk p.chunk).bytes.drop (p.off - back) with
        _ | ⟨b₀, _ | ⟨b₁, _ | ⟨b₂, _ | ⟨b₃, rest⟩⟩⟩⟩
      case cons.cons.cons.cons => exact ⟨b₀, b₁, b₂, b₃, rest, rfl⟩
      all_goals simp [hd] at hlen
    rw [hd] at hw ⊢
    exact congrArg Except.ok (putl_inj ((putl_getl b₀ b₁ b₂ b₃).trans hw))

/-! ### Handles that can be trimmed -/

/-- A well-formed handle of a chunk that has the bytes it should have, and that is as
    near to the start of it as `nn_chunk_trim` asserts. -/
structure Usable (h : Chunks) (p : ChunkPtr) (len : UInt64) : Prop extends
    h.WellFormed p len where
  near : p.off - 8 < UInt32.size - 1
  room : p.off + len.toNat ≤ (h.chunk p.chunk).bytes.length

/-- What is before the bytes that a handle is for. -/
def header (distance : ℕ) : List UInt8 :=
  Nanomsg.putl (UInt32.ofNat distance) ++ Nanomsg.putl chunkTag

@[simp] theorem length_header (distance : ℕ) : (header distance).length = 8 := rfl

/-- A handle is well formed when its header is before it. -/
theorem usable_iff : h.Usable p len ↔
    h.live p.chunk = .ok () ∧ 8 ≤ p.off ∧ p.off - 8 < UInt32.size - 1 ∧
      window (h.chunk p.chunk).bytes (p.off - 8) 8 = header (p.off - 8) ∧
      (h.chunk p.chunk).size = len ∧ p.off + len.toNat ≤ (h.chunk p.chunk).bytes.length := by
  constructor
  · rintro ⟨⟨ht, ⟨off, hd, hoff⟩, hp, hs⟩, hn, hr⟩
    obtain ⟨hl, h4, hwt⟩ := getl_eq_ok_iff.1 ht
    obtain ⟨-, h8, hwd⟩ := getl_eq_ok_iff.1 hd
    have hdist : UInt32.ofNat (p.off - 8) = off := by
      rw [hoff, Nat.add_sub_cancel_left, UInt32.ofNat_toNat]
    refine ⟨hl, h8, hn, ?_, ?_, hr⟩
    · -- The distance and the tag are one after the other.
      rw [header, hdist, ← hwd, ← hwt]
      ext1 i
      rw [getElem?_window, List.getElem?_append, length_window (by omega), getElem?_window,
        getElem?_window]
      split_ifs <;> first | rfl | omega | (congr 1; omega)
    · simpa [size, hp] using hs
  · rintro ⟨hl, h8, hn, hw, hs, hr⟩
    have htag : h.getl p 4 = .ok chunkTag := by
      refine getl_eq_ok_iff.2 ⟨hl, by omega, ?_⟩
      have := congrArg (window · 4 4) hw
      simp only [window_window (show 4 + 4 ≤ 8 by decide)] at this
      rw [show p.off - 4 = p.off - 8 + 4 by omega, this]
      rfl
    have hdist : h.getl p 8 = .ok (UInt32.ofNat (p.off - 8)) := by
      refine getl_eq_ok_iff.2 ⟨hl, h8, ?_⟩
      have := congrArg (window · 0 4) hw
      simp only [window_window (show 0 + 4 ≤ 8 by decide)] at this
      exact this.trans rfl
    have hoff : p.off = 8 + (UInt32.ofNat (p.off - 8)).toNat := by
      rw [UInt32.toNat_ofNat_of_lt' (by omega)]
      omega
    have hptr : h.getptr p = .ok p.chunk := by
      simp only [getptr, htag, hdist, ok_bind, decide_true, nnAssert_true, if_pos hoff, pure_eq_ok]
    exact ⟨⟨htag, ⟨_, hdist, hoff⟩, hptr, by simp [size, hptr, hs]⟩, hn, hr⟩

theorem Usable.live (hu : h.Usable p len) : h.live p.chunk = .ok () := (usable_iff.1 hu).1

/-- The bytes that a usable handle is for can be read. -/
theorem Usable.read (hu : h.Usable p len) :
    h.read p len.toNat = .ok (window (h.chunk p.chunk).bytes p.off len.toNat) :=
  read_ok hu.live hu.room

@[simp] theorem addref_bytes (h : Chunks) (p : ChunkPtr) (k : UInt32) :
    ((h.addref p k).chunk p.chunk).bytes = (h.chunk p.chunk).bytes := by simp [Chunks.addref]

/-- More references are nothing to a handle. -/
theorem Usable.addref (hu : h.Usable p len) (k : UInt32) : (h.addref p k).Usable p len := by
  obtain ⟨hl, h8, hn, hw, hs, hr⟩ := usable_iff.1 hu
  refine usable_iff.2 ⟨live_set hl (live_iff.1 hl).2, h8, hn, ?_, ?_, ?_⟩
  · rwa [addref_bytes]
  · rwa [Chunks.addref, set_chunk_self]
  · rwa [addref_bytes]

/-! ### The effect of trimming -/

/-- The chunk of `p` after `n` bytes have been trimmed. -/
def trimmed (h : Chunks) (p : ChunkPtr) (n : UInt64) : Chunks :=
  h.set p.chunk { h.chunk p.chunk with
    bytes := overwrite (h.chunk p.chunk).bytes (p.off + n.toNat - 8) (header (p.off + n.toNat - 8))
    size := (h.chunk p.chunk).size - n }

/-- What a trimming that succeeds has done to the size. -/
theorem size_of_trim {p' : ChunkPtr} (hx : h.trim p n = .ok (h', p')) :
    p'.chunk = p.chunk ∧ n ≤ (h.chunk p.chunk).size ∧
      (h'.chunk p.chunk).size = (h.chunk p.chunk).size - n := by
  unfold trim at hx
  obtain ⟨i, hi, hx⟩ := bind_eq_ok.1 hx
  obtain rfl := eq_of_getptr hi
  obtain ⟨⟨⟩, hn, hx⟩ := bind_eq_ok.1 hx
  -- Putting the tag and the distance does not change the size.
  have hput : ∀ {g g' : Chunks} {r : ChunkPtr} {back : ℕ} {val : UInt32},
      g.putl r back val = .ok g' → (g'.chunk r.chunk).size = (g.chunk r.chunk).size := by
    intro g g' r back val hg
    simp only [putl] at hg
    split at hg
    · simp only [write, bind_eq_ok] at hg
      obtain ⟨⟨⟩, -, hg⟩ := hg
      split at hg
      · rw [← Except.ok.inj hg, set_chunk_self]
      · simp at hg
    · simp at hg
  obtain ⟨g, hg, hx⟩ := bind_eq_ok.1 hx
  obtain ⟨⟨⟩, -, hx⟩ := bind_eq_ok.1 hx
  obtain ⟨g', hg', hx⟩ := bind_eq_ok.1 hx
  simp only [pure_eq_ok, Except.ok.injEq, Prod.mk.injEq] at hx
  obtain ⟨rfl, rfl⟩ := hx
  refine ⟨rfl, ?_, ?_⟩
  · by_contra hc
    simp [hc] at hn
  · rw [set_chunk_self]
    exact congrArg (· - n) ((hput hg').trans (hput hg))

/-- The tag is put before the new start. -/
theorem putl_tag (hu : h.Usable p len) (hn : n ≤ len) :
    h.putl ⟨p.chunk, p.off + n.toNat⟩ 4 chunkTag = .ok (h.set p.chunk { h.chunk p.chunk with
      bytes := overwrite (h.chunk p.chunk).bytes (p.off + n.toNat - 4)
        (Nanomsg.putl chunkTag) }) := by
  obtain ⟨hl, h8, -, -, -, hr⟩ := usable_iff.1 hu
  have hle := UInt64.le_iff_toNat_le.1 hn
  exact putl_eq _ hl (by dsimp only; omega) (by dsimp only; omega)

/-- Trimming a usable handle. -/
theorem trim_ok (hu : h.Usable p len) (hn : n ≤ len)
    (hnear : p.off + n.toNat - 8 < UInt32.size - 1) :
    h.trim p n = .ok (h.trimmed p n, ⟨p.chunk, p.off + n.toNat⟩) := by
  obtain ⟨hl, h8, -, -, rfl, hr⟩ := usable_iff.1 hu
  have hlen : p.off + n.toNat ≤ (h.chunk p.chunk).bytes.length := by
    have := UInt64.le_iff_toNat_le.1 hn
    omega
  rw [trim, hu.getptr]
  simp only [ok_bind, hn, decide_true, nnAssert_true, putl_tag hu hn, hnear]
  -- The tag has been put, over some bytes of the chunk.
  have hput' : ∀ (c : Chunk) (val : UInt32), c.freed = 0 →
      c.bytes.length = (h.chunk p.chunk).bytes.length →
      (h.set p.chunk c).putl ⟨p.chunk, p.off + n.toNat⟩ 8 val = .ok (h.set p.chunk
        { c with bytes := overwrite c.bytes (p.off + n.toNat - 8) (Nanomsg.putl val) }) := by
    intro c val hf hc
    have : (h.set p.chunk c).putl ⟨p.chunk, p.off + n.toNat⟩ 8 val = _ := putl_eq _ (live_set hl hf)
      (by dsimp only; omega) (by rw [set_chunk_self, hc]; dsimp only; omega)
    rwa [set_chunk_self, set_set] at this
  have hlen' : (overwrite (h.chunk p.chunk).bytes (p.off + n.toNat - 4)
      (Nanomsg.putl chunkTag)).length = _ := length_overwrite (by rw [length_putl]; omega)
  rw [hput' { h.chunk p.chunk with bytes := overwrite _ _ _ } _ (live_iff.1 hl).2 hlen']
  -- The tag and the distance are one after the other.
  have hover := overwrite_overwrite (h.chunk p.chunk).bytes
    (Nanomsg.putl (UInt32.ofNat (p.off + n.toNat - 8))) (Nanomsg.putl chunkTag)
    (p.off + n.toNat - 8) (by rw [length_putl, length_putl]; omega)
  rw [length_putl, show p.off + n.toNat - 8 + 4 = p.off + n.toNat - 4 by omega] at hover
  simp only [ok_bind, pure_eq_ok, set_chunk_self, set_set, hover, trimmed, header]

/-- The new start may not be farther from the start of the chunk than a `uint32_t` can say. -/
theorem trim_far (hu : h.Usable p len) (hn : n ≤ len)
    (hfar : ¬ p.off + n.toNat - 8 < UInt32.size - 1) : h.trim p n = .error .assertion := by
  have hsize : n ≤ (h.chunk p.chunk).size := (usable_iff.1 hu).2.2.2.2.1 ▸ hn
  rw [trim, hu.getptr]
  simp only [ok_bind, hsize, decide_true, nnAssert_true, putl_tag hu hn, hfar, decide_false]
  rfl

/-- Trimming nothing changes nothing. -/
theorem trim_zero (hu : h.Usable p len) : h.trim p 0 = .ok (h, p) := by
  obtain ⟨hl, h8, hn, hw, rfl, hr⟩ := usable_iff.1 hu
  rw [trim_ok hu (UInt64.le_iff_toNat_le.2 (Nat.zero_le _)) (by rwa [UInt64.toNat_zero])]
  simp only [UInt64.toNat_zero, Nat.add_zero, trimmed, ← hw, UInt64.sub_zero]
  rw [overwrite_window (by omega), set_self]

/-- The handle that trimming returns is usable. -/
theorem Usable.trim (hu : h.Usable p len) (hn : n ≤ len)
    (hnear : p.off + n.toNat - 8 < UInt32.size - 1) :
    (h.trimmed p n).Usable ⟨p.chunk, p.off + n.toNat⟩ (len - n) := by
  obtain ⟨hl, h8, -, -, rfl, hr⟩ := usable_iff.1 hu
  have hle := UInt64.le_iff_toNat_le.1 hn
  refine usable_iff.2 ⟨live_set hl (live_iff.1 hl).2, by dsimp only; omega, hnear, ?_, ?_, ?_⟩
  · -- The new header has been written over what was there.
    rw [trimmed, set_chunk_self]
    exact window_overwrite (by rw [length_header]; omega)
  · rw [trimmed, set_chunk_self]
  · rw [trimmed, set_chunk_self, length_overwrite (by rw [length_header]; omega),
      UInt64.toNat_sub_of_le _ _ hn]
    dsimp only
    omega

/-- What is left are the bytes from the new start on. -/
theorem read_trim (hu : h.Usable p len) (hn : n ≤ len)
    (hnear : p.off + n.toNat - 8 < UInt32.size - 1) (bytes : List UInt8)
    (hb : h.read p len.toNat = .ok bytes) :
    (h.trimmed p n).read ⟨p.chunk, p.off + n.toNat⟩ (len - n).toNat = .ok (bytes.drop n.toNat) := by
  have hle := UInt64.le_iff_toNat_le.1 hn
  rw [hu.read] at hb
  rw [← Except.ok.inj hb, (hu.trim hn hnear).read, trimmed, set_chunk_self,
    UInt64.toNat_sub_of_le _ _ hn]
  obtain ⟨hl, h8, -, -, rfl, hr⟩ := usable_iff.1 hu
  dsimp only
  rw [window_overwrite_of_disjoint (by rw [length_header]; omega)
    (.inr (by rw [length_header]; omega)), window, window, ← List.drop_drop, List.drop_take]

end Chunks

end Nanomsg
