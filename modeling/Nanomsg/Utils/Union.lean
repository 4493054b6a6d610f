import Nanomsg.Utils.Chunkref
import Nanomsg.Utils.Trim

/-!
# Chunkrefs, byte by byte

`struct nn_chunkref` as the 32 bytes that it is. The first one is a tag: the number
of bytes that follow in place, or `0xff` if a `struct nn_chunkref_chunk` is there, with
a pointer in the bytes 8 to 15. A pointer is made of eight fragments, and is one only
if all of them are there, in order.

`Holds` says which `Chunkref` the bytes are. Each function of `chunkref.c` does to the
bytes what it does to the `Chunkref` (`mv_holds`, `cp_holds`, `trim_holds`,
`term_holds`, `getchunk_holds`, `data_holds`).
-/

namespace Nanomsg

open Window

/-- What a byte of memory is: a number, or the `k`th byte of a pointer. -/
inductive Memval
  | byte (b : UInt8)
  | ptr (p : ChunkPtr) (k : ℕ)
  deriving DecidableEq

/-- The bytes of a pointer. -/
def pointer (p : ChunkPtr) : List Memval := (List.range 8).map (.ptr p)

@[simp] theorem length_pointer (p : ChunkPtr) : (pointer p).length = 8 := rfl

/-- `union` in `struct nn_chunkref`. -/
structure Union where
  cells : List Memval
  length : cells.length = 32

/-- `sizeof(struct nn_chunkref_chunk)`, and where its pointer is. -/
abbrev sizeofChunkrefChunk : ℕ := 16
abbrev offsetofChunk : ℕ := 8

namespace Union

variable (self : Union)

/-- Reading `n` bytes from the `k`th on. -/
def read (k n : ℕ) : Except Fault (List Memval) :=
  if k + n ≤ 32 then .ok (window self.cells k n) else .error .wildPointer

/-- Writing bytes from the `k`th on. -/
def write (k : ℕ) (vals : List Memval) : Except Fault Union :=
  if hk : k + vals.length ≤ 32 then
    .ok ⟨overwrite self.cells k vals, by
      rw [length_overwrite (self.length.symm ▸ hk), self.length]⟩
  else .error .wildPointer

/-- The numbers that some bytes of memory are. -/
def toBytes : List Memval → Except Fault (List UInt8)
  | [] => .ok []
  | .byte b :: vals => do
    let bytes ← toBytes vals
    pure (b :: bytes)
  | .ptr _ _ :: _ => .error .wildPointer

/-- `self->u.ref[0]`. -/
def tag : Except Fault UInt8 :=
  match self.cells with
  | .byte b :: _ => .ok b
  | _ => .error .wildPointer

/-- `ch->chunk`. -/
def getChunk : Except Fault ChunkPtr :=
  match self.cells[offsetofChunk]? with
  | some (.ptr p _) =>
    if window self.cells offsetofChunk 8 = pointer p then .ok p else .error .wildPointer
  | _ => .error .wildPointer

/-- `ch->chunk = chunk`. -/
def setChunk (p : ChunkPtr) : Except Fault Union := self.write offsetofChunk (pointer p)

variable (h : Chunks)

/-- `nn_chunkref_init`. -/
def init (size : UInt64) (memory : Option (ℕ → UInt8)) : Except Fault (Chunks × Union) :=
  if size < chunkrefMax then do
    let self ← self.write 0 [.byte size.toUInt8]
    pure (h, self)
  else do
    let self ← self.write 0 [.byte 0xff]
    let (h, p) ← Chunkref.allocated (← h.alloc size 0 memory)
    let self ← self.setChunk p
    pure (h, self)

/-- `nn_chunkref_init_chunk`. -/
def initChunk (p : ChunkPtr) : Except Fault Union := do
  let self ← self.write 0 [.byte 0xff]
  self.setChunk p

/-- `nn_chunkref_term`. -/
def term : Except Fault Chunks := do
  let tag ← self.tag
  if tag = 0xff then do
    let p ← self.getChunk
    h.free p
  else pure h

/-- `nn_chunkref_getchunk`. -/
def getchunk (memory : Option (ℕ → UInt8)) : Except Fault (Chunks × Union × ChunkPtr) := do
  let tag ← self.tag
  if tag = 0xff then do
    let p ← self.getChunk
    pure (h, self, p)
  else do
    let (h, p) ← Chunkref.allocated (← h.alloc (UInt64.ofNat tag.toNat) 0 memory)
    let bytes ← toBytes (← self.read 1 tag.toNat)
    let h ← h.write p bytes
    let self ← self.write 0 [.byte 0]
    pure (h, self, p)

/-- `nn_chunkref_mv`. -/
def mv (dst src : Union) : Except Fault Union := do
  let tag ← src.tag
  let vals ← src.read 0 (if tag = 0xff then sizeofChunkrefChunk else tag.toNat + 1)
  dst.write 0 vals

/-- `nn_chunkref_cp`. -/
def cp (dst src : Union) : Except Fault (Chunks × Union) := do
  let tag ← src.tag
  if tag = 0xff then do
    let p ← src.getChunk
    let dst ← dst.write 0 (← src.read 0 32)
    pure (h.addref p 1, dst)
  else do
    let dst ← dst.write 0 (← src.read 0 32)
    pure (h, dst)

/-- The `n` bytes at the pointer that `nn_chunkref_data` returns. -/
def data (n : ℕ) : Except Fault (List UInt8) := do
  let tag ← self.tag
  if tag = 0xff then do
    let p ← self.getChunk
    h.read p n
  else do
    let vals ← self.read 1 n
    toBytes vals

/-- `nn_chunkref_trim`. -/
def trim (n : UInt64) : Except Fault (Chunks × Union) := do
  let tag ← self.tag
  if tag = 0xff then do
    let p ← self.getChunk
    let (h, p) ← h.trim p n
    let self ← self.setChunk p
    pure (h, self)
  else do
    nnAssert (n.toNat ≤ tag.toNat)
    let vals ← self.read (1 + n.toNat) (tag.toNat - n.toNat)
    let self ← self.write 1 vals
    let self ← self.write 0 [.byte (tag - n.toUInt8)]
    pure (h, self)

/-! ## What the bytes are -/

/-- The bytes are those of `c`; some of them may be anything. -/
def Holds (self : Union) : Chunkref → Prop
  | .inplace bytes _ => window self.cells 0 (bytes.length + 1) =
      .byte (UInt8.ofNat bytes.length) :: bytes.map .byte
  | .chunk p => window self.cells 0 1 = [.byte 0xff] ∧
      window self.cells offsetofChunk 8 = pointer p

variable {self h} {c : Chunkref} {p : ChunkPtr} {bytes : List UInt8} {k n : ℕ}

theorem read_ok (hk : k + n ≤ 32) : self.read k n = .ok (window self.cells k n) := if_pos hk

theorem write_ok (self : Union) (k : ℕ) (vals : List Memval) (hk : k + vals.length ≤ 32) :
    ∃ self', self.write k vals = .ok self' ∧ self'.cells = overwrite self.cells k vals :=
  ⟨_, dif_pos hk, rfl⟩

@[simp] theorem toBytes_map (bytes : List UInt8) : toBytes (bytes.map .byte) = .ok bytes := by
  induction bytes with
  | nil => rfl
  | cons b bytes ih => simp [toBytes, ih]

theorem tag_eq_ok_iff {b : UInt8} : self.tag = .ok b ↔ window self.cells 0 1 = [.byte b] := by
  unfold tag
  match hc : self.cells, self.length with
  | .byte b' :: vals, _ => simp [window]
  | .ptr p k :: vals, _ => simp [window]

theorem getChunk_ok (hp : window self.cells offsetofChunk 8 = pointer p) :
    self.getChunk = .ok p := by
  have hget : self.cells[offsetofChunk]? = some (.ptr p 0) := by
    have := congrArg (·[0]?) hp
    rwa [getElem?_window, if_pos (by decide)] at this
  simp only [getChunk, hget, hp, if_true]

/-- The tag of bytes in place is how many there are, which is not `0xff`. -/
theorem Holds.tag_inplace {short : bytes.length < 32} (hc : self.Holds (.inplace bytes short)) :
    self.tag = .ok (UInt8.ofNat bytes.length) ∧ UInt8.ofNat bytes.length ≠ 0xff ∧
      (UInt8.ofNat bytes.length).toNat = bytes.length := by
  have hnat : (UInt8.ofNat bytes.length).toNat = bytes.length := by
    rw [UInt8.toNat_ofNat']
    omega
  refine ⟨tag_eq_ok_iff.2 ?_, fun he => ?_, hnat⟩
  · have := congrArg (window · 0 1) (hc : _ = _)
    rwa [window_window (by omega)] at this
  · have := congrArg UInt8.toNat he
    rw [hnat, show (0xff : UInt8).toNat = 255 from rfl] at this
    omega

/-- The bytes in place follow the tag. -/
theorem Holds.window_inplace {short : bytes.length < 32} (hc : self.Holds (.inplace bytes short))
    (hk : k + n ≤ bytes.length) :
    window self.cells (1 + k) n = (window bytes k n).map .byte := by
  have := congrArg (window · (1 + k) n) (hc : _ = _)
  rw [window_window (by omega), Nat.zero_add] at this
  rw [this, Nat.add_comm 1 k, window, window, List.drop_succ_cons, List.map_take, List.map_drop]

theorem Holds.tag_chunk (hc : self.Holds (.chunk p)) : self.tag = .ok 0xff :=
  tag_eq_ok_iff.2 hc.1

/-! ### What the functions do -/

theorem initChunk_holds (self : Union) (p : ChunkPtr) :
    ∃ self', self.initChunk p = .ok self' ∧ self'.Holds (.chunk p) := by
  obtain ⟨u, hu, hcu⟩ := write_ok self 0 [.byte 0xff] (by decide)
  obtain ⟨v, hv, hcv⟩ := write_ok u offsetofChunk (pointer p)
    (by rw [length_pointer]; decide)
  refine ⟨v, by simp only [initChunk, hu, ok_bind, setChunk, hv], ?_, ?_⟩
  · rw [hcv, window_overwrite_of_disjoint (by rw [u.length, length_pointer]; decide)
      (.inl (by decide)), hcu]
    exact window_overwrite (by rw [self.length]; decide)
  · rw [hcv]
    exact window_overwrite (by rw [u.length, length_pointer]; decide)

/-- The bytes of memory that `c` takes, from the first on. -/
def extent : Chunkref → ℕ
  | .inplace bytes _ => bytes.length + 1
  | .chunk _ => sizeofChunkrefChunk

theorem extent_le (c : Chunkref) : extent c ≤ 32 := by
  cases c with
  | inplace bytes short => exact short
  | chunk p => exact Nat.le_add_right 16 16

/-- What the bytes are is decided by those that it takes. -/
theorem Holds.congr {self' : Union} (hc : self.Holds c)
    (he : window self'.cells 0 (extent c) = window self.cells 0 (extent c)) : self'.Holds c := by
  -- What is read of `c` lies in the bytes it takes.
  have hpart : ∀ j m, j + m ≤ extent c → window self'.cells j m = window self.cells j m := by
    intro j m hj
    have := congrArg (window · j m) he
    simpa only [window_window hj, Nat.zero_add] using this
  cases c with
  | inplace bytes short => exact he.trans hc
  | chunk p => exact ⟨(hpart 0 1 (Nat.le_add_right 1 15)).trans hc.1,
    (hpart 8 8 (Nat.le_refl 16)).trans hc.2⟩

theorem mv_holds (dst : Union) (hc : self.Holds c) :
    ∃ dst', mv dst self = .ok dst' ∧ dst'.Holds c.mv := by
  have htag : ∃ b, self.tag = .ok b ∧
      (if b = 0xff then sizeofChunkrefChunk else b.toNat + 1) = extent c := by
    cases c with
    | inplace bytes short =>
      obtain ⟨ht, hne, hnat⟩ := hc.tag_inplace
      exact ⟨_, ht, by rw [if_neg hne, hnat]; rfl⟩
    | chunk p => exact ⟨_, hc.tag_chunk, rfl⟩
  obtain ⟨b, ht, hb⟩ := htag
  have hlen : (window self.cells 0 (extent c)).length = extent c :=
    length_window (by rw [self.length, Nat.zero_add]; exact extent_le c)
  obtain ⟨u, hu, hcu⟩ := write_ok dst 0 (window self.cells 0 (extent c))
    (by rw [hlen, Nat.zero_add]; exact extent_le c)
  refine ⟨u, ?_, hc.congr ?_⟩
  · simp only [mv, ht, ok_bind, hb]
    rw [read_ok (by rw [Nat.zero_add]; exact extent_le c), ok_bind, hu]
  · rw [hcu]
    have : window (overwrite dst.cells 0 (window self.cells 0 (extent c))) 0 _ = _ :=
      window_overwrite (by rw [hlen, Nat.zero_add, dst.length]; exact extent_le c)
    rwa [hlen] at this

theorem cp_holds (dst : Union) (hc : self.Holds c) :
    ∃ dst', cp h dst self = .ok ((c.cp h).1, dst') ∧ dst'.Holds (c.cp h).2 := by
  -- All 32 bytes are copied, whatever `c` takes of them.
  have hall : window self.cells 0 32 = self.cells := by
    rw [window, List.drop_zero, List.take_of_length_le (by rw [self.length])]
  obtain ⟨u, hu, hcu⟩ := write_ok dst 0 self.cells
    (by rw [self.length])
  have hcells : u.cells = self.cells := by
    rw [hcu, overwrite, self.length, Nat.zero_add, List.take_zero, List.nil_append,
      List.drop_of_length_le (by rw [dst.length]), List.append_nil]
  have hread : self.read 0 32 = .ok self.cells := by rw [read_ok (by decide), hall]
  cases c with
  | inplace bytes short =>
    obtain ⟨ht, hne, -⟩ := hc.tag_inplace
    exact ⟨u, by simp only [cp, ht, ok_bind, if_neg hne, hread, hu, pure_eq_ok, Chunkref.cp],
      hc.congr (by rw [hcells])⟩
  | chunk p =>
    exact ⟨u, by simp only [cp, hc.tag_chunk, ok_bind, if_true, getChunk_ok hc.2, hread, hu,
      pure_eq_ok, Chunkref.cp], hc.congr (by rw [hcells])⟩

theorem data_holds (hc : self.Holds c) {bytes : List UInt8} (hd : c.data h n = .ok bytes) :
    self.data h n = .ok bytes := by
  cases c with
  | inplace bs short =>
    obtain ⟨ht, hne, -⟩ := hc.tag_inplace
    rw [Chunkref.data] at hd
    split at hd
    · next hn =>
      have hwin := hc.window_inplace (k := 0) (n := n) (by rwa [Nat.zero_add])
      simp only [data, ht, ok_bind, if_neg hne]
      rw [read_ok (by omega), ok_bind, ← Nat.add_zero 1, hwin, toBytes_map, ← hd]
      rfl
    · simp at hd
  | chunk p =>
    simp only [data, hc.tag_chunk, ok_bind, if_true, getChunk_ok hc.2]
    exact hd

/-- The pointer is replaced, and the tag stays. -/
theorem setChunk_holds (hc : self.Holds (.chunk p)) (p' : ChunkPtr) :
    ∃ self', self.setChunk p' = .ok self' ∧ self'.Holds (.chunk p') := by
  obtain ⟨u, hu, hcu⟩ := write_ok self offsetofChunk (pointer p')
    (by rw [length_pointer]; decide)
  refine ⟨u, hu, ?_, ?_⟩
  · rw [hcu, window_overwrite_of_disjoint (by rw [self.length, length_pointer]; decide)
      (.inl (by decide))]
    exact hc.1
  · rw [hcu]
    exact window_overwrite (by rw [self.length, length_pointer]; decide)

/-- Putting other bytes in place, and then their number. -/
theorem put_holds (self : Union) (bytes : List UInt8) (short : bytes.length < 32) :
    ∃ u v, self.write 1 (bytes.map .byte) = .ok u ∧
      u.write 0 [.byte (UInt8.ofNat bytes.length)] = .ok v ∧ v.Holds (.inplace bytes short) := by
  obtain ⟨u, hu, hcu⟩ := write_ok self 1 (bytes.map .byte)
    (by rw [List.length_map]; omega)
  obtain ⟨v, hv, hcv⟩ := write_ok u 0
    [.byte (UInt8.ofNat bytes.length)] (by rw [List.length_singleton]; decide)
  -- The number comes right before the bytes.
  have hover := overwrite_overwrite self.cells [.byte (UInt8.ofNat bytes.length)]
    (bytes.map .byte) 0 (by rw [List.length_singleton, List.length_map, self.length]; omega)
  have hwin : window (overwrite self.cells 0
      ([.byte (UInt8.ofNat bytes.length)] ++ bytes.map .byte)) 0 _ = _ := window_overwrite (by
    rw [List.length_append, List.length_singleton, List.length_map, self.length]
    omega)
  refine ⟨u, v, hu, hv, ?_⟩
  rw [List.length_append, List.length_singleton, List.length_map, Nat.add_comm 1] at hwin
  rw [Holds, hcv, hcu]
  exact (congrArg (window · 0 (bytes.length + 1)) hover).trans hwin

theorem trim_holds {n : UInt64} {h' : Chunks} {c' : Chunkref} (hc : self.Holds c)
    (hx : c.trim h n = .ok (h', c')) :
    ∃ self', self.trim h n = .ok (h', self') ∧ self'.Holds c' := by
  cases c with
  | inplace bytes short =>
    obtain ⟨ht, hne, hnat⟩ := hc.tag_inplace
    obtain ⟨⟨⟩, hn, hx⟩ := bind_eq_ok.1 hx
    have hle : n.toNat ≤ bytes.length := by
      by_contra hgt
      simp [hgt] at hn
    simp only [pure_eq_ok, Except.ok.injEq, Prod.mk.injEq] at hx
    obtain ⟨rfl, rfl⟩ := hx
    have hdrop : (bytes.drop n.toNat).length = bytes.length - n.toNat := List.length_drop
    obtain ⟨u, v, hu, hv, hhold⟩ := put_holds self (bytes.drop n.toNat) (by omega)
    -- The tag is counted down as the bytes are.
    have htag : UInt8.ofNat bytes.length - n.toUInt8 = UInt8.ofNat (bytes.drop n.toNat).length := by
      have hbyte : n.toUInt8.toNat = n.toNat := by
        rw [UInt64.toNat_toUInt8]
        omega
      refine UInt8.toNat_inj.1 ?_
      rw [UInt8.toNat_sub_of_le _ _ (UInt8.le_iff_toNat_le.2 (by omega)), hnat, hbyte, hdrop,
        UInt8.toNat_ofNat']
      omega
    have hread : self.read (1 + n.toNat) (bytes.length - n.toNat) =
        .ok ((bytes.drop n.toNat).map .byte) := by
      rw [read_ok (by omega), hc.window_inplace (by omega), window,
        List.take_of_length_le (by rw [hdrop])]
    refine ⟨v, ?_, hhold⟩
    simp only [trim, ht, ok_bind, if_neg hne, hnat, hle, decide_true, nnAssert_true, hread, hu,
      htag, hv, pure_eq_ok]
  | chunk p =>
    obtain ⟨⟨g, p'⟩, hg, hx⟩ := bind_eq_ok.1 hx
    simp only [pure_eq_ok, Except.ok.injEq, Prod.mk.injEq] at hx
    obtain ⟨rfl, rfl⟩ := hx
    obtain ⟨u, hu, hhold⟩ := setChunk_holds hc p'
    refine ⟨u, ?_, hhold⟩
    simp only [trim, hc.tag_chunk, ok_bind, if_true, getChunk_ok hc.2, hg, hu, pure_eq_ok]

theorem term_holds (hc : self.Holds c) : self.term h = c.term h := by
  cases c with
  | inplace bytes short =>
    obtain ⟨ht, hne, -⟩ := hc.tag_inplace
    simp only [term, ht, ok_bind, if_neg hne, Chunkref.term, pure_eq_ok]
  | chunk p => simp only [term, hc.tag_chunk, ok_bind, if_true, getChunk_ok hc.2, Chunkref.term]

theorem getchunk_holds {memory : Option (ℕ → UInt8)} {h' : Chunks} {c' : Chunkref}
    (hc : self.Holds c) (hx : c.getchunk h memory = .ok (h', c', p)) :
    ∃ self', self.getchunk h memory = .ok (h', self', p) ∧ self'.Holds c' := by
  cases c with
  | inplace bytes short =>
    obtain ⟨ht, hne, hnat⟩ := hc.tag_inplace
    obtain ⟨r, hr, hx⟩ := bind_eq_ok.1 hx
    obtain ⟨⟨g, q⟩, hq, hx⟩ := bind_eq_ok.1 hx
    obtain ⟨g', hg', hx⟩ := bind_eq_ok.1 hx
    simp only [pure_eq_ok, Except.ok.injEq, Prod.mk.injEq] at hx
    obtain ⟨rfl, rfl, rfl⟩ := hx
    obtain ⟨u, hu, hcu⟩ := write_ok self 0 [.byte 0]
      (by rw [List.length_singleton]; decide)
    have hread : self.read 1 bytes.length = .ok (bytes.map .byte) := by
      have hwin := hc.window_inplace (k := 0) (n := bytes.length) (by rw [Nat.zero_add])
      rw [read_ok (by omega), ← Nat.add_zero 1, hwin, window, List.drop_zero, List.take_length]
    refine ⟨u, ?_, ?_⟩
    · simp only [getchunk, ht, ok_bind, if_neg hne, hnat, hr, hq, hread, toBytes_map, hg', hu,
        pure_eq_ok]
    · rw [Holds, hcu]
      exact window_overwrite (by rw [List.length_singleton, self.length]; decide)
  | chunk p =>
    simp only [Chunkref.getchunk, Except.ok.injEq, Prod.mk.injEq] at hx
    obtain ⟨rfl, rfl, rfl⟩ := hx
    exact ⟨self, by simp only [getchunk, hc.tag_chunk, ok_bind, if_true, getChunk_ok hc.2,
      pure_eq_ok], hc⟩

/-- A new chunkref has the bytes that are there, or a new chunk. -/
theorem init_holds {size : UInt64} {bytes : ℕ → UInt8} {memory : Option (ℕ → UInt8)} {h' : Chunks}
    (hb : ∀ i, i < size.toNat → self.cells[1 + i]? = some (.byte (bytes i)))
    (hx : Chunkref.init h size bytes memory = .ok (h', c)) :
    ∃ self', self.init h size memory = .ok (h', self') ∧ self'.Holds c := by
  unfold Chunkref.init at hx
  split at hx
  · next hs =>
    simp only [Except.ok.injEq, Prod.mk.injEq] at hx
    obtain ⟨rfl, rfl⟩ := hx
    have hlt : size.toNat < 32 := UInt64.lt_iff_toNat_lt.1 hs
    obtain ⟨u, hu, hcu⟩ := write_ok self 0 [.byte size.toUInt8]
      (by rw [List.length_singleton]; decide)
    refine ⟨u, by simp only [init, if_pos hs, hu, ok_bind, pure_eq_ok], ?_⟩
    -- The tag, and then the bytes that are there.
    have htag : size.toUInt8 = UInt8.ofNat size.toNat := by
      refine UInt8.toNat_inj.1 ?_
      rw [UInt64.toNat_toUInt8, UInt8.toNat_ofNat']
    rw [Holds, hcu, htag, List.length_map, List.length_range, List.map_map]
    ext1 i
    rw [getElem?_window, getElem?_overwrite (by rw [List.length_singleton, self.length]; decide),
      List.length_singleton]
    cases i with
    | zero => rfl
    | succ i =>
      rw [if_neg (by omega : ¬ (0 ≤ 0 + (i + 1) ∧ 0 + (i + 1) < 0 + 1)), Nat.zero_add,
        List.getElem?_cons_succ, List.getElem?_map]
      rcases Nat.lt_or_ge i size.toNat with hi | hi
      · rw [if_pos (by omega), Nat.add_comm i 1, hb i hi, List.getElem?_range hi]
        rfl
      · rw [if_neg (by omega), List.getElem?_eq_none (by rwa [List.length_range])]
        rfl
  · next hs =>
    obtain ⟨r, hr, hx⟩ := bind_eq_ok.1 hx
    obtain ⟨⟨g, q⟩, hq, hx⟩ := bind_eq_ok.1 hx
    simp only [pure_eq_ok, Except.ok.injEq, Prod.mk.injEq] at hx
    obtain ⟨rfl, rfl⟩ := hx
    obtain ⟨u, hu, hhold⟩ := initChunk_holds self q
    obtain ⟨v, hv, hu⟩ := bind_eq_ok.1 hu
    exact ⟨u, by simp only [init, if_neg hs, hr, hq, hv, hu, ok_bind, pure_eq_ok], hhold⟩

end Union

end Nanomsg
