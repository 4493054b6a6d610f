import Nanomsg.Lib.Refinement
import Nanomsg.Utils.Union

/-!
# Strings in place and in chunks

A string of at most 31 bytes can be in a chunkref or in a chunk. Some chunkrefs
are made from one that has it, by moving, copying and trimming, and asked for their
bytes at any time; what is shared is not trimmed. Whichever of the two it is, the
answers are those of a string whose first bytes are dropped (`inline_refines`,
`chunk_refines`), as long as the distance of the chunk from the start of its block
can be told in 32 bits.
-/

namespace Nanomsg

open Function Transition Window

/-- A call of a function of `chunkref.c`, the chunkrefs being numbered. -/
inductive RefCall
  | mv (dst src : ℕ)
  | cp (dst src : ℕ)
  | trim (r : ℕ) (n : UInt64)
  /-- Reading `n` bytes at `nn_chunkref_data`. -/
  | data (r n : ℕ)

/-- The chunkrefs in use, and the bytes that they all have. -/
structure Contents where
  live : List ℕ
  bytes : List UInt8

namespace Contents

/-- What is moved from is no longer in use. -/
def spec : Spec Contents RefCall (List UInt8) where
  step
    | t, .mv dst src => (⟨dst :: t.live.filter (· ≠ src), t.bytes⟩, [])
    | t, .cp dst _ => (⟨dst :: t.live, t.bytes⟩, [])
    | t, .trim _ n => (⟨t.live, t.bytes.drop n.toNat⟩, [])
    | t, .data _ n => (t, t.bytes.take n)

/-- A chunkref is in use, no more is trimmed or read than there is, and what is trimmed
    is not shared. -/
def Allowed (t : Contents) : RefCall → Prop
  | .mv dst src => src ∈ t.live ∧ dst ≠ src
  | .cp dst src => src ∈ t.live ∧ dst ≠ src
  | .trim r n => r ∈ t.live ∧ n.toNat ≤ t.bytes.length ∧ ∀ r' ∈ t.live, r' = r
  | .data r n => r ∈ t.live ∧ n ≤ t.bytes.length

end Contents

/-- The chunks, and the chunkrefs as bytes. -/
structure Refs where
  chunks : Chunks
  ref : ℕ → Union

namespace Refs

open Contents Chunks

/-- Making a call. -/
def program : Program Refs RefCall (List UInt8) Fault where
  exec
    | w, .mv dst src => do
      let u ← Union.mv (w.ref dst) (w.ref src)
      pure ({ w with ref := update w.ref dst u }, [])
    | w, .cp dst src => do
      let (h, u) ← Union.cp w.chunks (w.ref dst) (w.ref src)
      pure (⟨h, update w.ref dst u⟩, [])
    | w, .trim r n => do
      let (h, u) ← (w.ref r).trim w.chunks n
      pure (⟨h, update w.ref r u⟩, [])
    | w, .data r n => do
      let bytes ← (w.ref r).data w.chunks n
      pure (w, bytes)

/-- All of the chunkrefs `live` are `c`. -/
def All (w : Refs) (c : Chunkref) (live : List ℕ) : Prop := ∀ r ∈ live, (w.ref r).Holds c

/-- The bytes are in the chunkrefs. -/
def Inline (w : Refs) (t : Contents) : Prop :=
  ∃ short, w.All (.inplace t.bytes short) t.live

/-- A usable handle of a chunk that has these bytes, all of which can be trimmed. -/
structure Has (h : Chunks) (p : ChunkPtr) (bytes : List UInt8) : Prop where
  short : bytes.length < 32
  usable : h.Usable p (UInt64.ofNat bytes.length)
  read : h.read p bytes.length = .ok bytes
  near : p.off + bytes.length - 8 < UInt32.size - 1

/-- The bytes are in a chunk. -/
def InChunk (w : Refs) (t : Contents) : Prop :=
  ∃ p, Has w.chunks p t.bytes ∧ w.All (.chunk p) t.live

variable {w : Refs} {c : Chunkref} {live : List ℕ} {t : Contents}

/-! ### Moving, copying and reading -/

/-- Writing to one chunkref. -/
theorem all_update {dst : ℕ} {u : Union} (ha : ∀ r ∈ live, r ≠ dst → (w.ref r).Holds c)
    (hu : u.Holds c) (h : Chunks) : Refs.All ⟨h, update w.ref dst u⟩ c live := by
  intro r hr
  dsimp only
  by_cases he : r = dst
  · rwa [he, update_self]
  · rw [update_of_ne he]
    exact ha r hr he

theorem All.mv (ha : w.All c live) (dst : ℕ) {src : ℕ} (hs : src ∈ live) :
    ∃ w', program.exec w (.mv dst src) = .ok (w', []) ∧ w'.chunks = w.chunks ∧
      w'.All c (dst :: live.filter (· ≠ src)) := by
  obtain ⟨u, hu, hc⟩ := Union.mv_holds (w.ref dst) (ha src hs)
  have hx : program.exec w (.mv dst src) = .ok ({ w with ref := update w.ref dst u }, []) := by
    simp only [program, hu, ok_bind, pure_eq_ok]
  -- What is moved from is not looked at any more, nor is what was in `dst`.
  refine ⟨_, hx, rfl, all_update (fun r hr he => ?_) hc w.chunks⟩
  exact ha r (List.mem_filter.1 ((List.mem_cons.1 hr).resolve_left he)).1

theorem All.cp (ha : w.All c live) (dst : ℕ) {src : ℕ} (hs : src ∈ live) :
    ∃ w', program.exec w (.cp dst src) = .ok (w', []) ∧ w'.chunks = (c.cp w.chunks).1 ∧
      w'.All c (dst :: live) := by
  obtain ⟨u, hu, hc⟩ := Union.cp_holds (h := w.chunks) (w.ref dst) (ha src hs)
  have hx : program.exec w (.cp dst src) =
      .ok (⟨(c.cp w.chunks).1, update w.ref dst u⟩, []) := by
    simp only [program, hu, ok_bind, pure_eq_ok]
  -- Only the references of the chunk are counted up.
  have hcp : (c.cp w.chunks).2 = c := by cases c <;> rfl
  rw [hcp] at hc
  exact ⟨_, hx, rfl,
    all_update (fun r hr he => ha r ((List.mem_cons.1 hr).resolve_left he)) hc _⟩

/-- Trimming what is not shared. -/
theorem All.trim (ha : w.All c live) {r : ℕ} {n : UInt64} (hr : r ∈ live)
    (hone : ∀ r' ∈ live, r' = r) {h' : Chunks} {c' : Chunkref}
    (ht : c.trim w.chunks n = .ok (h', c')) :
    ∃ w', program.exec w (.trim r n) = .ok (w', []) ∧ w'.chunks = h' ∧ w'.All c' live := by
  obtain ⟨u, hu, hc⟩ := Union.trim_holds (ha r hr) ht
  have hx : program.exec w (.trim r n) = .ok (⟨h', update w.ref r u⟩, []) := by
    simp only [program, hu, ok_bind, pure_eq_ok]
  exact ⟨_, hx, rfl, all_update (fun r' hr' he => absurd (hone r' hr') he) hc h'⟩

theorem All.data (ha : w.All c live) {r n : ℕ} (hr : r ∈ live) {bytes : List UInt8}
    (hd : c.data w.chunks n = .ok bytes) : program.exec w (.data r n) = .ok (w, bytes) := by
  simp only [program, Union.data_holds (ha r hr) hd, ok_bind, pure_eq_ok]

/-! ### In place -/

theorem inline_refines : program.Refines spec Allowed Inline := by
  rintro w t i ⟨short, ha⟩ hi
  cases i with
  | mv dst src =>
    obtain ⟨w', hx, -, ha'⟩ := ha.mv dst hi.1
    exact ⟨w', hx, short, ha'⟩
  | cp dst src =>
    obtain ⟨w', hx, -, ha'⟩ := ha.cp dst hi.1
    exact ⟨w', hx, short, ha'⟩
  | trim r n =>
    obtain ⟨hr, hn, hone⟩ := hi
    have ht : (Chunkref.inplace t.bytes short).trim w.chunks n = .ok (w.chunks,
        .inplace (t.bytes.drop n.toNat) (by rw [List.length_drop]; omega)) := by
      simp only [Chunkref.trim, hn, decide_true, nnAssert_true, ok_bind, pure_eq_ok]
    obtain ⟨w', hx, -, ha'⟩ := ha.trim hr hone ht
    exact ⟨w', hx, _, ha'⟩
  | data r n =>
    have hd : (Chunkref.inplace t.bytes short).data w.chunks n = .ok (t.bytes.take n) :=
      if_pos hi.2
    exact ⟨w, ha.data hi.1 hd, short, ha⟩

/-! ### In a chunk -/

section

variable {h h' : Chunks} {p : ChunkPtr} {bytes : List UInt8}

theorem length_eq {n : ℕ} (hn : n < 32) : (UInt64.ofNat n).toNat = n := by
  rw [UInt64.toNat_ofNat']
  omega

/-- What has been written is read. -/
theorem read_write (hw : h.write p bytes = .ok h') : h'.read p bytes.length = .ok bytes := by
  obtain ⟨⟨⟩, hl, hx⟩ := bind_eq_ok.1 hw
  dsimp only at hx
  split at hx
  · next hr =>
    simp only [pure_eq_ok, Except.ok.injEq] at hx
    subst hx
    have hlive : (h.set p.chunk { h.chunk p.chunk with
        bytes := overwrite (h.chunk p.chunk).bytes p.off bytes }).live p.chunk = .ok () :=
      live_set hl (live_iff.1 hl).2
    refine (read_ok hlive ?_).trans ?_
    · rw [set_chunk_self, length_overwrite hr]
      exact hr
    · rw [set_chunk_self, window_overwrite hr]
  · simp at hx

theorem Has.addref (hh : Has h p bytes) (k : UInt32) : Has (h.addref p k) p bytes := by
  have hread := (hh.usable.addref k).read
  rw [length_eq hh.short, addref_bytes] at hread
  refine ⟨hh.short, hh.usable.addref k, hread.trans ?_, hh.near⟩
  rw [← hh.read, read_ok hh.usable.live (length_eq hh.short ▸ hh.usable.room)]

/-- Trimming drops the first bytes. -/
theorem Has.trim (hh : Has h p bytes) {n : UInt64} (hn : n.toNat ≤ bytes.length) :
    ∃ h' p', h.trim p n = .ok (h', p') ∧ Has h' p' (bytes.drop n.toNat) := by
  have hshort := hh.short
  have hlen := length_eq hshort
  have hle : n ≤ UInt64.ofNat bytes.length := UInt64.le_iff_toNat_le.2 (by rwa [hlen])
  have hnear : p.off + n.toNat - 8 < UInt32.size - 1 := by
    have := hh.near
    omega
  have hrest : UInt64.ofNat bytes.length - n = UInt64.ofNat (bytes.drop n.toNat).length := by
    refine UInt64.toNat_inj.1 ?_
    rw [UInt64.toNat_sub_of_le _ _ hle, hlen, List.length_drop, length_eq (by omega)]
  -- The handle returned is shorter, and nearer to the limit by as much.
  refine ⟨_, _, trim_ok hh.usable hle hnear, ?_, ?_, ?_, ?_⟩
  · rw [List.length_drop]
    omega
  · exact hrest ▸ hh.usable.trim hle hnear
  · have hread := read_trim hh.usable hle hnear bytes (by rw [hlen]; exact hh.read)
    rwa [hrest, length_eq (by rw [List.length_drop]; omega)] at hread
  · have := hh.near
    rw [List.length_drop]
    dsimp only
    omega

end

theorem chunk_refines : program.Refines spec Allowed InChunk := by
  rintro w t i ⟨p, hh, ha⟩ hi
  cases i with
  | mv dst src =>
    obtain ⟨w', hx, hchunks, ha'⟩ := ha.mv dst hi.1
    exact ⟨w', hx, p, hchunks.symm ▸ hh, ha'⟩
  | cp dst src =>
    obtain ⟨w', hx, hchunks, ha'⟩ := ha.cp dst hi.1
    exact ⟨w', hx, p, hchunks.symm ▸ hh.addref 1, ha'⟩
  | trim r n =>
    obtain ⟨hr, hn, hone⟩ := hi
    obtain ⟨h', p', ht, hh'⟩ := hh.trim hn
    have ht' : (Chunkref.chunk p).trim w.chunks n = .ok (h', .chunk p') := by
      simp only [Chunkref.trim, ht, ok_bind, pure_eq_ok]
    obtain ⟨w', hx, hchunks, ha'⟩ := ha.trim hr hone ht'
    exact ⟨w', hx, p', hchunks.symm ▸ hh', ha'⟩
  | data r n =>
    have hd : (Chunkref.chunk p).data w.chunks n = .ok (t.bytes.take n) := by
      have hroom := hh.usable.room
      have hread := hh.read
      rw [length_eq hh.short] at hroom
      rw [read_ok hh.usable.live hroom] at hread
      have hle : n ≤ t.bytes.length := hi.2
      rw [Chunkref.data, read_ok hh.usable.live (by omega), ← Except.ok.inj hread, window, window,
        List.take_take, Nat.min_eq_left hle]
    exact ⟨w, ha.data hi.1 hd, p, hh, ha⟩

/-! ### The same bytes -/

/-- The chunkref `r` has the bytes `bytes` in both of two states, in the first one in place: at
    `nn_chunkref_data`, and in the chunk that `nn_chunkref_getchunk` returns. -/
structure Agree (v w : Refs) (r : ℕ) (bytes : List UInt8) (memory : ℕ → UInt8) : Prop where
  tag : ∃ b, (v.ref r).tag = .ok b ∧ b.toNat = bytes.length ∧ b.toNat ≤ 31
  inline_data : (v.ref r).data v.chunks bytes.length = .ok bytes
  chunk_data : (w.ref r).data w.chunks bytes.length = .ok bytes
  inline_getchunk : ∃ h u p, (v.ref r).getchunk v.chunks (some memory) = .ok (h, u, p) ∧
    h.read p bytes.length = .ok bytes
  chunk_getchunk : ∃ h u p, (w.ref r).getchunk w.chunks (some memory) = .ok (h, u, p) ∧
    h.read p bytes.length = .ok bytes

/-- The bytes in place are copied to the new chunk. -/
theorem read_getchunk {h : Chunks} {bytes : List UInt8} {short : bytes.length < 32}
    (memory : ℕ → UInt8) : ∃ h' c p,
      (Chunkref.inplace bytes short).getchunk h (some memory) = .ok (h', c, p) ∧
      h'.read p bytes.length = .ok bytes := by
  obtain ⟨h', hx, -⟩ := Chunkref.getchunk_inplace (h := h) short memory
  refine ⟨h', _, _, hx, ?_⟩
  obtain ⟨_, -, hx⟩ := bind_eq_ok.1 hx
  obtain ⟨⟨g, p⟩, -, hx⟩ := bind_eq_ok.1 hx
  obtain ⟨g', hw, hx⟩ := bind_eq_ok.1 hx
  simp only [pure_eq_ok, Except.ok.injEq, Prod.mk.injEq] at hx
  obtain ⟨rfl, -, rfl⟩ := hx
  exact read_write hw

theorem agree {v : Refs} {r : ℕ} (hv : Inline v t) (hw : InChunk w t) (hr : r ∈ t.live)
    (memory : ℕ → UInt8) : Agree v w r t.bytes memory := by
  obtain ⟨short, hv⟩ := hv
  obtain ⟨p, hh, hw⟩ := hw
  have hv := hv r hr
  have hw := hw r hr
  -- The tag is the number of bytes, which is never `0xff`.
  obtain ⟨ht, -, hnat⟩ := hv.tag_inplace
  refine ⟨⟨_, ht, hnat, by omega⟩, Union.data_holds hv ?_, Union.data_holds hw hh.read, ?_, ?_⟩
  · rw [Chunkref.data, if_pos (Nat.le_refl _), List.take_length]
  · obtain ⟨h', c, q, hx, hread⟩ : ∃ h' c q,
        (Chunkref.inplace t.bytes short).getchunk v.chunks (some memory) = .ok (h', c, q) ∧
          h'.read q t.bytes.length = .ok t.bytes := read_getchunk memory
    obtain ⟨u, hu, -⟩ := Union.getchunk_holds hv hx
    exact ⟨h', u, q, hu, hread⟩
  · have hx : (Chunkref.chunk p).getchunk w.chunks (some memory) =
        .ok (w.chunks, .chunk p, p) := rfl
    obtain ⟨u, hu, -⟩ := Union.getchunk_holds hw hx
    exact ⟨_, u, p, hu, hh.read⟩

/-- Whatever is done with a string in place, and with one in a chunk, gives the same bytes. -/
theorem run_same {v : Refs} {r : ℕ} {bytes : List UInt8} {short : bytes.length < 32}
    (hv : (v.ref r).Holds (.inplace bytes short)) {p : ChunkPtr} (hh : Has w.chunks p bytes)
    {u : Union} (hu : (w.ref r).initChunk p = .ok u) {is : List RefCall}
    (hi : spec.Allowed Allowed ⟨[r], bytes⟩ is) (memory : ℕ → UInt8) :
    ∃ v' w' t answers, spec.run ⟨[r], bytes⟩ is = (t, answers) ∧
      program.run v is = .ok (v', answers) ∧
      program.run ⟨w.chunks, update w.ref r u⟩ is = .ok (w', answers) ∧
      ∀ r' ∈ t.live, Agree v' w' r' t.bytes memory := by
  obtain ⟨u', hu', hc⟩ := (w.ref r).initChunk_holds p
  obtain rfl : u' = u := Except.ok.inj (hu'.symm.trans hu)
  have hinline : Inline v ⟨[r], bytes⟩ := ⟨short, fun r' hr' => List.mem_singleton.1 hr' ▸ hv⟩
  -- `nn_chunkref_init_chunk` makes the chunkref `r` one with the chunk.
  have hchunk : InChunk ⟨w.chunks, update w.ref r u'⟩ ⟨[r], bytes⟩ :=
    ⟨p, hh, all_update (fun r' hr' he => absurd (List.mem_singleton.1 hr') he) hc _⟩
  obtain ⟨v', hxv, hv'⟩ := inline_refines.run hinline hi
  obtain ⟨w', hxw, hw'⟩ := chunk_refines.run hchunk hi
  exact ⟨v', w', _, _, rfl, hxv, hxw, fun r' hr' => agree hv' hw' hr' memory⟩

/-- Three bytes in place, and a chunk with them. -/
def three : Refs where
  chunks := ⟨fun _ => ⟨1, 3, header 0 ++ [1, 2, 3], 0⟩, 1⟩
  ref _ := ⟨[3, 1, 2, 3].map .byte ++ List.replicate 28 (.byte 0), by decide⟩

theorem three_holds : (three.ref 0).Holds (.inplace [1, 2, 3] (by decide)) := by
  unfold Union.Holds
  decide

theorem three_allowed :
    spec.Allowed Allowed ⟨[0], [1, 2, 3]⟩ [.mv 1 0, .trim 1 1, .cp 0 1, .data 0 2] :=
  ⟨⟨by decide, by decide⟩, ⟨by decide, by decide, by decide⟩, ⟨by decide, by decide⟩,
    ⟨by decide, by decide⟩, trivial⟩

theorem run_same_three : ∃ v' w' t answers,
    spec.run ⟨[0], [1, 2, 3]⟩ [.mv 1 0, .trim 1 1, .cp 0 1, .data 0 2] = (t, answers) ∧
      program.run three [.mv 1 0, .trim 1 1, .cp 0 1, .data 0 2] = .ok (v', answers) ∧
      program.run ⟨three.chunks, update three.ref 0 ⟨[.byte 0xff, .byte 1, .byte 2, .byte 3] ++
        List.replicate 4 (.byte 0) ++ pointer ⟨0, 8⟩ ++ List.replicate 16 (.byte 0), by decide⟩⟩
          [.mv 1 0, .trim 1 1, .cp 0 1, .data 0 2] = .ok (w', answers) ∧
      ∀ r' ∈ t.live, Agree v' w' r' t.bytes fun _ => 0 :=
  run_same three_holds (p := ⟨0, 8⟩)
    ⟨by decide, usable_iff.2 ⟨by decide, by decide, by decide, by decide, by decide, by decide⟩,
      by decide, by decide⟩ rfl three_allowed _

/-- The byte 7 in place, and a chunk with it of which `d` bytes have been trimmed. -/
def away (d : ℕ) : Refs where
  chunks := ⟨fun _ => ⟨1, 1, List.replicate d 0 ++ header d ++ [7], 0⟩, 1⟩
  ref _ := ⟨[1, 7].map .byte ++ List.replicate 30 (.byte 0), by decide⟩

theorem away_window (d n k : ℕ) :
    window (List.replicate d (0 : UInt8) ++ header d ++ [7]) (d + k) n =
      window (header d ++ [7]) k n := by
  rw [List.append_assoc, window, ← List.drop_drop, List.drop_left' List.length_replicate, window]

theorem away_usable {d : ℕ} (hd : d < UInt32.size - 1) : (away d).chunks.Usable ⟨0, d + 8⟩ 1 := by
  refine usable_iff.2 ⟨rfl, Nat.le_add_left 8 d, hd, ?_, rfl, ?_⟩
  · exact (away_window d 8 0).trans (List.take_left' (length_header d))
  · simp [away]

theorem away_read (d : ℕ) : (away d).chunks.read ⟨0, d + 8⟩ 1 = .ok [7] := by
  rw [Chunks.read_ok rfl (by simp [away])]
  refine congrArg _ ((away_window d 1 8).trans ?_)
  rw [window, List.drop_left' (length_header d)]
  rfl

/-- It is not so that all chunks do: one that is as far from the start of its block as
    can be is not trimmed. -/
theorem not_run_same : ¬ ∀ (v w : Refs) (r : ℕ) (bytes : List UInt8) (short : bytes.length < 32)
    (p : ChunkPtr) (u : Union) (is : List RefCall) (memory : ℕ → UInt8),
    (v.ref r).Holds (.inplace bytes short) → w.chunks.Usable p (UInt64.ofNat bytes.length) →
    w.chunks.read p bytes.length = .ok bytes → (w.ref r).initChunk p = .ok u →
    spec.Allowed Allowed ⟨[r], bytes⟩ is →
    ∃ v' w' t answers, spec.run ⟨[r], bytes⟩ is = (t, answers) ∧
      program.run v is = .ok (v', answers) ∧
      program.run ⟨w.chunks, update w.ref r u⟩ is = .ok (w', answers) ∧
      ∀ r' ∈ t.live, Agree v' w' r' t.bytes memory := by
  intro h
  obtain ⟨d, hd⟩ : ∃ d, d = UInt32.size - 2 := ⟨_, rfl⟩
  obtain ⟨u, hu, hc⟩ := ((away d).ref 0).initChunk_holds ⟨0, d + 8⟩
  have husable : (away d).chunks.Usable ⟨0, d + 8⟩ 1 := away_usable (by rw [hd]; decide)
  obtain ⟨-, w', -, _, -, -, hx, -⟩ := h (away d) (away d) 0 [7] (by decide) _ u [.trim 0 1]
    (fun _ => 0) rfl husable (away_read d) hu ⟨⟨by decide, by decide, by decide⟩, trivial⟩
  -- The next distance would be `UINT32_MAX`.
  have htrim : (away d).chunks.trim ⟨0, d + 8⟩ 1 = .error .assertion :=
    trim_far husable (UInt64.le_refl 1) (by rw [hd]; decide)
  have herror : program.exec ⟨(away d).chunks, update (away d).ref 0 u⟩ (.trim 0 1) =
      .error .assertion := by
    simp only [program, Union.trim, update_self, hc.tag_chunk, ok_bind, if_true,
      Union.getChunk_ok hc.2, htrim]
    rfl
  simp [Program.run, herror] at hx

end Refs

end Nanomsg
