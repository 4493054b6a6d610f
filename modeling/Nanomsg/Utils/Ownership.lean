import Nanomsg.Lib.Refcount
import Nanomsg.Lib.System
import Nanomsg.Utils.Chunkref

/-!
# Who owns a chunk

Runs of the functions of `chunkref.c` and `msg.c`, on any number of chunkrefs, by
themselves or as the parts of messages, and of raw pointers to chunks. A chunk is
held by the chunkrefs with a pointer to it and by the raw pointers handed out by
`nn_chunkref_getchunk` and not yet released; its counter should be their number,
and it should be freed once, when there are none left (`Owners.Right`).

`right_iff_safe`: so it is if and only if `nn_chunkref_getchunk` is only called for
bytes in place, as it leaves a pointer where it is, and only those chunks are given
up whose handle leads back to them, which is not so of those made by
`nn_chunk_alloc`.
-/

namespace Nanomsg

open Function Transition Refcount

namespace Chunks

/-! ### Counting the references to chunks -/

/-- Where there are `count i` references to the chunk `i`, counters are right. -/
structure Accounts (h : Chunks) (count : ℕ → ℕ) : Prop where
  settled : ∀ i, i < h.allocs →
    Settled (h.chunk i).freed (h.chunk i).refcount.toNat (count i)
  unallocated : ∀ i, h.allocs ≤ i → count i = 0

namespace Accounts

variable {h : Chunks} {count count' : ℕ → ℕ} {p : ChunkPtr}

theorem lt (ha : Accounts h count) {i : ℕ} (hi : 0 < count i) : i < h.allocs := by
  by_contra hn
  have := ha.unallocated i (by omega)
  omega

/-- Some more references to a chunk that is referred to. -/
theorem addref (ha : Accounts h count) {n : UInt32} (hp : 0 < count p.chunk)
    (hroom : (h.chunk p.chunk).refcount.toNat + n.toNat < 2 ^ 32)
    (hc : ∀ i, count' i = count i + if p.chunk = i then n.toNat else 0) :
    Accounts (h.addref p n) count' where
  settled i hi := by
    have hs := ha.settled i hi
    rw [hc]
    by_cases hpi : p.chunk = i
    · subst hpi
      have hn : ((h.chunk p.chunk).refcount + n).toNat =
          (h.chunk p.chunk).refcount.toNat + n.toNat := by
        rw [UInt32.toNat_add, Nat.mod_eq_of_lt hroom]
      simpa [Chunks.addref, set, hn] using hs.acquire hp
    · simpa [Chunks.addref, set, update_of_ne (Ne.symm hpi), hpi] using hs
  unallocated i hi := by
    have hne : p.chunk ≠ i := by
      have := ha.lt hp
      have : h.allocs ≤ i := hi
      omega
    rw [hc, if_neg hne, ha.unallocated i hi]

/-- A new chunk, with one reference. -/
theorem newChunk (ha : Accounts h count) {h' : Chunks} {c : Chunk} (hr : c.refcount = 1)
    (hf : c.freed = 0) (hh : h' = ⟨update h.chunk h.allocs c, h.allocs + 1⟩)
    (hc : ∀ i, count' i = count i + if h.allocs = i then 1 else 0) : Accounts h' count' where
  settled i hi := by
    subst hh
    rw [hc]
    by_cases hi' : h.allocs = i
    · subst hi'
      simpa [hr, hf, ha.unallocated h.allocs le_rfl] using Settled.new
    · have hlt : i < h.allocs := by
        have : i < h.allocs + 1 := hi
        omega
      simpa [update_of_ne (Ne.symm hi'), hi'] using ha.settled i hlt
  unallocated i hi := by
    subst hh
    have hi : h.allocs + 1 ≤ i := hi
    rw [hc, if_neg (by omega), ha.unallocated i (by omega)]

/-- What has been read before a handle can be written. -/
theorem write_of_getl {tag : UInt32} (hg : h.getl p 4 = .ok tag) (c : Chunk)
    (hb : c.bytes = (h.chunk p.chunk).bytes) (hf : c.freed = (h.chunk p.chunk).freed)
    (val : UInt32) : ∃ bytes, (h.set p.chunk c).putl p 4 val =
      .ok (h.set p.chunk { c with bytes := bytes }) := by
  obtain ⟨_, hl, hg⟩ := bind_eq_ok.1 hg
  split at hg
  · rename_i hle
    split at hg
    · rename_i hd
      have hlen : p.off ≤ (h.chunk p.chunk).bytes.length := by
        have := congrArg List.length hd
        simp only [List.length_drop, List.length_cons] at this
        omega
      have hl' : (h.set p.chunk c).live p.chunk = .ok () := by
        simpa [live, set, hf] using hl
      refine ⟨c.bytes.take (p.off - 4) ++ Nanomsg.putl val ++ c.bytes.drop (p.off - 4 + 4), ?_⟩
      rw [putl, if_pos hle, write, hl', ok_bind, if_pos (by simp [set, hb]; omega)]
      simp [set]
    · cases hg
  · cases hg

/-- A reference given up. The chunk is freed with the last one. -/
theorem free (ha : Accounts h count) (hg : h.getptr p = .ok p.chunk)
    (hc : ∀ i, count i = count' i + if p.chunk = i then 1 else 0) :
    ∃ h', h.free p = .ok h' ∧ Accounts h' count' := by
  have hp : 0 < count p.chunk := by
    rw [hc, if_pos rfl]
    omega
  have hs := ha.settled p.chunk (ha.lt hp)
  have hcount : count p.chunk = count' p.chunk + 1 := by rw [hc, if_pos rfl]
  rw [hcount] at hs
  -- Nothing changes for the other chunks.
  have hrest : ∀ c : Chunk, Settled c.freed c.refcount.toNat (count' p.chunk) →
      Accounts (h.set p.chunk c) count' := by
    refine fun c hsc => ⟨fun i hi => ?_, fun i hi => ?_⟩
    · by_cases hi' : p.chunk = i
      · subst hi'
        simpa [set] using hsc
      · have := ha.settled i hi
        rw [hc, if_neg hi'] at this
        simpa [set, update_of_ne (Ne.symm hi')] using this
    · have := ha.unallocated i hi
      rw [hc] at this
      omega
  obtain ⟨tag, htag, -⟩ := bind_eq_ok.1 hg
  by_cases hlast : (h.chunk p.chunk).refcount ≤ 1
  · obtain ⟨bytes, hput⟩ := write_of_getl htag
      { h.chunk p.chunk with refcount := (h.chunk p.chunk).refcount - 1 } rfl rfl
      chunkTagDeallocated
    refine ⟨_, by simp only [Chunks.free, hg, ok_bind, if_pos hlast, hput]; rfl, ?_⟩
    have := hrest { h.chunk p.chunk with
      refcount := (h.chunk p.chunk).refcount - 1
      bytes := bytes
      freed := (h.chunk p.chunk).freed + 1 } (hs.free (UInt32.le_iff_toNat_le.1 hlast) _)
    simpa [ffn, set] using this
  · refine ⟨_, by simp only [Chunks.free, hg, ok_bind, if_neg hlast]; rfl, hrest _ ?_⟩
    have hlt : ¬ (h.chunk p.chunk).refcount.toNat ≤ 1 := fun hle =>
      hlast (UInt32.le_iff_toNat_le.2 hle)
    have hsub : ((h.chunk p.chunk).refcount - 1).toNat = (h.chunk p.chunk).refcount.toNat - 1 :=
      UInt32.toNat_sub_of_le _ _ (UInt32.le_iff_toNat_le.2 (show 1 ≤ _ by omega))
    rw [hsub]
    exact hs.release hlt

end Accounts

end Chunks

/-- The parts of a message. -/
inductive MsgPart
  | sphdr
  | hdrs
  | body
  deriving DecidableEq, Repr

/-- Where a chunkref is: by itself, or in a message. -/
inductive Loc
  | ref (i : ℕ)
  | part (m : ℕ) (k : MsgPart)
  deriving DecidableEq, Repr

/-- A chunkref in use, with the number of copies that `nn_chunkref_bulkcopy_start` has
    announced and that have not been made yet. -/
structure Held where
  ref : Chunkref
  owed : ℕ

/-- The chunkrefs and the raw pointers in use. -/
structure Owners where
  chunks : Chunks
  refs : Cells Loc Held
  raws : Cells ℕ ChunkPtr

/-- A call of a function of `chunkref.c`, on places not in use where it initializes
    one. Memory can be had, and holds anything. -/
inductive OwnAction
  | init (l : Loc) (size : UInt64) (bytes memory : ℕ → UInt8)
  /-- The raw pointer is given to the chunkref. -/
  | initChunk (l : Loc) (j : ℕ)
  | cp (dst src : Loc)
  /-- The source is not used any more until it is initialized again. -/
  | mv (dst src : Loc)
  /-- `*dst = *src`. The source is not used any more. -/
  | assign (dst src : Loc)
  | bulkcopyStart (l : Loc) (copies : UInt32)
  | bulkcopyCp (dst src : Loc)
  /-- The pointer returned is the raw pointer `j`. -/
  | getchunk (l : Loc) (j : ℕ) (memory : ℕ → UInt8)
  | term (l : Loc)
  /-- `nn_chunk_free` of a raw pointer. -/
  | free (j : ℕ)

/-- How often a chunkref refers to the chunk `i`, with the copies announced. -/
def Held.share (x : Held) (i : ℕ) : ℕ :=
  match x.ref with
  | .chunk p => if p.chunk = i then 1 + x.owed else 0
  | .inplace _ _ => 0

/-- How often a raw pointer does. -/
def ChunkPtr.share (p : ChunkPtr) (i : ℕ) : ℕ := if p.chunk = i then 1 else 0

namespace Owners

/-- How often the chunk `i` is referred to. -/
def count (w : Owners) (i : ℕ) : ℕ := w.refs.count Held.share i + w.raws.count ChunkPtr.share i

/-- The counter of the chunk that `x` refers to, if any, can count `n` more. -/
def Room (h : Chunks) (x : Held) (n : ℕ) : Prop :=
  match x.ref with
  | .chunk p => (h.chunk p.chunk).refcount.toNat + n < 2 ^ 32
  | .inplace _ _ => True

/-- What is used is in use, and what is initialized is not. The copies announced
    are made before anything else is done with the chunkref. -/
def enabled (w : Owners) : OwnAction → Prop
  | .init l size _ _ => l ∉ w.refs.live ∧ ¬ chunkHdrsize + size < chunkHdrsize
  | .initChunk l j => l ∉ w.refs.live ∧ j ∈ w.raws.live
  | .cp dst src => dst ∉ w.refs.live ∧ src ∈ w.refs.live ∧ Room w.chunks (w.refs.val src) 1
  | .mv dst src | .assign dst src =>
    dst ∉ w.refs.live ∧ src ∈ w.refs.live ∧ (w.refs.val src).owed = 0
  | .bulkcopyStart l copies =>
    l ∈ w.refs.live ∧ (w.refs.val l).owed = 0 ∧ Room w.chunks (w.refs.val l) copies.toNat
  | .bulkcopyCp dst src => dst ∉ w.refs.live ∧ src ∈ w.refs.live ∧ 0 < (w.refs.val src).owed
  | .getchunk l j _ => l ∈ w.refs.live ∧ (w.refs.val l).owed = 0 ∧ j ∉ w.raws.live
  | .term l => l ∈ w.refs.live ∧ (w.refs.val l).owed = 0
  | .free j => j ∈ w.raws.live

/-- Making a call. -/
def exec (w : Owners) : OwnAction → Except Fault Owners
  | .init l size bytes memory => do
    let (h, r) ← Chunkref.init w.chunks size bytes (some memory)
    pure { w with chunks := h, refs := w.refs.put l ⟨r, 0⟩ }
  | .initChunk l j =>
    .ok { w with refs := w.refs.put l ⟨Chunkref.initChunk (w.raws.val j), 0⟩, raws := w.raws.drop j }
  | .cp dst src =>
    let (h, r) := (w.refs.val src).ref.cp w.chunks
    .ok { w with chunks := h, refs := w.refs.put dst ⟨r, 0⟩ }
  | .mv dst src =>
    .ok { w with refs := (w.refs.drop src).put dst ⟨(w.refs.val src).ref.mv, 0⟩ }
  | .assign dst src =>
    .ok { w with refs := (w.refs.drop src).put dst ⟨(w.refs.val src).ref, 0⟩ }
  | .bulkcopyStart l copies =>
    let r := (w.refs.val l).ref
    .ok { w with
      chunks := r.bulkcopyStart w.chunks copies
      refs := (w.refs.drop l).put l ⟨r, copies.toNat⟩ }
  | .bulkcopyCp dst src =>
    let x := w.refs.val src
    .ok { w with
      refs := ((w.refs.drop src).put src ⟨x.ref, x.owed - 1⟩).put dst ⟨x.ref.bulkcopyCp, 0⟩ }
  | .getchunk l j memory => do
    let (h, r, p) ← (w.refs.val l).ref.getchunk w.chunks (some memory)
    pure { chunks := h, refs := (w.refs.drop l).put l ⟨r, 0⟩, raws := w.raws.put j p }
  | .term l => do
    let h ← (w.refs.val l).ref.term w.chunks
    pure { w with chunks := h, refs := w.refs.drop l }
  | .free j => do
    let h ← w.chunks.free (w.raws.val j)
    pure { w with chunks := h, raws := w.raws.drop j }

/-- The runs of calls, from a state in which the counters are right. -/
def system : System Owners OwnAction Fault where
  init w := w.chunks.Accounts w.count
  enabled := enabled
  exec := exec

/-! ## What should hold -/

/-- Counters are right, and chunks are freed once, when nothing refers to them. -/
structure Right (w : Owners) : Prop where
  refcount : ∀ i, i < w.chunks.allocs → 0 < w.count i →
    (w.chunks.chunk i).refcount.toNat = w.count i
  freed : ∀ i, i < w.chunks.allocs →
    (w.chunks.chunk i).freed = if w.count i = 0 then 1 else 0

/-- `nn_chunkref_getchunk` leaves nothing in the chunkref. -/
def Emptied (_ : Owners) (a : OwnAction) (w' : Owners) : Prop :=
  match a with
  | .getchunk l _ _ => ∃ hs, (w'.refs.val l).ref = .inplace [] hs
  | _ => True

/-- The handle `p` leads back to its chunk. -/
def Leads (h : Chunks) (p : ChunkPtr) : Prop := h.getptr p = .ok p.chunk

/-- Only bytes in place are taken out, and only handles that lead back given up. -/
def Safe (w : Owners) : OwnAction → Prop
  | .getchunk l _ _ => ∀ p, (w.refs.val l).ref ≠ .chunk p
  | .term l => ∀ p, (w.refs.val l).ref = .chunk p → Leads w.chunks p
  | .free j => Leads w.chunks (w.raws.val j)
  | _ => True

/-- A handle that can be given up leads back. -/
theorem leads_of_free {h h' : Chunks} {p : ChunkPtr} (hx : h.free p = .ok h') : Leads h p := by
  obtain ⟨i, hg, -⟩ := bind_eq_ok.1 hx
  rw [Leads, hg, Chunks.eq_of_getptr hg]

theorem right_of_accounts {w : Owners} (h : w.chunks.Accounts w.count) : Right w := by
  refine ⟨fun i hi hc => ((h.settled i hi).alive hc).2, fun i hi => ?_⟩
  rcases h.settled i hi with ⟨hf, -, hc⟩ | ⟨hf, hc⟩
  · rw [hf, if_neg (by omega)]
  · rw [hf, if_pos hc]

/-! ## One call -/

variable {w : Owners} {l src dst : Loc} {j : ℕ}

@[simp] theorem share_inplace {bytes : List UInt8} {hs : bytes.length < 32} {n i : ℕ} :
    Held.share ⟨.inplace bytes hs, n⟩ i = 0 := rfl

@[simp] theorem share_chunk {p : ChunkPtr} {n i : ℕ} :
    Held.share ⟨.chunk p, n⟩ i = if p.chunk = i then 1 + n else 0 := rfl

/-- The chunk of a chunkref in use is referred to. -/
theorem count_pos {x : Held} {p : ChunkPtr} (hl : l ∈ w.refs.live) (hx : w.refs.val l = x)
    (hp : x.ref = .chunk p) : 0 < w.count p.chunk := by
  have := Cells.share_le_count Held.share p.chunk hl
  simp only [hx, Held.share, hp, if_true] at this
  rw [count]
  omega

/-- A call that changes no counter, and after which every chunk is referred to as
    often as before. -/
theorem accounts_of_count (w' : Owners) (h : w.chunks.Accounts w.count)
    (hh : w'.chunks = w.chunks) (hc : ∀ i, w'.count i = w.count i) :
    w'.chunks.Accounts w'.count := by
  rw [hh, show w'.count = w.count from funext hc]
  exact h

/-- The chunkref `src` goes to `dst`. -/
def move (w : Owners) (dst src : Loc) : Owners :=
  { w with refs := (w.refs.drop src).put dst ⟨(w.refs.val src).ref, 0⟩ }

theorem accounts_move (h : w.chunks.Accounts w.count) (hd : dst ∉ w.refs.live)
    (hs : src ∈ w.refs.live) (ho : (w.refs.val src).owed = 0) :
    (w.move dst src).chunks.Accounts (w.move dst src).count := by
  refine accounts_of_count _ h rfl fun i => ?_
  have hput := Cells.count_put (c := w.refs.drop src) (a := ⟨(w.refs.val src).ref, 0⟩) Held.share i
    (fun hm => hd (Cells.mem_drop.1 hm).2)
  have hdrop := Cells.count_drop Held.share i hs
  have hshare : Held.share ⟨(w.refs.val src).ref, 0⟩ i = (w.refs.val src).share i := by
    simp [Held.share, ho]
  simp only [count, move]
  omega

theorem accounts_init {size : UInt64} {bytes memory : ℕ → UInt8} (h : w.chunks.Accounts w.count)
    (hl : l ∉ w.refs.live) (hs : ¬ chunkHdrsize + size < chunkHdrsize) :
    ∃ w', exec w (.init l size bytes memory) = .ok w' ∧ w'.chunks.Accounts w'.count := by
  by_cases hn : size < chunkrefMax
  · have hshort : ((List.range size.toNat).map bytes).length < 32 := by
      rw [List.length_map, List.length_range]
      exact UInt64.lt_iff_toNat_lt.1 hn
    have hx : exec w (.init l size bytes memory) =
        .ok { w with refs := w.refs.put l ⟨.inplace _ hshort, 0⟩ } := by
      simp only [exec, Chunkref.init, dif_pos hn, ok_bind]
      rfl
    refine ⟨_, hx, accounts_of_count _ h rfl fun i => ?_⟩
    simp [count, Cells.count_put _ _ hl]
  · obtain ⟨h', hinit, c, hr, hf, hh⟩ := Chunkref.init_chunk
      (h := w.chunks) bytes memory hn hs
    have hx : exec w (.init l size bytes memory) =
        .ok { w with chunks := h', refs := w.refs.put l ⟨.chunk ⟨w.chunks.allocs, 8⟩, 0⟩ } := by
      simp only [exec, hinit, ok_bind]
      rfl
    refine ⟨_, hx, h.newChunk hr hf hh fun i => ?_⟩
    simp only [count, Cells.count_put _ _ hl, share_chunk, Nat.add_zero]
    omega

theorem accounts_initChunk (h : w.chunks.Accounts w.count) (hl : l ∉ w.refs.live)
    (hj : j ∈ w.raws.live) :
    ∃ w', exec w (.initChunk l j) = .ok w' ∧ w'.chunks.Accounts w'.count := by
  refine ⟨_, rfl, accounts_of_count _ h rfl fun i => ?_⟩
  have hdrop := Cells.count_drop ChunkPtr.share i hj
  simp only [count, Cells.count_put _ _ hl, Chunkref.initChunk, share_chunk, Nat.add_zero]
  simp only [ChunkPtr.share] at hdrop
  omega

theorem accounts_cp (h : w.chunks.Accounts w.count) (hd : dst ∉ w.refs.live)
    (hs : src ∈ w.refs.live) (hroom : Room w.chunks (w.refs.val src) 1) :
    ∃ w', exec w (.cp dst src) = .ok w' ∧ w'.chunks.Accounts w'.count := by
  rcases hx : w.refs.val src with ⟨r, n⟩
  cases r with
  | inplace bytes hb =>
    refine ⟨{ w with refs := w.refs.put dst ⟨.inplace bytes hb, 0⟩ }, by simp [exec, hx, Chunkref.cp],
      accounts_of_count _ h rfl fun i => ?_⟩
    simp [count, Cells.count_put _ _ hd]
  | chunk p =>
    refine ⟨{ w with chunks := w.chunks.addref p 1, refs := w.refs.put dst ⟨.chunk p, 0⟩ },
      by simp [exec, hx, Chunkref.cp], h.addref (n := 1) (count_pos hs hx rfl) ?_ fun i => ?_⟩
    · simpa [Room, hx] using hroom
    · simp only [count, Cells.count_put _ _ hd, share_chunk, Nat.add_zero,
        show (1 : UInt32).toNat = 1 from rfl]
      omega

theorem accounts_bulkcopyStart {copies : UInt32} (h : w.chunks.Accounts w.count)
    (hl : l ∈ w.refs.live) (ho : (w.refs.val l).owed = 0)
    (hroom : Room w.chunks (w.refs.val l) copies.toNat) :
    ∃ w', exec w (.bulkcopyStart l copies) = .ok w' ∧ w'.chunks.Accounts w'.count := by
  have hmem : l ∉ (w.refs.drop l).live := by simp
  rcases hx : w.refs.val l with ⟨r, n⟩
  obtain rfl : n = 0 := by simpa [hx] using ho
  have hdrop := fun i => Cells.count_drop Held.share i hl
  rw [hx] at hdrop
  cases r with
  | inplace bytes hb =>
    refine ⟨{ w with refs := (w.refs.drop l).put l ⟨.inplace bytes hb, copies.toNat⟩ },
      by simp [exec, hx, Chunkref.bulkcopyStart], accounts_of_count _ h rfl fun i => ?_⟩
    simp only [count, Cells.count_put _ _ hmem, share_inplace, ← hdrop i]
  | chunk p =>
    refine ⟨{ w with
      chunks := w.chunks.addref p copies
      refs := (w.refs.drop l).put l ⟨.chunk p, copies.toNat⟩ },
      by simp [exec, hx, Chunkref.bulkcopyStart], h.addref (count_pos hl hx rfl) ?_ fun i => ?_⟩
    · simpa [Room, hx] using hroom
    · simp only [count, Cells.count_put _ _ hmem, ← hdrop i, share_chunk]
      split <;> omega

theorem accounts_bulkcopyCp (h : w.chunks.Accounts w.count) (hd : dst ∉ w.refs.live)
    (hs : src ∈ w.refs.live) (ho : 0 < (w.refs.val src).owed) :
    ∃ w', exec w (.bulkcopyCp dst src) = .ok w' ∧ w'.chunks.Accounts w'.count := by
  refine ⟨_, rfl, accounts_of_count _ h rfl fun i => ?_⟩
  have hmem : src ∉ (w.refs.drop src).live := by simp
  have hmem' : dst ∉ ((w.refs.drop src).put src
      ⟨(w.refs.val src).ref, (w.refs.val src).owed - 1⟩).live := by
    simp only [Cells.mem_put, Cells.mem_drop, not_or, not_and]
    exact ⟨fun he => hd (he ▸ hs), fun _ => hd⟩
  simp only [count, Cells.count_put _ _ hmem', Cells.count_put _ _ hmem, Chunkref.bulkcopyCp,
    ← Cells.count_drop Held.share i hs]
  rcases hx : w.refs.val src with ⟨r, n⟩
  replace ho : 0 < n := by simpa [hx] using ho
  cases r with
  | inplace bytes hb => simp
  | chunk p =>
    simp only [share_chunk]
    split <;> omega

theorem accounts_getchunk {memory : ℕ → UInt8} (h : w.chunks.Accounts w.count)
    (hl : l ∈ w.refs.live) (hj : j ∉ w.raws.live) (hs : Safe w (.getchunk l j memory)) :
    ∃ w', exec w (.getchunk l j memory) = .ok w' ∧ Emptied w (.getchunk l j memory) w' ∧
      w'.chunks.Accounts w'.count := by
  have hmem : l ∉ (w.refs.drop l).live := by simp
  have hdrop := fun i => Cells.count_drop Held.share i hl
  rcases hx : w.refs.val l with ⟨r, n⟩
  rw [hx] at hdrop
  cases r with
  | chunk p => exact absurd (by rw [hx]) (hs p)
  | inplace bytes hb =>
    obtain ⟨h', hget, c, hc, hf, hh⟩ := Chunkref.getchunk_inplace (h := w.chunks) hb memory
    have hexec : exec w (.getchunk l j memory) = .ok
        { chunks := h'
          refs := (w.refs.drop l).put l ⟨.inplace [] (by decide), 0⟩
          raws := w.raws.put j ⟨w.chunks.allocs, 8⟩ } := by
      simp only [exec, hx, hget, ok_bind]
      rfl
    refine ⟨_, hexec, ⟨by decide, by simp⟩, h.newChunk hc hf hh fun i => ?_⟩
    simp only [count, Cells.count_put _ _ hmem, Cells.count_put _ _ hj, ← hdrop i, share_inplace,
      ChunkPtr.share]
    omega

theorem accounts_term (h : w.chunks.Accounts w.count) (hl : l ∈ w.refs.live)
    (ho : (w.refs.val l).owed = 0) (hs : Safe w (.term l)) :
    ∃ w', exec w (.term l) = .ok w' ∧ w'.chunks.Accounts w'.count := by
  have hdrop := fun i => Cells.count_drop Held.share i hl
  rcases hx : w.refs.val l with ⟨r, n⟩
  obtain rfl : n = 0 := by simpa [hx] using ho
  rw [hx] at hdrop
  cases r with
  | inplace bytes hb =>
    have hexec : exec w (.term l) = .ok { w with refs := w.refs.drop l } := by
      simp only [exec, hx, Chunkref.term, ok_bind]
      rfl
    refine ⟨_, hexec, accounts_of_count _ h rfl fun i => ?_⟩
    simp [count, ← hdrop i]
  | chunk p =>
    obtain ⟨h', hfree, ha⟩ : ∃ h', w.chunks.free p = .ok h' ∧
        h'.Accounts (count { w with refs := w.refs.drop l }) := h.free
      (hs p (by rw [hx])) fun i => by
        simp only [count, ← hdrop i, share_chunk, Nat.add_zero]
        omega
    have hexec : exec w (.term l) = .ok { w with chunks := h', refs := w.refs.drop l } := by
      simp only [exec, hx, Chunkref.term, hfree, ok_bind]
      rfl
    exact ⟨_, hexec, ha⟩

theorem accounts_free (h : w.chunks.Accounts w.count) (hj : j ∈ w.raws.live) (hs : Safe w (.free j)) :
    ∃ w', exec w (.free j) = .ok w' ∧ w'.chunks.Accounts w'.count := by
  obtain ⟨h', hfree, ha⟩ : ∃ h', w.chunks.free (w.raws.val j) = .ok h' ∧
      h'.Accounts (count { w with raws := w.raws.drop j }) := h.free hs fun i => by
    simp only [count, ← Cells.count_drop ChunkPtr.share i hj, ChunkPtr.share]
    omega
  have hexec : exec w (.free j) = .ok { w with chunks := h', raws := w.raws.drop j } := by
    simp only [exec, hfree, ok_bind]
    rfl
  exact ⟨_, hexec, ha⟩

/-- A safe call keeps the counters right. -/
theorem accounts_exec {a : OwnAction} (h : w.chunks.Accounts w.count) (he : enabled w a)
    (hs : Safe w a) :
    ∃ w', exec w a = .ok w' ∧ Emptied w a w' ∧ w'.chunks.Accounts w'.count := by
  have hplain : (∀ l j memory, a ≠ .getchunk l j memory) →
      (∃ w', exec w a = .ok w' ∧ w'.chunks.Accounts w'.count) →
      ∃ w', exec w a = .ok w' ∧ Emptied w a w' ∧ w'.chunks.Accounts w'.count := by
    rintro hne ⟨w', hx, ha⟩
    refine ⟨w', hx, ?_, ha⟩
    cases a with
    | getchunk l j memory => exact absurd rfl (hne l j memory)
    | _ => trivial
  cases a with
  | init l size bytes memory => exact hplain (by simp) (accounts_init h he.1 he.2)
  | initChunk l j => exact hplain (by simp) (accounts_initChunk h he.1 he.2)
  | cp dst src => exact hplain (by simp) (accounts_cp h he.1 he.2.1 he.2.2)
  | mv dst src | assign dst src =>
    exact hplain (by simp) ⟨w.move dst src, rfl, accounts_move h he.1 he.2.1 he.2.2⟩
  | bulkcopyStart l copies => exact hplain (by simp) (accounts_bulkcopyStart h he.1 he.2.1 he.2.2)
  | bulkcopyCp dst src => exact hplain (by simp) (accounts_bulkcopyCp h he.1 he.2.1 he.2.2)
  | getchunk l j memory => exact accounts_getchunk h he.1 he.2.2 hs
  | term l => exact hplain (by simp) (accounts_term h he.1 he.2 hs)
  | free j => exact hplain (by simp) (accounts_free h he hs)

/-- A call that is right is safe. -/
theorem safe_of_exec {w' : Owners} {a : OwnAction} (hx : exec w a = .ok w') (hq : Emptied w a w') :
    Safe w a := by
  cases a with
  | getchunk l j memory =>
    intro p hp
    obtain ⟨hs, hq⟩ := hq
    simp only [exec, hp, Chunkref.getchunk, ok_bind, pure_eq_ok, Except.ok.injEq] at hx
    simp [← hx] at hq
  | term l =>
    intro p hp
    obtain ⟨h, hx, -⟩ := bind_eq_ok.1 hx
    rw [hp] at hx
    exact leads_of_free hx
  | free j =>
    obtain ⟨h, hx, -⟩ := bind_eq_ok.1 hx
    exact leads_of_free hx
  | _ => trivial

/-! ## Runs -/

/-- An operation on chunkrefs or on messages. -/
inductive Operation
  | ref (a : OwnAction)
  | msgInit (m : ℕ) (size : UInt64) (bytes memory : ℕ → UInt8)
  | msgInitChunk (m j : ℕ) (bytes memory : ℕ → UInt8)
  | msgTerm (m : ℕ)
  | msgMv (dst src : ℕ)
  | msgCp (dst src : ℕ)
  | msgBulkcopyStart (m : ℕ) (copies : UInt32)
  | msgBulkcopyCp (dst src : ℕ)
  /-- `nn_msg_replace_body` by the chunkref `l`. -/
  | msgReplaceBody (m : ℕ) (l : Loc)

/-- The three parts of a message, in turn. -/
def parts (f : MsgPart → OwnAction) : List OwnAction := [f .sphdr, f .hdrs, f .body]

/-- The calls that an operation consists of. -/
def Operation.calls : Operation → List OwnAction
  | ref a => [a]
  | msgInit m size bytes memory => [.init (.part m .sphdr) 0 bytes memory,
      .init (.part m .hdrs) 0 bytes memory, .init (.part m .body) size bytes memory]
  | msgInitChunk m j bytes memory => [.init (.part m .sphdr) 0 bytes memory,
      .init (.part m .hdrs) 0 bytes memory, .initChunk (.part m .body) j]
  | msgTerm m => parts fun k => .term (.part m k)
  | msgMv dst src => parts fun k => .mv (.part dst k) (.part src k)
  | msgCp dst src => parts fun k => .cp (.part dst k) (.part src k)
  | msgBulkcopyStart m copies => parts fun k => .bulkcopyStart (.part m k) copies
  | msgBulkcopyCp dst src => parts fun k => .bulkcopyCp (.part dst k) (.part src k)
  | msgReplaceBody m l => [.term (.part m .body), .assign (.part m .body) l]

/-! ### Messages -/

/-- The message in the place `m`. -/
def msg (w : Owners) (m : ℕ) : Msg :=
  ⟨(w.refs.val (.part m .sphdr)).ref, (w.refs.val (.part m .hdrs)).ref,
    (w.refs.val (.part m .body)).ref⟩

/-- The message `x` is put in the place `m`. -/
def putMsg (refs : Cells Loc Held) (m : ℕ) (x : Msg) : Cells Loc Held :=
  let refs := refs.put (.part m .sphdr) ⟨x.sphdr, 0⟩
  let refs := refs.put (.part m .hdrs) ⟨x.hdrs, 0⟩
  refs.put (.part m .body) ⟨x.body, 0⟩

/-- The place `m` is not in use any more. -/
def dropMsg (refs : Cells Loc Held) (m : ℕ) : Cells Loc Held :=
  let refs := refs.drop (.part m .sphdr)
  let refs := refs.drop (.part m .hdrs)
  refs.drop (.part m .body)

theorem put_drop_comm {c : Cells Loc Held} {k l : Loc} {x : Held} (h : k ≠ l) :
    (c.put k x).drop l = (c.drop l).put k x := by
  simp [Cells.put, Cells.drop, Finset.erase_insert_of_ne h]

theorem calls_msgInit {m : ℕ} {size : UInt64} {bytes memory : ℕ → UInt8} :
    (Operation.msgInit m size bytes memory).calls.foldlM exec w = (do
      let (h, x) ← Msg.init w.chunks size bytes (some memory)
      pure { w with chunks := h, refs := putMsg w.refs m x }) := by
  simp [Operation.calls, exec, Msg.init, putMsg]

theorem calls_msgInitChunk {m j : ℕ} {bytes memory : ℕ → UInt8} :
    (Operation.msgInitChunk m j bytes memory).calls.foldlM exec w = (do
      let (h, x) ← Msg.initChunk w.chunks (w.raws.val j) bytes (some memory)
      pure { w with chunks := h, refs := putMsg w.refs m x, raws := w.raws.drop j }) := by
  simp [Operation.calls, exec, Msg.initChunk, putMsg]

theorem calls_msgTerm {m : ℕ} : (Operation.msgTerm m).calls.foldlM exec w = (do
    let h ← (w.msg m).term w.chunks
    pure { w with chunks := h, refs := dropMsg w.refs m }) := by
  simp [Operation.calls, parts, exec, Msg.term, dropMsg, msg]

theorem calls_msgCp {dst src : ℕ} : (Operation.msgCp dst src).calls.foldlM exec w =
    .ok { w with
      chunks := ((w.msg src).cp w.chunks).1
      refs := putMsg w.refs dst ((w.msg src).cp w.chunks).2 } := by
  simp [Operation.calls, parts, exec, Msg.cp, putMsg, msg]

theorem calls_msgMv {dst src : ℕ} : (Operation.msgMv dst src).calls.foldlM exec w =
    .ok { w with refs := putMsg (dropMsg w.refs src) dst (w.msg src).mv } := by
  simp [Operation.calls, parts, exec, Msg.mv, putMsg, dropMsg, msg, put_drop_comm]

theorem calls_msgReplaceBody {m : ℕ} {l : Loc} :
    (Operation.msgReplaceBody m l).calls.foldlM exec w = (do
    let (h, x) ← (w.msg m).replaceBody w.chunks (w.refs.val l).ref
    let refs := (w.refs.drop (.part m .body)).drop l
    pure { w with chunks := h, refs := refs.put (.part m .body) ⟨x.body, 0⟩ }) := by
  simp [Operation.calls, exec, Msg.replaceBody, msg]

theorem calls_msgBulkcopyStart {m : ℕ} {n : UInt32} :
    ((Operation.msgBulkcopyStart m n).calls.foldlM exec w).map chunks =
      .ok ((w.msg m).bulkcopyStart w.chunks n) := by
  simp [Operation.calls, parts, exec, Msg.bulkcopyStart, msg, Except.map]

theorem calls_msgBulkcopyCp {dst src : ℕ} :
    ((Operation.msgBulkcopyCp dst src).calls.foldlM exec w).map (fun w => w.msg dst) =
      .ok (w.msg src).bulkcopyCp := by
  simp [Operation.calls, parts, exec, Msg.bulkcopyCp, msg, Except.map]

/-! ### Every run -/

/-- In every run of operations, counters are right, `nn_chunkref_getchunk` leaves
    nothing, and nothing fails, if and only if every call is safe. -/
theorem right_iff_safe {w : Owners} (h : w.chunks.Accounts w.count) (ops : List Operation) :
    system.Correct Right Emptied w (ops.flatMap Operation.calls) ↔
      system.Meets Safe w (ops.flatMap Operation.calls) :=
  System.correct_iff_meets (I := fun w => w.chunks.Accounts w.count)
    (fun _ => right_of_accounts) (fun _ _ => accounts_exec)
    (fun _ _ _ _ _ hx hq _ => safe_of_exec hx hq) h _

/-- A chunk of one byte, held by one chunkref. -/
def single : Owners where
  chunks := ⟨fun _ => ⟨1, 1, putl 0 ++ putl chunkTag ++ [7], 0⟩, 1⟩
  refs := ⟨{.ref 0}, fun _ => ⟨.chunk ⟨0, 8⟩, 0⟩⟩
  raws := ⟨∅, fun _ => ⟨0, 0⟩⟩

theorem accounts_single : single.chunks.Accounts single.count where
  settled i hi := by
    obtain rfl : i = 0 := by
      have : i < 1 := hi
      omega
    exact .inl ⟨rfl, rfl, by decide⟩
  unallocated i hi := by
    have hi : 1 ≤ i := hi
    simp [single, count, Cells.count, show ¬ 0 = i by omega]

theorem right_iff_safe_single :
    system.Correct Right Emptied single
        ([.ref (.cp (.ref 1) (.ref 0)), .ref (.term (.ref 0))].flatMap Operation.calls) ↔
      system.Meets Safe single
        ([.ref (.cp (.ref 1) (.ref 0)), .ref (.term (.ref 0))].flatMap Operation.calls) :=
  right_iff_safe accounts_single _

/-- A chunk taken out of a chunkref is still in it. -/
theorem getchunk_not_right : ∃ w, exec single (.getchunk (.ref 0) 0 fun _ => 0) = .ok w ∧
    ¬ Emptied single (.getchunk (.ref 0) 0 fun _ => 0) w ∧ ¬ Right w := by
  refine ⟨_, rfl, fun ⟨_, he⟩ => ?_, fun h => ?_⟩
  · have hr : (single.refs.val (.ref 0)).ref = .chunk ⟨0, 8⟩ := rfl
    simp [hr] at he
  · exact absurd (h.refcount 0 (by decide) (by decide)) (by decide)

end Owners

end Nanomsg
