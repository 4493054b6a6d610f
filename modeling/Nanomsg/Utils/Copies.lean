import Nanomsg.Utils.Chunkref
import Nanomsg.Utils.Trim

/-!
# Copies

A chunkref with a chunk is copied, and then trimmed any number of times. The copy
should not notice: its handle should stay usable, with the same bytes and the same
length (`Independent`).

Both have the same block, with one size for all of its handles, and nothing asks
whether there are other references to it, as `nn_chunk_realloc` does. The copy is
independent only if all that is trimmed is nothing (`independent_iff`).
-/

namespace Nanomsg

namespace Chunkref

open Chunks

/-- A way of copying. -/
inductive Copying
  | cp
  /-- `nn_chunkref_bulkcopy_start` and one of the copies then made. -/
  | bulkcopy (copies : UInt32)

/-- The chunks after copying, and the copy. -/
def Copying.exec (h : Chunks) (self : Chunkref) : Copying → Chunks × Chunkref
  | cp => self.cp h
  | bulkcopy copies => (self.bulkcopyStart h copies, self.bulkcopyCp)

/-- `nn_chunkref_trim`, again and again. -/
def trims : Chunks → Chunkref → List UInt64 → Except Fault (Chunks × Chunkref)
  | h, self, [] => .ok (h, self)
  | h, self, n :: ns => do
    let (h, self) ← self.trim h n
    trims h self ns

/-- The chunk of `d` can be used as before, when `h` has become `h'`. -/
structure Independent (h h' : Chunks) (d : Chunkref) (len : UInt64) : Prop where
  usable : ∃ p, d = chunk p ∧ h'.Usable p len
  data : d.data h' len.toNat = d.data h len.toNat

variable {h h' : Chunks} {p : ChunkPtr} {len : UInt64}

/-- Copying gives the handle itself. -/
theorem Copying.exec_chunk (how : Copying) (hu : h.Usable p len) :
    (how.exec h (chunk p)).2 = chunk p ∧ (how.exec h (chunk p)).1.Usable p len := by
  cases how with
  | cp => exact ⟨rfl, hu.addref 1⟩
  | bulkcopy copies => exact ⟨rfl, hu.addref copies⟩

/-- Trimming nothing, any number of times. -/
theorem trims_zero (hu : h.Usable p len) {ns : List UInt64} (hns : ∀ n ∈ ns, n = 0) :
    trims h (chunk p) ns = .ok (h, chunk p) := by
  induction ns with
  | nil => rfl
  | cons n ns ih =>
    obtain rfl := hns n List.mem_cons_self
    simp only [trims, Chunkref.trim, trim_zero hu, ok_bind, pure_eq_ok]
    exact ih fun n hn => hns n (List.mem_cons_of_mem _ hn)

/-- The size is smaller by what has been trimmed. -/
theorem size_of_trims {c' : Chunkref} {ns : List UInt64}
    (hx : trims h (chunk p) ns = .ok (h', c')) :
    (h'.chunk p.chunk).size.toNat + (ns.map UInt64.toNat).sum = (h.chunk p.chunk).size.toNat := by
  induction ns generalizing h p with
  | nil =>
    simp only [trims, Except.ok.injEq, Prod.mk.injEq] at hx
    simp [hx.1]
  | cons n ns ih =>
    simp only [trims, Chunkref.trim, bind_eq_ok, Prod.exists] at hx
    obtain ⟨g, c, ⟨g', p', ht, hc⟩, hx⟩ := hx
    simp only [pure_eq_ok, Except.ok.injEq, Prod.mk.injEq] at hc
    obtain ⟨rfl, rfl⟩ := hc
    obtain ⟨hp', hn, hsize⟩ := size_of_trim ht
    -- The first trimming, and then the others.
    have hrest := ih hx
    have hle := UInt64.le_iff_toNat_le.1 hn
    rw [hp', hsize, UInt64.toNat_sub_of_le _ _ hn] at hrest
    rw [List.map_cons, List.sum_cons]
    omega

/-- A copy is independent of the trimming exactly if nothing is trimmed. -/
theorem independent_iff (hu : h.Usable p len) (how : Copying) (ns : List UInt64) :
    (∃ h' c', trims (how.exec h (chunk p)).1 (chunk p) ns = .ok (h', c') ∧
      Independent (how.exec h (chunk p)).1 h' (how.exec h (chunk p)).2 len) ↔
    ∀ n ∈ ns, n = 0 := by
  obtain ⟨hd, hu'⟩ := how.exec_chunk hu
  generalize (how.exec h (chunk p)).1 = g at hu' ⊢
  rw [hd]
  constructor
  · -- The length that is reported for the copy is the size of the chunk, which all trimmings make smaller.
    rintro ⟨h', c', hx, ⟨q, hq, husable⟩, -⟩
    obtain rfl := Chunkref.chunk.inj hq
    have hsize := size_of_trims hx
    obtain ⟨-, -, -, -, hs, -⟩ := usable_iff.1 hu'
    obtain ⟨-, -, -, -, hs', -⟩ := usable_iff.1 husable
    rw [hs, hs'] at hsize
    have hsum : (ns.map UInt64.toNat).sum = 0 := by omega
    intro n hn
    exact UInt64.toNat_inj.1
      (List.sum_eq_zero_iff_forall_eq_nat.1 hsum _ (List.mem_map_of_mem hn))
  · intro hns
    exact ⟨g, chunk p, trims_zero hu' hns, ⟨p, rfl, hu'⟩, rfl⟩

/-! ### A chunk of 16 bytes -/

/-- A chunk of 16 bytes that has not been trimmed. -/
def sixteen : Chunks where
  chunk _ := ⟨1, 16, header 0 ++ (List.range 16).map UInt8.ofNat, 0⟩
  allocs := 1

theorem sixteen_usable : sixteen.Usable ⟨0, 8⟩ 16 :=
  usable_iff.2 ⟨by decide, by decide, by decide, by decide, by decide, by decide⟩

theorem independent_iff_sixteen :
    (∃ h' c', trims (Copying.cp.exec sixteen (chunk ⟨0, 8⟩)).1 (chunk ⟨0, 8⟩) [0] = .ok (h', c') ∧
      Independent (Copying.cp.exec sixteen (chunk ⟨0, 8⟩)).1 h'
        (Copying.cp.exec sixteen (chunk ⟨0, 8⟩)).2 16) ↔ ∀ n ∈ [(0 : UInt64)], n = 0 :=
  independent_iff sixteen_usable .cp [0]

/-- It is not so that a copy is independent: after 8 bytes have been trimmed it is of 8
    bytes and starts with a header, and after one it cannot even be asked for its size. -/
theorem trim_disturbs_copy :
    (∃ h' c', trims (Copying.cp.exec sixteen (chunk ⟨0, 8⟩)).1 (chunk ⟨0, 8⟩) [8] = .ok (h', c') ∧
      h'.size ⟨0, 8⟩ = .ok 8 ∧ (chunk ⟨0, 8⟩).data h' 8 = .ok (header 8)) ∧
    ∃ h' c', trims (Copying.cp.exec sixteen (chunk ⟨0, 8⟩)).1 (chunk ⟨0, 8⟩) [1] = .ok (h', c') ∧
      h'.size ⟨0, 8⟩ = .error .assertion :=
  ⟨⟨_, _, rfl, by decide, by decide⟩, _, _, rfl, by decide⟩

end Chunkref

end Nanomsg
