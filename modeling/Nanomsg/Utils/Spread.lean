import Nanomsg.Lib.Mixing
import Nanomsg.Utils.Hash

/-!
# The slots of a hash

What `nn_hash_key` makes of a key is a permutation of the keys (`hashMixed_injective`), which gives
every slot equally many (`card_hashMixed_mod`). But the function returns 0 instead: every key is in
the first slot, of however many.
-/

namespace Nanomsg

open Function Intrusive

variable {ι : Type}

/-! ## What is computed -/

/-- The five steps, as words of any width take them. -/
theorem toBitVec_hashMixed : UInt32.toBitVec ∘ hashMixed =
    (fun x : BitVec 32 => x ^^^ x >>> 15) ∘ (fun x : BitVec 32 => x * 0x27d4eb2d#32) ∘
      (fun x : BitVec 32 => x ^^^ x >>> 4) ∘ (fun x : BitVec 32 => x * (1 + BitVec.twoPow 32 3)) ∘
      (fun x : BitVec 32 => x ^^^ 61#32) ∘ (fun x : BitVec 32 => x ^^^ x >>> 16) ∘
      UInt32.toBitVec := by
  funext key
  have hfirst : key.toBitVec ^^^ 61#32 ^^^ key.toBitVec >>> 16 =
      key.toBitVec ^^^ key.toBitVec >>> 16 ^^^ 61#32 := by
    rw [BitVec.xor_assoc, BitVec.xor_comm 61#32, ← BitVec.xor_assoc]
  simp only [comp_apply, ← hfirst, ← Mixing.add_shiftLeft]
  rfl

theorem hashMixed_injective : Injective hashMixed := by
  refine Injective.of_comp (f := UInt32.toBitVec) ?_
  rw [toBitVec_hashMixed]
  have hxor : Injective fun x : BitVec 32 => x ^^^ 61#32 := fun _ _ => (BitVec.xor_left_inj _).1
  have hword : Injective UInt32.toBitVec := fun _ _ => UInt32.toBitVec_inj.1
  exact (Mixing.xorShift_injective (by decide)).comp <|
    (Mixing.mul_injective (by decide)).comp <| (Mixing.xorShift_injective (by decide)).comp <|
    (Mixing.mul_injective (by decide)).comp <| hxor.comp <|
    (Mixing.xorShift_injective (by decide)).comp hword

/-- The words, in order. -/
def uint32Equiv : UInt32 ≃ Fin (2 ^ 32) := ⟨UInt32.toFin, UInt32.ofFin, fun _ => rfl, fun _ => rfl⟩

/-- Every slot would get as many of the keys. -/
theorem card_hashMixed_mod {m : ℕ} (hm : m ≤ 31) {slots : UInt32} (hslots : slots.toNat = 2 ^ m)
    {i : ℕ} (hi : i < 2 ^ m) :
    Nat.card { key // (hashMixed key % slots).toNat = i } = 2 ^ (32 - m) := by
  have hmod : ∀ key, (hashMixed key % slots).toNat = (uint32Equiv (hashMixed key) : ℕ) % 2 ^ m :=
    fun key => by
      rw [UInt32.toNat_mod, hslots]
      rfl
  simp only [hmod]
  exact Mixing.card_mod_eq uint32Equiv hashMixed_injective (by omega) hi

/-! ## What is returned -/

theorem hashKey_eq (key : UInt32) : hashKey key = 0 := rfl

namespace Hash

theorem slot_eq_zero (self : Hash ι) (key : UInt32) : self.slot key = 0 := by
  simp [slot, hashKey_eq]

/-- Whatever is stored, and however often the hash has grown, it is all in one list. -/
theorem Holds.all_in_first [DecidableEq ι] {self : Hash ι} {free : ι → Prop} {t : Stored ι}
    (h : Holds free self t) : ∃ xs : ℕ → List ι, Families self.list self.array xs ∧
      (∀ x, x ∈ xs 0 ↔ (self.key x, x) ∈ t) ∧ ∀ i, i ≠ 0 → xs i = [] := by
  obtain ⟨xs, hxs, hin⟩ := h.families
  refine ⟨xs, hxs, fun x => by simp [hin, slot_eq_zero], fun i hi => ?_⟩
  refine List.eq_nil_iff_forall_not_mem.2 fun x hx => ?_
  exact hi (((hin i x).1 hx).2.trans (self.slot_eq_zero _))

/-- The first slot has all keys, and another has none. -/
theorem card_slot_ne (self : Hash ι) {m : ℕ} (h5 : 5 ≤ m) (hm : m ≤ 31) (i : ℕ) :
    Nat.card { key // self.slot key = i } ≠ 2 ^ (32 - m) := by
  by_cases hi : i = 0
  · have hall : Nat.card { key // self.slot key = i } = 2 ^ 32 := by
      rw [Nat.card_congr (Equiv.subtypeUnivEquiv fun key => by rw [slot_eq_zero, hi]),
        Nat.card_congr uint32Equiv, Nat.card_fin]
    rw [hall]
    exact (Nat.pow_lt_pow_right (by decide) (by omega)).ne'
  · have hnone : Nat.card { key // self.slot key = i } = 0 := by
      rw [Nat.card_eq_zero]
      exact .inl ⟨fun key => hi (key.2.symm.trans (self.slot_eq_zero _))⟩
    rw [hnone]
    exact (Nat.two_pow_pos _).ne

end Hash

/-- No two keys are told apart, and no slot of any hash is that of as many keys as it should be. -/
theorem hashKey_not_mixing : (∀ key key', hashKey key = hashKey key') ∧
    ∀ (self : Hash ι) (m : ℕ), 5 ≤ m → m ≤ 31 → self.slots.toNat = 2 ^ m →
      (∀ i < 2 ^ m, Nat.card { key // self.slot key = i } ≠ 2 ^ (32 - m)) ∧
        ∀ key, self.slot key = 0 :=
  ⟨fun _ _ => rfl, fun self _ h5 hm _ => ⟨fun i _ => self.card_slot_ne h5 hm i, self.slot_eq_zero⟩⟩

/-- Already the keys 0 and 1 collide. -/
theorem hashKey_collides : ¬ ∀ key key' : UInt32, key ≠ key' → hashKey key ≠ hashKey key' :=
  fun h => h 0 1 (by decide) rfl

end Nanomsg
