import Mathlib.Data.BitVec
import Mathlib.Data.Int.CardIntervalMod
import Mathlib.Data.Nat.Prime.Basic
import Mathlib.SetTheory.Cardinal.Finite

/-!
# Mixing words

Steps that mix the bits of a word and can be undone: the exclusive or with a part of itself shifted
down (`xorShift_injective`), and the product with an odd word (`mul_injective`).

A composition of such steps permutes the words, and then the remainder by a power of 2 is the same
for equally many of them (`card_mod_eq`).
-/

namespace Mixing

open Function

variable {w : ℕ}

/-- A word that is itself shifted down is 0. -/
theorem eq_zero_of_ushiftRight_eq {s : ℕ} (hs : 0 < s) {x : BitVec w} (h : x >>> s = x) : x = 0 := by
  have hdiv : x.toNat / 2 ^ s = x.toNat := by
    rw [← Nat.shiftRight_eq_div_pow, ← BitVec.toNat_ushiftRight, h]
  have hzero : x.toNat = 0 := by
    by_contra hne
    exact (Nat.div_lt_self (Nat.pos_of_ne_zero hne) (Nat.one_lt_two_pow hs.ne')).ne hdiv
  exact BitVec.eq_of_toNat_eq (by simpa using hzero)

/-- What two words differ in is not lost: it would be itself shifted down. -/
theorem xorShift_injective {s : ℕ} (hs : 0 < s) : Injective fun x : BitVec w => x ^^^ x >>> s := by
  intro x y hxy
  have hdiff : (x ^^^ y) >>> s = x ^^^ y := by
    have h : x ^^^ x >>> s = y ^^^ y >>> s := hxy
    rw [BitVec.ushiftRight_xor_distrib]
    calc x >>> s ^^^ y >>> s
        = x ^^^ (x ^^^ x >>> s) ^^^ y >>> s := by rw [← BitVec.xor_assoc, BitVec.xor_self,
          BitVec.zero_xor]
      _ = x ^^^ y := by rw [h, BitVec.xor_assoc, BitVec.xor_assoc, BitVec.xor_self, BitVec.xor_zero]
  exact BitVec.xor_eq_zero_iff.1 (eq_zero_of_ushiftRight_eq hs hdiff)

theorem mul_injective {c : BitVec w} (hc : Odd c.toNat) : Injective fun x : BitVec w => x * c := by
  intro x y hxy
  have hmod : x.toNat * c.toNat ≡ y.toNat * c.toNat [MOD 2 ^ w] := by
    simpa [Nat.ModEq] using congrArg BitVec.toNat hxy
  have hcop : (2 ^ w).gcd c.toNat = 1 := (Nat.coprime_two_left.2 hc).pow_left w
  exact BitVec.eq_of_toNat_eq
    ((hmod.cancel_right_of_coprime hcop).eq_of_lt_of_lt x.isLt y.isLt)

/-- The sum with a part shifted up is a product. -/
theorem add_shiftLeft (x : BitVec w) (s : ℕ) : x + x <<< s = x * (1 + BitVec.twoPow w s) := by
  rw [BitVec.shiftLeft_eq_mul_twoPow]
  ring

/-- As many words go to one remainder as to another. -/
theorem card_mod_eq {β : Type*} (e : β ≃ Fin (2 ^ w)) {f : β → β} (hf : Injective f) {m i : ℕ}
    (hm : m ≤ w) (hi : i < 2 ^ m) : Nat.card { x // (e (f x) : ℕ) % 2 ^ m = i } = 2 ^ (w - m) := by
  have : Finite β := Finite.of_equiv _ e.symm
  have hperm : { x // (e (f x) : ℕ) % 2 ^ m = i } ≃ { k : Fin (2 ^ w) // (k : ℕ) % 2 ^ m = i } :=
    ((Equiv.ofBijective f (Finite.injective_iff_bijective.1 hf)).trans e).subtypeEquiv
      fun _ => Iff.rfl
  have hnat : { k : Fin (2 ^ w) // (k : ℕ) % 2 ^ m = i } ≃ { k // k < 2 ^ w ∧ k ≡ i [MOD 2 ^ m] } :=
    (Fin.equivSubtype.subtypeEquiv fun k => by simp [Nat.ModEq, Nat.mod_eq_of_lt hi]).trans
      (Equiv.subtypeSubtypeEquivSubtypeInter (· < 2 ^ w) (· ≡ i [MOD 2 ^ m]))
  have hcount : Nat.count (· ≡ i [MOD 2 ^ m]) (2 ^ w) = 2 ^ (w - m) := by
    have hdvd : 2 ^ w % 2 ^ m = 0 := Nat.mod_eq_zero_of_dvd (Nat.pow_dvd_pow 2 hm)
    rw [Nat.count_modEq_card _ (by positivity), hdvd, Nat.pow_div hm (by decide)]
    simp
  rw [Nat.card_congr (hperm.trans hnat), ← hcount, Nat.count_eq_card_filter_range]
  exact Nat.subtype_card _ fun k => by simp

end Mixing
