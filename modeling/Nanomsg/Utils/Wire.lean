import Mathlib.Data.Nat.Bitwise
import Mathlib.Tactic.Common

/-!
# Numbers on the wire

`wire.c`: numbers of 32 bits as four bytes, the highest one first.

`getl_putl`: what is put is got, and `putl_getl`: what is got is what is there.
-/

namespace Nanomsg

/-- `nn_getl` of four bytes. -/
def getl (b₀ b₁ b₂ b₃ : UInt8) : UInt32 :=
  b₀.toUInt32 <<< 24 ||| b₁.toUInt32 <<< 16 ||| b₂.toUInt32 <<< 8 ||| b₃.toUInt32

/-- The bytes that `nn_putl` puts. -/
def putl (val : UInt32) : List UInt8 :=
  [(val >>> 24 &&& 0xff).toUInt8, (val >>> 16 &&& 0xff).toUInt8, (val >>> 8 &&& 0xff).toUInt8,
    (val &&& 0xff).toUInt8]

@[simp] theorem length_putl (val : UInt32) : (putl val).length = 4 := rfl

/-! ### As natural numbers -/

theorem toNat_shiftLeft {b : UInt8} {k : UInt32} (hk : k.toNat ≤ 24) :
    (b.toUInt32 <<< k).toNat = b.toNat <<< k.toNat := by
  have hb := b.toNat_lt
  have hp : 2 ^ k.toNat ≤ 2 ^ 24 := Nat.pow_le_pow_right (by decide) hk
  rw [UInt32.toNat_shiftLeft, Nat.mod_eq_of_lt (by omega : k.toNat < 32), UInt8.toNat_toUInt32]
  refine Nat.mod_eq_of_lt ?_
  rw [Nat.shiftLeft_eq]
  calc b.toNat * 2 ^ k.toNat ≤ (2 ^ 8 - 1) * 2 ^ 24 := Nat.mul_le_mul (by omega) hp
    _ < 2 ^ 32 := by decide

/-- The bytes are the digits of the number. -/
theorem toNat_getl (b₀ b₁ b₂ b₃ : UInt8) : (getl b₀ b₁ b₂ b₃).toNat =
    b₀.toNat * 2 ^ 24 + b₁.toNat * 2 ^ 16 + b₂.toNat * 2 ^ 8 + b₃.toNat := by
  have h₁ := b₁.toNat_lt
  have h₂ := b₂.toNat_lt
  have h₃ := b₃.toNat_lt
  simp only [getl, UInt32.toNat_or, UInt8.toNat_toUInt32]
  rw [toNat_shiftLeft (by decide), toNat_shiftLeft (by decide), toNat_shiftLeft (by decide)]
  simp only [show (24 : UInt32).toNat = 24 from rfl, show (16 : UInt32).toNat = 16 from rfl,
    show (8 : UInt32).toNat = 8 from rfl, Nat.or_assoc]
  rw [← Nat.shiftLeft_add_eq_or_of_lt (by omega : b₃.toNat < 2 ^ 8), Nat.shiftLeft_eq b₂.toNat,
    ← Nat.shiftLeft_add_eq_or_of_lt (by omega : b₂.toNat * 2 ^ 8 + b₃.toNat < 2 ^ 16),
    Nat.shiftLeft_eq b₁.toNat,
    ← Nat.shiftLeft_add_eq_or_of_lt
      (by omega : b₁.toNat * 2 ^ 16 + (b₂.toNat * 2 ^ 8 + b₃.toNat) < 2 ^ 24), Nat.shiftLeft_eq]
  omega

theorem toNat_byte (val : UInt32) {k : UInt32} (hk : k.toNat < 32) :
    ((val >>> k &&& 0xff).toUInt8).toNat = val.toNat / 2 ^ k.toNat % 2 ^ 8 := by
  rw [UInt32.toNat_toUInt8, UInt32.toNat_and, UInt32.toNat_shiftRight, Nat.mod_eq_of_lt hk,
    Nat.shiftRight_eq_div_pow, show (0xff : UInt32).toNat = 2 ^ 8 - 1 from rfl,
    Nat.and_two_pow_sub_one_eq_mod, Nat.mod_mod]

/-- Putting a number and getting it back. -/
theorem getl_putl (val : UInt32) : getl (val >>> 24 &&& 0xff).toUInt8 (val >>> 16 &&& 0xff).toUInt8
    (val >>> 8 &&& 0xff).toUInt8 (val &&& 0xff).toUInt8 = val := by
  have h₀ : ((val &&& 0xff).toUInt8).toNat = val.toNat % 2 ^ 8 := by
    simpa using toNat_byte val (k := 0) (by decide)
  have hval := val.toNat_lt
  refine UInt32.toNat_inj.1 ?_
  rw [toNat_getl, toNat_byte val (by decide), toNat_byte val (by decide), toNat_byte val (by decide), h₀]
  simp only [show (24 : UInt32).toNat = 24 from rfl, show (16 : UInt32).toNat = 16 from rfl,
    show (8 : UInt32).toNat = 8 from rfl]
  omega

theorem putl_inj {v w : UInt32} (h : putl v = putl w) : v = w := by
  simp only [putl, List.cons.injEq, and_true] at h
  rw [← getl_putl v, h.1, h.2.1, h.2.2.1, h.2.2.2, getl_putl]

theorem putl_getl (b₀ b₁ b₂ b₃ : UInt8) : putl (getl b₀ b₁ b₂ b₃) = [b₀, b₁, b₂, b₃] := by
  have h₀ := b₀.toNat_lt
  have h₁ := b₁.toNat_lt
  have h₂ := b₂.toNat_lt
  have h₃ := b₃.toNat_lt
  -- The last byte is shifted by nothing.
  have hlast : ((getl b₀ b₁ b₂ b₃ &&& 0xff).toUInt8).toNat = b₃.toNat := by
    have := toNat_byte (getl b₀ b₁ b₂ b₃) (k := 0) (by decide)
    rw [toNat_getl] at this
    simp only [UInt32.shiftRight_zero, UInt32.toNat_zero, Nat.pow_zero, Nat.div_one] at this
    omega
  have hbyte : ∀ {k : UInt32} {b : UInt8}, k.toNat < 32 →
      (getl b₀ b₁ b₂ b₃).toNat / 2 ^ k.toNat % 2 ^ 8 = b.toNat →
      (getl b₀ b₁ b₂ b₃ >>> k &&& 0xff).toUInt8 = b := fun hk hb =>
    UInt8.toNat_inj.1 ((toNat_byte _ hk).trans hb)
  rw [putl, hbyte (b := b₀) (by decide) ?_, hbyte (b := b₁) (by decide) ?_,
    hbyte (b := b₂) (by decide) ?_, UInt8.toNat_inj.1 hlast]
  all_goals
    rw [toNat_getl]
    simp only [show (24 : UInt32).toNat = 24 from rfl, show (16 : UInt32).toNat = 16 from rfl,
      show (8 : UInt32).toNat = 8 from rfl]
    omega

end Nanomsg
