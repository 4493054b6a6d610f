import Mathlib.Algebra.Order.Ring.Int
import Mathlib.Algebra.Order.Ring.Nat
import Mathlib.Data.Int.Notation
import Mathlib.Tactic.Common

/-!
# Clock readings and timeouts

`clock.c`: a clock reading is a `uint64_t`, in milliseconds, while a timeout is an `int`. What
is left until a deadline is a difference of readings, of which the low 32 bits are kept
(`Clock.toInt`).
-/

namespace Nanomsg

namespace Clock

/-- `(int)x`. -/
def toInt (x : UInt64) : ℤ := (x.toNat : ℤ).bmod (2 ^ 32)

variable {x d now : UInt64}

theorem bmod_cases (n : ℕ) :
    n % 2 ^ 32 < 2 ^ 31 ∧ (n : ℤ).bmod (2 ^ 32) = (n % 2 ^ 32 : ℕ) ∨
      2 ^ 31 ≤ n % 2 ^ 32 ∧ (n : ℤ).bmod (2 ^ 32) + 2 ^ 32 = (n % 2 ^ 32 : ℕ) := by
  have h := Int.bmod_def n (2 ^ 32)
  generalize (n : ℤ).bmod (2 ^ 32) = z at h ⊢
  split at h <;> omega

/-- The number is negative where the highest of the bits kept is set. -/
theorem toInt_cases (x : UInt64) :
    x.toNat % 2 ^ 32 < 2 ^ 31 ∧ toInt x = (x.toNat % 2 ^ 32 : ℕ) ∨
      2 ^ 31 ≤ x.toNat % 2 ^ 32 ∧ toInt x + 2 ^ 32 = (x.toNat % 2 ^ 32 : ℕ) := bmod_cases x.toNat

theorem toInt_of_lt (h : x.toNat < 2 ^ 31) : toInt x = x.toNat := by
  have := toInt_cases x
  omega

theorem toInt_nonpos_iff : toInt x ≤ 0 ↔ x.toNat % 2 ^ 32 = 0 ∨ 2 ^ 31 ≤ x.toNat % 2 ^ 32 := by
  have := toInt_cases x
  omega

/-- A deadline is that of 64 bits. -/
theorem toNat_add_ofInt (now : UInt64) {timeout : ℤ} (h0 : 0 ≤ timeout) (ht : timeout < 2 ^ 64) :
    (now + UInt64.ofInt timeout).toNat = (now.toNat + timeout.toNat) % 2 ^ 64 := by
  obtain ⟨n, rfl⟩ := Int.eq_ofNat_of_zero_le h0
  have hn : (UInt64.ofInt n).toNat = n := by
    rw [UInt64.ofInt, Int.emod_eq_of_lt (by omega) (by omega), Int.toNat_natCast,
      UInt64.toNat_ofNat_of_lt' (by rw [UInt64.size]; omega)]
  rw [UInt64.toNat_add, hn, Int.toNat_natCast]

/-- What is left until a deadline to come. -/
theorem toNat_sub_of_le (h : now.toNat ≤ d.toNat) : (d - now).toNat = d.toNat - now.toNat :=
  UInt64.toNat_sub_of_le d now (UInt64.le_iff_toNat_le.2 h)

/-- What is said to be left until a deadline that has passed. -/
theorem toNat_sub_of_lt (h : d.toNat < now.toNat) :
    (d - now).toNat = 2 ^ 64 - (now.toNat - d.toNat) := by
  have hlt := now.toNat_lt
  rw [UInt64.toNat_sub]
  omega

/-- Since a deadline that has passed. -/
theorem toInt_sub_nonpos_iff (h : d.toNat < now.toNat) :
    toInt (d - now) ≤ 0 ↔ (now.toNat - d.toNat) % 2 ^ 32 ≤ 2 ^ 31 := by
  have hlt := now.toNat_lt
  rw [toInt_nonpos_iff, toNat_sub_of_lt h]
  omega

end Clock

end Nanomsg
