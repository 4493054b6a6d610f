import Mathlib.Dynamics.PeriodicPts.Defs
import Mathlib.NumberTheory.Multiplicity
import Mathlib.RingTheory.Int.Basic
import Mathlib.SetTheory.Cardinal.Finite

/-!
# Congruential sequences

The sequence of `x`, `a * x + c` and so on, modulo `2 ^ w`. If `a` is 1 modulo 4 and `c` is odd, it
is back at `x` exactly after the multiples of `2 ^ w` (`iterate_eq_iff`), and has taken every value
once by then (`existsUnique_iterate`).

The values are of any type that has them modulo `2 ^ w` (`Residues`), as the words of a
machine do.
-/

namespace Congruential

open Function Finset

section

variable (a c : ℤ)

/-- One step, before it is reduced. -/
def next (x : ℤ) : ℤ := a * x + c

variable {a c} {w : ℕ}

/-- `n` steps move `x` by a multiple of what one step moves it by. -/
theorem iterate_sub (n : ℕ) (x : ℤ) :
    (next a c)^[n] x - x = (∑ i ∈ range n, a ^ i) * ((a - 1) * x + c) := by
  induction n with
  | zero => simp
  | succ n ih =>
    have hn : (next a c)^[n] x = x + (∑ i ∈ range n, a ^ i) * ((a - 1) * x + c) :=
      eq_add_of_sub_eq' ih
    rw [iterate_succ_apply', hn, next, geom_sum_succ]
    ring

/-- The geometric sum of `n` powers is as even as `n`. -/
theorem two_pow_dvd_geom_sum (ha : 4 ∣ a - 1) (n : ℕ) :
    2 ^ w ∣ ∑ i ∈ range n, a ^ i ↔ 2 ^ w ∣ (n : ℤ) := by
  by_cases h1 : a = 1
  · simp [h1]
  have hodd : ¬ 2 ∣ a := fun h => by omega
  have hmul : emultiplicity 2 (∑ i ∈ range n, a ^ i) + emultiplicity 2 (a - 1) =
      emultiplicity 2 (n : ℤ) + emultiplicity 2 (a - 1) := by
    rw [← emultiplicity_mul Int.prime_two, geom_sum_mul, add_comm]
    simpa using Int.two_pow_sub_pow' n ha hodd
  have hfinite : FiniteMultiplicity 2 (a - 1) :=
    Int.finiteMultiplicity_iff.2 ⟨by decide, sub_ne_zero.2 h1⟩
  have heq : emultiplicity 2 (∑ i ∈ range n, a ^ i) = emultiplicity 2 (n : ℤ) :=
    WithTop.add_right_cancel (finiteMultiplicity_iff_emultiplicity_ne_top.1 hfinite) hmul
  rw [pow_dvd_iff_le_emultiplicity, pow_dvd_iff_le_emultiplicity, heq]

/-- What one step moves `x` by is odd, so that the sum alone decides. -/
theorem two_pow_dvd_iterate_sub (ha : 4 ∣ a - 1) (hc : Odd c) (n : ℕ) (x : ℤ) :
    2 ^ w ∣ (next a c)^[n] x - x ↔ 2 ^ w ∣ (n : ℤ) := by
  have heven : Even ((a - 1) * x) := by
    obtain ⟨k, hk⟩ := ha
    exact ⟨2 * k * x, by rw [hk]; ring⟩
  have hcop : IsCoprime ((2 : ℤ) ^ w) ((a - 1) * x + c) :=
    (Int.isCoprime_two_left.2 (heven.add_odd hc)).pow_left
  rw [iterate_sub, ← two_pow_dvd_geom_sum ha]
  exact ⟨hcop.dvd_of_dvd_mul_right, fun h => h.mul_right _⟩

end

/-! ### Words -/

/-- The elements of `β` stand for the integers modulo `2 ^ w`. -/
structure Residues {β : Type*} (w : ℕ) (val : β → ℤ) : Prop where
  card : Nat.card β = 2 ^ w
  eq_iff : ∀ x y, x = y ↔ 2 ^ w ∣ val x - val y

variable {β : Type*} {w : ℕ} {val : β → ℤ} {f : β → β} {a c : ℤ}

/-- As many steps of words as of integers. -/
theorem two_pow_dvd_val_iterate (hf : ∀ x, 2 ^ w ∣ val (f x) - next a c (val x)) (n : ℕ) (x : β) :
    2 ^ w ∣ val (f^[n] x) - (next a c)^[n] (val x) := by
  induction n with
  | zero => simp
  | succ n ih =>
    rw [iterate_succ_apply', iterate_succ_apply']
    have hmul : next a c (val (f^[n] x)) - next a c ((next a c)^[n] (val x)) =
        a * (val (f^[n] x) - (next a c)^[n] (val x)) := by
      rw [next, next]
      ring
    have hnext : 2 ^ w ∣ next a c (val (f^[n] x)) - next a c ((next a c)^[n] (val x)) :=
      hmul ▸ ih.mul_left a
    simpa using (hf (f^[n] x)).add hnext

/-- The sequence is back where it was exactly after the multiples of `2 ^ w`. -/
theorem iterate_eq_iff (hβ : Residues w val) (hf : ∀ x, 2 ^ w ∣ val (f x) - next a c (val x))
    (ha : 4 ∣ a - 1) (hc : Odd c) (n : ℕ) (x : β) : f^[n] x = x ↔ 2 ^ w ∣ n := by
  have hn := two_pow_dvd_val_iterate hf n x
  have hsub : val (f^[n] x) - val x =
      (val (f^[n] x) - (next a c)^[n] (val x)) + ((next a c)^[n] (val x) - val x) := by ring
  rw [hβ.eq_iff, hsub, dvd_add_right hn, two_pow_dvd_iterate_sub ha hc]
  exact_mod_cast Iff.rfl

theorem minimalPeriod_eq (hβ : Residues w val) (hf : ∀ x, 2 ^ w ∣ val (f x) - next a c (val x))
    (ha : 4 ∣ a - 1) (hc : Odd c) (x : β) : minimalPeriod f x = 2 ^ w := by
  refine Nat.dvd_antisymm ?_ ?_
  · exact isPeriodicPt_iff_minimalPeriod_dvd.1 ((iterate_eq_iff hβ hf ha hc _ x).2 (dvd_refl _))
  · exact (iterate_eq_iff hβ hf ha hc _ x).1 (isPeriodicPt_minimalPeriod f x)

/-- From anywhere, every value comes once before the sequence repeats. -/
theorem existsUnique_iterate (hβ : Residues w val)
    (hf : ∀ x, 2 ^ w ∣ val (f x) - next a c (val x)) (ha : 4 ∣ a - 1) (hc : Odd c) (x y : β) :
    ∃! n, n < 2 ^ w ∧ f^[n] x = y := by
  have hperiod := minimalPeriod_eq hβ hf ha hc x
  have hinj : ∀ m < 2 ^ w, ∀ n < 2 ^ w, f^[m] x = f^[n] x → m = n := by
    rw [← hperiod]
    exact fun m hm n hn h => iterate_injOn_Iio_minimalPeriod hm hn h
  have : Finite β := Nat.finite_of_card_ne_zero (by rw [hβ.card]; positivity)
  -- As many steps as there are values.
  have hbij : Bijective fun n : Fin (2 ^ w) => f^[n] x :=
    Injective.bijective_of_nat_card_le (fun m n h => Fin.ext (hinj m m.2 n n.2 h))
      (by rw [hβ.card, Nat.card_fin])
  obtain ⟨n, hn⟩ := hbij.2 y
  exact ⟨n, ⟨n.2, hn⟩, fun m hm => hinj m hm.1 n n.2 (hm.2.trans hn.symm)⟩

end Congruential
