import Mathlib.Algebra.Order.Ring.Int
import Mathlib.Algebra.Order.Ring.Nat
import Mathlib.Data.UInt
import Nanomsg.Lib.Congruential

/-!
# `nn_random`

`random.c`: a congruential generator. `nn_random_generate` steps the state once for every 8 bytes
of the buffer, and for what is left, and copies the bytes of the state there.

In which order a machine keeps the bytes of a word is a `Layout`. The buffer is a function of the
address, of which a copy changes what it writes to.
-/

namespace Nanomsg

open Function

namespace Random

/-- The 8 bytes of a `uint64_t`, as they are in memory. -/
structure Layout where
  byte : UInt64 → ℕ → UInt8
  ext : ∀ x y, (∀ i < 8, byte x i = byte y i) → x = y

/-- What is at every address. -/
abbrev Memory := ℕ → UInt8

/-- `memcpy(pos, src, n)`. -/
def memcpy (buf : Memory) (pos : ℕ) (src : ℕ → UInt8) (n : ℕ) : Memory :=
  fun i => if pos ≤ i ∧ i < pos + n then src (i - pos) else buf i

/-- `nn_random_state * 1103515245 + 12345`. -/
def successor (state : UInt64) : UInt64 := state * 1103515245 + 12345

/-- `nn_random_generate`: the state and the memory that it leaves. -/
def generate (L : Layout) (state : UInt64) (buf : Memory) (pos len : ℕ) : UInt64 × Memory :=
  let state := successor state
  let buf := memcpy buf pos (L.byte state) (if len > 8 then 8 else len)
  if len ≤ 8 then
    (state, buf)
  else
    generate L state buf (pos + 8) (len - 8)
termination_by len

/-- The least significant byte first. -/
def Layout.littleEndian : Layout where
  byte x i := (x >>> UInt64.ofNat (8 * i)).toUInt8
  ext x y h := by
    refine UInt64.toBitVec_inj.1 (BitVec.eq_of_getLsbD_eq fun i hi => ?_)
    have hb := congrArg (fun b : UInt8 => b.toBitVec.getLsbD (i % 8)) (h (i / 8) (by omega))
    have hmod : 8 * (i / 8) % 18446744073709551616 % 64 = 8 * (i / 8) := by omega
    have hlt : i % 8 < 8 := Nat.mod_lt _ (by decide)
    simpa [hmod, hlt, Nat.div_add_mod] using hb

variable {L : Layout} {state : UInt64} {buf : Memory} {pos len : ℕ}

/-! ## The period -/

theorem residues_toNat : Congruential.Residues 64 fun x : UInt64 => (x.toNat : ℤ) where
  card := by
    have hbij : Bijective fun x : UInt64 => x.toFin :=
      ⟨fun x y => UInt64.toFin_inj.1, fun x => ⟨UInt64.ofFin x, rfl⟩⟩
    rw [Nat.card_eq_of_bijective _ hbij, Nat.card_fin]
    rfl
  eq_iff x y := by
    have hx := x.toNat_lt
    have hy := y.toNat_lt
    rw [← UInt64.toNat_inj]
    omega

/-- The multiplier is 1 modulo 4 and the increment is odd. -/
theorem successor_next (x : UInt64) :
    2 ^ 64 ∣ ((successor x).toNat : ℤ) - Congruential.next 1103515245 12345 x.toNat := by
  have hmod : (successor x).toNat = (x.toNat * 1103515245 + 12345) % 2 ^ 64 := by
    simp [successor]
  rw [hmod, Congruential.next]
  omega

theorem iterate_successor_eq_iff (n : ℕ) (x : UInt64) : successor^[n] x = x ↔ 2 ^ 64 ∣ n :=
  Congruential.iterate_eq_iff residues_toNat successor_next (by decide) (by decide) n x

theorem existsUnique_iterate_successor (x y : UInt64) :
    ∃! n, n < 2 ^ 64 ∧ successor^[n] x = y :=
  Congruential.existsUnique_iterate residues_toNat successor_next (by decide) (by decide) x y

/-- Fewer than `2 ^ 64` steps apart, some byte is another one. -/
theorem byte_iterate_ne {i j : ℕ} (hij : i < j) (hj : j < i + 2 ^ 64) :
    ∃ m < 8, L.byte (successor^[i] state) m ≠ L.byte (successor^[j] state) m := by
  by_contra! hsame
  have heq : successor^[j - i] (successor^[i] state) = successor^[i] state := by
    rw [← iterate_add_apply, Nat.sub_add_cancel hij.le]
    exact (L.ext _ _ hsame).symm
  have hdvd := Nat.le_of_dvd (by omega) ((iterate_successor_eq_iff _ _).1 heq)
  omega

/-! ## The bytes -/

theorem memcpy_inside {src : ℕ → UInt8} {n i : ℕ} (h : i < n) :
    memcpy buf pos src n (pos + i) = src i := by
  simp [memcpy, h]

theorem memcpy_outside {src : ℕ → UInt8} {n i : ℕ} (h : ¬ (pos ≤ i ∧ i < pos + n)) :
    memcpy buf pos src n i = buf i :=
  if_neg h

theorem generate_last (h : len ≤ 8) : generate L state buf pos len =
    (successor state, memcpy buf pos (L.byte (successor state)) len) := by
  rw [generate, if_pos h, if_neg (not_lt.2 h)]

theorem generate_more (h : 8 < len) : generate L state buf pos len =
    generate L (successor state) (memcpy buf pos (L.byte (successor state)) 8) (pos + 8)
      (len - 8) := by
  rw [generate, if_neg (not_le.2 h), if_pos h]

/-- One step for every 8 bytes and for what is left, and one if there are none. -/
theorem generate_fst : (generate L state buf pos len).1 =
    successor^[max 1 ((len + 7) / 8)] state := by
  induction len using Nat.strong_induction_on generalizing state buf pos with
  | h len ih =>
    by_cases h : len ≤ 8
    · have hn : max 1 ((len + 7) / 8) = 1 := by omega
      rw [generate_last h, hn, iterate_one]
    · have hn : max 1 ((len + 7) / 8) = max 1 ((len - 8 + 7) / 8) + 1 := by omega
      rw [generate_more (not_le.1 h), ih (len - 8) (by omega), hn, iterate_succ_apply]

/-- Nothing else is written to. -/
theorem generate_outside {i : ℕ} (hi : ¬ (pos ≤ i ∧ i < pos + len)) :
    (generate L state buf pos len).2 i = buf i := by
  induction len using Nat.strong_induction_on generalizing state buf pos with
  | h len ih =>
    by_cases h : len ≤ 8
    · rw [generate_last h]
      exact memcpy_outside hi
    · rw [generate_more (not_le.1 h), ih (len - 8) (by omega) (by omega),
        memcpy_outside (by omega)]

/-- Every byte of the buffer is one of the state after the steps up to it. -/
theorem generate_inside {i : ℕ} (hi : i < len) : (generate L state buf pos len).2 (pos + i) =
    L.byte (successor^[i / 8 + 1] state) (i % 8) := by
  induction len using Nat.strong_induction_on generalizing state buf pos i with
  | h len ih =>
    by_cases h : len ≤ 8
    · have hdiv : i / 8 = 0 := by omega
      have hmod : i % 8 = i := by omega
      rw [generate_last h, hdiv, hmod, iterate_one]
      exact memcpy_inside hi
    rw [generate_more (not_le.1 h)]
    by_cases hfirst : i < 8
    · have hdiv : i / 8 = 0 := by omega
      have hmod : i % 8 = i := by omega
      rw [generate_outside (by omega), memcpy_inside hfirst, hdiv, hmod, iterate_one]
    · have hpos : pos + i = pos + 8 + (i - 8) := by omega
      have hdiv : i / 8 = (i - 8) / 8 + 1 := by omega
      have hmod : i % 8 = (i - 8) % 8 := by omega
      rw [hpos, ih (len - 8) (by omega) (by omega), hdiv, hmod, ← iterate_succ_apply]

/-- The call is two calls if the first is for whole words. -/
theorem generate_add {a b : ℕ} (ha : 8 ∣ a) (h0 : 0 < a) (hb : 0 < b) :
    generate L state buf pos (a + b) =
      generate L (generate L state buf pos a).1 (generate L state buf pos a).2 (pos + a) b := by
  induction a using Nat.strong_induction_on generalizing state buf pos with
  | h a ih =>
    rw [generate_more (by omega : 8 < a + b)]
    by_cases h : a ≤ 8
    · obtain rfl : a = 8 := Nat.le_antisymm h (Nat.le_of_dvd h0 ha)
      rw [generate_last h, Nat.add_sub_cancel_left]
    · have hab : a + b - 8 = a - 8 + b := by omega
      have hpos : pos + a = pos + 8 + (a - 8) := by omega
      rw [generate_more (not_le.1 h), hab, hpos]
      exact ih (a - 8) (by omega) (Nat.dvd_sub ha (dvd_refl 8)) (by omega)

/-- The ninth byte is the first one of the second state. -/
example : (generate .littleEndian 0 (fun _ => 0) 0 9).2 (0 + 8) = 0x7e := by
  rw [generate_inside (by decide)]
  decide

/-- The last copy is of 1 to 8 bytes, of the state that is left, and all others are of 8. -/
theorem generate_blocks (h : 0 < len) : ∃ k r, len = 8 * k + r ∧ 1 ≤ r ∧ r ≤ 8 ∧
    (generate L state buf pos len).1 = successor^[k + 1] state ∧
    ∀ i < r, (generate L state buf pos len).2 (pos + 8 * k + i) =
      L.byte (generate L state buf pos len).1 i := by
  obtain ⟨k, r, rfl, h1, h8⟩ : ∃ k r, len = 8 * k + r ∧ 1 ≤ r ∧ r ≤ 8 :=
    ⟨(len - 1) / 8, (len - 1) % 8 + 1, by omega, by omega, by omega⟩
  have hn : max 1 ((8 * k + r + 7) / 8) = k + 1 := by omega
  have hfst : (generate L state buf pos (8 * k + r)).1 = successor^[k + 1] state := by
    rw [generate_fst, hn]
  refine ⟨k, r, rfl, h1, h8, hfst, fun i hi => ?_⟩
  have hdiv : (8 * k + i) / 8 = k := by omega
  have hmod : (8 * k + i) % 8 = i := by omega
  rw [hfst, Nat.add_assoc, generate_inside (by omega), hdiv, hmod]

/-- The buffer is filled with the words of a sequence of full period, whatever it was and wherever
    the state was. -/
theorem generate_correct (L : Layout) (state : UInt64) (buf : Memory) (pos len : ℕ) :
    (∀ i < len, (generate L state buf pos len).2 (pos + i) =
        L.byte (successor^[i / 8 + 1] state) (i % 8)) ∧
      (∀ i, ¬ (pos ≤ i ∧ i < pos + len) → (generate L state buf pos len).2 i = buf i) ∧
      (generate L state buf pos len).1 = successor^[max 1 ((len + 7) / 8)] state ∧
      (0 < len → ∃ k r, len = 8 * k + r ∧ 1 ≤ r ∧ r ≤ 8 ∧
        (generate L state buf pos len).1 = successor^[k + 1] state ∧
        ∀ i < r, (generate L state buf pos len).2 (pos + 8 * k + i) =
          L.byte (generate L state buf pos len).1 i) ∧
      (∀ a b, 8 ∣ a → 0 < a → 0 < b → generate L state buf pos (a + b) =
        generate L (generate L state buf pos a).1 (generate L state buf pos a).2 (pos + a) b) ∧
      (∀ y, ∃! n, n < 2 ^ 64 ∧ successor^[n] state = y) ∧
      (∀ n, successor^[n] state = state ↔ 2 ^ 64 ∣ n) ∧
      ∀ i j, i < j → j < i + 2 ^ 64 →
        ∃ m < 8, L.byte (successor^[i + 1] state) m ≠ L.byte (successor^[j + 1] state) m :=
  ⟨fun _ => generate_inside, fun _ => generate_outside, generate_fst, generate_blocks,
    fun _ _ => generate_add, existsUnique_iterate_successor state,
    fun n => iterate_successor_eq_iff n state,
    fun _ _ hij hj => byte_iterate_ne (by omega) (by omega)⟩

end Random

end Nanomsg
