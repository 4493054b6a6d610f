import Mathlib.Data.Nat.Bitwise
import Mathlib.Data.Nat.Digits.Defs

/-!
# Numbers by their digits, the highest first

In a base `b`, `n` digits are a number below `b ^ n`, and the other way round (`value_digits`,
`digits_value`). The digits of a number fall into those of its two halves (`digits_add`). Numbers
are compared as lists of digits are, by the first that is different (`value_lt_iff`), and this goes
on to lists of numbers, one after the other (`append_lt_append_iff`).

In base `2 ^ k` a number may be put together by shifting its digits (`shifted_eq`).
-/

namespace BigEndian

variable {b : ℕ} {l l' : List ℕ} {d : ℕ}

/-- The number with these digits. -/
def value (b : ℕ) (l : List ℕ) : ℕ := Nat.ofDigits b l.reverse

/-- The lowest `n` digits of a number. -/
def digits (b : ℕ) : ℕ → ℕ → List ℕ
  | 0, _ => []
  | n + 1, v => v / b ^ n % b :: digits b n v

@[simp] theorem value_nil : value b [] = 0 := rfl

theorem value_cons : value b (d :: l) = d * b ^ l.length + value b l := by
  rw [value, List.reverse_cons, Nat.ofDigits_append, List.length_reverse, Nat.ofDigits_singleton,
    Nat.add_comm, Nat.mul_comm, value]

theorem value_lt (hb : 1 < b) (h : ∀ d ∈ l, d < b) : value b l < b ^ l.length := by
  rw [value, ← List.length_reverse]
  exact Nat.ofDigits_lt_base_pow_length hb fun d hd => h d (List.mem_reverse.1 hd)

@[simp] theorem length_digits (n v : ℕ) : (digits b n v).length = n := by
  induction n with
  | zero => rfl
  | succ n ih => rw [digits, List.length_cons, ih]

theorem value_digits (n v : ℕ) : value b (digits b n v) = v % b ^ n := by
  induction n with
  | zero => rw [digits, value_nil, Nat.pow_zero, Nat.mod_one]
  | succ n ih =>
    rw [digits, value_cons, length_digits, ih, Nat.pow_succ, Nat.mod_mul, Nat.add_comm, Nat.mul_comm]

/-- The digits below the highest do not depend on what is added above them. -/
theorem digits_add_mul (n v w : ℕ) (hb : 0 < b) : digits b n (w * b ^ n + v) = digits b n v := by
  suffices h : ∀ m, digits b n (w * b ^ (n + m) + v) = digits b n v by simpa using h 0
  induction n with
  | zero => exact fun _ => rfl
  | succ n ih =>
    intro m
    have hsplit : w * b ^ (n + 1 + m) = b ^ n * (b * (w * b ^ m)) := by ring
    have hhead : (w * b ^ (n + 1 + m) + v) / b ^ n % b = v / b ^ n % b := by
      rw [hsplit, Nat.mul_add_div (Nat.pow_pos hb), Nat.mul_add_mod]
    rw [digits, digits, hhead, Nat.add_assoc n 1 m, ih]

theorem digits_value (hb : 1 < b) (h : ∀ d ∈ l, d < b) : digits b l.length (value b l) = l := by
  induction l with
  | nil => rfl
  | cons d l ih =>
    obtain ⟨hd, hl⟩ := List.forall_mem_cons.1 h
    have hhead : (d * b ^ l.length + value b l) / b ^ l.length % b = d := by
      rw [Nat.mul_comm, Nat.mul_add_div (Nat.pow_pos (by omega)), Nat.div_eq_of_lt (value_lt hb hl),
        Nat.add_zero, Nat.mod_eq_of_lt hd]
    rw [List.length_cons, digits, value_cons, hhead, digits_add_mul _ _ _ (by omega), ih hl]

theorem digits_add (m n v : ℕ) : digits b (m + n) v = digits b m (v / b ^ n) ++ digits b n v := by
  induction m with
  | zero => rw [Nat.zero_add, digits, List.nil_append]
  | succ m ih =>
    rw [Nat.succ_add, digits, digits, ih, List.cons_append, Nat.div_div_eq_div_mul, ← Nat.pow_add,
      Nat.add_comm n m]

/-! ### Order -/

/-- Lists that begin with as many elements are compared by these first. -/
theorem append_lt_append_iff {l l' r r' : List ℕ} (h : l.length = l'.length) :
    l ++ r < l' ++ r' ↔ l < l' ∨ l = l' ∧ r < r' := by
  induction l generalizing l' with
  | nil =>
    obtain rfl := List.length_eq_zero_iff.1 h.symm
    simp
  | cons d l ih =>
    cases l' with
    | nil => cases h
    | cons d' l' =>
      rw [List.cons_append, List.cons_append, List.cons_lt_cons_iff, List.cons_lt_cons_iff,
        ih (Nat.succ.inj h)]
      simp only [List.cons.injEq]
      tauto

theorem value_lt_iff (hb : 1 < b) (h : l.length = l'.length) (hl : ∀ d ∈ l, d < b)
    (hl' : ∀ d ∈ l', d < b) : value b l < value b l' ↔ l < l' := by
  induction l generalizing l' with
  | nil =>
    obtain rfl := List.length_eq_zero_iff.1 h.symm
    simp
  | cons d l ih =>
    cases l' with
    | nil => cases h
    | cons d' l' =>
      obtain ⟨-, hl⟩ := List.forall_mem_cons.1 hl
      obtain ⟨-, hl'⟩ := List.forall_mem_cons.1 hl'
      have hlen : l.length = l'.length := Nat.succ.inj h
      have hv := value_lt hb hl
      have hv' := value_lt hb hl'
      rw [List.cons_lt_cons_iff, ← ih hlen hl hl', value_cons, value_cons, ← hlen]
      rw [← hlen] at hv'
      rcases Nat.lt_trichotomy d d' with hd | rfl | hd
      · have hstep : (d + 1) * b ^ l.length ≤ d' * b ^ l.length := Nat.mul_le_mul_right _ hd
        rw [Nat.succ_mul] at hstep
        exact iff_of_true (by omega) (.inl hd)
      · simp
      · have hstep : (d' + 1) * b ^ l.length ≤ d * b ^ l.length := Nat.mul_le_mul_right _ hd
        rw [Nat.succ_mul] at hstep
        exact iff_of_false (by omega) (by omega)

/-! ### By shifting -/

/-- The digits shifted to their places. -/
def shifted (k : ℕ) : List ℕ → ℕ
  | [] => 0
  | d :: l => d <<< (k * l.length) ||| shifted k l

theorem shifted_eq {k : ℕ} (hk : 0 < k) (h : ∀ d ∈ l, d < 2 ^ k) : shifted k l = value (2 ^ k) l := by
  induction l with
  | nil => rfl
  | cons d l ih =>
    obtain ⟨-, hl⟩ := List.forall_mem_cons.1 h
    have hlt := value_lt (Nat.one_lt_two_pow hk.ne') hl
    rw [← Nat.pow_mul] at hlt
    rw [shifted, ih hl, ← Nat.shiftLeft_add_eq_or_of_lt hlt, Nat.shiftLeft_eq, value_cons, Nat.pow_mul]

end BigEndian
