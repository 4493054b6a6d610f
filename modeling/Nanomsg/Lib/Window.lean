import Mathlib.Tactic.Common

/-!
# Parts of a list

Reading some elements in a row (`window`) and putting others in their place
(`overwrite`), as memory is read and written. What is read is what has been
written there, or what was there if nothing has.
-/

namespace Window

variable {α : Type*}

/-- The `n` elements from the `k`th on. -/
def window (xs : List α) (k n : ℕ) : List α := (xs.drop k).take n

/-- The elements from the `k`th on replaced by `ys`. -/
def overwrite (xs : List α) (k : ℕ) (ys : List α) : List α :=
  xs.take k ++ ys ++ xs.drop (k + ys.length)

variable {xs ys zs : List α} {k n : ℕ}

theorem length_window (h : k + n ≤ xs.length) : (window xs k n).length = n := by
  rw [window, List.length_take, List.length_drop]
  omega

@[simp] theorem length_overwrite (h : k + ys.length ≤ xs.length) :
    (overwrite xs k ys).length = xs.length := by
  simp only [overwrite, List.length_append, List.length_take, List.length_drop]
  omega

theorem getElem?_window (xs : List α) (k n i : ℕ) :
    (window xs k n)[i]? = if i < n then xs[k + i]? else none := by
  rw [window, List.getElem?_take, List.getElem?_drop]

theorem getElem?_overwrite (h : k + ys.length ≤ xs.length) (i : ℕ) :
    (overwrite xs k ys)[i]? = if k ≤ i ∧ i < k + ys.length then ys[i - k]? else xs[i]? := by
  have hk : (xs.take k).length = k := List.length_take_of_le (by omega)
  rcases Nat.lt_or_ge i k with hlt | hge
  · rw [if_neg (by omega), overwrite, List.append_assoc, List.getElem?_append_left (by omega),
      List.getElem?_take_of_lt hlt]
  · rw [overwrite, List.append_assoc, List.getElem?_append_right (by omega), hk]
    rcases Nat.lt_or_ge i (k + ys.length) with hlt | hge'
    · rw [if_pos ⟨hge, hlt⟩, List.getElem?_append_left (by omega)]
    · rw [if_neg (by omega), List.getElem?_append_right (by omega), List.getElem?_drop]
      congr 1
      omega

/-- What has been written is read. -/
theorem window_overwrite (h : k + ys.length ≤ xs.length) :
    window (overwrite xs k ys) k ys.length = ys := by
  ext1 i
  rw [getElem?_window, getElem?_overwrite h]
  split
  · rw [if_pos (by omega), Nat.add_sub_cancel_left]
  · rw [List.getElem?_eq_none (by omega)]

/-- What is read elsewhere has not changed. -/
theorem window_overwrite_of_disjoint {j : ℕ} (h : k + ys.length ≤ xs.length)
    (hj : j + n ≤ k ∨ k + ys.length ≤ j) :
    window (overwrite xs k ys) j n = window xs j n := by
  ext1 i
  rw [getElem?_window, getElem?_window, getElem?_overwrite h]
  split
  · rw [if_neg (by omega)]
  · rfl

/-- Writing what is there changes nothing. -/
theorem overwrite_window (h : k + n ≤ xs.length) : overwrite xs k (window xs k n) = xs := by
  have hn := length_window h
  ext1 i
  rw [getElem?_overwrite (by omega), getElem?_window, hn]
  split
  · rw [if_pos (by omega)]
    congr 1
    omega
  · rfl

/-- Reading a part of what is read. -/
theorem window_window {j m : ℕ} (h : j + m ≤ n) :
    window (window xs k n) j m = window xs (k + j) m := by
  ext1 i
  rw [getElem?_window, getElem?_window, getElem?_window]
  split
  · rw [if_pos (by omega), Nat.add_assoc]
  · rfl

variable (xs ys zs k) in
/-- Writing twice, one before the other. -/
theorem overwrite_overwrite (h : k + ys.length + zs.length ≤ xs.length) :
    overwrite (overwrite xs (k + ys.length) zs) k ys = overwrite xs k (ys ++ zs) := by
  ext1 i
  rw [getElem?_overwrite (by rw [length_overwrite h]; omega), getElem?_overwrite h,
    getElem?_overwrite (by rw [List.length_append]; omega), List.length_append]
  by_cases hy : k ≤ i ∧ i < k + ys.length
  · rw [if_pos hy, if_pos (by omega), List.getElem?_append_left (by omega)]
  · rw [if_neg hy]
    by_cases hz : k + ys.length ≤ i ∧ i < k + ys.length + zs.length
    · rw [if_pos hz, if_pos (by omega), List.getElem?_append_right (by omega)]
      congr 1
      omega
    · rw [if_neg hz, if_neg (by omega)]

variable (xs ys zs k) in
/-- Writing twice, one after the other. -/
theorem overwrite_append (h : k + ys.length + zs.length ≤ xs.length) :
    overwrite (overwrite xs k ys) (k + ys.length) zs = overwrite xs k (ys ++ zs) := by
  have hy : k + ys.length ≤ xs.length := Nat.le_of_add_right_le h
  ext1 i
  rw [getElem?_overwrite (by rw [length_overwrite hy]; exact h), getElem?_overwrite hy,
    getElem?_overwrite (by rw [List.length_append]; omega), List.length_append]
  by_cases hz : k + ys.length ≤ i ∧ i < k + ys.length + zs.length
  · rw [if_pos hz, if_pos (by omega), List.getElem?_append_right (by omega)]
    congr 1
    omega
  · rw [if_neg hz]
    by_cases hy : k ≤ i ∧ i < k + ys.length
    · rw [if_pos hy, if_pos (by omega), List.getElem?_append_left (by omega)]
    · rw [if_neg hy, if_neg (by omega)]

end Window
