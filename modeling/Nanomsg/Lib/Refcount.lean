import Mathlib.Algebra.BigOperators.Group.Finset.Basic
import Mathlib.Tactic.Common

/-!
# Counting references

Objects are shared by *cells*, each of which refers to objects some number of
times (`share`). An object counts the references to it, is freed when the last
one is given up, and is never used again. `Settled` says of an object, with its
counter and the number of times it has been freed, that the counter is right.

* `count_put` and `count_drop`: how the number of references to an object
  changes as cells come and go;
* `Settled.acquire`, `Settled.release` and `Settled.free`: what the operations on
  the counter have to go with.
-/

namespace Refcount

open Function

variable {κ α β : Type*} [DecidableEq κ]

/-- Finitely many cells, with what they hold. -/
structure Cells (κ α : Type*) where
  live : Finset κ
  val : κ → α

namespace Cells

variable (c : Cells κ α) {k l : κ} {a : α}

/-- The cell `k` holds `a`. -/
def put (k : κ) (a : α) : Cells κ α := ⟨insert k c.live, update c.val k a⟩

/-- The cell `k` holds nothing any more. -/
def drop (k : κ) : Cells κ α := ⟨c.live.erase k, c.val⟩

variable {c}

@[simp] theorem mem_put : l ∈ (c.put k a).live ↔ l = k ∨ l ∈ c.live := Finset.mem_insert
@[simp] theorem put_val_self : (c.put k a).val k = a := update_self _ _ _
@[simp] theorem put_val_of_ne (h : l ≠ k) : (c.put k a).val l = c.val l := update_of_ne h _ _
@[simp] theorem mem_drop : l ∈ (c.drop k).live ↔ l ≠ k ∧ l ∈ c.live := Finset.mem_erase

@[simp] theorem drop_val : (c.drop k).val = c.val := rfl

/-! ### Counting -/

variable (share : α → β → ℕ) (b : β)

/-- How often the cells refer to `b`. -/
def count (c : Cells κ α) : ℕ := ∑ k ∈ c.live, share (c.val k) b

theorem count_put (h : k ∉ c.live) :
    (c.put k a).count share b = share a b + c.count share b := by
  have hrest : ∑ l ∈ c.live, share (update c.val k a l) b = ∑ l ∈ c.live, share (c.val l) b := by
    refine Finset.sum_congr rfl fun l hl => ?_
    rw [update_of_ne]
    rintro rfl
    exact h hl
  simp [count, put, Finset.sum_insert h, hrest]

theorem count_drop (h : k ∈ c.live) :
    share (c.val k) b + (c.drop k).count share b = c.count share b :=
  Finset.add_sum_erase c.live (fun l => share (c.val l) b) h

/-- A cell refers to what it refers to. -/
theorem share_le_count (h : k ∈ c.live) : share (c.val k) b ≤ c.count share b := by
  have := count_drop share b h
  omega

end Cells

/-! ### Counters -/

/-- An object freed `freed` times, whose counter is `refcount` and to which there
    are `count` references: it is freed once there are none. -/
def Settled (freed refcount count : ℕ) : Prop :=
  freed = 0 ∧ refcount = count ∧ 0 < count ∨ freed = 1 ∧ count = 0

namespace Settled

variable {f r c n : ℕ}

/-- An object just made, with one reference. -/
theorem new : Settled 0 1 1 := .inl ⟨rfl, rfl, Nat.one_pos⟩

/-- An object that is referred to has not been freed. -/
theorem alive (h : Settled f r c) (hc : 0 < c) : f = 0 ∧ r = c := by
  rcases h with ⟨hf, hr, -⟩ | ⟨-, hc'⟩
  · exact ⟨hf, hr⟩
  · omega

/-- Some more references to an object that is referred to. -/
theorem acquire (h : Settled f r c) (hc : 0 < c) : Settled f (r + n) (c + n) := by
  obtain ⟨hf, hr⟩ := h.alive hc
  exact .inl ⟨hf, by omega, by omega⟩

/-- A reference given up that is not the last one. -/
theorem release (h : Settled f r (c + 1)) (hr : ¬ r ≤ 1) : Settled f (r - 1) c := by
  obtain ⟨hf, hr'⟩ := h.alive (Nat.succ_pos c)
  exact .inl ⟨hf, by omega, by omega⟩

/-- The last reference given up. -/
theorem free (h : Settled f r (c + 1)) (hr : r ≤ 1) (n : ℕ) : Settled (f + 1) n c := by
  obtain ⟨hf, hr'⟩ := h.alive (Nat.succ_pos c)
  exact .inr ⟨by omega, by omega⟩

end Settled

end Refcount
