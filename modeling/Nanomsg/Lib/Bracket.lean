import Mathlib.Algebra.BigOperators.Group.List.Basic
import Mathlib.Algebra.Order.Ring.Int
import Mathlib.Data.List.Infix
import Mathlib.Tactic.Common

/-!
# Opening and closing

A trace of steps some of which open something and some close it (`δ` is 1 or -1 there, and else 0).
It is *within* its bounds if nothing is closed that is not open or opened that is, from a start
where `n` is open (`Within`), and *balanced* if moreover nothing is open in the end.
-/

namespace Bracket

variable {α : Type*} (δ : α → ℤ)

/-- How many steps have opened and not closed. -/
def net (l : List α) : ℤ := (l.map δ).sum

/-- What is open is no more than one thing, and no less than none, all along `l`. -/
def Within (n : ℤ) (l : List α) : Prop := ∀ p, p <+: l → 0 ≤ n + net δ p ∧ n + net δ p ≤ 1

/-- What is opened along `l` is closed once. -/
structure Balanced (l : List α) : Prop where
  within : Within δ 0 l
  net_eq : net δ l = 0

variable {δ} {n : ℤ} {x : α} {l l' : List α}

@[simp] theorem net_nil : net δ [] = 0 := rfl

@[simp] theorem net_cons : net δ (x :: l) = δ x + net δ l := by simp [net]

@[simp] theorem net_append : net δ (l ++ l') = net δ l + net δ l' := by simp [net]

theorem within_nil : Within δ n [] ↔ 0 ≤ n ∧ n ≤ 1 := by
  simp [Within]

theorem within_cons : Within δ n (x :: l) ↔ (0 ≤ n ∧ n ≤ 1) ∧ Within δ (n + δ x) l := by
  constructor
  · intro h
    refine ⟨by simpa using h [] List.nil_prefix, fun p hp => ?_⟩
    have := h (x :: p) (List.cons_prefix_cons.2 ⟨rfl, hp⟩)
    rwa [net_cons, ← Int.add_assoc] at this
  · rintro ⟨hn, h⟩ p hp
    rcases List.prefix_cons_iff.1 hp with rfl | ⟨p, rfl, hp⟩
    · simpa using hn
    · rw [net_cons, ← Int.add_assoc]
      exact h p (List.cons_prefix_cons.1 hp).2

theorem within_append : Within δ n (l ++ l') ↔ Within δ n l ∧ Within δ (n + net δ l) l' := by
  induction l generalizing n with
  | nil =>
    rw [List.nil_append, net_nil, Int.add_zero]
    exact ⟨fun h => ⟨within_nil.2 (by simpa using h [] List.nil_prefix), h⟩, fun h => h.2⟩
  | cons x l ih =>
    rw [List.cons_append, within_cons, within_cons, ih, net_cons, Int.add_assoc]
    exact and_assoc.symm

end Bracket
