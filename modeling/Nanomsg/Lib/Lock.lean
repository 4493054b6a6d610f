import Mathlib.Logic.Function.Basic
import Mathlib.Tactic.Common

/-!
# Locks

A lock has an owner, or none, and threads are at points of their programs, at some of which they
hold it. That the two say the same (`Owned`) is kept when a thread locks a free lock, when the owner
unlocks it and when a thread goes on to a point that is like the one before.
-/

namespace Locking

open Function

variable {τ ρ : Type*} {holds : ρ → Bool} {owner : Option τ} {spot : τ → ρ} {t u : τ} {p : ρ}

/-- The owner of the lock is at a point where it holds it, and nobody else is. -/
def Owned (holds : ρ → Bool) (owner : Option τ) (spot : τ → ρ) : Prop :=
  ∀ t, owner = some t ↔ holds (spot t) = true

namespace Owned

theorem free (h : Owned holds none spot) (t : τ) : holds (spot t) = false := by
  by_contra ht
  exact absurd ((h t).2 (by simpa using ht)) (by simp)

variable [DecidableEq τ]

theorem lock (h : Owned holds none spot) (hp : holds p = true) :
    Owned holds (some t) (update spot t p) := by
  intro u
  by_cases hu : u = t
  · subst hu
    simp [hp]
  · rw [update_of_ne hu, h.free u]
    simp [Ne.symm hu]

theorem unlock (h : Owned holds (some t) spot) (hp : holds p = false) :
    Owned holds none (update spot t p) := by
  intro u
  by_cases hu : u = t
  · subst hu
    simp [hp]
  · rw [update_of_ne hu, ← h u]
    simp [Ne.symm hu]

theorem move (h : Owned holds owner spot) (hp : holds p = holds (spot t)) :
    Owned holds owner (update spot t p) := by
  intro u
  by_cases hu : u = t
  · subst hu
    rw [update_self, hp]
    exact h u
  · rw [update_of_ne hu]
    exact h u

end Owned

end Locking
