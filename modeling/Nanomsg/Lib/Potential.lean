import Mathlib.Algebra.BigOperators.Group.Finset.Basic
import Mathlib.Algebra.Order.Ring.Nat
import Nanomsg.Lib.System

/-!
# How much is left to do

A *potential* says of every state how much is left to do, at most. Some of the actions do
some of it, others *give* more to do (`Potential`). Then a run does no more than what was
left and what has been given (`Potential.countP_le`); and if there is always something to do
until some goal is met, doing it meets the goal (`Potential.reach_done`).

The states are those of an invariant, and the actions may be limited to those meeting a condition
(`System.limit`). The work of several parties is the sum of what each has to do, of which an action
of one party changes a single summand (`sum_add_eq`).
-/

namespace Transition

open Finset

/-- Two sums that differ in one summand. -/
theorem sum_add_eq {τ : Type*} [Fintype τ] [DecidableEq τ] {f g : τ → ℕ} {t : τ}
    (h : ∀ t', t' ≠ t → g t' = f t') : ∑ t', g t' + f t = ∑ t', f t' + g t := by
  have hrest : ∑ t' ∈ univ.erase t, g t' = ∑ t' ∈ univ.erase t, f t' :=
    sum_congr rfl fun t' ht => h t' (ne_of_mem_erase ht)
  rw [← add_sum_erase univ f (mem_univ t), ← add_sum_erase univ g (mem_univ t), hrest]
  omega

/-- What is given each time something happens. -/
theorem sum_map_mul_toNat {α : Type*} (k : ℕ) (p : α → Bool) (as : List α) :
    (as.map fun a => k * (p a).toNat).sum = k * as.countP p := by
  induction as with
  | nil => rfl
  | cons a as ih =>
    rw [List.map_cons, List.sum_cons, ih, List.countP_cons]
    cases p a <;> simp [Nat.mul_add, Nat.add_comm]

namespace System

variable {σ α ε : Type*}

/-- The system in which only the actions that meet `C` may be taken. -/
def limit (S : System σ α ε) (C : σ → α → Prop) : System σ α ε where
  init := S.init
  enabled s a := S.enabled s a ∧ C s a
  exec := S.exec

theorem Run.of_limit {S : System σ α ε} {C : σ → α → Prop} {s s' : σ} {as : List α}
    (h : (S.limit C).Run s as s') : S.Run s as s' := by
  induction h with
  | nil s => exact .nil s
  | cons he hx _ ih => exact .cons he.1 hx ih

/-- A potential `Φ` of the states meeting `I`: the actions that `works` says do a part of what is
    left, the others none, and every action `a` gives `gives a` more. -/
structure Potential (S : System σ α ε) (I : σ → Prop) (Φ : σ → ℕ) (works : α → Bool)
    (gives : α → ℕ) : Prop where
  keeps : ∀ {s a s'}, I s → S.enabled s a → S.exec s a = .ok s' → I s'
  pays : ∀ {s a s'}, I s → S.enabled s a → S.exec s a = .ok s' →
    Φ s' + (works a).toNat ≤ Φ s + gives a

namespace Potential

variable {S : System σ α ε} {I : σ → Prop} {Φ : σ → ℕ} {works : α → Bool} {gives : α → ℕ}

/-- A run does no more than what was left, and what it gives to do. -/
theorem countP_le (h : S.Potential I Φ works gives) {s s' : σ} {as : List α} (hs : I s)
    (hr : S.Run s as s') : I s' ∧ Φ s' + as.countP works ≤ Φ s + (as.map gives).sum := by
  induction hr with
  | nil => simpa using hs
  | @cons s t s' a as he hx _ ih =>
    obtain ⟨hs', hle⟩ := ih (h.keeps hs he hx)
    have hpay := h.pays hs he hx
    refine ⟨hs', ?_⟩
    have hcount : (a :: as).countP works = as.countP works + (works a).toNat := by
      rw [List.countP_cons]
      cases works a <;> rfl
    rw [List.map_cons, List.sum_cons, hcount]
    omega

/-- What is always possible until `Done`, and gives nothing more to do, leads there. -/
theorem reach_done (h : S.Potential I Φ works gives) {W : α → Prop} {Done : σ → Prop}
    (hw : ∀ a, W a → works a = true ∧ gives a = 0)
    (hgo : ∀ s, I s → ¬ Done s → ∃ a s', W a ∧ S.enabled s a ∧ S.exec s a = .ok s') {s : σ}
    (hs : I s) : ∃ as s', (∀ a ∈ as, W a) ∧ S.Run s as s' ∧ I s' ∧ Done s' := by
  induction hn : Φ s using Nat.strongRecOn generalizing s with
  | ind n ih =>
    by_cases hd : Done s
    · exact ⟨[], s, List.forall_mem_nil _, .nil s, hs, hd⟩
    · obtain ⟨a, t, ha, he, hx⟩ := hgo s hs hd
      have hpay := h.pays hs he hx
      rw [(hw a ha).1, (hw a ha).2, Bool.toNat_true] at hpay
      obtain ⟨as, s', has, hr, hi, hd'⟩ := ih (Φ t) (by omega) (h.keeps hs he hx) rfl
      exact ⟨a :: as, s', List.forall_mem_cons.2 ⟨ha, has⟩, .cons he hx hr, hi, hd'⟩

end Potential

end System

end Transition
