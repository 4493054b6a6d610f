import Mathlib.Data.List.Perm.Basic
import Nanomsg.Lib.Refinement

/-!
# Queues with cancellation

Some queues that are appended to and taken from at the front, and from which an element may be taken
out wherever it is. Each keeps what has been appended, taken and cancelled: what is taken and still
held has been appended in that order, and all that has been appended is accounted for
(`accounted_run`).
-/

namespace Transition

open Function

/-- Appending to a queue, taking from it, and cancelling an element of it. -/
inductive CancelOp (κ α : Type*)
  | push (k : κ) (x : α)
  | pop (k : κ)
  | remove (k : κ) (x : α)

/-- What some queues hold, and all that was done to them. -/
structure Cancel (κ α : Type*) where
  held : κ → List α
  pushed : κ → List α
  popped : κ → List α
  removed : κ → List α

namespace Cancel

variable {κ α : Type*}

/-- Nothing has been done. -/
def empty : Cancel κ α := ⟨fun _ => [], fun _ => [], fun _ => [], fun _ => []⟩

variable [DecidableEq κ] [DecidableEq α]

/-- What an operation does, and what it answers: the element taken, if it takes one. -/
def spec : Spec (Cancel κ α) (CancelOp κ α) (Option α) where
  step s
    | .push k x =>
      ({ s with
        held := update s.held k (s.held k ++ [x])
        pushed := update s.pushed k (s.pushed k ++ [x]) }, none)
    | .pop k =>
      ({ s with
        held := update s.held k (s.held k).tail
        popped := update s.popped k (s.popped k ++ (s.held k).head?.toList) }, (s.held k).head?)
    | .remove k x =>
      ({ s with
        held := update s.held k ((s.held k).erase x)
        removed := update s.removed k (s.removed k ++ if x ∈ s.held k then [x] else []) }, none)

/-- Only what is in no queue is appended to one. -/
def Pushable (s : Cancel κ α) : CancelOp κ α → Prop
  | .push _ x => ∀ k, x ∉ s.held k
  | _ => True

/-- The answers for the queue `k`. -/
def answers (k : κ) : List (CancelOp κ α) → List (Option α) → List α
  | .pop j :: ops, o :: os => if j = k then o.toList ++ answers k ops os else answers k ops os
  | _ :: ops, _ :: os => answers k ops os
  | _, _ => []

/-- What has been taken and is held has been appended in this order; what has been appended has been
    taken or cancelled, or is held. -/
structure Accounted (s : Cancel κ α) : Prop where
  order : ∀ k, (s.popped k ++ s.held k).Sublist (s.pushed k)
  all : ∀ k, (s.popped k ++ s.removed k ++ s.held k).Perm (s.pushed k)

variable {s : Cancel κ α}

omit [DecidableEq κ] [DecidableEq α] in
theorem accounted_empty : Accounted (empty : Cancel κ α) :=
  ⟨fun _ => List.Sublist.refl _, fun _ => List.Perm.refl _⟩

omit [DecidableEq α] in
/-- What is so for one queue and was so for the others. -/
theorem accounted_update (h : Accounted s) {s' : Cancel κ α} {k : κ} {hs ps os rs : List α}
    (hheld : s'.held = update s.held k hs) (hpushed : s'.pushed = update s.pushed k ps)
    (hpopped : s'.popped = update s.popped k os) (hremoved : s'.removed = update s.removed k rs)
    (horder : (os ++ hs).Sublist ps) (hall : (os ++ rs ++ hs).Perm ps) : Accounted s' := by
  refine ⟨fun j => ?_, fun j => ?_⟩
  · rw [hheld, hpushed, hpopped]
    by_cases hj : j = k
    · subst hj
      simpa using horder
    · simpa [hj] using h.order j
  · rw [hheld, hpushed, hpopped, hremoved]
    by_cases hj : j = k
    · subst hj
      simpa using hall
    · simpa [hj] using h.all j

/-- An operation keeps the account. -/
theorem accounted_step (op : CancelOp κ α) (h : Accounted s) : Accounted (spec.step s op).1 := by
  have horder := h.order
  have hall := h.all
  cases op with
  | push k x =>
    refine accounted_update h (k := k) rfl rfl (update_eq_self k s.popped).symm
      (update_eq_self k s.removed).symm ?_ ?_
    · rw [← List.append_assoc]
      exact (horder k).append (List.Sublist.refl _)
    · rw [← List.append_assoc]
      exact (hall k).append_right _
  | pop k =>
    refine accounted_update h (k := k) rfl (update_eq_self k s.pushed).symm rfl
      (update_eq_self k s.removed).symm ?_ ?_
    · cases hk : s.held k with
      | nil => simpa [hk] using horder k
      | cons x xs => simpa [hk] using horder k
    · cases hk : s.held k with
      | nil => simpa [hk] using hall k
      | cons x xs =>
        refine List.Perm.trans ?_ (hall k)
        have hmid : (x :: (s.removed k ++ xs)).Perm (s.removed k ++ x :: xs) := List.perm_middle.symm
        simpa [hk] using hmid.append_left _
  | remove k x =>
    refine accounted_update h (k := k) rfl (update_eq_self k s.pushed).symm
      (update_eq_self k s.popped).symm rfl ?_ ?_
    · exact ((List.Sublist.refl _).append List.erase_sublist).trans (horder k)
    · by_cases hx : x ∈ s.held k
      · refine List.Perm.trans ?_ (hall k)
        have hcons : (x :: (s.held k).erase x).Perm (s.held k) := (List.perm_cons_erase hx).symm
        simpa [hx] using (hcons.append_left _).append_left _
      · simpa [hx, List.erase_of_not_mem hx] using hall k

theorem accounted_run (ops : List (CancelOp κ α)) (h : Accounted s) : Accounted (spec.run s ops).1 :=
  spec.run_keeps (C := fun _ _ => True) (fun _ op h _ => accounted_step op h) h
    (Spec.allowed_of_forall (fun _ _ => trivial) s ops)

/-- What has been taken is what was answered. -/
theorem popped_run (k : κ) (ops : List (CancelOp κ α)) :
    (spec.run s ops).1.popped k = s.popped k ++ answers k ops (spec.run s ops).2 := by
  induction ops generalizing s with
  | nil => simp [answers]
  | cons op ops ih =>
    rw [Spec.run_cons, ih]
    cases op with
    | pop j =>
      by_cases hj : j = k
      · subst hj
        simp [answers, spec]
      · have hk : k ≠ j := fun h => hj h.symm
        simp [answers, spec, hj, hk]
    | push j x => rfl
    | remove j x => rfl

end Cancel

end Transition
