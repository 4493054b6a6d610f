import Nanomsg.Lib.Cancel
import Nanomsg.Utils.Queue

/-!
# What queues are for

Any calls of `nn_queue_push`, `nn_queue_pop` and `nn_queue_remove`, on any queues, are answered as by
queues with cancellation (`refines`): `nn_queue_remove` takes an item out of the queue it is called
for, wherever it is there, and otherwise does nothing.

`pushes`, which is not part of the source, counts the calls of `nn_queue_push`: it bounds the loop
of `nn_queue_remove`.
-/

namespace Nanomsg

open Function Intrusive Transition

variable {κ ι : Type} [DecidableEq κ] [DecidableEq ι]

/-- The queues of a process, and how often has been pushed. -/
structure QueueRun (κ ι : Type) where
  queues : Queues κ ι
  pushes : ℕ

namespace QueueRun

/-- All queues and all items are initialised. -/
def init : QueueRun κ ι := ⟨⟨fun _ => .null, fun _ => .null, fun _ => .out⟩, 0⟩

/-- A queue answers `nn_queue_pop`. -/
def program : Program (QueueRun κ ι) (CancelOp κ ι) (Option ι) Fault where
  exec s
    | .push k x => do
      let q ← s.queues.push k x
      pure (⟨q, s.pushes + 1⟩, none)
    | .pop k => do
      let (q, x) ← s.queues.pop k
      pure (⟨q, s.pushes⟩, x)
    | .remove k x => do
      let q ← s.queues.remove (s.pushes + 1) k x
      pure (⟨q, s.pushes⟩, none)

/-- The queues hold what they should, and not more than has been pushed. -/
structure Tracks (s : QueueRun κ ι) (a : Cancel κ ι) : Prop where
  holds : Holds s.queues a.held
  length : ∀ k, (a.held k).length ≤ s.pushes

variable {q : Queues κ ι} {a : κ → List ι} {x : ι} {k : κ} {n : ℕ} {s : QueueRun κ ι}
  {c : Cancel κ ι}

omit [DecidableEq κ] [DecidableEq ι] in
theorem tracks_init : Tracks (init : QueueRun κ ι) Cancel.empty where
  holds :=
    ⟨⟨fun _ => List.nodup_nil, fun hx => absurd hx List.not_mem_nil⟩, fun _ => rfl, fun _ => rfl,
      fun _ => iff_of_true rfl fun _ => List.not_mem_nil⟩
  length := fun _ => Nat.le_refl 0

theorem refines : (program (κ := κ) (ι := ι)).Refines Cancel.spec Cancel.Pushable Tracks := by
  rintro s c op ⟨h, hlen⟩ ha
  cases op with
  | push k x =>
    obtain ⟨q', hp, h'⟩ := h.push_spec ha k
    refine ⟨⟨q', s.pushes + 1⟩, by simp [program, hp, Cancel.spec], h', fun j => ?_⟩
    have hj := hlen j
    by_cases hjk : j = k
    · subst hjk
      simpa [Cancel.spec] using hj
    · simpa [Cancel.spec, hjk] using Nat.le_succ_of_le hj
  | pop k =>
    cases hk : c.held k with
    | nil =>
      have hheld : update c.held k (c.held k).tail = c.held := by
        rw [hk, List.tail_nil, ← hk, update_eq_self]
      refine ⟨s, by simp [program, h.pop_nil hk, Cancel.spec, hk], ?_⟩
      constructor
      · simpa [Cancel.spec, hheld] using h
      · simpa [Cancel.spec, hheld] using hlen
    | cons x xs =>
      obtain ⟨q', hp, h'⟩ := h.pop_cons hk
      refine ⟨⟨q', s.pushes⟩, by simp [program, hp, Cancel.spec, hk], ?_, fun j => ?_⟩
      · simpa [Cancel.spec, hk] using h'
      · have hj := hlen j
        by_cases hjk : j = k
        · subst hjk
          rw [hk, List.length_cons] at hj
          simpa [Cancel.spec, hk] using Nat.le_of_succ_le hj
        · simpa [Cancel.spec, hjk] using hj
  | remove k x =>
    obtain ⟨q', hr, h'⟩ := h.remove_spec (Nat.lt_succ_of_le (hlen k)) x
    refine ⟨⟨q', s.pushes⟩, by simp [program, hr, Cancel.spec], h', fun j => ?_⟩
    have hj := hlen j
    by_cases hjk : j = k
    · subst hjk
      simpa [Cancel.spec] using Nat.le_trans List.length_erase_le hj
    · simpa [Cancel.spec, hjk] using hj

/-- What the pointers of the queues say, the queue `k` holding `a k`. -/
structure Shown (q : Queues κ ι) (a : κ → List ι) : Prop where
  chain : ∀ k, Chain q.next (q.head k) (a k) .null
  separate : Separate a
  head_null : ∀ k, q.head k = .null ↔ a k = []
  tail_null : ∀ k, q.head k = .null ↔ q.tail k = .null
  tail : ∀ k xs x, a k = xs ++ [x] → q.tail k = .node x
  isinqueue : ∀ x, q.itemIsinqueue x = true ↔ ∃ k, x ∈ a k
  /-- However long the loop may take, it ends, and only the item is taken out. -/
  remove : ∀ k x n, (a k).length < n → ∃ q', q.remove n k x = .ok q' ∧
    Holds q' (update a k ((a k).erase x)) ∧ (x ∉ a k → q' = q)

theorem shown (h : Holds q a) : Shown q a where
  chain := h.chain
  separate := h.separate
  head_null k := by rw [h.head_eq, Link.head_eq_null]
  tail_null k := by rw [h.head_eq, h.tail, Link.head_eq_null, Link.head_eq_null, List.reverse_eq_nil_iff]
  tail k xs x hk := by rw [h.tail, hk, List.reverse_append, List.reverse_singleton,
    List.singleton_append, Link.head_cons]
  isinqueue _ := h.isinqueue_iff
  remove k x n hn := by
    obtain ⟨q', hr, h'⟩ := h.remove_spec hn x
    exact ⟨q', hr, h', fun hx => Except.ok.inj (hr.symm.trans (h.remove_not_mem hn hx))⟩

/-- After any calls that push no item twice at a time, `nn_queue_pop` has answered what has been
    pushed and not removed, in the order of pushing, and the pointers show what is left. -/
theorem queue_correct (ops : List (CancelOp κ ι))
    (hops : Cancel.spec.Allowed Cancel.Pushable Cancel.empty ops) :
    ∃ s, program.run init ops = .ok (s, (Cancel.spec.run Cancel.empty ops).2) ∧
      Shown s.queues (Cancel.spec.run Cancel.empty ops).1.held ∧
      Cancel.Accounted (Cancel.spec.run Cancel.empty ops).1 ∧
      (∀ k, (Cancel.spec.run Cancel.empty ops).1.popped k =
        Cancel.answers k ops (Cancel.spec.run Cancel.empty ops).2) ∧
      ∀ k, ∃ q', s.queues.pop k =
        .ok (q', ((Cancel.spec.run Cancel.empty ops).1.held k).head?) := by
  obtain ⟨s, hr, h⟩ := refines.run tracks_init hops
  refine ⟨s, hr, shown h.holds, Cancel.accounted_run ops Cancel.accounted_empty,
    fun k => Cancel.popped_run k ops, fun k => ?_⟩
  cases hk : (Cancel.spec.run Cancel.empty ops).1.held k with
  | nil => exact ⟨s.queues, h.holds.pop_nil hk⟩
  | cons x xs =>
    obtain ⟨q', hp, -⟩ := h.holds.pop_cons hk
    exact ⟨q', hp⟩

/-- Two queues, of whose items one is cancelled. -/
theorem queue_correct_cancelled :
    ∃ s, program.run init [.push true 0, .push true 1, .push false 2, .remove true 1,
        .remove true 2, .pop true, .pop true] =
      .ok (s, [none, none, none, none, none, some 0, none]) ∧
      s.queues.itemIsinqueue 2 = true := by
  obtain ⟨s, hr, h, -⟩ := queue_correct (κ := Bool) (ι := ℕ) [.push true 0, .push true 1,
    .push false 2, .remove true 1, .remove true 2, .pop true, .pop true]
    ⟨fun k => by cases k <;> decide, fun k => by cases k <;> decide, fun k => by cases k <;> decide,
      trivial, trivial, trivial, trivial, trivial⟩
  exact ⟨s, hr, (h.isinqueue 2).2 ⟨false, by decide⟩⟩

end QueueRun

end Nanomsg
