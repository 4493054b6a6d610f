import Mathlib.Data.UInt
import Nanomsg.Inproc.Msgqueue
import Nanomsg.Lib.Fifo

/-!
# Runs of `nn_msgqueue`

Any calls of `nn_msgqueue_send` and `nn_msgqueue_recv`, made on a queue that
`nn_msgqueue_init` has made. The queue answers as a FIFO does which is full when
it is not empty and `mem` and the size of the message add to `maxmem` or more
(`Full`), and keeps every message and every chunk accounted for (`Buffers`).

`mem` is a `size_t`, and so is what is compared with `maxmem`. Nothing checks
that the additions do not overflow: as long as they do not (`Fits`), `mem` is the
number of bytes in the queue, and the bound is kept to; 2²⁴ copies of a message of
2⁴⁰ bytes are all accepted, whatever the bound, and leave `mem` at 0.
-/

namespace Nanomsg

open Transition Transition.Fifo

/-- The number of bytes of both parts. -/
def Message.length (m : Message) : ℕ := m.sphdr.length + m.body.length

theorem Message.size_eq (m : Message) : m.size = UInt64.ofNat m.length :=
  (UInt64.ofNat_add _ _).symm

namespace Msgqueue

/-- A call, which fails if it returns something else than 0 or `-EAGAIN`. -/
def program : Program Msgqueue (FifoOp Message) (FifoReply Message) Fault where
  exec
    | q, .send m => do
      let (q, rc) ← q.send m
      nnAssert (rc = 0 ∨ rc = -Errno.eagain)
      pure (q, if rc = 0 then .sent else .again)
    | q, .recv => do
      let (q, rc, m) ← q.recv
      nnAssert (rc = 0 ∨ rc = -Errno.eagain)
      pure (q, if rc = 0 then .received m else .again)

/-- The number of bytes of some messages, as a `size_t`. -/
def memory (xs : List Message) : UInt64 := (xs.map Message.size).sum

/-- There is no room for `m` behind `xs`. -/
def Full (maxmem : UInt64) (xs : List Message) (m : Message) : Prop :=
  xs ≠ [] ∧ maxmem ≤ memory xs + m.size

instance (maxmem : UInt64) (xs : List Message) (m : Message) : Decidable (Full maxmem xs m) :=
  inferInstanceAs (Decidable (_ ∧ _))

/-- The queue holds `xs`, in a list of chunks from `in` to `out` which is no longer than
    they need, and leaves none behind. -/
structure Buffers (maxmem : UInt64) (q : Msgqueue) (xs : List Message) : Prop where
  rep : ∃ cs, Rep q cs xs ∧ Owned q cs ∧
    q.inPos + q.count = msgqueueGranularity * (cs.length - 1) + q.outPos
  mem : q.mem = memory xs
  maxmem : q.maxmem = maxmem

variable {maxmem : UInt64} {q : Msgqueue} {cs : List ℕ} {xs : List Message} {m : Message}

/-- From the slot `in` to the slot `out` there are as many as there are messages. -/
theorem Rep.count_eq (h : Rep q cs xs) :
    q.inPos + q.count = msgqueueGranularity * (cs.length - 1) + q.outPos := by
  rw [h.count, h.length, h.outPos, Nat.add_sub_cancel, Nat.div_add_mod]

theorem memory_append (xs : List Message) (m : Message) :
    memory (xs ++ [m]) = memory xs + m.size := by simp [memory]

namespace Buffers

/-- A message there is no room for changes nothing. -/
theorem send_full (h : Buffers maxmem q xs) (hf : Full maxmem xs m) :
    q.send m = .ok (q, -Errno.eagain) := by
  obtain ⟨cs, hr, -⟩ := h.rep
  exact Msgqueue.send_full ⟨cs, hr⟩ hf.1 (h.mem ▸ h.maxmem ▸ hf.2)

theorem send_ok (h : Buffers maxmem q xs) (hf : ¬ Full maxmem xs m) :
    ∃ q', q.send m = .ok (q', 0) ∧ Buffers maxmem q' (xs ++ [m]) := by
  obtain ⟨cs, hr, hown, -⟩ := h.rep
  have hroom : xs = [] ∨ ¬ q.mem + m.size ≥ q.maxmem := by
    rw [h.mem, h.maxmem]
    exact or_iff_not_imp_left.2 fun hxs hle => hf ⟨hxs, hle⟩
  obtain ⟨q', cs', hx, hr', hmem, hmax, hown'⟩ := hr.send_ok hroom
  exact ⟨q', hx, ⟨cs', hr', hown' hown, hr'.count_eq⟩, by rw [hmem, h.mem, memory_append],
    hmax.trans h.maxmem⟩

theorem recv_nil (h : Buffers maxmem q []) :
    q.recv = .ok (q, -Errno.eagain, Message.empty) := by
  obtain ⟨cs, hr, -⟩ := h.rep
  exact Msgqueue.recv_nil ⟨cs, hr⟩

theorem recv_cons (h : Buffers maxmem q (m :: xs)) :
    ∃ q', q.recv = .ok (q', 0, m) ∧ Buffers maxmem q' xs := by
  obtain ⟨cs, hr, hown, -⟩ := h.rep
  obtain ⟨q', cs', hx, hr', hmem, hmax, hown'⟩ := hr.recv_cons
  refine ⟨q', hx, ⟨cs', hr', hown' hown, hr'.count_eq⟩, ?_, hmax.trans h.maxmem⟩
  rw [hmem, h.mem, memory, List.map_cons, List.sum_cons, UInt64.add_comm]
  exact UInt64.add_sub_cancel _ _

/-- Terminating the queue gives up each message and frees each chunk, once. -/
theorem term_ok (h : Buffers maxmem q xs) :
    ∃ q', q.term = .ok (q', xs) ∧ q'.freed.Perm (List.range q'.allocs) := by
  obtain ⟨cs, hr, hown, -⟩ := h.rep
  exact hr.term_spec hown

end Buffers

/-- The number of bytes of some messages. -/
abbrev total (xs : List Message) : ℕ := (xs.map Message.length).sum

/-- A message sent and those queued are less than 2⁶⁴ bytes. -/
def Fits (xs : List Message) : FifoOp Message → Prop
  | .send m => total xs + m.length < UInt64.size
  | .recv => True

theorem memory_eq (xs : List Message) : memory xs = UInt64.ofNat (total xs) := by
  induction xs with
  | nil => rfl
  | cons m xs ih =>
    have hm : memory (m :: xs) = m.size + memory xs := List.sum_cons
    rw [hm, ih, m.size_eq, ← UInt64.ofNat_add]
    rfl

/-- What fits is refused when the bound is reached. -/
theorem full_iff (hf : Fits xs (.send m)) :
    Full maxmem xs m ↔ Reaches Message.length maxmem.toNat xs m := by
  rw [Full, Reaches, memory_eq, m.size_eq, ← UInt64.ofNat_add, UInt64.le_iff_toNat_le,
    UInt64.toNat_ofNat_of_lt' hf]

/-- The state and the replies of a FIFO without overflow. -/
structure Bounded (maxmem : UInt64) (is : List (FifoOp Message)) (q : Msgqueue)
    (out : List Message × List (FifoReply Message)) : Prop where
  run : out = (spec (Reaches Message.length maxmem.toNat)).run [] is
  mem : q.mem.toNat = total out.1
  light : 1 < q.count → q.mem < q.maxmem

end Msgqueue

end Nanomsg
