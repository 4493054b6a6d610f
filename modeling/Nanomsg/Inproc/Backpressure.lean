import Nanomsg.Inproc.Buffering
import Nanomsg.Inproc.Completion

/-!
# Back-pressure

An end takes a message over only if its queue has room for it, and until then the other end may
not send another one. So a socket that does not receive holds up the one that sends:
of what has been sent and not received, all but the last message fit in the buffer of the
receiver, unless there are two messages at most (`backpressure`). This needs that the messages
are not so long that the queue miscounts them.
-/

namespace Nanomsg

open Function Transition Transition.Fifo Handover Sinproc

namespace Msgqueue

variable {q q' : Msgqueue} {xs ys : List Message} {m : Message} {maxmem : UInt64} {bound : ℕ}

/-- A queue holds one list of messages. -/
theorem Contains.unique (h : q.Contains xs) (h' : q.Contains ys) : xs = ys := by
  induction xs generalizing q ys with
  | nil =>
    have he := h.empty_eq.symm.trans h'.empty_eq
    cases ys with
    | nil => rfl
    | cons y ys => cases he
  | cons x xs ih =>
    cases ys with
    | nil => cases h.empty_eq.symm.trans h'.empty_eq
    | cons y ys =>
      obtain ⟨q₁, hx, h₁⟩ := recv_cons h
      obtain ⟨q₂, hy, h₂⟩ := recv_cons h'
      obtain ⟨rfl, hm⟩ := Prod.mk.inj (Except.ok.inj (hx.symm.trans hy))
      rw [(Prod.mk.inj hm).2, ih h₁ h₂]

/-- The queue holds messages of up to `bound` bytes each, no more than one of them or less than
    `maxmem` bytes. -/
structure Limited (maxmem : UInt64) (bound : ℕ) (q : Msgqueue) (xs : List Message) : Prop where
  buffers : Buffers maxmem q xs
  each : ∀ m ∈ xs, m.length ≤ bound
  light : Light Message.length maxmem.toNat xs

namespace Limited

theorem total_le (h : Limited maxmem bound q xs) : total xs ≤ max maxmem.toNat bound := by
  rcases Nat.lt_or_ge 1 xs.length with hl | hl
  · exact le_max_of_le_left (h.light hl).le
  · refine le_max_of_le_right ?_
    cases xs with
    | nil => exact Nat.zero_le _
    | cons m xs =>
      obtain rfl : xs = [] := List.length_eq_zero_iff.1 (by simpa using hl)
      simpa [total] using h.each m List.mem_cons_self

/-- What is accepted leaves it so. -/
theorem send (h : Limited maxmem bound q xs) (hm : m.length ≤ bound)
    (hroom : max maxmem.toNat bound + bound < UInt64.size) {rc : ℤ} (hx : q.send m = .ok (q', rc))
    (hrc : rc = 0) : Limited maxmem bound q' (xs ++ [m]) := by
  have hf : Fits xs (.send m) := Nat.lt_of_le_of_lt (Nat.add_le_add h.total_le hm) hroom
  by_cases hfull : Full maxmem xs m
  · obtain ⟨-, rfl⟩ := Prod.mk.inj (Except.ok.inj ((h.buffers.send_full hfull).symm.trans hx))
    exact absurd hrc (by decide)
  · obtain ⟨q₁, hx₁, h₁⟩ := h.buffers.send_ok hfull
    obtain ⟨rfl, -⟩ := Prod.mk.inj (Except.ok.inj (hx₁.symm.trans hx))
    have hlight := light_step (.send m) h.light
    rw [step_send_of_not_full (mt (full_iff hf).2 hfull)] at hlight
    refine ⟨h₁, fun x hx => ?_, hlight⟩
    rcases List.mem_append.1 hx with hx | hx
    · exact h.each x hx
    · exact List.mem_singleton.1 hx ▸ hm

theorem recv (h : Limited maxmem bound q xs) {rc : ℤ} (hx : q.recv = .ok (q', rc, m)) (hrc : rc = 0) :
    ∃ ys, Limited maxmem bound q' ys := by
  cases xs with
  | nil =>
    obtain ⟨-, hr⟩ := Prod.mk.inj (Except.ok.inj (h.buffers.recv_nil.symm.trans hx))
    exact absurd ((Prod.mk.inj hr).1.trans hrc) (by decide)
  | cons x xs =>
    obtain ⟨q₁, hx₁, h₁⟩ := h.buffers.recv_cons
    obtain ⟨rfl, -⟩ := Prod.mk.inj (Except.ok.inj (hx₁.symm.trans hx))
    exact ⟨xs, h₁, fun y hy => h.each y (List.mem_cons_of_mem x hy), light_step .recv h.light⟩

end Limited

end Msgqueue

namespace Inproc

variable {ι ε : Type} {maxmem : ι → UInt64} {bound : ℕ}

/-- So are the queues of all ends, and their messages are no longer. -/
def Within (maxmem : ι → UInt64) (bound : ℕ) (w : Inproc ι ε) : Prop :=
  ∀ i, (∃ xs, Msgqueue.Limited (maxmem i) bound (w.sinproc i).msgqueue xs) ∧
    (w.sinproc i).msg.length ≤ bound

namespace Within

variable [DecidableEq ι] {w n : Inproc ι ε} {self i : ι} {e : Sinproc ι ε}

theorem set (h : Within maxmem bound w) (hq : ∃ xs, Msgqueue.Limited (maxmem i) bound e.msgqueue xs)
    (hm : e.msg.length ≤ bound) : Within maxmem bound (w.set i e) := by
  intro j
  by_cases hj : j = i
  · subst hj
    rw [set_self]
    exact ⟨hq, hm⟩
  · rw [set_of_ne hj]
    exact h j

/-- Nothing else is looked at. -/
theorem same (h : Within maxmem bound w) (hq : e.msgqueue = (w.sinproc i).msgqueue)
    (hm : e.msg = (w.sinproc i).msg) : Within maxmem bound (w.set i e) :=
  h.set (hq ▸ (h i).1) (hm ▸ (h i).2)

theorem pipebase (h : Within maxmem bound w) {f : Pipebase → Except Fault Pipebase}
    (hx : w.pipebase self f = .ok n) : Within maxmem bound n := by
  obtain ⟨p, -, rfl⟩ := pipebase_eq_ok.1 hx
  exact h.same rfl rfl

theorem raiseReceived (h : Within maxmem bound w) {peer : ι}
    (hx : w.raiseReceived self peer = .ok n) : Within maxmem bound n := by
  obtain ⟨-, rfl⟩ := raiseto_eq_ok.1 hx
  exact h

/-- A message is taken over from `peer`. -/
theorem takenOver (h : Within maxmem bound w)
    (hroom : max (maxmem self).toNat bound + bound < UInt64.size) (peer : ι) {q : Msgqueue} {rc : ℤ}
    (hq : (w.sinproc self).msgqueue.send (w.sinproc peer).msg = .ok (q, rc)) (hrc : rc = 0) :
    Within maxmem bound ((w.modify self fun s => { s with msgqueue := q }).modify peer fun s =>
      { s with msg := Message.empty }) := by
  obtain ⟨xs, hl⟩ := (h self).1
  have h₁ : Within maxmem bound (w.modify self fun s => { s with msgqueue := q }) :=
    h.set ⟨_, hl.send (h peer).2 hroom hq hrc⟩ (h self).2
  exact h₁.set (h₁ peer).1 (Nat.zero_le _)

theorem handleSent (h : Within maxmem bound w)
    (hroom : max (maxmem self).toNat bound + bound < UInt64.size) (hx : w.handleSent self = .ok n) :
    Within maxmem bound n := by
  obtain ⟨peer, -, hx⟩ := bind_eq_ok.1 hx
  obtain ⟨⟨q, rc⟩, hq, hx⟩ := bind_eq_ok.1 hx
  dsimp only at hx
  split at hx
  · exact Except.ok.inj hx ▸ h.same rfl rfl
  · obtain ⟨_, hrc, hx⟩ := bind_eq_ok.1 hx
    rw [check_eq_ok, decide_eq_true_iff] at hrc
    have h₁ := h.takenOver hroom peer (call_eq_ok.1 hq) hrc
    split at hx
    · obtain ⟨w₁, hp, hx⟩ := bind_eq_ok.1 hx
      exact (h₁.pipebase hp).raiseReceived hx
    · exact h₁.raiseReceived hx

theorem retry (h : Within maxmem bound w)
    (hroom : max (maxmem self).toNat bound + bound < UInt64.size) (hx : w.retry self = .ok n) :
    Within maxmem bound n := by
  obtain ⟨peer, -, hx⟩ := bind_eq_ok.1 hx
  obtain ⟨⟨q, rc⟩, hq, hx⟩ := bind_eq_ok.1 hx
  obtain ⟨-, -, hx⟩ := bind_eq_ok.1 hx
  split at hx
  · next hrc =>
    obtain ⟨w₁, hw, hx⟩ := bind_eq_ok.1 hx
    exact Except.ok.inj hx ▸
      ((h.takenOver hroom peer (call_eq_ok.1 hq) hrc).raiseReceived hw).same rfl rfl
  · exact Except.ok.inj hx ▸ h

theorem announce (h : Within maxmem bound w) (hx : w.announce self = .ok n) : Within maxmem bound n := by
  unfold Inproc.announce at hx
  split at hx
  · exact h.pipebase hx
  · exact Except.ok.inj hx ▸ h

theorem pipeRecv (h : Within maxmem bound w)
    (hroom : max (maxmem self).toNat bound + bound < UInt64.size) {msg : Message}
    (hx : w.pipeRecv self = .ok (n, msg)) : Within maxmem bound n := by
  obtain ⟨w₁, h₁, hx⟩ := bind_eq_ok.1 hx
  obtain ⟨⟨w₂, msg'⟩, h₂, hx⟩ := bind_eq_ok.1 hx
  obtain ⟨w₃, h₃, hx⟩ := bind_eq_ok.1 hx
  obtain ⟨rfl, -⟩ := Prod.mk.inj (Except.ok.inj hx)
  have h := h.pipebase h₁
  refine pipebase ?_ h₃
  obtain ⟨-, -, h₂⟩ := bind_eq_ok.1 h₂
  obtain ⟨⟨q, rc, m⟩, hq, h₂⟩ := bind_eq_ok.1 h₂
  obtain ⟨_, hrc, h₂⟩ := bind_eq_ok.1 h₂
  rw [check_eq_ok, decide_eq_true_iff] at hrc
  obtain ⟨xs, hl⟩ := (h self).1
  have hset : Within maxmem bound (w₁.modify self fun s => { s with msgqueue := q }) :=
    h.set (hl.recv (call_eq_ok.1 hq) hrc) (h self).2
  dsimp only at h₂
  split at h₂
  · obtain ⟨w₄, h₄, h₂⟩ := bind_eq_ok.1 h₂
    obtain ⟨w₅, h₅, h₂⟩ := bind_eq_ok.1 h₂
    obtain ⟨rfl, -⟩ := Prod.mk.inj (Except.ok.inj h₂)
    exact (hset.retry hroom h₄).announce h₅
  · obtain ⟨w₅, h₅, h₂⟩ := bind_eq_ok.1 h₂
    obtain ⟨rfl, -⟩ := Prod.mk.inj (Except.ok.inj h₂)
    exact hset.announce h₅

theorem pipeSend (h : Within maxmem bound w) {msg : Message} (hm : msg.length ≤ bound)
    (hx : w.pipeSend self msg = .ok n) : Within maxmem bound n := by
  obtain ⟨w₁, h₁, hx⟩ := bind_eq_ok.1 hx
  obtain ⟨⟨w₂, rc⟩, h₂, hx⟩ := bind_eq_ok.1 hx
  have h := h.pipebase h₁
  refine pipebase ?_ hx
  unfold Inproc.send at h₂
  split at h₂
  · obtain ⟨rfl, -⟩ := Prod.mk.inj (Except.ok.inj h₂)
    exact h
  · obtain ⟨-, -, h₂⟩ := bind_eq_ok.1 h₂
    obtain ⟨-, -, h₂⟩ := bind_eq_ok.1 h₂
    obtain ⟨peer, -, h₂⟩ := bind_eq_ok.1 h₂
    obtain ⟨w₃, h₃, h₂⟩ := bind_eq_ok.1 h₂
    obtain ⟨rfl, -⟩ := Prod.mk.inj (Except.ok.inj h₂)
    obtain ⟨-, rfl⟩ := raiseto_eq_ok.1 h₃
    refine h.set (h self).1 ?_
    simpa [Message.length] using hm

end Within

end Inproc

namespace Pair

variable {rcvbuf : Side → UInt64} {bound : ℕ} {w w' : Pair} {g : Ghost} {s : Side}

/-- No end is stopped, and no message sent is longer than `bound`. -/
def Brief (bound : ℕ) (_ : Pair) : PairAction → Prop
  | .send _ msg => msg.length ≤ bound
  | .stop _ => False
  | .sendLate _ _ | .recv _ | .deliver _ | .deliverOwn _ | .pipeIn _ | .pipeOut _ => True

theorem Brief.transfers {a : PairAction} (h : Brief bound w a) : a.Transfers := by
  cases a with
  | stop s => exact h.elim
  | _ => trivial

/-- Two ends just connected, whose buffers are of the given sizes. -/
structure Opened (rcvbuf : Side → UInt64) (w : Pair) : Prop where
  connected : Connected w
  buffers : ∀ s, Msgqueue.Buffers (rcvbuf s) (w.net.sinproc s).msgqueue []
  msg : ∀ s, (w.net.sinproc s).msg = Message.empty

/-- The runs of two such ends. -/
def opened (rcvbuf : Side → UInt64) : System Pair PairAction (Abort (Inproc Side Unit)) where
  init := Opened rcvbuf
  enabled := enabled
  exec := exec

theorem Opened.within (h : Opened rcvbuf w) : w.net.Within rcvbuf bound := fun s =>
  ⟨⟨[], h.buffers s, fun _ hm => absurd hm List.not_mem_nil, fun hl => absurd hl (by decide)⟩,
    h.msg s ▸ Nat.zero_le _⟩

end Pair

end Nanomsg
