import Mathlib.Data.Int.Bitwise
import Nanomsg.Core.Pipe
import Nanomsg.Lib.Credit
import Nanomsg.Lib.System

/-!
# The permissions of a pipe

A protocol may send to a pipe, or receive from it, once for each permission:
`NN_PIPE_OUT` or `NN_PIPE_IN` is processed, or the last call returns without
`NN_PIPEBASE_RELEASE`. The transport reports each message sent
(`nn_pipebase_sent`) and each one that has come (`nn_pipebase_received`),
while its callback is running or later.

Sending and receiving are two instances of `Credit`. The transport owes a report of
each message that it sends; it may report a message that has come when the one before
has been taken. A run goes from `nn_pipebase_start` to `nn_pipebase_stop`.

`credits_correct`: each report gives one permission, and no assertion fails, if no
callback returns an error or has set the bit `NN_PIPEBASE_RELEASE` itself.
-/

namespace Nanomsg

open Transition Credit

namespace Pipebase

/-- `NN_PIPEBASE_RELEASE`. -/
abbrev release : ℤ := 1

/-- What is returned has the bit `NN_PIPEBASE_RELEASE`. -/
def releases (rc : ℤ) : Bool := rc.testBit 0

variable (self : Pipebase)

/-- What `nn_pipe_send` returns, `send` having returned `rc`. -/
def sendReturn (rc : ℤ) : ℤ := if self.outstate = .sent then rc else rc.lor release

/-- What `nn_pipe_recv` returns, `recv` having returned `rc`. -/
def recvReturn (rc : ℤ) : ℤ := if self.instate = .received then rc else rc.lor release

theorem releases_lor (rc : ℤ) : releases (rc.lor release) = true := by
  rw [releases, Int.testBit_lor, show release.testBit 0 = true from rfl, Bool.or_true]

end Pipebase

/-- A pipe, and what its protocol and its transport have done with it. -/
structure Credits where
  pipe : Pipebase
  send : Usage
  recv : Usage

/-- What happens to a pipe. -/
inductive CreditAction
  /-- `nn_pipe_send`, up to the callback. -/
  | send
  /-- The callback returns `rc`, and `nn_pipe_send` returns. -/
  | sendReturns (rc : ℤ)
  /-- `nn_pipebase_sent`. -/
  | sent
  /-- `NN_PIPE_OUT` is processed. -/
  | processOut
  /-- `nn_pipe_recv`, up to the callback. -/
  | recv
  | recvReturns (rc : ℤ)
  /-- `nn_pipebase_received`. -/
  | received
  /-- `NN_PIPE_IN` is processed. -/
  | processIn
  /-- `nn_pipebase_stop`. -/
  | stop

namespace Credits

/-- A pipe just started. It may be sent to once `NN_PIPE_OUT` is processed, and the
    transport may report a message. -/
def opened (pipe : Pipebase) : Credits where
  pipe := pipe
  send := ⟨false, false, false, 0, 1⟩
  recv := ⟨false, false, true, 0, 0⟩

variable (callback : ℤ → Prop) (w : Credits)

/-- What the protocol and the transport may do, the callbacks returning what
    `callback` allows. -/
def enabled (a : CreditAction) : Prop :=
  w.pipe.state = .active ∧
    match a with
    | .send => w.send.held = true
    | .sendReturns rc => w.send.calling = true ∧ callback rc
    | .sent => w.send.due = true
    | .processOut => w.pipe.outQueued = true
    | .recv => w.recv.held = true
    | .recvReturns rc => w.recv.calling = true ∧ callback rc
    | .received => w.recv.due = true
    | .processIn => w.pipe.inQueued = true
    | .stop => True

def exec : CreditAction → Except Fault Credits
  | .send => do
    let p ← w.pipe.beginSend
    pure { w with pipe := p, send := w.send.call }
  | .sendReturns rc => do
    let p ← w.pipe.endSend rc
    pure { w with pipe := p, send := w.send.ret (!Pipebase.releases (w.pipe.sendReturn rc)) }
  | .sent => do
    let p ← w.pipe.sent
    pure { w with pipe := p, send := w.send.report (p.outQueued && !w.pipe.outQueued) }
  | .processOut => .ok { w with
      pipe := { w.pipe with outQueued := false }, send := w.send.deliver }
  | .recv => do
    let p ← w.pipe.beginRecv
    pure { w with pipe := p, recv := w.recv.call }
  | .recvReturns rc => do
    let p ← w.pipe.endRecv rc
    pure { w with pipe := p, recv := w.recv.ret (!Pipebase.releases (w.pipe.recvReturn rc)) }
  | .received => do
    let p ← w.pipe.received
    pure { w with pipe := p, recv := w.recv.report (p.inQueued && !w.pipe.inQueued) }
  | .processIn => .ok { w with
      pipe := { w.pipe with inQueued := false }, recv := w.recv.deliver }
  | .stop => .ok { w with pipe := w.pipe.stop }

/-- The runs of a pipe from `nn_pipebase_start` to `nn_pipebase_stop`. -/
def system : System Credits CreditAction Fault where
  init w := ∃ (pipe : Pipebase) (rc : ℤ), pipe.inQueued = false ∧ pipe.outQueued = false ∧
    pipe.start rc = .ok (w.pipe, 0) ∧ w = opened w.pipe
  enabled := enabled callback
  exec := exec

/-- The protocol has a permission or an event is on its way, not both, exactly
    while the pipe is idle. Each report gives one permission, which in a callback
    is given when it returns, and is owed only as long as the callback runs; the first
    one to send is given by the start. -/
structure Right (w : Credits) : Prop where
  send : w.pipe.outstate = .idle ↔ w.send.held = true ∨ w.pipe.outQueued = true
  send_once : ¬ (w.send.held = true ∧ w.pipe.outQueued = true)
  sent : w.send.granted + (if w.pipe.outstate = .sent then 1 else 0) = w.send.reports + 1
  sent_calling : w.pipe.outstate = .sent → w.send.calling = true
  recv : w.pipe.instate = .idle ↔ w.recv.held = true ∨ w.pipe.inQueued = true
  recv_once : ¬ (w.recv.held = true ∧ w.pipe.inQueued = true)
  received : w.recv.granted + (if w.pipe.instate = .received then 1 else 0) = w.recv.reports
  received_calling : w.pipe.instate = .received → w.recv.calling = true

/-! ### The two directions -/

/-- The state of a pipe that sends. -/
def outstate : Phase → Outstate
  | .idle => .idle
  | .calling => .sending
  | .reported => .sent
  | .waiting => .async

/-- The state of one that receives. -/
def instate : Phase → Instate
  | .idle => .idle
  | .calling => .receiving
  | .reported => .received
  | .waiting => .async

/-- Both directions are balanced. -/
structure Inv (w : Credits) (s r : Phase) : Prop where
  outstate : w.pipe.outstate = outstate s
  send : Balanced 1 s w.pipe.outQueued w.send
  instate : w.pipe.instate = instate r
  recv : Balanced 0 r w.pipe.inQueued w.recv

variable {callback w} {s r : Phase} {rc : ℤ}

theorem Inv.right (h : Inv w s r) : Right w where
  send := by
    rw [h.outstate, ← h.send.idle_iff]
    cases s <;> simp [Credits.outstate]
  send_once := h.send.once
  sent := by
    rw [h.outstate, ← h.send.count]
    cases s <;> simp [Credits.outstate]
  sent_calling := by
    rw [h.outstate, h.send.calling_iff]
    cases s <;> simp [Credits.outstate]
  recv := by
    rw [h.instate, ← h.recv.idle_iff]
    cases r <;> simp [Credits.instate]
  recv_once := h.recv.once
  received := by
    rw [h.instate, ← Nat.add_zero w.recv.reports, ← h.recv.count]
    cases r <;> simp [Credits.instate]
  received_calling := by
    rw [h.instate, h.recv.calling_iff]
    cases r <;> simp [Credits.instate]

/-- A start that is not refused leaves a pipe to send to, which waits for a message. -/
theorem inv_init (h : (system callback).init w) : Inv w .idle .waiting := by
  obtain ⟨pipe, rc, hin, hout, hs, hw⟩ := h
  have hidle : pipe.state = .idle := by
    by_contra hne
    simp [Pipebase.start, hne] at hs
  have hrc : 0 ≤ rc := by
    by_contra hlt
    rw [Pipebase.start_refused hidle (by omega)] at hs
    obtain ⟨-, rfl⟩ := Prod.mk.inj (Except.ok.inj hs)
    omega
  rw [Pipebase.start_ok hidle hout hrc] at hs
  have hpipe := (Prod.mk.inj (Except.ok.inj hs)).1
  rw [hw, ← hpipe]
  exact ⟨rfl, ⟨by simp [opened], by simp [opened], by simp [opened], by simp [opened], rfl⟩,
    rfl, ⟨by simp [opened, hin], by simp [opened], by simp [opened], by simp [opened], rfl⟩⟩

/-! ### What each move keeps -/

theorem inv_send (h : Inv w s r) (hheld : w.send.held = true) :
    ∃ w', w.exec .send = .ok w' ∧ Inv w' .calling r := by
  obtain ⟨rfl, hb⟩ := h.send.call hheld
  have ho : w.pipe.outstate = .idle := h.outstate
  exact ⟨{ w with pipe := { w.pipe with outstate := .sending }, send := w.send.call },
    by simp [exec, Pipebase.beginSend, ho], rfl, hb, h.instate, h.recv⟩

theorem inv_recv (h : Inv w s r) (hheld : w.recv.held = true) :
    ∃ w', w.exec .recv = .ok w' ∧ Inv w' s .calling := by
  obtain ⟨rfl, hb⟩ := h.recv.call hheld
  have hi : w.pipe.instate = .idle := h.instate
  exact ⟨{ w with pipe := { w.pipe with instate := .receiving }, recv := w.recv.call },
    by simp [exec, Pipebase.beginRecv, hi], h.outstate, h.send, rfl, hb⟩

/-- A callback of `nn_pipe_send` returns, before or after its report. -/
theorem inv_sendReturns (h : Inv w s r) (hcall : w.send.calling = true) (hrc : 0 ≤ rc)
    (hrel : Pipebase.releases rc = false) :
    ∃ s' w', w.exec (.sendReturns rc) = .ok w' ∧ Inv w' s' r := by
  obtain rfl | rfl := h.send.calling_iff.1 hcall
  · have ho : w.pipe.outstate = .sending := h.outstate
    refine ⟨.waiting, { w with
      pipe := { w.pipe with outstate := .async }
      send := w.send.ret false }, ?_, rfl, h.send.ret_calling, h.instate, h.recv⟩
    simp [exec, Pipebase.endSend, ho, hrc, Pipebase.sendReturn, Pipebase.releases_lor]
  · have ho : w.pipe.outstate = .sent := h.outstate
    refine ⟨.idle, { w with
      pipe := { w.pipe with outstate := .idle }
      send := w.send.ret true }, ?_, rfl, h.send.ret_reported, h.instate, h.recv⟩
    simp [exec, Pipebase.endSend, ho, hrc, Pipebase.sendReturn, hrel]

theorem inv_recvReturns (h : Inv w s r) (hcall : w.recv.calling = true) (hrc : 0 ≤ rc)
    (hrel : Pipebase.releases rc = false) :
    ∃ r' w', w.exec (.recvReturns rc) = .ok w' ∧ Inv w' s r' := by
  obtain rfl | rfl := h.recv.calling_iff.1 hcall
  · have hi : w.pipe.instate = .receiving := h.instate
    refine ⟨.waiting, { w with
      pipe := { w.pipe with instate := .async }
      recv := w.recv.ret false }, ?_, h.outstate, h.send, rfl, h.recv.ret_calling⟩
    simp [exec, Pipebase.endRecv, hi, hrc, Pipebase.recvReturn, Pipebase.releases_lor]
  · have hi : w.pipe.instate = .received := h.instate
    refine ⟨.idle, { w with
      pipe := { w.pipe with instate := .idle }
      recv := w.recv.ret true }, ?_, h.outstate, h.send, rfl, h.recv.ret_reported⟩
    simp [exec, Pipebase.endRecv, hi, hrc, Pipebase.recvReturn, hrel]

/-- A report inside the callback is kept for its return; a later one raises the event,
    which is not queued then. -/
theorem inv_sent (h : Inv w s r) (hdue : w.send.due = true) :
    ∃ s' w', w.exec .sent = .ok w' ∧ Inv w' s' r := by
  obtain rfl | rfl := h.send.due_iff.1 hdue
  · have ho : w.pipe.outstate = .sending := h.outstate
    refine ⟨.reported, { w with
      pipe := { w.pipe with outstate := .sent }
      send := w.send.report false }, ?_, rfl, h.send.report_calling, h.instate, h.recv⟩
    simp [exec, Pipebase.sent, ho]
  · have ho : w.pipe.outstate = .async := h.outstate
    obtain ⟨hq, hb⟩ := h.send.report_waiting
    refine ⟨.idle, { w with
      pipe := { w.pipe with outstate := .idle, outQueued := true }
      send := w.send.report true }, ?_, rfl, hb, h.instate, h.recv⟩
    simp [exec, Pipebase.sent_async ho hq, hq]

theorem inv_received (h : Inv w s r) (hdue : w.recv.due = true) :
    ∃ r' w', w.exec .received = .ok w' ∧ Inv w' s r' := by
  obtain rfl | rfl := h.recv.due_iff.1 hdue
  · have hi : w.pipe.instate = .receiving := h.instate
    refine ⟨.reported, { w with
      pipe := { w.pipe with instate := .received }
      recv := w.recv.report false }, ?_, h.outstate, h.send, rfl, h.recv.report_calling⟩
    simp [exec, Pipebase.received_receiving hi]
  · have hi : w.pipe.instate = .async := h.instate
    obtain ⟨hq, hb⟩ := h.recv.report_waiting
    refine ⟨.idle, { w with
      pipe := { w.pipe with instate := .idle, inQueued := true }
      recv := w.recv.report true }, ?_, h.outstate, h.send, rfl, hb⟩
    simp [exec, Pipebase.received_async hi hq, hq]

theorem inv_processOut (h : Inv w s r) (hq : w.pipe.outQueued = true) :
    ∃ w', w.exec .processOut = .ok w' ∧ Inv w' s r := by
  have hb := h.send
  rw [hq] at hb
  exact ⟨_, rfl, h.outstate, hb.deliver, h.instate, h.recv⟩

theorem inv_processIn (h : Inv w s r) (hq : w.pipe.inQueued = true) :
    ∃ w', w.exec .processIn = .ok w' ∧ Inv w' s r := by
  have hb := h.recv
  rw [hq] at hb
  exact ⟨_, rfl, h.outstate, h.send, h.instate, hb.deliver⟩

/-- What a callback may return: no error, and not the bit that `nn_pipe_send` and
    `nn_pipe_recv` set. -/
def Plain (rc : ℤ) : Prop := 0 ≤ rc ∧ Pipebase.releases rc = false

theorem inv_step {a : CreditAction} (h : ∃ s r, Inv w s r) (he : w.enabled Plain a) :
    ∃ w', w.exec a = .ok w' ∧ ∃ s r, Inv w' s r := by
  obtain ⟨s, r, h⟩ := h
  obtain ⟨-, he⟩ := he
  cases a with
  | send =>
    obtain ⟨w', hx, h'⟩ := inv_send h he
    exact ⟨w', hx, _, _, h'⟩
  | sendReturns rc =>
    obtain ⟨s', w', hx, h'⟩ := inv_sendReturns h he.1 he.2.1 he.2.2
    exact ⟨w', hx, _, _, h'⟩
  | sent =>
    obtain ⟨s', w', hx, h'⟩ := inv_sent h he
    exact ⟨w', hx, _, _, h'⟩
  | processOut =>
    obtain ⟨w', hx, h'⟩ := inv_processOut h he
    exact ⟨w', hx, _, _, h'⟩
  | recv =>
    obtain ⟨w', hx, h'⟩ := inv_recv h he
    exact ⟨w', hx, _, _, h'⟩
  | recvReturns rc =>
    obtain ⟨r', w', hx, h'⟩ := inv_recvReturns h he.1 he.2.1 he.2.2
    exact ⟨w', hx, _, _, h'⟩
  | received =>
    obtain ⟨r', w', hx, h'⟩ := inv_received h he
    exact ⟨w', hx, _, _, h'⟩
  | processIn =>
    obtain ⟨w', hx, h'⟩ := inv_processIn h he
    exact ⟨w', hx, _, _, h'⟩
  | stop => exact ⟨_, rfl, s, r, h.outstate, h.send, h.instate, h.recv⟩

/-- From a start that is not refused, no assertion fails and the permissions are right,
    the callbacks returning no error and not the bit that tells of a permission. -/
theorem credits_correct (h : (system Plain).init w) (as : List CreditAction) :
    (system Plain).Correct Right (fun _ _ _ => True) w as :=
  System.correct_of_step (I := fun w => ∃ s r, Inv w s r) (fun _ ⟨_, _, hi⟩ => hi.right)
    (fun _ _ hi he =>
      let ⟨w', hx, hi'⟩ := inv_step hi he
      ⟨w', hx, trivial, hi'⟩)
    ⟨_, _, inv_init h⟩ as

/-- A new pipe, started. -/
def started : Credits :=
  opened ⟨.active, .async, .idle, false, true⟩

theorem started_init : (system callback).init started :=
  ⟨Pipebase.init, 0, rfl, rfl, Pipebase.start_ok rfl rfl (Int.le_refl 0), rfl⟩

/-- Sent twice, the first time with the report in the callback, and received once. -/
theorem credits_correct_started :
    (system Plain).Correct Right (fun _ _ _ => True) started
      [.processOut, .send, .sent, .received, .sendReturns 0, .send, .processIn, .recv,
        .sendReturns 0, .recvReturns 2, .sent, .processOut] :=
  credits_correct started_init _

/-- A callback that returns an error, as `nn_sinproc_send` does when the peer is gone,
    fails an assertion. One that returns `NN_PIPEBASE_RELEASE` takes the
    permission from the protocol, and a start that is refused leaves `outstate` idle
    and gives none. -/
theorem credits_not_correct :
    ¬ (system fun _ => True).Correct Right (fun _ _ _ => True) started
      [.processOut, .send, .sendReturns (-Errno.econnreset)] ∧
    ¬ (system fun _ => True).Correct Right (fun _ _ _ => True) started
      [.processOut, .send, .sent, .sendReturns Pipebase.release] ∧
    ∃ pipe, Pipebase.init.start (-Errno.einval) = .ok (pipe, -Errno.einval) ∧
      ¬ Right (opened pipe) := by
  refine ⟨fun h => ?_, fun h => ?_, ?_⟩
  · have h := (h.step ⟨rfl, rfl⟩ rfl).step ⟨rfl, rfl⟩ rfl
    obtain ⟨_, hx, -⟩ := h.2 ⟨rfl, rfl, trivial⟩
    cases hx
  · have h := ((h.step ⟨rfl, rfl⟩ rfl).step ⟨rfl, rfl⟩ rfl).step ⟨rfl, rfl⟩ rfl
    have h := h.step ⟨rfl, rfl, trivial⟩ rfl
    exact absurd (h.send.1 rfl) (by decide)
  · exact ⟨_, Pipebase.start_refused rfl (by decide), fun h => absurd (h.send.1 rfl) (by decide)⟩

end Credits

end Nanomsg
