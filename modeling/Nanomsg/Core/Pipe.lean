import Nanomsg.Fault

/-!
# Pipes

`pipe.c`: what stands between a transport and a socket. A *pipebase* keeps two
small state machines. The socket may send while `outstate` is `idle`; then it is
`async` until the transport says, by `nn_pipebase_sent`, that the message is on
its way, which raises `NN_PIPE_OUT`. It may receive while `instate` is `idle`;
then it is `async` until the transport says, by `nn_pipebase_received`, that
there is a message, which raises `NN_PIPE_IN`. Either may be said already
while the socket is in the call.

What the socket answers to `nn_sock_add` is the parameter `rc` of
`nn_pipebase_start`.
-/

namespace Nanomsg

/-- `NN_PIPEBASE_STATE_*`. -/
inductive PipebaseState
  | idle
  | active
  | failed
  deriving DecidableEq, Repr

/-- `NN_PIPEBASE_INSTATE_*`. -/
inductive Instate
  | deactivated
  | idle
  | receiving
  | received
  | async
  deriving DecidableEq, Repr

/-- `NN_PIPEBASE_OUTSTATE_*`. -/
inductive Outstate
  | deactivated
  | idle
  | sending
  | sent
  | async
  deriving DecidableEq, Repr

/-- `struct nn_pipebase`. Of its two events it is known whether they are queued. -/
structure Pipebase where
  state : PipebaseState
  instate : Instate
  outstate : Outstate
  inQueued : Bool
  outQueued : Bool
  deriving DecidableEq

namespace Pipebase

/-- `nn_pipebase_init`. -/
def init : Pipebase := ⟨.idle, .deactivated, .deactivated, false, false⟩

variable (self : Pipebase)

/-- `nn_fsm_raise(&self->fsm, &self->in, NN_PIPE_IN)`. -/
def raiseIn : Except Fault Pipebase := do
  nnAssert (!self.inQueued)
  pure { self with inQueued := true }

/-- `nn_fsm_raise(&self->fsm, &self->out, NN_PIPE_OUT)`. -/
def raiseOut : Except Fault Pipebase := do
  nnAssert (!self.outQueued)
  pure { self with outQueued := true }

/-- `nn_pipebase_start`, `nn_sock_add` returning `rc`. -/
def start (rc : ℤ) : Except Fault (Pipebase × ℤ) := do
  nnAssert (self.state = .idle)
  let self := { self with state := .active, instate := .async, outstate := .idle }
  if rc < 0 then
    pure ({ self with state := .failed }, rc)
  else do
    let self ← self.raiseOut
    pure (self, 0)

/-- `nn_pipebase_stop`. -/
def stop : Pipebase := { self with state := .idle }

/-- `nn_pipebase_received`. -/
def received : Except Fault Pipebase :=
  if self.instate = .receiving then
    .ok { self with instate := .received }
  else do
    nnAssert (self.instate = .async)
    raiseIn { self with instate := .idle }

/-- `nn_pipebase_sent`. -/
def sent : Except Fault Pipebase :=
  if self.outstate = .sending then
    .ok { self with outstate := .sent }
  else do
    nnAssert (self.outstate = .async)
    raiseOut { self with outstate := .idle }

/-- `nn_pipe_send` before the call of `send`. -/
def beginSend : Except Fault Pipebase := do
  nnAssert (self.outstate = .idle)
  pure { self with outstate := .sending }

/-- `nn_pipe_send` after `send` has returned `rc`. -/
def endSend (rc : ℤ) : Except Fault Pipebase := do
  nnAssert (rc ≥ 0)
  if self.outstate = .sent then
    pure { self with outstate := .idle }
  else do
    nnAssert (self.outstate = .sending)
    pure { self with outstate := .async }

/-- `nn_pipe_recv` before the call of `recv`. -/
def beginRecv : Except Fault Pipebase := do
  nnAssert (self.instate = .idle)
  pure { self with instate := .receiving }

/-- `nn_pipe_recv` after `recv` has returned `rc`. -/
def endRecv (rc : ℤ) : Except Fault Pipebase := do
  nnAssert (rc ≥ 0)
  if self.instate = .received then
    pure { self with instate := .idle }
  else do
    nnAssert (self.instate = .receiving)
    pure { self with instate := .async }

variable {self}

/-- What a start leaves, but for its state and whether `NN_PIPE_OUT` is raised. -/
theorem start_ok {rc : ℤ} (h : self.state = .idle) (hq : self.outQueued = false) (hrc : 0 ≤ rc) :
    self.start rc = .ok ({ self with
      state := .active, instate := .async, outstate := .idle, outQueued := true }, 0) := by
  simp [start, raiseOut, h, hq, Int.not_lt.2 hrc]

theorem start_refused {rc : ℤ} (h : self.state = .idle) (hrc : rc < 0) :
    self.start rc = .ok ({ self with
      state := .failed, instate := .async, outstate := .idle }, rc) := by
  simp [start, h, hrc]

theorem received_receiving (h : self.instate = .receiving) :
    self.received = .ok { self with instate := .received } := if_pos h

theorem received_async (h : self.instate = .async) (hq : self.inQueued = false) :
    self.received = .ok { self with instate := .idle, inQueued := true } := by
  simp [received, raiseIn, h, hq]

theorem sent_async (h : self.outstate = .async) (hq : self.outQueued = false) :
    self.sent = .ok { self with outstate := .idle, outQueued := true } := by
  simp [sent, raiseOut, h, hq]

end Pipebase

end Nanomsg
