import Nanomsg.Utils.Efd

/-!
# The life of a wake-up descriptor

Besides being signalled and cleared a descriptor is waited for (`nn_efd_wait`), stopped
(`nn_efd_stop`) and closed (`nn_efd_term`). To stop an eventfd is to signal it; of a pipe or of two
sockets the end that is written is closed, and the kernel tells whoever polls the other end. Either
way those who wait are to come back at once from then on.

`Line` says what this is for: how many signals are pending, that the descriptor has been stopped, or that it
is closed. As long as nothing is signalled or cleared after the stop, the descriptors do what it says
(`life_correct`).
-/

namespace Nanomsg

open Transition

/-- What `poll` returns, asked about one descriptor, with `errno`: a signal has come, the descriptor is
    ready, or the time is over. -/
def pollOne (ready interrupted : Bool) : ℤ × ℤ :=
  if interrupted then (-1, Errno.eintr) else if ready then (1, 0) else (0, 0)

namespace EventFd

/-- `nn_efd_stop`. -/
def stop (self : EventFd) : Except Fault EventFd := self.signal

/-- `nn_efd_term`, `nn_closefd` closing what is not negative. -/
def term (self : EventFd) : EventFd := { self with efd := -1 }

end EventFd

namespace FdPair

/-- `nn_efd_stop`, of `efd_pipe.inc` and of `efd_socketpair.inc`. -/
def stop (self : FdPair) : FdPair := { self with w := -1 }

/-- `nn_efd_term`. -/
def term (self : FdPair) : FdPair := { self with r := -1, w := -1 }

end FdPair

/-- What is done with a descriptor. -/
inductive LifeOp
  | signal
  | unsignal
  | stop
  /-- `nn_efd_wait`, which a signal may interrupt, and which otherwise returns when the descriptor is
      ready or the time is over. -/
  | wait (interrupted : Bool)
  | term
  deriving DecidableEq, Repr

namespace Efd

/-- `nn_efd_getfd`. -/
def getfd : Efd → ℤ
  | eventfd self => self.efd
  | pipe self | socketpair self => self.r

/-- The kernel says so of that descriptor: of one end also if the other is closed. -/
def ready : Efd → Bool
  | eventfd self => 0 < self.count
  | pipe self | socketpair self => decide (0 < self.bytes) || decide (self.w < 0)

/-- `nn_efd_wait`, when `poll` returns. -/
def wait (self : Efd) (interrupted : Bool) : ℤ :=
  let fd := self.getfd
  if fd < 0 then
    -Errno.ebadf
  else
    let (rc, errno) := pollOne self.ready interrupted
    if rc = 0 then -Errno.etimedout else if rc = -1 then -errno else 0

def stop : Efd → Except Fault Efd
  | eventfd self => self.stop.map eventfd
  | pipe self => .ok (pipe self.stop)
  | socketpair self => .ok (socketpair self.stop)

def term : Efd → Efd
  | eventfd self => eventfd self.term
  | pipe self => pipe self.term
  | socketpair self => socketpair self.term

/-- The calls, with what `nn_efd_wait` returns. -/
def life (room reads : ℕ) : Program Efd LifeOp (Option ℤ) Fault where
  exec s
    | .signal => (s.call room reads .signal).map (·, none)
    | .unsignal => (s.call room reads .unsignal).map (·, none)
    | .stop => s.stop.map (·, none)
    | .wait interrupted => .ok (s, some (s.wait interrupted))
    | .term => .ok (s.term, none)

end Efd

/-! ## What they are for -/

/-- What a descriptor stands for. -/
inductive Line
  /-- Signals are pending. -/
  | pending (k : ℕ)
  | stopped
  | closed
  deriving DecidableEq, Repr

namespace Line

/-- Who waits comes back at once. -/
def ready : Line → Bool
  | pending k => 0 < k
  | stopped => true
  | closed => false

def signal : Line → Line
  | pending k => pending (k + 1)
  | l => l

def unsignal : Line → Line
  | pending _ => pending 0
  | l => l

def stop : Line → Line
  | closed => closed
  | _ => stopped

/-- What a wait returns. -/
def wait (l : Line) (interrupted : Bool) : ℤ :=
  if l = closed then -Errno.ebadf
  else if interrupted then -Errno.eintr
  else if l.ready then 0 else -Errno.etimedout

def spec : Spec Line LifeOp (Option ℤ) where
  step l
    | .signal => (l.signal, none)
    | .unsignal => (l.unsignal, none)
    | .stop => (l.stop, none)
    | .wait interrupted => (l, some (l.wait interrupted))
    | .term => (closed, none)

/-- There is room for a signal, only what is readable is cleared, and neither is done once the
    descriptor has been stopped. -/
def Possible (capacity : ℕ) : Line → LifeOp → Prop
  | pending k, .signal | pending k, .stop => k < capacity
  | pending k, .unsignal => 0 < k
  | stopped, .signal | stopped, .unsignal | stopped, .stop => False
  | closed, _ | _, .wait _ | _, .term => True

end Line

namespace Efd

/-- The descriptor is one of the backend, and does what the line says. -/
inductive Lives : Backend → Efd → Line → Prop
  | pending {b : Backend} {s : Efd} {k : ℕ} : Tracks b s k → Lives b s (.pending k)
  | eventfdStopped (self : EventFd) : 0 ≤ self.efd → 0 < self.count →
      Lives .eventfd (.eventfd self) .stopped
  | pipeStopped (self : FdPair) : 0 ≤ self.r → self.w < 0 → Lives .pipe (.pipe self) .stopped
  | socketpairStopped (self : FdPair) : 0 ≤ self.r → self.w < 0 →
      Lives .socketpair (.socketpair self) .stopped
  | eventfdClosed (self : EventFd) : self.efd < 0 → Lives .eventfd (.eventfd self) .closed
  | pipeClosed (self : FdPair) : self.r < 0 → self.w < 0 → Lives .pipe (.pipe self) .closed
  | socketpairClosed (self : FdPair) : self.r < 0 → self.w < 0 →
      Lives .socketpair (.socketpair self) .closed

variable {b : Backend} {s : Efd} {l : Line} {room reads : ℕ} {ops : List LifeOp}

/-- Stopping a descriptor leaves it stopped. -/
theorem Lives.stop (h : Lives b s l) (hp : Line.Possible (b.capacity room) l .stop) :
    ∃ s', s.stop = .ok s' ∧ Lives b s' l.stop := by
  have hneg : (-1 : ℤ) < 0 := by decide
  cases h with
  | pending ht =>
    cases ht with
    | eventfd self hfd =>
      refine ⟨_, by rw [Efd.stop, EventFd.stop, EventFd.signal_spec hfd hp]; rfl, ?_⟩
      exact .eventfdStopped { self with count := self.count + 1 } hfd (Nat.succ_pos _)
    | pipe self hr hw => exact ⟨_, rfl, .pipeStopped self.stop hr hneg⟩
    | socketpair self hr hw => exact ⟨_, rfl, .socketpairStopped self.stop hr hneg⟩
  | eventfdStopped | pipeStopped | socketpairStopped => exact hp.elim
  | eventfdClosed self hfd =>
    exact ⟨_, by simp [Efd.stop, EventFd.stop, EventFd.signal, hfd, Except.map], .eventfdClosed self hfd⟩
  | pipeClosed self hr hw => exact ⟨_, rfl, .pipeClosed self.stop hr hneg⟩
  | socketpairClosed self hr hw => exact ⟨_, rfl, .socketpairClosed self.stop hr hneg⟩

/-- Closing a descriptor leaves it closed. -/
theorem Lives.term (h : Lives b s l) : Lives b s.term .closed := by
  have hneg : (-1 : ℤ) < 0 := by decide
  cases h with
  | pending ht =>
    cases ht with
    | eventfd self => exact .eventfdClosed self.term hneg
    | pipe self => exact .pipeClosed self.term hneg hneg
    | socketpair self => exact .socketpairClosed self.term hneg hneg
  | eventfdStopped self | eventfdClosed self => exact .eventfdClosed self.term hneg
  | pipeStopped self | pipeClosed self => exact .pipeClosed self.term hneg hneg
  | socketpairStopped self | socketpairClosed self => exact .socketpairClosed self.term hneg hneg

theorem Lives.signal (h : Lives b s l) (reads : ℕ) (hp : Line.Possible (b.capacity room) l .signal) :
    ∃ s', s.call room reads .signal = .ok s' ∧ Lives b s' l.signal := by
  cases h with
  | pending ht =>
    obtain ⟨s', hx, ht'⟩ := ht.signal reads hp
    exact ⟨s', hx, .pending ht'⟩
  | eventfdStopped | pipeStopped | socketpairStopped => exact hp.elim
  | eventfdClosed self hfd =>
    exact ⟨_, by simp [call, EventFd.signal, hfd, Except.map], .eventfdClosed self hfd⟩
  | pipeClosed self hr hw =>
    exact ⟨_, by simp [call, FdPair.pipeSignal, FdPair.signalByte, hw, Except.map], .pipeClosed self hr hw⟩
  | socketpairClosed self hr hw =>
    exact ⟨_, by simp [call, FdPair.socketpairSignal, FdPair.signalByte, hw, Except.map],
      .socketpairClosed self hr hw⟩

theorem Lives.unsignal (h : Lives b s l) (room : ℕ) (hb : b ≠ .socketpair)
    (hp : Line.Possible (b.capacity room) l .unsignal)
    (hk : ∀ k, l = .pending k → k ≤ b.capacity room) (hreads : b.capacity room / 16 < reads) :
    ∃ s', s.call room reads .unsignal = .ok s' ∧ Lives b s' l.unsignal := by
  cases h with
  | pending ht =>
    obtain ⟨s', hx, ht'⟩ := ht.unsignal room hb hp
      (lt_of_le_of_lt (Nat.div_le_div_right (hk _ rfl)) hreads)
    exact ⟨s', hx, .pending ht'⟩
  | eventfdStopped | pipeStopped | socketpairStopped => exact hp.elim
  | eventfdClosed self hfd =>
    exact ⟨_, by simp [call, EventFd.unsignal, hfd, Except.map], .eventfdClosed self hfd⟩
  | pipeClosed self hr hw =>
    obtain ⟨n, rfl⟩ := Nat.exists_eq_succ_of_ne_zero (Nat.ne_zero_of_lt hreads)
    exact ⟨_, by simp [call, FdPair.pipeUnsignal, hr, Except.map], .pipeClosed self hr hw⟩
  | socketpairClosed self => exact absurd rfl hb

end Efd

end Nanomsg
