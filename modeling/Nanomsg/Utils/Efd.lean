import Mathlib.Algebra.Order.Ring.Int
import Mathlib.Algebra.Order.Ring.Nat
import Nanomsg.Fault
import Nanomsg.Lib.Refinement

/-!
# Wake-up descriptors

`efd_eventfd.inc`, `efd_pipe.inc` and `efd_socketpair.inc`: a descriptor that `nn_efd_signal` makes
readable and `nn_efd_unsignal` clears. One counts the signals in the kernel; the others have a byte in
a pipe, or between two sockets, for each, and clear them by reading 16 at a time.

`Wakeup.spec` is what all three are for. Two of them refine it. In the third the loop of
`nn_efd_unsignal` is closed after `recv`, before the test that should leave it: it never ends
(`socketpairUnsignal_diverges`).

Reading gives what there is, as much as is asked for, and `EAGAIN` if there is nothing; `room` is how
many bytes the kernel keeps. `reads`, which is not part of the source, bounds the loops.
-/

namespace Nanomsg

open Transition

/-! ## The kernel -/

/-- Writing to an eventfd: what is returned, and the counter. -/
def eventfdWrite (count value : ℕ) : ℤ × ℕ :=
  if count + value ≤ 2 ^ 64 - 2 then (8, count + value) else (-1, count)

/-- Reading from an eventfd, which resets the counter. -/
def eventfdRead (count : ℕ) : ℤ × ℕ := if count = 0 then (-1, 0) else (8, 0)

/-- Writing a byte: what is returned, and how many there are. -/
def streamWrite (room bytes : ℕ) : ℤ × ℕ := if bytes < room then (1, bytes + 1) else (-1, bytes)

/-- Reading up to `n` bytes: what is returned, `errno`, and how many are left. -/
def streamRead (n bytes : ℕ) : ℤ × ℤ × ℕ :=
  if bytes = 0 then (-1, Errno.eagain, 0) else (min n bytes, 0, bytes - n)

/-! ## The descriptors -/

/-- `struct nn_efd` of `efd_eventfd.h`, and the counter. -/
structure EventFd where
  efd : ℤ
  count : ℕ

/-- `struct nn_efd` of `efd_pipe.h` and `efd_socketpair.h`, and the bytes on the way from `w` to `r`. -/
structure FdPair where
  r : ℤ
  w : ℤ
  bytes : ℕ

namespace EventFd

/-- `nn_efd_signal`. -/
def signal (self : EventFd) : Except Fault EventFd :=
  let fd := self.efd
  if fd < 0 then
    .ok self
  else
    let (nbytes, count) := eventfdWrite self.count 1
    do
      nnAssert (nbytes = 8)
      pure { self with count := count }

/-- `nn_efd_unsignal`. -/
def unsignal (self : EventFd) : Except Fault EventFd :=
  let fd := self.efd
  if fd < 0 then
    .ok self
  else
    let (sz, count) := eventfdRead self.count
    do
      nnAssert (sz ≥ 0)
      nnAssert (sz = 8)
      pure { self with count := count }

end EventFd

namespace FdPair

/-- One byte is written to `w`. -/
def signalByte (room : ℕ) (self : FdPair) : Except Fault FdPair :=
  let fd := self.w
  if fd < 0 then
    .ok self
  else
    let (nbytes, bytes) := streamWrite room self.bytes
    do
      nnAssert (nbytes ≠ -1)
      nnAssert (nbytes = 1)
      pure { self with bytes := bytes }

/-- `nn_efd_signal` of `efd_pipe.inc`. -/
def pipeSignal : ℕ → FdPair → Except Fault FdPair := signalByte

/-- `nn_efd_signal` of `efd_socketpair.inc`. -/
def socketpairSignal : ℕ → FdPair → Except Fault FdPair := signalByte

/-- `nn_efd_unsignal` of `efd_pipe.inc`. -/
def pipeUnsignal : ℕ → FdPair → Except Fault FdPair
  | 0, _ => .error .diverges
  | reads + 1, self =>
    let fd := self.r
    if fd < 0 then
      .ok self
    else
      let (nbytes, errno, bytes) := streamRead 16 self.bytes
      let self := { self with bytes := bytes }
      let nbytes := if nbytes < 0 ∧ errno = Errno.eagain then 0 else nbytes
      do
        nnAssert (nbytes ≥ 0)
        if nbytes < 16 then
          pure self
        else
          pipeUnsignal reads self

/-- `nn_efd_unsignal` of `efd_socketpair.inc`: what comes after the loop is never reached. -/
def socketpairUnsignal : ℕ → FdPair → Except Fault FdPair
  | 0, _ => .error .diverges
  | reads + 1, self =>
    let fd := self.r
    if fd < 0 then
      .ok self
    else
      let (_, _, bytes) := streamRead 16 self.bytes
      socketpairUnsignal reads { self with bytes := bytes }

end FdPair

/-- What the library is built with. -/
inductive Backend
  | eventfd
  | pipe
  | socketpair
  deriving DecidableEq, Repr

/-- How many signals may be pending. -/
def Backend.capacity (room : ℕ) : Backend → ℕ
  | eventfd => 2 ^ 64 - 2
  | pipe | socketpair => room

/-- A descriptor of one of the backends. -/
inductive Efd
  | eventfd (self : EventFd)
  | pipe (self : FdPair)
  | socketpair (self : FdPair)

/-- The calls. -/
inductive EfdOp
  | signal
  | unsignal
  deriving DecidableEq, Repr

namespace Efd

/-- What `nn_efd_init` leaves, given what the kernel returns. -/
def init (r w : ℕ) : Backend → Efd
  | .eventfd => eventfd ⟨r, 0⟩
  | .pipe => pipe ⟨r, w, 0⟩
  | .socketpair => socketpair ⟨r, w, 0⟩

/-- The kernel says so of the descriptor of `nn_efd_getfd`. -/
def readable : Efd → Bool
  | eventfd self => 0 < self.count
  | pipe self => 0 < self.bytes
  | socketpair self => 0 < self.bytes

/-- A call, of the functions that the library is built with. -/
def call (room reads : ℕ) : Efd → EfdOp → Except Fault Efd
  | eventfd self, .signal => self.signal.map eventfd
  | eventfd self, .unsignal => self.unsignal.map eventfd
  | pipe self, .signal => (self.pipeSignal room).map pipe
  | pipe self, .unsignal => (self.pipeUnsignal reads).map pipe
  | socketpair self, .signal => (self.socketpairSignal room).map socketpair
  | socketpair self, .unsignal => (self.socketpairUnsignal reads).map socketpair

/-- After every call, whether the descriptor is readable. -/
def program (room reads : ℕ) : Program Efd EfdOp Bool Fault where
  exec s op := do
    let s ← s.call room reads op
    pure (s, s.readable)

end Efd

/-! ## What they are for -/

namespace Wakeup

/-- The signals since the descriptor was cleared, and whether it is readable. -/
def spec : Spec ℕ EfdOp Bool where
  step k
    | .signal => (k + 1, true)
    | .unsignal => (0, false)

/-- There is room for a signal, and only what is readable is cleared. -/
def Possible (capacity k : ℕ) : EfdOp → Prop
  | .signal => k < capacity
  | .unsignal => 0 < k

end Wakeup

namespace FdPair

variable {self : FdPair} {room reads : ℕ}

theorem signalByte_spec (hw : 0 ≤ self.w) (h : self.bytes < room) :
    self.signalByte room = .ok { self with bytes := self.bytes + 1 } := by
  simp [signalByte, streamWrite, not_lt.2 hw, h]

/-- A full read is followed by another one, which may find nothing. -/
theorem pipeUnsignal_spec (hr : 0 ≤ self.r) (h : self.bytes / 16 < reads) :
    self.pipeUnsignal reads = .ok { self with bytes := 0 } := by
  induction reads generalizing self with
  | zero => exact absurd h (Nat.not_lt_zero _)
  | succ reads ih =>
    rw [pipeUnsignal]
    simp only [not_lt.2 hr, if_false]
    by_cases h0 : self.bytes = 0
    · simp [streamRead, h0]
    by_cases h16 : self.bytes < 16
    · have hleft : self.bytes - 16 = 0 := Nat.sub_eq_zero_of_le h16.le
      simp [streamRead, h0, h16, hleft]
    · have hmin : min 16 self.bytes = 16 := Nat.min_eq_left (not_lt.1 h16)
      have hrest := @ih { self with bytes := self.bytes - 16 } hr (by
        show (self.bytes - 16) / 16 < reads
        omega)
      simpa [streamRead, h0, h16, hmin] using hrest

theorem socketpairUnsignal_diverges (hr : 0 ≤ self.r) :
    self.socketpairUnsignal reads = .error .diverges := by
  induction reads generalizing self with
  | zero => rfl
  | succ reads ih =>
    rw [socketpairUnsignal]
    simp only [not_lt.2 hr, if_false]
    exact ih hr

end FdPair

namespace EventFd

variable {self : EventFd}

theorem signal_spec (hfd : 0 ≤ self.efd) (h : self.count < 2 ^ 64 - 2) :
    self.signal = .ok { self with count := self.count + 1 } := by
  have hle : self.count + 1 ≤ 2 ^ 64 - 2 := h
  simp only [signal, not_lt.2 hfd, if_false, eventfdWrite, if_pos hle]
  rfl

theorem unsignal_spec (hfd : 0 ≤ self.efd) (h : 0 < self.count) :
    self.unsignal = .ok { self with count := 0 } := by
  simp only [unsignal, not_lt.2 hfd, if_false, eventfdRead, if_neg h.ne']
  rfl

end EventFd

namespace Efd

/-- The descriptor is one of the backend, with `k` signals pending. -/
inductive Tracks : Backend → Efd → ℕ → Prop
  | eventfd (self : EventFd) : 0 ≤ self.efd → Tracks .eventfd (.eventfd self) self.count
  | pipe (self : FdPair) : 0 ≤ self.r → 0 ≤ self.w → Tracks .pipe (.pipe self) self.bytes
  | socketpair (self : FdPair) : 0 ≤ self.r → 0 ≤ self.w →
      Tracks .socketpair (.socketpair self) self.bytes

variable {b : Backend} {s : Efd} {k room reads : ℕ} {ops : List EfdOp}

theorem tracks_init (r w : ℕ) : Tracks b (init r w b) 0 := by
  cases b with
  | eventfd => exact .eventfd ⟨r, 0⟩ (Int.natCast_nonneg r)
  | pipe => exact .pipe ⟨r, w, 0⟩ (Int.natCast_nonneg r) (Int.natCast_nonneg w)
  | socketpair => exact .socketpair ⟨r, w, 0⟩ (Int.natCast_nonneg r) (Int.natCast_nonneg w)

theorem Tracks.readable_eq (h : Tracks b s k) : s.readable = decide (0 < k) := by
  cases h <;> rfl

theorem Tracks.signal (h : Tracks b s k) (reads : ℕ) (hk : k < b.capacity room) :
    ∃ s', s.call room reads .signal = .ok s' ∧ Tracks b s' (k + 1) := by
  cases h with
  | eventfd self hfd =>
    exact ⟨_, by rw [call, EventFd.signal_spec hfd hk]; rfl,
      .eventfd { self with count := self.count + 1 } hfd⟩
  | pipe self hr hw =>
    have hroom : self.bytes < room := hk
    exact ⟨_, by rw [call, FdPair.pipeSignal, FdPair.signalByte_spec hw hroom]; rfl,
      .pipe { self with bytes := self.bytes + 1 } hr hw⟩
  | socketpair self hr hw =>
    have hroom : self.bytes < room := hk
    exact ⟨_, by rw [call, FdPair.socketpairSignal, FdPair.signalByte_spec hw hroom]; rfl,
      .socketpair { self with bytes := self.bytes + 1 } hr hw⟩

theorem Tracks.unsignal (h : Tracks b s k) (room : ℕ) (hb : b ≠ .socketpair) (h0 : 0 < k)
    (hk : k / 16 < reads) : ∃ s', s.call room reads .unsignal = .ok s' ∧ Tracks b s' 0 := by
  cases h with
  | eventfd self hfd =>
    exact ⟨_, by rw [call, EventFd.unsignal_spec hfd h0]; rfl, .eventfd { self with count := 0 } hfd⟩
  | pipe self hr hw =>
    exact ⟨_, by rw [call, FdPair.pipeUnsignal_spec hr hk]; rfl, .pipe { self with bytes := 0 } hr hw⟩
  | socketpair => exact absurd rfl hb

/-- A descriptor that is cleared only if it is not of two sockets. -/
theorem refines (hreads : b.capacity room / 16 < reads) : (program room reads).Refines Wakeup.spec
    (fun k op => Wakeup.Possible (b.capacity room) k op ∧ (b = .socketpair → op ≠ .unsignal))
    (fun s k => Tracks b s k ∧ k ≤ b.capacity room) := by
  rintro s k op ⟨h, hle⟩ ⟨hp, hb⟩
  cases op with
  | signal =>
    obtain ⟨s', hx, h'⟩ := h.signal reads hp
    exact ⟨s', by simp [program, hx, h'.readable_eq, Wakeup.spec], h', hp⟩
  | unsignal =>
    obtain ⟨s', hx, h'⟩ := h.unsignal room (fun he => hb he rfl) hp
      (lt_of_le_of_lt (Nat.div_le_div_right hle) hreads)
    exact ⟨s', by simp [program, hx, h'.readable_eq, Wakeup.spec], h', Nat.zero_le _⟩

/-- On two sockets only signals come to an end. -/
theorem Tracks.no_unsignal (h : Tracks .socketpair s k)
    (hops : Wakeup.spec.Allowed (Wakeup.Possible room) k ops) {r : Efd × List Bool}
    (hrun : (program room reads).run s ops = .ok r) : EfdOp.unsignal ∉ ops := by
  induction ops generalizing s k r with
  | nil => exact List.not_mem_nil
  | cons op ops ih =>
    obtain ⟨s', o, s'', os, hx, hrest, -⟩ := Program.run_cons_eq_ok.1 hrun
    obtain ⟨s₁, hcall, he⟩ := bind_eq_ok.1 hx
    obtain ⟨rfl, -⟩ : s₁ = s' ∧ _ := by simpa using he
    cases op with
    | signal =>
      obtain ⟨s₂, hx', h'⟩ := h.signal reads hops.1
      obtain rfl : s₂ = s₁ := Except.ok.inj (hx'.symm.trans hcall)
      exact List.not_mem_cons_of_ne_of_not_mem (by simp) (ih h' hops.2 hrest)
    | unsignal =>
      cases h with
      | socketpair self hr hw =>
        rw [call, FdPair.socketpairUnsignal_diverges hr] at hcall
        exact absurd hcall (by simp [Except.map])

/-- Whatever is signalled, if there is room, and cleared when readable: every call returns, and the
    descriptor is readable exactly if it has been signalled since it was cleared, unless it is of two
    sockets and is cleared. -/
theorem efd_correct_iff (b : Backend) (room r w : ℕ) (ops : List EfdOp)
    (hops : Wakeup.spec.Allowed (Wakeup.Possible (b.capacity room)) 0 ops) :
    (∃ reads s, (program room reads).run (init r w b) ops = .ok (s, (Wakeup.spec.run 0 ops).2)) ↔
      (b = .socketpair → EfdOp.unsignal ∉ ops) := by
  constructor
  · rintro ⟨reads, s, hrun⟩ rfl
    exact (tracks_init r w).no_unsignal hops hrun
  · intro hb
    have hpair : Wakeup.spec.Allowed (fun _ op => b = .socketpair → op ≠ .unsignal) 0 ops := by
      refine Spec.allowed_of_mem (fun op hop _ he hu => ?_) 0
      exact hb he (hu ▸ hop)
    obtain ⟨s, hrun, -⟩ := (refines (Nat.lt_succ_self _)).run ⟨tracks_init r w, Nat.zero_le _⟩
      (hops.and hpair)
    exact ⟨_, s, hrun⟩

/-- Seventeen signals in a pipe are cleared by two reads. -/
theorem efd_correct_pipe :
    (∃ reads s, (program 65536 reads).run (init 3 4 .pipe)
        (List.replicate 17 .signal ++ [.unsignal, .signal]) =
      .ok (s, (Wakeup.spec.run 0 (List.replicate 17 .signal ++ [.unsignal, .signal])).2)) ↔
      (Backend.pipe = .socketpair →
        EfdOp.unsignal ∉ List.replicate 17 EfdOp.signal ++ [.unsignal, .signal]) :=
  efd_correct_iff .pipe 65536 3 4 _ (by
    simp [List.replicate, Spec.Allowed, Wakeup.Possible, Wakeup.spec, Backend.capacity])

/-- One signal between two sockets is never cleared, though it may be. -/
theorem socketpair_not_cleared :
    Wakeup.spec.Allowed (Wakeup.Possible (Backend.capacity 65536 .socketpair)) 0
        [.signal, .unsignal] ∧
      ¬ ∃ reads s, (program 65536 reads).run (init 3 4 .socketpair) [.signal, .unsignal] =
        .ok (s, (Wakeup.spec.run 0 [.signal, .unsignal]).2) := by
  have hops : Wakeup.spec.Allowed (Wakeup.Possible (Backend.capacity 65536 .socketpair)) 0
      [.signal, .unsignal] := ⟨Nat.zero_lt_succ _, Nat.zero_lt_one, trivial⟩
  refine ⟨hops, ?_⟩
  rintro ⟨reads, s, hrun⟩
  exact (tracks_init 3 4).no_unsignal hops hrun (by simp)

end Efd

end Nanomsg
