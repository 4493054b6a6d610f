import Mathlib.Logic.Function.Basic
import Nanomsg.Core.Sock

/-!
# The statistics of a socket

`nn_sock_stat_increment`. Most statistics only grow, and wrap around; those that
say how many there are of something at a time may fall, but not below zero.
-/

namespace Nanomsg

open Function

/-- `NN_STAT_*`, those that only grow. -/
inductive Counter
  | establishedConnections
  | acceptedConnections
  | droppedConnections
  | brokenConnections
  | connectErrors
  | bindErrors
  | acceptErrors
  | messagesSent
  | messagesReceived
  | bytesSent
  | bytesReceived
  deriving DecidableEq, Repr

/-- Those that may fall. -/
inductive Gauge
  | currentConnections
  | inprogressConnections
  | currentEpErrors
  deriving DecidableEq, Repr

/-- All of them. -/
inductive StatName
  | counter (c : Counter)
  | gauge (g : Gauge)
  | currentSndPriority
  deriving DecidableEq, Repr

/-- `nn_sock.statistics`. -/
structure SockStatistics where
  counter : Counter → UInt64
  gauge : Gauge → ℤ
  currentSndPriority : ℤ

namespace SockStatistics

/-- As `nn_sock_init` leaves them. -/
def init : SockStatistics := ⟨fun _ => 0, fun _ => 0, 0⟩

variable (s : SockStatistics)

/-- `nn_sock_stat_increment`. -/
def statIncrement (name : StatName) (increment : ℤ) : Except Fault SockStatistics :=
  match name with
  | .counter c => do
    nnAssert (0 < increment)
    pure { s with counter := update s.counter c (s.counter c + UInt64.ofInt increment) }
  | .gauge g => do
    nnAssert (0 < increment ∨ -increment ≤ s.gauge g)
    nnAssert (increment < Sock.intMax ∧ -Sock.intMax < increment)
    if s.gauge g + increment ≤ Sock.intMax then
      pure { s with gauge := update s.gauge g (s.gauge g + increment) }
    else
      .error .overflow
  | .currentSndPriority => do
    nnAssert (0 < increment ∧ increment ≤ 16 ∨ increment = -1)
    pure { s with currentSndPriority := increment }

variable {s} {c : Counter} {g : Gauge} {n : ℤ}

/-- A counter is incremented by a positive number. -/
theorem counter_ok (hn : 0 < n) : s.statIncrement (.counter c) n =
    .ok { s with counter := update s.counter c (s.counter c + UInt64.ofInt n) } := by
  simp [statIncrement, hn]

theorem counter_fails (hn : n ≤ 0) : s.statIncrement (.counter c) n = .error .assertion := by
  simp [statIncrement, Int.not_lt.2 hn]

/-- A gauge goes up by one unless it overflows. -/
theorem gauge_up (h : s.gauge g < Sock.intMax) : s.statIncrement (.gauge g) 1 =
    .ok { s with gauge := update s.gauge g (s.gauge g + 1) } := by
  have hle : s.gauge g + 1 ≤ Sock.intMax := h
  simp [statIncrement, hle]
  rfl

/-- A gauge goes down by one if it is not zero. -/
theorem gauge_down (h : 0 < s.gauge g) (hmax : s.gauge g ≤ Sock.intMax) :
    s.statIncrement (.gauge g) (-1) =
      .ok { s with gauge := update s.gauge g (s.gauge g - 1) } := by
  have hpos : 1 ≤ s.gauge g := h
  have hle : s.gauge g + -1 ≤ Sock.intMax := by omega
  simp [statIncrement, hpos, hle, Int.sub_eq_add_neg]
  rfl

end SockStatistics

end Nanomsg
