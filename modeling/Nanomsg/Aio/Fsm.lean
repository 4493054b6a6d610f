import Mathlib.Data.Int.Notation
import Nanomsg.Fault

/-!
# State machines

`fsm.h` and `fsm.c`. A state machine takes events, each a source, a type and a
pointer: `nn_fsm_feed` gives an event to the handler of the machine, or to its
shutdown handler while it is stopping. An event is raised by filling an
`nn_fsm_event` and queueing it, and processed by clearing that object and
feeding what it held (`FsmEvent.process`).

`fsm.h` declares more than `fsm.c` defines. What is missing is taken as its name
says: `nn_fsm_start` and `nn_fsm_stop` feed an action, the latter in the
stopping state; `nn_fsm_raise` and `nn_fsm_raiseto` fill an event and queue it.
-/

namespace Nanomsg

/-- `NN_FSM_STATE_IDLE`, `_ACTIVE` and `_STOPPING`. -/
inductive FsmState
  | idle
  | active
  | stopping
  deriving DecidableEq, Repr

namespace Fsm

/-- `NN_FSM_ACTION`. -/
abbrev action : ℤ := -2
/-- `NN_FSM_START`. -/
abbrev start : ℤ := -2
/-- `NN_FSM_STOP`. -/
abbrev stop : ℤ := -3

/-- `nn_fsm_feed`: the handler `fn` or `shutdownFn` takes the event. -/
def feed {π β : Type} (state : FsmState) (fn shutdownFn : ℤ → ℤ → Option π → β)
    (src type : ℤ) (srcptr : Option π) : β :=
  if state ≠ .stopping then fn src type srcptr else shutdownFn src type srcptr

variable {π β : Type} {fn shutdownFn : ℤ → ℤ → Option π → β} {src type : ℤ} {srcptr : Option π}

@[simp] theorem feed_stopping :
    feed .stopping fn shutdownFn src type srcptr = shutdownFn src type srcptr := rfl

theorem feed_of_ne {state : FsmState} (h : state ≠ .stopping) :
    feed state fn shutdownFn src type srcptr = fn src type srcptr := if_pos h

end Fsm

/-- `struct nn_fsm_event`, of a machine among `φ` and with a pointer to a `π`.
    Its queue item is kept with the queues. -/
structure FsmEvent (φ π : Type) where
  fsm : Option φ
  src : ℤ
  srcptr : Option π
  type : ℤ
  deriving DecidableEq

namespace FsmEvent

variable {φ π : Type}

/-- `nn_fsm_event_init`. -/
def init : FsmEvent φ π := ⟨none, -1, none, -1⟩

/-- What `nn_fsm_event_process` leaves in the event. -/
def clear (self : FsmEvent φ π) : FsmEvent φ π :=
  { self with src := -1, type := -1, srcptr := none }

end FsmEvent

end Nanomsg
