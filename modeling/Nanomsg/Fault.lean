import Mathlib.Data.Int.Notation
import Mathlib.Tactic.Common

/-!
# Aborting, and failing

What ends the process instead of returning: the assertions of `err.h`, the
branches of a state machine that call `nn_fsm_bad_action`, `nn_fsm_bad_source`
or `nn_fsm_bad_state`, and what C leaves undefined. A function of the source
that may do so returns in `Except Fault`. A function that fails returns the negative
of one of the numbers of `errno.h` (`Errno`).
-/

namespace Nanomsg

/-- Why the process ends. -/
inductive Fault
  /-- `nn_assert`, `nn_assert_state`, `errno_assert`, `errnum_assert` or
      `alloc_assert` fails. -/
  | assertion
  | badAction
  | badSource
  | badState
  /-- A null pointer is dereferenced. -/
  | nullDeref
  /-- A pointer to something else than an object of its type is dereferenced. -/
  | wildPointer
  /-- An object that has been freed is used. -/
  | useAfterFree
  /-- A signed integer overflows. -/
  | overflow
  /-- A loop does not end. -/
  | diverges
  deriving DecidableEq, Repr

/-- `nn_assert(x)`. -/
def nnAssert (x : Bool) : Except Fault Unit :=
  if x then .ok () else .error .assertion

@[simp] theorem nnAssert_true : nnAssert true = .ok () := rfl
@[simp] theorem nnAssert_false : nnAssert false = .error .assertion := rfl

namespace Errno

abbrev eintr : ℤ := 4
abbrev ebadf : ℤ := 9
abbrev eagain : ℤ := 11
abbrev enomem : ℤ := 12
abbrev einval : ℤ := 22
abbrev enoprotoopt : ℤ := 92
abbrev enotsup : ℤ := 95
abbrev eaddrinuse : ℤ := 98
abbrev econnreset : ℤ := 104
abbrev etimedout : ℤ := 110

end Errno

section

variable {ε : Type*} {α β : Type}

@[simp] theorem ok_bind (a : α) (f : α → Except ε β) : (Except.ok a >>= f) = f a := rfl
@[simp] theorem error_bind (e : ε) (f : α → Except ε β) :
    ((Except.error e : Except ε α) >>= f) = .error e := rfl
@[simp] theorem pure_eq_ok (a : α) : (pure a : Except ε α) = .ok a := rfl

/-- A sequence returns when both of its parts do. -/
theorem bind_eq_ok {x : Except ε α} {f : α → Except ε β} {b : β} :
    (x >>= f) = .ok b ↔ ∃ a, x = .ok a ∧ f a = .ok b := by
  cases x <;> simp

end

end Nanomsg
