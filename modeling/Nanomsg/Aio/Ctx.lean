import Nanomsg.Aio.Fsm
import Nanomsg.Lib.System
import Nanomsg.Utils.Queue

/-!
# Contexts

`ctx.c`. A context is a mutex and two queues of events: those raised for its own
state machines (`events`), and those for the machines of other contexts
(`eventsto`). A thread that is about to leave a context processes the former,
takes a copy of the latter, unlocks the mutex, and only then delivers what is in
the copy: it enters the context of each event, processes the event, and leaves
again, which may make it deliver events in turn.

Threads, contexts, events and state machines are those of arbitrary types, and
threads interleave at the locking of a mutex, at each operation on a queue, and
before and after each event is processed. While it holds the lock, a thread
raises events as it likes, as the user of the context or as a handler, as long as
an event is in no queue when it is raised; the `onleave` callback raises events
to other contexts only.

Three fields are there for the proofs: what has been raised, what has been
processed, and which raise an event is waiting to be processed for.
-/

namespace Nanomsg

open Function Transition

/-- A queue of events: those of a context, and the copies a thread takes, one
    for each call of `nn_ctx_leave` that is delivering events. -/
inductive Place (κ τ : Type)
  | events (c : κ)
  | eventsto (c : κ)
  | copy (t : τ) (d : ℕ)
  deriving DecidableEq

/-- Where a thread is. -/
inductive Point (κ ι : Type)
  /-- In no context. -/
  | out
  /-- Between `nn_ctx_enter` and `nn_ctx_leave`. -/
  | user (c : κ)
  /-- In the first loop of `nn_ctx_leave`. -/
  | drain (c : κ)
  /-- About to process an event, of the context's `events` or not. -/
  | process (c : κ) (e : ι) (own : Bool)
  /-- In the handler that the event has been fed to. -/
  | handler (c : κ) (e : ι) (own : Bool)
  /-- In the callback. -/
  | onleave (c : κ)
  /-- In the second loop of `nn_ctx_leave`. -/
  | deliver
  /-- Waiting for the lock of the context of an event. -/
  | enter (c : κ) (e : ι)
  deriving DecidableEq

namespace Point

variable {κ ι : Type}

/-- The context whose lock the thread holds. -/
def held : Point κ ι → Option κ
  | out | deliver | enter _ _ => none
  | user c | drain c | process c _ _ | handler c _ _ | onleave c => some c

/-- The event that the thread has taken off a queue and not processed. -/
def popped : Point κ ι → Option ι
  | process _ e _ | enter _ e => some e
  | _ => none

/-- The context in which `nn_ctx_raise` may be called. -/
def raises : Point κ ι → Option κ
  | user c | handler c _ _ => some c
  | _ => none

/-- The context in which `nn_ctx_raiseto` may be called. -/
def raisesto : Point κ ι → Option κ
  | user c | handler c _ _ | onleave c => some c
  | _ => none

/-- The user of the context may leave it. -/
def isUser : Point κ ι → Bool
  | user _ => true
  | _ => false

/-- The thread is in `nn_ctx_leave`. -/
def leaving : Point κ ι → Bool
  | out | user _ => false
  | _ => true

/-- The context whose lock the thread waits for. -/
def waits : Point κ ι → Option κ
  | enter c _ => some c
  | _ => none

/-- The thread is delivering an event, or about to. -/
def nested : Point κ ι → Bool
  | deliver | enter _ _ | process _ _ false => true
  | _ => false

end Point

/-- A call of `nn_ctx_raise` (`own`) or `nn_ctx_raiseto`, in the context `ctx`. -/
structure Raise (κ ι φ π : Type) where
  id : ℕ
  event : ι
  ctx : κ
  own : Bool
  fsm : φ
  src : ℤ
  type : ℤ
  srcptr : Option π
  deriving DecidableEq

/-- What the event is filled with. -/
def Raise.filled {κ ι φ π : Type} (r : Raise κ ι φ π) : FsmEvent φ π :=
  ⟨some r.fsm, r.src, r.srcptr, r.type⟩

/-- A call of `nn_fsm_feed`: the raise it is due to, what is fed, the thread, and
    whether it holds the lock of the context of the machine. -/
structure Handled (κ τ ι φ π : Type) where
  raise : Option (Raise κ ι φ π)
  given : FsmEvent φ π
  thread : τ
  locked : Bool

/-- The contexts `κ`, threads `τ`, events `ι` and state machines `φ`. -/
structure Ctxs (κ τ ι φ π : Type) where
  /-- The thread that has locked the mutex. -/
  owner : κ → Option τ
  queues : Queues (Place κ τ) ι
  event : ι → FsmEvent φ π
  pc : τ → Point κ ι
  /-- How many calls of `nn_ctx_leave` of the thread are delivering events. -/
  depth : τ → ℕ
  raised : List (Raise κ ι φ π)
  pending : ι → Option (Raise κ ι φ π)
  handled : List (Handled κ τ ι φ π)

/-- What a thread may do: `nn_ctx_enter` and `nn_ctx_leave`, raising an event for
    the machine `f`, or going on. -/
inductive CtxAction (κ τ ι φ π : Type)
  | enter (t : τ) (c : κ)
  | leave (t : τ)
  | raise (t : τ) (e : ι) (f : φ) (src type : ℤ) (srcptr : Option π)
  | raiseto (t : τ) (e : ι) (f : φ) (src type : ℤ) (srcptr : Option π)
  | step (t : τ)

namespace Ctxs

variable {κ τ ι φ π : Type}

/-- `nn_ctx_init` of every context, no event being queued. -/
def start (event : ι → FsmEvent φ π) : Ctxs κ τ ι φ π where
  owner _ := none
  queues := ⟨fun _ => .null, fun _ => .null, fun _ => .out⟩
  event := event
  pc _ := .out
  depth _ := 0
  raised := []
  pending _ := none
  handled := []

/-- The raises that have been processed. -/
def done (w : Ctxs κ τ ι φ π) : List (Raise κ ι φ π) := w.handled.filterMap Handled.raise

variable [DecidableEq κ] [DecidableEq τ] [DecidableEq ι] (ctxOf : φ → κ) (w : Ctxs κ τ ι φ π)

def goto (t : τ) (p : Point κ ι) : Ctxs κ τ ι φ π := { w with pc := update w.pc t p }

/-- `nn_ctx_enter`, once the mutex is free. -/
def ctxEnter (t : τ) (c : κ) : Ctxs κ τ ι φ π := { w with owner := update w.owner c (some t) }

/-- `nn_mutex_unlock`: asserted to be done by the thread that holds the lock (and
    undefined otherwise where it is not asserted). -/
def unlock (t : τ) (c : κ) : Except Fault (Ctxs κ τ ι φ π) := do
  nnAssert (w.owner c = some t)
  pure { w with owner := update w.owner c none }

/-- The event is filled, and pushed to a queue. -/
def post (k : Place κ τ) (e : ι) (v : FsmEvent φ π) : Except Fault (Ctxs κ τ ι φ π) := do
  let queues ← w.queues.push k e
  pure { w with queues := queues, event := update w.event e v }

/-- `nn_fsm_raise`, which calls `nn_ctx_raise`. -/
def ctxRaise (c : κ) (e : ι) (f : φ) (src type : ℤ) (srcptr : Option π) :
    Except Fault (Ctxs κ τ ι φ π) :=
  w.post (.events c) e ⟨some f, src, srcptr, type⟩

/-- `nn_fsm_raiseto`, which calls `nn_ctx_raiseto`. -/
def ctxRaiseto (c : κ) (e : ι) (f : φ) (src type : ℤ) (srcptr : Option π) :
    Except Fault (Ctxs κ τ ι φ π) :=
  w.post (.eventsto c) e ⟨some f, src, srcptr, type⟩

/-- `nn_fsm_event_process` up to the call of the handler. -/
def eventProcess (t : τ) (e : ι) : Except Fault (Ctxs κ τ ι φ π) :=
  match (w.event e).fsm with
  | none => .error .nullDeref
  | some f => .ok { w with
      event := update w.event e (w.event e).clear
      pending := update w.pending e none
      handled := w.handled ++ [⟨w.pending e, w.event e, t, w.owner (ctxOf f) = some t⟩] }

/-- A call of `nn_ctx_leave` returns: the outermost one to the user of the
    context, any other to the loop it is called from. -/
def ret (t : τ) : Ctxs κ τ ι φ π := w.goto t (if w.depth t = 0 then .out else .deliver)

/-- The thread `t` goes on: `nn_ctx_leave` and what it calls. -/
def advance (t : τ) : Except Fault (Ctxs κ τ ι φ π) :=
  match w.pc t with
  | .out | .user _ => .ok w
  | .drain c => do
    let (queues, item) ← w.queues.pop (.events c)
    let w := { w with queues := queues }
    match item with
    | some e => pure (w.goto t (.process c e true))
    | none => pure (w.goto t (.onleave c))
  | .process c e own => do
    let w ← w.eventProcess ctxOf t e
    pure (w.goto t (.handler c e own))
  | .handler c _ true => .ok (w.goto t (.drain c))
  | .handler _ e false =>
    -- `nn_ctx_leave(event->fsm->ctx)`
    match (w.event e).fsm with
    | none => .error .nullDeref
    | some f => .ok (w.goto t (.drain (ctxOf f)))
  | .onleave c =>
    if w.queues.empty (.eventsto c) then do
      let w ← w.unlock t c
      pure (w.ret t)
    else do
      let w := { w with queues := w.queues.take (.eventsto c) (.copy t (w.depth t)) }
      let w ← w.unlock t c
      pure { w.goto t .deliver with depth := update w.depth t (w.depth t + 1) }
  | .deliver => do
    let (queues, item) ← w.queues.pop (.copy t (w.depth t - 1))
    let w := { w with queues := queues }
    match item with
    | some e =>
      -- `nn_ctx_enter(event->fsm->ctx)`
      match (w.event e).fsm with
      | none => .error .nullDeref
      | some f => pure (w.goto t (.enter (ctxOf f) e))
    | none => pure (ret { w with depth := update w.depth t (w.depth t - 1) } t)
  | .enter c e => .ok ((w.ctxEnter t c).goto t (.process c e false))

/-- What a thread may do. A mutex is locked when it is free. -/
def enabled : CtxAction κ τ ι φ π → Prop
  | .enter t c => w.pc t = .out ∧ w.owner c = none
  | .leave t => (w.pc t).isUser = true
  | .raise t e f _ _ _ => (w.pc t).raises = some (ctxOf f) ∧ w.queues.itemIsinqueue e = false
  | .raiseto t e _ _ _ _ => (w.pc t).raisesto ≠ none ∧ w.queues.itemIsinqueue e = false
  | .step t => (w.pc t).leaving = true ∧ ∀ c ∈ (w.pc t).waits, w.owner c = none

instance : DecidablePred (enabled ctxOf w)
  | .enter _ _ => inferInstanceAs (Decidable (_ ∧ _))
  | .leave _ => inferInstanceAs (Decidable (_ = _))
  | .raise _ _ _ _ _ _ => inferInstanceAs (Decidable (_ ∧ _))
  | .raiseto _ _ _ _ _ _ => inferInstanceAs (Decidable (_ ∧ _))
  | .step _ => inferInstanceAs (Decidable (_ ∧ _))

/-- An event is raised. -/
def note (r : Raise κ ι φ π) : Ctxs κ τ ι φ π :=
  { w with raised := w.raised ++ [r], pending := update w.pending r.event (some r) }

/-- Taking an action. What is raised is recorded here, whatever becomes of it. -/
def exec : CtxAction κ τ ι φ π → Except Fault (Ctxs κ τ ι φ π)
  | .enter t c => .ok ((w.ctxEnter t c).goto t (.user c))
  | .leave t =>
    match w.pc t with
    | .user c => .ok (w.goto t (.drain c))
    | _ => .ok w
  | .raise t e f src type srcptr =>
    match (w.pc t).raises with
    | some c =>
      let r := ⟨w.raised.length, e, c, true, f, src, type, srcptr⟩
      (w.note r).ctxRaise c e f src type srcptr
    | none => .ok w
  | .raiseto t e f src type srcptr =>
    match (w.pc t).raisesto with
    | some c =>
      let r := ⟨w.raised.length, e, c, false, f, src, type, srcptr⟩
      (w.note r).ctxRaiseto c e f src type srcptr
    | none => .ok w
  | .step t => w.advance ctxOf t

/-- The runs of the threads. -/
def system : System (Ctxs κ τ ι φ π) (CtxAction κ τ ι φ π) Fault where
  init w := ∃ event, w = start event
  enabled := enabled ctxOf
  exec := exec ctxOf

instance : DecidablePred ((system ctxOf).enabled w) := inferInstanceAs (DecidablePred (enabled ctxOf w))

end Ctxs

end Nanomsg
