import Nanomsg.Core.Blocking
import Nanomsg.Core.Onward
import Nanomsg.Core.Options
import Nanomsg.Lib.Bracket

/-!
# Entering and leaving the context

What the operations on a socket do with its context, whatever the functions they call return: each
time that they enter it they leave it before they return, and never when they have not entered it.
Only `nn_sock_add_ep` does not, where there is no memory for an endpoint (`balanced_iff`).

An operation enters the context by itself and in the order of its steps; the functions of a socket
that are run in it are those of `Sock` and `OptSock`, two parts of `struct nn_sock`.
-/

namespace Nanomsg

open Bracket Function

/-- Entering the context and leaving it. -/
def SockStep.delta : SockStep → ℤ
  | .ctxEnter => 1
  | .ctxLeave => -1
  | .efdWait _ | .efdLook | .setFlag | .cast _ => 0

/-- `struct nn_sock`: its endpoints and its state machine, and its options. -/
structure Socket where
  sock : Sock
  opts : OptSock

/-- What a call has done, and how it ends. -/
structure Called where
  after : Socket
  steps : List SockStep
  ending : Ending

/-- An operation on a socket, with the outcomes of the functions that it calls. -/
inductive SockOp
  | setopt (level option : ℤ) (optval : OptVal)
  | getopt (level option : ℤ) (optvallen : ℕ)
  /-- Whether there is memory, the length of `addr`, and what `nn_ep_init` returns. -/
  | addEp (memory : Bool) (addrLen : ℕ) (rc : ℤ)
  | emEp (eid : ℤ)
  | send (dontwait : Bool) (now : UInt64) (rounds : List Round)
  | recv (dontwait : Bool) (now : UInt64) (rounds : List Round)
  | stop

/-- A call of a socket, as a step of what an operation does. -/
def CtxCall.step : CtxCall → SockStep
  | .enter => .ctxEnter
  | .leave => .ctxLeave

/-- What has been done with the context from `s` on to `s'`. -/
def Sock.stepsTo (s s' : Sock) : List SockStep := (s'.ctx.drop s.ctx.length).map CtxCall.step

theorem Sock.stepsTo_append {s s' : Sock} {calls : List CtxCall} (h : s'.ctx = s.ctx ++ calls) :
    s.stepsTo s' = calls.map CtxCall.step := by
  rw [stepsTo, h, List.drop_left]

/-! ### Any operation -/

namespace SockOp

variable (t : SockType) (transport : ℤ → Option OptTransport) (w : Socket)

/-- An operation, called when the context is free. -/
def run : SockOp → Except Fault Called
  | .setopt level option optval =>
    let (rc, opts) := w.opts.setoptInner transport level option optval
    pure ⟨{ w with opts := opts }, [.ctxEnter, .ctxLeave], .returned rc⟩
  | .getopt level option optvallen =>
    let (reply, opts) := w.opts.getoptInner transport level option optvallen
    pure ⟨{ w with opts := opts }, [.ctxEnter, .ctxLeave], .returned reply.rc⟩
  | .addEp memory addrLen rc => do
    let (sock, rc) ← w.sock.addEp memory addrLen rc
    pure ⟨{ w with sock := sock }, w.sock.stepsTo sock, .returned rc⟩
  | .emEp eid => do
    let (sock, rc) ← w.sock.emEp eid
    pure ⟨{ w with sock := sock }, w.sock.stepsTo sock, .returned rc⟩
  | .send dontwait now rounds =>
    let (steps, ending) := SockCall.send t dontwait w.opts.sndtimeo.toInt now rounds
    pure ⟨w, steps, ending⟩
  | .recv dontwait now rounds =>
    let (steps, ending) := SockCall.recv t dontwait w.opts.rcvtimeo.toInt now rounds
    pure ⟨w, steps, ending⟩
  | .stop => do
    let sock ← w.sock.stop t
    pure ⟨{ w with sock := sock }, w.sock.stepsTo sock, .returned 0⟩

/-- There is no memory for the endpoint that is to be added. -/
def LacksMemory : SockOp → Prop
  | .addEp memory _ _ => memory = false
  | _ => False

end SockOp

/-- The endpoints are those of before: the two lists, the next id, and every endpoint there was; and
    none stays allocated that was not before. -/
structure Sock.AsBefore (s s' : Sock) : Prop where
  eps : s'.eps = s.eps
  sdeps : s'.sdeps = s.sdeps
  eid : s'.eid = s.eid
  next : ∀ x < s.allocs, s'.items.next x = s.items.next x
  prev : ∀ x < s.allocs, s'.items.prev x = s.items.prev x
  eidOf : ∀ x < s.allocs, s'.eidOf x = s.eidOf x
  freed : ∀ x, s.allocs ≤ x → x < s'.allocs → x ∈ s'.freed

namespace SockOp

/-- A call enters and leaves the context in turn, and has left it when it returns; and where
    `nn_sock_add_ep` fails, the endpoints are as before. -/
structure Right (op : SockOp) (w : Socket) (r : Called) : Prop where
  within : Within SockStep.delta 0 r.steps
  returned : ∀ rc, r.ending = .returned rc → Balanced SockStep.delta r.steps
  clean : ∀ memory addrLen rc ret, op = .addEp memory addrLen rc → r.ending = .returned ret →
    ret < 0 → w.sock.AsBefore r.after.sock

end SockOp

/-! ### Sending and receiving -/

namespace SockCall

/-- From within the context, the steps leave it once more than they enter it, if they return. -/
structure Leaves (r : List SockStep × Ending) : Prop where
  within : Within SockStep.delta 1 r.1
  returned : ∀ rc, r.2 = .returned rc → 1 + net SockStep.delta r.1 = 0

theorem leaves_returned (rc : ℤ) : Leaves ([.ctxLeave], .returned rc) :=
  ⟨by simp [within_cons, within_nil, SockStep.delta], fun _ _ => by simp [SockStep.delta]⟩

theorem leaves_waited (timeout rc : ℤ) : Leaves ([.ctxLeave, .efdWait timeout], .returned rc) :=
  ⟨by simp [within_cons, within_nil, SockStep.delta], fun _ _ => by simp [SockStep.delta]⟩

/-- A round of the loop that comes to its end is in the context again. -/
theorem Leaves.round {r : List SockStep × Ending} (h : Leaves r) {l : List SockStep}
    (hl : Within SockStep.delta 1 l) (hn : net SockStep.delta l = 0) : Leaves (l ++ r.1, r.2) where
  within := within_append.2 ⟨hl, by rw [hn]; exact h.within⟩
  returned rc hrc := by
    rw [net_append, hn, Int.zero_add]
    exact h.returned rc hrc

/-- The steps of a round that comes to its end. -/
theorem within_round (timeout timeo : ℤ) (readable : Bool) (left : UInt64) :
    let l : List SockStep := [.ctxLeave, .efdWait timeout] ++
      (if readable then [.ctxEnter, .efdLook, .setFlag] else [.ctxEnter, .efdLook]) ++
      if 0 ≤ timeo then [.cast left] else []
    Within SockStep.delta 1 l ∧ net SockStep.delta l = 0 := by
  by_cases h : 0 ≤ timeo
  · cases readable <;> simp [h, within_cons, within_nil, SockStep.delta]
  · cases readable <;> simp [h, within_cons, within_nil, SockStep.delta]

/-- A call that does not come to its end, as an `errnum_assert` fails or the rounds are not all. -/
theorem leaves_unended {l : List SockStep} {ending : Ending} (hl : Within SockStep.delta 1 l)
    (h : ∀ rc, ending ≠ .returned rc) : Leaves (l, ending) :=
  ⟨hl, fun rc hrc => absurd hrc (h rc)⟩

theorem leaves_aborted {l : List SockStep} (hl : Within SockStep.delta 1 l) : Leaves (l, .aborted) :=
  leaves_unended hl fun _ h => by cases h

/-- However often the loop is run, and whatever it is told. -/
theorem leaves_loop (dontwait : Bool) (patience : Patience) (rounds : List Round) :
    Leaves (loop dontwait patience rounds) := by
  induction rounds generalizing patience with
  | nil => exact leaves_unended (within_nil.2 (by decide)) fun _ h => by cases h
  | cons r rounds ih =>
    obtain ⟨hl, hn⟩ := within_round patience.timeout r.timeo r.readable (patience.left r.now)
    rw [loop]
    cases r.state with
    | stoppingEps | stopping | fini => exact leaves_returned _
    | active | init =>
      -- What `nn_sock_send` finds of the attempt, and then of the wait, in its order.
      refine iteInduction (motive := Leaves) (fun _ => leaves_returned _) fun _ => ?_
      refine iteInduction (motive := Leaves) (fun _ => leaves_aborted (within_nil.2 (by decide)))
        fun _ => ?_
      refine iteInduction (motive := Leaves) (fun _ => leaves_returned _) fun _ => ?_
      refine iteInduction (motive := Leaves) (fun _ => leaves_returned _) fun _ => ?_
      refine iteInduction (motive := Leaves) (fun _ => leaves_waited _ _) fun _ => ?_
      refine iteInduction (motive := Leaves) (fun _ => leaves_waited _ _) fun _ => ?_
      refine iteInduction (motive := Leaves) (fun _ => leaves_waited _ _) fun _ => ?_
      refine iteInduction (motive := Leaves) (fun _ => leaves_aborted (leaves_waited _ 0).within)
        fun _ => ?_
      exact (ih _).round hl hn

/-- Sending and receiving: the context is entered before the loop. -/
theorem transfer_right (t : SockType) (dontwait : Bool) (timeo : ℤ) (now : UInt64)
    (rounds : List Round) (d : Direction) :
    Within SockStep.delta 0 (transfer t dontwait timeo now rounds d).1 ∧
      ∀ rc, (transfer t dontwait timeo now rounds d).2 = .returned rc →
        Balanced SockStep.delta (transfer t dontwait timeo now rounds d).1 := by
  rw [transfer]
  split
  · have h := leaves_loop dontwait (.start timeo now) rounds
    have hw : Within SockStep.delta 0 (.ctxEnter :: (loop dontwait (.start timeo now) rounds).1) :=
      within_cons.2 ⟨by decide, h.within⟩
    exact ⟨hw, fun rc hrc => ⟨hw, net_cons.trans (h.returned rc hrc)⟩⟩
  · have hw : Within SockStep.delta 0 [] := within_nil.2 (by decide)
    exact ⟨hw, fun _ _ => ⟨hw, rfl⟩⟩

end SockCall

/-- Where an endpoint cannot be added, none is. -/
theorem Sock.addEp_asBefore {s : Sock} {memory : Bool} {addrLen : ℕ} {rc : ℤ} {r : Sock × ℤ}
    (h : s.addEp memory addrLen rc = .ok r) (heid : 0 ≤ s.eid) (hret : r.2 < 0) :
    s.AsBefore r.1 := by
  rw [addEp] at h
  cases memory with
  | false =>
    cases h
    exact ⟨rfl, rfl, rfl, fun _ _ => rfl, fun _ _ => rfl, fun _ _ => rfl,
      fun x hx hlt => absurd hlt (Nat.not_lt.2 hx)⟩
  | true =>
    simp only [Bool.not_true, Bool.false_eq_true, if_false] at h
    obtain ⟨sock, hinit, h⟩ := bind_eq_ok.1 h
    obtain ⟨-, -, hinit⟩ := bind_eq_ok.1 hinit
    cases hinit
    split at h
    · -- What has been initialised is the new endpoint, which is freed.
      cases h
      refine ⟨rfl, rfl, rfl, fun x hx => ?_, fun x hx => ?_, fun x hx => ?_, fun x hx hlt => ?_⟩
      · exact update_of_ne (Nat.ne_of_lt hx) _ _
      · exact update_of_ne (Nat.ne_of_lt hx) _ _
      · exact update_of_ne (Nat.ne_of_lt hx) _ _
      · obtain rfl : x = s.allocs := Nat.le_antisymm (Nat.lt_succ_iff.1 hlt) hx
        exact List.mem_append_right _ List.mem_cons_self
    · obtain ⟨sock, -, h⟩ := bind_eq_ok.1 h
      obtain ⟨sock, -, h⟩ := bind_eq_ok.1 h
      cases h
      exact absurd hret (Int.not_lt.2 heid)

namespace SockOp

/-- The context is entered and left. -/
theorem balanced_once : Balanced SockStep.delta [.ctxEnter, .ctxLeave] where
  within := by simp [within_cons, within_nil, SockStep.delta]
  net_eq := rfl

/-- An operation that enters the context once and leaves it, and is not `nn_sock_add_ep`. -/
theorem right_once {op : SockOp} {w after : Socket} {ending : Ending}
    (hop : ∀ memory addrLen rc, op ≠ .addEp memory addrLen rc) :
    op.Right w ⟨after, [.ctxEnter, .ctxLeave], ending⟩ :=
  ⟨balanced_once.within, fun _ _ => balanced_once, fun _ _ _ _ h => absurd h (hop _ _ _)⟩

/-- A socket counts its endpoints from 1 (`nn_sock_init`), and no operation takes that back. -/
theorem run_eid {t : SockType} {transport : ℤ → Option OptTransport} {w : Socket} {op : SockOp}
    {r : Called} (h : op.run t transport w = .ok r) : w.sock.eid ≤ r.after.sock.eid := by
  cases op with
  | setopt | getopt | send | recv =>
    cases h
    exact Int.le_refl _
  | addEp =>
    obtain ⟨sock, hx, h⟩ := bind_eq_ok.1 h
    cases h
    exact (Sock.addEp_onward hx).eid
  | emEp =>
    obtain ⟨sock, hx, h⟩ := bind_eq_ok.1 h
    cases h
    exact (Sock.emEp_passes hx).1.eid
  | stop =>
    obtain ⟨sock, hx, h⟩ := bind_eq_ok.1 h
    cases h
    exact (Sock.stop_passes hx).1.1.eid

/-- Each operation that returns has left the context as often as it has entered it, and no more;
    except for `nn_sock_add_ep`, when there is no memory. -/
theorem balanced_iff {t : SockType} {transport : ℤ → Option OptTransport} {w : Socket} {op : SockOp}
    {r : Called} (h : op.run t transport w = .ok r) (heid : 0 ≤ w.sock.eid) :
    op.Right w r ↔ ¬ op.LacksMemory := by
  cases op with
  | setopt level option optval =>
    cases h
    exact iff_of_true (right_once nofun) not_false
  | getopt level option optvallen =>
    cases h
    exact iff_of_true (right_once nofun) not_false
  | emEp eid =>
    obtain ⟨sock, hx, h⟩ := bind_eq_ok.1 h
    cases h
    rw [Sock.stepsTo_append (Sock.emEp_passes hx).2]
    exact iff_of_true (right_once nofun) not_false
  | stop =>
    obtain ⟨sock, hx, h⟩ := bind_eq_ok.1 h
    cases h
    rw [Sock.stepsTo_append (Sock.stop_passes hx).1.2]
    exact iff_of_true (right_once nofun) not_false
  | send dontwait now rounds =>
    cases h
    obtain ⟨hw, hr⟩ := SockCall.transfer_right t dontwait w.opts.sndtimeo.toInt now rounds .snd
    exact iff_of_true ⟨hw, hr, nofun⟩ not_false
  | recv dontwait now rounds =>
    cases h
    obtain ⟨hw, hr⟩ := SockCall.transfer_right t dontwait w.opts.rcvtimeo.toInt now rounds .rcv
    exact iff_of_true ⟨hw, hr, nofun⟩ not_false
  | addEp memory addrLen rc =>
    obtain ⟨⟨sock, ret⟩, hx, h⟩ := bind_eq_ok.1 h
    cases h
    cases memory with
    | true =>
      rw [Sock.stepsTo_append (Sock.addEp_passes hx).2]
      refine iff_of_true ⟨balanced_once.within, fun _ _ => balanced_once, ?_⟩ Bool.noConfusion
      rintro _ _ _ _ - hret hneg
      cases hret
      exact Sock.addEp_asBefore hx heid hneg
    | false =>
      -- The context has been entered, and not left.
      refine iff_of_false (fun h => ?_) fun h => h rfl
      have hnet := (h.returned ret rfl).net_eq
      cases hx
      rw [Sock.stepsTo_append rfl] at hnet
      exact absurd hnet (show ¬ (1 : ℤ) = 0 by decide)

/-- A socket just opened. -/
def opened : Socket := ⟨Sock.opened ⟨fun _ => .out, fun _ => .out⟩ fun _ => 0, OptSock.fresh⟩

/-- A message that is sent the second time it is tried. -/
def sendTwice : SockOp := send false 100 [SockCall.idle (-1) 104, ⟨.active, 0, 0, false, -1, 104⟩]

theorem balanced_iff_sendTwice : ∃ r : Called,
    sendTwice.run SockCall.bothWays (fun _ => none) opened = .ok r ∧
      r.steps = [.ctxEnter, .ctxLeave, .efdWait (-1), .ctxEnter, .efdLook, .setFlag, .ctxLeave] ∧
      r.ending = .returned 0 ∧ (sendTwice.Right opened r ↔ ¬ sendTwice.LacksMemory) :=
  ⟨_, rfl, rfl, rfl,
    @balanced_iff SockCall.bothWays (fun _ => none) opened sendTwice _ rfl (by decide)⟩

/-- There is no memory for the first endpoint: the context is entered and not left. -/
theorem not_balanced : ∃ r : Called,
    (addEp false 0 0).run SockCall.bothWays (fun _ => none) opened = .ok r ∧
      r.ending = .returned (-Errno.enomem) ∧ r.after.sock.locked = true ∧
        ¬ Balanced SockStep.delta r.steps :=
  ⟨_, rfl, rfl, rfl, fun h => absurd h.net_eq (by decide)⟩

end SockOp

end Nanomsg
