import Nanomsg.Inproc.Endpoint
import Nanomsg.Inproc.Steps
import Nanomsg.Lib.System

/-!
# The handshake

Runs of one connection, from the call of `nn_sinproc_connect` on: the endpoint it
names makes a sinproc that accepts as soon as it takes the event `CONNECT`, and
the two sinprocs tell each other when they are ready (`Handshake.Completes`).

`never_completes`: no handshake ever does, as `nn_sinproc_connect` starts the
sinproc twice.
-/

namespace Nanomsg

open Function Transition Sinproc

/-- The state of a handshake. -/
structure Handshake (ε : Type) where
  tran : Transport ε
  /-- How often each sinproc has started its pipebase. -/
  starts : ℕ → ℕ

/-- What happens in a handshake. -/
inductive HandshakeAction
  | connect
  /-- The first event raised by the sinproc `i` to another context is delivered. -/
  | deliver (i : ℕ)

namespace Handshake

variable {ε : Type} [DecidableEq ε] (E : Eps ε) (i : ℕ) (peer : ε)

/-- The sinproc `i` connects once. -/
def enabled (w : Handshake ε) : HandshakeAction → Prop
  | .connect => (w.tran.net.sinproc i).fsm = .idle
  | .deliver j => w.tran.net.eventsto j ≠ []

/-- The first event raised by the sinproc `j` is delivered. The sockets take all
    the pipes. -/
def deliver (w : Transport ε) (j : ℕ) : Except (Abort (Transport ε)) (Transport ε) :=
  match w.net.eventsto j with
  | [] => .ok w
  | event :: _ => (w.withNet (w.net.popto j event)).process E 0 event

/-- What the action does to the transport. -/
def act (w : Transport ε) : HandshakeAction → Except (Abort (Transport ε)) (Transport ε)
  | .connect => w.onNet fun net => net.connect i 0 peer
  | .deliver j => deliver E w j

/-- Whether the sinproc `j` has started its pipebase between `w` and `w'`. -/
def Started (w w' : Transport ε) (j : ℕ) : Prop :=
  (w.net.sinproc j).pipebase.state = .idle ∧ (w'.net.sinproc j).pipebase.state ≠ .idle

instance (w w' : Transport ε) (j : ℕ) : Decidable (Started w w' j) :=
  inferInstanceAs (Decidable (_ ∧ _))

/-- Taking an action. -/
def exec (w : Handshake ε) (a : HandshakeAction) : Except (Abort (Transport ε)) (Handshake ε) := do
  let tran ← act E i peer w.tran a
  pure { tran := tran
         starts := fun j => w.starts j + if Started w.tran tran j then 1 else 0 }

/-- The sinproc `i` of the endpoint `owner` has been made, and both endpoints are
    active. No events are queued. -/
structure Begun (owner : ε) (w : Handshake ε) : Prop where
  ne : owner ≠ peer
  alloc : i < w.tran.allocs
  connecting : ∃ e, w.tran.object owner = some e ∧ e.fsm = .active ∧ e.state = .active ∧ i ∈ e.sinprocs
  accepting : ∃ e, w.tran.object peer = some e ∧ e.fsm = .active ∧ e.state = .active
  sinproc : w.tran.net.sinproc i = Sinproc.init srcSinproc owner (E.rcvbuf owner) E.memory
  eventsto : ∀ j, w.tran.net.eventsto j = []
  queued : ∀ o, w.tran.net.queued o = false
  stops : ∀ j, w.tran.net.stops j = 0
  starts : ∀ j, w.starts j = 0

/-- The runs of a handshake. -/
def system (owner : ε) : System (Handshake ε) HandshakeAction (Abort (Transport ε)) where
  init := Begun E i peer owner
  enabled := enabled i
  exec := exec E i peer

/-- One of the sinprocs `j` and `k` is the one that connects, and the other one
    belongs to the endpoint it connects to. -/
def Opposite (w : Transport ε) (j k : ℕ) : Prop :=
  j = i ∧ (w.net.sinproc k).owner = peer ∨ k = i ∧ (w.net.sinproc j).owner = peer

/-- What is asked of every state of a handshake. -/
structure Right (w : Handshake ε) : Prop where
  starts : ∀ j, w.starts j ≤ 1
  /-- An active sinproc has the one on the other side as its peer. -/
  active : ∀ j, (w.tran.net.sinproc j).state = .active → w.starts j = 1 ∧
    ∃ k, (w.tran.net.sinproc j).peer = some k ∧ Opposite i peer w.tran j k
  /-- Once no events are left, both are active. -/
  done : (w.tran.net.sinproc i).fsm ≠ .idle → (∀ j, w.tran.net.eventsto j = []) →
    ∃ k, Opposite i peer w.tran i k ∧
      (w.tran.net.sinproc i).state = .active ∧ (w.tran.net.sinproc i).peer = some k ∧
      (w.tran.net.sinproc k).state = .active ∧ (w.tran.net.sinproc k).peer = some i

/-- However the events are delivered, nothing fails and every state is right. -/
def Completes (owner : ε) (w : Handshake ε) : Prop :=
  ∀ as, (system E i peer owner).Correct (Right i peer) (fun _ _ _ => True) w as

variable {E i peer}

/-- `nn_sinproc_connect` is never right: it feeds `NN_FSM_START` to a sinproc that is
    connecting. -/
theorem never_completes {owner : ε} {w : Handshake ε} (h : Begun E i peer owner w) :
    ¬ Completes E i peer owner w := by
  intro hc
  have hfsm : (w.tran.net.sinproc i).fsm = .idle := by rw [h.sinproc]; rfl
  have hstate : (w.tran.net.sinproc i).state = .idle := by rw [h.sinproc]; rfl
  obtain ⟨-, hstep⟩ := hc [.connect]
  obtain ⟨w', hx, -⟩ := hstep hfsm
  have hconnect : w.tran.net.connect i 0 peer = _ :=
    Inproc.connect_badAction hfsm hstate (h.queued _)
  simp [system, exec, act, Transport.onNet_error (f := fun net => net.connect i 0 peer) hconnect] at hx

/-- Two endpoints at one address, of which the first has made a sinproc. -/
def begun : Handshake ℕ where
  tran :=
    { net :=
        { sinproc := fun _ => Sinproc.init srcSinproc 0 1 fun _ => Message.empty
          eventsto := fun _ => []
          events := fun _ => []
          queued := fun _ => false
          stops := fun _ => 0
          raised := [] }
      allocs := 1
      freed := []
      object := fun e => some ⟨if e = 0 then .cinproc else .binproc, .active, .active, [e]⟩
      bound := [1]
      connected := [0]
      stats := []
      stopped := [] }
  starts := fun _ => 0

/-- Endpoints that all have one address and compatible protocols. -/
def eps : Eps ℕ := ⟨fun _ => [97], fun _ => 1, fun _ _ => true, fun _ => Message.empty⟩

theorem begun_begun : Begun eps 0 1 0 begun :=
  ⟨by decide, by decide, ⟨_, rfl, rfl, rfl, by decide⟩, ⟨_, rfl, rfl, rfl⟩, rfl, fun _ => rfl,
    fun _ => rfl, fun _ => rfl, fun _ => rfl⟩

theorem begun_not_completes : ¬ Completes eps 0 1 0 begun := never_completes begun_begun

/-- It is not so that every handshake completes. -/
theorem not_completes : ¬ ∀ (w : Handshake ℕ), Begun eps 0 1 0 w → Completes eps 0 1 0 w := by
  intro h
  obtain ⟨-, hstep⟩ := h begun begun_begun [.connect]
  obtain ⟨w', hx, -⟩ := hstep rfl
  have hact : act eps 0 1 begun.tran .connect = .error ⟨.badAction, _⟩ := rfl
  simp [system, exec, hact] at hx

end Handshake

end Nanomsg
