import Nanomsg.Inproc.Sinproc
import Nanomsg.Lib.Handover
import Nanomsg.Lib.System

/-!
# A pair of connected ends

Two ends of an inproc connection, each the peer of the other, with what has been
sent and received at each (`Pair`), and what may happen to them (`PairAction`):
the sockets send and receive as the pipebases allow, events are delivered, the
two contexts each in the order in which they have raised them, and the owners
stop the ends.

`Pair.Inv` says how the phases of the two ends (`Phase`), the events in flight
and the two directions of the connection (`Handover.Link`) go together.
-/

namespace Nanomsg

open Function Transition Handover Sinproc

/-- The two ends. -/
inductive Side
  | left
  | right
  deriving DecidableEq, Repr

namespace Side

/-- The other end. -/
def other : Side → Side
  | left => right
  | right => left

@[simp] theorem other_other (s : Side) : s.other.other = s := by cases s <;> rfl
@[simp] theorem other_ne (s : Side) : s.other ≠ s := by cases s <;> simp [other]
@[simp] theorem ne_other (s : Side) : s ≠ s.other := (other_ne s).symm

/-- What holds of an end and of the other one holds of both. -/
theorem forall_iff (s : Side) {P : Side → Prop} : (∀ i, P i) ↔ P s ∧ P s.other :=
  ⟨fun h => ⟨h s, h s.other⟩, fun ⟨h, h'⟩ i => by cases s <;> cases i <;> assumption⟩

end Side

/-- A pair of ends. -/
structure Pair where
  net : Inproc Side Unit
  /-- The byte strings sent from each end, and those received at it. -/
  sent : Side → List (List UInt8)
  received : Side → List (List UInt8)
  /-- The end has been asked to stop. -/
  stopAsked : Side → Bool

/-- What may happen to a pair. -/
inductive PairAction
  | send (s : Side) (msg : Message)
  /-- `nn_sinproc_send` at a disconnected end. -/
  | sendLate (s : Side) (msg : Message)
  | recv (s : Side)
  /-- The first event raised by `s` to the other context is delivered. -/
  | deliver (s : Side)
  /-- The first event raised by `s` in its own context is delivered. -/
  | deliverOwn (s : Side)
  | pipeIn (s : Side)
  | pipeOut (s : Side)
  | stop (s : Side)

namespace PairAction

/-- The action is not a stop. -/
def Transfers : PairAction → Prop
  | stop _ => False
  | _ => True

end PairAction

namespace Pair

/-- The socket may send when the pipebase says so and has told it by
    `NN_PIPE_OUT`, and receive when it says so and has told it by `NN_PIPE_IN`. -/
def enabled (w : Pair) : PairAction → Prop
  | .send s _ =>
    let p := (w.net.sinproc s).pipebase
    p.state = .active ∧ p.outstate = .idle ∧ p.outQueued = false
  | .sendLate s _ => (w.net.sinproc s).state = .disconnected
  | .recv s =>
    let p := (w.net.sinproc s).pipebase
    (p.state = .active ∨ (w.net.sinproc s).state = .disconnected) ∧ p.instate = .idle ∧
      p.inQueued = false
  | .deliver s => w.net.eventsto s ≠ []
  | .deliverOwn s => w.net.events s ≠ []
  | .pipeIn s => (w.net.sinproc s).pipebase.inQueued = true
  | .pipeOut s => (w.net.sinproc s).pipebase.outQueued = true
  | .stop s => w.stopAsked s = false

/-- Delivering the first event raised by `s` to the other context. -/
def deliver (net : Inproc Side Unit) (s : Side) :
    Except (Abort (Inproc Side Unit)) (Inproc Side Unit) :=
  match net.eventsto s with
  | [] => .ok net
  | event :: _ =>
    match event.fsm with
    | .sinproc i => (net.popto s event).process i 0 event
    | .ep _ => .ok (net.popto s event)

/-- Delivering the first event raised by `s` in its own context: to its owner. -/
def deliverOwn (net : Inproc Side Unit) (s : Side) : Inproc Side Unit :=
  match net.events s with
  | [] => net
  | event :: _ => net.pop s event

/-- Taking an action. -/
def exec (w : Pair) : PairAction → Except (Abort (Inproc Side Unit)) Pair
  | .send s msg => do
    let net ← w.net.pipeSend s msg
    pure { w with net := net, sent := update w.sent s (w.sent s ++ [msg.sphdr ++ msg.body]) }
  | .sendLate s msg => do
    let (net, _) ← w.net.send s msg
    pure { w with net := net }
  | .recv s => do
    let (net, msg) ← w.net.pipeRecv s
    pure { w with net := net, received := update w.received s (w.received s ++ [msg.body]) }
  | .deliver s => do
    let net ← deliver w.net s
    pure { w with net := net }
  | .deliverOwn s => .ok { w with net := deliverOwn w.net s }
  | .pipeIn s =>
    .ok { w with net := w.net.modify s fun e =>
      { e with pipebase := { e.pipebase with inQueued := false } } }
  | .pipeOut s =>
    .ok { w with net := w.net.modify s fun e =>
      { e with pipebase := { e.pipebase with outQueued := false } } }
  | .stop s => do
    let net ← w.net.stop s
    pure { w with net := net, stopAsked := update w.stopAsked s true }

/-- An end just connected to the other end. `NN_PIPE_OUT` may not have been
    delivered yet. -/
structure Fresh (e : Sinproc Side Unit) (peer : Side) : Prop where
  fsm : e.fsm = .active
  state : e.state = .active
  sending : e.sending = false
  receiving : e.receiving = false
  peer : e.peer = some peer
  pipebase : e.pipebase.state = .active
  instate : e.pipebase.instate = .async
  outstate : e.pipebase.outstate = .idle
  inQueued : e.pipebase.inQueued = false
  msgqueue : e.msgqueue.Contains []

/-- Two active ends, each the other's peer, with nothing in flight. -/
structure Connected (w : Pair) : Prop where
  fresh : ∀ s, Fresh (w.net.sinproc s) s.other
  eventsto : ∀ s, w.net.eventsto s = []
  events : ∀ s, w.net.events s = []
  queued : ∀ o, w.net.queued o = false
  stops : ∀ s, w.net.stops s = 0
  sent : ∀ s, w.sent s = []
  received : ∀ s, w.received s = []
  stopAsked : ∀ s, w.stopAsked s = false

/-- Two ends just connected, with room for `rcvbuf` bytes each. -/
def justConnected (rcvbuf : UInt64) : Pair where
  net :=
    { sinproc := fun s => { (Sinproc.init 0 () rcvbuf fun _ => Message.empty : Sinproc Side Unit) with
        fsm := .active
        state := .active
        peer := some s.other
        pipebase := ⟨.active, .async, .idle, false, true⟩ }
      eventsto := fun _ => []
      events := fun _ => []
      queued := fun _ => false
      stops := fun _ => 0
      raised := [] }
  sent := fun _ => []
  received := fun _ => []
  stopAsked := fun _ => false

theorem connected_justConnected (rcvbuf : UInt64) : Connected (justConnected rcvbuf) :=
  ⟨fun _ => ⟨rfl, rfl, rfl, rfl, rfl, rfl, rfl, rfl, rfl, Msgqueue.contains_init _ _⟩, fun _ => rfl,
    fun _ => rfl, fun _ => rfl, fun _ => rfl, fun _ => rfl, fun _ => rfl, fun _ => rfl⟩

/-- The runs of a pair. -/
def system : System Pair PairAction (Abort (Inproc Side Unit)) where
  init := Connected
  enabled := enabled
  exec := exec

/-! ## The invariant -/

/-- How far an end is. -/
inductive Phase
  | active
  | disconnected
  | stoppingPeer
  | stopping
  /-- It has raised `STOPPED`. -/
  | gone
  deriving DecidableEq

namespace Phase

/-- The end has handled the other's `DISCONNECT`. -/
def consumed : Phase → Bool
  | active | stoppingPeer => false
  | disconnected | stopping | gone => true

/-- The state of an end in a phase. -/
def state : Phase → SinprocState
  | active => .active
  | disconnected => .disconnected
  | stoppingPeer => .stoppingPeer
  | stopping | gone => .stopping

/-- The state of its machine. -/
def fsm : Phase → FsmState
  | active | disconnected => .active
  | stoppingPeer | stopping => .stopping
  | gone => .idle

/-- The state of its pipebase. -/
def pipebase : Phase → PipebaseState
  | active => .active
  | _ => .idle

/-- It has been asked to stop. -/
def stopAsked : Phase → Bool
  | active | disconnected => false
  | stoppingPeer | stopping | gone => true

/-- How often it has raised `STOPPED`. -/
def stops : Phase → ℕ
  | gone => 1
  | _ => 0

end Phase

/-- The type of the event an object is used for between active ends. -/
def typeOf : SinprocObject → ℤ
  | .connect => typeConnect
  | .sent => typeSent
  | .received => typeReceived
  | .disconnect => typeDisconnect
  | .stopped => typeStopped

/-- The event of `s` to the other end. -/
def flight (s : Side) (k : SinprocObject) : SinprocEvent Side Unit :=
  ⟨(s.other, k), .sinproc s.other, srcPeer, typeOf k, s⟩

/-- The event of `s` to its owner. -/
def ownEvent (src : ℤ) (s : Side) (k : SinprocObject) : SinprocEvent Side Unit :=
  ⟨(s, k), .ep (), src, typeOf k, s⟩

/-- The end `e` is in the phase `p`. -/
structure InPhase (e : Sinproc Side Unit) (peer : Side) (p : Phase) : Prop where
  state : e.state = p.state
  fsm : e.fsm = p.fsm
  pipebase : e.pipebase.state = p.pipebase
  peer : p = .active → e.peer = some peer

/-- What an end in the phase `p` has in flight to one in the phase `p'`: an
    active end has not disconnected, and any other has, as its last event. -/
structure ChanOk (p p' : Phase) (c : List SinprocObject) : Prop where
  kinds : ∀ k ∈ c, k = .sent ∨ k = .received ∨ k = .disconnect
  active : p = .active → p'.consumed = false ∧ .disconnect ∉ c
  consumed : p ≠ .active → p'.consumed = true → c = []
  last : p ≠ .active → p'.consumed = false → ∃ l, c = l ++ [.disconnect]

/-- What an end in the phase `p` has raised to its owner. -/
def OwnOk (p : Phase) (o : List SinprocObject) : Prop :=
  ∀ k ∈ o, k = .disconnect ∧ p.consumed = true ∧ p ≠ .gone ∨ k = .stopped ∧ p = .gone

/-- The states of the pipebase say whether the end is sending, and whether its
    queue is empty; an event is queued only after the last change. -/
structure PipeOk (e : Sinproc Side Unit) (xs : List Message) : Prop where
  outstate : e.pipebase.outstate = if e.sending then .async else .idle
  instate : e.pipebase.instate = if xs = [] then .async else .idle
  outQueued : e.pipebase.outQueued = true → e.sending = false
  inQueued : e.pipebase.inQueued = true → xs ≠ []

/-- The events in flight are those of the kinds `chan`, to the other end, and
    `own`, to the owner; no object is used twice. -/
structure Flights (net : Inproc Side Unit) (chan own : Side → List SinprocObject) : Prop where
  eventsto : ∀ s, net.eventsto s = (chan s).map (flight s)
  events : ∀ s, net.events s = (own s).map (ownEvent (net.sinproc s).src s)
  queued : ∀ s k, net.queued (s, k) = true ↔ k ∈ chan s.other ∨ k ∈ own s
  nodup_chan : ∀ s, (chan s).Nodup
  nodup_own : ∀ s, (own s).Nodup
  disjoint : ∀ s, ∀ k ∈ chan s.other, k ∉ own s

/-- What is not in the state: the phases, the kinds of the events in flight, to
    the other end and to the owner, and the messages in the queues. -/
structure Ghost where
  phase : Side → Phase
  chan : Side → List SinprocObject
  own : Side → List SinprocObject
  queue : Side → List Message

/-- The direction from `s`. -/
def link (w : Pair) (g : Ghost) (s : Side) : Link (List UInt8) where
  busy := (w.net.sinproc s).sending
  announced := .sent ∈ g.chan s
  held := (w.net.sinproc s.other).receiving
  acked := .received ∈ g.chan s.other
  msg := (w.net.sinproc s).msg.body
  queue := (g.queue s.other).map Message.body
  sent := w.sent s
  received := w.received s.other

/-- The invariant of a pair. -/
structure Inv (w : Pair) (g : Ghost) : Prop where
  flights : Flights w.net g.chan g.own
  phase : ∀ s, InPhase (w.net.sinproc s) s.other (g.phase s)
  stops : ∀ s, w.net.stops s = (g.phase s).stops
  stopAsked : ∀ s, w.stopAsked s = (g.phase s).stopAsked
  chan : ∀ s, ChanOk (g.phase s) (g.phase s.other) (g.chan s)
  own : ∀ s, OwnOk (g.phase s) (g.own s)
  queue : ∀ s, (w.net.sinproc s).msgqueue.Contains (g.queue s)
  pipe : ∀ s, PipeOk (w.net.sinproc s) (g.queue s)
  link : ∀ s, (w.link g s).Ok
  live : ∀ s, g.phase s = .active → g.phase s.other = .active → (w.link g s).Live

/-! ### Events in flight -/

namespace Flights

variable {net : Inproc Side Unit} {chan own : Side → List SinprocObject} {s : Side}
  {k : SinprocObject} {l : List SinprocObject}

theorem queued_eq_false (h : Flights net chan own) (s : Side) (k : SinprocObject) :
    net.queued (s, k) = false ↔ k ∉ chan s.other ∧ k ∉ own s := by
  rw [← Bool.not_eq_true, h.queued, not_or]

/-- Only the source of the events to the owner is read off the ends. -/
theorem set (h : Flights net chan own) {e : Sinproc Side Unit} (he : e.src = (net.sinproc s).src) :
    Flights (net.set s e) chan own where
  eventsto := h.eventsto
  events i := by
    by_cases hi : i = s
    · subst hi
      simp [he, h.events]
    · simp [hi, h.events]
  queued := h.queued
  nodup_chan := h.nodup_chan
  nodup_own := h.nodup_own
  disjoint := h.disjoint

/-- Raising an event to the other end. -/
theorem pushto (h : Flights net chan own) (hk : net.queued (s.other, k) = false) :
    Flights (net.pushto s (flight s k)) (update chan s (chan s ++ [k])) own := by
  obtain ⟨hc, ho⟩ := (h.queued_eq_false _ _).1 hk
  rw [Side.other_other] at hc
  refine ⟨fun i => ?_, h.events, fun i j => ?_, fun i => ?_, h.nodup_own, fun i j hj => ?_⟩
  · by_cases hi : i = s
    · subst hi
      simp [Inproc.pushto, h.eventsto]
    · simp [Inproc.pushto, update_of_ne hi, h.eventsto]
  · by_cases hi : i = s.other
    · subst hi
      by_cases hj : j = k
      · subst hj
        simp [Inproc.pushto, flight]
      · simp [Inproc.pushto, flight, h.queued, hj]
    · have hi' : i.other ≠ s := fun he => hi (by rw [← he, Side.other_other])
      have hne : (i, j) ≠ (s.other, k) := by simp [hi]
      simp [Inproc.pushto, flight, update_of_ne hne, update_of_ne hi', h.queued]
  · by_cases hi : i = s
    · subst hi
      rw [update_self]
      exact List.nodup_append.2 ⟨h.nodup_chan i, List.nodup_singleton k, fun a ha b hb hab =>
        hc (List.mem_singleton.1 hb ▸ hab ▸ ha)⟩
    · rw [update_of_ne hi]
      exact h.nodup_chan i
  · by_cases hi : i.other = s
    · subst hi
      rw [Side.other_other] at ho
      rw [update_self, List.mem_append, List.mem_singleton] at hj
      rcases hj with hj | rfl
      · exact h.disjoint i j hj
      · exact ho
    · rw [update_of_ne hi] at hj
      exact h.disjoint i j hj

/-- Raising an event to the owner. -/
theorem push (h : Flights net chan own) (hk : net.queued (s, k) = false) :
    Flights (net.push s (ownEvent (net.sinproc s).src s k)) chan
      (update own s (own s ++ [k])) := by
  obtain ⟨hc, ho⟩ := (h.queued_eq_false _ _).1 hk
  refine ⟨h.eventsto, fun i => ?_, fun i j => ?_, h.nodup_chan, fun i => ?_, fun i j hj => ?_⟩
  · by_cases hi : i = s
    · subst hi
      simp [Inproc.push, h.events]
    · simp [Inproc.push, update_of_ne hi, h.events]
  · by_cases hi : i = s
    · subst hi
      by_cases hj : j = k
      · subst hj
        simp [Inproc.push, ownEvent]
      · simp [Inproc.push, ownEvent, h.queued, hj]
    · have hne : (i, j) ≠ (s, k) := by simp [hi]
      simp [Inproc.push, ownEvent, update_of_ne hne, update_of_ne hi, h.queued]
  · by_cases hi : i = s
    · subst hi
      rw [update_self]
      exact List.nodup_append.2 ⟨h.nodup_own i, List.nodup_singleton k, fun a ha b hb hab =>
        ho (List.mem_singleton.1 hb ▸ hab ▸ ha)⟩
    · rw [update_of_ne hi]
      exact h.nodup_own i
  · by_cases hi : i = s
    · subst hi
      rw [update_self, List.mem_append, List.mem_singleton, not_or]
      exact ⟨h.disjoint i j hj, fun he => hc (he ▸ hj)⟩
    · rw [update_of_ne hi]
      exact h.disjoint i j hj

/-- Delivering the first event to the other end. -/
theorem popto (h : Flights net chan own) (hc : chan s = k :: l) :
    Flights (net.popto s (flight s k)) (update chan s l) own := by
  have hn := List.nodup_cons.1 (hc ▸ h.nodup_chan s)
  have ho : k ∉ own s.other := h.disjoint s.other k (by simp [hc])
  refine ⟨fun i => ?_, h.events, fun i j => ?_, fun i => ?_, h.nodup_own, fun i j hj => ?_⟩
  · by_cases hi : i = s
    · subst hi
      simp [Inproc.popto, h.eventsto, hc]
    · simp [Inproc.popto, update_of_ne hi, h.eventsto]
  · by_cases hi : i = s.other
    · subst hi
      by_cases hj : j = k
      · subst hj
        simp [Inproc.popto, flight, hn.1, ho]
      · simp [Inproc.popto, flight, h.queued, hc, hj]
    · have hi' : i.other ≠ s := fun he => hi (by rw [← he, Side.other_other])
      have hne : (i, j) ≠ (s.other, k) := by simp [hi]
      simp [Inproc.popto, flight, update_of_ne hne, update_of_ne hi', h.queued]
  · by_cases hi : i = s
    · subst hi
      simpa using hn.2
    · rw [update_of_ne hi]
      exact h.nodup_chan i
  · by_cases hi : i.other = s
    · subst hi
      rw [update_self] at hj
      exact h.disjoint i j (by simp [hc, hj])
    · rw [update_of_ne hi] at hj
      exact h.disjoint i j hj

/-- Delivering the first event to the owner. -/
theorem pop (h : Flights net chan own) (ho : own s = k :: l) :
    Flights (net.pop s (ownEvent (net.sinproc s).src s k)) chan (update own s l) := by
  have hn := List.nodup_cons.1 (ho ▸ h.nodup_own s)
  have hc : k ∉ chan s.other := fun hm => h.disjoint s k hm (by simp [ho])
  refine ⟨h.eventsto, fun i => ?_, fun i j => ?_, h.nodup_chan, fun i => ?_, fun i j hj => ?_⟩
  · by_cases hi : i = s
    · subst hi
      simp [Inproc.pop, h.events, ho]
    · simp [Inproc.pop, update_of_ne hi, h.events]
  · by_cases hi : i = s
    · subst hi
      by_cases hj : j = k
      · subst hj
        simp [Inproc.pop, ownEvent, hn.1, hc]
      · simp [Inproc.pop, ownEvent, h.queued, ho, hj]
    · have hne : (i, j) ≠ (s, k) := by simp [hi]
      simp [Inproc.pop, ownEvent, update_of_ne hne, update_of_ne hi, h.queued]
  · by_cases hi : i = s
    · subst hi
      simpa using hn.2
    · rw [update_of_ne hi]
      exact h.nodup_own i
  · by_cases hi : i = s
    · subst hi
      rw [update_self]
      exact fun hm => h.disjoint i j hj (by simp [ho, hm])
    · rw [update_of_ne hi]
      exact h.disjoint i j hj

end Flights

/-! ### Channels -/

namespace ChanOk

variable {p p' : Phase} {c : List SinprocObject} {k : SinprocObject}

/-- An active end raises more. -/
theorem concat (h : ChanOk p p' c) (hp : p = .active) (hk : k = .sent ∨ k = .received) :
    ChanOk p p' (c ++ [k]) where
  kinds j hj := by
    rcases List.mem_append.1 hj with hj | hj
    · exact h.kinds j hj
    · rw [List.mem_singleton.1 hj]
      tauto
  active _ := ⟨(h.active hp).1, by
    rw [List.mem_append, List.mem_singleton, not_or]
    refine ⟨(h.active hp).2, ?_⟩
    rcases hk with rfl | rfl <;> simp⟩
  consumed hn := absurd hp hn
  last hn := absurd hp hn

/-- An end to which something is in flight has not handled a `DISCONNECT`. -/
theorem consumed_eq_false (h : ChanOk p p' (k :: c)) : p'.consumed = false := by
  by_cases hp : p = .active
  · exact (h.active hp).1
  · by_contra hc
    exact absurd (h.consumed hp (by simpa using hc)) (by simp)

/-- What else is in flight once the first event has been handled. -/
theorem tail (h : ChanOk p p' (k :: c)) (hk : k ≠ .disconnect) : ChanOk p p' c where
  kinds j hj := h.kinds j (List.mem_cons_of_mem k hj)
  active hp := ⟨(h.active hp).1, fun hm => (h.active hp).2 (List.mem_cons_of_mem k hm)⟩
  consumed hp hc := absurd (h.consumed hp hc) (by simp)
  last hp hc := by
    obtain ⟨l, hl⟩ := h.last hp hc
    cases l with
    | nil => exact absurd (List.cons.inj hl).1 hk
    | cons a l => exact ⟨l, (List.cons.inj hl).2⟩

/-- A `DISCONNECT` is the last event, and not of an active end. -/
theorem of_disconnect (h : ChanOk p p' (.disconnect :: c)) (hn : (SinprocObject.disconnect :: c).Nodup) :
    p ≠ .active ∧ c = [] := by
  have hp : p ≠ .active := fun hp => (h.active hp).2 List.mem_cons_self
  obtain ⟨l, hl⟩ := h.last hp h.consumed_eq_false
  refine ⟨hp, ?_⟩
  cases l with
  | nil => exact (List.cons.inj hl).2
  | cons a l =>
    obtain ⟨rfl, rfl⟩ := List.cons.inj hl
    exact absurd hn (by simp)

end ChanOk

end Pair

end Nanomsg
