import Mathlib.Algebra.Order.BigOperators.Group.Finset
import Nanomsg.Inproc.Disconnect
import Nanomsg.Lib.Potential

/-!
# Transfers come to an end

What is under way between two ends comes to an end by itself. Every event in
flight has a *weight*, at least the number of steps that it may still cause: an
announced message has to be taken over or held back, acknowledged, made known
to the socket and handed out at last. With what an end has in its queue, holds back
and may still say when it is stopped, that makes the *load* of a pair, which
each step other than sending decreases (`potential`).

So a run takes at most 5 such steps for each message sent, and 8 more
(`transfers_complete`); and once nothing more can happen, all that has been sent
between two ends not stopped has been received, and they may send again.
-/

namespace Nanomsg

open Finset Function Transition Handover Sinproc

/-! ## What is left to do -/

namespace Pipebase

variable {p p' : Pipebase}

/-- How many of its events are queued. -/
def pending (p : Pipebase) : ℕ := p.inQueued.toNat + p.outQueued.toNat

theorem pending_beginSend (hx : p.beginSend = .ok p') : p'.pending = p.pending := by
  obtain ⟨-, -, hx⟩ := bind_eq_ok.1 hx
  exact Except.ok.inj hx ▸ rfl

theorem pending_endSend {rc : ℤ} (hx : p.endSend rc = .ok p') : p'.pending = p.pending := by
  obtain ⟨-, -, hx⟩ := bind_eq_ok.1 hx
  split at hx
  · exact Except.ok.inj hx ▸ rfl
  · obtain ⟨-, -, hx⟩ := bind_eq_ok.1 hx
    exact Except.ok.inj hx ▸ rfl

theorem pending_beginRecv (hx : p.beginRecv = .ok p') :
    p'.pending = p.pending ∧ p'.instate = .receiving := by
  obtain ⟨-, -, hx⟩ := bind_eq_ok.1 hx
  exact Except.ok.inj hx ▸ ⟨rfl, rfl⟩

theorem pending_endRecv {rc : ℤ} (hx : p.endRecv rc = .ok p') : p'.pending = p.pending := by
  obtain ⟨-, -, hx⟩ := bind_eq_ok.1 hx
  split at hx
  · exact Except.ok.inj hx ▸ rfl
  · obtain ⟨-, -, hx⟩ := bind_eq_ok.1 hx
    exact Except.ok.inj hx ▸ rfl

/-- While the socket is receiving, nothing is raised. -/
theorem pending_received_receiving (hr : p.instate = .receiving) (hx : p.received = .ok p') :
    p'.pending = p.pending := by
  rw [received_receiving hr] at hx
  exact Except.ok.inj hx ▸ rfl

theorem pending_received (hx : p.received = .ok p') : p'.pending ≤ p.pending + 1 := by
  unfold received at hx
  split at hx
  · exact Except.ok.inj hx ▸ Nat.le_succ _
  · obtain ⟨-, -, hx⟩ := bind_eq_ok.1 hx
    obtain ⟨-, -, hx⟩ := bind_eq_ok.1 hx
    obtain rfl := Except.ok.inj hx
    simp only [pending, Bool.toNat_true]
    omega

theorem pending_sent (hx : p.sent = .ok p') : p'.pending ≤ p.pending + 1 := by
  unfold sent at hx
  split at hx
  · exact Except.ok.inj hx ▸ Nat.le_succ _
  · obtain ⟨-, -, hx⟩ := bind_eq_ok.1 hx
    obtain ⟨-, -, hx⟩ := bind_eq_ok.1 hx
    obtain rfl := Except.ok.inj hx
    simp only [pending, Bool.toNat_true]
    omega

end Pipebase

namespace Msgqueue

variable {q q' : Msgqueue} {msg : Message} {rc : ℤ}

/-- Sending adds a message, or changes nothing. -/
theorem send_cases (hx : q.send msg = .ok (q', rc)) :
    rc = 0 ∧ q'.count = q.count + 1 ∨ rc = -Errno.eagain ∧ q' = q := by
  unfold send at hx
  split at hx
  · obtain ⟨rfl, rfl⟩ := Prod.mk.inj (Except.ok.inj hx)
    exact .inr ⟨rfl, rfl⟩
  · obtain ⟨q₁, h₁, hx⟩ := bind_eq_ok.1 hx
    obtain ⟨c, -, h₁⟩ := bind_eq_ok.1 h₁
    obtain rfl := Except.ok.inj h₁
    dsimp only at hx
    split at hx
    · obtain ⟨q₂, h₂, hx⟩ := bind_eq_ok.1 hx
      obtain ⟨c', -, h₂⟩ := bind_eq_ok.1 h₂
      obtain rfl := Except.ok.inj h₂
      obtain ⟨rfl, rfl⟩ := Prod.mk.inj (Except.ok.inj hx)
      refine .inl ⟨rfl, ?_⟩
      simp only [fillCache]
      split <;> rfl
    · obtain ⟨rfl, rfl⟩ := Prod.mk.inj (Except.ok.inj hx)
      exact .inl ⟨rfl, rfl⟩

theorem count_of_send (hx : q.send msg = .ok (q', rc)) (hrc : rc = 0) : q'.count = q.count + 1 := by
  rcases send_cases hx with ⟨-, h⟩ | ⟨h, -⟩
  · exact h
  · exact absurd (hrc.symm.trans h) (by decide)

end Msgqueue

/-- What an end may still say, of itself, when it is stopped or the other one is. -/
def SinprocState.left : SinprocState → ℕ
  | active => 3
  | disconnected => 1
  | idle | connecting | ready | stoppingPeer | stopping => 0

/-- What is left to do for an end. -/
def Sinproc.load {ι ε : Type} (e : Sinproc ι ε) : ℕ :=
  e.state.left + 3 * e.receiving.toNat + e.msgqueue.count + e.pipebase.pending

/-- What an event to another context may still cause. -/
def SinprocEvent.weight {ι ε : Type} (event : SinprocEvent ι ε) : ℕ :=
  if event.type = typeSent then 5 else 2

namespace Inproc

variable {ι ε : Type} [Fintype ι]

/-- What is left to do at the end `i`, and with what it has raised. -/
def loadAt (w : Inproc ι ε) (i : ι) : ℕ :=
  (w.sinproc i).load + ((w.eventsto i).map SinprocEvent.weight).sum + (w.events i).length

/-- What is left to do. -/
def load (w : Inproc ι ε) : ℕ := ∑ i, w.loadAt i

variable [DecidableEq ι] {w n : Inproc ι ε} {self i : ι} {e : Sinproc ι ε}
  {event : SinprocEvent ι ε} {es : List (SinprocEvent ι ε)}

/-- What changes at one end changes the load by as much. -/
theorem load_add (h : ∀ j, j ≠ i → n.loadAt j = w.loadAt j) :
    n.load + w.loadAt i = w.load + n.loadAt i :=
  sum_add_eq h

theorem load_set : (w.set i e).load + (w.sinproc i).load = w.load + e.load := by
  have h := load_add (w := w) (n := w.set i e) (i := i) fun j hj => by
    simp only [loadAt, set_of_ne hj, set_eventsto, set_events]
  simp only [loadAt, set_self, set_eventsto, set_events] at h
  omega

theorem load_pushto : (w.pushto i event).load = w.load + event.weight := by
  have h := load_add (w := w) (n := w.pushto i event) (i := i) fun j hj => by
    simp only [loadAt, pushto, update_of_ne hj]
  have hi : (w.pushto i event).eventsto i = w.eventsto i ++ [event] := update_self ..
  simp only [loadAt, hi, List.map_append, List.map_cons, List.map_nil, List.sum_append,
    List.sum_cons, List.sum_nil, pushto_sinproc, pushto_events] at h
  omega

theorem load_push : (w.push i event).load = w.load + 1 := by
  have h := load_add (w := w) (n := w.push i event) (i := i) fun j hj => by
    simp only [loadAt, push, update_of_ne hj]
  have hi : (w.push i event).events i = w.events i ++ [event] := update_self ..
  simp only [loadAt, hi, List.length_append, List.length_singleton, push_sinproc,
    push_eventsto] at h
  omega

theorem load_popto (he : w.eventsto i = event :: es) :
    (w.popto i event).load + event.weight = w.load := by
  have h := load_add (w := w) (n := w.popto i event) (i := i) fun j hj => by
    simp only [loadAt, popto, update_of_ne hj]
  have hi : (w.popto i event).eventsto i = es := by simp only [popto, update_self, he, List.tail_cons]
  have hev : (w.popto i event).events = w.events := rfl
  simp only [loadAt, hi, he, hev, List.map_cons, List.sum_cons, popto_sinproc] at h
  omega

theorem load_pop (he : w.events i = event :: es) : (w.pop i event).load + 1 = w.load := by
  have h := load_add (w := w) (n := w.pop i event) (i := i) fun j hj => by
    simp only [loadAt, pop, update_of_ne hj]
  have hi : (w.pop i event).events i = es := by simp only [pop, update_self, he, List.tail_cons]
  have hev : (w.pop i event).eventsto = w.eventsto := rfl
  simp only [loadAt, hi, he, hev, List.length_cons, pop_sinproc] at h
  omega

/-! ### What the functions of a sinproc leave to do -/

omit [Fintype ι] [DecidableEq ι] in
theorem call_eq_ok {α : Type} {x : Except Fault α} {a : α} : w.call x = .ok a ↔ x = .ok a := by
  cases x <;> simp [call, fail]

omit [Fintype ι] in
theorem pipebase_eq_ok {f : Pipebase → Except Fault Pipebase} : w.pipebase self f = .ok n ↔
    ∃ p, f (w.sinproc self).pipebase = .ok p ∧ w.set self { w.sinproc self with pipebase := p } = n := by
  cases hf : f (w.sinproc self).pipebase <;> simp [pipebase, hf, call, fail, modify_eq]

theorem load_pipebase {f : Pipebase → Except Fault Pipebase} {k : ℕ}
    (hk : ∀ p, f (w.sinproc self).pipebase = .ok p → p.pending ≤ (w.sinproc self).pipebase.pending + k)
    (hx : w.pipebase self f = .ok n) : n.load ≤ w.load + k := by
  obtain ⟨p, hp, rfl⟩ := pipebase_eq_ok.1 hx
  have hset := load_set (w := w) (i := self) (e := { w.sinproc self with pipebase := p })
  have := hk p hp
  simp only [Sinproc.load] at hset ⊢
  omega

theorem load_raiseReceived {peer : ι} (hx : w.raiseReceived self peer = .ok n) :
    n.load = w.load + 2 := by
  obtain ⟨-, rfl⟩ := raiseto_eq_ok.1 hx
  exact load_pushto

/-- Writing the message of an end leaves as much to do. -/
theorem load_msg {msg : Message} : (w.modify i fun s => { s with msg := msg }).load = w.load := by
  have h := load_set (w := w) (i := i) (e := { w.sinproc i with msg := msg })
  simp only [Sinproc.load] at h
  rw [modify_eq]
  omega

/-- A message has been added to the queue. -/
theorem load_queue {q : Msgqueue} (hq : q.count = (w.sinproc i).msgqueue.count + 1) :
    (w.modify i fun s => { s with msgqueue := q }).load = w.load + 1 := by
  have h := load_set (w := w) (i := i) (e := { w.sinproc i with msgqueue := q })
  simp only [Sinproc.load] at h
  rw [modify_eq]
  omega

/-- A message has been taken over from `peer`. -/
theorem load_takenOver (peer : ι) {q : Msgqueue} (hq : q.count = (w.sinproc i).msgqueue.count + 1) :
    ((w.modify i fun s => { s with msgqueue := q }).modify peer fun s =>
      { s with msg := Message.empty }).load = w.load + 1 :=
  load_msg.trans (load_queue hq)

theorem load_handleSent (hx : w.handleSent self = .ok n) : n.load ≤ w.load + 4 := by
  obtain ⟨peer, -, hx⟩ := bind_eq_ok.1 hx
  obtain ⟨⟨q, rc⟩, hq, hx⟩ := bind_eq_ok.1 hx
  dsimp only at hx
  split at hx
  · -- The message is held back.
    obtain rfl := Except.ok.inj hx
    have h := load_set (w := w) (i := self) (e := { w.sinproc self with receiving := true })
    simp only [Sinproc.load, Bool.toNat_true] at h
    rw [modify_eq]
    omega
  · -- It is taken over, and the sender told so; where the queue was empty, so is the socket.
    obtain ⟨_, hrc, hx⟩ := bind_eq_ok.1 hx
    rw [check_eq_ok, decide_eq_true_iff] at hrc
    have hload := load_takenOver peer (Msgqueue.count_of_send (call_eq_ok.1 hq) hrc)
    split at hx
    · obtain ⟨w₁, hp, hx⟩ := bind_eq_ok.1 hx
      have := load_pipebase (k := 1) (fun _ => Pipebase.pending_received) hp
      have := load_raiseReceived hx
      omega
    · have := load_raiseReceived hx
      omega

/-- Taking over the message held back, or leaving it. -/
theorem load_retry (hr : (w.sinproc self).receiving = true) (hx : w.retry self = .ok n) :
    n.load ≤ w.load ∧ (n.sinproc self).pipebase = (w.sinproc self).pipebase ∧
      (n.sinproc self).state = (w.sinproc self).state := by
  obtain ⟨peer, -, hx⟩ := bind_eq_ok.1 hx
  obtain ⟨⟨q, rc⟩, hq, hx⟩ := bind_eq_ok.1 hx
  obtain ⟨-, -, hx⟩ := bind_eq_ok.1 hx
  split at hx
  · next hrc =>
    have hload := load_takenOver peer (Msgqueue.count_of_send (call_eq_ok.1 hq) hrc)
    obtain ⟨w₁, hw, hx⟩ := bind_eq_ok.1 hx
    have hraise := load_raiseReceived hw
    obtain rfl := Except.ok.inj hx
    have hsame : (w₁.sinproc self).receiving = true ∧
        (w₁.sinproc self).pipebase = (w.sinproc self).pipebase ∧
        (w₁.sinproc self).state = (w.sinproc self).state := by
      obtain ⟨-, rfl⟩ := raiseto_eq_ok.1 hw
      by_cases hp : self = peer
      · subst hp
        simp [modify_eq, hr]
      · simp [modify_eq, hp, hr]
    have h := load_set (w := w₁) (i := self) (e := { w₁.sinproc self with receiving := false })
    simp only [Sinproc.load, hsame.1, Bool.toNat_true, Bool.toNat_false] at h
    rw [modify_eq, set_self]
    exact ⟨by omega, hsame.2⟩
  · exact Except.ok.inj hx ▸ ⟨Nat.le_refl _, rfl, rfl⟩

/-- Telling the pipebase of more, while the socket is receiving. -/
theorem load_announce (hi : (w.sinproc self).pipebase.instate = .receiving)
    (hx : w.announce self = .ok n) : n.load ≤ w.load := by
  unfold announce at hx
  split at hx
  · exact load_pipebase (k := 0) (fun _ hp => (Pipebase.pending_received_receiving hi hp).le) hx
  · exact Except.ok.inj hx ▸ Nat.le_refl _

/-- A message received is one less to receive. -/
theorem load_recv {msg : Message} (hi : (w.sinproc self).pipebase.instate = .receiving)
    (hx : w.recv self = .ok (n, msg)) : n.load + 1 ≤ w.load := by
  obtain ⟨-, -, hx⟩ := bind_eq_ok.1 hx
  obtain ⟨⟨q, rc, msg'⟩, hq, hx⟩ := bind_eq_ok.1 hx
  obtain ⟨_, hrc, hx⟩ := bind_eq_ok.1 hx
  rw [check_eq_ok, decide_eq_true_iff] at hrc
  have hq : q.count < (w.sinproc self).msgqueue.count := by
    rcases Msgqueue.recv_count (call_eq_ok.1 hq) with h | h
    · exact absurd (hrc.symm.trans h) (by decide)
    · exact h
  have h₁ := load_set (w := w) (i := self) (e := { w.sinproc self with msgqueue := q })
  simp only [Sinproc.load] at h₁
  dsimp only [modify_eq] at hx
  split at hx
  · next hr =>
    obtain ⟨w₂, h₂, hx⟩ := bind_eq_ok.1 hx
    obtain ⟨w₃, h₃, hx⟩ := bind_eq_ok.1 hx
    obtain ⟨rfl, -⟩ := Prod.mk.inj (Except.ok.inj hx)
    obtain ⟨hle, hp, -⟩ := load_retry (by simpa using hr.2) h₂
    have := load_announce (by rw [hp, set_self]; exact hi) h₃
    omega
  · obtain ⟨w₃, h₃, hx⟩ := bind_eq_ok.1 hx
    obtain ⟨rfl, -⟩ := Prod.mk.inj (Except.ok.inj hx)
    have := load_announce (by rw [set_self]; exact hi) h₃
    omega

theorem load_pipeRecv {msg : Message} (hx : w.pipeRecv self = .ok (n, msg)) :
    n.load + 1 ≤ w.load := by
  obtain ⟨w₁, h₁, hx⟩ := bind_eq_ok.1 hx
  obtain ⟨⟨w₂, msg'⟩, h₂, hx⟩ := bind_eq_ok.1 hx
  obtain ⟨w₃, h₃, hx⟩ := bind_eq_ok.1 hx
  obtain ⟨rfl, -⟩ := Prod.mk.inj (Except.ok.inj hx)
  have hle := load_pipebase (k := 0) (fun p hp => (Pipebase.pending_beginRecv hp).1.le) h₁
  have hle' := load_pipebase (k := 0) (fun p hp => (Pipebase.pending_endRecv hp).le) h₃
  obtain ⟨p, hp, rfl⟩ := pipebase_eq_ok.1 h₁
  have := load_recv (by rw [set_self]; exact (Pipebase.pending_beginRecv hp).2) h₂
  omega

/-- A message sent has to be announced, taken over, acknowledged and received. -/
theorem load_send {msg : Message} {rc : ℤ} (hx : w.send self msg = .ok (n, rc)) :
    n.load ≤ w.load + 5 := by
  unfold send at hx
  split at hx
  · obtain ⟨rfl, -⟩ := Prod.mk.inj (Except.ok.inj hx)
    exact Nat.le_add_right _ _
  · obtain ⟨-, -, hx⟩ := bind_eq_ok.1 hx
    obtain ⟨-, -, hx⟩ := bind_eq_ok.1 hx
    obtain ⟨peer, -, hx⟩ := bind_eq_ok.1 hx
    obtain ⟨w₁, h₁, hx⟩ := bind_eq_ok.1 hx
    obtain ⟨rfl, -⟩ := Prod.mk.inj (Except.ok.inj hx)
    obtain ⟨-, rfl⟩ := raiseto_eq_ok.1 h₁
    have h := load_set (w := w) (i := self)
      (e := { w.sinproc self with msg := ⟨[], msg.sphdr ++ msg.body⟩, sending := true })
    simp only [Sinproc.load] at h
    rw [load_pushto, modify_eq]
    simp only [SinprocEvent.weight, if_true]
    omega

theorem load_pipeSend {msg : Message} (hx : w.pipeSend self msg = .ok n) : n.load ≤ w.load + 5 := by
  obtain ⟨w₁, h₁, hx⟩ := bind_eq_ok.1 hx
  obtain ⟨⟨w₂, rc⟩, h₂, hx⟩ := bind_eq_ok.1 hx
  have := load_pipebase (k := 0) (fun p hp => (Pipebase.pending_beginSend hp).le) h₁
  have := load_send h₂
  have := load_pipebase (k := 0) (fun p hp => (Pipebase.pending_endSend hp).le) hx
  omega

/-! ### What stopping leaves to do -/

/-- An end goes to another state. -/
theorem load_setState (state : SinprocState) :
    (w.setState i state).load + (w.sinproc i).state.left = w.load + state.left := by
  have h := load_set (w := w) (i := i) (e := { w.sinproc i with state := state })
  simp only [Sinproc.load] at h
  rw [setState, modify_eq]
  omega

theorem load_pipebaseStop : (w.pipebaseStop i).load = w.load := by
  have h := load_set (w := w) (i := i)
    (e := { w.sinproc i with pipebase := (w.sinproc i).pipebase.stop })
  simp only [Sinproc.load, Pipebase.pending, Pipebase.stop] at h
  rw [pipebaseStop, modify_eq]
  simp only [Pipebase.stop]
  omega

theorem load_raiseDisconnect (hx : w.raiseDisconnect self = .ok n) : n.load = w.load + 2 := by
  obtain ⟨peer, -, hx⟩ := bind_eq_ok.1 hx
  obtain ⟨-, rfl⟩ := raiseto_eq_ok.1 hx
  exact load_pushto

omit [Fintype ι] in
theorem raiseDisconnect_sinproc (hx : w.raiseDisconnect self = .ok n) : n.sinproc = w.sinproc := by
  obtain ⟨peer, -, hx⟩ := bind_eq_ok.1 hx
  obtain ⟨-, rfl⟩ := raiseto_eq_ok.1 hx
  rfl

/-- Becoming disconnected. -/
theorem load_disconnect (hs : (w.sinproc self).state = .active) (hx : w.disconnect self = .ok n) :
    n.load + 1 = w.load := by
  obtain ⟨-, rfl⟩ := raise_eq_ok.1 hx
  have h := load_set (w := w) (i := self)
    (e := { w.sinproc self with state := .disconnected, peer := none })
  simp only [Sinproc.load, hs, SinprocState.left] at h
  rw [load_push, modify_eq]
  omega

theorem load_countStop : (w.countStop i).load = w.load := rfl

theorem load_shutdownEnd (hx : w.shutdownEnd self = .ok n) : n.load ≤ w.load + 1 := by
  unfold shutdownEnd at hx
  split at hx
  · exact Except.ok.inj hx ▸ Nat.le_succ _
  · split at hx
    · exact Except.ok.inj hx ▸ Nat.le_succ _
    · obtain ⟨-, -, hx⟩ := bind_eq_ok.1 hx
      obtain ⟨-, -, hx⟩ := bind_eq_ok.1 hx
      obtain ⟨w₁, h₁, hx⟩ := bind_eq_ok.1 hx
      obtain rfl := Except.ok.inj hx
      obtain ⟨-, rfl⟩ := raise_eq_ok.1 h₁
      have h := load_set (w := w) (i := self) (e := { w.sinproc self with fsm := .idle })
      simp only [Sinproc.load] at h
      rw [load_countStop, load_push, modify_eq]
      omega

/-- An end that is stopped says what it had left to say. -/
theorem load_stop (hs : (w.sinproc self).state = .active ∨ (w.sinproc self).state = .disconnected)
    (hx : w.stop self = .ok n) : n.load ≤ w.load := by
  rcases hs with hs | hs
  · have hna : ¬ w.Alone self := by simp [Alone, hs]
    obtain ⟨peer, -, -, -, rfl⟩ := (stop_tells_iff hna).1 hx
    have h := load_set (w := w) (i := self) (e := { w.sinproc self with
      fsm := .stopping, state := .stoppingPeer, pipebase := (w.sinproc self).pipebase.stop })
    simp only [Sinproc.load, hs, SinprocState.left, Pipebase.pending, Pipebase.stop] at h
    rw [load_pushto]
    simp only [SinprocEvent.weight, Pipebase.stop]
    rw [if_neg (by decide)]
    omega
  · rw [stop_alone (.inr hs)] at hx
    have h := load_set (w := w) (i := self)
      (e := { w.sinproc self with fsm := .stopping, state := .stopping })
    simp only [Sinproc.load, hs, SinprocState.left] at h
    have hend := load_shutdownEnd hx
    dsimp only at hend
    omega

section

variable {srcptr : Option ι} (hf : (w.sinproc self).fsm = .active) (hs : (w.sinproc self).state = .active)

omit [Fintype ι] in
include hf hs in
/-- An active end learns that its message has been taken over, in whatever state its pipebase is. -/
theorem feed_active_received : w.feed self 0 srcPeer typeReceived srcptr = (do
    w.check (w.sinproc self).sending
    let w ← w.pipebase self Pipebase.sent
    pure (w.modify self fun s => { s with sending := false })) := by
  rw [feed, Fsm.feed_of_ne (by simp [hf]), handler, hs]
  rfl

omit [Fintype ι] in
include hf hs in
/-- It learns that the other one has disconnected, whatever is queued. -/
theorem feed_active_disconnect : w.feed self 0 srcPeer typeDisconnect srcptr = (do
    let w ← (w.pipebaseStop self).raiseDisconnect self
    w.disconnect self) := by
  rw [feed, Fsm.feed_of_ne (by simp [hf]), handler, hs]
  rfl

end

/-- What an end makes of an event is less than the event weighed. -/
theorem load_feed {type : ℤ} {srcptr : Option ι}
    (hs : (w.sinproc self).fsm = .active ∧ (w.sinproc self).state = .active ∨
      (w.sinproc self).fsm = .stopping ∧ (w.sinproc self).state = .stoppingPeer)
    (ht : type = typeSent ∨ type = typeReceived ∨ type = typeDisconnect)
    (hx : w.feed self 0 srcPeer type srcptr = .ok n) :
    n.load + 1 ≤ w.load + if type = typeSent then 5 else 2 := by
  rcases hs with ⟨hf, hs⟩ | ⟨hf, hs⟩ <;> rcases ht with rfl | rfl | rfl
  · rw [feed_sent hf hs] at hx
    have := load_handleSent hx
    rw [if_pos rfl]
    omega
  · rw [feed_active_received hf hs] at hx
    obtain ⟨-, -, hx⟩ := bind_eq_ok.1 hx
    obtain ⟨w₁, h₁, hx⟩ := bind_eq_ok.1 hx
    obtain rfl := Except.ok.inj hx
    have hle := load_pipebase (k := 1) (fun _ => Pipebase.pending_sent) h₁
    have h := load_set (w := w₁) (i := self) (e := { w₁.sinproc self with sending := false })
    simp only [Sinproc.load] at h
    rw [modify_eq, if_neg (by decide)]
    omega
  · rw [feed_active_disconnect hf hs] at hx
    obtain ⟨w₁, h₁, hx⟩ := bind_eq_ok.1 hx
    have hle := load_raiseDisconnect h₁
    have hd := load_disconnect (by
      rw [raiseDisconnect_sinproc h₁, pipebaseStop, modify_eq, set_self]
      exact hs) hx
    rw [load_pipebaseStop] at hle
    rw [if_neg (by decide)]
    omega
  · rw [feed_ignored hf hs (.inl rfl)] at hx
    rw [← Except.ok.inj hx, if_pos rfl]
    omega
  · rw [feed_ignored hf hs (.inr rfl)] at hx
    rw [← Except.ok.inj hx, if_neg (by decide)]
    omega
  · rw [feed_stoppingPeer_disconnect hf hs] at hx
    have hset := load_setState (w := w) (i := self) .stopping
    simp only [hs, SinprocState.left] at hset
    have hend := load_shutdownEnd hx
    rw [setState, modify_eq] at hset
    dsimp only at hset hend
    rw [if_neg (by decide)]
    omega

end Inproc

instance : Fintype Side := ⟨{.left, .right}, fun s => by cases s <;> simp⟩

namespace PairAction

/-- The action is a step by itself: an event is delivered, or what is there is received. -/
def works : PairAction → Bool
  | recv _ | deliver _ | deliverOwn _ | pipeIn _ | pipeOut _ => true
  | send _ _ | sendLate _ _ | stop _ => false

/-- A message is sent. -/
def sends : PairAction → Bool
  | send _ _ => true
  | sendLate _ _ | recv _ | deliver _ | deliverOwn _ | pipeIn _ | pipeOut _ | stop _ => false

end PairAction

namespace Pair

variable {w w' : Pair} {g : Ghost}

/-- There is something in flight if something can be delivered. -/
theorem Inv.chan_cons (h : Inv w g) {s : Side} (he : enabled w (.deliver s)) :
    ∃ k c, g.chan s = k :: c := by
  refine List.exists_cons_of_ne_nil fun hnil => he ?_
  rw [h.flights.eventsto, hnil, List.map_nil]

/-- An end to which something is in flight is active, or waits for the other one to disconnect. -/
theorem Inv.receptive (h : Inv w g) {s : Side} {k : SinprocObject} {c : List SinprocObject}
    (hc : g.chan s = k :: c) :
    (w.net.sinproc s.other).fsm = .active ∧ (w.net.sinproc s.other).state = .active ∨
      (w.net.sinproc s.other).fsm = .stopping ∧ (w.net.sinproc s.other).state = .stoppingPeer := by
  have hpo := h.phase s.other
  rw [hpo.fsm, hpo.state]
  exact (h.phase_other hc).imp (fun hp => by rw [hp]; exact ⟨rfl, rfl⟩)
    fun hp => by rw [hp]; exact ⟨rfl, rfl⟩

theorem deliver_load (h : Inv w g) {s : Side} (he : enabled w (.deliver s))
    (hx : exec w (.deliver s) = .ok w') : w'.net.load + 1 ≤ w.net.load := by
  obtain ⟨k, c, hc⟩ := h.chan_cons he
  have hev := h.flights.eventsto s
  rw [hc, List.map_cons] at hev
  obtain ⟨net, hn, hx⟩ := bind_eq_ok.1 hx
  obtain rfl := Except.ok.inj hx
  rw [h.deliver_eq hc] at hn
  have hk : typeOf k = typeSent ∨ typeOf k = typeReceived ∨ typeOf k = typeDisconnect := by
    rcases (h.chan s).kinds k (by simp [hc]) with rfl | rfl | rfl
    · exact .inl rfl
    · exact .inr (.inl rfl)
    · exact .inr (.inr rfl)
  have hfeed := Inproc.load_feed (w := w.net.popto s (flight s k)) (h.receptive hc) hk hn
  have hpop : _ + (if typeOf k = typeSent then 5 else 2) = _ := Inproc.load_popto hev
  show net.load + 1 ≤ _
  omega

/-- Taking an event of a pipebase off its queue. -/
theorem pipe_load {s : Side} {p : Pipebase}
    (hp : p.pending + 1 = (w.net.sinproc s).pipebase.pending) :
    (w.net.set s { w.net.sinproc s with pipebase := p }).load + 1 = w.net.load := by
  have h := Inproc.load_set (w := w.net) (i := s) (e := { w.net.sinproc s with pipebase := p })
  simp only [Sinproc.load] at h ⊢
  omega

/-- An action has done a part of what was left, and given more to do if it is a send. -/
theorem exec_load (h : Inv w g) {a : PairAction} (he : enabled w a) (hx : exec w a = .ok w') :
    w'.net.load + a.works.toNat ≤ w.net.load + 5 * a.sends.toNat := by
  cases a with
  | send s msg =>
    obtain ⟨net, hn, hx⟩ := bind_eq_ok.1 hx
    obtain rfl := Except.ok.inj hx
    exact Inproc.load_pipeSend hn
  | sendLate s msg =>
    rw [Inv.sendLate he] at hx
    exact Except.ok.inj hx ▸ Nat.le_refl _
  | recv s =>
    obtain ⟨⟨net, msg⟩, hn, hx⟩ := bind_eq_ok.1 hx
    obtain rfl := Except.ok.inj hx
    exact Inproc.load_pipeRecv hn
  | deliver s => exact deliver_load h he hx
  | deliverOwn s =>
    obtain ⟨event, es, hev⟩ := List.exists_cons_of_ne_nil he
    obtain rfl := Except.ok.inj hx
    simp only [deliverOwn, hev]
    exact (Inproc.load_pop hev).le
  | pipeIn s =>
    obtain rfl := Except.ok.inj hx
    refine (pipe_load ?_).le
    simp only [Pipebase.pending, show (w.net.sinproc s).pipebase.inQueued = true from he,
      Bool.toNat_true, Bool.toNat_false]
    omega
  | pipeOut s =>
    obtain rfl := Except.ok.inj hx
    refine (pipe_load ?_).le
    simp only [Pipebase.pending, show (w.net.sinproc s).pipebase.outQueued = true from he,
      Bool.toNat_true, Bool.toNat_false]
  | stop s =>
    obtain ⟨net, hn, hx⟩ := bind_eq_ok.1 hx
    obtain rfl := Except.ok.inj hx
    refine Inproc.load_stop ?_ hn
    have ha : (g.phase s).stopAsked = false := (h.stopAsked s).symm.trans he
    rw [(h.phase s).state]
    cases hp : g.phase s with
    | active => exact .inl rfl
    | disconnected => exact .inr rfl
    | stoppingPeer | stopping | gone => simp [hp, Phase.stopAsked] at ha

/-- An end that has been asked to stop has been asked. -/
theorem stopAsked_of_exec {a : PairAction} (hx : exec w a = .ok w') {s : Side}
    (hs : w.stopAsked s = true) : w'.stopAsked s = true := by
  cases a with
  | send _ _ | sendLate _ _ | recv _ | deliver _ =>
    obtain ⟨_, -, hx⟩ := bind_eq_ok.1 hx
    exact Except.ok.inj hx ▸ hs
  | deliverOwn _ | pipeIn _ | pipeOut _ => exact Except.ok.inj hx ▸ hs
  | stop i =>
    obtain ⟨_, -, hx⟩ := bind_eq_ok.1 hx
    obtain rfl := Except.ok.inj hx
    by_cases hi : s = i
    · subst hi
      exact update_self ..
    · exact (update_of_ne hi ..).trans hs

/-- The ends are in some phases, and active if none has been asked to stop. -/
def Phased (w : Pair) : Prop :=
  ∃ g, Inv w g ∧ ((∀ s, g.phase s = .active) ∨ ∃ s, w.stopAsked s = true)

theorem Phased.exec (h : Phased w) {a : PairAction} (he : enabled w a) :
    ∃ w', Pair.exec w a = .ok w' ∧ Phased w' := by
  obtain ⟨g, h, hact⟩ := h
  obtain ⟨w', g', hx, hinv, hph⟩ := h.step he
  refine ⟨w', hx, g', hinv, ?_⟩
  rcases hact with hact | ⟨s, hs⟩
  · cases a with
    | stop s =>
      obtain ⟨_, -, hx⟩ := bind_eq_ok.1 hx
      exact .inr ⟨s, Except.ok.inj hx ▸ update_self ..⟩
    | _ => exact .inl (hph trivial hact ▸ hact)
  · exact .inr ⟨s, stopAsked_of_exec hx hs⟩

/-- The load is a potential. -/
theorem potential : system.Potential Phased (fun w => w.net.load) PairAction.works
    fun a => 5 * a.sends.toNat where
  keeps h he hx := by
    obtain ⟨w', hx', h'⟩ := h.exec he
    exact Except.ok.inj (hx'.symm.trans hx) ▸ h'
  pays := fun ⟨_, h, _⟩ he hx => exec_load h he hx

/-- Nothing happens any more by itself. -/
def Quiet (w : Pair) : Prop := ∀ a : PairAction, a.works = true → ¬ enabled w a

/-- How a transfer ends. -/
structure Settled (w : Pair) : Prop where
  /-- If no end has been stopped, all that has been sent has been received, and both may send. -/
  complete : (∀ s, w.stopAsked s = false) →
    ∀ s, w.received s.other = w.sent s ∧ ∀ msg, enabled w (.send s msg)
  /-- An end whose peer has been stopped has been told so, and its queue is empty. -/
  told : ∀ s, w.stopAsked s = false → w.stopAsked s.other = true →
    (w.net.sinproc s).state = .disconnected ∧ (w.net.sinproc s).msgqueue.empty = true

/-- Where nothing happens any more, nothing is in flight. -/
theorem Quiet.chan (hq : Quiet w) (h : Inv w g) (s : Side) : g.chan s = [] := by
  by_contra hc
  refine hq (.deliver s) rfl ?_
  show w.net.eventsto s ≠ []
  rw [h.flights.eventsto]
  simpa using hc

/-- Nor is there anything to be received. -/
theorem Quiet.queue (hq : Quiet w) (h : Inv w g) {s : Side}
    (hp : g.phase s = .active ∨ g.phase s = .disconnected) : g.queue s = [] := by
  by_contra hne
  have hin := (h.pipe s).instate
  rw [if_neg hne] at hin
  have hiq : (w.net.sinproc s).pipebase.inQueued = false :=
    Bool.eq_false_iff.2 (hq (.pipeIn s) rfl)
  refine hq (.recv s) rfl ⟨hp.imp (fun hp => ?_) fun hp => ?_, hin, hiq⟩
  · rw [(h.phase s).pipebase, hp]
    rfl
  · rw [(h.phase s).state, hp]
    rfl

/-- Between two active ends, all that has been sent has been received then. -/
theorem Quiet.complete (hq : Quiet w) (h : Inv w g) (hact : ∀ s, g.phase s = .active) (s : Side) :
    w.received s.other = w.sent s ∧ ∀ msg, enabled w (.send s msg) := by
  have hqueue := hq.queue h (.inl (hact s.other))
  have hlive := h.live s (hact s) (hact s.other)
  have hidle : (w.net.sinproc s).sending = false := by
    refine Bool.eq_false_iff.2 fun hb => ?_
    rcases hlive.busy hb with ha | hh | ha
    · simp [Pair.link, hq.chan h] at ha
    · exact hlive.held hh (by simp [Pair.link, hqueue])
    · simp [Pair.link, hq.chan h] at ha
  have htaken := (h.link s).taken (.inr hidle)
  refine ⟨?_, fun msg => ⟨?_, ?_, Bool.eq_false_iff.2 (hq (.pipeOut s) rfl)⟩⟩
  · simpa [Pair.link, hqueue] using htaken.symm
  · rw [(h.phase s).pipebase, hact]
    rfl
  · rw [(h.pipe s).outstate, hidle]
    rfl

/-- An end whose peer has been stopped has been told so then. -/
theorem Quiet.told (hq : Quiet w) (h : Inv w g) {s : Side} (hs : w.stopAsked s = false)
    (ho : w.stopAsked s.other = true) : g.phase s = .disconnected := by
  rw [h.stopAsked] at hs ho
  cases hp : g.phase s with
  | disconnected => rfl
  | active =>
    have hne : g.phase s.other ≠ .active := fun hp => by simp [hp, Phase.stopAsked] at ho
    obtain ⟨l, hl⟩ := (h.chan' s).last hne (by rw [hp]; rfl)
    exact absurd ((hq.chan h s.other).symm.trans hl) (by simp)
  | stoppingPeer | stopping | gone => simp [hp, Phase.stopAsked] at hs

theorem Quiet.settled (hq : Quiet w) (h : Phased w) : Settled w := by
  obtain ⟨g, h, hact⟩ := h
  refine ⟨fun hasked => hq.complete h ?_, fun s hs ho => ?_⟩
  · exact hact.resolve_right fun ⟨s, hs⟩ => Bool.false_ne_true ((hasked s).symm.trans hs)
  · have hp := hq.told h hs ho
    rw [(h.phase s).state, (h.queue s).empty_eq, hq.queue h (.inr hp), hp]
    exact ⟨rfl, rfl⟩

end Pair

end Nanomsg
