import Nanomsg.Inproc.Pair
import Nanomsg.Inproc.Steps

/-!
# Transferring messages

The invariant of a pair is kept by the actions that transfer messages: each is
an operation on one of the two directions of the connection, and leaves the
other one and the phases as they are.
-/

namespace Nanomsg

open Function Transition Handover Sinproc

namespace Pair

variable {w : Pair} {g : Ghost} {a : Side}

theorem Phase.eq_active_of_pipebase {p : Phase} (h : p.pipebase = .active) : p = .active := by
  cases p <;> simp_all [Phase.pipebase]

theorem Phase.eq_disconnected_of_state {p : Phase} (h : p.state = .disconnected) :
    p = .disconnected := by
  cases p <;> simp_all [Phase.state]

theorem Phase.stops_of_consumed {p : Phase} (h : p.consumed = false) : p.stops = 0 := by
  cases p <;> simp_all [Phase.consumed, Phase.stops]

theorem flight_other (s : Side) (k : SinprocObject) :
    flight s.other k = ⟨(s, k), .sinproc s, srcPeer, typeOf k, s.other⟩ := by
  simp [flight]

/-- The end `e'` is in the same phase as `e`. -/
structure SamePhase (e e' : Sinproc Side Unit) : Prop where
  state : e'.state = e.state
  fsm : e'.fsm = e.fsm
  pipebase : e'.pipebase.state = e.pipebase.state
  peer : e'.peer = e.peer

namespace Inv

/-- An action that changes no phase and raises nothing to the owners, seen from
    the end `a` and from the other one. -/
theorem data (h : Inv w g) (a : Side) {w' : Pair} {chan : Side → List SinprocObject}
    {queue : Side → List Message}
    (same : SamePhase (w.net.sinproc a) (w'.net.sinproc a))
    (same' : SamePhase (w.net.sinproc a.other) (w'.net.sinproc a.other))
    (stops : w'.net.stops = w.net.stops) (asked : w'.stopAsked = w.stopAsked)
    (flights : Flights w'.net chan g.own)
    (hchan : ChanOk (g.phase a) (g.phase a.other) (chan a))
    (hchan' : ChanOk (g.phase a.other) (g.phase a) (chan a.other))
    (hqueue : (w'.net.sinproc a).msgqueue.Contains (queue a))
    (hqueue' : (w'.net.sinproc a.other).msgqueue.Contains (queue a.other))
    (pipe : PipeOk (w'.net.sinproc a) (queue a))
    (pipe' : PipeOk (w'.net.sinproc a.other) (queue a.other))
    (hlink : (w'.link { g with chan := chan, queue := queue } a).Ok)
    (hlink' : (w'.link { g with chan := chan, queue := queue } a.other).Ok)
    (live : g.phase a = .active → g.phase a.other = .active →
      (w'.link { g with chan := chan, queue := queue } a).Live ∧
        (w'.link { g with chan := chan, queue := queue } a.other).Live) :
    Inv w' { g with chan := chan, queue := queue } where
  flights := flights
  phase := by
    have : ∀ s, SamePhase (w.net.sinproc s) (w'.net.sinproc s) := (Side.forall_iff a).2 ⟨same, same'⟩
    exact fun s => ⟨(this s).state.trans (h.phase s).state, (this s).fsm.trans (h.phase s).fsm,
      (this s).pipebase.trans (h.phase s).pipebase,
      fun hp => (this s).peer.trans ((h.phase s).peer hp)⟩
  stops s := stops ▸ h.stops s
  stopAsked s := asked ▸ h.stopAsked s
  chan := (Side.forall_iff a).2 ⟨hchan, by rwa [Side.other_other]⟩
  own := h.own
  queue := (Side.forall_iff a).2 ⟨hqueue, hqueue'⟩
  pipe := (Side.forall_iff a).2 ⟨pipe, pipe'⟩
  link := (Side.forall_iff a).2 ⟨hlink, hlink'⟩
  live := (Side.forall_iff a).2 ⟨fun h₁ h₂ => (live h₁ h₂).1, fun h₁ h₂ =>
    (live (by rwa [Side.other_other] at h₂) h₁).2⟩

theorem chan' (h : Inv w g) (a : Side) :
    ChanOk (g.phase a.other) (g.phase a) (g.chan a.other) := by
  simpa using h.chan a.other

/-- The other end of an active end has not gone. -/
theorem stops_other (h : Inv w g) (ha : g.phase a = .active) : w.net.stops a.other = 0 :=
  (h.stops _).trans (Phase.stops_of_consumed ((h.chan a).active ha).1)

/-- The object for a transfer is not queued if it is not in flight. -/
theorem queued_eq_false (h : Inv w g) {k : SinprocObject} (hk : k = .sent ∨ k = .received)
    (hc : k ∉ g.chan a) : w.net.queued (a.other, k) = false := by
  refine (h.flights.queued_eq_false _ _).2 ⟨by rwa [Side.other_other], fun hm => ?_⟩
  rcases h.own a.other k hm with ⟨rfl, _⟩ | ⟨rfl, _⟩ <;> simp at hk

/-! ### Sending -/

/-- An end that may send is active, and sends nothing else. -/
theorem may_send (h : Inv w g) {msg : Message} (he : enabled w (.send a msg)) :
    g.phase a = .active ∧ (w.net.sinproc a).sending = false ∧
      w.net.queued (a.other, .sent) = false := by
  obtain ⟨hstate, hout, -⟩ := he
  have hsending : (w.net.sinproc a).sending = false := by
    have := (h.pipe a).outstate
    rw [hout] at this
    by_contra hs
    simp [hs] at this
  have hbusy := (h.link a).of_busy_eq_false hsending
  exact ⟨Phase.eq_active_of_pipebase ((h.phase a).pipebase.symm.trans hstate), hsending,
    h.queued_eq_false (.inl rfl) (by simpa [Pair.link] using hbusy.1)⟩

theorem send (h : Inv w g) {msg : Message} (he : enabled w (.send a msg)) :
    ∃ w' g', exec w (.send a msg) = .ok w' ∧ Inv w' g' ∧ g'.phase = g.phase := by
  obtain ⟨ha, hsending, hq⟩ := h.may_send he
  obtain ⟨hstate, hout, hoq⟩ := he
  have hpipe := h.pipe a
  let net := (w.net.set a { w.net.sinproc a with
    msg := ⟨[], msg.sphdr ++ msg.body⟩
    sending := true
    pipebase := { (w.net.sinproc a).pipebase with outstate := .async } }).pushto a (flight a .sent)
  let w' : Pair := { w with
    net := net, sent := update w.sent a (w.sent a ++ [msg.sphdr ++ msg.body]) }
  let chan := update g.chan a (g.chan a ++ [.sent])
  have hla : w'.link { g with chan := chan, queue := g.queue } a =
      (w.link g a).send (msg.sphdr ++ msg.body) := by
    simp [Pair.link, Link.send, w', net, chan]
  have hlb : w'.link { g with chan := chan, queue := g.queue } a.other = w.link g a.other := by
    simp [Pair.link, w', net, chan]
  refine ⟨w', { g with chan := chan, queue := g.queue }, ?_, h.data a ?_ ?_ rfl rfl ?_ ?_ ?_ ?_ ?_
    ?_ ?_ (hla ▸ (h.link a).send hsending) (hlb ▸ h.link a.other) fun h₁ h₂ => ?_, rfl⟩
  · have hsend : w.net.pipeSend a msg = _ := Inproc.pipeSend_ok a.other hout
      ((h.phase a).state.trans (by rw [ha]; rfl)) hsending ((h.phase a).peer ha) (h.stops_other ha) hq
    simp only [exec, hsend, ok_bind, pure_eq_ok]
    rfl
  · simp only [net, w', Inproc.pushto_sinproc, Inproc.set_self]
    exact ⟨rfl, rfl, rfl, rfl⟩
  · simp only [net, w', Inproc.pushto_sinproc, Inproc.set_of_ne (Side.other_ne a)]
    exact ⟨rfl, rfl, rfl, rfl⟩
  · exact Flights.pushto (Flights.set h.flights (by rfl)) hq
  · simpa [chan] using (h.chan a).concat ha (.inl rfl)
  · simpa [chan] using h.chan' a
  · simpa [net, w'] using h.queue a
  · simpa [net, w'] using h.queue a.other
  · simp only [net, w', Inproc.pushto_sinproc, Inproc.set_self]
    exact ⟨rfl, hpipe.instate, fun ho => absurd ho (by simp [hoq]), hpipe.inQueued⟩
  · simpa [net, w'] using h.pipe a.other
  · exact ⟨hla ▸ (h.live a h₁ h₂).send, hlb ▸ h.live a.other h₂ (by simpa using h₁)⟩

/-! ### Receiving -/

section

variable {x : Message} {xs : List Message} {q : Msgqueue}

/-- The first message of the queue is handed out, and nothing else happens. -/
theorem recv_plain (h : Inv w g) (hx : g.queue a = x :: xs) (hq : q.Contains xs)
    (hin : (w.net.sinproc a).pipebase.inQueued = false)
    (hexec : w.net.pipeRecv a = .ok (w.net.set a { w.net.sinproc a with
      msgqueue := q
      pipebase := { (w.net.sinproc a).pipebase with
        instate := if q.empty then .async else .idle } }, x))
    (hlive : g.phase a = .active → (w.net.sinproc a).receiving = false ∨ xs ≠ []) :
    ∃ w' g', exec w (.recv a) = .ok w' ∧ Inv w' g' ∧ g'.phase = g.phase := by
  have hpipe := h.pipe a
  let net := w.net.set a { w.net.sinproc a with
    msgqueue := q
    pipebase := { (w.net.sinproc a).pipebase with instate := if q.empty then .async else .idle } }
  let w' : Pair := { w with
    net := net, received := update w.received a (w.received a ++ [x.body]) }
  let queue := update g.queue a xs
  have hla : w'.link { g with chan := g.chan, queue := queue } a = w.link g a := by
    simp [Pair.link, w', net, queue]
  have hlb : w'.link { g with chan := g.chan, queue := queue } a.other =
      (w.link g a.other).receive x.body (xs.map Message.body) := by
    simp [Pair.link, Link.receive, w', net, queue]
  have hlq : (w.link g a.other).queue = x.body :: xs.map Message.body := by
    simp [Pair.link, hx]
  refine ⟨w', { g with chan := g.chan, queue := queue }, ?_, h.data a ?_ ?_ rfl rfl
    (Flights.set h.flights (by rfl)) (h.chan a) (h.chan' a) ?_ ?_ ?_ ?_ (hla ▸ h.link a)
    (hlb ▸ (h.link a.other).receive hlq) fun h₁ h₂ => ?_, rfl⟩
  · simp only [exec, hexec, ok_bind, pure_eq_ok]
    rfl
  · simp only [net, w', Inproc.set_self]
    exact ⟨rfl, rfl, rfl, rfl⟩
  · simp only [net, w', Inproc.set_of_ne (Side.other_ne a)]
    exact ⟨rfl, rfl, rfl, rfl⟩
  · simpa [net, w', queue] using hq
  · simpa [net, w', queue] using h.queue a.other
  · simp only [net, w', queue, Inproc.set_self, update_self]
    refine ⟨hpipe.outstate, ?_, hpipe.outQueued, fun hi => absurd hi (by simp [hin])⟩
    rw [hq.empty_eq]
    cases xs <;> rfl
  · simpa [net, w', queue] using h.pipe a.other
  · refine ⟨hla ▸ h.live a h₁ h₂, hlb ▸ (h.live a.other h₂ (by simpa using h₁)).receive ?_⟩
    simpa [Pair.link] using hlive h₁

/-- The first message of the queue is handed out, and the one held back is taken over. -/
theorem recv_retry (h : Inv w g) (ha : g.phase a = .active) (hx : g.queue a = x :: xs)
    (hr : (w.net.sinproc a).receiving = true)
    (hq : q.Contains (xs ++ [(w.net.sinproc a.other).msg]))
    (hexec : w.net.pipeRecv a = .ok (((w.net.set a { w.net.sinproc a with
        msgqueue := q
        receiving := false
        pipebase := { (w.net.sinproc a).pipebase with instate := .idle } }).set a.other
          { w.net.sinproc a.other with msg := Message.empty }).pushto a (flight a .received), x)) :
    ∃ w' g', exec w (.recv a) = .ok w' ∧ Inv w' g' ∧ g'.phase = g.phase := by
  have hpipe := h.pipe a
  have hheld : (w.link g a.other).held = true := by simpa [Pair.link] using hr
  have hacked := (h.link a.other).held hheld
  have hqr := h.queued_eq_false (a := a) (.inr rfl) (by simpa [Pair.link] using hacked)
  let net := ((w.net.set a { w.net.sinproc a with
    msgqueue := q
    receiving := false
    pipebase := { (w.net.sinproc a).pipebase with instate := .idle } }).set a.other
      { w.net.sinproc a.other with msg := Message.empty }).pushto a (flight a .received)
  let w' : Pair := { w with
    net := net, received := update w.received a (w.received a ++ [x.body]) }
  let chan := update g.chan a (g.chan a ++ [.received])
  let queue := update g.queue a (xs ++ [(w.net.sinproc a.other).msg])
  have hla : w'.link { g with chan := chan, queue := queue } a = w.link g a := by
    simp [Pair.link, w', net, chan, queue]
  have hlb : w'.link { g with chan := chan, queue := queue } a.other =
      ((w.link g a.other).receive x.body (xs.map Message.body)).retry [] := by
    simp [Pair.link, Link.receive, Link.retry, w', net, chan, queue, Message.empty]
  have hlq : (w.link g a.other).queue = x.body :: xs.map Message.body := by
    simp [Pair.link, hx]
  refine ⟨w', { g with chan := chan, queue := queue }, ?_, h.data a ?_ ?_ rfl rfl ?_ ?_ ?_ ?_ ?_ ?_
    ?_ (hla ▸ h.link a) (hlb ▸ ((h.link a.other).receive hlq).retry hheld) fun h₁ h₂ => ?_, rfl⟩
  · simp only [exec, hexec, ok_bind, pure_eq_ok]
    rfl
  · simp only [net, w', Inproc.pushto_sinproc, Inproc.set_of_ne (Side.ne_other a), Inproc.set_self]
    exact ⟨rfl, rfl, rfl, rfl⟩
  · simp only [net, w', Inproc.pushto_sinproc, Inproc.set_self]
    exact ⟨rfl, rfl, rfl, rfl⟩
  · refine Flights.pushto (Flights.set (Flights.set h.flights (by rfl)) ?_) hqr
    rw [Inproc.set_of_ne (Side.other_ne a)]
  · simpa [chan] using (h.chan a).concat ha (.inr rfl)
  · simpa [chan] using h.chan' a
  · simpa [net, w', queue, Inproc.set_of_ne (Side.ne_other a)] using hq
  · simpa [net, w', queue] using h.queue a.other
  · simp only [net, w', queue, Inproc.pushto_sinproc, Inproc.set_of_ne (Side.ne_other a),
      Inproc.set_self, update_self]
    exact ⟨hpipe.outstate, by simp, hpipe.outQueued, by simp⟩
  · have hpipe' := h.pipe a.other
    simp only [net, w', queue, Inproc.pushto_sinproc, Inproc.set_self,
      update_of_ne (Side.other_ne a)]
    exact ⟨hpipe'.outstate, hpipe'.instate, hpipe'.outQueued, hpipe'.inQueued⟩
  · exact ⟨hla ▸ h.live a h₁ h₂, hlb ▸ Link.Live.retry⟩

end

theorem recv (h : Inv w g) (he : enabled w (.recv a)) :
    ∃ w' g', exec w (.recv a) = .ok w' ∧ Inv w' g' ∧ g'.phase = g.phase := by
  obtain ⟨hstate, hin, hiq⟩ := he
  have hst : (w.net.sinproc a).state = .active ∨ (w.net.sinproc a).state = .disconnected := by
    refine hstate.imp_left fun hs => (h.phase a).state.trans ?_
    rw [Phase.eq_active_of_pipebase ((h.phase a).pipebase.symm.trans hs)]
    rfl
  obtain ⟨x, xs, hx⟩ : ∃ x xs, g.queue a = x :: xs := by
    refine List.exists_cons_of_ne_nil fun hnil => ?_
    have := (h.pipe a).instate
    rw [hin, if_pos hnil] at this
    exact absurd this (by simp)
  obtain ⟨q, hrecv, hq⟩ := Msgqueue.recv_cons (hx ▸ h.queue a)
  -- Nothing is taken over: what is held back, if anything, stays where it is.
  have hplain : ∀ hlive : g.phase a = .active → (w.net.sinproc a).receiving = false ∨ xs ≠ [],
      (if (w.net.sinproc a).state ≠ .disconnected ∧ (w.net.sinproc a).receiving then
        (w.net.set a { w.net.sinproc a with
          msgqueue := q
          pipebase := { (w.net.sinproc a).pipebase with instate := .receiving } }).retry a =
            .ok (w.net.set a { w.net.sinproc a with
              msgqueue := q
              pipebase := { (w.net.sinproc a).pipebase with instate := .receiving } })
        else True) →
      ∃ w' g', exec w (.recv a) = .ok w' ∧ Inv w' g' ∧ g'.phase = g.phase := by
    intro hlive hretry
    have hexec := Inproc.pipeRecv_of (n := w.net.set a { w.net.sinproc a with
      msgqueue := q
      pipebase := { (w.net.sinproc a).pipebase with instate := .receiving } }) hin hst hrecv
      (by
        dsimp only
        split at hretry
        · rename_i hg
          rwa [if_pos hg]
        · rename_i hg
          rw [if_neg hg]) (by simp)
    simp only [Inproc.set_self, Inproc.set_set] at hexec
    exact h.recv_plain hx hq hiq hexec hlive
  by_cases hg : (w.net.sinproc a).state ≠ .disconnected ∧ (w.net.sinproc a).receiving = true
  · have ha : g.phase a = .active :=
      Phase.eq_active_of_pipebase ((h.phase a).pipebase.symm.trans (hstate.resolve_right hg.1))
    have hpeer := (h.phase a).peer ha
    by_cases hfull : xs = [] ∨ ¬ q.mem + (w.net.sinproc a.other).msg.size ≥ q.maxmem
    · obtain ⟨q', hsend, hq'⟩ := Msgqueue.send_ok hq hfull
      have hheld : (w.link g a.other).held = true := by simpa [Pair.link] using hg.2
      have hqr := h.queued_eq_false (a := a) (.inr rfl)
        (by simpa [Pair.link] using (h.link a.other).held hheld)
      have hempty : q'.empty = false := by simp [hq'.empty_eq]
      have hexec := Inproc.pipeRecv_of hin hst hrecv (by
        dsimp only
        rw [if_pos hg]
        exact Inproc.retry_ok a.other (q := q') (by simpa using hpeer) (Side.other_ne a)
          (by simpa using h.stops_other ha) (by simpa using hsend) (by simpa using hqr))
        (by simp)
      simp only [Inproc.set_self, Inproc.set_set, Inproc.pushto_sinproc, Inproc.pushto_set,
        Inproc.set_of_ne (Side.ne_other a), Inproc.set_of_ne (Side.other_ne a), hempty,
        Inproc.set_comm (Side.other_ne a), Bool.false_eq_true, if_false] at hexec
      exact h.recv_retry ha hx hg.2 hq' hexec
    · rw [not_or, not_not] at hfull
      refine hplain (fun _ => .inr hfull.1) ?_
      rw [if_pos hg]
      exact Inproc.retry_full a.other (by simpa using hpeer)
        (by simpa using h.stops_other ha) (by simpa using Msgqueue.send_full hq hfull.1 hfull.2)
  · refine hplain (fun ha => .inl ?_) (by rw [if_neg hg]; trivial)
    have hne : (w.net.sinproc a).state ≠ .disconnected := by
      rw [(h.phase a).state, ha]
      simp [Phase.state]
    simpa using fun hr => hg ⟨hne, hr⟩

/-! ### Delivering -/

section

variable {k : SinprocObject} {c : List SinprocObject}

/-- The event of the kind `k` has been taken out, and the other end is fed with it. -/
theorem deliver_eq (h : Inv w g) (hc : g.chan a = k :: c) :
    Pair.deliver w.net a = (w.net.popto a (flight a k)).feed a.other 0 srcPeer (typeOf k) (some a) := by
  have hst : w.net.stops a.other = 0 :=
    (h.stops _).trans (Phase.stops_of_consumed (hc ▸ h.chan a).consumed_eq_false)
  have hev := h.flights.eventsto a
  rw [hc, List.map_cons] at hev
  simp only [Pair.deliver, hev]
  exact if_neg (by simp [hst])

/-- The other end is active, or it is waiting for this one to disconnect. -/
theorem phase_other (h : Inv w g) (hc : g.chan a = k :: c) :
    g.phase a.other = .active ∨ g.phase a.other = .stoppingPeer := by
  have := (hc ▸ h.chan a).consumed_eq_false
  cases hp : g.phase a.other <;> simp_all [Phase.consumed]

/-- What the end feeds on after `popto` is what it was before. -/
theorem exec_deliver (h : Inv w g) (hc : g.chan a = k :: c) {net : Inproc Side Unit}
    (hf : (w.net.popto a (flight a k)).feed a.other 0 srcPeer (typeOf k) (some a) = .ok net) :
    exec w (.deliver a) = .ok { w with net := net } := by
  simp only [exec, h.deliver_eq hc, hf, ok_bind, pure_eq_ok]

/-- An end waiting for the other one to disconnect ignores the event. -/
theorem deliver_ignored (h : Inv w g) (hc : g.chan a = k :: c) (hk : k = .sent ∨ k = .received)
    (hp : g.phase a.other = .stoppingPeer) :
    ∃ w' g', exec w (.deliver a) = .ok w' ∧ Inv w' g' ∧ g'.phase = g.phase := by
  have hpo := h.phase a.other
  rw [hp] at hpo
  have hfeed : (w.net.popto a (flight a k)).feed a.other 0 srcPeer (typeOf k) (some a) = _ :=
    Inproc.feed_ignored (w := w.net.popto a (flight a k)) hpo.fsm hpo.state
      (by rcases hk with rfl | rfl <;> simp [typeOf])
  have hn := List.nodup_cons.1 (hc ▸ h.flights.nodup_chan a)
  let chan := update g.chan a c
  let w' : Pair := { w with net := w.net.popto a (flight a k) }
  have hlink : (w'.link { g with chan := chan, queue := g.queue } a).Ok ∧
      (w'.link { g with chan := chan, queue := g.queue } a.other).Ok := by
    rcases hk with rfl | rfl
    · have hla : w'.link { g with chan := chan, queue := g.queue } a =
          (w.link g a).loseAnnouncement := by
        simp [Pair.link, Link.loseAnnouncement, w', chan, hn.1]
      have hlb : w'.link { g with chan := chan, queue := g.queue } a.other = w.link g a.other := by
        simp [Pair.link, w', chan, hc]
      exact ⟨hla ▸ (h.link a).loseAnnouncement, hlb ▸ h.link a.other⟩
    · have hla : w'.link { g with chan := chan, queue := g.queue } a = w.link g a := by
        simp [Pair.link, w', chan, hc]
      have hlb : w'.link { g with chan := chan, queue := g.queue } a.other =
          (w.link g a.other).loseAck := by
        simp [Pair.link, Link.loseAck, w', chan, hn.1]
      exact ⟨hla ▸ h.link a, hlb ▸ (h.link a.other).loseAck⟩
  refine ⟨w', { g with chan := chan, queue := g.queue }, h.exec_deliver hc hfeed,
    h.data a ⟨rfl, rfl, rfl, rfl⟩ ⟨rfl, rfl, rfl, rfl⟩ rfl rfl (h.flights.popto hc) ?_ ?_ (h.queue a)
    (h.queue a.other) (h.pipe a) (h.pipe a.other) hlink.1 hlink.2
    fun _ h₂ => absurd (hp.symm.trans h₂) (by simp), rfl⟩
  · simpa [chan] using (hc ▸ h.chan a).tail (by rcases hk with rfl | rfl <;> simp)
  · simpa [chan] using h.chan' a

/-- An active end learns that its message has been taken over. -/
theorem deliver_received (h : Inv w g) (hc : g.chan a = .received :: c)
    (hp : g.phase a.other = .active) :
    ∃ w' g', exec w (.deliver a) = .ok w' ∧ Inv w' g' ∧ g'.phase = g.phase := by
  have hpo := h.phase a.other
  rw [hp] at hpo
  have hpipe := h.pipe a.other
  have hn := List.nodup_cons.1 (hc ▸ h.flights.nodup_chan a)
  have hacked : (w.link g a.other).acked = true := by simp [Pair.link, hc]
  have hbusy : (w.net.sinproc a.other).sending = true := (h.link a.other).busy (.inr (.inr hacked))
  have hout : (w.net.sinproc a.other).pipebase.outstate = .async := by
    rw [hpipe.outstate, if_pos hbusy]
  have hoq : (w.net.sinproc a.other).pipebase.outQueued = false := by
    by_contra hq
    exact absurd (hpipe.outQueued (by simpa using hq)) (by simp [hbusy])
  have hfeed : (w.net.popto a (flight a .received)).feed a.other 0 srcPeer typeReceived (some a) = _ :=
    Inproc.feed_received hpo.fsm hpo.state hbusy hout hoq
  let net := (w.net.popto a (flight a .received)).set a.other { w.net.sinproc a.other with
    sending := false
    pipebase := { (w.net.sinproc a.other).pipebase with outstate := .idle, outQueued := true } }
  let chan := update g.chan a c
  let w' : Pair := { w with net := net }
  have hla : w'.link { g with chan := chan, queue := g.queue } a = w.link g a := by
    simp [Pair.link, w', net, chan, hc]
  have hlb : w'.link { g with chan := chan, queue := g.queue } a.other =
      (w.link g a.other).acknowledge := by
    simp [Pair.link, Link.acknowledge, w', net, chan, hn.1]
  refine ⟨w', { g with chan := chan, queue := g.queue }, h.exec_deliver hc hfeed,
    h.data a ?_ ?_ rfl rfl (Flights.set (h.flights.popto hc) (by rfl)) ?_ ?_ ?_ ?_ ?_ ?_
    (hla ▸ h.link a) (hlb ▸ (h.link a.other).acknowledge hacked) fun h₁ h₂ => ?_, rfl⟩
  · simp only [net, w', Inproc.set_of_ne (Side.ne_other a)]
    exact ⟨rfl, rfl, rfl, rfl⟩
  · simp only [net, w', Inproc.set_self]
    exact ⟨rfl, rfl, rfl, rfl⟩
  · simpa [chan] using (hc ▸ h.chan a).tail (by simp)
  · simpa [chan] using h.chan' a
  · simpa [net, w'] using h.queue a
  · simpa [net, w'] using h.queue a.other
  · simpa [net, w'] using h.pipe a
  · simp only [net, w', Inproc.set_self]
    exact ⟨by simp, hpipe.instate, by simp, hpipe.inQueued⟩
  · exact ⟨hla ▸ h.live a h₁ h₂, hlb ▸ (h.live a.other h₂ (by simpa using h₁)).acknowledge⟩

/-- An active end holds back the message announced. -/
theorem deliver_sent_full (h : Inv w g) (hc : g.chan a = .sent :: c) (hq : g.queue a.other ≠ [])
    (hfeed : (w.net.popto a (flight a .sent)).feed a.other 0 srcPeer typeSent (some a) =
      .ok ((w.net.popto a (flight a .sent)).set a.other
        { w.net.sinproc a.other with receiving := true })) :
    ∃ w' g', exec w (.deliver a) = .ok w' ∧ Inv w' g' ∧ g'.phase = g.phase := by
  have hpipe := h.pipe a.other
  have hn := List.nodup_cons.1 (hc ▸ h.flights.nodup_chan a)
  have hann : (w.link g a).announced = true := by simp [Pair.link, hc]
  let net := (w.net.popto a (flight a .sent)).set a.other
    { w.net.sinproc a.other with receiving := true }
  let chan := update g.chan a c
  let w' : Pair := { w with net := net }
  have hla : w'.link { g with chan := chan, queue := g.queue } a = (w.link g a).hold := by
    simp [Pair.link, Link.hold, w', net, chan, hn.1]
  have hlb : w'.link { g with chan := chan, queue := g.queue } a.other = w.link g a.other := by
    simp [Pair.link, w', net, chan, hc]
  refine ⟨w', { g with chan := chan, queue := g.queue }, h.exec_deliver hc hfeed,
    h.data a ?_ ?_ rfl rfl (Flights.set (h.flights.popto hc) (by rfl)) ?_ ?_ ?_ ?_ ?_ ?_
    (hla ▸ (h.link a).hold hann) (hlb ▸ h.link a.other) fun h₁ h₂ => ?_, rfl⟩
  · simp only [net, w', Inproc.set_of_ne (Side.ne_other a)]
    exact ⟨rfl, rfl, rfl, rfl⟩
  · simp only [net, w', Inproc.set_self]
    exact ⟨rfl, rfl, rfl, rfl⟩
  · simpa [chan] using (hc ▸ h.chan a).tail (by simp)
  · simpa [chan] using h.chan' a
  · simpa [net, w'] using h.queue a
  · simpa [net, w'] using h.queue a.other
  · simpa [net, w'] using h.pipe a
  · simp only [net, w', Inproc.set_self]
    exact ⟨hpipe.outstate, hpipe.instate, hpipe.outQueued, hpipe.inQueued⟩
  · refine ⟨hla ▸ Link.Live.hold (by simpa [Pair.link] using hq),
      hlb ▸ h.live a.other h₂ (by simpa using h₁)⟩

/-- An active end takes over the message announced. -/
theorem deliver_sent_ok (h : Inv w g) (hc : g.chan a = .sent :: c)
    (hp : g.phase a.other = .active) {q : Msgqueue}
    (hq : q.Contains (g.queue a.other ++ [(w.net.sinproc a).msg])) {e : Sinproc Side Unit}
    (he : e = { w.net.sinproc a.other with
      msgqueue := q
      pipebase := if (w.net.sinproc a.other).msgqueue.empty = true then
        { (w.net.sinproc a.other).pipebase with instate := .idle, inQueued := true }
        else (w.net.sinproc a.other).pipebase })
    (hfeed : (w.net.popto a (flight a .sent)).feed a.other 0 srcPeer typeSent (some a) =
      .ok ((((w.net.popto a (flight a .sent)).set a.other e).set a
        { w.net.sinproc a with msg := Message.empty }).pushto a.other (flight a.other .received))) :
    ∃ w' g', exec w (.deliver a) = .ok w' ∧ Inv w' g' ∧ g'.phase = g.phase := by
  have hpipe := h.pipe a
  have hpipe' := h.pipe a.other
  have hn := List.nodup_cons.1 (hc ▸ h.flights.nodup_chan a)
  have hann : (w.link g a).announced = true := by simp [Pair.link, hc]
  have hacked := ((h.link a).announced hann).2
  have hempty := (h.queue a.other).empty_eq
  -- The end keeps its phase, and so does its pipebase.
  have hsame : SamePhase (w.net.sinproc a.other) e := by
    subst he
    refine ⟨rfl, rfl, ?_, rfl⟩
    dsimp only
    split <;> rfl
  have hsending : e.sending = (w.net.sinproc a.other).sending ∧
      e.receiving = (w.net.sinproc a.other).receiving ∧ e.msg = (w.net.sinproc a.other).msg ∧
      e.src = (w.net.sinproc a.other).src ∧ e.msgqueue = q := by
    subst he
    exact ⟨rfl, rfl, rfl, rfl, rfl⟩
  obtain ⟨hes, her, hem, hesrc, heq⟩ := hsending
  let net := (((w.net.popto a (flight a .sent)).set a.other e).set a
    { w.net.sinproc a with msg := Message.empty }).pushto a.other (flight a.other .received)
  let chan := update (update g.chan a c) a.other (g.chan a.other ++ [.received])
  let queue := update g.queue a.other (g.queue a.other ++ [(w.net.sinproc a).msg])
  let w' : Pair := { w with net := net }
  have hla : w'.link { g with chan := chan, queue := queue } a = (w.link g a).accept [] := by
    simp [Pair.link, Link.accept, w', net, chan, queue, hn.1, her, Message.empty]
  have hlb : w'.link { g with chan := chan, queue := queue } a.other = w.link g a.other := by
    simp [Pair.link, w', net, chan, queue, hc, hes, hem]
  refine ⟨w', { g with chan := chan, queue := queue }, h.exec_deliver hc hfeed,
    h.data a ?_ ?_ rfl rfl ?_ ?_ ?_ ?_ ?_ ?_ ?_ (hla ▸ (h.link a).accept hann)
    (hlb ▸ h.link a.other) fun h₁ h₂ => ?_, rfl⟩
  · simp only [net, w', Inproc.pushto_sinproc, Inproc.set_self]
    exact ⟨rfl, rfl, rfl, rfl⟩
  · simpa [net, w'] using hsame
  · have hf := (h.flights.popto hc).set (s := a.other) (e := e) hesrc
    have hf' := hf.set (s := a) (e := { w.net.sinproc a with msg := Message.empty })
      (by simp)
    have hq' : ((w.net.popto a (flight a .sent)).set a.other e).queued (a.other.other, .received) =
        false := by
      refine (hf.queued_eq_false _ _).2 ⟨?_, fun hm => ?_⟩
      · simpa [Pair.link] using hacked
      · rcases h.own _ _ hm with ⟨hk, -⟩ | ⟨hk, -⟩ <;> simp at hk
    have hpush := Flights.pushto hf' hq'
    rwa [update_of_ne (Side.other_ne a)] at hpush
  · simpa [chan] using (hc ▸ h.chan a).tail (by simp)
  · simpa [chan] using (h.chan' a).concat hp (.inr rfl)
  · simpa [net, w', queue] using h.queue a
  · simpa [net, w', queue, heq] using hq
  · simp only [net, w', queue, Inproc.pushto_sinproc, Inproc.set_self,
      update_of_ne (Side.ne_other a)]
    exact ⟨hpipe.outstate, hpipe.instate, hpipe.outQueued, hpipe.inQueued⟩
  · simp only [net, w', queue, Inproc.pushto_sinproc, Inproc.set_of_ne (Side.other_ne a),
      Inproc.set_self, update_self, he]
    by_cases hnil : g.queue a.other = []
    · rw [if_pos (by simp [hempty, hnil])]
      exact ⟨hpipe'.outstate, by simp, hpipe'.outQueued, by simp⟩
    · rw [if_neg (by simpa [hempty] using hnil)]
      refine ⟨hpipe'.outstate, ?_, hpipe'.outQueued, by simp⟩
      simp [hpipe'.instate, hnil]
  · exact ⟨hla ▸ Link.Live.accept (h.link a) hann, hlb ▸ h.live a.other h₂ (by simpa using h₁)⟩

theorem deliver_sent (h : Inv w g) (hc : g.chan a = .sent :: c) (hp : g.phase a.other = .active) :
    ∃ w' g', exec w (.deliver a) = .ok w' ∧ Inv w' g' ∧ g'.phase = g.phase := by
  have hpo := h.phase a.other
  have hpeer := hpo.peer hp
  rw [Side.other_other] at hpeer
  rw [hp] at hpo
  have hst : w.net.stops a = 0 := by simpa using h.stops_other hp
  have hempty := (h.queue a.other).empty_eq
  have hpipe := h.pipe a.other
  have hfeed : (w.net.popto a (flight a .sent)).feed a.other 0 srcPeer typeSent (some a) = _ :=
    Inproc.feed_sent hpo.fsm hpo.state
  have hann : (w.link g a).announced = true := by simp [Pair.link, hc]
  have hqr : (w.net.popto a (flight a .sent)).queued (a, .received) = false := by
    refine ((h.flights.popto hc).queued_eq_false _ _).2 ⟨?_, fun hm => ?_⟩
    · simpa [Pair.link] using ((h.link a).announced hann).2
    · rcases h.own _ _ hm with ⟨hk, -⟩ | ⟨hk, -⟩ <;> simp at hk
  by_cases hfull : g.queue a.other = [] ∨ ¬ (w.net.sinproc a.other).msgqueue.mem +
      (w.net.sinproc a).msg.size ≥ (w.net.sinproc a.other).msgqueue.maxmem
  · obtain ⟨q, hsend, hq⟩ := Msgqueue.send_ok (h.queue a.other) hfull
    refine h.deliver_sent_ok hc hp hq rfl (hfeed.trans ?_)
    rw [flight_other]
    refine Inproc.handleSent_ok (w := w.net.popto a (flight a .sent)) hpeer (Side.ne_other a) hst
      hsend hqr fun he => ?_
    have hnil : g.queue a.other = [] := by
      simpa [show (w.net.sinproc a.other).msgqueue.empty = true from he] using hempty
    refine ⟨?_, ?_⟩
    · exact hpipe.instate.trans (if_pos hnil)
    · by_contra hi
      exact hpipe.inQueued (by simpa using hi) hnil
  · rw [not_or, not_not] at hfull
    refine h.deliver_sent_full hc hfull.1 (hfeed.trans ?_)
    exact Inproc.handleSent_full (w := w.net.popto a (flight a .sent)) hpeer hst
      (Msgqueue.send_full (h.queue a.other) hfull.1 hfull.2)

end

/-! ### Events of the pipebase, and late sends -/

/-- Taking an event of a pipebase off its queue. -/
theorem of_pipebase (h : Inv w g) {p : Pipebase}
    (hs : p.state = (w.net.sinproc a).pipebase.state)
    (hi : p.instate = (w.net.sinproc a).pipebase.instate)
    (ho : p.outstate = (w.net.sinproc a).pipebase.outstate)
    (hiq : p.inQueued = true → (w.net.sinproc a).pipebase.inQueued = true)
    (hoq : p.outQueued = true → (w.net.sinproc a).pipebase.outQueued = true) :
    Inv { w with net := w.net.set a { w.net.sinproc a with pipebase := p } } g := by
  have hpipe := h.pipe a
  let net := w.net.set a { w.net.sinproc a with pipebase := p }
  let w' : Pair := { w with net := net }
  have hla : w'.link { g with chan := g.chan, queue := g.queue } a = w.link g a := by
    simp [Pair.link, w', net]
  have hlb : w'.link { g with chan := g.chan, queue := g.queue } a.other = w.link g a.other := by
    simp [Pair.link, w', net]
  show Inv w' g
  refine h.data a ?_ ?_ rfl rfl (Flights.set h.flights (by rfl)) (h.chan a) (h.chan' a)
    ?_ ?_ ?_ ?_ (hla ▸ h.link a) (hlb ▸ h.link a.other)
    fun h₁ h₂ => ⟨hla ▸ h.live a h₁ h₂, hlb ▸ h.live a.other h₂ (by simpa using h₁)⟩
  · simp only [net, w', Inproc.set_self]
    exact ⟨rfl, rfl, hs, rfl⟩
  · simp only [net, w', Inproc.set_of_ne (Side.other_ne a)]
    exact ⟨rfl, rfl, rfl, rfl⟩
  · simpa [net, w'] using h.queue a
  · simpa [net, w'] using h.queue a.other
  · simp only [net, w', Inproc.set_self]
    exact ⟨ho.trans hpipe.outstate, hi.trans hpipe.instate, fun hq => hpipe.outQueued (hoq hq),
      fun hq => hpipe.inQueued (hiq hq)⟩
  · simpa [net, w'] using h.pipe a.other

theorem pipeIn (h : Inv w g) :
    ∃ w' g', exec w (.pipeIn a) = .ok w' ∧ Inv w' g' ∧ g'.phase = g.phase :=
  ⟨_, g, rfl, h.of_pipebase rfl rfl rfl (fun hq => absurd hq (by simp)) id, rfl⟩

theorem pipeOut (h : Inv w g) :
    ∃ w' g', exec w (.pipeOut a) = .ok w' ∧ Inv w' g' ∧ g'.phase = g.phase :=
  ⟨_, g, rfl, h.of_pipebase rfl rfl rfl id fun hq => absurd hq (by simp), rfl⟩

/-- A disconnected end refuses to send. -/
theorem sendLate {msg : Message} (he : enabled w (.sendLate a msg)) :
    exec w (.sendLate a msg) = .ok w := by
  have he : (w.net.sinproc a).state = .disconnected := he
  simp [exec, Inproc.send, he]

end Inv

end Pair

end Nanomsg
