import Nanomsg.Inproc.Transfer

/-!
# Disconnecting

The other actions of a pair: an end learns that the other one has disconnected,
or is stopped, and goes on to another phase (`Inv.advance`); the transfers stay
as they are from then on. With those of `Transfer`, the invariant is kept by
every action (`Inv.step`), and nothing fails.

* `transfers_in_order`: as long as no end is stopped, what is received at one
  end is what was sent first at the other one, and nothing gets stuck;
* `stopped_once`: whatever is stopped, an end says at most once that it has
  stopped, and nothing refers to it from then on.
-/

namespace Nanomsg

open Function Transition Handover Sinproc

namespace Pair

variable {w : Pair} {g : Ghost} {a : Side}

namespace ChanOk

variable {p p' q : Phase} {c : List SinprocObject}

/-- What is in flight to an end depends on whether it has handled a `DISCONNECT`. -/
theorem congr_right (h : ChanOk p p' c) (hq : q.consumed = p'.consumed) : ChanOk p q c where
  kinds := h.kinds
  active hp := hq ▸ h.active hp
  consumed hp hc := h.consumed hp (hq ▸ hc)
  last hp hc := h.last hp (hq ▸ hc)

/-- What is in flight from an end depends on whether it is active. -/
theorem congr_left (h : ChanOk p p' c) (hp : p ≠ .active) (hq : q ≠ .active) : ChanOk q p' c where
  kinds := h.kinds
  active ha := absurd ha hq
  consumed _ := h.consumed hp
  last _ := h.last hp

/-- Nothing is in flight to an end that has handled a `DISCONNECT`. -/
theorem nil (hp : p ≠ .active) (hc : p'.consumed = true) : ChanOk p p' [] where
  kinds := by simp
  active ha := absurd ha hp
  consumed _ _ := rfl
  last _ hc' := absurd hc (by simp [hc'])

/-- An active end disconnects. -/
theorem disconnect (h : ChanOk .active p' c) (hp : p ≠ .active) : ChanOk p p' (c ++ [.disconnect]) where
  kinds k hk := by
    rcases List.mem_append.1 hk with hk | hk
    · exact h.kinds k hk
    · exact .inr (.inr (List.mem_singleton.1 hk))
  active ha := absurd ha hp
  consumed _ hc := absurd (h.active rfl).1 (by simp [hc])
  last _ _ := ⟨c, rfl⟩

end ChanOk

/-- An end that has not handled a `DISCONNECT` has told its owner nothing. -/
theorem OwnOk.eq_nil {p : Phase} {o : List SinprocObject} (h : OwnOk p o)
    (hp : p.consumed = false) : o = [] := by
  refine List.eq_nil_iff_forall_not_mem.2 fun k hk => ?_
  rcases h k hk with ⟨-, hc, -⟩ | ⟨-, rfl⟩
  · exact absurd hp (by simp [hc])
  · exact absurd hp (by simp [Phase.consumed])

/-- Counting that an end has stopped concerns no event. -/
theorem Flights.countStop {net : Inproc Side Unit} {chan own : Side → List SinprocObject}
    (h : Flights net chan own) (s : Side) : Flights (net.countStop s) chan own :=
  ⟨h.eventsto, h.events, h.queued, h.nodup_chan, h.nodup_own, h.disjoint⟩

/-- The end `e'` transfers as `e` does. -/
structure SameData (e e' : Sinproc Side Unit) : Prop where
  sending : e'.sending = e.sending
  receiving : e'.receiving = e.receiving
  msgqueue : e'.msgqueue = e.msgqueue
  msg : e'.msg = e.msg
  instate : e'.pipebase.instate = e.pipebase.instate
  outstate : e'.pipebase.outstate = e.pipebase.outstate
  inQueued : e'.pipebase.inQueued = e.pipebase.inQueued
  outQueued : e'.pipebase.outQueued = e.pipebase.outQueued

theorem PipeOk.congr {e e' : Sinproc Side Unit} {xs : List Message} (h : PipeOk e xs)
    (he : SameData e e') : PipeOk e' xs where
  outstate := by rw [he.outstate, he.sending, h.outstate]
  instate := he.instate.trans h.instate
  outQueued hq := he.sending.trans (h.outQueued (he.outQueued ▸ hq))
  inQueued hq := h.inQueued (he.inQueued ▸ hq)

namespace Inv

/-- The end `a` goes on to the phase `p`, in which it is not active. -/
theorem advance (h : Inv w g) (a : Side) {p : Phase} (hp : p ≠ .active) {net : Inproc Side Unit}
    {stopAsked : Side → Bool} {chan own : Side → List SinprocObject}
    (hphase : InPhase (net.sinproc a) a.other p)
    (same : SameData (w.net.sinproc a) (net.sinproc a))
    (rest : net.sinproc a.other = w.net.sinproc a.other)
    (stops : net.stops = update w.net.stops a p.stops)
    (asked : stopAsked = update w.stopAsked a p.stopAsked)
    (flights : Flights net chan own)
    (hchan : ChanOk p (g.phase a.other) (chan a))
    (hchan' : ChanOk (g.phase a.other) p (chan a.other))
    (hown : OwnOk p (own a)) (hown' : own a.other = g.own a.other)
    (keep : ∀ s k, k = .sent ∨ k = .received → (k ∈ chan s ↔ k ∈ g.chan s)) :
    Inv { w with net := net, stopAsked := stopAsked }
      { phase := update g.phase a p, chan := chan, own := own, queue := g.queue } := by
  have hsame : ∀ s, SameData (w.net.sinproc s) (net.sinproc s) :=
    (Side.forall_iff a).2 ⟨same, by rw [rest]; exact ⟨rfl, rfl, rfl, rfl, rfl, rfl, rfl, rfl⟩⟩
  have hlink : ∀ s, Pair.link { w with net := net, stopAsked := stopAsked }
      { phase := update g.phase a p, chan := chan, own := own, queue := g.queue } s = w.link g s := by
    intro s
    simp [Pair.link, (hsame s).sending, (hsame s).msg, (hsame s.other).receiving,
      keep s .sent (.inl rfl), keep s.other .received (.inr rfl)]
  refine ⟨flights, (Side.forall_iff a).2 ⟨by simpa using hphase, ?_⟩,
    (Side.forall_iff a).2 ⟨by simp [stops], by simp [stops, h.stops]⟩,
    (Side.forall_iff a).2 ⟨by simp [asked], by simp [asked, h.stopAsked]⟩,
    (Side.forall_iff a).2 ⟨by simpa using hchan, by simpa using hchan'⟩,
    (Side.forall_iff a).2 ⟨by simpa using hown, by simpa [hown'] using h.own a.other⟩,
    fun s => (hsame s).msgqueue ▸ h.queue s, fun s => (h.pipe s).congr (hsame s),
    fun s => hlink s ▸ h.link s, (Side.forall_iff a).2 ⟨fun h₁ => ?_, fun _ h₂ => ?_⟩⟩
  · simpa [rest] using h.phase a.other
  · exact absurd h₁ (by simpa using hp)
  · exact absurd h₂ (by simpa using hp)

/-! ### Events -/

/-- The owner takes an event. -/
theorem deliverOwn (h : Inv w g) (he : enabled w (.deliverOwn a)) :
    ∃ w' g', exec w (.deliverOwn a) = .ok w' ∧ Inv w' g' ∧ g'.phase = g.phase := by
  have hev := h.flights.events a
  obtain ⟨k, o, ho⟩ : ∃ k o, g.own a = k :: o := by
    refine List.exists_cons_of_ne_nil fun hnil => he ?_
    simpa [hnil] using hev
  rw [ho, List.map_cons] at hev
  have hexec : exec w (.deliverOwn a) =
      .ok { w with net := w.net.pop a (ownEvent (w.net.sinproc a).src a k) } := by
    simp only [exec, Pair.deliverOwn, hev]
  refine ⟨_, { g with own := update g.own a o }, hexec, ?_, rfl⟩
  refine ⟨h.flights.pop ho, h.phase, h.stops, h.stopAsked, h.chan, fun s => ?_, h.queue, h.pipe,
    h.link, h.live⟩
  by_cases hs : s = a
  · subst hs
    have := h.own s
    exact fun j hj => this j (by simpa [ho] using .inr (by simpa using hj))
  · simpa [update_of_ne hs] using h.own s

variable {c : List SinprocObject}

/-- An active end learns that the other one has disconnected. -/
theorem deliver_disconnect_active (h : Inv w g) (hc : g.chan a = .disconnect :: c)
    (hp : g.phase a.other = .active) : ∃ w' g', exec w (.deliver a) = .ok w' ∧ Inv w' g' := by
  have hpo := h.phase a.other
  have hpeer := hpo.peer hp
  rw [Side.other_other] at hpeer
  rw [hp] at hpo
  have hst : w.net.stops a = 0 := by simpa using h.stops_other hp
  have hcb := h.chan a.other
  rw [Side.other_other, hp] at hcb
  obtain ⟨hca, rfl⟩ := (hc ▸ h.chan a).of_disconnect (hc ▸ h.flights.nodup_chan a)
  have hown := (h.own a.other).eq_nil (by rw [hp]; rfl)
  have hown' := (h.own a).eq_nil (hcb.active rfl).1
  have hf := h.flights.popto hc
  have hq : (w.net.popto a (flight a .disconnect)).queued (a, .disconnect) = false :=
    (hf.queued_eq_false _ _).2 ⟨by simpa using (hcb.active rfl).2, by simp [hown']⟩
  have hq' : (w.net.popto a (flight a .disconnect)).queued (a.other, .disconnect) = false :=
    (hf.queued_eq_false _ _).2 ⟨by simp, by simp [hown]⟩
  have hfeed : (w.net.popto a (flight a .disconnect)).feed a.other 0 srcPeer typeDisconnect (some a) =
      _ := Inproc.feed_disconnect hpo.fsm hpo.state hpeer hst (Side.ne_other a) hq hq'
  let e : Sinproc Side Unit := { w.net.sinproc a.other with
    state := .disconnected, peer := none, pipebase := (w.net.sinproc a.other).pipebase.stop }
  have hf₁ := (hf.set (s := a.other) (e := e) (by rfl)).pushto (s := a.other) (k := .disconnect)
    (by simpa using hq)
  have hf₂ := hf₁.push (s := a.other) (k := .disconnect) (by
    refine (hf₁.queued_eq_false _ _).2 ⟨by simp, by simp [hown]⟩)
  have hnet : (((w.net.popto a (flight a .disconnect)).set a.other e).pushto a.other
      (flight a.other .disconnect)).sinproc a.other = e := by simp
  rw [hnet] at hf₂
  refine ⟨_, _, h.exec_deliver hc (hfeed.trans ?_), h.advance a.other (p := .disconnected)
    (by simp) ?_ ?_ ?_ ?_ ?_ hf₂ ?_ ?_ ?_ ?_ fun s k hk => ?_⟩
  · rw [flight_other]
    rfl
  · simp only [Inproc.push_sinproc, hnet]
    exact ⟨rfl, hpo.fsm, rfl, by simp⟩
  · simp only [Inproc.push_sinproc, hnet]
    exact ⟨rfl, rfl, rfl, rfl, rfl, rfl, rfl, rfl⟩
  · simp
  · simp [h.stops, hp, Phase.stops]
  · simp [h.stopAsked, hp, Phase.stopAsked]
  · simpa using hcb.disconnect (by simp)
  · simpa using ChanOk.nil hca rfl
  · simp [hown, OwnOk, Phase.consumed]
  · simp
  · rcases hk with rfl | rfl <;> by_cases hs : s = a <;> by_cases hs' : s = a.other <;>
      simp_all

/-- A stopping end that knows that the other one has disconnected, and has no
    event queued, has stopped: `net` is where it finds that out. -/
theorem shutdownEnd (h : Inv w g) (net : Inproc Side Unit) (stopAsked : Side → Bool)
    (chan : Side → List SinprocObject) (hown : g.own a = []) (hca : g.phase a.other ≠ .active)
    (hphase : g.phase a ≠ .active) (hgone : w.net.stops a = 0)
    (hstate : (net.sinproc a).state = .stopping) (hpipe : (net.sinproc a).pipebase.state = .idle)
    (same : SameData (w.net.sinproc a) (net.sinproc a))
    (rest : net.sinproc a.other = w.net.sinproc a.other) (stops : net.stops = w.net.stops)
    (asked : stopAsked = update w.stopAsked a true)
    (flights : Flights net chan g.own) (hchan : chan a = g.chan a) (hchan' : chan a.other = [])
    (keep : ∀ s k, k = .sent ∨ k = .received → (k ∈ chan s ↔ k ∈ g.chan s)) :
    ∃ net' g', net.shutdownEnd a = .ok net' ∧
      Inv { w with net := net', stopAsked := stopAsked } g' := by
  have hq : ∀ k, net.queued (a, k) = false := fun k =>
    (flights.queued_eq_false _ _).2 ⟨by simp [hchan'], by simp [hown]⟩
  have hf := (flights.set (s := a) (e := { net.sinproc a with fsm := .idle }) (by rfl)).push
    (s := a) (k := .stopped) (by simpa using hq .stopped)
  rw [Inproc.set_self] at hf
  refine ⟨_, _, Inproc.shutdownEnd_stopped hstate hq, h.advance a (p := .gone) (by simp) ?_ ?_ ?_
    ?_ asked (hf.countStop a) ?_ ?_ ?_ ?_ keep⟩
  · simp only [Inproc.countStop, Inproc.push_sinproc, Inproc.set_self]
    exact ⟨hstate, rfl, hpipe, by simp⟩
  · simp only [Inproc.countStop, Inproc.push_sinproc, Inproc.set_self]
    exact ⟨same.sending, same.receiving, same.msgqueue, same.msg, same.instate, same.outstate,
      same.inQueued, same.outQueued⟩
  · simp [Inproc.countStop, rest]
  · simp [Inproc.countStop, stops, hgone, Phase.stops]
  · simpa [hchan] using (h.chan a).congr_left hphase (by simp)
  · simpa [hchan'] using ChanOk.nil hca rfl
  · simp [hown, OwnOk]
  · simp

/-- An end that is stopped learns that the other one has disconnected. -/
theorem deliver_disconnect_stoppingPeer (h : Inv w g) (hc : g.chan a = .disconnect :: c)
    (hp : g.phase a.other = .stoppingPeer) : ∃ w' g', exec w (.deliver a) = .ok w' ∧ Inv w' g' := by
  have hpo := h.phase a.other
  rw [hp] at hpo
  obtain ⟨hca, rfl⟩ := (hc ▸ h.chan a).of_disconnect (hc ▸ h.flights.nodup_chan a)
  have hown := (h.own a.other).eq_nil (by rw [hp]; rfl)
  let e : Sinproc Side Unit := { w.net.sinproc a.other with state := .stopping }
  have hf := (h.flights.popto hc).set (s := a.other) (e := e) (by rfl)
  obtain ⟨net', g', hend, hinv⟩ := h.shutdownEnd (a := a.other)
    ((w.net.popto a (flight a .disconnect)).set a.other e) w.stopAsked (update g.chan a [])
    hown (by simpa using hca) (by simp [hp]) (by simp [h.stops, hp, Phase.stops])
    (by simp [e]) (by rw [Inproc.set_self]; exact hpo.pipebase)
    (by rw [Inproc.set_self]; exact ⟨rfl, rfl, rfl, rfl, rfl, rfl, rfl, rfl⟩) (by simp) rfl
    (by simp [h.stopAsked, hp, Phase.stopAsked]) hf (by simp) (by simp)
    (fun s k hk => by
      by_cases hs : s = a
      · subst hs
        rcases hk with rfl | rfl <;> simp [hc]
      · simp [hs])
  refine ⟨_, g', h.exec_deliver hc ?_, hinv⟩
  exact (Inproc.feed_stoppingPeer_disconnect (w := w.net.popto a (flight a .disconnect)) hpo.fsm
    hpo.state).trans hend

/-- Delivering an event. -/
theorem deliver (h : Inv w g) (he : enabled w (.deliver a)) :
    ∃ w' g', exec w (.deliver a) = .ok w' ∧ Inv w' g' ∧
      (g.phase a = .active → g'.phase = g.phase) := by
  have hev := h.flights.eventsto a
  obtain ⟨k, c, hc⟩ : ∃ k c, g.chan a = k :: c := by
    refine List.exists_cons_of_ne_nil fun hnil => he ?_
    simpa [hnil] using hev
  have hk := (h.chan a).kinds k (by simp [hc])
  rcases hk with rfl | rfl | rfl <;> rcases h.phase_other hc with hp | hp
  · obtain ⟨w', g', hx, hinv, hph⟩ := h.deliver_sent hc hp
    exact ⟨w', g', hx, hinv, fun _ => hph⟩
  · obtain ⟨w', g', hx, hinv, hph⟩ := h.deliver_ignored hc (.inl rfl) hp
    exact ⟨w', g', hx, hinv, fun _ => hph⟩
  · obtain ⟨w', g', hx, hinv, hph⟩ := h.deliver_received hc hp
    exact ⟨w', g', hx, hinv, fun _ => hph⟩
  · obtain ⟨w', g', hx, hinv, hph⟩ := h.deliver_ignored hc (.inr rfl) hp
    exact ⟨w', g', hx, hinv, fun _ => hph⟩
  · obtain ⟨w', g', hx, hinv⟩ := h.deliver_disconnect_active hc hp
    exact ⟨w', g', hx, hinv, fun ha => absurd ((h.chan a).active ha).2 (by simp [hc])⟩
  · obtain ⟨w', g', hx, hinv⟩ := h.deliver_disconnect_stoppingPeer hc hp
    exact ⟨w', g', hx, hinv, fun ha => absurd ((h.chan a).active ha).2 (by simp [hc])⟩

/-! ### Stopping -/

/-- An active end is stopped. -/
theorem stop_active (h : Inv w g) (ha : g.phase a = .active) :
    ∃ w' g', exec w (.stop a) = .ok w' ∧ Inv w' g' := by
  have hpa := h.phase a
  have hca := h.chan a
  rw [ha] at hpa hca
  have hown := (h.own a.other).eq_nil (hca.active rfl).1
  have hq : w.net.queued (a.other, .disconnect) = false :=
    (h.flights.queued_eq_false _ _).2 ⟨by simpa using (hca.active rfl).2, by simp [hown]⟩
  have hstop := Inproc.stop_tells (by simp [Inproc.Alone, hpa.state, Phase.state]) (hpa.peer rfl)
    (h.stops_other ha) hq
  let e : Sinproc Side Unit := { w.net.sinproc a with
    fsm := .stopping, state := .stoppingPeer, pipebase := (w.net.sinproc a).pipebase.stop }
  have hf := (h.flights.set (s := a) (e := e) (by rfl)).pushto (s := a) (k := .disconnect)
    (by simpa using hq)
  have hnet : ((w.net.set a e).pushto a (flight a .disconnect)).sinproc a = e := by simp
  have hexec : exec w (.stop a) = .ok { w with
      net := (w.net.set a e).pushto a (flight a .disconnect)
      stopAsked := update w.stopAsked a true } := by
    simp only [exec, hstop, ok_bind, pure_eq_ok]
    rfl
  refine ⟨_, _, hexec, h.advance a (p := .stoppingPeer) (by simp) ?_ ?_ ?_ ?_ rfl hf ?_ ?_ ?_ ?_
    fun s k hk => ?_⟩
  · rw [hnet]
    exact ⟨rfl, rfl, rfl, by simp⟩
  · rw [hnet]
    exact ⟨rfl, rfl, rfl, rfl, rfl, rfl, rfl, rfl⟩
  · simp
  · simp [h.stops, ha, Phase.stops]
  · simpa using hca.disconnect (by simp)
  · simpa using (h.chan' a).congr_right (by rw [ha]; rfl)
  · exact (h.own a).eq_nil (by rw [ha]; rfl) ▸ by simp [OwnOk]
  · rfl
  · by_cases hs : s = a
    · subst hs
      rcases hk with rfl | rfl <;> simp
    · simp [hs]

/-- A disconnected end is stopped. -/
theorem stop_disconnected (h : Inv w g) (ha : g.phase a = .disconnected) :
    ∃ w' g', exec w (.stop a) = .ok w' ∧ Inv w' g' := by
  have hpa := h.phase a
  rw [ha] at hpa
  have hca : g.phase a.other ≠ .active := fun hp => by
    have := ((h.chan' a).active hp).1
    simp [ha, Phase.consumed] at this
  have hchan : g.chan a.other = [] := (h.chan' a).consumed hca (by rw [ha]; rfl)
  have hstop := Inproc.stop_alone (.inr hpa.state)
  let e : Sinproc Side Unit := { w.net.sinproc a with fsm := .stopping, state := .stopping }
  have hf := h.flights.set (s := a) (e := e) (by rfl)
  by_cases hown : g.own a = []
  · obtain ⟨net', g', hend, hinv⟩ := h.shutdownEnd (a := a) (w.net.set a e)
      (update w.stopAsked a true) g.chan hown hca (by simp [ha])
      (by simp [h.stops, ha, Phase.stops]) (by simp [e])
      (by rw [Inproc.set_self]; exact hpa.pipebase)
      (by rw [Inproc.set_self]; exact ⟨rfl, rfl, rfl, rfl, rfl, rfl, rfl, rfl⟩) (by simp) rfl rfl hf
      rfl hchan (fun _ _ _ => Iff.rfl)
    exact ⟨_, g', by simp only [exec, hstop.trans hend, ok_bind, pure_eq_ok], hinv⟩
  · obtain ⟨k, o, ho⟩ := List.exists_cons_of_ne_nil hown
    obtain rfl : k = .disconnect := by
      rcases h.own a k (by simp [ho]) with ⟨hk, -⟩ | ⟨-, hp⟩
      · exact hk
      · simp [ha] at hp
    have hq : (w.net.set a e).queued (a, .disconnect) = true := by simp [h.flights.queued, ho]
    have hend : (w.net.set a e).shutdownEnd a = _ :=
      Inproc.shutdownEnd_queued (by simp [e]) (.inr hq)
    refine ⟨_, _, by simp only [exec, hstop.trans hend, ok_bind, pure_eq_ok]; rfl,
      h.advance a (p := .stopping) (by simp) ?_ ?_ ?_ ?_ rfl hf ?_ ?_ ?_ rfl fun _ _ _ => Iff.rfl⟩
    · rw [Inproc.set_self]
      exact ⟨rfl, rfl, hpa.pipebase, by simp⟩
    · rw [Inproc.set_self]
      exact ⟨rfl, rfl, rfl, rfl, rfl, rfl, rfl, rfl⟩
    · simp
    · simp [h.stops, ha, Phase.stops]
    · exact (h.chan a).congr_left (by simp [ha]) (by simp)
    · exact (h.chan' a).congr_right (by rw [ha]; rfl)
    · intro k hk
      have := h.own a k hk
      simpa [ha, Phase.consumed] using this

theorem stop (h : Inv w g) (he : enabled w (.stop a)) :
    ∃ w' g', exec w (.stop a) = .ok w' ∧ Inv w' g' := by
  have ha : (g.phase a).stopAsked = false := (h.stopAsked a).symm.trans he
  cases hp : g.phase a with
  | active => exact h.stop_active hp
  | disconnected => exact h.stop_disconnected hp
  | stoppingPeer | stopping | gone => simp [hp, Phase.stopAsked] at ha

/-! ## Every action -/

/-- An action does not fail and keeps the invariant; between active ends, none
    but a stop changes a phase. -/
theorem step (h : Inv w g) {action : PairAction} (he : enabled w action) :
    ∃ w' g', exec w action = .ok w' ∧ Inv w' g' ∧
      (action.Transfers → (∀ s, g.phase s = .active) → g'.phase = g.phase) := by
  cases action with
  | send a msg =>
    obtain ⟨w', g', hx, hinv, hp⟩ := h.send he
    exact ⟨w', g', hx, hinv, fun _ _ => hp⟩
  | sendLate a msg => exact ⟨w, g, sendLate he, h, fun _ _ => rfl⟩
  | recv a =>
    obtain ⟨w', g', hx, hinv, hp⟩ := h.recv he
    exact ⟨w', g', hx, hinv, fun _ _ => hp⟩
  | deliver a =>
    obtain ⟨w', g', hx, hinv, hp⟩ := h.deliver he
    exact ⟨w', g', hx, hinv, fun _ ha => hp (ha a)⟩
  | deliverOwn a =>
    obtain ⟨w', g', hx, hinv, hp⟩ := h.deliverOwn he
    exact ⟨w', g', hx, hinv, fun _ _ => hp⟩
  | pipeIn a =>
    obtain ⟨w', g', hx, hinv, hp⟩ := h.pipeIn
    exact ⟨w', g', hx, hinv, fun _ _ => hp⟩
  | pipeOut a =>
    obtain ⟨w', g', hx, hinv, hp⟩ := h.pipeOut
    exact ⟨w', g', hx, hinv, fun _ _ => hp⟩
  | stop a =>
    obtain ⟨w', g', hx, hinv⟩ := h.stop he
    exact ⟨w', g', hx, hinv, fun ht => ht.elim⟩

end Inv

/-- Two active ends, each the other's peer, whatever is under way between them. -/
def Established (w : Pair) : Prop := ∃ g, Inv w g ∧ ∀ s, g.phase s = .active

/-- Two ends just connected have nothing under way. -/
theorem Connected.established (h : Connected w) : Established w := by
  have hlink : ∀ s, w.link ⟨fun _ => .active, fun _ => [], fun _ => [], fun _ => []⟩ s =
      ⟨false, false, false, false, (w.net.sinproc s).msg.body, [], [], []⟩ := by
    intro s
    simp [Pair.link, (h.fresh s).sending, (h.fresh s.other).receiving, h.sent, h.received]
  refine ⟨⟨fun _ => .active, fun _ => [], fun _ => [], fun _ => []⟩, ?_, fun _ => rfl⟩
  exact {
    flights := ⟨h.eventsto, h.events, by simp [h.queued], by simp, by simp, by simp⟩
    phase := fun s => ⟨(h.fresh s).state, (h.fresh s).fsm, (h.fresh s).pipebase,
      fun _ => (h.fresh s).peer⟩
    stops := h.stops
    stopAsked := h.stopAsked
    chan := fun s => ⟨by simp, fun _ => ⟨rfl, by simp⟩, fun hp => absurd rfl hp,
      fun hp => absurd rfl hp⟩
    own := fun s => by simp [OwnOk]
    queue := fun s => (h.fresh s).msgqueue
    pipe := fun s => ⟨by simp [(h.fresh s).outstate, (h.fresh s).sending],
      by simp [(h.fresh s).instate], fun _ => (h.fresh s).sending,
      fun hq => absurd hq (by simp [(h.fresh s).inQueued])⟩
    link := fun s => hlink s ▸ Link.ok_new _
    live := fun s _ _ => hlink s ▸ Link.live_new _ }

/-- The runs of a pair from any states in which both ends are active. -/
def established : System Pair PairAction (Abort (Inproc Side Unit)) where
  init := Established
  enabled := enabled
  exec := exec

/-- Both ends stay active as long as none is stopped. -/
theorem keeps_active : system.Keeps (fun _ a => a.Transfers) Established where
  init _ h := h.established
  step := by
    rintro w a ⟨g, h, hp⟩ he ht
    obtain ⟨w', g', hx, hinv, hph⟩ := h.step he
    exact ⟨w', hx, g', hinv, hph ht hp ▸ hp⟩

/-- Whatever happens, the ends are in some phases. -/
theorem keeps_inv : established.Keeps (fun _ _ => True) fun w => ∃ g, Inv w g where
  init := fun _ ⟨g, h, _⟩ => ⟨g, h⟩
  step := by
    rintro w a ⟨g, h⟩ he -
    obtain ⟨w', g', hx, hinv, -⟩ := h.step he
    exact ⟨w', hx, g', hinv⟩

/-! ## What holds of every run -/

/-- An event of the type `type` is in flight from `s`. -/
def InFlight (w : Pair) (s : Side) (type : ℤ) : Prop := ∃ e ∈ w.net.eventsto s, e.type = type

/-- The messages are transferred in order, and a sender waits for a reason. -/
structure InOrder (w : Pair) : Prop where
  received : ∀ s, w.received s.other <+: w.sent s
  sending : ∀ s, (w.net.sinproc s).sending = true ↔ w.InFlight s typeSent ∨
    (w.net.sinproc s.other).receiving = true ∨ w.InFlight s.other typeReceived
  receiving : ∀ s, (w.net.sinproc s).receiving = true → (w.net.sinproc s).msgqueue.empty = false

theorem typeOf_injective : Injective typeOf := by
  intro j k h
  cases j <;> cases k <;> first | rfl | exact absurd h (by decide)

theorem Flights.inFlight_iff {chan own : Side → List SinprocObject} (h : Flights w.net chan own)
    (s : Side) (k : SinprocObject) : w.InFlight s (typeOf k) ↔ k ∈ chan s := by
  simp only [InFlight, h.eventsto, List.mem_map, exists_exists_and_eq_and, flight]
  refine ⟨?_, fun hk => ⟨k, hk, rfl⟩⟩
  rintro ⟨j, hj, hjk⟩
  exact typeOf_injective hjk ▸ hj

theorem Established.inOrder (h : Established w) : InOrder w := by
  obtain ⟨g, h, hp⟩ := h
  refine ⟨fun s => (h.link s).isPrefix, fun s => ?_, fun s hr => ?_⟩
  · have hok := h.link s
    have hlive := h.live s (hp s) (hp s.other)
    have hsent := h.flights.inFlight_iff s .sent
    have hreceived := h.flights.inFlight_iff s.other .received
    simp only [typeOf] at hsent hreceived
    rw [hsent, hreceived]
    refine ⟨fun hs => ?_, fun hs => hok.busy ?_⟩
    · simpa [Pair.link] using hlive.busy hs
    · simpa [Pair.link] using hs
  · have hlive := h.live s.other (hp s.other) (hp s.other.other)
    have hne : g.queue s ≠ [] := by simpa [Pair.link] using hlive.held (by simpa [Pair.link] using hr)
    simp [(h.queue s).empty_eq, hne]

/-- As long as no end is stopped, messages are transferred in order and nothing
    fails. -/
theorem transfers_in_order (h : system.Reach (fun _ a => a.Transfers) w) :
    InOrder w ∧ ∀ a, a.Transfers → enabled w a → ∃ w', exec w a = .ok w' :=
  ⟨(keeps_active.of_reach h).inOrder, fun _ ht he => keeps_active.exec_ok h he ht⟩

/-- Two messages go from the left to the right, where the second one waits until the first has been
    received. -/
def twoMessages : List PairAction := [.pipeOut .left, .send .left ⟨[1], [2]⟩, .deliver .left,
  .deliver .right, .pipeOut .left, .send .left ⟨[3], [4]⟩, .deliver .left, .pipeIn .right,
  .recv .right, .deliver .right, .recv .right]

theorem transfers_in_order_sent : ∃ w, system.Run (justConnected 1) twoMessages w ∧
    w.sent .left = [[1, 2], [3, 4]] ∧ w.received .right = [[1, 2], [3, 4]] ∧ InOrder w := by
  obtain ⟨w, hr, hs, hv⟩ : ∃ w, system.Run (justConnected 1) twoMessages w ∧
      w.sent .left = [[1, 2], [3, 4]] ∧ w.received .right = [[1, 2], [3, 4]] := by
    refine ⟨_, .cons rfl rfl (.cons ⟨rfl, rfl, rfl⟩ rfl (.cons (fun h => by cases h) rfl
      (.cons (fun h => by cases h) rfl (.cons rfl rfl (.cons ⟨rfl, rfl, rfl⟩ rfl
        (.cons (fun h => by cases h) rfl (.cons rfl rfl (.cons ⟨.inl rfl, rfl, rfl⟩ rfl
          (.cons (fun h => by cases h) rfl
            (.cons ⟨.inl rfl, rfl, rfl⟩ rfl (.nil _))))))))))), rfl, rfl⟩
  have hc : ∀ a ∈ twoMessages, Pair → a.Transfers := by
    simp [twoMessages, PairAction.Transfers]
  exact ⟨w, hr, hs, hv,
    (transfers_in_order (hr.reach hc (.init (connected_justConnected 1)))).1⟩

/-- An end that has stopped has done so once, and nothing refers to it. -/
structure StoppedOnce (w : Pair) : Prop where
  once : ∀ s, w.net.stops s ≤ 1
  queued : ∀ s, 0 < w.net.stops s → ∀ k, k ≠ .stopped → w.net.queued (s, k) = false
  addressed : ∀ s, 0 < w.net.stops s → ∀ i, ∀ e ∈ w.net.eventsto i ++ w.net.events i,
    e.fsm ≠ .sinproc s

theorem Inv.stoppedOnce (h : Inv w g) : StoppedOnce w := by
  have hgone : ∀ s, 0 < w.net.stops s → g.phase s = .gone ∧ g.chan s.other = [] := by
    intro s hs
    rw [h.stops] at hs
    have hg : g.phase s = .gone := by
      cases hp : g.phase s <;> simp_all [Phase.stops]
    have hc := hg ▸ h.chan' s
    refine ⟨hg, hc.consumed (fun hp => ?_) rfl⟩
    exact absurd (hc.active hp).1 (by simp [Phase.consumed])
  refine ⟨fun s => ?_, fun s hs k hk => ?_, fun s hs i e he => ?_⟩
  · rw [h.stops]
    cases g.phase s <;> simp [Phase.stops]
  · obtain ⟨hg, hc⟩ := hgone s hs
    refine (h.flights.queued_eq_false _ _).2 ⟨by simp [hc], fun hm => ?_⟩
    rcases h.own s k hm with ⟨-, -, hp⟩ | ⟨hk', -⟩
    · exact hp hg
    · exact hk hk'
  · rw [List.mem_append, h.flights.eventsto, h.flights.events, List.mem_map, List.mem_map] at he
    rcases he with ⟨k, hk, rfl⟩ | ⟨k, -, rfl⟩
    · have hi : i.other ≠ s := by
        rintro rfl
        have hc := (hgone _ hs).2
        rw [Side.other_other] at hc
        simp [hc] at hk
      simpa [flight] using hi
    · simp [ownEvent]

/-- Whatever is stopped, nothing fails, and an end says at most once that it has
    stopped and is not referred to from then on. -/
theorem stopped_once (h : established.Reachable w) :
    StoppedOnce w ∧ ∀ a, enabled w a → ∃ w', exec w a = .ok w' := by
  obtain ⟨g, hg⟩ := keeps_inv.of_reach h
  exact ⟨hg.stoppedOnce, fun a he => keeps_inv.exec_ok h he trivial⟩

/-- Both ends are stopped at the same time, and are told that the other one disconnects. -/
theorem stopped_once_both : ∃ w, established.Run (justConnected 1)
    [.stop .left, .stop .right, .deliver .left, .deliver .right] w ∧
      (∀ s, w.net.stops s = 1) ∧ StoppedOnce w := by
  obtain ⟨w, hr, hs⟩ : ∃ w, established.Run (justConnected 1)
      [.stop .left, .stop .right, .deliver .left, .deliver .right] w ∧ ∀ s, w.net.stops s = 1 := by
    refine ⟨_, .cons rfl rfl (.cons rfl rfl (.cons (fun h => by cases h) rfl
      (.cons (fun h => by cases h) rfl (.nil _)))), fun s => ?_⟩
    cases s <;> rfl
  exact ⟨w, hr, hs,
    (stopped_once (hr.reachable (.init (connected_justConnected 1).established))).1⟩

end Pair

end Nanomsg
