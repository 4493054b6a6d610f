import Nanomsg.Inproc.Completion

/-!
# Reporting a stop

An end that is stopped waits for the other one to disconnect and then raises
`STOPPED`, for which its owner waits in turn. A disconnected end need not wait
for that, but it does not say that it has stopped while its own `DISCONNECT` is still
queued for the owner: it would do so at the next event given to it, and
there is none. So a stop is reported if, and only if, the owner has taken that event
before (`reports_iff`); otherwise the end goes on stopping for ever.
-/

namespace Nanomsg

open Function Transition Handover Sinproc

/-! ## What changes at the other end -/

namespace Inproc

variable {ι ε : Type} [DecidableEq ι] {w n : Inproc ι ε} {self i : ι}

theorem shutdownEnd_other (hi : i ≠ self) (hx : w.shutdownEnd self = .ok n) :
    n.sinproc i = w.sinproc i := by
  unfold shutdownEnd at hx
  split at hx
  · exact Except.ok.inj hx ▸ rfl
  · split at hx
    · exact Except.ok.inj hx ▸ rfl
    · obtain ⟨-, -, hx⟩ := bind_eq_ok.1 hx
      obtain ⟨-, -, hx⟩ := bind_eq_ok.1 hx
      obtain ⟨w₁, h₁, hx⟩ := bind_eq_ok.1 hx
      obtain rfl := Except.ok.inj hx
      obtain ⟨-, rfl⟩ := raise_eq_ok.1 h₁
      exact set_of_ne hi

/-- Stopping an end changes no other one. -/
theorem stop_other (hi : i ≠ self) (hx : w.stop self = .ok n) : n.sinproc i = w.sinproc i := by
  by_cases hs : w.Alone self
  · rw [stop_alone hs] at hx
    exact (shutdownEnd_other hi hx).trans (set_of_ne hi)
  · obtain ⟨peer, -, -, -, rfl⟩ := (stop_tells_iff hs).1 hx
    exact set_of_ne hi

/-- Nor does its learning that the other one has disconnected. -/
theorem feed_disconnect_other {srcptr : Option ι} (hi : i ≠ self)
    (hs : (w.sinproc self).fsm = .active ∧ (w.sinproc self).state = .active ∨
      (w.sinproc self).fsm = .stopping ∧ (w.sinproc self).state = .stoppingPeer)
    (hx : w.feed self 0 srcPeer typeDisconnect srcptr = .ok n) : n.sinproc i = w.sinproc i := by
  rcases hs with ⟨hf, hs⟩ | ⟨hf, hs⟩
  · rw [feed_active_disconnect hf hs] at hx
    obtain ⟨w₁, h₁, hx⟩ := bind_eq_ok.1 hx
    obtain ⟨-, rfl⟩ := raise_eq_ok.1 hx
    rw [push_sinproc, modify_eq, set_of_ne hi, raiseDisconnect_sinproc h₁, pipebaseStop, modify_eq,
      set_of_ne hi]
  · rw [feed_stoppingPeer_disconnect hf hs] at hx
    exact (shutdownEnd_other hi hx).trans (set_of_ne hi)

end Inproc

namespace Pair

variable {v w w' : Pair} {g : Ghost} {s : Side}

namespace Phase

/-- A phase shows in the state of the end and in that of its machine. -/
theorem eq_of {p q : Phase} : p.state = q.state → p.fsm = q.fsm → p = q := by
  cases p <;> cases q <;> decide

end Phase

/-- An end that has not changed is in the same phase. -/
theorem InPhase.unique {e e' : Sinproc Side Unit} {peer : Side} {p p' : Phase} (h : InPhase e peer p)
    (h' : InPhase e' peer p') (he : e' = e) : p' = p := by
  subst he
  exact Phase.eq_of (h'.state.symm.trans h.state) (h'.fsm.symm.trans h.fsm)

/-- Only what is delivered to an end or its being stopped changes the phase of the end. -/
theorem Inv.phase_same (h : Inv w g) {a : PairAction} (he : enabled w a) (hx : exec w a = .ok w')
    (hd : a ≠ .deliver s.other) (hs : a ≠ .stop s) : ∃ g', Inv w' g' ∧ g'.phase s = g.phase s := by
  have hsame : ∀ {w'' : Pair} {g' : Ghost}, exec w a = .ok w'' → Inv w'' g' →
      g'.phase s = g.phase s → ∃ g', Inv w' g' ∧ g'.phase s = g.phase s := fun hx' h' hp =>
    ⟨_, Except.ok.inj (hx'.symm.trans hx) ▸ h', hp⟩
  cases a with
  | send i msg =>
    obtain ⟨w'', g', hx', h', hp⟩ := h.send he
    exact hsame hx' h' (by rw [hp])
  | sendLate i msg => exact hsame (Inv.sendLate he) h rfl
  | recv i =>
    obtain ⟨w'', g', hx', h', hp⟩ := h.recv he
    exact hsame hx' h' (by rw [hp])
  | deliverOwn i =>
    obtain ⟨w'', g', hx', h', hp⟩ := h.deliverOwn he
    exact hsame hx' h' (by rw [hp])
  | pipeIn i =>
    obtain ⟨w'', g', hx', h', hp⟩ := h.pipeIn
    exact hsame hx' h' (by rw [hp])
  | pipeOut i =>
    obtain ⟨w'', g', hx', h', hp⟩ := h.pipeOut
    exact hsame hx' h' (by rw [hp])
  | deliver i =>
    obtain rfl : i = s := by cases i <;> cases s <;> first | rfl | exact absurd rfl hd
    obtain ⟨k, c, hc⟩ := h.chan_cons he
    rcases (h.chan i).kinds k (by simp [hc]) with rfl | rfl | rfl
    · rcases h.phase_other hc with hp | hp
      · obtain ⟨w'', g', hx', h', hp⟩ := h.deliver_sent hc hp
        exact hsame hx' h' (by rw [hp])
      · obtain ⟨w'', g', hx', h', hp⟩ := h.deliver_ignored hc (.inl rfl) hp
        exact hsame hx' h' (by rw [hp])
    · rcases h.phase_other hc with hp | hp
      · obtain ⟨w'', g', hx', h', hp⟩ := h.deliver_received hc hp
        exact hsame hx' h' (by rw [hp])
      · obtain ⟨w'', g', hx', h', hp⟩ := h.deliver_ignored hc (.inr rfl) hp
        exact hsame hx' h' (by rw [hp])
    · obtain ⟨w'', g', hx', h', -⟩ := h.deliver he
      obtain rfl := Except.ok.inj (hx'.symm.trans hx)
      obtain ⟨net, hn, hx⟩ := bind_eq_ok.1 hx
      obtain rfl := Except.ok.inj hx
      rw [h.deliver_eq hc] at hn
      exact ⟨g', h', (h.phase i).unique (h'.phase i) (Inproc.feed_disconnect_other
        (w := w.net.popto i (flight i .disconnect)) (Side.ne_other i) (h.receptive hc) hn)⟩
  | stop i =>
    have hi : s ≠ i := fun hi => hs (hi ▸ rfl)
    obtain ⟨w'', g', hx', h'⟩ := h.stop he
    obtain rfl := Except.ok.inj (hx'.symm.trans hx)
    obtain ⟨net, hn, hx⟩ := bind_eq_ok.1 hx
    obtain rfl := Except.ok.inj hx
    exact ⟨g', h', (h.phase s).unique (h'.phase s) (Inproc.stop_other hi hn)⟩

/-- Nothing is in flight to an end that is stopping and knows that the other one has disconnected. -/
theorem Inv.chan_eq_nil (h : Inv w g) (hs : (g.phase s).consumed = true) : g.chan s.other = [] := by
  refine (h.chan' s).consumed (fun hp => ?_) hs
  exact Bool.false_ne_true (((h.chan' s).active hp).1.symm.trans hs)

/-- Such an end stays as it is. -/
theorem Inv.phase_consumed (h : Inv w g) (hs : (g.phase s).consumed = true)
    (ha : (g.phase s).stopAsked = true) {a : PairAction} (he : enabled w a) (hx : exec w a = .ok w') :
    ∃ g', Inv w' g' ∧ g'.phase s = g.phase s := by
  refine h.phase_same he hx (fun hd => ?_) fun hd => ?_
  · obtain ⟨k, c, hc⟩ := h.chan_cons (hd ▸ he)
    rw [h.chan_eq_nil hs] at hc
    cases hc
  · subst hd
    exact Bool.false_ne_true ((show w.stopAsked s = false from he).symm.trans ((h.stopAsked s).trans ha))

/-- An end without events queued, which waits for nothing else, has stopped: `net` is where it finds
    that out. -/
theorem gone_of_shutdownEnd {net net' : Inproc Side Unit} (h' : Inv w' g)
    (hw : w'.net = net') (hs : (net.sinproc s).state = .stopping) (hq : ∀ k, net.queued (s, k) = false)
    (hx : net.shutdownEnd s = .ok net') : g.phase s = .gone := by
  rw [Inproc.shutdownEnd_stopped hs hq] at hx
  have hpo := h'.phase s
  rw [hw, ← Except.ok.inj hx] at hpo
  refine Phase.eq_of (hpo.state.symm.trans ?_) (hpo.fsm.symm.trans ?_)
  · simpa [Inproc.countStop, Phase.state] using hs
  · simp [Inproc.countStop, Phase.fsm]

/-- An end that waits for the other one to disconnect goes on to say that it has stopped. -/
theorem Inv.phase_stoppingPeer (h : Inv w g) (hs : g.phase s = .stoppingPeer) {a : PairAction}
    (he : enabled w a) (hx : exec w a = .ok w') :
    ∃ g', Inv w' g' ∧ (g'.phase s = .stoppingPeer ∨ g'.phase s = .gone) := by
  obtain ⟨i, rfl⟩ : ∃ i, s = Side.other i := ⟨s.other, (Side.other_other s).symm⟩
  by_cases hd : a = .deliver i
  · subst hd
    obtain ⟨k, c, hc⟩ := h.chan_cons he
    by_cases hk : k = .disconnect
    · subst hk
      obtain ⟨-, rfl⟩ := (hc ▸ h.chan i).of_disconnect (hc ▸ h.flights.nodup_chan i)
      have hown := (h.own i.other).eq_nil (by rw [hs]; rfl)
      have hf := h.flights.popto hc
      have hpo := h.phase i.other
      rw [hs] at hpo
      obtain ⟨w'', g', hx', h', -⟩ := h.deliver he
      obtain rfl := Except.ok.inj (hx'.symm.trans hx)
      obtain ⟨net, hn, hx⟩ := bind_eq_ok.1 hx
      obtain rfl := Except.ok.inj hx
      rw [h.deliver_eq hc] at hn
      have hend := (Inproc.feed_stoppingPeer_disconnect (w := w.net.popto i (flight i .disconnect))
        hpo.fsm hpo.state).symm.trans hn
      refine ⟨g', h', .inr (gone_of_shutdownEnd h' rfl (by rw [Inproc.set_self]) (fun k => ?_) hend)⟩
      exact (hf.queued_eq_false _ _).2 ⟨by simp, by simp [hown]⟩
    · have hk : k = .sent ∨ k = .received := by
        rcases (h.chan i).kinds k (by simp [hc]) with rfl | rfl | rfl
        · exact .inl rfl
        · exact .inr rfl
        · exact absurd rfl hk
      obtain ⟨w'', g', hx', h', hp⟩ := h.deliver_ignored hc hk hs
      exact ⟨g', Except.ok.inj (hx'.symm.trans hx) ▸ h', .inl (hp ▸ hs)⟩
  · obtain ⟨g', h', hp⟩ := h.phase_same he hx (by rwa [Side.other_other]) fun ha => by
      subst ha
      have hasked := h.stopAsked i.other
      rw [hs, show w.stopAsked i.other = false from he] at hasked
      cases hasked
    exact ⟨g', h', .inl (hp.trans hs)⟩

/-! ## Reporting -/

/-- If the end is disconnected, its owner has been told so. -/
def Prompt (w : Pair) (s : Side) : Prop :=
  (w.net.sinproc s).state = .disconnected → w.net.queued (s, .disconnect) = false

/-- A stop has the end wait for the other one, or say at once that it has stopped, unless it still has
    an event queued. -/
theorem Inv.phase_stop (h : Inv w g) (he : enabled w (.stop s)) (hx : exec w (.stop s) = .ok w') :
    ∃ g', Inv w' g' ∧ (Prompt w s → g'.phase s = .stoppingPeer ∨ g'.phase s = .gone) ∧
      (¬ Prompt w s → g'.phase s = .stopping) := by
  obtain ⟨w'', g', hx', h'⟩ := h.stop he
  obtain rfl := Except.ok.inj (hx'.symm.trans hx)
  obtain ⟨net, hstop, hx⟩ := bind_eq_ok.1 hx
  obtain rfl := Except.ok.inj hx
  have ha : (g.phase s).stopAsked = false := (h.stopAsked s).symm.trans he
  have hpo := h.phase s
  have hpo' := h'.phase s
  cases hp : g.phase s with
  | active =>
    rw [hp] at hpo
    have hna : ¬ w.net.Alone s := by simp [Inproc.Alone, hpo.state, Phase.state]
    obtain ⟨peer, -, -, -, rfl⟩ := (Inproc.stop_tells_iff hna).1 hstop
    refine ⟨g', h', fun _ => .inl (Phase.eq_of (hpo'.state.symm.trans ?_) (hpo'.fsm.symm.trans ?_)),
      fun hlate => absurd (fun hd => ?_) hlate⟩
    · simp [Phase.state]
    · simp [Phase.fsm]
    · exact absurd (hpo.state.symm.trans hd) (by decide)
  | disconnected =>
    rw [hp] at hpo
    rw [Inproc.stop_alone (.inr hpo.state)] at hstop
    have hchan := h.chan_eq_nil (s := s) (by rw [hp]; rfl)
    refine ⟨g', h', fun hprompt => .inr ?_, fun hlate => ?_⟩
    · refine gone_of_shutdownEnd h' rfl (by rw [Inproc.set_self]) (fun k => ?_) hstop
      refine (h.flights.queued_eq_false s k).2 ⟨by simp [hchan], fun hk => ?_⟩
      rcases h.own s k hk with ⟨rfl, -⟩ | ⟨-, hg⟩
      · exact Bool.false_ne_true
          ((hprompt hpo.state).symm.trans ((h.flights.queued s .disconnect).2 (.inr hk)))
      · exact absurd (hp.symm.trans hg) (by decide)
    · have hq : w.net.queued (s, .disconnect) = true := by
        exact Bool.eq_true_of_not_eq_false fun hq => hlate fun _ => hq
      have hend : (w.net.set s
          { w.net.sinproc s with fsm := .stopping, state := .stopping }).shutdownEnd s = _ :=
        Inproc.shutdownEnd_queued (by rw [Inproc.set_self]) (.inr hq)
      obtain rfl := Except.ok.inj (hend.symm.trans hstop)
      refine Phase.eq_of (hpo'.state.symm.trans ?_) (hpo'.fsm.symm.trans ?_)
      · simp [Phase.state]
      · simp [Phase.fsm]
  | stoppingPeer | stopping | gone => simp [hp, Phase.stopAsked] at ha

/-- What every action keeps of the phase of an end is kept by a run. -/
theorem Inv.phase_run {Q : Phase → Prop} (hQ : ∀ {w w' : Pair} {g : Ghost} {a : PairAction}, Inv w g →
      Q (g.phase s) → enabled w a → exec w a = .ok w' → ∃ g', Inv w' g' ∧ Q (g'.phase s))
    {as : List PairAction} (hr : established.Run w as w') (h : Inv w g) (hg : Q (g.phase s)) :
    ∃ g', Inv w' g' ∧ Q (g'.phase s) := by
  induction hr generalizing g with
  | nil => exact ⟨g, h, hg⟩
  | cons he hx _ ih =>
    obtain ⟨g', h', hg'⟩ := hQ h hg he hx
    exact ih h' hg'

/-- Where nothing happens any more, no end waits for the other one. -/
theorem Quiet.not_stoppingPeer (hq : Quiet w) (h : Inv w g) : g.phase s ≠ .stoppingPeer := by
  intro hs
  have ho : g.phase s.other ≠ .active := fun ho => by
    obtain ⟨l, hl⟩ := (h.chan s).last (by rw [hs]; decide) (by rw [ho]; rfl)
    exact absurd ((hq.chan h s).symm.trans hl) (by simp)
  obtain ⟨l, hl⟩ := (h.chan' s).last ho (by rw [hs]; rfl)
  exact absurd ((hq.chan h s.other).symm.trans hl) (by simp)

/-- A stop of an end that has disconnected, of which its owner has not been told yet, is never
    reported. Any other one has been reported by the time nothing more happens. -/
theorem reports_iff (hv : established.Reachable v) {v' : Pair} (he : enabled v (.stop s))
    (hx : exec v (.stop s) = .ok v') {as : List PairAction} (hr : established.Run v' as w) :
    (¬ Prompt v s → w.net.stops s = 0) ∧ (Quiet w → (w.net.stops s = 1 ↔ Prompt v s)) := by
  obtain ⟨g, hg⟩ := keeps_inv.of_reach hv
  obtain ⟨g₁, h₁, hprompt, hlate⟩ := hg.phase_stop he hx
  have hnever : ¬ Prompt v s → w.net.stops s = 0 := by
    intro hp
    obtain ⟨g', h', hstop⟩ := h₁.phase_run (Q := (· = .stopping)) (fun h hs he hx => by
      obtain ⟨g', h', hp⟩ := h.phase_consumed (by rw [hs]; rfl) (by rw [hs]; rfl) he hx
      exact ⟨g', h', hp.trans hs⟩) hr (hlate hp)
    rw [h'.stops, hstop]
    rfl
  refine ⟨hnever, fun hq => ⟨fun hs => ?_, fun hp => ?_⟩⟩
  · by_contra hp
    exact absurd ((hnever hp).symm.trans hs) (by decide)
  · obtain ⟨g', h', hstop⟩ := h₁.phase_run (Q := fun p => p = .stoppingPeer ∨ p = .gone)
      (fun h hs he hx => hs.elim (fun hs => h.phase_stoppingPeer hs he hx) fun hs => by
        obtain ⟨g', h', hp⟩ := h.phase_consumed (by rw [hs]; rfl) (by rw [hs]; rfl) he hx
        exact ⟨g', h', .inr (hp.trans hs)⟩) hr (hprompt hp)
    rw [h'.stops, hstop.resolve_left (hq.not_stoppingPeer h')]
    rfl

/-- The right end is stopped right after it has learnt that the left one has been: it never says that
    it has stopped. -/
theorem reports_iff_late : ∃ v v', established.Run (justConnected 1) [.stop .left, .deliver .left] v ∧
    exec v (.stop .right) = .ok v' ∧
    ∀ as w, established.Run v' as w → w.net.stops .right = 0 := by
  obtain ⟨v, v', hr, he, hx, hp⟩ : ∃ v v',
      established.Run (justConnected 1) [.stop .left, .deliver .left] v ∧ enabled v (.stop .right) ∧
      exec v (.stop .right) = .ok v' ∧ ¬ Prompt v .right :=
    ⟨_, _, .cons rfl rfl (.cons (fun h => by cases h) rfl (.nil _)), rfl, rfl,
      fun h => Bool.true_eq_false.mp (h rfl)⟩
  exact ⟨v, v', hr, hx, fun as w hrun => (reports_iff
    (hr.reachable (.init (connected_justConnected 1).established)) he hx hrun).1 hp⟩

end Pair

end Nanomsg
