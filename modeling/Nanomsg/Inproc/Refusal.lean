import Nanomsg.Inproc.Disconnect

/-!
# Refused pipes

The second half of a handshake: an end has accepted the connection of another
one, and both still have to start their pipebases, which their sockets may
refuse. The first end is the left one.

`correct_iff`: everything is right exactly as long as no pipe is refused. Two of
the three places that start a pipebase assert that it is not; the third one
tells the owner, but not the other end, which stays active.
-/

namespace Nanomsg

open Function Transition Sinproc

/-- Two ends in a handshake, and those whose pipes have been refused. -/
structure Refusal where
  pair : Pair
  refused : Side → Bool

/-- What may happen in a handshake. -/
inductive RefusalAction
  /-- The first event raised by `s` to the other context is delivered. If that starts
      a pipebase, `nn_sock_add` returns `add`. -/
  | deliver (s : Side) (add : ℤ)
  /-- A socket uses a pipe, or an owner takes an event. -/
  | use (action : PairAction)

namespace Refusal

/-- No end is stopped, and none sends that has no peer. -/
def Uses (net : Inproc Side Unit) : PairAction → Prop
  | .send s _ => (net.sinproc s).peer ≠ none
  | .deliver _ | .stop _ => False
  | _ => True

def enabled (w : Refusal) : RefusalAction → Prop
  | .deliver s _ => w.pair.net.eventsto s ≠ []
  | .use action => Uses w.pair.net action ∧ Pair.enabled w.pair action

/-- Delivering the first event raised by `s` to the other context. -/
def deliver (add : ℤ) (net : Inproc Side Unit) (s : Side) :
    Except (Abort (Inproc Side Unit)) (Inproc Side Unit) :=
  match net.eventsto s with
  | [] => .ok net
  | event :: _ =>
    match event.fsm with
    | .sinproc i => (net.popto s event).process i add event
    | .ep _ => .ok (net.popto s event)

/-- Whether that calls `nn_pipebase_start` for `i`. -/
def starts (net : Inproc Side Unit) (s i : Side) : Bool :=
  match net.eventsto s with
  | [] => false
  | event :: _ => event.fsm = .sinproc i &&
    match (net.sinproc i).state with
    | .connecting => event.type = typeReady
    | .ready => event.type = typeReady || event.type = typeAccepted
    | _ => false

/-- Taking an action. -/
def exec (w : Refusal) : RefusalAction → Except (Abort (Inproc Side Unit)) Refusal
  | .deliver s add => do
    let net ← deliver add w.pair.net s
    pure { pair := { w.pair with net := net }
           refused := fun i => w.refused i || (starts w.pair.net s i && add < 0) }
  | .use action => do
    let pair ← Pair.exec w.pair action
    pure { w with pair := pair }

/-- The left end is connecting or ready, and the right one has just been made. -/
structure Offer (net : Inproc Side Unit) : Prop where
  left : ∃ src rcvbuf msgs state, (state = .connecting ∨ state = .ready) ∧
    net.sinproc .left = { (Sinproc.init src () rcvbuf msgs : Sinproc Side Unit) with
      fsm := .active, state := state }
  right : ∃ src rcvbuf msgs, net.sinproc .right = Sinproc.init src () rcvbuf msgs
  eventsto : ∀ s, net.eventsto s = []
  events : ∀ s, net.events s = []
  queued : ∀ o, net.queued o = false
  stops : ∀ s, net.stops s = 0

/-- The right end has accepted the connection of the left one, and that is all. -/
structure Begun (w : Refusal) : Prop where
  accept : ∃ net, Offer net ∧ net.accept .right 0 .left = .ok w.pair.net
  sent : ∀ s, w.pair.sent s = []
  received : ∀ s, w.pair.received s = []
  stopAsked : ∀ s, w.pair.stopAsked s = false
  refused : ∀ s, w.refused s = false

/-- The runs of a handshake. -/
def system : System Refusal RefusalAction (Abort (Inproc Side Unit)) where
  init := Begun
  enabled := enabled
  exec := exec

/-- `s` has raised `DISCONNECT` to the other end. -/
def Told (net : Inproc Side Unit) (s : Side) : Prop :=
  ∃ event ∈ net.raised, event.fsm = .sinproc s.other ∧ event.type = typeDisconnect ∧ event.srcptr = s

/-- A refused end that has cleared its peer pointer has told the other one, and no
    active end has a peer that has cleared its own. -/
structure Right (w : Refusal) : Prop where
  told : ∀ s, w.refused s = true → (w.pair.net.sinproc s).peer = none → Told w.pair.net s
  peer : ∀ s p, (w.pair.net.sinproc s).state = .active → (w.pair.net.sinproc s).peer = some p →
    (w.pair.net.sinproc p).peer ≠ none

/-- The run of `as` from `w` goes well. -/
def Correct (w : Refusal) (as : List RefusalAction) : Prop :=
  system.Correct Right (fun _ _ _ => True) w as

/-- The pipebase that the action starts, if any, is started successfully. -/
def Accepts (w : Refusal) : RefusalAction → Prop
  | .deliver s add => ∀ i, starts w.pair.net s i = true → 0 ≤ add
  | .use _ => True

variable {w : Refusal} {u v : Pair} {add : ℤ}

/-! ### Deliveries -/

theorem deliver_of {net : Inproc Side Unit} {s i : Side} {event : SinprocEvent Side Unit}
    {l : List (SinprocEvent Side Unit)} (he : net.eventsto s = event :: l)
    (hf : event.fsm = .sinproc i) (hst : net.stops i = 0) :
    deliver add net s = (net.popto s event).feed i add event.src event.type (some event.srcptr) := by
  simp only [deliver, he, hf]
  exact if_neg (by simp [hst])

/-- Between active ends `nn_sock_add` is not called. -/
theorem deliver_eq {net : Inproc Side Unit} (h : ∀ i, (net.sinproc i).state = .active) (s : Side) :
    deliver add net s = Pair.deliver net s := by
  cases he : net.eventsto s with
  | nil => simp [deliver, Pair.deliver, he]
  | cons event l =>
    cases hf : event.fsm with
    | ep e => simp only [deliver, Pair.deliver, he, hf]
    | sinproc i =>
      -- An active end takes no notice of `add`.
      have hi : ((net.popto s event).sinproc i).state = .active := h i
      simp only [deliver, Pair.deliver, he, hf, Inproc.process]
      rw [Inproc.feed_add (by rw [hi]; simp) (by rw [hi]; simp)]

theorem starts_eq_false {net : Inproc Side Unit} (h : ∀ i, (net.sinproc i).state = .active)
    (s i : Side) : starts net s i = false := by
  cases he : net.eventsto s <;> simp [starts, he, h i]

theorem exec_deliver {s : Side} {net : Inproc Side Unit} (h : deliver add w.pair.net s = .ok net) :
    exec w (.deliver s add) = .ok { pair := { w.pair with net := net }
                                    refused := fun i => w.refused i ||
                                      (starts w.pair.net s i && add < 0) } := by
  simp [exec, h]

/-- No end is refused where the one that starts is accepted. -/
theorem Accepts.refused {s : Side} (ha : Accepts w (.deliver s add)) (i : Side) :
    (starts w.pair.net s i && decide (add < 0)) = false := by
  cases hs : starts w.pair.net s i with
  | false => rfl
  | true => simpa using ha i hs

/-! ### `READY` is in flight -/

/-- An end whose pipebase is not started. -/
structure Unstarted (e : Sinproc Side Unit) (state : SinprocState) (peer : Option Side) : Prop where
  fsm : e.fsm = .active
  state : e.state = state
  sending : e.sending = false
  receiving : e.receiving = false
  peer : e.peer = peer
  pipebase : e.pipebase = Pipebase.init
  msgqueue : e.msgqueue.Contains []

theorem unstarted_init (src : ℤ) (rcvbuf : UInt64) (msgs : ℕ → Message) (state : SinprocState)
    (peer : Option Side) :
    Unstarted { (Sinproc.init src () rcvbuf msgs : Sinproc Side Unit) with
      fsm := .active, state := state, peer := peer } state peer :=
  ⟨rfl, rfl, rfl, rfl, rfl, rfl, Msgqueue.contains_init _ _⟩

/-- A pipebase just started. -/
abbrev started : Pipebase := ⟨.active, .async, .idle, false, true⟩

namespace Unstarted

variable {e : Sinproc Side Unit} {state : SinprocState} {peer : Option Side}

theorem start (h : Unstarted e state peer) (ha : 0 ≤ add) :
    e.pipebase.start add = .ok (started, 0) := by
  rw [h.pipebase]
  exact Pipebase.start_ok rfl rfl ha

theorem start_refused (h : Unstarted e state peer) (ha : add < 0) :
    ∃ p, e.pipebase.start add = .ok (p, add) := by
  rw [h.pipebase]
  exact ⟨_, Pipebase.start_refused rfl ha⟩

/-- An end that starts its pipebase is connected. -/
theorem fresh (h : Unstarted e state peer) (p : Side) :
    Pair.Fresh { e with state := .active, peer := some p, pipebase := started } p :=
  ⟨h.fsm, rfl, h.sending, h.receiving, rfl, rfl, rfl, rfl, rfl, h.msgqueue⟩

end Unstarted

theorem Uses.transfers {net : Inproc Side Unit} {action : PairAction} (h : Uses net action) :
    action.Transfers := by
  cases action <;> simp_all [Uses, PairAction.Transfers]

/-- The end an action is about. -/
def side : PairAction → Side
  | .send s _ | .sendLate s _ | .recv s | .deliver s | .deliverOwn s | .pipeIn s | .pipeOut s
  | .stop s => s

/-- Nothing happens at an end whose pipebase is not started. -/
theorem Unstarted.not_enabled {action : PairAction} {state : SinprocState} {peer : Option Side}
    (h : Unstarted (v.net.sinproc (side action)) state peer) (hs : state ≠ .disconnected)
    (he : v.net.events (side action) = []) (hu : Uses v.net action) : ¬ Pair.enabled v action := by
  cases action with
  | deliver s | stop s => exact hu.elim
  | send s msg | sendLate s msg | recv s | deliverOwn s | pipeIn s | pipeOut s =>
    simp only [side] at h he
    simp [Pair.enabled, h.pipebase, h.state, hs, he, Pipebase.init]

/-- `READY` of the right end, and `ACCEPTED` of the left one. -/
abbrev ready : SinprocEvent Side Unit :=
  ⟨(.right, .connect), .sinproc .left, srcPeer, typeReady, .right⟩
abbrev accepted : SinprocEvent Side Unit :=
  ⟨(.left, .connect), .sinproc .right, srcPeer, typeAccepted, .left⟩

/-- `READY` is in flight. -/
structure Offered (v : Pair) : Prop where
  left : ∃ state, (state = .connecting ∨ state = .ready) ∧
    Unstarted (v.net.sinproc .left) state none
  right : Unstarted (v.net.sinproc .right) .ready (some .left)
  eventsto : v.net.eventsto = update (fun _ => []) .right [ready]
  events : ∀ s, v.net.events s = []
  queued : v.net.queued = update (fun _ => false) (.right, .connect) true
  stops : ∀ s, v.net.stops s = 0
  sent : ∀ s, v.sent s = []
  received : ∀ s, v.received s = []
  stopAsked : ∀ s, v.stopAsked s = false

theorem Begun.offered (h : Begun w) : Offered w.pair := by
  obtain ⟨net, ho, ha⟩ := h.accept
  obtain ⟨src, rcvbuf, msgs, state, hstate, hl⟩ := ho.left
  obtain ⟨src', rcvbuf', msgs', hr⟩ := ho.right
  have hok : net.accept .right 0 .left = _ :=
    Inproc.accept_ok .left (by rw [hr]; rfl) (by rw [hr]; rfl) (ho.queued _)
  have hnet := Except.ok.inj (hok.symm.trans ha)
  have hq : net.queued = fun _ => false := funext ho.queued
  have he : net.eventsto = fun _ => [] := funext ho.eventsto
  refine ⟨⟨state, hstate, ?_⟩, ?_, ?_, ?_, ?_, ?_, h.sent, h.received, h.stopAsked⟩
  · rw [← hnet, Inproc.pushto_sinproc, Inproc.set_of_ne (by decide), hl]
    exact unstarted_init src rcvbuf msgs state none
  · rw [← hnet, Inproc.pushto_sinproc, Inproc.set_self, hr]
    exact unstarted_init src' rcvbuf' msgs' .ready (some .left)
  · rw [← hnet, Inproc.pushto, Inproc.set_eventsto, he]
    rfl
  · simpa [← hnet] using ho.events
  · rw [← hnet, Inproc.pushto, Inproc.set_queued, hq]
  · simpa [← hnet] using ho.stops

namespace Offered

variable (h : Offered v)

include h

theorem deliver_eq :
    deliver add v.net .right =
      (v.net.popto .right ready).feed .left add srcPeer typeReady (some .right) :=
  deliver_of (by rw [h.eventsto]; rfl) rfl (h.stops _)

theorem starts : starts v.net .right .left = true := by
  obtain ⟨state, rfl | rfl, hl⟩ := h.left <;> simp [Refusal.starts, h.eventsto, hl.state]

/-- If the left end is refused, the process aborts. -/
theorem refused (ha : add < 0) : ∃ a, deliver add v.net .right = .error a := by
  rw [h.deliver_eq]
  obtain ⟨state, hs, hl⟩ := h.left
  obtain ⟨p, hp⟩ := hl.start_refused ha
  rcases hs with rfl | rfl
  · exact Inproc.feed_connecting_refused hl.fsm hl.state hp (Int.ne_of_lt ha)
  · exact Inproc.feed_ready_refused hl.fsm hl.state hp (Int.ne_of_lt ha)

/-- Only `READY` can be delivered. -/
theorem eq_deliver {a : RefusalAction} {refused : Side → Bool} (he : enabled ⟨v, refused⟩ a) :
    ∃ add, a = .deliver .right add := by
  cases a with
  | deliver s add =>
    cases s with
    | left => exact absurd (by rw [h.eventsto]; rfl) he
    | right => exact ⟨add, rfl⟩
  | use action =>
    obtain ⟨hu, he⟩ := he
    cases hs : side action with
    | left =>
      obtain ⟨state, hstate, hl⟩ := h.left
      refine absurd he (Unstarted.not_enabled (hs ▸ hl) ?_ (h.events _) hu)
      rcases hstate with rfl | rfl <;> simp
    | right => exact absurd he (Unstarted.not_enabled (hs ▸ h.right) (by simp) (h.events _) hu)

end Offered

/-! ### `READY` has been taken by an end that was ready -/

/-- The left end is active, but does not know the right one. -/
structure Unpaired (v : Pair) : Prop where
  state : (v.net.sinproc .left).state = .active
  peer : (v.net.sinproc .left).peer = none
  instate : (v.net.sinproc .left).pipebase.instate = .async
  inQueued : (v.net.sinproc .left).pipebase.inQueued = false
  right : Unstarted (v.net.sinproc .right) .ready (some .left)
  eventsto : ∀ s, v.net.eventsto s = []
  events : ∀ s, v.net.events s = []

theorem Offered.unpaired (h : Offered v) (hs : (v.net.sinproc .left).state = .ready)
    (ha : 0 ≤ add) : ∃ net, deliver add v.net .right = .ok net ∧ Unpaired { v with net := net } := by
  obtain ⟨state, -, hl⟩ := h.left
  have hfeed : (v.net.popto .right ready).feed .left add srcPeer typeReady (some .right) = _ :=
    Inproc.feed_ready_ready hl.fsm hs (hl.start ha)
  -- A ready end that takes `READY` keeps the peer it has, which is none.
  refine ⟨_, h.deliver_eq.trans hfeed, by simp, by simpa using hl.peer, by simp, by simp, ?_,
    fun s => ?_, h.events⟩
  · simpa using h.right
  · cases s <;> simp [Inproc.popto, h.eventsto]

/-- All that can happen is that the socket takes `NN_PIPE_OUT`. -/
theorem Unpaired.step {a : RefusalAction} {refused : Side → Bool} (h : Unpaired v)
    (he : enabled ⟨v, refused⟩ a) : ∃ action v', a = .use action ∧ Pair.exec v action = .ok v' ∧
      Unpaired v' := by
  cases a with
  | deliver s add => exact absurd (h.eventsto s) he
  | use action =>
    obtain ⟨hu, he⟩ := he
    cases hs : side action with
    | right => exact absurd he (Unstarted.not_enabled (hs ▸ h.right) (by simp) (h.events _) hu)
    | left =>
      cases action with
      | deliver s | stop s => exact hu.elim
      | deliverOwn s => exact absurd (h.events s) he
      | pipeOut s =>
        obtain rfl : s = .left := hs
        refine ⟨_, _, rfl, rfl, ?_, ?_, ?_, ?_, ?_, h.eventsto, h.events⟩
        · simpa [Inproc.modify_eq] using h.state
        · simpa [Inproc.modify_eq] using h.peer
        · simpa [Inproc.modify_eq] using h.instate
        · simpa [Inproc.modify_eq] using h.inQueued
        · simpa [Inproc.modify_eq] using h.right
      | send s msg =>
        obtain rfl : s = .left := hs
        exact absurd h.peer hu
      | sendLate s msg | recv s | pipeIn s =>
        obtain rfl : s = .left := hs
        simp [Pair.enabled, h.state, h.instate, h.inQueued] at he

/-! ### `ACCEPTED` is in flight -/

/-- `v` is `u` but that the right end has not taken `ACCEPTED` yet. -/
structure Before (v u : Pair) : Prop where
  left : v.net.sinproc .left = u.net.sinproc .left
  right : v.net.sinproc .right =
    { u.net.sinproc .right with state := .ready, pipebase := Pipebase.init }
  pipebase : (u.net.sinproc .right).pipebase = started
  instate : (u.net.sinproc .left).pipebase.instate = .async
  eventsto : v.net.eventsto = update u.net.eventsto .left (accepted :: u.net.eventsto .left)
  silent : u.net.eventsto .right = []
  events : v.net.events = u.net.events
  queued : v.net.queued = update u.net.queued (.left, .connect) true
  stops : v.net.stops = u.net.stops
  raised : v.net.raised = u.net.raised
  sent : v.sent = u.sent
  received : v.received = u.received
  stopAsked : v.stopAsked = u.stopAsked

/-- Once the right end takes `ACCEPTED`, both ends are active. -/
def Accepted (v : Pair) : Prop := ∃ u, Pair.Established u ∧ Before v u

theorem Offered.accepted (h : Offered v) (hs : (v.net.sinproc .left).state = .connecting)
    (ha : 0 ≤ add) : ∃ net, deliver add v.net .right = .ok net ∧ Accepted { v with net := net } := by
  obtain ⟨state, -, hl⟩ := h.left
  have hq : (v.net.popto .right ready).queued = fun _ => false := by
    simp [Inproc.popto, h.queued]
  have he : (v.net.popto .right ready).eventsto = fun _ => [] := by
    simp [Inproc.popto, h.eventsto]
  have hfeed : (v.net.popto .right ready).feed .left add srcPeer typeReady (some .right) = _ :=
    Inproc.feed_connecting_ready hl.fsm hs (hl.start ha) (h.stops _) (by rw [hq])
  -- The state the pair will be in when `ACCEPTED` has been taken.
  let e : Side → Sinproc Side Unit := fun s => { v.net.sinproc s with
    state := .active, peer := some s.other, pipebase := started }
  let u : Pair := { v with net := { v.net with
    sinproc := e, eventsto := fun _ => [], queued := fun _ => false
    raised := v.net.raised ++ [Refusal.accepted] } }
  have hu : Pair.Connected u := by
    refine ⟨fun s => ?_, fun _ => rfl, h.events, fun _ => rfl, h.stops, h.sent, h.received,
      h.stopAsked⟩
    cases s with
    | left => exact hl.fresh .right
    | right => exact h.right.fresh .left
  refine ⟨_, h.deliver_eq.trans hfeed, u, hu.established, ?_, ?_, rfl, rfl, ?_, rfl, rfl, ?_, rfl,
    rfl, rfl, rfl, rfl⟩
  · simp [u, e, Side.other]
  · have hr := h.right
    simp [u, e, Side.other, ← hr.state, ← hr.peer, ← hr.pipebase]
  · simp [Inproc.pushto, he, u]
  · simp [Inproc.pushto, hq, u]

namespace Before

variable {g : Pair.Ghost}

/-- The right end is ready. -/
theorem unstarted (h : Before v u) (hg : Pair.Inv u g) (hp : ∀ s, g.phase s = .active) :
    Unstarted (v.net.sinproc .right) .ready (some .left) := by
  have hphase := hp .right ▸ hg.phase .right
  have hout := (hg.pipe .right).outstate
  have hin := (hg.pipe .right).instate
  have hheld := hg.live .left (hp .left) (hp .right)
  rw [h.pipebase] at hout hin
  -- Its pipebase has just been started: nothing is queued, and it is not sending.
  have hqueue : g.queue .right = [] := by
    by_contra hne
    simp [hne] at hin
  rw [h.right]
  refine ⟨hphase.fsm, rfl, ?_, ?_, hphase.peer rfl, rfl, hqueue ▸ hg.queue .right⟩
  · show (u.net.sinproc .right).sending = false
    by_contra hs
    simp [hs] at hout
  · show (u.net.sinproc .right).receiving = false
    by_contra hr
    exact hheld.held (by simpa [Pair.link, Side.other] using hr) (by simp [Pair.link, Side.other, hqueue])

theorem deliver_eq (h : Before v u) (hst : v.net.stops .right = 0) :
    deliver add v.net .left =
      (v.net.popto .left accepted).feed .right add srcPeer typeAccepted (some .left) :=
  deliver_of (by rw [h.eventsto, update_self]) rfl hst

theorem starts (h : Before v u) : starts v.net .left .right = true := by
  simp [Refusal.starts, h.eventsto, h.right]

/-- Without `ACCEPTED`, what is queued is what is queued in `u`. -/
theorem queued_popto (h : Before v u) (hg : Pair.Inv u g) :
    (v.net.popto .left accepted).queued = u.net.queued := by
  have hq : u.net.queued (.left, .connect) = false := by
    refine (hg.flights.queued_eq_false _ _).2 ⟨fun hm => ?_, fun hm => ?_⟩
    · simpa using (hg.chan Side.left.other).kinds _ hm
    · simpa using hg.own .left _ hm
  simp [Inproc.popto, h.queued, ← hq]

/-- The right end takes `ACCEPTED`, and its pipe is accepted. -/
theorem deliver_ok (h : Before v u) (hg : Pair.Inv u g) (hp : ∀ s, g.phase s = .active)
    (ha : 0 ≤ add) : deliver add v.net .left = .ok u.net := by
  have hr := h.unstarted hg hp
  have hst : v.net.stops .right = 0 := by rw [h.stops, hg.stops, hp]; rfl
  have hfeed : (v.net.popto .left accepted).feed .right add srcPeer typeAccepted (some .left) = _ :=
    Inproc.feed_accepted hr.fsm hr.state (hr.start ha)
  have hstate : (u.net.sinproc .right).state = .active := (hg.phase .right).state.trans (by rw [hp]; rfl)
  rw [h.deliver_eq hst, hfeed]
  refine congrArg _ (Inproc.ext (funext fun s => ?_) ?_ h.events (h.queued_popto hg) h.stops h.raised)
  · cases s with
    | left => simpa using h.left
    | right => simp [h.right, ← hstate, ← h.pipebase]
  · simp [Inproc.popto, h.eventsto]

/-- The right end takes `ACCEPTED`, and its pipe is refused. -/
theorem deliver_refused (h : Before v u) (hg : Pair.Inv u g) (hp : ∀ s, g.phase s = .active)
    (ha : add < 0) : ∃ net, deliver add v.net .left = .ok net ∧
      (net.sinproc .left).state = .active ∧ (net.sinproc .left).peer = some .right ∧
      (net.sinproc .right).peer = none := by
  have hr := h.unstarted hg hp
  have hst : v.net.stops .right = 0 := by rw [h.stops, hg.stops, hp]; rfl
  have hq : (v.net.popto .left accepted).queued (.right, .disconnect) = false := by
    rw [h.queued_popto hg]
    refine (hg.flights.queued_eq_false _ _).2 ⟨((hg.chan .left).active (hp .left)).2, ?_⟩
    rw [(hg.own .right).eq_nil (by rw [hp]; rfl)]
    exact List.not_mem_nil
  obtain ⟨p, hstart⟩ := hr.start_refused ha
  have hfeed : (v.net.popto .left accepted).feed .right add srcPeer typeAccepted (some .left) = _ :=
    Inproc.feed_accepted_refused hr.fsm hr.state hstart (Int.ne_of_lt ha) hq
  have hstate : (u.net.sinproc .left).state = .active := (hp .left ▸ hg.phase .left).state
  have hpeer : (u.net.sinproc .left).peer = some .right := (hg.phase .left).peer (hp .left)
  refine ⟨_, (h.deliver_eq hst).trans hfeed, ?_, ?_, by simp⟩
  · simpa [h.left] using hstate
  · simpa [h.left] using hpeer

/-- The socket of the left end sends a message before the right end is active. -/
theorem send (h : Before v u) (hg : Pair.Inv u g) (hp : ∀ s, g.phase s = .active) {msg : Message}
    (he : Pair.enabled v (.send .left msg)) :
    ∃ v', Pair.exec v (.send .left msg) = .ok v' ∧ Accepted v' := by
  have he' : Pair.enabled u (.send .left msg) := by simpa [Pair.enabled, h.left] using he
  obtain ⟨u', g', hx, hg', hp'⟩ := hg.send he'
  obtain ⟨-, hsending, hq⟩ := hg.may_send he'
  have hleft := hp .left ▸ hg.phase .left
  have hst : u.net.stops .right = 0 := by rw [hg.stops, hp]; rfl
  have hsend : u.net.pipeSend .left msg = _ := Inproc.pipeSend_ok .right he'.2.1
    hleft.state hsending (hleft.peer rfl) hst hq
  have hsend' : v.net.pipeSend .left msg = _ := Inproc.pipeSend_ok .right
    he.2.1 (by rw [h.left]; exact hleft.state) (by rw [h.left]; exact hsending)
    (by rw [h.left]; exact hleft.peer rfl) (by rw [h.stops]; exact hst) (by
      rw [h.queued, update_of_ne (by simp)]
      exact hq)
  simp only [Pair.exec, hsend, ok_bind, pure_eq_ok, Except.ok.injEq] at hx
  refine ⟨_, by simp only [Pair.exec, hsend', ok_bind, pure_eq_ok]; rfl, u', ⟨g', hg', ?_⟩, ?_⟩
  · exact fun s => (congrFun hp' s).trans (hp s)
  · rw [← hx]
    refine ⟨?_, ?_, ?_, ?_, ?_, ?_, h.events, ?_, h.stops, ?_, ?_, h.received, h.stopAsked⟩
    · simp [h.left]
    · simpa using h.right
    · simpa using h.pipebase
    · simpa using h.instate
    · simp [Inproc.pushto, h.eventsto]
    · simpa [Inproc.pushto] using h.silent
    · simp only [Inproc.pushto, Inproc.set_queued, h.queued]
      exact update_comm (by simp) _ _ _
    · exact congrArg (· ++ [_]) h.raised
    · simp [h.sent]

/-- The socket of the left end takes `NN_PIPE_OUT`. -/
theorem pipeOut (h : Before v u) (hg : Pair.Inv u g) (hp : ∀ s, g.phase s = .active) :
    ∃ v', Pair.exec v (.pipeOut .left) = .ok v' ∧ Accepted v' := by
  obtain ⟨u', g', hx, hg', hp'⟩ := hg.pipeOut (a := .left)
  refine ⟨_, rfl, u', ⟨g', hg', fun s => (congrFun hp' s).trans (hp s)⟩, ?_⟩
  rw [← Except.ok.inj hx]
  refine ⟨?_, ?_, ?_, ?_, h.eventsto, h.silent, h.events, h.queued, h.stops, h.raised, h.sent,
    h.received, h.stopAsked⟩
  · simp [Inproc.modify_eq, h.left]
  · simpa [Inproc.modify_eq] using h.right
  · simpa [Inproc.modify_eq] using h.pipebase
  · simpa [Inproc.modify_eq] using h.instate

end Before

/-- Before the right end is active, the left one may send. -/
theorem Accepted.use {action : PairAction} (h : Accepted v) (hu : Uses v.net action)
    (he : Pair.enabled v action) : ∃ v', Pair.exec v action = .ok v' ∧ Accepted v' := by
  obtain ⟨u, ⟨g, hg, hp⟩, h⟩ := h
  have hstate : (u.net.sinproc .left).state = .active := (hp .left ▸ hg.phase .left).state
  have hin : (u.net.sinproc .left).pipebase.inQueued = false := by
    have hi := (hg.pipe .left).instate
    by_contra hq
    rw [h.instate, if_neg ((hg.pipe .left).inQueued (by simpa using hq))] at hi
    simp at hi
  have hevents : ∀ s, v.net.events s = [] := by
    intro s
    rw [h.events, hg.flights.events, (hg.own s).eq_nil (by rw [hp]; rfl)]
    rfl
  cases hs : side action with
  | right =>
    have hr := h.unstarted hg hp
    exact absurd he (Unstarted.not_enabled (hs ▸ hr) (by simp) (hevents _) hu)
  | left =>
    cases action with
    | deliver s | stop s => exact hu.elim
    | deliverOwn s => exact absurd (hevents s) he
    | send s msg =>
      obtain rfl : s = .left := hs
      exact h.send hg hp he
    | pipeOut s =>
      obtain rfl : s = .left := hs
      exact h.pipeOut hg hp
    | sendLate s msg | recv s | pipeIn s =>
      obtain rfl : s = .left := hs
      simp [Pair.enabled, h.left, hstate, h.instate, hin] at he

/-! ### Every action -/

/-- How far the handshake is. -/
inductive Inv (w : Refusal) : Prop
  | offered (h : Offered w.pair)
  | unpaired (h : Unpaired w.pair)
  | accepted (h : Accepted w.pair)
  | established (h : Pair.Established w.pair)

/-- The invariant of the runs in which no pipe is refused. -/
structure Good (w : Refusal) : Prop where
  inv : Inv w
  refused : ∀ s, w.refused s = false

theorem Begun.good (h : Begun w) : Good w := ⟨.offered h.offered, h.refused⟩

theorem Good.right (h : Good w) : Right w := by
  -- No end has been refused.
  refine ⟨fun s hs => absurd hs (by simp [h.refused]), fun s p hs hp => ?_⟩
  cases h.inv with
  | offered ho =>
    cases s with
    | left =>
      obtain ⟨state, hstate, hl⟩ := ho.left
      rw [hl.state] at hs
      rcases hstate with rfl | rfl <;> simp at hs
    | right => exact absurd hs (by simp [ho.right.state])
  | unpaired hu =>
    cases s with
    | left => exact absurd hp (by simp [hu.peer])
    | right => exact absurd hs (by simp [hu.right.state])
  | accepted ha =>
    obtain ⟨u, ⟨g, hg, hphase⟩, hb⟩ := ha
    have hr := hb.unstarted hg hphase
    cases s with
    | left =>
      have hpeer : (u.net.sinproc .left).peer = some .right := (hg.phase .left).peer (hphase .left)
      rw [hb.left, hpeer] at hp
      obtain rfl := Option.some.inj hp
      simp [hr.peer]
    | right => exact absurd hs (by simp [hr.state])
  | established he =>
    obtain ⟨g, hg, hphase⟩ := he
    rw [(hg.phase s).peer (hphase s)] at hp
    obtain rfl := Option.some.inj hp
    simp [(hg.phase s.other).peer (hphase _)]

/-- A delivery that refuses no pipe leads on where it does for the two ends. -/
theorem Good.of_deliver (h : Good w) {s : Side} {net : Inproc Side Unit}
    (ha : Accepts w (.deliver s add)) (hd : deliver add w.pair.net s = .ok net)
    (hinv : ∀ refused, Inv ⟨{ w.pair with net := net }, refused⟩) :
    ∃ w', exec w (.deliver s add) = .ok w' ∧ Good w' := by
  refine ⟨_, exec_deliver hd, hinv _, fun i => ?_⟩
  exact (congrArg (· || _) (h.refused i)).trans (Accepts.refused ha i)

theorem Good.of_use (h : Good w) {action : PairAction} (hx : Pair.exec w.pair action = .ok v)
    (hinv : ∀ refused, Inv ⟨v, refused⟩) : ∃ w', exec w (.use action) = .ok w' ∧ Good w' :=
  ⟨⟨v, w.refused⟩, by simp [exec, hx], hinv _, h.refused⟩

/-- An action that does not refuse a pipe leads on. -/
theorem Good.step {a : RefusalAction} (h : Good w) (he : enabled w a) (ha : Accepts w a) :
    ∃ w', exec w a = .ok w' ∧ Good w' := by
  cases h.inv with
  | offered ho =>
    obtain ⟨add, rfl⟩ := ho.eq_deliver he
    have hadd := ha .left ho.starts
    obtain ⟨state, hs, hl⟩ := ho.left
    rcases hs with rfl | rfl
    · obtain ⟨net, hd, hacc⟩ := ho.accepted hl.state hadd
      exact h.of_deliver ha hd fun _ => .accepted hacc
    · obtain ⟨net, hd, hun⟩ := ho.unpaired hl.state hadd
      exact h.of_deliver ha hd fun _ => .unpaired hun
  | unpaired hu =>
    obtain ⟨action, v', rfl, hx, hu'⟩ := hu.step he
    exact h.of_use hx fun _ => .unpaired hu'
  | accepted hacc =>
    cases a with
    | use action =>
      obtain ⟨v', hx, hacc'⟩ := hacc.use he.1 he.2
      exact h.of_use hx fun _ => .accepted hacc'
    | deliver s add =>
      obtain ⟨u, ⟨g, hg, hp⟩, hb⟩ := hacc
      cases s with
      | left =>
        have hu : { w.pair with net := u.net } = u := by
          simp only [hb.sent, hb.received, hb.stopAsked]
        exact h.of_deliver ha (hb.deliver_ok hg hp (ha .right hb.starts)) fun _ =>
          .established (hu.symm ▸ ⟨g, hg, hp⟩)
      | right => exact absurd (by rw [hb.eventsto]; exact hb.silent) he
  | established hest =>
    obtain ⟨g, hg, hp⟩ := hest
    have hactive : ∀ i, (w.pair.net.sinproc i).state = .active := fun i =>
      (hg.phase i).state.trans (by rw [hp]; rfl)
    cases a with
    | use action =>
      obtain ⟨v', g', hx, hg', hp'⟩ := hg.step he.2
      exact h.of_use hx fun _ => .established ⟨g', hg', hp' he.1.transfers hp ▸ hp⟩
    | deliver s add =>
      obtain ⟨v', g', hx, hg', hp'⟩ := hg.deliver (a := s) he
      obtain ⟨net, hd, hv⟩ := bind_eq_ok.1 hx
      obtain rfl := Except.ok.inj hv
      exact h.of_deliver ha ((deliver_eq hactive s).trans hd) fun _ =>
        .established ⟨g', hg', hp' (hp s) ▸ hp⟩

/-- An action that refuses a pipe aborts, or leaves the left end active with a peer
    that has cleared its own. -/
theorem Good.accepts {w' : Refusal} {a : RefusalAction} (h : Good w) (he : enabled w a)
    (hx : exec w a = .ok w') (hr : Right w') : Accepts w a := by
  cases a with
  | use action => trivial
  | deliver s add =>
    intro i hi
    by_contra hadd
    rw [Int.not_le] at hadd
    obtain ⟨net, hd, hw'⟩ := bind_eq_ok.1 hx
    obtain rfl := Except.ok.inj hw'
    -- Only an end that is not active yet starts its pipebase.
    cases h.inv with
    | offered ho =>
      obtain ⟨_, hs⟩ := ho.eq_deliver he
      obtain ⟨rfl, rfl⟩ := RefusalAction.deliver.inj hs
      obtain ⟨_, hd'⟩ := ho.refused hadd
      exact absurd (hd.symm.trans hd') (by simp)
    | unpaired hu => exact he (hu.eventsto s)
    | accepted hacc =>
      obtain ⟨u, ⟨g, hg, hp⟩, hb⟩ := hacc
      cases s with
      | right => exact he (by rw [hb.eventsto]; exact hb.silent)
      | left =>
        obtain ⟨net', hd', hstate, hpeer, hcleared⟩ := hb.deliver_refused hg hp hadd
        obtain rfl := Except.ok.inj (hd.symm.trans hd')
        exact hr.peer .left .right hstate hpeer hcleared
    | established hest =>
      obtain ⟨g, hg, hp⟩ := hest
      have hactive : ∀ i, (w.pair.net.sinproc i).state = .active := fun i =>
        (hg.phase i).state.trans (by rw [hp]; rfl)
      simp [starts_eq_false hactive] at hi

/-- A run goes well exactly if no pipe is refused in it. -/
theorem correct_iff (h : Begun w) (as : List RefusalAction) :
    Correct w as ↔ system.Meets Accepts w as := by
  refine System.correct_iff_meets (I := Good) (fun _ => Good.right) (fun v a hv he ha => ?_)
    (fun v a v' hv he hx _ hr => ?_) h.good as
  · obtain ⟨v', hx, hv'⟩ := hv.step he ha
    exact ⟨v', hx, trivial, hv'⟩
  · exact hv.accepts he hx hr

/-- A left end in the state `state`, whose connection the right one accepts. -/
def offer (state : SinprocState) : Inproc Side Unit where
  sinproc
    | .left => { (Sinproc.init 0 () 1 fun _ => Message.empty : Sinproc Side Unit) with
        fsm := .active, state := state }
    | .right => Sinproc.init 0 () 1 fun _ => Message.empty
  eventsto := fun _ => []
  events := fun _ => []
  queued := fun _ => false
  stops := fun _ => 0
  raised := []

theorem offer_offer : Offer (offer .connecting) :=
  ⟨⟨0, 1, _, .connecting, .inl rfl, rfl⟩, ⟨0, 1, _, rfl⟩, fun _ => rfl, fun _ => rfl, fun _ => rfl,
    fun _ => rfl⟩

/-- Both ends of a handshake in which the left one is connecting. -/
def begun : Refusal where
  pair :=
    { net := ((offer .connecting).set .right { (offer .connecting).sinproc .right with
        fsm := .active, state := .ready, peer := some .left }).pushto .right ready
      sent := fun _ => []
      received := fun _ => []
      stopAsked := fun _ => false }
  refused := fun _ => false

theorem begun_begun : Begun begun :=
  ⟨⟨_, offer_offer, Inproc.accept_ok Side.left rfl rfl rfl⟩, fun _ => rfl, fun _ => rfl, fun _ => rfl,
    fun _ => rfl⟩

theorem begun_correct_iff : Correct begun [.deliver .right 0, .deliver .left (-Errno.enomem)] ↔
    system.Meets Accepts begun [.deliver .right 0, .deliver .left (-Errno.enomem)] :=
  correct_iff begun_begun _

/-- It is not so that all handshakes go well: the right end may be refused when the
    left one is active already. -/
theorem not_correct : ¬ ∀ w, Begun w → ∀ as, Correct w as := by
  intro h
  have hrun : system.Run begun [.deliver .right 0, .deliver .left (-Errno.enomem)] _ :=
    .cons (by exact List.cons_ne_nil _ _) rfl (.cons (by exact List.cons_ne_nil _ _) rfl (.nil _))
  have hr := (h begun begun_begun _).of_run hrun
  exact hr.peer .left .right rfl rfl rfl

end Refusal

end Nanomsg
