import Mathlib.Data.List.Perm.Subperm
import Nanomsg.Inproc.Disconnect
import Nanomsg.Inproc.Stopping

/-!
# Endpoints that come and go

An active endpoint makes a sinproc for each `CONNECT`, whose connection ends when
the endpoint at the other side goes: the sinproc raises `DISCONNECT` to its owner,
is to be stopped, and is freed when it has raised `STOPPED`.

`departures_iff`: a binding endpoint does so in every run. A connecting one only
counts that it has one connection less, and keeps the sinproc for ever.
-/

namespace Nanomsg

open Function Transition Sinproc

/-- What happens to an active endpoint. -/
inductive DepartAction (ε : Type)
  /-- `CONNECT` of the sinproc `peer` of another endpoint is delivered. -/
  | arrive (peer : ℕ)
  /-- `DISCONNECT` or `STOPPED` of its sinproc `i` is delivered. -/
  | depart (i : ℕ)
  | stopped (i : ℕ)
  /-- The sinprocs come to be `net`. -/
  | sinprocs (net : Inproc ℕ ε)

/-- An endpoint, the sinprocs made for it, and those that have told it that they
    are disconnected. -/
structure Departures (ε : Type) where
  tran : Transport ε
  made : List ℕ
  disconnected : List ℕ

/-- A sinproc has raised `DISCONNECT` to its owner. It is disconnected, and no other
    event of it is queued. -/
structure Inproc.Departed {ι ε : Type} (net : Inproc ι ε) (i : ι) : Prop where
  fsm : (net.sinproc i).fsm = .active
  state : (net.sinproc i).state = .disconnected
  quiet : ∀ k ≠ .disconnect, net.queued (i, k) = false

/-- Its owner being told, such a sinproc says that it has stopped as soon as it is
    asked to. -/
theorem Inproc.Departed.stop {ι ε : Type} [DecidableEq ι] {net : Inproc ι ε} {i : ι}
    (h : net.Departed i) (event : SinprocEvent ι ε) (he : event.object = (i, .disconnect)) :
    ∃ net', (net.pop i event).stop i = .ok net' ∧ (∀ j ≠ i, net'.sinproc j = net.sinproc j) ∧
      (net'.sinproc i).fsm = .idle := by
  have hquiet : ∀ k, (net.pop i event).queued (i, k) = false := fun k => by
    by_cases hk : k = .disconnect
    · simp [pop, he, hk]
    · simpa [pop, he, hk] using h.quiet k hk
  rw [Inproc.stop_alone (w := net.pop i event) (.inr h.state)]
  refine ⟨_, Inproc.shutdownEnd_stopped (by simp) hquiet, fun j hj => ?_, ?_⟩
  · simp [countStop, hj]
  · simp [countStop]

/-- One end of a connection is in this state once it is disconnected. -/
theorem Pair.departed {w : Pair} {a : Side} (h : Pair.established.Reachable w)
    (hs : (w.net.sinproc a).state = .disconnected) : w.net.Departed a := by
  obtain ⟨g, hi⟩ := Pair.keeps_inv.of_reach h
  have hp : g.phase a = .disconnected :=
    Phase.eq_disconnected_of_state ((hi.phase a).state.symm.trans hs)
  have hother : g.phase a.other ≠ .active := fun ho => by
    have := ((hi.chan' a).active ho).1
    simp [hp, Phase.consumed] at this
  refine ⟨by rw [(hi.phase a).fsm, hp]; rfl, hs, fun k hk => ?_⟩
  refine (hi.flights.queued_eq_false a k).2 ⟨?_, fun hm => ?_⟩
  · rw [(hi.chan' a).consumed hother (by rw [hp]; rfl)]
    simp
  · rcases hi.own a k hm with ⟨rfl, -⟩ | ⟨-, hn⟩
    · exact hk rfl
    · simp [hp] at hn

namespace Transport

variable {ε : Type} [DecidableEq ε] (E : Eps ε) (ep : ε)

/-- `CONNECT` of the sinproc `peer` to the endpoint. -/
def connectEvent (peer : ℕ) : SinprocEvent ℕ ε :=
  ⟨(peer, .connect), .ep ep, srcPeer, typeConnect, peer⟩

/-- `DISCONNECT` of a sinproc of the endpoint. -/
def disconnectEvent (i : ℕ) : SinprocEvent ℕ ε :=
  ⟨(i, .disconnect), .ep ep, srcSinproc, typeDisconnect, i⟩

/-- The endpoint once it has accepted the connection of the sinproc `peer`. -/
def accepted (w : Transport ε) (e : Endpoint) (peer : ℕ) : Transport ε :=
  (w.newSinproc E ep e).withNet
    (((w.newSinproc E ep e).net.set w.allocs
      { (Sinproc.init srcSinproc ep (E.rcvbuf ep) E.memory : Sinproc ℕ ε) with
        fsm := .active, state := .ready, peer := some peer }).pushto w.allocs
      ⟨(w.allocs, .connect), .sinproc peer, srcPeer, typeReady, w.allocs⟩)

/-- What accepting changes: the endpoint has one more sinproc, which is running. -/
structure Accepts (w : Transport ε) (e : Endpoint) (w' : Transport ε) : Prop where
  object : w'.object ep = some { e with sinprocs := e.sinprocs ++ [w.allocs] }
  allocs : w'.allocs = w.allocs + 1
  freed : w'.freed = w.freed
  bound : w'.bound = w.bound
  connected : w'.connected = w.connected
  stopped : w'.stopped = w.stopped
  sinproc : ∀ j ≠ w.allocs, w'.net.sinproc j = w.net.sinproc j
  running : (w'.net.sinproc w.allocs).fsm = .active

section

variable {E ep} {w : Transport ε} {e : Endpoint} {i peer : ℕ} (h : w.object ep = some e)

include h

theorem accept_ok : w.accept E ep (some peer) = .ok (w.accepted E ep e peer) := by
  have hnew : (w.newSinproc E ep e).net.sinproc w.allocs =
      Sinproc.init srcSinproc ep (E.rcvbuf ep) E.memory := by simp [newSinproc]
  have haccept : (w.newSinproc E ep e).net.accept w.allocs 0 peer = _ :=
    Inproc.accept_ok peer (by rw [hnew]; rfl) (by rw [hnew]; rfl) (by simp [newSinproc])
  rw [hnew] at haccept
  simp only [accept, endpoint_ok h, ok_bind, deref]
  exact onNet_ok (f := fun net => net.accept w.allocs 0 peer) haccept

variable (hf : e.fsm ≠ .stopping) (hs : e.state = .active)

include hf hs

/-- An active endpoint accepts. -/
theorem feed_connect : w.feed E ep srcPeer typeConnect (some peer) = .ok (match e.kind with
    | .binproc => w.accepted E ep e peer
    | .cinproc => ((w.accepted E ep e peer).statIncrement ep .inprogressConnections (-1)).statIncrement
        ep .establishedConnections 1) := by
  simp only [feed, endpoint_ok h, ok_bind]
  cases hk : e.kind <;>
    simp [Fsm.feed_of_ne hf, binprocHandler, cinprocHandler, endpoint_ok h, hs, accept_ok h]

variable (peer) in
theorem feed_connect_accepts :
    ∃ w', w.feed E ep srcPeer typeConnect (some peer) = .ok w' ∧ Accepts ep w e w' := by
  have hacc : Accepts ep w e (w.accepted E ep e peer) := by
    refine ⟨update_self _ _ _, rfl, rfl, rfl, rfl, rfl, fun j hj => ?_, ?_⟩
    · simp [accepted, withNet, newSinproc, hj]
    · simp [accepted, withNet, newSinproc]
  rw [feed_connect h hf hs]
  cases e.kind
  · exact ⟨_, rfl, hacc⟩
  · exact ⟨_, rfl, hacc.object, hacc.allocs, hacc.freed, hacc.bound, hacc.connected, hacc.stopped,
      hacc.sinproc, hacc.running⟩

/-- It stops a sinproc that has been disconnected if it binds, and else counts it. -/
theorem feed_disconnect : w.feed E ep srcSinproc typeDisconnect (some i) = match e.kind with
    | .binproc => w.onNet fun net => net.stop i
    | .cinproc => .ok (w.statIncrement ep .inprogressConnections 1) := by
  have hsrc : ¬ srcSinproc = srcPeer := by decide
  simp only [feed, endpoint_ok h, ok_bind]
  cases hk : e.kind with
  | binproc => simp [Fsm.feed_of_ne hf, binprocHandler, endpoint_ok h, hs, deref, hsrc]
  | cinproc => simp [Fsm.feed_of_ne hf, cinprocHandler, endpoint_ok h, hs, hsrc]

/-- It frees one that has stopped if it binds, and else does not know the event. -/
theorem feed_stopped (hi : i ∈ e.sinprocs) :
    w.feed E ep srcSinproc typeStopped (some i) = match e.kind with
    | .binproc => .ok { w.put ep { e with sinprocs := e.sinprocs.erase i } with
        freed := w.freed ++ [i] }
    | .cinproc => w.fail .badSource := by
  have hsrc : ¬ srcSinproc = srcPeer := by decide
  simp only [feed, endpoint_ok h, ok_bind]
  obtain ⟨kind, fsm, state, is⟩ := e
  obtain rfl : state = .active := hs
  cases kind with
  | binproc =>
    simp [Fsm.feed_of_ne hf, binprocHandler, endpoint_ok h, deref, hsrc, freeSinproc,
      show i ∈ is from hi]
  | cinproc => simp [Fsm.feed_of_ne hf, cinprocHandler, endpoint_ok h, hsrc]

end

omit [DecidableEq ε] in
/-- An endpoint that accepts goes on as it is, with a new sinproc. -/
theorem Accepts.active {ep : ε} {w w' : Transport ε} {e : Endpoint} (h : Accepts ep w e w')
    (ha : Stopping.Active ep w e) (hlt : ∀ i, i ∈ e.sinprocs ∨ i ∈ w.freed → i < w.allocs) :
    Stopping.Active ep w' { e with sinprocs := e.sinprocs ++ [w.allocs] } ∧
      ∀ i, i ∈ e.sinprocs ++ [w.allocs] ∨ i ∈ w'.freed → i < w'.allocs := by
  refine ⟨ha.of_eq h.object ?_ ?_ h.bound h.connected h.stopped, ?_⟩
  · refine List.nodup_append.2 ⟨ha.nodup, List.nodup_singleton _, fun i hi j hj => ?_⟩
    obtain rfl := List.mem_singleton.1 hj
    exact Nat.ne_of_lt (hlt i (.inl hi))
  · simp only [h.freed, List.mem_append, List.mem_singleton]
    rintro i (hi | rfl)
    · exact ha.live i hi
    · exact fun hm => Nat.lt_irrefl _ (hlt _ (.inr hm))
  · simp only [h.freed, h.allocs, List.mem_append, List.mem_singleton]
    rintro i ((hi | rfl) | hi)
    · exact Nat.lt_succ_of_lt (hlt i (.inl hi))
    · exact Nat.lt_succ_self _
    · exact Nat.lt_succ_of_lt (hlt i (.inr hi))

end Transport

namespace Departures

open Transport Stopping

variable {ε : Type} [DecidableEq ε] (E : Eps ε) (ep : ε)

/-- What the endpoint hears of its own sinprocs is what they have raised. That one
    stops is for the endpoint to ask. -/
def enabled (s : Departures ε) : DepartAction ε → Prop
  | .arrive peer => ∃ l, s.tran.net.eventsto peer = connectEvent ep peer :: l
  | .depart i => i ∈ sinprocs ep s.tran ∧
    (∃ l, s.tran.net.events i = disconnectEvent ep i :: l) ∧ s.tran.net.Departed i
  | .stopped i => i ∈ sinprocs ep s.tran ∧
    (∃ l, s.tran.net.events i = stoppedEvent ep i :: l) ∧ (s.tran.net.sinproc i).fsm ≠ .active
  | .sinprocs net => ∀ i ∈ sinprocs ep s.tran,
    (net.sinproc i).fsm = .active ↔ (s.tran.net.sinproc i).fsm = .active

/-- `event` of the sinproc `i` to its owner is taken off its queue and delivered. -/
def deliver (w : Transport ε) (i : ℕ) (event : SinprocEvent ℕ ε) :
    Except (Abort (Transport ε)) (Transport ε) :=
  (w.withNet (w.net.pop i event)).process E 0 event

def exec (s : Departures ε) : DepartAction ε → Except (Abort (Transport ε)) (Departures ε)
  | .arrive peer => do
    let event := connectEvent ep peer
    let w ← (s.tran.withNet (s.tran.net.popto peer event)).process E 0 event
    pure { s with tran := w, made := s.made ++ [s.tran.allocs] }
  | .depart i => do
    let w ← deliver E s.tran i (disconnectEvent ep i)
    pure { s with tran := w, disconnected := s.disconnected ++ [i] }
  | .stopped i => do
    let w ← deliver E s.tran i (stoppedEvent ep i)
    pure { s with tran := w }
  | .sinprocs net => .ok { s with tran := s.tran.withNet net }

/-- The endpoint is active, its sinprocs are numbered as they are made, and none of
    them has been stopped. -/
def Begun (s : Departures ε) : Prop :=
  s.disconnected = [] ∧ ∃ e, Active ep s.tran e ∧ s.made = e.sinprocs ∧
    (∀ i, i ∈ e.sinprocs ∨ i ∈ s.tran.freed → i < s.tran.allocs) ∧
    ∀ i ∈ e.sinprocs, (s.tran.net.sinproc i).fsm = .active

/-- The runs of an active endpoint. -/
def system : System (Departures ε) (DepartAction ε) (Abort (Transport ε)) where
  init := Begun ep
  enabled := enabled ep
  exec := exec E ep

/-- The sinproc `i` has been asked to stop. -/
def Asked (s : Departures ε) (i : ℕ) : Prop := (s.tran.net.sinproc i).fsm ≠ .active

instance (s : Departures ε) : DecidablePred (Asked s) := fun _ => inferInstanceAs (Decidable (_ ≠ _))

/-- The connection of the sinproc `i` is not torn down: it is not disconnected, or
    its sinproc is about to stop. -/
def Open (s : Departures ε) (i : ℕ) : Prop := i ∉ s.tran.freed ∧ (i ∈ s.disconnected → Asked s i)

instance (s : Departures ε) : DecidablePred (Open s) := fun _ => inferInstanceAs (Decidable (_ ∧ _))

/-- A sinproc that has been disconnected has been asked to stop, and the endpoint has no
    more sinprocs than there are connections not torn down. -/
structure Right (s : Departures ε) : Prop where
  asked : ∀ i ∈ sinprocs ep s.tran, i ∈ s.disconnected → Asked s i
  few : (sinprocs ep s.tran).length ≤ (s.made.filter (Open s)).length

/-- What the endpoint does. -/
def Step (s : Departures ε) : DepartAction ε → Departures ε → Prop
  | .arrive _, s' => sinprocs ep s'.tran = sinprocs ep s.tran ++ [s.tran.allocs]
  | .depart i, s' => (s.tran.net.pop i (disconnectEvent ep i)).stop i = .ok s'.tran.net ∧
    sinprocs ep s'.tran = sinprocs ep s.tran
  | .stopped i, s' => sinprocs ep s'.tran = (sinprocs ep s.tran).erase i ∧
    s'.tran.freed = s.tran.freed ++ [i]
  | .sinprocs _, _ => True

/-- The endpoint binds, or is not told of a sinproc that is disconnected. -/
def Spared (s : Departures ε) (a : DepartAction ε) : Prop :=
  (∃ e, s.tran.object ep = some e ∧ e.kind = .binproc) ∨ ∀ i, a ≠ .depart i

variable {E ep} {s s' : Departures ε} {e : Endpoint} {a : DepartAction ε} {i peer : ℕ}

/-! ### The invariant -/

variable (ep) in
/-- The endpoint `e` is active, and has asked those of its sinprocs to stop that are
    disconnected. One that connects asks none. -/
structure Held (s : Departures ε) (e : Endpoint) : Prop where
  active : Active ep s.tran e
  numbered : ∀ i, i ∈ e.sinprocs ∨ i ∈ s.tran.freed ∨ i ∈ s.disconnected → i < s.tran.allocs
  made : e.sinprocs ⊆ s.made
  asked : ∀ i ∈ e.sinprocs, i ∈ s.disconnected → Asked s i
  running : e.kind = .cinproc → ∀ i ∈ e.sinprocs, ¬ Asked s i

omit [DecidableEq ε] in
theorem Held.right (h : Held ep s e) : Right ep s := by
  have hsin := sinprocs_eq h.active.object
  refine ⟨hsin ▸ h.asked, ?_⟩
  rw [hsin]
  -- The sinprocs are different ones of those whose connections are open.
  refine List.Subperm.length_le (h.active.nodup.subperm fun i hi =>
    List.mem_filter.2 ⟨h.made hi, ?_⟩)
  exact decide_eq_true ⟨h.active.live i hi, h.asked i hi⟩

omit [DecidableEq ε] in
theorem Begun.held (h : Begun ep s) : ∃ e, Held ep s e := by
  obtain ⟨hd, e, ha, hm, hn, hr⟩ := h
  refine ⟨e, ha, fun i hi => hn i ?_, hm ▸ List.Subset.refl _, by simp [hd], fun _ i hi => ?_⟩
  · simpa [hd] using hi
  · simpa [Asked] using hr i hi

/-- An endpoint arrives. -/
theorem arrive (h : Held ep s e) (peer : ℕ) : ∃ s', exec E ep s (.arrive peer) = .ok s' ∧
    Step ep s (.arrive peer) s' ∧ Held ep s' { e with sinprocs := e.sinprocs ++ [s.tran.allocs] } := by
  let event := connectEvent ep peer
  obtain ⟨w, hw, hacc⟩ := feed_connect_accepts (E := E) peer
    (w := s.tran.withNet (s.tran.net.popto peer event)) h.active.object (by simp [h.active.fsm])
    h.active.state
  have hexec : exec E ep s (.arrive peer) =
      .ok { s with tran := w, made := s.made ++ [s.tran.allocs] } := by
    have hproc : (s.tran.withNet (s.tran.net.popto peer event)).process E 0 event = .ok w := hw
    simp only [exec, event] at hproc ⊢
    rw [hproc]
    rfl
  obtain ⟨hactive, hlt⟩ := hacc.active (e := e) (h.active.of_eq h.active.object h.active.nodup
    h.active.live rfl rfl rfl) fun i hi => h.numbered i (hi.imp id .inl)
  have hallocs : w.allocs = s.tran.allocs + 1 := hacc.allocs
  have hrunning : (w.net.sinproc s.tran.allocs).fsm = .active := hacc.running
  have hold : ∀ i ∈ e.sinprocs, (w.net.sinproc i).fsm = (s.tran.net.sinproc i).fsm := fun i hi => by
    rw [hacc.sinproc i (Nat.ne_of_lt (h.numbered i (.inl hi)))]
    rfl
  refine ⟨_, hexec, ?_, hactive, fun i hi => ?_, fun i hi => ?_, ?_, ?_⟩
  · rw [Step, sinprocs_eq hactive.object, sinprocs_eq h.active.object]
    rfl
  · rcases hi with hi | hi | hi
    · exact hlt i (.inl hi)
    · exact hlt i (.inr hi)
    · exact hallocs ▸ Nat.lt_succ_of_lt (h.numbered i (.inr (.inr hi)))
  · rcases List.mem_append.1 hi with hi | hi
    · exact List.mem_append_left _ (h.made hi)
    · exact List.mem_append_right _ hi
  · -- Those asked to stop still are; the new one has not been disconnected.
    simp only [List.mem_append, List.mem_singleton, Asked]
    rintro i (hi | rfl) hd
    · rw [hold i hi]
      exact h.asked i hi hd
    · exact absurd (h.numbered _ (.inr (.inr hd))) (Nat.lt_irrefl _)
  · simp only [List.mem_append, List.mem_singleton, Asked]
    rintro hk i (hi | rfl)
    · rw [hold i hi]
      exact h.running hk i hi
    · exact not_not_intro hrunning

/-- A sinproc of a binding endpoint is disconnected. -/
theorem depart (h : Held ep s e) (hk : e.kind = .binproc) (he : enabled ep s (.depart i)) :
    ∃ s', exec E ep s (.depart i) = .ok s' ∧ Step ep s (.depart i) s' ∧ Held ep s' e := by
  obtain ⟨hi, -, hd⟩ := he
  rw [sinprocs_eq h.active.object] at hi
  obtain ⟨net, hstop, hother, hidle⟩ := hd.stop (disconnectEvent ep i) rfl
  have hdeliver : deliver E s.tran i (disconnectEvent ep i) = .ok (s.tran.withNet net) := by
    have hfeed : deliver E s.tran i (disconnectEvent ep i) = _ := feed_disconnect (E := E) (i := i)
      (w := s.tran.withNet (s.tran.net.pop i (disconnectEvent ep i))) h.active.object
      (by simp [h.active.fsm]) h.active.state
    rw [hfeed, hk]
    exact onNet_ok (f := fun net => net.stop i) hstop
  -- Only the sinproc `i` is asked, and the others go on.
  have hasked : ∀ j, Asked s j → (net.sinproc j).fsm ≠ .active := fun j hj => by
    by_cases hji : j = i
    · simp [hji, hidle]
    · rw [hother j hji]
      exact hj
  refine ⟨{ s with tran := s.tran.withNet net, disconnected := s.disconnected ++ [i] }, ?_,
    ⟨hstop, rfl⟩, ?_⟩
  · simp only [exec, hdeliver, ok_bind, pure_eq_ok]
  · refine ⟨h.active.of_eq h.active.object h.active.nodup h.active.live rfl rfl rfl, fun j hj => ?_,
      h.made, fun j hj hd => ?_, fun hc => ?_⟩
    · simp only [List.mem_append, List.mem_singleton] at hj
      rcases hj with hj | hj | hj | rfl
      · exact h.numbered j (.inl hj)
      · exact h.numbered j (.inr (.inl hj))
      · exact h.numbered j (.inr (.inr hj))
      · exact h.numbered j (.inl hi)
    · rcases List.mem_append.1 hd with hd | hd
      · exact hasked j (h.asked j hj hd)
      · obtain rfl := List.mem_singleton.1 hd
        simp [Asked, withNet, hidle]
    · simp [hk] at hc

/-- A connecting endpoint does not ask a sinproc that is disconnected to stop. -/
theorem depart_not_asked (h : Held ep s e) (hk : e.kind = .cinproc) (he : enabled ep s (.depart i)) :
    ∃ s', exec E ep s (.depart i) = .ok s' ∧ ¬ Right ep s' := by
  obtain ⟨hi, -, hd⟩ := he
  have hdeliver : deliver E s.tran i (disconnectEvent ep i) = _ := feed_disconnect (E := E) (i := i)
    (w := s.tran.withNet (s.tran.net.pop i (disconnectEvent ep i))) h.active.object
    (by simp [h.active.fsm]) h.active.state
  rw [hk] at hdeliver
  refine ⟨_, by simp only [exec, hdeliver, ok_bind, pure_eq_ok]; rfl, fun hr => ?_⟩
  -- The sinproc is disconnected, and active still.
  refine hr.asked i hi ?_ hd.fsm
  exact List.mem_append_right _ (List.mem_singleton_self i)

/-- A sinproc of a binding endpoint has stopped. -/
theorem stopped (h : Held ep s e) (hk : e.kind = .binproc) (he : enabled ep s (.stopped i)) :
    ∃ s', exec E ep s (.stopped i) = .ok s' ∧ Step ep s (.stopped i) s' ∧
      Held ep s' { e with sinprocs := e.sinprocs.erase i } := by
  obtain ⟨hi, -⟩ := he
  rw [sinprocs_eq h.active.object] at hi
  let w : Transport ε := { s.tran with
    net := s.tran.net.pop i (stoppedEvent ep i)
    object := update s.tran.object ep (some { e with sinprocs := e.sinprocs.erase i })
    freed := s.tran.freed ++ [i] }
  have hdeliver : deliver E s.tran i (stoppedEvent ep i) = .ok w := by
    have hfeed : deliver E s.tran i (stoppedEvent ep i) = _ := feed_stopped (E := E) (i := i)
      (w := s.tran.withNet (s.tran.net.pop i (stoppedEvent ep i))) h.active.object
      (by simp [h.active.fsm]) h.active.state hi
    rw [hfeed]
    split
    · rfl
    · next hc => simp [hk] at hc
  have hobj : w.object ep = some { e with sinprocs := e.sinprocs.erase i } := update_self _ _ _
  refine ⟨{ s with tran := w }, ?_, ⟨?_, rfl⟩, h.active.of_eq hobj (h.active.nodup.erase i) ?_ rfl rfl rfl,
    fun j hj => ?_, ?_, ?_, ?_⟩
  · simp only [exec, hdeliver, ok_bind, pure_eq_ok]
  · rw [sinprocs_eq hobj, sinprocs_eq h.active.object]
  · -- The sinprocs that are left are not the one freed now.
    intro j hj
    have hj' := h.active.nodup.mem_erase_iff.1 hj
    simpa [w, hj'.1] using h.active.live j hj'.2
  · simp only [w, List.mem_append, List.mem_singleton] at hj
    rcases hj with hj | (hj | rfl) | hj
    · exact h.numbered j (.inl (List.mem_of_mem_erase hj))
    · exact h.numbered j (.inr (.inl hj))
    · exact h.numbered j (.inl hi)
    · exact h.numbered j (.inr (.inr hj))
  · exact fun j hj => h.made (List.mem_of_mem_erase hj)
  · exact fun j hj hd => h.asked j (List.mem_of_mem_erase hj) hd
  · exact fun hc => by simp [hk] at hc

omit [DecidableEq ε] in
/-- The sinprocs go on by themselves. -/
theorem sinprocs_held (h : Held ep s e) {net : Inproc ℕ ε} (he : enabled ep s (.sinprocs net)) :
    Held ep { s with tran := s.tran.withNet net } e := by
  have he' : ∀ i ∈ e.sinprocs, (net.sinproc i).fsm = .active ↔ (s.tran.net.sinproc i).fsm = .active :=
    sinprocs_eq h.active.object ▸ he
  refine ⟨h.active.of_eq h.active.object h.active.nodup h.active.live rfl rfl rfl, h.numbered, h.made,
    fun i hi hd => ?_, fun hk i hi => ?_⟩
  · exact fun hf => h.asked i hi hd ((he' i hi).1 hf)
  · exact fun hf => h.running hk i hi fun hn => hf ((he' i hi).2 hn)

/-! ### Runs -/

/-- What meets the condition does not fail, and is right. -/
theorem step (h : Held ep s e) (he : enabled ep s a) (hc : Spared ep s a) :
    ∃ s', exec E ep s a = .ok s' ∧ Step ep s a s' ∧ ∃ e', Held ep s' e' := by
  -- The condition is about `DISCONNECT` only.
  have hkind : (∃ i, a = .depart i) → e.kind = .binproc := by
    rintro ⟨i, rfl⟩
    rcases hc with ⟨e', ho, hk⟩ | hn
    · obtain rfl := Option.some.inj (h.active.object.symm.trans ho)
      exact hk
    · exact absurd rfl (hn i)
  cases a with
  | arrive peer =>
    obtain ⟨s', hx, hs, h'⟩ := arrive (E := E) h peer
    exact ⟨s', hx, hs, _, h'⟩
  | depart i =>
    obtain ⟨s', hx, hs, h'⟩ := depart (E := E) h (hkind ⟨i, rfl⟩) he
    exact ⟨s', hx, hs, _, h'⟩
  | stopped i =>
    cases hk : e.kind with
    | binproc =>
      obtain ⟨s', hx, hs, h'⟩ := stopped (E := E) h hk he
      exact ⟨s', hx, hs, _, h'⟩
    | cinproc =>
      -- Its sinprocs have not been asked to stop, and do not.
      obtain ⟨hi, -, hf⟩ := he
      rw [sinprocs_eq h.active.object] at hi
      exact absurd hf (h.running hk i hi)
  | sinprocs net => exact ⟨_, rfl, trivial, _, sinprocs_held h he⟩

/-- In a run, the endpoint keeps only live connections if and only if it binds, or
    is not told of a sinproc that is disconnected. -/
theorem departures_iff (h : Begun ep s) (as : List (DepartAction ε)) :
    (system E ep).Correct (Right ep) (Step ep) s as ↔ (system E ep).Meets (Spared ep) s as := by
  refine System.correct_iff_meets (I := fun s => ∃ e, Held ep s e) (fun s ⟨e, h⟩ => h.right)
    (fun s a ⟨e, h⟩ he hc => step h he hc) ?_ h.held as
  rintro s a s' ⟨e, h⟩ he hx - hr
  cases hk : e.kind with
  | binproc => exact .inl ⟨e, h.active.object, hk⟩
  | cinproc =>
    refine .inr fun i ha => ?_
    subst ha
    obtain ⟨s₁, hx₁, hn⟩ := depart_not_asked (E := E) h hk he
    obtain rfl := Except.ok.inj (hx₁.symm.trans hx)
    exact hn hr

/-- An endpoint with a sinproc that is disconnected, of which it has not been told. -/
def departing (kind : EndpointKind) : Departures ℕ where
  tran :=
    { net :=
        { sinproc := fun _ =>
            { (Sinproc.init srcSinproc 0 1 fun _ => Message.empty : Sinproc ℕ ℕ) with
              fsm := .active, state := .disconnected }
          eventsto := fun _ => []
          events := fun _ => [disconnectEvent 0 0]
          queued := fun o => o = (0, .disconnect)
          stops := fun _ => 0
          raised := [] }
      allocs := 1
      freed := []
      object := fun _ => some ⟨kind, .active, .active, [0]⟩
      bound := if kind = .binproc then [0] else []
      connected := if kind = .binproc then [] else [0]
      stats := []
      stopped := [] }
  made := [0]
  disconnected := []

theorem departing_begun (kind : EndpointKind) : Begun 0 (departing kind) := by
  refine ⟨rfl, ⟨kind, .active, .active, [0]⟩, ⟨rfl, rfl, rfl, by simp, by simp [departing], ?_, ?_, ?_,
    by simp [departing]⟩, rfl, by simp [departing], by simp [departing]⟩ <;>
    cases kind <;> simp [departing]

theorem departing_enabled (kind : EndpointKind) : enabled 0 (departing kind) (.depart 0) :=
  ⟨List.mem_singleton_self 0, ⟨[], rfl⟩, rfl, rfl, by simp [departing]⟩

theorem departures_iff_binproc :
    (system oneAddr 0).Correct (Right 0) (Step 0) (departing .binproc) [.depart 0, .stopped 0] ↔
      (system oneAddr 0).Meets (Spared 0) (departing .binproc) [.depart 0, .stopped 0] :=
  departures_iff (departing_begun .binproc) _

/-- Not every run of a connecting endpoint is right. -/
theorem cinproc_keeps_dead : ¬ ∀ (s : Departures ℕ), Begun 0 s → ∀ as,
    (system oneAddr 0).Correct (Right 0) (Step 0) s as := by
  intro h
  obtain ⟨-, hstep⟩ := h _ (departing_begun .cinproc) [.depart 0]
  obtain ⟨s', hx, -, hr⟩ := hstep (departing_enabled .cinproc)
  have hx' : exec oneAddr 0 (departing .cinproc) (.depart 0) = .ok _ := rfl
  obtain rfl := Except.ok.inj (hx'.symm.trans hx)
  exact hr.asked 0 (List.mem_singleton_self 0) (List.mem_singleton_self 0) rfl

end Departures

end Nanomsg
