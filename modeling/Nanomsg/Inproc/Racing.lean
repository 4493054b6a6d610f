import Nanomsg.Inproc.Departures
import Nanomsg.Inproc.Ins

/-!
# Connecting while an endpoint stops

An endpoint that registers raises `CONNECT` to those it finds in the registry,
under the lock. The event is delivered later, in the context of the endpoint
found, which may have been stopped by then.

`safe_iff`: in a run every `CONNECT` is handled as it should be exactly if each of
them is delivered before the endpoint unregisters. A binding endpoint that is
stopping asserts that the event is another one, a connecting one takes it for the
end of a sinproc, and one that has stopped does not know its source.
-/

namespace Nanomsg

open Function Transition Sinproc

/-- What may happen around an endpoint. -/
inductive RaceAction (ε : Type)
  /-- Another endpoint registers, as one that binds or one that connects. -/
  | register (kind : EndpointKind) (x : ε)
  /-- The endpoint is stopped, or `STOPPED` of its sinproc `i` is delivered. -/
  | stop
  | stopped (i : ℕ)
  /-- The first event raised by the sinproc `i` to another context is delivered. -/
  | deliver (i : ℕ)
  /-- The sinprocs come to be `net`. -/
  | sinprocs (net : Inproc ℕ ε)

namespace Transport

variable {ε : Type} [DecidableEq ε] (E : Eps ε) (ep : ε)

namespace Racing

/-- What `nn_binproc_connect` and `nn_cinproc_connect` are taken to do: a new sinproc of `x` is
    started and raises `CONNECT` to the machine of the endpoint found. The functions themselves
    go on to fail, and one of them raises it to another machine (`connect_eq`). -/
def raiseConnect : InsFn ε := fun w x peer => do
  let e ← w.endpoint x
  w.check (e.state = .active)
  let i := w.allocs
  let w := w.newSinproc E x e
  w.onNet fun net => do
    let net ← net.fsmStart i 0
    net.raiseto i (.ep peer) (i, .connect) srcPeer typeConnect i

/-- `event` is a `CONNECT` to the endpoint. -/
def IsConnect (event : SinprocEvent ℕ ε) : Prop :=
  event.fsm = .ep ep ∧ event.src = srcPeer ∧ event.type = typeConnect

instance : DecidablePred (IsConnect ep) := fun _ => inferInstanceAs (Decidable (_ ∧ _))

/-- A new endpoint registers. The sinprocs neither raise nor take a `CONNECT` to the
    endpoint. -/
def enabled (w : Transport ε) : RaceAction ε → Prop
  | .register _ x => x ≠ ep ∧ x ∉ w.bound ∧ x ∉ w.connected
  | .stop => Stopping.enabled ep w .stop
  | .stopped i => ∃ e, w.object ep = some e ∧ i ∈ e.sinprocs
  | .deliver i => ∃ event l, w.net.eventsto i = event :: l ∧ IsConnect ep event
  | .sinprocs net => ∀ i, (net.eventsto i).filter (IsConnect ep) = (w.net.eventsto i).filter (IsConnect ep)

/-- The endpoint `x` is made and registers. -/
def register (w : Transport ε) (kind : EndpointKind) (x : ε) :
    Except (Abort (Transport ε)) (Transport ε) :=
  let w := w.put x ⟨kind, .active, .active, []⟩
  match kind with
  | .binproc => do
    let (w, _) ← w.insBind E (raiseConnect E) x
    pure w
  | .cinproc => w.insConnect E (raiseConnect E) x

/-- The first event raised by the sinproc `i` is delivered. -/
def deliver (w : Transport ε) (i : ℕ) : Except (Abort (Transport ε)) (Transport ε) :=
  match w.net.eventsto i with
  | [] => .ok w
  | event :: _ => (w.withNet (w.net.popto i event)).process E 0 event

def exec (w : Transport ε) : RaceAction ε → Except (Abort (Transport ε)) (Transport ε)
  | .register kind x => register E w kind x
  | .stop => Stopping.exec E ep w .stop
  | .stopped i => Stopping.exec E ep w (.stopped w.net i)
  | .deliver i => deliver E w i
  | .sinprocs net => .ok (w.withNet net)

/-- The endpoint is active, and the sinprocs are numbered as they are made. -/
def Begun (w : Transport ε) : Prop :=
  ∃ e, Stopping.Active ep w e ∧ ∀ i, i ∈ e.sinprocs ∨ i ∈ w.freed → i < w.allocs

/-- The runs around an endpoint. -/
def system : System (Transport ε) (RaceAction ε) (Abort (Transport ε)) where
  init := Begun ep
  enabled := enabled ep
  exec := exec E ep

/-- The endpoint is in the registry. -/
def Registered (w : Transport ε) : Prop := ep ∈ w.bound ∨ ep ∈ w.connected

/-- `CONNECT` of the sinproc `i` is taken without failing, not for the end of a
    sinproc, and not by an endpoint that has said that it has stopped. -/
structure Handled (w : Transport ε) (i : ℕ) : Prop where
  ok : ∃ w', exec E ep w (.deliver i) = .ok w' ∧ w'.freed = w.freed ∧
    Stopping.sinprocs ep w ⊆ Stopping.sinprocs ep w'
  running : ep ∉ w.stopped

/-- Every `CONNECT` delivered in a run is handled. -/
def Safe (w : Transport ε) (as : List (RaceAction ε)) : Prop :=
  (system E ep).Meets (fun w a => ∀ i, a = .deliver i → Handled E ep w i) w as

/-- Every `CONNECT` of a run is delivered before the endpoint unregisters. -/
def InTime (w : Transport ε) (as : List (RaceAction ε)) : Prop :=
  (system E ep).Meets (fun w a => ∀ i, a = .deliver i → Registered ep w) w as

variable {E ep} {w w' : Transport ε} {x peer : ε} {e : Endpoint} {i : ℕ}

/-! ### Registering -/

variable (peer) in
/-- What raising `CONNECT` leaves behind. -/
theorem raiseConnect_ok (h : w.object x = some e) (hs : e.state = .active) :
    raiseConnect E w x peer = .ok ((w.newSinproc E x e).withNet
      (((w.newSinproc E x e).net.set w.allocs
        { (Sinproc.init srcSinproc x (E.rcvbuf x) E.memory : Sinproc ℕ ε) with
          fsm := .active, state := .connecting }).pushto w.allocs
        ⟨(w.allocs, .connect), .ep peer, srcPeer, typeConnect, w.allocs⟩)) := by
  -- The sinproc is new: it has raised nothing yet.
  have hnew : (w.newSinproc E x e).net.sinproc w.allocs =
      Sinproc.init srcSinproc x (E.rcvbuf x) E.memory := by simp [newSinproc]
  have hq : (w.newSinproc E x e).net.queued (w.allocs, .connect) = false := by simp [newSinproc]
  have hstart : (w.newSinproc E x e).net.fsmStart w.allocs 0 = _ :=
    Inproc.fsmStart_ok (by rw [hnew]; rfl) (by rw [hnew]; rfl)
  rw [hnew] at hstart
  simp only [raiseConnect, endpoint_ok h, ok_bind, check, hs, decide_true, if_true]
  refine onNet_ok (f := fun net => do
    let net ← net.fsmStart w.allocs 0
    net.raiseto w.allocs (.ep peer) (w.allocs, .connect) srcPeer typeConnect w.allocs) ?_
  rw [hstart, ok_bind]
  exact Inproc.raiseto_ok hq

/-- The callbacks raise it, to whichever endpoint, and go on to fail. -/
theorem connect_eq (h : w.object x = some e) (hs : e.state = .active) :
    binprocConnect E w x peer = (do
      let w' ← raiseConnect E w x peer
      w'.fail .badAction) ∧
    cinprocConnect E w x peer = (do
      let w' ← raiseConnect E w x x
      w'.fail .badAction) := by
  have hnew : (w.newSinproc E x e).net.sinproc w.allocs =
      Sinproc.init srcSinproc x (E.rcvbuf x) E.memory := by simp [newSinproc]
  have hconnect (y : ε) : (w.newSinproc E x e).net.connect w.allocs 0 y = _ :=
    Inproc.connect_badAction (by rw [hnew]; rfl) (by rw [hnew]; rfl) (by simp [newSinproc])
  rw [hnew] at hconnect
  -- Both start the sinproc a second time, after the event has been raised.
  constructor
  · simp only [binprocConnect, endpoint_ok h, ok_bind, check, hs, decide_true, if_true,
      raiseConnect_ok peer h hs]
    rw [onNet_error (hconnect peer)]
    rfl
  · simp only [cinprocConnect, endpoint_ok h, ok_bind, check, hs, decide_true, if_true,
      raiseConnect_ok x h hs]
    -- `nn_cont` of its own item is itself.
    rw [onNet_error (hconnect x)]
    rfl

/-- What an endpoint that registers leaves as it is: all endpoints but itself. -/
structure Kept (x : ε) (w w' : Transport ε) : Prop where
  object : ∀ y ≠ x, w'.object y = w.object y
  bound : w'.bound = w.bound
  connected : w'.connected = w.connected
  freed : w'.freed = w.freed
  stopped : w'.stopped = w.stopped
  allocs : w.allocs ≤ w'.allocs

omit [DecidableEq ε] in
theorem Kept.refl : Kept x w w := ⟨fun _ _ => rfl, rfl, rfl, rfl, rfl, Nat.le_refl _⟩

omit [DecidableEq ε] in
theorem Kept.trans {w'' : Transport ε} (h : Kept x w w') (h' : Kept x w' w'') : Kept x w w'' where
  object y hy := (h'.object y hy).trans (h.object y hy)
  bound := h'.bound.trans h.bound
  connected := h'.connected.trans h.connected
  freed := h'.freed.trans h.freed
  stopped := h'.stopped.trans h.stopped
  allocs := Nat.le_trans h.allocs h'.allocs

variable (ep) in
/-- The `CONNECT`s to the endpoint that the sinproc `i` has raised. -/
def pending (w : Transport ε) (i : ℕ) : List (SinprocEvent ℕ ε) :=
  (w.net.eventsto i).filter (IsConnect ep)

variable (ep) in
/-- An endpoint raises `CONNECT` to others. -/
theorem raiseAll_ok (ys : List ε) (h : w.object x = some e) (hs : e.state = .active) :
    ∃ w', ys.foldlM (fun w peer => raiseConnect E w x peer) w = .ok w' ∧ Kept x w w' ∧
      (ep ∉ ys → pending ep w' = pending ep w) := by
  induction ys generalizing w e with
  | nil => exact ⟨w, rfl, .refl, fun _ => rfl⟩
  | cons y ys ih =>
    have hone := raiseConnect_ok (E := E) y h hs
    generalize hn : withNet _ _ = n at hone
    have hkept : Kept x w n := by
      subst hn
      exact ⟨fun y hy => update_of_ne hy _ _, rfl, rfl, rfl, rfl, Nat.le_succ _⟩
    have hobj : n.object x = some { e with sinprocs := e.sinprocs ++ [w.allocs] } := by
      subst hn
      exact update_self _ _ _
    obtain ⟨w', hx, hk, hp⟩ := ih hobj hs
    refine ⟨w', ?_, hkept.trans hk, fun hy => ?_⟩
    · rw [List.foldlM_cons, hone, ok_bind, hx]
    · rw [List.mem_cons, not_or] at hy
      rw [hp hy.2]
      -- The event raised now is for `y`.
      subst hn
      funext i
      by_cases hi : i = w.allocs
      · subst hi
        simp [pending, withNet, Inproc.pushto, newSinproc, Inproc.set, List.filter_append, IsConnect,
          Ne.symm hy.1]
      · simp [pending, withNet, Inproc.pushto, newSinproc, Inproc.set, hi]

/-- What a registration leaves as it is. -/
structure Registers (x : ε) (w w' : Transport ε) : Prop where
  object : ∀ y ≠ x, w'.object y = w.object y
  bound : w'.bound = w.bound ∨ w'.bound = w.bound ++ [x]
  connected : w'.connected = w.connected ∨ w'.connected = w.connected ++ [x]
  freed : w'.freed = w.freed
  stopped : w'.stopped = w.stopped
  allocs : w.allocs ≤ w'.allocs

variable (ep) in
/-- Registering does not fail, and raises `CONNECT` only to endpoints registered. -/
theorem register_ok (kind : EndpointKind) (x : ε) :
    ∃ w', register E w kind x = .ok w' ∧ Registers x w w' ∧
      (¬ Registered ep w → pending ep w' = pending ep w) := by
  let n := w.put x ⟨kind, .active, .active, []⟩
  have hobj : n.object x = some ⟨kind, .active, .active, []⟩ := update_self _ _ _
  have hother : ∀ y ≠ x, n.object y = w.object y := fun y hy => update_of_ne hy _ _
  cases kind with
  | binproc =>
    simp only [register, insBind_eq]
    split
    · -- The address is in use.
      exact ⟨n, rfl, ⟨hother, .inl rfl, .inl rfl, rfl, rfl, Nat.le_refl _⟩, fun _ => rfl⟩
    · obtain ⟨w', hx, hk, hp⟩ := raiseAll_ok (E := E) ep (w.connected.filter (matching E x))
        (w := { n with bound := n.bound ++ [x] }) hobj rfl
      refine ⟨w', ?_, ⟨fun y hy => (hk.object y hy).trans (hother y hy), .inr hk.bound,
        .inl hk.connected, hk.freed, hk.stopped, hk.allocs⟩, fun hr => ?_⟩
      · simp only [n, put] at hx
        simp only [put, hx, ok_bind]
        rfl
      · refine hp fun hm => hr (.inr ?_)
        exact List.mem_of_mem_filter hm
  | cinproc =>
    simp only [register, insConnect_eq]
    obtain ⟨w', hx, hk, hp⟩ := raiseAll_ok (E := E) ep (NnIns.found E x w.bound)
      (w := { n with connected := n.connected ++ [x] }) hobj rfl
    refine ⟨w', hx, ⟨fun y hy => (hk.object y hy).trans (hother y hy), .inl hk.bound,
      .inr hk.connected, hk.freed, hk.stopped, hk.allocs⟩, fun hr => ?_⟩
    refine hp fun hm => hr (.inl ?_)
    simp only [NnIns.found, Option.mem_toList, Option.filter_eq_some_iff] at hm
    exact List.mem_of_find?_eq_some hm.1

/-! ### The endpoint -/

variable (ep) in
/-- The endpoint has been stopped, and has unregistered. -/
structure Late (w : Transport ε) : Prop where
  bound : ep ∉ w.bound
  connected : ep ∉ w.connected
  endpoint : ∃ e, Stopping.Waiting ep w e ∨ Stopping.Done ep w e

omit [DecidableEq ε] in
theorem Begun.registered (h : Begun ep w) : Registered ep w := by
  obtain ⟨e, h, -⟩ := h
  have hr := h.registered
  split at hr
  · exact .inl hr
  · exact .inr hr

theorem Late.not_registered (h : Late ep w) : ¬ Registered ep w :=
  fun hr => hr.elim h.bound h.connected

omit [DecidableEq ε] in
/-- Others register. -/
theorem Begun.register (h : Begun ep w) (hx : x ≠ ep) (hb : x ∉ w.bound) (hc : x ∉ w.connected)
    (hr : Registers x w w') : Begun ep w' := by
  obtain ⟨e, h, hlt⟩ := h
  have hmem {xs ys : List ε} (hy : ys = xs ∨ ys = xs ++ [x]) : ep ∈ ys ↔ ep ∈ xs := by
    rcases hy with rfl | rfl <;> simp [hx.symm]
  have hnodup {xs ys : List ε} (hy : ys = xs ∨ ys = xs ++ [x]) (hn : xs.Nodup) (hxs : x ∉ xs) :
      ys.Nodup := by
    rcases hy with rfl | rfl
    · exact hn
    · simpa [List.nodup_append, hn] using fun y hy => ne_of_mem_of_not_mem hy hxs
  refine ⟨e, ⟨(hr.object ep hx.symm).trans h.object, h.fsm, h.state, h.nodup, ?_, ?_,
    ⟨hnodup hr.bound h.once.1 hb, hnodup hr.connected h.once.2 hc⟩, ?_, ?_⟩, fun i hi => ?_⟩
  · rw [hr.freed]
    exact h.live
  · have := h.registered
    cases hk : e.kind <;> simp only [hk, hmem hr.bound, hmem hr.connected] at this ⊢ <;> exact this
  · have := h.other
    cases hk : e.kind <;> simp only [hk, hmem hr.bound, hmem hr.connected] at this ⊢ <;> exact this
  · rw [hr.stopped]
    exact h.stopped
  · rw [hr.freed] at hi
    exact Nat.lt_of_lt_of_le (hlt i hi) hr.allocs

theorem Late.of_eq (h : Late ep w) (hb : ep ∉ w'.bound) (hc : ep ∉ w'.connected)
    (ho : w'.object ep = w.object ep) (hf : w'.freed = w.freed) (hs : w'.stopped = w.stopped) :
    Late ep w' := by
  obtain ⟨e, hw | hd⟩ := h.endpoint
  · exact ⟨hb, hc, e, .inl ⟨ho.trans hw.object, hw.fsm, hw.state, hw.nodup, by
      rw [hf]; exact hw.live, hw.left, by rw [hs]; exact hw.stopped⟩⟩
  · exact ⟨hb, hc, e, .inr ⟨ho.trans hd.object, hd.fsm, hd.state, hd.none, by
      rw [hs]; exact hd.stopped⟩⟩

theorem Late.register (h : Late ep w) (hx : x ≠ ep) (hr : Registers x w w') : Late ep w' := by
  have hmem {xs ys : List ε} (hy : ys = xs ∨ ys = xs ++ [x]) (hn : ep ∉ xs) : ep ∉ ys := by
    rcases hy with rfl | rfl
    · exact hn
    · simpa [hx.symm] using hn
  exact h.of_eq (hmem hr.bound h.bound) (hmem hr.connected h.connected) (hr.object ep hx.symm)
    hr.freed hr.stopped

/-- A stop that does not fail unregisters the endpoint. -/
theorem Begun.stop (h : Begun ep w) (hx : Stopping.exec E ep w .stop = .ok w') : Late ep w' := by
  obtain ⟨e, h, -⟩ := h
  -- The sinprocs have all been asked, as the stop has not failed.
  have hask : ∃ net, Stopping.askAll e.sinprocs w.net = .ok net := by
    cases ha : Stopping.askAll e.sinprocs w.net with
    | ok net => exact ⟨net, rfl⟩
    | error a =>
      have hnet : (Stopping.unregister e.kind ep (w.put ep { e with fsm := .stopping })).net =
          w.net := by
        cases e.kind <;> rfl
      rw [Stopping.exec, Stopping.stop_eq h.object, onNet_error (by rw [hnet, ha])] at hx
      simp at hx
  obtain ⟨net, ha⟩ := hask
  obtain ⟨w₁, hx₁, hr, hw⟩ := Stopping.stop_right (E := E) h ha
  obtain rfl := Except.ok.inj (hx₁.symm.trans hx)
  refine ⟨by simp [hr.bound], by simp [hr.connected], ?_⟩
  rcases hw with ⟨-, hw⟩ | ⟨-, e', hd⟩
  · exact ⟨_, .inl hw⟩
  · exact ⟨e', .inr hd⟩

/-- An active endpoint frees a sinproc that has stopped, if it does not fail. -/
theorem Begun.stopped (h : Begun ep w) (hx : Stopping.exec E ep w (.stopped w.net i) = .ok w')
    (he : ∃ e, w.object ep = some e ∧ i ∈ e.sinprocs) : Begun ep w' ∧ w'.net = w.net := by
  obtain ⟨e, h, hlt⟩ := h
  obtain ⟨e', ho, hi⟩ := he
  obtain rfl := Option.some.inj (h.object.symm.trans ho)
  have hfeed : Stopping.exec E ep w (.stopped w.net i) = _ :=
    feed_stopped (E := E) (w := w.withNet w.net) h.object (by simp [h.fsm]) h.state hi
  rw [hx] at hfeed
  split at hfeed
  · obtain rfl := Except.ok.inj hfeed
    refine ⟨⟨_, h.of_eq (update_self _ _ _) (h.nodup.erase i) (fun j hj => ?_) rfl rfl rfl,
      fun j hj => ?_⟩, rfl⟩
    · have hj' := h.nodup.mem_erase_iff.1 hj
      simpa [withNet, hj'.1] using h.live j hj'.2
    · simp only [withNet, List.mem_append, List.mem_singleton] at hj
      rcases hj with hj | hj | rfl
      · exact hlt j (.inl (List.mem_of_mem_erase hj))
      · exact hlt j (.inr hj)
      · exact hlt j (.inl hi)
  · simp [fail] at hfeed

theorem Late.stopped (h : Late ep w) (hx : Stopping.exec E ep w (.stopped w.net i) = .ok w')
    (he : ∃ e, w.object ep = some e ∧ i ∈ e.sinprocs) : Late ep w' ∧ w'.net = w.net := by
  obtain ⟨e', ho, hi⟩ := he
  obtain ⟨e, hw | hd⟩ := h.endpoint
  · obtain rfl := Option.some.inj (hw.object.symm.trans ho)
    cases hk : e.kind with
    | binproc =>
      obtain ⟨w₁, hx₁, hr, hn⟩ := Stopping.stopped_right (E := E) w.net hw hk hi
      obtain rfl := Except.ok.inj (hx₁.symm.trans hx)
      refine ⟨⟨hr.bound ▸ h.bound, hr.connected ▸ h.connected, ?_⟩, hr.net⟩
      rcases hn with hw' | ⟨e', hd⟩
      · exact ⟨_, .inl hw'⟩
      · exact ⟨e', .inr hd⟩
    | cinproc =>
      obtain ⟨a, ha⟩ := Stopping.stopped_fails (E := E) w.net i hw hk
      exact absurd (hx.symm.trans ha) (by simp)
  · obtain rfl := Option.some.inj (hd.object.symm.trans ho)
    simp [hd.none] at hi

/-- It is not stopped again. -/
theorem Late.not_enabled (h : Late ep w) : ¬ enabled ep w .stop := by
  obtain ⟨e, hw | hd⟩ := h.endpoint
  · exact hw.not_enabled
  · exact hd.not_enabled (a := .stop)

/-! ### Delivering -/

/-- What delivering a `CONNECT` is. -/
theorem deliver_eq (he : enabled ep w (.deliver i)) : ∃ event l, w.net.eventsto i = event :: l ∧
    exec E ep w (.deliver i) =
      (w.withNet (w.net.popto i event)).feed E ep srcPeer typeConnect (some event.srcptr) := by
  obtain ⟨event, l, hev, hf, hs, ht⟩ := he
  refine ⟨event, l, hev, ?_⟩
  simp only [exec, deliver, hev, process, hf, hs, ht]

/-- An active endpoint accepts. -/
theorem Begun.deliver (h : Begun ep w) (he : enabled ep w (.deliver i)) :
    ∃ w', exec E ep w (.deliver i) = .ok w' ∧ Begun ep w' ∧ w'.freed = w.freed ∧
      Stopping.sinprocs ep w ⊆ Stopping.sinprocs ep w' := by
  obtain ⟨e, h, hlt⟩ := h
  obtain ⟨event, l, -, hx⟩ := deliver_eq (E := E) he
  obtain ⟨w', hw', hacc⟩ := feed_connect_accepts (E := E) event.srcptr
    (w := w.withNet (w.net.popto i event)) h.object (by simp [h.fsm]) h.state
  obtain ⟨hactive, hlt'⟩ := hacc.active (h.of_eq h.object h.nodup h.live rfl rfl rfl) hlt
  refine ⟨w', hx.trans hw', ⟨_, hactive, hlt'⟩, hacc.freed, ?_⟩
  rw [Stopping.sinprocs_eq h.object, Stopping.sinprocs_eq hactive.object]
  exact List.subset_append_left _ _

/-- One that has been stopped fails. -/
theorem Late.deliver (h : Late ep w) (he : enabled ep w (.deliver i)) :
    ∃ a, exec E ep w (.deliver i) = .error a := by
  obtain ⟨event, l, -, hx⟩ := deliver_eq (E := E) he
  rw [hx]
  have hstop : ¬ (srcPeer = Fsm.action ∧ typeConnect = Fsm.stop) := by decide
  have hsrc : ¬ (srcPeer = srcSinproc ∧ typeConnect = typeStopped) := by decide
  have haction : ¬ srcPeer = Fsm.action := by decide
  generalize hn : w.withNet (w.net.popto i event) = n
  have hobj : n.object = w.object := by subst hn; rfl
  obtain ⟨e, hw | hd⟩ := h.endpoint
  · -- It waits for its sinprocs.
    have ho : n.object ep = some e := by rw [hobj, hw.object]
    cases hk : e.kind
    · refine ⟨⟨.assertion, n⟩, ?_⟩
      simp only [feed, endpoint_ok ho, ok_bind, hk, hw.fsm, Fsm.feed_stopping, binprocShutdown,
        if_neg hstop, decide_eq_false hsrc]
      rfl
    · refine ⟨⟨.wildPointer, n⟩, ?_⟩
      simp only [feed, endpoint_ok ho, ok_bind, hk, hw.fsm, Fsm.feed_stopping, cinprocShutdown,
        if_neg hstop]
      rfl
  · -- It has stopped.
    have ho : n.object ep = some e := by rw [hobj, hd.object]
    refine ⟨⟨.badSource, n⟩, ?_⟩
    cases hk : e.kind <;>
      simp [feed, endpoint_ok ho, hk, hd.fsm, Fsm.feed_of_ne, binprocHandler, cinprocHandler, hd.state,
        haction, fail]

/-! ### Runs -/

theorem Begun.step {a : RaceAction ε} (h : Begun ep w) (he : enabled ep w a)
    (hx : exec E ep w a = .ok w') : Begun ep w' ∨ Late ep w' := by
  cases a with
  | register kind x =>
    obtain ⟨w₁, hx₁, hr, -⟩ := register_ok (E := E) ep (w := w) kind x
    obtain rfl := Except.ok.inj (hx₁.symm.trans hx)
    exact .inl (h.register he.1 he.2.1 he.2.2 hr)
  | stop => exact .inr (h.stop hx)
  | stopped i => exact .inl (h.stopped hx he).1
  | deliver i =>
    obtain ⟨w₁, hx₁, h', -⟩ := h.deliver (E := E) he
    obtain rfl := Except.ok.inj (hx₁.symm.trans hx)
    exact .inl h'
  | sinprocs net =>
    obtain rfl := Except.ok.inj hx
    obtain ⟨e, ha, hlt⟩ := h
    exact .inl ⟨e, ha.of_eq ha.object ha.nodup ha.live rfl rfl rfl, hlt⟩

theorem Late.step {a : RaceAction ε} (h : Late ep w) (he : enabled ep w a)
    (hx : exec E ep w a = .ok w') : Late ep w' := by
  cases a with
  | register kind x =>
    obtain ⟨w₁, hx₁, hr, -⟩ := register_ok (E := E) ep (w := w) kind x
    obtain rfl := Except.ok.inj (hx₁.symm.trans hx)
    exact h.register he.1 hr
  | stop => exact absurd he h.not_enabled
  | stopped i => exact (h.stopped hx he).1
  | deliver i =>
    obtain ⟨a, ha⟩ := h.deliver (E := E) he
    exact absurd (hx.symm.trans ha) (by simp)
  | sinprocs net =>
    obtain rfl := Except.ok.inj hx
    exact h.of_eq h.bound h.connected rfl rfl rfl

/-- Every `CONNECT` of a run is handled if and only if each of them is delivered
    before the endpoint unregisters. -/
theorem safe_iff (h : Begun ep w) (as : List (RaceAction ε)) : Safe E ep w as ↔ InTime E ep w as := by
  refine System.meets_congr (I := fun w => Begun ep w ∨ Late ep w)
    (fun w a w' h he hx => h.elim (fun h => h.step he hx) fun h => .inr (h.step he hx))
    (fun w a h he => ?_) (.inl h) as
  refine forall_congr' fun i => forall_congr' fun ha => ?_
  subst ha
  rcases h with h | h
  · -- It is still registered, and accepts.
    obtain ⟨w', hx, -, hf, hs⟩ := h.deliver (E := E) he
    refine iff_of_true ⟨⟨w', hx, hf, hs⟩, ?_⟩ h.registered
    obtain ⟨e, ha, -⟩ := h
    exact ha.stopped
  · -- It is not any more, and fails.
    obtain ⟨a, ha⟩ := h.deliver (E := E) he
    refine iff_of_false (fun hh => ?_) h.not_registered
    obtain ⟨⟨w', hx, -⟩, -⟩ := hh
    exact absurd (hx.symm.trans ha) (by simp)

theorem not_enabled_of_pending (hn : ∀ i, pending ep w i = []) : ¬ enabled ep w (.deliver i) := by
  rintro ⟨event, l, hev, hc⟩
  have hnone := List.filter_eq_nil_iff.1 (hn i) event (by simp [hev])
  exact hnone (decide_eq_true hc)

/-- What is delivered late has been raised before the endpoint unregistered: an
    endpoint that has no `CONNECT` pending by then is delivered none. -/
theorem none_delivered (h : Late ep w) (hn : ∀ i, pending ep w i = []) (as : List (RaceAction ε)) :
    (system E ep).Meets (fun _ a => ∀ i, a ≠ .deliver i) w as := by
  refine System.meets_of_inv (I := fun w => Late ep w ∧ ∀ i, pending ep w i = [])
    (fun w a w' ⟨h, hn⟩ he hx => ?_) (fun w a ⟨h, hn⟩ he i ha => ?_) ⟨h, hn⟩ as
  · refine ⟨h.step he hx, ?_⟩
    cases a with
    | register kind x =>
      obtain ⟨w₁, hx₁, -, hp⟩ := register_ok (E := E) ep (w := w) kind x
      obtain rfl := Except.ok.inj (hx₁.symm.trans hx)
      rw [hp h.not_registered]
      exact hn
    | stop => exact absurd he h.not_enabled
    | stopped i => simpa [pending, (h.stopped hx he).2] using hn
    | deliver i => exact absurd he (not_enabled_of_pending hn)
    | sinprocs net =>
      obtain rfl := Except.ok.inj hx
      exact fun i => (he i).trans (hn i)
  · subst ha
    exact not_enabled_of_pending hn he

theorem connectedEp_begun (kind : EndpointKind) : Begun 0 (Stopping.connectedEp kind) :=
  ⟨_, Stopping.connectedEp_active kind, by simp [Stopping.connectedEp]⟩

theorem safe_iff_binproc :
    Safe Stopping.oneAddr 0 (Stopping.connectedEp .binproc) [.register .cinproc 1, .deliver 2, .stop] ↔
      InTime Stopping.oneAddr 0 (Stopping.connectedEp .binproc)
        [.register .cinproc 1, .deliver 2, .stop] :=
  safe_iff (connectedEp_begun .binproc) _

/-- A `CONNECT` that comes while a binding endpoint waits for its sinprocs fails. -/
theorem connect_late : ¬ ∀ (w : Transport ℕ), Begun 0 w → ∀ as, Safe Stopping.oneAddr 0 w as := by
  intro h
  -- The endpoint 1 registers and raises `CONNECT` from its sinproc 2; the endpoint 0 is stopped.
  obtain ⟨-, h₁⟩ := h _ (connectedEp_begun .binproc) [.register .cinproc 1, .stop, .deliver 2]
    ⟨by decide, by decide, by decide⟩
  obtain ⟨-, h₂⟩ := h₁ _ rfl ⟨_, rfl, rfl⟩
  obtain ⟨hsafe, -⟩ := h₂ _ rfl ⟨_, _, rfl, rfl, rfl, rfl⟩
  obtain ⟨⟨w', hx, -⟩, -⟩ := hsafe 2 rfl
  have herror : (.error ⟨.assertion, _⟩ : Except (Abort (Transport ℕ)) (Transport ℕ)) = .ok w' := hx
  simp at herror

end Racing

end Transport

end Nanomsg
