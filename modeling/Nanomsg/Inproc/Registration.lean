import Nanomsg.Inproc.Endpoint
import Nanomsg.Inproc.Steps

/-!
# Registering

What the registration of an endpoint raises. A binding and a connecting endpoint
at one address should be joined by whichever registers second, which makes a
sinproc and raises `CONNECT` to the first one (`Transport.Joined`).

`joined_iff`: so it is if the binding endpoint is the second and the other one
the first of those connecting there. A connecting endpoint raises `CONNECT` to
itself, and the first `CONNECT` raised is the last, as `nn_sinproc_connect` aborts.
-/

namespace Nanomsg

open Function Sinproc

namespace Transport

variable {ε : Type} {E : Eps ε} {w : Transport ε} {self peer : ε}

/-- Where a call ends, if only by aborting. -/
def after {α : Type} : Except (Abort (Transport ε)) (Transport ε × α) → Transport ε
  | .ok (w, _) => w
  | .error a => a.state

/-- The events raised since the state `w`. -/
def raisedSince (w w' : Transport ε) : List (SinprocEvent ℕ ε) :=
  w'.net.raised.drop w.net.raised.length

/-- `event` is a `CONNECT` of a sinproc of `e` to the machine of `e'`. -/
def Connects (w : Transport ε) (e e' : ε) (event : SinprocEvent ℕ ε) : Prop :=
  event.src = srcPeer ∧ event.type = typeConnect ∧ event.fsm = .ep e' ∧
    (w.net.sinproc event.srcptr).owner = e

/-- Between `w` and `w'`, exactly one `CONNECT` for `second` and `first` has been
    raised, by the former to the latter, and none by an endpoint to itself. -/
structure Joined (w w' : Transport ε) (second first : ε) : Prop where
  one : ∃ l event l', raisedSince w w' = l ++ event :: l' ∧ Connects w' second first event ∧
    ∀ x ∈ l ++ l', ¬ Connects w' second first x ∧ ¬ Connects w' first second x
  self : ∀ x ∈ raisedSince w w', ∀ e, ¬ Connects w' e e x

/-- `citem` is one that `nn_ins_bind` calls back for. -/
def matching (E : Eps ε) (item citem : ε) : Bool := sameAddr E item citem && E.ispeer item citem

/-! ### Loops -/

/-- `nn_ins_bind` calls back for the first one that matches, where it aborts. -/
theorem bindLoop_some {fn : InsFn ε} {cs : List ε} {a : Abort (Transport ε)}
    (h : cs.find? (matching E self) = some peer) (hfn : fn w self peer = .error a) :
    bindLoop E fn self cs w = .error a := by
  induction cs with
  | nil => simp at h
  | cons c cs ih =>
    rw [List.find?_cons] at h
    rw [bindLoop]
    cases hm : matching E self c with
    | true =>
      rw [hm] at h
      obtain rfl := Option.some.inj h
      rw [matching, Bool.and_eq_true] at hm
      simp [hm, hfn]
    | false =>
      rw [hm] at h
      split
      · rename_i ha
        rw [if_pos (by simpa [matching, ha] using hm)]
        exact ih h
      · exact ih h

/-- `nn_ins_connect` calls back once at most. -/
theorem connectLoop_cases (self : ε) (fn : InsFn ε) (bs : List ε) :
    connectLoop E fn self bs w = .ok w ∨ ∃ b, connectLoop E fn self bs w = fn w self b := by
  induction bs with
  | nil => exact .inl rfl
  | cons b bs ih =>
    rw [connectLoop]
    split
    · split
      · exact .inl rfl
      · exact .inr ⟨b, rfl⟩
    · exact ih

/-! ### Joining -/

/-- Only one event has been raised since `w`: a `CONNECT` of `self` to `peer`. -/
def RaisedTo (w w' : Transport ε) (self peer : ε) : Prop :=
  ∃ event, raisedSince w w' = [event] ∧ event.type = typeConnect ∧ event.src = srcPeer ∧
    event.fsm = .ep peer ∧ (w'.net.sinproc event.srcptr).owner = self

theorem joined_of_raisedTo {w' : Transport ε} {second first : ε} (hne : second ≠ first)
    (h : RaisedTo w w' second first) : Joined w w' second first := by
  obtain ⟨event, hnew, htype, hsrc, hfsm, howner⟩ := h
  refine ⟨⟨[], event, [], hnew, ⟨hsrc, htype, hfsm, howner⟩, by simp⟩, ?_⟩
  rw [hnew]
  rintro x hx e ⟨-, -, hf, ho⟩
  obtain rfl := List.mem_singleton.1 hx
  exact hne (howner.symm.trans (ho.trans (Machine.ep.inj (hf.symm.trans hfsm))))

theorem not_joined_of_raisedTo {w' : Transport ε} {second first : ε} (hne : peer ≠ first)
    (h : RaisedTo w w' self peer) : ¬ Joined w w' second first := by
  obtain ⟨event, hnew, -, -, hfsm, -⟩ := h
  rintro ⟨⟨l, x, l', hl, ⟨-, -, hf, -⟩, -⟩, -⟩
  have hx : x ∈ raisedSince w w' := by simp [hl]
  rw [hnew, List.mem_singleton] at hx
  exact hne (Machine.ep.inj (hfsm.symm.trans (hx ▸ hf)))

theorem not_joined_of_raised {w' : Transport ε} {second first : ε}
    (h : w'.net.raised = w.net.raised) : ¬ Joined w w' second first := by
  rintro ⟨⟨l, x, l', hl, -⟩, -⟩
  simp [raisedSince, h] at hl

/-! ### Callbacks -/

variable [DecidableEq ε]

variable (self peer) in
/-- A new sinproc raises `CONNECT` and aborts. -/
theorem onNet_connect (e : Endpoint) (n : Transport ε) (hn : n.net.raised = w.net.raised) :
    ∃ a, ((n.newSinproc E self e).onNet fun net => net.connect n.allocs 0 peer) = .error a ∧
      RaisedTo w a.state self peer := by
  have hnew : (n.newSinproc E self e).net.sinproc n.allocs =
      Sinproc.init srcSinproc self (E.rcvbuf self) E.memory := by simp [newSinproc]
  have hconnect : (n.newSinproc E self e).net.connect n.allocs 0 peer = _ :=
    Inproc.connect_badAction (by rw [hnew]; rfl) (by rw [hnew]; rfl) (by simp [newSinproc])
  refine ⟨_, onNet_error hconnect, ⟨(n.allocs, .connect), .ep peer, srcPeer, typeConnect, n.allocs⟩,
    ?_, rfl, rfl, rfl, ?_⟩
  · simp [raisedSince, withNet, Inproc.pushto, Inproc.set, newSinproc, hn]
  · simp [withNet, hnew, Sinproc.init]

variable (self peer) in
theorem binprocConnect_aborts {e : Endpoint} {n : Transport ε} (hn : n.net.raised = w.net.raised)
    (he : n.object self = some e) (hs : e.state = .active) :
    ∃ a, binprocConnect E n self peer = .error a ∧ RaisedTo w a.state self peer := by
  obtain ⟨a, ha, hr⟩ := onNet_connect (E := E) self peer e n hn
  exact ⟨a, by simp [binprocConnect, endpoint, he, check, hs, ha], hr⟩

variable (self peer) in
/-- The event goes to the endpoint itself. -/
theorem cinprocConnect_aborts {e : Endpoint} {n : Transport ε} (hn : n.net.raised = w.net.raised)
    (he : n.object self = some e) (hs : e.state = .active) :
    ∃ a, cinprocConnect E n self peer = .error a ∧ RaisedTo w a.state self self := by
  obtain ⟨a, ha, hr⟩ := onNet_connect (E := E) self self e n hn
  exact ⟨a, by simp [cinprocConnect, endpoint, he, check, hs, ha], hr⟩

/-- Starting the machine of an endpoint just made. -/
theorem fsmStart_ok {kind : EndpointKind} :
    (w.put self ⟨kind, .idle, .idle, []⟩).fsmStart E self =
      .ok (w.put self ⟨kind, .active, .active, []⟩) := by
  cases kind <;>
    simp [fsmStart, feed, endpoint, put, Fsm.feed, binprocHandler, cinprocHandler]

/-! ### Creating endpoints -/

/-- Creating an endpoint. -/
def create (E : Eps ε) (w : Transport ε) (ep : ε) :
    EndpointKind → Except (Abort (Transport ε)) (Transport ε × ℤ)
  | .binproc => w.binprocCreate E ep
  | .cinproc => w.cinprocCreate E ep

/-- The endpoint `first` is registered, `second` is to be created as one of the
    other kind, and each is what the other one looks for. -/
structure Counterparts (E : Eps ε) (w : Transport ε) (kind : EndpointKind) (second first : ε) :
    Prop where
  ne : second ≠ first
  registered : first ∈ match kind with
    | .binproc => w.connected
    | .cinproc => w.bound
  addr : sameAddr E second first = true
  ispeer : E.ispeer second first = true
  ispeer' : E.ispeer first second = true
  /-- The address can be bound to. -/
  free : kind = .binproc → ∀ e ∈ w.bound, sameAddr E e second = false

/-- The registration of the second of two endpoints joins them if and only if it
    is the one that binds, and the other one is the first that it looks for. -/
theorem joined_iff {kind : EndpointKind} {second first : ε} (h : Counterparts E w kind second first) :
    Joined w (after (create E w second kind)) second first ↔
      kind = .binproc ∧ w.connected.find? (matching E second) = some first := by
  cases kind with
  | binproc =>
    have hfree : (w.bound.any fun e => sameAddr E e second) = false := by
      simpa using h.free rfl
    have hcreate : create E w second .binproc = (do
        let n ← bindLoop E (binprocConnect E) second w.connected
          { w.put second ⟨.binproc, .active, .active, []⟩ with bound := w.bound ++ [second] }
        pure (n, 0)) := by
      simp only [create, binprocCreate, fsmStart_ok, ok_bind, insBind]
      rw [if_neg (by simpa [put] using hfree)]
      simp only [put]
      cases bindLoop E (binprocConnect E) second w.connected _ <;> rfl
    obtain ⟨c, hc⟩ : ∃ c, w.connected.find? (matching E second) = some c :=
      Option.isSome_iff_exists.1 (List.find?_isSome.2 ⟨first, h.registered, by
        simp [matching, h.addr, h.ispeer]⟩)
    obtain ⟨a, ha, hr⟩ := binprocConnect_aborts (w := w) (E := E) second c
      (n := { w.put second ⟨.binproc, .active, .active, []⟩ with bound := w.bound ++ [second] })
      rfl (update_self _ _ _) rfl
    rw [hcreate, bindLoop_some hc ha, hc]
    simp only [error_bind, after, true_and, Option.some.injEq]
    constructor
    · intro hj
      by_contra hne
      exact not_joined_of_raisedTo hne hr hj
    · rintro rfl
      exact joined_of_raisedTo h.ne hr
  | cinproc =>
    simp only [reduceCtorEq, false_and, iff_false]
    have hcreate : create E w second .cinproc = (do
        let n ← connectLoop E (cinprocConnect E) second w.bound
          { (w.statIncrement second .inprogressConnections 1).put second
            ⟨.cinproc, .active, .active, []⟩ with connected := w.connected ++ [second] }
        pure (n, 0)) := by
      have hstart : ((w.put second ⟨.cinproc, .idle, .idle, []⟩).statIncrement second
          .inprogressConnections 1).fsmStart E second =
            .ok ((w.statIncrement second .inprogressConnections 1).put second
              ⟨.cinproc, .active, .active, []⟩) :=
        fsmStart_ok (w := w.statIncrement second .inprogressConnections 1)
      simp only [create, cinprocCreate, hstart, ok_bind]
      rfl
    rw [hcreate]
    rcases connectLoop_cases (E := E) second (cinprocConnect E) w.bound with
      hok | ⟨b, hb⟩
    · rw [hok]
      exact not_joined_of_raised rfl
    · obtain ⟨a, ha, hr⟩ := cinprocConnect_aborts (w := w) (E := E) second b
        (n := { (w.statIncrement second .inprogressConnections 1).put second
          ⟨.cinproc, .active, .active, []⟩ with connected := w.connected ++ [second] })
        rfl (update_self _ _ _) rfl
      rw [hb, ha]
      exact not_joined_of_raisedTo h.ne hr

/-! ### Two endpoints -/

/-- Endpoints that all have one address and compatible protocols. -/
def twoEps : Eps ℕ := ⟨fun _ => [97], fun _ => 1, fun _ _ => true, fun _ => Message.empty⟩

/-- Nothing is registered but the endpoints `bound` and `connected`. -/
def registry (bound connected : List ℕ) : Transport ℕ where
  net :=
    { sinproc := fun _ => Sinproc.init srcSinproc 0 1 fun _ => Message.empty
      eventsto := fun _ => []
      events := fun _ => []
      queued := fun _ => false
      stops := fun _ => 0
      raised := [] }
  allocs := 0
  freed := []
  object := fun e =>
    if e ∈ bound then some ⟨.binproc, .active, .active, []⟩
    else if e ∈ connected then some ⟨.cinproc, .active, .active, []⟩ else none
  bound := bound
  connected := connected
  stats := []
  stopped := []

theorem joined_iff_binproc :
    Joined (registry [] [1]) (after (create twoEps (registry [] [1]) 0 .binproc)) 0 1 ↔
      EndpointKind.binproc = .binproc ∧
        (registry [] [1]).connected.find? (matching twoEps 0) = some 1 :=
  joined_iff ⟨by decide, by decide, by decide, rfl, rfl, by decide⟩

/-- A connecting endpoint that registers second is not joined to the first. -/
theorem cinproc_not_joined :
    Counterparts twoEps (registry [0] []) .cinproc 1 0 ∧
      ¬ Joined (registry [0] []) (after (create twoEps (registry [0] []) 1 .cinproc)) 1 0 := by
  refine ⟨⟨by decide, by decide, by decide, rfl, rfl, by decide⟩, fun h => ?_⟩
  have hraised : raisedSince (registry [0] []) (after (create twoEps (registry [0] []) 1 .cinproc)) =
      [⟨(0, .connect), .ep 1, srcPeer, typeConnect, 0⟩] := rfl
  have hself := h.self _ (by rw [hraised]; exact List.mem_singleton_self _) 1
  exact hself ⟨rfl, rfl, rfl, rfl⟩

end Transport

end Nanomsg
