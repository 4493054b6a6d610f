import Nanomsg.Inproc.Asking
import Nanomsg.Inproc.Endpoint
import Nanomsg.Lib.System

/-!
# Stopping endpoints

An endpoint that is stopped unregisters, asks its sinprocs to stop, frees each
of them when it says that it has, and says so itself after the last one.

`stops_iff`: a binding endpoint does so, whatever order its sinprocs stop in. A
connecting one that has sinprocs does not: its shutdown handler takes the
sinproc to free from a variable that it has not assigned.
-/

namespace Nanomsg

open Function Transition Sinproc

/-- What happens to an endpoint that is stopped. -/
inductive StopAction (ε : Type)
  | stop
  /-- The sinprocs have come to be `net`, and `STOPPED` of the sinproc `i` is delivered. -/
  | stopped (net : Inproc ℕ ε) (i : ℕ)

namespace Transport

variable {ε : Type} [DecidableEq ε] (E : Eps ε) (ep : ε)

/-- `nn_binproc_stop` and `nn_cinproc_stop`. -/
def stop (w : Transport ε) : Except (Abort (Transport ε)) (Transport ε) := do
  let e ← w.endpoint ep
  (w.put ep { e with fsm := .stopping }).feed E ep Fsm.action Fsm.stop none

/-- `STOPPED` of a sinproc of the endpoint. -/
def stoppedEvent (i : ℕ) : SinprocEvent ℕ ε := ⟨(i, .stopped), .ep ep, srcSinproc, typeStopped, i⟩

namespace Stopping

/-- The endpoint is stopped while it is active, and hears of sinprocs it has. -/
def enabled (w : Transport ε) : StopAction ε → Prop
  | .stop => ∃ e, w.object ep = some e ∧ e.fsm = .active
  | .stopped _ i => ∃ e, w.object ep = some e ∧ e.fsm = .stopping ∧ i ∈ e.sinprocs

def exec (w : Transport ε) : StopAction ε → Except (Abort (Transport ε)) (Transport ε)
  | .stop => w.stop E ep
  | .stopped net i => (w.withNet net).process E 0 (stoppedEvent ep i)

/-- An active endpoint is registered, and its sinprocs are not freed. -/
structure Active (w : Transport ε) (e : Endpoint) : Prop where
  object : w.object ep = some e
  fsm : e.fsm = .active
  state : e.state = .active
  nodup : e.sinprocs.Nodup
  live : ∀ i ∈ e.sinprocs, i ∉ w.freed
  registered : ep ∈ match e.kind with
    | .binproc => w.bound
    | .cinproc => w.connected
  once : w.bound.Nodup ∧ w.connected.Nodup
  other : ep ∉ match e.kind with
    | .binproc => w.connected
    | .cinproc => w.bound
  stopped : ep ∉ w.stopped

/-- The runs of an endpoint that is stopped. -/
def system : System (Transport ε) (StopAction ε) (Abort (Transport ε)) where
  init w := ∃ e, Active ep w e
  enabled := enabled ep
  exec := exec E ep

/-- `nn_sinproc_stop` of each of some sinprocs. -/
def askAll (is : List ℕ) (net : Inproc ℕ ε) : Except (Abort (Inproc ℕ ε)) (Inproc ℕ ε) :=
  is.foldlM (fun net i => net.stop i) net

/-- The sinprocs of the endpoint. -/
def sinprocs (w : Transport ε) : List ℕ := ((w.object ep).map Endpoint.sinprocs).getD []

/-- `nn_ep_stopped` is called if the endpoint has no sinprocs left. -/
def reported (w : Transport ε) : List ε := if sinprocs ep w = [] then [ep] else []

/-- A stop unregisters the endpoint and asks each of its sinprocs to stop, and
    changes no other endpoint. -/
structure StopRight (w w' : Transport ε) : Prop where
  bound : w'.bound = w.bound.filter (· != ep)
  connected : w'.connected = w.connected.filter (· != ep)
  asked : askAll (sinprocs ep w) w.net = .ok w'.net
  sinprocs : sinprocs ep w' = sinprocs ep w
  freed : w'.freed = w.freed
  stopped : w'.stopped = w.stopped ++ reported ep w'
  others : ∀ x ≠ ep, w'.object x = w.object x

/-- `STOPPED` of the sinproc `i`: it is erased and freed, and nothing else happens
    but that `nn_ep_stopped` is called after the last one. -/
structure StoppedRight (w : Transport ε) (net : Inproc ℕ ε) (i : ℕ) (w' : Transport ε) : Prop where
  sinprocs : sinprocs ep w' = (sinprocs ep w).erase i
  freed : w'.freed = w.freed ++ [i]
  stopped : w'.stopped = w.stopped ++ reported ep w'
  others : ∀ x ≠ ep, w'.object x = w.object x
  bound : w'.bound = w.bound
  connected : w'.connected = w.connected
  net : w'.net = net

/-- What an action does. -/
def Step (w : Transport ε) : StopAction ε → Transport ε → Prop
  | .stop, w' => StopRight ep w w'
  | .stopped net i, w' => StoppedRight ep w net i w'

/-- The sinprocs left are not freed, and `nn_ep_stopped` has been called once if
    there are none and the endpoint has been stopped, and else not. -/
structure Right (w : Transport ε) : Prop where
  live : ∀ i ∈ sinprocs ep w, i ∉ w.freed
  once : ∃ e, w.object ep = some e ∧
    w.stopped.count ep = if e.fsm ≠ .active ∧ e.sinprocs = [] then 1 else 0

/-- However the sinprocs stop, the endpoint stops as it should. -/
def Stops (w : Transport ε) : Prop := ∀ as, (system E ep).Correct (Right ep) (Step ep) w as

variable {E ep} {w n : Transport ε} {e : Endpoint} {net : Inproc ℕ ε} {i : ℕ}

omit [DecidableEq ε] in
/-- An active endpoint is active with other sinprocs. -/
theorem Active.of_eq (h : Active ep w e) {is : List ℕ}
    (ho : n.object ep = some { e with sinprocs := is }) (hn : is.Nodup) (hl : ∀ i ∈ is, i ∉ n.freed)
    (hb : n.bound = w.bound) (hc : n.connected = w.connected) (hs : n.stopped = w.stopped) :
    Active ep n { e with sinprocs := is } where
  object := ho
  fsm := h.fsm
  state := h.state
  nodup := hn
  live := hl
  registered := by rw [hb, hc]; exact h.registered
  once := by rw [hb, hc]; exact h.once
  other := by rw [hb, hc]; exact h.other
  stopped := hs ▸ h.stopped

/-! ### The end of a shutdown -/

omit [DecidableEq ε] in
theorem sinprocs_eq (h : w.object ep = some e) : sinprocs ep w = e.sinprocs := by
  simp [sinprocs, h]

/-- What is left of an endpoint after a shutdown handler. -/
def left (e : Endpoint) : Endpoint := if e.sinprocs ≠ [] then e else { e with fsm := .idle, state := .idle }

theorem left_sinprocs : (left e).sinprocs = e.sinprocs := by
  unfold left
  split <;> rfl

theorem finish_eq : n.finish ep e =
    { n with
      object := update n.object ep (some (left e))
      stopped := n.stopped ++ if e.sinprocs = [] then [ep] else [] } := by
  unfold finish left
  split <;> simp_all [put]

omit [DecidableEq ε] in
/-- Asking all the sinprocs of an endpoint changes only them. -/
theorem stopSinprocs_eq (is : List ℕ) : stopSinprocs is w = w.onNet (askAll is) := by
  induction is generalizing w with
  | nil => rfl
  | cons i is ih =>
    rw [stopSinprocs]
    cases hi : w.net.stop i with
    -- The first one cannot be asked.
    | error a =>
      have hall : askAll (i :: is) w.net = .error a := by simp [askAll, hi]
      rw [onNet_error (f := askAll (i :: is)) hall, onNet_error (f := fun net => net.stop i) hi]
      rfl
    | ok net =>
      have hall : askAll (i :: is) w.net = askAll is net := by simp [askAll, hi]
      rw [onNet_ok (f := fun net => net.stop i) hi, ok_bind, ih]
      unfold onNet
      rw [hall]
      rfl

omit [DecidableEq ε] in
/-- All of them can be asked if each one can after those before it. -/
theorem askAll_iff {is : List ℕ} (hn : is.Nodup) :
    (∃ n, askAll is net = .ok n) ↔ ∀ as i bs, is = as ++ i :: bs → net.MayStop as i :=
  Inproc.stopAll_iff hn

/-! ### The stop -/

/-- The registry without the endpoint. -/
def unregister (kind : EndpointKind) (ep : ε) (w : Transport ε) : Transport ε :=
  match kind with
  | .binproc => w.insUnbind ep
  | .cinproc => w.insDisconnect ep

/-- The endpoint asks its sinprocs to stop, and has stopped if there are none. -/
theorem stop_eq (h : w.object ep = some e) : w.stop E ep = (do
    let n ← (unregister e.kind ep (w.put ep { e with fsm := .stopping })).onNet (askAll e.sinprocs)
    pure (n.finish ep { e with fsm := .stopping, state := .stopping })) := by
  obtain ⟨kind, fsm, state, is⟩ := e
  cases kind <;>
    simp only [stop, endpoint_ok h, ok_bind, feed, endpoint_put, Fsm.feed_stopping, binprocShutdown,
      cinprocShutdown, and_self, if_true, stopSinprocs_eq, unregister]

variable (ep) in
/-- An endpoint that has been stopped waits for its sinprocs. -/
structure Waiting (w : Transport ε) (e : Endpoint) : Prop where
  object : w.object ep = some e
  fsm : e.fsm = .stopping
  state : e.state = .stopping
  nodup : e.sinprocs.Nodup
  live : ∀ i ∈ e.sinprocs, i ∉ w.freed
  left : e.sinprocs ≠ []
  stopped : ep ∉ w.stopped

variable (ep) in
/-- It has stopped. -/
structure Done (w : Transport ε) (e : Endpoint) : Prop where
  object : w.object ep = some e
  fsm : e.fsm = .idle
  state : e.state = .idle
  none : e.sinprocs = []
  stopped : w.stopped.count ep = 1

/-- What a shutdown handler leaves: the endpoint waits for its sinprocs, or has
    stopped. -/
theorem finish_cases (hf : e.fsm = .stopping) (hs : e.state = .stopping) (hn : e.sinprocs.Nodup)
    (hl : ∀ i ∈ e.sinprocs, i ∉ n.freed) (hst : ep ∉ n.stopped) :
    e.sinprocs ≠ [] ∧ Waiting ep (n.finish ep e) e ∨
      e.sinprocs = [] ∧ ∃ e', Done ep (n.finish ep e) e' := by
  rw [finish_eq]
  by_cases hnil : e.sinprocs = []
  · refine .inr ⟨hnil, left e, by simp, ?_, ?_, left_sinprocs.trans hnil, ?_⟩
    · simp [left, hnil]
    · simp [left, hnil]
    · simp [hnil, List.count_eq_zero_of_not_mem hst]
  · refine .inl ⟨hnil, ?_, hf, hs, hn, hl, hnil, by simpa [hnil] using hst⟩
    simp [left, hnil]

/-- What is registered once the endpoint is not. -/
theorem unregister_eq (h : Active ep w e) (hb : n.bound = w.bound) (hc : n.connected = w.connected) :
    unregister e.kind ep n = { n with
      bound := w.bound.filter (· != ep), connected := w.connected.filter (· != ep) } := by
  have hkeep : ∀ {xs : List ε}, ep ∉ xs → xs.filter (· != ep) = xs := fun hx =>
    List.filter_eq_self.2 fun y hy => by simpa using fun he : y = ep => hx (he ▸ hy)
  cases hk : e.kind with
  | binproc =>
    have hother : ep ∉ n.connected := by simpa [hk, hc] using h.other
    simp only [unregister, insUnbind, hb, h.once.1.erase_eq_filter, ← hc, hkeep hother]
  | cinproc =>
    have hother : ep ∉ n.bound := by simpa [hk, hb] using h.other
    simp only [unregister, insDisconnect, hc, h.once.2.erase_eq_filter, ← hb, hkeep hother]

/-- A stop does what it should if the sinprocs can all be asked. -/
theorem stop_right (h : Active ep w e) (ha : askAll e.sinprocs w.net = .ok net) :
    ∃ w', exec E ep w .stop = .ok w' ∧ StopRight ep w w' ∧
      (e.sinprocs ≠ [] ∧ Waiting ep w' { e with fsm := .stopping, state := .stopping } ∨
        e.sinprocs = [] ∧ ∃ e', Done ep w' e') := by
  let stopped : Endpoint := { e with fsm := .stopping, state := .stopping }
  let n : Transport ε := { w with
    net := net
    object := update w.object ep (some { e with fsm := .stopping })
    bound := w.bound.filter (· != ep)
    connected := w.connected.filter (· != ep) }
  have hon : (unregister e.kind ep (w.put ep { e with fsm := .stopping })).onNet
      (askAll e.sinprocs) = .ok n := by
    rw [unregister_eq (n := w.put ep { e with fsm := .stopping }) h rfl rfl]
    exact onNet_ok ha
  have hexec : exec E ep w .stop = .ok (n.finish ep stopped) := by
    rw [exec, stop_eq h.object, hon]
    rfl
  have hobj : (n.finish ep stopped).object ep = some (left stopped) := by simp [finish_eq]
  refine ⟨_, hexec, ?_, finish_cases (n := n) (e := stopped) rfl rfl h.nodup h.live h.stopped⟩
  have hleft : sinprocs ep (n.finish ep stopped) = e.sinprocs := (sinprocs_eq hobj).trans left_sinprocs
  refine ⟨?_, ?_, ?_, ?_, ?_, ?_, fun x hx => ?_⟩
  · simp [finish_eq, n]
  · simp [finish_eq, n]
  · simpa [finish_eq, n, sinprocs_eq h.object] using ha
  · rw [hleft, sinprocs_eq h.object]
  · simp [finish_eq, n]
  · rw [reported, hleft]
    simp [finish_eq, n, stopped]
  · simp [finish_eq, n, hx]

/-! ### The sinprocs stop -/

variable (net) in
/-- A binding endpoint frees a sinproc that has stopped. -/
theorem stopped_right (h : Waiting ep w e) (hk : e.kind = .binproc) (hi : i ∈ e.sinprocs) :
    ∃ w', exec E ep w (.stopped net i) = .ok w' ∧ StoppedRight ep w net i w' ∧
      (Waiting ep w' { e with sinprocs := e.sinprocs.erase i } ∨ ∃ e', Done ep w' e') := by
  let rest : Endpoint := { e with sinprocs := e.sinprocs.erase i }
  let n : Transport ε := { w with
    net := net
    object := update w.object ep (some rest)
    freed := w.freed ++ [i] }
  have hobj : (w.withNet net).endpoint ep = .ok e := endpoint_ok h.object
  have hrest : (⟨.binproc, .stopping, .stopping, e.sinprocs.erase i⟩ : Endpoint) = rest := by
    rw [← hk, ← h.fsm, ← h.state]
  have hne : ¬ (srcSinproc = Fsm.action ∧ typeStopped = Fsm.stop) := by decide
  have hexec : exec E ep w (.stopped net i) = .ok (n.finish ep rest) := by
    simp only [exec, process, stoppedEvent, feed, hobj, ok_bind, hk, h.fsm, Fsm.feed_stopping,
      binprocShutdown, if_neg hne, and_self, decide_true, check, if_true, deref, freeSinproc, hi]
    rw [hrest]
    rfl
  have hleft : sinprocs ep (n.finish ep rest) = e.sinprocs.erase i :=
    (sinprocs_eq (e := left rest) (by simp [finish_eq])).trans left_sinprocs
  refine ⟨_, hexec, ⟨?_, ?_, ?_, fun x hx => ?_, ?_, ?_, ?_⟩, ?_⟩
  · rw [hleft, sinprocs_eq h.object]
  · simp [finish_eq, n]
  · rw [reported, hleft]
    simp [finish_eq, n, rest]
  · simp [finish_eq, n, hx]
  · simp [finish_eq, n]
  · simp [finish_eq, n]
  · simp [finish_eq, n]
  · have hcases := finish_cases (n := n) (e := rest) h.fsm h.state (h.nodup.erase i) (fun j hj => ?_)
      h.stopped
    · exact hcases.imp (fun hc => hc.2) fun hc => hc.2
    · -- The sinprocs left are not the one freed now.
      rw [List.mem_append, List.mem_singleton, not_or]
      have hj' := (h.nodup.mem_erase_iff).1 hj
      exact ⟨h.live j hj'.2, hj'.1⟩

variable (net i) in
/-- A connecting endpoint uses a pointer that it has not assigned. -/
theorem stopped_fails (h : Waiting ep w e) (hk : e.kind = .cinproc) :
    ∃ a, exec E ep w (.stopped net i) = .error a := by
  have hobj : (w.withNet net).endpoint ep = .ok e := endpoint_ok h.object
  have hne : ¬ (srcSinproc = Fsm.action ∧ typeStopped = Fsm.stop) := by decide
  refine ⟨⟨.wildPointer, w.withNet net⟩, ?_⟩
  simp only [exec, process, stoppedEvent, feed, hobj, ok_bind, hk, h.fsm, Fsm.feed_stopping,
    cinprocShutdown, if_neg hne]
  rfl

/-! ### Runs -/

theorem Right.of_waiting (h : Waiting ep w e) : Right ep w :=
  ⟨by rw [sinprocs_eq h.object]; exact h.live, e, h.object, by
    rw [if_neg fun hn => h.left hn.2]
    exact List.count_eq_zero_of_not_mem h.stopped⟩

theorem Right.of_done (h : Done ep w e) : Right ep w :=
  ⟨by simp [sinprocs_eq h.object, h.none], e, h.object, by simp [h.stopped, h.fsm, h.none]⟩

theorem Right.of_active (h : Active ep w e) : Right ep w :=
  ⟨by rw [sinprocs_eq h.object]; exact h.live, e, h.object, by
    rw [if_neg fun hn => hn.1 h.fsm]
    exact List.count_eq_zero_of_not_mem h.stopped⟩

omit [DecidableEq ε] in
/-- An active endpoint does not wait for a sinproc. -/
theorem Active.not_enabled (h : Active ep w e) : ¬ enabled ep w (.stopped net i) := by
  rintro ⟨e', ho, hf, -⟩
  obtain rfl := Option.some.inj (h.object.symm.trans ho)
  exact absurd (h.fsm.symm.trans hf) (by simp)

omit [DecidableEq ε] in
/-- An endpoint that waits for its sinprocs is not stopped again. -/
theorem Waiting.not_enabled (h : Waiting ep w e) : ¬ enabled ep w .stop := by
  rintro ⟨e', ho, hf⟩
  obtain rfl := Option.some.inj (h.object.symm.trans ho)
  exact absurd (h.fsm.symm.trans hf) (by simp)

/-- An endpoint that has stopped hears nothing any more. -/
theorem Done.not_enabled {a : StopAction ε} (h : Done ep w e) : ¬ enabled ep w a := by
  intro he
  cases a with
  | stop =>
    obtain ⟨e', ho, hf⟩ := he
    obtain rfl := Option.some.inj (h.object.symm.trans ho)
    exact absurd (h.fsm.symm.trans hf) (by simp)
  | stopped net i =>
    obtain ⟨e', ho, hf, -⟩ := he
    obtain rfl := Option.some.inj (h.object.symm.trans ho)
    exact absurd (h.fsm.symm.trans hf) (by simp)

variable (ep) in
/-- The endpoint has been stopped: it binds and waits for its sinprocs, or has stopped. -/
def Asked (w : Transport ε) : Prop :=
  (∃ e, e.kind = .binproc ∧ Waiting ep w e) ∨ ∃ e, Done ep w e

theorem Asked.right (h : Asked ep w) : Right ep w := by
  rcases h with ⟨e, -, hw⟩ | ⟨e, hd⟩
  · exact .of_waiting hw
  · exact .of_done hd

/-- An endpoint that binds, or has no sinprocs, is stopped as it should be. -/
theorem Active.step {a : StopAction ε} (h : Active ep w e) (ha : askAll e.sinprocs w.net = .ok net)
    (hk : e.kind = .binproc ∨ e.sinprocs = []) (he : enabled ep w a) :
    ∃ w', exec E ep w a = .ok w' ∧ Step ep w a w' ∧ Asked ep w' := by
  cases a with
  | stop =>
    obtain ⟨w', hx, hr, hw | hd⟩ := stop_right (E := E) h ha
    · exact ⟨w', hx, hr, .inl ⟨{ e with fsm := .stopping, state := .stopping },
        hk.resolve_right hw.1, hw.2⟩⟩
    · exact ⟨w', hx, hr, .inr hd.2⟩
  | stopped net i => exact absurd he h.not_enabled

/-- An endpoint that has been asked to stop goes on as it should. -/
theorem Asked.step {a : StopAction ε} (h : Asked ep w) (he : enabled ep w a) :
    ∃ w', exec E ep w a = .ok w' ∧ Step ep w a w' ∧ Asked ep w' := by
  rcases h with ⟨e, hk, hw⟩ | ⟨e, hd⟩
  · cases a with
    | stop => exact absurd he hw.not_enabled
    | stopped net i =>
      obtain ⟨e', ho, -, hi⟩ := he
      obtain rfl := Option.some.inj (hw.object.symm.trans ho)
      obtain ⟨w', hx, hr, hn⟩ := stopped_right (E := E) net hw hk hi
      exact ⟨w', hx, hr, hn.imp (fun hw' => ⟨{ e with sinprocs := e.sinprocs.erase i }, hk, hw'⟩) id⟩
  · exact absurd he hd.not_enabled

/-- One that connects and has a sinproc fails when the sinproc has stopped. -/
theorem Waiting.not_stops (h : Active ep w e) (hx : exec E ep w .stop = .ok n)
    {e' : Endpoint} (hw : Waiting ep n e') (hk : e'.kind = .cinproc) : ¬ Stops E ep w := by
  intro hs
  obtain ⟨i, hi⟩ := List.exists_mem_of_ne_nil _ hw.left
  -- The run is the stop, and then `STOPPED` of a sinproc.
  obtain ⟨-, hstep⟩ := hs [.stop, .stopped n.net i]
  obtain ⟨n', hx', -, -, hstep⟩ := hstep ⟨e, h.object, h.fsm⟩
  obtain rfl : n = n' := Except.ok.inj (hx.symm.trans hx')
  obtain ⟨m, hm, -⟩ := hstep ⟨_, hw.object, hw.fsm, hi⟩
  obtain ⟨a, ha⟩ := stopped_fails (E := E) n.net i hw hk
  exact absurd (hm.symm.trans ha) (by simp)

/-- An endpoint stops as it should if and only if its sinprocs can all be asked to
    stop, one after the other, and it is a binding one or has none. -/
theorem stops_iff (h : Active ep w e) : Stops E ep w ↔
    (∀ as i bs, e.sinprocs = as ++ i :: bs → w.net.MayStop as i) ∧
      (e.kind = .binproc ∨ e.sinprocs = []) := by
  rw [← askAll_iff h.nodup]
  constructor
  · intro hs
    obtain ⟨-, hstep⟩ := hs [.stop]
    obtain ⟨w', hx, hr, -⟩ := hstep ⟨e, h.object, h.fsm⟩
    have hask := hr.asked
    rw [sinprocs_eq h.object] at hask
    refine ⟨⟨_, hask⟩, ?_⟩
    -- It waits for its sinprocs, which it may not if it connects, or has stopped at once.
    obtain ⟨w₁, hx₁, -, hw | hd⟩ := stop_right (E := E) h hask
    · cases hk : e.kind with
      | binproc => exact .inl rfl
      | cinproc => exact absurd hs (Waiting.not_stops h hx₁ hw.2 hk)
    · exact .inr hd.1
  · rintro ⟨⟨net, hask⟩, hkind⟩ as
    -- The endpoint is as it was, or has been asked to stop.
    refine System.correct_of_step (I := fun n => n = w ∨ Asked ep n) ?_ ?_ (.inl rfl) as
    · rintro n (rfl | ha)
      · exact .of_active h
      · exact ha.right
    · rintro n a (rfl | ha) he
      · obtain ⟨n', hx, hr, ha'⟩ := h.step (E := E) hask hkind he
        exact ⟨n', hx, hr, .inr ha'⟩
      · obtain ⟨n', hx, hr, ha'⟩ := ha.step (E := E) he
        exact ⟨n', hx, hr, .inr ha'⟩

/-- An endpoint of the kind `kind` with the sinprocs 0 and 1, both disconnected. -/
def connectedEp (kind : EndpointKind) : Transport ℕ where
  net :=
    { sinproc := fun _ => { (Sinproc.init srcSinproc 0 1 fun _ => Message.empty : Sinproc ℕ ℕ) with
        fsm := .active, state := .disconnected }
      eventsto := fun _ => []
      events := fun _ => []
      queued := fun _ => false
      stops := fun _ => 0
      raised := [] }
  allocs := 2
  freed := []
  object := fun _ => some ⟨kind, .active, .active, [0, 1]⟩
  bound := if kind = .binproc then [0] else []
  connected := if kind = .binproc then [] else [0]
  stats := []
  stopped := []

/-- Endpoints that all have one address. -/
def oneAddr : Eps ℕ := ⟨fun _ => [97], fun _ => 1, fun _ _ => true, fun _ => Message.empty⟩

theorem connectedEp_active (kind : EndpointKind) :
    Active 0 (connectedEp kind) ⟨kind, .active, .active, [0, 1]⟩ := by
  refine ⟨rfl, rfl, rfl, by simp, by simp [connectedEp], ?_, ?_, ?_, by simp [connectedEp]⟩ <;>
    cases kind <;> simp [connectedEp]

theorem stops_iff_binproc : Stops oneAddr 0 (connectedEp .binproc) ↔
    (∀ as i bs, [0, 1] = as ++ i :: bs → (connectedEp .binproc).net.MayStop as i) ∧
      (EndpointKind.binproc = .binproc ∨ [0, 1] = []) :=
  stops_iff (connectedEp_active .binproc)

/-- Not every connecting endpoint stops. -/
theorem cinproc_not_stops :
    ¬ ∀ (w : Transport ℕ) (e : Endpoint), Active 0 w e → Stops oneAddr 0 w := by
  intro h
  have hactive := connectedEp_active .cinproc
  obtain ⟨-, hstep⟩ := h _ _ hactive [.stop, .stopped (connectedEp .cinproc).net 0]
  obtain ⟨w, hx, -, -, hstep⟩ := hstep ⟨_, rfl, rfl⟩
  have hx' : exec oneAddr 0 (connectedEp .cinproc) .stop = .ok _ := rfl
  obtain rfl := Except.ok.inj (hx'.symm.trans hx)
  obtain ⟨w', hx₁, -⟩ := hstep ⟨_, rfl, rfl, by decide⟩
  have herror : (.error ⟨.wildPointer, _⟩ : Except (Abort (Transport ℕ)) (Transport ℕ)) = .ok w' := hx₁
  simp at herror

end Stopping

end Transport

end Nanomsg
