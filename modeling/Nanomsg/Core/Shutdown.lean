import Nanomsg.Core.EpLists
import Nanomsg.Lib.System

/-!
# The shutdown of a socket

After `nn_sock_stop` the endpoints of a socket stop, in any order and with pipe
events among them, then its protocol does, and `termsem` is posted
(`ShutsDown`).

* Without a `stop` of the protocol every run is such (`Stopping.keeps`): the
  handler goes from one label to the next.
* With one, no run is: the event raised by `nn_sock_stopped` keeps the source
  of an event just initialised, which `nn_sock_shutdown` asserts not to be
  (`not_shutsDown`).
-/

namespace Nanomsg

open Intrusive Transition

/-- An active socket with the endpoints `live`, and with the endpoints `asked`,
    which have been asked to stop. -/
structure Closing (s : Sock) (live asked : List Ep) : Prop where
  fsm : s.fsm = .active
  state : s.state = .active
  unlocked : s.locked = false
  lists : EpLists s.items s.eps s.sdeps live asked
  pending : s.pending = asked
  kept : ∀ x ∈ live ++ asked, x ∉ s.freed
  length : live.length ≤ s.allocs
  calls : .stop ∉ s.calls ∧ .destroy ∉ s.calls
  reports : s.reports = 0
  termsem : s.termsem = 0
  stopped : s.stopped = FsmEvent.init
  queued : s.stoppedQueued = false

namespace Shutdown

/-- The socket is stopped, then endpoints asked to stop do, pipe events arrive
    while endpoints remain, the protocol once asked to stop reports it, and
    what it raises is delivered. -/
def enabled (s : Sock) : SockAction → Prop
  | .stop => s.fsm = .active
  | .epStopped x => s.fsm = .stopping ∧ x ∈ s.pending
  | .pipe _ _ _ => s.fsm = .stopping ∧ s.pending ≠ []
  | .sockbaseStopped => .stop ∈ s.calls ∧ s.reports = 0
  | .processStopped => s.stoppedQueued = true
  | .addEp _ _ _ | .emEp _ => False

/-- The shutdown of the socket `s₀`. -/
def system (t : SockType) (s₀ : Sock) : System Sock SockAction Fault where
  init s := s = s₀
  enabled := enabled
  exec s a := Prod.fst <$> s.exec t a

/-- Nothing is left to happen to the stopped socket. -/
def Over (s : Sock) : Prop := ∀ a, ¬ enabled s a

/-- What is to hold of the shutdown of a socket with the endpoints `eps`. -/
structure Right (t : SockType) (eps : List Ep) (s : Sock) : Prop where
  /-- The protocol is stopped after the last endpoint is freed. -/
  stop : .stop ∈ s.calls → ∀ x ∈ eps, x ∈ s.freed
  /-- It is destroyed at most once. -/
  destroy : s.calls.count .destroy ≤ 1
  /-- It is destroyed after it has reported that it is stopped. -/
  reported : .destroy ∈ s.calls → t.stop ≠ none → 0 < s.reports
  /-- In the end it has been, and `nn_sock_term` returns once the last user of
      the socket has released it. -/
  fini : Over s → s.state = .fini ∧ s.calls.count .destroy = 1 ∧ s.termsem = 1 ∧
    (0 < s.relesem → ∃ s', s.term = .ok (some s'))
  /-- No assertion fails. -/
  safe : ∀ a, enabled s a → ∃ s', (system t s).exec s a = .ok s'

end Shutdown

open Shutdown in
/-- Every shutdown of a socket of the type `t` is right, in every state. -/
def ShutsDown (t : SockType) : Prop :=
  ∀ s₀ live asked, Closing s₀ live asked → ∀ s, (Shutdown.system t s₀).Reachable s →
    Right t (live ++ asked) s

namespace Shutdown

variable {t : SockType} {s s₀ : Sock} {live asked : List Ep}

/-! ## Without a `stop` of the protocol -/

/-- How far the shutdown of a stopped socket with the endpoints `eps` is. -/
inductive Stopping (eps : List Ep) (s : Sock) : Prop
  /-- The endpoints `left` have not stopped. -/
  | eps (left : List Ep) (fsm : s.fsm = .stopping) (state : s.state = .stoppingEps)
      (lists : EpLists s.items s.eps s.sdeps [] left) (ne : left ≠ []) (pending : s.pending = left)
      (kept : ∀ x ∈ left, x ∉ s.freed) (freed : ∀ x ∈ eps, x ∈ s.freed ∨ x ∈ left)
      (calls : .stop ∉ s.calls ∧ .destroy ∉ s.calls) (termsem : s.termsem = 0)
      (queued : s.stoppedQueued = false)
  | fini (fsm : s.fsm = .stopping) (state : s.state = .fini)
      (lists : EpLists s.items s.eps s.sdeps [] []) (pending : s.pending = [])
      (stop : .stop ∉ s.calls) (destroy : s.calls.count .destroy = 1) (termsem : s.termsem = 1)
      (queued : s.stoppedQueued = false)

namespace Stopping

variable {eps : List Ep}

theorem leave (h : Stopping eps s) : Stopping eps s.leave := by
  cases h with
  | eps left h₁ h₂ h₃ h₄ h₅ h₆ h₇ h₈ h₉ h₁₀ => exact .eps left h₁ h₂ h₃ h₄ h₅ h₆ h₇ h₈ h₉ h₁₀
  | fini h₁ h₂ h₃ h₄ h₅ h₆ h₇ h₈ => exact .fini h₁ h₂ h₃ h₄ h₅ h₆ h₇ h₈

variable (eps) in
/-- `finish2` goes on with the shutdown, `left` being the endpoints left. -/
theorem of_finish2 (ht : t.stop = none) {left : List Ep} (hfsm : s.fsm = .stopping)
    (hstate : s.state = .stoppingEps) (hl : EpLists s.items s.eps s.sdeps [] left)
    (hp : s.pending = left) (hk : ∀ x ∈ left, x ∉ s.freed)
    (hf : ∀ x ∈ eps, x ∈ s.freed ∨ x ∈ left)
    (hc : .stop ∉ s.calls ∧ .destroy ∉ s.calls) (hsem : s.termsem = 0)
    (hq : s.stoppedQueued = false) : ∃ s', s.finish2 t = .ok s' ∧ Stopping eps s' := by
  cases left with
  | nil =>
    rw [Sock.finish2_nil hl, ht]
    refine ⟨_, rfl, .fini hfsm rfl hl hp ?_ ?_ (congrArg (· + 1) hsem) hq⟩
    · simpa [Sock.finish1] using hc.1
    · simp [Sock.finish1, List.count_eq_zero_of_not_mem hc.2]
  | cons x xs =>
    rw [Sock.finish2_of_ne_nil hl (List.cons_ne_nil x xs)]
    exact ⟨s, rfl, .eps _ hfsm hstate hl (List.cons_ne_nil x xs) hp hk hf hc hsem hq⟩

end Stopping

variable (s₀) in
/-- `nn_sock_stop` starts the shutdown. -/
theorem stop_step (ht : t.stop = none) (h : Closing s live asked) :
    ∃ s', (system t s₀).exec s .stop = .ok s' ∧ Stopping (live ++ asked) s' := by
  obtain ⟨items, eps, sdeps, hs, hw⟩ := Sock.shutdown_stop (t := t)
    (s := { s.enter with fsm := .stopping }) h.state h.lists
    (fun x hx => h.kept x (List.mem_append_left _ hx)) (Nat.lt_succ_of_le h.length)
  obtain ⟨s', hfin, hs'⟩ := Stopping.of_finish2 (live ++ asked) ht
    (s := { Sock.stopEfds t { s.enter with fsm := .stopping } with
      items := items, eps := eps, sdeps := sdeps
      pending := s.pending ++ live, state := .stoppingEps }) rfl rfl hw
    (congrArg (· ++ live) h.pending)
    (fun x hx => h.kept x (by simpa [or_comm] using hx))
    (fun x hx => .inr (by simpa [or_comm] using hx)) h.calls h.termsem h.queued
  exact ⟨s'.leave, by simp [system, Sock.exec_stop (hs.trans hfin)], hs'.leave⟩

variable (s₀) in
/-- Every action of a stopped socket goes on with the shutdown. -/
theorem Stopping.step {eps : List Ep} (ht : t.stop = none) (h : Stopping eps s) {a : SockAction}
    (he : enabled s a) : ∃ s', (system t s₀).exec s a = .ok s' ∧ Stopping eps s' := by
  cases h with
  | eps left hfsm hstate hl hne hp hk hf hc hsem hq =>
    cases a with
    | stop => simp [enabled, hfsm] at he
    | epStopped x =>
      obtain ⟨as, bs, rfl⟩ := List.append_of_mem (hp ▸ he.2)
      have hx := List.nodup_cons.1 (List.nodup_middle.1 hl.sdeps.nodup)
      have hxa : x ∉ as := fun hm => hx.1 (List.mem_append_left _ hm)
      obtain ⟨items, sdeps, her, hw⟩ := Sock.eraseSdeps_spec (s := s.deliver x) hl
      have hsh := Sock.shutdown_epStopped (s := s.deliver x) (t := t) hstate (hk x (by simp))
      rw [her, ok_bind] at hsh
      have hpend : (s.deliver x).pending = as ++ bs := by
        rw [Sock.deliver, hp, List.erase_append_right _ hxa, List.erase_cons_head]
      have hkept : ∀ y ∈ as ++ bs, y ∉ s.freed ++ [x] := fun y hy hm => by
        rcases List.mem_append.1 hm with hm | hm
        · refine hk y ?_ hm
          simp only [List.mem_append, List.mem_cons] at hy ⊢
          tauto
        · exact hx.1 (List.mem_singleton.1 hm ▸ hy)
      have hfreed : ∀ y ∈ eps, y ∈ s.freed ++ [x] ∨ y ∈ as ++ bs := fun y hy => by
        have := hf y hy
        simp only [List.mem_append, List.mem_cons, List.not_mem_nil, or_false] at this ⊢
        tauto
      obtain ⟨s', hfin, hs'⟩ := Stopping.of_finish2 eps ht
        (s := Sock.epFree (Sock.epTerm { s.deliver x with items := items, sdeps := sdeps } x) x)
        hfsm hstate hw hpend hkept hfreed hc hsem hq
      exact ⟨s', by simp [system, Sock.exec_epStopped hfsm (hsh.trans hfin)], hs'⟩
    | pipe src inward p =>
      -- Pipe events are ignored.
      have hsh : ∀ type, type ≠ Fsm.stop → type ≠ Sock.epStopped →
          s.feed t src type (some (.pipe p)) = .ok s := fun type h₁ h₂ => by
        simp [Sock.feed, hfsm, Sock.shutdown, hstate, h₁, h₂]
      have hfeed : s.feed t src (if inward then Sock.pipeIn else Sock.pipeOut) (some (.pipe p)) =
          .ok s := by
        cases inward
        · exact hsh _ (by decide) (by decide)
        · exact hsh _ (by decide) (by decide)
      exact ⟨s, by simp [system, Sock.exec, hfeed],
        .eps left hfsm hstate hl hne hp hk hf hc hsem hq⟩
    | sockbaseStopped => exact absurd he.1 hc.1
    | processStopped => simp [enabled, hq] at he
    | addEp | emEp => exact he.elim
  | fini hfsm hstate hl hp hstop hd hsem hq =>
    cases a with
    | stop => simp [enabled, hfsm] at he
    | epStopped | pipe => simp [enabled, hp] at he
    | sockbaseStopped => exact absurd he.1 hstop
    | processStopped => simp [enabled, hq] at he
    | addEp | emEp => exact he.elim

/-- The invariant of a shutdown without a `stop` of the protocol. -/
theorem keeps (ht : t.stop = none) (h₀ : Closing s₀ live asked) :
    (system t s₀).Keeps (fun _ _ => True)
      fun s => Closing s live asked ∨ Stopping (live ++ asked) s where
  init := by
    rintro s rfl
    exact .inl h₀
  step := by
    rintro s a (h | h) he -
    · cases a with
      | stop =>
        obtain ⟨s', hx, hs'⟩ := stop_step s₀ ht h
        exact ⟨s', hx, .inr hs'⟩
      | epStopped | pipe => simp [system, enabled, h.fsm] at he
      | sockbaseStopped => exact absurd he.1 h.calls.1
      | processStopped => simp [system, enabled, h.queued] at he
      | addEp | emEp => exact he.elim
    · obtain ⟨s', hx, hs'⟩ := h.step s₀ ht he
      exact ⟨s', hx, .inr hs'⟩

/-- What the invariant says is right. -/
theorem right_of_inv (h : Closing s live asked ∨ Stopping (live ++ asked) s)
    (hsafe : ∀ a, enabled s a → ∃ s', (system t s).exec s a = .ok s') (ht : t.stop = none) :
    Right t (live ++ asked) s := by
  refine ⟨fun hstop => ?_, ?_, fun _ h => absurd ht h, fun hover => ?_, hsafe⟩
  · rcases h with h | h
    · exact absurd hstop h.calls.1
    · cases h with
      | eps _ _ _ _ _ _ _ _ hc => exact absurd hstop hc.1
      | fini _ _ _ _ hn => exact absurd hstop hn
  · rcases h with h | h
    · simp [List.count_eq_zero_of_not_mem h.calls.2]
    · cases h with
      | eps _ _ _ _ _ _ _ _ hc => simp [List.count_eq_zero_of_not_mem hc.2]
      | fini _ _ _ _ _ hd => exact Nat.le_of_eq hd
  · rcases h with h | h
    · exact absurd h.fsm (hover .stop)
    · cases h with
      | eps left hfsm _ _ hne hp =>
        obtain ⟨x, xs, rfl⟩ := List.exists_cons_of_ne_nil hne
        exact absurd ⟨hfsm, by simp [hp]⟩ (hover (.epStopped x))
      | fini hfsm hstate hl _ _ hd hsem =>
        refine ⟨hstate, hd, hsem, fun hr => ?_⟩
        simp only [Sock.term, hsem, hl.sdeps.term_ok, hl.eps.term_ok, ok_bind, pure_eq_ok]
        exact ⟨_, if_neg (by omega)⟩

/-! ## With one -/

/-- A socket just opened may be stopped. -/
theorem closing_opened (items : Items Ep) (eidOf : Ep → ℤ) :
    Closing (Sock.opened items eidOf) [] [] where
  fsm := rfl
  state := rfl
  unlocked := rfl
  lists := ⟨Lists.init items, Lists.init items, by simp⟩
  pending := rfl
  kept := by simp
  length := Nat.zero_le _
  calls := by simp [Sock.opened]
  reports := rfl
  termsem := rfl
  stopped := rfl
  queued := rfl

/-- A socket without endpoints is stopped, and its protocol reports that it is:
    the event raised by `nn_sock_stopped` fails the assertion about it. -/
theorem not_shutsDown {reply : StopReply} (ht : t.stop = some reply) : ¬ ShutsDown t := by
  intro h
  obtain ⟨norecv, nosend, stop⟩ := t
  obtain rfl : stop = some reply := ht
  let s₀ := Sock.opened ⟨fun _ => .null, fun _ => .null⟩ fun _ => 0
  have hr := h s₀ [] [] (closing_opened _ _)
  cases reply with
  | atOnce =>
    have hinit : (system ⟨norecv, nosend, some .atOnce⟩ s₀).Reachable s₀ := .init rfl
    have hstop := hinit.step (a := SockAction.stop) rfl trivial rfl
    obtain ⟨_, hx⟩ := (hr _ hstop).safe .processStopped rfl
    exact nomatch hx
  | later =>
    have hinit : (system ⟨norecv, nosend, some .later⟩ s₀).Reachable s₀ := .init rfl
    have hstop := hinit.step (a := SockAction.stop) rfl trivial rfl
    have hreport := hstop.step (a := SockAction.sockbaseStopped) ⟨List.mem_singleton.2 rfl, rfl⟩ trivial rfl
    obtain ⟨_, hx⟩ := (hr _ hreport).safe .processStopped rfl
    exact nomatch hx

/-- Shutdowns are right exactly if the protocol has no `stop`. -/
theorem shutsDown_iff (t : SockType) : ShutsDown t ↔ t.stop = none := by
  refine ⟨fun h => ?_, fun ht s₀ live asked h₀ s hs => ?_⟩
  · cases ht : t.stop with
    | none => rfl
    | some reply => exact absurd h (not_shutsDown ht)
  · have hk := keeps ht h₀
    exact right_of_inv (hk.of_reach hs) (fun a he => hk.exec_ok hs he trivial) ht

/-- The protocol answers its `stop` later. -/
theorem later_not_shutsDown : ¬ ShutsDown ⟨false, false, some .later⟩ := not_shutsDown rfl

end Shutdown

end Nanomsg
