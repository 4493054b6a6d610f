import Mathlib.Data.Fintype.Basic
import Nanomsg.Core.Readiness
import Nanomsg.Lib.Lock
import Nanomsg.Lib.Potential

/-!
# Callers of a socket that stops

Threads in `nn_sock_send` and `nn_sock_recv` wait for a descriptor of the socket until there is
something for them to do. When the socket stops there may never be: `nn_sock_shutdown` makes both
descriptors readable, and as nobody follows the protocol any more (`nn_sock_onleave`) they stay so.
Whoever waits comes back, enters the context, finds the state of the socket and leaves for good.

`stop_releases`: this holds of any number of callers, wherever they are when the socket is stopped
and whatever else happens. A thread takes at most 5 steps until it is outside, unless it calls again,
and all of them can get there.
-/

namespace Nanomsg

open Finset Function Locking Transition System

variable {τ : Type}

namespace SockSpot

/-- The thread is in the context. -/
def holds : SockSpot → Bool
  | inside | loop _ | leaving _ => true
  | outside | waiting _ | woken _ => false

/-- How many steps it is from there to the outside, of a socket that stops. -/
def left : SockSpot → ℕ
  | outside => 0
  | inside | leaving none => 1
  | loop _ => 2
  | woken _ => 3
  | waiting _ => 4
  | leaving (some _) => 5

theorem left_le (p : SockSpot) : p.left ≤ 5 := by
  unfold left
  split <;> decide

end SockSpot

/-- The socket has been stopped. -/
def SockState.stopped : SockState → Bool
  | stoppingEps | stopping | fini => true
  | init | active => false

namespace FdAction

/-- The thread that moves on, in a call that it has made or out of the context. -/
def mover : FdAction τ → Option τ
  | attempt t _ _ | leave t _ | wait t _ | reenter t => some t
  | enter _ | start _ | stop _ | shutdown _ _ | call _ _ => none

/-- The thread that calls a function of the socket. -/
def caller : FdAction τ → Option τ
  | enter t | call t _ => some t
  | start _ | stop _ | shutdown _ _ | attempt _ _ _ | leave _ _ | wait _ _ | reenter _ => none

end FdAction

namespace SockFds

variable [DecidableEq τ] {type : SockType} {s s' : SockFds τ} {t : τ} {p : SockSpot}

/-- Who is in the context owns it, and a socket that has been stopped can be read and written. -/
structure Halts (type : SockType) (s : SockFds τ) : Prop where
  owned : Owned SockSpot.holds s.owner s.spot
  readable : s.state.stopped = true → ∀ d, type.supports d → s.readable d = true

/-- The action `a` moves the thread `t` to `p`, and no other. -/
structure Moves (s : SockFds τ) (a : FdAction τ) (s' : SockFds τ) (t : τ) (p : SockSpot) : Prop where
  spot : s'.spot = update s.spot t p
  unique : ∀ u, a.mover = some u ∨ a.caller = some u → u = t
  left : s.state.stopped = true →
    p.left + a.mover.isSome.toNat ≤ (s.spot t).left + 2 * a.caller.isSome.toNat

/-- A socket that stops is not asked to send or to receive any more. -/
theorem loopBody_spec {d : Direction} {rc : ℤ} {dontwait : Bool}
    (hx : s.loopBody t d rc dontwait = .ok s') :
    ∃ w, s' = s.goto t (.leaving w) ∧ (s.state.stopped = true → w = none) := by
  unfold loopBody at hx
  cases hs : s.state with
  | active | init =>
    simp only [hs] at hx
    split at hx
    · exact ⟨none, (Except.ok.inj hx).symm, fun _ => rfl⟩
    · obtain ⟨-, -, hx⟩ := bind_eq_ok.1 hx
      split at hx
      · exact ⟨none, (Except.ok.inj hx).symm, fun _ => rfl⟩
      · split at hx
        · exact ⟨none, (Except.ok.inj hx).symm, fun _ => rfl⟩
        · exact ⟨some d, (Except.ok.inj hx).symm, nofun⟩
  | stoppingEps | stopping | fini =>
    simp only [hs] at hx
    exact ⟨none, (Except.ok.inj hx).symm, fun _ => rfl⟩

/-- What is kept by an action, and who moves. -/
structure Next (type : SockType) (s : SockFds τ) (a : FdAction τ) (s' : SockFds τ) : Prop where
  halts : Halts type s'
  stopped : s.state.stopped = true → s'.state.stopped = true
  moves : ∃ t p, Moves s a s' t p

/-- A thread goes on, by itself. -/
theorem Halts.move (h : Halts type s) {a : FdAction τ} (hs : s'.state = s.state)
    (hr : s.state.stopped = true → s'.readable = s.readable)
    (ho : Owned SockSpot.holds s'.owner s'.spot) (hm : Moves s a s' t p) : Next type s a s' where
  halts := ⟨ho, fun hs' => by rw [hs] at hs'; rw [hr hs']; exact h.readable hs'⟩
  stopped hs' := hs ▸ hs'
  moves := ⟨t, p, hm⟩

/-- Nobody moves. -/
theorem Halts.stay (h : Halts type s) {a : FdAction τ} (t : τ) (ho : s'.owner = s.owner)
    (hp : s'.spot = s.spot) (ha : ∀ u, a.mover = some u ∨ a.caller = some u → u = t)
    (hn : a.mover = none) (hs : s.state.stopped = true → s'.state.stopped = true)
    (hr : s'.state.stopped = true → ∀ d, type.supports d → s'.readable d = true) :
    Next type s a s' where
  halts := ⟨by rw [ho, hp]; exact h.owned, hr⟩
  stopped := hs
  moves := ⟨t, s.spot t, by rw [update_eq_self, hp], ha, fun _ => by rw [hn]; exact Nat.le_add_right _ _⟩

theorem next_leave (hi : Inv type s) (h : Halts type s) {events : ℤ}
    (he : s.enabled type (.leave t events)) (hx : s.exec type (.leave t events) = .ok s') :
    Next type s (.leave t events) s' := by
  obtain ⟨ho, hp, hev⟩ := he
  obtain ⟨v, hv, hstate, hspot, -, hother, -⟩ := onleave_spec hi hev
  obtain ⟨q, hq, hholds, hleft⟩ : ∃ q, s.exec type (.leave t events) =
      .ok ({ v with owner := none }.goto t q) ∧ q.holds = false ∧ q.left + 1 ≤ (s.spot t).left := by
    rcases hp with hp | hp | hp | hp <;> simp only [exec, hp, hv, ok_bind, pure_eq_ok] <;>
      exact ⟨_, rfl, rfl, by decide⟩
  obtain rfl : { v with owner := none }.goto t q = s' := Except.ok.inj (hq.symm.trans hx)
  have howned := h.owned
  rw [ho] at howned
  -- A socket that stops does not follow the protocol.
  have hsame : s.state.stopped = true → v = s := fun hs => hother fun ha => by rw [ha] at hs; cases hs
  have hpos : ({ v with owner := none }.goto t q).spot = update s.spot t q := by rw [← hspot]; rfl
  refine h.move hstate (fun hs => by rw [← hsame hs]; rfl) ?_
    ⟨hpos, by simp [FdAction.mover, FdAction.caller], fun _ => hleft⟩
  rw [hpos]
  exact howned.unlock hholds

omit [DecidableEq τ] in
theorem recheck_spec (s : SockFds τ) (d : Direction) : (s.recheck d).state = s.state ∧
    (s.recheck d).readable = s.readable ∧ (s.recheck d).owner = s.owner ∧ (s.recheck d).spot = s.spot := by
  unfold recheck
  dsimp only
  split <;> exact ⟨rfl, rfl, rfl, rfl⟩

theorem exec_spec (hi : Inv type s) (h : Halts type s) {a : FdAction τ} (he : s.enabled type a)
    (hx : s.exec type a = .ok s') : Next type s a s' := by
  cases a with
  | enter t =>
    obtain ⟨hp, ho⟩ := he
    obtain rfl := Except.ok.inj hx
    have howned := h.owned
    rw [ho] at howned
    exact h.move rfl (fun _ => rfl) (howned.lock rfl)
      ⟨rfl, by simp [FdAction.mover, FdAction.caller], fun _ => by rw [hp]; exact Nat.le_succ 1⟩
  | start t =>
    obtain ⟨-, -, hs⟩ := he
    obtain rfl := Except.ok.inj hx
    exact h.stay t rfl rfl (by simp [FdAction.mover, FdAction.caller]) rfl
      (fun hs' => by rw [hs] at hs'; cases hs') nofun
  | stop t =>
    obtain ⟨hstate, howner, hspot, hr, -⟩ := shutdownStop_spec hx
    exact h.stay t howner hspot (by simp [FdAction.mover, FdAction.caller]) rfl
      (fun _ => by rw [hstate]; rfl) fun _ => hr
  | shutdown t state =>
    obtain ⟨-, ⟨hi, ha⟩, hi', ha'⟩ := he
    obtain rfl := Except.ok.inj hx
    have hstopped : ∀ {state : SockState}, state ≠ .init → state ≠ .active → state.stopped = true := by
      intro state hi ha
      cases state <;> first | rfl | contradiction
    exact h.stay t rfl rfl (by simp [FdAction.mover, FdAction.caller]) rfl
      (fun _ => hstopped hi' ha') fun _ => h.readable (hstopped hi ha)
  | call t d =>
    obtain ⟨hp, ho⟩ := he
    simp only [exec] at hx
    split at hx
    · next hd =>
      obtain rfl := Except.ok.inj hx
      have howned := h.owned
      rw [ho hd] at howned
      exact h.move rfl (fun _ => rfl) (howned.lock rfl)
        ⟨rfl, by simp [FdAction.mover, FdAction.caller], fun _ => by rw [hp]; exact Nat.le_refl 2⟩
    · obtain rfl := Except.ok.inj hx
      exact h.stay t rfl rfl (by simp [FdAction.mover, FdAction.caller]) rfl id h.readable
  | attempt t rc dontwait =>
    obtain ⟨ho, hp, -⟩ := he
    obtain ⟨d, hp⟩ : ∃ d, s.spot t = .loop d := hp.elim (fun h => ⟨_, h⟩) fun h => ⟨_, h⟩
    simp only [exec, hp] at hx
    obtain ⟨w, rfl, hw⟩ := loopBody_spec hx
    refine h.move rfl (fun _ => rfl) (h.owned.move (by rw [hp]; rfl))
      ⟨rfl, by simp [FdAction.mover, FdAction.caller], fun hs => ?_⟩
    rw [hw hs, hp]
    exact Nat.le_refl 2
  | leave t events => exact next_leave hi h he hx
  | wait t rc =>
    simp only [enabled] at he
    split at he
    · next d hp =>
      simp only [exec, hp] at hx
      unfold afterWait at hx
      split at hx
      · obtain rfl := Except.ok.inj hx
        exact h.move rfl (fun _ => rfl) (h.owned.move (by rw [hp]; rfl))
          ⟨rfl, by simp [FdAction.mover, FdAction.caller], fun _ => by rw [hp]; exact (by decide : 1 ≤ 4)⟩
      · obtain ⟨-, -, hx⟩ := bind_eq_ok.1 hx
        obtain rfl := Except.ok.inj hx
        exact h.move rfl (fun _ => rfl) (h.owned.move (by rw [hp]; rfl))
          ⟨rfl, by simp [FdAction.mover, FdAction.caller], fun _ => by rw [hp]; exact Nat.le_refl 4⟩
    · exact he.elim
  | reenter t =>
    obtain ⟨hp, ho⟩ := he
    obtain ⟨d, hp⟩ : ∃ d, s.spot t = .woken d := hp.elim (fun h => ⟨_, h⟩) fun h => ⟨_, h⟩
    simp only [exec, hp] at hx
    obtain rfl := Except.ok.inj hx
    have howned := h.owned
    rw [ho] at howned
    obtain ⟨hstate, hr, howner, hspot⟩ := recheck_spec (s.ctxEnter t) d
    have hpos : (((s.ctxEnter t).recheck d).goto t (.loop d)).spot = update s.spot t (.loop d) := by
      rw [goto, hspot]
      rfl
    refine h.move hstate (fun _ => hr) ?_
      ⟨hpos, by simp [FdAction.mover, FdAction.caller], fun _ => by rw [hp]; exact Nat.le_refl 3⟩
    rw [hpos, show (((s.ctxEnter t).recheck d).goto t (.loop d)).owner = some t from howner]
    exact howned.lock rfl

/-! ### Getting out -/

/-- A socket that stops, in a run. -/
structure Stops (type : SockType) (s : SockFds τ) : Prop where
  inv : Inv type s
  halts : Halts type s
  stopped : s.state.stopped = true

theorem reachable_halts (hs : (system type).Reachable s) : Inv type s ∧ Halts type s := by
  refine hs.holds (P := fun s => Inv type s ∧ Halts type s) (fun s h => ⟨inv_initial h, fun t => ?_, ?_⟩)
    fun s a s' h he _ hx => ⟨?_, (exec_spec h.1 h.2 he hx).halts⟩
  · simp [h.owner, h.spot t, SockSpot.holds]
  · rw [h.state]
    nofun
  · obtain ⟨v, hv, hi⟩ := inv_step a h.1 he
    exact Except.ok.inj (hv.symm.trans hx) ▸ hi

theorem Stops.exec (h : Stops type s) {a : FdAction τ} (he : s.enabled type a)
    (hx : s.exec type a = .ok s') : Stops type s' := by
  have hn := exec_spec h.inv h.halts he hx
  obtain ⟨v, hv, hi⟩ := inv_step a h.inv he
  exact ⟨Except.ok.inj (hv.symm.trans hx) ▸ hi, hn.halts, hn.stopped h.stopped⟩

/-- What is left for one thread. -/
theorem potential_of (type : SockType) (t : τ) : (system type).Potential (Stops type)
    (fun s => (s.spot t).left) (fun a => a.mover = some t) fun a =>
      2 * (decide (a.caller = some t)).toNat where
  keeps h he hx := h.exec he hx
  pays {s a s'} h he hx := by
    obtain ⟨u, p, hm⟩ := (exec_spec h.inv h.halts he hx).moves
    have hleft := hm.left h.stopped
    by_cases hu : u = t
    · subst hu
      rw [hm.spot, update_self]
      have hmover : (decide (a.mover = some u)).toNat ≤ a.mover.isSome.toNat := by
        cases hd : decide (a.mover = some u) with
        | false => exact Nat.zero_le _
        | true => rw [of_decide_eq_true hd]; rfl
      have hcaller : a.caller.isSome.toNat ≤ (decide (a.caller = some u)).toNat := by
        cases hc : a.caller with
        | none => exact Nat.zero_le _
        | some v => simp [hm.unique v (.inr hc)]
      omega
    · have hmover : a.mover ≠ some t := fun hc => hu (hm.unique t (.inl hc)).symm
      rw [hm.spot, update_of_ne (Ne.symm hu), decide_eq_false hmover]
      exact Nat.le_add_right _ _

/-- What is left for all of them. -/
theorem potential_all [Fintype τ] (type : SockType) : (system type (τ := τ)).Potential (Stops type)
    (fun s => ∑ t, (s.spot t).left) (fun a => a.mover.isSome) fun a => 2 * a.caller.isSome.toNat where
  keeps h he hx := h.exec he hx
  pays {s a s'} h he hx := by
    obtain ⟨u, p, hm⟩ := (exec_spec h.inv h.halts he hx).moves
    have hleft := hm.left h.stopped
    have hsum := sum_add_eq (f := fun t => (s.spot t).left) (g := fun t => (s'.spot t).left) (t := u)
      fun t ht => by rw [hm.spot, update_of_ne ht]
    rw [show (s'.spot u).left = p.left by rw [hm.spot, update_self]] at hsum
    omega

omit [DecidableEq τ] in
/-- Unless all threads are outside, one of them can go on. -/
theorem Stops.progress (h : Stops type s) (hout : ¬ ∀ t, s.spot t = .outside) :
    ∃ a, a.mover.isSome = true ∧ a.caller = none ∧ s.enabled type a := by
  cases ho : s.owner with
  | some u =>
    have hu := (h.halts.owned u).1 ho
    cases hp : s.spot u with
    | outside | waiting _ | woken _ => rw [hp] at hu; cases hu
    | inside => exact ⟨.leave u 0, rfl, rfl, ho, .inl hp, le_rfl⟩
    | loop d =>
      refine ⟨.attempt u 0 false, rfl, rfl, ho, ?_, le_rfl⟩
      cases d with
      | rcv => exact .inl hp
      | snd => exact .inr hp
    | leaving w =>
      refine ⟨.leave u 0, rfl, rfl, ho, .inr ?_, le_rfl⟩
      rcases w with _ | _ | _
      · exact .inl hp
      · exact .inr (.inl hp)
      · exact .inr (.inr hp)
  | none =>
    obtain ⟨t, ht⟩ := not_forall.1 hout
    have howned := h.halts.owned
    rw [ho] at howned
    have hfree := howned.free t
    cases hp : s.spot t with
    | outside => exact absurd hp ht
    | inside | loop _ | leaving _ => rw [hp] at hfree; cases hfree
    | waiting d =>
      -- The descriptor that the thread waits for is readable.
      have hr := h.halts.readable h.stopped d (h.inv.spots t d (by rw [hp]; rfl))
      refine ⟨.wait t 0, rfl, rfl, ?_⟩
      simp only [enabled, hp]
      exact .inl ⟨trivial, hr⟩
    | woken d =>
      refine ⟨.reenter t, rfl, rfl, ?_, ho⟩
      cases d with
      | rcv => exact .inl hp
      | snd => exact .inr hp

/-- Once a socket has been stopped, both its descriptors are and stay readable; a thread takes at most
    5 steps, and 2 more for each further call; and all threads can get out. -/
theorem stop_releases [Fintype τ] (hs : (system type).Reachable s) (hstop : s.state.stopped = true) :
    (∀ d, type.supports d → s.readable d = true) ∧
      (∀ t as s', (system type).Run s as s' → as.countP (fun a => a.mover = some t) ≤
        5 + 2 * as.countP fun a => a.caller = some t) ∧
      ∃ as s', (∀ a ∈ as, a.mover.isSome = true ∧ a.caller = none) ∧ (system type).Run s as s' ∧
        ∀ t, s'.spot t = .outside := by
  obtain ⟨hi, hh⟩ := reachable_halts hs
  refine ⟨hh.readable hstop, fun t as s' hr => ?_, ?_⟩
  · obtain ⟨-, hle⟩ := (potential_of type t).countP_le ⟨hi, hh, hstop⟩ hr
    rw [sum_map_mul_toNat] at hle
    have := (s.spot t).left_le
    omega
  · have hgo : ∀ v : SockFds τ, Stops type v → (¬ ∀ t, v.spot t = .outside) → ∃ a v',
        (a.mover.isSome = true ∧ a.caller = none) ∧ v.enabled type a ∧ v.exec type a = .ok v' := by
      intro v hv hout
      obtain ⟨a, hm, hc, he⟩ := hv.progress hout
      obtain ⟨v', hx, -⟩ := inv_step a hv.inv he
      exact ⟨a, v', ⟨hm, hc⟩, he, hx⟩
    have hpays : ∀ a : FdAction τ, a.mover.isSome = true ∧ a.caller = none →
        a.mover.isSome = true ∧ 2 * a.caller.isSome.toNat = 0 := fun a ha => ⟨ha.1, by rw [ha.2]; rfl⟩
    obtain ⟨as, s', has, hr, -, hout⟩ := (potential_all type).reach_done hpays hgo ⟨hi, hh, hstop⟩
    exact ⟨as, s', has, hr, hout⟩

/-- A socket used by two threads. -/
def shared : SockFds Bool := ⟨.init, fun _ => false, fun _ => false, none, fun _ => .outside, 0, []⟩

/-- One thread waits to receive when the other stops the socket: it can get out. -/
theorem stop_releases_waiting : ∃ s : SockFds Bool, s.spot true = .waiting .rcv ∧
    s.state.stopped = true ∧ ∃ as s', (system both).Run s as s' ∧ s'.spot true = .outside := by
  have hi : (system both).Reachable shared :=
    .init ⟨rfl, fun _ => rfl, fun _ _ => rfl, rfl, fun _ => rfl, rfl⟩
  have hrun : (system both).execAll shared [.enter false, .start false, .leave false 0,
    .call true .rcv, .attempt true (-11) false, .leave true 0, .enter false, .stop false] = some _ := rfl
  have hs := (run_of_execAll hrun).reachable hi
  obtain ⟨-, -, as, s', -, hr, hout⟩ := stop_releases hs rfl
  exact ⟨_, rfl, rfl, as, s', hr, hout true⟩

end SockFds

end Nanomsg
