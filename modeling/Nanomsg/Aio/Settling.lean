import Mathlib.Data.Fintype.Basic
import Nanomsg.Aio.Delivery
import Nanomsg.Lib.Potential

/-!
# Leaving a context comes to an end

A thread that leaves a context does the work of others as well: what they have raised in the context
is processed by it, and processing an event elsewhere makes it leave another context in turn, where
it may find more of the same. However deep this goes and whichever thread does it, it comes to an
end: of the steps that all threads take, each context entered makes no more than 6 and each event
raised no more than 7 (`settles`). Once nobody raises anything more all threads get out of all
contexts, and by then everything raised has been processed.

A step that a thread takes is paid for from what is left to do: so much at the point where the thread
is (`Point.left`), 1 for each `nn_ctx_leave` that is delivering events, and 7 for each event that has
not been processed.
-/

namespace Nanomsg

open Finset Function Mailbox Transition System

variable {κ τ ι φ π : Type}

/-- What is left to do for a thread, but for the events. -/
def Point.left : Point κ ι → ℕ
  | out | process _ _ false => 0
  | enter _ _ => 1
  | deliver => 2
  | process _ _ true | onleave _ => 4
  | drain _ => 5
  | user _ | handler _ _ _ => 6

namespace CtxAction

/-- The action is a step of `nn_ctx_leave`. -/
def works : CtxAction κ τ ι φ π → Bool
  | leave _ | step _ => true
  | enter _ _ | raise _ _ _ _ _ _ | raiseto _ _ _ _ _ _ => false

/-- How many of them an action makes necessary. -/
def gives : CtxAction κ τ ι φ π → ℕ
  | enter _ _ => 6
  | raise _ _ _ _ _ _ | raiseto _ _ _ _ _ _ => 7
  | leave _ | step _ => 0

theorem gives_eq_zero {a : CtxAction κ τ ι φ π} (h : a.works = true) : a.gives = 0 := by
  cases a with
  | leave _ | step _ => rfl
  | enter _ _ | raise _ _ _ _ _ _ | raiseto _ _ _ _ _ _ => cases h

end CtxAction

namespace Ctxs

section

variable [Fintype τ] (w : Ctxs κ τ ι φ π)

/-- What is left to do for the threads. -/
def load : ℕ := ∑ t, ((w.pc t).left + w.depth t)

/-- What is left to do. -/
def left : ℕ := w.load + 7 * (w.raised.length - w.done.length)

end

variable [DecidableEq κ] [DecidableEq τ] [DecidableEq ι] {ctxOf : φ → κ} {w w' : Ctxs κ τ ι φ π}
  {line : Slot κ τ → List (Raise κ ι φ π)} {t : τ} {p : Point κ ι}

omit [DecidableEq κ] [DecidableEq ι] in
theorem load_update [Fintype τ] (hpc : w'.pc = update w.pc t p)
    (hd : ∀ t', t' ≠ t → w'.depth t' = w.depth t') :
    w'.load + ((w.pc t).left + w.depth t) = w.load + (p.left + w'.depth t) := by
  have h := sum_add_eq (f := fun t => (w.pc t).left + w.depth t)
    (g := fun t => (w'.pc t).left + w'.depth t) (t := t) fun t' ht => by
      rw [hpc, update_of_ne ht, hd t' ht]
  rwa [hpc, update_self, ← hpc] at h

/-- A step of the thread `t` from `w` to `w'`: one less is left for it to do, or an event
    has been processed. -/
structure Steps (w : Ctxs κ τ ι φ π) (t : τ) (w' : Ctxs κ τ ι φ π) (p : Point κ ι) : Prop where
  pc : w'.pc = update w.pc t p
  depth : ∀ t', t' ≠ t → w'.depth t' = w.depth t'
  raised : w'.raised = w.raised
  event : ∀ e, (w'.event e).fsm = (w.event e).fsm
  handler : ∀ c e, p = .handler c e false → w.pc t = .process c e false
  pays : w'.handled = w.handled ∧ p.left + w'.depth t < (w.pc t).left + w.depth t ∨
    ∃ c e own h, w.pc t = .process c e own ∧ p = .handler c e own ∧ w'.depth t = w.depth t ∧
      h.raise = w.pending e ∧ w'.handled = w.handled ++ [h]

omit [DecidableEq κ] [DecidableEq ι] in
/-- Something else than the points, the depths and what is recorded has changed, and the thread goes on. -/
theorem Steps.goto {v : Ctxs κ τ ι φ π} (hpc : v.pc = w.pc) (hd : v.depth = w.depth)
    (hr : v.raised = w.raised) (he : v.event = w.event) (hh : v.handled = w.handled)
    (hp : p.left < (w.pc t).left) (hn : ∀ c e, p ≠ .handler c e false) : Steps w t (v.goto t p) p where
  pc := by rw [Ctxs.goto, hpc]
  depth t' _ := by rw [Ctxs.goto, hd]
  raised := hr
  event e := congrArg (fun event => (event e).fsm) he
  handler c e hp := absurd hp (hn c e)
  pays := .inl ⟨hh, by rw [Ctxs.goto, hd]; exact Nat.add_lt_add_right hp _⟩

omit [DecidableEq τ] [DecidableEq ι] in
theorem unlock_eq_ok [DecidableEq τ] {v : Ctxs κ τ ι φ π} {c : κ} (h : w.unlock t c = .ok v) :
    v = { w with owner := update w.owner c none } := by
  unfold unlock at h
  obtain ⟨-, -, h⟩ := bind_eq_ok.1 h
  exact (Except.ok.inj h).symm

theorem advance_steps (hl : (w.pc t).leaving = true) (hx : w.advance ctxOf t = .ok w') :
    ∃ p, Steps w t w' p := by
  cases ht : w.pc t with
  | out | user c => simp [ht, Point.leaving] at hl
  | drain c =>
    simp only [advance, ht] at hx
    obtain ⟨⟨q, item⟩, -, hx⟩ := bind_eq_ok.1 hx
    cases item with
    | some e | none =>
      obtain rfl := Except.ok.inj hx
      exact ⟨_, .goto rfl rfl rfl rfl rfl (by simp [ht, Point.left]) (by simp)⟩
  | process c e own =>
    simp only [advance, ht] at hx
    obtain ⟨v, hv, hx⟩ := bind_eq_ok.1 hx
    obtain rfl := Except.ok.inj hx
    unfold eventProcess at hv
    split at hv
    · cases hv
    · obtain rfl := Except.ok.inj hv
      refine ⟨_, rfl, fun _ _ => rfl, rfl, fun e' => ?_, fun c' e' hp => ?_,
        .inr ⟨c, e, own, _, ht, rfl, rfl, rfl, rfl⟩⟩
      · by_cases he : e' = e
        · subst he
          show (update w.event e' (w.event e').clear e').fsm = (w.event e').fsm
          rw [update_self]
          rfl
        · exact congrArg FsmEvent.fsm (update_of_ne he ..)
      · simp at hp
        rw [ht, hp.1, hp.2.1, hp.2.2]
  | handler c e own =>
    cases own with
    | true =>
      simp only [advance, ht] at hx
      obtain rfl := Except.ok.inj hx
      exact ⟨_, .goto rfl rfl rfl rfl rfl (by simp [ht, Point.left]) (by simp)⟩
    | false =>
      simp only [advance, ht] at hx
      split at hx
      · cases hx
      · obtain rfl := Except.ok.inj hx
        exact ⟨_, .goto rfl rfl rfl rfl rfl (by simp [ht, Point.left]) (by simp)⟩
  | onleave c =>
    simp only [advance, ht] at hx
    split at hx
    · obtain ⟨v, hv, hx⟩ := bind_eq_ok.1 hx
      obtain rfl := unlock_eq_ok hv
      obtain rfl := Except.ok.inj hx
      refine ⟨_, .goto rfl rfl rfl rfl rfl ?_ ?_⟩
      · split <;> simp [ht, Point.left]
      · split <;> simp
    · -- The copy is delivered, one level deeper.
      obtain ⟨v, hv, hx⟩ := bind_eq_ok.1 hx
      obtain rfl := unlock_eq_ok hv
      obtain rfl := Except.ok.inj hx
      refine ⟨_, rfl, fun t' ht' => update_of_ne ht' .., rfl, fun _ => rfl, by simp, .inl ⟨rfl, ?_⟩⟩
      simp [ht, Point.left]
      omega
  | deliver =>
    simp only [advance, ht] at hx
    obtain ⟨⟨q, item⟩, -, hx⟩ := bind_eq_ok.1 hx
    cases item with
    | some e =>
      simp only at hx
      split at hx
      · cases hx
      · obtain rfl := Except.ok.inj hx
        exact ⟨_, .goto rfl rfl rfl rfl rfl (by simp [ht, Point.left]) (by simp)⟩
    | none =>
      -- What has been delivered all is left, one level up.
      obtain rfl := Except.ok.inj hx
      refine ⟨_, rfl, fun t' ht' => update_of_ne ht' .., rfl, fun _ => rfl, ?_, .inl ⟨rfl, ?_⟩⟩
      · split <;> simp
      · simp only [ret, Ctxs.goto, update_self, ht]
        split <;> simp only [Point.left] <;> omega
  | enter c e =>
    simp only [advance, ht] at hx
    obtain rfl := Except.ok.inj hx
    exact ⟨_, .goto rfl rfl rfl rfl rfl (by simp [ht, Point.left]) (by simp)⟩

theorem exec_steps {a : CtxAction κ τ ι φ π} (ha : a.works = true) (he : enabled ctxOf w a)
    (hx : exec ctxOf w a = .ok w') : ∃ t p, Steps w t w' p := by
  cases a with
  | leave t =>
    cases ht : w.pc t with
    | user c =>
      simp only [exec, ht] at hx
      obtain rfl := Except.ok.inj hx
      exact ⟨t, _, .goto rfl rfl rfl rfl rfl (by simp [ht, Point.left]) (by simp)⟩
    | out | drain _ | process _ _ _ | handler _ _ _ | onleave _ | deliver | enter _ _ =>
      simp [enabled, ht, Point.isUser] at he
  | step t => exact ⟨t, advance_steps he.1 hx⟩
  | enter _ _ | raise _ _ _ _ _ _ | raiseto _ _ _ _ _ _ => cases ha

/-! ### The potential -/

omit [DecidableEq τ] [DecidableEq ι] in
theorem Inv.done_length_le (h : Inv ctxOf w line) : w.done.length ≤ w.raised.length :=
  (h.mail.log.finished.subperm fun _ hr => h.mail.log.mem_posted hr).length_le

omit [DecidableEq ι] in
/-- Entering a context. -/
theorem left_enter [Fintype τ] {c : κ} (ht : w.pc t = .out) :
    ((w.ctxEnter t c).goto t (.user c)).left = w.left + 6 := by
  have hload : ((w.ctxEnter t c).goto t (.user c)).load + ((w.pc t).left + w.depth t) =
      w.load + (6 + w.depth t) := load_update (p := .user c) rfl fun _ _ => rfl
  rw [ht, Point.left] at hload
  show _ + 7 * (w.raised.length - w.done.length) = w.load + 7 * (w.raised.length - w.done.length) + 6
  omega

omit [DecidableEq ι] in
/-- What a step that does not fail leaves to do. -/
theorem Inv.left_lt [Fintype τ] (h : Inv ctxOf w line) (h' : ∃ line', Inv ctxOf w' line')
    (hs : Steps w t w' p) : w'.left < w.left := by
  have hload := load_update hs.pc hs.depth
  have hle := h.done_length_le
  rw [left, left, hs.raised]
  rcases hs.pays with ⟨hh, hlt⟩ | ⟨c, e, own, g, ht, rfl, hd, hg, hh⟩
  · rw [done, done, hh]
    omega
  · -- What the thread had taken off a queue was due to a raise.
    have hhand := h.stock.hand t
    rw [ht] at hhand
    obtain ⟨r, hr, he, -⟩ := hhand
    have hpend : w.pending e = some r := (h.mail.tracks _ _).2 ⟨he, _, hr ▸ List.mem_cons_self⟩
    have hdone : w'.done = w.done ++ [r] := by
      rw [done, hh, List.filterMap_append, List.filterMap_cons_some (hg.trans hpend)]
      rfl
    obtain ⟨line', h'⟩ := h'
    have hle' := h'.done_length_le
    rw [hs.raised, hdone, List.length_append] at hle'
    rw [ht, hd] at hload
    rw [hdone, List.length_append]
    cases own <;> simp [Point.left] at hload hle' ⊢ <;> omega

theorem Inv.exec_inv (h : ∃ line, Inv ctxOf w line) {a : CtxAction κ τ ι φ π} (he : enabled ctxOf w a)
    (hs : Safe ctxOf w a) (hx : exec ctxOf w a = .ok w') : ∃ line, Inv ctxOf w' line := by
  obtain ⟨line, h⟩ := h
  obtain ⟨v, line', hx', h', -⟩ := h.next he hs
  exact ⟨line', Except.ok.inj (hx'.symm.trans hx) ▸ h'⟩

theorem post_left [Fintype τ] (h : Inv ctxOf w line) {k : Place κ τ} {r : Raise κ ι φ π}
    (hx : (w.note r).post k r.event r.filled = .ok w') : w'.left ≤ w.left + 7 := by
  obtain ⟨q, -, hx⟩ := bind_eq_ok.1 hx
  obtain rfl := Except.ok.inj hx
  have hle := h.done_length_le
  simp only [left, load, done, note, List.length_append, List.length_singleton] at hle ⊢
  omega

variable (ctxOf) in
/-- What is left to do, and how it comes about. -/
theorem potential [Fintype τ] : ((system ctxOf).limit (Safe ctxOf)).Potential
    (fun w : Ctxs κ τ ι φ π => ∃ line, Inv ctxOf w line) left CtxAction.works CtxAction.gives where
  keeps h he hx := Inv.exec_inv h he.1 he.2 hx
  pays := by
    rintro w a w' h ⟨he, hs⟩ hx
    have h' := Inv.exec_inv h he hs hx
    obtain ⟨line, h⟩ := h
    have hstep : a.works = true → w'.left + 1 ≤ w.left := fun ha => by
      obtain ⟨t, p, hp⟩ := exec_steps ha (show enabled ctxOf w a from he) hx
      exact h.left_lt h' hp
    cases a with
    | leave _ | step _ => exact hstep rfl
    | enter t c =>
      obtain rfl := Except.ok.inj hx
      exact Nat.le_of_eq (left_enter he.1)
    | raise t e f src type srcptr =>
      cases hr : (w.pc t).raises with
      | none => simp [system, enabled, hr] at he
      | some c =>
        simp only [system, limit, exec, hr] at hx
        exact post_left h hx
    | raiseto t e f src type srcptr =>
      cases hr : (w.pc t).raisesto with
      | none => simp [system, enabled, hr] at he
      | some c =>
        simp only [system, limit, exec, hr] at hx
        exact post_left h hx

/-! ### Getting out -/

/-- The states from which threads only go on: none of them is in a handler that has raised its own
    event to a machine of another context. -/
structure GoesOn (ctxOf : φ → κ) (raised : List (Raise κ ι φ π)) (w : Ctxs κ τ ι φ π) : Prop where
  inv : ∃ line, Inv ctxOf w line
  safe : ∀ t, Safe ctxOf w (.step t)
  raised : w.raised = raised

/-- The steps of `nn_ctx_leave`. -/
def Goes (ctxOf : φ → κ) (w : Ctxs κ τ ι φ π) (a : CtxAction κ τ ι φ π) : Prop :=
  Safe ctxOf w a ∧ a.works = true

omit [DecidableEq ι] in
theorem GoesOn.step {raised : List (Raise κ ι φ π)} (h : GoesOn ctxOf raised w) (hp : Steps w t w' p)
    (hi : ∃ line, Inv ctxOf w' line) : GoesOn ctxOf raised w' := by
  refine ⟨hi, fun t' c e ht' => ?_, hp.raised.trans h.raised⟩
  rw [hp.event]
  by_cases htt : t' = t
  · -- It has come from where it held the event.
    subst htt
    rw [hp.pc, update_self] at ht'
    obtain ⟨line, hinv⟩ := h.inv
    have hpc := hp.handler c e ht'
    have hhand := hinv.stock.hand t'
    rw [hpc] at hhand
    obtain ⟨r, hr, rfl, rfl, -⟩ := hhand
    rw [hinv.mail.filled _ r (hr ▸ List.mem_cons_self)]
    rfl
  · rw [hp.pc, update_of_ne htt] at ht'
    exact h.safe t' c e ht'

variable (ctxOf) in
theorem goesOn_potential [Fintype τ] (raised : List (Raise κ ι φ π)) :
    ((system ctxOf).limit (Goes ctxOf)).Potential (GoesOn ctxOf raised : Ctxs κ τ ι φ π → Prop) left
      CtxAction.works CtxAction.gives where
  keeps h he hx := by
    obtain ⟨t, p, hp⟩ := exec_steps he.2.2 he.1 hx
    exact h.step hp (Inv.exec_inv h.inv he.1 he.2.1 hx)
  pays h he hx := (potential ctxOf).pays h.inv ⟨he.1, he.2.1⟩ hx

omit [DecidableEq κ] [DecidableEq τ] [DecidableEq ι] in
theorem left_start [Fintype τ] (event : ι → FsmEvent φ π) :
    (start event : Ctxs κ τ ι φ π).left = 0 := by
  simp [left, load, start, done, Point.left]

/-- However the threads are interleaved, the steps of `nn_ctx_leave` that they take are no more than 6
    for each context entered and 7 for each event raised. From then on all threads can get out of
    all contexts, every lock is free and everything raised has been processed, unless one of them is
    in a handler that has moved its own event to another context. -/
theorem settles [Fintype τ] (event : ι → FsmEvent φ π) {as : List (CtxAction κ τ ι φ π)}
    (hr : ((system ctxOf).limit (Safe ctxOf)).Run (start event) as w) :
    as.countP CtxAction.works ≤ (as.map CtxAction.gives).sum ∧
      ((∀ t, Safe ctxOf w (.step t)) → ∃ bs w', (∀ b ∈ bs, b.works = true) ∧
        (system ctxOf).Run w bs w' ∧ (∀ t, w'.pc t = .out) ∧ (∀ c, w'.owner c = none) ∧
          ∀ r ∈ w.raised, r ∈ w'.done) := by
  obtain ⟨hi, hle⟩ := (potential ctxOf).countP_le ⟨_, inv_start event⟩ hr
  rw [left_start] at hle
  refine ⟨by omega, fun hs => ?_⟩
  -- Until all threads are out, one of them can go on.
  have hgo : ∀ v : Ctxs κ τ ι φ π, GoesOn ctxOf w.raised v → (¬ ∀ t, v.pc t = .out) →
      ∃ b v', b.works = true ∧ ((system ctxOf).limit (Goes ctxOf)).enabled v b ∧
        exec ctxOf v b = .ok v' := by
    intro v hv hout
    obtain ⟨t, ht⟩ := not_forall.1 hout
    obtain ⟨line, hinv⟩ := hv.inv
    obtain ⟨t', he | he⟩ := hinv.progress ht
    · obtain ⟨v', -, hx, -⟩ := hinv.next he trivial
      exact ⟨.leave t', v', rfl, ⟨he, trivial, rfl⟩, hx⟩
    · obtain ⟨v', -, hx, -⟩ := hinv.next he (hv.safe t')
      exact ⟨.step t', v', rfl, ⟨he, hv.safe t', rfl⟩, hx⟩
  obtain ⟨bs, w', hb, hrun, hw', hout⟩ := (goesOn_potential ctxOf w.raised).reach_done
    (W := fun a => a.works = true) (fun a ha => ⟨ha, CtxAction.gives_eq_zero ha⟩) hgo ⟨hi, hs, rfl⟩
  obtain ⟨line, hinv⟩ := hw'.inv
  exact ⟨bs, w', hb, hrun.of_limit, hout, hinv.owner_eq_none hout,
    fun r hr => hinv.delivered.all hout r (hw'.raised ▸ hr)⟩

/-- The thread 0 raises an event from the context 0 to the machine 1; from the middle of that both
    threads get out. -/
theorem settles_raised : ∃ w : Ctxs (Fin 2) (Fin 2) (Fin 1) (Fin 2) Unit, w.raised.length = 1 ∧
    ∃ bs w', (system id).Run w bs w' ∧ (∀ t, w'.pc t = .out) ∧ ∀ r ∈ w.raised, r ∈ w'.done := by
  obtain ⟨w, hr, hraised, hsafe⟩ : ∃ w : Ctxs (Fin 2) (Fin 2) (Fin 1) (Fin 2) Unit,
      ((system id).limit (Safe id)).Run (start fun _ => .init)
        [.enter 0 0, .raiseto 0 0 1 3 7 none, .leave 0] w ∧ w.raised.length = 1 ∧
      ∀ t, w.pc t = .drain 0 ∨ w.pc t = .out :=
    ⟨_, .cons ⟨by decide, trivial⟩ rfl (.cons ⟨by decide, by unfold Safe; decide⟩ rfl
      (.cons ⟨by decide, trivial⟩ rfl (.nil _))), rfl, by decide⟩
  obtain ⟨-, hgo⟩ := settles _ hr
  obtain ⟨bs, w', -, hrun, hout, -, hdone⟩ := hgo fun t c e ht => by
    rcases hsafe t with h | h <;> rw [h] at ht <;> cases ht
  exact ⟨w, hraised, bs, w', hrun, hout, hdone⟩

end Ctxs

end Nanomsg
