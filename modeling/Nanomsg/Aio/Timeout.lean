import Nanomsg.Aio.Timerset
import Nanomsg.Lib.System

/-!
# How long a worker sleeps

`nn_timerset_timeout`: how long it is until the first of the timers is due, an `int`, of a deadline
and a clock reading that are 64 bits wide. For a deadline to come the difference is no more than
the timeout that was asked for. For one that has passed it may be anything
(`timeout_correct_iff`).
-/

namespace Nanomsg

open Function Transition Intrusive Priority

variable {ι : Type} [DecidableEq ι]

namespace Timerset

/-- `nn_timerset_timeout`, the clock reading `now`. -/
def timersetTimeout (self : Timerset ι) (now : UInt64) : Except Fault ℤ :=
  if self.timeouts.empty then
    .ok (-1)
  else
    match self.timeouts.first with
    | .null => .error .nullDeref
    | .out => .error .wildPointer
    | .node first =>
      let timeout := Clock.toInt (self.timeout first - now)
      .ok (if timeout < 0 then 0 else timeout)

end Timerset

/-- A timer set, the handles active in it with the deadlines stored, and the latest clock
    reading with which one was added. -/
structure Timed (ι : Type) where
  set : Timerset ι
  active : Active ι
  latest : ℕ

namespace Timed

/-- A call. -/
def exec (w : Timed ι) : TimersetOp ι → Except Fault (Timed ι)
  | .add now timeout hndl => do
    let (set, _) ← w.set.add now timeout hndl
    let deadline := (now + UInt64.ofInt timeout).toNat
    pure ⟨set, w.active ++ [(deadline, hndl)], max w.latest now.toNat⟩
  | .rm hndl => do
    let (set, _) ← w.set.rm hndl
    pure { w with set := set, active := w.active.remove hndl }
  | .event now => do
    let (set, _, hndl) ← w.set.event now
    match hndl with
    | none => pure { w with set := set }
    | some hndl => pure { w with set := set, active := w.active.remove hndl }

/-- A handle that is not active is added, with an `int` that is not negative. -/
def enabled (w : Timed ι) : TimersetOp ι → Prop
  | .add _ timeout hndl => (∀ p ∈ w.active, p.2 ≠ hndl) ∧ 0 ≤ timeout ∧ timeout < 2 ^ 31
  | .rm _ | .event _ => True

/-- The runs of a timer set, whatever the clock reads. -/
def system : System (Timed ι) (TimersetOp ι) Fault where
  init w := ∃ timeout, w = ⟨.init timeout, [], 0⟩
  enabled := enabled
  exec := exec

end Timed

namespace Active

/-- How long it is until the first deadline. -/
def left (t : Active ι) (now : UInt64) : ℤ :=
  match Priority.first t with
  | none => -1
  | some p => max 0 (p.1 - now.toNat)

/-- The first deadline is to come; or the low 32 bits of the time since then do not look like a
    time to come. -/
def Tells (t : Active ι) (now : UInt64) : Prop :=
  ∀ p, Priority.first t = some p → now.toNat ≤ p.1 ∨ (now.toNat - p.1) % 2 ^ 32 ≤ 2 ^ 31

end Active

namespace Timed

variable {w : Timed ι}

/-- The set keeps what is active, and no deadline is farther off than a timeout is long. -/
structure Inv (w : Timed ι) : Prop where
  holds : w.set.Holds w.active
  near : ∀ p ∈ w.active, p.1 < w.latest + 2 ^ 31

theorem inv_init {timeout : ι → UInt64} : Inv ⟨.init timeout, [], 0⟩ where
  holds := Timerset.holds_init timeout
  near _ hp := absurd hp List.not_mem_nil

/-- A deadline stored is no later than it should be. -/
theorem stored_lt (now : UInt64) {timeout : ℤ} (h0 : 0 ≤ timeout) (ht : timeout < 2 ^ 31) :
    (now + UInt64.ofInt timeout).toNat < now.toNat + 2 ^ 31 := by
  rw [Clock.toNat_add_ofInt now h0 (by omega)]
  omega

theorem Inv.remove (h : Inv w) {set : Timerset ι} {hndl : ι}
    (hs : set.Holds (w.active.remove hndl)) :
    Inv { w with set := set, active := w.active.remove hndl } where
  holds := hs
  near p hp := h.near p (List.mem_filter.1 hp).1

/-- Each call keeps the invariant. -/
theorem inv_step (h : Inv w) {op : TimersetOp ι} (he : enabled w op) :
    ∃ w', exec w op = .ok w' ∧ Inv w' := by
  cases op with
  | add now timeout hndl =>
    obtain ⟨hout, h0, ht⟩ := he
    obtain ⟨set, hx, hs⟩ := Timerset.add_holds h.holds hout
      (Eq.refl (now + UInt64.ofInt timeout).toNat)
    refine ⟨⟨set, _, _⟩, by rw [exec, hx]; rfl, hs, fun p hp => ?_⟩
    rcases List.mem_append.1 hp with hp | hp
    · have := h.near p hp
      dsimp only
      omega
    · have := stored_lt now h0 ht
      rw [List.mem_singleton.1 hp]
      dsimp only
      omega
  | rm hndl =>
    obtain ⟨set, hx, hs⟩ := Timerset.rm_spec h.holds hndl
    exact ⟨_, by rw [exec, hx]; rfl, h.remove hs⟩
  | event now =>
    obtain ⟨-, hx⟩ | ⟨hndl, set, -, hx, hs⟩ := Timerset.event_due h.holds now
    · exact ⟨w, by rw [exec, hx]; rfl, h⟩
    · exact ⟨_, by rw [exec, hx]; rfl, h.remove hs⟩

theorem inv_of_reachable (hw : system.Reachable w) : Inv w := by
  refine System.Keeps.of_reach (P := Inv) ⟨?_, fun _ _ h he _ => inv_step h he⟩ hw
  rintro _ ⟨timeout, rfl⟩
  exact inv_init

end Timed

namespace Timerset

variable {self : Timerset ι} {t : Active ι} {p : ℕ × ι}

/-- Without a handle there is nothing to wait for. -/
theorem timersetTimeout_none (h : Holds self t) (hf : Priority.first t = none) (now : UInt64) :
    self.timersetTimeout now = .ok (-1) := by
  obtain ⟨ps, hps, hl, -⟩ := h.sorts
  have hemp := hl.empty_eq
  rw [hps.first_eq, List.head?_eq_none_iff] at hf
  rw [hf] at hemp
  exact if_pos hemp

/-- Else the difference is that of the first deadline and the clock reading. -/
theorem timersetTimeout_some (h : Holds self t) (hf : Priority.first t = some p) (now : UInt64) :
    ∃ d : UInt64, d.toNat = p.1 ∧ self.timersetTimeout now = .ok (max 0 (Clock.toInt (d - now))) := by
  obtain ⟨ps, hps, hl, -⟩ := h.sorts
  have hemp := hl.empty_eq
  have hfirst := hl.first_eq
  have hp := List.mem_of_find?_eq_some hf
  rw [hps.first_eq] at hf
  obtain ⟨qs, rfl⟩ := List.head?_eq_some_iff.1 hf
  rw [List.map_cons, List.isEmpty_cons] at hemp
  rw [List.map_cons, Link.head_cons] at hfirst
  refine ⟨self.timeout p.2, h.timeout p hp, ?_⟩
  rw [timersetTimeout, hemp, hfirst]
  simp only [Bool.false_eq_true, if_false, Except.ok.injEq]
  omega

end Timerset

namespace Timed

variable {w : Timed ι}

/-- In every state reached, and whenever no handle was added later, the worker is told how long
    it is until the first deadline exactly if this is not too long ago. -/
theorem timeout_correct_iff (hw : system.Reachable w) {now : UInt64} (hnow : w.latest ≤ now.toNat) :
    w.set.timersetTimeout now = .ok (w.active.left now) ↔ w.active.Tells now := by
  have h := inv_of_reachable hw
  rw [Active.left, Active.Tells]
  cases hf : Priority.first w.active with
  | none => exact iff_of_true (Timerset.timersetTimeout_none h.holds hf now) nofun
  | some p =>
    obtain ⟨d, hd, hx⟩ := Timerset.timersetTimeout_some h.holds hf now
    have hnear := h.near p (List.mem_of_find?_eq_some hf)
    simp only [hx, Except.ok.injEq, Option.some.injEq, forall_eq']
    by_cases hle : now.toNat ≤ d.toNat
    · -- It is to come, in no more than a timeout.
      have hlt : (d - now).toNat < 2 ^ 31 := by
        rw [Clock.toNat_sub_of_le hle]
        omega
      rw [Clock.toInt_of_lt hlt, Clock.toNat_sub_of_le hle]
      omega
    · have hnonpos := Clock.toInt_sub_nonpos_iff (Nat.not_le.1 hle)
      omega

/-- A timer that is due at 5. -/
theorem oneTimer_reachable : ∃ set, system.Reachable (⟨set, [(5, ())], 2⟩ : Timed Unit) := by
  obtain ⟨set, hx, -⟩ := Timerset.add_holds (Timerset.holds_init fun _ : Unit => 0)
    (fun _ hp => absurd hp List.not_mem_nil) (show (2 + UInt64.ofInt 3 : UInt64).toNat = 5 from rfl)
  refine ⟨set, .step (s := ⟨.init fun _ => 0, [], 0⟩) (a := .add 2 3 ()) (.init ⟨_, rfl⟩)
    ⟨fun _ hp => absurd hp List.not_mem_nil, by decide, by decide⟩ trivial ?_⟩
  have hexec : exec ⟨.init fun _ => 0, [], 0⟩ (.add 2 3 ()) = .ok ⟨set, [(5, ())], 2⟩ := by
    rw [exec, hx]
    rfl
  exact hexec

theorem timeout_correct_iff_one : ∃ set : Timerset Unit,
    (set.timersetTimeout 4 = .ok (Active.left [(5, ())] 4) ↔ Active.Tells [(5, ())] 4) := by
  obtain ⟨set, h⟩ := oneTimer_reachable
  exact ⟨set, timeout_correct_iff h (show 2 ≤ 4 by decide)⟩

/-- Just over 2 ^ 31 milliseconds after a timer was due, the worker is told to wait for as long
    again. -/
theorem timeout_not_correct : ∃ w : Timed Unit, system.Reachable w ∧ w.latest ≤ 2147483654 ∧
    w.active.left 2147483654 = 0 ∧ w.set.timersetTimeout 2147483654 = .ok 2147483647 := by
  obtain ⟨set, h⟩ := oneTimer_reachable
  refine ⟨_, h, show 2 ≤ 2147483654 by decide, show Active.left [(5, ())] _ = 0 by decide, ?_⟩
  obtain ⟨d, hd, hx⟩ := Timerset.timersetTimeout_some (inv_of_reachable h).holds rfl 2147483654
  rw [hx, UInt64.toNat_inj.1 (show d.toNat = (5 : UInt64).toNat from hd)]
  decide

end Timed

end Nanomsg
