import Mathlib.Tactic.Common

/-!
# Transition systems that may fail

A *system* is a program seen from the outside: at every state some actions are
enabled, and executing one either gives the next state or fails, as a program
fails at an assertion. An action carries everything that is not decided by the
state (which thread moves, what the environment answers), so that executing it
is a function.

Two ways of saying that a program is right:

* over *states*: a predicate kept by every enabled action (`System.Keeps`)
  holds in every state reached, and no enabled action fails there
  (`Keeps.of_reach`, `Keeps.exec_ok`). The actions may be limited to those
  meeting a condition `C`;
* over *runs*: along a given list of actions nothing fails and every state and
  every step is right (`System.Correct`). When a single step is right exactly
  if it meets `C`, so is a whole run (`correct_iff_meets`).
-/

namespace Transition

/-- A transition system with states `σ`, actions `α` and failures `ε`. -/
structure System (σ α ε : Type*) where
  /-- The initial states. -/
  init : σ → Prop
  /-- The actions that may be taken in a state. -/
  enabled : σ → α → Prop
  /-- Taking an action. -/
  exec : σ → α → Except ε σ

namespace System

variable {σ α ε : Type*} (S : System σ α ε) (C : σ → α → Prop)

/-- The states reached by actions that all meet `C`. -/
inductive Reach : σ → Prop
  | init {s : σ} : S.init s → Reach s
  | step {s s' : σ} {a : α} : Reach s → S.enabled s a → C s a → S.exec s a = .ok s' → Reach s'

/-- The states reached by any actions. -/
abbrev Reachable : σ → Prop := S.Reach fun _ _ => True

/-- `P` holds initially, and an action meeting `C` does not fail and keeps it. -/
structure Keeps (P : σ → Prop) : Prop where
  init : ∀ s, S.init s → P s
  step : ∀ s a, P s → S.enabled s a → C s a → ∃ s', S.exec s a = .ok s' ∧ P s'

variable {S C} {P : σ → Prop}

/-- What every action that does not fail keeps holds in every state reached. -/
theorem Reach.holds (hinit : ∀ s, S.init s → P s)
    (hstep : ∀ s a s', P s → S.enabled s a → C s a → S.exec s a = .ok s' → P s') {s : σ}
    (hs : S.Reach C s) : P s := by
  induction hs with
  | init hi => exact hinit _ hi
  | step _ he hc hx ih => exact hstep _ _ _ ih he hc hx

/-- What is kept holds in every state reached. -/
theorem Keeps.of_reach (h : S.Keeps C P) {s : σ} (hs : S.Reach C s) : P s := by
  refine hs.holds h.init fun s a s' hp he hc hx => ?_
  obtain ⟨t, hx', ht⟩ := h.step s a hp he hc
  exact Except.ok.inj (hx'.symm.trans hx) ▸ ht

/-- In a state reached, an enabled action meeting the condition does not fail. -/
theorem Keeps.exec_ok (h : S.Keeps C P) {s : σ} (hs : S.Reach C s) {a : α}
    (he : S.enabled s a) (hc : C s a) : ∃ s', S.exec s a = .ok s' :=
  let ⟨s', hx, _⟩ := h.step s a (h.of_reach hs) he hc
  ⟨s', hx⟩

/-! ### Runs -/

variable (S C P) (Q : σ → α → σ → Prop)

/-- The run of the actions `as` from `s` is right: no action fails, every state
    satisfies `P` and every step `Q`. A run ends at an action not enabled. -/
def Correct : σ → List α → Prop
  | s, [] => P s
  | s, a :: as => P s ∧ (S.enabled s a → ∃ s', S.exec s a = .ok s' ∧ Q s a s' ∧ Correct s' as)

/-- Every action of the run of `as` from `s` meets `C` where it is taken. -/
def Meets : σ → List α → Prop
  | _, [] => True
  | s, a :: as => S.enabled s a → C s a ∧ ∀ s', S.exec s a = .ok s' → Meets s' as

variable {S C P Q}

/-- `as` leads from `s` to `s'`, each action being enabled. -/
inductive Run (S : System σ α ε) : σ → List α → σ → Prop
  | nil (s : σ) : Run S s [] s
  | cons {s s' s'' : σ} {a : α} {as : List α} : S.enabled s a → S.exec s a = .ok s' →
      Run S s' as s'' → Run S s (a :: as) s''

/-- A run of actions that meet the condition wherever they are taken. -/
theorem Run.reach {s s' : σ} {as : List α} (h : S.Run s as s') (hc : ∀ a ∈ as, ∀ s, C s a)
    (hs : S.Reach C s) : S.Reach C s' := by
  induction h with
  | nil => exact hs
  | @cons s _ _ a as he hx _ ih =>
    rw [List.forall_mem_cons] at hc
    exact ih hc.2 (.step hs he (hc.1 s) hx)

theorem Run.reachable {s s' : σ} {as : List α} (h : S.Run s as s') (hs : S.Reachable s) :
    S.Reachable s' := h.reach (fun _ _ _ => trivial) hs

/-- Taking the actions of a list in turn, as long as each one is enabled and
    does not fail. -/
def execAll (S : System σ α ε) [∀ s, DecidablePred (S.enabled s)] : σ → List α → Option σ
  | s, [] => some s
  | s, a :: as => if S.enabled s a then (S.exec s a).toOption.bind (execAll S · as) else none

theorem run_of_execAll [∀ s, DecidablePred (S.enabled s)] {s s' : σ} {as : List α}
    (h : S.execAll s as = some s') : S.Run s as s' := by
  induction as generalizing s with
  | nil => exact Option.some.inj h ▸ .nil s
  | cons a as ih =>
    rw [execAll] at h
    split at h
    · next he =>
      cases hx : S.exec s a with
      | error _ => simp [hx, Except.toOption] at h
      | ok t => exact .cons he hx (ih (by simpa [hx, Except.toOption] using h))
    · simp at h

/-- Taking them as long as each one passes a test, too. -/
def execIf (S : System σ α ε) [∀ s, DecidablePred (S.enabled s)] (p : σ → α → Bool) :
    σ → List α → Option σ
  | s, [] => some s
  | s, a :: as =>
    if S.enabled s a ∧ p s a = true then (S.exec s a).toOption.bind (execIf S p · as) else none

/-- What passes a test for the condition is a run of actions meeting it. -/
theorem reach_of_execIf [∀ s, DecidablePred (S.enabled s)] {p : σ → α → Bool}
    (hp : ∀ s a, p s a = true → C s a) {s s' : σ} {as : List α} (h : S.execIf p s as = some s')
    (hs : S.Reach C s) : S.Reach C s' := by
  induction as generalizing s with
  | nil => exact Option.some.inj h ▸ hs
  | cons a as ih =>
    rw [execIf] at h
    split at h
    · next hc =>
      cases hx : S.exec s a with
      | error _ => simp [hx, Except.toOption] at h
      | ok t => exact ih (by simpa [hx, Except.toOption] using h) (hs.step hc.1 (hp s a hc.2) hx)
    · simp at h

theorem Correct.holds {s : σ} : ∀ {as : List α}, S.Correct P Q s as → P s
  | [], h => h
  | _ :: _, h => h.1

/-- What is left of a run that is right, when a step has been taken. -/
theorem Correct.step {s s' : σ} {a : α} {as : List α} (h : S.Correct P Q s (a :: as))
    (he : S.enabled s a) (hx : S.exec s a = .ok s') : S.Correct P Q s' as := by
  obtain ⟨t, hx', -, h'⟩ := h.2 he
  rw [hx] at hx'
  exact Except.ok.inj hx' ▸ h'

/-- A run that is right is right at its end. -/
theorem Correct.of_run {s s' : σ} {as : List α} (h : S.Correct P Q s as) (hr : S.Run s as s') :
    P s' := by
  induction hr with
  | nil => exact h
  | cons he hx _ ih =>
    obtain ⟨t, hx', -, h'⟩ := h.2 he
    rw [hx] at hx'
    exact ih (Except.ok.inj hx' ▸ h')

/-- Where every action keeps an invariant stronger than `P` and is right, all runs are. -/
theorem correct_of_step {I : σ → Prop} (hP : ∀ s, I s → P s)
    (hstep : ∀ s a, I s → S.enabled s a → ∃ s', S.exec s a = .ok s' ∧ Q s a s' ∧ I s')
    {s : σ} (hs : I s) (as : List α) : S.Correct P Q s as := by
  induction as generalizing s with
  | nil => exact hP s hs
  | cons a as ih =>
    refine ⟨hP s hs, fun he => ?_⟩
    obtain ⟨s', hx, hq, hi⟩ := hstep s a hs he
    exact ⟨s', hx, hq, ih hi⟩

/-- Two conditions that are the same where an invariant holds are met by the same runs. -/
theorem meets_congr {I : σ → Prop} {C C' : σ → α → Prop}
    (hI : ∀ s a s', I s → S.enabled s a → S.exec s a = .ok s' → I s')
    (hC : ∀ s a, I s → S.enabled s a → (C s a ↔ C' s a)) {s : σ} (hs : I s) (as : List α) :
    S.Meets C s as ↔ S.Meets C' s as := by
  induction as generalizing s with
  | nil => exact Iff.rfl
  | cons a as ih =>
    refine forall_congr' fun he => ?_
    refine and_congr (hC s a hs he) (forall_congr' fun s' => forall_congr' fun hx => ?_)
    exact ih (hI s a s' hs he hx)

/-- A condition that follows from an invariant is met by every run. -/
theorem meets_of_inv {I : σ → Prop}
    (hI : ∀ s a s', I s → S.enabled s a → S.exec s a = .ok s' → I s')
    (hC : ∀ s a, I s → S.enabled s a → C s a) {s : σ} (hs : I s) (as : List α) : S.Meets C s as := by
  induction as generalizing s with
  | nil => trivial
  | cons a as ih => exact fun he => ⟨hC s a hs he, fun s' hx => ih (hI s a s' hs he hx)⟩

/-- Take an invariant `I` stronger than `P`. If the actions meeting `C` keep it
    and are right, and an action is right only if it meets `C`, then the runs
    that are right are those meeting `C` all along. -/
theorem correct_iff_meets {I : σ → Prop} (hP : ∀ s, I s → P s)
    (hC : ∀ s a, I s → S.enabled s a → C s a → ∃ s', S.exec s a = .ok s' ∧ Q s a s' ∧ I s')
    (hQ : ∀ s a s', I s → S.enabled s a → S.exec s a = .ok s' → Q s a s' → P s' → C s a)
    {s : σ} (hs : I s) (as : List α) : S.Correct P Q s as ↔ S.Meets C s as := by
  induction as generalizing s with
  | nil => exact ⟨fun _ => trivial, fun _ => hP s hs⟩
  | cons a as ih =>
    constructor
    · rintro ⟨_, hr⟩ he
      obtain ⟨s', hx, hq, hc⟩ := hr he
      have ha := hQ s a s' hs he hx hq hc.holds
      refine ⟨ha, fun t ht => ?_⟩
      obtain ⟨t', hx', _, hi⟩ := hC s a hs he ha
      rw [hx'] at ht hx
      obtain rfl := Except.ok.inj ht
      obtain rfl := Except.ok.inj hx
      exact (ih hi).1 hc
    · intro hm
      refine ⟨hP s hs, fun he => ?_⟩
      obtain ⟨hc, hm'⟩ := hm he
      obtain ⟨s', hx, hq, hi⟩ := hC s a hs he hc
      exact ⟨s', hx, hq, (ih hi).2 (hm' s' hx)⟩

end System

end Transition
