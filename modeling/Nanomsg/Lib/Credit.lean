import Mathlib.Tactic.Common

/-!
# Permissions

A user may call a server once for each *permission* it is given. The server
reports every call when it is done with it, while the call is going on or later.
A report made during the call is given back as a permission when the call returns; one
made later raises an event, which gives the permission when it is delivered.

What the server is doing is its `Phase`, and whether its event is queued; what
the two have done so far is a `Usage`. They are `Balanced` if the user has a
permission, or one is on its way, exactly while the server is idle. Each move that is due
keeps them so.
-/

namespace Credit

/-- What a server is doing. -/
inductive Phase
  | idle
  /-- It is in a call, which it has not reported, or has. -/
  | calling
  | reported
  /-- A call has returned, which it has not reported. -/
  | waiting
  deriving DecidableEq

/-- What a user and its server have done. -/
structure Usage where
  /-- The user has a permission that it has not used. -/
  held : Bool
  /-- A call is going on. -/
  calling : Bool
  /-- A report is due. -/
  due : Bool
  reports : ℕ
  /-- The permissions given, by event or by return. -/
  granted : ℕ
  deriving DecidableEq

namespace Usage

variable (u : Usage)

/-- The user calls. -/
def call : Usage := { u with held := false, calling := true, due := true }

/-- The server reports, and raises its event or not. -/
def report (raised : Bool) : Usage :=
  { u with due := false, reports := u.reports + 1, granted := u.granted + raised.toNat }

/-- The call returns, and gives a permission or not. -/
def ret (given : Bool) : Usage :=
  { u with calling := false, held := u.held || given, granted := u.granted + given.toNat }

/-- The event is delivered. -/
def deliver : Usage := { u with held := true }

end Usage

/-- A permission is there, once, exactly while the server is idle, and one has been
    given for each report, after the first `n` that were given for nothing. -/
structure Balanced (n : ℕ) (phase : Phase) (queued : Bool) (u : Usage) : Prop where
  idle_iff : phase = .idle ↔ u.held = true ∨ queued = true
  once : ¬ (u.held = true ∧ queued = true)
  calling_iff : u.calling = true ↔ phase = .calling ∨ phase = .reported
  due_iff : u.due = true ↔ phase = .calling ∨ phase = .waiting
  count : u.granted + (if phase = .reported then 1 else 0) = u.reports + n

namespace Balanced

variable {n : ℕ} {phase : Phase} {queued : Bool} {u : Usage}

theorem not_queued (h : Balanced n phase queued u) (hp : phase ≠ .idle) : queued = false := by
  simpa using fun hq => hp (h.idle_iff.2 (.inr hq))

/-- A user with a permission finds the server idle. -/
theorem call (h : Balanced n phase queued u) (hu : u.held = true) :
    phase = .idle ∧ Balanced n .calling queued u.call := by
  have hidle := h.idle_iff.2 (.inl hu)
  have hq : queued = false := by simpa using fun hq => h.once ⟨hu, hq⟩
  subst hidle hq
  exact ⟨rfl, by simp [Usage.call], by simp, by simp [Usage.call], by simp [Usage.call],
    by simpa [Usage.call] using h.count⟩

/-- A report that is due is made in the call. -/
theorem report_calling (h : Balanced n .calling queued u) :
    Balanced n .reported queued (u.report false) := by
  obtain rfl := h.not_queued (by simp)
  have hheld : u.held = false := by simpa using h.idle_iff
  have hcount := h.count
  refine ⟨by simp [Usage.report, hheld], by simp, ?_, by simp [Usage.report], ?_⟩
  · simpa [Usage.report] using h.calling_iff
  · simp [Usage.report] at hcount ⊢
    omega

/-- A report is made after the call, when no event is queued. -/
theorem report_waiting (h : Balanced n .waiting queued u) :
    queued = false ∧ Balanced n .idle true (u.report true) := by
  obtain rfl := h.not_queued (by simp)
  have hheld : u.held = false := by simpa using h.idle_iff
  have hcount := h.count
  refine ⟨rfl, by simp, by simp [Usage.report, hheld], ?_, by simp [Usage.report], ?_⟩
  · simpa [Usage.report] using h.calling_iff
  · simp [Usage.report] at hcount ⊢
    omega

/-- The call returns without a permission if it has not been reported. -/
theorem ret_calling (h : Balanced n .calling queued u) :
    Balanced n .waiting queued (u.ret false) := by
  obtain rfl := h.not_queued (by simp)
  have hheld : u.held = false := by simpa using h.idle_iff
  refine ⟨by simp [Usage.ret, hheld], by simp, by simp [Usage.ret], ?_, ?_⟩
  · simpa [Usage.ret] using h.due_iff
  · simpa [Usage.ret] using h.count

/-- The call returns with a permission if it has been reported. -/
theorem ret_reported (h : Balanced n .reported queued u) :
    Balanced n .idle queued (u.ret true) := by
  obtain rfl := h.not_queued (by simp)
  refine ⟨by simp [Usage.ret], by simp, by simp [Usage.ret], ?_, ?_⟩
  · simpa [Usage.ret] using h.due_iff
  · simpa [Usage.ret] using h.count

/-- The event gives the user what it has not. -/
theorem deliver (h : Balanced n phase true u) : Balanced n phase false u.deliver := by
  have hidle := h.idle_iff.2 (.inr rfl)
  subst hidle
  exact ⟨by simp [Usage.deliver], by simp, h.calling_iff, h.due_iff, h.count⟩

end Balanced

end Credit
