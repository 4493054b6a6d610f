import Mathlib.Logic.Function.Basic
import Nanomsg.Fault
import Nanomsg.Lib.System

/-!
# Semaphores

Of the implementations of `nn_sem` one is a `sem_t`, a counter that `nn_sem_post` increments and a
successful `nn_sem_wait` decrements (`Semaphore.step`). Another is made of a mutex, a condition
variable and a flag, the step relation of this file, in which any number of threads call the two
functions, a thread in `pthread_cond_wait` wakes up at any time, and a post is only made when all
posts before have been consumed.

The flag is to be the value of a semaphore. A wait that finds it set when it locks the mutex
returns 0, as one that finds it set when it wakes up, but it leaves the flag as it is; one post
then lets two waits succeed, and the next fails the assertion (`not_semaphore`). Without such a
wait the flag is a semaphore (`sem_correct_iff`).
-/

namespace Nanomsg

open Function Transition

/-! ### What a semaphore is -/

/-- What a step means for the semaphore. -/
inductive SemEvent
  | post
  /-- A wait succeeds. -/
  | wait
  /-- A wait fails with `EINTR`. -/
  | interrupted
  /-- Nothing has happened yet. -/
  | internal
  deriving DecidableEq, Repr

/-- The value of a semaphore (`sem_t`) after an event that may happen at the value before. -/
def Semaphore.step : ℕ → SemEvent → Option ℕ
  | value, .post => some (value + 1)
  | 0, .wait => none
  | value + 1, .wait => some value
  | value, .interrupted | value, .internal => some value

/-! ### The condition variable -/

/-- Where a thread is. -/
inductive SemPoint
  | idle
  /-- Before `pthread_mutex_lock` of `nn_sem_post`. -/
  | postLock
  /-- The assertion, and setting the flag. -/
  | postSet
  /-- `pthread_cond_signal`. -/
  | postSignal
  | postUnlock
  /-- Before `pthread_mutex_lock` of `nn_sem_wait`. -/
  | waitLock
  /-- Looking at the flag for the first time. -/
  | waitLook
  /-- In `pthread_cond_wait`. -/
  | asleep
  /-- Looking at the flag after it. -/
  | waitCheck
  /-- Before `pthread_mutex_unlock` and returning `rc`. -/
  | waitUnlock (rc : ℤ)
  deriving DecidableEq, Repr

/-- The two functions. -/
inductive SemCall
  | post
  | wait
  deriving DecidableEq, Repr

/-- `struct nn_sem`, where each thread is, and how many posts were made and waits returned 0. -/
structure Sem (τ : Type) where
  /-- The thread that has locked the mutex. -/
  mutex : Option τ
  signaled : Bool
  point : τ → SemPoint
  posts : ℕ
  succeeded : ℕ

/-- A thread calls one of the functions, or takes its next step. -/
inductive SemAction (τ : Type)
  | call (t : τ) (f : SemCall)
  | step (t : τ)
  deriving DecidableEq, Repr

namespace SemPoint

/-- The next step locks the mutex. -/
def Locks : SemPoint → Prop
  | postLock | waitLock | asleep => True
  | _ => False

instance : DecidablePred Locks := fun p => by
  cases p <;> first | exact isTrue trivial | exact isFalse not_false

/-- The thread has locked the mutex. -/
def Owns : SemPoint → Prop
  | idle | postLock | waitLock | asleep => False
  | _ => True

/-- A post that has yet to set the flag. -/
def Posts : SemPoint → Prop
  | postLock | postSet => True
  | _ => False

end SemPoint

namespace Sem

variable {τ : Type}

/-- `nn_sem_init`. -/
def init : Sem τ := ⟨none, false, fun _ => .idle, 0, 0⟩

/-- A post is made when all posts before have been consumed; and the mutex is locked when no
    other thread has locked it. -/
def enabled (s : Sem τ) : SemAction τ → Prop
  | .call t .post => s.point t = .idle ∧ s.posts ≤ s.succeeded
  | .call t .wait => s.point t = .idle
  | .step t => s.point t ≠ .idle ∧ ((s.point t).Locks → s.mutex = none)

instance (s : Sem τ) : DecidablePred s.enabled := fun
  | .call _ .post => inferInstanceAs (Decidable (_ ∧ _))
  | .call _ .wait => inferInstanceAs (Decidable (_ = _))
  | .step _ => inferInstanceAs (Decidable (_ ∧ (_ → _)))

section

variable [DecidableEq τ]

/-- Thread `t` goes on at `p`. -/
def goto (s : Sem τ) (t : τ) (p : SemPoint) : Sem τ := { s with point := update s.point t p }

/-- The next step of thread `t` in `nn_sem_post` or `nn_sem_wait`. -/
def advance (s : Sem τ) (t : τ) : Except Fault (Sem τ) :=
  match s.point t with
  | .idle => pure s
  | .postLock => pure { s.goto t .postSet with mutex := some t }
  | .postSet => do
    nnAssert !s.signaled
    pure { s.goto t .postSignal with signaled := true }
  -- A thread that is asleep may wake up with or without the signal.
  | .postSignal => pure (s.goto t .postUnlock)
  | .postUnlock => pure { s.goto t .idle with mutex := none }
  | .waitLock => pure { s.goto t .waitLook with mutex := some t }
  | .waitLook =>
    if s.signaled then
      pure (s.goto t (.waitUnlock 0))
    else
      pure { s.goto t .asleep with mutex := none }
  | .asleep => pure { s.goto t .waitCheck with mutex := some t }
  | .waitCheck =>
    if !s.signaled then
      pure (s.goto t (.waitUnlock (-Errno.eintr)))
    else
      pure { s.goto t (.waitUnlock 0) with signaled := false }
  | .waitUnlock rc =>
    let succeeded := if rc = 0 then s.succeeded + 1 else s.succeeded
    pure { s.goto t .idle with mutex := none, succeeded := succeeded }

/-- An action. -/
def exec (s : Sem τ) : SemAction τ → Except Fault (Sem τ)
  | .call t .post => pure { s.goto t .postLock with posts := s.posts + 1 }
  | .call t .wait => pure (s.goto t .waitLock)
  | .step t => s.advance t

/-- The threads `τ`, sharing a semaphore. -/
def system (τ : Type) [DecidableEq τ] : System (Sem τ) (SemAction τ) Fault where
  init s := s = .init
  enabled := enabled
  exec := exec

instance (s : Sem τ) : DecidablePred ((system τ).enabled s) :=
  inferInstanceAs (DecidablePred s.enabled)

end

/-- The value that the flag stands for. -/
def value (s : Sem τ) : ℕ := s.signaled.toNat

/-- What an action means for the semaphore. -/
def event (s : Sem τ) : SemAction τ → SemEvent
  | .call _ _ => .internal
  | .step t =>
    match s.point t, s.signaled with
    | .postSet, _ => .post
    | .waitLook, true | .waitCheck, true => .wait
    | .waitCheck, false => .interrupted
    | _, _ => .internal

/-- No more waits have returned 0 than posts were made. -/
def Counts (s : Sem τ) : Prop := s.succeeded ≤ s.posts

/-- The flag is the value of a semaphore. -/
def Refines (s : Sem τ) (a : SemAction τ) (s' : Sem τ) : Prop :=
  Semaphore.step s.value (s.event a) = some s'.value

/-- A wait that has locked the mutex does not find the flag set: it is set while the wait is
    asleep. -/
def Sleeps (s : Sem τ) : SemAction τ → Prop
  | .call _ _ => True
  | .step t => s.point t = .waitLook → s.signaled = false

/-! ### Where the post is -/

/-- Where the last post is that has been made. -/
inductive Token (τ : Type)
  /-- It has been consumed, or there is none. -/
  | spent
  /-- Its thread has yet to set the flag. -/
  | made (t : τ)
  /-- The flag is set. -/
  | flag
  /-- A wait has found the flag set, and is to return 0. -/
  | taken (t : τ)

/-- How many posts are not consumed. -/
def Token.count : Token τ → ℕ
  | .spent => 0
  | _ => 1

/-- The post is at `k`. -/
structure Holds (s : Sem τ) (k : Token τ) : Prop where
  mutex : ∀ t, (s.point t).Owns ↔ s.mutex = some t
  made : ∀ t, (s.point t).Posts ↔ k = .made t
  signaled : s.signaled = true ↔ k = .flag
  taken : ∀ t, s.point t = .waitUnlock 0 ↔ k = .taken t
  posts : s.posts = s.succeeded + k.count

/-- The post is somewhere. -/
def Inv (s : Sem τ) : Prop := ∃ k, s.Holds k

theorem inv_init : Inv (.init : Sem τ) :=
  ⟨.spent, ⟨by simp [init, SemPoint.Owns], by simp [init, SemPoint.Posts], by simp [init],
    by simp [init], rfl⟩⟩

theorem Inv.counts {s : Sem τ} (h : s.Inv) : s.Counts := by
  obtain ⟨k, h⟩ := h
  rw [Counts, h.posts]
  exact Nat.le_add_right _ _

variable {s : Sem τ} {k : Token τ} {t : τ}

/-- The post is with no other thread than `t`. -/
def Token.With (k : Token τ) (t : τ) : Prop := ∀ u, u ≠ t → k ≠ .made u ∧ k ≠ .taken u

@[simp] theorem Token.with_spent : (Token.spent : Token τ).With t := fun _ _ => ⟨nofun, nofun⟩

@[simp] theorem Token.with_flag : (Token.flag : Token τ).With t := fun _ _ => ⟨nofun, nofun⟩

@[simp] theorem Token.with_made : (Token.made t).With t :=
  fun _ hu => ⟨fun h => hu (Token.made.inj h).symm, nofun⟩

@[simp] theorem Token.with_taken : (Token.taken t).With t :=
  fun _ hu => ⟨nofun, fun h => hu (Token.taken.inj h).symm⟩

/-- Locking and unlocking the mutex is nothing to the other threads. -/
theorem ne_of_free {m : Option τ} (hm : m = none ∨ m = some t) {m' : Option τ}
    (hm' : m' = none ∨ m' = some t) (u : τ) (hu : u ≠ t) : m = some u ↔ m' = some u := by
  rcases hm with rfl | rfl <;> rcases hm' with rfl | rfl <;> simp [hu.symm]

/-- The mutex is free when a step locks it, and else the thread has locked it. -/
theorem Holds.free_or_own (h : s.Holds k) (he : s.enabled (.step t)) :
    s.mutex = none ∨ s.mutex = some t := by
  obtain ⟨hne, hlock⟩ := he
  cases hp : s.point t with
  | idle => exact absurd hp hne
  | postLock | waitLock | asleep => exact .inl (hlock (by rw [hp]; trivial))
  | postSet | postSignal | postUnlock | waitLook | waitCheck | waitUnlock =>
    exact .inr ((h.mutex t).1 (by rw [hp]; trivial))

variable [DecidableEq τ]

/-- What holds of the point of each thread, when `t` has gone on at `p`. -/
theorem update_iff {point : τ → SemPoint} {A : SemPoint → Prop} {B B' : τ → Prop} {p : SemPoint}
    (h : ∀ u, A (point u) ↔ B u) (hself : A p ↔ B' t) (hne : ∀ u, u ≠ t → (B u ↔ B' u)) (u : τ) :
    A (update point t p u) ↔ B' u := by
  by_cases hu : u = t
  · rw [hu, update_self, hself]
  · rw [update_of_ne hu, h, hne u hu]

/-- Thread `t` goes on at `p`, and the post stays where it is. -/
theorem Holds.keep (h : s.Holds k) {p : SemPoint} {m : Option τ}
    (hm : ∀ u, u ≠ t → (s.mutex = some u ↔ m = some u)) (hown : p.Owns ↔ m = some t)
    (hposts : p.Posts ↔ (s.point t).Posts) (hzero : p = .waitUnlock 0 ↔ s.point t = .waitUnlock 0) :
    Holds { s.goto t p with mutex := m } k where
  mutex := update_iff h.mutex hown hm
  made := update_iff h.made (hposts.trans (h.made t)) fun _ _ => Iff.rfl
  signaled := h.signaled
  taken := update_iff (A := (· = .waitUnlock 0)) h.taken (hzero.trans (h.taken t)) fun _ _ => Iff.rfl
  posts := h.posts

/-- Thread `t` goes on at `p`, which takes the post from `k` to `k'`. -/
theorem Holds.pass (h : s.Holds k) {p : SemPoint} {k' : Token τ} {f : Bool} {m : Option τ} {n l : ℕ}
    (hk : k.With t) (hk' : k'.With t) (hm : ∀ u, u ≠ t → (s.mutex = some u ↔ m = some u))
    (hown : p.Owns ↔ m = some t) (hposts : p.Posts ↔ k' = .made t)
    (hzero : p = .waitUnlock 0 ↔ k' = .taken t) (hf : f = true ↔ k' = .flag)
    (hn : n = l + k'.count) : Holds ⟨m, f, update s.point t p, n, l⟩ k' where
  mutex := update_iff h.mutex hown hm
  made := update_iff h.made hposts fun u hu => iff_of_false (hk u hu).1 (hk' u hu).1
  signaled := hf
  taken := update_iff (A := (· = .waitUnlock 0)) h.taken hzero fun u hu =>
    iff_of_false (hk u hu).2 (hk' u hu).2
  posts := hn

/-- A step that leaves the semaphore alone. -/
theorem Holds.stays (h : s.Holds k) (he : s.enabled (.step t)) (p : SemPoint) (m : Option τ)
    (hx : s.advance t = .ok { s.goto t p with mutex := m }) (hm : m = none ∨ m = some t)
    (hown : p.Owns ↔ m = some t) (hposts : p.Posts ↔ (s.point t).Posts)
    (hzero : p = .waitUnlock 0 ↔ s.point t = .waitUnlock 0)
    (hev : Semaphore.step s.value (s.event (.step t)) = some s.value) :
    ∃ s', s.advance t = .ok s' ∧ s.Refines (.step t) s' ∧ s'.Inv :=
  ⟨_, hx, hev, k, h.keep (ne_of_free (h.free_or_own he) hm) hown hposts hzero⟩

/-- The assertion holds, and every step keeps the post where the flag says. -/
theorem step_inv (h : s.Holds k) (he : s.enabled (.step t)) (hc : s.Sleeps (.step t)) :
    ∃ s', s.advance t = .ok s' ∧ s.Refines (.step t) s' ∧ s'.Inv := by
  have hfree := h.free_or_own he
  have hown := h.mutex t
  have hmade := h.made t
  have htaken := h.taken t
  cases hp : s.point t with
  | idle => exact absurd hp he.1
  | postLock =>
    exact h.stays he .postSet (some t) (by simp only [advance, hp, pure_eq_ok]) (.inr rfl)
      (by simp [SemPoint.Owns]) (by simp [hp, SemPoint.Posts]) (by simp [hp])
      (by simp [event, hp, Semaphore.step])
  | postSet =>
    -- The post is here, so that it is not in the flag.
    obtain rfl : k = .made t := hmade.1 (by rw [hp]; trivial)
    have hs : s.signaled = false := by simpa using h.signaled
    have hm : s.mutex = some t := hown.1 (by rw [hp]; trivial)
    refine ⟨_, by simp only [advance, hp, hs]; rfl,
      by simp [Refines, value, event, hp, hs, Semaphore.step], .flag,
      h.pass Token.with_made Token.with_flag (fun _ _ => Iff.rfl) ?_ ?_ ?_ ?_ h.posts⟩
    all_goals simp [SemPoint.Owns, SemPoint.Posts, hm]
  | postSignal =>
    have hm : s.mutex = some t := hown.1 (by rw [hp]; trivial)
    exact h.stays he .postUnlock s.mutex (by simp only [advance, hp, pure_eq_ok, goto]) (.inr hm)
      (by simp [SemPoint.Owns, hm]) (by simp [hp, SemPoint.Posts]) (by simp [hp])
      (by simp [event, hp, Semaphore.step])
  | postUnlock =>
    exact h.stays he .idle none (by simp only [advance, hp, pure_eq_ok]) (.inl rfl)
      (by simp [SemPoint.Owns]) (by simp [hp, SemPoint.Posts]) (by simp [hp])
      (by simp [event, hp, Semaphore.step])
  | waitLock =>
    exact h.stays he .waitLook (some t) (by simp only [advance, hp, pure_eq_ok]) (.inr rfl)
      (by simp [SemPoint.Owns]) (by simp [hp, SemPoint.Posts]) (by simp [hp])
      (by simp [event, hp, Semaphore.step])
  | waitLook =>
    have hs : s.signaled = false := hc hp
    exact h.stays he .asleep none (by simp [advance, hp, hs]) (.inl rfl)
      (by simp [SemPoint.Owns]) (by simp [hp, SemPoint.Posts]) (by simp [hp])
      (by simp [event, hp, hs, Semaphore.step])
  | asleep =>
    exact h.stays he .waitCheck (some t) (by simp only [advance, hp, pure_eq_ok]) (.inr rfl)
      (by simp [SemPoint.Owns]) (by simp [hp, SemPoint.Posts]) (by simp [hp])
      (by simp [event, hp, Semaphore.step])
  | waitCheck =>
    have hm : s.mutex = some t := hown.1 (by rw [hp]; trivial)
    cases hs : s.signaled with
    | false =>
      exact h.stays he (.waitUnlock (-Errno.eintr)) s.mutex (by simp [advance, hp, hs, goto]) (.inr hm)
        (by simp [SemPoint.Owns, hm]) (by simp [hp, SemPoint.Posts]) (by simp [hp, Errno.eintr])
        (by simp [event, hp, hs, Semaphore.step])
    | true =>
      obtain rfl : k = .flag := h.signaled.1 hs
      refine ⟨_, by simp only [advance, hp, hs]; rfl,
        by simp [Refines, value, event, hp, hs, Semaphore.step], .taken t,
        h.pass Token.with_flag Token.with_taken (fun _ _ => Iff.rfl) ?_ ?_ ?_ ?_ h.posts⟩
      all_goals simp [SemPoint.Owns, SemPoint.Posts, hm]
  | waitUnlock rc =>
    by_cases hrc : rc = 0
    · obtain rfl : k = .taken t := htaken.1 (by rw [hp, hrc])
      have hs : s.signaled = false := by simpa using h.signaled
      refine ⟨_, by simp only [advance, hp, if_pos hrc]; rfl,
        by simp [Refines, value, event, hp, hs, goto, Semaphore.step], .spent,
        h.pass Token.with_taken Token.with_spent (ne_of_free hfree (.inl rfl)) ?_ ?_ ?_ ?_ h.posts⟩
      all_goals simp [goto, SemPoint.Owns, SemPoint.Posts, hs]
    · exact h.stays he .idle none (by simp only [advance, hp, if_neg hrc, pure_eq_ok]; rfl) (.inl rfl)
        (by simp [SemPoint.Owns]) (by simp [hp, SemPoint.Posts]) (by simp [hp, hrc])
        (by simp [event, hp, Semaphore.step])

/-- A call is nothing to the semaphore; a post is made where there is none left. -/
theorem call_inv (h : s.Holds k) {f : SemCall} (he : s.enabled (.call t f)) :
    ∃ s', exec s (.call t f) = .ok s' ∧ s.Refines (.call t f) s' ∧ s'.Inv := by
  cases f with
  | post =>
    obtain ⟨hp, hle⟩ := he
    have hm : s.mutex ≠ some t := fun hm => by simpa [hp, SemPoint.Owns] using (h.mutex t).2 hm
    have hposts := h.posts
    have hcount : k.count = 0 := by omega
    obtain rfl : k = .spent := by
      cases k with
      | spent => rfl
      | made | flag | taken => cases hcount
    have hs : s.signaled = false := by simpa using h.signaled
    refine ⟨_, rfl, rfl, .made t,
      h.pass Token.with_spent Token.with_made (fun _ _ => Iff.rfl) ?_ ?_ ?_ ?_ ?_⟩
    · simpa [SemPoint.Owns, goto] using hm
    · simp [SemPoint.Posts]
    · simp
    · simp [goto, hs]
    · exact congrArg (· + 1) hposts
  | wait =>
    have hp : s.point t = .idle := he
    have hm : s.mutex ≠ some t := fun hm => by simpa [hp, SemPoint.Owns] using (h.mutex t).2 hm
    refine ⟨_, rfl, rfl, k, h.keep (m := s.mutex) (fun _ _ => Iff.rfl) ?_ ?_ ?_⟩
    · simpa [SemPoint.Owns] using hm
    · simp [hp, SemPoint.Posts]
    · simp [hp]

/-- Where a wait finds the flag set when it locks the mutex, the flag is no semaphore. -/
theorem sleeps_of_refines {a : SemAction τ} {s' : Sem τ} (hx : exec s a = .ok s')
    (hr : s.Refines a s') : s.Sleeps a := by
  cases a with
  | call t f => trivial
  | step t =>
    intro hp
    rw [← Bool.not_eq_true]
    intro hs
    simp only [exec, advance, hp, hs, if_true, pure_eq_ok, Except.ok.injEq] at hx
    subst hx
    simp [Refines, value, event, goto, hp, hs, Semaphore.step] at hr

/-- A run in which no assertion fails, the flag is a semaphore and no more waits have returned 0
    than posts were made is one in which no wait finds the flag set when it locks the mutex. -/
theorem sem_correct_iff (as : List (SemAction τ)) :
    (system τ).Correct Counts Refines init as ↔ (system τ).Meets Sleeps init as := by
  refine System.correct_iff_meets (I := Inv) (fun _ => Inv.counts) ?_ ?_ inv_init as
  · rintro s a ⟨k, h⟩ he hc
    cases a with
    | call t f => exact call_inv h he
    | step t => exact step_inv h he hc
  · intro s a s' _ _ hx hr _
    exact sleeps_of_refines hx hr

/-- A thread posts, and another waits twice. -/
def twice : List (SemAction Bool) :=
  [.call true .post, .step true, .step true, .step true, .step true,
    .call false .wait, .step false, .step false, .step false,
    .call false .wait, .step false, .step false, .step false]

/-- Both waits return 0; and a second post that is made after the first of them aborts. -/
theorem not_semaphore :
    (∃ s, (system Bool).Reachable s ∧ ¬ s.Counts) ∧
      ∃ s a, (system Bool).Reachable s ∧ s.enabled a ∧ exec s a = .error .assertion := by
  constructor
  · obtain ⟨s, hs, hn⟩ : ∃ s, (system Bool).execAll init twice = some s ∧ ¬ s.succeeded ≤ s.posts :=
      ⟨_, rfl, by decide⟩
    exact ⟨s, (System.run_of_execAll hs).reachable (.init rfl), hn⟩
  · obtain ⟨s, hs, he, hx⟩ : ∃ s, (system Bool).execAll init
        (twice.take 9 ++ [.call true .post, .step true]) = some s ∧ s.enabled (.step true) ∧
          exec s (.step true) = .error .assertion := ⟨_, rfl, by decide, rfl⟩
    exact ⟨s, .step true, (System.run_of_execAll hs).reachable (.init rfl), he, hx⟩

end Sem

end Nanomsg
