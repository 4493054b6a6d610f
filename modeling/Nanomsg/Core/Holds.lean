import Nanomsg.Core.Onward
import Nanomsg.Lib.Refcount
import Nanomsg.Lib.System

/-!
# Closing a socket that is in use

Who uses a socket holds it (`nn_sock_hold`) and releases it after (`nn_sock_rele`), in any thread
and any order. `nn_close` stops the socket, releases the hold of `nn_sock_init` and waits in
`nn_sock_term`: for the socket to have stopped, and for the last release. The steps of these, and
those of the socket, interleave.

As long as no more holds are outstanding than an `int` counts, the last user is waited for
(`close_correct_iff`).
-/

namespace Nanomsg

open Intrusive Refcount Transition

/-- What the closing thread has done. -/
inductive Closer
  | working
  /-- `nn_sock_stop` has returned. -/
  | stopped
  /-- The hold of `nn_sock_init` is released. -/
  | released
  /-- `nn_sock_term` has waited for `termsem`. -/
  | waited
  /-- `nn_sock_term` has waited for `relesem`, too. -/
  | passed
  deriving DecidableEq, Repr

/-- What is done with a socket. -/
inductive HoldAction (τ : Type)
  /-- The thread `u` calls `nn_sock_hold`. -/
  | hold (u : τ)
  /-- It calls `nn_sock_rele`, after a hold. -/
  | rele (u : τ)
  /-- The closing thread goes on; a signal may interrupt it as it waits. -/
  | close (interrupted : Bool)
  /-- Something else happens to the socket. -/
  | sock (a : SockAction)

/-- A socket with its `holds`, the users that hold it and the closing thread, and how often
    `relesem` has been posted. -/
structure HeldSock (τ : Type) where
  sock : Sock
  holds : ℤ
  users : List τ
  closer : Closer
  posts : ℕ

namespace HeldSock

variable {τ : Type}

/-- A socket after `nn_sock_init`. -/
def init (sock : Sock) : HeldSock τ := ⟨sock, 1, [], .working, 0⟩

variable (w : HeldSock τ)

/-- `nn_sock_hold`: what it returns, and `holds` after it. -/
def hold : Except Fault (ℤ × ℤ) :=
  match w.sock.state with
  | .active | .init =>
    if w.holds < Sock.intMax then .ok (0, w.holds + 1) else .error .overflow
  | .stopping | .stoppingEps | .fini => .ok (-Errno.ebadf, w.holds)

/-- `nn_sock_rele`. -/
def rele : Except Fault (HeldSock τ) :=
  if w.holds ≤ -Sock.intMax - 1 then
    .error .overflow
  else
    let w := { w with holds := w.holds - 1 }
    if w.holds = 0 then
      let sock := { w.sock with relesem := w.sock.relesem + 1 }
      .ok { w with sock := sock, posts := w.posts + 1 }
    else
      .ok w

/-- The next step of the closing thread: `nn_sock_stop`, `nn_sock_rele`, and in `nn_sock_term` one
    `nn_sem_wait` after the other. -/
def close (t : SockType) (interrupted : Bool) : Except Fault (HeldSock τ) :=
  match w.closer with
  | .working => do
    let sock ← w.sock.stop t
    pure { w with sock := sock, closer := .stopped }
  | .stopped => do
    let w ← w.rele
    pure { w with closer := .released }
  | .released =>
    let sock := { w.sock with termsem := w.sock.termsem - 1 }
    pure (if interrupted then w else { w with sock := sock, closer := .waited })
  | .waited =>
    let sock := { w.sock with relesem := w.sock.relesem - 1 }
    pure (if interrupted then w else { w with sock := sock, closer := .passed })
  | .passed => pure w

/-- How many holds are outstanding, that of `nn_sock_init` among them. -/
def outstanding : ℕ :=
  w.users.length + if w.closer = .working ∨ w.closer = .stopped then 1 else 0

/-- A user releases a hold that it has. The socket is active when it is stopped, and a wait that is
    not interrupted succeeds when the semaphore has been posted. What the rest of the socket does
    is not to abort. -/
def enabled (t : SockType) (w : HeldSock τ) : HoldAction τ → Prop
  | .hold _ => True
  | .rele u => u ∈ w.users
  | .close interrupted =>
    match w.closer with
    | .working => w.sock.state = .active ∧ ∃ s, w.sock.stop t = .ok s
    | .stopped => True
    | .released => interrupted = true ∨ 0 < w.sock.termsem
    | .waited => interrupted = true ∨ 0 < w.sock.relesem
    | .passed => False
  | .sock a => a ≠ .stop ∧ ∃ r, w.sock.exec t a = .ok r

section

variable [DecidableEq τ]

/-- An action. -/
def exec (t : SockType) (w : HeldSock τ) : HoldAction τ → Except Fault (HeldSock τ)
  | .hold u => do
    let (rc, holds) ← w.hold
    pure { w with holds := holds, users := if rc = 0 then u :: w.users else w.users }
  | .rele u => do
    let w ← w.rele
    pure { w with users := w.users.erase u }
  | .close interrupted => w.close t interrupted
  | .sock a => do
    let (sock, _) ← w.sock.exec t a
    pure { w with sock := sock }

/-- A socket that is opened, used by the threads `τ` and closed. -/
def system (t : SockType) : System (HeldSock τ) (HoldAction τ) Fault where
  init w := ∃ items eidOf, w = init (Sock.opened items eidOf)
  enabled := enabled t
  exec := exec t

end

/-! ### What is right -/

/-- The holds outstanding are counted, `relesem` has been posted once if there is none left and else
    has not been, and no hold is outstanding when `nn_sock_term` has passed its second wait. -/
structure Right (w : HeldSock τ) : Prop where
  counted : w.holds = w.outstanding
  posts : w.posts = if w.outstanding = 0 then 1 else 0
  passed : w.closer = .passed → w.outstanding = 0

/-- A hold does not succeed after the stop, and `relesem` is posted by the release of the last
    hold only. -/
structure RightStep (w : HeldSock τ) (a : HoldAction τ) (w' : HeldSock τ) : Prop where
  hold : ∀ u, a = .hold u → w.closer ≠ .working → w.hold = .ok (-Errno.ebadf, w.holds) ∧ w' = w
  posts : w'.posts ≠ w.posts → w'.posts = w.posts + 1 ∧ w'.outstanding = 0 ∧
    ((∃ u, a = .rele u) ∨ ∃ interrupted, a = .close interrupted ∧ w.closer = .stopped)

/-- A hold on a socket that is not stopped can be counted. -/
def Countable (w : HeldSock τ) : HoldAction τ → Prop
  | .hold _ => ¬ w.sock.state.Gone → (w.outstanding : ℤ) < Sock.intMax
  | .rele _ | .close _ | .sock _ => True

/-! ### Counting -/

/-- The holds are counted, and the semaphore stands for there being none left. -/
structure Inv (w : HeldSock τ) : Prop where
  counted : w.holds = w.outstanding
  settled : Settled w.posts w.outstanding w.outstanding
  gone : w.closer ≠ .working → w.sock.state.Gone
  relesem : w.sock.relesem + (if w.closer = .passed then 1 else 0) = w.posts

variable {t : SockType} {w w' : HeldSock τ} {a : HoldAction τ} {n : ℕ}

theorem inv_init (items : Items Ep) (eidOf : Ep → ℤ) :
    Inv (init (Sock.opened items eidOf) : HeldSock τ) :=
  ⟨rfl, .new, fun h => absurd rfl h, rfl⟩

theorem Inv.right (h : w.Inv) : w.Right := by
  obtain ⟨hcounted, hsettled, -, hrelesem⟩ := h
  refine ⟨hcounted, ?_, fun hp => ?_⟩
  · rcases hsettled with ⟨hp, -, ho⟩ | ⟨hp, ho⟩
    · rw [hp, if_neg (Nat.ne_of_gt ho)]
    · rw [hp, if_pos ho]
  · rw [if_pos hp] at hrelesem
    rcases hsettled with ⟨hp, -, -⟩ | ⟨-, ho⟩
    · omega
    · exact ho

/-- One hold fewer, `n` being left: the semaphore is posted if there is none. -/
structure Released (w : HeldSock τ) (n : ℕ) (w' : HeldSock τ) : Prop where
  holds : w'.holds = n
  users : w'.users = w.users
  closer : w'.closer = w.closer
  state : w'.sock.state = w.sock.state
  posts : w'.posts = if n = 0 then w.posts + 1 else w.posts
  relesem : w'.sock.relesem = if n = 0 then w.sock.relesem + 1 else w.sock.relesem

theorem rele_ok (h : w.holds = (n + 1 : ℕ)) : ∃ w', w.rele = .ok w' ∧ Released w n w' := by
  have hlow : ¬ w.holds ≤ -Sock.intMax - 1 := by
    rw [h, Sock.intMax]
    omega
  have hn : w.holds - 1 = n := by omega
  rw [rele, if_neg hlow]
  dsimp only
  rw [hn]
  by_cases h0 : n = 0
  · rw [if_pos (by omega)]
    exact ⟨_, rfl, rfl, rfl, rfl, rfl, (if_pos h0).symm, (if_pos h0).symm⟩
  · rw [if_neg (by omega)]
    exact ⟨_, rfl, rfl, rfl, rfl, rfl, (if_neg h0).symm, (if_neg h0).symm⟩

/-- The release of a hold, whoever has had it. -/
theorem Inv.release (h : w.Inv) (ho : w.outstanding = n + 1) (hr : Released w n w')
    (users : List τ) (closer : Closer) (hp : w.closer ≠ .passed) (hp' : closer ≠ .passed)
    (hg : closer ≠ .working → w.sock.state.Gone)
    (ho' : { w' with users := users, closer := closer }.outstanding = n) :
    Inv { w' with users := users, closer := closer } where
  counted := by
    rw [ho']
    exact hr.holds
  settled := by
    have hsettled := h.settled
    rw [ho] at hsettled
    rw [ho']
    dsimp only
    rw [hr.posts]
    by_cases h0 : n = 0
    · subst h0
      rw [if_pos rfl]
      exact hsettled.free (Nat.le_refl 1) 0
    · rw [if_neg h0]
      exact hsettled.release (by omega)
  gone hc := by
    dsimp only
    rw [hr.state]
    exact hg hc
  relesem := by
    have hrelesem := h.relesem
    rw [if_neg hp] at hrelesem
    dsimp only
    rw [if_neg hp', hr.relesem, hr.posts]
    split <;> omega

/-! ### One step -/

/-- A step that posts nothing, and is no hold. -/
theorem rightStep_of_posts (hp : w'.posts = w.posts) (ha : ∀ u, a ≠ .hold u) : RightStep w a w' :=
  ⟨fun u h => absurd h (ha u), fun h => absurd hp h⟩

/-- The step of a release. -/
theorem rightStep_release {w₁ : HeldSock τ} (hr : Released w n w₁) (hposts : w'.posts = w₁.posts)
    (ho : w'.outstanding = n) (ha : (∃ u, a = .rele u) ∨
      ∃ interrupted, a = .close interrupted ∧ w.closer = .stopped) : RightStep w a w' where
  hold u h := by
    rcases ha with ⟨_, rfl⟩ | ⟨_, rfl, -⟩ <;> cases h
  posts hne := by
    rw [hposts, hr.posts] at hne ⊢
    by_cases h0 : n = 0
    · rw [if_pos h0]
      exact ⟨rfl, ho.trans h0, ha⟩
    · rw [if_neg h0] at hne
      exact absurd rfl hne

/-- The closing thread goes on, and no hold is released. -/
theorem Inv.goOn (h : w.Inv) {sock : Sock} {closer : Closer}
    (ho : { w with sock := sock, closer := closer }.outstanding = w.outstanding)
    (hg : sock.state.Gone)
    (hrelesem : sock.relesem + (if closer = .passed then 1 else 0) = w.posts) :
    Inv { w with sock := sock, closer := closer } where
  counted := h.counted.trans (congrArg _ ho.symm)
  settled := by
    rw [ho]
    exact h.settled
  gone _ := hg
  relesem := hrelesem

variable [DecidableEq τ]

/-- A hold of a socket that has not been stopped is one more. -/
theorem Inv.hold_succeeds (h : w.Inv) (hstate : w.sock.state = .active ∨ w.sock.state = .init)
    (hc : (w.outstanding : ℤ) < Sock.intMax) (u : τ) :
    ∃ w', exec t w (.hold u) = .ok w' ∧ RightStep w (.hold u) w' ∧ Inv w' := by
  have hclose : w.closer = .working := by
    by_contra hne
    have hg := h.gone hne
    rcases hstate with hs | hs <;> rw [hs] at hg <;> exact hg
  have hold : w.hold = .ok (0, w.holds + 1) := by
    rw [hold]
    rcases hstate with hs | hs <;> rw [hs] <;> exact if_pos (h.counted ▸ hc)
  have hmore : { w with holds := w.holds + 1, users := u :: w.users }.outstanding =
      w.outstanding + 1 := by
    rw [outstanding, outstanding, List.length_cons]
    dsimp only
    omega
  have hpos : 0 < w.outstanding := by
    rw [outstanding, if_pos (.inl hclose)]
    omega
  refine ⟨{ w with holds := w.holds + 1, users := u :: w.users }, by rw [exec, hold]; rfl,
    ⟨fun _ _ hne => absurd hclose hne, fun hp => absurd rfl hp⟩, ?_, ?_, h.gone, h.relesem⟩
  · rw [hmore, h.counted]
    rfl
  · rw [hmore]
    exact h.settled.acquire hpos

/-- A hold of a stopped socket fails. -/
theorem Inv.hold_fails (h : w.Inv) (hg : w.sock.state.Gone) (u : τ) :
    ∃ w', exec t w (.hold u) = .ok w' ∧ RightStep w (.hold u) w' ∧ Inv w' := by
  have hold : w.hold = .ok (-Errno.ebadf, w.holds) := by
    rw [hold]
    cases hs : w.sock.state with
    | active | init => exact absurd hg (by rw [hs]; exact not_false)
    | stoppingEps | stopping | fini => rfl
  refine ⟨w, ?_, ⟨fun _ _ _ => ⟨hold, rfl⟩, fun hp => absurd rfl hp⟩, h⟩
  rw [exec, hold]
  rfl

theorem Inv.hold (h : w.Inv) {u : τ} (hc : w.Countable (.hold u)) :
    ∃ w', exec t w (.hold u) = .ok w' ∧ RightStep w (.hold u) w' ∧ Inv w' := by
  cases hs : w.sock.state with
  | active => exact h.hold_succeeds (.inl hs) (hc (by rw [hs]; exact not_false)) u
  | init => exact h.hold_succeeds (.inr hs) (hc (by rw [hs]; exact not_false)) u
  | stoppingEps | stopping | fini => exact h.hold_fails (by rw [hs]; trivial) u

/-- A user releases its hold. -/
theorem Inv.rele (h : w.Inv) {u : τ} (hu : u ∈ w.users) :
    ∃ w', exec t w (.rele u) = .ok w' ∧ RightStep w (.rele u) w' ∧ Inv w' := by
  have hlen := List.length_pos_of_mem hu
  have herase := List.length_erase_of_mem hu
  obtain ⟨n, hn⟩ : ∃ n, w.outstanding = n + 1 :=
    Nat.exists_eq_succ_of_ne_zero (by rw [outstanding]; omega)
  obtain ⟨w₁, hx, hr⟩ := rele_ok (by rw [h.counted, hn])
  have ho : { w₁ with users := w₁.users.erase u }.outstanding = n := by
    rw [outstanding] at hn ⊢
    dsimp only
    rw [hr.users, hr.closer]
    omega
  have hpassed : w.closer ≠ .passed := fun hp => by
    have := h.right.passed hp
    omega
  have hw₁ : w₁.closer ≠ .passed := by rw [hr.closer]; exact hpassed
  refine ⟨{ w₁ with users := w₁.users.erase u }, by rw [exec, hx]; rfl,
    rightStep_release hr rfl ho (.inl ⟨u, rfl⟩), ?_⟩
  exact h.release hn hr (w₁.users.erase u) w₁.closer hpassed hw₁ (by rw [hr.closer]; exact h.gone) ho

/-- Something else happens to the socket. -/
theorem Inv.sock (h : w.Inv) {b : SockAction} {r : Sock × ℤ} (hx : w.sock.exec t b = .ok r) :
    ∃ w', exec t w (.sock b) = .ok w' ∧ RightStep w (.sock b) w' ∧ Inv w' := by
  have honward := Sock.exec_onward hx
  refine ⟨{ w with sock := r.1 }, by rw [exec, hx]; rfl, rightStep_of_posts rfl nofun,
    h.counted, h.settled, fun hc => honward.gone (h.gone hc), ?_⟩
  rw [honward.relesem]
  exact h.relesem

/-- The next step of the closing thread. -/
theorem Inv.close (h : w.Inv) {b : Bool} (he : w.enabled t (.close b)) :
    ∃ w', exec t w (.close b) = .ok w' ∧ RightStep w (.close b) w' ∧ Inv w' := by
  have hrelesem := h.relesem
  rw [exec, HeldSock.close]
  rw [enabled] at he
  cases hc : w.closer with
  | working =>
    rw [hc] at he hrelesem
    obtain ⟨-, sock, hx⟩ := he
    obtain ⟨⟨honward, -⟩, hgone⟩ := Sock.stop_passes hx
    refine ⟨{ w with sock := sock, closer := .stopped }, by dsimp only; rw [hx]; rfl,
      rightStep_of_posts rfl nofun, h.goOn ?_ hgone ?_⟩
    · rw [outstanding, outstanding, hc]
      rfl
    · rw [honward.relesem]
      exact hrelesem
  | stopped =>
    -- The hold of `nn_sock_init` is released, whether or not the users have released theirs.
    have ho : w.outstanding = w.users.length + 1 := by
      rw [outstanding, hc]
      rfl
    obtain ⟨w₁, hx, hr⟩ := rele_ok (w := w) (n := w.users.length) (by rw [h.counted, ho])
    have ho' : { w₁ with closer := .released }.outstanding = w.users.length :=
      congrArg List.length hr.users
    refine ⟨{ w₁ with closer := .released }, by dsimp only; rw [hx]; rfl,
      rightStep_release hr rfl ho' (.inr ⟨b, rfl, hc⟩), ?_⟩
    exact h.release ho hr w₁.users .released (by rw [hc]; decide) (by decide)
      (fun _ => h.gone (by rw [hc]; decide)) ho'
  | released =>
    rw [hc] at hrelesem
    cases b with
    | true => exact ⟨w, rfl, rightStep_of_posts rfl nofun, h⟩
    | false =>
      refine ⟨{ w with sock := { w.sock with termsem := w.sock.termsem - 1 }, closer := .waited },
        rfl, rightStep_of_posts rfl nofun, h.goOn ?_ (h.gone (by rw [hc]; decide)) hrelesem⟩
      rw [outstanding, outstanding, hc]
      rfl
  | waited =>
    rw [hc] at he hrelesem
    cases b with
    | true => exact ⟨w, rfl, rightStep_of_posts rfl nofun, h⟩
    | false =>
      have hpos : 0 < w.sock.relesem := he.resolve_left Bool.false_ne_true
      refine ⟨{ w with sock := { w.sock with relesem := w.sock.relesem - 1 }, closer := .passed },
        rfl, rightStep_of_posts rfl nofun, h.goOn ?_ (h.gone (by rw [hc]; decide)) ?_⟩
      · rw [outstanding, outstanding, hc]
        rfl
      · rw [if_neg (by decide)] at hrelesem
        rw [if_pos rfl]
        dsimp only
        omega
  | passed =>
    rw [hc] at he
    exact he.elim

/-! ### Runs -/

theorem Inv.step (h : w.Inv) (he : w.enabled t a) (hc : w.Countable a) :
    ∃ w', exec t w a = .ok w' ∧ RightStep w a w' ∧ Inv w' := by
  cases a with
  | hold u => exact h.hold hc
  | rele u => exact h.rele he
  | close b => exact h.close he
  | sock b =>
    obtain ⟨-, r, hx⟩ := he
    exact h.sock hx

/-- A hold that cannot be counted does not return. -/
theorem Inv.countable_of_ok (h : w.Inv) (hx : exec t w a = .ok w') : w.Countable a := by
  cases a with
  | hold u =>
    intro hg
    obtain ⟨r, hold, -⟩ := bind_eq_ok.1 hx
    rw [HeldSock.hold] at hold
    cases hs : w.sock.state with
    | stoppingEps | stopping | fini => exact absurd trivial (by rwa [hs] at hg)
    | active | init =>
      rw [hs] at hold
      dsimp only at hold
      split at hold
      · next hlt => rwa [h.counted] at hlt
      · cases hold
  | rele | close | sock => trivial

/-- A run of the holds and releases of any threads and of one that closes the socket is right if
    and only if a hold is made only as long as `holds` can count it. -/
theorem close_correct_iff (t : SockType) (items : Items Ep) (eidOf : Ep → ℤ)
    (as : List (HoldAction τ)) :
    (system t).Correct Right RightStep (init (Sock.opened items eidOf) : HeldSock τ) as ↔
      (system t).Meets Countable (init (Sock.opened items eidOf) : HeldSock τ) as :=
  System.correct_iff_meets (I := Inv) (fun _ => Inv.right) (fun _ _ => Inv.step)
    (fun _ _ _ h _ hx _ _ => h.countable_of_ok hx) (inv_init items eidOf) as

/-- A socket that one thread has held `n` times over. -/
def heldBy (n : ℕ) : HeldSock Unit :=
  ⟨Sock.opened ⟨fun _ => .out, fun _ => .out⟩ fun _ => 0, n + 1, List.replicate n (), .working, 0⟩

theorem hold_heldBy (n : ℕ) : (heldBy n).hold =
    if (n + 1 : ℤ) < Sock.intMax then .ok (0, n + 1 + 1) else .error .overflow := rfl

theorem heldBy_reachable (t : SockType) (n : ℕ) (hn : n < 2 ^ 31 - 1) :
    (system t).Reachable (heldBy n) := by
  induction n with
  | zero => exact .init ⟨_, _, rfl⟩
  | succ n ih =>
    have hx : exec t (heldBy n) (.hold ()) = .ok (heldBy (n + 1)) := by
      rw [exec, hold_heldBy, if_pos (by rw [Sock.intMax]; omega)]
      rfl
    exact .step (a := .hold ()) (ih (Nat.lt_of_succ_lt hn)) trivial trivial hx

theorem hold_heldBy_overflow (t : SockType) {n : ℕ} (hn : n = 2 ^ 31 - 2) :
    exec t (heldBy n) (.hold ()) = .error .overflow := by
  rw [exec, hold_heldBy, if_neg (by rw [Sock.intMax]; omega)]
  rfl

theorem outstanding_heldBy (n : ℕ) : (heldBy n).outstanding = n + 1 :=
  congrArg (· + 1) (@List.length_replicate Unit n ())

/-- With 2^31 - 1 holds outstanding, one more makes `holds` overflow. -/
theorem close_not_correct : ∃ w : HeldSock Unit, (system ⟨false, false, none⟩).Reachable w ∧
    w.sock.state = .active ∧ w.outstanding = 2 ^ 31 - 1 ∧
      exec ⟨false, false, none⟩ w (.hold ()) = .error .overflow := by
  obtain ⟨n, hn⟩ : ∃ n, n = 2 ^ 31 - 2 := ⟨_, rfl⟩
  refine ⟨heldBy n, heldBy_reachable _ n (by omega), rfl, ?_, hold_heldBy_overflow _ hn⟩
  rw [outstanding_heldBy]
  omega

end HeldSock

end Nanomsg
