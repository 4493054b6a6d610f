import Nanomsg.Core.Readiness
import Nanomsg.Utils.Clock

/-!
# Waiting in a send or a receive

`nn_sock_send` and `nn_sock_recv` as one thread sees them: the loop that tries, leaves the
context, waits for the descriptor and enters the context again. What is read and answered in a
round of the loop is its input (`Round`); the option may have been set meanwhile, as the context
was left. Of what a call does the entering and leaving of the context is recorded, with the
timeouts that it waits for and what is converted to an `int` (`SockStep`).

The option is read once more after each wait. `timeouts_iff`: the call keeps to its deadline as long
as the option is then of the same sign, apart from a few accidents.
-/

namespace Nanomsg

open Function

/-- What a call does. -/
inductive SockStep
  | ctxEnter
  | ctxLeave
  /-- `nn_efd_wait` out of the context, where it blocks. -/
  | efdWait (timeout : ℤ)
  /-- `nn_efd_wait` in the context, which only looks. -/
  | efdLook
  /-- `NN_SOCK_FLAG_IN` or `NN_SOCK_FLAG_OUT` is set. -/
  | setFlag
  /-- `(int)left`, at the end of a round. -/
  | cast (left : UInt64)
  deriving DecidableEq

/-- How a call ends. -/
inductive Ending
  /-- It has not returned yet. -/
  | running
  | returned (rc : ℤ)
  | aborted
  deriving DecidableEq

/-- A round of the loop. -/
structure Round where
  state : SockState
  /-- What the protocol returns. -/
  attempt : ℤ
  /-- What `nn_efd_wait` returns, and whether the descriptor is readable then. -/
  wait : ℤ
  readable : Bool
  /-- The option, and what the clock reads. -/
  timeo : ℤ
  now : UInt64

/-- `deadline` and `timeout`. -/
structure Patience where
  deadline : UInt64
  timeout : ℤ

namespace Patience

/-- Before the loop. -/
def start (timeo : ℤ) (now : UInt64) : Patience :=
  if timeo < 0 then ⟨-1, -1⟩ else ⟨now + UInt64.ofInt timeo, timeo⟩

/-- What is left until the deadline. -/
def left (self : Patience) (now : UInt64) : UInt64 :=
  if self.deadline < now then 0 else self.deadline - now

/-- At the end of a round. -/
def again (self : Patience) (timeo : ℤ) (now : UInt64) : Patience :=
  if 0 ≤ timeo then { self with timeout := Clock.toInt (self.left now) } else self

end Patience

namespace SockCall

/-- The loop. -/
def loop (dontwait : Bool) : Patience → List Round → List SockStep × Ending
  | _, [] => ([], .running)
  | patience, r :: rounds =>
    match r.state with
    | .active | .init =>
      if r.attempt = 0 then ([.ctxLeave], .returned 0)
      else if ¬ r.attempt < 0 then ([], .aborted)
      else if r.attempt ≠ -Errno.eagain then ([.ctxLeave], .returned r.attempt)
      else if dontwait then ([.ctxLeave], .returned (-Errno.eagain))
      else
        let before := [.ctxLeave, .efdWait patience.timeout]
        if r.wait = -Errno.etimedout then (before, .returned (-Errno.etimedout))
        else if r.wait = -Errno.eintr then (before, .returned (-Errno.eintr))
        else if r.wait = -Errno.ebadf then (before, .returned (-Errno.ebadf))
        else if r.wait ≠ 0 then (before, .aborted)
        else
          let after := if r.readable then [.ctxEnter, .efdLook, .setFlag] else [.ctxEnter, .efdLook]
          let casts := if 0 ≤ r.timeo then [.cast (patience.left r.now)] else []
          let (steps, ending) := loop dontwait (patience.again r.timeo r.now) rounds
          (before ++ after ++ casts ++ steps, ending)
    | .stoppingEps | .stopping | .fini => ([.ctxLeave], .returned (-Errno.ebadf))

variable (type : SockType) (dontwait : Bool) (timeo : ℤ) (now : UInt64) (rounds : List Round)

/-- What `nn_sock_send` and `nn_sock_recv` share, with the direction; the option is `timeo` and the
    clock reads `now` at first. -/
def transfer (d : Direction) : List SockStep × Ending :=
  if type.supports d then
    let (steps, ending) := loop dontwait (.start timeo now) rounds
    (.ctxEnter :: steps, ending)
  else ([], .returned (-Errno.enotsup))

/-- `nn_sock_send`, with `sndtimeo`. -/
def send := transfer type dontwait timeo now rounds .snd

/-- `nn_sock_recv`, with `rcvtimeo`. -/
def recv := transfer type dontwait timeo now rounds .rcv

end SockCall

namespace SockStep

/-- The timeouts that are waited for. -/
def timeouts (steps : List SockStep) : List ℤ :=
  steps.filterMap fun
    | .efdWait timeout => some timeout
    | .ctxEnter | .ctxLeave | .efdLook | .setFlag | .cast _ => none

/-- What is converted to an `int`. -/
def casts (steps : List SockStep) : List UInt64 :=
  steps.filterMap fun
    | .cast left => some left
    | .ctxEnter | .ctxLeave | .efdWait _ | .efdLook | .setFlag => none

end SockStep

/-! ### The deadline -/

namespace SockCall

/-- What is left when the clock reads `now`, of `timeo` from `t₀` on. -/
def due (timeo : ℤ) (t₀ now : UInt64) : ℤ :=
  if timeo < 0 then -1 else max 0 (t₀.toNat + timeo - now.toNat)

/-- The timeouts are what is left at first and after each wait, and within the option; whatever is
    converted to an `int` fits in one. -/
structure InTime (timeo : ℤ) (t₀ : UInt64) (rounds : List Round) (steps : List SockStep) : Prop where
  due : SockStep.timeouts steps <+: (t₀ :: rounds.map (·.now)).map (due timeo t₀)
  range : 0 ≤ timeo → ∀ timeout ∈ SockStep.timeouts steps, 0 ≤ timeout ∧ timeout ≤ timeo
  fits : ∀ left ∈ SockStep.casts steps, left.toNat < 2 ^ 31

end SockCall

namespace Round

/-- The context is left to wait, and entered again. -/
def Blocks (r : Round) : Prop := (r.state = .active ∨ r.state = .init) ∧ r.attempt = -Errno.eagain
def Wakes (r : Round) : Prop := r.Blocks ∧ r.wait = 0

/-- Without a limit at first there is none after the wait, or the end of time is near. -/
def Fits (timeo : ℤ) (r : Round) : Prop :=
  timeo < 0 → r.timeo < 0 ∨ 2 ^ 64 - 2 ^ 31 ≤ r.now.toNat

/-- After the wait the option is of the same sign as it was at first, and the deadline is one that
    64 bits can hold; or it makes no difference, as nothing more is to be waited for or as the
    clock reads the same. `last` is what the clock read before the wait. -/
def Kept (timeo : ℤ) (t₀ last : UInt64) (r : Round) : Prop :=
  if timeo < 0 then r.timeo < 0
  else if 0 ≤ r.timeo then t₀.toNat + timeo < 2 ^ 64
  else r.now = last ∨ t₀.toNat + timeo ≤ last.toNat

/-- So it is after each wait, and where another one comes after. -/
def KeptThrough (timeo : ℤ) (t₀ : UInt64) : UInt64 → List Round → Prop
  | last, r :: rounds =>
    r.Wakes → r.Fits timeo ∧ (∀ r' ∈ rounds.head?, r'.Blocks → r.Kept timeo t₀ last) ∧
      KeptThrough timeo t₀ r.now rounds
  | _, [] => True

end Round

namespace SockCall

variable {patience : Patience} {timeo : ℤ} {t₀ last : UInt64} {r : Round} {rounds : List Round}

/-! ### One round -/

/-- The deadline is that of the start, and the timeout what was left when the clock read `last`. -/
structure Sound (patience : Patience) (timeo : ℤ) (t₀ last : UInt64) : Prop where
  deadline : patience.deadline = if timeo < 0 then -1 else t₀ + UInt64.ofInt timeo
  timeout : patience.timeout = due timeo t₀ last
  le : t₀ ≤ last

theorem sound_start (timeo : ℤ) (t₀ : UInt64) : Sound (.start timeo t₀) timeo t₀ t₀ := by
  by_cases h : timeo < 0
  · refine ⟨?_, ?_, UInt64.le_refl t₀⟩
    · rw [Patience.start, if_pos h, if_pos h]
    · rw [Patience.start, if_pos h, due, if_pos h]
  · refine ⟨?_, ?_, UInt64.le_refl t₀⟩
    · rw [Patience.start, if_neg h, if_neg h]
    · rw [Patience.start, if_neg h, due, if_neg h]
      dsimp only
      omega

theorem again_deadline (patience : Patience) (timeo : ℤ) (now : UInt64) :
    (patience.again timeo now).deadline = patience.deadline := by
  rw [Patience.again]
  split <;> rfl

/-- The deadline, where it is one. -/
theorem deadline_toNat (t₀ : UInt64) (ht : timeo < 2 ^ 31) (h0 : 0 ≤ timeo) :
    ((t₀ + UInt64.ofInt timeo).toNat : ℤ) = (t₀.toNat + timeo) % 2 ^ 64 := by
  rw [Clock.toNat_add_ofInt t₀ h0 (by omega)]
  omega

/-- What is left of the deadline, and of the end of time where that is taken for one. -/
theorem left_toNat (h : Sound patience timeo t₀ last) (hle : last ≤ r.now) (ht : timeo < 2 ^ 31) :
    ((patience.left r.now).toNat : ℤ) =
      if timeo < 0 then 2 ^ 64 - 1 - (r.now.toNat : ℤ)
      else if t₀.toNat + timeo < 2 ^ 64 then max 0 (t₀.toNat + timeo - r.now.toNat) else 0 := by
  have hlast := UInt64.le_iff_toNat_le.1 h.le
  have hnow := UInt64.le_iff_toNat_le.1 hle
  have hlt := r.now.toNat_lt
  have hdeadline := h.deadline
  rw [Patience.left]
  by_cases hneg : timeo < 0
  · rw [if_pos hneg] at hdeadline ⊢
    have hmax : patience.deadline.toNat = 2 ^ 64 - 1 := by rw [hdeadline]; rfl
    have hnot : ¬ patience.deadline < r.now := by
      rw [UInt64.lt_iff_toNat_lt]
      omega
    rw [if_neg hnot, Clock.toNat_sub_of_le (by omega), hmax]
    omega
  · rw [if_neg hneg] at hdeadline ⊢
    have hd := deadline_toNat t₀ ht (Int.not_lt.1 hneg)
    rw [← hdeadline] at hd
    by_cases hlt' : patience.deadline < r.now
    · have := UInt64.lt_iff_toNat_lt.1 hlt'
      rw [if_pos hlt', UInt64.toNat_zero]
      split <;> omega
    · have hle' : r.now.toNat ≤ patience.deadline.toNat :=
        Nat.not_lt.1 (mt UInt64.lt_iff_toNat_lt.2 hlt')
      rw [if_neg hlt', Clock.toNat_sub_of_le hle']
      split <;> omega

/-- What is converted after a wait fits exactly if there was a limit at first, or there is none. -/
theorem left_lt_iff (h : Sound patience timeo t₀ last) (ht : timeo < 2 ^ 31) (hle : last ≤ r.now) :
    (0 ≤ r.timeo → (patience.left r.now).toNat < 2 ^ 31) ↔ r.Fits timeo := by
  have hleft := left_toNat h hle ht
  have hlast := UInt64.le_iff_toNat_le.1 h.le
  have hnow := UInt64.le_iff_toNat_le.1 hle
  rw [Round.Fits]
  by_cases hneg : timeo < 0
  · rw [if_pos hneg] at hleft
    omega
  · rw [if_neg hneg] at hleft
    split at hleft <;> omega

/-- After a wait the timeout is what is left exactly if the round keeps to the deadline. -/
theorem again_timeout_iff (h : Sound patience timeo t₀ last) (ht : timeo < 2 ^ 31) (hle : last ≤ r.now)
    (hf : 0 ≤ r.timeo → (patience.left r.now).toNat < 2 ^ 31) :
    (patience.again r.timeo r.now).timeout = due timeo t₀ r.now ↔ r.Kept timeo t₀ last := by
  have hlast := UInt64.le_iff_toNat_le.1 h.le
  have hnow := UInt64.le_iff_toNat_le.1 hle
  have hlt := r.now.toNat_lt
  have htimeout := h.timeout
  rw [due] at htimeout ⊢
  rw [Round.Kept, Patience.again]
  by_cases hr : 0 ≤ r.timeo
  · have hleft := left_toNat h hle ht
    rw [if_pos hr, if_pos hr]
    dsimp only
    rw [Clock.toInt_of_lt (hf hr), hleft]
    by_cases hneg : timeo < 0
    · -- What is left until the end of time is no -1.
      simp only [if_pos hneg]
      omega
    · simp only [if_neg hneg]
      split <;> omega
  · rw [if_neg hr, if_neg hr, htimeout]
    by_cases hneg : timeo < 0
    · rw [if_pos hneg, if_pos hneg, if_pos hneg]
      exact iff_of_true rfl (by omega)
    · simp only [if_neg hneg]
      rw [← UInt64.toNat_inj]
      omega

/-- What holds of the steps of either branch. -/
theorem steps_ite {c : Prop} [Decidable c] {x y : List SockStep × Ending} {P : List SockStep → Prop}
    (hx : c → P x.1) (hy : ¬ c → P y.1) : P (if c then x else y).1 :=
  iteInduction (motive := fun called => P (Prod.fst called)) hx hy

/-- A round that ends in the context waits for nothing. -/
theorem steps_loop (patience : Patience) (rounds : List Round) (h : ¬ r.Blocks) :
    SockStep.timeouts (loop false patience (r :: rounds)).1 = [] ∧
      SockStep.casts (loop false patience (r :: rounds)).1 = [] := by
  obtain ⟨state, attempt, wait, readable, timeo, now⟩ := r
  have ha : (state = .active ∨ state = .init) → attempt ≠ -Errno.eagain := fun hs ha => h ⟨hs, ha⟩
  let P steps := SockStep.timeouts steps = [] ∧ SockStep.casts steps = []
  cases state with
  | active | init =>
    refine steps_ite (P := P) (fun _ => ⟨rfl, rfl⟩) fun _ => ?_
    refine steps_ite (P := P) (fun _ => ⟨rfl, rfl⟩) fun _ => ?_
    exact steps_ite (P := P) (fun _ => ⟨rfl, rfl⟩) fun hb => absurd (ha (by simp)) hb
  | stoppingEps | stopping | fini => exact ⟨rfl, rfl⟩

theorem steps_loop_blocks (patience : Patience) (rounds : List Round) (h : r.Blocks)
    (hw : r.wait ≠ 0) :
    SockStep.timeouts (loop false patience (r :: rounds)).1 = [patience.timeout] ∧
      SockStep.casts (loop false patience (r :: rounds)).1 = [] := by
  obtain ⟨state, attempt, wait, readable, timeo, now⟩ := r
  obtain ⟨hs, rfl : attempt = -11⟩ := h
  let P steps := SockStep.timeouts steps = [patience.timeout] ∧ SockStep.casts steps = []
  -- However the wait fails, it has been made.
  rcases hs with rfl | rfl <;>
  · rw [loop]
    dsimp only
    rw [if_neg (by decide), if_neg (by decide), if_neg (by decide), if_neg Bool.false_ne_true]
    refine steps_ite (P := P) (fun _ => ⟨rfl, rfl⟩) fun _ => ?_
    refine steps_ite (P := P) (fun _ => ⟨rfl, rfl⟩) fun _ => ?_
    refine steps_ite (P := P) (fun _ => ⟨rfl, rfl⟩) fun _ => ?_
    rw [if_pos hw]
    exact ⟨rfl, rfl⟩

theorem steps_loop_wakes (patience : Patience) (rounds : List Round) (h : r.Wakes) :
    SockStep.timeouts (loop false patience (r :: rounds)).1 =
      patience.timeout :: SockStep.timeouts (loop false (patience.again r.timeo r.now) rounds).1 ∧
    SockStep.casts (loop false patience (r :: rounds)).1 =
      (if 0 ≤ r.timeo then [patience.left r.now] else []) ++
        SockStep.casts (loop false (patience.again r.timeo r.now) rounds).1 := by
  obtain ⟨state, attempt, wait, readable, timeo, now⟩ := r
  obtain ⟨⟨hs, rfl : attempt = -11⟩, rfl : wait = 0⟩ := h
  by_cases ht : 0 ≤ timeo
  · rcases hs with rfl | rfl <;> cases readable <;> simp [loop, ht, SockStep.timeouts, SockStep.casts]
  · rcases hs with rfl | rfl <;> cases readable <;> simp [loop, ht, SockStep.timeouts, SockStep.casts]

/-- Where it waits, what it waits for first. -/
theorem timeouts_loop_head (patience : Patience) (rounds : List Round) (h : r.Blocks) :
    ∃ timeouts, SockStep.timeouts (loop false patience (r :: rounds)).1 =
      patience.timeout :: timeouts := by
  by_cases hw : r.wait = 0
  · exact ⟨_, (steps_loop_wakes patience rounds ⟨h, hw⟩).1⟩
  · exact ⟨[], (steps_loop_blocks patience rounds h hw).1⟩

theorem keptThrough_of_not_wakes (h : ¬ r.Wakes) : Round.KeptThrough timeo t₀ last (r :: rounds) :=
  fun hw => absurd hw h

/-- The timeouts are what is left from `last` on, and each conversion fits. -/
def DueFrom (timeo : ℤ) (t₀ last : UInt64) (rounds : List Round) (steps : List SockStep) : Prop :=
  SockStep.timeouts steps <+: (last :: rounds.map (·.now)).map (due timeo t₀) ∧
    ∀ left ∈ SockStep.casts steps, left.toNat < 2 ^ 31

theorem dueFrom_nil {steps : List SockStep} (ht : SockStep.timeouts steps = [])
    (hc : SockStep.casts steps = []) : DueFrom timeo t₀ last rounds steps :=
  ⟨ht ▸ List.nil_prefix, fun left hm => by rw [hc] at hm; nomatch hm⟩

/-- The first wait is as long as it should be; what comes after it is to be as well. -/
theorem dueFrom_cons_iff {steps after : List SockStep} (h : Sound patience timeo t₀ last)
    (ht : SockStep.timeouts steps = patience.timeout :: SockStep.timeouts after)
    (hc : SockStep.casts steps =
      (if 0 ≤ r.timeo then [patience.left r.now] else []) ++ SockStep.casts after) :
    DueFrom timeo t₀ last (r :: rounds) steps ↔
      (0 ≤ r.timeo → (patience.left r.now).toNat < 2 ^ 31) ∧ DueFrom timeo t₀ r.now rounds after := by
  rw [DueFrom, ht, hc, List.map_cons, List.map_cons, h.timeout, List.prefix_cons_inj, ← List.map_cons,
    List.forall_mem_append, DueFrom, and_left_comm]
  refine and_congr_left fun _ => ?_
  by_cases hr : 0 ≤ r.timeo <;> simp [hr]

/-! ### The whole call -/

/-- The first timeout is what is left, and the others are as the rounds keep to the deadline. -/
theorem loop_due_iff (h : Sound patience timeo t₀ last) (ht : timeo < 2 ^ 31)
    (hnow : (last :: rounds.map (·.now)).Pairwise (· ≤ ·)) :
    DueFrom timeo t₀ last rounds (loop false patience rounds).1 ↔
      Round.KeptThrough timeo t₀ last rounds := by
  induction rounds generalizing patience last with
  | nil => exact iff_of_true (dueFrom_nil rfl rfl) trivial
  | cons r rounds ih =>
    by_cases hb : r.Blocks
    · by_cases hw : r.wait = 0
      · have hle : last ≤ r.now := (List.pairwise_cons.1 hnow).1 _ List.mem_cons_self
        obtain ⟨htimeouts, hcasts⟩ := steps_loop_wakes patience rounds ⟨hb, hw⟩
        have hfits := left_lt_iff h ht hle
        have hiff := again_timeout_iff h ht hle
        rw [Round.KeptThrough, imp_iff_right ⟨hb, hw⟩, dueFrom_cons_iff h htimeouts hcasts, ← hfits]
        refine and_congr_right fun hf => ?_
        by_cases hk : r.Kept timeo t₀ last
        · rw [and_iff_right fun _ _ _ => hk]
          refine ih ⟨?_, (again_timeout_iff h ht hle hf).2 hk, UInt64.le_trans h.le hle⟩
            (List.pairwise_cons.1 hnow).2
          rw [again_deadline, h.deadline]
        · cases rounds with
          | nil => exact iff_of_true (dueFrom_nil rfl rfl) ⟨nofun, trivial⟩
          | cons r' rounds =>
            by_cases hb' : r'.Blocks
            · -- The timeout that comes next is not what is left.
              obtain ⟨timeouts, hx⟩ := timeouts_loop_head (patience.again r.timeo r.now) rounds hb'
              rw [DueFrom, hx, List.map_cons, List.cons_prefix_cons]
              exact iff_of_false (fun hp => hk ((again_timeout_iff h ht hle hf).1 hp.1.1))
                fun hp => hk (hp.1 r' rfl hb')
            · obtain ⟨htimeouts', hcasts'⟩ := steps_loop (patience.again r.timeo r.now) rounds hb'
              refine iff_of_true (dueFrom_nil htimeouts' hcasts')
                ⟨fun x hx hb => ?_, keptThrough_of_not_wakes fun hp => hb' hp.1⟩
              obtain rfl : r' = x := by simpa using hx
              exact absurd hb hb'
      · obtain ⟨htimeouts, hcasts⟩ := steps_loop_blocks patience rounds hb hw
        refine iff_of_true ⟨?_, fun left hm => ?_⟩ (keptThrough_of_not_wakes fun hp => hw hp.2)
        · rw [htimeouts, List.map_cons, h.timeout, List.cons_prefix_cons]
          exact ⟨rfl, List.nil_prefix⟩
        · rw [hcasts] at hm
          nomatch hm
    · obtain ⟨htimeouts, hcasts⟩ := steps_loop patience rounds hb
      exact iff_of_true (dueFrom_nil htimeouts hcasts) (keptThrough_of_not_wakes fun hp => hb hp.1)

/-- What is left lies within the option. -/
theorem inTime_iff {steps : List SockStep} (hnow : (t₀ :: rounds.map (·.now)).Pairwise (· ≤ ·)) :
    InTime timeo t₀ rounds steps ↔ DueFrom timeo t₀ t₀ rounds steps := by
  refine ⟨fun h => ⟨h.due, h.fits⟩, fun h => ⟨h.1, fun h0 timeout hm => ?_, h.2⟩⟩
  obtain ⟨now, hn, rfl⟩ := List.mem_map.1 (h.1.subset hm)
  have hle : t₀.toNat ≤ now.toNat := by
    rcases List.mem_cons.1 hn with rfl | hn
    · exact Nat.le_refl _
    · exact UInt64.le_iff_toNat_le.1 ((List.pairwise_cons.1 hnow).1 now hn)
  rw [due, if_neg (Int.not_lt.2 h0)]
  omega

/-- A call that need not wait waits for nothing. -/
theorem steps_loop_dontwait (patience : Patience) (rounds : List Round) :
    SockStep.timeouts (loop true patience rounds).1 = [] ∧
      SockStep.casts (loop true patience rounds).1 = [] := by
  cases rounds with
  | nil => exact ⟨rfl, rfl⟩
  | cons r rounds =>
    obtain ⟨state, attempt, wait, readable, timeo, now⟩ := r
    let P steps := SockStep.timeouts steps = [] ∧ SockStep.casts steps = []
    cases state with
    | active | init =>
      refine steps_ite (P := P) (fun _ => ⟨rfl, rfl⟩) fun _ => ?_
      refine steps_ite (P := P) (fun _ => ⟨rfl, rfl⟩) fun _ => ?_
      exact steps_ite (P := P) (fun _ => ⟨rfl, rfl⟩) fun _ => ⟨rfl, rfl⟩
    | stoppingEps | stopping | fini => exact ⟨rfl, rfl⟩

/-- The call keeps to its deadline exactly if each of its waits does. -/
theorem transfer_inTime_iff (type : SockType) (dontwait : Bool) (ht : timeo < 2 ^ 31)
    (hnow : (t₀ :: rounds.map (·.now)).Pairwise (· ≤ ·)) (d : Direction) :
    InTime timeo t₀ rounds (transfer type dontwait timeo t₀ rounds d).1 ↔
      (type.supports d → dontwait = false → Round.KeptThrough timeo t₀ t₀ rounds) := by
  rw [inTime_iff hnow]
  by_cases hd : type.supports d
  · have hx : DueFrom timeo t₀ t₀ rounds (transfer type dontwait timeo t₀ rounds d).1 ↔
        DueFrom timeo t₀ t₀ rounds (loop dontwait (.start timeo t₀) rounds).1 := by
      rw [transfer, if_pos hd]
      rfl
    rw [hx, imp_iff_right hd]
    cases dontwait with
    | false =>
      rw [imp_iff_right rfl]
      exact loop_due_iff (sound_start timeo t₀) ht hnow
    | true =>
      obtain ⟨htimeouts, hcasts⟩ := steps_loop_dontwait (.start timeo t₀) rounds
      exact iff_of_true (dueFrom_nil htimeouts hcasts) nofun
  · have hx : transfer type dontwait timeo t₀ rounds d = ([], .returned (-Errno.enotsup)) := if_neg hd
    rw [hx]
    exact iff_of_true (dueFrom_nil rfl rfl) fun h => absurd h hd

theorem timeouts_iff (type : SockType) (dontwait : Bool) (ht : timeo < 2 ^ 31)
    (hnow : (t₀ :: rounds.map (·.now)).Pairwise (· ≤ ·)) :
    (InTime timeo t₀ rounds (send type dontwait timeo t₀ rounds).1 ↔
      (type.supports .snd → dontwait = false → Round.KeptThrough timeo t₀ t₀ rounds)) ∧
    (InTime timeo t₀ rounds (recv type dontwait timeo t₀ rounds).1 ↔
      (type.supports .rcv → dontwait = false → Round.KeptThrough timeo t₀ t₀ rounds)) :=
  ⟨transfer_inTime_iff type dontwait ht hnow .snd, transfer_inTime_iff type dontwait ht hnow .rcv⟩

/-- A socket that sends and receives. -/
def bothWays : SockType := ⟨false, false, none⟩

/-- A round in which the protocol has nothing to do, up to the reading of the option. -/
def idle (timeo : ℤ) (now : UInt64) : Round := ⟨.active, -Errno.eagain, 0, true, timeo, now⟩

theorem timeouts_iff_twice :
    (InTime 10 100 [idle 10 104, idle 20 120]
        (send bothWays false 10 100 [idle 10 104, idle 20 120]).1 ↔
      (bothWays.supports .snd → false = false →
        Round.KeptThrough 10 100 100 [idle 10 104, idle 20 120])) ∧
    (InTime 10 100 [idle 10 104, idle 20 120]
        (recv bothWays false 10 100 [idle 10 104, idle 20 120]).1 ↔
      (bothWays.supports .rcv → false = false →
        Round.KeptThrough 10 100 100 [idle 10 104, idle 20 120])) :=
  timeouts_iff bothWays false (by decide) (by decide)

/-- A call without a limit waits for a negative number of milliseconds other than -1 when a limit is
    set meanwhile, and one with a limit of 1000 waits for as long once more when it is taken away
    after 400. -/
theorem not_inTime :
    ¬ InTime (-1) 1000 [idle 5 1000, idle 5 1000]
        (send bothWays false (-1) 1000 [idle 5 1000, idle 5 1000]).1 ∧
    ¬ InTime 1000 0 [idle (-1) 400, idle (-1) 400]
        (recv bothWays false 1000 0 [idle (-1) 400, idle (-1) 400]).1 :=
  ⟨fun h => absurd h.due (by decide), fun h => absurd h.due (by decide)⟩

end SockCall

end Nanomsg
