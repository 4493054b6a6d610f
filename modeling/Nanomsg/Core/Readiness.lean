import Mathlib.Logic.Function.Basic
import Nanomsg.Core.Sock
import Nanomsg.Lib.System

/-!
# The descriptors of a socket

`rcvfd` and `sndfd` tell a caller of `poll` whether the socket has something to
receive and room to send. They follow what the `events` of the protocol says each
time the context is left (`nn_sock_onleave`); `NN_SOCK_FLAG_IN` and `NN_SOCK_FLAG_OUT`
remember how they are. Threads in `nn_sock_send` and `nn_sock_recv` leave the context to wait
for a descriptor, and look at it again when they are back.

A descriptor is modelled by whether it is readable. Any number of threads call the
functions of the socket; in the context there is one of them at a time. `uses` records
what is done with the descriptors.

While the socket is active the flags are right, and so are the descriptors
(`readiness`). When it stops, `nn_efd_stop` signals them whatever they are
(`stop_signals_twice`).
-/

namespace Nanomsg

open Function Transition

/-- A direction, with its descriptor, its flag and its event. -/
inductive Direction
  | rcv
  | snd
  deriving DecidableEq

/-- The socket type has no `NN_SOCKTYPE_FLAG_NORECV` or `NN_SOCKTYPE_FLAG_NOSEND`. -/
def SockType.supports (t : SockType) : Direction → Bool
  | .rcv => !t.norecv
  | .snd => !t.nosend

/-- `NN_SOCKBASE_EVENT_IN` or `NN_SOCKBASE_EVENT_OUT` is among the events. -/
def hasEvent (events : ℤ) : Direction → Bool
  | .rcv => events.toNat &&& 1 ≠ 0
  | .snd => events.toNat &&& 2 ≠ 0

/-- A call of a function of `efd.c`; `nn_efd_stop` signals. -/
inductive EfdCall
  | signal
  | unsignal
  | stop
  | wait
  deriving DecidableEq

/-- A use of a descriptor, and whether it was readable before. -/
structure EfdUse where
  dir : Direction
  call : EfdCall
  readable : Bool
  deriving DecidableEq

/-- Where a thread is. -/
inductive SockSpot
  | outside
  /-- In the context, in any other function. -/
  | inside
  /-- In the context, in `nn_sock_send` or `nn_sock_recv` at the start of the loop. -/
  | loop (d : Direction)
  /-- In the context, about to leave it and then to wait or to return. -/
  | leaving (waits : Option Direction)
  /-- In `nn_efd_wait`, and after it. -/
  | waiting (d : Direction)
  | woken (d : Direction)
  deriving DecidableEq

/-- The direction a thread is sending or receiving in. -/
def SockSpot.dir : SockSpot → Option Direction
  | .loop d | .leaving (some d) | .waiting d | .woken d => some d
  | .outside | .inside | .leaving none => none

/-- What `struct nn_sock` has of the descriptors, and the threads. -/
structure SockFds (τ : Type) where
  state : SockState
  /-- `NN_SOCK_FLAG_IN` and `NN_SOCK_FLAG_OUT` in `flags`. -/
  flags : Direction → Bool
  readable : Direction → Bool
  /-- The thread in the context. -/
  owner : Option τ
  spot : τ → SockSpot
  /-- What the protocol has last answered. -/
  events : ℤ
  uses : List EfdUse

/-- What a thread does, or what happens to it. -/
inductive FdAction (τ : Type)
  /-- `nn_ctx_enter` in another function than `nn_sock_send` and `nn_sock_recv`. -/
  | enter (t : τ)
  /-- `NN_FSM_START`, `nn_sock_stop`, and what `nn_sock_shutdown` does to the state later. -/
  | start (t : τ)
  | stop (t : τ)
  | shutdown (t : τ) (state : SockState)
  /-- `nn_sock_send` or `nn_sock_recv` is called. -/
  | call (t : τ) (d : Direction)
  /-- The protocol is asked to send or to receive, and returns `rc`. -/
  | attempt (t : τ) (rc : ℤ) (dontwait : Bool)
  /-- `nn_ctx_leave`, the protocol answering `events`. -/
  | leave (t : τ) (events : ℤ)
  /-- `nn_efd_wait` returns `rc`. -/
  | wait (t : τ) (rc : ℤ)
  | reenter (t : τ)

namespace SockFds

variable {τ : Type} [DecidableEq τ] (type : SockType) (s : SockFds τ)

/-- A use of the descriptor `d`. -/
def use (d : Direction) (call : EfdCall) : SockFds τ :=
  { s with uses := s.uses ++ [⟨d, call, s.readable d⟩] }

/-- `nn_efd_signal`. -/
def efdSignal (d : Direction) : SockFds τ :=
  { s.use d .signal with readable := update s.readable d true }

/-- `nn_efd_unsignal`, which reads what should be there. -/
def efdUnsignal (d : Direction) : Except Fault (SockFds τ) := do
  nnAssert (s.readable d)
  pure { s.use d .unsignal with readable := update s.readable d false }

/-- `nn_efd_stop`. -/
def efdStop (d : Direction) : SockFds τ :=
  { s.use d .stop with readable := update s.readable d true }

/-- The part of `nn_sock_onleave` about one direction. -/
def onleaveFd (d : Direction) (events : ℤ) : Except Fault (SockFds τ) :=
  if type.supports d then
    if hasEvent events d then
      if s.flags d then .ok s else .ok (efdSignal { s with flags := update s.flags d true } d)
    else
      if s.flags d then efdUnsignal { s with flags := update s.flags d false } d else .ok s
  else
    .ok s

/-- `nn_sock_onleave`. -/
def onleave (events : ℤ) : Except Fault (SockFds τ) :=
  if s.state ≠ .active then
    .ok s
  else do
    nnAssert (0 ≤ events)
    let s ← s.onleaveFd type .rcv events
    let s ← s.onleaveFd type .snd events
    pure { s with events := events }

/-- The thread `t` goes to `p`. -/
def goto (t : τ) (p : SockSpot) : SockFds τ := { s with spot := update s.spot t p }

/-- `nn_ctx_enter`. -/
def ctxEnter (t : τ) : SockFds τ := { s with owner := some t }

/-- The loop of `nn_sock_send` and `nn_sock_recv` until the context is left. -/
def loopBody (t : τ) (d : Direction) (rc : ℤ) (dontwait : Bool) : Except Fault (SockFds τ) :=
  match s.state with
  | .active | .init =>
    if rc = 0 then
      .ok (s.goto t (.leaving none))
    else do
      nnAssert (rc < 0)
      if rc ≠ -Errno.eagain then
        pure (s.goto t (.leaving none))
      else if dontwait then
        pure (s.goto t (.leaving none))
      else
        pure (s.goto t (.leaving (some d)))
  | .stoppingEps | .stopping | .fini => .ok (s.goto t (.leaving none))

/-- `nn_sock_shutdown` when the socket is asked to stop. -/
def shutdownStop : Except Fault (SockFds τ) := do
  nnAssert (s.state = .active)
  let s := if !type.norecv then s.efdStop .rcv else s
  let s := if !type.nosend then s.efdStop .snd else s
  pure { s with state := .stoppingEps }

/-- `nn_sock_send` and `nn_sock_recv` after `nn_efd_wait`. -/
def afterWait (t : τ) (rc : ℤ) (d : Direction) : Except Fault (SockFds τ) :=
  if rc = -Errno.etimedout ∨ rc = -Errno.eintr ∨ rc = -Errno.ebadf then
    .ok (s.goto t .outside)
  else do
    nnAssert (rc = 0)
    pure (s.goto t (.woken d))

/-- Looking at the descriptor again, in the context. -/
def recheck (d : Direction) : SockFds τ :=
  let s := s.use d .wait
  if s.readable d then { s with flags := update s.flags d true } else s

/-- Taking an action. -/
def exec : FdAction τ → Except Fault (SockFds τ)
  | .enter t => .ok ((s.ctxEnter t).goto t .inside)
  | .start _ => .ok { s with state := .active }
  | .stop _ => s.shutdownStop type
  | .shutdown _ state => .ok { s with state := state }
  | .call t d =>
    -- Otherwise `-ENOTSUP` is returned.
    if type.supports d then .ok ((s.ctxEnter t).goto t (.loop d)) else .ok s
  | .attempt t rc dontwait =>
    match s.spot t with
    | .loop d => s.loopBody t d rc dontwait
    | _ => .ok s
  | .leave t events => do
    let p := match s.spot t with
      | .leaving (some d) => .waiting d
      | _ => .outside
    let s ← s.onleave type events
    pure ({ s with owner := none }.goto t p)
  | .wait t rc =>
    match s.spot t with
    | .waiting d => (s.use d .wait).afterWait t rc d
    | _ => .ok s
  | .reenter t =>
    match s.spot t with
    | .woken d => .ok (((s.ctxEnter t).recheck d).goto t (.loop d))
    | _ => .ok s

/-- Who may do what. In the context there is one thread; a socket is started and stopped
    once, the protocol answers with a set of events, and a call returns an error or what
    it is to return. -/
def enabled : FdAction τ → Prop
  | .enter t => s.spot t = .outside ∧ s.owner = none
  | .start t => s.spot t = .inside ∧ s.owner = some t ∧ s.state = .init
  | .stop t => s.spot t = .inside ∧ s.owner = some t ∧ s.state = .active
  | .shutdown t state => s.owner = some t ∧
      (s.state ≠ .init ∧ s.state ≠ .active) ∧ state ≠ .init ∧ state ≠ .active
  | .call t d => s.spot t = .outside ∧ (type.supports d → s.owner = none)
  | .attempt t rc _ => s.owner = some t ∧ (s.spot t = .loop .rcv ∨ s.spot t = .loop .snd) ∧ rc ≤ 0
  | .leave t events => s.owner = some t ∧ (s.spot t = .inside ∨ s.spot t = .leaving none ∨
      s.spot t = .leaving (some .rcv) ∨ s.spot t = .leaving (some .snd)) ∧ 0 ≤ events
  | .wait t rc =>
    match s.spot t with
    | .waiting d => rc = 0 ∧ s.readable d ∨
        rc = -Errno.etimedout ∨ rc = -Errno.eintr ∨ rc = -Errno.ebadf
    | _ => False
  | .reenter t => (s.spot t = .woken .rcv ∨ s.spot t = .woken .snd) ∧ s.owner = none

/-- `struct nn_sock` before it is started, its descriptors holding anything where it has none. -/
structure Initial (s : SockFds τ) : Prop where
  state : s.state = .init
  flags : ∀ d, s.flags d = false
  readable : ∀ d, type.supports d → s.readable d = false
  owner : s.owner = none
  spot : ∀ t, s.spot t = .outside
  uses : s.uses = []

/-- The runs of a socket. -/
def system : System (SockFds τ) (FdAction τ) Fault where
  init := Initial type
  enabled := enabled type
  exec := exec type

variable {type s} in
omit [DecidableEq τ] in
/-- A socket that stops has each of its descriptors signalled by `nn_efd_stop`. -/
theorem shutdownStop_spec {s' : SockFds τ} (hx : s.shutdownStop type = .ok s') :
    s'.state = .stoppingEps ∧ s'.owner = s.owner ∧ s'.spot = s.spot ∧
      (∀ d, type.supports d → s'.readable d = true) ∧
      ∃ uses, s'.uses = s.uses ++ uses ∧
        ∀ d, type.supports d → ⟨d, .stop, s.readable d⟩ ∈ uses := by
  obtain ⟨-, -, hx⟩ := bind_eq_ok.1 hx
  obtain rfl := Except.ok.inj hx
  refine ⟨rfl, ?_, ?_, fun d hd => ?_, (if type.norecv then [] else [⟨.rcv, .stop, s.readable .rcv⟩]) ++
    if type.nosend then [] else [⟨.snd, .stop, s.readable .snd⟩], ?_, fun d hd => ?_⟩
  · dsimp only
    split <;> split <;> rfl
  · dsimp only
    split <;> split <;> rfl
  · dsimp only
    cases d with
    | rcv =>
      rw [show (!type.norecv) = true from hd]
      split <;> simp [efdStop, use]
    | snd =>
      rw [show (!type.nosend) = true from hd]
      simp [efdStop, use]
  · cases type.norecv <;> cases type.nosend <;> simp [efdStop, use]
  · cases d with
    | rcv => simp [show type.norecv = false by simpa [SockType.supports] using hd]
    | snd => simp [show type.nosend = false by simpa [SockType.supports] using hd]

/-! ## The invariant -/

/-- A descriptor the socket has, signalled only if it is not, and the other way round. -/
structure Proper (u : EfdUse) : Prop where
  supports : type.supports u.dir
  signal : u.call = .signal → u.readable = false
  unsignal : u.call = .unsignal → u.readable = true

/-- The descriptors do what the flags say, and while nobody is in the context the flags say
    what the protocol has answered. -/
structure Inv (s : SockFds τ) : Prop where
  spots : ∀ t d, (s.spot t).dir = some d → type.supports d
  agree : s.state = .init ∨ s.state = .active → ∀ d, type.supports d → s.readable d = s.flags d
  reported : s.state = .active → s.owner = none → ∀ d, type.supports d →
    s.flags d = hasEvent s.events d
  uses : ∀ u ∈ s.uses, Proper type u

variable {type s}

omit [DecidableEq τ] in
theorem inv_initial (h : Initial type s) : Inv type s where
  spots t d hd := by simp [h.spot t, SockSpot.dir] at hd
  agree _ d hd := (h.readable d hd).trans (h.flags d).symm
  reported hs := by simp [h.state] at hs
  uses u hu := by simp [h.uses] at hu

omit [DecidableEq τ] in
/-- One more use, which is a proper one. -/
theorem uses_append {u : EfdUse} (h : ∀ u ∈ s.uses, Proper type u) (hu : Proper type u) :
    ∀ v ∈ s.uses ++ [u], Proper type v := by
  intro v hv
  rcases List.mem_append.1 hv with hv | hv
  · exact h v hv
  · exact List.mem_singleton.1 hv ▸ hu

/-- What `onleaveFd` does: the direction `d` is as the protocol says, and the other as before. -/
structure Followed (type : SockType) (s s' : SockFds τ) (d : Direction) (events : ℤ) : Prop where
  state : s'.state = s.state
  owner : s'.owner = s.owner
  spot : s'.spot = s.spot
  flags : type.supports d → s'.flags d = hasEvent events d
  readable : type.supports d → s'.readable d = hasEvent events d
  others : ∀ d', d' ≠ d → s'.flags d' = s.flags d' ∧ s'.readable d' = s.readable d'
  uses : ∀ u ∈ s'.uses, Proper type u

omit [DecidableEq τ] in
theorem onleaveFd_spec {d : Direction} (events : ℤ)
    (ha : type.supports d → s.readable d = s.flags d) (hu : ∀ u ∈ s.uses, Proper type u) :
    ∃ s', s.onleaveFd type d events = .ok s' ∧ Followed type s s' d events := by
  unfold onleaveFd
  by_cases hd : type.supports d
  · have ha := ha hd
    rw [if_pos hd]
    -- The event, and what the flag was: the descriptor is used only if they differ.
    by_cases he : hasEvent events d <;> by_cases hf : s.flags d
    · rw [if_pos he, if_pos hf]
      exact ⟨s, rfl, rfl, rfl, rfl, fun _ => hf.trans he.symm, fun _ => (ha.trans hf).trans he.symm,
        fun _ _ => ⟨rfl, rfl⟩, hu⟩
    · rw [if_pos he, if_neg hf]
      refine ⟨_, rfl, rfl, rfl, rfl, fun _ => ?_, fun _ => ?_, fun d' hne => ?_,
        uses_append hu ⟨hd, fun _ => ?_, nofun⟩⟩
      · exact (update_self ..).trans he.symm
      · exact (update_self ..).trans he.symm
      · exact ⟨update_of_ne hne .., update_of_ne hne ..⟩
      · exact ha.trans (by simpa using hf)
    · -- The flag says that the descriptor is readable.
      have hr : s.readable d = true := ha.trans hf
      rw [if_neg he, if_pos hf]
      simp only [efdUnsignal, hr, nnAssert_true, ok_bind, pure_eq_ok]
      have he' : hasEvent events d = false := by simpa using he
      refine ⟨_, rfl, rfl, rfl, rfl, fun _ => ?_, fun _ => ?_, fun d' hne => ?_,
        uses_append hu ⟨hd, nofun, fun _ => hr⟩⟩
      · exact (update_self ..).trans he'.symm
      · exact (update_self ..).trans he'.symm
      · exact ⟨update_of_ne hne .., update_of_ne hne ..⟩
    · have he' : hasEvent events d = false := by simpa using he
      have hf' : s.flags d = false := by simpa using hf
      rw [if_neg he, if_neg hf]
      exact ⟨s, rfl, rfl, rfl, rfl, fun _ => hf'.trans he'.symm,
        fun _ => (ha.trans hf').trans he'.symm, fun _ _ => ⟨rfl, rfl⟩, hu⟩
  · rw [if_neg hd]
    exact ⟨s, rfl, rfl, rfl, rfl, fun h => absurd h hd, fun h => absurd h hd,
      fun _ _ => ⟨rfl, rfl⟩, hu⟩

omit [DecidableEq τ] in
/-- Leaving the context of an active socket makes both directions follow the protocol. -/
theorem onleave_spec (h : Inv type s) {events : ℤ} (he : 0 ≤ events) :
    ∃ s', s.onleave type events = .ok s' ∧ s'.state = s.state ∧ s'.spot = s.spot ∧
      (s.state = .active → s'.events = events ∧ ∀ d, type.supports d →
        s'.flags d = hasEvent events d ∧ s'.readable d = hasEvent events d) ∧
      (s.state ≠ .active → s' = s) ∧ ∀ u ∈ s'.uses, Proper type u := by
  unfold onleave
  by_cases hs : s.state = .active
  · rw [if_neg (not_not_intro hs)]
    obtain ⟨s₁, h₁, f₁⟩ := onleaveFd_spec events (h.agree (.inr hs) .rcv) h.uses
    have hagree : type.supports .snd → s₁.readable .snd = s₁.flags .snd := fun hd => by
      obtain ⟨hf, hr⟩ := f₁.others .snd (by decide)
      rw [hf, hr]
      exact h.agree (.inr hs) .snd hd
    obtain ⟨s₂, h₂, f₂⟩ := onleaveFd_spec events hagree f₁.uses
    obtain ⟨hf, hr⟩ := f₂.others .rcv (by decide)
    refine ⟨{ s₂ with events := events }, ?_, f₂.state.trans f₁.state, f₂.spot.trans f₁.spot,
      fun _ => ⟨rfl, fun d hd => ?_⟩, fun hne => absurd hs hne, f₂.uses⟩
    · simp only [he, decide_true, nnAssert_true, ok_bind, h₁, h₂, pure_eq_ok]
    · cases d with
      | rcv => exact ⟨hf.trans (f₁.flags hd), hr.trans (f₁.readable hd)⟩
      | snd => exact ⟨f₂.flags hd, f₂.readable hd⟩
  · rw [if_pos hs]
    exact ⟨s, rfl, rfl, rfl, fun ha => absurd ha hs, fun _ => rfl, h.uses⟩

/-- A thread goes where it may be. -/
theorem Inv.spots_update (h : Inv type s) {t : τ} {p : SockSpot}
    (hp : ∀ d, p.dir = some d → type.supports d) :
    ∀ t' d, (update s.spot t p t').dir = some d → type.supports d := by
  intro t' d hd
  by_cases ht : t' = t
  · rw [ht, update_self] at hd
    exact hp d hd
  · rw [update_of_ne ht] at hd
    exact h.spots t' d hd

/-- In the context, a thread may go from one place to another. -/
theorem Inv.goto (h : Inv type s) {t : τ} (ho : s.owner ≠ none) {p : SockSpot}
    (hp : ∀ d, p.dir = some d → type.supports d) : Inv type (s.goto t p) :=
  ⟨h.spots_update hp, h.agree, fun _ hn => absurd hn ho, h.uses⟩

theorem Inv.loopBody (h : Inv type s) {t : τ} (ho : s.owner = some t) {d : Direction}
    (hd : type.supports d) {rc : ℤ} (hrc : rc ≤ 0) (dontwait : Bool) :
    ∃ s', s.loopBody t d rc dontwait = .ok s' ∧ Inv type s' := by
  have ho' : s.owner ≠ none := by simp [ho]
  have hreturns : Inv type (s.goto t (.leaving none)) := h.goto ho' nofun
  have hwaits : Inv type (s.goto t (.leaving (some d))) :=
    h.goto ho' fun d' hd' => Option.some.inj hd' ▸ hd
  -- `rc` is asserted to be an error if it is not 0.
  have hneg : rc ≠ 0 → decide (rc < 0) = true := fun hne => decide_eq_true (by omega)
  unfold SockFds.loopBody
  cases s.state with
  | active | init =>
    dsimp only
    by_cases h0 : rc = 0
    · exact ⟨_, if_pos h0, hreturns⟩
    · rw [if_neg h0, hneg h0, nnAssert_true, ok_bind]
      by_cases hagain : rc = -Errno.eagain
      · rw [if_neg (not_not_intro hagain)]
        cases dontwait with
        | false => exact ⟨_, rfl, hwaits⟩
        | true => exact ⟨_, rfl, hreturns⟩
      · exact ⟨_, if_pos hagain, hreturns⟩
  | stoppingEps | stopping | fini => exact ⟨_, rfl, hreturns⟩

omit [DecidableEq τ] in
/-- A socket that stops has its descriptors signalled, whatever they are. -/
theorem Inv.shutdownStop (h : Inv type s) (hs : s.state = .active) :
    ∃ s', s.shutdownStop type = .ok s' ∧ Inv type s' := by
  have hproper : ∀ (r : SockFds τ) (d : Direction), type.supports d → (∀ u ∈ r.uses, Proper type u) →
      ∀ u ∈ (r.efdStop d).uses, Proper type u := fun r d hd hr =>
    uses_append hr ⟨hd, nofun, nofun⟩
  simp only [SockFds.shutdownStop, hs, decide_true, nnAssert_true, ok_bind, pure_eq_ok]
  refine ⟨_, rfl, fun t d hd => h.spots t d ?_, fun hs => by simp at hs, fun hs => by simp at hs, ?_⟩
  · -- Nobody has moved.
    dsimp only at hd
    split at hd <;> split at hd <;> exact hd
  · dsimp only
    split <;> split
    · next hsnd hr => exact hproper _ .snd hsnd (hproper _ .rcv hr h.uses)
    · next hsnd _ => exact hproper _ .snd hsnd h.uses
    · next hr => exact hproper _ .rcv hr h.uses
    · exact h.uses

theorem Inv.leave (h : Inv type s) (t : τ) {events : ℤ} (he : 0 ≤ events) :
    ∃ s', s.exec type (.leave t events) = .ok s' ∧ Inv type s' := by
  obtain ⟨s', hx, hstate, hspot, hactive, hother, huses⟩ := onleave_spec h he
  simp only [exec, hx, ok_bind, pure_eq_ok]
  -- The thread goes on to wait, or is outside.
  refine ⟨_, rfl, fun t' d hd => ?_, fun hs d hd => ?_, fun hs _ d hd => ?_, huses⟩
  · refine h.spots_update (t := t) (fun d' hd' => ?_) t' d (hspot ▸ hd)
    split at hd'
    · next hl => exact h.spots t d' (by rw [hl]; exact hd')
    · simp [SockSpot.dir] at hd'
  · -- While the socket stops, nothing is looked at.
    by_cases ha : s.state = .active
    · obtain ⟨hf, hr⟩ := (hactive ha).2 d hd
      exact hr.trans hf.symm
    · rw [hother ha] at hs ⊢
      exact h.agree hs d hd
  · have ha : s.state = .active := hstate.symm.trans hs
    obtain ⟨hev, hfd⟩ := hactive ha
    exact (hfd d hd).1.trans (congrArg (hasEvent · d) hev).symm

theorem Inv.wait (h : Inv type s) {t : τ} {d : Direction} (hp : s.spot t = .waiting d) {rc : ℤ}
    (hrc : rc = 0 ∨ rc = -Errno.etimedout ∨ rc = -Errno.eintr ∨ rc = -Errno.ebadf) :
    ∃ s', s.exec type (.wait t rc) = .ok s' ∧ Inv type s' := by
  have hd : type.supports d := h.spots t d (by rw [hp]; rfl)
  have huses : ∀ u ∈ (s.use d .wait).uses, Proper type u := uses_append h.uses ⟨hd, nofun, nofun⟩
  simp only [exec, hp, afterWait]
  rcases hrc with rfl | hrc
  · rw [if_neg (by decide)]
    exact ⟨_, rfl, h.spots_update fun d' hd' => Option.some.inj hd' ▸ hd, h.agree, h.reported, huses⟩
  · rw [if_pos hrc]
    exact ⟨_, rfl, h.spots_update nofun, h.agree, h.reported, huses⟩

theorem Inv.reenter (h : Inv type s) {t : τ} {d : Direction} (hp : s.spot t = .woken d) :
    ∃ s', s.exec type (.reenter t) = .ok s' ∧ Inv type s' := by
  have hd : type.supports d := h.spots t d (by rw [hp]; rfl)
  have hspots : ∀ d', (SockSpot.loop d).dir = some d' → type.supports d' :=
    fun d' hd' => Option.some.inj hd' ▸ hd
  have huses : ∀ u ∈ (s.use d .wait).uses, Proper type u := uses_append h.uses ⟨hd, nofun, nofun⟩
  simp only [exec, hp]
  by_cases hr : s.readable d
  · -- The flag was already set, if the socket is active.
    have hx : ((s.ctxEnter t).recheck d) =
        { (s.ctxEnter t).use d .wait with flags := update s.flags d true } := if_pos hr
    rw [hx]
    refine ⟨_, rfl, h.spots_update hspots, fun hs d' hd' => ?_, fun _ hn => by simp [SockFds.goto, use,
      ctxEnter] at hn, huses⟩
    by_cases he : d' = d
    · subst he
      exact hr.trans (update_self d' true s.flags).symm
    · exact (h.agree hs d' hd').trans (update_of_ne he ..).symm
  · have hx : ((s.ctxEnter t).recheck d) = (s.ctxEnter t).use d .wait := if_neg hr
    rw [hx]
    exact ⟨_, rfl, h.spots_update hspots, h.agree, fun _ hn => by simp [SockFds.goto, use,
      ctxEnter] at hn, huses⟩

theorem inv_step (a : FdAction τ) (h : Inv type s) (he : s.enabled type a) :
    ∃ s', s.exec type a = .ok s' ∧ Inv type s' := by
  cases a with
  | enter t =>
    exact ⟨_, rfl, h.spots_update nofun, h.agree, fun _ hn => by simp [SockFds.goto, ctxEnter] at hn,
      h.uses⟩
  | start t =>
    obtain ⟨-, ho, hs⟩ := he
    exact ⟨_, rfl, h.spots, fun _ => h.agree (.inl hs), fun _ hn => by simp [ho] at hn, h.uses⟩
  | stop t => exact h.shutdownStop he.2.2
  | shutdown t state =>
    obtain ⟨-, -, hi, ha⟩ := he
    exact ⟨_, rfl, h.spots, fun hs => (hs.elim hi ha).elim, fun hs => absurd hs ha, h.uses⟩
  | call t d =>
    simp only [exec]
    by_cases hd : type.supports d
    · rw [if_pos hd]
      exact ⟨_, rfl, h.spots_update fun d' hd' => Option.some.inj hd' ▸ hd, h.agree,
        fun _ hn => by simp [SockFds.goto, ctxEnter] at hn, h.uses⟩
    · exact ⟨s, if_neg hd, h⟩
  | attempt t rc dontwait =>
    obtain ⟨ho, hp, hrc⟩ := he
    rcases hp with hp | hp <;>
    · have hd := h.spots t _ (by rw [hp]; rfl)
      simp only [exec, hp]
      exact h.loopBody ho hd hrc dontwait
  | leave t events => exact h.leave t he.2.2
  | wait t rc =>
    simp only [enabled] at he
    split at he
    · next d hp => exact h.wait hp (he.imp_left fun h => h.1)
    · exact he.elim
  | reenter t =>
    rcases he.1 with hp | hp
    · exact h.reenter hp
    · exact h.reenter hp

theorem keeps (type : SockType) : (system type (τ := τ)).Keeps (fun _ _ => True) (Inv type) where
  init _ h := inv_initial h
  step _ a h he _ := inv_step a h he

/-! ## The descriptors follow the protocol -/

/-- In every state reached in which the socket is active and its context free, a descriptor it
    has is readable when its flag is set, which is when the protocol has last said so. A
    descriptor is only ever used if the socket has it, unsignalled if it is readable and
    signalled, but for `nn_efd_stop`, if it is not; `nn_efd_stop` signals each descriptor when
    the socket stops, and nothing aborts. -/
theorem readiness {s : SockFds τ} (hs : (system type).Reachable s) :
    (s.state = .active → s.owner = none → ∀ d, type.supports d →
      s.readable d = s.flags d ∧ s.flags d = hasEvent s.events d) ∧
    (∀ u ∈ s.uses, Proper type u) ∧
    (∀ t s', s.exec type (.stop t) = .ok s' → (∀ d, type.supports d → s'.readable d = true) ∧
      ∃ uses, s'.uses = s.uses ++ uses ∧
        ∀ d, type.supports d → ⟨d, .stop, s.readable d⟩ ∈ uses) ∧
    ∀ a, s.enabled type a → ∃ s', s.exec type a = .ok s' := by
  have h := (keeps type).of_reach hs
  refine ⟨fun ha ho d hd => ⟨h.agree (.inr ha) d hd, h.reported ha ho d hd⟩, h.uses,
    fun t s' hx => (shutdownStop_spec hx).2.2.2, fun a he => ?_⟩
  obtain ⟨s', hx, -⟩ := inv_step a h he
  exact ⟨s', hx⟩

instance (s : SockFds τ) : DecidablePred (s.enabled type)
  | .enter _ | .start _ | .stop _ | .shutdown _ _ | .call _ _ | .attempt _ _ _ | .leave _ _
  | .reenter _ => by
    dsimp only [enabled]
    infer_instance
  | .wait t _ => by
    dsimp only [enabled]
    cases s.spot t <;> infer_instance

instance (s : SockFds τ) : DecidablePred ((system type).enabled s) :=
  inferInstanceAs (DecidablePred (s.enabled type))

/-- A socket type with both descriptors, and a socket of it. -/
def both : SockType := ⟨false, false, none⟩

def opened : SockFds Unit where
  state := .init
  flags _ := false
  readable _ := false
  owner := none
  spot _ := .outside
  events := 0
  uses := []

theorem opened_reachable : (system both).Reachable opened :=
  .init ⟨rfl, fun _ => rfl, fun _ _ => rfl, rfl, fun _ => rfl, rfl⟩

/-- The socket is started, and there is something to receive. -/
theorem readiness_opened : ∃ s : SockFds Unit, (system both).Reachable s ∧
    s.readable .rcv = s.flags .rcv ∧ s.flags .rcv = hasEvent 1 .rcv := by
  have hrun : (system both).execAll opened [.enter (), .start (), .leave () 1] = some _ := rfl
  have hs := (System.run_of_execAll hrun).reachable opened_reachable
  exact ⟨_, hs, (readiness hs).1 rfl rfl .rcv rfl⟩

/-- It is not so that a descriptor is signalled only if it is not readable: the socket is
    stopped when there is something to receive. -/
theorem stop_signals_twice : ∃ s : SockFds Unit, (system both).Reachable s ∧
    ⟨.rcv, .signal, false⟩ ∈ s.uses ∧ ⟨.rcv, .stop, true⟩ ∈ s.uses := by
  -- The descriptor is signalled as the context is left, and again by the stop.
  have hrun : (system both).execAll opened
    [.enter (), .start (), .leave () 1, .enter (), .stop ()] = some _ := rfl
  exact ⟨_, (System.run_of_execAll hrun).reachable opened_reachable, by decide, by decide⟩

end SockFds

end Nanomsg
