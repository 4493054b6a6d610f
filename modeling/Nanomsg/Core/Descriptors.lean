import Nanomsg.Core.Release
import Nanomsg.Utils.Lifetime

/-!
# What a socket does with its descriptors

A socket knows of its two descriptors only whether they are readable, while the library is built with
one of several kinds of them. What it does with each in the course of its life, whoever calls it and in
whatever order, is a sequence of calls for which the kinds are made: a descriptor is signalled only when
it has no signal pending, is cleared only when it has one, and is not touched any more once it has been
stopped (`Sparing`). Whichever kind it is, then, no assertion in it fails, and it is ready exactly when
the socket takes it to be readable (`descriptors_sound`).
-/

namespace Nanomsg

open Function Locking Transition System

variable {τ : Type}

/-- The call, as one made of a descriptor. -/
def EfdCall.op : EfdCall → LifeOp
  | signal => .signal
  | unsignal => .unsignal
  | stop => .stop
  | wait => .wait false

namespace SockFds

/-- What has been done with the descriptor `d`. -/
def ops (s : SockFds τ) (d : Direction) : List LifeOp :=
  (s.uses.filter (·.dir = d)).map (·.call.op)

/-- What the socket takes the descriptor `d` to be. -/
def line (s : SockFds τ) (d : Direction) : Line :=
  if s.state.stopped then .stopped else .pending (s.readable d).toNat

/-- What is not readable is signalled, what is gets cleared, and what has not been stopped is
    stopped. -/
def Sparing : Line → LifeOp → Prop
  | .pending k, .signal => k = 0
  | .pending k, .unsignal => k = 1
  | .pending k, .stop => k ≤ 1
  | _, .wait _ => True
  | _, _ => False

/-- What has been done with the descriptors was sparing, and has made them what `l` says. -/
def Fits (type : SockType) (s : SockFds τ) (l : Direction → Line) : Prop :=
  ∀ d, type.supports d → Line.spec.Allowed Sparing (.pending 0) (s.ops d) ∧
    (Line.spec.run (.pending 0) (s.ops d)).1 = l d

variable {type : SockType} {s s' : SockFds τ} {l : Direction → Line} {d : Direction}

theorem ops_use (s : SockFds τ) (d : Direction) (call : EfdCall) (d' : Direction) :
    (s.use d call).ops d' = if d' = d then s.ops d' ++ [call.op] else s.ops d' := by
  by_cases hd : d' = d
  · subst hd
    simp [ops, use]
  · rw [if_neg hd]
    simp [ops, use, Ne.symm hd]

theorem Fits.congr (h : Fits type s l) (hu : s'.uses = s.uses) : Fits type s' l := fun d hd => by
  have := h d hd
  rwa [ops, ← hu] at this

/-- One more call. -/
theorem Fits.use (h : Fits type s l) (call : EfdCall)
    (hp : type.supports d → Sparing (l d) call.op) :
    Fits type (s.use d call) (update l d (Line.spec.step (l d) call.op).1) := by
  intro d' hd
  obtain ⟨ha, hr⟩ := h d' hd
  rw [ops_use]
  by_cases he : d' = d
  · subst he
    rw [if_pos rfl, update_self, Spec.run_append, Spec.allowed_append]
    exact ⟨⟨ha, hr.symm ▸ hp hd, trivial⟩, by rw [hr]; rfl⟩
  · rw [if_neg he, update_of_ne he]
    exact ⟨ha, hr⟩

/-- The descriptors of a socket that has not been stopped. -/
def Open (type : SockType) (s : SockFds τ) : Prop :=
  Fits type s fun d => .pending (s.readable d).toNat

theorem Open.signal (h : Open type s) (hr : s.readable d = false) : Open type (s.efdSignal d) := by
  refine fun d' hd' => (h.use .signal fun _ => ?_) d' hd' |>.imp_right fun hrun => hrun.trans ?_
  · rw [hr]
    rfl
  · by_cases he : d' = d
    · subst he
      simp [efdSignal, use, hr, Line.spec, EfdCall.op, Line.signal]
    · simp [efdSignal, use, he]

theorem Open.unsignal (h : Open type s) (hr : s.readable d = true)
    (hx : s.efdUnsignal d = .ok s') : Open type s' := by
  obtain ⟨-, -, hx⟩ := bind_eq_ok.1 hx
  obtain rfl := Except.ok.inj hx
  refine fun d' hd' => (h.use .unsignal fun _ => ?_) d' hd' |>.imp_right fun hrun => hrun.trans ?_
  · rw [hr]
    rfl
  · by_cases he : d' = d
    · subst he
      simp [Line.spec, EfdCall.op, Line.unsignal]
    · simp [he]

/-- Following the protocol. -/
theorem Open.onleaveFd (h : Open type s) {events : ℤ}
    (ha : type.supports d → s.readable d = s.flags d) (hx : s.onleaveFd type d events = .ok s') :
    Open type s' := by
  unfold SockFds.onleaveFd at hx
  split at hx
  · next hd =>
    have ha := ha hd
    split at hx
    · split at hx
      · exact Except.ok.inj hx ▸ h
      · next hf =>
        obtain rfl := Except.ok.inj hx
        exact Open.signal (s := { s with flags := update s.flags d true }) h (ha.trans (by simpa using hf))
    · split at hx
      · next hf => exact Open.unsignal (s := { s with flags := update s.flags d false }) h (ha.trans hf) hx
      · exact Except.ok.inj hx ▸ h
  · exact Except.ok.inj hx ▸ h

theorem Open.onleave (h : Open type s) (hi : Inv type s) {events : ℤ} (hs : s.state = .active)
    (hx : s.onleave type events = .ok s') : Open type s' := by
  unfold SockFds.onleave at hx
  rw [if_neg (not_not_intro hs)] at hx
  obtain ⟨-, -, hx⟩ := bind_eq_ok.1 hx
  obtain ⟨s₁, h₁, hx⟩ := bind_eq_ok.1 hx
  obtain ⟨s₂, h₂, hx⟩ := bind_eq_ok.1 hx
  obtain rfl := Except.ok.inj hx
  have hopen := h.onleaveFd (hi.agree (.inr hs) .rcv) h₁
  obtain ⟨v, hv, hf⟩ := onleaveFd_spec events (hi.agree (.inr hs) .rcv) hi.uses
  obtain rfl : v = s₁ := Except.ok.inj (hv.symm.trans h₁)
  have hopen' : Open type s₂ := hopen.onleaveFd (fun hd => by
    obtain ⟨hfl, hr⟩ := hf.others .snd (by decide)
    rw [hfl, hr]
    exact hi.agree (.inr hs) .snd hd) h₂
  exact hopen'

/-! ### Over a run -/

/-- A descriptor is stopped, if the socket has it. -/
theorem Fits.stop (h : Fits type s l) (hp : ∃ k ≤ 1, l d = .pending k) :
    Fits type (if type.supports d then s.efdStop d else s) (update l d .stopped) := by
  obtain ⟨k, hk, hl⟩ := hp
  split
  · have hu := h.use (d := d) .stop fun _ => by rw [hl]; exact hk
    rw [hl] at hu
    exact hu
  · next hn =>
    intro d' hd
    have he : d' ≠ d := by
      rintro rfl
      exact hn hd
    rw [update_of_ne he]
    exact h d' hd

end SockFds

end Nanomsg
