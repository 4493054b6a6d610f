import Mathlib.Algebra.Order.Ring.Nat
import Nanomsg.Aio.Poller
import Nanomsg.Lib.System

/-!
# The registry of the poll backend

`poller_poll.inc`: the handles are in an array, `hndls`, beside that of `poll`,
`pollset`; each handle has the index of its slot. The slots of handles that have been
removed are linked, and `nn_poller_wait` fills them from the end of the arrays before it
polls. Some names are misspelt in the source, so that it does not
compile (`follfd`, `hndl` for `hndls`, a bracket in `nn_poller_set_in`); they are read
as what they stand for.

What the allocated memory and the handles hold at first is not known: it is a
parameter. Memory is taken to be allocated always.

`pollset_correct_iff`: the registry is right as long as `nn_poller_wait` finds no handle
registered, for `nn_poller_add` does not register any.
-/

namespace Nanomsg

open Function Transition

variable {κ : Type}

/-- `struct pollfd`. -/
structure PollFd where
  fd : ℤ
  events : BitVec 16
  revents : BitVec 16
  deriving DecidableEq

/-- `struct nn_hndls_item`. -/
structure HndlsItem (κ : Type) where
  hndl : Option κ
  prev : ℤ
  next : ℤ
  deriving DecidableEq

/-- `struct nn_poller`, and `index` of each handle. -/
structure Pollset (κ : Type) where
  size : ℕ
  index : ℕ
  capacity : ℕ
  pollset : ℤ → PollFd
  hndls : ℤ → HndlsItem κ
  removed : ℤ
  slot : κ → ℤ

namespace Pollset

/-- `NN_POLLER_GRANULARITY`. -/
def granularity : ℕ := 16

abbrev pollin : BitVec 16 := 0x001
abbrev pollout : BitVec 16 := 0x004

/-- `nn_poller_init`, with what the memory holds. -/
def init (pollset : ℤ → PollFd) (hndls : ℤ → HndlsItem κ) (slot : κ → ℤ) : Pollset κ where
  size := 0
  index := 0
  capacity := granularity
  pollset := pollset
  hndls := hndls
  removed := -1
  slot := slot

variable (self : Pollset κ)

/-- The arrays have a slot `i`. -/
def InBounds (i : ℤ) : Prop := 0 ≤ i ∧ i < self.capacity

instance (i : ℤ) : Decidable (self.InBounds i) := inferInstanceAs (Decidable (_ ∧ _))

/-- `self->pollset[i]`. -/
def fd (i : ℤ) : Except Fault PollFd :=
  if self.InBounds i then .ok (self.pollset i) else .error .wildPointer

def setFd (i : ℤ) (f : PollFd → PollFd) : Except Fault (Pollset κ) :=
  if self.InBounds i then .ok { self with pollset := update self.pollset i (f (self.pollset i)) }
  else .error .wildPointer

/-- `self->hndls[i]`. -/
def item (i : ℤ) : Except Fault (HndlsItem κ) :=
  if self.InBounds i then .ok (self.hndls i) else .error .wildPointer

def setItem (i : ℤ) (f : HndlsItem κ → HndlsItem κ) : Except Fault (Pollset κ) :=
  if self.InBounds i then .ok { self with hndls := update self.hndls i (f (self.hndls i)) }
  else .error .wildPointer

/-- `nn_poller_add`. It does nothing with the handle. -/
def add (_hndl : κ) : Except Fault (Pollset κ) :=
  if self.capacity ≤ self.size then
    if self.capacity * 2 < 2 ^ 31 then .ok { self with capacity := self.capacity * 2 }
    else .error .overflow
  else .ok self

/-- `nn_poller_rm`. -/
def rm (hndl : κ) : Except Fault (Pollset κ) := do
  let self ← self.setFd (self.slot hndl) fun f => { f with revents := 0 }
  if self.removed ≠ -1 then
    let self ← self.setItem self.removed fun it => { it with prev := self.slot hndl }
    let self ← self.setItem (self.slot hndl) fun _ => ⟨none, -1, self.removed⟩
    pure { self with removed := self.slot hndl }
  else pure self

/-- `nn_poller_set_in` and `nn_poller_set_out`, with the bit. -/
def set (bit : BitVec 16) (hndl : κ) : Except Fault (Pollset κ) :=
  self.setFd (self.slot hndl) fun f => { f with events := f.events ||| bit }

/-- `nn_poller_reset_in` and `nn_poller_reset_out`, with the bit. -/
def reset (bit : BitVec 16) (hndl : κ) : Except Fault (Pollset κ) :=
  self.setFd (self.slot hndl) fun f =>
    { f with events := f.events &&& ~~~bit, revents := f.revents &&& ~~~bit }

abbrev setIn := self.set pollin
abbrev setOut := self.set pollout
abbrev resetIn := self.reset pollin
abbrev resetOut := self.reset pollout

variable [DecidableEq κ]

/-- The slot `i` is filled from the end of the arrays. -/
def fill (i : ℤ) : Except Fault (Pollset κ) := do
  let last ← self.fd self.size
  let self ← self.setFd i fun _ => last
  let it ← self.item i
  let self ← if it.next ≠ -1 then self.setItem it.next fun it => { it with prev := -1 } else pure self
  let last ← self.item self.size
  let self ← self.setItem i fun _ => last
  match last.hndl with
  | some hndl => pure { self with slot := update self.slot hndl i }
  | none => pure self

/-- What fills the slot `i` has been removed as well: it is linked there. -/
def relink (i : ℤ) : Except Fault (Pollset κ) := do
  let it ← self.item i
  let self ← if it.prev ≠ -1 then self.setItem it.prev fun it => { it with next := i } else pure self
  let it ← self.item i
  let self ← if it.next ≠ -1 then self.setItem it.next fun it => { it with prev := i } else pure self
  pure (if self.removed = self.size then { self with removed := i } else self)

/-- The first of the slots of removed handles goes. A `size` that gets negative is the index of
    no slot. -/
def shrink : Except Fault (Pollset κ) := do
  let i := self.removed
  let it ← self.item i
  match self.size with
  | 0 => .error .wildPointer
  | size + 1 => do
    let self := { self with removed := it.next, size := size }
    let self ← if i ≠ size then self.fill i else pure self
    let it ← self.item i
    if it.hndl.isNone then self.relink i else pure self

/-- The loop of `nn_poller_wait`. -/
def compact : ℕ → Pollset κ → Except Fault (Pollset κ)
  | 0, self => if self.removed = -1 then .ok self else .error .diverges
  | n + 1, self => if self.removed = -1 then .ok self else self.shrink >>= compact n

/-- `poll` stores the events of each slot. -/
def polled (revents : ℤ → BitVec 16) : Pollset κ :=
  { self with
    pollset := fun i =>
      if 0 ≤ i ∧ i < self.size then { self.pollset i with revents := revents i } else self.pollset i }

/-- `nn_poller_wait`; `poll` is interrupted, or returns some events. -/
def wait (poll : Option (ℤ → BitVec 16)) : Except Fault (Pollset κ × ℤ) := do
  let self ← compact (self.size + 1) self
  let self := { self with index := 0 }
  match poll with
  | none => pure (self, -Errno.eintr)
  | some revents => pure (self.polled revents, 0)

end Pollset

namespace Pollset

variable (self : Pollset κ)

/-- Where the loop of `nn_poller_event` ends. -/
def next : ℕ :=
  self.index +
    Drain.pass (fun i : ℕ => (self.pollset i).revents = 0) ((List.range self.size).drop self.index)

/-- What `nn_poller_event` returns when its loop has ended at a slot. -/
def report : Except Fault (Pollset κ × Report κ) := do
  let it ← self.item self.index
  let f ← self.fd self.index
  if f.revents &&& pollin ≠ 0 then
    let self ← self.setFd self.index fun f => { f with revents := f.revents &&& ~~~pollin }
    pure (self, .evIn, it.hndl)
  else if f.revents &&& pollout ≠ 0 then
    let self ← self.setFd self.index fun f => { f with revents := f.revents &&& ~~~pollout }
    pure (self, .evOut, it.hndl)
  else pure ({ self with index := self.index + 1 }, .evErr, it.hndl)

/-- `nn_poller_event`: nothing for `-EAGAIN`. -/
def event : Except Fault (Pollset κ × Option (Report κ)) :=
  let self := { self with index := self.next }
  if self.size ≤ self.index then .ok (self, none)
  else do
    let (self, report) ← self.report
    pure (self, some report)

end Pollset

/-- A poller, the handles registered with it and what each is interested in, and
    what `nn_poller_event` has returned last. -/
structure PollRegistry (κ : Type) where
  poller : Pollset κ
  registered : κ → Bool
  interest : κ → BitVec 16
  returned : Option (Report κ)

/-- The calls of a poller. -/
inductive PollerCall (κ : Type)
  | add (hndl : κ)
  | rm (hndl : κ)
  | setIn (hndl : κ)
  | resetIn (hndl : κ)
  | setOut (hndl : κ)
  | resetOut (hndl : κ)
  | wait (poll : Option (ℤ → BitVec 16))
  | event

namespace PollerCall

/-- The handle that the call is made for, if it is to be registered. -/
def uses : PollerCall κ → Option κ
  | rm hndl | setIn hndl | resetIn hndl | setOut hndl | resetOut hndl => some hndl
  | add _ | wait _ | event => none

/-- It is a call of `nn_poller_wait`. -/
def waits : PollerCall κ → Bool
  | wait _ => true
  | add _ | rm _ | setIn _ | resetIn _ | setOut _ | resetOut _ | event => false

end PollerCall

namespace PollRegistry

/-- Before any call. -/
def init (pollset : ℤ → PollFd) (hndls : ℤ → HndlsItem κ) (slot : κ → ℤ) : PollRegistry κ :=
  ⟨.init pollset hndls slot, fun _ => false, fun _ => 0, none⟩

variable [DecidableEq κ] (w : PollRegistry κ)

/-- A call, and what it changes in what is registered. -/
def exec : PollerCall κ → Except Fault (PollRegistry κ)
  | .add hndl => do
    let poller ← w.poller.add hndl
    pure { w with
      poller := poller
      registered := update w.registered hndl true
      interest := update w.interest hndl 0 }
  | .rm hndl => do
    let poller ← w.poller.rm hndl
    pure { w with poller := poller, registered := update w.registered hndl false }
  | .setIn hndl => do
    let poller ← w.poller.setIn hndl
    pure { w with
      poller := poller
      interest := update w.interest hndl (w.interest hndl ||| Pollset.pollin) }
  | .resetIn hndl => do
    let poller ← w.poller.resetIn hndl
    pure { w with
      poller := poller
      interest := update w.interest hndl (w.interest hndl &&& ~~~Pollset.pollin) }
  | .setOut hndl => do
    let poller ← w.poller.setOut hndl
    pure { w with
      poller := poller
      interest := update w.interest hndl (w.interest hndl ||| Pollset.pollout) }
  | .resetOut hndl => do
    let poller ← w.poller.resetOut hndl
    pure { w with
      poller := poller
      interest := update w.interest hndl (w.interest hndl &&& ~~~Pollset.pollout) }
  | .wait poll => do
    let (poller, _) ← w.poller.wait poll
    pure { w with poller := poller }
  | .event => do
    let (poller, returned) ← w.poller.event
    pure { w with poller := poller, returned := returned }

/-- A handle is added when it is not registered; the other calls are made for registered ones. -/
def enabled : PollerCall κ → Prop
  | .add hndl => w.registered hndl = false
  | call => ∀ hndl, call.uses = some hndl → w.registered hndl

/-- The registry. -/
def system (pollset : ℤ → PollFd) (hndls : ℤ → HndlsItem κ) (slot : κ → ℤ) :
    System (PollRegistry κ) (PollerCall κ) Fault where
  init w := w = init pollset hndls slot
  enabled := enabled
  exec := exec

/-! ### What is right -/

variable {w}

/-- The arrays when `poll` is called: each registered handle is in its slot, with what
    it is interested in, and each slot has a registered handle. -/
structure Polls (w : PollRegistry κ) : Prop where
  slot : ∀ hndl, w.registered hndl → 0 ≤ w.poller.slot hndl ∧ w.poller.slot hndl < w.poller.size ∧
    (w.poller.hndls (w.poller.slot hndl)).hndl = some hndl ∧
    (w.poller.pollset (w.poller.slot hndl)).events = w.interest hndl
  hndl : ∀ i : ℕ, i < w.poller.size →
    ∃ hndl, (w.poller.hndls i).hndl = some hndl ∧ w.registered hndl ∧ w.poller.slot hndl = i

/-- A step is right: `poll` is called with the registered handles, and an event
    is for one of them. -/
structure StepRight (w : PollRegistry κ) (call : PollerCall κ) (w' : PollRegistry κ) : Prop where
  polls : call.waits → Polls w'
  event : call = .event → ∀ event hndl, w'.returned = some (event, hndl) →
    ∃ k, hndl = some k ∧ w.registered k

/-- No slot is beyond those allocated. -/
def Right (w : PollRegistry κ) : Prop := w.poller.size ≤ w.poller.capacity

/-- The call does no harm: `nn_poller_wait` finds no handle registered, and a handle's index,
    which has not been set, is by chance that of a slot. -/
structure Harmless (w : PollRegistry κ) (call : PollerCall κ) : Prop where
  waits : call.waits → ∀ hndl, w.registered hndl = false
  uses : ∀ hndl, call.uses = some hndl → w.poller.InBounds (w.poller.slot hndl)

end PollRegistry

/-! ### One call -/

namespace Pollset

variable [DecidableEq κ] {self : Pollset κ}

/-- No handle has been registered, and none removed. -/
structure Blank (s : Pollset κ) : Prop where
  size : s.size = 0
  capacity : 0 < s.capacity
  removed : s.removed = -1

omit [DecidableEq κ] in
theorem blank_init (pollset : ℤ → PollFd) (hndls : ℤ → HndlsItem κ) (slot : κ → ℤ) :
    (init pollset hndls slot).Blank := ⟨rfl, Nat.zero_lt_succ 15, rfl⟩

omit [DecidableEq κ] in
/-- A slot is changed, where there is one. -/
theorem setFd_eq_ok {i : ℤ} {f : PollFd → PollFd} {self' : Pollset κ} :
    self.setFd i f = .ok self' ↔
      self.InBounds i ∧ { self with pollset := update self.pollset i (f (self.pollset i)) } = self' := by
  by_cases h : self.InBounds i <;> simp [setFd, h]

omit [DecidableEq κ] in
/-- As long as no handle is linked as removed, none gets linked. -/
theorem rm_eq (hr : self.removed = -1) (hndl : κ) :
    self.rm hndl = self.setFd (self.slot hndl) fun f => { f with revents := 0 } := by
  by_cases hb : self.InBounds (self.slot hndl) <;> simp [rm, setFd, hb, hr]

namespace Blank

variable (h : self.Blank)

include h

omit [DecidableEq κ] in
theorem add (hndl : κ) : self.add hndl = .ok self := by
  rw [Pollset.add, h.size, if_neg (Nat.not_le.2 h.capacity)]

omit [DecidableEq κ] in
theorem setFd {i : ℤ} {f : PollFd → PollFd} {self' : Pollset κ} (hx : self.setFd i f = .ok self') :
    self'.Blank := by
  obtain ⟨-, rfl⟩ := setFd_eq_ok.1 hx
  exact ⟨h.size, h.capacity, h.removed⟩

theorem wait (poll : Option (ℤ → BitVec 16)) : ∃ self' rc, self.wait poll = .ok (self', rc) ∧
    self'.Blank ∧ self'.slot = self.slot := by
  have hc : compact (self.size + 1) self = .ok self := by rw [compact, if_pos h.removed]
  cases poll with
  | none => exact ⟨{ self with index := 0 }, _, by rw [Pollset.wait, hc]; rfl,
      ⟨h.size, h.capacity, h.removed⟩, rfl⟩
  | some revents => exact ⟨polled { self with index := 0 } revents, _, by rw [Pollset.wait, hc]; rfl,
      ⟨h.size, h.capacity, h.removed⟩, rfl⟩

omit [DecidableEq κ] in
theorem event : ∃ self', self.event = .ok (self', none) ∧ self'.Blank := by
  refine ⟨{ self with index := self.next }, ?_, h.size, h.capacity, h.removed⟩
  exact if_pos (by rw [h.size]; exact Nat.zero_le _)

end Blank

end Pollset

/-! ### Runs -/

namespace PollRegistry

variable [DecidableEq κ] {w : PollRegistry κ}

/-- A call made for a handle touches the slot the handle's index is that of. -/
theorem exec_use (h : w.poller.Blank) {call : PollerCall κ} {hndl : κ}
    (hu : call.uses = some hndl) : ∃ f : PollFd → PollFd, ∃ g : Pollset κ → PollRegistry κ,
      (∀ p, (g p).poller = p) ∧
      w.exec call = (w.poller.setFd (w.poller.slot hndl) f).map g := by
  cases call with
  | add _ => simp [PollerCall.uses] at hu
  | wait _ => simp [PollerCall.uses] at hu
  | event => simp [PollerCall.uses] at hu
  | rm k =>
    obtain rfl := Option.some.inj hu
    exact ⟨_, fun p => { w with poller := p, registered := update w.registered k false }, fun _ => rfl,
      by rw [exec, Pollset.rm_eq h.removed]; rfl⟩
  | setIn k =>
    obtain rfl := Option.some.inj hu
    exact ⟨_, fun p => { w with poller := p, interest := update w.interest k _ }, fun _ => rfl, rfl⟩
  | resetIn k =>
    obtain rfl := Option.some.inj hu
    exact ⟨_, fun p => { w with poller := p, interest := update w.interest k _ }, fun _ => rfl, rfl⟩
  | setOut k =>
    obtain rfl := Option.some.inj hu
    exact ⟨_, fun p => { w with poller := p, interest := update w.interest k _ }, fun _ => rfl, rfl⟩
  | resetOut k =>
    obtain rfl := Option.some.inj hu
    exact ⟨_, fun p => { w with poller := p, interest := update w.interest k _ }, fun _ => rfl, rfl⟩

theorem exec_use_ok (h : w.poller.Blank) {call : PollerCall κ} {hndl : κ}
    (hu : call.uses = some hndl) (hb : w.poller.InBounds (w.poller.slot hndl)) :
    ∃ w', w.exec call = .ok w' ∧ w'.poller.Blank := by
  obtain ⟨f, g, hg, hx⟩ := exec_use h hu
  obtain ⟨p, hs⟩ : ∃ p, w.poller.setFd (w.poller.slot hndl) f = .ok p :=
    ⟨_, Pollset.setFd_eq_ok.2 ⟨hb, rfl⟩⟩
  rw [hs] at hx
  exact ⟨_, hx, by rw [hg]; exact h.setFd hs⟩

theorem inBounds_of_exec (h : w.poller.Blank) {call : PollerCall κ} {hndl : κ} {w' : PollRegistry κ}
    (hu : call.uses = some hndl) (hx : w.exec call = .ok w') :
    w.poller.InBounds (w.poller.slot hndl) := by
  obtain ⟨f, g, -, hx'⟩ := exec_use h hu
  by_contra hb
  rw [hx', Pollset.setFd, if_neg hb] at hx
  cases hx

omit [DecidableEq κ] in
/-- With no handle registered, there is nothing to poll. -/
theorem polls_blank {w : PollRegistry κ} (h : w.poller.Blank) (hr : ∀ hndl, w.registered hndl = false) :
    Polls w where
  slot hndl hk := by simp [hr hndl] at hk
  hndl i hi := by simp [h.size] at hi

omit [DecidableEq κ] in
/-- Nothing is polled, so that no handle may be registered. -/
theorem registered_of_polls {w : PollRegistry κ} (h : w.poller.Blank) (hp : Polls w) (hndl : κ) :
    w.registered hndl = false := by
  cases hr : w.registered hndl with
  | false => rfl
  | true =>
    obtain ⟨h0, hlt, -⟩ := hp.slot hndl hr
    rw [h.size] at hlt
    omega

theorem exec_wait (h : w.poller.Blank) (poll : Option (ℤ → BitVec 16)) :
    ∃ w', w.exec (.wait poll) = .ok w' ∧ w'.poller.Blank ∧ w'.registered = w.registered := by
  obtain ⟨p, rc, hx, hp, -⟩ := h.wait poll
  exact ⟨{ w with poller := p }, by simp [exec, hx], hp, rfl⟩

/-- A call that does no harm is right. -/
theorem inv_step (h : w.poller.Blank) {call : PollerCall κ} (hc : Harmless w call) :
    ∃ w', w.exec call = .ok w' ∧ StepRight w call w' ∧ w'.poller.Blank := by
  cases hu : call.uses with
  | some hndl =>
    obtain ⟨w', hx, h'⟩ := exec_use_ok h hu (hc.uses hndl hu)
    refine ⟨w', hx, ⟨fun hw => ?_, fun he => ?_⟩, h'⟩
    · cases call <;> simp [PollerCall.waits, PollerCall.uses] at hw hu
    · simp [he, PollerCall.uses] at hu
  | none =>
    cases call with
    | add hndl =>
      exact ⟨{ w with
          registered := update w.registered hndl true
          interest := update w.interest hndl 0 },
        by rw [exec, h.add]; rfl, ⟨(nomatch ·), (nomatch ·)⟩, h⟩
    | wait poll =>
      obtain ⟨w', hx, h', hr⟩ := exec_wait h poll
      refine ⟨w', hx, ⟨fun _ => polls_blank h' ?_, (nomatch ·)⟩, h'⟩
      rw [hr]
      exact hc.waits rfl
    | event =>
      obtain ⟨p, hx, hp⟩ := h.event
      exact ⟨{ w with poller := p, returned := none }, by simp [exec, hx],
        ⟨(nomatch ·), fun _ _ _ hr => nomatch hr⟩, hp⟩
    | rm _ => simp [PollerCall.uses] at hu
    | setIn _ => simp [PollerCall.uses] at hu
    | resetIn _ => simp [PollerCall.uses] at hu
    | setOut _ => simp [PollerCall.uses] at hu
    | resetOut _ => simp [PollerCall.uses] at hu

/-- The runs that are right are those in which no call does harm: no handle is ever registered
    when `poll` is called. -/
theorem pollset_correct_iff (pollset : ℤ → PollFd) (hndls : ℤ → HndlsItem κ) (slot : κ → ℤ)
    (calls : List (PollerCall κ)) :
    (system pollset hndls slot).Correct Right StepRight (init pollset hndls slot) calls ↔
      (system pollset hndls slot).Meets Harmless (init pollset hndls slot) calls := by
  refine System.correct_iff_meets (I := fun w => w.poller.Blank) (fun w h => ?_)
    (fun w call h _ hc => inv_step h hc) (fun w call w' h _ hx hq _ => ⟨?_, ?_⟩)
    (Pollset.blank_init pollset hndls slot) calls
  · rw [Right, h.size]
    exact Nat.zero_le _
  · intro hw hndl
    cases call with
    | wait poll =>
      obtain ⟨w₁, hx₁, h₁, hr⟩ := exec_wait h poll
      obtain rfl : w' = w₁ := Except.ok.inj (hx.symm.trans hx₁)
      rw [← hr]
      exact registered_of_polls h₁ (hq.polls rfl) hndl
    | add _ => cases hw
    | rm _ => cases hw
    | setIn _ => cases hw
    | resetIn _ => cases hw
    | setOut _ => cases hw
    | resetOut _ => cases hw
    | event => cases hw
  · exact fun hndl hu => inBounds_of_exec h hu hx

/-- A handle is added: it is not polled. -/
theorem pollset_not_correct :
    ¬ (system (fun _ => ⟨-1, 0, 0⟩) (fun _ => ⟨none, -1, -1⟩) (fun _ => 0)).Correct Right StepRight
      (init (fun _ => ⟨-1, 0, 0⟩) (fun _ => ⟨none, -1, -1⟩) (fun _ : Unit => 0))
      [.add (), .wait (some fun _ => 0)] := by
  intro h
  have h := h.step rfl rfl
  obtain ⟨w', hx, hq, -⟩ := h.2 (fun _ hu => by cases hu)
  obtain rfl := Except.ok.inj hx
  have hlt := ((hq.polls rfl).slot () rfl).2.1
  exact absurd hlt (by decide)

end PollRegistry

end Nanomsg
