import Nanomsg.Aio.Poller
import Nanomsg.Lib.System
import Mathlib.Logic.Function.Basic

/-!
# The batches of the kqueue backend

`poller_kqueue.inc`: `kevent` stores the events of a batch, one for each descriptor and
filter, with the handle in `udata`. `nn_poller_event` returns one event for each, an
error where `EV_EOF` is set; a handle that is removed, or an event that is reset, has the
`udata` of what is left of the batch set to null.

Names are misspelt in the source, so that it does not compile (`nevnets`, `evnets`,
`nn_poller_updata`, the parameter `fd` of `nn_poller_add`); they are read as what they stand for.
Of the kernel, the handle that each descriptor and filter has been added with is kept; and
it is recorded which handles are registered. No two of them have one descriptor.

`kqueue_reports`: in every state that can be reached, whatever the kernel may store is handed
out, where resetting an event gives up all that its filter has told of, errors included.
-/

namespace Nanomsg

open Function Transition Drain

variable {κ : Type}

/-- `EVFILT_READ`, `EVFILT_WRITE`, and the filters not used. -/
inductive KFilter
  | read
  | write
  | other
  deriving DecidableEq

/-- `struct kevent`. -/
structure KEvent (κ : Type) where
  ident : ℕ
  filter : KFilter
  /-- `EV_EOF` is set in `flags`. -/
  eof : Bool
  udata : Option κ
  deriving DecidableEq

/-- `struct nn_poller`, the handles, and what the kernel has been told. -/
structure Kqueue (κ : Type) where
  knotes : ℕ → KFilter → Option κ
  registered : κ → Bool
  /-- `hndl->fd` and `hndl->events`. -/
  fd : κ → ℕ
  hevents : κ → BitVec 32
  /-- The first `nevents` of `self->events`. -/
  events : List (KEvent κ)
  index : ℕ

namespace KFilter

/-- `NN_POLLER_EVENT_IN` and `NN_POLLER_EVENT_OUT`. -/
def bit : KFilter → BitVec 32
  | read => 1
  | write => 2
  | other => 0

/-- The event that a filter is for. -/
def event : KFilter → PollerEvent
  | read => .evIn
  | write => .evOut
  | other => .evErr

end KFilter

namespace Kqueue

/-- `NN_POLLER_MAX_EVENTS`. -/
def maxEvents : ℕ := 32

/-- `nn_poller_init`, with what the handles hold. -/
def init (fd : κ → ℕ) (hevents : κ → BitVec 32) : Kqueue κ :=
  ⟨fun _ _ => none, fun _ => false, fd, hevents, [], 0⟩

section

variable (self : Kqueue κ)

/-- `nn_poller_wait`, when `kevent` has stored `batch`. -/
def wait (batch : List (KEvent κ)) : Kqueue κ := { self with events := batch, index := 0 }

/-- Where the loop of `nn_poller_event` ends. -/
def next : ℕ := self.index + pass (fun e : KEvent κ => e.udata.isNone) (self.events.drop self.index)

/-- `nn_poller_event`: nothing for `-EAGAIN`. -/
def event : Except Fault (Kqueue κ × Option (Report κ)) :=
  match self.events[self.next]? with
  | none => .ok ({ self with index := self.next }, none)
  | some e => do
    let event ← if e.eof then .ok PollerEvent.evErr
      else match e.filter with
        | .write => .ok .evOut
        | .read => .ok .evIn
        | .other => .error .assertion
    pure ({ self with index := self.next + 1 }, some (event, e.udata))

/-- The loop over what is left of the batch, which sets `udata` to null. It is to start
    before the end. -/
def sweep (p : KEvent κ → Bool) : Except Fault (Kqueue κ) :=
  if self.index ≤ self.events.length then
    .ok { self with
      events := self.events.take self.index ++ (self.events.drop self.index).map fun e =>
        if p e then { e with udata := none } else e }
  else .error .wildPointer

/-- What `kevent` does for `EV_DELETE`. -/
def delete (fd : ℕ) (f : KFilter) : Kqueue κ :=
  { self with knotes := update self.knotes fd (update (self.knotes fd) f none) }

end

variable [DecidableEq κ] (self : Kqueue κ)

/-- `nn_poller_add`. -/
def add (hndl : κ) (fd : ℕ) : Kqueue κ :=
  { self with
    registered := update self.registered hndl true
    fd := update self.fd hndl fd
    hevents := update self.hevents hndl 0 }

/-- `nn_poller_set_in` and `nn_poller_set_out`, with the filter; `ok` where `kevent` does not
    fail for `EV_ADD`. -/
def set (f : KFilter) (hndl : κ) (ok : Bool) : Kqueue κ :=
  if self.hevents hndl &&& f.bit = 0 then
    if ok then
      { self with
        knotes := update self.knotes (self.fd hndl)
          (update (self.knotes (self.fd hndl)) f (some hndl))
        hevents := update self.hevents hndl (self.hevents hndl ||| f.bit) }
    else self
  else self

/-- `nn_poller_rm`, but for its loop. -/
def forget (hndl : κ) : Kqueue κ :=
  let s := { self with registered := update self.registered hndl false }
  let s := if self.hevents hndl &&& KFilter.read.bit ≠ 0 then s.delete (self.fd hndl) .read else s
  if self.hevents hndl &&& KFilter.write.bit ≠ 0 then s.delete (self.fd hndl) .write else s

/-- `nn_poller_reset_in`, but for its loop. -/
def stopIn (hndl : κ) : Kqueue κ :=
  if self.hevents hndl &&& KFilter.read.bit ≠ 0 then
    { self.delete (self.fd hndl) .read with
      hevents := update self.hevents hndl (self.hevents hndl &&& ~~~KFilter.read.bit) }
  else self

/-- `nn_poller_reset_out`, but for its loop: it keeps the bit where `kevent` finds nothing to
    delete. -/
def stopOut (hndl : κ) : Kqueue κ :=
  if self.hevents hndl &&& KFilter.write.bit ≠ 0 then
    if (self.knotes (self.fd hndl) .write).isSome then
      { self.delete (self.fd hndl) .write with
        hevents := update self.hevents hndl (self.hevents hndl &&& ~~~KFilter.write.bit) }
    else self
  else self

/-- `nn_poller_rm`, `nn_poller_reset_in` and `nn_poller_reset_out`. -/
def rm (hndl : κ) : Except Fault (Kqueue κ) :=
  (self.forget hndl).sweep fun e => e.ident = self.fd hndl

def resetIn (hndl : κ) : Except Fault (Kqueue κ) :=
  (self.stopIn hndl).sweep fun e => e.ident = self.fd hndl ∧ e.filter = .read

def resetOut (hndl : κ) : Except Fault (Kqueue κ) :=
  (self.stopOut hndl).sweep fun e => e.ident = self.fd hndl ∧ e.filter = .write

/-- The calls that make events void. -/
def giveup : Giveup κ → Except Fault (Kqueue κ)
  | .rm hndl => self.rm hndl
  | .resetIn hndl => self.resetIn hndl
  | .resetOut hndl => self.resetOut hndl

/-- The calls between two waits. -/
def program : Program (Kqueue κ) (BatchOp κ) (Reply (Report κ)) Fault := batchProgram event giveup

/-- The calls of a poller. -/
inductive Call (κ : Type)
  | add (hndl : κ) (fd : ℕ)
  | setIn (hndl : κ) (ok : Bool)
  | setOut (hndl : κ) (ok : Bool)
  | wait (batch : List (KEvent κ))
  | between (op : BatchOp κ)

/-- What the kernel may store: each event is of a filter that has been added, with the
    handle it has been added with. -/
structure Stored (s : Kqueue κ) (batch : List (KEvent κ)) : Prop where
  length : batch.length ≤ maxEvents
  knotes : ∀ e ∈ batch, ∃ hndl, e.udata = some hndl ∧ s.knotes e.ident e.filter = some hndl

/-- The poller, with any calls: a handle is added when it is not registered, with a descriptor that
    no registered handle has; the others are made for registered handles. -/
def system (fd : κ → ℕ) (hevents : κ → BitVec 32) : System (Kqueue κ) (Call κ) Fault where
  init self := self = init fd hevents
  enabled self
    | .add hndl fd => self.registered hndl = false ∧ ∀ k, self.registered k → self.fd k ≠ fd
    | .setIn hndl _ | .setOut hndl _ => self.registered hndl
    | .wait batch => self.Stored batch
    | .between op => ∀ d, op = .drop d → self.registered d.hndl
  exec self
    | .add hndl fd => .ok (self.add hndl fd)
    | .setIn hndl ok => .ok (self.set .read hndl ok)
    | .setOut hndl ok => .ok (self.set .write hndl ok)
    | .wait batch => .ok (self.wait batch)
    | .between op => (program.exec self op).map Prod.fst

/-! ### A batch -/

/-- What is ready by an entry. -/
def entry (e : KEvent κ) : List (Readiness κ) :=
  match e.udata with
  | none => []
  | some hndl => [⟨hndl, if e.eof then .evErr else e.filter.event, e.filter.event⟩]

/-- An entry is for one of the handles in `H`, by its descriptor and a filter that is used. -/
def For (H : κ → Prop) (fd : κ → ℕ) (e : KEvent κ) : Prop :=
  ∀ hndl, e.udata = some hndl → H hndl ∧ fd hndl = e.ident ∧ e.filter ≠ .other

/-- What is left of the batch makes ready `l`, for some of the handles in `H`, which have
    different descriptors. -/
structure Left (H : κ → Prop) (s : Kqueue κ) (l : List (Readiness κ)) : Prop where
  events : (s.events.drop s.index).flatMap entry = l
  index : s.index ≤ s.events.length
  handles : ∀ e ∈ s.events.drop s.index, For H s.fd e
  distinct : ∀ h h', H h → H h' → s.fd h = s.fd h' → h = h'

variable {self : Kqueue κ} {H : κ → Prop} {l : List (Readiness κ)} {r : Readiness κ}

omit [DecidableEq κ] in
theorem spent_iff (e : KEvent κ) : e.udata.isNone = true ↔ entry e = [] := by
  rw [entry]
  cases e.udata <;> simp

omit [DecidableEq κ] in
theorem event_nil (h : Left H self []) : ∃ self', self.event = .ok (self', none) ∧ Left H self' [] := by
  have hend : self.next = self.events.length := pass_nil (fun e _ => spent_iff e) h.index h.events
  refine ⟨{ self with index := self.events.length }, ?_, by simp, Nat.le_refl _, by simp, h.distinct⟩
  simp only [event, hend, List.getElem?_length]

omit [DecidableEq κ] in
theorem event_cons (h : Left H self (r :: l)) :
    ∃ self', self.event = .ok (self', some r.report) ∧ Left H self' l := by
  obtain ⟨e, es, hd, hs, hf, hsub⟩ := pass_cons (fun e _ => spent_iff e) h.events
  obtain ⟨hlt, hget, hd'⟩ := drop_eq_cons hd
  change self.events[self.next]? = some e at hget
  cases hu : e.udata with
  | none => simp [hu] at hs
  | some hndl =>
    obtain ⟨-, -, hother⟩ := h.handles e (hsub e List.mem_cons_self) hndl hu
    rw [entry, hu] at hf
    obtain ⟨rfl, rfl⟩ := List.cons.inj hf
    refine ⟨{ self with index := self.next + 1 }, ?_, by rw [← hd']; rfl, hlt, ?_, h.distinct⟩
    · simp only [event, hget]
      cases hfl : e.filter with
      | other => exact absurd hfl hother
      | read => cases e.eof <;> simp [Readiness.report, KFilter.event, hu]
      | write => cases e.eof <;> simp [Readiness.report, KFilter.event, hu]
    · show ∀ e' ∈ self.events.drop (self.next + 1), _
      rw [next, hd']
      exact fun e' he' => h.handles e' (hsub e' (List.mem_cons_of_mem _ he'))

/-- The calls leave the batch and the descriptors to their loops. -/
theorem forget_same (self : Kqueue κ) (hndl : κ) : (self.forget hndl).fd = self.fd ∧
    (self.forget hndl).events = self.events ∧ (self.forget hndl).index = self.index := by
  simp only [forget]
  split <;> split <;> exact ⟨rfl, rfl, rfl⟩

theorem stopIn_same (self : Kqueue κ) (hndl : κ) : (self.stopIn hndl).fd = self.fd ∧
    (self.stopIn hndl).events = self.events ∧ (self.stopIn hndl).index = self.index := by
  rw [stopIn]
  split <;> exact ⟨rfl, rfl, rfl⟩

theorem stopOut_same (self : Kqueue κ) (hndl : κ) : (self.stopOut hndl).fd = self.fd ∧
    (self.stopOut hndl).events = self.events ∧ (self.stopOut hndl).index = self.index := by
  rw [stopOut]
  split
  · split <;> exact ⟨rfl, rfl, rfl⟩
  · exact ⟨rfl, rfl, rfl⟩

omit [DecidableEq κ] in
/-- What the kernel is told does not matter to the batch. -/
theorem Left.congr (h : Left H self l) {self' : Kqueue κ} (hf : self'.fd = self.fd)
    (he : self'.events = self.events) (hi : self'.index = self.index) : Left H self' l where
  events := by rw [he, hi, h.events]
  index := by rw [he, hi]; exact h.index
  handles := by
    rw [he, hi]
    rw [hf]
    exact h.handles
  distinct := by rw [hf]; exact h.distinct

/-- The loop over what is left of the batch makes void what `p` says. -/
theorem Left.sweep (h : Left H self l) {d : Giveup κ} {p : KEvent κ → Bool}
    (hp : ∀ e hndl, For H self.fd e → e.udata = some hndl →
      p e = voids d ⟨hndl, if e.eof then .evErr else e.filter.event, e.filter.event⟩) :
    ∃ self', self.sweep p = .ok self' ∧ Left H self' (keep voids d l) := by
  have hd : (self.events.take self.index ++ (self.events.drop self.index).map fun e =>
      if p e then { e with udata := none } else e).drop self.index =
      (self.events.drop self.index).map fun e => if p e then { e with udata := none } else e :=
    List.drop_left' (by simp [h.index])
  refine ⟨_, if_pos h.index, ?_, ?_, ?_, h.distinct⟩
  · show List.flatMap entry (List.drop self.index _) = _
    rw [hd, List.flatMap_map, ← h.events]
    refine flatMap_drop fun e he => ?_
    cases hu : e.udata with
    | none =>
      have hnil : entry e = [] := (spent_iff e).1 (by simp [hu])
      rw [hnil]
      split
      · exact (spent_iff _).1 rfl
      · exact hnil
    | some hndl =>
      have hpe := hp e hndl (h.handles e he) hu
      have hone : entry e = [⟨hndl, if e.eof then .evErr else e.filter.event, e.filter.event⟩] := by
        rw [entry, hu]
      rw [hone]
      cases hb : p e with
      | true =>
        rw [hb] at hpe
        rw [if_pos rfl, (spent_iff { e with udata := none }).1 rfl, keep, List.filter_cons_of_neg]
        · rfl
        · simp [← hpe]
      | false =>
        rw [hb] at hpe
        rw [if_neg (by simp), hone, keep, List.filter_cons_of_pos]
        · rfl
        · simp [← hpe]
  · have hindex := h.index
    simp only [List.length_append, List.length_take, List.length_map, List.length_drop]
    omega
  · show ∀ e ∈ List.drop self.index _, _
    rw [hd]
    intro e' he' hndl hu
    obtain ⟨e, he, rfl⟩ := List.mem_map.1 he'
    cases hb : p e with
    | true => simp [hb] at hu
    | false =>
      simp only [hb, Bool.false_eq_true, if_false] at hu ⊢
      exact h.handles e he hndl hu

/-- The calls for a handle of `H` sweep what they make void. -/
theorem giveup_spec (h : Left H self l) {d : Giveup κ} (hd : H d.hndl) :
    ∃ self', self.giveup d = .ok self' ∧ Left H self' (keep voids d l) := by
  have hident : ∀ e hndl, For H self.fd e → e.udata = some hndl →
      (e.ident = self.fd d.hndl ↔ hndl = d.hndl) := by
    intro e hndl he hu
    obtain ⟨hH, hfd, -⟩ := he hndl hu
    rw [← hfd]
    exact ⟨h.distinct hndl d.hndl hH hd, fun heq => by rw [heq]⟩
  cases d with
  | rm hndl =>
    obtain ⟨hf, he, hi⟩ := forget_same self hndl
    refine (h.congr hf he hi).sweep fun e k hk hu => ?_
    rw [hf] at hk
    simpa [voids, Giveup.hndl] using hident e k hk hu
  | resetIn hndl =>
    obtain ⟨hf, he, hi⟩ := stopIn_same self hndl
    refine (h.congr hf he hi).sweep fun e k hk hu => ?_
    rw [hf] at hk
    have hiff := hident e k hk hu
    cases hfl : e.filter <;> simp_all [voids, KFilter.event, Giveup.hndl]
  | resetOut hndl =>
    obtain ⟨hf, he, hi⟩ := stopOut_same self hndl
    refine (h.congr hf he hi).sweep fun e k hk hu => ?_
    rw [hf] at hk
    have hiff := hident e k hk hu
    cases hfl : e.filter <;> simp_all [voids, KFilter.event, Giveup.hndl]

theorem refines : (program (κ := κ)).Refines batchSpec (Uses H) (Left H) :=
  batchProgram_refines (fun _ h => event_nil h) (fun _ _ _ h => event_cons h)
    fun _ _ _ h hd => giveup_spec h hd

/-! ### Runs -/

/-- The kernel has been told of registered handles only, for what they ask; their
    descriptors are different, and no other filters have come. -/
structure Inv (s : Kqueue κ) : Prop where
  knotes : ∀ fd f hndl, s.knotes fd f = some hndl →
    s.registered hndl ∧ s.fd hndl = fd ∧ s.hevents hndl &&& f.bit ≠ 0
  distinct : ∀ h h', s.registered h → s.registered h' → s.fd h = s.fd h' → h = h'
  index : s.index ≤ s.events.length
  filters : ∀ e ∈ s.events, e.filter ≠ .other

section

variable {batch : List (KEvent κ)}

omit [DecidableEq κ] in
/-- The kernel stores what is for a registered handle. -/
theorem Inv.for (h : self.Inv) (hb : self.Stored batch) {e : KEvent κ} (he : e ∈ batch) :
    ∃ hndl, e.udata = some hndl ∧ self.registered hndl ∧ self.fd hndl = e.ident ∧ e.filter ≠ .other := by
  obtain ⟨hndl, hu, hn⟩ := hb.knotes e he
  obtain ⟨hr, hfd, hbit⟩ := h.knotes _ _ _ hn
  refine ⟨hndl, hu, hr, hfd, fun hf => hbit ?_⟩
  rw [hf]
  exact BitVec.and_zero

omit [DecidableEq κ] in
/-- What there is to hand out after `nn_poller_wait`. -/
theorem Inv.left (h : self.Inv) (hb : self.Stored batch) :
    Left (fun hndl => self.registered hndl) (self.wait batch) (batch.flatMap entry) where
  events := rfl
  index := Nat.zero_le _
  handles e he hndl hu := by
    obtain ⟨k, hk, h'⟩ := h.for hb he
    obtain rfl := Option.some.inj (hu.symm.trans hk)
    exact h'
  distinct := h.distinct

omit [DecidableEq κ] in
theorem Inv.wait (h : self.Inv) (hb : self.Stored batch) : (self.wait batch).Inv where
  knotes := h.knotes
  distinct := h.distinct
  index := Nat.zero_le _
  filters e he := by
    obtain ⟨-, -, -, -, hf⟩ := h.for hb he
    exact hf

end

theorem bit_disjoint {f f' : KFilter} (h : f ≠ f') : f.bit &&& f'.bit = 0 := by
  cases f <;> cases f' <;> first | exact absurd rfl h | decide

omit [DecidableEq κ] in
theorem knotes_delete (fd fd' : ℕ) (f f' : KFilter) :
    (self.delete fd f).knotes fd' f' = if fd' = fd ∧ f' = f then none else self.knotes fd' f' := by
  by_cases hfd : fd' = fd
  · subst hfd
    by_cases hf : f' = f <;> simp [delete, hf]
  · simp [delete, hfd]

/-- A filter of a handle is no longer asked for. -/
theorem Inv.stop (h : self.Inv) (f : KFilter) (hndl : κ) :
    Inv { self.delete (self.fd hndl) f with
      hevents := update self.hevents hndl (self.hevents hndl &&& ~~~f.bit) } where
  knotes fd f' k hk := by
    change (self.delete (self.fd hndl) f).knotes fd f' = some k at hk
    rw [knotes_delete] at hk
    split at hk
    · cases hk
    · next hne =>
      obtain ⟨hr, hfd, hbit⟩ := h.knotes fd f' k hk
      refine ⟨hr, hfd, ?_⟩
      show update self.hevents hndl (self.hevents hndl &&& ~~~f.bit) k &&& f'.bit ≠ 0
      by_cases hkh : k = hndl
      · subst hkh
        have hff : f ≠ f' := fun he => hne ⟨hfd.symm, he.symm⟩
        rwa [update_self, Mask.clear_and_of_disjoint (bit_disjoint hff)]
      · rwa [update_of_ne hkh]
  distinct := h.distinct
  index := h.index
  filters := h.filters

theorem Inv.stopIn (h : self.Inv) (hndl : κ) : (self.stopIn hndl).Inv := by
  rw [Kqueue.stopIn]
  split
  · exact h.stop .read hndl
  · exact h

theorem Inv.stopOut (h : self.Inv) (hndl : κ) : (self.stopOut hndl).Inv := by
  rw [Kqueue.stopOut]
  split
  · split
    · exact h.stop .write hndl
    · exact h
  · exact h

omit [DecidableEq κ] in
theorem knotes_ite_delete {p : Prop} [Decidable p] {fd fd' : ℕ} {f f' : KFilter} {k : κ}
    (hk : (if p then self.delete fd f else self).knotes fd' f' = some k) :
    self.knotes fd' f' = some k ∧ (p → ¬ (fd' = fd ∧ f' = f)) := by
  split at hk
  · rw [knotes_delete] at hk
    split at hk
    · cases hk
    · next hne => exact ⟨hk, fun _ => hne⟩
  · next hp => exact ⟨hk, fun h => absurd h hp⟩

/-- What the kernel has still been told when a handle has been removed. -/
theorem knotes_forget {fd : ℕ} {f : KFilter} {hndl k : κ}
    (hk : (self.forget hndl).knotes fd f = some k) : self.knotes fd f = some k ∧
      (self.hevents hndl &&& f.bit ≠ 0 → fd ≠ self.fd hndl) := by
  obtain ⟨hk, hwrite⟩ := knotes_ite_delete hk
  obtain ⟨hk, hread⟩ := knotes_ite_delete hk
  refine ⟨hk, fun hbit hfd => ?_⟩
  cases f with
  | read => exact hread hbit ⟨hfd, rfl⟩
  | write => exact hwrite hbit ⟨hfd, rfl⟩
  | other => exact hbit BitVec.and_zero

theorem Inv.forget (h : self.Inv) (hndl : κ) : (self.forget hndl).Inv := by
  obtain ⟨hf, he, hi⟩ := forget_same self hndl
  have hreg : (self.forget hndl).registered = update self.registered hndl false := by
    simp only [Kqueue.forget]
    split <;> split <;> rfl
  have hhev : (self.forget hndl).hevents = self.hevents := by
    simp only [Kqueue.forget]
    split <;> split <;> rfl
  refine ⟨fun fd f k hk => ?_, fun k k' hk hk' hkk => ?_, by rw [he, hi]; exact h.index,
    by rw [he]; exact h.filters⟩
  · obtain ⟨hn, hgone⟩ := knotes_forget hk
    obtain ⟨hr, hfd, hbit⟩ := h.knotes fd f k hn
    have hkh : k ≠ hndl := by
      rintro rfl
      exact hgone hbit hfd.symm
    rw [hreg, hf, hhev, update_of_ne hkh]
    exact ⟨hr, hfd, hbit⟩
  · have hne : ∀ j, (self.forget hndl).registered j → self.registered j := by
      intro j hj
      rw [hreg] at hj
      by_cases hjh : j = hndl
      · simp [hjh] at hj
      · rwa [update_of_ne hjh] at hj
    rw [hf] at hkk
    exact h.distinct k k' (hne k hk) (hne k' hk') hkk

omit [DecidableEq κ] in
theorem Inv.sweep (h : self.Inv) (p : KEvent κ → Bool) :
    ∃ self', self.sweep p = .ok self' ∧ self'.Inv := by
  have hindex := h.index
  refine ⟨_, if_pos hindex, h.knotes, h.distinct, ?_, fun e he => ?_⟩
  · simp only [List.length_append, List.length_take, List.length_map, List.length_drop]
    omega
  · obtain he | he := List.mem_append.1 he
    · exact h.filters e (List.mem_of_mem_take he)
    · obtain ⟨e', he', rfl⟩ := List.mem_map.1 he
      have hf := h.filters e' (List.mem_of_mem_drop he')
      split <;> exact hf

theorem Inv.giveup (h : self.Inv) (d : Giveup κ) : ∃ self', self.giveup d = .ok self' ∧ self'.Inv := by
  cases d with
  | rm hndl => exact (h.forget hndl).sweep _
  | resetIn hndl => exact (h.stopIn hndl).sweep _
  | resetOut hndl => exact (h.stopOut hndl).sweep _

omit [DecidableEq κ] in
theorem Inv.event (h : self.Inv) : ∃ self' r, self.event = .ok (self', r) ∧ self'.Inv := by
  have hle : self.next ≤ self.events.length := by
    have hpass := pass_le (fun e : KEvent κ => e.udata.isNone) (self.events.drop self.index)
    have hindex := h.index
    rw [List.length_drop] at hpass
    rw [next]
    omega
  cases hget : self.events[self.next]? with
  | none =>
    exact ⟨{ self with index := self.next }, none, by simp only [Kqueue.event, hget],
      ⟨h.knotes, h.distinct, hle, h.filters⟩⟩
  | some e =>
    obtain ⟨hlt, he⟩ := List.getElem?_eq_some_iff.1 hget
    have hother : e.filter ≠ .other := h.filters e (he ▸ List.getElem_mem hlt)
    have hinv : Inv { self with index := self.next + 1 } := ⟨h.knotes, h.distinct, hlt, h.filters⟩
    simp only [Kqueue.event, hget]
    cases hf : e.filter with
    | other => exact absurd hf hother
    | read => cases e.eof <;> exact ⟨_, _, rfl, hinv⟩
    | write => cases e.eof <;> exact ⟨_, _, rfl, hinv⟩

/-- A filter is asked for. -/
theorem Inv.set (h : self.Inv) {f : KFilter} (hf : f.bit ≠ 0) {hndl : κ} (hr : self.registered hndl)
    (ok : Bool) : (self.set f hndl ok).Inv := by
  unfold Kqueue.set
  split
  · split
    · refine ⟨fun fd f' k hk => ?_, h.distinct, h.index, h.filters⟩
      show self.registered k ∧ self.fd k = fd ∧
        update self.hevents hndl (self.hevents hndl ||| f.bit) k &&& f'.bit ≠ 0
      change update self.knotes (self.fd hndl) (update (self.knotes (self.fd hndl)) f (some hndl)) fd f' =
        some k at hk
      by_cases hnew : fd = self.fd hndl ∧ f' = f
      · obtain ⟨rfl, rfl⟩ := hnew
        rw [update_self, update_self] at hk
        obtain rfl := Option.some.inj hk
        rw [update_self, Mask.or_and_self]
        exact ⟨hr, rfl, hf⟩
      · have hk' : self.knotes fd f' = some k := by
          by_cases hfd : fd = self.fd hndl
          · subst hfd
            rwa [update_self, update_of_ne fun he => hnew ⟨rfl, he⟩] at hk
          · rwa [update_of_ne hfd] at hk
        obtain ⟨hr', hfd', hbit⟩ := h.knotes fd f' k hk'
        refine ⟨hr', hfd', ?_⟩
        by_cases hkh : k = hndl
        · subst hkh
          rw [update_self]
          exact Mask.or_and_ne hbit
        · rwa [update_of_ne hkh]
    · exact h
  · exact h

/-- A handle is added that has not been registered. -/
theorem Inv.add (h : self.Inv) {hndl : κ} {fd : ℕ} (hr : self.registered hndl = false)
    (hfd : ∀ k, self.registered k → self.fd k ≠ fd) : (self.add hndl fd).Inv where
  knotes fd' f k hk := by
    obtain ⟨hr', hfd', hbit⟩ := h.knotes fd' f k hk
    have hkh : k ≠ hndl := by
      rintro rfl
      simp [hr] at hr'
    simpa only [Kqueue.add, update_of_ne hkh] using And.intro hr' (And.intro hfd' hbit)
  distinct k k' hk hk' hkk := by
    simp only [Kqueue.add] at hk hk' hkk
    by_cases hkh : k = hndl <;> by_cases hkh' : k' = hndl
    · rw [hkh, hkh']
    · subst hkh
      rw [update_of_ne hkh'] at hk'
      rw [update_self, update_of_ne hkh'] at hkk
      exact absurd hkk.symm (hfd k' hk')
    · subst hkh'
      rw [update_of_ne hkh] at hk
      rw [update_self, update_of_ne hkh] at hkk
      exact absurd hkk (hfd k hk)
    · rw [update_of_ne hkh] at hk hkk
      rw [update_of_ne hkh'] at hk' hkk
      exact h.distinct k k' hk hk' hkk
  index := h.index
  filters := h.filters

theorem keeps (fd : κ → ℕ) (hevents : κ → BitVec 32) :
    (system fd hevents).Keeps (fun _ _ => True) Inv where
  init := by
    rintro _ rfl
    exact ⟨fun _ _ _ h => by simp [init] at h, fun _ _ h => by simp [init] at h, Nat.le_refl 0,
      fun _ h => by simp [init] at h⟩
  step := by
    intro self call h he _
    cases call with
    | add hndl fd => exact ⟨_, rfl, h.add he.1 he.2⟩
    | setIn hndl ok => exact ⟨_, rfl, h.set (by decide) he ok⟩
    | setOut hndl ok => exact ⟨_, rfl, h.set (by decide) he ok⟩
    | wait batch => exact ⟨_, rfl, h.wait he⟩
    | between op =>
      cases op with
      | take =>
        obtain ⟨self', r, hx, h'⟩ := h.event
        exact ⟨self', by simp [system, program, batchProgram, hx, Except.map], h'⟩
      | drop d =>
        obtain ⟨self', hx, h'⟩ := h.giveup d
        exact ⟨self', by simp [system, program, batchProgram, hx, Except.map], h'⟩

/-- Whatever the kernel may store, in a state that can be reached, is handed out as it should be, by
    calls for handles registered then. -/
theorem kqueue_reports {fd : κ → ℕ} {hevents : κ → BitVec 32} (hr : (system fd hevents).Reachable self)
    {batch : List (KEvent κ)} (hb : self.Stored batch) {ops : List (BatchOp κ)}
    (hops : ∀ d, .drop d ∈ ops → self.registered d.hndl) :
    Reports program (self.wait batch) (batch.flatMap entry) ops :=
  reports_of_refines refines (((keeps fd hevents).of_reach hr).left hb) hops

end Kqueue

end Nanomsg
