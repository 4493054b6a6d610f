import Nanomsg.Aio.Poller
import Nanomsg.Lib.System
import Mathlib.Logic.Function.Basic

/-!
# The batches of the epoll backend

`poller_epoll.inc`: `epoll_wait` stores the events of a batch, each with the handle it is
for. `nn_poller_event` goes through them and clears the bits it returns; `nn_poller_rm`,
`nn_poller_reset_in` and `nn_poller_reset_out` clear bits in what is left of the batch.

Names are misspelt in the source, so that it does not compile (`nevnets`, `evnets`, `hndl > events`,
the parameter `fd` of `nn_poller_add`); they are read as what they stand for.
Of the kernel, for each handle registered, what it is interested in is kept. A handle
has a descriptor of its own, so that it stands for it.

`epoll_reports`: in every state that can be reached, whatever the kernel may store is handed
out as it should be.
-/

namespace Nanomsg

open Function Transition Drain

variable {κ : Type}

/-- `struct epoll_event`. -/
structure EpollEvent (κ : Type) where
  events : BitVec 32
  ptr : κ
  deriving DecidableEq

/-- `struct nn_poller`, the handles' `events`, and what the kernel has been told. -/
structure Epoll (κ : Type) where
  /-- The masks of the descriptors registered. -/
  interest : κ → Option (BitVec 32)
  /-- `hndl->events`. -/
  hevents : κ → BitVec 32
  /-- The first `nevents` of `self->events`. -/
  events : List (EpollEvent κ)
  index : ℕ

namespace Epoll

/-- `NN_POLLER_MAX_EVENTS`. -/
def maxEvents : ℕ := 32

abbrev epollin : BitVec 32 := 0x001
abbrev epollout : BitVec 32 := 0x004

/-- `nn_poller_init`, with what the handles hold. -/
def init (hevents : κ → BitVec 32) : Epoll κ := ⟨fun _ => none, hevents, [], 0⟩

section

variable (self : Epoll κ)

/-- `nn_poller_wait`, when `epoll_wait` has stored `batch`. -/
def wait (batch : List (EpollEvent κ)) : Epoll κ := { self with events := batch, index := 0 }

/-- Where the loop of `nn_poller_event` ends. -/
def next : ℕ := self.index + pass (fun e : EpollEvent κ => e.events = 0) (self.events.drop self.index)

/-- `nn_poller_event`: nothing for `-EAGAIN`. -/
def event : Epoll κ × Option (Report κ) :=
  match self.events[self.next]? with
  | none => ({ self with index := self.next }, none)
  | some e =>
    if e.events &&& epollin ≠ 0 then
      ({ self with
          index := self.next
          events := self.events.set self.next { e with events := e.events &&& ~~~epollin } },
        some (.evIn, some e.ptr))
    else if e.events &&& epollout ≠ 0 then
      ({ self with
          index := self.next
          events := self.events.set self.next { e with events := e.events &&& ~~~epollout } },
        some (.evOut, some e.ptr))
    else ({ self with index := self.next + 1 }, some (.evErr, some e.ptr))

end

variable [DecidableEq κ] (self : Epoll κ)

/-- `nn_poller_add`. -/
def add (hndl : κ) : Epoll κ :=
  { self with
    interest := update self.interest hndl (some 0)
    hevents := update self.hevents hndl 0 }

/-- `hndl->events = events`, and `epoll_ctl` with `EPOLL_CTL_MOD`. -/
def modify (hndl : κ) (events : BitVec 32) : Epoll κ :=
  { self with
    interest := update self.interest hndl ((self.interest hndl).map fun _ => events)
    hevents := update self.hevents hndl events }

/-- The loop over what is left of the batch. It is to start before the end. -/
def sweep (hndl : κ) (f : BitVec 32 → BitVec 32) : Except Fault (Epoll κ) :=
  if self.index ≤ self.events.length then
    .ok { self with
      events := self.events.take self.index ++ (self.events.drop self.index).map fun e =>
        if e.ptr = hndl then { e with events := f e.events } else e }
  else .error .wildPointer

/-- `nn_poller_rm`. -/
def rm (hndl : κ) : Except Fault (Epoll κ) :=
  { self with interest := update self.interest hndl none }.sweep hndl fun _ => 0

/-- `nn_poller_set_in` and `nn_poller_set_out`, with the bit. -/
def set (bit : BitVec 32) (hndl : κ) : Epoll κ :=
  if self.hevents hndl &&& bit ≠ 0 then self else self.modify hndl (self.hevents hndl ||| bit)

/-- `nn_poller_reset_in` and `nn_poller_reset_out`, with the bit. -/
def reset (bit : BitVec 32) (hndl : κ) : Except Fault (Epoll κ) :=
  if self.hevents hndl &&& bit = 0 then .ok self
  else (self.modify hndl (self.hevents hndl &&& ~~~bit)).sweep hndl (· &&& ~~~bit)

abbrev setIn := self.set epollin
abbrev setOut := self.set epollout
abbrev resetIn := self.reset epollin
abbrev resetOut := self.reset epollout

/-- The calls that make events void. -/
def giveup : Giveup κ → Except Fault (Epoll κ)
  | .rm hndl => self.rm hndl
  | .resetIn hndl => self.resetIn hndl
  | .resetOut hndl => self.resetOut hndl

/-- The calls between two waits. -/
def program : Program (Epoll κ) (BatchOp κ) (Reply (Report κ)) Fault :=
  batchProgram (fun self => .ok self.event) giveup

/-- The calls of a poller. -/
inductive Call (κ : Type)
  | add (hndl : κ)
  | setIn (hndl : κ)
  | setOut (hndl : κ)
  | wait (batch : List (EpollEvent κ))
  | between (op : BatchOp κ)

/-- What the kernel may store: no bit of reading or writing that has not been asked for. -/
structure Stored (s : Epoll κ) (batch : List (EpollEvent κ)) : Prop where
  length : batch.length ≤ maxEvents
  interest : ∀ e ∈ batch, ∃ m, s.interest e.ptr = some m ∧
    (e.events &&& epollin ≠ 0 → m &&& epollin ≠ 0) ∧
    (e.events &&& epollout ≠ 0 → m &&& epollout ≠ 0)

/-- The poller, with any calls: a handle is added when it is not registered. -/
def system (hevents : κ → BitVec 32) : System (Epoll κ) (Call κ) Fault where
  init self := self = init hevents
  enabled self
    | .add hndl => self.interest hndl = none
    | .wait batch => self.Stored batch
    | .setIn _ | .setOut _ | .between _ => True
  exec self
    | .add hndl => .ok (self.add hndl)
    | .setIn hndl => .ok (self.setIn hndl)
    | .setOut hndl => .ok (self.setOut hndl)
    | .wait batch => .ok (self.wait batch)
    | .between op => (program.exec self op).map Prod.fst

/-! ### A batch -/

/-- What is ready by an entry. -/
def entry (e : EpollEvent κ) : List (Readiness κ) := Mask.readiness epollin epollout e.events e.ptr

/-- An entry tells of nothing that has not been asked for. -/
def Asked (s : Epoll κ) (e : EpollEvent κ) : Prop :=
  (e.events &&& epollin ≠ 0 → s.hevents e.ptr &&& epollin ≠ 0) ∧
    (e.events &&& epollout ≠ 0 → s.hevents e.ptr &&& epollout ≠ 0)

/-- What is left of the batch makes ready `l`. -/
structure Left (s : Epoll κ) (l : List (Readiness κ)) : Prop where
  events : (s.events.drop s.index).flatMap entry = l
  index : s.index ≤ s.events.length
  asked : ∀ e ∈ s.events.drop s.index, s.Asked e

variable {self : Epoll κ} {l : List (Readiness κ)} {r : Readiness κ}

theorem disjoint : epollin &&& epollout = 0 := by decide
theorem disjoint' : epollout &&& epollin = 0 := by decide

omit [DecidableEq κ] in
theorem spent_iff (e : EpollEvent κ) : decide (e.events = 0) = true ↔ entry e = [] := by
  rw [entry, Mask.readiness_eq_nil, decide_eq_true_iff]

omit [DecidableEq κ] in
theorem event_nil (h : Left self []) : ∃ self', self.event = (self', none) ∧ Left self' [] := by
  have hend : self.next = self.events.length := pass_nil (fun e _ => spent_iff e) h.index h.events
  refine ⟨{ self with index := self.events.length }, ?_, by simp, Nat.le_refl _, by simp⟩
  simp only [event, hend, List.getElem?_length]

section

variable {k : ℕ} {e : EpollEvent κ} {es : List (EpollEvent κ)} (hd : self.events.drop k = e :: es)
  (ha : ∀ e' ∈ e :: es, self.Asked e')

include hd ha

omit [DecidableEq κ] in
/-- The entry at the front is left behind. -/
theorem Left.next : Left { self with index := k + 1 } (es.flatMap entry) := by
  obtain ⟨hk, -, hd'⟩ := drop_eq_cons hd
  refine ⟨by rw [hd'], hk, fun e' he' => ?_⟩
  rw [hd'] at he'
  exact ha e' (List.mem_cons_of_mem _ he')

omit [DecidableEq κ] in
/-- Its bit `bit` is cleared. -/
theorem Left.clear (bit : BitVec 32) :
    Left { self with
        index := k
        events := self.events.set k { e with events := e.events &&& ~~~bit } }
      (Mask.readiness epollin epollout (e.events &&& ~~~bit) e.ptr ++ es.flatMap entry) := by
  have hd' : (self.events.set k { e with events := e.events &&& ~~~bit }).drop k =
      { e with events := e.events &&& ~~~bit } :: es := by
    rw [List.drop_set, if_neg (Nat.lt_irrefl k), hd, Nat.sub_self, List.set_cons_zero]
  refine ⟨?_, ?_, ?_⟩
  · rw [hd', List.flatMap_cons]
    rfl
  · simpa using Nat.le_of_lt (drop_eq_cons hd).1
  · rw [hd']
    intro e' he'
    obtain rfl | he' := List.mem_cons.1 he'
    · obtain ⟨hin, hout⟩ := ha e List.mem_cons_self
      exact ⟨fun hne => hin (Mask.and_ne_of_clear hne), fun hne => hout (Mask.and_ne_of_clear hne)⟩
    · exact ha e' (List.mem_cons_of_mem _ he')

end

omit [DecidableEq κ] in
theorem event_cons (h : Left self (r :: l)) :
    ∃ self', self.event = (self', some r.report) ∧ Left self' l := by
  obtain ⟨e, es, hd, hs, hf, hsub⟩ := pass_cons (fun e _ => spent_iff e) h.events
  have hget : self.events[self.next]? = some e := (drop_eq_cons hd).2.1
  have ha : ∀ e' ∈ e :: es, self.Asked e' := fun e' he' => h.asked e' (hsub e' he')
  have hm : e.events ≠ 0 := by simpa using hs
  by_cases hin : e.events &&& epollin = 0
  · by_cases hout : e.events &&& epollout = 0
    · rw [entry, Mask.readiness, Mask.events_err hm hin hout] at hf
      obtain ⟨rfl, rfl⟩ := List.cons.inj hf
      exact ⟨_, by simp only [event, hget, hin, hout]; rfl, Left.next hd ha⟩
    · rw [entry, Mask.readiness, Mask.events_out disjoint hin hout] at hf
      obtain ⟨rfl, rfl⟩ := List.cons.inj hf
      exact ⟨_, by simp only [event, hget, hin, ne_eq, not_true_eq_false, if_pos hout]; rfl,
        Left.clear hd ha epollout⟩
  · rw [entry, Mask.readiness, Mask.events_in disjoint hin] at hf
    obtain ⟨rfl, rfl⟩ := List.cons.inj hf
    exact ⟨_, by simp only [event, hget, if_pos hin, ne_eq]; rfl, Left.clear hd ha epollin⟩

/-- The loop over what is left changes the entries of the handle. -/
theorem sweep_spec (hi : self.index ≤ self.events.length) (hndl : κ) (f : BitVec 32 → BitVec 32) :
    ∃ self', self.sweep hndl f = .ok self' ∧ self'.hevents = self.hevents ∧
      self'.index ≤ self'.events.length ∧
      self'.events.drop self'.index = (self.events.drop self.index).map fun e =>
        if e.ptr = hndl then { e with events := f e.events } else e := by
  refine ⟨_, if_pos hi, rfl, ?_, ?_⟩
  · simp [hi]
  · exact List.drop_left' (by simp [hi])

theorem rm_spec (h : Left self l) (hndl : κ) :
    ∃ self', self.rm hndl = .ok self' ∧ Left self' (keep voids (.rm hndl) l) := by
  obtain ⟨self', hx, hev, hidx, hd⟩ :=
    @sweep_spec κ _ { self with interest := update self.interest hndl none } h.index hndl fun _ => 0
  refine ⟨self', hx, ?_, hidx, ?_⟩
  · rw [hd, List.flatMap_map, ← h.events]
    refine flatMap_drop fun e _ => ?_
    by_cases he : e.ptr = hndl
    · subst he
      rw [if_pos rfl, entry, entry, Mask.readiness_zero, Mask.keep_rm]
    · rw [if_neg he, entry, Mask.keep_of_ne he]
  · rw [hd]
    intro e' he'
    obtain ⟨e, he, rfl⟩ := List.mem_map.1 he'
    rw [Asked, hev]
    split
    · simp
    · exact h.asked e he

/-- What is common to the resetting of reading and of writing: the bit is cleared wherever
    the handle has it. -/
theorem reset_spec (h : Left self l) {d : Giveup κ} {bit : BitVec 32}
    (hbit : bit = epollin ∨ bit = epollout)
    (hkeep : ∀ m, keep voids d (Mask.readiness epollin epollout m d.hndl) =
      Mask.readiness epollin epollout (m &&& ~~~bit) d.hndl) :
    ∃ self', self.reset bit d.hndl = .ok self' ∧ Left self' (keep voids d l) := by
  by_cases hev : self.hevents d.hndl &&& bit = 0
  · -- The bit has not been asked for, so that no entry has it.
    refine ⟨self, if_pos hev, ?_, h.index, h.asked⟩
    rw [← h.events]
    refine flatMap_drop fun e he => ?_
    by_cases hp : e.ptr = d.hndl
    · have hz : e.events &&& bit = 0 := by
        by_contra hne
        obtain ⟨hin, hout⟩ := h.asked e he
        rw [hp] at hin hout
        obtain rfl | rfl := hbit
        · exact hin hne hev
        · exact hout hne hev
      rw [entry, hp, hkeep, Mask.clear_of_and_eq_zero hz]
    · rw [entry, Mask.keep_of_ne hp]
  · obtain ⟨self', hx, hev', hidx, hd⟩ :=
      @sweep_spec κ _ (self.modify d.hndl (self.hevents d.hndl &&& ~~~bit)) h.index d.hndl (· &&& ~~~bit)
    refine ⟨self', by rw [reset, if_neg hev, hx], ?_, hidx, ?_⟩
    · rw [hd, List.flatMap_map, ← h.events]
      refine flatMap_drop fun e _ => ?_
      by_cases hp : e.ptr = d.hndl
      · rw [if_pos hp, entry, entry, hp, hkeep]
      · rw [if_neg hp, entry, Mask.keep_of_ne hp]
    · rw [hd]
      intro e' he'
      obtain ⟨e, he, rfl⟩ := List.mem_map.1 he'
      obtain ⟨hin, hout⟩ := h.asked e he
      rw [Asked, hev']
      by_cases hp : e.ptr = d.hndl
      · rw [hp] at hin hout
        rw [if_pos hp]
        simp only [modify, hp, update_self]
        obtain rfl | rfl := hbit
        · rw [Mask.clear_and_of_disjoint disjoint, Mask.clear_and_of_disjoint disjoint]
          exact ⟨fun hne => absurd Mask.clear_and_self hne, hout⟩
        · rw [Mask.clear_and_of_disjoint disjoint', Mask.clear_and_of_disjoint disjoint']
          exact ⟨hin, fun hne => absurd Mask.clear_and_self hne⟩
      · rw [if_neg hp]
        simp only [modify, update_of_ne hp]
        exact ⟨hin, hout⟩

theorem giveup_spec (h : Left self l) (d : Giveup κ) :
    ∃ self', self.giveup d = .ok self' ∧ Left self' (keep voids d l) := by
  cases d with
  | rm hndl => exact rm_spec h hndl
  | resetIn hndl => exact reset_spec h (.inl rfl) fun m => Mask.keep_resetIn disjoint
  | resetOut hndl => exact reset_spec h (.inr rfl) fun m => Mask.keep_resetOut disjoint

theorem refines : (program (κ := κ)).Refines batchSpec (Uses fun _ => True) Left :=
  batchProgram_refines (fun s h => let ⟨s', hx, h'⟩ := event_nil h; ⟨s', by rw [hx], h'⟩)
    (fun s r l h => let ⟨s', hx, h'⟩ := event_cons h; ⟨s', by rw [hx], h'⟩)
    fun s l d h _ => giveup_spec h d

/-! ### Runs -/

/-- The kernel has been told what the handles ask for. -/
structure Inv (s : Epoll κ) : Prop where
  interest : ∀ hndl m, s.interest hndl = some m → m = s.hevents hndl
  index : s.index ≤ s.events.length

omit [DecidableEq κ] in
/-- What the kernel stores in a state reached. -/
theorem Inv.wait (h : self.Inv) {batch : List (EpollEvent κ)} (hb : self.Stored batch) :
    Left (self.wait batch) (batch.flatMap entry) where
  events := rfl
  index := Nat.zero_le _
  asked e he := by
    obtain ⟨m, hm, hin, hout⟩ := hb.interest e he
    obtain rfl := h.interest e.ptr m hm
    exact ⟨hin, hout⟩

theorem Inv.modify (h : self.Inv) (hndl : κ) (events : BitVec 32) : (self.modify hndl events).Inv where
  interest k m hk := by
    by_cases hkh : k = hndl
    · subst hkh
      simp only [Epoll.modify, update_self, Option.map_eq_some_iff] at hk ⊢
      obtain ⟨_, _, rfl⟩ := hk
      rfl
    · simp only [Epoll.modify, update_of_ne hkh] at hk ⊢
      exact h.interest k m hk
  index := h.index

theorem Inv.set (h : self.Inv) (bit : BitVec 32) (hndl : κ) : (self.set bit hndl).Inv := by
  unfold Epoll.set
  split
  · exact h
  · exact h.modify hndl _

theorem Inv.sweep (h : self.Inv) (hndl : κ) (f : BitVec 32 → BitVec 32) :
    ∃ self', self.sweep hndl f = .ok self' ∧ self'.Inv := by
  have hindex := h.index
  refine ⟨_, if_pos hindex, h.interest, ?_⟩
  simp only [List.length_append, List.length_take, List.length_map, List.length_drop]
  omega

theorem Inv.giveup (h : self.Inv) (d : Giveup κ) : ∃ self', self.giveup d = .ok self' ∧ self'.Inv := by
  have hreset : ∀ bit hndl, ∃ self', self.reset bit hndl = .ok self' ∧ self'.Inv := by
    intro bit hndl
    by_cases hev : self.hevents hndl &&& bit = 0
    · exact ⟨self, if_pos hev, h⟩
    · rw [reset, if_neg hev]
      exact (h.modify hndl _).sweep hndl _
  cases d with
  | resetIn hndl => exact hreset epollin hndl
  | resetOut hndl => exact hreset epollout hndl
  | rm hndl =>
    have hrm : { self with interest := update self.interest hndl none }.Inv := by
      refine ⟨fun k m hk => ?_, h.index⟩
      by_cases hkh : k = hndl
      · simp [hkh] at hk
      · exact h.interest k m (by simpa only [update_of_ne hkh] using hk)
    exact hrm.sweep hndl fun _ => 0

omit [DecidableEq κ] in
theorem Inv.event (h : self.Inv) : self.event.1.Inv := by
  have hle : self.next ≤ self.events.length := by
    have hpass := pass_le (fun e : EpollEvent κ => decide (e.events = 0)) (self.events.drop self.index)
    have hindex := h.index
    rw [List.length_drop] at hpass
    rw [next]
    omega
  cases hget : self.events[self.next]? with
  | none =>
    simp only [Epoll.event, hget]
    exact ⟨h.interest, hle⟩
  | some e =>
    have hlt := (List.getElem?_eq_some_iff.1 hget).1
    simp only [Epoll.event, hget]
    split
    · exact ⟨h.interest, by simpa using hle⟩
    · split
      · exact ⟨h.interest, by simpa using hle⟩
      · exact ⟨h.interest, hlt⟩

theorem keeps (hevents : κ → BitVec 32) : (system hevents).Keeps (fun _ _ => True) Inv where
  init := by
    rintro _ rfl
    exact ⟨fun _ _ h => by simp [init] at h, Nat.le_refl 0⟩
  step := by
    intro self call h he _
    cases call with
    | add hndl =>
      refine ⟨_, rfl, fun k m hk => ?_, h.index⟩
      by_cases hkh : k = hndl
      · subst hkh
        simp only [add, update_self, Option.some.injEq] at hk ⊢
        exact hk.symm
      · simp only [add, update_of_ne hkh] at hk ⊢
        exact h.interest k m hk
    | setIn hndl => exact ⟨_, rfl, h.set epollin hndl⟩
    | setOut hndl => exact ⟨_, rfl, h.set epollout hndl⟩
    | wait batch => exact ⟨_, rfl, h.interest, Nat.zero_le _⟩
    | between op =>
      cases op with
      | take => exact ⟨self.event.1, rfl, h.event⟩
      | drop d =>
        obtain ⟨self', hx, h'⟩ := h.giveup d
        exact ⟨self', by simp [system, program, batchProgram, hx, Except.map], h'⟩

/-- Whatever the kernel may store, in a state that can be reached, is handed out as it should be. -/
theorem epoll_reports {hevents : κ → BitVec 32} (hr : (system hevents).Reachable self)
    {batch : List (EpollEvent κ)} (hb : self.Stored batch) (ops : List (BatchOp κ)) :
    Reports program (self.wait batch) (batch.flatMap entry) ops :=
  reports_of_refines refines (((keeps hevents).of_reach hr).wait hb) fun _ _ => trivial

end Epoll

end Nanomsg
