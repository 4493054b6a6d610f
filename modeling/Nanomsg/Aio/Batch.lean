import Nanomsg.Aio.Epoll
import Nanomsg.Aio.Kqueue
import Nanomsg.Aio.Pollset

/-!
# The batches of all backends

A batch of the poll backend is in its arrays: `revents` of the slots up to `size`.
`nn_poller_event` goes through them and clears the bits it returns. After
`nn_poller_wait` no slot of a removed handle is linked, and none is until the next
wait (`Pollset.rm_eq`).

Each backend hands out what is left of its batch in the order of the entries, each event once, and
nothing that has been given up (`batch_correct`). They differ in what is given up when an
event is reset: a `kevent` goes altogether, with the error it may tell of.
-/

namespace Nanomsg

open Function Transition Drain

variable {κ : Type} [DecidableEq κ]

namespace Pollset

/-- The calls that make events void. -/
def giveup (self : Pollset κ) : Giveup κ → Except Fault (Pollset κ)
  | .rm hndl => self.rm hndl
  | .resetIn hndl => self.resetIn hndl
  | .resetOut hndl => self.resetOut hndl

/-- The calls between two waits. -/
def program : Program (Pollset κ) (BatchOp κ) (Reply (Report κ)) Fault := batchProgram event giveup

section

variable (b : Pollset κ)

/-- The poller `b`, with the batch somewhat taken apart. -/
def amid (k : ℕ) (fds : ℤ → PollFd) : Pollset κ := { b with index := k, pollset := fds }

/-- What is ready by a slot. -/
def entry (fds : ℤ → PollFd) (i : ℕ) : List (Readiness κ) :=
  match (b.hndls i).hndl with
  | none => []
  | some hndl => Mask.readiness pollin pollout (fds i).revents hndl

/-- The events of the batch. -/
def batch : List (Readiness κ) := (List.range b.size).flatMap (b.entry b.pollset)

/-- What `nn_poller_wait` leaves: handles in their slots, and none linked as removed. -/
structure Ready (b : Pollset κ) : Prop where
  size : b.size ≤ b.capacity
  removed : b.removed = -1
  handles : ∀ i : ℕ, i < b.size → ∃ hndl, (b.hndls i).hndl = some hndl ∧ b.slot hndl = i

/-- The index of the handle is that of a slot, and of none that another handle has. -/
def Placed (hndl : κ) : Prop :=
  b.InBounds (b.slot hndl) ∧ ∀ i : ℕ, i < b.size → b.slot hndl = i → (b.hndls i).hndl = some hndl

/-- What is left of the batch makes ready `l`. -/
structure Left (k : ℕ) (fds : ℤ → PollFd) (l : List (Readiness κ)) : Prop where
  events : ((List.range b.size).drop k).flatMap (b.entry fds) = l
  index : k ≤ b.size

end

variable {b : Pollset κ} {k : ℕ} {fds : ℤ → PollFd} {l : List (Readiness κ)} {r : Readiness κ}

theorem disjoint : pollin &&& pollout = 0 := by decide

omit [DecidableEq κ] in
theorem Ready.spent_iff (hb : b.Ready) (fds : ℤ → PollFd) {i : ℕ} (hi : i ∈ List.range b.size) :
    decide ((fds i).revents = 0) = true ↔ b.entry fds i = [] := by
  obtain ⟨hndl, hh, -⟩ := hb.handles i (List.mem_range.1 hi)
  rw [entry, hh, Mask.readiness_eq_nil, decide_eq_true_iff]

omit [DecidableEq κ] in
theorem event_nil (hb : b.Ready) (h : b.Left k fds []) :
    (b.amid k fds).event = .ok (b.amid b.size fds, none) ∧ b.Left b.size fds [] := by
  have hend : (b.amid k fds).next = b.size := by
    have := pass_nil (fun i hi => hb.spent_iff fds (List.mem_of_mem_drop hi))
      (by simpa using h.index) h.events
    rwa [List.length_range] at this
  refine ⟨?_, ?_, Nat.le_refl _⟩
  · rw [event, hend]
    exact if_pos (Nat.le_refl _)
  · rw [List.drop_eq_nil_of_le (by simp)]
    rfl

section

variable {i : ℕ} {is : List ℕ} (hd : (List.range b.size).drop i = i :: is)

include hd

omit [DecidableEq κ] in
/-- The slot at the front is left behind. -/
theorem Left.next : b.Left (i + 1) fds (is.flatMap (b.entry fds)) := by
  obtain ⟨hlt, -, hd'⟩ := drop_eq_cons hd
  rw [List.length_range] at hlt
  exact ⟨by rw [hd'], hlt⟩

omit [DecidableEq κ] in
/-- Its bit `bit` is cleared. -/
theorem Left.clear {hndl : κ} (hh : (b.hndls i).hndl = some hndl) (bit : BitVec 16) :
    b.Left i (update fds i { fds i with revents := (fds i).revents &&& ~~~bit })
      (Mask.readiness pollin pollout ((fds i).revents &&& ~~~bit) hndl ++
        is.flatMap (b.entry fds)) := by
  have hnodup : i ∉ is := by
    have := (List.drop_sublist i (List.range b.size)).nodup List.nodup_range
    rw [hd] at this
    exact (List.nodup_cons.1 this).1
  refine ⟨?_, by simpa using Nat.le_of_lt (drop_eq_cons hd).1⟩
  rw [hd, List.flatMap_cons]
  congr 1
  · rw [entry, hh, update_self]
  · refine List.flatMap_congr fun j hj => ?_
    have hne : (j : ℤ) ≠ i := fun he => hnodup (by rwa [← Int.ofNat_inj.1 he])
    rw [entry, entry, update_of_ne hne]

end

omit [DecidableEq κ] in
/-- What is returned of a slot that has something ready. -/
theorem report_eq {i : ℕ} (hi : (b.amid i fds).InBounds i) : (b.amid i fds).report =
    if (fds i).revents &&& pollin ≠ 0 then
      .ok (b.amid i (update fds i { fds i with revents := (fds i).revents &&& ~~~pollin }),
        .evIn, (b.hndls i).hndl)
    else if (fds i).revents &&& pollout ≠ 0 then
      .ok (b.amid i (update fds i { fds i with revents := (fds i).revents &&& ~~~pollout }),
        .evOut, (b.hndls i).hndl)
    else .ok (b.amid (i + 1) fds, .evErr, (b.hndls i).hndl) := by
  have hitem : (b.amid i fds).item i = .ok (b.hndls i) := if_pos hi
  have hfd : (b.amid i fds).fd i = .ok (fds i) := if_pos hi
  have hset : ∀ f, (b.amid i fds).setFd i f = .ok (b.amid i (update fds i (f (fds i)))) :=
    fun f => if_pos hi
  simp only [report, show (b.amid i fds).index = i from rfl, hitem, hfd, hset, ok_bind, pure_eq_ok]
  rfl

omit [DecidableEq κ] in
theorem event_cons (hb : b.Ready) (h : b.Left k fds (r :: l)) :
    ∃ k' fds', (b.amid k fds).event = .ok (b.amid k' fds', some r.report) ∧ b.Left k' fds' l := by
  obtain ⟨i, is, hd, hs, hf, -⟩ :=
    pass_cons (fun i hi => hb.spent_iff fds (List.mem_of_mem_drop hi)) h.events
  obtain ⟨hlt, hget, -⟩ := drop_eq_cons hd
  rw [List.length_range] at hlt
  obtain ⟨_, hi⟩ := List.getElem?_eq_some_iff.1 hget
  rw [List.getElem_range] at hi
  rw [hi] at hd hlt
  obtain ⟨hndl, hh, -⟩ := hb.handles i hlt
  have hin : (b.amid i fds).InBounds i :=
    ⟨Int.natCast_nonneg i, Int.ofNat_lt.2 (Nat.lt_of_lt_of_le hlt hb.size)⟩
  have hevent : ∀ s' rep, (b.amid i fds).report = .ok (s', rep) →
      (b.amid k fds).event = .ok (s', some rep) := by
    intro s' rep hrep
    rw [event, show (b.amid k fds).next = i from hi]
    refine (if_neg (Nat.not_le.2 hlt)).trans ?_
    show ((b.amid i fds).report >>= _) = _
    rw [hrep]
    rfl
  have hrep := report_eq hin
  have hm : (fds i).revents ≠ 0 := by simpa using hs
  have hentry : b.entry fds i = Mask.readiness pollin pollout (fds i).revents hndl := by
    rw [entry, hh]
  rw [hh] at hrep
  rw [hentry] at hf
  by_cases hri : (fds i).revents &&& pollin = 0
  · rw [if_neg (not_not.2 hri)] at hrep
    by_cases hro : (fds i).revents &&& pollout = 0
    · rw [if_neg (not_not.2 hro)] at hrep
      rw [Mask.readiness, Mask.events_err hm hri hro] at hf
      obtain ⟨rfl, rfl⟩ := List.cons.inj hf
      exact ⟨_, _, hevent _ _ hrep, Left.next hd⟩
    · rw [if_pos hro] at hrep
      rw [Mask.readiness, Mask.events_out disjoint hri hro] at hf
      obtain ⟨rfl, rfl⟩ := List.cons.inj hf
      exact ⟨_, _, hevent _ _ hrep, Left.clear hd hh pollout⟩
  · rw [if_pos hri] at hrep
    rw [Mask.readiness, Mask.events_in disjoint hri] at hf
    obtain ⟨rfl, rfl⟩ := List.cons.inj hf
    exact ⟨_, _, hevent _ _ hrep, Left.clear hd hh pollin⟩

/-- A change of the slot of the handle that makes void what the call is to. -/
theorem setFd_spec (hb : b.Ready) (h : b.Left k fds l) {d : Giveup κ} (hp : b.Placed d.hndl)
    {f : PollFd → PollFd}
    (hf : ∀ fd, keep voids d (Mask.readiness pollin pollout fd.revents d.hndl) =
      Mask.readiness pollin pollout (f fd).revents d.hndl) :
    ∃ fds', (b.amid k fds).setFd (b.slot d.hndl) f = .ok (b.amid k fds') ∧
      b.Left k fds' (keep voids d l) := by
  refine ⟨_, if_pos hp.1, ?_, h.index⟩
  rw [← h.events]
  refine flatMap_drop fun i hi => ?_
  have hlt := List.mem_range.1 (List.mem_of_mem_drop hi)
  obtain ⟨hndl, hh, hslot⟩ := hb.handles i hlt
  rw [entry, entry, hh]
  by_cases hi : b.slot d.hndl = i
  · -- The slot is that of the handle, and the handle that of the slot.
    have hd := hp.2 i hlt hi
    rw [hh] at hd
    obtain rfl := Option.some.inj hd
    show Mask.readiness pollin pollout (update fds (b.slot d.hndl) _ i).revents _ = _
    rw [hi, update_self, hf]
    rfl
  · have hne : hndl ≠ d.hndl := by
      rintro rfl
      exact hi hslot
    show Mask.readiness pollin pollout (update fds (b.slot d.hndl) _ i).revents _ = _
    rw [update_of_ne fun he => hi he.symm, Mask.keep_of_ne hne]

theorem giveup_spec (hb : b.Ready) (h : b.Left k fds l) {d : Giveup κ} (hp : b.Placed d.hndl) :
    ∃ fds', (b.amid k fds).giveup d = .ok (b.amid k fds') ∧ b.Left k fds' (keep voids d l) := by
  cases d with
  | rm hndl =>
    obtain ⟨fds', hx, h'⟩ := setFd_spec hb h hp (f := fun f => { f with revents := 0 })
      fun fd => by rw [Mask.readiness_zero]; exact Mask.keep_rm
    exact ⟨fds', (@rm_eq _ (b.amid k fds) hb.removed hndl).trans hx, h'⟩
  | resetIn hndl =>
    exact setFd_spec hb h hp
      (f := fun f => { f with events := f.events &&& ~~~pollin, revents := f.revents &&& ~~~pollin })
      fun fd => Mask.keep_resetIn disjoint
  | resetOut hndl =>
    exact setFd_spec hb h hp
      (f := fun f => { f with events := f.events &&& ~~~pollout, revents := f.revents &&& ~~~pollout })
      fun fd => Mask.keep_resetOut disjoint

theorem refines (hb : b.Ready) : program.Refines batchSpec (Uses b.Placed)
    fun self l => ∃ k fds, self = b.amid k fds ∧ b.Left k fds l := by
  refine batchProgram_refines ?_ ?_ ?_
  · rintro _ ⟨k, fds, rfl, h⟩
    obtain ⟨hx, h'⟩ := event_nil hb h
    exact ⟨_, hx, _, _, rfl, h'⟩
  · rintro _ r l ⟨k, fds, rfl, h⟩
    obtain ⟨k', fds', hx, h'⟩ := event_cons hb h
    exact ⟨_, hx, _, _, rfl, h'⟩
  · rintro _ l d ⟨k, fds, rfl, h⟩ hd
    obtain ⟨fds', hx, h'⟩ := giveup_spec hb h hd
    exact ⟨_, hx, _, _, rfl, h'⟩

/-- The loop of `nn_poller_wait` ends with no slot linked. -/
theorem removed_of_compact {n : ℕ} {self : Pollset κ} (h : compact n self = .ok b) : b.removed = -1 := by
  induction n generalizing self with
  | zero =>
    rw [compact] at h
    split at h
    · next hr => exact Except.ok.inj h ▸ hr
    · cases h
  | succ n ih =>
    rw [compact] at h
    split at h
    · next hr => exact Except.ok.inj h ▸ hr
    · obtain ⟨s, -, hs⟩ := bind_eq_ok.1 h
      exact ih hs

theorem wait_spec {self : Pollset κ} {revents : ℤ → BitVec 16} {rc : ℤ}
    (h : self.wait (some revents) = .ok (b, rc)) : b.removed = -1 ∧ b.index = 0 := by
  obtain ⟨s, hs, hx⟩ := bind_eq_ok.1 h
  obtain ⟨rfl, -⟩ := Prod.mk.inj (Except.ok.inj hx)
  have hr := removed_of_compact hs
  exact ⟨hr, rfl⟩

/-- What `nn_poller_wait` gets is handed out as it should be, if the handles are in their slots. -/
theorem poll_reports {self : Pollset κ} {revents : ℤ → BitVec 16} {rc : ℤ}
    (h : self.wait (some revents) = .ok (b, rc)) (hs : b.size ≤ b.capacity)
    (hh : ∀ i : ℕ, i < b.size → ∃ hndl, (b.hndls i).hndl = some hndl ∧ b.slot hndl = i)
    {ops : List (BatchOp κ)} (hops : ∀ d, .drop d ∈ ops → b.Placed d.hndl) :
    Reports program b b.batch ops := by
  obtain ⟨hr, hi⟩ := wait_spec h
  refine reports_of_refines (refines ⟨hs, hr, hh⟩) ⟨0, b.pollset, ?_, rfl, Nat.zero_le _⟩ hops
  rw [amid, ← hi]

end Pollset

/-! ### All backends -/

/-- The event as it would be if only its own resetting gave it up. -/
def Readiness.plain (r : Readiness κ) : Readiness κ := { r with cause := r.event }

omit [DecidableEq κ] in
theorem Mask.plain_of_mem {w : ℕ} {i o m : BitVec w} {hndl : κ} {r : Readiness κ}
    (hr : r ∈ Mask.readiness i o m hndl) : r.plain = r := by
  obtain ⟨e, -, rfl⟩ := List.mem_map.1 hr
  rfl

omit [DecidableEq κ] in
theorem Epoll.plain_of_mem {batch : List (EpollEvent κ)} {r : Readiness κ}
    (hr : r ∈ batch.flatMap entry) : r.plain = r := by
  obtain ⟨e, -, he⟩ := List.mem_flatMap.1 hr
  exact Mask.plain_of_mem he

omit [DecidableEq κ] in
theorem Pollset.plain_of_mem {b : Pollset κ} {r : Readiness κ} (hr : r ∈ b.batch) : r.plain = r := by
  obtain ⟨i, -, hi⟩ := List.mem_flatMap.1 hr
  rw [Pollset.entry] at hi
  cases hh : (b.hndls i).hndl with
  | none => simp [hh] at hi
  | some hndl => exact Mask.plain_of_mem (by simpa only [hh] using hi)

omit [DecidableEq κ] in
/-- A `kevent` tells of its filter, or of an error. -/
theorem Kqueue.plain_of_mem {batch : List (KEvent κ)} {r : Readiness κ}
    (hr : r ∈ batch.flatMap entry) : r.event = .evErr ∨ r.plain = r := by
  obtain ⟨e, -, he⟩ := List.mem_flatMap.1 hr
  rw [Kqueue.entry] at he
  cases hu : e.udata with
  | none => simp [hu] at he
  | some hndl =>
    obtain rfl := List.mem_singleton.1 (by simpa only [hu] using he)
    cases e.eof with
    | true => exact .inl rfl
    | false => exact .inr rfl

/-- In each backend, what the kernel stores is handed out as it should be: with epoll and
    poll each event is given up when it is reset, with kqueue together with the error. -/
theorem batch_correct :
    (∀ (hevents : κ → BitVec 32) (self : Epoll κ), (Epoll.system hevents).Reachable self →
      ∀ batch, self.Stored batch →
        (∀ r ∈ batch.flatMap Epoll.entry, r.plain = r) ∧
        ∀ ops, Reports Epoll.program (self.wait batch) (batch.flatMap Epoll.entry) ops) ∧
    (∀ (fd : κ → ℕ) (hevents : κ → BitVec 32) (self : Kqueue κ),
      (Kqueue.system fd hevents).Reachable self → ∀ batch, self.Stored batch →
        (∀ r ∈ batch.flatMap Kqueue.entry, r.event = .evErr ∨ r.plain = r) ∧
        ∀ ops, (∀ d, .drop d ∈ ops → self.registered d.hndl) →
          Reports Kqueue.program (self.wait batch) (batch.flatMap Kqueue.entry) ops) ∧
    ∀ (self b : Pollset κ) (revents : ℤ → BitVec 16) (rc : ℤ),
      self.wait (some revents) = .ok (b, rc) → b.size ≤ b.capacity →
        (∀ i : ℕ, i < b.size → ∃ hndl, (b.hndls i).hndl = some hndl ∧ b.slot hndl = i) →
          (∀ r ∈ b.batch, r.plain = r) ∧
          ∀ ops, (∀ d, .drop d ∈ ops → b.Placed d.hndl) → Reports Pollset.program b b.batch ops :=
  ⟨fun _ _ hr _ hb => ⟨fun _ => Epoll.plain_of_mem, Epoll.epoll_reports hr hb⟩,
    fun _ _ _ hr _ hb => ⟨fun _ => Kqueue.plain_of_mem, fun _ => Kqueue.kqueue_reports hr hb⟩,
    fun _ _ _ _ h hs hh => ⟨fun _ => Pollset.plain_of_mem, fun _ => Pollset.poll_reports h hs hh⟩⟩

/-- A handle that is read from, in each backend. -/
def Epoll.reading : Epoll Unit := ((Epoll.init fun _ => 0).add ()).setIn ()

def Kqueue.reading : Kqueue Unit := ((Kqueue.init (fun _ => 3) fun _ => 0).add () 3).set .read () true

def Pollset.reading : Pollset Unit where
  size := 1
  index := 0
  capacity := 16
  pollset _ := ⟨3, 0x001, 0⟩
  hndls _ := ⟨some (), -1, -1⟩
  removed := -1
  slot _ := 0

theorem Epoll.reading_reachable : (Epoll.system fun _ => 0).Reachable Epoll.reading :=
  .step (a := .setIn ()) (.step (a := .add ()) (.init rfl) rfl trivial rfl) trivial trivial rfl

theorem Kqueue.reading_reachable :
    (Kqueue.system (fun _ => 3) fun _ => 0).Reachable Kqueue.reading :=
  .step (a := .setIn () true)
    (.step (a := .add () 3) (.init rfl) ⟨rfl, fun _ h => by cases h⟩ trivial rfl) rfl trivial rfl

/-- There is something to read, and the other end has hung up. -/
theorem batch_correct_reading :
    Reports Epoll.program (Epoll.reading.wait [⟨0x011, ()⟩])
      [⟨(), .evIn, .evIn⟩, ⟨(), .evErr, .evErr⟩] [.drop (.resetIn ()), .take, .take] ∧
    Reports Kqueue.program (Kqueue.reading.wait [⟨3, .read, true, some ()⟩])
      [⟨(), .evErr, .evIn⟩] [.take, .drop (.rm ()), .take] ∧
    Reports Pollset.program (Pollset.reading.polled fun _ => 0x011)
      [⟨(), .evIn, .evIn⟩, ⟨(), .evErr, .evErr⟩] [.take, .drop (.resetIn ()), .take, .take] := by
  obtain ⟨hepoll, hkqueue, hpoll⟩ := batch_correct (κ := Unit)
  refine ⟨?_, ?_, ?_⟩
  · refine (hepoll (fun _ => 0) _ Epoll.reading_reachable [⟨0x011, ()⟩] ⟨by decide, fun e he => ?_⟩).2 _
    obtain rfl := List.mem_singleton.1 he
    exact ⟨0x001, rfl, by decide, by decide⟩
  · refine (hkqueue _ _ _ Kqueue.reading_reachable [⟨3, .read, true, some ()⟩]
      ⟨by decide, fun e he => ?_⟩).2 _ fun _ _ => rfl
    obtain rfl := List.mem_singleton.1 he
    exact ⟨(), rfl, rfl⟩
  · refine (hpoll Pollset.reading (Pollset.reading.polled fun _ => 0x011) _ _ rfl (by decide)
      fun i hi => ⟨(), rfl, ?_⟩).2 _ fun d _ =>
        ⟨⟨Int.le_refl 0, (by decide : (0 : ℤ) < 16)⟩, fun _ _ _ => rfl⟩
    obtain rfl := Nat.lt_one_iff.1 hi
    rfl

/-- The error that a `kevent` tells of is lost when reading is reset. -/
theorem batch_not_correct :
    ¬ ∀ (fd : Unit → ℕ) (hevents : Unit → BitVec 32) (self : Kqueue Unit),
      (Kqueue.system fd hevents).Reachable self → ∀ batch, self.Stored batch →
        ∀ ops, (∀ d, .drop d ∈ ops → self.registered d.hndl) →
          Reports Kqueue.program (self.wait batch)
            ((batch.flatMap Kqueue.entry).map Readiness.plain) ops := by
  intro h
  obtain ⟨s', replies, left, hr, hd⟩ := h (fun _ => 3) (fun _ => 0) _ Kqueue.reading_reachable
    [⟨3, .read, true, some ()⟩] ⟨by decide, fun e he => by
      obtain rfl := List.mem_singleton.1 he
      exact ⟨(), rfl, rfl⟩⟩ [.drop (.resetIn ()), .take] fun _ _ => rfl
  obtain rfl : replies = [.dropped, .taken ⟨(), .evErr, .evErr⟩] := (congrArg Prod.snd hd.run).symm
  have hx : (Kqueue.program.run (Kqueue.reading.wait [⟨3, .read, true, some ()⟩])
      [.drop (.resetIn ()), .take]).map Prod.snd = .ok [.dropped, .empty] := rfl
  rw [hr] at hx
  cases hx

end Nanomsg
