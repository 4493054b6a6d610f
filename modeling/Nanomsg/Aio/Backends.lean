import Nanomsg.Aio.Epoll
import Nanomsg.Aio.Kqueue
import Nanomsg.Aio.Polling

/-!
# The epoll and kqueue backends

Both refine what a poller is for (`Epoll.poll_refines`, `Kqueue.poll_refines`), each with a way
of its own to say what is asked for: a mask that replaces the one before, with calls of `epoll_ctl`
whose failure is not looked at and does not occur here, and filters that are added and deleted, where
the kernel may refuse to add one. What is left of a batch is told apart by
the handle in the one, and by the descriptor in the other, which may be another handle's by then.

`pollers_correct`: in every run the kernel has been told just what is asked for, nothing is handed out
that is not, and where the same is ready the two backends answer the same.
-/

namespace Nanomsg

open Function Transition Drain

variable {κ : Type}

theorem Mask.mem_events {n : ℕ} {bit : PollerEvent → BitVec n} {m : BitVec n} {e : PollerEvent}
    (h : e ∈ Mask.events (bit .evIn) (bit .evOut) m) : e = .evErr ∨ m &&& bit e ≠ 0 := by
  rw [Mask.events, List.mem_append, List.mem_append] at h
  rcases h with (h | h) | h <;> split at h
  · next hm => exact .inr (by rwa [List.mem_singleton.1 h])
  · exact absurd h List.not_mem_nil
  · next hm => exact .inr (by rwa [List.mem_singleton.1 h])
  · exact absurd h List.not_mem_nil
  · exact .inl (List.mem_singleton.1 h)
  · exact absurd h List.not_mem_nil

namespace Epoll

open Polling

/-- The bit of an event. -/
def bit : PollerEvent → BitVec 32
  | .evIn => epollin
  | .evOut => epollout
  | .evErr => 0

theorem bits : Watch.Bits bit := ⟨by decide, by decide, by decide⟩

/-- The kernel tells a registered handle of what it asks for, and of errors. -/
def backend : PollBackend κ (EpollEvent κ) where
  ready := entry
  May handles ev := ∃ w ∈ handles ev.ptr, ∀ e, ev.events &&& bit e ≠ 0 → w.asks e = true
  refuses := false
  asked := by
    rintro handles ev ⟨w, hw, ha⟩ r hr
    obtain ⟨e, he, rfl⟩ := List.mem_map.1 hr
    refine ⟨⟨w, hw, ?_⟩, .inl rfl⟩
    obtain rfl | hm := @Mask.mem_events _ bit _ _ he
    · rfl
    · exact ha e hm

variable [DecidableEq κ]

/-- The functions of the poller. -/
def poll : Program (Epoll κ) (PollCall κ (EpollEvent κ)) (Reply (Report κ)) Fault where
  exec self
    | .add hndl _ => .ok (self.add hndl, .dropped)
    | .setIn hndl _ => .ok (self.setIn hndl, .dropped)
    | .setOut hndl _ => .ok (self.setOut hndl, .dropped)
    | .wait batch => .ok (self.wait batch, .dropped)
    | .between op => program.exec self op

/-- The kernel has been told what the handles ask for, and they have it written down. -/
structure Told (s : Epoll κ) (handles : Watches κ) : Prop where
  interest : ∀ hndl, s.interest hndl = (handles hndl).map (Watch.mask bit)
  hevents : ∀ hndl, ∀ w ∈ handles hndl, s.hevents hndl = w.mask bit

/-- The poller is as it should be. -/
structure Polls (s : Epoll κ) (p : Polling κ) : Prop where
  sound : p.Sound
  told : Told s p.handles
  events : (s.events.drop s.index).flatMap entry = p.left
  index : s.index ≤ s.events.length

variable {s s' : Epoll κ} {handles : Watches κ} {hndl : κ} {e : PollerEvent} {v : Bool}
  {p : Polling κ}

omit [DecidableEq κ] in
theorem Told.congr (h : Told s handles) (hi : s'.interest = s.interest) (he : s'.hevents = s.hevents) :
    Told s' handles where
  interest k := by rw [hi, h.interest]
  hevents k w hw := by rw [he, h.hevents k w hw]

/-- `EPOLL_CTL_MOD`, with what the handle asks for. -/
theorem Told.modify (h : Told s handles) {events : BitVec 32}
    (hm : ∀ w ∈ handles hndl, (w.set e v).mask bit = events) :
    Told (s.modify hndl events) (ask handles hndl e v) where
  interest k := by
    by_cases hk : k = hndl
    · subst hk
      simp only [Epoll.modify, ask, update_self, h.interest]
      cases hw : handles k with
      | none => rfl
      | some w => simp [hm w hw]
    · simp only [Epoll.modify, ask, update_of_ne hk, h.interest]
  hevents k w hw := by
    by_cases hk : k = hndl
    · subst hk
      simp only [Epoll.modify, ask, update_self, Option.mem_def, Option.map_eq_some_iff] at hw ⊢
      obtain ⟨u, hu, rfl⟩ := hw
      exact (hm u hu).symm
    · simp only [Epoll.modify, ask, update_of_ne hk] at hw ⊢
      exact h.hevents k w hw

/-- `EPOLL_CTL_ADD`, with nothing asked for. -/
theorem Told.add (h : Told s handles) (hndl : κ) (fd : ℕ) :
    Told (s.add hndl) (update handles hndl (some ⟨fd, false, false⟩)) where
  interest k := by
    by_cases hk : k = hndl
    · subst hk
      simp only [Epoll.add, update_self, Option.map_some, Watch.mask_new]
    · simp only [Epoll.add, update_of_ne hk, h.interest]
  hevents k w hw := by
    by_cases hk : k = hndl
    · subst hk
      rw [update_self, Option.mem_some_iff] at hw
      simp only [Epoll.add, update_self, ← hw, Watch.mask_new]
    · rw [update_of_ne hk] at hw
      simp only [Epoll.add, update_of_ne hk, h.hevents k w hw]

theorem Told.set (h : Told s handles) (he : e ≠ .evErr) (hw : (handles hndl).isSome) :
    Told (s.set (bit e) hndl) (ask handles hndl e true) := by
  obtain ⟨w, hw⟩ := Option.isSome_iff_exists.1 hw
  have hev := h.hevents hndl w hw
  unfold Epoll.set
  split
  · next hb =>
    rw [hev, Watch.mask_and bits he] at hb
    rwa [ask_eq_self fun u hu => by rwa [Option.mem_unique hu hw]]
  · refine h.modify fun u hu => ?_
    rw [Option.mem_unique hu hw, Watch.mask_set_true he, hev]

theorem sweep_told {f : BitVec 32 → BitVec 32} (hx : s.sweep hndl f = .ok s') :
    s'.interest = s.interest ∧ s'.hevents = s.hevents := by
  unfold sweep at hx
  split at hx
  · obtain rfl := Except.ok.inj hx
    exact ⟨rfl, rfl⟩
  · cases hx

theorem Told.reset (h : Told s handles) (he : e ≠ .evErr) (hw : (handles hndl).isSome)
    (hx : s.reset (bit e) hndl = .ok s') : Told s' (ask handles hndl e false) := by
  obtain ⟨w, hw⟩ := Option.isSome_iff_exists.1 hw
  have hev := h.hevents hndl w hw
  unfold Epoll.reset at hx
  split at hx
  · next hb =>
    obtain rfl := Except.ok.inj hx
    rw [hev] at hb
    have ha : w.asks e = false := Bool.eq_false_iff.2 fun ha => (Watch.mask_and bits he w).2 ha hb
    rwa [ask_eq_self fun u hu => by rwa [Option.mem_unique hu hw]]
  · obtain ⟨hi, hh⟩ := sweep_told hx
    refine Told.congr (h.modify fun u hu => ?_) hi hh
    rw [Option.mem_unique hu hw, Watch.mask_set_false bits he, hev]

theorem Told.giveup (h : Told s handles) {d : Giveup κ} (hw : (handles d.hndl).isSome)
    (hx : s.giveup d = .ok s') : Told s' (Polling.giveup handles d) := by
  cases d with
  | resetIn hndl => exact h.reset (e := .evIn) nofun hw hx
  | resetOut hndl => exact h.reset (e := .evOut) nofun hw hx
  | rm hndl =>
    change sweep { s with interest := update s.interest hndl none } hndl (fun _ => 0) = .ok s' at hx
    obtain ⟨hi, hh⟩ := sweep_told hx
    refine Told.congr (s := { s with interest := update s.interest hndl none })
      ⟨fun k => ?_, fun k w hw => ?_⟩ hi hh
    · by_cases hk : k = hndl
      · subst hk
        simp only [Polling.giveup, update_self]
        rfl
      · simp only [Polling.giveup, update_of_ne hk, h.interest]
    · by_cases hk : k = hndl
      · simp [Polling.giveup, hk] at hw
      · simp only [Polling.giveup, update_of_ne hk] at hw
        exact h.hevents k w hw

omit [DecidableEq κ] in
/-- What is left of the batch is told of handles that ask for it. -/
theorem Polls.left (h : Polls s p) : Left s p.left where
  events := h.events
  index := h.index
  asked ev hev := by
    have hasked : ∀ e, e ≠ .evErr → ev.events &&& bit e ≠ 0 → s.hevents ev.ptr &&& bit e ≠ 0 := by
      intro e he hb
      have hr : (⟨ev.ptr, e, e⟩ : Readiness κ) ∈ p.left := by
        rw [← h.events]
        refine List.mem_flatMap.2 ⟨ev, hev, List.mem_map.2 ⟨e, ?_, rfl⟩⟩
        cases e <;> simp_all [Mask.events, bit]
      obtain ⟨w, hw, ha⟩ := (h.sound.asked _ hr).cause
      rw [h.told.hevents _ w hw]
      exact (Watch.mask_and bits he w).2 ha
    exact ⟨hasked .evIn (by decide), hasked .evOut (by decide)⟩

omit [DecidableEq κ] in
theorem polls_init (hevents : κ → BitVec 32) : Polls (init hevents) Polling.init where
  sound := sound_init
  told := ⟨fun _ => rfl, fun _ _ hw => absurd hw (Option.not_mem_none _)⟩
  events := rfl
  index := Nat.le_refl 0

omit [DecidableEq κ] in
theorem event_told (s : Epoll κ) : s.event.1.interest = s.interest ∧ s.event.1.hevents = s.hevents := by
  unfold event
  split
  · exact ⟨rfl, rfl⟩
  · split
    · exact ⟨rfl, rfl⟩
    · split <;> exact ⟨rfl, rfl⟩

theorem set_batch (s : Epoll κ) (b : BitVec 32) (hndl : κ) :
    (s.set b hndl).events = s.events ∧ (s.set b hndl).index = s.index := by
  unfold set
  split <;> exact ⟨rfl, rfl⟩

/-- More is asked for. -/
theorem Polls.set (h : Polls s p) (he : e ≠ .evErr) (hw : (p.handles hndl).isSome)
    (hs : Sound ⟨ask p.handles hndl e true, p.left⟩) :
    Polls (s.set (bit e) hndl) ⟨ask p.handles hndl e true, p.left⟩ := by
  obtain ⟨hev, hi⟩ := set_batch s (bit e) hndl
  exact ⟨hs, h.told.set he hw, by rw [hev, hi, h.events], by rw [hev, hi]; exact h.index⟩

theorem poll_refines :
    (poll (κ := κ)).Refines (Polling.spec backend) (Polling.Allowed backend) Polls := by
  intro s p call h hc
  have hsound := h.sound.step hc
  cases call with
  | add hndl fd => exact ⟨_, rfl, hsound, h.told.add hndl fd, h.events, h.index⟩
  | setIn hndl ok =>
    obtain ⟨hw, hok⟩ := hc
    obtain rfl : ok = true := by simpa [backend] using hok
    exact ⟨_, rfl, h.set (e := .evIn) (by decide) hw hsound⟩
  | setOut hndl ok =>
    obtain ⟨hw, hok⟩ := hc
    obtain rfl : ok = true := by simpa [backend] using hok
    exact ⟨_, rfl, h.set (e := .evOut) (by decide) hw hsound⟩
  | wait batch => exact ⟨_, rfl, hsound, h.told.congr rfl rfl, rfl, Nat.zero_le _⟩
  | between op =>
    obtain ⟨s', hx, hl⟩ := refines s p.left op h.left fun _ _ => trivial
    refine ⟨s', hx, hsound, ?_, hl.events, hl.index⟩
    cases op with
    | take =>
      obtain ⟨hi, hev⟩ := event_told s
      obtain rfl : s.event.1 = s' := congrArg Prod.fst (Except.ok.inj hx)
      exact h.told.congr hi hev
    | drop d =>
      obtain ⟨s₁, hg, hx⟩ := bind_eq_ok.1 hx
      obtain rfl : s₁ = s' := congrArg Prod.fst (Except.ok.inj hx)
      exact h.told.giveup (hc d rfl) hg

end Epoll

/-! ### With kqueue -/

namespace Kqueue

open Polling

/-- The bit of an event. -/
def bit : PollerEvent → BitVec 32
  | .evIn => 1
  | .evOut => 2
  | .evErr => 0

theorem bits : Watch.Bits bit := ⟨by decide, by decide, by decide⟩

theorem filter_bit (f : KFilter) : f.bit = bit f.event := by cases f <;> rfl

theorem filter_event_ne {f : KFilter} (h : f ≠ .other) : f.event ≠ .evErr := by
  cases f <;> first | exact absurd rfl h | nofun

theorem filter_event_inj {f f' : KFilter} : f.event = f'.event ↔ f = f' := by
  cases f <;> cases f' <;> decide

/-- The kernel tells, by one of the filters used, the handle that the descriptor is registered
    with. -/
def backend : PollBackend κ (KEvent κ) where
  ready := entry
  May handles ev := ev.filter ≠ .other ∧ ∃ hndl ∈ ev.udata, Heard handles ev.ident ev.filter.event hndl
  refuses := true
  asked := by
    rintro handles ev ⟨hf, hndl, hu, w, hw, -, ha⟩ r hr
    rw [entry, Option.mem_def.1 hu, List.mem_singleton] at hr
    subst hr
    refine ⟨⟨w, hw, ha⟩, ?_⟩
    dsimp only
    split
    · exact .inr rfl
    · exact .inl rfl

variable [DecidableEq κ]

/-- The functions of the poller. -/
def poll : Program (Kqueue κ) (PollCall κ (KEvent κ)) (Reply (Report κ)) Fault where
  exec self
    | .add hndl fd => .ok (self.add hndl fd, .dropped)
    | .setIn hndl ok => .ok (self.set .read hndl ok, .dropped)
    | .setOut hndl ok => .ok (self.set .write hndl ok, .dropped)
    | .wait batch => .ok (self.wait batch, .dropped)
    | .between op => program.exec self op

/-- The kernel has been told what the handles ask for, and they have it written down. -/
structure Told (s : Kqueue κ) (handles : Watches κ) : Prop where
  knotes : ∀ fd f hndl, s.knotes fd f = some hndl ↔ f ≠ .other ∧ Heard handles fd f.event hndl
  hndl : ∀ hndl, ∀ w ∈ handles hndl, s.fd hndl = w.fd ∧ s.hevents hndl = w.mask bit

/-- The poller is as it should be. -/
structure Polls (s : Kqueue κ) (p : Polling κ) : Prop where
  sound : p.Sound
  told : Told s p.handles
  events : (s.events.drop s.index).flatMap entry = p.left
  index : s.index ≤ s.events.length
  entries : ∀ ev ∈ s.events.drop s.index, ∀ hndl ∈ ev.udata, s.fd hndl = ev.ident ∧ ev.filter ≠ .other

variable {s s' : Kqueue κ} {handles : Watches κ} {hndl : κ} {f : KFilter} {v : Bool}
  {p : Polling κ} {w : Watch}

omit [DecidableEq κ] in
theorem Told.congr (h : Told s handles) (hk : s'.knotes = s.knotes) (hf : s'.fd = s.fd)
    (he : s'.hevents = s.hevents) : Told s' handles where
  knotes fd f hndl := by rw [hk, h.knotes]
  hndl k w hw := by rw [hf, he]; exact h.hndl k w hw

omit [DecidableEq κ] in
/-- A handle has the bit of what it asks for. -/
theorem Told.asks (h : Told s handles) (hw : w ∈ handles hndl) (hf : f ≠ .other) :
    s.hevents hndl &&& f.bit ≠ 0 ↔ w.asks f.event = true := by
  rw [(h.hndl hndl w hw).2, filter_bit, Watch.mask_and bits (filter_event_ne hf)]

/-- A handle that has been added asks for nothing. -/
theorem Told.add (h : Told s handles) (hw : handles hndl = none) (fd : ℕ) :
    Told (s.add hndl fd) (update handles hndl (some ⟨fd, false, false⟩)) where
  knotes fd' f k := by
    show s.knotes fd' f = some k ↔ _
    rw [h.knotes]
    refine and_congr_right fun hf => ?_
    by_cases hk : k = hndl
    · subst hk
      refine iff_of_false (fun ⟨w, hw', _⟩ => by simp [hw] at hw') fun ⟨w, hw', _, ha⟩ => ?_
      rw [update_self, Option.mem_some_iff] at hw'
      subst hw'
      cases f <;> first | exact absurd rfl hf | cases ha
    · rw [Heard, Heard, update_of_ne hk]
  hndl k w hw := by
    by_cases hk : k = hndl
    · subst hk
      rw [update_self, Option.mem_some_iff] at hw
      simp only [Kqueue.add, update_self, ← hw, Watch.mask_new, and_self]
    · rw [update_of_ne hk] at hw
      simp only [Kqueue.add, update_of_ne hk, h.hndl k w hw, and_self]

section

variable (hd : ∀ h h', ∀ w ∈ handles h, ∀ w' ∈ handles h', w.fd = w'.fd → h = h')
  (hw : w ∈ handles hndl)

include hd hw

omit [DecidableEq κ] in
/-- By its descriptor no other handle is heard of. -/
theorem eq_of_heard {e : PollerEvent} {k : κ} (h : Heard handles w.fd e k) : k = hndl := by
  obtain ⟨w', hw', hfd, -⟩ := h
  exact hd k hndl w' hw' w hw hfd

/-- `EV_ADD`. -/
theorem Told.start (h : Told s handles) (hf : f ≠ .other) :
    Told { s with
      knotes := update s.knotes (s.fd hndl) (update (s.knotes (s.fd hndl)) f (some hndl))
      hevents := update s.hevents hndl (s.hevents hndl ||| f.bit) }
      (ask handles hndl f.event true) where
  knotes fd f' k := by
    obtain ⟨hfd, -⟩ := h.hndl hndl w hw
    simp only [heard_ask (filter_event_ne hf), filter_event_inj]
    by_cases hnew : fd = w.fd ∧ f' = f
    · obtain ⟨rfl, rfl⟩ := hnew
      simp only [hfd, update_self, Option.some.injEq]
      constructor
      · rintro rfl
        exact ⟨hf, by rw [if_pos ⟨rfl, trivial⟩]; exact ⟨trivial, w, hw, rfl⟩⟩
      · rintro ⟨-, hk⟩
        split at hk
        · next he => exact he.1.symm
        · exact (eq_of_heard hd hw hk).symm
    · have hold : update s.knotes (s.fd hndl) (update (s.knotes (s.fd hndl)) f (some hndl)) fd f' =
          s.knotes fd f' := by
        by_cases hf' : fd = s.fd hndl
        · subst hf'
          rw [update_self, update_of_ne fun he => hnew ⟨hfd, he⟩]
        · rw [update_of_ne hf']
      rw [hold, h.knotes]
      refine and_congr_right fun _ => ?_
      split
      · next he =>
        obtain ⟨rfl, rfl⟩ := he
        refine iff_of_false ?_ ?_
        · rintro ⟨w', hw', hfd', -⟩
          exact hnew ⟨by rw [← hfd', Option.mem_unique hw' hw], rfl⟩
        · rintro ⟨-, w', hw', hfd'⟩
          exact hnew ⟨by rw [← hfd', Option.mem_unique hw' hw], rfl⟩
      · exact Iff.rfl
  hndl k u hu := by
    by_cases hk : k = hndl
    · subst hk
      obtain ⟨hfd, hev⟩ := h.hndl k w hw
      rw [ask, update_self, Option.mem_def.1 hw, Option.map_some, Option.mem_some_iff] at hu
      subst hu
      simp only [update_self, Watch.set_fd, hfd, hev, filter_bit, true_and]
      exact (w.mask_set_true (filter_event_ne hf)).symm
    · rw [ask_of_ne hk] at hu
      simp only [update_of_ne hk]
      exact h.hndl k u hu

/-- `EV_DELETE`. -/
theorem Told.stop (h : Told s handles) (hf : f ≠ .other) :
    Told { s.delete (s.fd hndl) f with
      hevents := update s.hevents hndl (s.hevents hndl &&& ~~~f.bit) }
      (ask handles hndl f.event false) where
  knotes fd f' k := by
    obtain ⟨hfd, -⟩ := h.hndl hndl w hw
    show (s.delete (s.fd hndl) f).knotes fd f' = some k ↔ _
    simp only [heard_ask (filter_event_ne hf), filter_event_inj, knotes_delete, hfd]
    by_cases hold : fd = w.fd ∧ f' = f
    · obtain ⟨rfl, rfl⟩ := hold
      rw [if_pos ⟨rfl, rfl⟩]
      refine iff_of_false (Option.some_ne_none k).symm ?_
      rintro ⟨-, hk⟩
      split at hk
      · exact absurd hk.1 Bool.false_ne_true
      · next hne => exact hne ⟨eq_of_heard hd hw hk, rfl⟩
    · rw [if_neg hold, h.knotes]
      refine and_congr_right fun _ => ?_
      split
      · next he =>
        obtain ⟨rfl, rfl⟩ := he
        refine iff_of_false ?_ fun hk => absurd hk.1 Bool.false_ne_true
        rintro ⟨w', hw', hfd', -⟩
        exact hold ⟨by rw [← hfd', Option.mem_unique hw' hw], rfl⟩
      · exact Iff.rfl
  hndl k u hu := by
    by_cases hk : k = hndl
    · subst hk
      obtain ⟨hfd, hev⟩ := h.hndl k w hw
      rw [ask, update_self, Option.mem_def.1 hw, Option.map_some, Option.mem_some_iff] at hu
      subst hu
      simp only [update_self, Watch.set_fd, hev, filter_bit]
      exact ⟨hfd, (w.mask_set_false bits (filter_event_ne hf)).symm⟩
    · rw [ask_of_ne hk] at hu
      simp only [update_of_ne hk]
      exact h.hndl k u hu

theorem Told.set (h : Told s handles) (hf : f ≠ .other) (ok : Bool) :
    Told (s.set f hndl ok) (if ok then ask handles hndl f.event true else handles) := by
  unfold Kqueue.set
  cases ok with
  | false => split <;> exact h
  | true =>
    simp only [if_true]
    split
    · exact h.start hd hw hf
    · next hb =>
      have ha := (h.asks hw hf).1 hb
      rwa [ask_eq_self fun u hu => by rwa [Option.mem_unique hu hw]]

omit hd in
/-- What is not asked for need not be given up. -/
theorem Told.not_asked (h : Told s handles) (hf : f ≠ .other) (hb : ¬ s.hevents hndl &&& f.bit ≠ 0) :
    Told s (ask handles hndl f.event false) := by
  rw [h.asks hw hf, Bool.not_eq_true] at hb
  rwa [ask_eq_self fun u hu => by rwa [Option.mem_unique hu hw]]

theorem Told.stopIn (h : Told s handles) : Told (s.stopIn hndl) (ask handles hndl .evIn false) := by
  unfold Kqueue.stopIn
  split
  · exact h.stop hd hw (f := .read) (by decide)
  · next hb => exact h.not_asked hw (f := .read) (by decide) hb

theorem Told.stopOut (h : Told s handles) : Told (s.stopOut hndl) (ask handles hndl .evOut false) := by
  unfold Kqueue.stopOut
  split
  · next hb =>
    -- What is asked for is there to be deleted.
    have hn : s.knotes (s.fd hndl) .write = some hndl := (h.knotes ..).2
      ⟨by decide, w, hw, (h.hndl hndl w hw).1.symm, (h.asks hw (f := .write) (by decide)).1 hb⟩
    rw [hn, Option.isSome_some, if_pos rfl]
    exact h.stop hd hw (f := .write) (by decide)
  · next hb => exact h.not_asked hw (f := .write) (by decide) hb

end

/-- What the kernel has been told when a handle has been removed. -/
theorem forget_knotes (s : Kqueue κ) (hndl : κ) (fd : ℕ) (f : KFilter) :
    (s.forget hndl).knotes fd f =
      if fd = s.fd hndl ∧ s.hevents hndl &&& f.bit ≠ 0 then none else s.knotes fd f := by
  have hother : KFilter.other.bit = 0#32 := rfl
  simp only [forget]
  by_cases hr : s.hevents hndl &&& KFilter.read.bit = 0#32 <;>
    by_cases hw : s.hevents hndl &&& KFilter.write.bit = 0#32 <;>
      cases f <;> simp [hr, hw, hother, knotes_delete]

theorem Told.forget (h : Told s handles) {w : Watch} (hw : w ∈ handles hndl)
    (hd : ∀ h h', ∀ w ∈ handles h, ∀ w' ∈ handles h', w.fd = w'.fd → h = h') :
    Told (s.forget hndl) (update handles hndl none) where
  knotes fd f k := by
    rw [forget_knotes, (h.hndl hndl w hw).1]
    by_cases hk : k = hndl
    · subst hk
      refine iff_of_false (fun hn => ?_) ?_
      · split at hn
        · cases hn
        · next hne =>
          obtain ⟨hf, w', hw', hfd, ha⟩ := (h.knotes fd f k).1 hn
          obtain rfl := Option.mem_unique hw' hw
          exact hne ⟨hfd.symm, (h.asks hw hf).2 ha⟩
      · rintro ⟨-, w', hw', -⟩
        simp at hw'
    · have hother : s.knotes fd f = some k → ¬ (fd = w.fd ∧ s.hevents hndl &&& f.bit ≠ 0) := by
        rintro hn ⟨rfl, -⟩
        exact hk (eq_of_heard hd hw ((h.knotes ..).1 hn).2)
      rw [Heard, update_of_ne hk, ← Heard, ← h.knotes]
      split
      · next hne => exact iff_of_false (Option.some_ne_none k).symm fun hn => hother hn hne
      · exact Iff.rfl
  hndl k u hu := by
    have hk : k ≠ hndl := by
      rintro rfl
      simp at hu
    rw [update_of_ne hk] at hu
    have hsame : (s.forget hndl).fd = s.fd ∧ (s.forget hndl).hevents = s.hevents := by
      simp only [Kqueue.forget]
      split <;> split <;> exact ⟨rfl, rfl⟩
    rw [hsame.1, hsame.2]
    exact h.hndl k u hu

omit [DecidableEq κ] in
theorem sweep_told {q : KEvent κ → Bool} (hx : s.sweep q = .ok s') :
    s'.knotes = s.knotes ∧ s'.fd = s.fd ∧ s'.hevents = s.hevents := by
  unfold sweep at hx
  split at hx
  · obtain rfl := Except.ok.inj hx
    exact ⟨rfl, rfl, rfl⟩
  · cases hx

theorem Told.giveup (h : Told s handles) {d : Giveup κ} {w : Watch} (hw : w ∈ handles d.hndl)
    (hd : ∀ h h', ∀ w ∈ handles h, ∀ w' ∈ handles h', w.fd = w'.fd → h = h')
    (hx : s.giveup d = .ok s') : Told s' (Polling.giveup handles d) := by
  cases d with
  | rm hndl =>
    obtain ⟨hn, hf, he⟩ := sweep_told (s := s.forget hndl) hx
    exact (h.forget hw hd).congr hn hf he
  | resetIn hndl =>
    obtain ⟨hn, hf, he⟩ := sweep_told (s := s.stopIn hndl) hx
    exact (h.stopIn hd hw).congr hn hf he
  | resetOut hndl =>
    obtain ⟨hn, hf, he⟩ := sweep_told (s := s.stopOut hndl) hx
    exact (h.stopOut hd hw).congr hn hf he

omit [DecidableEq κ] in
theorem event_told {r : Option (Report κ)} (hx : s.event = .ok (s', r)) :
    s'.knotes = s.knotes ∧ s'.fd = s.fd ∧ s'.hevents = s.hevents := by
  unfold event at hx
  split at hx
  · obtain ⟨rfl, -⟩ := Prod.mk.inj (Except.ok.inj hx)
    exact ⟨rfl, rfl, rfl⟩
  · next ev _ =>
    cases hf : ev.filter <;> cases he : ev.eof <;> simp [hf, he] at hx
    all_goals
      obtain ⟨rfl, -⟩ := hx
      exact ⟨rfl, rfl, rfl⟩

omit [DecidableEq κ] in
theorem polls_init (fd : κ → ℕ) (hevents : κ → BitVec 32) : Polls (init fd hevents) Polling.init where
  sound := sound_init
  told := ⟨fun _ _ _ => iff_of_false nofun fun ⟨_, _, hw, _⟩ => Option.not_mem_none _ hw,
    fun _ _ hw => absurd hw (Option.not_mem_none _)⟩
  events := rfl
  index := Nat.le_refl 0
  entries _ hev := absurd hev List.not_mem_nil

omit [DecidableEq κ] in
/-- What is left of the batch is told of registered handles. -/
theorem Polls.registered (h : Polls s p) {ev : KEvent κ} (hev : ev ∈ s.events.drop s.index)
    (hu : hndl ∈ ev.udata) : (p.handles hndl).isSome := by
  have hr : (⟨hndl, if ev.eof then .evErr else ev.filter.event, ev.filter.event⟩ : Readiness κ) ∈
      p.left := by
    rw [← h.events]
    refine List.mem_flatMap.2 ⟨ev, hev, ?_⟩
    rw [entry, Option.mem_def.1 hu]
    exact List.mem_singleton_self _
  obtain ⟨w, hw, -⟩ := (h.sound.asked _ hr).cause
  exact Option.isSome_iff_exists.2 ⟨w, hw⟩

omit [DecidableEq κ] in
theorem Polls.left (h : Polls s p) : Left (fun hndl => (p.handles hndl).isSome) s p.left where
  events := h.events
  index := h.index
  handles ev hev hndl hu := ⟨h.registered hev hu, h.entries ev hev hndl hu⟩
  distinct k k' hk hk' hkk := by
    obtain ⟨w, hw⟩ := Option.isSome_iff_exists.1 hk
    obtain ⟨w', hw'⟩ := Option.isSome_iff_exists.1 hk'
    rw [(h.told.hndl k w hw).1, (h.told.hndl k' w' hw').1] at hkk
    exact h.sound.distinct k k' w hw w' hw' hkk

theorem set_batch (s : Kqueue κ) (f : KFilter) (hndl : κ) (ok : Bool) : (s.set f hndl ok).fd = s.fd ∧
    (s.set f hndl ok).events = s.events ∧ (s.set f hndl ok).index = s.index := by
  unfold set
  split
  · split <;> exact ⟨rfl, rfl, rfl⟩
  · exact ⟨rfl, rfl, rfl⟩

/-- More is asked for, where the kernel does not refuse. -/
theorem Polls.set (h : Polls s p) (hf : f ≠ .other) (hw : (p.handles hndl).isSome) (ok : Bool)
    {handles : Watches κ} (hh : handles = if ok then ask p.handles hndl f.event true else p.handles)
    (hs : Sound ⟨handles, p.left⟩) : Polls (s.set f hndl ok) ⟨handles, p.left⟩ := by
  obtain ⟨hfd, hev, hi⟩ := set_batch s f hndl ok
  obtain ⟨w, hw⟩ := Option.isSome_iff_exists.1 hw
  refine ⟨hs, hh ▸ h.told.set h.sound.distinct hw hf ok, by rw [hev, hi, h.events], ?_, ?_⟩
  · rw [hev, hi]
    exact h.index
  · rw [hev, hi, hfd]
    exact h.entries

theorem poll_refines :
    (poll (κ := κ)).Refines (Polling.spec backend) (Polling.Allowed backend) Polls := by
  intro s p call h hc
  have hsound := h.sound.step hc
  cases call with
  | add hndl fd =>
    refine ⟨_, rfl, hsound, h.told.add hc.1 fd, h.events, h.index, fun ev hev k hu => ?_⟩
    have hk : k ≠ hndl := by
      rintro rfl
      have hr := h.registered hev hu
      rw [hc.1] at hr
      cases hr
    show update s.fd hndl fd k = ev.ident ∧ _
    rw [update_of_ne hk]
    exact h.entries ev hev k hu
  | setIn hndl ok => exact ⟨_, rfl, h.set (f := .read) (by decide) hc.1 ok rfl hsound⟩
  | setOut hndl ok => exact ⟨_, rfl, h.set (f := .write) (by decide) hc.1 ok rfl hsound⟩
  | wait batch =>
    refine ⟨_, rfl, hsound, h.told.congr rfl rfl rfl, rfl, Nat.zero_le _, fun ev hev hndl hu => ?_⟩
    obtain ⟨hf, k, hk, w, hw, hfd, -⟩ := hc.2 ev hev
    obtain rfl := Option.mem_unique hu hk
    exact ⟨(h.told.hndl _ w hw).1.trans hfd, hf⟩
  | between op =>
    obtain ⟨s', hx, hl⟩ := refines s p.left op h.left hc
    refine ⟨s', hx, hsound, ?_, hl.events, hl.index, fun ev hev hndl hu => ?_⟩
    swap
    · exact (hl.handles ev hev hndl hu).2
    cases op with
    | take =>
      obtain ⟨⟨s₁, r⟩, he, hx⟩ := bind_eq_ok.1 hx
      obtain rfl : s₁ = s' := congrArg Prod.fst (Except.ok.inj hx)
      obtain ⟨hn, hf, hh⟩ := event_told he
      exact h.told.congr hn hf hh
    | drop d =>
      obtain ⟨s₁, hg, hx⟩ := bind_eq_ok.1 hx
      obtain rfl : s₁ = s' := congrArg Prod.fst (Except.ok.inj hx)
      obtain ⟨w, hw⟩ := Option.isSome_iff_exists.1 (hc d rfl)
      exact h.told.giveup hw h.sound.distinct hg

end Kqueue

section

open Polling

variable [DecidableEq κ]

/-- Whatever is called, with handles registered, removed and registered again and more or less asked
    for between the events of a batch, and whatever the kernel stores: epoll and kqueue are told what is
    asked for, and nothing is handed out that is not asked for when it is. Where the same is ready, and
    nothing is refused, the two backends answer the same. -/
theorem pollers_correct (hevents hevents' : κ → BitVec 32) (fd : κ → ℕ)
    {calls : List (PollCall κ (EpollEvent κ))} {calls' : List (PollCall κ (KEvent κ))}
    (hc : (Polling.spec Epoll.backend).Allowed (Allowed Epoll.backend) Polling.init calls)
    (hc' : (Polling.spec Kqueue.backend).Allowed (Allowed Kqueue.backend) Polling.init calls') :
    Right Epoll.backend Epoll.poll Epoll.Told (Epoll.init hevents) calls ∧
      Right Kqueue.backend Kqueue.poll Kqueue.Told (Kqueue.init fd hevents') calls' ∧
      (calls.map (seenBy Epoll.backend) = calls'.map (seenBy Kqueue.backend) →
        (Epoll.poll.run (Epoll.init hevents) calls).map Prod.snd =
          (Kqueue.poll.run (Kqueue.init fd hevents') calls').map Prod.snd) := by
  have he : Right Epoll.backend Epoll.poll Epoll.Told (Epoll.init hevents) calls :=
    right_of_refines Epoll.poll_refines (fun _ _ h => h.told) (Epoll.polls_init hevents) hc
  have hk : Right Kqueue.backend Kqueue.poll Kqueue.Told (Kqueue.init fd hevents') calls' :=
    right_of_refines Kqueue.poll_refines (fun _ _ h => h.told) (Kqueue.polls_init fd hevents') hc'
  refine ⟨he, hk, fun hs => ?_⟩
  obtain ⟨s, answers, hx, ha, -⟩ := he
  obtain ⟨s', answers', hx', ha', -⟩ := hk
  rw [hx, hx', ha, ha', run_seenBy (b := Epoll.backend), run_seenBy (b := Kqueue.backend), hs]
  rfl

/-- Handle `false` is removed in the middle of a batch that tells of it, and its descriptor given to
    handle `true`, which hears nothing of that. -/
theorem pollers_correct_reused :
    let calls (β : Type) (batch : List β) : List (PollCall Bool β) :=
      [.add false 7, .setIn false true, .wait batch, .between (.drop (.rm false)), .add true 7,
        .setIn true true, .between .take]
    let calls₁ := calls (EpollEvent Bool) [⟨1, false⟩]
    let calls₂ := calls (KEvent Bool) [⟨7, .read, false, some false⟩]
    Right Epoll.backend Epoll.poll Epoll.Told (Epoll.init fun _ => 0) calls₁ ∧
      Right Kqueue.backend Kqueue.poll Kqueue.Told (Kqueue.init (fun _ => 0) fun _ => 0) calls₂ ∧
      (Epoll.poll.run (Epoll.init fun _ => 0) calls₁).map Prod.snd =
        (Kqueue.poll.run (Kqueue.init (fun _ => 0) fun _ => 0) calls₂).map Prod.snd ∧
      ((Polling.spec Epoll.backend).run Polling.init calls₁).2.getLast? = some .empty := by
  intro calls calls₁ calls₂
  have hfree : ∀ {handles : Watches Bool}, (∀ k, handles k = none) → ∀ k, ∀ w ∈ handles k, w.fd ≠ 7 :=
    fun h k w hw => absurd hw (by rw [h k]; exact Option.not_mem_none w)
  have hall := @pollers_correct Bool _ (fun _ => 0) (fun _ => 0) (fun _ => 0) calls₁ calls₂
    ⟨⟨rfl, hfree fun _ => rfl⟩, ⟨rfl, rfl⟩, ⟨by decide, ?_⟩, ?_, ⟨rfl, ?_⟩, ⟨rfl, rfl⟩, nofun, trivial⟩
    ⟨⟨rfl, hfree fun _ => rfl⟩, ⟨rfl, rfl⟩, ⟨by decide, ?_⟩, ?_, ⟨rfl, ?_⟩, ⟨rfl, rfl⟩, nofun, trivial⟩
  · exact ⟨hall.1, hall.2.1, hall.2.2 rfl, rfl⟩
  · intro ev hev
    rw [List.mem_singleton.1 hev]
    exact ⟨⟨7, true, false⟩, rfl, fun e => by cases e <;> decide⟩
  · rintro d ⟨⟩
    rfl
  · exact hfree fun k => by cases k <;> rfl
  · intro ev hev
    rw [List.mem_singleton.1 hev]
    exact ⟨nofun, false, rfl, ⟨7, true, false⟩, rfl, rfl, rfl⟩
  · rintro d ⟨⟩
    rfl
  · exact hfree fun k => by cases k <;> rfl

end

end Nanomsg
