import Nanomsg.Aio.Timeout

/-!
# The timers of a worker

A worker feeds the timers that are due until there is none (`nn_timerset_event`), and asks how long
it is until the next (`nn_timerset_timeout`); its owners add timers and remove them. Other than in
`Timerset` the clock does not go back. Recorded are its latest reading, that at which no timer
was due, and which timers have been added, removed and fed, whatever the timer set makes of it
(`noteAdd`, `noteRm`, `noteEvent`).

`Kept` is what all of this keeps. A timer is fed when its time has come and it is the first
(`event_spec`), and the answer is right if it comes soon enough (`timeout_spec`).
-/

namespace Nanomsg

open Function Transition Intrusive Priority

variable {ι : Type}

/-- The timers of a worker. -/
structure Alarms (ι : Type) where
  timerset : Timerset ι
  /-- The timers that are active, with their deadlines. -/
  active : Active ι
  /-- The latest reading of the clock, and that at which no timer was due. -/
  clock : ℕ
  restedAt : ℕ
  added : List ι
  removed : List ι
  fired : List ι

namespace Alarms

/-- No timer has been added. -/
def init (timeout : ι → UInt64) : Alarms ι := ⟨.init timeout, [], 0, 0, [], [], []⟩

variable [DecidableEq ι] (s : Alarms ι)

/-- `nn_worker_add_timer`, the clock reading `now`. -/
def addTimer (now : UInt64) (timeout : ℤ) (hndl : ι) : Except Fault (Alarms ι) := do
  let (set, _) ← s.timerset.add now timeout hndl
  pure { s with timerset := set }

/-- `nn_worker_rm_timer`. -/
def rmTimer (hndl : ι) : Except Fault (Alarms ι) := do
  let (set, _) ← s.timerset.rm hndl
  pure { s with timerset := set }

/-- The body of the loop over the timers, until a timer is fed: none if the loop is left. -/
def event (now : UInt64) : Except Fault (Alarms ι × Option ι) := do
  let (set, rc, thndl) ← s.timerset.event now
  if rc = -Errno.eagain then
    pure ({ s with timerset := set }, none)
  else do
    nnAssert (rc = 0)
    match thndl with
    | none => .error .wildPointer
    | some hndl => pure ({ s with timerset := set }, some hndl)

/-- A timer is to be added, `timeout` after `now`. -/
def noteAdd (now : UInt64) (timeout : ℤ) (hndl : ι) : Alarms ι :=
  { s with
    active := s.active ++ [(now.toNat + timeout.toNat, hndl)]
    clock := now.toNat
    added := s.added ++ [hndl] }

/-- A timer is to be removed, if it is active. -/
def noteRm (hndl : ι) : Alarms ι :=
  { s with
    active := s.active.remove hndl
    removed := if ∃ p ∈ s.active, p.2 = hndl then s.removed ++ [hndl] else s.removed }

/-- A timer is fed, or the loop over them is left. -/
def noteEvent (now : UInt64) : Option ι → Alarms ι
  | none => { s with clock := now.toNat, restedAt := now.toNat }
  | some hndl => { s with
      active := s.active.remove hndl
      clock := now.toNat
      fired := s.fired ++ [hndl] }

/-- An owner may add the timer. -/
structure Addable (now : UInt64) (timeout : ℤ) (hndl : ι) : Prop where
  clock : s.clock ≤ now.toNat
  inactive : ∀ p ∈ s.active, p.2 ≠ hndl
  nonneg : 0 ≤ timeout
  lt : timeout < 2 ^ 31
  deadline : now.toNat + timeout < 2 ^ 64

instance (now : UInt64) (timeout : ℤ) (hndl : ι) : Decidable (s.Addable now timeout hndl) :=
  decidable_of_iff (s.clock ≤ now.toNat ∧ (∀ p ∈ s.active, p.2 ≠ hndl) ∧ 0 ≤ timeout ∧
    timeout < 2 ^ 31 ∧ now.toNat + timeout < 2 ^ 64)
    ⟨fun ⟨h₁, h₂, h₃, h₄, h₅⟩ => ⟨h₁, h₂, h₃, h₄, h₅⟩,
      fun ⟨h₁, h₂, h₃, h₄, h₅⟩ => ⟨h₁, h₂, h₃, h₄, h₅⟩⟩

/-- The set keeps what is active, no deadline is farther off than a timeout is long, and each timer
    that was added has been fed or removed since, or is active. -/
structure Kept (s : Alarms ι) : Prop where
  holds : s.timerset.Holds s.active
  near : ∀ p ∈ s.active, p.1 < s.clock + 2 ^ 31
  counted : ∀ x, s.added.count x = s.fired.count x + s.removed.count x + s.active.active x

theorem active_append {t : Active ι} {d : ℕ} {hndl : ι} (h : ∀ p ∈ t, p.2 ≠ hndl) (x : ι) :
    Active.active (t ++ [(d, hndl)]) x = Active.active t x + if hndl = x then 1 else 0 := by
  by_cases hx : hndl = x
  · subst hx
    have hout : ¬ ∃ p ∈ t, p.2 = hndl := fun ⟨p, hp, he⟩ => h p hp he
    rw [Active.active, Active.active, if_pos ⟨(d, hndl), by simp, rfl⟩, if_neg hout, if_pos rfl]
  · simp only [Active.active, Active.exists_append (Ne.symm hx), if_neg hx, Nat.add_zero]

theorem active_remove {t : Active ι} {hndl : ι} (h : ∃ p ∈ t, p.2 = hndl) (x : ι) :
    Active.active t x = Active.active (Active.remove t hndl) x + if hndl = x then 1 else 0 := by
  by_cases hx : hndl = x
  · subst hx
    rw [Active.active_remove_self, Active.active, if_pos h, if_pos rfl]
  · simp only [Active.active, Active.exists_remove (Ne.symm hx), if_neg hx, Nat.add_zero]

theorem remove_eq_self {t : Active ι} {hndl : ι} (h : ¬ ∃ p ∈ t, p.2 = hndl) :
    Active.remove t hndl = t :=
  List.filter_eq_self.2 fun p hp => by simpa using fun he => h ⟨p, hp, he⟩

theorem count_append_singleton (l : List ι) (x y : ι) :
    (l ++ [x]).count y = l.count y + if x = y then 1 else 0 := by
  rw [List.count_append, List.count_singleton]
  simp only [beq_iff_eq]

variable {s} {now : UInt64}

theorem kept_init (timeout : ι → UInt64) : Kept (init timeout) where
  holds := Timerset.holds_init timeout
  near _ hp := absurd hp List.not_mem_nil
  counted x := by simp [init, Active.active]

/-- Time goes by. -/
theorem Kept.later (h : Kept s) {n : ℕ} (hn : s.clock ≤ n) : Kept { s with clock := n } where
  holds := h.holds
  near p hp := Nat.lt_of_lt_of_le (h.near p hp) (Nat.add_le_add_right hn _)
  counted := h.counted

theorem Kept.add (h : Kept s) {timeout : ℤ} {hndl : ι} (ha : s.Addable now timeout hndl) :
    ∃ s', (s.noteAdd now timeout hndl).addTimer now timeout hndl = .ok s' ∧ Kept s' ∧
      s'.fired = s.fired := by
  obtain ⟨set, hx, hs⟩ := Timerset.add_spec h.holds ha.inactive ha.nonneg ha.deadline
  have hok : (s.noteAdd now timeout hndl).addTimer now timeout hndl =
      .ok { s.noteAdd now timeout hndl with timerset := set } := by
    rw [addTimer, show (s.noteAdd now timeout hndl).timerset = s.timerset from rfl, hx]
    rfl
  refine ⟨_, hok, ⟨hs, fun p hp => ?_, fun x => ?_⟩, rfl⟩
  · dsimp only [noteAdd]
    rcases List.mem_append.1 hp with hp | hp
    · have := h.near p hp
      have := ha.clock
      omega
    · rw [List.mem_singleton.1 hp]
      have := ha.lt
      have := ha.nonneg
      dsimp only
      omega
  · have := h.counted x
    dsimp only [noteAdd]
    rw [count_append_singleton, active_append ha.inactive]
    omega

theorem Kept.rm (h : Kept s) (hndl : ι) :
    ∃ s', (s.noteRm hndl).rmTimer hndl = .ok s' ∧ Kept s' ∧ s'.fired = s.fired := by
  obtain ⟨set, hx, hs⟩ := Timerset.rm_spec h.holds hndl
  have hok : (s.noteRm hndl).rmTimer hndl = .ok { s.noteRm hndl with timerset := set } := by
    rw [rmTimer, show (s.noteRm hndl).timerset = s.timerset from rfl, hx]
    rfl
  refine ⟨_, hok, ⟨hs, fun p hp => h.near p (List.mem_filter.1 hp).1, fun x => ?_⟩, rfl⟩
  have hc := h.counted x
  dsimp only [noteRm]
  by_cases hm : ∃ p ∈ s.active, p.2 = hndl
  · rw [active_remove hm] at hc
    rw [if_pos hm, count_append_singleton]
    omega
  · rw [if_neg hm, remove_eq_self hm]
    exact hc

/-- None is due, or the first timer is, and it is fed. -/
theorem Kept.event_spec (h : Kept s) (hnow : s.clock ≤ now.toNat) :
    (∃ s', s.event now = .ok (s', none) ∧ Kept (s'.noteEvent now none) ∧ s'.fired = s.fired ∧
      s'.active = s.active ∧ ∀ p ∈ s.active, now.toNat < p.1) ∨
    ∃ s' p, s.event now = .ok (s', some p.2) ∧ Kept (s'.noteEvent now (some p.2)) ∧
      s'.fired = s.fired ∧ Priority.first s.active = some p ∧ p.1 ≤ now.toNat := by
  have hnear : ∀ p ∈ s.active, p.1 < now.toNat + 2 ^ 31 := fun p hp =>
    Nat.lt_of_lt_of_le (h.near p hp) (Nat.add_le_add_right hnow _)
  obtain ⟨hd, hx⟩ | ⟨hndl, set, hd, hx, hs⟩ := Timerset.event_due h.holds now
  · have hok : s.event now = .ok (s, none) := by
      rw [event, hx]
      rfl
    exact .inl ⟨_, hok, ⟨h.holds, hnear, h.counted⟩, rfl, rfl, Active.due_eq_none.1 hd⟩
  · have hm := Active.exists_of_due hd
    obtain ⟨p, hf, hle, rfl⟩ : ∃ p, Priority.first s.active = some p ∧ p.1 ≤ now.toNat ∧ p.2 = hndl := by
      rw [Active.due] at hd
      cases hf : Priority.first s.active with
      | none => simp [hf] at hd
      | some p =>
        by_cases hle : p.1 ≤ now.toNat
        · exact ⟨p, rfl, hle, by simpa [hf, hle] using hd⟩
        · simp [hf, hle] at hd
    have hok : s.event now = .ok ({ s with timerset := set }, some p.2) := by
      rw [event, hx]
      rfl
    refine .inr ⟨_, p, hok, ⟨hs, fun q hq => ?_, fun x => ?_⟩, rfl, hf, hle⟩
    · exact hnear q (List.mem_filter.1 hq).1
    · have hc := h.counted x
      rw [active_remove hm] at hc
      dsimp only [noteEvent]
      rw [count_append_singleton]
      omega

/-- The answer of `nn_timerset_timeout`, while no timer has become due too long ago. -/
theorem Kept.timeout_spec (h : Kept s) (hnow : s.clock ≤ now.toNat) {since : ℕ}
    (hs : ∀ p ∈ s.active, since ≤ p.1) : ∃ timeout, s.timerset.timersetTimeout now = .ok timeout ∧
      (now.toNat ≤ since + 2 ^ 31 → timeout = s.active.left now) := by
  rw [Active.left]
  cases hf : Priority.first s.active with
  | none => exact ⟨-1, Timerset.timersetTimeout_none h.holds hf now, fun _ => rfl⟩
  | some p =>
    obtain ⟨d, hd, hx⟩ := Timerset.timersetTimeout_some h.holds hf now
    have hp := List.mem_of_find?_eq_some hf
    have hnear := h.near p hp
    have hsince := hs p hp
    refine ⟨_, hx, fun hlt => ?_⟩
    dsimp only
    by_cases hle : now.toNat ≤ d.toNat
    · -- It is to come, in no more than a timeout.
      have hlt : (d - now).toNat < 2 ^ 31 := by
        rw [Clock.toNat_sub_of_le hle]
        omega
      rw [Clock.toInt_of_lt hlt, Clock.toNat_sub_of_le hle]
      omega
    · have := (Clock.toInt_sub_nonpos_iff (Nat.not_le.1 hle)).2 (by omega)
      omega

end Alarms

end Nanomsg
