import Nanomsg.Lib.System
import Nanomsg.Utils.Queue

/-!
# The tasks of a worker

`worker_posix.inc`: any number of threads leave tasks to a worker
(`nn_worker_execute`), take them back (`nn_worker_cancel`) and at last stop it
(`nn_worker_term`), each with the mutex `sync` held. Its thread, `nn_worker_routine`, is woken
by the descriptor `efd`; it moves the queue of tasks to a copy of its own, with the
mutex held, and feeds the tasks of the copy to their owners without it.

A thread is between two statements of its call, the routine at one of its points. What an
argument of `nn_queue_pop` in the routine names is a parameter (`PopArg`): the code has
`&task`, a pointer to a task that nothing has been written to, where the copy is
`&tasks`. The other descriptors and the timers of the worker are left out, and what
`nn_worker_term` does when the routine has returned.

Two fields say what should be in the queues: `queued` is what has been pushed and neither
cancelled nor taken over by the routine, and `taken` what the routine has taken over; `fed` and
`dropped` are what it has fed and thrown away. `worker_correct_iff`: the routine is right until
it takes something off its copy. With `&tasks` it would be right throughout (`worker_correct`).
-/

namespace Nanomsg

open Function Transition Intrusive

variable {τ ι : Type}

/-- The queue `self->tasks`, and the routine's copy `tasks`. -/
inductive TaskQueue
  | shared
  | copy
  deriving DecidableEq

/-- The `item` of a task, or `self->stop`. -/
inductive Job (ι : Type)
  | task (x : ι)
  | stop
  deriving DecidableEq

/-- `nn_worker_execute`, `nn_worker_cancel` and `nn_worker_term`. -/
inductive WorkerCall (ι : Type)
  | execute (x : ι)
  | cancel (x : ι)
  | term
  deriving DecidableEq

/-- Where a thread is. -/
inductive CallSpot (ι : Type)
  | out
  /-- About to lock the mutex. -/
  | begun (c : WorkerCall ι)
  /-- With the mutex locked. -/
  | locked (c : WorkerCall ι)
  /-- About to signal. -/
  | pushed
  /-- About to unlock the mutex. -/
  | leaving
  deriving DecidableEq

/-- Where the routine is. -/
inductive RoutinePoint (ι : Type)
  /-- In `nn_poller_wait`, or with some other event. -/
  | waiting
  /-- With an event of `efd`, about to lock the mutex. -/
  | woken
  | locked
  /-- It has called `nn_efd_unsignal`. -/
  | unsignalled
  /-- It has copied the queue and initialised it. -/
  | taken
  /-- About to take something off. -/
  | popping
  /-- With a task, which it feeds to its owner. -/
  | feeding (x : ι)
  /-- It has met the stop item and throws away the rest. -/
  | stopping
  | finished
  deriving DecidableEq

/-- The argument of `nn_queue_pop` in `nn_worker_routine`: `&task` or `&tasks`. -/
inductive PopArg
  | task
  | tasks
  deriving DecidableEq

/-- Who has locked the mutex. -/
inductive Locker (τ : Type)
  | thread (t : τ)
  | routine
  deriving DecidableEq

/-- The job that a thread is about to push. -/
def CallSpot.job : CallSpot ι → Option (Job ι)
  | begun (.execute x) | locked (.execute x) => some (.task x)
  | begun .term | locked .term => some .stop
  | begun (.cancel _) | locked (.cancel _) | out | pushed | leaving => none

/-- What is queued after a call. -/
def WorkerCall.queue [DecidableEq ι] : WorkerCall ι → List (Job ι) → List (Job ι)
  | execute x, queued => queued ++ [.task x]
  | cancel x, queued => queued.erase (.task x)
  | term, queued => queued ++ [.stop]

/-- The thread has locked the mutex. -/
def CallSpot.holds : CallSpot ι → Bool
  | locked _ | pushed | leaving => true
  | out | begun _ => false

namespace RoutinePoint

/-- The routine has locked the mutex. -/
def holds : RoutinePoint ι → Bool
  | locked | unsignalled | taken => true
  | waiting | woken | popping | feeding _ | stopping | finished => false

/-- It calls `nn_queue_pop`. -/
def pops : RoutinePoint ι → Bool
  | popping | stopping => true
  | waiting | woken | locked | unsignalled | taken | feeding _ | finished => false

/-- The copy has been emptied. -/
def emptied : RoutinePoint ι → Bool
  | waiting | woken | locked | unsignalled | finished => true
  | taken | popping | feeding _ | stopping => false

/-- What has been taken off and not fed. -/
def hand : RoutinePoint ι → List (Job ι)
  | feeding x => [.task x]
  | waiting | woken | locked | unsignalled | taken | popping | stopping | finished => []

/-- The stop item has been met. -/
def met : RoutinePoint ι → Bool
  | stopping | finished => true
  | waiting | woken | locked | unsignalled | taken | popping | feeding _ => false

end RoutinePoint

/-- Of `struct nn_worker` what the tasks need, the threads and the routine. -/
structure Worker (τ ι : Type) where
  queues : Queues TaskQueue (Job ι)
  /-- Who has locked `sync`. -/
  owner : Option (Locker τ)
  /-- `efd` is signalled. -/
  efd : Bool
  spot : τ → CallSpot ι
  point : RoutinePoint ι
  /-- `nn_worker_term` has been called. -/
  termed : Bool
  pushes : ℕ
  queued : List (Job ι)
  taken : List (Job ι)
  fed : List (Job ι)
  dropped : List (Job ι)

/-- What the threads and the routine do. -/
inductive WorkerAction (τ ι : Type)
  /-- The thread `t` makes a call, or goes on with it. -/
  | call (t : τ) (c : WorkerCall ι)
  | step (t : τ)
  /-- `nn_poller_event` tells the routine of `efd`. -/
  | wake
  | routine

namespace Worker

/-- `nn_worker_init`, before any call. -/
def init : Worker τ ι where
  queues := ⟨fun _ => .null, fun _ => .null, fun _ => .out⟩
  owner := none
  efd := false
  spot _ := .out
  point := .waiting
  termed := false
  pushes := 0
  queued := []
  taken := []
  fed := []
  dropped := []

variable [DecidableEq τ] [DecidableEq ι] (arg : PopArg) (w : Worker τ ι)

/-- The thread `t` goes to `s`. -/
def goto (t : τ) (s : CallSpot ι) : Worker τ ι := { w with spot := update w.spot t s }

/-- `nn_mutex_unlock`, asserted to be called by the one that locked the mutex. -/
def unlock (l : Locker τ) : Except Fault (Worker τ ι) := do
  nnAssert (w.owner = some l)
  pure { w with owner := none }

/-- `nn_queue_push(&self->tasks, ...)`. -/
def push (j : Job ι) : Except Fault (Worker τ ι) := do
  let queues ← w.queues.push .shared j
  pure { w with queues := queues, pushes := w.pushes + 1 }

/-- `nn_queue_remove(&self->tasks, &task->item)`. -/
def remove (x : ι) : Except Fault (Worker τ ι) := do
  let queues ← w.queues.remove (w.pushes + 1) .shared (.task x)
  pure { w with queues := queues }

/-- `nn_queue_pop` in the routine. -/
def pop : Except Fault (Queues TaskQueue (Job ι) × Option (Job ι)) :=
  match arg with
  | .tasks => w.queues.pop .copy
  | .task => .error .wildPointer

/-- A thread goes on with its call. -/
def advance (t : τ) : Except Fault (Worker τ ι) :=
  match w.spot t with
  | .out => .ok w
  | .begun c => .ok ({ w with owner := some (.thread t) }.goto t (.locked c))
  | .locked (.execute x) => do
    let w ← w.push (.task x)
    pure (w.goto t .pushed)
  | .locked (.cancel x) => do
    let w ← w.remove x
    pure (w.goto t .leaving)
  | .locked .term => do
    let w ← w.push .stop
    pure (w.goto t .pushed)
  | .pushed => .ok ({ w with efd := true }.goto t .leaving)
  | .leaving => do
    let w ← w.unlock (.thread t)
    pure (w.goto t .out)

/-- `nn_worker_routine` goes on. -/
def routine : Except Fault (Worker τ ι) :=
  match w.point with
  | .waiting | .finished => .ok w
  | .woken => .ok { w with owner := some .routine, point := .locked }
  | .locked => do
    -- `nn_efd_unsignal` reads what should be there.
    nnAssert w.efd
    pure { w with efd := false, point := .unsignalled }
  | .unsignalled => .ok { w with queues := w.queues.take .shared .copy, point := .taken }
  | .taken => do
    let w ← w.unlock .routine
    pure { w with point := .popping }
  | .popping => do
    let (queues, item) ← w.pop arg
    match item with
    | none => pure { w with queues := queues.init .copy, point := .waiting }
    | some .stop => pure { w with queues := queues, fed := w.fed ++ [.stop], point := .stopping }
    | some (.task x) => pure { w with queues := queues, point := .feeding x }
  | .feeding x => .ok { w with fed := w.fed ++ [.task x], point := .popping }
  | .stopping => do
    let (queues, item) ← w.pop arg
    match item with
    | none => pure { w with queues := queues.init .copy, point := .finished }
    | some j => pure { w with queues := queues, dropped := w.dropped ++ [j] }

/-- A task that is executed is not queued, and nobody else is executing it; the worker
    is terminated once. The mutex is locked when it is free. -/
def enabled : WorkerAction τ ι → Prop
  | .call t c => w.spot t = .out ∧
    match c with
    | .execute x => w.queues.itemIsinqueue (.task x) = false ∧
      ∀ t', (w.spot t').job ≠ some (.task x)
    | .cancel _ => True
    | .term => w.termed = false
  | .step t =>
    match w.spot t with
    | .out => False
    | .begun _ => w.owner = none
    | .locked _ | .pushed | .leaving => True
  | .wake => w.point = .waiting ∧ w.efd = true
  | .routine =>
    match w.point with
    | .waiting | .finished => False
    | .woken => w.owner = none
    | .locked | .unsignalled | .taken | .popping | .feeding _ | .stopping => True

/-- A thread that has locked the mutex has its call done. -/
def note (t : τ) : Worker τ ι :=
  match w.spot t with
  | .locked c => { w with queued := c.queue w.queued }
  | .out | .begun _ | .pushed | .leaving => w

/-- The routine takes over what is queued. -/
def noteTaken : Worker τ ι :=
  match w.point with
  | .unsignalled => { w with queued := [], taken := w.taken ++ w.queued }
  | .waiting | .woken | .locked | .taken | .popping | .feeding _ | .stopping | .finished => w

/-- Taking an action. What is to be queued and taken over is recorded here, whatever the
    functions make of it. -/
def exec : WorkerAction τ ι → Except Fault (Worker τ ι)
  | .call t c => .ok ({ w with termed := w.termed || decide (c = WorkerCall.term) }.goto t (.begun c))
  | .step t => (w.note t).advance t
  | .wake => .ok { w with point := .woken }
  | .routine => w.noteTaken.routine arg

/-- A worker, the routine naming `arg` when it takes something off its copy. -/
def system : System (Worker τ ι) (WorkerAction τ ι) Fault where
  init w := w = init
  enabled := enabled
  exec := exec arg

/-! ## What is right -/

/-- The shared queue holds what is queued. What has been taken over is fed in order, but for
    what is thrown away after the stop item, and what is still in the copy or in the hands of the
    routine; nothing is fed after the stop item, and when the routine waits or has finished,
    nothing of its batch stays in the copy. When the mutex is free, `efd` is signalled if a task is
    queued. -/
structure Right (w : Worker τ ι) (a : TaskQueue → List (Job ι)) : Prop where
  holds : Holds w.queues a
  queued : a .shared = w.queued
  taken : w.taken = w.fed ++ w.point.hand ++ w.dropped ++ a .copy
  not_met : w.point.met = false → .stop ∉ w.fed ∧ w.dropped = []
  met : w.point.met = true → ∃ as, w.fed = as ++ [.stop] ∧ .stop ∉ as
  emptied : w.point.emptied = true → a .copy = []
  signalled : w.owner = none → w.queued ≠ [] → w.efd = true

end Worker

/-! ## What is kept

By the mutex, by those about to push, by the descriptor, and by the queues. -/

section

variable {spot : τ → CallSpot ι} {point point' : RoutinePoint ι} {owner : Option (Locker τ)}
  {a a' : TaskQueue → List (Job ι)} {termed efd : Bool} {t : τ} {s : CallSpot ι} {j : Job ι}

/-- The mutex is locked by the one that is where it has locked it. -/
structure Locked (owner : Option (Locker τ)) (spot : τ → CallSpot ι) (point : RoutinePoint ι) :
    Prop where
  thread (t : τ) : owner = some (.thread t) ↔ (spot t).holds = true
  routine : owner = some .routine ↔ point.holds = true

/-- What is about to be pushed is not queued, and is pushed by one thread. -/
structure Pushing (spot : τ → CallSpot ι) (termed : Bool) (a : TaskQueue → List (Job ι)) :
    Prop where
  out {t : τ} {j : Job ι} : (spot t).job = some j → ∀ k, j ∉ a k
  unique {t t' : τ} {j : Job ι} : (spot t).job = some j → (spot t').job = some j → t = t'
  unstopped : termed = false → (∀ k, .stop ∉ a k) ∧ ∀ t, (spot t).job ≠ some .stop

/-- The descriptor is signalled if something is queued, unless it is just being signalled or
    the queue is just being moved; when the routine unsignals it, it is signalled. -/
structure Waking (efd : Bool) (spot : τ → CallSpot ι) (point : RoutinePoint ι)
    (shared : List (Job ι)) : Prop where
  queued : shared ≠ [] → efd = true ∨ (∃ t, spot t = .pushed) ∨ point = .unsignalled
  woken : point = .woken ∨ point = .locked → efd = true

namespace Locked

theorem of_routine (h : Locked owner spot point) (hp : point'.holds = point.holds) :
    Locked owner spot point' :=
  ⟨h.thread, by rw [hp]; exact h.routine⟩

/-- The routine locks the mutex, and unlocks it. -/
theorem lock_routine (h : Locked none spot point) (hp : point'.holds = true) :
    Locked (some .routine) spot point' :=
  ⟨fun t => iff_of_false (by simp) (mt (h.thread t).2 (by simp)), iff_of_true rfl hp⟩

theorem unlock_routine (h : Locked (some .routine) spot point) (hp : point'.holds = false) :
    Locked none spot point' :=
  ⟨fun t => iff_of_false (by simp) (mt (h.thread t).2 (by simp)), iff_of_false (by simp) (by simp [hp])⟩

variable [DecidableEq τ]

theorem of_thread (h : Locked owner spot point) (hs : s.holds = (spot t).holds) :
    Locked owner (update spot t s) point := by
  refine ⟨fun t' => ?_, h.routine⟩
  by_cases ht : t' = t
  · subst ht
    rw [update_self, hs]
    exact h.thread t'
  · rw [update_of_ne ht]
    exact h.thread t'

/-- A thread locks the mutex, and unlocks it. -/
theorem lock (h : Locked none spot point) (hs : s.holds = true) :
    Locked (some (.thread t)) (update spot t s) point := by
  refine ⟨fun t' => ?_, iff_of_false (by simp) (mt h.routine.2 (by simp))⟩
  by_cases ht : t' = t
  · subst ht
    exact iff_of_true rfl (by rwa [update_self])
  · rw [update_of_ne ht]
    exact iff_of_false (by simpa using Ne.symm ht) (mt (h.thread t').2 (by simp))

theorem unlock (h : Locked (some (.thread t)) spot point) (hs : s.holds = false) :
    Locked none (update spot t s) point := by
  refine ⟨fun t' => iff_of_false (by simp) ?_, iff_of_false (by simp) (mt h.routine.2 (by simp))⟩
  by_cases ht : t' = t
  · subst ht
    simp [hs]
  · rw [update_of_ne ht]
    exact mt (h.thread t').2 (by simpa using Ne.symm ht)

end Locked

namespace Pushing

/-- Nothing comes to the queues. -/
theorem of_subset (h : Pushing spot termed a) (ha : ∀ k, ∀ j ∈ a' k, ∃ k', j ∈ a k') :
    Pushing spot termed a' where
  out hj k hk := let ⟨k', hk'⟩ := ha k _ hk; h.out hj k' hk'
  unique := h.unique
  unstopped ht := ⟨fun k hk => let ⟨k', hk'⟩ := ha k _ hk; (h.unstopped ht).1 k' hk',
    (h.unstopped ht).2⟩

variable [DecidableEq τ]

/-- A thread goes on and pushes the same as before, or nothing more. -/
theorem of_thread (h : Pushing spot termed a) (hs : ∀ j, s.job = some j → (spot t).job = some j) :
    Pushing (update spot t s) termed a := by
  have hjob : ∀ {t' j}, (update spot t s t').job = some j → (spot t').job = some j := by
    intro t' j hj
    by_cases ht : t' = t
    · subst ht
      exact hs j (by rwa [update_self] at hj)
    · rwa [update_of_ne ht] at hj
  exact ⟨fun hj => h.out (hjob hj), fun hj hj' => h.unique (hjob hj) (hjob hj'),
    fun ht => ⟨(h.unstopped ht).1, fun t' hj => (h.unstopped ht).2 t' (hjob hj)⟩⟩

/-- A thread is about to push something new. -/
theorem call {termed' : Bool} (h : Pushing spot termed a) (hs : s.job = some j)
    (hout : ∀ k, j ∉ a k) (hnone : ∀ t', (spot t').job ≠ some j)
    (ht : termed' = false → termed = false ∧ j ≠ .stop) :
    Pushing (update spot t s) termed' a := by
  have hjob : ∀ {t' j'}, (update spot t s t').job = some j' →
      (t' = t ∧ j' = j) ∨ (spot t').job = some j' := by
    intro t' j' hj
    by_cases ht : t' = t
    · subst ht
      rw [update_self, hs] at hj
      exact .inl ⟨rfl, (Option.some.inj hj).symm⟩
    · exact .inr (by rwa [update_of_ne ht] at hj)
  refine ⟨fun hj => ?_, fun {t₁ t₂ j'} h₁ h₂ => ?_, fun hf => ?_⟩
  · rcases hjob hj with ⟨-, rfl⟩ | hj
    · exact hout
    · exact h.out hj
  · rcases hjob h₁, hjob h₂ with ⟨⟨ht₁, hj₁⟩ | h₁, ⟨ht₂, hj₂⟩ | h₂⟩
    · exact ht₁.trans ht₂.symm
    · exact absurd h₂ (hj₁ ▸ hnone _)
    · exact absurd h₁ (hj₂ ▸ hnone _)
    · exact h.unique h₁ h₂
  · obtain ⟨hf, hne⟩ := ht hf
    refine ⟨(h.unstopped hf).1, fun t' hj => ?_⟩
    rcases hjob hj with ⟨-, he⟩ | hj
    · exact hne he.symm
    · exact (h.unstopped hf).2 t' hj

/-- A thread has pushed. -/
theorem push (h : Pushing spot termed a) (hj : (spot t).job = some j) (hs : s.job = none) :
    Pushing (update spot t s) termed (update a .shared (a .shared ++ [j])) := by
  have hjob : ∀ {t' j'}, (update spot t s t').job = some j' → (spot t').job = some j' ∧ j' ≠ j := by
    intro t' j' hj'
    by_cases ht : t' = t
    · subst ht
      simp [hs] at hj'
    · rw [update_of_ne ht] at hj'
      exact ⟨hj', fun he => ht (h.unique (he ▸ hj') hj)⟩
  have hmem : ∀ {k j'}, j' ∈ update a .shared (a .shared ++ [j]) k → j' ∈ a k ∨ j' = j := by
    intro k j' hm
    by_cases hk : k = .shared
    · subst hk
      simpa using hm
    · exact .inl (by rwa [update_of_ne hk] at hm)
  refine ⟨fun hj' k hk => ?_, fun h₁ h₂ => h.unique (hjob h₁).1 (hjob h₂).1, fun hf => ⟨fun k hk => ?_,
    fun t' hj' => (h.unstopped hf).2 t' (hjob hj').1⟩⟩
  · rcases hmem hk with hk | hk
    · exact h.out (hjob hj').1 k hk
    · exact (hjob hj').2 hk
  · rcases hmem hk with hk | hk
    · exact (h.unstopped hf).1 k hk
    · exact (h.unstopped hf).2 t (hk ▸ hj)

end Pushing

namespace Waking

variable {shared shared' : List (Job ι)}

/-- Nothing comes to the queue. -/
theorem of_shared (h : Waking efd spot point shared) (hs : shared' ≠ [] → shared ≠ []) :
    Waking efd spot point shared' :=
  ⟨fun hne => h.queued (hs hne), h.woken⟩

/-- The routine goes on, with the descriptor as it was. -/
theorem of_routine (h : Waking efd spot point shared) (hp : point ≠ .unsignalled)
    (hw : point' = .woken ∨ point' = .locked → efd = true) : Waking efd spot point' shared :=
  ⟨fun hne => (h.queued hne).imp_right fun hq => .inl (hq.resolve_right hp), hw⟩

variable [DecidableEq τ]

/-- A thread goes on that was not about to signal. -/
theorem of_thread (h : Waking efd spot point shared) (hs : spot t ≠ .pushed) :
    Waking efd (update spot t s) point shared := by
  refine ⟨fun hne => (h.queued hne).imp_right fun hq => hq.imp_left ?_, h.woken⟩
  rintro ⟨t', ht'⟩
  have hne : t' ≠ t := fun he => hs (he ▸ ht')
  exact ⟨t', by rwa [update_of_ne hne]⟩

/-- A thread that has pushed is going to signal. -/
theorem push (h : Waking efd spot point shared) :
    Waking efd (update spot t .pushed) point shared' :=
  ⟨fun _ => .inr (.inl ⟨t, update_self _ _ _⟩), h.woken⟩

/-- Once it has signalled, the worker is to wake up. -/
theorem signal : Waking true (update spot t s) point shared :=
  ⟨fun _ => .inl rfl, fun _ => rfl⟩

end Waking

end

namespace Worker

variable [DecidableEq τ] [DecidableEq ι] {arg : PopArg} {w : Worker τ ι}
  {a : TaskQueue → List (Job ι)} {t : τ}

/-- What is kept. -/
structure Inv (w : Worker τ ι) (a : TaskQueue → List (Job ι)) : Prop where
  holds : Holds w.queues a
  queued : a .shared = w.queued
  taken : w.taken = w.fed ++ w.point.hand ++ w.dropped ++ a .copy
  not_met : w.point.met = false → .stop ∉ w.fed ∧ w.dropped = []
  met : w.point.met = true → ∃ as, w.fed = as ++ [.stop] ∧ .stop ∉ as
  emptied : w.point.emptied = true → a .copy = []
  pushes : (a .shared).length ≤ w.pushes
  locked : Locked w.owner w.spot w.point
  pushing : Pushing w.spot w.termed a
  waking : Waking w.efd w.spot w.point (a .shared)

omit [DecidableEq τ] [DecidableEq ι] in
theorem Inv.right (h : Inv w a) : Right w a where
  holds := h.holds
  queued := h.queued
  taken := h.taken
  not_met := h.not_met
  met := h.met
  emptied := h.emptied
  signalled ho hne := by
    rcases h.waking.queued (h.queued ▸ hne) with he | ⟨t, ht⟩ | hp
    · exact he
    · have := (h.locked.thread t).2 (by rw [ht]; rfl)
      simp [ho] at this
    · have := h.locked.routine.2 (by rw [hp]; rfl)
      simp [ho] at this

/-! ### The threads -/

theorem inv_call (h : Inv w a) {c : WorkerCall ι} (he : w.enabled (.call t c)) :
    Inv ({ w with termed := w.termed || decide (c = WorkerCall.term) }.goto t (.begun c)) a := by
  obtain ⟨hout, hc⟩ := he
  refine { h with
    locked := h.locked.of_thread (by rw [hout]; rfl)
    pushing := ?_
    waking := h.waking.of_thread (by rw [hout]; simp) }
  cases c with
  | execute x =>
    refine h.pushing.call rfl (h.holds.isinqueue_eq_false.1 hc.1) hc.2 fun hf => ?_
    simpa [goto] using hf
  | cancel x =>
    have := h.pushing.of_thread (t := t) (s := .begun (.cancel x)) (by simp [CallSpot.job])
    simpa [goto] using this
  | term =>
    obtain ⟨hstop, hnone⟩ := h.pushing.unstopped hc
    exact h.pushing.call rfl hstop hnone fun hf => by simp [goto] at hf

/-- A thread pushes a task, or the stop item. -/
theorem inv_push (h : Inv w a) {c : WorkerCall ι} {j : Job ι} (hs : w.spot t = .locked c)
    (hj : (CallSpot.locked c).job = some j) :
    ∃ w', Worker.push { w with queued := w.queued ++ [j] } j = .ok w' ∧
      Inv (w'.goto t .pushed) (update a .shared (a .shared ++ [j])) := by
  rw [← hs] at hj
  obtain ⟨queues, hq, hh⟩ := h.holds.push_spec (h.pushing.out hj) .shared
  have hcopy : update a .shared (a .shared ++ [j]) .copy = a .copy := update_of_ne (by decide) _ _
  refine ⟨{ w with queued := w.queued ++ [j], queues := queues, pushes := w.pushes + 1 },
    by simp [Worker.push, hq], ⟨hh, ?_, ?_, h.not_met, h.met, fun hp => ?_, ?_,
      h.locked.of_thread (by rw [hs]; rfl), h.pushing.push hj rfl, h.waking.push⟩⟩
  · rw [update_self, h.queued]
    rfl
  · rw [hcopy]
    exact h.taken
  · rw [hcopy]
    exact h.emptied hp
  · simpa [goto] using h.pushes

/-- A thread cancels a task: it is taken off, unless the routine has it. -/
theorem inv_cancel (h : Inv w a) {x : ι} (hs : w.spot t = .locked (.cancel x)) :
    ∃ w', Worker.remove { w with queued := w.queued.erase (.task x) } x = .ok w' ∧
      Inv (w'.goto t .leaving) (update a .shared ((a .shared).erase (.task x))) := by
  obtain ⟨queues, hq, hh⟩ := h.holds.remove_spec (k := .shared) (Nat.lt_succ_of_le h.pushes) (.task x)
  have hsub : ∀ k, ∀ j ∈ update a .shared ((a .shared).erase (.task x)) k, ∃ k', j ∈ a k' :=
    fun k j hj => ⟨k, mem_of_mem_update (fun _ => List.mem_of_mem_erase) hj⟩
  have hcopy : update a .shared ((a .shared).erase (.task x)) .copy = a .copy :=
    update_of_ne (by decide) _ _
  refine ⟨{ w with queued := w.queued.erase (.task x), queues := queues },
    by simp [Worker.remove, hq], ⟨hh, ?_, ?_, h.not_met, h.met, fun hp => ?_, ?_,
      h.locked.of_thread (by rw [hs]; rfl), ?_, ?_⟩⟩
  · rw [update_self, h.queued]
    rfl
  · rw [hcopy]
    exact h.taken
  · rw [hcopy]
    exact h.emptied hp
  · exact Nat.le_trans (by simpa using List.length_erase_le) h.pushes
  · exact (h.pushing.of_subset hsub).of_thread (by simp [CallSpot.job])
  · refine (h.waking.of_shared fun hne => ?_).of_thread (by rw [hs]; simp)
    rw [update_self] at hne
    rintro he
    simp [he] at hne

/-- A thread goes on with its call. -/
theorem inv_advance (h : Inv w a) (he : w.enabled (.step t)) :
    ∃ w', (w.note t).advance t = .ok w' ∧ ∃ a', Inv w' a' := by
  rw [enabled] at he
  cases hs : w.spot t with
  | out => simp [hs] at he
  | begun c =>
    rw [hs] at he
    have hl := h.locked
    rw [show w.owner = none from he] at hl
    exact ⟨{ w with owner := some (.thread t) }.goto t (.locked c), by simp [note, advance, hs], a, { h with
      locked := hl.lock rfl
      pushing := h.pushing.of_thread (by rw [hs]; cases c <;> exact fun _ hj => hj)
      waking := h.waking.of_thread (by rw [hs]; simp) }⟩
  | locked c =>
    cases c with
    | execute x =>
      obtain ⟨w', hp, h'⟩ := inv_push h hs (j := .task x) rfl
      exact ⟨_, by simp [note, advance, hs, WorkerCall.queue, hp], _, h'⟩
    | cancel x =>
      obtain ⟨w', hr, h'⟩ := inv_cancel h hs
      exact ⟨_, by simp [note, advance, hs, WorkerCall.queue, hr], _, h'⟩
    | term =>
      obtain ⟨w', hp, h'⟩ := inv_push h hs (j := .stop) rfl
      exact ⟨_, by simp [note, advance, hs, WorkerCall.queue, hp], _, h'⟩
  | pushed =>
    exact ⟨{ w with efd := true }.goto t .leaving, by simp [note, advance, hs], a, { h with
      locked := h.locked.of_thread (by rw [hs]; rfl)
      pushing := h.pushing.of_thread (by simp [CallSpot.job])
      waking := .signal }⟩
  | leaving =>
    have ho : w.owner = some (.thread t) := (h.locked.thread t).2 (by rw [hs]; rfl)
    have hl := h.locked
    rw [ho] at hl
    exact ⟨{ w with owner := none }.goto t .out, by simp [note, advance, hs, Worker.unlock, ho], a, { h with
      locked := hl.unlock rfl
      pushing := h.pushing.of_thread (by simp [CallSpot.job])
      waking := h.waking.of_thread (by rw [hs]; simp) }⟩

/-! ### The routine -/

omit [DecidableEq τ] in
theorem inv_wake (h : Inv w a) (he : w.enabled .wake) : Inv { w with point := .woken } a := by
  obtain ⟨hp, hefd⟩ := he
  exact { h with
    taken := by rw [h.taken, hp]; rfl
    not_met := fun _ => h.not_met (by rw [hp]; rfl)
    met := fun hm => by simp [RoutinePoint.met] at hm
    emptied := fun _ => h.emptied (by rw [hp]; rfl)
    locked := h.locked.of_routine (by rw [hp]; rfl)
    waking := h.waking.of_routine (by rw [hp]; simp) fun _ => hefd }

omit [DecidableEq τ] [DecidableEq ι] in
/-- The routine takes the queue over, having unsignalled the descriptor. -/
theorem inv_take (h : Inv w a) (hp : w.point = .unsignalled) :
    Inv { w with
        queued := []
        taken := w.taken ++ w.queued
        queues := w.queues.take .shared .copy
        point := .taken }
      (update (update a .copy (a .shared)) .shared []) := by
  have hcopy := h.emptied (by rw [hp]; rfl)
  have hsub : ∀ k, ∀ j ∈ update (update a .copy (a .shared)) .shared [] k, ∃ k', j ∈ a k' := by
    intro k j hj
    cases k with
    | shared => simp at hj
    | copy => exact ⟨.shared, by simpa [update_of_ne] using hj⟩
  refine ⟨h.holds.take_spec (by decide) hcopy, update_self _ _ _, ?_, fun _ => h.not_met (by rw [hp]; rfl),
    fun hm => by simp [RoutinePoint.met] at hm, fun hm => by simp [RoutinePoint.emptied] at hm,
    by simp, h.locked.of_routine (by rw [hp]; rfl), h.pushing.of_subset hsub, ?_⟩
  · show w.taken ++ w.queued = _
    rw [h.taken, hp, hcopy, ← h.queued]
    simp [RoutinePoint.hand, update_of_ne]
  · exact ⟨fun hne => by simp at hne, fun hw => by simp at hw⟩

omit [DecidableEq τ] in
/-- What the routine finds when it takes something off its copy. -/
theorem pop_spec (h : Inv w a) (harg : arg = .tasks) :
    (a .copy = [] ∧ w.pop arg = .ok (w.queues, none)) ∨
      ∃ j js queues, a .copy = j :: js ∧ w.pop arg = .ok (queues, some j) ∧
        Holds queues (update a .copy js) := by
  subst harg
  cases hc : a .copy with
  | nil => exact .inl ⟨rfl, h.holds.pop_nil hc⟩
  | cons j js =>
    obtain ⟨queues, hq, hh⟩ := h.holds.pop_cons hc
    exact .inr ⟨j, js, queues, rfl, hq, hh⟩

omit [DecidableEq τ] [DecidableEq ι] in
/-- Something is taken off the copy, and goes where `hacc` says. -/
theorem Inv.pop (h : Inv w a) {queues : Queues TaskQueue (Job ι)} {j : Job ι}
    {js fed dropped : List (Job ι)} {p : RoutinePoint ι} (hc : a .copy = j :: js)
    (hh : Holds queues (update a .copy js))
    (hacc : w.fed ++ w.point.hand ++ w.dropped ++ [j] = fed ++ p.hand ++ dropped)
    (hnot : p.met = false → .stop ∉ fed ∧ dropped = [])
    (hmet : p.met = true → ∃ as, fed = as ++ [.stop] ∧ .stop ∉ as)
    (hp : p.emptied = false) (hl : p.holds = w.point.holds) (hw : w.point ≠ .unsignalled) :
    Inv { w with queues := queues, point := p, fed := fed, dropped := dropped }
      (update a .copy js) := by
  have hshared : update a .copy js .shared = a .shared := update_of_ne (by decide) _ _
  have hsub : ∀ k, ∀ j' ∈ update a .copy js k, ∃ k', j' ∈ a k' :=
    fun k j' hj => ⟨k, mem_of_mem_update (fun _ hm => hc ▸ List.mem_cons_of_mem j hm) hj⟩
  refine ⟨hh, hshared.trans h.queued, ?_, hnot, hmet, fun hm => by simp [hp] at hm,
    by rw [hshared]; exact h.pushes, h.locked.of_routine hl, h.pushing.of_subset hsub, ?_⟩
  · show w.taken = fed ++ p.hand ++ dropped ++ _
    rw [h.taken, ← hacc, hc, update_self]
    simp
  · rw [hshared]
    refine h.waking.of_routine hw ?_
    rintro (rfl | rfl) <;> simp [RoutinePoint.emptied] at hp

theorem inv_popping (h : Inv w a) (hp : w.point = .popping) (harg : arg = .tasks) :
    ∃ w', w.routine arg = .ok w' ∧ ∃ a', Inv w' a' := by
  obtain ⟨hstop, hdropped⟩ := h.not_met (by rw [hp]; rfl)
  obtain ⟨hc, hx⟩ | ⟨j, js, queues, hc, hx, hh⟩ := pop_spec h harg
  · refine ⟨{ w with point := .waiting }, by simp [routine, hp, hx, h.holds.init_eq hc], a, { h with
      taken := by rw [h.taken, hp]; rfl
      not_met := fun _ => ⟨hstop, hdropped⟩
      met := fun hm => by simp [RoutinePoint.met] at hm
      emptied := fun _ => hc
      locked := h.locked.of_routine (by rw [hp]; rfl)
      waking := h.waking.of_routine (by rw [hp]; simp) (by simp) }⟩
  · cases j with
    | task x =>
      refine ⟨{ w with queues := queues, point := .feeding x }, by simp [routine, hp, hx], _,
        h.pop (p := .feeding x) hc hh ?_ (fun _ => ⟨hstop, hdropped⟩)
          (fun hm => by simp [RoutinePoint.met] at hm) rfl (by rw [hp]; rfl) (by simp [hp])⟩
      simp [hp, hdropped, RoutinePoint.hand]
    | stop =>
      refine ⟨{ w with queues := queues, point := .stopping, fed := w.fed ++ [.stop] },
        by simp [routine, hp, hx], _,
        h.pop (p := .stopping) hc hh ?_ (fun hm => by simp [RoutinePoint.met] at hm)
          (fun _ => ⟨w.fed, rfl, hstop⟩) rfl (by rw [hp]; rfl) (by simp [hp])⟩
      simp [hp, hdropped, RoutinePoint.hand]

/-- While it stops, it throws away what is left of its copy. -/
theorem inv_stopping (h : Inv w a) (hp : w.point = .stopping) (harg : arg = .tasks) :
    ∃ w', w.routine arg = .ok w' ∧ ∃ a', Inv w' a' := by
  have hmet := h.met (by rw [hp]; rfl)
  obtain ⟨hc, hx⟩ | ⟨j, js, queues, hc, hx, hh⟩ := pop_spec h harg
  · exact ⟨{ w with point := .finished }, by simp [routine, hp, hx, h.holds.init_eq hc], a, { h with
      taken := by rw [h.taken, hp]; rfl
      not_met := fun hm => by simp [RoutinePoint.met] at hm
      met := fun _ => hmet
      emptied := fun _ => hc
      locked := h.locked.of_routine (by rw [hp]; rfl)
      waking := h.waking.of_routine (by rw [hp]; simp) (by simp) }⟩
  · refine ⟨{ w with queues := queues, dropped := w.dropped ++ [j] }, by simp [routine, hp, hx], _,
      h.pop (p := w.point) hc hh (by simp) (fun hm => ?_) (fun _ => hmet) ?_ rfl (by simp [hp])⟩
    · simp [hp, RoutinePoint.met] at hm
    · rw [hp]
      rfl

omit [DecidableEq τ] [DecidableEq ι] in
theorem noteTaken_of_ne (hp : w.point ≠ .unsignalled) : w.noteTaken = w := by
  unfold noteTaken
  split
  · next hu => exact absurd hu hp
  all_goals rfl

/-- The routine goes on, unless it is to take something off what is not a queue. -/
theorem inv_routine (h : Inv w a) (he : w.enabled .routine)
    (harg : arg = .tasks ∨ w.point.pops = false) :
    ∃ w', w.noteTaken.routine arg = .ok w' ∧ ∃ a', Inv w' a' := by
  by_cases hu : w.point = .unsignalled
  · exact ⟨_, by simp [noteTaken, routine, hu], _, inv_take h hu⟩
  rw [noteTaken_of_ne hu]
  have hl := h.locked
  have htaken := h.taken
  cases hp : w.point with
  | waiting => simp [enabled, hp] at he
  | finished => simp [enabled, hp] at he
  | woken =>
    have ho : w.owner = none := by simpa [enabled, hp] using he
    rw [ho] at hl
    exact ⟨{ w with owner := some .routine, point := .locked }, by simp [routine, hp], a, { h with
      taken := by rw [htaken, hp]; rfl
      not_met := fun _ => h.not_met (by rw [hp]; rfl)
      met := fun hm => by simp [RoutinePoint.met] at hm
      emptied := fun _ => h.emptied (by rw [hp]; rfl)
      locked := hl.lock_routine rfl
      waking := h.waking.of_routine (by simp [hp]) fun _ => h.waking.woken (.inl hp) }⟩
  | locked =>
    have hefd := h.waking.woken (.inr hp)
    exact ⟨{ w with efd := false, point := .unsignalled }, by simp [routine, hp, hefd], a, { h with
      taken := by rw [htaken, hp]; rfl
      not_met := fun _ => h.not_met (by rw [hp]; rfl)
      met := fun hm => by simp [RoutinePoint.met] at hm
      emptied := fun _ => h.emptied (by rw [hp]; rfl)
      locked := hl.of_routine (by rw [hp]; rfl)
      waking := ⟨fun _ => .inr (.inr rfl), fun hw => by simp at hw⟩ }⟩
  | unsignalled => exact absurd hp hu
  | taken =>
    have ho : w.owner = some .routine := hl.routine.2 (by rw [hp]; rfl)
    rw [ho] at hl
    exact ⟨{ w with owner := none, point := .popping }, by simp [routine, hp, Worker.unlock, ho], a,
      { h with
        taken := by rw [htaken, hp]; rfl
        not_met := fun _ => h.not_met (by rw [hp]; rfl)
        met := fun hm => by simp [RoutinePoint.met] at hm
        emptied := fun hm => by simp [RoutinePoint.emptied] at hm
        locked := hl.unlock_routine rfl
        waking := h.waking.of_routine (by simp [hp]) (by simp) }⟩
  | popping => exact inv_popping h hp (harg.resolve_right (by simp [hp, RoutinePoint.pops]))
  | feeding x =>
    obtain ⟨hstop, hdropped⟩ := h.not_met (by rw [hp]; rfl)
    exact ⟨{ w with fed := w.fed ++ [.task x], point := .popping }, by simp [routine, hp], a,
      { h with
        taken := by simp [htaken, hp, hdropped, RoutinePoint.hand]
        not_met := fun _ => ⟨by simpa using hstop, hdropped⟩
        met := fun hm => by simp [RoutinePoint.met] at hm
        emptied := fun hm => by simp [RoutinePoint.emptied] at hm
        locked := hl.of_routine (by rw [hp]; rfl)
        waking := h.waking.of_routine (by simp [hp]) (by simp) }⟩
  | stopping => exact inv_stopping h hp (harg.resolve_right (by simp [hp, RoutinePoint.pops]))

/-! ### Runs -/

/-- The routine calls `nn_queue_pop`. -/
def Pops (w : Worker τ ι) (act : WorkerAction τ ι) : Prop :=
  act = .routine ∧ w.point.pops = true

theorem inv_step (arg : PopArg) {act : WorkerAction τ ι} (h : Inv w a) (he : w.enabled act)
    (harg : arg = .tasks ∨ ¬ Pops w act) : ∃ w', w.exec arg act = .ok w' ∧ ∃ a', Inv w' a' := by
  cases act with
  | call t c => exact ⟨_, rfl, a, inv_call h he⟩
  | step t => exact inv_advance h he
  | wake => exact ⟨_, rfl, a, inv_wake h he⟩
  | routine => exact inv_routine h he (harg.imp_right fun hp => by simpa [Pops] using hp)

omit [DecidableEq τ] [DecidableEq ι] in
theorem inv_init : Inv (init : Worker τ ι) fun _ => [] where
  holds := ⟨⟨fun _ => List.nodup_nil, fun hx => absurd hx List.not_mem_nil⟩, fun _ => rfl,
    fun _ => rfl, fun _ => by simp [init]⟩
  queued := rfl
  taken := rfl
  not_met _ := ⟨List.not_mem_nil, rfl⟩
  met hm := by simp [init, RoutinePoint.met] at hm
  emptied _ := rfl
  pushes := Nat.le_refl 0
  locked := ⟨fun _ => by simp [init, CallSpot.holds], by simp [init, RoutinePoint.holds]⟩
  pushing := ⟨fun hj => by simp [init, CallSpot.job] at hj, fun hj => by simp [init, CallSpot.job] at hj,
    fun _ => ⟨fun _ => List.not_mem_nil, fun _ => by simp [init, CallSpot.job]⟩⟩
  waking := ⟨fun hne => absurd rfl hne, fun hw => by simp [init] at hw⟩

/-- The runs of the code that are right are those in which the routine takes nothing
    off its copy: it names `&task` there. -/
theorem worker_correct_iff (as : List (WorkerAction τ ι)) :
    (system .task).Correct (fun w => ∃ a, Right w a) (fun _ _ _ => True) (init : Worker τ ι) as ↔
      (system .task).Meets (fun w act => ¬ Pops w act) init as := by
  refine System.correct_iff_meets (I := fun w => ∃ a, Inv w a) (fun _ ⟨a, h⟩ => ⟨a, h.right⟩)
    ?_ ?_ ⟨_, inv_init⟩ as
  · rintro w act ⟨a, h⟩ he hc
    obtain ⟨w', hx, h'⟩ := inv_step .task h he (.inr hc)
    exact ⟨w', hx, trivial, h'⟩
  · rintro w act w' _ _ hx _ _ ⟨rfl, hp⟩
    cases hpt : w.point <;> simp [hpt, RoutinePoint.pops] at hp
    all_goals simp [system, exec, noteTaken, routine, hpt, pop] at hx

/-- One task is executed, and the routine is woken: it fails where it is to take the
    task off its copy. -/
theorem worker_not_correct :
    ¬ (system .task).Correct (fun w => ∃ a, Right w a) (fun _ _ _ => True)
      (init : Worker Unit Unit)
      [.call () (.execute ()), .step (), .step (), .step (), .step (), .wake, .routine, .routine,
        .routine, .routine, .routine] := by
  intro h
  have h := h.step ⟨rfl, rfl, fun _ => by simp [init, CallSpot.job]⟩ rfl
  have h := (((h.step rfl rfl).step trivial rfl).step trivial rfl).step trivial rfl
  have h := ((h.step ⟨rfl, rfl⟩ rfl).step rfl rfl).step trivial rfl
  have h := (h.step trivial rfl).step trivial rfl
  obtain ⟨_, hx, -⟩ := h.2 trivial
  cases hx

/-- With `&tasks` there, every run is right. -/
theorem worker_correct (as : List (WorkerAction τ ι)) :
    (system .tasks).Correct (fun w => ∃ a, Right w a) (fun _ _ _ => True) (init : Worker τ ι) as := by
  refine System.correct_of_step (I := fun w => ∃ a, Inv w a) (fun _ ⟨a, h⟩ => ⟨a, h.right⟩) ?_
    ⟨_, inv_init⟩ as
  rintro w act ⟨a, h⟩ he
  obtain ⟨w', hx, h'⟩ := inv_step .tasks h he (.inl rfl)
  exact ⟨w', hx, trivial, h'⟩

end Worker

end Nanomsg
