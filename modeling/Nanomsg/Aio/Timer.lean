import Nanomsg.Aio.Fsm
import Nanomsg.Aio.Timerset
import Nanomsg.Lib.System

/-!
# Timers

`timer.c`: a timer is a state machine in the context of its owner, and its deadline is
kept by a worker, another thread. `nn_timer_start` and `nn_timer_stop` leave
tasks to the worker, which adds the handle of the timer to its timer set and
removes it; the worker tells the timer when its time is over.

Any number of timers `τ` share the worker, which executes its tasks in the order in
which they came, others among them. It takes a task off its queue, or a handle out of its timer
set, before it enters the context of the timer: there the owner may be first. When it
enters, `nn_ctx_leave` has processed what the timer has raised before.

`log` records what happens to each timer; `Life` says what may. `timers_correct`: in
every run nothing fails, every log is a life, and a timer that is idle can be
started again or terminated.
-/

namespace Nanomsg

open Function Transition

variable {τ : Type}

/-- `NN_TIMER_STATE_*`. -/
inductive TimerState
  | idle
  | active
  | stopping
  deriving DecidableEq, Repr

/-- The tasks of a timer. -/
inductive TimerTask
  | start
  | stop
  deriving DecidableEq

/-- `NN_TIMER_SRC_START_TASK` and `NN_TIMER_SRC_STOP_TASK`. -/
def TimerTask.src : TimerTask → ℤ
  | start => 1
  | stop => 2

/-- `NN_WORKER_TASK_EXECUTE`. -/
abbrev workerTaskExecute : ℤ := 1

/-- `NN_WORKER_TIMER_TIMEOUT`. -/
abbrev workerTimerTimeout : ℤ := 1

/-- What the worker points to when it feeds a timer: the `wtimer` of one, or a task. -/
inductive TimerPtr (τ : Type)
  | wtimer (x : τ)
  | task (x : τ) (k : TimerTask)
  deriving DecidableEq

/-- What happens to a timer: it is started, raises `NN_TIMER_TIMEOUT`, is asked to
    stop, and raises `NN_TIMER_STOPPED`. -/
inductive TimerEvent
  | started
  | timeout
  | stop
  | stopped
  deriving DecidableEq

/-- `struct nn_timer`, with the state of its `fsm`. Of its event `done` and of the one
    in `fsm` it is known whether they are queued. -/
structure Timer where
  fsm : FsmState
  state : TimerState
  timeout : ℤ
  doneQueued : Bool
  stoppedQueued : Bool
  deriving DecidableEq

/-- `nn_timer_init`. -/
def Timer.init : Timer := ⟨.idle, .idle, -1, false, false⟩

/-- A task in the queue of the worker. -/
inductive WorkerTask (τ : Type)
  | timer (x : τ) (k : TimerTask)
  /-- One that no timer has. -/
  | other (id : ℕ)
  deriving DecidableEq

/-- Where the worker is. -/
inductive WorkerPoint (τ : Type)
  | free
  /-- It has the handle of a timer from `nn_timerset_event`. -/
  | expired (x : τ)
  /-- It has a task from its queue. -/
  | popped (t : WorkerTask τ)
  deriving DecidableEq

/-- The timers of a worker, and of the worker the tasks and the timer set. -/
structure Timers (τ : Type) where
  timer : τ → Timer
  timerset : Timerset τ
  tasks : List (WorkerTask τ)
  point : WorkerPoint τ
  log : τ → List TimerEvent

namespace Timers

variable [DecidableEq τ] (w : Timers τ)

/-- The timers just made. -/
def init (deadline : τ → UInt64) : Timers τ :=
  ⟨fun _ => .init, .init deadline, [], .free, fun _ => []⟩

/-- A timer becomes `v`. -/
def set (x : τ) (v : Timer) : Timers τ := { w with timer := update w.timer x v }

/-- Something happens to a timer. -/
def record (x : τ) (e : TimerEvent) : Timers τ := { w with log := update w.log x (w.log x ++ [e]) }

/-! ## The worker -/

/-- `nn_worker_execute`: `nn_queue_push` finds the task in no queue. -/
def workerExecute (t : WorkerTask τ) : Except Fault (Timers τ) := do
  nnAssert (t ∉ w.tasks)
  pure { w with tasks := w.tasks ++ [t] }

/-- `nn_worker_add_timer`, the clock reading `now`. -/
def workerAddTimer (now : UInt64) (timeout : ℤ) (x : τ) : Except Fault (Timers τ) := do
  let (timerset, _) ← w.timerset.add now timeout x
  pure { w with timerset := timerset }

/-- `nn_worker_rm_timer`. -/
def workerRmTimer (x : τ) : Except Fault (Timers τ) := do
  let (timerset, _) ← w.timerset.rm x
  pure { w with timerset := timerset }

/-! ## The timer -/

/-- `nn_fsm_raise(&timer->fsm, &timer->done, NN_TIMER_TIMEOUT)`. -/
def raiseDone (x : τ) : Except Fault (Timers τ) := do
  nnAssert (!(w.timer x).doneQueued)
  pure ((w.set x { w.timer x with doneQueued := true }).record x .timeout)

/-- `nn_fsm_stopped(&timer->fsm, NN_TIMER_STOPPED)`. -/
def fsmStopped (x : τ) : Except Fault (Timers τ) := do
  nnAssert (!(w.timer x).stoppedQueued)
  pure ((w.set x { w.timer x with fsm := .idle, stoppedQueued := true }).record x .stopped)

/-- `nn_timer_shutdown`. -/
def shutdown (x : τ) (src type : ℤ) (_srcptr : Option (TimerPtr τ)) :
    Except Fault (Timers τ) := do
  if src = Fsm.action ∧ type = Fsm.stop then
    (w.set x { w.timer x with state := .stopping }).workerExecute (.timer x .stop)
  else if (w.timer x).state = .stopping then
    if src ≠ TimerTask.stop.src then
      pure w
    else do
      nnAssert (type = workerTaskExecute)
      let w ← w.workerRmTimer x
      let w := w.set x { w.timer x with state := .idle }
      w.fsmStopped x
  else
    .error .badState

/-- `nn_timer_handler`, the clock reading `now` if it is read. -/
def handler (now : UInt64) (x : τ) (src type : ℤ) (srcptr : Option (TimerPtr τ)) :
    Except Fault (Timers τ) :=
  match (w.timer x).state with
  | .idle =>
    if src = Fsm.action then
      if type = Fsm.start then
        (w.set x { w.timer x with state := .active }).workerExecute (.timer x .start)
      else
        .error .badAction
    else
      .error .badSource
  | .active =>
    if src = TimerTask.start.src then do
      nnAssert (type = workerTaskExecute)
      nnAssert ((w.timer x).timeout ≥ 0)
      let w ← w.workerAddTimer now (w.timer x).timeout x
      pure (w.set x { w.timer x with timeout := -1 })
    else if srcptr = some (.wtimer x) then
      if type = workerTimerTimeout then do
        nnAssert ((w.timer x).timeout = -1)
        w.raiseDone x
      else
        .error .badAction
    else
      .error .badSource
  | .stopping => .error .badState

/-- `nn_fsm_feed` of the machine of a timer. -/
def fsmFeed (now : UInt64) (x : τ) (src type : ℤ) (srcptr : Option (TimerPtr τ)) :
    Except Fault (Timers τ) :=
  Fsm.feed (w.timer x).fsm (w.handler now x) (w.shutdown x) src type srcptr

/-- `nn_timer_start`; `nn_fsm_start` feeds `NN_FSM_START`. -/
def start (x : τ) (timeout : ℤ) : Except Fault (Timers τ) := do
  nnAssert (timeout ≥ 0)
  let w := w.set x { w.timer x with timeout := timeout, fsm := .active }
  w.fsmFeed 0 x Fsm.action Fsm.start none

/-- `nn_timer_stop`; `nn_fsm_stop` feeds `NN_FSM_STOP` when the machine is stopping. -/
def stop (x : τ) : Except Fault (Timers τ) :=
  let w := w.set x { w.timer x with fsm := .stopping }
  w.fsmFeed 0 x Fsm.action Fsm.stop none

/-- What `nn_timer_term` asserts: the state is idle, the event is not queued, the
    handle not active and no task queued. -/
def term (x : τ) : Except Fault Unit := do
  nnAssert ((w.timer x).state = .idle)
  nnAssert (!(w.timer x).doneQueued)
  nnAssert (!w.timerset.hndlIsactive x)
  nnAssert (.timer x .stop ∉ w.tasks)
  nnAssert (.timer x .start ∉ w.tasks)

end Timers

/-- What the owners and the worker do. -/
inductive TimersAction (τ : Type)
  /-- `nn_timer_start` and `nn_timer_stop`. -/
  | start (x : τ) (timeout : ℤ)
  | stop (x : τ)
  /-- `nn_ctx_leave` processes an event of a timer. -/
  | processDone (x : τ)
  | processStopped (x : τ)
  /-- Somebody else leaves a task to the worker. -/
  | execute (id : ℕ)
  /-- `nn_timerset_event` in `nn_worker_routine`, the clock reading `now`. -/
  | expire (now : UInt64)
  /-- The worker takes the first task off its queue. -/
  | pop
  /-- The worker enters the context and feeds what it has. -/
  | feed (now : UInt64)

namespace Timers

variable [DecidableEq τ] (w : Timers τ)

/-- Nothing that the timer has raised waits for `nn_ctx_leave`. -/
def Settled (x : τ) : Prop :=
  (w.timer x).doneQueued = false ∧ (w.timer x).stoppedQueued = false

/-- A timer is started when it is idle, and stopped when it is started. -/
def enabled : TimersAction τ → Prop
  | .start x timeout => (w.timer x).fsm = .idle ∧ 0 ≤ timeout
  | .stop x => (w.timer x).fsm = .active
  | .processDone x => (w.timer x).doneQueued = true
  | .processStopped x => (w.timer x).stoppedQueued = true
  | .execute id => .other id ∉ w.tasks
  | .expire _ => w.point = .free
  | .pop => w.point = .free ∧ w.tasks ≠ []
  | .feed _ =>
    match w.point with
    | .free => False
    | .expired x | .popped (.timer x _) => w.Settled x
    | .popped (.other _) => True

/-- Taking an action. That a timer is started or asked to stop is recorded here, whatever
    the functions make of it. -/
def exec : TimersAction τ → Except Fault (Timers τ)
  | .start x timeout => (w.record x .started).start x timeout
  | .stop x => (w.record x .stop).stop x
  | .processDone x => .ok (w.set x { w.timer x with doneQueued := false })
  | .processStopped x => .ok (w.set x { w.timer x with stoppedQueued := false })
  | .execute id => w.workerExecute (.other id)
  | .expire now => do
    let (timerset, rc, hndl) ← w.timerset.event now
    nnAssert (rc = 0 ∨ rc = -Errno.eagain)
    match hndl with
    | none => pure { w with timerset := timerset }
    | some x => pure { w with timerset := timerset, point := .expired x }
  | .pop =>
    match w.tasks with
    | [] => .ok w
    | t :: ts => .ok { w with tasks := ts, point := .popped t }
  | .feed now =>
    match w.point with
    | .free => .ok w
    | .expired x =>
      { w with point := .free }.fsmFeed now x (-1) workerTimerTimeout (some (.wtimer x))
    | .popped (.timer x k) =>
      { w with point := .free }.fsmFeed now x k.src workerTaskExecute (some (.task x k))
    | .popped (.other _) => .ok { w with point := .free }

/-- The timers of a worker. -/
def system : System (Timers τ) (TimersAction τ) Fault where
  init w := ∃ deadline, w = init deadline
  enabled := enabled
  exec := exec

end Timers

/-! ## Lives -/

/-- Where a timer is in its life. -/
inductive Life
  | idle
  | running
  /-- It has raised `NN_TIMER_TIMEOUT`. -/
  | fired
  | stopping
  deriving DecidableEq

/-- A timeout is raised once at most for each start, and not when a stop was
    requested; each stop is answered once. -/
def Life.step : Life → TimerEvent → Option Life
  | idle, .started => some running
  | running, .timeout => some fired
  | running, .stop | fired, .stop => some stopping
  | stopping, .stopped => some idle
  | _, _ => none

/-- Where the events of a timer leave it, if they are a life. -/
def Life.after (es : List TimerEvent) : Option Life := es.foldlM step idle

theorem Life.after_append (es : List TimerEvent) (e : TimerEvent) :
    Life.after (es ++ [e]) = (Life.after es).bind (step · e) := by
  simp [Life.after, List.foldlM_append]

/-! ## What is kept -/

/-- The task, if it is one of the timer. -/
def WorkerTask.of [DecidableEq τ] (x : τ) : WorkerTask τ → Option TimerTask
  | timer y k => if y = x then some k else none
  | other _ => none

/-- The task that the worker has. -/
def WorkerPoint.task : WorkerPoint τ → List (WorkerTask τ)
  | popped t => [t]
  | free | expired _ => []

/-- The worker has the handle of the timer. -/
def WorkerPoint.has [DecidableEq τ] (x : τ) : WorkerPoint τ → Bool
  | expired y => y = x
  | free | popped _ => false

/-- What there is of a timer: the machine, its tasks that have not been executed, in
    order, and whether the handle is in the timer set or with the worker. -/
structure TimerView where
  timer : Timer
  tasks : List TimerTask
  inSet : Bool
  expired : Bool

/-- A timer at each point of its life. -/
inductive Stage (v : TimerView) : Life → Prop
  | idle : v.timer.fsm = .idle → v.timer.state = .idle → v.timer.doneQueued = false →
      v.tasks = [] → v.inSet = false → v.expired = false → Stage v .idle
  | starting : v.timer.fsm = .active → v.timer.state = .active → 0 ≤ v.timer.timeout →
      v.tasks = [.start] → v.inSet = false → v.expired = false → Stage v .running
  | armed : v.timer.fsm = .active → v.timer.state = .active → v.timer.timeout = -1 →
      v.tasks = [] → v.inSet = true → v.expired = false → Stage v .running
  | expired : v.timer.fsm = .active → v.timer.state = .active → v.timer.timeout = -1 →
      v.tasks = [] → v.inSet = false → v.expired = true → Stage v .running
  | fired : v.timer.fsm = .active → v.timer.state = .active → v.tasks = [] →
      v.inSet = false → v.expired = false → Stage v .fired
  | stopping : v.timer.fsm = .stopping → v.timer.state = .stopping →
      v.tasks = [.stop] ∨ v.tasks = [.start, .stop] → Stage v .stopping

namespace Stage

variable {v : TimerView} {l : Life}

theorem idle_iff (h : Stage v l) : l = .idle ↔ v.timer.fsm = .idle := by
  cases h <;> simp [*]

theorem stopping_iff (h : Stage v l) : l = .stopping ↔ .stop ∈ v.tasks := by
  cases h with
  | stopping _ _ ht => rcases ht with ht | ht <;> simp [ht]
  | _ => simp [*]

theorem of_idle (h : Stage v l) (hf : v.timer.fsm = .idle) :
    l = .idle ∧ v.timer.state = .idle ∧ v.timer.doneQueued = false ∧ v.tasks = [] ∧
      v.inSet = false ∧ v.expired = false := by
  obtain rfl := h.idle_iff.2 hf
  cases h with
  | idle _ hs hd ht hi he => exact ⟨rfl, hs, hd, ht, hi, he⟩

theorem of_active (h : Stage v l) (hf : v.timer.fsm = .active) :
    (l = .running ∨ l = .fired) ∧ v.timer.state = .active ∧
      (v.tasks = [] ∨ v.tasks = [.start]) := by
  cases h <;> simp_all

end Stage

namespace Timers

variable [DecidableEq τ] (w : Timers τ)

/-- The tasks not executed, the one that the worker has being the first. -/
def pending : List (WorkerTask τ) := w.point.task ++ w.tasks

def view (x : τ) : TimerView where
  timer := w.timer x
  tasks := w.pending.filterMap (WorkerTask.of x)
  inSet := w.timerset.hndlIsactive x
  expired := w.point.has x

/-- The timer set is well formed, and every timer is where its events have left it. -/
structure Inv (w : Timers τ) : Prop where
  timerset : ∃ t, w.timerset.Holds t
  stage (x : τ) : ∃ l, Life.after (w.log x) = some l ∧ Stage (w.view x) l

/-- The events of every timer are a life; it is being stopped as long as its stop
    task is to be executed; when it is idle, the handle is not active, no task of its is
    queued, and it can be terminated. -/
structure Right (w : Timers τ) : Prop where
  life (x : τ) : ∃ l, Life.after (w.log x) = some l ∧
    (l = .idle ↔ (w.timer x).fsm = .idle) ∧
    (l = .stopping ↔ .timer x .stop ∈ w.pending)
  idle (x : τ) : (w.timer x).fsm = .idle → w.timerset.hndlIsactive x = false ∧
    (∀ k, .timer x k ∉ w.pending) ∧ w.term x = .ok ()

/-- Executing the stop task of a timer, it raises `NN_TIMER_STOPPED`. -/
def Answers (w : Timers τ) (a : TimersAction τ) (w' : Timers τ) : Prop :=
  ∀ x now, a = .feed now → w.point = .popped (.timer x .stop) → w'.log x = w.log x ++ [.stopped]

variable {w} {w' : Timers τ} {x y : τ} {l : Life} {k : TimerTask}

theorem mem_pending : .timer x k ∈ w.pending ↔ k ∈ (w.view x).tasks := by
  simp only [view, List.mem_filterMap]
  constructor
  · exact fun h => ⟨_, h, by simp [WorkerTask.of]⟩
  · rintro ⟨t, ht, he⟩
    cases t with
    | other id => simp [WorkerTask.of] at he
    | timer y k' =>
      simp only [WorkerTask.of, Option.ite_none_right_eq_some, Option.some.injEq] at he
      obtain ⟨rfl, rfl⟩ := he
      exact ht

omit [DecidableEq τ] in
theorem mem_pending_of_mem {t : WorkerTask τ} (h : t ∈ w.tasks) : t ∈ w.pending :=
  List.mem_append_right _ h

theorem Inv.right (h : Inv w) : Right w where
  life x := by
    obtain ⟨l, hl, hs⟩ := h.stage x
    exact ⟨l, hl, hs.idle_iff, by rw [mem_pending]; exact hs.stopping_iff⟩
  idle x hx := by
    obtain ⟨l, hl, hs⟩ := h.stage x
    obtain ⟨-, hstate, hdone, htasks, hset, -⟩ := hs.of_idle hx
    have hout : ∀ k, .timer x k ∉ w.pending := fun k => by
      rw [mem_pending, htasks]
      exact List.not_mem_nil
    refine ⟨hset, hout, ?_⟩
    have hstart := mt mem_pending_of_mem (hout .start)
    have hstop := mt mem_pending_of_mem (hout .stop)
    simp only [view] at hstate hdone hset
    simp [term, hstate, hdone, hset, hstart, hstop]

/-- What one timer does, seen from the others. -/
theorem Inv.of_view (h : Inv w) (hset : ∃ t, w'.timerset.Holds t)
    (hframe : ∀ y ≠ x, w'.view y = w.view y ∧ w'.log y = w.log y)
    (hx : ∃ l, Life.after (w'.log x) = some l ∧ Stage (w'.view x) l) : Inv w' where
  timerset := hset
  stage y := by
    by_cases hy : y = x
    · exact hy ▸ hx
    · rw [(hframe y hy).1, (hframe y hy).2]
      exact h.stage y

/-! ### What each step does -/

/-- A task is left to the worker. -/
theorem workerExecute_ok {t : WorkerTask τ} (h : t ∉ w.tasks) :
    w.workerExecute t = .ok { w with tasks := w.tasks ++ [t] } := by
  simp [workerExecute, h]

omit [DecidableEq τ] in
/-- What is pending when a task is pushed; where the timers and the log are does not matter. -/
theorem pending_push {t : WorkerTask τ} (hp : w'.point = w.point) (ht : w'.tasks = w.tasks ++ [t]) :
    w'.pending = w.pending ++ [t] := by
  rw [pending, pending, hp, ht, List.append_assoc]

@[simp] theorem of_self : WorkerTask.of x (.timer x k) = some k := if_pos rfl

@[simp] theorem of_other {id : ℕ} : WorkerTask.of x (.other id) = none := rfl

theorem of_ne (h : y ≠ x) : WorkerTask.of y (.timer x k) = none := if_neg (Ne.symm h)

/-- A timer leaves a task to the worker. -/
theorem Inv.push (h : Inv w) {v : Timer} {e : TimerEvent} (hl : Life.after (w.log x ++ [e]) = some l)
    (hs : Stage ⟨v, (w.view x).tasks ++ [k], (w.view x).inSet, (w.view x).expired⟩ l) :
    Inv { w with
      timer := update w.timer x v
      tasks := w.tasks ++ [.timer x k]
      log := update w.log x (w.log x ++ [e]) } := by
  have hpending : pending { w with
      timer := update w.timer x v
      tasks := w.tasks ++ [.timer x k]
      log := update w.log x (w.log x ++ [e]) } = w.pending ++ [.timer x k] := pending_push rfl rfl
  refine h.of_view h.timerset (x := x) (fun y hy => ⟨?_, update_of_ne hy _ _⟩) ⟨l, ?_, ?_⟩
  · rw [view, hpending, List.filterMap_append]
    simp [view, hy, of_ne hy]
  · simpa using hl
  · rw [view, hpending, List.filterMap_append]
    simpa [view] using hs

theorem inv_start {timeout : ℤ} (h : Inv w) (hx : (w.timer x).fsm = .idle) (ht : 0 ≤ timeout) :
    ∃ w', (w.record x .started).start x timeout = .ok w' ∧ Inv w' := by
  obtain ⟨l, hl, hs⟩ := h.stage x
  obtain ⟨rfl, hstate, -, htasks, hset, hexp⟩ := hs.of_idle hx
  have hout : .timer x .start ∉ w.tasks := fun hm => by
    simpa [htasks] using mem_pending.1 (mem_pending_of_mem hm)
  refine ⟨_, ?_, h.push (x := x) (k := .start) (e := .started) (l := .running)
    (v := { w.timer x with timeout := timeout, fsm := .active, state := .active }) ?_ ?_⟩
  · have hs' : (w.timer x).state = .idle := hstate
    simp [start, ht, fsmFeed, Fsm.feed, handler, set, record, hs', workerExecute, hout]
  · rw [Life.after_append, hl]
    rfl
  · exact .starting rfl rfl ht (by rw [htasks]; rfl) hset hexp

theorem inv_stop (h : Inv w) (hx : (w.timer x).fsm = .active) :
    ∃ w', (w.record x .stop).stop x = .ok w' ∧ Inv w' := by
  obtain ⟨l, hl, hs⟩ := h.stage x
  obtain ⟨hlife, hstate, htasks⟩ := hs.of_active hx
  have hout : .timer x .stop ∉ w.tasks := fun hm => by
    have := mem_pending.1 (mem_pending_of_mem hm)
    rcases htasks with ht | ht <;> simp [ht] at this
  refine ⟨_, ?_, h.push (x := x) (k := .stop) (e := .stop) (l := .stopping)
    (v := { w.timer x with fsm := .stopping, state := .stopping }) ?_ ?_⟩
  · simp [stop, fsmFeed, Fsm.feed, shutdown, set, record, workerExecute, hout]
  · rw [Life.after_append, hl]
    rcases hlife with rfl | rfl <;> rfl
  · exact .stopping rfl rfl (by rcases htasks with ht | ht <;> simp [ht])

/-- An event of a timer is processed. -/
theorem Stage.process {v : TimerView} {t : Timer} (h : Stage v l) (hf : t.fsm = v.timer.fsm)
    (hs : t.state = v.timer.state) (ht : t.timeout = v.timer.timeout)
    (hd : v.timer.doneQueued = false → t.doneQueued = false) : Stage { v with timer := t } l := by
  cases h with
  | idle h₁ h₂ h₃ h₄ h₅ h₆ => exact .idle (hf.trans h₁) (hs.trans h₂) (hd h₃) h₄ h₅ h₆
  | starting h₁ h₂ h₃ h₄ h₅ h₆ => exact .starting (hf.trans h₁) (hs.trans h₂) (ht ▸ h₃) h₄ h₅ h₆
  | armed h₁ h₂ h₃ h₄ h₅ h₆ => exact .armed (hf.trans h₁) (hs.trans h₂) (ht.trans h₃) h₄ h₅ h₆
  | expired h₁ h₂ h₃ h₄ h₅ h₆ => exact .expired (hf.trans h₁) (hs.trans h₂) (ht.trans h₃) h₄ h₅ h₆
  | fired h₁ h₂ h₃ h₄ h₅ => exact .fired (hf.trans h₁) (hs.trans h₂) h₃ h₄ h₅
  | stopping h₁ h₂ h₃ => exact .stopping (hf.trans h₁) (hs.trans h₂) h₃

theorem inv_process (h : Inv w) {t : Timer} (hf : t.fsm = (w.timer x).fsm)
    (hs : t.state = (w.timer x).state) (ht : t.timeout = (w.timer x).timeout)
    (hd : (w.timer x).doneQueued = false → t.doneQueued = false) : Inv (w.set x t) := by
  obtain ⟨l, hl, hst⟩ := h.stage x
  refine h.of_view h.timerset (x := x) (fun y hy => ⟨?_, rfl⟩) ⟨l, hl, ?_⟩
  · simp [view, set, hy, pending]
  · have hst' := Stage.process hst hf hs ht hd
    simpa [view, set, pending] using hst'

theorem inv_execute {id : ℕ} (h : Inv w) (ht : .other id ∉ w.tasks) :
    ∃ w', w.workerExecute (.other id) = .ok w' ∧ Inv w' := by
  refine ⟨_, workerExecute_ok ht, h.timerset, fun x => ?_⟩
  obtain ⟨l, hl, hs⟩ := h.stage x
  refine ⟨l, hl, ?_⟩
  have hpending : pending { w with tasks := w.tasks ++ [.other id] } = w.pending ++ [.other id] :=
    pending_push rfl rfl
  rw [view, hpending, List.filterMap_append]
  simpa [view, List.filterMap_cons] using hs

/-! ### The worker -/

theorem inv_pop (h : Inv w) (hp : w.point = .free) (ht : w.tasks ≠ []) :
    ∃ w', w.exec .pop = .ok w' ∧ Inv w' := by
  obtain ⟨t, ts, hts⟩ := List.exists_cons_of_ne_nil ht
  refine ⟨{ w with tasks := ts, point := .popped t }, by simp [exec, hts], h.timerset, fun x => ?_⟩
  obtain ⟨l, hl, hs⟩ := h.stage x
  refine ⟨l, hl, ?_⟩
  simpa [view, pending, hp, hts, WorkerPoint.task, WorkerPoint.has] using hs

/-- A handle that the timer set returns is one of a timer that is armed, or is stopping. -/
theorem inv_expire (h : Inv w) (hp : w.point = .free) (now : UInt64) :
    ∃ w', w.exec (.expire now) = .ok w' ∧ Inv w' := by
  obtain ⟨t, ht⟩ := h.timerset
  obtain ⟨-, he⟩ | ⟨x, timerset, hd, he, ht'⟩ := Timerset.event_due ht now
  · exact ⟨w, by simp [exec, he], h⟩
  · have hact := ht.isactive_remove ht'
    have hset : w.timerset.hndlIsactive x = true := (ht.isactive x).2 (Active.exists_of_due hd)
    obtain ⟨l, hl, hs⟩ := h.stage x
    refine ⟨{ w with timerset := timerset, point := .expired x }, by simp [exec, he],
      h.of_view ⟨_, ht'⟩ (x := x) (fun y hy => ⟨?_, rfl⟩) ⟨l, hl, ?_⟩⟩
    · simp [view, pending, hp, hact, hy, WorkerPoint.task, WorkerPoint.has, Ne.symm hy]
    · have hview : ({ w with timerset := timerset, point := .expired x } : Timers τ).view x =
          { w.view x with inSet := false, expired := true } := by
        simp [view, pending, hp, hact, WorkerPoint.task, WorkerPoint.has]
      rw [hview]
      cases hs with
      | armed h₁ h₂ h₃ h₄ _ _ => exact .expired h₁ h₂ h₃ h₄ rfl rfl
      | stopping h₁ h₂ h₃ => exact .stopping h₁ h₂ h₃
      | idle _ _ _ _ hn | starting _ _ _ _ hn | expired _ _ _ _ hn | fired _ _ _ hn =>
        exact absurd (hset.symm.trans hn) (by simp)

/-- The worker has fed what it had; the other timers do not see it. -/
theorem view_feed (hy : y ≠ x) (hp : w.point = .expired x ∨ w.point = .popped (.timer x k))
    (hpoint : w'.point = .free) (htasks : w'.tasks = w.tasks) (htimer : w'.timer y = w.timer y)
    (hset : w'.timerset.hndlIsactive y = w.timerset.hndlIsactive y) : w'.view y = w.view y := by
  rcases hp with hp | hp
  · simp [view, pending, hp, hpoint, htasks, htimer, hset, WorkerPoint.task, WorkerPoint.has,
      Ne.symm hy]
  · simp [view, pending, hp, hpoint, htasks, htimer, hset, WorkerPoint.task, WorkerPoint.has,
      of_ne hy]

/-- An expired timer raises `NN_TIMER_TIMEOUT`, unless it is stopping. -/
theorem inv_feed_expired (h : Inv w) (hp : w.point = .expired x) (hsettled : w.Settled x)
    (now : UInt64) : ∃ w', w.exec (.feed now) = .ok w' ∧ Inv w' := by
  obtain ⟨l, hl, hs⟩ := h.stage x
  have hexp : (w.view x).expired = true := by simp [view, hp, WorkerPoint.has]
  have htask : w.point.task = [] := by rw [hp]; rfl
  cases hs with
  | expired hfsm hstate htimeout htasks hset _ =>
    simp only [view, pending, htask, List.nil_append] at hfsm hstate htimeout htasks hset
    have hx : w.exec (.feed now) = .ok { w with
        point := .free
        timer := update w.timer x { w.timer x with doneQueued := true }
        log := update w.log x (w.log x ++ [.timeout]) } := by
      simp [exec, hp, fsmFeed, Fsm.feed, handler, hfsm, hstate, TimerTask.src, htimeout, raiseDone,
        hsettled.1, set, record]
    refine ⟨_, hx, h.of_view h.timerset (x := x) (fun y hy =>
      ⟨view_feed (k := .start) hy (.inl hp) rfl rfl (update_of_ne hy _ _) rfl,
        update_of_ne hy _ _⟩) ⟨.fired, ?_, ?_⟩⟩
    · simp [Life.after_append, hl, Life.step]
    · exact .fired (by simpa [view] using hfsm) (by simpa [view] using hstate) htasks hset rfl
  | stopping hfsm hstate htasks =>
    simp only [view, pending, htask, List.nil_append] at hfsm hstate htasks
    have hx : w.exec (.feed now) = .ok { w with point := .free } := by
      simp [exec, hp, fsmFeed, Fsm.feed, shutdown, hfsm, hstate, TimerTask.src, Fsm.action]
    refine ⟨_, hx, h.of_view h.timerset (x := x) (fun y hy =>
      ⟨view_feed (k := .start) hy (.inl hp) rfl rfl rfl rfl, rfl⟩) ⟨.stopping, hl, ?_⟩⟩
    exact .stopping hfsm hstate htasks
  | idle _ _ _ _ _ hn | starting _ _ _ _ _ hn | armed _ _ _ _ _ hn | fired _ _ _ _ hn =>
    exact absurd (hexp.symm.trans hn) (by simp)

/-- A start task adds the handle, unless the timer is stopping; a stop task removes it, and
    the timer has stopped. -/
theorem inv_feed_popped (h : Inv w) (hp : w.point = .popped (.timer x k)) (hsettled : w.Settled x)
    (now : UInt64) : ∃ w', w.exec (.feed now) = .ok w' ∧ Inv w' ∧
      (k = .stop → w'.log x = w.log x ++ [.stopped]) := by
  obtain ⟨l, hl, hs⟩ := h.stage x
  have htask : (w.view x).tasks = k :: w.tasks.filterMap (WorkerTask.of x) := by
    simp [view, pending, hp, WorkerPoint.task]
  obtain ⟨t, ht⟩ := h.timerset
  cases hs with
  | starting hfsm hstate htimeout htasks hset _ =>
    obtain ⟨rfl, hrest⟩ := List.cons.inj (htask.symm.trans htasks)
    simp only [view] at hfsm hstate htimeout hset
    have hnot : ∀ p ∈ t, p.2 ≠ x := fun p hp he => by
      simpa [hset] using (ht.isactive x).2 ⟨p, hp, he⟩
    obtain ⟨timerset, ha, ht'⟩ :=
      @Timerset.add_holds _ _ _ t x now (w.timer x).timeout _ ht hnot rfl
    have hact := ht.isactive_add ht'
    have hx : w.exec (.feed now) = .ok { w with
        point := .free
        timerset := timerset
        timer := update w.timer x { w.timer x with timeout := -1 } } := by
      simp [exec, hp, fsmFeed, Fsm.feed, handler, hfsm, hstate, TimerTask.src, htimeout,
        workerAddTimer, ha, set]
    refine ⟨_, hx, h.of_view ⟨_, ht'⟩ (x := x) (fun y hy =>
      ⟨view_feed hy (.inr hp) rfl rfl (update_of_ne hy _ _) ?_, rfl⟩) ⟨.running, hl, ?_⟩,
      fun hk => by simp at hk⟩
    · rw [hact, update_of_ne hy]
    · exact .armed (by simpa [view] using hfsm) (by simpa [view] using hstate) (by simp [view]) hrest
        (by simp [view, hact]) rfl
  | stopping hfsm hstate htasks =>
    simp only [view] at hfsm hstate
    rcases htasks with htasks | htasks
    · obtain ⟨rfl, hrest⟩ := List.cons.inj (htask.symm.trans htasks)
      obtain ⟨timerset, hr, ht'⟩ := Timerset.rm_spec ht x
      have hact := ht.isactive_remove ht'
      have hx : w.exec (.feed now) = .ok { w with
          point := .free
          timerset := timerset
          timer := update w.timer x
            { w.timer x with state := .idle, fsm := .idle, stoppedQueued := true }
          log := update w.log x (w.log x ++ [.stopped]) } := by
        simp [exec, hp, fsmFeed, Fsm.feed, shutdown, hfsm, hstate, TimerTask.src, Fsm.action,
          workerRmTimer, hr, set, fsmStopped, hsettled.2, record]
      refine ⟨_, hx, h.of_view ⟨_, ht'⟩ (x := x) (fun y hy =>
        ⟨view_feed hy (.inr hp) rfl rfl (update_of_ne hy _ _) ?_, update_of_ne hy _ _⟩)
        ⟨.idle, ?_, ?_⟩, fun _ => update_self _ _ _⟩
      · rw [hact, update_of_ne hy]
      · simp [Life.after_append, hl, Life.step]
      · exact .idle (by simp [view]) (by simp [view]) (by simpa [view] using hsettled.1) hrest
          (by simp [view, hact]) rfl
    · -- The start task has been overtaken by the stop.
      obtain ⟨rfl, hrest⟩ := List.cons.inj (htask.symm.trans htasks)
      have hx : w.exec (.feed now) = .ok { w with point := .free } := by
        simp [exec, hp, fsmFeed, Fsm.feed, shutdown, hfsm, hstate, TimerTask.src, Fsm.action]
      refine ⟨_, hx, h.of_view ⟨t, ht⟩ (x := x) (fun y hy =>
        ⟨view_feed hy (.inr hp) rfl rfl rfl rfl, rfl⟩) ⟨.stopping, hl, ?_⟩, fun hk => by simp at hk⟩
      exact .stopping hfsm hstate (.inl hrest)
  | idle _ _ _ hn | armed _ _ _ hn | expired _ _ _ hn | fired _ _ hn =>
    exact absurd (htask.symm.trans hn) (by simp)

theorem inv_feed_other {id : ℕ} (h : Inv w) (hp : w.point = .popped (.other id)) (now : UInt64) :
    ∃ w', w.exec (.feed now) = .ok w' ∧ Inv w' := by
  refine ⟨{ w with point := .free }, by simp [exec, hp], h.timerset, fun x => ?_⟩
  obtain ⟨l, hl, hs⟩ := h.stage x
  refine ⟨l, hl, ?_⟩
  simpa [view, pending, hp, WorkerPoint.task, WorkerPoint.has, List.filterMap_cons] using hs

theorem inv_step {a : TimersAction τ} (h : Inv w) (he : w.enabled a) :
    ∃ w', w.exec a = .ok w' ∧ Answers w a w' ∧ Inv w' := by
  cases a with
  | start x timeout =>
    obtain ⟨w', hx, h'⟩ := inv_start h he.1 he.2
    exact ⟨w', hx, by simp [Answers], h'⟩
  | stop x =>
    obtain ⟨w', hx, h'⟩ := inv_stop h he
    exact ⟨w', hx, by simp [Answers], h'⟩
  | processDone x => exact ⟨_, rfl, by simp [Answers], inv_process h rfl rfl rfl fun _ => rfl⟩
  | processStopped x => exact ⟨_, rfl, by simp [Answers], inv_process h rfl rfl rfl id⟩
  | execute id =>
    obtain ⟨w', hx, h'⟩ := inv_execute h he
    exact ⟨w', hx, by simp [Answers], h'⟩
  | expire now =>
    obtain ⟨w', hx, h'⟩ := inv_expire h he now
    exact ⟨w', hx, by simp [Answers], h'⟩
  | pop =>
    obtain ⟨w', hx, h'⟩ := inv_pop h he.1 he.2
    exact ⟨w', hx, by simp [Answers], h'⟩
  | feed now =>
    rw [enabled] at he
    split at he
    · exact he.elim
    · next hp =>
      obtain ⟨w', hx, h'⟩ := inv_feed_expired h hp he now
      exact ⟨w', hx, by simp [Answers, hp], h'⟩
    · next x k hp =>
      obtain ⟨w', hx, h', hstop⟩ := inv_feed_popped h hp he now
      refine ⟨w', hx, fun y _ _ hy => ?_, h'⟩
      obtain ⟨rfl, rfl⟩ : x = y ∧ k = .stop := by simpa [hp] using hy
      exact hstop rfl
    · next hp =>
      obtain ⟨w', hx, h'⟩ := inv_feed_other h hp now
      exact ⟨w', hx, by simp [Answers, hp], h'⟩

theorem inv_init (deadline : τ → UInt64) : Inv (init deadline) where
  timerset := ⟨[], Timerset.holds_init deadline⟩
  stage x := ⟨.idle, rfl, .idle rfl rfl rfl rfl (by
    simp [view, init, Timerset.hndlIsactive, Timerset.init, Items.itemIsinlist]) rfl⟩

/-- However the owners and the worker take turns, no timer fails, each raises at most
    one timeout for a start and none after a stop was requested, and answers
    every stop once; when it is idle it may be started again or terminated. -/
theorem timers_correct (deadline : τ → UInt64) (as : List (TimersAction τ)) :
    system.Correct Right Answers (init deadline) as :=
  System.correct_of_step (I := Inv) (fun _ h => h.right) (fun _ _ h he => inv_step h he)
    (inv_init deadline) as

end Timers

end Nanomsg
