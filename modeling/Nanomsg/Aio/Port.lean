import Nanomsg.Aio.Alarms
import Nanomsg.Aio.Completions

/-!
# A worker and its completion port

`worker_win.inc`: what a worker is to do comes in one order through a completion port, the
overlapped calls that have completed, the tasks (`nn_worker_execute`) and the end
(`nn_worker_term`), from any number of threads. The thread of the worker, `nn_worker_routine`,
feeds the timers that are due, asks how long it may sleep, takes up to 32 entries
(`GetQueuedCompletionStatusEx`) and looks at one after the other. While it feeds an owner, the
owner may add timers and remove them.

Recorded besides are what has been posted and what the routine has looked at, and the tasks fed.

`port_correct`: in every run no assertion fails, nothing that is posted is lost or overtaken, and
nothing is fed after the end. No timer is fed before its time, and the routine does not sleep while
one is due, nor longer than until the first is.
-/

namespace Nanomsg

open Function Transition Intrusive Priority

variable {κ τ ι : Type}

/-- An entry of the port: of an overlapped call, with a task for its key, or with
    `&nn_worker_stop`. -/
inductive PortItem (κ τ : Type)
  | op (e : PortEntry κ)
  | task (x : τ)
  | stop
  deriving DecidableEq

namespace PortItem

/-- The operation of an entry. -/
def op? : PortItem κ τ → Option κ
  | op e => some e.op
  | task _ | stop => none

/-- The task of an entry. -/
def task? : PortItem κ τ → Option τ
  | task x => some x
  | op _ | stop => none

end PortItem

/-- `NN_WORKER_MAX_EVENTS`. -/
def workerMaxEvents : ℕ := 32

/-- Where the routine is. -/
inductive PortPoint (κ τ : Type)
  /-- About to call `nn_timerset_event`. -/
  | timers
  /-- The owner of a timer is fed. -/
  | timer
  /-- No timer is due. -/
  | rested
  /-- In `GetQueuedCompletionStatusEx`, with the `timeout` of a clock reading. -/
  | polling (asked : UInt64) (timeout : ℤ)
  /-- In the loop, with the entries to look at. -/
  | entries (es : List (PortItem κ τ))
  /-- The owner of a task or of an operation is fed. -/
  | owner (es : List (PortItem κ τ))
  /-- It has returned, and `es` are left. -/
  | finished (es : List (PortItem κ τ))
  deriving DecidableEq

namespace PortPoint

/-- The entries taken that have not been looked at. -/
def left : PortPoint κ τ → List (PortItem κ τ)
  | entries es | owner es | finished es => es
  | timers | timer | rested | polling _ _ => []

/-- An owner is fed. -/
def feeds : PortPoint κ τ → Bool
  | timer | owner _ => true
  | timers | rested | polling _ _ | entries _ | finished _ => false

/-- The routine sleeps, or is about to. -/
def sleeps : PortPoint κ τ → Bool
  | rested | polling _ _ => true
  | timers | timer | entries _ | owner _ | finished _ => false

theorem sleeps_of_feeds {p : PortPoint κ τ} (h : p.feeds = true) : p.sleeps = false := by
  cases p <;> first | rfl | cases h

/-- The owner has been fed. -/
def leave : PortPoint κ τ → PortPoint κ τ
  | timer => timers
  | owner es => entries es
  | p => p

/-- It has met the end. -/
def met : PortPoint κ τ → Bool
  | finished _ => true
  | timers | timer | rested | polling _ _ | entries _ | owner _ => false

end PortPoint

/-- Where the routine goes from the `switch`. -/
def SwitchExit.point (es : List (PortItem κ τ)) : SwitchExit → PortPoint κ τ
  | feed _ => .owner es
  | start | next => .entries es

/-- Of `struct nn_worker` all but the thread, the operations of its owners, and the routine. -/
structure PortWorker (κ τ ι : Type) where
  transfers : κ → Transfer
  timers : Alarms ι
  cp : List (PortItem κ τ)
  point : PortPoint κ τ
  posted : List (PortItem κ τ)
  seen : List (PortItem κ τ)
  fed : List τ

/-- What the owners, the threads, the calls and the routine do. -/
inductive PortWorkerAction (κ τ ι : Type)
  /-- The owner of `k` sets it up, calls `nn_worker_op_start` and makes the call. -/
  | begin (k : κ) (resid buf : ℕ) (start zeroIsError : Bool)
  /-- The call of an operation completes. -/
  | complete (e : PortEntry κ)
  /-- `nn_worker_execute`. -/
  | execute (x : τ)
  /-- `nn_worker_term`. -/
  | term
  /-- `nn_worker_add_timer`, the clock reading `now`. -/
  | add (now : UInt64) (timeout : ℤ) (hndl : ι)
  /-- `nn_worker_rm_timer`. -/
  | rm (hndl : ι)
  /-- The routine calls `nn_timerset_event`. -/
  | event (now : UInt64)
  /-- The owner has been fed. -/
  | leave
  /-- The routine calls `nn_timerset_timeout`. -/
  | timeout (now : UInt64)
  /-- `GetQueuedCompletionStatusEx` returns without an entry, and with `n`. -/
  | timedOut (now : UInt64)
  | dequeue (n : ℕ)
  /-- The routine looks at the next entry. -/
  | entry

namespace PortWorker

/-- `nn_worker_init`, before anything is done. -/
def init (timeout : ι → UInt64) : PortWorker κ τ ι :=
  ⟨fun _ => .init, .init timeout, [], .timers, [], [], []⟩

variable (w : PortWorker κ τ ι)

/-- `PostQueuedCompletionStatus`, or a call that completes. -/
def post (i : PortItem κ τ) : PortWorker κ τ ι := { w with cp := w.cp ++ [i] }

/-- An entry is to be posted. -/
def note (i : PortItem κ τ) : PortWorker κ τ ι := { w with posted := w.posted ++ [i] }

section

variable [DecidableEq ι]

/-- The body of the loop over the timers, with `nn_timerset_event`. -/
def event (now : UInt64) : Except Fault (PortWorker κ τ ι) := do
  let (timers, thndl) ← w.timers.event now
  pure { w with
    timers := timers.noteEvent now thndl
    point := if thndl.isSome then .timer else .rested }

/-- The routine calls `nn_timerset_timeout`. -/
def askTimeout (now : UInt64) : Except Fault (PortWorker κ τ ι) := do
  let timeout ← w.timers.timerset.timersetTimeout now
  pure { w with timers := { w.timers with clock := now.toNat }, point := .polling now timeout }

/-- An owner begins an operation that is idle, with bytes to transfer where `start` is to transfer
    them, and adds or removes a timer while it is fed. The worker is terminated once. A sleep lasts
    for the time that was asked for, or until there are entries in the port. -/
def enabled : PortWorkerAction κ τ ι → Prop
  | .begin k resid _ start _ => (w.transfers k).op.isidle ∧ (start → 0 < resid)
  | .complete e => (w.transfers e.op).inflight
  | .execute _ => True
  | .term => .stop ∉ w.posted
  | .add now timeout hndl => w.point.feeds ∧ w.timers.Addable now timeout hndl
  | .rm _ => w.point.feeds
  | .event now => w.point = .timers ∧ w.timers.clock ≤ now.toNat
  | .leave => w.point.feeds
  | .timeout now => w.point = .rested ∧ w.timers.clock ≤ now.toNat
  | .timedOut now => w.timers.clock ≤ now.toNat ∧ ∃ asked timeout,
    w.point = .polling asked timeout ∧ w.cp = [] ∧ 0 ≤ timeout ∧ asked.toNat + timeout ≤ now.toNat
  | .dequeue n => (∃ asked timeout, w.point = .polling asked timeout) ∧
    0 < n ∧ n ≤ workerMaxEvents ∧ n ≤ w.cp.length
  | .entry => ∃ es, w.point = .entries es

end

section

variable [DecidableEq κ]

/-- The transfer of `k` becomes `t`. -/
def setTransfer (k : κ) (t : Transfer) : PortWorker κ τ ι :=
  { w with transfers := update w.transfers k t }

/-- The body of the loop over the entries, or its end. -/
def entry : Except Fault (PortWorker κ τ ι) :=
  match w.point with
  | .entries [] => .ok { w with point := .timers }
  | .entries (.op e :: es) => do
    let t ← (w.transfers e.op).take e
    let exit := ((w.transfers e.op).op.complete e.internal e.nxfer).2
    pure ({ w with seen := w.seen ++ [PortItem.op e], point := exit.point es }.setTransfer e.op t)
  | .entries (.stop :: es) => .ok { w with seen := w.seen ++ [PortItem.stop], point := .finished es }
  | .entries (.task x :: es) =>
    .ok { w with seen := w.seen ++ [PortItem.task x], fed := w.fed ++ [x], point := .owner es }
  | .timers | .timer | .rested | .polling _ _ | .owner _ | .finished _ => .ok w

variable [DecidableEq ι]

/-- Taking an action. What is posted, added and removed is recorded here, whatever the functions make
    of it. -/
def exec : PortWorkerAction κ τ ι → Except Fault (PortWorker κ τ ι)
  | .begin k resid buf start zeroIsError =>
    .ok (w.setTransfer k ((w.transfers k).begin resid buf start zeroIsError))
  | .complete e =>
    .ok (((w.note (.op e)).setTransfer e.op { w.transfers e.op with inflight := false }).post (.op e))
  | .execute x => .ok ((w.note (.task x)).post (.task x))
  | .term => .ok ((w.note .stop).post .stop)
  | .add now timeout hndl => do
    let timers ← (w.timers.noteAdd now timeout hndl).addTimer now timeout hndl
    pure { w with timers := timers }
  | .rm hndl => do
    let timers ← (w.timers.noteRm hndl).rmTimer hndl
    pure { w with timers := timers }
  | .event now => w.event now
  | .leave => .ok { w with point := w.point.leave }
  | .timeout now => w.askTimeout now
  | .timedOut now => .ok { w with timers := { w.timers with clock := now.toNat }, point := .timers }
  | .dequeue n => .ok { w with cp := w.cp.drop n, point := .entries (w.cp.take n) }
  | .entry => w.entry

/-- A worker. -/
def system : System (PortWorker κ τ ι) (PortWorkerAction κ τ ι) Fault where
  init w := ∃ timeout, w = init timeout
  enabled := enabled
  exec w a := w.exec a

end

/-! ## What is right -/

variable [DecidableEq ι]

/-- What has been posted is what has been looked at, and then what is still to be, in order; of the
    former the tasks have been fed, and nothing is looked at after the end. Each timer that was added
    has been fed or removed since, or is active. None is due when the routine sleeps, and it
    sleeps until the first is, unless it has taken more than 2 ^ 31 milliseconds to ask. -/
structure Right (w : PortWorker κ τ ι) : Prop where
  ordered : w.posted = w.seen ++ w.point.left ++ w.cp
  fed : w.fed = w.seen.filterMap PortItem.task?
  not_met : w.point.met = false → .stop ∉ w.seen
  met : w.point.met = true → ∃ as, w.seen = as ++ [.stop] ∧ .stop ∉ as
  batch : w.point.left.length ≤ workerMaxEvents
  counted : ∀ x, w.timers.added.count x =
    w.timers.fired.count x + w.timers.removed.count x + w.timers.active.active x
  isactive : ∀ x, w.timers.timerset.hndlIsactive x = true ↔ ∃ p ∈ w.timers.active, p.2 = x
  rested : w.point.sleeps → ∀ p ∈ w.timers.active, w.timers.restedAt < p.1
  sleeps : ∀ asked timeout, w.point = .polling asked timeout →
    asked.toNat ≤ w.timers.restedAt + 2 ^ 31 → timeout = w.timers.active.left asked

/-- A step is right: a timer is fed when its time has come, if it is the first; the routine rests
    when no timer is due, and wakes up for one that is. -/
structure StepRight (w : PortWorker κ τ ι) (a : PortWorkerAction κ τ ι) (w' : PortWorker κ τ ι) :
    Prop where
  fires : w'.timers.fired = w.timers.fired ∨ ∃ now p, a = .event now ∧
    Priority.first w.timers.active = some p ∧ p.1 ≤ now.toNat ∧
    w'.timers.fired = w.timers.fired ++ [p.2]
  rests : ∀ now, a = .event now → w'.point = .rested → ∀ p ∈ w.timers.active, now.toNat < p.1
  wakes : ∀ now asked timeout, a = .timedOut now → w.point = .polling asked timeout →
    asked.toNat ≤ w.timers.restedAt + 2 ^ 31 → ∃ p ∈ w.timers.active, p.1 ≤ now.toNat

end PortWorker

/-! ## What is kept -/

/-- A call of an operation is outstanding only once, and while the operation is active: it is in
    flight, or it is one of `ks`, whose entries have not been looked at. -/
structure Outstanding (transfers : κ → Transfer) (ks : List κ) : Prop where
  nodup : ks.Nodup
  flying : ∀ k, (transfers k).inflight → k ∉ ks
  active : ∀ k, (transfers k).inflight ∨ k ∈ ks → (transfers k).op.state = .active

namespace Outstanding

variable {transfers : κ → Transfer} {ks : List κ} {k : κ}

theorem init : Outstanding (fun _ : κ => Transfer.init) [] where
  nodup := .nil
  flying _ h := absurd h Bool.false_ne_true
  active _ h := absurd h (by simp [Transfer.init])

variable [DecidableEq κ]

/-- The transfer of one operation changes. -/
theorem update {ks' : List κ} {t : Transfer} (h : Outstanding transfers ks) (hn : ks'.Nodup)
    (hsub : ∀ j, j ≠ k → j ∈ ks' → j ∈ ks) (hf : t.inflight → k ∉ ks')
    (ha : t.inflight ∨ k ∈ ks' → t.op.state = .active) :
    Outstanding (update transfers k t) ks' where
  nodup := hn
  flying j hj hm := by
    by_cases he : j = k
    · subst he
      rw [update_self] at hj
      exact hf hj hm
    · rw [update_of_ne he] at hj
      exact h.flying j hj (hsub j he hm)
  active j hj := by
    by_cases he : j = k
    · subst he
      rw [update_self] at hj ⊢
      exact ha hj
    · rw [update_of_ne he] at hj ⊢
      exact h.active j (hj.imp_right (hsub j he))

theorem begin (h : Outstanding transfers ks) (hi : (transfers k).op.isidle) (resid buf : ℕ)
    (start zero : Bool) :
    Outstanding (Function.update transfers k ((transfers k).begin resid buf start zero)) ks := by
  have hout : k ∉ ks := fun hm => by
    have ha := h.active k (.inr hm)
    simp [WorkerOp.isidle, ha] at hi
  exact h.update h.nodup (fun _ _ hm => hm) (fun _ => hout) (fun _ => rfl)

theorem complete (h : Outstanding transfers ks) (hf : (transfers k).inflight) :
    Outstanding (Function.update transfers k { transfers k with inflight := false }) (ks ++ [k]) := by
  have hout := h.flying k hf
  refine h.update ?_ (fun j hj hm => ?_) (fun hb => absurd hb Bool.false_ne_true)
    (fun _ => h.active k (.inl hf))
  · refine List.nodup_append.2 ⟨h.nodup, List.nodup_singleton k, fun a ha b hb => ?_⟩
    rw [List.mem_singleton.1 hb]
    rintro rfl
    exact hout ha
  · exact (List.mem_append.1 hm).resolve_right fun hk => hj (List.mem_singleton.1 hk)

/-- No assertion fails when an entry is looked at. -/
theorem take {e : PortEntry κ} (h : Outstanding transfers (e.op :: ks)) :
    ∃ t, (transfers e.op).take e = .ok t ∧ Outstanding (Function.update transfers e.op t) ks := by
  obtain ⟨hout, hn⟩ := List.nodup_cons.1 h.nodup
  have ha := h.active e.op (.inr List.mem_cons_self)
  have hf : (transfers e.op).inflight = false :=
    Bool.eq_false_iff.2 fun hf => h.flying e.op hf List.mem_cons_self
  have hup : ∀ t : Transfer, (t.inflight → t.op.state = .active) →
      Outstanding (Function.update transfers e.op t) ks := fun t ht =>
    h.update hn (fun _ _ hm => List.mem_cons_of_mem _ hm) (fun _ => hout)
      fun hor => ht (hor.resolve_right hout)
  obtain ⟨-, hx⟩ | ⟨-, -, -, hx⟩ | ⟨-, -, -, -, hx⟩ | ⟨-, -, -, -, hx⟩ | ⟨-, -, hx⟩ :=
    Transfer.take_cases e ha
  · exact ⟨_, hx, hup _ fun hi => absurd hi (by simp [hf])⟩
  · exact ⟨_, hx, hup _ fun hi => absurd hi (by simp [hf])⟩
  · exact ⟨_, hx, hup _ fun _ => ha⟩
  · exact ⟨_, hx, hup _ fun _ => ha⟩
  · exact ⟨_, hx, hup _ fun _ => ha⟩

end Outstanding

/-- What has been posted and what has been looked at. -/
structure Queued (point : PortPoint κ τ) (cp posted seen : List (PortItem κ τ)) (fed : List τ) :
    Prop where
  ordered : posted = seen ++ point.left ++ cp
  fed : fed = seen.filterMap PortItem.task?
  not_met : point.met = false → .stop ∉ seen
  met : point.met = true → ∃ as, seen = as ++ [.stop] ∧ .stop ∉ as
  batch : point.left.length ≤ workerMaxEvents

namespace Queued

variable {point point' : PortPoint κ τ} {cp posted seen es : List (PortItem κ τ)} {fed : List τ}
  {i : PortItem κ τ}

theorem post (h : Queued point cp posted seen fed) (i : PortItem κ τ) :
    Queued point (cp ++ [i]) (posted ++ [i]) seen fed where
  ordered := by rw [h.ordered, List.append_assoc _ cp]
  fed := h.fed
  not_met := h.not_met
  met := h.met
  batch := h.batch

/-- The routine goes on. -/
theorem goto (h : Queued point cp posted seen fed) (hl : point'.left = point.left)
    (hm : point'.met = point.met) : Queued point' cp posted seen fed where
  ordered := by rw [hl]; exact h.ordered
  fed := h.fed
  not_met hn := h.not_met (hm ▸ hn)
  met hn := h.met (hm ▸ hn)
  batch := by rw [hl]; exact h.batch

/-- Some of the entries are taken. -/
theorem dequeue (h : Queued point cp posted seen fed) (hl : point.left = []) (hm : point.met = false)
    {n : ℕ} (hn : n ≤ workerMaxEvents) :
    Queued (.entries (cp.take n)) (cp.drop n) posted seen fed where
  ordered := by
    have ho := h.ordered
    rw [hl, List.append_nil] at ho
    rw [ho, PortPoint.left, List.append_assoc, List.take_append_drop]
  fed := h.fed
  not_met _ := h.not_met hm
  met hf := absurd hf Bool.false_ne_true
  batch := (List.length_take_le n cp).trans hn

/-- An entry is looked at. -/
theorem look (h : Queued (.entries (i :: es)) cp posted seen fed) (hl : point'.left = es)
    (hm : point'.met = true ↔ i = .stop) :
    Queued point' cp posted (seen ++ [i]) (fed ++ [i].filterMap PortItem.task?) where
  ordered := by rw [h.ordered, hl, PortPoint.left]; simp
  fed := by rw [h.fed, List.filterMap_append]
  not_met hn := by
    rw [List.mem_append, List.mem_singleton]
    rintro (hs | hs)
    · exact h.not_met rfl hs
    · exact Bool.eq_false_iff.1 hn (hm.2 hs.symm)
  met hf := ⟨seen, by rw [hm.1 hf], h.not_met rfl⟩
  batch := hl ▸ Nat.le_of_succ_le h.batch

end Queued

namespace PortWorker

variable [DecidableEq ι] {w w' : PortWorker κ τ ι}

/-- The operations whose entries have not been looked at. -/
def waitedFor (w : PortWorker κ τ ι) : List κ := (w.point.left ++ w.cp).filterMap PortItem.op?

/-- What every step keeps. -/
structure Inv (w : PortWorker κ τ ι) : Prop where
  calls : Outstanding w.transfers w.waitedFor
  queued : Queued w.point w.cp w.posted w.seen w.fed
  timers : w.timers.Kept
  rested : w.point.sleeps → ∀ p ∈ w.timers.active, w.timers.restedAt < p.1
  sleeps : ∀ asked timeout, w.point = .polling asked timeout →
    asked.toNat ≤ w.timers.restedAt + 2 ^ 31 → timeout = w.timers.active.left asked

variable {a : PortWorkerAction κ τ ι} {i : PortItem κ τ} {es : List (PortItem κ τ)} {now : UInt64}

theorem Inv.right (h : Inv w) : Right w where
  ordered := h.queued.ordered
  fed := h.queued.fed
  not_met := h.queued.not_met
  met := h.queued.met
  batch := h.queued.batch
  counted := h.timers.counted
  isactive := h.timers.holds.isactive
  rested := h.rested
  sleeps := h.sleeps

theorem inv_init (timeout : ι → UInt64) : Inv (init timeout : PortWorker κ τ ι) where
  calls := .init
  queued := ⟨rfl, rfl, fun _ => List.not_mem_nil, fun h => absurd h Bool.false_ne_true, Nat.zero_le _⟩
  timers := Alarms.kept_init timeout
  rested _ _ hp := absurd hp List.not_mem_nil
  sleeps _ _ h := by cases h

omit [DecidableEq ι] in
/-- No timer is fed, and the routine does not rest or wake up. -/
theorem StepRight.of_fired (hf : w'.timers.fired = w.timers.fired) (he : ∀ now, a ≠ .event now)
    (ht : ∀ now, a ≠ .timedOut now) : StepRight w a w' where
  fires := .inl hf
  rests now ha := absurd ha (he now)
  wakes now _ _ ha := absurd ha (ht now)

omit [DecidableEq ι] in
theorem waitedFor_post (w : PortWorker κ τ ι) (i : PortItem κ τ) :
    ((w.note i).post i).waitedFor = w.waitedFor ++ [i].filterMap PortItem.op? := by
  rw [waitedFor, waitedFor, ← List.filterMap_append, List.append_assoc]
  rfl

/-- An entry comes to the port. -/
theorem Inv.post (h : Inv w) (hc : Outstanding w'.transfers (w.waitedFor ++ [i].filterMap PortItem.op?))
    (hw : w' = { (w.note i).post i with transfers := w'.transfers }) : Inv w' := by
  rw [hw]
  refine ⟨?_, h.queued.post i, h.timers, h.rested, h.sleeps⟩
  exact (waitedFor_post w i).symm ▸ hc

/-- The routine goes on and does not sleep. -/
theorem Inv.goto (h : Inv w) {p : PortPoint κ τ} (hl : p.left = w.point.left)
    (hm : p.met = w.point.met) (hs : p.sleeps = false) {timers : Alarms ι} (ht : timers.Kept) :
    Inv { w with point := p, timers := timers } where
  calls := by
    rw [waitedFor, hl]
    exact h.calls
  queued := h.queued.goto hl hm
  timers := ht
  rested hp := absurd hp (by simp [hs])
  sleeps asked timeout hp := by
    dsimp only at hp
    rw [hp] at hs
    cases hs

theorem inv_event (h : Inv w) (hp : w.point = .timers) (hnow : w.timers.clock ≤ now.toNat) :
    ∃ w', w.event now = .ok w' ∧ StepRight w (.event now) w' ∧ Inv w' := by
  obtain ⟨t, hx, ht, hf, ha, hlt⟩ | ⟨t, p, hx, ht, hf, hfirst, hle⟩ := h.timers.event_spec hnow
  · refine ⟨{ w with timers := t.noteEvent now none, point := .rested }, by rw [event, hx]; rfl,
      ⟨.inl hf, ?_, nofun⟩, ?_⟩
    · rintro _ ⟨⟩ -
      exact hlt
    · refine ⟨?_, h.queued.goto (by rw [hp]; rfl) (by rw [hp]; rfl), ht, fun _ q hq => ?_, nofun⟩
      · have hc := h.calls
        rwa [waitedFor, hp] at hc
      · exact hlt q (ha ▸ hq)
  · have hfed : (t.noteEvent now (some p.2)).fired = w.timers.fired ++ [p.2] := by
      rw [← hf]
      rfl
    refine ⟨{ w with timers := t.noteEvent now (some p.2), point := .timer }, by rw [event, hx]; rfl,
      ⟨.inr ⟨now, p, rfl, hfirst, hle, hfed⟩, ?_, nofun⟩, ?_⟩
    · rintro _ - hp'
      cases hp'
    · exact h.goto (by rw [hp]; rfl) (by rw [hp]; rfl) rfl ht

theorem inv_timeout (h : Inv w) (hp : w.point = .rested) (hnow : w.timers.clock ≤ now.toNat) :
    ∃ w', w.askTimeout now = .ok w' ∧ StepRight w (.timeout now) w' ∧ Inv w' := by
  have hrest := h.rested (by rw [hp]; rfl)
  obtain ⟨timeout, hx, ht⟩ := h.timers.timeout_spec hnow fun p hp => (hrest p hp).le
  refine ⟨{ w with
    timers := { w.timers with clock := now.toNat }
    point := .polling now timeout }, by rw [askTimeout, hx]; rfl,
    .of_fired rfl nofun nofun, ?_, h.queued.goto (by rw [hp]; rfl) (by rw [hp]; rfl),
    h.timers.later hnow, fun _ => hrest, ?_⟩
  · have hc := h.calls
    rwa [waitedFor, hp] at hc
  · rintro _ _ ⟨⟩
    exact ht

theorem inv_timedOut (h : Inv w) (he : w.enabled (.timedOut now)) :
    StepRight w (.timedOut now) { w with
      timers := { w.timers with clock := now.toNat }
      point := .timers } ∧
    Inv { w with timers := { w.timers with clock := now.toNat }, point := .timers } := by
  obtain ⟨hnow, asked, timeout, hp, -, h0, hle⟩ := he
  refine ⟨⟨.inl rfl, nofun, ?_⟩, h.goto (by rw [hp]; rfl) (by rw [hp]; rfl) rfl (h.timers.later hnow)⟩
  rintro _ asked' timeout' ⟨⟩ hp' hlt
  obtain ⟨rfl, rfl⟩ := PortPoint.polling.inj (hp.symm.trans hp')
  have hleft := h.sleeps _ _ hp hlt
  rw [Active.left] at hleft
  cases hf : Priority.first w.timers.active with
  | none =>
    rw [hf] at hleft
    dsimp only at hleft
    omega
  | some p =>
    rw [hf] at hleft
    dsimp only at hleft
    exact ⟨p, List.mem_of_find?_eq_some hf, by omega⟩

theorem inv_dequeue (h : Inv w) {n : ℕ} (he : w.enabled (.dequeue n)) :
    Inv { w with cp := w.cp.drop n, point := .entries (w.cp.take n) } := by
  obtain ⟨⟨asked, timeout, hp⟩, -, hn, -⟩ := he
  refine ⟨?_, h.queued.dequeue (by rw [hp]; rfl) (by rw [hp]; rfl) hn, h.timers,
    fun hs => absurd hs Bool.false_ne_true, nofun⟩
  have hc := h.calls
  rw [waitedFor, hp] at hc
  rwa [waitedFor, PortPoint.left, List.take_append_drop]

/-- The routine has looked at an entry. -/
theorem Inv.look (h : Inv w) (hp : w.point = .entries (i :: es)) {p : PortPoint κ τ}
    (hl : p.left = es) (hm : p.met = true ↔ i = .stop) (hs : p.sleeps = false)
    {transfers : κ → Transfer} (hc : Outstanding transfers ((es ++ w.cp).filterMap PortItem.op?)) :
    Inv { w with
      transfers := transfers
      seen := w.seen ++ [i]
      fed := w.fed ++ [i].filterMap PortItem.task?
      point := p } where
  calls := by
    rw [waitedFor, hl]
    exact hc
  queued := (hp ▸ h.queued).look hl hm
  timers := h.timers
  rested hp := absurd hp (by simp [hs])
  sleeps asked timeout hp := by
    dsimp only at hp
    rw [hp] at hs
    cases hs

variable [DecidableEq κ]

theorem inv_entry (h : Inv w) (he : w.enabled .entry) :
    ∃ w', w.entry = .ok w' ∧ w'.timers = w.timers ∧ Inv w' := by
  obtain ⟨es, hp⟩ := he
  have hc := h.calls
  rw [waitedFor, hp, PortPoint.left] at hc
  cases es with
  | nil =>
    refine ⟨{ w with point := .timers }, by rw [entry, hp], rfl, ?_⟩
    exact h.goto (by rw [hp]; rfl) (by rw [hp]; rfl) rfl h.timers
  | cons i es =>
    cases i with
    | op e =>
      obtain ⟨t, hx, ht⟩ := Outstanding.take hc
      obtain ⟨exit, hexit⟩ : ∃ exit, ((w.transfers e.op).op.complete e.internal e.nxfer).2 = exit := ⟨_, rfl⟩
      have hok : w.entry = .ok ({ w with
          seen := w.seen ++ [PortItem.op e]
          point := exit.point es }.setTransfer e.op t) := by
        simp only [entry, hp, hx, ok_bind, hexit]
        rfl
      have hl := h.look hp (p := exit.point es) (by cases exit <;> rfl)
        (by cases exit <;> simp [SwitchExit.point, PortPoint.met]) (by cases exit <;> rfl) ht
      rw [show [PortItem.op e].filterMap PortItem.task? = [] from rfl, List.append_nil] at hl
      exact ⟨_, hok, rfl, hl⟩
    | task x =>
      have hok : w.entry = .ok { w with
          seen := w.seen ++ [PortItem.task x]
          fed := w.fed ++ [x]
          point := .owner es } := by
        rw [entry, hp]
      exact ⟨_, hok, rfl, h.look hp rfl (by simp [PortPoint.met]) rfl hc⟩
    | stop =>
      have hok : w.entry = .ok { w with
          seen := w.seen ++ [PortItem.stop]
          point := .finished es } := by
        rw [entry, hp]
      have hl := h.look (p := .finished es) hp rfl (by simp [PortPoint.met]) rfl hc
      rw [show [PortItem.stop].filterMap PortItem.task? = [] from rfl, List.append_nil] at hl
      exact ⟨_, hok, rfl, hl⟩

/-- Every step keeps the invariant, and is right. -/
theorem inv_step (h : Inv w) (he : w.enabled a) :
    ∃ w', w.exec a = .ok w' ∧ StepRight w a w' ∧ Inv w' := by
  cases a with
  | begin k resid buf start zero =>
    exact ⟨_, rfl, .of_fired rfl nofun nofun, h.calls.begin he.1 resid buf start zero, h.queued,
      h.timers, h.rested, h.sleeps⟩
  | complete e =>
    exact ⟨_, rfl, .of_fired rfl nofun nofun, h.post (i := .op e) (h.calls.complete he) rfl⟩
  | execute x =>
    refine ⟨_, rfl, .of_fired rfl nofun nofun, h.post (i := .task x) ?_ rfl⟩
    exact (List.append_nil _).symm ▸ h.calls
  | term =>
    refine ⟨_, rfl, .of_fired rfl nofun nofun, h.post (i := .stop) ?_ rfl⟩
    exact (List.append_nil _).symm ▸ h.calls
  | add now timeout hndl =>
    obtain ⟨hp, ha⟩ := he
    obtain ⟨t, hx, ht, hf⟩ := h.timers.add ha
    refine ⟨{ w with timers := t }, by rw [exec, hx]; rfl, .of_fired hf nofun nofun, ?_⟩
    exact h.goto rfl rfl (PortPoint.sleeps_of_feeds hp) ht
  | rm hndl =>
    obtain ⟨t, hx, ht, hf⟩ := h.timers.rm hndl
    refine ⟨{ w with timers := t }, by rw [exec, hx]; rfl, .of_fired hf nofun nofun, ?_⟩
    exact h.goto rfl rfl (PortPoint.sleeps_of_feeds he) ht
  | event now => exact inv_event h he.1 he.2
  | leave =>
    refine ⟨_, rfl, .of_fired rfl nofun nofun, h.goto ?_ ?_ ?_ h.timers⟩
    all_goals
      have he : w.point.feeds = true := he
      cases hp : w.point <;> rw [hp] at he <;> first | rfl | cases he
  | timeout now => exact inv_timeout h he.1 he.2
  | timedOut now => exact ⟨_, rfl, inv_timedOut h he⟩
  | dequeue n => exact ⟨_, rfl, .of_fired rfl nofun nofun, inv_dequeue h he⟩
  | entry =>
    obtain ⟨w', hx, ht, hi⟩ := inv_entry h he
    exact ⟨w', hx, .of_fired (by rw [ht]) nofun nofun, hi⟩

/-- Whatever the threads, the owners and the calls do, every run is right. -/
theorem port_correct (timeout : ι → UInt64) (as : List (PortWorkerAction κ τ ι)) :
    system.Correct Right StepRight (init timeout) as :=
  System.correct_of_step (I := Inv) (fun _ h => h.right) (fun _ _ h he => inv_step h he)
    (inv_init timeout) as

end PortWorker

end Nanomsg
