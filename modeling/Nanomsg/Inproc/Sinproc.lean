import Nanomsg.Aio.Fsm
import Nanomsg.Core.Pipe
import Nanomsg.Inproc.Msgqueue

/-!
# `nn_sinproc`

`sinproc.c`: one end of an inproc connection. The two ends live in the contexts
of two sockets and talk by events: the sender of a message keeps it in `msg`
and raises `SENT`, upon which its peer moves it from there to its own queue,
then or as soon as there is room, and raises `RECEIVED`. An end that stops
raises `DISCONNECT`, which the other end answers.

The state is that of all the ends `ι` and of the events they have raised
(`Inproc`), an end and its peer reading and writing each other. Events for
another context are taken in the order in which their raiser has raised them
(`eventsto`). An end that has raised `STOPPED` may be gone: using it is a fault.

A function that aborts says in which state it does (`Abort`).
-/

namespace Nanomsg

open Function

/-- `NN_SINPROC_STATE_*`. -/
inductive SinprocState
  | idle
  | connecting
  | ready
  | active
  | disconnected
  | stoppingPeer
  | stopping
  deriving DecidableEq, Repr

/-- The events a sinproc owns. -/
inductive SinprocObject
  | connect
  | sent
  | received
  | disconnect
  /-- `fsm.stopped`. -/
  | stopped
  deriving DecidableEq, Repr

/-- A state machine events are raised to: of a sinproc, or of an endpoint. -/
inductive Machine (ι ε : Type)
  | sinproc (i : ι)
  | ep (e : ε)
  deriving DecidableEq

/-- `struct nn_sinproc`, with the end it is the peer of. -/
structure Sinproc (ι ε : Type) where
  fsm : FsmState
  /-- `fsm.src` and `fsm.owner`. -/
  src : ℤ
  owner : ε
  state : SinprocState
  /-- `NN_SINPROC_FLAG_SENDING`. -/
  sending : Bool
  /-- `NN_SINPROC_FLAG_RECEIVING`. -/
  receiving : Bool
  peer : Option ι
  pipebase : Pipebase
  msgqueue : Msgqueue
  msg : Message

/-- A raised event: the `nn_fsm_event` used and what it holds. -/
structure SinprocEvent (ι ε : Type) where
  object : ι × SinprocObject
  fsm : Machine ι ε
  src : ℤ
  type : ℤ
  srcptr : ι
  deriving DecidableEq

/-- The ends of inproc connections and the events they have raised. -/
@[ext]
structure Inproc (ι ε : Type) where
  sinproc : ι → Sinproc ι ε
  /-- The events raised by each end to another context, in order. -/
  eventsto : ι → List (SinprocEvent ι ε)
  /-- The events raised by each end in its own context, in order. -/
  events : ι → List (SinprocEvent ι ε)
  /-- Whether an event is queued. -/
  queued : ι × SinprocObject → Bool
  /-- How often each end has raised `STOPPED`. -/
  stops : ι → ℕ
  /-- Every event raised to another context so far. -/
  raised : List (SinprocEvent ι ε)

/-- Why and in which state the process ends. -/
structure Abort (σ : Type) where
  fault : Fault
  state : σ

namespace Sinproc

/-- `NN_SINPROC_CONNECT` and the other types of events. -/
abbrev typeConnect : ℤ := 1
abbrev typeReady : ℤ := 2
abbrev typeAccepted : ℤ := 3
abbrev typeSent : ℤ := 4
abbrev typeReceived : ℤ := 5
abbrev typeDisconnect : ℤ := 6
abbrev typeStopped : ℤ := 7
/-- `NN_SINPROC_SRC_PEER`. -/
abbrev srcPeer : ℤ := 27713
/-- `NN_SINPROC_ACTION_READY`. -/
abbrev actionReady : ℤ := 1

@[simp] theorem typeDisconnect_ne_typeStopped : typeDisconnect ≠ typeStopped := by decide
@[simp] theorem typeStopped_ne_typeDisconnect : typeStopped ≠ typeDisconnect := by decide

variable {ι ε : Type}

/-- `nn_sinproc_init`, `rcvbuf` being the option of the endpoint. -/
def init (src : ℤ) (owner : ε) (rcvbuf : UInt64) (msgs : ℕ → Message) : Sinproc ι ε where
  fsm := .idle
  src := src
  owner := owner
  state := .idle
  sending := false
  receiving := false
  peer := none
  pipebase := Pipebase.init
  msgqueue := Msgqueue.init rcvbuf msgs
  msg := Message.empty

end Sinproc

namespace Inproc

open Sinproc

variable {ι ε : Type}

/-- Aborting in the state `w`. -/
def fail {α : Type} (w : Inproc ι ε) (f : Fault) : Except (Abort (Inproc ι ε)) α := .error ⟨f, w⟩

/-- `nn_assert` in the state `w`. -/
def check (w : Inproc ι ε) (x : Bool) : Except (Abort (Inproc ι ε)) Unit :=
  if x then .ok () else w.fail .assertion

/-- A call, in the state `w`, of a function that may abort. -/
def call {α : Type} (w : Inproc ι ε) : Except Fault α → Except (Abort (Inproc ι ε)) α
  | .ok a => .ok a
  | .error f => w.fail f

@[simp] theorem check_true (w : Inproc ι ε) : w.check true = .ok () := rfl
@[simp] theorem check_false (w : Inproc ι ε) : w.check false = w.fail .assertion := rfl
@[simp] theorem call_ok {α : Type} (w : Inproc ι ε) (a : α) : w.call (.ok a) = .ok a := rfl

variable [DecidableEq ι] (w : Inproc ι ε) (self : ι)

/-- The sinproc `i` being `e`. -/
def set (i : ι) (e : Sinproc ι ε) : Inproc ι ε := { w with sinproc := update w.sinproc i e }

/-- Writing to the sinproc `i`. -/
def modify (i : ι) (f : Sinproc ι ε → Sinproc ι ε) : Inproc ι ε := w.set i (f (w.sinproc i))

/-! ### What a write leaves as it is -/

section

variable {w : Inproc ι ε} {i j : ι} {e e' : Sinproc ι ε}

theorem modify_eq {f : Sinproc ι ε → Sinproc ι ε} : w.modify i f = w.set i (f (w.sinproc i)) := rfl

@[simp] theorem set_self : (w.set i e).sinproc i = e := update_self _ _ _
@[simp] theorem set_of_ne (h : j ≠ i) : (w.set i e).sinproc j = w.sinproc j := update_of_ne h _ _
@[simp] theorem set_eventsto : (w.set i e).eventsto = w.eventsto := rfl
@[simp] theorem set_events : (w.set i e).events = w.events := rfl
@[simp] theorem set_queued : (w.set i e).queued = w.queued := rfl
@[simp] theorem set_stops : (w.set i e).stops = w.stops := rfl
@[simp] theorem set_sinproc_self : w.set i (w.sinproc i) = w := by simp [set]

/-- Two writes to one sinproc are one. -/
@[simp] theorem set_set : (w.set i e).set i e' = w.set i e' := by simp [set]

/-- Writes to two sinprocs commute. -/
theorem set_comm (h : i ≠ j) : (w.set i e).set j e' = (w.set j e').set i e := by
  simp [set, update_comm h]

end

/-! ### Raising events -/

/-- `sinproc->peer`, dereferenced. -/
def peer : Except (Abort (Inproc ι ε)) ι :=
  match (w.sinproc self).peer with
  | none => w.fail .nullDeref
  | some i => if 0 < w.stops i then w.fail .useAfterFree else .ok i

/-- `event` is queued to another context. -/
def pushto (event : SinprocEvent ι ε) : Inproc ι ε :=
  { w with
    queued := update w.queued event.object true
    eventsto := update w.eventsto self (w.eventsto self ++ [event])
    raised := w.raised ++ [event] }

/-- `event` is queued in the context of `self`. -/
def push (event : SinprocEvent ι ε) : Inproc ι ε :=
  { w with
    queued := update w.queued event.object true
    events := update w.events self (w.events self ++ [event]) }

/-- `nn_fsm_raiseto`. -/
def raiseto (fsm : Machine ι ε) (object : ι × SinprocObject) (src type : ℤ) (srcptr : ι) :
    Except (Abort (Inproc ι ε)) (Inproc ι ε) := do
  w.check (!w.queued object)
  pure (w.pushto self ⟨object, fsm, src, type, srcptr⟩)

/-- `nn_fsm_raise`: to the owner. -/
def raise (object : SinprocObject) (type : ℤ) : Except (Abort (Inproc ι ε)) (Inproc ι ε) := do
  w.check (!w.queued (self, object))
  let s := w.sinproc self
  pure (w.push self ⟨(self, object), .ep s.owner, s.src, type, self⟩)

section

variable {w : Inproc ι ε} {self i : ι} {event : SinprocEvent ι ε} {object : ι × SinprocObject}

@[simp] theorem pushto_sinproc : (w.pushto self event).sinproc = w.sinproc := rfl
@[simp] theorem pushto_events : (w.pushto self event).events = w.events := rfl
@[simp] theorem pushto_stops : (w.pushto self event).stops = w.stops := rfl
@[simp] theorem pushto_set {e : Sinproc ι ε} :
    (w.pushto self event).set i e = (w.set i e).pushto self event := rfl
@[simp] theorem push_sinproc : (w.push self event).sinproc = w.sinproc := rfl
@[simp] theorem push_eventsto : (w.push self event).eventsto = w.eventsto := rfl
@[simp] theorem push_stops : (w.push self event).stops = w.stops := rfl

omit [DecidableEq ι] in
theorem check_eq_ok {x : Bool} {u : Unit} : w.check x = .ok u ↔ x = true := by
  cases x <;> simp [fail]

omit [DecidableEq ι] in
theorem peer_eq_ok : w.peer self = .ok i ↔ (w.sinproc self).peer = some i ∧ w.stops i = 0 := by
  rw [peer]
  cases (w.sinproc self).peer with
  | none => simp [fail]
  | some j =>
    by_cases hj : 0 < w.stops j
    · simp only [if_pos hj, fail, reduceCtorEq, Option.some.injEq, false_iff, not_and]
      rintro rfl
      exact Nat.pos_iff_ne_zero.1 hj
    · simp only [if_neg hj, Except.ok.injEq, Option.some.injEq]
      exact ⟨by rintro rfl; exact ⟨rfl, Nat.eq_zero_of_not_pos hj⟩, And.left⟩

omit [DecidableEq ι] in
theorem peer_ok (hp : (w.sinproc self).peer = some i) (hs : w.stops i = 0) :
    w.peer self = .ok i :=
  peer_eq_ok.2 ⟨hp, hs⟩

theorem raiseto_eq_ok {n : Inproc ι ε} {fsm : Machine ι ε} {src type : ℤ} {srcptr : ι} :
    w.raiseto self fsm object src type srcptr = .ok n ↔
      w.queued object = false ∧ w.pushto self ⟨object, fsm, src, type, srcptr⟩ = n := by
  simp [raiseto, bind_eq_ok, check_eq_ok]

theorem raiseto_ok {fsm : Machine ι ε} {src type : ℤ} {srcptr : ι} (h : w.queued object = false) :
    w.raiseto self fsm object src type srcptr =
      .ok (w.pushto self ⟨object, fsm, src, type, srcptr⟩) :=
  raiseto_eq_ok.2 ⟨h, rfl⟩

theorem raise_eq_ok {n : Inproc ι ε} {object : SinprocObject} {type : ℤ} :
    w.raise self object type = .ok n ↔ w.queued (self, object) = false ∧
      w.push self ⟨(self, object), .ep (w.sinproc self).owner, (w.sinproc self).src, type, self⟩ =
        n := by
  simp [raise, bind_eq_ok, check_eq_ok]

theorem raise_ok {object : SinprocObject} {type : ℤ} (h : w.queued (self, object) = false) :
    w.raise self object type =
      .ok (w.push self ⟨(self, object), .ep (w.sinproc self).owner, (w.sinproc self).src, type,
        self⟩) :=
  raise_eq_ok.2 ⟨h, rfl⟩

end

/-- A call of a function of the pipebase. -/
def pipebase (f : Pipebase → Except Fault Pipebase) : Except (Abort (Inproc ι ε)) (Inproc ι ε) := do
  let p ← w.call (f (w.sinproc self).pipebase)
  pure (w.modify self fun s => { s with pipebase := p })

theorem pipebase_ok {w : Inproc ι ε} {self : ι} {f : Pipebase → Except Fault Pipebase} {p : Pipebase}
    (h : f (w.sinproc self).pipebase = .ok p) :
    w.pipebase self f = .ok (w.set self { w.sinproc self with pipebase := p }) := by
  simp [pipebase, h, modify_eq]

/-! ## Sending and receiving -/

/-- `nn_sinproc_send`. -/
def send (msg : Message) : Except (Abort (Inproc ι ε)) (Inproc ι ε × ℤ) :=
  if (w.sinproc self).state = .disconnected then
    .ok (w, -Errno.econnreset)
  else do
    w.check ((w.sinproc self).state = .active)
    w.check (!(w.sinproc self).sending)
    let nmsg : Message := ⟨[], msg.sphdr ++ msg.body⟩
    let w := w.modify self fun s => { s with msg := nmsg, sending := true }
    let peer ← w.peer self
    let w ← w.raiseto self (.sinproc peer) (peer, .sent) srcPeer typeSent self
    pure (w, 0)

/-- Having `peer` know that its message has been taken over. -/
def raiseReceived (peer : ι) : Except (Abort (Inproc ι ε)) (Inproc ι ε) :=
  w.raiseto self (.sinproc peer) (peer, .received) srcPeer typeReceived self

/-- `nn_sinproc_recv` where it takes over a message held back. -/
def retry : Except (Abort (Inproc ι ε)) (Inproc ι ε) := do
  let peer ← w.peer self
  let (q, rc) ← w.call ((w.sinproc self).msgqueue.send (w.sinproc peer).msg)
  w.check (rc = 0 ∨ rc = -Errno.eagain)
  if rc = 0 then do
    let w := w.modify self fun s => { s with msgqueue := q }
    let w := w.modify peer fun s => { s with msg := Message.empty }
    let w ← w.raiseReceived self peer
    pure (w.modify self fun s => { s with receiving := false })
  else
    pure w

/-- `nn_sinproc_recv` where it tells the pipebase that there is more. -/
def announce : Except (Abort (Inproc ι ε)) (Inproc ι ε) :=
  if !(w.sinproc self).msgqueue.empty then w.pipebase self Pipebase.received else .ok w

/-- `nn_sinproc_recv`. -/
def recv : Except (Abort (Inproc ι ε)) (Inproc ι ε × Message) := do
  let s := w.sinproc self
  w.check (s.state = .active ∨ s.state = .disconnected)
  let (q, rc, msg) ← w.call s.msgqueue.recv
  w.check (rc = 0)
  let w := w.modify self fun s => { s with msgqueue := q }
  if s.state ≠ .disconnected ∧ s.receiving then do
    let w ← w.retry self
    let w ← w.announce self
    pure (w, msg)
  else do
    let w ← w.announce self
    pure (w, msg)

/-- `nn_pipe_send`. -/
def pipeSend (msg : Message) : Except (Abort (Inproc ι ε)) (Inproc ι ε) := do
  let w ← w.pipebase self Pipebase.beginSend
  let (w, rc) ← w.send self msg
  w.pipebase self fun p => p.endSend rc

/-- `nn_pipe_recv`. -/
def pipeRecv : Except (Abort (Inproc ι ε)) (Inproc ι ε × Message) := do
  let w ← w.pipebase self Pipebase.beginRecv
  let (w, msg) ← w.recv self
  let w ← w.pipebase self fun p => p.endRecv 0
  pure (w, msg)

/-! ## The state machine -/

/-- `self->state = state`. -/
def setState (state : SinprocState) : Inproc ι ε := w.modify self fun s => { s with state := state }

/-- `nn_pipebase_stop`. -/
def pipebaseStop : Inproc ι ε := w.modify self fun s => { s with pipebase := s.pipebase.stop }

/-- Raising `DISCONNECT` to the peer. -/
def raiseDisconnect : Except (Abort (Inproc ι ε)) (Inproc ι ε) := do
  let peer ← w.peer self
  w.raiseto self (.sinproc peer) (peer, .disconnect) srcPeer typeDisconnect self

/-- Becoming disconnected, and telling the owner. -/
def disconnect : Except (Abort (Inproc ι ε)) (Inproc ι ε) :=
  (w.modify self fun s => { s with state := .disconnected, peer := none }).raise self .disconnect
    typeDisconnect

/-- One more `STOPPED` has been raised. -/
def countStop : Inproc ι ε := { w with stops := update w.stops self (w.stops self + 1) }

/-- `nn_fsm_stopped(&self->fsm, NN_SINPROC_STOPPED)`. -/
def fsmStopped : Except (Abort (Inproc ι ε)) (Inproc ι ε) := do
  let w := w.modify self fun s => { s with fsm := .idle }
  let w ← w.raise self .stopped typeStopped
  pure (w.countStop self)

/-- `nn_sinproc_shutdown_events`. The case of `NN_FSM_ACTION` falls through to
    that of `NN_SINPROC_SRC_PEER`. -/
def shutdownEvents (src type : ℤ) : Except (Abort (Inproc ι ε)) (Inproc ι ε) :=
  let s := w.sinproc self
  if src = Fsm.action ∧ type = Fsm.stop then
    if s.state ≠ .idle ∧ s.state ≠ .disconnected then do
      let w := w.pipebaseStop self
      w.check (s.fsm = .active ∨ s.fsm = .stopping)
      let w ← w.raiseDisconnect self
      pure (w.setState self .stoppingPeer)
    else
      .ok (w.setState self .stopping)
  else if (src = Fsm.action ∨ src = srcPeer) ∧ type = typeReceived then
    .ok w
  else if s.state = .stoppingPeer then
    if src = srcPeer then
      if type = typeDisconnect then .ok (w.setState self .stopping) else .ok w
    else
      w.fail .badSource
  else
    w.fail .badState

/-- What follows `nn_sinproc_shutdown_events` in `nn_sinproc_shutdown`. -/
def shutdownEnd : Except (Abort (Inproc ι ε)) (Inproc ι ε) :=
  if (w.sinproc self).state ≠ .stopping then
    .ok w
  else if w.queued (self, .received) ∨ w.queued (self, .disconnect) then
    .ok w
  else do
    w.check (!w.queued (self, .connect))
    w.check (!w.queued (self, .sent))
    w.fsmStopped self

/-- `nn_sinproc_shutdown`. -/
def shutdown (src type : ℤ) : Except (Abort (Inproc ι ε)) (Inproc ι ε) := do
  w.check ((w.sinproc self).fsm = .stopping)
  let w ← w.shutdownEvents self src type
  w.shutdownEnd self

/-- `nn_pipebase_start`, `nn_sock_add` returning `add`. -/
def pipebaseStart (add : ℤ) : Except (Abort (Inproc ι ε)) (Inproc ι ε × ℤ) := do
  let (p, rc) ← w.call ((w.sinproc self).pipebase.start add)
  pure (w.modify self fun s => { s with pipebase := p }, rc)

/-- The handling of `SENT` by an active sinproc. -/
def handleSent : Except (Abort (Inproc ι ε)) (Inproc ι ε) := do
  let empty := (w.sinproc self).msgqueue.empty
  let peer ← w.peer self
  let (q, rc) ← w.call ((w.sinproc self).msgqueue.send (w.sinproc peer).msg)
  if rc = -Errno.eagain then
    pure (w.modify self fun s => { s with receiving := true })
  else do
    w.check (rc = 0)
    let w := w.modify self fun s => { s with msgqueue := q }
    let w := w.modify peer fun s => { s with msg := Message.empty }
    if empty then do
      let w ← w.pipebase self Pipebase.received
      w.raiseReceived self peer
    else
      w.raiseReceived self peer

/-- `nn_sinproc_handler`. `add` is what `nn_sock_add` returns, if it is called. -/
def handler (add src type : ℤ) (srcptr : Option ι) : Except (Abort (Inproc ι ε)) (Inproc ι ε) :=
  match (w.sinproc self).state with
  | .idle =>
    if src = Fsm.action ∧ type = Fsm.start then .ok (w.setState self .connecting)
    else w.fail .badSource
  | .connecting =>
    if src = Fsm.action then
      if type = actionReady then .ok (w.setState self .ready) else w.fail .badAction
    else if src = srcPeer then
      if type = typeReady then do
        let w := w.modify self fun s => { s with peer := srcptr }
        let (w, rc) ← w.pipebaseStart self add
        w.check (rc = 0)
        let w := w.setState self .active
        let peer ← w.peer self
        w.raiseto self (.sinproc peer) (self, .connect) srcPeer typeAccepted self
      else
        w.fail .badAction
    else
      w.fail .badSource
  | .ready =>
    if src = srcPeer then
      if type = typeReady then do
        -- The peer is not recorded.
        let (w, rc) ← w.pipebaseStart self add
        w.check (rc = 0)
        pure (w.setState self .active)
      else if type = typeAccepted then do
        let (w, rc) ← w.pipebaseStart self add
        if rc ≠ 0 then
          (w.pipebaseStop self).disconnect self
        else
          pure (w.setState self .active)
      else
        w.fail .badAction
    else
      w.fail .badSource
  | .active =>
    if src = srcPeer then
      if type = typeSent then
        w.handleSent self
      else if type = typeReceived then do
        w.check (w.sinproc self).sending
        let w ← w.pipebase self Pipebase.sent
        pure (w.modify self fun s => { s with sending := false })
      else if type = typeDisconnect then do
        let w := w.pipebaseStop self
        let w ← w.raiseDisconnect self
        w.disconnect self
      else
        w.fail .badAction
    else
      w.fail .badSource
  | .disconnected =>
    if src = srcPeer then
      if type = typeReceived then .ok w else w.fail .badAction
    else
      w.fail .badSource
  | .stoppingPeer | .stopping => w.fail .badState

/-- `nn_fsm_feed` of the machine of a sinproc. -/
def feed (add src type : ℤ) (srcptr : Option ι) : Except (Abort (Inproc ι ε)) (Inproc ι ε) :=
  Fsm.feed (w.sinproc self).fsm (w.handler self add) (fun src type _ => w.shutdown self src type)
    src type srcptr

/-- `nn_fsm_start`. -/
def fsmStart (add : ℤ) : Except (Abort (Inproc ι ε)) (Inproc ι ε) := do
  let w ← w.feed self add Fsm.action Fsm.start none
  pure (w.modify self fun s => { s with fsm := .active })

/-- `nn_fsm_action`. -/
def fsmAction (add type : ℤ) : Except (Abort (Inproc ι ε)) (Inproc ι ε) :=
  w.feed self add Fsm.action type none

/-- `nn_sinproc_connect`. -/
def connect (add : ℤ) (peer : ε) : Except (Abort (Inproc ι ε)) (Inproc ι ε) := do
  let w ← w.fsmStart self add
  let w ← w.raiseto self (.ep peer) (self, .connect) srcPeer typeConnect self
  let w ← w.fsmStart self add
  w.fsmAction self add actionReady

/-- `nn_sinproc_accept`, which is declared only. -/
def accept (add : ℤ) (peer : ι) : Except (Abort (Inproc ι ε)) (Inproc ι ε) := do
  let w := w.modify self fun s => { s with peer := some peer }
  let w ← w.raiseto self (.sinproc peer) (self, .connect) srcPeer typeReady self
  let w ← w.fsmStart self add
  w.fsmAction self add actionReady

/-- `nn_sinproc_stop`. -/
def stop : Except (Abort (Inproc ι ε)) (Inproc ι ε) :=
  let w := w.modify self fun s => { s with fsm := .stopping }
  w.shutdown self Fsm.action Fsm.stop

/-! ## Events -/

/-- A sinproc takes an event raised to it. -/
def process (add : ℤ) (event : SinprocEvent ι ε) : Except (Abort (Inproc ι ε)) (Inproc ι ε) :=
  if 0 < w.stops self then w.fail .useAfterFree
  else w.feed self add event.src event.type (some event.srcptr)

/-- The first event raised by `self` to another context is taken out. -/
def popto (event : SinprocEvent ι ε) : Inproc ι ε :=
  { w with
    eventsto := update w.eventsto self (w.eventsto self).tail
    queued := update w.queued event.object false }

/-- The first event raised by `self` in its own context is taken out. -/
def pop (event : SinprocEvent ι ε) : Inproc ι ε :=
  { w with
    events := update w.events self (w.events self).tail
    queued := update w.queued event.object false }

section

variable {w : Inproc ι ε} {self : ι} {event : SinprocEvent ι ε}

@[simp] theorem popto_sinproc : (w.popto self event).sinproc = w.sinproc := rfl
@[simp] theorem popto_stops : (w.popto self event).stops = w.stops := rfl
@[simp] theorem pop_sinproc : (w.pop self event).sinproc = w.sinproc := rfl
@[simp] theorem pop_stops : (w.pop self event).stops = w.stops := rfl

end

end Inproc

end Nanomsg
