import Nanomsg.Aio.Fsm
import Nanomsg.Utils.List

/-!
# Sockets

`sock.c`: the endpoints of a socket and its state machine. An endpoint is in the
list `eps` until it is asked to stop, by `nn_sock_em_ep` or as the socket stops,
and then in the list `sdeps` until its `NN_EP_STOPPED` is handled: by
`nn_sock_handler` while the socket is active, by `nn_sock_shutdown` once it is
stopping. When the last endpoint is gone the protocol is stopped, and when it
says that it is, destroyed.

A socket is modelled with what it points to: the endpoints, numbered by their
allocation, and a record of what has been asked of them and of the protocol.
`nn_ep_start`, `nn_ep_stop` and `nn_ep_term` are declared only: stopping an
endpoint makes its `NN_EP_STOPPED` pending.
-/

namespace Nanomsg

open Intrusive Function

/-- `NN_SOCK_STATE_*`. -/
inductive SockState
  | init
  | active
  | stoppingEps
  | stopping
  | fini
  deriving DecidableEq, Repr

/-- An endpoint, by the number of its allocation. -/
abbrev Ep := ℕ

/-- What the pointer that comes with an event points to. -/
inductive SrcPtr
  | ep (x : Ep)
  | pipe (p : ℕ)
  deriving DecidableEq

/-- When the `stop` of a protocol calls `nn_sockbase_stopped`. -/
inductive StopReply
  | atOnce
  | later
  deriving DecidableEq

/-- What the state machine of a socket uses of `socktype` and of
    `sockbase->vfptr`. -/
structure SockType where
  /-- `NN_SOCKTYPE_FLAG_NORECV`. -/
  norecv : Bool
  /-- `NN_SOCKTYPE_FLAG_NOSEND`. -/
  nosend : Bool
  /-- The `stop` of the protocol, which may be missing. -/
  stop : Option StopReply

/-- A call of a function of `sockbase->vfptr`. -/
inductive ProtocolCall
  | pipeIn (p : ℕ)
  | pipeOut (p : ℕ)
  | stop
  | destroy
  deriving DecidableEq

/-- What the calls of a socket do with its context. -/
inductive CtxCall
  | enter
  | leave
  deriving DecidableEq

/-- `struct nn_sock`, with its endpoints and the record of its calls. -/
structure Sock where
  fsm : FsmState
  state : SockState
  /-- `ctx.sync` is held between two calls. -/
  locked : Bool
  /-- How `ctx` has been entered and left, in order. -/
  ctx : List CtxCall
  rcvfdStopped : Bool
  sndfdStopped : Bool
  termsem : ℕ
  relesem : ℕ
  eps : NnList Ep
  sdeps : NnList Ep
  eid : ℤ
  /-- `fsm.stopped`, and whether it is in the queue `ctx.events`. -/
  stopped : FsmEvent Unit SrcPtr
  stoppedQueued : Bool
  /-- The items of the endpoints, and their `eid`. -/
  items : Items Ep
  eidOf : Ep → ℤ
  /-- How many endpoints have been allocated. -/
  allocs : ℕ
  /-- The endpoints whose `NN_EP_STOPPED` is to come. -/
  pending : List Ep
  /-- The endpoints given to `nn_ep_term` and to `nn_free`, in order. -/
  termed : List Ep
  freed : List Ep
  /-- The calls of the protocol, in order. -/
  calls : List ProtocolCall
  /-- How often the protocol has called `nn_sockbase_stopped`. -/
  reports : ℕ

namespace Sock

/-- `NN_SOCK_ACTION_STOPPED`. -/
abbrev actionStopped : ℤ := 1
/-- `NN_SOCK_SRC_EP`. -/
abbrev srcEp : ℤ := 1
/-- `NN_EP_STOPPED`. -/
abbrev epStopped : ℤ := 1
/-- `NN_PIPE_IN`. -/
abbrev pipeIn : ℤ := 33987
/-- `NN_PIPE_OUT`. -/
abbrev pipeOut : ℤ := 33988
/-- `NN_SOCKADDR_MAX`. -/
abbrev sockaddrMax : ℕ := 128
/-- `INT_MAX`. -/
abbrev intMax : ℤ := 2147483647

@[simp] theorem srcEp_ne_action : srcEp ≠ Fsm.action := by decide
@[simp] theorem actionStopped_ne_stop : actionStopped ≠ Fsm.stop := by decide

variable (t : SockType) (s : Sock)

/-- Dereferencing a pointer to the endpoint `x`. -/
def deref (x : Ep) : Except Fault Ep :=
  if x ∈ s.freed then .error .useAfterFree else .ok x

/-- `(struct nn_ep *)srcptr`, dereferenced. -/
def asEp : Option SrcPtr → Except Fault Ep
  | none => .error .nullDeref
  | some (.ep x) => s.deref x
  | some (.pipe _) => .error .wildPointer

/-- `(struct nn_pipe *)srcptr`. -/
def asPipe : Option SrcPtr → Except Fault ℕ
  | none => .error .nullDeref
  | some (.ep _) => .error .wildPointer
  | some (.pipe p) => .ok p

/-- `nn_ep_stop`. -/
def epStop (x : Ep) : Sock := { s with pending := s.pending ++ [x] }

/-- The `NN_EP_STOPPED` of `x` is delivered. -/
def deliver (x : Ep) : Sock := { s with pending := s.pending.erase x }

/-- `nn_ep_term`. -/
def epTerm (x : Ep) : Sock := { s with termed := s.termed ++ [x] }

/-- `nn_free` of an endpoint. -/
def epFree (x : Ep) : Sock := { s with freed := s.freed ++ [x] }

/-! ## Endpoints -/

/-- `nn_ctx_enter`, taking `ctx.sync`. -/
def enter : Sock := { s with locked := true, ctx := s.ctx ++ [.enter] }

/-- `nn_ctx_leave`, releasing `ctx.sync`. -/
def leave : Sock := { s with locked := false, ctx := s.ctx ++ [.leave] }

/-- `nn_alloc` of an endpoint, the number `s.allocs`. -/
def alloc : Sock := { s with allocs := s.allocs + 1 }

/-- `nn_ep_init`. Whether the transport binds or connects is what it returns. -/
def epInit (x : Ep) (eid : ℤ) (addrLen : ℕ) : Except Fault Sock := do
  nnAssert (addrLen ≤ sockaddrMax)
  pure { s with items := s.items.itemInit x, eidOf := update s.eidOf x eid }

/-- `++self->eid`. -/
def nextEid : Except Fault Sock :=
  if s.eid < intMax then .ok { s with eid := s.eid + 1 } else .error .overflow

/-- `nn_list_insert` of `x` at the end of `eps`. -/
def insertEps (x : Ep) : Except Fault Sock := do
  let (items, eps) ← NnList.insert s.items s.eps x .null
  pure { s with items := items, eps := eps }

/-- `nn_list_insert` of `x` at the end of `sdeps`. -/
def insertSdeps (x : Ep) : Except Fault Sock := do
  let (items, sdeps) ← NnList.insert s.items s.sdeps x .null
  pure { s with items := items, sdeps := sdeps }

/-- `nn_list_erase` of `x` from `eps`. -/
def eraseEps (x : Ep) : Except Fault Sock := do
  let (items, eps, _) ← NnList.erase s.items s.eps x
  pure { s with items := items, eps := eps }

/-- `nn_list_erase` of `x` from `sdeps`. -/
def eraseSdeps (x : Ep) : Except Fault Sock := do
  let (items, sdeps, _) ← NnList.erase s.items s.sdeps x
  pure { s with items := items, sdeps := sdeps }

/-- `nn_sock_add_ep`: whether there is memory, the length of `addr`, and what
    `nn_ep_init` returns. -/
def addEp (memory : Bool) (addrLen : ℕ) (rc : ℤ) : Except Fault (Sock × ℤ) :=
  let s := s.enter
  if !memory then
    -- The context is not left.
    .ok (s, -Errno.enomem)
  else do
    let ep := s.allocs
    let s ← s.alloc.epInit ep s.eid addrLen
    if rc < 0 then
      pure ((s.epFree ep).leave, rc)
    else do
      let eid := s.eid
      let s ← s.nextEid
      let s ← s.insertEps ep
      pure (s.leave, eid)

/-- The loop of `nn_sock_em_ep`, at `it`: the endpoint with the id `eid`. The
    loop visits more endpoints than there are only if it does not end. -/
def findEp (eid : ℤ) : ℕ → Link Ep → Except Fault (Option Ep)
  | 0, _ => .error .diverges
  | _ + 1, .null => .ok none
  | _ + 1, .out => .error .wildPointer
  | n + 1, .node x => do
    let ep ← s.deref x
    if s.eidOf ep = eid then
      pure (some ep)
    else do
      let it ← NnList.next s.items (.node x)
      findEp eid n it

/-- `nn_sock_em_ep`. -/
def emEp (eid : ℤ) : Except Fault (Sock × ℤ) := do
  let s := s.enter
  match ← s.findEp eid (s.allocs + 1) s.eps.first with
  | none => pure (s.leave, -Errno.einval)
  | some ep =>
    let s ← s.eraseEps ep
    let s ← s.insertSdeps ep
    pure ((s.epStop ep).leave, 0)

/-! ## The state machine -/

/-- `nn_sock_stopped`, which `nn_sockbase_stopped` calls. The `src` of the event
    is compared with `NN_FSM_ACTION`, not set to it. -/
def sockbaseStopped : Except Fault Sock := do
  let event := { s.stopped with fsm := some (), srcptr := none, type := actionStopped }
  nnAssert (!s.stoppedQueued)
  pure { s with stopped := event, stoppedQueued := true, reports := s.reports + 1 }

/-- `sockbase->vfptr->stop(sockbase)`. -/
def vfptrStop : StopReply → Except Fault Sock
  | .atOnce => sockbaseStopped { s with calls := s.calls ++ [.stop] }
  | .later => .ok { s with calls := s.calls ++ [.stop] }

/-- `nn_sock_shutdown` from the label `finish1` on. -/
def finish1 : Sock :=
  { s with calls := s.calls ++ [.destroy], state := .fini, termsem := s.termsem + 1 }

/-- `nn_sock_shutdown` from the label `finish2` on. -/
def finish2 : Except Fault Sock :=
  if !s.sdeps.empty then
    .ok s
  else do
    nnAssert s.eps.empty
    let s := { s with state := .stopping }
    match t.stop with
    | none => pure s.finish1
    | some reply => s.vfptrStop reply

/-- `nn_efd_stop` of the descriptors the socket has. -/
def stopEfds : Sock :=
  { s with
    rcvfdStopped := s.rcvfdStopped || !t.norecv
    sndfdStopped := s.sndfdStopped || !t.nosend }

/-- The loop of `nn_sock_shutdown`, at `it`: asking every endpoint to stop. -/
def stopEps : ℕ → Link Ep → Sock → Except Fault Sock
  | 0, _, _ => .error .diverges
  | _ + 1, .null, s => .ok s
  | _ + 1, .out, _ => .error .wildPointer
  | n + 1, .node x, s => do
    let ep ← s.deref x
    let it ← NnList.next s.items (.node x)
    let s ← s.eraseEps ep
    let s ← s.insertSdeps ep
    stopEps n it (s.epStop ep)

/-- `nn_sock_shutdown`. -/
def shutdown (src type : ℤ) (srcptr : Option SrcPtr) : Except Fault Sock :=
  if src = Fsm.action ∧ type = Fsm.stop then do
    nnAssert (s.state = .active)
    let s := s.stopEfds t
    let s ← stopEps (s.allocs + 1) s.eps.first s
    finish2 t { s with state := .stoppingEps }
  else if s.state = .stoppingEps then
    if src = srcEp ∧ type = epStopped then do
      let ep ← s.asEp srcptr
      let s ← s.eraseSdeps ep
      finish2 t ((s.epTerm ep).epFree ep)
    else
      .ok s
  else if s.state = .stopping then do
    nnAssert (src = Fsm.action ∧ type = actionStopped)
    pure s.finish1
  else
    .error .badState

/-- `nn_sock_handler`. -/
def handler (src type : ℤ) (srcptr : Option SrcPtr) : Except Fault Sock :=
  match s.state with
  | .init =>
    if src = Fsm.action then
      if type = Fsm.start then .ok { s with state := .active } else .error .badAction
    else
      .error .badSource
  | .active =>
    if src = Fsm.action then
      .error .badAction
    else if src = srcEp then
      if type = epStopped then do
        let ep ← s.asEp srcptr
        -- The endpoint has been in `sdeps` since it was asked to stop.
        let s ← s.eraseEps ep
        pure ((s.epTerm ep).epFree ep)
      else
        .error .badAction
    else if type = pipeIn then do
      let p ← asPipe srcptr
      pure { s with calls := s.calls ++ [.pipeIn p] }
    else if type = pipeOut then do
      let p ← asPipe srcptr
      pure { s with calls := s.calls ++ [.pipeOut p] }
    else
      .error .badAction
  | _ => .error .badState

/-- `nn_fsm_feed` of the machine of a socket. -/
def feed (src type : ℤ) (srcptr : Option SrcPtr) : Except Fault Sock :=
  Fsm.feed s.fsm s.handler (s.shutdown t) src type srcptr

/-- `nn_sock_stop`. -/
def stop : Except Fault Sock := do
  let s ← feed t { s.enter with fsm := .stopping } Fsm.action Fsm.stop none
  pure s.leave

/-- `nn_ctx_leave` taking `fsm.stopped` off `ctx.events` and processing it. -/
def processStopped : Except Fault Sock :=
  feed t { s with stopped := s.stopped.clear, stoppedQueued := false }
    s.stopped.src s.stopped.type s.stopped.srcptr

/-- `nn_sock_term`: nothing while it waits for one of the two semaphores. -/
def term : Except Fault (Option Sock) :=
  if s.termsem = 0 ∨ s.relesem = 0 then
    .ok none
  else do
    s.sdeps.term
    s.eps.term
    pure (some { s with termsem := s.termsem - 1, relesem := s.relesem - 1, fsm := .idle })

end Sock

/-- `struct nn_sock` after `nn_sock_init`, its memory holding anything. -/
def Sock.opened (items : Items Ep) (eidOf : Ep → ℤ) : Sock where
  fsm := .active
  state := .active
  locked := false
  ctx := []
  rcvfdStopped := false
  sndfdStopped := false
  termsem := 0
  relesem := 0
  eps := NnList.init
  sdeps := NnList.init
  eid := 1
  stopped := FsmEvent.init
  stoppedQueued := false
  items := items
  eidOf := eidOf
  allocs := 0
  pending := []
  termed := []
  freed := []
  calls := []
  reports := 0

/-! ## Actions -/

/-- What may happen to a socket. -/
inductive SockAction
  | addEp (memory : Bool) (addrLen : ℕ) (rc : ℤ)
  | emEp (eid : ℤ)
  /-- `NN_EP_STOPPED` of an endpoint is delivered. -/
  | epStopped (x : Ep)
  | stop
  /-- An event of the pipe `p` is delivered: `NN_PIPE_IN` if `inward`. -/
  | pipe (src : ℤ) (inward : Bool) (p : ℕ)
  /-- The protocol calls `nn_sockbase_stopped`. -/
  | sockbaseStopped
  /-- The event raised by it is delivered. -/
  | processStopped

/-- Taking an action: the socket, and what the call returns. -/
def Sock.exec (t : SockType) (s : Sock) : SockAction → Except Fault (Sock × ℤ)
  | .addEp memory addrLen rc => s.addEp memory addrLen rc
  | .emEp eid => s.emEp eid
  | .epStopped x => do
    let s ← (s.deliver x).feed t srcEp epStopped (some (.ep x))
    pure (s, 0)
  | .stop => do
    let s ← s.stop t
    pure (s, 0)
  | .pipe src inward p => do
    let s ← s.feed t src (if inward then pipeIn else pipeOut) (some (.pipe p))
    pure (s, 0)
  | .sockbaseStopped => do
    let s ← s.sockbaseStopped
    pure (s, 0)
  | .processStopped => do
    let s ← s.processStopped t
    pure (s, 0)

end Nanomsg
