import Nanomsg.Inproc.Sinproc

/-!
# Inproc endpoints

The endpoints of the inproc transport: those that bind to an address
(`binproc.c`) and those that connect to one (`cinproc.c`), and the registry of
both (`ins.c`). An endpoint registers when it is created; for each endpoint of
the other kind it finds at its address it calls back, and makes a sinproc that
connects. An endpoint that is told of a connection makes a sinproc that accepts.

The endpoints are of a type `ε`. The items of the registry, the objects of the
transport and their machines are named by the endpoint they are of, as each of
them is recovered from any other one by `nn_cont` or by `item.ep`. The sinprocs
are numbered as they are allocated.
-/

namespace Nanomsg

open Function Sinproc

/-- `NN_BINPROC_STATE_*` and `NN_CINPROC_STATE_*`. -/
inductive EndpointState
  | idle
  | active
  | stopping
  deriving DecidableEq, Repr

/-- Whether an object is a `struct nn_binproc` or a `struct nn_cinproc`. -/
inductive EndpointKind
  | binproc
  | cinproc
  deriving DecidableEq, Repr

/-- `struct nn_binproc` and `struct nn_cinproc`, whose fields are the same. -/
structure Endpoint where
  kind : EndpointKind
  fsm : FsmState
  state : EndpointState
  sinprocs : List ℕ
  deriving DecidableEq

/-- `NN_STAT_*`, those of them that endpoints change. -/
inductive Statistic
  | establishedConnections
  | acceptedConnections
  | inprogressConnections
  deriving DecidableEq, Repr

/-- What the transport asks of the endpoints. -/
structure Eps (ε : Type) where
  /-- `nn_ep_getaddr`, up to the null. -/
  addr : ε → List UInt8
  /-- `nn_ep_getopt` of `NN_RCVBUF`. -/
  rcvbuf : ε → UInt64
  /-- `nn_ep_ispeer_ep`. -/
  ispeer : ε → ε → Bool
  /-- What newly allocated memory holds. -/
  memory : ℕ → Message

/-- The endpoints of the transport, and their sinprocs. -/
structure Transport (ε : Type) where
  net : Inproc ℕ ε
  /-- How many sinprocs have been allocated, and which have been freed. -/
  allocs : ℕ
  freed : List ℕ
  /-- The object made for an endpoint. -/
  object : ε → Option Endpoint
  /-- `struct nn_ins`. -/
  bound : List ε
  connected : List ε
  /-- The calls of `nn_ep_stat_increment` and `nn_ep_stopped`. -/
  stats : List (ε × Statistic × ℤ)
  stopped : List ε

/-- `NN_SOCKADDR_MAX`. -/
abbrev sockaddrMax : ℕ := 128

/-- `NN_BINPROC_SRC_SINPROC` and `NN_CINPROC_SRC_SINPROC`. -/
abbrev srcSinproc : ℤ := 1

namespace Transport

variable {ε : Type} [DecidableEq ε] (E : Eps ε) (w : Transport ε) (self : ε)

/-- Aborting in the state `w`. -/
def fail {α : Type} (w : Transport ε) (f : Fault) : Except (Abort (Transport ε)) α := .error ⟨f, w⟩

/-- `nn_assert` in the state `w`. -/
def check (w : Transport ε) (x : Bool) : Except (Abort (Transport ε)) Unit :=
  if x then .ok () else w.fail .assertion

/-- The sinprocs being `net`. -/
def withNet (net : Inproc ℕ ε) : Transport ε := { w with net := net }

/-- What a sinproc does. -/
def onNet (f : Inproc ℕ ε → Except (Abort (Inproc ℕ ε)) (Inproc ℕ ε)) :
    Except (Abort (Transport ε)) (Transport ε) :=
  match f w.net with
  | .ok net => .ok (w.withNet net)
  | .error a => .error ⟨a.fault, w.withNet a.state⟩

section

variable {w : Transport ε} {f : Inproc ℕ ε → Except (Abort (Inproc ℕ ε)) (Inproc ℕ ε)}

omit [DecidableEq ε] in
theorem onNet_ok {net : Inproc ℕ ε} (h : f w.net = .ok net) : w.onNet f = .ok (w.withNet net) := by
  rw [onNet, h]

omit [DecidableEq ε] in
theorem onNet_error {a : Abort (Inproc ℕ ε)} (h : f w.net = .error a) :
    w.onNet f = .error ⟨a.fault, w.withNet a.state⟩ := by
  rw [onNet, h]

end

/-- The object of an endpoint, dereferenced. -/
def endpoint : Except (Abort (Transport ε)) Endpoint :=
  match w.object self with
  | none => w.fail .nullDeref
  | some e => .ok e

/-- Writing the object of an endpoint. -/
def put (e : Endpoint) : Transport ε := { w with object := update w.object self (some e) }

section

variable {w : Transport ε} {self : ε} {e : Endpoint}

omit [DecidableEq ε] in
theorem endpoint_ok (h : w.object self = some e) : w.endpoint self = .ok e := by rw [endpoint, h]

@[simp] theorem endpoint_put : (w.put self e).endpoint self = .ok e := endpoint_ok (update_self _ _ _)

end

/-- `nn_ep_stat_increment`. -/
def statIncrement (name : Statistic) (n : ℤ) : Transport ε :=
  { w with stats := w.stats ++ [(self, name, n)] }

/-! ## The registry -/

/-- `strncmp(nn_ep_getaddr(..), nn_ep_getaddr(..), NN_SOCKADDR_MAX) == 0`. -/
def sameAddr (e e' : ε) : Bool := (E.addr e).take sockaddrMax = (E.addr e').take sockaddrMax

/-- What is done with an item found in the registry. -/
abbrev InsFn (ε : Type) := Transport ε → ε → ε → Except (Abort (Transport ε)) (Transport ε)

/-- The second loop of `nn_ins_bind`. -/
def bindLoop (fn : InsFn ε) (item : ε) :
    List ε → Transport ε → Except (Abort (Transport ε)) (Transport ε)
  | [], w => .ok w
  | citem :: it, w =>
    if sameAddr E item citem then
      if !E.ispeer item citem then
        bindLoop fn item it w
      else do
        let w ← fn w item citem
        bindLoop fn item it w
    else
      bindLoop fn item it w

/-- `nn_ins_bind`. -/
def insBind (fn : InsFn ε) (item : ε) : Except (Abort (Transport ε)) (Transport ε × ℤ) :=
  if w.bound.any fun bitem => sameAddr E bitem item then
    .ok (w, -Errno.eaddrinuse)
  else do
    let w := { w with bound := w.bound ++ [item] }
    let w ← bindLoop E fn item w.connected w
    pure (w, 0)

/-- The loop of `nn_ins_connect`. -/
def connectLoop (fn : InsFn ε) (item : ε) :
    List ε → Transport ε → Except (Abort (Transport ε)) (Transport ε)
  | [], w => .ok w
  | bitem :: it, w =>
    if sameAddr E item bitem then
      if !E.ispeer item bitem then .ok w else fn w item bitem
    else
      connectLoop fn item it w

/-- `nn_ins_connect`. -/
def insConnect (fn : InsFn ε) (item : ε) : Except (Abort (Transport ε)) (Transport ε) :=
  let w := { w with connected := w.connected ++ [item] }
  connectLoop E fn item w.bound w

/-- `nn_ins_disconnect`. -/
def insDisconnect (item : ε) : Transport ε := { w with connected := w.connected.erase item }

/-- `nn_ins_unbind`. -/
def insUnbind (item : ε) : Transport ε := { w with bound := w.bound.erase item }

/-! ## Sinprocs -/

/-- `nn_alloc`, `nn_sinproc_init` and `nn_list_insert`: the endpoint `self` has
    one more sinproc, whose events are not queued. -/
def newSinproc (e : Endpoint) : Transport ε :=
  let i := w.allocs
  let net := w.net.set i (Sinproc.init srcSinproc self (E.rcvbuf self) E.memory)
  { w with
    net := { net with queued := fun o => if o.1 = i then false else net.queued o }
    allocs := i + 1
    object := update w.object self (some { e with sinprocs := e.sinprocs ++ [i] }) }

/-- `nn_list_erase`, `nn_sinproc_term` and `nn_free` of a sinproc of `self`. -/
def freeSinproc (e : Endpoint) (i : ℕ) : Except (Abort (Transport ε)) (Transport ε) :=
  if i ∈ e.sinprocs then
    .ok { w.put self { e with sinprocs := e.sinprocs.erase i } with freed := w.freed ++ [i] }
  else
    w.fail .wildPointer

/-- A pointer to a sinproc, dereferenced. -/
def deref : Option ℕ → Except (Abort (Transport ε)) ℕ
  | none => w.fail .nullDeref
  | some i => .ok i

/-- `nn_sinproc_stop` of each of the sinprocs. -/
def stopSinprocs : List ℕ → Transport ε → Except (Abort (Transport ε)) (Transport ε)
  | [], w => .ok w
  | i :: it, w => do
    let w ← w.onNet fun net => net.stop i
    stopSinprocs it w

/-! ## Machines -/

/-- `nn_binproc_connect`. -/
def binprocConnect : InsFn ε := fun w self peer => do
  let binproc := self
  let cinproc := peer
  let e ← w.endpoint binproc
  w.check (e.state = .active)
  let i := w.allocs
  let w := w.newSinproc E binproc e
  let w ← w.onNet fun net => net.connect i 0 cinproc
  pure (w.statIncrement binproc .acceptedConnections 1)

/-- `nn_cinproc_connect`. The second `nn_cont` is of `self`, too. -/
def cinprocConnect : InsFn ε := fun w self _peer => do
  let cinproc := self
  let binproc := self
  let e ← w.endpoint cinproc
  w.check (e.state = .active)
  let i := w.allocs
  let w := w.newSinproc E cinproc e
  let w ← w.onNet fun net => net.connect i 0 binproc
  let w := w.statIncrement cinproc .inprogressConnections (-1)
  pure (w.statIncrement cinproc .establishedConnections (-1))

/-- The handling of `CONNECT` by an active endpoint. -/
def accept (peer : Option ℕ) : Except (Abort (Transport ε)) (Transport ε) := do
  let e ← w.endpoint self
  let peer ← w.deref peer
  let i := w.allocs
  let w := w.newSinproc E self e
  w.onNet fun net => net.accept i 0 peer

/-- `nn_binproc_handler`. -/
def binprocHandler (src type : ℤ) (srcptr : Option ℕ) :
    Except (Abort (Transport ε)) (Transport ε) := do
  let e ← w.endpoint self
  match e.state with
  | .idle =>
    if src = Fsm.action then
      if type = Fsm.start then pure (w.put self { e with state := .active }) else w.fail .badAction
    else
      w.fail .badSource
  | .active =>
    if src = srcPeer then
      if type = typeConnect then w.accept E self srcptr else w.fail .badAction
    else if src = srcSinproc then
      if type = typeStopped then do
        let i ← w.deref srcptr
        w.freeSinproc self e i
      else if type = typeDisconnect then do
        let i ← w.deref srcptr
        w.onNet fun net => net.stop i
      else
        pure w
    else
      w.fail .badSource
  | .stopping => w.fail .badState

/-- `nn_cinproc_handler`. -/
def cinprocHandler (src type : ℤ) (srcptr : Option ℕ) :
    Except (Abort (Transport ε)) (Transport ε) := do
  let e ← w.endpoint self
  match e.state with
  | .idle =>
    if src = Fsm.action then
      if type = Fsm.start then pure (w.put self { e with state := .active }) else w.fail .badAction
    else
      w.fail .badSource
  | .active =>
    if src = srcPeer then
      if type = typeConnect then do
        let w ← w.accept E self srcptr
        let w := w.statIncrement self .inprogressConnections (-1)
        pure (w.statIncrement self .establishedConnections 1)
      else
        w.fail .badAction
    else if src = srcSinproc ∧ type = typeDisconnect then
      pure (w.statIncrement self .inprogressConnections 1)
    else
      w.fail .badSource
  | .stopping => w.fail .badState

/-- What both shutdown handlers do where they say `finish`. -/
def finish (e : Endpoint) : Transport ε :=
  if e.sinprocs ≠ [] then
    w.put self e
  else
    { w.put self { e with fsm := .idle, state := .idle } with stopped := w.stopped ++ [self] }

/-- `binproc_shutdown`, taken for `nn_binproc_shutdown`. The state is not compared
    but assigned where it should be stopping. -/
def binprocShutdown (src type : ℤ) (srcptr : Option ℕ) :
    Except (Abort (Transport ε)) (Transport ε) := do
  let e ← w.endpoint self
  if src = Fsm.action ∧ type = Fsm.stop then do
    let w ← stopSinprocs e.sinprocs (w.insUnbind self)
    pure (w.finish self { e with state := .stopping })
  else do
    w.check (src = srcSinproc ∧ type = typeStopped)
    let i ← w.deref srcptr
    let w ← w.freeSinproc self { e with state := .stopping } i
    pure (w.finish self { e with state := .stopping, sinprocs := e.sinprocs.erase i })

/-- `nn_cinproc_shutdown`. -/
def cinprocShutdown (src type : ℤ) (_srcptr : Option ℕ) :
    Except (Abort (Transport ε)) (Transport ε) := do
  let e ← w.endpoint self
  if src = Fsm.action ∧ type = Fsm.stop then do
    let w ← stopSinprocs e.sinprocs (w.insDisconnect self)
    pure (w.finish self { e with state := .stopping })
  else
    -- In any state, `sinproc` is used without having been assigned.
    w.fail .wildPointer

/-- `nn_fsm_feed` of the machine of an endpoint. -/
def feed (src type : ℤ) (srcptr : Option ℕ) : Except (Abort (Transport ε)) (Transport ε) := do
  let e ← w.endpoint self
  match e.kind with
  | .binproc => Fsm.feed e.fsm (w.binprocHandler E self) (w.binprocShutdown self) src type srcptr
  | .cinproc => Fsm.feed e.fsm (w.cinprocHandler E self) (w.cinprocShutdown self) src type srcptr

/-- `nn_fsm_start`. -/
def fsmStart : Except (Abort (Transport ε)) (Transport ε) := do
  let w ← w.feed E self Fsm.action Fsm.start none
  let e ← w.endpoint self
  pure (w.put self { e with fsm := .active })

/-- `nn_binproc_create`. -/
def binprocCreate (ep : ε) : Except (Abort (Transport ε)) (Transport ε × ℤ) := do
  let w := w.put ep ⟨.binproc, .idle, .idle, []⟩
  let w ← w.fsmStart E ep
  let (w, rc) ← w.insBind E (binprocConnect E) ep
  if rc < 0 then
    pure ({ w with object := update w.object ep none }, rc)
  else
    pure (w, 0)

/-- `nn_cinproc_create`. -/
def cinprocCreate (ep : ε) : Except (Abort (Transport ε)) (Transport ε × ℤ) := do
  let w := w.put ep ⟨.cinproc, .idle, .idle, []⟩
  let w := w.statIncrement ep .inprogressConnections 1
  let w ← w.fsmStart E ep
  let w ← w.insConnect E (cinprocConnect E) ep
  pure (w, 0)

/-- An event taken off its queue is processed. `add` is what `nn_sock_add`
    returns for the pipe of a sinproc. -/
def process (add : ℤ) (event : SinprocEvent ℕ ε) : Except (Abort (Transport ε)) (Transport ε) :=
  match event.fsm with
  | .sinproc i => w.onNet fun net => net.process i add event
  | .ep e => w.feed E e event.src event.type (some event.srcptr)

end Transport

end Nanomsg
