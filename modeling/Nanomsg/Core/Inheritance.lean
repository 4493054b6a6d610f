import Nanomsg.Core.Roundtrip
import Nanomsg.Lib.Refinement

/-!
# Where the options of a socket go

The options of a transport are in an option set, which the socket asks the transport for when one of
them is first set or read (`nn_sock_optset`). The options of its endpoints are a template: an endpoint
copies it when it is made (`nn_ep_init`), and a pipe copies what its endpoint has
(`nn_pipebase_init`).

`OptModel` does without option sets: every transport that has options has them from the
beginning, and nobody can tell the difference (`options_refine`). A pipe tells of what was set when
its endpoint was made, whatever is set afterwards (`pipe_reads`).

The functions `setopt` and `getopt` of a protocol, which are given the options of its own level, are
taken to be pure: what they return depends on their arguments alone.
-/

namespace Nanomsg

open Function Transition

/-- A socket, and the options of its endpoints and pipes. -/
structure OptObjects where
  sock : OptSock
  eps : ℕ → Option EpOptions
  pipes : ℕ → Option EpOptions

/-- What is done with options. -/
inductive OptOp
  /-- `nn_sock_setopt` and `nn_sock_getopt`. -/
  | set (level option : ℤ) (optval : OptVal)
  | get (level option : ℤ) (optvallen : ℕ)
  /-- `nn_ep_init`, and `nn_pipebase_init` of a pipe of the endpoint `e`. -/
  | addEp (e : ℕ)
  | addPipe (p e : ℕ)
  /-- `nn_pipe_getopt`. -/
  | pipeGet (p : ℕ) (level option : ℤ) (optvallen : ℕ)

/-- What comes back. -/
inductive OptAnswer
  | rc (rc : ℤ)
  | reply (r : OptReply)
  | done
  deriving DecidableEq

/-- An option of an endpoint. -/
def EpOptions.value (self : EpOptions) : SockOption → Option Int32
  | .sndprio => some self.sndprio
  | .rcvprio => some self.rcvprio
  | .ipv4only => some self.ipv4only
  | _ => none

/-- What a pipe with these options has itself. -/
def EpOptions.own (self : EpOptions) (level option : ℤ) : Option Int32 :=
  if level = solSocket then (SockOption.ofNumber option).bind self.value else none

namespace OptObjects

variable (transport : ℤ → Option OptTransport)

/-- `nn_pipebase_getopt`, which has no value to return. -/
def pipebaseGetopt (sock : OptSock) (options : EpOptions) (level option : ℤ) (optvallen : ℕ) :
    Except Fault (OptReply × OptSock) :=
  if level = solSocket ∧ option = SockOption.sndprio.number then
    .ok (OptSock.intReply options.sndprio optvallen, sock)
  else if level = solSocket ∧ option = SockOption.rcvprio.number then
    .ok (OptSock.intReply options.rcvprio optvallen, sock)
  else if level = solSocket ∧ option = SockOption.ipv4only.number then
    .ok (OptSock.intReply options.ipv4only optvallen, sock)
  else do
    let (r, sock) := sock.getoptInner transport level option optvallen
    nnAssert (r.rc = 0)
    pure (r, sock)

def program : Program OptObjects OptOp OptAnswer Fault where
  exec s
    | .set level option optval =>
      let (rc, sock) := s.sock.setoptInner transport level option optval
      .ok ({ s with sock := sock }, .rc rc)
    | .get level option optvallen =>
      let (r, sock) := s.sock.getoptInner transport level option optvallen
      .ok ({ s with sock := sock }, .reply r)
    | .addEp e => .ok ({ s with eps := update s.eps e (some s.sock.epTemplate) }, .done)
    | .addPipe p e =>
      match s.eps e with
      | none => .error .wildPointer
      | some options => .ok ({ s with pipes := update s.pipes p (some options) }, .done)
    | .pipeGet p level option optvallen =>
      match s.pipes p with
      | none => .error .wildPointer
      | some options => do
        let (r, sock) ← pipebaseGetopt transport s.sock options level option optvallen
        pure ({ s with sock := sock }, .reply r)

/-- A socket with neither endpoints nor pipes. -/
def init (sock : OptSock) : OptObjects := ⟨sock, fun _ => none, fun _ => none⟩

end OptObjects

/-! ## Without option sets -/

namespace OptSock

/-- A socket without its option sets. -/
def forget (s : OptSock) : OptSock := { s with optsets := fun _ => none }

end OptSock

namespace OptTransport

/-- The options that a transport has at first. -/
def options (transport : ℤ → Option OptTransport) (id : ℤ) : Option IpcOptset :=
  if 0 ≤ -id - 1 ∧ -id - 1 < OptSock.maxTransport then (transport id).bind OptTransport.optset else none

end OptTransport

/-- A socket that has no option sets, the options of all transports, and those of the endpoints and
    the pipes. -/
structure OptModel where
  sock : OptSock
  transports : ℤ → IpcOptset
  eps : ℕ → Option EpOptions
  pipes : ℕ → Option EpOptions

namespace OptModel

variable (transport : ℤ → Option OptTransport)

/-- What reading an option tells. -/
def getopt (m : OptModel) (level option : ℤ) (optvallen : ℕ) : OptReply :=
  if level < 0 then
    match OptTransport.options transport level with
    | none => ⟨-Errno.enoprotoopt, [], optvallen⟩
    | some _ => (m.transports level).getopt option optvallen
  else
    (m.sock.getoptInner transport level option optvallen).1

/-- Setting an option. -/
def setopt (m : OptModel) (level option : ℤ) (optval : OptVal) : ℤ × OptModel :=
  if level < 0 then
    match OptTransport.options transport level with
    | none => (-Errno.enoprotoopt, m)
    | some _ =>
      let (rc, optset) := (m.transports level).setopt option optval
      (rc, { m with transports := update m.transports level optset })
  else
    let (rc, sock) := m.sock.setoptInner transport level option optval
    (rc, { m with sock := sock })

/-- What a pipe with the options `options` tells. -/
def pipeReply (m : OptModel) (options : EpOptions) (level option : ℤ) (optvallen : ℕ) : OptReply :=
  match options.own level option with
  | some v => OptSock.intReply v optvallen
  | none => m.getopt transport level option optvallen

def spec : Spec OptModel OptOp OptAnswer where
  step m
    | .set level option optval =>
      let (rc, m) := m.setopt transport level option optval
      (m, .rc rc)
    | .get level option optvallen => (m, .reply (m.getopt transport level option optvallen))
    | .addEp e => ({ m with eps := update m.eps e (some m.sock.epTemplate) }, .done)
    | .addPipe p e => ({ m with pipes := update m.pipes p (m.eps e) }, .done)
    | .pipeGet p level option optvallen =>
      match m.pipes p with
      | none => (m, .done)
      | some options => (m, .reply (m.pipeReply transport options level option optvallen))

/-- A pipe is made of an endpoint, and asked for an option that there is. -/
def Allowed (m : OptModel) : OptOp → Prop
  | .set _ _ _ | .get _ _ _ | .addEp _ => True
  | .addPipe _ e => m.eps e ≠ none
  | .pipeGet p level option optvallen => ∃ options, m.pipes p = some options ∧
    (m.pipeReply transport options level option optvallen).rc = 0

/-- A socket with neither endpoints nor pipes. -/
def init (sock : OptSock) : OptModel where
  sock := sock.forget
  transports id := (OptTransport.options transport id).getD .init
  eps _ := none
  pipes _ := none

end OptModel

namespace OptSock

variable {s : OptSock} {transport : ℤ → Option OptTransport}

/-- Setting an option of the socket has nothing to do with the option sets. -/
theorem setInt_forget (s : OptSock) (o : SockOption) (val : Int32) :
    s.forget.setInt o val = ((s.setInt o val).1, (s.setInt o val).2.forget) ∧
      (s.setInt o val).2.optsets = s.optsets := by
  cases o
  case linger | sndtimeo | rcvtimeo | sndfd | rcvfd | domain | protocol | socketName => exact ⟨rfl, rfl⟩
  all_goals
    simp only [setInt]
    split <;> exact ⟨rfl, rfl⟩

theorem setSocketOpt_forget (s : OptSock) (option : ℤ) (v : List UInt8) :
    s.forget.setSocketOpt option v =
        ((s.setSocketOpt option v).1, (s.setSocketOpt option v).2.forget) ∧
      (s.setSocketOpt option v).2.optsets = s.optsets := by
  simp only [setSocketOpt]
  split
  · split <;> exact ⟨rfl, rfl⟩
  split
  · exact ⟨rfl, rfl⟩
  split
  · exact setInt_forget s _ _
  · exact ⟨rfl, rfl⟩

/-- Reading an option of the socket has nothing to do with the option sets. -/
theorem socketOpt_forget (s : OptSock) (option : ℤ) (optvallen : ℕ) :
    s.forget.socketOpt option optvallen = s.socketOpt option optvallen := rfl

/-- The option sets that the socket has are of transports that have options, and what these are is
    what the transports have at first where there is none. -/
structure Keeps (transport : ℤ → Option OptTransport) (s : OptSock) (transports : ℤ → IpcOptset) :
    Prop where
  made : ∀ id, s.optsets (-id - 1) ≠ none → OptTransport.options transport id ≠ none
  value : ∀ id o, OptTransport.options transport id = some o →
    transports id = (s.optsets (-id - 1)).getD o

variable {transports : ℤ → IpcOptset} {id : ℤ}

theorem Keeps.congr {s' : OptSock} (h : Keeps transport s transports) (hs : s'.optsets = s.optsets) :
    Keeps transport s' transports :=
  ⟨fun id => hs ▸ h.made id, fun id => hs ▸ h.value id⟩

/-- A transport without options has no option set. -/
theorem Keeps.optset_none (h : Keeps transport s transports)
    (ho : OptTransport.options transport id = none) : s.optset transport id = (none, s) := by
  rw [optset]
  split
  · rfl
  · next hr =>
    have hno : s.optsets (-id - 1) = none := by
      by_contra hne
      exact h.made id hne ho
    rw [hno]
    rw [OptTransport.options, if_pos (by omega)] at ho
    dsimp only
    cases ht : transport id with
    | none => rfl
    | some tp =>
      rw [ht] at ho
      have ho : tp.optset = none := ho
      simp only [ho]

/-- One that has options has one, and it is what it should be. -/
theorem Keeps.optset_some (h : Keeps transport s transports) {o : IpcOptset}
    (ho : OptTransport.options transport id = some o) :
    ∃ s', s.optset transport id = (some (transports id), s') ∧ Keeps transport s' transports ∧
      s'.forget = s.forget ∧ s'.optsets (-id - 1) = some (transports id) := by
  have hvalue := h.value id o ho
  have ho' := ho
  rw [OptTransport.options] at ho'
  split at ho'
  · next hr =>
    rw [optset, if_neg (by omega)]
    cases hs : s.optsets (-id - 1) with
    | some o' =>
      rw [hs] at hvalue
      obtain rfl : transports id = o' := hvalue
      exact ⟨s, rfl, h, rfl, hs⟩
    | none =>
      rw [hs] at hvalue
      obtain rfl : transports id = o := hvalue
      obtain ⟨tp, ht, htp⟩ := Option.bind_eq_some_iff.1 ho'
      simp only [ht, htp]
      refine ⟨_, rfl, ⟨fun j hj => ?_, fun j o hj => ?_⟩, rfl, update_self ..⟩
      · by_cases he : j = id
        · rw [he, ho]
          exact Option.some_ne_none _
        · dsimp only at hj
          rw [update_of_ne (by omega)] at hj
          exact h.made j hj
      · by_cases he : j = id
        · subst he
          dsimp only
          rw [update_self]
          rfl
        · dsimp only
          rw [update_of_ne (by omega)]
          exact h.value j o hj
  · cases ho'

/-- The options of a transport are set. -/
theorem Keeps.update (h : Keeps transport s transports) {o : IpcOptset}
    (ho : OptTransport.options transport id = some o) (optset : IpcOptset) :
    Keeps transport { s with optsets := Function.update s.optsets (-id - 1) (some optset) }
      (Function.update transports id optset) where
  made j hj := by
    by_cases he : j = id
    · rw [he, ho]
      exact Option.some_ne_none _
    · dsimp only at hj
      rw [update_of_ne (by omega)] at hj
      exact h.made j hj
  value j o' hj := by
    by_cases he : j = id
    · subst he
      dsimp only
      rw [update_self, update_self]
      rfl
    · dsimp only
      rw [update_of_ne he, update_of_ne (by omega)]
      exact h.value j o' hj

end OptSock

namespace OptModel

variable {transport : ℤ → Option OptTransport} {s : OptObjects} {m : OptModel} {level option : ℤ}

/-- The objects are as the model says. -/
structure Agrees (transport : ℤ → Option OptTransport) (s : OptObjects) (m : OptModel) : Prop where
  sock : s.sock.forget = m.sock
  keeps : s.sock.Keeps transport m.transports
  eps : s.eps = m.eps
  pipes : s.pipes = m.pipes

theorem agrees_init {sock : OptSock} (h : ∀ i, sock.optsets i = none) :
    Agrees transport (OptObjects.init sock) (init transport sock) where
  sock := rfl
  keeps := by
    refine ⟨fun id hne => absurd (h _) hne, fun id o ho => ?_⟩
    show (OptTransport.options transport id).getD .init = (sock.optsets (-id - 1)).getD o
    rw [ho, h]
    rfl
  eps := rfl
  pipes := rfl

/-- An option is set, and both say the same. -/
theorem Agrees.set (h : Agrees transport s m) (level option : ℤ) (optval : OptVal) :
    (s.sock.setoptInner transport level option optval).1 =
        (m.setopt transport level option optval).1 ∧
      Agrees transport { s with sock := (s.sock.setoptInner transport level option optval).2 }
        (m.setopt transport level option optval).2 := by
  obtain ⟨_, transports, eps, pipes⟩ := m
  obtain ⟨rfl, hk, rfl, rfl⟩ := h
  by_cases hneg : level < 0
  · simp only [setopt, OptSock.setoptInner, if_pos hneg, if_neg (show ¬ level > 0 by omega)]
    cases ho : OptTransport.options transport level with
    | none =>
      rw [hk.optset_none ho]
      exact ⟨rfl, rfl, hk, rfl, rfl⟩
    | some o =>
      obtain ⟨s', hx, hk', hf, -⟩ := hk.optset_some ho
      rw [hx]
      exact ⟨rfl, hf, hk'.update ho _, rfl, rfl⟩
  · rw [setopt, if_neg hneg]
    by_cases hpos : level > 0
    · simp only [OptSock.setoptInner, if_pos hpos, OptSock.forget]
      cases s.sock.socktype.setopt with
      | none => exact ⟨rfl, rfl, hk, rfl, rfl⟩
      | some set => exact ⟨rfl, rfl, hk, rfl, rfl⟩
    · obtain ⟨hx, hs⟩ := OptSock.setSocketOpt_forget s.sock option optval.bytes
      simp only [OptSock.setoptInner, if_neg hpos, if_neg hneg, hx]
      exact ⟨trivial, rfl, hk.congr hs, rfl, rfl⟩

/-- One is read. -/
theorem Agrees.get (h : Agrees transport s m) (level option : ℤ) (optvallen : ℕ) :
    (s.sock.getoptInner transport level option optvallen).1 =
        m.getopt transport level option optvallen ∧
      Agrees transport { s with sock := (s.sock.getoptInner transport level option optvallen).2 } m := by
  obtain ⟨_, transports, eps, pipes⟩ := m
  obtain ⟨rfl, hk, rfl, rfl⟩ := h
  by_cases hneg : level < 0
  · simp only [getopt, OptSock.getoptInner, if_pos hneg, if_neg (show ¬ level > 0 by omega)]
    cases ho : OptTransport.options transport level with
    | none =>
      rw [hk.optset_none ho]
      exact ⟨rfl, rfl, hk, rfl, rfl⟩
    | some o =>
      obtain ⟨s', hx, hk', hf, -⟩ := hk.optset_some ho
      rw [hx]
      exact ⟨rfl, hf, hk', rfl, rfl⟩
  · rw [getopt, if_neg hneg]
    by_cases hpos : level > 0
    · simp only [OptSock.getoptInner, if_pos hpos, OptSock.forget]
      cases s.sock.socktype.getopt with
      | none => exact ⟨rfl, rfl, hk, rfl, rfl⟩
      | some get => exact ⟨rfl, rfl, hk, rfl, rfl⟩
    · simp only [OptSock.getoptInner, if_neg hpos, if_neg hneg, OptSock.socketOpt_forget]
      exact ⟨trivial, rfl, hk, rfl, rfl⟩

/-- A pipe tells an option that it has itself. -/
theorem pipebaseGetopt_some {options : EpOptions} {v : Int32} (hv : options.own level option = some v)
    (sock : OptSock) (optvallen : ℕ) :
    OptObjects.pipebaseGetopt transport sock options level option optvallen =
      .ok (OptSock.intReply v optvallen, sock) := by
  rw [EpOptions.own] at hv
  split at hv
  · next hl =>
    obtain ⟨o, ho, hv⟩ := Option.bind_eq_some_iff.1 hv
    obtain rfl := SockOption.number_of_ofNumber ho
    subst hl
    cases o <;> cases hv <;> rfl
  · cases hv

/-- A pipe tells of any other option what the socket does. -/
theorem pipebaseGetopt_none {options : EpOptions} (hv : options.own level option = none) {sock : OptSock}
    {optvallen : ℕ} (hr : (sock.getoptInner transport level option optvallen).1.rc = 0) :
    OptObjects.pipebaseGetopt transport sock options level option optvallen =
      .ok (sock.getoptInner transport level option optvallen) := by
  have hne : ∀ o : SockOption, options.value o ≠ none →
      ¬ (level = solSocket ∧ option = o.number) := by
    rintro o ho ⟨rfl, rfl⟩
    rw [EpOptions.own, if_pos rfl, SockOption.ofNumber_number] at hv
    exact ho hv
  rw [OptObjects.pipebaseGetopt, if_neg (hne .sndprio nofun), if_neg (hne .rcvprio nofun),
    if_neg (hne .ipv4only nofun)]
  simp only [hr, decide_true, nnAssert_true, ok_bind]
  rfl

/-- A pipe tells of an option, and both say the same. -/
theorem Agrees.pipeGet (h : Agrees transport s m) (options : EpOptions) {optvallen : ℕ}
    (hr : (m.pipeReply transport options level option optvallen).rc = 0) :
    ∃ sock, OptObjects.pipebaseGetopt transport s.sock options level option optvallen =
        .ok (m.pipeReply transport options level option optvallen, sock) ∧
      Agrees transport { s with sock := sock } m := by
  rw [pipeReply] at hr ⊢
  cases hv : options.own level option with
  | some v => exact ⟨s.sock, pipebaseGetopt_some hv s.sock optvallen, h⟩
  | none =>
    rw [hv] at hr
    obtain ⟨hg, ha⟩ := h.get level option optvallen
    refine ⟨_, ?_, ha⟩
    dsimp only at hr ⊢
    rw [pipebaseGetopt_none hv (hg ▸ hr), ← hg]

/-- A socket with its option sets does what the model does without. -/
theorem refines : (OptObjects.program transport).Refines (spec transport) (Allowed transport)
    (Agrees transport) := by
  intro s m op h ha
  cases op with
  | set level option optval =>
    obtain ⟨hrc, h'⟩ := h.set level option optval
    exact ⟨_, by simp only [OptObjects.program, spec, hrc], h'⟩
  | get level option optvallen =>
    obtain ⟨hr, h'⟩ := h.get level option optvallen
    exact ⟨_, by simp only [OptObjects.program, spec, hr], h'⟩
  | addEp e =>
    refine ⟨_, rfl, h.sock, h.keeps, ?_, h.pipes⟩
    simp only [spec, ← h.sock, ← h.eps]
    rfl
  | addPipe p e =>
    obtain ⟨options, ho⟩ := Option.ne_none_iff_exists'.1 ha
    have ho' : s.eps e = some options := by rw [h.eps, ho]
    refine ⟨{ s with pipes := update s.pipes p (some options) }, ?_, h.sock, h.keeps, h.eps, ?_⟩
    · simp only [OptObjects.program, ho', spec]
    · simp only [spec, ho, h.pipes]
  | pipeGet p level option optvallen =>
    obtain ⟨options, ho, hr⟩ := ha
    obtain ⟨sock, hx, h'⟩ := h.pipeGet options hr
    have ho' : s.pipes p = some options := by rw [h.pipes, ho]
    refine ⟨{ s with sock := sock }, ?_, ?_⟩
    · simp only [OptObjects.program, ho', hx, ok_bind, spec, ho]
      rfl
    · simp only [spec, ho]
      exact h'

/-- Whatever is set, read and made of a socket that has just been made, every answer is that of the model,
    in which every transport has its options from the beginning. -/
theorem options_refine (transport : ℤ → Option OptTransport) (socktype : OptSocktype)
    (fd sndfd rcvfd : Int32) (memory : SocketName) {ops : List OptOp}
    (hops : (spec transport).Allowed (Allowed transport)
      (init transport (.init socktype fd sndfd rcvfd memory)) ops) :
    ∃ s, (OptObjects.program transport).run (.init (.init socktype fd sndfd rcvfd memory)) ops =
      .ok (s, ((spec transport).run (init transport (.init socktype fd sndfd rcvfd memory)) ops).2) := by
  obtain ⟨s, hx, -⟩ := refines.run (agrees_init fun _ => rfl) hops
  exact ⟨s, hx⟩

/-- The output buffers of `nn_ipc` are set before anything is read, and their size is read by the pipe of
    an endpoint as by the socket. -/
theorem options_refine_ipc : ∃ s answers,
    (OptObjects.program OptSock.ipcOnly).run (.init OptSock.fresh)
      [.addEp 1, .addPipe 2 1, .set (-2) 2 ⟨0, intBytes 8192⟩, .get (-2) 3 4, .pipeGet 2 (-2) 2 4] =
        .ok (s, answers) ∧
      answers = [.done, .done, .rc 0, .reply ⟨0, intBytes 4096, 4⟩, .reply ⟨0, intBytes 8192, 4⟩] := by
  have hops : (spec OptSock.ipcOnly).Allowed (Allowed OptSock.ipcOnly) (init OptSock.ipcOnly OptSock.fresh)
      [.addEp 1, .addPipe 2 1, .set (-2) 2 ⟨0, intBytes 8192⟩, .get (-2) 3 4, .pipeGet 2 (-2) 2 4] :=
    ⟨trivial, nofun, trivial, trivial, ⟨_, rfl, rfl⟩, trivial⟩
  obtain ⟨s, hx⟩ := options_refine OptSock.ipcOnly _ 0 3 4 _ hops
  exact ⟨s, _, hx, rfl⟩

end OptModel

/-! ## What pipes inherit -/

namespace OptSock

variable {s : OptSock} {transport : ℤ → Option OptTransport}

theorem optset_valid (transport : ℤ → Option OptTransport) (h : s.Valid) (id : ℤ) : (s.optset transport id).2.Valid := by
  rw [optset]
  split
  · exact h
  split
  · exact h
  split
  · exact h
  split
  · exact h
  · exact { h with }

/-- Whatever is set, the options of the socket are valid. -/
theorem setoptInner_valid (h : s.Valid) (level option : ℤ) (optval : OptVal) :
    (s.setoptInner transport level option optval).2.Valid := by
  rw [setoptInner]
  split
  · split <;> exact h
  split
  · have hv := optset_valid transport h level
    split
    · next hx =>
      rw [hx] at hv
      exact hv
    · next hx =>
      rw [hx] at hv
      exact { hv with }
  · obtain ⟨o, -, ho⟩ | ⟨-, rc, -, hx⟩ := setSocketOpt_outcome s option optval.bytes
    · exact ho.valid_of h
    · rw [hx]
      exact h

theorem getoptInner_valid (h : s.Valid) (level option : ℤ) (optvallen : ℕ) :
    (s.getoptInner transport level option optvallen).2.Valid := by
  rw [getoptInner]
  split
  · split <;> exact h
  split
  · have hv := optset_valid transport h level
    split
    · next hx =>
      rw [hx] at hv
      exact hv
    · next hx =>
      rw [hx] at hv
      exact hv
  · exact h

end OptSock

namespace OptObjects

variable {transport : ℤ → Option OptTransport} {s s' : OptObjects} {op : OptOp} {a : OptAnswer}

/-- What an operation does not touch, it leaves as it is. -/
theorem exec_frame (hx : (program transport).exec s op = .ok (s', a)) :
    (s.sock.Valid → s'.sock.Valid) ∧ (∀ e, op ≠ .addEp e → s'.eps e = s.eps e) ∧
      ∀ p, (∀ e, op ≠ .addPipe p e) → s'.pipes p = s.pipes p := by
  cases op with
  | set level option optval =>
    cases hx
    exact ⟨fun h => OptSock.setoptInner_valid h .., fun _ _ => rfl, fun _ _ => rfl⟩
  | get level option optvallen =>
    cases hx
    exact ⟨fun h => OptSock.getoptInner_valid h .., fun _ _ => rfl, fun _ _ => rfl⟩
  | addEp e =>
    cases hx
    exact ⟨id, fun e' he => update_of_ne (fun h => he (by rw [h])) .., fun _ _ => rfl⟩
  | addPipe p e =>
    simp only [program] at hx
    split at hx
    · cases hx
    · cases hx
      exact ⟨id, fun _ _ => rfl, fun p' hp => update_of_ne (fun h => hp e (by rw [h])) ..⟩
  | pipeGet p level option optvallen =>
    simp only [program] at hx
    split at hx
    · cases hx
    · obtain ⟨⟨r, sock⟩, hg, hx⟩ := bind_eq_ok.1 hx
      cases hx
      refine ⟨fun h => ?_, fun _ _ => rfl, fun _ _ => rfl⟩
      rw [pipebaseGetopt] at hg
      split at hg
      · cases hg
        exact h
      split at hg
      · cases hg
        exact h
      split at hg
      · cases hg
        exact h
      · obtain ⟨-, -, hg⟩ := bind_eq_ok.1 hg
        cases hg
        exact OptSock.getoptInner_valid h ..

/-- The options that a pipe has itself. -/
def Inherited (o : SockOption) : Prop := o = .sndprio ∨ o = .rcvprio ∨ o = .ipv4only

/-- A pipe tells of an option what the socket had told of it when the endpoint of the pipe was made,
    whatever has been set since, for that or for any other endpoint; a priority is one of 1 to 16. -/
theorem pipe_reads (transport : ℤ → Option OptTransport) (socktype : OptSocktype)
    (fd sndfd rcvfd : Int32) (memory : SocketName) {as bs cs : List OptOp} {e p : ℕ} {s : OptObjects}
    {answers : List OptAnswer}
    (hrun : (program transport).run (init (.init socktype fd sndfd rcvfd memory))
      (as ++ (.addEp e :: bs ++ (.addPipe p e :: cs))) = .ok (s, answers))
    (he : .addEp e ∉ bs) (hp : ∀ e', .addPipe p e' ∉ cs) {o : SockOption} (ho : Inherited o)
    (optvallen : ℕ) : ∃ s₀ answers₀ v,
      (program transport).run (init (.init socktype fd sndfd rcvfd memory)) as = .ok (s₀, answers₀) ∧
      s₀.sock.socketOpt o.number optvallen = OptSock.intReply v optvallen ∧
      (program transport).exec s (.pipeGet p solSocket o.number optvallen) =
        .ok (s, .reply (OptSock.intReply v optvallen)) ∧
      0 ≤ v ∧ v ≤ 16 ∧ (o ≠ .ipv4only → 1 ≤ v) := by
  obtain ⟨s₀, answers₀, _, _, hr₀, hrun, h₀⟩ := Program.run_append_eq_ok.1 hrun
  obtain rfl := (Prod.mk.inj h₀).1
  obtain ⟨s₂, _, _, _, hrun₂, hrun, h₁⟩ := Program.run_append_eq_ok.1 hrun
  obtain rfl := (Prod.mk.inj h₁).1
  obtain ⟨s₁, _, _, _, hx₁, hr₁, h₂⟩ := Program.run_cons_eq_ok.1 hrun₂
  obtain rfl := (Prod.mk.inj h₂).1
  obtain ⟨s₃, _, _, _, hx₃, hr₃, h₃⟩ := Program.run_cons_eq_ok.1 hrun
  obtain rfl := (Prod.mk.inj h₃).1
  have hvalid : s₀.sock.Valid := by
    refine Program.run_keeps (P := fun s => s.sock.Valid) (C := fun _ => True)
      (fun _ _ _ _ h _ hx => (exec_frame hx).1 h) ?_ (fun _ _ => trivial) hr₀
    exact OptSock.valid_init ..
  have hep : s₂.eps e = some s₀.sock.epTemplate := by
    refine Program.run_keeps (P := fun s => s.eps e = some s₀.sock.epTemplate)
      (C := fun op => op ≠ .addEp e) (fun _ _ _ _ h hne hx => ((exec_frame hx).2.1 e hne).trans h) ?_
      (fun op hop hop' => he (hop' ▸ hop)) hr₁
    cases hx₁
    exact update_self ..
  have hpipe : s.pipes p = some s₀.sock.epTemplate := by
    refine Program.run_keeps (P := fun s => s.pipes p = some s₀.sock.epTemplate)
      (C := fun op => ∀ e', op ≠ .addPipe p e')
      (fun _ _ _ _ h hne hx => ((exec_frame hx).2.2 p hne).trans h) ?_
      (fun op hop e' hop' => hp e' (hop' ▸ hop)) hr₃
    simp only [program, hep] at hx₃
    cases hx₃
    exact update_self ..
  have hget : ∀ v, s₀.sock.epTemplate.own solSocket o.number = some v →
      (program transport).exec s (.pipeGet p solSocket o.number optvallen) =
        .ok (s, .reply (OptSock.intReply v optvallen)) := fun v hv => by
    simp only [program, hpipe, OptModel.pipebaseGetopt_some hv, ok_bind]
    rfl
  have hle : ∀ v : Int32, 1 ≤ v → 0 ≤ v := fun v hv =>
    Int32.le_trans (show (0 : Int32) ≤ 1 by decide) hv
  obtain rfl | rfl | rfl := ho
  · obtain ⟨h1, h16⟩ := hvalid.sndprio
    exact ⟨s₀, answers₀, _, hr₀, rfl, hget _ rfl, hle _ h1, h16, fun _ => h1⟩
  · obtain ⟨h1, h16⟩ := hvalid.rcvprio
    exact ⟨s₀, answers₀, _, hr₀, rfl, hget _ rfl, hle _ h1, h16, fun _ => h1⟩
  · refine ⟨s₀, answers₀, _, hr₀, rfl, hget _ rfl, ?_⟩
    obtain h0 | h1 := hvalid.ipv4only
    · exact ⟨by rw [h0]; decide, by rw [h0]; decide, fun h => absurd rfl h⟩
    · exact ⟨by rw [h1]; decide, by rw [h1]; decide, fun h => absurd rfl h⟩

/-- A priority is set before the endpoint is made, and another one before its pipe is. -/
theorem pipe_reads_earlier : ∃ s answers,
    (program OptSock.ipcOnly).run (init OptSock.fresh)
        ([.set 0 8 ⟨0, intBytes 3⟩] ++ (.addEp 1 :: [.set 0 8 ⟨0, intBytes 5⟩] ++ [.addPipe 2 1])) =
      .ok (s, answers) ∧
    (program OptSock.ipcOnly).exec s (.pipeGet 2 0 8 4) = .ok (s, .reply ⟨0, intBytes 3, 4⟩) := by
  obtain ⟨s, answers, hrun⟩ : ∃ s answers, (program OptSock.ipcOnly).run (init OptSock.fresh)
      ([.set 0 8 ⟨0, intBytes 3⟩] ++ (.addEp 1 :: [.set 0 8 ⟨0, intBytes 5⟩] ++ [.addPipe 2 1])) =
        .ok (s, answers) := ⟨_, _, rfl⟩
  obtain ⟨s₀, answers₀, v, hr₀, hv, hx, -⟩ := pipe_reads OptSock.ipcOnly
    ⟨1, 16, false, false, none, none⟩ 0 3 4 ⟨List.replicate 64 0, rfl⟩ hrun (by simp) (by simp)
    (.inl rfl) 4
  cases hr₀
  refine ⟨s, answers, hrun, hx.trans ?_⟩
  rw [← hv]
  rfl

end OptObjects

end Nanomsg
