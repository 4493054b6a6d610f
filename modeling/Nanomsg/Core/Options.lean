import Mathlib.Data.List.Basic
import Mathlib.Logic.Function.Basic
import Nanomsg.Fault
import Nanomsg.Utils.Wire

/-!
# Socket options

`nn_sock_setopt_inner` and `nn_sock_getopt_inner`: the options of a socket are its own at level
`NN_SOL_SOCKET`, those of its protocol at the levels above and those of a transport below. Of the
transports `nn_ipc` has options, the others of the tree have none.

A value is the bytes that `optval` points to, their number `optvallen` when it is set. What is read
is written at `optval`, of which `optvallen` says how many bytes there are room for. Every option of
the socket is cut to that (`socketOpt_respects`), none of those of `nn_ipc` is
(`getoptInner_respects_iff`).
-/

namespace Nanomsg

open Function

/-! ### An `int` in memory -/

/-- The bytes of an `int`, the lowest one first. -/
def intBytes (val : Int32) : List UInt8 := (putl val.toUInt32).reverse

/-- `*(int *)optval`. -/
def intAt : List UInt8 → Int32
  | b₀ :: b₁ :: b₂ :: b₃ :: _ => (getl b₃ b₂ b₁ b₀).toInt32
  | _ => 0

@[simp] theorem length_intBytes (val : Int32) : (intBytes val).length = 4 := by simp [intBytes]

/-- Four bytes are those of the `int` that they make. -/
theorem intBytes_intAt {l : List UInt8} (h : l.length = 4) : intBytes (intAt l) = l := by
  obtain ⟨b₀, b₁, b₂, b₃, rfl⟩ := List.length_eq_four.1 h
  rw [intBytes, intAt]
  simp [putl_getl]

/-! ### Names -/

/-- `char socket_name[64]`. -/
structure SocketName where
  bytes : List UInt8
  length_eq : bytes.length = 64

namespace SocketName

variable (self : SocketName)

/-- The string that the bytes before the first NUL are. -/
def str : List UInt8 := self.bytes.takeWhile (· ≠ 0)

/-- `memcpy(self->socket_name, src, n)` and the NUL after it. -/
def copy (src : List UInt8) (h : src.length ≤ 63) : SocketName where
  bytes := src ++ 0 :: self.bytes.drop (src.length + 1)
  length_eq := by
    have := self.length_eq
    rw [List.length_append, List.length_cons, List.length_drop]
    omega

/-- The string ends within the bytes. -/
def Terminated : Prop := 0 ∈ self.bytes

variable {self} {src : List UInt8} {h : src.length ≤ 63}

theorem terminated_copy : (self.copy src h).Terminated :=
  List.mem_append_right _ List.mem_cons_self

/-- What has no NUL in it is the string afterwards. -/
theorem str_copy (hsrc : 0 ∉ src) : (self.copy src h).str = src := by
  have hne : ∀ b ∈ src, decide (b ≠ 0) = true := fun b hb =>
    decide_eq_true fun hz => hsrc (hz ▸ hb)
  rw [str, copy, List.takeWhile_append_of_pos hne]
  simp

end SocketName

/-- `sprintf(_, "%d", n)`. -/
def decimal (n : Int32) : List UInt8 :=
  let digits := (Nat.toDigits 10 n.toInt.natAbs).map fun c => c.val.toUInt8
  if n < 0 then 0x2d :: digits else digits

theorem length_decimal_le (n : Int32) : (decimal n).length ≤ 63 := by
  have hlow := n.le_toInt
  have hhigh := n.toInt_lt
  have hdigits : (Nat.toDigits 10 n.toInt.natAbs).length ≤ 10 :=
    (Nat.length_toDigits_le_iff (by decide) (by decide)).2 (by omega)
  rw [decimal]
  split
  · rw [List.length_cons, List.length_map]
    omega
  · rw [List.length_map]
    omega

theorem zero_notMem_decimal (n : Int32) : 0 ∉ decimal n := by
  have hdigits : 0 ∉ (Nat.toDigits 10 n.toInt.natAbs).map fun c => c.val.toUInt8 := by
    rw [List.mem_map]
    rintro ⟨c, hc, h0⟩
    have hd := Nat.isDigit_of_mem_toDigits (by decide) (by decide) hc
    have hz := congrArg UInt8.toNat h0
    rw [UInt32.toNat_toUInt8] at hz
    simp only [Char.isDigit, Bool.and_eq_true, decide_eq_true_eq, ge_iff_le,
      UInt32.le_iff_toNat_le] at hd
    simp at hz hd
    omega
  rw [decimal]
  split
  · rw [List.mem_cons, not_or]
    exact ⟨by decide, hdigits⟩
  · exact hdigits

/-! ### The options -/

/-- The options at level `NN_SOL_SOCKET`. -/
inductive SockOption
  | linger
  | sndbuf
  | rcvbuf
  | sndtimeo
  | rcvtimeo
  | reconnectIvl
  | reconnectIvlMax
  | sndprio
  | rcvprio
  | sndfd
  | rcvfd
  | domain
  | protocol
  | ipv4only
  | socketName
  | rcvmaxsize
  | maxttl
  deriving DecidableEq, Repr

namespace SockOption

/-- The number of an option in `nn.h`. -/
def number : SockOption → ℤ
  | linger => 1
  | sndbuf => 2
  | rcvbuf => 3
  | sndtimeo => 4
  | rcvtimeo => 5
  | reconnectIvl => 6
  | reconnectIvlMax => 7
  | sndprio => 8
  | rcvprio => 9
  | sndfd => 10
  | rcvfd => 11
  | domain => 12
  | protocol => 13
  | ipv4only => 14
  | socketName => 15
  | rcvmaxsize => 16
  | maxttl => 17

def all : List SockOption :=
  [linger, sndbuf, rcvbuf, sndtimeo, rcvtimeo, reconnectIvl, reconnectIvlMax, sndprio, rcvprio, sndfd,
    rcvfd, domain, protocol, ipv4only, socketName, rcvmaxsize, maxttl]

/-- The option of a number. -/
def ofNumber (n : ℤ) : Option SockOption := all.find? (·.number = n)

@[simp] theorem ofNumber_number (o : SockOption) : ofNumber o.number = some o := by
  cases o <;> rfl

theorem number_of_ofNumber {n : ℤ} {o : SockOption} (h : ofNumber n = some o) : o.number = n := by
  simpa using List.find?_some h

end SockOption

/-- What `optval` and `optvallen` tell when an option is set: where the bytes are, and they. -/
structure OptVal where
  addr : UInt64
  bytes : List UInt8

/-- What reading an option leaves: what is returned, the bytes written at `optval`, and
    `*optvallen`. -/
structure OptReply where
  rc : ℤ
  written : List UInt8
  optvallen : ℕ
  deriving DecidableEq, Repr

/-- `struct nn_ep_options`. -/
structure EpOptions where
  sndprio : Int32
  rcvprio : Int32
  ipv4only : Int32

/-- `struct nn_ipc_optset`. -/
structure IpcOptset where
  secAttr : UInt64
  outbuffersz : Int32
  inbuffersz : Int32

/-- What the options use of a transport: the options that its `optset` makes, if it has one. -/
structure OptTransport where
  optset : Option IpcOptset

/-- What the options use of `socktype`, and the two functions of `sockbase->vfptr`. -/
structure OptSocktype where
  domain : Int32
  protocol : Int32
  norecv : Bool
  nosend : Bool
  setopt : Option (ℤ → ℤ → OptVal → ℤ)
  getopt : Option (ℤ → ℤ → ℕ → OptReply)

/-- What the options use of `struct nn_sock`. -/
structure OptSock where
  socktype : OptSocktype
  /-- `nn_efd_getfd` of the two descriptors. -/
  sndfd : Int32
  rcvfd : Int32
  sndbuf : Int32
  rcvbuf : Int32
  rcvmaxsize : Int32
  sndtimeo : Int32
  rcvtimeo : Int32
  reconnectIvl : Int32
  reconnectIvlMax : Int32
  maxttl : Int32
  epTemplate : EpOptions
  socketName : SocketName
  optsets : ℤ → Option IpcOptset

/-! ### The options of `nn_ipc` -/

namespace IpcOptset

/-- `NN_IPC`. -/
abbrev nnIpc : ℤ := -2
/-- `NN_IPC_SEC_ATTR`. -/
abbrev secAttrOption : ℤ := 1
/-- `NN_IPC_OUTBUFSZ`. -/
abbrev outbufszOption : ℤ := 2
/-- `NN_IPC_INBUFSZ`. -/
abbrev inbufszOption : ℤ := 3

/-- `nn_ipc_optset`. -/
def init : IpcOptset := ⟨0, 4096, 4096⟩

variable (self : IpcOptset)

/-- `nn_ipc_optset_setopt`. -/
def setopt (option : ℤ) (optval : OptVal) : ℤ × IpcOptset :=
  if optval.bytes.length < 4 then
    (-Errno.einval, self)
  else if option = secAttrOption then
    (0, { self with secAttr := optval.addr })
  else if option = outbufszOption then
    (0, { self with outbuffersz := intAt optval.bytes })
  else if option = inbufszOption then
    (0, { self with inbuffersz := intAt optval.bytes })
  else
    (-Errno.enoprotoopt, self)

/-- The bytes of a pointer, the lowest one first. -/
def ptrBytes (p : UInt64) : List UInt8 :=
  (List.range 8).map fun i => (p >>> (8 * i).toUInt64).toUInt8

@[simp] theorem length_ptrBytes (p : UInt64) : (ptrBytes p).length = 8 := by simp [ptrBytes]

/-- `nn_ipc_optset_getopt`. -/
def getopt (option : ℤ) (optvallen : ℕ) : OptReply :=
  if option = secAttrOption then
    ⟨0, ptrBytes self.secAttr, 8⟩
  else if option = outbufszOption then
    ⟨0, intBytes self.outbuffersz, 4⟩
  else if option = inbufszOption then
    ⟨0, intBytes self.inbuffersz, 4⟩
  else
    ⟨-Errno.enoprotoopt, [], optvallen⟩

end IpcOptset

namespace OptTransport

/-- The transports of the tree. -/
def nnIpc : OptTransport := ⟨some .init⟩
def nnInproc : OptTransport := ⟨none⟩

end OptTransport

namespace OptSock

/-- `NN_MAX_TRANSPORT`. -/
abbrev maxTransport : ℤ := 4

variable (self : OptSock) (transport : ℤ → Option OptTransport)

/-- `nn_sock_init`: what was in the name's bytes before stays after its NUL. -/
def init (socktype : OptSocktype) (fd sndfd rcvfd : Int32) (memory : SocketName) : OptSock where
  socktype := socktype
  sndfd := sndfd
  rcvfd := rcvfd
  sndbuf := 128 * 1024
  rcvbuf := 128 * 1024
  rcvmaxsize := 1024 * 1024
  sndtimeo := -1
  rcvtimeo := -1
  reconnectIvl := 100
  reconnectIvlMax := 0
  maxttl := 8
  epTemplate := ⟨8, 8, 1⟩
  socketName := memory.copy (decimal fd) (length_decimal_le fd)
  optsets _ := none

/-- `nn_sock_optset`, `nn_global_transport` being `transport`. -/
def optset (id : ℤ) : Option IpcOptset × OptSock :=
  let index := -id - 1
  if index < 0 ∨ index ≥ maxTransport then
    (none, self)
  else
    match self.optsets index with
    | some optset => (some optset, self)
    | none =>
      match transport id with
      | none => (none, self)
      | some tp =>
        match tp.optset with
        | none => (none, self)
        | some optset => (some optset, { self with optsets := update self.optsets index (some optset) })

/-! ### Setting -/

/-- The `switch` of `nn_sock_setopt_inner`. -/
def setInt (option : SockOption) (val : Int32) : ℤ × OptSock :=
  match option with
  | .sndbuf =>
    if val ≤ 0 then (-Errno.einval, self) else (0, { self with sndbuf := val })
  | .rcvbuf =>
    if val ≤ 0 then (-Errno.einval, self) else (0, { self with rcvbuf := val })
  | .rcvmaxsize =>
    if val ≤ 0 then (-Errno.einval, self) else (0, { self with rcvmaxsize := val })
  | .sndtimeo => (0, { self with sndtimeo := val })
  | .rcvtimeo => (0, { self with rcvtimeo := val })
  | .reconnectIvl =>
    if val < 0 then (-Errno.einval, self) else (0, { self with reconnectIvl := val })
  | .reconnectIvlMax =>
    if val < 0 then (-Errno.einval, self) else (0, { self with reconnectIvlMax := val })
  | .sndprio =>
    if val < 1 ∨ val > 16 then (-Errno.einval, self)
    else (0, { self with epTemplate := { self.epTemplate with sndprio := val } })
  | .rcvprio =>
    if val < 1 ∨ val > 16 then (-Errno.einval, self)
    else (0, { self with epTemplate := { self.epTemplate with rcvprio := val } })
  | .ipv4only =>
    if val ≠ 0 ∧ val ≠ 1 then (-Errno.einval, self)
    else (0, { self with epTemplate := { self.epTemplate with ipv4only := val } })
  -- There is no `return` here, but the one of the next case.
  | .maxttl =>
    if val < 1 ∨ val > 255 then (-Errno.einval, self) else (0, { self with maxttl := val })
  | .linger => (0, self)
  | _ => (-Errno.enoprotoopt, self)

/-- `nn_sock_setopt_inner` at level `NN_SOL_SOCKET`. -/
def setSocketOpt (option : ℤ) (optval : List UInt8) : ℤ × OptSock :=
  if option = SockOption.socketName.number then
    if h : optval.length > 63 then
      (-Errno.einval, self)
    else
      (0, { self with socketName := self.socketName.copy optval (Nat.not_lt.1 h) })
  else if optval.length ≠ 4 then
    (-Errno.einval, self)
  else
    match SockOption.ofNumber option with
    | some o => self.setInt o (intAt optval)
    | none => (-Errno.enoprotoopt, self)

/-- `nn_sock_setopt_inner`, with `sockbase` for `sockase`. What the protocol keeps of its options is
    not part of the socket. -/
def setoptInner (level option : ℤ) (optval : OptVal) : ℤ × OptSock :=
  if level > 0 then
    match self.socktype.setopt with
    | none => (-Errno.enoprotoopt, self)
    | some setopt => (setopt level option optval, self)
  else if level < 0 then
    match self.optset transport level with
    | (none, self) => (-Errno.enoprotoopt, self)
    | (some optset, self) =>
      let (rc, optset) := optset.setopt option optval
      (rc, { self with optsets := update self.optsets (-level - 1) (some optset) })
  else
    self.setSocketOpt option optval.bytes

/-! ### Reading -/

/-- What is left of an `int` or a descriptor. -/
def intReply (intval : Int32) (optvallen : ℕ) : OptReply :=
  ⟨0, (intBytes intval).take (if optvallen < 4 then optvallen else 4), 4⟩

/-- The bytes that `strncpy(_, src, n)` writes. -/
def strncpy (src : List UInt8) (n : ℕ) : List UInt8 :=
  src.take n ++ List.replicate (n - src.length) 0

/-- `nn_sock_getopt_inner` at level `NN_SOL_SOCKET`. -/
def socketOpt (option : ℤ) (optvallen : ℕ) : OptReply :=
  match SockOption.ofNumber option with
  | some .domain => intReply self.socktype.domain optvallen
  | some .protocol => intReply self.socktype.protocol optvallen
  | some .linger => intReply 0 optvallen
  | some .sndbuf => intReply self.sndbuf optvallen
  | some .rcvbuf => intReply self.rcvbuf optvallen
  | some .rcvmaxsize => intReply self.rcvmaxsize optvallen
  | some .sndtimeo => intReply self.sndtimeo optvallen
  | some .rcvtimeo => intReply self.rcvtimeo optvallen
  | some .reconnectIvl => intReply self.reconnectIvl optvallen
  | some .reconnectIvlMax => intReply self.reconnectIvlMax optvallen
  | some .sndprio => intReply self.epTemplate.sndprio optvallen
  | some .rcvprio => intReply self.epTemplate.rcvprio optvallen
  | some .ipv4only => intReply self.epTemplate.ipv4only optvallen
  | some .maxttl => intReply self.maxttl optvallen
  | some .sndfd =>
    if self.socktype.nosend then ⟨-Errno.enoprotoopt, [], optvallen⟩
    else intReply self.sndfd optvallen
  | some .rcvfd =>
    if self.socktype.norecv then ⟨-Errno.enoprotoopt, [], optvallen⟩
    else intReply self.rcvfd optvallen
  | some .socketName =>
    ⟨0, strncpy self.socketName.str optvallen, self.socketName.str.length⟩
  | none => ⟨-Errno.enoprotoopt, [], optvallen⟩

/-- `nn_sock_getopt_inner`. -/
def getoptInner (level option : ℤ) (optvallen : ℕ) : OptReply × OptSock :=
  if level > 0 then
    match self.socktype.getopt with
    | none => (⟨-Errno.enoprotoopt, [], optvallen⟩, self)
    | some getopt => (getopt level option optvallen, self)
  else if level < 0 then
    match self.optset transport level with
    | (none, self) => (⟨-Errno.enoprotoopt, [], optvallen⟩, self)
    | (some optset, self) => (optset.getopt option optvallen, self)
  else
    (self.socketOpt option optvallen, self)

end OptSock

/-! ### What reading writes -/

namespace OptReply

/-- No more is written than there is room for; and nothing when reading fails, which leaves
    `*optvallen` as it is. -/
structure Respects (r : OptReply) (optvallen : ℕ) : Prop where
  written : r.written.length ≤ optvallen
  failed : r.rc < 0 → r.written = [] ∧ r.optvallen = optvallen

/-- A reading that fails. -/
theorem respects_failed {rc : ℤ} {optvallen : ℕ} : Respects ⟨rc, [], optvallen⟩ optvallen :=
  ⟨Nat.zero_le _, fun _ => ⟨rfl, rfl⟩⟩

/-- One that does not fail. -/
theorem respects_iff_of_zero {written : List UInt8} {n optvallen : ℕ} :
    Respects ⟨0, written, n⟩ optvallen ↔ written.length ≤ optvallen :=
  ⟨fun h => h.written, fun h => ⟨h, fun hrc => absurd hrc (Int.lt_irrefl 0)⟩⟩

end OptReply

namespace OptSock

open OptReply

variable {self : OptSock} {transport : ℤ → Option OptTransport} {level option : ℤ} {optvallen : ℕ}

theorem intReply_respects (intval : Int32) (optvallen : ℕ) :
    (intReply intval optvallen).Respects optvallen := by
  rw [intReply, respects_iff_of_zero, List.length_take]
  split <;> omega

theorem length_strncpy (src : List UInt8) (n : ℕ) : (strncpy src n).length = n := by
  rw [strncpy, List.length_append, List.length_take, List.length_replicate]
  omega

/-- The options of the socket are cut to the room there is. -/
theorem socketOpt_respects (self : OptSock) (option : ℤ) (optvallen : ℕ) :
    (self.socketOpt option optvallen).Respects optvallen := by
  rw [socketOpt]
  split
  case h_15 | h_16 =>
    split
    · exact respects_failed
    · exact intReply_respects _ _
  case h_17 => exact respects_iff_of_zero.2 (length_strncpy _ _).le
  case h_18 => exact respects_failed
  all_goals exact intReply_respects _ _

/-- The option of a transport is one of those of `nn_ipc`, and there is less room than it takes. -/
def Overruns (self : OptSock) (transport : ℤ → Option OptTransport) (level option : ℤ)
    (optvallen : ℕ) : Prop :=
  level < 0 ∧ (self.optset transport level).1.isSome ∧
    (option = IpcOptset.secAttrOption ∧ optvallen < 8 ∨
      (option = IpcOptset.outbufszOption ∨ option = IpcOptset.inbufszOption) ∧ optvallen < 4)

/-- The options of `nn_ipc` are written in full. -/
theorem ipcGetopt_respects_iff (optset : IpcOptset) (option : ℤ) (optvallen : ℕ) :
    (optset.getopt option optvallen).Respects optvallen ↔
      ¬ (option = IpcOptset.secAttrOption ∧ optvallen < 8 ∨
        (option = IpcOptset.outbufszOption ∨ option = IpcOptset.inbufszOption) ∧ optvallen < 4) := by
  rw [IpcOptset.getopt]
  simp only [IpcOptset.secAttrOption, IpcOptset.outbufszOption, IpcOptset.inbufszOption]
  split
  · rw [respects_iff_of_zero, IpcOptset.length_ptrBytes]
    omega
  split
  · rw [respects_iff_of_zero, length_intBytes]
    omega
  split
  · rw [respects_iff_of_zero, length_intBytes]
    omega
  · exact iff_of_true respects_failed (by omega)

/-- Reading an option of the socket or of a transport writes no more than there is room for, except
    for an option of `nn_ipc` that takes more. -/
theorem getoptInner_respects_iff (self : OptSock) (transport : ℤ → Option OptTransport) {level : ℤ}
    (hlevel : level ≤ 0) (option : ℤ) (optvallen : ℕ) :
    (self.getoptInner transport level option optvallen).1.Respects optvallen ↔
      ¬ self.Overruns transport level option optvallen := by
  rw [getoptInner, if_neg (Int.not_lt.2 hlevel), Overruns]
  by_cases hneg : level < 0
  · rw [if_pos hneg, and_iff_right hneg]
    rcases self.optset transport level with ⟨_ | optset, self⟩
    · exact iff_of_true respects_failed fun h => Bool.false_ne_true h.1
    · rw [ipcGetopt_respects_iff]
      simp
  · rw [if_neg hneg]
    exact iff_of_true (socketOpt_respects _ _ _) fun h => hneg h.1

/-- A socket, when `nn_ipc` is among the transports. -/
def fresh : OptSock := .init ⟨1, 16, false, false, none, none⟩ 0 3 4 ⟨List.replicate 64 0, rfl⟩

def ipcOnly (id : ℤ) : Option OptTransport := if id = IpcOptset.nnIpc then some .nnIpc else none

theorem getoptInner_respects_iff_ipc :
    ((fresh.getoptInner ipcOnly IpcOptset.nnIpc 2 4).1.Respects 4 ↔
      ¬ fresh.Overruns ipcOnly IpcOptset.nnIpc 2 4) :=
  getoptInner_respects_iff fresh ipcOnly (by decide) 2 4

/-- `NN_IPC_OUTBUFSZ` is read into no room at all: four bytes are written. -/
theorem getoptInner_not_respects :
    (fresh.getoptInner ipcOnly IpcOptset.nnIpc 2 0).1.written = [0, 16, 0, 0] ∧
      ¬ (fresh.getoptInner ipcOnly IpcOptset.nnIpc 2 0).1.Respects 0 :=
  ⟨by decide, fun h => absurd h.written (by decide)⟩

end OptSock

end Nanomsg
