import Nanomsg.Core.Options
import Nanomsg.Lib.Settings

/-!
# Options that are set and read

At level `NN_SOL_SOCKET`, `nn_sock_setopt_inner` and `nn_sock_getopt_inner` are a store of settings:
setting an option does nothing else than that, or nothing when it fails (`setSocketOpt_outcome`);
reading one tells what it was last set to (`options_correct`). The values are those that the rest of
the library can do with (`Valid`).
-/

namespace Nanomsg

/-- `NN_SOL_SOCKET`. -/
abbrev solSocket : ℤ := 0

namespace SockOption

theorem number_injective : Function.Injective number := fun o o' h =>
  Option.some.inj (by rw [← ofNumber_number o, h, ofNumber_number])

/-- The options that have a case in the `switch` of `nn_sock_setopt_inner`, or before it. -/
def Settable : SockOption → Prop
  | sndfd | rcvfd | domain | protocol => False
  | _ => True

end SockOption

namespace OptSock

/-- The value of an option. -/
def field (self : OptSock) : SockOption → List UInt8
  | .linger => intBytes 0
  | .sndbuf => intBytes self.sndbuf
  | .rcvbuf => intBytes self.rcvbuf
  | .sndtimeo => intBytes self.sndtimeo
  | .rcvtimeo => intBytes self.rcvtimeo
  | .reconnectIvl => intBytes self.reconnectIvl
  | .reconnectIvlMax => intBytes self.reconnectIvlMax
  | .sndprio => intBytes self.epTemplate.sndprio
  | .rcvprio => intBytes self.epTemplate.rcvprio
  | .sndfd => intBytes self.sndfd
  | .rcvfd => intBytes self.rcvfd
  | .domain => intBytes self.socktype.domain
  | .protocol => intBytes self.socktype.protocol
  | .ipv4only => intBytes self.epTemplate.ipv4only
  | .socketName => self.socketName.str
  | .rcvmaxsize => intBytes self.rcvmaxsize
  | .maxttl => intBytes self.maxttl

/-- Reading an option whose value is `v`. -/
def reply (o : SockOption) (v : List UInt8) (optvallen : ℕ) : OptReply :=
  ⟨0, if o = .socketName then strncpy v optvallen else v.take optvallen, v.length⟩

/-- `s'` is `s` but for the field of the option `o`. -/
structure OnlyAt (o : SockOption) (s s' : OptSock) : Prop where
  socktype : s'.socktype = s.socktype
  sndfd : s'.sndfd = s.sndfd
  rcvfd : s'.rcvfd = s.rcvfd
  optsets : s'.optsets = s.optsets
  sndbuf : o ≠ .sndbuf → s'.sndbuf = s.sndbuf
  rcvbuf : o ≠ .rcvbuf → s'.rcvbuf = s.rcvbuf
  rcvmaxsize : o ≠ .rcvmaxsize → s'.rcvmaxsize = s.rcvmaxsize
  sndtimeo : o ≠ .sndtimeo → s'.sndtimeo = s.sndtimeo
  rcvtimeo : o ≠ .rcvtimeo → s'.rcvtimeo = s.rcvtimeo
  reconnectIvl : o ≠ .reconnectIvl → s'.reconnectIvl = s.reconnectIvl
  reconnectIvlMax : o ≠ .reconnectIvlMax → s'.reconnectIvlMax = s.reconnectIvlMax
  maxttl : o ≠ .maxttl → s'.maxttl = s.maxttl
  sndprio : o ≠ .sndprio → s'.epTemplate.sndprio = s.epTemplate.sndprio
  rcvprio : o ≠ .rcvprio → s'.epTemplate.rcvprio = s.epTemplate.rcvprio
  ipv4only : o ≠ .ipv4only → s'.epTemplate.ipv4only = s.epTemplate.ipv4only
  socketName : o ≠ .socketName → s'.socketName = s.socketName

/-- The values that an option may have. -/
structure Valid (s : OptSock) : Prop where
  sndbuf : 0 < s.sndbuf
  rcvbuf : 0 < s.rcvbuf
  rcvmaxsize : 0 < s.rcvmaxsize
  reconnectIvl : 0 ≤ s.reconnectIvl
  reconnectIvlMax : 0 ≤ s.reconnectIvlMax
  sndprio : 1 ≤ s.epTemplate.sndprio ∧ s.epTemplate.sndprio ≤ 16
  rcvprio : 1 ≤ s.epTemplate.rcvprio ∧ s.epTemplate.rcvprio ≤ 16
  ipv4only : s.epTemplate.ipv4only = 0 ∨ s.epTemplate.ipv4only = 1
  maxttl : 1 ≤ s.maxttl ∧ s.maxttl ≤ 255
  socketName : s.socketName.Terminated

variable {s s' : OptSock} {o : SockOption} {v : List UInt8}

/-- The values that `nn_sock_init` gives are valid. -/
theorem valid_init (socktype : OptSocktype) (fd sndfd rcvfd : Int32) (memory : SocketName) :
    (init socktype fd sndfd rcvfd memory).Valid where
  sndbuf := show (0 : Int32) < 128 * 1024 by decide
  rcvbuf := show (0 : Int32) < 128 * 1024 by decide
  rcvmaxsize := show (0 : Int32) < 1024 * 1024 by decide
  reconnectIvl := show (0 : Int32) ≤ 100 by decide
  reconnectIvlMax := show (0 : Int32) ≤ 0 by decide
  sndprio := show (1 : Int32) ≤ 8 ∧ (8 : Int32) ≤ 16 by decide
  rcvprio := show (1 : Int32) ≤ 8 ∧ (8 : Int32) ≤ 16 by decide
  ipv4only := .inr rfl
  maxttl := show (1 : Int32) ≤ 8 ∧ (8 : Int32) ≤ 255 by decide
  socketName := @SocketName.terminated_copy memory (decimal fd) (length_decimal_le fd)

/-- A socket is named after its descriptor at first, whatever the bytes of the name were. -/
theorem field_init_socketName (socktype : OptSocktype) (fd sndfd rcvfd : Int32)
    (memory : SocketName) :
    (init socktype fd sndfd rcvfd memory).field .socketName = decimal fd :=
  @SocketName.str_copy memory (decimal fd) (length_decimal_le fd) (zero_notMem_decimal fd)

/-- The other options have the values that they had. -/
theorem OnlyAt.field_eq (h : OnlyAt o s s') {o' : SockOption} (hne : o ≠ o') :
    s'.field o' = s.field o' := by
  cases o' with
  | linger => rfl
  | sndbuf => exact congrArg intBytes (h.sndbuf hne)
  | rcvbuf => exact congrArg intBytes (h.rcvbuf hne)
  | sndtimeo => exact congrArg intBytes (h.sndtimeo hne)
  | rcvtimeo => exact congrArg intBytes (h.rcvtimeo hne)
  | reconnectIvl => exact congrArg intBytes (h.reconnectIvl hne)
  | reconnectIvlMax => exact congrArg intBytes (h.reconnectIvlMax hne)
  | sndprio => exact congrArg intBytes (h.sndprio hne)
  | rcvprio => exact congrArg intBytes (h.rcvprio hne)
  | sndfd => exact congrArg intBytes h.sndfd
  | rcvfd => exact congrArg intBytes h.rcvfd
  | domain => exact congrArg (fun t : OptSocktype => intBytes t.domain) h.socktype
  | protocol => exact congrArg (fun t : OptSocktype => intBytes t.protocol) h.socktype
  | ipv4only => exact congrArg intBytes (h.ipv4only hne)
  | socketName => exact congrArg SocketName.str (h.socketName hne)
  | rcvmaxsize => exact congrArg intBytes (h.rcvmaxsize hne)
  | maxttl => exact congrArg intBytes (h.maxttl hne)

/-! ### Setting -/

/-- What setting the option `o` to `v` has done. -/
inductive Outcome (s : OptSock) (o : SockOption) (v : List UInt8) : ℤ × OptSock → Prop
  /-- It fails, and does nothing. -/
  | refused {rc : ℤ} (h : rc < 0) : Outcome s o v (rc, s)
  /-- It sets the option, to what it may be. -/
  | done {s' : OptSock} (only : OnlyAt o s s') (valid : s.Valid → s'.Valid)
      (field : o ≠ .linger → (o = .socketName → 0 ∉ v) → s'.field o = v) : Outcome s o v (0, s')

/-- A value that is checked first. -/
theorem Outcome.ite {P : Prop} [Decidable P] (h : ¬ P → Outcome s o v (0, s')) :
    Outcome s o v (if P then (-Errno.einval, s) else (0, s')) := by
  split
  · exact .refused (by decide)
  · next hP => exact h hP

/-- The value read is the one that is there. -/
theorem Outcome.set (hv : v.length = 4) (only : OnlyAt o s s') (valid : s.Valid → s'.Valid)
    (field : o ≠ .linger → s'.field o = intBytes (intAt v)) : Outcome s o v (0, s') :=
  .done only valid fun hl _ => (field hl).trans (intBytes_intAt hv)

/-- Each case of the `switch` sets the option that it is for, if the value is valid. -/
theorem setInt_outcome (s : OptSock) (o : SockOption) (hv : v.length = 4) :
    Outcome s o v (s.setInt o (intAt v)) := by
  cases o with
  | sndbuf =>
    refine .ite fun hval => .set hv (by constructor <;> simp) (fun h => ?_) fun _ => rfl
    exact { h with sndbuf := Int32.not_le.1 hval }
  | rcvbuf =>
    refine .ite fun hval => .set hv (by constructor <;> simp) (fun h => ?_) fun _ => rfl
    exact { h with rcvbuf := Int32.not_le.1 hval }
  | rcvmaxsize =>
    refine .ite fun hval => .set hv (by constructor <;> simp) (fun h => ?_) fun _ => rfl
    exact { h with rcvmaxsize := Int32.not_le.1 hval }
  | sndtimeo =>
    exact .set hv (by constructor <;> simp) (fun h => { h with }) fun _ => rfl
  | rcvtimeo =>
    exact .set hv (by constructor <;> simp) (fun h => { h with }) fun _ => rfl
  | reconnectIvl =>
    refine .ite fun hval => .set hv (by constructor <;> simp) (fun h => ?_) fun _ => rfl
    exact { h with reconnectIvl := Int32.not_lt.1 hval }
  | reconnectIvlMax =>
    refine .ite fun hval => .set hv (by constructor <;> simp) (fun h => ?_) fun _ => rfl
    exact { h with reconnectIvlMax := Int32.not_lt.1 hval }
  | sndprio =>
    refine .ite fun hval => .set hv (by constructor <;> simp) (fun h => ?_) fun _ => rfl
    rw [not_or, Int32.not_lt, Int32.not_lt] at hval
    exact { h with sndprio := hval }
  | rcvprio =>
    refine .ite fun hval => .set hv (by constructor <;> simp) (fun h => ?_) fun _ => rfl
    rw [not_or, Int32.not_lt, Int32.not_lt] at hval
    exact { h with rcvprio := hval }
  | ipv4only =>
    refine .ite fun hval => .set hv (by constructor <;> simp) (fun h => ?_) fun _ => rfl
    exact { h with ipv4only := Decidable.or_iff_not_not_and_not.2 hval }
  | maxttl =>
    refine .ite fun hval => .set hv (by constructor <;> simp) (fun h => ?_) fun _ => rfl
    rw [not_or, Int32.not_lt, Int32.not_lt] at hval
    exact { h with maxttl := hval }
  | linger =>
    exact .set hv (by constructor <;> simp) id fun h => absurd rfl h
  | sndfd | rcvfd | domain | protocol | socketName => exact .refused (by decide)

/-- Setting an option sets that option, or fails; so does setting one that there is not. -/
theorem setSocketOpt_outcome (s : OptSock) (option : ℤ) (v : List UInt8) :
    (∃ o, SockOption.ofNumber option = some o ∧ Outcome s o v (s.setSocketOpt option v)) ∨
      SockOption.ofNumber option = none ∧ ∃ rc < 0, s.setSocketOpt option v = (rc, s) := by
  rw [setSocketOpt]
  split
  · next hname =>
    refine .inl ⟨.socketName, by rw [hname, SockOption.ofNumber_number], ?_⟩
    split
    · exact .refused (by decide)
    · next hv =>
      have hlen := Nat.not_lt.1 hv
      refine .done (by constructor <;> simp) (fun h => ?_) fun _ hsrc => ?_
      · exact { h with socketName := @SocketName.terminated_copy s.socketName v hlen }
      · exact @SocketName.str_copy s.socketName v hlen (hsrc rfl)
  · cases ho : SockOption.ofNumber option with
    | none =>
      refine .inr ⟨rfl, ?_⟩
      split
      · exact ⟨_, by decide, rfl⟩
      · exact ⟨_, by decide, rfl⟩
    | some o =>
      refine .inl ⟨o, rfl, ?_⟩
      split
      · exact .refused (by decide)
      · next hv => exact setInt_outcome s o (not_not.1 hv)

/-- Setting an option succeeds and changes no other, or fails and changes nothing. -/
def Atomic (s : OptSock) (option : ℤ) : ℤ × OptSock → Prop
  | (rc, s') => (rc = 0 ∧ ∃ o, SockOption.ofNumber option = some o ∧ OnlyAt o s s') ∨ (rc < 0 ∧ s' = s)

theorem Outcome.atomic {option : ℤ} {r : ℤ × OptSock} (h : Outcome s o v r)
    (ho : SockOption.ofNumber option = some o) : s.Atomic option r := by
  cases h with
  | refused h => exact .inr ⟨h, rfl⟩
  | done only => exact .inl ⟨rfl, o, ho, only⟩

theorem Outcome.valid_of {r : ℤ × OptSock} (h : Outcome s o v r) (hs : s.Valid) : r.2.Valid := by
  cases h with
  | refused => exact hs
  | done only valid => exact valid hs

/-! ### Runs -/

variable (transport : ℤ → Option OptTransport) (addr : UInt64)

/-- The options of a socket as settings, by their numbers; where the values that they are set to are
    in memory is nothing to them. -/
def settings : Settings OptSock ℤ (List UInt8) where
  set s c :=
    let (rc, s') := s.setoptInner transport solSocket c.1 ⟨addr, c.2⟩
    (rc = 0, s')
  get s n := (SockOption.ofNumber n).elim [] s.field

/-- A name that is set has no NUL in it. -/
def Named (c : ℤ × List UInt8) : Prop := c.1 = SockOption.socketName.number → 0 ∉ c.2

variable {transport addr} {c : ℤ × List UInt8}

theorem setoptInner_socket (s : OptSock) (option : ℤ) (optval : OptVal) :
    s.setoptInner transport solSocket option optval = s.setSocketOpt option optval.bytes := by
  rw [setoptInner, if_neg (by decide), if_neg (by decide)]

theorem settings_set : (settings transport addr).set s c =
    (decide ((s.setSocketOpt c.1 c.2).1 = 0), (s.setSocketOpt c.1 c.2).2) := by
  rw [settings]
  dsimp only
  rw [setoptInner_socket]

theorem settings_get : (settings transport addr).get s o.number = s.field o := by
  have hget : (settings transport addr).get s o.number =
      (SockOption.ofNumber o.number).elim [] s.field := rfl
  rw [hget, SockOption.ofNumber_number, Option.elim_some]

/-- What is set is valid. -/
theorem valid_set (h : s.Valid) : ((settings transport addr).set s c).2.Valid := by
  rw [settings_set]
  obtain ⟨o, -, ho⟩ | ⟨-, rc, -, hx⟩ := setSocketOpt_outcome s c.1 c.2
  · exact ho.valid_of h
  · rw [hx]
    exact h

/-- An option is set to what it is told, except for `NN_LINGER`, and left as it is when another is
    set. -/
theorem holds_set (hc : Named c) (hl : o ≠ .linger) :
    (settings transport addr).Holds s c o.number := by
  rw [Settings.Holds, settings_get, settings_get, settings_set]
  dsimp only
  obtain ⟨o', ho, hx⟩ | ⟨-, rc, hrc, hx⟩ := setSocketOpt_outcome s c.1 c.2
  · have hn := SockOption.number_of_ofNumber ho
    generalize s.setSocketOpt c.1 c.2 = r at hx
    cases hx with
    | refused hrc => rw [if_neg (by simp [Int.ne_of_lt hrc])]
    | done only valid field =>
      by_cases heq : o = o'
      · subst heq
        rw [if_pos (by simp [hn])]
        exact field hl fun hname => hc (by rw [← hn, hname])
      · rw [if_neg (by simp [← hn, SockOption.number_injective.eq_iff, heq])]
        exact only.field_eq (Ne.symm heq)
  · rw [hx, if_neg (by simp [Int.ne_of_lt hrc])]

/-! ### Reading -/

theorem intReply_eq (intval : Int32) (optvallen : ℕ) :
    intReply intval optvallen = ⟨0, (intBytes intval).take optvallen, (intBytes intval).length⟩ := by
  rw [intReply, length_intBytes]
  split
  · rfl
  · next h =>
    have hlen := length_intBytes intval
    rw [List.take_of_length_le (by omega), List.take_of_length_le (by omega)]

/-- An option that can be set is read. -/
theorem socketOpt_eq_reply (s : OptSock) (ho : o.Settable) (optvallen : ℕ) :
    s.socketOpt o.number optvallen = reply o (s.field o) optvallen := by
  rw [socketOpt, SockOption.ofNumber_number, reply]
  cases o with
  | sndfd | rcvfd | domain | protocol => exact ho.elim
  | socketName => rfl
  | _ => exact intReply_eq _ optvallen

/-- After any calls of `nn_sock_setopt` at level `NN_SOL_SOCKET` the values are valid; a call sets
    one option, or fails and changes nothing; and an option is read with the value that it was last
    set to, or that `nn_sock_init` gave it. -/
theorem options_correct (socktype : OptSocktype) (fd sndfd rcvfd : Int32) (memory : SocketName)
    (transport : ℤ → Option OptTransport) (addr : UInt64) (calls : List (ℤ × List UInt8)) :
    let S := settings transport addr
    let s₀ := init socktype fd sndfd rcvfd memory
    let s := S.run s₀ calls
    s.Valid ∧
    (∀ option optval, s.Atomic option (s.setoptInner transport solSocket option optval)) ∧
    ((∀ c ∈ calls, Named c) → ∀ o : SockOption, o.Settable → o ≠ .linger → ∀ optvallen,
      (s.getoptInner transport solSocket o.number optvallen).1 =
        reply o (S.last s₀ calls o.number) optvallen) := by
  intro S s₀ s
  have h₀ : s₀.Valid := valid_init socktype fd sndfd rcvfd memory
  refine ⟨S.inv_run (P := fun _ => True) (fun _ _ h _ => valid_set h) h₀ fun _ _ => trivial,
    fun option optval => ?_, fun hnames o ho hl optvallen => ?_⟩
  · rw [setoptInner_socket]
    obtain ⟨o, ho, hx⟩ | ⟨-, rc, hrc, hx⟩ := setSocketOpt_outcome s option optval.bytes
    · exact hx.atomic ho
    · rw [hx]
      exact .inr ⟨hrc, rfl⟩
  · rw [getoptInner, if_neg (by decide), if_neg (by decide)]
    dsimp only
    rw [socketOpt_eq_reply s ho, ← @settings_get s o transport addr]
    have hrun := Settings.get_run (S := S) (I := Valid) (fun _ _ h _ => valid_set h)
      (fun _ _ _ hc => holds_set hc hl) h₀ hnames
    rw [← hrun]

/-- A name is set, and read into ten bytes. -/
theorem options_correct_name :
    (((settings (fun _ => none) 0).run fresh [(15, [110, 110]), (2, [0, 0, 0, 0])]).getoptInner
      (fun _ => none) solSocket 15 10).1 = ⟨0, [110, 110, 0, 0, 0, 0, 0, 0, 0, 0], 2⟩ :=
  ((options_correct _ _ _ _ _ (fun _ => none) 0 [(15, [110, 110]), (2, [0, 0, 0, 0])]).2.2
    (by simp [Named, SockOption.number]) .socketName trivial (by decide) 10).trans (by decide)

end OptSock

end Nanomsg
