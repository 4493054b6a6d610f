import Nanomsg.Lib.System
import Nanomsg.Fault
import Mathlib.Logic.Function.Basic

/-!
# The overlapped operations of a worker

`worker_win.inc`: an owner sets an operation up, marks it active
(`nn_worker_op_start`) and starts an overlapped call. When the call completes,
the completion port gets an entry, which `nn_worker_routine` takes. An operation
with a callback `start` is transferred in pieces: each entry tells how many
bytes have been, and `start` makes a further call for the bytes left, `resid`. At the
end the owner is fed `NN_WORKER_OP_DONE` or `NN_WORKER_OP_ERROR`.

The timers of the worker, its tasks and its stopping are left out; the entries
of a batch are taken one by one. Of a call only that it has not completed yet is
kept. Recorded besides: how many operations have been begun, the bytes asked
for and those transferred, and what has been fed.

`completions_correct_iff`: all is right until an entry tells that the bytes left have
all been transferred.
-/

namespace Nanomsg

open Function Transition

variable {κ : Type}

/-- `NN_WORKER_OP_STATE_IDLE` and `NN_WORKER_OP_STATE_ACTIVE`. -/
inductive OpState
  | idle
  | active
  deriving DecidableEq

/-- What the owner is fed. -/
inductive OpEvent
  /-- `NN_WORKER_OP_DONE`. -/
  | done
  /-- `NN_WORKER_OP_ERROR`. -/
  | error
  deriving DecidableEq

/-- `struct nn_worker_op`, without its owner. -/
structure WorkerOp where
  state : OpState
  resid : ℕ
  /-- As an address. -/
  buf : ℕ
  /-- `start` is not null. -/
  start : Bool
  zeroIsError : Bool
  deriving DecidableEq

/-- An `OVERLAPPED_ENTRY`. -/
structure PortEntry (κ : Type) where
  /-- The operation `lpOverlapped` is in. -/
  op : κ
  internal : UInt64
  /-- `dwNumberOfBytesTransferred`. -/
  nxfer : ℕ
  deriving DecidableEq

/-- How the `switch` on the status of an entry is left. -/
inductive SwitchExit
  /-- By `break`, with `rc` set. -/
  | feed (rc : OpEvent)
  /-- By `continue`, having called `start`. -/
  | start
  /-- By `continue`. -/
  | next
  deriving DecidableEq

namespace WorkerOp

/-- `nn_worker_op_init`. -/
def init : WorkerOp := ⟨.idle, 0, 0, false, false⟩

variable (op : WorkerOp)

/-- `nn_worker_op_isidle`. -/
def isidle : Bool := op.state = .idle

/-- The `switch` of `nn_worker_routine`. -/
def complete (internal : UInt64) (nxfer : ℕ) : WorkerOp × SwitchExit :=
  if internal &&& 0xc0000000 = 0x00000000 then
    if nxfer = 0 ∧ op.zeroIsError then (op, .feed .error)
    else if op.start then
      if op.resid < nxfer then (op, .feed .error)
      else
        let op := { op with resid := op.resid - nxfer, buf := op.buf + nxfer }
        (op, if op.resid ≠ 0 then .start else .next)
    else (op, .feed .done)
  else if internal &&& 0xc0000000 = 0xc0000000 then (op, .feed .error)
  else (op, .next)

end WorkerOp

namespace PortEntry

variable (e : PortEntry κ) (op : WorkerOp)

/-- The call has succeeded. -/
def succeeded : Prop := e.internal &&& 0xc0000000 = 0x00000000

/-- The call has failed, or transferred what it should not have. -/
def failed : Prop :=
  e.internal &&& 0xc0000000 = 0xc0000000 ∨
    e.succeeded ∧ (e.nxfer = 0 ∧ op.zeroIsError ∨ op.start ∧ op.resid < e.nxfer)

end PortEntry

/-- An operation, and what is recorded of it. -/
structure Transfer where
  op : WorkerOp
  /-- A call has been started and has not completed. -/
  inflight : Bool
  /-- How many times the operation has been begun. -/
  begun : ℕ
  /-- What it has been begun with the last time: the bytes, and where they are. -/
  asked : ℕ
  base : ℕ
  /-- The bytes transferred since. -/
  moved : ℕ
  fed : List OpEvent

/-- The operations, and the entries in the port. -/
structure Completions (κ : Type) where
  transfers : κ → Transfer
  port : List (PortEntry κ)

/-- What the owners, the calls and the routine do. -/
inductive PortAction (κ : Type)
  /-- The owner of `k` sets it up, calls `nn_worker_op_start` and makes the call. -/
  | begin (k : κ) (resid buf : ℕ) (start zeroIsError : Bool)
  /-- The call of an operation completes. -/
  | post (e : PortEntry κ)
  /-- `nn_worker_routine` takes an entry. -/
  | take

namespace Transfer

/-- Before the operation is begun. -/
def init : Transfer := ⟨.init, false, 0, 0, 0, 0, []⟩

variable (t : Transfer)

/-- The owner begins the operation. -/
def begin (resid buf : ℕ) (start zeroIsError : Bool) : Transfer :=
  { t with
    op := ⟨.active, resid, buf, start, zeroIsError⟩
    inflight := true
    begun := t.begun + 1
    asked := resid
    base := buf
    moved := 0 }

/-- `nn_worker_routine` with an entry of the operation. -/
def take (e : PortEntry κ) : Except Fault Transfer :=
  match t.op.complete e.internal e.nxfer with
  | (op, .feed rc) => do
    nnAssert (op.state ≠ .idle)
    pure { t with op := { op with state := .idle }, fed := t.fed ++ [rc] }
  | (op, .start) => .ok { t with op := op, inflight := true, moved := t.moved + e.nxfer }
  | (op, .next) => .ok { t with op := op, moved := t.moved + (t.op.resid - op.resid) }

end Transfer

namespace Completions

variable [DecidableEq κ] (w : Completions κ)

/-- No operation has been begun. -/
def init : Completions κ := ⟨fun _ => .init, []⟩

/-- The transfer of `k` becomes `t`. -/
def set (k : κ) (t : Transfer) : Completions κ := { w with transfers := update w.transfers k t }

/-- `nn_worker_routine` takes an entry. -/
def take : Except Fault (Completions κ) :=
  match w.port with
  | [] => .ok w
  | e :: es => do
    let t ← (w.transfers e.op).take e
    pure ({ w with port := es }.set e.op t)

/-- A call has been started, and its entry has not been taken. -/
def outstanding (k : κ) : Prop := (w.transfers k).inflight ∨ k ∈ w.port.map PortEntry.op

/-- What is taken. -/
def exec : PortAction κ → Except Fault (Completions κ)
  | .begin k resid buf start zeroIsError =>
    .ok (w.set k ((w.transfers k).begin resid buf start zeroIsError))
  | .post e =>
    .ok ({ w with port := w.port ++ [e] }.set e.op { w.transfers e.op with inflight := false })
  | .take => w.take

/-- An owner begins an operation that is idle, with bytes to transfer where `start` is to
    transfer them. -/
def enabled : PortAction κ → Prop
  | .begin k resid _ start _ => (w.transfers k).op.isidle ∧ (start → 0 < resid)
  | .post e => (w.transfers e.op).inflight
  | .take => w.port ≠ []

/-- The operations and the routine. -/
def system : System (Completions κ) (PortAction κ) Fault where
  init w := w = init
  enabled := enabled
  exec := exec

/-! ### What is right -/

end Completions

namespace Transfer

/-- The owner is told of the operation once each time it has been begun. While it is
    active, what has been transferred and what is left are what was asked for. -/
structure Accounted (t : Transfer) : Prop where
  fed : t.fed.length + (if t.op.isidle then 0 else 1) = t.begun
  moved : t.op.start → t.op.state = .active →
    t.moved + t.op.resid = t.asked ∧ t.op.buf = t.base + t.moved

/-- The owner has been fed `rc`, and the operation is idle. -/
def Ends (rc : OpEvent) (t t' : Transfer) : Prop :=
  t'.op.state = .idle ∧ t'.inflight = false ∧ t'.fed = t.fed ++ [rc]

/-- The operation has been started again, for the bytes left. -/
def Restarts (nxfer : ℕ) (t t' : Transfer) : Prop :=
  t'.op = { t.op with resid := t.op.resid - nxfer, buf := t.op.buf + nxfer } ∧
    t'.inflight = true ∧ t'.fed = t.fed

/-- What an entry is to make of a transfer. -/
structure Treated (e : PortEntry κ) (t t' : Transfer) : Prop where
  failed : e.failed t.op → Ends .error t t'
  part : t.op.start → e.succeeded → ¬ e.failed t.op → e.nxfer < t.op.resid → Restarts e.nxfer t t'
  whole : t.op.start → e.succeeded → ¬ e.failed t.op → e.nxfer = t.op.resid → Ends .done t t'
  single : t.op.start = false → e.succeeded → ¬ e.failed t.op → Ends .done t t'

end Transfer

namespace Completions

variable [DecidableEq κ] {w : Completions κ}

/-- The operations are accounted for, and none is left active with no bytes to
    transfer and no call outstanding. -/
structure Right (w : Completions κ) : Prop where
  accounted : ∀ k, (w.transfers k).Accounted
  left : ∀ k, (w.transfers k).op.start → (w.transfers k).op.state = .active →
    (w.transfers k).op.resid = 0 → w.outstanding k

/-- A step is right: the routine treats an entry as it should, and no other operation changes. -/
def StepRight (w : Completions κ) (a : PortAction κ) (w' : Completions κ) : Prop :=
  a = .take → ∀ e es, w.port = e :: es → w'.port = es ∧
    (w.transfers e.op).Treated e (w'.transfers e.op) ∧
    ∀ k, k ≠ e.op → w'.transfers k = w.transfers k

/-- The routine takes an entry that tells of all the bytes left. -/
def Exhausts (w : Completions κ) (a : PortAction κ) : Prop :=
  a = .take ∧ ∃ e es, w.port = e :: es ∧ (w.transfers e.op).op.start ∧ e.succeeded ∧
    e.nxfer = (w.transfers e.op).op.resid

end Completions

/-! ### One entry -/

namespace Transfer

variable {t : Transfer} {e : PortEntry κ}

/-- A transfer while nothing has gone wrong: an active operation has bytes left. -/
structure Sound (t : Transfer) : Prop extends Accounted t where
  resid : t.op.start → t.op.state = .active → 0 < t.op.resid

theorem sound_init : init.Sound where
  fed := rfl
  moved := fun hs => by cases hs
  resid := fun hs => by cases hs

/-- An operation that is idle is begun. -/
theorem Sound.begin (h : t.Sound) (hi : t.op.isidle) {resid buf : ℕ} {start zero : Bool}
    (hr : start → 0 < resid) : (t.begin resid buf start zero).Sound where
  fed := by
    have hf := h.fed
    rw [if_pos hi] at hf
    show t.fed.length + 1 = t.begun + 1
    rw [← hf]
  moved := fun _ _ => ⟨Nat.zero_add resid, rfl⟩
  resid := fun hs _ => hr hs

/-- The owner of an active operation is fed `rc`. -/
theorem Sound.feed (h : t.Sound) (ha : t.op.state = .active) (rc : OpEvent) :
    Sound { t with op := { t.op with state := .idle }, fed := t.fed ++ [rc] } where
  fed := by
    have hf := h.fed
    rw [WorkerOp.isidle, ha, if_neg (by simp)] at hf
    simpa [WorkerOp.isidle] using hf
  moved := fun _ hi => by cases hi
  resid := fun _ hi => by cases hi

/-- Fewer bytes than those left have been transferred, and a call is made for the rest. -/
theorem Sound.restart (h : t.Sound) (ha : t.op.state = .active) (hs : t.op.start) {n : ℕ}
    (hn : n < t.op.resid) :
    Sound { t with
      op := { t.op with resid := t.op.resid - n, buf := t.op.buf + n }
      inflight := true
      moved := t.moved + n } where
  fed := h.fed
  moved := fun _ _ => by
    obtain ⟨hm, hb⟩ := h.moved hs ha
    show t.moved + n + (t.op.resid - n) = t.asked ∧ t.op.buf + n = t.base + (t.moved + n)
    omega
  resid := fun _ _ => Nat.sub_pos_of_lt hn

/-- What the routine does with an entry of an active operation: nothing where the
    status is neither a success nor an error. -/
theorem take_cases (e : PortEntry κ) (ha : t.op.state = .active) :
    (e.failed t.op ∧
      t.take e = .ok { t with op := { t.op with state := .idle }, fed := t.fed ++ [.error] }) ∨
    (¬ e.failed t.op ∧ e.succeeded ∧ t.op.start = false ∧
      t.take e = .ok { t with op := { t.op with state := .idle }, fed := t.fed ++ [.done] }) ∨
    (¬ e.failed t.op ∧ e.succeeded ∧ t.op.start ∧ e.nxfer < t.op.resid ∧
      t.take e = .ok { t with
        op := { t.op with resid := t.op.resid - e.nxfer, buf := t.op.buf + e.nxfer }
        inflight := true
        moved := t.moved + e.nxfer }) ∨
    (¬ e.failed t.op ∧ e.succeeded ∧ t.op.start ∧ e.nxfer = t.op.resid ∧
      t.take e = .ok { t with
        op := { t.op with resid := 0, buf := t.op.buf + t.op.resid }
        moved := t.moved + t.op.resid }) ∨
    (¬ e.failed t.op ∧ ¬ e.succeeded ∧ t.take e = .ok t) := by
  by_cases hok : e.internal &&& 0xc0000000 = 0x00000000
  · have hne : ¬ e.internal &&& 0xc0000000 = 0xc0000000 := by
      rw [hok]
      decide
    by_cases hzero : e.nxfer = 0 ∧ t.op.zeroIsError
    · refine .inl ⟨.inr ⟨hok, .inl hzero⟩, ?_⟩
      simp [take, WorkerOp.complete, hok, hzero, ha]
    · cases hs : t.op.start with
      | false =>
        refine .inr (.inl ⟨?_, hok, rfl, ?_⟩)
        · simp [PortEntry.failed, hne, hs, hzero]
        · simp [take, WorkerOp.complete, hok, hzero, hs, ha]
      | true =>
        obtain hlt | heq | hgt := Nat.lt_trichotomy e.nxfer t.op.resid
        · refine .inr (.inr (.inl ⟨?_, hok, rfl, hlt, ?_⟩))
          · simp [PortEntry.failed, hne, hzero, Nat.le_of_lt hlt]
          · simp [take, WorkerOp.complete, hok, hzero, hs, Nat.lt_asymm hlt, Nat.sub_ne_zero_of_lt hlt]
        · refine .inr (.inr (.inr (.inl ⟨?_, hok, rfl, heq, ?_⟩)))
          · simp [PortEntry.failed, hne, hzero, Nat.le_of_eq heq]
          · rw [heq] at hzero
            simp [take, WorkerOp.complete, hok, heq, hzero, hs]
        · refine .inl ⟨.inr ⟨hok, .inr ⟨hs, hgt⟩⟩, ?_⟩
          simp [take, WorkerOp.complete, hok, hzero, hs, hgt, ha]
  · by_cases herr : e.internal &&& 0xc0000000 = 0xc0000000
    · exact .inl ⟨.inl herr, by simp [take, WorkerOp.complete, herr, ha]⟩
    · refine .inr (.inr (.inr (.inr ⟨?_, hok, by simp [take, WorkerOp.complete, hok, herr]⟩)))
      rintro (hf | ⟨hf, -⟩)
      · exact herr hf
      · exact hok hf

/-- The entry is treated as it should be, unless it tells of all the bytes left. -/
theorem Sound.take (h : t.Sound) (ha : t.op.state = .active) (hf : t.inflight = false)
    (hc : ¬ (t.op.start ∧ e.succeeded ∧ e.nxfer = t.op.resid)) :
    ∃ t', t.take e = .ok t' ∧ t'.Sound ∧ t.Treated e t' ∧ (t'.inflight → t'.op.state = .active) := by
  obtain ⟨hfail, hx⟩ | ⟨hn, hok, hs, hx⟩ | ⟨hn, hok, hs, hlt, hx⟩ | ⟨-, hok, hs, heq, -⟩ |
    ⟨hn, hok, hx⟩ := take_cases e ha
  · refine ⟨_, hx, h.feed ha _, ⟨fun _ => ⟨rfl, hf, rfl⟩, ?_, ?_, ?_⟩, fun hi => ?_⟩
    · exact fun _ _ hn => absurd hfail hn
    · exact fun _ _ hn => absurd hfail hn
    · exact fun _ _ hn => absurd hfail hn
    · exact absurd hi (by simp [hf])
  · refine ⟨_, hx, h.feed ha _, ⟨fun hfail => absurd hfail hn, ?_, ?_, ?_⟩, fun hi => ?_⟩
    · exact fun hs' => absurd hs' (by simp [hs])
    · exact fun hs' => absurd hs' (by simp [hs])
    · exact fun _ _ _ => ⟨rfl, hf, rfl⟩
    · exact absurd hi (by simp [hf])
  · refine ⟨_, hx, h.restart ha hs hlt, ⟨fun hfail => absurd hfail hn, ?_, ?_, ?_⟩, fun _ => ha⟩
    · exact fun _ _ _ _ => ⟨rfl, rfl, rfl⟩
    · exact fun _ _ _ heq => absurd heq (Nat.ne_of_lt hlt)
    · exact fun hs' => absurd hs (by simp [hs'])
  · exact absurd ⟨hs, hok, heq⟩ hc
  · refine ⟨t, hx, h, ⟨fun hfail => absurd hfail hn, ?_, ?_, ?_⟩, fun _ => ha⟩
    · exact fun _ hok' => absurd hok' hok
    · exact fun _ hok' => absurd hok' hok
    · exact fun _ hok' => absurd hok' hok

/-- An entry that tells of all the bytes left leaves the operation as it was. -/
theorem not_treated (h : t.Sound) (ha : t.op.state = .active) (hs : t.op.start)
    (hok : e.succeeded) (heq : e.nxfer = t.op.resid) {t' : Transfer} (hx : t.take e = .ok t') :
    ¬ t.Treated e t' := by
  intro htr
  have hpos := h.resid hs ha
  obtain ⟨hfail, -⟩ | ⟨-, -, hs', -⟩ | ⟨-, -, -, hlt, -⟩ | ⟨hn, -, -, -, hx'⟩ | ⟨-, hok', -⟩ :=
    take_cases e ha
  · obtain hfail | ⟨-, ⟨hzero, -⟩ | ⟨-, hgt⟩⟩ := hfail
    · have hne : e.internal &&& 0xc0000000 = 0x00000000 := hok
      rw [hfail] at hne
      exact absurd hne (by decide)
    · omega
    · omega
  · simp [hs] at hs'
  · omega
  · rw [hx] at hx'
    obtain rfl := Except.ok.inj hx'
    have hidle := (htr.whole hs hok hn heq).1
    simp [ha] at hidle
  · exact hok' hok

end Transfer

/-! ### The invariant -/

namespace Completions

variable [DecidableEq κ] {w : Completions κ}

/-- Only of an active operation is a call outstanding, and it has either completed
    or not. -/
structure Inv (w : Completions κ) : Prop where
  sound : ∀ k, (w.transfers k).Sound
  nodup : (w.port.map PortEntry.op).Nodup
  flying : ∀ k, (w.transfers k).inflight → k ∉ w.port.map PortEntry.op
  active : ∀ k, w.outstanding k → (w.transfers k).op.state = .active

omit [DecidableEq κ] in
theorem Inv.right (h : Inv w) : Right w where
  accounted k := (h.sound k).toAccounted
  left k hs ha hr := absurd ((h.sound k).resid hs ha) (by rw [hr]; exact Nat.lt_irrefl 0)

omit [DecidableEq κ] in
theorem inv_init : Inv (init : Completions κ) where
  sound _ := Transfer.sound_init
  nodup := List.nodup_nil
  flying _ _ := List.not_mem_nil
  active _ ho := by simp [outstanding, init, Transfer.init] at ho

@[simp] theorem set_self (w : Completions κ) (k : κ) (t : Transfer) :
    (w.set k t).transfers k = t := by
  simp [set]

theorem set_of_ne (w : Completions κ) {k j : κ} (t : Transfer) (hj : j ≠ k) :
    (w.set k t).transfers j = w.transfers j := by
  simp [set, hj]

theorem inv_begin (h : Inv w) {k : κ} (hi : (w.transfers k).op.isidle) {resid buf : ℕ}
    {start zero : Bool} (hr : start → 0 < resid) :
    Inv (w.set k ((w.transfers k).begin resid buf start zero)) where
  sound j := by
    by_cases hj : j = k
    · rw [hj, set_self]
      exact (h.sound k).begin hi hr
    · rw [set_of_ne w _ hj]
      exact h.sound j
  nodup := h.nodup
  flying j hf := by
    by_cases hj : j = k
    · -- An idle operation has no entry in the port.
      subst hj
      intro hp
      have ha := h.active j (.inr hp)
      simp [WorkerOp.isidle, ha] at hi
    · rw [set_of_ne w _ hj] at hf
      exact h.flying j hf
  active j ho := by
    by_cases hj : j = k
    · rw [hj, set_self]
      rfl
    · rw [outstanding, set_of_ne w _ hj] at ho
      rw [set_of_ne w _ hj]
      exact h.active j ho

theorem inv_post (h : Inv w) {e : PortEntry κ} (hf : (w.transfers e.op).inflight) :
    Inv ({ w with port := w.port ++ [e] }.set e.op { w.transfers e.op with inflight := false }) where
  sound j := by
    by_cases hj : j = e.op
    · rw [hj, set_self]
      exact ⟨⟨(h.sound e.op).fed, (h.sound e.op).moved⟩, (h.sound e.op).resid⟩
    · rw [set_of_ne _ _ hj]
      exact h.sound j
  nodup := by
    show ((w.port ++ [e]).map PortEntry.op).Nodup
    have hfree := h.flying e.op hf
    simp only [List.map_append, List.map_cons, List.map_nil, List.nodup_append]
    refine ⟨h.nodup, by simp, ?_⟩
    simp only [List.mem_singleton]
    rintro k hk _ rfl rfl
    exact hfree hk
  flying j hj := by
    show j ∉ (w.port ++ [e]).map PortEntry.op
    by_cases hje : j = e.op
    · simp [hje] at hj
    · rw [set_of_ne _ _ hje] at hj
      simpa [hje] using h.flying j hj
  active j ho := by
    by_cases hj : j = e.op
    · rw [hj, set_self]
      exact h.active e.op (.inl hf)
    · rw [set_of_ne _ _ hj]
      refine h.active j ?_
      obtain hfly | hport := ho
      · rw [set_of_ne _ _ hj] at hfly
        exact .inl hfly
      · exact .inr (by simpa [set, hj] using hport)

omit [DecidableEq κ] in
/-- What the next entry finds: its operation is active, with no call in flight. -/
theorem Inv.head (h : Inv w) {e : PortEntry κ} {es : List (PortEntry κ)} (hp : w.port = e :: es) :
    (w.transfers e.op).op.state = .active ∧ (w.transfers e.op).inflight = false := by
  have hmem : e.op ∈ w.port.map PortEntry.op := by simp [hp]
  refine ⟨h.active _ (.inr hmem), ?_⟩
  cases hf : (w.transfers e.op).inflight with
  | false => rfl
  | true => exact absurd hmem (h.flying _ hf)

theorem inv_take (h : Inv w) {e : PortEntry κ} {es : List (PortEntry κ)} (hp : w.port = e :: es)
    (hc : ¬ ((w.transfers e.op).op.start ∧ e.succeeded ∧ e.nxfer = (w.transfers e.op).op.resid)) :
    ∃ w', w.take = .ok w' ∧ StepRight w .take w' ∧ Inv w' := by
  obtain ⟨ha, hf⟩ := h.head hp
  obtain ⟨t, hx, hsound, htreated, hact⟩ := (h.sound e.op).take ha hf hc
  have hnodup := h.nodup
  rw [hp, List.map_cons, List.nodup_cons] at hnodup
  refine ⟨{ w with port := es }.set e.op t, by simp [Completions.take, hp, hx], ?_, ?_⟩
  · rintro - e' es' hp'
    obtain ⟨rfl, rfl⟩ := List.cons.inj (hp.symm.trans hp')
    rw [set_self]
    exact ⟨rfl, htreated, fun k hk => set_of_ne _ t hk⟩
  · refine ⟨fun j => ?_, hnodup.2, fun j hj => ?_, fun j ho => ?_⟩
    · by_cases hje : j = e.op
      · rw [hje, set_self]
        exact hsound
      · rw [set_of_ne _ _ hje]
        exact h.sound j
    · by_cases hje : j = e.op
      · rw [hje]
        exact hnodup.1
      · rw [set_of_ne _ _ hje] at hj
        have hport := h.flying j hj
        rw [hp, List.map_cons, List.mem_cons, not_or] at hport
        exact hport.2
    · by_cases hje : j = e.op
      · subst hje
        rw [set_self]
        obtain hfly | hport := ho
        · rw [set_self] at hfly
          exact hact hfly
        · exact absurd hport hnodup.1
      · rw [set_of_ne _ _ hje]
        refine h.active j ?_
        obtain hfly | hport := ho
        · rw [set_of_ne _ _ hje] at hfly
          exact .inl hfly
        · rw [outstanding, hp]
          exact .inr (List.mem_cons_of_mem _ hport)

/-! ### Runs -/

/-- A step that does not exhaust an operation is right, and keeps the invariant. -/
theorem inv_step (h : Inv w) {a : PortAction κ} (he : w.enabled a) (hc : ¬ Exhausts w a) :
    ∃ w', w.exec a = .ok w' ∧ StepRight w a w' ∧ Inv w' := by
  cases a with
  | begin k resid buf start zero => exact ⟨_, rfl, by rintro ⟨⟩, inv_begin h he.1 he.2⟩
  | post e => exact ⟨_, rfl, by rintro ⟨⟩, inv_post h he⟩
  | take =>
    obtain ⟨e, es, hp⟩ := List.exists_cons_of_ne_nil he
    exact inv_take h hp fun hx => hc ⟨rfl, e, es, hp, hx⟩

/-- The runs that are right are those in which no entry tells of all the bytes that
    an operation with a callback has left. -/
theorem completions_correct_iff (as : List (PortAction κ)) :
    system.Correct Right StepRight (init : Completions κ) as ↔
      system.Meets (fun w a => ¬ Exhausts w a) init as := by
  refine System.correct_iff_meets (I := Inv) (fun _ h => h.right) (fun _ _ h he hc => inv_step h he hc) ?_
    inv_init as
  rintro w a w' h - hx hq - ⟨rfl, e, es, hp, hs, hok, heq⟩
  obtain ⟨ha, -⟩ := h.head hp
  obtain ⟨t, ht, hw⟩ : ∃ t, (w.transfers e.op).take e = .ok t ∧
      Except.ok ({ w with port := es }.set e.op t) = .ok w' :=
    bind_eq_ok.1 (by simpa [system, exec, take, hp] using hx)
  obtain rfl := Except.ok.inj hw
  obtain ⟨-, htreated, -⟩ := hq rfl e es hp
  rw [set_self] at htreated
  exact Transfer.not_treated (h.sound e.op) ha hs hok heq ht htreated

/-- Four bytes are asked for, and the first call transfers them: the operation is left
    active, with nothing to transfer and no call outstanding. -/
theorem completions_not_correct :
    ¬ system.Correct Right StepRight (init : Completions Unit)
      [.begin () 4 0 true false, .post ⟨(), 0, 4⟩, .take] := by
  intro h
  have h := (h.step ⟨rfl, by decide⟩ rfl).step rfl rfl
  have h := (h.step (List.cons_ne_nil _ _) rfl).holds
  obtain hf | hp := h.left () rfl rfl rfl
  · cases hf
  · cases hp

end Completions

end Nanomsg
