import Mathlib.Algebra.Order.Ring.Int
import Mathlib.Algebra.Order.Ring.Nat
import Mathlib.Data.Fintype.Card
import Nanomsg.Core.Pipe
import Nanomsg.Core.Statistics
import Nanomsg.Lib.System

/-!
# The connections of a socket

Any number of pipes, each started and stopped again and again. `nn_sock_add` counts a pipe that the
protocol has accepted, and `nn_sock_rm` one that is removed; which of them is called is decided by
the state of the pipe, as `nn_pipebase_stop` is the same for a pipe that was refused, or has been
stopped. The socket counts those that are active (`counted_of_reachable`).

Two records that are not part of the source say what has happened to each pipe: `ops` the starts and
stops that it was given, `calls` the callbacks of the protocol that came of them.
-/

namespace Nanomsg

open Function Transition

/-- What a transport does with a pipe. -/
inductive PipeOp
  /-- `nn_pipebase_start`, the callback `add` returning `rc`. -/
  | start (rc : ℤ)
  /-- `nn_pipebase_stop`. -/
  | stop
  deriving DecidableEq, Repr

/-- A callback of the protocol. -/
inductive PipeCall
  /-- `add`, which has returned `rc`. -/
  | add (rc : ℤ)
  | rm
  deriving DecidableEq, Repr

/-- What the protocol answers to a start. -/
def PipeOp.answer : PipeOp → Option ℤ
  | start rc => some rc
  | stop => none

/-- What it has answered. -/
def PipeCall.answer : PipeCall → Option ℤ
  | add rc => some rc
  | rm => none

/-- What else is done to a pipe. -/
inductive PipeMove
  | received
  | sent
  | beginSend
  | endSend (rc : ℤ)
  | beginRecv
  | endRecv (rc : ℤ)
  /-- `NN_PIPE_IN` is processed. -/
  | processIn
  /-- `NN_PIPE_OUT` is processed. -/
  | processOut
  /-- `nn_pipebase_term`, and `nn_pipebase_init` for another connection. -/
  | renew
  deriving DecidableEq, Repr

/-- What is done to a pipe by what neither starts nor stops it. -/
def Pipebase.move (self : Pipebase) : PipeMove → Except Fault Pipebase
  | .received => self.received
  | .sent => self.sent
  | .beginSend => self.beginSend
  | .endSend rc => self.endSend rc
  | .beginRecv => self.beginRecv
  | .endRecv rc => self.endRecv rc
  | .processIn => .ok { self with inQueued := false }
  | .processOut => .ok { self with outQueued := false }
  | .renew => do
    nnAssert (self.state = .idle)
    pure Pipebase.init

/-- The pipes of a socket, and its statistics. -/
structure Connections (ι : Type) where
  pipes : ι → Pipebase
  statistics : SockStatistics
  ops : ι → List PipeOp
  calls : ι → List PipeCall

/-- What happens to a socket and its pipes. -/
inductive ConnectionAction (ι : Type)
  /-- `nn_pipebase_start`, the callback `add` returning `rc`. -/
  | start (i : ι) (rc : ℤ)
  /-- `nn_pipebase_stop`. -/
  | stop (i : ι)
  | move (i : ι) (m : PipeMove)
  /-- Something else is counted. -/
  | count (name : StatName) (increment : ℤ)

/-- `nn_sock_add`, the callback `add` returning `rc`. -/
def SockStatistics.sockAdd (s : SockStatistics) (rc : ℤ) : Except Fault (SockStatistics × ℤ) :=
  if rc ≥ 0 then do
    let s ← s.statIncrement (.gauge .currentConnections) 1
    pure (s, rc)
  else
    pure (s, rc)

/-- `nn_sock_rm`. -/
def SockStatistics.sockRm (s : SockStatistics) : Except Fault SockStatistics :=
  s.statIncrement (.gauge .currentConnections) (-1)

namespace Connections

variable {ι : Type} [DecidableEq ι] (w : Connections ι)

/-- `nn_pipebase_start`. -/
def start (i : ι) (rc : ℤ) : Except Fault (Connections ι) := do
  let (statistics, rc) ← w.statistics.sockAdd rc
  let (pipe, _) ← (w.pipes i).start rc
  pure { w with
    pipes := update w.pipes i pipe
    statistics := statistics
    calls := update w.calls i (w.calls i ++ [.add rc]) }

/-- `nn_pipebase_stop`. -/
def stop (i : ι) : Except Fault (Connections ι) :=
  if (w.pipes i).state = .active then do
    let statistics ← w.statistics.sockRm
    pure { w with
      pipes := update w.pipes i (w.pipes i).stop
      statistics := statistics
      calls := update w.calls i (w.calls i ++ [.rm]) }
  else
    pure { w with pipes := update w.pipes i (w.pipes i).stop }

/-- The pipe `i` has been given `op`. -/
def record (i : ι) (op : PipeOp) : Connections ι := { w with ops := update w.ops i (w.ops i ++ [op]) }

@[simp] theorem record_pipes {i : ι} {op : PipeOp} : (w.record i op).pipes = w.pipes := rfl
@[simp] theorem record_statistics {i : ι} {op : PipeOp} :
    (w.record i op).statistics = w.statistics := rfl

/-- Taking an action. What a pipe is given is recorded here, whatever the functions make of it. -/
def exec : ConnectionAction ι → Except Fault (Connections ι)
  | .start i rc => (w.record i (.start rc)).start i rc
  | .stop i => (w.record i .stop).stop i
  | .move i m => do
    let pipe ← (w.pipes i).move m
    pure { w with pipes := update w.pipes i pipe }
  | .count name increment => do
    let statistics ← w.statistics.statIncrement name increment
    pure { w with statistics := statistics }

omit [DecidableEq ι] in
/-- A pipe is started when it is idle, and nothing but `nn_sock_add` and `nn_sock_rm` counts
    connections. -/
def enabled : ConnectionAction ι → Prop
  | .start i _ => (w.pipes i).state = .idle
  | .count name _ => name ≠ .gauge .currentConnections
  | _ => True

/-- The pipes and the socket have just been initialised. -/
def init : Connections ι := ⟨fun _ => Pipebase.init, SockStatistics.init, fun _ => [], fun _ => []⟩

/-- All runs of the pipes. -/
def system : System (Connections ι) (ConnectionAction ι) Fault where
  init w := w = init
  enabled := enabled
  exec := exec

/-! ## What is called -/

/-- The state in which a pipe is to be after it was given `l`. -/
def stateAfter (l : List PipeOp) : PipebaseState :=
  match l.getLast? with
  | some (.start rc) => if rc < 0 then .failed else .active
  | some .stop | none => .idle

/-- How often it has been accepted. -/
def accepted : List PipeOp → ℕ
  | [] => 0
  | .start rc :: l => (if 0 ≤ rc then 1 else 0) + accepted l
  | .stop :: l => accepted l

/-- How often it has been accepted and stopped some time later. -/
def stopped : List PipeOp → ℕ
  | [] => 0
  | .start rc :: l => (if 0 ≤ rc ∧ .stop ∈ l then 1 else 0) + stopped l
  | .stop :: l => stopped l

/-- What has been called for a pipe in the state `s`, and what it was given. -/
inductive Calls : PipebaseState → List PipeOp → List PipeCall → Prop
  | init : Calls .idle [] []
  | accept {o l rc} : Calls .idle o l → 0 ≤ rc → Calls .active (o ++ [.start rc]) (l ++ [.add rc])
  | refuse {o l rc} : Calls .idle o l → rc < 0 → Calls .failed (o ++ [.start rc]) (l ++ [.add rc])
  | stop {s o l} : Calls s o l → Calls .idle (o ++ [.stop]) (if s = .active then l ++ [.rm] else l)

variable {w} {o o' : List PipeOp} {l : List PipeCall} {s : PipebaseState} {rc : ℤ}

theorem accepted_append : accepted (o ++ o') = accepted o + accepted o' := by
  induction o with
  | nil => simp [accepted]
  | cons c o ih => cases c <;> simp [accepted, ih, Nat.add_assoc]

/-- What comes later may stop what has been accepted before. -/
theorem stopped_append :
    stopped (o ++ o') = (if .stop ∈ o' then accepted o else stopped o) + stopped o' := by
  induction o with
  | nil => simp [stopped, accepted]
  | cons c o ih =>
    cases c with
    | start rc =>
      by_cases hstop : PipeOp.stop ∈ o'
      · simp [stopped, accepted, ih, hstop, Nat.add_assoc]
      · simp [stopped, ih, hstop, Nat.add_assoc]
    | stop => simpa [stopped, accepted] using ih

/-- The state is the one in which the last start or stop leaves the pipe. -/
theorem Calls.state_eq (h : Calls s o l) : s = stateAfter o := by
  cases h with
  | init => rfl
  | accept _ hrc => simp [stateAfter, Int.not_lt.2 hrc]
  | refuse _ hrc => simp [stateAfter, hrc]
  | stop => simp [stateAfter]

/-- `rm` has been called as often as the pipe has been accepted and stopped, which is all but once if
    it is active. -/
theorem Calls.counts (h : Calls s o l) : l.count .rm = stopped o ∧
    accepted o = l.count .rm + if s = .active then 1 else 0 := by
  induction h with
  | init => exact ⟨rfl, rfl⟩
  | accept _ hrc ih =>
    simp only [List.count_append, stopped_append, accepted_append]
    simp [stopped, accepted, hrc, ih.1.symm, ih.2]
  | refuse _ hrc ih =>
    simp only [List.count_append, stopped_append, accepted_append]
    simp [stopped, accepted, Int.not_le.2 hrc, ih.1.symm, ih.2]
  | @stop s o l _ ih =>
    simp only [stopped_append, accepted_append]
    by_cases hs : s = .active
    · simp [stopped, accepted, hs, ih.2]
    · simp [stopped, accepted, hs, ih.2]

/-- `add` has been called once for each start. -/
theorem Calls.answers (h : Calls s o l) : l.filterMap PipeCall.answer = o.filterMap PipeOp.answer := by
  induction h with
  | init => rfl
  | accept _ _ ih | refuse _ _ ih => simp [PipeCall.answer, PipeOp.answer, ih]
  | @stop s o l _ ih =>
    rw [List.filterMap_append, ← ih]
    split
    · exact List.filterMap_append
    · exact (List.append_nil _).symm

/-- An active pipe has just been accepted. -/
theorem Calls.of_active (h : Calls .active o l) : ∃ l₀ rc, 0 ≤ rc ∧ l = l₀ ++ [.add rc] := by
  cases h with
  | accept _ hrc => exact ⟨_, _, hrc, rfl⟩

/-- Where `rm` has been called before the last call. -/
theorem rm_before {c : PipeCall} {l₁ l₂ : List PipeCall} (h : l ++ [c] = l₁ ++ .rm :: l₂) :
    (l = l₁ ∧ c = .rm) ∨ ∃ l₃, l = l₁ ++ .rm :: l₃ := by
  rcases List.eq_nil_or_concat' l₂ with rfl | ⟨l₃, d, rfl⟩
  · obtain ⟨hl, hc⟩ := List.append_inj' h rfl
    exact .inl ⟨hl, List.singleton_inj.1 hc⟩
  · have h' : l ++ [c] = (l₁ ++ .rm :: l₃) ++ [d] := by simpa using h
    exact .inr ⟨l₃, (List.append_inj' h' rfl).1⟩

/-- `rm` is called for a pipe that was accepted, before anything else is. -/
theorem Calls.rm_after (h : Calls s o l) {l₁ l₂ : List PipeCall} (hl : l = l₁ ++ .rm :: l₂) :
    ∃ l₀ rc, 0 ≤ rc ∧ l₁ = l₀ ++ [.add rc] := by
  induction h generalizing l₂ with
  | init => simp at hl
  | accept _ _ ih =>
    obtain ⟨-, hc⟩ | ⟨l₃, hl₃⟩ := rm_before hl
    · cases hc
    · exact ih hl₃
  | refuse _ _ ih =>
    obtain ⟨-, hc⟩ | ⟨l₃, hl₃⟩ := rm_before hl
    · cases hc
    · exact ih hl₃
  | @stop s o l hcalls ih =>
    by_cases hs : s = .active
    · subst hs
      obtain ⟨rfl, -⟩ | ⟨l₃, hl₃⟩ := rm_before hl
      · exact hcalls.of_active
      · exact ih hl₃
    · rw [if_neg hs] at hl
      exact ih hl

end Connections

/-! ## What is counted -/

namespace Pipebase

variable {self p : Pipebase} {m : PipeMove} {rc r : ℤ}

theorem raiseIn_state (h : self.raiseIn = .ok p) : p.state = self.state := by
  obtain ⟨_, -, h⟩ := bind_eq_ok.1 h
  exact Except.ok.inj h ▸ rfl

theorem raiseOut_state (h : self.raiseOut = .ok p) : p.state = self.state := by
  obtain ⟨_, -, h⟩ := bind_eq_ok.1 h
  exact Except.ok.inj h ▸ rfl

/-- Only a start and a stop change the state. -/
theorem move_state (h : self.move m = .ok p) : p.state = self.state := by
  cases m with
  | received =>
    rw [move, received] at h
    split at h
    · exact Except.ok.inj h ▸ rfl
    · obtain ⟨_, -, h⟩ := bind_eq_ok.1 h
      exact (raiseIn_state h).trans rfl
  | sent =>
    rw [move, sent] at h
    split at h
    · exact Except.ok.inj h ▸ rfl
    · obtain ⟨_, -, h⟩ := bind_eq_ok.1 h
      exact (raiseOut_state h).trans rfl
  | beginSend =>
    obtain ⟨_, -, h⟩ := bind_eq_ok.1 h
    exact Except.ok.inj h ▸ rfl
  | endSend rc =>
    obtain ⟨_, -, h⟩ := bind_eq_ok.1 h
    split at h
    · exact Except.ok.inj h ▸ rfl
    · obtain ⟨_, -, h⟩ := bind_eq_ok.1 h
      exact Except.ok.inj h ▸ rfl
  | beginRecv =>
    obtain ⟨_, -, h⟩ := bind_eq_ok.1 h
    exact Except.ok.inj h ▸ rfl
  | endRecv rc =>
    obtain ⟨_, -, h⟩ := bind_eq_ok.1 h
    split at h
    · exact Except.ok.inj h ▸ rfl
    · obtain ⟨_, -, h⟩ := bind_eq_ok.1 h
      exact Except.ok.inj h ▸ rfl
  | processIn => exact Except.ok.inj h ▸ rfl
  | processOut => exact Except.ok.inj h ▸ rfl
  | renew =>
    rw [move] at h
    by_cases hs : self.state = .idle
    · simp only [hs, decide_true, nnAssert_true, ok_bind, pure_eq_ok] at h
      rw [← Except.ok.inj h, hs]
      rfl
    · simp [hs] at h

/-- A pipe that starts is active, or has failed if it is refused. -/
theorem start_state (h : self.start rc = .ok (p, r)) :
    self.state = .idle ∧ p.state = if rc < 0 then .failed else .active := by
  by_cases hs : self.state = .idle
  · refine ⟨hs, ?_⟩
    simp only [start, hs, decide_true, nnAssert_true, ok_bind] at h
    split at h
    · next hrc => rw [if_pos hrc, ← (Prod.mk.inj (Except.ok.inj h)).1]
    · next hrc =>
      obtain ⟨q, hq, h⟩ := bind_eq_ok.1 h
      rw [if_neg hrc, ← (Prod.mk.inj (Except.ok.inj h)).1]
      exact raiseOut_state hq
  · simp [start, hs] at h

end Pipebase

namespace SockStatistics

variable {s s' : SockStatistics} {name : StatName} {n rc rc' : ℤ} {g : Gauge}

/-- A gauge is changed by what is counted of it. -/
theorem gauge_eq (h : s.statIncrement name n = .ok s') :
    s'.gauge g = if name = .gauge g then s.gauge g + n else s.gauge g := by
  cases name with
  | counter c =>
    obtain ⟨_, -, h⟩ := bind_eq_ok.1 h
    exact Except.ok.inj h ▸ rfl
  | gauge g' =>
    obtain ⟨_, -, h⟩ := bind_eq_ok.1 h
    obtain ⟨_, -, h⟩ := bind_eq_ok.1 h
    split at h
    · rw [← Except.ok.inj h]
      by_cases hg : g' = g
      · simp [hg]
      · have hg' : g ≠ g' := fun he => hg he.symm
        simp [hg, hg']
    · cases h
  | currentSndPriority =>
    obtain ⟨_, -, h⟩ := bind_eq_ok.1 h
    exact Except.ok.inj h ▸ rfl

/-- A connection is counted if it is accepted. -/
theorem sockAdd_eq (h : s.sockAdd rc = .ok (s', rc')) : rc' = rc ∧
    s'.gauge .currentConnections = s.gauge .currentConnections + if 0 ≤ rc then 1 else 0 := by
  rw [sockAdd] at h
  split at h
  · next hrc =>
    obtain ⟨s₁, hs₁, h⟩ := bind_eq_ok.1 h
    obtain ⟨rfl, rfl⟩ := Prod.mk.inj (Except.ok.inj h)
    exact ⟨rfl, by rw [gauge_eq hs₁, if_pos rfl, if_pos hrc]⟩
  · next hrc =>
    obtain ⟨rfl, rfl⟩ := Prod.mk.inj (Except.ok.inj h)
    exact ⟨rfl, by rw [if_neg hrc, Int.add_zero]⟩

theorem sockRm_eq (h : s.sockRm = .ok s') :
    s'.gauge .currentConnections = s.gauge .currentConnections - 1 := by
  rw [gauge_eq h, if_pos rfl, Int.sub_eq_add_neg]

theorem sockAdd_ok (h : s.gauge .currentConnections < Sock.intMax) (rc : ℤ) :
    ∃ s', s.sockAdd rc = .ok (s', rc) := by
  by_cases hrc : 0 ≤ rc
  · exact ⟨_, by rw [sockAdd, if_pos hrc, gauge_up h, ok_bind, pure_eq_ok]⟩
  · exact ⟨s, if_neg hrc⟩

end SockStatistics

namespace Connections

open Finset

variable {ι : Type} [DecidableEq ι] [Fintype ι] {w w' : Connections ι} {pipes : ι → Pipebase} {i : ι}
  {p : Pipebase} {rc : ℤ}

omit [DecidableEq ι] in
/-- The pipes that are active. -/
def active (pipes : ι → Pipebase) : Finset ι := {i | (pipes i).state = .active}

/-- A pipe becomes active. -/
theorem active_insert (hp : p.state = .active) :
    active (update pipes i p) = insert i (active pipes) := by
  ext j
  by_cases hj : j = i
  · subst hj
    simp [active, hp]
  · simp [active, hj]

/-- A pipe is not active any more. -/
theorem active_erase (hp : p.state ≠ .active) :
    active (update pipes i p) = (active pipes).erase i := by
  ext j
  by_cases hj : j = i
  · subst hj
    simp [active, hp]
  · simp [active, hj]

/-- The socket counts its active pipes, and the callbacks of each are those of its state. -/
structure Counted (w : Connections ι) : Prop where
  gauge : w.statistics.gauge .currentConnections = (active w.pipes).card
  calls : ∀ i, Calls (w.pipes i).state (w.ops i) (w.calls i)

omit [DecidableEq ι] in
theorem counted_init : Counted (init : Connections ι) where
  gauge := by simp [init, SockStatistics.init, active, Pipebase.init]
  calls _ := .init

omit [Fintype ι] in
/-- The records of one pipe. -/
theorem calls_update {ops : ι → List PipeOp} {calls : ι → List PipeCall} {o : List PipeOp}
    {l : List PipeCall} (h : ∀ j, Calls (pipes j).state (ops j) (calls j)) (hi : Calls p.state o l)
    (j : ι) : Calls (update pipes i p j).state (update ops i o j) (update calls i l j) := by
  by_cases hj : j = i
  · subst hj
    simpa using hi
  · simpa [hj] using h j

/-- A pipe that is started is counted if it is accepted. -/
theorem Counted.start (h : Counted w) (hx : (w.record i (.start rc)).start i rc = .ok w') :
    Counted w' := by
  obtain ⟨⟨stats, rc'⟩, hadd, hx⟩ := bind_eq_ok.1 hx
  obtain ⟨⟨p, r⟩, hp, hx⟩ := bind_eq_ok.1 hx
  obtain rfl := Except.ok.inj hx
  obtain ⟨rfl, hgauge⟩ := SockStatistics.sockAdd_eq hadd
  obtain ⟨hidle, hstate⟩ := Pipebase.start_state hp
  rw [record_pipes] at hidle
  rw [record_statistics] at hgauge
  have hout : i ∉ active w.pipes := by simp [active, hidle]
  have hcalls := h.calls i
  rw [hidle] at hcalls
  by_cases hrc : rc' < 0
  · rw [if_pos hrc] at hstate
    rw [if_neg (Int.not_le.2 hrc), Int.add_zero] at hgauge
    have hp' : p.state ≠ .active := by simp [hstate]
    refine ⟨?_, calls_update h.calls (hstate ▸ hcalls.refuse hrc)⟩
    simpa [active_erase hp', erase_eq_of_notMem hout, hgauge] using h.gauge
  · rw [if_neg hrc] at hstate
    rw [if_pos (Int.not_lt.1 hrc)] at hgauge
    refine ⟨?_, calls_update h.calls (hstate ▸ hcalls.accept (Int.not_lt.1 hrc))⟩
    simp [active_insert hstate, card_insert_of_notMem hout, hgauge, h.gauge]

/-- A pipe that is stopped is counted no more. -/
theorem Counted.stop (h : Counted w) (hx : (w.record i .stop).stop i = .ok w') : Counted w' := by
  have hp : (w.pipes i).stop.state ≠ .active := by simp [Pipebase.stop]
  have hcalls := (h.calls i).stop
  by_cases hs : (w.pipes i).state = .active
  · rw [Connections.stop, record_pipes, if_pos hs] at hx
    obtain ⟨stats, hrm, hx⟩ := bind_eq_ok.1 hx
    obtain rfl := Except.ok.inj hx
    have hin : i ∈ active w.pipes := by simp [active, hs]
    have hpos : 1 ≤ (active w.pipes).card := card_pos.2 ⟨i, hin⟩
    rw [if_pos hs] at hcalls
    refine ⟨?_, calls_update h.calls hcalls⟩
    rw [record_statistics] at hrm
    rw [SockStatistics.sockRm_eq hrm, h.gauge, active_erase hp, card_erase_of_mem hin]
    omega
  · rw [Connections.stop, record_pipes, if_neg hs] at hx
    obtain rfl := Except.ok.inj hx
    have hout : i ∉ active w.pipes := by simp [active, hs]
    rw [if_neg hs] at hcalls
    refine ⟨by simpa [active_erase hp, erase_eq_of_notMem hout] using h.gauge, ?_⟩
    have hall := calls_update h.calls (i := i) (p := (w.pipes i).stop) hcalls
    rwa [update_eq_self] at hall

/-- What else is done to a pipe leaves it as active as it was. -/
theorem active_move {m : PipeMove} (hp : (w.pipes i).move m = .ok p) :
    active (update w.pipes i p) = active w.pipes := by
  ext j
  by_cases hj : j = i
  · subst hj
    simp [active, Pipebase.move_state hp]
  · simp [active, hj]

theorem Counted.exec {a : ConnectionAction ι} (h : Counted w) (he : w.enabled a)
    (hx : w.exec a = .ok w') : Counted w' := by
  cases a with
  | start i rc => exact h.start hx
  | stop i => exact h.stop hx
  | move i m =>
    obtain ⟨p, hp, hx⟩ := bind_eq_ok.1 hx
    obtain rfl := Except.ok.inj hx
    refine ⟨by simpa [active_move hp] using h.gauge, fun j => ?_⟩
    by_cases hj : j = i
    · subst hj
      simpa [Pipebase.move_state hp] using h.calls j
    · simpa [hj] using h.calls j
  | count name n =>
    obtain ⟨stats, hs, hx⟩ := bind_eq_ok.1 hx
    obtain rfl := Except.ok.inj hx
    exact ⟨by rw [SockStatistics.gauge_eq hs, if_neg he]; exact h.gauge, h.calls⟩

theorem counted_of_reachable (hw : (system (ι := ι)).Reachable w) : Counted w :=
  hw.holds (fun _ hi => hi ▸ counted_init) fun _ _ _ h he _ hx => h.exec he hx

/-- Where there are no more pipes than can be counted, a stop does not fail. -/
theorem Counted.stop_ok (h : Counted w) (hcard : Fintype.card ι < 2 ^ 31) (i : ι) :
    ∃ w', w.exec (.stop i) = .ok w' := by
  show ∃ w', (w.record i .stop).stop i = .ok w'
  by_cases hs : (w.pipes i).state = .active
  · have hpos : 0 < w.statistics.gauge .currentConnections := by
      rw [h.gauge]
      exact_mod_cast card_pos.2 ⟨i, by simp [active, hs]⟩
    have hmax : w.statistics.gauge .currentConnections ≤ Sock.intMax := by
      have hle : (active w.pipes).card ≤ Fintype.card ι := card_le_univ _
      rw [h.gauge, Sock.intMax]
      omega
    have hrm : (w.record i .stop).statistics.sockRm = _ := SockStatistics.gauge_down hpos hmax
    exact ⟨_, by rw [Connections.stop, record_pipes, if_pos hs, hrm, ok_bind, pure_eq_ok]⟩
  · exact ⟨_, if_neg hs⟩

omit [DecidableEq ι] in
theorem Counted.sockAdd_ok (h : Counted w) (hcard : Fintype.card ι < 2 ^ 31)
    (hi : (w.pipes i).state = .idle) (rc : ℤ) : ∃ s', w.statistics.sockAdd rc = .ok (s', rc) := by
  refine SockStatistics.sockAdd_ok ?_ rc
  have hlt : (active w.pipes).card < Fintype.card ι :=
    card_lt_univ_of_notMem (x := i) (by simp [active, hi])
  rw [h.gauge, Sock.intMax]
  omega

/-- In every run of fewer than `2 ^ 31` pipes: the socket counts those that are active; a pipe is
    active after it was accepted, until it is stopped, and idle after each stop; `add` is called once for
    each start; `rm` is called once for each time that the pipe has been accepted and then stopped, and
    for an accepted one only; and neither count fails. -/
theorem connections_correct (hcard : Fintype.card ι < 2 ^ 31)
    (hw : (system (ι := ι)).Reachable w) :
    w.statistics.gauge .currentConnections = (univ.filter fun i => (w.pipes i).state = .active).card ∧
      (∀ i, (w.pipes i).state = stateAfter (w.ops i)) ∧
      (∀ i, (w.calls i).filterMap PipeCall.answer = (w.ops i).filterMap PipeOp.answer) ∧
      (∀ i, (w.calls i).count .rm = stopped (w.ops i)) ∧
      (∀ i l₁ l₂, w.calls i = l₁ ++ .rm :: l₂ → ∃ l₀ rc, 0 ≤ rc ∧ l₁ = l₀ ++ [.add rc]) ∧
      (∀ i, ∃ w', w.exec (.stop i) = .ok w') ∧
      ∀ i rc, (w.pipes i).state = .idle → ∃ s', w.statistics.sockAdd rc = .ok (s', rc) := by
  have h := counted_of_reachable hw
  exact ⟨h.gauge, fun i => (h.calls i).state_eq, fun i => (h.calls i).answers,
    fun i => (h.calls i).counts.1, fun i _ _ => (h.calls i).rm_after, h.stop_ok hcard,
    fun i rc hi => h.sockAdd_ok hcard hi rc⟩

/-- A pipe is accepted and stopped twice, and another one refused and stopped. -/
theorem connections_correct_two : ∃ w : Connections Bool, (system (ι := Bool)).Reachable w ∧
    w.ops true = [.start 0, .stop, .stop] ∧ w.ops false = [.start (-1), .stop] ∧
    w.statistics.gauge .currentConnections = 0 ∧ (∀ i, (w.pipes i).state = .idle) ∧
      (w.calls true).count .rm = 1 ∧ (w.calls false).count .rm = 0 := by
  have h₀ : (system (ι := Bool)).Reachable init := .init rfl
  have h₁ := h₀.step (a := ConnectionAction.start true 0) (show _ = _ from rfl) trivial rfl
  have h₂ := h₁.step (a := ConnectionAction.start false (-1)) (show _ = _ from rfl) trivial rfl
  have h₃ := h₂.step (a := ConnectionAction.stop true) (show True from trivial) trivial rfl
  have h₄ := h₃.step (a := ConnectionAction.stop false) (show True from trivial) trivial rfl
  have h₅ := h₄.step (a := ConnectionAction.stop true) (show True from trivial) trivial rfl
  obtain ⟨hgauge, hstate, -, hcount, -⟩ := connections_correct (by decide) h₅
  exact ⟨_, h₅, rfl, rfl, hgauge.trans (by decide),
    fun i => (hstate i).trans (by cases i <;> decide), (hcount true).trans (by decide),
    (hcount false).trans (by decide)⟩

end Connections

end Nanomsg
