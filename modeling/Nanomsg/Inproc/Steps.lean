import Nanomsg.Inproc.Sinproc

/-!
# The steps of a sinproc

What the functions of `sinproc.c` do in the states they are made for: the new
state of the end, that of its peer, and the event raised.
-/

namespace Nanomsg

open Function Sinproc

namespace Inproc

variable {ι ε : Type} [DecidableEq ι] {w n : Inproc ι ε} {self peer : ι} {msg : Message}

/-! ## Sending and receiving -/

variable (peer) in
/-- `nn_pipe_send` at an end that is not sending: the message is kept and
    `SENT` raised. -/
theorem pipeSend_ok (ho : (w.sinproc self).pipebase.outstate = .idle)
    (hs : (w.sinproc self).state = .active) (hf : (w.sinproc self).sending = false)
    (hp : (w.sinproc self).peer = some peer) (hst : w.stops peer = 0)
    (hq : w.queued (peer, .sent) = false) :
    w.pipeSend self msg = .ok ((w.set self { w.sinproc self with
      msg := ⟨[], msg.sphdr ++ msg.body⟩
      sending := true
      pipebase := { (w.sinproc self).pipebase with outstate := .async } }).pushto self
        ⟨(peer, .sent), .sinproc peer, srcPeer, typeSent, self⟩) := by
  have hb : (w.sinproc self).pipebase.beginSend =
      .ok { (w.sinproc self).pipebase with outstate := .sending } := by
    simp [Pipebase.beginSend, ho]
  simp only [pipeSend, pipebase_ok hb, ok_bind, send, modify_eq, set_self, hs, reduceCtorEq,
    if_false, decide_true, check_true, hf, Bool.not_false, set_set]
  rw [peer_ok (i := peer) (by simpa using hp) (by simpa using hst), ok_bind,
    raiseto_ok (by simpa using hq)]
  simp only [ok_bind, pure_eq_ok]
  rw [pipebase_ok (p := { (w.sinproc self).pipebase with outstate := .async })
    (by simp [Pipebase.endSend])]
  simp

/-- `nn_pipe_recv` where the sinproc holds nothing back, or takes no more over. -/
theorem pipeRecv_of {q : Msgqueue} (hi : (w.sinproc self).pipebase.instate = .idle)
    (hs : (w.sinproc self).state = .active ∨ (w.sinproc self).state = .disconnected)
    (hq : (w.sinproc self).msgqueue.recv = .ok (q, 0, msg))
    (hr : let w' := w.set self { w.sinproc self with
        msgqueue := q, pipebase := { (w.sinproc self).pipebase with instate := .receiving } }
      if (w.sinproc self).state ≠ .disconnected ∧ (w.sinproc self).receiving then
        w'.retry self = .ok n
      else n = w')
    (hn : (n.sinproc self).pipebase.instate = .receiving) :
    w.pipeRecv self = .ok (n.set self { n.sinproc self with
      pipebase := { (n.sinproc self).pipebase with
        instate := if (n.sinproc self).msgqueue.empty then .async else .idle } }, msg) := by
  have hb : (w.sinproc self).pipebase.beginRecv =
      .ok { (w.sinproc self).pipebase with instate := .receiving } := by
    simp [Pipebase.beginRecv, hi]
  have hend : (do
      let w ← n.announce self
      let w ← w.pipebase self fun p => p.endRecv 0
      pure (w, msg)) = Except.ok (ε := Abort (Inproc ι ε)) (n.set self { n.sinproc self with
      pipebase := { (n.sinproc self).pipebase with
        instate := if (n.sinproc self).msgqueue.empty then .async else .idle } }, msg) := by
    by_cases he : (n.sinproc self).msgqueue.empty
    · simp only [announce, he, Bool.not_true, Bool.false_eq_true, if_false, ok_bind, if_true]
      rw [pipebase_ok (p := { (n.sinproc self).pipebase with instate := .async })
        (by simp [Pipebase.endRecv, hn])]
      rfl
    · simp only [announce, he, Bool.not_false, if_true]
      rw [pipebase_ok (Pipebase.received_receiving hn), ok_bind,
        pipebase_ok (p := { (n.sinproc self).pipebase with instate := .idle })
          (by simp [Pipebase.endRecv])]
      simp
  simp only [pipeRecv, pipebase_ok hb, ok_bind, recv, modify_eq, set_self, hq, call_ok,
    decide_true, check_true, hs, set_set]
  split at hr
  · rename_i hg
    simp only [if_pos hg, hr, ok_bind, ← hend]
    cases n.announce self <;> rfl
  · rename_i hg
    subst hr
    simp only [if_neg hg, ← hend]
    cases announce _ self <;> rfl

/-! ## Taking messages over -/

variable (peer) in
/-- `nn_sinproc_recv` takes over the message held back. -/
theorem retry_ok {q : Msgqueue} (hp : (w.sinproc self).peer = some peer) (hne : peer ≠ self)
    (hst : w.stops peer = 0)
    (hq : (w.sinproc self).msgqueue.send (w.sinproc peer).msg = .ok (q, 0))
    (hf : w.queued (peer, .received) = false) :
    w.retry self = .ok (((w.set self { w.sinproc self with msgqueue := q, receiving := false }).set
      peer { w.sinproc peer with msg := Message.empty }).pushto self
        ⟨(peer, .received), .sinproc peer, srcPeer, typeReceived, self⟩) := by
  simp only [retry, peer_ok hp hst, ok_bind, hq, call_ok, true_or, decide_true, check_true, if_true,
    modify_eq, set_of_ne hne, raiseReceived]
  rw [raiseto_ok (by simpa using hf), ok_bind, pure_eq_ok, pushto_sinproc, set_of_ne hne.symm,
    set_self, pushto_set, set_comm hne, set_set]

variable (peer) in
/-- It leaves it where it is. -/
theorem retry_full (hp : (w.sinproc self).peer = some peer) (hst : w.stops peer = 0)
    (hq : (w.sinproc self).msgqueue.send (w.sinproc peer).msg =
      .ok ((w.sinproc self).msgqueue, -Errno.eagain)) : w.retry self = .ok w := by
  have hne : ¬ -Errno.eagain = 0 := by decide
  simp only [retry, peer_ok hp hst, ok_bind, hq, call_ok, or_true, decide_true, check_true, if_neg hne,
    pure_eq_ok]

/-- On `SENT` the message is taken over. -/
theorem handleSent_ok {q : Msgqueue} (hp : (w.sinproc self).peer = some peer) (hne : peer ≠ self)
    (hst : w.stops peer = 0)
    (hq : (w.sinproc self).msgqueue.send (w.sinproc peer).msg = .ok (q, 0))
    (hf : w.queued (peer, .received) = false)
    (hi : (w.sinproc self).msgqueue.empty = true →
      (w.sinproc self).pipebase.instate = .async ∧ (w.sinproc self).pipebase.inQueued = false) :
    w.handleSent self = .ok (((w.set self { w.sinproc self with
        msgqueue := q
        pipebase := if (w.sinproc self).msgqueue.empty = true then
          { (w.sinproc self).pipebase with instate := .idle, inQueued := true }
          else (w.sinproc self).pipebase }).set
      peer { w.sinproc peer with msg := Message.empty }).pushto self
        ⟨(peer, .received), .sinproc peer, srcPeer, typeReceived, self⟩) := by
  simp only [handleSent, peer_ok hp hst, ok_bind, hq, call_ok, decide_true, check_true, modify_eq,
    set_of_ne hne, raiseReceived]
  rw [if_neg (by decide)]
  by_cases he : (w.sinproc self).msgqueue.empty = true
  · obtain ⟨ha, hiq⟩ := hi he
    rw [if_pos he, if_pos he, pipebase_ok (p := { (w.sinproc self).pipebase with
      instate := .idle, inQueued := true })
        (by rw [set_of_ne hne.symm, set_self]; exact Pipebase.received_async ha hiq), ok_bind,
      raiseto_ok (by simpa using hf), set_of_ne hne.symm, set_self, set_comm hne, set_set]
  · rw [if_neg he, if_neg he, raiseto_ok (by simpa using hf)]

/-- Or it is held back. -/
theorem handleSent_full (hp : (w.sinproc self).peer = some peer) (hst : w.stops peer = 0)
    (hq : (w.sinproc self).msgqueue.send (w.sinproc peer).msg =
      .ok ((w.sinproc self).msgqueue, -Errno.eagain)) :
    w.handleSent self = .ok (w.set self { w.sinproc self with receiving := true }) := by
  simp [handleSent, peer_ok hp hst, hq, modify_eq]

/-! ## Events at an active end -/

variable {add : ℤ} {srcptr : Option ι}

theorem feed_sent (hf : (w.sinproc self).fsm = .active) (hs : (w.sinproc self).state = .active) :
    w.feed self add srcPeer typeSent srcptr = w.handleSent self := by
  rw [feed, Fsm.feed_of_ne (by simp [hf]), handler, hs]
  rfl

theorem feed_received (hf : (w.sinproc self).fsm = .active) (hs : (w.sinproc self).state = .active)
    (hsend : (w.sinproc self).sending = true)
    (ho : (w.sinproc self).pipebase.outstate = .async)
    (hq : (w.sinproc self).pipebase.outQueued = false) :
    w.feed self add srcPeer typeReceived srcptr = .ok (w.set self { w.sinproc self with
      sending := false
      pipebase := { (w.sinproc self).pipebase with outstate := .idle, outQueued := true } }) := by
  have hstep : w.feed self add srcPeer typeReceived srcptr = (do
      w.check (w.sinproc self).sending
      let w ← w.pipebase self Pipebase.sent
      pure (w.modify self fun s => { s with sending := false })) := by
    rw [feed, Fsm.feed_of_ne (by simp [hf]), handler, hs]
    rfl
  rw [hstep, hsend, check_true, ok_bind, pipebase_ok (Pipebase.sent_async ho hq), ok_bind]
  simp [modify_eq]

theorem feed_disconnect (hf : (w.sinproc self).fsm = .active)
    (hs : (w.sinproc self).state = .active) (hp : (w.sinproc self).peer = some peer)
    (hst : w.stops peer = 0) (hne : peer ≠ self) (hq : w.queued (peer, .disconnect) = false)
    (hq' : w.queued (self, .disconnect) = false) :
    w.feed self add srcPeer typeDisconnect srcptr =
      .ok (((w.set self { w.sinproc self with
        state := .disconnected, peer := none
        pipebase := (w.sinproc self).pipebase.stop }).pushto self
          ⟨(peer, .disconnect), .sinproc peer, srcPeer, typeDisconnect, self⟩).push self
          ⟨(self, .disconnect), .ep (w.sinproc self).owner, (w.sinproc self).src, typeDisconnect,
            self⟩) := by
  have hstep : w.feed self add srcPeer typeDisconnect srcptr = (do
      let w ← (w.pipebaseStop self).raiseDisconnect self
      w.disconnect self) := by
    rw [feed, Fsm.feed_of_ne (by simp [hf]), handler, hs]
    rfl
  have hobj : (self, SinprocObject.disconnect) ≠ (peer, .disconnect) := by simp [hne.symm]
  rw [hstep, raiseDisconnect, peer_ok (i := peer) (by simpa [pipebaseStop, modify_eq] using hp)
    (by simpa [pipebaseStop, modify_eq] using hst), ok_bind,
    raiseto_ok (by simpa [pipebaseStop, modify_eq] using hq), ok_bind, disconnect,
    raise_ok (by simpa [pipebaseStop, modify_eq, pushto, update_of_ne hobj] using hq')]
  simp [pipebaseStop, modify_eq]

/-! ## Connecting -/

/-- Starting a sinproc just made. -/
theorem fsmStart_ok (hf : (w.sinproc self).fsm = .idle) (hs : (w.sinproc self).state = .idle) :
    w.fsmStart self add = .ok (w.set self { w.sinproc self with
      fsm := .active, state := .connecting }) := by
  simp [fsmStart, feed, Fsm.feed, hf, handler, hs, setState, modify_eq]

/-- A sinproc just made raises `CONNECT`. Then it is started again, which it does
    not expect. -/
theorem connect_badAction {ep : ε} (hf : (w.sinproc self).fsm = .idle)
    (hs : (w.sinproc self).state = .idle) (hq : w.queued (self, .connect) = false) :
    w.connect self add ep = .error ⟨.badAction, (w.set self { w.sinproc self with
      fsm := .active, state := .connecting }).pushto self
        ⟨(self, .connect), .ep ep, srcPeer, typeConnect, self⟩⟩ := by
  rw [connect, fsmStart_ok hf hs, ok_bind, raiseto_ok (by simpa using hq), ok_bind]
  generalize hn : pushto _ self _ = n
  have hconn : (n.sinproc self).state = .connecting ∧ (n.sinproc self).fsm = .active := by
    simp [← hn]
  have hready : ¬ Fsm.start = actionReady := by decide
  have hagain : n.fsmStart self add = n.fail .badAction := by
    simp [fsmStart, feed, Fsm.feed, handler, hconn, hready, fail]
  rw [hagain]
  rfl

variable (peer) in
/-- A sinproc just made accepts, and raises `READY`. -/
theorem accept_ok (hf : (w.sinproc self).fsm = .idle) (hs : (w.sinproc self).state = .idle)
    (hq : w.queued (self, .connect) = false) :
    w.accept self add peer = .ok ((w.set self { w.sinproc self with
      fsm := .active, state := .ready, peer := some peer }).pushto self
        ⟨(self, .connect), .sinproc peer, srcPeer, typeReady, self⟩) := by
  rw [accept, modify_eq, raiseto_ok (by simpa using hq), ok_bind]
  simp [fsmStart, fsmAction, feed, Fsm.feed, hf, handler, hs, setState, modify_eq]

/-! ## Starting the pipebase -/

section

variable {p : Pipebase} {rc : ℤ}

theorem pipebaseStart_ok (h : (w.sinproc self).pipebase.start add = .ok (p, rc)) :
    w.pipebaseStart self add = .ok (w.set self { w.sinproc self with pipebase := p }, rc) := by
  simp [pipebaseStart, h, modify_eq]

variable (hf : (w.sinproc self).fsm = .active)

include hf

section

variable (hs : (w.sinproc self).state = .connecting)

include hs

theorem feed_connecting :
    w.feed self add srcPeer typeReady srcptr = (do
      let (w, rc) ← (w.set self { w.sinproc self with peer := srcptr }).pipebaseStart self add
      w.check (rc = 0)
      let w := w.setState self .active
      let peer ← w.peer self
      w.raiseto self (.sinproc peer) (self, .connect) srcPeer typeAccepted self) := by
  rw [feed, Fsm.feed_of_ne (by simp [hf]), handler, hs]
  rfl

/-- A connecting end learns who accepts, and tells it that it is active. -/
theorem feed_connecting_ready (hp : (w.sinproc self).pipebase.start add = .ok (p, 0))
    (hst : w.stops peer = 0) (hq : w.queued (self, .connect) = false) :
    w.feed self add srcPeer typeReady (some peer) = .ok ((w.set self { w.sinproc self with
      state := .active, peer := some peer, pipebase := p }).pushto self
        ⟨(self, .connect), .sinproc peer, srcPeer, typeAccepted, self⟩) := by
  rw [feed_connecting hf hs, pipebaseStart_ok (by simpa using hp)]
  simp only [ok_bind, decide_true, check_true, setState, modify_eq, set_self, set_set]
  rw [peer_ok (i := peer) (by simp) (by simpa using hst), ok_bind, raiseto_ok (by simpa using hq)]

/-- It aborts if its socket refuses the pipe. -/
theorem feed_connecting_refused (hp : (w.sinproc self).pipebase.start add = .ok (p, rc))
    (hrc : rc ≠ 0) : ∃ a, w.feed self add srcPeer typeReady srcptr = .error a := by
  rw [feed_connecting hf hs, pipebaseStart_ok (by simpa using hp)]
  simp [hrc, fail]

end

variable (hs : (w.sinproc self).state = .ready)

include hs

theorem feed_ready :
    w.feed self add srcPeer typeReady srcptr = (do
      let (w, rc) ← w.pipebaseStart self add
      w.check (rc = 0)
      pure (w.setState self .active)) := by
  rw [feed, Fsm.feed_of_ne (by simp [hf]), handler, hs]
  rfl

/-- An end that is ready becomes active, without recording its peer. -/
theorem feed_ready_ready (hp : (w.sinproc self).pipebase.start add = .ok (p, 0)) :
    w.feed self add srcPeer typeReady srcptr = .ok (w.set self { w.sinproc self with
      state := .active, pipebase := p }) := by
  rw [feed_ready hf hs, pipebaseStart_ok hp]
  simp [setState, modify_eq]

/-- It aborts if its socket refuses the pipe. -/
theorem feed_ready_refused (hp : (w.sinproc self).pipebase.start add = .ok (p, rc))
    (hrc : rc ≠ 0) : ∃ a, w.feed self add srcPeer typeReady srcptr = .error a := by
  rw [feed_ready hf hs, pipebaseStart_ok hp]
  simp [hrc, fail]

theorem feed_accept :
    w.feed self add srcPeer typeAccepted srcptr = (do
      let (w, rc) ← w.pipebaseStart self add
      if rc ≠ 0 then
        (w.pipebaseStop self).disconnect self
      else
        pure (w.setState self .active)) := by
  rw [feed, Fsm.feed_of_ne (by simp [hf]), handler, hs]
  rfl

theorem feed_accepted (hp : (w.sinproc self).pipebase.start add = .ok (p, 0)) :
    w.feed self add srcPeer typeAccepted srcptr = .ok (w.set self { w.sinproc self with
      state := .active, pipebase := p }) := by
  rw [feed_accept hf hs, pipebaseStart_ok hp]
  simp [setState, modify_eq]

/-- An end whose pipe is refused on `ACCEPTED` tells its owner, and only it. -/
theorem feed_accepted_refused (hp : (w.sinproc self).pipebase.start add = .ok (p, rc))
    (hrc : rc ≠ 0) (hq : w.queued (self, .disconnect) = false) :
    w.feed self add srcPeer typeAccepted srcptr = .ok ((w.set self { w.sinproc self with
      state := .disconnected, peer := none, pipebase := p.stop }).push self
        ⟨(self, .disconnect), .ep (w.sinproc self).owner, (w.sinproc self).src, typeDisconnect,
          self⟩) := by
  rw [feed_accept hf hs, pipebaseStart_ok hp]
  simp only [ok_bind, hrc, ne_eq, not_false_eq_true, if_true, pipebaseStop, modify_eq, set_self,
    set_set, disconnect]
  rw [raise_ok (by simpa using hq)]
  simp

end

/-- What `nn_sock_add` returns matters only where a pipebase is started. -/
theorem feed_add {src type : ℤ} (hc : (w.sinproc self).state ≠ .connecting)
    (hr : (w.sinproc self).state ≠ .ready) :
    w.feed self add src type srcptr = w.feed self 0 src type srcptr := by
  have hh : w.handler self add src type srcptr = w.handler self 0 src type srcptr := by
    cases hs : (w.sinproc self).state with
    | connecting => exact absurd hs hc
    | ready => exact absurd hs hr
    | _ => simp only [handler, hs]
  by_cases hf : (w.sinproc self).fsm = .stopping
  · simp [feed, hf]
  · rw [feed, feed, Fsm.feed_of_ne hf, Fsm.feed_of_ne hf, hh]

/-! ## Stopping -/

variable (w self) in
/-- An end that has no peer to tell when it is stopped. -/
def Alone : Prop := (w.sinproc self).state = .idle ∨ (w.sinproc self).state = .disconnected

/-- Such an end that is stopped has nothing to wait for but its events. -/
theorem stop_alone (hs : w.Alone self) :
    w.stop self = shutdownEnd (w.set self { w.sinproc self with
      fsm := .stopping, state := .stopping }) self := by
  rcases hs with hs | hs <;> simp [stop, shutdown, shutdownEvents, modify_eq, hs, setState]

/-- Any other one raises `DISCONNECT` to its peer, and waits for its answer. -/
theorem stop_of_not_alone (hs : ¬ w.Alone self) :
    w.stop self = (do
      let w ← raiseDisconnect (w.set self { w.sinproc self with
        fsm := .stopping, pipebase := (w.sinproc self).pipebase.stop }) self
      pure (w.setState self .stoppingPeer)) := by
  have hne : (w.sinproc self).state ≠ .idle ∧ (w.sinproc self).state ≠ .disconnected :=
    not_or.1 hs
  simp only [stop, shutdown, shutdownEvents, and_self, if_true, modify_eq, set_self, hne.1, hne.2,
    ne_eq, not_false_eq_true, decide_true, check_true, ok_bind, or_true, pipebaseStop, set_set]
  cases raiseDisconnect _ self with
  | error a => rfl
  | ok n => simp [shutdownEnd, setState, modify_eq]

/-- It returns if the peer has neither gone nor been told already. -/
theorem stop_tells_iff (hs : ¬ w.Alone self) : w.stop self = .ok n ↔
    ∃ peer, (w.sinproc self).peer = some peer ∧ w.stops peer = 0 ∧
      w.queued (peer, .disconnect) = false ∧ (w.set self { w.sinproc self with
        fsm := .stopping, state := .stoppingPeer
        pipebase := (w.sinproc self).pipebase.stop }).pushto self
          ⟨(peer, .disconnect), .sinproc peer, srcPeer, typeDisconnect, self⟩ = n := by
  rw [stop_of_not_alone hs]
  simp [bind_eq_ok, raiseDisconnect, peer_eq_ok, raiseto_eq_ok, setState, modify_eq, and_assoc]

theorem stop_tells (hs : ¬ w.Alone self) (hp : (w.sinproc self).peer = some peer)
    (hst : w.stops peer = 0) (hq : w.queued (peer, .disconnect) = false) :
    w.stop self = .ok ((w.set self { w.sinproc self with
      fsm := .stopping, state := .stoppingPeer
      pipebase := (w.sinproc self).pipebase.stop }).pushto self
        ⟨(peer, .disconnect), .sinproc peer, srcPeer, typeDisconnect, self⟩) :=
  (stop_tells_iff hs).2 ⟨peer, hp, hst, hq, rfl⟩

section

variable (hf : (w.sinproc self).fsm = .stopping) (hs : (w.sinproc self).state = .stoppingPeer)

include hf hs

/-- An end waiting for the other one to disconnect ignores other events. -/
theorem feed_ignored {type : ℤ} (ht : type = typeSent ∨ type = typeReceived) :
    w.feed self add srcPeer type srcptr = .ok w := by
  have hev : w.shutdownEvents self srcPeer type = .ok w := by
    rw [shutdownEvents, hs]
    rcases ht with rfl | rfl <;> rfl
  simp [feed, hf, shutdown, hev, shutdownEnd, hs]

theorem feed_stoppingPeer_disconnect :
    w.feed self add srcPeer typeDisconnect srcptr =
      (w.set self { w.sinproc self with state := .stopping }).shutdownEnd self := by
  have hev : w.shutdownEvents self srcPeer typeDisconnect =
      .ok (w.set self { w.sinproc self with state := .stopping }) := by
    rw [shutdownEvents, hs]
    rfl
  simp [feed, hf, shutdown, hev]

end

/-- A stopping end that still has an event queued goes on waiting. -/
theorem shutdownEnd_queued (hs : (w.sinproc self).state = .stopping)
    (hq : w.queued (self, .received) = true ∨ w.queued (self, .disconnect) = true) :
    w.shutdownEnd self = .ok w := by
  simp [shutdownEnd, hs, hq]

/-- One without says that it has stopped. -/
theorem shutdownEnd_stopped (hs : (w.sinproc self).state = .stopping)
    (hq : ∀ k, w.queued (self, k) = false) :
    w.shutdownEnd self = .ok (((w.set self { w.sinproc self with fsm := .idle }).push self
      ⟨(self, .stopped), .ep (w.sinproc self).owner, (w.sinproc self).src, typeStopped,
        self⟩).countStop self) := by
  simp only [shutdownEnd, hs, hq, ne_eq, not_true_eq_false, if_false, Bool.false_eq_true, or_self,
    Bool.not_false, check_true, ok_bind, fsmStopped, modify_eq]
  rw [raise_ok (by simpa using hq .stopped)]
  simp

end Inproc

end Nanomsg
