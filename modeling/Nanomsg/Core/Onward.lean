import Nanomsg.Core.Sock

/-!
# What a socket does not take back

Whatever a socket does, it does not become active again once it has been stopped, its ids are not
handed out again, and `relesem` is not its own to post (`Sock.exec_onward`). What it does in the
context leaves the context alone (`Sock.Inside`); a call enters it, and leaves it in most cases.
-/

namespace Nanomsg

open Intrusive

/-- The socket has been stopped. -/
def SockState.Gone : SockState → Prop
  | .stoppingEps | .stopping | .fini => True
  | .init | .active => False

namespace Sock

/-- From `s` on to `s'`. -/
structure Onward (s s' : Sock) : Prop where
  gone : s.state.Gone → s'.state.Gone
  eid : s.eid ≤ s'.eid
  relesem : s'.relesem = s.relesem

variable {t : SockType} {s s' s'' : Sock} {x : Ep}

theorem Onward.trans (h : Onward s s') (h' : Onward s' s'') : Onward s s'' :=
  ⟨fun hg => h'.gone (h.gone hg), Int.le_trans h.eid h'.eid, h'.relesem.trans h.relesem⟩

/-- From `s` on to `s'` in the context. -/
structure Inside (s s' : Sock) : Prop extends Onward s s' where
  ctx : s'.ctx = s.ctx

theorem Inside.trans (h : Inside s s') (h' : Inside s' s'') : Inside s s'' :=
  ⟨h.toOnward.trans h'.toOnward, h'.ctx.trans h.ctx⟩

theorem inside_of_eq (hstate : s'.state = s.state) (heid : s'.eid = s.eid)
    (hrelesem : s'.relesem = s.relesem) (hctx : s'.ctx = s.ctx) : Inside s s' :=
  ⟨⟨fun h => hstate ▸ h, Int.le_of_eq heid.symm, hrelesem⟩, hctx⟩

/-! ### The endpoints -/

theorem epInit_inside {eid : ℤ} {addrLen : ℕ} (h : s.epInit x eid addrLen = .ok s') :
    Inside s s' := by
  obtain ⟨-, -, h⟩ := bind_eq_ok.1 h
  cases h
  exact inside_of_eq rfl rfl rfl rfl

theorem nextEid_inside (h : s.nextEid = .ok s') : Inside s s' := by
  rw [nextEid] at h
  split at h
  · cases h
    exact ⟨⟨id, Int.le_add_of_nonneg_right (by decide), rfl⟩, rfl⟩
  · cases h

theorem insertEps_inside (h : s.insertEps x = .ok s') : Inside s s' := by
  obtain ⟨_, -, h⟩ := bind_eq_ok.1 h
  cases h
  exact inside_of_eq rfl rfl rfl rfl

theorem insertSdeps_inside (h : s.insertSdeps x = .ok s') : Inside s s' := by
  obtain ⟨_, -, h⟩ := bind_eq_ok.1 h
  cases h
  exact inside_of_eq rfl rfl rfl rfl

theorem eraseEps_inside (h : s.eraseEps x = .ok s') : Inside s s' := by
  obtain ⟨_, -, h⟩ := bind_eq_ok.1 h
  cases h
  exact inside_of_eq rfl rfl rfl rfl

theorem eraseSdeps_inside (h : s.eraseSdeps x = .ok s') : Inside s s' := by
  obtain ⟨_, -, h⟩ := bind_eq_ok.1 h
  cases h
  exact inside_of_eq rfl rfl rfl rfl

theorem stopEps_inside {n : ℕ} {it : Link Ep} (h : stopEps n it s = .ok s') : Inside s s' := by
  induction n generalizing it s with
  | zero => cases h
  | succ n ih =>
    cases it with
    | null =>
      cases h
      exact inside_of_eq rfl rfl rfl rfl
    | out => cases h
    | node x =>
      obtain ⟨ep, -, h⟩ := bind_eq_ok.1 h
      obtain ⟨it, -, h⟩ := bind_eq_ok.1 h
      obtain ⟨s₁, h₁, h⟩ := bind_eq_ok.1 h
      obtain ⟨s₂, h₂, h⟩ := bind_eq_ok.1 h
      have hstop : Inside s₂ (s₂.epStop ep) := inside_of_eq rfl rfl rfl rfl
      exact (eraseEps_inside h₁).trans ((insertSdeps_inside h₂).trans (hstop.trans (ih h)))

/-! ### The state machine -/

theorem sockbaseStopped_inside (h : s.sockbaseStopped = .ok s') : Inside s s' := by
  obtain ⟨_, -, h⟩ := bind_eq_ok.1 h
  cases h
  exact inside_of_eq rfl rfl rfl rfl

theorem vfptrStop_inside {reply : StopReply} (h : s.vfptrStop reply = .ok s') : Inside s s' := by
  cases reply with
  | later =>
    cases h
    exact inside_of_eq rfl rfl rfl rfl
  | atOnce =>
    have hcalled : Inside s { s with calls := s.calls ++ [.stop] } := inside_of_eq rfl rfl rfl rfl
    exact hcalled.trans (sockbaseStopped_inside h)

/-- What goes on from a label of `nn_sock_shutdown` leaves the socket stopped. -/
theorem finish1_inside (s : Sock) : Inside s s.finish1 := ⟨⟨fun _ => trivial, Int.le_refl _, rfl⟩, rfl⟩

theorem finish2_inside (h : finish2 t s = .ok s') : Inside s s' := by
  rw [finish2] at h
  split at h
  · cases h
    exact inside_of_eq rfl rfl rfl rfl
  · obtain ⟨_, -, h⟩ := bind_eq_ok.1 h
    have hstopping : Inside s { s with state := .stopping } := ⟨⟨fun _ => trivial, Int.le_refl _, rfl⟩, rfl⟩
    cases ht : t.stop with
    | none =>
      rw [ht] at h
      cases h
      exact hstopping.trans (finish1_inside _)
    | some reply =>
      rw [ht] at h
      exact hstopping.trans (vfptrStop_inside h)

/-- Asking a socket to stop leaves it stopped. -/
theorem shutdown_gone {srcptr : Option SrcPtr} (h : s.shutdown t Fsm.action Fsm.stop srcptr = .ok s') :
    Inside s s' ∧ s'.state.Gone := by
  rw [shutdown, if_pos ⟨rfl, rfl⟩] at h
  obtain ⟨-, -, h⟩ := bind_eq_ok.1 h
  obtain ⟨s₁, h₁, h⟩ := bind_eq_ok.1 h
  have hefds : Inside s (s.stopEfds t) := inside_of_eq rfl rfl rfl rfl
  have hstopping : Inside s₁ { s₁ with state := .stoppingEps } :=
    ⟨⟨fun _ => trivial, Int.le_refl _, rfl⟩, rfl⟩
  have hfinish := finish2_inside h
  exact ⟨hefds.trans ((stopEps_inside h₁).trans (hstopping.trans hfinish)), hfinish.gone trivial⟩

theorem shutdown_inside {src type : ℤ} {srcptr : Option SrcPtr}
    (h : s.shutdown t src type srcptr = .ok s') : Inside s s' := by
  by_cases hstop : src = Fsm.action ∧ type = Fsm.stop
  · obtain ⟨rfl, rfl⟩ := hstop
    exact (shutdown_gone h).1
  rw [shutdown, if_neg hstop] at h
  split at h
  · split at h
    · obtain ⟨ep, -, h⟩ := bind_eq_ok.1 h
      obtain ⟨s₁, h₁, h⟩ := bind_eq_ok.1 h
      have hfree : Inside s₁ ((s₁.epTerm ep).epFree ep) := inside_of_eq rfl rfl rfl rfl
      exact (eraseSdeps_inside h₁).trans (hfree.trans (finish2_inside h))
    · cases h
      exact inside_of_eq rfl rfl rfl rfl
  split at h
  · obtain ⟨-, -, h⟩ := bind_eq_ok.1 h
    cases h
    exact finish1_inside s
  · cases h

theorem handler_inside {src type : ℤ} {srcptr : Option SrcPtr}
    (h : s.handler src type srcptr = .ok s') : Inside s s' := by
  rw [handler] at h
  cases hstate : s.state with
  | init =>
    rw [hstate] at h
    dsimp only at h
    split at h
    · split at h
      · cases h
        exact ⟨⟨fun hg => absurd hg (by rw [hstate]; exact not_false), Int.le_refl _, rfl⟩, rfl⟩
      · cases h
    · cases h
  | active =>
    rw [hstate] at h
    dsimp only at h
    split at h
    · cases h
    split at h
    · split at h
      · obtain ⟨ep, -, h⟩ := bind_eq_ok.1 h
        obtain ⟨s₁, h₁, h⟩ := bind_eq_ok.1 h
        cases h
        have hfree : Inside s₁ ((s₁.epTerm ep).epFree ep) := inside_of_eq rfl rfl rfl rfl
        exact (eraseEps_inside h₁).trans hfree
      · cases h
    split at h
    · obtain ⟨p, -, h⟩ := bind_eq_ok.1 h
      cases h
      exact inside_of_eq hstate.symm rfl rfl rfl
    split at h
    · obtain ⟨p, -, h⟩ := bind_eq_ok.1 h
      cases h
      exact inside_of_eq hstate.symm rfl rfl rfl
    · cases h
  | stoppingEps | stopping | fini =>
    rw [hstate] at h
    cases h

theorem feed_inside {src type : ℤ} {srcptr : Option SrcPtr}
    (h : s.feed t src type srcptr = .ok s') : Inside s s' := by
  rw [feed, Fsm.feed] at h
  split at h
  · exact handler_inside h
  · exact shutdown_inside h

/-! ### The calls -/

/-- From entering the context on. -/
theorem enter_onward (s : Sock) : Onward s s.enter := ⟨id, Int.le_refl _, rfl⟩

theorem leave_onward (s : Sock) : Onward s s.leave := ⟨id, Int.le_refl _, rfl⟩

/-- A call that leaves the context again. -/
def Passes (s s' : Sock) : Prop := Onward s s' ∧ s'.ctx = s.ctx ++ [.enter, .leave]

/-- What is done in the context, between entering it and leaving it. -/
theorem Inside.passes (h : Inside s.enter s') : Passes s s'.leave := by
  refine ⟨(enter_onward s).trans (h.toOnward.trans (leave_onward s')), ?_⟩
  rw [leave, h.ctx]
  exact List.append_assoc _ _ _

/-- `nn_sock_stop` leaves the socket stopped. -/
theorem stop_passes (h : s.stop t = .ok s') : Passes s s' ∧ s'.state.Gone := by
  obtain ⟨s₁, h₁, h⟩ := bind_eq_ok.1 h
  cases h
  rw [feed, Fsm.feed_stopping] at h₁
  obtain ⟨hinside, hgone⟩ := shutdown_gone h₁
  have hstopping : Inside s.enter { s.enter with fsm := .stopping } := inside_of_eq rfl rfl rfl rfl
  exact ⟨(hstopping.trans hinside).passes, (leave_onward s₁).gone hgone⟩

/-- Adding an endpoint leaves the context unless there is no memory. -/
theorem addEp_passes {addrLen : ℕ} {rc : ℤ} {r : Sock × ℤ}
    (h : s.addEp true addrLen rc = .ok r) : Passes s r.1 := by
  rw [addEp] at h
  simp only [Bool.not_true, Bool.false_eq_true, if_false] at h
  obtain ⟨s₁, h₁, h⟩ := bind_eq_ok.1 h
  have halloc : Inside s.enter s.enter.alloc := inside_of_eq rfl rfl rfl rfl
  have hinit := halloc.trans (epInit_inside h₁)
  split at h
  · cases h
    have hfree : Inside s₁ (s₁.epFree s.enter.allocs) := inside_of_eq rfl rfl rfl rfl
    exact (hinit.trans hfree).passes
  · obtain ⟨s₂, h₂, h⟩ := bind_eq_ok.1 h
    obtain ⟨s₃, h₃, h⟩ := bind_eq_ok.1 h
    cases h
    exact (hinit.trans ((nextEid_inside h₂).trans (insertEps_inside h₃))).passes

theorem addEp_onward {memory : Bool} {addrLen : ℕ} {rc : ℤ} {r : Sock × ℤ}
    (h : s.addEp memory addrLen rc = .ok r) : Onward s r.1 := by
  cases memory with
  | false =>
    cases h
    exact enter_onward s
  | true => exact (addEp_passes h).1

theorem emEp_passes {eid : ℤ} {r : Sock × ℤ} (h : s.emEp eid = .ok r) : Passes s r.1 := by
  obtain ⟨found, -, h⟩ := bind_eq_ok.1 h
  cases found with
  | none =>
    cases h
    have hnone : Inside s.enter s.enter := inside_of_eq rfl rfl rfl rfl
    exact hnone.passes
  | some ep =>
    obtain ⟨s₁, h₁, h⟩ := bind_eq_ok.1 h
    obtain ⟨s₂, h₂, h⟩ := bind_eq_ok.1 h
    cases h
    have hstop : Inside s₂ (s₂.epStop ep) := inside_of_eq rfl rfl rfl rfl
    exact ((eraseEps_inside h₁).trans ((insertSdeps_inside h₂).trans hstop)).passes

/-- Every action goes on from where the socket is. -/
theorem exec_onward {a : SockAction} {r : Sock × ℤ} (h : s.exec t a = .ok r) : Onward s r.1 := by
  cases a with
  | addEp => exact addEp_onward h
  | emEp => exact (emEp_passes h).1
  | epStopped x =>
    obtain ⟨s₁, h₁, h⟩ := bind_eq_ok.1 h
    cases h
    have hdeliver : Inside s (s.deliver x) := inside_of_eq rfl rfl rfl rfl
    exact (hdeliver.trans (feed_inside h₁)).toOnward
  | stop =>
    obtain ⟨s₁, h₁, h⟩ := bind_eq_ok.1 h
    cases h
    exact (stop_passes h₁).1.1
  | pipe =>
    obtain ⟨s₁, h₁, h⟩ := bind_eq_ok.1 h
    cases h
    exact (feed_inside h₁).toOnward
  | sockbaseStopped =>
    obtain ⟨s₁, h₁, h⟩ := bind_eq_ok.1 h
    cases h
    exact (sockbaseStopped_inside h₁).toOnward
  | processStopped =>
    obtain ⟨s₁, h₁, h⟩ := bind_eq_ok.1 h
    cases h
    have htaken : Inside s { s with stopped := s.stopped.clear, stoppedQueued := false } :=
      inside_of_eq rfl rfl rfl rfl
    exact (htaken.trans (feed_inside h₁)).toOnward

end Sock

end Nanomsg
