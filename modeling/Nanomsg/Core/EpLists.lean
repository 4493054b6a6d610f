import Nanomsg.Core.Sock

/-!
# The lists of a socket

What the list operations and the loops of `sock.c` do to well-formed lists of
endpoints (`EpLists`): an endpoint is inserted (`insertEps_spec`), goes from
`eps` to `sdeps` (`move_spec`) or is erased from `sdeps` (`eraseSdeps_spec`);
`nn_sock_em_ep` finds the endpoint with an id (`findEp_spec`) and
`nn_sock_shutdown` moves them all (`stopEps_spec`). Erasing an endpoint of
`sdeps` while naming `eps` leaves both lists with the ends they had, or worse
(`eraseEps_wrong`).
-/

namespace Nanomsg

open Intrusive

/-- The two lists of a socket are well formed, disjoint and list `live` and `asked`. -/
structure EpLists (items : Items Ep) (eps sdeps : NnList Ep) (live asked : List Ep) : Prop where
  eps : Lists items eps live
  sdeps : Lists items sdeps asked
  disjoint : ∀ x ∈ live, x ∉ asked

namespace Sock

variable {s : Sock} {live asked xs as bs : List Ep} {x : Ep} {eid : ℤ} {n : ℕ}

theorem deref_ok (h : x ∉ s.freed) : s.deref x = .ok x := if_neg h

/-! ### Single endpoints -/

/-- Inserting a new endpoint at the end of `eps`. -/
theorem insertEps_spec (h : EpLists s.items s.eps s.sdeps live asked) (hx : s.items.itemIsinlist x = false)
    (hl : x ∉ live) (ha : x ∉ asked) :
    ∃ items eps, s.insertEps x = .ok { s with items := items, eps := eps } ∧
      EpLists items eps s.sdeps (live ++ [x]) asked := by
  obtain ⟨items, eps, he, hw, hf⟩ :=
    (show Lists s.items s.eps (live ++ []) by simpa using h.eps).insert_spec hx (by simpa using hl)
  have hd : ∀ y ∈ asked, y ∉ live ++ [x] := fun y hy hm => by
    rcases List.mem_append.1 hm with hm | hm
    · exact h.disjoint y hm hy
    · exact ha (List.mem_singleton.1 hm ▸ hy)
  refine ⟨items, eps, ?_, hw, h.sdeps.frame (fun y hy => (hf y (hd y hy)).1)
    fun y hy => (hf y (hd y hy)).2, fun y hm hy => hd y hy hm⟩
  rw [Link.head_nil] at he
  simp [insertEps, he]

/-- An endpoint goes from `eps` to the end of `sdeps`. -/
theorem move_spec (h : EpLists s.items s.eps s.sdeps (as ++ x :: bs) asked) :
    ∃ items eps sdeps s₁, s.eraseEps x = .ok s₁ ∧
      s₁.insertSdeps x = .ok { s with items := items, eps := eps, sdeps := sdeps } ∧
      EpLists items eps sdeps (as ++ bs) (asked ++ [x]) := by
  obtain ⟨items₁, he, hw, hin, hf⟩ := h.eps.erase_spec s.eps
  have hx : x ∉ as ++ bs := (List.nodup_cons.1 (List.nodup_middle.1 h.eps.nodup)).1
  have hmem : ∀ {y}, y ∈ as ++ bs → y ∈ as ++ x :: bs := fun hy => by
    simp only [List.mem_append, List.mem_cons] at hy ⊢
    tauto
  have hxa : x ∉ asked := h.disjoint x (by simp)
  have hs₁ : Lists items₁ s.sdeps (asked ++ []) := by
    rw [List.append_nil]
    exact h.sdeps.frame (fun y hy => (hf y fun hm => h.disjoint y hm hy).1)
      fun y hy => (hf y fun hm => h.disjoint y hm hy).2
  obtain ⟨items, sdeps, hi, hw', hf'⟩ := hs₁.insert_spec hin (by simpa using hxa)
  have hd : ∀ y ∈ as ++ bs, y ∉ asked ++ [x] := fun y hy hm => by
    rcases List.mem_append.1 hm with hm | hm
    · exact h.disjoint y (hmem hy) hm
    · exact hx (List.mem_singleton.1 hm ▸ hy)
  refine ⟨items, s.eps.unlink as bs, sdeps, { s with items := items₁, eps := s.eps.unlink as bs },
    by simp [eraseEps, he], ?_, hw.frame (fun y hy => (hf' y (hd y hy)).1)
      (fun y hy => (hf' y (hd y hy)).2), hw', hd⟩
  rw [Link.head_nil] at hi
  simp [insertSdeps, hi]

/-- An endpoint is erased from `sdeps`. -/
theorem eraseSdeps_spec (h : EpLists s.items s.eps s.sdeps live (as ++ x :: bs)) :
    ∃ items sdeps, s.eraseSdeps x = .ok { s with items := items, sdeps := sdeps } ∧
      EpLists items s.eps sdeps live (as ++ bs) := by
  obtain ⟨items, he, hw, _, hf⟩ := h.sdeps.erase_spec s.sdeps
  have hd : ∀ y ∈ live, y ∉ as ++ x :: bs := h.disjoint
  refine ⟨items, s.sdeps.unlink as bs, by simp [eraseSdeps, he],
    h.eps.frame (fun y hy => (hf y (hd y hy)).1) (fun y hy => (hf y (hd y hy)).2), hw,
    fun y hy hm => hd y hy ?_⟩
  simp only [List.mem_append, List.mem_cons] at hm ⊢
  tauto

/-- An endpoint of `sdeps` is erased, the list named being `eps`. -/
theorem eraseEps_wrong (h : EpLists s.items s.eps s.sdeps live (as ++ x :: bs)) :
    ∃ items, s.eraseEps x = .ok { s with items := items, eps := s.eps.unlink as bs } ∧
      Lists items s.eps live ∧ Lists items (s.sdeps.unlink as bs) (as ++ bs) := by
  obtain ⟨items, he, hw, _, hf⟩ := h.sdeps.erase_spec s.eps
  refine ⟨items, by simp [eraseEps, he],
    h.eps.frame (fun y hy => (hf y (h.disjoint y hy)).1) (fun y hy => (hf y (h.disjoint y hy)).2),
    hw⟩

/-! ### Loops -/

/-- The loop of `nn_sock_em_ep` finds the first endpoint with the id. -/
theorem findEp_spec {p : Link Ep} (h : Chain s.items.next p xs .null)
    (hf : ∀ x ∈ xs, x ∉ s.freed) (hn : xs.length < n) :
    s.findEp eid n p = .ok (xs.find? fun x => s.eidOf x = eid) := by
  induction xs generalizing p n with
  | nil =>
    obtain ⟨n, rfl⟩ := Nat.exists_eq_succ_of_ne_zero (Nat.ne_of_gt hn)
    rw [chain_nil.1 h]
    rfl
  | cons x xs ih =>
    obtain ⟨n, rfl⟩ := Nat.exists_eq_succ_of_ne_zero (Nat.ne_of_gt (Nat.zero_lt_of_lt hn))
    obtain ⟨rfl, h'⟩ := h
    simp only [findEp, deref_ok (hf x List.mem_cons_self), ok_bind]
    by_cases he : s.eidOf x = eid
    · simp [he]
    · simp only [if_neg he, NnList.next_ok h', ok_bind]
      rw [ih h' (fun y hy => hf y (List.mem_cons_of_mem x hy)) (Nat.lt_of_succ_lt_succ hn)]
      simp [he]

/-- The loop of `nn_sock_shutdown` moves every endpoint to `sdeps`, in order. -/
theorem stopEps_spec (h : EpLists s.items s.eps s.sdeps xs asked) (hf : ∀ x ∈ xs, x ∉ s.freed)
    (hn : xs.length < n) :
    ∃ items eps sdeps, stopEps n s.eps.first s =
        .ok { s with items := items, eps := eps, sdeps := sdeps, pending := s.pending ++ xs } ∧
      EpLists items eps sdeps [] (asked ++ xs) := by
  induction xs generalizing s asked n with
  | nil =>
    obtain ⟨n, rfl⟩ := Nat.exists_eq_succ_of_ne_zero (Nat.ne_of_gt hn)
    refine ⟨s.items, s.eps, s.sdeps, ?_, by simpa using h⟩
    rw [h.eps.first_eq]
    simp [stopEps]
  | cons x xs ih =>
    obtain ⟨n, rfl⟩ := Nat.exists_eq_succ_of_ne_zero (Nat.ne_of_gt (Nat.zero_lt_of_lt hn))
    obtain ⟨items, eps, sdeps, s₁, he, hi, hw⟩ :=
      move_spec (show EpLists s.items s.eps s.sdeps ([] ++ x :: xs) asked from h)
    have hfwd := h.eps.fwd
    obtain ⟨items', eps', sdeps', hs, hw'⟩ := ih
      (s := ({ s with items := items, eps := eps, sdeps := sdeps }.epStop x)) hw
      (fun y hy => hf y (List.mem_cons_of_mem x hy)) (Nat.lt_of_succ_lt_succ hn)
    refine ⟨items', eps', sdeps', ?_, ?_⟩
    · -- The next endpoint, read before `x` is erased, then starts the list.
      have hit : s.items.next x = eps.first := by rw [hfwd.2.eq_head, hw.eps.first_eq]; rfl
      rw [hfwd.1]
      simp only [stopEps, deref_ok (hf x List.mem_cons_self), NnList.next_ok hfwd.2, ok_bind, he, hi, hit]
      rw [show eps.first = ({ s with items := items, eps := eps, sdeps := sdeps }.epStop x).eps.first
        from rfl, hs]
      simp [epStop]
    · simpa using hw'

/-- `NN_FSM_STOP` asks every endpoint of an active socket to stop. -/
theorem shutdown_stop {t : SockType} (ha : s.state = .active)
    (h : EpLists s.items s.eps s.sdeps xs asked) (hf : ∀ x ∈ xs, x ∉ s.freed)
    (hn : xs.length < s.allocs + 1) :
    ∃ items eps sdeps, s.shutdown t Fsm.action Fsm.stop none = finish2 t { s.stopEfds t with
        items := items, eps := eps, sdeps := sdeps
        pending := s.pending ++ xs, state := .stoppingEps } ∧
      EpLists items eps sdeps [] (asked ++ xs) := by
  obtain ⟨items, eps, sdeps, hs, hw⟩ := stopEps_spec (s := s.stopEfds t) h hf hn
  refine ⟨items, eps, sdeps, ?_, hw⟩
  simp only [shutdown, ha, and_self, if_true, decide_true, nnAssert_true, ok_bind]
  rw [show stopEps ((s.stopEfds t).allocs + 1) _ _ = _ from hs]
  rfl

/-! ### `NN_EP_STOPPED` -/

/-- An active socket erases the endpoint from `eps`. -/
theorem handler_epStopped (ha : s.state = .active) (hf : x ∉ s.freed) :
    s.handler srcEp epStopped (some (.ep x)) = (do
      let s ← s.eraseEps x
      pure ((s.epTerm x).epFree x)) := by
  simp [handler, ha, asEp, deref_ok hf]

/-- A stopping socket erases it from `sdeps`. -/
theorem shutdown_epStopped {t : SockType} (ha : s.state = .stoppingEps) (hf : x ∉ s.freed) :
    s.shutdown t srcEp epStopped (some (.ep x)) = (do
      let s ← s.eraseSdeps x
      finish2 t ((s.epTerm x).epFree x)) := by
  simp [shutdown, ha, asEp, deref_ok hf]

/-! ### The end of the endpoints -/

variable {t : SockType}

/-- Nothing happens while an endpoint has not stopped. -/
theorem finish2_of_ne_nil (h : EpLists s.items s.eps s.sdeps live asked) (ha : asked ≠ []) :
    s.finish2 t = .ok s := by
  have := h.sdeps.empty_eq
  cases asked with
  | nil => exact absurd rfl ha
  | cons x xs => simp [finish2, this]

/-- After the last endpoint the protocol is stopped, or destroyed at once. -/
theorem finish2_nil (h : EpLists s.items s.eps s.sdeps [] []) :
    s.finish2 t = match t.stop with
      | none => .ok { s with state := .stopping }.finish1
      | some reply => { s with state := .stopping }.vfptrStop reply := by
  simp only [finish2, h.sdeps.empty_eq, h.eps.empty_eq, List.isEmpty_nil, Bool.not_true,
    Bool.false_eq_true, if_false, nnAssert_true, ok_bind]
  cases t.stop <;> rfl

/-- Raising `fsm.stopped` when it is not queued. -/
theorem sockbaseStopped_ok (hq : s.stoppedQueued = false) :
    s.sockbaseStopped = .ok { s with
      stopped := { s.stopped with fsm := some (), srcptr := none, type := actionStopped }
      stoppedQueued := true
      reports := s.reports + 1 } := by
  simp [sockbaseStopped, hq]

/-- Stopping or destroying the protocol does not touch the endpoints. -/
theorem finish2_frame (h : EpLists s.items s.eps s.sdeps [] []) (hq : s.stoppedQueued = false) :
    ∃ state termsem stopped queued calls reports, (state = .stopping ∨ state = .fini) ∧
      s.finish2 t = .ok { s with
        state := state, termsem := termsem, stopped := stopped, stoppedQueued := queued,
        calls := calls, reports := reports } := by
  rw [finish2_nil h]
  cases t.stop with
  | none => exact ⟨_, _, _, _, _, _, .inr rfl, rfl⟩
  | some reply =>
    cases reply with
    | atOnce => exact ⟨_, _, _, _, _, _, .inl rfl, sockbaseStopped_ok hq⟩
    | later => exact ⟨_, _, _, _, _, _, .inl rfl, rfl⟩

/-! ### Actions of a stopping socket -/

variable {s' : Sock}

theorem exec_stop
    (h : shutdown t { s.enter with fsm := .stopping } Fsm.action Fsm.stop none = .ok s') :
    s.exec t .stop = .ok (s'.leave, 0) := by
  simp only [exec, stop, feed, Fsm.feed_stopping, h, ok_bind, pure_eq_ok]

theorem exec_epStopped (hf : s.fsm = .stopping)
    (h : (s.deliver x).shutdown t srcEp epStopped (some (.ep x)) = .ok s') :
    s.exec t (.epStopped x) = .ok (s', 0) := by
  simp only [exec, feed]
  rw [show (s.deliver x).fsm = .stopping from hf, Fsm.feed_stopping, h]
  rfl

end Sock

end Nanomsg
