import Nanomsg.Inproc.Steps

/-!
# Asking sinprocs to stop

An end that is asked to stop tells its peer, or has none and waits only for
the events queued to it. It cannot tell a peer that has gone, or one that has
been told already, so asking one end may keep another one from being asked.

`stopAll_iff`: which ends can be asked to stop, one after the other, said of the
state before the first one is.
-/

namespace Nanomsg

open Function Sinproc

namespace Inproc

variable {ι ε : Type} [DecidableEq ι] {w n : Inproc ι ε} {as is : List ι} {i j p : ι}

section

variable (w) (as) (i p)

/-- The end `i`, asked to stop, tells the end `p`. -/
def Tells : Prop := ¬ w.Alone i ∧ (w.sinproc i).peer = some p

/-- An event that `i` waits for is queued. -/
def Pending : Prop := w.queued (i, .received) = true ∨ w.queued (i, .disconnect) = true

/-- `DISCONNECT` is queued to `p` once the ends `as` have been asked to stop. -/
def Told : Prop := w.queued (p, .disconnect) = true ∨ ∃ i ∈ as, w.Tells i p

/-- `nn_sinproc_stop` of `i` returns once the ends `as` have been asked to stop. -/
def MayStop : Prop :=
  w.Alone i ∧ (w.queued (i, .received) = true ∨ w.Told as i ∨ ∀ k, w.queued (i, k) = false) ∨
  ∃ p, w.Tells i p ∧ w.stops p = 0 ∧ ¬ w.Told as p ∧
    -- The peer has not stopped when it was asked itself.
    (p ∈ as → w.Alone p → w.queued (p, .received) = true)

end

/-! ### One end -/

/-- An end without a peer to tell waits for its events, or has stopped. -/
theorem stop_alone_iff (ha : w.Alone i) : w.stop i = .ok n ↔
    w.Pending i ∧ w.set i { w.sinproc i with fsm := .stopping, state := .stopping } = n ∨
    (∀ k, w.queued (i, k) = false) ∧
      ((w.set i { w.sinproc i with fsm := .idle, state := .stopping }).push i
        ⟨(i, .stopped), .ep (w.sinproc i).owner, (w.sinproc i).src, typeStopped, i⟩).countStop i =
          n := by
  rw [stop_alone ha]
  by_cases hp : w.Pending i
  · have hq : ¬ ∀ k, w.queued (i, k) = false := fun h => by simp [Pending, h] at hp
    rw [shutdownEnd_queued (by simp) (by simpa [Pending] using hp)]
    simp [hp, hq]
  · constructor
    · intro h
      have hq : ∀ k, w.queued (i, k) = false := by
        -- It aborts if an event is queued that it does not wait for.
        simp only [shutdownEnd, fsmStopped, set_self, ne_eq, not_true_eq_false, if_false, set_queued,
          if_neg (show ¬ (_ ∨ _) from hp), bind_eq_ok, check_eq_ok, raise_eq_ok, modify_eq,
          Bool.not_eq_true'] at h
        obtain ⟨-, hc, -, hs, -, ⟨ht, -⟩, -⟩ := h
        simp only [Pending, not_or, Bool.not_eq_true] at hp
        rintro (_ | _ | _ | _ | _)
        exacts [hc, hs, hp.1, hp.2, ht]
      refine .inr ⟨hq, ?_⟩
      rw [shutdownEnd_stopped (by simp) (by simpa using hq)] at h
      simpa using h
    · rintro (⟨h, -⟩ | ⟨hq, rfl⟩)
      · exact absurd h hp
      · rw [shutdownEnd_stopped (by simp) (by simpa using hq)]
        simp

/-- `nn_sinproc_stop` of an end returns if no other end has to be asked before. -/
theorem stop_iff : (∃ n, w.stop i = .ok n) ↔ w.MayStop [] i := by
  by_cases ha : w.Alone i
  · simp only [stop_alone_iff ha, MayStop, Tells, ha, not_true_eq_false, false_and, exists_false,
      or_false, true_and, Told, List.not_mem_nil, exists_or, exists_and_left, exists_eq', and_true,
      Pending, or_assoc]
  · simp [stop_tells_iff ha, MayStop, Tells, ha, Told]

/-! ### One after the other -/

/-- What asking the end `i` to stop does to the others. -/
structure Asked (w : Inproc ι ε) (i : ι) (n : Inproc ι ε) : Prop where
  sinproc : ∀ j ≠ i, n.sinproc j = w.sinproc j
  queued : ∀ o : ι × SinprocObject, o ≠ (i, .stopped) → o.2 ≠ .disconnect → n.queued o = w.queued o
  told : ∀ p, n.queued (p, .disconnect) = true ↔ w.queued (p, .disconnect) = true ∨ w.Tells i p
  stops : ∀ p, n.stops p = 0 ↔ w.stops p = 0 ∧ (p = i → w.Alone i → w.Pending i)

theorem Asked.of_stop (h : w.stop i = .ok n) : Asked w i n := by
  by_cases ha : w.Alone i
  · rcases (stop_alone_iff ha).1 h with ⟨hp, rfl⟩ | ⟨hq, rfl⟩
    · exact ⟨fun j hj => by simp [hj], fun o _ _ => rfl, fun p => by simp [Tells, ha],
        fun p => by simp [hp]⟩
    · have hp : ¬ w.Pending i := by simp [Pending, hq]
      refine ⟨fun j hj => by simp [hj, countStop], fun o ho _ => ?_, fun p => ?_, fun p => ?_⟩
      · simp [countStop, push, update_of_ne ho]
      · simp [countStop, push, Tells, ha]
      · by_cases hi : p = i
        · simp [countStop, push, hi, ha, hp]
        · simp [countStop, push, hi]
  · obtain ⟨p, hp, -, -, rfl⟩ := (stop_tells_iff ha).1 h
    refine ⟨fun j hj => by simp [hj], fun o _ ho => ?_, fun q => ?_, fun q => by simp [ha]⟩
    · have hne : o ≠ (p, .disconnect) := fun he => ho (by rw [he])
      simp [pushto, update_of_ne hne]
    · by_cases hq : q = p
      · simp [pushto, Tells, ha, hp, hq]
      · have hne : (q, SinprocObject.disconnect) ≠ (p, .disconnect) := fun he => hq (by simpa using he)
        simp [pushto, Tells, ha, hp, update_of_ne hne, Ne.symm hq]

/-- Whether an end can be asked to stop after `i` and the ends `as` can be said of
    the state before or after `i` is asked. -/
theorem Asked.mayStop_iff (h : Asked w i n) (hi : i ∉ as) (hj : j ≠ i) :
    n.MayStop as j ↔ w.MayStop (i :: as) j := by
  have halone : ∀ k ≠ i, (n.Alone k ↔ w.Alone k) := fun k hk => by rw [Alone, Alone, h.sinproc k hk]
  have htells : ∀ k ≠ i, ∀ p, n.Tells k p ↔ w.Tells k p := fun k hk p => by
    rw [Tells, Tells, halone k hk, h.sinproc k hk]
  have hrecv : ∀ k, n.queued (k, .received) = w.queued (k, .received) := fun k =>
    h.queued _ (by simp) (by simp)
  have htold : ∀ p, n.Told as p ↔ w.Told (i :: as) p := fun p => by
    have has : (∃ k ∈ as, n.Tells k p) ↔ ∃ k ∈ as, w.Tells k p :=
      exists_congr fun k => and_congr_right fun hk => htells k (ne_of_mem_of_not_mem hk hi) p
    rw [Told, Told, h.told, has, List.exists_mem_cons_iff, or_assoc]
  -- Unless it is told to disconnect, the events queued are the same.
  have hqueued : ¬ w.Told (i :: as) j → ∀ k, n.queued (j, k) = w.queued (j, k) := fun hj' k => by
    by_cases hk : k = .disconnect
    · subst hk
      have hn : n.queued (j, .disconnect) = false := by
        simpa using fun hq => hj' ((htold j).1 (.inl hq))
      rw [hn, eq_comm]
      simpa using fun hq => hj' (.inl hq)
    · exact h.queued _ (by simp [hj]) hk
  -- The peer has stopped if it is the one asked now, and did not have to wait.
  have hpeer : ∀ p, (n.stops p = 0 ∧ ¬ n.Told as p ∧
      (p ∈ as → n.Alone p → n.queued (p, .received) = true)) ↔
        w.stops p = 0 ∧ ¬ w.Told (i :: as) p ∧
          (p ∈ i :: as → w.Alone p → w.queued (p, .received) = true) := fun p => by
    rw [htold, hrecv, h.stops, and_left_comm, and_left_comm (a := w.stops p = 0)]
    refine and_congr_right fun hp => ?_
    have hpend : w.Pending p ↔ w.queued (p, .received) = true :=
      or_iff_left fun hq => hp (.inl hq)
    by_cases hpi : p = i
    · subst hpi
      simp [hi, hpend]
    · simp [hpi, halone p hpi]
  rw [MayStop, MayStop, halone j hj, hrecv, htold]
  refine or_congr (and_congr_right fun _ => or_congr_right (or_congr_right' fun ht => ?_))
    (exists_congr fun p => and_congr (htells j hj p) (hpeer p))
  exact forall_congr' fun k => by rw [hqueued ht k]

/-- The ends `is` can be asked to stop, one after the other, if and only if each
    of them can once those before it have been. -/
theorem stopAll_iff (hn : is.Nodup) :
    (∃ n, is.foldlM (fun n i => n.stop i) w = .ok n) ↔
      ∀ as i bs, is = as ++ i :: bs → w.MayStop as i := by
  induction is generalizing w with
  | nil => simp
  | cons i is ih =>
    obtain ⟨hi, hn⟩ := List.nodup_cons.1 hn
    have hstep : ∀ {n as j bs}, w.stop i = .ok n → is = as ++ j :: bs →
        (n.MayStop as j ↔ w.MayStop (i :: as) j) := fun hs hsplit =>
      (Asked.of_stop hs).mayStop_iff (fun h => hi (by simp [hsplit, h]))
        (fun he => hi (by simp [hsplit, he]))
    simp only [List.foldlM_cons, bind_eq_ok]
    constructor
    · rintro ⟨m, n, hs, hr⟩ as j bs hcons
      cases as with
      | nil =>
        obtain ⟨rfl, -⟩ := List.cons.inj hcons
        exact stop_iff.1 ⟨n, hs⟩
      | cons a as =>
        obtain ⟨rfl, hsplit⟩ : i = a ∧ is = as ++ j :: bs := by simpa using hcons
        exact (hstep hs hsplit).1 ((ih hn).1 ⟨m, hr⟩ as j bs hsplit)
    · intro h
      obtain ⟨n, hs⟩ := stop_iff.2 (h [] i is rfl)
      obtain ⟨m, hr⟩ := (ih (w := n) hn).2 fun as j bs hsplit =>
        (hstep hs hsplit).2 (h (i :: as) j bs (congrArg _ hsplit))
      exact ⟨m, n, hs, hr⟩

end Inproc

end Nanomsg
