import Mathlib.Data.Fintype.Basic
import Nanomsg.Aio.Delivery

/-!
# The order of the events between two contexts

The events raised in one context for another are processed in the order in which
they are raised only if no two copies of its queue are delivered at the same time:
a thread takes the copy and unlocks the mutex before it delivers what is in it, so
that another thread, or the same one deeper inside a handler, may raise more
events, take a copy of those and deliver it first.

`raised_inOrder`: the order is kept in the runs in which no thread takes a copy with
an event for a context while an earlier one from the same context is still to be
processed there (`InTurn`).
-/

namespace Nanomsg

open Function Mailbox Transition

variable {κ τ ι φ π : Type}

/-- Raised with `nn_ctx_raiseto` in the context `c`, for a machine of `d`. -/
def Raise.isTo [DecidableEq κ] (ctxOf : φ → κ) (c d : κ) (r : Raise κ ι φ π) : Bool :=
  !r.own && r.ctx = c && ctxOf r.fsm = d

namespace Ctxs

variable [DecidableEq κ] [DecidableEq τ] [DecidableEq ι] (ctxOf : φ → κ) {w w' : Ctxs κ τ ι φ π}
  {line : Slot κ τ → List (Raise κ ι φ π)} {c d : κ}

/-- An event raised from `c` is out of its queue, and not processed yet. -/
def OnItsWay (w : Ctxs κ τ ι φ π) (c : κ) (r : Raise κ ι φ π) : Prop :=
  w.pending r.event = some r ∧ r.own = false ∧ r.ctx = c ∧ ¬ w.queues.Has (.eventsto c) r.event

/-- No copy is taken with an event for the context that another event from the same
    context is on its way to. -/
def InTurn (w : Ctxs κ τ ι φ π) : CtxAction κ τ ι φ π → Prop
  | .step t => ∀ c, w.pc t = .onleave c → ∀ e r r', w.queues.Has (.eventsto c) e →
      w.pending e = some r → w.OnItsWay c r' → ctxOf r.fsm ≠ ctxOf r'.fsm
  | _ => True

/-- What a thread is delivering from `c` to `d`, in one of its calls of
    `nn_ctx_leave`. -/
def flight (depth : τ → ℕ) (line : Slot κ τ → List (Raise κ ι φ π)) (c d : κ) (p : τ × ℕ) :
    List (Raise κ ι φ π) :=
  ((if p.2 + 1 = depth p.1 then line (.hand p.1) else []) ++ line (.place (.copy p.1 p.2))).filter
    (Raise.isTo ctxOf c d)

/-- What is on its way from `c` to `d` is in one copy. -/
def Ordered (depth : τ → ℕ) (m : Log (Slot κ τ) (Raise κ ι φ π)) (c d : κ) : Prop :=
  ∃ rs, m.InLine (Raise.isTo ctxOf c d) (rs ++ m.line (.place (.eventsto c))) ∧
    Sole (flight ctxOf depth m.line c d) rs

variable {ctxOf} {a : CtxAction κ τ ι φ π} {depth : τ → ℕ} {m : Log (Slot κ τ) (Raise κ ι φ π)}
  {r : Raise κ ι φ π} {t : τ} {c' : κ}

omit [DecidableEq τ] [DecidableEq ι] in
theorem isTo_iff : r.isTo ctxOf c d = true ↔ r.own = false ∧ r.ctx = c ∧ ctxOf r.fsm = d := by
  simp [Raise.isTo, and_assoc]

omit [DecidableEq τ] [DecidableEq ι] in
/-- What is delivered is on its way. -/
theorem Inv.onItsWay (h : Inv ctxOf w line) {p : τ × ℕ}
    (hr : r ∈ flight ctxOf w.depth line c d p) : w.OnItsWay c r ∧ ctxOf r.fsm = d := by
  obtain ⟨hr, hto⟩ := List.mem_filter.1 hr
  obtain ⟨s, hs, hm⟩ : ∃ s, s ≠ .place (.eventsto c) ∧ r ∈ line s := by
    rcases List.mem_append.1 hr with hm | hm
    · split at hm
      · exact ⟨_, by simp, hm⟩
      · simp at hm
    · exact ⟨_, by simp, hm⟩
  obtain ⟨hro, hrc, hrd⟩ := isTo_iff.1 hto
  refine ⟨⟨(h.mail.tracks _ _).2 ⟨rfl, s, hm⟩, hro, hrc, fun hhas => ?_⟩, hrd⟩
  obtain ⟨r', hm', he⟩ := List.mem_map.1 (h.stock.holds.has_iff.1 hhas)
  exact hs (h.mail.log.apart hm' hm he).2.symm

omit [DecidableEq τ] [DecidableEq ι] in
/-- An event that a thread has taken from a copy is being delivered. -/
theorem Inv.depth_pos (h : Inv ctxOf w line) (hr : r ∈ line (.hand t)) (hro : r.own = false) :
    0 < w.depth t := by
  refine h.locks.nested t ?_
  have hh := h.stock.hand t
  cases hp : w.pc t <;> rw [hp] at hh
  case process c e own =>
    obtain ⟨r', hr', -, -, hown, -⟩ := hh
    rw [hr', List.mem_singleton] at hr
    obtain rfl : own = false := by rw [← hown, ← hr, hro]
    rfl
  case enter c e => rfl
  all_goals
    obtain hh : line (.hand t) = [] := hh
    simp [hh] at hr

/-! ### The actions -/

section

variable {k : Place κ τ} {rs : List (Raise κ ι φ π)}

omit [DecidableEq τ] [DecidableEq ι] in
theorem Ordered.keep (ho : Ordered ctxOf w.depth m c d)
    (hd : ∀ t, depth t = w.depth t ∨ m.line (.hand t) = []) : Ordered ctxOf depth m c d := by
  obtain ⟨xs, hline, hsole⟩ := ho
  refine ⟨xs, hline, hsole.congr fun p => ?_⟩
  rcases hd p.1 with hd | hh
  · simp [flight, hd]
  · simp [flight, hh]

omit [DecidableEq ι] in
/-- An event is raised: what is on its way is not concerned. -/
theorem Ordered.post (ho : Ordered ctxOf depth m c d)
    (hk : k = .events r.ctx ∧ r.own = true ∨ k = .eventsto r.ctx ∧ r.own = false) :
    Ordered ctxOf depth (m.post (.place k) r) c d := by
  obtain ⟨xs, hline, hsole⟩ := ho
  have hcopy : ∀ t d, k ≠ .copy t d := by rcases hk with ⟨rfl, -⟩ | ⟨rfl, -⟩ <;> simp
  refine ⟨xs, ?_, hsole.congr fun p => by simp [flight, Log.post, (hcopy p.1 p.2).symm]⟩
  rcases hk with ⟨rfl, hro⟩ | ⟨rfl, hro⟩
  · exact (hline.post_of_not (by simp [Raise.isTo, hro])).congr (by simp [Log.post])
  · by_cases hc : c = r.ctx
    · subst hc
      exact hline.post.congr (by simp [Log.post])
    · have hno : r.isTo ctxOf c d = false := by simp [Raise.isTo, Ne.symm hc]
      exact (hline.post_of_not hno).congr (by simp [Log.post, hc])

omit [DecidableEq ι] in
/-- A thread takes an event off a queue of its own, or off its last copy. -/
theorem Ordered.pop (h : Inv ctxOf w line) (ho : Ordered ctxOf w.depth (w.log line) c d)
    (hr : line (.place k) = r :: rs) (hh : line (.hand t) = [])
    (hk : (∃ c, k = .events c) ∨ ∃ d, k = .copy t d ∧ d + 1 = w.depth t) :
    Ordered ctxOf w.depth ((w.log line).move (.place k) (.hand t) [r] rs) c d := by
  obtain ⟨xs, hline, hsole⟩ := ho
  have hto : k ≠ .eventsto c := by rcases hk with ⟨_, rfl⟩ | ⟨_, rfl, -⟩ <;> simp
  refine ⟨xs, hline.move.congr (by simp [Log.move, hto.symm]), hsole.congr fun ⟨t', d'⟩ => ?_⟩
  by_cases ht : t' = t
  · subst ht
    rcases hk with ⟨c', rfl⟩ | ⟨n, rfl, hn⟩
    · -- It was raised in the context itself.
      have hf : r.Fits ctxOf (.events c') := h.stock.place _ r (hr ▸ List.mem_cons_self)
      by_cases hd : d' + 1 = w.depth t' <;> simp [flight, Log.move, hd, hh, Raise.isTo, hf.1]
    · -- It stays in front of the copy.
      by_cases hd : d' = n
      · subst hd; simp [flight, Log.move, hn, hr, hh]
      · have hne : ¬ d' + 1 = w.depth t' := by omega
        simp [flight, Log.move, hne, hd]
  · have hcopy : ¬ Place.copy t' d' = k := by
      rcases hk with ⟨c', rfl⟩ | ⟨n, rfl, -⟩ <;> simp [ht]
    simp [flight, Log.move, ht, hcopy]

omit [DecidableEq ι] in
/-- A thread takes a copy, with nothing on its way to where its events are for. -/
theorem Ordered.take (h : Inv ctxOf w line) (ho : Ordered ctxOf w.depth (w.log line) c d)
    (ht : w.pc t = .onleave c') (hturn : InTurn ctxOf w (.step t)) :
    Ordered ctxOf (update w.depth t (w.depth t + 1))
      ((w.log line).move (.place (.eventsto c')) (.place (.copy t (w.depth t)))
        (line (.place (.eventsto c'))) []) c d := by
  obtain ⟨xs, hline, hsole⟩ := ho
  have hh : line (.hand t) = [] := (h.stock.hand t).eq_nil (by rw [ht]; rfl)
  have hcopy := h.stock.copies t (w.depth t) (Nat.le_refl _)
  have hother : ∀ p, p ≠ (t, w.depth t) →
      flight ctxOf (update w.depth t (w.depth t + 1)) (update (update line (.place (.eventsto c')) [])
        (.place (.copy t (w.depth t))) (line (.place (.eventsto c')))) c d p =
        flight ctxOf w.depth line c d p := by
    rintro ⟨t', d'⟩ hp
    by_cases htt : t' = t
    · subst htt
      have hd : d' ≠ w.depth t' := fun he => hp (he ▸ rfl)
      simp [flight, hd, hh]
    · simp [flight, htt]
  have hnew : flight ctxOf (update w.depth t (w.depth t + 1))
      (update (update line (.place (.eventsto c')) []) (.place (.copy t (w.depth t)))
        (line (.place (.eventsto c')))) c d (t, w.depth t) =
      (line (.place (.eventsto c'))).filter (Raise.isTo ctxOf c d) := by
    simp [flight, hh]
  cases hout : (line (.place (.eventsto c'))).filter (Raise.isTo ctxOf c d) with
  | nil =>
    -- There is nothing from `c` to `d` in the copy.
    refine ⟨xs, hline.congr ?_, hsole.congr fun p => ?_⟩
    · by_cases hc : c = c'
      · subst hc; simp [Log.move, hout]
      · simp [Log.move, hc]
    · by_cases hp : p = (t, w.depth t)
      · subst hp
        refine hnew.trans (hout.trans ?_)
        simp [flight, hcopy]
      · exact hother p hp
  | cons r rs =>
    obtain ⟨hr, hto⟩ := List.mem_filter.1 (hout ▸ List.mem_cons_self :
      r ∈ (line (.place (.eventsto c'))).filter (Raise.isTo ctxOf c d))
    obtain ⟨-, hrc, hrd⟩ := isTo_iff.1 hto
    have hf : r.Fits ctxOf (.eventsto c' : Place κ τ) := h.stock.place _ r hr
    obtain rfl : c = c' := hrc.symm.trans hf.2
    have hnone : ∀ p, flight ctxOf w.depth line c d p = [] := by
      intro p
      refine List.eq_nil_iff_forall_not_mem.2 fun r' hr' => ?_
      obtain ⟨hway, hrd'⟩ := h.onItsWay hr'
      refine hturn c ht r.event r r' ?_ ((h.mail.tracks _ _).2 ⟨rfl, _, hr⟩) hway
        (hrd.trans hrd'.symm)
      exact h.stock.holds.has_iff.2 (List.mem_map_of_mem hr)
    obtain rfl := hsole.eq_nil hnone
    refine ⟨_, hline.congr ?_, Sole.fill (p := (t, w.depth t)) fun q hq =>
      (hother q hq).trans (hnone q)⟩
    rw [show flight ctxOf _ (Log.line _) c d (t, w.depth t) = _ from hnew]
    simp [Log.move]

omit [DecidableEq ι] in
/-- A thread processes the event that it has taken off a queue. -/
theorem Ordered.finish (h : Inv ctxOf w line) (ho : Ordered ctxOf w.depth (w.log line) c d)
    (hh : line (.hand t) = [r]) :
    Ordered ctxOf w.depth ((w.log line).finish (.hand t) r []) c d := by
  obtain ⟨xs, hline, hsole⟩ := ho
  have hother : ∀ p : τ × ℕ, p.1 ≠ t ∨ p.2 + 1 ≠ w.depth t →
      flight ctxOf w.depth (update line (.hand t) []) c d p = flight ctxOf w.depth line c d p := by
    rintro ⟨t', d'⟩ hp
    by_cases ht : t' = t
    · subst ht
      have hne : d' + 1 ≠ w.depth t' := hp.resolve_left (by simp)
      simp [flight, hne]
    · simp [flight, ht]
  by_cases hto : r.isTo ctxOf c d = true
  · -- It is the first one on its way, and the only copy loses it.
    have hd := h.depth_pos (hh ▸ List.mem_cons_self) (isTo_iff.1 hto).1
    have hn : w.depth t - 1 + 1 = w.depth t := Nat.sub_add_cancel hd
    have hp : flight ctxOf w.depth line c d (t, w.depth t - 1) =
        r :: flight ctxOf w.depth (update line (.hand t) []) c d (t, w.depth t - 1) := by
      simp [flight, hn, hh, hto]
    obtain ⟨rfl, hsole'⟩ := hsole.tail hp fun q hq => hother q <| by
      by_contra hno
      simp only [not_or, not_not] at hno
      exact hq (Prod.ext hno.1 (by simp only; omega))
    exact ⟨_, hline.finish.congr (by simp [Log.finish]), hsole'⟩
  · rw [Bool.not_eq_true] at hto
    refine ⟨xs, (hline.finish_of_not hto).congr (by simp [Log.finish]), hsole.congr fun p => ?_⟩
    by_cases hp : p.1 ≠ t ∨ p.2 + 1 ≠ w.depth t
    · exact hother p hp
    · simp only [not_or, not_not] at hp
      simp [flight, Log.finish, hp, hh, hto]

end

omit [DecidableEq ι] in
theorem Ordered.step (h : Inv ctxOf w line) (ho : Ordered ctxOf w.depth (w.log line) c d)
    (hturn : InTurn ctxOf w a) (he : Effect w a (w.log line) depth m) :
    Ordered ctxOf depth m c d := by
  cases he with
  | keep hd => exact ho.keep hd
  | post r hk => exact ho.post hk
  | pop hr hh hk => exact ho.pop h hr hh hk
  | take ha ht => exact ho.take h ht (ha ▸ hturn)
  | finish hh => exact ho.finish h hh

/-! ### Runs -/

/-- The events raised from one context to another are processed in that order. -/
def InOrder (ctxOf : φ → κ) (w : Ctxs κ τ ι φ π) : Prop :=
  ∀ c d, w.done.filter (Raise.isTo ctxOf c d) <+: w.raised.filter (Raise.isTo ctxOf c d)

/-- The actions that are safe and in turn keep what is on its way in one copy. -/
theorem keeps_ordered : (system ctxOf).Keeps (fun w a => Safe ctxOf w a ∧ InTurn ctxOf w a)
    fun w : Ctxs κ τ ι φ π => ∃ line, Inv ctxOf w line ∧
      ∀ c d, Ordered ctxOf w.depth (w.log line) c d where
  init := by
    rintro w ⟨event, rfl⟩
    refine ⟨_, inv_start event, fun c d => ⟨[], ?_, .inl ⟨rfl, fun p => ?_⟩⟩⟩
    · simp [Log.InLine, log, start, done]
    · simp [flight]
  step := by
    rintro w a ⟨line, h, ho⟩ he ⟨hs, hturn⟩
    obtain ⟨w', line', hx, h', heff⟩ := h.next he hs
    exact ⟨w', hx, line', h', fun c d => (ho c d).step h hturn heff⟩

/-- As long as the actions are safe and in turn, the events raised from one context
    to another are processed in order, and nothing fails. -/
theorem raised_inOrder {w : Ctxs κ τ ι φ π}
    (hw : (system ctxOf).Reach (fun w a => Safe ctxOf w a ∧ InTurn ctxOf w a) w) :
    InOrder ctxOf w ∧ ∀ a, enabled ctxOf w a → Safe ctxOf w a → InTurn ctxOf w a →
      ∃ w', exec ctxOf w a = .ok w' := by
  obtain ⟨line, h, ho⟩ := keeps_ordered.of_reach hw
  refine ⟨fun c d => ?_, fun a he hs ht => keeps_ordered.exec_ok hw he ⟨hs, ht⟩⟩
  obtain ⟨rs, hline, -⟩ := ho c d
  exact hline.isPrefix

section

variable [Fintype κ] [Fintype τ] [Fintype ι]

instance (w : Ctxs κ τ ι φ π) (a : CtxAction κ τ ι φ π) : Decidable (Safe ctxOf w a) :=
  match a with
  | .raise _ e _ _ _ _ | .raiseto _ e _ _ _ _ =>
    inferInstanceAs (Decidable (∀ t, (w.pc t).popped ≠ some e))
  | .step t => inferInstanceAs
      (Decidable (∀ c e, w.pc t = .handler c e false → (w.event e).fsm.map ctxOf = some c))
  | .enter _ _ | .leave _ => isTrue trivial

/-- No copy is taken but of one event, and no other event waits to be processed then. -/
def Single (w : Ctxs κ τ ι φ π) : CtxAction κ τ ι φ π → Bool
  | .step t =>
    match w.pc t with
    | .onleave c => w.queues.head (.eventsto c) = .null ∨ ∃ e, w.queues.head (.eventsto c) = .node e ∧
        w.queues.next e = .null ∧ ∀ e', e' ≠ e → (w.pending e').isNone
    | _ => true
  | _ => true

omit [DecidableEq κ] [DecidableEq τ] [Fintype κ] [Fintype τ] in
theorem inTurn_of_single (h : Single w a = true) : InTurn ctxOf w a := by
  cases a with
  | enter | leave | raise | raiseto => trivial
  | step t =>
    intro c hc e r r' hhas _ hway
    simp only [Single, hc, decide_eq_true_iff] at h
    obtain ⟨xs, hxs, he⟩ := hhas
    rcases h with h | ⟨x, h, hn, hx⟩
    · have hnil : Intrusive.Chain w.queues.next (w.queues.head (.eventsto c)) [] .null := h
      obtain rfl := hxs.unique hnil
      cases he
    · refine absurd ⟨[x], ⟨h, hn⟩, ?_⟩ hway.2.2.2
      by_contra hr
      have := hx r'.event fun he' => hr (List.mem_singleton.2 he')
      simp [hway.1] at this

end

theorem raised_inOrder_delivered : ∃ w : Ctxs (Fin 2) (Fin 2) (Fin 2) (Fin 2) Unit,
    w.raised.map Raise.type = [7, 8] ∧ (∀ r ∈ w.raised, r.isTo id 0 1 = true) ∧
      w.done.map Raise.type = [7, 8] ∧ InOrder id w := by
  obtain ⟨w, hrun, hraised, hto, hdone⟩ : ∃ w,
      (system id).execIf (fun w a => Safe id w a && Single w a) (start fun _ => .init) follow = some w ∧
      w.raised.map Raise.type = [7, 8] ∧ (∀ r ∈ w.raised, r.isTo id 0 1 = true) ∧
      w.done.map Raise.type = [7, 8] :=
    ⟨_, rfl, by decide, by decide, by decide⟩
  have hreach := System.reach_of_execIf (C := fun w a => Safe id w a ∧ InTurn id w a)
    (fun w a h => by
      rw [Bool.and_eq_true, decide_eq_true_iff] at h
      exact ⟨h.1, inTurn_of_single h.2⟩) hrun (.init ⟨_, rfl⟩)
  exact ⟨w, hraised, hto, hdone, (raised_inOrder hreach).1⟩

/-- It is not so that events raised from one context to another are processed in
    order: the thread 1 may deliver its event first. -/
theorem overtaken_not_inOrder : ∃ w, (system id).Run (start fun _ => .init) overtake w ∧
    (∀ t, w.pc t = .out) ∧ w.raised.map Raise.type = [1, 2] ∧ w.done.map Raise.type = [2, 1] ∧
    ¬ InOrder id w := by
  obtain ⟨w, hrun, hout, hraised, hdone, hno⟩ : ∃ w,
      (system id).execAll (start fun _ => .init) overtake = some w ∧ (∀ t, w.pc t = .out) ∧
      w.raised.map Raise.type = [1, 2] ∧ w.done.map Raise.type = [2, 1] ∧
      ¬ w.done.filter (Raise.isTo id 0 1) <+: w.raised.filter (Raise.isTo id 0 1) :=
    ⟨_, rfl, by decide, by decide, by decide, by decide⟩
  exact ⟨w, System.run_of_execAll hrun, hout, hraised, hdone, fun h => hno (h 0 1)⟩

end Ctxs

end Nanomsg
