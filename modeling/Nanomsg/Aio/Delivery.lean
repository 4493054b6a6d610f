import Nanomsg.Aio.Waiting

/-!
# Events are delivered once

Every action of a thread is described once, as what it does to what waits
(`Inv.next`): it posts an event, moves events from one line to another, finishes
one, or does none of these. So the invariant holds as long as the actions are
`Safe`:

* no event is raised while a thread has taken it off a queue and has not
  processed it yet: it is in no queue then, but what it was raised with is lost;
* after an event taken from a copy has been processed, its machine is still one of
  the context entered for it: `nn_ctx_leave(event->fsm->ctx)` reads the event
  again, which the handler may have raised anew.

`delivered_iff_safe`: these are the runs in which every event is delivered once.
-/

namespace Nanomsg

open Function Mailbox Transition

variable {κ τ ι φ π : Type}

namespace Ctxs

variable [DecidableEq κ] [DecidableEq τ] [DecidableEq ι] {ctxOf : φ → κ} {w w' : Ctxs κ τ ι φ π}
  {line : Slot κ τ → List (Raise κ ι φ π)} {rs : List (Raise κ ι φ π)} {t : τ} {c : κ} {k : Place κ τ}
  {p : Point κ ι} {e : ι}

/-! ### Steps -/

/-- An event is not raised while a thread has taken it off a queue to process it,
    and after an event from elsewhere has been processed in a context, its machine
    is still one of that context. -/
def Safe (ctxOf : φ → κ) (w : Ctxs κ τ ι φ π) : CtxAction κ τ ι φ π → Prop
  | .raise _ e _ _ _ _ | .raiseto _ e _ _ _ _ => ∀ t, (w.pc t).popped ≠ some e
  | .step t => ∀ c e, w.pc t = .handler c e false → (w.event e).fsm.map ctxOf = some c
  | _ => True

/-- What an action does to what waits, and to the depths of the threads. -/
inductive Effect (w : Ctxs κ τ ι φ π) (a : CtxAction κ τ ι φ π)
    (m : Log (Slot κ τ) (Raise κ ι φ π)) : (τ → ℕ) → Log (Slot κ τ) (Raise κ ι φ π) → Prop
  | keep {depth : τ → ℕ} (hd : ∀ t, depth t = w.depth t ∨ m.line (.hand t) = []) :
      Effect w a m depth m
  | post {k : Place κ τ} (r : Raise κ ι φ π)
      (hk : k = .events r.ctx ∧ r.own = true ∨ k = .eventsto r.ctx ∧ r.own = false) :
      Effect w a m w.depth (m.post (.place k) r)
  | pop {k : Place κ τ} {t : τ} {r : Raise κ ι φ π} {rs : List (Raise κ ι φ π)}
      (hr : m.line (.place k) = r :: rs) (hh : m.line (.hand t) = [])
      (hk : (∃ c, k = .events c) ∨ ∃ d, k = .copy t d ∧ d + 1 = w.depth t) :
      Effect w a m w.depth (m.move (.place k) (.hand t) [r] rs)
  | take {t : τ} {c : κ} (ha : a = .step t) (ht : w.pc t = .onleave c) :
      Effect w a m (update w.depth t (w.depth t + 1))
        (m.move (.place (.eventsto c)) (.place (.copy t (w.depth t)))
          (m.line (.place (.eventsto c))) [])
  | finish {t : τ} {r : Raise κ ι φ π} (hh : m.line (.hand t) = [r]) :
      Effect w a m w.depth (m.finish (.hand t) r [])

/-- The action does not fail, and keeps the invariant. -/
def Next (ctxOf : φ → κ) (w : Ctxs κ τ ι φ π) (line : Slot κ τ → List (Raise κ ι φ π))
    (a : CtxAction κ τ ι φ π) : Prop :=
  ∃ w' line', exec ctxOf w a = .ok w' ∧ Inv ctxOf w' line' ∧
    Effect w a (w.log line) w'.depth (w'.log line')

omit [DecidableEq ι] in
/-- Moving on, with nothing taken off a queue. -/
theorem Inv.goto (h : Inv ctxOf w line) (hh : p.Hand ctxOf (line (.hand t)))
    (hp : p.held = (w.pc t).held) (ho : p ≠ .out) (hn : p.nested = false)
    (hd : ∀ c, p = .onleave c → line (.place (.events c)) = []) :
    Inv ctxOf (w.goto t p) line where
  locks := h.locks.of_step rfl (h.locks.goto hp) (fun _ _ => rfl) (fun he => absurd he ho)
    (fun he => absurd he (by simp [hn]))
  stock := h.stock.goto hh hd
  mail := h.mail.congr rfl rfl rfl rfl fun _ => rfl

omit [DecidableEq ι] in
/-- Locking a mutex that is free. -/
theorem Inv.lock (h : Inv ctxOf w line) (hc : w.owner c = none) (ht : (w.pc t).held = none)
    (hp : p.held = some c) (hh : p.Hand ctxOf (line (.hand t)))
    (hr : ∀ r ∈ line (.hand t), r.own = false) (hn : p.nested = true → 0 < w.depth t)
    (hd : ∀ c, p ≠ .onleave c) : Inv ctxOf ((w.ctxEnter t c).goto t p) line where
  locks := h.locks.of_step rfl (h.locks.lock hc ht hp) (fun _ _ => rfl)
    (fun he => by simp [he, Point.held] at hp) hn
  stock := (h.stock.lock t).goto hh fun c he => absurd he (hd c)
  mail := h.mail.lock h.stock hc hr

theorem Inv.enter (h : Inv ctxOf w line) (he : enabled ctxOf w (.enter t c)) :
    Next ctxOf w line (.enter t c) := by
  obtain ⟨ht, hc⟩ := he
  have hh : line (.hand t) = [] := (h.stock.hand t).eq_nil (by rw [ht]; rfl)
  refine ⟨_, line, rfl, h.lock hc (by rw [ht]; rfl) rfl hh (by simp [hh]) (by simp [Point.nested])
    (by simp), .keep fun _ => .inl rfl⟩

theorem Inv.leave (h : Inv ctxOf w line) (he : enabled ctxOf w (.leave t)) :
    Next ctxOf w line (.leave t) := by
  obtain ⟨c, ht⟩ : ∃ c, w.pc t = .user c := by
    cases ht : w.pc t <;> simp_all [enabled, Point.isUser]
  have hh : line (.hand t) = [] := (h.stock.hand t).eq_nil (by rw [ht]; rfl)
  have hx : exec ctxOf w (.leave t) = .ok (w.goto t (.drain c)) := by rw [exec, ht]
  exact ⟨_, line, hx, h.goto hh (by rw [ht]; rfl) (by simp) rfl (by simp), .keep fun _ => .inl rfl⟩

/-- Raising an event that no thread has taken off a queue. -/
theorem Inv.post (h : Inv ctxOf w line) {r : Raise κ ι φ π} (hid : r.id = w.raised.length)
    (hq : w.queues.itemIsinqueue r.event = false) (hpop : ∀ t, (w.pc t).popped ≠ some r.event)
    (hf : r.Fits ctxOf k)
    (hk : (∃ c, k = .events c ∧ w.owner c ≠ none ∧ ∀ t, w.pc t ≠ .onleave c) ∨
      ∃ c, k = .eventsto c ∧ w.owner c ≠ none) (a : CtxAction κ τ ι φ π) :
    ∃ w' line', (w.note r).post k r.event r.filled = .ok w' ∧ Inv ctxOf w' line' ∧
      Effect w a (w.log line) w'.depth (w'.log line') := by
  obtain ⟨q, hx, hs⟩ := h.stock.post hq hf hk
  have hidle : w.pending r.event = none := by
    refine h.mail.tracks.eq_none.2 fun s r' hr' he => ?_
    cases s with
    | place k' =>
      have hno := h.stock.holds.isinqueue_eq_false.1 hq k'
      exact hno (he ▸ List.mem_map_of_mem hr')
    | hand t => exact hpop t (he ▸ (h.stock.hand t).of_ne_nil hr')
  have hx' : (w.note r).post k r.event r.filled = .ok { w.note r with
      queues := q
      event := update w.event r.event r.filled } := by
    rw [Ctxs.post, show (w.note r).queues = w.queues from rfl, hx]
    rfl
  refine ⟨_, _, hx', ⟨⟨h.locks.owner_iff, h.locks.out, h.locks.nested⟩,
    hs.congr rfl rfl rfl rfl, h.mail.post hid hidle hf⟩, .post r ?_⟩
  rcases hk with ⟨c, rfl, -⟩ | ⟨c, rfl, -⟩
  · exact .inl ⟨hf.2.1 ▸ rfl, hf.1⟩
  · exact .inr ⟨hf.2 ▸ rfl, hf.1⟩

omit [DecidableEq τ] [DecidableEq ι] in
theorem Inv.owner_of_held (h : Inv ctxOf w line) (hc : (w.pc t).held = some c) :
    w.owner c = some t := (h.locks.owner_iff c t).2 hc

theorem Inv.raise (h : Inv ctxOf w line) {f : φ} {src type : ℤ} {srcptr : Option π}
    (he : enabled ctxOf w (.raise t e f src type srcptr))
    (hs : Safe ctxOf w (.raise t e f src type srcptr)) :
    Next ctxOf w line (.raise t e f src type srcptr) := by
  obtain ⟨ht, hq⟩ := he
  have hheld : (w.pc t).held = some (ctxOf f) := by
    cases hp : w.pc t <;> simp_all [Point.raises, Point.held]
  have hown := h.owner_of_held hheld
  have hno : ∀ t', w.pc t' ≠ .onleave (ctxOf f) := by
    intro t' ht'
    have hown' := h.owner_of_held (t := t') (c := ctxOf f) (by rw [ht']; rfl)
    obtain rfl : t = t' := Option.some.inj (hown.symm.trans hown')
    simp [ht', Point.raises] at ht
  rw [Next, exec, ht]
  exact h.post (k := .events (ctxOf f)) (r := ⟨w.raised.length, e, ctxOf f, true, f, src, type, srcptr⟩)
    rfl hq hs ⟨rfl, rfl, rfl⟩ (.inl ⟨_, rfl, by simp [hown], hno⟩) _

theorem Inv.raiseto (h : Inv ctxOf w line) {f : φ} {src type : ℤ} {srcptr : Option π}
    (he : enabled ctxOf w (.raiseto t e f src type srcptr))
    (hs : Safe ctxOf w (.raiseto t e f src type srcptr)) :
    Next ctxOf w line (.raiseto t e f src type srcptr) := by
  obtain ⟨ht, hq⟩ := he
  obtain ⟨c, ht⟩ := Option.ne_none_iff_exists'.1 ht
  have hheld : (w.pc t).held = some c := by
    cases hp : w.pc t <;> simp_all [Point.raisesto, Point.held]
  rw [Next, exec, ht]
  exact h.post (k := .eventsto c) (r := ⟨w.raised.length, e, c, false, f, src, type, srcptr⟩)
    rfl hq hs ⟨rfl, rfl⟩ (.inr ⟨c, rfl, by simp [h.owner_of_held hheld]⟩) _

/-- Taking the first event off a queue. -/
theorem Inv.pop (h : Inv ctxOf w line) {r : Raise κ ι φ π} (hk : line (.place k) = r :: rs)
    (hh : line (.hand t) = []) (hp : p.Hand ctxOf [r]) (hheld : p.held = (w.pc t).held)
    (hn : 0 < w.depth t ∨ p.nested = false) (hkc : ∀ c, k = .events c ↔ w.owner c = some t) :
    ∃ q, w.queues.pop k = .ok (q, some r.event) ∧ Inv ctxOf ({ w with queues := q }.goto t p)
      (update (update line (.place k) rs) (.hand t) [r]) := by
  have hpop : p.popped ≠ none := fun hno => absurd (hp.eq_nil hno) (by simp)
  obtain ⟨q, hx, hs⟩ := h.stock.pop hk hp (by rintro c rfl; exact hpop rfl)
  refine ⟨q, hx, h.locks.of_step rfl (h.locks.goto hheld) (fun _ _ => rfl) ?_ ?_, hs, ?_⟩
  · rintro rfl
    exact absurd rfl hpop
  · exact fun he => hn.resolve_right (by simp [he])
  · refine (h.mail.move (show line (.place k) = [r] ++ rs from hk) hh fun c => ?_).congr rfl rfl
      rfl rfl fun _ => rfl
    by_cases hc : k = .events c
    · subst hc
      simp [ownLine, (hkc c).1 rfl, hh, hk]
    · rw [ownLine_update_hand fun ho => hc ((hkc c).2 ho), ownLine_update_place hc]

theorem Inv.drain (h : Inv ctxOf w line) (ht : w.pc t = .drain c) :
    Next ctxOf w line (.step t) := by
  have hh : line (.hand t) = [] := (h.stock.hand t).eq_nil (by rw [ht]; rfl)
  have hown := h.owner_of_held (t := t) (c := c) (by rw [ht]; rfl)
  have hheld : ∀ c', w.owner c' = some t → c' = c := by
    intro c' ho
    have := (h.locks.owner_iff c' t).1 ho
    rw [ht] at this
    exact (Option.some.inj this).symm
  cases hl : line (.place (.events c)) with
  | nil =>
    have hx : exec ctxOf w (.step t) = .ok (w.goto t (.onleave c)) := by
      have hpop := h.stock.holds.pop_nil (k := .events c) (by simp [contents, hl])
      simp [exec, advance, ht, hpop]
    refine ⟨_, line, hx, h.goto hh (by rw [ht]; rfl) (by simp) rfl ?_, .keep fun _ => .inl rfl⟩
    rintro _ ⟨⟩
    exact hl
  | cons r rs =>
    obtain ⟨hro, hrc, hrf⟩ : r.own = true ∧ r.ctx = c ∧ ctxOf r.fsm = c :=
      h.stock.place (.events c) r (hl ▸ List.mem_cons_self)
    obtain ⟨q, hpop, hi⟩ := h.pop (p := .process c r.event true) hl hh
      ⟨r, rfl, rfl, hrf, hro, fun _ => hrc⟩ (by rw [ht]; rfl) (.inr rfl)
      fun c' => ⟨fun he => (Place.events.inj he) ▸ hown, fun ho => hheld c' ho ▸ rfl⟩
    have hx : exec ctxOf w (.step t) =
        .ok ({ w with queues := q }.goto t (.process c r.event true)) := by
      simp [exec, advance, ht, hpop]
    exact ⟨_, _, hx, hi, .pop hl hh (.inl ⟨c, rfl⟩)⟩

theorem Inv.process {own : Bool} (h : Inv ctxOf w line) (ht : w.pc t = .process c e own) :
    Next ctxOf w line (.step t) := by
  obtain ⟨w', r, hx, hr, hlog, hm, hq, ho, hp, hd⟩ :=
    h.mail.process h.locks ht (h.stock.hand t)
  have hx' : exec ctxOf w (.step t) = .ok (w'.goto t (.handler c e own)) := by
    simp [exec, advance, ht, hx]
  have hi : Inv ctxOf (w'.goto t (.handler c e own)) (update line (.hand t) []) := by
    refine ⟨h.locks.of_step (p := .handler c e own) (by rw [Ctxs.goto, hp]) ?_ (fun _ _ => ?_)
      (by simp) (by simp [Point.nested]), ?_, hm.congr rfl rfl rfl rfl fun _ => rfl⟩
    · rw [Ctxs.goto, ho]
      exact h.locks.goto (by rw [ht]; rfl)
    · rw [Ctxs.goto, hd]
    · exact (h.stock.drop (t := t) (p := .handler c e own) rfl (by simp)).congr hq ho
        (by rw [Ctxs.goto, Ctxs.goto, hp]) hd
  refine ⟨_, _, hx', hi, ?_⟩
  rw [show (w'.goto t (.handler c e own)).depth = w.depth from hd,
    show (w'.goto t (.handler c e own)).log (update line (.hand t) []) = _ from hlog]
  exact .finish hr

theorem Inv.handler {own : Bool} (h : Inv ctxOf w line) (ht : w.pc t = .handler c e own)
    (hs : Safe ctxOf w (.step t)) : Next ctxOf w line (.step t) := by
  have hh : line (.hand t) = [] := (h.stock.hand t).eq_nil (by rw [ht]; rfl)
  have hx : exec ctxOf w (.step t) = .ok (w.goto t (.drain c)) := by
    cases own with
    | true => simp [exec, advance, ht]
    | false =>
      -- The context that is left is still the one that was entered.
      obtain ⟨f, hf, hfc⟩ := Option.map_eq_some_iff.1 (hs c e ht)
      simp [exec, advance, ht, hf, hfc]
  exact ⟨_, line, hx, h.goto hh (by rw [ht]; rfl) (by simp) rfl (by simp), .keep fun _ => .inl rfl⟩

omit [DecidableEq ι] in
/-- The thread that is about to unlock the mutex holds it. -/
theorem unlock_ok (h : w.owner c = some t) :
    w.unlock t c = .ok { w with owner := update w.owner c none } := by
  simp [unlock, h]

theorem Inv.onleave (h : Inv ctxOf w line) (ht : w.pc t = .onleave c) :
    Next ctxOf w line (.step t) := by
  have hh : line (.hand t) = [] := (h.stock.hand t).eq_nil (by rw [ht]; rfl)
  have hheld : (w.pc t).held = some c := by rw [ht]; rfl
  have hown := h.owner_of_held hheld
  have hev := h.stock.drained t c ht
  by_cases hto : line (.place (.eventsto c)) = []
  · have hx : exec ctxOf w (.step t) = .ok (ret { w with owner := update w.owner c none } t) := by
      have hemp : w.queues.empty (.eventsto c) = true := by
        simp [h.stock.holds.empty_eq, contents, hto]
      simp [exec, advance, ht, hemp, unlock_ok hown]
    -- It returns to the user, or to the loop it is in.
    have hi : ∀ p : Point κ ι, (p = .out ∧ w.depth t = 0 ∨ p = .deliver ∧ 0 < w.depth t) →
        Inv ctxOf (Ctxs.goto { w with owner := update w.owner c none } t p) line := by
      intro p hp
      have hp' : p.held = none ∧ p.Hand ctxOf (line (.hand t)) := by
        rcases hp with ⟨rfl, -⟩ | ⟨rfl, -⟩ <;> exact ⟨rfl, hh⟩
      refine ⟨h.locks.of_step rfl (h.locks.unlock hheld hp'.1) (fun _ _ => rfl) ?_ ?_,
        (h.stock.unlock ⟨hev, hto⟩).goto hp'.2 ?_, h.mail.unlock hown hh⟩
      all_goals rcases hp with ⟨rfl, hd⟩ | ⟨rfl, hd⟩ <;> simp [Ctxs.goto, Point.nested, hd]
    refine ⟨_, line, hx, ?_, .keep fun _ => .inl rfl⟩
    refine hi _ ?_
    by_cases hd : w.depth t = 0
    · simp [hd]
    · simp [hd, Nat.pos_of_ne_zero hd]
  · have hx : exec ctxOf w (.step t) = .ok { w with
        queues := w.queues.take (.eventsto c) (.copy t (w.depth t))
        owner := update w.owner c none
        pc := update w.pc t .deliver
        depth := update w.depth t (w.depth t + 1) } := by
      have hemp : w.queues.empty (.eventsto c) = false := by
        simp [h.stock.holds.empty_eq, contents, hto]
      simp [exec, advance, ht, hemp, unlock, hown, Ctxs.goto]
    refine ⟨_, _, hx, ⟨?_, ?_, ?_⟩, .take rfl ht⟩
    · refine h.locks.of_step rfl (h.locks.unlock hheld rfl) (fun t' ht' => ?_) (by simp) fun _ => ?_
      · exact update_of_ne ht' _ _
      · simp
    · have hh' : update (update line (.place (.eventsto c)) []) (.place (.copy t (w.depth t)))
          (line (.place (.eventsto c))) (.hand t) = [] := by simpa using hh
      have hq := (h.stock.take c t).goto (p := .deliver) hh' (by simp)
      exact (hq.unlock (c := c) (by simp [hev])).congr rfl rfl rfl rfl
    · have hcopy := h.stock.copies t (w.depth t) (Nat.le_refl _)
      refine (h.mail.move (s := .place (.eventsto c)) (List.append_nil _).symm hcopy
        fun c' => ?_).unlock hown (by simpa using hh)
      rw [ownLine_update_place (by simp), ownLine_update_place (by simp)]

theorem Inv.deliver (h : Inv ctxOf w line) (ht : w.pc t = .deliver) :
    Next ctxOf w line (.step t) := by
  have hh : line (.hand t) = [] := (h.stock.hand t).eq_nil (by rw [ht]; rfl)
  have hd : 0 < w.depth t := h.locks.nested t (by rw [ht]; rfl)
  have hfree : ∀ c, w.owner c ≠ some t := by
    intro c ho
    have := (h.locks.owner_iff c t).1 ho
    rw [ht] at this
    exact absurd this (by simp [Point.held])
  cases hl : line (.place (.copy t (w.depth t - 1))) with
  | nil =>
    have hx : exec ctxOf w (.step t) =
        .ok (ret { w with depth := update w.depth t (w.depth t - 1) } t) := by
      have hpop := h.stock.holds.pop_nil (k := .copy t (w.depth t - 1)) (by simp [contents, hl])
      simp [exec, advance, ht, hpop]
    have hcopies : ∀ d, w.depth t - 1 ≤ d → line (.place (.copy t d)) = [] := by
      intro d hle
      by_cases he : w.depth t - 1 = d
      · exact he ▸ hl
      · exact h.stock.copies t d (by omega)
    have hi : ∀ p : Point κ ι, (p = .out ∧ w.depth t - 1 = 0 ∨ p = .deliver ∧ 0 < w.depth t - 1) →
        Inv ctxOf (Ctxs.goto { w with depth := update w.depth t (w.depth t - 1) } t p) line := by
      intro p hp
      have hp' : p.held = (w.pc t).held ∧ p.Hand ctxOf (line (.hand t)) := by
        rw [ht]
        rcases hp with ⟨rfl, -⟩ | ⟨rfl, -⟩ <;> exact ⟨rfl, hh⟩
      refine ⟨h.locks.of_step rfl (h.locks.goto hp'.1) (fun t' ht' => update_of_ne ht' _ _) ?_ ?_,
        (h.stock.depth hcopies).goto hp'.2 ?_, h.mail.congr rfl rfl rfl rfl fun _ => rfl⟩
      all_goals rcases hp with ⟨rfl, hd⟩ | ⟨rfl, hd⟩ <;> simp [Ctxs.goto, Point.nested, hd]
    refine ⟨_, line, hx, ?_, .keep fun t' => ?_⟩
    · refine hi _ ?_
      by_cases hd' : w.depth t - 1 = 0
      · simp [hd']
      · simp [hd', Nat.pos_of_ne_zero hd']
    · by_cases htt : t' = t
      · exact .inr (htt ▸ hh)
      · exact .inl (update_of_ne htt _ _)
  | cons r rs =>
    have hm : r ∈ line (.place (.copy t (w.depth t - 1))) := hl ▸ List.mem_cons_self
    have hf : (w.event r.event).fsm = some r.fsm := by rw [h.mail.filled _ r hm]; rfl
    obtain ⟨q, hpop, hi⟩ := h.pop (p := .enter (ctxOf r.fsm) r.event) hl hh
      ⟨r, rfl, rfl, rfl, h.stock.place _ r hm⟩ (by rw [ht]; rfl) (.inl hd)
      fun c => ⟨fun he => absurd he (by simp), fun ho => absurd ho (hfree c)⟩
    have hx : exec ctxOf w (.step t) =
        .ok ({ w with queues := q }.goto t (.enter (ctxOf r.fsm) r.event)) := by
      simp [exec, advance, ht, hpop, hf]
    exact ⟨_, _, hx, hi, .pop hl hh (.inr ⟨_, rfl, Nat.sub_add_cancel hd⟩)⟩

theorem Inv.enterEvent (h : Inv ctxOf w line) (ht : w.pc t = .enter c e)
    (hc : w.owner c = none) : Next ctxOf w line (.step t) := by
  have hhand := h.stock.hand t
  rw [ht] at hhand
  obtain ⟨r, hr, he, hf, hro⟩ := hhand
  have hx : exec ctxOf w (.step t) = .ok ((w.ctxEnter t c).goto t (.process c e false)) := by
    simp [exec, advance, ht]
  refine ⟨_, line, hx, h.lock hc (by rw [ht]; rfl) rfl ⟨r, hr, he, hf, hro, by simp⟩ ?_ ?_ (by simp),
    .keep fun _ => .inl rfl⟩
  · simp [hr, hro]
  · exact fun _ => h.locks.nested t (by rw [ht]; rfl)

/-- A safe action does not fail, and keeps the invariant. -/
theorem Inv.next {a : CtxAction κ τ ι φ π} (h : Inv ctxOf w line) (he : enabled ctxOf w a)
    (hs : Safe ctxOf w a) : Next ctxOf w line a := by
  cases a with
  | enter t c => exact h.enter he
  | leave t => exact h.leave he
  | raise t e f src type srcptr => exact h.raise he hs
  | raiseto t e f src type srcptr => exact h.raiseto he hs
  | step t =>
    cases ht : w.pc t with
    | out => simp [enabled, ht, Point.leaving] at he
    | user c => simp [enabled, ht, Point.leaving] at he
    | drain c => exact h.drain ht
    | process c e own => exact h.process ht
    | handler c e own => exact h.handler ht hs
    | onleave c => exact h.onleave ht
    | deliver => exact h.deliver ht
    | enter c e => exact h.enterEvent ht (he.2 c (by rw [ht]; rfl))

/-! ### Runs -/

/-- Every event raised is processed once, and as it should be. -/
structure Delivered (ctxOf : φ → κ) (w : Ctxs κ τ ι φ π) : Prop where
  /-- Nothing is processed twice. -/
  once : w.done.Nodup
  /-- All that is processed was raised so, and its context is locked. -/
  right : ∀ h ∈ w.handled, w.Right h
  /-- What is not processed yet is in a queue, or with a thread. -/
  due : ∀ r ∈ w.raised, r ∈ w.done ∨ w.pending r.event = some r ∧
    (w.queues.itemIsinqueue r.event = true ∨ ∃ t, (w.pc t).popped = some r.event)
  /-- All is processed once all threads are out of all contexts. -/
  all : (∀ t, w.pc t = .out) → ∀ r ∈ w.raised, r ∈ w.done
  /-- Until all threads are out, one of them can go on. -/
  progress : ∀ t, w.pc t ≠ .out → ∃ t', enabled ctxOf w (.leave t') ∨ enabled ctxOf w (.step t')
  /-- A thread that is in a context holds its lock. -/
  locked : ∀ t c, (w.pc t).held = some c → w.owner c = some t
  /-- Once a lock is released, the queues of its context are empty. -/
  released : ∀ c, w.owner c = none →
    w.queues.empty (.events c) = true ∧ w.queues.empty (.eventsto c) = true
  /-- What a context raises for itself is processed in that order. -/
  inOrder : ∀ c, w.done.filter (Raise.isOwn c) <+: w.raised.filter (Raise.isOwn c)

omit [DecidableEq τ] in
theorem Inv.due (h : Inv ctxOf w line) {r : Raise κ ι φ π} (hr : r ∈ w.raised) :
    r ∈ w.done ∨ w.pending r.event = some r ∧
      (w.queues.itemIsinqueue r.event = true ∨ ∃ t, (w.pc t).popped = some r.event) := by
  refine (h.mail.log.due hr).imp_right fun ⟨s, hs⟩ => ⟨(h.mail.tracks _ _).2 ⟨rfl, s, hs⟩, ?_⟩
  cases s with
  | place k => exact .inl (h.stock.holds.isinqueue_iff.2 ⟨k, List.mem_map_of_mem hs⟩)
  | hand t => exact .inr ⟨t, (h.stock.hand t).of_ne_nil hs⟩

omit [DecidableEq τ] [DecidableEq ι] in
/-- When all threads are out, every lock is free. -/
theorem Inv.owner_eq_none (h : Inv ctxOf w line) (ht : ∀ t, w.pc t = .out) (c : κ) :
    w.owner c = none := by
  by_contra hc
  obtain ⟨t, hc⟩ := Option.ne_none_iff_exists'.1 hc
  have := (h.locks.owner_iff c t).1 hc
  simp [ht t, Point.held] at this

omit [DecidableEq τ] [DecidableEq ι] in
/-- When all threads are out, nothing waits. -/
theorem Inv.line_eq_nil (h : Inv ctxOf w line) (ht : ∀ t, w.pc t = .out) (s : Slot κ τ) :
    line s = [] := by
  cases s with
  | place k =>
    cases k with
    | events c => exact (h.stock.free c (h.owner_eq_none ht c)).1
    | eventsto c => exact (h.stock.free c (h.owner_eq_none ht c)).2
    | copy t d => exact h.stock.copies t d (by simp [h.locks.out t (ht t)])
  | hand t => exact (h.stock.hand t).eq_nil (by rw [ht]; rfl)

omit [DecidableEq τ] in
/-- A thread in a context can go on, or the one it waits for can. -/
theorem Inv.progress (h : Inv ctxOf w line) (ht : w.pc t ≠ .out) :
    ∃ t', enabled ctxOf w (.leave t') ∨ enabled ctxOf w (.step t') := by
  -- A thread that holds a lock waits for no other.
  have hheld : ∀ t c, (w.pc t).held = some c →
      enabled ctxOf w (.leave t) ∨ enabled ctxOf w (.step t) := by
    intro t c hc
    cases hp : w.pc t <;> simp_all [enabled, Point.held, Point.isUser, Point.leaving, Point.waits]
  cases hp : w.pc t with
  | out => exact absurd hp ht
  | deliver => exact ⟨t, .inr (by simp [enabled, hp, Point.leaving, Point.waits])⟩
  | enter c e =>
    cases ho : w.owner c with
    | none => exact ⟨t, .inr (by simp [enabled, hp, Point.leaving, Point.waits, ho])⟩
    | some t' => exact ⟨t', hheld t' c ((h.locks.owner_iff c t').1 ho)⟩
  | user c | drain c | process c _ _ | handler c _ _ | onleave c =>
    exact ⟨t, hheld t c (by rw [hp]; rfl)⟩

omit [DecidableEq τ] in
theorem Inv.delivered (h : Inv ctxOf w line) : Delivered ctxOf w where
  once := h.mail.log.finished
  right := h.mail.right
  due _ hr := h.due hr
  all ht r hr := by
    refine (h.mail.log.due hr).resolve_right ?_
    rintro ⟨s, hs⟩
    simp [log, h.line_eq_nil ht s] at hs
  progress _ ht := h.progress ht
  locked t c hc := (h.locks.owner_iff c t).2 hc
  released c hc := by
    obtain ⟨he, hto⟩ := h.stock.free c hc
    simp [h.stock.holds.empty_eq, contents, he, hto]
  inOrder c := (h.mail.inLine c).isPrefix

omit [DecidableEq τ] [DecidableEq ι] in
theorem inv_start (event : ι → FsmEvent φ π) :
    Inv ctxOf (start event : Ctxs κ τ ι φ π) fun _ => [] := by
  have hlocks : Locks (start event : Ctxs κ τ ι φ π) := by
    constructor <;> simp [start, Point.held, Point.nested]
  have hholds : Holds (start event : Ctxs κ τ ι φ π).queues
      (contents fun _ => ([] : List (Raise κ ι φ π))) := by
    refine ⟨⟨?_, ?_⟩, ?_, ?_, ?_⟩ <;> simp [contents, start]
  have hlog : (log (start event : Ctxs κ τ ι φ π) fun _ => []).Ok Raise.event := by
    constructor <;> simp [log, start, done]
  have hline : ∀ c, (log (start event : Ctxs κ τ ι φ π) fun _ => []).InLine (Raise.isOwn c)
      (ownLine (start event) (fun _ : Slot κ τ => []) c) := by
    simp [Log.InLine, log, start, done, ownLine]
  refine ⟨hlocks, ⟨hholds, ?_, fun _ => rfl, ?_, ?_, ?_⟩, ⟨hlog, ?_, ?_, ?_, ?_, hline⟩⟩ <;>
    simp [start, Log.Tracks, log]

/-- An event raised while a thread is about to process it is not processed as it
    was raised before. -/
theorem Inv.popped_ne (h : Inv ctxOf w line) {r : Raise κ ι φ π} (hid : r.id = w.raised.length)
    (hx : (w.note r).post k r.event r.filled = .ok w') (hw : Delivered ctxOf w') (t : τ) :
    (w.pc t).popped ≠ some r.event := by
  intro hpop
  obtain ⟨r', hr, he⟩ := (h.stock.hand t).popped hpop
  have hm : r' ∈ line (.hand t) := hr ▸ List.mem_cons_self
  obtain ⟨hr', hno⟩ := h.mail.log.waits hm
  obtain ⟨q, -, hx⟩ := bind_eq_ok.1 hx
  obtain rfl := Except.ok.inj hx
  rcases hw.due r' (List.mem_append_left _ hr') with hdone | ⟨hpend, -⟩
  · exact hno hdone
  · have heq : r = r' := by simpa [he, note] using hpend
    exact h.mail.not_mem_raised hid (heq ▸ hr')

/-- What delivers every event once is safe. -/
theorem Inv.safe (h : Inv ctxOf w line) {a : CtxAction κ τ ι φ π} (he : enabled ctxOf w a)
    (hx : exec ctxOf w a = .ok w') (hw : Delivered ctxOf w') : Safe ctxOf w a := by
  cases a with
  | enter t c => trivial
  | leave t => trivial
  | raise t e f src type srcptr =>
    rw [exec, he.1] at hx
    exact h.popped_ne rfl hx hw
  | raiseto t e f src type srcptr =>
    obtain ⟨c, ht⟩ := Option.ne_none_iff_exists'.1 he.1
    rw [exec, ht] at hx
    exact h.popped_ne rfl hx hw
  | step t =>
    intro c e ht
    cases hf : (w.event e).fsm with
    | none => simp [exec, advance, ht, hf] at hx
    | some f =>
      obtain rfl : w.goto t (.drain (ctxOf f)) = w' := by
        simpa [exec, advance, ht, hf] using hx
      have hown := hw.locked t (ctxOf f) (by simp [Ctxs.goto, Point.held])
      have hheld := (h.locks.owner_iff _ t).1 hown
      rw [ht] at hheld
      exact hheld.symm

/-- A run delivers every event once if and only if every action of it is safe. -/
theorem delivered_iff_safe (event : ι → FsmEvent φ π) (as : List (CtxAction κ τ ι φ π)) :
    (system ctxOf).Correct (Delivered ctxOf) (fun _ _ _ => True) (start event) as ↔
      (system ctxOf).Meets (Safe ctxOf) (start event) as := by
  refine System.correct_iff_meets (I := fun w => ∃ line, Inv ctxOf w line)
    (fun w ⟨line, h⟩ => h.delivered) ?_ ?_ ⟨_, inv_start event⟩ as
  · rintro w a ⟨line, h⟩ he hs
    obtain ⟨w', line', hx, h', -⟩ := h.next he hs
    exact ⟨w', hx, trivial, line', h'⟩
  · rintro w a w' ⟨line, h⟩ he hx - hw
    exact h.safe he hx hw

/-- The thread 0 raises the event 0 from the context 0 to the machine 1, in the
    context 1. Before it processes it there, the thread 1 raises the event again. -/
def reraise : List (CtxAction (Fin 2) (Fin 2) (Fin 1) (Fin 2) Unit) :=
  [.enter 0 0, .raiseto 0 0 1 1 1 none, .leave 0, .step 0, .step 0, .step 0,
    .enter 1 0, .raiseto 1 0 1 2 2 none, .leave 1, .step 1, .step 1, .step 1] ++
    List.replicate 6 (.step 0) ++ List.replicate 6 (.step 1)

/-- The thread 0 raises the event 0 from the context 0 to the machine 1, whose
    handler raises it again, to the machine 0. -/
def raiseBack : List (CtxAction (Fin 2) (Fin 2) (Fin 1) (Fin 2) Unit) :=
  [.enter 0 0, .raiseto 0 0 1 1 1 none, .leave 0, .step 0, .step 0, .step 0, .step 0, .step 0,
    .raiseto 0 0 0 2 2 none, .step 0, .step 0]

/-- It is not so that every event raised while in no queue is delivered as it was
    raised: the first raise is never processed, and the second time the event is
    processed nothing is left in it. Nor is it when an event is raised from inside
    its own handler: the thread then unlocks a mutex that it has not locked. -/
theorem reraised_not_delivered :
    (∃ w, (system id).Run (start fun _ => .init) reraise w ∧ (∀ t, w.pc t = .out) ∧
      w.raised.map Raise.type = [1, 2] ∧ w.handled.map (·.given.type) = [2, -1] ∧
      ¬ Delivered id w) ∧
    ∃ w, (system id).Run (start fun _ => .init) raiseBack w ∧
      enabled id w (.step 0) ∧ exec id w (.step 0) = .error .assertion := by
  constructor
  · obtain ⟨w, hrun, hout, hraised, hhandled, r, hr, hdone⟩ : ∃ w,
        (system id).execAll (start fun _ => .init) reraise = some w ∧ (∀ t, w.pc t = .out) ∧
        w.raised.map Raise.type = [1, 2] ∧ w.handled.map (·.given.type) = [2, -1] ∧
        ∃ r ∈ w.raised, r ∉ w.done :=
      ⟨_, rfl, by decide, by decide, by decide, by decide⟩
    exact ⟨w, System.run_of_execAll hrun, hout, hraised, hhandled, fun h =>
      hdone (h.all hout r hr)⟩
  · exact ⟨_, System.run_of_execAll rfl, by decide, rfl⟩

/-- The thread 0 raises the event 0 from the context 0 to the machine 1, and is
    about to deliver it when the thread 1 raises the event 1 likewise. -/
def overtake : List (CtxAction (Fin 2) (Fin 2) (Fin 2) (Fin 2) Unit) :=
  [.enter 0 0, .raiseto 0 0 1 1 1 none, .leave 0, .step 0, .step 0,
    .enter 1 0, .raiseto 1 1 1 2 2 none, .leave 1] ++
    List.replicate 9 (.step 1) ++ List.replicate 7 (.step 0)

/-- The thread 0 raises the event 0 from the context 0 to the machine 1 and takes a copy with it;
    meanwhile the thread 1 raises the event 1 likewise. It takes its copy when the event 0 has been
    processed, and delivers it when the thread 0 has left the context 1. -/
def follow : List (CtxAction (Fin 2) (Fin 2) (Fin 2) (Fin 2) Unit) :=
  [.enter 0 0, .raiseto 0 0 1 3 7 none, .leave 0, .step 0, .step 0,
    .enter 1 0, .raiseto 1 1 1 3 8 none, .leave 1, .step 1] ++
    List.replicate 3 (.step 0) ++ List.replicate 2 (.step 1) ++
    List.replicate 3 (.step 0) ++ List.replicate 2 (.step 1)

end Ctxs

end Nanomsg
