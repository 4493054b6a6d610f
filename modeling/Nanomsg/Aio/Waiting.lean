import Nanomsg.Aio.Ctx
import Nanomsg.Lib.Mailbox

/-!
# Where the events are

Every event raised waits in a line until it is processed: in the order of one of
the queues, or alone with the thread that has taken it off a queue (`Slot`). The
invariant `Inv` has three parts, which the operations of `ctx.c` keep each for
itself:

* `Locks`: a mutex is locked by the thread that is in its context;
* `Stock`: the queues hold what waits in them, and those of a context are empty
  while its mutex is free;
* `Mail`: what is raised is processed at most once, as it was raised, and for each
  context in the order in which the context raises events for itself.
-/

namespace Nanomsg

open Function Mailbox Transition

/-- Where an event may wait: in a queue, or taken off it by a thread. -/
inductive Slot (κ τ : Type)
  | place (k : Place κ τ)
  | hand (t : τ)
  deriving DecidableEq

variable {κ τ ι φ π : Type}

namespace Raise

variable [DecidableEq κ]

/-- Raised with `nn_ctx_raise` in the context `c`. -/
def isOwn (c : κ) (r : Raise κ ι φ π) : Bool := r.own && r.ctx = c

/-- What can be raised to a queue. -/
def Fits (ctxOf : φ → κ) (r : Raise κ ι φ π) : Place κ τ → Prop
  | .events c => r.own = true ∧ r.ctx = c ∧ ctxOf r.fsm = c
  | .eventsto c => r.own = false ∧ r.ctx = c
  | .copy _ _ => r.own = false

end Raise

/-- What a thread has taken off a queue. -/
def Point.Hand (ctxOf : φ → κ) : Point κ ι → List (Raise κ ι φ π) → Prop
  | .process c e own, rs =>
    ∃ r, rs = [r] ∧ r.event = e ∧ ctxOf r.fsm = c ∧ r.own = own ∧ (own = true → r.ctx = c)
  | .enter c e, rs => ∃ r, rs = [r] ∧ r.event = e ∧ ctxOf r.fsm = c ∧ r.own = false
  | _, rs => rs = []

theorem Point.Hand.eq_nil {ctxOf : φ → κ} {p : Point κ ι} {rs : List (Raise κ ι φ π)}
    (h : p.Hand ctxOf rs) (hp : p.popped = none) : rs = [] := by
  cases p <;> first | exact h | simp [Point.popped] at hp

theorem Point.Hand.popped {ctxOf : φ → κ} {p : Point κ ι} {rs : List (Raise κ ι φ π)}
    {e : ι} (h : p.Hand ctxOf rs) (hp : p.popped = some e) : ∃ r, rs = [r] ∧ r.event = e := by
  cases p <;> first
    | (obtain ⟨r, hr, he, -⟩ := h; exact ⟨r, hr, he.trans (Option.some.inj hp)⟩)
    | simp [Point.popped] at hp

theorem Point.Hand.of_ne_nil {ctxOf : φ → κ} {p : Point κ ι} {r : Raise κ ι φ π}
    {rs : List (Raise κ ι φ π)} (h : p.Hand ctxOf rs) (hr : r ∈ rs) : p.popped = some r.event := by
  cases p <;> first
    | (obtain ⟨r', rfl, rfl, -⟩ := h; rw [List.mem_singleton.1 hr]; rfl)
    | (obtain rfl := h; exact absurd hr List.not_mem_nil)

namespace Ctxs

/-- The raises that wait, and those that do not any more. -/
def log (w : Ctxs κ τ ι φ π) (line : Slot κ τ → List (Raise κ ι φ π)) :
    Log (Slot κ τ) (Raise κ ι φ π) :=
  ⟨w.raised, w.done, line⟩

@[simp] theorem log_line (w : Ctxs κ τ ι φ π) (line : Slot κ τ → List (Raise κ ι φ π)) :
    (w.log line).line = line := rfl

/-- The events in the queues. -/
def contents (line : Slot κ τ → List (Raise κ ι φ π)) (k : Place κ τ) : List ι :=
  (line (.place k)).map Raise.event

/-- What is processed next in the context `c`, before it is left. -/
def ownLine (w : Ctxs κ τ ι φ π) (line : Slot κ τ → List (Raise κ ι φ π)) (c : κ) :
    List (Raise κ ι φ π) :=
  (w.owner c).elim [] (fun t => line (.hand t)) ++ line (.place (.events c))

variable [DecidableEq κ] [DecidableEq τ] [DecidableEq ι] {ctxOf : φ → κ} {w w' : Ctxs κ τ ι φ π}
  {line : Slot κ τ → List (Raise κ ι φ π)} {rs : List (Raise κ ι φ π)} {t : τ} {c : κ} {k : Place κ τ}
  {p : Point κ ι} {e : ι}

omit [DecidableEq ι] in
theorem contents_update_place :
    contents (update line (.place k) rs) = update (contents line) k (rs.map Raise.event) := by
  funext k'
  by_cases hk : k' = k
  · subst hk; simp [contents]
  · simp [contents, hk]

omit [DecidableEq ι] in
@[simp] theorem contents_update_hand : contents (update line (.hand t) rs) = contents line := by
  funext k'
  simp [contents]

/-- A lock is held by the thread that is in its context. -/
structure Locks (w : Ctxs κ τ ι φ π) : Prop where
  owner_iff : ∀ c t, w.owner c = some t ↔ (w.pc t).held = some c
  out : ∀ t, w.pc t = .out → w.depth t = 0
  nested : ∀ t, (w.pc t).nested = true → 0 < w.depth t

/-- The queues hold what waits in them, and are empty while nobody may look. -/
structure Stock (ctxOf : φ → κ) (w : Ctxs κ τ ι φ π) (line : Slot κ τ → List (Raise κ ι φ π)) :
    Prop where
  holds : Holds w.queues (contents line)
  place : ∀ k, ∀ r ∈ line (.place k), r.Fits ctxOf k
  hand : ∀ t, (w.pc t).Hand ctxOf (line (.hand t))
  copies : ∀ t d, w.depth t ≤ d → line (.place (.copy t d)) = []
  free : ∀ c, w.owner c = none →
    line (.place (.events c)) = [] ∧ line (.place (.eventsto c)) = []
  drained : ∀ t c, w.pc t = .onleave c → line (.place (.events c)) = []

/-- Processing was due to a raise, with what it was raised with, and locked. -/
def Right (w : Ctxs κ τ ι φ π) (h : Handled κ τ ι φ π) : Prop :=
  ∃ r ∈ w.raised, h.raise = some r ∧ h.given = r.filled ∧ h.locked = true

/-- What is raised is processed once. -/
structure Mail (w : Ctxs κ τ ι φ π) (line : Slot κ τ → List (Raise κ ι φ π)) :
    Prop where
  log : (w.log line).Ok Raise.event
  tracks : (w.log line).Tracks Raise.event w.pending
  filled : ∀ s, ∀ r ∈ line s, w.event r.event = r.filled
  ids : ∀ r ∈ w.raised, r.id < w.raised.length
  right : ∀ h ∈ w.handled, w.Right h
  inLine : ∀ c, (w.log line).InLine (Raise.isOwn c) (w.ownLine line c)

/-- The invariant. -/
structure Inv (ctxOf : φ → κ) (w : Ctxs κ τ ι φ π) (line : Slot κ τ → List (Raise κ ι φ π)) :
    Prop where
  locks : Locks w
  stock : Stock ctxOf w line
  mail : Mail w line

/-! ### Locks -/

section

omit [DecidableEq ι]

omit [DecidableEq κ] in
theorem Locks.of_step (h : Locks w) (hpc : w'.pc = update w.pc t p)
    (howner : ∀ c t', w'.owner c = some t' ↔ (update w.pc t p t').held = some c)
    (hd : ∀ t', t' ≠ t → w'.depth t' = w.depth t') (ho : p = .out → w'.depth t = 0)
    (hn : p.nested = true → 0 < w'.depth t) : Locks w' where
  owner_iff := hpc ▸ howner
  out := by
    rw [hpc]
    exact (forall_update_iff w.pc fun t p => p = .out → w'.depth t = 0).2
      ⟨ho, fun t' ht => hd t' ht ▸ h.out t'⟩
  nested := by
    rw [hpc]
    exact (forall_update_iff w.pc fun t p => p.nested = true → 0 < w'.depth t).2
      ⟨hn, fun t' ht => hd t' ht ▸ h.nested t'⟩

omit [DecidableEq κ] in
theorem Locks.goto (h : Locks w) (hp : p.held = (w.pc t).held) (c : κ) (t' : τ) :
    w.owner c = some t' ↔ (update w.pc t p t').held = some c := by
  rw [h.owner_iff]
  by_cases ht : t' = t
  · subst ht; simp [hp]
  · simp [ht]

/-- Locking a mutex that is free. -/
theorem Locks.lock (h : Locks w) (hc : w.owner c = none) (ht : (w.pc t).held = none)
    (hp : p.held = some c) (c' : κ) (t' : τ) :
    update w.owner c (some t) c' = some t' ↔ (update w.pc t p t').held = some c' := by
  have hiff := h.owner_iff c' t'
  by_cases hcc : c' = c <;> by_cases htt : t' = t
  · subst hcc htt; simp [hp]
  · subst hcc
    simp only [hc, reduceCtorEq, false_iff] at hiff
    simp [htt, hiff, Ne.symm htt]
  · subst htt
    simp only [ht, reduceCtorEq, iff_false] at hiff
    simp [hcc, hiff, hp, Ne.symm hcc]
  · simpa [hcc, htt] using hiff

/-- Unlocking the mutex of the context that is left. -/
theorem Locks.unlock (h : Locks w) (ht : (w.pc t).held = some c) (hp : p.held = none)
    (c' : κ) (t' : τ) :
    update w.owner c none c' = some t' ↔ (update w.pc t p t').held = some c' := by
  have hiff := h.owner_iff c' t'
  by_cases hcc : c' = c <;> by_cases htt : t' = t
  · subst hcc htt; simp [hp]
  · subst hcc
    have hown := (h.owner_iff c' t).2 ht
    simp only [hown, Option.some.injEq, Ne.symm htt, false_iff] at hiff
    simp [htt, hiff]
  · subst htt
    simp only [ht, Option.some.injEq, Ne.symm hcc, iff_false] at hiff
    simp [hcc, hiff, hp]
  · simpa [hcc, htt] using hiff

end

/-! ### Queues -/

section

omit [DecidableEq ι]

omit [DecidableEq κ] in
theorem Stock.hand_update (h : Stock ctxOf w line) (hp : p.Hand ctxOf (line (.hand t))) (t' : τ) :
    (update w.pc t p t').Hand ctxOf (line (.hand t')) :=
  (forall_update_iff w.pc fun t p => p.Hand ctxOf (line (.hand t))).2
    ⟨hp, fun t' _ => h.hand t'⟩ t'

omit [DecidableEq κ] in
theorem Stock.drained_update (h : Stock ctxOf w line)
    (hp : ∀ c, p = .onleave c → line (.place (.events c)) = []) (t' : τ) :
    ∀ c, update w.pc t p t' = .onleave c → line (.place (.events c)) = [] :=
  (forall_update_iff w.pc fun _ p => ∀ c, p = .onleave c → line (.place (.events c)) = []).2
    ⟨hp, fun t' _ => h.drained t'⟩ t'

omit [DecidableEq κ] in
theorem Stock.goto (h : Stock ctxOf w line) (hp : p.Hand ctxOf (line (.hand t)))
    (hd : ∀ c, p = .onleave c → line (.place (.events c)) = []) :
    Stock ctxOf (w.goto t p) line where
  holds := h.holds
  place := h.place
  hand := h.hand_update hp
  copies := h.copies
  free := h.free
  drained := h.drained_update hd

omit [DecidableEq τ] in
theorem Stock.lock (h : Stock ctxOf w line) (t' : τ) : Stock ctxOf (w.ctxEnter t' c) line where
  holds := h.holds
  place := h.place
  hand := h.hand
  copies := h.copies
  free c' hc := h.free c' <| by
    by_cases hcc : c' = c
    · subst hcc; simp [ctxEnter] at hc
    · simpa [ctxEnter, hcc] using hc
  drained := h.drained

omit [DecidableEq τ] in
/-- Unlocking the mutex of a context whose queues are empty. -/
theorem Stock.unlock (h : Stock ctxOf w line)
    (hc : line (.place (.events c)) = [] ∧ line (.place (.eventsto c)) = []) :
    Stock ctxOf { w with owner := update w.owner c none } line where
  holds := h.holds
  place := h.place
  hand := h.hand
  copies := h.copies
  free c' hc' := by
    by_cases hcc : c' = c
    · exact hcc ▸ hc
    · exact h.free c' (by simpa [hcc] using hc')
  drained := h.drained

omit [DecidableEq κ] in
theorem Stock.depth {d : ℕ} (h : Stock ctxOf w line)
    (hd : ∀ d', d ≤ d' → line (.place (.copy t d')) = []) :
    Stock ctxOf { w with depth := update w.depth t d } line where
  holds := h.holds
  place := h.place
  hand := h.hand
  copies := (forall_update_iff w.depth fun t d => ∀ d', d ≤ d' → line (.place (.copy t d')) = []).2
    ⟨hd, fun t _ => h.copies t⟩
  free := h.free
  drained := h.drained

/-- The event that a thread has taken off a queue does not wait any more. -/
theorem Stock.drop (h : Stock ctxOf w line) (hp : p.Hand ctxOf ([] : List (Raise κ ι φ π)))
    (hd : ∀ c, p ≠ .onleave c) : Stock ctxOf (w.goto t p) (update line (.hand t) []) where
  holds := by rw [contents_update_hand]; exact h.holds
  place k r hr := h.place k r (by simpa using hr)
  hand t' := by
    by_cases ht : t' = t
    · subst ht; simpa [Ctxs.goto] using hp
    · simpa [Ctxs.goto, ht] using h.hand t'
  copies t' d hd := by simpa using h.copies t' d hd
  free c hc := by simpa using h.free c hc
  drained t' c ht := by
    simpa using h.drained_update (t := t) (p := p) (fun c hp => absurd hp (hd c)) t' c ht

omit [DecidableEq κ] [DecidableEq τ] in
/-- The queues of another state that are the same. -/
theorem Stock.congr (h : Stock ctxOf w line) (hq : w'.queues = w.queues) (ho : w'.owner = w.owner)
    (hp : w'.pc = w.pc) (hd : w'.depth = w.depth) : Stock ctxOf w' line :=
  ⟨hq ▸ h.holds, h.place, hp ▸ h.hand, hd ▸ h.copies, ho ▸ h.free, hp ▸ h.drained⟩

end

variable {r : Raise κ ι φ π}

/-- Pushing an event to a queue of the context that the thread is in. -/
theorem Stock.post (h : Stock ctxOf w line) (hr : w.queues.itemIsinqueue r.event = false)
    (hf : r.Fits ctxOf k)
    (hk : (∃ c, k = .events c ∧ w.owner c ≠ none ∧ ∀ t, w.pc t ≠ .onleave c) ∨
      ∃ c, k = .eventsto c ∧ w.owner c ≠ none) :
    ∃ q, w.queues.push k r.event = .ok q ∧
      Stock ctxOf { w with queues := q } (update line (.place k) (line (.place k) ++ [r])) := by
  obtain ⟨q, hx, hq⟩ := h.holds.push_spec (h.holds.isinqueue_eq_false.1 hr) k
  -- The queues that have to be empty are others.
  have hempty : ∀ {k'}, k' ≠ k → line (.place k') = [] →
      update line (.place k) (line (.place k) ++ [r]) (.place k') = [] := by
    intro k' hne he
    simpa [hne] using he
  refine ⟨q, hx, ?_, fun k' r' hr' => ?_, fun t => ?_, fun t d hd => ?_, fun c hc => ?_,
    fun t c ht => ?_⟩
  · rw [contents_update_place, List.map_append]
    exact hq
  · by_cases hkk : k' = k
    · subst hkk
      rw [update_self] at hr'
      rcases List.mem_append.1 hr' with hm | hm
      · exact h.place k' r' hm
      · exact List.mem_singleton.1 hm ▸ hf
    · exact h.place k' r' (by simpa [hkk] using hr')
  · simpa using h.hand t
  · exact hempty (by rintro rfl; simp at hk) (h.copies t d hd)
  · refine ⟨hempty ?_ (h.free c hc).1, hempty ?_ (h.free c hc).2⟩ <;>
      · rintro rfl
        simp at hk
        first | exact hk.1 hc | exact hk hc
  · refine hempty ?_ (h.drained t c ht)
    rintro rfl
    simp only [Place.events.injEq, reduceCtorEq, false_and, exists_false, or_false] at hk
    obtain ⟨_, rfl, -, hno⟩ := hk
    exact hno t ht

/-- Taking the first event off a queue. -/
theorem Stock.pop (h : Stock ctxOf w line) (hk : line (.place k) = r :: rs)
    (hp : p.Hand ctxOf [r]) (hd : ∀ c, p ≠ .onleave c) :
    ∃ q, w.queues.pop k = .ok (q, some r.event) ∧
      Stock ctxOf ({ w with queues := q }.goto t p)
        (update (update line (.place k) rs) (.hand t) [r]) := by
  obtain ⟨q, hx, hq⟩ := h.holds.pop_cons
    (show contents line k = r.event :: rs.map Raise.event by simp [contents, hk])
  have hempty : ∀ {k'}, line (.place k') = [] →
      update (update line (.place k) rs) (.hand t) [r] (.place k') = [] := by
    intro k' he
    have hne : k' ≠ k := fun hkk => by simp [hkk, hk] at he
    simpa [hne] using he
  refine ⟨q, hx, ?_, fun k' r' hr' => ?_, fun t' => ?_, fun t d hd => hempty (h.copies t d hd),
    fun c hc => ⟨hempty (h.free c hc).1, hempty (h.free c hc).2⟩, fun t' c ht => ?_⟩
  · rw [contents_update_hand, contents_update_place]
    exact hq
  · by_cases hkk : k' = k
    · subst hkk
      exact h.place k' r' (hk ▸ List.mem_cons_of_mem r (by simpa using hr'))
    · exact h.place k' r' (by simpa [hkk] using hr')
  · by_cases ht : t' = t
    · subst ht; simpa [Ctxs.goto] using hp
    · simpa [Ctxs.goto, ht] using h.hand t'
  · by_cases htt : t' = t
    · subst htt
      exact absurd (by simpa [Ctxs.goto] using ht) (hd c)
    · exact hempty (h.drained t' c (by simpa [Ctxs.goto, htt] using ht))

omit [DecidableEq ι] in
/-- Taking a copy of the events for other contexts. -/
theorem Stock.take (h : Stock ctxOf w line) (c : κ) (t : τ) :
    Stock ctxOf { w with
        queues := w.queues.take (.eventsto c) (.copy t (w.depth t))
        depth := update w.depth t (w.depth t + 1) }
      (update (update line (.place (.eventsto c)) []) (.place (.copy t (w.depth t)))
        (line (.place (.eventsto c)))) := by
  have hcopy := h.copies t (w.depth t) (Nat.le_refl _)
  have hq := h.holds.take_spec (show Place.eventsto c ≠ .copy t (w.depth t) by simp)
    (by simp [contents, hcopy])
  have hempty : ∀ {k'}, k' ≠ .copy t (w.depth t) → line (.place k') = [] →
      update (update line (.place (.eventsto c)) []) (.place (.copy t (w.depth t)))
        (line (.place (.eventsto c))) (.place k') = [] := by
    intro k' hne he
    by_cases hk : k' = .eventsto c
    · subst hk; simp
    · simpa [hne, hk] using he
  refine ⟨?_, fun k' r' hr' => ?_, fun t' => by simpa using h.hand t', fun t' d hd => ?_,
    fun c' hc => ⟨hempty (by simp) (h.free c' hc).1, hempty (by simp) (h.free c' hc).2⟩,
    fun t' c' ht => hempty (by simp) (h.drained t' c' ht)⟩
  · rw [contents_update_place, contents_update_place, update_comm (by simp)]
    exact hq
  · by_cases hk : k' = .copy t (w.depth t)
    · subst hk
      have hf : r'.Fits ctxOf (.eventsto c) := h.place _ r' (by simpa using hr')
      exact hf.1
    · by_cases hk' : k' = .eventsto c
      · subst hk'; simp at hr'
      · exact h.place k' r' (by simpa [hk, hk'] using hr')
  · by_cases ht : t' = t
    · subst ht
      have hlt : w.depth t' + 1 ≤ d := by simpa using hd
      exact hempty (fun he => Nat.ne_of_gt hlt (Place.copy.inj he).2)
        (h.copies t' d (Nat.le_of_lt hlt))
    · exact hempty (fun he => ht (Place.copy.inj he).1) (h.copies t' d (by simpa [ht] using hd))

/-! ### What is raised and processed -/

section

omit [DecidableEq ι]

theorem ownLine_update_hand (h : w.owner c ≠ some t) :
    w.ownLine (update line (.hand t) rs) c = w.ownLine line c := by
  cases ho : w.owner c with
  | none => simp [ownLine, ho]
  | some t' =>
    have hne : t' ≠ t := fun he => h (he ▸ ho)
    simp [ownLine, ho, hne]

theorem ownLine_update_place (h : k ≠ .events c) :
    w.ownLine (update line (.place k) rs) c = w.ownLine line c := by
  cases ho : w.owner c <;> simp [ownLine, ho, Ne.symm h]

end

section

omit [DecidableEq τ] [DecidableEq ι]

/-- Nothing is raised or processed, and what waits stays where it is. -/
theorem Mail.congr (h : Mail w line) (hr : w'.raised = w.raised) (hh : w'.handled = w.handled)
    (hp : w'.pending = w.pending) (he : w'.event = w.event)
    (hl : ∀ c, (w'.ownLine line c).filter (Raise.isOwn c) =
      (w.ownLine line c).filter (Raise.isOwn c)) : Mail w' line := by
  have hlog : w'.log line = w.log line := by simp [Ctxs.log, done, hr, hh]
  refine ⟨hlog ▸ h.log, hlog ▸ hp ▸ h.tracks, he ▸ h.filled, hr ▸ h.ids, fun x hx => ?_,
    fun c => (hlog ▸ h.inLine c).congr (hl c).symm⟩
  obtain ⟨r, hm, hx'⟩ := h.right x (hh ▸ hx)
  exact ⟨r, hr ▸ hm, hx'⟩

end

omit [DecidableEq ι] in
/-- Locking a mutex changes nothing that is in line in its context. -/
theorem Mail.lock (h : Mail w line) (hs : Stock ctxOf w line) (hc : w.owner c = none)
    (hr : ∀ r ∈ line (.hand t), r.own = false) : Mail ((w.ctxEnter t c).goto t p) line := by
  refine h.congr rfl rfl rfl rfl fun c' => ?_
  by_cases hcc : c' = c
  · subst hcc
    have hno : ∀ r ∈ line (.hand t), ¬ r.isOwn c' = true := by simp +contextual [Raise.isOwn, hr]
    simp [ownLine, Ctxs.goto, ctxEnter, hc, (hs.free c' hc).1, List.filter_eq_nil_iff.2 hno]
  · simp [ownLine, Ctxs.goto, ctxEnter, hcc]

omit [DecidableEq τ] [DecidableEq ι] in
/-- So does unlocking it. -/
theorem Mail.unlock (h : Mail w line) (hc : w.owner c = some t) (hr : line (.hand t) = [])
    {pc : τ → Point κ ι} {depth : τ → ℕ} {q : Queues (Place κ τ) ι} :
    Mail { w with owner := update w.owner c none, pc := pc, depth := depth, queues := q } line := by
  refine h.congr rfl rfl rfl rfl fun c' => ?_
  by_cases hcc : c' = c
  · subst hcc; simp [ownLine, hc, hr]
  · simp [ownLine, hcc]

section

variable {s s' : Slot κ τ} {xs ys : List (Raise κ ι φ π)}

omit [DecidableEq ι] in
/-- Nothing is raised or processed, and some of what waits is moved. -/
theorem Mail.move (h : Mail w line) (hs : line s = xs ++ ys) (hs' : line s' = [])
    (hl : ∀ c, (w.ownLine (update (update line s ys) s' xs) c).filter (Raise.isOwn c) =
      (w.ownLine line c).filter (Raise.isOwn c)) : Mail w (update (update line s ys) s' xs) where
  log := h.log.move hs hs'
  tracks := h.tracks.move hs hs'
  filled i r hr :=
    have ⟨i', hr'⟩ := (Log.exists_mem_move (m := w.log line) hs hs').1 ⟨i, hr⟩
    h.filled i' r hr'
  ids := h.ids
  right := h.right
  inLine c := (h.inLine c).move.congr (hl c).symm

end

omit [DecidableEq τ] [DecidableEq ι] in
theorem Mail.not_mem_raised (h : Mail w line) (hr : r.id = w.raised.length) : r ∉ w.raised :=
  fun hm => Nat.lt_irrefl _ (hr ▸ h.ids r hm)

/-- Raising an event that does not wait. -/
theorem Mail.post (h : Mail w line) (hid : r.id = w.raised.length) (hp : w.pending r.event = none)
    (hf : r.Fits ctxOf k) {q : Queues (Place κ τ) ι} :
    Mail { w with
        queues := q
        event := update w.event r.event r.filled
        raised := w.raised ++ [r]
        pending := update w.pending r.event (some r) }
      (update line (.place k) (line (.place k) ++ [r])) where
  log := h.log.post (h.not_mem_raised hid) (h.tracks.eq_none.1 hp)
  tracks := h.tracks.post hp
  filled s r' hr' := by
    rcases (Log.mem_post (m := w.log line)).1 hr' with hm | ⟨rfl, -⟩
    · exact (update_of_ne (h.tracks.eq_none.1 hp s r' hm) _ _).trans (h.filled s r' hm)
    · exact update_self _ _ _
  ids r' hr' := by
    rw [List.length_append, List.length_singleton]
    rcases List.mem_append.1 hr' with hm | hm
    · exact Nat.lt_succ_of_lt (h.ids r' hm)
    · exact List.mem_singleton.1 hm ▸ hid ▸ Nat.lt_succ_self _
  right x hx :=
    have ⟨r', hm, hx'⟩ := h.right x hx
    ⟨r', List.mem_append_left _ hm, hx'⟩
  inLine c := by
    by_cases hk : k = .events c
    · subst hk
      refine (h.inLine c).post.congr ?_
      simp [ownLine]
    · have hno : r.isOwn c = false := by
        rw [Raise.isOwn]
        cases k with
        | events c' => rw [hf.2.1]; simp [show c' ≠ c from fun he => hk (he ▸ rfl)]
        | eventsto c' => rw [hf.1]; rfl
        | copy t d => rw [show r.own = false from hf]; rfl
      exact ((h.inLine c).post_of_not hno).congr (congrArg _ (ownLine_update_place hk).symm)

/-- Processing the event that a thread has taken off a queue. -/
theorem Mail.process {own : Bool} (h : Mail w line) (hl : Locks w) (hp : w.pc t = .process c e own)
    (hh : (w.pc t).Hand ctxOf (line (.hand t))) :
    ∃ w' r, w.eventProcess ctxOf t e = .ok w' ∧ line (.hand t) = [r] ∧
      w'.log (update line (.hand t) []) = (w.log line).finish (.hand t) r [] ∧
      Mail w' (update line (.hand t) []) ∧
      w'.queues = w.queues ∧ w'.owner = w.owner ∧ w'.pc = w.pc ∧ w'.depth = w.depth := by
  rw [hp] at hh
  obtain ⟨r, hr, rfl, rfl, rfl, hctx⟩ := hh
  have hm : r ∈ line (.hand t) := hr ▸ List.mem_cons_self
  have hown : w.owner (ctxOf r.fsm) = some t := (hl.owner_iff _ t).2 (by rw [hp]; rfl)
  have hpend : w.pending r.event = some r := (h.tracks _ _).2 ⟨rfl, _, hm⟩
  have hevent := h.filled _ r hm
  have hfin : ∀ s r', r' ∈ update line (.hand t) [] s ↔ r' ∈ line s ∧ r' ≠ r := fun s r' =>
    Log.mem_finish (m := w.log line) (s := .hand t) h.log hr
  obtain ⟨w', hw, hx⟩ : ∃ w', w' = { w with
      event := update w.event r.event (w.event r.event).clear
      pending := update w.pending r.event none
      handled := w.handled ++ [⟨some r, r.filled, t, true⟩] } ∧
      w.eventProcess ctxOf t r.event = .ok w' :=
    ⟨_, rfl, by simp [eventProcess, hevent, Raise.filled, hpend, hown]⟩
  have hlog : w'.log (update line (.hand t) []) = (w.log line).finish (.hand t) r [] := by
    simp [hw, Ctxs.log, Log.finish, done]
  subst hw
  refine ⟨_, r, hx, hr, hlog, ?_, rfl, rfl, rfl, rfl⟩
  refine ⟨hlog ▸ h.log.finish hr, hlog ▸ h.tracks.finish h.log hr, fun s r' hr' => ?_, h.ids,
    fun x hx => ?_, fun c' => hlog ▸ ?_⟩
  · obtain ⟨hm', hne⟩ := (hfin s r').1 hr'
    have hne' : r'.event ≠ r.event := fun he => hne (h.log.apart hm' hm he).1
    exact (update_of_ne hne' _ _).trans (h.filled s r' hm')
  · rcases List.mem_append.1 hx with hx | hx
    · exact h.right x hx
    · exact ⟨r, (h.log.waits hm).1, by simp [List.mem_singleton.1 hx]⟩
  · by_cases hc : r.isOwn c' = true
    · -- An event of the context's own: it is the first in line.
      obtain ⟨hro, hrc⟩ : r.own = true ∧ r.ctx = c' := by simpa [Raise.isOwn] using hc
      obtain rfl : c' = ctxOf r.fsm := hrc.symm.trans (hctx hro)
      refine Log.InLine.finish ((h.inLine _).congr ?_)
      simp [ownLine, hown, hr]
    · rw [Bool.not_eq_true] at hc
      refine ((h.inLine c').finish_of_not hc).congr ?_
      by_cases ho : w.owner c' = some t
      · simp [ownLine, ho, hr, hc]
      · exact congrArg _ (ownLine_update_hand ho).symm

end Ctxs

end Nanomsg
