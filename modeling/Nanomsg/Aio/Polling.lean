import Nanomsg.Aio.Poller
import Mathlib.Logic.Function.Basic

/-!
# What a poller is for

The functions of `poller.h`, whichever backend they are built with: handles are registered with a
descriptor, reading and writing are asked for and given up, and what the kernel stores is handed
out. All of it may be mixed: between two events of a batch a handle may be removed and registered
once more, and another one may be given its descriptor.

`Polling.spec` says what all this comes to. A backend that refines it, whatever the kernel's events
are, tells the kernel what is asked for, and hands out nothing for a handle that is not registered
then, nor what it does not ask for then (`Polling.right_of_refines`).
-/

namespace Nanomsg

open Function Transition Drain

variable {κ β : Type}

/-- A handle that is registered: its descriptor, and whether reading and writing are asked for. -/
structure Watch where
  fd : ℕ
  evIn : Bool
  evOut : Bool
  deriving DecidableEq

namespace Watch

/-- The event is asked for, as errors always are. -/
def asks (w : Watch) : PollerEvent → Bool
  | .evIn => w.evIn
  | .evOut => w.evOut
  | .evErr => true

/-- The event is asked for from now on, or is not. -/
def set (w : Watch) : PollerEvent → Bool → Watch
  | .evIn, v => { w with evIn := v }
  | .evOut, v => { w with evOut := v }
  | .evErr, _ => w

@[simp] theorem set_fd (w : Watch) (e : PollerEvent) (v : Bool) : (w.set e v).fd = w.fd := by
  cases e <;> rfl

theorem asks_set (w : Watch) {e : PollerEvent} (he : e ≠ .evErr) (v : Bool) (e' : PollerEvent) :
    (w.set e v).asks e' = if e' = e then v else w.asks e' := by
  cases e <;> cases e' <;> first | exact absurd rfl he | rfl

/-! ### As a mask -/

variable {n : ℕ} {bit : PollerEvent → BitVec n} {e : PollerEvent}

/-- The bits of what is asked for. -/
def mask (bit : PollerEvent → BitVec n) (w : Watch) : BitVec n :=
  (if w.evIn then bit .evIn else 0) ||| if w.evOut then bit .evOut else 0

/-- Reading and writing have bits of their own. -/
structure Bits (bit : PollerEvent → BitVec n) : Prop where
  disjoint : bit .evIn &&& bit .evOut = 0
  evIn : bit .evIn ≠ 0
  evOut : bit .evOut ≠ 0

theorem mask_new (fd : ℕ) : (⟨fd, false, false⟩ : Watch).mask bit = 0 := by
  simp [mask]

variable (h : Bits bit) (he : e ≠ .evErr)

include h he

theorem mask_and (w : Watch) : w.mask bit &&& bit e ≠ 0 ↔ w.asks e = true := by
  have hd : bit .evIn &&& bit .evOut = 0#n := h.disjoint
  have hd' : bit .evOut &&& bit .evIn = 0#n := (BitVec.and_comm _ _).trans hd
  have hi : ¬ bit .evIn = 0#n := h.evIn
  have ho : ¬ bit .evOut = 0#n := h.evOut
  obtain ⟨fd, i, o⟩ := w
  cases e with
  | evErr => exact absurd rfl he
  | evIn => cases i <;> cases o <;> simp [mask, asks, BitVec.and_or_distrib_right, hd', hi]
  | evOut => cases i <;> cases o <;> simp [mask, asks, BitVec.and_or_distrib_right, hd, ho]

omit h in
theorem mask_set_true (w : Watch) : (w.set e true).mask bit = w.mask bit ||| bit e := by
  have hio : bit .evIn ||| bit .evOut ||| bit .evIn = bit .evIn ||| bit .evOut := by
    rw [BitVec.or_comm (bit .evIn) (bit .evOut), BitVec.or_assoc, BitVec.or_self]
  obtain ⟨fd, i, o⟩ := w
  cases e with
  | evErr => exact absurd rfl he
  | evIn => cases i <;> cases o <;> simp [mask, set, hio, BitVec.or_comm (bit .evOut) (bit .evIn)]
  | evOut => cases i <;> cases o <;> simp [mask, set, BitVec.or_assoc]

theorem mask_set_false (w : Watch) : (w.set e false).mask bit = w.mask bit &&& ~~~bit e := by
  have hd := h.disjoint
  have hd' := (BitVec.and_comm _ _).trans hd
  obtain ⟨fd, i, o⟩ := w
  cases e with
  | evErr => exact absurd rfl he
  | evIn =>
    cases i <;> cases o <;>
      simp [mask, set, BitVec.and_or_distrib_right, Mask.clear_of_and_eq_zero hd']
  | evOut =>
    cases i <;> cases o <;>
      simp [mask, set, BitVec.and_or_distrib_right, Mask.clear_of_and_eq_zero hd]

end Watch

/-- The calls of a poller, and `ok` where the kernel does not refuse to be asked for more. -/
inductive PollCall (κ β : Type)
  | add (hndl : κ) (fd : ℕ)
  | setIn (hndl : κ) (ok : Bool)
  | setOut (hndl : κ) (ok : Bool)
  /-- `nn_poller_wait`, when the kernel has stored `batch`. -/
  | wait (batch : List β)
  /-- `nn_poller_event`, and the calls that make events void. -/
  | between (op : BatchOp κ)

/-- The handles that are registered. -/
abbrev Watches (κ : Type) := κ → Option Watch

/-- The handle is registered and asks for what the event is given up with; it is told of that, or of
    an error. -/
structure Readiness.Asked (handles : Watches κ) (r : Readiness κ) : Prop where
  cause : ∃ w ∈ handles r.hndl, w.asks r.cause = true
  event : r.event = r.cause ∨ r.event = .evErr

/-- The kernel's events: what they make ready, and which of them may come by what is
    registered. -/
structure PollBackend (κ β : Type) where
  ready : β → List (Readiness κ)
  May : Watches κ → β → Prop
  /-- The kernel may refuse. -/
  refuses : Bool
  /-- It does not tell of what it has not been asked for. -/
  asked : ∀ {handles e}, May handles e → ∀ r ∈ ready e, r.Asked handles

/-- What is registered, and what of the latest batch has not been handed out. -/
structure Polling (κ : Type) where
  handles : Watches κ
  left : List (Readiness κ)

namespace Polling

/-- `nn_poller_init`. -/
def init : Polling κ := ⟨fun _ => none, []⟩

variable [DecidableEq κ]

/-- The event is asked for by a handle from now on, or is not. -/
def ask (handles : Watches κ) (hndl : κ) (e : PollerEvent) (v : Bool) : Watches κ :=
  update handles hndl ((handles hndl).map (·.set e v))

/-- What is registered after a call that makes events void. -/
def giveup (handles : Watches κ) : Giveup κ → Watches κ
  | .rm hndl => update handles hndl none
  | .resetIn hndl => ask handles hndl .evIn false
  | .resetOut hndl => ask handles hndl .evOut false

/-- What is registered after a call. -/
def watch (handles : Watches κ) : PollCall κ β → Watches κ
  | .add hndl fd => update handles hndl (some ⟨fd, false, false⟩)
  | .setIn hndl ok => if ok then ask handles hndl .evIn true else handles
  | .setOut hndl ok => if ok then ask handles hndl .evOut true else handles
  | .wait _ => handles
  | .between .take => handles
  | .between (.drop d) => giveup handles d

variable (b : PollBackend κ β)

/-- What a call does, and what it returns. -/
def spec : Spec (Polling κ) (PollCall κ β) (Reply (Report κ)) where
  step p
    | .wait batch => (⟨p.handles, batch.flatMap b.ready⟩, .dropped)
    | .between op =>
      let (left, reply) := batchSpec.step p.left op
      (⟨watch p.handles (.between op : PollCall κ β), left⟩, reply)
    | call => (⟨watch p.handles call, p.left⟩, .dropped)

/-- A handle is added when it is not registered, with a descriptor that no registered handle
    has; the others are called for registered handles. -/
def Allowed (p : Polling κ) : PollCall κ β → Prop
  | .add hndl fd => p.handles hndl = none ∧ ∀ k, ∀ w ∈ p.handles k, w.fd ≠ fd
  | .setIn hndl ok | .setOut hndl ok => (p.handles hndl).isSome ∧ (ok || b.refuses)
  | .wait batch => batch.length ≤ 32 ∧ ∀ e ∈ batch, b.May p.handles e
  | .between op => ∀ d, op = .drop d → (p.handles d.hndl).isSome

/-- What is to be handed out is of registered handles, which ask for it; and they have different
    descriptors. -/
structure Sound (p : Polling κ) : Prop where
  asked : ∀ r ∈ p.left, r.Asked p.handles
  distinct : ∀ h h', ∀ w ∈ p.handles h, ∀ w' ∈ p.handles h', w.fd = w'.fd → h = h'

variable {b} {handles : Watches κ} {hndl k : κ} {e : PollerEvent} {v : Bool} {w : Watch}
  {p : Polling κ} {call : PollCall κ β} {r : Readiness κ}

theorem ask_self (hw : w ∈ handles hndl) : w.set e v ∈ ask handles hndl e v hndl := by
  rw [ask, update_self, Option.mem_def.1 hw]
  rfl

theorem ask_of_ne (h : k ≠ hndl) : ask handles hndl e v k = handles k := update_of_ne h _ _

theorem mem_ask (hw : w ∈ ask handles hndl e v k) : ∃ w' ∈ handles k, w'.fd = w.fd := by
  by_cases hk : k = hndl
  · subst hk
    rw [ask, update_self, Option.mem_def, Option.map_eq_some_iff] at hw
    obtain ⟨w', hw', rfl⟩ := hw
    exact ⟨w', hw', (w'.set_fd e v).symm⟩
  · rw [ask_of_ne hk] at hw
    exact ⟨w, hw, rfl⟩

/-- What is asked for already need not be asked for again. -/
theorem ask_eq_self (h : ∀ w ∈ handles hndl, w.asks e = v) : ask handles hndl e v = handles := by
  funext k
  by_cases hk : k = hndl
  · subst hk
    rw [ask, update_self]
    cases hw : handles k with
    | none => rfl
    | some w =>
      obtain rfl := h w hw
      cases e <;> rfl
  · exact ask_of_ne hk

/-- The event is asked for by the handle, which is registered with the descriptor. -/
def Heard (handles : Watches κ) (fd : ℕ) (e : PollerEvent) (hndl : κ) : Prop :=
  ∃ w ∈ handles hndl, w.fd = fd ∧ w.asks e = true

theorem heard_ask (he : e ≠ .evErr) {fd : ℕ} {e' : PollerEvent} :
    Heard (ask handles hndl e v) fd e' k ↔
      if k = hndl ∧ e' = e then v = true ∧ ∃ w ∈ handles hndl, w.fd = fd
      else Heard handles fd e' k := by
  by_cases hk : k = hndl
  · subst hk
    simp only [Heard, ask, update_self, Option.mem_def, Option.map_eq_some_iff, true_and]
    constructor
    · rintro ⟨_, ⟨w, hw, rfl⟩, hfd, ha⟩
      rw [w.set_fd] at hfd
      rw [w.asks_set he] at ha
      split
      · next hee => exact ⟨by rwa [if_pos hee] at ha, w, hw, hfd⟩
      · next hee => exact ⟨w, hw, hfd, by rwa [if_neg hee] at ha⟩
    · intro h
      split at h
      · next hee =>
        obtain ⟨hv, w, hw, hfd⟩ := h
        exact ⟨_, ⟨w, hw, rfl⟩, (w.set_fd e v).trans hfd, by rw [w.asks_set he, if_pos hee, hv]⟩
      · next hee =>
        obtain ⟨w, hw, hfd, ha⟩ := h
        exact ⟨_, ⟨w, hw, rfl⟩, (w.set_fd e v).trans hfd, by rwa [w.asks_set he, if_neg hee]⟩
  · rw [if_neg fun h => hk h.1, Heard, Heard, ask_of_ne hk]

/-- What is asked for is still asked for, if it is not given up. -/
theorem Asked.ask (h : r.Asked handles) (he : e ≠ .evErr)
    (hv : v = false → r.hndl = hndl → r.cause ≠ e) : r.Asked (ask handles hndl e v) := by
  obtain ⟨⟨w, hw, ha⟩, hr⟩ := h
  refine ⟨?_, hr⟩
  by_cases hk : r.hndl = hndl
  · subst hk
    refine ⟨_, ask_self hw, ?_⟩
    rw [w.asks_set he]
    split
    · next hc =>
      cases v with
      | true => rfl
      | false => exact absurd hc (hv rfl rfl)
    · exact ha
  · exact ⟨w, (ask_of_ne hk).symm ▸ hw, ha⟩

/-- Reading or writing is asked for, or given up with what is to be handed out for it. -/
theorem Sound.ask (h : Sound p) (he : e ≠ .evErr) {left : List (Readiness κ)} (hs : left ⊆ p.left)
    (hv : v = false → ∀ r ∈ left, r.hndl = hndl → r.cause ≠ e) :
    Sound ⟨Polling.ask p.handles hndl e v, left⟩ where
  asked r hr := Asked.ask (h.asked r (hs hr)) he fun hf => hv hf r hr
  distinct k k' w hw w' hw' hfd := by
    obtain ⟨u, hu, hfu⟩ := mem_ask hw
    obtain ⟨u', hu', hfu'⟩ := mem_ask hw'
    exact h.distinct k k' u hu u' hu' (hfu.trans (hfd.trans hfu'.symm))

theorem Sound.giveup (h : Sound p) (d : Giveup κ) :
    Sound ⟨giveup p.handles d, keep voids d p.left⟩ := by
  have hs : keep voids d p.left ⊆ p.left := List.filter_subset_self _
  have hv : ∀ r ∈ keep voids d p.left, voids d r = false := fun r hr => by
    simpa using (List.mem_filter.1 hr).2
  cases d with
  | resetIn hndl =>
    refine h.ask (e := .evIn) (by decide) hs fun _ r hr hk hc => ?_
    simpa [voids, hk, hc] using hv r hr
  | resetOut hndl =>
    refine h.ask (e := .evOut) (by decide) hs fun _ r hr hk hc => ?_
    simpa [voids, hk, hc] using hv r hr
  | rm hndl =>
    refine ⟨fun r hr => ?_, fun k k' w hw w' hw' => ?_⟩
    · obtain ⟨⟨w, hw, ha⟩, he⟩ := h.asked r (hs hr)
      have hk : r.hndl ≠ hndl := fun hk => by simpa [voids, hk] using hv r hr
      exact ⟨⟨w, by simpa only [Polling.giveup, update_of_ne hk] using hw, ha⟩, he⟩
    · have hold : ∀ j u, u ∈ Polling.giveup p.handles (.rm hndl) j → u ∈ p.handles j := fun j u hu => by
        by_cases hj : j = hndl
        · simp [Polling.giveup, hj] at hu
        · simpa only [Polling.giveup, update_of_ne hj] using hu
      exact h.distinct k k' w (hold k w hw) w' (hold k' w' hw')

omit [DecidableEq κ] in
theorem sound_init : Sound (init : Polling κ) where
  asked _ hr := absurd hr List.not_mem_nil
  distinct _ _ _ hw := absurd hw (Option.not_mem_none _)

/-- Every call leaves it so. -/
theorem Sound.step (h : Sound p) (hc : Allowed b p call) : Sound ((spec b).step p call).1 := by
  cases call with
  | add hndl fd =>
    obtain ⟨hnone, hfd⟩ := hc
    refine ⟨fun r hr => ?_, fun k k' w hw w' hw' hww => ?_⟩
    · obtain ⟨⟨w, hw, ha⟩, he⟩ := h.asked r hr
      have hk : r.hndl ≠ hndl := fun hk => by simp [hk, hnone] at hw
      exact ⟨⟨w, by simpa only [spec, watch, update_of_ne hk] using hw, ha⟩, he⟩
    · simp only [spec, watch] at hw hw'
      by_cases hk : k = hndl <;> by_cases hk' : k' = hndl
      · rw [hk, hk']
      · subst hk
        rw [update_self, Option.mem_some_iff] at hw
        rw [update_of_ne hk'] at hw'
        exact absurd (hww.symm.trans (congrArg Watch.fd hw.symm)) (hfd k' w' hw')
      · subst hk'
        rw [update_self, Option.mem_some_iff] at hw'
        rw [update_of_ne hk] at hw
        exact absurd (hww.trans (congrArg Watch.fd hw'.symm)) (hfd k w hw)
      · rw [update_of_ne hk] at hw
        rw [update_of_ne hk'] at hw'
        exact h.distinct k k' w hw w' hw' hww
  | setIn hndl ok =>
    cases ok with
    | true => exact h.ask (e := .evIn) (v := true) nofun (List.Subset.refl _) nofun
    | false => exact h
  | setOut hndl ok =>
    cases ok with
    | true => exact h.ask (e := .evOut) (v := true) nofun (List.Subset.refl _) nofun
    | false => exact h
  | wait batch =>
    refine ⟨fun r hr => ?_, h.distinct⟩
    obtain ⟨e, he, hr⟩ := List.mem_flatMap.1 hr
    exact b.asked (hc.2 e he) r hr
  | between op =>
    cases op with
    | take =>
      refine ⟨fun r hr => h.asked r ?_, h.distinct⟩
      obtain ⟨handles, left⟩ := p
      cases left with
      | nil => exact hr
      | cons x l => exact List.mem_cons_of_mem x hr
    | drop d =>
      have hg := h.giveup d
      simpa [spec, seen, watch] using hg

end Polling

/-! ### Runs -/

namespace Polling

variable {γ σ : Type} [DecidableEq κ] {b : PollBackend κ β} {c : PollBackend κ γ} {p : Polling κ}
  {call : PollCall κ β} {calls : List (PollCall κ β)}

/-- What is registered after some calls. -/
def watched (calls : List (PollCall κ β)) : Watches κ := calls.foldl watch fun _ => none

theorem step_handles (p : Polling κ) (call : PollCall κ β) :
    ((spec b).step p call).1.handles = watch p.handles call := by
  cases call <;> rfl

theorem run_handles (p : Polling κ) (calls : List (PollCall κ β)) :
    ((spec b).run p calls).1.handles = calls.foldl watch p.handles := by
  induction calls generalizing p with
  | nil => rfl
  | cons call calls ih => rw [Spec.run_cons, ih, step_handles, List.foldl_cons]

omit [DecidableEq κ] in
/-- A handle asks for what it is told. -/
theorem Asked.asks {handles : Watches κ} {r : Readiness κ} (h : r.Asked handles) :
    ∃ w ∈ handles r.hndl, w.asks r.event = true := by
  obtain ⟨⟨w, hw, ha⟩, he | he⟩ := h
  · exact ⟨w, hw, he ▸ ha⟩
  · exact ⟨w, hw, he ▸ rfl⟩

/-- What is handed out. -/
theorem step_taken {e : PollerEvent} {hndl : Option κ}
    (h : ((spec b).step p call).2 = .taken (e, hndl)) :
    ∃ r ∈ p.left, r.event = e ∧ hndl = some r.hndl := by
  obtain ⟨handles, left⟩ := p
  cases call with
  | between op =>
    cases op with
    | drop d => simp [spec, seen, Reply.map] at h
    | take =>
      cases left with
      | nil => simp [spec, seen, Reply.map] at h
      | cons r l =>
        simp only [spec, seen, step_take_cons, Reply.map, Readiness.report, Reply.taken.injEq,
          Prod.mk.injEq] at h
        exact ⟨r, List.mem_cons_self, h.1, h.2.symm⟩
  | add | setIn | setOut | wait => cases h

/-- Each answer tells a handle of what it asks for at that time. -/
theorem truthful (h : Sound p) (hc : (spec b).Allowed (Allowed b) p calls) {i : ℕ} {e : PollerEvent}
    {hndl : Option κ} (hi : ((spec b).run p calls).2[i]? = some (.taken (e, hndl))) :
    ∃ k ∈ hndl, ∃ w ∈ (calls.take i).foldl watch p.handles k, w.asks e = true := by
  induction calls generalizing p i with
  | nil => simp at hi
  | cons call calls ih =>
    rw [Spec.run_cons] at hi
    cases i with
    | zero =>
      rw [List.getElem?_cons_zero, Option.some.injEq] at hi
      obtain ⟨r, hr, rfl, rfl⟩ := step_taken hi
      exact ⟨r.hndl, rfl, Asked.asks (h.asked r hr)⟩
    | succ i =>
      rw [List.getElem?_cons_succ] at hi
      have hrest := ih (h.step hc.1) hc.2 hi
      rwa [step_handles] at hrest

/-- Any run of a poller that is as it should be: no assertion fails, the answers are those of `spec`,
    the kernel has been told what is asked for, and each event is handed out while it is. -/
def Right (b : PollBackend κ β) (M : Program σ (PollCall κ β) (Reply (Report κ)) Fault)
    (Told : σ → Watches κ → Prop) (s : σ) (calls : List (PollCall κ β)) : Prop :=
  ∃ s' answers, M.run s calls = .ok (s', answers) ∧ answers = ((spec b).run init calls).2 ∧
    Told s' (watched calls) ∧ ∀ i e hndl, answers[i]? = some (.taken (e, hndl)) →
      ∃ k ∈ hndl, ∃ w ∈ watched (calls.take i) k, w.asks e = true

theorem right_of_refines {M : Program σ (PollCall κ β) (Reply (Report κ)) Fault}
    {R : σ → Polling κ → Prop} {Told : σ → Watches κ → Prop} {s : σ}
    (hM : M.Refines (spec b) (Allowed b) R) (hT : ∀ s p, R s p → Told s p.handles) (hs : R s init)
    (hc : (spec b).Allowed (Allowed b) init calls) : Right b M Told s calls := by
  obtain ⟨s', hx, hR⟩ := hM.run hs hc
  refine ⟨s', _, hx, rfl, ?_, fun i e hndl hi => truthful sound_init hc hi⟩
  have ht := hT s' _ hR
  rwa [run_handles] at ht

/-- A kernel that says itself what is ready. -/
def plain : PollBackend κ (Readiness κ) where
  ready r := [r]
  May handles r := r.Asked handles
  refuses := true
  asked h _ hr := List.mem_singleton.1 hr ▸ h

/-- The call, with what its batch makes ready. -/
def seenBy (b : PollBackend κ β) : PollCall κ β → PollCall κ (Readiness κ)
  | .add hndl fd => .add hndl fd
  | .setIn hndl ok => .setIn hndl ok
  | .setOut hndl ok => .setOut hndl ok
  | .wait batch => .wait (batch.flatMap b.ready)
  | .between op => .between op

theorem step_seenBy (p : Polling κ) (call : PollCall κ β) :
    (spec b).step p call = (spec plain).step p (seenBy b call) := by
  cases call with
  | wait batch => simp [spec, seenBy, plain]
  | between op => cases op <;> rfl
  | add | setIn | setOut => rfl

/-- How the kernel tells what is ready does not matter. -/
theorem run_seenBy (p : Polling κ) (calls : List (PollCall κ β)) :
    (spec b).run p calls = (spec plain).run p (calls.map (seenBy b)) := by
  induction calls generalizing p with
  | nil => rfl
  | cons call calls ih => rw [List.map_cons, Spec.run_cons, Spec.run_cons, ← step_seenBy, ih]

end Polling

end Nanomsg
