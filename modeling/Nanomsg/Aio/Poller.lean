import Nanomsg.Fault
import Nanomsg.Lib.Drain

/-!
# What the pollers have in common

`poller.h`: a poller tells, for each handle registered with it, when it can be read, when it
can be written and when there is an error. `nn_poller_wait` gets a batch of such events
from the kernel, and `nn_poller_event` hands them out one by one, while
handles are removed (`nn_poller_rm`) and events are no longer asked for
(`nn_poller_reset_in`, `nn_poller_reset_out`).

Here are these calls and their answers, what a batch holds, and the masks of events that
the epoll and poll backends keep.
-/

namespace Nanomsg

open Drain Transition

variable {κ σ : Type}

/-- `NN_POLLER_IN`, `NN_POLLER_OUT` and `NN_POLLER_ERR`. -/
inductive PollerEvent
  | evIn
  | evOut
  | evErr
  deriving DecidableEq

/-- An event of a batch: `cause` is the event with whose resetting it is given up. -/
structure Readiness (κ : Type) where
  hndl : κ
  event : PollerEvent
  cause : PollerEvent
  deriving DecidableEq

/-- The calls that make events of a batch void. -/
inductive Giveup (κ : Type)
  | rm (hndl : κ)
  | resetIn (hndl : κ)
  | resetOut (hndl : κ)

/-- The handle of the call. -/
def Giveup.hndl : Giveup κ → κ
  | rm hndl | resetIn hndl | resetOut hndl => hndl

/-- The calls made between one `nn_poller_wait` and the next; `nn_poller_event` takes. -/
abbrev BatchOp (κ : Type) := Op (Giveup κ)

/-- The event that `nn_poller_event` returns, and the handle, if it is not null. -/
abbrev Report (κ : Type) := PollerEvent × Option κ

/-- The events that a call makes void. -/
def voids [DecidableEq κ] : Giveup κ → Readiness κ → Bool
  | .rm hndl, r => r.hndl = hndl
  | .resetIn hndl, r => r.hndl = hndl ∧ r.cause = .evIn
  | .resetOut hndl, r => r.hndl = hndl ∧ r.cause = .evOut

/-- What is returned of an event. -/
def Readiness.report (r : Readiness κ) : Report κ := (r.event, some r.hndl)

section

variable [DecidableEq κ]

/-- What the calls do to the events of a batch, and what they return. -/
abbrev batchSpec : Spec (List (Readiness κ)) (BatchOp κ) (Reply (Report κ)) :=
  seen voids Readiness.report

/-- A poller's calls, by `nn_poller_event` and by what the others do. -/
def batchProgram (event : σ → Except Fault (σ × Option (Report κ)))
    (giveup : σ → Giveup κ → Except Fault σ) : Program σ (BatchOp κ) (Reply (Report κ)) Fault where
  exec s
    | .take => do
      let (s', report) ← event s
      pure (s', report.elim .empty .taken)
    | .drop d => do
      let s' ← giveup s d
      pure (s', .dropped)

/-- The handle of a call, if it has one, is as `C` says. -/
abbrev Uses (C : κ → Prop) : List (Readiness κ) → BatchOp κ → Prop :=
  fun _ op => ∀ d, op = .drop d → C d.hndl

/-- A poller takes its batch apart when it returns the next event, or finds none left,
    and makes void what it is to make void. -/
theorem batchProgram_refines {event : σ → Except Fault (σ × Option (Report κ))}
    {giveup : σ → Giveup κ → Except Fault σ} {R : σ → List (Readiness κ) → Prop} {C : κ → Prop}
    (hempty : ∀ s, R s [] → ∃ s', event s = .ok (s', none) ∧ R s' [])
    (htaken : ∀ s r l, R s (r :: l) → ∃ s', event s = .ok (s', some r.report) ∧ R s' l)
    (hgiveup : ∀ s l d, R s l → C d.hndl → ∃ s', giveup s d = .ok s' ∧ R s' (keep voids d l)) :
    (batchProgram event giveup).Refines batchSpec (Uses C) R := by
  intro s l op h hc
  cases op with
  | drop d =>
    obtain ⟨s', hx, h'⟩ := hgiveup s l d h (hc d rfl)
    exact ⟨s', by simp [batchProgram, hx, seen, Reply.map], by simpa [seen] using h'⟩
  | take =>
    cases l with
    | nil =>
      obtain ⟨s', hx, h'⟩ := hempty s h
      exact ⟨s', by simp [batchProgram, hx, seen, Reply.map], by simpa [seen] using h'⟩
    | cons r l =>
      obtain ⟨s', hx, h'⟩ := htaken s r l h
      exact ⟨s', by simp [batchProgram, hx, seen, Reply.map], by simpa [seen] using h'⟩

/-- The calls `ops` of a poller, whose batch holds the events `l`, are right: they do not
    fail, and take the batch apart. -/
def Reports (M : Program σ (BatchOp κ) (Reply (Report κ)) Fault) (s : σ) (l : List (Readiness κ))
    (ops : List (BatchOp κ)) : Prop :=
  ∃ s' replies left, M.run s ops = .ok (s', replies.map (Reply.map Readiness.report)) ∧
    Drained voids l ops replies left

theorem reports_of_refines {M : Program σ (BatchOp κ) (Reply (Report κ)) Fault} {C : κ → Prop}
    {R : σ → List (Readiness κ) → Prop}
    (h : M.Refines batchSpec (Uses C) R) {s : σ}
    {l : List (Readiness κ)} (hs : R s l) {ops : List (BatchOp κ)}
    (hc : ∀ d, .drop d ∈ ops → C d.hndl) : Reports M s l ops := by
  obtain ⟨s', hr, -⟩ := h.run hs (Spec.allowed_of_mem (fun op hop _ d hd => hc d (by rwa [← hd])) l)
  rw [seen_run] at hr
  exact ⟨s', _, _, hr, drained l ops⟩

end

/-! ### Masks -/

namespace Mask

variable {w : ℕ} (i o m : BitVec w)

/-- The events of a mask, where `i` and `o` are the bits of reading and of writing: all the others
    make one error. -/
def events : List PollerEvent :=
  (if m &&& i ≠ 0 then [.evIn] else []) ++ (if m &&& o ≠ 0 then [.evOut] else []) ++
    (if m &&& ~~~(i ||| o) ≠ 0 then [.evErr] else [])

variable {i o m} {a b : BitVec w}

theorem clear_and_self : m &&& ~~~a &&& a = 0 := by
  ext j
  simp

theorem clear_and_of_disjoint (h : a &&& b = 0) : m &&& ~~~a &&& b = m &&& b := by
  ext j hj
  have hj' := congrArg (BitVec.getLsbD · j) h
  simp only [BitVec.getLsbD_and, BitVec.getElem_and, BitVec.getElem_not] at hj' ⊢
  grind

theorem clear_of_and_eq_zero (h : m &&& a = 0) : m &&& ~~~a = m := by
  ext j hj
  have hj' := congrArg (BitVec.getLsbD · j) h
  simp [hj] at hj' ⊢
  grind

theorem and_ne_of_clear (h : m &&& ~~~a &&& b ≠ 0) : m &&& b ≠ 0 := fun hz => h <| by
  ext j hj
  have hj' := congrArg (BitVec.getLsbD · j) hz
  simp [hj] at hj' ⊢
  grind

theorem or_and_self : (m ||| a) &&& a = a := by
  ext j hj
  simp only [BitVec.getElem_and, BitVec.getElem_or]
  grind

theorem or_and_ne (h : m &&& b ≠ 0) : (m ||| a) &&& b ≠ 0 := fun hz => h <| by
  ext j hj
  have hj' := congrArg (BitVec.getLsbD · j) hz
  simp [hj] at hj' ⊢
  grind

theorem clear_and_rest : m &&& ~~~a &&& ~~~(a ||| b) = m &&& ~~~(a ||| b) := by
  ext j hj
  simp only [BitVec.getElem_and, BitVec.getElem_not, BitVec.getElem_or]
  grind

theorem eq_zero_iff : m = 0 ↔ m &&& a = 0 ∧ m &&& b = 0 ∧ m &&& ~~~(a ||| b) = 0 := by
  constructor
  · rintro rfl
    simp
  · rintro ⟨ha, hb, hr⟩
    ext j hj
    have ha' := congrArg (BitVec.getLsbD · j) ha
    have hb' := congrArg (BitVec.getLsbD · j) hb
    have hr' := congrArg (BitVec.getLsbD · j) hr
    simp [hj] at ha' hb' hr' ⊢
    grind

theorem events_eq_nil : events i o m = [] ↔ m = 0 := by
  rw [eq_zero_iff (a := i) (b := o), events]
  by_cases hi : m &&& i = 0 <;> by_cases ho : m &&& o = 0 <;> simp [hi, ho]

/-- Reading, or writing, is given up. -/
theorem events_clear_in (h : i &&& o = 0) :
    events i o (m &&& ~~~i) = (events i o m).filter (· ≠ .evIn) := by
  rw [events, events, clear_and_self, clear_and_of_disjoint h, clear_and_rest]
  by_cases hi : m &&& i = 0 <;> by_cases ho : m &&& o = 0 <;>
    by_cases hr : m &&& ~~~(i ||| o) = 0 <;>
      simp only [hi, ho, hr, ne_eq, not_true_eq_false, not_false_eq_true, if_true, if_false] <;> rfl

theorem events_clear_out (h : i &&& o = 0) :
    events i o (m &&& ~~~o) = (events i o m).filter (· ≠ .evOut) := by
  rw [BitVec.and_comm] at h
  rw [events, events, clear_and_self, clear_and_of_disjoint h, BitVec.or_comm i o, clear_and_rest]
  by_cases hi : m &&& i = 0 <;> by_cases ho : m &&& o = 0 <;>
    by_cases hr : m &&& ~~~(o ||| i) = 0 <;>
      simp only [hi, ho, hr, ne_eq, not_true_eq_false, not_false_eq_true, if_true, if_false] <;> rfl

/-- The first event of a mask, and those after it. -/
theorem events_in (h : i &&& o = 0) (hi : m &&& i ≠ 0) :
    events i o m = .evIn :: events i o (m &&& ~~~i) := by
  rw [events, events, clear_and_self, clear_and_of_disjoint h, clear_and_rest, if_pos hi]
  simp

theorem events_out (h : i &&& o = 0) (hi : m &&& i = 0) (ho : m &&& o ≠ 0) :
    events i o m = .evOut :: events i o (m &&& ~~~o) := by
  rw [BitVec.and_comm] at h
  rw [events, events, clear_and_self, clear_and_of_disjoint h, BitVec.or_comm i o, clear_and_rest,
    if_pos ho, hi]
  simp

theorem events_err (hm : m ≠ 0) (hi : m &&& i = 0) (ho : m &&& o = 0) : events i o m = [.evErr] := by
  have hr : m &&& ~~~(i ||| o) ≠ 0 := fun hr => hm (eq_zero_iff.2 ⟨hi, ho, hr⟩)
  rw [events, if_pos hr, hi, ho]
  rfl

/-! ### What a mask makes ready -/

variable (i o m) in
/-- The events of a mask, for a handle. -/
def readiness (hndl : κ) : List (Readiness κ) := (events i o m).map fun e => ⟨hndl, e, e⟩

variable {hndl : κ} {d : Giveup κ}

theorem readiness_eq_nil : readiness i o m hndl = [] ↔ m = 0 := by
  rw [readiness, List.map_eq_nil_iff, events_eq_nil]

theorem readiness_zero : readiness i o 0 hndl = [] := readiness_eq_nil.2 rfl

variable [DecidableEq κ]

/-- A call for another handle leaves the events. -/
theorem keep_of_ne (h : hndl ≠ d.hndl) : keep voids d (readiness i o m hndl) = readiness i o m hndl := by
  refine List.filter_eq_self.2 fun r hr => ?_
  obtain ⟨e, -, rfl⟩ := List.mem_map.1 hr
  cases d <;> simp [voids, Giveup.hndl] at h ⊢ <;> simp [h]

theorem keep_rm : keep voids (.rm hndl) (readiness i o m hndl) = [] := by
  refine List.filter_eq_nil_iff.2 fun r hr => ?_
  obtain ⟨e, -, rfl⟩ := List.mem_map.1 hr
  simp [voids]

theorem keep_resetIn (h : i &&& o = 0) :
    keep voids (.resetIn hndl) (readiness i o m hndl) = readiness i o (m &&& ~~~i) hndl := by
  rw [readiness, readiness, events_clear_in h, keep, List.filter_map]
  congr 2
  funext e
  simp [voids]

theorem keep_resetOut (h : i &&& o = 0) :
    keep voids (.resetOut hndl) (readiness i o m hndl) = readiness i o (m &&& ~~~o) hndl := by
  rw [readiness, readiness, events_clear_out h, keep, List.filter_map]
  congr 2
  funext e
  simp [voids]

end Mask

end Nanomsg
