import Mathlib.Tactic.Common

/-!
# Refinement, by operations and answers

A *spec* says what each operation does to an abstract state and what it
answers; it is total. A *program* has the same operations, which may fail
instead. The program refines the spec through a relation between their
states when an operation, taken in related states, does not fail, gives the
answer of the spec and leaves related states (`Program.Refines`). A run of it then gives
the answers of the spec (`Refines.run`).

The operations may be limited to those which a condition on the abstract state
allows, as those a program is promised by its callers.
-/

namespace Transition

/-- What the operations `ι` do to the states `τ`, and their answers `ο`. -/
structure Spec (τ ι ο : Type*) where
  step : τ → ι → τ × ο

namespace Spec

variable {τ ι ο : Type*} (A : Spec τ ι ο)

/-- The state after some operations, and their answers. -/
def run : τ → List ι → τ × List ο
  | t, [] => (t, [])
  | t, i :: is =>
    let (t', o) := A.step t i
    let (t'', os) := run t' is
    (t'', o :: os)

@[simp] theorem run_nil (t : τ) : A.run t [] = (t, []) := rfl

@[simp] theorem run_cons (t : τ) (i : ι) (is : List ι) :
    A.run t (i :: is) =
      ((A.run (A.step t i).1 is).1, (A.step t i).2 :: (A.run (A.step t i).1 is).2) := rfl

@[simp] theorem run_length (t : τ) (is : List ι) : (A.run t is).2.length = is.length := by
  induction is generalizing t with
  | nil => rfl
  | cons i is ih => simp [ih]

/-- Some operations, and then others. -/
theorem run_append (t : τ) (is js : List ι) :
    A.run t (is ++ js) =
      ((A.run (A.run t is).1 js).1, (A.run t is).2 ++ (A.run (A.run t is).1 js).2) := by
  induction is generalizing t with
  | nil => rfl
  | cons i is ih => simp [ih]

variable (C : τ → ι → Prop)

/-- Every one of some operations is allowed where it is taken. -/
def Allowed : τ → List ι → Prop
  | _, [] => True
  | t, i :: is => C t i ∧ Allowed (A.step t i).1 is

variable {A C}

/-- Any operations are allowed if nothing is asked of them. -/
theorem allowed_of_forall (h : ∀ t i, C t i) (t : τ) (is : List ι) : A.Allowed C t is := by
  induction is generalizing t with
  | nil => trivial
  | cons i is ih => exact ⟨h t i, ih _⟩

/-- Operations that are allowed anywhere are allowed one after the other. -/
theorem allowed_of_mem {is : List ι} (h : ∀ i ∈ is, ∀ t, C t i) (t : τ) : A.Allowed C t is := by
  induction is generalizing t with
  | nil => trivial
  | cons i is ih =>
    exact ⟨h i List.mem_cons_self t, ih (fun j hj => h j (List.mem_cons_of_mem _ hj)) _⟩

/-- Two conditions that are met all along are met together. -/
theorem Allowed.and {D : τ → ι → Prop} {t : τ} {is : List ι} (h : A.Allowed C t is)
    (h' : A.Allowed D t is) : A.Allowed (fun t i => C t i ∧ D t i) t is := by
  induction is generalizing t with
  | nil => trivial
  | cons i is ih => exact ⟨⟨h.1, h'.1⟩, ih h.2 h'.2⟩

/-- Operations that are allowed may be followed by others. -/
theorem allowed_append {t : τ} {is js : List ι} :
    A.Allowed C t (is ++ js) ↔ A.Allowed C t is ∧ A.Allowed C (A.run t is).1 js := by
  induction is generalizing t with
  | nil => exact ⟨fun h => ⟨trivial, h⟩, fun h => h.2⟩
  | cons i is ih => rw [List.cons_append, Allowed, Allowed, ih, run_cons, and_assoc]

/-- What is asked of the operations may be weakened. -/
theorem Allowed.imp {D : τ → ι → Prop} (hD : ∀ t i, C t i → D t i) {t : τ} {is : List ι}
    (h : A.Allowed C t is) : A.Allowed D t is := by
  induction is generalizing t with
  | nil => trivial
  | cons i is ih => exact ⟨hD t i h.1, ih h.2⟩

/-- What allowed operations keep holds after any of them. -/
theorem run_keeps {P : τ → Prop} (hP : ∀ t i, P t → C t i → P (A.step t i).1) {t : τ} (ht : P t)
    {is : List ι} (hc : A.Allowed C t is) : P (A.run t is).1 := by
  induction is generalizing t with
  | nil => exact ht
  | cons i is ih => exact ih (hP t i ht hc.1) hc.2

end Spec

/-- A program with the states `σ`, which answers an operation or fails. -/
structure Program (σ ι ο ε : Type*) where
  exec : σ → ι → Except ε (σ × ο)

namespace Program

variable {σ τ ι ο ε : Type*} (M : Program σ ι ο ε) (A : Spec τ ι ο)

/-- The state after some operations, and their answers. -/
def run : σ → List ι → Except ε (σ × List ο)
  | s, [] => .ok (s, [])
  | s, i :: is =>
    match M.exec s i with
    | .error e => .error e
    | .ok (s', o) =>
      match run s' is with
      | .error e => .error e
      | .ok (s'', os) => .ok (s'', o :: os)

/-- Related states answer an allowed operation alike and stay related. -/
def Refines (C : τ → ι → Prop) (R : σ → τ → Prop) : Prop :=
  ∀ s t i, R s t → C t i → ∃ s', M.exec s i = .ok (s', (A.step t i).2) ∧ R s' (A.step t i).1

variable {M A}

/-- A run that does not fail takes its first step, and then the others. -/
theorem run_cons_eq_ok {s : σ} {i : ι} {is : List ι} {r : σ × List ο} :
    M.run s (i :: is) = .ok r ↔ ∃ s' o s'' os, M.exec s i = .ok (s', o) ∧
      M.run s' is = .ok (s'', os) ∧ r = (s'', o :: os) := by
  constructor
  · intro h
    rw [run] at h
    cases hx : M.exec s i with
    | error e => simp [hx] at h
    | ok r₁ =>
      cases hr : M.run r₁.1 is with
      | error e => simp [hx, hr] at h
      | ok r₂ => exact ⟨_, _, _, _, rfl, hr, by simpa [hx, hr] using h.symm⟩
  · rintro ⟨s', o, s'', os, hx, hr, rfl⟩
    simp [run, hx, hr]

/-- A run that does not fail takes some operations, and then the others. -/
theorem run_append_eq_ok {s : σ} {is js : List ι} {r : σ × List ο} :
    M.run s (is ++ js) = .ok r ↔ ∃ s' os s'' os', M.run s is = .ok (s', os) ∧
      M.run s' js = .ok (s'', os') ∧ r = (s'', os ++ os') := by
  induction is generalizing s r with
  | nil =>
    refine ⟨fun h => ⟨s, [], r.1, r.2, rfl, h, rfl⟩, ?_⟩
    rintro ⟨s', os, s'', os', hs, h, rfl⟩
    cases hs
    exact h
  | cons i is ih =>
    rw [List.cons_append, run_cons_eq_ok]
    constructor
    · rintro ⟨s₁, o, s₂, os₂, hx, hr, rfl⟩
      obtain ⟨s', os, s'', os', h, h', he⟩ := ih.1 hr
      cases he
      exact ⟨s', o :: os, s₂, os', run_cons_eq_ok.2 ⟨s₁, o, s', os, hx, h, rfl⟩, h', rfl⟩
    · rintro ⟨s', os, s'', os', h, h', rfl⟩
      obtain ⟨s₁, o, s₂, os₂, hx, hr, he⟩ := run_cons_eq_ok.1 h
      cases he
      exact ⟨s₁, o, s'', os₂ ++ os', hx, ih.2 ⟨s', os₂, s'', os', hr, h', rfl⟩, rfl⟩

/-- What operations meeting `C` keep holds after a run of them that does not fail. -/
theorem run_keeps {P : σ → Prop} {C : ι → Prop}
    (hP : ∀ s i s' o, P s → C i → M.exec s i = .ok (s', o) → P s') {s s' : σ} {is : List ι} {os : List ο}
    (hs : P s) (hc : ∀ i ∈ is, C i) (hr : M.run s is = .ok (s', os)) : P s' := by
  induction is generalizing s os with
  | nil =>
    cases hr
    exact hs
  | cons i is ih =>
    obtain ⟨s₁, o, s₂, os₂, hx, hr', he⟩ := run_cons_eq_ok.1 hr
    cases he
    exact ih (hP s i s₁ o hs (hc i List.mem_cons_self) hx)
      (fun j hj => hc j (List.mem_cons_of_mem _ hj)) hr'

theorem Refines.run {C : τ → ι → Prop} {R : σ → τ → Prop} (h : M.Refines A C R) {s : σ} {t : τ}
    (hst : R s t) {is : List ι} (hc : A.Allowed C t is) :
    ∃ s', M.run s is = .ok (s', (A.run t is).2) ∧ R s' (A.run t is).1 := by
  induction is generalizing s t with
  | nil => exact ⟨s, rfl, hst⟩
  | cons i is ih =>
    obtain ⟨s₁, hx, hst₁⟩ := h s t i hst hc.1
    obtain ⟨s', hr, hst'⟩ := ih hst₁ hc.2
    exact ⟨s', by simp only [Program.run, hx, hr, Spec.run_cons], hst'⟩

end Program

end Transition
