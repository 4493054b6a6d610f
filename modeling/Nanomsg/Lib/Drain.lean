import Nanomsg.Lib.Refinement
import Mathlib.Data.List.Basic

/-!
# Taking a list apart

The elements of a list are taken one after the other, from the front; in between, those
meeting some predicate are dropped, wherever they are. Any mix of the two leads to the
same (`Drained`): no element is taken twice or out of turn, none is taken once it has been
dropped, and those never dropped are all taken before the list is found empty,
which is after at most as many takings as it has elements.

A program keeps such a list in some form of its own: items, each of which stands for some
elements (`List.flatMap`). Dropping goes item by item (`flatMap_drop`).
-/

namespace Drain

open Transition

variable {α β δ : Type*}

/-- What is asked of the list. -/
inductive Op (δ : Type*)
  | take
  | drop (d : δ)

/-- What it answers. -/
inductive Reply (α : Type*)
  | dropped
  /-- There is nothing to take. -/
  | empty
  | taken (x : α)
  deriving DecidableEq

namespace Op

/-- Something is taken. -/
def takes : Op δ → Bool
  | take => true
  | drop _ => false

end Op

namespace Reply

/-- What has been taken. -/
def element : Reply α → Option α
  | taken x => some x
  | dropped | empty => none

/-- The answer, with what is taken seen through `f`. -/
def map (f : α → β) : Reply α → Reply β
  | dropped => .dropped
  | empty => .empty
  | taken x => .taken (f x)

end Reply

/-- The elements taken, by the answers. -/
abbrev elements (rs : List (Reply α)) : List α := rs.filterMap Reply.element

@[simp] theorem elements_dropped (rs : List (Reply α)) : elements (.dropped :: rs) = elements rs := rfl
@[simp] theorem elements_empty (rs : List (Reply α)) : elements (.empty :: rs) = elements rs := rfl
@[simp] theorem elements_taken (x : α) (rs : List (Reply α)) :
    elements (.taken x :: rs) = x :: elements rs := rfl

variable (D : δ → α → Bool)

/-- The elements that `d` does not drop. -/
abbrev keep (d : δ) (l : List α) : List α := l.filter fun x => !D d x

/-- An operation, and its answer. -/
def step : List α → Op δ → List α × Reply α
  | [], .take => ([], .empty)
  | x :: l, .take => (l, .taken x)
  | l, .drop d => (keep D d l, .dropped)

/-- Taking a list apart. -/
def spec : Spec (List α) (Op δ) (Reply α) := ⟨step D⟩

@[simp] theorem step_take_nil : step D [] .take = ([], .empty) := rfl
@[simp] theorem step_take_cons (x : α) (l : List α) : step D (x :: l) .take = (l, .taken x) := rfl
@[simp] theorem step_drop (l : List α) (d : δ) : step D l (.drop d) = (keep D d l, .dropped) := by
  cases l <;> rfl

variable {D} {l : List α} {ops : List (Op δ)}

/-- What is taken and what is left are elements of the list, in its order. -/
theorem sublist : ∀ (l : List α) (ops : List (Op δ)),
    (elements ((spec D).run l ops).2 ++ ((spec D).run l ops).1).Sublist l
  | l, [] => by simp
  | l, op :: ops => by
    have ih := sublist (step D l op).1 ops
    cases op with
    | drop d =>
      rw [step_drop] at ih
      simpa [spec] using ih.trans List.filter_sublist
    | take =>
      cases l with
      | nil => simpa [spec] using ih
      | cons x l => simpa [spec] using ih

/-- Elements that are never dropped are taken or left. -/
theorem kept : ∀ (l : List α) (ops : List (Op δ)) (p : α → Bool),
    (∀ d, .drop d ∈ ops → ∀ x, p x → D d x = false) →
    (l.filter p).Sublist (elements ((spec D).run l ops).2 ++ ((spec D).run l ops).1)
  | l, [], p, _ => by simp
  | l, op :: ops, p, hp => by
    have ih := kept (step D l op).1 ops p fun d hd => hp d (List.mem_cons_of_mem _ hd)
    cases op with
    | drop d =>
      have hd : (keep D d l).filter p = l.filter p := by
        rw [List.filter_filter]
        refine List.filter_congr fun x _ => ?_
        cases hx : p x with
        | false => simp
        | true => simp [hp d List.mem_cons_self x hx]
      rw [step_drop, hd] at ih
      simpa [spec] using ih
    | take =>
      cases l with
      | nil => simp
      | cons x l =>
        rw [step_take_cons] at ih
        have hx : ((x :: l).filter p).Sublist (x :: l.filter p) := by
          rw [List.filter_cons]
          split
          · exact List.Sublist.refl _
          · exact List.sublist_cons_self _ _
        simpa [spec] using hx.trans (ih.cons_cons x)

/-- Nothing is taken after it has been dropped. -/
theorem not_taken (l : List α) (pre post : List (Op δ)) (d : δ) {x : α} (hx : D d x) :
    x ∉ elements (((spec D).run l (pre ++ .drop d :: post)).2.drop pre.length) := by
  rw [Spec.run_append, List.drop_left' (by simp)]
  intro hmem
  simp only [Spec.run_cons, spec, step_drop, elements_dropped] at hmem
  have hl := (sublist _ post).subset (List.mem_append_left _ hmem)
  simp [hx] at hl

/-- After enough takings nothing is left. -/
theorem left_eq_nil : ∀ (l : List α) (ops : List (Op δ)), l.length ≤ ops.countP Op.takes →
    ((spec D).run l ops).1 = []
  | l, [], h => by simpa using h
  | l, op :: ops, h => by
    rw [Spec.run_cons]
    refine left_eq_nil _ ops ?_
    cases op with
    | drop d =>
      rw [List.countP_cons_of_neg (by simp [Op.takes])] at h
      exact Nat.le_trans (by simpa [spec] using List.length_filter_le _ l) h
    | take =>
      rw [List.countP_cons_of_pos rfl] at h
      cases l with
      | nil => simp [spec]
      | cons x l => simpa [spec] using h

/-- What there is to say of a run: the operations `ops` on `l`, their answers and what
    is left. -/
structure Drained (D : δ → α → Bool) (l : List α) (ops : List (Op δ)) (replies : List (Reply α))
    (left : List α) : Prop where
  run : (spec D).run l ops = (left, replies)
  sublist : (elements replies ++ left).Sublist l
  kept : ∀ p : α → Bool, (∀ d, .drop d ∈ ops → ∀ x, p x → D d x = false) →
    (l.filter p).Sublist (elements replies ++ left)
  not_taken : ∀ pre d post, ops = pre ++ .drop d :: post → ∀ x, D d x →
    x ∉ elements (replies.drop pre.length)
  left : l.length ≤ ops.countP Op.takes → left = []

theorem drained (l : List α) (ops : List (Op δ)) :
    Drained D l ops ((spec D).run l ops).2 ((spec D).run l ops).1 where
  run := rfl
  sublist := sublist l ops
  kept := kept l ops
  not_taken := by
    rintro pre d post rfl x hx
    exact not_taken l pre post d hx
  left := left_eq_nil l ops

/-- Taking a list apart, when what is taken is seen through `f`. -/
def seen (D : δ → α → Bool) (f : α → β) : Spec (List α) (Op δ) (Reply β) :=
  ⟨fun l op => ((step D l op).1, (step D l op).2.map f)⟩

theorem seen_run (f : α → β) (l : List α) (ops : List (Op δ)) :
    (seen D f).run l ops =
      (((spec D).run l ops).1, ((spec D).run l ops).2.map (Reply.map f)) := by
  induction ops generalizing l with
  | nil => rfl
  | cons op ops ih =>
    have h : (seen D f).run ((seen D f).step l op).1 ops = _ := ih (step D l op).1
    rw [Spec.run_cons, Spec.run_cons, h]
    rfl

/-! ### Items -/

variable {ε : Type*}

/-- Items whose elements are dropped one item at a time. -/
theorem flatMap_drop {f f' : ε → List α} {es : List ε} {d : δ}
    (h : ∀ e ∈ es, f' e = keep D d (f e)) : es.flatMap f' = keep D d (es.flatMap f) := by
  induction es with
  | nil => rfl
  | cons e es ih =>
    rw [List.flatMap_cons, List.flatMap_cons, h e List.mem_cons_self,
      ih fun e' he => h e' (List.mem_cons_of_mem _ he), keep, keep, keep, List.filter_append]

/-- How many items at the front are spent. -/
def pass (spent : ε → Bool) : List ε → ℕ
  | [] => 0
  | e :: es => if spent e then pass spent es + 1 else 0

theorem pass_le (spent : ε → Bool) (es : List ε) : pass spent es ≤ es.length := by
  induction es with
  | nil => exact Nat.le_refl 0
  | cons e es ih =>
    rw [pass]
    split
    · exact Nat.succ_le_succ ih
    · exact Nat.zero_le _

section

variable {spent : ε → Bool} {f : ε → List α}

/-- Where spent items are those that stand for nothing: either all are spent, or past
    the spent ones at the front there is one that is not, whose elements are next. -/
theorem pass_cases {es : List ε} (h : ∀ e ∈ es, spent e = true ↔ f e = []) :
    pass spent es = es.length ∧ es.flatMap f = [] ∨
      ∃ e es', es.drop (pass spent es) = e :: es' ∧ spent e = false ∧
        es.flatMap f = f e ++ es'.flatMap f := by
  induction es with
  | nil => exact .inl ⟨rfl, rfl⟩
  | cons e es ih =>
    rw [pass, List.flatMap_cons]
    cases he : spent e with
    | false => exact .inr ⟨e, es, rfl, he, rfl⟩
    | true =>
      rw [(h e List.mem_cons_self).1 he]
      simpa using ih fun e' he' => h e' (List.mem_cons_of_mem _ he')

variable {es : List ε} {i : ℕ} (h : ∀ e ∈ es.drop i, spent e = true ↔ f e = [])

include h

/-- From the item `i` on there is nothing left. -/
theorem pass_nil (hi : i ≤ es.length) (hl : (es.drop i).flatMap f = []) :
    i + pass spent (es.drop i) = es.length := by
  obtain ⟨hp, -⟩ | ⟨e, es', hd, hs, hf⟩ := pass_cases h
  · rw [hp, List.length_drop]
    omega
  · have he : e ∈ es.drop i := List.mem_of_mem_drop (hd ▸ List.mem_cons_self)
    rw [hl] at hf
    rw [(h e he).2 (List.append_eq_nil_iff.1 hf.symm).1] at hs
    cases hs

/-- From the item `i` on, `x` is next. -/
theorem pass_cons {x : α} {l : List α} (hl : (es.drop i).flatMap f = x :: l) :
    ∃ e es', es.drop (i + pass spent (es.drop i)) = e :: es' ∧ spent e = false ∧
      f e ++ es'.flatMap f = x :: l ∧ ∀ e' ∈ e :: es', e' ∈ es.drop i := by
  obtain ⟨-, hf⟩ | ⟨e, es', hd, hs, hf⟩ := pass_cases h
  · rw [hl] at hf
    cases hf
  · refine ⟨e, es', by rw [← List.drop_drop, hd], hs, by rw [← hf, hl], ?_⟩
    rw [← hd]
    exact fun e' he' => List.mem_of_mem_drop he'

end

/-- Some item is at `i`, others come after it. -/
theorem drop_eq_cons {es es' : List ε} {i : ℕ} {e : ε} (h : es.drop i = e :: es') :
    i < es.length ∧ es[i]? = some e ∧ es.drop (i + 1) = es' := by
  refine ⟨Nat.lt_of_not_le fun hle => ?_, ?_, ?_⟩
  · rw [List.drop_eq_nil_of_le hle] at h
    cases h
  · rw [← List.head?_drop, h]
    rfl
  · rw [← List.drop_drop, h]
    rfl

end Drain
