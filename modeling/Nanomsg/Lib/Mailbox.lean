import Mathlib.Data.List.Nodup
import Mathlib.Logic.Function.Basic
import Mathlib.Tactic.Common

/-!
# Items that wait in lines

Items are posted and, later, finished. Meanwhile they wait in *lines*: an item
is posted at the end of a line, the first items of a line may be moved to an
empty one, and the first of a line is finished. Every item has a *key*, and no
two items with the same key wait at the same time.

* `Log.Ok`: what is posted is finished at most once, and waits in exactly one
  line until it is;
* `Log.Tracks`: the item of every key that waits is known;
* `Log.InLine P xs`: the items meeting `P` are finished in the order in which they
  are posted, the ones that remain being those of `xs`, in that order.

Posting, moving and finishing keep all three. `Sole g xs` says that the items `xs`
are all in one of the lines `g`.
-/

namespace Mailbox

open Function

variable {σ ρ ι : Type*}

/-- What has been posted and finished, the first one first, and what waits. -/
structure Log (σ ρ : Type*) where
  posted : List ρ
  finished : List ρ
  line : σ → List ρ

/-- At most one of the lists `g p` is not empty, and that is `xs`. -/
def Sole {α : Type*} (g : α → List ρ) (xs : List ρ) : Prop :=
  (xs = [] ∧ ∀ p, g p = []) ∨ ∃ p, g p = xs ∧ ∀ q, q ≠ p → g q = []

namespace Sole

variable {α : Type*} {g g' : α → List ρ} {xs ys : List ρ} {x : ρ} {p : α}

theorem congr (h : Sole g xs) (hg : ∀ p, g' p = g p) : Sole g' xs := by
  rwa [show g' = g from funext hg]

theorem eq_nil (h : Sole g xs) (hg : ∀ p, g p = []) : xs = [] := by
  obtain ⟨hx, -⟩ | ⟨p, hp, -⟩ := h
  · exact hx
  · exact hp.symm.trans (hg p)

/-- Filling one of the lists, all of them being empty. -/
theorem fill (h : ∀ q, q ≠ p → g q = []) : Sole g (g p) := .inr ⟨p, rfl, h⟩

/-- Taking the first one off a list. -/
theorem tail (h : Sole g xs) (hp : g p = x :: g' p) (hq : ∀ q, q ≠ p → g' q = g q) :
    xs = x :: g' p ∧ Sole g' (g' p) := by
  obtain ⟨-, hg⟩ | ⟨q, hx, hg⟩ := h
  · exact absurd (hp.symm.trans (hg p)) (by simp)
  · obtain rfl : p = q := by
      by_contra hne
      exact absurd (hp.symm.trans (hg p hne)) (by simp)
    exact ⟨hx.symm.trans hp, fill fun q hne => (hq q hne).trans (hg q hne)⟩

end Sole

namespace Log

/-- Every item is finished at most once, and waits in one line until it is. -/
structure Ok (key : ρ → ι) (m : Log σ ρ) : Prop where
  posted : m.posted.Nodup
  finished : m.finished.Nodup
  mem_posted : ∀ {r}, r ∈ m.finished → r ∈ m.posted
  waits : ∀ {s r}, r ∈ m.line s → r ∈ m.posted ∧ r ∉ m.finished
  due : ∀ {r}, r ∈ m.posted → r ∈ m.finished ∨ ∃ s, r ∈ m.line s
  nodup : ∀ s, (m.line s).Nodup
  apart : ∀ {s s' r r'}, r ∈ m.line s → r' ∈ m.line s' → key r = key r' → r = r' ∧ s = s'

/-- `p` gives the item of every key that waits. -/
def Tracks (key : ρ → ι) (m : Log σ ρ) (p : ι → Option ρ) : Prop :=
  ∀ x r, p x = some r ↔ key r = x ∧ ∃ s, r ∈ m.line s

/-- Of the items meeting `P`, those not finished are those of `xs`, in order. -/
def InLine (P : ρ → Bool) (m : Log σ ρ) (xs : List ρ) : Prop :=
  m.posted.filter P = m.finished.filter P ++ xs.filter P

section

variable {key : ρ → ι} {m : Log σ ρ} {p : ι → Option ρ} {P : ρ → Bool} {s s' i : σ} {r x : ρ}
  {xs ys rs : List ρ}

/-- Nothing with the key `x` waits. -/
theorem Tracks.eq_none (h : Tracks key m p) {x : ι} :
    p x = none ↔ ∀ s r, r ∈ m.line s → key r ≠ x := by
  constructor
  · intro hp s r hr hx
    have := (h x r).2 ⟨hx, s, hr⟩
    simp [hp] at this
  · intro hx
    by_contra hp
    obtain ⟨r, hr⟩ := Option.ne_none_iff_exists'.1 hp
    obtain ⟨hk, s, hs⟩ := (h x r).1 hr
    exact hx s r hs hk

/-- What is finished was posted first. -/
theorem InLine.isPrefix (h : InLine P m xs) : m.finished.filter P <+: m.posted.filter P :=
  h ▸ List.prefix_append _ _

theorem InLine.congr (h : InLine P m xs) (hx : xs.filter P = ys.filter P) : InLine P m ys :=
  h.trans (by rw [hx])

end

variable [DecidableEq σ]

/-- Posting `r` at the end of the line `s`. -/
def post (m : Log σ ρ) (s : σ) (r : ρ) : Log σ ρ :=
  { m with posted := m.posted ++ [r], line := update m.line s (m.line s ++ [r]) }

/-- Moving `xs` to the line `s'`, `ys` being left in the line `s`. -/
def move (m : Log σ ρ) (s s' : σ) (xs ys : List ρ) : Log σ ρ :=
  { m with line := update (update m.line s ys) s' xs }

/-- Finishing `r`, `rs` being left in the line `s`. -/
def finish (m : Log σ ρ) (s : σ) (r : ρ) (rs : List ρ) : Log σ ρ :=
  { m with finished := m.finished ++ [r], line := update m.line s rs }

variable {key : ρ → ι} {m : Log σ ρ} {p : ι → Option ρ} {P : ρ → Bool} {s s' i : σ} {r x : ρ}
  {xs ys rs : List ρ}

theorem mem_post : x ∈ (m.post s r).line i ↔ x ∈ m.line i ∨ x = r ∧ i = s := by
  by_cases hi : i = s
  · subst hi; simp [post]
  · simp [post, hi]

theorem mem_move (h : m.line s = xs ++ ys) (h' : m.line s' = []) :
    x ∈ (m.move s s' xs ys).line i ↔
      i = s' ∧ x ∈ xs ∨ i ≠ s' ∧ (i = s ∧ x ∈ ys ∨ i ≠ s ∧ x ∈ m.line i) := by
  by_cases hi : i = s'
  · subst hi; simp [move]
  · by_cases hs : i = s
    · subst hs; simp [move, hi]
    · simp [move, hi, hs]

/-- Moving items leaves what waits in all. -/
theorem exists_mem_move (h : m.line s = xs ++ ys) (h' : m.line s' = []) :
    (∃ i, x ∈ (m.move s s' xs ys).line i) ↔ ∃ i, x ∈ m.line i := by
  constructor
  · rintro ⟨i, hi⟩
    rcases (mem_move h h').1 hi with ⟨-, hx⟩ | ⟨-, ⟨-, hx⟩ | ⟨-, hx⟩⟩
    · exact ⟨s, h ▸ List.mem_append_left _ hx⟩
    · exact ⟨s, h ▸ List.mem_append_right _ hx⟩
    · exact ⟨i, hx⟩
  · rintro ⟨i, hi⟩
    have hne : i ≠ s' := fun he => by simp [he, h'] at hi
    by_cases hs : i = s
    · subst hs
      rcases List.mem_append.1 (h ▸ hi) with hx | hx
      · exact ⟨s', (mem_move h h').2 (.inl ⟨rfl, hx⟩)⟩
      · exact ⟨i, (mem_move h h').2 (.inr ⟨hne, .inl ⟨rfl, hx⟩⟩)⟩
    · exact ⟨i, (mem_move h h').2 (.inr ⟨hne, .inr ⟨hs, hi⟩⟩)⟩

theorem mem_finish (hm : m.Ok key) (h : m.line s = r :: rs) :
    x ∈ (m.finish s r rs).line i ↔ x ∈ m.line i ∧ x ≠ r := by
  have hr : r ∈ m.line s := h ▸ List.mem_cons_self
  have hn := List.nodup_cons.1 (h ▸ hm.nodup s)
  by_cases hi : i = s
  · subst hi
    suffices x ∈ rs ↔ (x = r ∨ x ∈ rs) ∧ x ≠ r by simpa [finish, h] using this
    exact ⟨fun hx => ⟨.inr hx, fun he => hn.1 (he ▸ hx)⟩, fun hx => hx.1.resolve_left hx.2⟩
  · suffices x ∈ m.line i → x ≠ r by simpa [finish, update_of_ne hi] using this
    exact fun hx he => hi (hm.apart (he ▸ hx) hr rfl).2

/-! ### The items that wait -/

/-- Posting an item not posted before, whose key is free. -/
theorem Ok.post (hm : m.Ok key) (hr : r ∉ m.posted) (hk : ∀ s r', r' ∈ m.line s → key r' ≠ key r) :
    (m.post s r).Ok key where
  posted := List.nodup_append.2 ⟨hm.posted, List.nodup_singleton r, fun x hx y hy he =>
    hr (List.mem_singleton.1 hy ▸ he ▸ hx)⟩
  finished := hm.finished
  mem_posted hx := List.mem_append_left _ (hm.mem_posted hx)
  waits hx := by
    rcases mem_post.1 hx with hx | ⟨rfl, -⟩
    · exact ⟨List.mem_append_left _ (hm.waits hx).1, (hm.waits hx).2⟩
    · exact ⟨List.mem_append_right _ List.mem_cons_self, fun hf => hr (hm.mem_posted hf)⟩
  due hx := by
    rcases List.mem_append.1 hx with hx | hx
    · exact (hm.due hx).imp_right fun ⟨i, hi⟩ => ⟨i, mem_post.2 (.inl hi)⟩
    · exact .inr ⟨s, mem_post.2 (.inr ⟨List.mem_singleton.1 hx, rfl⟩)⟩
  nodup i := by
    by_cases hi : i = s
    · subst hi
      suffices (m.line i ++ [r]).Nodup by simpa [Log.post] using this
      exact List.nodup_append.2 ⟨hm.nodup i, List.nodup_singleton r, fun x hx y hy he =>
        hr (List.mem_singleton.1 hy ▸ he ▸ (hm.waits hx).1)⟩
    · simpa [Log.post, update_of_ne hi] using hm.nodup i
  apart hx hy he := by
    rcases mem_post.1 hx with hx' | ⟨rfl, rfl⟩ <;> rcases mem_post.1 hy with hy' | ⟨rfl, rfl⟩
    · exact hm.apart hx' hy' he
    · exact absurd he (hk _ _ hx')
    · exact absurd he.symm (hk _ _ hy')
    · exact ⟨rfl, rfl⟩

theorem Ok.move (hm : m.Ok key) (h : m.line s = xs ++ ys) (h' : m.line s' = []) :
    (m.move s s' xs ys).Ok key where
  posted := hm.posted
  finished := hm.finished
  mem_posted := hm.mem_posted
  waits hx :=
    have ⟨_, hx⟩ := (exists_mem_move h h').1 ⟨_, hx⟩
    hm.waits hx
  due hx := (hm.due hx).imp_right (exists_mem_move h h').2
  nodup i := by
    have hn := List.nodup_append.1 (h ▸ hm.nodup s)
    by_cases hi : i = s'
    · subst hi; simpa [Log.move] using hn.1
    · by_cases hs : i = s
      · subst hs; simpa [Log.move, update_of_ne hi] using hn.2.1
      · simpa [Log.move, update_of_ne hi, update_of_ne hs] using hm.nodup i
  apart {i j a b} ha hb he := by
    have hn := List.nodup_append.1 (h ▸ hm.nodup s)
    have hx : ∀ {c}, c ∈ xs → c ∈ m.line s := fun hc => h ▸ List.mem_append_left _ hc
    have hy : ∀ {c}, c ∈ ys → c ∈ m.line s := fun hc => h ▸ List.mem_append_right _ hc
    rcases (mem_move h h').1 ha with ⟨rfl, ha'⟩ | ⟨-, ⟨rfl, ha'⟩ | ⟨hi, ha'⟩⟩ <;>
      rcases (mem_move h h').1 hb with ⟨rfl, hb'⟩ | ⟨-, ⟨rfl, hb'⟩ | ⟨hj, hb'⟩⟩
    · exact ⟨(hm.apart (hx ha') (hx hb') he).1, rfl⟩
    · exact absurd (hm.apart (hx ha') (hy hb') he).1 (hn.2.2 _ ha' _ hb')
    · exact absurd (hm.apart (hx ha') hb' he).2.symm hj
    · exact absurd (hm.apart (hy ha') (hx hb') he).1.symm (hn.2.2 _ hb' _ ha')
    · exact hm.apart (hy ha') (hy hb') he
    · exact absurd (hm.apart (hy ha') hb' he).2.symm hj
    · exact absurd (hm.apart ha' (hx hb') he).2 hi
    · exact absurd (hm.apart ha' (hy hb') he).2 hi
    · exact hm.apart ha' hb' he

theorem Ok.finish (hm : m.Ok key) (h : m.line s = r :: rs) : (m.finish s r rs).Ok key := by
  have hr : r ∈ m.line s := h ▸ List.mem_cons_self
  refine ⟨hm.posted, ?_, fun hx => ?_, fun hx => ?_, fun {x} hx => ?_, fun i => ?_,
    fun hx hy he => ?_⟩
  · exact List.nodup_append.2 ⟨hm.finished, List.nodup_singleton r, fun x hx y hy he =>
      (hm.waits hr).2 (List.mem_singleton.1 hy ▸ he ▸ hx)⟩
  · rcases List.mem_append.1 hx with hx | hx
    · exact hm.mem_posted hx
    · exact List.mem_singleton.1 hx ▸ (hm.waits hr).1
  · obtain ⟨hx, hne⟩ := (mem_finish hm h).1 hx
    refine ⟨(hm.waits hx).1, fun hf => ?_⟩
    rcases List.mem_append.1 hf with hf | hf
    · exact (hm.waits hx).2 hf
    · exact hne (List.mem_singleton.1 hf)
  · by_cases hxr : x = r
    · exact .inl (hxr ▸ List.mem_append_right _ List.mem_cons_self)
    · rcases hm.due hx with hf | ⟨i, hi⟩
      · exact .inl (List.mem_append_left _ hf)
      · exact .inr ⟨i, (mem_finish hm h).2 ⟨hi, hxr⟩⟩
  · by_cases hi : i = s
    · subst hi; simpa [Log.finish] using (List.nodup_cons.1 (h ▸ hm.nodup i)).2
    · simpa [Log.finish, update_of_ne hi] using hm.nodup i
  · exact hm.apart ((mem_finish hm h).1 hx).1 ((mem_finish hm h).1 hy).1 he

/-! ### The items by their keys -/

variable [DecidableEq ι]

theorem Tracks.post (h : Tracks key m p) (hk : p (key r) = none) :
    Tracks key (m.post s r) (update p (key r) (some r)) := by
  intro x r'
  have hfree := h.eq_none.1 hk
  by_cases hx : x = key r
  · subst hx
    rw [update_self, Option.some.injEq]
    constructor
    · rintro rfl
      exact ⟨rfl, s, mem_post.2 (.inr ⟨rfl, rfl⟩)⟩
    · rintro ⟨hk', i, hi⟩
      rcases mem_post.1 hi with hi | ⟨rfl, -⟩
      · exact absurd hk' (hfree i r' hi)
      · rfl
  · rw [update_of_ne hx, h x r']
    refine and_congr_right fun hk' => exists_congr fun i => ?_
    rw [mem_post]
    exact ⟨.inl, fun hi => hi.resolve_right fun he => hx (he.1 ▸ hk'.symm)⟩

omit [DecidableEq ι] in
theorem Tracks.move (h : Tracks key m p) (hl : m.line s = xs ++ ys) (hl' : m.line s' = []) :
    Tracks key (m.move s s' xs ys) p := by
  intro x r'
  rw [h x r', exists_mem_move hl hl']

theorem Tracks.finish (h : Tracks key m p) (hm : m.Ok key) (hl : m.line s = r :: rs) :
    Tracks key (m.finish s r rs) (update p (key r) none) := by
  intro x r'
  have hr : r ∈ m.line s := hl ▸ List.mem_cons_self
  by_cases hx : x = key r
  · subst hx
    simp only [update_self, reduceCtorEq, false_iff, not_and, not_exists]
    intro hk i hi
    obtain ⟨hi, hne⟩ := (mem_finish hm hl).1 hi
    exact hne (hm.apart hi hr hk).1
  · rw [update_of_ne hx, h x r']
    refine and_congr_right fun hk => exists_congr fun i => ?_
    rw [mem_finish hm hl]
    exact ⟨fun hi => ⟨hi, fun he => hx (he ▸ hk.symm)⟩, And.left⟩

omit [DecidableEq ι]

/-! ### Their order -/

theorem InLine.post (h : InLine P m xs) : InLine P (m.post s r) (xs ++ [r]) := by
  have h : m.posted.filter P = m.finished.filter P ++ xs.filter P := h
  simp [InLine, Log.post, h]

theorem InLine.post_of_not (h : InLine P m xs) (hr : P r = false) : InLine P (m.post s r) xs :=
  h.post.congr (by simp [hr])

theorem InLine.move (h : InLine P m rs) : InLine P (m.move s s' xs ys) rs := h

theorem InLine.finish (h : InLine P m (r :: xs)) : InLine P (m.finish s r rs) xs := by
  have h : m.posted.filter P = m.finished.filter P ++ (r :: xs).filter P := h
  rw [InLine, Log.finish, List.filter_append, List.append_assoc, ← List.filter_append]
  exact h

theorem InLine.finish_of_not (h : InLine P m xs) (hr : P r = false) :
    InLine P (m.finish s r rs) xs :=
  InLine.finish (h.congr (by simp [hr]))

end Log

end Mailbox
