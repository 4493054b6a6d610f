import Mathlib.Data.List.Basic
import Mathlib.Data.List.Nodup
import Mathlib.Tactic.Common

/-!
# Threads

A *thread* is a list laid through an array: each place has the places before it and after it
in two fields, `prev` and `next`, and `e` is no place. `Thread e next prev q p xs`: from `p` on, the
places are `xs`, and the first of them is told to come after `q`. What code that moves
elements about relies on:

* a thread does not see what is written off it (`Thread.congr`);
* the first place may be told to come after another (`Thread.rehead`);
* an element of the thread may be moved to a place off the thread, when its two neighbours
  are told (`Thread.move`).
-/

namespace Threads

variable {ι : Type*}

/-- From `p` on, the places `xs`, of which the first comes after `q`. -/
def Thread (e : ι) (next prev : ι → ι) : ι → ι → List ι → Prop
  | _, p, [] => p = e
  | q, p, x :: xs => p = x ∧ x ≠ e ∧ prev x = q ∧ Thread e next prev x (next x) xs

variable {e : ι} {next prev next' prev' : ι → ι} {p q q' x : ι} {xs : List ι}

theorem Thread.ne (h : Thread e next prev q p xs) (hx : x ∈ xs) : x ≠ e := by
  induction xs generalizing q p with
  | nil => simp at hx
  | cons y xs ih =>
    rcases List.mem_cons.1 hx with rfl | hx
    · exact h.2.1
    · exact ih h.2.2.2 hx

/-- Where it goes on is on the thread. -/
theorem Thread.start_mem (h : Thread e next prev q p xs) (hp : p ≠ e) : p ∈ xs := by
  cases xs with
  | nil => exact absurd h hp
  | cons y xs => exact h.1 ▸ List.mem_cons_self

theorem Thread.congr (h : Thread e next prev q p xs) (hn : ∀ x ∈ xs, next' x = next x)
    (hp : ∀ x ∈ xs, prev' x = prev x) : Thread e next' prev' q p xs := by
  induction xs generalizing q p with
  | nil => exact h
  | cons y xs ih =>
    obtain ⟨hpy, hy, hq, h⟩ := h
    refine ⟨hpy, hy, (hp y List.mem_cons_self).trans hq, ?_⟩
    rw [hn y List.mem_cons_self]
    exact ih h (fun x hx => hn x (List.mem_cons_of_mem y hx)) fun x hx => hp x (List.mem_cons_of_mem y hx)

/-- The first place is told to come after `q'`. -/
theorem Thread.rehead [DecidableEq ι] (h : Thread e next prev q p xs) (hnodup : xs.Nodup)
    (hn : ∀ x ∈ xs, next' x = next x)
    (hp : ∀ x ∈ xs, prev' x = if x = p then q' else prev x) : Thread e next' prev' q' p xs := by
  cases xs with
  | nil => exact h
  | cons y xs =>
    obtain ⟨rfl, hy, -, h⟩ := h
    have hpy := hp p List.mem_cons_self
    rw [if_pos rfl] at hpy
    refine ⟨rfl, hy, hpy, ?_⟩
    rw [hn p List.mem_cons_self]
    refine h.congr (fun x hx => hn x (List.mem_cons_of_mem p hx)) fun x hx => ?_
    rw [hp x (List.mem_cons_of_mem p hx), if_neg]
    rintro rfl
    exact (List.nodup_cons.1 hnodup).1 hx

/-- A place is followed by the end, or by another on the thread. -/
theorem Thread.next_mem (h : Thread e next prev q p xs) (hx : x ∈ xs) : next x = e ∨ next x ∈ xs := by
  induction xs generalizing q p with
  | nil => simp at hx
  | cons y xs ih =>
    rcases List.mem_cons.1 hx with rfl | hx
    · by_cases he : next x = e
      · exact .inl he
      · exact .inr (List.mem_cons_of_mem x (h.2.2.2.start_mem he))
    · exact (ih h.2.2.2 hx).imp_right (List.mem_cons_of_mem y)

/-- The first place comes after `q`, and the others after one on the thread. -/
theorem Thread.prev_mem (h : Thread e next prev q p xs) (hx : x ∈ xs) :
    prev x = q ∧ p = x ∨ prev x ∈ xs := by
  induction xs generalizing q p with
  | nil => simp at hx
  | cons y xs ih =>
    rcases List.mem_cons.1 hx with rfl | hx
    · exact .inl ⟨h.2.2.1, h.1⟩
    · rcases ih h.2.2.2 hx with ⟨hp, -⟩ | hp
      · exact .inr (hp ▸ List.mem_cons_self)
      · exact .inr (List.mem_cons_of_mem y hp)

/-- Only the first place comes after what the thread comes after. -/
theorem Thread.prev_eq_iff (h : Thread e next prev q p xs) (hq : q ∉ xs) (hx : x ∈ xs) :
    prev x = q ↔ p = x := by
  constructor
  · intro hp
    rcases h.prev_mem hx with hx' | hx'
    · exact hx'.2
    · exact absurd (hp ▸ hx') hq
  · rintro rfl
    cases xs with
    | nil => simp at hx
    | cons y xs => exact h.1 ▸ h.2.2.1

variable [DecidableEq ι] {n i : ι}

/-- The places of a thread, `i` for `n`. -/
def moved (n i : ι) (xs : List ι) : List ι := xs.map fun x => if x = n then i else x

@[simp] theorem moved_length : (moved n i xs).length = xs.length := List.length_map _

theorem mem_moved : x ∈ moved n i xs ↔ n ∈ xs ∧ x = i ∨ x ∈ xs ∧ x ≠ n := by
  rw [moved, List.mem_map]
  constructor
  · rintro ⟨y, hy, rfl⟩
    by_cases hyn : y = n
    · exact .inl ⟨hyn ▸ hy, if_pos hyn⟩
    · rw [if_neg hyn]
      exact .inr ⟨hy, hyn⟩
  · rintro (⟨hn, rfl⟩ | ⟨hx, hxn⟩)
    · exact ⟨n, hn, if_pos rfl⟩
    · exact ⟨x, hx, if_neg hxn⟩

theorem moved_of_notMem (hn : n ∉ xs) : moved n i xs = xs :=
  (List.map_congr_left fun _ hx => if_neg (ne_of_mem_of_not_mem hx hn)).trans (List.map_id xs)

theorem moved_nodup (h : xs.Nodup) (hi : i ∉ xs) : (moved n i xs).Nodup := by
  refine List.Nodup.map_on (fun x hx y hy hxy => ?_) h
  by_cases hxn : x = n <;> by_cases hyn : y = n
  · rw [hxn, hyn]
  · rw [if_pos hxn, if_neg hyn] at hxy
    exact absurd (hxy ▸ hy) hi
  · rw [if_neg hxn, if_pos hyn] at hxy
    exact absurd (hxy ▸ hx) hi
  · rwa [if_neg hxn, if_neg hyn] at hxy

/-- What is at `n` goes to `i`, and its neighbours on the thread are told. -/
theorem Thread.move (h : Thread e next prev q p xs) (hnodup : xs.Nodup) (hq : q ∉ xs) (hi : i ≠ e)
    (hn : n ∈ xs) (hni : next' i = next n) (hpi : prev' i = prev n)
    (hnx : ∀ x ∈ xs, x ≠ n → next' x = if x = prev n then i else next x)
    (hpx : ∀ x ∈ xs, x ≠ n → prev' x = if x = next n then i else prev x) :
    Thread e next' prev' q (if p = n then i else p) (moved n i xs) := by
  induction xs generalizing q p with
  | nil => simp at hn
  | cons y xs ih =>
    obtain ⟨rfl, hy, hpy, h⟩ := h
    obtain ⟨hyxs, hxs⟩ := List.nodup_cons.1 hnodup
    rw [moved, List.map_cons, ← moved]
    by_cases hyn : p = n
    · subst hyn
      rw [if_pos rfl, moved_of_notMem hyxs]
      refine ⟨rfl, hi, hpi.trans hpy, ?_⟩
      rw [hni]
      refine h.rehead hxs (fun x hx => ?_) fun x hx =>
        hpx x (List.mem_cons_of_mem p hx) fun he => hyxs (he ▸ hx)
      rw [hnx x (List.mem_cons_of_mem p hx) fun he => hyxs (he ▸ hx), if_neg]
      exact fun he => hq (hpy ▸ he ▸ List.mem_cons_of_mem p hx)
    · have hn' : n ∈ xs := (List.mem_cons.1 hn).resolve_left fun he => hyn he.symm
      have ih := ih h hxs hyxs hn' (fun x hx => hnx x (List.mem_cons_of_mem p hx))
        fun x hx => hpx x (List.mem_cons_of_mem p hx)
      rw [if_neg hyn]
      refine ⟨rfl, hy, ?_, ?_⟩
      · rw [hpx p List.mem_cons_self hyn, if_neg, hpy]
        -- What comes after `n` comes after `p` as well.
        intro he
        rcases h.next_mem hn' with hne | hne
        · exact hy (he.trans hne)
        · exact hyxs (he ▸ hne)
      · rw [hnx p List.mem_cons_self hyn]
        by_cases hpn : next p = n
        · rw [if_pos ((h.prev_eq_iff hyxs hn').2 hpn).symm]
          rwa [if_pos hpn] at ih
        · rw [if_neg fun he => hpn ((h.prev_eq_iff hyxs hn').1 he.symm)]
          rwa [if_neg hpn] at ih

end Threads
