import Mathlib.Data.List.Find
import Mathlib.Data.List.MinMax
import Mathlib.Data.List.TakeWhile
import Mathlib.Order.Defs.LinearOrder
import Mathlib.Tactic.Common

/-!
# Stable priority queues

Entries `(d, x)` come in one after the other; at any time the one to leave is the
*first*: of those with the least `d`, the one that came first.

What is kept is a list `ps` that *sorts* what came, `t` (`Sorts t ps`): by `d`, and among equals
in the order in which they came. An entry that comes goes before those with a greater `d`
(`Sorts.insert`), the first of all is the head (`Sorts.first_eq`), and entries may leave anywhere
(`Sorts.filter`).
-/

namespace Priority

variable {κ α : Type*} [LinearOrder κ]

/-- The first of the entries with the least priority. -/
def first (t : List (κ × α)) : Option (κ × α) := t.find? fun p => ∀ q ∈ t, p.1 ≤ q.1

theorem first_eq_none {t : List (κ × α)} : first t = none ↔ t = [] := by
  constructor
  · intro h
    by_contra hne
    obtain ⟨p, hp⟩ := Option.ne_none_iff_exists'.1 (mt (List.argmin_eq_none (f := Prod.fst)).1 hne)
    exact List.find?_eq_none.1 h p (List.argmin_mem hp)
      (decide_eq_true fun q hq => List.le_of_mem_argmin hq hp)
  · rintro rfl
    rfl

/-- `ps` is `t` in order of priority, and for each priority in the same order. -/
structure Sorts (t ps : List (κ × α)) : Prop where
  sorted : ps.Pairwise fun p q => p.1 ≤ q.1
  stable (d : κ) : ps.filter (·.1 = d) = t.filter (·.1 = d)

namespace Sorts

variable {t ps : List (κ × α)} {p : κ × α}

theorem nil : Sorts ([] : List (κ × α)) [] := ⟨.nil, fun _ => rfl⟩

theorem mem_iff (h : Sorts t ps) : p ∈ ps ↔ p ∈ t := by
  have := congrArg (p ∈ ·) (h.stable p.1)
  simpa using this

/-- Entries leave, wherever they are. -/
theorem filter (h : Sorts t ps) (f : κ × α → Bool) : Sorts (t.filter f) (ps.filter f) where
  sorted := h.sorted.filter f
  stable d := by
    have := congrArg (List.filter f) (h.stable d)
    simpa [List.filter_filter, Bool.and_comm] using this

/-- The entries before which a new one of priority `d` does not go, and the others. -/
def upTo (d : κ) (ps : List (κ × α)) : List (κ × α) := ps.takeWhile (·.1 ≤ d)
def beyond (d : κ) (ps : List (κ × α)) : List (κ × α) := ps.dropWhile (·.1 ≤ d)

theorem upTo_append (d : κ) (ps : List (κ × α)) : upTo d ps ++ beyond d ps = ps :=
  List.takeWhile_append_dropWhile

theorem le_of_mem_upTo {d : κ} (h : p ∈ upTo d ps) : p.1 ≤ d := by
  simpa using List.mem_takeWhile_imp h

theorem lt_of_mem_beyond (h : Sorts t ps) {d : κ} (hp : p ∈ beyond d ps) : d < p.1 := by
  have hsorted : (beyond d ps).Pairwise fun p q => p.1 ≤ q.1 :=
    h.sorted.sublist (List.dropWhile_sublist _)
  have hhead := List.head?_dropWhile_not (fun q : κ × α => decide (q.1 ≤ d)) ps
  cases hb : beyond d ps with
  | nil => simp [hb] at hp
  | cons q qs =>
    rw [hb] at hp hsorted
    rw [show ps.dropWhile (fun q => decide (q.1 ≤ d)) = q :: qs from hb] at hhead
    have hq : d < q.1 := by simpa using hhead
    rcases List.mem_cons.1 hp with rfl | hp
    · exact hq
    · exact hq.trans_le ((List.pairwise_cons.1 hsorted).1 p hp)

/-- An entry comes. -/
theorem insert (h : Sorts t ps) (p : κ × α) :
    Sorts (t ++ [p]) (upTo p.1 ps ++ p :: beyond p.1 ps) where
  sorted := by
    refine List.pairwise_append.2 ⟨h.sorted.sublist (List.takeWhile_sublist _), ?_, ?_⟩
    · exact List.pairwise_cons.2 ⟨fun q hq => (h.lt_of_mem_beyond hq).le,
        h.sorted.sublist (List.dropWhile_sublist _)⟩
    · intro a ha b hb
      rcases List.mem_cons.1 hb with rfl | hb
      · exact le_of_mem_upTo ha
      · exact (le_of_mem_upTo ha).trans (h.lt_of_mem_beyond hb).le
  stable d := by
    have hps := h.stable d
    rw [← upTo_append p.1 ps, List.filter_append] at hps
    by_cases hd : p.1 = d
    · -- It comes after all those of its own priority.
      have hnil : (beyond p.1 ps).filter (·.1 = d) = [] :=
        List.filter_eq_nil_iff.2 fun q hq => by
          simpa [← hd] using (h.lt_of_mem_beyond hq).ne'
      rw [hnil, List.append_nil] at hps
      rw [List.filter_append, List.filter_append, hps, List.filter_cons_of_pos (by simpa using hd),
        hnil]
      simp [hd]
    · simp [hd, hps]

/-- The head is the first of all. -/
theorem first_eq (h : Sorts t ps) : first t = ps.head? := by
  cases ps with
  | nil =>
    have ht : t = [] := List.eq_nil_iff_forall_not_mem.2 fun p hp => by simpa using h.mem_iff.2 hp
    rw [ht]
    rfl
  | cons p ps =>
    have hmin : ∀ q ∈ t, p.1 ≤ q.1 := fun q hq => by
      rcases List.mem_cons.1 (h.mem_iff.2 hq) with rfl | hq
      · exact le_rfl
      · exact (List.pairwise_cons.1 h.sorted).1 q hq
    have hp : p ∈ t := h.mem_iff.1 List.mem_cons_self
    have hpred : ∀ q ∈ t, ((∀ r ∈ t, q.1 ≤ r.1) ↔ q.1 = p.1) := fun q hq =>
      ⟨fun hle => le_antisymm (hle p hp) (hmin q hq), fun he r hr => he ▸ hmin r hr⟩
    have hfind : first t = t.find? (·.1 = p.1) :=
      List.find?_congr fun q hq => decide_eq_decide.2 (hpred q hq)
    rw [hfind, ← List.head?_filter, ← h.stable]
    simp

end Sorts

end Priority
