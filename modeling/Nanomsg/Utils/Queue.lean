import Mathlib.Data.List.Nodup
import Nanomsg.Fault
import Nanomsg.Lib.Link

/-!
# `nn_queue`

`queue.c`: singly linked queues whose items are fields of the queued objects.
All the queues `κ` of the process and all the objects `ι` that may be queued
form one store (`Queues`). `NN_QUEUE_NOTINQUEUE` is the mark `Link.out`.

`Holds q a` says that the store `q` is well formed and that the queue `k` holds
`a k`: an object is in at most one queue, and bears the mark exactly when it is
in none. Pushing appends (`push_spec`), popping takes the first (`pop_spec`),
and copying the struct of a queue before emptying it moves its contents
(`take_spec`), the links of the items not being touched.
-/

namespace Nanomsg

open Intrusive Function

variable {κ ι : Type}

/-- The `struct nn_queue` of every queue, and the `struct nn_queue_item` of
    every object. -/
structure Queues (κ ι : Type) where
  head : κ → Link ι
  tail : κ → Link ι
  next : ι → Link ι

namespace Queues

variable (q : Queues κ ι)

/-- `nn_queue_init`. -/
def init [DecidableEq κ] (k : κ) : Queues κ ι :=
  { q with head := update q.head k Link.null, tail := update q.tail k Link.null }

/-- The struct of the queue `k` is copied into `k'`, and `k` initialised anew. -/
def take [DecidableEq κ] (k k' : κ) : Queues κ ι :=
  init { q with head := update q.head k' (q.head k), tail := update q.tail k' (q.tail k) } k

variable [DecidableEq ι]

/-- `nn_queue_empty`. -/
def empty (k : κ) : Bool := if q.head k = .null then true else false

/-- `nn_queue_item_isinqueue`. -/
def itemIsinqueue (x : ι) : Bool := if q.next x = .out then false else true

/-- `if (it) it->next = v`. -/
def linkNext (it v : Link ι) : Except Fault (Queues κ ι) :=
  match it with
  | .null => .ok q
  | .out => .error .wildPointer
  | .node x => .ok { q with next := update q.next x v }

variable [DecidableEq κ]

/-- `nn_queue_push`. -/
def push (k : κ) (x : ι) : Except Fault (Queues κ ι) := do
  nnAssert (!q.itemIsinqueue x)
  let q := { q with next := update q.next x Link.null }
  let q := { q with head := if q.head k = Link.null then update q.head k (Link.node x) else q.head }
  let q ← q.linkNext (q.tail k) (.node x)
  pure { q with tail := update q.tail k (Link.node x) }

/-- `nn_queue_pop`: the item taken off, if any. -/
def pop (k : κ) : Except Fault (Queues κ ι × Option ι) :=
  match q.head k with
  | .null => .ok (q, none)
  | .out => .error .wildPointer
  | .node x =>
    let q := { q with head := update q.head k (q.next x) }
    let q := { q with tail := if q.head k = Link.null then update q.tail k Link.null else q.tail }
    .ok ({ q with next := update q.next x Link.out }, some x)

/-- The loop of `nn_queue_remove`, at the item `it`, which `prev` precedes. -/
def removeFrom (k : κ) (x : ι) : ℕ → Link ι → Link ι → Except Fault (Queues κ ι)
  | 0, _, _ => .error .diverges
  | _ + 1, _, .null => .ok q
  | _ + 1, _, .out => .error .wildPointer
  | n + 1, prev, .node y =>
    if y = x then
      let q := { q with head := if q.head k = Link.node y then update q.head k (q.next y) else q.head }
      let q := { q with tail := if q.tail k = Link.node y then update q.tail k prev else q.tail }
      let q := { q with next := write q.next prev (q.next y) }
      .ok { q with next := update q.next y Link.out }
    else
      removeFrom k x n (.node y) (q.next y)

/-- `nn_queue_remove`, the queue having fewer than `n` items. -/
def remove (n : ℕ) (k : κ) (x : ι) : Except Fault (Queues κ ι) :=
  if q.next x = .out then .ok q else q.removeFrom k x n .null (q.head k)

end Queues

/-- The object `x` is in the queue `k`. -/
def Queues.Has (q : Queues κ ι) (k : κ) (x : ι) : Prop :=
  ∃ xs, Chain q.next (q.head k) xs .null ∧ x ∈ xs

/-! ## Well-formed queues -/

/-- An object is at most once in at most one of the lists. -/
structure Separate (a : κ → List ι) : Prop where
  nodup : ∀ k, (a k).Nodup
  disjoint : ∀ {k k' x}, x ∈ a k → x ∈ a k' → k = k'

namespace Separate

variable [DecidableEq κ] {a : κ → List ι} {x : ι} {xs : List ι} {k k' : κ}

/-- Replacing a list by one that brings nothing of the others. -/
theorem replace (h : Separate a) (hn : xs.Nodup)
    (hd : ∀ x ∈ xs, x ∈ a k ∨ ∀ j, x ∉ a j) : Separate (update a k xs) := by
  have hk : ∀ {j x}, x ∈ xs → j ≠ k → x ∉ a j := fun hx hj hm =>
    (hd _ hx).elim (fun hm' => hj (h.disjoint hm hm')) fun hno => hno _ hm
  refine ⟨fun j => ?_, fun {i j y} hi hj => ?_⟩
  · by_cases hj : j = k
    · subst hj; simpa using hn
    · simpa [update_of_ne hj] using h.nodup j
  · by_cases hik : i = k <;> by_cases hjk : j = k
    · exact hik.trans hjk.symm
    · subst hik
      rw [update_self] at hi
      rw [update_of_ne hjk] at hj
      exact absurd hj (hk hi hjk)
    · subst hjk
      rw [update_self] at hj
      rw [update_of_ne hik] at hi
      exact absurd hi (hk hj hik)
    · rw [update_of_ne hik] at hi
      rw [update_of_ne hjk] at hj
      exact h.disjoint hi hj

/-- Appending an object of no list. -/
theorem concat (h : Separate a) (hx : ∀ j, x ∉ a j) : Separate (update a k (a k ++ [x])) := by
  refine h.replace ?_ fun y hy => ?_
  · rw [List.nodup_append]
    exact ⟨h.nodup k, List.nodup_singleton x, fun y hy z hz he => hx k (by simp_all)⟩
  · rcases List.mem_append.1 hy with hy | hy
    · exact .inl hy
    · exact .inr (List.mem_singleton.1 hy ▸ hx)

end Separate

/-- The store `q` is well formed, the queue `k` holding `a k`. -/
structure Holds (q : Queues κ ι) (a : κ → List ι) : Prop where
  separate : Separate a
  chain : ∀ k, Chain q.next (q.head k) (a k) .null
  tail : ∀ k, q.tail k = Link.head (a k).reverse
  out_iff : ∀ x, q.next x = .out ↔ ∀ k, x ∉ a k

namespace Holds

variable {q : Queues κ ι} {a : κ → List ι} {x : ι} {xs : List ι} {k k' : κ}

theorem head_eq (h : Holds q a) (k : κ) : q.head k = Link.head (a k) := (h.chain k).eq_head

theorem has_iff (h : Holds q a) : q.Has k x ↔ x ∈ a k :=
  ⟨fun ⟨_, hc, hx⟩ => hc.unique (h.chain k) ▸ hx, fun hx => ⟨a k, h.chain k, hx⟩⟩

variable [DecidableEq ι]

theorem isinqueue_iff (h : Holds q a) : q.itemIsinqueue x = true ↔ ∃ k, x ∈ a k := by
  have := h.out_iff x
  rw [Queues.itemIsinqueue]
  split <;> simp_all

theorem isinqueue_eq_false (h : Holds q a) : q.itemIsinqueue x = false ↔ ∀ k, x ∉ a k := by
  rw [← Bool.not_eq_true, h.isinqueue_iff, not_exists]

theorem empty_eq (h : Holds q a) (k : κ) : q.empty k = (a k).isEmpty := by
  rw [Queues.empty, h.head_eq]
  cases a k <;> simp

variable [DecidableEq κ]

/-- Pushing appends to the queue. -/
theorem push_spec (h : Holds q a) (hx : ∀ j, x ∉ a j) (k : κ) :
    ∃ q', q.push k x = .ok q' ∧ Holds q' (update a k (a k ++ [x])) := by
  -- The links after the push, and the chain they form out of `k`.
  have hc : Chain (write (update q.next x .null) (Link.head (a k).reverse) (.node x))
      (if a k = [] then .node x else q.head k) (a k ++ [x]) .null :=
    Chain.link (show Chain q.next (q.head k) (a k ++ []) .null by simpa using h.chain k)
      (by simpa using h.separate.nodup k)
      (by simpa using hx k)
  refine ⟨⟨update q.head k (if a k = [] then .node x else q.head k), update q.tail k (.node x),
    write (update q.next x .null) (Link.head (a k).reverse) (.node x)⟩,
    ?_, h.separate.concat hx, fun j => ?_, fun j => ?_, fun y => ?_⟩
  · have hq := h.isinqueue_eq_false.2 hx
    cases hl : (a k).reverse with
    | nil =>
      rw [List.reverse_eq_nil_iff] at hl
      simp [Queues.push, hq, h.head_eq, h.tail, hl, Queues.linkNext, write]
    | cons y ys =>
      have hne : a k ≠ [] := fun he => by simp [he] at hl
      have hhd : q.head k ≠ .null := fun he => hne (Link.head_eq_null.1 ((h.head_eq k).symm.trans he))
      simp [Queues.push, hq, h.tail, hl, Queues.linkNext, write, hne, hhd]
  · by_cases hj : j = k
    · subst hj
      simpa using hc
    · simp only [update_of_ne hj]
      refine (h.chain j).congr fun y hy => ?_
      have hyk : y ∉ (a k).reverse := fun hm => hj (h.separate.disjoint hy (List.mem_reverse.1 hm))
      have hyx : y ≠ x := fun he => hx j (he ▸ hy)
      rw [write_head_of_not_mem hyk, update_of_ne hyx]
  · by_cases hj : j = k
    · subst hj; simp
    · simp [update_of_ne hj, h.tail]
  · constructor
    · intro hy j hm
      by_cases hj : j = k
      · subst hj
        exact hc.ne_out (by simp) (by simpa using hm) hy
      · rw [update_of_ne hj] at hm
        have hyk : y ∉ (a k).reverse := fun hm' =>
          hj (h.separate.disjoint hm (List.mem_reverse.1 hm'))
        have hyx : y ≠ x := fun he => hx j (he ▸ hm)
        dsimp only at hy
        rw [write_head_of_not_mem hyk, update_of_ne hyx] at hy
        exact (h.out_iff y).1 hy j hm
    · intro hy
      have hyk := hy k
      rw [update_self, List.mem_append, List.mem_singleton, not_or] at hyk
      dsimp only
      rw [write_head_of_not_mem (by simpa using hyk.1), update_of_ne hyk.2, h.out_iff]
      intro j hm
      by_cases hj : j = k
      · exact hyk.1 (hj ▸ hm)
      · exact hy j (by rwa [update_of_ne hj])

omit [DecidableEq ι] in
/-- Initialising an empty queue changes nothing. -/
theorem init_eq (h : Holds q a) (hk : a k = []) : q.init k = q := by
  have hhead := h.head_eq k
  have htail := h.tail k
  rw [hk] at hhead htail
  rw [Queues.init, update_eq_self_iff.2 hhead.symm, update_eq_self_iff.2 htail.symm]

/-- Popping an empty queue. -/
theorem pop_nil (h : Holds q a) (hk : a k = []) : q.pop k = .ok (q, none) := by
  simp [Queues.pop, h.head_eq, hk]

/-- Popping takes the first object off the queue. -/
theorem pop_cons (h : Holds q a) (hk : a k = x :: xs) :
    ∃ q', q.pop k = .ok (q', some x) ∧ Holds q' (update a k xs) := by
  have hxk : x ∈ a k := hk ▸ List.mem_cons_self
  have hx : x ∉ xs := (List.nodup_cons.1 (hk ▸ h.separate.nodup k)).1
  have hc := hk ▸ h.chain k
  have htl : (if q.next x = .null then update q.tail k Link.null else q.tail) =
      update q.tail k (Link.head xs.reverse) := by
    rcases List.eq_nil_or_concat' xs with rfl | ⟨ys, y, rfl⟩
    · simp [hc.2.eq_head]
    · rw [if_neg (by simp [hc.2.eq_head, Link.head_eq_null]), eq_comm, update_eq_self_iff,
        h.tail, hk]
      simp
  refine ⟨⟨update q.head k (q.next x), update q.tail k (Link.head xs.reverse),
    update q.next x .out⟩, ?_, ?_, fun j => ?_, fun j => ?_, fun y => ?_⟩
  · simp only [Queues.pop, h.head_eq, hk, Link.head_cons, update_self, htl]
  · refine h.separate.replace (List.nodup_cons.1 (hk ▸ h.separate.nodup k)).2 fun y hy => .inl ?_
    exact hk ▸ List.mem_cons_of_mem x hy
  · by_cases hj : j = k
    · subst hj
      simpa using hc.2.update hx
    · simp only [update_of_ne hj]
      exact (h.chain j).update fun hm => hj (h.separate.disjoint hm hxk)
  · by_cases hj : j = k
    · subst hj; simp
    · simp [update_of_ne hj, h.tail]
  · by_cases hy : y = x
    · subst hy
      refine ⟨fun _ j hm => ?_, fun _ => update_self _ _ _⟩
      by_cases hj : j = k
      · subst hj; exact hx (by simpa using hm)
      · exact hj (h.separate.disjoint (by rwa [update_of_ne hj] at hm) hxk)
    · simp only [update_of_ne hy, h.out_iff]
      refine forall_congr' fun j => not_congr ?_
      by_cases hj : j = k
      · subst hj; simp [hk, hy]
      · rw [update_of_ne hj]

omit [DecidableEq ι] in
/-- Copying the struct of a queue to an empty one, then initialising it, moves
    its contents. -/
theorem take_spec (h : Holds q a) (hne : k ≠ k') (hk : a k' = []) :
    Holds (q.take k k') (update (update a k' (a k)) k []) := by
  have hmem : ∀ {j x}, x ∈ update (update a k' (a k)) k [] j →
      x ∈ a (if j = k' then k else j) := by
    intro j x hm
    by_cases hj : j = k
    · subst hj; simp at hm
    · rw [update_of_ne hj] at hm
      by_cases hj' : j = k'
      · subst hj'; simpa using hm
      · simpa [update_of_ne hj', hj'] using hm
  refine ⟨⟨fun j => ?_, fun {i j x} hi hj => ?_⟩, fun j => ?_, fun j => ?_, fun y => ?_⟩
  · by_cases hj : j = k
    · subst hj; simp
    · by_cases hj' : j = k'
      · subst hj'; simpa [update_of_ne hj] using h.separate.nodup k
      · simpa [update_of_ne hj, update_of_ne hj'] using h.separate.nodup j
  · have hd := h.separate.disjoint (hmem hi) (hmem hj)
    have hik : i ≠ k := fun he => by simp [he] at hi
    have hjk : j ≠ k := fun he => by simp [he] at hj
    by_cases hi' : i = k' <;> by_cases hj' : j = k'
    · exact hi'.trans hj'.symm
    · rw [if_pos hi', if_neg hj'] at hd; exact absurd hd.symm hjk
    · rw [if_neg hi', if_pos hj'] at hd; exact absurd hd hik
    · rwa [if_neg hi', if_neg hj'] at hd
  · by_cases hj : j = k
    · subst hj; simp [Queues.take, Queues.init]
    · by_cases hj' : j = k'
      · subst hj'; simpa [Queues.take, Queues.init, update_of_ne hj] using h.chain k
      · simpa [Queues.take, Queues.init, update_of_ne hj, update_of_ne hj'] using h.chain j
  · by_cases hj : j = k
    · subst hj; simp [Queues.take, Queues.init]
    · by_cases hj' : j = k'
      · subst hj'; simpa [Queues.take, Queues.init, update_of_ne hj] using h.tail k
      · simpa [Queues.take, Queues.init, update_of_ne hj, update_of_ne hj'] using h.tail j
  · rw [show (q.take k k').next = q.next from rfl, h.out_iff]
    refine ⟨fun hy j hm => hy _ (hmem hm), fun hy j hm => ?_⟩
    by_cases hj : j = k
    · subst hj
      exact hy k' (by simpa [update_of_ne hne.symm] using hm)
    · have hj' : j ≠ k' := fun he => by simp [he, hk] at hm
      exact hy j (by simpa [update_of_ne hj, update_of_ne hj'] using hm)

/-! ### Removing -/

variable {as bs : List ι} {n : ℕ}

/-- What unlinking an object of a queue leaves. -/
theorem unlink (h : Holds q a) (hk : a k = as ++ x :: bs) :
    Holds ⟨if q.head k = .node x then update q.head k (q.next x) else q.head,
      if q.tail k = .node x then update q.tail k (Link.head as.reverse) else q.tail,
      update (write q.next (Link.head as.reverse) (q.next x)) x .out⟩
      (update a k (as ++ bs)) := by
  have hn : (as ++ x :: bs).Nodup := hk ▸ h.separate.nodup k
  have hmid := List.nodup_cons.1 (List.nodup_middle.1 hn)
  have hchain : Chain q.next (q.head k) (as ++ x :: bs) .null := hk ▸ h.chain k
  obtain ⟨_, _, hx⟩ := chain_append.1 hchain
  have hnext : q.next x = Link.head bs := hx.2.eq_head
  have hmem : ∀ y ∈ as ++ bs, y ∈ a k := fun y hy => by
    rw [hk]
    simp only [List.mem_append, List.mem_cons] at hy ⊢
    tauto
  have hhead : (if q.head k = .node x then update q.head k (q.next x) else q.head) k =
      if as = [] then Link.head bs else q.head k := by
    rw [h.head_eq, hk]
    cases as with
    | nil => simp [hnext]
    | cons y as =>
      have : y ≠ x := fun he => hmid.1 (by simp [he])
      simp [this, h.head_eq, hk]
  have hnew := (hchain.unlink hn).update (m := .out) hmid.1
  rw [← hnext] at hnew
  refine ⟨h.separate.replace hmid.2 fun y hy => .inl (hmem y hy), fun j => ?_, fun j => ?_,
    fun y => ?_⟩
  · by_cases hj : j = k
    · subst hj
      rw [← hnext] at hhead
      simp only [update_self, hhead]
      exact hnew
    · have hhj : (if q.head k = .node x then update q.head k (q.next x) else q.head) j = q.head j := by
        split
        · exact update_of_ne hj _ _
        · rfl
      simp only [update_of_ne hj, hhj]
      refine (h.chain j).congr fun y hy => ?_
      have hyk : y ∉ as ++ x :: bs := fun hm => hj (h.separate.disjoint hy (hk ▸ hm))
      simp only [List.mem_append, List.mem_cons, not_or] at hyk
      rw [update_of_ne hyk.2.1, write_head_of_not_mem (by simpa using hyk.1)]
  · by_cases hj : j = k
    · subst hj
      rw [update_self]
      have htl := h.tail j
      rw [hk] at htl
      rcases List.eq_nil_or_concat' bs with rfl | ⟨bs, b, rfl⟩
      · simp [htl]
      · have hb : b ≠ x := fun he => hmid.1 (by simp [he])
        simp [htl, hb]
    · rw [update_of_ne hj, ← h.tail j]
      dsimp only
      split
      · exact update_of_ne hj _ _
      · rfl
  · by_cases hy : y = x
    · subst hy
      refine ⟨fun _ j hm => ?_, fun _ => update_self _ _ _⟩
      by_cases hj : j = k
      · subst hj
        exact hmid.1 (by simpa using hm)
      · have hyk : y ∈ a k := by simp [hk]
        exact hj (h.separate.disjoint (by rwa [update_of_ne hj] at hm) hyk)
    · have hlists : (∀ j, y ∉ update a k (as ++ bs) j) ↔ ∀ j, y ∉ a j := by
        refine forall_congr' fun j => not_congr ?_
        by_cases hj : j = k
        · subst hj
          simp [hk, hy]
        · rw [update_of_ne hj]
      rw [hlists, ← h.out_iff]
      show update (write q.next (Link.head as.reverse) (q.next x)) x Link.out y = Link.out ↔ _
      by_cases hyk : y ∈ as ++ bs
      · -- It stays in the queue, whatever it is linked to.
        have hno : q.next y ≠ .out := fun ho => (h.out_iff y).1 ho k (hmem y hyk)
        exact iff_of_false (hnew.ne_out (by simp) hyk) hno
      · simp only [List.mem_append, not_or] at hyk
        rw [update_of_ne hy, write_head_of_not_mem (by simpa using hyk.1)]

/-- The loop takes the object off if it comes to it. -/
theorem removeFrom_mem (h : Holds q a) (hk : a k = as ++ xs) (hx : x ∈ xs) (hn : xs.length < n) :
    ∃ q', q.removeFrom k x n (Link.head as.reverse) (Link.head xs) = .ok q' ∧
      Holds q' (update a k ((a k).erase x)) := by
  induction xs generalizing as n with
  | nil => exact absurd hx List.not_mem_nil
  | cons y xs ih =>
    obtain ⟨n, rfl⟩ := Nat.exists_eq_succ_of_ne_zero (Nat.ne_of_gt (Nat.zero_lt_of_lt hn))
    have hnd := hk ▸ h.separate.nodup k
    by_cases hy : y = x
    · subst hy
      have hya : y ∉ as := fun hm =>
        (List.nodup_cons.1 (List.nodup_middle.1 hnd)).1 (List.mem_append_left _ hm)
      have hun := h.unlink hk
      rw [hk, List.erase_append_right _ hya, List.erase_cons_head]
      refine ⟨_, ?_, hun⟩
      simp [Queues.removeFrom]
    · have hchain : Chain q.next (q.head k) (as ++ y :: xs) .null := hk ▸ h.chain k
      obtain ⟨_, _, hc⟩ := chain_append.1 hchain
      have hk' : a k = (as ++ [y]) ++ xs := by simp [hk]
      obtain ⟨q', hr, h'⟩ := ih hk'
        ((List.mem_cons.1 hx).resolve_left fun he => hy he.symm) (Nat.lt_of_succ_lt_succ hn)
      refine ⟨q', ?_, h'⟩
      rw [List.reverse_append, List.reverse_singleton] at hr
      simp only [Link.head_cons, Queues.removeFrom, if_neg hy, hc.2.eq_head]
      exact hr

omit [DecidableEq κ] in
/-- The loop does nothing if it does not come to the object. -/
theorem removeFrom_not_mem [DecidableEq κ] (h : Chain q.next (Link.head xs) xs .null) (hx : x ∉ xs)
    (hn : xs.length < n) (p : Link ι) :
    q.removeFrom k x n p (Link.head xs) = .ok q := by
  induction xs generalizing p n with
  | nil =>
    obtain ⟨n, rfl⟩ := Nat.exists_eq_succ_of_ne_zero (Nat.ne_of_gt hn)
    rfl
  | cons y xs ih =>
    obtain ⟨n, rfl⟩ := Nat.exists_eq_succ_of_ne_zero (Nat.ne_of_gt (Nat.zero_lt_of_lt hn))
    have hy : y ≠ x := fun he => hx (he ▸ List.mem_cons_self)
    have hnext : q.next y = Link.head xs := h.2.eq_head
    simp only [Link.head_cons, Queues.removeFrom, if_neg hy, hnext]
    exact ih (hnext ▸ h.2) (fun hm => hx (List.mem_cons_of_mem y hm)) (Nat.lt_of_succ_lt_succ hn) _

/-- Nothing is done if the object is not in the queue, even if it is in another one. -/
theorem remove_not_mem (h : Holds q a) (hn : (a k).length < n) (hx : x ∉ a k) :
    q.remove n k x = .ok q := by
  have hhead := h.head_eq k
  rw [Queues.remove]
  split
  · rfl
  · rw [hhead]
    exact removeFrom_not_mem (hhead ▸ h.chain k) hx hn _

/-- Removing takes the object off the queue, if it is there. -/
theorem remove_spec (h : Holds q a) (hn : (a k).length < n) (x : ι) :
    ∃ q', q.remove n k x = .ok q' ∧ Holds q' (update a k ((a k).erase x)) := by
  by_cases hx : x ∈ a k
  · have hout : q.next x ≠ .out := fun ho => (h.out_iff x).1 ho k hx
    have hk : a k = [] ++ a k := rfl
    obtain ⟨q', hr, h'⟩ := h.removeFrom_mem hk hx hn
    exact ⟨q', by rw [Queues.remove, if_neg hout, h.head_eq k]; exact hr, h'⟩
  · refine ⟨q, h.remove_not_mem hn hx, ?_⟩
    rwa [List.erase_of_not_mem hx, update_eq_self]

end Holds

end Nanomsg
