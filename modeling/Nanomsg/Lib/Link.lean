import Mathlib.Data.List.Basic
import Mathlib.Logic.Function.Basic
import Mathlib.Tactic.Common

/-!
# Intrusive lists

In an *intrusive* list the links are fields of the elements themselves: a heap
maps every node to its link field (`f : ι → Link ι`), and a list is nothing but
the link to its first node. A link is the end of a list, a mark saying that its
node is in no list, or a node.

`Chain f p xs q`: following the links of `f` from `p` visits the nodes `xs` in
order and arrives at `q`. What the proofs about pointer code need of it:

* it splits where the list does (`chain_append`, `chain_concat`);
* it does not see a write to a node off the list (`Chain.update`);
* writing the link of its last node moves its end (`Chain.relink`);
* the nodes are determined by the links (`Chain.unique`), and none of them
  bears the mark (`Chain.ne_out`);
* a node is taken out by writing its link to its predecessor (`Chain.unlink`),
  and put in by writing two links (`Chain.link`).
-/

namespace Intrusive

variable {ι : Type*}

/-- A link field. -/
inductive Link (ι : Type*)
  /-- The end of a list. -/
  | null
  /-- The mark of a node in no list. -/
  | out
  | node (x : ι)
  deriving DecidableEq

/-- The link to the first of `xs`. -/
def Link.head : List ι → Link ι
  | [] => null
  | x :: _ => node x

@[simp] theorem Link.head_nil : Link.head ([] : List ι) = null := rfl
@[simp] theorem Link.head_cons (x : ι) (xs : List ι) : Link.head (x :: xs) = node x := rfl

theorem Link.head_eq_null {xs : List ι} : Link.head xs = null ↔ xs = [] := by
  cases xs <;> simp

theorem Link.head_eq_head {xs ys : List ι} : Link.head xs = Link.head ys ↔ xs.head? = ys.head? := by
  cases xs <;> cases ys <;> simp

theorem Link.mem_of_head_eq {xs : List ι} {x : ι} (h : Link.head xs = node x) : x ∈ xs := by
  cases xs with
  | nil => simp at h
  | cons y ys => exact Link.node.inj h ▸ List.mem_cons_self

/-- Following the links of `f` from `p` visits `xs` and arrives at `q`. -/
def Chain (f : ι → Link ι) : Link ι → List ι → Link ι → Prop
  | p, [], q => p = q
  | p, x :: xs, q => p = .node x ∧ Chain f (f x) xs q

variable {f : ι → Link ι} {p q m : Link ι} {x : ι} {xs ys : List ι}

@[simp] theorem chain_nil : Chain f p [] q ↔ p = q := Iff.rfl
@[simp] theorem chain_cons : Chain f p (x :: xs) q ↔ p = .node x ∧ Chain f (f x) xs q := Iff.rfl

theorem chain_append : Chain f p (xs ++ ys) q ↔ ∃ m, Chain f p xs m ∧ Chain f m ys q := by
  induction xs generalizing p with
  | nil => exact ⟨fun h => ⟨p, rfl, h⟩, fun ⟨_, hm, h⟩ => hm ▸ h⟩
  | cons x xs ih =>
    simp only [List.cons_append, chain_cons, ih]
    exact ⟨fun ⟨hp, m, h⟩ => ⟨m, ⟨hp, h.1⟩, h.2⟩, fun ⟨m, h, h'⟩ => ⟨h.1, m, h.2, h'⟩⟩

theorem chain_concat : Chain f p (xs ++ [x]) q ↔ Chain f p xs (.node x) ∧ f x = q := by
  rw [chain_append]
  exact ⟨fun ⟨_, h, hm, hq⟩ => ⟨hm ▸ h, hq⟩, fun ⟨h, hq⟩ => ⟨_, h, rfl, hq⟩⟩

/-- A chain starts at its first node. -/
theorem Chain.eq_head (h : Chain f p xs .null) : p = Link.head xs := by
  cases xs with
  | nil => exact h
  | cons x xs => exact h.1

/-- A chain only depends on the links of its nodes. -/
theorem Chain.congr {g : ι → Link ι} (hg : ∀ x ∈ xs, g x = f x) (h : Chain f p xs q) :
    Chain g p xs q := by
  induction xs generalizing p with
  | nil => exact h
  | cons x xs ih =>
    refine ⟨h.1, ?_⟩
    rw [hg x List.mem_cons_self]
    exact ih (fun y hy => hg y (List.mem_cons_of_mem x hy)) h.2

/-- The links determine the nodes. -/
theorem Chain.unique (h : Chain f p xs .null) (h' : Chain f p ys .null) : xs = ys := by
  induction xs generalizing p ys with
  | nil =>
    cases ys with
    | nil => rfl
    | cons y ys => exact absurd (h.symm.trans h'.1) (by simp)
  | cons x xs ih =>
    cases ys with
    | nil => exact absurd (h.1.symm.trans h') (by simp)
    | cons y ys =>
      obtain rfl : x = y := Link.node.inj (h.1.symm.trans h'.1)
      rw [ih h.2 h'.2]

/-- A node of a chain bears no mark. -/
theorem Chain.ne_out (h : Chain f p xs q) (hq : q ≠ .out) (hx : x ∈ xs) : f x ≠ .out := by
  induction xs generalizing p with
  | nil => exact absurd hx List.not_mem_nil
  | cons y ys ih =>
    rcases List.mem_cons.1 hx with rfl | hx'
    · cases ys with
      | nil => exact h.2 ▸ hq
      | cons z zs => rw [h.2.1]; simp
    · exact ih h.2 hx'

variable [DecidableEq ι]

open Function

/-- A write to a node off the chain. -/
theorem Chain.update (hx : x ∉ xs) (h : Chain f p xs q) : Chain (update f x m) p xs q :=
  h.congr fun y hy => update_of_ne (fun he : y = x => hx (he ▸ hy)) _ _

/-- A write to the last node of a chain moves its end. -/
theorem Chain.relink (hx : x ∉ xs) (h : Chain f p (xs ++ [x]) q) :
    Chain (Function.update f x m) p (xs ++ [x]) m :=
  chain_concat.2 ⟨(chain_concat.1 h).1.update hx, update_self _ _ _⟩

/-! ### Linking and unlinking a node -/

/-- Writing `v` to the node `p` points to, if it points to one. -/
def write (f : ι → Link ι) (p v : Link ι) : ι → Link ι :=
  match p with
  | .node x => Function.update f x v
  | _ => f

theorem write_of_ne {v : Link ι} (h : p ≠ .node x) : write f p v x = f x := by
  cases p with
  | node y => exact update_of_ne (fun he : x = y => h (he ▸ rfl)) _ _
  | _ => rfl

/-- Writing through a link to one of `xs` only touches `xs`. -/
theorem write_head_of_not_mem {v : Link ι} (hx : x ∉ xs) : write f (Link.head xs) v x = f x := by
  apply write_of_ne
  cases xs with
  | nil => simp
  | cons y ys => exact fun h => hx (Link.node.inj h ▸ List.mem_cons_self)

variable {as bs : List ι}

/-- Taking `x` out of a chain: what pointed to it now points to what follows it. -/
theorem Chain.unlink (h : Chain f p (as ++ x :: bs) .null) (hn : (as ++ x :: bs).Nodup) :
    Chain (write f (Link.head as.reverse) (Link.head bs)) (if as = [] then Link.head bs else p)
      (as ++ bs) .null := by
  obtain ⟨_, ha, rfl, hb⟩ := chain_append.1 h
  rcases List.eq_nil_or_concat' as with rfl | ⟨as, a, rfl⟩
  · exact hb.eq_head ▸ hb
  · rw [List.nodup_append] at hn
    have ha' : a ∉ as := fun ham => (List.nodup_append.1 hn.1).2.2 a ham a (by simp) rfl
    have hb' : a ∉ bs := fun hab => hn.2.2 a (by simp) a (List.mem_cons_of_mem x hab) rfl
    rw [if_neg (by simp), show (as ++ [a]).reverse = a :: as.reverse by simp]
    exact chain_append.2 ⟨_, ha.relink ha', hb.eq_head ▸ hb.update hb'⟩

/-- Putting `x` into a chain, between `as` and `bs`. -/
theorem Chain.link (h : Chain f p (as ++ bs) .null) (hn : (as ++ bs).Nodup) (hx : x ∉ as ++ bs) :
    Chain (write (Function.update f x (Link.head bs)) (Link.head as.reverse) (.node x))
      (if as = [] then .node x else p) (as ++ x :: bs) .null := by
  obtain ⟨m, ha, hb⟩ := chain_append.1 h
  rw [List.mem_append, not_or] at hx
  rcases List.eq_nil_or_concat' as with rfl | ⟨as, a, rfl⟩
  · exact ⟨rfl, by rw [write_of_ne (by simp), update_self]; exact hb.eq_head ▸ hb.update hx.2⟩
  · rw [List.nodup_append] at hn
    have ha' : a ∉ as := fun ham => (List.nodup_append.1 hn.1).2.2 a ham a (by simp) rfl
    have hb' : a ∉ bs := fun hab => hn.2.2 a (by simp) a hab rfl
    have hxa : x ≠ a := fun he => hx.1 (he ▸ by simp)
    rw [if_neg (by simp), show (as ++ [a]).reverse = a :: as.reverse by simp,
      Link.head_cons]
    refine chain_append.2 ⟨.node x, (ha.update hx.1).relink ha', rfl, ?_⟩
    rw [write_of_ne (fun he => hxa (Link.node.inj he).symm), update_self]
    exact hb.eq_head ▸ (hb.update hx.2).update hb'

/-! ### What is left in lists -/

omit [DecidableEq ι] in
/-- An element is the only one that is taken out where no other one has the same key. -/
theorem filter_key_ne {κ : Type*} [DecidableEq κ] {key : ι → κ} {k : κ} (hx : key x = k)
    (hall : ∀ y ∈ as ++ bs, key y ≠ k) : (as ++ x :: bs).filter (key · ≠ k) = as ++ bs := by
  rw [List.filter_append, List.filter_cons_of_neg (by simpa using hx), ← List.filter_append,
    List.filter_eq_self.2 (by simpa using hall)]

omit [DecidableEq ι] in
/-- Where a list has been made smaller, all elements have been in the lists before. -/
theorem mem_of_mem_update {κ : Type*} [DecidableEq κ] {a : κ → List ι} {k j : κ}
    (hsub : ∀ y ∈ xs, y ∈ a k) (hx : x ∈ Function.update a k xs j) : x ∈ a j := by
  by_cases hj : j = k
  · subst hj
    rw [update_self] at hx
    exact hsub x hx
  · rwa [update_of_ne hj] at hx

end Intrusive
