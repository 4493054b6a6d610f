import Mathlib.Data.List.Nodup
import Nanomsg.Fault
import Nanomsg.Lib.Link

/-!
# `nn_list`

`list.c`: doubly linked lists whose items are fields of the listed objects. The
items of all the objects `ι` form one heap (`Items`), shared by any number of
lists (`NnList`), each nothing but its two end pointers. `NN_LIST_NOTINLIST` is
the mark `Link.out`.

`Lists h l xs` says that `l` is well formed and lists `xs`: following `next`
from `first` gives `xs`, following `prev` from `last` gives them in the
opposite order. Inserting and erasing keep it (`insert_spec`, `erase_spec`) and
touch no other item, so no other list.

`nn_list_erase` only looks at its list when the item is at one of the ends:
`erase_spec` is stated for the list `l'` the caller names, which may not be the
one the item is in.
-/

namespace Nanomsg

open Intrusive Function

variable {ι : Type}

/-- The `struct nn_list_item` of every object. -/
structure Items (ι : Type) where
  next : ι → Link ι
  prev : ι → Link ι

/-- `struct nn_list`. -/
structure NnList (ι : Type) where
  first : Link ι
  last : Link ι
  deriving DecidableEq

/-- `nn_list_init`. -/
def NnList.init : NnList ι := ⟨.null, .null⟩

namespace Items

variable [DecidableEq ι] (h : Items ι)

/-- `it->next`, for a pointer `it`. -/
def getNext : Link ι → Except Fault (Link ι)
  | .null => .error .nullDeref
  | .out => .error .wildPointer
  | .node x => .ok (h.next x)

/-- `it->prev`, for a pointer `it`. -/
def getPrev : Link ι → Except Fault (Link ι)
  | .null => .error .nullDeref
  | .out => .error .wildPointer
  | .node x => .ok (h.prev x)

/-- `it->next = v`, for a pointer `it`. -/
def setNext (it v : Link ι) : Except Fault (Items ι) :=
  match it with
  | .null => .error .nullDeref
  | .out => .error .wildPointer
  | .node x => .ok { h with next := update h.next x v }

/-- `it->prev = v`, for a pointer `it`. -/
def setPrev (it v : Link ι) : Except Fault (Items ι) :=
  match it with
  | .null => .error .nullDeref
  | .out => .error .wildPointer
  | .node x => .ok { h with prev := update h.prev x v }

/-- `if (it) it->next = v`. -/
def linkNext (it v : Link ι) : Except Fault (Items ι) :=
  if it = .null then .ok h else h.setNext it v

/-- `if (it) it->prev = v`. -/
def linkPrev (it v : Link ι) : Except Fault (Items ι) :=
  if it = .null then .ok h else h.setPrev it v

/-- `nn_list_item_init`. -/
def itemInit (x : ι) : Items ι :=
  { next := update h.next x .out, prev := update h.prev x .out }

/-- `nn_list_item_isinlist`. -/
def itemIsinlist (x : ι) : Bool := if h.prev x = .out then false else true

end Items

namespace NnList

variable [DecidableEq ι]

/-- `nn_list_empty`. -/
def empty (l : NnList ι) : Bool := if l.first = .null then true else false

/-- `nn_list_term`: both ends must be null. -/
def term (l : NnList ι) : Except Fault Unit := do
  nnAssert (l.first = .null)
  nnAssert (l.last = .null)

/-- `nn_list_next`. -/
def next (h : Items ι) (it : Link ι) : Except Fault (Link ι) := do
  let n ← h.getNext it
  nnAssert (n ≠ .out)
  pure n

/-- `it ? it->prev : self->last`. -/
def prevOrLast (h : Items ι) (l : NnList ι) (it : Link ι) : Except Fault (Link ι) :=
  if it = .null then .ok l.last else h.getPrev it

/-- `nn_list_insert`: `x` goes before `it`, or at the end if `it` is null. -/
def insert (h : Items ι) (l : NnList ι) (x : ι) (it : Link ι) :
    Except Fault (Items ι × NnList ι) := do
  nnAssert (!h.itemIsinlist x)
  let p ← prevOrLast h l it
  let h := { next := update h.next x it, prev := update h.prev x p }
  let h ← Items.linkNext h p (.node x)
  let h ← Items.linkPrev h it (.node x)
  let first := if l.first = .null ∨ l.first = it then .node x else l.first
  let last := if it = .null then .node x else l.last
  pure (h, ⟨first, last⟩)

/-- `nn_list_erase`: the items and the list after it, and the item that
    followed `x`. -/
def erase (h : Items ι) (l : NnList ι) (x : ι) : Except Fault (Items ι × NnList ι × Link ι) := do
  nnAssert (h.itemIsinlist x)
  let p := h.prev x
  let n := h.next x
  let h ← h.linkNext p n
  let h ← h.linkPrev n p
  let first := if p = .null then n else l.first
  let last := if n = .null then p else l.last
  pure (h.itemInit x, ⟨first, last⟩, n)

end NnList

/-- The item that follows one of a chain. -/
theorem NnList.next_ok [DecidableEq ι] {h : Items ι} {x : ι} {xs : List ι}
    (hc : Chain h.next (h.next x) xs .null) : NnList.next h (.node x) = .ok (h.next x) := by
  have : h.next x ≠ .out := by
    rw [hc.eq_head]
    cases xs <;> simp
  simp [NnList.next, Items.getNext, this]

/-! ## Well-formed lists -/

/-- `l` is well formed and lists `xs`. -/
structure Lists (h : Items ι) (l : NnList ι) (xs : List ι) : Prop where
  fwd : Chain h.next l.first xs .null
  bwd : Chain h.prev l.last xs.reverse .null
  nodup : xs.Nodup

namespace Lists

variable {h h' : Items ι} {l : NnList ι} {xs ys : List ι} {x : ι}

theorem first_eq (hl : Lists h l xs) : l.first = Link.head xs := hl.fwd.eq_head

theorem last_eq (hl : Lists h l xs) : l.last = Link.head xs.reverse := hl.bwd.eq_head

theorem unique (hx : Lists h l xs) (hy : Lists h l ys) : xs = ys := hx.fwd.unique hy.fwd

theorem init (h : Items ι) : Lists h NnList.init [] := ⟨rfl, rfl, List.nodup_nil⟩

/-- A list does not see a write to items off it. -/
theorem frame (hl : Lists h l xs) (hn : ∀ x ∈ xs, h'.next x = h.next x)
    (hp : ∀ x ∈ xs, h'.prev x = h.prev x) : Lists h' l xs :=
  ⟨hl.fwd.congr hn, hl.bwd.congr fun x hx => hp x (List.mem_reverse.1 hx), hl.nodup⟩

variable [DecidableEq ι]

theorem empty_eq (hl : Lists h l xs) : l.empty = xs.isEmpty := by
  rw [NnList.empty, hl.first_eq]
  cases xs <;> simp

theorem isinlist (hl : Lists h l xs) (hx : x ∈ xs) : h.itemIsinlist x = true := by
  have := hl.bwd.ne_out (by simp) (List.mem_reverse.2 hx)
  simp [Items.itemIsinlist, this]

/-! ### Inserting and erasing -/

variable {as bs : List ι}

theorem linkNext_head (h : Items ι) (xs : List ι) (v : Link ι) :
    h.linkNext (Link.head xs) v = .ok { h with next := write h.next (Link.head xs) v } := by
  cases xs <;> simp [Items.linkNext, Items.setNext, write]

theorem linkPrev_head (h : Items ι) (xs : List ι) (v : Link ι) :
    h.linkPrev (Link.head xs) v = .ok { h with prev := write h.prev (Link.head xs) v } := by
  cases xs <;> simp [Items.linkPrev, Items.setPrev, write]

omit [DecidableEq ι] in
/-- The links of an item of a list: to what follows it, and to what it follows. -/
theorem links_eq (hl : Lists h l (as ++ x :: bs)) :
    h.next x = Link.head bs ∧ h.prev x = Link.head as.reverse := by
  obtain ⟨_, _, hx⟩ := chain_append.1 hl.fwd
  have hb := hl.bwd
  rw [List.reverse_append, List.reverse_cons, List.append_assoc] at hb
  obtain ⟨_, _, hx'⟩ := chain_append.1 hb
  exact ⟨hx.2.eq_head, hx'.2.eq_head⟩

/-- Inserting `x` before `bs`. -/
theorem insert_spec (hl : Lists h l (as ++ bs)) (hx : h.itemIsinlist x = false)
    (hm : x ∉ as ++ bs) :
    ∃ h' l', NnList.insert h l x (Link.head bs) = .ok (h', l') ∧ Lists h' l' (as ++ x :: bs) ∧
      ∀ y ∉ as ++ x :: bs, h'.next y = h.next y ∧ h'.prev y = h.prev y := by
  have hp : NnList.prevOrLast h l (Link.head bs) = .ok (Link.head as.reverse) := by
    cases bs with
    | nil => simp [NnList.prevOrLast, hl.last_eq]
    | cons b bs => simp [NnList.prevOrLast, Items.getPrev, hl.links_eq.2]
  have hn := hl.nodup
  have hmr : x ∉ bs.reverse ++ as.reverse := by simpa [or_comm] using hm
  have hb := hl.bwd
  rw [List.reverse_append] at hb
  have hfwd := hl.fwd.link hn hm
  have hbwd := hb.link (by rw [← List.reverse_append]; exact List.nodup_reverse.2 hn) hmr
  rw [List.reverse_reverse] at hbwd
  refine ⟨⟨write (update h.next x (Link.head bs)) (Link.head as.reverse) (.node x),
      write (update h.prev x (Link.head as.reverse)) (Link.head bs) (.node x)⟩,
    ⟨if as = [] then .node x else l.first, if bs = [] then .node x else l.last⟩,
    ?_, ⟨hfwd, ?_, ?_⟩, fun y hy => ?_⟩
  · -- The list starts at `x` when nothing comes before it.
    have hf : (if l.first = .null ∨ l.first = Link.head bs then Link.node x else l.first) =
        if as = [] then Link.node x else l.first := by
      rw [hl.first_eq]
      cases as with
      | nil => cases bs <;> simp
      | cons a as =>
        have : ∀ b ∈ bs, a ≠ b := fun b hb he => (List.nodup_cons.1 hn).1 (he ▸ by simp [hb])
        cases bs <;> simp_all
    simp only [NnList.insert, hx, Bool.not_false, nnAssert_true, ok_bind, hp, linkNext_head,
      linkPrev_head, pure_eq_ok, hf, Link.head_eq_null]
  · rw [List.reverse_append, List.reverse_cons, List.append_assoc]
    simpa using hbwd
  · rw [List.nodup_middle]
    exact List.nodup_cons.2 ⟨hm, hn⟩
  · simp only [List.mem_append, List.mem_cons, not_or] at hy
    constructor
    · exact (write_head_of_not_mem (by simpa using hy.1)).trans (update_of_ne hy.2.1 _ _)
    · exact (write_head_of_not_mem hy.2.2).trans (update_of_ne hy.2.1 _ _)

end Lists

/-- The ends of the list `l` once an item with `as` before it and `bs` after it
    has been erased. -/
def NnList.unlink (l : NnList ι) (as bs : List ι) : NnList ι where
  first := if as = [] then Link.head bs else l.first
  last := if bs = [] then Link.head as.reverse else l.last

namespace Lists

variable {h h' : Items ι} {l : NnList ι} {as bs xs : List ι} {x : ι} [DecidableEq ι]

/-- Erasing `x` from between `as` and `bs`, the caller naming the list `l'`. -/
theorem erase_spec (hl : Lists h l (as ++ x :: bs)) (l' : NnList ι) :
    ∃ h', NnList.erase h l' x = .ok (h', l'.unlink as bs, Link.head bs) ∧
      Lists h' (l.unlink as bs) (as ++ bs) ∧ h'.itemIsinlist x = false ∧
      ∀ y ∉ as ++ x :: bs, h'.next y = h.next y ∧ h'.prev y = h.prev y := by
  obtain ⟨hnx, hpx⟩ := hl.links_eq
  have hn := hl.nodup
  have hb := hl.bwd
  have hmid := List.nodup_cons.1 (List.nodup_middle.1 hn)
  rw [List.reverse_append, List.reverse_cons, List.append_assoc] at hb
  have hfwd := (hl.fwd.unlink hn).update (m := .out) hmid.1
  have hbwd := (hb.unlink (by simpa using List.nodup_reverse.2 hn)).update (m := .out)
    (x := x) (by simpa [or_comm] using hmid.1)
  rw [List.reverse_reverse] at hbwd
  refine ⟨Items.itemInit ⟨write h.next (Link.head as.reverse) (Link.head bs),
      write h.prev (Link.head bs) (Link.head as.reverse)⟩ x,
    ?_, ⟨hfwd, ?_, hmid.2⟩, ?_, fun y hy => ?_⟩
  · simp only [NnList.erase, hl.isinlist (List.mem_append_right as List.mem_cons_self),
      nnAssert_true, ok_bind, hnx, hpx, linkNext_head, linkPrev_head, pure_eq_ok, NnList.unlink,
      Link.head_eq_null, List.reverse_eq_nil_iff]
  · rw [List.reverse_append]
    simpa [NnList.unlink, Items.itemInit] using hbwd
  · simp [Items.itemInit, Items.itemIsinlist]
  · simp only [List.mem_append, List.mem_cons, not_or] at hy
    exact ⟨(update_of_ne hy.2.1 _ _).trans (write_head_of_not_mem (by simpa using hy.1)),
      (update_of_ne hy.2.1 _ _).trans (write_head_of_not_mem hy.2.2)⟩

/-- Another item is in a list as before when `x` has been put into one, and nothing written elsewhere. -/
theorem itemIsinlist_eq {l' : NnList ι} {y : ι} (hl : Lists h l (as ++ bs))
    (hw : Lists h' l' (as ++ x :: bs))
    (hframe : ∀ y ∉ as ++ x :: bs, h'.next y = h.next y ∧ h'.prev y = h.prev y) (hy : y ≠ x) :
    h'.itemIsinlist y = h.itemIsinlist y := by
  by_cases hm : y ∈ as ++ x :: bs
  · have hm' : y ∈ as ++ bs := by
      simp only [List.mem_append, List.mem_cons] at hm ⊢
      tauto
    rw [hw.isinlist hm, hl.isinlist hm']
  · rw [Items.itemIsinlist, Items.itemIsinlist, (hframe y hm).2]

theorem term_ok (hl : Lists h l []) : l.term = .ok () := by
  simp [NnList.term, hl.first_eq, hl.last_eq]

omit [DecidableEq ι] in
theorem eq_init (hl : Lists h l []) : l = NnList.init := by
  rcases l with ⟨first, last⟩
  obtain rfl : first = .null := hl.first_eq
  obtain rfl : last = .null := hl.last_eq
  rfl

end Lists

/-! ## Families of lists -/

/-- The lists `l` are well formed, list `xs` and have no item in common. -/
structure Families {κ : Type} (h : Items ι) (l : κ → NnList ι) (xs : κ → List ι) : Prop where
  lists (k : κ) : Lists h (l k) (xs k)
  disjoint {j k : κ} {x : ι} : x ∈ xs j → x ∈ xs k → j = k

namespace Families

variable {κ : Type} {h : Items ι} {l : κ → NnList ι} {xs : κ → List ι} {k : κ} {x : ι}
  {as bs : List ι}

theorem init (h : Items ι) : Families h (fun _ : κ => NnList.init) fun _ => [] :=
  ⟨fun _ => .init h, fun hx => absurd hx List.not_mem_nil⟩

variable [DecidableEq ι] [DecidableEq κ]

/-- An item that is in no list is inserted into one, before `bs`. -/
theorem insert_at (hf : Families h l xs) (hk : xs k = as ++ bs) (hx : h.itemIsinlist x = false) :
    ∃ h' l', NnList.insert h (l k) x (Link.head bs) = .ok (h', l') ∧
      Families h' (update l k l') (update xs k (as ++ x :: bs)) ∧
      ∀ y ∉ as ++ x :: bs, h'.next y = h.next y ∧ h'.prev y = h.prev y := by
  have hout : ∀ j, x ∉ xs j := fun j hj => by simpa [hx] using (hf.lists j).isinlist hj
  obtain ⟨h', l', hi, hw, hframe⟩ := (hk ▸ hf.lists k).insert_spec hx (hk ▸ hout k)
  have hnew : ∀ {y}, y ∈ as ++ x :: bs → y ∈ xs k ∨ y = x := fun hy => by
    rw [hk]
    simp only [List.mem_append, List.mem_cons] at hy ⊢
    tauto
  refine ⟨h', l', hi, ⟨fun j => ?_, fun {i j y} hi hj => ?_⟩, hframe⟩
  · by_cases hj : j = k
    · subst hj
      simpa using hw
    · -- No item of another list is written.
      have hm : ∀ y ∈ xs j, y ∉ as ++ x :: bs := fun y hy hm => by
        rcases hnew hm with hm | rfl
        · exact hj (hf.disjoint hy hm)
        · exact hout j hy
      rw [update_of_ne hj, update_of_ne hj]
      exact (hf.lists j).frame (fun y hy => (hframe y (hm y hy)).1)
        fun y hy => (hframe y (hm y hy)).2
  · have hmem : ∀ j, y ∈ update xs k (as ++ x :: bs) j → y ∈ xs j ∨ (y = x ∧ j = k) := by
      intro j hj
      by_cases hjk : j = k
      · subst hjk
        rw [update_self] at hj
        exact (hnew hj).imp_right fun he => ⟨he, rfl⟩
      · exact .inl (by simpa [hjk] using hj)
    rcases hmem i hi, hmem j hj with ⟨h₁ | ⟨rfl, rfl⟩, h₂ | ⟨h₂, rfl⟩⟩
    · exact hf.disjoint h₁ h₂
    · exact absurd (h₂ ▸ h₁) (hout i)
    · exact absurd h₂ (hout j)
    · rfl

/-- An item that is in no list is inserted at the end of one. -/
theorem insert_spec (hf : Families h l xs) (k : κ) (hx : h.itemIsinlist x = false) :
    ∃ h' l', NnList.insert h (l k) x .null = .ok (h', l') ∧
      Families h' (update l k l') (update xs k (xs k ++ [x])) ∧
      ∀ y, y ≠ x → (∀ j, y ∉ xs j) → h'.itemIsinlist y = h.itemIsinlist y := by
  obtain ⟨h', l', hi, hf', hframe⟩ := hf.insert_at (show xs k = xs k ++ [] by simp) hx
  refine ⟨h', l', hi, hf', fun y hne hy => ?_⟩
  have hm : y ∉ xs k ++ [x] := by simp [hne, hy k]
  rw [Items.itemIsinlist, Items.itemIsinlist, (hframe y hm).2]

/-- An item is erased from its list. -/
theorem erase_at (hf : Families h l xs) (hk : xs k = as ++ x :: bs) :
    ∃ h' l', NnList.erase h (l k) x = .ok (h', l', Link.head bs) ∧
      Families h' (update l k l') (update xs k (as ++ bs)) ∧ h'.itemIsinlist x = false ∧
      ∀ y ∉ as ++ x :: bs, h'.next y = h.next y ∧ h'.prev y = h.prev y := by
  obtain ⟨h', he, hw, hx, hframe⟩ := (hk ▸ hf.lists k).erase_spec (l k)
  have hsub : ∀ y ∈ as ++ bs, y ∈ xs k := by
    intro y hy
    rw [hk]
    simp only [List.mem_append, List.mem_cons] at hy ⊢
    tauto
  refine ⟨h', _, he, ⟨fun j => ?_, fun hi hj =>
      hf.disjoint (mem_of_mem_update hsub hi) (mem_of_mem_update hsub hj)⟩, hx, hframe⟩
  by_cases hj : j = k
  · subst hj
    simpa using hw
  · have hm : ∀ y ∈ xs j, y ∉ as ++ x :: bs := fun y hy hm => hj (hf.disjoint hy (hk ▸ hm))
    rw [update_of_ne hj, update_of_ne hj]
    exact (hf.lists j).frame (fun y hy => (hframe y (hm y hy)).1)
      fun y hy => (hframe y (hm y hy)).2

/-- An item is erased from its list, and no other one leaves or enters a list. -/
theorem erase_spec (hf : Families h l xs) (hk : xs k = as ++ x :: bs) :
    ∃ h' l', NnList.erase h (l k) x = .ok (h', l', Link.head bs) ∧
      Families h' (update l k l') (update xs k (as ++ bs)) ∧ h'.itemIsinlist x = false ∧
      ∀ y, (∀ j, y ∉ xs j) → h'.itemIsinlist y = h.itemIsinlist y := by
  obtain ⟨h', l', he, hf', hx, hframe⟩ := hf.erase_at hk
  refine ⟨h', l', he, hf', hx, fun y hy => ?_⟩
  rw [Items.itemIsinlist, Items.itemIsinlist, (hframe y (hk ▸ hy k)).2]

end Families

end Nanomsg
