import Mathlib.Data.List.Basic
import Nanomsg.Lib.Refinement
import Nanomsg.Utils.List

/-!
# What lists are for

Any calls of `nn_list_insert` and `nn_list_erase`, on any lists, do to the lists what they do to
sequences of items (`refines`): an item is put where it should be, and taken out wherever it is.
Both write to the item, and to the links that point to it (`Touches`); all else stays.
-/

namespace Nanomsg

open Function Intrusive Transition

variable {κ ι : Type}

/-- `nn_list_insert`, before a member or at the end, and `nn_list_erase`. -/
inductive ListOp (κ ι : Type)
  | insert (k : κ) (x : ι) (it : Option ι)
  | erase (k : κ) (x : ι)

/-- The list that is called for. -/
def ListOp.list : ListOp κ ι → κ
  | insert k _ _ => k
  | erase k _ => k

/-- The item that is put in or taken out. -/
def ListOp.item : ListOp κ ι → ι
  | insert _ x _ => x
  | erase _ x => x

/-- `nn_list_prev`. -/
def NnList.prev [DecidableEq ι] (h : Items ι) (l : NnList ι) (it : Link ι) :
    Except Fault (Link ι) :=
  if it = .null then
    .ok l.last
  else do
    let p ← h.getPrev it
    nnAssert (p ≠ .out)
    pure p

/-! ## Sequences -/

namespace Sequence

variable [DecidableEq κ] [DecidableEq ι]

/-- Inserting before a position or at the end, and removing, which answers what comes next. -/
def spec : Spec (κ → List ι) (ListOp κ ι) (Link ι) where
  step a
    | .insert k x none => (update a k (a k ++ [x]), .null)
    | .insert k x (some y) => (update a k ((a k).insertIdx ((a k).idxOf y) x), .null)
    | .erase k x => (update a k ((a k).erase x), Link.head ((a k).drop ((a k).idxOf x + 1)))

/-- An item in no sequence is inserted, before a member if before anything; a member is erased. -/
def Allowed (a : κ → List ι) : ListOp κ ι → Prop
  | .insert k x it => (∀ j, x ∉ a j) ∧ ∀ y ∈ it, y ∈ a k
  | .erase k x => x ∈ a k

omit [DecidableEq κ] [DecidableEq ι] in
theorem insertIdx_length_append (as bs : List ι) (x : ι) :
    (as ++ bs).insertIdx as.length x = as ++ x :: bs := by
  induction as with
  | nil => rfl
  | cons a as ih => rw [List.cons_append, List.length_cons, List.insertIdx_succ_cons, ih,
      List.cons_append]

omit [DecidableEq κ] in
/-- What the positions in a sequence are, where it is split at an item that is there once. -/
theorem split_at {xs : List ι} {y : ι} (hn : xs.Nodup) (hy : y ∈ xs) : ∃ as bs, xs = as ++ y :: bs ∧
    (∀ x, xs.insertIdx (xs.idxOf y) x = as ++ x :: y :: bs) ∧ xs.erase y = as ++ bs ∧
    xs.drop (xs.idxOf y + 1) = bs := by
  obtain ⟨as, bs, rfl⟩ := List.append_of_mem hy
  have has : y ∉ as := fun hm =>
    (List.nodup_cons.1 (List.nodup_middle.1 hn)).1 (List.mem_append_left _ hm)
  have hidx : (as ++ y :: bs).idxOf y = as.length := by
    rw [List.idxOf_append_of_notMem has, List.idxOf_cons_self, Nat.add_zero]
  refine ⟨as, bs, rfl, fun x => ?_, ?_, ?_⟩
  · rw [hidx, insertIdx_length_append]
  · rw [List.erase_append_right _ has, List.erase_cons_head]
  · rw [hidx]
    simp

end Sequence

/-! ## The lists of a process -/

/-- Some lists, and the items of all objects. -/
structure ListRun (κ ι : Type) where
  items : Items ι
  lists : κ → NnList ι

namespace ListRun

variable [DecidableEq κ] [DecidableEq ι]

/-- All lists and all items are initialised. -/
def init : ListRun κ ι := ⟨⟨fun _ => .out, fun _ => .out⟩, fun _ => NnList.init⟩

/-- A list answers `nn_list_erase`. -/
def program : Program (ListRun κ ι) (ListOp κ ι) (Link ι) Fault where
  exec s
    | .insert k x it => do
      let (items, l) ← NnList.insert s.items (s.lists k) x (it.elim .null .node)
      pure (⟨items, update s.lists k l⟩, .null)
    | .erase k x => do
      let (items, l, next) ← NnList.erase s.items (s.lists k) x
      pure (⟨items, update s.lists k l⟩, next)

/-- The lists list the sequences, and no item that is in none of them is in a list. -/
structure Tracks (s : ListRun κ ι) (a : κ → List ι) : Prop where
  families : Families s.items s.lists a
  unlisted : ∀ x, (∀ k, x ∉ a k) → s.items.itemIsinlist x = false

/-- Of the lists, only `k` has been written to, and of the items only `x`, but for the links that
    pointed to `x` or do so now. -/
structure Touches (s s' : ListRun κ ι) (k : κ) (x : ι) : Prop where
  lists : ∀ j, j ≠ k → s'.lists j = s.lists j
  next : ∀ y, y ≠ x → s'.items.next y = s.items.next y ∨ s.items.next y = .node x ∨
    s'.items.next y = .node x
  prev : ∀ y, y ≠ x → s'.items.prev y = s.items.prev y ∨ s.items.prev y = .node x ∨
    s'.items.prev y = .node x

variable {h h' : Items ι} {l l' : NnList ι} {as bs : List ι} {x y : ι} {s : ListRun κ ι}
  {a : κ → List ι} {k : κ}

omit [DecidableEq ι] [DecidableEq κ] in
/-- With `x` or without it, an item is linked to the same ones, if not to `x`. -/
theorem links_stay (hl : Lists h l (as ++ x :: bs)) (hl' : Lists h' l' (as ++ bs))
    (hy : y ∈ as ++ bs) : (h.next y = h'.next y ∨ h.next y = .node x) ∧
      (h.prev y = h'.prev y ∨ h.prev y = .node x) := by
  rcases List.mem_append.1 hy with hy | hy
  · -- What follows `y` is `x` if `y` is the last of `as`.
    obtain ⟨us, vs, rfl⟩ := List.append_of_mem hy
    rw [List.append_assoc, List.cons_append] at hl hl'
    obtain ⟨hn, hp⟩ := hl.links_eq
    obtain ⟨hn', hp'⟩ := hl'.links_eq
    refine ⟨?_, .inl (hp.trans hp'.symm)⟩
    cases vs with
    | nil => exact .inr hn
    | cons v vs => exact .inl (hn.trans hn'.symm)
  · obtain ⟨us, vs, rfl⟩ := List.append_of_mem hy
    rw [← List.cons_append, ← List.append_assoc] at hl
    rw [← List.append_assoc] at hl'
    obtain ⟨hn, hp⟩ := hl.links_eq
    obtain ⟨hn', hp'⟩ := hl'.links_eq
    refine ⟨.inl (hn.trans hn'.symm), ?_⟩
    rcases List.eq_nil_or_concat' us with rfl | ⟨us, u, rfl⟩
    · exact .inr (by simpa using hp)
    · exact .inl (by simpa [hp'] using hp)

omit [DecidableEq ι] [DecidableEq κ] in
/-- With `x` or without it, all other items are linked to the same ones, if not to `x`. -/
theorem links_agree (hl : Lists h l (as ++ x :: bs)) (hl' : Lists h' l' (as ++ bs))
    (hframe : ∀ y ∉ as ++ x :: bs, h.next y = h'.next y ∧ h.prev y = h'.prev y) (hy : y ≠ x) :
    (h.next y = h'.next y ∨ h.next y = .node x) ∧ (h.prev y = h'.prev y ∨ h.prev y = .node x) := by
  by_cases hm : y ∈ as ++ bs
  · exact links_stay hl hl' hm
  · have hout : y ∉ as ++ x :: bs := by
      simp only [List.mem_append, List.mem_cons] at hm ⊢
      tauto
    exact ⟨.inl (hframe y hout).1, .inl (hframe y hout).2⟩

omit [DecidableEq ι] in
/-- What is in no list was in none, if it has not been taken out. -/
theorem notMem_of_update {zs : List ι} (hsub : y ∈ a k → y ∈ zs) (hy : ∀ j, y ∉ update a k zs j)
    (j : κ) : y ∉ a j := by
  intro hj
  by_cases hjk : j = k
  · subst hjk
    exact hy j (by simpa using hsub hj)
  · exact hy j (by simpa [hjk] using hj)

/-- Inserting before `bs`. -/
theorem insert_touches (h : Tracks s a) (hk : a k = as ++ bs) (hx : ∀ j, x ∉ a j) :
    ∃ items l, NnList.insert s.items (s.lists k) x (Link.head bs) = .ok (items, l) ∧
      Tracks ⟨items, update s.lists k l⟩ (update a k (as ++ x :: bs)) ∧
      Touches s ⟨items, update s.lists k l⟩ k x := by
  obtain ⟨items, l, hi, hf, hframe⟩ := h.families.insert_at hk (h.unlisted x hx)
  have hold : Lists s.items (s.lists k) (as ++ bs) := hk ▸ h.families.lists k
  have hnew : Lists items l (as ++ x :: bs) := by simpa using hf.lists k
  refine ⟨items, l, hi, ⟨hf, fun y hy => ?_⟩, fun j hj => update_of_ne hj _ _, fun y hyx => ?_,
    fun y hyx => ?_⟩
  · have hyk : y ∉ as ++ x :: bs := by simpa using hy k
    have hun := h.unlisted y (notMem_of_update (fun hm => by
      rw [hk] at hm
      simp only [List.mem_append, List.mem_cons] at hm ⊢
      tauto) hy)
    rwa [Items.itemIsinlist, ← (hframe y hyk).2] at hun
  · exact (links_agree hnew hold hframe hyx).1.elim .inl fun hx => .inr (.inr hx)
  · exact (links_agree hnew hold hframe hyx).2.elim .inl fun hx => .inr (.inr hx)

/-- Erasing from between `as` and `bs`. -/
theorem erase_touches (h : Tracks s a) (hk : a k = as ++ x :: bs) :
    ∃ items l, NnList.erase s.items (s.lists k) x = .ok (items, l, Link.head bs) ∧
      Tracks ⟨items, update s.lists k l⟩ (update a k (as ++ bs)) ∧
      Touches s ⟨items, update s.lists k l⟩ k x := by
  obtain ⟨items, l, he, hf, hx, hframe⟩ := h.families.erase_at hk
  have hold : Lists s.items (s.lists k) (as ++ x :: bs) := hk ▸ h.families.lists k
  have hnew : Lists items l (as ++ bs) := by simpa using hf.lists k
  have hback : ∀ y ∉ as ++ x :: bs, s.items.next y = items.next y ∧ s.items.prev y = items.prev y :=
    fun y hy => ⟨(hframe y hy).1.symm, (hframe y hy).2.symm⟩
  refine ⟨items, l, he, ⟨hf, fun y hy => ?_⟩, fun j hj => update_of_ne hj _ _, fun y hyx => ?_,
    fun y hyx => ?_⟩
  · by_cases hyx : y = x
    · exact hyx ▸ hx
    · have hyk : y ∉ as ++ bs := by simpa using hy k
      have hout : y ∉ as ++ x :: bs := by
        simp only [List.mem_append, List.mem_cons] at hyk ⊢
        tauto
      have hun := h.unlisted y (notMem_of_update (fun hm => absurd (hk ▸ hm) hout) hy)
      rwa [Items.itemIsinlist, (hback y hout).2] at hun
  · exact (links_agree hold hnew hback hyx).1.elim (fun he => .inl he.symm) fun hx => .inr (.inl hx)
  · exact (links_agree hold hnew hback hyx).2.elim (fun he => .inl he.symm) fun hx => .inr (.inl hx)

/-- A call does what it does to the sequences, and touches no other list and no other item. -/
theorem exec_spec (h : Tracks s a) {op : ListOp κ ι} (ha : Sequence.Allowed a op) :
    ∃ s', program.exec s op = .ok (s', (Sequence.spec.step a op).2) ∧
      Tracks s' (Sequence.spec.step a op).1 ∧ Touches s s' op.list op.item := by
  cases op with
  | insert k x it =>
    cases it with
    | none =>
      obtain ⟨items, l, hi, ht, hw⟩ := insert_touches h (show a k = a k ++ [] by simp) ha.1
      rw [Link.head_nil] at hi
      exact ⟨_, by simp [program, Sequence.spec, hi], ht, hw⟩
    | some y =>
      obtain ⟨as, bs, hk, hins, -⟩ := Sequence.split_at (h.families.lists k).nodup (ha.2 y rfl)
      obtain ⟨items, l, hi, ht, hw⟩ := insert_touches h hk ha.1
      rw [Link.head_cons] at hi
      refine ⟨_, by simp [program, Sequence.spec, hi], ?_, hw⟩
      simpa [Sequence.spec, hins] using ht
  | erase k x =>
    obtain ⟨as, bs, hk, -, herase, hnext⟩ := Sequence.split_at (h.families.lists k).nodup ha
    obtain ⟨items, l, he, ht, hw⟩ := erase_touches h hk
    refine ⟨_, by simp [program, Sequence.spec, he, hnext], ?_, hw⟩
    simpa [Sequence.spec, herase] using ht

theorem refines : (program (κ := κ) (ι := ι)).Refines Sequence.spec Sequence.Allowed Tracks :=
  fun _ _ _ h ha =>
    let ⟨s', hx, ht, _⟩ := exec_spec h ha
    ⟨s', hx, ht⟩

omit [DecidableEq κ] in
theorem tracks_init : Tracks (init : ListRun κ ι) fun _ => [] where
  families := .init _
  unlisted := fun _ _ => rfl

/-- What the pointers say, the list `k` listing `a k`. -/
structure Shown (s : ListRun κ ι) (a : κ → List ι) : Prop where
  fwd : ∀ k, Chain s.items.next (s.lists k).first (a k) .null
  bwd : ∀ k, Chain s.items.prev (s.lists k).last (a k).reverse .null
  nodup : ∀ k, (a k).Nodup
  disjoint : ∀ j k x, x ∈ a j → x ∈ a k → j = k
  first_null : ∀ k, (s.lists k).first = .null ↔ a k = []
  last_null : ∀ k, (s.lists k).last = .null ↔ a k = []
  isinlist : ∀ x, s.items.itemIsinlist x = true ↔ ∃ k, x ∈ a k
  /-- `nn_list_next` and `nn_list_prev` of a member. -/
  neighbours : ∀ k as x bs, a k = as ++ x :: bs →
    NnList.next s.items (.node x) = .ok (Link.head bs) ∧
      NnList.prev s.items (s.lists k) (.node x) = .ok (Link.head as.reverse)

omit [DecidableEq κ] in
theorem Tracks.shown (h : Tracks s a) : Shown s a where
  fwd k := (h.families.lists k).fwd
  bwd k := (h.families.lists k).bwd
  nodup k := (h.families.lists k).nodup
  disjoint _ _ _ := h.families.disjoint
  first_null k := by rw [(h.families.lists k).first_eq, Link.head_eq_null]
  last_null k := by rw [(h.families.lists k).last_eq, Link.head_eq_null, List.reverse_eq_nil_iff]
  isinlist x := by
    refine ⟨fun hx => ?_, fun ⟨k, hk⟩ => (h.families.lists k).isinlist hk⟩
    by_contra hno
    simp [h.unlisted x (not_exists.1 hno)] at hx
  neighbours k as x bs hk := by
    have hl : Lists s.items (s.lists k) (as ++ x :: bs) := hk ▸ h.families.lists k
    obtain ⟨hn, hp⟩ := hl.links_eq
    have hout : Link.head as.reverse ≠ .out := by cases as.reverse <;> simp
    obtain ⟨_, _, hchain⟩ := chain_append.1 hl.fwd
    refine ⟨by rw [NnList.next_ok hchain.2, hn], ?_⟩
    simp [NnList.prev, Items.getPrev, hp, hout]

/-- After any calls that insert what is in no list and erase members, the lists are the sequences,
    from both ends, and `nn_list_erase` has answered what came next; and one more call touches no
    other list and no other item. -/
theorem list_correct (ops : List (ListOp κ ι))
    (hops : Sequence.spec.Allowed Sequence.Allowed (fun _ => []) ops) :
    ∃ s, program.run init ops = .ok (s, (Sequence.spec.run (fun _ => []) ops).2) ∧
      Shown s (Sequence.spec.run (fun _ => []) ops).1 ∧
      ∀ op, Sequence.Allowed (Sequence.spec.run (fun _ => []) ops).1 op →
        ∃ s', program.exec s op =
            .ok (s', (Sequence.spec.step (Sequence.spec.run (fun _ => []) ops).1 op).2) ∧
          Shown s' (Sequence.spec.step (Sequence.spec.run (fun _ => []) ops).1 op).1 ∧
          Touches s s' op.list op.item := by
  obtain ⟨s, hr, h⟩ := refines.run tracks_init hops
  refine ⟨s, hr, h.shown, fun op ha => ?_⟩
  obtain ⟨s', hx, ht, hw⟩ := exec_spec h ha
  exact ⟨s', hx, ht.shown, hw⟩

/-- One item at the end of a list, another one before it, and the first one erased. -/
theorem list_correct_insert_erase :
    ∃ s, program.run init [.insert true 0 none, .insert true 1 (some 0), .insert false 2 none,
        .erase true 1] = .ok (s, [.null, .null, .null, .node 0]) ∧
      s.items.itemIsinlist 1 = false := by
  obtain ⟨s, hr, h, -⟩ := list_correct (κ := Bool) (ι := ℕ) [.insert true 0 none,
    .insert true 1 (some 0), .insert false 2 none, .erase true 1]
    ⟨⟨fun j => by cases j <;> decide, fun _ h => by cases h⟩,
      ⟨fun j => by cases j <;> decide, fun y h => by cases h; decide⟩,
      ⟨fun j => by cases j <;> decide, fun _ h => by cases h⟩, List.mem_cons_self, trivial⟩
  refine ⟨s, hr, Bool.eq_false_iff.2 fun hx => ?_⟩
  obtain ⟨k, hk⟩ := (h.isinlist 1).1 hx
  revert hk
  cases k <;> decide

end ListRun

end Nanomsg
