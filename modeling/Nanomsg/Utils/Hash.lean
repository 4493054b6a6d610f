import Mathlib.Algebra.Order.Ring.Int
import Mathlib.Algebra.Order.Ring.Nat
import Mathlib.Data.List.Nodup
import Mathlib.Data.Sum.Basic
import Nanomsg.Lib.Refinement
import Nanomsg.Utils.List

/-!
# `nn_hash`

`hash.c`: a hash table whose items are fields of the objects `ι` that it stores. An item
is in the list of the slot that its key hashes to; there are twice as many slots
whenever more than half as many items are stored as there are slots, and then
`nn_hash_rehash` moves every item to a list of the new array.

The array is a function of the index, which is always a remainder by `slots`;
`nn_alloc` is taken to give the memory it is asked for.
`inserted`, which is not part of the source, counts the insertions: it bounds the loops, as no
list has more items.

`Stored` is what a hash is for: the pairs of a key and an item that have been
inserted and not erased. `Holds` says how a hash stores them, and `refines` that every
operation answers as they do.
-/

namespace Nanomsg

open Function Transition Intrusive

variable {ι : Type}

/-- `NN_HASH_INITIAL_SLOTS`. -/
abbrev hashInitialSlots : UInt32 := 32

/-- What `key` is when `nn_hash_key` returns. -/
def hashMixed (key : UInt32) : UInt32 :=
  let key := (key ^^^ (61 : UInt32)) ^^^ (key >>> 16)
  let key := key + (key <<< 3)
  let key := key ^^^ (key >>> 4)
  let key := key * 0x27d4eb2d
  key ^^^ (key >>> 15)

/-- `nn_hash_key`. -/
def hashKey (key : UInt32) : UInt32 :=
  let _key := hashMixed key
  0

/-- `struct nn_hash`, and the `struct nn_hash_item` of every object. -/
structure Hash (ι : Type) where
  slots : UInt32
  items : UInt32
  array : ℕ → NnList ι
  key : ι → UInt32
  list : Items ι
  inserted : ℕ

namespace Hash

/-- `nn_hash_init`, the objects being as given. -/
def init (key : ι → UInt32) (list : Items ι) : Hash ι :=
  ⟨hashInitialSlots, 0, fun _ => NnList.init, key, list, 0⟩

variable [DecidableEq ι] (self : Hash ι)

/-- `nn_hash_key(key) % self->slots`. -/
def slot (key : UInt32) : ℕ := (hashKey key % self.slots).toNat

/-! ## The operations -/

/-- The inner loop of `nn_hash_rehash`, which empties the list `i` of the old array. -/
def moveSlot (i : ℕ) : ℕ → Hash ι × (ℕ → NnList ι) → Except Fault (Hash ι × (ℕ → NnList ι))
  | 0, _ => .error .diverges
  | n + 1, (self, oldarray) =>
    if (oldarray i).empty then
      .ok (self, oldarray)
    else
      match (oldarray i).first with
      | .null => .error .nullDeref
      | .out => .error .wildPointer
      | .node hitm => do
        let (list, l, _) ← NnList.erase self.list (oldarray i) hitm
        let newslot := self.slot (self.key hitm)
        let (list, l') ← NnList.insert list (self.array newslot) hitm .null
        moveSlot i n ({ self with list := list, array := update self.array newslot l' },
          update oldarray i l)

/-- The outer loop of `nn_hash_rehash`, over some of the lists of the old array. -/
def moveSlots : List ℕ → Hash ι × (ℕ → NnList ι) → Except Fault (Hash ι × (ℕ → NnList ι))
  | [], s => .ok s
  | i :: is, s => do
    let s ← moveSlot i (s.1.inserted + 1) s
    (s.2 i).term
    moveSlots is s

/-- `nn_hash_rehash`: the hash, and the old array before it is freed. -/
def rehash : Except Fault (Hash ι × (ℕ → NnList ι)) :=
  let oldslots := self.slots
  let oldarray := self.array
  let self := { self with slots := self.slots * 2, array := fun _ => NnList.init }
  moveSlots (List.range oldslots.toNat) (self, oldarray)

/-- The loop of `nn_hash_insert`: no item from `it` on has the key. -/
def checkKey (key : UInt32) : ℕ → Link ι → Except Fault Unit
  | 0, _ => .error .diverges
  | _ + 1, .null => .ok ()
  | _ + 1, .out => .error .wildPointer
  | n + 1, .node x => do
    nnAssert (self.key x ≠ key)
    let it ← NnList.next self.list (.node x)
    checkKey key n it

/-- `nn_hash_insert` up to `++self->items`. -/
def put (key : UInt32) (item : ι) : Except Fault (Hash ι) := do
  let i := self.slot key
  self.checkKey key (self.inserted + 1) (self.array i).first
  let self := { self with key := update self.key item key }
  let (list, l) ← NnList.insert self.list (self.array i) item .null
  pure { self with
    list := list
    array := update self.array i l
    items := self.items + 1
    inserted := self.inserted + 1 }

/-- There are too few slots, and may be more. -/
abbrev Crowded : Prop := self.items * 2 > self.slots ∧ self.slots < 0x80000000

/-- `nn_hash_insert`. -/
def insert (key : UInt32) (item : ι) : Except Fault (Hash ι) := do
  let self ← self.put key item
  if self.Crowded then do
    let (self, _) ← self.rehash
    pure self
  else
    pure self

/-- `nn_hash_erase`. -/
def erase (item : ι) : Except Fault (Hash ι) := do
  let slot := self.slot (self.key item)
  let (list, l, _) ← NnList.erase self.list (self.array slot) item
  pure { self with list := list, array := update self.array slot l, items := self.items - 1 }

/-- The loop of `nn_hash_get`. -/
def find (key : UInt32) : ℕ → Link ι → Except Fault (Option ι)
  | 0, _ => .error .diverges
  | _ + 1, .null => .ok none
  | _ + 1, .out => .error .wildPointer
  | n + 1, .node x =>
    if self.key x = key then
      .ok (some x)
    else do
      let it ← NnList.next self.list (.node x)
      find key n it

/-- `nn_hash_get`. -/
def get (key : UInt32) : Except Fault (Option ι) :=
  self.find key (self.inserted + 1) (self.array (self.slot key)).first

end Hash

/-! ## What is stored -/

/-- The calls of a hash. -/
inductive HashOp (ι : Type)
  | insert (key : UInt32) (item : ι)
  | erase (item : ι)
  | get (key : UInt32)

/-- The keys and items inserted and not erased since, in the order of insertion. -/
abbrev Stored (ι : Type) := List (UInt32 × ι)

namespace Stored

variable [DecidableEq ι]

/-- What a call does to what is stored, and what it returns if it is `nn_hash_get`. -/
def spec : Spec (Stored ι) (HashOp ι) (Option ι) where
  step t
    | .insert key item => (t ++ [(key, item)], none)
    | .erase item => (t.filter (·.2 ≠ item), none)
    | .get key => (t, (t.find? (·.1 = key)).map (·.2))

/-- An absent key is inserted, with an item that is in no list; `free` are the items
    that were in none when the hash was made. What is erased is stored. -/
def Allowed (free : ι → Prop) (t : Stored ι) : HashOp ι → Prop
  | .insert key item => free item ∧ ∀ p ∈ t, p.1 ≠ key ∧ p.2 ≠ item
  | .erase item => ∃ key, (key, item) ∈ t
  | .get _ => True

end Stored

namespace Hash

variable [DecidableEq ι]

/-- A hash answers `nn_hash_get`. -/
def program : Program (Hash ι) (HashOp ι) (Option ι) Fault where
  exec self
    | .insert key item => do
      let self ← self.insert key item
      pure (self, none)
    | .erase item => do
      let self ← self.erase item
      pure (self, none)
    | .get key => do
      let item ← self.get key
      pure (self, item)

/-- The hash stores `t`: each item has its key, and is in the list of the slot of
    its key and in no other; `items` counts them as far as 32 bits go. -/
structure Holds (free : ι → Prop) (s : Hash ι) (t : Stored ι) : Prop where
  slots : 0 < s.slots.toNat
  families : ∃ xs : ℕ → List ι, Families s.list s.array xs ∧
    ∀ i x, x ∈ xs i ↔ (s.key x, x) ∈ t ∧ i = s.slot (s.key x)
  key : ∀ k x, (k, x) ∈ t → s.key x = k
  keys : (t.map Prod.fst).Nodup
  items : s.items = UInt32.ofNat t.length
  length : t.length ≤ s.inserted
  unstored : ∀ x, free x → (∀ k, (k, x) ∉ t) → s.list.itemIsinlist x = false

variable {self : Hash ι} {free : ι → Prop} {t : Stored ι} {key : UInt32} {x : ι} {xs : List ι}
  {p : Link ι} {n : ℕ}

omit [DecidableEq ι] in
theorem slot_lt (h : 0 < self.slots.toNat) (key : UInt32) : self.slot key < self.slots.toNat := by
  rw [slot, UInt32.toNat_mod]
  exact Nat.mod_lt _ h

/-! ### The loops over a list -/

theorem checkKey_spec (h : Chain self.list.next p xs .null) (hk : ∀ x ∈ xs, self.key x ≠ key)
    (hn : xs.length < n) : self.checkKey key n p = .ok () := by
  induction xs generalizing p n with
  | nil =>
    obtain ⟨n, rfl⟩ := Nat.exists_eq_succ_of_ne_zero (Nat.ne_of_gt hn)
    rw [chain_nil.1 h]
    rfl
  | cons x xs ih =>
    obtain ⟨n, rfl⟩ := Nat.exists_eq_succ_of_ne_zero (Nat.ne_of_gt (Nat.zero_lt_of_lt hn))
    obtain ⟨rfl, h'⟩ := h
    simp only [checkKey, hk x List.mem_cons_self, ne_eq, not_false_eq_true, decide_true,
      nnAssert_true, ok_bind, NnList.next_ok h']
    exact ih h' (fun y hy => hk y (List.mem_cons_of_mem x hy)) (Nat.lt_of_succ_lt_succ hn)

theorem find_spec (h : Chain self.list.next p xs .null) (hn : xs.length < n) :
    self.find key n p = .ok (xs.find? fun x => self.key x = key) := by
  induction xs generalizing p n with
  | nil =>
    obtain ⟨n, rfl⟩ := Nat.exists_eq_succ_of_ne_zero (Nat.ne_of_gt hn)
    rw [chain_nil.1 h]
    rfl
  | cons x xs ih =>
    obtain ⟨n, rfl⟩ := Nat.exists_eq_succ_of_ne_zero (Nat.ne_of_gt (Nat.zero_lt_of_lt hn))
    obtain ⟨rfl, h'⟩ := h
    by_cases hk : self.key x = key
    · simp [find, hk]
    · simp only [find, if_neg hk, NnList.next_ok h', ok_bind]
      rw [ih h' (Nat.lt_of_succ_lt_succ hn), List.find?_cons_of_neg (by simpa using hk)]

/-! ### Rehashing -/

/-- The items are being moved from the lists `ys` of the old array to the lists
    `zs` of the new one; each stored item is in one of either, in its slot there. -/
structure Moving (free stored : ι → Prop) (old new : ι → ℕ) (list : Items ι)
    (oldarray array : ℕ → NnList ι) (ys zs : ℕ → List ι) : Prop where
  families : Families list (Sum.elim oldarray array) (Sum.elim ys zs)
  old_eq : ∀ {i x}, x ∈ ys i → i = old x
  new_eq : ∀ {i x}, x ∈ zs i → i = new x
  stored_iff : ∀ x, stored x ↔ x ∈ ys (old x) ∨ x ∈ zs (new x)
  unstored : ∀ x, free x → ¬ stored x → list.itemIsinlist x = false

variable {stored : ι → Prop} {old new : ι → ℕ} {list : Items ι} {oldarray array : ℕ → NnList ι}
  {ys zs : ℕ → List ι} {i : ℕ}

/-- One item is moved. -/
theorem Moving.move (h : Moving free stored old new list oldarray array ys zs)
    (hi : ys i = x :: xs) :
    ∃ list₁ l list' l', NnList.erase list (oldarray i) x = .ok (list₁, l, Link.head xs) ∧
      NnList.insert list₁ (array (new x)) x .null = .ok (list', l') ∧
      Moving free stored old new list' (update oldarray i l) (update array (new x) l')
        (update ys i xs) (update zs (new x) (zs (new x) ++ [x])) := by
  have hk : Sum.elim ys zs (.inl i) = [] ++ x :: xs := hi
  obtain ⟨list₁, l, he, hf₁, hx, hfr₁⟩ := h.families.erase_spec hk
  obtain ⟨list', l', hins, hf₂, hfr₂⟩ := hf₁.insert_spec (.inr (new x)) hx
  simp only [Sum.update_elim_inl, Sum.update_elim_inr, Sum.elim_inl, Sum.elim_inr,
    List.nil_append] at he hins hf₂ hfr₂
  have hxi : x ∈ ys i := hi ▸ List.mem_cons_self
  have hxs : ∀ y, y ≠ x → ∀ j, (y ∈ update ys i xs j ↔ y ∈ ys j) := by
    intro y hy j
    by_cases hj : j = i
    · subst hj
      simp [hi, hy]
    · simp [hj]
  have hzs : ∀ y, y ≠ x → ∀ j, (y ∈ update zs (new x) (zs (new x) ++ [x]) j ↔ y ∈ zs j) := by
    intro y hy j
    by_cases hj : j = new x
    · subst hj
      simp [hy]
    · simp [hj]
  have hnew : x ∈ Sum.elim (update ys i xs) (update zs (new x) (zs (new x) ++ [x]))
      (.inr (new x)) := by
    simp
  refine ⟨list₁, l, list', l', he, hins, hf₂, fun {j y} hy => ?_, fun {j y} hy => ?_, fun y => ?_,
    fun y hfree hy => ?_⟩
  · by_cases hyx : y = x
    · exact absurd (hf₂.disjoint (j := .inl j) (hyx ▸ hy) hnew) (by simp)
    · exact h.old_eq ((hxs y hyx j).1 hy)
  · by_cases hyx : y = x
    · exact hyx ▸ Sum.inr.inj (hf₂.disjoint (j := .inr j) (hyx ▸ hy) hnew)
    · exact h.new_eq ((hzs y hyx j).1 hy)
  · by_cases hyx : y = x
    · subst hyx
      simp [(h.stored_iff y).2 (.inl (h.old_eq hxi ▸ hxi))]
    · rw [hxs y hyx, hzs y hyx, h.stored_iff]
  · have hyx : y ≠ x := fun he => hy (he ▸ (h.stored_iff x).2 (.inl (h.old_eq hxi ▸ hxi)))
    have hys : ∀ j, y ∉ ys j := fun j hj => hy ((h.stored_iff y).2 (.inl (h.old_eq hj ▸ hj)))
    have hzs' : ∀ j, y ∉ zs j := fun j hj => hy ((h.stored_iff y).2 (.inr (h.new_eq hj ▸ hj)))
    rw [hfr₂ y hyx fun j => ?_, hfr₁ y fun j => ?_]
    · exact h.unstored y hfree hy
    · cases j with
      | inl j => exact hys j
      | inr j => exact hzs' j
    · cases j with
      | inl j => exact fun hj => hys j ((hxs y hyx j).1 hj)
      | inr j => exact hzs' j

/-- The inner loop empties a list of the old array. -/
theorem moveSlot_spec {i : ℕ}
    (h : Moving free stored old (fun x => self.slot (self.key x)) self.list oldarray self.array ys zs)
    (hn : (ys i).length < n) :
    ∃ list array oldarray' zs',
      moveSlot i n (self, oldarray) = .ok ({ self with list := list, array := array }, oldarray') ∧
      Moving free stored old (fun x => self.slot (self.key x)) list oldarray' array
        (update ys i []) zs' := by
  obtain ⟨xs, hxs⟩ : ∃ xs, ys i = xs := ⟨_, rfl⟩
  rw [hxs] at hn
  induction xs generalizing self oldarray ys zs n with
  | nil =>
    obtain ⟨n, rfl⟩ := Nat.exists_eq_succ_of_ne_zero (Nat.ne_of_gt hn)
    refine ⟨self.list, self.array, oldarray, zs, ?_, ?_⟩
    · have he := (h.families.lists (.inl i)).empty_eq
      simp only [Sum.elim_inl, hxs, List.isEmpty_nil] at he
      simp [moveSlot, he]
    · rwa [← hxs, update_eq_self]
  | cons x xs ih =>
    obtain ⟨n, rfl⟩ := Nat.exists_eq_succ_of_ne_zero (Nat.ne_of_gt (Nat.zero_lt_of_lt hn))
    have hl := h.families.lists (.inl i)
    have hemp := hl.empty_eq
    have hfirst := hl.first_eq
    simp only [Sum.elim_inl, hxs, List.isEmpty_cons, Link.head_cons] at hemp hfirst
    obtain ⟨list₁, l, list₂, l', he, hins, hm⟩ := h.move hxs
    obtain ⟨list, array, oldarray', zs', hr, hm'⟩ :=
      @ih { self with list := list₂, array := update self.array (self.slot (self.key x)) l' } n _ _ _
      hm (Nat.lt_of_succ_lt_succ hn) (update_self ..)
    rw [update_idem] at hm'
    refine ⟨list, array, oldarray', zs', ?_, hm'⟩
    simp only [moveSlot, hemp, hfirst, he, hins, ok_bind, Bool.false_eq_true, if_false]
    exact hr

/-- The outer loop empties the lists it goes over, which `nn_list_term` finds empty. -/
theorem moveSlots_spec {is : List ℕ}
    (h : Moving free stored old (fun x => self.slot (self.key x)) self.list oldarray self.array ys zs)
    (hn : ∀ i, (ys i).length ≤ self.inserted) :
    ∃ list array oldarray' zs',
      moveSlots is (self, oldarray) = .ok ({ self with list := list, array := array }, oldarray') ∧
      Moving free stored old (fun x => self.slot (self.key x)) list oldarray' array
        (fun i => if i ∈ is then [] else ys i) zs' := by
  induction is generalizing self oldarray ys zs with
  | nil => exact ⟨self.list, self.array, oldarray, zs, rfl, by simpa using h⟩
  | cons i is ih =>
    obtain ⟨list₁, array₁, oldarray₁, zs₁, hs, hm⟩ := moveSlot_spec h (Nat.lt_succ_of_le (hn i))
    have hl := hm.families.lists (.inl i)
    rw [Sum.elim_inl, Sum.elim_inl, update_self] at hl
    obtain ⟨list, array, oldarray', zs', hr, hm'⟩ :=
      @ih { self with list := list₁, array := array₁ } _ _ _ hm fun j => by
        by_cases hj : j = i
        · simp [hj]
        · simpa [hj] using hn j
    have hys : (fun j => if j ∈ is then [] else update ys i [] j) =
        fun j => if j ∈ i :: is then [] else ys j := by
      funext j
      by_cases hj : j = i
      · simp [hj]
      · simp [hj]
    refine ⟨list, array, oldarray', zs', ?_, hys ▸ hm'⟩
    simp only [moveSlots, hs, ok_bind, hl.term_ok]
    exact hr

/-! ### What is stored -/

/-- No list has more items than there are. -/
theorem Holds.length_le (h : Holds free self t) {xs : ℕ → List ι}
    (hf : Families self.list self.array xs)
    (hx : ∀ i x, x ∈ xs i ↔ (self.key x, x) ∈ t ∧ i = self.slot (self.key x)) (i : ℕ) :
    (xs i).length ≤ self.inserted := by
  have hnd : ((xs i).map fun x => (self.key x, x)).Nodup :=
    (hf.lists i).nodup.map fun x y he => (Prod.mk.inj he).2
  have hsub : (xs i).map (fun x => (self.key x, x)) ⊆ t := fun p hp => by
    obtain ⟨x, hxi, rfl⟩ := List.mem_map.1 hp
    exact ((hx i x).1 hxi).1
  have hle := hnd.length_le_of_subset hsub
  rw [List.length_map] at hle
  exact Nat.le_trans hle h.length

omit [DecidableEq ι] in
theorem slots_double (h : self.slots < 0x80000000) :
    (self.slots * 2).toNat = 2 * self.slots.toNat := by
  have hlt : self.slots.toNat < 0x80000000 := UInt32.lt_iff_toNat_lt.1 h
  rw [UInt32.toNat_mul, Nat.mod_eq_of_lt] <;> simp <;> omega

/-- Rehashing keeps what is stored, under its keys, and leaves the old lists empty. -/
theorem rehash_spec (h : Holds free self t) (hs : self.slots < 0x80000000) :
    ∃ self' oldarray, self.rehash = .ok (self', oldarray) ∧ Holds free self' t ∧
      self'.slots.toNat = 2 * self.slots.toNat ∧ self'.key = self.key ∧
      ∀ i < self.slots.toNat, oldarray i = NnList.init := by
  obtain ⟨xs, hf, hx⟩ := h.families
  have hslots := slots_double hs
  have hmem : ∀ x, (self.key x, x) ∈ t ↔ ∃ k, (k, x) ∈ t :=
    fun x => ⟨fun hk => ⟨_, hk⟩, fun ⟨k, hk⟩ => (h.key k x hk).symm ▸ hk⟩
  have hfam : Families self.list (Sum.elim self.array fun _ : ℕ => NnList.init)
      (Sum.elim xs fun _ => []) := by
    refine ⟨fun k => ?_, fun {j k x} hj hk => ?_⟩
    · cases k with
      | inl i => exact hf.lists i
      | inr i => exact .init _
    · cases j with
      | inl i =>
        cases k with
        | inl i' => exact congrArg Sum.inl (hf.disjoint hj hk)
        | inr i' => exact absurd hk List.not_mem_nil
      | inr i => exact absurd hj List.not_mem_nil
  -- All items are in the old array.
  have hmoving : Moving free (fun x => (self.key x, x) ∈ t) (fun x => self.slot (self.key x))
      (fun x => { self with slots := self.slots * 2 : Hash ι }.slot (self.key x)) self.list self.array
      (fun _ => NnList.init) xs fun _ => [] :=
    ⟨hfam, fun hi => ((hx _ _).1 hi).2, fun hi => absurd hi List.not_mem_nil,
      fun x => by simp [hx], fun x hfree hx => h.unstored x hfree fun k hk => hx ((hmem x).2 ⟨k, hk⟩)⟩
  obtain ⟨list, array, oldarray, zs, hr, hm⟩ :=
    @moveSlots_spec _ _ { self with slots := self.slots * 2, array := fun _ => NnList.init } _ _ _ _ _ _
      (List.range self.slots.toNat) hmoving (h.length_le hf hx)
  have hys : (fun i => if i ∈ List.range self.slots.toNat then [] else xs i) = fun _ => [] := by
    funext i
    split
    · rfl
    · -- There is no other slot.
      next hi =>
      refine List.eq_nil_iff_forall_not_mem.2 fun x hxi => hi (List.mem_range.2 ?_)
      rw [((hx i x).1 hxi).2]
      exact slot_lt h.slots _
  rw [hys] at hm
  have hlists : Families list array zs :=
    ⟨fun i => hm.families.lists (.inr i),
      fun {i j x} hi hj => Sum.inr.inj (hm.families.disjoint (j := .inr i) (k := .inr j) hi hj)⟩
  refine ⟨_, oldarray, hr, ⟨?_, ⟨zs, hlists, fun i x => ?_⟩, h.key, h.keys, h.items, h.length, ?_⟩,
    hslots, rfl, fun i _ => ?_⟩
  · show 0 < (self.slots * 2).toNat
    have := h.slots
    omega
  · constructor
    · intro hi
      have hn := hm.new_eq hi
      exact ⟨(hm.stored_iff x).2 (.inr (hn ▸ hi)), hn⟩
    · rintro ⟨ht, rfl⟩
      exact ((hm.stored_iff x).1 ht).resolve_left List.not_mem_nil
  · exact fun x hfree hx => hm.unstored x hfree fun hk => hx _ hk
  · exact (hm.families.lists (.inl i)).eq_init

/-! ### The operations -/

/-- A key is stored with one item. -/
theorem Holds.item_unique (h : Holds free self t) {k : UInt32} {x y : ι} (hx : (k, x) ∈ t)
    (hy : (k, y) ∈ t) : x = y :=
  (Prod.mk.inj (List.inj_on_of_nodup_map h.keys hx hy rfl)).2

/-- What is stored before the hash grows, if it does. -/
theorem put_spec (h : Holds free self t) (hfree : free x) (ht : ∀ p ∈ t, p.1 ≠ key ∧ p.2 ≠ x) :
    ∃ self', self.put key x = .ok self' ∧ Holds free self' (t ++ [(key, x)]) := by
  obtain ⟨xs, hf, hx⟩ := h.families
  have hnot : ∀ k, (k, x) ∉ t := fun k hk => (ht _ hk).2 rfl
  have hcheck : self.checkKey key (self.inserted + 1) (self.array (self.slot key)).first = .ok () :=
    checkKey_spec (hf.lists _).fwd (fun y hy => (ht _ ((hx _ y).1 hy).1).1)
      (Nat.lt_succ_of_le (h.length_le hf hx _))
  obtain ⟨list, l, hi, hf', hframe⟩ := hf.insert_spec (self.slot key) (h.unstored x hfree hnot)
  have hkey : ∀ y, y ≠ x → update self.key x key y = self.key y := fun y hy => update_of_ne hy _ _
  refine ⟨{ self with
    key := update self.key x key
    list := list
    array := update self.array (self.slot key) l
    items := self.items + 1
    inserted := self.inserted + 1 }, by simp [put, hcheck, hi], ?_⟩
  refine ⟨h.slots, ⟨_, hf', fun i y => ?_⟩, fun k y hy => ?_, ?_, ?_, ?_, fun y hy hn => ?_⟩
  · show y ∈ update xs (self.slot key) (xs (self.slot key) ++ [x]) i ↔
      (update self.key x key y, y) ∈ t ++ [(key, x)] ∧ i = self.slot (update self.key x key y)
    by_cases hyx : y = x
    · subst hyx
      have hout : ∀ j, y ∉ xs j := fun j hj => hnot _ ((hx j y).1 hj).1
      by_cases hik : i = self.slot key
      · simp [hik]
      · simp [hik, hout i]
    · rw [hkey y hyx]
      by_cases hik : i = self.slot key
      · simp [hik, hyx, hx]
      · simp [hik, hyx, hx]
  · rcases List.mem_append.1 hy with hy | hy
    · rw [← h.key k y hy]
      exact hkey y (ht _ hy).2
    · obtain ⟨rfl, rfl⟩ := Prod.mk.inj (List.mem_singleton.1 hy)
      exact update_self ..
  · have hkt : key ∉ t.map Prod.fst := fun hm => by
      obtain ⟨p, hp, hpk⟩ := List.mem_map.1 hm
      exact (ht p hp).1 hpk
    rw [List.map_append, List.map_singleton, List.nodup_append]
    refine ⟨h.keys, List.nodup_singleton _, fun a ha b hb he => ?_⟩
    obtain rfl : b = key := List.mem_singleton.1 hb
    exact hkt (he ▸ ha)
  · simp [h.items]
  · simpa using h.length
  · have hyx : y ≠ x := fun he => hn key (he ▸ by simp)
    have hyt : ∀ k, (k, y) ∉ t := fun k hk => hn k (List.mem_append_left _ hk)
    exact (hframe y hyx fun j hj => hyt _ ((hx j y).1 hj).1).trans (h.unstored y hy hyt)

/-- Inserting an item, after which the hash may grow. -/
theorem insert_spec (h : Holds free self t) (hfree : free x) (ht : ∀ p ∈ t, p.1 ≠ key ∧ p.2 ≠ x) :
    ∃ self', self.insert key x = .ok self' ∧ Holds free self' (t ++ [(key, x)]) := by
  obtain ⟨self₁, hp, h₁⟩ := put_spec h hfree ht
  by_cases hc : self₁.Crowded
  · obtain ⟨self₂, oldarray, hr, h₂, -⟩ := rehash_spec h₁ hc.2
    exact ⟨self₂, by simp [insert, hp, hc, hr], h₂⟩
  · exact ⟨self₁, by simp [insert, hp, hc], h₁⟩

/-- One is stored less when an item is erased. -/
theorem Holds.length_erase (h : Holds free self t) (hk : (self.key x, x) ∈ t) :
    t.length = (t.filter (·.2 ≠ x)).length + 1 := by
  have hkeys : ∀ k, (k, x) ∈ t → k = self.key x := fun k hm => (h.key k x hm).symm
  have hnd := h.keys
  obtain ⟨as, bs, rfl⟩ := List.append_of_mem hk
  rw [List.map_append, List.map_cons, List.nodup_middle, List.nodup_cons, ← List.map_append] at hnd
  have hall : ∀ p ∈ as ++ bs, p.2 ≠ x := by
    rintro ⟨k, y⟩ hp rfl
    have hm : (k, y) ∈ as ++ (self.key y, y) :: bs := by
      simp only [List.mem_append, List.mem_cons] at hp ⊢
      tauto
    exact hnd.1 (List.mem_map.2 ⟨_, hp, hkeys k hm⟩)
  have hfilter : (as ++ (self.key x, x) :: bs).filter (·.2 ≠ x) = as ++ bs := filter_key_ne rfl hall
  rw [hfilter, List.length_append, List.length_cons,
    List.length_append, Nat.add_assoc]

/-- Erasing an item that is stored. -/
theorem erase_spec (h : Holds free self t) {k : UInt32} (hk : (k, x) ∈ t) :
    ∃ self', self.erase x = .ok self' ∧ Holds free self' (t.filter (·.2 ≠ x)) := by
  obtain ⟨xs, hf, hx⟩ := h.families
  obtain rfl := h.key k x hk
  obtain ⟨us, vs, hxs⟩ := List.append_of_mem ((hx _ x).2 ⟨hk, rfl⟩)
  obtain ⟨list, l, he, hf', hxl, hframe⟩ := hf.erase_spec hxs
  have hlength := h.length_erase hk
  have hmem : ∀ p : UInt32 × ι, p ∈ t.filter (·.2 ≠ x) ↔ p ∈ t ∧ p.2 ≠ x := fun p => by simp
  refine ⟨{ self with
    list := list
    array := update self.array (self.slot (self.key x)) l
    items := self.items - 1 }, by simp [erase, he], ?_⟩
  refine ⟨h.slots, ⟨_, hf', fun i y => ?_⟩, fun k y hy => h.key k y ((hmem _).1 hy).1,
    h.keys.sublist (List.filter_sublist.map _), ?_, ?_, fun y hy hn => ?_⟩
  · show y ∈ update xs (self.slot (self.key x)) (us ++ vs) i ↔
      (self.key y, y) ∈ t.filter (·.2 ≠ x) ∧ i = self.slot (self.key y)
    rw [hmem]
    by_cases hyx : y = x
    · subst hyx
      have hnot : y ∉ us ++ vs :=
        (List.nodup_cons.1 (List.nodup_middle.1 (hxs ▸ (hf.lists _).nodup))).1
      by_cases hi : i = self.slot (self.key y)
      · rw [hi, update_self]
        exact iff_of_false hnot fun hm => hm.1.2 rfl
      · rw [update_of_ne hi]
        exact iff_of_false (fun hm => hi ((hx i y).1 hm).2) fun hm => hi hm.2
    · have hand : ((self.key y, y) ∈ t ∧ (self.key y, y).2 ≠ x) ↔ (self.key y, y) ∈ t :=
        and_iff_left hyx
      rw [hand, ← hx]
      by_cases hi : i = self.slot (self.key x)
      · simp [hi, hxs, hyx]
      · rw [update_of_ne hi]
  · rw [h.items, hlength]
    simp
  · show (t.filter (·.2 ≠ x)).length ≤ self.inserted
    have := h.length
    omega
  · by_cases hyx : y = x
    · exact hyx ▸ hxl
    · have hyt : ∀ k, (k, y) ∉ t := fun k hk => hn k ((hmem _).2 ⟨hk, hyx⟩)
      exact (hframe y fun j hj => hyt _ ((hx j y).1 hj).1).trans (h.unstored y hy hyt)

theorem get_spec (h : Holds free self t) (key : UInt32) :
    self.get key = .ok ((t.find? (·.1 = key)).map (·.2)) := by
  obtain ⟨xs, hf, hx⟩ := h.families
  rw [get, find_spec (hf.lists _).fwd (Nat.lt_succ_of_le (h.length_le hf hx _))]
  refine congrArg Except.ok ?_
  cases hfind : t.find? (·.1 = key) with
  | none =>
    rw [Option.map_none, List.find?_eq_none]
    intro y hy hky
    have := List.find?_eq_none.1 hfind _ ((hx _ y).1 hy).1
    exact this hky
  | some p =>
    have hp := List.mem_of_find?_eq_some hfind
    have hpk : p.1 = key := by simpa using List.find?_some hfind
    subst hpk
    have hkp := h.key p.1 p.2 hp
    have hpx : p.2 ∈ xs (self.slot p.1) := (hx _ _).2 ⟨hkp.symm ▸ hp, by rw [hkp]⟩
    rw [Option.map_some]
    cases hy : (xs (self.slot p.1)).find? fun x => self.key x = p.1 with
    | none => exact absurd hkp (by simpa using List.find?_eq_none.1 hy _ hpx)
    | some y =>
      have hyk : self.key y = p.1 := by simpa using List.find?_some hy
      have hyt := ((hx _ y).1 (List.mem_of_find?_eq_some hy)).1
      rw [hyk] at hyt
      exact congrArg some (h.item_unique hyt hp)

/-! ### Runs -/

theorem holds_init (key : ι → UInt32) {list : Items ι}
    (hfree : ∀ x, free x → list.itemIsinlist x = false) : Holds free (init key list) [] where
  slots := Nat.zero_lt_succ 31
  families := ⟨fun _ => [], .init list, fun i x => by simp⟩
  key := fun _ _ h => absurd h List.not_mem_nil
  keys := List.nodup_nil
  items := rfl
  length := Nat.le_refl 0
  unstored := fun x h _ => hfree x h

theorem refines (free : ι → Prop) :
    (program (ι := ι)).Refines Stored.spec (Stored.Allowed free) (Holds free) := by
  intro self t op h ha
  cases op with
  | insert key x =>
    obtain ⟨self', hx, h'⟩ := insert_spec h ha.1 ha.2
    exact ⟨self', by simp [program, hx, Stored.spec], h'⟩
  | erase x =>
    obtain ⟨k, hk⟩ := ha
    obtain ⟨self', hx, h'⟩ := erase_spec h hk
    exact ⟨self', by simp [program, hx, Stored.spec], h'⟩
  | get key => exact ⟨self, by simp [program, get_spec h, Stored.spec], h⟩

/-- After any calls, a hash has answered as what was stored says, and stores what
    is stored then. One more insertion puts the item into the slot of its key;
    if the hash grows then, it stores the same, under the same keys, and the old lists are
    empty. -/
theorem hash_correct (key : ι → UInt32) (list : Items ι) (ops : List (HashOp ι))
    (hops : Stored.spec.Allowed (Stored.Allowed fun x => list.itemIsinlist x = false) [] ops) :
    ∃ self, program.run (init key list) ops = .ok (self, (Stored.spec.run [] ops).2) ∧
      Holds (fun x => list.itemIsinlist x = false) self (Stored.spec.run [] ops).1 ∧
      ∀ k x, Stored.Allowed (fun x => list.itemIsinlist x = false) (Stored.spec.run [] ops).1
          (.insert k x) →
        ∃ self₁, self.put k x = .ok self₁ ∧
          Holds (fun x => list.itemIsinlist x = false) self₁
            ((Stored.spec.run [] ops).1 ++ [(k, x)]) ∧
          (self₁.Crowded → ∃ self₂ oldarray, self₁.rehash = .ok (self₂, oldarray) ∧
            Holds (fun x => list.itemIsinlist x = false) self₂
              ((Stored.spec.run [] ops).1 ++ [(k, x)]) ∧
            self₂.slots.toNat = 2 * self₁.slots.toNat ∧ self₂.key = self₁.key ∧
            ∀ i < self₁.slots.toNat, oldarray i = NnList.init) := by
  obtain ⟨self, hr, h⟩ := (refines _).run (holds_init key fun _ h => h) hops
  refine ⟨self, hr, h, fun k x ha => ?_⟩
  obtain ⟨self₁, hp, h₁⟩ := put_spec h ha.1 ha.2
  exact ⟨self₁, hp, h₁, fun hc => rehash_spec h₁ hc.2⟩

/-- Insertions of items numbered from `i` on, under their numbers. -/
def fill : ℕ → ℕ → List (HashOp ℕ)
  | _, 0 => []
  | i, n + 1 => .insert (UInt32.ofNat i) i :: fill (i + 1) n

/-- The numbers that 32 bits hold are different keys. -/
theorem fill_spec {t : Stored ℕ} {i n : ℕ} {free : ℕ → Prop} (hfree : ∀ x, free x)
    (ht : ∀ p ∈ t, p.1 = UInt32.ofNat p.2 ∧ p.2 < i) (hn : i + n ≤ 2 ^ 32) :
    Stored.spec.Allowed (Stored.Allowed free) t (fill i n) ∧
      (Stored.spec.run t (fill i n)).1.length = t.length + n := by
  induction n generalizing t i with
  | zero => exact ⟨trivial, rfl⟩
  | succ n ih =>
    have hi : ∀ p ∈ t, p.1 ≠ UInt32.ofNat i ∧ p.2 ≠ i := fun p hp => by
      obtain ⟨hk, hlt⟩ := ht p hp
      refine ⟨fun he => ?_, Nat.ne_of_lt hlt⟩
      have hnat := congrArg UInt32.toNat (hk.symm.trans he)
      rw [UInt32.toNat_ofNat_of_lt' (by rw [UInt32.size]; omega),
        UInt32.toNat_ofNat_of_lt' (by rw [UInt32.size]; omega)] at hnat
      omega
    obtain ⟨ha, hlen⟩ := ih (t := t ++ [(UInt32.ofNat i, i)]) (i := i + 1) (fun p hp => by
      rcases List.mem_append.1 hp with hp | hp
      · exact ⟨(ht p hp).1, Nat.lt_succ_of_lt (ht p hp).2⟩
      · rw [List.mem_singleton.1 hp]
        exact ⟨rfl, Nat.lt_succ_self i⟩) (by omega)
    refine ⟨⟨⟨hfree i, hi⟩, ha⟩, ?_⟩
    rw [fill, Spec.run_cons]
    refine hlen.trans ?_
    simp
    omega

/-- Seventeen items, for which the hash grows once. -/
theorem hash_correct_fill :
    ∃ self, program.run (init (fun _ => 0) ⟨fun _ => .out, fun _ => .out⟩) (fill 0 17) =
        .ok (self, (Stored.spec.run [] (fill 0 17)).2) ∧
      Holds (fun _ => True) self (Stored.spec.run [] (fill 0 17)).1 := by
  obtain ⟨self, hr, h, -⟩ := hash_correct (fun _ => 0) ⟨fun _ => .out, fun _ => .out⟩ (fill 0 17)
    (fill_spec (fun _ => rfl) (by simp) (by omega)).1
  exact ⟨self, hr, h.slots, h.families, h.key, h.keys, h.items, h.length, fun x _ => h.unstored x rfl⟩

/-- When every key is stored, `items` is 0 again. -/
theorem hash_items_wrap :
    ∃ self, program.run (init (fun _ => 0) ⟨fun _ => .out, fun _ => .out⟩) (fill 0 (2 ^ 32)) =
        .ok (self, (Stored.spec.run [] (fill 0 (2 ^ 32))).2) ∧
      Stored.spec.Allowed (Stored.Allowed fun _ => True) [] (fill 0 (2 ^ 32)) ∧
      (Stored.spec.run [] (fill 0 (2 ^ 32))).1.length = 2 ^ 32 ∧ self.items = 0 := by
  obtain ⟨ha, hlen⟩ := @fill_spec [] 0 (2 ^ 32) (fun _ => True) (fun _ => trivial) (by simp) (by omega)
  obtain ⟨self, hr, h⟩ := (refines fun _ => True).run
    (@holds_init _ _ _ (fun _ => 0) ⟨fun _ => .out, fun _ => .out⟩ fun _ _ => rfl) ha
  rw [List.length_nil, Nat.zero_add] at hlen
  refine ⟨self, hr, ha, hlen, ?_⟩
  rw [h.items, hlen]
  rfl

end Hash

end Nanomsg
