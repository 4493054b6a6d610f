import Nanomsg.Aio.Pollset
import Nanomsg.Lib.Thread
import Mathlib.Data.List.Range

/-!
# Compaction in the poll backend

The loop at the start of `nn_poller_wait`: the slots of removed handles, linked from `removed` on,
go one after the other, each of them filled from the end of the arrays; what fills it may itself
be of a removed handle, anywhere in the list.

When the slot that goes is the last one, nothing fills it, and the next of the list is told to
come after it: from then on the first slot of the list may come after a slot beyond those in use
(`Compacting.thread`). What the loop then writes there is never read.
-/

namespace Nanomsg

open Function Threads

variable {κ : Type}

namespace Pollset

/-- The slots in use. -/
def Slot (s : Pollset κ) (i : ℤ) : Prop := 0 ≤ i ∧ i < s.size

/-- The handle is in the slot. -/
def Lives (s : Pollset κ) (hndl : κ) (i : ℤ) : Prop := s.Slot i ∧ (s.hndls i).hndl = some hndl

/-- The handles in the slots. -/
def live (s : Pollset κ) : List κ := (List.range s.size).filterMap fun i : ℕ => (s.hndls i).hndl

/-- The same with arrays of `c` slots. -/
def within (s : Pollset κ) (c : ℕ) : Pollset κ := { s with capacity := c }

@[simp] theorem within_size (s : Pollset κ) (c : ℕ) : (s.within c).size = s.size := rfl
@[simp] theorem within_removed (s : Pollset κ) (c : ℕ) : (s.within c).removed = s.removed := rfl

/-- From the slot `removed` on, the slots `xs` are linked; the first comes after `q`. -/
def Removed (s : Pollset κ) (q : ℤ) (xs : List ℤ) : Prop :=
  Thread (-1) (fun i => (s.hndls i).next) (fun i => (s.hndls i).prev) q s.removed xs

/-- The slots without a handle are those linked from `removed` on, and the index of each handle
    is that of its slot. -/
structure Linked (s : Pollset κ) (xs : List ℤ) : Prop where
  removed : s.Removed (-1) xs
  nodup : xs.Nodup
  slot : ∀ i ∈ xs, s.Slot i
  free : ∀ i, s.Slot i → ((s.hndls i).hndl = none ↔ i ∈ xs)
  index : ∀ hndl i, s.Lives hndl i → s.slot hndl = i

/-- `t` is `s` without the slots of removed handles. -/
structure Compacted (s t : Pollset κ) : Prop where
  removed : t.removed = -1
  size : t.size = s.live.length
  /-- Each slot has a handle of `s`. -/
  used : ∀ i, t.Slot i → ∃ hndl ∈ s.live, t.Lives hndl i
  /-- Each handle of `s` is in one slot, the one that its index is that of. -/
  lives : ∀ hndl ∈ s.live, ∀ i, t.Lives hndl i ↔ i = t.slot hndl
  /-- It has the `struct pollfd` that it had. -/
  pollset : ∀ hndl ∈ s.live, t.pollset (t.slot hndl) = s.pollset (s.slot hndl)

/-- In the middle of the loop: `s` was compacted up to `t`, and the slots `xs` are left to go. -/
structure Compacting (s t : Pollset κ) (xs : List ℤ) : Prop where
  size : t.size = s.live.length + xs.length
  le : t.size ≤ s.size
  thread : ∃ q, t.Removed q xs ∧ (q = -1 ∨ t.size ≤ q ∧ q < s.size)
  nodup : xs.Nodup
  slot : ∀ i ∈ xs, t.Slot i
  free : ∀ i, t.Slot i → ((t.hndls i).hndl = none ↔ i ∈ xs)
  lives : ∀ hndl i, t.Lives hndl i →
    hndl ∈ s.live ∧ t.slot hndl = i ∧ t.pollset i = s.pollset (s.slot hndl)
  kept : ∀ hndl ∈ s.live, ∃ i, t.Lives hndl i

variable {s t : Pollset κ} {xs : List ℤ} {c : ℕ} {i : ℤ} {hndl : κ}

theorem mem_live : hndl ∈ s.live ↔ ∃ i, s.Lives hndl i := by
  simp only [live, List.mem_filterMap, List.mem_range]
  constructor
  · rintro ⟨i, hi, hh⟩
    exact ⟨i, ⟨Int.natCast_nonneg i, Int.ofNat_lt.2 hi⟩, hh⟩
  · rintro ⟨i, ⟨h0, hi⟩, hh⟩
    obtain ⟨n, rfl⟩ := Int.eq_ofNat_of_zero_le h0
    exact ⟨n, Int.ofNat_lt.1 hi, hh⟩

/-- A slot has a handle, or is linked from `removed` on. -/
theorem Linked.size_eq (h : Linked s xs) : s.size = s.live.length + xs.length := by
  have hlive : s.live.length = (List.range s.size).countP fun i : ℕ => (s.hndls i).hndl.isSome :=
    List.length_filterMap_eq_countP
  -- The slots without a handle, in order, and as they are linked.
  have hperm : (((List.range s.size).filter fun i : ℕ => (s.hndls i).hndl.isNone).map
      (Nat.cast : ℕ → ℤ)).Perm xs := by
    refine (List.perm_ext_iff_of_nodup ?_ h.nodup).2 fun i => ?_
    · exact (List.nodup_range.filter _).map fun _ _ => Int.ofNat.inj
    · simp only [List.mem_map, List.mem_filter, List.mem_range, Option.isNone_iff_eq_none]
      constructor
      · rintro ⟨n, ⟨hn, hh⟩, rfl⟩
        exact (h.free n ⟨Int.natCast_nonneg n, Int.ofNat_lt.2 hn⟩).1 hh
      · intro hi
        obtain ⟨h0, hlt⟩ := h.slot i hi
        obtain ⟨n, rfl⟩ := Int.eq_ofNat_of_zero_le h0
        exact ⟨n, ⟨Int.ofNat_lt.1 hlt, (h.free n ⟨h0, hlt⟩).2 hi⟩, rfl⟩
  have hfree : xs.length = (List.range s.size).countP fun i : ℕ => (s.hndls i).hndl.isNone := by
    rw [← hperm.length_eq, List.length_map, List.countP_eq_length_filter]
  have hcount := List.length_eq_countP_add_countP
    (fun i : ℕ => (s.hndls i).hndl.isSome) (l := List.range s.size)
  rw [List.length_range, ← hlive] at hcount
  rw [hcount, hfree]
  simp only [Bool.not_eq_true, Option.isSome_eq_false_iff, Bool.decide_eq_true]

/-- Before the loop. -/
theorem Linked.compacting (h : Linked s xs) : Compacting s s xs where
  size := h.size_eq
  le := le_rfl
  thread := ⟨-1, h.removed, .inl rfl⟩
  nodup := h.nodup
  slot := h.slot
  free := h.free
  lives hndl i hl := ⟨mem_live.2 ⟨i, hl⟩, h.index hndl i hl, by rw [h.index hndl i hl]⟩
  kept _ hl := mem_live.1 hl

/-- After it. -/
theorem Compacting.compacted (h : Compacting s t []) : Compacted s t where
  removed := by
    obtain ⟨q, hq, -⟩ := h.thread
    exact hq
  size := h.size
  used i hi := by
    obtain ⟨hndl, hh⟩ := Option.ne_none_iff_exists'.1 (mt (h.free i hi).1 List.not_mem_nil)
    exact ⟨hndl, (h.lives hndl i ⟨hi, hh⟩).1, hi, hh⟩
  lives hndl hl i := by
    obtain ⟨j, hj⟩ := h.kept hndl hl
    constructor
    · exact fun hi => (h.lives hndl i hi).2.1.symm
    · rintro rfl
      rwa [(h.lives hndl j hj).2.1]
  pollset hndl hl := by
    obtain ⟨j, hj⟩ := h.kept hndl hl
    obtain ⟨-, hs, hp⟩ := h.lives hndl j hj
    rw [hs, hp]

/-! ### One slot goes -/

section

variable {f : PollFd → PollFd} {g : HndlsItem κ → HndlsItem κ} {j : ℤ}

theorem fd_within (h0 : 0 ≤ i) (hc : i < c) : (s.within c).fd i = .ok (s.pollset i) := if_pos ⟨h0, hc⟩

theorem setFd_within (h0 : 0 ≤ i) (hc : i < c) : (s.within c).setFd i f =
    .ok ({ s with pollset := update s.pollset i (f (s.pollset i)) }.within c) := if_pos ⟨h0, hc⟩

theorem item_within (h0 : 0 ≤ i) (hc : i < c) : (s.within c).item i = .ok (s.hndls i) :=
  if_pos ⟨h0, hc⟩

theorem setItem_within (h0 : 0 ≤ i) (hc : i < c) : (s.within c).setItem i g =
    .ok ({ s with hndls := update s.hndls i (g (s.hndls i)) }.within c) := if_pos ⟨h0, hc⟩

/-- The slot `j` is written, if there is one. -/
def patch (hndls : ℤ → HndlsItem κ) (j : ℤ) (g : HndlsItem κ → HndlsItem κ) : ℤ → HndlsItem κ :=
  if j ≠ -1 then update hndls j (g (hndls j)) else hndls

theorem patch_of_ne {hndls : ℤ → HndlsItem κ} (h : i ≠ j) : patch hndls j g i = hndls i := by
  by_cases hj : j = -1
  · rw [patch, if_neg (not_not.2 hj)]
  · rw [patch, if_pos hj, update_of_ne h]

theorem patch_self {hndls : ℤ → HndlsItem κ} (h : i ≠ -1) : patch hndls i g i = g (hndls i) := by
  rw [patch, if_pos h, update_self]

theorem patch_within {β : Type} (h : j ≠ -1 → 0 ≤ j ∧ j < c) (k : Pollset κ → Except Fault β) :
    (if j ≠ -1 then (s.within c).setItem j g >>= k else pure (s.within c) >>= k) =
      k ({ s with hndls := patch s.hndls j g }.within c) := by
  by_cases hj : j = -1
  · rw [if_neg (not_not.2 hj), patch, if_neg (not_not.2 hj)]
    rfl
  · rw [if_pos hj, patch, if_pos hj, setItem_within (h hj).1 (h hj).2, ok_bind]

/-- What a write leaves as it is. -/
theorem patch_same {β : Type} {hndls : ℤ → HndlsItem κ} (φ : HndlsItem κ → β)
    (hg : ∀ it, φ (g it) = φ it) (i j : ℤ) : φ (patch hndls j g i) = φ (hndls i) := by
  by_cases hj : j = -1
  · rw [patch, if_neg (not_not.2 hj)]
  · by_cases hi : i = j
    · rw [hi, patch_self hj, hg]
    · rw [patch_of_ne hi]

/-- What a write sets to `v`. -/
theorem patch_sets {β : Type} {hndls : ℤ → HndlsItem κ} (φ : HndlsItem κ → β) {v : β}
    (hg : ∀ it, φ (g it) = v) (h : i ≠ -1) :
    φ (patch hndls j g i) = if i = j then v else φ (hndls i) := by
  by_cases hi : i = j
  · subst hi
    rw [patch_self h, hg, if_pos rfl]
  · rw [patch_of_ne hi, if_neg hi]

variable {hndls : ℤ → HndlsItem κ} (v : ℤ)

@[simp] theorem hndl_patch_prev :
    (patch hndls j (fun it => { it with prev := v }) i).hndl = (hndls i).hndl :=
  patch_same HndlsItem.hndl (fun _ => by rfl) i j

@[simp] theorem hndl_patch_next :
    (patch hndls j (fun it => { it with next := v }) i).hndl = (hndls i).hndl :=
  patch_same HndlsItem.hndl (fun _ => by rfl) i j

@[simp] theorem next_patch_prev :
    (patch hndls j (fun it => { it with prev := v }) i).next = (hndls i).next :=
  patch_same HndlsItem.next (fun _ => by rfl) i j

@[simp] theorem prev_patch_next :
    (patch hndls j (fun it => { it with next := v }) i).prev = (hndls i).prev :=
  patch_same HndlsItem.prev (fun _ => by rfl) i j

theorem prev_patch_prev (h : i ≠ -1) :
    (patch hndls j (fun it => { it with prev := v }) i).prev = if i = j then v else (hndls i).prev :=
  patch_sets HndlsItem.prev (fun _ => rfl) h

theorem next_patch_next (h : i ≠ -1) :
    (patch hndls j (fun it => { it with next := v }) i).next = if i = j then v else (hndls i).next :=
  patch_sets HndlsItem.next (fun _ => rfl) h

end

variable [DecidableEq κ] {q : ℤ} {n : ℕ}

/-- The slots, when the next of `i` is told that none comes before it. -/
def reheaded (s : Pollset κ) (i : ℤ) : ℤ → HndlsItem κ :=
  patch s.hndls (s.hndls i).next fun it => { it with prev := -1 }

/-- The slot `i` filled with what is in the slot after the last. -/
def filled (s : Pollset κ) (i : ℤ) : Pollset κ :=
  { s with
    pollset := update s.pollset i (s.pollset s.size)
    hndls := update (s.reheaded i) i (s.reheaded i s.size)
    slot := match (s.reheaded i s.size).hndl with
      | some hndl => update s.slot hndl i
      | none => s.slot }

theorem hndls_filled_self : (s.filled i).hndls i = s.reheaded i s.size := update_self i _ _

theorem hndls_filled_of_ne {x : ℤ} (h : x ≠ i) : (s.filled i).hndls x = s.reheaded i x :=
  update_of_ne h _ _

theorem fill_within (h0 : 0 ≤ i) (hi : i < c) (hn : s.size < c)
    (hnext : (s.hndls i).next ≠ -1 → 0 ≤ (s.hndls i).next ∧ (s.hndls i).next < c) :
    (s.within c).fill i = .ok ((s.filled i).within c) := by
  have h0n : (0 : ℤ) ≤ s.size := Int.natCast_nonneg _
  have hnc : (s.size : ℤ) < c := Int.ofNat_lt.2 hn
  rw [fill, within_size, fd_within h0n hnc, ok_bind, setFd_within h0 hi,
    ok_bind, item_within h0 hi, ok_bind]
  dsimp only
  rw [patch_within hnext]
  dsimp only [within_size]
  rw [item_within h0n hnc, ok_bind, setItem_within h0 hi, ok_bind]
  change (match (s.reheaded i s.size).hndl with | some _ => _ | none => _) = _
  rw [filled]
  cases (s.reheaded i s.size).hndl <;> rfl

/-- The neighbours of the slot `i` told that it is between them, and the list that it is its
    first if that was the slot after the last. -/
def relinked (s : Pollset κ) (i : ℤ) : Pollset κ :=
  { s with
    hndls := patch (patch s.hndls (s.hndls i).prev fun it => { it with next := i })
      (s.hndls i).next fun it => { it with prev := i }
    removed := if s.removed = s.size then i else s.removed }

omit [DecidableEq κ] in
theorem relink_within (h0 : 0 ≤ i) (hi : i < c)
    (hprev : (s.hndls i).prev ≠ -1 → 0 ≤ (s.hndls i).prev ∧ (s.hndls i).prev < c)
    (hpi : (s.hndls i).prev ≠ i)
    (hnext : (s.hndls i).next ≠ -1 → 0 ≤ (s.hndls i).next ∧ (s.hndls i).next < c) :
    (s.within c).relink i = .ok ((s.relinked i).within c) := by
  rw [relink, item_within h0 hi, ok_bind]
  dsimp only
  rw [patch_within hprev, item_within h0 hi, ok_bind]
  dsimp only
  simp only [patch_of_ne hpi.symm]
  rw [patch_within hnext]
  by_cases hr : s.removed = s.size
  · simp only [relinked, within, hr, if_true, pure_eq_ok]
  · simp only [relinked, within, hr, if_false, pure_eq_ok]

/-- The first slot of the list is off it, and the last of all is `n`. -/
def pop (t : Pollset κ) (n : ℕ) : Pollset κ :=
  { t with removed := (t.hndls t.removed).next, size := n }

theorem shrink_last (hsize : t.size = n + 1) (h : t.removed = n) (hc : n < c)
    (hfree : (t.hndls n).hndl = none) : (t.within c).shrink = ((t.pop n).within c).relink n := by
  have hnc : (n : ℤ) < c := Int.ofNat_lt.2 hc
  rw [shrink, within_removed, h, item_within (Int.natCast_nonneg n) hnc, ok_bind, within_size, hsize,
    pop, h]
  dsimp only
  rw [if_neg (not_not.2 rfl), pure_eq_ok, ok_bind]
  change ({ t with removed := (t.hndls n).next, size := n }.within c).item n >>= _ = _
  rw [item_within (Int.natCast_nonneg n) hnc, ok_bind]
  exact if_pos (Option.isNone_iff_eq_none.2 hfree)

theorem shrink_fill (hsize : t.size = n + 1) (h : t.removed = i) (h0 : 0 ≤ i) (hi : i < n)
    (hc : n < c) {u : Pollset κ} (hfill : ((t.pop n).within c).fill i = .ok (u.within c)) :
    (t.within c).shrink =
      if (u.hndls i).hndl.isNone then (u.within c).relink i else .ok (u.within c) := by
  have hic : i < c := Int.lt_trans hi (Int.ofNat_lt.2 hc)
  rw [pop, h, within] at hfill
  rw [shrink, within_removed, h, item_within h0 hic, ok_bind, within_size, hsize]
  dsimp only
  rw [if_pos (Int.ne_of_lt hi)]
  change Pollset.fill { t with removed := (t.hndls i).next, size := n, capacity := c } i >>= _ = _
  rw [hfill, ok_bind, item_within h0 hic, ok_bind]
  rfl

/-- What is in the slots of `u` was in those of `t`; the last of them has gone to `i`. -/
structure Filled (t u : Pollset κ) (i : ℤ) : Prop where
  size : t.size = u.size + 1
  hndl : ∀ x, (u.hndls x).hndl = (t.hndls (if x = i then u.size else x)).hndl
  pollset : ∀ x, u.pollset x = t.pollset (if x = i then u.size else x)
  slot : ∀ hndl, u.slot hndl = if (t.hndls u.size).hndl = some hndl then i else t.slot hndl

/-- The slot filled, its place in the list taken by what fills it. -/
theorem Compacting.fill {u : Pollset κ} (h : Compacting s t (i :: xs)) (hf : Filled t u i)
    (hu : ∃ q, u.Removed q (moved u.size i xs) ∧ (q = -1 ∨ u.size ≤ q ∧ q < s.size)) :
    Compacting s u (moved u.size i xs) := by
  obtain ⟨hixs, hxs⟩ := List.nodup_cons.1 h.nodup
  have hsize := hf.size
  have hi : t.Slot i := h.slot i List.mem_cons_self
  -- The last slot of `t`.
  have hlast : t.Slot u.size := ⟨Int.natCast_nonneg _, by omega⟩
  have hslot : ∀ x, u.Slot x → t.Slot x := fun x hx => ⟨hx.1, by have := hx.2; omega⟩
  have hne : ∀ x, u.Slot x → x ≠ u.size := fun x hx => Int.ne_of_lt hx.2
  refine ⟨?_, ?_, hu, moved_nodup hxs hixs, fun x hx => ?_, fun x hx => ?_, fun k x hx => ?_, fun k hk => ?_⟩
  · have := h.size
    rw [List.length_cons] at this
    rw [moved_length]
    omega
  · have := h.le
    omega
  · rcases mem_moved.1 hx with ⟨hn, rfl⟩ | ⟨hx, hxn⟩
    · have hne : x ≠ u.size := fun he => hixs (he ▸ hn)
      have := hi.2
      exact ⟨hi.1, by omega⟩
    · have hxt := h.slot x (List.mem_cons_of_mem i hx)
      have := hxt.2
      exact ⟨hxt.1, by omega⟩
  · rw [hf.hndl, mem_moved]
    by_cases hxi : x = i
    · subst hxi
      rw [if_pos rfl, h.free _ hlast, List.mem_cons]
      simp only [hixs, and_true, false_and, or_false, (hne x hx).symm, false_or]
    · rw [if_neg hxi, h.free x (hslot x hx), List.mem_cons]
      simp only [hxi, and_false, false_or, hne x hx, ne_eq, not_false_eq_true, and_true]
  · obtain ⟨hx, hh⟩ := hx
    rw [hf.hndl] at hh
    rw [hf.pollset, hf.slot]
    by_cases hxi : x = i
    · rw [if_pos hxi] at hh ⊢
      obtain ⟨hl, -, hp⟩ := h.lives k _ ⟨hlast, hh⟩
      exact ⟨hl, by rw [if_pos hh, hxi], hp⟩
    · rw [if_neg hxi] at hh ⊢
      obtain ⟨hl, hs, hp⟩ := h.lives k x ⟨hslot x hx, hh⟩
      refine ⟨hl, ?_, hp⟩
      rw [if_neg, hs]
      intro hk
      obtain ⟨-, hs', -⟩ := h.lives k _ ⟨hlast, hk⟩
      exact hne x hx (hs.symm.trans hs')
  · obtain ⟨x, hx, hh⟩ := h.kept k hk
    have hnot : ∀ y ∈ i :: xs, y ≠ x := by
      rintro y hy rfl
      rw [(h.free y hx).2 hy] at hh
      cases hh
    have hxi := hnot i List.mem_cons_self
    by_cases hxn : x = u.size
    · refine ⟨i, ⟨hi.1, ?_⟩, by rw [hf.hndl, if_pos rfl, ← hxn, hh]⟩
      have := hi.2
      omega
    · refine ⟨x, ⟨hx.1, ?_⟩, by rw [hf.hndl, if_neg hxi.symm, hh]⟩
      have := hx.2
      omega

/-- The last slot goes; the next of the list is told to come after it. -/
theorem Compacting.shrink_last (h : Compacting s t ((n : ℤ) :: xs)) (hsize : t.size = n + 1) :
    ∃ u, (∀ c, s.size ≤ c → (t.within c).shrink = .ok (u.within c)) ∧ Filled t u n ∧
      ∃ q, u.Removed q (moved u.size n xs) ∧ (q = -1 ∨ u.size ≤ q ∧ q < s.size) := by
  obtain ⟨q, ⟨hr, -, hq, ht⟩, hqs⟩ := h.thread
  dsimp only at hq ht
  have hnxs := (List.nodup_cons.1 h.nodup).1
  have hfree := (h.free n (h.slot n List.mem_cons_self)).2 List.mem_cons_self
  have hle := h.le
  have hnext : (t.hndls n).next ≠ -1 → (t.hndls n).next ∈ xs := fun hne => ht.start_mem hne
  have hslot : ∀ x ∈ xs, t.Slot x := fun x hx => h.slot x (List.mem_cons_of_mem _ hx)
  have hmem : ∀ x ∈ xs, x ≠ -1 ∧ x ≠ q := fun x hx => by
    obtain ⟨h0, hlt⟩ := hslot x hx
    omega
  refine ⟨{ t with
      size := n
      hndls := patch (patch t.hndls q fun it => { it with next := n })
        (t.hndls n).next fun it => { it with prev := n }
      removed := (t.hndls n).next }, fun c hc => ?_, ⟨hsize, fun x => ?_, fun x => ?_, fun k => ?_⟩,
    n, ?_, .inr ⟨Int.le_refl n, by omega⟩⟩
  · rw [Pollset.shrink_last hsize hr (by omega) hfree, relink_within (Int.natCast_nonneg n) (by omega)]
    · have hne : (t.hndls n).next ≠ n := fun he => hnxs (he ▸ hnext (by omega))
      simp only [relinked, pop, hr, hq, if_neg hne]
    · change (t.hndls n).prev ≠ -1 → 0 ≤ (t.hndls n).prev ∧ (t.hndls n).prev < c
      omega
    · change (t.hndls n).prev ≠ n
      omega
    · intro hne
      obtain ⟨h0, hlt⟩ := hslot _ (hnext hne)
      exact ⟨h0, Int.lt_of_lt_of_le hlt (Int.ofNat_le.2 (hle.trans hc))⟩
  · rw [hndl_patch_prev, hndl_patch_next]
    by_cases hx : x = n
    · rw [if_pos hx, hx]
    · rw [if_neg hx]
  · by_cases hx : x = n
    · rw [if_pos hx, hx]
    · rw [if_neg hx]
  · rw [if_neg]
    rw [hfree]
    exact Option.some_ne_none k ∘ Eq.symm
  · rw [moved_of_notMem hnxs]
    refine ht.congr (fun x hx => ?_) fun x hx => ?_
    · rw [next_patch_prev, patch_of_ne (hmem x hx).2]
    · rw [prev_patch_prev _ (hmem x hx).1,
        prev_patch_next]
      -- What is written is there already.
      by_cases hx' : x = (t.hndls n).next
      · rw [if_pos hx']
        exact ((ht.prev_eq_iff hnxs hx).2 hx'.symm).symm
      · rw [if_neg hx']

/-- Another slot is filled from the last one. -/
theorem filled_pop (hsize : t.size = n + 1) : Filled t ((t.pop n).filled i) i where
  size := hsize
  hndl x := by
    by_cases hx : x = i
    · rw [if_pos hx, hx]
      exact (congrArg HndlsItem.hndl (update_self i _ _)).trans (hndl_patch_prev _)
    · rw [if_neg hx]
      exact (congrArg HndlsItem.hndl (update_of_ne hx _ _)).trans (hndl_patch_prev _)
  pollset x := by
    by_cases hx : x = i
    · rw [if_pos hx, hx]
      exact update_self i _ _
    · rw [if_neg hx]
      exact update_of_ne hx _ _
  slot k := by
    have hhndl : ((t.pop n).reheaded i n).hndl = (t.hndls n).hndl := hndl_patch_prev _
    change (match ((t.pop n).reheaded i n).hndl with
      | some hndl => update t.slot hndl i
      | none => t.slot) k = if (t.hndls n).hndl = some k then i else t.slot k
    rw [hhndl]
    cases (t.hndls n).hndl with
    | none => rfl
    | some k' =>
      dsimp only
      by_cases hk : k' = k
      · rw [hk, update_self, if_pos rfl]
      · rw [update_of_ne (Ne.symm hk), if_neg (mt Option.some.inj hk)]

omit [DecidableEq κ] in
/-- The rest of the list is one, when its first is told so. -/
theorem Compacting.reheaded (h : Compacting s t (i :: xs)) :
    Thread (-1) (fun x => (t.reheaded i x).next) (fun x => (t.reheaded i x).prev) (-1)
      (t.hndls i).next xs := by
  obtain ⟨q, ⟨-, -, -, ht⟩, -⟩ := h.thread
  refine ht.rehead (List.nodup_cons.1 h.nodup).2 (fun x _ => ?_) fun x hx => ?_
  · exact next_patch_prev _
  · exact prev_patch_prev _ (ht.ne hx)

omit [DecidableEq κ] in
/-- The slots to come lie within the arrays. -/
theorem Compacting.within_of_mem (h : Compacting s t xs) (hc : s.size ≤ c) {x : ℤ} (hx : x ∈ xs) :
    0 ≤ x ∧ x < c := by
  obtain ⟨h0, hlt⟩ := h.slot x hx
  have := h.le
  omega

theorem Compacting.fill_ok (h : Compacting s t (i :: xs)) (hsize : t.size = n + 1)
    (hc : s.size ≤ c) :
    ((t.pop n).within c).fill i = .ok (((t.pop n).filled i).within c) := by
  obtain ⟨h0, hi⟩ := h.within_of_mem hc List.mem_cons_self
  have hle := h.le
  exact fill_within (s := t.pop n) h0 hi (show n < c by omega) fun hne =>
    h.within_of_mem hc (List.mem_cons_of_mem i (h.reheaded.start_mem hne))

/-- If the last slot is of a live handle, that is all. -/
theorem Compacting.shrink_live (h : Compacting s t (i :: xs)) (hsize : t.size = n + 1) (hi : i < n)
    {k : κ} (hn : (t.hndls n).hndl = some k) :
    ∃ u, (∀ c, s.size ≤ c → (t.within c).shrink = .ok (u.within c)) ∧ Filled t u i ∧
      ∃ q, u.Removed q (moved u.size i xs) ∧ (q = -1 ∨ u.size ≤ q ∧ q < s.size) := by
  obtain ⟨q, ⟨hr, -, -, -⟩, -⟩ := h.thread
  have hle := h.le
  have h0 := (h.slot i List.mem_cons_self).1
  have hixs := (List.nodup_cons.1 h.nodup).1
  have hnxs : (n : ℤ) ∉ xs := fun hx => by
    simp [(h.free n ⟨Int.natCast_nonneg n, by omega⟩).2 (List.mem_cons_of_mem i hx)] at hn
  have hhndl : ((t.pop n).reheaded i n).hndl = (t.hndls n).hndl := hndl_patch_prev _
  refine ⟨(t.pop n).filled i, fun c hc => ?_, filled_pop hsize, -1, ?_, .inl rfl⟩
  · rw [Pollset.shrink_fill hsize hr h0 hi (by omega) (h.fill_ok hsize hc), hndls_filled_self,
      show (t.pop n).size = n from rfl, hhndl, hn]
    rfl
  · have hfirst : ((t.pop n).filled i).removed = (t.hndls i).next :=
      congrArg (fun x => (t.hndls x).next) hr
    rw [show ((t.pop n).filled i).size = n from rfl, moved_of_notMem hnxs, Removed, hfirst]
    exact h.reheaded.congr
      (fun x hx => congrArg HndlsItem.next (hndls_filled_of_ne (ne_of_mem_of_not_mem hx hixs)))
      fun x hx => congrArg HndlsItem.prev (hndls_filled_of_ne (ne_of_mem_of_not_mem hx hixs))

/-- If the last slot is of a removed handle, its neighbours in the list are told where it is now. -/
theorem Compacting.shrink_removed (h : Compacting s t (i :: xs)) (hsize : t.size = n + 1)
    (hi : i < n) (hn : (t.hndls n).hndl = none) :
    ∃ u, (∀ c, s.size ≤ c → (t.within c).shrink = .ok (u.within c)) ∧ Filled t u i ∧
      ∃ q, u.Removed q (moved u.size i xs) ∧ (q = -1 ∨ u.size ≤ q ∧ q < s.size) := by
  obtain ⟨q, ⟨hr, hi1, -, ht⟩, -⟩ := h.thread
  obtain ⟨hixs, hxs⟩ := List.nodup_cons.1 h.nodup
  have hle := h.le
  have h0 := (h.slot i List.mem_cons_self).1
  have hne : ∀ x ∈ xs, x ≠ i ∧ x ≠ -1 := fun x hx => ⟨ne_of_mem_of_not_mem hx hixs, ht.ne hx⟩
  have hnxs : (n : ℤ) ∈ xs := by
    have hfree := (h.free n ⟨Int.natCast_nonneg n, by omega⟩).1 hn
    exact (List.mem_cons.1 hfree).resolve_left (Int.ne_of_gt hi)
  -- What is in the slot `i` now, and where the neighbours are.
  have hui : ((t.pop n).filled i).hndls i = t.reheaded i n := hndls_filled_self
  have hux : ∀ x ∈ xs, ((t.pop n).filled i).hndls x = t.reheaded i x := fun x hx =>
    hndls_filled_of_ne (hne x hx).1
  have hprev : (t.reheaded i n).prev ≠ -1 → (t.reheaded i n).prev ∈ xs := fun hne =>
    (h.reheaded.prev_mem hnxs).resolve_left fun hp => hne hp.1
  have hnext : (t.reheaded i n).next ≠ -1 → (t.reheaded i n).next ∈ xs := fun hne =>
    (h.reheaded.next_mem hnxs).resolve_left hne
  have hprevi : (t.reheaded i n).prev ≠ i := fun he =>
    hixs (he.subst (motive := (· ∈ xs)) (hprev (he.trans_ne hi1)))
  have hnexti : (t.reheaded i n).next ≠ i := fun he =>
    hixs (he.subst (motive := (· ∈ xs)) (hnext (he.trans_ne hi1)))
  refine ⟨((t.pop n).filled i).relinked i, fun c hc => ?_, ?_, -1, ?_, .inl rfl⟩
  · have hhndl : (t.reheaded i n).hndl = (t.hndls n).hndl := hndl_patch_prev _
    have hcxs : ∀ x ∈ xs, 0 ≤ x ∧ x < c := fun x hx =>
      h.within_of_mem hc (List.mem_cons_of_mem i hx)
    rw [Pollset.shrink_fill hsize hr h0 hi (by omega) (h.fill_ok hsize hc), hui, hhndl, hn,
      Option.isNone_none, if_pos rfl]
    refine relink_within h0 (by omega) ?_ ?_ ?_ <;> rw [hui]
    · exact fun hne => hcxs _ (hprev hne)
    · exact hprevi
    · exact fun hne => hcxs _ (hnext hne)
  · obtain ⟨hsize', hhndl, hpollset, hslot⟩ := filled_pop (i := i) hsize
    refine ⟨hsize', fun x => ?_, hpollset, hslot⟩
    exact ((hndl_patch_prev _).trans (hndl_patch_next _)).trans (hhndl x)
  · have hfirst : ((t.pop n).filled i).removed = (t.hndls i).next :=
      congrArg (fun x => (t.hndls x).next) hr
    dsimp only [Removed, relinked]
    rw [hui, hfirst, show ((t.pop n).filled i).size = n from rfl]
    refine h.reheaded.move hxs (fun hm => (hne _ hm).2 rfl) hi1 hnxs ?_ ?_ (fun x hx _ => ?_)
      fun x hx _ => ?_
    · rw [next_patch_prev, patch_of_ne hprevi.symm, hui]
    · rw [patch_of_ne hnexti.symm, prev_patch_next, hui]
    · rw [next_patch_prev, next_patch_next _ (hne x hx).2, hux x hx]
    · rw [prev_patch_prev _ (hne x hx).2, prev_patch_next, hux x hx]

/-- One round of the loop. -/
theorem Compacting.shrink (h : Compacting s t (i :: xs)) :
    ∃ u ys, (∀ c, s.size ≤ c → (t.within c).shrink = .ok (u.within c)) ∧ ys.length = xs.length ∧
      Compacting s u ys := by
  obtain ⟨h0, hi⟩ := h.slot i List.mem_cons_self
  obtain ⟨n, hsize⟩ : ∃ n, t.size = n + 1 := ⟨t.size - 1, by omega⟩
  have hu : ∃ u, (∀ c, s.size ≤ c → (t.within c).shrink = .ok (u.within c)) ∧ Filled t u i ∧
      ∃ q, u.Removed q (moved u.size i xs) ∧ (q = -1 ∨ u.size ≤ q ∧ q < s.size) := by
    by_cases hin : i = n
    · subst hin
      exact h.shrink_last hsize
    · have hin : i < n := by omega
      cases hn : (t.hndls n).hndl with
      | some k => exact h.shrink_live hsize hin hn
      | none => exact h.shrink_removed hsize hin hn
  obtain ⟨u, hx, hf, hq⟩ := hu
  exact ⟨u, _, hx, moved_length, h.fill hf hq⟩

/-- The loop, as many rounds as there are slots to go. -/
theorem Compacting.compact (h : Compacting s t xs) (hn : xs.length ≤ n) :
    ∃ u, (∀ c, s.size ≤ c → Pollset.compact n (t.within c) = .ok (u.within c)) ∧
      Compacting s u [] := by
  induction n generalizing t xs with
  | zero =>
    obtain rfl := List.length_eq_zero_iff.1 (Nat.le_zero.1 hn)
    obtain ⟨q, hq, -⟩ := h.thread
    exact ⟨t, fun c _ => if_pos hq, h⟩
  | succ n ih =>
    cases xs with
    | nil =>
      obtain ⟨q, hq, -⟩ := h.thread
      exact ⟨t, fun c _ => if_pos hq, h⟩
    | cons i xs =>
      obtain ⟨q, ⟨hr, hi, -, -⟩, -⟩ := h.thread
      obtain ⟨u, ys, hx, hlen, hu⟩ := h.shrink
      obtain ⟨v, hv, hv'⟩ := ih hu (by rw [hlen]; exact Nat.le_of_succ_le_succ hn)
      refine ⟨v, fun c hc => ?_, hv'⟩
      rw [Pollset.compact, within_removed, hr, if_neg hi, hx c hc]
      exact hv c hc

/-- The loop of `nn_poller_wait`, when the slots `xs` are of removed handles, ends with the
    others in the first slots. It does so in arrays of any length that have the slots in use, so
    that it has access to no others. -/
theorem compact_correct (h : Linked s xs) :
    ∃ t, (∀ c, s.size ≤ c → compact (s.size + 1) (s.within c) = .ok (t.within c)) ∧
      Compacted s t := by
  have hn : xs.length ≤ s.size + 1 := by
    have := h.size_eq
    omega
  obtain ⟨t, hx, ht⟩ := h.compacting.compact hn
  exact ⟨t, hx, ht.compacted⟩

/-- Four slots, of which the last was removed after the second. -/
def twoRemoved : Pollset ℤ where
  size := 4
  index := 0
  capacity := granularity
  pollset i := ⟨i, pollin, 0⟩
  hndls i := if i = 3 then ⟨none, -1, 1⟩ else if i = 1 then ⟨none, 3, -1⟩ else ⟨some i, 0, 0⟩
  removed := 3
  slot hndl := hndl

theorem twoRemoved_linked : Linked twoRemoved [3, 1] where
  removed := ⟨rfl, by decide, rfl, rfl, by decide, rfl, rfl⟩
  nodup := by decide
  slot i hi := by
    rcases List.mem_cons.1 hi with rfl | hi
    · exact ⟨by decide, by decide⟩
    · exact List.mem_singleton.1 hi ▸ ⟨by decide, by decide⟩
  free i _ := by
    by_cases h3 : i = 3 <;> by_cases h1 : i = 1 <;> simp [twoRemoved, h3, h1]
  index hndl i h := by
    by_cases h3 : i = 3 <;> by_cases h1 : i = 1 <;> simpa [twoRemoved, Lives, h3, h1, eq_comm] using h.2

theorem compact_correct_two :
    ∃ t, (∀ c, 4 ≤ c → compact 5 (twoRemoved.within c) = .ok (t.within c)) ∧ Compacted twoRemoved t :=
  compact_correct twoRemoved_linked

end Pollset

end Nanomsg
