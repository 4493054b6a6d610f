import Nanomsg.Utils.Hash

/-!
# How a hash grows

`nn_hash_insert` doubles `slots` whenever `items * 2 > slots` and `slots < 0x80000000`, in 32 bits.
As long as `items` counts what is stored, `slots` is a power of two that is not too small
(`Sized`), and then neither product wraps around where it decides anything.
-/

namespace Nanomsg

open Function Transition

variable {ι : Type} [DecidableEq ι]

/-- What is stored after the call fits into `items`. -/
def Stored.Bounded (t : Stored ι) (op : HashOp ι) : Prop := (Stored.spec.step t op).1.length < 2 ^ 32

namespace Hash

/-- There are enough slots for the `n` items, if there may be. -/
structure Sized (s : Hash ι) (n : ℕ) : Prop where
  slots : ∃ m, 5 ≤ m ∧ m ≤ 31 ∧ s.slots.toNat = 2 ^ m
  items : s.items.toNat = n
  load : 2 * s.items.toNat ≤ s.slots.toNat ∨ s.slots.toNat = 2 ^ 31

variable {self self' self₁ self₂ : Hash ι} {free : ι → Prop} {t : Stored ι} {key : UInt32} {x : ι} {n : ℕ}

omit [DecidableEq ι] in
theorem Sized.slots_pos (h : Sized self n) : 0 < self.slots.toNat := by
  obtain ⟨m, -, -, hm⟩ := h.slots
  rw [hm]
  exact Nat.two_pow_pos m

/-- The count is right while it fits. -/
theorem Holds.items_toNat (h : Holds free self t) (ht : t.length < 2 ^ 32) :
    self.items.toNat = t.length := by
  rw [h.items, UInt32.toNat_ofNat_of_lt' ht]

theorem put_slots (h : self.put key x = .ok self') : self'.slots = self.slots := by
  obtain ⟨_, -, h⟩ := bind_eq_ok.1 h
  obtain ⟨_, -, h⟩ := bind_eq_ok.1 h
  exact Except.ok.inj h ▸ rfl

theorem erase_slots (h : self.erase x = .ok self') : self'.slots = self.slots := by
  obtain ⟨_, -, h⟩ := bind_eq_ok.1 h
  exact Except.ok.inj h ▸ rfl

/-! ## The products -/

omit [DecidableEq ι] in
/-- Where the hash may grow, twice as many items as there are slots are counted right. -/
theorem items_double (hs : self.slots < 0x80000000)
    (hload : 2 * self.items.toNat ≤ self.slots.toNat + 2) :
    (self.items * 2).toNat = 2 * self.items.toNat := by
  have hlt : self.slots.toNat < 0x80000000 := UInt32.lt_iff_toNat_lt.1 hs
  rw [UInt32.toNat_mul, Nat.mod_eq_of_lt] <;> simp <;> omega

omit [DecidableEq ι] in
/-- What the test of `nn_hash_insert` says, after one more item. -/
theorem crowded_iff (hload : 2 * self.items.toNat ≤ self.slots.toNat + 2 ∨ self.slots.toNat = 2 ^ 31) :
    self.Crowded ↔
      2 * self.items.toNat > self.slots.toNat ∧ self.slots.toNat < 2 ^ 31 := by
  have hslots : self.slots < 0x80000000 ↔ self.slots.toNat < 2 ^ 31 := UInt32.lt_iff_toNat_lt
  rw [Crowded, hslots]
  refine and_congr_left fun hlt => ?_
  rw [gt_iff_lt, UInt32.lt_iff_toNat_lt, items_double (hslots.2 hlt) (hload.resolve_right hlt.ne)]

omit [DecidableEq ι] in
/-- A power of two below `2 ^ 31` may be doubled. -/
theorem Sized.double (h : Sized self n) (hlt : self.slots.toNat < 2 ^ 31) :
    ∃ m, 5 ≤ m ∧ m ≤ 31 ∧ 2 * self.slots.toNat = 2 ^ m := by
  obtain ⟨m, h5, -, hm⟩ := h.slots
  rw [hm] at hlt ⊢
  exact ⟨m + 1, by omega, (Nat.pow_lt_pow_iff_right (by decide)).1 hlt, by rw [Nat.pow_succ, mul_comm]⟩

/-! ## The operations -/

omit [DecidableEq ι] in
theorem sized_init (key : ι → UInt32) (list : Items ι) : Sized (init key list) 0 where
  slots := ⟨5, le_refl _, by decide, rfl⟩
  items := rfl
  load := .inl (Nat.zero_le _)

/-- What an insertion finds when it decides whether to rehash, and what it leaves. -/
structure Grown (s : Hash ι) (key : UInt32) (x : ι) (n : ℕ) : Prop where
  slot : s.slot key < s.slots.toNat
  put : ∃ self₁, s.put key x = .ok self₁ ∧ self₁.slots = s.slots ∧
    self₁.items.toNat = n + 1 ∧
    (self₁.slots < 0x80000000 → (self₁.items * 2).toNat = 2 * self₁.items.toNat) ∧
    (self₁.Crowded → (self₁.slots * 2).toNat = 2 * self₁.slots.toNat ∧
      ∀ k, { self₁ with slots := self₁.slots * 2 : Hash ι }.slot k < (self₁.slots * 2).toNat)
  insert : ∃ self₂, s.insert key x = .ok self₂ ∧ Sized self₂ (n + 1)

omit [DecidableEq ι] in
/-- With one more item, the load is at most 2 over. -/
theorem Sized.load_put (h : Sized self n) (hslots : self₁.slots = self.slots)
    (hitems : self₁.items.toNat = n + 1) :
    2 * self₁.items.toNat ≤ self₁.slots.toNat + 2 ∨ self₁.slots.toNat = 2 ^ 31 := by
  rw [hitems, hslots]
  have := h.items
  exact h.load.imp (fun _ => by omega) id

omit [DecidableEq ι] in
/-- Twice as many slots are enough for one more item. -/
theorem Sized.rehash (h : Sized self n) (hslots : self₁.slots = self.slots)
    (hitems : self₁.items.toNat = n + 1) (hc : self₁.Crowded)
    (hdouble : self₂.slots.toNat = 2 * self₁.slots.toNat) (hitems₂ : self₂.items.toNat = n + 1) :
    Sized self₂ (n + 1) := by
  have hload := h.load_put hslots hitems
  obtain ⟨-, hlt⟩ := (crowded_iff hload).1 hc
  have hle := hload.resolve_right hlt.ne
  obtain ⟨m, h5, h31, hm⟩ := h.double (hslots ▸ hlt)
  obtain ⟨m', h5', -, hm'⟩ := h.slots
  have h32 : 2 ^ 5 ≤ self.slots.toNat := hm' ▸ Nat.pow_le_pow_right (by decide) h5'
  rw [hslots] at hle hdouble
  exact ⟨⟨m, h5, h31, hdouble.trans hm⟩, hitems₂, .inl (by omega)⟩

omit [DecidableEq ι] in
/-- If the hash does not grow, as many slots are enough. -/
theorem Sized.stay (h : Sized self n) (hslots : self₁.slots = self.slots)
    (hitems : self₁.items.toNat = n + 1) (hc : ¬ self₁.Crowded) : Sized self₁ (n + 1) := by
  refine ⟨hslots ▸ h.slots, hitems, ?_⟩
  rw [crowded_iff (h.load_put hslots hitems), not_and, not_lt, gt_iff_lt] at hc
  obtain ⟨m, -, h31, hm⟩ := h.slots
  have hle : self₁.slots.toNat ≤ 2 ^ 31 := by
    rw [hslots, hm]
    exact Nat.pow_le_pow_right (by decide) h31
  by_cases hcrowd : self₁.slots.toNat < 2 * self₁.items.toNat
  · exact .inr (Nat.le_antisymm hle (hc hcrowd))
  · exact .inl (not_lt.1 hcrowd)

/-- One insertion, of an item that can still be counted. -/
theorem insert_grown (h : Holds free self t) (hs : Sized self t.length) (hfree : free x)
    (ht : ∀ p ∈ t, p.1 ≠ key ∧ p.2 ≠ x) (hlen : t.length + 1 < 2 ^ 32) :
    Grown self key x t.length := by
  obtain ⟨self₁, hp, h₁⟩ := put_spec h hfree ht
  have hslots := put_slots hp
  have hcount : ∀ {self₂ : Hash ι}, Holds free self₂ (t ++ [(key, x)]) →
      self₂.items.toNat = t.length + 1 := fun h₂ => by
    rw [h₂.items_toNat (by simpa using hlen), List.length_append, List.length_singleton]
  have hitems := hcount h₁
  refine ⟨slot_lt hs.slots_pos key, ⟨self₁, hp, hslots, hitems, fun hlt => ?_, fun hc => ?_⟩, ?_⟩
  · refine items_double hlt ((hs.load_put hslots hitems).resolve_right fun heq => ?_)
    exact absurd (UInt32.lt_iff_toNat_lt.1 hlt) (by rw [heq]; decide)
  · have hdouble := slots_double hc.2
    refine ⟨hdouble, fun k => slot_lt ?_ k⟩
    show 0 < (self₁.slots * 2).toNat
    have := h₁.slots
    omega
  · by_cases hc : self₁.Crowded
    · obtain ⟨self₂, oldarray, hr, h₂, hdouble, -⟩ := rehash_spec h₁ hc.2
      exact ⟨self₂, by simp [insert, hp, hc, hr], hs.rehash hslots hitems hc hdouble (hcount h₂)⟩
    · exact ⟨self₁, by simp [insert, hp, hc], hs.stay hslots hitems hc⟩

/-- What the calls keep. -/
def SizedHolds (free : ι → Prop) (self : Hash ι) (t : Stored ι) : Prop :=
  Holds free self t ∧ Sized self t.length

theorem refines_sized (free : ι → Prop) : (program (ι := ι)).Refines Stored.spec
    (fun t op => Stored.Allowed free t op ∧ Stored.Bounded t op) (SizedHolds free) := by
  rintro self t op ⟨h, hs⟩ ⟨ha, hb⟩
  obtain ⟨self', hx, h'⟩ := refines free self t op h ha
  refine ⟨self', hx, h', ?_⟩
  cases op with
  | insert key x =>
    have hlen : t.length + 1 < 2 ^ 32 := by simpa [Stored.Bounded, Stored.spec] using hb
    obtain ⟨self₂, hi, hs₂⟩ := (insert_grown h hs ha.1 ha.2 hlen).insert
    obtain ⟨rfl, -⟩ : self₂ = self' ∧ _ := by simpa [program, hi] using hx
    simpa [Stored.spec] using hs₂
  | erase x =>
    obtain ⟨k, hk⟩ := ha
    obtain ⟨self₁, he, -⟩ := erase_spec h hk
    obtain ⟨rfl, -⟩ : self₁ = self' ∧ _ := by simpa [program, he] using hx
    have hslots := erase_slots he
    have hitems := h'.items_toNat hb
    have hle : (Stored.spec.step t (.erase x)).1.length ≤ t.length := List.length_filter_le _ _
    have := hs.items
    exact ⟨hslots ▸ hs.slots, hitems, hslots ▸ hs.load.imp (fun _ => by omega) id⟩
  | get key =>
    obtain ⟨rfl, -⟩ : self = self' ∧ _ := by simpa [program, get_spec h] using hx
    exact hs

/-- After any calls that leave no more items stored than can be counted, `slots` is a power of two
    from `2 ^ 5` to `2 ^ 31`, large enough for the items if it is not that. Every key has a slot
    below; so it has during one more insertion, which neither counts wrongly where it decides
    whether to rehash nor doubles too far. -/
theorem hash_growth_safe (key : ι → UInt32) (list : Items ι) (ops : List (HashOp ι))
    (hops : Stored.spec.Allowed (fun t op =>
      Stored.Allowed (fun x => list.itemIsinlist x = false) t op ∧ Stored.Bounded t op) [] ops) :
    ∃ self, program.run (init key list) ops = .ok (self, (Stored.spec.run [] ops).2) ∧
      Sized self (Stored.spec.run [] ops).1.length ∧
      (∀ k, self.slot k < self.slots.toNat) ∧
      ∀ k x, Stored.Allowed (fun x => list.itemIsinlist x = false) (Stored.spec.run [] ops).1
          (.insert k x) → (Stored.spec.run [] ops).1.length + 1 < 2 ^ 32 →
        Grown self k x (Stored.spec.run [] ops).1.length := by
  obtain ⟨self, hr, h, hs⟩ :=
    (refines_sized _).run ⟨holds_init key fun _ h => h, sized_init key list⟩ hops
  exact ⟨self, hr, hs, slot_lt hs.slots_pos, fun k x ha hlen => insert_grown h hs ha.1 ha.2 hlen⟩

/-- Calls that are few enough are counted right. -/
theorem allowed_bounded {C : Stored ι → HashOp ι → Prop} {ops : List (HashOp ι)}
    (h : Stored.spec.Allowed C t ops) (hlen : t.length + ops.length < 2 ^ 32) :
    Stored.spec.Allowed (fun t op => C t op ∧ Stored.Bounded t op) t ops := by
  induction ops generalizing t with
  | nil => trivial
  | cons op ops ih =>
    have hstep : (Stored.spec.step t op).1.length ≤ t.length + 1 := by
      cases op with
      | insert key x => simp [Stored.spec]
      | erase x => exact (List.length_filter_le _ _).trans (Nat.le_succ _)
      | get key => exact Nat.le_succ _
    rw [List.length_cons] at hlen
    exact ⟨⟨h.1, by rw [Stored.Bounded]; omega⟩, ih h.2 (by omega)⟩

/-- Seventeen items, for which the hash grows once. -/
theorem hash_growth_safe_fill :
    ∃ self, program.run (init (fun _ => 0) ⟨fun _ => .out, fun _ => .out⟩) (fill 0 17) =
        .ok (self, (Stored.spec.run [] (fill 0 17)).2) ∧
      Sized self (Stored.spec.run [] (fill 0 17)).1.length := by
  obtain ⟨self, hr, hs, -⟩ := hash_growth_safe (fun _ => 0) ⟨fun _ => .out, fun _ => .out⟩
    (fill 0 17) (allowed_bounded (fill_spec (fun _ => rfl) (by simp) (by omega)).1 (by decide))
  exact ⟨self, hr, hs⟩

end Hash

end Nanomsg
