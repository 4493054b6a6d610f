import Mathlib.Data.List.Pairwise
import Nanomsg.Inproc.Registration
import Nanomsg.Lib.System
import Nanomsg.Utils.List

/-!
# The registry

`ins.c`: the two lists of inproc endpoints, those that bind and those that
connect. Whoever registers is called back for each endpoint of the other list
that has its address and is a peer. Here the lists are the linked ones the code
walks; a callback, which runs under the lock, is recorded.

An item is named by its endpoint. `Holds` says which endpoints the lists hold,
with all the addresses bound different, and each operation has one lemma about
it (`bind_spec`, `connect_spec`, `unbind_spec`, `disconnect_spec`). What they call
back for is what the loops over plain lists do (`insBind_eq`, `insConnect_eq`).

`called_once`: for a pair of endpoints that match, there is one call whenever
both begin to be registered, and no other.
-/

namespace Nanomsg

open Function Transition Intrusive

variable {ε : Type} [DecidableEq ε]

/-- `struct nn_ins`, and the items of all the endpoints. -/
structure NnIns (ε : Type) where
  bound : NnList ε
  connected : NnList ε
  items : Items ε
  /-- How often an item has been inserted. -/
  inserted : ℕ
  /-- The callbacks made. -/
  calls : List (ε × ε)

namespace NnIns

variable (E : Eps ε) (s : NnIns ε) (item : ε)

/-- `nn_ins_init`. -/
def init (items : Items ε) : NnIns ε := ⟨NnList.init, NnList.init, items, 0, []⟩

/-- `fn(item, peer)`. -/
def call (peer : ε) : NnIns ε := { s with calls := s.calls ++ [(item, peer)] }

/-- The first loop of `nn_ins_bind`, at `it`: whether the address is in use. The
    loop visits more items than have been inserted only if it does not end. -/
def inUse : ℕ → Link ε → Except Fault Bool
  | 0, _ => .error .diverges
  | _ + 1, .null => .ok false
  | _ + 1, .out => .error .wildPointer
  | n + 1, .node bitem =>
    if Transport.sameAddr E bitem item then
      .ok true
    else do
      let it ← NnList.next s.items (.node bitem)
      inUse n it

/-- The second loop of `nn_ins_bind`. -/
def bindLoop : ℕ → Link ε → NnIns ε → Except Fault (NnIns ε)
  | 0, _, _ => .error .diverges
  | _ + 1, .null, s => .ok s
  | _ + 1, .out, _ => .error .wildPointer
  | n + 1, .node citem, s =>
    if Transport.sameAddr E item citem then
      if !E.ispeer item citem then do
        let it ← NnList.next s.items (.node citem)
        bindLoop n it s
      else do
        let s := s.call item citem
        let it ← NnList.next s.items (.node citem)
        bindLoop n it s
    else do
      let it ← NnList.next s.items (.node citem)
      bindLoop n it s

omit [DecidableEq ε] in
@[simp] theorem call_items (peer : ε) : (s.call item peer).items = s.items := rfl

/-- `nn_ins_bind`. -/
def bind : Except Fault (NnIns ε × ℤ) := do
  if ← s.inUse E item (s.inserted + 1) s.bound.first then
    pure (s, -Errno.eaddrinuse)
  else do
    let (items, bound) ← NnList.insert s.items s.bound item .null
    let s := { s with items := items, bound := bound, inserted := s.inserted + 1 }
    let s ← bindLoop E item (s.inserted + 1) s.connected.first s
    pure (s, 0)

/-- The loop of `nn_ins_connect`. -/
def connectLoop : ℕ → Link ε → NnIns ε → Except Fault (NnIns ε)
  | 0, _, _ => .error .diverges
  | _ + 1, .null, s => .ok s
  | _ + 1, .out, _ => .error .wildPointer
  | n + 1, .node bitem, s =>
    if Transport.sameAddr E item bitem then
      if !E.ispeer item bitem then .ok s else .ok (s.call item bitem)
    else do
      let it ← NnList.next s.items (.node bitem)
      connectLoop n it s

/-- `nn_ins_connect`. -/
def connect : Except Fault (NnIns ε) := do
  let (items, connected) ← NnList.insert s.items s.connected item .null
  let s := { s with items := items, connected := connected, inserted := s.inserted + 1 }
  connectLoop E item (s.inserted + 1) s.bound.first s

/-- `nn_ins_disconnect`. -/
def disconnect : Except Fault (NnIns ε) := do
  let (items, connected, _) ← NnList.erase s.items s.connected item
  pure { s with items := items, connected := connected }

/-- `nn_ins_unbind`. -/
def unbind : Except Fault (NnIns ε) := do
  let (items, bound, _) ← NnList.erase s.items s.bound item
  pure { s with items := items, bound := bound }

/-! ## Runs -/

/-- An endpoint is in the list of those bound, or connected. -/
def Bound (s : NnIns ε) (x : ε) : Prop := ∃ xs, Lists s.items s.bound xs ∧ x ∈ xs
def Connected (s : NnIns ε) (x : ε) : Prop := ∃ ys, Lists s.items s.connected ys ∧ x ∈ ys

end NnIns

/-- The operations of the registry. -/
inductive InsAction (ε : Type)
  | bind (item : ε)
  | connect (item : ε)
  | unbind (item : ε)
  | disconnect (item : ε)

namespace NnIns

variable (E : Eps ε)

/-- An endpoint registers if its item is in no list (or, in vain, if it is bound),
    and one that is registered unregisters. -/
def enabled (s : NnIns ε) : InsAction ε → Prop
  | .bind item => s.items.itemIsinlist item = false ∨ s.Bound item
  | .connect item => s.items.itemIsinlist item = false
  | .unbind item => s.Bound item
  | .disconnect item => s.Connected item

def exec (s : NnIns ε) : InsAction ε → Except Fault (NnIns ε)
  | .bind item => do
    let (s, _) ← s.bind E item
    pure s
  | .connect item => s.connect E item
  | .unbind item => s.unbind item
  | .disconnect item => s.disconnect item

/-- The runs of the registry. -/
def system : System (NnIns ε) (InsAction ε) Fault where
  init s := ∃ items : Items ε, (∀ x, items.itemIsinlist x = false) ∧ s = init items
  enabled := enabled
  exec := exec E

/-- What binds at an address and what connects to it are peers. -/
def Matches (b c : ε) : Prop := E.addr b = E.addr c ∧ E.ispeer b c = true

/-- The period in which `b` is bound and `c` connected begins. -/
def Begins (s s' : NnIns ε) (b c : ε) : Prop :=
  ¬ (s.Bound b ∧ s.Connected c) ∧ s'.Bound b ∧ s'.Connected c

/-- The call of `x` for `y` is due: they match, both begin to be registered, and
    `x` was not. -/
def Due (s s' : NnIns ε) (x y : ε) : Prop :=
  Matches E x y ∧ Begins s s' x y ∧ ¬ s.Bound x ∨ Matches E y x ∧ Begins s s' y x ∧ ¬ s.Connected x

/-- The addresses bound are all different. -/
def Distinct (s : NnIns ε) : Prop :=
  ∃ xs, Lists s.items s.bound xs ∧ xs.Pairwise fun a b => E.addr a ≠ E.addr b

/-- An endpoint is bound at the address of `item`. -/
def Taken (s : NnIns ε) (item : ε) : Prop := ∃ b, s.Bound b ∧ E.addr b = E.addr item

/-- The endpoint is to be bound, or connected, after an operation. -/
def BoundAfter (s : NnIns ε) (x : ε) : InsAction ε → Prop
  | .bind item => s.Bound x ∨ x = item ∧ ¬ Taken E s item
  | .unbind item => s.Bound x ∧ x ≠ item
  | .connect _ | .disconnect _ => s.Bound x
def ConnectedAfter (s : NnIns ε) (x : ε) : InsAction ε → Prop
  | .connect item => s.Connected x ∨ x = item
  | .disconnect item => s.Connected x ∧ x ≠ item
  | .bind _ | .unbind _ => s.Connected x

/-- What an operation does. -/
structure Right (s : NnIns ε) (a : InsAction ε) (s' : NnIns ε) : Prop where
  /-- An address bound is refused, and nothing changes. -/
  refused : ∀ item, a = .bind item → Taken E s item →
    s' = s ∧ s.bind E item = .ok (s, -Errno.eaddrinuse)
  /-- Any other is accepted. -/
  accepted : ∀ item, a = .bind item → ¬ Taken E s item → s.bind E item = .ok (s', 0)
  /-- Who registers is registered until it unregisters, and nobody else is. -/
  bound : ∀ x, s'.Bound x ↔ BoundAfter E s x a
  connected : ∀ x, s'.Connected x ↔ ConnectedAfter s x a
  /-- The calls due are made once, and no others. -/
  calls : ∃ cs, s'.calls = s.calls ++ cs ∧ ∀ x y,
    (Due E s s' x y → cs.count (x, y) = 1) ∧ (¬ Due E s s' x y → cs.count (x, y) = 0)

/-! ## The lists -/

/-- The lists hold `xs` and `ys`, which have no item in common, every other item
    is in no list, and the addresses of `xs` are different. -/
structure Holds (s : NnIns ε) (xs ys : List ε) : Prop where
  bound : Lists s.items s.bound xs
  connected : Lists s.items s.connected ys
  disjoint : ∀ x ∈ xs, x ∉ ys
  out : ∀ x, x ∉ xs → x ∉ ys → s.items.itemIsinlist x = false
  distinct : xs.Pairwise fun a b => E.addr a ≠ E.addr b
  few : xs.length + ys.length ≤ s.inserted

variable {E} {s s' : NnIns ε} {x item : ε} {xs ys cs : List ε} {n : ℕ}

namespace Holds

omit [DecidableEq ε] in
theorem bound_iff (h : Lists s.items s.bound xs) : s.Bound x ↔ x ∈ xs :=
  ⟨fun ⟨_, hl, hx⟩ => hl.unique h ▸ hx, fun hx => ⟨xs, h, hx⟩⟩

omit [DecidableEq ε] in
theorem connected_iff (h : Lists s.items s.connected ys) : s.Connected x ↔ x ∈ ys :=
  ⟨fun ⟨_, hl, hx⟩ => hl.unique h ▸ hx, fun hx => ⟨ys, h, hx⟩⟩

/-- An item is in no list exactly if it is in none of the two. -/
theorem isinlist_eq_false (h : Holds E s xs ys) :
    s.items.itemIsinlist x = false ↔ x ∉ xs ∧ x ∉ ys := by
  refine ⟨fun hf => ⟨fun hx => ?_, fun hx => ?_⟩, fun hx => h.out x hx.1 hx.2⟩
  · simp [h.bound.isinlist hx] at hf
  · simp [h.connected.isinlist hx] at hf

end Holds

/-! ### Loops -/

variable {p : Link ε}

/-- The first loop of `nn_ins_bind`. -/
theorem inUse_spec (h : Chain s.items.next p xs .null) (hn : xs.length < n) :
    s.inUse E item n p = .ok (xs.any fun b => Transport.sameAddr E b item) := by
  induction xs generalizing p n with
  | nil =>
    obtain ⟨n, rfl⟩ := Nat.exists_eq_succ_of_ne_zero (Nat.ne_of_gt hn)
    rw [chain_nil.1 h]
    rfl
  | cons b xs ih =>
    obtain ⟨n, rfl⟩ := Nat.exists_eq_succ_of_ne_zero (Nat.ne_of_gt (Nat.zero_lt_of_lt hn))
    obtain ⟨rfl, h'⟩ := h
    rw [inUse]
    by_cases hb : Transport.sameAddr E b item = true
    · simp [hb]
    · rw [if_neg hb, NnList.next_ok h', ok_bind, ih h' (Nat.lt_of_succ_lt_succ hn)]
      simp [hb]

/-- The second loop of `nn_ins_bind` calls back for all the items that match. -/
theorem bindLoop_spec (h : Chain s.items.next p ys .null) (hn : ys.length < n) :
    bindLoop E item n p s =
      .ok { s with calls := s.calls ++ (ys.filter (Transport.matching E item)).map (item, ·) } := by
  induction ys generalizing p n s with
  | nil =>
    obtain ⟨n, rfl⟩ := Nat.exists_eq_succ_of_ne_zero (Nat.ne_of_gt hn)
    rw [chain_nil.1 h]
    simp [bindLoop]
  | cons c ys ih =>
    obtain ⟨n, rfl⟩ := Nat.exists_eq_succ_of_ne_zero (Nat.ne_of_gt (Nat.zero_lt_of_lt hn))
    obtain ⟨rfl, h'⟩ := h
    have hn' := Nat.lt_of_succ_lt_succ hn
    rw [bindLoop]
    by_cases ha : Transport.sameAddr E item c = true
    · by_cases hp : E.ispeer item c = true
      · simp only [ha, hp, if_true, Bool.not_true, Bool.false_eq_true, if_false]
        rw [call_items, NnList.next_ok h', ok_bind, ih (s := s.call item c) h' hn']
        simp [call, Transport.matching, ha, hp]
      · simp only [ha, hp, if_true, Bool.not_false]
        rw [NnList.next_ok h', ok_bind, ih h' hn']
        simp [Transport.matching, ha, hp]
    · simp only [ha, Bool.false_eq_true, if_false]
      rw [NnList.next_ok h', ok_bind, ih h' hn']
      simp [Transport.matching, ha]

/-- The endpoints that `nn_ins_connect` calls back for: the first one bound at the
    address, if it is a peer. -/
def found (E : Eps ε) (item : ε) (xs : List ε) : List ε :=
  ((xs.find? (Transport.sameAddr E item)).filter (E.ispeer item)).toList

/-- The loop of `nn_ins_connect`. -/
theorem connectLoop_spec (h : Chain s.items.next p xs .null) (hn : xs.length < n) :
    connectLoop E item n p s =
      .ok { s with calls := s.calls ++ (found E item xs).map (item, ·) } := by
  induction xs generalizing p n with
  | nil =>
    obtain ⟨n, rfl⟩ := Nat.exists_eq_succ_of_ne_zero (Nat.ne_of_gt hn)
    rw [chain_nil.1 h]
    simp [connectLoop, found]
  | cons b xs ih =>
    obtain ⟨n, rfl⟩ := Nat.exists_eq_succ_of_ne_zero (Nat.ne_of_gt (Nat.zero_lt_of_lt hn))
    obtain ⟨rfl, h'⟩ := h
    rw [connectLoop]
    by_cases ha : Transport.sameAddr E item b = true
    · by_cases hp : E.ispeer item b = true <;>
        simp [found, ha, hp, call, Option.filter]
    · rw [if_neg ha, NnList.next_ok h', ok_bind, ih h' (Nat.lt_of_succ_lt_succ hn)]
      simp [found, ha]

/-! ### Operations -/

omit [DecidableEq ε] in
theorem sameAddr_of_eq {a b : ε} (h : E.addr a = E.addr b) : Transport.sameAddr E a b = true := by
  simp [Transport.sameAddr, h]

/-- An address in use is refused. -/
theorem bind_refused (h : Holds E s xs ys) (ha : xs.any (fun b => Transport.sameAddr E b item) = true) :
    s.bind E item = .ok (s, -Errno.eaddrinuse) := by
  have hn : xs.length < s.inserted + 1 := by have := h.few; omega
  simp [bind, inUse_spec h.bound.fwd hn, ha]

/-- Inserting an item at the end of one of two lists. -/
theorem insert_spec {l l' : NnList ε} {as bs : List ε} (hl : Lists s.items l as)
    (hl' : Lists s.items l' bs) (hd : ∀ x ∈ as, x ∉ bs)
    (ho : ∀ x, x ∉ as → x ∉ bs → s.items.itemIsinlist x = false) (ha : item ∉ as) (hb : item ∉ bs) :
    ∃ items l₁, NnList.insert s.items l item .null = .ok (items, l₁) ∧
      Lists items l₁ (as ++ [item]) ∧ Lists items l' bs ∧
      ∀ x, x ∉ as ++ [item] → x ∉ bs → items.itemIsinlist x = false := by
  obtain ⟨items, l₁, hi, hw, hf⟩ :=
    (show Lists s.items l (as ++ []) by simpa using hl).insert_spec (ho item ha hb) (by simpa using ha)
  have hdis : ∀ y ∈ bs, y ∉ as ++ [item] := fun y hy hm => by
    rcases List.mem_append.1 hm with hm | hm
    · exact hd y hm hy
    · exact hb (List.mem_singleton.1 hm ▸ hy)
  refine ⟨items, l₁, hi, hw, hl'.frame (fun y hy => (hf y (hdis y hy)).1)
    fun y hy => (hf y (hdis y hy)).2, fun x hx hx' => ?_⟩
  have hout := ho x (fun hm => hx (List.mem_append_left _ hm)) hx'
  simpa [Items.itemIsinlist, (hf x hx).2] using hout

/-- Erasing an item from one of two lists. -/
theorem erase_spec {l l' : NnList ε} {as bs cs : List ε} (hl : Lists s.items l (as ++ x :: bs))
    (hl' : Lists s.items l' cs) (hd : ∀ y ∈ as ++ x :: bs, y ∉ cs)
    (ho : ∀ y, y ∉ as ++ x :: bs → y ∉ cs → s.items.itemIsinlist y = false) :
    ∃ items l₁ it, NnList.erase s.items l x = .ok (items, l₁, it) ∧ Lists items l₁ (as ++ bs) ∧
      Lists items l' cs ∧ ∀ y, y ∉ as ++ bs → y ∉ cs → items.itemIsinlist y = false := by
  obtain ⟨items, he, hw, hx, hf⟩ := hl.erase_spec l
  have hdis : ∀ y ∈ cs, y ∉ as ++ x :: bs := fun y hy hm => hd y hm hy
  refine ⟨items, _, _, he, hw, hl'.frame (fun y hy => (hf y (hdis y hy)).1)
    fun y hy => (hf y (hdis y hy)).2, fun y hy hy' => ?_⟩
  by_cases hyx : y = x
  · exact hyx ▸ hx
  · have hout : y ∉ as ++ x :: bs := by
      simp only [List.mem_append, List.mem_cons, not_or] at hy ⊢
      exact ⟨hy.1, hyx, hy.2⟩
    simpa [Items.itemIsinlist, (hf y hout).2] using ho y hout hy'

/-- An endpoint that can be bound is called back for those that match. -/
theorem bind_spec (h : Holds E s xs ys) (hx : item ∉ xs) (hy : item ∉ ys)
    (ha : xs.any (fun b => Transport.sameAddr E b item) = false) :
    ∃ s', s.bind E item = .ok (s', 0) ∧ Holds E s' (xs ++ [item]) ys ∧
      s'.calls = s.calls ++ (ys.filter (Transport.matching E item)).map (item, ·) := by
  obtain ⟨items, bound, hi, hb, hc, ho⟩ := insert_spec h.bound h.connected h.disjoint h.out hx hy
  have hfew := h.few
  have hn : xs.length < s.inserted + 1 := by omega
  refine ⟨{ s with
    items := items, bound := bound, inserted := s.inserted + 1
    calls := s.calls ++ (ys.filter (Transport.matching E item)).map (item, ·) },
    ?_, ⟨hb, hc, fun z hz => ?_, ho, ?_, ?_⟩, rfl⟩
  · simp only [bind, inUse_spec h.bound.fwd hn, ha, ok_bind, Bool.false_eq_true, if_false, hi]
    rw [bindLoop_spec (s := { s with items := items, bound := bound, inserted := s.inserted + 1 })
      hc.fwd (show ys.length < s.inserted + 1 + 1 by omega)]
    rfl
  · rcases List.mem_append.1 hz with hz | hz
    · exact h.disjoint z hz
    · exact List.mem_singleton.1 hz ▸ hy
  · refine List.pairwise_append.2 ⟨h.distinct, List.pairwise_singleton _ _, fun b hm c hc he => ?_⟩
    obtain rfl := List.mem_singleton.1 hc
    rw [List.any_eq_false] at ha
    exact ha b hm (sameAddr_of_eq he)
  · simp only [List.length_append, List.length_singleton]
    omega

/-- An endpoint that connects is called back for what is bound there. -/
theorem connect_spec (h : Holds E s xs ys) (hx : item ∉ xs) (hy : item ∉ ys) :
    ∃ s', s.connect E item = .ok s' ∧ Holds E s' xs (ys ++ [item]) ∧
      s'.calls = s.calls ++ (found E item xs).map (item, ·) := by
  obtain ⟨items, connected, hi, hc, hb, ho⟩ := insert_spec h.connected h.bound
    (fun z hz hz' => h.disjoint z hz' hz) (fun z hz hz' => h.out z hz' hz) hy hx
  have hfew := h.few
  refine ⟨{ s with
    items := items, connected := connected, inserted := s.inserted + 1
    calls := s.calls ++ (found E item xs).map (item, ·) },
    ?_, ⟨hb, hc, fun z hz hz' => ?_, fun z hz hz' => ho z hz' hz, h.distinct, ?_⟩, rfl⟩
  · simp only [connect, ok_bind, hi]
    rw [connectLoop_spec (s := { s with
      items := items, connected := connected, inserted := s.inserted + 1 }) hb.fwd
      (show xs.length < s.inserted + 1 + 1 by omega)]
  · rcases List.mem_append.1 hz' with hz' | hz'
    · exact h.disjoint z hz hz'
    · exact hx (List.mem_singleton.1 hz' ▸ hz)
  · simp only [List.length_append, List.length_singleton]
    omega

theorem unbind_spec {as bs : List ε} (h : Holds E s (as ++ x :: bs) ys) :
    ∃ s', s.unbind x = .ok s' ∧ Holds E s' (as ++ bs) ys ∧ s'.calls = s.calls := by
  obtain ⟨items, bound, it, he, hb, hc, ho⟩ := erase_spec h.bound h.connected h.disjoint h.out
  have hsub : (as ++ bs).Sublist (as ++ x :: bs) := (List.sublist_cons_self x bs).append_left as
  have hfew := h.few
  refine ⟨{ s with items := items, bound := bound }, by simp [unbind, he], ⟨hb, hc, ?_, ho,
    h.distinct.sublist hsub, ?_⟩, rfl⟩
  · exact fun z hz => h.disjoint z (hsub.subset hz)
  · simp only [List.length_append, List.length_cons] at hfew ⊢
    omega

theorem disconnect_spec {as bs : List ε} (h : Holds E s xs (as ++ x :: bs)) :
    ∃ s', s.disconnect x = .ok s' ∧ Holds E s' xs (as ++ bs) ∧ s'.calls = s.calls := by
  obtain ⟨items, connected, it, he, hc, hb, ho⟩ := erase_spec h.connected h.bound
    (fun z hz hz' => h.disjoint z hz' hz) (fun z hz hz' => h.out z hz' hz)
  have hsub : (as ++ bs).Sublist (as ++ x :: bs) := (List.sublist_cons_self x bs).append_left as
  have hfew := h.few
  refine ⟨{ s with items := items, connected := connected }, by simp [disconnect, he],
    ⟨hb, hc, ?_, fun z hz hz' => ho z hz' hz, h.distinct, ?_⟩, rfl⟩
  · exact fun z hz hz' => h.disjoint z hz (hsub.subset hz')
  · simp only [List.length_append, List.length_cons] at hfew ⊢
    omega

/-! ### Calls -/

omit [DecidableEq ε] in
/-- Nothing is due where nobody registers. -/
theorem not_due {y : ε} (hb : ∀ z, s'.Bound z → s.Bound z)
    (hc : ∀ z, s'.Connected z → s.Connected z) : ¬ Due E s s' x y := by
  rintro (⟨-, ⟨hn, hx, hy⟩, -⟩ | ⟨-, ⟨hn, hx, hy⟩, -⟩) <;> exact hn ⟨hb _ hx, hc _ hy⟩

theorem calls_of_not_due (hb : ∀ z, s'.Bound z → s.Bound z)
    (hc : ∀ z, s'.Connected z → s.Connected z) (hcalls : s'.calls = s.calls) :
    ∃ cs, s'.calls = s.calls ++ cs ∧ ∀ x y,
      (Due E s s' x y → cs.count (x, y) = 1) ∧ (¬ Due E s s' x y → cs.count (x, y) = 0) :=
  ⟨[], by simp [hcalls], fun x y => ⟨fun hd => absurd hd (not_due hb hc), fun _ => rfl⟩⟩

/-- How often an endpoint is called back for the endpoints `zs`. -/
theorem count_map {zs : List ε} (hn : zs.Nodup) (x y : ε) :
    (zs.map (item, ·)).count (x, y) = if x = item ∧ y ∈ zs then 1 else 0 := by
  induction zs with
  | nil => simp
  | cons z zs ih =>
    obtain ⟨hz, hn⟩ := List.nodup_cons.1 hn
    rw [List.map_cons, List.count_cons, ih hn]
    by_cases hx : x = item
    · by_cases hy : y = z
      · subst hx hy
        simp [hz]
      · simp [hx, hy, Ne.symm hy]
    · simp [hx, Ne.symm hx]

theorem calls_of_due {zs : List ε} (hn : zs.Nodup)
    (hcalls : s'.calls = s.calls ++ zs.map (item, ·))
    (hd : ∀ x y, Due E s s' x y ↔ x = item ∧ y ∈ zs) :
    ∃ cs, s'.calls = s.calls ++ cs ∧ ∀ x y,
      (Due E s s' x y → cs.count (x, y) = 1) ∧ (¬ Due E s s' x y → cs.count (x, y) = 0) := by
  refine ⟨_, hcalls, fun x y => ?_⟩
  rw [hd, count_map hn]
  exact ⟨fun h => if_pos h, fun h => if_neg h⟩

omit [DecidableEq ε] in
/-- Those that are left in a list without repetition when one is taken out. -/
theorem mem_append_of_nodup {as bs : List ε} {z : ε} (hn : (as ++ x :: bs).Nodup) :
    z ∈ as ++ bs ↔ z ∈ as ++ x :: bs ∧ z ≠ x := by
  have hx : x ∉ as ++ bs := (List.nodup_cons.1 (List.nodup_middle.1 hn)).1
  rw [List.mem_append, List.mem_append, List.mem_cons]
  constructor
  · intro hz
    exact ⟨hz.imp_right .inr, fun he => hx (List.mem_append.2 (he ▸ hz))⟩
  · rintro ⟨hz | rfl | hz, hne⟩
    · exact .inl hz
    · exact absurd rfl hne
    · exact .inr hz

section

variable (hlen : ∀ e, (E.addr e).length ≤ sockaddrMax) (hsym : ∀ a b, E.ispeer a b = E.ispeer b a)

include hlen

omit [DecidableEq ε] in
/-- Addresses are compared as a whole. -/
theorem sameAddr_iff {a b : ε} : Transport.sameAddr E a b = true ↔ E.addr a = E.addr b := by
  simp [Transport.sameAddr, List.take_of_length_le (hlen _)]

/-- The endpoint found is the only one bound at the address. -/
theorem mem_found (h : xs.Pairwise fun a b => E.addr a ≠ E.addr b) {y : ε} :
    y ∈ found E item xs ↔ y ∈ xs ∧ E.addr item = E.addr y ∧ E.ispeer item y = true := by
  simp only [found, Option.mem_toList, Option.filter_eq_some_iff]
  constructor
  · rintro ⟨hf, hp⟩
    exact ⟨List.mem_of_find?_eq_some hf, (sameAddr_iff hlen).1 (List.find?_some hf), hp⟩
  · rintro ⟨hy, ha, hp⟩
    refine ⟨?_, hp⟩
    obtain ⟨b, hb⟩ : ∃ b, xs.find? (Transport.sameAddr E item) = some b :=
      Option.isSome_iff_exists.1 (List.find?_isSome.2 ⟨y, hy, (sameAddr_iff hlen).2 ha⟩)
    have hab := (sameAddr_iff hlen).1 (List.find?_some hb)
    -- Two endpoints bound at one address are the same.
    have hby : b = y := by
      by_contra hne
      have : Std.Symm fun a b => E.addr a ≠ E.addr b := ⟨fun _ _ hn => hn.symm⟩
      exact h.forall (List.mem_of_find?_eq_some hb) hy hne (hab.symm.trans ha)
    exact hby ▸ hb

theorem bind_right (h : Holds E s xs ys) (he : enabled s (.bind item)) :
    ∃ s', exec E s (.bind item) = .ok s' ∧ Right E s (.bind item) s' ∧ ∃ xs' ys', Holds E s' xs' ys' := by
  -- The address is in use or free, whether or not the endpoint is bound.
  by_cases ha : xs.any (fun b => Transport.sameAddr E b item) = true
  · have hb := bind_refused h ha
    have ht : Taken E s item := by
      obtain ⟨b, hm, hs⟩ := List.any_eq_true.1 ha
      exact ⟨b, (Holds.bound_iff h.bound).2 hm, (sameAddr_iff hlen).1 hs⟩
    refine ⟨s, by simp [exec, hb], ⟨?_, ?_, fun x => ?_, fun _ => Iff.rfl,
      calls_of_not_due (fun _ => id) (fun _ => id) rfl⟩, xs, ys, h⟩
    · rintro _ ⟨⟩ -
      exact ⟨rfl, hb⟩
    · rintro _ ⟨⟩ hn
      exact absurd ht hn
    · exact ⟨.inl, fun hx => hx.resolve_right fun hx => hx.2 ht⟩
  · have hx : item ∉ xs := fun hm => ha (List.any_eq_true.2 ⟨item, hm, sameAddr_of_eq rfl⟩)
    have hy : item ∉ ys := by
      rcases he with he | he
      · exact (h.isinlist_eq_false.1 he).2
      · exact absurd ((Holds.bound_iff h.bound).1 he) hx
    have ht : ¬ Taken E s item := by
      rintro ⟨b, hb, hab⟩
      exact ha (List.any_eq_true.2 ⟨b, (Holds.bound_iff h.bound).1 hb, sameAddr_of_eq hab⟩)
    obtain ⟨s', hb, h', hcalls⟩ := bind_spec h hx hy (by simpa using ha)
    refine ⟨s', by simp [exec, hb], ⟨?_, ?_, fun x => ?_, fun x => ?_,
      calls_of_due (h.connected.nodup.filter _) hcalls fun x y => ?_⟩, _, _, h'⟩
    · rintro _ ⟨⟩ ht'
      exact absurd ht' ht
    · rintro _ ⟨⟩ -
      exact hb
    · rw [BoundAfter, Holds.bound_iff h'.bound, Holds.bound_iff h.bound, List.mem_append,
        List.mem_singleton, and_iff_left ht]
    · rw [ConnectedAfter, Holds.connected_iff h'.connected, Holds.connected_iff h.connected]
    rw [List.mem_filter]
    simp only [Due, Begins, Holds.bound_iff h.bound, Holds.connected_iff h.connected,
      Holds.bound_iff h'.bound, Holds.connected_iff h'.connected, Transport.matching,
      Bool.and_eq_true, sameAddr_iff hlen, Matches, List.mem_append, List.mem_singleton]
    -- A call is due for what was connected before; `item` itself is the one that was not bound.
    constructor
    · rintro (⟨hm, ⟨-, hx', hy'⟩, hnx⟩ | ⟨-, ⟨-, -, hx'⟩, hnx⟩)
      · obtain rfl := hx'.resolve_left hnx
        exact ⟨rfl, hy', hm⟩
      · exact absurd hx' hnx
    · rintro ⟨rfl, hy', hm⟩
      exact .inl ⟨hm, ⟨fun hb => hx hb.1, .inr rfl, hy'⟩, hx⟩

include hsym in
theorem connect_right (h : Holds E s xs ys) (he : enabled s (.connect item)) :
    ∃ s', exec E s (.connect item) = .ok s' ∧ Right E s (.connect item) s' ∧
      ∃ xs' ys', Holds E s' xs' ys' := by
  obtain ⟨hx, hy⟩ := h.isinlist_eq_false.1 he
  obtain ⟨s', hc, h', hcalls⟩ := connect_spec h hx hy
  -- At most one endpoint is found.
  have hn : (found E item xs).Nodup := by
    unfold found
    cases (xs.find? (Transport.sameAddr E item)).filter (E.ispeer item) <;> simp
  refine ⟨s', hc, ⟨by simp, by simp, fun x => ?_, fun x => ?_,
    calls_of_due hn hcalls fun x y => ?_⟩, _, _, h'⟩
  · rw [BoundAfter, Holds.bound_iff h'.bound, Holds.bound_iff h.bound]
  · rw [ConnectedAfter, Holds.connected_iff h'.connected, Holds.connected_iff h.connected,
      List.mem_append, List.mem_singleton]
  rw [mem_found hlen h.distinct]
  simp only [Due, Begins, Holds.bound_iff h.bound, Holds.connected_iff h.connected,
    Holds.bound_iff h'.bound, Holds.connected_iff h'.connected, Matches, List.mem_append,
    List.mem_singleton]
  constructor
  · rintro (⟨-, ⟨-, hx', -⟩, hnx⟩ | ⟨hm, ⟨-, hy', hx'⟩, hnx⟩)
    · exact absurd hx' hnx
    · obtain rfl := hx'.resolve_left hnx
      exact ⟨rfl, hy', hm.1.symm, (hsym _ _).trans hm.2⟩
  · rintro ⟨rfl, hy', ha, hp⟩
    exact .inr ⟨⟨ha.symm, (hsym _ _).trans hp⟩, ⟨fun hb => hy hb.2, hy', .inr rfl⟩, hy⟩

omit hlen in
theorem unbind_right (h : Holds E s xs ys) (he : enabled s (.unbind item)) :
    ∃ s', exec E s (.unbind item) = .ok s' ∧ Right E s (.unbind item) s' ∧
      ∃ xs' ys', Holds E s' xs' ys' := by
  obtain ⟨as, bs, rfl⟩ := List.append_of_mem ((Holds.bound_iff h.bound).1 he)
  obtain ⟨s', hu, h', hcalls⟩ := unbind_spec h
  have hbound : ∀ z, s'.Bound z ↔ s.Bound z ∧ z ≠ item := fun z => by
    rw [Holds.bound_iff h'.bound, Holds.bound_iff h.bound, mem_append_of_nodup h.bound.nodup]
  have hconn : ∀ z, s'.Connected z ↔ s.Connected z := fun z => by
    rw [Holds.connected_iff h'.connected, Holds.connected_iff h.connected]
  exact ⟨s', hu, ⟨by simp, by simp, hbound, hconn,
    calls_of_not_due (fun z hz => ((hbound z).1 hz).1) (fun z => (hconn z).1) hcalls⟩, _, _, h'⟩

omit hlen in
theorem disconnect_right (h : Holds E s xs ys) (he : enabled s (.disconnect item)) :
    ∃ s', exec E s (.disconnect item) = .ok s' ∧ Right E s (.disconnect item) s' ∧
      ∃ xs' ys', Holds E s' xs' ys' := by
  obtain ⟨as, bs, rfl⟩ := List.append_of_mem ((Holds.connected_iff h.connected).1 he)
  obtain ⟨s', hu, h', hcalls⟩ := disconnect_spec h
  have hbound : ∀ z, s'.Bound z ↔ s.Bound z := fun z => by
    rw [Holds.bound_iff h'.bound, Holds.bound_iff h.bound]
  have hconn : ∀ z, s'.Connected z ↔ s.Connected z ∧ z ≠ item := fun z => by
    rw [Holds.connected_iff h'.connected, Holds.connected_iff h.connected,
      mem_append_of_nodup h.connected.nodup]
  exact ⟨s', hu, ⟨by simp, by simp, hbound, hconn,
    calls_of_not_due (fun z => (hbound z).1) (fun z hz => ((hconn z).1 hz).1) hcalls⟩, _, _, h'⟩

include hsym in
/-- Nobody is registered at first; and in every run those are who have registered and not
    unregistered, the addresses bound are different, an address in use is refused and any other
    accepted, and the callback is made once whenever two endpoints that match begin to be
    registered, for the one that registers last. -/
theorem called_once (hs : (system E).init s) (as : List (InsAction ε)) :
    (∀ x, ¬ s.Bound x ∧ ¬ s.Connected x) ∧ (system E).Correct (Distinct E) (Right E) s as := by
  obtain ⟨items, ho, rfl⟩ := hs
  have hinit : Holds E (init items) [] [] := ⟨Lists.init items, Lists.init items, by simp,
    fun x _ _ => ho x, .nil, Nat.le_refl 0⟩
  refine ⟨fun x => ⟨fun hx => ?_, fun hx => ?_⟩, ?_⟩
  · cases (Holds.bound_iff hinit.bound).1 hx
  · cases (Holds.connected_iff hinit.connected).1 hx
  -- The lists hold some endpoints all the time, whose addresses are different.
  refine System.correct_of_step (I := fun s => ∃ xs ys, Holds E s xs ys)
    (fun s ⟨xs, ys, h⟩ => ⟨xs, h.bound, h.distinct⟩) (fun s a ⟨xs, ys, h⟩ he => ?_) ⟨[], [], hinit⟩ as
  cases a with
  | bind item => exact bind_right hlen h he
  | connect item => exact connect_right hlen hsym h he
  | unbind item => exact unbind_right h he
  | disconnect item => exact disconnect_right h he

end

/-- Two endpoints at one address: one binds, the other connects, and so again. -/
theorem called_once_twice :
    (∀ x, ¬ (init ⟨fun _ => .out, fun _ => .out⟩ : NnIns ℕ).Bound x ∧
      ¬ (init ⟨fun _ => .out, fun _ => .out⟩ : NnIns ℕ).Connected x) ∧
    (system Transport.twoEps).Correct (Distinct Transport.twoEps)
      (Right Transport.twoEps) (init ⟨fun _ => .out, fun _ => .out⟩)
      [.bind 0, .connect 1, .unbind 0, .bind 2, .bind 0, .disconnect 1] :=
  called_once (E := Transport.twoEps) (fun _ => show 1 ≤ sockaddrMax by decide) (fun _ _ => rfl)
    ⟨_, fun _ => rfl, rfl⟩ _

end NnIns

/-! ## The transport -/

namespace Transport

variable {E : Eps ε} {w : Transport ε} {fn : InsFn ε} {item : ε}

omit [DecidableEq ε] in
/-- The second loop of `nn_ins_bind` passes over those that do not match. -/
theorem bindLoop_eq (cs : List ε) : bindLoop E fn item cs w =
    (cs.filter (matching E item)).foldlM (fun w citem => fn w item citem) w := by
  induction cs generalizing w with
  | nil => rfl
  | cons c cs ih =>
    rw [bindLoop]
    by_cases ha : sameAddr E item c = true
    · by_cases hp : E.ispeer item c = true <;> simp [matching, ha, hp, ih]
    · simp [matching, ha, ih]

omit [DecidableEq ε] in
/-- The loop of `nn_ins_connect` ends at the first one that has the address. -/
theorem connectLoop_eq (bs : List ε) : connectLoop E fn item bs w =
    (NnIns.found E item bs).foldlM (fun w bitem => fn w item bitem) w := by
  induction bs with
  | nil => rfl
  | cons b bs ih =>
    rw [connectLoop]
    by_cases ha : sameAddr E item b = true
    · by_cases hp : E.ispeer item b = true
      · simp only [NnIns.found, ha, hp, List.find?_cons, Option.filter, if_true, Bool.not_true,
          Bool.false_eq_true, if_false, Option.toList, List.foldlM_cons, List.foldlM_nil]
        cases fn w item b <;> rfl
      · simp [NnIns.found, ha, hp, Option.filter]
    · simp [NnIns.found, ha, ih]

omit [DecidableEq ε] in
/-- What the callbacks made are, where the transport keeps plain lists. -/
theorem insBind_eq : w.insBind E fn item =
    if w.bound.any fun bitem => sameAddr E bitem item then
      .ok (w, -Errno.eaddrinuse)
    else (do
      let w' ← (w.connected.filter (matching E item)).foldlM (fun w citem => fn w item citem)
        { w with bound := w.bound ++ [item] }
      pure (w', 0)) := by
  simp only [insBind, bindLoop_eq]

omit [DecidableEq ε] in
theorem insConnect_eq : w.insConnect E fn item =
    (NnIns.found E item w.bound).foldlM (fun w bitem => fn w item bitem)
      { w with connected := w.connected ++ [item] } := by
  simp only [insConnect, connectLoop_eq]

end Transport

end Nanomsg
