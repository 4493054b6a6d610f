import Nanomsg.Lib.Priority
import Nanomsg.Lib.Refinement
import Nanomsg.Utils.Clock
import Nanomsg.Utils.List

/-!
# Timer sets

`timerset.c`: the active handles of a worker, in a list that is kept in order of
their deadlines. A handle is added with a timeout, and is active until it is
removed or returned by `nn_timerset_event`.

What the clock reads is a parameter of the call; it may be anything. `added`, which is not
part of the source, counts the handles added: it bounds the loop of
`nn_timerset_add`.

`Active` is what a set is for: the handles that are active with their
deadlines, in the order in which they were added. `Holds` says how a set keeps them, and
`refines` that every call answers as they do.
-/

namespace Nanomsg

open Function Transition Intrusive Priority

variable {ι : Type}

/-- `struct nn_timerset`, and the `struct nn_timerset_hndl` of every timer. -/
structure Timerset (ι : Type) where
  timeouts : NnList ι
  list : Items ι
  timeout : ι → UInt64
  added : ℕ

namespace Timerset

/-- `nn_timerset_init`, and `nn_timerset_hndl_init` of every handle. -/
def init (timeout : ι → UInt64) : Timerset ι :=
  ⟨NnList.init, ⟨fun _ => .out, fun _ => .out⟩, timeout, 0⟩

variable [DecidableEq ι] (self : Timerset ι)

/-- `hndl->timeout = v`. -/
def setTimeout (hndl : ι) (v : UInt64) : Timerset ι :=
  { self with timeout := update self.timeout hndl v }

/-- The loop of `nn_timerset_add`: from `it` on, the first with a later deadline. -/
def findLater (timeout : UInt64) : ℕ → Link ι → Except Fault (Link ι)
  | 0, _ => .error .diverges
  | _ + 1, .null => .ok .null
  | _ + 1, .out => .error .wildPointer
  | n + 1, .node ith =>
    if timeout < self.timeout ith then
      .ok (.node ith)
    else do
      let it ← NnList.next self.list (.node ith)
      findLater timeout n it

/-- `nn_timerset_add`, the clock reading `now`. -/
def add (now : UInt64) (timeout : ℤ) (hndl : ι) : Except Fault (Timerset ι × ℤ) := do
  let self := self.setTimeout hndl (now + UInt64.ofInt timeout)
  let it ← self.findLater (self.timeout hndl) (self.added + 1) self.timeouts.first
  let first : ℤ := if self.timeouts.first = it then 1 else 0
  let (list, l) ← NnList.insert self.list self.timeouts hndl it
  pure ({ self with timeouts := l, list := list, added := self.added + 1 }, first)

/-- `nn_timerset_rm`. -/
def rm (hndl : ι) : Except Fault (Timerset ι × ℤ) :=
  if self.list.itemIsinlist hndl then do
    let first : ℤ := if self.timeouts.first = .node hndl then 1 else 0
    let (list, l, _) ← NnList.erase self.list self.timeouts hndl
    pure ({ self with timeouts := l, list := list }, first)
  else
    .ok (self, 0)

/-- `nn_timerset_event`, the clock reading `now`: the handle, if it returns 0. -/
def event (now : UInt64) : Except Fault (Timerset ι × ℤ × Option ι) :=
  if self.timeouts.empty then
    .ok (self, -Errno.eagain, none)
  else
    match self.timeouts.first with
    | .null => .error .nullDeref
    | .out => .error .wildPointer
    | .node first =>
      if now < self.timeout first then
        .ok (self, -Errno.eagain, none)
      else do
        let (list, l, _) ← NnList.erase self.list self.timeouts first
        pure ({ self with timeouts := l, list := list }, 0, some first)

/-- `nn_timerset_hndl_isactive`. -/
def hndlIsactive (hndl : ι) : Bool := self.list.itemIsinlist hndl

end Timerset

/-! ## What is active -/

/-- The calls of a timer set. -/
inductive TimersetOp (ι : Type)
  | add (now : UInt64) (timeout : ℤ) (hndl : ι)
  | rm (hndl : ι)
  | event (now : UInt64)

/-- The active handles with their deadlines, in the order in which they were added. -/
abbrev Active (ι : Type) := List (ℕ × ι)

namespace Active

variable [DecidableEq ι]

/-- The handle to be returned first. -/
def firstHndl (t : Active ι) : Option ι := (Priority.first t).map (·.2)

/-- 1 if another handle comes first in `t'` than in `t`. -/
def changes (t t' : Active ι) : ℤ := if firstHndl t' = firstHndl t then 0 else 1

/-- The handle is active no more. -/
def remove (t : Active ι) (hndl : ι) : Active ι := t.filter (·.2 ≠ hndl)

/-- The handle to be returned at a time: the first, if its deadline has come. -/
def due (t : Active ι) (now : UInt64) : Option ι :=
  match Priority.first t with
  | none => none
  | some p => if p.1 ≤ now.toNat then some p.2 else none

/-- What a call does to the active handles, and what it returns. -/
def spec : Spec (Active ι) (TimersetOp ι) (ℤ × Option ι) where
  step t
    | .add now timeout hndl =>
      let t' := t ++ [(now.toNat + timeout.toNat, hndl)]
      (t', changes t t', none)
    | .rm hndl => (remove t hndl, changes t (remove t hndl), none)
    | .event now =>
      match due t now with
      | none => (t, -Errno.eagain, none)
      | some hndl => (remove t hndl, 0, some hndl)

/-- A call adds the handle. -/
def adds (hndl : ι) : TimersetOp ι → Bool
  | .add _ _ x => x = hndl
  | .rm _ | .event _ => false

/-- How often a handle has been added, or has been returned. -/
abbrev added (hndl : ι) (ops : List (TimersetOp ι)) : ℕ := ops.countP (adds hndl)
abbrev returned (hndl : ι) (os : List (ℤ × Option ι)) : ℕ := os.countP (·.2 = some hndl)

/-- A handle added is not active, its timeout not negative, and its deadline within 64 bits. -/
def Allowed (t : Active ι) : TimersetOp ι → Prop
  | .add now timeout hndl => (∀ p ∈ t, p.2 ≠ hndl) ∧ 0 ≤ timeout ∧ now.toNat + timeout < 2 ^ 64
  | .rm _ | .event _ => True

variable {t : Active ι} {hndl x : ι}

omit [DecidableEq ι] in
theorem exists_append {d : ℕ} (hx : x ≠ hndl) :
    (∃ p ∈ t ++ [(d, hndl)], p.2 = x) ↔ ∃ p ∈ t, p.2 = x := by
  constructor
  · rintro ⟨p, hp, rfl⟩
    refine ⟨p, (List.mem_append.1 hp).resolve_right fun hm => hx ?_, rfl⟩
    rw [List.mem_singleton.1 hm]
  · exact fun ⟨p, hp, he⟩ => ⟨p, List.mem_append_left _ hp, he⟩

theorem exists_remove (hx : x ≠ hndl) :
    (∃ p ∈ remove t hndl, p.2 = x) ↔ ∃ p ∈ t, p.2 = x :=
  ⟨fun ⟨p, hp, he⟩ => ⟨p, (List.mem_filter.1 hp).1, he⟩,
    fun ⟨p, hp, he⟩ => ⟨p, List.mem_filter.2 ⟨hp, by simpa [he] using hx⟩, he⟩⟩

omit [DecidableEq ι] in
/-- Nothing is due exactly when no deadline has come. -/
theorem due_eq_none {now : UInt64} : due t now = none ↔ ∀ p ∈ t, now.toNat < p.1 := by
  rw [due]
  cases hf : Priority.first t with
  | none => simp [first_eq_none.1 hf]
  | some p =>
    have hp := List.mem_of_find?_eq_some hf
    have hmin : ∀ q ∈ t, p.1 ≤ q.1 := by simpa using List.find?_some hf
    by_cases hle : p.1 ≤ now.toNat
    · exact iff_of_false (by simp [hle]) fun hlt => Nat.not_lt.2 hle (hlt p hp)
    · exact iff_of_true (by simp [hle]) fun q hq => Nat.lt_of_lt_of_le (Nat.not_le.1 hle) (hmin q hq)

omit [DecidableEq ι] in
theorem exists_of_due {now : UInt64} (h : due t now = some hndl) : ∃ p ∈ t, p.2 = hndl := by
  rw [due] at h
  cases hf : Priority.first t with
  | none => simp [hf] at h
  | some p =>
    by_cases hle : p.1 ≤ now.toNat
    · exact ⟨p, List.mem_of_find?_eq_some hf, by simpa [hf, hle] using h⟩
    · simp [hf, hle] at h

end Active

namespace Timerset

variable [DecidableEq ι]

def program : Program (Timerset ι) (TimersetOp ι) (ℤ × Option ι) Fault where
  exec self
    | .add now timeout hndl => do
      let (self, rc) ← self.add now timeout hndl
      pure (self, rc, none)
    | .rm hndl => do
      let (self, rc) ← self.rm hndl
      pure (self, rc, none)
    | .event now => self.event now

/-- The set keeps `t`: its list holds the active handles by their deadlines, and
    among equals in the order in which they were added. -/
structure Holds (s : Timerset ι) (t : Active ι) : Prop where
  sorts : ∃ ps, Sorts t ps ∧ Lists s.list s.timeouts (ps.map (·.2)) ∧ ps.length ≤ s.added
  timeout : ∀ p ∈ t, (s.timeout p.2).toNat = p.1
  isactive : ∀ x, s.hndlIsactive x = true ↔ ∃ p ∈ t, p.2 = x

section

variable (self : Timerset ι) (hndl : ι) (v : UInt64)

@[simp] theorem setTimeout_timeouts : (self.setTimeout hndl v).timeouts = self.timeouts := rfl
@[simp] theorem setTimeout_list : (self.setTimeout hndl v).list = self.list := rfl
@[simp] theorem setTimeout_added : (self.setTimeout hndl v).added = self.added := rfl
@[simp] theorem setTimeout_timeout :
    (self.setTimeout hndl v).timeout = update self.timeout hndl v := rfl

end

variable {self : Timerset ι} {t : Active ι} {hndl : ι} {now timeout : UInt64} {p : Link ι} {n : ℕ}
  {ps : List (ℕ × ι)}

/-- The loop of `nn_timerset_add` stops where a handle with the deadline belongs. -/
theorem findLater_spec (h : Chain self.list.next p (ps.map (·.2)) .null)
    (ht : ∀ p ∈ ps, (self.timeout p.2).toNat = p.1) (hn : ps.length < n) :
    self.findLater timeout n p = .ok (Link.head ((Sorts.beyond timeout.toNat ps).map (·.2))) := by
  induction ps generalizing p n with
  | nil =>
    obtain ⟨n, rfl⟩ := Nat.exists_eq_succ_of_ne_zero (Nat.ne_of_gt hn)
    obtain rfl : p = .null := h
    rfl
  | cons q ps ih =>
    obtain ⟨n, rfl⟩ := Nat.exists_eq_succ_of_ne_zero (Nat.ne_of_gt (Nat.zero_lt_of_lt hn))
    obtain ⟨rfl, h'⟩ := h
    have hq := ht q List.mem_cons_self
    by_cases hlt : timeout < self.timeout q.2
    · have hle : ¬ q.1 ≤ timeout.toNat := by
        rw [← hq]
        exact Nat.not_le.2 (UInt64.lt_iff_toNat_lt.1 hlt)
      simp [findLater, hlt, Sorts.beyond, hle]
    · have hle : q.1 ≤ timeout.toNat := by
        rw [← hq]
        exact Nat.not_lt.1 (mt UInt64.lt_iff_toNat_lt.2 hlt)
      simp only [findLater, if_neg hlt, NnList.next_ok h', ok_bind]
      rw [ih h' (fun p hp => ht p (List.mem_cons_of_mem q hp)) (Nat.lt_of_succ_lt_succ hn)]
      simp [Sorts.beyond, hle]

/-- A deadline does not overflow. -/
theorem deadline_toNat {timeout : ℤ} (h0 : 0 ≤ timeout) (hlt : now.toNat + timeout < 2 ^ 64) :
    (now + UInt64.ofInt timeout).toNat = now.toNat + timeout.toNat := by
  rw [Clock.toNat_add_ofInt now h0 (by omega), Nat.mod_eq_of_lt (by omega)]

omit [DecidableEq ι] in
/-- An item comes first if it is inserted before the first. -/
theorem head_insert {as bs : List ι} {x : ι} (hx : x ∉ as ++ bs) (hn : (as ++ bs).Nodup) :
    (as ++ bs).head? = bs.head? ↔ (as ++ x :: bs).head? ≠ (as ++ bs).head? := by
  cases as with
  | nil =>
    cases bs with
    | nil => simp
    | cons b bs => simpa using fun he : x = b => hx (by simp [he])
  | cons a as =>
    cases bs with
    | nil => simp
    | cons b bs => simpa using fun he : a = b => (List.nodup_cons.1 hn).1 (by simp [he])

omit [DecidableEq ι] in
theorem firstHndl_eq (h : Sorts t ps) : Active.firstHndl t = (ps.map (·.2)).head? := by
  rw [Active.firstHndl, h.first_eq, List.head?_map]

/-- What `nn_timerset_add` and `nn_timerset_rm` return. -/
theorem flag_eq {t' : Active ι} {P : Prop} [Decidable P]
    (h : P ↔ Active.firstHndl t' ≠ Active.firstHndl t) :
    (if P then (1 : ℤ) else 0) = Active.changes t t' := by
  rw [Active.changes]
  by_cases hp : P
  · rw [if_pos hp, if_neg (h.1 hp)]
  · rw [if_neg hp, if_pos (not_not.1 (mt h.2 hp))]

/-- A handle is added under the deadline that 64 bits hold. -/
theorem add_holds {timeout : ℤ} {d : ℕ} (h : Holds self t) (ht : ∀ p ∈ t, p.2 ≠ hndl)
    (hd : (now + UInt64.ofInt timeout).toNat = d) :
    ∃ self', self.add now timeout hndl = .ok (self', Active.changes t (t ++ [(d, hndl)])) ∧
      Holds self' (t ++ [(d, hndl)]) := by
  obtain ⟨ps, hps, hl, hadded⟩ := h.sorts
  have hout : self.list.itemIsinlist hndl = false := by
    have := mt (h.isactive hndl).1 fun ⟨p, hp, hx⟩ => ht p hp hx
    simpa [hndlIsactive] using this
  have hxps : hndl ∉ ps.map (·.2) := fun hm => by
    obtain ⟨p, hp, rfl⟩ := List.mem_map.1 hm
    exact ht p (hps.mem_iff.1 hp) rfl
  obtain ⟨as, bs, has, hbs⟩ : ∃ as bs, Sorts.upTo d ps = as ∧ Sorts.beyond d ps = bs :=
    ⟨_, _, rfl, rfl⟩
  have hsplit : as ++ bs = ps := has ▸ hbs ▸ Sorts.upTo_append d ps
  have hmap : ps.map (·.2) = as.map (·.2) ++ bs.map (·.2) := by rw [← hsplit, List.map_append]
  have hins := hps.insert (d, hndl)
  rw [has, hbs] at hins
  rw [hmap] at hl hxps
  have htimeout : ∀ p ∈ t,
      ((self.setTimeout hndl (now + UInt64.ofInt timeout)).timeout p.2).toNat = p.1 :=
    fun p hp => by
      rw [setTimeout_timeout, update_of_ne (ht p hp)]
      exact h.timeout p hp
  have hfind : (self.setTimeout hndl (now + UInt64.ofInt timeout)).findLater
      (now + UInt64.ofInt timeout) (self.added + 1) self.timeouts.first =
        .ok (Link.head (bs.map (·.2))) := by
    rw [← hbs, ← hd]
    exact findLater_spec (by rw [hmap]; exact hl.fwd)
      (fun p hp => htimeout p (hps.mem_iff.1 hp)) (Nat.lt_succ_of_le hadded)
  obtain ⟨list, l, hi, hw, hframe⟩ := hl.insert_spec hout hxps
  -- It is the first handle if it goes before the one that was.
  have hfirst : (if self.timeouts.first = Link.head (bs.map (·.2)) then (1 : ℤ) else 0) =
      Active.changes t (t ++ [(d, hndl)]) := by
    refine flag_eq ?_
    rw [firstHndl_eq hins, firstHndl_eq hps, hl.first_eq, Link.head_eq_head, hmap,
      head_insert hxps hl.nodup, List.map_append, List.map_cons]
  refine ⟨{ self.setTimeout hndl (now + UInt64.ofInt timeout) with
      timeouts := l, list := list, added := self.added + 1 }, ?_,
    ⟨⟨_, hins, by simpa using hw, ?_⟩, fun p hp => ?_, fun x => ?_⟩⟩
  · rw [← hfirst]
    simp only [add, setTimeout_timeout, setTimeout_added, setTimeout_timeouts, setTimeout_list,
      update_self, hfind, ok_bind, hi, pure_eq_ok]
    rfl
  · have := congrArg List.length hsplit
    simp only [List.length_append, List.length_cons] at this ⊢
    show _ ≤ self.added + 1
    omega
  · rcases List.mem_append.1 hp with hp | hp
    · exact htimeout p hp
    · rw [List.mem_singleton.1 hp]
      rw [setTimeout_timeout, update_self, hd]
  · show list.itemIsinlist x = true ↔ _
    by_cases hx : x = hndl
    · subst hx
      exact iff_of_true (hw.isinlist (by simp)) ⟨(d, x), by simp, rfl⟩
    · rw [Active.exists_append hx, ← h.isactive, hndlIsactive, hl.itemIsinlist_eq hw hframe hx]

theorem add_spec {timeout : ℤ} (h : Holds self t) (ht : ∀ p ∈ t, p.2 ≠ hndl) (h0 : 0 ≤ timeout)
    (hlt : now.toNat + timeout < 2 ^ 64) :
    ∃ self', self.add now timeout hndl =
        .ok (self', Active.changes t (t ++ [(now.toNat + timeout.toNat, hndl)])) ∧
      Holds self' (t ++ [(now.toNat + timeout.toNat, hndl)]) :=
  add_holds h ht (deadline_toNat h0 hlt)

/-- An active handle is erased. -/
theorem erase_spec {p : ℕ × ι} (h : Holds self t) (hp : p ∈ t) :
    ∃ list l q, NnList.erase self.list self.timeouts p.2 = .ok (list, l, q) ∧
      Holds { self with timeouts := l, list := list } (Active.remove t p.2) := by
  obtain ⟨ps, hps, hl, hadded⟩ := h.sorts
  obtain ⟨as, bs, rfl⟩ := List.append_of_mem (hps.mem_iff.2 hp)
  rw [List.map_append, List.map_cons] at hl
  obtain ⟨list, he, hw, hout, hframe⟩ := hl.erase_spec self.timeouts
  have hn := List.nodup_cons.1 (List.nodup_middle.1 hl.nodup)
  have hall : ∀ q ∈ as ++ bs, q.2 ≠ p.2 := fun q hq he =>
    hn.1 (he ▸ List.map_append (f := fun q : ℕ × ι => q.2) ▸ List.mem_map_of_mem hq)
  have hrm := hps.filter (·.2 ≠ p.2)
  rw [filter_key_ne rfl hall] at hrm
  refine ⟨list, _, _, he, ⟨_, hrm, by rw [List.map_append]; exact hw, ?_⟩, fun q hq => ?_,
    fun x => ?_⟩
  · simp only [List.length_append, List.length_cons] at hadded ⊢
    show _ ≤ self.added
    omega
  · exact h.timeout q (List.mem_filter.1 hq).1
  · show list.itemIsinlist x = true ↔ _
    by_cases hx : x = p.2
    · subst hx
      rw [hout]
      exact iff_of_false (by simp) fun ⟨q, hq, he⟩ => by simpa [he] using (List.mem_filter.1 hq).2
    · have hback : ∀ y ∉ as.map (·.2) ++ p.2 :: bs.map (·.2),
          self.list.next y = list.next y ∧ self.list.prev y = list.prev y :=
        fun y hy => ⟨(hframe y hy).1.symm, (hframe y hy).2.symm⟩
      rw [Active.exists_remove hx, ← h.isactive, hndlIsactive, hw.itemIsinlist_eq hl hback hx]

/-- The first handle changes when the one that is first is removed. -/
theorem firstHndl_remove (h : Sorts t ps) (hn : (ps.map (·.2)).Nodup) :
    Active.firstHndl t = some hndl ↔
      Active.firstHndl (Active.remove t hndl) ≠ Active.firstHndl t := by
  rw [firstHndl_eq h, Active.remove, firstHndl_eq (h.filter _)]
  cases ps with
  | nil => simp
  | cons p ps =>
    have hp := (List.nodup_cons.1 hn).1
    by_cases hx : p.2 = hndl
    · subst hx
      have hall : ∀ q ∈ ps, q.2 ≠ p.2 := fun q hq he => hp (List.mem_map.2 ⟨q, hq, he⟩)
      rw [List.filter_cons_of_neg (by simp), List.filter_eq_self.2 (by simpa using hall)]
      refine iff_of_true rfl ?_
      cases ps with
      | nil => simp
      | cons q ps => simpa using hall q List.mem_cons_self
    · rw [List.filter_cons_of_pos (by simpa using hx)]
      simpa using hx

/-- Nothing happens to an inactive handle. -/
theorem rm_inactive (h : Holds self t) (hx : ∀ p ∈ t, p.2 ≠ hndl) :
    self.rm hndl = .ok (self, 0) := by
  have := mt (h.isactive hndl).1 fun ⟨p, hp, he⟩ => hx p hp he
  rw [hndlIsactive, Bool.not_eq_true] at this
  simp [rm, this]

theorem rm_spec (h : Holds self t) (hndl : ι) :
    ∃ self', self.rm hndl = .ok (self', Active.changes t (Active.remove t hndl)) ∧
      Holds self' (Active.remove t hndl) := by
  by_cases hx : ∃ p ∈ t, p.2 = hndl
  · have hact := (h.isactive hndl).2 hx
    obtain ⟨p, hp, rfl⟩ := hx
    obtain ⟨list, l, q, he, h'⟩ := erase_spec h hp
    obtain ⟨ps, hps, hl, -⟩ := h.sorts
    have hfirst : (if self.timeouts.first = .node p.2 then (1 : ℤ) else 0) =
        Active.changes t (Active.remove t p.2) := by
      refine flag_eq ?_
      rw [← firstHndl_remove hps hl.nodup, firstHndl_eq hps, hl.first_eq]
      cases ps <;> simp
    rw [hndlIsactive] at hact
    exact ⟨_, by simp [rm, hact, he, hfirst], h'⟩
  · have hx' : ∀ p ∈ t, p.2 ≠ hndl := fun p hp he => hx ⟨p, hp, he⟩
    have hsame : Active.remove t hndl = t := List.filter_eq_self.2 (by simpa using hx')
    refine ⟨self, ?_, hsame.symm ▸ h⟩
    rw [rm_inactive h hx', hsame, Active.changes, if_pos rfl]

/-- `nn_timerset_event` returns what is due. -/
theorem event_due (h : Holds self t) (now : UInt64) :
    (Active.due t now = none ∧ self.event now = .ok (self, -Errno.eagain, none)) ∨
      ∃ hndl self', Active.due t now = some hndl ∧ self.event now = .ok (self', 0, some hndl) ∧
        Holds self' (Active.remove t hndl) := by
  obtain ⟨ps, hps, hl, -⟩ := h.sorts
  have hemp := hl.empty_eq
  have hfirst := hl.first_eq
  cases ps with
  | nil =>
    simp only [List.map_nil, List.isEmpty_nil] at hemp
    exact .inl ⟨by simp [Active.due, hps.first_eq], by simp [event, hemp]⟩
  | cons p ps =>
    simp only [List.map_cons, List.isEmpty_cons, Link.head_cons] at hemp hfirst
    have hp := hps.mem_iff.1 List.mem_cons_self
    have htimeout := h.timeout p hp
    by_cases hlt : now < self.timeout p.2
    · have hle : ¬ p.1 ≤ now.toNat := by
        rw [← htimeout]
        exact Nat.not_le.2 (UInt64.lt_iff_toNat_lt.1 hlt)
      exact .inl ⟨by simp [Active.due, hps.first_eq, hle], by simp [event, hemp, hfirst, hlt]⟩
    · have hle : p.1 ≤ now.toNat := by
        rw [← htimeout]
        exact Nat.not_lt.1 (mt UInt64.lt_iff_toNat_lt.2 hlt)
      obtain ⟨list, l, q, he, h'⟩ := erase_spec h hp
      exact .inr ⟨p.2, { self with timeouts := l, list := list },
        by simp [Active.due, hps.first_eq, hle], by simp [event, hemp, hfirst, hlt, he], h'⟩

theorem event_spec (h : Holds self t) (now : UInt64) :
    ∃ self', self.event now = .ok (self', (Active.spec.step t (.event now)).2) ∧
      Holds self' (Active.spec.step t (.event now)).1 := by
  simp only [Active.spec]
  obtain ⟨hd, he⟩ | ⟨hndl, self', hd, he, h'⟩ := event_due h now
  · exact ⟨self, by rw [he, hd], by rw [hd]; exact h⟩
  · exact ⟨self', by rw [he, hd], by rw [hd]; exact h'⟩

/-- Which handles are active when one more is, or one less. -/
theorem Holds.isactive_add {self' : Timerset ι} {d : ℕ} (h : Holds self t)
    (h' : Holds self' (t ++ [(d, hndl)])) :
    self'.hndlIsactive = update self.hndlIsactive hndl true := by
  funext x
  by_cases hx : x = hndl
  · subst hx
    rw [update_self]
    exact (h'.isactive x).2 ⟨(d, x), by simp, rfl⟩
  · rw [update_of_ne hx, Bool.eq_iff_iff, h'.isactive, h.isactive]
    exact Active.exists_append hx

theorem Holds.isactive_remove {self' : Timerset ι} (h : Holds self t)
    (h' : Holds self' (Active.remove t hndl)) :
    self'.hndlIsactive = update self.hndlIsactive hndl false := by
  funext x
  by_cases hx : x = hndl
  · subst hx
    rw [update_self, ← Bool.not_eq_true, h'.isactive]
    exact fun ⟨p, hp, he⟩ => by simpa [he] using (List.mem_filter.1 hp).2
  · rw [update_of_ne hx, Bool.eq_iff_iff, h'.isactive, h.isactive]
    exact Active.exists_remove hx

/-! ### Runs -/

theorem holds_init (timeout : ι → UInt64) : Holds (init timeout) [] where
  sorts := ⟨[], .nil, .init _, Nat.le_refl 0⟩
  timeout := fun _ hp => absurd hp List.not_mem_nil
  isactive := fun x => by simp [hndlIsactive, init, Items.itemIsinlist]

theorem refines : (program (ι := ι)).Refines Active.spec Active.Allowed Holds := by
  intro self t op h ha
  cases op with
  | add now timeout hndl =>
    obtain ⟨self', hx, h'⟩ := add_spec h ha.1 ha.2.1 ha.2.2
    exact ⟨self', by simp [program, hx, Active.spec], h'⟩
  | rm hndl =>
    obtain ⟨self', hx, h'⟩ := rm_spec h hndl
    exact ⟨self', by simp [program, hx, Active.spec], h'⟩
  | event now => exact event_spec h now

end Timerset

namespace Active

variable [DecidableEq ι] {t : Active ι} {hndl : ι}

/-- A handle is active, as a number. -/
def active (t : Active ι) (hndl : ι) : ℕ := if ∃ p ∈ t, p.2 = hndl then 1 else 0

theorem active_le_one : active t hndl ≤ 1 := by
  rw [active]
  split <;> omega

theorem active_remove_self : active (remove t hndl) hndl = 0 :=
  if_neg fun ⟨p, hp, he⟩ => by simpa [he] using (List.mem_filter.1 hp).2

theorem active_remove_le {x : ι} : active (remove t x) hndl ≤ active t hndl := by
  by_cases h : ∃ p ∈ remove t x, p.2 = hndl
  · obtain ⟨p, hp, he⟩ := h
    rw [active, active, if_pos ⟨p, hp, he⟩, if_pos ⟨p, (List.mem_filter.1 hp).1, he⟩]
  · rw [active, if_neg h]
    exact Nat.zero_le _

/-- A call that returns a handle makes it inactive, and only adding it makes it active. -/
theorem returned_step (t : Active ι) (op : TimersetOp ι) (hndl : ι) :
    returned hndl [(spec.step t op).2] + active (spec.step t op).1 hndl ≤
      added hndl [op] + active t hndl := by
  cases op with
  | add now timeout x =>
    by_cases hx : x = hndl
    · have := @active_le_one _ _ (spec.step t (.add now timeout x)).1 hndl
      simp only [spec, returned, added, adds, List.countP_singleton, hx] at this ⊢
      simp
      omega
    · simp only [spec, active, exists_append (Ne.symm hx)]
      simp [returned]
  | rm x => simpa [spec, returned, added, adds] using active_remove_le
  | event now =>
    simp only [spec]
    cases hd : due t now with
    | none => simp [returned]
    | some x =>
      by_cases hx : x = hndl
      · subst hx
        rw [active_remove_self, active, if_pos (exists_of_due hd)]
        simp [returned, added]
      · simpa [returned, added, adds, hx] using active_remove_le

/-- A handle has been returned as often as it was added, at most. -/
theorem returned_le (t : Active ι) (ops : List (TimersetOp ι)) (hndl : ι) :
    returned hndl (spec.run t ops).2 + active (spec.run t ops).1 hndl ≤
      added hndl ops + active t hndl := by
  induction ops generalizing t with
  | nil => simp
  | cons op ops ih =>
    have hstep := returned_step t op hndl
    have hrest := ih (spec.step t op).1
    simp only [Spec.run_cons, returned, added, List.countP_cons, List.countP_nil] at hstep hrest ⊢
    omega

/-- It is not returned after it was removed, until it is added again. -/
theorem returned_after_rm (t : Active ι) (as bs : List (TimersetOp ι)) (h : added hndl bs = 0) :
    returned hndl ((spec.run t (as ++ .rm hndl :: bs)).2.drop (as.length + 1)) = 0 := by
  have hlen : as.length + 1 = (spec.run t (as ++ [.rm hndl])).2.length := by simp
  have hbs := returned_le (spec.run t (as ++ [.rm hndl])).1 bs hndl
  have hrm : active (spec.run t (as ++ [.rm hndl])).1 hndl = 0 := by
    rw [Spec.run_append]
    exact active_remove_self
  rw [show as ++ .rm hndl :: bs = (as ++ [.rm hndl]) ++ bs by simp, Spec.run_append _ _ (as ++ _),
    hlen, List.drop_left]
  omega

end Active

namespace Timerset

variable [DecidableEq ι]

/-- After any calls, a timer set has answered as the active handles say, and keeps
    those that are active then, by their deadlines and the order in which they came.
    It has nothing to return exactly when no deadline has come; it returns a
    handle as often as it was added at most, and never after it was removed. -/
theorem timerset_correct (timeout : ι → UInt64) (ops : List (TimersetOp ι))
    (hops : Active.spec.Allowed Active.Allowed [] ops) :
    ∃ self, program.run (init timeout) ops = .ok (self, (Active.spec.run [] ops).2) ∧
      Holds self (Active.spec.run [] ops).1 ∧
      (∀ now, (∃ self', self.event now = .ok (self', -Errno.eagain, none)) ↔
        ∀ p ∈ (Active.spec.run [] ops).1, now.toNat < p.1) ∧
      (∀ hndl, (∀ p ∈ (Active.spec.run [] ops).1, p.2 ≠ hndl) → self.rm hndl = .ok (self, 0)) ∧
      (∀ hndl, Active.returned hndl (Active.spec.run [] ops).2 ≤ Active.added hndl ops) ∧
      ∀ as bs hndl, ops = as ++ .rm hndl :: bs → Active.added hndl bs = 0 →
        Active.returned hndl ((Active.spec.run [] ops).2.drop (as.length + 1)) = 0 := by
  obtain ⟨self, hr, h⟩ := refines.run (holds_init timeout) hops
  refine ⟨self, hr, h, fun now => ?_, fun hndl => rm_inactive h, fun hndl => ?_,
    fun as bs hndl he hbs => ?_⟩
  · rw [← Active.due_eq_none]
    obtain ⟨hd, he⟩ | ⟨hndl, self', hd, he, -⟩ := event_due h now
    · exact iff_of_true ⟨self, he⟩ hd
    · exact iff_of_false (by simp [he]) (by simp [hd])
  · exact Nat.le_of_add_right_le (Active.returned_le [] ops hndl)
  · rw [he]
    exact Active.returned_after_rm [] as bs hbs

/-- Two equal deadlines and an earlier one, which is removed. -/
theorem timerset_correct_equal :
    ∃ self, program.run (init fun _ => 0)
        [.add 5 5 (0 : ℕ), .add 7 3 1, .add 2 1 2, .rm 2, .event 9, .event 10, .event 8] =
      .ok (self, [(1, none), (0, none), (1, none), (1, none), (-Errno.eagain, none), (0, some 0),
        (-Errno.eagain, none)]) := by
  obtain ⟨self, hr, -⟩ := timerset_correct (fun _ => 0)
    [.add 5 5 (0 : ℕ), .add 7 3 1, .add 2 1 2, .rm 2, .event 9, .event 10, .event 8]
    (by simp [Spec.Allowed, Active.Allowed, Active.spec])
  exact ⟨self, hr⟩

end Timerset

end Nanomsg
