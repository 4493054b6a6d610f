import Mathlib.Tactic.Common

/-!
# Settings

A store of settings is told to change one of them, which it does or refuses. It *holds* a setting
if this has the value it was last given, or else the one it had (`get_run`): where a change that is
refused leaves it as it is, and one that is accepted changes the setting that it names and no
other, it does.
-/

/-- A store whose states are `σ`, of settings `κ` with values `β`. -/
structure Settings (σ κ β : Type*) where
  /-- Whether the change is accepted, and the state after it. -/
  set : σ → κ × β → Bool × σ
  get : σ → κ → β

namespace Settings

variable {σ κ β : Type*} (S : Settings σ κ β)

/-- The changes `cs`, one after the other. -/
def run : σ → List (κ × β) → σ
  | s, [] => s
  | s, c :: cs => run (S.set s c).2 cs

/-- What every change keeps holds after all of them. -/
theorem inv_run {I : σ → Prop} {P : κ × β → Prop} (hI : ∀ s c, I s → P c → I (S.set s c).2) {s : σ}
    (hs : I s) {cs : List (κ × β)} (hcs : ∀ c ∈ cs, P c) : I (S.run s cs) := by
  induction cs generalizing s with
  | nil => exact hs
  | cons c cs ih =>
    exact ih (hI s c hs (hcs c List.mem_cons_self)) fun d hd => hcs d (List.mem_cons_of_mem _ hd)

variable [DecidableEq κ]

/-- The changes of `cs` that are accepted, the last one first. -/
def accepted : σ → List (κ × β) → List (κ × β)
  | _, [] => []
  | s, c :: cs => accepted (S.set s c).2 cs ++ if (S.set s c).1 then [c] else []

/-- What the setting `k` has last been given, or else has. -/
def last (s : σ) (cs : List (κ × β)) (k : κ) : β :=
  ((S.accepted s cs).lookup k).getD (S.get s k)

/-- In the state `s`, the change `c` is right for the setting `k`. -/
def Holds (s : σ) (c : κ × β) (k : κ) : Prop :=
  S.get (S.set s c).2 k = if (S.set s c).1 ∧ k = c.1 then c.2 else S.get s k

variable {S}

theorem lookup_append_one (cs : List (κ × β)) (c : κ × β) (k : κ) :
    (cs ++ [c]).lookup k = (cs.lookup k).or (if k = c.1 then some c.2 else none) := by
  obtain ⟨k', v⟩ := c
  rw [List.lookup_append]
  congr 1
  by_cases hk : k = k'
  · rw [hk, List.lookup_cons_self, if_pos rfl]
  · rw [List.lookup_cons, beq_eq_false_iff_ne.2 hk, if_neg hk]
    rfl

/-- The store holds a setting when every change that it is told is right for it. -/
theorem get_run {I : σ → Prop} {k : κ} {P : κ × β → Prop} (hI : ∀ s c, I s → P c → I (S.set s c).2)
    (hk : ∀ s c, I s → P c → S.Holds s c k) {s : σ} (hs : I s) {cs : List (κ × β)}
    (hcs : ∀ c ∈ cs, P c) : S.get (S.run s cs) k = S.last s cs k := by
  induction cs generalizing s with
  | nil => rfl
  | cons c cs ih =>
    have hc := hcs c List.mem_cons_self
    rw [run, ih (hI s c hs hc) fun d hd => hcs d (List.mem_cons_of_mem _ hd), last, last, accepted,
      hk s c hs hc]
    cases haccepted : (S.set s c).1 with
    | false => simp
    | true =>
      rw [if_pos rfl, lookup_append_one]
      by_cases hkc : k = c.1 <;> cases List.lookup k (S.accepted (S.set s c).2 cs) <;> simp [hkc]

end Settings
