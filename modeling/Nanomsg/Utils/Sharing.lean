import Mathlib.Algebra.Order.BigOperators.Group.Finset
import Nanomsg.Lib.Lock
import Nanomsg.Lib.Potential
import Nanomsg.Utils.Chunk

/-!
# Chunks shared by threads

A chunk may be referred to by any number of threads. They make references
(`nn_chunk_addref`, which is declared only, counts with `nn_atomic_inc`), hand them over to one another
with the message, and give them up (`nn_chunk_free`, which counts with `nn_atomic_dec`). The counter of
`atomic.c` is of one of two kinds: there is an instruction that adds to it, or it is read and written with
a mutex locked.

Each statement is a step, and threads take them in any order. `refs`, which is not part of the
source, says how many references a thread has. `sharing_correct`: the counter is right whatever the order, the
chunk is freed once, when the last reference is given up, and neither it nor its mutex is used
after that.
-/

namespace Nanomsg

open Finset Function Locking Transition

variable {τ : Type}

/-- `NN_ATOMIC_MUTEX`, or one of the others. -/
inductive AtomicKind
  | builtin
  | mutex
  deriving DecidableEq

/-- `nn_chunk_addref` and `nn_chunk_free`. -/
inductive SharedCall
  | addref (n : UInt32)
  | free
  deriving DecidableEq

/-- What `nn_atomic_inc(_, n)` and `nn_atomic_dec(_, 1)` make of the counter. -/
def SharedCall.count : SharedCall → UInt32 → UInt32
  | addref n, v => v + n
  | free, v => v - 1

/-- Where a thread is. -/
inductive SharedSpot
  | out
  /-- About to call `nn_chunk_getptr`. -/
  | entered (c : SharedCall)
  /-- About to count. -/
  | begun (c : SharedCall)
  /-- With the mutex locked, about to read the counter. -/
  | locked (c : SharedCall)
  /-- It has read `res`, and is about to write. -/
  | loaded (c : SharedCall) (res : UInt32)
  /-- About to unlock the mutex. -/
  | stored (c : SharedCall) (res : UInt32)
  /-- `nn_atomic_dec` has returned `res`. -/
  | returned (res : UInt32)
  /-- In `nn_chunk_free`, about to write the tag, to call `nn_atomic_term` and `ffn`. -/
  | marking
  | terming
  | freeing
  deriving DecidableEq

namespace SharedSpot

/-- The thread has locked the mutex. -/
def holds : SharedSpot → Bool
  | locked _ | loaded _ _ | stored _ _ => true
  | out | entered _ | begun _ | returned _ | marking | terming | freeing => false

/-- What the counter includes besides the references that the thread has: the one it gives up, until that
    is written, and those it makes, from then on. -/
def owed : SharedSpot → ℕ
  | entered .free | begun .free | locked .free | loaded .free _ => 1
  | stored (.addref n) _ => n.toNat
  | entered (.addref _) | begun (.addref _) | locked (.addref _) | loaded (.addref _) _
  | stored .free _ | out | returned _ | marking | terming | freeing => 0

/-- What the counter is to include at most. -/
def claims : SharedSpot → ℕ
  | entered .free | begun .free | locked .free | loaded .free _ => 1
  | entered (.addref n) | begun (.addref n) | locked (.addref n) | loaded (.addref n) _
  | stored (.addref n) _ => n.toNat
  | stored .free _ | out | returned _ | marking | terming | freeing => 0

theorem owed_le_claims (p : SharedSpot) : p.owed ≤ p.claims := by
  rcases p with _ | c | c | c | ⟨c, res⟩ | ⟨c, res⟩ | res | _ | _ | _
  case entered | begun | locked | loaded | stored =>
    cases c <;> first | exact Nat.zero_le _ | exact Nat.le_refl _
  all_goals exact Nat.le_refl _

/-- The thread makes references. -/
def copies : SharedSpot → Bool
  | entered (.addref _) | begun (.addref _) | locked (.addref _) | loaded (.addref _) _
  | stored (.addref _) _ => true
  | entered .free | begun .free | locked .free | loaded .free _ | stored .free _
  | out | returned _ | marking | terming | freeing => false

/-- The thread has given up the last reference. -/
def last : SharedSpot → Bool
  | stored .free res | returned res => res ≤ 1
  | marking | terming | freeing => true
  | out | entered _ | begun _ | locked _ | loaded _ _ | stored (.addref _) _ => false

/-- The thread does nothing with the chunk any more. -/
def quiet : SharedSpot → Bool
  | out => true
  | returned res => 1 < res
  | entered _ | begun _ | locked _ | loaded _ _ | stored _ _ | marking | terming | freeing => false

end SharedSpot

/-- A chunk that threads refer to. -/
structure SharedChunk (τ : Type) where
  /-- `refcount`. -/
  n : UInt32
  sync : Option τ
  /-- The tag before the bytes. -/
  tag : UInt32
  /-- How often it has been given to `ffn`. -/
  freed : ℕ
  refs : τ → ℕ
  spot : τ → SharedSpot

/-- What the threads do. -/
inductive SharedAction (τ : Type)
  | call (t : τ) (c : SharedCall)
  | step (t : τ)
  /-- The thread `t` hands a reference over to `u`. -/
  | give (t u : τ)

namespace SharedChunk

variable [DecidableEq τ]

/-- The thread `t` has allocated the chunk. -/
def init (t : τ) : SharedChunk τ := ⟨1, none, chunkTag, 0, update (fun _ => 0) t 1, fun _ => .out⟩

variable (s : SharedChunk τ)

/-- The thread `t` goes to `p`. -/
def goto (t : τ) (p : SharedSpot) : SharedChunk τ := { s with spot := update s.spot t p }

@[simp] theorem goto_spot (t : τ) (p : SharedSpot) : (s.goto t p).spot = update s.spot t p := rfl

/-- The chunk has not been freed. -/
def live : Except Fault Unit := if s.freed = 0 then .ok () else .error .useAfterFree

/-- `nn_atomic_inc` or `nn_atomic_dec` returns `res`. -/
def returns (t : τ) (res : UInt32) : SharedCall → SharedChunk τ
  | .addref n => { s with refs := update s.refs t (s.refs t + n.toNat) }.goto t .out
  | .free => s.goto t (.returned res)

/-- A thread goes on. -/
def advance (kind : AtomicKind) (t : τ) : Except Fault (SharedChunk τ) :=
  match s.spot t with
  | .out => .ok s
  | .entered c => do
    s.live
    nnAssert (s.tag = chunkTag)
    pure (s.goto t (.begun c))
  | .begun c => do
    s.live
    match kind with
    | .builtin => pure ({ s with n := c.count s.n }.returns t s.n c)
    | .mutex => pure ({ s with sync := some t }.goto t (.locked c))
  | .locked c => do
    s.live
    pure (s.goto t (.loaded c s.n))
  | .loaded c res => do
    s.live
    pure ({ s with n := c.count s.n }.goto t (.stored c res))
  | .stored c res => do
    s.live
    nnAssert (s.sync = some t)
    pure ({ s with sync := none }.returns t res c)
  | .returned res => .ok (s.goto t (if res ≤ 1 then .marking else .out))
  | .marking => do
    s.live
    pure ({ s with tag := chunkTagDeallocated }.goto t .terming)
  | .terming => do
    s.live
    -- A mutex is destroyed that nobody has locked.
    nnAssert (s.sync = none)
    pure (s.goto t .freeing)
  | .freeing => do
    s.live
    pure ({ s with freed := s.freed + 1 }.goto t .out)

def exec (kind : AtomicKind) : SharedAction τ → Except Fault (SharedChunk τ)
  | .call t (.addref n) => .ok (s.goto t (.entered (.addref n)))
  | .call t .free => .ok ({ s with refs := update s.refs t (s.refs t - 1) }.goto t (.entered .free))
  | .step t => s.advance kind t
  | .give t u =>
    let refs := update s.refs t (s.refs t - 1)
    .ok { s with refs := update refs u (refs u + 1) }

variable [Fintype τ]

/-- How many references there are, and are to be. -/
def claimed : ℕ := ∑ t, (s.refs t + (s.spot t).claims)

/-- A thread has the reference that it copies, hands over or gives up, and no more than 2 ^ 32
    are made. A mutex is locked when it is free. -/
def enabled : SharedAction τ → Prop
  | .call t (.addref n) => s.spot t = .out ∧ 0 < s.refs t ∧ s.claimed + n.toNat < 2 ^ 32
  | .call t .free => s.spot t = .out ∧ 0 < s.refs t
  | .step t =>
    match s.spot t with
    | .out => False
    | .begun _ => s.sync = none
    | .entered _ | .locked _ | .loaded _ _ | .stored _ _ | .returned _ | .marking | .terming
    | .freeing => True
  | .give t u => s.spot t = .out ∧ 0 < s.refs t ∧ t ≠ u

/-- The threads that refer to a chunk. -/
def system (kind : AtomicKind) : System (SharedChunk τ) (SharedAction τ) Fault where
  init s := ∃ t, s = init t
  enabled s a := s.enabled a
  exec s a := s.exec kind a

/-! ## What is right -/

/-- What the counter is to include. -/
def counted : ℕ := ∑ t, (s.refs t + (s.spot t).owed)

/-- The counter is right. The chunk is as it should be while there is a reference, and has been freed once
    when there is none and no thread is in a call. -/
structure Right (s : SharedChunk τ) : Prop where
  counts : s.n.toNat = s.counted
  live : ∀ t, 0 < s.refs t → s.freed = 0 ∧ s.tag = chunkTag
  once : s.freed ≤ 1
  freed : (∀ t, s.spot t = .out) → (s.freed = 1 ↔ ∀ t, s.refs t = 0)

/-- Where the chunk is: referred to, with the thread `t` that has given up the last reference, or
    freed. -/
inductive Stage (s : SharedChunk τ) : Prop
  | shared : 0 < s.n.toNat → s.freed = 0 → s.tag = chunkTag → (∀ t, (s.spot t).last = false) → Stage s
  | last (t : τ) : s.n.toNat = 0 → s.freed = 0 → (s.spot t).last = true →
      (∀ u, u ≠ t → (s.spot u).quiet = true) → Stage s
  | gone : s.n.toNat = 0 → s.freed = 1 → (∀ u, (s.spot u).quiet = true) → Stage s

/-- What every step keeps. -/
structure Inv (kind : AtomicKind) (s : SharedChunk τ) : Prop where
  owned : Owned SharedSpot.holds s.sync s.spot
  builtin : kind = .builtin → s.sync = none
  counts : s.n.toNat = s.counted
  bound : s.claimed < 2 ^ 32
  copies : ∀ t, (s.spot t).copies = true → 0 < s.refs t
  loaded : ∀ t c res, s.spot t = .loaded c res → res = s.n
  stage : Stage s

variable {s s' : SharedChunk τ} {kind : AtomicKind} {t : τ} {p : SharedSpot} {r : ℕ}

/-! ### Sums -/

theorem counted_move (hs : s'.spot = update s.spot t p) (hr : s'.refs = update s.refs t r) :
    s'.counted + (s.refs t + (s.spot t).owed) = s.counted + (r + p.owed) := by
  have h := sum_add_eq (t := t) (f := fun u => s.refs u + (s.spot u).owed)
    (g := fun u => s'.refs u + (s'.spot u).owed) fun u hu => by
      rw [hs, hr, update_of_ne hu, update_of_ne hu]
  rw [counted, counted]
  simpa only [hs, hr, update_self] using h

theorem claimed_move (hs : s'.spot = update s.spot t p) (hr : s'.refs = update s.refs t r) :
    s'.claimed + (s.refs t + (s.spot t).claims) = s.claimed + (r + p.claims) := by
  have h := sum_add_eq (t := t) (f := fun u => s.refs u + (s.spot u).claims)
    (g := fun u => s'.refs u + (s'.spot u).claims) fun u hu => by
      rw [hs, hr, update_of_ne hu, update_of_ne hu]
  rw [claimed, claimed]
  simpa only [hs, hr, update_self] using h

/-- There are to be fewer references, or not many more. -/
theorem claimed_lt (hs : s'.spot = update s.spot t p) (hr : s'.refs = update s.refs t r)
    (h : s.claimed + (r + p.claims) < 2 ^ 32 + (s.refs t + (s.spot t).claims)) :
    s'.claimed < 2 ^ 32 := by
  have := claimed_move hs hr
  omega

omit [DecidableEq τ] in
theorem le_counted (s : SharedChunk τ) (t : τ) : s.refs t + (s.spot t).owed ≤ s.counted :=
  single_le_sum (f := fun u => s.refs u + (s.spot u).owed) (fun _ _ => Nat.zero_le _) (mem_univ t)

omit [DecidableEq τ] in
theorem counted_le_claimed (s : SharedChunk τ) : s.counted ≤ s.claimed := by
  exact sum_le_sum fun t _ => Nat.add_le_add_left (s.spot t).owed_le_claims _

/-- There is room for the references that a thread makes. -/
theorem Inv.add_lt (h : Inv kind s) {n : UInt32} (hp : (s.spot t).owed = 0)
    (hc : (s.spot t).claims = n.toNat) : s.n.toNat + n.toNat < 2 ^ 32 := by
  obtain ⟨s', hs'⟩ : ∃ s', s' = s.goto t (.stored (.addref n) 0) := ⟨_, rfl⟩
  have hs : s'.spot = update s.spot t (.stored (.addref n) 0) := by rw [hs']; rfl
  have hr : s'.refs = update s.refs t (s.refs t) := by rw [hs', update_eq_self]; rfl
  have h₁ := counted_move hs hr
  have h₂ := claimed_move hs hr
  have h₃ := counted_le_claimed s'
  have h₄ := h.bound
  rw [h.counts]
  rw [hp, show SharedSpot.owed (.stored (.addref n) 0) = n.toNat from rfl] at h₁
  rw [hc, show SharedSpot.claims (.stored (.addref n) 0) = n.toNat from rfl] at h₂
  omega

/-! ### Stages -/

omit [DecidableEq τ] [Fintype τ] in
/-- A thread that is in a call, and has not given up the last reference, finds the chunk as it should be. -/
theorem Stage.of_busy (h : Stage s) (hq : (s.spot t).quiet = false) (hl : (s.spot t).last = false) :
    0 < s.n.toNat ∧ s.freed = 0 ∧ s.tag = chunkTag ∧ ∀ u, (s.spot u).last = false := by
  cases h with
  | shared hn hf ht hlast => exact ⟨hn, hf, ht, hlast⟩
  | last u _ _ hu hquiet =>
    have hne : t ≠ u := by
      rintro rfl
      rw [hl] at hu
      cases hu
    rw [hquiet t hne] at hq
    cases hq
  | gone _ _ hquiet =>
    rw [hquiet t] at hq
    cases hq

omit [DecidableEq τ] [Fintype τ] in
theorem not_quiet_of_last (hl : p.last = true) : p.quiet = false := by
  unfold SharedSpot.last at hl
  split at hl
  · rfl
  · next res =>
    have hle : res ≤ 1 := by simpa using hl
    simpa [SharedSpot.quiet] using hle
  all_goals first | rfl | cases hl

omit [DecidableEq τ] [Fintype τ] in
theorem not_holds_of_quiet (hq : p.quiet = true) : p.holds = false := by
  cases p <;> first | rfl | cases hq

omit [DecidableEq τ] [Fintype τ] in
/-- One that has is the only one in a call. -/
theorem Stage.of_last (h : Stage s) (hl : (s.spot t).last = true) :
    s.n.toNat = 0 ∧ s.freed = 0 ∧ ∀ u, u ≠ t → (s.spot u).quiet = true := by
  have hq := not_quiet_of_last hl
  cases h with
  | shared _ _ _ hlast =>
    rw [hlast t] at hl
    cases hl
  | last u hn hf _ hquiet =>
    by_cases hu : t = u
    · subst hu
      exact ⟨hn, hf, hquiet⟩
    · rw [hquiet t hu] at hq
      cases hq
  | gone _ _ hquiet =>
    rw [hquiet t] at hq
    cases hq

omit [Fintype τ] in
/-- The chunk is still as it should be when a thread goes on. -/
theorem stage_shared (hs : s'.spot = update s.spot t p) (hn : 0 < s'.n.toNat) (hf : s'.freed = 0)
    (ht : s'.tag = chunkTag) (hl : ∀ u, (s.spot u).last = false) (hp : p.last = false) : Stage s' := by
  refine .shared hn hf ht fun u => ?_
  rw [hs]
  by_cases hu : u = t
  · rw [hu, update_self, hp]
  · rw [update_of_ne hu, hl u]

omit [Fintype τ] in
/-- A thread has given up the last reference. -/
theorem stage_last (hs : s'.spot = update s.spot t p) (hn : s'.n.toNat = 0) (hf : s'.freed = 0)
    (hp : p.last = true) (hq : ∀ u, u ≠ t → (s.spot u).quiet = true) : Stage s' := by
  refine .last t hn hf (by rw [hs, update_self, hp]) fun u hu => ?_
  rw [hs, update_of_ne hu, hq u hu]

/-- A thread without a reference that does not count is quiet. -/
theorem quiet_of_nothing (ho : p.owed = 0) (hc : p.copies = false) (hh : p.holds = false)
    (hl : p.last = false) : p.quiet = true := by
  cases p with
  | out => rfl
  | entered c | begun c =>
    cases c with
    | addref n => cases hc
    | free => cases ho
  | locked c | loaded c res | stored c res => cases hh
  | returned res => simpa [SharedSpot.last, SharedSpot.quiet] using hl
  | marking | terming | freeing => cases hl

/-! ### Steps -/

/-- The thread `t` has gone to `p`, and has `r` references. -/
theorem Inv.to (h : Inv kind s) (hs : s'.spot = update s.spot t p) (hr : s'.refs = update s.refs t r)
    (howned : Owned SharedSpot.holds s'.sync s'.spot) (hb : kind = .builtin → s'.sync = none)
    (hcounts : s'.n.toNat + (s.refs t + (s.spot t).owed) = s.n.toNat + (r + p.owed))
    (hbound : s'.claimed < 2 ^ 32) (hcopies : p.copies = true → 0 < r)
    (hloaded : ∀ c res, p = .loaded c res → res = s'.n)
    (hn : s'.n = s.n ∨ ∀ u, u ≠ t → (s.spot u).holds = false) (hstage : Stage s') : Inv kind s' where
  owned := howned
  builtin := hb
  counts := by
    have := counted_move hs hr
    have := h.counts
    omega
  bound := hbound
  copies u hu := by
    rw [hs] at hu
    rw [hr]
    by_cases he : u = t
    · subst he
      rw [update_self] at hu ⊢
      exact hcopies hu
    · rw [update_of_ne he] at hu ⊢
      exact h.copies u hu
  loaded u c res hu := by
    rw [hs] at hu
    by_cases he : u = t
    · subst he
      rw [update_self] at hu
      exact hloaded c res hu
    · rw [update_of_ne he] at hu
      obtain hn | hn := hn
      · rw [hn]
        exact h.loaded u c res hu
      · have := hn u he
        rw [hu] at this
        cases this
  stage := hstage

/-- A thread goes on without counting, and the chunk stays as it is. -/
theorem Inv.next (h : Inv kind s) (hs : s'.spot = update s.spot t p) (hr : s'.refs = s.refs)
    (hn : s'.n = s.n) (howned : Owned SharedSpot.holds s'.sync s'.spot)
    (hb : kind = .builtin → s'.sync = none) (ho : p.owed = (s.spot t).owed)
    (hc : p.claims ≤ (s.spot t).claims) (hcopies : p.copies = true → (s.spot t).copies = true)
    (hloaded : ∀ c res, p = .loaded c res → res = s'.n) (hstage : Stage s') : Inv kind s' := by
  have hr' : s'.refs = update s.refs t (s.refs t) := by rw [hr, update_eq_self]
  refine h.to hs hr' howned hb (by rw [hn, ho]) ?_ (fun hp => h.copies t (hcopies hp)) hloaded (.inl hn)
    hstage
  have := h.bound
  exact claimed_lt hs hr' (by omega)

omit [DecidableEq τ] in
/-- Nobody else has locked the mutex, if it is free or locked by the thread. -/
theorem Inv.others (h : Inv kind s) (ht : s.sync = none ∨ s.sync = some t) (u : τ) (hu : u ≠ t) :
    (s.spot u).holds = false := by
  rw [← Bool.not_eq_true, ← h.owned u]
  obtain ht | ht := ht
  · rw [ht]
    exact nofun
  · rw [ht]
    exact fun he => hu (Option.some.inj he).symm

/-- The counter is written, and `n` references are made. -/
theorem Inv.addref (h : Inv kind s) {n : UInt32} {m : UInt32}
    (ht : s.spot t = .begun (.addref n) ∨ s.spot t = .loaded (.addref n) m)
    (hfree : s.sync = none ∨ s.sync = some t) (hs : s'.spot = update s.spot t p)
    (hr : s'.refs = update s.refs t r) (hn : s'.n = s.n + n) (hsame : s'.sync = s.sync ∧
      s'.freed = s.freed ∧ s'.tag = s.tag) (hh : p.holds = (s.spot t).holds)
    (hsum : r + p.owed = s.refs t + n.toNat) (hpc : p.claims = p.owed) (hle : s.refs t ≤ r)
    (hpl : p.last = false) (hloaded : ∀ c res, p ≠ .loaded c res) : Inv kind s' := by
  obtain ⟨howed, hclaims, hcopies, hq, hl⟩ : (s.spot t).owed = 0 ∧ (s.spot t).claims = n.toNat ∧
      (s.spot t).copies = true ∧ (s.spot t).quiet = false ∧ (s.spot t).last = false := by
    obtain ht | ht := ht <;> rw [ht] <;> exact ⟨rfl, rfl, rfl, rfl, rfl⟩
  obtain ⟨hsync, hfr, htag⟩ := hsame
  obtain ⟨hpos, hfreed, htg, hlast⟩ := h.stage.of_busy hq hl
  have hbound := h.bound
  have hclaimed := claimed_move hs hr
  have hlt := h.add_lt howed hclaims
  have hn' : s'.n.toNat = s.n.toNat + n.toNat := by
    rw [hn, UInt32.toNat_add, Nat.mod_eq_of_lt hlt]
  refine h.to hs hr (by rw [hs, hsync]; exact h.owned.move hh) (fun hb => hsync.trans (h.builtin hb))
    (by omega) (by omega) (fun _ => Nat.lt_of_lt_of_le (h.copies t hcopies) hle)
    (fun c res hp => absurd hp (hloaded c res)) (.inr (h.others hfree)) ?_
  exact stage_shared hs (by omega) (hfr.trans hfreed) (htag.trans htg) hlast hpl

/-- The counter is written, and a reference is given up. -/
theorem Inv.free (h : Inv kind s) {m : UInt32}
    (ht : s.spot t = .begun .free ∨ s.spot t = .loaded .free m)
    (hfree : s.sync = none ∨ s.sync = some t) (hs : s'.spot = update s.spot t p)
    (hr : s'.refs = s.refs) (hn : s'.n = s.n - 1) (hsame : s'.sync = s.sync ∧
      s'.freed = s.freed ∧ s'.tag = s.tag) (hh : p.holds = (s.spot t).holds) (hpo : p.owed = 0)
    (hpc : p.claims = 0) (hcopies : p.copies = false) (hpl : p.last = decide (s.n ≤ 1))
    (hloaded : ∀ c res, p ≠ .loaded c res) : Inv kind s' := by
  obtain ⟨howed, hclaims, hq, hl⟩ : (s.spot t).owed = 1 ∧ (s.spot t).claims = 1 ∧
      (s.spot t).quiet = false ∧ (s.spot t).last = false := by
    obtain ht | ht := ht <;> rw [ht] <;> exact ⟨rfl, rfl, rfl, rfl⟩
  obtain ⟨hsync, hfr, htag⟩ := hsame
  obtain ⟨hpos, hfreed, htg, hlast⟩ := h.stage.of_busy hq hl
  have hr' : s'.refs = update s.refs t (s.refs t) := by rw [hr, update_eq_self]
  have hbound := h.bound
  have hclaimed := claimed_move hs hr'
  have hcounted := counted_move hs hr'
  have hcounts := h.counts
  have hn' : s'.n.toNat + 1 = s.n.toNat := by
    rw [hn, UInt32.toNat_sub_of_le _ _ (UInt32.le_iff_toNat_le.2 (show (1 : UInt32).toNat ≤ _ from hpos))]
    exact Nat.sub_add_cancel hpos
  have hinv : Stage s' → Inv kind s' := h.to hs hr' (by rw [hs, hsync]; exact h.owned.move hh)
    (fun hb => hsync.trans (h.builtin hb)) (by omega) (by omega)
    (fun hc => absurd hc (by simp [hcopies])) (fun c res hp => absurd hp (hloaded c res))
    (.inr (h.others hfree))
  by_cases hone : s.n ≤ 1
  · -- It was the last one, and no thread is left that has another or is counting.
    have hone' : s.n.toNat ≤ 1 := UInt32.le_iff_toNat_le.1 hone
    refine hinv (stage_last hs (by omega) (hfr.trans hfreed) (by rw [hpl, decide_eq_true hone])
      fun u hu => ?_)
    have hle := le_counted s' u
    rw [hs, update_of_ne hu, hr] at hle
    refine quiet_of_nothing (by omega) ?_ (h.others hfree u hu) (hlast u)
    by_contra hcp
    have := h.copies u (by simpa using hcp)
    omega
  · have hone' : ¬ s.n.toNat ≤ 1 := fun hle => hone (UInt32.le_iff_toNat_le.2 hle)
    refine hinv (stage_shared hs (by omega) (hfr.trans hfreed) (htag.trans htg) hlast ?_)
    rw [hpl, decide_eq_false hone]

omit [DecidableEq τ] [Fintype τ] in
theorem live_ok (hf : s.freed = 0) : s.live = .ok () := if_pos hf

/-- An instruction writes the counter. -/
theorem inv_begun (h : Inv kind s) {c : SharedCall} (hp : s.spot t = .begun c) (hf : s.sync = none) :
    ∃ s', s.advance kind t = .ok s' ∧ Inv kind s' := by
  have hq : (s.spot t).quiet = false := by rw [hp]; rfl
  have hl : (s.spot t).last = false := by rw [hp]; rfl
  obtain ⟨hpos, hfreed, ht, hlast⟩ := h.stage.of_busy hq hl
  have hx := live_ok hfreed
  cases kind with
  | mutex =>
    refine ⟨{ s with sync := some t }.goto t (.locked c), by simp [advance, hp, hx], ?_⟩
    have howned := h.owned
    rw [hf] at howned
    refine h.next (p := .locked c) rfl rfl rfl (howned.lock rfl) nofun ?_ ?_ ?_ nofun ?_
    · rw [hp]
      cases c <;> rfl
    · rw [hp]
      cases c <;> exact Nat.le_refl _
    · rw [hp]
      cases c <;> exact fun hc => hc
    · exact stage_shared rfl hpos hfreed ht hlast rfl
  | builtin =>
    refine ⟨{ s with n := c.count s.n }.returns t s.n c, by simp [advance, hp, hx], ?_⟩
    cases c with
    | addref n =>
      exact h.addref (p := .out) (m := 0) (.inl hp) (.inl hf) rfl rfl rfl ⟨rfl, rfl, rfl⟩ (by rw [hp]; rfl)
        rfl rfl (Nat.le_add_right _ _) rfl nofun
    | free =>
      exact h.free (p := .returned s.n) (m := 0) (.inl hp) (.inl hf) rfl rfl rfl ⟨rfl, rfl, rfl⟩
        (by rw [hp]; rfl) rfl rfl rfl rfl nofun

/-- The counter is written with the mutex locked. -/
theorem inv_loaded (h : Inv kind s) {c : SharedCall} {res : UInt32} (hp : s.spot t = .loaded c res) :
    ∃ s', s.advance kind t = .ok s' ∧ Inv kind s' := by
  have hq : (s.spot t).quiet = false := by rw [hp]; rfl
  have hl : (s.spot t).last = false := by rw [hp]; rfl
  obtain ⟨hpos, hfreed, ht, hlast⟩ := h.stage.of_busy hq hl
  obtain rfl := h.loaded t c res hp
  have hown : s.sync = some t := (h.owned t).2 (by rw [hp]; rfl)
  refine ⟨{ s with n := c.count s.n }.goto t (.stored c s.n), by simp [advance, hp, live_ok hfreed], ?_⟩
  cases c with
  | addref n =>
    exact h.addref (p := .stored (.addref n) s.n) (.inr hp) (.inr hown) rfl (update_eq_self ..).symm rfl
      ⟨rfl, rfl, rfl⟩ (by rw [hp]; rfl) rfl rfl (Nat.le_refl _) rfl nofun
  | free =>
    exact h.free (p := .stored .free s.n) (.inr hp) (.inr hown) rfl rfl rfl ⟨rfl, rfl, rfl⟩
      (by rw [hp]; rfl) rfl rfl rfl rfl nofun

/-- A thread is about to count, with the tag as it should be, or reads the counter. -/
theorem inv_getting (h : Inv kind s) {c : SharedCall}
    (hp : s.spot t = .entered c ∨ s.spot t = .locked c) :
    ∃ s', s.advance kind t = .ok s' ∧ Inv kind s' := by
  have hq : (s.spot t).quiet = false := by obtain hp | hp := hp <;> rw [hp] <;> rfl
  have hl : (s.spot t).last = false := by obtain hp | hp := hp <;> rw [hp] <;> rfl
  obtain ⟨hpos, hfreed, ht, hlast⟩ := h.stage.of_busy hq hl
  obtain hp | hp := hp
  · refine ⟨s.goto t (.begun c), by simp [advance, hp, live_ok hfreed, ht], ?_⟩
    refine h.next (p := .begun c) rfl rfl rfl (h.owned.move (by rw [hp]; rfl)) h.builtin ?_ ?_ ?_ nofun
      (stage_shared rfl hpos hfreed ht hlast rfl)
    all_goals
      rw [hp]
      cases c <;> first | rfl | exact Nat.le_refl _ | exact fun hc => hc
  · refine ⟨s.goto t (.loaded c s.n), by simp [advance, hp, live_ok hfreed], ?_⟩
    refine h.next (p := .loaded c s.n) rfl rfl rfl (h.owned.move (by rw [hp]; rfl)) h.builtin ?_ ?_ ?_
      (fun _ _ he => (SharedSpot.loaded.inj he).2 ▸ rfl) (stage_shared rfl hpos hfreed ht hlast rfl)
    all_goals
      rw [hp]
      cases c <;> first | rfl | exact Nat.le_refl _ | exact fun hc => hc

/-- The mutex is unlocked, and the references made are there. -/
theorem inv_stored_addref (h : Inv kind s) {n res : UInt32} (hp : s.spot t = .stored (.addref n) res) :
    ∃ s', s.advance kind t = .ok s' ∧ Inv kind s' := by
  obtain ⟨hpos, hfreed, ht, hlast⟩ := h.stage.of_busy (t := t) (by rw [hp]; rfl) (by rw [hp]; rfl)
  have hown : s.sync = some t := (h.owned t).2 (by rw [hp]; rfl)
  have howned := h.owned
  rw [hown] at howned
  refine ⟨{ s with sync := none }.returns t res (.addref n),
    by simp [advance, hp, live_ok hfreed, hown], ?_⟩
  refine h.to (p := .out) (r := s.refs t + n.toNat) rfl rfl (howned.unlock rfl) (fun _ => rfl) ?_ ?_ nofun
    nofun (.inl rfl) (stage_shared rfl hpos hfreed ht hlast rfl)
  · rw [hp]
    show _ = s.n.toNat + (_ + 0)
    simp only [SharedSpot.owed, Nat.add_zero]
    rfl
  · refine claimed_lt (s := s) (p := .out) (r := s.refs t + n.toNat) rfl rfl ?_
    have hb := h.bound
    rw [hp]
    simp only [SharedSpot.claims]
    omega

/-- The mutex is unlocked, and the reference given up is not there any more. -/
theorem inv_stored_free (h : Inv kind s) {res : UInt32} (hp : s.spot t = .stored .free res) :
    ∃ s', s.advance kind t = .ok s' ∧ Inv kind s' := by
  have hown : s.sync = some t := (h.owned t).2 (by rw [hp]; rfl)
  have howned := h.owned
  rw [hown] at howned
  have hs : Stage ({ s with sync := none }.returns t res .free) ∧ s.freed = 0 := by
    by_cases hl : (s.spot t).last = true
    · obtain ⟨hn, hf, hq⟩ := h.stage.of_last hl
      exact ⟨stage_last (p := .returned res) rfl hn hf (by rwa [hp] at hl) hq, hf⟩
    · rw [Bool.not_eq_true] at hl
      obtain ⟨hpos, hf, ht, hlast⟩ := h.stage.of_busy (t := t) (by rw [hp]; rfl) hl
      exact ⟨stage_shared (p := .returned res) rfl hpos hf ht hlast (by rwa [hp] at hl), hf⟩
  refine ⟨{ s with sync := none }.returns t res .free, by simp [advance, hp, live_ok hs.2, hown], ?_⟩
  exact h.next (p := .returned res) rfl rfl rfl (howned.unlock rfl) (fun _ => rfl) (by rw [hp]; rfl)
    (by rw [hp]; exact Nat.le_refl _) nofun nofun hs.1

/-- `nn_chunk_free` returns, or goes on with the chunk. -/
theorem inv_returned (h : Inv kind s) {res : UInt32} (hp : s.spot t = .returned res) :
    ∃ s', s.advance kind t = .ok s' ∧ Inv kind s' := by
  refine ⟨s.goto t (if res ≤ 1 then .marking else .out), by rw [advance, hp], ?_⟩
  by_cases hres : res ≤ 1
  · rw [if_pos hres]
    obtain ⟨hn, hf, hq⟩ := h.stage.of_last (t := t) (by rw [hp]; exact decide_eq_true hres)
    exact h.next (p := .marking) rfl rfl rfl (h.owned.move (by rw [hp]; rfl)) h.builtin (by rw [hp]; rfl)
      (by rw [hp]; exact Nat.le_refl _) nofun nofun (stage_last rfl hn hf rfl hq)
  · rw [if_neg hres]
    refine h.next (p := .out) rfl rfl rfl (h.owned.move (by rw [hp]; rfl)) h.builtin (by rw [hp]; rfl)
      (by rw [hp]; exact Nat.le_refl _) nofun nofun ?_
    have hquiet : ∀ u, (s.spot u).quiet = true → ((s.goto t .out).spot u).quiet = true := fun u hu => by
      by_cases he : u = t
      · rw [he, goto_spot, update_self]
        rfl
      · rwa [goto_spot, update_of_ne he]
    cases h.stage with
    | shared hn hf htag hlast => exact stage_shared rfl hn hf htag hlast rfl
    | last u hn hf hu hq =>
      have hne : u ≠ t := by
        rintro rfl
        rw [hp] at hu
        exact hres (by simpa [SharedSpot.last] using hu)
      exact .last u hn hf (by rwa [goto_spot, update_of_ne hne]) fun v hv => hquiet v (hq v hv)
    | gone hn hf hq => exact .gone hn hf fun v => hquiet v (hq v)

/-- The chunk is given back, with its mutex free. -/
theorem inv_last (h : Inv kind s) (hp : s.spot t = .marking ∨ s.spot t = .terming ∨ s.spot t = .freeing) :
    ∃ s', s.advance kind t = .ok s' ∧ Inv kind s' := by
  obtain ⟨hn, hf, hq⟩ := h.stage.of_last (t := t) (by obtain hp | hp | hp := hp <;> rw [hp] <;> rfl)
  have hholds : (s.spot t).holds = false := by obtain hp | hp | hp := hp <;> rw [hp] <;> rfl
  have howed : (s.spot t).owed = 0 := by obtain hp | hp | hp := hp <;> rw [hp] <;> rfl
  obtain hp | hp | hp := hp
  · refine ⟨{ s with tag := chunkTagDeallocated }.goto t .terming, by simp [advance, hp, live_ok hf], ?_⟩
    exact h.next (p := .terming) rfl rfl rfl (h.owned.move hholds.symm) h.builtin howed.symm
      (Nat.zero_le _) nofun nofun (stage_last rfl hn hf rfl hq)
  · have hfree : s.sync = none := by
      cases hu : s.sync with
      | none => rfl
      | some u =>
        have hu' := (h.owned u).1 hu
        by_cases he : u = t
        · rw [he, hholds] at hu'
          cases hu'
        · rw [not_holds_of_quiet (hq u he)] at hu'
          cases hu'
    refine ⟨s.goto t .freeing, by simp [advance, hp, live_ok hf, hfree], ?_⟩
    exact h.next (p := .freeing) rfl rfl rfl (h.owned.move hholds.symm) h.builtin howed.symm
      (Nat.zero_le _) nofun nofun (stage_last rfl hn hf rfl hq)
  · refine ⟨{ s with freed := s.freed + 1 }.goto t .out, by simp [advance, hp, live_ok hf], ?_⟩
    refine h.next (p := .out) rfl rfl rfl (h.owned.move hholds.symm) h.builtin howed.symm
      (Nat.zero_le _) nofun nofun (.gone hn (by rw [goto, hf]) fun u => ?_)
    by_cases he : u = t
    · rw [he, goto_spot, update_self]
      rfl
    · rw [goto_spot, update_of_ne he]
      exact hq u he

/-! ### Runs -/

omit [DecidableEq τ] in
/-- A thread with a reference finds the chunk as it should be. -/
theorem Inv.of_refs (h : Inv kind s) (hr : 0 < s.refs t) :
    0 < s.n.toNat ∧ s.freed = 0 ∧ s.tag = chunkTag ∧ ∀ u, (s.spot u).last = false := by
  have hle := le_counted s t
  have hc := h.counts
  cases h.stage with
  | shared hn hf ht hlast => exact ⟨hn, hf, ht, hlast⟩
  | last _ hn | gone hn => omega

theorem inv_call (h : Inv kind s) {c : SharedCall} (he : s.enabled (.call t c)) :
    ∃ s', s.exec kind (.call t c) = .ok s' ∧ Inv kind s' := by
  cases c with
  | addref n =>
    obtain ⟨hp, hr, hlt⟩ := he
    obtain ⟨hn, hf, ht, hlast⟩ := h.of_refs hr
    refine ⟨s.goto t (.entered (.addref n)), rfl, ?_⟩
    refine h.to (p := .entered (.addref n)) (r := s.refs t) rfl (update_eq_self ..).symm
      (h.owned.move (by rw [hp]; rfl)) h.builtin (by rw [hp]; rfl) ?_ (fun _ => hr) nofun (.inl rfl)
      (stage_shared rfl hn hf ht hlast rfl)
    refine claimed_lt (s := s) (p := .entered (.addref n)) (r := s.refs t) rfl (update_eq_self ..).symm ?_
    rw [hp]
    simp only [SharedSpot.claims]
    omega
  | free =>
    obtain ⟨hp, hr⟩ := he
    obtain ⟨hn, hf, ht, hlast⟩ := h.of_refs hr
    refine ⟨{ s with refs := update s.refs t (s.refs t - 1) }.goto t (.entered .free), rfl, ?_⟩
    refine h.to (p := .entered .free) (r := s.refs t - 1) rfl rfl
      (h.owned.move (by rw [hp]; rfl)) h.builtin ?_ ?_ nofun nofun (.inl rfl)
      (stage_shared rfl hn hf ht hlast rfl)
    · rw [hp]
      show s.n.toNat + (s.refs t + 0) = s.n.toNat + (s.refs t - 1 + 1)
      omega
    · refine claimed_lt (s := s) (p := .entered .free) (r := s.refs t - 1) rfl rfl ?_
      have hb := h.bound
      rw [hp]
      simp only [SharedSpot.claims]
      omega

/-- A reference is handed over. -/
theorem inv_give (h : Inv kind s) {u : τ} (he : s.enabled (.give t u)) :
    ∃ s', s.exec kind (.give t u) = .ok s' ∧ Inv kind s' := by
  obtain ⟨hp, hr, hne⟩ := he
  obtain ⟨hn, hf, ht, hlast⟩ := h.of_refs hr
  obtain ⟨s₁, hs₁⟩ : ∃ s₁, s₁ = { s with refs := update s.refs t (s.refs t - 1) } := ⟨_, rfl⟩
  obtain ⟨s₂, hs₂⟩ : ∃ s₂, s₂ = { s₁ with refs := update s₁.refs u (s₁.refs u + 1) } := ⟨_, rfl⟩
  have hspot₁ : s₁.spot = update s.spot t (s.spot t) := by rw [hs₁, update_eq_self]
  have hspot₂ : s₂.spot = update s₁.spot u (s₁.spot u) := by rw [hs₂, update_eq_self]
  have hrefs₁ : s₁.refs = update s.refs t (s.refs t - 1) := by rw [hs₁]
  have hrefs₂ : s₂.refs = update s₁.refs u (s₁.refs u + 1) := by rw [hs₂]
  have h₁ := counted_move hspot₁ hrefs₁
  have h₂ := counted_move hspot₂ hrefs₂
  have h₃ := claimed_move hspot₁ hrefs₁
  have h₄ := claimed_move hspot₂ hrefs₂
  have hc := h.counts
  have hb := h.bound
  have hsame : s₂.spot = s.spot := by rw [hs₂, hs₁]
  have hx : s.exec kind (.give t u) = .ok s₂ := by rw [exec, hs₂, hs₁]
  refine ⟨s₂, hx, ?_, ?_, ?_, by omega, fun v hv => ?_, fun v c res hv => ?_, ?_⟩
  · rw [hsame, hs₂, hs₁]
    exact h.owned
  · rw [hs₂, hs₁]
    exact h.builtin
  · rw [show s₂.n = s.n by rw [hs₂, hs₁]]
    omega
  · rw [hsame] at hv
    have hvt : v ≠ t := by
      rintro rfl
      rw [hp] at hv
      cases hv
    have hpos := h.copies v hv
    rw [hrefs₂, hrefs₁]
    by_cases hvu : v = u
    · rw [hvu, update_self]
      exact Nat.succ_pos _
    · rwa [update_of_ne hvu, update_of_ne hvt]
  · rw [hsame] at hv
    rw [show s₂.n = s.n by rw [hs₂, hs₁]]
    exact h.loaded v c res hv
  · refine .shared ?_ ?_ ?_ fun v => ?_
    · rw [hs₂, hs₁]
      exact hn
    · rw [hs₂, hs₁]
      exact hf
    · rw [hs₂, hs₁]
      exact ht
    · rw [hsame]
      exact hlast v

theorem inv_step (h : Inv kind s) {a : SharedAction τ} (he : s.enabled a) :
    ∃ s', s.exec kind a = .ok s' ∧ Inv kind s' := by
  cases a with
  | call t c => exact inv_call h he
  | give t u => exact inv_give h he
  | step t =>
    cases hp : s.spot t with
    | out =>
      simp only [enabled, hp] at he
    | entered c => exact inv_getting h (.inl hp)
    | begun c =>
      simp only [enabled, hp] at he
      exact inv_begun h hp he
    | locked c => exact inv_getting h (.inr hp)
    | loaded c res => exact inv_loaded h hp
    | stored c res =>
      cases c with
      | addref n => exact inv_stored_addref h hp
      | free => exact inv_stored_free h hp
    | returned res => exact inv_returned h hp
    | marking => exact inv_last h (.inl hp)
    | terming => exact inv_last h (.inr (.inl hp))
    | freeing => exact inv_last h (.inr (.inr hp))

/-- One thread has one reference. -/
theorem sum_init (t : τ) : ∑ u, (update (fun _ => 0) t 1 u + 0) = 1 := by
  have hrest : ∀ u ∈ univ, u ≠ t → update (fun _ => 0) t 1 u + 0 = 0 := fun u _ hu => by simp [hu]
  rw [sum_eq_single t hrest fun ht => absurd (mem_univ t) ht, update_self]

theorem inv_init (kind : AtomicKind) (t : τ) : Inv kind (init t) where
  owned u := by simp [init, SharedSpot.holds]
  builtin _ := rfl
  counts := (sum_init t).symm
  bound := by
    have hsum : (init t).claimed = 1 := sum_init t
    rw [hsum]
    decide
  copies u hu := by cases hu
  loaded u c res hu := by cases hu
  stage := .shared (by decide : 0 < (1 : UInt32).toNat) rfl rfl fun _ => rfl

omit [DecidableEq τ] in
theorem Inv.right (h : Inv kind s) : Right s where
  counts := h.counts
  live t hr := ⟨(h.of_refs hr).2.1, (h.of_refs hr).2.2.1⟩
  once := by
    cases h.stage with
    | shared _ hf | last _ _ hf => rw [hf]; exact Nat.zero_le 1
    | gone _ hf => exact hf.le
  freed hout := by
    have hsum : s.counted = ∑ t, s.refs t := sum_congr rfl fun t _ => by
      rw [hout t]
      rfl
    have hc := h.counts
    cases h.stage with
    | shared hn hf =>
      refine iff_of_false (by omega) fun hz => ?_
      rw [hsum, sum_eq_zero fun t _ => hz t] at hc
      omega
    | last t _ _ hl =>
      rw [hout t] at hl
      cases hl
    | gone hn hf =>
      refine iff_of_true hf fun t => ?_
      have := le_counted s t
      omega

/-- Whatever the threads do and in whatever order, and of whichever kind the counter is, nothing fails:
    neither the chunk nor its mutex is used after it has been freed, and it is freed when the last
    reference to it is given up, once. -/
theorem sharing_correct (kind : AtomicKind) (t : τ) (as : List (SharedAction τ)) :
    (system kind).Correct Right (fun _ _ _ => True) (init t) as := by
  refine System.correct_of_step (I := Inv kind) (fun _ h => h.right) (fun _ _ h he => ?_)
    (inv_init kind t) as
  obtain ⟨s', hx, h'⟩ := inv_step h he
  exact ⟨s', hx, trivial, h'⟩

end SharedChunk

end Nanomsg
