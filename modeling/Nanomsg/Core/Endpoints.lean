import Mathlib.Data.List.Find
import Mathlib.Data.List.Perm.Subperm
import Nanomsg.Core.EpLists
import Nanomsg.Lib.System

/-!
# The endpoints of a socket

What the two lists of a socket are for is a *registry* (`Registry`): which
endpoints are live, which have been asked to stop, and which are done.
`Matches s r` says that the socket `s` is as the registry `r` says.

* Every action but two kinds keeps the socket matching its registry
  (`EpWorld.Inv.step`): handling, while the socket is active, the
  `NN_EP_STOPPED` of an endpoint at one of the ends of `sdeps` (the handler
  erases it from `eps`), and counting past `INT_MAX`.
* These two never do (`EpWorld.Inv.condition_of_step`), so a run is right
  exactly if it has none of them (`EpWorld.endpoints_correct_iff`).
-/

namespace Nanomsg

open Intrusive Function Transition

/-! ## The registry -/

/-- What a socket knows of its endpoints. -/
structure Registry where
  /-- The endpoints not yet asked to stop, oldest first. -/
  live : List Ep
  /-- Those asked to stop whose `NN_EP_STOPPED` has not been handled. -/
  asked : List Ep
  /-- Those whose `NN_EP_STOPPED` has been handled. -/
  done : List Ep
  /-- The allocations whose `nn_ep_init` has failed. -/
  failed : List Ep
  /-- The id handed out for each endpoint. -/
  eidOf : Ep → ℤ
  /-- The ids handed out. -/
  handed : List ℤ
  allocs : ℕ
  stopAsked : Bool

namespace Registry

/-- A registry without endpoints. -/
def empty (eidOf : Ep → ℤ) : Registry := ⟨[], [], [], [], eidOf, [], 0, false⟩

variable (r : Registry)

/-- The live endpoint with the id `eid`. -/
def find (eid : ℤ) : Option Ep := r.live.find? fun x => r.eidOf x = eid

/-- What an action that returns `ret` does to the registry. -/
def step (ret : ℤ) : SockAction → Registry
  | .addEp memory _ rc =>
    if !memory then r
    else if rc < 0 then { r with failed := r.failed ++ [r.allocs], allocs := r.allocs + 1 }
    else
      { r with
        live := r.live ++ [r.allocs]
        eidOf := update r.eidOf r.allocs ret
        handed := r.handed ++ [ret]
        allocs := r.allocs + 1 }
  | .emEp eid =>
    match r.find eid with
    | none => r
    | some x => { r with live := r.live.erase x, asked := r.asked ++ [x] }
  | .epStopped x => { r with asked := r.asked.erase x, done := r.done ++ [x] }
  | .stop => { r with live := [], asked := r.asked ++ r.live, stopAsked := true }
  | _ => r

/-- The registry once the endpoint between `as` and `bs` is done. -/
theorem step_epStopped {r : Registry} {as bs : List Ep} {x : Ep} (hn : (as ++ x :: bs).Nodup)
    (hasked : r.asked = as ++ x :: bs) (ret : ℤ) :
    r.step ret (.epStopped x) =
      { r with asked := as ++ bs, done := r.done ++ [x] } := by
  have hxa : x ∉ as := fun hm => (List.nodup_append.1 hn).2.2 x hm x (by simp) rfl
  rw [Registry.step, hasked, List.erase_append_right _ hxa, List.erase_cons_head]

end Registry

/-- The socket `s` is as the registry `r` says. -/
structure Matches (s : Sock) (r : Registry) : Prop where
  lists : EpLists s.items s.eps s.sdeps r.live r.asked
  /-- An endpoint is terminated when its `NN_EP_STOPPED` is handled. -/
  termed : s.termed = r.done
  /-- An endpoint is freed then, and otherwise only if its init fails. -/
  freed : ∀ x, x ∈ s.freed ↔ x ∈ r.done ∨ x ∈ r.failed
  /-- No endpoint is freed twice. -/
  freed_nodup : s.freed.Nodup
  /-- No list keeps a freed endpoint. -/
  kept : ∀ x ∈ r.live ++ r.asked, x ∉ s.freed
  /-- The ids handed out are distinct. -/
  handed : r.handed.Nodup

/-! ## The system -/

/-- A socket, its registry, and what the last call returned. -/
structure EpWorld where
  sock : Sock
  registry : Registry
  ret : ℤ

namespace EpWorld

/-- A socket just opened. -/
def opened (items : Items Ep) (eidOf : Ep → ℤ) : EpWorld :=
  ⟨Sock.opened items eidOf, Registry.empty eidOf, 0⟩

/-- Endpoints are added (with an address that fits, as `nn_global_create_ep`
    checks) and removed, endpoints asked to stop stop, and finally the socket
    does. Nothing happens while the context is locked. -/
def enabled (w : EpWorld) (a : SockAction) : Prop :=
  w.sock.locked = false ∧
    match a with
    | .addEp _ addrLen _ => w.registry.stopAsked = false ∧ addrLen ≤ Sock.sockaddrMax
    | .emEp _ => True
    | .epStopped x => x ∈ w.sock.pending
    | .stop => w.registry.stopAsked = false
    | _ => False

/-- Taking an action. -/
def exec (t : SockType) (w : EpWorld) (a : SockAction) : Except Fault EpWorld := do
  let (s, ret) ← w.sock.exec t a
  pure ⟨s, w.registry.step ret a, ret⟩

/-- The endpoints of a socket. -/
def system (t : SockType) : System EpWorld SockAction Fault where
  init w := ∃ items eidOf, w = opened items eidOf
  enabled := enabled
  exec := exec t

/-- The socket is as its registry says. -/
def Right (w : EpWorld) : Prop := Matches w.sock w.registry

/-- `nn_sock_em_ep` fails exactly if no live endpoint has the id, and then
    leaves the lists as they are. -/
def RightStep (w : EpWorld) (a : SockAction) (w' : EpWorld) : Prop :=
  match a with
  | .emEp eid =>
    (w'.ret = -Errno.einval ↔ ∀ x ∈ w.registry.live, w.registry.eidOf x ≠ eid) ∧
      (w'.ret = -Errno.einval →
        w'.sock.items = w.sock.items ∧ w'.sock.eps = w.sock.eps ∧ w'.sock.sdeps = w.sock.sdeps)
  | _ => True

/-- The ids have not run out at an addition, and no endpoint stops at an end of
    `sdeps` while the socket is active. -/
def Condition (w : EpWorld) (a : SockAction) : Prop :=
  match a with
  | .addEp memory _ rc => memory = true → 0 ≤ rc → w.sock.eid < Sock.intMax
  | .epStopped x =>
    w.sock.state = .active → w.sock.sdeps.first ≠ .node x ∧ w.sock.sdeps.last ≠ .node x
  | _ => True

/-! ## The invariant -/

/-- Where the socket is in its life. -/
inductive Phase (s : Sock) (r : Registry) : Prop
  | active (fsm : s.fsm ≠ .stopping) (state : s.state = .active) (stop : r.stopAsked = false)
      (queued : s.stoppedQueued = false)
  | stoppingEps (fsm : s.fsm = .stopping) (state : s.state = .stoppingEps)
      (stop : r.stopAsked = true) (live : r.live = []) (asked : r.asked ≠ [])
      (queued : s.stoppedQueued = false)
  | stopped (fsm : s.fsm = .stopping) (state : s.state = .stopping ∨ s.state = .fini)
      (stop : r.stopAsked = true) (live : r.live = []) (asked : r.asked = [])

/-- Where a socket is in its life does not depend on its lists. -/
theorem Phase.congr {s s' : Sock} {r r' : Registry} (h : Phase s r) (hf : s'.fsm = s.fsm)
    (hs : s'.state = s.state) (hq : s'.stoppedQueued = s.stoppedQueued)
    (ha : r'.stopAsked = r.stopAsked) (hl : r'.live = r.live) (hd : r'.asked = r.asked) :
    Phase s' r' := by
  cases h with
  | active h₁ h₂ h₃ h₄ => exact .active (hf ▸ h₁) (hs ▸ h₂) (ha ▸ h₃) (hq ▸ h₄)
  | stoppingEps h₁ h₂ h₃ h₄ h₅ h₆ =>
    exact .stoppingEps (hf ▸ h₁) (hs ▸ h₂) (ha ▸ h₃) (hl ▸ h₄) (hd ▸ h₅) (hq ▸ h₆)
  | stopped h₁ h₂ h₃ h₄ h₅ =>
    exact .stopped (hf ▸ h₁) (hs ▸ h₂) (ha ▸ h₃) (hl ▸ h₄) (hd ▸ h₅)

theorem Phase.of_active {s : Sock} {r : Registry} (h : Phase s r) (ha : s.state = .active) :
    s.fsm ≠ .stopping ∧ r.stopAsked = false ∧ s.stoppedQueued = false := by
  cases h with
  | active hf _ hs hq => exact ⟨hf, hs, hq⟩
  | stoppingEps _ hst => simp [hst] at ha
  | stopped _ hst => rcases hst with hst | hst <;> simp [hst] at ha

/-- What every right run keeps. -/
structure Inv (w : EpWorld) : Prop where
  right : Right w
  phase : Phase w.sock w.registry
  pending : w.sock.pending = w.registry.asked
  allocs : w.registry.allocs = w.sock.allocs
  bound : ∀ x ∈ w.registry.live ++ w.registry.asked, x < w.sock.allocs
  freed_bound : ∀ x ∈ w.sock.freed, x < w.sock.allocs
  eidOf : ∀ x ∈ w.registry.live, w.sock.eidOf x = w.registry.eidOf x
  handed : ∀ i ∈ w.registry.handed, i < w.sock.eid

variable {t : SockType} {w : EpWorld}

theorem inv_opened (items : Items Ep) (eidOf : Ep → ℤ) : Inv (opened items eidOf) where
  right :=
    { lists := ⟨Lists.init items, Lists.init items, by simp [opened, Registry.empty]⟩
      termed := rfl
      freed := by simp [opened, Registry.empty, Sock.opened]
      freed_nodup := List.nodup_nil
      kept := by simp [opened, Registry.empty]
      handed := List.nodup_nil }
  phase := .active (by simp [opened, Sock.opened]) rfl rfl rfl
  pending := rfl
  allocs := rfl
  bound := by simp [opened, Registry.empty]
  freed_bound := by simp [opened, Sock.opened]
  eidOf := fun _ _ => rfl
  handed := by simp [opened, Registry.empty]

namespace Inv

/-- The loops over `eps` have enough steps. -/
theorem length_live (h : Inv w) : w.registry.live.length < w.sock.allocs + 1 := by
  have hs : w.registry.live ⊆ List.range w.sock.allocs := fun x hx =>
    List.mem_range.2 (h.bound x (List.mem_append_left _ hx))
  have := (List.subperm_of_subset h.right.lists.eps.nodup hs).length_le
  rw [List.length_range] at this
  exact Nat.lt_succ_of_le this

/-- A number not allocated yet is in no list. -/
theorem fresh (h : Inv w) : w.sock.allocs ∉ w.registry.live ++ w.registry.asked := fun hm =>
  Nat.lt_irrefl _ (h.bound _ hm)

theorem fresh_freed (h : Inv w) : w.sock.allocs ∉ w.sock.freed := fun hm =>
  Nat.lt_irrefl _ (h.freed_bound _ hm)

/-- The lists do not see the initialisation of a new endpoint. -/
theorem epInit (h : Inv w) :
    EpLists (w.sock.items.itemInit w.sock.allocs) w.sock.eps w.sock.sdeps w.registry.live
      w.registry.asked := by
  have hne : ∀ x ∈ w.registry.live ++ w.registry.asked, x ≠ w.sock.allocs := fun x hx he =>
    h.fresh (he ▸ hx)
  have hl := h.right.lists
  exact ⟨hl.eps.frame (fun x hx => update_of_ne (hne x (List.mem_append_left _ hx)) _ _)
      fun x hx => update_of_ne (hne x (List.mem_append_left _ hx)) _ _,
    hl.sdeps.frame (fun x hx => update_of_ne (hne x (List.mem_append_right _ hx)) _ _)
      fun x hx => update_of_ne (hne x (List.mem_append_right _ hx)) _ _,
    hl.disjoint⟩

/-- Before the socket is asked to stop it is active. -/
theorem active (h : Inv w) (hs : w.registry.stopAsked = false) :
    w.sock.fsm ≠ .stopping ∧ w.sock.state = .active ∧ w.sock.stoppedQueued = false := by
  cases h.phase with
  | active hf ha _ hq => exact ⟨hf, ha, hq⟩
  | stoppingEps _ _ hs' | stopped _ _ hs' => exact absurd (hs.symm.trans hs') (by simp)

/-! ### Adding an endpoint -/

/-- Without memory nothing happens but that the context stays locked. -/
theorem addEp_enomem (h : Inv w) (addrLen : ℕ) (rc : ℤ) :
    ∃ w', exec t w (.addEp false addrLen rc) = .ok w' ∧ Inv w' := by
  refine ⟨⟨w.sock.enter, w.registry, -Errno.enomem⟩, rfl, ?_⟩
  have hr := h.right
  exact ⟨⟨hr.lists, hr.termed, hr.freed, hr.freed_nodup, hr.kept, hr.handed⟩,
    h.phase.congr rfl rfl rfl rfl rfl rfl, h.pending, h.allocs, h.bound, h.freed_bound,
    h.eidOf, h.handed⟩

/-- An endpoint whose init fails is freed at once. -/
theorem addEp_error (h : Inv w) (hs : w.registry.stopAsked = false) {addrLen : ℕ}
    (hl : addrLen ≤ Sock.sockaddrMax) {rc : ℤ} (hrc : rc < 0) :
    ∃ w', exec t w (.addEp true addrLen rc) = .ok w' ∧ Inv w' := by
  obtain ⟨hf, ha, hq⟩ := h.active hs
  have hr := h.right
  refine ⟨⟨{ w.sock with
      locked := false, ctx := w.sock.ctx ++ [.enter] ++ [.leave], allocs := w.sock.allocs + 1
      items := w.sock.items.itemInit w.sock.allocs
      eidOf := update w.sock.eidOf w.sock.allocs w.sock.eid
      freed := w.sock.freed ++ [w.sock.allocs] },
    w.registry.step rc (.addEp true addrLen rc), rc⟩, ?_, ?_⟩
  · simp [exec, Sock.exec, Sock.addEp, Sock.epInit, hl, hrc, Sock.alloc, Sock.enter, Sock.leave,
      Sock.epFree]
  · have hreg : w.registry.step rc (.addEp true addrLen rc) =
        { w.registry with
          failed := w.registry.failed ++ [w.registry.allocs], allocs := w.registry.allocs + 1 } := by
      simp [Registry.step, hrc]
    rw [hreg]
    refine ⟨⟨h.epInit, hr.termed, fun x => ?_, ?_, fun x hx hm => ?_, hr.handed⟩,
      .active hf ha hs hq, h.pending, by simp [h.allocs],
      fun x hx => Nat.lt_succ_of_lt (h.bound x hx), fun x hx => ?_, fun x hx => ?_, h.handed⟩
    · simp only [List.mem_append, hr.freed, h.allocs]
      tauto
    · exact List.nodup_append.2 ⟨hr.freed_nodup, List.nodup_singleton _, fun x hx y hy he =>
        h.fresh_freed (List.mem_singleton.1 hy ▸ he ▸ hx)⟩
    · rcases List.mem_append.1 hm with hm | hm
      · exact hr.kept x hx hm
      · exact h.fresh (List.mem_singleton.1 hm ▸ hx)
    · rcases List.mem_append.1 hx with hx | hx
      · exact Nat.lt_succ_of_lt (h.freed_bound x hx)
      · exact List.mem_singleton.1 hx ▸ Nat.lt_succ_self _
    · have hne : x ≠ w.sock.allocs := fun he => h.fresh (he ▸ List.mem_append_left _ hx)
      exact (update_of_ne hne _ _).trans (h.eidOf x hx)

/-- A new endpoint is live, under the next id. -/
theorem addEp_ok (h : Inv w) (hs : w.registry.stopAsked = false) {addrLen : ℕ}
    (hl : addrLen ≤ Sock.sockaddrMax) {rc : ℤ} (hrc : 0 ≤ rc) (hi : w.sock.eid < Sock.intMax) :
    ∃ w', exec t w (.addEp true addrLen rc) = .ok w' ∧ Inv w' := by
  obtain ⟨hf, ha, hq⟩ := h.active hs
  have hr := h.right
  have hfresh := h.fresh
  rw [List.mem_append, not_or] at hfresh
  obtain ⟨items, eps, he, hw⟩ := Sock.insertEps_spec (x := w.sock.allocs)
    (s := { w.sock with
      locked := true, ctx := w.sock.ctx ++ [.enter], allocs := w.sock.allocs + 1
      items := w.sock.items.itemInit w.sock.allocs
      eidOf := update w.sock.eidOf w.sock.allocs w.sock.eid
      eid := w.sock.eid + 1 }) h.epInit
    (by simp [Items.itemInit, Items.itemIsinlist]) hfresh.1 hfresh.2
  refine ⟨⟨{ w.sock with
      locked := false, ctx := w.sock.ctx ++ [.enter] ++ [.leave], allocs := w.sock.allocs + 1
      items := items, eps := eps
      eidOf := update w.sock.eidOf w.sock.allocs w.sock.eid
      eid := w.sock.eid + 1 },
    w.registry.step w.sock.eid (.addEp true addrLen rc), w.sock.eid⟩, ?_, ?_⟩
  · simp only [exec, Sock.exec, Sock.addEp, Sock.epInit, hl, Sock.alloc, Sock.enter,
      decide_true, nnAssert_true, ok_bind, pure_eq_ok, not_lt.2 hrc, if_false, Sock.nextEid,
      if_pos hi, he, Bool.not_true, Bool.false_eq_true, Sock.leave]
  · have hreg : w.registry.step w.sock.eid (.addEp true addrLen rc) =
        { w.registry with
          live := w.registry.live ++ [w.sock.allocs]
          eidOf := update w.registry.eidOf w.sock.allocs w.sock.eid
          handed := w.registry.handed ++ [w.sock.eid]
          allocs := w.sock.allocs + 1 } := by
      simp [Registry.step, not_lt.2 hrc, h.allocs]
    have hmem : ∀ x, x ∈ (w.registry.live ++ [w.sock.allocs]) ++ w.registry.asked →
        x ∈ w.registry.live ++ w.registry.asked ∨ x = w.sock.allocs := fun x hx => by
      simp only [List.mem_append, List.mem_singleton] at hx ⊢
      tauto
    rw [hreg]
    refine ⟨⟨hw, hr.termed, hr.freed, hr.freed_nodup, fun x hx hm => ?_, ?_⟩,
      .active hf ha hs hq, h.pending, rfl, fun x hx => ?_,
      fun x hx => Nat.lt_succ_of_lt (h.freed_bound x hx), fun x hx => ?_, fun i hm => ?_⟩
    · rcases hmem x hx with hx | rfl
      · exact hr.kept x hx hm
      · exact h.fresh_freed hm
    · exact List.nodup_append.2 ⟨hr.handed, List.nodup_singleton _, fun i hm j hj he =>
        absurd (h.handed i hm) (by simp [he, List.mem_singleton.1 hj])⟩
    · rcases hmem x hx with hx | rfl
      · exact Nat.lt_succ_of_lt (h.bound x hx)
      · exact Nat.lt_succ_self _
    · by_cases hx' : x = w.sock.allocs
      · subst hx'; simp
      · have hx : x ∈ w.registry.live := by simpa [hx'] using hx
        simpa [update_of_ne hx'] using h.eidOf x hx
    · rcases List.mem_append.1 hm with hm | hm
      · exact (h.handed i hm).trans (Int.lt_succ _)
      · exact List.mem_singleton.1 hm ▸ Int.lt_succ _

/-! ### Asking an endpoint to stop -/

/-- The loop of `nn_sock_em_ep` finds what the registry does. -/
theorem findEp (h : Inv w) (eid : ℤ) :
    w.sock.enter.findEp eid (w.sock.enter.allocs + 1) w.sock.enter.eps.first =
      .ok (w.registry.find eid) := by
  have hf : w.sock.enter.findEp eid (w.sock.enter.allocs + 1) w.sock.enter.eps.first = _ :=
    Sock.findEp_spec h.right.lists.eps.fwd
    (fun x hx => h.right.kept x (List.mem_append_left _ hx)) h.length_live
  refine hf.trans (congrArg Except.ok (List.find?_congr fun x hx => ?_))
  rw [show w.sock.enter.eidOf x = w.registry.eidOf x from h.eidOf x hx]

/-- No live endpoint has the id. -/
theorem emEp_none (h : Inv w) {eid : ℤ} (hn : w.registry.find eid = none) :
    ∃ w', exec t w (.emEp eid) = .ok w' ∧ RightStep w (.emEp eid) w' ∧ Inv w' := by
  have hr := h.right
  refine ⟨⟨w.sock.enter.leave, w.registry, -Errno.einval⟩, ?_,
    ⟨⟨fun _ x hx => ?_, fun _ => rfl⟩, fun _ => ⟨rfl, rfl, rfl⟩⟩,
    ⟨hr.lists, hr.termed, hr.freed, hr.freed_nodup, hr.kept, hr.handed⟩,
    h.phase.congr rfl rfl rfl rfl rfl rfl, h.pending, h.allocs, h.bound, h.freed_bound, h.eidOf,
    h.handed⟩
  · simp only [exec, Sock.exec, Sock.emEp, h.findEp, hn, ok_bind, pure_eq_ok, Registry.step]
  · simpa using List.find?_eq_none.1 hn x hx

/-- The endpoint with the id goes from `eps` to `sdeps`. -/
theorem emEp_some (h : Inv w) {eid : ℤ} {x : Ep} (hx : w.registry.find eid = some x) :
    ∃ w', exec t w (.emEp eid) = .ok w' ∧ RightStep w (.emEp eid) w' ∧ Inv w' := by
  have hr := h.right
  have hret : (0 : ℤ) ≠ -Errno.einval := by decide
  obtain ⟨he, as, bs, hlive, -⟩ := List.find?_eq_some_iff_append.1 hx
  have hl := hlive ▸ hr.lists
  obtain ⟨items, eps, sdeps, s₁, h₁, h₂, hw⟩ := Sock.move_spec (s := w.sock.enter) hl
  have herase : w.registry.live.erase x = as ++ bs := by
    have hxa : x ∉ as := fun hm => (List.nodup_append.1 hl.eps.nodup).2.2 x hm x (by simp) rfl
    rw [hlive, List.erase_append_right _ hxa, List.erase_cons_head]
  have hreg : w.registry.step 0 (.emEp eid) =
      { w.registry with live := as ++ bs, asked := w.registry.asked ++ [x] } := by
    simp [Registry.step, hx, herase]
  have hmem : ∀ y, y ∈ (as ++ bs) ++ (w.registry.asked ++ [x]) →
      y ∈ w.registry.live ++ w.registry.asked := fun y hy => by
    simp only [hlive, List.mem_append, List.mem_cons, List.not_mem_nil, or_false] at hy ⊢
    tauto
  refine ⟨⟨{ w.sock with
      locked := false, ctx := w.sock.ctx ++ [.enter] ++ [.leave]
      items := items, eps := eps, sdeps := sdeps
      pending := w.sock.pending ++ [x] }, w.registry.step 0 (.emEp eid), 0⟩, ?_,
    ⟨⟨fun hz => absurd hz hret, fun hno => absurd (by simpa using he)
      (hno x (hlive ▸ by simp))⟩, fun hz => absurd hz hret⟩, ?_⟩
  · simp only [exec, Sock.exec, Sock.emEp, h.findEp, hx, ok_bind, h₁, h₂]
    rfl
  · rw [hreg]
    refine ⟨⟨hw, hr.termed, hr.freed, hr.freed_nodup, fun y hy => hr.kept y (hmem y hy),
      hr.handed⟩, ?_, by simp [h.pending], h.allocs, fun y hy => h.bound y (hmem y hy),
      h.freed_bound, fun y hy => h.eidOf y ?_, h.handed⟩
    · -- There is a live endpoint: the socket is active.
      cases h.phase with
      | active hf ha hs hq => exact .active hf ha hs hq
      | stoppingEps _ _ _ hn | stopped _ _ _ hn => simp [hlive] at hn
    · simp only [hlive, List.mem_append, List.mem_cons] at hy ⊢
      tauto

/-! ### Handling `NN_EP_STOPPED` -/

/-- What the invariant needs once the endpoint between `as` and `bs` has been
    erased from `sdeps`, terminated and freed, whatever else has changed. -/
theorem epStopped_of (h : Inv w) {as bs : List Ep} {x : Ep} {s : Sock}
    (hasked : w.registry.asked = as ++ x :: bs)
    (hw : EpLists s.items s.eps s.sdeps w.registry.live (as ++ bs))
    (hp : s.pending = w.sock.pending.erase x) (ht : s.termed = w.sock.termed ++ [x])
    (hf : s.freed = w.sock.freed ++ [x]) (hal : s.allocs = w.sock.allocs)
    (hid : s.eidOf = w.sock.eidOf) (hei : s.eid = w.sock.eid)
    (hph : Phase s (w.registry.step 0 (.epStopped x))) :
    Inv ⟨s, w.registry.step 0 (.epStopped x), 0⟩ := by
  have hr := h.right
  have hn : (as ++ x :: bs).Nodup := hasked ▸ hr.lists.sdeps.nodup
  have hxm : x ∈ w.registry.live ++ w.registry.asked := by simp [hasked]
  have hmem : ∀ y, y ∈ w.registry.live ++ (as ++ bs) →
      y ∈ w.registry.live ++ w.registry.asked := fun y hy => by
    simp only [hasked, List.mem_append, List.mem_cons] at hy ⊢
    tauto
  have hne : ∀ y ∈ w.registry.live ++ (as ++ bs), y ≠ x := fun y hy he => by
    have hx := (List.nodup_cons.1 (List.nodup_middle.1 hn)).1
    rcases List.mem_append.1 hy with hy | hy
    · exact hr.lists.disjoint y hy (by simp [hasked, he])
    · exact hx (he ▸ hy)
  have hxf : x ∉ w.sock.freed := hr.kept x hxm
  rw [Registry.step_epStopped hn hasked] at hph ⊢
  refine ⟨⟨hw, by simp [ht, hr.termed], fun y => ?_, ?_, fun y hy hm => ?_, hr.handed⟩, hph, ?_,
    h.allocs.trans hal.symm, fun y hy => hal ▸ h.bound y (hmem y hy), fun y hy => ?_,
    fun y hy => hid ▸ h.eidOf y hy, fun i hi => hei ▸ h.handed i hi⟩
  · simp only [hf, List.mem_append, hr.freed]
    tauto
  · rw [hf]
    exact List.nodup_append.2 ⟨hr.freed_nodup, List.nodup_singleton _, fun y hy z hz he =>
      hxf (List.mem_singleton.1 hz ▸ he ▸ hy)⟩
  · rw [hf] at hm
    rcases List.mem_append.1 hm with hm | hm
    · exact hr.kept y (hmem y hy) hm
    · exact hne y hy (List.mem_singleton.1 hm)
  · have := Registry.step_epStopped hn hasked 0
    simp only [Registry.step, Registry.mk.injEq] at this
    rw [hp, h.pending, this.2.1]
  · rw [hf] at hy
    rw [hal]
    rcases List.mem_append.1 hy with hy | hy
    · exact h.freed_bound y hy
    · exact List.mem_singleton.1 hy ▸ h.bound x hxm

/-- An active socket gets it right for an endpoint at neither end of `sdeps`. -/
theorem epStopped_active (h : Inv w) {x : Ep} (hx : x ∈ w.sock.pending)
    (ha : w.sock.state = .active) (hc : Condition w (.epStopped x)) :
    ∃ w', exec t w (.epStopped x) = .ok w' ∧ Inv w' := by
  have hr := h.right
  obtain ⟨as, bs, hasked⟩ := List.append_of_mem (h.pending ▸ hx)
  have hl := hasked ▸ hr.lists
  have hxf : x ∉ w.sock.freed := hr.kept x (by simp [hasked])
  obtain ⟨hfirst, hlast⟩ := hc ha
  have has : as ≠ [] := by
    rintro rfl
    exact hfirst hl.sdeps.first_eq
  have hbs : bs ≠ [] := by
    rintro rfl
    exact hlast (by rw [hl.sdeps.last_eq]; simp)
  have hun : ∀ l : NnList Ep, l.unlink as bs = l := fun l => by
    simp [NnList.unlink, has, hbs]
  obtain ⟨items, he, hw, hw'⟩ := Sock.eraseEps_wrong (s := w.sock.deliver x) hl
  rw [hun] at he hw'
  obtain ⟨hfsm, hs, hq⟩ := h.phase.of_active ha
  refine ⟨⟨{ w.sock with
      items := items, pending := w.sock.pending.erase x
      termed := w.sock.termed ++ [x], freed := w.sock.freed ++ [x] },
    w.registry.step 0 (.epStopped x), 0⟩, ?_, ?_⟩
  · simp only [exec, Sock.exec, Sock.feed]
    rw [Fsm.feed_of_ne (show (w.sock.deliver x).fsm ≠ .stopping from hfsm),
      Sock.handler_epStopped (s := w.sock.deliver x) ha hxf, he]
    rfl
  · refine h.epStopped_of hasked ⟨hw, hw', fun y hy hm => hl.disjoint y hy ?_⟩ rfl rfl rfl rfl rfl
      rfl (.active hfsm ha hs hq)
    simp only [List.mem_append, List.mem_cons] at hm ⊢
    tauto

/-- A stopping socket always does. -/
theorem epStopped_stoppingEps (h : Inv w) {x : Ep} (hx : x ∈ w.sock.pending)
    (ha : w.sock.state ≠ .active) : ∃ w', exec t w (.epStopped x) = .ok w' ∧ Inv w' := by
  have hr := h.right
  obtain ⟨as, bs, hasked⟩ := List.append_of_mem (h.pending ▸ hx)
  have hl := hasked ▸ hr.lists
  have hxf : x ∉ w.sock.freed := hr.kept x (by simp [hasked])
  obtain ⟨-, hst, -⟩ | ⟨hfsm, hst, hs, hlive, -, hq⟩ | ⟨-, -, -, -, hn⟩ := h.phase
  · exact absurd hst ha
  · obtain ⟨items, sdeps, he, hw⟩ := Sock.eraseSdeps_spec (s := w.sock.deliver x) hl
    have hreg := Registry.step_epStopped hl.sdeps.nodup hasked 0
    have hsh := Sock.shutdown_epStopped (s := w.sock.deliver x) (t := t) hst hxf
    rw [he, ok_bind] at hsh
    have hexec : ∀ s, (w.sock.deliver x).shutdown t Sock.srcEp Sock.epStopped (some (.ep x)) = .ok s →
        exec t w (.epStopped x) = .ok ⟨s, w.registry.step 0 (.epStopped x), 0⟩ := fun s hs => by
      simp only [exec, Sock.exec_epStopped hfsm hs, ok_bind, pure_eq_ok]
    by_cases hab : as ++ bs = []
    · -- The last endpoint: the protocol is stopped or destroyed.
      rw [hlive, hab] at hw
      obtain ⟨state, termsem, stopped, queued, calls, reports, hstate, hfin⟩ :=
        Sock.finish2_frame (t := t) (s := Sock.epFree (Sock.epTerm { w.sock.deliver x with
          items := items, sdeps := sdeps } x) x) hw hq
      refine ⟨_, hexec _ (hsh.trans hfin), h.epStopped_of hasked (by rw [hlive, hab]; exact hw)
        rfl rfl rfl rfl rfl rfl ?_⟩
      rw [hreg]
      exact .stopped hfsm hstate hs hlive hab
    · refine ⟨_, hexec _ (hsh.trans (Sock.finish2_of_ne_nil hw hab)),
        h.epStopped_of hasked hw rfl rfl rfl rfl rfl rfl ?_⟩
      rw [hreg]
      exact .stoppingEps hfsm hst hs hlive hab hq
  · simp [hn] at hasked

/-! ### Stopping the socket -/

theorem stop (h : Inv w) (hs : w.registry.stopAsked = false) :
    ∃ w', exec t w .stop = .ok w' ∧ Inv w' := by
  have hr := h.right
  obtain ⟨hfsm, ha, hq⟩ := h.active hs
  obtain ⟨items, eps, sdeps, hsh, hw⟩ := Sock.shutdown_stop (t := t)
    (s := { w.sock.enter with fsm := .stopping }) ha hr.lists
    (fun x hx => hr.kept x (List.mem_append_left _ hx)) h.length_live
  have hexec : ∀ s, Sock.shutdown t { w.sock.enter with fsm := .stopping } Fsm.action Fsm.stop none
      = .ok s → exec t w .stop = .ok ⟨s.leave, w.registry.step 0 .stop, 0⟩ := fun s hs => by
    simp only [exec, Sock.exec_stop hs, ok_bind, pure_eq_ok]
  have hmem : ∀ x, x ∈ [] ++ (w.registry.asked ++ w.registry.live) →
      x ∈ w.registry.live ++ w.registry.asked := fun x hx => by
    simp only [List.mem_append, List.not_mem_nil, false_or] at hx ⊢
    tauto
  -- Whatever `finish2` does, it leaves the endpoints alone.
  have hinv : ∀ s : Sock, s.items = items → s.eps = eps → s.sdeps = sdeps →
      s.termed = w.sock.termed → s.freed = w.sock.freed → s.allocs = w.sock.allocs →
      s.eid = w.sock.eid → s.pending = w.sock.pending ++ w.registry.live →
      Phase s (w.registry.step 0 .stop) → Inv ⟨s, w.registry.step 0 .stop, 0⟩ := by
    intro s hi he hd ht hf hal hid hp hph
    exact ⟨⟨hi ▸ he ▸ hd ▸ hw, ht.trans hr.termed, fun x => hf ▸ hr.freed x, hf ▸ hr.freed_nodup,
        fun x hx => hf ▸ hr.kept x (hmem x hx), hr.handed⟩, hph, by rw [hp, h.pending]; rfl,
      h.allocs.trans hal.symm, fun x hx => hal ▸ h.bound x (hmem x hx),
      fun x hx => hal ▸ h.freed_bound x (hf ▸ hx), fun _ hx => absurd hx List.not_mem_nil,
      fun i hm => hid ▸ h.handed i hm⟩
  by_cases hab : w.registry.asked ++ w.registry.live = []
  · rw [hab] at hw
    obtain ⟨state, termsem, stopped, queued, calls, reports, hstate, hfin⟩ :=
      Sock.finish2_frame (t := t) (s := { Sock.stopEfds t { w.sock.enter with fsm := .stopping } with
        items := items, eps := eps, sdeps := sdeps
        pending := w.sock.pending ++ w.registry.live, state := .stoppingEps }) hw hq
    exact ⟨_, hexec _ (hsh.trans hfin), hinv _ rfl rfl rfl rfl rfl rfl rfl rfl
      (.stopped rfl hstate rfl rfl hab)⟩
  · exact ⟨_, hexec _ (hsh.trans (Sock.finish2_of_ne_nil hw hab)),
      hinv _ rfl rfl rfl rfl rfl rfl rfl rfl (.stoppingEps rfl rfl rfl rfl hab hq)⟩

/-! ### All actions -/

/-- An action meeting the condition is right and keeps the invariant. -/
theorem step (h : Inv w) {a : SockAction} (he : enabled w a) (hc : Condition w a) :
    ∃ w', exec t w a = .ok w' ∧ RightStep w a w' ∧ Inv w' := by
  obtain ⟨-, he⟩ := he
  cases a with
  | addEp memory addrLen rc =>
    obtain ⟨w', hx, hi⟩ : ∃ w', exec t w (.addEp memory addrLen rc) = .ok w' ∧ Inv w' := by
      cases memory with
      | false => exact h.addEp_enomem addrLen rc
      | true =>
        rcases lt_or_ge rc 0 with hrc | hrc
        · exact h.addEp_error he.1 he.2 hrc
        · exact h.addEp_ok he.1 he.2 hrc (hc rfl hrc)
    exact ⟨w', hx, trivial, hi⟩
  | emEp eid =>
    cases hx : w.registry.find eid with
    | none => exact h.emEp_none hx
    | some x => exact h.emEp_some hx
  | epStopped x =>
    by_cases ha : w.sock.state = .active
    · obtain ⟨w', hx, hi⟩ := h.epStopped_active (t := t) he ha hc
      exact ⟨w', hx, trivial, hi⟩
    · obtain ⟨w', hx, hi⟩ := h.epStopped_stoppingEps (t := t) he ha
      exact ⟨w', hx, trivial, hi⟩
  | stop =>
    obtain ⟨w', hx, hi⟩ := h.stop (t := t) he
    exact ⟨w', hx, trivial, hi⟩
  | pipe | sockbaseStopped | processStopped => exact he.elim

/-- An action that is right meets the condition. -/
theorem condition_of_step (h : Inv w) {a : SockAction} {w' : EpWorld} (he : enabled w a)
    (hx : exec t w a = .ok w') (hr' : Right w') : Condition w a := by
  obtain ⟨-, he⟩ := he
  cases a with
  | addEp memory addrLen rc =>
    rintro rfl hrc
    by_contra hi
    simp [exec, Sock.exec, Sock.addEp, Sock.epInit, he.2, not_lt.2 hrc, Sock.nextEid, Sock.alloc,
      Sock.enter, hi] at hx
  | epStopped x =>
    intro ha
    have hr := h.right
    obtain ⟨hfsm, -, -⟩ := h.phase.of_active ha
    obtain ⟨as, bs, hasked⟩ := List.append_of_mem (h.pending ▸ he)
    have hl := hasked ▸ hr.lists
    have hxf : x ∉ w.sock.freed := hr.kept x (by simp [hasked])
    obtain ⟨items, hera, -⟩ := Sock.eraseEps_wrong (s := w.sock.deliver x) hl
    simp only [exec, Sock.exec, Sock.feed] at hx
    rw [Fsm.feed_of_ne (show (w.sock.deliver x).fsm ≠ .stopping from hfsm),
      Sock.handler_epStopped (s := w.sock.deliver x) ha hxf, hera] at hx
    obtain rfl := Except.ok.inj hx
    -- `sdeps` has kept its ends, of which `x` is none any more.
    have hn := hl.sdeps.nodup
    have hlists := hr'.lists.sdeps
    dsimp only [Sock.epTerm, Sock.epFree, Sock.deliver] at hlists
    rw [Registry.step_epStopped hn hasked] at hlists
    have hx' : x ∉ as ++ bs := (List.nodup_cons.1 (List.nodup_middle.1 hn)).1
    refine ⟨fun hf => hx' (Link.mem_of_head_eq (hlists.first_eq.symm.trans hf)), fun hf => hx' ?_⟩
    exact List.mem_reverse.1 (Link.mem_of_head_eq (hlists.last_eq.symm.trans hf))
  | emEp | stop | pipe | sockbaseStopped | processStopped => trivial

end Inv

/-- A run of a socket just opened is right exactly if it meets the condition. -/
theorem endpoints_correct_iff (t : SockType) (items : Items Ep) (eidOf : Ep → ℤ)
    (as : List SockAction) :
    (system t).Correct Right RightStep (opened items eidOf) as ↔
      (system t).Meets Condition (opened items eidOf) as :=
  System.correct_iff_meets (fun _ h => h.right) (fun _ _ h he hc => h.step he hc)
    (fun _ _ _ h he hx _ hr => h.condition_of_step he hx hr) (inv_opened items eidOf) as

/-- An endpoint is added and removed, and stops: `sdeps` keeps it, freed. -/
theorem endpoints_not_correct :
    ¬ (system ⟨false, false, none⟩).Correct Right RightStep
      (opened ⟨fun _ => .out, fun _ => .out⟩ fun _ => 0)
      [.addEp true 0 0, .emEp 1, .epStopped 0] := by
  intro h
  have h := h.of_run (.cons ⟨rfl, rfl, by decide⟩ rfl <| .cons ⟨rfl, trivial⟩ rfl <|
    .cons ⟨rfl, List.mem_singleton.2 rfl⟩ rfl <| .nil _)
  exact absurd h.lists.sdeps.first_eq (by decide)

end EpWorld

end Nanomsg
