import Mathlib.Data.List.Basic
import Nanomsg.Aio.Pollset
import Nanomsg.Core.Readiness

/-!
# Polling sockets

`poll.c`: `nn_poll` asks for the descriptors of sockets with `nn_getsockopt`, waits for them with
the system's own call and tells which sockets are ready. It is written twice.

* With `poll` (`Posix`), what is asked for takes a position in an array, one after the
  other, and is read back from there; `places` says which positions are whose.
* With `select` (`Windows`), the descriptors are put into a set, and looked up once more to
  be found there.

A descriptor of a socket is readable when the socket is ready, to send as well as to receive;
`select` is asked for that, of as many descriptors as the set can hold. `poll` is asked whether that
of the sending side is writable, and how many sockets are ready is counted and not returned
(`nnPoll_correct_iff`).
-/

namespace Nanomsg

open Function

/-- `struct nn_pollfd`. -/
structure NnPollfd where
  fd : ℤ
  events : BitVec 16
  revents : BitVec 16
  deriving DecidableEq

/-- `NN_POLLIN` and `NN_POLLOUT`. -/
def Direction.pollBit : Direction → BitVec 16
  | .rcv => 1
  | .snd => 2

/-- What is asked for. -/
def NnPollfd.asks (e : NnPollfd) (d : Direction) : Bool := e.events &&& d.pollBit ≠ 0

/-- `nn_getsockopt` of `NN_RCVFD` or `NN_SNDFD`: the descriptor, if it succeeds. -/
abbrev FdLookup := ℤ → Direction → Option ℤ

/-- Whose a position is: the entry, the direction, and the position. -/
abbrev FdPlace := ℕ × Direction × ℕ

namespace Posix

variable (lookup : FdLookup) (nfds : ℕ)

/-- What `poll` is asked about a descriptor, and what is looked for in its answer. -/
def event : Direction → BitVec 16
  | .rcv => Pollset.pollin
  | .snd => Pollset.pollout

/-- `pfd` and `pos`, and whose the positions are. -/
structure Pfds where
  pfd : ℕ → PollFd
  pos : ℕ
  places : List FdPlace

/-- `pfd` has room for `nfds * 2` of them. -/
def Pfds.store (s : Pfds) (i : ℕ) (d : Direction) (fd : ℤ) : Except Fault Pfds :=
  if s.pos < nfds * 2 then
    .ok { pfd := update s.pfd s.pos { s.pfd s.pos with fd := fd, events := event d }
          pos := s.pos + 1
          places := s.places ++ [(i, d, s.pos)] }
  else .error .wildPointer

/-- What is done for one direction of an entry; nothing if the lookup fails. -/
def buildOne (i : ℕ) (e : NnPollfd) (d : Direction) (s : Pfds) : Except Fault (Option Pfds) :=
  if e.asks d then
    match lookup e.fd d with
    | none => .ok none
    | some fd => do
      let s ← s.store nfds i d fd
      pure (some s)
  else .ok (some s)

/-- The first loop. -/
def build : ℕ → List NnPollfd → Pfds → Except Fault (Option Pfds)
  | _, [], s => .ok (some s)
  | i, e :: es, s => do
    match ← buildOne lookup nfds i e .rcv s with
    | none => pure none
    | some s =>
      match ← buildOne lookup nfds i e .snd s with
      | none => pure none
      | some s => build (i + 1) es s

variable (revents : ℕ → BitVec 16)

/-- What is done for one direction of an entry: the position after it, and the events so far. -/
def readOne (i : ℕ) (e : NnPollfd) (d : Direction) (pos : ℕ) (rv : BitVec 16) :
    Except Fault (ℕ × BitVec 16 × List FdPlace) :=
  if e.asks d then
    if pos < nfds * 2 then
      .ok (pos + 1, if revents pos &&& event d ≠ 0 then rv ||| d.pollBit else rv, [(i, d, pos)])
    else .error .wildPointer
  else .ok (pos, rv, [])

/-- The second loop: the entries, how many are ready, and the positions read. -/
def readBack : ℕ → List NnPollfd → ℕ → Except Fault (List NnPollfd × ℕ × List FdPlace)
  | _, [], _ => .ok ([], 0, [])
  | i, e :: es, pos => do
    let (pos, rv, rcv) ← readOne nfds revents i e .rcv pos 0
    let (pos, rv, snd) ← readOne nfds revents i e .snd pos rv
    let (es, res, places) ← readBack (i + 1) es pos
    pure ({ e with revents := rv } :: es, if rv ≠ 0 then res + 1 else res, rcv ++ snd ++ places)

/-- What `poll` returns: nothing to report, or the events of each position. -/
inductive Outcome
  | ended (rc : ℤ)
  | reported (revents : ℕ → BitVec 16)

/-- What `nn_poll` returns, the entries after it, how often `pfd` has been freed, and the use made
    of it. -/
structure Result where
  rc : ℤ
  fds : List NnPollfd
  frees : ℕ
  pfd : ℕ → PollFd
  stored : List FdPlace
  read : List FdPlace

/-- `nn_poll`, `memory` being what the memory allocated for `pfd` holds. -/
def nnPoll (fds : List NnPollfd) (memory : ℕ → PollFd) (poll : Outcome) : Except Fault Result := do
  match ← build lookup fds.length 0 fds ⟨memory, 0, []⟩ with
  | none => pure ⟨-1, fds, 1, memory, [], []⟩
  | some s =>
    match poll with
    | .ended rc => pure ⟨rc, fds, 1, s.pfd, s.places, []⟩
    | .reported revents =>
      -- How many entries are ready is not used.
      let (fds, _, read) ← readBack fds.length revents 0 fds 0
      pure ⟨0, fds, 1, s.pfd, s.places, read⟩

end Posix

namespace Windows

variable (lookup : FdLookup) (fdSetsize : ℕ)

/-- `FD_SET`. -/
def fdSet (fdset : List ℤ) (fd : ℤ) : List ℤ :=
  if fd ∈ fdset ∨ fdSetsize ≤ fdset.length then fdset else fdset ++ [fd]

/-- What is done for one direction of an entry. -/
def buildOne (e : NnPollfd) (d : Direction) (fdset : List ℤ) : Option (List ℤ) :=
  if e.asks d then (lookup e.fd d).map (fdSet fdSetsize fdset) else some fdset

/-- The first loop. -/
def build : List NnPollfd → List ℤ → Option (List ℤ)
  | [], fdset => some fdset
  | e :: es, fdset => do
    let fdset ← buildOne lookup fdSetsize e .rcv fdset
    let fdset ← buildOne lookup fdSetsize e .snd fdset
    build es fdset

/-- What is done for one direction of an entry, the set being that of `select`. -/
def readOne (fdset : List ℤ) (e : NnPollfd) (d : Direction) (rv : BitVec 16) : Option (BitVec 16) :=
  if e.asks d then (lookup e.fd d).map fun fd => if fd ∈ fdset then rv ||| d.pollBit else rv
  else some rv

/-- The second loop: the entries, and how many are ready. -/
def readBack (fdset : List ℤ) : List NnPollfd → Option (List NnPollfd × ℕ)
  | [] => some ([], 0)
  | e :: es => do
    let rv ← readOne lookup fdset e .rcv 0
    let rv ← readOne lookup fdset e .snd rv
    let (es, res) ← readBack fdset es
    pure ({ e with revents := rv } :: es, if rv ≠ 0 then res + 1 else res)

/-- What `select` returns: nothing to report, or which descriptors are readable, of which it leaves
    those in the set that are. -/
inductive Outcome
  | ended (rc : ℤ)
  | reported (readable : ℤ → Bool)

/-- What `nn_poll` returns, and the entries after it. -/
structure Result where
  rc : ℤ
  fds : List NnPollfd

/-- `nn_poll`. -/
def nnPoll (fds : List NnPollfd) (select : Outcome) : Result :=
  match build lookup fdSetsize fds [] with
  | none => ⟨-1, fds⟩
  | some fdset =>
    if fds.length ≠ 0 then
      match select with
      | .ended rc => ⟨rc, fds⟩
      | .reported readable =>
        match readBack lookup (fdset.filter readable) fds with
        -- Not so when the lookups are as before.
        | none => ⟨-1, fds⟩
        | some (fds, res) => ⟨res, fds⟩
    else ⟨0, fds⟩

end Windows

/-! ### What is right -/

namespace NnPollfd

/-- The lookup of a descriptor asked for fails. -/
def Fails (lookup : FdLookup) (fds : List NnPollfd) : Prop :=
  ∃ e ∈ fds, ∃ d, e.asks d = true ∧ lookup e.fd d = none

/-- The entries `fds'` tell which of what is asked for is readable, and `rc` is how many of them tell
    of something. -/
structure Tells (fds fds' : List NnPollfd) (rc : ℤ) (readable : ℕ → Direction → Prop) : Prop where
  length : fds'.length = fds.length
  revents : ∀ (i : ℕ) (e e' : NnPollfd), fds[i]? = some e → fds'[i]? = some e' →
    e'.fd = e.fd ∧ e'.events = e.events ∧
      ∀ d, e'.revents &&& d.pollBit ≠ 0 ↔ e.asks d = true ∧ readable i d
  rc : rc = (fds'.countP (·.revents ≠ 0) : ℕ)

/-- The entry with the events that `flag` tells. -/
def answer (e : NnPollfd) (flag : Direction → Bool) : NnPollfd :=
  { e with
    revents := (if flag .rcv then Direction.rcv.pollBit else 0) |||
      if flag .snd then Direction.snd.pollBit else 0 }

variable {e : NnPollfd} {flag : Direction → Bool}

theorem answer_revents (d : Direction) : (e.answer flag).revents &&& d.pollBit ≠ 0 ↔ flag d = true := by
  cases hr : flag .rcv <;> cases hs : flag .snd <;> cases d <;> simp [answer, hr, hs] <;> decide

theorem answer_revents_eq_zero : (e.answer flag).revents = 0 ↔ ∀ d, flag d = false := by
  have hall : (∀ d, flag d = false) ↔ flag .rcv = false ∧ flag .snd = false :=
    ⟨fun h => ⟨h .rcv, h .snd⟩, fun h d => by cases d; exacts [h.1, h.2]⟩
  rw [hall]
  cases hr : flag .rcv <;> cases hs : flag .snd <;> simp [answer, hr, hs] <;> decide

/-- Each entry answered. -/
def answers (i : ℕ) (es : List NnPollfd) (flag : ℕ → Direction → Bool) : List NnPollfd :=
  es.mapIdx fun k e => e.answer (flag (i + k))

@[simp] theorem answers_nil (i : ℕ) (flag : ℕ → Direction → Bool) : answers i [] flag = [] := rfl

theorem answers_cons (i : ℕ) (es : List NnPollfd) (flag : ℕ → Direction → Bool) :
    answers i (e :: es) flag = e.answer (flag i) :: answers (i + 1) es flag := by
  rw [answers, List.mapIdx_cons, answers]
  simp only [Nat.add_zero, Nat.add_assoc, Nat.add_comm 1]

theorem answers_congr {i : ℕ} {es : List NnPollfd} {flag flag' : ℕ → Direction → Bool}
    (h : ∀ k < es.length, flag (i + k) = flag' (i + k)) : answers i es flag = answers i es flag' := by
  refine List.ext_getElem? fun k => ?_
  rw [answers, answers, List.getElem?_mapIdx, List.getElem?_mapIdx]
  cases hk : es[k]? with
  | none => rfl
  | some e => rw [Option.map_some, Option.map_some, h k (List.getElem?_eq_some_iff.1 hk).1]

/-- When the entries answered tell what is readable. -/
theorem tells_answers_iff {fds : List NnPollfd} {rc : ℤ} {flag : ℕ → Direction → Bool}
    {readable : ℕ → Direction → Prop} :
    Tells fds (answers 0 fds flag) rc readable ↔
      (∀ i e, fds[i]? = some e → ∀ d, flag i d = true ↔ e.asks d = true ∧ readable i d) ∧
        rc = ((answers 0 fds flag).countP (·.revents ≠ 0) : ℕ) := by
  have hget : ∀ (i : ℕ) (e : NnPollfd), fds[i]? = some e →
      (answers 0 fds flag)[i]? = some (e.answer (flag i)) := fun i e he => by
    rw [answers, List.getElem?_mapIdx, he, Option.map_some, Nat.zero_add]
  constructor
  · rintro ⟨-, hrevents, hrc⟩
    refine ⟨fun i e he d => ?_, hrc⟩
    rw [← @answer_revents e (flag i)]
    exact (hrevents i e _ he (hget i e he)).2.2 d
  · rintro ⟨hflag, hrc⟩
    refine ⟨List.length_mapIdx, fun i e e' he he' => ?_, hrc⟩
    rw [hget i e he, Option.some.injEq] at he'
    subst he'
    refine ⟨rfl, rfl, fun d => ?_⟩
    rw [answer_revents]
    exact hflag i e he d

end NnPollfd

/-! ### With `poll` -/

namespace Posix

open NnPollfd

/-- The position that one direction of an entry takes. -/
def place (i : ℕ) (e : NnPollfd) (d : Direction) (pos : ℕ) : List FdPlace :=
  if e.asks d then [(i, d, pos)] else []

/-- The positions from `pos` on. -/
def places : ℕ → List NnPollfd → ℕ → List FdPlace
  | _, [], _ => []
  | i, e :: es, pos =>
    let rcv := place i e .rcv pos
    let snd := place i e .snd (pos + rcv.length)
    rcv ++ snd ++ places (i + 1) es (pos + rcv.length + snd.length)

variable {lookup : FdLookup} {nfds i j pos k : ℕ} {e : NnPollfd} {es fds : List NnPollfd}
  {d d' : Direction} {s : Pfds} {revents : ℕ → BitVec 16}

theorem mem_place : (j, d, k) ∈ place i e d' pos ↔ e.asks d = true ∧ d = d' ∧ j = i ∧ k = pos := by
  rw [place]
  split
  · next h =>
    simp only [List.mem_singleton, Prod.mk.injEq]
    exact ⟨fun ⟨hj, hd, hk⟩ => ⟨hd ▸ h, hd, hj, hk⟩, fun ⟨_, hd, hj, hk⟩ => ⟨hj, hd, hk⟩⟩
  · next h => exact iff_of_false List.not_mem_nil fun ⟨ha, hd, _⟩ => h (hd ▸ ha)

theorem length_place (h : e.asks d = true) : (place i e d pos).length = 1 := by
  rw [place, if_pos h]
  rfl

theorem length_place_le : (place i e d pos).length ≤ 1 := by
  rw [place]
  split <;> simp

/-- There are no more than two positions for an entry. -/
theorem length_places_le (i pos : ℕ) (es : List NnPollfd) :
    (places i es pos).length ≤ 2 * es.length := by
  induction es generalizing i pos with
  | nil => exact Nat.le_refl 0
  | cons e es ih =>
    have hrcv := @length_place_le i pos e .rcv
    have hsnd := @length_place_le i (pos + (place i e .rcv pos).length) e .snd
    have hes := ih (i + 1) (pos + (place i e .rcv pos).length +
      (place i e .snd (pos + (place i e .rcv pos).length)).length)
    simp only [places, List.length_append, List.length_cons]
    omega

/-- A position is for something asked for, and one of those taken. -/
theorem of_mem_places (h : (j, d, k) ∈ places i es pos) :
    i ≤ j ∧ pos ≤ k ∧ k < pos + (places i es pos).length := by
  induction es generalizing i pos with
  | nil => simp [places] at h
  | cons e es ih =>
    simp only [places, List.mem_append, List.length_append] at h ⊢
    rcases h with (h | h) | h
    · obtain ⟨ha, rfl, rfl, rfl⟩ := mem_place.1 h
      rw [length_place ha]
      omega
    · obtain ⟨ha, rfl, rfl, rfl⟩ := mem_place.1 h
      rw [length_place ha]
      omega
    · have := ih h
      omega

/-- It is asked for by the entry. -/
theorem asks_of_mem_places (h : (j, d, k) ∈ places i es pos) :
    ∃ e, es[j - i]? = some e ∧ e.asks d = true := by
  induction es generalizing i pos with
  | nil => simp [places] at h
  | cons e es ih =>
    simp only [places, List.mem_append] at h
    rcases h with (h | h) | h
    · obtain ⟨ha, rfl, rfl, rfl⟩ := mem_place.1 h
      exact ⟨e, by rw [Nat.sub_self]; rfl, ha⟩
    · obtain ⟨ha, rfl, rfl, rfl⟩ := mem_place.1 h
      exact ⟨e, by rw [Nat.sub_self]; rfl, ha⟩
    · obtain ⟨e', he', ha⟩ := ih h
      have hle := (of_mem_places h).1
      rw [show j - i = j - (i + 1) + 1 by omega]
      exact ⟨e', he', ha⟩

/-! #### Building -/

/-- What the first loop has done for the entries `es`. -/
structure Built (lookup : FdLookup) (i : ℕ) (es : List NnPollfd) (s s' : Pfds) : Prop where
  pos : s'.pos = s.pos + (places i es s.pos).length
  places : s'.places = s.places ++ places i es s.pos
  below : ∀ k < s.pos, s'.pfd k = s.pfd k
  pfd : ∀ j d k, (j, d, k) ∈ Posix.places i es s.pos →
    ∃ e fd, es[j - i]? = some e ∧ lookup e.fd d = some fd ∧ (s'.pfd k).fd = fd

/-- What it has done for one direction of an entry. -/
structure BuiltOne (lookup : FdLookup) (i : ℕ) (e : NnPollfd) (d : Direction) (s s' : Pfds) : Prop where
  found : e.asks d = true → lookup e.fd d ≠ none
  pos : s'.pos = s.pos + (place i e d s.pos).length
  places : s'.places = s.places ++ place i e d s.pos
  below : ∀ k < s.pos, s'.pfd k = s.pfd k
  pfd : e.asks d = true → lookup e.fd d = some (s'.pfd s.pos).fd

/-- One direction of an entry. -/
theorem buildOne_spec (lookup : FdLookup) (i : ℕ) (e : NnPollfd) (d : Direction)
    (h : s.pos < nfds * 2) :
    (e.asks d = true ∧ lookup e.fd d = none ∧ buildOne lookup nfds i e d s = .ok none) ∨
      ∃ s', buildOne lookup nfds i e d s = .ok (some s') ∧ BuiltOne lookup i e d s s' := by
  rw [buildOne]
  by_cases ha : e.asks d = true
  · rw [if_pos ha]
    cases hl : lookup e.fd d with
    | none => exact .inl ⟨ha, rfl, rfl⟩
    | some fd =>
      refine .inr ⟨_, by simp only [Pfds.store, if_pos h]; rfl, fun _ => by simp [hl], ?_, ?_,
        fun k hk => update_of_ne (Nat.ne_of_lt hk) _ _, fun _ => ?_⟩
      · rw [length_place ha]
      · rw [place, if_pos ha]
      · have hself := update_self s.pos { s.pfd s.pos with fd := fd, events := event d } s.pfd
        exact hl.trans (congrArg (fun f : PollFd => some f.fd) hself).symm
  · rw [if_neg ha]
    refine .inr ⟨s, rfl, fun h => absurd h ha, ?_, ?_, fun _ _ => rfl, fun h => absurd h ha⟩
    · rw [place, if_neg ha]
      rfl
    · rw [place, if_neg ha, List.append_nil]

theorem fails_cons : Fails lookup (e :: es) ↔
    (∃ d, e.asks d = true ∧ lookup e.fd d = none) ∨ Fails lookup es := by
  simp [Fails]

/-- What is at the position of one direction stays there. -/
theorem BuiltOne.mem_place {s₁ s₂ : Pfds} (h : BuiltOne lookup i e d s s₁)
    (hbelow : ∀ k < s₁.pos, s₂.pfd k = s₁.pfd k) {j k : ℕ} {d' : Direction}
    (hm : (j, d', k) ∈ place i e d s.pos) :
    ∃ e' fd, (e :: es)[j - i]? = some e' ∧ lookup e'.fd d' = some fd ∧ (s₂.pfd k).fd = fd := by
  obtain ⟨ha, rfl, rfl, rfl⟩ := Posix.mem_place.1 hm
  have hpos := h.pos
  rw [length_place ha] at hpos
  exact ⟨e, _, by rw [Nat.sub_self]; rfl, h.pfd ha, by rw [hbelow _ (by omega)]⟩

/-- The two directions of an entry, and the other entries. -/
theorem BuiltOne.cons {s₁ s₂ s₃ : Pfds} (hrcv : BuiltOne lookup i e .rcv s s₁)
    (hsnd : BuiltOne lookup i e .snd s₁ s₂) (hb : Built lookup (i + 1) es s₂ s₃) :
    Built lookup i (e :: es) s s₃ := by
  have hle₁ : s.pos ≤ s₁.pos := hrcv.pos ▸ Nat.le_add_right _ _
  have hle₂ : s₁.pos ≤ s₂.pos := hsnd.pos ▸ Nat.le_add_right _ _
  have hbelow₂ : ∀ k < s₂.pos, s₃.pfd k = s₂.pfd k := hb.below
  have hbelow₁ : ∀ k < s₁.pos, s₃.pfd k = s₁.pfd k := fun k hk => by
    rw [hbelow₂ k (Nat.lt_of_lt_of_le hk hle₂), hsnd.below k hk]
  have hplaces : Posix.places i (e :: es) s.pos =
      place i e .rcv s.pos ++ place i e .snd s₁.pos ++ Posix.places (i + 1) es s₂.pos := by
    rw [Posix.places, hsnd.pos, hrcv.pos]
  refine ⟨?_, ?_, fun k hk => ?_, fun j d k hm => ?_⟩
  · have hpos₁ := hrcv.pos
    have hpos₂ := hsnd.pos
    have hpos₃ := hb.pos
    rw [hplaces, List.length_append, List.length_append]
    omega
  · rw [hb.places, hsnd.places, hrcv.places, hplaces, List.append_assoc, List.append_assoc,
      List.append_assoc]
  · rw [hbelow₁ k (Nat.lt_of_lt_of_le hk hle₁), hrcv.below k hk]
  · rw [hplaces, List.mem_append, List.mem_append] at hm
    rcases hm with (hm | hm) | hm
    · exact hrcv.mem_place hbelow₁ hm
    · exact hsnd.mem_place hbelow₂ hm
    · have hle := (of_mem_places hm).1
      obtain ⟨e', fd, he', hl, hfd⟩ := hb.pfd j d k hm
      refine ⟨e', fd, ?_, hl, hfd⟩
      rw [show j - i = j - (i + 1) + 1 by omega]
      exact he'

/-- The first loop stores the descriptors at the positions that are to be theirs, unless a lookup
    fails. -/
theorem build_spec (lookup : FdLookup) (i : ℕ) (es : List NnPollfd)
    (h : s.pos + 2 * es.length ≤ nfds * 2) :
    Fails lookup es ∧ build lookup nfds i es s = .ok none ∨
      ¬ Fails lookup es ∧ ∃ s', build lookup nfds i es s = .ok (some s') ∧ Built lookup i es s s' := by
  induction es generalizing i s with
  | nil =>
    exact .inr ⟨by simp [Fails], s, rfl, rfl, (List.append_nil _).symm, fun _ _ => rfl,
      fun _ _ _ hm => absurd hm List.not_mem_nil⟩
  | cons e es ih =>
    rw [List.length_cons] at h
    rw [fails_cons, build]
    rcases buildOne_spec lookup i e .rcv (show s.pos < nfds * 2 by omega) with
      ⟨ha, hl, hx⟩ | ⟨s₁, hx, hrcv⟩
    · rw [hx]
      exact .inl ⟨.inl ⟨.rcv, ha, hl⟩, rfl⟩
    have hpos₁ := hrcv.pos
    have hlen₁ := @length_place_le i s.pos e .rcv
    rw [hx, ok_bind]
    dsimp only
    rcases buildOne_spec lookup i e .snd (show s₁.pos < nfds * 2 by omega) with
      ⟨ha, hl, hx⟩ | ⟨s₂, hx, hsnd⟩
    · rw [hx]
      exact .inl ⟨.inl ⟨.snd, ha, hl⟩, rfl⟩
    have hpos₂ := hsnd.pos
    have hlen₂ := @length_place_le i s₁.pos e .snd
    rw [hx, ok_bind]
    have hnone : ¬ ∃ d, e.asks d = true ∧ lookup e.fd d = none := by
      rintro ⟨d, ha, hl⟩
      cases d with
      | rcv => exact hrcv.found ha hl
      | snd => exact hsnd.found ha hl
    rcases ih (s := s₂) (i + 1) (by omega) with ⟨hf, hx⟩ | ⟨hf, s₃, hx, hb⟩
    · exact .inl ⟨.inr hf, hx⟩
    · exact .inr ⟨not_or.2 ⟨hnone, hf⟩, s₃, hx, hrcv.cons hsnd hb⟩

/-! #### Reading back -/

/-- One of the positions is for the direction `d` of the entry `i`, and what it was asked is
    reported there. -/
def flagged (l : List FdPlace) (revents : ℕ → BitVec 16) (i : ℕ) (d : Direction) : Bool :=
  l.any fun x => x.1 = i ∧ x.2.1 = d ∧ revents x.2.2 &&& event d ≠ 0

variable {l : List FdPlace} {rv : BitVec 16}

theorem flagged_iff :
    flagged l revents i d = true ↔ ∃ k, (i, d, k) ∈ l ∧ revents k &&& event d ≠ 0 := by
  simp only [flagged, List.any_eq_true, decide_eq_true_eq]
  constructor
  · rintro ⟨⟨_, _, k⟩, hm, rfl, rfl, hk⟩
    exact ⟨k, hm, hk⟩
  · rintro ⟨k, hm, hk⟩
    exact ⟨_, hm, rfl, rfl, hk⟩

/-- Only its own positions tell of an entry. -/
theorem flagged_congr {l l' : List FdPlace} (h : ∀ k, (i, d, k) ∈ l ↔ (i, d, k) ∈ l') :
    flagged l revents i d = flagged l' revents i d := by
  rw [Bool.eq_iff_iff, flagged_iff, flagged_iff]
  simp only [h]

theorem readOne_eq (h : pos < nfds * 2) : readOne nfds revents i e d pos rv =
    .ok (pos + (place i e d pos).length,
      if flagged (place i e d pos) revents i d then rv ||| d.pollBit else rv, place i e d pos) := by
  rw [readOne, place]
  by_cases ha : e.asks d = true
  · rw [if_pos ha, if_pos ha, if_pos h]
    simp [flagged]
  · rw [if_neg ha, if_neg ha]
    rfl

/-- What is told of the first entry, for each direction, and of the others. -/
theorem flagged_places_rcv : flagged (places i (e :: es) pos) revents i .rcv =
    flagged (place i e .rcv pos) revents i .rcv := by
  refine flagged_congr fun k => ?_
  rw [places, List.mem_append, List.mem_append, or_assoc, or_iff_left]
  rintro (hm | hm)
  · cases (mem_place.1 hm).2.1
  · have := (of_mem_places hm).1
    omega

theorem flagged_places_snd : flagged (places i (e :: es) pos) revents i .snd =
    flagged (place i e .snd (pos + (place i e .rcv pos).length)) revents i .snd := by
  refine flagged_congr fun k => ?_
  rw [places, List.mem_append, List.mem_append, or_iff_left, or_iff_right]
  · intro hm
    cases (mem_place.1 hm).2.1
  · intro hm
    have := (of_mem_places hm).1
    omega

theorem flagged_places_tail (k : ℕ) : flagged (places i (e :: es) pos) revents (i + 1 + k) =
    flagged (places (i + 1) es (pos + (place i e .rcv pos).length +
      (place i e .snd (pos + (place i e .rcv pos).length)).length)) revents (i + 1 + k) := by
  funext d
  refine flagged_congr fun k' => ?_
  rw [places, List.mem_append, List.mem_append, or_iff_right]
  rintro (hm | hm)
  · have := (mem_place.1 hm).2.2.1
    omega
  · have := (mem_place.1 hm).2.2.1
    omega

/-- The second loop reads each position for whom it was stored. -/
theorem readBack_eq (h : pos + 2 * es.length ≤ nfds * 2) :
    readBack nfds revents i es pos = .ok (answers i es (flagged (places i es pos) revents),
      (answers i es (flagged (places i es pos) revents)).countP (·.revents ≠ 0), places i es pos) := by
  induction es generalizing i pos with
  | nil => rfl
  | cons e es ih =>
    rw [List.length_cons] at h
    have hlen₁ := @length_place_le i pos e .rcv
    have hlen₂ := @length_place_le i (pos + (place i e .rcv pos).length) e .snd
    rw [readBack, readOne_eq (by omega)]
    simp only [ok_bind]
    rw [readOne_eq (by omega)]
    simp only [ok_bind]
    rw [ih (by omega)]
    have htail : answers (i + 1) es (flagged (places i (e :: es) pos) revents) = answers (i + 1) es _ :=
      answers_congr fun k _ => flagged_places_tail k
    rw [ok_bind, answers_cons, htail, answer, flagged_places_rcv, flagged_places_snd, List.countP_cons,
      places]
    cases flagged (place i e .rcv pos) revents i .rcv <;>
      cases flagged (place i e .snd (pos + (place i e .rcv pos).length)) revents i .snd <;>
      rfl

/-! #### The whole call -/

/-- `nn_poll` returns as it should: where a lookup fails, -1; else it has stored each descriptor asked
    for within `pfd`, and when the system reports events, it has read them where it stored the
    descriptors, and tells which of these are readable. `pfd` is freed. -/
structure Right (lookup : FdLookup) (fds : List NnPollfd) (poll : Outcome) (r : Result) : Prop where
  frees : r.frees = 1
  fails : Fails lookup fds → r.rc = -1
  stored : ∀ i d k, (i, d, k) ∈ r.stored → k < 2 * fds.length ∧
    ∃ e fd, fds[i]? = some e ∧ lookup e.fd d = some fd ∧ (r.pfd k).fd = fd
  tells : ∀ revents, poll = .reported revents → ¬ Fails lookup fds → r.read = r.stored ∧
    Tells fds r.fds r.rc fun i d => ∃ k, (i, d, k) ∈ r.stored ∧ revents k &&& Pollset.pollin ≠ 0

/-- A lookup fails, or nothing that is asked of `poll` is reported, nor that anything is readable. -/
def Silent (lookup : FdLookup) (fds : List NnPollfd) (poll : Outcome) : Prop :=
  Fails lookup fds ∨ ∀ revents, poll = .reported revents → ∀ i d k, (i, d, k) ∈ places 0 fds 0 →
    revents k &&& event d = 0 ∧ revents k &&& Pollset.pollin = 0

/-- No entry tells of anything. -/
theorem countP_answers_eq_zero {flag : ℕ → Direction → Bool} :
    (answers 0 fds flag).countP (·.revents ≠ 0) = 0 ↔
      ∀ i < fds.length, ∀ d, flag i d = false := by
  simp only [List.countP_eq_zero, decide_eq_true_eq, not_not, List.forall_mem_iff_forall_getElem]
  rw [answers]
  simp only [List.length_mapIdx, List.getElem_mapIdx, answer_revents_eq_zero, Nat.zero_add]

/-- What is returned after events have been reported is right if there are none. -/
theorem tells_iff :
    (Tells fds (answers 0 fds (flagged (places 0 fds 0) revents)) 0 fun i d =>
      ∃ k, (i, d, k) ∈ places 0 fds 0 ∧ revents k &&& Pollset.pollin ≠ 0) ↔
      ∀ i d k, (i, d, k) ∈ places 0 fds 0 →
        revents k &&& event d = 0 ∧ revents k &&& Pollset.pollin = 0 := by
  rw [tells_answers_iff]
  constructor
  · rintro ⟨hflag, hrc⟩ i d k hm
    obtain ⟨e, he, ha⟩ := asks_of_mem_places hm
    have hfalse := countP_answers_eq_zero.1 (Int.ofNat.inj hrc).symm i
      (List.getElem?_eq_some_iff.1 he).1 d
    constructor
    · by_contra hk
      rw [flagged_iff.2 ⟨k, hm, hk⟩] at hfalse
      cases hfalse
    · by_contra hk
      rw [(hflag i e he d).2 ⟨ha, k, hm, hk⟩] at hfalse
      cases hfalse
  · intro h
    have hfalse : ∀ i d, flagged (places 0 fds 0) revents i d = false := fun i d => by
      rw [← Bool.not_eq_true, flagged_iff]
      rintro ⟨k, hm, hk⟩
      exact hk (h i d k hm).1
    refine ⟨fun i e _ d => ?_, ?_⟩
    · rw [hfalse]
      exact iff_of_false (by decide) fun ⟨_, k, hm, hk⟩ => hk (h i d k hm).2
    · rw [countP_answers_eq_zero.2 fun i _ d => hfalse i d]
      rfl

theorem right_iff (lookup : FdLookup) (fds : List NnPollfd) (memory : ℕ → PollFd) (poll : Outcome) :
    (∃ r, nnPoll lookup fds memory poll = .ok r ∧ Right lookup fds poll r) ↔
      Silent lookup fds poll := by
  rw [nnPoll, Silent]
  have hroom : (⟨memory, 0, []⟩ : Pfds).pos + 2 * fds.length ≤ fds.length * 2 := by
    dsimp only
    omega
  rcases build_spec lookup 0 fds hroom with ⟨hf, hx⟩ | ⟨hf, s, hx, hb⟩
  · rw [hx]
    exact iff_of_true ⟨_, rfl, rfl, fun _ => rfl, fun _ _ _ hm => absurd hm List.not_mem_nil,
      fun _ _ hnf => absurd hf hnf⟩ (.inl hf)
  rw [hx, ok_bind, or_iff_right hf]
  have hplaces : s.places = places 0 fds 0 := hb.places
  have hstored : ∀ i d k, (i, d, k) ∈ s.places → k < 2 * fds.length ∧
      ∃ e fd, fds[i]? = some e ∧ lookup e.fd d = some fd ∧ (s.pfd k).fd = fd := fun i d k hm => by
    rw [hplaces] at hm
    have hle := length_places_le 0 0 fds
    have := (of_mem_places hm).2.2
    exact ⟨by omega, hb.pfd i d k hm⟩
  cases poll with
  | ended rc =>
    exact iff_of_true ⟨_, rfl, rfl, fun h => absurd h hf, hstored, nofun⟩ nofun
  | reported revents =>
    dsimp only
    rw [readBack_eq (by omega), ok_bind]
    simp only [pure_eq_ok, Except.ok.injEq, Outcome.reported.injEq, forall_eq', ← tells_iff]
    constructor
    · rintro ⟨_, rfl, hr⟩
      have ht := (hr.tells revents rfl hf).2
      dsimp only at ht
      rwa [hplaces] at ht
    · intro hr
      refine ⟨_, rfl, rfl, fun h => absurd h hf, hstored, fun revents' he _ => ?_⟩
      rw [Outcome.reported.injEq] at he
      subst he
      dsimp only
      rw [hplaces]
      exact ⟨rfl, hr⟩

end Posix

/-! ### With `select` -/

namespace Windows

open NnPollfd

variable {lookup : FdLookup} {fdSetsize : ℕ} {fdset : List ℤ} {e : NnPollfd} {es fds : List NnPollfd}
  {d : Direction} {rv : BitVec 16}

/-- What is asked for is found in the set. -/
def told (lookup : FdLookup) (fdset : List ℤ) (e : NnPollfd) (d : Direction) : Bool :=
  e.asks d && (lookup e.fd d).any (· ∈ fdset)

theorem buildOne_eq_none (fdSetsize : ℕ) (fdset : List ℤ) :
    buildOne lookup fdSetsize e d fdset = none ↔ e.asks d = true ∧ lookup e.fd d = none := by
  rw [buildOne]
  by_cases ha : e.asks d = true
  · rw [if_pos ha, Option.map_eq_none_iff]
    exact (and_iff_right ha).symm
  · rw [if_neg ha]
    exact iff_of_false (Option.some_ne_none fdset) fun h => ha h.1

/-- The first loop gets to its end unless a lookup fails. -/
theorem build_eq_none : build lookup fdSetsize es fdset = none ↔ Fails lookup es := by
  induction es generalizing fdset with
  | nil => simp [build, Fails]
  | cons e es ih =>
    have hd : (∃ d, e.asks d = true ∧ lookup e.fd d = none) ↔
        (e.asks .rcv = true ∧ lookup e.fd .rcv = none) ∨
          (e.asks .snd = true ∧ lookup e.fd .snd = none) :=
      ⟨fun ⟨d, h⟩ => by cases d; exacts [.inl h, .inr h], fun h => h.elim (⟨.rcv, ·⟩) (⟨.snd, ·⟩)⟩
    rw [Posix.fails_cons, hd, ← buildOne_eq_none fdSetsize fdset, build]
    cases hrcv : buildOne lookup fdSetsize e .rcv fdset with
    | none => simp
    | some s =>
      rw [← buildOne_eq_none fdSetsize s]
      cases hsnd : buildOne lookup fdSetsize e .snd s with
      | none => simp [hsnd]
      | some s' => simp [hsnd, ih]

theorem readOne_eq (h : ¬ (e.asks d = true ∧ lookup e.fd d = none)) :
    readOne lookup fdset e d rv = some (if told lookup fdset e d then rv ||| d.pollBit else rv) := by
  rw [readOne, told]
  by_cases ha : e.asks d = true
  · obtain ⟨fd, hl⟩ := Option.ne_none_iff_exists'.1 fun hl => h ⟨ha, hl⟩
    simp [ha, hl]
  · simp [ha]

/-- The second loop tells what is found in the set. -/
theorem readBack_eq (h : ¬ Fails lookup es) : readBack lookup fdset es =
    some (es.map fun e => e.answer (told lookup fdset e),
      (es.map fun e => e.answer (told lookup fdset e)).countP (·.revents ≠ 0)) := by
  induction es with
  | nil => rfl
  | cons e es ih =>
    rw [Posix.fails_cons, not_or] at h
    have hnot : ∀ d, ¬ (e.asks d = true ∧ lookup e.fd d = none) := fun d hd => h.1 ⟨d, hd⟩
    rw [readBack, readOne_eq (hnot .rcv), Option.bind_eq_bind, Option.bind_some, readOne_eq (hnot .snd),
      Option.bind_eq_bind, Option.bind_some, ih h.2, List.map_cons, List.countP_cons, answer]
    cases told lookup fdset e .rcv <;> cases told lookup fdset e .snd <;> rfl

theorem told_iff : told lookup fdset e d = true ↔
    e.asks d = true ∧ ∃ fd, lookup e.fd d = some fd ∧ fd ∈ fdset := by
  simp [told, Option.any_eq_true]

/-! #### The set -/

/-- What is put into the set for one direction of an entry. -/
def askedOf (lookup : FdLookup) (e : NnPollfd) (d : Direction) : List ℤ :=
  if e.asks d then (lookup e.fd d).toList else []

/-- The descriptors that are asked for, in order. -/
def asked (lookup : FdLookup) : List NnPollfd → List ℤ
  | [] => []
  | e :: es => askedOf lookup e .rcv ++ askedOf lookup e .snd ++ asked lookup es

theorem mem_askedOf {fd : ℤ} :
    fd ∈ askedOf lookup e d ↔ e.asks d = true ∧ lookup e.fd d = some fd := by
  rw [askedOf]
  split
  · next h => rw [Option.mem_toList, and_iff_right h]
  · next h => exact iff_of_false List.not_mem_nil fun hd => h hd.1

theorem mem_asked {fd : ℤ} :
    fd ∈ asked lookup fds ↔ ∃ e ∈ fds, ∃ d, e.asks d = true ∧ lookup e.fd d = some fd := by
  induction fds with
  | nil => simp [asked]
  | cons e es ih =>
    have hd : (∃ d, e.asks d = true ∧ lookup e.fd d = some fd) ↔
        fd ∈ askedOf lookup e .rcv ∨ fd ∈ askedOf lookup e .snd := by
      rw [mem_askedOf, mem_askedOf]
      exact ⟨fun ⟨d, h⟩ => by cases d; exacts [.inl h, .inr h], fun h => h.elim (⟨.rcv, ·⟩) (⟨.snd, ·⟩)⟩
    simp only [asked, List.mem_append, ih, List.mem_cons, exists_eq_or_imp, hd]

/-- The set takes the first descriptors, each once, until it is full. -/
theorem foldl_fdSet {l : List ℤ} (h : fdset.length ≤ fdSetsize) :
    l.foldl (fdSet fdSetsize) fdset = (fdset ++ (l.removeAll fdset).eraseDups).take fdSetsize := by
  induction l generalizing fdset with
  | nil => simp [List.removeAll, List.take_of_length_le h]
  | cons fd l ih =>
    rw [List.foldl_cons, fdSet]
    by_cases hm : fd ∈ fdset
    · rw [if_pos (.inl hm), ih h]
      simp [List.removeAll, hm]
    · have hcons : (fd :: l).removeAll fdset = fd :: l.removeAll fdset := by
        simp [List.removeAll, hm]
      by_cases hfull : fdSetsize ≤ fdset.length
      · rw [if_pos (.inr hfull), ih h]
        rw [List.take_append_of_le_length hfull, List.take_append_of_le_length hfull]
      · rw [if_neg (by simp [hm, hfull]), ih (by simp; omega), hcons, List.eraseDups_cons,
          List.append_assoc, List.singleton_append]
        -- What is left to put in, with `fd` put in or without it.
        have hleft : l.removeAll (fdset ++ [fd]) = (l.removeAll fdset).filter fun b => !b == fd := by
          simp only [List.removeAll, List.filter_filter]
          refine List.filter_congr fun b _ => ?_
          by_cases hb : b = fd <;> by_cases hbm : b ∈ fdset <;> simp [hb, hbm, hm]
        rw [hleft]

theorem buildOne_eq (h : ¬ (e.asks d = true ∧ lookup e.fd d = none)) :
    buildOne lookup fdSetsize e d fdset =
      some ((askedOf lookup e d).foldl (fdSet fdSetsize) fdset) := by
  rw [buildOne, askedOf]
  by_cases ha : e.asks d = true
  · obtain ⟨fd, hl⟩ := Option.ne_none_iff_exists'.1 fun hl => h ⟨ha, hl⟩
    simp [ha, hl]
  · simp [ha]

theorem build_eq (h : ¬ Fails lookup es) :
    build lookup fdSetsize es fdset = some ((asked lookup es).foldl (fdSet fdSetsize) fdset) := by
  induction es generalizing fdset with
  | nil => rfl
  | cons e es ih =>
    rw [Posix.fails_cons, not_or] at h
    have hnot : ∀ d, ¬ (e.asks d = true ∧ lookup e.fd d = none) := fun d hd => h.1 ⟨d, hd⟩
    rw [build, buildOne_eq (hnot .rcv), Option.bind_eq_bind, Option.bind_some, buildOne_eq (hnot .snd),
      Option.bind_some, ih h.2, asked, List.foldl_append, List.foldl_append]

/-! #### The call -/

/-- `nn_poll` returns as it should: where a lookup fails, -1; else, when the system reports some
    descriptors as readable, it tells which of what is asked for is. -/
structure Right (lookup : FdLookup) (fds : List NnPollfd) (select : Outcome) (r : Result) : Prop where
  fails : Fails lookup fds → r.rc = -1
  tells : ∀ readable, select = .reported readable → ¬ Fails lookup fds →
    Tells fds r.fds r.rc fun i d =>
      ∃ e fd, fds[i]? = some e ∧ lookup e.fd d = some fd ∧ readable fd = true

/-- A lookup fails, or what is readable is among the first descriptors that are asked for, as many
    as the set can hold. -/
def Fits (lookup : FdLookup) (fdSetsize : ℕ) (fds : List NnPollfd) (select : Outcome) : Prop :=
  Fails lookup fds ∨ ∀ readable, select = .reported readable → ∀ fd ∈ asked lookup fds,
    readable fd = true → fd ∈ (asked lookup fds).eraseDups.take fdSetsize

/-- What is found in the set is what is readable if nothing that is has been left out. -/
theorem tells_iff {readable : ℤ → Bool} :
    (Tells fds (fds.map fun e => e.answer (told lookup (fdset.filter readable) e))
      ((fds.map fun e => e.answer (told lookup (fdset.filter readable) e)).countP
        (·.revents ≠ 0) : ℕ) fun i d =>
      ∃ e fd, fds[i]? = some e ∧ lookup e.fd d = some fd ∧ readable fd = true) ↔
      ∀ fd ∈ asked lookup fds, readable fd = true → fd ∈ fdset := by
  constructor
  · intro ht fd hm hr
    obtain ⟨e, he, d, ha, hl⟩ := mem_asked.1 hm
    obtain ⟨i, hi⟩ := List.mem_iff_getElem?.1 he
    have hd := (ht.revents i e _ hi (by rw [List.getElem?_map, hi, Option.map_some])).2.2 d
    rw [answer_revents, told_iff] at hd
    obtain ⟨-, fd', hl', hm'⟩ := hd.2 ⟨ha, e, fd, hi, hl, hr⟩
    obtain rfl : fd = fd' := Option.some.inj (hl.symm.trans hl')
    exact (List.mem_filter.1 hm').1
  · intro h
    refine ⟨List.length_map _, fun i e e' he he' => ?_, rfl⟩
    rw [List.getElem?_map, he, Option.map_some, Option.some.injEq] at he'
    subst he'
    refine ⟨rfl, rfl, fun d => ?_⟩
    rw [answer_revents, told_iff, he]
    simp only [Option.some.injEq, exists_and_left, exists_eq_left', List.mem_filter]
    refine and_congr_right fun ha => exists_congr fun fd => and_congr_right fun hl => ?_
    exact and_iff_right_of_imp fun hr =>
      h fd (mem_asked.2 ⟨e, List.mem_of_getElem? he, d, ha, hl⟩) hr

theorem right_iff (lookup : FdLookup) (fdSetsize : ℕ) (fds : List NnPollfd) (select : Outcome) :
    Right lookup fds select (nnPoll lookup fdSetsize fds select) ↔
      Fits lookup fdSetsize fds select := by
  rw [nnPoll, Fits]
  by_cases hf : Fails lookup fds
  · rw [build_eq_none.2 hf]
    exact iff_of_true ⟨fun _ => rfl, fun _ _ hnf => absurd hf hnf⟩ (.inl hf)
  rw [build_eq hf, foldl_fdSet (Nat.zero_le _), List.nil_append, or_iff_right hf]
  cases select with
  | ended rc =>
    refine iff_of_true ⟨fun h => absurd h hf, nofun⟩ nofun
  | reported readable =>
    dsimp only
    have hnil : (asked lookup fds).removeAll [] = asked lookup fds := by simp [List.removeAll]
    have hright : ∀ r, Right lookup fds (.reported readable) r ↔ Tells fds r.fds r.rc fun i d =>
        ∃ e fd, fds[i]? = some e ∧ lookup e.fd d = some fd ∧ readable fd = true := fun r =>
      ⟨fun h => h.tells readable rfl hf, fun h => ⟨fun h' => absurd h' hf, fun readable' he _ => by
        rw [Outcome.reported.injEq] at he
        exact he ▸ h⟩⟩
    simp only [hright, Outcome.reported.injEq, forall_eq', ← tells_iff]
    by_cases hlen : fds.length ≠ 0
    · rw [if_pos hlen, readBack_eq hf, hnil]
    · obtain rfl := List.length_eq_zero_iff.1 (not_not.1 hlen)
      exact Iff.rfl

end Windows

/-- `nn_poll` is right with `select` where the set holds what is readable, and with `poll` only where it
    has nothing to tell: it then counts the sockets that are ready for nothing, and asks of those that
    are to be sent to whether their descriptor is writable. -/
theorem nnPoll_correct_iff (lookup : FdLookup) (fds : List NnPollfd) (memory : ℕ → PollFd)
    (poll : Posix.Outcome) :
    ((∃ r, Posix.nnPoll lookup fds memory poll = .ok r ∧ Posix.Right lookup fds poll r) ↔
      Posix.Silent lookup fds poll) ∧
    ∀ fdSetsize select, Windows.Right lookup fds select (Windows.nnPoll lookup fdSetsize fds select) ↔
      Windows.Fits lookup fdSetsize fds select :=
  ⟨Posix.right_iff lookup fds memory poll,
    fun fdSetsize select => Windows.right_iff lookup fdSetsize fds select⟩

/-- The 65 sockets whose descriptors are their numbers. -/
def sockets : List NnPollfd := (List.range 65).map fun (fd : ℕ) => ⟨fd, 1, 0⟩

/-- A socket has something to receive, and 0 is returned; and `NN_POLLOUT` is told of one of which
    nothing is reported but that its descriptor is writable. Of 65 sockets that have something to
    receive the last is not told of, where a set holds 64 descriptors. -/
theorem nnPoll_not_correct :
    (¬ ∃ r, Posix.nnPoll (fun _ _ => some 3) [⟨0, 1, 0⟩] (fun _ => ⟨0, 0, 0⟩)
        (.reported fun _ => Pollset.pollin) = .ok r ∧
      Posix.Right (fun _ _ => some 3) [⟨0, 1, 0⟩] (.reported fun _ => Pollset.pollin) r) ∧
    (¬ ∃ r, Posix.nnPoll (fun _ _ => some 3) [⟨0, 2, 0⟩] (fun _ => ⟨0, 0, 0⟩)
        (.reported fun _ => Pollset.pollout) = .ok r ∧
      Posix.Right (fun _ _ => some 3) [⟨0, 2, 0⟩] (.reported fun _ => Pollset.pollout) r) ∧
    ¬ Windows.Right (fun fd _ => some fd) sockets (.reported fun _ => true)
        (Windows.nnPoll (fun fd _ => some fd) 64 sockets (.reported fun _ => true)) := by
  have hf : ∀ fds, ¬ NnPollfd.Fails (fun _ _ => some 3) fds := fun _ ⟨_, _, _, _, hl⟩ => by cases hl
  refine ⟨?_, ?_, fun hr => ?_⟩
  · rintro ⟨r, hx, hr⟩
    obtain rfl := Except.ok.inj hx
    exact absurd (hr.tells _ rfl (hf _)).2.rc (by decide)
  · rintro ⟨r, hx, hr⟩
    obtain rfl := Except.ok.inj hx
    obtain ⟨-, -, hrevents⟩ := (hr.tells _ rfl (hf _)).2.revents 0 ⟨0, 2, 0⟩ ⟨0, 2, 2⟩ rfl rfl
    obtain ⟨-, k, -, hk⟩ := (hrevents .snd).1 (by decide)
    exact absurd hk (by decide)
  · obtain ⟨_, _, _, _, hl⟩ | hr := (Windows.right_iff _ 64 sockets _).1 hr
    · cases hl
    · exact absurd (hr _ rfl 64 (by decide +kernel) rfl) (by decide +kernel)

end Nanomsg
