import Mathlib.Data.List.Nodup
import Mathlib.Logic.Function.Basic
import Mathlib.Tactic.Common
import Nanomsg.Fault

/-!
# `nn_msgqueue`

`msgqueue.c`: the messages an inproc endpoint has received and not yet handed
over. They are kept in chunks of 126 slots, linked in order, between the slot
`in` (the next message out) and the slot `out` (the next message in); a chunk
used up is kept in `cache` for the next one needed.

`Contains q xs` says that the queue `q` is well formed and holds the messages
`xs`: counting its slots from the start of its first chunk, the messages are in
the slots from `in.pos` on. Sending appends to them unless the queue is full,
which an empty queue never is (`Rep.send_ok`), and receiving takes the first
(`Rep.recv_cons`). Every chunk allocated is in the queue, in the cache or freed,
once (`Owned`), so that none is left when the queue is terminated (`term_spec`).
-/

namespace Nanomsg

open Function

/-- `struct nn_msg`, its two parts at their meaning: strings of bytes. -/
structure Message where
  sphdr : List UInt8
  body : List UInt8
  deriving DecidableEq

namespace Message

/-- `nn_msg_init(self, 0)`. -/
def empty : Message := ⟨[], []⟩

/-- `nn_chunkref_size` of both parts, a `size_t`. -/
def size (self : Message) : UInt64 :=
  UInt64.ofNat self.sphdr.length + UInt64.ofNat self.body.length

end Message

/-- `NN_MSGQUEUE_GRANULARITY`. -/
abbrev msgqueueGranularity : ℕ := 126

/-- `struct nn_msgqueue_chunk`. A chunk is a number, and a pointer to one may be null. -/
structure MsgqueueChunk where
  msgs : ℕ → Message
  next : Option ℕ

/-- `struct nn_msgqueue`, with the chunks allocated so far. -/
structure Msgqueue where
  outChunk : Option ℕ
  outPos : ℕ
  inChunk : Option ℕ
  inPos : ℕ
  count : ℕ
  mem : UInt64
  maxmem : UInt64
  cache : Option ℕ
  chunks : ℕ → MsgqueueChunk
  allocs : ℕ
  /-- The chunks given back by `nn_free`. -/
  freed : List ℕ

namespace Msgqueue

/-- `nn_msgqueue_init`. The chunk allocated holds anything. -/
def init (maxmem : UInt64) (msgs : ℕ → Message) : Msgqueue where
  outChunk := some 0
  outPos := 0
  inChunk := some 0
  inPos := 0
  count := 0
  mem := 0
  maxmem := maxmem
  cache := none
  chunks := fun _ => ⟨msgs, none⟩
  allocs := 1
  freed := []

/-- Dereferencing a pointer to a chunk. -/
def deref : Option ℕ → Except Fault ℕ
  | none => .error .nullDeref
  | some c => .ok c

variable (self : Msgqueue)

/-- `nn_msgqueue_empty`. -/
def empty : Bool := if self.count = 0 then true else false

/-- `nn_msg_mv(&self->out.chunk->msgs[self->out.pos], msg)`. -/
def moveIn (msg : Message) : Except Fault Msgqueue := do
  let c ← deref self.outChunk
  let o := self.chunks c
  pure { self with
    chunks := update self.chunks c { o with msgs := update o.msgs self.outPos msg } }

/-- `if (!self->cache) self->cache = nn_alloc(..)`. -/
def fillCache : Msgqueue :=
  match self.cache with
  | some _ => self
  | none => { self with cache := some self.allocs, allocs := self.allocs + 1 }

/-- `self->out.chunk->next = self->cache` and what follows it. -/
def linkOut : Except Fault Msgqueue := do
  let c ← deref self.outChunk
  let o := self.chunks c
  pure { self with
    chunks := update self.chunks c { o with next := self.cache }
    outChunk := self.cache
    cache := none
    outPos := 0 }

/-- `nn_msgqueue_send`. -/
def send (msg : Message) : Except Fault (Msgqueue × ℤ) :=
  if 0 < self.count ∧ self.mem + msg.size ≥ self.maxmem then
    .ok (self, -Errno.eagain)
  else do
    let self := { self with count := self.count + 1, mem := self.mem + msg.size }
    let self ← self.moveIn msg
    let self := { self with outPos := self.outPos + 1 }
    if self.outPos = msgqueueGranularity then do
      let self ← self.fillCache.linkOut
      pure (self, 0)
    else
      pure (self, 0)

/-- `if (!self->cache) self->cache = o else nn_free(o)`. -/
def release (o : ℕ) : Msgqueue :=
  match self.cache with
  | none => { self with cache := some o }
  | some _ => { self with freed := self.freed ++ [o] }

/-- `nn_msgqueue_recv`: what it returns, and the message if that is 0. -/
def recv : Except Fault (Msgqueue × ℤ × Message) :=
  if self.count = 0 then
    .ok (self, -Errno.eagain, Message.empty)
  else do
    let c ← deref self.inChunk
    let msg := (self.chunks c).msgs self.inPos
    let self := { self with inPos := self.inPos + 1 }
    let self := if self.inPos = msgqueueGranularity then
      { self with inChunk := (self.chunks c).next, inPos := 0 }.release c else self
    pure ({ self with count := self.count - 1, mem := self.mem - msg.size }, 0, msg)

/-- `nn_free`. -/
def free (o : Option ℕ) : Msgqueue := { self with freed := self.freed ++ o.toList }

variable {self} in
/-- A message received is one message less. -/
theorem recv_count {q : Msgqueue} {rc : ℤ} {msg : Message} (hx : self.recv = .ok (q, rc, msg)) :
    rc = -Errno.eagain ∨ q.count < self.count := by
  unfold recv at hx
  split at hx
  · simp only [Except.ok.injEq, Prod.mk.injEq] at hx
    exact .inl hx.2.1.symm
  · next hc =>
    obtain ⟨c, -, hx⟩ := bind_eq_ok.1 hx
    simp only [pure_eq_ok, Except.ok.injEq, Prod.mk.injEq] at hx
    obtain ⟨rfl, -, -⟩ := hx
    right
    dsimp only
    split
    · unfold release
      split <;> exact Nat.sub_one_lt hc
    · exact Nat.sub_one_lt hc

/-- The loop of `nn_msgqueue_term`, with the messages it gives to `nn_msg_term`. -/
def drain (self : Msgqueue) : Except Fault (Msgqueue × List Message) :=
  match _hx : self.recv with
  | .error f => .error f
  | .ok (q, rc, msg) =>
    if _he : rc = -Errno.eagain then .ok (q, [])
    else do
      nnAssert (0 ≤ rc)
      let (q, msgs) ← drain q
      pure (q, msg :: msgs)
  termination_by self.count
  decreasing_by exact (recv_count _hx).resolve_left _he

/-- `nn_msgqueue_term`, with the messages terminated. -/
def term : Except Fault (Msgqueue × List Message) := do
  let (self, msgs) ← self.drain
  nnAssert (self.inChunk = self.outChunk)
  let self := self.free self.inChunk
  pure (self.free self.cache, msgs)

/-! ## Contents -/

/-- The slot `p`, counted from the start of the first of the chunks `cs`. -/
def slot (cs : List ℕ) (p : ℕ) : Option Message :=
  cs[p / msgqueueGranularity]?.map fun c => (self.chunks c).msgs (p % msgqueueGranularity)

/-- The queue is the chunks `cs`, linked in order, and holds the messages `xs`. -/
structure Rep (q : Msgqueue) (cs : List ℕ) (xs : List Message) : Prop where
  count : q.count = xs.length
  inPos : q.inPos < msgqueueGranularity
  inChunk : q.inChunk = cs.head?
  outPos : q.outPos = (q.inPos + xs.length) % msgqueueGranularity
  outChunk : q.outChunk = cs.getLast?
  length : cs.length = (q.inPos + xs.length) / msgqueueGranularity + 1
  nodup : cs.Nodup
  next : ∀ k c, cs[k]? = some c → k + 1 < cs.length → (q.chunks c).next = cs[k + 1]?
  slots : ∀ k, k < xs.length → q.slot cs (q.inPos + k) = xs[k]?
  bound : ∀ c ∈ cs, c < q.allocs
  cache : ∀ c, q.cache = some c → c ∉ cs ∧ c < q.allocs

/-- Every chunk allocated is one of `cs`, in the cache or freed, once. -/
def Owned (q : Msgqueue) (cs : List ℕ) : Prop :=
  (cs ++ q.cache.toList ++ q.freed).Perm (List.range q.allocs)

/-- The queue is well formed and holds the messages `xs`. -/
def Contains (q : Msgqueue) (xs : List Message) : Prop := ∃ cs, Rep q cs xs

variable {q : Msgqueue} {cs : List ℕ} {xs : List Message} {m : Message}

theorem contains_init (maxmem : UInt64) (msgs : ℕ → Message) :
    (init maxmem msgs).Contains [] :=
  ⟨[0], rfl, by simp [init, msgqueueGranularity], rfl, rfl, rfl, by simp [init], by simp, by simp, by simp,
    by simp [init], by simp [init]⟩

theorem Contains.empty_eq (h : q.Contains xs) : q.empty = xs.isEmpty := by
  obtain ⟨cs, h⟩ := h
  rw [empty, h.count]
  cases xs <;> simp

/-- An empty queue has nothing to give. -/
theorem recv_nil (h : q.Contains []) : q.recv = .ok (q, -Errno.eagain, Message.empty) := by
  obtain ⟨cs, h⟩ := h
  simp [recv, h.count]

/-- A queue may be full, but not when it is empty. -/
theorem send_full (h : q.Contains xs) (hm : xs ≠ []) (hf : q.mem + m.size ≥ q.maxmem) :
    q.send m = .ok (q, -Errno.eagain) := by
  obtain ⟨cs, h⟩ := h
  have : 0 < q.count := h.count ▸ List.length_pos_of_ne_nil hm
  simp [send, this, hf]

/-! ### Sending -/

theorem slot_congr {q' : Msgqueue} (h : ∀ c ∈ cs, (q'.chunks c).msgs = (q.chunks c).msgs) (p : ℕ) :
    q'.slot cs p = q.slot cs p := by
  rw [slot, slot]
  cases hc : cs[p / msgqueueGranularity]? with
  | none => rfl
  | some c => simp [h c (List.mem_of_getElem? hc)]

/-- A slot is not moved by a chunk put after the last one. -/
theorem slot_concat {p : ℕ} (hp : p / msgqueueGranularity < cs.length) (c : ℕ) :
    q.slot (cs ++ [c]) p = q.slot cs p := by
  rw [slot, slot, List.getElem?_append_left hp]

/-- A slot is a granularity further when a chunk is put before the first one. -/
theorem slot_cons (c p : ℕ) : q.slot (c :: cs) (p + msgqueueGranularity) = q.slot cs p := by
  rw [slot, slot, Nat.add_div_right p (by decide), Nat.add_mod_right, List.getElem?_cons_succ]

/-- The message moved in is in the slot `out`, and no other slot has changed. -/
theorem moveIn_spec (h : Rep q cs xs) (m : Message) (count : ℕ) (mem : UInt64) :
    ∃ c chunks, cs.getLast? = some c ∧
      moveIn { q with count := count, mem := mem } m =
        .ok { q with count := count, mem := mem, chunks := chunks } ∧
      (∀ d, (chunks d).next = (q.chunks d).next) ∧
      ∀ k, k < xs.length + 1 →
        { q with chunks := chunks }.slot cs (q.inPos + k) = (xs ++ [m])[k]? := by
  have hlen := h.length
  obtain ⟨c, hc⟩ : ∃ c, cs[(q.inPos + xs.length) / msgqueueGranularity]? = some c :=
    ⟨_, List.getElem?_eq_getElem (by omega)⟩
  have hlast : cs.getLast? = some c := by
    rw [List.getLast?_eq_getElem?, hlen, Nat.add_sub_cancel, hc]
  refine ⟨c, _, hlast, by simp [moveIn, h.outChunk, hlast, deref]; rfl, fun d => ?_, fun k hk => ?_⟩
  · by_cases hd : d = c
    · subst hd; simp
    · simp [update_of_ne hd]
  · rcases Nat.lt_succ_iff_lt_or_eq.1 hk with hk | rfl
    · -- An earlier slot: of another chunk, or at another position.
      rw [List.getElem?_append_left hk, ← h.slots k hk, slot, slot]
      cases hd : cs[(q.inPos + k) / msgqueueGranularity]? with
      | none => rfl
      | some d =>
        by_cases he : d = c
        · subst he
          have hi : (q.inPos + k) / msgqueueGranularity =
              (q.inPos + xs.length) / msgqueueGranularity :=
            (List.getElem?_inj (List.getElem?_eq_some_iff.1 hd).1 h.nodup).1 (hd.trans hc.symm)
          have hne : (q.inPos + k) % msgqueueGranularity ≠ q.outPos := by
            rw [h.outPos]
            unfold msgqueueGranularity at *
            omega
          simp [update_of_ne hne]
        · simp [update_of_ne he]
    · simp [slot, hc, h.outPos]

/-- The chunk in the cache afterwards is not in use: it was there, or it is new. -/
theorem fillCache_spec (h : Rep q cs xs) :
    ∃ n allocs, n ∉ cs ∧ n < allocs ∧ q.allocs ≤ allocs ∧
      (q.cache = some n ∧ allocs = q.allocs ∨
        q.cache = none ∧ n = q.allocs ∧ allocs = q.allocs + 1) ∧
      ∀ outPos count mem chunks,
        fillCache { q with outPos := outPos, count := count, mem := mem, chunks := chunks } =
          { q with
            outPos := outPos, count := count, mem := mem, chunks := chunks
            cache := some n, allocs := allocs } := by
  cases hc : q.cache with
  | some n =>
    exact ⟨n, q.allocs, (h.cache n hc).1, (h.cache n hc).2, Nat.le_refl _, .inl ⟨rfl, rfl⟩,
      fun _ _ _ _ => by simp only [fillCache]⟩
  | none =>
    exact ⟨q.allocs, q.allocs + 1, fun hm => Nat.lt_irrefl _ (h.bound _ hm), Nat.lt_succ_self _,
      Nat.le_succ _, .inr ⟨rfl, rfl, rfl⟩, fun _ _ _ _ => by simp only [fillCache]⟩

/-- A queue that is not full takes the message. -/
theorem Rep.send_ok (h : Rep q cs xs) (hf : xs = [] ∨ ¬ q.mem + m.size ≥ q.maxmem) :
    ∃ q' cs', q.send m = .ok (q', 0) ∧ Rep q' cs' (xs ++ [m]) ∧
      q'.mem = q.mem + m.size ∧ q'.maxmem = q.maxmem ∧ (Owned q cs → Owned q' cs') := by
  have hguard : ¬ (0 < q.count ∧ q.mem + m.size ≥ q.maxmem) := by
    rintro ⟨h₁, h₂⟩
    rcases hf with rfl | hf
    · simp [h.count] at h₁
    · exact hf h₂
  obtain ⟨c, chunks, hc, hm, hnext, hslots⟩ :=
    moveIn_spec h m (q.count + 1) (q.mem + m.size)
  have hlen := h.length
  have hpos := h.outPos
  have hxs : (xs ++ [m]).length = xs.length + 1 := by simp
  by_cases hend : q.outPos + 1 = msgqueueGranularity
  · -- The chunk is full: the next one is put after it.
    have hpos' : 0 < cs.length := by
      rw [hlen]
      exact Nat.succ_pos _
    obtain ⟨n, allocs, hn, hna, hal, hcache, hfill⟩ := fillCache_spec h
    obtain ⟨i, hi, hci⟩ : ∃ i, i + 1 = cs.length ∧ cs[i]? = some c :=
      ⟨cs.length - 1, Nat.sub_add_cancel hpos', by rw [← hc, List.getLast?_eq_getElem?]⟩
    refine ⟨{ q with
        count := q.count + 1, mem := q.mem + m.size
        chunks := update chunks c { chunks c with next := some n }
        outChunk := some n, outPos := 0, cache := none, allocs := allocs }, cs ++ [n], ?_, ?_, rfl,
      rfl, fun hown => ?_⟩
    · simp only [send, if_neg hguard, hm, ok_bind, hend, if_true, hfill]
      simp only [linkOut, h.outChunk, hc, deref, ok_bind, pure_eq_ok]
    · refine ⟨by simp [h.count], h.inPos, ?_, ?_, by simp, ?_, ?_, fun k d hd hk => ?_,
        fun k hk => ?_, fun d hd => ?_, by simp⟩
      · dsimp only
        rw [h.inChunk, List.head?_append_of_ne_nil]
        exact List.ne_nil_of_length_pos hpos'
      · rw [hxs]
        unfold msgqueueGranularity at *
        dsimp only
        omega
      · rw [List.length_append, List.length_singleton, hxs]
        unfold msgqueueGranularity at *
        dsimp only
        omega
      · exact List.nodup_append.2 ⟨h.nodup, List.nodup_singleton n, fun d hd e he hde =>
          hn (List.mem_singleton.1 he ▸ hde ▸ hd)⟩
      · rw [List.length_append, List.length_singleton] at hk
        have hk' : k < cs.length := by omega
        rw [List.getElem?_append_left hk'] at hd
        rcases Nat.lt_or_ge (k + 1) cs.length with hlt | hge
        · have hdc : d ≠ c := by
            rintro rfl
            have := (List.getElem?_inj hk' h.nodup).1 (hd.trans hci.symm)
            omega
          simp only [update_of_ne hdc, hnext]
          rw [h.next k d hd hlt, List.getElem?_append_left hlt]
        · obtain rfl : k = i := by omega
          obtain rfl : d = c := Option.some.inj (hd.symm.trans hci)
          rw [List.getElem?_append_right hge, hi]
          simp
      · have hk' : k < xs.length + 1 := hxs ▸ hk
        have hp : (q.inPos + k) / msgqueueGranularity < cs.length := by
          unfold msgqueueGranularity at *
          omega
        rw [slot_concat hp, ← hslots k hk']
        refine slot_congr (fun d _ => ?_) _
        by_cases hd : d = c
        · subst hd; simp
        · simp [update_of_ne hd]
      · rcases List.mem_append.1 hd with hd | hd
        · exact Nat.lt_of_lt_of_le (h.bound d hd) hal
        · exact List.mem_singleton.1 hd ▸ hna
    · rcases hcache with ⟨hc', rfl⟩ | ⟨hc', rfl, rfl⟩
      · simpa [Owned, hc'] using hown
      · -- The new chunk is the last one of those allocated.
        have hown : (cs ++ q.freed).Perm (List.range q.allocs) := by simpa [Owned, hc'] using hown
        simp only [Owned, Option.toList_none, List.append_nil, List.range_succ, List.append_assoc]
        have hlast : ([q.allocs] ++ q.freed).Perm (q.freed ++ [q.allocs]) := List.perm_append_comm
        exact (hlast.append_left cs).trans (List.append_assoc cs _ _ ▸ hown.append_right _)
  · refine ⟨{ q with
        count := q.count + 1, mem := q.mem + m.size, chunks := chunks, outPos := q.outPos + 1 },
      cs, ?_, ?_, rfl, rfl, id⟩
    · simp only [send, if_neg hguard, hm, ok_bind, hend, if_false, pure_eq_ok]
    · refine ⟨by simp [h.count], h.inPos, h.inChunk, ?_, h.outChunk, ?_, h.nodup,
        fun k d hd hk => (hnext d).trans (h.next k d hd hk), fun k hk => hslots k (hxs ▸ hk), h.bound,
        h.cache⟩
      · rw [hxs]
        unfold msgqueueGranularity at *
        dsimp only
        omega
      · rw [hxs]
        unfold msgqueueGranularity at *
        dsimp only
        omega

theorem send_ok (h : q.Contains xs) (hf : xs = [] ∨ ¬ q.mem + m.size ≥ q.maxmem) :
    ∃ q', q.send m = .ok (q', 0) ∧ q'.Contains (xs ++ [m]) := by
  obtain ⟨cs, h⟩ := h
  obtain ⟨q', cs', hx, h', -⟩ := h.send_ok hf
  exact ⟨q', hx, cs', h'⟩

/-! ### Receiving -/

/-- The first message, taken off the queue. -/
theorem Rep.recv_cons {x : Message} (h : Rep q cs (x :: xs)) :
    ∃ q' cs', q.recv = .ok (q', 0, x) ∧ Rep q' cs' xs ∧
      q'.mem = q.mem - x.size ∧ q'.maxmem = q.maxmem ∧ (Owned q cs → Owned q' cs') := by
  have hlen := h.length
  have hpos := h.inPos
  have hcount : q.count ≠ 0 := by simp [h.count]
  obtain ⟨c, cs, rfl⟩ : ∃ c cs', cs = c :: cs' :=
    List.exists_cons_of_length_pos (hlen ▸ Nat.succ_pos _)
  have hmsg : (q.chunks c).msgs q.inPos = x := by
    have := h.slots 0 (by simp)
    rw [slot, Nat.add_zero, Nat.div_eq_of_lt hpos, Nat.mod_eq_of_lt hpos] at this
    simpa using this
  have hslots : ∀ k, k < xs.length → q.slot (c :: cs) (q.inPos + 1 + k) = xs[k]? := fun k hk => by
    have := h.slots (k + 1) (by simpa using hk)
    rwa [List.getElem?_cons_succ, show q.inPos + (k + 1) = q.inPos + 1 + k by omega] at this
  rw [List.length_cons, List.length_cons] at hlen
  by_cases hend : q.inPos + 1 = msgqueueGranularity
  · -- The chunk is used up: `in` goes to the next one.
    obtain ⟨d, cs, rfl⟩ : ∃ d cs', cs = d :: cs' := by
      refine List.exists_cons_of_length_pos ?_
      unfold msgqueueGranularity at *
      omega
    have hnext : (q.chunks c).next = some d := h.next 0 c rfl (by simp)
    have hnodup := List.nodup_cons.1 h.nodup
    have hrelease : ∃ cache freed, ∀ count mem,
        release { q with inPos := 0, inChunk := some d, count := count, mem := mem } c =
          { q with
            inPos := 0, inChunk := some d, count := count, mem := mem
            cache := cache, freed := freed } ∧
        (q.cache = none ∧ cache = some c ∧ freed = q.freed ∨
          cache = q.cache ∧ freed = q.freed ++ [c]) := by
      cases hc : q.cache with
      | none =>
        exact ⟨some c, q.freed, fun _ _ => ⟨by simp only [release], .inl ⟨rfl, rfl, rfl⟩⟩⟩
      | some e =>
        exact ⟨some e, q.freed ++ [c], fun _ _ => ⟨by simp only [release], .inr ⟨rfl, rfl⟩⟩⟩
    obtain ⟨cache, freed, hrelease⟩ := hrelease
    refine ⟨{ q with
        inPos := 0, inChunk := some d, count := q.count - 1, mem := q.mem - x.size
        cache := cache, freed := freed }, d :: cs, ?_, ?_, rfl, rfl, fun hown => ?_⟩
    · simp only [recv, if_neg hcount, h.inChunk, List.head?_cons, deref, ok_bind, hmsg, hend,
        if_true, hnext, (hrelease q.count q.mem).1, pure_eq_ok]
    · refine ⟨by simp [h.count], Nat.succ_pos 125, rfl, ?_, ?_, ?_, hnodup.2, fun k e he hk => ?_,
        fun k hk => ?_, fun e he => h.bound e (List.mem_cons_of_mem c he), fun e he => ?_⟩
      · rw [h.outPos, List.length_cons]
        unfold msgqueueGranularity at *
        dsimp only
        omega
      · exact h.outChunk.trans List.getLast?_cons_cons
      · unfold msgqueueGranularity at *
        dsimp only
        omega
      · exact h.next (k + 1) e he (Nat.succ_lt_succ hk)
      · have := hslots k hk
        rw [hend, Nat.add_comm, slot_cons] at this
        exact (congrArg (q.slot (d :: cs)) (Nat.zero_add k)).trans this
      · rcases (hrelease 0 0).2 with ⟨-, hc, -⟩ | ⟨hc, -⟩
        · obtain rfl : c = e := Option.some.inj (hc.symm.trans he)
          exact ⟨hnodup.1, h.bound c List.mem_cons_self⟩
        · obtain ⟨h₁, h₂⟩ := h.cache e (hc.symm.trans he)
          exact ⟨fun hm => h₁ (List.mem_cons_of_mem c hm), h₂⟩
    · refine (List.Perm.trans ?_ hown :)
      rcases (hrelease 0 0).2 with ⟨hc, rfl, rfl⟩ | ⟨rfl, rfl⟩
      · simp only [hc, Option.toList_some, Option.toList_none, List.append_nil]
        exact List.perm_append_comm.append_right _
      · rw [← List.append_assoc]
        exact (List.perm_append_comm : List.Perm (_ ++ [c]) ([c] ++ _))
  · refine ⟨{ q with inPos := q.inPos + 1, count := q.count - 1, mem := q.mem - x.size },
      c :: cs, ?_, ⟨by simp [h.count], ?_, h.inChunk, ?_, h.outChunk, ?_, h.nodup, h.next, hslots,
      h.bound, h.cache⟩, rfl, rfl, id⟩
    · simp only [recv, if_neg hcount, h.inChunk, List.head?_cons, deref, ok_bind, hmsg,
        if_neg hend, pure_eq_ok]
    · exact Nat.lt_of_le_of_ne hpos hend
    · rw [h.outPos, List.length_cons]
      dsimp only
      congr 1
      omega
    · rw [List.length_cons, hlen]
      dsimp only
      congr 2
      omega

theorem recv_cons {x : Message} (h : q.Contains (x :: xs)) :
    ∃ q', q.recv = .ok (q', 0, x) ∧ q'.Contains xs := by
  obtain ⟨cs, h⟩ := h
  obtain ⟨q', cs', hx, h', -⟩ := h.recv_cons
  exact ⟨q', hx, cs', h'⟩

/-! ### Terminating -/

/-- The loop takes all the messages, and leaves one chunk. -/
theorem Rep.drain_spec (h : Rep q cs xs) (hown : Owned q cs) :
    ∃ q' c, q.drain = .ok (q', xs) ∧ Rep q' [c] [] ∧ Owned q' [c] := by
  induction xs generalizing q cs with
  | nil =>
    obtain ⟨c, rfl⟩ : ∃ c, cs = [c] := by
      refine List.length_eq_one_iff.1 (h.length.trans ?_)
      rw [List.length_nil, Nat.add_zero q.inPos, Nat.div_eq_of_lt h.inPos]
    refine ⟨q, c, ?_, h, hown⟩
    rw [drain, recv_nil ⟨_, h⟩]
    simp
  | cons x xs ih =>
    obtain ⟨q₁, cs₁, hx, h₁, -, -, hown₁⟩ := h.recv_cons
    obtain ⟨q', c, hd, h', hown'⟩ := ih h₁ (hown₁ hown)
    refine ⟨q', c, ?_, h', hown'⟩
    rw [drain, hx]
    simp [hd, Errno.eagain]

/-- Terminating the queue gives up each message and frees each chunk, once. -/
theorem Rep.term_spec (h : Rep q cs xs) (hown : Owned q cs) :
    ∃ q', q.term = .ok (q', xs) ∧ q'.freed.Perm (List.range q'.allocs) := by
  obtain ⟨q', c, hd, h', hown'⟩ := h.drain_spec hown
  have hin : q'.inChunk = some c := h'.inChunk
  have hout : q'.outChunk = some c := h'.outChunk
  refine ⟨(q'.free (some c)).free q'.cache, ?_, ?_⟩
  · simp [term, hd, hin, hout, free]
  · refine (List.Perm.trans ?_ hown' :)
    simp only [free, Option.toList_some, List.append_assoc]
    exact List.perm_append_comm.trans (List.append_assoc _ _ _ ▸ .refl _)

end Msgqueue

end Nanomsg
