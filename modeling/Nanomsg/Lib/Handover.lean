import Mathlib.Data.List.Basic
import Mathlib.Tactic.Common

/-!
# Handing messages over

A sender has room for one message. It announces that message to a receiver,
which takes it over at once or *holds it back* until it has room, and then
acknowledges it; only then does the sender take the next one. The receiver
hands out what it has taken over, in order.

`Link.Ok` says where the message under way is, whatever happens to the two
ends. While both of them follow the protocol, `Link.Live` also holds: the
sender is busy only for a reason, and a message is held back only by others.

* `Ok.isPrefix`: what has been received is a prefix of what has been sent;
* the operations `send`, `accept`, `hold`, `retry`, `acknowledge` and `receive`
  keep both (the last only if what is held back is retried), and losing an
  announcement or an acknowledgement keeps `Ok`.
-/

namespace Handover

variable {α : Type*}

/-- One direction of a connection. -/
structure Link (α : Type*) where
  /-- The sender is busy. -/
  busy : Bool
  /-- The announcement of the message is on its way. -/
  announced : Bool
  /-- The receiver holds the message back. -/
  held : Bool
  /-- The acknowledgement is on its way. -/
  acked : Bool
  /-- What the sender has room for. -/
  msg : α
  /-- What the receiver has taken over and not handed out. -/
  queue : List α
  /-- What has been sent and received in all. -/
  sent : List α
  received : List α

namespace Link

/-- The message under way is in one place. -/
structure Ok (l : Link α) : Prop where
  announced : l.announced = true → l.held = false ∧ l.acked = false
  held : l.held = true → l.acked = false
  busy : l.announced = true ∨ l.held = true ∨ l.acked = true → l.busy = true
  /-- It is the next one to take over. -/
  next : l.announced = true ∨ l.held = true → l.sent = l.received ++ l.queue ++ [l.msg]
  /-- Once it is taken over, all that is sent is at the receiver. -/
  taken : l.acked = true ∨ l.busy = false → l.sent = l.received ++ l.queue
  /-- Nothing else is ever taken over. -/
  pre : l.received ++ l.queue <+: l.sent

/-- The sender waits for a reason, and so does a message held back. -/
structure Live (l : Link α) : Prop where
  busy : l.busy = true → l.announced = true ∨ l.held = true ∨ l.acked = true
  held : l.held = true → l.queue ≠ []

variable {l : Link α} {m x : α} {q : List α}

/-- What has been received is what was sent first. -/
theorem Ok.isPrefix (h : l.Ok) : l.received <+: l.sent := (List.prefix_append _ _).trans h.pre

/-- A link nothing has been sent on. -/
theorem ok_new (m : α) : Ok ⟨false, false, false, false, m, [], [], []⟩ := by
  constructor <;> simp

theorem live_new (m : α) : Live ⟨false, false, false, false, m, [], [], []⟩ := by
  constructor <;> simp

/-! ### Operations -/

/-- The sender takes the message `m` and announces it. -/
def send (l : Link α) (m : α) : Link α :=
  { l with busy := true, announced := true, msg := m, sent := l.sent ++ [m] }

/-- The receiver takes over the message announced, leaving `m` in its place. -/
def accept (l : Link α) (m : α) : Link α :=
  { l with announced := false, acked := true, queue := l.queue ++ [l.msg], msg := m }

/-- The receiver holds back the message announced. -/
def hold (l : Link α) : Link α := { l with announced := false, held := true }

/-- The receiver takes over the message held back, leaving `m` in its place. -/
def retry (l : Link α) (m : α) : Link α :=
  { l with held := false, acked := true, queue := l.queue ++ [l.msg], msg := m }

/-- The acknowledgement arrives. -/
def acknowledge (l : Link α) : Link α := { l with busy := false, acked := false }

/-- The receiver hands out `x`, with `q` left. -/
def receive (l : Link α) (x : α) (q : List α) : Link α :=
  { l with queue := q, received := l.received ++ [x] }

/-- The announcement is ignored. -/
def loseAnnouncement (l : Link α) : Link α := { l with announced := false }

/-- The acknowledgement is ignored. -/
def loseAck (l : Link α) : Link α := { l with acked := false }

theorem Ok.of_busy_eq_false (h : l.Ok) (hb : l.busy = false) :
    l.announced = false ∧ l.held = false ∧ l.acked = false := by
  have := h.busy
  rw [hb] at this
  simpa using this

theorem Ok.send (h : l.Ok) (hb : l.busy = false) : (l.send m).Ok where
  announced _ := (h.of_busy_eq_false hb).2
  held hh := absurd hh (by simp [Link.send, (h.of_busy_eq_false hb).2.1])
  busy _ := rfl
  next _ := congrArg (· ++ [m]) (h.taken (.inr hb))
  taken ht := by simp [Link.send, (h.of_busy_eq_false hb).2.2] at ht
  pre := h.pre.trans (List.prefix_append _ _)

theorem Ok.accept (h : l.Ok) (ha : l.announced = true) : (l.accept m).Ok where
  announced hf := absurd hf (by simp [Link.accept])
  held hh := absurd hh (by simp [Link.accept, (h.announced ha).1])
  busy _ := h.busy (.inl ha)
  next hn := by simp [Link.accept, (h.announced ha).1] at hn
  taken _ := by simp [Link.accept, h.next (.inl ha)]
  pre := by simp [Link.accept, h.next (.inl ha)]

theorem Ok.hold (h : l.Ok) (ha : l.announced = true) : l.hold.Ok where
  announced hf := absurd hf (by simp [Link.hold])
  held _ := (h.announced ha).2
  busy _ := h.busy (.inl ha)
  next _ := h.next (.inl ha)
  taken := h.taken
  pre := h.pre

theorem Ok.retry (h : l.Ok) (hh : l.held = true) : (l.retry m).Ok where
  announced ha := absurd (h.announced ha).1 (by simp [hh])
  held hf := absurd hf (by simp [Link.retry])
  busy _ := h.busy (.inr (.inl hh))
  next hn := by
    have ha : l.announced = true := by simpa [Link.retry] using hn
    exact absurd (h.announced ha).1 (by simp [hh])
  taken _ := by simp [Link.retry, h.next (.inr hh)]
  pre := by simp [Link.retry, h.next (.inr hh)]

theorem Ok.acknowledge (h : l.Ok) (ha : l.acked = true) : l.acknowledge.Ok := by
  have hn : l.announced = false := by
    by_contra hn
    exact absurd (h.announced (by simpa using hn)).2 (by simp [ha])
  have hh : l.held = false := by
    by_contra hh
    exact absurd (h.held (by simpa using hh)) (by simp [ha])
  constructor <;> simp [Link.acknowledge, hn, hh, h.taken (.inl ha)]

theorem Ok.receive (h : l.Ok) (hq : l.queue = x :: q) : (l.receive x q).Ok where
  announced := h.announced
  held := h.held
  busy := h.busy
  next hn := by simp [Link.receive, h.next hn, hq]
  taken ht := by simp [Link.receive, h.taken ht, hq]
  pre := by simpa [Link.receive, hq] using h.pre

theorem Ok.loseAnnouncement (h : l.Ok) : l.loseAnnouncement.Ok where
  announced hf := absurd hf (by simp [Link.loseAnnouncement])
  held := h.held
  busy hb := h.busy (.inr (by simpa [Link.loseAnnouncement] using hb))
  next hn := h.next (.inr (by simpa [Link.loseAnnouncement] using hn))
  taken := h.taken
  pre := h.pre

theorem Ok.loseAck (h : l.Ok) : l.loseAck.Ok where
  announced ha := ⟨(h.announced ha).1, rfl⟩
  held _ := rfl
  busy hb := h.busy (by
    rcases hb with hb | hb | hb
    · exact .inl hb
    · exact .inr (.inl hb)
    · exact absurd hb (by simp [Link.loseAck]))
  next := h.next
  taken ht := h.taken (.inr (by simpa [Link.loseAck] using ht))
  pre := h.pre

theorem Live.send (h : l.Live) : (l.send m).Live := ⟨fun _ => .inl rfl, h.held⟩

theorem Live.accept (ho : l.Ok) (ha : l.announced = true) : (l.accept m).Live :=
  ⟨fun _ => .inr (.inr rfl), fun hh => absurd hh (by simp [Link.accept, (ho.announced ha).1])⟩

theorem Live.hold (hq : l.queue ≠ []) : l.hold.Live := ⟨fun _ => .inr (.inl rfl), fun _ => hq⟩

theorem Live.retry : (l.retry m).Live :=
  ⟨fun _ => .inr (.inr rfl), fun hh => absurd hh (by simp [Link.retry])⟩

theorem Live.acknowledge (h : l.Live) : l.acknowledge.Live :=
  ⟨fun hb => absurd hb (by simp [Link.acknowledge]), h.held⟩

theorem Live.receive (h : l.Live) (hh : l.held = false ∨ q ≠ []) : (l.receive x q).Live :=
  ⟨h.busy, fun hh' => hh.resolve_left (by simpa [Link.receive] using hh')⟩

end Link

end Handover
