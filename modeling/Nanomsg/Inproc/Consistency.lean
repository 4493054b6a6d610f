import Nanomsg.Inproc.Counting

/-!
# Consistent statistics

The statistics of the sockets in runs of any number of inproc endpoints: each
connection is counted once on either side, as accepted where the endpoint binds and
as established where it connects, and a connecting endpoint is in progress as long
as it has no connection (`Consistent`).

`counting_iff`: this holds in a run exactly if no connecting endpoint finds a bound
one when it is created, `CONNECT` is delivered only to connecting endpoints that
have no connection, and none of these is stopped. It is so whatever
`nn_sinproc_connect` does, and so with the one there is, which comes to its end for no
sinproc.
-/

namespace Nanomsg

open Function Transition Sinproc

namespace Counting

variable {ε σ : Type} [DecidableEq ε] [DecidableEq σ] (S : Sockets ε σ) (s : Counting ε σ)

/-- How many sinprocs have been made for endpoints of the socket that are of the
    kind. -/
def formed (kind : EndpointKind) (k : σ) : ℕ := s.made.countP fun x => S.sock x = k ∧ S.kind x = kind

/-- How many connecting endpoints of the socket have no connection. -/
def unconnected (k : σ) : ℕ :=
  s.tran.connected.countP fun x => S.sock x = k ∧ s.connections x = []

/-- The statistics are what they should be. -/
structure Consistent : Prop where
  accepted : ∀ k, (s.stats k).counter .acceptedConnections = .ofNat (s.formed S .binproc k)
  established : ∀ k, (s.stats k).counter .establishedConnections = .ofNat (s.formed S .cinproc k)
  inprogress : ∀ k, (s.stats k).gauge .inprogressConnections = s.unconnected S k

/-- The actions that are counted as they should be. -/
def Counted : CountAction ε → Prop
  | .create x => S.kind x = .cinproc → NnIns.found S.eps x s.tran.bound = []
  | .connect x _ => S.kind x = .cinproc ∧ s.connections x = []
  | .stop x => S.kind x = .cinproc → s.connections x ≠ []
  | .disconnect _ _ | .stopped _ _ | .sinprocs _ => True

open Transport Stopping

variable {S} {s s' : Counting ε σ} {w w' : Transport ε} {e : Endpoint} {x : ε} {i : ℕ}

/-! ## Counting -/

section

omit [DecidableEq σ] [DecidableEq ε] in
/-- Counting the elements of a list by two predicates that differ at one of them. -/
theorem countP_change [DecidableEq ε] {l : List ε} {p q : ε → Bool} (hn : l.Nodup) (hx : x ∈ l)
    (h : ∀ y ≠ x, p y = q y) :
    l.countP p + (if q x then 1 else 0) = l.countP q + if p x then 1 else 0 := by
  have herase : (l.erase x).countP p = (l.erase x).countP q :=
    List.countP_congr fun y hy => by rw [h y (hn.mem_erase_iff.1 hy).1]
  -- Away from `x` the predicates count alike.
  rw [(List.perm_cons_erase hx).countP_eq p, (List.perm_cons_erase hx).countP_eq q, List.countP_cons,
    List.countP_cons, herase]
  omega

variable {k : σ} {kind : EndpointKind}

omit [DecidableEq ε] in
/-- One more sinproc is made. -/
theorem formed_append {n : ℕ} (hs : s'.made = s.made ++ List.replicate n x) :
    s'.formed S kind k = s.formed S kind k + if S.sock x = k ∧ S.kind x = kind then n else 0 := by
  simp [formed, hs, List.countP_replicate]

omit [DecidableEq ε] in
/-- How many endpoints are unconnected depends on the registry and their connections. -/
theorem unconnected_congr (hr : s'.tran.connected = s.tran.connected)
    (hc : ∀ y ∈ s.tran.connected, s'.connections y = s.connections y) :
    s'.unconnected S k = s.unconnected S k := by
  simp only [unconnected, hr]
  exact List.countP_congr fun y hy => by rw [hc y hy]

/-- The connections of one endpoint change. -/
theorem unconnected_update (hr : s'.tran.connected = s.tran.connected)
    (hn : s.tran.connected.Nodup) (hx : x ∈ s.tran.connected)
    (hc : ∀ y ≠ x, s'.connections y = s.connections y) :
    s'.unconnected S k + (if S.sock x = k ∧ s.connections x = [] then 1 else 0) =
      s.unconnected S k + if S.sock x = k ∧ s'.connections x = [] then 1 else 0 := by
  simp only [unconnected, hr]
  have := countP_change (p := fun y => decide (S.sock y = k ∧ s'.connections y = []))
    (q := fun y => decide (S.sock y = k ∧ s.connections y = [])) hn hx fun y hy => by rw [hc y hy]
  simpa using this

omit [DecidableEq ε] in
/-- An endpoint registers, and has no connections yet. -/
theorem unconnected_append (hr : s'.tran.connected = s.tran.connected ++ [x])
    (hc : s'.connections = s.connections) (hx : s.connections x = []) :
    s'.unconnected S k = s.unconnected S k + if S.sock x = k then 1 else 0 := by
  simp [unconnected, hr, hc, List.countP_append, List.countP_cons, hx]

/-- An endpoint is taken out of the registry. -/
theorem unconnected_erase (hr : s'.tran.connected = s.tran.connected.erase x)
    (hx : x ∈ s.tran.connected) (hc : s'.connections = s.connections) :
    s.unconnected S k = s'.unconnected S k +
      if S.sock x = k ∧ s.connections x = [] then 1 else 0 := by
  simp only [unconnected, hr, hc]
  rw [(List.perm_cons_erase hx).countP_eq, List.countP_cons]
  simp

end

/-! ## The invariant -/

variable (S) in
/-- What is known of the endpoint `x`. One that connects has one connection at most. -/
structure At (s : Counting ε σ) (x : ε) : Prop where
  kind : ∀ e, s.tran.object x = some e → e.kind = S.kind x
  none : s.tran.object x = none → x ∉ s.tran.connected ∧ s.connections x = []
  numbered : ∀ e, s.tran.object x = some e → ∀ i ∈ e.sinprocs, i < s.tran.allocs
  active : ∀ e, s.tran.object x = some e → S.kind x = .cinproc → e.fsm = .active →
    x ∈ s.tran.connected
  connects : x ∈ s.tran.connected → S.kind x = .cinproc
  one : S.kind x = .cinproc → (s.connections x).length ≤ 1

variable (S) in
/-- The statistics are consistent. -/
structure Held (s : Counting ε σ) : Prop where
  consistent : Consistent S s
  each : ∀ x, At S s x
  nodup : s.tran.connected.Nodup
  few : ∀ k, ((s.tran.connected.countP fun y => S.sock y = k) : ℤ) ≤ Sock.intMax

section

variable {calls : List (ε × Statistic × ℤ)} {stats : σ → SockStatistics} {a : CountAction ε} {k : σ}

omit [DecidableEq ε] [DecidableEq σ] in
/-- An endpoint is not concerned by what happens to another one. -/
theorem At.frame {y : ε} (h : At S s y) (ho : s'.tran.object y = s.tran.object y)
    (hc : s'.connections y = s.connections y)
    (hr : y ∈ s'.tran.connected ↔ y ∈ s.tran.connected) (ha : s.tran.allocs ≤ s'.tran.allocs) :
    At S s' y where
  kind e he := h.kind e (ho ▸ he)
  none he := by
    rw [hr, hc]
    exact h.none (ho ▸ he)
  numbered e he i hi := Nat.lt_of_lt_of_le (h.numbered e (ho ▸ he) i hi) ha
  active e he hk hf := hr.2 (h.active e (ho ▸ he) hk hf)
  connects hy := h.connects (hr.1 hy)
  one hk := by
    rw [hc]
    exact h.one hk

omit [DecidableEq ε] in
theorem Begun.held (h : Begun s) : Held S s where
  consistent := ⟨by simp [h.stats, SockStatistics.init, formed, h.made],
    by simp [h.stats, SockStatistics.init, formed, h.made],
    by simp [h.stats, SockStatistics.init, unconnected, h.connected]⟩
  each x := ⟨by simp [h.object], fun _ => by simp [h.connected, h.connections], by simp [h.object],
    by simp [h.object], by simp [h.connected], by simp [h.connections]⟩
  nodup := by simp [h.connected]
  few := by simp [h.connected]

omit [DecidableEq ε] in
theorem unconnected_le (s : Counting ε σ) (k : σ) :
    s.unconnected S k ≤ s.tran.connected.countP fun y => S.sock y = k :=
  List.countP_mono_left fun y _ hy => by simpa using (of_decide_eq_true hy).1

omit [DecidableEq ε] in
/-- The gauge does not exceed what it may hold. -/
theorem Held.gauge_le (h : Held S s) (k : σ) :
    (s.stats k).gauge .inprogressConnections ≤ Sock.intMax := by
  rw [h.consistent.inprogress k]
  have hle := unconnected_le (S := S) s k
  have hfew := h.few k
  omega

/-- What an action does to the statistics and to what is known. -/
theorem exec_ok (ha : act S s.tran a = .ok w) (hs : w.stats = s.tran.stats ++ calls)
    (ht : calls.foldlM (tell S) s.stats = .ok stats) :
    exec S s a = .ok { s.note w a with stats := stats } := by
  have htally : tally S s.tran w s.stats = .ok stats := by
    rw [tally, hs, List.drop_left, ht]
  simp only [exec, ha, ok_bind, htally, pure_eq_ok]

theorem exec_of_ok (ha : act S s.tran a = .ok w) (hs : w.stats = s.tran.stats ++ calls)
    (hx : exec S s a = .ok s') : ∃ stats, calls.foldlM (tell S) s.stats = .ok stats ∧
      s' = { s.note w a with stats := stats } := by
  have htally : tally S s.tran w s.stats = calls.foldlM (tell S) s.stats := by
    rw [tally, hs, List.drop_left]
  simp only [exec, ha, ok_bind, htally] at hx
  split at hx
  · next stats ht => exact ⟨stats, ht, (Except.ok.inj hx).symm⟩
  · simp [Transport.fail] at hx

omit [DecidableEq ε] in
/-- Nothing is counted, and as many endpoints have no connection. -/
theorem Consistent.of_eq (h : Consistent S s) (hs : s'.stats = s.stats) (hm : s'.made = s.made)
    (hu : ∀ k, s'.unconnected S k = s.unconnected S k) : Consistent S s' where
  accepted k := by
    rw [hs, formed, hm]
    exact h.accepted k
  established k := by
    rw [hs, formed, hm]
    exact h.established k
  inprogress k := by rw [hs, hu, h.inprogress]

omit [DecidableEq ε] in
/-- One endpoint more has no connection. -/
theorem Consistent.up (h : Consistent S s) (hs : s'.stats = shift s.stats (S.sock x) 1)
    (hm : s'.made = s.made)
    (hu : ∀ k, s'.unconnected S k = s.unconnected S k + if S.sock x = k then 1 else 0) :
    Consistent S s' where
  accepted k := by
    rw [hs, shift_counter, formed, hm]
    exact h.accepted k
  established k := by
    rw [hs, shift_counter, formed, hm]
    exact h.established k
  inprogress k := by
    rw [hs, shift_gauge, hu, h.inprogress]
    by_cases hk : S.sock x = k <;> simp [hk]

omit [DecidableEq ε] in
/-- The invariant is kept by what concerns one endpoint only. -/
theorem Held.of_step (h : Held S s) (hcons : Consistent S s') (hx : At S s' x)
    (ho : ∀ y ≠ x, s'.tran.object y = s.tran.object y)
    (hc : ∀ y ≠ x, s'.connections y = s.connections y)
    (hr : ∀ y ≠ x, (y ∈ s'.tran.connected ↔ y ∈ s.tran.connected))
    (ha : s.tran.allocs ≤ s'.tran.allocs) (hn : s'.tran.connected.Nodup)
    (hf : ∀ k, ((s'.tran.connected.countP fun y => S.sock y = k) : ℤ) ≤ Sock.intMax) : Held S s' := by
  refine ⟨hcons, fun y => ?_, hn, hf⟩
  by_cases hy : y = x
  · exact hy ▸ hx
  · exact (h.each y).frame (ho y hy) (hc y hy) (hr y hy) ha

omit [DecidableEq ε] [DecidableEq σ] in
/-- The endpoint goes on with no other sinprocs or connections. -/
theorem At.of_object {e' : Endpoint} (h : At S s x) (ho : s.tran.object x = some e)
    (ho' : s'.tran.object x = some e') (hk : e'.kind = e.kind)
    (hi : ∀ j ∈ e'.sinprocs, j ∈ e.sinprocs) (ha : s'.tran.allocs = s.tran.allocs)
    (hactive : S.kind x = .cinproc → e'.fsm = .active → x ∈ s'.tran.connected)
    (hr : x ∈ s'.tran.connected → x ∈ s.tran.connected)
    (hc : (s'.connections x).length ≤ (s.connections x).length) : At S s' x where
  kind e₁ ho₁ := by
    obtain rfl := Option.some.inj (ho'.symm.trans ho₁)
    exact hk.trans (h.kind e ho)
  none hn := by simp [ho'] at hn
  numbered e₁ ho₁ j hj := by
    obtain rfl := Option.some.inj (ho'.symm.trans ho₁)
    exact ha ▸ h.numbered e ho j (hi j hj)
  active e₁ ho₁ hk hf := by
    obtain rfl := Option.some.inj (ho'.symm.trans ho₁)
    exact hactive hk hf
  connects hx := h.connects (hr hx)
  one hk := Nat.le_trans hc (h.one hk)

/-! ### Creating -/

omit [DecidableEq σ] in
theorem act_create (h : act S w (.create x) = .ok w') : ∃ rc, create S w x = .ok (w', rc) := by
  simp only [act, bind_eq_ok] at h
  obtain ⟨⟨w₁, rc⟩, hc, h⟩ := h
  obtain rfl := Except.ok.inj h
  exact ⟨rc, hc⟩

omit [DecidableEq σ] [DecidableEq ε] in
/-- The sinprocs made since are those numbered from then on. -/
theorem madeSince_eq {l : List ℕ} (h : w'.object x = some e)
    (hi : e.sinprocs = l ++ List.range' w.allocs i) (hlt : ∀ j ∈ l, j < w.allocs) :
    madeSince w w' x = List.range' w.allocs i := by
  rw [madeSince, sinprocs_eq h, hi, List.filter_append]
  rw [List.filter_eq_nil_iff.2 fun j hj => by simpa using hlt j hj, List.nil_append]
  exact List.filter_eq_self.2 fun j hj => by simpa using (List.mem_range'_1.1 hj).1

/-- A binding endpoint is created. -/
theorem Held.create_binproc (h : Held S s) (hk : S.kind x = .binproc)
    (he : enabled S s (.create x)) : ∃ s', exec S s (.create x) = .ok s' ∧ Held S s' := by
  obtain ⟨hnone, -, w, ha⟩ := he
  obtain ⟨rc, hcreate⟩ := act_create ha
  obtain ⟨hnot, hconn⟩ := (h.each x).none hnone
  obtain ⟨n, hobj, hothers, hallocs, hreg, hstats⟩ := Counting.create_binproc hk hcreate
  -- None have been made if the address was in use.
  have hmade : madeSince s.tran w x = List.range' s.tran.allocs n := by
    rcases hobj with ⟨ho, rfl⟩ | ho
    · simp [madeSince, Stopping.sinprocs, ho]
    · exact madeSince_eq (l := []) ho rfl (by simp)
  refine ⟨_, exec_ok ha hstats (tell_accepted n), ?_⟩
  simp only [note, hmade, List.length_range', hconn, List.nil_append]
  have hmem : ∀ y ∈ s.tran.connected, y ≠ x := fun y hy => ne_of_mem_of_not_mem hy hnot
  refine h.of_step (x := x) ⟨fun k => ?_, fun k => ?_, fun k => ?_⟩ ?_ hothers
    (fun y hy => update_of_ne hy _ _) (fun y _ => by rw [hreg]) (by simp [hallocs])
    (by simpa only [hreg] using h.nodup) (by simpa only [hreg] using h.few)
  · rw [formed_append (s := s) rfl, bump_counter, h.consistent.accepted]
    by_cases hs : S.sock x = k <;> simp [hs, hk]
  · rw [formed_append (s := s) rfl, bump_counter, h.consistent.established]
    simp [hk]
  · rw [bump_gauge, h.consistent.inprogress]
    exact congrArg Nat.cast (unconnected_congr (s := s) hreg fun y hy =>
      update_of_ne (hmem y hy) _ _).symm
  · refine ⟨fun e ho => ?_, fun ho => ?_, fun e ho i hi => ?_, fun e ho hc => by simp [hk] at hc,
      fun hx => absurd (hreg ▸ hx) hnot, fun hc => by simp [hk] at hc⟩
    · rcases hobj with ⟨hn, -⟩ | hs
      · simp [hn] at ho
      · exact Option.some.inj (hs.symm.trans ho) ▸ hk.symm
    · rcases hobj with ⟨-, rfl⟩ | hs
      · exact ⟨hreg ▸ hnot, update_self _ _ _⟩
      · simp [hs] at ho
    · rcases hobj with ⟨hn, -⟩ | hs
      · simp [hn] at ho
      · obtain rfl := Option.some.inj (hs.symm.trans ho)
        exact hallocs ▸ (List.mem_range'_1.1 hi).2

/-- A connecting endpoint is created, and finds none to connect to. -/
theorem Held.create_cinproc (h : Held S s) (hk : S.kind x = .cinproc)
    (hf : NnIns.found S.eps x s.tran.bound = []) (he : enabled S s (.create x)) :
    ∃ s', exec S s (.create x) = .ok s' ∧ Held S s' := by
  obtain ⟨hnone, hfew, w, ha⟩ := he
  obtain ⟨rc, hcreate⟩ := act_create ha
  obtain ⟨hnot, hconn⟩ := (h.each x).none hnone
  rw [Counting.create_cinproc hk, hf] at hcreate
  obtain ⟨rfl, -⟩ := Prod.mk.inj (Except.ok.inj hcreate)
  -- It is one of at most `INT_MAX` endpoints of its socket.
  have hup : (s.stats (S.sock x)).gauge .inprogressConnections < Sock.intMax := by
    rw [h.consistent.inprogress]
    have hle := unconnected_le (S := S) s (S.sock x)
    omega
  obtain ⟨s', hx, htran, hst, hmd, hcn⟩ : ∃ s', exec S s (.create x) = .ok s' ∧
      s'.tran = { s.tran with
        object := update s.tran.object x (some ⟨.cinproc, .active, .active, []⟩)
        connected := s.tran.connected ++ [x]
        stats := s.tran.stats ++ [(x, .inprogressConnections, 1)] } ∧
      s'.stats = shift s.stats (S.sock x) 1 ∧ s'.made = s.made ∧ s'.connections = s.connections := by
    refine ⟨_, exec_ok ha rfl (tell_up hup), rfl, rfl, ?_, ?_⟩ <;>
      simp [note, madeSince, Stopping.sinprocs]
  refine ⟨s', hx, h.of_step (x := x) (h.consistent.up hst hmd fun k => ?_) ?_
    (fun y hy => by simp [htran, hy]) (fun y _ => by rw [hcn]) (fun y hy => by simp [htran, hy])
    (by simp [htran]) ?_ fun k => ?_⟩
  · exact unconnected_append (by rw [htran]) hcn hconn
  · constructor <;> simp [htran, hcn, hk, hconn]
  · rw [htran]
    exact List.nodup_append.2 ⟨h.nodup, List.nodup_singleton _, fun y hy z hz => by
      rw [List.mem_singleton.1 hz]
      exact ne_of_mem_of_not_mem hy hnot⟩
  · have hfk := h.few k
    simp only [htran, List.countP_append, List.countP_singleton, decide_eq_true_eq]
    by_cases hs : S.sock x = k
    · subst hs
      simp only [if_true]
      omega
    · simpa [hs] using hfk

/-! ### Events -/

/-- `CONNECT` comes to a connecting endpoint that has no connection. -/
theorem Held.connect (h : Held S s) (hk : S.kind x = .cinproc) (hc : s.connections x = [])
    (he : enabled S s (.connect x i)) : ∃ s', exec S s (.connect x i) = .ok s' ∧ Held S s' := by
  obtain ⟨⟨e, ho, hf, hs⟩, hev⟩ := he
  have hat := h.each x
  have hx : x ∈ s.tran.connected := hat.active e ho hk hf
  obtain ⟨w, ha, hobj, hothers, hallocs, hreg, hstats⟩ := connect_ok (S := S) ho hf hs hev
  rw [(hat.kind e ho).trans hk] at hstats
  -- It is itself in progress.
  have hpos : 0 < (s.stats (S.sock x)).gauge .inprogressConnections := by
    rw [h.consistent.inprogress, Int.natCast_pos]
    exact List.countP_pos_iff.2 ⟨x, hx, by simp [hc]⟩
  have hcalls : [(x, Statistic.inprogressConnections, -1), (x, Statistic.establishedConnections, 1)].foldlM
      (tell S) s.stats =
      .ok (bump (shift s.stats (S.sock x) (-1)) (S.sock x) .establishedConnections 1) := by
    simp only [List.foldlM_cons, List.foldlM_nil, tell_down hpos (h.gauge_le _), ok_bind,
      tell_established, pure_eq_ok]
  have hmade : madeSince s.tran w x = [s.tran.allocs] :=
    madeSince_eq (i := 1) hobj rfl (hat.numbered e ho)
  obtain ⟨s', hx', htran, hst, hmd, hcn⟩ : ∃ s', exec S s (.connect x i) = .ok s' ∧ s'.tran = w ∧
      s'.stats = bump (shift s.stats (S.sock x) (-1)) (S.sock x) .establishedConnections 1 ∧
      s'.made = s.made ++ List.replicate 1 x ∧
      s'.connections = update s.connections x [s.tran.allocs] := by
    refine ⟨_, exec_ok ha hstats hcalls, rfl, rfl, ?_, ?_⟩ <;> simp [note, hmade, hc]
  refine ⟨s', hx', h.of_step (x := x) ⟨fun k => ?_, fun k => ?_, fun k => ?_⟩ ?_
    (fun y hy => htran ▸ hothers y hy) (fun y hy => by simp [hcn, hy]) (fun y _ => by rw [htran, hreg])
    (by simp [htran, hallocs]) (by simpa only [htran, hreg] using h.nodup)
    (by simpa only [htran, hreg] using h.few)⟩
  · rw [hst, formed_append hmd, bump_counter, shift_counter, h.consistent.accepted]
    simp [hk]
  · rw [hst, formed_append hmd, bump_counter, shift_counter, h.consistent.established]
    by_cases hs : S.sock x = k <;> simp [hs, hk]
  · have hu := unconnected_update (S := S) (k := k) (htran ▸ hreg) h.nodup hx
      fun y hy => by simp [hcn, hy]
    rw [hst, bump_gauge, shift_gauge, h.consistent.inprogress]
    simp only [hc, hcn, update_self, and_true, List.cons_ne_nil, and_false, if_false] at hu
    by_cases hs : S.sock x = k
    · simp only [hs, if_true] at hu ⊢
      omega
    · simp only [hs, if_false] at hu ⊢
      omega
  · refine ⟨fun e' ho' => ?_, fun ho' => ?_, fun e' ho' j hj => ?_, fun _ _ _ _ => ?_, fun _ => hk,
      fun _ => ?_⟩
    · rw [htran, hobj] at ho'
      obtain rfl := Option.some.inj ho'
      exact hat.kind e ho
    · simp [htran, hobj] at ho'
    · rw [htran, hobj] at ho'
      obtain rfl := Option.some.inj ho'
      rw [htran, hallocs]
      rcases List.mem_append.1 hj with hj | hj
      · exact Nat.lt_succ_of_lt (hat.numbered e ho j hj)
      · rw [List.mem_singleton.1 hj]
        exact Nat.lt_succ_self _
    · rw [htran, hreg]
      exact hx
    · simp [hcn]

/-- `DISCONNECT` comes to a binding endpoint. -/
theorem Held.disconnect_binproc (h : Held S s) (hk : S.kind x = .binproc)
    (he : enabled S s (.disconnect x i)) :
    ∃ s', exec S s (.disconnect x i) = .ok s' ∧ Held S s' := by
  obtain ⟨⟨e, ho, hf, hs⟩, hi, -, w, ha⟩ := he
  have hat := h.each x
  obtain ⟨hobj, hallocs, hreg, hstats⟩ := disconnect_of_ok ho hf hs ha
  rw [(hat.kind e ho).trans hk] at hstats
  have hnot : x ∉ s.tran.connected := fun hx => by simp [hat.connects hx] at hk
  obtain ⟨s', hx', htran, hst, hmd, hcn⟩ : ∃ s', exec S s (.disconnect x i) = .ok s' ∧
      s'.tran = w ∧ s'.stats = s.stats ∧ s'.made = s.made ∧
      s'.connections = update s.connections x ((s.connections x).erase i) :=
    ⟨_, exec_ok ha hstats rfl, rfl, rfl, rfl, rfl⟩
  refine ⟨s', hx', h.of_step (x := x) (h.consistent.of_eq hst hmd fun k => ?_)
    (hat.of_object ho (by rw [htran, hobj, ho]) rfl (fun _ hj => hj) (by rw [htran, hallocs])
      (fun hc => by simp [hk] at hc) (by rw [htran, hreg]; exact id) ?_)
    (fun y _ => by rw [htran, hobj]) (fun y hy => by simp [hcn, hy]) (fun y _ => by rw [htran, hreg])
    (by simp [htran, hallocs]) (by simpa only [htran, hreg] using h.nodup)
    (by simpa only [htran, hreg] using h.few)⟩
  · have hr : s'.tran.connected = s.tran.connected := by rw [htran, hreg]
    exact unconnected_congr hr fun y hy => by
      rw [hcn, update_of_ne (ne_of_mem_of_not_mem hy hnot)]
  · simp [hcn, List.length_erase_le]

/-- `DISCONNECT` comes to a connecting endpoint, which had no other connection. -/
theorem Held.disconnect_cinproc (h : Held S s) (hk : S.kind x = .cinproc)
    (he : enabled S s (.disconnect x i)) :
    ∃ s', exec S s (.disconnect x i) = .ok s' ∧ Held S s' := by
  obtain ⟨⟨e, ho, hf, hs⟩, hi, -, w, ha⟩ := he
  have hat := h.each x
  have hx : x ∈ s.tran.connected := hat.active e ho hk hf
  obtain ⟨hobj, hallocs, hreg, hstats⟩ := disconnect_of_ok ho hf hs ha
  rw [(hat.kind e ho).trans hk] at hstats
  have hone : s.connections x = [i] := by
    have hlen := hat.one hk
    obtain ⟨j, hj⟩ := List.length_eq_one_iff.1
      (Nat.le_antisymm hlen (List.length_pos_of_mem hi))
    rw [hj, List.mem_singleton] at hi
    rw [hj, hi]
  -- The endpoint is one of those in progress from now on.
  have hmore : ∀ {n : Counting ε σ} (k : σ), n.tran.connected = s.tran.connected →
      n.connections = update s.connections x [] →
      n.unconnected S k = s.unconnected S k + if S.sock x = k then 1 else 0 := by
    intro n k hr hc
    have hu := unconnected_update (S := S) (k := k) hr h.nodup hx fun y hy => by simp [hc, hy]
    simpa [hone, hc] using hu
  have hup : (s.stats (S.sock x)).gauge .inprogressConnections < Sock.intMax := by
    let n : Counting ε σ := { s with connections := update s.connections x [] }
    have hn : n.unconnected S (S.sock x) = _ := hmore (S.sock x) rfl rfl
    have hle : n.unconnected S (S.sock x) ≤ _ := unconnected_le n (S.sock x)
    have hfew := h.few (S.sock x)
    rw [hn, if_pos rfl] at hle
    rw [h.consistent.inprogress]
    exact Int.lt_of_lt_of_le (by exact_mod_cast hle) hfew
  obtain ⟨s', hx', htran, hst, hmd, hcn⟩ : ∃ s', exec S s (.disconnect x i) = .ok s' ∧
      s'.tran = w ∧ s'.stats = shift s.stats (S.sock x) 1 ∧ s'.made = s.made ∧
      s'.connections = update s.connections x [] := by
    refine ⟨_, exec_ok ha hstats (tell_up hup), rfl, rfl, rfl, ?_⟩
    simp [note, hone]
  refine ⟨s', hx', h.of_step (x := x)
    (h.consistent.up hst hmd fun k => hmore k (htran ▸ hreg) hcn)
    (hat.of_object ho (by rw [htran, hobj, ho]) rfl (fun _ hj => hj) (by rw [htran, hallocs])
      (fun _ _ => by rw [htran, hreg]; exact hx) (by rw [htran, hreg]; exact id) (by simp [hcn]))
    (fun y _ => by rw [htran, hobj]) (fun y hy => by simp [hcn, hy]) (fun y _ => by rw [htran, hreg])
    (by simp [htran, hallocs]) (by simpa only [htran, hreg] using h.nodup)
    (by simpa only [htran, hreg] using h.few)⟩

/-- `STOPPED` comes. -/
theorem Held.stopped (h : Held S s) (he : enabled S s (.stopped x i)) :
    ∃ s', exec S s (.stopped x i) = .ok s' ∧ Held S s' := by
  obtain ⟨⟨e, ho, -⟩, -, w, ha⟩ := he
  have hat := h.each x
  obtain ⟨e', ho', hothers, hkind, hsin, hfsm, hallocs, hreg, hstats⟩ := stopped_of_ok ho ha
  let n : Counting ε σ := { s with tran := w }
  have hn : n.tran.connected = s.tran.connected := hreg
  refine ⟨n, exec_ok ha (hstats.trans (List.append_nil _).symm) rfl, h.of_step (x := x)
    (h.consistent.of_eq rfl rfl fun k => unconnected_congr hn fun _ _ => rfl)
    (hat.of_object ho ho' hkind (fun j hj => List.mem_of_mem_erase (hsin ▸ hj)) hallocs
      (fun hk hf => ?_) (fun hx => hn ▸ hx) (Nat.le_refl _)) hothers (fun _ _ => rfl)
    (fun y _ => by rw [hn]) (Nat.le_of_eq hallocs.symm) (by simpa only [hn] using h.nodup)
    (by simpa only [hn] using h.few)⟩
  rw [hn]
  exact hat.active e ho hk (hfsm hf)

/-- An endpoint is stopped, which if it connects has a connection. -/
theorem Held.stop (h : Held S s) (hc : S.kind x = .cinproc → s.connections x ≠ [])
    (he : enabled S s (.stop x)) : ∃ s', exec S s (.stop x) = .ok s' ∧ Held S s' := by
  obtain ⟨⟨e, ho, hf, -⟩, w, ha⟩ := he
  have hat := h.each x
  obtain ⟨e', ho', hothers, hkind, hsin, hfsm, hallocs, hreg, hstats⟩ := stop_of_ok ho ha
  rw [hat.kind e ho] at hreg
  have hsub : w.connected.Sublist s.tran.connected := by
    rw [hreg]
    split
    · exact List.erase_sublist
    · exact List.Sublist.refl _
  let n : Counting ε σ := { s with tran := w }
  have hun : ∀ k, s.unconnected S k = n.unconnected S k := fun k => by
    cases hk : S.kind x with
    | binproc =>
      have hr : n.tran.connected = s.tran.connected := by simpa [hk] using hreg
      rw [unconnected_congr hr fun _ _ => rfl]
    | cinproc =>
      have hr : n.tran.connected = s.tran.connected.erase x := by simpa [hk] using hreg
      have hu := unconnected_erase (S := S) (k := k) hr (hat.active e ho hk hf) rfl
      simpa [hc hk] using hu
  refine ⟨n, exec_ok ha (hstats.trans (List.append_nil _).symm) rfl, h.of_step (x := x)
    (h.consistent.of_eq rfl rfl fun k => (hun k).symm)
    (hat.of_object ho ho' hkind (fun j hj => hsin ▸ hj) hallocs (fun _ hf => absurd hf hfsm)
      (fun hx => hsub.subset hx) (Nat.le_refl _)) hothers (fun _ _ => rfl) (fun y hy => ?_)
    (Nat.le_of_eq hallocs.symm) (h.nodup.sublist hsub) fun k => ?_⟩
  · show y ∈ w.connected ↔ _
    rw [hreg]
    split
    · exact List.mem_erase_of_ne hy
    · exact Iff.rfl
  · have hle := hsub.countP_le (p := fun y => decide (S.sock y = k))
    have hfew := h.few k
    show ((w.connected.countP fun y => S.sock y = k) : ℤ) ≤ Sock.intMax
    omega

/-! ### What goes wrong -/

/-- A connecting endpoint that finds one to connect to fails an assertion. -/
theorem create_found_fails (hk : S.kind x = .cinproc) (he : enabled S s (.create x))
    (hx : exec S s (.create x) = .ok s') : NnIns.found S.eps x s.tran.bound = [] := by
  obtain ⟨-, -, w, ha⟩ := he
  obtain ⟨rc, hcreate⟩ := act_create ha
  by_contra hf
  obtain ⟨stats, ht, -⟩ := exec_of_ok ha (create_cinproc_found hk hf hcreate) hx
  exact tell_established_fails [(x, .inprogressConnections, 1), (x, .inprogressConnections, -1)] ht

/-- A binding endpoint does not count the connection of one that connects to it. -/
theorem connect_binproc_wrong (h : Held S s) (hk : S.kind x = .binproc)
    (he : enabled S s (.connect x i)) (hx : exec S s (.connect x i) = .ok s') : ¬ Consistent S s' := by
  obtain ⟨⟨e, ho, hf, hs⟩, hev⟩ := he
  obtain ⟨w, ha, hobj, -, -, -, hstats⟩ := connect_ok (S := S) ho hf hs hev
  rw [((h.each x).kind e ho).trans hk] at hstats
  obtain ⟨stats, ht, rfl⟩ := exec_of_ok ha hstats hx
  obtain rfl := Except.ok.inj ht
  have hmade : madeSince s.tran w x = [s.tran.allocs] :=
    madeSince_eq (i := 1) hobj rfl ((h.each x).numbered e ho)
  intro hc
  have hacc := hc.accepted (S.sock x)
  rw [formed_append (s := s) (n := 1) (x := x) (by simp [note, hmade]), if_pos ⟨rfl, hk⟩,
    UInt64.ofNat_add] at hacc
  have hold := h.consistent.accepted (S.sock x)
  exact absurd (UInt64.add_eq_left.1 (hacc.symm.trans hold)) (by decide)

/-- One more connection of a connecting endpoint is taken for its first one. -/
theorem connect_again_wrong (h : Held S s) (hk : S.kind x = .cinproc) (hne : s.connections x ≠ [])
    (he : enabled S s (.connect x i)) (hx : exec S s (.connect x i) = .ok s') : ¬ Consistent S s' := by
  obtain ⟨⟨e, ho, hf, hs⟩, hev⟩ := he
  obtain ⟨w, ha, hobj, -, -, hreg, hstats⟩ := connect_ok (S := S) ho hf hs hev
  rw [((h.each x).kind e ho).trans hk] at hstats
  obtain ⟨stats, ht, hs'⟩ := exec_of_ok ha hstats hx
  -- The gauge falls, and the endpoint has not been in progress.
  have hdown : (stats (S.sock x)).gauge .inprogressConnections =
      (s.stats (S.sock x)).gauge .inprogressConnections - 1 := by
    simp only [List.foldlM_cons, List.foldlM_nil, bind_eq_ok] at ht
    obtain ⟨st, hst, st', hst', ht⟩ := ht
    obtain rfl := tell_inprogress_of_ok hst
    rw [tell_established] at hst'
    obtain rfl := Except.ok.inj hst'
    obtain rfl := Except.ok.inj ht
    rw [bump_gauge, shift_gauge, if_pos rfl]
    rfl
  -- No endpoint has come to have a connection, though.
  have hr : s'.tran.connected = s.tran.connected := by rw [hs']; exact hreg
  have hcn : s'.connections = update s.connections x (s.connections x ++ madeSince s.tran w x) := by
    rw [hs']
    rfl
  have hu := unconnected_update (S := S) (k := S.sock x) hr h.nodup
    ((h.each x).active e ho hk hf) fun y hy => by simp [hcn, hy]
  simp only [hne, hcn, update_self, List.append_eq_nil_iff, false_and, and_false, if_false,
    Nat.add_zero] at hu
  intro hc
  have hin := hc.inprogress (S.sock x)
  have hst : s'.stats = stats := by rw [hs']
  rw [hst, hdown, h.consistent.inprogress, hu] at hin
  omega

/-- An endpoint that is stopped without a connection stays in progress. -/
theorem stop_wrong (h : Held S s) (hk : S.kind x = .cinproc) (hc : s.connections x = [])
    (he : enabled S s (.stop x)) (hx : exec S s (.stop x) = .ok s') : ¬ Consistent S s' := by
  obtain ⟨⟨e, ho, hf, -⟩, w, ha⟩ := he
  have hat := h.each x
  obtain ⟨e', -, -, -, -, -, -, hreg, hstats⟩ := stop_of_ok ho ha
  rw [hat.kind e ho, if_pos hk] at hreg
  obtain ⟨stats, ht, hs'⟩ := exec_of_ok ha (hstats.trans (List.append_nil _).symm) hx
  obtain rfl := Except.ok.inj ht
  have hr : s'.tran.connected = s.tran.connected.erase x := by rw [hs']; exact hreg
  have hu := unconnected_erase (S := S) (k := S.sock x) hr (hat.active e ho hk hf) (by rw [hs']; rfl)
  rw [if_pos ⟨rfl, hc⟩] at hu
  intro hcons
  have hin := hcons.inprogress (S.sock x)
  have hst : s'.stats = s.stats := by rw [hs']
  rw [hst, h.consistent.inprogress, hu] at hin
  omega

/-! ## Runs -/

/-- What meets the condition does not fail, and is counted. -/
theorem Held.step (h : Held S s) (he : enabled S s a) (hc : Counted S s a) :
    ∃ s', exec S s a = .ok s' ∧ Held S s' := by
  cases a with
  | create x =>
    cases hk : S.kind x with
    | binproc => exact h.create_binproc hk he
    | cinproc => exact h.create_cinproc hk (hc hk) he
  | connect x i => exact h.connect hc.1 hc.2 he
  | disconnect x i =>
    cases hk : S.kind x with
    | binproc => exact h.disconnect_binproc hk he
    | cinproc => exact h.disconnect_cinproc hk he
  | stopped x i => exact h.stopped he
  | stop x => exact h.stop hc he
  | sinprocs net =>
    refine ⟨{ s with tran := s.tran.withNet net }, exec_ok rfl (List.append_nil _).symm rfl,
      ⟨⟨h.consistent.accepted, h.consistent.established, h.consistent.inprogress⟩, fun y => ?_,
        h.nodup, h.few⟩⟩
    exact (h.each y).frame rfl rfl Iff.rfl (Nat.le_refl _)

/-- What is counted as it should be meets the condition. -/
theorem Held.counted (h : Held S s) (he : enabled S s a) (hx : exec S s a = .ok s')
    (hc : Consistent S s') : Counted S s a := by
  cases a with
  | create x => exact fun hk => create_found_fails hk he hx
  | connect x i =>
    have hk : S.kind x = .cinproc := by
      cases hk : S.kind x with
      | binproc => exact absurd hc (connect_binproc_wrong h hk he hx)
      | cinproc => rfl
    refine ⟨hk, ?_⟩
    by_contra hne
    exact connect_again_wrong h hk hne he hx hc
  | stop x => exact fun hk hn => stop_wrong h hk hn he hx hc
  | disconnect x i => trivial
  | stopped x i => trivial
  | sinprocs net => trivial

variable (S) in
/-- In a run nothing fails and the statistics are consistent if and only if each action
    meets the condition. -/
theorem counting_iff (h : Begun s) (as : List (CountAction ε)) :
    (system S).Correct (Consistent S) (fun _ _ _ => True) s as ↔
      (system S).Meets (Counted S) s as := by
  -- What meets the condition keeps the invariant, and nothing else leaves the statistics right.
  refine System.correct_iff_meets (I := Held S) (fun s h => h.consistent) (fun s a h he hc => ?_)
    (fun s a s' h he hx _ hc => h.counted he hx hc) h.held as
  obtain ⟨s', hx, h'⟩ := h.step he hc
  exact ⟨s', hx, trivial, h'⟩

end

/-- Endpoints with a socket each, of which the first one binds. -/
def sockets : Sockets ℕ ℕ where
  eps := oneAddr
  sock := id
  kind x := if x = 0 then .binproc else .cinproc
  connect i peer net := net.connect i 0 peer

/-- Nothing has been created. -/
def nothing : Counting ℕ ℕ where
  tran :=
    { net :=
        { sinproc := fun _ => Sinproc.init srcSinproc 0 1 fun _ => Message.empty
          eventsto := fun _ => []
          events := fun _ => []
          queued := fun _ => false
          stops := fun _ => 0
          raised := [] }
      allocs := 0
      freed := []
      object := fun _ => none
      bound := []
      connected := []
      stats := []
      stopped := [] }
  stats := fun _ => .init
  made := []
  connections := fun _ => []

theorem nothing_begun : Begun nothing :=
  ⟨fun _ => rfl, rfl, rfl, fun _ => rfl, rfl, fun _ => rfl⟩

/-- An endpoint binds and is stopped, and then one connects. -/
theorem counting_iff_nothing : (system sockets).Correct (Consistent sockets) (fun _ _ _ => True)
    nothing [.create 0, .stop 0, .create 1] := by
  refine (counting_iff sockets nothing_begun _).2 fun _ => ⟨fun hk => ?_, fun s₁ hx₁ => ?_⟩
  · exact absurd hk (by decide)
  obtain rfl := Except.ok.inj (show Except.ok _ = Except.ok s₁ from hx₁)
  refine fun _ => ⟨fun hk => ?_, fun s₂ hx₂ => ?_⟩
  · exact absurd hk (by decide)
  obtain rfl := Except.ok.inj (show Except.ok _ = Except.ok s₂ from hx₂)
  exact fun _ => ⟨fun _ => rfl, fun _ _ => trivial⟩

/-- It is not so that every run is counted right: an endpoint that is created and stopped, with
    nothing to connect to, stays in progress. -/
theorem stopped_not_consistent :
    (∀ w x, create sockets w x = Transport.create sockets.eps w x (sockets.kind x)) ∧
      ¬ ∀ (s : Counting ℕ ℕ), Begun s → ∀ as,
        (system sockets).Correct (Consistent sockets) (fun _ _ _ => True) s as := by
  refine ⟨create_eq sockets rfl, fun h => ?_⟩
  obtain ⟨-, h₁⟩ := h nothing nothing_begun [.create 1, .stop 1]
  obtain ⟨s₁, hx₁, -, -, h₂⟩ := h₁ ⟨rfl, by decide, _, rfl⟩
  obtain rfl := Except.ok.inj (show Except.ok _ = Except.ok s₁ from hx₁)
  obtain ⟨s₂, hx₂, -, hcons⟩ := h₂ ⟨⟨_, rfl, rfl, rfl⟩, _, rfl⟩
  obtain rfl := Except.ok.inj (show Except.ok _ = Except.ok s₂ from hx₂)
  -- The socket of the endpoint counts one in progress, and has no endpoint any more.
  exact absurd (hcons.inprogress 1) (by decide)

end Counting

end Nanomsg
