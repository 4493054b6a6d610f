import Nanomsg.Core.Statistics
import Nanomsg.Inproc.Racing

/-!
# Counting connections

What inproc endpoints tell the statistics of their sockets, in runs with any
number of endpoints (`Counting.exec`): what each action does to the endpoints and
which calls of `nn_ep_stat_increment` it makes, and what these do to the statistics.
What `nn_sinproc_connect` does is a parameter: the counting does not depend on it.
-/

namespace Nanomsg

open Function Transition Sinproc

/-- The endpoints of some sockets, and what `nn_sinproc_connect` does, given a sinproc
    and the endpoint it is to connect to. -/
structure Sockets (ε σ : Type) where
  eps : Eps ε
  /-- `ep->sock`. -/
  sock : ε → σ
  kind : ε → EndpointKind
  connect : ℕ → ε → Inproc ℕ ε → Except (Abort (Inproc ℕ ε)) (Inproc ℕ ε)

/-- What happens to the endpoints. -/
inductive CountAction (ε : Type)
  | create (x : ε)
  /-- The first event raised by the sinproc `i` to another context, `CONNECT` to
      the endpoint `x`, is delivered. -/
  | connect (x : ε) (i : ℕ)
  /-- `DISCONNECT` or `STOPPED` of the sinproc `i` is delivered to its owner. -/
  | disconnect (x : ε) (i : ℕ)
  | stopped (x : ε) (i : ℕ)
  | stop (x : ε)
  /-- The sinprocs come to be `net`. -/
  | sinprocs (net : Inproc ℕ ε)

/-- Endpoints and the statistics of their sockets. -/
structure Counting (ε σ : Type) where
  tran : Transport ε
  stats : σ → SockStatistics
  /-- The endpoints sinprocs have been made for, once for each sinproc. -/
  made : List ε
  /-- The sinprocs of an endpoint that it has not been told are disconnected. -/
  connections : ε → List ℕ

/-- The name of a statistic. -/
def Statistic.name : Statistic → StatName
  | establishedConnections => .counter .establishedConnections
  | acceptedConnections => .counter .acceptedConnections
  | inprogressConnections => .gauge .inprogressConnections

namespace Counting

variable {ε σ : Type} [DecidableEq ε] [DecidableEq σ] (S : Sockets ε σ)

/-! ## Endpoints -/

/-- `nn_binproc_connect`. -/
def binprocConnect : Transport.InsFn ε := fun w self peer => do
  let e ← w.endpoint self
  w.check (e.state = .active)
  let i := w.allocs
  let w := w.newSinproc S.eps self e
  let w ← w.onNet (S.connect i peer)
  pure (w.statIncrement self .acceptedConnections 1)

/-- `nn_cinproc_connect`. -/
def cinprocConnect : Transport.InsFn ε := fun w self _peer => do
  let e ← w.endpoint self
  w.check (e.state = .active)
  let i := w.allocs
  let w := w.newSinproc S.eps self e
  let w ← w.onNet (S.connect i self)
  let w := w.statIncrement self .inprogressConnections (-1)
  pure (w.statIncrement self .establishedConnections (-1))

/-- `nn_binproc_create` and `nn_cinproc_create`. -/
def create (w : Transport ε) (ep : ε) : Except (Abort (Transport ε)) (Transport ε × ℤ) :=
  match S.kind ep with
  | .binproc => do
    let w := w.put ep ⟨.binproc, .idle, .idle, []⟩
    let w ← w.fsmStart S.eps ep
    let (w, rc) ← w.insBind S.eps (binprocConnect S) ep
    if rc < 0 then
      pure ({ w with object := update w.object ep none }, rc)
    else
      pure (w, 0)
  | .cinproc => do
    let w := w.put ep ⟨.cinproc, .idle, .idle, []⟩
    let w := w.statIncrement ep .inprogressConnections 1
    let w ← w.fsmStart S.eps ep
    let w ← w.insConnect S.eps (cinprocConnect S) ep
    pure (w, 0)

omit [DecidableEq σ] in
/-- With the `nn_sinproc_connect` there is, this is how endpoints are created. -/
theorem create_eq (h : S.connect = fun i peer net => net.connect i 0 peer) (w : Transport ε) (ep : ε) :
    create S w ep = Transport.create S.eps w ep (S.kind ep) := by
  have hb : binprocConnect S = Transport.binprocConnect S.eps := by
    unfold binprocConnect
    rw [h]
    rfl
  have hc : cinprocConnect S = Transport.cinprocConnect S.eps := by
    unfold cinprocConnect
    rw [h]
    rfl
  unfold create
  rw [hb, hc]
  cases S.kind ep <;> rfl

/-- What an action does to the endpoints. -/
def act (w : Transport ε) : CountAction ε → Except (Abort (Transport ε)) (Transport ε)
  | .create x => do
    let (w, _) ← create S w x
    pure w
  | .connect _ i => Transport.Racing.deliver S.eps w i
  | .disconnect x i => Departures.deliver S.eps w i (Transport.disconnectEvent x i)
  | .stopped x i => Departures.deliver S.eps w i (Transport.stoppedEvent x i)
  | .stop x => w.stop S.eps x
  | .sinprocs net => .ok (w.withNet net)

/-! ## Statistics -/

/-- `nn_ep_stat_increment`, which is declared only: the socket is told. -/
def tell (stats : σ → SockStatistics) (call : ε × Statistic × ℤ) : Except Fault (σ → SockStatistics) := do
  let k := S.sock call.1
  let s ← (stats k).statIncrement call.2.1.name call.2.2
  pure (update stats k s)

/-- The calls of `nn_ep_stat_increment` since the state `w`. -/
def tally (w w' : Transport ε) (stats : σ → SockStatistics) : Except Fault (σ → SockStatistics) :=
  (w'.stats.drop w.stats.length).foldlM (tell S) stats

/-- The sinprocs made for `x` since the state `w`. -/
def madeSince (w w' : Transport ε) (x : ε) : List ℕ :=
  (Transport.Stopping.sinprocs x w').filter (w.allocs ≤ ·)

variable (s : Counting ε σ)

/-- What is known of the connections after an action that leads to `w`. -/
def note (w : Transport ε) : CountAction ε → Counting ε σ
  | .create x | .connect x _ =>
    let is := madeSince s.tran w x
    { s with
      tran := w
      made := s.made ++ List.replicate is.length x
      connections := update s.connections x (s.connections x ++ is) }
  | .disconnect x i =>
    { s with tran := w, connections := update s.connections x ((s.connections x).erase i) }
  | .stopped _ _ | .stop _ | .sinprocs _ => { s with tran := w }

def exec (a : CountAction ε) : Except (Abort (Transport ε)) (Counting ε σ) := do
  let w ← act S s.tran a
  match tally S s.tran w s.stats with
  | .ok stats => pure { s.note w a with stats := stats }
  | .error f => w.fail f

/-- An active endpoint. -/
def Running (w : Transport ε) (x : ε) : Prop :=
  ∃ e, w.object x = some e ∧ e.fsm = .active ∧ e.state = .active

/-- Endpoints are created once, each socket having no more of them than it can
    number. A sinproc says once that it is disconnected. What else the endpoints do
    does not fail. -/
def enabled : CountAction ε → Prop
  | .create x => s.tran.object x = none ∧
    ((s.tran.connected.countP fun y => S.sock y = S.sock x) : ℤ) < Sock.intMax ∧
    ∃ w, act S s.tran (.create x) = .ok w
  | .connect x i => Running s.tran x ∧
    ∃ event l, s.tran.net.eventsto i = event :: l ∧ Transport.Racing.IsConnect x event
  | .disconnect x i => Running s.tran x ∧ i ∈ s.connections x ∧
    (∃ l, s.tran.net.events i = Transport.disconnectEvent x i :: l) ∧
    ∃ w, act S s.tran (.disconnect x i) = .ok w
  | .stopped x i => (∃ e, s.tran.object x = some e ∧ i ∈ e.sinprocs) ∧
    (∃ l, s.tran.net.events i = Transport.stoppedEvent x i :: l) ∧
    ∃ w, act S s.tran (.stopped x i) = .ok w
  | .stop x => Running s.tran x ∧ ∃ w, act S s.tran (.stop x) = .ok w
  | .sinprocs _ => True

/-- There are no endpoints yet. -/
structure Begun : Prop where
  object : ∀ x, s.tran.object x = none
  bound : s.tran.bound = []
  connected : s.tran.connected = []
  stats : ∀ k, s.stats k = .init
  made : s.made = []
  connections : ∀ x, s.connections x = []

/-- The runs of endpoints and their sockets. -/
def system : System (Counting ε σ) (CountAction ε) (Abort (Transport ε)) where
  init := Begun
  enabled := enabled S
  exec := exec S

open Transport Stopping

variable {S} {s s' : Counting ε σ} {w w' : Transport ε} {e : Endpoint} {x : ε} {i : ℕ}

/-! ## Callbacks -/

section

omit [DecidableEq σ]

omit [DecidableEq ε] in
/-- Whatever a sinproc does, only the sinprocs change. -/
theorem onNet_of_ok {f : Inproc ℕ ε → Except (Abort (Inproc ℕ ε)) (Inproc ℕ ε)}
    (h : w.onNet f = .ok w') : ∃ net, w' = w.withNet net := by
  unfold onNet at h
  split at h
  · exact ⟨_, (Except.ok.inj h).symm⟩
  · simp at h

/-- A binding endpoint makes a sinproc, and counts it. -/
theorem binprocConnect_of_ok {y : ε} (h : w.object x = some e) (hs : e.state = .active)
    (hx : binprocConnect S w x y = .ok w') : ∃ net, w' = { w with
      net := net
      allocs := w.allocs + 1
      object := update w.object x (some { e with sinprocs := e.sinprocs ++ [w.allocs] })
      stats := w.stats ++ [(x, .acceptedConnections, 1)] } := by
  simp only [binprocConnect, endpoint_ok h, ok_bind, check, hs, decide_true,
    if_true, bind_eq_ok, pure_eq_ok, Except.ok.injEq] at hx
  obtain ⟨w₁, hw₁, rfl⟩ := hx
  obtain ⟨net, rfl⟩ := onNet_of_ok hw₁
  exact ⟨net, rfl⟩

theorem cinprocConnect_of_ok {y : ε} (h : w.object x = some e) (hs : e.state = .active)
    (hx : cinprocConnect S w x y = .ok w') :
    w'.stats = w.stats ++ [(x, .inprogressConnections, -1), (x, .establishedConnections, -1)] := by
  simp only [cinprocConnect, endpoint_ok h, ok_bind, check, hs, decide_true,
    if_true, bind_eq_ok, pure_eq_ok, Except.ok.injEq] at hx
  obtain ⟨w₁, hw₁, rfl⟩ := hx
  obtain ⟨net, rfl⟩ := onNet_of_ok hw₁
  simp [statIncrement, withNet, newSinproc]

/-- An endpoint that binds counts one connection for each endpoint found. -/
theorem bindAll_of_ok (ys : List ε) (h : w.object x = some e) (hs : e.state = .active)
    (hx : ys.foldlM (fun w y => binprocConnect S w x y) w = .ok w') : ∃ net, w' = { w with
      net := net
      allocs := w.allocs + ys.length
      object := update w.object x
        (some { e with sinprocs := e.sinprocs ++ List.range' w.allocs ys.length })
      stats := w.stats ++ List.replicate ys.length (x, .acceptedConnections, 1) } := by
  induction ys generalizing w e with
  | nil =>
    obtain rfl := Except.ok.inj hx
    exact ⟨w.net, by simp [← h]⟩
  | cons y ys ih =>
    rw [List.foldlM_cons, bind_eq_ok] at hx
    obtain ⟨w₁, hx₁, hx⟩ := hx
    obtain ⟨net₁, rfl⟩ := binprocConnect_of_ok h hs hx₁
    obtain ⟨net, rfl⟩ := ih (e := { e with sinprocs := e.sinprocs ++ [w.allocs] })
      (update_self _ _ _) hs hx
    refine ⟨net, ?_⟩
    simp [List.range'_succ, List.replicate_succ, Nat.add_assoc, Nat.add_comm 1]

/-! ## Creating endpoints -/

/-- What creating a binding endpoint does: it is not kept if the address is in use,
    and else makes a sinproc for each endpoint found. -/
theorem create_binproc (hk : S.kind x = .binproc) {rc : ℤ} (hx : create S w x = .ok (w', rc)) :
    ∃ n, (w'.object x = none ∧ n = 0 ∨
        w'.object x = some ⟨.binproc, .active, .active, List.range' w.allocs n⟩) ∧
      (∀ y ≠ x, w'.object y = w.object y) ∧ w'.allocs = w.allocs + n ∧
      w'.connected = w.connected ∧
      w'.stats = w.stats ++ List.replicate n (x, .acceptedConnections, 1) := by
  simp only [create, hk, fsmStart_ok, ok_bind, insBind_eq] at hx
  split at hx
  · -- The address is in use.
    have hw : { w with object := update w.object x none } = w' := by
      simpa [Errno.eaddrinuse, put] using congrArg Prod.fst (Except.ok.inj hx)
    subst hw
    exact ⟨0, .inl ⟨update_self _ _ _, rfl⟩, fun y hy => update_of_ne hy _ _, rfl, rfl,
      (List.append_nil _).symm⟩
  · simp only [bind_eq_ok] at hx
    obtain ⟨⟨w₁, rc₁⟩, ⟨w₂, hx₂, hx₁⟩, hx⟩ := hx
    obtain ⟨rfl, rfl⟩ := Prod.mk.inj (Except.ok.inj hx₁)
    obtain ⟨rfl, -⟩ := Prod.mk.inj (Except.ok.inj hx)
    obtain ⟨net, rfl⟩ := bindAll_of_ok (e := ⟨.binproc, .active, .active, []⟩) _
      (update_self _ _ _) rfl hx₂
    exact ⟨_, .inr (update_self _ _ _), fun y hy => by simp [put, hy], rfl, rfl, rfl⟩

/-- A connecting endpoint is in progress once it is created. -/
theorem create_cinproc (hk : S.kind x = .cinproc) : create S w x = (do
    let w' ← (NnIns.found S.eps x w.bound).foldlM (fun w y => cinprocConnect S w x y) { w with
      object := update w.object x (some ⟨.cinproc, .active, .active, []⟩)
      connected := w.connected ++ [x]
      stats := w.stats ++ [(x, .inprogressConnections, 1)] }
    pure (w', 0)) := by
  have hstart : ((w.put x ⟨.cinproc, .idle, .idle, []⟩).statIncrement x
      .inprogressConnections 1).fsmStart S.eps x = .ok ((w.statIncrement x
        .inprogressConnections 1).put x ⟨.cinproc, .active, .active, []⟩) :=
    fsmStart_ok (w := w.statIncrement x .inprogressConnections 1)
  simp only [create, hk, hstart, ok_bind, insConnect_eq]
  rfl

/-- By its own count it is not in progress any more if it finds one to connect to. -/
theorem create_cinproc_found {rc : ℤ} (hk : S.kind x = .cinproc)
    (hf : NnIns.found S.eps x w.bound ≠ []) (hx : create S w x = .ok (w', rc)) :
    w'.stats = w.stats ++ [(x, .inprogressConnections, 1), (x, .inprogressConnections, -1),
      (x, .establishedConnections, -1)] := by
  -- At most one endpoint is bound to the address.
  obtain ⟨b, hb⟩ : ∃ b, NnIns.found S.eps x w.bound = [b] := by
    unfold NnIns.found at hf ⊢
    cases hb : (w.bound.find? (sameAddr S.eps x)).filter (S.eps.ispeer x) with
    | none => simp [hb] at hf
    | some b => exact ⟨b, rfl⟩
  rw [create_cinproc hk, hb, List.foldlM_cons, bind_eq_ok] at hx
  obtain ⟨w₁, hx₁, hx⟩ := hx
  obtain ⟨rfl, -⟩ := Prod.mk.inj (Except.ok.inj hx)
  obtain ⟨w₂, hx₂, hx₁⟩ := bind_eq_ok.1 hx₁
  obtain rfl := Except.ok.inj hx₁
  rw [cinprocConnect_of_ok (e := ⟨.cinproc, .active, .active, []⟩) (update_self _ _ _) rfl hx₂]
  simp

/-! ## Events -/

/-- `STOPPED` of a sinproc, if it does not fail, frees the sinproc. -/
theorem stopped_of_ok (h : w.object x = some e) (hx : act S w (.stopped x i) = .ok w') :
    ∃ e', w'.object x = some e' ∧ (∀ y ≠ x, w'.object y = w.object y) ∧ e'.kind = e.kind ∧
      e'.sinprocs = e.sinprocs.erase i ∧ (e'.fsm = .active → e.fsm = .active) ∧
      w'.allocs = w.allocs ∧ w'.connected = w.connected ∧ w'.stats = w.stats := by
  have hsrc : ¬ srcSinproc = srcPeer := by decide
  have haction : ¬ srcSinproc = Fsm.action := by decide
  simp only [act, Departures.deliver, process, stoppedEvent] at hx
  generalize hn : w.withNet _ = n at hx
  have ho : n.object x = some e := by subst hn; exact h
  have hobj : n.object = w.object := by subst hn; rfl
  have hallocs : n.allocs = w.allocs := by subst hn; rfl
  have hconn : n.connected = w.connected := by subst hn; rfl
  have hstats : n.stats = w.stats := by subst hn; rfl
  obtain ⟨kind, fsm, state, is⟩ := e
  cases kind with
  | cinproc =>
    -- Neither of its handlers knows the event.
    exfalso
    by_cases hf : fsm = .stopping
    · subst hf
      simp [feed, endpoint_ok ho, Fsm.feed_stopping, cinprocShutdown, fail, haction] at hx
    · simp only [feed, endpoint_ok ho, ok_bind, Fsm.feed_of_ne hf, cinprocHandler] at hx
      cases state with
      | active => simp [fail, hsrc] at hx
      | idle | stopping => simp [fail, haction] at hx
  | binproc =>
    -- `nn_list_erase` fails for an item that is not in the list.
    have hi : i ∈ is := by
      by_contra hi
      cases fsm <;> cases state <;>
        simp [feed, endpoint_ok ho, Fsm.feed, binprocHandler,
          binprocShutdown, fail, deref, check,
          freeSinproc, hi, hsrc, haction] at hx
    by_cases hf : fsm = .stopping
    · -- The shutdown handler, which does not look at the state.
      subst hf
      simp only [feed, endpoint_ok ho, ok_bind, Fsm.feed_stopping,
        binprocShutdown, haction, false_and, if_false, and_self, decide_true,
        check, if_true, deref, freeSinproc, hi, pure_eq_ok,
        Except.ok.injEq] at hx
      rw [finish_eq] at hx
      subst hx
      refine ⟨_, update_self _ _ _, fun y hy => ?_, ?_, left_sinprocs, ?_, hallocs,
        hconn, ?_⟩
      · simp [put, hy, hobj]
      · unfold left
        split <;> rfl
      · unfold left
        split <;> simp
      · exact hstats
    · have hs : state = .active := by
        by_contra hs
        cases state <;> simp [feed, endpoint_ok ho, Fsm.feed_of_ne hf,
          binprocHandler, fail, haction] at hx hs
      rw [feed_stopped ho hf hs hi] at hx
      obtain rfl := Except.ok.inj hx
      exact ⟨_, update_self _ _ _, fun y hy => by simp [put, hy, hobj], rfl, rfl, id,
        hallocs, hconn, hstats⟩

/-- A stop, if it does not fail, leaves the sinprocs, and takes a connecting
    endpoint out of the registry. -/
theorem stop_of_ok (h : w.object x = some e) (hx : act S w (.stop x) = .ok w') :
    ∃ e', w'.object x = some e' ∧ (∀ y ≠ x, w'.object y = w.object y) ∧ e'.kind = e.kind ∧
      e'.sinprocs = e.sinprocs ∧ e'.fsm ≠ .active ∧ w'.allocs = w.allocs ∧
      w'.connected = (if e.kind = .cinproc then w.connected.erase x else w.connected) ∧
      w'.stats = w.stats := by
  have hstop : w.stop S.eps x = .ok w' := hx
  rw [stop_eq h, bind_eq_ok] at hstop
  obtain ⟨n, hn, hw'⟩ := hstop
  obtain ⟨net, rfl⟩ := onNet_of_ok hn
  obtain rfl := Except.ok.inj hw'
  rw [finish_eq]
  refine ⟨_, update_self _ _ _, fun y hy => ?_, ?_, left_sinprocs, ?_, ?_, ?_, ?_⟩
  · cases e.kind <;> simp [withNet, unregister, insUnbind,
      insDisconnect, put, hy]
  · unfold left
    split <;> rfl
  · unfold left
    split <;> simp
  all_goals cases e.kind <;> simp [withNet, unregister,
    insUnbind, insDisconnect, put]

/-- An active endpoint makes a sinproc for a `CONNECT`, and counts it if it connects. -/
theorem connect_ok (h : w.object x = some e) (hf : e.fsm = .active) (hs : e.state = .active)
    (he : ∃ event l, w.net.eventsto i = event :: l ∧ Racing.IsConnect x event) :
    ∃ w', act S w (.connect x i) = .ok w' ∧
      w'.object x = some { e with sinprocs := e.sinprocs ++ [w.allocs] } ∧
      (∀ y ≠ x, w'.object y = w.object y) ∧ w'.allocs = w.allocs + 1 ∧
      w'.connected = w.connected ∧ w'.stats = w.stats ++ match e.kind with
        | .binproc => []
        | .cinproc => [(x, .inprogressConnections, -1), (x, .establishedConnections, 1)] := by
  have hev : Racing.enabled x w (.deliver i) := he
  obtain ⟨event, l, -, hx⟩ := Racing.deliver_eq (E := S.eps) hev
  have hact : act S w (.connect x i) = _ := hx.trans (feed_connect (e := e) h (by simp [hf]) hs)
  obtain ⟨kind, fsm, state, is⟩ := e
  cases kind
  · exact ⟨_, hact, update_self _ _ _, fun y hy => update_of_ne hy _ _, rfl, rfl,
      (List.append_nil _).symm⟩
  · exact ⟨_, hact, update_self _ _ _, fun y hy => update_of_ne hy _ _, rfl, rfl,
      List.append_assoc _ _ _⟩

/-- `DISCONNECT` is counted by an endpoint that connects. -/
theorem disconnect_of_ok (h : w.object x = some e) (hf : e.fsm = .active) (hs : e.state = .active)
    (hx : act S w (.disconnect x i) = .ok w') : w'.object = w.object ∧ w'.allocs = w.allocs ∧
      w'.connected = w.connected ∧ w'.stats = w.stats ++ match e.kind with
        | .binproc => []
        | .cinproc => [(x, .inprogressConnections, 1)] := by
  have hfeed : act S w (.disconnect x i) = _ := feed_disconnect (E := S.eps) (i := i)
    (w := w.withNet (w.net.pop i (disconnectEvent x i))) h (by simp [hf]) hs
  rw [hx] at hfeed
  cases hk : e.kind with
  | binproc =>
    rw [hk] at hfeed
    obtain ⟨net, rfl⟩ := onNet_of_ok hfeed.symm
    exact ⟨rfl, rfl, rfl, (List.append_nil _).symm⟩
  | cinproc =>
    rw [hk] at hfeed
    obtain rfl := Except.ok.inj hfeed
    exact ⟨rfl, rfl, rfl, rfl⟩

end

/-! ## Telling the sockets -/

/-- The counter `c` of the socket `k` is `n` more. -/
def bump (stats : σ → SockStatistics) (k : σ) (c : Counter) (n : ℕ) : σ → SockStatistics :=
  update stats k { stats k with
    counter := update (stats k).counter c ((stats k).counter c + .ofNat n) }

/-- `NN_STAT_INPROGRESS_CONNECTIONS` of the socket `k` is `d` more. -/
def shift (stats : σ → SockStatistics) (k : σ) (d : ℤ) : σ → SockStatistics :=
  update stats k { stats k with
    gauge := update (stats k).gauge .inprogressConnections
      ((stats k).gauge .inprogressConnections + d) }

section

variable {stats stats' : σ → SockStatistics} {k k' : σ} {c c' : Counter} {g : Gauge} {n : ℕ} {d : ℤ}

theorem bump_counter : (bump stats k c n k').counter c' =
    (stats k').counter c' + if k = k' ∧ c = c' then .ofNat n else 0 := by
  by_cases hk : k = k'
  · subst hk
    by_cases hc : c = c'
    · simp [bump, hc]
    · simp [bump, hc, Ne.symm hc]
  · simp [bump, hk, Ne.symm hk]

@[simp] theorem bump_gauge : (bump stats k c n k').gauge = (stats k').gauge := by
  by_cases hk : k' = k
  · simp [bump, hk]
  · simp [bump, hk]

@[simp] theorem shift_counter : (shift stats k d k').counter = (stats k').counter := by
  by_cases hk : k' = k
  · simp [shift, hk]
  · simp [shift, hk]

theorem shift_gauge : (shift stats k d k').gauge .inprogressConnections =
    (stats k').gauge .inprogressConnections + if k = k' then d else 0 := by
  by_cases hk : k = k'
  · subst hk
    simp [shift]
  · simp [shift, hk, Ne.symm hk]

omit [DecidableEq ε] in
/-- Connections are counted one by one. -/
theorem tell_accepted (n : ℕ) : (List.replicate n (x, Statistic.acceptedConnections, 1)).foldlM
    (tell S) stats = .ok (bump stats (S.sock x) .acceptedConnections n) := by
  induction n generalizing stats with
  | zero => simp [bump]
  | succ n ih =>
    have hone : tell S stats (x, .acceptedConnections, 1) =
        .ok (bump stats (S.sock x) .acceptedConnections 1) := by
      simp only [tell, Statistic.name, SockStatistics.counter_ok Int.one_pos, ok_bind]
      rfl
    rw [List.replicate_succ, List.foldlM_cons, hone, ok_bind, ih]
    simp only [bump, update_self, update_idem, UInt64.add_assoc, ← UInt64.ofNat_add,
      Nat.add_comm 1 n]

omit [DecidableEq ε] in
theorem tell_established : tell S stats (x, .establishedConnections, 1) =
    .ok (bump stats (S.sock x) .establishedConnections 1) := by
  simp only [tell, Statistic.name, SockStatistics.counter_ok Int.one_pos, ok_bind]
  rfl

omit [DecidableEq ε] in
theorem tell_up (h : (stats (S.sock x)).gauge .inprogressConnections < Sock.intMax) :
    [(x, Statistic.inprogressConnections, 1)].foldlM (tell S) stats =
      .ok (shift stats (S.sock x) 1) := by
  simp only [List.foldlM_cons, List.foldlM_nil, tell, Statistic.name, SockStatistics.gauge_up h,
    ok_bind]
  rfl

omit [DecidableEq ε] in
theorem tell_down (h : 0 < (stats (S.sock x)).gauge .inprogressConnections)
    (hmax : (stats (S.sock x)).gauge .inprogressConnections ≤ Sock.intMax) :
    tell S stats (x, .inprogressConnections, -1) = .ok (shift stats (S.sock x) (-1)) := by
  simp only [tell, Statistic.name, SockStatistics.gauge_down h hmax, ok_bind]
  rfl

omit [DecidableEq ε] in
/-- A connection established is not taken back. -/
theorem tell_established_fails (calls : List (ε × Statistic × ℤ)) :
    (calls ++ [(x, Statistic.establishedConnections, -1)]).foldlM (tell S) stats ≠ .ok stats' := by
  intro h
  rw [List.foldlM_append, bind_eq_ok] at h
  obtain ⟨st, -, h⟩ := h
  have hfail : tell S st (x, .establishedConnections, -1) = .error .assertion := by
    simp only [tell, Statistic.name, SockStatistics.counter_fails (show (-1 : ℤ) ≤ 0 by decide)]
    rfl
  simp [hfail] at h

omit [DecidableEq ε] in
theorem tell_inprogress_of_ok (h : tell S stats (x, .inprogressConnections, d) = .ok stats') :
    stats' = shift stats (S.sock x) d := by
  simp only [tell, Statistic.name, SockStatistics.statIncrement, bind_eq_ok, pure_eq_ok,
    Except.ok.injEq] at h
  obtain ⟨st, ⟨-, -, -, -, h⟩, rfl⟩ := h
  split at h
  · obtain rfl := Except.ok.inj h
    rfl
  · simp at h

end

end Counting

end Nanomsg
