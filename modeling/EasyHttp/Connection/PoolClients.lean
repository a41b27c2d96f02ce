import EasyHttp.Connection.ConnectionPoolInternalTheorems
import EasyHttp.Library.Runs

/-!
# Clients and timers of one pool

Any number of clients take connections from a pool and give them back, each at most once,
while timers fire, early or late, and other threads remove or cancel connections. Every method
that locks the pool's mutex, or a connection's, is one atomic action. `Inv` links what the
clients hold to the status of the connections; `pool_exclusive` is what follows for every run.
-/

namespace EasyHttp.PoolClients

/-- The threads that ask for connections. -/
abbrev Client := ℕ

/-- The pool, what each client holds, and all connections made so far. -/
structure System where
  pool : ConnectionPoolInternal
  holds : Client → Option ConnectionPtr
  created : List ConnectionPtr

/-- An empty pool, and no client holds a connection. -/
def System.initial (keepAliveIdleCountMax : ℕ) (keepAliveTimeoutSec : Int64) : System where
  pool := ConnectionPoolInternal.create keepAliveIdleCountMax keepAliveTimeoutSec
  holds := fun _ => none
  created := []

/-- What clients and timers do with the pool. -/
inductive Action where
  /-- The first part of `getConnection`. -/
  | findAndReuseConnection (client : Client) (url : String) (context : EasyHttpContext)
  /-- `createConnection`, also as the second part of `getConnection`. The map orders its
  connections by address, so the new address `p` may come anywhere. -/
  | createConnection (client : Client) (p : ConnectionPtr) (url : String)
    (context : EasyHttpContext) (sslContext : Except HttpException Unit)
  /-- A client releases what it holds. -/
  | releaseConnection (client : Client) (now : Timestamp) (listenerInvalidated : Bool)
  /-- A client removes what it holds. -/
  | removeConnection (client : Client)
  /-- A thread removes a connection that a client may go on holding. -/
  | removeByOther (p : ConnectionPtr)
  | cancel (p : ConnectionPtr)
  | setConnectionStatusListener (p : ConnectionPtr) (listener : Option ListenerPtr)
  /-- A timer task runs, whether it was cancelled or not. -/
  | onKeepAliveTimeoutExpired (task : TaskPtr)

/-- One action; `none` when it cannot be taken or throws. -/
def step (poco : Poco) (s : System) : Action → Option System
  | .findAndReuseConnection client url context =>
    if s.holds client ≠ none then none
    else match s.pool.findAndReuseConnection poco url context with
      | (some p, pool) =>
        some { s with pool := pool, holds := Function.update s.holds client (some p) }
      | (none, pool) => some { s with pool := pool }
  | .createConnection client p url context sslContext =>
    if s.holds client ≠ none ∨ p ∈ s.created then none
    else match s.pool.createConnection poco p url context sslContext with
      | .ok pool => some {
          pool := pool
          holds := Function.update s.holds client (some p)
          created := p :: s.created }
      | .error _ => none
  | .releaseConnection client now listenerInvalidated =>
    match s.holds client with
    | some p => some { s with
        pool := (s.pool.releaseConnection p now listenerInvalidated).2
        holds := Function.update s.holds client none }
    | none => none
  | .removeConnection client =>
    match s.holds client with
    | some p => some { s with
        pool := (s.pool.removeConnection p).2
        holds := Function.update s.holds client none }
    | none => none
  | .removeByOther p => some { s with pool := (s.pool.removeConnection p).2 }
  | .cancel p =>
    some { s with pool := s.pool.setConnection p (s.pool.connections p).cancel }
  | .setConnectionStatusListener p listener =>
    some { s with pool := s.pool.setListener p listener }
  | .onKeepAliveTimeoutExpired task =>
    some { s with pool := s.pool.onKeepAliveTimeoutExpired task }

/-! ## What should hold -/

/-- No connection is held by two clients. -/
def Exclusive (s : System) : Prop :=
  ∀ x y p, s.holds x = some p → s.holds y = some p → x = y

/-- No timer, whenever it fires, removes a connection that a client holds. -/
def TimersSpareHeld (s : System) : Prop :=
  ∀ task x p, s.holds x = some p →
    (s.pool.onKeepAliveTimeoutExpired task).connectionControls.find? p =
      s.pool.connectionControls.find? p

/-- Releasing a connection that was removed, or that is idle already, fails and leaves the pool
as it is, but for the listener of that connection. -/
def ReleaseAgainUnchanged (s : System) : Prop :=
  ∀ p now listenerInvalidated,
    (s.pool.connectionControls.find? p = none →
      s.pool.releaseConnection p now listenerInvalidated = (.ok false, s.pool)) ∧
    ((s.pool.connections p).connectionStatus = .idle →
      ∃ listener, s.pool.releaseConnection p now listenerInvalidated =
        (.ok false, s.pool.setListener p listener))

/-! ## The invariant -/

/-- What holds in every state that is reached. -/
structure Inv (s : System) : Prop where
  wellFormed : s.pool.WellFormed
  exclusive : Exclusive s
  /-- What a client holds is in use as long as the pool has it. -/
  inuse : ∀ x p task, s.holds x = some p → s.pool.connectionControls.find? p = some task →
    (s.pool.connections p).connectionStatus = .inuse
  held_created : ∀ x p, s.holds x = some p → p ∈ s.created
  pool_created : ∀ p task, s.pool.connectionControls.find? p = some task → p ∈ s.created

theorem inv_initial (keepAliveIdleCountMax : ℕ) (keepAliveTimeoutSec : Int64) :
    Inv (System.initial keepAliveIdleCountMax keepAliveTimeoutSec) where
  wellFormed := ConnectionPoolInternal.wellFormed_create _ _
  exclusive := fun _ _ _ h => by cases h
  inuse := fun _ _ _ h => by cases h
  held_created := fun _ _ h => by cases h
  pool_created := fun _ _ h => by cases h

variable {poco : Poco} {s s' : System} {p : ConnectionPtr} {client : Client}

/-- Removing connections, and letting go of some, keeps the invariant. -/
theorem inv_within (hinv : Inv s) (hpool : s'.pool.Within s.pool)
    (hholds : ∀ x p, s'.holds x = some p → s.holds x = some p)
    (hcreated : s'.created = s.created) : Inv s' := by
  refine ⟨hpool.wellFormed hinv.wellFormed, fun x y p hx hy => ?_, fun x p task hx hfind => ?_,
    fun x p hx => ?_, fun p task hfind => ?_⟩
  · exact hinv.exclusive x y p (hholds x p hx) (hholds y p hy)
  · obtain ⟨hfind', hstatus⟩ := hpool p task hfind
    rw [hstatus]
    exact hinv.inuse x p task (hholds x p hx) hfind'
  · rw [hcreated]
    exact hinv.held_created x p (hholds x p hx)
  · rw [hcreated]
    exact hinv.pool_created p task (hpool p task hfind).1

/-- An idle connection of the pool is held by nobody. -/
theorem not_held_of_idle {task : Option TaskPtr} (hinv : Inv s)
    (hfind : s.pool.connectionControls.find? p = some task)
    (hidle : (s.pool.connections p).connectionStatus = .idle) (x : Client) :
    s.holds x ≠ some p := by
  intro hx
  have huse := hinv.inuse x p task hx hfind
  rw [hidle] at huse
  cases huse

/-- A connection that nobody holds is put into the pool in use and handed to a client; it was in
the pool, or it is new. -/
structure Obtained (s s' : System) (client : Client) (p : ConnectionPtr) (c : ConnectionInternal) :
    Prop where
  free : ∀ x, s.holds x ≠ some p
  inuse : c.connectionStatus = .inuse
  controls : s'.pool.connectionControls = s.pool.connectionControls.set p none
  connections : s'.pool.connections = Function.update s.pool.connections p c
  holds : s'.holds = Function.update s.holds client (some p)
  created : ∀ q, q = p ∨ q ∈ s.created → q ∈ s'.created
  known : s.pool.connectionControls.find? p ≠ none ∨ p ∉ s.created

/-- What a client holds then. -/
theorem Obtained.holds_cases {c : ConnectionInternal} (h : Obtained s s' client p c) (x : Client)
    (q : ConnectionPtr) (hx : s'.holds x = some q) :
    x = client ∧ q = p ∨ x ≠ client ∧ q ≠ p ∧ s.holds x = some q := by
  rw [h.holds] at hx
  by_cases hxc : x = client
  · rw [hxc, Function.update_self] at hx
    cases hx
    exact .inl ⟨hxc, rfl⟩
  · rw [Function.update_of_ne hxc] at hx
    refine .inr ⟨hxc, fun hq => ?_, hx⟩
    rw [hq] at hx
    exact h.free x hx

theorem inv_obtain {c : ConnectionInternal} (hinv : Inv s) (h : Obtained s s' client p c) :
    Inv s' := by
  refine ⟨ConnectionPoolInternal.wellFormed_set hinv.wellFormed h.inuse h.controls h.connections,
    fun x y q hx hy => ?_, fun x q task hx hfind => ?_, fun x q hx => ?_, fun q task hfind => ?_⟩
  · rcases h.holds_cases x q hx with ⟨hxc, hq⟩ | ⟨-, hq, hx⟩ <;>
      rcases h.holds_cases y q hy with ⟨hyc, hq'⟩ | ⟨-, hq', hy⟩
    · rw [hxc, hyc]
    · exact absurd hq hq'
    · exact absurd hq' hq
    · exact hinv.exclusive x y q hx hy
  · rw [h.connections]
    rcases h.holds_cases x q hx with ⟨-, hq⟩ | ⟨-, hq, hx⟩
    · rw [hq, Function.update_self]
      exact h.inuse
    · rw [Function.update_of_ne hq]
      rw [h.controls, SortedMap.find?_set, if_neg hq] at hfind
      exact hinv.inuse x q task hx hfind
  · rcases h.holds_cases x q hx with ⟨-, hq⟩ | ⟨-, -, hx⟩
    · exact h.created q (.inl hq)
    · exact h.created q (.inr (hinv.held_created x q hx))
  · rw [h.controls, SortedMap.find?_set] at hfind
    by_cases hq : q = p
    · exact h.created q (.inl hq)
    · rw [if_neg hq] at hfind
      exact h.created q (.inr (hinv.pool_created q task hfind))

/-- `findAndReuseConnection` finds nothing, or hands out a connection that was idle. -/
theorem findAndReuseConnection_cases {url : String} {context : EasyHttpContext} (hinv : Inv s)
    (h : step poco s (.findAndReuseConnection client url context) = some s') :
    s' = s ∨ ∃ p, (s.pool.findAndReuseConnection poco url context).1 = some p ∧
      Obtained s s' client p { s.pool.connections p with connectionStatus := .inuse } := by
  rw [step] at h
  split at h
  · cases h
  rcases hrun : s.pool.findAndReuseConnection poco url context with ⟨found, pool⟩
  rw [hrun] at h
  cases found with
  | none =>
    cases h
    have hsame := ConnectionPoolInternal.findAndReuseConnection_none (congrArg Prod.fst hrun)
    rw [hrun] at hsame
    cases hsame
    exact .inl rfl
  | some p =>
    cases h
    obtain ⟨⟨task, hfind⟩, hidle, hcontrols, hconnections⟩ :=
      ConnectionPoolInternal.findAndReuseConnection_some (congrArg Prod.fst hrun)
    rw [hrun] at hcontrols hconnections
    refine .inr ⟨p, rfl, not_held_of_idle hinv hfind hidle, rfl, hcontrols, hconnections, rfl,
      fun q hq => ?_, .inl (by rw [hfind]; exact Option.some_ne_none _)⟩
    rcases hq with hq | hq
    · rw [hq]
      exact hinv.pool_created p task hfind
    · exact hq

/-- A new connection is held by the client that asked for it. -/
theorem createConnection_obtained {url : String} {context : EasyHttpContext}
    {sslContext : Except HttpException Unit} (hinv : Inv s)
    (h : step poco s (.createConnection client p url context sslContext) = some s') :
    ∃ c, Obtained s s' client p c := by
  rw [step] at h
  split at h
  · cases h
  rename_i hguard
  rw [not_or] at hguard
  split at h
  · rename_i pool hcreate
    cases h
    obtain ⟨c, huse, -, hcontrols, hconnections⟩ :=
      ConnectionPoolInternal.createConnection_ok hcreate
    refine ⟨c, fun x hx => hguard.2 (hinv.held_created x p hx), huse, hcontrols, hconnections, rfl,
      fun q hq => ?_, .inr hguard.2⟩
    rw [List.mem_cons]
    exact hq
  · cases h

/-- A client that gave its connection up holds none. -/
theorem holds_of_update_none {x : Client} (h : Function.update s.holds client none x = some p) :
    x ≠ client ∧ s.holds x = some p := by
  by_cases hx : x = client
  · rw [hx, Function.update_self] at h
    cases h
  · rw [Function.update_of_ne hx] at h
    exact ⟨hx, h⟩

/-- A client that releases its connection. -/
theorem inv_release {now : Timestamp} {listenerInvalidated : Bool} (hinv : Inv s)
    (hheld : s.holds client = some p) :
    Inv { s with
      pool := (s.pool.releaseConnection p now listenerInvalidated).2
      holds := Function.update s.holds client none } := by
  have hreleased := ConnectionPoolInternal.releaseConnection_released (p := p) hinv.wellFormed now
    listenerInvalidated
  refine ⟨hreleased.wellFormed, fun x y q hx hy => ?_, fun x q task hx hfind => ?_,
    fun x q hx => ?_, fun q task hfind => ?_⟩
  · exact hinv.exclusive x y q (holds_of_update_none hx).2 (holds_of_update_none hy).2
  · obtain ⟨hne, hx⟩ := holds_of_update_none hx
    -- nobody else holds the connection that is released
    have hq : q ≠ p := by
      intro heq
      rw [heq] at hx
      exact hne (hinv.exclusive x client p hx hheld)
    obtain ⟨hconn, hmem⟩ := hreleased.others q hq
    rw [hconn]
    rcases hmem with heq | hnone
    · rw [heq] at hfind
      exact hinv.inuse x q task hx hfind
    · rw [hnone] at hfind
      cases hfind
  · exact hinv.held_created x q (holds_of_update_none hx).2
  · by_cases hq : q = p
    · rw [hq]
      exact hinv.held_created client p hheld
    · rcases (hreleased.others q hq).2 with heq | hnone
      · rw [heq] at hfind
        exact hinv.pool_created q task hfind
      · rw [hnone] at hfind
        cases hfind

/-- Every action keeps the invariant. -/
theorem step_inv {a : Action} (hinv : Inv s) (h : step poco s a = some s') : Inv s' := by
  cases a with
  | findAndReuseConnection client url context =>
    -- nothing is found, or the client has a connection nobody else holds
    rcases findAndReuseConnection_cases hinv h with heq | ⟨p, -, hobtained⟩
    · rw [heq]
      exact hinv
    · exact inv_obtain hinv hobtained
  | createConnection client p url context sslContext =>
    obtain ⟨c, hobtained⟩ := createConnection_obtained hinv h
    exact inv_obtain hinv hobtained
  | releaseConnection client now listenerInvalidated =>
    rw [step] at h
    split at h
    -- the client gives up what it holds
    · rename_i p hheld
      cases h
      exact inv_release hinv hheld
    · cases h
  | removeConnection client =>
    rw [step] at h
    split at h
    · cases h
      exact inv_within hinv (ConnectionPoolInternal.removeConnection_within _ _)
        (fun x p hx => (holds_of_update_none hx).2) rfl
    · cases h
  | removeByOther p =>
    cases h
    exact inv_within hinv (ConnectionPoolInternal.removeConnection_within _ _)
      (fun _ _ hx => hx) rfl
  | cancel p =>
    cases h
    exact inv_within hinv (ConnectionPoolInternal.setConnection_within rfl) (fun _ _ hx => hx) rfl
  | setConnectionStatusListener p listener =>
    cases h
    exact inv_within hinv (ConnectionPoolInternal.setConnection_within rfl) (fun _ _ hx => hx) rfl
  | onKeepAliveTimeoutExpired task =>
    cases h
    exact inv_within hinv (ConnectionPoolInternal.onKeepAliveTimeoutExpired_within _ _)
      (fun _ _ hx => hx) rfl

/-! ## Connections that are gone -/

/-- The pool does not have the connection and no client holds it. -/
structure Gone (s : System) (p : ConnectionPtr) : Prop where
  removed : s.pool.connectionControls.find? p = none
  not_held : ∀ x, s.holds x ≠ some p
  created : p ∈ s.created

theorem gone_within {q : ConnectionPtr} (hgone : Gone s q) (hpool : s'.pool.Within s.pool)
    (hholds : ∀ x p, s'.holds x = some p → s.holds x = some p)
    (hcreated : s'.created = s.created) : Gone s' q := by
  refine ⟨?_, fun x hx => hgone.not_held x (hholds x q hx), ?_⟩
  · cases hfind : s'.pool.connectionControls.find? q with
    | none => rfl
    | some task =>
      have hbefore := (hpool q task hfind).1
      rw [hgone.removed] at hbefore
      cases hbefore
  · rw [hcreated]
    exact hgone.created

/-- A connection that is gone does not come back when a client gets another one. -/
theorem gone_obtain {q : ConnectionPtr} {c : ConnectionInternal} (hgone : Gone s q)
    (h : Obtained s s' client p c) : Gone s' q := by
  have hne : q ≠ p := by
    intro heq
    rw [heq] at hgone
    rcases h.known with hpool | hnew
    · exact hpool hgone.removed
    · exact hnew hgone.created
  refine ⟨?_, fun x hx => ?_, h.created q (.inr hgone.created)⟩
  · rw [h.controls, SortedMap.find?_set, if_neg hne]
    exact hgone.removed
  · rcases h.holds_cases x q hx with ⟨-, heq⟩ | ⟨-, -, hx⟩
    · exact hne heq
    · exact hgone.not_held x hx

/-- A connection that is gone does not come back. -/
theorem step_gone {a : Action} {q : ConnectionPtr} (hinv : Inv s) (hgone : Gone s q)
    (h : step poco s a = some s') : Gone s' q := by
  cases a with
  | findAndReuseConnection client url context =>
    -- what is handed out is in the pool, so it is another connection
    rcases findAndReuseConnection_cases hinv h with heq | ⟨p, -, hobtained⟩
    · rw [heq]
      exact hgone
    · exact gone_obtain hgone hobtained
  | createConnection client p url context sslContext =>
    obtain ⟨c, hobtained⟩ := createConnection_obtained hinv h
    exact gone_obtain hgone hobtained
  | releaseConnection client now listenerInvalidated =>
    rw [step] at h
    split at h
    -- what is released was held, so it is another connection
    · rename_i p hheld
      cases h
      have hreleased := ConnectionPoolInternal.releaseConnection_released (p := p) hinv.wellFormed
        now listenerInvalidated
      have hne : q ≠ p := by
        intro heq
        rw [heq] at hgone
        exact hgone.not_held client hheld
      refine ⟨?_, fun x hx => hgone.not_held x (holds_of_update_none hx).2, hgone.created⟩
      rcases (hreleased.others q hne).2 with heq | hnone
      · rw [heq]
        exact hgone.removed
      · exact hnone
    · cases h
  | removeConnection client =>
    rw [step] at h
    split at h
    · cases h
      exact gone_within hgone (ConnectionPoolInternal.removeConnection_within _ _)
        (fun x p hx => (holds_of_update_none hx).2) rfl
    · cases h
  | removeByOther p =>
    cases h
    exact gone_within hgone (ConnectionPoolInternal.removeConnection_within _ _)
      (fun _ _ hx => hx) rfl
  | cancel p =>
    cases h
    exact gone_within hgone (ConnectionPoolInternal.setConnection_within rfl) (fun _ _ hx => hx) rfl
  | setConnectionStatusListener p listener =>
    cases h
    exact gone_within hgone (ConnectionPoolInternal.setConnection_within rfl) (fun _ _ hx => hx) rfl
  | onKeepAliveTimeoutExpired task =>
    cases h
    exact gone_within hgone (ConnectionPoolInternal.onKeepAliveTimeoutExpired_within _ _)
      (fun _ _ hx => hx) rfl

/-! ## Every run -/

theorem run_inv {actions : List Action} (hinv : Inv s)
    (hrun : Runs.run (step poco) s actions = some s') : Inv s' :=
  Runs.run_invariant (fun _ _ _ hinv _ h => step_inv hinv h) hinv hrun
    (Runs.everyStep_true s actions)

/-- No timer takes a connection from a client. -/
theorem timersSpareHeld (hinv : Inv s) : TimersSpareHeld s := by
  intro task x p hx
  cases hfind : s.pool.connectionControls.find? p with
  | none =>
    cases hafter : (s.pool.onKeepAliveTimeoutExpired task).connectionControls.find? p with
    | none => rfl
    | some timer =>
      have hbefore := (ConnectionPoolInternal.onKeepAliveTimeoutExpired_within s.pool task p timer
        hafter).1
      rw [hfind] at hbefore
      cases hbefore
  | some timer =>
    rw [← hfind]
    exact ConnectionPoolInternal.onKeepAliveTimeoutExpired_inuse hinv.wellFormed
      (hinv.inuse x p timer hx hfind) task

/-- A second release changes nothing. -/
theorem releaseAgainUnchanged (s : System) : ReleaseAgainUnchanged s := by
  intro p now listenerInvalidated
  refine ⟨ConnectionPoolInternal.releaseConnection_removed now listenerInvalidated, fun hidle => ?_⟩
  cases hfind : s.pool.connectionControls.find? p with
  | none =>
    refine ⟨(s.pool.connections p).connectionStatusListener, ?_⟩
    rw [ConnectionPoolInternal.releaseConnection_removed now listenerInvalidated hfind]
    show _ = (_, { s.pool with
      connections := Function.update s.pool.connections p (s.pool.connections p) })
    rw [Function.update_eq_self]
  | some task =>
    exact ⟨_, ConnectionPoolInternal.releaseConnection_idle now listenerInvalidated hfind hidle⟩

/-- In every run of clients and timers, no connection is held by two clients, no timer removes
a connection that a client holds, and releasing a connection that was removed or is idle
changes nothing in the pool. -/
theorem pool_exclusive (poco : Poco) (keepAliveIdleCountMax : ℕ) (keepAliveTimeoutSec : Int64)
    (actions : List Action) (s : System)
    (hrun : Runs.run (step poco) (System.initial keepAliveIdleCountMax keepAliveTimeoutSec)
      actions = some s) :
    Exclusive s ∧ TimersSpareHeld s ∧ ReleaseAgainUnchanged s := by
  have hinv := run_inv (inv_initial _ _) hrun
  exact ⟨hinv.exclusive, timersSpareHeld hinv, releaseAgainUnchanged s⟩

/-- A context without a proxy and with default timeouts. -/
def plainContext : EasyHttpContext where
  proxy := none
  rootCaDirectory := ""
  rootCaFile := ""
  timeoutSec := 60

/-- One client makes a connection and releases it, another takes it over, and then the timer
of the release fires. -/
def reuse : List Action :=
  [.createConnection 0 7 "http://a.com/" plainContext (.ok ()), .releaseConnection 0 ⟨0⟩ true,
    .findAndReuseConnection 1 "http://a.com/" plainContext, .onKeepAliveTimeoutExpired 0]

theorem pool_exclusive_reuse :
    ∃ s, Runs.run (step Poco.plain) (System.initial 5 5) reuse = some s ∧
      s.holds 1 = some 7 ∧ s.pool.connectionControls.find? 7 = some none ∧
      Exclusive s ∧ TimersSpareHeld s ∧ ReleaseAgainUnchanged s := by
  have hends : (Runs.run (step Poco.plain) (System.initial 5 5) reuse).map
      (fun s => (s.holds 1, s.pool.connectionControls.find? 7)) = some (some 7, some none) := by
    decide +kernel
  obtain ⟨s, hrun, hs⟩ := Option.map_eq_some_iff.mp hends
  rw [Prod.mk.injEq] at hs
  exact ⟨s, hrun, hs.1, hs.2, pool_exclusive Poco.plain 5 5 reuse s hrun⟩

end EasyHttp.PoolClients
