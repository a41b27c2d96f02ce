import EasyHttp.Connection.ConnectionPoolInternal

/-!
# What the methods of the pool do

One lemma for each method says what it returns and what it leaves in the pool. From these:

* `WellFormed`: a connection of the pool has a timer exactly if it is idle; every method keeps
  this;
* `onKeepAliveTimeoutExpired_inuse`: a timer never removes a connection that is in use;
* `releaseConnection_removed`, `releaseConnection_idle`: releasing a connection that the pool
  does not have, or that is idle already, changes nothing but the connection's listener.
-/

namespace EasyHttp.ConnectionPoolInternal

variable {pool pool' : ConnectionPoolInternal} {p q : ConnectionPtr} {task : Option TaskPtr}

/-- A connection of the pool has a timer exactly if it is idle. -/
def WellFormed (pool : ConnectionPoolInternal) : Prop :=
  ∀ p task, pool.connectionControls.find? p = some task →
    ((pool.connections p).connectionStatus = .idle ↔ task ≠ none)

/-- A pool without connections is well-formed. -/
theorem wellFormed_create (keepAliveIdleCountMax : ℕ) (keepAliveTimeoutSec : Int64) :
    (create keepAliveIdleCountMax keepAliveTimeoutSec).WellFormed := by
  intro p task h
  cases h

/-- `pool'` has at most the connections of `pool`, with the same timers and the same status. -/
def Within (pool' pool : ConnectionPoolInternal) : Prop :=
  ∀ p task, pool'.connectionControls.find? p = some task →
    pool.connectionControls.find? p = some task ∧
      (pool'.connections p).connectionStatus = (pool.connections p).connectionStatus

/-- A pool stays well-formed when connections leave. -/
theorem Within.wellFormed (h : pool'.Within pool) (hwf : pool.WellFormed) : pool'.WellFormed := by
  intro p task hfind
  obtain ⟨hfind', hstatus⟩ := h p task hfind
  rw [hstatus]
  exact hwf p task hfind'

theorem setConnection_within {c : ConnectionInternal}
    (hstatus : c.connectionStatus = (pool.connections p).connectionStatus) :
    (pool.setConnection p c).Within pool := by
  intro q task hfind
  refine ⟨hfind, ?_⟩
  show (Function.update pool.connections p c q).connectionStatus = _
  by_cases hq : q = p
  · rw [hq, Function.update_self, hstatus]
  · rw [Function.update_of_ne hq]

/-! ## `removeConnection` -/

/-- A removal takes the one connection out. -/
theorem removeConnection_find? (pool : ConnectionPoolInternal) (p q : ConnectionPtr) :
    (pool.removeConnection p).2.connectionControls.find? q =
      if q = p then none else pool.connectionControls.find? q := by
  unfold removeConnection
  split
  · rename_i hnone
    by_cases hq : q = p
    · rw [if_pos hq, hq]
      exact hnone
    · rw [if_neg hq]
  · exact SortedMap.find?_erase _ _ _

@[simp] theorem removeConnection_connections (pool : ConnectionPoolInternal) (p : ConnectionPtr) :
    (pool.removeConnection p).2.connections = pool.connections := by
  unfold removeConnection
  split <;> rfl

theorem removeConnection_within (pool : ConnectionPoolInternal) (p : ConnectionPtr) :
    (pool.removeConnection p).2.Within pool := by
  intro q task hfind
  rw [removeConnection_find?] at hfind
  rw [removeConnection_connections]
  by_cases hq : q = p
  · rw [if_pos hq] at hfind
    cases hfind
  · rw [if_neg hq] at hfind
    exact ⟨hfind, rfl⟩

/-! ## `onKeepAliveTimeoutExpired` -/

/-- The timer removes at most the connection that it is set for. -/
theorem onKeepAliveTimeoutExpired_cases (pool : ConnectionPoolInternal) (timer : TaskPtr) :
    pool.onKeepAliveTimeoutExpired timer = pool ∨
      ∃ p, pool.connectionControls.find? p = some (some timer) ∧
        pool.onKeepAliveTimeoutExpired timer =
          { pool with connectionControls := pool.connectionControls.erase p } := by
  unfold onKeepAliveTimeoutExpired
  cases hf : pool.connectionControls.entries.find? fun itr => itr.2 = some timer with
  | none => exact .inl rfl
  | some itr =>
    have htask : itr.2 = some timer := by simpa using List.find?_some hf
    refine .inr ⟨itr.1, ?_, rfl⟩
    rw [SortedMap.find?_eq_some_iff, ← htask]
    exact List.mem_of_find?_eq_some hf

theorem onKeepAliveTimeoutExpired_within (pool : ConnectionPoolInternal) (timer : TaskPtr) :
    (pool.onKeepAliveTimeoutExpired timer).Within pool := by
  intro q task hfind
  rcases pool.onKeepAliveTimeoutExpired_cases timer with heq | ⟨p, -, heq⟩
  · rw [heq] at hfind ⊢
    exact ⟨hfind, rfl⟩
  · rw [heq] at hfind ⊢
    replace hfind : (pool.connectionControls.erase p).find? q = some task := hfind
    rw [SortedMap.find?_erase] at hfind
    by_cases hq : q = p
    · rw [if_pos hq] at hfind
      cases hfind
    · rw [if_neg hq] at hfind
      exact ⟨hfind, rfl⟩

@[simp] theorem onKeepAliveTimeoutExpired_connections (pool : ConnectionPoolInternal)
    (timer : TaskPtr) : (pool.onKeepAliveTimeoutExpired timer).connections = pool.connections := by
  unfold onKeepAliveTimeoutExpired
  split <;> rfl

/-- A timer never removes a connection that is in use. -/
theorem onKeepAliveTimeoutExpired_inuse (hwf : pool.WellFormed)
    (huse : (pool.connections q).connectionStatus = .inuse) (timer : TaskPtr) :
    (pool.onKeepAliveTimeoutExpired timer).connectionControls.find? q =
      pool.connectionControls.find? q := by
  rcases pool.onKeepAliveTimeoutExpired_cases timer with heq | ⟨p, htimer, heq⟩
  · rw [heq]
  · have hidle : (pool.connections p).connectionStatus = .idle :=
      (hwf p _ htimer).mpr (Option.some_ne_none timer)
    have hne : q ≠ p := by
      intro hq
      rw [hq, hidle] at huse
      cases huse
    rw [heq]
    show (pool.connectionControls.erase p).find? q = _
    rw [SortedMap.find?_erase, if_neg hne]

/-! ## `findAndReuseConnection` -/

section
variable {poco : Poco} {url : String} {context : EasyHttpContext}

/-- Where no connection is found the pool stays as it is. -/
theorem findAndReuseConnection_none
    (h : (pool.findAndReuseConnection poco url context).1 = none) :
    (pool.findAndReuseConnection poco url context).2 = pool := by
  unfold findAndReuseConnection at h ⊢
  split at h
  · rfl
  · cases h

/-- What is handed out was idle, is in use then, and has no timer any more. -/
theorem findAndReuseConnection_some
    (h : (pool.findAndReuseConnection poco url context).1 = some p) :
    (∃ task, pool.connectionControls.find? p = some task) ∧
      (pool.connections p).connectionStatus = .idle ∧
      (pool.findAndReuseConnection poco url context).2.connectionControls =
        pool.connectionControls.set p none ∧
      (pool.findAndReuseConnection poco url context).2.connections =
        Function.update pool.connections p
          { pool.connections p with connectionStatus := .inuse } := by
  unfold findAndReuseConnection at h ⊢
  split at h
  · cases h
  · rename_i p' task hf
    cases h
    have hreusable := List.find?_some hf
    rw [ConnectionInternal.setInuseIfReusable_fst] at hreusable
    refine ⟨⟨task, ?_⟩, ConnectionInternal.idle_of_isReusable hreusable, ?_, ?_⟩
    · rw [SortedMap.find?_eq_some_iff]
      exact List.mem_of_find?_eq_some hf
    · cases task <;> rfl
    · rw [← ConnectionInternal.setInuseIfReusable_snd hreusable]
      cases task <;> rfl

end

/-! ## `createConnection` -/

/-- A new connection is in the pool, in use and without a timer. -/
theorem createConnection_ok {poco : Poco} {url : String} {context : EasyHttpContext}
    {sslContext : Except HttpException Unit}
    (h : pool.createConnection poco p url context sslContext = .ok pool') :
    ∃ c : ConnectionInternal, c.connectionStatus = .inuse ∧ c.cancelled = false ∧
      pool'.connectionControls = pool.connectionControls.set p none ∧
      pool'.connections = Function.update pool.connections p c := by
  unfold createConnection at h
  cases hs : createSession poco url sslContext with
  | error e =>
    rw [hs] at h
    cases h
  | ok u =>
    cases hc : ConnectionInternal.create poco url context with
    | error e =>
      rw [hs, hc] at h
      cases h
    | ok c =>
      rw [hs, hc] at h
      cases h
      obtain ⟨huse, hnot⟩ := ConnectionInternal.create_status hc
      exact ⟨c, huse, hnot, rfl, rfl⟩

/-- A connection put into the pool in use, without a timer. -/
theorem wellFormed_set {c : ConnectionInternal} (hwf : pool.WellFormed)
    (huse : c.connectionStatus = .inuse)
    (hcontrols : pool'.connectionControls = pool.connectionControls.set p none)
    (hconnections : pool'.connections = Function.update pool.connections p c) :
    pool'.WellFormed := by
  intro q task hfind
  rw [hcontrols, SortedMap.find?_set] at hfind
  rw [hconnections]
  by_cases hq : q = p
  · rw [if_pos hq] at hfind
    cases hfind
    rw [hq, Function.update_self, huse]
    simp
  · rw [if_neg hq] at hfind
    rw [Function.update_of_ne hq]
    exact hwf q task hfind

/-! ## `releaseConnection` -/

/-- `updateConnections` removes at most one connection, an idle one. -/
theorem updateConnections_cases (pool : ConnectionPoolInternal) :
    pool.updateConnections.2 = pool ∨
      ∃ p task, pool.updateConnections.2 = ((pool.cancelTask task).removeConnection p).2 := by
  unfold updateConnections
  split
  · exact .inl rfl
  split
  · exact .inl rfl
  split
  · exact .inl rfl
  · exact .inr ⟨_, _, rfl⟩

theorem updateConnections_within (pool : ConnectionPoolInternal) :
    pool.updateConnections.2.Within pool := by
  rcases pool.updateConnections_cases with heq | ⟨p, task, heq⟩
  · rw [heq]
    exact fun _ _ hfind => ⟨hfind, rfl⟩
  · rw [heq]
    exact removeConnection_within (pool.cancelTask task) p

theorem updateConnections_connections (pool : ConnectionPoolInternal) :
    pool.updateConnections.2.connections = pool.connections := by
  rcases pool.updateConnections_cases with heq | ⟨p, task, heq⟩
  · rw [heq]
  · rw [heq, removeConnection_connections]
    rfl

/-- A connection as `onConnectionReleased` leaves it. -/
def releasedConnection (pool : ConnectionPoolInternal) (p : ConnectionPtr)
    (listenerInvalidated : Bool) : ConnectionInternal :=
  { pool.connections p with
    connectionStatus := .idle
    connectionStatusListener := (pool.connections p).listenerAfter listenerInvalidated }

/-- The pool with a new listener of a connection. -/
def setListener (pool : ConnectionPoolInternal) (p : ConnectionPtr)
    (listener : Option ListenerPtr) : ConnectionPoolInternal :=
  pool.setConnection p ((pool.connections p).setConnectionStatusListener listener)

section
variable (now : Timestamp) (listenerInvalidated : Bool)

/-- Releasing a connection that the pool does not have changes nothing. -/
theorem releaseConnection_removed (hnone : pool.connectionControls.find? p = none) :
    pool.releaseConnection p now listenerInvalidated = (.ok false, pool) := by
  unfold releaseConnection
  rw [hnone]

/-- Releasing an idle connection changes at most its listener. -/
theorem releaseConnection_idle (hfind : pool.connectionControls.find? p = some task)
    (hidle : (pool.connections p).connectionStatus = .idle) :
    pool.releaseConnection p now listenerInvalidated =
      (.ok false, pool.setListener p
        ((pool.connections p).listenerAfter listenerInvalidated)) := by
  unfold releaseConnection
  rw [hfind, ConnectionInternal.onConnectionReleased_eq, hidle]
  show (_, pool.setConnection p _) = _
  rw [← hidle]
  rfl

/-- The pool when a connection in use was released and its timer is running. -/
def withTimer (pool : ConnectionPoolInternal) (p : ConnectionPtr) : ConnectionPoolInternal :=
  (pool.setConnection p (pool.releasedConnection p listenerInvalidated)).startKeepAliveTimeout p now

/-- Releasing a connection in use. -/
theorem releaseConnection_inuse (hfind : pool.connectionControls.find? p = some task)
    (huse : (pool.connections p).connectionStatus = .inuse) :
    pool.releaseConnection p now listenerInvalidated =
      if (pool.connections p).cancelled then
        (.ok false, ((pool.setConnection p
          (pool.releasedConnection p listenerInvalidated)).removeConnection p).2)
      else
        ((pool.withTimer now listenerInvalidated p).updateConnections.1.map fun _ => true,
          (pool.withTimer now listenerInvalidated p).updateConnections.2) := by
  unfold releaseConnection
  rw [hfind, ConnectionInternal.onConnectionReleased_eq, huse]
  by_cases hc : (pool.connections p).cancelled = true
  · rw [if_pos hc]
    simp only [releasedConnection, hc, decide_true, Bool.not_true, Bool.false_eq_true, if_false,
      if_true]
  · rw [if_neg hc]
    rw [Bool.not_eq_true] at hc
    simp only [releasedConnection, withTimer, hc, decide_true, Bool.not_true, Bool.false_eq_true,
      if_false]

end

/-- A connection that is released and kept by the pool has a timer. -/
theorem withTimer_wellFormed (hwf : pool.WellFormed) (now : Timestamp)
    (listenerInvalidated : Bool) : (pool.withTimer now listenerInvalidated p).WellFormed := by
  intro q task hfind
  replace hfind : (pool.connectionControls.set p (some pool.tasks.next)).find? q = some task :=
    hfind
  rw [SortedMap.find?_set] at hfind
  show (Function.update pool.connections p _ q).connectionStatus = _ ↔ _
  by_cases hq : q = p
  · rw [if_pos hq] at hfind
    cases hfind
    rw [hq, Function.update_self]
    simp [releasedConnection]
  · rw [if_neg hq] at hfind
    rw [Function.update_of_ne hq]
    exact hwf q task hfind

/-- When connections leave, none comes in that was not there. -/
theorem Within.find?_eq_none (h : pool'.Within pool)
    (hnone : pool.connectionControls.find? q = none) :
    pool'.connectionControls.find? q = none := by
  cases hfind : pool'.connectionControls.find? q with
  | none => rfl
  | some task =>
    rw [(h q task hfind).1] at hnone
    cases hnone

/-- Releasing puts nothing into the pool. -/
theorem releaseConnection_find?_eq_none (hnone : pool.connectionControls.find? q = none)
    (now : Timestamp) (listenerInvalidated : Bool) :
    (pool.releaseConnection p now listenerInvalidated).2.connectionControls.find? q = none := by
  cases hfind : pool.connectionControls.find? p with
  | none =>
    rw [releaseConnection_removed now listenerInvalidated hfind]
    exact hnone
  | some task =>
    have hne : q ≠ p := by
      intro heq
      rw [heq, hfind] at hnone
      cases hnone
    cases hstatus : (pool.connections p).connectionStatus with
    | idle =>
      rw [releaseConnection_idle now listenerInvalidated hfind hstatus]
      exact hnone
    | inuse =>
      rw [releaseConnection_inuse now listenerInvalidated hfind hstatus]
      split
      · exact (removeConnection_within _ p).find?_eq_none hnone
      · refine (updateConnections_within _).find?_eq_none ?_
        show (pool.connectionControls.set p _).find? q = none
        rw [SortedMap.find?_set, if_neg hne]
        exact hnone

/-- What `releaseConnection` leaves: a well-formed pool, in which the other connections are as
before or removed, and which has `p` at most as a connection that it had, idle and, if it was in
use, not cancelled. -/
structure Released (pool pool' : ConnectionPoolInternal) (p : ConnectionPtr)
    (listenerInvalidated : Bool) : Prop where
  wellFormed : pool'.WellFormed
  others : ∀ q ≠ p, pool'.connections q = pool.connections q ∧
    (pool'.connectionControls.find? q = pool.connectionControls.find? q ∨
      pool'.connectionControls.find? q = none)
  own : pool'.connectionControls.find? p = none ∨
    (pool.connectionControls.find? p ≠ none ∧ (pool'.connections p).connectionStatus = .idle ∧
      ((pool.connections p).connectionStatus = .inuse → (pool.connections p).cancelled = false))
  cancelled : (pool'.connections p).cancelled = (pool.connections p).cancelled
  listener : pool.connectionControls.find? p ≠ none →
    (pool'.connections p).connectionStatusListener =
      (pool.connections p).listenerAfter listenerInvalidated

theorem released_of_within {mid : ConnectionPoolInternal} {listenerInvalidated : Bool}
    (hmid : Released pool mid p listenerInvalidated) (hwithin : pool'.Within mid)
    (hsame : pool'.connections = mid.connections) :
    Released pool pool' p listenerInvalidated := by
  have hfind : ∀ q, pool'.connectionControls.find? q = none ∨
      pool'.connectionControls.find? q = mid.connectionControls.find? q := by
    intro q
    cases hq : pool'.connectionControls.find? q with
    | none => exact .inl rfl
    | some task => exact .inr (hwithin q task hq).1.symm
  refine ⟨hwithin.wellFormed hmid.wellFormed, fun q hq => ?_, ?_, ?_, ?_⟩
  · obtain ⟨hconn, hmem⟩ := hmid.others q hq
    rw [hsame]
    refine ⟨hconn, ?_⟩
    rcases hfind q with hnone | heq
    · exact .inr hnone
    · rw [heq]
      exact hmem
  · rcases hfind p with hnone | heq
    · exact .inl hnone
    · rw [heq, hsame]
      exact hmid.own
  · rw [hsame]
    exact hmid.cancelled
  · rw [hsame]
    exact hmid.listener

/-- A change of the listener keeps a connection released. -/
theorem setListener_released {listenerInvalidated : Bool} (hwf : pool.WellFormed)
    (hfind : pool.connectionControls.find? p ≠ none)
    (hidle : (pool.connections p).connectionStatus = .idle) :
    Released pool
      (pool.setListener p ((pool.connections p).listenerAfter listenerInvalidated)) p
      listenerInvalidated := by
  have hown : (pool.setListener p ((pool.connections p).listenerAfter
      listenerInvalidated)).connections p = (pool.connections p).setConnectionStatusListener
        ((pool.connections p).listenerAfter listenerInvalidated) := Function.update_self _ _ _
  have hother : ∀ q ≠ p, (pool.setListener p ((pool.connections p).listenerAfter
      listenerInvalidated)).connections q = pool.connections q :=
    fun q hq => Function.update_of_ne hq _ _
  refine ⟨fun q task hfind => ?_, fun q hq => ⟨hother q hq, .inl rfl⟩,
    .inr ⟨hfind, ?_, fun huse => ?_⟩, ?_, fun _ => ?_⟩
  · by_cases hq : q = p
    · subst hq
      rw [hown]
      exact hwf q task hfind
    · rw [hother q hq]
      exact hwf q task hfind
  · rw [hown]
    exact hidle
  · rw [hidle] at huse
    cases huse
  · rw [hown]
    rfl
  · rw [hown]
    rfl

/-- A release leaves the connection in the pool as one that waits, or out of it. -/
theorem releaseConnection_released (hwf : pool.WellFormed) (now : Timestamp)
    (listenerInvalidated : Bool) :
    Released pool (pool.releaseConnection p now listenerInvalidated).2 p listenerInvalidated := by
  -- a connection that is not in the pool, or idle already, is released by nobody
  cases hfind : pool.connectionControls.find? p with
  | none =>
    rw [releaseConnection_removed now listenerInvalidated hfind]
    exact ⟨hwf, fun q _ => ⟨rfl, .inl rfl⟩, .inl hfind, rfl, fun hne => (hne hfind).elim⟩
  | some task =>
    cases hstatus : (pool.connections p).connectionStatus with
    | idle =>
      rw [releaseConnection_idle now listenerInvalidated hfind hstatus]
      exact setListener_released hwf (by rw [hfind]; simp) hstatus
    | inuse =>
      rw [releaseConnection_inuse now listenerInvalidated hfind hstatus]
      set released := pool.setConnection p (pool.releasedConnection p listenerInvalidated)
      have hown : released.connections p = pool.releasedConnection p listenerInvalidated :=
        Function.update_self _ _ _
      -- the other connections are not touched
      have hother : ∀ q ≠ p, released.connections q = pool.connections q :=
        fun q hq => Function.update_of_ne hq _ _
      -- a cancelled connection is removed; the others wait with a timer
      by_cases hc : (pool.connections p).cancelled = true
      · rw [if_pos hc]
        have hself : (released.removeConnection p).2.connectionControls.find? p = none := by
          rw [removeConnection_find?, if_pos rfl]
        have hrest : ∀ q ≠ p, (released.removeConnection p).2.connectionControls.find? q =
            pool.connectionControls.find? q := by
          intro q hq
          rw [removeConnection_find?, if_neg hq]
          rfl
        refine ⟨fun q task hq => ?_, fun q hq => ⟨?_, .inl (hrest q hq)⟩, .inl hself, ?_,
          fun _ => ?_⟩
        · have hne : q ≠ p := by
            intro heq
            rw [heq, hself] at hq
            cases hq
          rw [hrest q hne] at hq
          rw [removeConnection_connections, hother q hne]
          exact hwf q task hq
        · rw [removeConnection_connections, hother q hq]
        · rw [removeConnection_connections, hown]
          rfl
        · rw [removeConnection_connections, hown]
          rfl
      · rw [if_neg hc]
        rw [Bool.not_eq_true] at hc
        have hmid : Released pool (pool.withTimer now listenerInvalidated p) p
            listenerInvalidated := by
          refine ⟨withTimer_wellFormed hwf now listenerInvalidated,
            fun q hq => ⟨hother q hq, .inl ?_⟩, .inr ⟨by rw [hfind]; simp, ?_, fun _ => hc⟩, ?_,
            fun _ => ?_⟩
          · show (pool.connectionControls.set p _).find? q = _
            rw [SortedMap.find?_set, if_neg hq]
          · show (released.connections p).connectionStatus = _
            rw [hown]
            rfl
          · show (released.connections p).cancelled = _
            rw [hown]
            rfl
          · show (released.connections p).connectionStatusListener = _
            rw [hown]
            rfl
        exact released_of_within hmid (updateConnections_within _)
          (updateConnections_connections _)

/-! ## Cancelled connections -/

/-- What the pool may hand out was not cancelled. -/
def Reusable (pool : ConnectionPoolInternal) : Prop :=
  ∀ p task, pool.connectionControls.find? p = some task →
    (pool.connections p).connectionStatus = .idle → (pool.connections p).cancelled = false

/-- What the pool may hand out stays uncancelled when connections leave. -/
theorem Reusable.within (h : pool.Reusable) (hwithin : pool'.Within pool)
    (hcancelled : ∀ q, (pool'.connections q).cancelled = (pool.connections q).cancelled) :
    pool'.Reusable := by
  intro q task hfind hidle
  obtain ⟨hfind', hstatus⟩ := hwithin q task hfind
  rw [hcancelled]
  rw [hstatus] at hidle
  exact h q task hfind' hidle

/-- What the pool may hand out stays uncancelled when one connection is replaced by such a one. -/
theorem Reusable.set {c : ConnectionInternal} (h : pool.Reusable)
    (huse : c.connectionStatus = .inuse)
    (hcontrols : pool'.connectionControls = pool.connectionControls.set p none)
    (hconnections : pool'.connections = Function.update pool.connections p c) :
    pool'.Reusable := by
  intro q task hfind hidle
  rw [hcontrols, SortedMap.find?_set] at hfind
  rw [hconnections] at hidle ⊢
  by_cases hq : q = p
  · rw [hq, Function.update_self, huse] at hidle
    cases hidle
  · rw [if_neg hq] at hfind
    rw [Function.update_of_ne hq] at hidle ⊢
    exact h q task hfind hidle

/-- A change of the listener cancels no connection. -/
theorem Reusable.setListener (h : pool.Reusable) (p : ConnectionPtr)
    (listener : Option ListenerPtr) : (pool.setListener p listener).Reusable := by
  refine h.within (setConnection_within rfl) fun q => ?_
  show (Function.update pool.connections p _ q).cancelled = _
  by_cases hq : q = p
  · rw [hq, Function.update_self]
    rfl
  · rw [Function.update_of_ne hq]

/-- A cancelled connection that is released leaves the pool. -/
theorem Reusable.releaseConnection (h : pool.Reusable) (hwf : pool.WellFormed) (now : Timestamp)
    (listenerInvalidated : Bool) :
    (pool.releaseConnection p now listenerInvalidated).2.Reusable := by
  have hreleased := releaseConnection_released (p := p) hwf now listenerInvalidated
  intro q task hfind hidle
  by_cases hq : q = p
  · subst hq
    rw [hreleased.cancelled]
    rcases hreleased.own with hnone | ⟨hsome, -, hnot⟩
    · rw [hnone] at hfind
      cases hfind
    cases hstatus : (pool.connections q).connectionStatus with
    | inuse => exact hnot hstatus
    | idle =>
      obtain ⟨before, hbefore⟩ := Option.ne_none_iff_exists'.mp hsome
      exact h q before hbefore hstatus
  · obtain ⟨hconn, hmem⟩ := hreleased.others q hq
    rw [hconn] at hidle ⊢
    rcases hmem with heq | hnone
    · rw [heq] at hfind
      exact h q task hfind hidle
    · rw [hnone] at hfind
      cases hfind

end EasyHttp.ConnectionPoolInternal
