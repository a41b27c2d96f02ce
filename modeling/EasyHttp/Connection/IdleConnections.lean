import EasyHttp.Connection.ConnectionPoolInternalTheorems
import EasyHttp.Library.Runs
import Mathlib.Data.Finset.Card

/-!
# The idle connections of a pool

The methods of the pool are called in any order, with connections in any state, and its timers
fire when they like.

* `Scanned`: what the loop of `updateConnections` has found in a part of the pool;
* `Bounded`: no more connections are idle than the pool keeps, and no timer of the pool expires
  at the maximal time;
* `EvictsEarliest`: a release that makes one connection too many idle evicts one whose timer
  expires first;
* `pool_bounded`: what follows for every run.
-/

namespace EasyHttp.ConnectionPoolInternal

variable {pool pool' : ConnectionPoolInternal} {p q : ConnectionPtr}

/-! ## Counting -/

/-- The connections that are idle. -/
def idleConnections (pool : ConnectionPoolInternal) : Finset ConnectionPtr :=
  ((pool.connectionControls.entries.map Prod.fst).filter fun p =>
    (pool.connections p).connectionStatus = .idle).toFinset

/-- The idle connections are those of the pool that wait. -/
theorem mem_idleConnections : p ∈ pool.idleConnections ↔
    pool.connectionControls.find? p ≠ none ∧ (pool.connections p).connectionStatus = .idle := by
  rw [idleConnections, List.mem_toFinset, List.mem_filter, ne_eq, SortedMap.find?_eq_none_iff,
    not_not, decide_eq_true_eq]

/-- The pool counts its idle connections. -/
theorem getKeepAliveIdleConnectionCount_eq (pool : ConnectionPoolInternal) :
    pool.getKeepAliveIdleConnectionCount = pool.idleConnections.card := by
  rw [idleConnections, List.toFinset_card_of_nodup
    (pool.connectionControls.nodup_keys.filter _), getKeepAliveIdleConnectionCount,
    ← List.countP_eq_length_filter, List.countP_map]
  rfl

/-- No more connections are idle when none has become idle. -/
theorem idleCount_le (h : ∀ q, q ∈ pool'.idleConnections → q ∈ pool.idleConnections) :
    pool'.getKeepAliveIdleConnectionCount ≤ pool.getKeepAliveIdleConnectionCount := by
  rw [getKeepAliveIdleConnectionCount_eq, getKeepAliveIdleConnectionCount_eq]
  exact Finset.card_le_card h

/-- At most one more connection is idle when only `p` has become idle. -/
theorem idleCount_le_succ (h : ∀ q, q ∈ pool'.idleConnections → q ≠ p → q ∈ pool.idleConnections) :
    pool'.getKeepAliveIdleConnectionCount ≤ pool.getKeepAliveIdleConnectionCount + 1 := by
  rw [getKeepAliveIdleConnectionCount_eq, getKeepAliveIdleConnectionCount_eq]
  refine (Finset.card_le_card (t := insert p pool.idleConnections) fun q hq => ?_).trans
    (Finset.card_insert_le _ _)
  rw [Finset.mem_insert]
  by_cases hqp : q = p
  · exact .inl hqp
  · exact .inr (h q hq hqp)

/-- One connection less is idle when an idle one has gone. -/
theorem idleCount_lt (hp : p ∈ pool.idleConnections) (hgone : p ∉ pool'.idleConnections)
    (h : ∀ q, q ∈ pool'.idleConnections → q ∈ pool.idleConnections) :
    pool'.getKeepAliveIdleConnectionCount < pool.getKeepAliveIdleConnectionCount := by
  rw [getKeepAliveIdleConnectionCount_eq, getKeepAliveIdleConnectionCount_eq]
  refine Finset.card_lt_card ⟨h, fun hall => hgone (hall hp)⟩

theorem idleConnections_within (h : pool'.Within pool) (hq : q ∈ pool'.idleConnections) :
    q ∈ pool.idleConnections := by
  rw [mem_idleConnections] at hq ⊢
  obtain ⟨task, hfind⟩ := Option.ne_none_iff_exists'.mp hq.1
  obtain ⟨hbefore, hstatus⟩ := h q task hfind
  rw [hbefore, ← hstatus]
  exact ⟨Option.some_ne_none _, hq.2⟩

/-! ## The loop of `updateConnections` -/

/-- When the timer of a connection expires. -/
def expirationTime (pool : ConnectionPoolInternal) (task : TaskPtr) : Int64 :=
  (pool.tasks.deref task).keepAliveTimeoutExpirationTime.microseconds

/-- What the loop has found in the part `l` of the pool. -/
structure Scanned (pool : ConnectionPoolInternal) (l : List (ConnectionPtr × Option TaskPtr))
    (scan : IdleScan) : Prop where
  idleCount : scan.idleCount = l.countP fun itr =>
    (pool.connections itr.1).connectionStatus = .idle
  le : ∀ p task, (p, some task) ∈ l → (pool.connections p).connectionStatus = .idle →
    scan.earliestExpirationTime.microseconds ≤ pool.expirationTime task
  found : ∀ p task, scan.earliestTimeout = some (p, task) →
    (p, some task) ∈ l ∧ (pool.connections p).connectionStatus = .idle ∧
      pool.expirationTime task = scan.earliestExpirationTime.microseconds
  initial : scan.earliestTimeout = none → scan.earliestExpirationTime = timevalMax

/-- Before the loop nothing has been seen. -/
theorem scanned_nil : Scanned pool [] {} := by
  refine ⟨rfl, fun p task h => ?_, fun p task h => ?_, fun _ => rfl⟩
  · cases h
  · cases h

/-- One round of the loop, over a connection that has a timer if it is idle. -/
theorem scanConnection_scanned {l : List (ConnectionPtr × Option TaskPtr)} {scan : IdleScan}
    {itr : ConnectionPtr × Option TaskPtr}
    (htask : (pool.connections itr.1).connectionStatus = .idle → itr.2 ≠ none)
    (h : Scanned pool l scan) :
    ∃ scan', pool.scanConnection scan itr = .ok scan' ∧ Scanned pool (l ++ [itr]) scan' := by
  obtain ⟨p, task⟩ := itr
  have hcount := h.idleCount
  -- an idle connection has a timer, and is counted
  by_cases hidle : (pool.connections p).connectionStatus = .idle
  · obtain ⟨task, rfl⟩ := Option.ne_none_iff_exists'.mp (htask hidle)
    unfold scanConnection
    rw [if_pos hidle]
    have hcount' : scan.idleCount + 1 = (l ++ [(p, some task)]).countP fun itr =>
        (pool.connections itr.1).connectionStatus = .idle := by
      rw [List.countP_append, hcount, List.countP_singleton, if_pos (decide_eq_true hidle)]
    -- it is the earliest so far, or the one found before stays
    by_cases hlt : pool.expirationTime task < scan.earliestExpirationTime.microseconds
    · refine ⟨_, if_pos hlt, hcount', fun q timer hmem hq => ?_, fun q timer heq => ?_,
        fun hnone => by cases hnone⟩
      · rcases List.mem_append.mp hmem with hmem | hmem
        · exact Int64.le_of_lt (Int64.lt_of_lt_of_le hlt (h.le q timer hmem hq))
        · cases List.mem_singleton.mp hmem
          exact Int64.le_refl _
      · cases heq
        exact ⟨List.mem_append_right _ (List.mem_singleton_self _), hidle, rfl⟩
    · refine ⟨_, if_neg hlt, hcount', fun q timer hmem hq => ?_, fun q timer heq => ?_, h.initial⟩
      · rcases List.mem_append.mp hmem with hmem | hmem
        · exact h.le q timer hmem hq
        · cases List.mem_singleton.mp hmem
          exact Int64.not_lt.mp hlt
      · obtain ⟨hmem, hrest⟩ := h.found q timer heq
        exact ⟨List.mem_append_left _ hmem, hrest⟩
  -- a connection in use is passed over
  · unfold scanConnection
    rw [if_neg hidle]
    refine ⟨scan, rfl, ?_, fun q timer hmem hq => ?_, fun q timer heq => ?_, h.initial⟩
    · rw [List.countP_append, hcount, List.countP_singleton, if_neg (by simpa using hidle)]
      rfl
    · rcases List.mem_append.mp hmem with hmem | hmem
      · exact h.le q timer hmem hq
      · cases List.mem_singleton.mp hmem
        exact (hidle hq).elim
    · obtain ⟨hmem, hrest⟩ := h.found q timer heq
      exact ⟨List.mem_append_left _ hmem, hrest⟩

/-- The whole loop. -/
theorem foldlM_scanned (hwf : pool.WellFormed) :
    ∃ scan, pool.connectionControls.entries.foldlM pool.scanConnection {} = .ok scan ∧
      Scanned pool pool.connectionControls.entries scan := by
  suffices hfold : ∀ l l' scan, l ++ l' = pool.connectionControls.entries → Scanned pool l scan →
      ∃ scan', l'.foldlM pool.scanConnection scan = .ok scan' ∧
        Scanned pool pool.connectionControls.entries scan' from hfold [] _ {} rfl scanned_nil
  intro l l' scan hparts hscan
  induction l' generalizing l scan with
  | nil =>
    rw [List.append_nil] at hparts
    rw [← hparts]
    exact ⟨scan, rfl, hscan⟩
  | cons itr l' ih =>
    have hmem : itr ∈ pool.connectionControls.entries := by
      rw [← hparts]
      exact List.mem_append_right _ List.mem_cons_self
    have htask : (pool.connections itr.1).connectionStatus = .idle → itr.2 ≠ none :=
      (hwf itr.1 itr.2 (SortedMap.find?_eq_some_iff.mpr hmem)).mp
    obtain ⟨scan', hrun, hscan'⟩ := scanConnection_scanned htask hscan
    rw [List.foldlM_cons, hrun]
    refine ih (l ++ [itr]) scan' ?_ hscan'
    rw [List.append_assoc]
    exact hparts

/-- An idle connection whose timer expires first. -/
structure Earliest (pool : ConnectionPoolInternal) (p : ConnectionPtr) (task : TaskPtr) :
    Prop where
  find : pool.connectionControls.find? p = some (some task)
  idle : (pool.connections p).connectionStatus = .idle
  le : ∀ q timer, pool.connectionControls.find? q = some (some timer) →
    (pool.connections q).connectionStatus = .idle →
      pool.expirationTime task ≤ pool.expirationTime timer

/-- The timers of the pool exist and do not expire at the maximal time. -/
def Expirable (pool : ConnectionPoolInternal) : Prop :=
  ∀ p task, pool.connectionControls.find? p = some (some task) →
    task < pool.tasks.next ∧ pool.expirationTime task < timevalMax.microseconds

/-- `updateConnections` dereferences no NULL pointer, and it evicts an earliest connection if too
many are idle. -/
theorem updateConnections_spec (hwf : pool.WellFormed) (hexp : pool.Expirable) :
    pool.updateConnections.1 = .ok () ∧
      if pool.getKeepAliveIdleConnectionCount ≤ pool.keepAliveIdleCountMax then
        pool.updateConnections.2 = pool
      else ∃ p task, Earliest pool p task ∧
        pool.updateConnections.2 = ((pool.cancelTask task).removeConnection p).2 := by
  obtain ⟨scan, hrun, hscan⟩ := foldlM_scanned hwf
  have hcount : scan.idleCount = pool.getKeepAliveIdleConnectionCount := hscan.idleCount
  unfold updateConnections
  rw [hrun]
  simp only [hcount]
  -- the bound is kept, or exactly one goes
  by_cases hle : pool.getKeepAliveIdleConnectionCount ≤ pool.keepAliveIdleCountMax
  · rw [if_pos hle, if_pos hle]
    exact ⟨rfl, rfl⟩
  rw [if_neg hle, if_neg hle]
  cases hearliest : scan.earliestTimeout with
  | none =>
    -- there is an idle connection, and its timer is earlier than the maximal time
    have hpos : 0 < pool.connectionControls.entries.countP fun itr =>
        (pool.connections itr.1).connectionStatus = .idle := by
      show 0 < pool.getKeepAliveIdleConnectionCount
      omega
    obtain ⟨⟨p, task⟩, hmem, hidle⟩ := List.countP_pos_iff.mp hpos
    rw [decide_eq_true_eq] at hidle
    have hfind := SortedMap.find?_eq_some_iff.mpr hmem
    obtain ⟨task, rfl⟩ := Option.ne_none_iff_exists'.mp ((hwf p task hfind).mp hidle)
    have hle := hscan.le p task hmem hidle
    rw [hscan.initial hearliest] at hle
    exact (Int64.not_lt.mpr hle (hexp p task hfind).2).elim
  -- the scan has found the earliest timer
  | some found =>
    obtain ⟨p, task⟩ := found
    obtain ⟨hmem, hidle, hexpires⟩ := hscan.found p task hearliest
    refine ⟨rfl, p, task, ⟨SortedMap.find?_eq_some_iff.mpr hmem, hidle,
      fun q timer hfind hq => ?_⟩, rfl⟩
    rw [hexpires]
    exact hscan.le q timer (SortedMap.find?_eq_some_iff.mp hfind) hq

/-! ## The methods as steps -/

/-- A call of a method of the pool, or of one of its connections. `getConnection` is
`findAndReuseConnection` and, when that finds nothing, `createConnection`. -/
inductive Operation where
  | findAndReuseConnection (url : String) (context : EasyHttpContext)
  | createConnection (p : ConnectionPtr) (url : String) (context : EasyHttpContext)
    (sslContext : Except HttpException Unit)
  | releaseConnection (p : ConnectionPtr) (now : Timestamp) (listenerInvalidated : Bool)
  | removeConnection (p : ConnectionPtr)
  | onKeepAliveTimeoutExpired (task : TaskPtr)
  | cancel (p : ConnectionPtr)
  | setConnectionStatusListener (p : ConnectionPtr) (listener : Option ListenerPtr)

/-- A call that throws changes nothing. A new connection has an address that the pool does not
have. -/
def step (poco : Poco) (pool : ConnectionPoolInternal) : Operation → Option ConnectionPoolInternal
  | .findAndReuseConnection url context => some (pool.findAndReuseConnection poco url context).2
  | .createConnection p url context sslContext =>
    if pool.connectionControls.find? p ≠ none then none
    else match pool.createConnection poco p url context sslContext with
      | .ok pool => some pool
      | .error _ => some pool
  | .releaseConnection p now listenerInvalidated =>
    some (pool.releaseConnection p now listenerInvalidated).2
  | .removeConnection p => some (pool.removeConnection p).2
  | .onKeepAliveTimeoutExpired task => some (pool.onKeepAliveTimeoutExpired task)
  | .cancel p => some (pool.setConnection p (pool.connections p).cancel)
  | .setConnectionStatusListener p listener => some (pool.setListener p listener)

/-- The timer of a release expires before the maximal time. -/
def ExpiresInTime (pool : ConnectionPoolInternal) : Operation → Prop
  | .releaseConnection _ now _ =>
    now.microseconds + pool.keepAliveTimeoutSec * 1000000 < timevalMax.microseconds
  | _ => True

instance (pool : ConnectionPoolInternal) (a : Operation) : Decidable (ExpiresInTime pool a) := by
  unfold ExpiresInTime
  split <;> infer_instance

/-- The result of a release, which dereferences no NULL pointer: if the connection was released
and too many connections are idle then, an idle one whose timer expires first is evicted. -/
def ReleaseEvicts (pool : ConnectionPoolInternal) (p : ConnectionPtr) (now : Timestamp)
    (listenerInvalidated : Bool) (result : Except HttpException Bool × ConnectionPoolInternal) :
    Prop :=
  (∃ released, result.1 = .ok released) ∧
    (result.1 = .ok true →
      let started := pool.withTimer now listenerInvalidated p
      if started.getKeepAliveIdleConnectionCount ≤ pool.keepAliveIdleCountMax then
        result.2 = started
      else ∃ q task, Earliest started q task ∧
        result.2 = ((started.cancelTask task).removeConnection q).2)

/-- What an operation evicts is what has waited longest. -/
def EvictsEarliest (pool : ConnectionPoolInternal) : Operation → Prop
  | .releaseConnection p now listenerInvalidated =>
    ReleaseEvicts pool p now listenerInvalidated (pool.releaseConnection p now listenerInvalidated)
  | _ => True

/-- The invariant of the pool. -/
structure Bounded (pool : ConnectionPoolInternal) : Prop where
  wellFormed : pool.WellFormed
  expirable : pool.Expirable
  idleCount : pool.getKeepAliveIdleConnectionCount ≤ pool.keepAliveIdleCountMax

/-- The settings of the pool and the times of its timers are the same. -/
structure SameTimers (pool pool' : ConnectionPoolInternal) : Prop where
  keepAliveIdleCountMax : pool'.keepAliveIdleCountMax = pool.keepAliveIdleCountMax
  next : pool'.tasks.next = pool.tasks.next
  expirationTime : ∀ task, pool'.expirationTime task = pool.expirationTime task

theorem SameTimers.refl (pool : ConnectionPoolInternal) : SameTimers pool pool :=
  ⟨rfl, rfl, fun _ => rfl⟩

theorem cancelTask_sameTimers (pool : ConnectionPoolInternal) (task : TaskPtr) :
    SameTimers pool (pool.cancelTask task) := by
  refine ⟨rfl, Store.next_write .., fun timer => ?_⟩
  unfold expirationTime cancelTask
  by_cases heq : task = timer
  · rw [← heq]
    by_cases hlt : task < pool.tasks.next
    · rw [Store.deref_write_self hlt]
    · rw [Store.deref_write_of_le (Nat.not_lt.mp hlt)]
  · rw [Store.deref_write_of_ne _ heq]

theorem removeConnection_sameTimers (pool : ConnectionPoolInternal) (p : ConnectionPtr) :
    SameTimers pool (pool.removeConnection p).2 := by
  unfold removeConnection
  split <;> exact ⟨rfl, rfl, fun _ => rfl⟩

theorem findAndReuseConnection_sameTimers (poco : Poco) (pool : ConnectionPoolInternal)
    (url : String) (context : EasyHttpContext) :
    SameTimers pool (pool.findAndReuseConnection poco url context).2 := by
  unfold findAndReuseConnection
  split
  · exact .refl _
  · rename_i p task _
    cases task with
    | none => exact ⟨rfl, rfl, fun _ => rfl⟩
    | some task =>
      have hsame := cancelTask_sameTimers (pool.setConnection p
        ((pool.connections p).setInuseIfReusable poco url context).2) task
      exact ⟨rfl, hsame.next, hsame.expirationTime⟩

theorem createConnection_sameTimers {poco : Poco} {url : String} {context : EasyHttpContext}
    {sslContext : Except HttpException Unit}
    (h : pool.createConnection poco p url context sslContext = .ok pool') :
    SameTimers pool pool' := by
  obtain ⟨_, -, h⟩ := Exec.exists_of_bind_ok h
  obtain ⟨_, -, h⟩ := Exec.exists_of_bind_ok h
  cases h
  exact ⟨rfl, rfl, fun _ => rfl⟩

/-- Connections leave the pool. -/
theorem Bounded.within (h : Bounded pool) (hwithin : pool'.Within pool)
    (hsame : SameTimers pool pool') : Bounded pool' := by
  refine ⟨hwithin.wellFormed h.wellFormed, fun p task hfind => ?_, ?_⟩
  · rw [hsame.next, hsame.expirationTime]
    exact h.expirable p task (hwithin p _ hfind).1
  · rw [hsame.keepAliveIdleCountMax]
    exact (idleCount_le fun q hq => idleConnections_within hwithin hq).trans h.idleCount

/-- A connection is put into the pool in use. -/
theorem Bounded.set {c : ConnectionInternal} (h : Bounded pool) (huse : c.connectionStatus = .inuse)
    (hcontrols : pool'.connectionControls = pool.connectionControls.set p none)
    (hconnections : pool'.connections = Function.update pool.connections p c)
    (hsame : SameTimers pool pool') : Bounded pool' := by
  have hfindBefore : ∀ q ≠ p,
      pool'.connectionControls.find? q = pool.connectionControls.find? q := by
    intro q hq
    rw [hcontrols, SortedMap.find?_set, if_neg hq]
  refine ⟨wellFormed_set h.wellFormed huse hcontrols hconnections, fun q task hfind => ?_, ?_⟩
  · have hq : q ≠ p := by
      intro heq
      rw [hcontrols, SortedMap.find?_set, if_pos heq] at hfind
      cases hfind
    rw [hfindBefore q hq] at hfind
    rw [hsame.next, hsame.expirationTime]
    exact h.expirable q task hfind
  · rw [hsame.keepAliveIdleCountMax]
    refine (idleCount_le fun q hq => ?_).trans h.idleCount
    rw [mem_idleConnections, hconnections] at hq
    have hne : q ≠ p := by
      intro heq
      rw [heq, Function.update_self, huse] at hq
      cases hq.2
    rw [Function.update_of_ne hne, hfindBefore q hne] at hq
    exact mem_idleConnections.mpr hq

section
variable {now : Timestamp} {listenerInvalidated : Bool}

/-- The pool when the timer of a released connection is running. -/
theorem withTimer_expirable (h : Bounded pool)
    (hexp : now.microseconds + pool.keepAliveTimeoutSec * 1000000 < timevalMax.microseconds) :
    (pool.withTimer now listenerInvalidated p).Expirable := by
  intro q task hfind
  replace hfind : (pool.connectionControls.set p (some pool.tasks.next)).find? q =
    some (some task) := hfind
  show task < (pool.tasks.alloc _).next ∧
    ((pool.tasks.alloc _).deref task).keepAliveTimeoutExpirationTime.microseconds < _
  rw [Store.next_alloc]
  rw [SortedMap.find?_set] at hfind
  by_cases hq : q = p
  · rw [if_pos hq] at hfind
    cases hfind
    rw [Store.deref_alloc_next]
    exact ⟨Nat.lt_succ_self _, hexp⟩
  · rw [if_neg hq] at hfind
    obtain ⟨hlt, htime⟩ := h.expirable q task hfind
    rw [Store.deref_alloc hlt]
    exact ⟨Nat.lt_succ_of_lt hlt, htime⟩

/-- A release adds one connection that waits. -/
theorem withTimer_idleCount :
    (pool.withTimer now listenerInvalidated p).getKeepAliveIdleConnectionCount ≤
      pool.getKeepAliveIdleConnectionCount + 1 := by
  refine @idleCount_le_succ _ _ p fun q hq hne => ?_
  rw [mem_idleConnections] at hq ⊢
  obtain ⟨hfind, hidle⟩ := hq
  replace hfind : (pool.connectionControls.set p (some pool.tasks.next)).find? q ≠ none := hfind
  replace hidle : (Function.update pool.connections p _ q).connectionStatus = .idle := hidle
  rw [SortedMap.find?_set, if_neg hne] at hfind
  rw [Function.update_of_ne hne] at hidle
  exact ⟨hfind, hidle⟩

/-- When the connection of an earliest timer is evicted, one connection less is idle. -/
theorem evict_bounded {q : ConnectionPtr} {task : TaskPtr} (hwf : pool.WellFormed)
    (hexp : pool.Expirable) (hearliest : Earliest pool q task)
    (hcount : pool.getKeepAliveIdleConnectionCount ≤ pool.keepAliveIdleCountMax + 1) :
    Bounded ((pool.cancelTask task).removeConnection q).2 := by
  have hwithin : ((pool.cancelTask task).removeConnection q).2.Within pool :=
    removeConnection_within (pool.cancelTask task) q
  have hremove := removeConnection_sameTimers (pool.cancelTask task) q
  have hcancel := cancelTask_sameTimers pool task
  refine ⟨hwithin.wellFormed hwf, fun r timer hfind => ?_, ?_⟩
  · rw [hremove.next, hremove.expirationTime, hcancel.next, hcancel.expirationTime]
    exact hexp r timer (hwithin r _ hfind).1
  · rw [hremove.keepAliveIdleCountMax, hcancel.keepAliveIdleCountMax]
    have hidle : q ∈ pool.idleConnections := by
      rw [mem_idleConnections, hearliest.find]
      exact ⟨Option.some_ne_none _, hearliest.idle⟩
    have hgone : q ∉ ((pool.cancelTask task).removeConnection q).2.idleConnections := by
      rw [mem_idleConnections, removeConnection_find?, if_pos rfl]
      exact fun h => h.1 rfl
    have hlt := idleCount_lt hidle hgone fun r hr => idleConnections_within hwithin hr
    omega

/-- A release answers, evicts an earliest connection if too many are idle, and leaves the pool
bounded. -/
theorem releaseConnection_bounded (h : Bounded pool)
    (hexp : now.microseconds + pool.keepAliveTimeoutSec * 1000000 < timevalMax.microseconds) :
    ReleaseEvicts pool p now listenerInvalidated
        (pool.releaseConnection p now listenerInvalidated) ∧
      Bounded (pool.releaseConnection p now listenerInvalidated).2 := by
  cases hfind : pool.connectionControls.find? p with
  | none =>
    rw [releaseConnection_removed now listenerInvalidated hfind]
    exact ⟨⟨⟨false, rfl⟩, fun hfalse => by cases hfalse⟩, h⟩
  | some task =>
    -- only a connection in use is released
    cases hstatus : (pool.connections p).connectionStatus with
    | idle =>
      rw [releaseConnection_idle now listenerInvalidated hfind hstatus]
      exact ⟨⟨⟨false, rfl⟩, fun hfalse => by cases hfalse⟩,
        h.within (setConnection_within rfl) ⟨rfl, rfl, fun _ => rfl⟩⟩
    | inuse =>
      rw [releaseConnection_inuse now listenerInvalidated hfind hstatus]
      -- a cancelled one is removed; otherwise one more waits, and the pool is updated
      by_cases hc : (pool.connections p).cancelled = true
      · rw [if_pos hc]
        refine ⟨⟨⟨false, rfl⟩, fun hfalse => by cases hfalse⟩, h.within (fun q timer hq => ?_) ?_⟩
        · have hne : q ≠ p := by
            intro heq
            rw [removeConnection_find?, if_pos heq] at hq
            cases hq
          rw [removeConnection_find?, if_neg hne] at hq
          refine ⟨hq, ?_⟩
          rw [removeConnection_connections]
          exact congrArg _ (Function.update_of_ne hne ..)
        · have hsame := removeConnection_sameTimers
            (pool.setConnection p (pool.releasedConnection p listenerInvalidated)) p
          exact ⟨hsame.keepAliveIdleCountMax, hsame.next, hsame.expirationTime⟩
      · rw [if_neg hc]
        have hwf := @withTimer_wellFormed pool p h.wellFormed now listenerInvalidated
        have hexpirable := @withTimer_expirable pool p now listenerInvalidated h hexp
        have hcount := (@withTimer_idleCount pool p now listenerInvalidated).trans
          (Nat.succ_le_succ h.idleCount)
        obtain ⟨hok, hevict⟩ := updateConnections_spec hwf hexpirable
        rw [hok]
        refine ⟨⟨⟨true, rfl⟩, fun _ => hevict⟩, ?_⟩
        by_cases hle : (pool.withTimer now listenerInvalidated p).getKeepAliveIdleConnectionCount ≤
            (pool.withTimer now listenerInvalidated p).keepAliveIdleCountMax
        · rw [if_pos hle] at hevict
          rw [hevict]
          exact ⟨hwf, hexpirable, hle⟩
        · rw [if_neg hle] at hevict
          obtain ⟨q, timer, hearliest, heq⟩ := hevict
          rw [heq]
          exact evict_bounded hwf hexpirable hearliest hcount

end

/-- Every method keeps the pool bounded. -/
theorem step_bounded {poco : Poco} {a : Operation} (h : Bounded pool) (hexp : ExpiresInTime pool a)
    (hstep : step poco pool a = some pool') : Bounded pool' := by
  cases a with
  | findAndReuseConnection url context =>
    cases hstep
    -- a reuse makes one wait less
    cases hfound : (pool.findAndReuseConnection poco url context).1 with
    | none =>
      rw [findAndReuseConnection_none hfound]
      exact h
    | some p =>
      obtain ⟨-, -, hcontrols, hconnections⟩ := findAndReuseConnection_some hfound
      exact h.set rfl hcontrols hconnections (findAndReuseConnection_sameTimers ..)
  | createConnection p url context sslContext =>
    rw [step] at hstep
    split at hstep
    · cases hstep
    split at hstep
    · rename_i pool' hcreate
      cases hstep
      -- a new connection is in use
      obtain ⟨c, huse, -, hcontrols, hconnections⟩ := createConnection_ok hcreate
      exact h.set huse hcontrols hconnections (createConnection_sameTimers hcreate)
    · cases hstep
      exact h
  | releaseConnection p now listenerInvalidated =>
    cases hstep
    exact (releaseConnection_bounded h hexp).2
  | removeConnection p =>
    cases hstep
    exact h.within (removeConnection_within _ _) (removeConnection_sameTimers _ _)
  | onKeepAliveTimeoutExpired task =>
    cases hstep
    refine h.within (onKeepAliveTimeoutExpired_within _ _) ?_
    -- a timer that runs out removes its connection, or finds it gone
    rcases pool.onKeepAliveTimeoutExpired_cases task with heq | ⟨p, -, heq⟩
    · rw [heq]
      exact .refl _
    · rw [heq]
      exact ⟨rfl, rfl, fun _ => rfl⟩
  | cancel p =>
    cases hstep
    exact h.within (setConnection_within rfl) ⟨rfl, rfl, fun _ => rfl⟩
  | setConnectionStatusListener p listener =>
    cases hstep
    exact h.within (setConnection_within rfl) ⟨rfl, rfl, fun _ => rfl⟩

/-- An empty pool is within the bound. -/
theorem bounded_create (keepAliveIdleCountMax : ℕ) (keepAliveTimeoutSec : Int64) :
    Bounded (create keepAliveIdleCountMax keepAliveTimeoutSec) :=
  ⟨wellFormed_create _ _, fun _ _ h => (by cases h), Nat.zero_le _⟩

/-- In every run whose timers expire before the maximal time, a connection of the pool is idle
exactly if it has a timer, no more connections are idle than the pool keeps, and every release
evicts, if it must, an idle connection whose timer expires first, and dereferences no NULL
pointer. -/
theorem pool_bounded (poco : Poco) (keepAliveIdleCountMax : ℕ) (keepAliveTimeoutSec : Int64)
    (operations : List Operation) (pool : ConnectionPoolInternal)
    (hexp : Runs.EveryStep (step poco) ExpiresInTime
      (create keepAliveIdleCountMax keepAliveTimeoutSec) operations)
    (hrun : Runs.run (step poco) (create keepAliveIdleCountMax keepAliveTimeoutSec) operations =
      some pool) :
    pool.WellFormed ∧ pool.getKeepAliveIdleConnectionCount ≤ pool.keepAliveIdleCountMax ∧
      Runs.EveryStep (step poco) EvictsEarliest (create keepAliveIdleCountMax keepAliveTimeoutSec)
        operations := by
  have hpres : ∀ s a s', Bounded s → ExpiresInTime s a → step poco s a = some s' → Bounded s' :=
    fun _ _ _ h hexp hstep => step_bounded h hexp hstep
  have hbounded := Runs.run_invariant hpres (bounded_create _ _) hrun hexp
  refine ⟨hbounded.wellFormed, hbounded.idleCount,
    Runs.everyStep_of_invariant hpres (fun s a h hexp => ?_) (bounded_create _ _) hexp⟩
  cases a with
  | releaseConnection p now listenerInvalidated => exact (releaseConnection_bounded h hexp).1
  | _ => trivial

/-- Two connections are released in a pool that keeps one. -/
def releaseTwo : List Operation :=
  let context : EasyHttpContext := ⟨none, "", "", 60⟩
  [.createConnection 3 "http://a.com/" context (.ok ()),
    .createConnection 5 "http://b.com/" context (.ok ()),
    .releaseConnection 5 ⟨10⟩ false, .releaseConnection 3 ⟨20⟩ false]

theorem pool_bounded_releaseTwo :
    ∃ pool ∈ Runs.run (step Poco.plain) (create 1 5) releaseTwo,
      pool.connectionControls.entries.map Prod.fst = [3] ∧
        pool.WellFormed ∧ pool.getKeepAliveIdleConnectionCount ≤ pool.keepAliveIdleCountMax ∧
        Runs.EveryStep (step Poco.plain) EvictsEarliest (create 1 5) releaseTwo := by
  have hran : ∃ pool ∈ Runs.run (step Poco.plain) (create 1 5) releaseTwo,
      pool.connectionControls.entries.map Prod.fst = [3] := by decide +kernel
  obtain ⟨pool, hrun, hentries⟩ := hran
  exact ⟨pool, hrun, hentries, pool_bounded _ _ _ _ _ (by decide +kernel) hrun⟩

end EasyHttp.ConnectionPoolInternal
