import EasyHttp.Engine.CallCancel

/-!
# Cancelling one call among others

The calls are clients of the pool: `step_simulates` takes each action of a call to an action
of `PoolClients`, so that what holds there (one holder for each connection, and connections
that are gone stay gone) holds here. `Inv` adds what `cancel` relies on: the pointer of an
engine is that of a connection that its thread holds, or of one that is gone.
`cancel_isolated` is what follows for runs in which no connection is released between the two
sections of `cancel`.
-/

namespace EasyHttp.CallCancel

open PoolClients (Gone)

variable {poco : Poco} {s s' : System} {x : EngineId} {p : ConnectionPtr}

/-- The calls as clients of the pool. -/
def System.clients (s : System) : PoolClients.System where
  pool := s.pool
  holds := fun x => (s.engines x).stage.held
  created := s.created

/-- The clients after one engine changed. -/
theorem clients_eq {e : HttpEngine} (hengines : s'.engines = Function.update s.engines x e) :
    s'.clients = {
      pool := s'.pool
      holds := Function.update s.clients.holds x e.stage.held
      created := s'.created } := by
  have hholds : (fun y => (s'.engines y).stage.held) =
      Function.update s.clients.holds x e.stage.held := by
    funext y
    rw [hengines]
    by_cases hy : y = x
    · rw [hy, Function.update_self, Function.update_self]
    · rw [Function.update_of_ne hy, Function.update_of_ne hy]
      rfl
  unfold System.clients at hholds ⊢
  rw [hholds]

/-- An engine that keeps what it holds changes nothing for the pool's clients. -/
theorem clients_eq_of_same {e : HttpEngine}
    (hengines : s'.engines = Function.update s.engines x e)
    (hheld : e.stage.held = (s.engines x).stage.held) :
    s'.clients = { pool := s'.pool, holds := s.clients.holds, created := s'.created } := by
  rw [clients_eq hengines, hheld]
  show PoolClients.System.mk _ (Function.update s.clients.holds x (s.clients.holds x)) _ = _
  rw [Function.update_eq_self]

/-! ## The invariant -/

/-- What holds of an engine `e` at `x`. -/
structure EngineInv (s : System) (x : EngineId) (e : HttpEngine) : Prop where
  own : ∀ p q, e.stage = .sending p → e.connectionInternal = some q → q = p
  pointer : ∀ p, e.connectionInternal = some p → e.stage = .sending p ∨ Gone s.clients p
  /-- As long as the engine has the pointer it is told when the connection is released. -/
  listener : ∀ p, e.stage = .listening p ∨
      (e.stage = .sending p ∧ e.connectionInternal = some p) →
    s.pool.connectionControls.find? p ≠ none →
    (s.pool.connections p).connectionStatusListener = some x
  /-- What `cancel` copied is held by its own call, as long as anyone can use it. -/
  reading : ∀ p, e.cancelling = .read p → e.stage.held = some p ∨ Gone s.clients p
  failed : ∀ p, e.stage = .failed p → Gone s.clients p

/-- What holds in every state. -/
structure Inv (s : System) : Prop where
  clients : PoolClients.Inv s.clients
  reusable : s.pool.Reusable
  engines : ∀ x, EngineInv s x (s.engines x)

theorem inv_initial (keepAliveIdleCountMax : ℕ) (keepAliveTimeoutSec : Int64) :
    Inv (System.initial keepAliveIdleCountMax keepAliveTimeoutSec) where
  clients := PoolClients.inv_initial _ _
  reusable := fun _ _ h => by cases h
  engines := fun x => {
    own := fun _ _ h => by cases h
    pointer := fun _ h => by cases h
    listener := fun _ h => by rcases h with h | ⟨h, -⟩ <;> cases h
    reading := fun _ h => by cases h
    failed := fun _ h => by cases h }

/-- The connections that an engine uses have the listener that they had. -/
def SameListener (s s' : System) (e : HttpEngine) : Prop :=
  ∀ p, e.stage.held = some p → s'.pool.connectionControls.find? p ≠ none →
    s.pool.connectionControls.find? p ≠ none ∧
      (s'.pool.connections p).connectionStatusListener =
        (s.pool.connections p).connectionStatusListener

theorem EngineInv.mono {e : HttpEngine} (h : EngineInv s x e)
    (hgone : ∀ p, Gone s.clients p → Gone s'.clients p) (hsame : SameListener s s' e) :
    EngineInv s' x e := by
  refine ⟨h.own, fun p hp => (h.pointer p hp).imp_right (hgone p), fun p hp hfind => ?_,
    fun p hp => (h.reading p hp).imp_right (hgone p), fun p hp => hgone p (h.failed p hp)⟩
  have hheld : e.stage.held = some p := by
    rcases hp with hp | ⟨hp, -⟩ <;> rw [hp] <;> rfl
  obtain ⟨hbefore, hlistener⟩ := hsame p hheld hfind
  rw [hlistener]
  exact h.listener p hp hbefore

/-- An engine that holds nothing. -/
theorem engineInv_of_not_held {e : HttpEngine} (hheld : e.stage.held = none)
    (hpointer : ∀ p, e.connectionInternal = some p → Gone s.clients p)
    (hreading : ∀ p, e.cancelling = .read p → Gone s.clients p)
    (hfailed : ∀ p, e.stage = .failed p → Gone s.clients p) : EngineInv s x e := by
  have hnot : ∀ p, e.stage ≠ .listening p ∧ e.stage ≠ .sending p := by
    intro p
    constructor <;> intro hp <;> rw [hp] at hheld <;> cases hheld
  refine ⟨fun p _ hp => ((hnot p).2 hp).elim, fun p hp => .inr (hpointer p hp), fun p hp => ?_,
    fun p hp => .inr (hreading p hp), hfailed⟩
  rcases hp with hp | ⟨hp, -⟩
  · exact ((hnot p).1 hp).elim
  · exact ((hnot p).2 hp).elim

/-- An engine that holds nothing points at a connection that is gone. -/
theorem EngineInv.pointer_gone {e : HttpEngine} (h : EngineInv s x e) (hheld : e.stage.held = none)
    (hp : e.connectionInternal = some p) : Gone s.clients p := by
  rcases h.pointer p hp with hstage | hgone
  · rw [hstage] at hheld
    cases hheld
  · exact hgone

/-- A cancel of an engine that holds nothing has read one that is gone. -/
theorem EngineInv.reading_gone {e : HttpEngine} (h : EngineInv s x e) (hheld : e.stage.held = none)
    (hp : e.cancelling = .read p) : Gone s.clients p := by
  rcases h.reading p hp with hstage | hgone
  · rw [hstage] at hheld
    cases hheld
  · exact hgone

/-- One engine changes, and perhaps the pool, as far as a client may change it. -/
theorem inv_update (poco : Poco) {e : HttpEngine} (hinv : Inv s)
    (hengines : s'.engines = Function.update s.engines x e)
    (hclients : s'.clients = s.clients ∨ ∃ b, PoolClients.step poco s.clients b = some s'.clients)
    (hreusable : s'.pool.Reusable)
    (hothers : ∀ y ≠ x, SameListener s s' (s.engines y))
    (hself : (∀ p, Gone s.clients p → Gone s'.clients p) → EngineInv s' x e) : Inv s' := by
  have hgone : ∀ p, Gone s.clients p → Gone s'.clients p := by
    intro p hp
    rcases hclients with heq | ⟨b, hb⟩
    · rw [heq]
      exact hp
    · exact PoolClients.step_gone hinv.clients hp hb
  refine ⟨?_, hreusable, fun y => ?_⟩
  · rcases hclients with heq | ⟨b, hb⟩
    · rw [heq]
      exact hinv.clients
    · exact PoolClients.step_inv hinv.clients hb
  · rw [hengines]
    by_cases hy : y = x
    · rw [hy, Function.update_self]
      exact hself hgone
    · rw [Function.update_of_ne hy]
      exact (hinv.engines y).mono hgone (hothers y hy)

/-! ## Releasing -/

/-- The engine of the thread that releases a connection loses its pointer, unless the pool does
not have the connection any more. No other engine changes. -/
theorem releaseConnection_eq (now : Timestamp) (hinv : Inv s)
    (hstage : (s.engines x).stage = .sending p) :
    ∃ listenerInvalidated pointer,
      s.releaseConnection p now =
        { s.setEngine x { s.engines x with connectionInternal := pointer } with
          pool := (s.pool.releaseConnection p now listenerInvalidated).2 } ∧
      (pointer = none ∨ (s.pool.connectionControls.find? p = none ∧
        pointer = (s.engines x).connectionInternal)) := by
  have hself : s.setEngine x { s.engines x with
      connectionInternal := (s.engines x).connectionInternal } = s := by
    show { s with engines := Function.update s.engines x (s.engines x) } = s
    rw [Function.update_eq_self]
  have hheld : s.clients.holds x = some p := by
    show (s.engines x).stage.held = some p
    rw [hstage]
    rfl
  unfold System.releaseConnection
  -- the connection may have left the pool before it is released
  cases hfind : s.pool.connectionControls.find? p with
  | none =>
    refine ⟨false, (s.engines x).connectionInternal, ?_, .inr ⟨rfl, rfl⟩⟩
    rw [hself]
  | some task =>
    -- an engine that has the pointer holds the connection, so it is `x`
    have honly : ∀ y, (s.engines y).connectionInternal = some p → y = x := by
      intro y hy
      rcases (hinv.engines y).pointer p hy with hsending | hgone
      · refine hinv.clients.exclusive y x p ?_ hheld
        show (s.engines y).stage.held = some p
        rw [hsending]
        rfl
      · have hnone : s.pool.connectionControls.find? p = none := hgone.removed
        rw [hfind] at hnone
        cases hnone
    -- an engine without the pointer is not told
    cases hpointer : (s.engines x).connectionInternal with
    | none =>
      rw [hpointer] at hself
      cases hlistener : (s.pool.connections p).connectionStatusListener with
      | none =>
        refine ⟨false, none, ?_, .inl rfl⟩
        rw [hself]
      | some y =>
        have hne : (s.engines y).connectionInternal ≠ some p := by
          intro hy
          rw [honly y hy, hpointer] at hy
          cases hy
        refine ⟨false, none, ?_, .inl rfl⟩
        rw [hself]
        show { s.setEngine y ((s.engines y).onIdle p).2 with
          pool := (s.pool.releaseConnection p now ((s.engines y).onIdle p).1).2 } = _
        rw [HttpEngine.onIdle, if_neg hne]
        show { s with
          engines := Function.update s.engines y (s.engines y)
          pool := _ } = _
        rw [Function.update_eq_self]
    -- the listener of the connection is the engine that holds it
    | some q =>
      have hq : q = p := (hinv.engines x).own p q hstage hpointer
      rw [hq] at hpointer
      have hlistener := (hinv.engines x).listener p (.inr ⟨hstage, hpointer⟩) (by rw [hfind]; simp)
      refine ⟨true, none, ?_, .inl rfl⟩
      rw [hlistener]
      show { s.setEngine x ((s.engines x).onIdle p).2 with
        pool := (s.pool.releaseConnection p now ((s.engines x).onIdle p).1).2 } = _
      rw [HttpEngine.onIdle, if_pos hpointer]

/-! ## One action -/

/-- The same pool has the same listeners. -/
theorem sameListener_refl {e : HttpEngine} (hpool : s'.pool = s.pool) : SameListener s s' e := by
  intro p _ hfind
  rw [hpool] at hfind ⊢
  exact ⟨hfind, rfl⟩

/-- A connection removed from the pool. -/
theorem sameListener_removeConnection {e : HttpEngine}
    (hpool : s'.pool = (s.pool.removeConnection p).2) : SameListener s s' e := by
  intro q _ hfind
  rw [hpool, ConnectionPoolInternal.removeConnection_find?] at hfind
  rw [hpool, ConnectionPoolInternal.removeConnection_connections]
  refine ⟨fun hnone => hfind ?_, rfl⟩
  split
  · rfl
  · exact hnone

/-- A change to a connection that an engine does not hold. -/
theorem sameListener_setConnection {e : HttpEngine} {c : ConnectionInternal}
    (hpool : s'.pool = s.pool.setConnection p c)
    (hlistener : e.stage.held = some p →
      c.connectionStatusListener = (s.pool.connections p).connectionStatusListener) :
    SameListener s s' e := by
  intro q hq hfind
  rw [hpool] at hfind ⊢
  refine ⟨hfind, ?_⟩
  show (Function.update s.pool.connections p c q).connectionStatusListener = _
  by_cases hqp : q = p
  · rw [hqp] at hq ⊢
    rw [Function.update_self]
    exact hlistener hq
  · rw [Function.update_of_ne hqp]

/-- A connection that nobody holds put into the pool. -/
theorem sameListener_set {e : HttpEngine} {c : ConnectionInternal}
    (hfree : e.stage.held ≠ some p)
    (hcontrols : s'.pool.connectionControls = s.pool.connectionControls.set p none)
    (hconnections : s'.pool.connections = Function.update s.pool.connections p c) :
    SameListener s s' e := by
  intro q hq hfind
  have hqp : q ≠ p := by
    intro heq
    rw [heq] at hq
    exact hfree hq
  rw [hcontrols, SortedMap.find?_set, if_neg hqp] at hfind
  rw [hconnections, Function.update_of_ne hqp]
  exact ⟨hfind, rfl⟩

/-- An action that leaves the pool alone and what the engine holds. -/
theorem inv_setEngine {e : HttpEngine} (hinv : Inv s)
    (hheld : e.stage.held = (s.engines x).stage.held)
    (hself : EngineInv s x e) : Inv (s.setEngine x e) := by
  have hclients : (s.setEngine x e).clients = s.clients := clients_eq_of_same rfl hheld
  refine inv_update Poco.plain hinv rfl (.inl hclients) hinv.reusable
    (fun y _ => sameListener_refl rfl) fun hgone => ?_
  exact hself.mono hgone (sameListener_refl rfl)

/-! ## Giving connections back -/

/-- A thread lets go of its connection, which is gone then unless it goes back to the pool. -/
theorem inv_letGo (poco : Poco) {e : HttpEngine} (hinv : Inv s)
    (hheld : (s.engines x).stage.held = some p)
    (hengines : s'.engines = Function.update s.engines x e) (hnone : e.stage.held = none)
    (hcreated : s'.created = s.created)
    (hclients : ∃ b, PoolClients.step poco s.clients b = some s'.clients)
    (hreusable : s'.pool.Reusable)
    (hothers : ∀ y ≠ x, SameListener s s' (s.engines y))
    (hpointer : ∀ q, e.connectionInternal = some q →
      (s.engines x).connectionInternal = some q ∧
        s'.pool.connectionControls.find? p = none)
    (hreading : ∀ q, e.cancelling = .read q → (s.engines x).cancelling = .read q ∧
      (q = p → s'.pool.connectionControls.find? p = none))
    (hfailed : ∀ q, e.stage = .failed q → q = p ∧ s'.pool.connectionControls.find? p = none) :
    Inv s' := by
  have hx : s.clients.holds x = some p := hheld
  -- the engine was the only one that held the connection
  have hrest : ∀ y, s'.clients.holds y = some p → False := by
    intro y hy
    replace hy : (s'.engines y).stage.held = some p := hy
    rw [hengines] at hy
    by_cases hyx : y = x
    · rw [hyx, Function.update_self, hnone] at hy
      cases hy
    · rw [Function.update_of_ne hyx] at hy
      exact hyx (hinv.clients.exclusive y x p hy hx)
  have hgoneSelf : s'.pool.connectionControls.find? p = none → Gone s'.clients p := by
    intro hfind
    refine ⟨hfind, fun y hy => hrest y hy, ?_⟩
    show p ∈ s'.created
    rw [hcreated]
    exact hinv.clients.held_created x p hx
  -- the other engines are as they were
  refine inv_update poco hinv hengines (.inr hclients) hreusable hothers fun hgone => ?_
  have hheldEq : ∀ q, (s.engines x).stage.held = some q → q = p := by
    intro q hq
    rw [hheld] at hq
    exact (Option.some.inj hq).symm
  refine engineInv_of_not_held hnone (fun q hq => ?_) (fun q hq => ?_) (fun q hq => ?_)
  -- a pointer is at the connection that was let go, or at one that is gone
  · obtain ⟨hbefore, hfind⟩ := hpointer q hq
    rcases (hinv.engines x).pointer q hbefore with hstage | hgoneq
    · have hqp : q = p := hheldEq q (by rw [hstage]; rfl)
      rw [hqp]
      exact hgoneSelf hfind
    · exact hgone q hgoneq
  · obtain ⟨hbefore, hfind⟩ := hreading q hq
    rcases (hinv.engines x).reading q hbefore with hstage | hgoneq
    · have hqp : q = p := hheldEq q hstage
      rw [hqp]
      exact hgoneSelf (hfind hqp)
    · exact hgone q hgoneq
  · obtain ⟨hqp, hfind⟩ := hfailed q hq
    rw [hqp]
    exact hgoneSelf hfind

/-- The invariant is kept when a connection that was held is removed. -/
theorem inv_remove_held {stage : Stage} (hinv : Inv s)
    (hheld : (s.engines x).stage.held = some p) (hnone : stage.held = none)
    (hstage : ∀ q, stage = .failed q → q = p)
    (hengines : s'.engines = Function.update s.engines x { s.engines x with stage := stage })
    (hpool : s'.pool = (s.pool.removeConnection p).2) (hcreated : s'.created = s.created) :
    Inv s' := by
  have hfind : s'.pool.connectionControls.find? p = none := by
    rw [hpool, ConnectionPoolInternal.removeConnection_find?, if_pos rfl]
  refine inv_letGo Poco.plain hinv hheld hengines hnone hcreated
    ⟨.removeConnection x, ?_⟩ ?_ (fun y _ => sameListener_removeConnection hpool)
    (fun q hq => ⟨hq, hfind⟩) (fun q hq => ⟨hq, fun _ => hfind⟩)
    (fun q hq => ⟨hstage q hq, hfind⟩)
  · have hx : s.clients.holds x = some p := hheld
    rw [PoolClients.step, hx, clients_eq hengines, hpool, hcreated]
    show _ = some (PoolClients.System.mk _ (Function.update _ x stage.held) _)
    rw [hnone]
    rfl
  · rw [hpool]
    refine hinv.reusable.within (ConnectionPoolInternal.removeConnection_within _ _) fun q => ?_
    rw [ConnectionPoolInternal.removeConnection_connections]

/-- Closing the stream releases the connection; `hcancel` is what `cancel` relies on. -/
theorem inv_closeRelease {now : Timestamp} (hinv : Inv s)
    (hstage : (s.engines x).stage = .sending p)
    (hcancel : s.pool.connectionControls.find? p ≠ none → (s.engines x).cancelling ≠ .read p) :
    Inv ((s.releaseConnection p now).setStage x .finished) := by
  obtain ⟨listenerInvalidated, pointer, heq, hpointer⟩ := releaseConnection_eq now hinv hstage
  have hheld : (s.engines x).stage.held = some p := by
    rw [hstage]
    rfl
  have hwf : s.pool.WellFormed := hinv.clients.wellFormed
  have hreleased := ConnectionPoolInternal.releaseConnection_released (p := p) hwf now
    listenerInvalidated
  -- a connection without a place in the pool is gone for good
  have hgone : s.pool.connectionControls.find? p = none →
      (s.pool.releaseConnection p now listenerInvalidated).2.connectionControls.find? p = none := by
    intro hnone
    rw [ConnectionPoolInternal.releaseConnection_removed now listenerInvalidated hnone]
    exact hnone
  rw [heq]
  have hengines : (System.setStage { s.setEngine x
      { s.engines x with connectionInternal := pointer } with
        pool := (s.pool.releaseConnection p now listenerInvalidated).2 } x .finished).engines =
      Function.update s.engines x
        { s.engines x with stage := .finished, connectionInternal := pointer } := by
    show Function.update (Function.update s.engines x _) x _ = _
    rw [Function.update_idem]
    simp [System.setEngine]
  refine inv_letGo Poco.plain hinv hheld hengines rfl rfl
    ⟨.releaseConnection x now listenerInvalidated, ?_⟩ ?_ (fun y hy q hq hfind => ?_)
    (fun q hq => ?_) (fun q hq => ⟨hq, fun hqp => ?_⟩) (fun q hq => by cases hq)
  · have hx : s.clients.holds x = some p := hheld
    rw [PoolClients.step, hx, clients_eq hengines]
    rfl
  · exact hinv.reusable.releaseConnection hwf now listenerInvalidated
  -- other connections are where they were
  · have hqp : q ≠ p := by
      intro hqp
      rw [hqp] at hq
      exact hy (hinv.clients.exclusive y x p hq hheld)
    obtain ⟨hconn, hmem⟩ := hreleased.others q hqp
    rw [show (System.setStage _ x .finished).pool =
      (s.pool.releaseConnection p now listenerInvalidated).2 from rfl] at hfind ⊢
    rw [hconn]
    rcases hmem with hmem | hmem
    · rw [hmem] at hfind
      exact ⟨hfind, rfl⟩
    · exact (hfind hmem).elim
  -- after the release the engine has no pointer
  · rcases hpointer with hnone | ⟨hnone, hsame⟩
    · replace hq : pointer = some q := hq
      rw [hnone] at hq
      cases hq
    · replace hq : pointer = some q := hq
      rw [← hsame]
      exact ⟨hq, hgone hnone⟩
  · -- `cancel` has not copied the pointer, so the pool does not have the connection
    replace hq : (s.engines x).cancelling = .read q := hq
    rw [hqp] at hq
    by_contra hfind
    exact hcancel (fun hnone => hfind (hgone hnone)) hq

/-- A connection that nobody holds is put into the pool and handed to a call. -/
theorem inv_obtain (poco : Poco) {c : ConnectionInternal} (hinv : Inv s)
    (hheld : (s.engines x).stage.held = none)
    (hfree : ∀ y, (s.engines y).stage.held ≠ some p) (huse : c.connectionStatus = .inuse)
    (hengines : s'.engines = Function.update s.engines x
      { s.engines x with stage := .obtained p })
    (hcontrols : s'.pool.connectionControls = s.pool.connectionControls.set p none)
    (hconnections : s'.pool.connections = Function.update s.pool.connections p c)
    (hclients : ∃ b, PoolClients.step poco s.clients b = some {
      pool := s'.pool
      holds := Function.update s.clients.holds x (some p)
      created := s'.created }) : Inv s' := by
  refine inv_update poco hinv hengines (.inr ?_) ?_ (fun y _ => ?_) fun hgone => ?_
  · rw [clients_eq hengines]
    exact hclients
  · exact hinv.reusable.set huse hcontrols hconnections
  · exact sameListener_set (hfree y) hcontrols hconnections
  · have hold := hinv.engines x
    refine {
      own := fun q r hq => by cases hq
      pointer := fun q hq => .inr (hgone q (hold.pointer_gone hheld hq))
      listener := fun q hq => by rcases hq with hq | ⟨hq, -⟩ <;> cases hq
      reading := fun q hq => .inr (hgone q (hold.reading_gone hheld hq))
      failed := fun q hq => by cases hq }

/-- The invariant is kept when a connection is reused. -/
theorem inv_findAndReuseConnection {url : String} {context : EasyHttpContext} (hinv : Inv s)
    (hstage : (s.engines x).stage = .checked)
    (hrun : s.pool.findAndReuseConnection poco url context = (some p, s'.pool))
    (hengines : s'.engines = Function.update s.engines x
      { s.engines x with stage := .obtained p })
    (hcreated : s'.created = s.created) : Inv s' := by
  have hheld : (s.engines x).stage.held = none := by
    rw [hstage]
    rfl
  obtain ⟨⟨task, hfind⟩, hidle, hcontrols, hconnections⟩ :=
    ConnectionPoolInternal.findAndReuseConnection_some (congrArg Prod.fst hrun)
  rw [hrun] at hcontrols hconnections
  refine inv_obtain poco hinv hheld
    (fun y => PoolClients.not_held_of_idle hinv.clients hfind hidle y) rfl hengines hcontrols
    hconnections ⟨.findAndReuseConnection x url context, ?_⟩
  have hx : s.clients.holds x = none := hheld
  have hrun' : s.clients.pool.findAndReuseConnection poco url context = (some p, s'.pool) := hrun
  rw [PoolClients.step, if_neg (by simp [hx]), hrun', hcreated]
  rfl

theorem inv_createConnection {url : String} {context : EasyHttpContext}
    {sslContext : Except HttpException Unit} (hinv : Inv s) (hfresh : p ∉ s.created)
    (hstage : (s.engines x).stage = .checked)
    (hrun : s.pool.createConnection poco p url context sslContext = .ok s'.pool)
    (hengines : s'.engines = Function.update s.engines x
      { s.engines x with stage := .obtained p })
    (hcreated : s'.created = p :: s.created) : Inv s' := by
  have hheld : (s.engines x).stage.held = none := by
    rw [hstage]
    rfl
  obtain ⟨c, huse, -, hcontrols, hconnections⟩ := ConnectionPoolInternal.createConnection_ok hrun
  refine inv_obtain poco hinv hheld
    (fun y hy => hfresh (hinv.clients.held_created y p hy)) huse hengines hcontrols hconnections
    ⟨.createConnection x p url context sslContext, ?_⟩
  have hx : s.clients.holds x = none := hheld
  have hfresh' : p ∉ s.clients.created := hfresh
  have hrun' : s.clients.pool.createConnection poco p url context sslContext = .ok s'.pool := hrun
  rw [PoolClients.step, if_neg (by simp [hx, hfresh']), hrun', hcreated]
  rfl

/-- The listener changes of a connection that no other call holds, as far as the pool has it. -/
theorem inv_setListener {e : HttpEngine} {listener : Option ListenerPtr} (hinv : Inv s)
    (hengines : s'.engines = Function.update s.engines x e)
    (hpool : s'.pool = s.pool.setListener p listener) (hcreated : s'.created = s.created)
    (hheld : e.stage.held = (s.engines x).stage.held)
    (hothers : ∀ y ≠ x, (s.engines y).stage.held = some p →
      s.pool.connectionControls.find? p = none)
    (hself : (∀ q, Gone s.clients q → Gone s'.clients q) → EngineInv s' x e) : Inv s' := by
  refine inv_update Poco.plain hinv hengines
    (.inr ⟨.setConnectionStatusListener p listener, ?_⟩) ?_ (fun y hy q hq hfind => ?_) hself
  · rw [clients_eq_of_same hengines hheld, hpool, hcreated]
    rfl
  · rw [hpool]
    exact hinv.reusable.setListener p listener
  · rw [hpool] at hfind ⊢
    have hqp : q ≠ p := by
      intro hqp
      rw [hqp] at hq hfind
      exact hfind (hothers y hy hq)
    refine ⟨hfind, ?_⟩
    show (Function.update s.pool.connections p _ q).connectionStatusListener = _
    rw [Function.update_of_ne hqp]

/-- What `cancel` acts on is not in the pool as an idle connection. -/
theorem inv_cancelConnection (hinv : Inv s) (hread : (s.engines x).cancelling = .read p)
    (hengines : s'.engines = Function.update s.engines x
      { s.engines x with cancelling := .applied p })
    (hpool : s'.pool = s.pool.setConnection p (s.pool.connections p).cancel)
    (hcreated : s'.created = s.created) : Inv s' := by
  refine inv_update Poco.plain hinv hengines (.inr ⟨.cancel p, ?_⟩)
    (fun q task hfind hidle => ?_) (fun y _ => sameListener_setConnection hpool fun _ => rfl)
    fun hgone => ?_
  · rw [clients_eq_of_same hengines rfl, hpool, hcreated]
    rfl
  -- what the pool hands out was not cancelled: this connection is held
  · rw [hpool] at hfind hidle ⊢
    replace hfind : s.pool.connectionControls.find? q = some task := hfind
    replace hidle : (Function.update s.pool.connections p (s.pool.connections p).cancel
      q).connectionStatus = .idle := hidle
    show (Function.update s.pool.connections p (s.pool.connections p).cancel q).cancelled = false
    by_cases hq : q = p
    · rw [hq, Function.update_self] at hidle
      rw [hq] at hfind
      replace hidle : (s.pool.connections p).connectionStatus = .idle := hidle
      -- the engine still holds it, or it is out of the pool
      rcases (hinv.engines x).reading p hread with hheld | hgoneP
      · exact (PoolClients.not_held_of_idle hinv.clients hfind hidle x hheld).elim
      · have hnone : s.pool.connectionControls.find? p = none := hgoneP.removed
        rw [hnone] at hfind
        cases hfind
    · rw [Function.update_of_ne hq] at hidle ⊢
      exact hinv.reusable q task hfind hidle
  · have hold := (hinv.engines x).mono hgone (sameListener_setConnection hpool fun _ => rfl)
    exact {
      own := hold.own
      pointer := hold.pointer
      listener := hold.listener
      reading := fun q hq => by cases hq
      failed := hold.failed }

/-- A connection is removed that its call may go on holding. -/
theorem inv_removeConnection {e : HttpEngine} (hinv : Inv s)
    (hengines : s'.engines = Function.update s.engines x e)
    (hpool : s'.pool = (s.pool.removeConnection p).2) (hcreated : s'.created = s.created)
    (hheld : e.stage.held = (s.engines x).stage.held) (hself : EngineInv s x e) : Inv s' := by
  refine inv_update Poco.plain hinv hengines (.inr ⟨.removeByOther p, ?_⟩) ?_
    (fun y _ => sameListener_removeConnection hpool) fun hgone => ?_
  · rw [clients_eq_of_same hengines hheld, hpool, hcreated]
    rfl
  · rw [hpool]
    refine hinv.reusable.within (ConnectionPoolInternal.removeConnection_within _ _) fun q => ?_
    rw [ConnectionPoolInternal.removeConnection_connections]
  · exact hself.mono hgone (sameListener_removeConnection hpool)

theorem inv_expired {task : TaskPtr} (hinv : Inv s) (hengines : s'.engines = s.engines)
    (hpool : s'.pool = s.pool.onKeepAliveTimeoutExpired task) (hcreated : s'.created = s.created) :
    Inv s' := by
  have hsame : ∀ y, SameListener s s' (s.engines y) := by
    intro y p _ hfind
    obtain ⟨timer, htimer⟩ := Option.ne_none_iff_exists'.mp hfind
    rw [hpool] at htimer ⊢
    have hbefore := (ConnectionPoolInternal.onKeepAliveTimeoutExpired_within s.pool task p timer
      htimer).1
    rw [hbefore, ConnectionPoolInternal.onKeepAliveTimeoutExpired_connections]
    exact ⟨Option.some_ne_none timer, rfl⟩
  have hupdate : s'.engines = Function.update s.engines 0 (s.engines 0) := by
    rw [Function.update_eq_self, hengines]
  refine inv_update Poco.plain hinv hupdate (.inr ⟨.onKeepAliveTimeoutExpired task, ?_⟩)
    ?_ (fun y _ => hsame y) fun hgone => (hinv.engines 0).mono hgone (hsame 0)
  · rw [clients_eq_of_same hupdate rfl, hpool, hcreated]
    rfl
  · rw [hpool]
    refine hinv.reusable.within (ConnectionPoolInternal.onKeepAliveTimeoutExpired_within _ _)
      fun q => ?_
    rw [ConnectionPoolInternal.onKeepAliveTimeoutExpired_connections]

/-! ## Sections of the thread of a call -/

section
variable (hinv : Inv s)
include hinv

/-- The engine of a thread that has no connection goes on. -/
theorem inv_setStage {stage : Stage} (hbefore : (s.engines x).stage.held = none)
    (hafter : stage.held = none) (hstage : ∀ q, stage ≠ .failed q) : Inv (s.setStage x stage) := by
  have hold := hinv.engines x
  refine inv_setEngine hinv (hafter.trans hbefore.symm) ?_
  exact engineInv_of_not_held hafter (fun q hq => hold.pointer_gone hbefore hq)
    (fun q hq => hold.reading_gone hbefore hq) (fun q hq => (hstage q hq).elim)

theorem inv_setConnectionStatusListener (hstage : (s.engines x).stage = .obtained p)
    (hengines : s'.engines = Function.update s.engines x
      { s.engines x with stage := .listening p })
    (hpool : s'.pool = s.pool.setListener p (some x)) (hcreated : s'.created = s.created) :
    Inv s' := by
  have hold := hinv.engines x
  have hheld : (s.engines x).stage.held = some p := by
    rw [hstage]
    rfl
  -- the connection is held by this engine only
  refine inv_setListener hinv hengines hpool hcreated hheld.symm (fun y hy hyp => ?_)
    fun hgone => ?_
  · exact (hy (hinv.clients.exclusive y x p hyp hheld)).elim
  · refine {
      own := fun q r hq => by cases hq
      pointer := fun q hq => ?_
      listener := fun q hq _ => ?_
      reading := fun q hq => ?_
      failed := fun q hq => by cases hq }
    -- what the engine still points at is gone
    · rcases hold.pointer q hq with hsending | hgoneQ
      · rw [hstage] at hsending
        cases hsending
      · exact .inr (hgone q hgoneQ)
    · have hq : q = p := by
        rcases hq with hq | ⟨hq, -⟩
        · cases hq
          rfl
        · cases hq
      rw [hq, hpool]
      show (Function.update s.pool.connections p _ p).connectionStatusListener = _
      rw [Function.update_self]
      rfl
    · rcases hold.reading q hq with hq' | hgoneQ
      · rw [hheld] at hq'
        exact .inl hq'
      · exact .inr (hgone q hgoneQ)

theorem inv_setConnectionInternal (hstage : (s.engines x).stage = .listening p) :
    Inv (s.setEngine x
      { s.engines x with stage := .sending p, connectionInternal := some p }) := by
  have hold := hinv.engines x
  have hheld : (s.engines x).stage.held = some p := by
    rw [hstage]
    rfl
  refine inv_setEngine hinv hheld.symm {
    own := fun q r hq hr => ?_
    pointer := fun q hq => ?_
    listener := fun q hq hfind => ?_
    reading := fun q hq => ?_
    failed := fun q hq => by cases hq }
  · cases hq
    cases hr
    rfl
  · cases hq
    exact .inl rfl
  · rcases hq with hq | ⟨hq, -⟩
    · cases hq
    · cases hq
      exact hold.listener p (.inl hstage) hfind
  · rcases hold.reading q hq with hq' | hgoneQ
    · rw [hheld] at hq'
      exact .inl hq'
    · exact .inr hgoneQ

theorem inv_takeConnectionInternal {q : ConnectionPtr} (hstage : (s.engines x).stage = .sending q)
    (hpointer : (s.engines x).connectionInternal = some p) :
    Inv (s.setEngine x
      { s.engines x with stage := .failing p, connectionInternal := none }) := by
  have hold := hinv.engines x
  have hp : p = q := hold.own q p hstage hpointer
  have hheld : (s.engines x).stage.held = some p := by
    rw [hstage, hp]
    rfl
  refine inv_setEngine hinv hheld.symm {
    own := fun r _ hr => by cases hr
    pointer := fun r hr => by cases hr
    listener := fun r hr => by rcases hr with hr | ⟨hr, -⟩ <;> cases hr
    reading := fun r hr => ?_
    failed := fun r hr => by cases hr }
  rcases hold.reading r hr with hr' | hgoneR
  · rw [hheld] at hr'
    exact .inl hr'
  · exact .inr hgoneR

theorem inv_retryByConnection (hstage : (s.engines x).stage = .failed p)
    (hengines : s'.engines = Function.update s.engines x { s.engines x with stage := .start })
    (hpool : s'.pool = s.pool.setListener p none) (hcreated : s'.created = s.created) :
    Inv s' := by
  have hold := hinv.engines x
  have hheld : (s.engines x).stage.held = none := by
    rw [hstage]
    rfl
  refine inv_setListener hinv hengines hpool hcreated hheld.symm (fun y _ hyp => ?_)
    fun hgone => ?_
  · exact ((hold.failed p hstage).not_held y hyp).elim
  · exact engineInv_of_not_held rfl (fun q hq => hgone q (hold.pointer_gone hheld hq))
      (fun q hq => hgone q (hold.reading_gone hheld hq)) (fun q hq => by cases hq)

/-- The destructor resets a listener that no other call has set. -/
theorem inv_destroy (hpointer : (s.engines x).connectionInternal = some p)
    (hno : (s.engines x).cancelling = .no)
    (hengines : s'.engines = Function.update s.engines x
      { s.engines x with connectionInternal := none })
    (hpool : s'.pool = s.pool.setListener p none) (hcreated : s'.created = s.created) :
    Inv s' := by
  have hold := hinv.engines x
  refine inv_setListener hinv hengines hpool hcreated rfl (fun y hy hyp => ?_) fun hgone => ?_
  -- the listener is taken from the connection the engine points at
  · rcases hold.pointer p hpointer with hstage | hgoneP
    · have hxp : s.clients.holds x = some p := by
        show (s.engines x).stage.held = some p
        rw [hstage]
        rfl
      exact (hy (hinv.clients.exclusive y x p hyp hxp)).elim
    · exact (hgoneP.not_held y hyp).elim
  · refine {
      own := fun q r _ hr => by cases hr
      pointer := fun q hq => by cases hq
      listener := fun q hq hfind => ?_
      reading := fun q hq => ?_
      failed := fun q hq => hgone q (hold.failed q hq) }
    · have hlistening : (s.engines x).stage = .listening q := by
        rcases hq with hq | ⟨-, hq⟩
        · exact hq
        · cases hq
      -- the pointer is that of another connection, which is gone
      have hgoneP : Gone s.clients p := by
        rcases hold.pointer p hpointer with hstage | hgoneP
        · rw [hlistening] at hstage
          cases hstage
        · exact hgoneP
      -- so the connection that it holds keeps its listener
      have hqp : q ≠ p := by
        intro hqp
        refine hgoneP.not_held x ?_
        show (s.engines x).stage.held = some p
        rw [hlistening, hqp]
        rfl
      rw [hpool] at hfind ⊢
      show (Function.update s.pool.connections p _ q).connectionStatusListener = _
      rw [Function.update_of_ne hqp]
      exact hold.listener q (.inl hlistening) hfind
    · rw [show (s.engines x).cancelling = .read q from hq] at hno
      cases hno

/-- The invariant is kept when a cancel reads the pointer. -/
theorem inv_cancel (x : EngineId) :
    Inv (s.setEngine x { s.engines x with
      cancelled := true
      cancelling := match (s.engines x).connectionInternal with
        | some p => .read p
        | none => .no }) := by
  have hold := hinv.engines x
  refine inv_setEngine hinv rfl {
    own := hold.own
    pointer := hold.pointer
    listener := hold.listener
    reading := fun q hq => ?_
    failed := hold.failed }
  cases hpointer : (s.engines x).connectionInternal with
  | none =>
    rw [hpointer] at hq
    cases hq
  | some p =>
    rw [hpointer] at hq
    cases hq
    rcases hold.pointer q hpointer with hstage | hgoneQ
    · left
      show (s.engines x).stage.held = some q
      rw [hstage]
      rfl
    · exact .inr hgoneQ

end

/-! ## Every run -/

/-- What an engine holds is given by its place in the code. -/
theorem held_of_stage {stage : Stage} {held : Option ConnectionPtr}
    (h : (s.engines x).stage = stage) (hheld : stage.held = held) :
    (s.engines x).stage.held = held := by
  rw [h, hheld]

/-- Every action keeps the invariant, unless it releases a connection whose pointer `cancel`
has copied. -/
theorem step_inv {a : Action} (hinv : Inv s) (hcond : NotReleasedInCancel s a)
    (h : step poco s a = some s') : Inv s' := by
  cases a with
  -- one case for each action of the threads
  | checkCancelled x =>
    rw [step] at h
    split at h
    · rename_i hstage
      cases h
      refine inv_setStage hinv (held_of_stage hstage rfl) ?_ fun q => ?_
      · split <;> rfl
      · split <;> simp
    · cases h
  | findAndReuseConnection x url context =>
    rw [step] at h
    split at h
    · rename_i hstage hrun
      cases h
      exact inv_findAndReuseConnection hinv hstage hrun rfl rfl
    · rename_i hstage hrun
      cases h
      -- nothing was found, and the pool is as it was
      have hsame := ConnectionPoolInternal.findAndReuseConnection_none (congrArg Prod.fst hrun)
      rw [hrun] at hsame
      cases hsame
      exact hinv
    · cases h
  | createConnection x p url context sslContext =>
    rw [step] at h
    split at h
    · cases h
    rename_i hfresh
    split at h
    · rename_i hstage hrun
      cases h
      exact inv_createConnection hinv hfresh hstage hrun rfl rfl
    · cases h
  | setConnectionStatusListener x =>
    rw [step] at h
    split at h
    · rename_i hstage
      cases h
      exact inv_setConnectionStatusListener hinv hstage rfl rfl rfl
    · cases h
  | setConnectionInternal x =>
    rw [step] at h
    split at h
    · rename_i hstage
      cases h
      exact inv_setConnectionInternal hinv hstage
    · cases h
  | connectionClose x =>
    rw [step] at h
    split at h
    · cases h
      refine inv_removeConnection hinv ?_ rfl rfl rfl (hinv.engines x)
      rw [Function.update_eq_self]
    · cases h
  | takeConnectionInternal x =>
    rw [step] at h
    split at h
    · rename_i hstage _
      cases h
      exact inv_setStage hinv (held_of_stage hstage rfl) rfl (by simp)
    · rename_i hstage hpointer
      cases h
      exact inv_takeConnectionInternal hinv hstage hpointer
    · cases h
  | removeTaken x =>
    rw [step] at h
    split at h
    · rename_i hstage
      cases h
      refine inv_remove_held hinv (held_of_stage hstage rfl) rfl (fun q hq => ?_) rfl rfl rfl
      cases hq
      rfl
    · cases h
  | retryByConnection x =>
    rw [step] at h
    split at h
    · rename_i hstage _
      cases h
      exact inv_retryByConnection hinv hstage rfl rfl rfl
    · cases h
  | rethrow x =>
    rw [step] at h
    split at h
    · rename_i hstage
      cases h
      exact inv_setStage hinv (held_of_stage hstage rfl) rfl (by simp)
    · cases h
  -- the condition is needed here: no cancel has copied the pointer
  | closeRelease x now =>
    rw [step] at h
    split at h
    · rename_i hstage
      cases h
      rw [NotReleasedInCancel, hstage] at hcond
      exact inv_closeRelease hinv hstage fun hfind => hcond.resolve_left hfind
    · cases h
  | closeRemove x =>
    rw [step] at h
    split at h
    · rename_i hstage
      cases h
      exact inv_remove_held hinv (held_of_stage hstage rfl) rfl (fun q hq => by cases hq) rfl rfl
        rfl
    · cases h
  | destroy x =>
    rw [step] at h
    split at h
    · rename_i hpointer hno
      cases h
      exact inv_destroy hinv hpointer hno rfl rfl rfl
    · cases h
  | cancel x =>
    rw [step] at h
    split at h
    · cases h
      exact hinv
    · cases h
      exact inv_cancel hinv x
  | cancelConnection x =>
    rw [step] at h
    split at h
    · rename_i hread
      cases h
      exact inv_cancelConnection hinv hread rfl rfl rfl
    · cases h
  | removeCancelled x =>
    rw [step] at h
    split at h
    · cases h
      -- `cancel` removes the connection that it has read
      have hold := hinv.engines x
      exact inv_removeConnection hinv rfl rfl rfl rfl {
        own := hold.own
        pointer := hold.pointer
        listener := hold.listener
        reading := fun q hq => by cases hq
        failed := hold.failed }
    · cases h
  | onKeepAliveTimeoutExpired task =>
    cases h
    exact inv_expired hinv rfl rfl rfl

/-- In a state with the invariant a cancel hits its own call only. -/
theorem cancelIsolated_of_inv (poco : Poco) (hinv : Inv s) (a : Action) :
    CancelIsolated poco s a := by
  cases a with
  | cancelConnection x =>
    intro p hread y hy hheld
    rcases (hinv.engines x).reading p hread with hx | hgone
    · exact hy (hinv.clients.exclusive y x p hheld hx)
    · exact hgone.not_held y hheld
  | findAndReuseConnection x url context =>
    intro p hp
    obtain ⟨⟨task, hfind⟩, hidle, -, -⟩ := ConnectionPoolInternal.findAndReuseConnection_some hp
    exact hinv.reusable p task hfind hidle
  | _ => trivial

/-- In every run in which no connection of the pool is released between the two sections of a
`cancel` that has copied its pointer, `cancel` never hits what another call holds, and no
cancelled connection is handed out. -/
theorem cancel_isolated (poco : Poco) (keepAliveIdleCountMax : ℕ) (keepAliveTimeoutSec : Int64)
    (actions : List Action)
    (hcond : Runs.EveryStep (step poco) NotReleasedInCancel
      (System.initial keepAliveIdleCountMax keepAliveTimeoutSec) actions) :
    Runs.EveryStep (step poco) (CancelIsolated poco)
      (System.initial keepAliveIdleCountMax keepAliveTimeoutSec) actions :=
  Runs.everyStep_of_invariant (fun _ _ _ hinv hcond h => step_inv hinv hcond h)
    (fun _ a hinv _ => cancelIsolated_of_inv poco hinv a) (inv_initial _ _) hcond

/-- A call makes a connection, and its engine has the pointer. -/
def sendFirst : List Action :=
  [.checkCancelled 0, .createConnection 0 7 "http://a.com/" PoolClients.plainContext (.ok ()),
    .setConnectionStatusListener 0, .setConnectionInternal 0]

theorem cancel_isolated_finished :
    Runs.EveryStep (step Poco.plain) (CancelIsolated Poco.plain) (System.initial 5 5)
      (sendFirst ++ [.cancel 0, .cancelConnection 0, .closeRelease 0 ⟨0⟩, .checkCancelled 1,
        .findAndReuseConnection 1 "http://a.com/" PoolClients.plainContext]) :=
  cancel_isolated Poco.plain 5 5 _ (by decide +kernel)

/-- `cancel` copies the pointer, and the connection is released before it is used. If another
call takes the connection over, its connection is cancelled; and if the cancel comes first, the
pool hands out the cancelled connection. -/
theorem released_in_cancel_not_isolated :
    ¬ Runs.EveryStep (step Poco.plain) (CancelIsolated Poco.plain) (System.initial 5 5)
        (sendFirst ++ [.cancel 0, .closeRelease 0 ⟨0⟩, .checkCancelled 1,
          .findAndReuseConnection 1 "http://a.com/" PoolClients.plainContext]
            ++ [.cancelConnection 0]) ∧
      ¬ Runs.EveryStep (step Poco.plain) (CancelIsolated Poco.plain) (System.initial 5 5)
        (sendFirst ++ [.cancel 0, .closeRelease 0 ⟨0⟩, .cancelConnection 0, .checkCancelled 1]
          ++ [.findAndReuseConnection 1 "http://a.com/" PoolClients.plainContext]) := by
  constructor
  · intro h
    have hends : (Runs.run (step Poco.plain) (System.initial 5 5)
        (sendFirst ++ [.cancel 0, .closeRelease 0 ⟨0⟩, .checkCancelled 1,
          .findAndReuseConnection 1 "http://a.com/" PoolClients.plainContext])).map
        (fun s => ((s.engines 0).cancelling, (s.engines 1).stage.held)) =
          some (.read 7, some 7) := by
      decide +kernel
    obtain ⟨s, hrun, hs⟩ := Option.map_eq_some_iff.mp hends
    rw [Prod.mk.injEq] at hs
    exact h.at_append hrun 7 hs.1 1 (by decide) hs.2
  · intro h
    have hends : (Runs.run (step Poco.plain) (System.initial 5 5)
        (sendFirst ++ [.cancel 0, .closeRelease 0 ⟨0⟩, .cancelConnection 0,
          .checkCancelled 1])).map
        (fun s => ((s.pool.findAndReuseConnection Poco.plain "http://a.com/"
          PoolClients.plainContext).1, (s.pool.connections 7).cancelled)) =
          some (some 7, true) := by
      decide +kernel
    obtain ⟨s, hrun, hs⟩ := Option.map_eq_some_iff.mp hends
    rw [Prod.mk.injEq] at hs
    have hnot := h.at_append hrun 7 hs.1
    rw [hs.2] at hnot
    cases hnot

end EasyHttp.CallCancel
