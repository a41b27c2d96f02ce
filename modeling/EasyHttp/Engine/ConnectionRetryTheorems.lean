import EasyHttp.Engine.ConnectionRetry

/-!
# How often a request is sent, and what is left of its connections

* `Interferes`: what any thread may do at any time: it puts none of this call's connections into
  the pool, and takes no pointer from the engine while the attempt has the connection;
* `Tracks`: the connection of an attempt is that of the engine, or its stream has released it at
  the end of the body;
* `sendRequestAndReceiveResponse_post`, `handle_post`, `round_post`: an attempt, a handler and a
  round of the loop;
* `retriesByConnection`: the loop.
-/

namespace EasyHttp.ConnectionRetry

open Exec

variable {w w' : World} {p q : ConnectionPtr}

/-! ## What may happen at any time -/

/-- The connection is not in the pool. -/
def World.lacks (w : World) (p : ConnectionPtr) : Prop :=
  w.pool.connectionControls.find? p = none

/-- What other threads cannot change, and what the engine's own steps leave as it is. -/
structure Interferes (w w' : World) : Prop where
  attempts : w'.attempts = w.attempts
  connectionReused : w'.connectionReused = w.connectionReused
  resets : w'.resets = w.resets
  lacks : ∀ p ∈ w.connections, w.lacks p → w'.lacks p
  pointer : w'.connectionInternal = w.connectionInternal ∨
    w'.connectionInternal = none ∧ ∀ p, w.connectionInternal = some p → w.holds p = false

namespace Interferes

/-- The connections of the attempts are those they were. -/
theorem connections_eq (h : Interferes w w') : w'.connections = w.connections := by
  rw [World.connections, World.connections, h.attempts]

/-- What the engine holds is what it held. -/
theorem holds_eq (h : Interferes w w') (p : ConnectionPtr) : w'.holds p = w.holds p := by
  rw [World.holds, World.holds, h.attempts]

instance : Std.Refl Interferes where
  refl _ := ⟨rfl, rfl, rfl, fun _ _ h => h, .inl rfl⟩

instance : IsTrans World Interferes where
  trans u v w huv hvw := by
    refine ⟨hvw.attempts.trans huv.attempts, hvw.connectionReused.trans huv.connectionReused,
      hvw.resets.trans huv.resets, fun p hp hlacks => ?_, ?_⟩
    · exact hvw.lacks p (huv.connections_eq ▸ hp) (huv.lacks p hp hlacks)
    rcases huv.pointer with hsame | ⟨hnone, hholds⟩
    · rcases hvw.pointer with hsame' | ⟨hnone', hholds'⟩
      · exact .inl (hsame'.trans hsame)
      · refine .inr ⟨hnone', fun p hp => ?_⟩
        rw [← huv.holds_eq p]
        exact hholds' p (hsame.trans hp)
    · refine .inr ⟨?_, hholds⟩
      rcases hvw.pointer with hsame' | ⟨hnone', -⟩
      · exact hsame'.trans hnone
      · exact hnone'

/-- Only the pool changes, and it gets none of the connections. -/
theorem of_pool {pool : ConnectionPoolInternal}
    (h : ∀ p ∈ w.connections, w.lacks p → pool.connectionControls.find? p = none) :
    Interferes w { w with pool := pool } :=
  ⟨rfl, rfl, rfl, h, .inl rfl⟩

/-- What the pool has afterwards, it had before. -/
theorem of_within {pool : ConnectionPoolInternal} (h : pool.Within w.pool) :
    Interferes w { w with pool := pool } :=
  of_pool fun _ _ hlacks => h.find?_eq_none hlacks

end Interferes

theorem removeConnection_interferes (w : World) (p : ConnectionPtr) :
    Interferes w (w.removeConnection p) :=
  .of_within (w.pool.removeConnection_within p)

/-- What is removed is not in the pool. -/
theorem removeConnection_lacks (w : World) (p : ConnectionPtr) :
    (w.removeConnection p).lacks p := by
  show (w.pool.removeConnection p).2.connectionControls.find? p = none
  rw [ConnectionPoolInternal.removeConnection_find?, if_pos rfl]

theorem setConnection_interferes (w : World) (p : ConnectionPtr) (c : ConnectionInternal) :
    Interferes w { w with pool := w.pool.setConnection p c } :=
  .of_pool fun _ _ hlacks => hlacks

/-- `releaseConnection` may take the pointer of the connection from the engine. -/
theorem releaseConnection_cases (self : ListenerPtr) (w : World) (p : ConnectionPtr)
    (now : Timestamp) (listenerInvalidated : Bool) :
    ∃ pool : ConnectionPoolInternal,
      (∀ q, w.lacks q → pool.connectionControls.find? q = none) ∧
      (w.releaseConnection self p now listenerInvalidated = { w with pool := pool } ∨
        w.connectionInternal = some p ∧ w.releaseConnection self p now listenerInvalidated =
          { w with pool := pool, connectionInternal := none }) := by
  have hlacks (answer : Bool) (q : ConnectionPtr) (hq : w.lacks q) :=
    ConnectionPoolInternal.releaseConnection_find?_eq_none (p := p) hq now answer
  unfold World.releaseConnection
  split
  · split
    · rename_i hpointer
      exact ⟨_, hlacks true, .inr ⟨hpointer, rfl⟩⟩
    · exact ⟨_, hlacks false, .inl rfl⟩
  · exact ⟨_, hlacks listenerInvalidated, .inl rfl⟩

theorem known_of_connections (h : p ∈ w.connections) : p ∈ w.known :=
  List.mem_append_right _ h

/-- A connection that is not in the pool is not in it after another one is set. -/
theorem set_find?_eq_none {pool : ConnectionPoolInternal} {task : Option TaskPtr} (hne : q ≠ p)
    (hnone : pool.connectionControls.find? q = none) :
    (pool.connectionControls.set p task).find? q = none := by
  rw [SortedMap.find?_set, if_neg hne]
  exact hnone

/-- Reusing puts nothing into the pool. -/
theorem findAndReuseConnection_lacks {poco : Poco} {url : String} {context : EasyHttpContext}
    (hlacks : w.lacks q) :
    (w.pool.findAndReuseConnection poco url context).2.connectionControls.find? q = none := by
  cases hfound : (w.pool.findAndReuseConnection poco url context).1 with
  | none =>
    rw [ConnectionPoolInternal.findAndReuseConnection_none hfound]
    exact hlacks
  | some p =>
    obtain ⟨⟨task, htask⟩, -, hcontrols, -⟩ :=
      ConnectionPoolInternal.findAndReuseConnection_some hfound
    rw [hcontrols]
    refine set_find?_eq_none ?_ hlacks
    intro heq
    rw [World.lacks, heq, htask] at hlacks
    cases hlacks

/-- Every section of another thread. -/
theorem other_interferes (poco : Poco) (self : ListenerPtr) (w : World) (o : Other) :
    Interferes w (w.other poco self o) := by
  have hsame : Interferes w w := Std.Refl.refl w
  cases o with
  -- a cancel does not touch what the attempts have recorded
  | cancel =>
    rw [World.other]
    split
    · exact hsame
    · exact ⟨rfl, rfl, rfl, fun _ _ h => h, .inl rfl⟩
  | cancelConnection =>
    rw [World.other]
    split
    · exact ⟨rfl, rfl, rfl, fun _ _ h => h, .inl rfl⟩
    · exact hsame
  | removeCancelled =>
    rw [World.other]
    split
    · obtain ⟨hattempts, hreused, hresets, hlacks, hpointer⟩ := removeConnection_interferes w _
      exact ⟨hattempts, hreused, hresets, hlacks, hpointer⟩
    · exact hsame
  | cancelOther p => exact setConnection_interferes w p _
  | findAndReuseConnection url context =>
    exact .of_pool fun q _ hlacks => findAndReuseConnection_lacks hlacks
  | createConnection p url context sslContext =>
    rw [World.other]
    split
    · exact hsame
    rename_i hnew
    split
    -- the new connection has an address of its own
    · rename_i pool hcreate
      obtain ⟨c, -, -, hcontrols, -⟩ := ConnectionPoolInternal.createConnection_ok hcreate
      refine .of_pool fun q hq hlacks => ?_
      rw [hcontrols]
      refine set_find?_eq_none ?_ hlacks
      intro heq
      exact hnew (heq ▸ known_of_connections hq)
    · exact hsame
  | setConnectionStatusListener p listener => exact setConnection_interferes w p _
  | removeConnection p => exact removeConnection_interferes w p
  | releaseConnection p now listenerInvalidated =>
    rw [World.other]
    split
    · exact hsame
    rename_i hholds
    -- when the engine's own connection is released, the engine forgets it
    obtain ⟨pool, hpool, heq | ⟨hpointer, heq⟩⟩ :=
      releaseConnection_cases self w p now listenerInvalidated
    · rw [heq]
      exact .of_pool fun q _ hlacks => hpool q hlacks
    · rw [heq]
      refine ⟨rfl, rfl, rfl, fun q _ hlacks => hpool q hlacks, .inr ⟨rfl, fun q hq => ?_⟩⟩
      rw [hpointer] at hq
      cases hq
      exact Bool.eq_false_iff.mpr hholds
  | onKeepAliveTimeoutExpired task =>
    exact .of_within (w.pool.onKeepAliveTimeoutExpired_within task)

section
variable {poco : Poco} {self : ListenerPtr} {call : Call} {env : AttemptEnv}

theorem pause_interferes (window : Window) : Keeps Interferes (pause poco self env window) := by
  refine keeps_modifyState fun w => ?_
  generalize env.others window = sections
  induction sections generalizing w with
  | nil => exact Std.Refl.refl w
  | cons o sections ih => exact trans_of Interferes (other_interferes poco self w o) (ih _)

/-- A pause throws nothing. -/
theorem wp_pause {window : Window} {Q : Unit → World → Prop} {E : Thrown → World → Prop}
    (h : ∀ w', Interferes w w' → Q () w') : wp (pause poco self env window) Q E w :=
  h _ (pause_interferes window w)

theorem checkCancelled_interferes : Keeps Interferes checkCancelled := by
  refine keeps_getState_bind fun w => ?_
  split
  · exact keeps_throw (R := Interferes) _ w
  · exact keeps_pure (R := Interferes) _ w

theorem chooseConnectionPool_interferes : Keeps Interferes (chooseConnectionPool call) := by
  refine keeps_modifyState fun w => ?_
  by_cases hpool : call.hasConnectionPool = true
  · rw [if_pos hpool]
    exact Std.Refl.refl w
  · rw [if_neg hpool]
    exact .of_pool fun _ _ _ => rfl

theorem sendRequest_interferes (uri : Uri) :
    Keeps Interferes (sendRequest poco self call env uri) := by
  refine keeps_tryCatch ?_ fun e => keeps_throw _
  refine keeps_bind (pause_interferes .sending) fun _ => keeps_bind (keeps_lift _) fun _ => ?_
  split
  · exact keeps_lift _
  · exact keeps_pure _

end

/-! ## An attempt and its connection -/

/-- The last attempt is `a`, and the connections of the earlier ones are not in the pool. -/
structure InAttempt (earlier : List Attempt) (a : Attempt) (w : World) : Prop where
  attempts : w.attempts = a :: earlier
  reused : w.connectionReused = a.reused
  resets : w.resets = a.resets
  gone : ∀ b ∈ earlier, ∀ p, b.connection = some p → w.lacks p

/-- The connection is that of the engine, or it was released when the body had been read to the
end, and is that of the engine no more. -/
structure Tracks (earlier : List Attempt) (a : Attempt) (w : World) : Prop
    extends InAttempt earlier a w where
  pointer : ∀ p, a.connection = some p → w.connectionInternal = some p ∨
    w.connectionInternal = none ∧ a.releasedAtEof = some true
  atEof : a.releasedAtEof ≠ some false

variable {earlier : List Attempt} {a : Attempt}

theorem connection_mem (hattempts : w.attempts = a :: earlier) {b : Attempt}
    (hb : b ∈ a :: earlier) (hp : b.connection = some p) : p ∈ w.connections :=
  List.mem_filterMap.mpr ⟨b, hattempts ▸ hb, hp⟩

theorem InAttempt.interferes (h : InAttempt earlier a w) (hi : Interferes w w') :
    InAttempt earlier a w' where
  attempts := hi.attempts.trans h.attempts
  reused := hi.connectionReused.trans h.reused
  resets := hi.resets.trans h.resets
  gone b hb p hp := hi.lacks p (connection_mem h.attempts (List.mem_cons_of_mem a hb) hp)
    (h.gone b hb p hp)

theorem Tracks.interferes (h : Tracks earlier a w) (hi : Interferes w w') :
    Tracks earlier a w' where
  toInAttempt := h.toInAttempt.interferes hi
  atEof := h.atEof
  pointer p hp := by
    rcases hi.pointer with hsame | ⟨hnone, hholds⟩
    · rw [hsame]
      exact h.pointer p hp
    rcases h.pointer p hp with hpointer | ⟨-, heof⟩
    · -- another stream took the pointer, so this one had released the connection
      have hnot := hholds p hpointer
      rw [World.holds, h.attempts] at hnot
      refine .inr ⟨hnone, ?_⟩
      have heof := h.atEof
      cases hreleased : a.releasedAtEof with
      | none => simp [hp, hreleased] at hnot
      | some b =>
        cases b with
        | true => rfl
        | false => exact absurd hreleased heof
    · exact .inr ⟨hnone, heof⟩

/-- What keeps the attempts as they are keeps the connection tracked. -/
theorem Tracks.wp_keeps {α : Type} {x : Exec Thrown World α} (h : Tracks earlier a w)
    (hx : Keeps Interferes x) :
    wp x (fun _ w' => Tracks earlier a w') (fun _ w' => Tracks earlier a w') w :=
  wp_mono (wp_of_keeps hx w) (fun _ _ hi => h.interferes hi) fun _ _ hi => h.interferes hi

/-- Before it has a connection, an attempt has nothing to keep track of. -/
theorem InAttempt.tracks (h : InAttempt earlier a w) (hconnection : a.connection = none)
    (hreleased : a.releasedAtEof = none) : Tracks earlier a w where
  toInAttempt := h
  pointer p hp := by
    rw [hconnection] at hp
    cases hp
  atEof := by
    rw [hreleased]
    exact nofun

/-! ## What an attempt does -/

section
variable {poco : Poco} {self : ListenerPtr} {call : Call} {env : AttemptEnv}

theorem le_foldr_max {l : List ℕ} {n : ℕ} (h : n ∈ l) : n ≤ l.foldr max 0 := by
  induction l with
  | nil => cases h
  | cons m l ih =>
    rw [List.foldr_cons]
    rcases List.mem_cons.mp h with rfl | hmem
    · exact Nat.le_max_left ..
    · exact Nat.le_trans (ih hmem) (Nat.le_max_right ..)

theorem fresh_ne (h : p ∈ w.connections) : p ≠ w.fresh :=
  Nat.ne_of_lt (Nat.lt_succ_of_le (le_foldr_max (known_of_connections h)))

theorem record_attempts {f : Attempt → Attempt} (h : w.attempts = a :: earlier) :
    (w.record f).attempts = f a :: earlier := by
  rw [World.record, h]
  rfl

/-- The attempt gets a connection; the pool gets none of the earlier ones. -/
theorem InAttempt.obtain (h : InAttempt earlier a w) {b : Attempt}
    (hattempts : w'.attempts = b :: earlier) (hreused : w'.connectionReused = b.reused)
    (hresets : w'.resets = b.resets) (hlacks : ∀ q ∈ w.connections, w.lacks q → w'.lacks q) :
    InAttempt earlier b w' where
  attempts := hattempts
  reused := hreused
  resets := hresets
  gone c hc q hq := hlacks q (connection_mem h.attempts (List.mem_cons_of_mem a hc) hq)
    (h.gone c hc q hq)

/-- The connection that was made is that of the attempt, and tracked. -/
theorem createConnection_post (h : InAttempt earlier a w) (hreused : a.reused = false) :
    wp (createConnection poco call env)
      (fun p w' => InAttempt earlier { a with connection := some p, reused := false } w')
      (fun _ w' => InAttempt earlier a w') w := by
  rw [createConnection, wp_bind, wp_getState]
  split
  · exact h
  rename_i pool hcreate
  obtain ⟨c, -, -, hcontrols, -⟩ := ConnectionPoolInternal.createConnection_ok hcreate
  rw [wp_bind, wp_modifyState, wp_pure]
  refine h.obtain ?_ (h.reused.trans hreused) h.resets fun q hq hlacks => ?_
  · rw [World.record, h.attempts]
    rfl
  · show pool.connectionControls.find? q = none
    rw [hcontrols]
    exact set_find?_eq_none (fresh_ne hq) hlacks

/-- The connection that was got is that of the attempt, and tracked. -/
theorem getConnection_post (h : InAttempt earlier a w) (hreused : a.reused = false) :
    wp (getConnection poco self call env)
      (fun p w' => ∃ r, InAttempt earlier { a with connection := some p, reused := r } w')
      (fun _ w' => InAttempt earlier a w') w := by
  rw [getConnection, wp_bind, wp_getState]
  have hlacks (q : ConnectionPtr) (hq : w.lacks q) :
      (w.pool.findAndReuseConnection poco call.networkRequest.url
        call.context).2.connectionControls.find? q = none := findAndReuseConnection_lacks hq
  rcases hfound : w.pool.findAndReuseConnection poco call.networkRequest.url call.context
    with ⟨_ | p, pool⟩
  · simp only [wp_bind, wp_modifyState]
    have hnone : InAttempt earlier a { w with connectionReused := false } :=
      h.obtain h.attempts hreused.symm h.resets fun _ _ hlacks => hlacks
    refine wp_pause fun w' hi => ?_
    exact wp_mono (createConnection_post (hnone.interferes hi) hreused)
      (fun p _ hp => ⟨false, hp⟩) fun _ _ he => he
  · simp only [wp_bind, wp_modifyState, wp_pure]
    refine ⟨true, h.obtain ?_ rfl h.resets fun q _ hq => ?_⟩
    · rw [World.record, h.attempts]
      rfl
    · have hpool := hlacks q hq
      rw [hfound] at hpool
      exact hpool

/-- The connection of the attempt is that of the engine. -/
theorem installConnection_post (h : InAttempt earlier a w) (hconnection : a.connection = some p)
    (hreleased : a.releasedAtEof = none) {E : Thrown → World → Prop} :
    wp (installConnection poco self env p) (fun _ w' => Tracks earlier a w') E w := by
  rw [installConnection, wp_bind]
  refine wp_pause fun w₁ hi₁ => ?_
  have h₁ := h.interferes hi₁
  rw [wp_bind, wp_modifyState, wp_bind]
  have hlisten : InAttempt earlier a { w₁ with pool := w₁.pool.setListener p (some self) } :=
    h₁.interferes (setConnection_interferes w₁ p _)
  refine wp_pause fun w₂ hi₂ => ?_
  obtain ⟨hattempts, hreused, hresets, hgone⟩ := hlisten.interferes hi₂
  rw [wp_modifyState]
  refine ⟨⟨hattempts, hreused, hresets, hgone⟩, fun q hq => ?_, by rw [hreleased]; exact nofun⟩
  rw [hconnection] at hq
  exact .inl hq

/-- A stream asks to release only its connection, and only at its end. -/
theorem close_release {s closed : ResponseBodyStreamWithoutCaching} {receiveTimeout t : Int64}
    {skip : ResponseBodyStreamInternal.SkipAll Sgetn}
    (h : s.close receiveTimeout skip = (some (.releaseConnection q), closed, t)) :
    s.connectionInternal = some q ∧ closed.base.content.eofbit = true := by
  have htrue := @ResponseBodyStreamInternal.skipAll_true _ _
    ResponseBodyStreamWithoutCaching.base ResponseBodyStreamWithoutCaching.skipRead
    skip s receiveTimeout
  unfold ResponseBodyStreamWithoutCaching.close at h
  rcases hskip : ResponseBodyStreamInternal.skipAll ResponseBodyStreamWithoutCaching.base
    ResponseBodyStreamWithoutCaching.skipRead skip s receiveTimeout with ⟨reusable, skipped, last⟩
  rw [hskip] at h htrue
  split at h
  · cases h
  · split at h
    · rename_i p hconnection
      cases reusable with
      | false => cases h
      | true =>
        cases h
        exact ⟨hconnection, (htrue rfl).1⟩
    · cases h

/-- What an attempt may have become when its stream is closed. -/
def Attempt.Closes (a b : Attempt) : Prop := b = a ∨ b = { a with releasedAtEof := some true }

/-- The connection is tracked when a stream has been closed. -/
theorem closeStream_post {s : ResponseBodyStreamWithoutCaching} (h : Tracks earlier a w)
    (hconnection : a.connection = some p) (hs : ∀ q, s.connectionInternal = some q → q = p)
    {E : Thrown → World → Prop} :
    wp (closeStream poco self env s) (fun _ w' => ∃ b, a.Closes b ∧ Tracks earlier b w') E w := by
  rw [closeStream, wp_bind]
  refine wp_pause fun w' hi => ?_
  have h' := h.interferes hi
  -- a stream without a connection asks nothing of the pool
  rcases hclose : s.close env.receiveTimeout env.skipAll with ⟨_ | call, closed, t⟩
  · exact ⟨a, .inl rfl, h'⟩
  cases call with
  | removeConnection q => exact ⟨a, .inl rfl, h'.interferes (removeConnection_interferes w' q)⟩
  | releaseConnection q =>
    obtain ⟨hq, heof⟩ := close_release hclose
    cases hs q hq
    -- the stream gives back the connection of the attempt, at the end of the body
    obtain ⟨pool, hpool, hcases⟩ :=
      releaseConnection_cases self w' p env.now env.listenerInvalidated
    have hgone := fun b hb q hq => hpool q (h'.gone b hb q hq)
    have hrecord : (if a.connection = some p then
        { a with releasedAtEof := some closed.base.content.eofbit } else a) =
          { a with releasedAtEof := some true } := by
      rw [if_pos hconnection, heof]
    refine ⟨{ a with releasedAtEof := some true }, .inr rfl, ?_⟩
    show Tracks earlier _ (World.record _ _)
    -- the engine is told, or the listener was gone
    rcases hcases with heq | ⟨-, heq⟩
    · rw [heq]
      refine ⟨⟨?_, h'.reused, h'.resets, hgone⟩, fun q hq => ?_, nofun⟩
      · exact (record_attempts (w := { w' with pool := pool }) h'.attempts).trans
          (congrArg (· :: earlier) hrecord)
      · rcases h'.pointer q hq with hpointer | ⟨hnone, -⟩
        · exact .inl hpointer
        · exact .inr ⟨hnone, rfl⟩
    · rw [heq]
      refine ⟨⟨?_, h'.reused, h'.resets, hgone⟩, fun q hq => .inr ⟨rfl, rfl⟩, nofun⟩
      exact (record_attempts (w := { w' with pool := pool, connectionInternal := none })
        h'.attempts).trans (congrArg (· :: earlier) hrecord)

/-- The engine has no other connection than that of the attempt. -/
theorem Tracks.pointer_eq (h : Tracks earlier a w) (hconnection : a.connection = some p)
    (hq : w.connectionInternal = some q) : q = p := by
  rcases h.pointer p hconnection with hpointer | ⟨hnone, -⟩
  · rw [hpointer] at hq
    cases hq
    rfl
  · rw [hnone] at hq
    cases hq

/-- The stream of the response has the connection of the attempt. -/
theorem createResponse_post {uri : Uri} {received : ReceivedResponse}
    {s : ResponseBodyStreamWithoutCaching} (h : Tracks earlier a w)
    (hconnection : a.connection = some p) (hs : ∀ q, s.connectionInternal = some q → q = p) :
    wp (createResponse poco self call env uri received s)
      (fun _ w' => ∃ b, a.Closes b ∧ Tracks earlier b w')
      (fun _ w' => ∃ b, a.Closes b ∧ Tracks earlier b w') w := by
  unfold createResponse
  split
  · exact ⟨a, .inl rfl, h⟩
  · rw [wp_bind]
    exact wp_mono (closeStream_post h hconnection hs) (fun _ _ hw => hw) fun _ _ hw => hw

/-- The connection is tracked when the response has been received. -/
theorem receiveResponse_post {uri : Uri} (h : Tracks earlier a w)
    (hconnection : a.connection = some p) :
    wp (receiveResponse poco self call env uri)
      (fun _ w' => ∃ b, a.Closes b ∧ Tracks earlier b w')
      (fun _ w' => ∃ b, a.Closes b ∧ Tracks earlier b w') w := by
  rw [receiveResponse, wp_tryCatch_throw, wp_bind]
  refine wp_pause fun w₁ hi₁ => ?_
  have h₁ := h.interferes hi₁
  rw [wp_bind, wp_lift]
  refine ⟨fun received _ => ?_, fun _ _ => ⟨a, .inl rfl, h₁⟩⟩
  rw [wp_bind]
  refine wp_pause fun w₂ hi₂ => ?_
  have h₂ := h₁.interferes hi₂
  -- without keep-alive, the connection is removed from the pool and stays that of the engine
  have hrest : ∀ w₃, Tracks earlier a w₃ → wp (do
      let w ← getState
      lift received.contentLength
      createResponse poco self call env uri received
        (.construct received.content w.connectionInternal))
      (fun _ w' => ∃ b, a.Closes b ∧ Tracks earlier b w')
      (fun _ w' => ∃ b, a.Closes b ∧ Tracks earlier b w') w₃ := by
    intro w₃ h₃
    rw [wp_bind, wp_getState, wp_bind, wp_lift]
    refine ⟨fun _ _ => ?_, fun _ _ => ⟨a, .inl rfl, h₃⟩⟩
    exact createResponse_post h₃ hconnection fun q hq => h₃.pointer_eq hconnection hq
  -- with keep-alive the connection stays in the pool
  by_cases halive : received.keepAlive = true
  · rw [halive]
    exact hrest w₂ h₂
  · rw [Bool.eq_false_iff.mpr halive]
    refine hrest w₂.removeInternal ?_
    unfold World.removeInternal
    split
    · exact h₂.interferes (removeConnection_interferes w₂ _)
    · exact h₂

/-- What is recorded of an attempt, whether it ends in a response or in an exception. -/
structure Attempted (forceToCreateConnection : Bool) (resets : ℕ) (a : Attempt) : Prop where
  force_eq : a.forceToCreateConnection = forceToCreateConnection
  resets_eq : a.resets = resets
  created : forceToCreateConnection = true → a.reused = false
  obtained : a.reused = true → a.connection.isSome

/-- What is recorded stays when the stream is closed. -/
theorem Attempted.closes {force : Bool} {resets : ℕ} {b : Attempt} (h : Attempted force resets a)
    (hb : a.Closes b) : Attempted force resets b := by
  obtain ⟨hforce, hresets, hcreated, hobtained⟩ := h
  rcases hb with rfl | rfl
  · exact ⟨hforce, hresets, hcreated, hobtained⟩
  · exact ⟨hforce, hresets, hcreated, hobtained⟩

/-- A new attempt has no connection. -/
theorem attempted_start (force : Bool) (resets : ℕ) :
    Attempted force resets (Attempt.start force resets) :=
  ⟨rfl, rfl, fun _ => rfl, nofun⟩

/-- What follows once the attempt has a connection. -/
theorem withConnection_post {uri : Uri} (h : InAttempt earlier a w)
    (hconnection : a.connection = some p) (hreleased : a.releasedAtEof = none) :
    wp (do
        installConnection poco self env p
        sendRequest poco self call env uri
        pause poco self env .sent
        checkCancelled
        receiveResponse poco self call env uri)
      (fun _ w' => ∃ b, a.Closes b ∧ Tracks earlier b w')
      (fun _ w' => ∃ b, a.Closes b ∧ Tracks earlier b w') w := by
  rw [wp_bind]
  refine wp_mono (installConnection_post h hconnection hreleased) (fun _ w₁ h₁ => ?_)
    fun _ _ hw => hw
  rw [wp_bind]
  refine wp_mono (h₁.wp_keeps (sendRequest_interferes uri)) (fun _ w₂ h₂ => ?_)
    fun _ _ hw => ⟨a, .inl rfl, hw⟩
  rw [wp_bind]
  refine wp_pause fun w₃ hi₃ => ?_
  have h₃ := h₂.interferes hi₃
  rw [wp_bind]
  refine wp_mono (h₃.wp_keeps checkCancelled_interferes) (fun _ w₄ h₄ => ?_)
    fun _ _ hw => ⟨a, .inl rfl, hw⟩
  exact receiveResponse_post h₄ hconnection

/-- A connection for an attempt: a new one, or one that is used again if that is allowed. -/
theorem obtainConnection_post {force : Bool} {resets : ℕ}
    (h : InAttempt earlier (.start force resets) w) :
    wp (obtainConnection poco self call env force)
      (fun p w' => ∃ a, Attempted force resets a ∧ a.connection = some p ∧
        a.releasedAtEof = none ∧ InAttempt earlier a w')
      (fun _ w' => InAttempt earlier (.start force resets) w') w := by
  cases force with
  | true =>
    refine wp_mono (createConnection_post h rfl) (fun p w' h' => ?_) fun _ _ he => he
    refine ⟨_, ?_, rfl, rfl, h'⟩
    exact ⟨rfl, rfl, fun _ => rfl, nofun⟩
  | false =>
    refine wp_mono (getConnection_post h rfl) ?_ fun _ _ he => he
    rintro p w' ⟨r, h'⟩
    refine ⟨_, ?_, rfl, rfl, h'⟩
    exact ⟨rfl, rfl, nofun, fun _ => rfl⟩

/-- An attempt that fails leaves its connection tracked. -/
theorem sendRequestAndReceiveResponse_post {force : Bool}
    (hattempts : w.attempts = .start force w.resets :: earlier)
    (hgone : ∀ b ∈ earlier, ∀ p, b.connection = some p → w.lacks p) :
    wp (sendRequestAndReceiveResponse poco self call env force)
      (fun _ w' => ∃ a, Attempted force w.resets a ∧ Tracks earlier a w')
      (fun _ w' => ∃ a, Attempted force w.resets a ∧ Tracks earlier a w') w := by
  have hstart : InAttempt earlier (.start force w.resets) { w with connectionReused := false } :=
    ⟨hattempts, rfl, rfl, hgone⟩
  -- without a connection there is nothing to clean up
  have hstop (w' : World) (h : InAttempt earlier (.start force w.resets) w') :
      ∃ a, Attempted force w.resets a ∧ Tracks earlier a w' :=
    ⟨_, attempted_start force w.resets, h.tracks rfl rfl⟩
  rw [sendRequestAndReceiveResponse, wp_bind, wp_modifyState, wp_bind]
  -- each section is followed by what other threads do
  refine wp_pause fun w₁ hi₁ => ?_
  have h₁ := hstart.interferes hi₁
  rw [wp_bind]
  refine wp_mono (wp_of_keeps checkCancelled_interferes w₁) (fun _ w₂ hi₂ => ?_)
    fun _ w₂ hi₂ => hstop w₂ (h₁.interferes hi₂)
  have h₂ := h₁.interferes hi₂
  rw [wp_bind]
  refine wp_mono (wp_of_keeps chooseConnectionPool_interferes w₂) (fun _ w₃ hi₃ => ?_)
    fun _ w₃ hi₃ => hstop w₃ (h₂.interferes hi₃)
  have h₃ := h₂.interferes hi₃
  split
  · exact hstop w₃ h₃
  rw [wp_bind]
  refine wp_pause fun w₄ hi₄ => ?_
  rw [wp_bind]
  -- from here on the attempt has a connection
  refine wp_mono (obtainConnection_post (h₃.interferes hi₄)) ?_ fun _ w₅ h₅ => hstop w₅ h₅
  rintro p w₅ ⟨a, hattempted, hp, hr, h₅⟩
  -- whatever ends the attempt, what was recorded stays
  have hend (w₆ : World) (h₆ : ∃ b, a.Closes b ∧ Tracks earlier b w₆) :
      ∃ b, Attempted force w.resets b ∧ Tracks earlier b w₆ := by
    obtain ⟨b, hb, htracks⟩ := h₆
    exact ⟨b, hattempted.closes hb, htracks⟩
  exact wp_mono (withConnection_post h₅ hp hr) (fun _ => hend) fun _ => hend

end

/-! ## What a handler does -/

/-- Nothing is left: the engine has no connection, and each connection of an attempt is out of the
pool or was released to it at the end of its body. -/
structure CleanedUp (earlier : List Attempt) (a : Attempt) (w : World) : Prop where
  attempts : w.attempts = a :: earlier
  pointer : w.connectionInternal = none
  connection : ∀ b ∈ a :: earlier, ∀ p, b.connection = some p →
    w.lacks p ∨ b.releasedAtEof = some true

/-- The connections of all attempts were removed from the pool, and none is that of the engine. -/
structure Removed (earlier : List Attempt) (a : Attempt) (w : World) : Prop
    extends InAttempt earlier a w where
  pointer : w.connectionInternal = none
  removed : ∀ p, a.connection = some p → w.lacks p

theorem Removed.interferes (h : Removed earlier a w) (hi : Interferes w w') :
    Removed earlier a w' where
  toInAttempt := h.toInAttempt.interferes hi
  pointer := by
    rcases hi.pointer with hsame | ⟨hnone, -⟩
    · exact hsame.trans h.pointer
    · exact hnone
  removed p hp := hi.lacks p (connection_mem h.attempts List.mem_cons_self hp) (h.removed p hp)

/-- Where the connection was removed nothing is left. -/
theorem Removed.cleanedUp (h : Removed earlier a w) : CleanedUp earlier a w where
  attempts := h.attempts
  pointer := h.pointer
  connection := List.forall_mem_cons.mpr
    ⟨fun p hp => .inl (h.removed p hp), fun b hb p hp => .inl (h.gone b hb p hp)⟩

/-- The loop goes on after the attempt `a`. -/
structure Retries (call : Call) (earlier : List Attempt) (a : Attempt) (w : World) : Prop where
  attempts : w.attempts = a :: earlier
  reused : a.reused = true
  reset : call.networkRequest.body.isSome → w.resets = a.resets + 1
  gone : ∀ b ∈ a :: earlier, ∀ p, b.connection = some p → w.lacks p

theorem Retries.interferes {call : Call} (h : Retries call earlier a w) (hi : Interferes w w') :
    Retries call earlier a w' where
  attempts := hi.attempts.trans h.attempts
  reused := h.reused
  reset hbody := hi.resets.trans (h.reset hbody)
  gone b hb p hp := hi.lacks p (connection_mem h.attempts hb hp) (h.gone b hb p hp)

section
variable {poco : Poco} {self : ListenerPtr} {call : Call} {env : AttemptEnv}

/-- Without a pointer there is nothing left to clean up; a pointer is that of the attempt, if the
attempt has a connection. -/
theorem takeConnectionInternal_post (h : Tracks earlier a w) {E : Thrown → World → Prop} :
    wp (takeConnectionInternal poco self env)
      (fun taken w' => InAttempt earlier a w' ∧ w'.connectionInternal = none ∧
        (taken = none → CleanedUp earlier a w') ∧
        ∀ p, taken = some p → ∀ q, a.connection = some q → q = p) E w := by
  rw [takeConnectionInternal, wp_bind]
  refine wp_pause fun w₁ hi₁ => ?_
  have h₁ := h.interferes hi₁
  rw [wp_bind, wp_getState, wp_bind, wp_modifyState, wp_pure]
  refine ⟨⟨h₁.attempts, h₁.reused, h₁.resets, h₁.gone⟩, rfl, fun htaken => ?_,
    fun p htaken q hq => ?_⟩
  · refine ⟨h₁.attempts, rfl, List.forall_mem_cons.mpr ⟨fun p hp => ?_, fun b hb p hp => ?_⟩⟩
    · rcases h₁.pointer p hp with hpointer | ⟨-, heof⟩
      · rw [htaken] at hpointer
        cases hpointer
      · exact .inr heof
    · exact .inl (h₁.gone b hb p hp)
  · exact (h₁.pointer_eq hq htaken).symm

/-- The connection that was taken from the engine is removed from the pool. -/
theorem InAttempt.removed (h : InAttempt earlier a w) (hpointer : w.connectionInternal = none)
    (htaken : ∀ q, a.connection = some q → q = p) : Removed earlier a (w.removeConnection p) where
  toInAttempt := h.interferes (removeConnection_interferes w p)
  pointer := hpointer
  removed q hq := htaken q hq ▸ removeConnection_lacks w p

/-- Other threads give the engine no connection. -/
theorem Interferes.pointer_none (h : Interferes w w') (hnone : w.connectionInternal = none) :
    w'.connectionInternal = none := by
  rcases h.pointer with hsame | ⟨hnone', -⟩
  · exact hsame.trans hnone
  · exact hnone'

/-- The handler of an `HttpException` leaves nothing. -/
theorem catchHttp_post (h : Tracks earlier a w) (e : Thrown) {Q : Unit → World → Prop} :
    wp (catchHttp poco self env e) Q (fun _ w' => CleanedUp earlier a w') w := by
  rw [catchHttp, wp_bind]
  refine wp_mono (takeConnectionInternal_post h (E := fun _ _ => False)) ?_ fun _ _ hf => hf.elim
  rintro taken w₁ ⟨h₁, hpointer, hnone, hsome⟩
  cases taken with
  | none => exact hnone rfl
  | some p =>
    show wp (_ >>= fun _ => _) _ _ _
    rw [wp_bind]
    refine wp_pause fun w₂ hi₂ => ?_
    rw [wp_bind, wp_modifyState, wp_throw]
    have hremoved := (h₁.interferes hi₂).removed (hi₂.pointer_none hpointer) (hsome p rfl)
    exact hremoved.cleanedUp

/-- The body is reset before the next attempt, or nothing is left. -/
theorem resetBody_post (h : Removed earlier a w) (hreused : a.reused = true) :
    wp (resetBody call env) (fun _ w' => Retries call earlier a w')
      (fun _ w' => CleanedUp earlier a w') w := by
  have hgone := List.forall_mem_cons.mpr ⟨h.removed, h.gone⟩
  rw [resetBody]
  by_cases hbody : call.networkRequest.body.isSome = true
  · rw [if_pos hbody, wp_bind, wp_lift]
    refine ⟨fun successful _ => ?_, fun _ _ => h.cleanedUp⟩
    cases successful with
    | false => exact h.cleanedUp
    | true => exact ⟨h.attempts, hreused, fun _ => congrArg (· + 1) h.resets, hgone⟩
  · rw [if_neg hbody]
    exact ⟨h.attempts, hreused, fun hsome => absurd hsome hbody, hgone⟩

/-- The handler of an `HttpExecutionException` lets the loop go on, or leaves nothing. -/
theorem catchExecution_post (h : Tracks earlier a w) (e : Thrown) :
    wp (catchExecution poco self call env e) (fun _ w' => Retries call earlier a w')
      (fun _ w' => CleanedUp earlier a w') w := by
  rw [catchExecution, wp_bind]
  refine wp_mono (takeConnectionInternal_post h (E := fun _ _ => False)) ?_ fun _ _ hf => hf.elim
  rintro taken w₁ ⟨h₁, hpointer, hnone, hsome⟩
  -- without a connection the exception goes on at once
  cases taken with
  | none => exact hnone rfl
  | some p =>
    show wp (_ >>= fun _ => _) _ _ _
    rw [wp_bind]
    refine wp_pause fun w₂ hi₂ => ?_
    rw [wp_bind, wp_modifyState, wp_bind]
    -- the connection is out of the pool before the next attempt
    have hremoved := (h₁.interferes hi₂).removed (hi₂.pointer_none hpointer) (hsome p rfl)
    refine wp_pause fun w₃ hi₃ => ?_
    have h₃ := hremoved.interferes hi₃
    have hretry (hreused : a.reused = true) : wp (do
        pause poco self env .resetting
        resetBody call env
        pause poco self env .reset
        modifyState fun w =>
          { w with pool := w.pool.setListener p none, connectionRetried := true })
        (fun _ w' => Retries call earlier a w') (fun _ w' => CleanedUp earlier a w') w₃ := by
      rw [wp_bind]
      refine wp_pause fun w₄ hi₄ => ?_
      rw [wp_bind]
      refine wp_mono (resetBody_post (h₃.interferes hi₄) hreused) (fun _ w₅ h₅ => ?_)
        fun _ _ h₅ => h₅
      rw [wp_bind]
      refine wp_pause fun w₆ hi₆ => ?_
      obtain ⟨hattempts, -, hreset, hgone⟩ := h₅.interferes hi₆
      exact ⟨hattempts, hreused, hreset, hgone⟩
    rw [wp_bind, wp_getState]
    -- a cancelled engine makes no second attempt
    by_cases hcancelled : w₃.cancelled = true
    · rw [hcancelled]
      exact h₃.cleanedUp
    · rw [Bool.eq_false_iff.mpr hcancelled, h₃.reused]
      cases hreused : a.reused with
      | false => exact h₃.cleanedUp
      | true => exact hretry hreused

/-- All handlers: what they throw is an `HttpException` only when nothing is left. -/
theorem handle_post (h : Tracks earlier a w) (e : Thrown) :
    wp (handle poco self call env e)
      (fun _ w' => Retries call earlier a w' ∧ ∃ message, e = .http (.execution message))
      (fun e' w' => w'.attempts = a :: earlier ∧ ∀ x, e' = .http x → CleanedUp earlier a w') w := by
  have hclean (e' : Thrown) (w' : World) (h' : CleanedUp earlier a w') :
      w'.attempts = a :: earlier ∧ ∀ x, e' = .http x → CleanedUp earlier a w' :=
    ⟨h'.attempts, fun _ _ => h'⟩
  unfold handle
  split
  · rename_i message
    exact wp_mono (catchExecution_post h _) (fun _ _ h' => ⟨h', message, rfl⟩) hclean
  · exact wp_mono (catchHttp_post h _ (Q := fun _ _ => False)) (fun _ _ hf => hf.elim) hclean
  · rename_i hother
    exact ⟨h.attempts, fun x hx => absurd hx (hother x)⟩

end

/-! ## The loop -/

theorem Attempted.fail {force : Bool} {resets : ℕ} (h : Attempted force resets a) (e : Thrown) :
    Attempted force resets { a with error := some e } := by
  obtain ⟨hforce, hresets, hcreated, hobtained⟩ := h
  exact ⟨hforce, hresets, hcreated, hobtained⟩

theorem Tracks.fail (h : Tracks earlier a w) (e : Thrown) :
    Tracks earlier { a with error := some e } (w.record fun a => { a with error := some e }) :=
  ⟨⟨record_attempts h.attempts, h.reused, h.resets, h.gone⟩, h.pointer, h.atEof⟩

/-- A round ends the loop, or lets it go on with a reused connection gone. -/
theorem round_post {poco : Poco} {self : ListenerPtr} {call : Call} {env : AttemptEnv}
    {force : Bool} (hgone : ∀ b ∈ w.attempts, ∀ p, b.connection = some p → w.lacks p) :
    wp (round poco self call env force)
      (fun r w' => ∃ a, Attempted force w.resets a ∧ w'.attempts = a :: w.attempts ∧
        (r = none → Retries call w.attempts a w' ∧
          ∃ message, a.error = some (.http (.execution message))))
      (fun e w' => ∃ a, Attempted force w.resets a ∧ w'.attempts = a :: w.attempts ∧
        ∀ x, e = .http x → CleanedUp w.attempts a w') w := by
  rw [round, wp_bind, wp_modifyState, wp_tryCatch, wp_bind]
  refine wp_mono (sendRequestAndReceiveResponse_post rfl hgone) ?_ ?_
  · rintro response w' ⟨a, hattempted, htracks⟩
    exact ⟨a, hattempted, htracks.attempts, nofun⟩
  · rintro e w' ⟨a, hattempted, htracks⟩
    rw [wp_bind, wp_modifyState, wp_bind]
    refine wp_mono (handle_post (htracks.fail e) e) ?_ ?_
    · rintro - w₂ ⟨hretries, message, rfl⟩
      exact ⟨_, hattempted.fail _, hretries.attempts, fun _ => ⟨hretries, message, rfl⟩⟩
    · rintro e' w₂ ⟨hattempts, hclean⟩
      exact ⟨_, hattempted.fail _, hattempts, hclean⟩

/-- The attempt `b` after the attempt `a`: that one failed on a connection of the pool with an
`HttpExecutionException`; this one is made on a new connection, and the body of the request was
reset in between. -/
structure SecondAttempt (call : Call) (b a : Attempt) : Prop where
  failed : ∃ message, a.error = some (.http (.execution message))
  reused : a.reused = true ∧ a.connection.isSome
  created : b.forceToCreateConnection = true ∧ b.reused = false
  reset : call.networkRequest.body.isSome → b.resets = a.resets + 1

/-- After the loop: there were at most two attempts, and nothing is left when an `HttpException` is
thrown. Two rounds are enough for the loop to end. -/
structure RetriesByConnection (call : Call) (rounds : ℕ)
    (result : Except Thrown (Option (Response × ResponseBodyStreamWithoutCaching)))
    (w : World) : Prop where
  attempts_le : w.attempts.length ≤ 2
  second : ∀ b a, w.attempts = [b, a] → SecondAttempt call b a
  exit : ∀ e, result = .error (.http e) → w.connectionInternal = none ∧
    ∀ a ∈ w.attempts, ∀ p, a.connection = some p →
      w.pool.connectionControls.find? p = none ∨ a.releasedAtEof = some true
  ended : 2 ≤ rounds → result ≠ .ok none

section
variable {poco : Poco} {self : ListenerPtr} {call : Call} {rounds : ℕ}
  {result : Except Thrown (Option (Response × ResponseBodyStreamWithoutCaching))}

/-- Without a round there is no attempt. -/
theorem retriesByConnection_none (hattempts : w.attempts = []) (h : result = .ok none) :
    RetriesByConnection call 0 result w where
  attempts_le := by
    rw [hattempts]
    exact Nat.zero_le 2
  second b c h := by
    rw [hattempts] at h
    cases h
  exit e he := by
    rw [h] at he
    cases he
  ended hle := absurd hle (by omega)

/-- What holds after one attempt. -/
theorem retriesByConnection_one (hattempts : w.attempts = [a])
    (hclean : ∀ e, result = .error (.http e) → CleanedUp [] a w)
    (hended : 2 ≤ rounds → result ≠ .ok none) : RetriesByConnection call rounds result w where
  attempts_le := by
    rw [hattempts]
    exact Nat.le_succ 1
  second b c h := by
    rw [hattempts] at h
    cases h
  exit e he := ⟨(hclean e he).pointer, hattempts ▸ (hclean e he).connection⟩
  ended := hended

/-- What holds after two attempts. -/
theorem retriesByConnection_two {b : Attempt} (hattempts : w.attempts = [b, a])
    (hsecond : SecondAttempt call b a)
    (hclean : ∀ e, result = .error (.http e) → CleanedUp [a] b w) (hended : result ≠ .ok none) :
    RetriesByConnection call rounds result w where
  attempts_le := by
    rw [hattempts]
    exact Nat.le_refl 2
  second c d h := by
    rw [hattempts] at h
    cases h
    exact hsecond
  exit e he := ⟨(hclean e he).pointer, hattempts ▸ (hclean e he).connection⟩
  ended _ := hended

/-- The loop after a first attempt that is to be made again. -/
theorem retryLoop_post {env : ℕ → AttemptEnv} {k : ℕ} {resets : ℕ} (h : Retries call [] a w)
    (hattempted : Attempted false resets a)
    (hfailed : ∃ message, a.error = some (.http (.execution message))) :
    wp (retryLoop poco self call env rounds k true)
      (fun r w' => RetriesByConnection call (rounds + 1) (.ok r) w')
      (fun e w' => RetriesByConnection call (rounds + 1) (.error e) w') w := by
  cases rounds with
  | zero =>
    exact retriesByConnection_one h.attempts nofun fun hle => absurd hle (by omega)
  | succ rounds =>
    have hsecond {b : Attempt} (hb : Attempted true w.resets b) : SecondAttempt call b a :=
      ⟨hfailed, ⟨h.reused, hattempted.obtained h.reused⟩, ⟨hb.force_eq, hb.created rfl⟩,
        fun hbody => hb.resets_eq.trans (h.reset hbody)⟩
    rw [retryLoop, wp_bind]
    have hgone := h.gone
    have hround := @round_post w poco self call (env k) true (h.attempts ▸ hgone)
    rw [h.attempts] at hround
    refine wp_mono hround ?_ ?_
    · rintro r w₁ ⟨b, hb, hattempts, hnone⟩
      cases r with
      | none =>
        -- the connection of the second attempt is new, so there is no third one
        have hreused := (hnone rfl).1.reused
        rw [hb.created rfl] at hreused
        cases hreused
      | some response =>
        exact retriesByConnection_two hattempts (hsecond hb) nofun nofun
    · rintro e w₁ ⟨b, hb, hattempts, hclean⟩
      refine retriesByConnection_two hattempts (hsecond hb) (fun x hx => ?_) nofun
      cases hx
      exact hclean x rfl

end

/-- **At most two attempts**, the second only on a new connection, and no `HttpException` leaves a
connection behind: for all that the attempts meet and whatever other threads do. -/
theorem retriesByConnection (poco : Poco) (self : ListenerPtr) (call : Call)
    (env : ℕ → AttemptEnv) (rounds : ℕ) (w : World) :
    RetriesByConnection call rounds
      (exec (sendRequestAndReceiveResponseWithRetryByConnection poco self call env rounds)
        { w with attempts := [] }).1
      (exec (sendRequestAndReceiveResponseWithRetryByConnection poco self call env rounds)
        { w with attempts := [] }).2 := by
  refine wp_result ?_
  rw [sendRequestAndReceiveResponseWithRetryByConnection]
  cases rounds with
  | zero =>
    rw [retryLoop, wp_pure]
    exact retriesByConnection_none rfl rfl
  | succ rounds =>
    rw [retryLoop, wp_bind]
    refine wp_mono (round_post (fun _ hb => absurd hb List.not_mem_nil)) ?_ ?_
    · rintro r w₁ ⟨a, ha, hattempts, hnone⟩
      cases r with
      | none => exact retryLoop_post (hnone rfl).1 ha (hnone rfl).2
      | some response => exact retriesByConnection_one hattempts nofun fun _ => nofun
    · rintro e w₁ ⟨a, ha, hattempts, hclean⟩
      refine retriesByConnection_one hattempts (fun x hx => ?_) fun _ => nofun
      cases hx
      exact hclean x rfl

end EasyHttp.ConnectionRetry
