import EasyHttp.Cache.HttpLruCacheStrategy
import EasyHttp.Cache.LruCacheByDataSizeStrategyTheorems

/-!
# The operations of `HttpLruCacheStrategy`

* `Changes`: a relation that holds over each change of the list holds over every operation
  (`keeps_remove`, `keeps_get`, `keeps_add`, `keeps_update`, `keeps_clear`, …), whatever the
  listener does;
* `Keep extra`: such a relation. Afterwards every entry is one listed under its key before, or
  one of `extra`, with its serial and its count of readers; entries may be gone;
* `exec_update_own`: an entry written over by one of its own size.
-/

namespace EasyHttp

/-- The same entry, read by as many. -/
def HttpCacheInfo.SameReaders (info info' : HttpCacheInfo) : Prop :=
  info.serial = info'.serial ∧ info.dataRefCount = info'.dataRefCount

namespace HttpLruCacheStrategy

open Exec LruCacheByDataSizeStrategy HttpCacheInfo

variable {ε ω : Type} {listener : LruListener ε ω HttpCacheInfo}
  {v : Virtuals ε ω HttpCacheInfo} {extra : List HttpCacheInfo} {key : String} {it : ℕ}
  {info old : HttpCacheInfo} {s : LruCacheByDataSizeStrategy HttpCacheInfo × ω}

/-! ## The operations -/

/-- A relation that holds over each change an operation makes; the last is the reservation of a
removal, which the listener may stop half way. -/
structure Changes (allowed : String → HttpCacheInfo → Prop)
    (R : LruCacheByDataSizeStrategy HttpCacheInfo × ω →
      LruCacheByDataSizeStrategy HttpCacheInfo × ω → Prop) : Prop
    extends LruCacheByDataSizeStrategy.Changes allowed R where
  reserve : ∀ s key it info w, s.1.find key = some (it, info) →
    R s (s.1.assign it { info with reservedRemove := true }, w) ∧
      R s ((s.1.assign it { info with reservedRemove := true }).push key
        { info with reservedRemove := true }, w)

/-- An entry written over by one of its own size needs no space, whatever virtual functions
there are. -/
theorem exec_addOrUpdate_own (hfind : s.1.find key = some (it, old))
    (hsize : info.dataSize = old.dataSize) :
    exec (addOrUpdate v key info) s = (.ok true, (s.1.push key info, s.2)) := by
  have hspace : exec (spaceFor v key info) s = (.ok true, s) := by
    unfold spaceFor
    rw [exec_bind_ok (exec_getState s), hfind]
    show exec (if old.dataSize < info.dataSize then _ else pure true) s = _
    rw [if_neg (by rw [hsize]; exact UInt64.lt_irrefl _)]
    rfl
  unfold addOrUpdate
  rw [exec_bind_ok hspace]
  rfl

/-- The object in the list is reserved, and goes to the top if the listener agrees. -/
theorem exec_reserve_update (hfind : s.1.find key = some (it, info)) :
    exec (LruCacheByDataSizeStrategy.update v listener key info) s =
      let (r, w) := exec (listener.onUpdate key info) s.2
      match r with
      | .ok true => (.ok true, (s.1.push key info, w))
      | r => (r, (s.1, w)) := by
  have htell : exec (tell (listener.onUpdate key info)) s =
      ((exec (listener.onUpdate key info) s.2).1, (s.1, (exec (listener.onUpdate key info) s.2).2)) :=
    rfl
  unfold LruCacheByDataSizeStrategy.update
  rw [exec_bind, htell]
  rcases exec (listener.onUpdate key info) s.2 with ⟨r, w⟩
  cases r with
  | error e => rfl
  | ok ret =>
    cases ret with
    | false => rfl
    | true => exact exec_addOrUpdate_own (s := (s.1, w)) hfind rfl

/-- The virtual functions play no part in the reservation of a removal. -/
theorem reserveRemove_eq (hfind : s.1.find key = some (it, info))
    (v : Virtuals ε ω HttpCacheInfo) :
    exec (reserveRemove listener key it info) s = exec (do
      let reserved := { info with reservedRemove := true }
      modifyState fun s => (s.1.assign it reserved, s.2)
      let _ ← LruCacheByDataSizeStrategy.update v listener key reserved) s := by
  have hassigned := find_assign hfind { info with reservedRemove := true }
  unfold reserveRemove
  rw [exec_bind_ok (exec_modifyState _ s), exec_bind_ok (exec_modifyState _ s), exec_bind,
    exec_bind, exec_reserve_update hassigned, exec_reserve_update hassigned]

/-- The same, where the callbacks are only those of one listener. -/
structure ChangesFor {ε : Type} (listener : LruListener ε ω HttpCacheInfo)
    (allowed : String → HttpCacheInfo → Prop)
    (R : LruCacheByDataSizeStrategy HttpCacheInfo × ω →
      LruCacheByDataSizeStrategy HttpCacheInfo × ω → Prop) : Prop
    extends LruCacheByDataSizeStrategy.ChangesFor listener allowed R where
  reserve : ∀ s key it info, s.1.find key = some (it, info) →
    R s (exec (reserveRemove listener key it info) s).2

section
variable {allowed : String → HttpCacheInfo → Prop}
  {R : LruCacheByDataSizeStrategy HttpCacheInfo × ω →
    LruCacheByDataSizeStrategy HttpCacheInfo × ω → Prop}
  [Std.Refl R] [IsTrans _ R]

namespace ChangesFor

variable (hR : ChangesFor listener allowed R)
include hR

theorem keeps_remove_base (key : String) :
    Keeps R (LruCacheByDataSizeStrategy.remove listener key) := hR.toChangesFor.keeps_remove key

theorem keeps_remove (key : String) : Keeps R (remove listener key) := by
  unfold remove
  refine keeps_getState_bind fun s => ?_
  cases hfind : s.1.find key with
  | none => exact keeps_pure false s
  | some found =>
    obtain ⟨it, info⟩ := found
    by_cases hbusy : info.dataRefCount > 0
    · by_cases hreserved : info.reservedRemove = true
      · simp only [hbusy, hreserved, if_true, Bool.not_true, Bool.false_eq_true, if_false]
        exact keeps_pure true s
      · simp only [hbusy, hreserved, if_true, Bool.not_false, exec_discard]
        exact hR.reserve s key it info hfind
    · simp only [hbusy, if_false]
      exact hR.keeps_remove_base key s

theorem keeps_makeSpace (requestSize : UInt64) : Keeps R (makeSpace listener requestSize) :=
  keeps_makeSpaceFor (fun key => hR.keeps_remove key) requestSize ""

theorem keeps_add (hallowed : allowed key info) : Keeps R (add listener key info) :=
  hR.toChangesFor.keeps_add (fun key => hR.keeps_remove key) hallowed

theorem keeps_update (hallowed : allowed key info) : Keeps R (update listener key info) := by
  unfold update
  refine keeps_bind (hR.toChangesFor.keeps_update (fun key => hR.keeps_remove key) hallowed)
    fun ret => ?_
  split
  · split
    · exact hR.keeps_remove_base key
    · exact keeps_pure true
  · exact keeps_pure false

theorem keeps_get (key : String) : Keeps R (get listener key) := hR.toChangesFor.keeps_get key

theorem keeps_clear (mayDeleteIfBusy : Bool) : Keeps R (clear listener mayDeleteIfBusy) := by
  have hkeys : ∀ keys ret, Keeps R (clearKeys listener keys ret) := by
    intro keys
    induction keys with
    | nil => exact fun ret => keeps_pure ret
    | cons key keys ih =>
      intro ret
      unfold clearKeys
      refine keeps_bind (hR.keeps_remove_base key) fun removed => ?_
      split
      · exact ih ret
      · exact ih false
  exact keeps_bind keeps_getState fun _ => hkeys _ _

end ChangesFor

variable (hR : Changes allowed R)
include hR

omit [Std.Refl R] [IsTrans _ R] in
/-- What holds for all listeners holds for one. -/
theorem Changes.changesFor : ChangesFor listener allowed R where
  toChangesFor := hR.toChanges.changesFor
  reserve := by
    intro s key it info hfind
    have hassigned := find_assign hfind { info with reservedRemove := true }
    unfold reserveRemove
    rw [exec_bind_ok (exec_modifyState _ s), exec_discard, exec_reserve_update hassigned]
    rcases exec (listener.onUpdate key { info with reservedRemove := true }) s.2 with ⟨r, w⟩
    obtain ⟨hassign, hpush⟩ := hR.reserve s key it info w hfind
    dsimp only
    split
    · exact hpush
    · exact hassign

theorem keeps_remove (key : String) : Keeps R (remove listener key) :=
  hR.changesFor.keeps_remove key

theorem keeps_makeSpace (requestSize : UInt64) : Keeps R (makeSpace listener requestSize) :=
  hR.changesFor.keeps_makeSpace requestSize

theorem keeps_add (hallowed : allowed key info) : Keeps R (add listener key info) :=
  hR.changesFor.keeps_add hallowed

theorem keeps_update (hallowed : allowed key info) : Keeps R (update listener key info) :=
  hR.changesFor.keeps_update hallowed

theorem keeps_get (key : String) : Keeps R (get listener key) := hR.changesFor.keeps_get key

theorem keeps_clear (mayDeleteIfBusy : Bool) : Keeps R (clear listener mayDeleteIfBusy) :=
  hR.changesFor.keeps_clear mayDeleteIfBusy

end

/-! ## Entries keep their readers -/

/-- The list stays consistent, and its entries are old ones or those of `extra`, as far as readers
can tell. -/
def Keep (extra : List HttpCacheInfo) (s s' : LruCacheByDataSizeStrategy HttpCacheInfo × ω) :
    Prop :=
  s.1.Wf → s'.1.Wf ∧ ∀ k info', s'.1.entry k = some info' →
    ∃ info, (s.1.entry k = some info ∨ info ∈ extra) ∧ SameReaders info info'

instance : Std.Refl (@Keep ω extra) :=
  ⟨fun _ h => ⟨h, fun _ info' hentry => ⟨info', .inl hentry, rfl, rfl⟩⟩⟩

instance : IsTrans _ (@Keep ω extra) := by
  constructor
  intro s s' s'' hs hs' hwf
  obtain ⟨hwf', hkept⟩ := hs hwf
  obtain ⟨hwf'', hkept'⟩ := hs' hwf'
  refine ⟨hwf'', fun k i'' hentry'' => ?_⟩
  obtain ⟨i', hi', hsame'⟩ := hkept' k i'' hentry''
  rcases hi' with hentry' | hextra
  · obtain ⟨i, hi, hsame⟩ := hkept k i' hentry'
    exact ⟨i, hi, hsame.1.trans hsame'.1, hsame.2.trans hsame'.2⟩
  · exact ⟨i', .inr hextra, hsame'⟩

/-- The same entries under the keys are enough. -/
theorem keep_of_entry_eq {s' : LruCacheByDataSizeStrategy HttpCacheInfo × ω}
    (hwf : s.1.Wf → s'.1.Wf) (hentry : s.1.Wf → s'.1.entry = s.1.entry) : Keep extra s s' := by
  intro h
  refine ⟨hwf h, fun k i' hi' => ⟨i', .inl ?_, rfl, rfl⟩⟩
  rwa [hentry h] at hi'

/-- A change of one key, to nothing or to what is the same entry. -/
theorem keep_of_update {s' : LruCacheByDataSizeStrategy HttpCacheInfo × ω}
    {new : Option HttpCacheInfo} (hwf : s.1.Wf → s'.1.Wf)
    (hentry : s.1.Wf → s'.1.entry = Function.update s.1.entry key new)
    (hnew : ∀ info ∈ new, ∃ old, (s.1.entry key = some old ∨ old ∈ extra) ∧
      SameReaders old info) : Keep extra s s' := by
  intro h
  refine ⟨hwf h, fun k i' hi' => ?_⟩
  rw [hentry h] at hi'
  by_cases hk : k = key
  · subst hk
    rw [Function.update_self] at hi'
    exact hnew i' hi'
  · rw [Function.update_of_ne hk] at hi'
    exact ⟨i', .inl hi', rfl, rfl⟩

/-- An entry may leave. -/
theorem keep_drop (s : LruCacheByDataSizeStrategy HttpCacheInfo × ω) :
    Keep extra s (s.1.drop key, s.2) :=
  keep_of_update (fun h => h.wf_drop) (fun h => h.entry_drop) fun _ h => by cases h

/-- It may be moved. -/
theorem keep_touch (hfind : s.1.find key = some (it, info)) :
    Keep extra s (s.1.touch key it info, s.2) :=
  keep_of_entry_eq (fun h => h.wf_touch hfind) fun h => h.entry_touch hfind

/-- It may be replaced by one with the same readers. -/
theorem keep_push (hkey : info.key = key)
    (hold : ∃ old, (s.1.entry key = some old ∨ old ∈ extra) ∧ SameReaders old info) :
    Keep extra s (s.1.push key info, s.2) := by
  refine keep_of_update (fun h => h.wf_push hkey) (fun h => h.entry_push hkey) fun i hi => ?_
  cases hi
  exact hold

/-- The object that `remove` reserves in place is still the same entry. -/
theorem keep_assign (hfind : s.1.find key = some (it, old)) (hkey : info.key = key)
    (hsame : SameReaders old info) : Keep extra s (s.1.assign it info, s.2) := by
  refine keep_of_update (fun h => h.wf_assign hfind hkey) (fun h => h.entry_assign hfind info) ?_
  intro i hi
  cases hi
  exact ⟨old, .inl (entry_of_find hfind), hsame⟩

/-- So each operation keeps it. -/
theorem changes_keep :
    Changes (fun key info => info.key = key ∧ info ∈ extra) (@Keep ω extra) where
  tell := fun _ _ => keep_of_entry_eq id fun _ => rfl
  drop := fun s _ => keep_drop s
  push := fun _ _ info h => keep_push h.1 ⟨info, .inr h.2, rfl, rfl⟩
  touch := fun _ _ _ _ hfind => keep_touch hfind
  reset := fun _ _ => ⟨wf_construct _, fun _ _ h => by cases h⟩
  reserve := by
    intro s key it info w hfind
    have hassigned := find_assign hfind { info with reservedRemove := true }
    have hassign : s.1.Wf → Keep extra s (s.1.assign it { info with reservedRemove := true }, w) :=
      fun hwf => keep_assign hfind (hwf.find_eq_some_iff.mp hfind).2 ⟨rfl, rfl⟩
    refine ⟨fun hwf => hassign hwf hwf, fun hwf => ?_⟩
    have hkey : info.key = key := (hwf.find_eq_some_iff.mp hfind).2
    have hpush : Keep extra (s.1.assign it { info with reservedRemove := true }, w)
        ((s.1.assign it { info with reservedRemove := true }).push key
          { info with reservedRemove := true }, w) :=
      keep_push hkey ⟨_, .inl (entry_of_find hassigned), rfl, rfl⟩
    exact trans_of _ (hassign hwf) hpush hwf

/-! ## With a listener that agrees -/

/-- `get` finds what is listed, and moves it to the latest position. -/
theorem exec_get (hget : ∀ key info, listener.onGet key info = pure true)
    (hfind : s.1.find key = some (it, info)) :
    exec (get listener key) s = (.ok (some info), (s.1.touch key it info, s.2)) := by
  unfold get LruCacheByDataSizeStrategy.get
  rw [exec_bind_ok (exec_getState s), hfind]
  show exec (tell (listener.onGet key info) >>= _) _ = _
  rw [hget]
  rfl

theorem exec_get_none (hfind : s.1.find key = none) :
    exec (get listener key) s = (.ok none, s) := by
  unfold get LruCacheByDataSizeStrategy.get
  rw [exec_bind_ok (exec_getState s), hfind]
  rfl

/-- An entry written over by one of its own size. -/
theorem exec_update_own (hupdate : ∀ key info, listener.onUpdate key info = pure true)
    (hfind : s.1.find key = some (it, old))
    (hsize : info.dataSize = old.dataSize) :
    exec (update listener key info) s =
      if info.dataRefCount = 0 ∧ info.reservedRemove then
        exec (LruCacheByDataSizeStrategy.remove listener key) (s.1.push key info, s.2)
      else (.ok true, (s.1.push key info, s.2)) := by
  have hbase : exec (LruCacheByDataSizeStrategy.update (virtuals listener) listener key info) s =
      (.ok true, (s.1.push key info, s.2)) := by
    unfold LruCacheByDataSizeStrategy.update
    rw [hupdate]
    show exec (addOrUpdate _ key info) s = _
    exact exec_addOrUpdate_own hfind hsize
  unfold update
  rw [exec_bind_ok hbase]
  by_cases hlast : info.dataRefCount = 0 ∧ info.reservedRemove
  · rw [if_pos hlast]
    simp only [if_true, if_pos hlast]
  · rw [if_neg hlast]
    simp only [if_true, if_neg hlast]
    rfl

end HttpLruCacheStrategy

end EasyHttp
