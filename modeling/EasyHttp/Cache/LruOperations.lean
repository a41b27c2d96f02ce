import EasyHttp.Cache.HttpLruCacheStrategyTheorems
import EasyHttp.Library.Runs
import Mathlib.Algebra.BigOperators.Group.List.Basic
import Mathlib.Algebra.Ring.Nat

/-!
# Runs of the operations of an LRU strategy

The operations of `LruCacheByDataSizeStrategy` and of `HttpLruCacheStrategy` in any order, with
a listener that answers as it likes, or throws.

* `Represents`: the map and the list belong together, and the total is that of the list;
* `keeps_perform`: a relation over each change of the list holds over every operation;
* `represents_run`: every run from a new strategy of either class in which objects are stored
  under their own keys ends in a state that `Represents` holds of.
-/

namespace EasyHttp

open Exec CacheInfo

/-- What is done to a list from outside. -/
inductive LruOperation (ι : Type) where
  | add (key : String) (info : ι)
  | update (key : String) (info : ι)
  | remove (key : String)
  | get (key : String)
  | clear (mayDeleteIfBusy : Bool)
  | reset
  | makeSpace (requestSize : UInt64)

/-- An object is stored under its own key. -/
def LruOperation.OwnKey {ι : Type} [CacheInfo ι] : LruOperation ι → Prop
  | .add key info | .update key info => getKey info = key
  | _ => True

instance {ι : Type} [CacheInfo ι] : (op : LruOperation ι) → Decidable op.OwnKey
  | .add key info | .update key info => inferInstanceAs (Decidable (getKey info = key))
  | .remove _ | .get _ | .clear _ | .reset | .makeSpace _ => isTrue trivial

/-- The operation answers true; for `get`, it answers with an object. -/
def LruCacheByDataSizeStrategy.perform {ε ω ι : Type} [CacheInfo ι] (listener : LruListener ε ω ι) :
    LruOperation ι → LruExec ε ω ι Bool
  | .add key info => add (virtuals listener) listener key info
  | .update key info => update (virtuals listener) listener key info
  | .remove key => remove listener key
  | .get key => do return (← get listener key).isSome
  | .clear _ => clear listener
  | .reset => do
    reset
    return true
  | .makeSpace requestSize => makeSpace (virtuals listener) requestSize

/-- An operation of the derived class. -/
def HttpLruCacheStrategy.perform {ε ω : Type} (listener : LruListener ε ω HttpCacheInfo) :
    LruOperation HttpCacheInfo → LruExec ε ω HttpCacheInfo Bool
  | .add key info => add listener key info
  | .update key info => update listener key info
  | .remove key => remove listener key
  | .get key => do return (← get listener key).isSome
  | .clear mayDeleteIfBusy => clear listener mayDeleteIfBusy
  | .reset => do
    LruCacheByDataSizeStrategy.reset
    return true
  | .makeSpace requestSize => makeSpace listener requestSize

namespace LruOperations

open LruCacheByDataSizeStrategy

/-- One operation; what it has done stays when it throws. -/
def step {ε ω ι : Type} (perform : LruOperation ι → LruExec ε ω ι Bool)
    (s : LruCacheByDataSizeStrategy ι × ω) (op : LruOperation ι) :
    Option (LruCacheByDataSizeStrategy ι × ω) := some (exec (perform op) s).2

section
variable {ε ω ι : Type} [CacheInfo ι]
  {R : LruCacheByDataSizeStrategy ι × ω → LruCacheByDataSizeStrategy ι × ω → Prop}
  [Std.Refl R] [IsTrans _ R]

theorem keeps_perform (listener : LruListener ε ω ι)
    (hR : LruCacheByDataSizeStrategy.Changes (fun key info => getKey info = key) R)
    {op : LruOperation ι} (hown : op.OwnKey) :
    Keeps R (LruCacheByDataSizeStrategy.perform listener op) := by
  have hremove : ∀ key, Keeps R (LruCacheByDataSizeStrategy.remove listener key) :=
    LruCacheByDataSizeStrategy.keeps_remove hR
  unfold LruCacheByDataSizeStrategy.perform
  split
  · exact LruCacheByDataSizeStrategy.keeps_add hR hremove hown
  · exact LruCacheByDataSizeStrategy.keeps_update hR hremove hown
  · exact hremove _
  · exact keeps_bind (LruCacheByDataSizeStrategy.keeps_get hR _) fun _ => keeps_pure _
  · exact LruCacheByDataSizeStrategy.keeps_clear hR
  · exact keeps_bind (LruCacheByDataSizeStrategy.keeps_reset hR) fun _ => keeps_pure _
  · exact LruCacheByDataSizeStrategy.keeps_makeSpaceFor hremove _ _

end

theorem keeps_performHttp {ε ω : Type}
    {R : LruCacheByDataSizeStrategy HttpCacheInfo × ω →
      LruCacheByDataSizeStrategy HttpCacheInfo × ω → Prop} [Std.Refl R] [IsTrans _ R]
    (listener : LruListener ε ω HttpCacheInfo)
    (hR : HttpLruCacheStrategy.Changes (fun key info => info.key = key) R)
    {op : LruOperation HttpCacheInfo} (hown : op.OwnKey) :
    Keeps R (HttpLruCacheStrategy.perform listener op) := by
  unfold HttpLruCacheStrategy.perform
  split
  · exact HttpLruCacheStrategy.keeps_add hR hown
  · exact HttpLruCacheStrategy.keeps_update hR hown
  · exact HttpLruCacheStrategy.keeps_remove hR _
  · exact keeps_bind (HttpLruCacheStrategy.keeps_get hR _) fun _ => keeps_pure _
  · exact HttpLruCacheStrategy.keeps_clear hR _
  · exact keeps_bind (LruCacheByDataSizeStrategy.keeps_reset hR.toChanges) fun _ => keeps_pure _
  · exact HttpLruCacheStrategy.keeps_makeSpace hR _

/-! ## The total -/

/-- The data sizes of a list of objects, added up. -/
def sizes {ι : Type} [CacheInfo ι] (infos : List ι) : ℕ :=
  (infos.map fun info => (getDataSize info).toNat).sum

section
variable {ι : Type} [CacheInfo ι] {lru lru' : LruCacheByDataSizeStrategy ι} {key : String}
  {it : ℕ} {info old : ι} {infos infos' : List ι}

theorem sizes_cons (info : ι) (infos : List ι) :
    sizes (info :: infos) = (getDataSize info).toNat + sizes infos := by
  unfold sizes
  rw [List.map_cons, List.sum_cons]

/-- The order does not matter. -/
theorem sizes_perm (h : infos.Perm infos') : sizes infos = sizes infos' := (h.map _).sum_eq

/-- The total size is that of the elements, as far as 64 bits hold it. -/
def Totals (lru : LruCacheByDataSizeStrategy ι) : Prop :=
  lru.totalSize.toNat = sizes lru.lruList.values % 2 ^ 64

/-- A size taken off. -/
theorem toNat_sub_total {total size : UInt64} {n : ℕ} (h : total.toNat = (size.toNat + n) % 2 ^ 64) :
    (total - size).toNat = n % 2 ^ 64 := by
  have hsize := size.toNat_lt
  rw [UInt64.toNat_sub]
  omega

/-- A size put on top. -/
theorem toNat_add_total {total size : UInt64} {n : ℕ} (h : total.toNat = n % 2 ^ 64) :
    (total + size).toNat = (size.toNat + n) % 2 ^ 64 := by
  rw [UInt64.toNat_add, h]
  omega

/-- The total is right after an entry was taken out. -/
theorem totals_unlist (h : Totals lru) : Totals (lru.unlist key) := by
  unfold unlist
  split
  next it info hfind =>
    have hperm := IterList.values_perm_erase (find_eq_some hfind).2
    unfold Totals at h
    rw [sizes_perm hperm, sizes_cons] at h
    exact toNat_sub_total h
  next => exact h

/-- It is after one was put in. -/
theorem totals_push (h : Totals lru) : Totals (lru.push key info) := by
  show _ = sizes ((lru.unlist key).lruList.pushFront info).values % 2 ^ 64
  rw [IterList.values_pushFront, sizes_cons]
  exact toNat_add_total (totals_unlist h)

/-- Two lists of the same elements. -/
theorem Totals.congr (h : Totals lru) (htotal : lru'.totalSize = lru.totalSize)
    (hsizes : sizes lru'.lruList.values = sizes lru.lruList.values) : Totals lru' := by
  unfold Totals
  rw [htotal, hsizes]
  exact h

/-- An entry that is moved keeps its size. -/
theorem sizes_touch (hfind : lru.find key = some (it, info)) :
    sizes (lru.touch key it info).lruList.values = sizes lru.lruList.values :=
  (sizes_perm (IterList.values_perm_erase (find_eq_some hfind).2)).symm

/-- So does one that is replaced by an entry of the same size. -/
theorem sizes_assign (hfind : lru.find key = some (it, old))
    (hsize : getDataSize info = getDataSize old) :
    sizes (lru.assign it info).lruList.values = sizes lru.lruList.values := by
  have hderef := (find_eq_some hfind).2
  have hassign := sizes_perm (IterList.values_perm_assign hderef info)
  have herase := sizes_perm (IterList.values_perm_erase hderef)
  rw [sizes_cons] at hassign herase
  show sizes (lru.lruList.assign it info).values = _
  rw [hassign, herase, hsize]

end

/-! ## The representation -/

section
variable {ι : Type} [CacheInfo ι] {lru : LruCacheByDataSizeStrategy ι}

/-- The map and the list are in bijection, and the total size is that of the list. -/
structure Represents (lru : LruCacheByDataSizeStrategy ι) : Prop where
  /-- the iterator of a key points to the element holding it -/
  listed : ∀ key it, lru.lruListMap.find? key = some it →
    ∃ info, lru.lruList.deref it = some info ∧ getKey info = key
  /-- every element is reached from exactly one key -/
  reached : ∀ it info, lru.lruList.deref it = some info →
    ∃! key, lru.lruListMap.find? key = some it
  unique : (lru.lruList.values.map getKey).Nodup
  total : lru.totalSize.toNat =
    (lru.lruList.values.map fun info => (getDataSize info).toNat).sum % 2 ^ 64

/-- One key stands in the list once, for its iterator is one. -/
theorem nodup_keys (h : lru.Wf) : (lru.lruList.values.map getKey).Nodup := by
  have hkeys : lru.lruList.values.map getKey =
      lru.lruList.nodes.map fun node => getKey node.2 := List.map_map
  rw [hkeys]
  refine (List.Nodup.of_map Prod.fst lru.lruList.nodup).map_on fun n hn m hm hkey => ?_
  have hnmap := h.mapped n.1 n.2 (IterList.deref_eq_some_iff.mpr hn)
  have hmmap := h.mapped m.1 m.2 (IterList.deref_eq_some_iff.mpr hm)
  rw [hkey, hmmap] at hnmap
  exact List.inj_on_of_nodup_map lru.lruList.nodup hn hm (Option.some.inj hnmap).symm

/-- A consistent list with the right total represents a map with its size. -/
theorem represents (h : lru.Wf) (htotals : Totals lru) : Represents lru where
  listed := h.listed
  reached := by
    intro it info hderef
    refine ⟨getKey info, h.mapped it info hderef, fun key hkey => ?_⟩
    obtain ⟨info', hderef', hkey'⟩ := h.listed key it hkey
    rw [hderef] at hderef'
    cases hderef'
    exact hkey'.symm
  unique := nodup_keys h
  total := htotals

/-- An operation leaves the strategy in order. -/
def Ordered {ω : Type} (s s' : LruCacheByDataSizeStrategy ι × ω) : Prop :=
  s.1.Wf ∧ Totals s.1 → s'.1.Wf ∧ Totals s'.1

instance {ω : Type} : Std.Refl (@Ordered ι _ ω) := ⟨fun _ h => h⟩

instance {ω : Type} : IsTrans _ (@Ordered ι _ ω) := ⟨fun _ _ _ hst htu h => htu (hst h)⟩

theorem totals_construct (maxSize : UInt64) :
    Totals (construct maxSize : LruCacheByDataSizeStrategy ι) := rfl

/-- Each change of the list keeps this. -/
theorem changes_ordered {ω : Type} :
    LruCacheByDataSizeStrategy.Changes (fun key info => getKey info = key) (@Ordered ι _ ω) where
  tell := fun _ _ h => h
  drop := fun _ _ h => ⟨h.1.wf_drop, totals_unlist h.2⟩
  push := fun _ _ _ hkey h => ⟨h.1.wf_push hkey, totals_push h.2⟩
  touch := fun _ _ _ _ hfind h => ⟨h.1.wf_touch hfind, h.2.congr rfl (sizes_touch hfind)⟩
  reset := fun _ _ => ⟨wf_construct _, totals_construct _⟩

end

/-- So does each change of the derived class. -/
theorem changes_ordered_http {ω : Type} :
    HttpLruCacheStrategy.Changes (fun key info => info.key = key) (@Ordered HttpCacheInfo _ ω) where
  toChanges := changes_ordered
  reserve := by
    intro s key it info w hfind
    have hassign : s.1.Wf ∧ Totals s.1 →
        (s.1.assign it { info with reservedRemove := true }).Wf ∧
          Totals (s.1.assign it { info with reservedRemove := true }) := by
      intro h
      exact ⟨h.1.wf_assign hfind (h.1.find_eq_some_iff.mp hfind).2,
        h.2.congr rfl (sizes_assign hfind rfl)⟩
    refine ⟨hassign, fun h => ?_⟩
    have hkey : info.key = key := (h.1.find_eq_some_iff.mp hfind).2
    exact ⟨(hassign h).1.wf_push hkey, totals_push (hassign h).2⟩

/-- What every operation keeps in order stays so along every run. -/
theorem represents_of_keeps {ε ω ι : Type} [CacheInfo ι]
    {perform : LruOperation ι → LruExec ε ω ι Bool}
    (hkeeps : ∀ op : LruOperation ι, op.OwnKey → Keeps Ordered (perform op))
    (maxSize : UInt64) (w : ω) {ops : List (LruOperation ι)} (hown : ∀ op ∈ ops, op.OwnKey) :
    ∃ s, Runs.run (step perform) (construct maxSize, w) ops = some s ∧ Represents s.1 := by
  have hpres : ∀ s op s', (s.1.Wf ∧ Totals s.1) → op.OwnKey → step perform s op = some s' →
      s'.1.Wf ∧ Totals s'.1 := by
    intro s op s' h hop hstep
    cases hstep
    exact hkeeps op hop s h
  obtain ⟨s, hrun⟩ : ∃ s, Runs.run (step perform) (construct maxSize, w) ops = some s :=
    Runs.exists_run (fun _ _ => ⟨_, rfl⟩) _ ops
  have hinv : (construct maxSize : LruCacheByDataSizeStrategy ι).Wf ∧
      Totals (construct maxSize : LruCacheByDataSizeStrategy ι) :=
    ⟨wf_construct maxSize, totals_construct maxSize⟩
  have hordered : s.1.Wf ∧ Totals s.1 :=
    Runs.run_invariant hpres hinv hrun (Runs.everyStep_of_forall hown _)
  exact ⟨s, hrun, represents hordered.1 hordered.2⟩

/-- Every run of the operations of either class, whatever the listener does. -/
theorem represents_run {ε ω : Type} (maxSize : UInt64) (w : ω) :
    (∀ (ι : Type) [CacheInfo ι] (listener : LruListener ε ω ι) (ops : List (LruOperation ι)),
      (∀ op ∈ ops, op.OwnKey) →
      ∃ s, Runs.run (step (LruCacheByDataSizeStrategy.perform listener)) (construct maxSize, w)
        ops = some s ∧ Represents s.1) ∧
    ∀ (listener : LruListener ε ω HttpCacheInfo) (ops : List (LruOperation HttpCacheInfo)),
      (∀ op ∈ ops, op.OwnKey) →
      ∃ s, Runs.run (step (HttpLruCacheStrategy.perform listener)) (construct maxSize, w)
        ops = some s ∧ Represents s.1 := by
  constructor
  · intro ι _ listener ops hown
    exact represents_of_keeps (fun _ => keeps_perform listener changes_ordered) maxSize w hown
  · intro listener ops hown
    exact represents_of_keeps (fun _ => keeps_performHttp listener changes_ordered_http) maxSize w
      hown

/-- A listener that gives one answer after another, and agrees when there is none left. -/
def answering {ι : Type} : LruListener Empty (List Bool) ι :=
  let answer : Exec Empty (List Bool) Bool := do
    let answers ← getState
    modifyState List.tail
    return answers.headD true
  ⟨fun _ _ => answer, fun _ _ => answer, fun _ => answer, fun _ _ => answer⟩

/-- An entry that is read is to be removed, and is released; another is to be replaced, whose
eviction the listener refuses. -/
def refusedRun : List (LruOperation HttpCacheInfo) :=
  [.add "a" ⟨"a", 4, false, 1, 0⟩, .add "b" ⟨"b", 5, false, 0, 1⟩, .remove "a",
    .update "b" ⟨"b", 7, false, 0, 2⟩, .update "a" ⟨"a", 4, true, 0, 0⟩, .makeSpace 9]

theorem represents_refusedRun : ∃ s, Runs.run (step (HttpLruCacheStrategy.perform answering))
    (construct 10, [true, true, true, true, true, false, false]) refusedRun = some s ∧
      Represents s.1 :=
  (represents_run 10 _).2 answering refusedRun (by decide)

end LruOperations

end EasyHttp
