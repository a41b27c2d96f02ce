import EasyHttp.Cache.LruCacheByDataSizeStrategy
import EasyHttp.Library.ExecPost

/-!
# The list and the map of `LruCacheByDataSizeStrategy`

* `Wf`: each key leads to the element that holds it, and each element is reached so;
* `entry`: the object listed under a key, all that the rest of the program sees;
* `wf_push`, `wf_drop`, `wf_touch`, `wf_assign` and their `entry_…`: the changes of the list and
  the map keep `Wf`, and what is listed after them;
* `wp_remove`: what a removal does, by what the listener answers;
* `Changes`: a relation that holds over each of these changes holds over every operation
  (`keeps_remove`, `keeps_get`, `keeps_makeSpaceFor`, `keeps_add`, `keeps_update`, `keeps_clear`).
-/

namespace EasyHttp.LruCacheByDataSizeStrategy

open CacheInfo Exec

variable {ι : Type} [CacheInfo ι] {lru lru' : LruCacheByDataSizeStrategy ι} {key k : String}
  {it : ℕ} {info : ι}

/-- The map leads to the positions of the list, each node under its own key. -/
structure Wf (lru : LruCacheByDataSizeStrategy ι) : Prop where
  listed : ∀ k it, lru.lruListMap.find? k = some it →
    ∃ info, lru.lruList.deref it = some info ∧ getKey info = k
  mapped : ∀ it info, lru.lruList.deref it = some info →
    lru.lruListMap.find? (getKey info) = some it

omit [CacheInfo ι] in
/-- The object listed under a key. -/
def entry (lru : LruCacheByDataSizeStrategy ι) (key : String) : Option ι :=
  (lru.find key).map Prod.snd

/-- What is found is at its position, under its key. -/
theorem Wf.find_eq_some_iff (h : lru.Wf) :
    lru.find k = some (it, info) ↔ lru.lruList.deref it = some info ∧ getKey info = k := by
  unfold find
  rw [Option.bind_eq_some_iff]
  constructor
  · intro hfind
    obtain ⟨it', hmap, hderef⟩ := hfind
    obtain ⟨info', hinfo', heq⟩ := Option.map_eq_some_iff.mp hderef
    obtain ⟨rfl, rfl⟩ := Prod.mk.inj heq
    obtain ⟨info'', hinfo'', hkey⟩ := h.listed k it' hmap
    rw [hinfo'] at hinfo''
    cases hinfo''
    exact ⟨hinfo', hkey⟩
  · intro hinfo
    obtain ⟨hderef, hkey⟩ := hinfo
    refine ⟨it, hkey ▸ h.mapped it info hderef, ?_⟩
    rw [hderef]
    rfl

/-- The entries are the values of the list, each under its key. -/
theorem Wf.entry_eq_some_iff (h : lru.Wf) :
    lru.entry k = some info ↔ info ∈ lru.lruList.values ∧ getKey info = k := by
  unfold entry
  rw [Option.map_eq_some_iff, IterList.mem_values_iff]
  constructor
  · intro hentry
    obtain ⟨⟨it, info'⟩, hfind, heq⟩ := hentry
    cases heq
    obtain ⟨hderef, hkey⟩ := h.find_eq_some_iff.mp hfind
    exact ⟨⟨it, hderef⟩, hkey⟩
  · intro hinfo
    obtain ⟨⟨it, hderef⟩, hkey⟩ := hinfo
    exact ⟨(it, info), h.find_eq_some_iff.mpr ⟨hderef, hkey⟩, rfl⟩

omit [CacheInfo ι] in
/-- What is found is the entry. -/
theorem entry_of_find (h : lru.find k = some (it, info)) : lru.entry k = some info := by
  unfold entry
  rw [h]
  rfl

omit [CacheInfo ι] in
/-- An entry has a position. -/
theorem find_of_entry (h : lru.entry k = some info) : ∃ it, lru.find k = some (it, info) := by
  obtain ⟨⟨it, info'⟩, hfind, heq⟩ := Option.map_eq_some_iff.mp h
  cases heq
  exact ⟨it, hfind⟩

omit [CacheInfo ι] in
theorem entry_eq_none_iff : lru.entry k = none ↔ lru.find k = none := by
  unfold entry
  rw [Option.map_eq_none_iff]

/-! ## The changes of the list and the map -/

omit [CacheInfo ι] in
/-- The sizes play no part in what is listed. -/
theorem find_congr (hlist : lru'.lruList = lru.lruList) (hmap : lru'.lruListMap = lru.lruListMap)
    (k : String) : lru'.find k = lru.find k := by
  unfold find
  rw [hlist, hmap]

/-- Only the list and the map matter. -/
theorem Wf.congr (h : lru.Wf) (hlist : lru'.lruList = lru.lruList)
    (hmap : lru'.lruListMap = lru.lruListMap) : lru'.Wf := by
  constructor
  · rw [hlist, hmap]
    exact h.listed
  · rw [hlist, hmap]
    exact h.mapped

/-- An empty list is consistent. -/
theorem wf_construct (maxSize : UInt64) : (construct maxSize : LruCacheByDataSizeStrategy ι).Wf := by
  constructor
  · intro k it h
    cases h
  · intro it info h
    cases h

/-- Only the element of the key leaves the list. -/
theorem Wf.deref_unlist (h : lru.Wf) :
    (lru.unlist key).lruList.deref it = some info ↔
      lru.lruList.deref it = some info ∧ getKey info ≠ key := by
  unfold unlist
  split
  next it' info' hfind =>
    obtain ⟨hderef', hkey'⟩ := h.find_eq_some_iff.mp hfind
    show (lru.lruList.erase it').deref it = some info ↔ _
    rw [IterList.deref_erase]
    by_cases hit : it = it'
    · subst hit
      rw [if_pos rfl]
      constructor
      · intro hnone
        cases hnone
      · intro hinfo
        rw [hderef'] at hinfo
        cases hinfo.1
        exact absurd hkey' hinfo.2
    · rw [if_neg hit]
      refine ⟨fun hderef => ⟨hderef, fun hkey => hit ?_⟩, And.left⟩
      have hmap := h.mapped it info hderef
      rw [hkey, ← hkey', h.mapped it' info' hderef'] at hmap
      exact (Option.some.inj hmap).symm
  next hfind =>
    refine ⟨fun hderef => ⟨hderef, fun hkey => ?_⟩, And.left⟩
    rw [h.find_eq_some_iff.mpr ⟨hderef, hkey⟩] at hfind
    cases hfind

/-- It stays consistent when an entry is put in. -/
theorem Wf.wf_push (h : lru.Wf) (hkey : getKey info = key) : (lru.push key info).Wf := by
  constructor
  · intro k it hfind
    change (lru.lruListMap.set key (lru.unlist key).lruList.next).find? k = some it at hfind
    show ∃ i, ((lru.unlist key).lruList.pushFront info).deref it = some i ∧ getKey i = k
    rw [SortedMap.find?_set] at hfind
    by_cases hk : k = key
    · rw [if_pos hk] at hfind
      cases hfind
      exact ⟨info, by rw [IterList.deref_pushFront, if_pos rfl], hkey.trans hk.symm⟩
    · rw [if_neg hk] at hfind
      obtain ⟨i, hderef, hi⟩ := h.listed k it hfind
      have hunlist : (lru.unlist key).lruList.deref it = some i :=
        h.deref_unlist.mpr ⟨hderef, hi ▸ hk⟩
      refine ⟨i, ?_, hi⟩
      rw [IterList.deref_pushFront, if_neg (Nat.ne_of_lt (IterList.deref_lt_next hunlist)), hunlist]
  · intro it i hderef
    change ((lru.unlist key).lruList.pushFront info).deref it = some i at hderef
    show (lru.lruListMap.set key (lru.unlist key).lruList.next).find? (getKey i) = some it
    rw [SortedMap.find?_set]
    rw [IterList.deref_pushFront] at hderef
    by_cases hit : it = (lru.unlist key).lruList.next
    · rw [if_pos hit] at hderef
      cases hderef
      rw [if_pos hkey, hit]
    · rw [if_neg hit, h.deref_unlist] at hderef
      rw [if_neg hderef.2]
      exact h.mapped it i hderef.1

/-- What is put in is found under its key, and nothing else changes. -/
theorem Wf.entry_push (h : lru.Wf) (hkey : getKey info = key) :
    (lru.push key info).entry = Function.update lru.entry key (some info) := by
  funext k
  ext i
  have hpush := h.wf_push hkey
  rw [hpush.entry_eq_some_iff, IterList.mem_values_iff]
  show (∃ it, ((lru.unlist key).lruList.pushFront info).deref it = some i) ∧ _ ↔ _
  simp only [IterList.deref_pushFront]
  by_cases hk : k = key
  · subst hk
    rw [Function.update_self]
    constructor
    · intro hi
      obtain ⟨⟨it, hderef⟩, hikey⟩ := hi
      by_cases hit : it = (lru.unlist k).lruList.next
      · rwa [if_pos hit] at hderef
      · rw [if_neg hit, h.deref_unlist] at hderef
        exact absurd hikey hderef.2
    · intro hi
      cases hi
      exact ⟨⟨_, if_pos rfl⟩, hkey⟩
  · rw [Function.update_of_ne hk, h.entry_eq_some_iff, IterList.mem_values_iff]
    constructor
    · intro hi
      obtain ⟨⟨it, hderef⟩, hikey⟩ := hi
      by_cases hit : it = (lru.unlist key).lruList.next
      · rw [if_pos hit] at hderef
        cases hderef
        exact absurd (hikey.symm.trans hkey) hk
      · rw [if_neg hit, h.deref_unlist] at hderef
        exact ⟨⟨it, hderef.1⟩, hikey⟩
    · intro hi
      obtain ⟨⟨it, hderef⟩, hikey⟩ := hi
      have hunlist : (lru.unlist key).lruList.deref it = some i :=
        h.deref_unlist.mpr ⟨hderef, hikey ▸ hk⟩
      refine ⟨⟨it, ?_⟩, hikey⟩
      rw [if_neg (Nat.ne_of_lt (IterList.deref_lt_next hunlist)), hunlist]

/-- It stays consistent when an entry is taken out. -/
theorem Wf.wf_drop (h : lru.Wf) : (lru.drop key).Wf := by
  constructor
  · intro k it hfind
    change (lru.lruListMap.erase key).find? k = some it at hfind
    show ∃ i, (lru.unlist key).lruList.deref it = some i ∧ getKey i = k
    rw [SortedMap.find?_erase] at hfind
    by_cases hk : k = key
    · rw [if_pos hk] at hfind
      cases hfind
    · rw [if_neg hk] at hfind
      obtain ⟨i, hderef, hi⟩ := h.listed k it hfind
      exact ⟨i, h.deref_unlist.mpr ⟨hderef, hi ▸ hk⟩, hi⟩
  · intro it i hderef
    change (lru.unlist key).lruList.deref it = some i at hderef
    show (lru.lruListMap.erase key).find? (getKey i) = some it
    obtain ⟨hold, hne⟩ := h.deref_unlist.mp hderef
    rw [SortedMap.find?_erase, if_neg hne]
    exact h.mapped it i hold

/-- What is taken out is not found, and nothing else changes. -/
theorem Wf.entry_drop (h : lru.Wf) :
    (lru.drop key).entry = Function.update lru.entry key none := by
  funext k
  ext i
  rw [h.wf_drop.entry_eq_some_iff, IterList.mem_values_iff]
  show (∃ it, (lru.unlist key).lruList.deref it = some i) ∧ _ ↔ _
  simp only [h.deref_unlist]
  by_cases hk : k = key
  · subst hk
    rw [Function.update_self]
    constructor
    · intro hi
      obtain ⟨⟨it, hderef⟩, hikey⟩ := hi
      exact absurd hikey hderef.2
    · intro hi
      cases hi
  · rw [Function.update_of_ne hk, h.entry_eq_some_iff, IterList.mem_values_iff]
    constructor
    · intro hi
      obtain ⟨⟨it, hderef⟩, hikey⟩ := hi
      exact ⟨⟨it, hderef.1⟩, hikey⟩
    · intro hi
      obtain ⟨⟨it, hderef⟩, hikey⟩ := hi
      exact ⟨⟨it, hderef, hikey ▸ hk⟩, hikey⟩

/-- Moving an entry to the latest position is pushing it again, but for its size. -/
theorem touch_eq (h : lru.find key = some (it, info)) :
    (lru.touch key it info).lruList = (lru.push key info).lruList ∧
      (lru.touch key it info).lruListMap = (lru.push key info).lruListMap := by
  unfold touch push unlist
  rw [h]
  exact ⟨rfl, rfl⟩

/-- It stays consistent when an entry is moved. -/
theorem Wf.wf_touch (h : lru.Wf) (hfind : lru.find key = some (it, info)) :
    (lru.touch key it info).Wf :=
  (h.wf_push (h.find_eq_some_iff.mp hfind).2).congr (touch_eq hfind).1 (touch_eq hfind).2

/-- A move changes no entry. -/
theorem Wf.entry_touch (h : lru.Wf) (hfind : lru.find key = some (it, info)) :
    (lru.touch key it info).entry = lru.entry := by
  have hpush : (lru.touch key it info).entry = (lru.push key info).entry := by
    funext k
    unfold entry
    rw [find_congr (touch_eq hfind).1 (touch_eq hfind).2]
  rw [hpush, h.entry_push (h.find_eq_some_iff.mp hfind).2, ← entry_of_find hfind,
    Function.update_eq_self]

omit [CacheInfo ι] in
/-- What is found is in the map and in the list. -/
theorem find_eq_some (h : lru.find key = some (it, info)) :
    lru.lruListMap.find? key = some it ∧ lru.lruList.deref it = some info := by
  obtain ⟨it', hmap, hderef⟩ := Option.bind_eq_some_iff.mp h
  obtain ⟨info', hinfo', heq⟩ := Option.map_eq_some_iff.mp hderef
  cases heq
  exact ⟨hmap, hinfo'⟩

omit [CacheInfo ι] in
/-- The assigned object is found in place of the old one. -/
theorem find_assign (hfind : lru.find key = some (it, info)) (a : ι) :
    (lru.assign it a).find key = some (it, a) := by
  obtain ⟨hmap, hderef⟩ := find_eq_some hfind
  show (lru.lruListMap.find? key).bind _ = _
  rw [hmap]
  show ((lru.lruList.assign it a).deref it).map _ = _
  rw [IterList.deref_assign hderef, if_pos rfl]
  rfl

/-- An object in the list written over by one of the same key. -/
theorem Wf.wf_assign (h : lru.Wf) (hfind : lru.find key = some (it, info)) {a : ι}
    (ha : getKey a = key) : (lru.assign it a).Wf := by
  obtain ⟨hderef, hkey⟩ := h.find_eq_some_iff.mp hfind
  constructor
  · intro k it' hk
    show ∃ i, (lru.lruList.assign it a).deref it' = some i ∧ getKey i = k
    rw [IterList.deref_assign hderef]
    obtain ⟨i, hi, hik⟩ := h.listed k it' hk
    by_cases hit : it' = it
    · subst hit
      rw [hderef] at hi
      cases hi
      exact ⟨a, if_pos rfl, ha.trans (hkey.symm.trans hik)⟩
    · exact ⟨i, by rw [if_neg hit, hi], hik⟩
  · intro it' i hi
    change (lru.lruList.assign it a).deref it' = some i at hi
    show lru.lruListMap.find? (getKey i) = some it'
    rw [IterList.deref_assign hderef] at hi
    by_cases hit : it' = it
    · rw [if_pos hit] at hi
      cases hi
      rw [ha, ← hkey, hit]
      exact h.mapped it info hderef
    · rw [if_neg hit] at hi
      exact h.mapped it' i hi

/-- An assignment changes the entry of one key. -/
theorem Wf.entry_assign (h : lru.Wf) (hfind : lru.find key = some (it, info)) (a : ι) :
    (lru.assign it a).entry = Function.update lru.entry key (some a) := by
  obtain ⟨hderef, hkey⟩ := h.find_eq_some_iff.mp hfind
  funext k
  by_cases hk : k = key
  · subst hk
    rw [Function.update_self]
    exact entry_of_find (find_assign hfind a)
  · rw [Function.update_of_ne hk]
    unfold entry find
    show ((lru.lruListMap.find? k).bind _).map _ = _
    cases hmk : lru.lruListMap.find? k with
    | none => rfl
    | some it' =>
      have hit : it' ≠ it := by
        rintro rfl
        obtain ⟨i, hi, hik⟩ := h.listed k it' hmk
        rw [hderef] at hi
        cases hi
        exact hk (hik.symm.trans hkey)
      show (((lru.lruList.assign it a).deref it').map _).map _ = _
      rw [IterList.deref_assign hderef, if_neg hit]
      rfl

/-! ## The operations -/

section
variable {ε ω : Type} {listener : LruListener ε ω ι} {s : LruCacheByDataSizeStrategy ι × ω}

omit [CacheInfo ι] in
/-- A callback leaves the list alone. -/
theorem wp_tell {α : Type} {x : Exec ε ω α} {Q : α → LruCacheByDataSizeStrategy ι × ω → Prop}
    {E : ε → LruCacheByDataSizeStrategy ι × ω → Prop} :
    wp (tell x) Q E s ↔ wp x (fun a w => Q a (s.1, w)) (fun e w => E e (s.1, w)) s.2 := wp_zoom

/-- The listener has the last word on a removal. -/
theorem wp_remove (hfind : s.1.find key = some (it, info))
    {Q : Bool → LruCacheByDataSizeStrategy ι × ω → Prop}
    {E : ε → LruCacheByDataSizeStrategy ι × ω → Prop} :
    wp (remove listener key) Q E s ↔
      wp (listener.onRemove key)
        (fun ret w => if ret then Q true (s.1.drop key, w) else Q false (s.1, w))
        (fun e w => E e (s.1, w)) s.2 := by
  unfold remove
  rw [wp_bind, wp_getState, hfind]
  show wp (tell (listener.onRemove key) >>= _) Q E s ↔ _
  rw [wp_bind, wp_tell]
  unfold wp
  rcases exec (listener.onRemove key) s.2 with ⟨r, w⟩
  cases r with
  | error e => exact Iff.rfl
  | ok ret => cases ret <;> exact Iff.rfl

end

section
variable {ε ω : Type} {v : Virtuals ε ω ι} {s : LruCacheByDataSizeStrategy ι × ω}
  {requestSize : UInt64} {updatedKey : String}
  {Q : Bool → LruCacheByDataSizeStrategy ι × ω → Prop}
  {E : ε → LruCacheByDataSizeStrategy ι × ω → Prop}
omit [CacheInfo ι]

/-- Nothing is removed where there is space enough. -/
theorem wp_makeSpaceFor_space (hspace : s.1.totalSize + requestSize ≤ s.1.maxSize) :
    wp (makeSpaceFor v requestSize updatedKey) Q E s ↔ Q true s := by
  unfold makeSpaceFor
  rw [wp_bind, wp_getState]
  dsimp only
  rw [if_pos hspace, wp_pure]

theorem wp_makeSpaceFor_empty (hspace : ¬s.1.totalSize + requestSize ≤ s.1.maxSize)
    (hempty : s.1.lruList.values.isEmpty = true) :
    wp (makeSpaceFor v requestSize updatedKey) Q E s ↔ Q false s := by
  unfold makeSpaceFor
  rw [wp_bind, wp_getState]
  dsimp only
  rw [if_neg hspace, if_pos hempty, wp_pure]

/-- What is removed is what was chosen. -/
theorem wp_makeSpaceFor_some {keys : List String}
    (hspace : ¬s.1.totalSize + requestSize ≤ s.1.maxSize)
    (hempty : ¬s.1.lruList.values.isEmpty = true)
    (hkeys : v.createRemoveLruDataList s.1 (s.1.totalSize + requestSize - s.1.maxSize) =
      some keys) :
    wp (makeSpaceFor v requestSize updatedKey) Q E s ↔
      wp (forEach (removeKey v updatedKey) keys) (fun _ t => Q true t) E s := by
  unfold makeSpaceFor
  rw [wp_bind, wp_getState]
  dsimp only
  rw [if_neg hspace, if_neg hempty, hkeys]
  exact wp_bind

/-- Where the keys to remove are too few there is no space. -/
theorem wp_makeSpaceFor_none (hspace : ¬s.1.totalSize + requestSize ≤ s.1.maxSize)
    (hempty : ¬s.1.lruList.values.isEmpty = true)
    (hkeys : v.createRemoveLruDataList s.1 (s.1.totalSize + requestSize - s.1.maxSize) = none) :
    wp (makeSpaceFor v requestSize updatedKey) Q E s ↔ Q false s := by
  unfold makeSpaceFor
  rw [wp_bind, wp_getState]
  dsimp only
  rw [if_neg hspace, if_neg hempty, hkeys]
  exact Iff.rfl

end

/-- A relation that holds over each change an operation makes. `allowed` says which object may
be stored under which key. -/
structure Changes {ω : Type} (allowed : String → ι → Prop)
    (R : LruCacheByDataSizeStrategy ι × ω → LruCacheByDataSizeStrategy ι × ω → Prop) : Prop where
  tell : ∀ s w, R s (s.1, w)
  drop : ∀ s key, R s (s.1.drop key, s.2)
  push : ∀ s key info, allowed key info → R s (s.1.push key info, s.2)
  touch : ∀ s key it info, s.1.find key = some (it, info) → R s (s.1.touch key it info, s.2)
  reset : ∀ s, R s (construct s.1.maxSize, s.2)

/-- The same, where the callbacks are only those of one listener. -/
structure ChangesFor {ε ω : Type} (listener : LruListener ε ω ι) (allowed : String → ι → Prop)
    (R : LruCacheByDataSizeStrategy ι × ω → LruCacheByDataSizeStrategy ι × ω → Prop) : Prop where
  onAdd : ∀ key info, Keeps R (tell (listener.onAdd key info))
  onUpdate : ∀ key info, Keeps R (tell (listener.onUpdate key info))
  onRemove : ∀ key, Keeps R (tell (listener.onRemove key))
  onGet : ∀ key info, Keeps R (tell (listener.onGet key info))
  drop : ∀ s key, R s (s.1.drop key, s.2)
  push : ∀ s key info, allowed key info → R s (s.1.push key info, s.2)
  touch : ∀ s key it info, s.1.find key = some (it, info) → R s (s.1.touch key it info, s.2)
  reset : ∀ s, R s (construct s.1.maxSize, s.2)

section
variable {ε ω : Type} {allowed : String → ι → Prop}
  {R : LruCacheByDataSizeStrategy ι × ω → LruCacheByDataSizeStrategy ι × ω → Prop}
  [Std.Refl R] [IsTrans _ R] {listener : LruListener ε ω ι} {v : Virtuals ε ω ι}

omit [CacheInfo ι] in
theorem keeps_makeSpaceFor (hv : ∀ key, Keeps R (v.remove key)) (requestSize : UInt64)
    (updatedKey : String) : Keeps R (makeSpaceFor v requestSize updatedKey) := by
  unfold makeSpaceFor
  refine keeps_bind keeps_getState fun s => ?_
  dsimp only
  split
  · exact keeps_pure true
  split
  · exact keeps_pure false
  split
  · refine keeps_bind (keeps_forEach (fun key => ?_) _) fun _ => keeps_pure true
    unfold removeKey
    split
    · exact keeps_bind (hv key) fun _ => keeps_pure ()
    · exact keeps_pure ()
  · exact keeps_pure false

theorem keeps_spaceFor (hv : ∀ key, Keeps R (v.remove key)) (key : String) (info : ι) :
    Keeps R (spaceFor v key info) := by
  unfold spaceFor
  refine keeps_bind keeps_getState fun s => ?_
  split
  · split
    · exact keeps_makeSpaceFor hv _ _
    · exact keeps_pure true
  · exact keeps_makeSpaceFor hv _ _

namespace ChangesFor

variable (hR : ChangesFor listener allowed R)
include hR

theorem keeps_remove (key : String) : Keeps R (remove listener key) := by
  unfold remove
  refine keeps_bind keeps_getState fun s => ?_
  split
  · refine keeps_bind (hR.onRemove key) fun ret => ?_
    split
    · exact keeps_bind (keeps_modifyState fun s => hR.drop s key) fun _ => keeps_pure true
    · exact keeps_pure false
  · exact keeps_pure false

theorem keeps_get (key : String) : Keeps R (get listener key) := by
  unfold get
  refine keeps_getState_bind fun s => ?_
  cases hfind : s.1.find key with
  | none => exact keeps_pure none s
  | some found =>
    obtain ⟨it, info⟩ := found
    show R s (exec (modifyState _ >>= _) s).2
    rw [exec_bind_ok (exec_modifyState _ s)]
    refine trans_of R (hR.touch s key it info hfind)
      (keeps_bind (hR.onGet key info) (fun ret => ?_) _)
    split
    · exact keeps_pure _
    · exact keeps_pure _

theorem keeps_clear : Keeps R (clear listener) := by
  refine keeps_bind keeps_getState fun s => keeps_bind ?_ fun _ => keeps_pure true
  exact keeps_forEach (fun key => keeps_bind (hR.keeps_remove key) fun _ => keeps_pure ()) _

theorem keeps_addOrUpdate (hv : ∀ key, Keeps R (v.remove key)) (hallowed : allowed key info) :
    Keeps R (addOrUpdate v key info) := by
  unfold addOrUpdate
  refine keeps_bind (keeps_spaceFor hv key info) fun space => ?_
  split
  · exact keeps_bind (keeps_modifyState fun s => hR.push s key info hallowed)
      fun _ => keeps_pure true
  · exact keeps_pure false

theorem keeps_add (hv : ∀ key, Keeps R (v.remove key)) (hallowed : allowed key info) :
    Keeps R (add v listener key info) := by
  unfold add
  refine keeps_bind (hR.onAdd key info) fun ret => ?_
  split
  · exact hR.keeps_addOrUpdate hv hallowed
  · exact keeps_pure false

theorem keeps_update (hv : ∀ key, Keeps R (v.remove key)) (hallowed : allowed key info) :
    Keeps R (update v listener key info) := by
  unfold update
  refine keeps_bind (hR.onUpdate key info) fun ret => ?_
  split
  · exact hR.keeps_addOrUpdate hv hallowed
  · exact keeps_pure false

end ChangesFor

variable (hR : Changes allowed R)
include hR

omit [Std.Refl R] [IsTrans _ R] in
/-- What holds for all listeners holds for one. -/
theorem Changes.changesFor : ChangesFor listener allowed R where
  onAdd := fun _ _ s => hR.tell s _
  onUpdate := fun _ _ s => hR.tell s _
  onRemove := fun _ s => hR.tell s _
  onGet := fun _ _ s => hR.tell s _
  drop := hR.drop
  push := hR.push
  touch := hR.touch
  reset := hR.reset

theorem keeps_remove (key : String) : Keeps R (remove listener key) :=
  hR.changesFor.keeps_remove key

theorem keeps_get (key : String) : Keeps R (get listener key) := hR.changesFor.keeps_get key

omit [Std.Refl R] [IsTrans _ R] in
theorem keeps_reset : Keeps R (reset : LruExec ε ω ι Unit) := keeps_modifyState hR.reset

theorem keeps_clear : Keeps R (clear listener) := hR.changesFor.keeps_clear

theorem keeps_add (hv : ∀ key, Keeps R (v.remove key)) (hallowed : allowed key info) :
    Keeps R (add v listener key info) := hR.changesFor.keeps_add hv hallowed

theorem keeps_update (hv : ∀ key, Keeps R (v.remove key)) (hallowed : allowed key info) :
    Keeps R (update v listener key info) := hR.changesFor.keeps_update hv hallowed

end

end EasyHttp.LruCacheByDataSizeStrategy
