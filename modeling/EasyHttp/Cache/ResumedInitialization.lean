import EasyHttp.Cache.Orphans

/-!
# An initialization after one that failed

Rows that were handed over before the failure are handed over once more, and there must be room
for each of them beside its own entry.

* `wp_initializeCache_again`: with the room nothing is lost;
* `wp_initializeCache_stuck`: without it the row and the body of an entry are deleted;
* `sameContent_iff`: so the second initialization ends like one that never failed exactly if there
  is the room.
-/

namespace EasyHttp.HttpFileCache

open Exec LruCacheByDataSizeStrategy LruOperations LruCapacity SizedQueue

/-- The same entries in the same order, the same rows and the same files. -/
structure SameContent (s t : HttpFileCache) : Prop where
  queue_eq : queueOf s.lruCacheStrategy = queueOf t.lruCacheStrategy
  totalSize_eq : s.lruCacheStrategy.totalSize = t.lruCacheStrategy.totalSize
  rows_eq : s.disk.rows = t.disk.rows
  files_eq : s.disk.files = t.disk.files

variable {disk d : Disk} {cacheRootDir key k : String} {maxSize size : UInt64}
  {q b : List (String × ℕ)} {params done rest kept later : List (String × UInt64)}
  {p : String × UInt64} {s t u v : HttpFileCache} {n : ℕ}

/-- Two caches with the same queue over the same rows. -/
theorem Opening.sameContent (hs : Opening disk cacheRootDir maxSize q [] s)
    (ht : Opening disk cacheRootDir maxSize q [] t) : SameContent s t := by
  refine ⟨hs.queue_eq.trans ht.queue_eq.symm, ?_, SortedMap.ext_find? fun k => ?_,
    SortedMap.ext_find? fun path => ?_⟩
  · have hsizes : s.lruCacheStrategy.totalSize.toNat = t.lruCacheStrategy.totalSize.toNat := by
      rw [hs.exact_total.total, ht.exact_total.total, ← size_queueOf, ← size_queueOf, hs.queue_eq,
        ht.queue_eq]
    exact UInt64.toNat_inj.mp hsizes
  · show s.disk.row k = t.disk.row k
    by_cases hk : Stays disk maxSize q [] k
    · rw [hs.row_stays k hk, ht.row_stays k hk]
    · rw [hs.row_goes k hk, ht.row_goes k hk]
  · show s.disk.file path = t.disk.file path
    by_cases hpath : ∃ k, (disk.row k).isSome ∧ ¬Stays disk maxSize q [] k ∧
      path = makeCachedFilename cacheRootDir k
    · obtain ⟨k, hrow, hk, rfl⟩ := hpath
      rw [hs.file_goes k hrow hk, ht.file_goes k hrow hk]
    · have hother : ∀ k, (disk.row k).isSome → ¬Stays disk maxSize q [] k →
        path ≠ makeCachedFilename cacheRootDir k := fun k hrow hk heq => hpath ⟨k, hrow, hk, heq⟩
      rw [hs.file_stays path hother, ht.file_stays path hother]

/-! ## The rows that are handed over again -/

/-- Of the rows that were handed over, those that are still there. -/
def keptOf (maxSize : UInt64) (q : List (String × ℕ)) (done : List (String × UInt64)) :
    List (String × UInt64) :=
  done.filter fun p => p.1 ∈ SizedQueue.keys q ∨ maxSize < p.2

/-- The rows left after a failed loading, as items. -/
theorem itemsOf_keptOf : itemsOf (keptOf maxSize q done) =
    (itemsOf done).filter fun r => r.1 ∈ SizedQueue.keys q ∨ maxSize.toNat < r.2 := by
  unfold itemsOf keptOf
  rw [List.filter_map]
  rfl

/-- The query of the second initialization. -/
theorem Opening.rowsInOrder_eq (h : Opening disk cacheRootDir maxSize q rest s)
    (hsplit : rowsInOrder disk.rows = done ++ rest) :
    rowsInOrder s.disk.rows = keptOf maxSize q done ++ rest := by
  classical
  have hfind : ∀ k, s.disk.rows.find? k =
      if decide (Stays disk maxSize q rest k) then disk.rows.find? k else none := by
    intro k
    -- a row stays with its access time, or it has gone
    by_cases hk : Stays disk maxSize q rest k
    · rw [if_pos (decide_eq_true hk)]
      exact h.row_stays k hk
    · rw [if_neg (by simpa using hk)]
      exact h.row_goes k hk
  have hnodup := nodup_rowsInOrder disk.rows
  rw [hsplit, List.map_append] at hnodup
  rw [filter_rowsInOrder hfind, hsplit, List.filter_append]
  congr 1
  -- of the rows that are done those stay that are queued or too large
  · refine List.filter_congr fun p hp => ?_
    have hrow : ∃ row, disk.row p.1 = some row ∧ row.responseBodySize = p.2 := by
      refine mem_rowsInOrder.mp ?_
      rw [hsplit]
      exact List.mem_append_left _ hp
    obtain ⟨row, hrow, hsize⟩ := hrow
    -- what is done does not come again
    have hcome : p.1 ∉ rest.map Prod.fst := fun hin =>
      (List.nodup_append.mp hnodup).2.2 p.1 (List.mem_map_of_mem hp) p.1 hin rfl
    have hiff : Stays disk maxSize q rest p.1 ↔ p.1 ∈ SizedQueue.keys q ∨ maxSize < p.2 := by
      unfold Stays
      rw [hrow, ← hsize]
      constructor
      · rintro (hq | hin | ⟨row', hrow', hlarge⟩)
        · exact .inl hq
        · exact absurd hin hcome
        · cases hrow'
          exact .inr hlarge
      · rintro (hq | hlarge)
        · exact .inl hq
        · exact .inr (.inr ⟨row, rfl, hlarge⟩)
    exact decide_eq_decide.mpr hiff
  · rw [List.filter_eq_self]
    intro p hp
    exact decide_eq_true (.inr (.inl (List.mem_map_of_mem hp)))

/-- The rows are to be handed over to the cache that the first initialization left. -/
theorem Opening.again (h : Opening disk cacheRootDir maxSize q rest s)
    (hsplit : rowsInOrder disk.rows = done ++ rest) (hfiles : d.files = s.disk.files)
    (hrows : d.rows = s.disk.rows) :
    Opening disk cacheRootDir maxSize q (keptOf maxSize q done ++ rest)
      { s with disk := d } := by
  have hrow : d.row = s.disk.row := congrArg SortedMap.find? hrows
  have hfile : d.file = s.disk.file := congrArg SortedMap.find? hfiles
  -- the rows of the second attempt are rows of the first
  have hmem : ∀ p ∈ keptOf maxSize q done ++ rest, p ∈ rowsInOrder disk.rows := by
    intro p hp
    rw [hsplit]
    rcases List.mem_append.mp hp with hkept | hrest
    · exact List.mem_append_left _ (List.mem_of_mem_filter hkept)
    · exact List.mem_append_right _ hrest
  have hstays : ∀ k, Stays disk maxSize q (keptOf maxSize q done ++ rest) k ↔
      Stays disk maxSize q rest k := by
    intro k
    unfold Stays
    rw [List.map_append, List.mem_append]
    constructor
    -- a row that was kept is queued or too large
    · rintro (hq | (hkept | hrest) | hlarge)
      · exact .inl hq
      · obtain ⟨p, hp, rfl⟩ := List.mem_map.mp hkept
        obtain ⟨row, hrow, hsize⟩ := mem_rowsInOrder.mp (hmem p (List.mem_append_left _ hp))
        have hwhy : p.1 ∈ SizedQueue.keys q ∨ maxSize < p.2 := by
          simpa using (List.mem_filter.mp hp).2
        rcases hwhy with hq | hlarge
        · exact .inl hq
        · exact .inr (.inr ⟨row, hrow, by rw [hsize]; exact hlarge⟩)
      · exact .inr (.inl hrest)
      · exact .inr (.inr hlarge)
    · rintro (hq | hrest | hlarge)
      · exact .inl hq
      · exact .inr (.inl (.inr hrest))
      · exact .inr (.inr hlarge)
  exact ⟨h.exact_total, h.idle, h.queue_eq, h.maxSize_eq, h.cacheRootDir_eq,
    fun k hk => (congrFun hrow k).trans (h.row_stays k ((hstays k).mp hk)),
    fun k hk => (congrFun hrow k).trans (h.row_goes k fun hold => hk ((hstays k).mpr hold)),
    fun k hsome hk => (congrFun hfile _).trans
      (h.file_goes k hsome fun hold => hk ((hstays k).mpr hold)),
    fun path hpath => (congrFun hfile path).trans
      (h.file_stays path fun k hsome hk => hpath k hsome fun hold => hk ((hstays k).mp hold)),
    h.queued, fun p hp => mem_rowsInOrder.mp (hmem p hp)⟩

/-! ## With room for all of them -/

/-- While the rows of the oldest items come again in their order nothing leaves. -/
theorem admissibleAll_rotate {a : List (String × ℕ)} (hq : q = b ++ a)
    (hb : (itemsOf params).filter (fun r => r.2 ≤ maxSize.toNat) = b)
    (hnodup : (SizedQueue.keys q).Nodup)
    (hfits : ∀ p ∈ params, SizedQueue.size q + p.2.toNat < 2 ^ 64)
    (hroom : ∀ r ∈ b, SizedQueue.size q + r.2 ≤ maxSize.toNat) :
    AdmissibleAll maxSize q params later := by
  intro done p rest hsplit
  subst hsplit
  have hitems : itemsOf (done ++ p :: rest) =
      itemsOf done ++ (p.1, p.2.toNat) :: itemsOf rest := by
    unfold itemsOf
    rw [List.map_append, List.map_cons]
  rw [hitems, List.filter_append] at hb
  subst hb hq
  rw [List.append_assoc] at hnodup hroom hfits ⊢
  have hfirst : ∀ r ∈ (itemsOf done).filter (fun r => r.2 ≤ maxSize.toNat), _ := fun r hr =>
    hroom r (List.mem_append_left _ hr)
  rw [foldl_enqueue_rotate rfl hnodup hfirst]
  unfold Admissible
  rw [size_perm List.perm_append_comm]
  refine ⟨hfits p (List.mem_append_right _ List.mem_cons_self), ?_⟩
  by_cases hlarge : maxSize < p.2
  · exact .inl hlarge
  · rw [UInt64.lt_iff_toNat_lt] at hlarge
    refine .inr (.inr (hroom (p.1, p.2.toNat) (List.mem_append_right _ ?_)))
    exact List.mem_filter.mpr ⟨List.mem_cons_self, decide_eq_true (by dsimp only; omega)⟩

/-- Each key is there once. -/
theorem nodup_keys_itemsOf (hnodup : (params.map Prod.fst).Nodup) :
    (SizedQueue.keys (itemsOf params)).Nodup := by
  unfold SizedQueue.keys itemsOf
  rw [List.map_map]
  exact hnodup

/-- The sizes of a queue and of one of its rows add up without an overflow. -/
theorem size_foldl_add_lt (hfits : SizedQueue.size (itemsOf (done ++ rest)) < 2 ^ 63)
    (hp : p ∈ done) : SizedQueue.size
      ((itemsOf done).foldl (enqueue maxSize.toNat) []) + p.2.toNat < 2 ^ 64 := by
  have hsub := foldl_enqueue_sublist maxSize.toNat [] (itemsOf done)
  rw [List.nil_append] at hsub
  have hle := size_sublist hsub
  have hmem : p.2.toNat ≤ SizedQueue.size (itemsOf done) :=
    le_size_of_mem (List.mem_map_of_mem (f := fun p => (p.1, p.2.toNat)) hp)
  have hsplit : SizedQueue.size (itemsOf (done ++ rest)) =
      SizedQueue.size (itemsOf done) + SizedQueue.size (itemsOf rest) := by
    unfold itemsOf
    rw [List.map_append, size_append]
  omega

/-- The rows that are left can be loaded again. -/
theorem admissibleAll_again (hq : (itemsOf done).foldl (enqueue maxSize.toNat) [] = q)
    (hnodup : ((done ++ rest).map Prod.fst).Nodup)
    (hfits : SizedQueue.size (itemsOf (done ++ rest)) < 2 ^ 63)
    (hroom : ∀ r ∈ q, SizedQueue.size q + r.2 ≤ maxSize.toNat) :
    AdmissibleAll maxSize q (keptOf maxSize q done ++ rest) [] ∧
      (itemsOf (keptOf maxSize q done)).foldl (enqueue maxSize.toNat) q = q := by
  -- what is queued is a part of what is done
  have hsub : q.Sublist (itemsOf done) := by
    have h := foldl_enqueue_sublist maxSize.toNat [] (itemsOf done)
    rwa [hq, List.nil_append] at h
  have hkeys : (SizedQueue.keys (itemsOf done)).Nodup := by
    rw [List.map_append] at hnodup
    exact nodup_keys_itemsOf (List.nodup_append.mp hnodup).1
  have hle : ∀ r ∈ q, r.2 ≤ maxSize.toNat := by
    intro r hr
    have h := hroom r hr
    omega
  have hagain : (itemsOf (keptOf maxSize q done)).foldl (enqueue maxSize.toNat) q = q := by
    rw [itemsOf_keptOf]
    exact foldl_enqueue_again hsub hkeys hle hroom
  refine ⟨fun done' p rest' hsplit => ?_, hagain⟩
  rw [List.append_nil]
  -- the row is one of those that were there before, or one that is new
  have hnew : ∀ before, done' = keptOf maxSize q done ++ before → rest = before ++ p :: rest' →
      Admissible maxSize ((itemsOf done').foldl (enqueue maxSize.toNat) q) p rest' := by
    intro before hdone' hrest
    have hfold : (itemsOf done').foldl (enqueue maxSize.toNat) q =
        (itemsOf (done ++ before)).foldl (enqueue maxSize.toNat) [] := by
      unfold itemsOf at hagain hq ⊢
      rw [hdone', List.map_append, List.foldl_append, hagain, List.map_append, List.foldl_append,
        hq]
    have hall : AdmissibleAll maxSize [] (done ++ rest) [] :=
      admissibleAll_of_nodup hnodup (by omega)
    have hfirst := hall (done ++ before) p rest' (by rw [hrest, List.append_assoc])
    rw [List.append_nil] at hfirst
    rw [hfold]
    exact hfirst
  -- the row is one that was kept, or one behind the failure
  rcases List.append_eq_append_iff.mp hsplit with ⟨before, hdone', hrest⟩ | ⟨after, hkept, hrest⟩
  · exact hnew before hdone' hrest
  · cases after with
    | nil =>
      rw [List.append_nil] at hkept
      refine hnew [] ?_ ?_
      · rw [List.append_nil]
        exact hkept.symm
      · exact hrest.symm
    | cons first after =>
      rw [List.cons_append] at hrest
      obtain ⟨rfl, rfl⟩ := List.cons_eq_cons.mp hrest
      refine admissibleAll_rotate (a := []) (b := q) (List.append_nil q).symm ?_
        (hkeys.sublist (hsub.map Prod.fst)) (fun p hp => ?_) hroom done' p after hkept
      · rw [itemsOf_keptOf]
        exact filter_kept hsub hkeys hle
      · subst hq
        exact size_foldl_add_lt hfits (List.mem_of_mem_filter hp)

/-- The second initialisation goes on where the first one failed. -/
theorem wp_initializeCache_again (h : Opening disk cacheRootDir maxSize q rest s)
    (hq : (itemsOf done).foldl (enqueue maxSize.toNat) [] = q)
    (hsplit : rowsInOrder disk.rows = done ++ rest) (hfiles : d.files = s.disk.files)
    (hrows : d.rows = s.disk.rows) (hfaults : d.faults = {}) (hinit : s.cacheInitialized = false)
    (hdir : cacheRootDir ≠ "") (hfits : rowSizes disk.rows < 2 ^ 63)
    (hroom : ∀ r ∈ q, SizedQueue.size q + r.2 ≤ maxSize.toNat) :
    wp initializeCache
      (fun _ t => Opening disk cacheRootDir maxSize
        ((itemsOf (rowsInOrder disk.rows)).foldl (enqueue maxSize.toNat) []) [] t)
      (fun _ _ => True) { s with disk := d } := by
  have hahead : Ahead [] d := by
    unfold Ahead
    rw [hfaults]
    exact ⟨rfl, 0, rfl⟩
  have hquery : rowsInOrder d.rows = keptOf maxSize q done ++ rest := by
    rw [hrows]
    exact h.rowsInOrder_eq hsplit
  have hnodup := nodup_rowsInOrder disk.rows
  have hsize : SizedQueue.size (itemsOf (rowsInOrder disk.rows)) < 2 ^ 63 := by
    rw [size_rowsInOrder]
    exact hfits
  rw [hsplit] at hnodup hsize ⊢
  obtain ⟨hadmissible, hagain⟩ := admissibleAll_again hq hnodup hsize hroom
  have hfold : (itemsOf (rowsInOrder d.rows)).foldl (enqueue maxSize.toNat) q =
      (itemsOf (done ++ rest)).foldl (enqueue maxSize.toNat) [] := by
    unfold itemsOf at hagain hq ⊢
    rw [hquery, List.map_append, List.foldl_append, hagain, List.map_append, List.foldl_append, hq]
  have hopening : Opening disk cacheRootDir maxSize q (rowsInOrder d.rows)
      { s with disk := d } := by
    rw [hquery]
    exact h.again hsplit hfiles hrows
  rw [← hquery] at hadmissible
  refine wp_mono (wp_initializeCache_opening (s := { s with disk := d }) (.inl rfl) hopening hahead
    hinit hdir hadmissible) (fun _ t ht => ?_) fun _ _ _ => trivial
  rcases ht with ⟨ht, -⟩ | ⟨-, hnot⟩
  · rw [← hfold]
    exact ht
  · cases hnot

/-! ## Without the room -/

/-- The entry is listed and its row is gone. -/
structure Stuck (k : String) (p : Stores) : Prop where
  spent : Spent p
  listed : (p.1.entry k).isSome
  unstored : p.2.row k = none

/-- What has no row is not removed. -/
theorem wp_onRemove_unstored (hfaults : disk.faults = {}) (hrow : disk.row key = none) :
    wp (onRemove cacheRootDir key)
      (fun ret d => ret = false ∧ d.row key = none ∧ d.faults = {}) (fun _ _ => False) disk := by
  have hahead : Ahead [] disk := by
    unfold Ahead
    rw [hfaults]
    exact ⟨rfl, 0, rfl⟩
  unfold onRemove HttpCacheDatabase.deleteMetadata
  rw [wp_bind, wp_tryCatch, wp_bind]
  refine wp_mono (wp_databaseCall_ahead (.inl rfl) hahead) (fun _ d hd => ?_) fun e d hd => ?_
  · have hnone : d.rows.find? key = none := (congrFun hd.1.row key).trans hrow
    rw [wp_bind, wp_getState, hnone, wp_bind, wp_modifyState]
    refine ⟨rfl, ?_, Disk.Later.faults_eq hd.1.1 hfaults⟩
    show (d.rows.erase key).find? key = none
    rw [SortedMap.find?_erase, if_pos rfl]
  · exact absurd hd.2.2.1 (List.cons_ne_nil _ _).symm

/-- An entry that is stuck stays stuck. -/
theorem carried_stuck (k : String) : Carried (Stuck k) where
  spent := fun _ h => h.spent
  same := fun p d h hsame =>
    ⟨carried_spent.same p d h.spent hsame, h.listed, (congrFun hsame.row k).trans h.unstored⟩
  remove := by
    intro cacheRootDir key p h
    have hidle : IsIdle p.1 key := isIdle_of_nobodyReads h.spent.wf h.spent.idle
    by_cases hkey : key = k
    · subst hkey
      obtain ⟨info, hentry⟩ := Option.isSome_iff_exists.mp h.listed
      obtain ⟨it, hfind⟩ := find_of_entry hentry
      unfold wp
      rw [exec_remove_idle hidle]
      show wp (LruCacheByDataSizeStrategy.remove (listener cacheRootDir) key) _ _ p
      rw [wp_remove hfind]
      refine wp_mono (wp_onRemove_unstored h.spent.faults_eq h.unstored) (fun ret d hd => ?_)
        fun _ _ he => he
      obtain ⟨rfl, hrow, hfaults⟩ := hd
      exact ⟨⟨h.spent.wf, h.spent.idle, hfaults⟩, h.listed, hrow⟩
    · refine wp_mono (wp_and (wp_remove_spent h.spent) (wp_remove_idle h.spent.wf
        (filesWork_of_faults_eq h.spent.faults_eq) hidle)) (fun _ p' hp' => ?_)
        fun _ _ he => he.1.elim
      obtain ⟨hspent, htrims, -⟩ := hp'
      have hstored : stored cacheRootDir p' k = stored cacheRootDir p k :=
        (htrims.each k).resolve_right fun hgone => by
          obtain ⟨-, -, -, heq⟩ := hgone
          exact hkey heq.symm
      refine ⟨hspent, ?_, (congrArg (fun e => e.2.1) hstored).trans h.unstored⟩
      have hentry : p'.1.entry k = p.1.entry k := congrArg Prod.fst hstored
      rw [hentry]
      exact h.listed
  push := by
    intro p key info h hkey hinfo
    refine ⟨carried_spent.push p key info h.spent hkey hinfo, ?_, h.unstored⟩
    show ((p.1.push key info).entry k).isSome
    rw [h.spent.wf.entry_push hkey, Function.update_apply]
    split
    · rfl
    · exact h.listed

/-- The oldest entry is taken to make room for its own row. -/
theorem Opening.wp_onEnumerate_stuck
    (h : Opening disk cacheRootDir maxSize ((key, size.toNat) :: q) rest s)
    (hspent : Spent s.stores) (hle : size ≤ maxSize)
    (hfits : SizedQueue.size ((key, size.toNat) :: q) + size.toNat < 2 ^ 64)
    (hfull : maxSize.toNat < SizedQueue.size ((key, size.toNat) :: q) + size.toNat) :
    wp (onEnumerate key size) (fun _ t => Stuck key t.stores) (fun _ _ => False) s := by
  have hahead : Ahead [] s.disk := by
    have hfaults : s.disk.faults = {} := hspent.faults_eq
    unfold Ahead
    rw [hfaults]
    exact ⟨rfl, 0, rfl⟩
  -- the row's own entry is the oldest, and is evicted for it
  have htaken : key ∈ (SizedQueue.keys (oldest (excess maxSize.toNat ((key, size.toNat) :: q)
      (key, size.toNat)) ((key, size.toNat) :: q))).reverse := by
    have hexcess : excess maxSize.toNat ((key, size.toNat) :: q) (key, size.toNat) ≠ 0 := by
      unfold excess
      dsimp only
      omega
    rw [List.mem_reverse]
    exact List.mem_map_of_mem (mem_oldest_cons hexcess)
  unfold onEnumerate
  rw [wp_bind, wp_lru]
  refine wp_mono (wp_and (h.wp_makeSpace (.inl rfl) hahead hfits hle key)
    (carried_spent.wp_makeSpaceFor hspent size "")) (fun ret p hp => ?_) fun _ _ he => he.1
  obtain ⟨⟨rfl, hp⟩, hspent'⟩ := hp
  have htakes := (hp.resolve_right fun hnot => List.cons_ne_nil _ _ hnot.2.symm).1
  -- so the row and the entry are gone
  have hentry : p.1.entry key = none := by
    rw [Option.eq_none_iff_forall_ne_some]
    intro info hinfo
    obtain ⟨hmem, hkey⟩ := hspent'.wf.entry_eq_some_iff.mp hinfo
    rw [htakes.values_eq] at hmem
    have hnot := (List.mem_filter.mp hmem).2
    have hkey : info.key = key := hkey
    rw [hkey] at hnot
    exact of_decide_eq_true hnot htaken
  have hrow : p.2.row key = none := by
    rw [htakes.row_eq, if_pos htaken]
  show wp (newHttpCacheInfo key size >>= _) _ _ (s.withStores p)
  unfold newHttpCacheInfo
  rw [wp_bind, wp_bind, wp_getState, wp_bind, wp_modifyState, wp_pure, wp_bind]
  refine wp_mono (wp_add_room (fun _ => h.room hle htakes) fun old hold => ?_) (fun _ u hu => ?_)
    fun _ _ he => he
  -- the entry is put into the list, and no row is left for it
  · have hold : p.1.entry key = some old := hold
    rw [hentry] at hold
    cases hold
  · rw [hu, wp_pure]
    refine ⟨carried_spent.push p key _ hspent' rfl ⟨rfl, rfl⟩, ?_, hrow⟩
    have hpush : (p.1.push key ⟨key, size, false, 0, s.nextSerial⟩).entry =
      Function.update p.1.entry key _ := hspent'.wf.entry_push rfl
    show ((p.1.push key ⟨key, size, false, 0, s.nextSerial⟩).entry key).isSome
    rw [hpush, Function.update_self]
    rfl

/-- The first of the items that do not fit beside all of them. -/
theorem exists_first_unfit {capacity : ℕ}
    (h : ¬∀ r ∈ q, SizedQueue.size q + r.2 ≤ capacity) :
    ∃ b r a, q = b ++ r :: a ∧ capacity < SizedQueue.size q + r.2 ∧
      ∀ x ∈ b, SizedQueue.size q + x.2 ≤ capacity := by
  have hfound : (q.find? fun r => decide (capacity < SizedQueue.size q + r.2)).isSome := by
    rw [List.find?_isSome]
    by_contra hnone
    refine h fun r hr => ?_
    by_contra hlt
    exact hnone ⟨r, hr, decide_eq_true (by omega)⟩
  obtain ⟨r, hr⟩ := Option.isSome_iff_exists.mp hfound
  obtain ⟨hlt, b, a, hsplit, hbefore⟩ := List.find?_eq_some_iff_append.mp hr
  refine ⟨b, r, a, hsplit, of_decide_eq_true hlt, fun x hx => ?_⟩
  have hx := hbefore x hx
  simp only [Bool.not_eq_eq_eq_not, Bool.not_true, decide_eq_false_iff_not] at hx
  omega

/-- The row of an item stands among the kept ones after those of the items before it. -/
theorem exists_row_of_item {a : List (String × ℕ)} {r : String × ℕ}
    (h : (itemsOf params).filter (fun r => r.2 ≤ maxSize.toNat) = b ++ r :: a) :
    ∃ before p after, params = before ++ p :: after ∧ r = (p.1, p.2.toNat) ∧
      (itemsOf before).filter (fun r => r.2 ≤ maxSize.toNat) = b ∧ p.2 ≤ maxSize := by
  obtain ⟨items, others, hitems, hb, hothers⟩ := List.filter_eq_append_iff.mp h
  obtain ⟨large, after, hsplit, hlarge, hle, -⟩ := List.filter_eq_cons_iff.mp hothers
  rw [hsplit, ← List.append_assoc] at hitems
  obtain ⟨before, others', rfl, hbefore, hothers'⟩ := List.map_eq_append_iff.mp hitems
  obtain ⟨p, after', rfl, hp, -⟩ := List.map_eq_cons_iff.mp hothers'
  refine ⟨before, p, after', rfl, hp.symm, ?_, ?_⟩
  · have hnone : large.filter (fun r => r.2 ≤ maxSize.toNat) = [] :=
      List.filter_eq_nil_iff.mpr hlarge
    unfold itemsOf
    rw [hbefore, List.filter_append, hb, hnone, List.append_nil]
  · rw [← hp] at hle
    exact UInt64.le_iff_toNat_le.mpr (of_decide_eq_true hle)

/-- So it does through an initialisation. -/
theorem wp_initializeCache_stuck (h : Opening disk cacheRootDir maxSize q rest s)
    (hq : (itemsOf done).foldl (enqueue maxSize.toNat) [] = q)
    (hsplit : rowsInOrder disk.rows = done ++ rest) (hfiles : d.files = s.disk.files)
    (hrows : d.rows = s.disk.rows) (hfaults : d.faults = {}) (hinit : s.cacheInitialized = false)
    (hdir : cacheRootDir ≠ "") (hfits : rowSizes disk.rows < 2 ^ 63)
    (hroom : ¬∀ r ∈ q, SizedQueue.size q + r.2 ≤ maxSize.toNat) :
    wp initializeCache (fun _ t => ∃ k, Stuck k t.stores) (fun _ _ => True)
      { s with disk := d } := by
  have hnodup := nodup_rowsInOrder disk.rows
  have hsize : SizedQueue.size (itemsOf (rowsInOrder disk.rows)) < 2 ^ 63 := by
    rw [size_rowsInOrder]
    exact hfits
  rw [hsplit] at hnodup hsize
  rw [List.map_append] at hnodup
  -- what the first attempt has kept is a part of its rows
  have hsub : q.Sublist (itemsOf done) := by
    have h := foldl_enqueue_sublist maxSize.toNat [] (itemsOf done)
    rwa [hq, List.nil_append] at h
  have hkeys : (SizedQueue.keys (itemsOf done)).Nodup :=
    nodup_keys_itemsOf (List.nodup_append.mp hnodup).1
  -- the rows up to the first that does not fit
  obtain ⟨b, r, a, hqsplit, hfull, hroom⟩ := exists_first_unfit hroom
  have hkept : (itemsOf (keptOf maxSize q done)).filter (fun r => r.2 ≤ maxSize.toNat) = q := by
    rw [itemsOf_keptOf]
    exact filter_kept hsub hkeys fun r hr => (h.queued r hr).1
  obtain ⟨before, p, after, hparams, rfl, hbefore, hle⟩ :=
    exists_row_of_item (hkept.trans hqsplit)
  -- until then each row replaces its own entry
  have hrotated : (itemsOf before).foldl (enqueue maxSize.toNat) q =
      (p.1, p.2.toNat) :: (a ++ b) := by
    have hrotate := foldl_enqueue_rotate (a := (p.1, p.2.toNat) :: a) hbefore
      (by rw [← hqsplit]; exact hkeys.sublist (hsub.map Prod.fst))
      (by rw [← hqsplit]; exact hroom)
    rw [← hqsplit] at hrotate
    exact hrotate
  have hsizes : SizedQueue.size ((p.1, p.2.toNat) :: (a ++ b)) = SizedQueue.size q := by
    have hperm : ((p.1, p.2.toNat) :: a ++ b).Perm (b ++ (p.1, p.2.toNat) :: a) :=
      List.perm_append_comm
    rw [hqsplit, ← size_perm hperm]
    rfl
  have hadds : ∀ p ∈ keptOf maxSize q done, SizedQueue.size q + p.2.toNat < 2 ^ 64 := by
    intro p hp
    subst hq
    exact size_foldl_add_lt hsize (List.mem_of_mem_filter hp)
  have hopening := h.again hsplit hfiles hrows
  have hspent : Spent (HttpFileCache.stores { s with disk := d }) :=
    ⟨h.exact_total.wf, h.idle, hfaults⟩
  have hahead : Ahead [] d := by
    unfold Ahead
    rw [hfaults]
    exact ⟨rfl, 0, rfl⟩
  refine wp_initializeCache_enumerate hinit (by rw [← h.cacheRootDir_eq] at hdir; exact hdir)
    hahead.filesWork fun d' hsame hdatabase => ?_
  unfold enumerate
  rw [wp_bind, wp_onDisk]
  -- the second attempt queries the rows that are left
  refine wp_mono (wp_queryAll_ahead (.inl rfl) (hahead.of_later hsame.1 hdatabase))
    (fun params d'' hd => ?_) fun _ _ _ => trivial
  obtain ⟨rfl, hsame', hahead'⟩ := hd
  have hquery : rowsInOrder d'.rows = before ++ (p :: (after ++ rest)) := by
    have hrows' : d'.rows = s.disk.rows := hsame.2.2.trans hrows
    rw [hrows', h.rowsInOrder_eq hsplit, hparams, List.append_assoc, List.cons_append]
  rw [hparams, List.append_assoc, List.cons_append] at hopening
  show wp (forEach handOver (rowsInOrder d'.rows)) _ _ { s with disk := d'' }
  rw [hquery, wp_forEach_append]
  refine wp_mono (wp_and
    (wp_handOver_opening (.inl rfl) ((hopening.of_same hsame).of_same hsame') hahead'
      (admissibleAll_rotate hqsplit hbefore (hkeys.sublist (hsub.map Prod.fst))
        (fun x hx => hadds x (by rw [hparams]; exact List.mem_append_left _ hx)) hroom))
    (carried_spent.wp_handOver (s := { s with disk := d'' })
      (carried_spent.same _ d'' (carried_spent.same _ d' hspent hsame) hsame') before))
    (fun _ t ht => ?_) fun _ _ _ => trivial
  obtain ⟨hopened, hspent'⟩ := ht
  have hopened := (hopened.resolve_right fun hnot => List.cons_ne_nil _ _ hnot.2.symm).1
  rw [hrotated] at hopened
  show wp (handOver p >>= fun _ => forEach handOver (after ++ rest)) _ _ t
  unfold handOver
  rw [wp_bind, wp_bind, wp_onDisk]
  -- the row at which the room is used up
  refine wp_mono (Disk.wp_databaseCall t.disk) (fun _ e he => ?_) fun _ _ _ => trivial
  rw [wp_bind]
  have hadd := hadds p (by rw [hparams]; exact List.mem_append_right _ List.mem_cons_self)
  refine wp_mono ((hopened.of_same he.1).wp_onEnumerate_stuck (carried_spent.same _ e hspent' he.1)
    hle (by rw [hsizes]; exact hadd) (by rw [hsizes]; exact hfull)) (fun _ u hu => ?_)
    fun _ _ _ => trivial
  show wp (forEach handOver (after ++ rest)) _ _ u
  exact wp_mono ((carried_stuck p.1).wp_handOver hu (after ++ rest))
    (fun _ v hv => ⟨p.1, hv.spent, hv.listed, hv.unstored⟩) fun _ _ _ => trivial

/-! ## Failing once -/

/-- The database works for some calls and then fails once. -/
def failingAfter (n : ℕ) (disk : Disk) : Disk :=
  { disk with faults := { database := List.replicate n .none ++ [.fails] } }

/-- Nothing fails. -/
def working (disk : Disk) : Disk := { disk with faults := {} }

/-- The cache at a later time, when nothing fails. -/
def recovered (nowAtEpoch : Int64) (s : HttpFileCache) : HttpFileCache :=
  { s with disk := working { s.disk with nowAtEpoch := nowAtEpoch } }

/-- Nothing is to fail. -/
theorem ahead_working (disk : Disk) : Ahead [] (working disk) := ⟨rfl, 0, rfl⟩

/-- The sizes of the rows are those of the items. -/
theorem rowSizes_eq_size (rows : SortedMap String Row) :
    rowSizes rows = SizedQueue.size (itemsOf (rowsInOrder rows)) := (size_rowsInOrder rows).symm

/-- An initialization that failed at a row, and one that comes later and does not fail: it ends
like one that never failed exactly if each entry of the first one fits beside all of them. -/
theorem sameContent_iff {nowAtEpoch : Int64} {e : CacheException}
    (hfits : rowSizes disk.rows < 2 ^ 63)
    (hfirst : exec initializeCache (construct cacheRootDir maxSize (failingAfter n disk)) =
      (.error e, t))
    (hagain : exec initializeCache (recovered nowAtEpoch t) = (.ok (), u))
    (hnever : exec initializeCache (construct cacheRootDir maxSize (working disk)) = (.ok (), v)) :
    SameContent u v ↔ ∀ info ∈ t.lruCacheStrategy.lruList.values,
      t.lruCacheStrategy.totalSize.toNat + info.dataSize.toNat ≤ maxSize.toNat := by
  have hdir : cacheRootDir ≠ "" := by
    rintro rfl
    have hstarted : HttpFileCache.Started (construct "" maxSize (failingAfter n disk)) := .inr rfl
    rw [exec_initializeCache_started hstarted] at hfirst
    cases hfirst
  -- in one attempt without failures every row is admitted
  have hadmissible : AdmissibleAll maxSize [] (rowsInOrder disk.rows) [] := by
    refine admissibleAll_of_nodup (nodup_rowsInOrder disk.rows) ?_
    rw [← rowSizes_eq_size]
    omega
  -- the first attempt has failed at the call number `n`
  have hahead : Ahead [.fails] (failingAfter n disk) := ⟨rfl, n, rfl⟩
  obtain ⟨hinit, -, done, rest, hsplit, hopening⟩ := wp_error (wp_initializeCache_opening (.inr rfl)
    (opening_construct disk (failingAfter n disk) ⟨rfl, rfl⟩ cacheRootDir maxSize) hahead rfl hdir
    hadmissible) hfirst
  have hsplit : rowsInOrder disk.rows = done ++ rest := hsplit
  have hv : Opening disk cacheRootDir maxSize
      ((itemsOf (rowsInOrder disk.rows)).foldl (enqueue maxSize.toNat) []) [] v := by
    have hv := wp_ok (wp_initializeCache_opening (.inl rfl)
      (opening_construct disk (working disk) ⟨rfl, rfl⟩ cacheRootDir maxSize) (ahead_working disk)
      rfl hdir hadmissible) hnever
    exact (hv.resolve_right fun hnot => List.cons_ne_nil _ _ hnot.2.symm).1
  have hsize : SizedQueue.size (queueOf t.lruCacheStrategy) =
      t.lruCacheStrategy.totalSize.toNat := by
    rw [size_queueOf, hopening.exact_total.total]
  have hroom : (∀ info ∈ t.lruCacheStrategy.lruList.values,
      t.lruCacheStrategy.totalSize.toNat + info.dataSize.toNat ≤ maxSize.toNat) ↔
      ∀ r ∈ queueOf t.lruCacheStrategy,
        SizedQueue.size (queueOf t.lruCacheStrategy) + r.2 ≤ maxSize.toNat := by
    rw [hsize]
    unfold queueOf
    simp only [List.mem_reverse, List.forall_mem_map]
  rw [hroom, hopening.queue_eq]
  constructor
  · intro hsame
    by_contra hnot
    obtain ⟨k, hstuck⟩ := wp_ok (wp_initializeCache_stuck
      (d := working { t.disk with nowAtEpoch := nowAtEpoch }) hopening rfl hsplit rfl rfl rfl hinit
      hdir hfits hnot) hagain
    -- the entry is in both lists, and its row is in one of the databases only
    have hk : k ∈ SizedQueue.keys (queueOf v.lruCacheStrategy) := by
      rw [← hsame.queue_eq]
      exact (mem_keys_queueOf hstuck.spent.wf).mpr hstuck.listed
    have hrow : (v.disk.row k).isSome :=
      hv.row_isSome ((mem_keys_queueOf hv.exact_total.wf).mp hk)
    have hnone : u.disk.rows.find? k = none := hstuck.unstored
    have hrow : (v.disk.rows.find? k).isSome := hrow
    rw [← hsame.rows_eq, hnone] at hrow
    cases hrow
  -- with room for all of them the second attempt ends where one attempt ends
  · intro hroom
    have hu := wp_ok (wp_initializeCache_again
      (d := working { t.disk with nowAtEpoch := nowAtEpoch }) hopening rfl hsplit rfl rfl rfl hinit
      hdir hfits hroom) hagain
    exact hu.sameContent hv

/-! ## Two disks -/

/-- The second of two rows cannot be read, and the first one fills more than half of the cache: it
is deleted by the next initialization. -/
theorem row_deleted_again :
    ∃ disk e t u v, exec initializeCache (construct "/cache" 10 (failingAfter 2 disk)) =
        (.error e, t) ∧
      exec initializeCache (recovered 5 t) = (.ok (), u) ∧
      exec initializeCache (construct "/cache" 10 (working disk)) = (.ok (), v) ∧
      (u.disk.row "a" = none ∧ u.disk.file (makeCachedFilename "/cache" "a") = none) ∧
      (v.disk.row "a").isSome ∧ ¬SameContent u v := by
  have hruns : ∃ disk e t u v,
      exec initializeCache (construct "/cache" 10 (failingAfter 2 disk)) = (.error e, t) ∧
      exec initializeCache (recovered 5 t) = (.ok (), u) ∧
      exec initializeCache (construct "/cache" 10 (working disk)) = (.ok (), v) ∧
      (u.disk.row "a" = none ∧ u.disk.file (makeCachedFilename "/cache" "a") = none) ∧
      (v.disk.row "a").isSome := by
    refine ⟨diskOf [("a", rowOf 6 1), ("b", rowOf 3 2)], .sql (.execution "database error"), _, _,
      _, Prod.ext ?_ rfl, Prod.ext ?_ rfl, Prod.ext ?_ rfl, ?_, ?_⟩
    all_goals decide +kernel
  obtain ⟨disk, e, t, u, v, hfirst, hagain, hnever, hgone, hrow⟩ := hruns
  refine ⟨disk, e, t, u, v, hfirst, hagain, hnever, hgone, hrow, fun hsame => ?_⟩
  have hnone : u.disk.rows.find? "a" = none := hgone.1
  have hrow : (v.disk.rows.find? "a").isSome := hrow
  rw [← hsame.rows_eq, hnone] at hrow
  cases hrow

/-- Rows of which the third is not read. -/
def threeRows : Disk := diskOf [("a", rowOf 3 1), ("b", rowOf 3 2), ("c", rowOf 4 3)]

/-- A cache whose first initialisation met a failure. -/
def interrupted : HttpFileCache :=
  (exec initializeCache (construct "/cache" 10 (failingAfter 3 threeRows))).2

/-- There is room for the first two rows once more. -/
theorem rows_kept_again : SameContent (exec initializeCache (recovered 5 interrupted)).2
    (exec initializeCache (construct "/cache" 10 (working threeRows))).2 := by
  have hfirst : exec initializeCache (construct "/cache" 10 (failingAfter 3 threeRows)) =
      (.error (.sql (.execution "database error")), interrupted) :=
    Prod.ext (by decide +kernel) rfl
  have hagain : exec initializeCache (recovered 5 interrupted) = (.ok (), _) :=
    Prod.ext (by decide +kernel) rfl
  have hnever : exec initializeCache (construct "/cache" 10 (working threeRows)) = (.ok (), _) :=
    Prod.ext (by decide +kernel) rfl
  exact (sameContent_iff (by decide +kernel) hfirst hagain hnever).mpr (by decide +kernel)

end EasyHttp.HttpFileCache
