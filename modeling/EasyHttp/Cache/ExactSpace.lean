import EasyHttp.Cache.OrderedRemoval

/-!
# What `makeSpace` evicts

* `removeLruDataLoop_take`: the loop over the list chooses the shortest run of removable objects
  that is enough;
* `wp_removeKeys_accepted`: the objects chosen, and no others, leave the list;
* `isExact_iff`: `makeSpace` answers and evicts as it should if and only if the total and the
  size asked for fit into 64 bits together.
-/

namespace EasyHttp.ExactSpace

open Exec LruCacheByDataSizeStrategy LruOperations LruCapacity

/-- The listener agrees to every removal. -/
def Accepts {ε ω ι : Type} (listener : LruListener ε ω ι) : Prop :=
  ∀ key w, (exec (listener.onRemove key) w).1 = .ok true

/-! ## The shortest run -/

section
variable {ι : Type} [CacheInfo ι] {removable : ι → Bool}

/-- The removable objects are taken from the front, and no more of them than are needed. -/
theorem removeLruDataLoop_take {removeSize targetSize : UInt64} {infos : List ι}
    {keys keys' : List String}
    (h : removeLruDataLoop removable removeSize infos targetSize keys = some keys')
    (hfits : targetSize.toNat + sizes infos < 2 ^ 64) :
    ∃ k, keys' = (((infos.filter removable).take k).map CacheInfo.getKey).reverse ++ keys ∧
      removeSize.toNat ≤ targetSize.toNat + sizes ((infos.filter removable).take k) ∧
      ∀ j < k, targetSize.toNat + sizes ((infos.filter removable).take j) < removeSize.toNat := by
  -- induction on the list; `k` entries that may go have been taken
  induction infos generalizing targetSize keys with
  | nil =>
    unfold removeLruDataLoop at h
    by_cases hlt : targetSize < removeSize
    · rw [if_pos hlt] at h
      cases h
    · rw [if_neg hlt] at h
      cases h
      have hle := UInt64.le_iff_toNat_le.mp (UInt64.not_lt.mp hlt)
      exact ⟨0, rfl, hle, fun _ hj => absurd hj (Nat.not_lt_zero _)⟩
  | cons info infos ih =>
    unfold removeLruDataLoop at h
    rw [sizes_cons] at hfits
    by_cases hlt : targetSize < removeSize
    -- more is needed, and the next entry that may go is taken
    · have hlt' := UInt64.lt_iff_toNat_lt.mp hlt
      rw [if_pos hlt] at h
      by_cases hremovable : removable info = true
      · rw [if_pos hremovable] at h
        have hadd : (targetSize + CacheInfo.getDataSize info).toNat =
            targetSize.toNat + (CacheInfo.getDataSize info).toNat := by
          rw [UInt64.toNat_add]
          omega
        obtain ⟨k, hkeys, henough, hleast⟩ := ih h (by omega)
        rw [hadd] at henough hleast
        rw [List.filter_cons_of_pos hremovable]
        refine ⟨k + 1, ?_, ?_, fun j hj => ?_⟩
        · rw [hkeys, List.take_succ_cons, List.map_cons, List.reverse_cons, List.append_assoc]
          rfl
        · rw [List.take_succ_cons, sizes_cons]
          omega
        · cases j with
          | zero => exact hlt'
          | succ j =>
            have hj' := hleast j (by omega)
            rw [List.take_succ_cons, sizes_cons]
            omega
      · rw [if_neg hremovable] at h
        rw [List.filter_cons_of_neg hremovable]
        exact ih h (by omega)
    · rw [if_neg hlt] at h
      cases h
      -- enough has been taken
      have hle := UInt64.le_iff_toNat_le.mp (UInt64.not_lt.mp hlt)
      exact ⟨0, rfl, hle, fun _ hj => absurd hj (Nat.not_lt_zero _)⟩

end

/-! ## The removals -/

section
variable {ε ω ι : Type} [CacheInfo ι] {removable : ι → Bool} {listener : LruListener ε ω ι}
  {v : Virtuals ε ω ι} {s : LruCacheByDataSizeStrategy ι × ω} {maxSize : UInt64}
  {updatedKey : String} {keys : List String}

/-- The loop of `makeSpace`, with a listener that agrees: the entries of the keys leave the list,
and the others stand where they stood. -/
theorem wp_removeKeys_accepted (hv : Evicts removable listener v) (haccepts : Accepts listener)
    (h : Bounded maxSize s.1) (hnodup : keys.Nodup)
    (hlisted : ∀ key ∈ keys, ∃ info, s.1.entry key = some info ∧ removable info = true) :
    wp (forEach (removeKey v updatedKey) keys)
      (fun _ t => Bounded maxSize t.1 ∧
        t.1.lruList.values = s.1.lruList.values.filter
          (fun info => CacheInfo.getKey info ∉ asked updatedKey keys) ∧
        exec (forEach (fun key => do let _ ← listener.onRemove key) (asked updatedKey keys)) s.2 =
          (.ok (), t.2))
      (fun _ _ => False) s := by
  -- induction on the keys that are left
  induction keys generalizing s with
  | nil => exact ⟨h, (List.filter_eq_self.mpr fun _ _ => by simp [asked]).symm, rfl⟩
  | cons key keys ih =>
    obtain ⟨hhead, htail⟩ := List.nodup_cons.mp hnodup
    have hrest : ∀ k ∈ keys, ∃ i, s.1.entry k = some i ∧ removable i = true :=
      fun k hk => hlisted k (List.mem_cons_of_mem key hk)
    show wp (removeKey v updatedKey key >>= fun _ => forEach (removeKey v updatedKey) keys) _ _ s
    unfold removeKey
    rw [wp_bind]
    by_cases hask : updatedKey = "" ∨ updatedKey ≠ key
    swap
    · rw [asked_cons_of_neg hask, if_neg hask]
      exact ih h htail hrest
    rw [asked_cons_of_pos hask, if_pos hask, wp_bind]
    -- the key is listed still, and the listener agrees
    obtain ⟨info, hentry, hremovable⟩ := hlisted key List.mem_cons_self
    obtain ⟨it, hfind⟩ := find_of_entry hentry
    unfold wp
    rw [hv.remove s key it info hfind hremovable]
    apply (wp_remove hfind).mpr
    have hanswer := haccepts key s.2
    unfold wp
    rcases hrun : exec (listener.onRemove key) s.2 with ⟨r, w⟩
    rw [hrun] at hanswer
    dsimp only at hanswer
    rw [hanswer]
    -- the other keys stand where they stood
    have hkept : ∀ k ∈ keys, ∃ i, (s.1.drop key).entry k = some i ∧ removable i = true := by
      intro k hk
      have hne : k ≠ key := fun heq => hhead (heq ▸ hk)
      rw [h.wf.entry_drop, Function.update_of_ne hne]
      exact hrest k hk
    refine wp_mono (ih (s := (s.1.drop key, w)) h.drop htail hkept) (fun _ t ht => ?_)
      fun _ _ he => he
    obtain ⟨hbounded, hvalues, htold⟩ := ht
    refine ⟨hbounded, ?_, ?_⟩
    · rw [hvalues]
      show ((s.1.drop key).lruList.values.filter _) = _
      rw [h.wf.values_drop, List.filter_filter]
      apply List.filter_congr
      intro i _
      rw [Bool.eq_iff_iff]
      simp [and_comm]
    · show exec ((do let _ ← listener.onRemove key) >>= fun _ => forEach _ _) s.2 = _
      rw [exec_bind, exec_bind, hrun, hanswer]
      exact htold

end

/-! ## What should happen -/

section
variable {ε ω : Type} {listener : LruListener ε ω HttpCacheInfo}
  {s t : LruCacheByDataSizeStrategy HttpCacheInfo × ω} {requestSize maxSize : UInt64}
  {keys : List String}

/-- The entries that nobody reads, from the least recently used one on. -/
def idleInfos (lru : LruCacheByDataSizeStrategy HttpCacheInfo) : List HttpCacheInfo :=
  lru.lruList.values.reverse.filter fun info => info.dataRefCount = 0

/-- The sizes of the entries that are being read. -/
def busySize (lru : LruCacheByDataSizeStrategy HttpCacheInfo) : ℕ :=
  sizes (lru.lruList.values.filter fun info => info.dataRefCount ≠ 0)

/-- The size asked for fits when some entries are gone. -/
def Fits (lru : LruCacheByDataSizeStrategy HttpCacheInfo) (requestSize : UInt64)
    (gone : List HttpCacheInfo) : Prop :=
  sizes lru.lruList.values + requestSize.toNat ≤ lru.maxSize.toNat + sizes gone

/-- The first `k` idle entries are enough, and no fewer are. -/
structure Shortest (lru : LruCacheByDataSizeStrategy HttpCacheInfo) (requestSize : UInt64)
    (k : ℕ) : Prop where
  fits : Fits lru requestSize ((idleInfos lru).take k)
  least : ∀ j < k, ¬Fits lru requestSize ((idleInfos lru).take j)

/-- The listener asked to remove one key after another. -/
def tellRemoved (listener : LruListener ε ω HttpCacheInfo) (keys : List String) : Exec ε ω Unit :=
  forEach (fun key => do let _ ← listener.onRemove key) keys

/-- Some entries have left, and no others; the listener was asked to remove these. -/
structure Evicted (listener : LruListener ε ω HttpCacheInfo) (gone : List HttpCacheInfo)
    (s t : LruCacheByDataSizeStrategy HttpCacheInfo × ω) : Prop where
  bounded : Bounded s.1.maxSize t.1
  values_eq : t.1.lruList.values = s.1.lruList.values.filter fun info => info ∉ gone
  told : exec (tellRemoved listener (gone.map (·.key)).reverse) s.2 = (.ok (), t.2)

/-- `makeSpace` answers whether it can make the space, and evicts as little as it can for it. -/
def IsExact (listener : LruListener ε ω HttpCacheInfo)
    (s : LruCacheByDataSizeStrategy HttpCacheInfo × ω) (requestSize : UInt64) : Prop :=
  ∃ ret t, exec (HttpLruCacheStrategy.makeSpace listener requestSize) s = (.ok ret, t) ∧
    (ret = true ↔ requestSize.toNat + busySize s.1 ≤ s.1.maxSize.toNat) ∧
    (ret = true → ∃ k, Shortest s.1 requestSize k ∧
      Evicted listener ((idleInfos s.1).take k) s t) ∧
    (ret = false → t = s)

/-- The busy entries are those that may not be removed. -/
theorem busySize_eq (lru : LruCacheByDataSizeStrategy HttpCacheInfo) :
    busySize lru = heldSize (fun info => info.dataRefCount = 0) lru := by
  unfold busySize heldSize
  exact congrArg sizes (List.filter_congr fun info _ => by simp)

/-- The keys are unique, so an entry is gone by its key. -/
theorem mem_keys_iff (h : s.1.Wf) {gone : List HttpCacheInfo}
    (hgone : ∀ info ∈ gone, info ∈ s.1.lruList.values) {info : HttpCacheInfo}
    (hinfo : info ∈ s.1.lruList.values) :
    info.key ∈ (gone.map (·.key)).reverse ↔ info ∈ gone := by
  rw [List.mem_reverse, List.mem_map]
  constructor
  · intro hmem
    obtain ⟨other, hother, hkey⟩ := hmem
    have hfirst : s.1.entry info.key = some other :=
      h.entry_eq_some_iff.mpr ⟨hgone other hother, hkey⟩
    have hsecond : s.1.entry info.key = some info := h.entry_eq_some_iff.mpr ⟨hinfo, rfl⟩
    rw [hfirst] at hsecond
    cases hsecond
    exact hother
  · intro hmem
    exact ⟨info, hmem, rfl⟩

/-- The loop of `makeSpace`, with a listener that agrees. -/
theorem wp_removeKeys_evicts (haccepts : Accepts listener) (h : Bounded maxSize s.1)
    (hnodup : keys.Nodup)
    (hlisted : ∀ key ∈ keys, ∃ info, s.1.entry key = some info ∧ info.dataRefCount = 0) :
    wp (forEach (removeKey (HttpLruCacheStrategy.virtuals listener) "") keys)
      (fun _ t => Bounded maxSize t.1 ∧
        t.1.lruList.values = s.1.lruList.values.filter (fun info => info.key ∉ keys) ∧
        exec (tellRemoved listener keys) s.2 = (.ok (), t.2))
      (fun _ _ => False) s := by
  have hall : asked "" keys = keys := List.filter_eq_self.mpr fun _ _ => by simp
  have hlisted' : ∀ key ∈ keys, ∃ info, s.1.entry key = some info ∧
      decide (info.dataRefCount = 0) = true := by
    intro key hkey
    obtain ⟨info, hentry, hzero⟩ := hlisted key hkey
    exact ⟨info, hentry, decide_eq_true hzero⟩
  refine wp_mono (wp_removeKeys_accepted (evicts_http listener) haccepts h hnodup hlisted')
    (fun _ t ht => ?_) fun _ _ he => he
  rw [hall] at ht
  exact ht

/-! ## `makeSpace` -/

/-- What is listed as idle is an idle entry. -/
theorem mem_of_mem_idleInfos {lru : LruCacheByDataSizeStrategy HttpCacheInfo} {k : ℕ}
    {info : HttpCacheInfo} (h : info ∈ (idleInfos lru).take k) :
    info ∈ lru.lruList.values ∧ info.dataRefCount = 0 := by
  have hmem := List.mem_of_mem_take h
  unfold idleInfos at hmem
  simpa using hmem

/-- Without an overflow, `makeSpace` evicts the shortest run. -/
theorem wp_makeSpace_evicts (haccepts : Accepts listener) (h : Bounded s.1.maxSize s.1)
    (hfits : s.1.totalSize.toNat + requestSize.toNat < 2 ^ 64) :
    wp (HttpLruCacheStrategy.makeSpace listener requestSize)
      (fun ret t => (ret = true → ∃ k, Shortest s.1 requestSize k ∧
          Evicted listener ((idleInfos s.1).take k) s t) ∧ (ret = false → t = s))
      (fun _ _ => False) s := by
  have hadd : (s.1.totalSize + requestSize).toNat = s.1.totalSize.toNat + requestSize.toNat := by
    rw [UInt64.toNat_add]
    omega
  have htotal := h.total
  unfold HttpLruCacheStrategy.makeSpace makeSpace
  by_cases hspace : s.1.totalSize + requestSize ≤ s.1.maxSize
  · -- nothing has to go
    rw [wp_makeSpaceFor_space hspace]
    rw [UInt64.le_iff_toNat_le, hadd] at hspace
    refine ⟨fun _ => ⟨0, ⟨?_, fun j hj => absurd hj (Nat.not_lt_zero j)⟩, ?_⟩, nofun⟩
    · show _ ≤ _ + 0
      omega
    · exact ⟨h, (List.filter_eq_self.mpr fun _ _ => by simp).symm, rfl⟩
  by_cases hempty : s.1.lruList.values.isEmpty = true
  · rw [wp_makeSpaceFor_empty hspace hempty]
    exact ⟨nofun, fun _ => rfl⟩
  -- no difference of the code wraps round
  have hremoveSize : (s.1.totalSize + requestSize - s.1.maxSize).toNat =
      s.1.totalSize.toNat + requestSize.toNat - s.1.maxSize.toNat := by
    have hle := UInt64.le_of_lt (UInt64.not_le.mp hspace)
    rw [UInt64.toNat_sub_of_le _ _ hle, hadd]
  have hover := hspace
  rw [UInt64.le_iff_toNat_le, hadd] at hover
  have hperm : sizes s.1.lruList.values.reverse = s.1.totalSize.toNat := by
    rw [sizes_perm s.1.lruList.values.reverse_perm, htotal]
  have hzero : (0 : UInt64).toNat = 0 := rfl
  have htotal_lt := s.1.totalSize.toNat_lt
  cases hkeys : removeLruDataLoop (fun info : HttpCacheInfo => info.dataRefCount = 0)
      (s.1.totalSize + requestSize - s.1.maxSize) s.1.lruList.values.reverse 0 [] with
  -- the loop finds too little, and nothing is changed
  | none =>
    rw [wp_makeSpaceFor_none hspace hempty hkeys]
    exact ⟨nofun, fun _ => rfl⟩
  | some keys =>
    obtain ⟨k, hchosen, henough, hleast⟩ :=
      removeLruDataLoop_take hkeys (by rw [hperm, hzero]; omega)
    rw [hremoveSize, hzero] at henough hleast
    rw [List.append_nil] at hchosen
    change keys = (((idleInfos s.1).take k).map (·.key)).reverse at hchosen
    have hsub : ((idleInfos s.1).take k).Sublist s.1.lruList.values.reverse :=
      (List.take_sublist k _).trans List.filter_sublist
    have hnodup : keys.Nodup := hchosen ▸ nodup_taken h hsub
    -- what has been chosen is listed, and nobody reads it
    have hlisted : ∀ key ∈ keys, ∃ info, s.1.entry key = some info ∧ info.dataRefCount = 0 := by
      intro key hkey
      rw [hchosen] at hkey
      have hidle : ∀ info ∈ (idleInfos s.1).take k, decide (info.dataRefCount = 0) = true :=
        fun info hinfo => decide_eq_true (mem_of_mem_idleInfos hinfo).2
      obtain ⟨info, hinfo, hremovable⟩ := listed_of_taken h hsub hidle hkey
      exact ⟨info, hinfo, of_decide_eq_true hremovable⟩
    rw [wp_makeSpaceFor_some hspace hempty hkeys]
    refine wp_mono (wp_removeKeys_evicts haccepts h hnodup hlisted) (fun _ t ht => ?_)
      fun _ _ he => he
    obtain ⟨hbounded, hvalues, htold⟩ := ht
    refine ⟨fun _ => ⟨k, ⟨?_, fun j hj => ?_⟩, hbounded, ?_, hchosen ▸ htold⟩, nofun⟩
    · change _ ≤ 0 + sizes ((idleInfos s.1).take k) at henough
      unfold Fits
      omega
    -- with one entry less it would not have been enough
    · have hfew := hleast j hj
      change 0 + sizes ((idleInfos s.1).take j) < _ at hfew
      unfold Fits
      omega
    · rw [hvalues, hchosen]
      apply List.filter_congr
      intro info hinfo
      have hgone : ∀ i ∈ (idleInfos s.1).take k, i ∈ s.1.lruList.values :=
        fun i hi => (mem_of_mem_idleInfos hi).1
      simp only [mem_keys_iff h.wf hgone hinfo]

/-- With an overflow the sum is small, and `makeSpace` does nothing. -/
theorem exec_makeSpace_overflow (h : Bounded s.1.maxSize s.1)
    (hover : 2 ^ 64 ≤ s.1.totalSize.toNat + requestSize.toNat) :
    exec (HttpLruCacheStrategy.makeSpace listener requestSize) s = (.ok true, s) := by
  have hle := h.le
  have hlt := requestSize.toNat_lt
  have hspace : s.1.totalSize + requestSize ≤ s.1.maxSize := by
    rw [UInt64.le_iff_toNat_le, UInt64.toNat_add]
    omega
  exact exec_eq ((wp_makeSpaceFor_space hspace).mpr ⟨rfl, rfl⟩)

/-- For every strategy within its capacity and every listener that agrees, `makeSpace` is exact
if and only if the total and the size asked for do not overflow. -/
theorem isExact_iff (h : Bounded s.1.maxSize s.1) (haccepts : Accepts listener)
    (requestSize : UInt64) :
    IsExact listener s requestSize ↔ s.1.totalSize.toNat + requestSize.toNat < 2 ^ 64 := by
  constructor
  · intro hexact
    -- the sum wraps round, so too little is evicted
    by_contra hover
    obtain ⟨ret, t, hrun, -, hevicts, -⟩ := hexact
    rw [exec_makeSpace_overflow h (by omega)] at hrun
    cases hrun
    obtain ⟨k, hshortest, hevicted⟩ := hevicts rfl
    have hmax := s.1.maxSize.toNat_lt
    have htotal := h.total
    have hfits := hshortest.fits
    unfold Fits at hfits
    -- some entry had to go, and none has gone
    cases hgone : (idleInfos s.1).take k with
    | nil =>
      rw [hgone] at hfits
      change _ ≤ _ + 0 at hfits
      omega
    | cons info gone =>
      have hmem : info ∈ (idleInfos s.1).take k := by
        rw [hgone]
        exact List.mem_cons_self
      have hlisted := (mem_of_mem_idleInfos hmem).1
      rw [hevicted.values_eq, List.mem_filter] at hlisted
      simp [hmem] at hlisted
  · intro hfits
    -- and the answer is right as well
    have hanswer : wp (HttpLruCacheStrategy.makeSpace listener requestSize)
        (fun ret _ => ret = true ↔ heldSize (fun info => info.dataRefCount = 0) s.1 +
          requestSize.toNat ≤ s.1.maxSize.toNat) (fun _ _ => True) s :=
      wp_makeSpaceFor_answer (evicts_http listener).create h.toExact hfits
    have hwp := wp_and (wp_makeSpace_evicts haccepts h hfits) hanswer
    unfold wp at hwp
    rcases hrun : exec (HttpLruCacheStrategy.makeSpace listener requestSize) s with ⟨r, t⟩
    rw [hrun] at hwp
    cases r with
    | error e => exact hwp.1.elim
    | ok ret =>
      obtain ⟨⟨hevicts, hfalse⟩, hiff⟩ := hwp
      refine ⟨ret, t, hrun, ?_, hevicts, hfalse⟩
      rw [busySize_eq, Nat.add_comm]
      exact hiff

end

/-! ## An entry that is being read -/

/-- A listener that agrees to everything, and notes the keys removed. -/
def recording : LruListener Empty (List String) HttpCacheInfo where
  onAdd := fun _ _ => pure true
  onUpdate := fun _ _ => pure true
  onRemove := fun key => do
    modifyState fun keys => key :: keys
    return true
  onGet := fun _ _ => pure true

/-- Three entries in a strategy for ten bytes; the oldest is being read. -/
def threeListed : LruCacheByDataSizeStrategy HttpCacheInfo :=
  (((construct 10).push "a" ⟨"a", 4, false, 1, 0⟩).push "b" ⟨"b", 2, false, 0, 1⟩).push "c"
    ⟨"c", 3, false, 0, 2⟩

theorem bounded_threeListed : Bounded 10 threeListed := by
  have hempty : Bounded 10 (construct 10 : LruCacheByDataSizeStrategy HttpCacheInfo) :=
    bounded_construct 10
  have hfirst := @Bounded.push _ _ _ "a" ⟨"a", 4, false, 1, 0⟩ _ hempty rfl (by decide +kernel)
  have hsecond := @Bounded.push _ _ _ "b" ⟨"b", 2, false, 0, 1⟩ _ hfirst rfl (by decide +kernel)
  exact hsecond.push rfl (by decide +kernel)

/-- For three bytes "b" goes, and "c" need not. -/
theorem isExact_threeListed :
    (exec (HttpLruCacheStrategy.makeSpace recording 3) (threeListed, [])).2.2 = ["b"] ∧
      IsExact recording (threeListed, []) 3 ∧
      ¬IsExact recording (threeListed, []) 0xffffffffffffffff := by
  have haccepts : Accepts recording := fun _ _ => rfl
  have hiff := isExact_iff (s := (threeListed, [])) bounded_threeListed haccepts
  refine ⟨by decide +kernel, (hiff 3).mpr (by decide +kernel), ?_⟩
  intro hexact
  exact absurd ((hiff _).mp hexact) (by decide +kernel)

/-- Almost `2 ^ 64` bytes are said to fit into ten, and nothing is evicted for them. -/
theorem not_isExact_overflow :
    Bounded threeListed.maxSize threeListed ∧ Accepts recording ∧
      ¬IsExact recording (threeListed, []) 0xfffffffffffffffd := by
  refine ⟨bounded_threeListed, fun _ _ => rfl, ?_⟩
  intro hexact
  obtain ⟨ret, t, hrun, hiff, -⟩ := hexact
  rw [exec_makeSpace_overflow bounded_threeListed (by decide +kernel)] at hrun
  cases hrun
  exact absurd (hiff.mp rfl) (by decide +kernel)

end EasyHttp.ExactSpace
