import EasyHttp.Cache.LruOperations
import EasyHttp.Library.ExecPost

/-!
# The capacity of an LRU strategy

`makeSpace` chooses entries whose sizes are enough, asks for their removal and answers true. It
does not look at what the removals answer, and it adds sizes up in 64 bits.

* `Roomy`: the condition on a step under which neither matters;
* `wp_makeSpaceFor`: what `makeSpace` does under it;
* `capacity_run`: along every run whose steps are roomy, the total size stays within the
  maximum, and a `makeSpace` that answers true has made that much space;
* `refused_removal_exceeds`: a refused removal breaks both.
-/

namespace EasyHttp.LruCapacity

open Exec CacheInfo LruCacheByDataSizeStrategy LruOperations

variable {ε ω ι : Type} [CacheInfo ι]

/-! ## When there is room -/

/-- The listener, asked for one removal after another, refuses none. It may throw. -/
def Agrees (listener : LruListener ε ω ι) : List String → ω → Prop
  | [], _ => True
  | key :: keys, w => match exec (listener.onRemove key) w with
    | (.ok ret, w') => ret = true ∧ Agrees listener keys w'
    | (.error _, _) => True

instance decidableAgrees (listener : LruListener ε ω ι) :
    ∀ (keys : List String) (w : ω), Decidable (Agrees listener keys w)
  | [], _ => isTrue trivial
  | key :: keys, w => by
    unfold Agrees
    rcases exec (listener.onRemove key) w with ⟨r, w'⟩
    cases r with
    | error e => exact isTrue trivial
    | ok ret =>
      have := decidableAgrees listener keys w'
      exact inferInstanceAs (Decidable (ret = true ∧ Agrees listener keys w'))

/-- The keys that `makeSpace` asks to remove. -/
def victims (removable : ι → Bool) (lru : LruCacheByDataSizeStrategy ι) (requestSize : UInt64)
    (updatedKey : String) : List String :=
  if lru.totalSize + requestSize ≤ lru.maxSize then []
  else ((removeLruDataLoop removable (lru.totalSize + requestSize - lru.maxSize)
    lru.lruList.values.reverse 0 []).getD []).filter fun key => updatedKey = "" ∨ updatedKey ≠ key

/-- The total and the size asked for fit into 64 bits, and the removals are not refused. -/
def RoomFor (removable : ι → Bool) (listener : LruListener ε ω ι)
    (lru : LruCacheByDataSizeStrategy ι) (w : ω) (requestSize : UInt64) (updatedKey : String) :
    Prop :=
  lru.totalSize.toNat + requestSize.toNat < 2 ^ 64 ∧
    Agrees listener (victims removable lru requestSize updatedKey) w

/-- The room that `addOrUpdate` needs: none for an entry that does not grow. -/
def RoomToStore (removable : ι → Bool) (listener : LruListener ε ω ι)
    (lru : LruCacheByDataSizeStrategy ι) (w : ω) (key : String) (info : ι) : Prop :=
  match lru.entry key with
  | some old => getDataSize old < getDataSize info →
    RoomFor removable listener lru w (getDataSize info) key
  | none => RoomFor removable listener lru w (getDataSize info) ""

/-- What the listener answered to the operation, and the room needed if it agreed. -/
def RoomIfAgreed (removable : ι → Bool) (listener : LruListener ε ω ι)
    (lru : LruCacheByDataSizeStrategy ι) (key : String) (info : ι) : Except ε Bool × ω → Prop
  | (.ok true, w) => RoomToStore removable listener lru w key info
  | _ => True

/-- The condition on a step. Only an operation that needs space has one. -/
def Roomy (removable : ι → Bool) (listener : LruListener ε ω ι)
    (s : LruCacheByDataSizeStrategy ι × ω) : LruOperation ι → Prop
  | .add key info => getKey info = key ∧
    RoomIfAgreed removable listener s.1 key info (exec (listener.onAdd key info) s.2)
  | .update key info => getKey info = key ∧
    RoomIfAgreed removable listener s.1 key info (exec (listener.onUpdate key info) s.2)
  | .makeSpace requestSize => RoomFor removable listener s.1 s.2 requestSize ""
  | _ => True

section
variable (removable : ι → Bool) (listener : LruListener ε ω ι)

instance (lru : LruCacheByDataSizeStrategy ι) (w : ω) (requestSize : UInt64) (updatedKey : String) :
    Decidable (RoomFor removable listener lru w requestSize updatedKey) :=
  inferInstanceAs (Decidable (_ ∧ _))

instance (lru : LruCacheByDataSizeStrategy ι) (w : ω) (key : String) (info : ι) :
    Decidable (RoomToStore removable listener lru w key info) := by
  unfold RoomToStore
  split <;> infer_instance

instance (lru : LruCacheByDataSizeStrategy ι) (key : String) (info : ι) :
    (answer : Except ε Bool × ω) → Decidable (RoomIfAgreed removable listener lru key info answer)
  | (.ok true, w) => inferInstanceAs (Decidable (RoomToStore removable listener lru w key info))
  | (.ok false, _) | (.error _, _) => isTrue trivial

instance (s : LruCacheByDataSizeStrategy ι × ω) :
    (op : LruOperation ι) → Decidable (Roomy removable listener s op)
  | .add _ _ | .update _ _ => inferInstanceAs (Decidable (_ ∧ _))
  | .makeSpace requestSize =>
    inferInstanceAs (Decidable (RoomFor removable listener s.1 s.2 requestSize ""))
  | .remove _ | .get _ | .clear _ | .reset => isTrue trivial

end

/-! ## The choice of the entries to remove -/

/-- The objects chosen are removable, they stand in the list, and their sizes are enough. -/
theorem exists_of_removeLruDataLoop {removable : ι → Bool} {removeSize : UInt64} {infos : List ι}
    {targetSize : UInt64} {keys keys' : List String}
    (h : removeLruDataLoop removable removeSize infos targetSize keys = some keys')
    (hfits : targetSize.toNat + sizes infos < 2 ^ 64) :
    ∃ taken : List ι, taken.Sublist infos ∧ (∀ info ∈ taken, removable info = true) ∧
      keys' = (taken.map getKey).reverse ++ keys ∧
      removeSize.toNat ≤ targetSize.toNat + sizes taken := by
  -- induction on the list; `taken` is what has been chosen in its order
  induction infos generalizing targetSize keys with
  | nil =>
    unfold removeLruDataLoop at h
    by_cases hlt : targetSize < removeSize
    · rw [if_pos hlt] at h
      cases h
    · rw [if_neg hlt] at h
      cases h
      refine ⟨[], List.Sublist.refl _, fun _ hmem => absurd hmem List.not_mem_nil, rfl, ?_⟩
      have hle := UInt64.not_lt.mp hlt
      rw [UInt64.le_iff_toNat_le] at hle
      omega
  | cons info infos ih =>
    unfold removeLruDataLoop at h
    rw [sizes_cons] at hfits
    by_cases hlt : targetSize < removeSize
    · rw [if_pos hlt] at h
      -- the entry may go and is chosen, or it is passed over
      by_cases hremovable : removable info = true
      · rw [if_pos hremovable] at h
        have hadd : (targetSize + getDataSize info).toNat =
            targetSize.toNat + (getDataSize info).toNat := by
          rw [UInt64.toNat_add]
          omega
        obtain ⟨taken, hsub, hall, hkeys, hsize⟩ := ih h (by omega)
        refine ⟨info :: taken, hsub.cons_cons info, ?_, ?_, ?_⟩
        · intro i hi
          rcases List.mem_cons.mp hi with rfl | hi
          · exact hremovable
          · exact hall i hi
        · rw [hkeys, List.map_cons, List.reverse_cons, List.append_assoc]
          rfl
        · rw [sizes_cons]
          omega
      · rw [if_neg hremovable] at h
        obtain ⟨taken, hsub, hall, hkeys, hsize⟩ := ih h (by omega)
        exact ⟨taken, hsub.cons info, hall, hkeys, hsize⟩
    · rw [if_neg hlt] at h
      cases h
      refine ⟨[], List.nil_sublist _, fun _ hmem => absurd hmem List.not_mem_nil, rfl, ?_⟩
      -- enough has been chosen
      have hle := UInt64.not_lt.mp hlt
      rw [UInt64.le_iff_toNat_le] at hle
      omega

/-! ## The total, exactly -/

section
variable {lru : LruCacheByDataSizeStrategy ι} {key k : String} {it : ℕ} {info old : ι}
  {maxSize : UInt64}

/-- The total size is that of the list, over the integers. -/
structure Exact (lru : LruCacheByDataSizeStrategy ι) : Prop where
  wf : lru.Wf
  total : lru.totalSize.toNat = sizes lru.lruList.values

/-- A strategy within its capacity. -/
structure Bounded (maxSize : UInt64) (lru : LruCacheByDataSizeStrategy ι) : Prop
    extends Exact lru where
  maxSize_eq : lru.maxSize = maxSize
  le : lru.totalSize.toNat ≤ maxSize.toNat

/-- The size of the entry of a key. -/
def weight (lru : LruCacheByDataSizeStrategy ι) (key : String) : ℕ :=
  match lru.entry key with
  | some info => (getDataSize info).toNat
  | none => 0

/-- What some keys weigh together. -/
def weights (lru : LruCacheByDataSizeStrategy ι) (keys : List String) : ℕ :=
  (keys.map (weight lru)).sum

/-- An entry weighs its size. -/
theorem weight_of_entry (h : lru.entry key = some info) :
    weight lru key = (getDataSize info).toNat := by
  unfold weight
  rw [h]

/-- The total goes down by the weight of the key. -/
theorem toNat_unlist (h : Exact lru) (key : String) :
    (lru.unlist key).totalSize.toNat = sizes (lru.unlist key).lruList.values ∧
      (lru.unlist key).totalSize.toNat + weight lru key = lru.totalSize.toNat := by
  cases hfind : lru.find key with
  | none =>
    have hentry : lru.entry key = none := entry_eq_none_iff.mpr hfind
    unfold unlist weight
    rw [hfind, hentry]
    exact ⟨h.total, Nat.add_zero _⟩
  | some found =>
    obtain ⟨it, info⟩ := found
    have hsizes := sizes_perm (IterList.values_perm_erase (find_eq_some hfind).2)
    rw [sizes_cons, ← h.total] at hsizes
    have hle : getDataSize info ≤ lru.totalSize := by
      rw [UInt64.le_iff_toNat_le]
      omega
    rw [weight_of_entry (entry_of_find hfind)]
    unfold unlist
    rw [hfind]
    dsimp only
    rw [UInt64.toNat_sub_of_le _ _ hle]
    omega

/-- The total is exact when an entry is taken out. -/
theorem Exact.drop (h : Exact lru) : Exact (lru.drop key) :=
  ⟨h.wf.wf_drop, (toNat_unlist h key).1⟩

theorem Exact.toNat_drop (h : Exact lru) (key : String) :
    (lru.drop key).totalSize.toNat + weight lru key = lru.totalSize.toNat := (toNat_unlist h key).2

theorem maxSize_drop (key : String) : (lru.drop key).maxSize = lru.maxSize := by
  show (lru.unlist key).maxSize = _
  unfold unlist
  split <;> rfl

/-- The bound is kept then. -/
theorem Bounded.drop (h : Bounded maxSize lru) : Bounded maxSize (lru.drop key) := by
  have htotal := h.toNat_drop key
  have hle := h.le
  exact ⟨h.toExact.drop, (maxSize_drop key).trans h.maxSize_eq, by omega⟩

/-- The other keys weigh what they did. -/
theorem Exact.weight_drop (h : Exact lru) (hk : k ≠ key) :
    weight (lru.drop key) k = weight lru k := by
  unfold weight
  rw [h.wf.entry_drop, Function.update_of_ne hk]

/-- The total is exact when an entry is put in, if the sizes fit in a word. -/
theorem Exact.push (h : Exact lru) (hkey : getKey info = key)
    (hfits : lru.totalSize.toNat + (getDataSize info).toNat < 2 ^ 64 + weight lru key) :
    Exact (lru.push key info) ∧ (lru.push key info).totalSize.toNat + weight lru key =
      lru.totalSize.toNat + (getDataSize info).toNat := by
  obtain ⟨hsizes, htotal⟩ := toNat_unlist h key
  have hpush : (lru.push key info).totalSize.toNat =
      (lru.unlist key).totalSize.toNat + (getDataSize info).toNat := by
    show ((lru.unlist key).totalSize + getDataSize info).toNat = _
    rw [UInt64.toNat_add]
    omega
  refine ⟨⟨h.wf.wf_push hkey, ?_⟩, by omega⟩
  rw [hpush]
  show _ = sizes ((lru.unlist key).lruList.pushFront info).values
  rw [IterList.values_pushFront, sizes_cons, hsizes]
  omega

theorem maxSize_push : (lru.push key info).maxSize = lru.maxSize := maxSize_drop key

/-- The new entry fits where the old one was. -/
theorem Bounded.push (h : Bounded maxSize lru) (hkey : getKey info = key)
    (hroom : lru.totalSize.toNat + (getDataSize info).toNat ≤ maxSize.toNat + weight lru key) :
    Bounded maxSize (lru.push key info) := by
  have hmax := maxSize.toNat_lt
  obtain ⟨hexact, htotal⟩ := h.toExact.push hkey (by omega)
  exact ⟨hexact, maxSize_push.trans h.maxSize_eq, by omega⟩

end

/-! ## Making space -/

/-- What the two classes have in common: which objects they choose to remove, and that the
removal of such an object is for the listener to decide. -/
structure Evicts (removable : ι → Bool) (listener : LruListener ε ω ι) (v : Virtuals ε ω ι) :
    Prop where
  create : ∀ lru removeSize, v.createRemoveLruDataList lru removeSize =
    removeLruDataLoop removable removeSize lru.lruList.values.reverse 0 []
  remove : ∀ s key it info, s.1.find key = some (it, info) → removable info = true →
    exec (v.remove key) s = exec (LruCacheByDataSizeStrategy.remove listener key) s

section
variable {removable : ι → Bool} {listener : LruListener ε ω ι} {v : Virtuals ε ω ι}
  {s : LruCacheByDataSizeStrategy ι × ω} {maxSize requestSize : UInt64}
  {updatedKey key : String} {keys : List String} {info old : ι}

/-- The keys that the loop of `makeSpace` removes. -/
def asked (updatedKey : String) (keys : List String) : List String :=
  keys.filter fun key => updatedKey = "" ∨ updatedKey ≠ key

theorem asked_cons_of_pos (h : updatedKey = "" ∨ updatedKey ≠ key) :
    asked updatedKey (key :: keys) = key :: asked updatedKey keys :=
  List.filter_cons_of_pos (by simpa using h)

/-- The updated one is not. -/
theorem asked_cons_of_neg (h : ¬(updatedKey = "" ∨ updatedKey ≠ key)) :
    asked updatedKey (key :: keys) = asked updatedKey keys :=
  List.filter_cons_of_neg (by simpa using h)

theorem weights_cons (lru : LruCacheByDataSizeStrategy ι) (key : String) (keys : List String) :
    weights lru (key :: keys) = weight lru key + weights lru keys := by
  unfold weights
  rw [List.map_cons, List.sum_cons]

/-- The removal of other keys leaves the sizes as they are. -/
theorem Exact.weights_drop {lru : LruCacheByDataSizeStrategy ι} (h : Exact lru)
    (hkeys : key ∉ keys) : weights (lru.drop key) keys = weights lru keys := by
  unfold weights
  refine congrArg List.sum (List.map_congr_left fun k hk => h.weight_drop ?_)
  intro heq
  exact hkeys (heq ▸ hk)

/-- The loop takes each of the sizes off the total. -/
theorem wp_removeKeys (hv : Evicts removable listener v) (h : Bounded maxSize s.1)
    (hnodup : keys.Nodup)
    (hlisted : ∀ key ∈ keys, ∃ info, s.1.entry key = some info ∧ removable info = true)
    (hagrees : Agrees listener (asked updatedKey keys) s.2) :
    wp (forEach (removeKey v updatedKey) keys)
      (fun _ t => Bounded maxSize t.1 ∧
        t.1.totalSize.toNat + weights s.1 (asked updatedKey keys) = s.1.totalSize.toNat ∧
        ∀ k, k ∉ asked updatedKey keys → t.1.entry k = s.1.entry k)
      (fun _ t => Bounded maxSize t.1) s := by
  -- induction on the keys that are left
  induction keys generalizing s with
  | nil => exact ⟨h, rfl, fun _ _ => rfl⟩
  | cons key keys ih =>
    obtain ⟨hhead, htail⟩ := List.nodup_cons.mp hnodup
    have hrest : ∀ k ∈ keys, ∃ info, s.1.entry k = some info ∧ removable info = true :=
      fun k hk => hlisted k (List.mem_cons_of_mem key hk)
    show wp (removeKey v updatedKey key >>= fun _ => forEach (removeKey v updatedKey) keys) _ _ s
    rw [wp_bind]
    unfold removeKey
    -- the key that is updated is not asked for
    by_cases hask : updatedKey = "" ∨ updatedKey ≠ key
    · rw [asked_cons_of_pos hask] at hagrees ⊢
      rw [if_pos hask, wp_bind]
      obtain ⟨info, hentry, hremovable⟩ := hlisted key List.mem_cons_self
      obtain ⟨it, hfind⟩ := find_of_entry hentry
      unfold Agrees at hagrees
      unfold wp
      rw [hv.remove s key it info hfind hremovable]
      refine (wp_remove hfind).mpr ?_
      unfold wp
      -- the listener refuses, or the object is dropped
      rcases hrun : exec (listener.onRemove key) s.2 with ⟨r, w⟩
      rw [hrun] at hagrees
      cases r with
      | error e => exact ⟨h.toExact, h.maxSize_eq, h.le⟩
      | ok ret =>
        obtain ⟨rfl, hagrees⟩ := hagrees
        have hkeep : ∀ k, k ≠ key → (s.1.drop key).entry k = s.1.entry k := by
          intro k hk
          rw [h.wf.entry_drop, Function.update_of_ne hk]
        have hdrop := ih (s := (s.1.drop key, w)) h.drop htail (fun k hk => by
          obtain ⟨i, hi, hr⟩ := hrest k hk
          exact ⟨i, (hkeep k fun heq => hhead (heq ▸ hk)).trans hi, hr⟩) hagrees
        refine wp_mono hdrop (fun _ t ht => ?_) fun _ _ he => he
        obtain ⟨hbounded, htotal, hentries⟩ := ht
        have hnot : key ∉ asked updatedKey keys := fun hmem => hhead (List.mem_of_mem_filter hmem)
        refine ⟨hbounded, ?_, fun k hk => ?_⟩
        · dsimp only at htotal
          rw [h.toExact.weights_drop hnot] at htotal
          rw [weights_cons]
          have hfirst := h.toExact.toNat_drop key
          omega
        · rw [List.mem_cons, not_or] at hk
          rw [hentries k hk.2]
          exact hkeep k hk.1
    · rw [asked_cons_of_neg hask] at hagrees ⊢
      rw [if_neg hask]
      exact ih h htail hrest hagrees

/-- The objects that were chosen stand under their keys. -/
theorem listed_of_taken (h : Bounded maxSize s.1) {taken : List ι}
    (hsub : taken.Sublist s.1.lruList.values.reverse)
    (hremovable : ∀ info ∈ taken, removable info = true) {key : String}
    (hkey : key ∈ (taken.map getKey).reverse) :
    ∃ info, s.1.entry key = some info ∧ removable info = true := by
  rw [List.mem_reverse, List.mem_map] at hkey
  obtain ⟨info, hinfo, rfl⟩ := hkey
  refine ⟨info, h.wf.entry_eq_some_iff.mpr ⟨?_, rfl⟩, hremovable info hinfo⟩
  exact List.mem_reverse.mp (hsub.subset hinfo)

/-- No key is removed twice. -/
theorem nodup_taken (h : Bounded maxSize s.1) {taken : List ι}
    (hsub : taken.Sublist s.1.lruList.values.reverse) : (taken.map getKey).reverse.Nodup := by
  rw [List.nodup_reverse]
  refine (hsub.map getKey).nodup ?_
  rw [List.map_reverse, List.nodup_reverse]
  exact nodup_keys h.wf

/-- The sizes of the chosen objects, by their keys. -/
theorem weights_taken (h : Bounded maxSize s.1) {taken : List ι}
    (hsub : taken.Sublist s.1.lruList.values.reverse) :
    weights s.1 (taken.map getKey).reverse = sizes taken := by
  unfold weights
  rw [List.map_reverse, List.sum_reverse, List.map_map]
  unfold sizes
  refine congrArg List.sum (List.map_congr_left fun info hinfo => ?_)
  have hentry : s.1.entry (getKey info) = some info := by
    refine h.wf.entry_eq_some_iff.mpr ⟨?_, rfl⟩
    exact List.mem_reverse.mp (hsub.subset hinfo)
  exact weight_of_entry hentry

/-- What is not removed is the entry to be written over. -/
theorem weights_le (lru : LruCacheByDataSizeStrategy ι) (updatedKey : String)
    (hnodup : keys.Nodup) :
    weights lru keys ≤ weights lru (asked updatedKey keys) +
      if updatedKey = "" then 0 else weight lru updatedKey := by
  induction keys with
  | nil => exact Nat.zero_le _
  | cons key keys ih =>
    obtain ⟨hhead, htail⟩ := List.nodup_cons.mp hnodup
    rw [weights_cons]
    by_cases hask : updatedKey = "" ∨ updatedKey ≠ key
    · rw [asked_cons_of_pos hask, weights_cons]
      have hle := ih htail
      omega
    · rw [asked_cons_of_neg hask]
      obtain ⟨hne, heq⟩ := not_or.mp hask
      rw [if_neg hne]
      have hkey : updatedKey = key := not_not.mp heq
      -- all the other keys are removed
      have hall : asked updatedKey keys = keys := by
        unfold asked
        rw [List.filter_eq_self]
        intro k hk
        have hk : updatedKey ≠ k := fun h => hhead (hkey ▸ h ▸ hk)
        simpa using Or.inr hk
      rw [hall, hkey]
      omega

/-- The sizes of the objects that cannot be removed. -/
def heldSize (removable : ι → Bool) (lru : LruCacheByDataSizeStrategy ι) : ℕ :=
  sizes (lru.lruList.values.filter fun info => !removable info)

/-- What is kept and what is left out are all. -/
theorem sizes_filter (p : ι → Bool) (infos : List ι) :
    sizes (infos.filter p) + sizes (infos.filter fun info => !p info) = sizes infos := by
  induction infos with
  | nil => rfl
  | cons info infos ih =>
    by_cases hp : p info = true
    · rw [List.filter_cons_of_pos hp, List.filter_cons_of_neg (by simp [hp]), sizes_cons,
        sizes_cons]
      omega
    · rw [List.filter_cons_of_neg hp, List.filter_cons_of_pos (by simpa using hp), sizes_cons,
        sizes_cons]
      omega

/-- Fewer entries are not larger. -/
theorem sizes_sublist {infos infos' : List ι} (h : infos.Sublist infos') :
    sizes infos ≤ sizes infos' := by
  induction h with
  | slnil => exact Nat.le_refl _
  | cons info _ ih =>
    rw [sizes_cons]
    omega
  | cons_cons info _ ih =>
    rw [sizes_cons, sizes_cons]
    omega

/-- Nothing is chosen only if all that is removable is not enough. -/
theorem lt_of_removeLruDataLoop {removeSize : UInt64} {infos : List ι} {targetSize : UInt64}
    (h : removeLruDataLoop removable removeSize infos targetSize keys = none)
    (hfits : targetSize.toNat + sizes infos < 2 ^ 64) :
    targetSize.toNat + sizes (infos.filter removable) < removeSize.toNat := by
  induction infos generalizing targetSize keys with
  | nil =>
    unfold removeLruDataLoop at h
    by_cases hlt : targetSize < removeSize
    · rw [UInt64.lt_iff_toNat_lt] at hlt
      exact hlt
    · rw [if_neg hlt] at h
      cases h
  | cons info infos ih =>
    unfold removeLruDataLoop at h
    rw [sizes_cons] at hfits
    by_cases hlt : targetSize < removeSize
    · rw [if_pos hlt] at h
      by_cases hremovable : removable info = true
      · rw [if_pos hremovable] at h
        have hadd : (targetSize + getDataSize info).toNat =
            targetSize.toNat + (getDataSize info).toNat := by
          rw [UInt64.toNat_add]
          omega
        have hrest := ih h (by omega)
        rw [List.filter_cons_of_pos hremovable, sizes_cons]
        omega
      · rw [if_neg hremovable] at h
        rw [List.filter_cons_of_neg hremovable]
        exact ih h (by omega)
    · rw [if_neg hlt] at h
      cases h

/-- What `makeSpace` answers depends on the objects that it cannot remove. -/
theorem wp_makeSpaceFor_answer
    (hcreate : ∀ lru removeSize, v.createRemoveLruDataList lru removeSize =
      removeLruDataLoop removable removeSize lru.lruList.values.reverse 0 [])
    (h : Exact s.1) (hfits : s.1.totalSize.toNat + requestSize.toNat < 2 ^ 64) :
    wp (makeSpaceFor v requestSize updatedKey)
      (fun ret _ => ret = true ↔
        heldSize removable s.1 + requestSize.toNat ≤ s.1.maxSize.toNat)
      (fun _ _ => True) s := by
  have hadd : (s.1.totalSize + requestSize).toNat = s.1.totalSize.toNat + requestSize.toNat := by
    rw [UInt64.toNat_add]
    omega
  have hsplit := sizes_filter removable s.1.lruList.values
  rw [← h.total] at hsplit
  change _ + heldSize removable s.1 = _ at hsplit
  -- there is room already
  by_cases hspace : s.1.totalSize + requestSize ≤ s.1.maxSize
  · rw [wp_makeSpaceFor_space hspace]
    rw [UInt64.le_iff_toNat_le, hadd] at hspace
    refine ⟨fun _ => by omega, fun _ => rfl⟩
  have hremoveSize : (s.1.totalSize + requestSize - s.1.maxSize).toNat =
      s.1.totalSize.toNat + requestSize.toNat - s.1.maxSize.toNat := by
    have hle := UInt64.le_of_lt (UInt64.not_le.mp hspace)
    rw [UInt64.toNat_sub_of_le _ _ hle, hadd]
  have hover := hspace
  rw [UInt64.le_iff_toNat_le, hadd] at hover
  by_cases hempty : s.1.lruList.values.isEmpty = true
  · rw [wp_makeSpaceFor_empty hspace hempty]
    rw [List.isEmpty_iff] at hempty
    have hnone : s.1.totalSize.toNat = 0 := by
      rw [h.total, hempty]
      rfl
    refine ⟨nofun, fun hle => absurd hle ?_⟩
    omega
  have hperm : sizes s.1.lruList.values.reverse = s.1.totalSize.toNat := by
    rw [sizes_perm s.1.lruList.values.reverse_perm, h.total]
  have hidle : sizes (s.1.lruList.values.reverse.filter removable) =
      sizes (s.1.lruList.values.filter removable) :=
    sizes_perm (s.1.lruList.values.reverse_perm.filter removable)
  have hzero : (0 : UInt64).toNat = 0 := rfl
  have htotal_lt := s.1.totalSize.toNat_lt
  cases hkeys : removeLruDataLoop removable (s.1.totalSize + requestSize - s.1.maxSize)
      s.1.lruList.values.reverse 0 [] with
  -- what may go is not enough
  | none =>
    rw [wp_makeSpaceFor_none hspace hempty ((hcreate _ _).trans hkeys)]
    have hlt := lt_of_removeLruDataLoop hkeys (by rw [hperm, hzero]; omega)
    rw [hidle, hremoveSize, hzero] at hlt
    refine ⟨nofun, fun hle => absurd hle ?_⟩
    omega
  | some keys =>
    obtain ⟨taken, hsub, hremovable, -, hsize⟩ :=
      exists_of_removeLruDataLoop hkeys (by rw [hperm, hzero]; omega)
    -- what was chosen is among the removable objects
    have hfilter : taken.filter removable = taken := List.filter_eq_self.mpr hremovable
    have hle : sizes taken ≤ sizes (s.1.lruList.values.filter removable) := by
      rw [← hidle, ← hfilter]
      exact sizes_sublist (hsub.filter removable)
    rw [hremoveSize, hzero] at hsize
    rw [wp_makeSpaceFor_some hspace hempty ((hcreate _ _).trans hkeys)]
    refine wp_mono (wp_trivial _ s) (fun _ _ _ => ?_) fun _ _ _ => trivial
    refine ⟨fun _ => by omega, fun _ => rfl⟩

/-- A `makeSpace` with room. -/
theorem wp_makeSpaceFor (hv : Evicts removable listener v) (h : Bounded maxSize s.1)
    (hroom : RoomFor removable listener s.1 s.2 requestSize updatedKey) :
    wp (makeSpaceFor v requestSize updatedKey)
      (fun ret t => Bounded maxSize t.1 ∧ (ret = true → t.1.totalSize.toNat + requestSize.toNat ≤
          maxSize.toNat + if updatedKey = "" then 0 else weight s.1 updatedKey) ∧
        (updatedKey ≠ "" → t.1.entry updatedKey = s.1.entry updatedKey))
      (fun _ t => Bounded maxSize t.1) s := by
  obtain ⟨hfits, hagrees⟩ := hroom
  have hadd : (s.1.totalSize + requestSize).toNat = s.1.totalSize.toNat + requestSize.toNat := by
    rw [UInt64.toNat_add]
    omega
  unfold victims at hagrees
  by_cases hspace : s.1.totalSize + requestSize ≤ s.1.maxSize
  · rw [wp_makeSpaceFor_space hspace]
    refine ⟨h, fun _ => ?_, fun _ => rfl⟩
    rw [UInt64.le_iff_toNat_le, hadd, h.maxSize_eq] at hspace
    omega
  rw [if_neg hspace] at hagrees
  by_cases hempty : s.1.lruList.values.isEmpty = true
  · rw [wp_makeSpaceFor_empty hspace hempty]
    exact ⟨h, nofun, fun _ => rfl⟩
  have hremoveSize : (s.1.totalSize + requestSize - s.1.maxSize).toNat =
      s.1.totalSize.toNat + requestSize.toNat - maxSize.toNat := by
    have hle := UInt64.le_of_lt (UInt64.not_le.mp hspace)
    rw [UInt64.toNat_sub_of_le _ _ hle, hadd, h.maxSize_eq]
  -- the loop has found too little, or it has chosen enough
  cases hkeys : removeLruDataLoop removable (s.1.totalSize + requestSize - s.1.maxSize)
      s.1.lruList.values.reverse 0 [] with
  | none =>
    rw [wp_makeSpaceFor_none hspace hempty ((hv.create _ _).trans hkeys)]
    exact ⟨h, nofun, fun _ => rfl⟩
  | some keys =>
    rw [wp_makeSpaceFor_some hspace hempty ((hv.create _ _).trans hkeys)]
    rw [hkeys] at hagrees
    have hsum : sizes s.1.lruList.values.reverse = s.1.totalSize.toNat := by
      rw [sizes_perm s.1.lruList.values.reverse_perm, h.total]
    have hzero : (0 : UInt64).toNat = 0 := rfl
    have htotal_lt := s.1.totalSize.toNat_lt
    obtain ⟨taken, hsub, hremovable, hall, hsize⟩ :=
      exists_of_removeLruDataLoop hkeys (by rw [hsum, hzero]; omega)
    rw [List.append_nil] at hall
    subst hall
    rw [hremoveSize, hzero] at hsize
    refine wp_mono (wp_removeKeys hv h (nodup_taken h hsub)
      (fun key hkey => listed_of_taken h hsub hremovable hkey) hagrees) (fun _ t ht => ?_)
      fun _ _ he => he
    obtain ⟨hbounded, htotal, hentries⟩ := ht
    refine ⟨hbounded, fun _ => ?_, fun hne => hentries updatedKey fun hmem => ?_⟩
    -- the weights of the chosen objects are what was needed
    · have hle := weights_le s.1 updatedKey (nodup_taken h hsub)
      rw [weights_taken h hsub] at hle
      omega
    · have hask := List.of_mem_filter hmem
      simp [hne] at hask

/-! ## The operations -/

/-- An entry stored with room for it. -/
theorem wp_addOrUpdate (hv : Evicts removable listener v) (h : Bounded maxSize s.1)
    (hkey : getKey info = key) (hroom : RoomToStore removable listener s.1 s.2 key info) :
    wp (addOrUpdate v key info) (fun _ t => Bounded maxSize t.1)
      (fun _ t => Bounded maxSize t.1) s := by
  -- what `makeSpace` leaves is enough for the entry in the place of the old one
  have hspace : wp (spaceFor v key info) (fun ret t => Bounded maxSize t.1 ∧
      (ret = true → t.1.totalSize.toNat + (getDataSize info).toNat ≤
        maxSize.toNat + weight t.1 key)) (fun _ t => Bounded maxSize t.1) s := by
    unfold spaceFor
    rw [wp_bind, wp_getState]
    unfold RoomToStore at hroom
    -- a new key needs its whole size, an old one the difference
    cases hfind : s.1.find key with
    | none =>
      rw [entry_eq_none_iff.mpr hfind] at hroom
      refine wp_mono (wp_makeSpaceFor hv h hroom) (fun ret t ht => ⟨ht.1, fun hret => ?_⟩)
        fun _ _ he => he
      have hle := ht.2.1 hret
      rw [if_pos rfl] at hle
      omega
    | some found =>
      obtain ⟨it, old⟩ := found
      rw [entry_of_find hfind] at hroom
      show wp (if getDataSize old < getDataSize info then _ else _) _ _ s
      by_cases hgrows : getDataSize old < getDataSize info
      · rw [if_pos hgrows]
        refine wp_mono (wp_makeSpaceFor hv h (hroom hgrows))
          (fun ret t ht => ⟨ht.1, fun hret => ?_⟩) fun _ _ he => he
        have hle := ht.2.1 hret
        by_cases hne : key = ""
        · rw [if_pos hne] at hle
          omega
        · rw [if_neg hne] at hle
          unfold weight at hle ⊢
          rwa [ht.2.2 hne]
      · rw [if_neg hgrows, wp_pure]
        refine ⟨h, fun _ => ?_⟩
        have hle := UInt64.not_lt.mp hgrows
        rw [UInt64.le_iff_toNat_le] at hle
        rw [weight_of_entry (entry_of_find hfind)]
        have htotal := h.le
        omega
  unfold addOrUpdate
  rw [wp_bind]
  refine wp_mono hspace (fun ret t ht => ?_) fun _ _ he => he
  cases ret with
  | false => exact ht.1
  | true => exact ht.1.push hkey (ht.2 rfl)

/-- Nothing that only removes or moves entries needs room. -/
def Stays (maxSize : UInt64) (s t : LruCacheByDataSizeStrategy ι × ω) : Prop :=
  Bounded maxSize s.1 → Bounded maxSize t.1

instance : Std.Refl (@Stays ω ι _ maxSize) := ⟨fun _ h => h⟩

instance : IsTrans _ (@Stays ω ι _ maxSize) := ⟨fun _ _ _ hst htu h => htu (hst h)⟩

/-- The empty list has room. -/
theorem bounded_construct (maxSize : UInt64) :
    Bounded maxSize (construct maxSize : LruCacheByDataSizeStrategy ι) :=
  ⟨⟨wf_construct maxSize, rfl⟩, rfl, Nat.zero_le _⟩

/-- No object is stored here. -/
theorem changes_stays :
    LruCacheByDataSizeStrategy.Changes (fun _ _ => False) (@Stays ω ι _ maxSize) where
  tell := fun _ _ h => h
  drop := fun _ _ h => h.drop
  push := fun _ _ _ h => h.elim
  touch := fun _ _ _ _ hfind h =>
    ⟨⟨h.wf.wf_touch hfind, h.total.trans (sizes_touch hfind).symm⟩, h.maxSize_eq, h.le⟩
  reset := fun _ h => h.maxSize_eq ▸ bounded_construct _

/-- `add` stays within the bound. -/
theorem wp_add (hv : Evicts removable listener v) (h : Bounded maxSize s.1)
    (hroomy : Roomy removable listener s (.add key info)) :
    wp (add v listener key info) (fun _ t => Bounded maxSize t.1)
      (fun _ t => Bounded maxSize t.1) s := by
  obtain ⟨hkey, hroom⟩ := hroomy
  unfold add
  rw [wp_bind, wp_tell]
  unfold wp
  rcases hrun : exec (listener.onAdd key info) s.2 with ⟨r, w⟩
  rw [hrun] at hroom
  cases r with
  | error e => exact h
  | ok ret =>
    cases ret with
    | false => exact h
    | true => exact wp_addOrUpdate (s := (s.1, w)) hv h hkey hroom

/-- So does `update`. -/
theorem wp_update (hv : Evicts removable listener v) (h : Bounded maxSize s.1)
    (hroomy : Roomy removable listener s (.update key info)) :
    wp (update v listener key info) (fun _ t => Bounded maxSize t.1)
      (fun _ t => Bounded maxSize t.1) s := by
  obtain ⟨hkey, hroom⟩ := hroomy
  unfold update
  rw [wp_bind, wp_tell]
  unfold wp
  rcases hrun : exec (listener.onUpdate key info) s.2 with ⟨r, w⟩
  rw [hrun] at hroom
  cases r with
  | error e => exact h
  | ok ret =>
    cases ret with
    | false => exact h
    | true => exact wp_addOrUpdate (s := (s.1, w)) hv h hkey hroom

/-- `makeSpace` does, and makes the space if it says so. -/
theorem wp_makeSpace (hv : Evicts removable listener v) (h : Bounded maxSize s.1)
    (hroomy : Roomy removable listener s (.makeSpace requestSize)) :
    wp (makeSpace v requestSize) (fun ret t => Bounded maxSize t.1 ∧ (ret = true →
        t.1.totalSize.toNat + requestSize.toNat ≤ t.1.maxSize.toNat))
      (fun _ t => Bounded maxSize t.1) s := by
  refine wp_mono (wp_makeSpaceFor hv h hroomy) (fun ret t ht => ⟨ht.1, fun hret => ?_⟩)
    fun _ _ he => he
  have hle := ht.2.1 hret
  rw [if_pos rfl] at hle
  rwa [ht.1.maxSize_eq]

/-- `makeSpace` answers true only when it has made the space. -/
def MakesSpace (perform : LruOperation ι → LruExec ε ω ι Bool)
    (s : LruCacheByDataSizeStrategy ι × ω) : LruOperation ι → Prop
  | .makeSpace requestSize => ∀ t, exec (perform (.makeSpace requestSize)) s = (.ok true, t) →
    t.1.totalSize.toNat + requestSize.toNat ≤ t.1.maxSize.toNat
  | _ => True

/-- What each operation keeps under the condition holds along every run under it. -/
theorem capacity_of_steps {perform : LruOperation ι → LruExec ε ω ι Bool}
    (hstays : ∀ (s : LruCacheByDataSizeStrategy ι × ω) (op : LruOperation ι),
      Bounded maxSize s.1 → Roomy removable listener s op →
      Bounded maxSize (exec (perform op) s).2.1)
    (hspace : ∀ (s : LruCacheByDataSizeStrategy ι × ω) (op : LruOperation ι),
      Bounded maxSize s.1 → Roomy removable listener s op → MakesSpace perform s op)
    {w : ω} {ops : List (LruOperation ι)}
    (hroomy : Runs.EveryStep (step perform) (Roomy removable listener) (construct maxSize, w) ops) :
    ∃ s, Runs.run (step perform) (construct maxSize, w) ops = some s ∧
      s.1.totalSize ≤ s.1.maxSize ∧
      Runs.EveryStep (step perform) (MakesSpace perform) (construct maxSize, w) ops := by
  have hpres : ∀ s op s', Bounded maxSize s.1 → Roomy removable listener s op →
      step perform s op = some s' → Bounded maxSize s'.1 := by
    intro s op s' h hop hstep
    cases hstep
    exact hstays s op h hop
  obtain ⟨s, hrun⟩ : ∃ s, Runs.run (step perform) (construct maxSize, w) ops = some s :=
    Runs.exists_run (fun _ _ => ⟨_, rfl⟩) _ ops
  have hinv : Bounded maxSize (construct maxSize : LruCacheByDataSizeStrategy ι) :=
    bounded_construct maxSize
  have hbounded : Bounded maxSize s.1 := Runs.run_invariant hpres hinv hrun hroomy
  refine ⟨s, hrun, ?_, ?_⟩
  · rw [UInt64.le_iff_toNat_le, hbounded.maxSize_eq]
    exact hbounded.le
  · exact Runs.everyStep_of_invariant hpres hspace hinv hroomy

end

/-! ## The two classes -/

/-- The class itself removes whatever is old enough. -/
theorem evicts_base (listener : LruListener ε ω ι) :
    Evicts (fun _ => true) listener (virtuals listener) where
  create := fun _ _ => rfl
  remove := fun _ _ _ _ _ _ => rfl

/-- The derived class removes what nobody reads. -/
theorem evicts_http (listener : LruListener ε ω HttpCacheInfo) :
    Evicts (fun info => info.dataRefCount = 0) listener (HttpLruCacheStrategy.virtuals listener) where
  create := fun _ _ => rfl
  remove := by
    intro s key it info hfind hremovable
    have hzero : info.dataRefCount = 0 := by simpa using hremovable
    show exec (HttpLruCacheStrategy.remove listener key) s = _
    unfold HttpLruCacheStrategy.remove
    rw [exec_bind_ok (exec_getState s), hfind]
    show exec (if info.dataRefCount > 0 then _ else _) s = _
    rw [if_neg (by rw [hzero]; exact UInt32.lt_irrefl 0)]

/-- The object reserved in place keeps its size. -/
theorem changes_stays_http {maxSize : UInt64} :
    HttpLruCacheStrategy.Changes (fun _ _ => False) (@Stays ω HttpCacheInfo _ maxSize) where
  toChanges := changes_stays
  reserve := by
    intro s key it info w hfind
    have hassign : Bounded maxSize s.1 →
        Bounded maxSize (s.1.assign it { info with reservedRemove := true }) := by
      intro h
      have hsizes : sizes (s.1.assign it { info with reservedRemove := true }).lruList.values =
          sizes s.1.lruList.values := sizes_assign hfind rfl
      exact ⟨⟨h.wf.wf_assign hfind (h.wf.find_eq_some_iff.mp hfind).2,
        h.total.trans hsizes.symm⟩, h.maxSize_eq, h.le⟩
    refine ⟨hassign, fun h => (hassign h).push (h.wf.find_eq_some_iff.mp hfind).2 ?_⟩
    have hle := h.le
    rw [weight_of_entry (entry_of_find (find_assign hfind _))]
    show s.1.totalSize.toNat + _ ≤ _
    omega

/-- Each operation of the class itself stays within the bound. -/
theorem stays_perform {maxSize : UInt64} (listener : LruListener ε ω ι)
    (s : LruCacheByDataSizeStrategy ι × ω) (op : LruOperation ι) (h : Bounded maxSize s.1)
    (hroomy : Roomy (fun _ => true) listener s op) :
    Bounded maxSize (exec (LruCacheByDataSizeStrategy.perform listener op) s).2.1 := by
  cases op with
  | add key info => exact wp_final (wp_add (evicts_base listener) h hroomy)
  | update key info => exact wp_final (wp_update (evicts_base listener) h hroomy)
  | remove key => exact keeps_remove changes_stays key s h
  | get key => exact keeps_bind (keeps_get changes_stays key) (fun _ => keeps_pure _) s h
  | clear => exact keeps_clear changes_stays s h
  | reset => exact keeps_bind (keeps_reset changes_stays) (fun _ => keeps_pure true) s h
  | makeSpace requestSize =>
    exact wp_final (wp_mono (wp_makeSpace (evicts_base listener) h hroomy) (fun _ _ ht => ht.1)
      fun _ _ he => he)

/-- So does each of the derived class. -/
theorem stays_performHttp {maxSize : UInt64} (listener : LruListener ε ω HttpCacheInfo)
    (s : LruCacheByDataSizeStrategy HttpCacheInfo × ω) (op : LruOperation HttpCacheInfo)
    (h : Bounded maxSize s.1)
    (hroomy : Roomy (fun info => info.dataRefCount = 0) listener s op) :
    Bounded maxSize (exec (HttpLruCacheStrategy.perform listener op) s).2.1 := by
  cases op with
  | add key info => exact wp_final (wp_add (evicts_http listener) h hroomy)
  | update key info =>
    -- an entry whose removal was reserved may be removed after it was written over
    have hremove : Keeps (Stays maxSize) (LruCacheByDataSizeStrategy.remove listener key) :=
      changes_stays_http.changesFor.keeps_remove_base key
    have hupdate : wp (HttpLruCacheStrategy.update listener key info)
        (fun _ t => Bounded maxSize t.1) (fun _ t => Bounded maxSize t.1) s := by
      unfold HttpLruCacheStrategy.update
      rw [wp_bind]
      refine wp_mono (wp_update (evicts_http listener) h hroomy) (fun ret t ht => ?_)
        fun _ _ he => he
      split
      · split
        · exact wp_mono (wp_of_keeps hremove t) (fun _ _ hu => hu ht) fun _ _ hu => hu ht
        · exact ht
      · exact ht
    exact wp_final hupdate
  | remove key => exact HttpLruCacheStrategy.keeps_remove changes_stays_http key s h
  | get key =>
    exact keeps_bind (HttpLruCacheStrategy.keeps_get changes_stays_http key)
      (fun _ => keeps_pure _) s h
  | clear mayDeleteIfBusy => exact HttpLruCacheStrategy.keeps_clear changes_stays_http _ s h
  | reset => exact keeps_bind (keeps_reset changes_stays) (fun _ => keeps_pure true) s h
  | makeSpace requestSize =>
    exact wp_final (wp_mono (wp_makeSpace (evicts_http listener) h hroomy) (fun _ _ ht => ht.1)
      fun _ _ he => he)

/-- Where there is enough to remove, space is made; here by the class itself. -/
theorem makesSpace_perform {maxSize : UInt64} (listener : LruListener ε ω ι)
    (s : LruCacheByDataSizeStrategy ι × ω) (op : LruOperation ι) (h : Bounded maxSize s.1)
    (hroomy : Roomy (fun _ => true) listener s op) :
    MakesSpace (LruCacheByDataSizeStrategy.perform listener) s op := by
  unfold MakesSpace
  split
  · intro t hrun
    exact (wp_ok (wp_makeSpace (evicts_base listener) h hroomy) hrun).2 rfl
  · trivial

/-- And here by the derived class. -/
theorem makesSpace_performHttp {maxSize : UInt64} (listener : LruListener ε ω HttpCacheInfo)
    (s : LruCacheByDataSizeStrategy HttpCacheInfo × ω) (op : LruOperation HttpCacheInfo)
    (h : Bounded maxSize s.1)
    (hroomy : Roomy (fun info => info.dataRefCount = 0) listener s op) :
    MakesSpace (HttpLruCacheStrategy.perform listener) s op := by
  unfold MakesSpace
  split
  · intro t hrun
    exact (wp_ok (wp_makeSpace (evicts_http listener) h hroomy) hrun).2 rfl
  · trivial

/-- Along every run of either class whose steps are roomy the total size stays within the
maximum, and `makeSpace` makes the space that it says it has made. -/
theorem capacity_run (maxSize : UInt64) (w : ω) :
    (∀ (ι : Type) [CacheInfo ι] (listener : LruListener ε ω ι) (ops : List (LruOperation ι)),
      Runs.EveryStep (step (LruCacheByDataSizeStrategy.perform listener))
        (Roomy (fun _ => true) listener) (construct maxSize, w) ops →
      ∃ s, Runs.run (step (LruCacheByDataSizeStrategy.perform listener)) (construct maxSize, w)
          ops = some s ∧ s.1.totalSize ≤ s.1.maxSize ∧
        Runs.EveryStep (step (LruCacheByDataSizeStrategy.perform listener))
          (MakesSpace (LruCacheByDataSizeStrategy.perform listener)) (construct maxSize, w) ops) ∧
    ∀ (listener : LruListener ε ω HttpCacheInfo) (ops : List (LruOperation HttpCacheInfo)),
      Runs.EveryStep (step (HttpLruCacheStrategy.perform listener))
        (Roomy (fun info => info.dataRefCount = 0) listener) (construct maxSize, w) ops →
      ∃ s, Runs.run (step (HttpLruCacheStrategy.perform listener)) (construct maxSize, w)
          ops = some s ∧ s.1.totalSize ≤ s.1.maxSize ∧
        Runs.EveryStep (step (HttpLruCacheStrategy.perform listener))
          (MakesSpace (HttpLruCacheStrategy.perform listener)) (construct maxSize, w) ops := by
  constructor
  · intro ι _ listener ops hroomy
    exact capacity_of_steps (stays_perform listener) (makesSpace_perform listener) hroomy
  · intro listener ops hroomy
    exact capacity_of_steps (stays_performHttp listener) (makesSpace_performHttp listener) hroomy

/-! ## Runs -/

/-- Two entries, one of which grows, and space for a third. -/
def roomyRun : List (LruOperation HttpCacheInfo) :=
  [.add "a" ⟨"a", 4, false, 0, 0⟩, .add "b" ⟨"b", 5, false, 0, 1⟩,
    .update "b" ⟨"b", 7, false, 0, 2⟩, .makeSpace 2]

theorem capacity_roomyRun :
    ∃ s, Runs.run (step (HttpLruCacheStrategy.perform answering)) (construct 10, []) roomyRun =
        some s ∧ s.1.totalSize ≤ s.1.maxSize ∧
      Runs.EveryStep (step (HttpLruCacheStrategy.perform answering))
        (MakesSpace (HttpLruCacheStrategy.perform answering)) (construct 10, []) roomyRun :=
  (capacity_run 10 []).2 answering roomyRun (by decide +kernel)

/-- Six of the ten units. -/
def addSix : LruOperation HttpCacheInfo := .add "a" ⟨"a", 6, false, 0, 0⟩

/-- The listener refuses to remove the one entry there is, and yet `makeSpace` answers true, and
another entry is added to it. -/
theorem refused_removal_exceeds :
    (∃ s ∈ Runs.run (step (HttpLruCacheStrategy.perform answering))
        (construct 10, [true, true, false]) [addSix, .add "b" ⟨"b", 9, false, 0, 1⟩],
      s.1.maxSize < s.1.totalSize) ∧
    ∃ s ∈ Runs.run (step (HttpLruCacheStrategy.perform answering))
        (construct 10, [true, false]) [addSix],
      (exec (HttpLruCacheStrategy.makeSpace answering 9) s).1.toOption = some true ∧
        s.1.maxSize.toNat <
          (exec (HttpLruCacheStrategy.makeSpace answering 9) s).2.1.totalSize.toNat + 9 := by
  decide +kernel

/-- The sum of the total and a size of almost `2 ^ 64` is small. -/
example : ∃ s ∈ Runs.run (step (HttpLruCacheStrategy.perform answering)) (construct 10, [])
      [addSix],
    (exec (HttpLruCacheStrategy.makeSpace answering 0xfffffffffffffffd) s).1.toOption =
      some true := by
  decide +kernel

end EasyHttp.LruCapacity
