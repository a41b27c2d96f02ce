import Mathlib.Data.List.Nodup
import Mathlib.Data.List.Pairwise
import Mathlib.Logic.Function.Basic
import Mathlib.Order.Basic

/-!
# Keys in the order of their use

A list of keys, the one that was used last first, and a time of use for each key.

* `touch`: a key is used now, and stands first;
* `Ordered`: the list is in the order of the times;
* `Ordered.touch`: a use at a later time than all others keeps the order;
* `eq_of_ordered`: the times leave only one order of the same keys.
-/

namespace Recency

variable {κ τ : Type*} [DecidableEq κ] [Preorder τ] {time time' : κ → τ} {key : κ}
  {keys keys' : List κ} {now : τ}

/-- The key moves to the front. -/
def touch (key : κ) (keys : List κ) : List κ := key :: keys.filter (· ≠ key)

omit [DecidableEq κ] in
/-- From the key used last to the one not used for longest. -/
def Ordered (time : κ → τ) (keys : List κ) : Prop := keys.Pairwise fun a b => time b < time a

/-- The other keys stay in their order. -/
theorem filter_touch : (touch key keys).filter (· ≠ key) = keys.filter (· ≠ key) := by
  unfold touch
  rw [List.filter_cons_of_neg (by simp), List.filter_filter]
  exact List.filter_congr fun k _ => Bool.and_self _

/-- A second use in a row changes nothing. -/
theorem touch_touch : touch key (touch key keys) = touch key keys := by
  show key :: (touch key keys).filter (· ≠ key) = _
  rw [filter_touch]
  rfl

/-- The use of the first key changes nothing. -/
theorem touch_of_head (hnodup : keys.Nodup) (hhead : keys.head? = some key) :
    touch key keys = keys := by
  cases keys with
  | nil => cases hhead
  | cons k rest =>
    cases hhead
    obtain ⟨hfresh, -⟩ := List.nodup_cons.mp hnodup
    unfold touch
    rw [List.filter_cons_of_neg (by simp), List.filter_eq_self.mpr]
    intro k hk
    have hne : k ≠ key := fun heq => hfresh (heq ▸ hk)
    simpa using hne

omit [DecidableEq κ] in
/-- Each key has one time, so it stands in one place. -/
theorem Ordered.nodup (h : Ordered time keys) : keys.Nodup := by
  refine List.Pairwise.imp (fun {a b} hlt heq => ?_) h
  rw [heq] at hlt
  exact lt_irrefl _ hlt

omit [DecidableEq κ] in
/-- Keys may be left out. -/
theorem Ordered.sublist (h : Ordered time keys) (hsub : keys'.Sublist keys) : Ordered time keys' :=
  List.Pairwise.sublist hsub h

omit [DecidableEq κ] in
/-- Only the times of the keys in the list matter. -/
theorem Ordered.congr (h : Ordered time keys) (htime : ∀ k ∈ keys, time' k = time k) :
    Ordered time' keys := by
  refine List.Pairwise.imp_of_mem (fun {a b} ha hb hlt => ?_) h
  rw [htime a ha, htime b hb]
  exact hlt

omit [DecidableEq κ] in
/-- No two keys have the same time. -/
theorem Ordered.eq_of_time_eq (h : Ordered time keys) {a b : κ} (ha : a ∈ keys) (hb : b ∈ keys)
    (htime : time a = time b) : a = b := by
  have hne : keys.Pairwise fun a b => time a ≠ time b := by
    refine List.Pairwise.imp (fun {a b} hlt heq => ?_) h
    rw [heq] at hlt
    exact lt_irrefl _ hlt
  have : Std.Symm fun a b : κ => time a ≠ time b := ⟨fun _ _ h heq => h heq.symm⟩
  by_contra hdistinct
  exact hne.forall ha hb hdistinct htime

/-- A use that is later than all others keeps the order. -/
theorem Ordered.touch (h : Ordered time keys) (hlater : ∀ k ∈ keys, time k < now) :
    Ordered (Function.update time key now) (touch key keys) := by
  have hother : ∀ k ∈ keys.filter (· ≠ key), Function.update time key now k = time k := by
    intro k hk
    have hne : k ≠ key := by simpa using List.of_mem_filter hk
    exact Function.update_of_ne hne now time
  refine List.pairwise_cons.mpr ⟨fun k hk => ?_, (h.sublist List.filter_sublist).congr hother⟩
  rw [Function.update_self, hother k hk]
  exact hlater k (List.mem_of_mem_filter hk)

omit [DecidableEq κ] in
/-- The times determine the order of the keys. -/
theorem eq_of_ordered (hperm : keys.Perm keys') (h : Ordered time keys)
    (h' : Ordered time keys') : keys = keys' :=
  hperm.eq_of_pairwise (fun _ _ _ _ hab hba => absurd hba (lt_asymm hab)) h h'

end Recency
