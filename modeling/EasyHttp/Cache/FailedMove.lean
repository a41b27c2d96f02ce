import EasyHttp.Cache.FileUtilTheorems

/-!
# Moves that fail

`FileUtil::moveFile` removes an old file at the destination before it renames the source. Each of
its calls of `Poco::File` may fail.

* `spend`, `fault`: the failures to come, one for each call;
* `wp_exist_spent`, `wp_removeFileIfPresent_spent`: what is done and which call comes next;
* `RenameFailsAfterRemoval`: the old file is removed and the rename fails;
* `moveFile_false`: what a move leaves that returns false.
-/

namespace EasyHttp

open Exec

namespace Disk

/-- What befalls the call of the file system that comes after `i` others. -/
def fault (disk : Disk) (i : ℕ) : Fault := disk.faults.file.getD i .none

/-- After `n` calls of the file system. -/
def spend (disk : Disk) (n : ℕ) : Disk :=
  { disk with faults := { disk.faults with file := disk.faults.file.drop n } }

theorem file_spend (disk : Disk) (n : ℕ) : (disk.spend n).file = disk.file := rfl

/-- Answers of the file system are used up one after the other. -/
theorem spend_spend (disk : Disk) (n m : ℕ) : (disk.spend n).spend m = disk.spend (n + m) := by
  unfold spend
  rw [List.drop_drop]

/-- The next fault is that many further on. -/
theorem fault_spend (disk : Disk) (n i : ℕ) : (disk.spend n).fault i = disk.fault (n + i) := by
  show (disk.faults.file.drop n).getD i .none = disk.faults.file.getD (n + i) .none
  rw [List.getD_eq_getElem?_getD, List.getD_eq_getElem?_getD, List.getElem?_drop]

/-- A call fails when its fault says so, and changes nothing else. -/
theorem wp_fileCall_spent {disk : Disk} {message : String} {Q : Unit → Disk → Prop}
    {E : CacheException → Disk → Prop} : wp (fileCall message) Q E disk ↔
      if disk.fault 0 = .none then Q () (disk.spend 1)
      else E (.http (.poco message)) (disk.spend 1) := by
  have hspend : { disk with faults := { disk.faults with file := disk.faults.file.tail } } =
      disk.spend 1 := by
    rw [spend, List.drop_one]
  have hfault : disk.faults.file.headD .none = disk.fault 0 := by
    cases h : disk.faults.file <;> simp [fault, h]
  unfold fileCall
  rw [wp_bind, wp_getState, wp_bind, wp_modifyState, hspend, hfault]
  by_cases h : disk.fault 0 = .none
  · rw [if_neg (not_not.mpr h), if_pos h]
    exact Iff.rfl
  · rw [if_pos h, if_neg h]
    exact Iff.rfl

end Disk

open Disk

section
variable {s : Disk} {path source destination content : String}

/-- `exist` uses up one answer. -/
theorem wp_exist_spent {Q : Bool → Disk → Prop} {E : CacheException → Disk → Prop} :
    wp (File.exist path) Q E s ↔
      if s.fault 0 = .none then Q (s.file path).isSome (s.spend 1)
      else E (.http (.poco path)) (s.spend 1) := by
  unfold File.exist
  rw [wp_bind, wp_fileCall_spent]
  exact Iff.rfl

/-- The old file is gone, after the four calls of a removal, if the first three do not fail;
otherwise everything is as it was. -/
theorem wp_removeFileIfPresent_spent (hfile : s.file path = some content) :
    wp (FileUtil.removeFileIfPresent path)
      (fun _ t =>
        if s.fault 0 = .none ∧ s.fault 1 = .none ∧ s.fault 2 = .none then
          t.file = Function.update s.file path none ∧ ∀ i, t.fault i = s.fault (4 + i)
        else t.file = s.file)
      (fun _ _ => False) s := by
  -- a call that fails before the old file is gone ends the removal
  have hfails : ∀ n, ¬(s.fault 0 = .none ∧ s.fault 1 = .none ∧ s.fault 2 = .none) →
      (if s.fault 0 = .none ∧ s.fault 1 = .none ∧ s.fault 2 = .none then
        (s.spend n).file = Function.update s.file path none ∧
          ∀ i, (s.spend n).fault i = s.fault (4 + i)
      else (s.spend n).file = s.file) := by
    intro n h
    rw [if_neg h]
    rfl
  unfold FileUtil.removeFileIfPresent
  rw [wp_tryCatch, wp_bind, wp_exist_spent]
  -- the calls of the removal, one after the other
  by_cases h0 : s.fault 0 = .none
  swap
  · rw [if_neg h0]
    exact hfails 1 fun h => h0 h.1
  rw [if_pos h0, hfile]
  show wp (File.isFile path >>= _) _ _ _
  unfold File.isFile
  rw [wp_bind, wp_exist_spent, fault_spend, file_spend, spend_spend]
  by_cases h1 : s.fault 1 = .none
  swap
  · rw [if_neg h1]
    exact hfails 2 fun h => h1 h.2.1
  rw [if_pos h1, hfile]
  show wp (File.remove path >>= _) _ _ _
  unfold File.remove
  rw [wp_bind, wp_bind, wp_fileCall_spent, fault_spend, spend_spend]
  by_cases h2 : s.fault 2 = .none
  swap
  · rw [if_neg h2]
    exact hfails 3 fun h => h2 h.2.2
  -- none of the three has failed, so the file is found
  have hfound : (s.spend 3).files.find? path = some content := hfile
  rw [if_pos h2, wp_bind, wp_getState, hfound]
  dsimp only
  rw [wp_modifyState, wp_bind, wp_exist_spent]
  -- whatever the last call answers, the old file is gone
  let gone : Disk := { s.spend 3 with files := (s.spend 3).files.erase path }
  have hgone : if s.fault 0 = .none ∧ s.fault 1 = .none ∧ s.fault 2 = .none then
      (gone.spend 1).file = Function.update s.file path none ∧
        ∀ i, (gone.spend 1).fault i = s.fault (4 + i)
      else (gone.spend 1).file = s.file := by
    rw [if_pos ⟨h0, h1, h2⟩]
    refine ⟨SortedMap.find?_erase_eq _ _, fun i => ?_⟩
    rw [fault_spend]
    show (s.spend 3).fault (1 + i) = _
    rw [fault_spend, ← Nat.add_assoc]
  split
  · exact hgone
  · exact hgone

/-- The rename comes after all, and moves the file unless it fails. -/
theorem wp_renameTo_spent {Q : Bool → Disk → Prop} {E : CacheException → Disk → Prop}
    (hfile : s.file source = some content) :
    wp (Exec.tryCatch (do
        File.renameTo source destination
        return true)
      (catchPoco (return false))) Q E s ↔
      if s.fault 0 = .none then Q true { s.spend 1 with
        files := ((s.spend 1).files.erase source).set destination content }
      else Q false (s.spend 1) := by
  unfold File.renameTo
  have hfound : (s.spend 1).files.find? source = some content := hfile
  rw [wp_tryCatch, wp_bind, wp_bind, wp_fileCall_spent]
  by_cases h0 : s.fault 0 = .none
  · rw [if_pos h0, if_pos h0, wp_bind, wp_getState, hfound]
    exact Iff.rfl
  · rw [if_neg h0, if_neg h0]
    exact Iff.rfl

/-! ## The move -/

/-- There is an old file at the destination, and another file is moved there: after the three
checks the old file is removed, and then the rename fails. -/
def RenameFailsAfterRemoval (s : Disk) (source destination : String) : Prop :=
  (s.file source).isSome ∧ (s.file destination).isSome ∧ destination ≠ source ∧
    (∀ i < 6, s.fault i = .none) ∧ s.fault 7 ≠ .none

instance : Decidable (RenameFailsAfterRemoval s source destination) :=
  inferInstanceAs (Decidable (_ ∧ _ ∧ _ ∧ _ ∧ _))

/-- The source has its content, and the destination too unless it was removed. -/
def LeavesFiles (source destination : String) (s t : Disk) : Prop :=
  t.file source = s.file source ∧ t.file destination =
    if RenameFailsAfterRemoval s source destination then none else s.file destination

/-- Where `moveFile` fails, both files are left as the theorem says. -/
theorem wp_moveFile_spent (s : Disk) (source destination : String) :
    wp (FileUtil.moveFile source destination)
      (fun ret t => ret = false → LeavesFiles source destination s t) (fun _ _ => True) s := by
  -- as long as nothing has been removed, and nothing will have been
  have hsame : ∀ t : Disk, t.file = s.file → ¬RenameFailsAfterRemoval s source destination →
      LeavesFiles source destination s t := by
    intro t hfile h
    rw [LeavesFiles, if_neg h, hfile]
    exact ⟨rfl, rfl⟩
  unfold FileUtil.moveFile
  rw [wp_bind, wp_exist_spent]
  -- the calls in their order; the first that fails ends the move
  by_cases h0 : s.fault 0 = .none
  swap
  · rw [if_neg h0]
    trivial
  rw [if_pos h0]
  cases hsource : s.file source with
  | none =>
    refine fun _ => hsame _ rfl fun h => ?_
    rw [RenameFailsAfterRemoval, hsource] at h
    exact absurd h.1 Bool.false_ne_true
  | some content =>
    show wp (File.isFile source >>= _) _ _ _
    unfold File.isFile
    rw [wp_bind, wp_exist_spent, fault_spend, file_spend, spend_spend, hsource]
    by_cases h1 : s.fault 1 = .none
    swap
    · rw [if_neg h1]
      trivial
    rw [if_pos h1]
    show wp (File.exist destination >>= _) _ _ _
    rw [wp_bind, wp_exist_spent, fault_spend, file_spend, spend_spend]
    by_cases h2 : s.fault 2 = .none
    swap
    · rw [if_neg h2]
      trivial
    rw [if_pos h2]
    -- there is nothing to overwrite
    cases hdestination : s.file destination with
    | none =>
      show wp (Exec.tryCatch _ _) _ _ _
      rw [wp_renameTo_spent (s := s.spend 3) hsource]
      split
      · nofun
      · refine fun _ => hsame _ rfl fun h => ?_
        rw [RenameFailsAfterRemoval, hdestination] at h
        exact absurd h.2.1 Bool.false_ne_true
    | some old =>
      -- a file is not moved onto itself
      by_cases hne : destination = source
      · show wp (if destination = source then _ else _) _ _ _
        rw [if_pos hne]
        nofun
      show wp (if destination = source then _ else _) _ _ _
      rw [if_neg hne, wp_bind]
      refine wp_mono (wp_removeFileIfPresent_spent (s := s.spend 3) hdestination)
        (fun _ t ht => ?_) fun _ _ he => he.elim
      rw [fault_spend, fault_spend, fault_spend] at ht
      -- the old file has been removed, and the rename comes after it
      by_cases hcalls : s.fault 3 = .none ∧ s.fault 4 = .none ∧ s.fault 5 = .none
      · rw [if_pos hcalls] at ht
        obtain ⟨hfile, hfault⟩ := ht
        have hleft : t.file source = some content := by
          rw [hfile, Function.update_of_ne (Ne.symm hne)]
          exact hsource
        rw [wp_renameTo_spent hleft, hfault, fault_spend]
        by_cases h7 : s.fault 7 = .none
        · rw [if_pos h7]
          nofun
        · rw [if_neg h7]
          -- the old file is gone, and the new one does not come
          have hfails : RenameFailsAfterRemoval s source destination := by
            refine ⟨by rw [hsource]; rfl, by rw [hdestination]; rfl, hne, fun i hi => ?_, h7⟩
            obtain ⟨h3, h4, h5⟩ := hcalls
            match i, hi with
            | 0, _ => exact h0
            | 1, _ => exact h1
            | 2, _ => exact h2
            | 3, _ => exact h3
            | 4, _ => exact h4
            | 5, _ => exact h5
          intro _
          rw [LeavesFiles, if_pos hfails]
          refine ⟨hleft.trans hsource.symm, ?_⟩
          show t.file destination = none
          rw [hfile, Function.update_self]
      · rw [if_neg hcalls] at ht
        have hleft : t.file source = some content := by
          rw [ht]
          exact hsource
        rw [wp_renameTo_spent hleft]
        split
        · nofun
        · refine fun _ => hsame _ ht fun h => hcalls ?_
          obtain ⟨-, -, -, hnone, -⟩ := h
          exact ⟨hnone 3 (by decide), hnone 4 (by decide), hnone 5 (by decide)⟩

/-- **A failed move** leaves the source as it was, and the destination too unless the old file there
was removed before the rename failed; then the destination is absent. -/
theorem moveFile_false {t : Disk}
    (hmove : exec (FileUtil.moveFile source destination) s = (.ok false, t)) :
    t.file source = s.file source ∧ t.file destination =
      if RenameFailsAfterRemoval s source destination then none else s.file destination :=
  wp_ok (wp_moveFile_spent s source destination) hmove rfl

end

/-- A stored body, and the file that is to take its place; the eighth call fails. -/
def renameFails : Disk where
  files := ((SortedMap.empty.set "/cache/body" "old").set "/temp/body" "new")
  rows := SortedMap.empty
  nowAtEpoch := 0
  faults := { file := List.replicate 7 .none ++ [.fails] }

theorem exec_renameFails : exec (FileUtil.moveFile "/temp/body" "/cache/body") renameFails =
    (.ok false, (exec (FileUtil.moveFile "/temp/body" "/cache/body") renameFails).2) := by
  refine Prod.ext ?_ rfl
  decide +kernel

theorem moveFile_false_renameFails :
    (exec (FileUtil.moveFile "/temp/body" "/cache/body") renameFails).1 = .ok false ∧
      (exec (FileUtil.moveFile "/temp/body" "/cache/body") renameFails).2.file "/temp/body" =
        some "new" :=
  ⟨congrArg Prod.fst exec_renameFails,
    (moveFile_false exec_renameFails).1.trans (by decide +kernel)⟩

/-- The body that was stored is lost. -/
theorem not_keeps_renameFails : ¬∀ (s t : Disk) (source destination : String),
    exec (FileUtil.moveFile source destination) s = (.ok false, t) →
      t.file destination = s.file destination ∧
        ((s.file source).isSome → (t.file source).isSome) := by
  intro hkeeps
  have hlost : (exec (FileUtil.moveFile "/temp/body" "/cache/body") renameFails).2.file
      "/cache/body" = none := by decide +kernel
  have hold : renameFails.file "/cache/body" = some "old" := by decide +kernel
  have hsame := (hkeeps _ _ _ _ exec_renameFails).1
  rw [hlost, hold] at hsame
  cases hsame

end EasyHttp
