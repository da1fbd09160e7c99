import Mathlib.Data.List.GetD
import Mathlib.Tactic.IntervalCases
import Xv6.Image.Reading

/-!
# Link counts in the image

`create` counts a directory once for its entry in the parent and once for the `..` of
each of its sub-directories, and `sys_unlink` takes both back. `mkfs` counts every
inode once. The two agree on every inode but the root and `/home`, the directories
that `makedirs` makes others in.
-/

namespace Xv6

/-- The count that `create` and `sys_unlink` keep: for a directory one more than the
number of its sub-directories, for a file the number of the entries that name it. -/
noncomputable def Disk.linkCount (disk : Disk) (inum : Nat) : Nat :=
  if (disk.dinode inum).type = .dir then 1 + (disk.hierarchy.subdirectories scheme inum).ncard
  else {place : Nat × Nat | ∃ name, disk.hierarchy.entry place.1 place.2 = some (name, inum)}.ncard

namespace Mkfs

open Program Storage List

variable {files : List HostFile} {image : Image} {dir slot inum i : Nat} {name : Name}

/-! ## The entries of the image -/

/-- An entry is one of `makedirs` or that of a file. -/
theorem entries_cases (found : (entries files dir)[slot]? = some (inum, name)) :
    (made dir)[slot]? = some (inum, name) ∨
      ∃ k, ∃ below : k < files.length, inum = k + 7 ∧ (target layout files[k].argv).2 = dir := by
  unfold entries at found
  rw [List.getElem?_append] at found
  split at found
  · exact .inl found
  · obtain ⟨⟨file, number⟩, member, chosen⟩ := mem_filterMap.mp (mem_of_getElem? found)
    obtain ⟨beyond, file_eq⟩ := mk_mem_zipIdx_iff_le_and_getElem?_sub.mp member
    obtain ⟨below, rfl⟩ := List.getElem?_eq_some_iff.mp file_eq
    simp only [Option.ite_none_right_eq_some, Option.some.injEq, Prod.mk.injEq] at chosen
    obtain ⟨here, rfl, _⟩ := chosen
    exact .inr ⟨number - 7, below, by omega, here⟩

/-- The entries of `makedirs` name directories. -/
theorem made_bounds (low : 1 ≤ dir) (high : dir ≤ 6) :
    ∀ entry ∈ made dir, 1 ≤ entry.1 ∧ entry.1 ≤ 6 := by
  interval_cases dir <;> decide

theorem entries_bounds (low : 1 ≤ dir) (high : dir ≤ 6)
    (found : (entries files dir)[slot]? = some (inum, name)) :
    1 ≤ inum ∧ inum < files.length + 7 := by
  rcases entries_cases found with old | ⟨k, below, rfl, _⟩
  · have bounds := made_bounds low high _ (mem_of_getElem? old)
    omega
  · omega

/-- The directories of the image. -/
theorem Built.directory_iff (built : Built files image) (inum : Nat) :
    (image.disk.dinode inum).type = .dir ↔ 1 ≤ inum ∧ inum ≤ 6 := by
  by_cases outside : inum = 0 ∨ (tree files).length < inum
  · rw [built.blank inum outside]
    rw [length_tree] at outside
    refine iff_of_false (by simp [Dinode.fresh]) (by omega)
  · obtain ⟨i, rfl⟩ : ∃ i, inum = i + 1 := Nat.exists_eq_add_one.mpr (by omega)
    by_cases low : i < 6
    · rw [(built.each (getElem?_tree files low)).type]
      exact iff_of_true rfl (by omega)
    · rw [length_tree] at outside
      obtain ⟨k, rfl⟩ := Nat.exists_eq_add_of_le' (not_lt.mp low)
      rw [(built.each (getElem?_tree_file (by omega))).type]
      exact iff_of_false (by simp [Node.type]) (by omega)

/-- The entries that the kernel sees. -/
theorem Built.entry_iff (built : Built files image) (fits : files.length + 6 < NINODES) :
    image.disk.hierarchy.entry dir slot = some (name, inum) ↔ (1 ≤ dir ∧ dir ≤ 6) ∧
      ∃ short, (entries files dir)[slot]? = some (inum, short) ∧ canonical short = name := by
  by_cases directory : 1 ≤ dir ∧ dir ≤ 6
  · obtain ⟨low, high⟩ := directory
    obtain ⟨i, rfl⟩ := Nat.exists_eq_add_of_le' low
    have below : i < 6 := Nat.lt_of_succ_le high
    rw [hierarchy_entry ((built.directory_iff _).mpr ⟨low, high⟩), named_eq_some]
    cases found : (entries files (i + 1))[slot]? with
    | none =>
      have unused : (image.disk.entry (i + 1) slot).inum = 0 := by
        refine entry_past ?_
        have length_eq := length_content_disk image.disk (i + 1)
        rw [(built.each (getElem?_tree files below)).content, Node.content, length_table] at length_eq
        rw [← length_eq]
        exact Nat.mul_le_mul_left _ (List.getElem?_eq_none_iff.mp found)
      rw [unused]
      refine iff_of_false (fun used => used.2.1 used.1.symm) ?_
      rintro ⟨_, _, absent, _⟩
      cases absent
    | some entry =>
      obtain ⟨number, short⟩ := entry
      obtain ⟨inum_eq, name_eq⟩ := built.entry below found
      have bounds := entries_bounds low high found
      have small : number % 2 ^ 16 = number := by
        change files.length + 6 < 200 at fits
        omega
      rw [inum_eq, name_eq, small]
      constructor
      · rintro ⟨rfl, _, rfl⟩
        exact ⟨⟨low, high⟩, short, rfl, rfl⟩
      · rintro ⟨_, short', same, rfl⟩
        cases same
        exact ⟨rfl, by omega, rfl⟩
  · refine iff_of_false (fun entry_eq => directory ?_) fun both => directory both.1
    exact (built.directory_iff dir).mp (Hierarchy.directory_of_some entry_eq)

/-! ## Directories -/

/-- The slots of a directory that `makedirs` makes others in. -/
def below (dir : Nat) : Finset Nat :=
  (Finset.range (made dir).length).filter fun slot =>
    canonical ((made dir).getD slot (0, [])).2 ≠ canonical DOT ∧
      canonical ((made dir).getD slot (0, [])).2 ≠ canonical DOTDOT

theorem Built.subdirectories (built : Built files image) (fits : files.length + 6 < NINODES)
    (low : 1 ≤ dir) (high : dir ≤ 6) :
    image.disk.hierarchy.subdirectories scheme dir = below dir := by
  ext slot
  have member : slot ∈ below dir ↔ ∃ inum short, (made dir)[slot]? = some (inum, short) ∧
      scheme.Plain (canonical short) := by
    unfold below
    rw [Finset.mem_filter, Finset.mem_range]
    constructor
    · rintro ⟨inside, plain⟩
      rw [getD_eq_getElem _ _ inside] at plain
      exact ⟨_, _, List.getElem?_eq_getElem inside, plain⟩
    · rintro ⟨inum, short, found, plain⟩
      obtain ⟨inside, entry_eq⟩ := List.getElem?_eq_some_iff.mp found
      rw [getD_eq_getElem _ _ inside, entry_eq]
      exact ⟨inside, plain⟩
  rw [Finset.mem_coe, member]
  constructor
  · rintro ⟨inum, ⟨name, entry_eq, plain⟩, directory⟩
    obtain ⟨_, short, found, rfl⟩ := (built.entry_iff fits).mp entry_eq
    have bounds := (built.directory_iff inum).mp directory
    rcases entries_cases found with old | ⟨k, _, rfl, _⟩
    · exact ⟨inum, short, old, plain⟩
    · omega
  · rintro ⟨inum, short, found, plain⟩
    have bounds := made_bounds low high _ (mem_of_getElem? found)
    have found' : (entries files dir)[slot]? = some (inum, short) := by
      have inside := (List.getElem?_eq_some_iff.mp found).1
      exact (List.getElem?_append_left inside).trans found
    exact ⟨inum, ⟨canonical short, (built.entry_iff fits).mpr ⟨⟨low, high⟩, short, found', rfl⟩, plain⟩,
      (built.directory_iff inum).mpr bounds⟩

/-- The root has four of them, and `/home` has one. -/
theorem card_below (low : 1 ≤ dir) (high : dir ≤ 6) :
    (below dir).card = if dir = layout.rootino then 4 else if dir = layout.homeino then 1 else 0 := by
  interval_cases dir <;> decide

/-! ## Files -/

/-- The numbers of the files in a directory are all different. -/
theorem nodup_files (files : List HostFile) (dir : Nat) :
    (((files.zipIdx 7).filterMap fun (file, inum) =>
      if (target layout file.argv).2 = dir then some (inum, (target layout file.argv).1)
      else none).map Prod.fst).Nodup := by
  have numbers : ((files.zipIdx 7).map Prod.snd).Nodup := by
    rw [zipIdx_map_snd]
    exact nodup_range'
  unfold List.Nodup at numbers ⊢
  rw [pairwise_map] at numbers ⊢
  rw [pairwise_filterMap]
  refine numbers.imp fun {file file'} different entry chosen entry' chosen' => ?_
  simp only [Option.ite_none_right_eq_some, Option.some.injEq] at chosen chosen'
  rw [← chosen.2, ← chosen'.2]
  exact different

/-- A file is named once. -/
theorem entries_once {slot' : Nat} {name' : Name} (beyond : 7 ≤ inum) (low : 1 ≤ dir) (high : dir ≤ 6)
    (found : (entries files dir)[slot]? = some (inum, name))
    (found' : (entries files dir)[slot']? = some (inum, name')) : slot' = slot := by
  have behind : ∀ {slot : Nat} {name : Name}, (entries files dir)[slot]? = some (inum, name) →
      (made dir).length ≤ slot ∧ ((files.zipIdx 7).filterMap fun (file, inum) =>
        if (target layout file.argv).2 = dir then some (inum, (target layout file.argv).1)
        else none)[slot - (made dir).length]? = some (inum, name) := by
    intro slot name found
    unfold entries at found
    rw [List.getElem?_append] at found
    split at found
    · have bounds := made_bounds low high _ (mem_of_getElem? found)
      omega
    · rename_i past
      exact ⟨not_lt.mp past, found⟩
  obtain ⟨past, here⟩ := behind found
  obtain ⟨past', here'⟩ := behind found'
  have first := congrArg (Option.map Prod.fst) here
  have second := congrArg (Option.map Prod.fst) here'
  rw [← List.getElem?_map] at first second
  have inside := (List.getElem?_eq_some_iff.mp second).1
  have same := (List.getElem?_inj inside (nodup_files files dir)).mp (second.trans first.symm)
  omega

theorem Built.places (built : Built files image) (fits : files.length + 6 < NINODES) {k : Nat}
    (below : k < files.length) :
    {place : Nat × Nat | ∃ name,
      image.disk.hierarchy.entry place.1 place.2 = some (name, k + 7)}.ncard = 1 := by
  obtain ⟨slot, entry_eq⟩ := mem_iff_getElem?.mp (mem_entries below)
  have cases_of := target_cases files[k].argv
  rw [Set.ncard_eq_one]
  refine ⟨((target layout files[k].argv).2, slot), Set.eq_singleton_iff_unique_mem.mpr ⟨?_, ?_⟩⟩
  · exact ⟨_, (built.entry_iff fits).mpr ⟨by omega, _, entry_eq, rfl⟩⟩
  · rintro ⟨dir, slot'⟩ ⟨name, named⟩
    obtain ⟨⟨low, high⟩, short, found, _⟩ := (built.entry_iff fits).mp named
    change (entries files dir)[slot']? = some (k + 7, short) at found
    have here : (target layout files[k].argv).2 = dir := by
      rcases entries_cases found with old | ⟨k', _, same, here⟩
      · have bounds := made_bounds low high _ (mem_of_getElem? old)
        omega
      · obtain rfl : k' = k := by omega
        exact here
    subst here
    exact Prod.ext rfl (entries_once (by omega) low high entry_eq found)

/-! ## The counts -/

/-- `/home/root`. -/
def homeRoot : Path := [47, 104, 111, 109, 101, 47, 114, 111, 111, 116]

/-- `/dev`. -/
def slashDev : Path := [47, 100, 101, 118]

/-- `/bin`. -/
def slashBin : Path := [47, 98, 105, 110]

end Mkfs

end Xv6
