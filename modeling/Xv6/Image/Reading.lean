import Mathlib.Data.List.TakeWhile
import Xv6.Image.Files
import Xv6.Names.Directory

/-!
# Reading the image with the kernel

Every node of the image is a file without holes, on a disk whose blocks are owned,
so `readi` finds its bytes. An entry of a directory is sixteen of them.
-/

namespace Xv6.Mkfs

open Program Storage List

/-- Whatever else is in the kernel, `readi` finds these bytes once the inode is in the
cache. -/
def Reads (disk : Disk) (inum : Nat) (bytes : List Byte) : Prop :=
  ∀ (kernel : Kernel) (ip : InodePtr) (off n : UInt32), kernel.disk = disk →
    (kernel.icache ip).inum = inum → (kernel.icache ip).toDinode = disk.dinode inum →
      Sat (readi ip off n) kernel
        (fun result after => result = readBytes bytes off n ∧ after.store = kernel.store)
        fun _ _ => False

variable {files : List HostFile} {image : Image} {i : Nat} {node : Node}

theorem Node.notDev (node : Node) : node.type ≠ .dev := by
  cases node <;> simp [Node.type]

/-- A node is read as what it contains. -/
theorem Built.reads (built : Built files image) (found : (tree files)[i]? = some node) :
    Reads image.disk (i + 1) node.content := by
  intro kernel ip off n disk_eq inum_eq dinode_eq
  obtain ⟨type_eq, _, content_eq⟩ := built.each found
  -- the cache agrees with the disk
  have flushed_eq : kernel.store.flushed ip = image.disk := by
    change kernel.disk.setDinode (kernel.icache ip).inum (kernel.icache ip).toDinode = image.disk
    rw [inum_eq, dinode_eq, disk_eq]
    exact congrArg (fun dinode => { image.disk with dinode }) (Function.update_eq_self _ _)
  have file_eq : kernel.store.file ip = image.disk.file (i + 1) := by
    unfold Store.file
    rw [flushed_eq]
    exact congrArg image.disk.file inum_eq
  have size_eq : (kernel.store.icache ip).size = (image.disk.dinode (i + 1)).size :=
    congrArg Dinode.size dinode_eq
  have content_eq' : kernel.store.content ip = node.content := by
    rw [← content_eq]
    unfold Store.content Disk.content
    rw [file_eq, size_eq]
  have notDev : (kernel.store.icache ip).type ≠ .dev := by
    have same : (kernel.store.icache ip).type = node.type :=
      (congrArg Dinode.type dinode_eq).trans type_eq
    rw [same]
    exact node.notDev
  have filled : Filled kernel.store ip := by
    intro bn below
    rw [size_eq] at below
    rw [file_eq]
    exact built.filled (i + 1) bn below
  have reading := @stores_readi (fun _ => False) kernel.store ip notDev filled off n kernel rfl
  rw [content_eq'] at reading
  exact reading.weaken fun result after found => ⟨found.2, found.1⟩

/-! ## Entries -/

theorem length_direntBytes (entry : Nat × Name) : (direntBytes entry).length = DIRENT := by
  simp [direntBytes]

theorem length_table (table : List (Nat × Name)) :
    (table.flatMap direntBytes).length = DIRENT * table.length := by
  induction table with
  | nil => rfl
  | cons first rest ih =>
    rw [flatMap_cons, length_append, length_direntBytes, ih,
      length_cons, Nat.mul_succ, Nat.add_comm]

/-- A table is cut where its entries are. -/
theorem table_slice {table : List (Nat × Name)} {slot : Nat} {entry : Nat × Name}
    (found : table[slot]? = some entry) :
    ((table.flatMap direntBytes).drop (DIRENT * slot)).take DIRENT = direntBytes entry := by
  induction table generalizing slot with
  | nil => cases found
  | cons first rest ih =>
    rw [flatMap_cons]
    cases slot with
    | zero =>
      obtain rfl : first = entry := Option.some.inj found
      rw [Nat.mul_zero, drop_zero, take_left' (length_direntBytes first)]
    | succ slot =>
      have split : DIRENT * (slot + 1) = (direntBytes first).length + DIRENT * slot := by
        rw [length_direntBytes]
        exact (Nat.mul_succ _ _).trans (Nat.add_comm _ _)
      rw [split, drop_append, drop_eq_nil_of_le (Nat.le_add_right _ _), nil_append,
        Nat.add_sub_cancel_left]
      exact ih found

/-- The entries of a directory, as the kernel decodes them. -/
theorem Built.entry (built : Built files image) (below : i < 6) {slot inum : Nat} {name : Name}
    (found : (entries files (i + 1))[slot]? = some (inum, name)) :
    (image.disk.entry (i + 1) slot).inum = inum % 2 ^ 16 ∧
      canonical (image.disk.entry (i + 1) slot).name = canonical name := by
  have content_eq := (built.each (getElem?_tree files below)).content
  have entry_eq : image.disk.entry (i + 1) slot = .decode (direntBytes (inum, name)) := by
    unfold Disk.entry
    rw [content_eq]
    exact congrArg Dirent.decode (table_slice found)
  rw [entry_eq]
  exact ⟨decode_encode_inum inum name, decode_encode_name inum name⟩

/-- A file has an entry in the directory it goes to. -/
theorem mem_entries {k : Nat} (below : k < files.length) :
    (k + 7, (target layout files[k].argv).1) ∈ entries files (target layout files[k].argv).2 := by
  refine mem_append_right _ (mem_filterMap.mpr ⟨(files[k], k + 7), ?_, by simp⟩)
  rw [mk_mem_zipIdx_iff_le_and_getElem?_sub]
  exact ⟨Nat.le_add_left _ _, by simp [below]⟩

/-- A name in the image has no end inside. -/
theorem target_terminated (file : HostFile) : 0 ∉ (target layout file.argv).1 := by
  have stripped_sub : stripped file.argv ⊆ file.argv := by
    unfold stripped
    split
    · exact drop_subset _ _
    · exact List.Subset.refl _
  unfold target
  split
  · exact fun inside => file.terminated (stripped_sub (mem_of_mem_tail inside))
  · split
    · exact fun inside => file.terminated (stripped_sub inside)
    · exact fun inside => file.terminated (stripped_sub inside)

theorem canonical_of_terminated {name : Name} (terminated : 0 ∉ name) :
    canonical name = name.take DIRSIZ := by
  unfold canonical
  rw [takeWhile_eq_self_iff]
  intro byte inside
  refine decide_eq_true fun zero => terminated ?_
  rw [← zero]
  exact mem_of_mem_take inside

/-- The first entry with a name is the one that `dirlookup` finds. -/
theorem seek_first {disk : Disk} {dir slot : Nat} {name : Name}
    (inUse : (disk.entry dir slot).inum ≠ 0)
    (named : canonical (disk.entry dir slot).name = canonical name)
    (first : ∀ slot' < slot, canonical (disk.entry dir slot').name ≠ canonical name) :
    disk.seek dir name = some slot := by
  have holds : disk.holds dir name slot = true :=
    decide_eq_true ⟨inUse, (namecmp_eq_zero _ _).mpr named.symm⟩
  unfold Disk.seek
  rw [List.find?_range_eq_some]
  refine ⟨holds, mem_range.mpr (slot_lt inUse), fun slot' below => ?_⟩
  rw [Bool.not_eq_true', Bool.eq_false_iff]
  intro holds'
  exact first slot' below ((namecmp_eq_zero _ _).mp (of_decide_eq_true holds').2).symm

/-! ## The image -/

/-- If `mkfs` succeeds, the kernel reads in the image each directory with its entries
and each file with its bytes; the file is named in the directory it was meant for,
and found there unless an earlier entry has the same name. No block is used twice,
and the bitmap marks the blocks that were given out: the metadata and what is used. -/
theorem image_holds_files (files : List HostFile) (image : Image)
    (run : main files .initial = .ok () image) (fits : files.length + 6 < NINODES) :
    (∀ dir, 1 ≤ dir → dir ≤ 6 → Reads image.disk dir ((entries files dir).flatMap direntBytes)) ∧
    (∀ (k : Nat) (below : k < files.length),
      Reads image.disk (k + 7) files[k].bytes ∧
      ∃ slot, (image.disk.entry (target layout files[k].argv).2 slot).inum = k + 7 ∧
        canonical (image.disk.entry (target layout files[k].argv).2 slot).name =
          (target layout files[k].argv).1.take DIRSIZ ∧
        ((∀ slot' < slot, canonical (image.disk.entry (target layout files[k].argv).2 slot').name ≠
            (target layout files[k].argv).1.take DIRSIZ) →
          image.disk.seek (target layout files[k].argv).2 (target layout files[k].argv).1 =
            some slot)) ∧
    (∀ place place' : Place, image.disk.points place ≠ 0 →
      image.disk.points place' = image.disk.points place → place' = place) ∧
    (∀ b, image.disk.bitmap b = true ↔ b < image.freeblock) ∧
    ∀ b, b < image.freeblock ↔ b < nmeta ∨ ∃ place, image.disk.points place = b := by
  have built : Built files image := holds_initial.built run
  have owned : image.disk.Owned superblock := by
    rw [built.bitmap]
    exact built.owned
  have marked : ∀ b, image.disk.bitmap b = true ↔ b < image.freeblock := by
    intro b
    rw [built.bitmap]
    exact decide_eq_true_iff
  refine ⟨fun dir low high => ?_, fun k below => ?_, owned.once, marked, fun b => ?_⟩
  · obtain ⟨i, rfl⟩ := Nat.exists_eq_add_of_le' low
    exact built.reads (getElem?_tree files (Nat.lt_of_succ_le high))
  · refine ⟨built.reads (getElem?_tree_file below), ?_⟩
    obtain ⟨slot, entry_eq⟩ := mem_iff_getElem?.mp (mem_entries below)
    obtain ⟨i, here⟩ : ∃ i, (target layout files[k].argv).2 = i + 1 ∧ i < 6 := by
      have cases_of := target_cases files[k].argv
      exact ⟨(target layout files[k].argv).2 - 1, by omega, by omega⟩
    have canonical_eq := canonical_of_terminated (target_terminated files[k])
    rw [← canonical_eq, here.1]
    rw [here.1] at entry_eq
    obtain ⟨inum_eq, name_eq⟩ := built.entry here.2 entry_eq
    have small : (k + 7) % 2 ^ 16 = k + 7 := by
      change files.length + 6 < 200 at fits
      omega
    rw [small] at inum_eq
    exact ⟨slot, inum_eq, name_eq, seek_first (by omega) name_eq⟩
  · rw [← marked b]
    by_cases inDisk : b < FSSIZE
    · rw [owned.marked b inDisk]
      constructor
      · rintro (reserved | ⟨_, place, points_eq⟩)
        · exact .inl reserved
        · exact .inr ⟨place, points_eq⟩
      · rintro (reserved | ⟨place, points_eq⟩)
        · exact .inl reserved
        · by_cases zero : b = 0
          · subst zero
            exact .inl (by decide)
          · exact .inr ⟨zero, place, points_eq⟩
    · have outside : ¬image.disk.bitmap b = true := by
        rw [marked b]
        have within := built.within
        omega
      refine iff_of_false outside ?_
      rintro (reserved | ⟨place, points_eq⟩)
      · exact inDisk (reserved.trans (by decide))
      · have some : image.disk.points place ≠ 0 := by
          rw [points_eq]
          rintro rfl
          exact inDisk (by decide)
        rw [← points_eq] at inDisk
        exact inDisk (owned.within place some).1

/-- `user/_ls`, of 600 bytes, and `passwd`. -/
def twoFiles : List HostFile :=
  [{ argv := [117, 115, 101, 114, 47, 95, 108, 115], terminated := by decide,
     reads := some [List.replicate 512 1, List.replicate 88 2],
     bounded := by decide +kernel },
   { argv := PASSWD, terminated := by decide, reads := some [[114, 58, 10]], bounded := by decide }]

theorem image_holds_files_two : ∃ image, main twoFiles .initial = .ok () image ∧
    Reads image.disk 7 (List.replicate 512 1 ++ List.replicate 88 2) ∧
    Reads image.disk 8 [114, 58, 10] ∧
    (∃ slot, (image.disk.entry 3 slot).inum = 7 ∧
      canonical (image.disk.entry 3 slot).name = [108, 115]) ∧
    ∃ slot, (image.disk.entry 6 slot).inum = 8 ∧
      canonical (image.disk.entry 6 slot).name = PASSWD := by
  have evaluated : (outcome (main twoFiles) .initial).any (fun _ => true) = true := by decide +kernel
  obtain ⟨_, image, run, _⟩ := exists_of_outcome evaluated
  obtain ⟨_, held, _⟩ := image_holds_files twoFiles image run (by decide)
  obtain ⟨ls, lsSlot, lsInum, lsName, _⟩ := held 0 (by decide)
  obtain ⟨passwd, passwdSlot, passwdInum, passwdName, _⟩ := held 1 (by decide)
  exact ⟨image, run, ls, passwd, ⟨lsSlot, lsInum, lsName⟩, passwdSlot, passwdInum, passwdName⟩

end Xv6.Mkfs
