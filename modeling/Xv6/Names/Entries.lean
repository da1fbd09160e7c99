import Xv6.Std.Hierarchy
import Xv6.Storage.Inodes

/-!
# Directories as tables of names

A directory is a file of fixed-size entries, read and written one at a time. What
the kernel reads in it is a hierarchy: the nodes are inode numbers, the names are
compared as `namecmp` compares them, and an entry with the inode number zero is
unused. Each change that the functions of `fs.c` make to the disk is one of the
changes of a hierarchy.
-/

namespace Xv6

open List

/-! ## Names -/

/-- A name up to its end: what `namecmp` looks at. -/
def canonical (name : List Byte) : Name := (name.take DIRSIZ).takeWhile (· ≠ 0)

theorem toNat_sub_eq_zero (a b : Byte) : ((a.toNat : Int) - b.toNat = 0) ↔ a = b := by
  rw [sub_eq_zero, Int.natCast_inj, UInt8.toNat_inj]

theorem strncmp_eq_zero (p q : List Byte) (n : Nat) :
    strncmp p q n = 0 ↔ (p.take n).takeWhile (· ≠ 0) = (q.take n).takeWhile (· ≠ 0) := by
  induction n generalizing p q with
  | zero => simp [strncmp]
  | succ n ih =>
    -- a list that has ended reads as zero
    cases p with
    | nil =>
      cases q with
      | nil => simp [strncmp]
      | cons b q =>
        by_cases stop : b = 0
        · simp [strncmp, stop]
        · have differ := mt (toNat_sub_eq_zero 0 b).mp (Ne.symm stop)
          simpa [strncmp, stop] using differ
    | cons a p =>
      by_cases stop : a = 0
      · cases q with
        | nil => simp [strncmp, stop]
        | cons b q =>
          by_cases stop' : b = 0
          · simp [strncmp, stop, stop']
          · have differ := mt (toNat_sub_eq_zero 0 b).mp (Ne.symm stop')
            simpa [strncmp, stop, stop'] using differ
      · cases q with
        | nil =>
          have differ := mt (toNat_sub_eq_zero a 0).mp stop
          simpa [strncmp, stop] using differ
        | cons b q =>
          by_cases same : a = b
          · subst same
            simpa [strncmp, stop] using ih p q
          · have differ := mt (toNat_sub_eq_zero a b).mp same
            by_cases stop' : b = 0
            · simpa [strncmp, stop, same, stop'] using differ
            · simpa [strncmp, stop, same, stop'] using differ

theorem namecmp_eq_zero (s t : List Byte) : namecmp s t = 0 ↔ canonical s = canonical t :=
  strncmp_eq_zero s t DIRSIZ

/-- Padding a name with zeros makes no difference. -/
theorem takeWhile_padded (name : List Byte) (n : Nat) :
    ((List.range n).map fun i => name.getD i 0).takeWhile (· ≠ 0) =
      (name.take n).takeWhile (· ≠ 0) := by
  induction n generalizing name with
  | zero => rfl
  | succ n ih =>
    have first : (List.range (n + 1)).map (fun i => name.getD i 0) =
        name.getD 0 0 :: (List.range n).map fun i => name.tail.getD i 0 := by
      rw [range_succ_eq_map, map_cons, map_map]
      cases name <;> rfl
    rw [first]
    cases name with
    | nil => simp
    | cons byte rest =>
      by_cases stop : byte = 0
      · simp [stop]
      · simpa [stop] using ih rest

theorem canonical_take (name : List Byte) : canonical (name.take DIRSIZ) = canonical name := by
  unfold canonical
  rw [take_take, Nat.min_self]

/-! ## The bytes of an entry -/

/-- The entry that `dirlink` writes is read back with the number cut to 16 bits. -/
theorem decode_encode_inum (inum : Nat) (name : Name) :
    (Dirent.decode ((List.range DIRENT).map (Dirent.encode inum name))).inum = inum % 2 ^ 16 := by
  change (Words.byteAt inum 0).toNat + 256 * (Words.byteAt inum 1).toNat = inum % 2 ^ 16
  rw [Words.toNat_byteAt, Words.toNat_byteAt]
  omega

theorem decode_encode_name (inum : Nat) (name : Name) :
    canonical (Dirent.decode ((List.range DIRENT).map (Dirent.encode inum name))).name =
      canonical name := by
  have name_eq : (Dirent.decode ((List.range DIRENT).map (Dirent.encode inum name))).name =
      (List.range DIRSIZ).map fun i => name.getD i 0 := rfl
  unfold canonical
  rw [name_eq, ← takeWhile_padded name DIRSIZ, take_of_length_le (by simp)]

/-- A cleared entry is unused. -/
theorem decode_zero_inum : (Dirent.decode ((List.range DIRENT).map fun _ => 0)).inum = 0 := rfl

namespace Disk

variable (disk : Disk)

/-- The entry of a directory in a slot. Past the end there is an unused one. -/
def entry (inum slot : Nat) : Dirent :=
  .decode (((disk.content inum).drop (DIRENT * slot)).take DIRENT)

/-- The slots of a directory. -/
def slots (inum : Nat) : Nat := ((disk.dinode inum).size.toNat + (DIRENT - 1)) / DIRENT

end Disk

namespace Storage

variable {disk before after : Disk} {inum slot : Nat}

theorem length_content_disk (disk : Disk) (inum : Nat) :
    (disk.content inum).length = (disk.dinode inum).size.toNat :=
  Sparse.length_content _

theorem entry_past (past : (disk.dinode inum).size.toNat ≤ DIRENT * slot) :
    (disk.entry inum slot).inum = 0 := by
  unfold Disk.entry
  rw [drop_eq_nil_of_le (by rw [length_content_disk]; exact past)]
  rfl

/-- A slot in use is one of those that the loops visit. -/
theorem slot_lt (inUse : (disk.entry inum slot).inum ≠ 0) : slot < disk.slots inum := by
  by_contra beyond
  refine inUse (entry_past ?_)
  have bound := not_lt.mp beyond
  unfold Disk.slots at bound
  change ((disk.dinode inum).size.toNat + 15) / 16 ≤ slot at bound
  change (disk.dinode inum).size.toNat ≤ 16 * slot
  omega

/-- What an overwritten range leaves in front of it. -/
theorem slice_before {content : List Byte} {bytes : List Byte} {off start n : Nat}
    (inside : off ≤ content.length) (earlier : start + n ≤ off) (m : Nat) :
    ((content.take off ++ bytes ++ content.drop m).drop start).take n =
      (content.drop start).take n := by
  rw [append_assoc, drop_append_of_le_length (by simp; omega),
    take_append_of_le_length (by simp; omega), drop_take, take_take]
  congr 1
  omega

/-- And behind it. -/
theorem slice_after {content : List Byte} {bytes : List Byte} {off start : Nat}
    (inside : off ≤ content.length) (later : off + bytes.length ≤ start) :
    (content.take off ++ bytes ++ content.drop (off + bytes.length)).drop start =
      content.drop start := by
  have length_eq : (content.take off ++ bytes).length = off + bytes.length := by
    simp
    omega
  rw [drop_append, length_eq, drop_drop, drop_eq_nil_of_le (by omega), nil_append]
  congr 1
  omega

/-- An entry is overwritten, and no other. -/
theorem Overwrites.entry {src : Nat → Byte}
    (overwrites : Overwrites inum src (DIRENT * slot) DIRENT before after)
    (inside : DIRENT * slot ≤ (before.dinode inum).size.toNat) (slot' : Nat) :
    after.entry inum slot' =
      if slot' = slot then .decode ((List.range DIRENT).map src) else before.entry inum slot' := by
  have length_eq : ((List.range DIRENT).map src).length = DIRENT := by simp
  rw [← length_content_disk] at inside
  unfold Disk.entry
  rw [overwrites.content]
  split
  · rename_i same
    subst same
    have front : ((before.content inum).take (DIRENT * slot')).length = DIRENT * slot' := by
      simp
      omega
    rw [append_assoc, drop_append_of_le_length (by omega),
      drop_eq_nil_of_le (by omega), nil_append,
      take_append_of_le_length (by omega), take_of_length_le (by omega)]
  · rename_i other
    congr 1
    rcases Nat.lt_or_gt_of_ne other with earlier | later
    · refine slice_before inside ?_ _
      change 16 * slot' + 16 ≤ 16 * slot
      omega
    · have behind := @slice_after (before.content inum) ((List.range DIRENT).map src)
        (DIRENT * slot) (DIRENT * slot') inside (by
          rw [length_eq]
          change 16 * slot + 16 ≤ 16 * slot'
          omega)
      rw [length_eq] at behind
      rw [behind]

end Storage

/-! ## The hierarchy -/

/-- The root inode, and the names by which a directory refers to itself and to its
parent. -/
def scheme : Scheme Nat Name where
  root := ROOTINO
  self := canonical DOT
  parent := canonical DOTDOT
  different := by decide

/-- What an entry says, if it is in use. -/
def Dirent.named (de : Dirent) : Option (Name × Nat) :=
  if de.inum = 0 then none else some (canonical de.name, de.inum)

/-- The inodes of a disk and the entries of its directories. -/
def Disk.hierarchy (disk : Disk) : Hierarchy Nat Name where
  used inum := (disk.dinode inum).type ≠ .free
  directory inum := (disk.dinode inum).type = .dir
  links inum := (disk.dinode inum).nlink.toInt
  entry inum slot := if (disk.dinode inum).type = .dir then (disk.entry inum slot).named else none
  used_of_directory {inum} directory := by
    rw [directory]
    decide
  directory_of_entry {inum slot} inUse := by
    by_contra other
    exact inUse (if_neg other)

namespace Storage

variable {disk before after : Disk} {inum slot : Nat}

theorem hierarchy_entry (directory : (disk.dinode inum).type = .dir) (slot : Nat) :
    disk.hierarchy.entry inum slot = (disk.entry inum slot).named :=
  if_pos directory

theorem named_eq_some {de : Dirent} {name : Name} : de.named = some (name, inum) ↔
    de.inum = inum ∧ inum ≠ 0 ∧ canonical de.name = name := by
  unfold Dirent.named
  split
  · rename_i unused
    refine ⟨fun absurdity => (nomatch absurdity), fun present => ?_⟩
    exact absurd (present.1.symm.trans unused) present.2.1
  · rename_i inUse
    rw [Option.some.injEq, Prod.mk.injEq]
    constructor
    · rintro ⟨rfl, rfl⟩
      exact ⟨rfl, inUse, rfl⟩
    · rintro ⟨rfl, _, rfl⟩
      exact ⟨rfl, rfl⟩

end Storage

end Xv6
