import Xv6.Kernel.Sysfile

/-!
# The state in which init makes its first system call

`userinit` has made one process, with the root as its current directory; every
other table entry still has the zeros it was loaded with. The disk has the
layout `mkfs` computes, with one directory block and what a caller adds to it.
-/

namespace Xv6

/-- The superblock that `mkfs` writes. -/
def mkfsSuperblock : Superblock :=
  { size := FSSIZE, sizeFits := by decide, nblocks := 1916, ninodes := 200, nlog := LOGSIZE,
    logstart := 2, inodestart := 32, bmapstart := 83 }

/-- The first block of the data area. -/
abbrev firstData : Nat := 84

/-- The bytes of a directory entry. -/
def direntBytes (entry : Nat × Name) : List Byte :=
  (List.range DIRENT).map (Dirent.encode entry.1 entry.2)

/-- A block of directory entries. -/
def direntBlock (entries : List (Nat × Name)) : Block :=
  fun i => (entries.flatMap direntBytes).getD i 0

/-- An inode with one data block. -/
def Dinode.single (type : InodeType) (nlink : Int16) (size addr : Nat) (mode uid gid : UInt32) :
    Dinode :=
  { type := type, major := 0, minor := 0, nlink := nlink, size := .ofNat size,
    addrs := fun slot => if slot = 0 then addr else 0, mode := mode, uid := uid, gid := gid }

/-- A file system whose root directory has `.`, `..` and the given entries. The
inodes of the list are numbered from 2 on and keep their content in the blocks
after that of the root. -/
def Disk.image (rootMode : UInt32) (entries : List (Nat × Name)) (inodes : List Dinode)
    (blocks : List Block) : Disk :=
  let root := (1, DOT) :: (1, DOTDOT) :: entries
  { bitmap := fun b => b < firstData + 1 + blocks.length
    dinode := fun inum =>
      if inum = ROOTINO then Dinode.single .dir 1 (DIRENT * root.length) firstData rootMode 0 0
      else if inum < 2 then .fresh .free 0 0
      else inodes.getD (inum - 2) (.fresh .free 0 0)
    data := fun b =>
      if b = firstData then direntBlock root
      else if b < firstData then fun _ => 0
      else blocks.getD (b - (firstData + 1)) fun _ => 0 }

/-- A free slot of the inode cache. -/
def Inode.zero : Inode :=
  { toDinode := .fresh .free 0 0, dev := 0, inum := 0, ref := 0, lock := none, valid := false }

/-- A slot of the file table that was never used. -/
def File.zero : File :=
  { type := .none, ref := 0, readable := false, writable := false, unused := fun _ => rfl }

/-- A slot of the process table that was never used. -/
def Proc.zero : Proc :=
  { uid := 0, euid := 0, gids := fun _ => 0, state := .unused, pid := 0, parent := none,
    chan := none, killed := false, ofile := fun _ => none, cwd := none }

/-- The kernel after `userinit`, on the given disk. -/
def Kernel.boot (disk : Disk) : Kernel :=
  { sb := mkfsSuperblock
    disk := disk
    icache := fun ip =>
      if ip = 0 then { Inode.zero with dev := ROOTDEV, inum := ROOTINO, ref := 1 } else Inode.zero
    log := { outstanding := 0, committing := false, lh := [] }
    ftable := fun _ => File.zero
    ptable := fun p =>
      if p = 0 then { Proc.zero with state := .runnable, pid := 1, cwd := some 0 } else Proc.zero
    initproc := 0
    nextpid := 2
    cur := 0
    pipes := fun _ => { data := [], readopen := false, writeopen := false }
    input := []
    trace := [] }

end Xv6
