import Xv6.Std.Words

/-!
# Constants of the kernel and of the on-disk format

The values of `param.h`, `fs.h` and `fcntl.h`, under the names those headers
give them, and the vocabulary of bytes, blocks and names they fix.
-/

namespace Xv6

abbrev NPROC : Nat := 64
abbrev NOFILE : Nat := 16
abbrev NFILE : Nat := 100
abbrev NINODE : Nat := 50
abbrev NDEV : Nat := 10
abbrev ROOTDEV : Nat := 1
abbrev MAXARG : Nat := 32
abbrev MAXOPBLOCKS : Nat := 10
abbrev LOGSIZE : Nat := MAXOPBLOCKS * 3
abbrev NBUF : Nat := MAXOPBLOCKS * 3
abbrev FSSIZE : Nat := 2000

instance : NeZero NPROC := ⟨by decide⟩

instance : NeZero NINODE := ⟨by decide⟩

abbrev ROOTINO : Nat := 1
abbrev BSIZE : Nat := 512
abbrev NDIRECT : Nat := 12
abbrev NINDIRECT : Nat := BSIZE / 4
abbrev MAXFILE : Nat := NDIRECT + NINDIRECT
/-- Inodes per block: `struct dinode` occupies 128 bytes. -/
abbrev IPB : Nat := BSIZE / 128
abbrev BPB : Nat := BSIZE * 8
abbrev DIRSIZ : Nat := 14
/-- `sizeof(struct dirent)`: a 16-bit inode number and the name. -/
abbrev DIRENT : Nat := 2 + DIRSIZ

abbrev CONSOLE : Int16 := 1
abbrev PIPESIZE : Nat := 512
abbrev PGSIZE : Nat := 4096
abbrev KERNBASE : Nat := 0x80000000

abbrev O_RDONLY : UInt32 := 0x000
abbrev O_WRONLY : UInt32 := 0x001
abbrev O_RDWR : UInt32 := 0x002
abbrev O_CREATE : UInt32 := 0x200

abbrev Byte := UInt8

/-- The contents of a disk block, by offset. Only offsets below `BSIZE` are ever used. -/
abbrev Block := Nat → Byte

/-- The contents of a C string, without its terminating NUL. -/
abbrev Path := List Byte

/-- A path element as `skipelem` leaves it: at most `DIRSIZ` bytes, none of them NUL. -/
abbrev Name := List Byte

/-- The superblock `mkfs` writes, which describes the disk layout. The size is
a 32-bit word on the disk, so every block number below it fits in one. -/
structure Superblock where
  size : Nat
  sizeFits : size < 2 ^ 32
  nblocks : Nat
  ninodes : Nat
  nlog : Nat
  logstart : Nat
  inodestart : Nat
  bmapstart : Nat
deriving DecidableEq, Repr

/-- Block containing inode `i`. -/
def IBLOCK (i : Nat) (sb : Superblock) : Nat := i / IPB + sb.inodestart

/-- Block of the free map containing the bit for block `b`. -/
def BBLOCK (b : Nat) (sb : Superblock) : Nat := b / BPB + sb.bmapstart

end Xv6
