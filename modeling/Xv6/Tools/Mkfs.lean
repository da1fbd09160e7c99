import Xv6.Kernel.Boot
import Xv6.Storage.Store

/-!
# The image builder

`mkfs` writes the first file system. It gives out inodes and blocks in order, and
appends to a file with its own version of the block map; the bitmap is written
last. An error of the host or an assertion that fails ends it before that.
-/

namespace Xv6.Mkfs

abbrev NINODES : Nat := 200
abbrev DEFAULT_MODE : UInt32 := 0o777

abbrev nbitmap : Nat := FSSIZE / (BSIZE * 8) + 1
abbrev ninodeblocks : Nat := NINODES / IPB + 1
abbrev nlog : Nat := LOGSIZE
/-- The boot block, the superblock, the log, the inodes and the bitmap. -/
abbrev nmeta : Nat := 2 + nlog + ninodeblocks + nbitmap

/-- The superblock of `main`. -/
def superblock : Superblock :=
  { size := FSSIZE, sizeFits := mkfsSuperblock.sizeFits, nblocks := FSSIZE - nmeta,
    ninodes := NINODES, nlog := nlog, logstart := 2, inodestart := 2 + nlog,
    bmapstart := 2 + nlog + ninodeblocks }

/-- The image file and the two counters. -/
structure Image where
  disk : Disk
  freeinode : Nat
  freeblock : Nat

/-- Why `mkfs` ends without a file system. -/
inductive Stop where
  | assert
  | exit
deriving DecidableEq, Repr

abbrev Build := EStateM Stop Image

/-- The image after the loop of `main` that clears it. -/
def Image.initial : Image where
  disk := { bitmap := fun _ => false, dinode := fun _ => .fresh .free 0 0, data := fun _ _ => 0 }
  freeinode := 1
  freeblock := nmeta

/-! ## Sectors and inodes -/

/-- `rsect`. The image ends after `FSSIZE` sectors. -/
def rsect (sec : Nat) : Build Block := do
  if sec < FSSIZE then pure ((← get).disk.data sec) else throw .exit

/-- `wsect`. -/
def wsect (sec : Nat) (buf : Block) : Build Unit :=
  modify fun image => { image with disk := image.disk.setData sec buf }

/-- `rinode`. -/
def rinode (inum : Nat) : Build Dinode := do
  pure ((← get).disk.dinode inum)

/-- `winode`. -/
def winode (inum : Nat) (din : Dinode) : Build Unit :=
  modify fun image => { image with disk := image.disk.setDinode inum din }

/-- `ialloc`. -/
def ialloc (type : InodeType) (mode : UInt32) : Build Nat := do
  let inum := (← get).freeinode
  modify fun image => { image with freeinode := image.freeinode + 1 }
  winode inum { Dinode.fresh type 0 mode with nlink := 1 }
  pure inum

/-- `balloc`. -/
def balloc (used : Nat) : Build Unit := do
  if used < BSIZE * 8 then
    modify fun image =>
      { image with disk := { image.disk with bitmap := fun b => decide (b < used) } }
  else throw .assert

/-! ## Appending -/

/-- `freeblock++`. -/
def nextblock : Build Nat := do
  let b := (← get).freeblock
  modify fun image => { image with freeblock := image.freeblock + 1 }
  pure b

/-- Give a slot of the inode a block, unless it has one. -/
def slot (din : Dinode) (i : Fin (NDIRECT + 1)) : Build Dinode := do
  if din.addrs i = 0 then do
    let b ← nextblock
    pure { din with addrs := Function.update din.addrs i b }
  else pure din

/-- The inode and the sector `x` of its block `fbn`, with what had to be added. -/
def iblock (din : Dinode) (fbn : Nat) : Build (Dinode × Nat) := do
  if direct : fbn < NDIRECT then do
    let din ← slot din (Fin.castSucc ⟨fbn, direct⟩)
    pure (din, din.addrs (Fin.castSucc ⟨fbn, direct⟩))
  else do
    let din ← slot din (Fin.last NDIRECT)
    let indirect ← rsect (din.addrs (Fin.last NDIRECT))
    if Words.word indirect (fbn - NDIRECT) = 0 then do
      let b ← nextblock
      wsect (din.addrs (Fin.last NDIRECT)) (Words.setWord indirect (fbn - NDIRECT) b)
      pure (din, b)
    else pure (din, Words.word indirect (fbn - NDIRECT))

/-- The loop of `iappend`, with `n` bytes at `p` left. -/
def iappendLoop : Nat → Dinode → Nat → (Nat → Byte) → Nat → Build (Dinode × Nat)
  | 0, din, off, _, _ => pure (din, off)
  | fuel + 1, din, off, p, n =>
    if n = 0 then pure (din, off)
    else do
      let fbn := off / BSIZE
      if fbn < MAXFILE then do
        let (din, x) ← iblock din fbn
        let n1 := min n ((fbn + 1) * BSIZE - off)
        let buf ← rsect x
        wsect x (overwrite buf (off - fbn * BSIZE) n1 p)
        iappendLoop fuel din (off + n1) (fun i => p (n1 + i)) (n - n1)
      else throw .assert

/-- `iappend`. -/
def iappend (inum : Nat) (p : List Byte) : Build Unit := do
  let din ← rinode inum
  let (din, off) ← iappendLoop p.length din din.size.toNat (fun i => p.getD i 0) p.length
  winode inum { din with size := .ofNat off }

/-- Append a directory entry. -/
def append (dir inum : Nat) (name : Name) : Build Unit := iappend dir (direntBytes (inum, name))

/-! ## The directories -/

/-- The global variables that `makedirs` sets. -/
structure Directories where
  rootino : Nat
  devino : Nat
  binino : Nat
  homeino : Nat
  superuserino : Nat
  etcino : Nat
deriving DecidableEq, Repr

/-- One of the directories of `makedirs` below the root. -/
def makedir (parent : Nat) (name : Name) : Build Nat := do
  let inum ← ialloc .dir DEFAULT_MODE
  append inum inum DOT
  append inum parent DOTDOT
  append parent inum name
  pure inum

/-- `"dev"`. -/
abbrev DEV : Name := [100, 101, 118]
/-- `"bin"`. -/
abbrev BIN : Name := [98, 105, 110]
/-- `"home"`. -/
abbrev HOME : Name := [104, 111, 109, 101]
/-- `"root"`. -/
abbrev ROOT : Name := [114, 111, 111, 116]
/-- `"etc"`. -/
abbrev ETC : Name := [101, 116, 99]

/-- `makedirs`. -/
def makedirs : Build Directories := do
  let rootino ← ialloc .dir DEFAULT_MODE
  if rootino = ROOTINO then do
    append rootino rootino DOT
    append rootino rootino DOTDOT
    let devino ← makedir rootino DEV
    let binino ← makedir rootino BIN
    let homeino ← makedir rootino HOME
    let superuserino ← makedir homeino ROOT
    let etcino ← makedir rootino ETC
    pure { rootino, devino, binino, homeino, superuserino, etcino }
  else throw .assert

/-! ## The files -/

/-- An argument of `mkfs`, and what the host has under this name. -/
structure HostFile where
  argv : List Byte
  terminated : 0 ∉ argv
  /-- What `read` returns, call by call, if the file can be opened. -/
  reads : Option (List (List Byte))
  bounded : ∀ buf ∈ reads.getD [], 0 < buf.length ∧ buf.length ≤ BSIZE

/-- The bytes of a file. -/
def HostFile.bytes (file : HostFile) : List Byte := (file.reads.getD []).flatten

/-- `"user/"`. -/
abbrev USER : List Byte := [117, 115, 101, 114, 47]
/-- `"passwd"`. -/
abbrev PASSWD : List Byte := [112, 97, 115, 115, 119, 100]
/-- `"group"`. -/
abbrev GROUP : List Byte := [103, 114, 111, 117, 112]
/-- `"motd"`. -/
abbrev MOTD : List Byte := [109, 111, 116, 100]
/-- `"issue"`. -/
abbrev ISSUE : List Byte := [105, 115, 115, 117, 101]

/-- The argument without `user/`. -/
def stripped (argv : List Byte) : List Byte :=
  if strncmp argv USER 5 = 0 then argv.drop 5 else argv

/-- The name of a file in the image and the directory it goes to: `shortname` and
`dirino` of `main`. -/
def target (dirs : Directories) (argv : List Byte) : Name × Nat :=
  if (stripped argv).head? = some 95 then ((stripped argv).tail, dirs.binino)
  else if strncmp argv PASSWD 6 = 0 ∨ strncmp argv GROUP 5 = 0 ∨ strncmp argv MOTD 4 = 0 ∨
      strncmp argv ISSUE 5 = 0 then (stripped argv, dirs.etcino)
  else (stripped argv, dirs.superuserino)

/-- The body of the loop of `main`. -/
def addfile (dirs : Directories) (file : HostFile) : Build Unit := do
  if 47 ∈ stripped file.argv then throw .assert
  else
    match file.reads with
    | none => throw .exit
    | some reads => do
        let (shortname, dirino) := target dirs file.argv
        let inum ← ialloc .file (if dirino = dirs.etcino then 0o644 else DEFAULT_MODE)
        append dirino inum shortname
        forM reads (iappend inum)

/-- `main`, once the image has been cleared. -/
def main (files : List HostFile) : Build Unit := do
  let dirs ← makedirs
  forM files (addfile dirs)
  balloc (← get).freeblock

end Xv6.Mkfs
