import Xv6.Kernel.State

/-!
# The file system: `log.c`, `sleeplock.c` and `fs.c`

Each definition follows the function of the same name. A loop is a structural
recursion over the list of indices it visits, or over a fuel that the number of
bytes left bounds. `Option` stands for a result that may be the null pointer or
`-1`.
-/

namespace Xv6

open Program (when)

/-! ## Transactions -/

/-- `begin_op`. The loop ends at once or waits for another process. -/
def beginOp : Kern Unit := do
  emit .beginOp
  let kernel ← get
  if kernel.log.committing then throw .asleep
  else if kernel.log.lh.length + (kernel.log.outstanding + 1) * MAXOPBLOCKS > LOGSIZE then
    throw .asleep
  else modify fun kernel =>
    { kernel with log := { kernel.log with outstanding := kernel.log.outstanding + 1 } }

/-- `end_op`. The last operation out commits, which empties the header; the disk
is already the one read through the cache. -/
def endOp : Kern Unit := do
  emit .endOp
  modify fun kernel =>
    { kernel with log := { kernel.log with outstanding := kernel.log.outstanding - 1 } }
  let kernel ← get
  if kernel.log.committing then panic .logCommitting
  else if kernel.log.outstanding = 0 then
    modify fun kernel => { kernel with log := { kernel.log with lh := [] } }
  else pure ()

/-- `log_write` of the buffer of block `blockno`. -/
def logWrite (blockno : Nat) : Kern Unit := do
  emit .logWrite
  let kernel ← get
  if LOGSIZE ≤ kernel.log.lh.length ∨ kernel.sb.nlog - 1 ≤ kernel.log.lh.length then
    panic .tooBigTransaction
  else if kernel.log.outstanding < 1 then panic .logWriteOutside
  else if blockno ∈ kernel.log.lh then pure ()
  else modify fun kernel =>
    { kernel with log := { kernel.log with lh := kernel.log.lh ++ [blockno] } }

/-! ## Sleep locks -/

/-- `acquiresleep` on the lock of an inode. -/
def acquiresleep (ip : InodePtr) : Kern Unit := do
  let kernel ← get
  match (kernel.icache ip).lock with
  | none => writeInode ip fun inode => { inode with lock := some kernel.myproc.pid }
  | some pid => if pid = kernel.myproc.pid then throw (.deadlock ip) else throw .asleep

/-- `releasesleep`. -/
def releasesleep (ip : InodePtr) : Kern Unit :=
  writeInode ip fun inode => { inode with lock := none }

/-- `holdingsleep`. -/
def holdingsleep (kernel : Kernel) (ip : InodePtr) : Bool :=
  (kernel.icache ip).lock = some kernel.myproc.pid

/-! ## Blocks -/

/-- `bzero`. -/
def bzero (bno : Nat) : Kern Unit := do
  modify (·.setData bno fun _ => 0)
  logWrite bno

/-- `balloc`. Its two loops visit the blocks of the disk in order. -/
def balloc : Kern Nat := do
  let kernel ← get
  match (List.range kernel.sb.size).find? fun b => !kernel.disk.bitmap b with
  | none => panic .ballocOutOfBlocks
  | some b => do
      modify (·.setBitmap b true)
      logWrite (BBLOCK b kernel.sb)
      bzero b
      pure b

/-- `bfree`. -/
def bfree (b : Nat) : Kern Unit := do
  let kernel ← get
  if kernel.disk.bitmap b then do
    modify (·.setBitmap b false)
    logWrite (BBLOCK b kernel.sb)
  else panic .freeingFreeBlock

/-! ## Inodes -/

/-- `iupdate`. -/
def iupdate (ip : InodePtr) : Kern Unit := do
  emit .iupdate
  let kernel ← get
  modify (·.setDinode (kernel.icache ip).inum (kernel.icache ip).toDinode)
  logWrite (IBLOCK (kernel.icache ip).inum kernel.sb)

/-- `iget`. -/
def iget (dev inum : Nat) : Kern InodePtr := do
  let kernel ← get
  match (List.finRange NINODE).find? fun ip =>
      0 < (kernel.icache ip).ref ∧ (kernel.icache ip).dev = dev ∧
        (kernel.icache ip).inum = inum with
  | some ip => do
      writeInode ip fun inode => { inode with ref := inode.ref + 1 }
      pure ip
  | none =>
    match (List.finRange NINODE).find? fun ip => (kernel.icache ip).ref = 0 with
    | none => panic .igetNoInodes
    | some ip => do
        writeInode ip fun inode =>
          { inode with dev := dev, inum := inum, ref := 1, valid := false }
        pure ip

/-- The inode `ialloc` writes: cleared, then given its type, mode and owner. -/
def Dinode.fresh (type : InodeType) (uid mode : UInt32) : Dinode :=
  { type := type, major := 0, minor := 0, nlink := 0, size := 0, addrs := fun _ => 0,
    mode := mode, uid := uid, gid := 0 }

/-- `ialloc`. -/
def ialloc (dev : Nat) (type : InodeType) (uid mode : UInt32) : Kern InodePtr := do
  emit .ialloc
  let kernel ← get
  match (List.range' 1 (kernel.sb.ninodes - 1)).find? fun inum =>
      (kernel.disk.dinode inum).type = .free with
  | none => panic .iallocNoInodes
  | some inum => do
      modify (·.setDinode inum (.fresh type uid mode))
      logWrite (IBLOCK inum kernel.sb)
      iget dev inum

/-- `idup`. -/
def idup (ip : InodePtr) : Kern InodePtr := do
  writeInode ip fun inode => { inode with ref := inode.ref + 1 }
  pure ip

/-- `ilock`. -/
def ilock (ip : InodePtr) : Kern Unit := do
  let kernel ← get
  if (kernel.icache ip).ref < 1 then panic .ilock
  else do
    acquiresleep ip
    if (kernel.icache ip).valid then pure ()
    else do
      let dip := kernel.disk.dinode (kernel.icache ip).inum
      writeInode ip fun inode => { inode with toDinode := dip, valid := true }
      if dip.type = .free then panic .ilockNoType else pure ()

/-- `iunlock`. -/
def iunlock (ip : InodePtr) : Kern Unit := do
  let kernel ← get
  if !holdingsleep kernel ip ∨ (kernel.icache ip).ref < 1 then panic .iunlock
  else releasesleep ip

/-! ## Inode content -/

/-- Set one block address of a cached inode. -/
def setAddr (ip : InodePtr) (slot : Fin (NDIRECT + 1)) (addr : Nat) : Kern Unit :=
  writeInode ip fun inode => { inode with addrs := Function.update inode.addrs slot addr }

/-- The address in one slot of an inode, allocating a block if there is none. -/
def bmapSlot (ip : InodePtr) (slot : Fin (NDIRECT + 1)) : Kern Nat := do
  let inode ← readInode ip
  if inode.addrs slot = 0 then do
    let addr ← balloc
    setAddr ip slot addr
    pure addr
  else pure (inode.addrs slot)

/-- `bmap`. -/
def bmap (ip : InodePtr) (bn : Nat) : Kern Nat := do
  if direct : bn < NDIRECT then bmapSlot ip (Fin.castSucc ⟨bn, direct⟩)
  else if bn - NDIRECT < NINDIRECT then do
    let indirect ← bmapSlot ip (Fin.last NDIRECT)
    let addr := Words.word ((← get).disk.data indirect) (bn - NDIRECT)
    if addr = 0 then do
      let addr ← balloc
      -- the buffer of the indirect block is held since before `balloc`
      modify fun kernel => kernel.setData indirect
        (Words.setWord (kernel.disk.data indirect) (bn - NDIRECT) addr)
      logWrite indirect
      pure addr
    else pure addr
  else panic .bmapOutOfRange

/-- One turn of the first loop of `itrunc`. -/
def itruncDirect (ip : InodePtr) (slot : Fin NDIRECT) : Kern Unit := do
  let inode ← readInode ip
  when (inode.addrs slot.castSucc ≠ 0) do
    bfree (inode.addrs slot.castSucc)
    setAddr ip slot.castSucc 0

/-- The second part of `itrunc`: the blocks the indirect block lists, then itself. -/
def itruncIndirect (ip : InodePtr) : Kern Unit := do
  let inode ← readInode ip
  let indirect := inode.addrs (Fin.last NDIRECT)
  when (indirect ≠ 0) do
    let block := (← get).disk.data indirect
    forM (List.range NINDIRECT) fun j =>
      when (Words.word block j ≠ 0) (bfree (Words.word block j))
    bfree indirect
    setAddr ip (Fin.last NDIRECT) 0

/-- `itrunc`. -/
def itrunc (ip : InodePtr) : Kern Unit := do
  forM (List.finRange NDIRECT) (itruncDirect ip)
  itruncIndirect ip
  writeInode ip fun inode => { inode with size := 0 }
  iupdate ip

/-- The inner branch of `iput`: the last reference to an unlinked inode frees it. -/
def ifree (ip : InodePtr) : Kern Unit := do
  itrunc ip
  writeInode ip fun inode => { inode with type := .free }
  iupdate ip
  writeInode ip fun inode => { inode with valid := false }

/-- `iput`. -/
def iput (ip : InodePtr) : Kern Unit := do
  emit .iput
  acquiresleep ip
  let inode ← readInode ip
  when (inode.valid ∧ inode.nlink = 0 ∧ inode.ref = 1) (ifree ip)
  releasesleep ip
  writeInode ip fun inode => { inode with ref := inode.ref - 1 }

/-- `iunlockput`. -/
def iunlockput (ip : InodePtr) : Kern Unit := do
  iunlock ip
  iput ip

/-! ## Devices -/

/-- Is there a driver? Only the console registers one. -/
def devsw (major : Int16) : Bool :=
  ¬(major < 0) ∧ major.toInt < NDEV ∧ major = CONSOLE

/-- The loop of `consoleread` on the typed lines, for `n` more bytes: what it
returns and what it leaves, or nothing if it waits for input. `partway` says that
a byte was read before. -/
def takeLine (partway : Bool) : Nat → List Byte → Option (List Byte × List Byte)
  | 0, input => some ([], input)
  | _ + 1, [] => none
  | n + 1, c :: input =>
    if c = 4 then some ([], if partway then c :: input else input)
    else if c = 10 then some ([c], input)
    else (takeLine true n input).map fun (line, left) => (c :: line, left)

/-- `consoleread`. -/
def consoleread (ip : InodePtr) (n : Nat) : Kern (Option (List Byte)) := do
  iunlock ip
  let kernel ← get
  match takeLine false n kernel.input with
  | some (line, left) => do
      modify fun kernel => { kernel with input := left }
      ilock ip
      pure (some line)
  | none =>
    if kernel.myproc.killed then do
      modify fun kernel => { kernel with input := [] }
      ilock ip
      pure none
    else throw .asleep

/-- `consolewrite`. -/
def consolewrite (ip : InodePtr) (n : Int) : Kern Int := do
  iunlock ip
  ilock ip
  pure n

/-! ## Reading and writing -/

/-- The number of bytes one turn of `readi` or `writei` moves. -/
def chunk (off n : Nat) : Nat := min n (BSIZE - off % BSIZE)

/-- The loop of `readi`, with `n` bytes left to read. -/
def readiLoop (ip : InodePtr) : Nat → Nat → Nat → Kern (List Byte)
  | 0, _, _ => pure []
  | fuel + 1, off, n =>
    if n = 0 then pure []
    else do
      let addr ← bmap ip (off / BSIZE)
      let block := (← get).disk.data addr
      let bytes := (List.range (chunk off n)).map fun k => block (off % BSIZE + k)
      let rest ← readiLoop ip fuel (off + chunk off n) (n - chunk off n)
      pure (bytes ++ rest)

/-- `readi`: the bytes read, or nothing for `-1`. -/
def readi (ip : InodePtr) (off n : UInt32) : Kern (Option (List Byte)) := do
  let inode ← readInode ip
  if inode.type = .dev then
    -- a driver takes the length as an `int`
    if devsw inode.major then consoleread ip n.toInt32.toInt.toNat else pure none
  else if inode.size < off ∨ off + n < off then pure none
  else do
    let n := if inode.size < off + n then inode.size - off else n
    let bytes ← readiLoop ip n.toNat off.toNat n.toNat
    pure (some bytes)

/-- `memmove(bp->data + start, src, m)`. -/
def overwrite (block : Block) (start m : Nat) (src : Nat → Byte) : Block :=
  fun i => if start ≤ i ∧ i < start + m then src (i - start) else block i

/-- The loop of `writei`, with `n` bytes left to write. -/
def writeiLoop (ip : InodePtr) : Nat → (Nat → Byte) → Nat → Nat → Kern Unit
  | 0, _, _, _ => pure ()
  | fuel + 1, src, off, n =>
    if n = 0 then pure ()
    else do
      let addr ← bmap ip (off / BSIZE)
      modify fun kernel => kernel.setData addr
        (overwrite (kernel.disk.data addr) (off % BSIZE) (chunk off n) src)
      logWrite addr
      writeiLoop ip fuel (fun i => src (chunk off n + i)) (off + chunk off n)
        (n - chunk off n)

/-- `writei` of the `n` bytes at `src`. -/
def writei (ip : InodePtr) (src : Nat → Byte) (off n : UInt32) : Kern Int := do
  let inode ← readInode ip
  if inode.type = .dev then
    if devsw inode.major then consolewrite ip n.toInt32.toInt else pure (-1)
  else if inode.size < off ∨ off + n < off then pure (-1)
  else if MAXFILE * BSIZE < (off + n).toNat then pure (-1)
  else do
    writeiLoop ip n.toNat src off.toNat n.toNat
    let inode ← readInode ip
    when (0 < n ∧ inode.size < off + n) do
      writeInode ip fun inode => { inode with size := off + n }
      iupdate ip
    pure n.toNat

/-! ## Directories -/

/-- `struct dirent`. -/
structure Dirent where
  inum : Nat
  name : List Byte
deriving DecidableEq, Repr

/-- A directory entry as it is read from the `DIRENT` bytes of a directory. -/
def Dirent.decode (bytes : List Byte) : Dirent :=
  { inum := (bytes.getD 0 0).toNat + 256 * (bytes.getD 1 0).toNat, name := bytes.drop 2 }

/-- The bytes of an entry: `strncpy` pads the name with zeros, and the inode
number is cut to 16 bits. -/
def Dirent.encode (inum : Nat) (name : Name) : Nat → Byte
  | 0 => Words.byteAt inum 0
  | 1 => Words.byteAt inum 1
  | i + 2 => name.getD i 0

/-- `strncmp`. -/
def strncmp : List Byte → List Byte → Nat → Int
  | _, _, 0 => 0
  | p, q, n + 1 =>
    if p.headD 0 ≠ 0 ∧ p.headD 0 = q.headD 0 then strncmp p.tail q.tail n
    else (p.headD 0).toNat - (q.headD 0).toNat

/-- `namecmp`. -/
def namecmp (s t : List Byte) : Int := strncmp s t DIRSIZ

/-- The offsets of the entries of a directory. -/
def direntOffsets (size : UInt32) : List Nat :=
  (List.range ((size.toNat + (DIRENT - 1)) / DIRENT)).map (DIRENT * ·)

/-- Read the entry at an offset, or panic if it is cut short. -/
def readDirent (dp : InodePtr) (off : Nat) (short : Panic) : Kern Dirent := do
  match ← readi dp (.ofNat off) (.ofNat DIRENT) with
  | some bytes => if bytes.length = DIRENT then pure (.decode bytes) else panic short
  | none => panic short

/-- The loop of `dirlookup` over the offsets still to look at. -/
def dirlookupFrom (dp : InodePtr) (name : Name) : List Nat → Kern (Option (InodePtr × Nat))
  | [] => pure none
  | off :: rest => do
      let de ← readDirent dp off .dirlookupRead
      if de.inum ≠ 0 ∧ namecmp name de.name = 0 then do
        let inode ← readInode dp
        let ip ← iget inode.dev de.inum
        pure (some (ip, off))
      else dirlookupFrom dp name rest

/-- `dirlookup`: the inode and the offset of its entry. -/
def dirlookup (dp : InodePtr) (name : Name) : Kern (Option (InodePtr × Nat)) := do
  let inode ← readInode dp
  if inode.type ≠ .dir then panic .dirlookupNotDir
  else dirlookupFrom dp name (direntOffsets inode.size)

/-- The loop of `dirlink` that looks for an empty entry; `full` is the offset
after the last one. -/
def emptyDirent (dp : InodePtr) (full : Nat) : List Nat → Kern Nat
  | [] => pure full
  | off :: rest => do
      let de ← readDirent dp off .dirlinkRead
      if de.inum = 0 then pure off else emptyDirent dp full rest

/-- `dirlink`: did it write the entry? -/
def dirlink (dp : InodePtr) (name : Name) (inum : Nat) : Kern Bool := do
  match ← dirlookup dp name with
  | some (ip, _) => do
      iput ip
      pure false
  | none => do
      let inode ← readInode dp
      let offsets := direntOffsets inode.size
      let off ← emptyDirent dp (DIRENT * offsets.length) offsets
      let written ← writei dp (Dirent.encode inum (name.take DIRSIZ)) (.ofNat off) (.ofNat DIRENT)
      if written = DIRENT then pure true else panic .dirlink

/-! ## Paths -/

/-- The path separator. -/
abbrev SLASH : Byte := 47

/-- `skipelem`: the next element, cut to `DIRSIZ` bytes, and the path after it. -/
def skipelem (path : Path) : Option (Name × Path) :=
  let path := path.dropWhile (· = SLASH)
  if path = [] then none
  else some ((path.takeWhile (· ≠ SLASH)).take DIRSIZ,
    (path.dropWhile (· ≠ SLASH)).dropWhile (· = SLASH))

/-- The successive results of `skipelem`. Each call consumes a byte, so the
length of the path is enough fuel. -/
def skipelems : Nat → Path → List (Name × Path)
  | 0, _ => []
  | fuel + 1, path =>
    match skipelem path with
    | none => []
    | some (name, rest) => (name, rest) :: skipelems fuel rest

/-- The loop of `namex` at `ip`, with the elements still to follow. -/
def namexFrom (parent : Bool) : List (Name × Path) → InodePtr → Name →
    Kern (Option (InodePtr × Name))
  | [], ip, name =>
    if parent then do
      iput ip
      pure none
    else pure (some (ip, name))
  | (name, path) :: rest, ip, _ => do
      ilock ip
      let inode ← readInode ip
      if inode.type ≠ .dir then do
        iunlockput ip
        pure none
      else if parent ∧ path = [] then do
        iunlock ip
        pure (some (ip, name))
      else
        match ← dirlookup ip name with
        | none => do
            iunlockput ip
            pure none
        | some (next, _) => do
            iunlockput ip
            namexFrom parent rest next name

/-- `namex`. -/
def namex (path : Path) (parent : Bool) : Kern (Option (InodePtr × Name)) := do
  let elements := skipelems path.length path
  if path.head? = some SLASH then do
    let ip ← iget ROOTDEV ROOTINO
    namexFrom parent elements ip []
  else
    match (← get).myproc.cwd with
    | none => throw .wild
    | some cwd => do
        let ip ← idup cwd
        namexFrom parent elements ip []

/-- `namei`. -/
def namei (path : Path) : Kern (Option InodePtr) := do
  return (← namex path false).map Prod.fst

/-- `nameiparent`. -/
def nameiparent (path : Path) : Kern (Option (InodePtr × Name)) := namex path true

end Xv6
