import Xv6.Kernel.Fs

/-!
# Open files: `file.c` and the pipe ends it closes, reads and writes

A `struct file` pointer is a slot of the file table. The reads and writes of a
pipe run until they would sleep.
-/

namespace Xv6

open Program (when)

/-- What `wakeup` does to one process. -/
def Proc.wake (proc : Proc) (chan : Channel) : Proc :=
  if proc.state = .sleeping ∧ proc.chan = some chan then { proc with state := .runnable }
  else proc

/-- `wakeup`: every process asleep on the channel becomes runnable. -/
def wakeup (chan : Channel) : Kern Unit :=
  modify fun kernel => { kernel with ptable := fun p => (kernel.ptable p).wake chan }

/-! ## Pipes -/

/-- Rewrite one pipe. -/
def updatePipe (p : Nat) (update : Pipe → Pipe) : Kern Unit :=
  modify fun kernel =>
    { kernel with pipes := Function.update kernel.pipes p (update (kernel.pipes p)) }

/-- The first half of `pipeclose`: one end is marked closed. -/
def pipecloseEnd (p : Nat) (writable : Bool) : Kern Unit :=
  if writable then do
    updatePipe p fun pipe => { pipe with writeopen := false }
    wakeup (.pipeRead p)
  else do
    updatePipe p fun pipe => { pipe with readopen := false }
    wakeup (.pipeWrite p)

/-- `pipeclose`. The number of a pipe is that of its page. -/
def pipeclose (p : Nat) (writable : Bool) : Kern Unit := do
  pipecloseEnd p writable
  let kernel ← get
  when ((kernel.pipes p).readopen = false ∧ (kernel.pipes p).writeopen = false) (emit (.kfree p))

/-- The loop of `pipewrite` over the bytes still to store; false where it
returns `-1`. -/
def pipewriteLoop (p : Nat) : List Byte → Kern Bool
  | [] => pure true
  | byte :: rest => do
      let kernel ← get
      if (kernel.pipes p).data.length = PIPESIZE then
        if !(kernel.pipes p).readopen ∨ kernel.myproc.killed then pure false
        else do
          wakeup (.pipeRead p)
          throw .asleep
      else do
        updatePipe p fun pipe => { pipe with data := pipe.data ++ [byte] }
        pipewriteLoop p rest

/-- `pipewrite`. -/
def pipewrite (p : Nat) (bytes : List Byte) : Kern Int := do
  if ← pipewriteLoop p bytes then do
    wakeup (.pipeRead p)
    pure bytes.length
  else pure (-1)

/-- `piperead`: the bytes read, or nothing for `-1`. -/
def piperead (p : Nat) (n : Nat) : Kern (Option (List Byte)) := do
  let kernel ← get
  if (kernel.pipes p).data = [] ∧ (kernel.pipes p).writeopen then
    if kernel.myproc.killed then pure none else throw .asleep
  else do
    updatePipe p fun pipe => { pipe with data := pipe.data.drop n }
    wakeup (.pipeWrite p)
    pure (some ((kernel.pipes p).data.take n))

/-! ## The file table -/

/-- A file that `filealloc` just took: one reference, its other fields stale. -/
def File.taken (file : File) : File :=
  { file with ref := 1, unused := by intro absurdity; cases absurdity }

/-- One more reference. -/
def File.dup (file : File) : File :=
  { file with ref := file.ref + 1, unused := by intro absurdity; cases absurdity }

/-- One reference less of several. -/
def File.drop (file : File) (several : 1 < file.ref) : File :=
  { file with ref := file.ref - 1, unused := by intro none; omega }

/-- A file whose last reference is gone. -/
def File.release (file : File) : File :=
  { file with ref := 0, type := .none, unused := fun _ => rfl }

/-- What `sys_open` and `pipealloc` make of a file they hold a reference to. -/
def File.open (file : File) (type : FileType) (readable writable : Bool) : File :=
  { type := if file.ref = 0 then .none else type, ref := file.ref, readable := readable,
    writable := writable, unused := by intro none; simp [none] }

/-- Move the offset of an inode file. -/
def File.seek (file : File) (ip : InodePtr) (off : UInt32) : File :=
  file.open (.inode ip off) file.readable file.writable

/-- `filealloc`. -/
def filealloc : Kern (Option FilePtr) := do
  let kernel ← get
  match (List.finRange NFILE).find? fun f => (kernel.ftable f).ref = 0 with
  | none => pure none
  | some f => do
      modify (·.updateFile f File.taken)
      pure (some f)

/-- `filedup`. -/
def filedup (f : FilePtr) : Kern FilePtr := do
  let kernel ← get
  if (kernel.ftable f).ref < 1 then panic .filedup
  else do
    modify (·.updateFile f File.dup)
    pure f

/-- What `fileclose` does for a file whose last reference went. -/
def filerelease (ff : File) : Kern Unit :=
  match ff.type with
  | .none => pure ()
  | .pipe p => pipeclose p ff.writable
  | .inode ip _ => do
      beginOp
      iput ip
      endOp

/-- `fileclose`. -/
def fileclose (f : FilePtr) : Kern Unit := do
  let kernel ← get
  let ff := kernel.ftable f
  if ff.ref < 1 then panic .fileclose
  else if several : 1 < ff.ref then modify (·.updateFile f fun _ => ff.drop several)
  else do
    modify (·.updateFile f File.release)
    filerelease ff

/-- The part of `pipealloc` with two files and a page at hand. -/
def pipeinit (p : Nat) (f0 f1 : FilePtr) : Kern Unit := do
  emit (.kalloc p)
  updatePipe p fun _ => { data := [], readopen := true, writeopen := true }
  modify (·.updateFile f0 fun file => file.open (.pipe p) true false)
  modify (·.updateFile f1 fun file => file.open (.pipe p) false true)

/-- `pipealloc`: the read end and the write end. `page` is what `kalloc` returns. -/
def pipealloc (page : Option Nat) : Kern (Option (FilePtr × FilePtr)) := do
  match ← filealloc with
  | none => pure none
  | some f0 =>
    match ← filealloc with
    | none => do
        fileclose f0
        pure none
    | some f1 =>
      match page with
      | none => do
          fileclose f0
          fileclose f1
          pure none
      | some p => do
          pipeinit p f0 f1
          pure (some (f0, f1))

/-- `struct stat`. -/
structure Stat where
  dev : Nat
  ino : Nat
  type : InodeType
  nlink : Int16
  size : UInt32
  mode : UInt16
  uid : UInt32
  gid : UInt32
deriving DecidableEq

/-- `stati`. The mode is cut to a `short`. -/
def stati (inode : Inode) : Stat :=
  { dev := inode.dev, ino := inode.inum, type := inode.type, nlink := inode.nlink,
    size := inode.size, mode := inode.mode.toUInt16, uid := inode.uid, gid := inode.gid }

/-- `filestat`. -/
def filestat (f : FilePtr) : Kern (Option Stat) := do
  match ((← get).ftable f).type with
  | .inode ip _ => do
      ilock ip
      let inode ← readInode ip
      iunlock ip
      pure (some (stati inode))
  | _ => pure none

/-- `fileread`: the bytes read, or nothing for `-1`. -/
def fileread (f : FilePtr) (n : Nat) : Kern (Option (List Byte)) := do
  let file := (← get).ftable f
  if !file.readable then pure none
  else
    match file.type with
    | .none => panic .fileread
    | .pipe p => piperead p n
    | .inode ip off => do
        ilock ip
        let bytes ← readi ip off (.ofNat n)
        modify (·.updateFile f (File.seek · ip (off + .ofNat (bytes.getD []).length)))
        iunlock ip
        pure bytes

/-- The largest piece `filewrite` writes in one transaction. -/
def writeMax : Nat := (MAXOPBLOCKS - 1 - 1 - 2) / 2 * 512

/-- The loop of `filewrite` with the bytes still to write: did it write them all? -/
def filewriteLoop (f : FilePtr) (ip : InodePtr) : Nat → List Byte → Kern Bool
  | 0, bytes => pure bytes.isEmpty
  | fuel + 1, bytes =>
    if bytes = [] then pure true
    else do
      let n1 := min bytes.length writeMax
      beginOp
      ilock ip
      match ((← get).ftable f).type with
      | .inode _ off => do
          let r ← writei ip (fun i => bytes.getD i 0) off (.ofNat n1)
          when (0 < r) (modify (·.updateFile f (File.seek · ip (off + .ofNat r.toNat))))
          iunlock ip
          endOp
          if r < 0 then pure false
          else if r ≠ n1 then panic .shortFilewrite
          else filewriteLoop f ip fuel (bytes.drop n1)
      | _ => throw .wild

/-- `filewrite`. -/
def filewrite (f : FilePtr) (bytes : List Byte) : Kern Int := do
  let file := (← get).ftable f
  if !file.writable then pure (-1)
  else
    match file.type with
    | .none => panic .filewrite
    | .pipe p => pipewrite p bytes
    | .inode ip _ => do
        let all ← filewriteLoop f ip bytes.length bytes
        pure (if all then bytes.length else -1)

end Xv6
