import Mathlib.Data.Fintype.Basic
import Xv6.Semantics.Program
import Xv6.Kernel.Param

/-!
# The kernel state a system call runs on

The tables of `fs.c`, `file.c`, `proc.c` and `log.c` as one record, and the
monad system calls run in. The disk is the one a process sees through the
buffer cache, with the inode and bitmap areas decoded; a write to any of them
still goes to the log under its own block number.

A system call is one atomic run of the calling process. Where the code sleeps
until another process acts, the run ends with `Fault.asleep`; where it sleeps
on a lock that only the caller could release, it ends with `Fault.deadlock`.
-/

namespace Xv6

/-- The calls of `panic`. -/
inductive Panic where
  | ballocOutOfBlocks | freeingFreeBlock | iallocNoInodes | igetNoInodes
  | ilock | ilockNoType | iunlock | bmapOutOfRange
  | dirlookupNotDir | dirlookupRead | dirlinkRead | dirlink
  | tooBigTransaction | logWriteOutside | logCommitting
  | filedup | fileclose | fileread | filewrite | shortFilewrite
  | isdiremptyRead | unlinkNlink | unlinkWritei
  | createDots | createDirlink
  | loaduvmAligned | loaduvmAddress | initExiting
deriving DecidableEq, Repr

/-- A slot of the inode cache; the kernel's non-null `struct inode *`. -/
abbrev InodePtr := Fin NINODE

/-- A slot of the file table; the kernel's non-null `struct file *`. -/
abbrev FilePtr := Fin NFILE

/-- A slot of the process table; the kernel's non-null `struct proc *`. -/
abbrev ProcPtr := Fin NPROC

/-- How a run can end without returning. -/
inductive Fault where
  /-- The kernel panics. -/
  | panic (reason : Panic)
  /-- The caller waits for an inode lock that it holds itself. -/
  | deadlock (ip : InodePtr)
  /-- The caller waits for something another process has to do. -/
  | asleep
  /-- The code uses memory that is none of its own: a null or uninitialised
  pointer, or an index past the end of an array. -/
  | wild
deriving DecidableEq, Repr

/-- The `type` of an inode; `free` is zero. -/
inductive InodeType where
  | free | dir | file | dev
deriving DecidableEq, Repr

/-- `struct dinode`. -/
structure Dinode where
  type : InodeType
  major : Int16
  minor : Int16
  nlink : Int16
  size : UInt32
  addrs : Fin (NDIRECT + 1) → Nat
  mode : UInt32
  uid : UInt32
  gid : UInt32
deriving DecidableEq

/-- `struct inode`: the cached copy of a `Dinode` and its book-keeping. The lock
holds the pid of its owner. -/
structure Inode extends Dinode where
  dev : Nat
  inum : Nat
  ref : Int
  lock : Option Nat
  valid : Bool
deriving DecidableEq

/-- The file system as read through the buffer cache. -/
structure Disk where
  bitmap : Nat → Bool
  dinode : Nat → Dinode
  data : Nat → Block

/-- `struct log` without the disk geometry; `lh` is the in-memory header. -/
structure LogState where
  outstanding : Int
  committing : Bool
  lh : List Nat
deriving DecidableEq, Repr

/-- What a `struct file` stands for, with the fields that only that type uses. -/
inductive FileType where
  | none
  | pipe (pipe : Nat)
  | inode (ip : InodePtr) (off : UInt32)
deriving DecidableEq, Repr

/-- `struct file`. `fileclose` resets the type of a file it releases, so an
unused entry has none. -/
structure File where
  type : FileType
  ref : Nat
  readable : Bool
  writable : Bool
  unused : ref = 0 → type = .none
deriving DecidableEq

/-- `struct pipe`, with the bytes between `nread` and `nwrite` as a list. -/
structure Pipe where
  data : List Byte
  readopen : Bool
  writeopen : Bool
deriving DecidableEq

inductive ProcState where
  | unused | embryo | sleeping | runnable | running | zombie
deriving DecidableEq, Repr

/-- The identity a process acts under. -/
structure Credentials where
  uid : UInt32
  euid : UInt32
  gids : Fin 32 → UInt32
deriving DecidableEq

/-- The channels `sleep` is called on that the modelled calls wake. -/
inductive Channel where
  | proc (proc : ProcPtr)
  | pipeRead (pipe : Nat)
  | pipeWrite (pipe : Nat)
  | log
  | inode (ip : InodePtr)
deriving DecidableEq, Repr

/-- `struct proc`, less the user memory and the saved registers. -/
structure Proc extends Credentials where
  state : ProcState
  pid : Nat
  parent : Option ProcPtr
  chan : Option Channel
  killed : Bool
  ofile : Fin NOFILE → Option FilePtr
  cwd : Option InodePtr
deriving DecidableEq

/-- A process between its `fork` and its `exit`. -/
def Proc.Live (proc : Proc) : Prop :=
  proc.state ≠ .unused ∧ proc.state ≠ .embryo ∧ proc.state ≠ .zombie

instance (proc : Proc) : Decidable proc.Live :=
  inferInstanceAs (Decidable (proc.state ≠ .unused ∧ proc.state ≠ .embryo ∧ proc.state ≠ .zombie))

/-- The calls whose order a transaction constrains, the pages that pipes take and
give back, and what the console is sent. -/
inductive Event where
  | beginOp | endOp | iput | iupdate | ialloc | logWrite
  | kalloc (page : Nat)
  | kfree (page : Nat)
  | cprintf (path : Path) (text : String)
deriving DecidableEq, Repr

/-- Everything the modelled calls read or write. `cur` is the process whose
kernel thread runs, and `trace` lists the events so far, the latest first. -/
structure Kernel where
  sb : Superblock
  disk : Disk
  icache : InodePtr → Inode
  log : LogState
  ftable : FilePtr → File
  ptable : ProcPtr → Proc
  initproc : ProcPtr
  nextpid : Nat
  cur : ProcPtr
  pipes : Nat → Pipe
  input : List Byte
  trace : List Event

/-- Kernel code: it runs to a result or to a fault. -/
abbrev Kern := EStateM Fault Kernel

/-- `panic`. -/
def panic {Value : Type} (reason : Panic) : Kern Value := throw (.panic reason)

namespace Kernel

/-- `myproc()`. -/
def myproc (kernel : Kernel) : Proc := kernel.ptable kernel.cur

/-- Rewrite one slot of the inode cache. -/
def updateInode (kernel : Kernel) (ip : InodePtr) (update : Inode → Inode) : Kernel :=
  { kernel with icache := Function.update kernel.icache ip (update (kernel.icache ip)) }

/-- Rewrite one slot of the file table. -/
def updateFile (kernel : Kernel) (f : FilePtr) (update : File → File) : Kernel :=
  { kernel with ftable := Function.update kernel.ftable f (update (kernel.ftable f)) }

/-- Rewrite one slot of the process table. -/
def updateProc (kernel : Kernel) (p : ProcPtr) (update : Proc → Proc) : Kernel :=
  { kernel with ptable := Function.update kernel.ptable p (update (kernel.ptable p)) }

/-- Set or clear the bitmap bit of a block. -/
def setBitmap (kernel : Kernel) (b : Nat) (used : Bool) : Kernel :=
  { kernel with disk := { kernel.disk with bitmap := Function.update kernel.disk.bitmap b used } }

/-- Replace the on-disk copy of an inode. -/
def setDinode (kernel : Kernel) (inum : Nat) (dip : Dinode) : Kernel :=
  { kernel with disk := { kernel.disk with dinode := Function.update kernel.disk.dinode inum dip } }

/-- Replace the contents of a block. -/
def setData (kernel : Kernel) (b : Nat) (block : Block) : Kernel :=
  { kernel with disk := { kernel.disk with data := Function.update kernel.disk.data b block } }

/-- Record an event. -/
def emit (kernel : Kernel) (event : Event) : Kernel :=
  { kernel with trace := event :: kernel.trace }

/-- Process `p` enters the kernel for a system call; the trace is that of the call. -/
def enter (kernel : Kernel) (p : ProcPtr) : Kernel := { kernel with cur := p, trace := [] }

end Kernel

/-- The cached inode behind a pointer. -/
def readInode (ip : InodePtr) : Kern Inode := do return (← get).icache ip

/-- Assign to fields of a cached inode. -/
def writeInode (ip : InodePtr) (update : Inode → Inode) : Kern Unit :=
  modify (·.updateInode ip update)

/-- Record an event. -/
def emit (event : Event) : Kern Unit := modify (·.emit event)

end Xv6
