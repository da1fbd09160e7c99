import Xv6.Kernel.File

/-!
# `filewrite` step by step

Here the processes that share a `struct file` interleave between `begin_op`, `ilock`,
`writei`, the assignment to `f->off`, `iunlock` and `end_op`. A process that would have
to wait in one of them takes no step. A record is kept of the bytes that the processes
asked to write and of the pieces that `writei` wrote.
-/

namespace Xv6

open Program

/-- Where a process is in the loop of `filewrite`, with what `writei` returned. -/
inductive WriteStage where
  /-- At `while(i < n)`. -/
  | loop
  | begun
  | locked
  | wrote (r : Int)
  | advanced (r : Int)
  | unlocked (r : Int)
deriving DecidableEq, Repr

inductive WritePoint where
  /-- Not in `filewrite`, with what the last call returned. -/
  | outside (result : Option Int)
  | inside (addr : List Byte) (i : Nat) (stage : WriteStage)
deriving DecidableEq, Repr

/-- A piece that `writei` wrote. -/
structure Chunk where
  process : ProcPtr
  off : UInt32
  bytes : List Byte
deriving DecidableEq, Repr

structure Writers where
  kernel : Kernel
  point : ProcPtr → WritePoint
  asked : ProcPtr → List Byte
  chunks : List Chunk

inductive WriteAction where
  /-- A process calls `filewrite`. -/
  | call (p : ProcPtr) (addr : List Byte)
  /-- A process takes the next step of its call. -/
  | run (p : ProcPtr)
deriving DecidableEq, Repr

/-- `n1`. -/
def pieceSize (addr : List Byte) (i : Nat) : Nat := min (addr.length - i) writeMax

/-- `i == n ? n : -1`. -/
def writeResult (addr : List Byte) (i : Nat) : Int := if i = addr.length then addr.length else -1

/-- Use the inode and the offset of a file. -/
def onInode {Value : Type} (f : FilePtr) (body : InodePtr → UInt32 → Kern Value) : Kern Value := do
  match ((← get).ftable f).type with
  | .inode ip off => body ip off
  | _ => throw .wild

namespace Writers

def start (kernel : Kernel) : Writers :=
  { kernel := kernel, point := fun _ => .outside none, asked := fun _ => [], chunks := [] }

def goto (writers : Writers) (p : ProcPtr) (point : WritePoint) : Writers :=
  { writers with point := Function.update writers.point p point }

/-- Run kernel code in a process, and go on if it returns. -/
def perform {Value : Type} (writers : Writers) (p : ProcPtr) (program : Kern Value)
    (next : Value → Writers → Option Writers) : Option Writers :=
  (outcome program (writers.kernel.enter p)).bind fun result =>
    next result.1 { writers with kernel := result.2 }

/-- `filewrite` up to its loop. -/
def call (f : FilePtr) (writers : Writers) (p : ProcPtr) (addr : List Byte) : Option Writers :=
  match writers.point p with
  | .inside _ _ _ => none
  | .outside _ =>
    if !(writers.kernel.ftable f).writable then some (writers.goto p (.outside (some (-1))))
    else
      match (writers.kernel.ftable f).type with
      | .inode _ _ =>
        some { writers.goto p (.inside addr 0 .loop) with
          asked := Function.update writers.asked p (writers.asked p ++ addr) }
      | _ => none

/-- The loop of `filewrite`. -/
def turn (f : FilePtr) (writers : Writers) (p : ProcPtr) (addr : List Byte) (i : Nat) :
    WriteStage → Option Writers
  | .loop =>
    if i < addr.length then
      writers.perform p beginOp fun _ writers => some (writers.goto p (.inside addr i .begun))
    else some (writers.goto p (.outside (some (writeResult addr i))))
  | .begun =>
    writers.perform p (onInode f fun ip _ => ilock ip) fun _ writers =>
      some (writers.goto p (.inside addr i .locked))
  | .locked =>
    writers.perform p
      (onInode f fun ip off => do
        let r ← writei ip (fun k => (addr.drop i).getD k 0) off (.ofNat (pieceSize addr i))
        pure (off, r))
      fun (off, r) writers =>
        let piece := (addr.drop i).take r.toNat
        some { writers.goto p (.inside addr i (.wrote r)) with
          chunks := if 0 < r then writers.chunks ++ [⟨p, off, piece⟩] else writers.chunks }
  | .wrote r =>
    writers.perform p
      (onInode f fun ip off =>
        when (0 < r) (modify (·.updateFile f (File.seek · ip (off + .ofNat r.toNat)))))
      fun _ writers => some (writers.goto p (.inside addr i (.advanced r)))
  | .advanced r =>
    writers.perform p (onInode f fun ip _ => iunlock ip) fun _ writers =>
      some (writers.goto p (.inside addr i (.unlocked r)))
  | .unlocked r =>
    writers.perform p endOp fun _ writers =>
      if r < 0 then some (writers.goto p (.outside (some (writeResult addr i))))
      -- `panic("short filewrite")`.
      else if r ≠ pieceSize addr i then none
      else some (writers.goto p (.inside addr (i + r.toNat) .loop))

def step (f : FilePtr) (writers : Writers) : WriteAction → Option Writers
  | .call p addr => writers.call f p addr
  | .run p =>
    match writers.point p with
    | .outside _ => none
    | .inside addr i stage => writers.turn f p addr i stage

end Writers

end Xv6
