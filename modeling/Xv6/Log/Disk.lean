import Mathlib.Data.List.Nodup
import Xv6.Semantics.Program
import Xv6.Kernel.Param

/-!
# The on-disk log between two power failures

`commit` and `recover_from_log` of `log.c` as sequences of single-block disk
writes. A machine lives for one power cycle: its buffer cache and in-memory log
header are lost when the power fails, its disk is not. `budget` is the number of
writes the power still lasts for, so running a program with every budget cuts
it before or after each of its writes.
-/

namespace Xv6.Log

open Words

/-- One power cycle of the logging layer. `cache` is what `bread` returns,
`blocks` is `log.lh.block[0 .. log.lh.n)`, and `written` lists the blocks that
`bwrite` has put on the disk, newest first. -/
structure Machine where
  start : Nat
  disk : Nat → Block
  cache : Nat → Block
  blocks : List Nat
  budget : Nat
  written : List Nat

/-- The effect of a block write that reaches the disk. -/
def Machine.write (machine : Machine) (block : Nat) (data : Block) : Machine :=
  { machine with
    disk := Function.update machine.disk block data
    cache := Function.update machine.cache block data
    budget := machine.budget - 1
    written := block :: machine.written }

section Write

variable (machine : Machine) (block : Nat) (data : Block)

@[simp] theorem Machine.write_disk :
    (machine.write block data).disk = Function.update machine.disk block data := rfl

@[simp] theorem Machine.write_cache :
    (machine.write block data).cache = Function.update machine.cache block data := rfl

@[simp] theorem Machine.write_written :
    (machine.write block data).written = block :: machine.written := rfl

end Write

/-- The only fault of this layer. -/
inductive PowerFailure where
  | lost

abbrev LogM := EStateM PowerFailure Machine

/-- `lh->n`, as the bound of a loop over a C `int`: a negative count runs no iteration. -/
def headCount (buf : Block) : Nat :=
  if word buf 0 < 2 ^ 31 then word buf 0 else 0

/-- The block numbers a header block lists. -/
def headBlocks (buf : Block) : List Nat :=
  (List.range (headCount buf)).map fun i => word buf (i + 1)

/-- Store block numbers into `hb->block[index ..]`. -/
def setHeadBlocks (buf : Block) (index : Nat) : List Nat → Block
  | [] => buf
  | block :: rest => setHeadBlocks (setWord buf (index + 1) block) (index + 1) rest

def bread (block : Nat) : LogM Block := do
  return (← get).cache block

/-- The write reaches the disk whole, unless the power fails before it. -/
def bwrite (block : Nat) (data : Block) : LogM Unit := do
  let machine ← get
  if machine.budget = 0 then
    throw .lost
  else
    set (machine.write block data)

/-- Copy logged blocks home from the log slots starting at `tail`. -/
def installFrom (tail : Nat) : List Nat → LogM Unit
  | [] => pure ()
  | block :: rest => do
      let lbuf ← bread ((← get).start + tail + 1)
      bwrite block lbuf
      installFrom (tail + 1) rest

def installTrans : LogM Unit := do
  installFrom 0 (← get).blocks

def readHead : LogM Unit := do
  let buf ← bread (← get).start
  modify fun machine => { machine with blocks := headBlocks buf }

def writeHead : LogM Unit := do
  let machine ← get
  let buf ← bread machine.start
  bwrite machine.start (setHeadBlocks (setWord buf 0 machine.blocks.length) 0 machine.blocks)

def recoverFromLog : LogM Unit := do
  readHead
  installTrans
  modify fun machine => { machine with blocks := [] }
  writeHead

/-- Copy cached blocks into the log slots starting at `tail`. -/
def writeLogFrom (tail : Nat) : List Nat → LogM Unit
  | [] => pure ()
  | block :: rest => do
      let src ← bread block
      bwrite ((← get).start + tail + 1) src
      writeLogFrom (tail + 1) rest

def writeLog : LogM Unit := do
  writeLogFrom 0 (← get).blocks

def commit : LogM Unit := do
  if 0 < (← get).blocks.length then
    writeLog
    writeHead
    installTrans
    modify fun machine => { machine with blocks := [] }
    writeHead

/-- A fresh power cycle on a disk: nothing is cached and the header is empty. -/
def boot (start : Nat) (disk : Nat → Block) (budget : Nat) : Machine where
  start := start
  disk := disk
  cache := disk
  blocks := []
  budget := budget
  written := []

/-- The machine a power cycle ends in, whether it ran to completion or not. -/
def final (program : LogM Unit) (machine : Machine) : Machine :=
  match program machine with
  | .ok _ last => last
  | .error _ last => last

/-- `Reboots start before after`: any number of recoveries, each cut by a power
failure, take the disk from `before` to `after`. -/
inductive Reboots (start : Nat) : (Nat → Block) → (Nat → Block) → Prop where
  | refl {disk} : Reboots start disk disk
  | crash {disk budget machine disk'}
      (cut : recoverFromLog (boot start disk budget) = .error .lost machine)
      (later : Reboots start machine.disk disk') : Reboots start disk disk'

/-- A block outside the log area. -/
def Home (start size block : Nat) : Prop := block < start ∨ start + size ≤ block

/-- A transaction in memory: distinct blocks outside the log area, few enough
for the log and for the in-memory header, with their new contents. -/
structure Transaction (start size : Nat) where
  blocks : List Nat
  contents : Nat → Block
  distinct : blocks.Nodup
  fitsLog : blocks.length < size
  fitsHeader : blocks.length ≤ LOGSIZE
  outside : ∀ block ∈ blocks, Home start size block
  uint : ∀ block ∈ blocks, block < 2 ^ 32

/-- The contents of every block once the transaction has been applied to a disk. -/
def Transaction.apply {start size : Nat} (transaction : Transaction start size)
    (disk : Nat → Block) (block : Nat) : Block :=
  if block ∈ transaction.blocks then transaction.contents block else disk block

/-- The machine about to commit: the cache holds the new contents, the disk the old ones. -/
def Transaction.pending {start size : Nat} (transaction : Transaction start size)
    (disk : Nat → Block) (budget : Nat) : Machine where
  start := start
  disk := disk
  cache := transaction.apply disk
  blocks := transaction.blocks
  budget := budget
  written := []

end Xv6.Log
