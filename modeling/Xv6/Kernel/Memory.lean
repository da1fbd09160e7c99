import Xv6.Kernel.Table
import Xv6.Kernel.Vm

/-!
# The memory of the processes: `proc.c`, `exec.c` and `pipe.c`

Every call that allocates or frees pages, from its start to its return. The process
table is the one of `proc.c`; a slot also has a kernel stack, a page directory and a
size. Of a pipe, only its page and its two open ends are kept.
-/

namespace Xv6

open Vm

/-- The memory of a slot of the process table. -/
structure Space where
  kstack : Option Page
  pgdir : Option PageDir
  sz : Nat

/-- A pipe in its page. -/
structure PipePage where
  page : Page
  readopen : Bool
  writeopen : Bool

/-- The end that `pipeclose` closes. -/
def PipePage.close (pipe : PipePage) (writable : Bool) : PipePage :=
  if writable then { pipe with writeopen := false } else { pipe with readopen := false }

/-- The allocator and everything that holds pages. -/
structure MemSystem where
  kmem : Kmem
  kpgdir : PageDir
  table : ProcTable
  space : ProcPtr → Space
  pipes : List PipePage

/-- The calls. `pipe` is told whether `filealloc` succeeds, and `pipeclose` which pipe. -/
inductive MemAction where
  | fork (p : ProcPtr)
  | exec (p : ProcPtr) (image : Image) (argv : List Nat)
  | sbrk (p : ProcPtr) (n : Int32)
  | pipe (files : Bool)
  | pipeclose (i : Nat) (writable : Bool)
  | exit (p : ProcPtr)
  | wait (p : ProcPtr)

/-- The page directory of a slot. Without one, the code stops or follows a null pointer. -/
def Space.directory (space : Space) : Mem PageDir :=
  match space.pgdir with
  | none => throw .noPgdir
  | some pgdir => pure pgdir

/-- The sum of a size and an `int`, as a `uint`. -/
def uintAdd (sz : Nat) (n : Int32) : Nat := ((sz + n.toInt) % 2 ^ 32).toNat

/-- `growproc`. Where it fails, the directory is what is left of it. -/
def growproc (space : Space) (n : Int32) : Mem Space := do
  let pgdir ← space.directory
  if 0 < n.toInt then do
    let (pgdir, sz) ← Vm.allocuvm pgdir space.sz (uintAdd space.sz n)
    if sz = 0 then pure { space with pgdir := some pgdir }
    else pure { space with pgdir := some pgdir, sz := sz }
  else if n.toInt < 0 then do
    let (pgdir, sz) ← deallocuvm pgdir space.sz (uintAdd space.sz n)
    if sz = 0 then pure { space with pgdir := some pgdir }
    else pure { space with pgdir := some pgdir, sz := sz }
  else pure space

namespace MemSystem

variable (kmap : List Kmap) (system : MemSystem)

def setSpace (p : ProcPtr) (space : Space) : MemSystem :=
  { system with space := Function.update system.space p space }

/-- `fork`: the system with its new table and space. -/
def fork (p : ProcPtr) : Mem MemSystem :=
  match system.table.allocproc with
  | none => pure system
  | some (np, table) => do
      match ← kalloc with
      | none =>
        pure ({ system with table := table.setState np .unused }.setSpace np
          { system.space np with kstack := none })
      | some kstack => do
          let pgdir ← (system.space p).directory
          match ← copyuvm kmap pgdir (system.space p).sz with
          | none => do
              kfree kstack
              pure ({ system with table := table.setState np .unused }.setSpace np
                { system.space np with kstack := none, pgdir := none })
          | some d =>
            pure ({ system with table := (table.adopt np p).setState np .runnable }.setSpace np
              { kstack := some kstack, pgdir := some d, sz := (system.space p).sz })

/-- `exec`. -/
def exec (p : ProcPtr) (image : Image) (argv : List Nat) : Mem MemSystem := do
  match ← execSpace kmap image argv with
  | none => pure system
  | some (pgdir, sz) => do
      let oldpgdir ← (system.space p).directory
      freevm oldpgdir
      pure (system.setSpace p { system.space p with pgdir := some pgdir, sz := sz })

/-- `sbrk`. -/
def sbrk (p : ProcPtr) (n : Int32) : Mem MemSystem := do
  let space ← growproc (system.space p) n
  pure (system.setSpace p space)

/-- `pipealloc`. -/
def pipe (files : Bool) : Mem MemSystem :=
  if files then do
    match ← kalloc with
    | none => pure system
    | some page =>
      let pipe := { page := page, readopen := true, writeopen := true }
      pure { system with pipes := pipe :: system.pipes }
  else pure system

/-- `pipeclose`. -/
def pipeclose (i : Nat) (writable : Bool) : Mem MemSystem :=
  match system.pipes[i]? with
  | none => pure system
  | some pipe =>
    let closed := pipe.close writable
    if !closed.readopen ∧ !closed.writeopen then do
      kfree pipe.page
      pure { system with pipes := system.pipes.eraseIdx i }
    else pure { system with pipes := system.pipes.set i closed }

/-- `wait`, or one turn of its loop. -/
def wait (p : ProcPtr) : Mem MemSystem :=
  let reaped := { system with table := (system.table.wait p).1 }
  match system.table.zombieChild p with
  | none => pure reaped
  | some q =>
    match (system.space q).kstack with
    | none => throw .kfree
    | some kstack => do
        kfree kstack
        let pgdir ← (system.space q).directory
        freevm pgdir
        pure (reaped.setSpace q { system.space q with kstack := none })

/-- A process that can make calls. -/
def live (p : ProcPtr) : Prop :=
  (system.table.proc p).state ∈ [ProcState.sleeping, .runnable, .running]

instance (p : ProcPtr) : Decidable (system.live p) := inferInstanceAs (Decidable (_ ∈ _))

/-- What a call does, if a live process makes it. -/
def call : MemAction → Option (Mem MemSystem)
  | .fork p => if system.live p then some (system.fork kmap p) else none
  | .exec p image argv => if system.live p then some (system.exec kmap p image argv) else none
  | .sbrk p n => if system.live p then some (system.sbrk p n) else none
  | .pipe files => some (system.pipe files)
  | .pipeclose i writable => some (system.pipeclose i writable)
  | .exit p =>
    if system.live p ∧ p ≠ system.table.initproc then
      some (pure { system with table := system.table.exit p })
    else none
  | .wait p => if system.live p then some (system.wait p) else none

/-- A call that returns. -/
def step (action : MemAction) : Option MemSystem :=
  (system.call kmap action).bind fun call =>
    (Program.outcome call system.kmem).map fun (next, kmem) => { next with kmem := kmem }

end MemSystem

end Xv6
