import Xv6.Kernel.Uvm
import Xv6.Semantics.Focus

/-!
# `exec.c` with the files and the memory

`exec` as it runs: it reads the program file, builds the new address space page by page
and copies the arguments to the new stack. The state is that of the file system, that of
the memory and the fields of the calling process that `exec` assigns to.
-/

namespace Xv6.Exec

open Program Vm Uvm

/-- The fields of the caller's `struct proc`, with those of its trap frame. -/
structure Curproc where
  pgdir : PageDir
  sz : Nat
  eip : Nat
  esp : Nat
  name : List Byte

structure Computer where
  kernel : Kernel
  machine : Machine
  curproc : Curproc

/-- Where the kernel stops. -/
inductive Halt where
  | fs (fault : Fault)
  | vm (reason : Vm.Panic)
deriving DecidableEq, Repr

abbrev Comp := EStateM Halt Computer

/-- The state of the file system. -/
def files : Lens Computer Kernel :=
  { get := Computer.kernel, set := fun kernel computer => { computer with kernel := kernel },
    get_set := fun _ _ => rfl }

/-- The state of the memory. -/
def memory : Lens Computer Machine :=
  { get := Computer.machine, set := fun machine computer => { computer with machine := machine },
    get_set := fun _ _ => rfl }

/-- Code of the file system. -/
def fs {Value : Type} (program : Kern Value) : Comp Value := focus files .fs program

/-- Code of the virtual memory. -/
def vm {Value : Type} (program : Phys Value) : Comp Value := focus memory .vm program

/-- The loop of `loaduvm` over the offsets still to load. -/
def loaduvmLoop (pgdir : PageDir) (addr : Nat) (ip : InodePtr) (offset sz : Nat) :
    List Nat → Comp Bool
  | [] => pure true
  | i :: rest =>
    match walkpgdir pgdir (addr + i) with
    | none => throw (.vm .loaduvmAddress)
    | some pgtab => do
        let pa := (pgtab.pte (PTX (addr + i))).elim 0 Pte.pa
        let n := if sz - i < PGSIZE then sz - i else PGSIZE
        match ← fs (readi ip (.ofNat (offset + i)) (.ofNat n)) with
        | none => pure false
        | some bytes => do
            vm (memmove pa 0 bytes)
            if bytes.length = n then loaduvmLoop pgdir addr ip offset sz rest else pure false

/-- `loaduvm`. -/
def loaduvm (pgdir : PageDir) (addr : Nat) (ip : InodePtr) (offset sz : Nat) : Comp Bool :=
  if addr % PGSIZE ≠ 0 then throw (.vm .loaduvmAligned)
  else loaduvmLoop pgdir addr ip offset sz (pagesUpTo 0 sz)

/-- The loop of `exec` over the program headers still to load; no size where it jumps to
`bad`. -/
def execSegments (ip : InodePtr) (phoff : Nat) : List Nat → PageDir → Nat →
    Comp (PageDir × Option Nat)
  | [], pgdir, sz => pure (pgdir, some sz)
  | i :: rest, pgdir, sz => do
      match ← fs (readExactly ip (.ofNat (phoff + PROGHDR * i)) PROGHDR) with
      | none => pure (pgdir, none)
      | some bytes =>
        let ph := Proghdr.decode bytes
        if ph.type ≠ ELF_PROG_LOAD then execSegments ip phoff rest pgdir sz
        else if ph.memsz < ph.filesz then pure (pgdir, none)
        else if (ph.vaddr + ph.memsz) % 2 ^ 32 < ph.vaddr then pure (pgdir, none)
        else do
          let (pgdir, sz) ← vm (Uvm.allocuvm pgdir sz ((ph.vaddr + ph.memsz) % 2 ^ 32))
          if sz = 0 then pure (pgdir, none)
          else if ph.vaddr % PGSIZE ≠ 0 then pure (pgdir, none)
          else if ← loaduvm pgdir ph.vaddr ip ph.off ph.filesz then
            execSegments ip phoff rest pgdir sz
          else pure (pgdir, none)

/-- The first half of `exec`, with the inode locked: the address space with its size and
the entry point. -/
def execLoad (kmap : List Kmap) (ip : InodePtr) : Comp (Option (PageDir × Nat × Nat)) := do
  match ← fs (readExactly ip 0 ELFHDR) with
  | none => pure none
  | some bytes =>
    let elf := Elfhdr.decode bytes
    if elf.magic ≠ ELF_MAGIC then pure none
    else do
      match ← vm (pages (setupkvm kmap)) with
      | none => pure none
      | some pgdir => do
          let (pgdir, loaded) ← execSegments ip elf.phoff (List.range elf.phnum) pgdir 0
          match loaded with
          | none => do
              vm (pages (freevm pgdir))
              pure none
          | some sz => pure (some (pgdir, sz, wordAt bytes 6))

/-- The loop of `exec` that pushes the argument strings, with the pointers it has put into
`ustack`: the stack pointer, or nothing where it jumps to `bad`. -/
def execArguments (pgdir : PageDir) : List (List Byte) → List Nat → Nat → Phys (Option (List Nat × Nat))
  | [], ustack, sp => pure (some (ustack, sp))
  | s :: rest, ustack, sp =>
    if MAXARG ≤ ustack.length then pure none
    else do
      let sp := uintSub sp (s.length + 1) / 4 * 4
      if ← Uvm.copyout pgdir sp (s ++ [0]) then execArguments pgdir rest (ustack ++ [sp]) sp
      else pure none

/-- The second half of `exec`: the stack and the arguments. The size and the stack pointer,
or nothing where it jumps to `bad`. -/
@[irreducible] def execStack (pgdir : PageDir) (argv : List (List Byte)) (sz : Nat) :
    Phys (PageDir × Option (Nat × Nat)) := do
  let (pgdir, sz) ← Uvm.allocuvm pgdir (PGROUNDUP sz) (PGROUNDUP sz + 2 * PGSIZE)
  if sz = 0 then pure (pgdir, none)
  else do
    let pgdir ← pages (clearpteu pgdir (sz - 2 * PGSIZE))
    match ← execArguments pgdir argv [] sz with
    | none => pure (pgdir, none)
    | some (pointers, sp) => do
        let argc := pointers.length
        let ustack := 0xffffffff :: argc :: uintSub sp ((argc + 1) * 4) :: (pointers ++ [0])
        let sp := uintSub sp ((3 + argc + 1) * 4)
        if ← Uvm.copyout pgdir sp (Words.bytes ustack) then pure (pgdir, some (sz, sp))
        else pure (pgdir, none)

/-- The last element of a path, as `exec` finds it. -/
def lastElement : Path → Path → Path
  | last, [] => last
  | last, s :: rest => lastElement (if s = 47 then rest else last) rest

/-- The commit of `exec`: the new image, with the name as `safestrcpy` cuts it. -/
def commit (path : Path) (pgdir : PageDir) (sz eip esp : Nat) : Comp Unit := do
  let oldpgdir := (← get).curproc.pgdir
  modify fun computer => { computer with
    curproc :=
      { pgdir := pgdir, sz := sz, eip := eip, esp := esp, name := (lastElement path path).take 15 } }
  vm (pages (freevm oldpgdir))

/-- `exec`. -/
def exec (kmap : List Kmap) (path : Path) (argv : List (List Byte)) : Comp Int := do
  fs beginOp
  match ← fs (namei path) with
  | none => do
      fs endOp
      fs (emit (.cprintf [] "exec: fail\n"))
      pure (-1)
  | some ip => do
      fs (ilock ip)
      let loaded ← execLoad kmap ip
      fs (iunlockput ip)
      fs endOp
      match loaded with
      | none => pure (-1)
      | some (pgdir, sz, entry) => do
          let (pgdir, stack) ← vm (execStack pgdir argv sz)
          match stack with
          | none => do
              vm (pages (freevm pgdir))
              pure (-1)
          | some (sz, sp) => do
              commit path pgdir sz entry sp
              pure 0

end Xv6.Exec
