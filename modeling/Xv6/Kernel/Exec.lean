import Xv6.Kernel.Proc

/-!
# `exec.c`

The program file is read, decoded and checked as the code does. The new address
space is reduced to its size: every page below it is mapped. Whether the page
allocator has a page and whether `copyout` succeeds are parameters.
-/

namespace Xv6

/-- What the virtual-memory calls of one `exec` come to. -/
structure ExecMemory where
  /-- `setupkvm` finds its pages. -/
  setupkvm : Bool
  /-- `allocuvm` finds the pages for the program header with this index. -/
  segment : Nat → Bool
  /-- `allocuvm` finds the two pages of the stack. -/
  stack : Bool
  /-- `copyout` of the argument with this index succeeds. -/
  argument : Nat → Bool
  /-- `copyout` of the argument vector succeeds. -/
  vector : Bool

/-- `PGROUNDUP`. -/
def PGROUNDUP (sz : Nat) : Nat := (sz + (PGSIZE - 1)) / PGSIZE * PGSIZE

/-- `allocuvm`: the new size, or zero. -/
def allocuvm (pages : Bool) (oldsz newsz : Nat) : Nat :=
  if KERNBASE ≤ newsz then 0
  else if newsz < oldsz then oldsz
  else if PGROUNDUP oldsz < newsz ∧ !pages then 0
  else newsz

/-- The 32-bit word at a word index of the bytes read from a file. -/
def wordAt (bytes : List Byte) (index : Nat) : Nat := Words.word (fun i => bytes.getD i 0) index

abbrev ELF_MAGIC : Nat := 0x464C457F
abbrev ELF_PROG_LOAD : Nat := 1

/-- The fields of `struct elfhdr` that `exec` reads. -/
structure Elfhdr where
  magic : Nat
  phoff : Nat
  phnum : Nat
deriving DecidableEq, Repr

/-- `sizeof(struct elfhdr)`. -/
abbrev ELFHDR : Nat := 52

def Elfhdr.decode (bytes : List Byte) : Elfhdr :=
  { magic := wordAt bytes 0, phoff := wordAt bytes 7, phnum := wordAt bytes 11 % 65536 }

/-- The fields of `struct proghdr` that `exec` reads. -/
structure Proghdr where
  type : Nat
  off : Nat
  vaddr : Nat
  filesz : Nat
  memsz : Nat
deriving DecidableEq, Repr

/-- `sizeof(struct proghdr)`. -/
abbrev PROGHDR : Nat := 32

def Proghdr.decode (bytes : List Byte) : Proghdr :=
  { type := wordAt bytes 0, off := wordAt bytes 1, vaddr := wordAt bytes 2,
    filesz := wordAt bytes 4, memsz := wordAt bytes 5 }

/-- `readi(ip, p, off, n) != n` fails: the bytes, if all of them were read. -/
def readExactly (ip : InodePtr) (off : UInt32) (n : Nat) : Kern (Option (List Byte)) := do
  match ← readi ip off (.ofNat n) with
  | some bytes => pure (if bytes.length = n then some bytes else none)
  | none => pure none

/-- The loop of `loaduvm` over the page offsets still to load; `sz` is the size
of the address space. -/
def loaduvmLoop (ip : InodePtr) (ph : Proghdr) (sz : Nat) : List Nat → Kern Bool
  | [] => pure true
  | i :: rest =>
    if PGROUNDUP sz ≤ ph.vaddr + i then panic .loaduvmAddress
    else do
      match ← readExactly ip (.ofNat (ph.off + i)) (min (ph.filesz - i) PGSIZE) with
      | some _ => loaduvmLoop ip ph sz rest
      | none => pure false

/-- `loaduvm`. -/
def loaduvm (ip : InodePtr) (ph : Proghdr) (sz : Nat) : Kern Bool :=
  if ph.vaddr % PGSIZE ≠ 0 then panic .loaduvmAligned
  else loaduvmLoop ip ph sz
    ((List.range ((ph.filesz + (PGSIZE - 1)) / PGSIZE)).map (PGSIZE * ·))

/-- The loop of `exec` over the program headers still to load: the size of the
address space, or nothing where the code jumps to `bad`. -/
def execSegments (memory : ExecMemory) (ip : InodePtr) (phoff : Nat) :
    List Nat → Nat → Kern (Option Nat)
  | [], sz => pure (some sz)
  | i :: rest, sz => do
      match ← readExactly ip (.ofNat (phoff + PROGHDR * i)) PROGHDR with
      | none => pure none
      | some bytes =>
        let ph := Proghdr.decode bytes
        let newsz := allocuvm (memory.segment i) sz (ph.vaddr + ph.memsz)
        if ph.type ≠ ELF_PROG_LOAD then execSegments memory ip phoff rest sz
        else if ph.memsz < ph.filesz then pure none
        else if 2 ^ 32 ≤ ph.vaddr + ph.memsz then pure none
        else if newsz = 0 then pure none
        else if ph.vaddr % PGSIZE ≠ 0 then pure none
        else do
          if ← loaduvm ip ph newsz then execSegments memory ip phoff rest newsz
          else pure none

/-- Read and load the program file: the size of the address space, or nothing
where the code jumps to `bad`. -/
def execLoad (memory : ExecMemory) (ip : InodePtr) : Kern (Option Nat) := do
  match ← readExactly ip 0 ELFHDR with
  | none => pure none
  | some bytes =>
    let elf := Elfhdr.decode bytes
    if elf.magic ≠ ELF_MAGIC then pure none
    else if !memory.setupkvm then pure none
    else execSegments memory ip elf.phoff (List.range elf.phnum) 0

/-- The second half of `exec`: the stack and the arguments. -/
def execStack (memory : ExecMemory) (argv : List Path) (sz : Nat) : Bool :=
  allocuvm memory.stack (PGROUNDUP sz) (PGROUNDUP sz + 2 * PGSIZE) ≠ 0 ∧
    argv.length ≤ MAXARG ∧ (∀ argc < argv.length, memory.argument argc) ∧ memory.vector

/-- `exec`. -/
def exec (memory : ExecMemory) (path : Path) (argv : List Path) : Kern Int := do
  beginOp
  match ← namei path with
  | none => do
      endOp
      emit (.cprintf [] "exec: fail\n")
      pure (-1)
  | some ip => do
      ilock ip
      let loaded ← execLoad memory ip
      iunlockput ip
      endOp
      match loaded with
      | none => pure (-1)
      | some sz => pure (if execStack memory argv sz then 0 else -1)

end Xv6
