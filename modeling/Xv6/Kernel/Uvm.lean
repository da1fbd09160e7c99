import Xv6.Kernel.Memory

/-!
# What is in the pages: `vm.c` and `growproc` with the bytes they move

The functions of `vm.c` that copy or clear memory, over the allocator and the contents
of the pages. Code that only moves pages is taken over from there. `kfree` fills a page
with junk, so a page that has come to the free list holds nothing else.
-/

namespace Xv6.Uvm

open Vm

/-- What is in the pages. -/
abbrev Ram := Page → Nat → Byte

/-- The allocator and the pages. -/
structure Machine where
  kmem : Kmem
  ram : Ram

/-- Code that also looks into pages. -/
abbrev Phys := EStateM Vm.Panic Machine

/-- `memset(v, 1, PGSIZE)` of `kfree`, in the pages that were not free before. -/
def junk (before after : Kmem) (ram : Ram) : Ram := fun page =>
  if page ∈ after.freelist ∧ page ∉ before.freelist then fun _ => 1 else ram page

/-- Code that moves pages and does not look into them. -/
def pages {Value : Type} (program : Mem Value) : Phys Value := fun machine =>
  match program machine.kmem with
  | .ok value kmem => .ok value { kmem := kmem, ram := junk machine.kmem kmem machine.ram }
  | .error raised kmem => .error raised { kmem := kmem, ram := junk machine.kmem kmem machine.ram }

/-- `memset(mem, 0, PGSIZE)`. -/
def memset (mem : Page) : Phys Unit :=
  modify fun machine => { machine with ram := Function.update machine.ram mem fun _ => 0 }

/-- The bytes of a page after a copy to an offset. -/
def patch (content : Nat → Byte) (offset : Nat) (bytes : List Byte) : Nat → Byte := fun i =>
  if offset ≤ i ∧ i < offset + bytes.length then bytes.getD (i - offset) 0 else content i

/-- `memmove` into a page, from an offset on. -/
def memmove (page : Page) (offset : Nat) (bytes : List Byte) : Phys Unit :=
  modify fun machine =>
    { machine with ram := Function.update machine.ram page (patch (machine.ram page) offset bytes) }

/-- The loop of `allocuvm` over the addresses still to map; nothing where it fails. -/
def allocuvmLoop (oldsz newsz : Nat) : List Nat → PageDir → Phys (PageDir × Nat)
  | [], pgdir => pure (pgdir, newsz)
  | a :: rest, pgdir => do
      match ← pages kalloc with
      | none => do
          let (pgdir, _) ← pages (deallocuvm pgdir newsz oldsz)
          pure (pgdir, 0)
      | some mem => do
          memset mem
          let (pgdir, mapped) ← pages (mappages pgdir a PGSIZE mem (PTE_W ||| PTE_U))
          if mapped then allocuvmLoop oldsz newsz rest pgdir
          else do
            let (pgdir, _) ← pages (deallocuvm pgdir newsz oldsz)
            pages (kfree mem)
            pure (pgdir, 0)

/-- `allocuvm`: the directory and the new size, or zero. -/
def allocuvm (pgdir : PageDir) (oldsz newsz : Nat) : Phys (PageDir × Nat) :=
  if KERNBASE ≤ newsz then pure (pgdir, 0)
  else if newsz < oldsz then pure (pgdir, oldsz)
  else allocuvmLoop oldsz newsz (pagesUpTo (PGROUNDUP oldsz) newsz) pgdir

/-- `growproc`: what it returns, and the memory of the process. -/
def growproc (space : Space) (n : Int32) : Phys (Int × Space) := do
  let pgdir ← pages space.directory
  if 0 < n.toInt then do
    let (pgdir, sz) ← allocuvm pgdir space.sz (uintAdd space.sz n)
    if sz = 0 then pure (-1, { space with pgdir := some pgdir })
    else pure (0, { space with pgdir := some pgdir, sz := sz })
  else if n.toInt < 0 then do
    let (pgdir, sz) ← pages (deallocuvm pgdir space.sz (uintAdd space.sz n))
    if sz = 0 then pure (-1, { space with pgdir := some pgdir })
    else pure (0, { space with pgdir := some pgdir, sz := sz })
  else pure (0, space)

/-- `uva2ka`: the page behind a user address. Without a page table it reads the entry
through a null pointer. -/
def uva2ka (pgdir : PageDir) (uva : Nat) : Phys (Option Page) :=
  match walkpgdir pgdir uva with
  | none => throw .uva2kaNull
  | some pgtab =>
    match pgtab.pte (PTX uva) with
    | none => pure none
    | some pte => pure (if pte.flags &&& PTE_U = 0 then none else some pte.pa)

/-- The loop of `copyout`, with `buf` still to copy; it returns `-1` as `false`. -/
def copyoutLoop (pgdir : PageDir) : Nat → Nat → List Byte → Phys Bool
  | 0, _, _ => pure true
  | fuel + 1, va, buf =>
    if buf.length = 0 then pure true
    else do
      let va0 := PGROUNDDOWN va
      match ← uva2ka pgdir va0 with
      | none => pure false
      | some pa0 => do
          let n := min (PGSIZE - (va - va0)) buf.length
          memmove pa0 (va - va0) (buf.take n)
          copyoutLoop pgdir fuel ((va0 + PGSIZE) % 2 ^ 32) (buf.drop n)

/-- `copyout`. Every turn but the first and the last copies a whole page. -/
def copyout (pgdir : PageDir) (va : Nat) (buf : List Byte) : Phys Bool :=
  copyoutLoop pgdir (buf.length / PGSIZE + 2) va buf

end Xv6.Uvm
