import Xv6.Kernel.Exec

/-!
# Physical pages and address spaces: `kalloc.c` and `vm.c`

A page is its physical address. The entries of a page directory and of a page
table are kept with the page that holds them; what is in other pages is left out.
An entry is there if its `PTE_P` bit is set. `kalloc` may refuse a page at any call,
in a pattern that is part of the state.
-/

namespace Xv6.Vm

abbrev Page := Nat

abbrev EXTMEM : Nat := 0x100000
abbrev PHYSTOP : Nat := 0xE000000
abbrev DEVSPACE : Nat := 0xFE000000
abbrev KERNLINK : Nat := KERNBASE + EXTMEM
abbrev NPDENTRIES : Nat := 1024
abbrev NPTENTRIES : Nat := 1024
abbrev PTE_P : Nat := 0x001
abbrev PTE_W : Nat := 0x002
abbrev PTE_U : Nat := 0x004

/-- Where the kernel stops. In `uva2ka` it reads through a null pointer. -/
inductive Panic where
  | kfree
  | remap
  | loaduvmAddress
  | loaduvmAligned
  | copyuvmPte
  | copyuvmPage
  | clearpteu
  | noPgdir
  | uva2kaNull
deriving DecidableEq, Repr

/-- `kmem`, with the end of the kernel and the refusals still to come. -/
structure Kmem where
  freelist : List Page
  first : Page
  refusals : List Bool

/-- Code that allocates and frees pages. -/
abbrev Mem := EStateM Panic Kmem

/-- `kalloc`. -/
def kalloc : Mem (Option Page) := fun kmem =>
  match kmem.refusals.headD false, kmem.freelist with
  | false, r :: next =>
    .ok (some r) { kmem with freelist := next, refusals := kmem.refusals.tail }
  | _, _ => .ok none { kmem with refusals := kmem.refusals.tail }

/-- `kfree`. -/
def kfree (v : Page) : Mem Unit := fun kmem =>
  if v % PGSIZE ≠ 0 ∨ v < kmem.first ∨ PHYSTOP ≤ v then .error .kfree kmem
  else .ok () { kmem with freelist := v :: kmem.freelist }

/-- `freerange`. -/
def freerange (vstart vend : Page) : Mem Unit :=
  forM (List.range ((vend - PGROUNDUP vstart) / PGSIZE)) fun i =>
    kfree (PGROUNDUP vstart + PGSIZE * i)

/-- A page table entry with `PTE_P`. -/
structure Pte where
  pa : Page
  flags : Nat
deriving DecidableEq, Repr

/-- A page of page table entries. -/
structure PageTable where
  page : Page
  pte : Fin NPTENTRIES → Option Pte

/-- A page of page directory entries, each with its page table. -/
structure PageDir where
  page : Page
  pde : Fin NPDENTRIES → Option PageTable

/-- `PDX`. -/
def PDX (va : Nat) : Fin NPDENTRIES := ⟨va / 2 ^ 22 % NPDENTRIES, Nat.mod_lt _ (by decide)⟩

/-- `PTX`. -/
def PTX (va : Nat) : Fin NPTENTRIES := ⟨va / 2 ^ 12 % NPTENTRIES, Nat.mod_lt _ (by decide)⟩

def PGROUNDDOWN (a : Nat) : Nat := a / PGSIZE * PGSIZE

namespace PageTable

/-- After `memset(pgtab, 0, PGSIZE)`. -/
def zero (page : Page) : PageTable := { page := page, pte := fun _ => none }

def set (table : PageTable) (index : Fin NPTENTRIES) (entry : Option Pte) : PageTable :=
  { table with pte := Function.update table.pte index entry }

end PageTable

namespace PageDir

/-- After `memset(pgdir, 0, PGSIZE)`. -/
def zero (page : Page) : PageDir := { page := page, pde := fun _ => none }

def set (pgdir : PageDir) (index : Fin NPDENTRIES) (entry : Option PageTable) : PageDir :=
  { pgdir with pde := Function.update pgdir.pde index entry }

/-- Assign to the entry of an address, in its page table. -/
def setPte (pgdir : PageDir) (table : PageTable) (va : Nat) (entry : Option Pte) : PageDir :=
  pgdir.set (PDX va) (some (table.set (PTX va) entry))

end PageDir

/-- `walkpgdir` without `alloc`: the page table of an address. -/
def walkpgdir (pgdir : PageDir) (va : Nat) : Option PageTable := pgdir.pde (PDX va)

/-- `walkpgdir` with `alloc`. -/
def walkpgdirAlloc (pgdir : PageDir) (va : Nat) : Mem (PageDir × Option PageTable) := do
  match pgdir.pde (PDX va) with
  | some pgtab => pure (pgdir, some pgtab)
  | none =>
    match ← kalloc with
    | none => pure (pgdir, none)
    | some page =>
      pure (pgdir.set (PDX va) (some (.zero page)), some (.zero page))

/-- The loop of `mappages`. After as many turns as there are pages it would meet its
first entry again. -/
def mappagesLoop (perm last : Nat) : Nat → PageDir → Nat → Nat → Mem (PageDir × Bool)
  | 0, _, _, _ => throw .remap
  | fuel + 1, pgdir, a, pa => do
      let (pgdir, table) ← walkpgdirAlloc pgdir a
      match table with
      | none => pure (pgdir, false)
      | some pgtab =>
        match pgtab.pte (PTX a) with
        | some _ => throw .remap
        | none =>
          let pgdir := pgdir.setPte pgtab a (some { pa := pa, flags := perm ||| PTE_P })
          if a = last then pure (pgdir, true)
          else mappagesLoop perm last fuel pgdir ((a + PGSIZE) % 2 ^ 32) ((pa + PGSIZE) % 2 ^ 32)

/-- `mappages`: the directory, and whether all pages were mapped. -/
def mappages (pgdir : PageDir) (va size pa perm : Nat) : Mem (PageDir × Bool) :=
  mappagesLoop perm (PGROUNDDOWN ((va + size + 2 ^ 32 - 1) % 2 ^ 32)) (2 ^ 20) pgdir (PGROUNDDOWN va) pa

/-- The loop of `deallocuvm`; a missing page table is skipped. -/
def deallocuvmLoop (oldsz : Nat) : Nat → PageDir → Nat → Mem PageDir
  | 0, pgdir, _ => pure pgdir
  | fuel + 1, pgdir, a =>
    if a < oldsz then
      match walkpgdir pgdir a with
      | none => deallocuvmLoop oldsz fuel pgdir ((PDX a + 1) * 2 ^ 22)
      | some pgtab =>
        match pgtab.pte (PTX a) with
        | none => deallocuvmLoop oldsz fuel pgdir (a + PGSIZE)
        | some pte => do
            if pte.pa = 0 then throw .kfree
            kfree pte.pa
            deallocuvmLoop oldsz fuel (pgdir.setPte pgtab a none) (a + PGSIZE)
    else pure pgdir

/-- `deallocuvm`: the directory and the new size. -/
def deallocuvm (pgdir : PageDir) (oldsz newsz : Nat) : Mem (PageDir × Nat) := do
  if oldsz ≤ newsz then pure (pgdir, oldsz)
  else
    let pgdir ← deallocuvmLoop oldsz (oldsz / PGSIZE + 1) pgdir (PGROUNDUP newsz)
    pure (pgdir, newsz)

/-- `freevm` of a directory that is there. -/
def freevm (pgdir : PageDir) : Mem Unit := do
  let (pgdir, _) ← deallocuvm pgdir KERNBASE 0
  forM (List.finRange NPDENTRIES) fun i =>
    match pgdir.pde i with
    | none => pure ()
    | some pgtab => kfree pgtab.page
  kfree pgdir.page

/-- A kernel mapping: a range of addresses from `KERNBASE` on. -/
structure Kmap where
  virt : Nat
  phys_start : Nat
  phys_end : Nat
  perm : Nat
  kernel : KERNBASE ≤ virt
  within : 0 < (phys_end + 2 ^ 32 - phys_start) % 2 ^ 32 ∧
    virt + (phys_end + 2 ^ 32 - phys_start) % 2 ^ 32 ≤ 2 ^ 32

/-- `k->phys_end - k->phys_start`. -/
def Kmap.size (k : Kmap) : Nat := (k.phys_end + 2 ^ 32 - k.phys_start) % 2 ^ 32

/-- The table `kmap`, where the kernel's data starts at `data`. -/
def kmap (data : Nat) (after : KERNLINK < data) (before : data < KERNBASE + PHYSTOP) : List Kmap :=
  [ { virt := KERNBASE, phys_start := 0, phys_end := EXTMEM, perm := PTE_W,
      kernel := Nat.le_refl _, within := by decide },
    { virt := KERNLINK, phys_start := EXTMEM, phys_end := data - KERNBASE, perm := 0,
      kernel := by decide
      within := by simp only [KERNLINK, KERNBASE, EXTMEM, PHYSTOP] at *; omega },
    { virt := data, phys_start := data - KERNBASE, phys_end := PHYSTOP, perm := PTE_W,
      kernel := by simp only [KERNLINK, KERNBASE] at *; omega
      within := by simp only [KERNLINK, KERNBASE, PHYSTOP] at *; omega },
    { virt := DEVSPACE, phys_start := DEVSPACE, phys_end := 0, perm := PTE_W,
      kernel := by decide, within := by decide } ]

/-- The loop of `setupkvm`. -/
def setupkvmLoop (pgdir : PageDir) : List Kmap → Mem (Option PageDir)
  | [] => pure (some pgdir)
  | k :: rest => do
      let (pgdir, mapped) ← mappages pgdir k.virt k.size k.phys_start k.perm
      if mapped then setupkvmLoop pgdir rest
      else do
        freevm pgdir
        pure none

/-- `setupkvm`. The test of `PHYSTOP` against `DEVSPACE` is between constants. -/
def setupkvm (kmap : List Kmap) : Mem (Option PageDir) := do
  match ← kalloc with
  | none => pure none
  | some page => setupkvmLoop (.zero page) kmap

/-- The loop of `allocuvm` over the addresses still to map; nothing where it fails. -/
def allocuvmLoop (oldsz newsz : Nat) : List Nat → PageDir → Mem (PageDir × Nat)
  | [], pgdir => pure (pgdir, newsz)
  | a :: rest, pgdir => do
      match ← kalloc with
      | none => do
          let (pgdir, _) ← deallocuvm pgdir newsz oldsz
          pure (pgdir, 0)
      | some mem => do
          let (pgdir, mapped) ← mappages pgdir a PGSIZE mem (PTE_W ||| PTE_U)
          if mapped then allocuvmLoop oldsz newsz rest pgdir
          else do
            let (pgdir, _) ← deallocuvm pgdir newsz oldsz
            kfree mem
            pure (pgdir, 0)

/-- The addresses from `a` in steps of a page, below an end. -/
def pagesUpTo (a last : Nat) : List Nat :=
  (List.range ((last - a + (PGSIZE - 1)) / PGSIZE)).map fun i => a + PGSIZE * i

/-- `allocuvm`: the directory and the new size, or zero. -/
def allocuvm (pgdir : PageDir) (oldsz newsz : Nat) : Mem (PageDir × Nat) :=
  if KERNBASE ≤ newsz then pure (pgdir, 0)
  else if newsz < oldsz then pure (pgdir, oldsz)
  else allocuvmLoop oldsz newsz (pagesUpTo (PGROUNDUP oldsz) newsz) pgdir

/-- The loop of `copyuvm` over the addresses still to copy. -/
def copyuvmLoop (pgdir : PageDir) : List Nat → PageDir → Mem (Option PageDir)
  | [], d => pure (some d)
  | i :: rest, d =>
    match walkpgdir pgdir i with
    | none => throw .copyuvmPte
    | some pgtab =>
      match pgtab.pte (PTX i) with
      | none => throw .copyuvmPage
      | some pte => do
          match ← kalloc with
          | none => do
              freevm d
              pure none
          | some mem => do
              let (d, mapped) ← mappages d i PGSIZE mem pte.flags
              if mapped then copyuvmLoop pgdir rest d
              else do
                kfree mem
                freevm d
                pure none

/-- `copyuvm`. -/
def copyuvm (kmap : List Kmap) (pgdir : PageDir) (sz : Nat) : Mem (Option PageDir) := do
  match ← setupkvm kmap with
  | none => pure none
  | some d => copyuvmLoop pgdir (pagesUpTo 0 sz) d

/-- `clearpteu`. -/
def clearpteu (pgdir : PageDir) (uva : Nat) : Mem PageDir :=
  match walkpgdir pgdir uva with
  | none => throw .clearpteu
  | some pgtab =>
    pure (pgdir.setPte pgtab uva
      ((pgtab.pte (PTX uva)).map fun pte => { pte with flags := pte.flags &&& (0xFFF - PTE_U) }))

/-- `uva2ka`: is there a page that the user may use? -/
def uva2ka (pgdir : PageDir) (uva : Nat) : Mem Bool :=
  match walkpgdir pgdir uva with
  | none => throw .uva2kaNull
  | some pgtab => pure ((pgtab.pte (PTX uva)).any fun pte => pte.flags &&& PTE_U ≠ 0)

/-- The loop of `copyout`. -/
def copyoutLoop (pgdir : PageDir) : Nat → Nat → Nat → Mem Bool
  | 0, _, _ => pure true
  | fuel + 1, va, len =>
    if len = 0 then pure true
    else do
      let va0 := PGROUNDDOWN va
      if ← uva2ka pgdir va0 then
        copyoutLoop pgdir fuel ((va0 + PGSIZE) % 2 ^ 32) (len - (PGSIZE - (va - va0)))
      else pure false

/-- `copyout`: does it succeed? Every turn but the last two copies a whole page. -/
def copyout (pgdir : PageDir) (va len : Nat) : Mem Bool :=
  copyoutLoop pgdir (len / PGSIZE + 2) va len

/-- `loaduvm`; `reads` says which pages are read in full. -/
def loaduvm (pgdir : PageDir) (addr sz : Nat) (reads : Nat → Bool) : Mem Bool := do
  if addr % PGSIZE ≠ 0 then throw .loaduvmAligned
  loop (pagesUpTo 0 sz)
where
  /-- The loop over the offsets still to load. -/
  loop : List Nat → Mem Bool
    | [] => pure true
    | i :: rest =>
      match walkpgdir pgdir (addr + i) with
      | none => throw .loaduvmAddress
      | some _ => if reads i then loop rest else pure false

/-- What `exec` finds in the file: nothing if the header is wrong, then for each program
header nothing if it cannot be read, or the header and the pages that can. -/
abbrev Image := Option (List (Option (Proghdr × (Nat → Bool))))

/-- The loop of `exec` over the program headers; no size where it jumps to `bad`. -/
def execSegments : List (Option (Proghdr × (Nat → Bool))) → PageDir → Nat →
    Mem (PageDir × Option Nat)
  | [], pgdir, sz => pure (pgdir, some sz)
  | none :: _, pgdir, _ => pure (pgdir, none)
  | some (ph, reads) :: rest, pgdir, sz =>
    if ph.type ≠ ELF_PROG_LOAD then execSegments rest pgdir sz
    else if ph.memsz < ph.filesz then pure (pgdir, none)
    else if (ph.vaddr + ph.memsz) % 2 ^ 32 < ph.vaddr then pure (pgdir, none)
    else do
      let (pgdir, sz) ← allocuvm pgdir sz ((ph.vaddr + ph.memsz) % 2 ^ 32)
      if sz = 0 then pure (pgdir, none)
      else if ph.vaddr % PGSIZE ≠ 0 then pure (pgdir, none)
      else if ← loaduvm pgdir ph.vaddr ph.filesz reads then execSegments rest pgdir sz
      else pure (pgdir, none)

/-- Subtraction of `uint`s. -/
def uintSub (a b : Nat) : Nat := (a + 2 ^ 32 - b % 2 ^ 32) % 2 ^ 32

/-- The loop of `exec` that pushes the argument strings, given by their lengths: the
stack pointer, or nothing where it jumps to `bad`. -/
def execArguments (pgdir : PageDir) : List Nat → Nat → Nat → Mem (Option Nat)
  | [], _, sp => pure (some sp)
  | strlen :: rest, argc, sp =>
    if MAXARG ≤ argc then pure none
    else do
      let sp := uintSub sp (strlen + 1) / 4 * 4
      if ← copyout pgdir sp (strlen + 1) then execArguments pgdir rest (argc + 1) sp
      else pure none

/-- The second half of `exec`: the stack and the arguments; no size at `bad`. -/
def execStack (pgdir : PageDir) (argv : List Nat) (sz : Nat) : Mem (PageDir × Option Nat) := do
  let (pgdir, sz) ← allocuvm pgdir (PGROUNDUP sz) (PGROUNDUP sz + 2 * PGSIZE)
  if sz = 0 then pure (pgdir, none)
  else do
    let pgdir ← clearpteu pgdir (sz - 2 * PGSIZE)
    match ← execArguments pgdir argv 0 sz with
    | none => pure (pgdir, none)
    | some sp =>
      let vector := (3 + argv.length + 1) * 4
      if ← copyout pgdir (uintSub sp vector) vector then pure (pgdir, some sz)
      else pure (pgdir, none)

/-- `exec` up to the commit: the new address space, or nothing after `bad`. -/
def execSpace (kmap : List Kmap) (image : Image) (argv : List Nat) :
    Mem (Option (PageDir × Nat)) := do
  match image with
  | none => pure none
  | some headers =>
    match ← setupkvm kmap with
    | none => pure none
    | some pgdir => do
        let (pgdir, loaded) ← execSegments headers pgdir 0
        match loaded with
        | none => do
            freevm pgdir
            pure none
        | some sz => do
            let (pgdir, size) ← execStack pgdir argv sz
            match size with
            | none => do
                freevm pgdir
                pure none
            | some sz => pure (some (pgdir, sz))

end Xv6.Vm
