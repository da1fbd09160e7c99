import Mathlib.Algebra.BigOperators.Fin
import Xv6.Kernel.Vm
import Xv6.Std.Counting

/-!
# No function of `vm.c` makes or loses a page

For any page, count the places where it is: on the free list, as a directory or a
page table, or in an entry of the user half of a page table. Every function passes on
what it was given, on its error paths too. `freevm` hands back everything because
`deallocuvm` leaves no entry below `KERNBASE`, whatever tables it has to skip.
-/

namespace Xv6

variable {table : PageTable} {va last a oldsz : Nat}

namespace Vm

/-- One if the page is there. -/
def here (x page : Page) : Nat := if page = x then 1 else 0

/-- The page in an entry of a page table. -/
def ptePlaces (x : Page) (entry : Option Pte) : Nat := entry.elim 0 fun pte => here x pte.pa

/-- The entries of a page table that map the page. -/
def PageTable.mapped (x : Page) (table : PageTable) : Nat :=
  Counting.total (ptePlaces x) table.pte

/-- The places of a page in a page table. Those of the kernel half map pages that are
somebody else's. -/
def pdePlaces (x : Page) (index : Fin NPDENTRIES) (entry : Option PageTable) : Nat :=
  entry.elim 0 fun table => here x table.page + if index.val < 512 then table.mapped x else 0

/-- The places of a page in an address space. -/
def PageDir.places (x : Page) (pgdir : PageDir) : Nat :=
  here x pgdir.page + Counting.totalAt (pdePlaces x) pgdir.pde

/-- The entry of an address. -/
def PageDir.entry (pgdir : PageDir) (va : Nat) : Option Pte :=
  (pgdir.pde (PDX va)).bind fun table => table.pte (PTX va)

end Vm

namespace Memory

open Counting Program Vm Function List

variable {x : Page} {pgdir : PageDir} {Value : Type}

/-- The program passes on the page. -/
abbrev Passes (x : Page) (owed : Nat) (program : Mem Value) (result : Value → Nat → Prop) : Prop :=
  Conserves (fun kmem : Kmem => kmem.freelist.count x) owed program result

/-! ## Entries -/

theorem places_set (pgdir : PageDir) (index : Fin NPDENTRIES) (entry : Option PageTable) :
    (pgdir.set index entry).places x + pdePlaces x index (pgdir.pde index) =
      pgdir.places x + pdePlaces x index entry := by
  have updated := totalAt_update (pdePlaces x) pgdir.pde index entry
  unfold PageDir.places PageDir.set
  dsimp only
  omega

theorem mapped_set (table : PageTable) (index : Fin NPTENTRIES) (entry : Option Pte) :
    (table.set index entry).mapped x + ptePlaces x (table.pte index) =
      table.mapped x + ptePlaces x entry :=
  total_update (ptePlaces x) table.pte index entry

theorem places_zero (page : Page) : (PageDir.zero page).places x = here x page := by
  unfold PageDir.places
  have none : totalAt (pdePlaces x) (PageDir.zero page).pde = 0 := Finset.sum_eq_zero fun _ _ => rfl
  rw [none]
  rfl

theorem pdePlaces_zero (index : Fin NPDENTRIES) (page : Page) :
    pdePlaces x index (some (.zero page)) = here x page := by
  have none : (PageTable.zero page).mapped x = 0 := total_eq_zero fun _ => rfl
  change here x page + (if index.val < 512 then (PageTable.zero page).mapped x else 0) = _
  rw [none]
  split <;> rfl

/-- An entry of the user half is a place. -/
theorem places_setPte_user (entry : Option Pte) (there : pgdir.pde (PDX va) = some table)
    (user : (PDX va).val < 512) :
    (pgdir.setPte table va entry).places x + ptePlaces x (table.pte (PTX va)) =
      pgdir.places x + ptePlaces x entry := by
  have outer := places_set (x := x) pgdir (PDX va) (some (table.set (PTX va) entry))
  have inner := mapped_set (x := x) table (PTX va) entry
  rw [there] at outer
  simp only [pdePlaces, Option.elim_some, if_pos user] at outer
  change (pgdir.set (PDX va) (some (table.set (PTX va) entry))).places x + _ = _
  have page : (table.set (PTX va) entry).page = table.page := rfl
  rw [page] at outer
  omega

/-- An entry of the kernel half is not. -/
theorem places_setPte_kernel (entry : Option Pte) (there : pgdir.pde (PDX va) = some table)
    (kernel : ¬(PDX va).val < 512) : (pgdir.setPte table va entry).places x = pgdir.places x := by
  have outer := places_set (x := x) pgdir (PDX va) (some (table.set (PTX va) entry))
  rw [there] at outer
  simp only [pdePlaces, Option.elim_some, if_neg kernel] at outer
  change (pgdir.set (PDX va) (some (table.set (PTX va) entry))).places x = _
  have page : (table.set (PTX va) entry).page = table.page := rfl
  rw [page] at outer
  omega

theorem pdx_user (below : va < KERNBASE) : (PDX va).val < 512 := by
  change va / 2 ^ 22 % 1024 < 512
  unfold KERNBASE at below
  omega

theorem pdx_kernel (above : KERNBASE ≤ va) (word : va < 2 ^ 32) : ¬(PDX va).val < 512 := by
  change ¬va / 2 ^ 22 % 1024 < 512
  unfold KERNBASE at above
  omega

theorem entry_eq (there : pgdir.pde (PDX va) = some table) :
    pgdir.entry va = table.pte (PTX va) := by
  unfold PageDir.entry
  rw [there]
  rfl

/-- Clearing the entry of one address leaves the missing entries missing. -/
theorem entry_setPte_none {va' : Nat} (there : pgdir.pde (PDX va) = some table)
    (missing : pgdir.entry va' = none) : (pgdir.setPte table va none).entry va' = none := by
  unfold PageDir.entry PageDir.setPte PageDir.set at *
  dsimp only at *
  by_cases same : PDX va' = PDX va
  · rw [same, there] at missing
    rw [same, update_self]
    change update table.pte (PTX va) none (PTX va') = none
    by_cases same' : PTX va' = PTX va
    · rw [same', update_self]
    · rw [update_of_ne same']
      exact missing
  · rw [update_of_ne same]
    exact missing

theorem entry_setPte_self (table : PageTable) (va : Nat) (entry : Option Pte) :
    (pgdir.setPte table va entry).entry va = entry := by
  unfold PageDir.entry PageDir.setPte PageDir.set
  dsimp only
  rw [update_self]
  exact update_self ..

/-! ## The allocator -/

theorem passes_kalloc (owed : Nat) :
    Passes x owed kalloc fun page left => left = owed + page.elim 0 (here x) := by
  constructor
  intro kmem
  unfold Sat kalloc
  cases kmem.refusals.headD false with
  | true => exact ⟨owed, rfl, rfl⟩
  | false =>
    cases found : kmem.freelist with
    | nil => exact ⟨owed, rfl, by simp only⟩
    | cons r next =>
      refine ⟨_, rfl, ?_⟩
      simp only [count_cons, Option.elim_some, here, beq_iff_eq]
      omega

theorem passes_kfree (v : Page) (kept : Nat) :
    Passes x (here x v + kept) (kfree v) fun _ left => left = kept := by
  constructor
  intro kmem
  by_cases outside : v % PGSIZE ≠ 0 ∨ v < kmem.first ∨ PHYSTOP ≤ v
  · unfold Sat kfree
    rw [if_pos outside]
    trivial
  · unfold Sat kfree
    rw [if_neg outside]
    refine ⟨kept, rfl, ?_⟩
    simp only [count_cons, here, beq_iff_eq]
    omega

/-! ## Mapping -/

/-- A page table that `walkpgdir` allocates is a place, and it has no entries. -/
theorem passes_walkpgdirAlloc (pgdir : PageDir) (va kept : Nat) :
    Passes x (pgdir.places x + kept) (walkpgdirAlloc pgdir va) fun result left =>
      left = result.1.places x + kept ∧
        ∀ table, result.2 = some table → result.1.pde (PDX va) = some table := by
  unfold walkpgdirAlloc
  cases found : pgdir.pde (PDX va) with
  | some table =>
    refine .pure ⟨rfl, ?_⟩
    rintro _ ⟨⟩
    exact found
  | none =>
    refine (passes_kalloc _).bind ?_
    rintro page left rfl
    cases page with
    | none => exact .pure ⟨by simp only [Option.elim_none, Nat.add_zero], nofun⟩
    | some page =>
      refine .pure ⟨?_, ?_⟩
      · have set := places_set (x := x) pgdir (PDX va) (some (.zero page))
        rw [found, pdePlaces_zero] at set
        simp only [pdePlaces, Option.elim_none, Option.elim_some] at set ⊢
        omega
      · rintro _ ⟨⟩
        exact update_self ..

/-- The loop of `mappages` over kernel addresses: what they map is no place. -/
theorem passes_mappagesLoop (perm : Nat) (aligned : last % PGSIZE = 0) (word : last < 2 ^ 32)
    (fuel : Nat) (pgdir : PageDir) (pa kept : Nat) (kernel : KERNBASE ≤ a) (before : a ≤ last)
    (alignedA : a % PGSIZE = 0) :
    Passes x (pgdir.places x + kept) (mappagesLoop perm last fuel pgdir a pa) fun result left =>
      left = result.1.places x + kept := by
  induction fuel generalizing pgdir a pa with
  | zero => exact .throw
  | succ fuel ih =>
    unfold mappagesLoop
    refine (passes_walkpgdirAlloc pgdir a kept).bind ?_
    rintro ⟨pgdir, table⟩ left ⟨rfl, there⟩
    cases table with
    | none => exact .pure rfl
    | some pgtab =>
      have found := there pgtab rfl
      dsimp only at found ⊢
      split
      · exact .throw
      · have same := places_setPte_kernel (x := x) (some { pa := pa, flags := perm ||| PTE_P })
          found (pdx_kernel kernel (by omega))
        rw [← same]
        apply Conserves.ite
        · intro _
          exact .pure rfl
        · intro more
          have next : a + PGSIZE ≤ last := by
            unfold PGSIZE at *
            omega
          rw [Nat.mod_eq_of_lt (by omega)]
          apply ih
          · omega
          · exact next
          · rw [Nat.add_mod_right]
            exact alignedA

theorem pgrounddown_mod (a : Nat) : PGROUNDDOWN a % PGSIZE = 0 := Nat.mul_mod_left ..

/-- Mapping a range of the kernel. -/
theorem passes_mappages_kernel (k : Kmap) (pgdir : PageDir) (kept : Nat) :
    Passes x (pgdir.places x + kept) (mappages pgdir k.virt k.size k.phys_start k.perm)
      fun result left => left = result.1.places x + kept := by
  obtain ⟨positive, within⟩ := k.within
  change 0 < k.size at positive
  change k.virt + k.size ≤ 2 ^ 32 at within
  have last : (k.virt + k.size + 2 ^ 32 - 1) % 2 ^ 32 = k.virt + k.size - 1 := by omega
  unfold mappages
  rw [last]
  have kernel := k.kernel
  apply passes_mappagesLoop
  · exact pgrounddown_mod _
  · exact Nat.lt_of_le_of_lt (Nat.div_mul_le_self ..) (by omega)
  · unfold PGROUNDDOWN KERNBASE PGSIZE at *
    omega
  · unfold PGROUNDDOWN
    apply Nat.mul_le_mul_right
    apply Nat.div_le_div_right
    omega
  · exact pgrounddown_mod _

/-- One turn of the loop of `mappages` at a user address: the page is in the new entry,
or still in hand. -/
theorem passes_mappagesLoop_user (pgdir : PageDir) {fuel : Nat} (pa perm kept : Nat)
    (user : a < KERNBASE) (some_ : fuel ≠ 0) :
    Passes x (here x pa + pgdir.places x + kept) (mappagesLoop perm a fuel pgdir a pa)
      fun result left =>
        left = (if result.2 then 0 else here x pa) + result.1.places x + kept := by
  cases fuel with
  | zero => exact absurd rfl some_
  | succ fuel =>
    unfold mappagesLoop
    have regroup : here x pa + pgdir.places x + kept = pgdir.places x + (here x pa + kept) := by
      omega
    rw [regroup]
    refine (passes_walkpgdirAlloc pgdir a (here x pa + kept)).bind ?_
    rintro ⟨pgdir, table⟩ left ⟨rfl, there⟩
    cases table with
    | none =>
      apply Conserves.pure
      simp only [Bool.false_eq_true, if_false]
      omega
    | some pgtab =>
      have found := there pgtab rfl
      dsimp only at found ⊢
      split
      · exact .throw
      · rename_i missing
        have set := places_setPte_user (x := x) (some { pa := pa, flags := perm ||| PTE_P })
          found (pdx_user user)
        rw [missing] at set
        simp only [ptePlaces, Option.elim_none, Option.elim_some] at set
        rw [if_pos rfl]
        apply Conserves.pure
        simp only [if_true]
        omega

theorem passes_mappages_user (pgdir : PageDir) (pa perm kept : Nat) (aligned : a % PGSIZE = 0)
    (user : a < KERNBASE) :
    Passes x (here x pa + pgdir.places x + kept) (mappages pgdir a PGSIZE pa perm)
      fun result left =>
        left = (if result.2 then 0 else here x pa) + result.1.places x + kept := by
  have first : PGROUNDDOWN a = a := Nat.div_mul_cancel (Nat.dvd_of_mod_eq_zero aligned)
  have last : PGROUNDDOWN ((a + PGSIZE + 2 ^ 32 - 1) % 2 ^ 32) = a := by
    have wrap : (a + PGSIZE + 2 ^ 32 - 1) % 2 ^ 32 = a + 4095 := by
      unfold KERNBASE at user
      unfold PGSIZE
      omega
    rw [wrap]
    unfold PGROUNDDOWN
    unfold PGSIZE at *
    omega
  unfold mappages
  rw [first, last]
  exact passes_mappagesLoop_user pgdir pa perm kept user (pow_ne_zero 20 two_ne_zero)

/-! ## Unmapping -/

/-- The loop of `deallocuvm` over user addresses: the pages go back to the free list and
no entry is left in the range. -/
theorem passes_deallocuvmLoop (user : oldsz ≤ KERNBASE) (fuel : Nat) (pgdir : PageDir) (kept : Nat)
    (aligned : a % PGSIZE = 0) (enough : oldsz ≤ a + fuel * PGSIZE) :
    Passes x (pgdir.places x + kept) (deallocuvmLoop oldsz fuel pgdir a) fun result left =>
      left = result.places x + kept ∧
        (∀ va, a ≤ va → va < oldsz → va % PGSIZE = 0 → result.entry va = none) ∧
        ∀ va, pgdir.entry va = none → result.entry va = none := by
  induction fuel generalizing pgdir a with
  | zero =>
    refine .pure ⟨rfl, ?_, fun _ missing => missing⟩
    intro va _ _
    omega
  | succ fuel ih =>
    rw [Nat.succ_mul] at enough
    unfold deallocuvmLoop
    apply Conserves.ite
    · intro more
      split
      · rename_i missing
        have bigger : a + PGSIZE ≤ ((PDX a).val + 1) * 2 ^ 22 := by
          change a + 4096 ≤ (a / 2 ^ 22 % 1024 + 1) * 2 ^ 22
          unfold PGSIZE at aligned
          unfold KERNBASE at user
          omega
        have aligned' : ((PDX a).val + 1) * 2 ^ 22 % PGSIZE = 0 := by
          unfold PGSIZE
          omega
        refine (ih pgdir aligned' (by omega)).mono ?_
        rintro result left ⟨rfl, cleared, kept⟩
        refine ⟨rfl, ?_, kept⟩
        intro va from_ below
        by_cases skipped : va < ((PDX a).val + 1) * 2 ^ 22
        · -- the skipped addresses have the page directory entry that is missing
          intro _
          apply kept
          have same : PDX va = PDX a := by
            apply Fin.ext
            change va / 2 ^ 22 % 1024 = a / 2 ^ 22 % 1024
            change va < (a / 2 ^ 22 % 1024 + 1) * 2 ^ 22 at skipped
            unfold KERNBASE at user
            omega
          unfold PageDir.entry
          rw [same, show pgdir.pde (PDX a) = none from missing]
          rfl
        · exact cleared va (by omega) below
      · rename_i pgtab found
        have found : pgdir.pde (PDX a) = some pgtab := found
        have aligned' : (a + PGSIZE) % PGSIZE = 0 := by
          rw [Nat.add_mod_right]
          exact aligned
        have range : ∀ va, a ≤ va → va % PGSIZE = 0 → va = a ∨ a + PGSIZE ≤ va := by
          intro va from_ alignedVa
          unfold PGSIZE at *
          omega
        split
        · rename_i missing
          refine (ih pgdir aligned' (by omega)).mono ?_
          rintro result left ⟨rfl, cleared, kept⟩
          refine ⟨rfl, ?_, kept⟩
          intro va from_ below alignedVa
          rcases range va from_ alignedVa with rfl | later
          · exact kept va ((entry_eq found).trans missing)
          · exact cleared va later below alignedVa
        · rename_i pte present
          have set := places_setPte_user (x := x) none found (pdx_user (by omega))
          rw [present] at set
          simp only [ptePlaces, Option.elim_none, Option.elim_some, Nat.add_zero] at set
          apply Conserves.ite
          · intro _
            exact .throw
          · intro _
            have freed := passes_kfree (x := x) pte.pa ((pgdir.setPte pgtab a none).places x + kept)
            rw [← Nat.add_assoc, Nat.add_comm (here x pte.pa), set] at freed
            refine freed.bind ?_
            rintro _ left rfl
            refine (ih (pgdir.setPte pgtab a none) aligned' (by omega)).mono ?_
            rintro result left ⟨rfl, cleared, kept⟩
            refine ⟨rfl, ?_, fun va missing => kept va (entry_setPte_none found missing)⟩
            intro va from_ below alignedVa
            rcases range va from_ alignedVa with rfl | later
            · exact kept va (entry_setPte_self ..)
            · exact cleared va later below alignedVa
    · intro done
      refine .pure ⟨rfl, ?_, fun _ missing => missing⟩
      intro va _ _
      omega

theorem pgroundup_mod (sz : Nat) : PGROUNDUP sz % PGSIZE = 0 := Nat.mul_mod_left ..

/-- `deallocuvm` within the user half. -/
theorem passes_deallocuvm (pgdir : PageDir) (newsz kept : Nat) (user : oldsz ≤ KERNBASE) :
    Passes x (pgdir.places x + kept) (deallocuvm pgdir oldsz newsz) fun result left =>
      left = result.1.places x + kept ∧ result.2 ≤ oldsz ∧
        ∀ va, PGROUNDUP newsz ≤ va → va < oldsz → va % PGSIZE = 0 → result.1.entry va = none := by
  unfold deallocuvm
  apply Conserves.ite
  · intro smaller
    refine .pure ⟨rfl, Nat.le_refl _, ?_⟩
    intro va from_ below
    unfold PGROUNDUP PGSIZE at from_
    omega
  · intro larger
    have enough : oldsz ≤ PGROUNDUP newsz + (oldsz / PGSIZE + 1) * PGSIZE := by
      unfold PGSIZE
      omega
    refine (passes_deallocuvmLoop user _ pgdir kept (pgroundup_mod newsz) enough).bind ?_
    rintro result left ⟨rfl, cleared, -⟩
    exact .pure ⟨rfl, by omega, cleared⟩

/-- The loop of `freevm` over the page tables. -/
theorem passes_freeTables (pgdir : PageDir) (kept : Nat) (list : List (Fin NPDENTRIES)) :
    Passes x ((list.map fun i => (pgdir.pde i).elim 0 fun table => here x table.page).sum + kept)
      (forM list fun i =>
        match pgdir.pde i with
        | none => pure ()
        | some pgtab => kfree pgtab.page) fun _ left => left = kept := by
  induction list with
  | nil => exact .pure (by simp only [map_nil, sum_nil, Nat.zero_add])
  | cons i rest ih =>
    rw [forM_cons, map_cons, sum_cons]
    cases found : pgdir.pde i with
    | none =>
      simp only [Option.elim_none, Nat.zero_add, pure_bind]
      exact ih
    | some table =>
      rw [Option.elim_some, Nat.add_assoc]
      refine (passes_kfree table.page _).bind ?_
      rintro _ left rfl
      exact ih

/-- Without entries in its user half, an address space is its directory and page tables. -/
theorem places_of_cleared (cleared : ∀ va, va < KERNBASE → va % PGSIZE = 0 → pgdir.entry va = none) :
    pgdir.places x = here x pgdir.page +
      ((List.finRange NPDENTRIES).map fun i =>
        (pgdir.pde i).elim 0 fun table => here x table.page).sum := by
  unfold PageDir.places totalAt
  rw [Fin.sum_univ_def]
  congr 3
  ext1 i
  unfold pdePlaces
  cases found : pgdir.pde i with
  | none => rfl
  | some table =>
    simp only [Option.elim_some]
    split
    · rename_i user
      have none : table.mapped x = 0 := by
        apply total_eq_zero
        intro j
        -- the address with these two indices
        have bound : j.val < 1024 := j.isLt
        have pdx : PDX (i.val * 2 ^ 22 + j.val * 2 ^ 12) = i := by
          apply Fin.ext
          change (i.val * 2 ^ 22 + j.val * 2 ^ 12) / 2 ^ 22 % 1024 = i.val
          omega
        have ptx : PTX (i.val * 2 ^ 22 + j.val * 2 ^ 12) = j := by
          apply Fin.ext
          change (i.val * 2 ^ 22 + j.val * 2 ^ 12) / 2 ^ 12 % 1024 = j.val
          omega
        have missing := cleared (i.val * 2 ^ 22 + j.val * 2 ^ 12)
          (by unfold KERNBASE; omega) (by unfold PGSIZE; omega)
        rw [entry_eq (by rw [pdx]; exact found), ptx] at missing
        rw [missing]
        rfl
      rw [none, Nat.add_zero]
    · rfl

/-- `freevm` hands back the whole address space. -/
theorem passes_freevm (pgdir : PageDir) (kept : Nat) :
    Passes x (pgdir.places x + kept) (freevm pgdir) fun _ left => left = kept := by
  unfold freevm
  refine (passes_deallocuvm pgdir 0 kept (Nat.le_refl _)).bind ?_
  rintro ⟨pgdir, sz⟩ left ⟨rfl, -, cleared⟩
  have all : ∀ va, va < KERNBASE → va % PGSIZE = 0 → pgdir.entry va = none := by
    intro va
    exact cleared va (Nat.zero_le _)
  dsimp only
  rw [places_of_cleared all, Nat.add_comm (here x pgdir.page), Nat.add_assoc]
  refine (passes_freeTables pgdir _ _).bind ?_
  rintro _ left rfl
  exact passes_kfree pgdir.page kept

/-! ## Address spaces -/

/-- The places of a page in a result that may be no address space. -/
def spacePlaces (x : Page) (space : Option PageDir) : Nat := space.elim 0 (PageDir.places x)

theorem passes_setupkvmLoop (kmap : List Kmap) (pgdir : PageDir) (kept : Nat) :
    Passes x (pgdir.places x + kept) (setupkvmLoop pgdir kmap) fun result left =>
      left = spacePlaces x result + kept := by
  induction kmap generalizing pgdir with
  | nil => exact .pure rfl
  | cons k rest ih =>
    unfold setupkvmLoop
    refine (passes_mappages_kernel k pgdir kept).bind ?_
    rintro ⟨pgdir, mapped⟩ left rfl
    apply Conserves.ite
    · intro _
      exact ih pgdir
    · intro _
      refine (passes_freevm pgdir kept).bind ?_
      rintro _ left rfl
      exact .pure (Nat.zero_add _).symm

theorem passes_setupkvm (kmap : List Kmap) (kept : Nat) :
    Passes x kept (setupkvm kmap) fun result left => left = spacePlaces x result + kept := by
  unfold setupkvm
  refine (passes_kalloc kept).bind ?_
  rintro page left rfl
  cases page with
  | none => exact .pure (Nat.add_comm ..)
  | some page =>
    rw [Option.elim_some, Nat.add_comm, ← places_zero]
    exact passes_setupkvmLoop kmap (.zero page) kept

theorem pagesUpTo_cons (more : a < last) : pagesUpTo a last = a :: pagesUpTo (a + PGSIZE) last := by
  have count : (last - a + (PGSIZE - 1)) / PGSIZE =
      (last - (a + PGSIZE) + (PGSIZE - 1)) / PGSIZE + 1 := by
    unfold PGSIZE
    omega
  unfold pagesUpTo
  rw [count, range_succ_eq_map, map_cons, map_map]
  congr 1
  apply map_congr_left
  intro i _
  unfold PGSIZE
  simp only [Function.comp_apply]
  omega

theorem pagesUpTo_nil (done : last ≤ a) : pagesUpTo a last = [] := by
  have count : (last - a + (PGSIZE - 1)) / PGSIZE = 0 := by
    unfold PGSIZE
    omega
  unfold pagesUpTo
  rw [count]
  rfl

theorem mem_pagesUpTo (aligned : a % PGSIZE = 0) (among : va ∈ pagesUpTo a last) :
    va % PGSIZE = 0 ∧ va < last := by
  obtain ⟨i, below, rfl⟩ := mem_map.mp among
  rw [mem_range] at below
  unfold PGSIZE at *
  omega

theorem passes_allocuvmLoop {newsz : Nat} (user : newsz ≤ KERNBASE) (list : List Nat)
    (pgdir : PageDir) (kept : Nat) (pages : ∀ a ∈ list, a % PGSIZE = 0 ∧ a < newsz) :
    Passes x (pgdir.places x + kept) (allocuvmLoop oldsz newsz list pgdir) fun result left =>
      left = result.1.places x + kept ∧ (result.2 = newsz ∨ result.2 = 0) := by
  induction list generalizing pgdir with
  | nil => exact .pure ⟨rfl, .inl rfl⟩
  | cons a rest ih =>
    obtain ⟨aligned, below⟩ := pages a mem_cons_self
    unfold allocuvmLoop
    refine (passes_kalloc _).bind ?_
    rintro page left rfl
    cases page with
    | none =>
      rw [Option.elim_none, Nat.add_zero]
      refine (passes_deallocuvm pgdir oldsz kept user).bind ?_
      rintro ⟨pgdir, sz⟩ left ⟨rfl, -⟩
      exact .pure ⟨rfl, .inr rfl⟩
    | some mem =>
      rw [Option.elim_some, Nat.add_comm, ← Nat.add_assoc]
      refine (passes_mappages_user pgdir mem _ kept aligned (by omega)).bind ?_
      rintro ⟨pgdir, mapped⟩ left rfl
      cases mapped with
      | true =>
        dsimp only
        rw [if_pos rfl, if_pos rfl, Nat.zero_add]
        exact ih pgdir fun a among => pages a (mem_cons_of_mem _ among)
      | false =>
        dsimp only
        have regroup : here x mem + pgdir.places x + kept =
            pgdir.places x + (here x mem + kept) := by omega
        rw [if_neg Bool.false_ne_true, if_neg Bool.false_ne_true, regroup]
        refine (passes_deallocuvm pgdir oldsz _ user).bind ?_
        rintro ⟨pgdir, sz⟩ left ⟨rfl, -⟩
        have regroup : pgdir.places x + (here x mem + kept) =
            here x mem + (pgdir.places x + kept) := by omega
        dsimp only
        rw [regroup]
        refine (passes_kfree mem _).bind ?_
        rintro _ left rfl
        exact .pure ⟨rfl, .inr rfl⟩

/-- `allocuvm` keeps every page it allocates in the address space or gives it back. -/
theorem passes_allocuvm (pgdir : PageDir) {newsz : Nat} (kept : Nat)
    (user : newsz < oldsz → oldsz < KERNBASE) :
    Passes x (pgdir.places x + kept) (Vm.allocuvm pgdir oldsz newsz) fun result left =>
      left = result.1.places x + kept ∧ result.2 < KERNBASE := by
  have positive : 0 < KERNBASE := by decide
  unfold Vm.allocuvm
  apply Conserves.ite
  · intro _
    exact .pure ⟨rfl, positive⟩
  · intro below
    apply Conserves.ite
    · intro shrinks
      exact .pure ⟨rfl, user shrinks⟩
    · intro _
      have pages : ∀ a ∈ pagesUpTo (PGROUNDUP oldsz) newsz, a % PGSIZE = 0 ∧ a < newsz :=
        fun a => mem_pagesUpTo (pgroundup_mod oldsz)
      refine (passes_allocuvmLoop (by omega) _ pgdir kept pages).mono ?_
      rintro result left ⟨same, size⟩
      exact ⟨same, by omega⟩

theorem passes_copyuvmLoop (pgdir : PageDir) (list : List Nat) (d : PageDir) (kept : Nat)
    (pages : ∀ i ∈ list, i % PGSIZE = 0 ∧ i < KERNBASE) :
    Passes x (d.places x + kept) (copyuvmLoop pgdir list d) fun result left =>
      left = spacePlaces x result + kept := by
  induction list generalizing d with
  | nil => exact .pure rfl
  | cons i rest ih =>
    obtain ⟨aligned, below⟩ := pages i mem_cons_self
    unfold copyuvmLoop
    split
    · exact .throw
    · split
      · exact .throw
      · rename_i pte _
        refine (passes_kalloc _).bind ?_
        rintro page left rfl
        cases page with
        | none =>
          rw [Option.elim_none, Nat.add_zero]
          refine (passes_freevm d kept).bind ?_
          rintro _ left rfl
          exact .pure (Nat.zero_add _).symm
        | some mem =>
          rw [Option.elim_some, Nat.add_comm, ← Nat.add_assoc]
          refine (passes_mappages_user d mem pte.flags kept aligned below).bind ?_
          rintro ⟨d, mapped⟩ left rfl
          cases mapped with
          | true =>
            dsimp only
            rw [if_pos rfl, if_pos rfl, Nat.zero_add]
            exact ih d fun i among => pages i (mem_cons_of_mem _ among)
          | false =>
            dsimp only
            rw [if_neg Bool.false_ne_true, if_neg Bool.false_ne_true, Nat.add_assoc]
            refine (passes_kfree mem _).bind ?_
            rintro _ left rfl
            refine (passes_freevm d kept).bind ?_
            rintro _ left rfl
            exact .pure (Nat.zero_add _).symm

/-- `copyuvm` returns all the pages it has, in the copy or to the free list. -/
theorem passes_copyuvm (kmap : List Kmap) (pgdir : PageDir) {sz : Nat} (kept : Nat)
    (user : sz ≤ KERNBASE) :
    Passes x kept (copyuvm kmap pgdir sz) fun result left =>
      left = spacePlaces x result + kept := by
  unfold copyuvm
  refine (passes_setupkvm kmap kept).bind ?_
  rintro space left rfl
  cases space with
  | none => exact .pure rfl
  | some d =>
    apply passes_copyuvmLoop
    intro i among
    obtain ⟨aligned, below⟩ := mem_pagesUpTo (Nat.zero_mod _) among
    exact ⟨aligned, by omega⟩

/-! ## `exec` -/

theorem passes_clearpteu (pgdir : PageDir) {uva : Nat} (kept : Nat) (user : uva < KERNBASE) :
    Passes x (pgdir.places x + kept) (clearpteu pgdir uva) fun result left =>
      left = result.places x + kept := by
  unfold clearpteu
  split
  · exact .throw
  · rename_i pgtab found
    apply Conserves.pure
    have set := places_setPte_user (x := x)
      ((pgtab.pte (PTX uva)).map fun pte => { pte with flags := pte.flags &&& (0xFFF - PTE_U) })
      found (pdx_user user)
    have same : ptePlaces x ((pgtab.pte (PTX uva)).map fun pte =>
        { pte with flags := pte.flags &&& (0xFFF - PTE_U) }) = ptePlaces x (pgtab.pte (PTX uva)) := by
      cases pgtab.pte (PTX uva) <;> rfl
    omega

theorem passes_uva2ka (pgdir : PageDir) (uva owed : Nat) :
    Passes x owed (uva2ka pgdir uva) fun _ left => left = owed := by
  unfold uva2ka
  split
  · exact .throw
  · exact .pure rfl

theorem passes_copyoutLoop (pgdir : PageDir) (fuel va len owed : Nat) :
    Passes x owed (copyoutLoop pgdir fuel va len) fun _ left => left = owed := by
  induction fuel generalizing va len with
  | zero => exact .pure rfl
  | succ fuel ih =>
    unfold copyoutLoop
    apply Conserves.ite
    · intro _
      exact .pure rfl
    · intro _
      refine (passes_uva2ka pgdir _ owed).bind ?_
      rintro mapped left rfl
      apply Conserves.ite
      · intro _
        exact ih _ _
      · intro _
        exact .pure rfl

theorem passes_loaduvmLoop (pgdir : PageDir) (addr : Nat) (reads : Nat → Bool) (list : List Nat)
    (owed : Nat) :
    Passes x owed (loaduvm.loop pgdir addr reads list) fun _ left => left = owed := by
  induction list with
  | nil => exact .pure rfl
  | cons i rest ih =>
    unfold loaduvm.loop
    split
    · exact .throw
    · apply Conserves.ite
      · intro _
        exact ih
      · intro _
        exact .pure rfl

theorem passes_loaduvm (pgdir : PageDir) (addr sz : Nat) (reads : Nat → Bool) (owed : Nat) :
    Passes x owed (Vm.loaduvm pgdir addr sz reads) fun _ left => left = owed := by
  unfold Vm.loaduvm
  apply Conserves.ite
  · intro _
    exact .throw
  · intro _
    exact passes_loaduvmLoop pgdir addr reads _ owed

theorem passes_execSegments (headers : List (Option (Proghdr × (Nat → Bool)))) (pgdir : PageDir)
    {sz : Nat} (kept : Nat) (user : sz < KERNBASE) :
    Passes x (pgdir.places x + kept) (Vm.execSegments headers pgdir sz) fun result left =>
      left = result.1.places x + kept ∧ ∀ sz, result.2 = some sz → sz < KERNBASE := by
  induction headers generalizing pgdir sz with
  | nil =>
    refine .pure ⟨rfl, ?_⟩
    rintro _ ⟨⟩
    exact user
  | cons header rest ih =>
    cases header with
    | none => exact .pure ⟨rfl, nofun⟩
    | some header =>
      obtain ⟨ph, reads⟩ := header
      unfold Vm.execSegments
      apply Conserves.ite
      · intro _
        exact ih pgdir user
      intro _
      apply Conserves.ite
      · intro _
        exact .pure ⟨rfl, nofun⟩
      intro _
      apply Conserves.ite
      · intro _
        exact .pure ⟨rfl, nofun⟩
      intro _
      refine (passes_allocuvm pgdir kept fun _ => user).bind ?_
      rintro ⟨pgdir, sz⟩ left ⟨rfl, user⟩
      apply Conserves.ite
      · intro _
        exact .pure ⟨rfl, nofun⟩
      intro _
      apply Conserves.ite
      · intro _
        exact .pure ⟨rfl, nofun⟩
      intro _
      refine (passes_loaduvm pgdir _ _ reads _).bind ?_
      rintro loaded left rfl
      apply Conserves.ite
      · intro _
        exact ih pgdir user
      · intro _
        exact .pure ⟨rfl, nofun⟩

theorem passes_execArguments (pgdir : PageDir) (argv : List Nat) (argc sp owed : Nat) :
    Passes x owed (execArguments pgdir argv argc sp) fun _ left => left = owed := by
  induction argv generalizing argc sp with
  | nil => exact .pure rfl
  | cons strlen rest ih =>
    unfold execArguments
    apply Conserves.ite
    · intro _
      exact .pure rfl
    · intro _
      refine (passes_copyoutLoop pgdir _ _ _ owed).bind ?_
      rintro copied left rfl
      apply Conserves.ite
      · intro _
        exact ih _ _
      · intro _
        exact .pure rfl

theorem passes_execStack (pgdir : PageDir) (argv : List Nat) (sz kept : Nat) :
    Passes x (pgdir.places x + kept) (Vm.execStack pgdir argv sz) fun result left =>
      left = result.1.places x + kept ∧ ∀ sz, result.2 = some sz → sz < KERNBASE := by
  unfold Vm.execStack
  refine (passes_allocuvm pgdir kept (by omega)).bind ?_
  rintro ⟨pgdir, sz⟩ left ⟨rfl, user⟩
  apply Conserves.ite
  · intro _
    exact .pure ⟨rfl, nofun⟩
  intro _
  dsimp only at user
  refine (passes_clearpteu pgdir kept (by omega)).bind ?_
  rintro pgdir left rfl
  refine (passes_execArguments pgdir argv _ _ _).bind ?_
  rintro pushed left rfl
  cases pushed with
  | none => exact .pure ⟨rfl, nofun⟩
  | some sp =>
    refine (passes_copyoutLoop pgdir _ _ _ _).bind ?_
    rintro copied left rfl
    apply Conserves.ite
    · intro _
      refine .pure ⟨rfl, ?_⟩
      rintro _ ⟨⟩
      exact user
    · intro _
      exact .pure ⟨rfl, nofun⟩

/-- `exec` up to its commit: the pages are in the new address space or free again. -/
theorem passes_execSpace (kmap : List Kmap) (image : Image) (argv : List Nat) (kept : Nat) :
    Passes x kept (execSpace kmap image argv) fun result left =>
      left = spacePlaces x (result.map Prod.fst) + kept ∧
        ∀ space, result = some space → space.2 < KERNBASE := by
  unfold execSpace
  cases image with
  | none => exact .pure ⟨(Nat.zero_add _).symm, nofun⟩
  | some headers =>
    refine (passes_setupkvm kmap kept).bind ?_
    rintro space left rfl
    cases space with
    | none => exact .pure ⟨rfl, nofun⟩
    | some pgdir =>
      have bad : ∀ pgdir : PageDir, Passes x (pgdir.places x + kept)
          (do freevm pgdir; pure none) fun (result : Option (PageDir × Nat)) left =>
            left = spacePlaces x (result.map Prod.fst) + kept ∧
              ∀ space, result = some space → space.2 < KERNBASE := by
        intro pgdir
        refine (passes_freevm pgdir kept).bind ?_
        rintro _ left rfl
        exact .pure ⟨(Nat.zero_add _).symm, nofun⟩
      refine (passes_execSegments headers pgdir kept (by decide)).bind ?_
      rintro ⟨pgdir, loaded⟩ left ⟨rfl, -⟩
      cases loaded with
      | none => exact bad pgdir
      | some sz =>
        dsimp only
        refine (passes_execStack pgdir argv sz kept).bind ?_
        rintro ⟨pgdir, size⟩ left ⟨rfl, user⟩
        cases size with
        | none => exact bad pgdir
        | some sz =>
          refine .pure ⟨rfl, ?_⟩
          rintro _ ⟨⟩
          exact user sz rfl

end Memory

end Xv6
