import Xv6.Memory.Stack

/-!
# Building an address space with enough pages

A directory has room for `NPDENTRIES` page tables. As long as the free pages and the
tables that are there make up for all of them, `walkpgdir` finds a page for every table
it adds, so `mappages` maps all of its range. Tables are added for the range only.
-/

namespace Xv6.Memory

open Program Vm Uvm Function List Finset

variable {spare va : Nat} {kmem : Kmem} {pgdir next : PageDir} {i : Fin NPDENTRIES}

/-! ## Page tables -/

/-- How many page tables there are. -/
def tables (pgdir : PageDir) : Nat := (Finset.univ.filter fun i => (pgdir.pde i).isSome).card

theorem tables_lt (missing : pgdir.pde i = none) : tables pgdir < NPDENTRIES := by
  have absent : i ∉ Finset.univ.filter fun i => (pgdir.pde i).isSome := by
    simp [missing]
  calc tables pgdir < Fintype.card (Fin NPDENTRIES) := card_lt_univ_of_notMem absent
    _ = NPDENTRIES := Fintype.card_fin _

theorem present_set (pgdir : PageDir) (i : Fin NPDENTRIES) (table : PageTable) :
    (Finset.univ.filter fun j => ((pgdir.set i (some table)).pde j).isSome) =
      insert i (Finset.univ.filter fun j => (pgdir.pde j).isSome) := by
  ext j
  rw [mem_insert, mem_filter_univ, mem_filter_univ]
  by_cases same : j = i
  · simp [PageDir.set, same]
  · simp [PageDir.set, same]

theorem tables_set_of_none (missing : pgdir.pde i = none) (table : PageTable) :
    tables (pgdir.set i (some table)) = tables pgdir + 1 := by
  unfold tables
  rw [present_set, card_insert_of_notMem]
  simp [missing]

theorem tables_set_of_some {old : PageTable} (there : pgdir.pde i = some old) (table : PageTable) :
    tables (pgdir.set i (some table)) = tables pgdir := by
  unfold tables
  rw [present_set, insert_eq_of_mem]
  simp [there]

/-- The page table is not for a range of addresses. -/
def Beside (first last : Nat) (i : Fin NPDENTRIES) : Prop := i < first / 2 ^ 22 ∨ last / 2 ^ 22 < i

theorem Beside.ne_pdx {first last : Nat} (beside : Beside first last i) (low : first ≤ va)
    (high : va ≤ last) (word : va < 2 ^ 32) : i ≠ PDX va := by
  rintro rfl
  have index : (PDX va).val = va / 2 ^ 22 % 1024 := rfl
  unfold Beside at beside
  omega

/-! ## Enough pages -/

/-- No request is refused, and beyond all tables there are pages to spare. -/
structure Stocked (spare : Nat) (kmem : Kmem) (pgdir : PageDir) : Prop where
  willing : kmem.refusals = []
  enough : NPDENTRIES + spare ≤ kmem.freelist.length + tables pgdir

theorem sat_kalloc_willing (willing : kmem.refusals = []) (stock : 0 < kmem.freelist.length)
    {fault : Vm.Panic → Kmem → Prop} :
    Sat kalloc kmem (fun page after => page ≠ none ∧ after.refusals = [] ∧
      after.freelist.length + 1 = kmem.freelist.length) fault := by
  obtain ⟨freelist, first, refusals⟩ := kmem
  dsimp only at willing stock ⊢
  subst willing
  cases freelist with
  | nil => exact absurd stock (Nat.lt_irrefl 0)
  | cons page rest => exact ⟨nofun, rfl, rfl⟩

theorem sat_walkpgdirAlloc_stocked (va : Nat) (stocked : Stocked spare kmem pgdir)
    {fault : Vm.Panic → Kmem → Prop} :
    Sat (walkpgdirAlloc pgdir va) kmem (fun result after =>
      (∃ table, result.2 = some table ∧ result.1.pde (PDX va) = some table) ∧
      Stocked spare after result.1 ∧ ∀ i, i ≠ PDX va → result.1.pde i = pgdir.pde i) fault := by
  unfold walkpgdirAlloc
  cases found : pgdir.pde (PDX va) with
  | some table => exact ⟨⟨table, rfl, found⟩, stocked, fun _ _ => rfl⟩
  | none =>
    have room := tables_lt found
    have enough := stocked.enough
    refine (sat_kalloc_willing stocked.willing (by omega)).bind ?_
    rintro page after ⟨given, willing, fewer⟩
    cases page with
    | none => exact absurd rfl given
    | some page =>
      refine ⟨⟨.zero page, rfl, update_self ..⟩, ⟨willing, ?_⟩, ?_⟩
      · rw [tables_set_of_none found]
        omega
      · exact fun i other => update_of_ne other ..

theorem Stocked.setPte {table : PageTable} (stocked : Stocked spare kmem pgdir)
    (there : pgdir.pde (PDX va) = some table) (entry : Option Pte) :
    Stocked spare kmem (pgdir.setPte table va entry) := by
  refine ⟨stocked.willing, ?_⟩
  unfold PageDir.setPte
  rw [tables_set_of_some there]
  exact stocked.enough

/-- The loop of `mappages` maps everything, or meets an entry that is already there. -/
theorem sat_mappagesLoop_stocked (perm : Nat) {last : Nat} (alignedLast : last % PGSIZE = 0)
    (word : last < 2 ^ 32) (fuel : Nat) {a : Nat} (pa : Nat) (kmem : Kmem) (before : a ≤ last)
    (aligned : a % PGSIZE = 0) (stocked : Stocked spare kmem pgdir) :
    Sat (mappagesLoop perm last fuel pgdir a pa) kmem (fun result after =>
      result.2 = true ∧ Stocked spare after result.1 ∧
        ∀ i, Beside a last i → result.1.pde i = pgdir.pde i)
      fun raised _ => raised = .remap := by
  induction fuel generalizing pgdir a pa kmem with
  | zero => rfl
  | succ fuel ih =>
    unfold mappagesLoop
    refine (sat_walkpgdirAlloc_stocked a stocked).bind ?_
    rintro ⟨walked, _⟩ middle ⟨⟨table, rfl, there⟩, stocked, same⟩
    dsimp only at there stocked same ⊢
    have mapped : ∀ entry i, Beside a last i →
        (walked.setPte table a entry).pde i = pgdir.pde i := by
      intro entry i beside
      have other : i ≠ PDX a := beside.ne_pdx (Nat.le_refl a) before (by omega)
      rw [← same i other]
      exact update_of_ne other ..
    split
    · rfl
    · rw [sat_ite]
      split
      · exact ⟨rfl, stocked.setPte there _, mapped _⟩
      · rename_i more
        have further : a + PGSIZE ≤ last := by
          unfold PGSIZE at *
          omega
        have next : (a + PGSIZE) % 2 ^ 32 = a + PGSIZE := Nat.mod_eq_of_lt (by omega)
        rw [next]
        refine (ih _ middle further (by rw [Nat.add_mod_right, aligned])
          (stocked.setPte there _)).weaken ?_
        rintro result after ⟨all, stocked, same'⟩
        refine ⟨all, stocked, fun i beside => ?_⟩
        rw [same' i, mapped _ i beside]
        unfold Beside at *
        omega

theorem sat_mappages_stocked {size : Nat} (pa perm : Nat) (kmem : Kmem) (aligned : va % PGSIZE = 0)
    (positive : 0 < size) (within : va + size ≤ 2 ^ 32) (stocked : Stocked spare kmem pgdir) :
    Sat (mappages pgdir va size pa perm) kmem (fun result after =>
      result.2 = true ∧ Stocked spare after result.1 ∧
        ∀ i, Beside va (va + size - 1) i → result.1.pde i = pgdir.pde i)
      fun raised _ => raised = .remap := by
  have wrap : (va + size + 2 ^ 32 - 1) % 2 ^ 32 = va + size - 1 := by omega
  have low := pgrounddown_le (va + size - 1)
  have alignedLast : PGROUNDDOWN (va + size - 1) % PGSIZE = 0 := Nat.mul_mod_left ..
  have table : PGROUNDDOWN (va + size - 1) / 2 ^ 22 = (va + size - 1) / 2 ^ 22 := by
    unfold PGROUNDDOWN PGSIZE
    omega
  have before : va ≤ PGROUNDDOWN (va + size - 1) := by
    unfold PGROUNDDOWN
    unfold PGSIZE at *
    omega
  unfold mappages
  rw [wrap, pgrounddown_eq aligned]
  refine (sat_mappagesLoop_stocked perm alignedLast (by omega) (2 ^ 20) pa kmem before aligned
    stocked).weaken ?_
  rintro result after ⟨all, stocked, same⟩
  refine ⟨all, stocked, fun i beside => same i ?_⟩
  unfold Beside at *
  rwa [table]

/-! ## The kernel half -/

theorem sat_setupkvmLoop_stocked (kmap : List Kmap) (kmem : Kmem)
    (aligned : ∀ k ∈ kmap, k.virt % PGSIZE = 0) (stocked : Stocked spare kmem pgdir) :
    Sat (setupkvmLoop pgdir kmap) kmem (fun result after => ∃ d, result = some d ∧
      Stocked spare after d ∧
        ∀ i, (∀ k ∈ kmap, Beside k.virt (k.virt + k.size - 1) i) → d.pde i = pgdir.pde i)
      fun raised _ => raised = .remap := by
  induction kmap generalizing pgdir kmem with
  | nil => exact ⟨pgdir, rfl, stocked, fun _ _ => rfl⟩
  | cons k rest ih =>
    unfold setupkvmLoop
    refine (sat_mappages_stocked k.phys_start k.perm kmem (aligned k mem_cons_self) k.within.1
      k.within.2 stocked).bind ?_
    rintro ⟨mapped, _⟩ middle ⟨rfl, stocked, same⟩
    dsimp only at same ⊢
    rw [if_pos rfl]
    refine (ih middle (fun k' among => aligned k' (mem_cons_of_mem _ among))
      stocked).weaken ?_
    rintro _ after ⟨d, rfl, stocked, same'⟩
    refine ⟨d, rfl, stocked, fun i beside => ?_⟩
    rw [same' i fun k' among => beside k' (mem_cons_of_mem _ among)]
    exact same i (beside k mem_cons_self)

/-- With enough pages, `setupkvm` succeeds, and adds tables for the kernel only. -/
theorem sat_setupkvm_stocked {kmap : List Kmap} (layout : Layout kmap) (willing : kmem.refusals = [])
    (enough : NPDENTRIES + spare + 1 ≤ kmem.freelist.length) :
    Sat (setupkvm kmap) kmem (fun result after => ∃ d, result = some d ∧ Stocked spare after d ∧
      Draws kmem after ∧ Bare kmap d ∧
        ∀ i, (∀ k ∈ kmap, Beside k.virt (k.virt + k.size - 1) i) → d.pde i = none)
      fun _ _ => False := by
  have builds : Sat (setupkvm kmap) kmem (fun result after => ∃ d, result = some d ∧
      Stocked spare after d ∧
        ∀ i, (∀ k ∈ kmap, Beside k.virt (k.virt + k.size - 1) i) → d.pde i = none)
      fun raised _ => raised = .remap := by
    unfold setupkvm
    refine (sat_kalloc_willing willing (by omega)).bind ?_
    rintro page middle ⟨given, willing, fewer⟩
    cases page with
    | none => exact absurd rfl given
    | some page =>
      have stocked : Stocked spare middle (.zero page) := ⟨willing, by omega⟩
      exact sat_setupkvmLoop_stocked kmap middle (fun k among => (layout.aligned k among).1) stocked
  refine ((sat_setupkvm layout kmem).and builds).mono ?_ ?_
  · rintro _ after ⟨built, d, rfl, stocked, tables⟩
    obtain ⟨draws, bare⟩ := built d rfl
    exact ⟨d, rfl, stocked, draws, bare, tables⟩
  · rintro _ after ⟨rfl, remap⟩
    cases remap

/-! ## The user half -/

theorem sat_allocuvmLoop_stocked {oldsz newsz : Nat} (user : newsz < KERNBASE) (list : List Nat)
    (kmem : Kmem) (inside : ∀ a ∈ list, a % PGSIZE = 0 ∧ a + PGSIZE ≤ newsz)
    (stocked : Stocked list.length kmem pgdir) :
    Sat (Vm.allocuvmLoop oldsz newsz list pgdir) kmem (fun result _ => result.2 = newsz ∧
      ∀ i, Beside 0 (newsz - 1) i → result.1.pde i = pgdir.pde i) fun raised _ => raised = .remap := by
  induction list generalizing pgdir kmem with
  | nil => exact ⟨rfl, fun _ _ => rfl⟩
  | cons a rest ih =>
    obtain ⟨aligned, fits⟩ := inside a mem_cons_self
    have enough := stocked.enough
    rw [length_cons] at enough
    unfold Vm.allocuvmLoop
    have stock : 0 < kmem.freelist.length := by
      have bound : tables pgdir ≤ NPDENTRIES := (card_le_univ _).trans_eq (Fintype.card_fin _)
      omega
    refine (sat_kalloc_willing stocked.willing stock).bind ?_
    rintro page middle ⟨given, willing, fewer⟩
    cases page with
    | none => exact absurd rfl given
    | some mem =>
      have stocked : Stocked rest.length middle pgdir := ⟨willing, by omega⟩
      have word : a + PGSIZE ≤ 2 ^ 32 := by
        unfold KERNBASE at user
        omega
      refine (sat_mappages_stocked mem _ middle aligned (by decide) word stocked).bind ?_
      rintro ⟨mapped, _⟩ last ⟨rfl, stocked, same⟩
      dsimp only at same ⊢
      rw [if_pos rfl]
      refine (ih last (fun a among => inside a (mem_cons_of_mem _ among))
        stocked).weaken ?_
      rintro result after ⟨size, same'⟩
      refine ⟨size, fun i beside => ?_⟩
      rw [same' i beside]
      apply same
      unfold Beside at *
      omega

/-- With enough pages, `allocuvm` brings an address space to the new size. -/
theorem sat_allocuvm_stocked {oldsz newsz : Nat} {machine : Machine} (user : newsz < KERNBASE)
    (grows : oldsz ≤ newsz) (alignedOld : oldsz % PGSIZE = 0) (aligned : newsz % PGSIZE = 0)
    (stocked : Stocked ((newsz - oldsz) / PGSIZE) machine.kmem pgdir) :
    Sat (Uvm.allocuvm pgdir oldsz newsz) machine (fun result _ => result.2 = newsz ∧
      ∀ i, Beside 0 (newsz - 1) i → result.1.pde i = pgdir.pde i) fun _ _ => True := by
  have rounded : PGROUNDUP oldsz = oldsz := by
    unfold PGROUNDUP
    unfold PGSIZE at *
    omega
  have length : (pagesUpTo oldsz newsz).length = (newsz - oldsz) / PGSIZE := by
    unfold pagesUpTo
    rw [length_map, length_range]
    unfold PGSIZE at *
    omega
  have inside : ∀ a ∈ pagesUpTo oldsz newsz, a % PGSIZE = 0 ∧ a + PGSIZE ≤ newsz := by
    intro a among
    obtain ⟨alignedA, below⟩ := mem_pagesUpTo alignedOld among
    unfold PGSIZE at *
    omega
  have grown : Sat (Vm.allocuvm pgdir oldsz newsz) machine.kmem (fun result _ => result.2 = newsz ∧
      ∀ i, Beside 0 (newsz - 1) i → result.1.pde i = pgdir.pde i) fun raised _ => raised = .remap := by
    unfold Vm.allocuvm
    rw [if_neg (Nat.not_le_of_lt user), if_neg (Nat.not_lt_of_le grows), rounded]
    exact sat_allocuvmLoop_stocked user _ machine.kmem inside (length ▸ stocked)
  exact ((erases_allocuvm pgdir oldsz newsz).sat grown).returning

end Xv6.Memory
