import Xv6.Memory.Pages

/-!
# What the functions of `vm.c` do to an address space

`PageDir.entry` is what an address space is for. For every function, which entries it
changes, and that it does not stop: `mappages` meets no entry that is already there, and
`kfree` takes the pages of a user.
-/

namespace Xv6.Memory

open Program Vm Function

variable {pgdir : PageDir} {va a last : Nat}

/-- The page of an address lies in a range. -/
def InRange (first last va : Nat) : Prop := first ≤ va ∧ PGROUNDDOWN va < last

instance (first last va : Nat) : Decidable (InRange first last va) := by
  unfold InRange
  infer_instance

/-- A page that `kfree` takes. -/
structure Freeable (first : Page) (page : Page) : Prop where
  aligned : page % PGSIZE = 0
  after : first ≤ page
  before : page < PHYSTOP
  positive : page ≠ 0

/-- The allocator has given away the first of its pages. -/
structure Draws (before after : Kmem) : Prop where
  first : after.first = before.first
  fewer : ∀ page ∈ after.freelist, page ∈ before.freelist

theorem Draws.refl (kmem : Kmem) : Draws kmem kmem := ⟨rfl, fun _ among => among⟩

theorem Draws.trans {before middle after : Kmem} (one : Draws before middle)
    (two : Draws middle after) : Draws before after :=
  ⟨two.first.trans one.first, fun page among => one.fewer page (two.fewer page among)⟩

theorem sat_kalloc (kmem : Kmem) {fault : Vm.Panic → Kmem → Prop} :
    Sat kalloc kmem (fun page after => Draws kmem after ∧ ∀ mem ∈ page, mem ∈ kmem.freelist) fault := by
  unfold Sat kalloc
  cases kmem.refusals.headD false with
  | true => exact ⟨⟨rfl, fun _ among => among⟩, nofun⟩
  | false =>
    cases found : kmem.freelist with
    | nil => exact ⟨⟨rfl, fun _ among => found ▸ among⟩, nofun⟩
    | cons r next =>
      refine ⟨⟨rfl, fun _ among => found ▸ List.mem_cons_of_mem _ among⟩, ?_⟩
      rintro _ ⟨⟩
      exact List.mem_cons_self

/-! ## Entries -/

theorem pdx_ptx_ne {va' : Nat} (word : va < 2 ^ 32) (word' : va' < 2 ^ 32)
    (apart : va' / PGSIZE ≠ va / PGSIZE) (same : PDX va' = PDX va) : PTX va' ≠ PTX va := by
  intro both
  have outer : va' / 2 ^ 22 % 1024 = va / 2 ^ 22 % 1024 := congrArg Fin.val same
  have inner : va' / 2 ^ 12 % 1024 = va / 2 ^ 12 % 1024 := congrArg Fin.val both
  unfold PGSIZE at apart
  omega

/-- Addresses in one page have one entry. -/
theorem entry_congr {va' : Nat} (same : va' / PGSIZE = va / PGSIZE) :
    pgdir.entry va' = pgdir.entry va := by
  have outer : PDX va' = PDX va := by
    apply Fin.ext
    change va' / 2 ^ 22 % 1024 = va / 2 ^ 22 % 1024
    unfold PGSIZE at same
    omega
  have inner : PTX va' = PTX va := by
    apply Fin.ext
    change va' / 2 ^ 12 % 1024 = va / 2 ^ 12 % 1024
    unfold PGSIZE at same
    omega
  unfold PageDir.entry
  rw [outer, inner]

/-- Assigning to the entry of one address changes that of its page. -/
theorem entry_setPte {table : PageTable} (entry : Option Pte)
    (there : pgdir.pde (PDX a) = some table) (word : a < 2 ^ 32) (word' : va < 2 ^ 32) :
    (pgdir.setPte table a entry).entry va =
      if va / PGSIZE = a / PGSIZE then entry else pgdir.entry va := by
  by_cases same : va / PGSIZE = a / PGSIZE
  · rw [if_pos same, entry_congr same, entry_setPte_self]
  · rw [if_neg same]
    unfold PageDir.entry PageDir.setPte PageDir.set
    dsimp only
    by_cases outer : PDX va = PDX a
    · rw [outer, update_self, there]
      exact update_of_ne (pdx_ptx_ne word word' same outer) ..
    · rw [update_of_ne outer]

theorem pgrounddown_le (a : Nat) : PGROUNDDOWN a ≤ a := Nat.div_mul_le_self ..

theorem pgrounddown_eq (aligned : a % PGSIZE = 0) : PGROUNDDOWN a = a :=
  Nat.div_mul_cancel (Nat.dvd_of_mod_eq_zero aligned)

theorem le_pgroundup (a : Nat) : a ≤ PGROUNDUP a := by
  unfold PGROUNDUP PGSIZE
  omega

/-- From an aligned address on, a range is its first page and the rest. -/
theorem inRange_iff (aligned : a % PGSIZE = 0) (more : a < last) :
    InRange a last va ↔ va / PGSIZE = a / PGSIZE ∨ InRange (a + PGSIZE) last va := by
  unfold InRange PGROUNDDOWN
  unfold PGSIZE at *
  omega

theorem not_inRange (aligned : a % PGSIZE = 0) (done : last ≤ a) : ¬InRange a last va := by
  unfold InRange PGROUNDDOWN
  unfold PGSIZE at *
  omega

/-! ## Mapping -/

/-- `walkpgdir` with `alloc` changes no entry. -/
theorem sat_walkpgdirAlloc (pgdir : PageDir) (va : Nat) (kmem : Kmem)
    {fault : Vm.Panic → Kmem → Prop} :
    Sat (walkpgdirAlloc pgdir va) kmem (fun result after =>
      Draws kmem after ∧ (∀ va, result.1.entry va = pgdir.entry va) ∧
        ∀ table, result.2 = some table → result.1.pde (PDX va) = some table) fault := by
  unfold walkpgdirAlloc
  cases found : pgdir.pde (PDX va) with
  | some table =>
    refine ⟨.refl kmem, fun _ => rfl, ?_⟩
    rintro _ ⟨⟩
    exact found
  | none =>
    refine (sat_kalloc kmem).bind ?_
    rintro page after ⟨draws, -⟩
    cases page with
    | none => exact ⟨draws, fun _ => rfl, nofun⟩
    | some page =>
      refine ⟨draws, ?_, ?_⟩
      · intro va'
        unfold PageDir.entry PageDir.set
        dsimp only
        by_cases same : PDX va' = PDX va
        · rw [same, update_self, found]
          rfl
        · rw [update_of_ne same]
      · rintro _ ⟨⟩
        exact update_self ..

/-- The loop of `mappages` over a range without entries. -/
theorem sat_mappagesLoop (perm : Nat) (aligned : last % PGSIZE = 0) (word : last < 2 ^ 32)
    (fuel : Nat) (pgdir : PageDir) (pa : Nat) (kmem : Kmem) (before : a ≤ last)
    (alignedA : a % PGSIZE = 0) (enough : last < a + fuel * PGSIZE)
    (missing : ∀ va, va < 2 ^ 32 → InRange a (last + PGSIZE) va → pgdir.entry va = none) :
    Sat (mappagesLoop perm last fuel pgdir a pa) kmem (fun result after =>
      Draws kmem after ∧
      (∀ va, va < 2 ^ 32 → ¬InRange a (last + PGSIZE) va → result.1.entry va = pgdir.entry va) ∧
      (result.2 = true → result.1.entry a = some { pa := pa, flags := perm ||| PTE_P } ∧
        ∀ va, va < 2 ^ 32 → InRange a (last + PGSIZE) va →
          ∃ pa', result.1.entry va = some { pa := pa', flags := perm ||| PTE_P }) ∧
      (result.2 = false → result.1.entry last = none)) fun _ _ => False := by
  have final : InRange a (last + PGSIZE) last := by
    refine ⟨before, ?_⟩
    rw [pgrounddown_eq aligned]
    exact Nat.lt_add_of_pos_right (by decide)
  induction fuel generalizing pgdir a pa kmem with
  | zero => omega
  | succ fuel ih =>
    unfold mappagesLoop
    refine (sat_walkpgdirAlloc pgdir a kmem).bind ?_
    rintro ⟨walked, table⟩ middle ⟨draws, same, there⟩
    cases table with
    | none =>
      exact ⟨draws, fun va _ _ => same va, by rintro ⟨⟩,
        fun _ => (same last).trans (missing last word final)⟩
    | some pgtab =>
      have found := there pgtab rfl
      have fresh : pgtab.pte (PTX a) = none := by
        rw [← entry_eq found]
        exact (same a).trans
          (missing a (by omega) ((inRange_iff alignedA (by unfold PGSIZE; omega)).mpr (.inl rfl)))
      have set : ∀ va, va < 2 ^ 32 →
          (walked.setPte pgtab a (some { pa := pa, flags := perm ||| PTE_P })).entry va =
            if va / PGSIZE = a / PGSIZE then some { pa := pa, flags := perm ||| PTE_P }
            else pgdir.entry va := by
        intro va wordVa
        rw [entry_setPte _ found (by omega) wordVa, same]
      dsimp only at found ⊢
      rw [fresh]
      dsimp only
      rw [sat_ite]
      split
      · rename_i reached
        subst reached
        have one : ∀ va, InRange a (a + PGSIZE) va ↔ va / PGSIZE = a / PGSIZE := by
          intro va
          rw [inRange_iff alignedA (by unfold PGSIZE; omega)]
          exact or_iff_left (not_inRange (by rw [Nat.add_mod_right]; exact alignedA) (Nat.le_refl _))
        refine ⟨draws, ?_, fun _ => ⟨?_, ?_⟩, by rintro ⟨⟩⟩
        · intro va wordVa outside
          rw [set va wordVa, if_neg (mt (one va).mpr outside)]
        · rw [set a word, if_pos rfl]
        · intro va wordVa inside
          exact ⟨pa, by rw [set va wordVa, if_pos ((one va).mp inside)]⟩
      · have next : a + PGSIZE ≤ last := by
          unfold PGSIZE at *
          omega
        have split : ∀ va, InRange a (last + PGSIZE) va ↔
            va / PGSIZE = a / PGSIZE ∨ InRange (a + PGSIZE) (last + PGSIZE) va := by
          intro va
          exact inRange_iff alignedA (by omega)
        have later : ∀ va, InRange (a + PGSIZE) (last + PGSIZE) va → va / PGSIZE ≠ a / PGSIZE := by
          intro va inside
          have from_ := inside.1
          unfold PGSIZE at *
          omega
        rw [Nat.succ_mul] at enough
        rw [Nat.mod_eq_of_lt (by omega : a + PGSIZE < 2 ^ 32)]
        refine (ih _ _ middle next (by rw [Nat.add_mod_right]; exact alignedA)
          (by omega) ?_ ?_).weaken ?_
        · intro va wordVa inside
          rw [set va wordVa, if_neg (later va inside)]
          exact missing va wordVa ((split va).mpr (.inr inside))
        · exact ⟨next, final.2⟩
        · rintro result after ⟨draws', kept, mapped, failed⟩
          refine ⟨draws.trans draws', ?_, fun all => ⟨?_, ?_⟩, failed⟩
          · intro va wordVa outside
            rw [kept va wordVa fun inside => outside ((split va).mpr (.inr inside)),
              set va wordVa, if_neg fun first => outside ((split va).mpr (.inl first))]
          · rw [kept a (by omega) fun inside => absurd inside.1 (by unfold PGSIZE; omega),
              set a (by omega), if_pos rfl]
          · intro va wordVa inside
            by_cases rest : InRange (a + PGSIZE) (last + PGSIZE) va
            · exact (mapped all).2 va wordVa rest
            · rw [kept va wordVa rest, set va wordVa,
                if_pos (((split va).mp inside).resolve_right rest)]
              exact ⟨pa, rfl⟩

/-- Mapping one page of the user half, where there is none. -/
theorem sat_mappages_user (pgdir : PageDir) (pa perm : Nat) (kmem : Kmem) (aligned : a % PGSIZE = 0)
    (user : a < KERNBASE) (missing : pgdir.entry a = none) :
    Sat (mappages pgdir a PGSIZE pa perm) kmem (fun result after =>
      Draws kmem after ∧ ∀ va, va < 2 ^ 32 → result.1.entry va =
        if result.2 = true ∧ va / PGSIZE = a / PGSIZE then some { pa := pa, flags := perm ||| PTE_P }
        else pgdir.entry va) fun _ _ => False := by
  have word : a < 2 ^ 32 := by
    unfold KERNBASE at user
    omega
  have last : PGROUNDDOWN ((a + PGSIZE + 2 ^ 32 - 1) % 2 ^ 32) = a := by
    unfold KERNBASE at user
    unfold PGROUNDDOWN
    unfold PGSIZE at *
    omega
  have one : ∀ va, InRange a (a + PGSIZE) va ↔ va / PGSIZE = a / PGSIZE := by
    intro va
    rw [inRange_iff aligned (by unfold PGSIZE; omega)]
    exact or_iff_left (not_inRange (by rw [Nat.add_mod_right]; exact aligned) (Nat.le_refl _))
  unfold mappages
  rw [pgrounddown_eq aligned, last]
  refine (sat_mappagesLoop perm aligned word (2 ^ 20) pgdir pa kmem (Nat.le_refl _) aligned ?_
    ?_).weaken ?_
  · unfold PGSIZE
    omega
  · intro va _ inside
    rw [entry_congr ((one va).mp inside)]
    exact missing
  · rintro ⟨result, mapped⟩ after ⟨draws, kept, all, failed⟩
    refine ⟨draws, fun va wordVa => ?_⟩
    by_cases inside : va / PGSIZE = a / PGSIZE
    · rw [entry_congr inside, entry_congr inside]
      cases mapped with
      | true => rw [if_pos ⟨rfl, inside⟩, (all rfl).1]
      | false => rw [if_neg (fun both => nomatch both.1), failed rfl, missing]
    · rw [if_neg fun both => inside both.2]
      exact kept va wordVa (mt (one va).mp inside)

/-! ## Unmapping -/

/-- Every page of the user half can be freed. -/
def Releasable (first : Page) (pgdir : PageDir) : Prop :=
  ∀ va, va < KERNBASE → ∀ pte, pgdir.entry va = some pte → Freeable first pte.pa

theorem sat_kfree {kmem : Kmem} {v : Page} (freeable : Freeable kmem.first v) :
    Sat (kfree v) kmem (fun _ after => after = { kmem with freelist := v :: kmem.freelist })
      fun _ _ => False := by
  have accepted : ¬(v % PGSIZE ≠ 0 ∨ v < kmem.first ∨ PHYSTOP ≤ v) := by
    obtain ⟨aligned, after, before, -⟩ := freeable
    rintro (odd | low | high)
    · exact odd aligned
    · exact absurd after (Nat.not_le_of_lt low)
    · exact absurd before (Nat.not_lt_of_le high)
  unfold Sat kfree
  rw [if_neg accepted]

end Xv6.Memory
