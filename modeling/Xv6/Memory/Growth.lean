import Xv6.Memory.Contents

/-!
# Is `sbrk` all or nothing?

Growing a process either gives it pages of zeros up to the new size or leaves it as it
was, wherever the allocator gives up. Shrinking keeps what is below the new size. But
zero is both a size and the sign of a failure: a process that gives back all of its
memory loses it and is told that nothing happened. Giving back more than there is wraps
around and is answered with success.
-/

namespace Xv6.Memory

open Program Vm Uvm Option

variable {va sz : Nat} {n : Int32}

/-- What a process reads at an address. -/
def userByte (machine : Machine) (pgdir : PageDir) (va : Nat) : Option Byte :=
  (pgdir.entry va).map fun pte => machine.ram pte.pa (va % PGSIZE)

/-- The memory of a process: the pages below its size are mapped and no other, every
page is in one place, and the allocator can take it. -/
structure Owns (machine : Machine) (space : Space) (pgdir : PageDir) : Prop where
  directory : space.pgdir = some pgdir
  below : space.sz < KERNBASE
  mapped : ∀ va, va < space.sz → pgdir.entry va ≠ none
  missing : ∀ va, va < KERNBASE → PGROUNDUP space.sz ≤ va → pgdir.entry va = none
  once : ∀ x, free x machine + pgdir.places x ≤ 1
  freeable : ∀ page ∈ machine.kmem.freelist, Freeable machine.kmem.first page
  releasable : Releasable machine.kmem.first pgdir

/-- The process has grown or shrunk by `n`. -/
structure Resized (sz : Nat) (n : Int32) (pgdir : PageDir) (machine : Machine) (newsz : Nat)
    (left : PageDir) (after : Machine) : Prop where
  size : (newsz : Int) = sz + n.toInt
  below : newsz < KERNBASE
  mapped : ∀ va, va < newsz → left.entry va ≠ none
  kept : ∀ va, PGROUNDDOWN va < sz → PGROUNDDOWN va < newsz →
    userByte after left va = userByte machine pgdir va
  zero : ∀ va, InRange (PGROUNDUP sz) newsz va → userByte after left va = some 0

/-- The process is what it was. -/
structure Unchanged (sz : Nat) (pgdir : PageDir) (machine : Machine) (newsz : Nat)
    (left : PageDir) (after : Machine) : Prop where
  size : newsz = sz
  entries : ∀ va, va < KERNBASE → left.entry va = pgdir.entry va
  kept : ∀ va, va < KERNBASE → userByte after left va = userByte machine pgdir va

/-- What `growproc` is to do. -/
def AllOrNothing (space : Space) (n : Int32) (pgdir : PageDir) (machine : Machine)
    (result : Int × Space) (after : Machine) : Prop :=
  ∃ left, result.2.pgdir = some left ∧
    (result.1 = 0 ∧ Resized space.sz n pgdir machine result.2.sz left after ∨
      result.1 = -1 ∧ Unchanged space.sz pgdir machine result.2.sz left after)

variable {machine after : Machine} {space : Space} {pgdir left : PageDir}

/-! ## Pages in use -/

theorem places_of_entry {pte : Pte} (user : va < KERNBASE) (found : pgdir.entry va = some pte) :
    0 < pgdir.places pte.pa := by
  unfold PageDir.entry at found
  obtain ⟨table, there, present⟩ := bind_eq_some_iff.mp found
  have cleared := places_setPte_user (x := pte.pa) none there (pdx_user user)
  rw [present] at cleared
  simp only [ptePlaces, elim_some, elim_none, here, if_true] at cleared
  omega

/-- A page of a process is not free. -/
theorem not_mem_of_entry {pte : Pte} (once : free pte.pa machine + pgdir.places pte.pa ≤ 1)
    (user : va < KERNBASE) (found : pgdir.entry va = some pte) :
    pte.pa ∉ machine.kmem.freelist := by
  have used := places_of_entry user found
  apply List.count_eq_zero.mp
  unfold free at once
  omega

/-- An entry that stays reads the same, if its page is not written to. -/
theorem userByte_eq (user : va < KERNBASE) (same : left.entry va = pgdir.entry va)
    (once : ∀ x, free x machine + pgdir.places x ≤ 1)
    (once' : ∀ x, free x after + left.places x ≤ 1)
    (kept : ∀ page, page ∉ machine.kmem.freelist → page ∉ after.kmem.freelist →
      after.ram page = machine.ram page) : userByte after left va = userByte machine pgdir va := by
  unfold userByte
  rw [same]
  cases found : pgdir.entry va with
  | none => rfl
  | some pte =>
    have before := not_mem_of_entry (once pte.pa) user found
    have later := not_mem_of_entry (once' pte.pa) user (same.trans found)
    rw [map_some, map_some, kept pte.pa before later]

theorem user_of_pgrounddown (below : sz < KERNBASE) (inside : PGROUNDDOWN va < sz) :
    va < KERNBASE := by
  unfold PGROUNDDOWN at inside
  unfold KERNBASE PGSIZE at *
  omega

theorem entry_pgrounddown (pgdir : PageDir) (va : Nat) : pgdir.entry (PGROUNDDOWN va) = pgdir.entry va := by
  apply entry_congr
  unfold PGROUNDDOWN PGSIZE
  omega

/-! ## The sum of a size and an `int` -/

theorem uintAdd_eq {newsz : Nat} (below : sz < KERNBASE) (sum : (newsz : Int) = sz + n.toInt) :
    uintAdd sz n = newsz := by
  have upper := Int32.toInt_lt n
  unfold uintAdd KERNBASE at *
  omega

/-- A sum below zero wraps around to a size above the old one. -/
theorem le_uintAdd (below : sz < KERNBASE) (negative : sz + n.toInt < 0) : sz ≤ uintAdd sz n := by
  have lower := Int32.le_toInt n
  unfold uintAdd KERNBASE at *
  omega

/-! ## The three cases of `growproc` -/

section

variable (owns : Owns machine space pgdir)

include owns

/-- What is left of the process still owns its memory. -/
theorem Owns.once_after {program : Phys (PageDir × Nat)} {size : Nat}
    {others : PageDir × Nat → Prop}
    (conserves : ∀ x, Conserves (free x) (pgdir.places x + 0) program fun value owed =>
      owed = value.1.places x + 0 ∧ others value) (run : program machine = .ok (left, size) after)
    (x : Page) : free x after + left.places x ≤ 1 := by
  obtain ⟨owed, ⟨equal, -⟩, total⟩ := ((conserves x).sat machine).ok run
  rw [equal, Nat.add_zero, Nat.add_zero] at total
  exact total.trans_le (owns.once x)

theorem Owns.directory_eq : space.directory = pure pgdir := by
  unfold Space.directory
  rw [owns.directory]

theorem Owns.unchanged (spares : Spares pgdir machine left after)
    (once : ∀ x, free x after + left.places x ≤ 1) :
    Unchanged space.sz pgdir machine space.sz left after := by
  have entries : ∀ va, va < KERNBASE → left.entry va = pgdir.entry va := by
    intro va user
    exact spares.entries va (user.trans (by decide))
  exact ⟨rfl, entries, fun va user => userByte_eq user (entries va user) owns.once once spares.same⟩

theorem Owns.grow (positive : 0 < n.toInt) :
    Sat (Uvm.growproc space n) machine (AllOrNothing space n pgdir machine) fun _ _ => False := by
  obtain ⟨newsz, sum⟩ : ∃ newsz : Nat, (newsz : Int) = space.sz + n.toInt :=
    ⟨(space.sz + n.toInt).toNat, by omega⟩
  unfold Uvm.growproc
  rw [owns.directory_eq, uintAdd_eq owns.below sum, pages_pure, pure_bind, if_pos positive]
  have allocates := sat_allocuvm pgdir space.sz newsz machine owns.freeable owns.releasable owns.missing
  have runs := sat_run (Uvm.allocuvm pgdir space.sz newsz) machine
  refine ((allocates.and runs).mono (fun _ _ holds => holds) fun _ _ both => both.1).bind ?_
  rintro ⟨grown, size⟩ after ⟨outcome, run⟩
  have once : ∀ x, free x after + grown.places x ≤ 1 :=
    owns.once_after (fun x => (erases_allocuvm pgdir space.sz newsz).conserves
      (passes_allocuvm pgdir 0 fun _ => owns.below)) run
  dsimp only
  rw [sat_ite]
  rcases outcome with ⟨-, below, size', extended⟩ | ⟨shrinks, -⟩ | ⟨size', spares⟩
  · dsimp only at size' extended
    subst size'
    rw [if_neg (by omega)]
    have word : ∀ va, PGROUNDDOWN va < size → va < 2 ^ 32 := by
      intro va inside
      exact (user_of_pgrounddown below inside).trans (by decide)
    have old : ∀ va, PGROUNDDOWN va < space.sz → ¬InRange (PGROUNDUP space.sz) size va := by
      intro va inside outside
      have after := outside.1
      unfold PGROUNDDOWN at inside
      unfold PGROUNDUP PGSIZE at *
      omega
    suffices resized : Resized space.sz n pgdir machine size grown after from
      ⟨grown, rfl, .inl ⟨rfl, resized⟩⟩
    refine ⟨sum, below, ?_, ?_, ?_⟩
    · intro va inside
      by_cases fresh : InRange (PGROUNDUP space.sz) size va
      · obtain ⟨pa, -, found, -⟩ := extended.fresh va (by unfold KERNBASE at below; omega) fresh
        rw [found]
        nofun
      · rw [extended.kept va (by unfold KERNBASE at below; omega) fresh]
        have lower : PGROUNDDOWN va < space.sz := by
          by_contra outside
          apply fresh
          unfold InRange
          unfold PGROUNDDOWN at *
          unfold PGROUNDUP PGSIZE at *
          omega
        rw [← entry_pgrounddown]
        exact owns.mapped _ lower
    · intro va inside _
      have user := user_of_pgrounddown owns.below inside
      exact userByte_eq user (extended.kept va (user.trans (by decide)) (old va inside)) owns.once once
        fun page used _ => extended.same page used
    · intro va inside
      obtain ⟨pa, -, found, zero⟩ := extended.fresh va (word va inside.2) inside
      unfold userByte
      rw [found, map_some, zero]
  · omega
  · dsimp only at size' spares
    rw [if_pos size']
    exact ⟨grown, rfl, .inr ⟨rfl, owns.unchanged spares once⟩⟩

/-- Giving back less than there is. -/
theorem Owns.shrink (negative : n.toInt < 0) (some_ : 0 < space.sz + n.toInt) :
    Sat (Uvm.growproc space n) machine (AllOrNothing space n pgdir machine) fun _ _ => False := by
  obtain ⟨newsz, sum⟩ : ∃ newsz : Nat, (newsz : Int) = space.sz + n.toInt :=
    ⟨(space.sz + n.toInt).toNat, by omega⟩
  unfold Uvm.growproc
  rw [owns.directory_eq, uintAdd_eq owns.below sum, pages_pure, pure_bind, if_neg (by omega),
    if_pos negative]
  have frees := sat_pages (sat_deallocuvm pgdir newsz machine.kmem (Nat.le_of_lt owns.below)
    owns.releasable)
  have runs := sat_run (pages (deallocuvm pgdir space.sz newsz)) machine
  refine ((frees.and runs).mono (fun _ _ holds => holds) fun _ _ both => both.1).bind ?_
  rintro ⟨shrunk, size⟩ after ⟨⟨⟨-, size', entries⟩, filled⟩, run⟩
  have once : ∀ x, free x after + shrunk.places x ≤ 1 :=
    owns.once_after (fun x => (erases_pages _).conserves
      (passes_deallocuvm pgdir newsz 0 (Nat.le_of_lt owns.below))) run
  dsimp only at size' entries ⊢
  rw [if_neg (by omega)] at size'
  subst size'
  rw [sat_ite, if_neg (by omega)]
  have below := owns.below
  have kept : ∀ va, PGROUNDDOWN va < size → shrunk.entry va = pgdir.entry va := by
    intro va inside
    have user := user_of_pgrounddown (by omega) inside
    rw [entries va (user.trans (by decide)), if_neg]
    rintro ⟨after, -⟩
    unfold PGROUNDDOWN at inside
    unfold PGROUNDUP PGSIZE at *
    omega
  suffices resized : Resized space.sz n pgdir machine size shrunk after from
    ⟨shrunk, rfl, .inl ⟨rfl, resized⟩⟩
  refine ⟨sum, by omega, ?_, ?_, ?_⟩
  · intro va inside
    rw [kept va (Nat.lt_of_le_of_lt (pgrounddown_le va) inside)]
    exact owns.mapped va (by omega)
  · intro va _ inside
    refine userByte_eq (user_of_pgrounddown (by omega) inside) (kept va inside) owns.once once ?_
    intro page _ used
    rw [filled, junk_of_not_mem used]
  · intro va inside
    have larger := inside.2
    have after := inside.1
    unfold PGROUNDDOWN at larger
    unfold PGROUNDUP PGSIZE at *
    omega

/-- Asking for nothing. -/
theorem Owns.stay (zero : n.toInt = 0) :
    Sat (Uvm.growproc space n) machine (AllOrNothing space n pgdir machine) fun _ _ => False := by
  unfold Uvm.growproc
  rw [owns.directory_eq, pages_pure, pure_bind, if_neg (by omega), if_neg (by omega)]
  have size : (space.sz : Int) = space.sz + n.toInt := by omega
  refine ⟨pgdir, owns.directory, .inl ⟨rfl, size, owns.below, owns.mapped, fun _ _ _ => rfl, ?_⟩⟩
  intro va inside
  exact absurd inside (not_inRange (pgroundup_mod _) (le_pgroundup _))

end

/-- Giving back all there is unmaps it and is reported as a failure. -/
theorem Owns.empty (owns : Owns machine space pgdir) {n : Int32} (some_ : 0 < space.sz)
    (all : space.sz + n.toInt = 0) :
    Sat (Uvm.growproc space n) machine (fun result _ => result.1 = -1 ∧
      ∀ left, result.2.pgdir = some left → left.entry 0 = none) fun _ _ => False := by
  unfold Uvm.growproc
  rw [owns.directory_eq, uintAdd_eq owns.below all.symm, pages_pure, pure_bind, if_neg (by omega),
    if_pos (by omega)]
  refine (sat_pages (sat_deallocuvm pgdir 0 machine.kmem (Nat.le_of_lt owns.below)
    owns.releasable)).bind ?_
  rintro ⟨shrunk, size⟩ after ⟨⟨-, size', entries⟩, -⟩
  dsimp only at size' entries ⊢
  rw [if_neg (by omega)] at size'
  rw [sat_ite, if_pos size']
  refine ⟨rfl, ?_⟩
  rintro _ ⟨⟩
  rw [entries 0 (by decide)]
  exact if_pos ⟨Nat.le_refl _, some_⟩

/-- Giving back more than there is changes nothing. It is reported as a failure only where
there was nothing. -/
theorem Owns.excess (owns : Owns machine space pgdir) (more : space.sz + n.toInt < 0) :
    Sat (Uvm.growproc space n) machine (fun result after => after = machine ∧ result.2 = space ∧
      result.1 = if space.sz = 0 then -1 else 0) fun _ _ => False := by
  have directory := owns.directory
  obtain ⟨kstack, held, sz⟩ := space
  dsimp only at directory more ⊢
  subst directory
  unfold Uvm.growproc deallocuvm
  rw [owns.directory_eq, pages_pure, pure_bind, if_neg (by omega), if_pos (by omega),
    if_pos (le_uintAdd owns.below more), pages_pure, pure_bind]
  dsimp only
  split
  · exact ⟨rfl, rfl, rfl⟩
  · exact ⟨rfl, rfl, rfl⟩

/-- Whether `growproc` is all or nothing, for every `n`. -/
theorem Owns.sat_growproc (owns : Owns machine space pgdir) (n : Int32) :
    Sat (Uvm.growproc space n) machine (fun result after =>
      AllOrNothing space n pgdir machine result after ↔
        space.sz = 0 ∨ 0 < (space.sz : Int) + n.toInt) fun _ _ => False := by
  rcases Int.lt_trichotomy n.toInt 0 with negative | zero | positive
  · rcases Int.lt_trichotomy 0 (space.sz + n.toInt) with some_ | all | more
    · refine (owns.shrink negative some_).weaken fun result after holds => ?_
      exact iff_of_true holds (.inr some_)
    · refine (owns.empty (by omega) all.symm).weaken ?_
      rintro result after ⟨failed, unmapped⟩
      refine iff_of_false ?_ (by omega)
      rintro ⟨left, held, ⟨returned, -⟩ | ⟨-, same⟩⟩
      · omega
      · have first := same.entries 0 (by decide)
        rw [unmapped left held] at first
        exact owns.mapped 0 (by omega) first.symm
    · refine (owns.excess more).weaken ?_
      rintro ⟨code, kept⟩ _ ⟨rfl, same, returned⟩
      dsimp only at same returned
      rw [same, returned]
      split
      · rename_i none
        exact iff_of_true ⟨pgdir, owns.directory, .inr ⟨rfl, rfl, fun _ _ => rfl, fun _ _ => rfl⟩⟩
          (.inl none)
      · refine iff_of_false ?_ (by omega)
        rintro ⟨left, -, ⟨-, resized⟩ | ⟨returned, -⟩⟩
        · have size := resized.size
          dsimp only at size
          omega
        · have code : (0 : Int) = -1 := returned
          exact absurd code (by decide)
  · refine (owns.stay zero).weaken fun result after holds => ?_
    exact iff_of_true holds (by omega)
  · refine (owns.grow positive).weaken fun result after holds => ?_
    exact iff_of_true holds (by omega)

/-- `growproc` is all or nothing unless a process with memory gives back all of it or
more. -/
theorem growproc_all_or_nothing_iff (owns : Owns machine space pgdir) (n : Int32) :
    (∃ result after, Uvm.growproc space n machine = .ok result after ∧
      AllOrNothing space n pgdir machine result after) ↔
    space.sz = 0 ∨ 0 < (space.sz : Int) + n.toInt := by
  have spec := owns.sat_growproc n
  constructor
  · rintro ⟨result, after, run, holds⟩
    exact (spec.ok run).mp holds
  · intro condition
    cases run : Uvm.growproc space n machine with
    | ok result after => exact ⟨result, after, rfl, (spec.ok run).mpr condition⟩
    | error raised after => exact (spec.error run).elim

/-! ## A process of one page -/

/-- An address space with one page, at address zero. -/
def onePage : PageDir :=
  ((PageDir.zero 0x200000).set (PDX 0) (some (.zero 0x201000))).setPte (.zero 0x201000) 0
    (some { pa := 0x202000, flags := PTE_W ||| PTE_U ||| PTE_P })

/-- A process of one page, and a machine with two more. -/
def onePageSpace : Space := { kstack := none, pgdir := some onePage, sz := PGSIZE }

def onePageMachine : Machine :=
  { kmem := { freelist := [0x203000, 0x204000], first := 0x200000, refusals := [] }
    ram := fun _ _ => 5 }

/-- It asks to give back its page: the page is gone, its size is not, and it is told that
the call failed. -/
theorem sbrk_loses_everything :
    ∃ result after, Uvm.growproc onePageSpace (-4096) onePageMachine = .ok result after ∧
      result.1 = -1 ∧ result.2.sz = PGSIZE ∧ userByte onePageMachine onePage 0 = some 5 ∧
      (∀ left, result.2.pgdir = some left → userByte after left 0 = none) ∧
      ¬AllOrNothing onePageSpace (-4096) onePage onePageMachine result after := by
  have evaluated : (outcome (Uvm.growproc onePageSpace (-4096)) onePageMachine).any (fun final =>
      decide (final.1.1 = -1 ∧ final.1.2.sz = PGSIZE ∧
        final.1.2.pgdir.all fun left => decide (userByte final.2 left 0 = none))) = true := by
    decide +kernel
  obtain ⟨result, after, run, checked⟩ := exists_of_outcome evaluated
  obtain ⟨code, size, gone⟩ := of_decide_eq_true checked
  dsimp only at code size gone
  have unmapped : ∀ left, result.2.pgdir = some left → userByte after left 0 = none := by
    intro left held
    rw [held] at gone
    exact of_decide_eq_true gone
  have before : userByte onePageMachine onePage 0 = some 5 := by decide
  refine ⟨result, after, run, code, size, before, unmapped, ?_⟩
  rintro ⟨left, held, ⟨returned, -⟩ | ⟨-, same⟩⟩
  · omega
  · have kept := same.kept 0 (by decide)
    rw [unmapped left held, before] at kept
    cases kept

/-- Its page table. -/
theorem onePage_table (page table : Page) :
    ((PageDir.zero page).set (PDX 0) (some (.zero table))).pde (PDX 0) = some (.zero table) := by
  unfold PageDir.set
  dsimp only
  exact Function.update_self (PDX 0) _ _

theorem onePage_entry (word : va < 2 ^ 32) : onePage.entry va =
    if va / PGSIZE = 0 then some { pa := 0x202000, flags := PTE_W ||| PTE_U ||| PTE_P } else none := by
  unfold onePage
  rw [entry_setPte _ (onePage_table _ _) (by decide) word]
  congr 1
  unfold PageDir.entry PageDir.set
  dsimp only
  rw [Function.update_apply]
  split <;> rfl

theorem onePage_places (x : Page) :
    onePage.places x = here x 0x200000 + here x 0x201000 + here x 0x202000 := by
  have outer := places_set (x := x) (.zero 0x200000) (PDX 0) (some (.zero 0x201000))
  have inner := places_setPte_user (x := x)
    (some { pa := 0x202000, flags := PTE_W ||| PTE_U ||| PTE_P })
    (onePage_table 0x200000 0x201000) (pdx_user (by decide))
  rw [places_zero, pdePlaces_zero] at outer
  change onePage.places x + 0 = _ + here x 0x202000 at inner
  change _ + 0 = _ at outer
  omega

theorem onePage_owned : Owns onePageMachine onePageSpace onePage := by
  have word : ∀ va, va < KERNBASE → va < 2 ^ 32 := fun va user => user.trans (by decide)
  refine ⟨rfl, by decide, ?_, ?_, ?_, ?_, ?_⟩
  · intro va below
    change va < PGSIZE at below
    rw [onePage_entry (below.trans (by decide)), if_pos (Nat.div_eq_of_lt below)]
    nofun
  · intro va user above
    rw [onePage_entry (word va user), if_neg]
    change PGSIZE ≤ va at above
    unfold PGSIZE at *
    omega
  · intro x
    rw [onePage_places]
    have distinct : [0x200000, 0x201000, 0x202000, 0x203000, 0x204000].Nodup := by decide
    have once := List.nodup_iff_count_le_one.mp distinct x
    change List.count x [0x203000, 0x204000] + _ ≤ 1
    simp only [List.count_cons, List.count_nil, here, beq_iff_eq] at once ⊢
    omega
  · intro page among
    simp only [onePageMachine, List.mem_cons, List.not_mem_nil, or_false] at among ⊢
    rcases among with rfl | rfl <;> exact ⟨by decide, by decide, by decide, by decide⟩
  · intro va user pte found
    rw [onePage_entry (word va user)] at found
    split at found
    · cases found
      exact ⟨by decide, by decide, by decide, by decide⟩
    · cases found

theorem growproc_all_or_nothing_iff_small :
    (∃ result after, Uvm.growproc onePageSpace 5000 onePageMachine = .ok result after ∧
      AllOrNothing onePageSpace 5000 onePage onePageMachine result after) ↔
    onePageSpace.sz = 0 ∨ 0 < (onePageSpace.sz : Int) + (5000 : Int32).toInt :=
  growproc_all_or_nothing_iff onePage_owned 5000

end Xv6.Memory
