import Xv6.Kernel.Computer
import Xv6.Memory.Copyout

/-!
# The address space that `exec` builds

`setupkvm` maps the kernel, where the user may use nothing, and nothing below it. The
loop over the program headers keeps the pages below the size mapped and those above it
unmapped, whatever the file says, so neither `mappages` nor `loaduvm` meets what it
panics about.
-/

namespace Xv6.Memory

open Program Vm Uvm Exec List

variable {Value : Type} {pgdir : PageDir}

/-! ## The kernel half -/

/-- The address belongs to a range of the kernel. -/
def Covers (k : Kmap) (va : Nat) : Prop := k.virt ≤ va ∧ va < k.virt + k.size

/-- The ranges of the kernel are made of whole pages, follow one another and are not for
the user. -/
structure Layout (kmap : List Kmap) : Prop where
  aligned : ∀ k ∈ kmap, k.virt % PGSIZE = 0 ∧ k.size % PGSIZE = 0
  supervisor : ∀ k ∈ kmap, k.perm &&& PTE_U = 0
  apart : kmap.Pairwise fun k k' => k.virt + k.size ≤ k'.virt

theorem Layout.tail {k : Kmap} {rest : List Kmap} (layout : Layout (k :: rest)) : Layout rest :=
  ⟨fun k' among => layout.aligned k' (mem_cons_of_mem _ among),
    fun k' among => layout.supervisor k' (mem_cons_of_mem _ among),
    (pairwise_cons.mp layout.apart).2⟩

/-- The linker puts the data of the kernel at the start of a page. -/
theorem layout_kmap {data : Nat} (after : KERNLINK < data) (before : data < KERNBASE + PHYSTOP)
    (aligned : data % PGSIZE = 0) : Layout (kmap data after before) := by
  have low : EXTMEM < data - KERNBASE := by
    simp only [KERNLINK, KERNBASE, EXTMEM] at *
    omega
  have high : data - KERNBASE < PHYSTOP := by
    simp only [KERNBASE, PHYSTOP] at *
    omega
  constructor
  · simp only [kmap, Kmap.size, mem_cons, not_mem_nil, or_false, forall_eq_or_imp, forall_eq]
    refine ⟨by decide, ⟨by decide, ?_⟩, ⟨aligned, ?_⟩, by decide⟩
    · simp only [KERNBASE, EXTMEM, PHYSTOP, PGSIZE] at *
      omega
    · simp only [KERNBASE, EXTMEM, PHYSTOP, PGSIZE] at *
      omega
  · simp only [kmap, mem_cons, not_mem_nil, or_false, forall_eq_or_imp, forall_eq]
    decide
  · simp only [kmap, Kmap.size, pairwise_cons, mem_cons, not_mem_nil, or_false,
      forall_eq_or_imp, forall_eq, List.Pairwise.nil, and_true, false_imp_iff, implies_true]
    simp only [KERNBASE, KERNLINK, EXTMEM, PHYSTOP, DEVSPACE] at *
    omega

/-- The program stops at nothing but a page that cannot be freed. -/
abbrev OnlyKfree {Value : Type} (program : Mem Value) : Prop :=
  Keeps (fun _ _ => True) (fun raised => raised = Vm.Panic.kfree) program

theorem onlyKfree_bind {Result : Type} {first : Mem Value} {rest : Value → Mem Result}
    (one : OnlyKfree first) (two : ∀ value, OnlyKfree (rest value)) : OnlyKfree (first >>= rest) :=
  Keeps.bind (fun _ _ => trivial) one two

theorem onlyKfree_kfree (v : Page) : OnlyKfree (kfree v) := by
  intro kmem
  unfold Sat kfree
  by_cases outside : v % PGSIZE ≠ 0 ∨ v < kmem.first ∨ PHYSTOP ≤ v
  · rw [if_pos outside]
  · rw [if_neg outside]
    trivial

theorem onlyKfree_deallocuvmLoop (oldsz fuel : Nat) (pgdir : PageDir) (a : Nat) :
    OnlyKfree (deallocuvmLoop oldsz fuel pgdir a) := by
  induction fuel generalizing pgdir a with
  | zero => exact fun _ => trivial
  | succ fuel ih =>
    unfold deallocuvmLoop
    split
    · split
      · exact ih _ _
      · split
        · exact ih _ _
        · refine Keeps.ite (fun _ _ => rfl) fun _ => ?_
          exact onlyKfree_bind (onlyKfree_kfree _) fun _ => ih _ _
    · exact fun _ => trivial

theorem onlyKfree_freeTables (pgdir : PageDir) (list : List (Fin NPDENTRIES)) :
    OnlyKfree (forM list fun i =>
      match pgdir.pde i with
      | none => pure ()
      | some pgtab => kfree pgtab.page) := by
  refine Keeps.forM (fun _ => trivial) (fun _ _ => trivial) list fun i => ?_
  split
  · exact fun _ => trivial
  · exact onlyKfree_kfree _

theorem onlyKfree_freevm (pgdir : PageDir) : OnlyKfree (freevm pgdir) := by
  have unmaps : OnlyKfree (deallocuvm pgdir KERNBASE 0) := by
    refine Keeps.ite (fun _ _ => trivial) fun _ => ?_
    exact onlyKfree_bind (onlyKfree_deallocuvmLoop _ _ _ _) fun _ _ => trivial
  unfold freevm
  refine onlyKfree_bind unmaps ?_
  rintro ⟨left, sz⟩
  dsimp only
  generalize List.finRange NPDENTRIES = list
  exact onlyKfree_bind (onlyKfree_freeTables left list) fun _ => onlyKfree_kfree _

theorem sat_mappages_kernel (k : Kmap) (pgdir : PageDir) (kmem : Kmem)
    (aligned : k.virt % PGSIZE = 0 ∧ k.size % PGSIZE = 0)
    (missing : ∀ va, va < 2 ^ 32 → Covers k va → pgdir.entry va = none) :
    Sat (mappages pgdir k.virt k.size k.phys_start k.perm) kmem (fun result after =>
      Draws kmem after ∧
      (∀ va, va < 2 ^ 32 → ¬Covers k va → result.1.entry va = pgdir.entry va) ∧
      (result.2 = true → ∀ va, va < 2 ^ 32 → Covers k va →
        ∃ pa, result.1.entry va = some { pa := pa, flags := k.perm ||| PTE_P })) fun _ _ => False := by
  obtain ⟨positive, within⟩ := k.within
  change 0 < k.size at positive
  change k.virt + k.size ≤ 2 ^ 32 at within
  obtain ⟨alignedVirt, alignedSize⟩ := aligned
  have last : PGROUNDDOWN ((k.virt + k.size + 2 ^ 32 - 1) % 2 ^ 32) = k.virt + k.size - PGSIZE := by
    have wrap : (k.virt + k.size + 2 ^ 32 - 1) % 2 ^ 32 = k.virt + k.size - 1 := by omega
    rw [wrap]
    unfold PGROUNDDOWN
    unfold PGSIZE at *
    omega
  have whole : PGSIZE ≤ k.size := by
    unfold PGSIZE at *
    omega
  have covers : ∀ va, Covers k va ↔ InRange k.virt (k.virt + k.size - PGSIZE + PGSIZE) va := by
    intro va
    rw [Nat.sub_add_cancel (by omega)]
    unfold Covers InRange PGROUNDDOWN
    unfold PGSIZE at *
    omega
  unfold mappages
  rw [pgrounddown_eq alignedVirt, last]
  simp only [covers] at missing ⊢
  refine (sat_mappagesLoop k.perm ?_ ?_ (2 ^ 20) pgdir k.phys_start kmem ?_ alignedVirt ?_
    missing).weaken ?_
  · unfold PGSIZE at *
    omega
  · unfold PGSIZE at *
    omega
  · omega
  · unfold PGSIZE at *
    omega
  · rintro result after ⟨draws, kept, mapped, -⟩
    exact ⟨draws, kept, fun all => (mapped all).2⟩

/-- An address space with the kernel and nothing else. -/
structure Bare (kmap : List Kmap) (pgdir : PageDir) : Prop where
  missing : ∀ va, va < KERNBASE → pgdir.entry va = none
  kernel : ∀ va, va < 2 ^ 32 → userPage pgdir va = none
  mapped : ∀ k ∈ kmap, ∀ va, va < 2 ^ 32 → Covers k va → pgdir.entry va ≠ none

theorem userPage_congr {next : PageDir} {va : Nat} (same : next.entry va = pgdir.entry va) :
    userPage next va = userPage pgdir va := by
  unfold userPage
  rw [same]

/-- One more range of the kernel. -/
theorem Bare.add {done : List Kmap} {k : Kmap} {next : PageDir} (bare : Bare done pgdir)
    (supervisor : k.perm &&& PTE_U = 0)
    (kept : ∀ va, va < 2 ^ 32 → ¬Covers k va → next.entry va = pgdir.entry va)
    (filled : ∀ va, va < 2 ^ 32 → Covers k va →
      ∃ pa, next.entry va = some { pa := pa, flags := k.perm ||| PTE_P }) :
    Bare (done ++ [k]) next := by
  refine ⟨?_, ?_, ?_⟩
  · intro va user
    rw [kept va (user.trans (by decide)) fun covered => ?_]
    · exact bare.missing va user
    · exact absurd (k.kernel.trans covered.1) (Nat.not_le_of_lt user)
  · intro va word
    by_cases covered : Covers k va
    · obtain ⟨pa, found⟩ := filled va word covered
      have denied : (k.perm ||| PTE_P) &&& PTE_U = 0 := by
        rw [Nat.and_or_distrib_right, supervisor]
        rfl
      unfold userPage
      rw [found, Option.bind_some, if_pos denied]
    · rw [userPage_congr (kept va word covered)]
      exact bare.kernel va word
  · intro k' among va word covered
    by_cases covered' : Covers k va
    · obtain ⟨pa, found⟩ := filled va word covered'
      rw [found]
      nofun
    · rw [kept va word covered']
      rcases mem_append.mp among with earlier | last
      · exact bare.mapped k' earlier va word covered
      · rw [mem_singleton.mp last] at covered
        exact absurd covered covered'

theorem sat_setupkvmLoop {kmap : List Kmap} (layout : Layout kmap) (done : List Kmap)
    (pgdir : PageDir) (kmem : Kmem) (bare : Bare done pgdir)
    (missing : ∀ k ∈ kmap, ∀ va, va < 2 ^ 32 → Covers k va → pgdir.entry va = none)  :
    Sat (setupkvmLoop pgdir kmap) kmem (fun result after =>
      ∀ d, result = some d → Draws kmem after ∧ Bare (done ++ kmap) d)
      fun raised _ => raised = .kfree := by
  induction kmap generalizing done pgdir kmem with
  | nil =>
    rintro _ ⟨⟩
    rw [append_nil]
    exact ⟨.refl kmem, bare⟩
  | cons k rest ih =>
    have first := layout.aligned k mem_cons_self
    have mapping := sat_mappages_kernel k pgdir kmem first (missing k mem_cons_self)
    unfold setupkvmLoop
    refine (mapping.mono (fun _ _ holds => holds) fun _ _ never => never.elim).bind ?_
    rintro ⟨next, mapped⟩ middle ⟨draws, kept, filled⟩
    dsimp only at kept filled ⊢
    cases mapped with
    | false =>
      rw [if_neg Bool.false_ne_true]
      refine (onlyKfree_freevm next middle).bind fun _ _ _ => ?_
      rintro _ ⟨⟩
    | true =>
      rw [if_pos rfl]
      refine (ih layout.tail (done ++ [k]) next middle ?_ ?_).weaken ?_
      · exact bare.add (layout.supervisor k mem_cons_self) kept (filled rfl)
      · intro k' among va word covered
        have apart := (pairwise_cons.mp layout.apart).1 k' among
        rw [kept va word fun covered' => by have := covered.1; have := covered'.2; omega]
        exact missing k' (mem_cons_of_mem _ among) va word covered
      · intro result after holds d found
        obtain ⟨draws', bare'⟩ := holds d found
        rw [append_assoc] at bare'
        exact ⟨draws.trans draws', bare'⟩

/-- `setupkvm` never maps an address twice. -/
theorem sat_setupkvm {kmap : List Kmap} (layout : Layout kmap) (kmem : Kmem) :
    Sat (setupkvm kmap) kmem (fun result after =>
      ∀ d, result = some d → Draws kmem after ∧ Bare kmap d) fun raised _ => raised = .kfree := by
  unfold setupkvm
  refine (sat_kalloc kmem).bind ?_
  rintro page middle ⟨draws, -⟩
  cases page with
  | none => nofun
  | some page =>
    have bare : Bare [] (.zero page) := ⟨fun _ _ => rfl, fun _ _ => rfl, nofun⟩
    refine (sat_setupkvmLoop layout [] (.zero page) middle bare fun _ _ _ _ _ => rfl).weaken ?_
    intro result after holds d found
    obtain ⟨draws', bare'⟩ := holds d found
    exact ⟨draws.trans draws', bare'⟩

/-! ## Growing -/

theorem pgroundup_mono {a b : Nat} (smaller : a ≤ b) : PGROUNDUP a ≤ PGROUNDUP b := by
  unfold PGROUNDUP PGSIZE
  omega

/-- The address space that is being built: the pages below its size are there, the others
of the user half are not, and the kernel is as `setupkvm` has mapped it. -/
structure Loading (kmap : List Kmap) (kmem : Kmem) (pgdir : PageDir) (sz : Nat) : Prop where
  below : sz < KERNBASE
  mapped : ∀ va, PGROUNDDOWN va < sz → pgdir.entry va ≠ none
  missing : ∀ va, va < KERNBASE → PGROUNDUP sz ≤ va → pgdir.entry va = none
  kernel : ∀ va, KERNBASE ≤ va → va < 2 ^ 32 → userPage pgdir va = none
  tables : ∀ k ∈ kmap, ∀ va, va < 2 ^ 32 → Covers k va → pgdir.entry va ≠ none
  freeable : ∀ page ∈ kmem.freelist, Freeable kmem.first page
  releasable : Releasable kmem.first pgdir

variable {kmap : List Kmap}

theorem Bare.loading {kmem : Kmem} (bare : Bare kmap pgdir)
    (freeable : ∀ page ∈ kmem.freelist, Freeable kmem.first page) : Loading kmap kmem pgdir 0 := by
  refine ⟨by decide, nofun, fun va user _ => bare.missing va user, fun va _ => bare.kernel va,
    bare.mapped, freeable, ?_⟩
  intro va user pte found
  rw [bare.missing va user] at found
  cases found

theorem Loading.extends {grown : PageDir} {machine after : Machine} {oldsz newsz : Nat}
    (loading : Loading kmap machine.kmem pgdir oldsz) (below : newsz < KERNBASE)
    (grows : oldsz ≤ newsz) (extended : Extends (PGROUNDUP oldsz) newsz pgdir machine grown after) :
    Loading kmap after.kmem grown newsz := by
  have first := extended.draws.first
  have outside : ∀ va, KERNBASE ≤ va → ¬InRange (PGROUNDUP oldsz) newsz va := by
    intro va kernel inside
    exact absurd kernel (Nat.not_le_of_lt (user_of_pgrounddown below inside.2))
  refine ⟨below, ?_, ?_, ?_, ?_, ?_, ?_⟩
  · intro va inside
    have word : va < 2 ^ 32 := (user_of_pgrounddown below inside).trans (by decide)
    by_cases fresh : InRange (PGROUNDUP oldsz) newsz va
    · obtain ⟨pa, -, found, -⟩ := extended.fresh va word fresh
      rw [found]
      nofun
    · rw [extended.kept va word fresh]
      apply loading.mapped
      by_contra above
      apply fresh
      unfold InRange
      unfold PGROUNDDOWN at *
      unfold PGROUNDUP PGSIZE at *
      omega
  · intro va user above
    rw [extended.kept va (user.trans (by decide))]
    · exact loading.missing va user ((pgroundup_mono grows).trans above)
    · intro inside
      have last := inside.2
      unfold PGROUNDDOWN at last
      unfold PGROUNDUP PGSIZE at *
      omega
  · intro va kernel word
    rw [userPage_congr (extended.kept va word (outside va kernel))]
    exact loading.kernel va kernel word
  · intro k among va word covered
    rw [extended.kept va word (outside va (k.kernel.trans covered.1))]
    exact loading.tables k among va word covered
  · intro page among
    rw [first]
    exact loading.freeable page (extended.draws.fewer page among)
  · intro va user pte found
    rw [first]
    by_cases fresh : InRange (PGROUNDUP oldsz) newsz va
    · obtain ⟨pa, among, found', -⟩ := extended.fresh va (user.trans (by decide)) fresh
      rw [found'] at found
      cases found
      exact loading.freeable pa among
    · rw [extended.kept va (user.trans (by decide)) fresh] at found
      exact loading.releasable va user pte found

/-- `allocuvm` brings the address space to the new size at least, or fails. -/
theorem Loading.sat_allocuvm {machine : Machine} {sz : Nat}
    (loading : Loading kmap machine.kmem pgdir sz) (newsz : Nat) :
    Sat (Uvm.allocuvm pgdir sz newsz) machine (fun result after =>
      result.2 ≠ 0 → Loading kmap after.kmem result.1 result.2 ∧ newsz ≤ result.2) fun _ _ => False := by
  refine (Memory.sat_allocuvm pgdir sz newsz machine loading.freeable loading.releasable
    loading.missing).weaken ?_
  rintro result after (⟨grows, below, size, extended⟩ | ⟨shrinks, rfl, rfl⟩ | ⟨failed, -⟩) positive
  · rw [size]
    exact ⟨loading.extends below grows extended, Nat.le_refl _⟩
  · exact ⟨loading, Nat.le_of_lt shrinks⟩
  · exact absurd failed positive

/-! ## Reading the file -/

/-- Where `exec` may stop: in the file system, at a page that cannot be freed, or, if a
copy strays, at a missing page table in `uva2ka`. -/
def Lawful (strays : Prop) : Halt → Prop
  | .fs _ => True
  | .vm reason => reason = .kfree ∨ reason = .uva2kaNull ∧ strays

variable {strays : Prop}

theorem sat_fs (program : Kern Value) (computer : Computer) :
    Sat (fs program) computer (fun _ after =>
      after.machine = computer.machine ∧ after.curproc = computer.curproc)
      fun raised _ => Lawful strays raised := by
  refine ((sat_true program computer.kernel).focus fun _ _ _ => trivial).weaken ?_
  rintro value _ ⟨kernel, rfl, -⟩
  exact ⟨rfl, rfl⟩

theorem sat_vm {program : Phys Value} {computer : Computer} {post : Value → Machine → Prop}
    {allowed : Vm.Panic → Prop}
    (sat : Sat program computer.machine post fun raised _ => allowed raised)
    (allows : ∀ raised, allowed raised → Lawful strays (.vm raised)) :
    Sat (vm program) computer (fun value after =>
      post value after.machine ∧ after.curproc = computer.curproc) fun raised _ => Lawful strays raised := by
  refine (sat.focus fun raised _ => allows raised).weaken ?_
  rintro value _ ⟨machine, rfl, holds⟩
  exact ⟨holds, rfl⟩

theorem sat_memmove (page : Page) (offset : Nat) (bytes : List Byte) (machine : Machine) :
    Sat (memmove page offset bytes) machine (fun _ after => after.kmem = machine.kmem)
      fun _ _ => False := rfl

/-- `loaduvm` moves no pages, and finds those it loads into. -/
theorem sat_loaduvm {addr : Nat} (ip : InodePtr) (offset sz : Nat) (computer : Computer)
    (aligned : addr % PGSIZE = 0) (mapped : ∀ i, i < sz → pgdir.entry (addr + i) ≠ none) :
    Sat (Exec.loaduvm pgdir addr ip offset sz) computer (fun _ after =>
      after.machine.kmem = computer.machine.kmem ∧ after.curproc = computer.curproc)
      fun raised _ => Lawful strays raised := by
  have pages : ∀ i ∈ pagesUpTo 0 sz, i < sz := fun i among => (mem_pagesUpTo rfl among).2
  unfold Exec.loaduvm
  rw [if_neg (not_not_intro aligned)]
  generalize pagesUpTo 0 sz = list at pages
  induction list generalizing computer with
  | nil => exact ⟨rfl, rfl⟩
  | cons i rest ih =>
    unfold Exec.loaduvmLoop
    split
    · rename_i absent
      refine absurd ?_ (mapped i (pages i mem_cons_self))
      unfold PageDir.entry
      rw [show pgdir.pde (PDX (addr + i)) = none from absent]
      rfl
    · dsimp only
      generalize (if sz - i < PGSIZE then sz - i else PGSIZE) = n
      refine (sat_fs _ computer).bind ?_
      rintro bytes middle ⟨machine, curproc⟩
      cases bytes with
      | none => exact ⟨congrArg _ machine, curproc⟩
      | some bytes =>
        refine (sat_vm (sat_memmove _ _ bytes middle.machine) nofun).bind ?_
        rintro _ next ⟨kmem, curproc'⟩
        rw [machine] at kmem
        rw [sat_ite]
        split
        · refine (ih next fun i among =>
            pages i (mem_cons_of_mem _ among)).weaken ?_
          rintro _ after ⟨kmem', curproc''⟩
          exact ⟨kmem'.trans kmem, (curproc''.trans curproc').trans curproc⟩
        · exact ⟨kmem, curproc'.trans curproc⟩

theorem wordAt_lt (bytes : List Byte) (index : Nat) : wordAt bytes index < 2 ^ 32 := Words.word_lt ..

/-- The loop over the program headers, for every file. -/
theorem sat_execSegments (ip : InodePtr) (phoff : Nat) (indices : List Nat) (pgdir : PageDir) {sz : Nat}
    (computer : Computer) (loading : Loading kmap computer.machine.kmem pgdir sz) :
    Sat (Exec.execSegments ip phoff indices pgdir sz) computer (fun result after =>
      after.curproc = computer.curproc ∧
        ∀ sz, result.2 = some sz → Loading kmap after.machine.kmem result.1 sz)
      fun raised _ => Lawful strays raised := by
  induction indices generalizing pgdir sz computer with
  | nil =>
    refine ⟨rfl, ?_⟩
    rintro _ ⟨⟩
    exact loading
  | cons i rest ih =>
    unfold Exec.execSegments
    refine (sat_fs _ computer).bind ?_
    rintro bytes middle ⟨machine, curproc⟩
    cases bytes with
    | none => exact ⟨curproc, nofun⟩
    | some bytes =>
      have kmem : middle.machine.kmem = computer.machine.kmem := congrArg _ machine
      have loading : Loading kmap middle.machine.kmem pgdir sz := kmem ▸ loading
      have vaddr := wordAt_lt bytes 2
      have memsz := wordAt_lt bytes 5
      change (Proghdr.decode bytes).vaddr < 2 ^ 32 at vaddr
      change (Proghdr.decode bytes).memsz < 2 ^ 32 at memsz
      dsimp only
      generalize Proghdr.decode bytes = ph at vaddr memsz
      have failed : ∀ (d : PageDir) (after : Computer), after.curproc = computer.curproc →
          Sat (pure (d, none) : Comp (PageDir × Option Nat)) after (fun result after =>
            after.curproc = computer.curproc ∧
              ∀ sz, result.2 = some sz → Loading kmap after.machine.kmem result.1 sz)
            fun raised _ => Lawful strays raised := fun d after same => ⟨same, nofun⟩
      have continued : ∀ (d : PageDir) (sz : Nat) (after : Computer),
          after.curproc = computer.curproc → Loading kmap after.machine.kmem d sz →
          Sat (Exec.execSegments ip phoff rest d sz) after (fun result after =>
            after.curproc = computer.curproc ∧
              ∀ sz, result.2 = some sz → Loading kmap after.machine.kmem result.1 sz)
            fun raised _ => Lawful strays raised := by
        intro d sz after same loading
        refine (ih d after loading).weaken ?_
        rintro result final ⟨same', loaded⟩
        exact ⟨same'.trans same, loaded⟩
      rw [sat_ite]
      split
      · exact continued pgdir sz middle curproc loading
      rw [sat_ite]
      split
      · exact failed pgdir middle curproc
      rename_i large
      rw [sat_ite]
      split
      · exact failed pgdir middle curproc
      rename_i fits
      have sum : (ph.vaddr + ph.memsz) % 2 ^ 32 = ph.vaddr + ph.memsz := by omega
      rw [sum]
      refine (sat_vm (loading.sat_allocuvm (ph.vaddr + ph.memsz)) nofun).bind ?_
      rintro ⟨grown, newsz⟩ next ⟨allocated, curproc'⟩
      have curproc := curproc'.trans curproc
      dsimp only at allocated ⊢
      rw [sat_ite]
      split
      · exact failed grown next curproc
      rename_i positive
      obtain ⟨loading, enough⟩ := allocated positive
      rw [sat_ite]
      split
      · exact failed grown next curproc
      rename_i aligned
      refine (sat_loaduvm ip ph.off ph.filesz next (not_not.mp aligned) ?_).bind ?_
      · intro i inside
        apply loading.mapped
        exact Nat.lt_of_le_of_lt (pgrounddown_le _) (by omega)
      · rintro loaded last ⟨kmem', curproc'⟩
        have loading : Loading kmap last.machine.kmem grown newsz := kmem' ▸ loading
        rw [sat_ite]
        split
        · exact continued grown newsz last (curproc'.trans curproc) loading
        · exact failed grown last (curproc'.trans curproc)

end Xv6.Memory
