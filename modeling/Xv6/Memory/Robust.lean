import Xv6.Memory.Images
import Xv6.Memory.Supply
import Xv6.Resource.Calls

/-!
# When `exec` fails

Whatever is in the program file and whenever the memory runs out, an `exec` that returns
`-1` leaves the caller, the free list and the inodes as they were. The exception is an
argument that is longer than the space of the devices: its place on the stack is computed
modulo 2^32 and comes out between the kernel and the devices, where there are no page
tables, and `uva2ka` reads the entry through a null pointer.
-/

namespace Xv6.Memory

open Program Vm Uvm Exec Resource List

variable {Value : Type} {ledger : Ledger} {program : Kern Value} {argv : List (List Byte)}
  {computer : Computer} {fault : Halt → Computer → Prop} {data : Nat}

/-! ## Inodes and transactions -/

/-- Specifications over the ledger of the file system, for code that also uses the memory. -/
abbrev Follows (program : Comp Value) (before : Ledger) (post : Value → Ledger → Prop) : Prop :=
  Track (fun computer => computer.kernel.ledger) (fun _ => True) program before post

theorem follows_fs {post : Value → Ledger → Prop} (tracks : Tracks true program ledger post) :
    Follows (fs program) ledger post := by
  intro computer viewed
  refine ((tracks computer.kernel viewed).focus fun _ _ _ => trivial).weaken ?_
  rintro value _ ⟨kernel, rfl, holds⟩
  exact holds

theorem follows_vm (program : Phys Value) :
    Follows (vm program) ledger fun _ after => after = ledger :=
  .focus_of_set (sat_true program) (fun _ _ => trivial) fun _ _ => rfl

theorem follows_quiet (quiet : Quiet true program) (inside : ledger.phase.Busy) :
    Follows (fs program) ledger fun _ after => after = ledger :=
  follows_fs ((quiet ledger).mono fun _ _ disturbed => disturbed.of_busy inside)

section Load

variable (inside : ledger.phase.Busy)
include inside

theorem follows_loaduvm (pgdir : PageDir) (addr : Nat) (ip : InodePtr) (offset sz : Nat) :
    Follows (Exec.loaduvm pgdir addr ip offset sz) ledger fun _ after => after = ledger := by
  refine .ite (fun _ => .throw trivial) fun _ => ?_
  generalize pagesUpTo 0 sz = list
  induction list with
  | nil => exact .pure rfl
  | cons i rest ih =>
    unfold Exec.loaduvmLoop
    split
    · exact .throw trivial
    · refine (follows_quiet (quiet_readi ip _ _) inside).bind ?_
      rintro bytes _ rfl
      cases bytes with
      | none => exact .pure rfl
      | some bytes =>
        refine (follows_vm _).bind ?_
        rintro _ _ rfl
        exact .ite (fun _ => ih) fun _ => .pure rfl

theorem follows_execSegments (ip : InodePtr) (phoff : Nat) (indices : List Nat) (pgdir : PageDir)
    (sz : Nat) :
    Follows (Exec.execSegments ip phoff indices pgdir sz) ledger fun _ after => after = ledger := by
  induction indices generalizing pgdir sz with
  | nil => exact .pure rfl
  | cons i rest ih =>
    unfold Exec.execSegments
    refine (follows_quiet (quiet_readExactly ip _ _) inside).bind ?_
    rintro bytes ledger rfl
    cases bytes with
    | none => exact .pure rfl
    | some bytes =>
      refine .ite (fun _ => ih pgdir sz) fun _ => ?_
      refine .ite (fun _ => .pure rfl) fun _ => .ite (fun _ => .pure rfl) fun _ => ?_
      refine (follows_vm _).bind ?_
      rintro ⟨grown, newsz⟩ ledger rfl
      refine .ite (fun _ => .pure rfl) fun _ => .ite (fun _ => .pure rfl) fun _ => ?_
      refine (follows_loaduvm inside grown _ ip _ _).bind ?_
      rintro loaded ledger rfl
      exact .ite (fun _ => ih grown newsz) fun _ => .pure rfl

theorem follows_execLoad (kmap : List Kmap) (ip : InodePtr) :
    Follows (Exec.execLoad kmap ip) ledger fun _ after => after = ledger := by
  unfold Exec.execLoad
  refine (follows_quiet (quiet_readExactly ip _ _) inside).bind ?_
  rintro bytes ledger rfl
  cases bytes with
  | none => exact .pure rfl
  | some bytes =>
    refine .ite (fun _ => .pure rfl) fun _ => (follows_vm _).bind ?_
    rintro result ledger rfl
    cases result with
    | none => exact .pure rfl
    | some pgdir =>
      refine (follows_execSegments inside ip _ _ pgdir 0).bind ?_
      rintro ⟨grown, loaded⟩ ledger rfl
      cases loaded with
      | none =>
        refine (follows_vm _).bind ?_
        rintro _ ledger rfl
        exact .pure rfl
      | some sz => exact .pure rfl

end Load

theorem follows_commit (path : Path) (pgdir : PageDir) (sz eip esp : Nat) :
    Follows (Exec.commit path pgdir sz eip esp) ledger fun _ after => after = ledger := by
  intro computer viewed
  unfold Exec.commit
  rw [sat_bind, sat_get, sat_bind, sat_modify]
  exact follows_vm _ _ viewed

/-- `exec` gives back the reference and the lock it takes and ends its transaction, however
it ends. -/
theorem follows_exec (outside : ledger.phase.Idle) (kmap : List Kmap) (path : Path)
    (argv : List (List Byte)) :
    Follows (Exec.exec kmap path argv) ledger fun _ after => after = ledger := by
  unfold Exec.exec
  refine (follows_fs tracks_beginOp).bind ?_
  rintro _ _ rfl
  refine (follows_fs (tracks_namei_begin outside (.inl rfl) path)).bind ?_
  rintro found _ rfl
  cases found with
  | none =>
    refine (follows_fs tracks_endOp).bind fun _ after ended => ?_
    refine (follows_fs (tracks_emit _)).bind fun _ final emitted => .pure ?_
    rw [emitted, ended]
    exact end_begin_ outside
  | some ip =>
    have inside := begin_inside outside
    refine (follows_fs (tracks_ilock_found (.inl rfl) ip)).bind ?_
    rintro _ _ ⟨unlocked, rfl⟩
    refine (follows_execLoad (by exact inside) kmap ip).bind ?_
    rintro loaded _ rfl
    refine (follows_fs (tracks_iunlockput (by exact inside) ip)).bind ?_
    rintro _ after ⟨-, put⟩
    have put_eq : after = ledger.begin_ := put.trans (@move_on ledger.begin_ ip unlocked none)
    subst put_eq
    refine (follows_fs tracks_endOp).bind fun _ after ended => ?_
    rw [end_begin_ outside] at ended
    subst ended
    cases loaded with
    | none => exact .pure rfl
    | some loaded =>
      obtain ⟨pgdir, sz, entry⟩ := loaded
      refine (follows_vm _).bind ?_
      rintro ⟨built, stack⟩ after rfl
      cases stack with
      | none =>
        refine (follows_vm _).bind ?_
        rintro _ after rfl
        exact .pure rfl
      | some stack =>
        refine (follows_commit path built stack.1 entry stack.2).bind ?_
        rintro _ after rfl
        exact .pure rfl

/-! ## All or nothing -/

/-- A state in which a process can call `exec`. -/
structure Callable (computer : Computer) : Prop where
  freeable : ∀ page ∈ computer.machine.kmem.freelist, Freeable computer.machine.kmem.first page
  idle : computer.kernel.ledger.phase.Idle

/-- A call has had no effect: the address space and the trap frame of the caller are the
old ones, every page is free as often as before, and no inode or transaction is held. -/
structure Untouched (before after : Computer) : Prop where
  caller : after.curproc = before.curproc
  pages : ∀ x, free x after.machine = free x before.machine
  inodes : after.kernel.ledger = before.kernel.ledger

/-- `exec` has no effect if it returns `-1`, and the memory code stops at nothing but a page
that cannot be freed. What follows a read through a null pointer is not determined, so that
must not happen either. -/
def Robust (kmap : List Kmap) (path : Path) (argv : List (List Byte)) (computer : Computer) : Prop :=
  Sat (Exec.exec kmap path argv) computer (fun code after => code = -1 → Untouched computer after)
    fun raised _ => ∀ reason, raised = .vm reason → reason = .kfree

theorem robust_of_not_strays {kmap : List Kmap} (layout : Layout kmap) (short : ¬Strays kmap argv)
    (path : Path) (callable : Callable computer) : Robust kmap path argv computer := by
  have image := sat_exec layout path argv computer callable.freeable
  have inodes := follows_exec callable.idle kmap path argv computer rfl
  unfold Robust Sat
  cases run : Exec.exec kmap path argv computer with
  | ok code after =>
    rintro rfl
    have caller : after.curproc = computer.curproc := by
      rcases image.ok run with ⟨-, same⟩ | ⟨success, -⟩
      · exact same
      · cases success
    refine ⟨caller, fun x => ?_, inodes.ok run⟩
    obtain ⟨left, rfl, total⟩ := ((conserves_exec (x := x) kmap path argv 0).sat computer).ok run
    unfold held at total
    rw [caller] at total
    omega
  | error raised after =>
    rintro reason rfl
    rcases image.error run with kfree | ⟨-, strays⟩
    · exact kfree
    · exact absurd strays short

theorem not_robust_of_null {kmap : List Kmap} {path : Path}
    (null : Sat (Exec.exec kmap path argv) computer (fun _ _ => False)
      fun raised _ => raised = .vm .uva2kaNull) : ¬Robust kmap path argv computer := by
  intro robust
  unfold Robust at robust
  have both := robust.and null
  unfold Sat at both
  split at both
  · exact both.2
  · have kfree := both.1 _ both.2
    cases kfree

/-! ## An overlong argument -/

/-- On the stack of the smallest image, with no page tables between the kernel and the
devices. -/
theorem UserStack.misses {pgdir : PageDir} {page : Page} (stack : UserStack pgdir (2 * PGSIZE) page)
    (gap : ∀ va, KERNBASE + PHYSTOP ≤ va → va < DEVSPACE → walkpgdir pgdir va = none)
    (short : ∀ s ∈ argv, s.length < PHYSTOP) {count sp : Nat} (low : PGSIZE ≤ sp)
    (high : sp ≤ 2 * PGSIZE) (overlong : Overlong count sp argv) : Misses pgdir count sp argv := by
  induction argv generalizing count sp with
  | nil => exact overlong
  | cons s rest ih =>
    have bound := short s mem_cons_self
    obtain ⟨more, strays⟩ := overlong
    refine ⟨more, ?_⟩
    split at strays
    · rename_i fits
      have start : uintSub sp (s.length + 1) = sp - (s.length + 1) := by
        unfold uintSub
        unfold PGSIZE at *
        omega
      have above : PGSIZE ≤ (sp - (s.length + 1)) / 4 * 4 := by
        unfold PGSIZE at *
        omega
      rw [start]
      refine .inr ⟨?_, ih (fun s' among => short s' (mem_cons_of_mem _ among))
        above (by omega) strays⟩
      intro k inside
      have place : address ((sp - (s.length + 1)) / 4 * 4) k = (sp - (s.length + 1)) / 4 * 4 + k := by
        unfold address
        unfold PGSIZE at *
        omega
      rw [place, stack.stack _ (by omega) (by omega)]
      nofun
    · rename_i long
      have low : KERNBASE + PHYSTOP ≤ uintSub sp (s.length + 1) / 4 * 4 := by
        unfold uintSub
        unfold KERNBASE PHYSTOP PGSIZE DEVSPACE at *
        omega
      have high : uintSub sp (s.length + 1) / 4 * 4 < DEVSPACE := by
        unfold uintSub
        unfold KERNBASE PHYSTOP PGSIZE DEVSPACE at *
        omega
      refine .inl fun walkable => walkable 0 (Nat.succ_pos _) nofun ?_
      rw [address_zero (high.trans (by decide))]
      exact gap _ low high

theorem sat_fs_returns {post : Value → Kernel → Prop}
    (sat : Sat program computer.kernel post fun _ _ => False) :
    Sat (fs program) computer (fun value after =>
      after.machine = computer.machine ∧ post value after.kernel) fault := by
  refine (sat.focus fun _ _ impossible => impossible.elim).weaken ?_
  rintro value _ ⟨kernel, rfl, holds⟩
  exact ⟨rfl, holds⟩

theorem sat_vm_returns {program : Phys Value} {post : Value → Machine → Prop}
    (sat : Sat program computer.machine post fun _ _ => False) :
    Sat (vm program) computer (fun value after =>
      after.kernel = computer.kernel ∧ post value after.machine) fault := by
  refine (sat.focus fun _ _ impossible => impossible.elim).weaken ?_
  rintro value _ ⟨machine, rfl, holds⟩
  exact ⟨rfl, holds⟩

/-- What `exec` does to the file system, for a program without segments. -/
def readEmpty (path : Path) : Kern Unit := do
  beginOp
  match ← namei path with
  | none => throw .asleep
  | some ip => do
      ilock ip
      match ← readExactly ip 0 ELFHDR with
      | none => throw .asleep
      | some bytes =>
        if (Elfhdr.decode bytes).magic = ELF_MAGIC ∧ (Elfhdr.decode bytes).phnum = 0 then do
          iunlockput ip
          endOp
        else throw .asleep

/-- The stack of that program, with an overlong argument. -/
theorem sat_execStack_overlong {kmap : List Kmap} {pgdir : PageDir} {machine : Machine}
    (loading : Loading kmap machine.kmem pgdir 0) (stocked : Stocked 2 machine.kmem pgdir)
    (gap : ∀ va, KERNBASE + PHYSTOP ≤ va → va < DEVSPACE → walkpgdir pgdir va = none)
    (short : ∀ s ∈ argv, s.length < PHYSTOP) (overlong : Overlong 0 (2 * PGSIZE) argv) :
    Sat (Exec.execStack pgdir argv 0) machine (fun _ _ => False)
      fun raised _ => raised = .uva2kaNull := by
  have rounded : PGROUNDUP 0 = 0 := by decide
  have newsz_eq : PGROUNDUP 0 + 2 * PGSIZE = 2 * PGSIZE := by decide
  have grown : Sat (Uvm.allocuvm pgdir (PGROUNDUP 0) (2 * PGSIZE)) machine _ _ :=
    sat_allocuvm_stocked (by decide) (by decide) (by decide) (by decide) stocked
  refine sat_execStack_of loading newsz_eq grown ?_ ?_
  · rintro grown after ⟨absurdity, -⟩
    cases absurdity
  · rintro grown closed page middle next ⟨-, same⟩ stack tabled same'
    have gap' : ∀ va, KERNBASE + PHYSTOP ≤ va → va < DEVSPACE → walkpgdir closed va = none := by
      intro va low high
      have index : (PDX va).val = va / 2 ^ 22 % 1024 := rfl
      unfold walkpgdir
      rw [same', same, ← gap va low high]
      · rfl
      · unfold Beside PGSIZE
        unfold KERNBASE PHYSTOP DEVSPACE at *
        omega
      · rw [rounded]
        intro zero
        have zero := congrArg Fin.val zero
        unfold KERNBASE PHYSTOP DEVSPACE at *
        change va / 2 ^ 22 % 1024 = 0 at zero
        omega
    have misses := stack.misses gap' short (by decide) (Nat.le_refl _) overlong
    refine (sat_execPush stack tabled argv next).mono ?_ ?_
    · rintro result after ⟨reaches, -⟩
      exact reaches misses
    · rintro raised after ⟨null, -⟩
      exact null

/-- The first half of `exec` succeeds on that program. -/
theorem sat_execLoad_empty {kmap : List Kmap} (layout : Layout kmap) {ip : InodePtr}
    {later : Kernel → Prop}
    (reads : Sat (readExactly ip 0 ELFHDR) computer.kernel (fun bytes kernel =>
      ∃ header, bytes = some header ∧ (Elfhdr.decode header).magic = ELF_MAGIC ∧
        (Elfhdr.decode header).phnum = 0 ∧ later kernel) fun _ _ => False)
    (freeable : ∀ page ∈ computer.machine.kmem.freelist, Freeable computer.machine.kmem.first page)
    (willing : computer.machine.kmem.refusals = [])
    (enough : NPDENTRIES + 2 + 1 ≤ computer.machine.kmem.freelist.length) :
    Sat (Exec.execLoad kmap ip) computer (fun result after => ∃ pgdir entry,
      result = some (pgdir, 0, entry) ∧ Loading kmap after.machine.kmem pgdir 0 ∧
        Stocked 2 after.machine.kmem pgdir ∧
        (∀ i, (∀ k ∈ kmap, Beside k.virt (k.virt + k.size - 1) i) → pgdir.pde i = none) ∧
        later after.kernel) fault := by
  unfold Exec.execLoad
  refine (sat_fs_returns reads).bind ?_
  rintro _ middle ⟨machine, header, rfl, magic, phnum, later⟩
  rw [← machine] at freeable willing enough
  dsimp only
  rw [if_neg (not_not_intro magic), phnum]
  refine (sat_vm_returns (sat_pages (sat_setupkvm_stocked layout willing enough))).bind ?_
  rintro _ next ⟨kernel, ⟨pgdir, rfl, stocked, draws, bare, tables⟩, -⟩
  have loading : Loading kmap next.machine.kmem pgdir 0 := by
    apply bare.loading
    intro page among
    rw [draws.first]
    exact freeable page (draws.fewer page among)
  rw [← kernel] at later
  exact ⟨pgdir, wordAt header 6, rfl, loading, stocked, tables, later⟩

/-- `exec` of a program without segments, on a computer with enough free pages, with an
overlong argument. -/
theorem sat_exec_overlong {kmap : List Kmap} (layout : Layout kmap)
    (gap : ∀ va, KERNBASE + PHYSTOP ≤ va → va < DEVSPACE →
      ∀ k ∈ kmap, Beside k.virt (k.virt + k.size - 1) (PDX va)) {path : Path}
    (callable : Callable computer)
    (reads : Sat (readEmpty path) computer.kernel (fun _ _ => True) fun _ _ => False)
    (willing : computer.machine.kmem.refusals = [])
    (enough : NPDENTRIES + 2 + 1 ≤ computer.machine.kmem.freelist.length)
    (short : ∀ s ∈ argv, s.length < PHYSTOP) (overlong : Overlong 0 (2 * PGSIZE) argv) :
    Sat (Exec.exec kmap path argv) computer (fun _ _ => False)
      fun raised _ => raised = .vm .uva2kaNull := by
  unfold readEmpty at reads
  rw [sat_bind] at reads
  unfold Exec.exec
  refine (sat_fs_returns reads).bind ?_
  rintro _ begun ⟨machine, reads⟩
  rw [sat_bind] at reads
  refine (sat_fs_returns reads).bind ?_
  rintro found looked ⟨machine', reads⟩
  have machine := machine'.trans machine
  cases found with
  | none => exact reads.elim
  | some ip =>
    dsimp only at reads ⊢
    rw [sat_bind] at reads
    refine (sat_fs_returns reads).bind ?_
    rintro _ locked ⟨machine', reads⟩
    have machine := machine'.trans machine
    rw [sat_bind] at reads
    have header : Sat (readExactly ip 0 ELFHDR) locked.kernel (fun bytes kernel =>
        ∃ header, bytes = some header ∧ (Elfhdr.decode header).magic = ELF_MAGIC ∧
          (Elfhdr.decode header).phnum = 0 ∧
          Sat (iunlockput ip) kernel (fun _ kernel => Sat endOp kernel (fun _ _ => True) fun _ _ => False)
            fun _ _ => False) fun _ _ => False := by
      refine reads.weaken fun bytes kernel reads => ?_
      cases bytes with
      | none => exact reads.elim
      | some header =>
        dsimp only at reads
        rw [sat_ite] at reads
        split at reads
        · rename_i empty
          rw [sat_bind] at reads
          exact ⟨header, rfl, empty.1, empty.2, reads⟩
        · exact reads.elim
    have freeable := callable.freeable
    rw [← machine] at freeable willing enough
    refine (sat_execLoad_empty layout header freeable willing enough).bind ?_
    rintro _ loaded ⟨pgdir, entry, rfl, loading, stocked, tables, reads⟩
    refine (sat_fs_returns reads).bind ?_
    rintro _ put ⟨machine', reads⟩
    refine (sat_fs_returns reads).bind ?_
    rintro _ ended ⟨machine'', -⟩
    rw [← machine', ← machine''] at loading stocked
    have stack := sat_execStack_overlong loading stocked
      (fun va low high => tables _ (gap va low high)) short overlong
    refine (stack.focus fun raised _ null => congrArg Halt.vm null).bind ?_
    rintro _ _ ⟨_, -, impossible⟩
    exact impossible.elim

/-! ## The arguments for which it holds -/

/-- Between the kernel and the devices, no page table is needed. -/
theorem beside_kmap (after : KERNLINK < data) (before : data < KERNBASE + PHYSTOP) {va : Nat}
    (low : KERNBASE + PHYSTOP ≤ va) (high : va < DEVSPACE) :
    ∀ k ∈ kmap data after before, Beside k.virt (k.virt + k.size - 1) (PDX va) := by
  have index : (PDX va).val = va / 2 ^ 22 % 1024 := rfl
  simp only [kmap, Kmap.size, mem_cons, not_mem_nil, or_false, forall_eq_or_imp, forall_eq]
  unfold Beside
  rw [index]
  simp only [KERNLINK, KERNBASE, EXTMEM, PHYSTOP, DEVSPACE] at *
  omega

theorem devices_kmap (after : KERNLINK < data) (before : data < KERNBASE + PHYSTOP) {va : Nat}
    (low : DEVSPACE ≤ va) (high : va < 2 ^ 32) : ∃ k ∈ kmap data after before, Covers k va := by
  refine ⟨_, mem_cons_of_mem _ (mem_cons_of_mem _ (mem_cons_of_mem _
    mem_cons_self)), low, ?_⟩
  exact high.trans_le (by decide)

/-- The computer of `startComputer`, with more memory. -/
@[irreducible] def spaciousComputer : Computer :=
  { startComputer with
    machine :=
      { kmem := { freelist := (List.range 1100).map fun i => 0x400000 + PGSIZE * i,
                  first := 0x200000, refusals := [] }
        ram := fun _ _ => 0 } }

theorem spaciousComputer_kmem : spaciousComputer.machine.kmem =
    { freelist := (List.range 1100).map fun i => 0x400000 + PGSIZE * i,
      first := 0x200000, refusals := [] } := by
  unfold spaciousComputer
  rfl

theorem spaciousComputer_kernel : spaciousComputer.kernel = startComputer.kernel := by
  unfold spaciousComputer
  rfl

theorem freeable_range {n : Nat} (few : n ≤ 0x9000) (page : Page)
    (among : page ∈ (List.range n).map fun i => 0x400000 + PGSIZE * i) : Freeable 0x200000 page := by
  obtain ⟨i, inside, rfl⟩ := mem_map.mp among
  have below := mem_range.mp inside
  have aligned : (0x400000 + PGSIZE * i) % PGSIZE = 0 := by
    unfold PGSIZE
    omega
  have high : 0x400000 + PGSIZE * i < PHYSTOP := by
    unfold PGSIZE PHYSTOP
    omega
  exact ⟨aligned, Nat.le_add_right_of_le (by decide), high, Nat.ne_of_gt (Nat.add_pos_left (by decide) _)⟩

theorem callable_spaciousComputer : Callable spaciousComputer := by
  constructor
  · rw [spaciousComputer_kmem]
    intro page among
    dsimp only at among ⊢
    generalize number : 1100 = n at among
    exact freeable_range (by omega) page among
  · rw [spaciousComputer_kernel]
    unfold startComputer
    exact enter_idle _ _

theorem sat_readEmpty :
    Sat (readEmpty [97]) spaciousComputer.kernel (fun _ _ => True) fun _ _ => False := by
  have evaluated : (outcome (readEmpty [97]) startComputer.kernel).any (fun _ => true) = true := by
    decide +kernel
  obtain ⟨value, final, run, -⟩ := exists_of_outcome evaluated
  rw [spaciousComputer_kernel]
  unfold Sat
  rw [run]
  trivial

/-- That computer cannot run its program with an overlong argument. -/
theorem sat_exec_spacious (after : KERNLINK < data) (before : data < KERNBASE + PHYSTOP)
    (aligned : data % PGSIZE = 0) (short : ∀ s ∈ argv, s.length < PHYSTOP)
    (overlong : Overlong 0 (2 * PGSIZE) argv) :
    Sat (Exec.exec (kmap data after before) [97] argv) spaciousComputer (fun _ _ => False)
      fun raised _ => raised = .vm .uva2kaNull := by
  have willing : spaciousComputer.machine.kmem.refusals = [] := by rw [spaciousComputer_kmem]
  have enough : NPDENTRIES + 2 + 1 ≤ spaciousComputer.machine.kmem.freelist.length := by
    rw [spaciousComputer_kmem, length_map, length_range]
    decide
  exact sat_exec_overlong (layout_kmap after before aligned)
    (fun va low high => beside_kmap after before low high) callable_spaciousComputer sat_readEmpty
    willing enough short overlong

/-- `exec` is robust on every computer exactly for arguments that are not overlong. They
are in the memory of the caller, so none is longer than that. -/
theorem exec_robust_iff {data : Nat} (after : KERNLINK < data) (before : data < KERNBASE + PHYSTOP)
    (aligned : data % PGSIZE = 0) {argv : List (List Byte)} (short : ∀ s ∈ argv, s.length < PHYSTOP) :
    (∀ path computer, Callable computer → Robust (kmap data after before) path argv computer) ↔
      ¬Overlong 0 (2 * PGSIZE) argv := by
  constructor
  · intro robust overlong
    exact not_robust_of_null (sat_exec_spacious after before aligned short overlong)
      (robust [97] spaciousComputer callable_spaciousComputer)
  · intro fits path computer callable
    have stays : ¬Strays (kmap data after before) argv := fun strays =>
      fits (strays fun va low high => devices_kmap after before low high)
    exact robust_of_not_strays (layout_kmap after before aligned) stays path callable

/-- A string of 48 MiB is overlong. -/
theorem exec_argument_strays :
    Callable spaciousComputer ∧
    (∃ final, Exec.exec (kmap (KERNBASE + 0x108000) (by decide) (by decide)) [97]
      [List.replicate 0x3000000 97] spaciousComputer = .error (.vm .uva2kaNull) final) ∧
    ¬Robust (kmap (KERNBASE + 0x108000) (by decide) (by decide)) [97] [List.replicate 0x3000000 97]
      spaciousComputer := by
  have short : ∀ s ∈ [List.replicate 0x3000000 (97 : Byte)], s.length < PHYSTOP := by
    intro s among
    rw [mem_singleton.mp among, length_replicate]
    decide
  have overlong : Overlong 0 (2 * PGSIZE) [List.replicate 0x3000000 (97 : Byte)] := by
    unfold Overlong
    rw [length_replicate]
    decide
  have linked : (KERNBASE + 0x108000) % PGSIZE = 0 := by decide
  have null := sat_exec_spacious (by decide) (by decide) linked short overlong
  exact ⟨callable_spaciousComputer, null.exists_error, not_robust_of_null null⟩

/-- Two short strings are not. -/
theorem exec_robust_iff_two :
    (∀ path computer, Callable computer →
      Robust (kmap (KERNBASE + 0x108000) (by decide) (by decide)) path [[97], [98, 99]] computer) ↔
      ¬Overlong 0 (2 * PGSIZE) [[97], [98, 99]] :=
  exec_robust_iff _ _ (by decide) (by decide)

end Xv6.Memory
