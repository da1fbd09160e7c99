import Xv6.Memory.Ownership
import Xv6.Memory.Stack

/-!
# The image that `exec` installs

`exec` passes on every page: the free list and the address space of the caller together
hold what they held before, whichever way it ends. So the pages of the new image are not
among those of the old one, and freeing the old one leaves the new stack as it was built:
a program that starts finds its arguments intact.
-/

namespace Xv6.Memory

open Program Vm Uvm Exec List

variable {va : Nat} {machine after : Machine} {pgdir : PageDir}

/-! ## No page is made or lost -/

/-- How often a page is on the free list or in the address space of the caller. -/
def held (x : Page) (computer : Computer) : Nat :=
  free x computer.machine + computer.curproc.pgdir.places x

variable {x : Page} {Value : Type}

theorem conserves_fs (program : Kern Value) (owed : Nat) :
    Conserves (held x) owed (fs program) fun _ left => left = owed := by
  constructor
  intro computer
  refine ((sat_true program computer.kernel).focus fun _ _ _ => trivial).weaken ?_
  rintro value _ ⟨kernel, rfl, -⟩
  exact ⟨owed, rfl, rfl⟩

theorem conserves_vm {program : Phys Value} {owed : Nat} {result : Value → Nat → Prop}
    (conserves : Conserves (free x) owed program result) :
    Conserves (held x) owed (vm program) result := by
  constructor
  intro computer
  refine ((conserves.sat computer.machine).focus fun _ _ _ => trivial).weaken ?_
  rintro value _ ⟨machine, rfl, left, holds, equal⟩
  refine ⟨left, holds, ?_⟩
  change free x machine + computer.curproc.pgdir.places x + left =
    free x computer.machine + computer.curproc.pgdir.places x + owed
  omega

theorem conserves_pages {program : Mem Value} {owed : Nat} {result : Value → Nat → Prop}
    (passes : Passes x owed program result) : Conserves (held x) owed (vm (pages program)) result :=
  conserves_vm ((erases_pages program).conserves passes)

theorem conserves_memmove (page : Page) (offset : Nat) (bytes : List Byte) (owed : Nat) :
    Conserves (free x) owed (memmove page offset bytes) fun _ left => left = owed :=
  ⟨fun _ => ⟨owed, rfl, rfl⟩⟩

theorem conserves_loaduvm (pgdir : PageDir) (addr : Nat) (ip : InodePtr) (offset sz owed : Nat) :
    Conserves (held x) owed (Exec.loaduvm pgdir addr ip offset sz) fun _ left => left = owed := by
  refine .ite (fun _ => .throw) fun _ => ?_
  generalize pagesUpTo 0 sz = list
  induction list with
  | nil => exact .pure rfl
  | cons i rest ih =>
    unfold Exec.loaduvmLoop
    split
    · exact .throw
    · refine (conserves_fs _ owed).bind ?_
      rintro bytes _ rfl
      cases bytes with
      | none => exact .pure rfl
      | some bytes =>
        refine (conserves_vm (conserves_memmove _ _ bytes _)).bind ?_
        rintro _ _ rfl
        exact .ite (fun _ => ih) fun _ => .pure rfl

theorem conserves_execSegments (ip : InodePtr) (phoff : Nat) (indices : List Nat) (pgdir : PageDir)
    {sz : Nat} (kept : Nat) (below : sz < KERNBASE) :
    Conserves (held x) (pgdir.places x + kept) (Exec.execSegments ip phoff indices pgdir sz)
      fun result left => left = result.1.places x + kept := by
  induction indices generalizing pgdir sz with
  | nil => exact .pure rfl
  | cons i rest ih =>
    unfold Exec.execSegments
    refine (conserves_fs _ _).bind ?_
    rintro bytes _ rfl
    cases bytes with
    | none => exact .pure rfl
    | some bytes =>
      refine .ite (fun _ => ih pgdir below) fun _ => ?_
      refine .ite (fun _ => .pure rfl) fun _ => ?_
      refine .ite (fun _ => .pure rfl) fun _ => ?_
      refine (conserves_vm ((erases_allocuvm pgdir sz _).conserves
        (passes_allocuvm pgdir kept fun _ => below))).bind ?_
      rintro ⟨grown, newsz⟩ _ ⟨rfl, below'⟩
      refine .ite (fun _ => .pure rfl) fun _ => ?_
      refine .ite (fun _ => .pure rfl) fun _ => ?_
      refine (conserves_loaduvm grown _ ip _ _ _).bind ?_
      rintro loaded _ rfl
      exact .ite (fun _ => ih grown below') fun _ => .pure rfl

theorem conserves_execLoad (kmap : List Kmap) (ip : InodePtr) (kept : Nat) :
    Conserves (held x) kept (Exec.execLoad kmap ip) fun result left =>
      left = (result.elim 0 fun loaded => loaded.1.places x) + kept := by
  have failed : Conserves (held x) kept (pure none : Comp (Option (PageDir × Nat × Nat)))
      fun result left => left = (result.elim 0 fun loaded => loaded.1.places x) + kept :=
    .pure (Nat.zero_add _).symm
  unfold Exec.execLoad
  refine (conserves_fs _ _).bind ?_
  rintro bytes kept rfl
  cases bytes with
  | none => exact failed
  | some bytes =>
    refine .ite (fun _ => failed) fun _ => ?_
    refine (conserves_pages (passes_setupkvm kmap kept)).bind ?_
    rintro result _ rfl
    cases result with
    | none =>
      rw [spacePlaces, Option.elim_none, Nat.zero_add]
      exact failed
    | some pgdir =>
      refine (conserves_execSegments ip _ _ pgdir kept (by decide)).bind ?_
      rintro ⟨grown, loaded⟩ _ rfl
      cases loaded with
      | none =>
        refine (conserves_pages (passes_freevm grown kept)).bind ?_
        rintro _ _ rfl
        exact failed
      | some sz => exact .pure rfl

theorem conserves_copyout (pgdir : PageDir) (buf : List Byte) (owed : Nat) (word : va < 2 ^ 32) :
    Conserves (free x) owed (Uvm.copyout pgdir va buf) fun _ left => left = owed := by
  constructor
  intro machine
  refine ((sat_copyout buf machine word).mono ?_ fun _ _ _ => trivial)
  rintro copied after ⟨-, copies⟩
  refine ⟨owed, rfl, ?_⟩
  unfold free
  rw [copies.kmem]

theorem conserves_execArguments (pgdir : PageDir) (argv : List (List Byte)) (pointers : List Nat)
    (sp owed : Nat) :
    Conserves (free x) owed (Exec.execArguments pgdir argv pointers sp) fun _ left => left = owed := by
  induction argv generalizing pointers sp with
  | nil => exact .pure rfl
  | cons s rest ih =>
    unfold Exec.execArguments
    refine .ite (fun _ => .pure rfl) fun _ => ?_
    have word : uintSub sp (s.length + 1) / 4 * 4 < 2 ^ 32 := by
      unfold uintSub
      omega
    refine (conserves_copyout pgdir _ owed word).bind ?_
    rintro copied _ rfl
    exact .ite (fun _ => ih _ _) fun _ => .pure rfl

theorem conserves_execStack (pgdir : PageDir) (argv : List (List Byte)) (sz kept : Nat) :
    Conserves (free x) (pgdir.places x + kept) (Exec.execStack pgdir argv sz) fun result left =>
      left = result.1.places x + kept := by
  unfold Exec.execStack
  have grows := (erases_allocuvm pgdir (PGROUNDUP sz) (PGROUNDUP sz + 2 * PGSIZE)).conserves
    (passes_allocuvm (x := x) pgdir kept fun shrinks => absurd shrinks (by omega))
  refine grows.bind ?_
  rintro ⟨grown, newsz⟩ _ ⟨rfl, user⟩
  refine .ite (fun _ => .pure rfl) fun _ => ?_
  dsimp only at user
  refine ((erases_pages _).conserves (passes_clearpteu grown kept (by omega))).bind ?_
  rintro closed _ rfl
  refine (conserves_execArguments closed argv [] newsz _).bind ?_
  rintro pushed _ rfl
  cases pushed with
  | none => exact .pure rfl
  | some pushed =>
    have word : uintSub pushed.2 ((3 + pushed.1.length + 1) * 4) < 2 ^ 32 := Nat.mod_lt _ (by decide)
    refine (conserves_copyout closed _ _ word).bind ?_
    rintro copied _ rfl
    exact .ite (fun _ => .pure rfl) fun _ => .pure rfl

/-- The commit: the old address space goes back to the free list. -/
theorem conserves_commit (path : Path) (pgdir : PageDir) (sz eip esp kept : Nat) :
    Conserves (held x) (pgdir.places x + kept) (Exec.commit path pgdir sz eip esp)
      fun _ left => left = kept := by
  constructor
  intro computer
  unfold Exec.commit
  rw [sat_bind, sat_get, sat_bind, sat_modify]
  refine ((conserves_pages (passes_freevm (x := x) computer.curproc.pgdir kept)).sat _).weaken ?_
  rintro _ after ⟨kept, rfl, equal⟩
  refine ⟨kept, rfl, ?_⟩
  change held x after + kept =
    free x computer.machine + computer.curproc.pgdir.places x + (pgdir.places x + kept)
  change held x after + kept =
    free x computer.machine + pgdir.places x + (computer.curproc.pgdir.places x + kept) at equal
  omega

/-- `exec` as a whole: the caller has the pages it had, or those of the new image. -/
theorem conserves_exec (kmap : List Kmap) (path : Path) (argv : List (List Byte)) (kept : Nat) :
    Conserves (held x) kept (Exec.exec kmap path argv) fun _ left => left = kept := by
  unfold Exec.exec
  refine (conserves_fs _ kept).bind ?_
  rintro _ kept rfl
  refine (conserves_fs _ kept).bind ?_
  rintro found kept rfl
  cases found with
  | none =>
    refine (conserves_fs _ kept).bind ?_
    rintro _ kept rfl
    refine (conserves_fs _ kept).bind ?_
    rintro _ kept rfl
    exact .pure rfl
  | some ip =>
    refine (conserves_fs _ kept).bind ?_
    rintro _ kept rfl
    refine (conserves_execLoad kmap ip kept).bind ?_
    rintro loaded _ rfl
    refine (conserves_fs _ _).bind ?_
    rintro _ _ rfl
    refine (conserves_fs _ _).bind ?_
    rintro _ _ rfl
    cases loaded with
    | none => exact .pure (Nat.zero_add _)
    | some loaded =>
      obtain ⟨pgdir, sz, entry⟩ := loaded
      dsimp only [Option.elim_some]
      refine (conserves_vm (conserves_execStack pgdir argv sz kept)).bind ?_
      rintro ⟨built, stack⟩ _ rfl
      cases stack with
      | none =>
        refine (conserves_pages (passes_freevm built kept)).bind ?_
        rintro _ kept rfl
        exact .pure rfl
      | some stack =>
        refine (conserves_commit path built stack.1 entry stack.2 kept).bind ?_
        rintro _ kept rfl
        exact .pure rfl

/-! ## What the caller is left with -/

variable {strays : Prop}

theorem sat_freevm (pgdir : PageDir) (computer : Computer) :
    Sat (vm (pages (freevm pgdir))) computer (fun _ after => after.curproc = computer.curproc ∧
      after.machine.ram = junk computer.machine.kmem after.machine.kmem computer.machine.ram)
      fun raised _ => Lawful strays raised := by
  refine (sat_vm (sat_pages (onlyKfree_freevm pgdir computer.machine.kmem))
    fun _ kfree => .inl kfree).weaken ?_
  rintro _ after ⟨⟨-, ram⟩, curproc⟩
  exact ⟨curproc, ram⟩

theorem sat_execLoad {kmap : List Kmap} (layout : Layout kmap) (ip : InodePtr) (computer : Computer)
    (freeable : ∀ page ∈ computer.machine.kmem.freelist,
      Freeable computer.machine.kmem.first page) :
    Sat (Exec.execLoad kmap ip) computer (fun result after => after.curproc = computer.curproc ∧
      ∀ loaded, result = some loaded → Loading kmap after.machine.kmem loaded.1 loaded.2.1)
      fun raised _ => Lawful strays raised := by
  unfold Exec.execLoad
  refine (sat_fs _ computer).bind ?_
  rintro bytes middle ⟨machine, curproc⟩
  cases bytes with
  | none => exact ⟨curproc, nofun⟩
  | some bytes =>
    dsimp only
    rw [sat_ite]
    split
    · exact ⟨curproc, nofun⟩
    refine (sat_vm (sat_pages (sat_setupkvm layout middle.machine.kmem))
      fun _ kfree => .inl kfree).bind ?_
    rintro result next ⟨⟨built, -⟩, curproc'⟩
    have curproc := curproc'.trans curproc
    cases result with
    | none => exact ⟨curproc, nofun⟩
    | some pgdir =>
      obtain ⟨draws, bare⟩ := built pgdir rfl
      rw [machine] at draws
      have loading : Loading kmap next.machine.kmem pgdir 0 := by
        apply bare.loading
        intro page among
        rw [draws.first]
        exact freeable page (draws.fewer page among)
      refine (sat_execSegments ip _ _ pgdir next loading).bind ?_
      rintro ⟨grown, loaded⟩ last ⟨curproc', loading⟩
      have curproc := curproc'.trans curproc
      cases loaded with
      | none =>
        refine (sat_freevm grown last).bind ?_
        rintro _ after ⟨curproc', -⟩
        exact ⟨curproc'.trans curproc, nofun⟩
      | some sz =>
        refine ⟨curproc, ?_⟩
        rintro _ ⟨⟩
        exact loading sz rfl

/-- The new image, on the way to the caller: its stack was built before the old image was
freed. -/
def Installed (argv : List (List Byte)) (after : Computer) : Prop :=
  ∃ built page array pointers,
    UserStack after.curproc.pgdir after.curproc.sz page ∧
    Delivered built after.curproc.pgdir after.curproc.sz after.curproc.esp argv array pointers ∧
    after.machine.ram = junk built.kmem after.machine.kmem built.ram

theorem sat_commit (path : Path) (pgdir : PageDir) (sz eip esp : Nat) (computer : Computer) :
    Sat (Exec.commit path pgdir sz eip esp) computer (fun _ after =>
      after.curproc.pgdir = pgdir ∧ after.curproc.sz = sz ∧ after.curproc.esp = esp ∧
      after.machine.ram = junk computer.machine.kmem after.machine.kmem computer.machine.ram)
      fun raised _ => Lawful strays raised := by
  unfold Exec.commit
  rw [sat_bind, sat_get, sat_bind, sat_modify]
  refine (sat_freevm _ _).weaken ?_
  rintro _ after ⟨curproc, ram⟩
  rw [curproc]
  exact ⟨rfl, rfl, rfl, ram⟩

/-- `exec` leaves the caller alone or installs the new image. -/
theorem sat_exec {kmap : List Kmap} (layout : Layout kmap) (path : Path) (argv : List (List Byte))
    (computer : Computer) (freeable : ∀ page ∈ computer.machine.kmem.freelist,
      Freeable computer.machine.kmem.first page) :
    Sat (Exec.exec kmap path argv) computer (fun code after =>
      code = -1 ∧ after.curproc = computer.curproc ∨ code = 0 ∧ Installed argv after)
      fun raised _ => Lawful (Strays kmap argv) raised := by
  unfold Exec.exec
  refine (sat_fs _ computer).bind ?_
  rintro _ begun ⟨machine, curproc⟩
  refine (sat_fs _ begun).bind ?_
  rintro found looked ⟨machine', curproc'⟩
  have machine := machine'.trans machine
  have curproc := curproc'.trans curproc
  cases found with
  | none =>
    refine (sat_fs _ looked).bind ?_
    rintro _ ended ⟨-, curproc'⟩
    refine (sat_fs _ ended).bind ?_
    rintro _ after ⟨-, curproc''⟩
    exact .inl ⟨rfl, (curproc''.trans curproc').trans curproc⟩
  | some ip =>
    refine (sat_fs _ looked).bind ?_
    rintro _ locked ⟨machine', curproc'⟩
    have machine := machine'.trans machine
    have curproc := curproc'.trans curproc
    rw [← machine] at freeable
    refine (sat_execLoad layout ip locked freeable).bind ?_
    rintro loaded next ⟨curproc', loading⟩
    have curproc := curproc'.trans curproc
    refine (sat_fs _ next).bind ?_
    rintro _ put ⟨machine', curproc'⟩
    refine (sat_fs _ put).bind ?_
    rintro _ ended ⟨machine'', curproc''⟩
    have curproc := (curproc''.trans curproc').trans curproc
    cases loaded with
    | none => exact .inl ⟨rfl, curproc⟩
    | some loaded =>
      obtain ⟨pgdir, sz, entry⟩ := loaded
      have loading : Loading kmap ended.machine.kmem pgdir sz := by
        rw [machine'', machine']
        exact loading _ rfl
      refine (sat_vm (sat_execStack argv ended.machine loading) fun _ null => .inr null).bind ?_
      rintro ⟨built, stack⟩ last ⟨delivered, curproc'⟩
      cases stack with
      | none =>
        refine (sat_freevm built last).bind ?_
        rintro _ after ⟨curproc'', -⟩
        exact .inl ⟨rfl, (curproc''.trans curproc').trans curproc⟩
      | some stack =>
        obtain ⟨newsz, esp⟩ := stack
        obtain ⟨page, array, pointers, userStack, delivered⟩ := delivered newsz esp rfl
        refine (sat_commit path built newsz entry esp last).bind ?_
        rintro _ after ⟨pgdirEq, szEq, espEq, ram⟩
        refine .inr ⟨rfl, last.machine, page, array, pointers, ?_, ?_, ram⟩
        · rw [pgdirEq, szEq]
          exact userStack
        · rw [pgdirEq, szEq, espEq]
          exact delivered

/-! ## The arguments arrive -/

theorem ReadsBytes.congr {first last : Nat} {bytes : List Byte}
    (same : ∀ va, first ≤ va → va < last → userByte after pgdir va = userByte machine pgdir va)
    (low : first ≤ va) (high : va + bytes.length ≤ last) (reads : ReadsBytes machine pgdir va bytes) :
    ReadsBytes after pgdir va bytes := by
  intro k byte found
  have inside : k < bytes.length := (List.getElem?_eq_some_iff.mp found).1
  rw [same (va + k) (by omega) (by omega)]
  exact reads k byte found

theorem ReadsWord.congr {first last value : Nat}
    (same : ∀ va, first ≤ va → va < last → userByte after pgdir va = userByte machine pgdir va)
    (low : first ≤ va) (high : va + 4 ≤ last) (reads : ReadsWord machine pgdir va value) :
    ReadsWord after pgdir va value :=
  ⟨reads.1, reads.2.congr same low high⟩

/-- Only the stack page matters. -/
theorem Delivered.congr {sz esp array : Nat} {strings : List (List Byte)} {pointers : List Nat}
    (delivered : Delivered machine pgdir sz esp strings array pointers)
    (same : ∀ va, sz - PGSIZE ≤ va → va < sz → userByte after pgdir va = userByte machine pgdir va) :
    Delivered after pgdir sz esp strings array pointers := by
  obtain ⟨count, pc, argc, argv, pointer, null, string, ⟨bottom, above⟩, top, inside, apart, aligned⟩ :=
    delivered
  refine ⟨count, pc.congr same bottom (by omega), argc.congr same (by omega) (by omega),
    argv.congr same (by omega) (by omega), ?_, null.congr same (by omega) (by omega), ?_,
    ⟨bottom, above⟩, top, inside, apart, aligned⟩
  · intro i p found
    have bound := (List.getElem?_eq_some_iff.mp found).1
    exact (pointer i p found).congr same (by omega) (by omega)
  · intro i p s found foundS
    have range := inside i p s found foundS
    exact (string i p s found foundS).congr same (by omega) range.2

/-- Whenever `exec` returns 0, the program finds its arguments. -/
theorem exec_delivers_arguments {kmap : List Kmap} (layout : Layout kmap) (path : Path)
    (argv : List (List Byte)) {computer final : Computer} (once : ∀ x, held x computer ≤ 1)
    (freeable : ∀ page ∈ computer.machine.kmem.freelist, Freeable computer.machine.kmem.first page)
    (run : Exec.exec kmap path argv computer = .ok 0 final) :
    ∃ array pointers, Delivered final.machine final.curproc.pgdir final.curproc.sz
      final.curproc.esp argv array pointers := by
  rcases (sat_exec layout path argv computer freeable).ok run with
    ⟨failed, -⟩ | ⟨-, built, page, array, pointers, stack, delivered, ram⟩
  · cases failed
  refine ⟨array, pointers, delivered.congr fun va low high => ?_⟩
  have found := stack.stack va low high
  -- the stack page is in the new image, so it is not on the free list
  have taken : page ∉ final.machine.kmem.freelist := by
    unfold userPage at found
    obtain ⟨pte, present, usable⟩ := Option.bind_eq_some_iff.mp found
    split at usable
    · cases usable
    · cases usable
      refine not_mem_of_entry ?_ (high.trans stack.below) present
      obtain ⟨left, equal, total⟩ := ((conserves_exec (x := pte.pa) _ path argv 0).sat computer).ok run
      rw [equal, Nat.add_zero, Nat.add_zero] at total
      change held pte.pa final ≤ 1
      rw [total]
      exact once pte.pa
  rw [userByte_of_userPage found, userByte_of_userPage found, ram, junk_of_not_mem taken]

/-- A program of no segments, in the file `a`. -/
def emptyProgram : Block := fun i => [0x7F, 0x45, 0x4C, 0x46].getD i 0

/-- A process of one page on a disk with that program. -/
def startComputer : Computer :=
  { kernel := (Kernel.boot (.image 0o755 [(2, [97])]
      [Dinode.single .file 1 ELFHDR (firstData + 1) 0o755 0 0] [emptyProgram])).enter 0
    machine := { kmem := { freelist := [0x203000, 0x204000, 0x205000, 0x206000, 0x207000, 0x208000],
                           first := 0x200000, refusals := [] },
                 ram := fun _ _ => 0 }
    curproc := { pgdir := onePage, sz := PGSIZE, eip := 0, esp := 0, name := [] } }

/-- It runs the program with two arguments. -/
theorem exec_delivers_arguments_two : ∃ final array pointers,
    Exec.exec smallKmap [97] [[97], [98, 99]] startComputer = .ok 0 final ∧
    Delivered final.machine final.curproc.pgdir final.curproc.sz final.curproc.esp
      [[97], [98, 99]] array pointers := by
  have evaluated : (outcome (Exec.exec smallKmap [97] [[97], [98, 99]]) startComputer).any
      (fun result => decide (result.1 = 0)) = true := by
    decide +kernel
  obtain ⟨code, final, run, checked⟩ := exists_of_outcome evaluated
  obtain rfl := of_decide_eq_true checked
  have layout : Layout smallKmap := by
    refine ⟨?_, ?_, pairwise_singleton ..⟩
    · simp only [smallKmap, mem_singleton, forall_eq]
      decide
    · simp only [smallKmap, mem_singleton, forall_eq]
      decide
  have once : ∀ x, held x startComputer ≤ 1 := by
    intro x
    have distinct : [0x200000, 0x201000, 0x202000, 0x203000, 0x204000, 0x205000, 0x206000, 0x207000,
        0x208000].Nodup := by decide
    have count := nodup_iff_count_le_one.mp distinct x
    change List.count x [0x203000, 0x204000, 0x205000, 0x206000, 0x207000, 0x208000] +
      onePage.places x ≤ 1
    rw [onePage_places]
    simp only [count_cons, count_nil, here, beq_iff_eq] at count ⊢
    omega
  have freeable : ∀ page ∈ startComputer.machine.kmem.freelist,
      Freeable startComputer.machine.kmem.first page := by
    intro page among
    simp only [startComputer, mem_cons, not_mem_nil, or_false] at among ⊢
    rcases among with rfl | rfl | rfl | rfl | rfl | rfl <;>
      exact ⟨by decide, by decide, by decide, by decide⟩
  obtain ⟨array, pointers, delivered⟩ := exec_delivers_arguments layout [97] [[97], [98, 99]] once
    freeable run
  exact ⟨final, array, pointers, run, delivered⟩

end Xv6.Memory
