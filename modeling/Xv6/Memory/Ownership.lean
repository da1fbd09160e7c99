import Xv6.Kernel.Memory
import Xv6.Memory.Pages
import Xv6.Processes.Tree

/-!
# Every page is in one place

The places of a page are the free list, the directory, the page tables and the user
entries of an address space, a kernel stack and a pipe. Every call moves pages between
the free list and what a slot holds, so no page is leaked, freed twice or shared,
whichever allocations fail.
-/

namespace Xv6

open Vm List MemSystem

/-- The places of a page in a slot of the process table, if the slot is used. -/
def Memory.slotPlaces (x : Page) (slot : Bool × Space) : Nat :=
  if slot.1 then slot.2.kstack.elim 0 (here x) + spacePlaces x slot.2.pgdir else 0

namespace MemSystem

/-- The slots of the process table: which are used, and their memory. -/
def slots (system : MemSystem) (p : ProcPtr) : Bool × Space :=
  (decide (system.table.kind p ≠ .unused), system.space p)

/-- The places of a page outside of the free list. -/
def held (x : Page) (system : MemSystem) : Nat :=
  system.kpgdir.places x + Counting.total (Memory.slotPlaces x) system.slots +
    (system.pipes.map PipePage.page).count x

/-- The places of a page. -/
def places (x : Page) (system : MemSystem) : Nat :=
  system.kmem.freelist.count x + system.held x

/-- No process is larger than the user half. -/
def Bounded (system : MemSystem) : Prop := ∀ p, (system.space p).sz < KERNBASE

end MemSystem

namespace Memory

open Counting Processes Program Transition

variable {kmap : List Kmap} {x : Page} {system next : MemSystem} {p q : ProcPtr}

/-! ## One slot -/

/-- What is held after one slot of the table and its memory have changed. -/
theorem held_of_kind {table : ProcTable} {kind : Kind} (space : Space)
    (kinds : ∀ q, table.kind q = if q = p then kind else system.table.kind q) :
    ({ system with table := table }.setSpace p space).held x + slotPlaces x (system.slots p) =
      system.held x + slotPlaces x (decide (kind ≠ .unused), space) := by
  have slots : ({ system with table := table }.setSpace p space).slots =
      Function.update system.slots p (decide (kind ≠ .unused), space) := by
    ext1 q
    unfold slots setSpace
    dsimp only
    rw [kinds]
    by_cases same : q = p
    · subst same
      simp
    · simp [same]
  have updated := total_update (slotPlaces x) system.slots p (decide (kind ≠ .unused), space)
  unfold held
  rw [slots]
  change system.kpgdir.places x + _ + (system.pipes.map PipePage.page).count x + _ = _
  omega

/-- What is held after the memory of a used slot has changed. -/
theorem held_setSpace (space : Space) (used : system.table.kind p ≠ .unused) :
    (system.setSpace p space).held x + slotPlaces x (true, system.space p) =
      system.held x + slotPlaces x (true, space) := by
  have kinds : ∀ q, system.table.kind q =
      if q = p then system.table.kind p else system.table.kind q := by
    intro q
    split
    · rename_i same
      rw [same]
    · rfl
  have moved := held_of_kind (x := x) space kinds
  unfold slots at moved
  rw [decide_eq_true used] at moved
  exact moved

theorem used_of_live (live : system.live p) : system.table.kind p ≠ .unused := by
  intro unused
  have state : (system.table.proc p).state = .unused := kind_eq_unused.mp unused
  unfold MemSystem.live at live
  rw [state] at live
  simp at live

/-- A `wait` that finds no zombie changes no kind. -/
theorem wait_kinds (none : system.table.zombieChild p = none) (live : system.live p) :
    (system.table.wait p).1.kind = system.table.kind := by
  unfold ProcTable.wait
  rw [none]
  dsimp only
  split
  · rfl
  · have alive : Kind.alive = (system.table.proc p).state.kind := by
      unfold MemSystem.live at live
      simp only [mem_cons, not_mem_nil, or_false] at live
      rcases live with state | state | state <;> rw [state] <;> rfl
    exact kind_update_same
      (fun proc => { proc with chan := some (.proc p), state := .sleeping }) alive

/-! ## The calls -/

/-- A call passes on what the system holds. -/
abbrev Settles (x : Page) (system : MemSystem) (call : Mem MemSystem) : Prop :=
  Passes x (system.held x) call fun next left => left = next.held x ∧ next.Bounded

theorem bounded_setSpace (bounded : system.Bounded) (table : ProcTable) {space : Space}
    (small : space.sz < KERNBASE) :
    ({ system with table := table }.setSpace p space).Bounded := by
  intro q
  unfold setSpace
  by_cases same : q = p
  · subst same
    simpa using small
  · simpa [same] using bounded q

theorem passes_directory (space : Space) (owed : Nat) :
    Passes x owed space.directory fun pgdir left => left = owed ∧ space.pgdir = some pgdir := by
  unfold Space.directory
  split
  · exact .throw
  · rename_i pgdir found
    exact .pure ⟨rfl, found⟩

theorem settles_fork (bounded : system.Bounded) : Settles x system (system.fork kmap p) := by
  unfold MemSystem.fork
  cases found : system.table.allocproc with
  | none => exact .pure ⟨rfl, bounded⟩
  | some result =>
    obtain ⟨np, table⟩ := result
    obtain ⟨unused, -, -, kinds⟩ := allocproc_spec found
    have before : slotPlaces x (system.slots np) = 0 := by
      unfold slots
      rw [unused]
      rfl
    -- the slot is given back
    have failed : ∀ space, ({ system with
        table := table.setState np .unused }.setSpace np space).held x = system.held x := by
      intro space
      have kinds' : ∀ q, (table.setState np .unused).kind q =
          if q = np then .unused else system.table.kind q := by
        intro q
        rw [kind_setState, kinds]
        split <;> rfl
      have moved := held_of_kind (x := x) space kinds'
      have after : slotPlaces x (decide (Kind.unused ≠ .unused), space) = 0 := rfl
      rw [before, after] at moved
      omega
    dsimp only
    refine (passes_kalloc _).bind ?_
    rintro page left rfl
    cases page with
    | none =>
      refine .pure ⟨?_, bounded_setSpace bounded _ (bounded np)⟩
      rw [Option.elim_none, Nat.add_zero, failed]
    | some kstack =>
      dsimp only
      refine (passes_directory (system.space p) _).bind ?_
      rintro pgdir left ⟨rfl, -⟩
      refine (passes_copyuvm kmap pgdir _ (Nat.le_of_lt (bounded p))).bind ?_
      rintro d left rfl
      cases d with
      | none =>
        have owed : spacePlaces x none + (system.held x + (some kstack).elim 0 (here x)) =
            here x kstack + system.held x := by
          simp only [spacePlaces, Option.elim_none, Option.elim_some]
          omega
        dsimp only
        rw [owed]
        refine (passes_kfree kstack _).bind ?_
        rintro _ left rfl
        exact .pure ⟨(failed _).symm, bounded_setSpace bounded _ (bounded np)⟩
      | some d =>
        refine .pure ⟨?_, bounded_setSpace bounded _ (bounded p)⟩
        have kinds' : ∀ q, ((table.adopt np p).setState np .runnable).kind q =
            if q = np then .alive else system.table.kind q := by
          intro q
          rw [kind_setState, kind_adopt, kinds]
          split <;> rfl
        have moved := held_of_kind (x := x)
          { kstack := some kstack, pgdir := some d, sz := (system.space p).sz } kinds'
        have after : slotPlaces x (decide (Kind.alive ≠ .unused),
            { kstack := some kstack, pgdir := some d, sz := (system.space p).sz }) =
            here x kstack + spacePlaces x (some d) := rfl
        rw [before, after] at moved
        rw [Option.elim_some]
        omega

theorem settles_exec (image : Image) (argv : List Nat) (bounded : system.Bounded)
    (used : system.table.kind p ≠ .unused) :
    Settles x system (system.exec kmap p image argv) := by
  unfold MemSystem.exec
  refine (passes_execSpace kmap image argv _).bind ?_
  rintro space left ⟨rfl, small⟩
  cases space with
  | none =>
    refine .pure ⟨?_, bounded⟩
    simp only [spacePlaces, Option.map_none, Option.elim_none, Nat.zero_add]
  | some space =>
    obtain ⟨pgdir, sz⟩ := space
    refine (passes_directory (system.space p) _).bind ?_
    rintro oldpgdir left ⟨rfl, old⟩
    have moved := held_setSpace (x := x)
      { system.space p with pgdir := some pgdir, sz := sz } used
    simp only [slotPlaces, old, if_true] at moved
    have owed : spacePlaces x ((some (pgdir, sz)).map Prod.fst) + system.held x =
        oldpgdir.places x + (system.setSpace p
          { system.space p with pgdir := some pgdir, sz := sz }).held x := by
      simp only [spacePlaces, Option.map_some, Option.elim_some] at moved ⊢
      omega
    rw [owed]
    refine (passes_freevm oldpgdir _).bind ?_
    rintro _ left rfl
    exact .pure ⟨rfl, bounded_setSpace bounded system.table (small _ rfl)⟩

/-- `growproc`: what the address space gains comes from the free list. -/
theorem passes_growproc (space : Space) (n : Int32) (kept : Nat) (user : space.sz < KERNBASE) :
    Passes x (spacePlaces x space.pgdir + kept) (growproc space n) fun result left =>
      left = spacePlaces x result.pgdir + kept ∧ result.kstack = space.kstack ∧
        result.sz < KERNBASE := by
  unfold growproc
  refine (passes_directory space _).bind ?_
  rintro pgdir left ⟨rfl, found⟩
  rw [found, show spacePlaces x (some pgdir) = pgdir.places x from rfl]
  -- both branches end in the same way
  have finish : ∀ pgdir : PageDir, ∀ sz, sz < KERNBASE → Passes x (pgdir.places x + kept)
      (if sz = 0 then pure { space with pgdir := some pgdir }
        else pure { space with pgdir := some pgdir, sz := sz }) fun result left =>
      left = spacePlaces x result.pgdir + kept ∧ result.kstack = space.kstack ∧
        result.sz < KERNBASE := by
    intro pgdir sz below
    apply Conserves.ite
    · intro _
      exact .pure ⟨rfl, rfl, user⟩
    · intro _
      exact .pure ⟨rfl, rfl, below⟩
  apply Conserves.ite
  · intro _
    refine (passes_allocuvm pgdir kept fun _ => user).bind ?_
    rintro ⟨pgdir, sz⟩ left ⟨rfl, below⟩
    exact finish pgdir sz below
  intro _
  apply Conserves.ite
  · intro _
    refine (passes_deallocuvm pgdir _ kept (Nat.le_of_lt user)).bind ?_
    rintro ⟨pgdir, sz⟩ left ⟨rfl, below, -⟩
    exact finish pgdir sz (Nat.lt_of_le_of_lt below user)
  · intro _
    refine .pure ⟨?_, rfl, user⟩
    rw [found]
    rfl

theorem settles_sbrk (n : Int32) (bounded : system.Bounded)
    (used : system.table.kind p ≠ .unused) : Settles x system (system.sbrk p n) := by
  have part : ∃ kept, system.held x = spacePlaces x (system.space p).pgdir + kept := by
    have moved := held_setSpace (x := x) { system.space p with pgdir := none } used
    refine ⟨(system.setSpace p { system.space p with pgdir := none }).held x, ?_⟩
    simp only [slotPlaces, spacePlaces, if_true, Option.elim_none] at moved ⊢
    omega
  obtain ⟨kept, held⟩ := part
  unfold sbrk
  have grown := passes_growproc (x := x) (system.space p) n kept (bounded p)
  rw [← held] at grown
  refine grown.bind ?_
  rintro space left ⟨rfl, kstack, small⟩
  refine .pure ⟨?_, bounded_setSpace bounded system.table small⟩
  have moved := held_setSpace (x := x) space used
  simp only [slotPlaces, if_true, kstack] at moved
  omega

theorem settles_pipe (files : Bool) (bounded : system.Bounded) :
    Settles x system (system.pipe files) := by
  unfold pipe
  apply Conserves.ite
  · intro _
    refine (passes_kalloc _).bind ?_
    rintro page left rfl
    cases page with
    | none => exact .pure ⟨by rw [Option.elim_none, Nat.add_zero], bounded⟩
    | some page =>
      refine .pure ⟨?_, bounded⟩
      simp only [held, map_cons, count_cons, Option.elim_some, here, beq_iff_eq]
      change _ = system.kpgdir.places x + total (slotPlaces x) system.slots + _
      omega
  · intro _
    exact .pure ⟨rfl, bounded⟩

theorem settles_pipeclose (i : Nat) (writable : Bool) (bounded : system.Bounded) :
    Settles x system (system.pipeclose i writable) := by
  unfold MemSystem.pipeclose
  cases found : system.pipes[i]? with
  | none => exact .pure ⟨rfl, bounded⟩
  | some pipe =>
    obtain ⟨within, there⟩ := List.getElem?_eq_some_iff.mp found
    apply Conserves.ite
    · intro _
      -- the last end: the page of the pipe is freed
      have taken := (getElem_cons_eraseIdx_perm within).map PipePage.page
      have counted := taken.count_eq x
      rw [there, map_cons, count_cons] at counted
      have owed : system.held x = here x pipe.page +
          ({ system with pipes := system.pipes.eraseIdx i } : MemSystem).held x := by
        simp only [held, here]
        simp only [beq_iff_eq] at counted
        change _ = _ + (system.kpgdir.places x + total (slotPlaces x) system.slots + _)
        omega
      rw [owed]
      refine (passes_kfree pipe.page _).bind ?_
      rintro _ left rfl
      exact .pure ⟨rfl, bounded⟩
    · intro _
      refine .pure ⟨?_, bounded⟩
      have page : (pipe.close writable).page = pipe.page := by
        unfold PipePage.close
        split <;> rfl
      have pages : (system.pipes.set i (pipe.close writable)).map PipePage.page =
          system.pipes.map PipePage.page := by
        have within' : i < (system.pipes.map PipePage.page).length := by
          rw [length_map]
          exact within
        have there' : (system.pipes.map PipePage.page)[i] = pipe.page := by
          rw [getElem_map, there]
        rw [map_set, page, ← there']
        exact set_getElem_self within'
      unfold held
      rw [pages]
      rfl

theorem settles_exit (bounded : system.Bounded) (live : system.live p)
    (other : p ≠ system.table.initproc) :
    Settles x system (pure { system with table := system.table.exit p }) := by
  refine .pure ⟨?_, bounded⟩
  obtain ⟨-, kinds, -⟩ := exit_spec other.symm
  have slots : ({ system with table := system.table.exit p } : MemSystem).slots = system.slots := by
    ext1 q
    unfold slots
    dsimp only
    rw [kinds]
    split
    · rename_i same
      subst same
      have used := used_of_live live
      simp [used]
    · rfl
  unfold held
  rw [slots]

/-- `wait` frees the stack and the address space of the child it returns. -/
theorem settles_wait (bounded : system.Bounded) (live : system.live p) :
    Settles x system (system.wait p) := by
  unfold MemSystem.wait
  cases found : system.table.zombieChild p with
  | none =>
    refine .pure ⟨?_, bounded⟩
    unfold held slots
    dsimp only
    rw [wait_kinds found live]
  | some q =>
    have zombie : system.table.kind q = .zombie :=
      kind_eq_zombie.mpr (zombieChild_spec found).2
    have used : system.slots q = (true, system.space q) := by
      unfold slots
      rw [zombie]
      rfl
    have reaped : (system.table.wait p).1 = system.table.update q Proc.reaped := by
      unfold ProcTable.wait
      rw [found]
    have kinds : ∀ r, (system.table.wait p).1.kind r =
        if r = q then .unused else system.table.kind r := by
      intro r
      rw [reaped]
      exact kind_update Proc.reaped
    have moved := held_of_kind (x := x) ⟨none, (system.space q).pgdir, (system.space q).sz⟩ kinds
    have after : slotPlaces x (decide (Kind.unused ≠ .unused),
        ⟨none, (system.space q).pgdir, (system.space q).sz⟩) = 0 := rfl
    rw [used, after] at moved
    dsimp only
    split
    · exact .throw
    · rename_i kstack stack
      simp only [slotPlaces, if_true, stack, Option.elim_some] at moved
      have owed : system.held x = here x kstack + (spacePlaces x (system.space q).pgdir +
          ({ system with table := (system.table.wait p).1 }.setSpace q
            ⟨none, (system.space q).pgdir, (system.space q).sz⟩).held x) := by omega
      unfold Settles
      rw [owed]
      refine (passes_kfree kstack _).bind ?_
      rintro _ left rfl
      refine (passes_directory (system.space q) _).bind ?_
      rintro pgdir left ⟨rfl, there⟩
      rw [there]
      refine (passes_freevm pgdir _).bind ?_
      rintro _ left rfl
      exact .pure ⟨rfl, bounded_setSpace bounded _ (bounded q)⟩

theorem settles_call {action : MemAction} {call : Mem MemSystem} (bounded : system.Bounded)
    (called : system.call kmap action = some call) : Settles x system call := by
  cases action with
  | fork p =>
    obtain ⟨live, ⟨⟩⟩ := Option.ite_none_right_eq_some.mp called
    exact settles_fork bounded
  | exec p image argv =>
    obtain ⟨live, ⟨⟩⟩ := Option.ite_none_right_eq_some.mp called
    exact settles_exec image argv bounded (used_of_live live)
  | sbrk p n =>
    obtain ⟨live, ⟨⟩⟩ := Option.ite_none_right_eq_some.mp called
    exact settles_sbrk n bounded (used_of_live live)
  | pipe files =>
    cases called
    exact settles_pipe files bounded
  | pipeclose i writable =>
    cases called
    exact settles_pipeclose i writable bounded
  | exit p =>
    obtain ⟨⟨live, other⟩, ⟨⟩⟩ := Option.ite_none_right_eq_some.mp called
    exact settles_exit bounded live other
  | wait p =>
    obtain ⟨live, ⟨⟩⟩ := Option.ite_none_right_eq_some.mp called
    exact settles_wait bounded live

/-! ## Runs -/

/-- The calls that return. -/
abbrev Calls (kmap : List Kmap) (system : MemSystem) (action : MemAction) (next : MemSystem) : Prop :=
  system.step kmap action = some next

/-- A call makes and loses no page. -/
theorem places_step {action : MemAction} (bounded : system.Bounded)
    (calls : Calls kmap system action next) :
    (∀ x, next.places x = system.places x) ∧ next.Bounded := by
  obtain ⟨call, called, returned⟩ := Option.bind_eq_some_iff.mp calls
  obtain ⟨⟨final, kmem⟩, outcome, rfl⟩ := Option.map_eq_some_iff.mp returned
  have run := outcome_eq_some.mp outcome
  constructor
  · intro x
    obtain ⟨left, ⟨rfl, -⟩, equal⟩ := ((settles_call bounded called).sat system.kmem).ok run
    exact equal
  · obtain ⟨left, ⟨-, small⟩, -⟩ := ((settles_call (x := 0) bounded called).sat system.kmem).ok run
    exact small

/-- In every run, a page that the allocator manages is in one place, and no other page is
in any. -/
theorem pages_in_one_place {managed : Finset Page} {start : MemSystem} {actions : List MemAction}
    (bounded : start.Bounded) (once : ∀ x, start.places x = if x ∈ managed then 1 else 0)
    (run : Steps (Calls kmap) start actions system) :
    ∀ x, system.places x = if x ∈ managed then 1 else 0 := by
  have both : (∀ x, system.places x = if x ∈ managed then 1 else 0) ∧ system.Bounded := by
    apply run.invariant (fun system =>
      (∀ x, system.places x = if x ∈ managed then 1 else 0) ∧ system.Bounded) ⟨once, bounded⟩
    rintro state action next ⟨once, bounded⟩ calls
    obtain ⟨same, bounded'⟩ := places_step bounded calls
    exact ⟨fun x => (same x).trans (once x), bounded'⟩
  exact both.1

/-- Thirty-two pages from 4 MB on. -/
def somePages : List Page := (List.range 32).map fun i => 0x400000 + PGSIZE * i

/-- Init without memory of its own, and `kalloc` to refuse its fourteenth page. -/
def smallMachine : MemSystem :=
  { kmem := { freelist := somePages.drop 3, first := 0x400000,
              refusals := List.replicate 13 false ++ [true] }
    kpgdir := .zero 0x400000
    table := .userinit
    space := fun p =>
      { kstack := if p = 0 then some 0x401000 else none
        pgdir := if p = 0 then some (.zero 0x402000) else none
        sz := 0 }
    pipes := [] }

/-- A kernel of one page. -/
def smallKmap : List Kmap :=
  [{ virt := KERNBASE, phys_start := 0, phys_end := PGSIZE, perm := PTE_W,
     kernel := Nat.le_refl _, within := by decide }]

/-- Init loads a program and grows; its first `fork` fails in `copyuvm`, and the child of
the second one exits. -/
def failedFork : List MemAction :=
  [.exec 0 (some [some ({ type := 1, off := 0, vaddr := 0, filesz := 100, memsz := 5000 },
      fun _ => true)]) [3, 5],
    .sbrk 0 4096, .fork 0, .fork 0, .pipe true, .exit 1, .wait 0]

theorem slots_smallMachine : smallMachine.slots =
    Function.update (fun p => (false, smallMachine.space p)) 0 (true, smallMachine.space 0) := by
  ext1 p
  by_cases init : p = 0
  · subst init
    rw [Function.update_self]
    rfl
  · rw [Function.update_of_ne init]
    unfold slots
    have unused : smallMachine.table.kind p = .unused := by
      change (if p = 0 then { Proc.zero with state := .runnable, pid := 1 } else Proc.zero).state.kind
        = _
      rw [if_neg init]
      rfl
    rw [unused]
    rfl

theorem places_smallMachine :
    smallMachine.places x = if x ∈ somePages.toFinset then 1 else 0 := by
  have distinct : somePages.Nodup := by decide
  have unused : total (slotPlaces x) (fun p => (false, smallMachine.space p)) = 0 :=
    total_eq_zero fun _ => rfl
  have updated := total_update (slotPlaces x) (fun p => (false, smallMachine.space p)) 0
    (true, smallMachine.space 0)
  rw [← slots_smallMachine, unused] at updated
  have init : slotPlaces x (true, smallMachine.space 0) = here x 0x401000 + here x 0x402000 := by
    rw [← places_zero 0x402000]
    rfl
  have before : slotPlaces x (false, smallMachine.space 0) = 0 := rfl
  have kernel : smallMachine.kpgdir.places x = here x 0x400000 := places_zero _
  have all : somePages.count x = (somePages.drop 3).count x + here x 0x402000 + here x 0x401000 +
      here x 0x400000 := by
    rw [show somePages = 0x400000 :: 0x401000 :: 0x402000 :: somePages.drop 3 from by decide]
    simp only [count_cons, here, beq_iff_eq, drop_succ_cons, drop_zero]
  rw [List.Nodup.count distinct] at all
  unfold places held
  rw [kernel]
  have free : smallMachine.kmem.freelist.count x = (somePages.drop 3).count x := rfl
  have pipes : (smallMachine.pipes.map PipePage.page).count x = 0 := rfl
  rw [free, pipes]
  simp only [mem_toFinset]
  omega

theorem pages_in_one_place_failedFork : ∃ system : MemSystem,
    Steps (Calls smallKmap) smallMachine failedFork system ∧
      system.kmem.refusals = [] ∧ (system.space 0).sz = 20480 ∧
      ∀ x, system.places x = if x ∈ somePages.toFinset then 1 else 0 := by
  have evaluated : (follow (step smallKmap) (fun _ _ => True) smallMachine
      failedFork).any (fun system =>
        system.kmem.refusals = [] ∧ (system.space 0).sz = 20480) = true := by
    decide +kernel
  obtain ⟨reached, outcome⟩ := (Option.any_eq_true_iff_get _ _).mp evaluated
  obtain ⟨refused, size⟩ := of_decide_eq_true outcome
  have run : Steps (Calls smallKmap) smallMachine failedFork _ :=
    (Steps.of_follow (Option.some_get reached).symm).unguarded
  have positive : 0 < KERNBASE := by decide
  have bounded : smallMachine.Bounded := fun _ => positive
  exact ⟨_, run, refused, size, pages_in_one_place bounded (fun _ => places_smallMachine) run⟩

end Memory

end Xv6
