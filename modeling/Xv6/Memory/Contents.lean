import Xv6.Kernel.Uvm
import Xv6.Memory.Unmapping

/-!
# The pages behind the allocator

The functions of `vm.c` that look into pages do with the pages what the model without
contents does, so everything known of that model holds here. Beyond it, `allocuvm` hands
out pages of zeros and writes to no page that was not free.
-/

namespace Xv6.Memory

open Program Vm Uvm Function

variable {Value Result : Type} {machine : Machine} {plain : Mem Value} {page : Page}

/-! ## Forgetting what is in the pages -/

/-- Without the contents, the program is the other one. -/
structure Erases (program : Phys Value) (plain : Mem Value) : Prop where
  runs : ∀ machine, Sat program machine
    (fun value after => plain machine.kmem = .ok value after.kmem)
    fun raised after => plain machine.kmem = .error raised after.kmem

theorem erases_pages (program : Mem Value) : Erases (pages program) program := by
  constructor
  intro machine
  unfold Sat pages
  cases program machine.kmem with
  | ok value kmem => rfl
  | error raised kmem => rfl

theorem erases_pure (value : Value) : Erases (pure value) (pure value) := ⟨fun _ => rfl⟩

theorem Erases.bind {first : Phys Value} {rest : Value → Phys Result}
    {plainRest : Value → Mem Result} (one : Erases first plain)
    (two : ∀ value, Erases (rest value) (plainRest value)) :
    Erases (first >>= rest) (plain >>= plainRest) := by
  constructor
  intro machine
  rw [sat_bind]
  refine (one.runs machine).mono ?_ ?_
  · intro value middle run
    have runs : ∀ kmem, (plain >>= plainRest) kmem = EStateM.bind plain plainRest kmem :=
      fun _ => rfl
    rw [runs]
    unfold EStateM.bind
    rw [run]
    exact (two value).runs middle
  · intro raised after run
    change EStateM.bind plain plainRest machine.kmem = _
    unfold EStateM.bind
    rw [run]

/-- A step that only writes to pages is forgotten. -/
theorem Erases.skip {step : Phys PUnit} {rest : Phys Result} {plainRest : Mem Result}
    (one : Erases step (pure ⟨⟩)) (two : Erases rest plainRest) :
    Erases (step >>= fun _ => rest) plainRest :=
  one.bind fun _ => two

theorem erases_memset (mem : Page) : Erases (memset mem) (pure ⟨⟩) := ⟨fun _ => rfl⟩

theorem Erases.sat {program : Phys Value} {post : Value → Kmem → Prop}
    {fault : Vm.Panic → Kmem → Prop} (erases : Erases program plain)
    (sat : Sat plain machine.kmem post fault) :
    Sat program machine (fun value after => post value after.kmem)
      fun raised after => fault raised after.kmem :=
  (erases.runs machine).mono (fun _ _ run => sat.ok run) fun _ _ run => sat.error run

/-- How often a page is on the free list. -/
def free (x : Page) (machine : Machine) : Nat := machine.kmem.freelist.count x

theorem Erases.conserves {program : Phys Value} {x : Page} {owed : Nat}
    {result : Value → Nat → Prop} (erases : Erases program plain)
    (passes : Passes x owed plain result) : Conserves (free x) owed program result :=
  ⟨fun machine => (erases.sat (passes.sat machine.kmem)).returning⟩

theorem erases_allocuvmLoop (oldsz newsz : Nat) (list : List Nat) (pgdir : PageDir) :
    Erases (Uvm.allocuvmLoop oldsz newsz list pgdir) (Vm.allocuvmLoop oldsz newsz list pgdir) := by
  induction list generalizing pgdir with
  | nil => exact erases_pure _
  | cons a rest ih =>
    refine (erases_pages kalloc).bind fun page => ?_
    cases page with
    | none => exact (erases_pages _).bind fun _ => erases_pure _
    | some mem =>
      refine (erases_memset mem).skip ((erases_pages _).bind ?_)
      rintro ⟨pgdir, mapped⟩
      cases mapped with
      | true => exact ih pgdir
      | false =>
        exact (erases_pages _).bind fun _ => (erases_pages _).bind fun _ => erases_pure _

theorem erases_allocuvm (pgdir : PageDir) (oldsz newsz : Nat) :
    Erases (Uvm.allocuvm pgdir oldsz newsz) (Vm.allocuvm pgdir oldsz newsz) := by
  unfold Uvm.allocuvm Vm.allocuvm
  split
  · exact erases_pure _
  · split
    · exact erases_pure _
    · exact erases_allocuvmLoop ..

/-- `growproc` does to the memory of the process what the model without contents says. -/
theorem erases_growproc (space : Space) (n : Int32) :
    Erases (do return (← Uvm.growproc space n).2) (Xv6.growproc space n) := by
  unfold Uvm.growproc Xv6.growproc
  rw [bind_assoc]
  refine (erases_pages space.directory).bind fun pgdir => ?_
  split
  · rw [bind_assoc]
    refine (erases_allocuvm ..).bind ?_
    rintro ⟨pgdir, sz⟩
    dsimp only
    split <;> exact erases_pure _
  · split
    · rw [bind_assoc]
      refine (erases_pages _).bind ?_
      rintro ⟨pgdir, sz⟩
      dsimp only
      split <;> exact erases_pure _
    · exact erases_pure _

/-! ## Pages that are not written to -/

/-- A page of zeros. -/
abbrev zeros : Nat → Byte := fun _ => 0

theorem sat_pages {program : Mem Value} {post : Value → Kmem → Prop} {allowed : Vm.Panic → Prop}
    (sat : Sat program machine.kmem post fun raised _ => allowed raised) :
    Sat (pages program) machine
      (fun value after => post value after.kmem ∧
        after.ram = junk machine.kmem after.kmem machine.ram)
      fun raised _ => allowed raised := by
  unfold Sat at sat ⊢
  unfold pages
  cases run : program machine.kmem with
  | ok value kmem =>
    rw [run] at sat
    exact ⟨sat, rfl⟩
  | error raised kmem =>
    rw [run] at sat
    exact sat

theorem sat_memset (mem : Page) (machine : Machine) {fault : Vm.Panic → Machine → Prop} :
    Sat (memset mem) machine (fun _ after =>
      after = { machine with ram := update machine.ram mem zeros }) fault := rfl

theorem junk_of_not_mem {before after : Kmem} {ram : Ram} (taken : page ∉ after.freelist) :
    junk before after ram page = ram page :=
  if_neg fun both => taken both.1

/-- Taking pages from the free list writes nothing. -/
theorem Draws.junk_eq {before after : Kmem} (draws : Draws before after) (ram : Ram) :
    junk before after ram = ram :=
  funext fun page => if_neg fun both => both.2 (draws.fewer page both.1)

theorem pages_pure (value : Value) : pages (pure value) = pure value := by
  funext machine
  change EStateM.Result.ok value { machine with ram := junk machine.kmem machine.kmem machine.ram } = _
  rw [(Draws.refl machine.kmem).junk_eq]
  rfl

/-! ## `allocuvm` -/

/-- The range from `a` to `newsz` has been given pages of zeros that were free, and no
other page was written to. -/
structure Extends (a newsz : Nat) (pgdir : PageDir) (machine : Machine) (grown : PageDir)
    (after : Machine) : Prop where
  draws : Draws machine.kmem after.kmem
  kept : ∀ va, va < 2 ^ 32 → ¬InRange a newsz va → grown.entry va = pgdir.entry va
  fresh : ∀ va, va < 2 ^ 32 → InRange a newsz va → ∃ pa ∈ machine.kmem.freelist,
    grown.entry va = some { pa := pa, flags := PTE_W ||| PTE_U ||| PTE_P } ∧ after.ram pa = zeros
  same : ∀ page, page ∉ machine.kmem.freelist → after.ram page = machine.ram page
  zeroed : ∀ page, machine.ram page = zeros → after.ram page = zeros

/-- The range from `a` to `newsz` has no entries, the others are as before, and only free
pages were written to. -/
structure Undoes (a newsz : Nat) (pgdir : PageDir) (machine : Machine) (left : PageDir)
    (after : Machine) : Prop where
  entries : ∀ va, va < 2 ^ 32 →
    left.entry va = if InRange a newsz va then none else pgdir.entry va
  same : ∀ page, page ∉ machine.kmem.freelist → page ∉ after.kmem.freelist →
    after.ram page = machine.ram page

/-- One turn of the loop: `a` has the page `mem`, which was free. -/
structure Turn (a : Nat) (mem : Page) (pgdir : PageDir) (machine : Machine) (next : PageDir)
    (middle : Machine) : Prop where
  among : mem ∈ machine.kmem.freelist
  draws : Draws machine.kmem middle.kmem
  entries : ∀ va, va < 2 ^ 32 → next.entry va = if va / PGSIZE = a / PGSIZE then
    some { pa := mem, flags := PTE_W ||| PTE_U ||| PTE_P } else pgdir.entry va
  ram : middle.ram = Function.update machine.ram mem zeros

section Turn

variable {a newsz : Nat} {mem : Page} {pgdir next grown : PageDir} {middle after : Machine}

section

variable (turn : Turn a mem pgdir machine next middle)

include turn

theorem Turn.same (used : page ∉ machine.kmem.freelist) : middle.ram page = machine.ram page := by
  rw [turn.ram, update_of_ne]
  rintro rfl
  exact used turn.among

theorem Turn.zeroed (zero : machine.ram page = zeros) : middle.ram page = zeros := by
  rw [turn.ram, update_apply]
  split
  · rfl
  · exact zero

theorem Turn.extends (aligned : a % PGSIZE = 0) (more : a < newsz)
    (rest : Extends (a + PGSIZE) newsz next middle grown after) :
    Extends a newsz pgdir machine grown after := by
  refine ⟨turn.draws.trans rest.draws, ?_, ?_, ?_, fun page zero => rest.zeroed page (turn.zeroed zero)⟩
  · intro va word outside
    rw [inRange_iff aligned more, not_or] at outside
    rw [rest.kept va word outside.2, turn.entries va word, if_neg outside.1]
  · intro va word inside
    by_cases later : InRange (a + PGSIZE) newsz va
    · obtain ⟨pa, among, found, zero⟩ := rest.fresh va word later
      exact ⟨pa, turn.draws.fewer pa among, found, zero⟩
    · have here : va / PGSIZE = a / PGSIZE := ((inRange_iff aligned more).mp inside).resolve_right later
      refine ⟨mem, turn.among, ?_, rest.zeroed mem ?_⟩
      · rw [rest.kept va word later, turn.entries va word, if_pos here]
      · rw [turn.ram, update_self]
  · intro page used
    rw [rest.same page fun among => used (turn.draws.fewer page among), turn.same used]

theorem Turn.undoes {from_ : Nat} (aligned : a % PGSIZE = 0) (inside : from_ ≤ a) (more : a < newsz)
    (rest : Undoes from_ newsz next middle grown after) :
    Undoes from_ newsz pgdir machine grown after := by
  constructor
  · intro va word
    rw [rest.entries va word, turn.entries va word]
    by_cases here : va / PGSIZE = a / PGSIZE
    · have among : InRange from_ newsz va := by
        have both := (inRange_iff aligned more).mpr (.inl here)
        exact ⟨inside.trans both.1, both.2⟩
      rw [if_pos among, if_pos among]
    · rw [if_neg here]
  · intro page used used'
    rw [rest.same page (fun among => used (turn.draws.fewer page among)) used', turn.same used]

end

end Turn

/-- The loop of `allocuvm`, when it has come to the address `a`. -/
theorem sat_allocuvmLoop {oldsz newsz : Nat} (user : newsz < KERNBASE) (list : List Nat)
    (pgdir : PageDir) {a : Nat} (machine : Machine) (todo : list = pagesUpTo a newsz)
    (aligned : a % PGSIZE = 0) (from_ : PGROUNDUP oldsz ≤ a)
    (freeable : ∀ page ∈ machine.kmem.freelist, Freeable machine.kmem.first page)
    (releasable : Releasable machine.kmem.first pgdir)
    (missing : ∀ va, va < KERNBASE → a ≤ va → pgdir.entry va = none) :
    Sat (Uvm.allocuvmLoop oldsz newsz list pgdir) machine (fun result after =>
      result.2 = newsz ∧ Extends a newsz pgdir machine result.1 after ∨
      result.2 = 0 ∧ Undoes (PGROUNDUP oldsz) newsz pgdir machine result.1 after)
      fun _ _ => False := by
  induction list generalizing pgdir a machine with
  | nil =>
    have done : newsz ≤ a := by
      by_contra more
      rw [pagesUpTo_cons (Nat.lt_of_not_le more)] at todo
      cases todo
    exact .inl ⟨rfl, .refl _, fun _ _ _ => rfl, fun va _ inside =>
      absurd inside (not_inRange aligned done), fun _ _ => rfl, fun _ zero => zero⟩
  | cons head rest ih =>
    have more : a < newsz := by
      by_contra done
      rw [pagesUpTo_nil (Nat.le_of_not_lt done)] at todo
      cases todo
    rw [pagesUpTo_cons more] at todo
    obtain ⟨first, later⟩ := List.cons.inj todo
    subst later
    rw [first]
    unfold Uvm.allocuvmLoop
    refine (sat_pages (sat_kalloc machine.kmem)).bind ?_
    rintro page ⟨kmem, ram⟩ ⟨⟨draws, taken⟩, filled⟩
    rw [draws.junk_eq] at filled
    dsimp only at filled draws
    subst filled
    cases page with
    | none =>
      refine (sat_pages (sat_deallocuvm pgdir oldsz kmem (Nat.le_of_lt user)
        (draws.first ▸ releasable))).bind ?_
      rintro ⟨left, sz⟩ after ⟨⟨-, -, entries⟩, filled⟩
      refine .inr ⟨rfl, entries, fun page _ used => ?_⟩
      rw [filled]
      exact junk_of_not_mem used
    | some mem =>
      have among : mem ∈ machine.kmem.freelist := taken mem rfl
      have absent : pgdir.entry a = none := missing a (by omega) (Nat.le_refl _)
      refine (sat_memset mem _).bind ?_
      rintro _ _ rfl
      refine (sat_pages (sat_mappages_user pgdir mem _ kmem aligned (by omega) absent)).bind ?_
      rintro ⟨next, mapped⟩ middle ⟨⟨draws', entries⟩, filled⟩
      rw [draws'.junk_eq] at filled
      dsimp only at filled
      have draws := draws.trans draws'
      cases mapped with
      | true =>
        have turn : Turn a mem pgdir machine next middle :=
          ⟨among, draws, fun va word => (entries va word).trans (by simp only [true_and]), filled⟩
        dsimp only
        rw [if_pos rfl]
        refine (ih next middle rfl (by rw [Nat.add_mod_right]; exact aligned)
          (by omega) ?_ ?_ ?_).weaken ?_
        · intro page among'
          rw [draws.first]
          exact freeable page (draws.fewer page among')
        · intro va below pte found
          rw [turn.entries va (by unfold KERNBASE at below; omega)] at found
          rw [draws.first]
          split at found
          · cases found
            exact freeable mem among
          · exact releasable va below pte found
        · intro va below later
          rw [turn.entries va (by unfold KERNBASE at below; omega), if_neg]
          · exact missing va below (by omega)
          · unfold PGSIZE at *
            omega
        · rintro result after (⟨size, rest⟩ | ⟨size, rest⟩)
          · exact .inl ⟨size, turn.extends aligned more rest⟩
          · exact .inr ⟨size, turn.undoes aligned from_ more rest⟩
      | false =>
        have entries : ∀ va, va < 2 ^ 32 → next.entry va = pgdir.entry va :=
          fun va word => by simpa using entries va word
        have releasable' : Releasable middle.kmem.first next := by
          intro va below pte found
          rw [entries va (by unfold KERNBASE at below; omega)] at found
          rw [draws.first]
          exact releasable va below pte found
        dsimp only
        rw [if_neg Bool.false_ne_true]
        refine (sat_pages (sat_deallocuvm next oldsz middle.kmem (Nat.le_of_lt user)
          releasable')).bind ?_
        rintro ⟨left, sz⟩ ⟨kmem', ram'⟩ ⟨⟨first, -, entries'⟩, filled'⟩
        dsimp only at first filled'
        have freeable' : Freeable kmem'.first mem := by
          rw [first, draws.first]
          exact freeable mem among
        refine (sat_pages (sat_kfree freeable')).bind ?_
        rintro _ after ⟨back, filled''⟩
        refine .inr ⟨rfl, ?_, fun page used used' => ?_⟩
        · intro va word
          rw [entries' va word, entries va word]
        · have other : page ∉ kmem'.freelist := by
            intro among'
            rw [back] at used'
            exact used' (List.mem_cons_of_mem _ among')
          rw [filled'', junk_of_not_mem used']
          dsimp only
          rw [filled', junk_of_not_mem other, filled, update_of_ne]
          rintro rfl
          exact used among

/-- Every entry is as before, and only free pages were written to. -/
structure Spares (pgdir : PageDir) (machine : Machine) (left : PageDir) (after : Machine) : Prop where
  entries : ∀ va, va < 2 ^ 32 → left.entry va = pgdir.entry va
  same : ∀ page, page ∉ machine.kmem.freelist → page ∉ after.kmem.freelist →
    after.ram page = machine.ram page

theorem Spares.refl (pgdir : PageDir) (machine : Machine) : Spares pgdir machine pgdir machine :=
  ⟨fun _ _ => rfl, fun _ _ _ => rfl⟩

/-- `allocuvm` gives the range its pages, or leaves everything as it was. -/
theorem sat_allocuvm (pgdir : PageDir) (oldsz newsz : Nat) (machine : Machine)
    (freeable : ∀ page ∈ machine.kmem.freelist, Freeable machine.kmem.first page)
    (releasable : Releasable machine.kmem.first pgdir)
    (missing : ∀ va, va < KERNBASE → PGROUNDUP oldsz ≤ va → pgdir.entry va = none) :
    Sat (Uvm.allocuvm pgdir oldsz newsz) machine (fun result after =>
      (oldsz ≤ newsz ∧ newsz < KERNBASE ∧ result.2 = newsz ∧
        Extends (PGROUNDUP oldsz) newsz pgdir machine result.1 after) ∨
      (newsz < oldsz ∧ result = (pgdir, oldsz) ∧ after = machine) ∨
      (result.2 = 0 ∧ Spares pgdir machine result.1 after)) fun _ _ => False := by
  unfold Uvm.allocuvm
  rw [sat_ite]
  split
  · exact .inr (.inr ⟨rfl, .refl _ _⟩)
  · rename_i below
    rw [sat_ite]
    split
    · rename_i shrinks
      exact .inr (.inl ⟨shrinks, rfl, rfl⟩)
    · rename_i grows
      refine (sat_allocuvmLoop (Nat.lt_of_not_le below) _ pgdir machine rfl (pgroundup_mod oldsz)
        (Nat.le_refl _) freeable releasable missing).weaken ?_
      rintro result after (⟨size, extended⟩ | ⟨size, undone⟩)
      · exact .inl ⟨Nat.le_of_not_lt grows, Nat.lt_of_not_le below, size, extended⟩
      · refine .inr (.inr ⟨size, ?_, undone.same⟩)
        intro va word
        rw [undone.entries va word]
        split
        · rename_i inside
          have user : va < KERNBASE := by
            have last := inside.2
            unfold PGROUNDDOWN at last
            unfold KERNBASE PGSIZE at *
            omega
          exact (missing va user inside.1).symm
        · rfl

end Xv6.Memory
