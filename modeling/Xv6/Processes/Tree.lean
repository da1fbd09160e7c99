import Xv6.Kernel.Table
import Xv6.Semantics.Transition

/-!
# The process tree

Every process that has come to life has a parent that is alive, whatever the
order in which parents and children fork, exit, wait and are killed. The steps
change the states of processes a lot but their kind little: a process is unused,
an embryo, alive or a zombie, and only `fork`, `exit` and `wait` move it from one
to the next.
-/

namespace Xv6

open Function Option

variable {np : ProcPtr}

/-- What a state is for the process tree. -/
inductive Kind where
  | unused | embryo | alive | zombie
deriving DecidableEq, Repr

def ProcState.kind : ProcState → Kind
  | .unused => .unused
  | .embryo => .embryo
  | .sleeping => .alive
  | .runnable => .alive
  | .running => .alive
  | .zombie => .zombie

def ProcTable.kind (table : ProcTable) (p : ProcPtr) : Kind := (table.proc p).state.kind

def ProcTable.parent (table : ProcTable) (p : ProcPtr) : Option ProcPtr := (table.proc p).parent

namespace Processes

/-! ## What the functions do to kinds and parents -/

variable {table : ProcTable} {p q cur : ProcPtr}

theorem kind_eq_zombie {state : ProcState} : state.kind = .zombie ↔ state = .zombie := by
  cases state <;> simp [ProcState.kind]

theorem kind_eq_unused {state : ProcState} : state.kind = .unused ↔ state = .unused := by
  cases state <;> simp [ProcState.kind]

theorem kind_update (change : Proc → Proc) :
    (table.update p change).kind q =
      if q = p then (change (table.proc p)).state.kind else table.kind q := by
  unfold ProcTable.kind ProcTable.update
  by_cases here : q = p
  · subst here
    simp
  · simp [here]

theorem parent_update (change : Proc → Proc) :
    (table.update p change).parent q =
      if q = p then (change (table.proc p)).parent else table.parent q := by
  unfold ProcTable.parent ProcTable.update
  by_cases here : q = p
  · subst here
    simp
  · simp [here]

/-- A change of one slot that keeps its kind keeps all kinds. -/
theorem kind_update_same (change : Proc → Proc)
    (same : (change (table.proc p)).state.kind = table.kind p) :
    (table.update p change).kind = table.kind := by
  funext q
  rw [kind_update]
  split
  · rename_i here
    rw [here, same]
  · rfl

theorem parent_update_same (change : Proc → Proc)
    (same : (change (table.proc p)).parent = table.parent p) :
    (table.update p change).parent = table.parent := by
  funext q
  rw [parent_update]
  split
  · rename_i here
    rw [here, same]
  · rfl

@[simp] theorem kind_wakeup1 (chan : Channel) : (table.wakeup1 chan).kind = table.kind := by
  funext q
  unfold ProcTable.kind ProcTable.wakeup1 Proc.wake
  by_cases asleep : (table.proc q).state = .sleeping ∧ (table.proc q).chan = some chan
  · simp [asleep, ProcState.kind]
  · simp [asleep]

@[simp] theorem parent_wakeup1 (chan : Channel) : (table.wakeup1 chan).parent = table.parent := by
  funext q
  unfold ProcTable.parent ProcTable.wakeup1 Proc.wake
  by_cases asleep : (table.proc q).state = .sleeping ∧ (table.proc q).chan = some chan
  · simp [asleep]
  · simp [asleep]

@[simp] theorem kind_adopt (np : ProcPtr) : (table.adopt np cur).kind = table.kind :=
  kind_update_same (fun proc => { proc with parent := some cur }) rfl

theorem parent_adopt (np : ProcPtr) :
    (table.adopt np cur).parent q = if q = np then some cur else table.parent q :=
  parent_update _

theorem kind_setState (state : ProcState) :
    (table.setState p state).kind q = if q = p then state.kind else table.kind q :=
  kind_update _

@[simp] theorem parent_setState (state : ProcState) :
    (table.setState p state).parent = table.parent :=
  parent_update_same (fun proc => { proc with state := state }) rfl

@[simp] theorem initproc_setState (state : ProcState) :
    (table.setState p state).initproc = table.initproc := rfl

/-- One turn of the loop of `exit`. -/
theorem exitChild_spec (cur p : ProcPtr) (table : ProcTable) :
    (table.exitChild cur p).initproc = table.initproc ∧
      (table.exitChild cur p).kind = table.kind ∧
      ∀ q, (table.exitChild cur p).parent q =
        if q = p ∧ table.parent q = some cur then some table.initproc else table.parent q := by
  unfold ProcTable.exitChild
  by_cases child : (table.proc p).parent = some cur
  · rw [if_pos child]
    have child' : table.parent p = some cur := child
    have parent_eq : ∀ q, (table.adopt p table.initproc).parent q =
        if q = p ∧ table.parent q = some cur then some table.initproc else table.parent q := by
      intro q
      rw [parent_adopt]
      by_cases here : q = p
      · subst here
        simp [child']
      · simp [here]
    split
    · exact ⟨rfl, by simp, fun q => by rw [parent_wakeup1, parent_eq]⟩
    · exact ⟨rfl, by simp, parent_eq⟩
  · rw [if_neg child]
    refine ⟨rfl, rfl, fun q => ?_⟩
    by_cases here : q = p
    · subst here
      have child' : table.parent q ≠ some cur := child
      simp [child']
    · simp [here]

/-- The loop of `exit` passes every child in the list to init. -/
theorem exitChildren_spec (other : table.initproc ≠ cur) (list : List ProcPtr) :
    (list.foldl (ProcTable.exitChild cur) table).initproc = table.initproc ∧
      (list.foldl (ProcTable.exitChild cur) table).kind = table.kind ∧
      ∀ q, (list.foldl (ProcTable.exitChild cur) table).parent q =
        if q ∈ list ∧ table.parent q = some cur then some table.initproc else table.parent q := by
  induction list generalizing table with
  | nil => simp
  | cons head rest ih =>
    obtain ⟨init_eq, kind_eq, parent_eq⟩ := exitChild_spec cur head table
    have other' : (table.exitChild cur head).initproc ≠ cur := by rwa [init_eq]
    obtain ⟨init_eq', kind_eq', parent_eq'⟩ := ih other'
    rw [List.foldl_cons]
    refine ⟨init_eq'.trans init_eq, kind_eq'.trans kind_eq, fun q => ?_⟩
    rw [parent_eq', parent_eq, init_eq]
    by_cases child : table.parent q = some cur
    · by_cases here : q = head
      · subst here
        simp [child, other]
      · simp [here, child]
    · simp [child]

theorem exit_spec (other : table.initproc ≠ cur) :
    (table.exit cur).initproc = table.initproc ∧
      (∀ q, (table.exit cur).kind q = if q = cur then .zombie else table.kind q) ∧
      ∀ q, (table.exit cur).parent q =
        if table.parent q = some cur then some table.initproc else table.parent q := by
  have woken : ∃ woken : ProcTable, woken.initproc = table.initproc ∧ woken.kind = table.kind ∧
      woken.parent = table.parent ∧ table.exit cur =
        ((List.finRange NPROC).foldl (ProcTable.exitChild cur) woken).setState cur .zombie := by
    unfold ProcTable.exit
    cases (table.proc cur).parent with
    | none => exact ⟨table, rfl, rfl, rfl, rfl⟩
    | some parent => exact ⟨table.wakeup1 (.proc parent), rfl, kind_wakeup1 _, parent_wakeup1 _, rfl⟩
  obtain ⟨woken, init_eq, kind_eq, parent_eq, exit_eq⟩ := woken
  have other' : woken.initproc ≠ cur := by rwa [init_eq]
  obtain ⟨init_eq', kind_eq', parent_eq'⟩ := exitChildren_spec other' (List.finRange NPROC)
  rw [exit_eq]
  refine ⟨by rw [initproc_setState, init_eq', init_eq], fun q => ?_, fun q => ?_⟩
  · rw [kind_setState, kind_eq', kind_eq]
    rfl
  · rw [parent_setState, parent_eq', parent_eq, init_eq]
    simp [List.mem_finRange]

theorem zombieChild_spec (found : table.zombieChild cur = some p) :
    table.parent p = some cur ∧ (table.proc p).state = .zombie := by
  have holds := List.find?_some found
  simpa [ProcTable.parent] using holds

theorem allocproc_spec {next : ProcTable} (found : table.allocproc = some (np, next)) :
    table.kind np = .unused ∧ next.initproc = table.initproc ∧ next.parent = table.parent ∧
      ∀ q, next.kind q = if q = np then .embryo else table.kind q := by
  obtain ⟨p, first, both⟩ := map_eq_some_iff.mp found
  have unused : (table.proc p).state = .unused := by simpa using List.find?_some first
  cases both
  refine ⟨kind_eq_unused.mpr unused, rfl, ?_, fun q => ?_⟩
  · exact parent_update_same (fun proc => { proc with state := .embryo, pid := table.nextpid }) rfl
  · exact kind_update (fun proc => { proc with state := .embryo, pid := table.nextpid })

theorem kill_spec (pid : Int) :
    (table.kill pid).1.initproc = table.initproc ∧ (table.kill pid).1.kind = table.kind ∧
      (table.kill pid).1.parent = table.parent := by
  unfold ProcTable.kill
  split
  · exact ⟨rfl, rfl, rfl⟩
  · rename_i p _
    have kind_eq : (table.proc p).hit.state.kind = table.kind p := by
      unfold Proc.hit ProcTable.kind
      by_cases asleep : (table.proc p).state = .sleeping
      · simp [asleep, ProcState.kind]
      · simp [asleep]
    exact ⟨rfl, kind_update_same Proc.hit kind_eq, parent_update_same Proc.hit rfl⟩

/-! ## The invariant -/

/-- The processes form a tree below init, and the slots that `fork` is working on
belong to one process each. -/
structure Tree (system : ProcSystem) : Prop where
  init : system.table.kind system.table.initproc = .alive
  parent : ∀ q, q ≠ system.table.initproc →
    system.table.kind q = .alive ∨ system.table.kind q = .zombie →
    ∃ r, system.table.parent q = some r ∧ system.table.kind r = .alive
  unused : ∀ q, system.table.kind q = .unused → system.table.parent q = none
  forking : ∀ p np adopted, system.stage p = .forking np adopted →
    system.table.kind p = .alive ∧ system.table.kind np = .embryo ∧
      system.table.parent np = if adopted then some p else none
  owner : ∀ p p' np adopted adopted', system.stage p = .forking np adopted →
    system.stage p' = .forking np adopted' → p' = p

variable {system next : ProcSystem}

/-- A step that changes no kind, no parent and no `fork` keeps the tree. -/
theorem Tree.congr (tree : Tree system) (init_eq : next.table.initproc = system.table.initproc)
    (kind_eq : next.table.kind = system.table.kind)
    (parent_eq : next.table.parent = system.table.parent)
    (stage : ∀ p np adopted, next.stage p = .forking np adopted →
      system.stage p = .forking np adopted) : Tree next where
  init := by
    rw [init_eq, kind_eq]
    exact tree.init
  parent := by
    rw [init_eq, kind_eq, parent_eq]
    exact tree.parent
  unused := by
    rw [kind_eq, parent_eq]
    exact tree.unused
  forking p np adopted forks := by
    rw [kind_eq, parent_eq]
    exact tree.forking p np adopted (stage p np adopted forks)
  owner p p' np adopted adopted' forks forks' :=
    tree.owner p p' np adopted adopted' (stage _ _ _ forks) (stage _ _ _ forks')

theorem kind_of_running (running : system.state p = .running) : system.table.kind p = .alive := by
  change (system.state p).kind = .alive
  rw [running]
  rfl

section

variable (tree : Tree system)

include tree

/-- A new embryo. -/
theorem Tree.fork (alive : system.table.kind p = .alive) (unused : system.table.kind np = .unused)
    (init_eq : next.table.initproc = system.table.initproc)
    (kind_eq : ∀ q, next.table.kind q = if q = np then .embryo else system.table.kind q)
    (parent_eq : ∀ q, next.table.parent q = system.table.parent q) (stage_eq : ∀ q, next.stage q =
      if q = p then .forking np false else if q = np then .user else system.stage q) :
    Tree next := by
  have orphan := tree.unused np unused
  -- No other `fork` works on the slot: those slots are embryos.
  have old : ∀ p' np' adopted, next.stage p' = .forking np' adopted →
      (p' = p ∧ np' = np ∧ adopted = false) ∨
        (system.stage p' = .forking np' adopted ∧ np' ≠ np) := by
    intro p' np' adopted forks
    have embryo := tree.forking p' np' adopted
    grind
  constructor
  · grind [tree.init]
  · intro q notInit kinds
    have parent := tree.parent q
    grind
  · grind [tree.unused]
  · intro p' np' adopted forks
    have before := tree.forking p' np' adopted
    grind
  · intro p' p'' np' adopted adopted' forks forks'
    have before := tree.owner p' p'' np' adopted adopted'
    grind

/-- `fork` gives the slot up, or finishes. -/
theorem Tree.forkEnd {adopted : Bool} {kind : Kind} (forks : system.stage p = .forking np adopted)
    (outcome : (adopted = false ∧ kind = .unused) ∨ (adopted = true ∧ kind = .alive))
    (init_eq : next.table.initproc = system.table.initproc)
    (kind_eq : ∀ q, next.table.kind q = if q = np then kind else system.table.kind q)
    (parent_eq : ∀ q, next.table.parent q = system.table.parent q)
    (stage_eq : ∀ q, next.stage q = if q = p then .user else system.stage q) : Tree next := by
  obtain ⟨alive, embryo, parent⟩ := tree.forking p np adopted forks
  -- The slots of the other forks are others.
  have old : ∀ p' np' adopted', next.stage p' = .forking np' adopted' →
      system.stage p' = .forking np' adopted' ∧ np' ≠ np := by
    intro p' np' adopted' forks'
    have owner := tree.owner p p' np' adopted adopted'
    grind
  constructor
  · grind [tree.init]
  · intro q notInit kinds
    have before := tree.parent q
    grind
  · grind [tree.unused]
  · intro p' np' adopted' forks'
    have before := tree.forking p' np' adopted'
    grind
  · intro p' p'' np' adopted' adopted'' forks' forks''
    exact tree.owner _ _ _ _ _ (old _ _ _ forks').1 (old _ _ _ forks'').1

/-- `fork` makes the caller the parent of the new slot. -/
theorem Tree.forkAdopt (forks : system.stage p = .forking np false)
    (init_eq : next.table.initproc = system.table.initproc)
    (kind_eq : ∀ q, next.table.kind q = system.table.kind q)
    (parent_eq : ∀ q, next.table.parent q = if q = np then some p else system.table.parent q)
    (stage_eq : ∀ q, next.stage q = if q = p then .forking np true else system.stage q) :
    Tree next := by
  obtain ⟨alive, embryo, _⟩ := tree.forking p np false forks
  have old : ∀ p' np' adopted', next.stage p' = .forking np' adopted' →
      (p' = p ∧ np' = np ∧ adopted' = true) ∨
        (system.stage p' = .forking np' adopted' ∧ np' ≠ np) := by
    intro p' np' adopted' forks'
    have owner := tree.owner p p' np' false adopted'
    grind
  constructor
  · grind [tree.init]
  · intro q notInit kinds
    have before := tree.parent q
    grind
  · grind [tree.unused]
  · intro p' np' adopted' forks'
    have before := tree.forking p' np' adopted'
    grind
  · intro p' p'' np' adopted' adopted'' forks' forks''
    have before := tree.owner p' p'' np' adopted' adopted''
    grind

/-- The children of a process that exits go to init. -/
theorem Tree.exit (alive : system.table.kind p = .alive) (idle : system.stage p = .user)
    (notInit : p ≠ system.table.initproc) (init_eq : next.table.initproc = system.table.initproc)
    (kind_eq : ∀ q, next.table.kind q = if q = p then .zombie else system.table.kind q)
    (parent_eq : ∀ q, next.table.parent q =
      if system.table.parent q = some p then some system.table.initproc else system.table.parent q)
    (stage_eq : next.stage = system.stage) : Tree next := by
  have init := tree.init
  constructor
  · grind
  · intro q notInit' kinds
    have before := tree.parent q
    grind
  · grind [tree.unused]
  · intro p' np adopted forks
    rw [stage_eq] at forks
    have before := tree.forking p' np adopted forks
    grind
  · rw [stage_eq]
    exact tree.owner

/-- Freeing the slot of a zombie: it has no children. -/
theorem Tree.reap {child : ProcPtr} (zombie : system.table.kind child = .zombie)
    (init_eq : next.table.initproc = system.table.initproc)
    (kind_eq : ∀ q, next.table.kind q = if q = child then .unused else system.table.kind q)
    (parent_eq : ∀ q, next.table.parent q = if q = child then none else system.table.parent q)
    (stage : ∀ p np adopted, next.stage p = .forking np adopted →
      system.stage p = .forking np adopted) : Tree next := by
  constructor
  · grind [tree.init]
  · intro q notInit kinds
    have before := tree.parent q
    grind
  · grind [tree.unused]
  · intro p' np adopted forks
    have before := tree.forking p' np adopted (stage p' np adopted forks)
    grind
  · intro p' p'' np adopted adopted' forks forks'
    exact tree.owner _ _ _ _ _ (stage _ _ _ forks) (stage _ _ _ forks')

end

theorem stage_setStage {p' : ProcPtr} (table : ProcTable) (stage : Stage) :
    ((system.setTable table).setStage p stage).stage p' =
      if p' = p then stage else system.stage p' := update_apply ..

theorem Tree.wait (tree : Tree system) (running : system.state p = .running) :
    Tree (system.wait p).2 := by
  have stage_eq : ∀ p' np adopted, (system.wait p).2.stage p' = .forking np adopted →
      system.stage p' = .forking np adopted := by
    intro p' np adopted forks
    change update system.stage p
      (if (system.table.wait p).2 = none then .waiting else .user) p' = _ at forks
    by_cases here : p' = p
    · subst here
      rw [update_self] at forks
      generalize (system.table.wait p').2 = result at forks
      split at forks
      · cases forks
      · cases forks
    · rw [update_of_ne here] at forks
      exact forks
  cases found : system.table.zombieChild p with
  | some child =>
    have zombie := kind_eq_zombie.mpr (zombieChild_spec found).2
    have table_eq : (system.wait p).2.table = system.table.update child Proc.reaped := by
      unfold ProcSystem.wait ProcTable.wait
      rw [found]
    refine tree.reap zombie ?_ ?_ ?_ stage_eq
    · rw [table_eq]
      rfl
    · rw [table_eq]
      exact fun q => kind_update Proc.reaped
    · rw [table_eq]
      exact fun q => parent_update Proc.reaped
  | none =>
    by_cases returns : (∀ q, (system.table.proc q).parent ≠ some p) ∨ (system.table.proc p).killed
    · have table_eq : (system.wait p).2.table = system.table := by
        unfold ProcSystem.wait ProcTable.wait
        rw [found]
        simp only [if_pos returns]
      exact tree.congr (by rw [table_eq]) (by rw [table_eq]) (by rw [table_eq]) stage_eq
    · have table_eq : (system.wait p).2.table = system.table.update p fun proc =>
          { proc with chan := some (.proc p), state := .sleeping } := by
        unfold ProcSystem.wait ProcTable.wait
        rw [found]
        simp only [if_neg returns]
      refine tree.congr (by rw [table_eq]; rfl) ?_ ?_ stage_eq
      · rw [table_eq]
        exact kind_update_same _ (kind_of_running running).symm
      · rw [table_eq]
        exact parent_update_same _ rfl

/-- A change of one slot that keeps its kind and its parent. -/
theorem Tree.move (tree : Tree system) (change : Proc → Proc)
    (kind_eq : (change (system.table.proc p)).state.kind = system.table.kind p)
    (parent_eq : (change (system.table.proc p)).parent = system.table.parent p) :
    Tree (system.setTable (system.table.update p change)) := by
  refine tree.congr ?_ ?_ ?_ fun _ _ _ forks => forks
  · rfl
  · exact kind_update_same change kind_eq
  · exact parent_update_same change parent_eq

/-- Every step keeps the tree. -/
theorem Tree.step {action : ProcAction} {result : Option Int} (tree : Tree system)
    (step : system.step action = some (result, next)) : Tree next := by
  cases action with
  | schedule p =>
    simp only [ProcSystem.step, ite_none_right_eq_some, some.injEq,
      Prod.mk.injEq] at step
    obtain ⟨runnable, _, rfl⟩ := step
    have alive : system.table.kind p = .alive := congrArg ProcState.kind runnable
    exact tree.move _ alive.symm rfl
  | yield _ | sleep _ _ =>
    simp only [ProcSystem.step, ite_none_right_eq_some, some.injEq,
      Prod.mk.injEq] at step
    obtain ⟨running, _, rfl⟩ := step
    exact tree.move _ (kind_of_running running).symm rfl
  | wakeup chan =>
    simp only [ProcSystem.step, some.injEq, Prod.mk.injEq] at step
    obtain ⟨_, rfl⟩ := step
    refine tree.congr ?_ (kind_wakeup1 chan) (parent_wakeup1 chan) fun _ _ _ forks => forks
    rfl
  | fork p =>
    simp only [ProcSystem.step, ite_none_right_eq_some, some.injEq] at step
    obtain ⟨⟨running, _⟩, forked⟩ := step
    unfold ProcSystem.fork at forked
    split at forked
    · cases forked
      exact tree
    · rename_i np table found
      obtain ⟨unused, init_eq, parent_eq, kind_eq⟩ := allocproc_spec found
      cases forked
      refine tree.fork (kind_of_running running) unused init_eq kind_eq (congrFun parent_eq) ?_
      intro q
      simp only [update_apply]
  | forkFail p =>
    simp only [ProcSystem.step] at step
    split at step
    · rename_i np forks
      simp only [ite_none_right_eq_some, some.injEq, Prod.mk.injEq] at step
      obtain ⟨_, _, rfl⟩ := step
      exact tree.forkEnd forks (.inl ⟨rfl, rfl⟩) rfl (fun q => kind_setState .unused)
        (congrFun (parent_setState _)) fun q => stage_setStage ..
    · cases step
  | forkAdopt p =>
    simp only [ProcSystem.step] at step
    split at step
    · rename_i np forks
      simp only [ite_none_right_eq_some, some.injEq, Prod.mk.injEq] at step
      obtain ⟨_, _, rfl⟩ := step
      exact tree.forkAdopt forks rfl (congrFun (kind_adopt np)) (fun q => parent_adopt np)
        fun q => stage_setStage ..
    · cases step
  | forkDone p =>
    simp only [ProcSystem.step] at step
    split at step
    · rename_i np forks
      simp only [ite_none_right_eq_some, some.injEq, Prod.mk.injEq] at step
      obtain ⟨_, _, rfl⟩ := step
      exact tree.forkEnd forks (.inr ⟨rfl, rfl⟩) rfl (fun q => kind_setState .runnable)
        (congrFun (parent_setState _)) fun q => stage_setStage ..
    · cases step
  | exit p =>
    simp only [ProcSystem.step, ite_none_right_eq_some, some.injEq,
      Prod.mk.injEq] at step
    obtain ⟨⟨running, idle, notInit⟩, _, rfl⟩ := step
    obtain ⟨init_eq, kind_eq, parent_eq⟩ := exit_spec (Ne.symm notInit)
    exact tree.exit (kind_of_running running) idle notInit init_eq kind_eq parent_eq rfl
  | wait p =>
    simp only [ProcSystem.step, ite_none_right_eq_some, some.injEq] at step
    obtain ⟨⟨running, _⟩, waited⟩ := step
    have next_eq : next = (system.wait p).2 := by rw [waited]
    rw [next_eq]
    exact tree.wait running
  | kill pid =>
    simp only [ProcSystem.step, some.injEq, Prod.mk.injEq] at step
    obtain ⟨_, rfl⟩ := step
    obtain ⟨init_eq, kind_eq, parent_eq⟩ := @kill_spec system.table pid
    exact tree.congr init_eq kind_eq parent_eq fun _ _ _ forks => forks

theorem tree_of_booted (booted : system.Booted) : Tree system := by
  have kind_other : ∀ q, q ≠ system.table.initproc → system.table.kind q = .unused := by
    intro q other
    exact congrArg ProcState.kind (booted.unused q other)
  constructor
  · exact congrArg ProcState.kind booted.init
  · intro q other kinds
    rw [kind_other q other] at kinds
    exact (kinds.elim nofun nofun)
  · intro q _
    exact booted.parent q
  · intro p np adopted forks
    exact nomatch (booted.stage p).symm.trans forks
  · intro p p' np adopted adopted' forks
    exact nomatch (booted.stage p).symm.trans forks

end Processes

end Xv6
