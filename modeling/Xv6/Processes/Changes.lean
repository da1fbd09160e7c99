import Xv6.Processes.Tree

/-!
# What a step of the processes changes

The kinds of the slots, their pids and `killed` flags, and the record of the
tenants. The invariants over runs are read off this list and not off the steps.
-/

namespace Xv6

variable {kinds : ProcPtr → Kind} {q : ProcPtr}

/-- What `kill` reads and writes in a slot. -/
def Proc.mark (proc : Proc) : Nat × Bool := (proc.pid, proc.killed)

def ProcTable.mark (table : ProcTable) (p : ProcPtr) : Nat × Bool := (table.proc p).mark

namespace Processes

open Function Option

variable {system next : ProcSystem} {action : ProcAction} {result : Option Int} {table : ProcTable}
  {p cur : ProcPtr}

/-- A slot with another kind than the one just written is another slot, with its old kind. -/
theorem kind_of_update {written kind : Kind} (now : update kinds p written q = kind)
    (differ : written ≠ kind) : q ≠ p ∧ kinds q = kind := by
  have other : q ≠ p := by
    rintro rfl
    rw [update_self] at now
    exact differ now
  rw [update_of_ne other] at now
  exact ⟨other, now⟩

/-- Writing the kind of a slot leaves the slots of other kinds as they are. -/
theorem update_kind_of_differ {old kind : Kind} (before : kinds p = old) (there : kinds q = kind)
    (differ : old ≠ kind) (written : Kind) : update kinds p written q = kind := by
  have other : q ≠ p := by
    rintro rfl
    exact differ (before.symm.trans there)
  rw [update_of_ne other, there]

/-- A slot in use before its kind is written was in use if it is so afterwards. -/
theorem used_of_update {written : Kind} (before : kinds p ≠ .unused)
    (now : update kinds p written q ≠ .unused) : kinds q ≠ .unused := by
  by_cases here : q = p
  · rwa [here]
  · rwa [update_of_ne here] at now

theorem update_kind (change : Proc → Proc) :
    (table.update p change).kind =
      update table.kind p (change (table.proc p)).state.kind := by
  funext q
  rw [kind_update]
  by_cases here : q = p
  · subst here
    simp
  · simp [here]

theorem update_mark (change : Proc → Proc) :
    (table.update p change).mark =
      update table.mark p (change (table.proc p)).mark := by
  funext q
  unfold ProcTable.mark ProcTable.update
  by_cases here : q = p
  · subst here
    simp
  · simp [here]

theorem mark_update_same (change : Proc → Proc)
    (same : (change (table.proc p)).mark = table.mark p) :
    (table.update p change).mark = table.mark := by
  rw [update_mark, same, update_eq_self]

@[simp] theorem mark_wakeup1 (chan : Channel) : (table.wakeup1 chan).mark = table.mark := by
  funext q
  unfold ProcTable.mark ProcTable.wakeup1 Proc.wake
  by_cases asleep : (table.proc q).state = .sleeping ∧ (table.proc q).chan = some chan
  · simp [asleep, Proc.mark]
  · simp [asleep]

@[simp] theorem mark_adopt (np : ProcPtr) : (table.adopt np cur).mark = table.mark :=
  mark_update_same (fun proc => { proc with parent := some cur }) rfl

@[simp] theorem mark_setState (state : ProcState) : (table.setState p state).mark = table.mark :=
  mark_update_same (fun proc => { proc with state := state }) rfl

@[simp] theorem nextpid_setState (state : ProcState) :
    (table.setState p state).nextpid = table.nextpid := rfl

theorem exitChild_mark (cur p : ProcPtr) (table : ProcTable) :
    (table.exitChild cur p).mark = table.mark ∧
      (table.exitChild cur p).nextpid = table.nextpid := by
  unfold ProcTable.exitChild
  split
  · dsimp only
    split
    · exact ⟨by simp, rfl⟩
    · exact ⟨by simp, rfl⟩
  · exact ⟨rfl, rfl⟩

theorem exitChildren_mark (list : List ProcPtr) :
    (list.foldl (ProcTable.exitChild cur) table).mark = table.mark ∧
      (list.foldl (ProcTable.exitChild cur) table).nextpid = table.nextpid := by
  induction list generalizing table with
  | nil => exact ⟨rfl, rfl⟩
  | cons head rest ih =>
    obtain ⟨mark_eq, nextpid_eq⟩ := exitChild_mark cur head table
    rw [List.foldl_cons]
    rw [← mark_eq, ← nextpid_eq]
    exact ih

/-- `exit` touches no pid and no `killed` flag. -/
theorem exit_mark : (table.exit cur).mark = table.mark ∧
    (table.exit cur).nextpid = table.nextpid := by
  have woken : ∃ woken : ProcTable, woken.mark = table.mark ∧ woken.nextpid = table.nextpid ∧
      table.exit cur =
        ((List.finRange NPROC).foldl (ProcTable.exitChild cur) woken).setState cur .zombie := by
    unfold ProcTable.exit
    cases (table.proc cur).parent with
    | none => exact ⟨table, rfl, rfl, rfl⟩
    | some parent => exact ⟨table.wakeup1 (.proc parent), mark_wakeup1 _, rfl, rfl⟩
  obtain ⟨woken, mark_eq, nextpid_eq, exit_eq⟩ := woken
  obtain ⟨mark_eq', nextpid_eq'⟩ := @exitChildren_mark woken cur (List.finRange NPROC)
  rw [exit_eq, mark_setState, nextpid_setState]
  exact ⟨mark_eq'.trans mark_eq, nextpid_eq'.trans nextpid_eq⟩

theorem allocproc_mark {np : ProcPtr} {next : ProcTable}
    (found : table.allocproc = some (np, next)) :
    next.mark = update table.mark np (table.nextpid, (table.proc np).killed) ∧
      next.nextpid = table.nextpid + 1 := by
  obtain ⟨p, _, both⟩ := map_eq_some_iff.mp found
  cases both
  constructor
  · exact update_mark fun proc => { proc with state := .embryo, pid := table.nextpid }
  · rfl

/-- The slot that `kill` marks has the pid, whatever its state. -/
theorem kill_mark (pid : Int) :
    (∀ p, ((table.proc p).pid : Int) ≠ pid) ∧ table.kill pid = (table, -1) ∨
    ∃ p, ((table.proc p).pid : Int) = pid ∧ (table.kill pid).2 = 0 ∧
      (table.kill pid).1.nextpid = table.nextpid ∧
      (table.kill pid).1.mark = update table.mark p ((table.proc p).pid, true) := by
  unfold ProcTable.kill
  cases found : table.killed pid with
  | none =>
    left
    refine ⟨fun p same => ?_, rfl⟩
    have passed := List.find?_eq_none.mp found p (List.mem_finRange p)
    simp [same] at passed
  | some p =>
    right
    have same := List.find?_some found
    exact ⟨p, of_decide_eq_true same, rfl, rfl, update_mark Proc.hit⟩

/-! ## The list of changes -/

/-- The record of the processes is the same. -/
structure SameRecord (system next : ProcSystem) : Prop where
  tenant : next.tenant = system.tenant
  tenants : next.tenants = system.tenants
  exited : next.exited = system.exited
  returned : next.returned = system.returned

/-- No pid is given out, and no slot gets another pid or flag. -/
structure SameMarks (system next : ProcSystem) : Prop where
  mark : next.table.mark = system.table.mark
  nextpid : next.table.nextpid = system.table.nextpid

/-- What a step may do. -/
inductive Change (system : ProcSystem) (action : ProcAction) (result : Option Int)
    (next : ProcSystem) : Prop where
  | none (kind : next.table.kind = system.table.kind) (marks : SameMarks system next)
      (same : SameRecord system next)
  | killed (p : ProcPtr) (action_eq : action = .kill (system.table.proc p).pid)
      (kind : next.table.kind = system.table.kind)
      (mark : next.table.mark =
        Function.update system.table.mark p ((system.table.proc p).pid, true))
      (nextpid : next.table.nextpid = system.table.nextpid) (same : SameRecord system next)
  | born (np : ProcPtr) (unused : system.table.kind np = .unused)
      (kind : next.table.kind = Function.update system.table.kind np .embryo)
      (mark : next.table.mark = Function.update system.table.mark np
        (system.table.nextpid, (system.table.proc np).killed))
      (nextpid : next.table.nextpid = system.table.nextpid + 1)
      (tenant : next.tenant = Function.update system.tenant np system.tenants)
      (tenants : next.tenants = system.tenants + 1) (exited : next.exited = system.exited)
      (returned : next.returned = system.returned)
  | failed (p np : ProcPtr) (action_eq : action = .forkFail p)
      (forks : system.stage p = .forking np false) (embryo : system.table.kind np = .embryo)
      (kind : next.table.kind = Function.update system.table.kind np .unused)
      (marks : SameMarks system next) (same : SameRecord system next)
  | forked (np : ProcPtr) (embryo : system.table.kind np = .embryo)
      (kind : next.table.kind = Function.update system.table.kind np .alive)
      (marks : SameMarks system next) (same : SameRecord system next)
  | exited (p : ProcPtr) (alive : system.table.kind p = .alive)
      (kind : next.table.kind = Function.update system.table.kind p .zombie)
      (marks : SameMarks system next)
      (tenant : next.tenant = system.tenant) (tenants : next.tenants = system.tenants)
      (exited : next.exited = system.exited ++ [system.tenant p])
      (returned : next.returned = system.returned)
  | reaped (p child : ProcPtr) (action_eq : action = .wait p)
      (parent : system.table.parent child = some p)
      (zombie : system.table.kind child = .zombie)
      (result_eq : result = some ((system.table.proc child).pid : Int))
      (kind : next.table.kind = Function.update system.table.kind child .unused)
      (mark : next.table.mark = Function.update system.table.mark child (0, false))
      (nextpid : next.table.nextpid = system.table.nextpid)
      (tenant : next.tenant = system.tenant) (tenants : next.tenants = system.tenants)
      (exited : next.exited = system.exited)
      (returned : next.returned = system.returned ++ [system.tenant child])

theorem Change.move (change : Proc → Proc)
    (same : (change (system.table.proc p)).state.kind = system.table.kind p)
    (mark : (change (system.table.proc p)).mark = system.table.mark p) :
    Change system action result (system.setTable (system.table.update p change)) :=
  .none (kind_update_same change same) ⟨mark_update_same change mark, rfl⟩ ⟨rfl, rfl, rfl, rfl⟩

theorem change_wait (running : system.state p = .running)
    (waited : system.wait p = (result, next)) : Change system (.wait p) result next := by
  cases found : system.table.zombieChild p with
  | some child =>
    obtain ⟨parent, zombie⟩ := zombieChild_spec found
    have both : system.table.wait p =
        (system.table.update child Proc.reaped, some ((system.table.proc child).pid : Int)) := by
      unfold ProcTable.wait
      rw [found]
    unfold ProcSystem.wait at waited
    rw [both, found] at waited
    cases waited
    refine .reaped p child rfl parent (kind_eq_zombie.mpr zombie) rfl ?_ ?_ rfl rfl rfl rfl rfl
    · exact update_kind Proc.reaped
    · exact update_mark Proc.reaped
  | none =>
    have kept : (system.table.wait p).1.kind = system.table.kind ∧
        (system.table.wait p).1.mark = system.table.mark ∧
        (system.table.wait p).1.nextpid = system.table.nextpid := by
      unfold ProcTable.wait
      rw [found]
      dsimp only
      split
      · exact ⟨rfl, rfl, rfl⟩
      · have alive := kind_of_running running
        refine ⟨kind_update_same
          (fun proc => { proc with chan := some (.proc p), state := .sleeping }) alive.symm,
          mark_update_same
          (fun proc => { proc with chan := some (.proc p), state := .sleeping }) rfl, rfl⟩
    unfold ProcSystem.wait at waited
    rw [found] at waited
    cases waited
    exact .none kept.1 ⟨kept.2.1, kept.2.2⟩ ⟨rfl, rfl, rfl, List.append_nil _⟩

theorem change_of_step (tree : Tree system) (step : system.step action = some (result, next)) :
    Change system action result next := by
  cases action with
  | schedule p =>
    simp only [ProcSystem.step, ite_none_right_eq_some, some.injEq,
      Prod.mk.injEq] at step
    obtain ⟨runnable, _, rfl⟩ := step
    have alive : system.table.kind p = .alive := congrArg ProcState.kind runnable
    exact .move _ alive.symm rfl
  | yield _ | sleep _ _ =>
    simp only [ProcSystem.step, ite_none_right_eq_some, some.injEq,
      Prod.mk.injEq] at step
    obtain ⟨running, _, rfl⟩ := step
    exact .move _ (kind_of_running running).symm rfl
  | wakeup chan =>
    simp only [ProcSystem.step, some.injEq, Prod.mk.injEq] at step
    obtain ⟨_, rfl⟩ := step
    exact .none (kind_wakeup1 chan) ⟨mark_wakeup1 chan, rfl⟩ ⟨rfl, rfl, rfl, rfl⟩
  | fork p =>
    simp only [ProcSystem.step, ite_none_right_eq_some, some.injEq] at step
    obtain ⟨_, forked⟩ := step
    unfold ProcSystem.fork at forked
    split at forked
    · cases forked
      exact .none rfl ⟨rfl, rfl⟩ ⟨rfl, rfl, rfl, rfl⟩
    · rename_i np table found
      obtain ⟨unused, _, _, kind_eq⟩ := allocproc_spec found
      obtain ⟨mark_eq, nextpid_eq⟩ := allocproc_mark found
      cases forked
      refine .born np unused ?_ mark_eq nextpid_eq rfl rfl rfl rfl
      funext q
      change table.kind q = _
      rw [kind_eq]
      by_cases here : q = np
      · subst here
        simp
      · simp [here]
  | forkFail p =>
    simp only [ProcSystem.step] at step
    split at step
    · rename_i np forks
      simp only [ite_none_right_eq_some, some.injEq, Prod.mk.injEq] at step
      obtain ⟨_, _, rfl⟩ := step
      have embryo := (tree.forking _ _ _ forks).2.1
      refine .failed p np rfl forks embryo ?_ ⟨mark_setState _, rfl⟩ ⟨rfl, rfl, rfl, rfl⟩
      exact update_kind fun proc => { proc with state := .unused }
    · cases step
  | forkAdopt p =>
    simp only [ProcSystem.step] at step
    split at step
    · rename_i np forks
      simp only [ite_none_right_eq_some, some.injEq, Prod.mk.injEq] at step
      obtain ⟨_, _, rfl⟩ := step
      exact .none (kind_adopt np) ⟨mark_adopt np, rfl⟩ ⟨rfl, rfl, rfl, rfl⟩
    · cases step
  | forkDone p =>
    simp only [ProcSystem.step] at step
    split at step
    · rename_i np forks
      simp only [ite_none_right_eq_some, some.injEq, Prod.mk.injEq] at step
      obtain ⟨_, _, rfl⟩ := step
      have embryo := (tree.forking _ _ _ forks).2.1
      refine .forked np embryo ?_ ⟨mark_setState _, rfl⟩ ⟨rfl, rfl, rfl, rfl⟩
      exact update_kind fun proc => { proc with state := .runnable }
    · cases step
  | exit p =>
    simp only [ProcSystem.step, ite_none_right_eq_some, some.injEq,
      Prod.mk.injEq] at step
    obtain ⟨⟨running, _, notInit⟩, _, rfl⟩ := step
    obtain ⟨_, kind_eq, _⟩ := exit_spec (Ne.symm notInit)
    obtain ⟨mark_eq, nextpid_eq⟩ := @exit_mark system.table p
    refine .exited p (kind_of_running running) ?_ ⟨mark_eq, nextpid_eq⟩ rfl rfl rfl rfl
    funext q
    change (system.table.exit p).kind q = _
    rw [kind_eq]
    by_cases here : q = p
    · subst here
      simp
    · simp [here]
  | wait p =>
    simp only [ProcSystem.step, ite_none_right_eq_some, some.injEq] at step
    exact change_wait step.1.1 step.2
  | kill pid =>
    simp only [ProcSystem.step, some.injEq, Prod.mk.injEq] at step
    obtain ⟨_, rfl⟩ := step
    have kind_eq := (@kill_spec system.table pid).2.1
    rcases @kill_mark system.table pid with ⟨_, unchanged⟩ | ⟨p, rfl, _, nextpid_eq, mark_eq⟩
    · rw [unchanged]
      exact .none rfl ⟨rfl, rfl⟩ ⟨rfl, rfl, rfl, rfl⟩
    · exact .killed p rfl kind_eq mark_eq nextpid_eq ⟨rfl, rfl, rfl, rfl⟩

/-! ## Runs -/

/-- The steps of the processes, whatever the calls return. -/
def Moves (system : ProcSystem) (action : ProcAction) (next : ProcSystem) : Prop :=
  ∃ result, system.step action = some (result, next)

theorem moves_of_map (step : (system.step action).map Prod.snd = some next) :
    Moves system action next := by
  obtain ⟨⟨result, after⟩, taken, rfl⟩ := map_eq_some_iff.mp step
  exact ⟨result, taken⟩

theorem booted_userinit : ProcSystem.userinit.Booted := by
  constructor <;> decide

end Processes

end Xv6
