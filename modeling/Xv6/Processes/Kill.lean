import Xv6.Processes.Changes

/-!
# Whom `kill` hits

`kill` looks for a pid in all slots. An unused slot has pid 0, or the pid that a
failed `fork` left in it, and `allocproc` does not clear the `killed` flag, so a
flag set there is inherited by a process that nobody killed.
-/

namespace Xv6.Processes

open Transition Function Option

variable {system next : ProcSystem} {action : ProcAction} {result : Option Int}

/-! ## Pids -/

/-- A pid other than 0 is in one slot, and a used slot has one. -/
structure Pids (system : ProcSystem) : Prop where
  below : ∀ q, (system.table.mark q).1 < system.table.nextpid
  unique : ∀ q q', (system.table.mark q).1 = (system.table.mark q').1 →
    (system.table.mark q).1 ≠ 0 → q = q'
  used : ∀ q, system.table.kind q ≠ .unused → (system.table.mark q).1 ≠ 0

/-- A step that gives no new pid and takes no slot into use. -/
theorem Pids.keep (pids : Pids system) (nextpid_eq : next.table.nextpid = system.table.nextpid)
    (mark_eq : ∀ q, (next.table.mark q).1 = (system.table.mark q).1)
    (kind : ∀ q, next.table.kind q ≠ .unused → system.table.kind q ≠ .unused) : Pids next where
  below q := by
    rw [mark_eq, nextpid_eq]
    exact pids.below q
  unique q q' := by
    rw [mark_eq, mark_eq]
    exact pids.unique q q'
  used q used := by
    rw [mark_eq]
    exact pids.used q (kind q used)

/-- A slot gets a pid that is new or none at all. -/
theorem Pids.give (pids : Pids system) {p : ProcPtr} {pid : Nat} {flag : Bool} {kind : Kind}
    (mark_eq : next.table.mark = update system.table.mark p (pid, flag))
    (kind_eq : next.table.kind = update system.table.kind p kind)
    (ordered : system.table.nextpid ≤ next.table.nextpid)
    (given : system.table.nextpid ≤ pid ∧ pid ≠ 0 ∧ pid < next.table.nextpid ∨
      pid = 0 ∧ kind = .unused) : Pids next := by
  have positive : 0 < system.table.nextpid := (Nat.zero_le _).trans_lt (pids.below p)
  constructor
  · intro q
    rw [mark_eq]
    by_cases here : q = p
    · rw [here, update_self]
      change pid < _
      omega
    · rw [update_of_ne here]
      exact (pids.below q).trans_le ordered
  · intro q q' same nonzero
    rw [mark_eq] at same nonzero
    by_cases here : q = p
    · by_cases here' : q' = p
      · rw [here, here']
      · rw [here, update_self] at same nonzero
        rw [update_of_ne here'] at same
        have below := pids.below q'
        change pid = _ at same
        change pid ≠ 0 at nonzero
        omega
    · rw [update_of_ne here] at same nonzero
      by_cases here' : q' = p
      · rw [here', update_self] at same
        have below := pids.below q
        change _ = pid at same
        omega
      · rw [update_of_ne here'] at same
        exact pids.unique q q' same nonzero
  · intro q used
    rw [kind_eq] at used
    rw [mark_eq]
    by_cases here : q = p
    · rw [here, update_self] at used ⊢
      rcases given with ⟨_, nonzero, _⟩ | ⟨_, unused⟩
      · exact nonzero
      · exact absurd unused used
    · rw [update_of_ne here] at used ⊢
      exact pids.used q used

/-- A slot that was in use before the step has no new pid. -/
theorem Pids.move (pids : Pids system) {p : ProcPtr} {kind : Kind}
    (used : system.table.kind p ≠ .unused)
    (kind_eq : next.table.kind = update system.table.kind p kind)
    (marks : SameMarks system next) : Pids next := by
  apply pids.keep marks.nextpid
  · intro q
    rw [marks.mark]
  · intro q now
    rw [kind_eq] at now
    exact used_of_update used now

theorem Pids.step (pids : Pids system) (change : Change system action result next) :
    Pids next := by
  have positive : ∀ q, 0 < system.table.nextpid := fun q => (Nat.zero_le _).trans_lt (pids.below q)
  cases change with
  | none kind marks =>
    apply pids.keep marks.nextpid
    · intro q
      rw [marks.mark]
    · rw [kind]
      exact fun _ used => used
  | killed p action_eq kind mark nextpid =>
    apply pids.keep nextpid
    · intro q
      rw [mark]
      by_cases here : q = p
      · rw [here, update_self]
        rfl
      · rw [update_of_ne here]
    · rw [kind]
      exact fun _ used => used
  | born np unused kind mark nextpid =>
    have := positive np
    exact pids.give mark kind (by omega) (.inl (by omega))
  | failed p np action_eq forks embryo kind marks =>
    refine pids.move ?_ kind marks
    rw [embryo]
    nofun
  | forked np embryo kind marks =>
    refine pids.move ?_ kind marks
    rw [embryo]
    nofun
  | exited p alive kind marks =>
    refine pids.move ?_ kind marks
    rw [alive]
    nofun
  | reaped p child action_eq parent zombie result_eq kind mark nextpid =>
    exact pids.give mark kind nextpid.ge (.inr ⟨rfl, rfl⟩)

theorem pids_userinit : Pids .userinit := by
  constructor <;> decide

theorem pids_of_run {actions : List ProcAction} (run : Steps Moves .userinit actions system) :
    Pids system := by
  have both : Tree system ∧ Pids system := by
    apply run.invariant fun system => Tree system ∧ Pids system
    · exact ⟨tree_of_booted booted_userinit, pids_userinit⟩
    · rintro s a s' ⟨tree, pids⟩ ⟨result, step⟩
      exact ⟨tree.step step, pids.step (change_of_step tree step)⟩
  exact both.2

/-! ## What `kill` may do -/

/-- `kill(pid)` marks only a used slot with that pid, and returns 0 only if there
is one. -/
structure HitsTarget (table : ProcTable) (pid : Int) : Prop where
  marked : ∀ q, ((table.kill pid).1.proc q).killed = true → (table.proc q).killed = false →
    (table.proc q).state ≠ .unused ∧ ((table.proc q).pid : Int) = pid
  found : (table.kill pid).2 = 0 →
    ∃ q, (table.proc q).state ≠ .unused ∧ ((table.proc q).pid : Int) = pid

/-- `kill` keeps to its target unless an unused slot has the pid. -/
theorem hitsTarget_iff (pids : Pids system) (pid : Int) :
    HitsTarget system.table pid ↔
      ∀ q, system.state q = .unused → ((system.table.proc q).pid : Int) ≠ pid := by
  rcases @kill_mark system.table pid with ⟨absent, unchanged⟩ | ⟨p, same, zero, _, mark_eq⟩
  · constructor
    · exact fun _ q _ => absent q
    · intro _
      constructor
      · intro q marked unmarked
        rw [unchanged, unmarked] at marked
        exact nomatch marked
      · rw [unchanged]
        nofun
  · constructor
    · intro hits q unused held
      obtain ⟨r, used, held'⟩ := hits.found zero
      have used' : system.table.kind r ≠ .unused := fun kind => used (kind_eq_unused.mp kind)
      have pid_eq : (system.table.mark r).1 = (system.table.mark q).1 :=
        Int.ofNat_inj.mp (held'.trans held.symm)
      have here := pids.unique r q pid_eq (pids.used r used')
      rw [here] at used
      exact used unused
    · intro spared
      have used : (system.table.proc p).state ≠ .unused := fun unused => spared p unused same
      constructor
      · intro q marked unmarked
        have here : q = p := by
          by_contra other
          have kept : (system.table.kill pid).1.mark q = system.table.mark q := by
            rw [mark_eq, update_of_ne other]
          have flag : ((system.table.kill pid).1.proc q).killed = (system.table.proc q).killed :=
            congrArg Prod.snd kept
          rw [flag, unmarked] at marked
          exact nomatch marked
        rw [here]
        exact ⟨used, same⟩
      · exact fun _ => ⟨p, used, same⟩

/-! ## What a new process starts with -/

/-- A `kill` whose pid no unused slot has, and a `fork` that does not fail after its
new slot has been marked. -/
def Spares (system : ProcSystem) : ProcAction → Prop
  | .kill pid => ∀ q, system.state q = .unused → ((system.table.proc q).pid : Int) ≠ pid
  | .forkFail p => ∀ np, system.stage p = .forking np false → (system.table.proc np).killed = false
  | _ => True

instance (system : ProcSystem) : DecidablePred (Spares system)
  | .kill pid => inferInstanceAs
      (Decidable (∀ q, system.state q = .unused → ((system.table.proc q).pid : Int) ≠ pid))
  | .forkFail p => inferInstanceAs
      (Decidable (∀ np, system.stage p = .forking np false → (system.table.proc np).killed = false))
  | .schedule _ | .yield _ | .sleep _ _ | .wakeup _ | .fork _ | .forkAdopt _ | .forkDone _
  | .exit _ | .wait _ => isTrue trivial

/-- No unused slot is marked. -/
def Unmarked (system : ProcSystem) : Prop :=
  ∀ q, system.table.kind q = .unused → (system.table.mark q).2 = false

theorem Unmarked.step (unmarked : Unmarked system) (spares : Spares system action)
    (change : Change system action result next) : Unmarked next := by
  intro q unused
  cases change with
  | none kind marks =>
    rw [kind] at unused
    rw [marks.mark]
    exact unmarked q unused
  | killed p action_eq kind mark =>
    subst action_eq
    rw [kind] at unused
    have other : q ≠ p := by
      rintro rfl
      exact spares q (kind_eq_unused.mp unused) rfl
    rw [mark, update_of_ne other]
    exact unmarked q unused
  | born np _ kind mark =>
    rw [kind] at unused
    obtain ⟨other, before⟩ := kind_of_update unused nofun
    rw [mark, update_of_ne other]
    exact unmarked q before
  | failed p np action_eq forks embryo kind marks =>
    subst action_eq
    rw [marks.mark]
    by_cases here : q = np
    · rw [here]
      exact spares np forks
    · rw [kind, update_of_ne here] at unused
      exact unmarked q unused
  | forked np embryo kind marks =>
    rw [kind] at unused
    rw [marks.mark]
    exact unmarked q (kind_of_update unused nofun).2
  | exited p alive kind marks =>
    rw [kind] at unused
    rw [marks.mark]
    exact unmarked q (kind_of_update unused nofun).2
  | reaped p child action_eq parent zombie result_eq kind mark =>
    rw [mark]
    by_cases here : q = child
    · rw [here, update_self]
    · rw [kind, update_of_ne here] at unused
      rw [update_of_ne here]
      exact unmarked q unused

theorem unmarked_of_run {actions : List ProcAction}
    (run : Steps (Guarded Moves Spares) .userinit actions system) : Unmarked system := by
  have both : Tree system ∧ Unmarked system := by
    apply run.invariant fun system => Tree system ∧ Unmarked system
    · refine ⟨tree_of_booted booted_userinit, ?_⟩
      unfold Unmarked
      decide
    · rintro s a s' ⟨tree, unmarked⟩ ⟨spares, result, step⟩
      exact ⟨tree.step step, unmarked.step spares (change_of_step tree step)⟩
  exact both.2

/-- The new slot of a `fork` is as marked as it was while it was unused. -/
theorem fork_unmarked (unmarked : Unmarked system) {p np : ProcPtr}
    (step : system.step (.fork p) = some (result, next)) (forks : next.stage p = .forking np false) :
    (next.table.proc np).killed = false := by
  simp only [ProcSystem.step, ite_none_right_eq_some, Option.some.injEq] at step
  obtain ⟨⟨_, idle⟩, forked⟩ := step
  unfold ProcSystem.fork at forked
  split at forked
  · cases forked
    cases idle.symm.trans forks
  · rename_i np' table found
    cases forked
    change update (update system.stage np' .user) p (.forking np' false) p = _
      at forks
    rw [update_self] at forks
    cases forks
    obtain ⟨unused, _⟩ := allocproc_spec found
    have mark_eq := (allocproc_mark found).1
    have flag : (table.mark np).2 = (system.table.proc np).killed := by
      rw [mark_eq, update_self]
    exact flag.trans (unmarked np unused)

/-- In every table that can be reached, `kill` keeps to its target if and only if no
unused slot has the pid; and after a run in which every `kill` was of that kind, and
no `fork` failed with a slot that had been killed, a new process starts unmarked. -/
theorem kill_hits_target {actions : List ProcAction}
    (run : Steps Moves .userinit actions system) :
    (∀ pid, HitsTarget system.table pid ↔
      ∀ q, system.state q = .unused → ((system.table.proc q).pid : Int) ≠ pid) ∧
    (Steps (Guarded Moves Spares) .userinit actions system →
      ∀ p np result next, system.step (.fork p) = some (result, next) →
        next.stage p = .forking np false → (next.table.proc np).killed = false) := by
  constructor
  · exact hitsTarget_iff (pids_of_run run)
  · intro guarded p np result next step forks
    exact fork_unmarked (unmarked_of_run guarded) step forks

/-- Init forks a child and kills it. -/
def killedChild : List ProcAction :=
  [.schedule 0, .fork 0, .forkAdopt 0, .forkDone 0, .kill 2]

/-- The next child of init is not marked. -/
theorem kill_hits_target_killedChild : ∃ system : ProcSystem,
    Steps (Guarded Moves Spares) .userinit killedChild system ∧
      (HitsTarget system.table 2 ↔
        ∀ q, system.state q = .unused → ((system.table.proc q).pid : Int) ≠ 2) ∧
      ∀ result next, system.step (.fork 0) = some (result, next) →
        next.stage 0 = .forking 2 false → (next.table.proc 2).killed = false := by
  have evaluated : (follow (fun (system : ProcSystem) action => (system.step action).map Prod.snd)
      Spares .userinit killedChild).isSome = true := by
    decide +kernel
  have followed := Steps.of_follow (some_get evaluated).symm
  have run : Steps (Guarded Moves Spares) .userinit killedChild _ :=
    followed.mono fun ⟨spares, step⟩ => ⟨spares, moves_of_map step⟩
  have holds := kill_hits_target run.unguarded
  exact ⟨_, run, holds.1 2, holds.2 run 0 2⟩

/-- `kill(0)` finds an unused slot: it returns 0 without a process of that pid, and
the next process that `fork` makes there is marked. -/
theorem kill_marks_unused :
    (∃ system, Steps Moves .userinit [.schedule 0] system ∧ ¬ HitsTarget system.table 0) ∧
      ∃ system : ProcSystem, Steps Moves .userinit
        [.schedule 0, .kill 0, .fork 0, .forkAdopt 0, .forkDone 0] system ∧
          system.state 1 = .runnable ∧ (system.table.proc 1).killed = true := by
  constructor
  · have step : Moves .userinit (.schedule 0) _ := ⟨none, rfl⟩
    refine ⟨_, .step .refl step, fun hits => ?_⟩
    obtain ⟨q, used, zero⟩ := hits.found (by decide +kernel)
    revert q
    decide +kernel
  · have evaluated : (follow
        (fun (system : ProcSystem) action => (system.step action).map Prod.snd) (fun _ _ => True)
        .userinit [.schedule 0, .kill 0, .fork 0, .forkAdopt 0, .forkDone 0]).any
          (fun system => system.state 1 = .runnable ∧ (system.table.proc 1).killed = true) =
        true := by
      decide +kernel
    obtain ⟨reached, marked⟩ := (any_eq_true_iff_get _ _).mp evaluated
    have followed := (Steps.of_follow (some_get reached).symm).unguarded
    exact ⟨_, followed.mono moves_of_map, of_decide_eq_true marked⟩

end Xv6.Processes
