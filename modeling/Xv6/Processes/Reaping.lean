import Xv6.Processes.Changes

/-!
# Every exited process is waited for once

A tenant of a slot that has exited stays there as a zombie until its parent's
`wait` returns it, and then the slot is free. Since tenants are counted, this says
of each of them that it is returned once at most and never lost.
-/

namespace Xv6.Processes

open Transition Function List

variable {system next : ProcSystem} {action : ProcAction} {result : Option Int}

/-! ## The invariant -/

/-- The record agrees with the table: the tenants that exited are those that were
returned and those that are zombies. -/
structure Reaping (system : ProcSystem) : Prop where
  counted : ∀ q, system.table.kind q ≠ .unused → system.tenant q < system.tenants
  unique : ∀ q q', system.table.kind q ≠ .unused → system.table.kind q' ≠ .unused →
    system.tenant q' = system.tenant q → q' = q
  exitedCounted : ∀ tenant ∈ system.exited, tenant < system.tenants
  exitedOnce : system.exited.Nodup
  returnedOnce : system.returned.Nodup
  exited_iff : ∀ tenant, tenant ∈ system.exited ↔ tenant ∈ system.returned ∨
    ∃ q, system.table.kind q = .zombie ∧ system.tenant q = tenant
  present : ∀ q, system.table.kind q ≠ .unused → system.tenant q ∉ system.returned

section

variable (reaping : Reaping system)

include reaping

/-- A step that changes no record, takes no slot into use and makes no zombie. -/
theorem Reaping.keep (used : ∀ q, next.table.kind q ≠ .unused → system.table.kind q ≠ .unused)
    (zombie : ∀ q, next.table.kind q = .zombie ↔ system.table.kind q = .zombie)
    (same : SameRecord system next) : Reaping next := by
  constructor
  · intro q now
    rw [same.tenant, same.tenants]
    exact reaping.counted q (used q now)
  · intro q q' now now' tenant_eq
    rw [same.tenant] at tenant_eq
    exact reaping.unique q q' (used q now) (used q' now') tenant_eq
  · rw [same.exited, same.tenants]
    exact reaping.exitedCounted
  · rw [same.exited]
    exact reaping.exitedOnce
  · rw [same.returned]
    exact reaping.returnedOnce
  · intro tenant
    simp only [same.exited, same.returned, same.tenant, zombie]
    exact reaping.exited_iff tenant
  · intro q now
    rw [same.tenant, same.returned]
    exact reaping.present q (used q now)

theorem Reaping.congr (kind_eq : next.table.kind = system.table.kind)
    (same : SameRecord system next) : Reaping next := by
  apply reaping.keep _ _ same
  · rw [kind_eq]
    exact fun _ used => used
  · simp [kind_eq]

theorem Reaping.returned_lt {tenant : Nat} (returned : tenant ∈ system.returned) :
    tenant < system.tenants :=
  reaping.exitedCounted tenant ((reaping.exited_iff tenant).mpr (.inl returned))

/-- A new tenant is none of those before it. -/
theorem Reaping.born {np : ProcPtr} (unused : system.table.kind np = .unused)
    (kind_eq : next.table.kind = update system.table.kind np .embryo)
    (tenant_eq : next.tenant = update system.tenant np system.tenants)
    (tenants_eq : next.tenants = system.tenants + 1) (exited_eq : next.exited = system.exited)
    (returned_eq : next.returned = system.returned) : Reaping next where
  counted q used := by
    rw [kind_eq] at used
    rw [tenant_eq, tenants_eq]
    by_cases here : q = np
    · simp [here]
    · rw [update_of_ne here] at used ⊢
      exact (reaping.counted q used).trans (Nat.lt_succ_self _)
  unique q q' used used' same := by
    rw [kind_eq] at used used'
    rw [tenant_eq] at same
    by_cases here : q = np
    · by_cases here' : q' = np
      · rw [here, here']
      · rw [update_of_ne here'] at used' same
        rw [here, update_self] at same
        exact absurd same (reaping.counted q' used').ne
    · rw [update_of_ne here] at used same
      by_cases here' : q' = np
      · rw [here', update_self] at same
        exact absurd same.symm (reaping.counted q used).ne
      · rw [update_of_ne here'] at used' same
        exact reaping.unique q q' used used' same
  exitedCounted tenant exited := by
    rw [exited_eq] at exited
    rw [tenants_eq]
    exact (reaping.exitedCounted tenant exited).trans (Nat.lt_succ_self _)
  exitedOnce := by
    rw [exited_eq]
    exact reaping.exitedOnce
  returnedOnce := by
    rw [returned_eq]
    exact reaping.returnedOnce
  exited_iff tenant := by
    rw [exited_eq, returned_eq, reaping.exited_iff]
    apply or_congr_right
    apply exists_congr
    intro q
    rw [kind_eq, tenant_eq]
    by_cases here : q = np
    · simp [here, unused]
    · rw [update_of_ne here, update_of_ne here]
  present q used := by
    rw [kind_eq] at used
    rw [tenant_eq, returned_eq]
    by_cases here : q = np
    · rw [here, update_self]
      intro returned
      exact Nat.lt_irrefl _ (reaping.returned_lt returned)
    · rw [update_of_ne here] at used ⊢
      exact reaping.present q used

/-- The end of a `fork` changes no record. -/
theorem Reaping.forked {np : ProcPtr} {kind' : Kind} (notZombie : kind' ≠ .zombie)
    (embryo : system.table.kind np = .embryo)
    (kind_eq : next.table.kind = update system.table.kind np kind')
    (same : SameRecord system next) : Reaping next := by
  apply reaping.keep _ _ same
  · intro q used
    rw [kind_eq] at used
    refine used_of_update ?_ used
    rw [embryo]
    nofun
  · intro q
    rw [kind_eq]
    constructor
    · exact fun zombie => (kind_of_update zombie notZombie).2
    · exact fun zombie => update_kind_of_differ embryo zombie nofun _

/-- A process that exits has not exited before: it is neither returned nor a zombie. -/
theorem Reaping.exit {p : ProcPtr} (alive : system.table.kind p = .alive)
    (kind_eq : next.table.kind = update system.table.kind p .zombie)
    (tenant_eq : next.tenant = system.tenant) (tenants_eq : next.tenants = system.tenants)
    (exited_eq : next.exited = system.exited ++ [system.tenant p])
    (returned_eq : next.returned = system.returned) : Reaping next := by
  have here : system.table.kind p ≠ .unused := by
    rw [alive]
    nofun
  have used : ∀ q, next.table.kind q ≠ .unused → system.table.kind q ≠ .unused := by
    intro q used
    rw [kind_eq] at used
    exact used_of_update here used
  have fresh : system.tenant p ∉ system.exited := by
    intro exited
    rcases (reaping.exited_iff _).mp exited with returned | ⟨q, zombie, same⟩
    · exact reaping.present p here returned
    · have used' : system.table.kind q ≠ .unused := by
        rw [zombie]
        nofun
      have self := reaping.unique p q here used' same
      rw [self, alive] at zombie
      exact nomatch zombie
  constructor
  · intro q now
    rw [tenant_eq, tenants_eq]
    exact reaping.counted q (used q now)
  · intro q q' now now' same
    rw [tenant_eq] at same
    exact reaping.unique q q' (used q now) (used q' now') same
  · intro tenant exited
    rw [exited_eq, mem_append, mem_singleton] at exited
    rw [tenants_eq]
    rcases exited with exited | rfl
    · exact reaping.exitedCounted tenant exited
    · exact reaping.counted p here
  · rw [exited_eq]
    exact reaping.exitedOnce.append (nodup_singleton _) (by simpa using fresh)
  · rw [returned_eq]
    exact reaping.returnedOnce
  · intro tenant
    rw [exited_eq, mem_append, mem_singleton, reaping.exited_iff, returned_eq, or_assoc]
    apply or_congr_right
    rw [kind_eq, tenant_eq]
    constructor
    · rintro (⟨q, zombie, same⟩ | rfl)
      · exact ⟨q, update_kind_of_differ alive zombie nofun _, same⟩
      · exact ⟨p, update_self .., rfl⟩
    · rintro ⟨q, zombie, same⟩
      by_cases self : q = p
      · exact .inr (by rw [← same, self])
      · rw [update_of_ne self] at zombie
        exact .inl ⟨q, zombie, same⟩
  · intro q now
    rw [tenant_eq, returned_eq]
    exact reaping.present q (used q now)

/-- A child that `wait` returns was a zombie, so it exited and was not returned before. -/
theorem Reaping.reap {child : ProcPtr} (zombie : system.table.kind child = .zombie)
    (kind_eq : next.table.kind = update system.table.kind child .unused)
    (tenant_eq : next.tenant = system.tenant) (tenants_eq : next.tenants = system.tenants)
    (exited_eq : next.exited = system.exited)
    (returned_eq : next.returned = system.returned ++ [system.tenant child]) : Reaping next := by
  have here : system.table.kind child ≠ .unused := by
    rw [zombie]
    nofun
  have used : ∀ q, next.table.kind q ≠ .unused → q ≠ child ∧ system.table.kind q ≠ .unused := by
    intro q used
    rw [kind_eq] at used
    have other : q ≠ child := by
      rintro rfl
      exact used (update_self ..)
    rw [update_of_ne other] at used
    exact ⟨other, used⟩
  constructor
  · intro q now
    rw [tenant_eq, tenants_eq]
    exact reaping.counted q (used q now).2
  · intro q q' now now' same
    rw [tenant_eq] at same
    exact reaping.unique q q' (used q now).2 (used q' now').2 same
  · rw [exited_eq, tenants_eq]
    exact reaping.exitedCounted
  · rw [exited_eq]
    exact reaping.exitedOnce
  · rw [returned_eq]
    exact reaping.returnedOnce.append (nodup_singleton _)
      (by simpa using reaping.present child here)
  · intro tenant
    rw [exited_eq, returned_eq, mem_append, mem_singleton, reaping.exited_iff, or_assoc]
    apply or_congr_right
    rw [kind_eq, tenant_eq]
    constructor
    · rintro ⟨q, zombie', same⟩
      by_cases self : q = child
      · exact .inl (by rw [← same, self])
      · exact .inr ⟨q, by rwa [update_of_ne self], same⟩
    · rintro (rfl | ⟨q, zombie', same⟩)
      · exact ⟨child, zombie, rfl⟩
      · exact ⟨q, (kind_of_update zombie' nofun).2, same⟩
  · intro q now
    rw [tenant_eq, returned_eq, mem_append, mem_singleton]
    rintro (returned | same)
    · exact reaping.present q (used q now).2 returned
    · exact (used q now).1 (reaping.unique child q here (used q now).2 same)

end

theorem Reaping.step (reaping : Reaping system) (change : Change system action result next) :
    Reaping next := by
  cases change with
  | none kind _ same => exact reaping.congr kind same
  | killed p _ kind _ _ same => exact reaping.congr kind same
  | born np unused kind _ _ tenant tenants exited returned =>
    exact reaping.born unused kind tenant tenants exited returned
  | failed p np _ _ embryo kind _ same =>
    refine reaping.forked ?_ embryo kind same
    nofun
  | forked np embryo kind _ same =>
    refine reaping.forked ?_ embryo kind same
    nofun
  | exited p alive kind _ tenant tenants exited returned =>
    exact reaping.exit alive kind tenant tenants exited returned
  | reaped p child _ _ zombie _ kind _ _ tenant tenants exited returned =>
    exact reaping.reap zombie kind tenant tenants exited returned

theorem reaping_of_booted (booted : system.Booted) : Reaping system := by
  have only : ∀ q, system.table.kind q ≠ .unused → q = system.table.initproc := by
    intro q used
    by_contra other
    exact used (congrArg ProcState.kind (booted.unused q other))
  constructor
  · intro q used
    rw [only q used]
    exact booted.tenant
  · intro q q' used used' _
    rw [only q used, only q' used']
  · rw [booted.exited]
    nofun
  · rw [booted.exited]
    exact nodup_nil
  · rw [booted.returned]
    exact nodup_nil
  · intro tenant
    rw [booted.exited, booted.returned]
    constructor
    · nofun
    · rintro (returned | ⟨q, zombie, _⟩)
      · exact nomatch returned
      · have used : system.table.kind q ≠ .unused := by
          rw [zombie]
          nofun
        have alive : system.table.kind q = .alive := by
          rw [only q used]
          exact congrArg ProcState.kind booted.init
        exact nomatch alive.symm.trans zombie
  · rw [booted.returned]
    nofun

/-! ## Runs -/

/-- Both invariants along a run. -/
theorem tree_reaping_of_run {start : ProcSystem} {actions : List ProcAction}
    (booted : start.Booted) (run : Steps Moves start actions system) :
    Tree system ∧ Reaping system := by
  apply run.invariant fun system => Tree system ∧ Reaping system
  · exact ⟨tree_of_booted booted, reaping_of_booted booted⟩
  · rintro s a s' ⟨tree, reaping⟩ ⟨result, step⟩
    exact ⟨tree.step step, reaping.step (change_of_step tree step)⟩

/-- A zombie stays one until its parent's `wait` returns it. -/
theorem Change.zombie (change : Change system action result next) {q : ProcPtr}
    (zombie : system.table.kind q = .zombie) :
    next.table.kind q = .zombie ∨ ∃ p, action = .wait p ∧ system.table.parent q = some p ∧
      result = some ((system.table.proc q).pid : Int) ∧ next.table.kind q = .unused ∧
      next.returned = system.returned ++ [system.tenant q] := by
  cases change with
  | none kind =>
    left
    rw [kind, zombie]
  | killed p action_eq kind =>
    left
    rw [kind, zombie]
  | born np unused kind =>
    left
    rw [kind]
    exact update_kind_of_differ unused zombie nofun _
  | failed p np action_eq forks embryo kind =>
    left
    rw [kind]
    exact update_kind_of_differ embryo zombie nofun _
  | forked np embryo kind =>
    left
    rw [kind]
    exact update_kind_of_differ embryo zombie nofun _
  | exited p alive kind =>
    left
    rw [kind]
    exact update_kind_of_differ alive zombie nofun _
  | reaped p child action_eq parent zombie' result_eq kind _ _ tenant tenants exited returned =>
    by_cases here : q = child
    · subst here
      right
      refine ⟨p, action_eq, parent, result_eq, ?_, returned⟩
      rw [kind, update_self]
    · left
      rw [kind, update_of_ne here, zombie]

/-- What a turn of `wait` returns: a zombie child if there is one, and otherwise -1
only without children or when killed. -/
theorem wait_result (table : ProcTable) (p : ProcPtr) :
    (∃ child, (table.proc child).parent = some p ∧ (table.proc child).state = .zombie ∧
      (table.wait p).2 = some ((table.proc child).pid : Int)) ∨
    (∀ q, (table.proc q).parent = some p → (table.proc q).state ≠ .zombie) ∧
      ((table.wait p).2 = some (-1) →
        (∀ q, (table.proc q).parent ≠ some p) ∨ (table.proc p).killed = true) := by
  cases found : table.zombieChild p with
  | some child =>
    left
    obtain ⟨parent, zombie⟩ := zombieChild_spec found
    refine ⟨child, parent, zombie, ?_⟩
    unfold ProcTable.wait
    rw [found]
  | none =>
    right
    constructor
    · intro q parent zombie
      have passed := List.find?_eq_none.mp found q (mem_finRange q)
      simp [parent, zombie] at passed
    · intro result_eq
      unfold ProcTable.wait at result_eq
      rw [found] at result_eq
      by_contra neither
      rw [if_neg neither] at result_eq
      exact nomatch result_eq

/-- The process tree and the reaping of zombies, in every interleaving. -/
theorem process_tree {start : ProcSystem} {actions : List ProcAction}
    (booted : start.Booted) (run : Steps Moves start actions system) :
    (∀ q, q ≠ system.table.initproc →
      system.state q ∈ [.sleeping, .runnable, .running, .zombie] →
      ∃ r, system.parent q = some r ∧ system.state r ≠ .unused ∧ system.state r ≠ .zombie) ∧
    (system.exited.Nodup ∧ system.returned.Nodup ∧ system.returned ⊆ system.exited ∧
      ∀ tenant ∈ system.exited, tenant ∉ system.returned ↔
        ∃ q, system.state q = .zombie ∧ system.tenant q = tenant) ∧
    ∀ action result next, system.step action = some (result, next) →
      (∀ q, system.state q = .zombie → next.state q = .zombie ∨
        ∃ p, action = .wait p ∧ system.parent q = some p ∧
          result = some ((system.table.proc q).pid : Int) ∧ next.state q = .unused ∧
          next.returned = system.returned ++ [system.tenant q]) ∧
      ∀ p, action = .wait p →
        (∀ q, system.parent q = some p → system.state q = .zombie →
          ∃ child, system.parent child = some p ∧ system.state child = .zombie ∧
            result = some ((system.table.proc child).pid : Int)) ∧
        (result = some (-1) →
          (∀ q, system.parent q ≠ some p) ∨ (system.table.proc p).killed = true) := by
  obtain ⟨tree, reaping⟩ := tree_reaping_of_run booted run
  refine ⟨?_, ⟨reaping.exitedOnce, reaping.returnedOnce, ?_, ?_⟩, ?_⟩
  · intro q other live
    have kinds : system.table.kind q = .alive ∨ system.table.kind q = .zombie := by
      change (system.state q).kind = .alive ∨ (system.state q).kind = .zombie
      generalize system.state q = state at live ⊢
      cases state <;> simp_all [ProcState.kind]
    obtain ⟨r, parent, alive⟩ := tree.parent q other kinds
    refine ⟨r, parent, ?_, ?_⟩
    · intro unused
      cases alive.symm.trans (congrArg ProcState.kind unused)
    · intro zombie
      cases alive.symm.trans (congrArg ProcState.kind zombie)
  · intro tenant returned
    exact (reaping.exited_iff tenant).mpr (.inl returned)
  · intro tenant exited
    constructor
    · intro waiting
      obtain ⟨q, zombie, same⟩ := ((reaping.exited_iff tenant).mp exited).resolve_left waiting
      exact ⟨q, kind_eq_zombie.mp zombie, same⟩
    · rintro ⟨q, zombie, rfl⟩
      apply reaping.present q
      rw [show system.table.kind q = .zombie from kind_eq_zombie.mpr zombie]
      rintro ⟨⟩
  · intro action result next step
    constructor
    · intro q zombie
      rcases (change_of_step tree step).zombie (kind_eq_zombie.mpr zombie) with
        stays | ⟨p, action_eq, parent, result_eq, unused, returned⟩
      · exact .inl (kind_eq_zombie.mp stays)
      · exact .inr ⟨p, action_eq, parent, result_eq, kind_eq_unused.mp unused, returned⟩
    · rintro p rfl
      simp only [ProcSystem.step, Option.ite_none_right_eq_some, Option.some.injEq] at step
      have result_eq : result = (system.table.wait p).2 := congrArg Prod.fst step.2.symm
      rw [result_eq]
      rcases wait_result system.table p with ⟨child, parent, zombie, returned⟩ | ⟨none, minus⟩
      · constructor
        · intro _ _ _
          exact ⟨child, parent, zombie, returned⟩
        · intro minus
          rw [returned, Option.some.injEq] at minus
          omega
      · constructor
        · intro q parent zombie
          exact absurd zombie (none q parent)
        · exact minus

/-- Init forks a child, which exits, and waits for it. -/
def oneChild : List ProcAction :=
  [.schedule 0, .fork 0, .forkAdopt 0, .forkDone 0, .wait 0, .schedule 1, .exit 1, .schedule 0,
    .wait 0]

theorem process_tree_oneChild : ∃ system : ProcSystem,
    Steps Moves .userinit oneChild system ∧ system.returned = [1] ∧
      system.returned ⊆ system.exited := by
  have evaluated : (follow (fun (system : ProcSystem) action => (system.step action).map Prod.snd)
      (fun _ _ => True) .userinit oneChild).any (fun system => system.returned = [1]) = true := by
    decide +kernel
  obtain ⟨reached, returned⟩ := (Option.any_eq_true_iff_get _ _).mp evaluated
  have guarded := Steps.of_follow (Option.some_get reached).symm
  have run : Steps Moves .userinit oneChild _ := guarded.unguarded.mono moves_of_map
  exact ⟨_, run, of_decide_eq_true returned, (process_tree booted_userinit run).2.1.2.2.1⟩

end Xv6.Processes
