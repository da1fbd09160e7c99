import Xv6.Semantics.Transition
import Xv6.Kernel.Boot
import Xv6.Resource.Processes

/-!
# Where a process has its credentials from

A history pairs the kernel with the credentials that each process is owed: those
its parent was owed at the `fork`, changed by its own `setuid` and `setgroups`
calls. `fork` does not copy credentials, so a new process acts under whatever its
slot holds; the two agree for as long as every `fork` happens to find a slot
whose last tenant had the credentials of the caller.
-/

namespace Xv6.Identity

open Program Resource Transition Function List Option

variable {call : Call} {result : Int}

/-- The calls that create, end and rename the identity of processes. -/
inductive Call where
  | fork (kstack copied : Bool)
  | exit
  | wait
  | exec (memory : ExecMemory) (path : Path) (argv : List Path)
  | setuid (uid : UInt32) (eax : Int)
  | setgroups (ngroups : Option Int) (rgids : Option (Nat → Option UInt32))

def Call.run : Call → Kern Int
  | fork kstack copied => Xv6.fork kstack copied
  | exit => do
      Xv6.exit
      pure 0
  | wait => Xv6.wait
  | exec memory path argv => Xv6.exec memory path argv
  | setuid uid eax => sysSetuid uid eax
  | setgroups ngroups rgids => sysSetgroups ngroups rgids

/-- The group list a successful `setgroups` leaves. -/
def groupList (ngroups : Int) (rgids : Nat → Option UInt32) (i : Fin 32) : UInt32 :=
  if (i : Nat) < ngroups.toNat then (rgids i).getD 0 else 0xffffffff

/-- What a call that returns should do to the credentials of its caller. -/
def Call.renamed : Call → Credentials → Credentials
  | setuid uid _, credentials =>
    if credentials.uid = 0 then { credentials with uid := uid, euid := uid } else credentials
  | setgroups (some ngroups) (some rgids), credentials =>
    if credentials.uid = 0 then { credentials with gids := groupList ngroups rgids }
    else credentials
  | _, credentials => credentials

/-- A kernel with what it owes each process. `dropped` marks the processes that
were forked, directly or through others, by a process whose uid was not zero. -/
structure History where
  kernel : Kernel
  owed : ProcPtr → Credentials
  dropped : ProcPtr → Bool

/-- At the start every process is owed what it has. -/
def History.start (kernel : Kernel) : History :=
  { kernel := kernel, owed := fun p => (kernel.ptable p).toCredentials, dropped := fun _ => false }

/-- Record a call of `p` that led to `next`. A process that was not alive before
is a child of the caller. -/
def History.record (history : History) (p : ProcPtr) (call : Call) (next : Kernel) : History :=
  { kernel := next
    owed := fun q =>
      if (next.ptable q).Live ∧ ¬(history.kernel.ptable q).Live then history.owed p
      else if q = p then call.renamed (history.owed p)
      else history.owed q
    dropped := fun q =>
      if (next.ptable q).Live ∧ ¬(history.kernel.ptable q).Live then
        history.dropped p || decide ((history.kernel.ptable p).uid ≠ 0)
      else history.dropped q }

/-- A live process makes a call. There is a next history if the call returns. -/
def History.exec (history : History) (label : ProcPtr × Call) : Option History :=
  if (history.kernel.ptable label.1).Live then
    match label.2.run (history.kernel.enter label.1) with
    | .ok _ next => some (history.record label.1 label.2 next)
    | .error _ _ => none
  else none

def Runs (history : History) (label : ProcPtr × Call) (after : History) : Prop :=
  history.exec label = some after

/-- Every live process has the credentials it is owed, and no descendant of an
unprivileged process has uid zero. -/
structure Faithful (history : History) : Prop where
  owed : ∀ q, (history.kernel.ptable q).Live →
    (history.kernel.ptable q).toCredentials = history.owed q
  dropped : ∀ q, (history.kernel.ptable q).Live → history.dropped q = true →
    (history.kernel.ptable q).uid ≠ 0

/-- A `fork` that creates a process finds a slot with the caller's credentials,
and `setgroups` stays within the group list. -/
def Inherits (history : History) (label : ProcPtr × Call) : Prop :=
  match label.2 with
  | .fork true true => ∀ np, firstUnused history.kernel.ptable = some np →
      (history.kernel.ptable np).toCredentials = (history.kernel.ptable label.1).toCredentials
  | .setgroups (some ngroups) _ => (history.kernel.ptable label.1).uid = 0 → ngroups ≤ 32
  | _ => True

/-! ## One step -/

theorem Runs.inversion {history after : History} {label : ProcPtr × Call}
    (runs : Runs history label after) :
    (history.kernel.ptable label.1).Live ∧ ∃ result next,
      label.2.run (history.kernel.enter label.1) = .ok result next ∧
        after = history.record label.1 label.2 next := by
  unfold Runs History.exec at runs
  split at runs
  · rename_i live
    split at runs
    · rename_i result next ran
      cases runs
      exact ⟨live, result, next, ran, rfl⟩
    · cases runs
  · cases runs

/-- What a call may do to the processes: the caller is renamed, and whoever comes
to life is a child in the slot that `fork` takes. -/
structure Effect (kernel : Kernel) (p : ProcPtr) (call : Call) (next : Kernel) : Prop where
  caller : (next.ptable p).toCredentials = call.renamed (kernel.ptable p).toCredentials
  others : ∀ q, q ≠ p → (next.ptable q).toCredentials = (kernel.ptable q).toCredentials
  born : ∀ q, (next.ptable q).Live → (kernel.ptable q).Live ∨
    (call = .fork true true ∧ firstUnused kernel.ptable = some q)

variable {kernel next : Kernel} {p : ProcPtr}

/-- A call that assigns no credentials and creates no process. -/
theorem Effect.of_kept (unnamed : call.renamed = fun credentials => credentials)
    (kept : Kept (kernel.enter p).ledger next.ledger)
    (born : ∀ q, (next.ptable q).Live → (kernel.ptable q).Live ∨
      (call = .fork true true ∧ firstUnused kernel.ptable = some q)) :
    Effect kernel p call next where
  caller := by
    rw [unnamed]
    exact kept.identity p
  others q _ := kept.identity q
  born := born

/-- Replace the group list of the entering process. -/
def regrouped (kernel : Kernel) (gids : Fin 32 → UInt32) : Kernel :=
  kernel.updateProc kernel.cur fun proc => { proc with gids := gids }

theorem writeMyproc_regrouped (gids : Fin 32 → UInt32) (i : Fin 32) (gid : UInt32) :
    (regrouped kernel gids).updateProc (regrouped kernel gids).cur
        (fun proc => { proc with gids := update proc.gids i gid }) =
      regrouped kernel (update gids i gid) := by
  simp [regrouped, Kernel.updateProc]

/-- An element of the array that can be read, and that the list has room for. -/
def Fits (rgids : Nat → Option UInt32) (i : Nat) : Prop := i < 32 ∧ (rgids i).isSome = true

/-- The first loop of `setgroups` leaves the entries it has passed as the array
has them, all of them inside of the list. -/
theorem sat_setgroupsCopy (rgids : Nat → Option UInt32) (ngroups : Nat) (gids : Fin 32 → UInt32) :
    Sat (forM (List.range ngroups) (setgroupsCopy rgids)) (regrouped kernel gids)
      (fun _ next => (∀ i < ngroups, Fits rgids i) ∧ ∃ gids', next = regrouped kernel gids' ∧
        ∀ i : Fin 32, (i : Nat) < ngroups → gids' i = (rgids i).getD 0)
      fun _ _ => ∃ i < ngroups, ¬Fits rgids i := by
  refine (Sat.forM (fun rest next => (∀ i ∈ rest, i < ngroups) ∧
    (∀ i < ngroups, i ∉ rest → Fits rgids i) ∧ ∃ gids', next = regrouped kernel gids' ∧
      ∀ i : Fin 32, (i : Nat) < ngroups → (i : Nat) ∉ rest → gids' i = (rgids i).getD 0)
    ?_ _ ⟨fun _ => mem_range.mp, fun i below absent => ?_, gids, rfl, fun i below absent => ?_⟩
    ).weaken fun _ next copied => ?_
  · rintro i rest current ⟨among, passed, gids', rfl, copied⟩
    have below := among i mem_cons_self
    unfold setgroupsCopy
    split
    · rename_i missing
      exact ⟨i, below, fun fits => by simp [Fits, missing] at fits⟩
    · rename_i gid found
      split
      · rename_i bound
        refine ⟨fun j later => among j (mem_cons_of_mem i later), fun j below absent => ?_,
          update gids' ⟨i, bound⟩ gid, writeMyproc_regrouped _ _ _, ?_⟩
        · by_cases same : j = i
          · subst same
            exact ⟨bound, by rw [found]; rfl⟩
          · exact passed j below (by simp [same, absent])
        · intro j below absent
          by_cases same : j = ⟨i, bound⟩
          · subst same
            simp [found]
          · have other : (j : Nat) ≠ i := fun equal => same (Fin.ext equal)
            rw [update_of_ne same]
            exact copied j below (by simp [other, absent])
      · rename_i beyond
        exact ⟨i, below, fun fits => beyond fits.1⟩
  · exact absurd (mem_range.mpr below) absent
  · exact absurd (mem_range.mpr below) absent
  · obtain ⟨_, passed, gids', rfl, all⟩ := copied
    exact ⟨fun i below => passed i below not_mem_nil, gids', rfl,
      fun i below => all i below not_mem_nil⟩

/-- The second loop fills the rest of the list. -/
theorem sat_setgroupsFill {fault : Fault → Kernel → Prop} (ngroups : Nat) (gids : Fin 32 → UInt32) :
    Sat (forM ((List.finRange 32).filter (ngroups ≤ ·.val)) setgroupsFill) (regrouped kernel gids)
      (fun _ next => next = regrouped kernel fun i =>
        if (i : Nat) < ngroups then gids i else 0xffffffff) fault := by
  refine (Sat.forM (fun (rest : List (Fin 32)) next => ∃ gids', next = regrouped kernel gids' ∧
    (∀ j ∈ rest, ngroups ≤ (j : Nat)) ∧ (∀ i : Fin 32, (i : Nat) < ngroups → gids' i = gids i) ∧
    ∀ i : Fin 32, ngroups ≤ (i : Nat) → i ∉ rest → gids' i = 0xffffffff)
    ?_ _ ⟨gids, rfl, ?_, fun _ _ => rfl, ?_⟩).weaken fun _ next filled => ?_
  · rintro j rest current ⟨gids', rfl, above, kept, filled⟩
    refine ⟨update gids' j 0xffffffff, writeMyproc_regrouped _ _ _, ?_, ?_, ?_⟩
    · exact fun i member => above i (mem_cons_of_mem j member)
    · intro i below
      have other : i ≠ j := by
        rintro rfl
        exact absurd (above i mem_cons_self) (Nat.not_le.mpr below)
      rw [update_of_ne other]
      exact kept i below
    · intro i beyond absent
      by_cases same : i = j
      · subst same
        exact update_self _ _ _
      · rw [update_of_ne same]
        exact filled i beyond (by simp [same, absent])
  · intro j member
    simpa using (mem_filter.mp member).2
  · intro i beyond absent
    exact absurd (mem_filter.mpr ⟨mem_finRange i, by simpa using beyond⟩) absent
  · obtain ⟨gids', rfl, _, kept, all⟩ := filled
    congr 1
    funext i
    split
    · rename_i below
      exact kept i below
    · rename_i beyond
      exact all i (Nat.not_lt.mp beyond) not_mem_nil

/-- `setgroups` by root gives the caller the list, if all elements fit. -/
theorem sat_sysSetgroups_root (root : kernel.myproc.uid = 0) (ngroups : Int)
    (rgids : Nat → Option UInt32) :
    Sat (sysSetgroups (some ngroups) (some rgids)) kernel
      (fun result next => (∀ i < ngroups.toNat, Fits rgids i) ∧ result = 0 ∧
        next = regrouped kernel (groupList ngroups rgids))
      fun _ _ => ∃ i < ngroups.toNat, ¬Fits rgids i := by
  unfold sysSetgroups
  rw [sat_bind, sat_get, sat_ite, if_neg (not_not.mpr root)]
  have same : regrouped kernel kernel.myproc.gids = kernel := by
    simp [regrouped, Kernel.updateProc, Kernel.myproc]
  have copied := @sat_setgroupsCopy kernel rgids ngroups.toNat kernel.myproc.gids
  rw [same] at copied
  refine .bind copied fun _ middle copied => ?_
  obtain ⟨fits, gids, rfl, copied⟩ := copied
  refine .bind (sat_setgroupsFill ngroups.toNat gids) fun _ next filled => ⟨fits, rfl, ?_⟩
  rw [filled]
  congr 1
  funext i
  unfold groupList
  split
  · rename_i below
    exact copied i below
  · rfl

/-- `setgroups` by root gives the caller the list; by others it does nothing. -/
theorem sat_sysSetgroups (ngroups : Option Int) (rgids : Option (Nat → Option UInt32)) :
    Sat (sysSetgroups ngroups rgids) kernel
      (fun _ next => next = kernel ∧ (Call.setgroups ngroups rgids).renamed
          kernel.myproc.toCredentials = kernel.myproc.toCredentials ∨
        ∃ gids, next = regrouped kernel gids ∧ (Call.setgroups ngroups rgids).renamed
          kernel.myproc.toCredentials = { kernel.myproc.toCredentials with gids := gids })
      fun _ _ => True := by
  by_cases root : kernel.myproc.uid = 0
  · match ngroups, rgids with
    | some ngroups, some rgids =>
      refine (sat_sysSetgroups_root root ngroups rgids).mono (fun _ next held => .inr ?_)
        fun _ _ _ => trivial
      exact ⟨_, held.2.2, if_pos root⟩
    | none, _ | some _, none =>
      unfold sysSetgroups
      rw [sat_bind, sat_get, sat_ite, if_neg (not_not.mpr root)]
      exact .inl ⟨rfl, rfl⟩
  · unfold sysSetgroups
    rw [sat_bind, sat_get, sat_ite, if_pos root]
    refine .inl ⟨rfl, ?_⟩
    match ngroups, rgids with
    | some ngroups, some rgids => exact if_neg root
    | none, _ | some _, none => rfl

/-- A rewritten caller stays alive and nobody else changes. -/
theorem Effect.of_caller (update : Proc → Proc)
    (next_eq : next = (kernel.enter p).updateProc p update)
    (state_eq : ∀ proc, (update proc).state = proc.state)
    (renamed : (update (kernel.ptable p)).toCredentials =
      call.renamed (kernel.ptable p).toCredentials) : Effect kernel p call next := by
  have self : next.ptable p = update (kernel.ptable p) := by
    simp [next_eq, Kernel.updateProc, Kernel.enter]
  have other : ∀ q, q ≠ p → next.ptable q = kernel.ptable q := by
    intro q different
    simp [next_eq, Kernel.updateProc, Kernel.enter, different]
  refine ⟨by rw [self, renamed], fun q different => by rw [other q different], fun q live => .inl ?_⟩
  by_cases same : q = p
  · subst same
    rw [self] at live
    simpa [Proc.Live, state_eq] using live
  · rw [other q same] at live
    exact live

theorem effect_setuid {uid : UInt32} {eax : Int}
    (run : (Call.setuid uid eax).run (kernel.enter p) = .ok result next) :
    Effect kernel p (.setuid uid eax) next := by
  have outcome : Sat (sysSetuid uid eax) (kernel.enter p) (fun _ next =>
      Effect kernel p (.setuid uid eax) next) fun _ _ => True := by
    unfold sysSetuid
    rw [sat_bind, sat_get, sat_ite]
    split
    · rename_i user
      exact .of_caller id (by simp [Kernel.updateProc]) (fun _ => rfl)
        (if_neg user).symm
    · rename_i root
      refine .of_caller (fun proc => { proc with uid := uid, euid := uid }) ?_
        (fun _ => rfl) (if_pos (not_not.mp root)).symm
      simp [Kernel.updateProc, Kernel.enter]
  exact outcome.ok run

theorem effect_setgroups {ngroups : Option Int} {rgids : Option (Nat → Option UInt32)}
    (run : (Call.setgroups ngroups rgids).run (kernel.enter p) = .ok result next) :
    Effect kernel p (.setgroups ngroups rgids) next := by
  rcases (sat_sysSetgroups ngroups rgids).ok run with ⟨same, renamed⟩ | ⟨gids, changed, renamed⟩
  · exact .of_caller id (by simp [same, Kernel.updateProc]) (fun _ => rfl)
      renamed.symm
  · exact .of_caller (fun proc => { proc with gids := gids }) changed
      (fun _ => rfl) renamed.symm

/-- Who is alive after a `fork`. -/
theorem live_fork {kstack copied : Bool}
    (run : (Call.fork kstack copied).run (kernel.enter p) = .ok result next) (q : ProcPtr) :
    (next.ptable q).Live ↔ (kernel.ptable q).Live ∨
      (kstack = true ∧ copied = true ∧ firstUnused kernel.ptable = some q) :=
  ((@tracks_fork true _ kstack copied _ rfl).ok run).2 q

theorem effect_of_run (live : (kernel.ptable p).Live)
    (run : call.run (kernel.enter p) = .ok result next) : Effect kernel p call next := by
  cases call with
  | fork kstack copied =>
    have spec := (@tracks_fork true _ kstack copied _ rfl).ok run
    refine .of_kept rfl spec.1 fun q liveAfter => ?_
    rcases (live_fork run q).mp liveAfter with liveBefore | ⟨rfl, rfl, first⟩
    · exact .inl liveBefore
    · exact .inr ⟨rfl, first⟩
  | exit =>
    have spec : Tracks true (Call.run .exit) (kernel.enter p).ledger fun _ after =>
        Kept (kernel.enter p).ledger after ∧ ∀ q, (after.ptable q).Live ↔
          (kernel.ptable q).Live ∧ q ≠ p :=
      Track.bind (tracks_exit (enter_idle kernel p) (.inl rfl) live) fun _ _ left => Track.pure left
    have left := (spec _ rfl).ok run
    exact .of_kept rfl left.1 fun q liveAfter => .inl ((left.2 q).mp liveAfter).1
  | wait =>
    have spec := (@tracks_wait true _ _ rfl).ok run
    exact .of_kept rfl spec.1 fun q liveAfter => .inl ((spec.2 q).mp liveAfter)
  | exec memory path argv =>
    have spec := (@tracks_exec true _ (enter_idle kernel p) (.inl rfl) memory path argv _ rfl).ok run
    refine .of_kept rfl (by rw [spec]; exact .refl _) fun q liveAfter => .inl ?_
    have table_eq : next.ptable = kernel.ptable := congrArg Ledger.ptable spec
    rw [table_eq] at liveAfter
    exact liveAfter
  | setuid uid eax => exact effect_setuid run
  | setgroups ngroups rgids => exact effect_setgroups run

/-! ## Runs -/

/-- Nobody renames himself out of an unprivileged uid. -/
theorem renamed_uid_ne_zero (call : Call) {credentials : Credentials} (user : credentials.uid ≠ 0) :
    call.renamed credentials = credentials := by
  cases call with
  | setuid uid eax => exact if_neg user
  | setgroups ngroups rgids =>
    cases ngroups with
    | none => rfl
    | some ngroups =>
      cases rgids with
      | none => rfl
      | some rgids => exact if_neg user
  | fork | exit | wait | exec => rfl

theorem faithful_start (kernel : Kernel) : Faithful (History.start kernel) :=
  ⟨fun _ _ => rfl, fun _ _ absurdity => nomatch absurdity⟩

/-- One step of a faithful history stays faithful if the children it creates have
the credentials of the caller. -/
theorem Faithful.record {history : History} (faithful : Faithful history)
    (live : (history.kernel.ptable p).Live) (effect : Effect history.kernel p call next)
    (inherits : ∀ np, call = .fork true true → firstUnused history.kernel.ptable = some np →
      (history.kernel.ptable np).toCredentials = (history.kernel.ptable p).toCredentials) :
    Faithful (history.record p call next) := by
  have child : ∀ q, (next.ptable q).Live → ¬(history.kernel.ptable q).Live →
      (next.ptable q).toCredentials = (history.kernel.ptable p).toCredentials := by
    intro q liveAfter deadBefore
    rcases effect.born q liveAfter with liveBefore | ⟨forked, first⟩
    · exact absurd liveBefore deadBefore
    · have other : q ≠ p := fun same => deadBefore (same ▸ live)
      rw [effect.others q other]
      exact inherits q forked first
  constructor
  · intro q liveAfter
    by_cases liveBefore : (history.kernel.ptable q).Live
    · by_cases same : q = p
      · subst same
        have owed_eq : (history.record q call next).owed q = call.renamed (history.owed q) := by
          simp [History.record, liveBefore]
        rw [owed_eq, ← faithful.owed q live]
        exact effect.caller
      · have owed_eq : (history.record p call next).owed q = history.owed q := by
          simp [History.record, liveBefore, same]
        rw [owed_eq, ← faithful.owed q liveBefore]
        exact effect.others q same
    · have born : (next.ptable q).Live := liveAfter
      have owed_eq : (history.record p call next).owed q = history.owed p := by
        simp [History.record, liveBefore, born]
      rw [owed_eq, ← faithful.owed p live]
      exact child q born liveBefore
  · intro q liveAfter marked
    have born : (next.ptable q).Live := liveAfter
    change (next.ptable q).uid ≠ 0
    by_cases liveBefore : (history.kernel.ptable q).Live
    · have marked' : history.dropped q = true := by
        simpa [History.record, liveBefore] using marked
      have user := faithful.dropped q liveBefore marked'
      by_cases same : q = p
      · subst same
        rw [effect.caller, renamed_uid_ne_zero call user]
        exact user
      · rw [effect.others q same]
        exact user
    · have marked' : history.dropped p = true ∨ (history.kernel.ptable p).uid ≠ 0 := by
        simpa [History.record, liveBefore, born] using marked
      rw [child q born liveBefore]
      exact marked'.elim (faithful.dropped p live) id

/-- In every run whose forks find a slot with the caller's credentials, every
live process has the credentials its parent had at the fork, changed only by its
own calls as root, and no descendant of an unprivileged process has uid zero.
The first fork that finds other credentials breaks this. -/
theorem credentials_inherited (kernel : Kernel) (labels : List (ProcPtr × Call))
    (history : History)
    (run : Steps (Guarded Runs Inherits) (History.start kernel) labels history) :
    Faithful history ∧
      ∀ p kstack copied after, Runs history (p, .fork kstack copied) after →
        (Faithful after ↔ Inherits history (p, .fork kstack copied)) := by
  have faithful : Faithful history := by
    refine run.invariant Faithful (faithful_start kernel) ?_
    rintro history ⟨p, call⟩ after faithful ⟨inherits, runs⟩
    obtain ⟨live, result, next, ran, rfl⟩ := runs.inversion
    refine faithful.record live (effect_of_run live ran) fun np forked first => ?_
    change call = _ at forked
    subst forked
    exact inherits np first
  refine ⟨faithful, ?_⟩
  intro p kstack copied after runs
  obtain ⟨live, result, next, ran, rfl⟩ := runs.inversion
  constructor
  · intro faithfulAfter
    cases kstack with
    | false => trivial
    | true =>
      cases copied with
      | false => trivial
      | true =>
        intro np first
        have deadBefore : ¬(history.kernel.ptable np).Live :=
          fun alive => alive.1 (state_firstUnused first)
        have born : (next.ptable np).Live := (live_fork ran np).mpr (.inr ⟨rfl, rfl, first⟩)
        have other : np ≠ p := fun same => deadBefore (same ▸ live)
        have owed_eq : (history.record p (.fork true true) next).owed np = history.owed p := by
          simp [History.record, deadBefore, born]
        have received := faithfulAfter.owed np born
        rw [owed_eq, ← faithful.owed p live] at received
        exact ((effect_of_run live ran).others np other).symm.trans received
  · intro inherits
    refine faithful.record live (effect_of_run live ran) fun np forked first => ?_
    cases forked
    exact inherits np first

/-- The first fork of init, which is root, finds the zeros of a fresh slot. -/
theorem credentials_inherited_first :
    ∃ history, Steps (Guarded Runs Inherits) (History.start (Kernel.boot (.image 0o755 [] [] [])))
        [(0, .fork true true)] history ∧
      (history.kernel.ptable 1).Live ∧ Faithful history := by
  have evaluated : ((History.start (Kernel.boot (.image 0o755 [] [] []))).exec
      (0, .fork true true)).any (fun history => (history.kernel.ptable 1).Live) = true := by
    decide +kernel
  obtain ⟨reached, live⟩ := (any_eq_true_iff_get _ _).mp evaluated
  have inherits : Inherits (History.start (Kernel.boot (.image 0o755 [] [] [])))
      (0, .fork true true) := by
    change ∀ np, _ → _
    decide +kernel
  have run : Steps (Guarded Runs Inherits) (History.start (Kernel.boot (.image 0o755 [] [] [])))
      ([] ++ [(0, .fork true true)]) _ := .step .refl ⟨inherits, (some_get reached).symm⟩
  exact ⟨_, run, of_decide_eq_true live, (credentials_inherited _ _ _ run).1⟩

/-- Init forks, the child gives up its privilege and forks in turn. -/
def dropAndFork : List (ProcPtr × Call) :=
  [(0, .fork true true), (1, .setuid 1000 0), (1, .fork true true)]

/-- The grandchild gets the zeros of its fresh slot: it is root again. -/
theorem grandchild_is_root :
    ∃ history, Steps Runs (History.start (Kernel.boot (.image 0o755 [] [] []))) dropAndFork history ∧
      (history.kernel.ptable 2).Live ∧ (history.kernel.ptable 2).uid = 0 ∧
      (history.owed 2).uid = 1000 ∧ history.dropped 2 = true := by
  have evaluated : (follow History.exec (fun _ _ => True)
      (History.start (Kernel.boot (.image 0o755 [] [] []))) dropAndFork).any
      (fun history => decide ((history.kernel.ptable 2).Live ∧ (history.kernel.ptable 2).uid = 0 ∧
        (history.owed 2).uid = 1000 ∧ history.dropped 2 = true)) = true := by
    decide +kernel
  obtain ⟨reached, holds⟩ := (any_eq_true_iff_get _ _).mp evaluated
  exact ⟨_, (Steps.of_follow (some_get reached).symm).unguarded, of_decide_eq_true holds⟩

end Xv6.Identity
