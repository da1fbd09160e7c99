import Xv6.Semantics.Transition
import Xv6.Std.Counting
import Xv6.Kernel.Param

/-!
# Admission to the log

`begin_op`, `log_write` and `end_op` of `log.c`, run by any number of processes
in any order. A step is what one process does while it holds `log.lock`;
`log_write` makes two steps, since it tests for room before it takes the lock.

The log admits an operation against `LOGSIZE`, but `mkfs` makes the whole log
`LOGSIZE` blocks long, header included, so `log_write` stops one block earlier
than `begin_op` counts. `room_suffices` says how many blocks a group commit may
hold, and `nine_suffice` that one block less per operation keeps it there.
-/

namespace Xv6.Log

open Transition Counting Function List Option Finset

/-- Where a process stands. `own` are the block numbers its operation has
logged; `tested` is between the test and the critical section of `log_write`. -/
inductive Phase where
  | idle
  | active (own : Finset Nat)
  | tested (own : Finset Nat) (block : Nat)
  | committing
  | erased
deriving DecidableEq

/-- The blocks the operation in progress has logged. -/
def Phase.own : Phase → Finset Nat
  | .active own => own
  | .tested own _ => own
  | _ => ∅

/-- The shared log state. `blocks` is `log.lh.block[0 .. log.lh.n)`. `logged` is
kept for the specification only: the distinct blocks that the operations of the
current group commit have given to `log_write`. -/
structure Group (Process : Type) where
  outstanding : Nat
  committing : Bool
  blocks : List Nat
  phase : Process → Phase
  logged : Finset Nat
  panicked : Bool

/-- What one process does next. -/
inductive Action (Process : Type) where
  | beginOp (process : Process)
  | testWrite (process : Process) (block : Nat)
  | appendWrite (process : Process)
  | endOp (process : Process)
  | eraseHead (process : Process)
  | endCommit (process : Process)

/-- Log absorption: a block already listed keeps its slot. -/
def absorb (blocks : List Nat) (block : Nat) : List Nat :=
  if block ∈ blocks then blocks else blocks ++ [block]

variable {Process : Type}

section Protocol

variable [DecidableEq Process]

def Group.setPhase (group : Group Process) (process : Process) (phase : Phase) : Group Process :=
  { group with phase := Function.update group.phase process phase }

/-- The room test of `log_write`, made without the lock. -/
def Group.full (size : Nat) (group : Group Process) : Bool :=
  decide (LOGSIZE ≤ group.blocks.length ∨ size ≤ group.blocks.length + 1)

/-- One step with `log.size = size`. `none` is a process that has to sleep, or
that is not at this point of its operation. -/
def Group.exec (size : Nat) (group : Group Process) : Action Process → Option (Group Process)
  | .beginOp process =>
    if group.panicked ∨ group.phase process ≠ .idle then none
    else if group.committing then none
    else if LOGSIZE < group.blocks.length + (group.outstanding + 1) * MAXOPBLOCKS then none
    else some ({ group with outstanding := group.outstanding + 1 }.setPhase process (.active ∅))
  | .testWrite process block =>
    if group.panicked then none
    else match group.phase process with
      | .active own =>
        if group.full size ∨ group.outstanding < 1 then some { group with panicked := true }
        else some (group.setPhase process (.tested own block))
      | _ => none
  | .appendWrite process =>
    if group.panicked then none
    else match group.phase process with
      | .tested own block =>
        some ({ group with
          blocks := absorb group.blocks block
          logged := insert block group.logged }.setPhase process (.active (insert block own)))
      | _ => none
  | .endOp process =>
    if group.panicked then none
    else match group.phase process with
      | .active _ =>
        if group.committing then some { group with panicked := true }
        else if group.outstanding - 1 = 0 then
          some ({ group with outstanding := 0, committing := true }.setPhase process .committing)
        else
          some ({ group with outstanding := group.outstanding - 1 }.setPhase process .idle)
      | _ => none
  | .eraseHead process =>
    if group.panicked then none
    else match group.phase process with
      | .committing => some ({ group with blocks := [], logged := ∅ }.setPhase process .erased)
      | _ => none
  | .endCommit process =>
    if group.panicked then none
    else match group.phase process with
      | .erased => some ({ group with committing := false }.setPhase process .idle)
      | _ => none

def Group.Step (size : Nat) (group : Group Process) (action : Action Process)
    (next : Group Process) : Prop :=
  group.exec size action = some next

end Protocol

/-- The log after `initlog` has recovered. -/
def Group.empty : Group Process where
  outstanding := 0
  committing := false
  blocks := []
  phase := fun _ => .idle
  logged := ∅
  panicked := false

/-- Every operation logs at most `quota` distinct blocks. -/
def Quota (quota : Nat) (group : Group Process) : Action Process → Prop
  | .testWrite process block => (insert block (group.phase process).own).card ≤ quota
  | _ => True

instance (quota : Nat) (group : Group Process) (action : Action Process) :
    Decidable (Quota quota group action) := by
  cases action <;> unfold Quota <;> infer_instance

/-- The group commit has logged fewer than `capacity` distinct blocks whenever
`log_write` tests for room or appends. -/
def Room (capacity : Nat) (group : Group Process) : Action Process → Prop
  | .testWrite _ _ => group.logged.card < capacity
  | .appendWrite _ => group.logged.card < capacity
  | _ => True

/-! ## What a step does -/

/-- Every step with its guard and its effect. -/
inductive Group.Effect [DecidableEq Process] (size : Nat) (group : Group Process) :
    Action Process → Group Process → Prop where
  | beginOp {process} (idle : group.phase process = .idle) (quiet : group.committing = false)
      (admitted : group.blocks.length + (group.outstanding + 1) * MAXOPBLOCKS ≤ LOGSIZE) :
      Effect size group (.beginOp process)
        ({ group with outstanding := group.outstanding + 1 }.setPhase process (.active ∅))
  | testFull {process block own} (working : group.phase process = .active own)
      (full : group.full size ∨ group.outstanding < 1) :
      Effect size group (.testWrite process block) { group with panicked := true }
  | testWrite {process block own} (working : group.phase process = .active own) :
      Effect size group (.testWrite process block) (group.setPhase process (.tested own block))
  | appendWrite {process block own} (working : group.phase process = .tested own block) :
      Effect size group (.appendWrite process) ({ group with
        blocks := absorb group.blocks block
        logged := insert block group.logged }.setPhase process (.active (insert block own)))
  | endBusy {process own} (working : group.phase process = .active own)
      (busy : group.committing = true) :
      Effect size group (.endOp process) { group with panicked := true }
  | endLast {process own} (working : group.phase process = .active own)
      (last : group.outstanding - 1 = 0) :
      Effect size group (.endOp process)
        ({ group with outstanding := 0, committing := true }.setPhase process .committing)
  | endMore {process own} (working : group.phase process = .active own)
      (more : group.outstanding - 1 ≠ 0) :
      Effect size group (.endOp process)
        ({ group with outstanding := group.outstanding - 1 }.setPhase process .idle)
  | eraseHead {process} (phase : group.phase process = .committing) :
      Effect size group (.eraseHead process)
        ({ group with blocks := [], logged := ∅ }.setPhase process .erased)
  | endCommit {process} (phase : group.phase process = .erased) :
      Effect size group (.endCommit process)
        ({ group with committing := false }.setPhase process .idle)

/-- A step starts before any panic and has one of the listed effects. -/
theorem Group.Step.effect [DecidableEq Process] {size : Nat} {group next : Group Process}
    {action : Action Process} (step : group.Step size action next) :
    group.panicked = false ∧ group.Effect size action next := by
  unfold Group.Step at step
  cases action with
  | beginOp process =>
    simp only [Group.exec] at step
    split at step
    · cases step
    · rename_i ready
      simp only [not_or, not_not, Bool.not_eq_true] at ready
      split at step
      · cases step
      · rename_i quiet
        split at step
        · cases step
        · cases step
          exact ⟨ready.1, .beginOp ready.2 (by simpa using quiet) (by omega)⟩
  | testWrite process block =>
    simp only [Group.exec] at step
    split at step
    · cases step
    · rename_i calm
      refine ⟨by simpa using calm, ?_⟩
      split at step
      · rename_i own working
        split at step
        · rename_i full
          cases step
          exact .testFull working full
        · cases step
          exact .testWrite working
      · cases step
  | appendWrite process =>
    simp only [Group.exec] at step
    split at step
    · cases step
    · rename_i calm
      refine ⟨by simpa using calm, ?_⟩
      split at step
      · rename_i own block working
        cases step
        exact .appendWrite working
      · cases step
  | endOp process =>
    simp only [Group.exec] at step
    split at step
    · cases step
    · rename_i calm
      refine ⟨by simpa using calm, ?_⟩
      split at step
      · rename_i own working
        split at step
        · rename_i busy
          cases step
          exact .endBusy working busy
        · split at step
          · rename_i last
            cases step
            exact .endLast working last
          · rename_i more
            cases step
            exact .endMore working more
      · cases step
  | eraseHead process =>
    simp only [Group.exec] at step
    split at step
    · cases step
    · rename_i calm
      refine ⟨by simpa using calm, ?_⟩
      split at step
      · rename_i phase
        cases step
        exact .eraseHead phase
      · cases step
  | endCommit process =>
    simp only [Group.exec] at step
    split at step
    · cases step
    · rename_i calm
      refine ⟨by simpa using calm, ?_⟩
      split at step
      · rename_i phase
        cases step
        exact .endCommit phase
      · cases step

/-! ## The invariant of every run -/

/-- One for a process with an operation in progress. -/
def Phase.weight : Phase → Nat
  | .active _ => 1
  | .tested _ _ => 1
  | _ => 0

/-- The process is running `commit`. -/
def Phase.commits : Phase → Prop
  | .committing => True
  | .erased => True
  | _ => False

theorem nodup_absorb {blocks : List Nat} (distinct : blocks.Nodup) (block : Nat) :
    (absorb blocks block).Nodup := by
  unfold absorb
  split
  · exact distinct
  · rename_i fresh
    simpa using distinct.concat fresh

theorem length_absorb_le (blocks : List Nat) (block : Nat) :
    (absorb blocks block).length ≤ blocks.length + 1 := by
  unfold absorb
  split <;> simp

theorem toFinset_absorb (blocks : List Nat) (block : Nat) :
    (absorb blocks block).toFinset = insert block blocks.toFinset := by
  unfold absorb
  split
  · rename_i member
    rw [insert_eq_of_mem (mem_toFinset.mpr member)]
  · ext other
    simp

/-- What the phase of one process says about the shared state. -/
structure Group.Fits (group : Group Process) (phase : Phase) : Prop where
  own_logged : phase.own ⊆ group.logged
  committer : phase.commits → group.committing = true
  erased_empty : phase = .erased → group.blocks = []

/-- What every run keeps, with no assumption on how much is logged: the header
lists exactly the distinct blocks of the group, `outstanding` counts the
operations in progress, and a commit runs alone and leaves the header empty. -/
structure Group.Sound [Fintype Process] (group : Group Process) : Prop where
  distinct : group.blocks.Nodup
  logged_eq : group.logged = group.blocks.toFinset
  outstanding_eq : group.outstanding = total Phase.weight group.phase
  fits : ∀ process, group.Fits (group.phase process)
  alone : ∀ process other, (group.phase process).commits → (group.phase other).commits →
    process = other
  exclusive : group.committing = true → group.outstanding = 0
  quiet_empty : group.committing = false → group.outstanding = 0 → group.blocks = []

/-- A property of every phase survives a change of one phase. -/
theorem forall_setPhase [DecidableEq Process] {group : Group Process} {process : Process} {phase : Phase}
    {property : Phase → Prop} (others : ∀ other, other ≠ process → property (group.phase other))
    (here : property phase) (other : Process) :
    property ((group.setPhase process phase).phase other) := by
  unfold Group.setPhase
  by_cases same : other = process
  · simpa [same] using here
  · simpa [same] using others other same

/-- A process that does not commit leaves the committer as it was. -/
theorem alone_setPhase [DecidableEq Process] {group : Group Process} {process : Process} {phase : Phase}
    (others : ∀ left right, left ≠ process → right ≠ process → (group.phase left).commits →
      (group.phase right).commits → left = right)
    (here : phase.commits → ∀ other, other ≠ process → ¬(group.phase other).commits)
    (left right : Process) (first : ((group.setPhase process phase).phase left).commits)
    (second : ((group.setPhase process phase).phase right).commits) : left = right := by
  unfold Group.setPhase at first second
  by_cases leftHere : left = process <;> by_cases rightHere : right = process
  · rw [leftHere, rightHere]
  · simp only [leftHere, update_self, update_of_ne rightHere] at first second
    exact absurd second (here first right rightHere)
  · simp only [rightHere, update_self, update_of_ne leftHere] at first second
    exact absurd first (here second left leftHere)
  · simp only [update_of_ne leftHere, update_of_ne rightHere] at first second
    exact others left right leftHere rightHere first second

open Phase (weight)

namespace Group.Sound

variable [Fintype Process] {size : Nat} {group next : Group Process} {process : Process}
  {own : Finset Nat} {block : Nat}

theorem empty : (Group.empty : Group Process).Sound where
  distinct := nodup_nil
  logged_eq := rfl
  outstanding_eq := by simp [Group.empty, total, weight]
  fits _ := ⟨by simp [Group.empty, Phase.own], fun commits => commits.elim, by simp [Group.empty]⟩
  alone _ _ commits := commits.elim
  exclusive := by simp [Group.empty]
  quiet_empty := by simp [Group.empty]

/-- The header length is the number of distinct blocks of the group. -/
theorem length_eq (sound : group.Sound) : group.blocks.length = group.logged.card := by
  rw [sound.logged_eq, toFinset_card_of_nodup sound.distinct]

/-- An operation in progress is counted, so no commit is running. -/
theorem of_working (sound : group.Sound) (process : Process) (working : (group.phase process).weight = 1) :
    1 ≤ group.outstanding ∧ group.committing = false := by
  have counted := measure_le_total weight group.phase process
  rw [working, ← sound.outstanding_eq] at counted
  refine ⟨counted, ?_⟩
  cases busy : group.committing with
  | false => rfl
  | true =>
    have none := sound.exclusive busy
    omega

theorem not_commits (sound : group.Sound) (quiet : group.committing = false)
    (other : Process) : ¬(group.phase other).commits := by
  intro commits
  have busy := (sound.fits other).committer commits
  rw [quiet] at busy
  cases busy

variable [DecidableEq Process]

/-- The count of operations follows one process through a change of phase. -/
theorem outstanding_setPhase (sound : group.Sound) (process : Process) (phase : Phase) :
    total Phase.weight (update group.phase process phase) +
      (group.phase process).weight = group.outstanding + phase.weight := by
  rw [sound.outstanding_eq]
  exact total_update weight group.phase process phase

theorem beginOp (sound : group.Sound) (idle : group.phase process = .idle)
    (quiet : group.committing = false) :
    ({ group with outstanding := group.outstanding + 1 }.setPhase process (.active ∅)).Sound where
  distinct := sound.distinct
  logged_eq := sound.logged_eq
  outstanding_eq := by
    have moved := sound.outstanding_setPhase process (.active ∅)
    rw [idle] at moved
    simp only [setPhase, weight] at moved ⊢
    omega
  fits := forall_setPhase
    (fun other _ => ⟨(sound.fits other).own_logged, (sound.fits other).committer,
      (sound.fits other).erased_empty⟩)
    ⟨by simp [Phase.own], fun commits => commits.elim, fun same => by cases same⟩
  alone := alone_setPhase (fun left right _ _ => sound.alone left right)
    fun commits => commits.elim
  exclusive busy := by
    simp only [setPhase, quiet] at busy
    cases busy
  quiet_empty _ none := by
    simp only [setPhase] at none
    omega

/-- Moving between the test and the critical section changes only the phase. -/
theorem testWrite (sound : group.Sound) (working : group.phase process = .active own) :
    (group.setPhase process (.tested own block)).Sound where
  distinct := sound.distinct
  logged_eq := sound.logged_eq
  outstanding_eq := by
    have moved := sound.outstanding_setPhase process (.tested own block)
    rw [working] at moved
    simp only [setPhase, weight] at moved ⊢
    omega
  fits := by
    have owned := (sound.fits process).own_logged
    rw [working] at owned
    exact forall_setPhase
      (fun other _ => ⟨(sound.fits other).own_logged, (sound.fits other).committer,
        (sound.fits other).erased_empty⟩)
      ⟨owned, fun commits => commits.elim, fun same => by cases same⟩
  alone := alone_setPhase (fun left right _ _ => sound.alone left right)
    fun commits => commits.elim
  exclusive := sound.exclusive
  quiet_empty := sound.quiet_empty

theorem appendWrite (sound : group.Sound) (working : group.phase process = .tested own block) :
    ({ group with
      blocks := absorb group.blocks block
      logged := insert block group.logged }.setPhase process (.active (insert block own))).Sound := by
  have busy := sound.of_working process (by rw [working]; rfl)
  have owned := (sound.fits process).own_logged
  rw [working] at owned
  refine ⟨nodup_absorb sound.distinct block, ?_, ?_, ?_, ?_, sound.exclusive, ?_⟩
  · simp only [setPhase, toFinset_absorb, sound.logged_eq]
  · have moved := sound.outstanding_setPhase process (.active (insert block own))
    rw [working] at moved
    simp only [setPhase, weight] at moved ⊢
    omega
  · refine forall_setPhase (fun other _ => ⟨?_, (sound.fits other).committer, ?_⟩) ⟨?_, ?_, ?_⟩
    · exact (sound.fits other).own_logged.trans (subset_insert _ _)
    · intro erased
      refine absurd ?_ (sound.not_commits busy.2 other)
      change group.phase other = .erased at erased
      rw [erased]
      trivial
    · exact insert_subset_insert block owned
    · exact fun commits => commits.elim
    · exact fun same => by cases same
  · exact alone_setPhase (fun left right _ _ => sound.alone left right) fun commits => commits.elim
  · intro _ none
    simp only [setPhase] at none
    omega

/-- The last operation to end starts the commit. -/
theorem endOp_last (sound : group.Sound) (working : group.phase process = .active own)
    (last : group.outstanding - 1 = 0) :
    ({ group with outstanding := 0, committing := true }.setPhase process .committing).Sound := by
  have busy := sound.of_working process (by rw [working]; rfl)
  refine ⟨sound.distinct, sound.logged_eq, ?_, ?_, ?_, fun _ => rfl, ?_⟩
  · have moved := sound.outstanding_setPhase process .committing
    rw [working] at moved
    simp only [setPhase, weight] at moved ⊢
    omega
  · exact forall_setPhase
      (fun other _ => ⟨(sound.fits other).own_logged, fun _ => rfl,
        (sound.fits other).erased_empty⟩)
      ⟨by simp [Phase.own], fun _ => rfl, fun same => by cases same⟩
  · exact alone_setPhase (fun left right _ _ => sound.alone left right)
      fun _ other _ => sound.not_commits busy.2 other
  · intro quiet
    simp [setPhase] at quiet

theorem endOp_more (sound : group.Sound) (working : group.phase process = .active own)
    (more : group.outstanding - 1 ≠ 0) :
    ({ group with outstanding := group.outstanding - 1 }.setPhase process .idle).Sound := by
  have busy := sound.of_working process (by rw [working]; rfl)
  refine ⟨sound.distinct, sound.logged_eq, ?_, ?_, ?_, ?_, fun _ none => absurd none more⟩
  · have moved := sound.outstanding_setPhase process .idle
    rw [working] at moved
    simp only [setPhase, weight] at moved ⊢
    omega
  · exact forall_setPhase
      (fun other _ => ⟨(sound.fits other).own_logged, (sound.fits other).committer,
        (sound.fits other).erased_empty⟩)
      ⟨by simp [Phase.own], fun commits => commits.elim, fun same => by cases same⟩
  · exact alone_setPhase (fun left right _ _ => sound.alone left right) fun commits => commits.elim
  · intro committing
    simp only [setPhase, busy.2] at committing
    cases committing

theorem eraseHead (sound : group.Sound) (phase : group.phase process = .committing) :
    ({ group with blocks := [], logged := ∅ }.setPhase process .erased).Sound := by
  have committing : group.committing = true :=
    (sound.fits process).committer (by rw [phase]; trivial)
  have none := sound.exclusive committing
  have empty : ∀ other, (group.phase other).own = ∅ := by
    intro other
    have counted := measure_le_total weight group.phase other
    rw [← sound.outstanding_eq, none] at counted
    cases state : group.phase other <;> simp [state, weight, Phase.own] at counted ⊢
  refine ⟨nodup_nil, rfl, ?_, ?_, ?_, fun _ => none, fun _ _ => rfl⟩
  · have moved := sound.outstanding_setPhase process .erased
    rw [phase] at moved
    simp only [setPhase, weight] at moved ⊢
    omega
  · exact forall_setPhase
      (fun other _ => ⟨by simp [empty other], fun _ => committing, fun _ => rfl⟩)
      ⟨by simp [Phase.own], fun _ => committing, fun _ => rfl⟩
  · exact alone_setPhase (fun left right _ _ => sound.alone left right) fun _ other different commits =>
      different (sound.alone other process commits (by rw [phase]; trivial))

theorem endCommit (sound : group.Sound) (phase : group.phase process = .erased) :
    ({ group with committing := false }.setPhase process .idle).Sound := by
  have commits : (group.phase process).commits := by rw [phase]; trivial
  have none := sound.exclusive ((sound.fits process).committer commits)
  have blocks_eq := (sound.fits process).erased_empty phase
  refine ⟨sound.distinct, sound.logged_eq, ?_, ?_, ?_, fun _ => none, fun _ _ => blocks_eq⟩
  · have moved := sound.outstanding_setPhase process .idle
    rw [phase] at moved
    simp only [setPhase, weight] at moved ⊢
    omega
  · refine forall_setPhase (fun other different => ⟨(sound.fits other).own_logged, ?_,
      fun _ => blocks_eq⟩) ⟨by simp [Phase.own], fun commits => commits.elim, fun _ => blocks_eq⟩
    exact fun also => absurd (sound.alone other process also commits) different
  · exact alone_setPhase (fun left right _ _ => sound.alone left right) fun commits => commits.elim

omit [DecidableEq Process] in
/-- A panic changes nothing the invariant speaks about. -/
theorem panicked (sound : group.Sound) : ({ group with panicked := true } : Group Process).Sound :=
  ⟨sound.distinct, sound.logged_eq, sound.outstanding_eq,
    fun other => ⟨(sound.fits other).own_logged, (sound.fits other).committer,
      (sound.fits other).erased_empty⟩, sound.alone, sound.exclusive, sound.quiet_empty⟩

/-- Every step keeps the invariant, a panicking one included. -/
theorem step (sound : group.Sound) {action : Action Process} (step : group.Step size action next) :
    next.Sound := by
  cases step.effect.2 with
  | beginOp idle quiet _ => exact sound.beginOp idle quiet
  | testFull _ _ => exact sound.panicked
  | testWrite working => exact sound.testWrite working
  | appendWrite working => exact sound.appendWrite working
  | endBusy _ _ => exact sound.panicked
  | endLast working last => exact sound.endOp_last working last
  | endMore working more => exact sound.endOp_more working more
  | eraseHead phase => exact sound.eraseHead phase
  | endCommit phase => exact sound.endCommit phase

/-- A panicking step is a room test that fails: the other panics are unreachable. -/
theorem panic_full (sound : group.Sound) {action : Action Process}
    (step : group.Step size action next) (panicked : next.panicked = true) :
    ∃ process block, action = .testWrite process block ∧ group.full size := by
  obtain ⟨calm, effect⟩ := step.effect
  cases effect with
  | @testFull process block own working full =>
    refine ⟨process, block, rfl, full.resolve_right fun none => ?_⟩
    have counted := (sound.of_working process (by rw [working]; rfl)).1
    omega
  | @endBusy process own working busy =>
    have quiet := (sound.of_working process (by rw [working]; rfl)).2
    rw [quiet] at busy
    cases busy
  | beginOp | testWrite | appendWrite | endLast | endMore | eraseHead | endCommit =>
    simp only [setPhase, calm] at panicked
    cases panicked

end Group.Sound

/-! ## How much a group commit may hold -/

section Room

variable [DecidableEq Process] [Fintype Process] {size : Nat} {group : Group Process}
  {actions : List (Action Process)}

/-- In a run whose group commits stay below the data slots of the log, no
`log_write` panics and the header never lists more blocks than there are slots. -/
theorem room_suffices (fits : size ≤ LOGSIZE + 1)
    (run : Steps (Guarded (Group.Step size) (Room (size - 1))) Group.empty actions group) :
    group.Sound ∧ group.panicked = false ∧ group.blocks.length ≤ size - 1 := by
  refine run.invariant
    (fun group => group.Sound ∧ group.panicked = false ∧ group.blocks.length ≤ size - 1)
    ⟨Group.Sound.empty, rfl, Nat.zero_le _⟩ ?_
  intro group action next ⟨sound, calm, within⟩ ⟨room, step⟩
  refine ⟨sound.step step, ?_, ?_⟩
  · by_contra panicked
    obtain ⟨process, block, rfl, full⟩ := sound.panic_full step (by simpa using panicked)
    have below : group.logged.card < size - 1 := room
    rw [← sound.length_eq] at below
    simp only [Group.full, decide_eq_true_eq] at full
    omega
  · cases step.effect.2 with
    | @appendWrite process block own working =>
      have below : group.logged.card < size - 1 := room
      rw [← sound.length_eq] at below
      exact Nat.le_trans (length_absorb_le group.blocks block) below
    | eraseHead _ => exact Nat.zero_le _
    | beginOp | testFull | testWrite | endBusy | endLast | endMore | endCommit => exact within

/-! ## What a quota per operation reserves -/

/-- The blocks an operation in progress may still log. -/
def Phase.rest (quota : Nat) (phase : Phase) : Nat :=
  phase.weight * (quota - phase.own.card)

/-- The logged blocks and those still to come stay within a bound, and a pending
`log_write` respects the quota. -/
structure Group.Reserved (quota bound : Nat) (group : Group Process) : Prop where
  sound : group.Sound
  within : group.blocks.length + total (Phase.rest quota) group.phase ≤ bound
  pending : ∀ process own block, group.phase process = .tested own block →
    (insert block own).card ≤ quota

/-- The quota is small enough for the bound whenever `begin_op` admits an
operation: it admits the first operation of a group to an empty header only. -/
def Admissible (quota bound : Nat) : Prop :=
  ∀ length others, length + (others + 1) * MAXOPBLOCKS ≤ LOGSIZE → (others = 0 → length = 0) →
    length + quota * (others + 1) ≤ bound

theorem rest_le (quota : Nat) (phase : Phase) : phase.rest quota ≤ quota * phase.weight := by
  unfold Phase.rest
  rw [Nat.mul_comm]
  exact Nat.mul_le_mul_right _ (Nat.sub_le _ _)

/-- Appending a block moves it from what is still to come to what is logged. -/
theorem length_absorb_add_rest {blocks : List Nat} {own : Finset Nat} {block quota : Nat}
    (owned : own ⊆ blocks.toFinset) (respects : (insert block own).card ≤ quota) :
    (absorb blocks block).length + (quota - (insert block own).card) ≤
      blocks.length + (quota - own.card) := by
  unfold absorb
  have grows : own.card ≤ (insert block own).card := card_le_card (subset_insert _ _)
  split
  · omega
  · rename_i fresh
    have notOwn : block ∉ own := fun member => fresh (mem_toFinset.mp (owned member))
    rw [card_insert_of_notMem notOwn] at respects ⊢
    simp only [length_append, length_singleton]
    omega

/-- A pending `log_write` stays within the quota when one phase changes. -/
theorem Group.Reserved.pending_setPhase {quota bound : Nat} (reserved : group.Reserved quota bound)
    {process : Process} {phase : Phase}
    (here : ∀ own block, phase = .tested own block → (insert block own).card ≤ quota)
    (other : Process) (own : Finset Nat) (block : Nat) :
    (group.setPhase process phase).phase other = .tested own block →
      (insert block own).card ≤ quota :=
  @forall_setPhase _ _ group process phase
    (fun phase => phase = .tested own block → (insert block own).card ≤ quota)
    (fun other _ => reserved.pending other own block) (here own block) other

theorem Group.Reserved.step {quota bound : Nat} (admissible : Admissible quota bound)
    {action : Action Process} {next : Group Process} (reserved : group.Reserved quota bound)
    (respects : Quota quota group action) (step : group.Step size action next) :
    next.Reserved quota bound := by
  have sound := reserved.sound
  have within := reserved.within
  have moved := total_update (Phase.rest quota) group.phase
  refine ⟨sound.step step, ?_, ?_⟩
  · cases step.effect.2 with
    | @beginOp process idle quiet admitted =>
      have fresh := moved process (.active ∅)
      have bounded : total (Phase.rest quota) group.phase ≤ quota * group.outstanding := by
        rw [sound.outstanding_eq]
        exact total_le_mul fun slot => rest_le quota (group.phase slot)
      have room := admissible _ _ admitted fun none => by
        rw [sound.quiet_empty quiet none]
        rfl
      rw [Nat.mul_succ] at room
      simp only [idle, Phase.rest, weight, Phase.own, card_empty] at fresh
      simp only [Group.setPhase]
      omega
    | testFull _ _ => exact within
    | @testWrite process block own working =>
      have same := moved process (.tested own block)
      simp only [working, Phase.rest, weight, Phase.own] at same
      simp only [Group.setPhase]
      omega
    | @appendWrite process block own working =>
      have traded := moved process (.active (insert block own))
      have owned : own ⊆ group.blocks.toFinset := by
        have logged := (sound.fits process).own_logged
        rwa [working, sound.logged_eq] at logged
      have step := length_absorb_add_rest owned (reserved.pending process own block working)
      simp only [working, Phase.rest, weight, Phase.own] at traded
      simp only [Group.setPhase]
      omega
    | endBusy _ _ => exact within
    | @endLast process own working last =>
      have ended := moved process .committing
      simp only [working, Phase.rest, weight, Phase.own] at ended
      simp only [Group.setPhase]
      omega
    | @endMore process own working more =>
      have ended := moved process .idle
      simp only [working, Phase.rest, weight, Phase.own] at ended
      simp only [Group.setPhase]
      omega
    | @eraseHead process phase =>
      have same := moved process .erased
      simp only [phase, Phase.rest, weight, Phase.own] at same
      simp only [Group.setPhase, length_nil]
      omega
    | @endCommit process phase =>
      have same := moved process .idle
      simp only [phase, Phase.rest, weight, Phase.own] at same
      simp only [Group.setPhase]
      omega
  · cases step.effect.2 with
    | testFull | endBusy => exact reserved.pending
    | @testWrite process block own working =>
      refine reserved.pending_setPhase fun other block' same => ?_
      cases same
      have quotaKept : (insert block (group.phase process).own).card ≤ quota := respects
      rwa [working] at quotaKept
    | beginOp | appendWrite | endLast | endMore | eraseHead | endCommit =>
      exact reserved.pending_setPhase fun _ _ same => by cases same

/-- In a run whose operations respect an admissible quota, the header never
lists more blocks than the bound. -/
theorem quota_bounds {quota bound : Nat} (admissible : Admissible quota bound)
    (run : Steps (Guarded (Group.Step size) (Quota quota)) Group.empty actions group) :
    group.Reserved quota bound := by
  refine run.invariant (fun group => group.Reserved quota bound)
    ⟨Group.Sound.empty, ?_, by simp [Group.empty]⟩ fun reserved ⟨respects, step⟩ =>
      reserved.step admissible respects step
  simp [Group.empty, total, Phase.rest, weight]

/-- With the quota `begin_op` reserves, the header stays within `LOGSIZE`: its
array never overflows, but it can outgrow a log of `LOGSIZE` blocks by one. -/
theorem length_le_logsize
    (run : Steps (Guarded (Group.Step size) (Quota MAXOPBLOCKS)) Group.empty actions group) :
    group.blocks.length ≤ LOGSIZE := by
  have admissible : Admissible MAXOPBLOCKS LOGSIZE := by
    intro length others admitted _
    rw [Nat.mul_comm]
    exact admitted
  exact Nat.le_trans (Nat.le_add_right _ _) (quota_bounds admissible run).within

theorem length_le_logsize_single : ∃ group : Group (Fin 1),
    Steps (Guarded (Group.Step LOGSIZE) (Quota MAXOPBLOCKS)) Group.empty
      [.beginOp 0, .testWrite 0 7, .appendWrite 0] group ∧ group.blocks.length ≤ LOGSIZE := by
  have evaluated : (follow (Group.exec LOGSIZE) (Quota MAXOPBLOCKS) (@Group.empty (Fin 1))
      [.beginOp 0, .testWrite 0 7, .appendWrite 0]).isSome = true := by
    decide +kernel
  have run := Steps.of_follow (some_get evaluated).symm
  exact ⟨_, run, length_le_logsize run⟩

/-- One block less per operation leaves room for every `log_write`. -/
theorem nine_suffice
    (run : Steps (Guarded (Group.Step LOGSIZE) (Quota (MAXOPBLOCKS - 1))) Group.empty actions
      group) :
    Steps (Guarded (Group.Step LOGSIZE) (Room (LOGSIZE - 1))) Group.empty actions group := by
  have admissible : Admissible (MAXOPBLOCKS - 1) (LOGSIZE - 2) := by
    intro length others admitted first
    simp only [MAXOPBLOCKS, LOGSIZE] at admitted ⊢
    omega
  induction run with
  | refl => exact .refl
  | @step actions group action next prior transition ih =>
    have reserved := quota_bounds admissible prior
    have below : group.logged.card < LOGSIZE - 1 := by
      have within := reserved.within
      have length_eq := reserved.sound.length_eq
      simp only [LOGSIZE, MAXOPBLOCKS] at within ⊢
      omega
    refine .step ih ⟨?_, transition.2⟩
    cases action with
    | testWrite | appendWrite => exact below
    | beginOp | endOp | eraseHead | endCommit => trivial

/-- A `log_write` of a group commit that already fills the data slots panics. -/
theorem full_panics {quota : Nat}
    (run : Steps (Guarded (Group.Step LOGSIZE) (Quota quota)) Group.empty actions group)
    (full : LOGSIZE - 1 ≤ group.logged.card) {process : Process} {block : Nat}
    {next : Group Process} (step : group.Step LOGSIZE (.testWrite process block) next) :
    next.panicked = true := by
  have sound := run.invariant Group.Sound Group.Sound.empty fun sound taken => sound.step taken.2
  have noRoom : group.full LOGSIZE = true := by
    rw [← sound.length_eq] at full
    simp only [Group.full, decide_eq_true_eq]
    omega
  unfold Group.Step Group.exec at step
  simp only [noRoom, true_or, if_true] at step
  split at step
  · cases step
  · split at step
    · cases step
      rfl
    · cases step

/-- With `log.size = LOGSIZE`: in every run of operations of at most
`MAXOPBLOCKS` blocks, `log_write` never panics and the header never outgrows the
data slots as long as the group commit has logged fewer than `LOGSIZE - 1`
distinct blocks at each `log_write`; this is so whenever no operation logs more
than `MAXOPBLOCKS - 1` of them, and a `log_write` beyond it does panic. -/
theorem log_admission (actions : List (Action Process)) (group : Group Process) :
    (Steps (Guarded (Group.Step LOGSIZE) fun group action =>
        Quota MAXOPBLOCKS group action ∧ Room (LOGSIZE - 1) group action)
        Group.empty actions group →
      group.panicked = false ∧ group.blocks.length ≤ LOGSIZE - 1) ∧
    (Steps (Guarded (Group.Step LOGSIZE) (Quota (MAXOPBLOCKS - 1))) Group.empty actions group →
      group.panicked = false ∧ group.blocks.length ≤ LOGSIZE - 1) ∧
    (Steps (Guarded (Group.Step LOGSIZE) (Quota MAXOPBLOCKS)) Group.empty actions group →
      LOGSIZE - 1 ≤ group.logged.card → ∀ process block next,
        group.Step LOGSIZE (.testWrite process block) next → next.panicked = true) := by
  have fits : LOGSIZE ≤ LOGSIZE + 1 := Nat.le_succ _
  refine ⟨fun run => ?_, fun run => ?_, fun run full process block next step => ?_⟩
  · exact (room_suffices fits (run.mono fun taken => ⟨taken.1.2, taken.2⟩)).2
  · exact (room_suffices fits (nine_suffice run)).2
  · exact full_panics run full step

end Room

/-- Three operations of ten blocks each, admitted together, up to the thirtieth
`log_write`. -/
def threeFullOperations : List (Action (Fin 3)) :=
  [.beginOp 0, .beginOp 1, .beginOp 2] ++
    (List.range 29).flatMap (fun i => [.testWrite (Fin.ofNat 3 i) i, .appendWrite (Fin.ofNat 3 i)]) ++
    [.testWrite 2 29]

/-- `begin_op` admits three operations of `MAXOPBLOCKS` blocks, and the last
`log_write` of the last one panics. -/
theorem three_operations_panic :
    ∃ group : Group (Fin 3),
      Steps (Guarded (Group.Step LOGSIZE) (Quota MAXOPBLOCKS)) Group.empty threeFullOperations
        group ∧ group.panicked = true := by
  have evaluated : (follow (Group.exec LOGSIZE) (Quota MAXOPBLOCKS) Group.empty
      threeFullOperations).any (fun group => group.panicked) = true := by
    decide +kernel
  obtain ⟨reached, panicked⟩ := (any_eq_true_iff_get _ _).mp evaluated
  exact ⟨_, .of_follow (some_get reached).symm, panicked⟩

/-- A single operation of one block meets the stronger quota and is safe. -/
theorem log_admission_single :
    ∃ group : Group (Fin 1),
      Steps (Guarded (Group.Step LOGSIZE) (Quota (MAXOPBLOCKS - 1))) Group.empty
        [.beginOp 0, .testWrite 0 7, .appendWrite 0] group ∧
      group.blocks = [7] ∧ group.panicked = false ∧ group.blocks.length ≤ LOGSIZE - 1 := by
  have evaluated : (follow (Group.exec LOGSIZE) (Quota (MAXOPBLOCKS - 1)) (@Group.empty (Fin 1))
      [.beginOp 0, .testWrite 0 7, .appendWrite 0]).any (fun group => group.blocks = [7]) = true := by
    decide +kernel
  obtain ⟨reached, blocks_eq⟩ := (any_eq_true_iff_get _ _).mp evaluated
  have run := Steps.of_follow (some_get reached).symm
  exact ⟨_, run, by simpa using blocks_eq, (log_admission _ _).2.1 run⟩

end Xv6.Log
