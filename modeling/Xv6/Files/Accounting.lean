import Mathlib.Data.Fintype.BigOperators
import Xv6.Files.Syscalls

/-!
# The file table over whole runs

Processes make one call after another, `pipe` among them, and the pages that pipes
took and gave back are recorded. Whatever the calls return, every count in the file
table is that of the descriptors, and a page belongs to a pipe from `kalloc` until
the one `kfree` after both ends are closed.
-/

namespace Xv6

/-- The calls of the table, and `pipe` with the page that `kalloc` returns to it. -/
inductive FileCall where
  | table (call : Syscall)
  | pipe (fd : Bool) (page : Option Nat)

def FileCall.run : FileCall → Kern Unit
  | table call => do
      let _ ← call.run
      pure ()
  | pipe fd page => do
      let _ ← sysPipe fd page
      pure ()

/-- `kalloc` returns no page that it handed out and has not got back. -/
def FileCall.Allowed (history : List Event) : FileCall → Prop
  | pipe _ (some page) => history.count (.kalloc page) = history.count (.kfree page)
  | _ => True

instance (history : List Event) : DecidablePred (FileCall.Allowed history)
  | .pipe _ (some page) => inferInstanceAs
      (Decidable (history.count (.kalloc page) = history.count (.kfree page)))
  | .pipe _ none => isTrue trivial
  | .table _ => isTrue trivial

/-- A kernel and the events of the calls so far. -/
structure FileSystem where
  kernel : Kernel
  history : List Event

/-- A live process makes a call, if it returns. -/
def FileSystem.step (system : FileSystem) (label : ProcPtr × FileCall) : Option FileSystem :=
  if (system.kernel.ptable label.1).Live ∧ label.2.Allowed system.history then
    match label.2.run (system.kernel.enter label.1) with
    | .ok _ next => some ⟨next, next.trace ++ system.history⟩
    | .error _ _ => none
  else none

/-- No file is open. -/
structure Kernel.NoFiles (kernel : Kernel) : Prop where
  ref : ∀ f, (kernel.ftable f).ref = 0
  ofile : ∀ p fd, (kernel.ptable p).ofile fd = none
  closed : ∀ p, (kernel.pipes p).readopen = false ∧ (kernel.pipes p).writeopen = false

namespace Files

open Program Counting Transition

variable {system next : FileSystem} {label : ProcPtr × FileCall}

/-- The table is in order between two calls, whoever makes the next one. -/
def Ordered (system : FileSystem) : Prop :=
  ∀ p, Settled (fun page => balance page system.history) (system.kernel.enter p).descriptors

theorem FileSystem.step_eq_some : system.step label = some next ↔
    (system.kernel.ptable label.1).Live ∧ label.2.Allowed system.history ∧
      next.history = next.kernel.trace ++ system.history ∧
      label.2.run (system.kernel.enter label.1) = .ok () next.kernel := by
  unfold FileSystem.step
  by_cases enabled : (system.kernel.ptable label.1).Live ∧ label.2.Allowed system.history
  · rw [if_pos enabled]
    cases outcome : label.2.run (system.kernel.enter label.1) with
    | ok result after =>
      constructor
      · intro same
        cases same
        exact ⟨enabled.1, enabled.2, rfl, rfl⟩
      · rintro ⟨_, _, history, same⟩
        cases same
        change some ⟨next.kernel, next.kernel.trace ++ system.history⟩ = some next
        rw [← history]
    | error fault after =>
      constructor
      · nofun
      · rintro ⟨_, _, _, absurdity⟩
        cases absurdity
  · rw [if_neg enabled]
    constructor
    · nofun
    · rintro ⟨live, allowed, _⟩
      exact absurd ⟨live, allowed⟩ enabled

theorem running_of_live {kernel : Kernel} {p : ProcPtr} (live : (kernel.ptable p).Live) :
    Running (kernel.enter p).descriptors := by
  change (kernel.ptable p).state.kind = .alive
  obtain ⟨used, born, alive⟩ := live
  cases state_eq : (kernel.ptable p).state with
  | unused => exact absurd state_eq used
  | embryo => exact absurd state_eq born
  | zombie => exact absurd state_eq alive
  | sleeping => rfl
  | runnable => rfl
  | running => rfl

/-- One call, completed or not. -/
theorem accounted_call {p : ProcPtr} {call : FileCall} (ordered : Ordered system)
    (live : (system.kernel.ptable p).Live) (allowed : call.Allowed system.history) :
    Describes call.run (system.kernel.enter p).descriptors fun _ after =>
      Settled (fun page => balance page system.history) after := by
  have settled := ordered p
  have running := running_of_live live
  cases call with
  | table call =>
    apply Track.bind (accounted_syscall settled running call)
    exact fun _ _ after => Track.pure after
  | pipe fd page =>
    have fresh : ∀ q ∈ page, balance q system.history +
        balance q (system.kernel.enter p).descriptors.pages = 0 := by
      intro q among
      cases among
      change system.history.count (.kalloc q) = system.history.count (.kfree q) at allowed
      change balance q system.history + 0 = 0
      unfold balance
      omega
    apply Track.bind (accounted_sysPipe settled running fd page fresh)
    exact fun _ _ after => Track.pure after

theorem balance_filter (page : Nat) (trace : List Event) :
    balance page (trace.filter fun event => !event.outsidePages) = balance page trace := by
  unfold balance
  rw [List.count_filter rfl, List.count_filter rfl]

/-- A completed call. -/
theorem Ordered.step (ordered : Ordered system) (step : system.step label = some next) :
    Ordered next := by
  obtain ⟨live, allowed, history, run⟩ := FileSystem.step_eq_some.mp step
  have settled := (accounted_call ordered live allowed _ rfl).ok run
  intro p
  constructor
  · exact settled.counted
  · exact settled.unused
  · exact settled.sided
  · exact settled.ends
  · intro page
    have pages := settled.pages page
    change balance page system.history +
      balance page (next.kernel.trace.filter fun event => !event.outsidePages) = _ at pages
    change balance page next.history + 0 = _
    rw [balance_filter] at pages
    rw [history, balance_append, add_zero, add_comm]
    exact pages
  · exact settled.empty

theorem ordered_of_noFiles {kernel : Kernel} (none : kernel.NoFiles) : Ordered ⟨kernel, []⟩ := by
  have idle : ∀ f, (kernel.ftable f).handle = ⟨0, .none⟩ := by
    intro f
    have type_eq := (kernel.ftable f).unused (none.ref f)
    unfold File.handle
    rw [none.ref f, type_eq]
  have opened : ∀ p readable, (kernel.pipes p).opened readable = false := by
    intro p readable
    cases readable
    · exact (none.closed p).2
    · exact (none.closed p).1
  intro p
  constructor
  · intro f
    have holders_eq : holders (kernel.enter p).descriptors f = 0 := by
      apply total_eq_zero
      intro q
      apply total_eq_zero
      intro fd
      change points f ((kernel.ptable q).ofile fd) = 0
      rw [none.ofile q fd]
      rfl
    rw [holders_eq]
    change ((kernel.ftable f).handle.ref : Int) = _
    rw [idle f]
    rfl
  · exact fun f _ => congrArg Handle.pipe (idle f)
  · intro f e end_
    exact nomatch (congrArg Handle.pipe (idle f)).symm.trans end_
  · intro page readable
    change total _ _ = ((kernel.pipes page).opened readable).toNat
    rw [opened]
    apply total_eq_zero
    intro f
    exact isEnd_idle (congrArg Handle.pipe (idle f))
  · intro page
    change _ = if (kernel.pipes page).opened true || (kernel.pipes page).opened false then 1 else 0
    rw [opened, opened]
    rfl
  · exact fun q _ fd => none.ofile q fd

/-! ## The counts in their own terms -/

theorem holders_eq_card (kernel : Kernel) (f : FilePtr) :
    holders kernel.descriptors f =
      (Finset.univ.filter fun slot : ProcPtr × Fin NOFILE =>
        (kernel.ptable slot.1).ofile slot.2 = some f).card := by
  rw [Finset.card_filter, Fintype.sum_prod_type]
  rfl

/-- One file exactly is behind an open end. -/
theorem Accounted.existsUnique {base : Nat → Int} {extra : FilePtr → Int} {d : Descriptors}
    (accounted : Accounted base extra d) {page : Nat} {readable : Bool}
    (open_ : d.opened page readable = true) :
    ∃! f, (d.file f).pipe = some ⟨page, readable, !readable⟩ := by
  have one := accounted.ends page readable
  rw [open_] at one
  have unique := @existsUnique_of_total _ _ _
    (fun handle : Handle => handle.pipe = some ⟨page, readable, !readable⟩) _ d.file one
  exact unique

theorem handle_pipe_iff {file : File} {page : Nat} {readable writable : Bool} :
    file.handle.pipe = some ⟨page, readable, writable⟩ ↔
      file.type = .pipe page ∧ file.readable = readable ∧ file.writable = writable := by
  unfold File.handle
  cases type_eq : file.type with
  | none => simp
  | pipe p => simp
  | inode ip off => simp

/-- After every run of calls, completed or failed inside in any way: the count of each
file is the number of descriptors that lead to it; the ends of a pipe are behind one
file each as long as they are open; a page was freed as often as it was allocated, but
for the one time it is in use; and no call can panic in `filedup` or `fileclose`. -/
theorem files_accounted {start : Kernel} {calls : List (ProcPtr × FileCall)}
    (none : start.NoFiles)
    (run : Steps (fun system label next => FileSystem.step system label = some next)
      ⟨start, []⟩ calls system) :
    (∀ f, (system.kernel.ftable f).ref =
      (Finset.univ.filter fun slot : ProcPtr × Fin NOFILE =>
        (system.kernel.ptable slot.1).ofile slot.2 = some f).card) ∧
    (∀ f, (system.kernel.ftable f).ref = 0 → (system.kernel.ftable f).type = .none) ∧
    (∀ page,
      ((system.kernel.pipes page).readopen = true →
        ∃! f, (system.kernel.ftable f).type = .pipe page ∧ (system.kernel.ftable f).readable = true) ∧
      ((system.kernel.pipes page).writeopen = true →
        ∃! f, (system.kernel.ftable f).type = .pipe page ∧ (system.kernel.ftable f).writable = true) ∧
      ∀ f, (system.kernel.ftable f).type = .pipe page →
        (system.kernel.ftable f).readable = true ∧ (system.kernel.ftable f).writable = false ∧
            (system.kernel.pipes page).readopen = true ∨
          (system.kernel.ftable f).readable = false ∧ (system.kernel.ftable f).writable = true ∧
            (system.kernel.pipes page).writeopen = true) ∧
    (∀ page, system.history.count (.kalloc page) = system.history.count (.kfree page) +
      if (system.kernel.pipes page).readopen || (system.kernel.pipes page).writeopen then 1 else 0) ∧
    ∀ p call, (system.kernel.ptable p).Live → FileCall.Allowed system.history call →
      ∀ fault after, call.run (system.kernel.enter p) = .error fault after →
        fault ≠ .panic .filedup ∧ fault ≠ .panic .fileclose := by
  have ordered : Ordered system := by
    apply run.invariant Ordered (ordered_of_noFiles none)
    intro current label next ordered step
    exact ordered.step step
  obtain ⟨kernel, history⟩ := system
  have settled := ordered kernel.cur
  have sided : ∀ f page, (kernel.ftable f).type = .pipe page →
      (kernel.ftable f).writable = !(kernel.ftable f).readable := by
    intro f page type_eq
    exact settled.sided f _ (handle_pipe_iff.mpr ⟨type_eq, rfl, rfl⟩)
  have unique : ∀ page readable, (kernel.pipes page).opened readable = true →
      ∃! f, (kernel.ftable f).type = .pipe page ∧ (kernel.ftable f).readable = readable := by
    intro page readable open_
    obtain ⟨f, end_, only⟩ := settled.existsUnique open_
    obtain ⟨type_eq, readable_eq, _⟩ := handle_pipe_iff.mp end_
    refine ⟨f, ⟨type_eq, readable_eq⟩, fun g both => only g ?_⟩
    have side := sided g page both.1
    rw [both.2] at side
    exact handle_pipe_iff.mpr ⟨both.1, both.2, side⟩
  refine ⟨?_, ?_, ?_, ?_, ?_⟩
  · intro f
    have counted := settled.counted f
    change ((kernel.ftable f).ref : Int) = holders kernel.descriptors f + 0 at counted
    rw [add_zero, holders_eq_card] at counted
    exact Int.ofNat_inj.mp counted
  · exact fun f => (kernel.ftable f).unused
  · intro page
    refine ⟨unique page true, ?_, ?_⟩
    · intro open_
      obtain ⟨f, ⟨type_eq, readable_eq⟩, only⟩ := unique page false open_
      refine ⟨f, ⟨type_eq, ?_⟩, fun g both => only g ⟨both.1, ?_⟩⟩
      · rw [sided f page type_eq, readable_eq]
        rfl
      · have side := sided g page both.1
        rw [both.2] at side
        rw [← Bool.not_not (kernel.ftable g).readable, ← side]
        rfl
    · intro f type_eq
      have side := sided f page type_eq
      have end_ := handle_pipe_iff.mpr ⟨type_eq, rfl, side⟩
      have open_ : (kernel.pipes page).opened (kernel.ftable f).readable = true :=
        settled.opened (f := f) end_
      cases readable_eq : (kernel.ftable f).readable with
      | true =>
        rw [readable_eq] at side open_
        exact .inl ⟨rfl, side, open_⟩
      | false =>
        rw [readable_eq] at side open_
        exact .inr ⟨rfl, side, open_⟩
  · intro page
    have pages := settled.pages page
    change (history.count (.kalloc page) : Int) - history.count (.kfree page) + 0 =
      if (kernel.pipes page).readopen || (kernel.pipes page).writeopen then 1 else 0 at pages
    dsimp only
    split at pages
    · rename_i inUse
      rw [if_pos inUse]
      omega
    · rename_i notInUse
      rw [if_neg notInUse]
      omega
  · intro p call live allowed fault after raised
    have safe := (accounted_call ordered live allowed _ rfl).error raised
    constructor
    · rintro rfl
      exact nomatch safe
    · rintro rfl
      exact nomatch safe

/-- Init makes a pipe and forks; the child closes the end it reads from, duplicates the
other and exits; init closes both. -/
def pipeAndFork : List (ProcPtr × FileCall) :=
  [(0, .pipe true (some 7)), (0, .table (.fork true true)), (1, .table (.close (some 0))),
    (1, .table (.dup (some 1))), (1, .table .exit), (0, .table (.close (some 0))),
    (0, .table (.close (some 1)))]

theorem noFiles_boot (disk : Disk) : (Kernel.boot disk).NoFiles where
  ref _ := rfl
  ofile p fd := by
    change (if p = 0 then { Proc.zero with state := .runnable, pid := 1, cwd := some 0 }
      else Proc.zero).ofile fd = none
    split
    · rfl
    · rfl
  closed _ := ⟨rfl, rfl⟩

theorem files_accounted_pipeAndFork : ∃ system : FileSystem,
    Steps (fun system label next => FileSystem.step system label = some next)
      ⟨Kernel.boot (Disk.image 0o755 [] [] []), []⟩ pipeAndFork system ∧
    system.history.count (.kfree 7) = 1 ∧
    system.history.count (.kalloc 7) = system.history.count (.kfree 7) +
      if (system.kernel.pipes 7).readopen || (system.kernel.pipes 7).writeopen then 1 else 0 := by
  have evaluated : (follow FileSystem.step (fun _ _ => True)
      ⟨Kernel.boot (Disk.image 0o755 [] [] []), []⟩ pipeAndFork).any
        (fun system => system.history.count (.kfree 7) = 1) = true := by
    decide +kernel
  obtain ⟨reached, freed⟩ := (Option.any_eq_true_iff_get _ _).mp evaluated
  have run := (Steps.of_follow (Option.some_get reached).symm).unguarded
  exact ⟨_, run, of_decide_eq_true freed, (files_accounted (noFiles_boot _) run).2.2.2.1 7⟩

end Files

end Xv6
