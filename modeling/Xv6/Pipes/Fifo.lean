import Xv6.Kernel.Pipe
import Xv6.Semantics.Transition
import Xv6.Std.Ring

/-!
# Pipes are lossless queues

The ring between the two counters is a queue of bytes. The counters may have
wrapped around: only their difference and their residues count, and the size of
the ring divides the range of the counters. Storing adds a byte at the end and
reading takes one from the front, in whatever order the processes run.
-/

namespace Xv6

open Transition

namespace PipeRing

/-- The number of bytes in the pipe. -/
def count (ring : PipeRing) : Nat := (ring.nwrite - ring.nread).toNat

/-- The pipe as a list of bytes, oldest first. -/
def pipe (ring : PipeRing) : Pipe :=
  { data := Ring.contents PIPESIZE ring.data ring.nread.toNat ring.count
    readopen := ring.readopen
    writeopen := ring.writeopen }

end PipeRing

namespace Pipes

variable {ring : PipeRing}

@[simp] theorem length_pipe (ring : PipeRing) : ring.pipe.data.length = ring.count :=
  Ring.length_contents

/-- The pipe is full when the test of `pipewrite` says so. -/
theorem full_iff (bounded : ring.count ≤ PIPESIZE) :
    ring.nwrite = ring.nread + UInt32.ofNat PIPESIZE ↔ ring.pipe.data.length = PIPESIZE := by
  have readBound := ring.nread.toNat_lt
  have writeBound := ring.nwrite.toNat_lt
  rw [length_pipe]
  unfold PipeRing.count at bounded ⊢
  rw [UInt32.toNat_sub] at bounded ⊢
  rw [← UInt32.toNat_inj, UInt32.toNat_add]
  change _ % 2 ^ 32 ≤ 512 at bounded
  change _ = (_ + 512) % 2 ^ 32 ↔ _ = 512
  omega

theorem divides_range : PIPESIZE ∣ 2 ^ 32 := by
  change 512 ∣ 2 ^ 32
  decide

/-- The ring refines the list: storing a byte appends it. -/
theorem pipe_store (room : ring.count < PIPESIZE) (byte : Byte) :
    (ring.store byte).pipe = { ring.pipe with data := ring.pipe.data ++ [byte] } := by
  have index_eq : ring.nwrite.toNat % PIPESIZE = (ring.nread.toNat + ring.count) % PIPESIZE :=
    Ring.residue_back divides_range
  have count_eq : (ring.store byte).count = ring.count + 1 := by
    apply Ring.distance_extend
    change ring.count < 512 at room
    exact (Nat.succ_le_of_lt room).trans_lt (by decide)
  unfold PipeRing.pipe
  rw [count_eq]
  unfold PipeRing.store
  rw [index_eq]
  simp only [Ring.contents_push room]

/-- Reading a byte removes it from the front. -/
theorem pipe_advance (some : ring.nread ≠ ring.nwrite) :
    ring.pipe.data = ring.front :: ring.advance.pipe.data := by
  have count_eq : ring.count = ring.advance.count + 1 := Ring.distance_advance some
  have start_eq : (ring.nread + 1).toNat % PIPESIZE = (ring.nread.toNat + 1) % PIPESIZE :=
    Ring.residue_advance divides_range
  change Ring.contents PIPESIZE ring.data ring.nread.toNat ring.count =
    ring.front :: Ring.contents PIPESIZE ring.data (ring.nread + 1).toNat ring.advance.count
  rw [count_eq, Ring.contents_pop, Ring.contents_congr start_eq]
  rfl

/-! ## Segments -/

/-- A segment of `pipewrite` appends what it stores. -/
theorem pipewrite_spec (killed : Bool) (n : Nat) (bytes : List Byte) {ring : PipeRing}
    (bounded : ring.count ≤ PIPESIZE) :
    (ring.pipewrite killed n bytes).1.count ≤ PIPESIZE ∧
      (ring.pipewrite killed n bytes).1.pipe.data =
        ring.pipe.data ++ (ring.pipewrite killed n bytes).2.1 := by
  induction bytes generalizing ring with
  | nil => exact ⟨bounded, (List.append_nil _).symm⟩
  | cons byte rest ih =>
    by_cases full : ring.nwrite = ring.nread + UInt32.ofNat PIPESIZE
    · have unchanged : (ring.pipewrite killed n (byte :: rest)).1 = ring ∧
          (ring.pipewrite killed n (byte :: rest)).2.1 = [] := by
        unfold PipeRing.pipewrite
        rw [if_pos full]
        split
        · exact ⟨rfl, rfl⟩
        · exact ⟨rfl, rfl⟩
      rw [unchanged.1, unchanged.2, List.append_nil]
      exact ⟨bounded, rfl⟩
    · have room : ring.count < PIPESIZE := by
        rw [full_iff bounded, length_pipe] at full
        exact lt_of_le_of_ne bounded full
      have stored := pipe_store room byte
      have bounded' : (ring.store byte).count ≤ PIPESIZE := by
        rw [← length_pipe, stored, List.length_append, length_pipe]
        exact room
      obtain ⟨bounded'', data_eq⟩ := ih bounded'
      unfold PipeRing.pipewrite
      rw [if_neg full]
      refine ⟨bounded'', ?_⟩
      rw [data_eq, stored, List.append_assoc]
      rfl

/-- The copy loop of `piperead` takes what it returns from the front. -/
theorem pipereadCopy_spec (n : Nat) {ring : PipeRing} (bounded : ring.count ≤ PIPESIZE) :
    (ring.pipereadCopy n).1.count ≤ PIPESIZE ∧
      ring.pipe.data = (ring.pipereadCopy n).2 ++ (ring.pipereadCopy n).1.pipe.data := by
  induction n generalizing ring with
  | zero => exact ⟨bounded, rfl⟩
  | succ n ih =>
    unfold PipeRing.pipereadCopy
    by_cases empty : ring.nread = ring.nwrite
    · rw [if_pos empty]
      exact ⟨bounded, rfl⟩
    · rw [if_neg empty]
      have advanced := pipe_advance empty
      have bounded' : ring.advance.count ≤ PIPESIZE := by
        have length_eq := congrArg List.length advanced
        rw [List.length_cons, length_pipe, length_pipe] at length_eq
        omega
      obtain ⟨bounded'', data_eq⟩ := ih bounded'
      refine ⟨bounded'', ?_⟩
      rw [advanced, data_eq]
      rfl

theorem piperead_spec (killed : Bool) (n : Int) {ring : PipeRing} (bounded : ring.count ≤ PIPESIZE) :
    (ring.piperead killed n).1.count ≤ PIPESIZE ∧
      ring.pipe.data = (ring.piperead killed n).2.1 ++ (ring.piperead killed n).1.pipe.data := by
  unfold PipeRing.piperead
  split
  · split
    · exact ⟨bounded, rfl⟩
    · exact ⟨bounded, rfl⟩
  · exact pipereadCopy_spec n.toNat bounded

/-! ## Runs -/

variable {Process : Type} [DecidableEq Process]

/-- No byte is lost: what was stored was handed out or is still in the pipe. -/
structure Lossless (system : PipeSystem Process) : Prop where
  bounded : system.ring.count ≤ PIPESIZE
  stored : system.stored = system.handed ++ system.ring.pipe.data

variable {system next : PipeSystem Process}

theorem Lossless.writing (lossless : Lossless system) (p : Process) (killed : Bool) (n : Nat)
    (bytes : List Byte) : Lossless (system.writing p killed n bytes) := by
  obtain ⟨bounded, data_eq⟩ := pipewrite_spec killed n bytes lossless.bounded
  constructor
  · exact bounded
  · change system.stored ++ (system.ring.pipewrite killed n bytes).2.1 =
      system.handed ++ (system.ring.pipewrite killed n bytes).1.pipe.data
    rw [data_eq, lossless.stored, List.append_assoc]

theorem Lossless.reading (lossless : Lossless system) (p : Process) (killed : Bool) (n : Int) :
    Lossless (system.reading p killed n) := by
  obtain ⟨bounded, data_eq⟩ := piperead_spec killed n lossless.bounded
  constructor
  · exact bounded
  · change system.stored = (system.handed ++ (system.ring.piperead killed n).2.1) ++
      (system.ring.piperead killed n).1.pipe.data
    rw [List.append_assoc, ← data_eq]
    exact lossless.stored

omit [DecidableEq Process] in
theorem Lossless.close (lossless : Lossless system) (writable : Bool) :
    Lossless { system with ring := system.ring.pipeclose writable } := by
  have same : (system.ring.pipeclose writable).count = system.ring.count ∧
      (system.ring.pipeclose writable).pipe.data = system.ring.pipe.data := by
    cases writable
    · exact ⟨rfl, rfl⟩
    · exact ⟨rfl, rfl⟩
  constructor
  · rw [same.1]
    exact lossless.bounded
  · rw [same.2]
    exact lossless.stored

theorem Lossless.step {action : PipeAction Process} (lossless : Lossless system)
    (step : system.step action = some next) : Lossless next := by
  unfold PipeSystem.step at step
  split at step
  · cases action with
    | write p bytes killed =>
      simp only [Option.ite_none_right_eq_some, Option.some.injEq] at step
      rw [← step.2]
      exact lossless.writing p killed _ bytes
    | read p n killed =>
      simp only [Option.ite_none_right_eq_some, Option.some.injEq] at step
      rw [← step.2]
      exact lossless.reading p killed n
    | resume p killed =>
      dsimp only at step
      split at step
      · cases step
        exact lossless.writing p killed _ _
      · cases step
        exact lossless.reading p killed _
      · cases step
    | close writable =>
      cases step
      exact lossless.close writable
  · cases step

/-- Whatever page a pipe was made of, and however any number of processes write,
read, sleep and wake: the counters are at most `PIPESIZE` apart, and the bytes that
were stored are those handed to readers, in the same order, and then those that
are still in the pipe. -/
theorem pipe_fifo {page : Nat → Byte} {actions : List (PipeAction Process)}
    (run : Steps (fun system action next => PipeSystem.step system action = some next)
      (PipeSystem.start page) actions system) :
    (system.ring.nwrite - system.ring.nread).toNat ≤ PIPESIZE ∧
      system.stored = system.handed ++ system.ring.pipe.data := by
  have lossless : Lossless system := by
    have none : (PipeSystem.start page : PipeSystem Process).ring.count = 0 := by
      change ((0 : UInt32) - 0).toNat = 0
      decide
    apply run.invariant Lossless
    · constructor
      · rw [none]
        exact Nat.zero_le _
      · unfold PipeRing.pipe
        rw [none]
        rfl
    · intro system action next lossless step
      exact lossless.step step
  exact ⟨lossless.bounded, lossless.stored⟩

/-- Two writers and a reader. -/
def relay : List (PipeAction (Fin 3)) :=
  [.read 2 4 false, .write 0 [1, 2] false, .write 1 [3] false, .resume 2 false, .write 0 [4] false,
    .read 2 1 false]

theorem pipe_fifo_relay : ∃ system : PipeSystem (Fin 3),
    Steps (fun system action next => PipeSystem.step system action = some next)
      (PipeSystem.start fun _ => 0) relay system ∧
        (system.ring.nwrite - system.ring.nread).toNat ≤ PIPESIZE ∧
        system.stored = system.handed ++ system.ring.pipe.data := by
  have evaluated : (follow PipeSystem.step (fun _ _ => True) (PipeSystem.start fun _ => 0)
      relay).isSome = true := by
    decide
  have run := (Steps.of_follow (Option.some_get evaluated).symm).unguarded
  exact ⟨_, run, pipe_fifo run⟩

end Pipes

end Xv6
