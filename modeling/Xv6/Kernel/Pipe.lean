import Xv6.Kernel.State

/-!
# Pipes as rings: `pipe.c`

The bytes of a pipe lie in a ring of `PIPESIZE` bytes, between two counters that
only ever grow and wrap around with the 32-bit word they are kept in. The lock of
the pipe is held from the start of a call, or from where it was woken, to its end
or to where it sleeps; so each such segment is one function of the pipe. The flag
`killed` is the one the caller finds where it looks, which it does once at most.
-/

namespace Xv6

/-- `struct pipe`. Only the first `PIPESIZE` bytes of the data are used. -/
structure PipeRing where
  data : Nat → Byte
  nread : UInt32
  nwrite : UInt32
  readopen : Bool
  writeopen : Bool

/-- A call that sleeps: `pipewrite` with the bytes still to store, out of `n`, or
`piperead` of up to `n` bytes. -/
inductive PipeRequest where
  | write (n : Nat) (rest : List Byte)
  | read (n : Int)
deriving DecidableEq, Repr

/-- How a segment of a call ends. -/
inductive PipeOutcome where
  | returned (result : Int)
  | asleep (request : PipeRequest)
deriving DecidableEq, Repr

namespace PipeRing

/-- The pipe that `pipealloc` makes of a page, whatever the page contains. -/
def alloc (page : Nat → Byte) : PipeRing :=
  { data := page, nread := 0, nwrite := 0, readopen := true, writeopen := true }

/-- `p->data[p->nwrite++ % PIPESIZE] = byte`. -/
def store (ring : PipeRing) (byte : Byte) : PipeRing :=
  { ring with
    data := Function.update ring.data (ring.nwrite.toNat % PIPESIZE) byte
    nwrite := ring.nwrite + 1 }

/-- The byte `p->data[p->nread++ % PIPESIZE]`. -/
def front (ring : PipeRing) : Byte := ring.data (ring.nread.toNat % PIPESIZE)

/-- The pipe after that byte was read. -/
def advance (ring : PipeRing) : PipeRing := { ring with nread := ring.nread + 1 }

/-- `pipewrite` from its loop on, with the bytes still to store: the pipe, the
bytes it stored, and how it ends. -/
def pipewrite (killed : Bool) (n : Nat) : List Byte → PipeRing → PipeRing × List Byte × PipeOutcome
  | [], ring => (ring, [], .returned n)
  | byte :: rest, ring =>
    if ring.nwrite = ring.nread + UInt32.ofNat PIPESIZE then
      if !ring.readopen ∨ killed then (ring, [], .returned (-1))
      else (ring, [], .asleep (.write n (byte :: rest)))
    else
      let (next, stored, outcome) := pipewrite killed n rest (ring.store byte)
      (next, byte :: stored, outcome)

/-- The copy loop of `piperead`: the pipe and the bytes read. -/
def pipereadCopy : Nat → PipeRing → PipeRing × List Byte
  | 0, ring => (ring, [])
  | n + 1, ring =>
    if ring.nread = ring.nwrite then (ring, [])
    else
      let (next, bytes) := pipereadCopy n ring.advance
      (next, ring.front :: bytes)

/-- `piperead` from its first loop on. -/
def piperead (killed : Bool) (n : Int) (ring : PipeRing) : PipeRing × List Byte × PipeOutcome :=
  if ring.nread = ring.nwrite ∧ ring.writeopen then
    if killed then (ring, [], .returned (-1)) else (ring, [], .asleep (.read n))
  else
    let (next, bytes) := pipereadCopy n.toNat ring
    (next, bytes, .returned bytes.length)

/-- `pipeclose`, as far as the pipe goes. -/
def pipeclose (ring : PipeRing) (writable : Bool) : PipeRing :=
  if writable then { ring with writeopen := false } else { ring with readopen := false }

/-- The page is freed when both ends are closed. -/
def Allocated (ring : PipeRing) : Prop := ring.readopen = true ∨ ring.writeopen = true

instance (ring : PipeRing) : Decidable ring.Allocated :=
  inferInstanceAs (Decidable (ring.readopen = true ∨ ring.writeopen = true))

end PipeRing

/-- A pipe, the calls that sleep on it, and a record of all bytes that were ever
stored in it or handed to a reader, in this order. -/
structure PipeSystem (Process : Type) where
  ring : PipeRing
  pending : Process → Option PipeRequest
  stored : List Byte
  handed : List Byte

/-- What a process does with the pipe. A sleeping call may be resumed at any time:
more processes are woken than find what they wait for. -/
inductive PipeAction (Process : Type) where
  | write (p : Process) (bytes : List Byte) (killed : Bool)
  | read (p : Process) (n : Int) (killed : Bool)
  | resume (p : Process) (killed : Bool)
  | close (writable : Bool)

namespace PipeSystem

variable {Process : Type} [DecidableEq Process]

def start (page : Nat → Byte) : PipeSystem Process :=
  { ring := .alloc page, pending := fun _ => none, stored := [], handed := [] }

/-- Does the process sleep now? -/
def settle (system : PipeSystem Process) (p : Process) : PipeOutcome → Process → Option PipeRequest
  | .returned _ => Function.update system.pending p none
  | .asleep request => Function.update system.pending p (some request)

/-- A segment of `pipewrite`. -/
def writing (system : PipeSystem Process) (p : Process) (killed : Bool) (n : Nat)
    (bytes : List Byte) : PipeSystem Process :=
  let (ring, stored, outcome) := system.ring.pipewrite killed n bytes
  { system with ring := ring, pending := system.settle p outcome, stored := system.stored ++ stored }

/-- A segment of `piperead`. -/
def reading (system : PipeSystem Process) (p : Process) (killed : Bool) (n : Int) :
    PipeSystem Process :=
  let (ring, bytes, outcome) := system.ring.piperead killed n
  { system with ring := ring, pending := system.settle p outcome, handed := system.handed ++ bytes }

/-- One segment of one process, as long as the page is there. -/
def step (system : PipeSystem Process) (action : PipeAction Process) : Option (PipeSystem Process) :=
  if system.ring.Allocated then
    match action with
    | .write p bytes killed =>
      if system.pending p = none then some (system.writing p killed bytes.length bytes) else none
    | .read p n killed =>
      if system.pending p = none then some (system.reading p killed n) else none
    | .resume p killed =>
      match system.pending p with
      | some (.write n rest) => some (system.writing p killed n rest)
      | some (.read n) => some (system.reading p killed n)
      | none => none
    | .close writable => some { system with ring := system.ring.pipeclose writable }
  else none

end PipeSystem

end Xv6
