import Xv6.Kernel.Pipe

/-!
# Pipes step by step: `pipe.c` with `sleep`, `wakeup` and `kill` of `proc.c`

Here the processes interleave between any two statements. The lock of the pipe and
the lock of the process table are modelled; a step that has to wait for one of them
is not enabled while another process holds it. `kill` sets its flag at any moment at
which the process table is not locked.
-/

namespace Xv6

/-- What processes sleep on: `&p->nread` or `&p->nwrite`. -/
inductive PipeChannel where
  | nread
  | nwrite
deriving DecidableEq, Repr

/-- What a call sleeps on. -/
def PipeRequest.channel : PipeRequest → PipeChannel
  | .write _ _ => .nwrite
  | .read _ => .nread

/-- Where a process is in its call. -/
inductive PipePoint where
  /-- Not in a call on this pipe. -/
  | outside
  /-- At `acquire(&p->lock)`: at the start of a call, or at the end of `sleep`. -/
  | acquiring (request : PipeRequest)
  /-- At the tests of the loops, with the bytes still to store. -/
  | looping (request : PipeRequest)
  /-- The pipe was found full, or empty and open for writing. -/
  | blocked (request : PipeRequest)
  /-- At `wakeup(&p->nread)` before `pipewrite` sleeps. -/
  | announcing (request : PipeRequest)
  /-- At the start of `sleep`. -/
  | dozing (request : PipeRequest)
  /-- In `sleep`, with `ptable.lock` held and the lock of the pipe released. -/
  | falling (request : PipeRequest)
  /-- `SLEEPING`, until `wakeup1` or `kill` makes it `RUNNABLE`. -/
  | asleep (request : PipeRequest)
  /-- In the copy loop of `piperead`, with the bytes copied so far. -/
  | copying (left : Nat) (copied : List Byte)
  /-- At the `acquire` of `pipeclose`. -/
  | closing (writable : Bool)
  /-- In `pipeclose`, with the lock held. -/
  | shutting (writable : Bool)
  /-- At the last `wakeup` of a call. -/
  | waking (channel : PipeChannel) (result : Int)
  /-- At the last `release` of a call. -/
  | releasing (result : Int)
deriving DecidableEq, Repr

namespace PipePoint

/-- Does a process hold the lock of the pipe there? -/
def holds : PipePoint → Bool
  | outside | acquiring _ | falling _ | asleep _ | closing _ => false
  | _ => true

/-- The request with which a process sleeps there, or is about to without the lock. -/
def waits : PipePoint → Option PipeRequest
  | falling request | asleep request => some request
  | _ => none

end PipePoint

/-- A pipe, its lock, the lock of the process table, and the processes. -/
structure PipeThreads (Process : Type) where
  ring : PipeRing
  lock : Option Process
  ptable : Option Process
  point : Process → PipePoint
  killed : Process → Bool

/-- What happens next. -/
inductive ThreadAction (Process : Type) where
  /-- A process calls `pipewrite` or `piperead`. -/
  | call (p : Process) (request : PipeRequest)
  /-- A process calls `pipeclose`. -/
  | close (p : Process) (writable : Bool)
  /-- A process takes the next step of its call. -/
  | run (p : Process)
  /-- Some process kills this one. -/
  | kill (p : Process)
deriving DecidableEq, Repr

namespace PipeThreads

variable {Process : Type} [DecidableEq Process]

def start (page : Nat → Byte) : PipeThreads Process :=
  { ring := .alloc page, lock := none, ptable := none, point := fun _ => .outside
    killed := fun _ => false }

/-- The process continues at a point. -/
def goto (threads : PipeThreads Process) (p : Process) (point : PipePoint) : PipeThreads Process :=
  { threads with point := Function.update threads.point p point }

/-- `wakeup1`: a process that sleeps on the channel is at the end of `sleep`. -/
def wakeup (threads : PipeThreads Process) (channel : PipeChannel) : PipeThreads Process :=
  { threads with
    point := fun q =>
      match threads.point q with
      | .asleep request => if request.channel = channel then .acquiring request else .asleep request
      | point => point }

/-- `acquire(&p->lock)`. -/
def acquire (threads : PipeThreads Process) (p : Process) (point : PipePoint) :
    Option (PipeThreads Process) :=
  if threads.lock = none then some ({ threads with lock := some p }.goto p point) else none

/-- A statement that takes `ptable.lock`. -/
def locked (threads : PipeThreads Process) (next : PipeThreads Process) :
    Option (PipeThreads Process) :=
  if threads.ptable = none then some next else none

/-- The next step of a process. -/
def run (threads : PipeThreads Process) (p : Process) : Option (PipeThreads Process) :=
  match threads.point p with
  | .outside => none
  | .acquiring request => threads.acquire p (.looping request)
  | .looping (.write n []) => some (threads.goto p (.waking .nread n))
  | .looping (.write n (byte :: rest)) =>
    if threads.ring.nwrite = threads.ring.nread + UInt32.ofNat PIPESIZE then
      some (threads.goto p (.blocked (.write n (byte :: rest))))
    else
      some ({ threads with ring := threads.ring.store byte }.goto p (.looping (.write n rest)))
  | .looping (.read n) =>
    if threads.ring.nread = threads.ring.nwrite ∧ threads.ring.writeopen then
      some (threads.goto p (.blocked (.read n)))
    else some (threads.goto p (.copying n.toNat []))
  | .blocked (.write n rest) =>
    if !threads.ring.readopen ∨ threads.killed p then some (threads.goto p (.releasing (-1)))
    else some (threads.goto p (.announcing (.write n rest)))
  | .blocked (.read n) =>
    if threads.killed p then some (threads.goto p (.releasing (-1)))
    else some (threads.goto p (.dozing (.read n)))
  | .announcing request => threads.locked ((threads.wakeup .nread).goto p (.dozing request))
  | .dozing request =>
    threads.locked ({ threads with ptable := some p, lock := none }.goto p (.falling request))
  | .falling request => some ({ threads with ptable := none }.goto p (.asleep request))
  | .asleep _ => none
  | .copying 0 copied => some (threads.goto p (.waking .nwrite copied.length))
  | .copying (left + 1) copied =>
    if threads.ring.nread = threads.ring.nwrite then
      some (threads.goto p (.waking .nwrite copied.length))
    else
      some ({ threads with ring := threads.ring.advance }.goto p
        (.copying left (copied ++ [threads.ring.front])))
  | .closing writable => threads.acquire p (.shutting writable)
  | .shutting writable =>
    some ({ threads with ring := threads.ring.pipeclose writable }.goto p
      (.waking (if writable then .nread else .nwrite) 0))
  | .waking channel result => threads.locked ((threads.wakeup channel).goto p (.releasing result))
  | .releasing _ => some ({ threads with lock := none }.goto p .outside)

/-- `kill`: the flag, and a sleeping process runs again. -/
def kill (threads : PipeThreads Process) (p : Process) : PipeThreads Process :=
  { threads with
    killed := Function.update threads.killed p true
    point := Function.update threads.point p
      (match threads.point p with
      | .asleep request => .acquiring request
      | point => point) }

/-- One step. A call starts only as long as the page is there. -/
def step (threads : PipeThreads Process) : ThreadAction Process → Option (PipeThreads Process)
  | .call p request =>
    if threads.point p = .outside ∧ threads.ring.Allocated then
      some (threads.goto p (.acquiring request))
    else none
  | .close p writable =>
    if threads.point p = .outside ∧ threads.ring.Allocated then
      some (threads.goto p (.closing writable))
    else none
  | .run p => threads.run p
  | .kill p => threads.locked (threads.kill p)

end PipeThreads

end Xv6
