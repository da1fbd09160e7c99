import Xv6.Kernel.Bio

/-!
# The disk driver step by step: `ide.c` with `sleep`, `wakeup` and `kill` of `proc.c`

Processes in `iderw`, the interrupt handler and the disk interleave between any two
statements. The locks `idelock` and `ptable.lock` are modelled; a step that has to wait for one
of them is not enabled while another holds it. The queue is the list that `idequeue` and
`qnext` make. The disk finishes its command at any moment and raises one interrupt for it;
`idewait` finds it ready and without an error.
-/

namespace Xv6

variable {Process Data : Type}

/-- The disk and block of a buffer: `idestart` takes the last bit of the device. -/
def Buf.place (buf : Buf Process Data) : Nat × Nat := (buf.dev % 2, buf.blockno)

/-- `B_VALID` is set and `B_DIRTY` is not. -/
def Buf.done (buf : Buf Process Data) : Bool := buf.valid && !buf.dirty

/-- What the registers tell the disk to do. -/
inductive IdeCommand (Data : Type) where
  | read (place : Nat × Nat)
  | write (place : Nat × Nat) (data : Data)
deriving DecidableEq, Repr

/-- The command for a buffer. -/
def Buf.command (buf : Buf Process Data) : IdeCommand Data :=
  if buf.dirty then .write buf.place buf.data else .read buf.place

/-- What the disk is doing. A command that is finished leaves its data for `insl`. -/
inductive IdeDrive (Data : Type) where
  | idle
  | busy (command : IdeCommand Data)
  | finished (command : IdeCommand Data) (sector : Data)
deriving DecidableEq, Repr

/-- Where a process is in `iderw`. -/
inductive IdePoint where
  | outside
  /-- At `acquire(&idelock)`. -/
  | acquiring (b : BufPtr)
  /-- At the loop to the end of the queue. -/
  | appending (b : BufPtr)
  /-- At the test for `idestart`. -/
  | starting (b : BufPtr)
  /-- At the test of the flags. -/
  | waiting (b : BufPtr)
  /-- At the start of `sleep`. -/
  | dozing (b : BufPtr)
  /-- In `sleep`, with `ptable.lock` held and `idelock` released. -/
  | falling (b : BufPtr)
  /-- `SLEEPING`, until `wakeup1` or `kill` makes it `RUNNABLE`. -/
  | asleep (b : BufPtr)
  /-- At the end of `sleep`, where it acquires `idelock` again. -/
  | waking (b : BufPtr)
  /-- At `release(&idelock)`. -/
  | releasing (b : BufPtr)
deriving DecidableEq, Repr

namespace IdePoint

/-- The buffer of the call. -/
def buffer : IdePoint → Option BufPtr
  | outside => none
  | acquiring b | appending b | starting b | waiting b | dozing b | falling b | asleep b | waking b
  | releasing b => some b

/-- The buffer of the call, if it has been appended to the queue. -/
def appended : IdePoint → Option BufPtr
  | outside | acquiring _ | appending _ => none
  | starting b | waiting b | dozing b | falling b | asleep b | waking b | releasing b => some b

/-- Does a process hold `idelock` there? -/
def holds : IdePoint → Bool
  | appending _ | starting _ | waiting _ | dozing _ | releasing _ => true
  | _ => false

/-- Does a process hold `ptable.lock` there? -/
def falls : IdePoint → Bool
  | falling _ => true
  | _ => false

end IdePoint

/-- Where the interrupt handler is in `ideintr`. -/
inductive IntrPoint where
  | idle
  /-- At `acquire(&idelock)`. -/
  | acquiring
  /-- At the first buffer of the queue. -/
  | popping
  /-- At the test for `insl`. -/
  | reading (b : BufPtr)
  /-- At the assignments to the flags. -/
  | marking (b : BufPtr)
  /-- At `wakeup`. -/
  | waking (b : BufPtr)
  /-- At the test for `idestart`. -/
  | starting
  /-- At `release(&idelock)`. -/
  | releasing
deriving DecidableEq, Repr

namespace IntrPoint

/-- The buffer that is off the queue but not marked. -/
def current : IntrPoint → Option BufPtr
  | reading b | marking b => some b
  | _ => none

/-- Does the handler hold `idelock` there? -/
def holds : IntrPoint → Bool
  | idle | acquiring => false
  | _ => true

end IntrPoint

/-- Who holds `idelock`. -/
inductive IdeHolder (Process : Type) where
  | process (p : Process)
  | handler
deriving DecidableEq, Repr

/-- The driver, the disk below it and the processes above it. The last three fields are a record
of what happened: the buffers in the order in which they were appended to the queue, given
to `idestart`, and marked by the handler. -/
structure Ide (Process Data : Type) where
  buf : BufPtr → Buf Process Data
  disk : Nat × Nat → Data
  queue : List BufPtr
  drive : IdeDrive Data
  irq : Bool
  lock : Option (IdeHolder Process)
  ptable : Option Process
  point : Process → IdePoint
  intr : IntrPoint
  panicked : Bool
  arrived : List BufPtr
  started : List BufPtr
  completed : List BufPtr

/-- What happens next. -/
inductive IdeAction (Process Data : Type) where
  /-- Other code writes to a buffer. -/
  | modify (b : BufPtr) (buf : Buf Process Data)
  /-- A process calls `iderw`. -/
  | call (p : Process) (b : BufPtr)
  /-- A process takes the next step of its call. -/
  | run (p : Process)
  /-- Some process kills this one. -/
  | kill (p : Process)
  /-- The disk finishes its command. -/
  | finish
  /-- The interrupt is taken. -/
  | interrupt
  /-- The interrupt handler takes its next step. -/
  | handle

namespace Ide

/-- Nobody is in `iderw`, and the disk has nothing to do. -/
def start (buf : BufPtr → Buf Process Data) (disk : Nat × Nat → Data) : Ide Process Data :=
  { buf := buf, disk := disk, queue := [], drive := .idle, irq := false, lock := none, ptable := none
    point := fun _ => .outside, intr := .idle, panicked := false, arrived := [], started := [],
    completed := [] }

def setBuf (ide : Ide Process Data) (b : BufPtr) (buf : Buf Process Data) : Ide Process Data :=
  { ide with buf := Function.update ide.buf b buf }

/-- `idestart` of a buffer, and what comes after it. -/
def idestart (ide : Ide Process Data) (b : BufPtr) (after : Ide Process Data → Ide Process Data) :
    Ide Process Data :=
  if FSSIZE ≤ (ide.buf b).blockno then { ide with panicked := true }
  else after { ide with drive := .busy (ide.buf b).command, started := ide.started ++ [b] }

/-- `wakeup1`: a process that sleeps on the buffer is at the end of `sleep`. -/
def wakeup (ide : Ide Process Data) (b : BufPtr) : Ide Process Data :=
  { ide with
    point := fun q =>
      match ide.point q with
      | .asleep c => if c = b then .waking c else .asleep c
      | point => point }

/-- The disk finishes its command and raises its interrupt. -/
def finish (ide : Ide Process Data) : Option (Ide Process Data) :=
  match ide.drive with
  | .busy (.read place) =>
    some { ide with drive := .finished (.read place) (ide.disk place), irq := true }
  | .busy (.write place data) =>
    some { ide with
      disk := Function.update ide.disk place data
      drive := .finished (.write place data) data
      irq := true }
  | _ => none

/-- The next step of the interrupt handler. -/
def handle (ide : Ide Process Data) : Option (Ide Process Data) :=
  match ide.intr with
  | .idle => none
  | .acquiring =>
    if ide.lock.isNone then some { ide with lock := some .handler, intr := .popping } else none
  | .popping =>
    match ide.queue with
    | [] => some { ide with intr := .releasing }
    | b :: rest => some { ide with queue := rest, intr := .reading b }
  | .reading b =>
    let buf := ide.buf b
    let data := match ide.drive with
      | .finished _ sector => if buf.dirty then buf.data else sector
      | _ => buf.data
    some { ide.setBuf b { buf with data := data } with drive := .idle, intr := .marking b }
  | .marking b =>
    some { ide.setBuf b { ide.buf b with valid := true, dirty := false } with
      intr := .waking b, completed := ide.completed ++ [b] }
  | .waking b =>
    if ide.ptable.isNone then some { ide.wakeup b with intr := .starting } else none
  | .starting =>
    match ide.queue with
    | [] => some { ide with intr := .releasing }
    | b :: _ => some (ide.idestart b fun ide => { ide with intr := .releasing })
  | .releasing => some { ide with lock := none, intr := .idle }

variable [DecidableEq Process]

/-- The process continues at a point. -/
def goto (ide : Ide Process Data) (p : Process) (point : IdePoint) : Ide Process Data :=
  { ide with point := Function.update ide.point p point }

/-- The start of `iderw`, up to the lock. -/
def call (havedisk1 : Bool) (ide : Ide Process Data) (p : Process) (b : BufPtr) : Ide Process Data :=
  if (ide.buf b).lock ≠ some p ∨ (ide.buf b).done ∨ ((ide.buf b).dev ≠ 0 ∧ havedisk1 = false) then
    { ide with panicked := true }
  else ide.goto p (.acquiring b)

/-- The next step of a process. -/
def run (ide : Ide Process Data) (p : Process) : Option (Ide Process Data) :=
  match ide.point p with
  | .outside => none
  | .acquiring b =>
    if ide.lock.isNone then some ({ ide with lock := some (.process p) }.goto p (.appending b))
    else none
  | .appending b =>
    some ({ ide with queue := ide.queue ++ [b], arrived := ide.arrived ++ [b] }.goto p (.starting b))
  | .starting b =>
    some (if ide.queue.head? = some b then ide.idestart b fun ide => ide.goto p (.waiting b)
      else ide.goto p (.waiting b))
  | .waiting b => some (ide.goto p (if (ide.buf b).done then .releasing b else .dozing b))
  | .dozing b =>
    if ide.ptable.isNone then
      some ({ ide with ptable := some p, lock := none }.goto p (.falling b))
    else none
  | .falling b => some ({ ide with ptable := none }.goto p (.asleep b))
  | .asleep _ => none
  | .waking b =>
    if ide.lock.isNone then some ({ ide with lock := some (.process p) }.goto p (.waiting b))
    else none
  | .releasing _ => some ({ ide with lock := none }.goto p .outside)

/-- `kill`, of a process that may sleep. -/
def kill (ide : Ide Process Data) (p : Process) : Option (Ide Process Data) :=
  if ide.ptable.isNone then
    match ide.point p with
    | .asleep b => some (ide.goto p (.waking b))
    | _ => some ide
  else none

/-- One step; there is none after a panic. -/
def step (havedisk1 : Bool) (ide : Ide Process Data) (action : IdeAction Process Data) :
    Option (Ide Process Data) :=
  if ide.panicked then none
  else
    match action with
    | .modify b buf => some (ide.setBuf b buf)
    | .call p b => if ide.point p = .outside then some (ide.call havedisk1 p b) else none
    | .run p => ide.run p
    | .kill p => ide.kill p
    | .finish => ide.finish
    | .interrupt =>
      if ide.irq ∧ ide.intr = .idle then some { ide with irq := false, intr := .acquiring } else none
    | .handle => ide.handle

/-- What the rest of the kernel does: it writes to no buffer that a process is in `iderw` with, and
as `bio.c` has one buffer for a block, no two processes are there with the same block. -/
def Allowed (ide : Ide Process Data) : IdeAction Process Data → Prop
  | .modify b _ => ∀ q, (ide.point q).buffer ≠ some b
  | .call _ b => ∀ q c, (ide.point q).buffer = some c → c ≠ b → (ide.buf c).place ≠ (ide.buf b).place
  | _ => True

end Ide

end Xv6
