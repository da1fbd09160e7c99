import Xv6.Kernel.Boot

/-!
# The process table under its lock: `proc.c`

`fork`, `exit`, `wait` and `kill` as functions of the table, cut where
`ptable.lock` is not held. What they do to files, memory and current directories
is elsewhere; here a slot is its state, pid, parent, channel and `killed` flag.
-/

namespace Xv6

/-- `ptable`, with `initproc` and `nextpid`. -/
structure ProcTable where
  proc : ProcPtr → Proc
  initproc : ProcPtr
  nextpid : Nat

/-- A process that `kill` has found: it is marked, and woken if it sleeps. -/
def Proc.hit (proc : Proc) : Proc :=
  { proc with
    killed := true
    state := if proc.state = .sleeping then .runnable else proc.state }

namespace ProcTable

/-- Rewrite one slot. -/
def update (table : ProcTable) (p : ProcPtr) (change : Proc → Proc) : ProcTable :=
  { table with proc := Function.update table.proc p (change (table.proc p)) }

def setState (table : ProcTable) (p : ProcPtr) (state : ProcState) : ProcTable :=
  table.update p fun proc => { proc with state := state }

/-- The locked part of `allocproc`: the first unused slot becomes an embryo with
a new pid. -/
def allocproc (table : ProcTable) : Option (ProcPtr × ProcTable) :=
  ((List.finRange NPROC).find? fun p => (table.proc p).state = .unused).map fun p =>
    (p, { table.update p fun proc => { proc with state := .embryo, pid := table.nextpid } with
      nextpid := table.nextpid + 1 })

/-- `np->parent = curproc`, which `fork` does without the lock. -/
def adopt (table : ProcTable) (np cur : ProcPtr) : ProcTable :=
  table.update np fun proc => { proc with parent := some cur }

/-- `wakeup1`. -/
def wakeup1 (table : ProcTable) (chan : Channel) : ProcTable :=
  { table with proc := fun p => (table.proc p).wake chan }

/-- One turn of the loop of `exit` that passes abandoned children to init. -/
def exitChild (cur : ProcPtr) (table : ProcTable) (p : ProcPtr) : ProcTable :=
  if (table.proc p).parent = some cur then
    let adopted := table.adopt p table.initproc
    if (table.proc p).state = .zombie then adopted.wakeup1 (.proc table.initproc) else adopted
  else table

/-- The locked part of `exit`. -/
def exit (table : ProcTable) (cur : ProcPtr) : ProcTable :=
  let woken := match (table.proc cur).parent with
    | none => table
    | some parent => table.wakeup1 (.proc parent)
  ((List.finRange NPROC).foldl (exitChild cur) woken).setState cur .zombie

/-- The child that `wait` finds. -/
def zombieChild (table : ProcTable) (cur : ProcPtr) : Option ProcPtr :=
  (List.finRange NPROC).find? fun p =>
    (table.proc p).parent = some cur ∧ (table.proc p).state = .zombie

/-- One turn of the outer loop of `wait`: the result, if it does not sleep. -/
def wait (table : ProcTable) (cur : ProcPtr) : ProcTable × Option Int :=
  match table.zombieChild cur with
  | some p => (table.update p Proc.reaped, some (table.proc p).pid)
  | none =>
    if (∀ p, (table.proc p).parent ≠ some cur) ∨ (table.proc cur).killed then (table, some (-1))
    else
      (table.update cur fun proc =>
        { proc with chan := some (.proc cur), state := .sleeping }, none)

/-- The slot that `kill` finds: it looks at the pids only. -/
def killed (table : ProcTable) (pid : Int) : Option ProcPtr :=
  (List.finRange NPROC).find? fun p => ((table.proc p).pid : Int) = pid

/-- `kill`. -/
def kill (table : ProcTable) (pid : Int) : ProcTable × Int :=
  match table.killed pid with
  | none => (table, -1)
  | some p => (table.update p Proc.hit, 0)

end ProcTable

/-- Where a process is in its kernel code: in `fork`, with or without the new slot
adopted, in the loop of `wait`, or elsewhere. -/
inductive Stage where
  | user
  | forking (np : ProcPtr) (adopted : Bool)
  | waiting
deriving DecidableEq, Repr

/-- The table, the stages, and a record of the processes. Every tenant of a slot
is counted, from its `allocproc` on; `exited` and `returned` list the tenants that
called `exit` and those that `wait` returned. -/
structure ProcSystem where
  table : ProcTable
  stage : ProcPtr → Stage
  tenant : ProcPtr → Nat
  tenants : Nat
  exited : List Nat
  returned : List Nat

/-- The steps between which the lock is released. -/
inductive ProcAction where
  | schedule (p : ProcPtr)
  | yield (p : ProcPtr)
  | sleep (p : ProcPtr) (chan : Channel)
  | wakeup (chan : Channel)
  | fork (p : ProcPtr)
  | forkFail (p : ProcPtr)
  | forkAdopt (p : ProcPtr)
  | forkDone (p : ProcPtr)
  | exit (p : ProcPtr)
  | wait (p : ProcPtr)
  | kill (pid : Int)
deriving DecidableEq

namespace ProcSystem

variable (system : ProcSystem)

def state (p : ProcPtr) : ProcState := (system.table.proc p).state

def parent (p : ProcPtr) : Option ProcPtr := (system.table.proc p).parent

def setTable (table : ProcTable) : ProcSystem := { system with table := table }

def setStage (p : ProcPtr) (stage : Stage) : ProcSystem :=
  { system with stage := Function.update system.stage p stage }

/-- `allocproc` in `fork`: there is no slot, or a new tenant. -/
def fork (p : ProcPtr) : Option Int × ProcSystem :=
  match system.table.allocproc with
  | none => (some (-1), system)
  | some (np, table) =>
    (none,
      { system with
        table := table
        stage := Function.update (Function.update system.stage np .user) p (.forking np false)
        tenant := Function.update system.tenant np system.tenants
        tenants := system.tenants + 1 })

/-- `wait`, from its start or from where it was woken. -/
def wait (p : ProcPtr) : Option Int × ProcSystem :=
  let (table, result) := system.table.wait p
  (result,
    { system with
      table := table
      stage := Function.update system.stage p (if result = none then .waiting else .user)
      returned := system.returned ++ ((system.table.zombieChild p).map system.tenant).toList })

/-- One step of the processes, with the result of the call it ends, if any. A
process acts in its own kernel code while it is running. -/
def step : ProcAction → Option (Option Int × ProcSystem)
  | .schedule p =>
    if system.state p = .runnable then
      some (none, system.setTable (system.table.update p fun proc =>
        { proc with state := .running, chan := none }))
    else none
  | .yield p =>
    if system.state p = .running then
      some (none, system.setTable (system.table.setState p .runnable))
    else none
  | .sleep p chan =>
    if system.state p = .running then
      some (none, system.setTable (system.table.update p fun proc =>
        { proc with chan := some chan, state := .sleeping }))
    else none
  | .wakeup chan => some (none, system.setTable (system.table.wakeup1 chan))
  | .fork p =>
    if system.state p = .running ∧ system.stage p = .user then some (system.fork p) else none
  | .forkFail p =>
    match system.stage p with
    | .forking np false =>
      if system.state p = .running then
        some (some (-1), (system.setTable (system.table.setState np .unused)).setStage p .user)
      else none
    | _ => none
  | .forkAdopt p =>
    match system.stage p with
    | .forking np false =>
      if system.state p = .running then
        some (none, (system.setTable (system.table.adopt np p)).setStage p (.forking np true))
      else none
    | _ => none
  | .forkDone p =>
    match system.stage p with
    | .forking np true =>
      if system.state p = .running then
        some (some (system.table.proc np).pid,
          (system.setTable (system.table.setState np .runnable)).setStage p .user)
      else none
    | _ => none
  | .exit p =>
    if system.state p = .running ∧ system.stage p = .user ∧ p ≠ system.table.initproc then
      some (none, { system.setTable (system.table.exit p) with
        exited := system.exited ++ [system.tenant p] })
    else none
  | .wait p =>
    if system.state p = .running ∧ (system.stage p = .user ∨ system.stage p = .waiting) then
      some (system.wait p)
    else none
  | .kill pid =>
    let (table, result) := system.table.kill pid
    some (some result, system.setTable table)

/-- After `userinit`: init is there and every other slot is as it was loaded. -/
structure Booted : Prop where
  init : system.state system.table.initproc = .runnable
  unused : ∀ p, p ≠ system.table.initproc → system.state p = .unused
  parent : ∀ p, system.parent p = none
  stage : ∀ p, system.stage p = .user
  tenant : system.tenant system.table.initproc < system.tenants
  exited : system.exited = []
  returned : system.returned = []

end ProcSystem

/-- The table after `userinit`. -/
def ProcTable.userinit : ProcTable :=
  { proc := fun p => if p = 0 then { Proc.zero with state := .runnable, pid := 1 } else Proc.zero
    initproc := 0
    nextpid := 2 }

def ProcSystem.userinit : ProcSystem :=
  { table := .userinit, stage := fun _ => .user, tenant := fun _ => 0, tenants := 1,
    exited := [], returned := [] }

end Xv6
