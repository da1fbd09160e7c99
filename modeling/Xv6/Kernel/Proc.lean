import Xv6.Kernel.File

/-!
# Processes: `fork`, `exit` and `wait` of `proc.c`, and the identity calls

Whether a page can be allocated is a parameter of `fork`: `kstack` for the
kernel stack in `allocproc` and `copied` for the user memory. The user memory
itself is not part of the state.
-/

namespace Xv6

open Program (when)

/-- Rewrite the entry of the calling process. -/
def writeMyproc (update : Proc → Proc) : Kern Unit :=
  modify fun kernel => kernel.updateProc kernel.cur update

/-- `allocproc`. -/
def allocproc (kstack : Bool) : Kern (Option ProcPtr) := do
  let kernel ← get
  match (List.finRange NPROC).find? fun p => (kernel.ptable p).state = .unused with
  | none => pure none
  | some p => do
      modify (·.updateProc p fun proc => { proc with state := .embryo, pid := kernel.nextpid })
      modify fun kernel => { kernel with nextpid := kernel.nextpid + 1 }
      if kstack then pure (some p)
      else do
        modify (·.updateProc p fun proc => { proc with state := .unused })
        pure none

/-- One turn of the loop of `fork` over the open files. -/
def forkFile (np : ProcPtr) (fd : Fin NOFILE) : Kern Unit := do
  match (← get).myproc.ofile fd with
  | none => pure ()
  | some f => do
      let f ← filedup f
      modify (·.updateProc np fun proc => { proc with ofile := Function.update proc.ofile fd (some f) })

/-- `fork`. The uid, the euid and the gids of the new process are not assigned. -/
def fork (kstack copied : Bool) : Kern Int := do
  match ← allocproc kstack with
  | none => pure (-1)
  | some np =>
    if copied then do
      modify fun kernel => kernel.updateProc np fun proc => { proc with parent := some kernel.cur }
      forM (List.finRange NOFILE) (forkFile np)
      match (← get).myproc.cwd with
      | none => throw .wild
      | some cwd => do
          let cwd ← idup cwd
          modify (·.updateProc np fun proc => { proc with cwd := some cwd })
          modify (·.updateProc np fun proc => { proc with state := .runnable })
          pure ((← get).ptable np).pid
    else do
      modify (·.updateProc np fun proc => { proc with state := .unused })
      pure (-1)

/-- One turn of the loop of `exit` over the open files. -/
def exitFile (fd : Fin NOFILE) : Kern Unit := do
  match (← get).myproc.ofile fd with
  | none => pure ()
  | some f => do
      fileclose f
      writeMyproc fun proc => { proc with ofile := Function.update proc.ofile fd none }

/-- One turn of the loop of `exit` that passes abandoned children to init. -/
def exitChild (p : ProcPtr) : Kern Unit := do
  let kernel ← get
  when ((kernel.ptable p).parent = some kernel.cur) do
    modify (·.updateProc p fun proc => { proc with parent := some kernel.initproc })
    when ((kernel.ptable p).state = .zombie) (wakeup (.proc kernel.initproc))

/-- Wake the parent that may be sleeping in `wait`. -/
def wakeParent : Kern Unit := do
  match (← get).myproc.parent with
  | none => pure ()
  | some parent => wakeup (.proc parent)

/-- `exit`, up to the call of the scheduler that never comes back. -/
def exit : Kern Unit := do
  let kernel ← get
  if kernel.cur = kernel.initproc then panic .initExiting
  else do
    forM (List.finRange NOFILE) exitFile
    beginOp
    match (← get).myproc.cwd with
    | none => throw .wild
    | some cwd => do
        iput cwd
        endOp
        writeMyproc fun proc => { proc with cwd := none }
        wakeParent
        forM (List.finRange NPROC) exitChild
        writeMyproc fun proc => { proc with state := .zombie }

/-- The slot of a child that `wait` has found dead. -/
def Proc.reaped (proc : Proc) : Proc :=
  { proc with pid := 0, parent := none, killed := false, state := .unused }

/-- `wait`. -/
def wait : Kern Int := do
  let kernel ← get
  match (List.finRange NPROC).find? fun p =>
      (kernel.ptable p).parent = some kernel.cur ∧ (kernel.ptable p).state = .zombie with
  | some p => do
      modify (·.updateProc p Proc.reaped)
      pure (kernel.ptable p).pid
  | none =>
    if (∀ p, (kernel.ptable p).parent ≠ some kernel.cur) ∨ kernel.myproc.killed then pure (-1)
    else throw .asleep

/-- `sys_setuid`. It does not look at what `argint` returns, and falls off its
end without a `return`, so `eax` is the value the caller sees. -/
def sysSetuid (uid : UInt32) (eax : Int) : Kern Int := do
  let kernel ← get
  if kernel.myproc.uid ≠ 0 then pure (-1)
  else do
    writeMyproc fun proc => { proc with uid := uid }
    writeMyproc fun proc => { proc with euid := uid }
    pure eax

/-- One turn of the first loop of `sys_setgroups`. The user array need not be
mapped, and `gids` is the last field of `struct proc`. -/
def setgroupsCopy (rgids : Nat → Option UInt32) (i : Nat) : Kern Unit :=
  match rgids i with
  | none => throw .wild
  | some gid =>
    if bound : i < 32 then
      writeMyproc fun proc => { proc with gids := Function.update proc.gids ⟨i, bound⟩ gid }
    else throw .wild

/-- One turn of the second loop of `sys_setgroups`. -/
def setgroupsFill (j : Fin 32) : Kern Unit :=
  writeMyproc fun proc => { proc with gids := Function.update proc.gids j 0xffffffff }

/-- `sys_setgroups`. `argptr` checks two words of the array. -/
def sysSetgroups (ngroups : Option Int) (rgids : Option (Nat → Option UInt32)) : Kern Int := do
  let kernel ← get
  if kernel.myproc.uid ≠ 0 then pure (-1)
  else
    match ngroups, rgids with
    | some ngroups, some rgids => do
        forM (List.range ngroups.toNat) (setgroupsCopy rgids)
        forM ((List.finRange 32).filter (ngroups.toNat ≤ ·.val)) setgroupsFill
        pure 0
    | _, _ => pure (-1)

end Xv6
