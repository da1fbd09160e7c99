import Xv6.Kernel.Sysfile

/-!
# The system-call table: `syscall.c`

A call is its number with its arguments fetched. A process makes one call after
another, so a sequence of calls is a sequence of processes with the calls they
make.
-/

namespace Xv6

/-- The entries of `syscalls[]` that take, hold or give back inodes. -/
inductive Syscall where
  | fork (kstack copied : Bool)
  | exit
  | wait
  | exec (memory : ExecMemory) (path : Path) (argv : List Path)
  | dup (fd : Option Int)
  | close (fd : Option Int)
  | write (fd : Option Int) (buffer : Option (List Byte))
  | fstat (fd : Option Int) (st : Bool)
  | open_ (path : Option Path) (omode : Option UInt32)
  | chdir (path : Option Path)
  | link (old new : Option Path)
  | unlink (path : Option Path)
  | mkdir (path : Option Path)
  | mknod (locals : MknodLocals) (path : Option Path) (major minor : Option Int16)
  | chmod (path : Option Path) (mode : Option UInt32)
  | chown (path : Option Path) (owner group : Option UInt32)

/-- `syscalls[num]()`. -/
def Syscall.run : Syscall → Kern Int
  | fork kstack copied => Xv6.fork kstack copied
  | exit => do
      Xv6.exit
      pure 0
  | wait => Xv6.wait
  | exec memory path argv => Xv6.exec memory path argv
  | dup fd => sysDup fd
  | close fd => sysClose fd
  | write fd buffer => sysWrite fd buffer
  | fstat fd st => do
      let stat ← sysFstat fd st
      pure (if stat.isSome then 0 else -1)
  | open_ path omode => sysOpen path omode
  | chdir path => sysChdir path
  | link old new => sysLink old new
  | unlink path => sysUnlink path
  | mkdir path => sysMkdir path
  | mknod locals path major minor => sysMknod locals path major minor
  | chmod path mode => sysChmod path mode
  | chown path owner group => sysChown path owner group

/-- `syscall`: a live process makes a call. There is a next state if it returns. -/
def Kernel.syscall (kernel : Kernel) (label : ProcPtr × Syscall) : Option Kernel :=
  if (kernel.ptable label.1).Live then
    match label.2.run (kernel.enter label.1) with
    | .ok _ next => some next
    | .error _ _ => none
  else none

theorem Kernel.syscall_eq_some {kernel next : Kernel} {label : ProcPtr × Syscall} :
    kernel.syscall label = some next ↔
      (kernel.ptable label.1).Live ∧
        ∃ result, label.2.run (kernel.enter label.1) = .ok result next := by
  unfold Kernel.syscall
  by_cases live : (kernel.ptable label.1).Live
  · rw [if_pos live]
    cases label.2.run (kernel.enter label.1) with
    | ok result after => simp [live]
    | error raised after => simp
  · simp [live]

end Xv6
