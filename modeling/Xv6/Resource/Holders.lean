import Xv6.Std.Counting
import Xv6.Kernel.Sysfile
import Xv6.Resource.Paths

/-!
# Who holds the references

An open file of an inode holds one reference to it, and so does a live process
whose current directory it is. `extra` is what the count of an inode exceeds its
holders by. `Kept` collects what no call may change for good, and the lemmas
give the effect of each change of a table on it.
-/

namespace Xv6

/-- The inode an open file reads and writes. -/
def File.inode (file : File) : Option InodePtr :=
  if file.ref = 0 then none
  else
    match file.type with
    | .inode ip _ => some ip
    | _ => none

namespace Resource

open Counting

/-- Does the file hold a reference to `ip`? -/
def fileHolds (ip : InodePtr) (file : File) : Nat := if file.inode = some ip then 1 else 0

/-- Does the process hold a reference to `ip`? -/
def procHolds (ip : InodePtr) (proc : Proc) : Nat :=
  if proc.Live ∧ proc.cwd = some ip then 1 else 0

namespace Ledger

variable (ledger : Ledger)

/-- The number of holders of an inode. -/
def holders (ip : InodePtr) : Nat :=
  total (fileHolds ip) ledger.ftable + total (procHolds ip) ledger.ptable

/-- What the reference count exceeds the holders by. -/
def extra (ip : InodePtr) : Int := ledger.refs ip - ledger.holders ip

def setFile (f : FilePtr) (file : File) : Ledger :=
  { ledger with ftable := Function.update ledger.ftable f file }

def setProc (p : ProcPtr) (proc : Proc) : Ledger :=
  { ledger with ptable := Function.update ledger.ptable p proc }

/-- The running process. -/
def me : Proc := ledger.ptable ledger.cur

end Ledger

variable {hang : Bool} {ledger after : Ledger}

theorem extra_take (ip : InodePtr) : (ledger.take ip).extra = ledger.extra + Pi.single ip 1 := by
  funext ip'
  change ledger.refs ip' + (Pi.single ip 1 : InodePtr → Int) ip' - _ = _
  rw [add_sub_right_comm]
  rfl

theorem extra_drop (ip : InodePtr) : (ledger.drop ip).extra = ledger.extra - Pi.single ip 1 := by
  funext ip'
  change ledger.refs ip' - (Pi.single ip 1 : InodePtr → Int) ip' - _ = _
  rw [sub_right_comm]
  rfl

/-- The inodes a holder holds, as a correction of the counts. -/
def heldBy : Option InodePtr → InodePtr → Int
  | none => 0
  | some ip => Pi.single ip 1

theorem fileHolds_eq (file : File) (ip : InodePtr) :
    (fileHolds ip file : Int) = heldBy file.inode ip := by
  unfold fileHolds
  cases file.inode with
  | none => simp [heldBy]
  | some held => simp [heldBy, Pi.single_apply, eq_comm]

/-- The current directory of a live process. -/
def liveCwd (proc : Proc) : Option InodePtr := if proc.Live then proc.cwd else none

theorem procHolds_eq (proc : Proc) (ip : InodePtr) :
    (procHolds ip proc : Int) = heldBy (liveCwd proc) ip := by
  unfold procHolds liveCwd
  by_cases live : proc.Live
  · cases proc.cwd with
    | none => simp [heldBy]
    | some held => simp [heldBy, live, Pi.single_apply, eq_comm]
  · simp [live, heldBy]

/-- Overwriting a file lets go of what the old one held. -/
theorem extra_setFile (f : FilePtr) (file : File) :
    (ledger.setFile f file).extra =
      ledger.extra + heldBy (ledger.ftable f).inode - heldBy file.inode := by
  funext ip
  have exchanged := total_update (fileHolds ip) ledger.ftable f file
  have old := fileHolds_eq (ledger.ftable f) ip
  have new := fileHolds_eq file ip
  simp only [Ledger.extra, Ledger.holders, Ledger.setFile, Pi.add_apply, Pi.sub_apply]
  omega

/-- Overwriting a process lets go of what the old one held. -/
theorem extra_setProc (p : ProcPtr) (proc : Proc) :
    (ledger.setProc p proc).extra =
      ledger.extra + heldBy (liveCwd (ledger.ptable p)) - heldBy (liveCwd proc) := by
  funext ip
  have exchanged := total_update (procHolds ip) ledger.ptable p proc
  have old := procHolds_eq (ledger.ptable p) ip
  have new := procHolds_eq proc ip
  simp only [Ledger.extra, Ledger.holders, Ledger.setProc, Pi.add_apply, Pi.sub_apply]
  omega

/-- What a call leaves as it found it: locks, unexplained references, the
transaction count and phase, and the identity of every process. -/
structure Kept (before after : Ledger) : Prop where
  locks : after.locks = before.locks
  extra : after.extra = before.extra
  outstanding : after.outstanding = before.outstanding
  phase : after.phase = before.phase
  cur : after.cur = before.cur
  initproc : after.initproc = before.initproc
  identity : ∀ p, (after.ptable p).toCredentials = (before.ptable p).toCredentials

theorem Kept.refl (ledger : Ledger) : Kept ledger ledger :=
  ⟨rfl, rfl, rfl, rfl, rfl, rfl, fun _ => rfl⟩

theorem Kept.trans {before middle after : Ledger} (first : Kept before middle)
    (second : Kept middle after) : Kept before after where
  locks := second.locks.trans first.locks
  extra := second.extra.trans first.extra
  outstanding := second.outstanding.trans first.outstanding
  phase := second.phase.trans first.phase
  cur := second.cur.trans first.cur
  initproc := second.initproc.trans first.initproc
  identity p := (second.identity p).trans (first.identity p)

theorem Kept.idle {before after : Ledger} (kept : Kept before after)
    (idle : before.phase.Idle) : after.phase.Idle := by
  rw [kept.phase]
  exact idle

/-- A process entry that differs in nothing a reference or a lock depends on. -/
structure Unmoved (before after : Proc) : Prop where
  identity : after.toCredentials = before.toCredentials
  pid : after.pid = before.pid
  cwd : after.cwd = before.cwd
  live : after.Live ↔ before.Live

theorem Unmoved.refl (proc : Proc) : Unmoved proc proc := ⟨rfl, rfl, rfl, Iff.rfl⟩

theorem Unmoved.trans {before middle after : Proc} (first : Unmoved before middle)
    (second : Unmoved middle after) : Unmoved before after where
  identity := second.identity.trans first.identity
  pid := second.pid.trans first.pid
  cwd := second.cwd.trans first.cwd
  live := second.live.trans first.live

theorem Unmoved.liveCwd_eq {before after : Proc} (unmoved : Unmoved before after) :
    liveCwd after = liveCwd before := by
  unfold liveCwd
  simp only [unmoved.live, unmoved.cwd]

theorem ptable_setProc_self (p : ProcPtr) (proc : Proc) :
    (ledger.setProc p proc).ptable p = proc := by
  simp [Ledger.setProc]

theorem ptable_setProc_of_ne {p p' : ProcPtr} (proc : Proc) (other : p' ≠ p) :
    (ledger.setProc p proc).ptable p' = ledger.ptable p' := by
  simp [Ledger.setProc, other]

theorem setProc_setProc (p : ProcPtr) (proc proc' : Proc) :
    (ledger.setProc p proc).setProc p proc' = ledger.setProc p proc' := by
  simp [Ledger.setProc]

/-- A change of a process that keeps its identity and what it holds is kept. -/
theorem kept_setProc {p : ProcPtr} {proc : Proc}
    (identity : proc.toCredentials = (ledger.ptable p).toCredentials)
    (holds : liveCwd proc = liveCwd (ledger.ptable p)) : Kept ledger (ledger.setProc p proc) where
  locks := rfl
  extra := by rw [extra_setProc, holds, add_sub_cancel_right]
  outstanding := rfl
  phase := rfl
  cur := rfl
  initproc := rfl
  identity p' := by
    by_cases same : p' = p
    · subst same
      rw [ptable_setProc_self]
      exact identity
    · rw [ptable_setProc_of_ne proc same]

/-- A change of a file that holds the same inode is kept. -/
theorem kept_setFile {f : FilePtr} {file : File} (same : file.inode = (ledger.ftable f).inode) :
    Kept ledger (ledger.setFile f file) where
  locks := rfl
  extra := by rw [extra_setFile, same, add_sub_cancel_right]
  outstanding := rfl
  phase := rfl
  cur := rfl
  initproc := rfl
  identity _ := rfl

/-- Every process asleep on the channel becomes runnable. -/
def Ledger.wake (ledger : Ledger) (chan : Channel) : Ledger :=
  { ledger with ptable := fun p => (ledger.ptable p).wake chan }

theorem unmoved_wake (proc : Proc) (chan : Channel) : Unmoved proc (proc.wake chan) := by
  unfold Proc.wake
  split
  · rename_i asleep
    refine ⟨rfl, rfl, rfl, ?_⟩
    simp [Proc.Live, asleep.1]
  · exact Unmoved.refl proc

theorem kept_wake (chan : Channel) : Kept ledger (ledger.wake chan) where
  locks := rfl
  extra := by
    funext ip
    have same : total (procHolds ip) (ledger.wake chan).ptable =
        total (procHolds ip) ledger.ptable := by
      refine Finset.sum_congr rfl fun p _ => Int.ofNat_inj.mp ?_
      rw [procHolds_eq, procHolds_eq]
      change heldBy (liveCwd ((ledger.ptable p).wake chan)) ip = _
      rw [(unmoved_wake _ chan).liveCwd_eq]
    simp only [Ledger.extra, Ledger.holders, same]
    rfl
  outstanding := rfl
  phase := rfl
  cur := rfl
  initproc := rfl
  identity p := (unmoved_wake _ chan).identity

end Resource

end Xv6
