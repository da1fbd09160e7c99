import Mathlib.Algebra.Group.Pi.Lemmas
import Mathlib.Tactic.Abel
import Xv6.Kernel.Fs

/-!
# Locks, references and transactions

The ledger of a kernel state is what the file-system code takes and gives back:
inode locks, inode references, and its place inside or outside of a transaction,
next to the tables of files and processes that hold references. Most of `fs.c`
leaves it alone (`Quiet`); the rest moves it by the few operations defined here.
Every specification below says which, and that the run does not hang on a lock
the process holds itself unless it was allowed to.
-/

namespace Xv6.Resource

/-- Where a call stands with respect to its transactions. `broken` is final. -/
inductive Phase where
  | outside | inside | broken
deriving DecidableEq, Repr

/-- The effect of one event: transactions open and close in turn, and the calls
that change the disk are made inside of one. -/
def Phase.next : Phase → Event → Phase
  | phase, .cprintf _ _ => phase
  | phase, .kalloc _ => phase
  | phase, .kfree _ => phase
  | .outside, .beginOp => .inside
  | .inside, .endOp => .outside
  | .inside, .iput => .inside
  | .inside, .iupdate => .inside
  | .inside, .ialloc => .inside
  | .inside, .logWrite => .inside
  | _, _ => .broken

/-- No transaction of the call is open: it is outside of them, or already in the
disorder that no event mends. -/
def Phase.Idle (phase : Phase) : Prop := phase ≠ .inside

/-- A transaction of the call is open, or it is in disorder. -/
def Phase.Busy (phase : Phase) : Prop := phase ≠ .outside

/-- The phase after a trace, whose latest event comes first. -/
def phaseOf (trace : List Event) : Phase :=
  trace.foldr (fun event phase => phase.next event) .outside

/-- The resources of a kernel state. -/
@[ext] structure Ledger where
  locks : InodePtr → Option Nat
  refs : InodePtr → Int
  ftable : FilePtr → File
  ptable : ProcPtr → Proc
  initproc : ProcPtr
  cur : ProcPtr
  outstanding : Int
  phase : Phase

end Xv6.Resource

namespace Xv6

open Resource

def Kernel.ledger (kernel : Kernel) : Ledger :=
  { locks := fun ip => (kernel.icache ip).lock, refs := fun ip => (kernel.icache ip).ref,
    ftable := kernel.ftable, ptable := kernel.ptable, initproc := kernel.initproc,
    cur := kernel.cur, outstanding := kernel.log.outstanding, phase := phaseOf kernel.trace }

end Xv6

namespace Xv6.Resource

open Program

/-- A system call starts outside of its transactions. -/
theorem enter_idle (kernel : Kernel) (p : ProcPtr) : (kernel.enter p).ledger.phase.Idle :=
  fun absurdity => nomatch absurdity

namespace Ledger

variable (ledger : Ledger)

/-- The pid of the running process. -/
def pid : Nat := (ledger.ptable ledger.cur).pid

/-- The running process does not hold the lock of `ip`. -/
def Free (ip : InodePtr) : Prop := ledger.locks ip ≠ some ledger.pid

def lock (ip : InodePtr) : Ledger :=
  { ledger with locks := Function.update ledger.locks ip (some ledger.pid) }

def unlock (ip : InodePtr) : Ledger :=
  { ledger with locks := Function.update ledger.locks ip none }

def take (ip : InodePtr) : Ledger := { ledger with refs := ledger.refs + Pi.single ip 1 }

def drop (ip : InodePtr) : Ledger := { ledger with refs := ledger.refs - Pi.single ip 1 }

def begin_ : Ledger :=
  { ledger with outstanding := ledger.outstanding + 1, phase := ledger.phase.next .beginOp }

def end_ : Ledger :=
  { ledger with outstanding := ledger.outstanding - 1, phase := ledger.phase.next .endOp }

def emit (event : Event) : Ledger := { ledger with phase := ledger.phase.next event }

end Ledger

/-- A run may end in any fault but one: it waits for a lock of its own only if
`hang` allows it. -/
def Ends (hang : Bool) : Fault → Prop
  | .deadlock _ => hang = true
  | _ => True

/-- Specifications over the ledger. -/
abbrev Tracks {Value : Type} (hang : Bool) (program : Kern Value) (before : Ledger)
    (post : Value → Ledger → Prop) : Prop :=
  Track Kernel.ledger (Ends hang) program before post

/-- The ledger is the same, unless the call was outside of its transactions and
is in disorder now. -/
def Disturbed (before after : Ledger) : Prop :=
  after = before ∨ (before.phase = .outside ∧ after = { before with phase := .broken })

/-- Code that takes and gives nothing, and is meant to run inside of a transaction. -/
def Quiet {Value : Type} (hang : Bool) (program : Kern Value) : Prop :=
  ∀ ledger, Tracks hang program ledger fun _ after => Disturbed ledger after

variable {Value Result : Type} {hang : Bool} {program : Kern Value} {ledger after : Ledger}

/-! ## Quiet programs -/

theorem Disturbed.refl (ledger : Ledger) : Disturbed ledger ledger := .inl rfl

theorem Disturbed.trans {before middle after : Ledger} (first : Disturbed before middle)
    (second : Disturbed middle after) : Disturbed before after := by
  rcases first with rfl | ⟨outside, rfl⟩
  · exact second
  · rcases second with rfl | ⟨absurdity, _⟩
    · exact .inr ⟨outside, rfl⟩
    · cases absurdity

theorem Disturbed.of_busy (disturbed : Disturbed ledger after) (inside : ledger.phase.Busy) :
    after = ledger :=
  disturbed.elim id fun broken => absurd broken.1 inside

theorem Disturbed.idle (disturbed : Disturbed ledger after) (outside : ledger.phase.Idle) :
    after.phase.Idle := by
  rcases disturbed with rfl | ⟨_, rfl⟩
  · exact outside
  · exact fun absurdity => nomatch absurdity

theorem Quiet.pure (value : Value) : Quiet hang (pure value : Kern Value) :=
  fun ledger => .pure (.refl ledger)

theorem Quiet.panic (reason : Panic) : Quiet hang (panic reason : Kern Value) :=
  fun _ => .throw trivial

theorem Quiet.bind {continuation : Value → Kern Result} (first : Quiet hang program)
    (rest : ∀ value, Quiet hang (continuation value)) :
    Quiet hang (program >>= continuation) := by
  intro ledger
  refine (first ledger).bind fun value middle disturbed => ?_
  exact (rest value middle).mono fun _ _ later => disturbed.trans later

theorem Quiet.get {continuation : Kernel → Kern Result}
    (rest : ∀ kernel, Quiet hang (continuation kernel)) :
    Quiet hang (get >>= continuation) :=
  fun ledger => .get fun kernel _ => rest kernel ledger

theorem Quiet.ite {condition : Prop} [Decidable condition] {left right : Kern Value}
    (positive : Quiet hang left) (negative : Quiet hang right) :
    Quiet hang (if condition then left else right) :=
  fun ledger => .ite (fun _ => positive ledger) fun _ => negative ledger

theorem Quiet.when {condition : Prop} [Decidable condition] {body : Kern Unit}
    (each : Quiet hang body) : Quiet hang (when condition body) :=
  .ite each (.pure ())

theorem Quiet.modify {update : Kernel → Kernel}
    (same : ∀ kernel : Kernel, (update kernel).ledger = kernel.ledger) :
    Quiet hang (modify update) :=
  fun _ => .modify fun kernel viewed => .inl ((same kernel).trans viewed)

theorem Quiet.forM {Element : Type} {body : Element → Kern PUnit} (elements : List Element)
    (each : ∀ element, Quiet hang (body element)) : Quiet hang (forM elements body) := by
  induction elements with
  | nil => exact .pure PUnit.unit
  | cons head rest ih =>
    rw [List.forM_cons]
    exact (each head).bind fun _ => ih

/-- A quiet program between two others. -/
theorem Quiet.then {continuation : Value → Kern Result} {post : Result → Ledger → Prop}
    (quiet : Quiet hang program) (inside : ledger.phase.Busy)
    (rest : ∀ value, Tracks hang (continuation value) ledger post) :
    Tracks hang (program >>= continuation) ledger post := by
  refine (quiet ledger).bind fun value after disturbed => ?_
  rw [disturbed.of_busy inside]
  exact rest value

/-- Reading an inode needs no transaction. -/
theorem tracks_readInode (ip : InodePtr) :
    Tracks hang (readInode ip) ledger fun _ after => after = ledger :=
  .get fun _ _ => .pure rfl

theorem quiet_readInode (ip : InodePtr) : Quiet hang (readInode ip) :=
  fun _ => (tracks_readInode ip).mono fun _ _ same => .inl same

/-- An assignment to an inode moves the ledger at its slot only. -/
theorem ledger_updateInode (kernel : Kernel) (ip : InodePtr) (update : Inode → Inode) :
    (kernel.updateInode ip update).ledger =
      { kernel.ledger with
        locks := Function.update kernel.ledger.locks ip (update (kernel.icache ip)).lock
        refs := Function.update kernel.ledger.refs ip (update (kernel.icache ip)).ref } := by
  refine Ledger.ext (funext fun ip' => ?_) (funext fun ip' => ?_) rfl rfl rfl rfl rfl rfl
  all_goals
    by_cases same : ip' = ip
    · subst same
      simp [Kernel.ledger, Kernel.updateInode]
    · simp [Kernel.ledger, Kernel.updateInode, same]

/-- Assignments to an inode are quiet as long as they keep its lock and count. -/
theorem quiet_writeInode {ip : InodePtr} {update : Inode → Inode}
    (lock_eq : ∀ inode, (update inode).lock = inode.lock)
    (ref_eq : ∀ inode, (update inode).ref = inode.ref) : Quiet hang (writeInode ip update) := by
  refine .modify fun kernel => ?_
  rw [ledger_updateInode, lock_eq, ref_eq]
  exact Ledger.ext (Function.update_eq_self ip _) (Function.update_eq_self ip _) rfl rfl rfl rfl
    rfl rfl

theorem quiet_setBitmap (b : Nat) (used : Bool) :
    Quiet hang (modify (·.setBitmap b used) : Kern Unit) :=
  .modify fun _ => rfl

theorem quiet_setDinode (inum : Nat) (dip : Dinode) :
    Quiet hang (modify (·.setDinode inum dip) : Kern Unit) :=
  .modify fun _ => rfl

/-- The contents of a block, possibly computed from the state. -/
theorem quiet_setData (b : Nat) (block : Kernel → Block) :
    Quiet hang (modify fun kernel => kernel.setData b (block kernel) : Kern Unit) :=
  .modify fun _ => rfl

theorem tracks_emit (event : Event) :
    Tracks hang (emit event) ledger fun _ after => after = ledger.emit event := by
  refine .modify fun kernel viewed => ?_
  subst viewed
  rfl

/-- The events a transaction is made of are quiet. -/
theorem disturbed_emit {event : Event} (inner : Phase.next .inside event = .inside)
    (outer : Phase.next .outside event = .broken) : Disturbed ledger (ledger.emit event) := by
  cases phase_eq : ledger.phase with
  | outside => exact .inr ⟨phase_eq, by rw [Ledger.emit, phase_eq, outer]⟩
  | inside => exact .inl (by rw [Ledger.emit, phase_eq, inner, ← phase_eq])
  | broken =>
    refine .inl ?_
    rw [Ledger.emit, phase_eq]
    cases event <;> exact Ledger.ext rfl rfl rfl rfl rfl rfl rfl phase_eq.symm

theorem quiet_emit {event : Event} (inner : Phase.next .inside event = .inside)
    (outer : Phase.next .outside event = .broken) : Quiet hang (emit event) :=
  fun _ => (tracks_emit event).mono fun _ _ emitted => emitted ▸ disturbed_emit inner outer

end Xv6.Resource
