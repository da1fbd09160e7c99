import Xv6.Files.Frame
import Xv6.Storage.Content

/-!
# Who may change the mode of a file

`chmod` is for root and for the owner of a file. The owner is on the disk, but
`sys_chmod` reads it from the cache entry before the inode is locked. What is there has
been read from the disk only if the entry is valid; `iget` hands out an entry that was
used for another inode with the fields of that inode still in it.
-/

namespace Xv6.Attributes

open Program Storage Transition

/-- The lookup of a call ends with `found`. -/
def Looks (kernel : Kernel) (path : Path) (found : Option InodePtr) (looked : Kernel) : Prop :=
  (do beginOp; namei path) kernel = .ok found looked

/-- The inode on the disk that a pointer stands for. -/
def stored (kernel : Kernel) (ip : InodePtr) : Dinode :=
  kernel.disk.dinode (kernel.icache ip).inum

/-- The caller is root or the owner. -/
def Entitled (caller : UInt32) (dip : Dinode) : Prop := caller = 0 ∨ dip.uid = caller

/-- The call returns `-1` and leaves the disk as its lookup did. -/
def Refuses (kernel looked : Kernel) (path : Path) (mode : UInt32) : Prop :=
  ∃ after, sysChmod (some path) (some mode) kernel = .ok (-1) after ∧ after.disk = looked.disk

/-- If the call returns, it returns `0` and has stored the mode in the inode, and nothing
else. -/
def Changes (kernel looked : Kernel) (path : Path) (mode : UInt32) (ip : InodePtr) : Prop :=
  Sat (sysChmod (some path) (some mode)) kernel (fun code after => code = 0 ∧
    after.disk = looked.disk.setDinode (looked.icache ip).inum
      { looked.store.current ip with mode := mode }) fun _ _ => True

/-- The mode is changed just when the path leads to an inode of the caller, or the caller
is root. -/
structure OwnerOnly (kernel : Kernel) (path : Path) (mode : UInt32) : Prop where
  unresolved : ∀ {looked}, Looks kernel path none looked → Refuses kernel looked path mode
  entitled : ∀ {ip looked}, Looks kernel path (some ip) looked →
    Entitled kernel.myproc.uid (stored looked ip) → Changes kernel looked path mode ip
  stranger : ∀ {ip looked}, Looks kernel path (some ip) looked →
    ¬Entitled kernel.myproc.uid (stored looked ip) → Refuses kernel looked path mode

variable {kernel looked : Kernel} {path : Path} {mode : UInt32} {ip : InodePtr}
  {found : Option InodePtr}

/-! ## What the lookup leaves -/

/-- The processes are the same, and nobody has begun to commit. -/
structure Steady (before after : Kernel) : Prop where
  ptable : after.ptable = before.ptable
  cur : after.cur = before.cur
  committing : after.log.committing = before.log.committing

theorem steady_frame : Frame Steady fun _ => True where
  refl _ := ⟨rfl, rfl, rfl⟩
  trans first second := ⟨second.ptable.trans first.ptable, second.cur.trans first.cur,
    second.committing.trans first.committing⟩
  cache _ _ _ := ⟨rfl, rfl, rfl⟩
  disk _ _ := ⟨rfl, rfl, rfl⟩
  log _ _ same := ⟨rfl, rfl, same⟩
  input _ _ := ⟨rfl, rfl, rfl⟩
  event _ _ _ := ⟨rfl, rfl, rfl⟩
  fault _ _ := trivial

/-- A transaction begins only while nobody commits. -/
theorem sat_beginOp_quiet (kernel : Kernel) :
    Sat beginOp kernel (fun _ _ => kernel.log.committing = false) fun _ _ => True := by
  unfold beginOp emit
  rw [sat_bind, sat_modify, sat_bind, sat_get, sat_ite]
  split
  · exact trivial
  · rename_i quiet
    rw [sat_ite]
    split
    · exact trivial
    · exact eq_false_of_ne_true quiet

section

variable (looks : Looks kernel path found looked)

include looks

theorem Looks.steady : Steady kernel looked :=
  (steady_frame.bind steady_frame.beginOp (fun _ => steady_frame.namei path) kernel).ok looks

theorem Looks.myproc : looked.myproc = kernel.myproc := by
  unfold Kernel.myproc
  rw [looks.steady.ptable, looks.steady.cur]

theorem Looks.quiet : looked.log.committing = false := by
  obtain ⟨_, begun, begins, _⟩ := bind_ok looks
  exact looks.steady.committing.trans ((sat_beginOp_quiet kernel).ok begins)

end

/-- What a call does once its lookup has ended. -/
def proceed (body : InodePtr → Kern Int) : Option InodePtr → Kern Int
  | none => do
      endOp
      pure (-1)
  | some ip => body ip

/-- Everything after the lookup is run where the lookup ended. -/
theorem Looks.run_eq (looks : Looks kernel path found looked) (body : InodePtr → Kern Int) :
    (do beginOp; withInode path body) kernel = proceed body found looked := by
  have split : (do beginOp; withInode path body) =
      (do beginOp; namei path) >>= proceed body := by
    rw [bind_assoc]
    rfl
  rw [split]
  change EStateM.bind _ _ kernel = _
  unfold EStateM.bind
  rw [looks]

/-! ## The two ways on -/

/-- Closing the transaction always succeeds, and does not touch the disk. -/
theorem fails_quiet (quiet : kernel.log.committing = false) :
    ∃ after, (do endOp; pure (-1) : Kern Int) kernel = .ok (-1) after ∧
      after.disk = kernel.disk := by
  have total : Sat (do endOp; pure (-1) : Kern Int) kernel
      (fun code after => code = -1 ∧ after.disk = kernel.disk) fun _ _ => False := by
    unfold endOp emit
    rw [sat_bind, sat_bind, sat_modify, sat_bind, sat_modify, sat_bind, sat_get, sat_ite]
    split
    · rename_i busy
      exact Bool.false_ne_true (quiet.symm.trans busy)
    · rw [sat_ite]
      split
      · exact ⟨rfl, rfl⟩
      · exact ⟨rfl, rfl⟩
  cases run : (do endOp; pure (-1) : Kern Int) kernel with
  | ok code after =>
    obtain ⟨rfl, disk_eq⟩ := total.ok run
    exact ⟨after, rfl, disk_eq⟩
  | error raised after => exact (total.error run).elim

/-- The inode goes to the disk as it is in the cache, and the transaction ends. -/
theorem sat_flush (kernel : Kernel) (ip : InodePtr) :
    Sat (do
      iupdate ip
      iunlock ip
      endOp
      pure 0 : Kern Int) kernel
      (fun code after => code = 0 ∧ after.disk = kernel.store.flushed ip) fun _ _ => True := by
  have tolerant : Tolerant (fun _ => True) kernel.store.outstanding := ⟨trivial, trivial, .inr trivial⟩
  refine .bind (stores_iupdate tolerant ip kernel rfl).returning fun _ updated updated_eq => ?_
  have unlocking := (@stores_iunlock (fun _ => True) _ ip (.inl trivial) updated rfl).returning
  refine .bind unlocking fun _ unlocked outcome => ?_
  refine .bind (@stores_endOp unlocked.store unlocked rfl).returning fun _ after after_eq => ?_
  refine ⟨rfl, ?_⟩
  change after.store.disk = _
  rw [after_eq, outcome.2, updated_eq]
  rfl

/-- The inode is locked, and its new mode goes to the disk with the rest of it. -/
theorem sat_changeMode (kernel : Kernel) (mode : UInt32) (ip : InodePtr) :
    Sat (do
      ilock ip
      writeInode ip fun inode => { inode with mode := mode }
      iupdate ip
      iunlock ip
      endOp
      pure 0 : Kern Int) kernel
      (fun code after => code = 0 ∧ after.disk = kernel.disk.setDinode (kernel.icache ip).inum
        { kernel.store.current ip with mode := mode }) fun _ _ => True := by
  have locking := (@stores_ilock (fun _ => True) _ ip (.inl trivial) (lockable_any _ ip) (.inl trivial) kernel rfl).returning
  refine .bind locking fun _ locked outcome => ?_
  obtain ⟨_, _, _, locked_eq⟩ := outcome
  have writing := (@stores_writeInode (fun _ => True) locked.store ip
    (fun inode => { inode with mode := mode }) locked rfl).returning
  refine .bind writing fun _ written written_eq => ?_
  refine (sat_flush written ip).weaken fun _ after flushed => ⟨flushed.1, ?_⟩
  rw [flushed.2, written_eq, locked_eq]
  unfold Store.flushed Store.load
  simp only [icache_setInode_self]
  rfl

/-- The call is refused if the entry does not have the uid of the caller in it, whoever
that uid belongs to. -/
theorem Looks.refuses (looks : Looks kernel path (some ip) looked) (user : kernel.myproc.uid ≠ 0)
    (differs : (looked.icache ip).uid ≠ kernel.myproc.uid) : Refuses kernel looked path mode := by
  obtain ⟨after, run, disk_eq⟩ := fails_quiet looks.quiet
  refine ⟨after, ?_, disk_eq⟩
  refine (looks.run_eq (chmodInode mode)).trans ?_
  change (if (looked.icache ip).uid ≠ looked.myproc.uid ∧ looked.myproc.uid ≠ 0 then _ else _ :
    Kern Int) looked = _
  rw [looks.myproc, if_pos ⟨differs, user⟩]
  exact run

/-- And it goes ahead otherwise. -/
theorem Looks.changes (looks : Looks kernel path (some ip) looked)
    (passes : kernel.myproc.uid = 0 ∨ (looked.icache ip).uid = kernel.myproc.uid) :
    Changes kernel looked path mode ip := by
  have accepted : ¬((looked.icache ip).uid ≠ kernel.myproc.uid ∧ kernel.myproc.uid ≠ 0) :=
    fun denied => passes.elim denied.2 denied.1
  have run : sysChmod (some path) (some mode) kernel = _ := looks.run_eq (chmodInode mode)
  change _ = (if (looked.icache ip).uid ≠ looked.myproc.uid ∧ looked.myproc.uid ≠ 0 then _ else _ :
    Kern Int) looked at run
  rw [looks.myproc, if_neg accepted] at run
  unfold Changes Sat
  rw [run]
  exact sat_changeMode looked mode ip

/-- A call that goes ahead is not refused. -/
theorem Changes.not_refuses (changes : Changes kernel looked path mode ip) {looked' : Kernel} :
    ¬Refuses kernel looked' path mode := by
  rintro ⟨after, run, _⟩
  have code : (-1 : Int) = 0 := (changes.ok run).1
  cases code

/-- A process of user 1000, on a disk with a file of root and one of its own. -/
def twoOwners : Kernel :=
  (Kernel.boot (.image 0o755 [(2, [102]), (3, [103])]
    [.single .file 1 0 85 0o644 0 0, .single .file 1 0 86 0o644 1000 0]
    [fun _ => 0, fun _ => 0])).updateProc 0 fun proc => { proc with uid := 1000, euid := 1000 }

end Xv6.Attributes
