import Xv6.Kernel.Fs

/-!
# The disk and the inode cache

The store is the part of the kernel that holds files: the disk, the inode cache
and the process that works on them. What the log and the trace add to it makes
no difference to what a file contains. The specifications of this module are
exact: the store after a call is a function of the one before it.
-/

namespace Xv6

open Program

@[ext] structure Store where
  sb : Superblock
  disk : Disk
  icache : InodePtr → Inode
  me : Proc
  outstanding : Int

def Kernel.store (kernel : Kernel) : Store :=
  { sb := kernel.sb, disk := kernel.disk, icache := kernel.icache, me := kernel.myproc,
    outstanding := kernel.log.outstanding }

namespace Store

variable (store : Store)

def setInode (ip : InodePtr) (inode : Inode) : Store :=
  { store with icache := Function.update store.icache ip inode }

/-- An inode as `ilock` delivers it. -/
def current (ip : InodePtr) : Dinode :=
  if (store.icache ip).valid then (store.icache ip).toDinode
  else store.disk.dinode (store.icache ip).inum

/-- Load and lock an inode. -/
def load (ip : InodePtr) : Store :=
  store.setInode ip { store.icache ip with
    toDinode := store.current ip, lock := some store.me.pid, valid := true }

def unlock (ip : InodePtr) : Store :=
  store.setInode ip { store.icache ip with lock := none }

/-- One more reference to a cached inode. -/
def take (ip : InodePtr) : Store :=
  store.setInode ip { store.icache ip with ref := (store.icache ip).ref + 1 }

/-- A cache entry for an inode that had none; its contents are still to be read. -/
def enter (ip : InodePtr) (dev inum : Nat) : Store :=
  store.setInode ip { store.icache ip with dev := dev, inum := inum, ref := 1, valid := false }

/-- The cache entry `iget` finds. -/
def cached (dev inum : Nat) : Option InodePtr :=
  (List.finRange NINODE).find? fun ip =>
    0 < (store.icache ip).ref ∧ (store.icache ip).dev = dev ∧ (store.icache ip).inum = inum

/-- The caller does not hold the lock of `ip`. -/
def Free (ip : InodePtr) : Prop := (store.icache ip).lock ≠ some store.me.pid

def setDisk (disk : Disk) : Store := { store with disk := disk }

end Store

namespace Disk

variable (disk : Disk)

def setBitmap (b : Nat) (used : Bool) : Disk :=
  { disk with bitmap := Function.update disk.bitmap b used }

def setDinode (inum : Nat) (dip : Dinode) : Disk :=
  { disk with dinode := Function.update disk.dinode inum dip }

def setData (b : Nat) (block : Block) : Disk :=
  { disk with data := Function.update disk.data b block }

end Disk

namespace Storage

/-- Specifications over the store. -/
abbrev Stores {Value : Type} (allowed : Fault → Prop) (program : Kern Value) (before : Store)
    (post : Value → Store → Prop) : Prop :=
  Track Kernel.store allowed program before post

/-- The lock of an inode is free, or the code may wait for it. -/
def Lockable (allowed : Fault → Prop) (store : Store) (ip : InodePtr) : Prop :=
  (store.icache ip).lock = none ∨ (allowed .asleep ∧ (store.Free ip ∨ allowed (.deadlock ip)))

/-- Nothing is said about how the code stops. -/
theorem lockable_any (store : Store) (ip : InodePtr) : Lockable (fun _ => True) store ip :=
  .inr ⟨trivial, .inr trivial⟩

variable {allowed : Fault → Prop} {store : Store}

/-! ## Reading and assigning -/

theorem stores_readInode (ip : InodePtr) :
    Stores allowed (readInode ip) store fun inode after =>
      inode = store.icache ip ∧ after = store := by
  refine .get fun kernel viewed => .pure ⟨?_, rfl⟩
  rw [← viewed]
  rfl

theorem stores_writeInode (ip : InodePtr) (update : Inode → Inode) :
    Stores allowed (writeInode ip update) store fun _ after =>
      after = store.setInode ip (update (store.icache ip)) := by
  refine .modify fun kernel viewed => ?_
  subst viewed
  rfl

theorem stores_emit (event : Event) :
    Stores allowed (emit event) store fun _ after => after = store :=
  .modify fun _ viewed => viewed

theorem stores_setBitmap (b : Nat) (used : Bool) :
    Stores allowed (modify (·.setBitmap b used)) store fun _ after =>
      after = store.setDisk (store.disk.setBitmap b used) := by
  refine .modify fun kernel viewed => ?_
  subst viewed
  rfl

theorem stores_setDinode (inum : Nat) (dip : Dinode) :
    Stores allowed (modify (·.setDinode inum dip)) store fun _ after =>
      after = store.setDisk (store.disk.setDinode inum dip) := by
  refine .modify fun kernel viewed => ?_
  subst viewed
  rfl

theorem stores_setData (b : Nat) (block : Kernel → Block) (contents : Store → Block)
    (same : ∀ kernel : Kernel, block kernel = contents kernel.store) :
    Stores allowed (modify fun kernel => kernel.setData b (block kernel)) store fun _ after =>
      after = store.setDisk (store.disk.setData b (contents store)) := by
  refine .modify fun kernel viewed => ?_
  subst viewed
  rw [same]
  rfl

/-! ## The inode cache -/

theorem stores_iget {dev inum : Nat}
    (full : allowed (.panic .igetNoInodes) ∨ (store.cached dev inum).isSome = true) :
    Stores allowed (iget dev inum) store fun ip after =>
      (store.cached dev inum = some ip ∧ after = store.take ip) ∨
        (store.cached dev inum = none ∧ (store.icache ip).ref = 0 ∧
          after = store.enter ip dev inum) := by
  refine .get fun kernel viewed => ?_
  subst viewed
  split
  · rename_i ip found
    exact .bind (stores_writeInode ip _) fun _ after taken =>
      .pure (.inl ⟨found, taken⟩)
  · rename_i absent
    split
    · refine .throw (full.resolve_right fun present => ?_)
      exact absurd present (by rw [show kernel.store.cached dev inum = none from absent]; simp)
    · rename_i ip found
      have unused : (kernel.icache ip).ref = 0 := by simpa using List.find?_some found
      exact .bind (stores_writeInode ip _) fun _ after entered =>
        .pure (.inr ⟨absent, unused, entered⟩)

theorem stores_idup (ip : InodePtr) :
    Stores allowed (idup ip) store fun found after => found = ip ∧ after = store.take ip :=
  .bind (stores_writeInode ip _) fun _ _ taken => .pure ⟨rfl, taken⟩

theorem stores_acquiresleep {ip : InodePtr} (free : Lockable allowed store ip) :
    Stores allowed (acquiresleep ip) store fun _ after =>
      (store.icache ip).lock = none ∧
        after = store.setInode ip { store.icache ip with lock := some store.me.pid } := by
  refine .get fun kernel viewed => ?_
  subst viewed
  cases owner : (kernel.icache ip).lock with
  | none => exact .mono (stores_writeInode ip _) fun _ after locked => ⟨owner, locked⟩
  | some pid =>
    rcases free with unlocked | ⟨waits, other⟩
    · exact absurd (owner.symm.trans unlocked) (by simp)
    · refine .ite (fun own => .throw ?_) fun _ => .throw waits
      rw [own] at owner
      exact other.resolve_left fun notMine => notMine owner

theorem setInode_setInode (ip : InodePtr) (inode inode' : Inode) :
    (store.setInode ip inode).setInode ip inode' = store.setInode ip inode' := by
  simp [Store.setInode]

@[simp] theorem icache_setInode_self (ip : InodePtr) (inode : Inode) :
    (store.setInode ip inode).icache ip = inode := by
  simp [Store.setInode]

theorem icache_setInode_of_ne {ip ip' : InodePtr} (inode : Inode) (other : ip' ≠ ip) :
    (store.setInode ip inode).icache ip' = store.icache ip' := by
  simp [Store.setInode, other]

/-- `ilock` delivers an inode that is in use. -/
theorem stores_ilock {ip : InodePtr} (held : allowed (.panic .ilock) ∨ 1 ≤ (store.icache ip).ref)
    (free : Lockable allowed store ip)
    (live : allowed (.panic .ilockNoType) ∨ ((store.icache ip).valid = false →
      (store.disk.dinode (store.icache ip).inum).type ≠ .free)) :
    Stores allowed (ilock ip) store fun _ after =>
      1 ≤ (store.icache ip).ref ∧ (store.icache ip).lock = none ∧
        ((store.icache ip).valid = false → (store.current ip).type ≠ .free) ∧
        after = store.load ip := by
  refine .get fun kernel viewed => ?_
  subst viewed
  refine .ite (fun few => .throw (held.resolve_right (not_le.mpr few))) fun counted => ?_
  have counted' : 1 ≤ (kernel.store.icache ip).ref := not_lt.mp counted
  refine .bind (stores_acquiresleep free) fun _ after locked => ?_
  obtain ⟨unlocked, rfl⟩ := locked
  refine .ite (fun valid => .pure ?_) fun invalid => ?_
  · have valid' : (kernel.store.icache ip).valid = true := valid
    refine ⟨counted', unlocked, fun absurdity => ?_, ?_⟩
    · rw [valid'] at absurdity
      cases absurdity
    · simp [Store.load, Store.current, valid']
  · have invalid' : (kernel.store.icache ip).valid = false := eq_false_of_ne_true invalid
    refine .bind (stores_writeInode ip _) fun _ after loaded => ?_
    rw [setInode_setInode] at loaded
    have current_eq : kernel.store.current ip =
        kernel.disk.dinode (kernel.icache ip).inum := by
      simp [Store.current, invalid']
      rfl
    refine .ite (fun typeless => .throw ?_) fun used => .pure ?_
    · exact live.resolve_right fun used => used invalid' typeless
    refine ⟨counted', unlocked, fun _ => by rw [current_eq]; exact used, ?_⟩
    rw [loaded, Store.load, current_eq]
    simp

theorem stores_iunlock (ip : InodePtr) (own : allowed (.panic .iunlock) ∨
      ((store.icache ip).lock = some store.me.pid ∧ 1 ≤ (store.icache ip).ref)) :
    Stores allowed (iunlock ip) store fun _ after =>
      (store.icache ip).lock = some store.me.pid ∧ after = store.unlock ip := by
  refine .get fun kernel viewed => ?_
  subst viewed
  refine .ite (fun stranger => .throw (own.resolve_right fun own => ?_)) fun holds => ?_
  · rcases stranger with unheld | few
    · simp only [holdingsleep, Bool.not_eq_true', decide_eq_false_iff_not] at unheld
      exact unheld own.1
    · exact absurd own.2 (not_le.mpr few)
  refine .mono (stores_writeInode ip _) fun _ after released => ⟨?_, released⟩
  by_contra other
  refine holds (.inl ?_)
  simp only [holdingsleep, Bool.not_eq_true', decide_eq_false_iff_not]
  exact other

end Storage

end Xv6
