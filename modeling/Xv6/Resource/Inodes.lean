import Xv6.Resource.Ledger

/-!
# What `fs.c` does to the ledger

Block allocation, truncation and the transfer of bytes are quiet. `iget`,
`ialloc` and `idup` take one reference, `iput` drops one, and `ilock` and
`iunlock` move one lock. A path lookup comes back with one reference to what it
found and nothing else.
-/

namespace Xv6.Resource

open Program Function

variable {hang : Bool} {ledger : Ledger} {ip : InodePtr}

/-! ## The log and the block allocator -/

theorem quiet_logWrite (blockno : Nat) : Quiet hang (logWrite blockno) := by
  refine .bind (quiet_emit rfl rfl) fun _ => .get fun kernel => ?_
  refine .ite (.panic _) (.ite (.panic _) (.ite (.pure _) ?_))
  exact .modify fun _ => rfl

theorem quiet_bzero (bno : Nat) : Quiet hang (bzero bno) :=
  .bind (quiet_setData bno fun _ _ => 0) fun _ => quiet_logWrite bno

theorem quiet_balloc : Quiet hang balloc := by
  refine .get fun kernel => ?_
  split
  · exact .panic _
  · refine .bind (quiet_setBitmap _ _) fun _ => .bind (quiet_logWrite _) fun _ => ?_
    exact .bind (quiet_bzero _) fun _ => .pure _

theorem quiet_bfree (b : Nat) : Quiet hang (bfree b) := by
  refine .get fun kernel => .ite ?_ (.panic _)
  exact .bind (quiet_setBitmap _ _) fun _ => quiet_logWrite _

theorem quiet_iupdate (ip : InodePtr) : Quiet hang (iupdate ip) := by
  refine .bind (quiet_emit rfl rfl) fun _ => .get fun kernel => ?_
  exact .bind (quiet_setDinode _ _) fun _ => quiet_logWrite _

theorem quiet_setAddr (ip : InodePtr) (slot : Fin (NDIRECT + 1)) (addr : Nat) :
    Quiet hang (setAddr ip slot addr) :=
  quiet_writeInode (fun _ => rfl) fun _ => rfl

theorem quiet_bmapSlot (ip : InodePtr) (slot : Fin (NDIRECT + 1)) :
    Quiet hang (bmapSlot ip slot) := by
  refine .bind (quiet_readInode ip) fun inode => .ite ?_ (.pure _)
  refine .bind quiet_balloc fun addr => ?_
  exact .bind (quiet_setAddr ip slot addr) fun _ => .pure _

theorem quiet_bmap (ip : InodePtr) (bn : Nat) : Quiet hang (bmap ip bn) := by
  unfold bmap
  split
  · exact quiet_bmapSlot ip _
  · refine .ite ?_ (.panic _)
    refine .bind (quiet_bmapSlot ip _) fun indirect => .get fun kernel => ?_
    refine .ite ?_ (.pure _)
    refine .bind quiet_balloc fun addr => .bind (quiet_setData _ _) fun _ => ?_
    exact .bind (quiet_logWrite _) fun _ => .pure _

theorem quiet_itruncDirect (ip : InodePtr) (slot : Fin NDIRECT) :
    Quiet hang (itruncDirect ip slot) := by
  refine .bind (quiet_readInode ip) fun inode => .when ?_
  exact .bind (quiet_bfree _) fun _ => quiet_setAddr ip _ 0

theorem quiet_itruncIndirect (ip : InodePtr) : Quiet hang (itruncIndirect ip) := by
  refine .bind (quiet_readInode ip) fun inode => .when (.get fun kernel => ?_)
  refine .bind (.forM _ fun j => .when (quiet_bfree _)) fun _ => ?_
  exact .bind (quiet_bfree _) fun _ => quiet_setAddr ip _ 0

theorem quiet_itrunc (ip : InodePtr) : Quiet hang (itrunc ip) := by
  refine .bind (.forM _ (quiet_itruncDirect ip)) fun _ => ?_
  refine .bind (quiet_itruncIndirect ip) fun _ => ?_
  exact .bind (quiet_writeInode (fun _ => rfl) fun _ => rfl) fun _ => quiet_iupdate ip

theorem quiet_ifree (ip : InodePtr) : Quiet hang (ifree ip) := by
  refine .bind (quiet_itrunc ip) fun _ => ?_
  refine .bind (quiet_writeInode (fun _ => rfl) fun _ => rfl) fun _ => ?_
  refine .bind (quiet_iupdate ip) fun _ => ?_
  exact quiet_writeInode (fun _ => rfl) fun _ => rfl

/-! ## Transactions -/

theorem tracks_beginOp : Tracks hang beginOp ledger fun _ after => after = ledger.begin_ := by
  refine .bind (tracks_emit _) fun _ after emitted => .get fun kernel _ => ?_
  refine .ite (fun _ => .throw trivial) fun _ => ?_
  refine .ite (fun _ => .throw trivial) fun _ => .modify fun kernel viewed => ?_
  change { kernel.ledger with outstanding := kernel.ledger.outstanding + 1 } = _
  rw [viewed, emitted]
  rfl

theorem tracks_endOp : Tracks hang endOp ledger fun _ after => after = ledger.end_ := by
  have counted : Tracks hang (modify fun kernel => { kernel with
      log := { kernel.log with outstanding := kernel.log.outstanding - 1 } })
      (ledger.emit .endOp) fun _ after => after = ledger.end_ := by
    refine .modify fun kernel viewed => ?_
    change { kernel.ledger with outstanding := kernel.ledger.outstanding - 1 } = _
    rw [viewed]
    rfl
  refine .bind (tracks_emit _) fun _ after emitted => ?_
  subst emitted
  refine .bind counted fun _ after ended => .get fun kernel _ => ?_
  refine .ite (fun _ => .throw trivial) fun _ => ?_
  exact .ite (fun _ => .modify fun kernel viewed => viewed.trans ended)
    fun _ => .pure ended

/-! ## References -/

/-- Rewriting one count adds to it what the new value exceeds it by. -/
theorem update_eq_add_single (refs : InodePtr → Int) (ip : InodePtr) (count : Int) :
    update refs ip count = refs + Pi.single ip (count - refs ip) := by
  funext ip'
  by_cases same : ip' = ip
  · subst same
    simp
  · simp [same]

/-- An assignment that changes the count of an inode and not its lock. -/
theorem tracks_writeInode_ref {update : Inode → Inode} (change : Int)
    (lock_eq : ∀ inode, (update inode).lock = inode.lock)
    (ref_eq : ∀ kernel : Kernel, kernel.ledger = ledger →
      (update (kernel.icache ip)).ref - (kernel.icache ip).ref = change) :
    Tracks hang (writeInode ip update) ledger fun _ after =>
      after = { ledger with refs := ledger.refs + Pi.single ip change } := by
  refine .modify fun kernel viewed => ?_
  have changed := ref_eq kernel viewed
  subst viewed
  rw [ledger_updateInode, lock_eq, update_eq_add_single, ← changed]
  exact Ledger.ext (update_eq_self ip _) rfl rfl rfl rfl rfl rfl rfl

theorem tracks_idup (ip : InodePtr) :
    Tracks hang (idup ip) ledger fun found after => found = ip ∧ after = ledger.take ip := by
  refine .bind (tracks_writeInode_ref 1 (fun _ => rfl) fun kernel _ => ?_)
    fun _ after counted => .pure ⟨rfl, counted⟩
  exact add_sub_cancel_left _ _

theorem tracks_iget (dev inum : Nat) :
    Tracks hang (iget dev inum) ledger fun ip after => after = ledger.take ip := by
  refine .get fun kernel viewed => ?_
  split
  · refine .bind (tracks_writeInode_ref 1 (fun _ => rfl) fun kernel _ => ?_)
      fun _ after counted => .pure counted
    exact add_sub_cancel_left _ _
  · split
    · exact .throw trivial
    · rename_i ip found
      have unused : (kernel.icache ip).ref = 0 := by
        simpa using List.find?_some found
      refine .bind (tracks_writeInode_ref 1 (fun _ => rfl) fun kernel' viewed' => ?_)
        fun _ after counted => .pure counted
      have same : (kernel'.icache ip).ref = (kernel.icache ip).ref :=
        congrFun (congrArg Ledger.refs (viewed'.trans viewed.symm)) ip
      change 1 - (kernel'.icache ip).ref = 1
      rw [same, unused, sub_zero]

theorem tracks_ialloc (inside : ledger.phase.Busy) (dev : Nat) (type : InodeType)
    (uid mode : UInt32) :
    Tracks hang (ialloc dev type uid mode) ledger fun ip after => after = ledger.take ip := by
  refine (quiet_emit rfl rfl).then inside fun _ => .get fun kernel _ => ?_
  split
  · exact .throw trivial
  · refine (quiet_setDinode _ _).then inside fun _ => ?_
    exact (quiet_logWrite _).then inside fun _ => tracks_iget dev _

/-! ## Locks -/

/-- A lock that is not the caller's own is free, or another process holds it. -/
theorem tracks_acquiresleep (free : hang = true ∨ ledger.Free ip) :
    Tracks hang (acquiresleep ip) ledger fun _ after =>
      ledger.locks ip = none ∧ after = ledger.lock ip := by
  refine .get fun kernel viewed => ?_
  have locks_eq : (kernel.icache ip).lock = ledger.locks ip :=
    congrFun (congrArg Ledger.locks viewed) ip
  have pid_eq : kernel.myproc.pid = ledger.pid := by
    rw [← viewed]
    rfl
  split
  · rename_i unlocked
    refine .modify fun kernel' viewed' => ⟨locks_eq.symm.trans unlocked, ?_⟩
    subst viewed'
    rw [ledger_updateInode, pid_eq]
    exact Ledger.ext rfl (update_eq_self ip _) rfl rfl rfl rfl rfl rfl
  · rename_i pid locked
    refine .ite (fun own => .throw ?_) fun _ => .throw trivial
    rcases free with allowed | free
    · exact allowed
    · exact absurd (by rw [← locks_eq, locked, own, pid_eq]) free

theorem tracks_releasesleep (ip : InodePtr) :
    Tracks hang (releasesleep ip) ledger fun _ after => after = ledger.unlock ip := by
  refine .modify fun kernel viewed => ?_
  subst viewed
  rw [ledger_updateInode]
  exact Ledger.ext rfl (update_eq_self ip _) rfl rfl rfl rfl rfl rfl

/-- An assignment to fields that the ledger does not show. -/
theorem tracks_writeInode {update : Inode → Inode}
    (lock_eq : ∀ inode, (update inode).lock = inode.lock)
    (ref_eq : ∀ inode, (update inode).ref = inode.ref) :
    Tracks hang (writeInode ip update) ledger fun _ after => after = ledger := by
  refine .mono (tracks_writeInode_ref 0 lock_eq fun kernel _ => ?_) fun _ after counted => ?_
  · rw [ref_eq, sub_self]
  · rw [counted, Pi.single_zero, add_zero]

theorem tracks_ilock {ip : InodePtr} (free : hang = true ∨ ledger.Free ip) :
    Tracks hang (ilock ip) ledger fun _ after =>
      ledger.locks ip = none ∧ after = ledger.lock ip := by
  refine .get fun kernel _ => .ite (fun _ => .throw trivial) fun _ => ?_
  refine .bind (tracks_acquiresleep free) fun _ after locked => ?_
  refine .ite (fun _ => .pure locked) fun _ => ?_
  refine .bind (tracks_writeInode (fun _ => rfl) fun _ => rfl) fun _ after same => ?_
  subst same
  exact .ite (fun _ => .throw trivial) fun _ => .pure locked

theorem tracks_iunlock (ip : InodePtr) :
    Tracks hang (iunlock ip) ledger fun _ after =>
      ledger.locks ip = some ledger.pid ∧ after = ledger.unlock ip := by
  refine .get fun kernel viewed => .ite (fun _ => .throw trivial) fun holds => ?_
  refine (tracks_releasesleep ip).mono fun _ after unlocked => ⟨?_, unlocked⟩
  have held : (kernel.icache ip).lock = some kernel.myproc.pid := by
    by_contra other
    exact holds (.inl (by simp [holdingsleep, other]))
  rw [← viewed]
  exact held

/-- A free lock that was taken and released is as before. -/
theorem released_eq {locks : InodePtr → Option Nat} (unlocked : locks ip = none)
    (owner : Option Nat) : update (update locks ip owner) ip none = locks := by
  rw [update_idem, ← unlocked, update_eq_self]

theorem unlock_lock {ip : InodePtr} (unlocked : ledger.locks ip = none) :
    (ledger.lock ip).unlock ip = ledger :=
  Ledger.ext (released_eq unlocked _) rfl rfl rfl rfl rfl rfl rfl

/-- `iput` from any phase. Outside of a transaction it brings disorder. -/
theorem tracks_iput_any {ip : InodePtr} (free : hang = true ∨ ledger.Free ip) :
    Tracks hang (iput ip) ledger fun _ after =>
      ledger.locks ip = none ∧ after = (ledger.emit .iput).drop ip := by
  refine .bind (tracks_emit _) fun _ after emitted => ?_
  subst emitted
  have inside : (ledger.emit .iput).phase.Busy := by
    change ledger.phase.next .iput ≠ .outside
    cases ledger.phase <;> decide
  refine .bind (tracks_acquiresleep (by exact free)) fun _ after locked => ?_
  obtain ⟨unlocked, rfl⟩ := locked
  refine (quiet_readInode ip).then (by exact inside) fun inode => ?_
  refine (Quiet.when (quiet_ifree ip)).then (by exact inside) fun _ => ?_
  refine Track.bind (tracks_releasesleep ip) fun _ after released => ?_
  rw [unlock_lock unlocked] at released
  subst released
  refine .mono (tracks_writeInode_ref (-1) (fun _ => rfl) fun kernel _ => ?_)
    fun _ after counted => ⟨unlocked, ?_⟩
  · exact sub_sub_cancel_left _ _
  · rw [counted, Pi.single_neg, ← sub_eq_add_neg]
    rfl

theorem tracks_iput (inside : ledger.phase.Busy) (free : hang = true ∨ ledger.Free ip) :
    Tracks hang (iput ip) ledger fun _ after =>
      ledger.locks ip = none ∧ after = ledger.drop ip := by
  refine (tracks_iput_any free).mono fun _ after put => ⟨put.1, ?_⟩
  rw [put.2, (disturbed_emit rfl rfl).of_busy inside]

/-- `iunlockput` needs no freedom: the lock is the caller's, and is released first. -/
theorem tracks_iunlockput_any (ip : InodePtr) :
    Tracks hang (iunlockput ip) ledger fun _ after =>
      ledger.locks ip = some ledger.pid ∧
        after = ((ledger.unlock ip).emit .iput).drop ip := by
  refine .bind (tracks_iunlock ip) fun _ after unlocked => ?_
  obtain ⟨held, rfl⟩ := unlocked
  have free : (ledger.unlock ip).Free ip := by simp [Ledger.Free, Ledger.unlock]
  exact .mono (tracks_iput_any (.inr free)) fun _ after put => ⟨held, put.2⟩

theorem tracks_iunlockput (inside : ledger.phase.Busy) (ip : InodePtr) :
    Tracks hang (iunlockput ip) ledger fun _ after =>
      ledger.locks ip = some ledger.pid ∧ after = (ledger.unlock ip).drop ip := by
  refine (tracks_iunlockput_any ip).mono fun _ after put => ⟨put.1, ?_⟩
  have kept : Disturbed (ledger.unlock ip) ((ledger.unlock ip).emit .iput) :=
    disturbed_emit rfl rfl
  rw [put.2, kept.of_busy inside]

end Xv6.Resource
