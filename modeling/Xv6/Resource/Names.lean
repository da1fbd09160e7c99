import Xv6.Resource.Calls

/-!
# What the calls that change names do to the ledger

`link`, `unlink` and `create` hold up to two inode locks at a time. A run of one
of them that returns has given all of them back, except that `create` returns
its inode locked. Whether such a run can hang on a lock of its own is not decided
here: these specifications allow it.
-/

namespace Xv6.Resource

open Function

variable {hang : Bool} {ledger after : Ledger}

/-- A second inode that could be locked is not the first. -/
theorem ne_of_second {dp ip : InodePtr} (second : (ledger.lock dp).locks ip = none) : ip ≠ dp := by
  rintro rfl
  simp [Ledger.lock] at second

/-- Of two inodes taken and locked in turn, the first is given back. -/
theorem giveBack_first {dp ip : InodePtr} (first : ledger.locks dp = none)
    (second : ((ledger.take dp).lock dp).locks ip = none) :
    (((((ledger.take dp).lock dp).take ip).lock ip).unlock dp).drop dp =
      (ledger.take ip).lock ip := by
  have different := ne_of_second second
  refine Ledger.ext ?_ ?_ rfl rfl rfl rfl rfl rfl
  · change update (update (update ledger.locks dp _) ip _) dp none =
      update ledger.locks ip _
    rw [Function.update_comm different, released_eq first]
    rfl
  · change ledger.refs + Pi.single dp 1 + Pi.single ip 1 - Pi.single dp 1 =
      ledger.refs + Pi.single ip 1
    rw [add_right_comm, add_sub_cancel_right]

/-! ## Link -/

theorem tracks_linkBad (outside : ledger.phase.Idle)
    (free : hang = true ∨ ∀ ip, ledger.Free ip) (ip : InodePtr) :
    Tracks hang (linkBad ip) (ledger.take ip).begin_ fun _ after => after = ledger := by
  refine .bind (tracks_ilock_found free ip) fun _ after locked => ?_
  obtain ⟨unlocked, rfl⟩ := locked
  refine tracks_writeBack (begin_inside outside) (fun _ => rfl) (fun _ => rfl) ?_
  exact .mono (tracks_giveBack outside unlocked _) fun _ after given => given.2

theorem tracks_linkName (outside : ledger.phase.Idle) (ip : InodePtr) (new : Path) :
    Tracks true (linkName ip new) (ledger.take ip).begin_ fun _ after => after = ledger := by
  have bad := tracks_linkBad outside (.inl (Eq.refl true)) ip
  refine .bind (tracks_nameiparent (by exact begin_inside outside) (.inl rfl) new)
    fun entry after looked => ?_
  subst looked
  cases entry with
  | none => exact bad
  | some entry =>
    obtain ⟨dp, name⟩ := entry
    refine .bind (tracks_ilock (.inl rfl)) fun _ after locked => ?_
    obtain ⟨unlocked, rfl⟩ := locked
    have leave := @move_on (ledger.take ip).begin_ dp unlocked none
    refine .get fun kernel _ => .ite (fun _ => ?_) fun _ => ?_
    · refine .bind (tracks_iunlockput (by exact begin_inside outside) dp)
        fun _ after put => ?_
      rw [put.2.trans leave]
      exact bad
    · refine Quiet.then (quiet_dirlink dp name _) (by exact begin_inside outside) fun linked => ?_
      refine .ite (fun _ => ?_) fun _ => ?_
      · refine .bind (tracks_iunlockput (by exact begin_inside outside) dp)
          fun _ after put => ?_
        rw [put.2.trans leave]
        refine .bind (tracks_iput (by exact begin_inside outside) (.inl rfl))
          fun _ after dropped => ?_
        have dropped_eq : after = ledger.begin_ := dropped.2.trans (@drop_take ledger.begin_ ip)
        subst dropped_eq
        exact .mono (tracks_end_ outside _) fun _ after ended => ended.2
      · refine .bind (tracks_iunlockput (by exact begin_inside outside) dp)
          fun _ after put => ?_
        rw [put.2.trans leave]
        exact bad

theorem tracks_linkInode (outside : ledger.phase.Idle) (new : Path) (ip : InodePtr) :
    Tracks true (linkInode new ip) (ledger.take ip).begin_ fun _ after => after = ledger := by
  refine .bind (tracks_ilock_found (.inl rfl) ip) fun _ after locked => ?_
  obtain ⟨unlocked, rfl⟩ := locked
  refine Quiet.then (quiet_readInode ip) (begin_inside outside) fun inode => ?_
  refine .ite (fun _ => ?_) fun _ => ?_
  · exact .mono (tracks_giveBack outside unlocked _) fun _ after given => given.2
  · refine tracks_writeBack (begin_inside outside) (fun _ => rfl) (fun _ => rfl) ?_
    refine .bind (tracks_iunlock ip) fun _ after released => ?_
    have released_eq : after = (ledger.take ip).begin_ :=
      released.2.trans (@unlock_lock (ledger.take ip).begin_ ip unlocked)
    subst released_eq
    exact tracks_linkName outside ip new

theorem tracks_sysLink (outside : ledger.phase.Idle) (old new : Option Path) :
    Tracks true (sysLink old new) ledger fun _ after => after = ledger := by
  cases old with
  | none => exact .pure rfl
  | some old =>
    cases new with
    | none => exact .pure rfl
    | some new =>
      refine .bind tracks_beginOp fun _ after begun => ?_
      subst begun
      exact tracks_withInode outside (.inl rfl) old rfl fun ip =>
        tracks_linkInode outside new ip

/-! ## Unlink -/

theorem quiet_isdirempty (dp : InodePtr) : Quiet hang (isdirempty dp) := by
  refine .bind (quiet_readInode dp) fun inode => ?_
  induction (direntOffsets inode.size).drop 2 with
  | nil => exact .pure _
  | cons off rest ih =>
    refine .bind (quiet_readDirent dp off _) fun de => ?_
    exact .ite (.pure _) ih

theorem tracks_unlinkEntry (outside : ledger.phase.Idle) {dp ip : InodePtr}
    (first : ledger.locks dp = none) (second : ((ledger.take dp).lock dp).locks ip = none)
    (off : Nat) :
    Tracks hang (unlinkEntry dp ip off) ((((ledger.take dp).lock dp).take ip).lock ip).begin_
      fun _ after => after = ledger := by
  have unlocked : ledger.locks ip = none := by
    have other := ne_of_second second
    simpa [Ledger.lock, Ledger.take, other] using second
  refine Quiet.then (quiet_writei dp _ _ _) (begin_inside outside) fun written => ?_
  refine .ite (fun _ => .throw trivial) fun _ => ?_
  refine Quiet.then (quiet_readInode ip) (by exact begin_inside outside) fun inode => ?_
  refine Quiet.then (Quiet.when (Quiet.bind (quiet_writeInode (fun _ => rfl) fun _ => rfl)
    fun _ => quiet_iupdate dp)) (by exact begin_inside outside) fun _ => ?_
  refine .bind (tracks_iunlockput (by exact begin_inside outside) dp) fun _ after put => ?_
  rw [put.2.trans (@giveBack_first ledger.begin_ dp ip first second)]
  refine tracks_writeBack (begin_inside outside) (fun _ => rfl) (fun _ => rfl) ?_
  exact .mono (tracks_giveBack outside unlocked _) fun _ after given => given.2

theorem tracks_unlinkBad (outside : ledger.phase.Idle) {dp : InodePtr}
    (first : ledger.locks dp = none) :
    Tracks hang (unlinkBad dp) ((ledger.take dp).lock dp).begin_ fun _ after => after = ledger :=
  .mono (tracks_giveBack outside first _) fun _ _ given => given.2

/-- The entry's inode must not be the directory itself, whose lock is held. -/
theorem tracks_unlinkFound (outside : ledger.phase.Idle) {dp ip : InodePtr}
    (first : ledger.locks dp = none)
    (free : hang = true ∨ ((ledger.take dp).lock dp).Free ip) (off : Nat) :
    Tracks hang (unlinkFound dp ip off) (((ledger.take dp).lock dp).take ip).begin_
      fun _ after => after = ledger := by
  refine .bind (tracks_ilock free) fun _ after locked => ?_
  obtain ⟨second, rfl⟩ := locked
  have entry := @tracks_unlinkEntry hang ledger outside dp ip first second off
  refine Quiet.then (quiet_readInode ip) (begin_inside outside) fun inode => ?_
  refine .ite (fun _ => .throw trivial) fun _ => .ite (fun _ => ?_) fun _ => entry
  refine Quiet.then (quiet_isdirempty ip) (by exact begin_inside outside) fun empty => ?_
  refine .ite (fun _ => entry) fun _ => ?_
  refine .bind (tracks_iunlockput (by exact begin_inside outside) ip) fun _ after put => ?_
  rw [put.2.trans (@move_on ((ledger.take dp).lock dp).begin_ ip second none)]
  exact tracks_unlinkBad outside first

theorem tracks_sysUnlink (outside : ledger.phase.Idle) (path : Option Path) :
    Tracks true (sysUnlink path) ledger fun _ after => after = ledger := by
  cases path with
  | none => exact .pure rfl
  | some path =>
    refine .bind tracks_beginOp fun _ after begun => ?_
    subst begun
    refine .bind (tracks_nameiparent (begin_inside outside) (.inl rfl) path)
      fun entry after looked => ?_
    subst looked
    cases entry with
    | none => exact .mono (tracks_end_ outside _) fun _ after ended => ended.2
    | some entry =>
      obtain ⟨dp, name⟩ := entry
      refine .bind (tracks_ilock_found (.inl rfl) dp) fun _ after locked => ?_
      obtain ⟨first, rfl⟩ := locked
      refine .ite (fun _ => tracks_unlinkBad outside first) fun _ => ?_
      refine .bind (tracks_dirlookup (by exact begin_inside outside) dp name)
        fun entry after looked => ?_
      subst looked
      cases entry with
      | none => exact tracks_unlinkBad outside first
      | some entry => exact tracks_unlinkFound outside first (.inl rfl) entry.2

/-! ## Create -/

theorem quiet_createDots (dp ip : InodePtr) : Quiet true (createDots dp ip) := by
  refine .bind (quiet_writeInode (fun _ => rfl) fun _ => rfl) fun _ => ?_
  refine .bind (quiet_iupdate dp) fun _ => .get fun kernel => ?_
  refine .bind (quiet_dirlink ip _ _) fun dot => .ite ?_ (.panic _)
  refine .bind (quiet_dirlink ip _ _) fun dotdot => ?_
  exact .ite (.pure _) (.panic _)

theorem quiet_createEntry (dp ip : InodePtr) (name : Name) (type : InodeType) :
    Quiet true (createEntry dp ip name type) := by
  refine .bind (.when (quiet_createDots dp ip)) fun _ => ?_
  refine .bind (quiet_readInode ip) fun inode => ?_
  refine .bind (quiet_dirlink dp name _) fun linked => ?_
  exact .ite (.pure _) (.panic _)

/-- The ledger after `create`: the inode it returns is taken and locked. -/
def Ledger.created (ledger : Ledger) : Option InodePtr → Ledger
  | none => ledger
  | some ip => (ledger.take ip).lock ip

section

variable (outside : ledger.phase.Idle)

include outside

theorem tracks_create (path : Path) (type : InodeType) (major minor : Int16) (uid mode : UInt32) :
    Tracks true (create path type major minor uid mode) ledger.begin_ fun result after =>
      (∀ ip, result = some ip → ledger.locks ip = none) ∧
        after = (ledger.created result).begin_ := by
  have failed : ∀ after, after = ledger.begin_ →
      (∀ ip, (none : Option InodePtr) = some ip → ledger.locks ip = none) ∧
        after = (ledger.created none).begin_ := fun after same => by
    refine ⟨fun ip absurdity => ?_, same⟩
    cases absurdity
  refine .bind (tracks_nameiparent (begin_inside outside) (.inl rfl) path)
    fun entry after looked => ?_
  subst looked
  cases entry with
  | none => exact .pure (failed _ rfl)
  | some entry =>
  obtain ⟨dp, name⟩ := entry
  refine .bind (tracks_ilock_found (.inl rfl) dp) fun _ after locked => ?_
  obtain ⟨first, rfl⟩ := locked
  refine .bind (tracks_dirlookup (by exact begin_inside outside) dp name)
    fun entry after looked => ?_
  subst looked
  cases entry with
  | some entry =>
    have leave := @move_on ledger.begin_ dp first (some entry.1)
    refine .bind (tracks_iunlockput (by exact begin_inside outside) dp) fun _ after put => ?_
    rw [put.2.trans leave]
    refine .bind (tracks_ilock (.inl rfl)) fun _ after locked => ?_
    obtain ⟨unlocked, rfl⟩ := locked
    refine Quiet.then (quiet_readInode entry.1) (begin_inside outside) fun inode => ?_
    refine .ite (fun _ => .pure ⟨fun ip same => ?_, rfl⟩) fun _ => ?_
    · cases same
      exact unlocked
    · refine .bind (tracks_iunlockput (by exact begin_inside outside) entry.1)
        fun _ after put => .pure (failed _ ?_)
      exact put.2.trans (@move_on ledger.begin_ entry.1 unlocked none)
  | none =>
    refine Quiet.then (quiet_readInode dp) (by exact begin_inside outside) fun parent => ?_
    refine .bind (tracks_ialloc (by exact begin_inside outside) _ _ _ _)
      fun ip after taken => ?_
    subst taken
    refine .bind (tracks_ilock (.inl rfl)) fun _ after locked => ?_
    obtain ⟨second, rfl⟩ := locked
    refine tracks_writeBack (begin_inside outside) (fun _ => rfl) (fun _ => rfl) ?_
    refine Quiet.then (quiet_createEntry dp ip name type) (by exact begin_inside outside)
      fun _ => ?_
    refine .bind (tracks_iunlockput (by exact begin_inside outside) dp)
      fun _ after put => .pure ⟨fun ip' same => ?_, ?_⟩
    · cases same
      have other := ne_of_second second
      simpa [Ledger.lock, Ledger.take, Ledger.found, Ledger.begin_, other] using second
    · exact put.2.trans (@giveBack_first ledger.begin_ dp ip first second)

/-- A call that creates a file and gives it back. -/
theorem tracks_createAndPut (path : Path) (type : InodeType) (major minor : Int16)
    (uid : Kernel → UInt32) (mode : UInt32) :
    Tracks true (do
      match ← create path type major minor (uid (← get)) mode with
      | none => do
          endOp
          pure (-1)
      | some ip => do
          iunlockput ip
          endOp
          pure (0 : Int)) ledger.begin_ fun _ after => after = ledger := by
  refine .get fun kernel _ => .bind (tracks_create outside path type major minor _ mode)
    fun result after created => ?_
  obtain ⟨unlocked, rfl⟩ := created
  cases result with
  | none => exact .mono (tracks_end_ outside _) fun _ after ended => ended.2
  | some ip =>
    exact .mono (tracks_giveBack outside (unlocked ip rfl) _) fun _ after given => given.2

theorem tracks_sysMkdir (path : Option Path) :
    Tracks true (sysMkdir path) ledger fun _ after => after = ledger := by
  refine .bind tracks_beginOp fun _ after begun => ?_
  subst begun
  cases path with
  | none => exact .mono (tracks_end_ outside _) fun _ after ended => ended.2
  | some path =>
    exact tracks_createAndPut outside path .dir 0 0 (fun kernel => kernel.myproc.uid) 0o700

theorem tracks_mknodCreate (path : Option Path) (major minor : Option Int16) :
    Tracks true (mknodCreate path major minor) ledger fun _ after => after = ledger := by
  refine .bind tracks_beginOp fun _ after begun => ?_
  subst begun
  split
  · exact tracks_createAndPut outside _ .dev _ _ (fun kernel => kernel.myproc.uid) 0o644
  · exact .mono (tracks_end_ outside _) fun _ after ended => ended.2

end

end Xv6.Resource
