import Xv6.Resource.Inodes

/-!
# What lookups do to the ledger

Reading and writing an inode are quiet, also where a driver gives the lock back
for a while. A directory lookup takes a reference to what it finds, and so does
a path lookup, which has dropped every reference it took on the way.
-/

namespace Xv6.Resource

open Program

variable {hang : Bool} {ledger : Ledger}

/-! ## Reading and writing -/

/-- Unlocking and locking again an inode the caller holds changes nothing. -/
theorem lock_unlock {ip : InodePtr} (held : ledger.locks ip = some ledger.pid) :
    (ledger.unlock ip).lock ip = ledger := by
  refine Ledger.ext ?_ rfl rfl rfl rfl rfl rfl rfl
  change Function.update (Function.update ledger.locks ip none) ip (some ledger.pid) = ledger.locks
  rw [Function.update_idem, ← held, Function.update_eq_self]

theorem free_unlock (ip : InodePtr) : (ledger.unlock ip).Free ip := by
  simp [Ledger.Free, Ledger.unlock]

/-- A driver call: the caller's lock is released and taken again. -/
theorem tracks_relock {ip : InodePtr} (held : ledger.locks ip = some ledger.pid) :
    Tracks hang (ilock ip) (ledger.unlock ip) fun _ after => after = ledger :=
  (tracks_ilock (.inr (free_unlock ip))).mono fun _ _ locked => locked.2.trans (lock_unlock held)

/-- What was typed is no part of the ledger. -/
theorem tracks_setInput (input : List Byte) :
    Tracks hang (modify fun kernel => { kernel with input := input }) ledger
      fun _ after => after = ledger :=
  .modify fun _ viewed => viewed

theorem quiet_consoleread (ip : InodePtr) (n : Nat) : Quiet hang (consoleread ip n) := by
  intro ledger
  refine .bind (tracks_iunlock ip) fun _ after unlocked => .get fun kernel _ => ?_
  obtain ⟨held, rfl⟩ := unlocked
  split
  · refine .bind (tracks_setInput _) fun _ after same => ?_
    subst same
    exact .bind (tracks_relock held) fun _ _ same => .pure (.inl same)
  · refine .ite (fun _ => ?_) fun _ => .throw trivial
    refine .bind (tracks_setInput _) fun _ after same => ?_
    subst same
    exact .bind (tracks_relock held) fun _ _ same => .pure (.inl same)

theorem quiet_consolewrite (ip : InodePtr) (n : Int) : Quiet hang (consolewrite ip n) := by
  intro ledger
  refine .bind (tracks_iunlock ip) fun _ after unlocked => ?_
  obtain ⟨held, rfl⟩ := unlocked
  exact .bind (tracks_relock held) fun _ _ same => .pure (.inl same)

theorem quiet_readiLoop (ip : InodePtr) (fuel off n : Nat) :
    Quiet hang (readiLoop ip fuel off n) := by
  induction fuel generalizing off n with
  | zero => exact .pure _
  | succ fuel ih =>
    refine .ite (.pure _) ?_
    refine .bind (quiet_bmap ip _) fun addr => .get fun kernel => ?_
    exact .bind (ih _ _) fun rest => .pure _

theorem quiet_readi (ip : InodePtr) (off n : UInt32) : Quiet hang (readi ip off n) := by
  refine .bind (quiet_readInode ip) fun inode => .ite ?_ (.ite (.pure _) ?_)
  · exact .ite (quiet_consoleread ip _) (.pure _)
  · exact .bind (quiet_readiLoop ip _ _ _) fun bytes => .pure _

theorem quiet_writeiLoop (ip : InodePtr) (fuel : Nat) (src : Nat → Byte) (off n : Nat) :
    Quiet hang (writeiLoop ip fuel src off n) := by
  induction fuel generalizing src off n with
  | zero => exact .pure _
  | succ fuel ih =>
    refine .ite (.pure _) (.bind (quiet_bmap ip _) fun addr => ?_)
    refine .bind (quiet_setData _ _) fun _ => .bind (quiet_logWrite _) fun _ => ?_
    exact ih _ _ _

theorem quiet_writei (ip : InodePtr) (src : Nat → Byte) (off n : UInt32) :
    Quiet hang (writei ip src off n) := by
  refine .bind (quiet_readInode ip) fun inode => .ite ?_ ?_
  · exact .ite (quiet_consolewrite ip _) (.pure _)
  · refine .ite (.pure _) (.ite (.pure _) ?_)
    refine .bind (quiet_writeiLoop ip _ _ _ _) fun _ => ?_
    refine .bind (quiet_readInode ip) fun inode => .bind (.when ?_) fun _ => ?_
    · exact .bind (quiet_writeInode (fun _ => rfl) fun _ => rfl) fun _ => quiet_iupdate ip
    · exact .pure _

/-! ## Directories -/

/-- The ledger after a lookup: one more reference to what was found. -/
def Ledger.found (ledger : Ledger) : Option InodePtr → Ledger
  | none => ledger
  | some ip => ledger.take ip

theorem quiet_readDirent (dp : InodePtr) (off : Nat) (short : Panic) :
    Quiet hang (readDirent dp off short) := by
  refine .bind (quiet_readi dp _ _) fun bytes => ?_
  cases bytes with
  | none => exact .panic _
  | some bytes => exact .ite (.pure _) (.panic _)

/-- A lookup in a directory takes a reference to what it finds. -/
theorem tracks_dirlookupFrom_any (dp : InodePtr) (name : Name) (offsets : List Nat) :
    Tracks hang (dirlookupFrom dp name offsets) ledger fun entry after =>
      ∃ middle, Disturbed ledger middle ∧ after = middle.found (entry.map Prod.fst) := by
  induction offsets generalizing ledger with
  | nil => exact .pure ⟨ledger, .refl ledger, rfl⟩
  | cons off rest ih =>
    refine .bind (quiet_readDirent dp off _ ledger) fun de middle disturbed => ?_
    refine .ite (fun _ => ?_) fun _ => ?_
    · refine .bind (tracks_readInode dp) fun inode after same => ?_
      rw [same]
      exact .bind (tracks_iget _ _) fun ip after taken =>
        .pure ⟨middle, disturbed, taken⟩
    · refine .mono ih fun entry after found => ?_
      obtain ⟨last, later, found_eq⟩ := found
      exact ⟨last, disturbed.trans later, found_eq⟩

theorem tracks_dirlookup_any (dp : InodePtr) (name : Name) :
    Tracks hang (dirlookup dp name) ledger fun entry after =>
      ∃ middle, Disturbed ledger middle ∧ after = middle.found (entry.map Prod.fst) := by
  refine .bind (tracks_readInode dp) fun inode after same => ?_
  rw [same]
  exact .ite (fun _ => .throw trivial) fun _ => tracks_dirlookupFrom_any dp name _

theorem tracks_dirlookup (inside : ledger.phase.Busy) (dp : InodePtr) (name : Name) :
    Tracks hang (dirlookup dp name) ledger fun entry after =>
      after = ledger.found (entry.map Prod.fst) := by
  refine (tracks_dirlookup_any dp name).mono fun entry after found => ?_
  obtain ⟨middle, disturbed, found_eq⟩ := found
  rw [found_eq, disturbed.of_busy inside]

theorem quiet_emptyDirent (dp : InodePtr) (full : Nat) (offsets : List Nat) :
    Quiet hang (emptyDirent dp full offsets) := by
  induction offsets with
  | nil => exact .pure _
  | cons off rest ih =>
    refine .bind (quiet_readDirent dp off _) fun de => ?_
    exact .ite (.pure _) ih

/-- Taking and dropping a reference changes nothing. -/
@[simp] theorem drop_take (ip : InodePtr) : (ledger.take ip).drop ip = ledger := by
  refine Ledger.ext rfl ?_ rfl rfl rfl rfl rfl rfl
  exact add_sub_cancel_right _ _

/-- What `dirlink` does once `dirlookup` has found no entry of that name. -/
def dirlinkAbsent (dp : InodePtr) (name : Name) (inum : Nat) : Kern Bool := do
  let inode ← readInode dp
  let offsets := direntOffsets inode.size
  let off ← emptyDirent dp (DIRENT * offsets.length) offsets
  let written ← writei dp (Dirent.encode inum (name.take DIRSIZ)) (.ofNat off) (.ofNat DIRENT)
  if written = DIRENT then pure true else panic .dirlink

theorem quiet_dirlinkAbsent (dp : InodePtr) (name : Name) (inum : Nat) :
    Quiet hang (dirlinkAbsent dp name inum) := by
  refine .bind (quiet_readInode dp) fun inode => ?_
  refine .bind (quiet_emptyDirent dp _ _) fun off => ?_
  refine .bind (quiet_writei dp _ _ _) fun written => ?_
  exact .ite (.pure _) (.panic _)

/-- `dirlink` is quiet; if the entry exists already and names an inode that the
caller has locked, it hangs. -/
theorem quiet_dirlink (dp : InodePtr) (name : Name) (inum : Nat) :
    Quiet true (dirlink dp name inum) := by
  intro ledger
  refine .bind (tracks_dirlookup_any dp name) fun entry after looked => ?_
  obtain ⟨middle, disturbed, rfl⟩ := looked
  cases entry with
  | none =>
    refine (quiet_dirlinkAbsent dp name inum middle).mono fun _ _ later => disturbed.trans later
  | some found =>
    refine .bind (tracks_iput_any (.inl rfl)) fun _ after put => .pure ?_
    rw [put.2]
    have dropped : ((middle.take found.1).emit .iput).drop found.1 = middle.emit .iput :=
      @drop_take (middle.emit .iput) found.1
    exact disturbed.trans (dropped ▸ disturbed_emit rfl rfl)

/-! ## Paths -/

/-- The lock and the reference on a directory are given back when the lookup
moves on to what it found there. -/
theorem move_on {ip : InodePtr} (unlocked : ledger.locks ip = none) (next : Option InodePtr) :
    ((((ledger.take ip).lock ip).found next).unlock ip).drop ip = ledger.found next := by
  cases next with
  | none =>
    exact Ledger.ext (released_eq unlocked _) (add_sub_cancel_right _ _) rfl rfl rfl rfl rfl rfl
  | some next =>
    refine Ledger.ext (released_eq unlocked _) ?_ rfl rfl rfl rfl rfl rfl
    change ledger.refs + Pi.single ip 1 + Pi.single next 1 - Pi.single ip 1 = _
    rw [add_right_comm, add_sub_cancel_right]
    rfl

theorem tracks_namexFrom (inside : ledger.phase.Busy)
    (free : hang = true ∨ ∀ ip, ledger.Free ip) (parent : Bool) (elements : List (Name × Path))
    (ip : InodePtr) (name : Name) :
    Tracks hang (namexFrom parent elements ip name) (ledger.take ip) fun entry after =>
      after = ledger.found (entry.map Prod.fst) := by
  induction elements generalizing ip name with
  | nil =>
    refine .ite (fun _ => ?_) fun _ => .pure rfl
    refine .bind (tracks_iput (by exact inside) (free.imp id fun free => free ip))
      fun _ after put => .pure (put.2.trans (drop_take ip))
  | cons element rest ih =>
    obtain ⟨name', path⟩ := element
    refine .bind (tracks_ilock (free.imp id fun free => free ip)) fun _ after locked => ?_
    obtain ⟨unlockedTaken, rfl⟩ := locked
    have unlocked : ledger.locks ip = none := unlockedTaken
    refine Quiet.then (quiet_readInode ip) (by exact inside) fun inode => ?_
    refine Track.ite (fun _ => ?_) fun _ => Track.ite (fun _ => ?_) fun _ => ?_
    · exact .bind (tracks_iunlockput (by exact inside) ip) fun _ after put =>
        .pure (put.2.trans (move_on unlocked none))
    · refine .bind (tracks_iunlock ip) fun _ after released => .pure ?_
      exact released.2.trans (unlock_lock unlockedTaken)
    · refine .bind (tracks_dirlookup (by exact inside) ip name') fun entry after looked => ?_
      subst looked
      have stillInside (next : Option InodePtr) :
          (((ledger.take ip).lock ip).found next).phase.Busy := by
        cases next <;> exact inside
      cases entry with
      | none =>
        exact .bind (tracks_iunlockput (stillInside none) ip) fun _ after put =>
          .pure (put.2.trans (move_on unlocked none))
      | some next =>
        refine .bind (tracks_iunlockput (stillInside (some next.1)) ip)
          fun _ after put => ?_
        rw [put.2, move_on unlocked (some next.1)]
        exact ih next.1 name'

theorem tracks_namex (inside : ledger.phase.Busy)
    (free : hang = true ∨ ∀ ip, ledger.Free ip) (path : Path) (parent : Bool) :
    Tracks hang (namex path parent) ledger fun entry after =>
      after = ledger.found (entry.map Prod.fst) := by
  refine .ite (fun _ => ?_) fun _ => .get fun kernel _ => ?_
  · refine .bind (tracks_iget _ _) fun ip after taken => ?_
    subst taken
    exact tracks_namexFrom inside free parent _ ip []
  · split
    · exact .throw trivial
    · refine .bind (tracks_idup _) fun ip after taken => ?_
      obtain ⟨rfl, rfl⟩ := taken
      exact tracks_namexFrom inside free parent _ ip []

theorem tracks_namei (inside : ledger.phase.Busy)
    (free : hang = true ∨ ∀ ip, ledger.Free ip) (path : Path) :
    Tracks hang (namei path) ledger fun found after => after = ledger.found found :=
  .bind (tracks_namex inside free path false) fun _ _ looked => .pure looked

theorem tracks_nameiparent (inside : ledger.phase.Busy)
    (free : hang = true ∨ ∀ ip, ledger.Free ip) (path : Path) :
    Tracks hang (nameiparent path) ledger fun entry after =>
      after = ledger.found (entry.map Prod.fst) :=
  tracks_namex inside free path true

end Xv6.Resource
