import Xv6.Resource.Files

/-!
# What the system calls do to the ledger

Each call is specified from a ledger outside of a transaction. Inside, the
ledger is written `(…).begin_`, with the changes made so far in the brackets, so
that `end_op` leaves exactly these.
-/

namespace Xv6.Resource

open Program

variable {hang : Bool} {ledger after : Ledger} {ip : InodePtr} {file : File} {f : FilePtr}

theorem tracks_end_ (outside : ledger.phase.Idle) {Value : Type} (value : Value) :
    Tracks hang (do endOp; pure value) ledger.begin_ fun result after =>
      result = value ∧ after = ledger :=
  .bind tracks_endOp fun _ _ ended => .pure ⟨rfl, ended.trans (end_begin_ outside)⟩

/-- An inode is changed in a transaction, but not its lock and references, and written back. -/
theorem tracks_writeBack {update : Inode → Inode} {Result : Type} {rest : Kern Result}
    {post : Result → Ledger → Prop} (inside : ledger.phase.Busy)
    (lock_eq : ∀ inode, (update inode).lock = inode.lock)
    (ref_eq : ∀ inode, (update inode).ref = inode.ref) (tracks : Tracks hang rest ledger post) :
    Tracks hang (do writeInode ip update; iupdate ip; rest) ledger post :=
  (quiet_writeInode lock_eq ref_eq).then inside fun _ =>
    (quiet_iupdate ip).then inside fun _ => tracks

/-- Give back a locked inode that was looked up, and end the transaction. -/
theorem tracks_giveBack (outside : ledger.phase.Idle) (unlocked : ledger.locks ip = none)
    {Value : Type} (value : Value) :
    Tracks hang (do iunlockput ip; endOp; pure value) ((ledger.take ip).lock ip).begin_
      fun result after => result = value ∧ after = ledger := by
  refine .bind (tracks_iunlockput (by exact begin_inside outside) ip) fun _ after put => ?_
  have put_eq : after = ledger.begin_ := put.2.trans (@move_on ledger.begin_ ip unlocked none)
  subst put_eq
  exact tracks_end_ outside value

/-- A lookup at the start of a transaction. -/
theorem tracks_namei_begin (outside : ledger.phase.Idle)
    (free : hang = true ∨ ∀ ip, ledger.Free ip) (path : Path) :
    Tracks hang (namei path) ledger.begin_ fun found after => after = (ledger.found found).begin_ := by
  refine .mono (tracks_namei (begin_inside outside) free path) fun found after looked => ?_
  cases found <;> exact looked

/-- A call on an inode looked up by path is specified by what it does with it. -/
theorem tracks_withInode (outside : ledger.phase.Idle)
    (free : hang = true ∨ ∀ ip, ledger.Free ip) (path : Path) {body : InodePtr → Kern Int}
    {post : Int → Ledger → Prop} (nowhere : post (-1) ledger)
    (found : ∀ ip, Tracks hang (body ip) (ledger.take ip).begin_ post) :
    Tracks hang (withInode path body) ledger.begin_ post := by
  refine .bind (tracks_namei_begin outside free path) fun result after looked => ?_
  subst looked
  cases result with
  | none =>
    refine .mono (tracks_end_ outside _) fun value after ended => ?_
    rw [ended.1, ended.2]
    exact nowhere
  | some ip => exact found ip

/-- Lock what a lookup found. -/
theorem tracks_ilock_found (free : hang = true ∨ ∀ ip, ledger.Free ip) (ip : InodePtr) :
    Tracks hang (ilock ip) (ledger.take ip).begin_ fun _ after =>
      ledger.locks ip = none ∧ after = ((ledger.take ip).lock ip).begin_ :=
  tracks_ilock (free.imp id fun free => free ip)

/-! ## Descriptors -/

/-- A change of the caller's open files moves nothing. -/
theorem calm_setOfile (ofile : Fin NOFILE → Option FilePtr) :
    Calm ledger (ledger.setProc ledger.cur { ledger.me with ofile := ofile }) :=
  calm_setProc ⟨rfl, rfl, rfl, Iff.rfl⟩

theorem tracks_argfd (fd : Option Int) :
    Tracks hang (argfd fd) ledger fun _ after => after = ledger := by
  refine .get fun kernel _ => ?_
  cases fd with
  | none => exact .pure rfl
  | some fd =>
    change Tracks hang (if _ : _ then _ else _) ledger _
    split
    · exact .pure rfl
    · exact .pure rfl

theorem tracks_fdalloc (f : FilePtr) :
    Tracks hang (fdalloc f) ledger fun found after =>
      (found = none ∧ after = ledger) ∨
      ∃ fd, found = some fd ∧ after = ledger.setProc ledger.cur
        { ledger.me with ofile := Function.update ledger.me.ofile fd (some f) } := by
  refine .get fun kernel _ => ?_
  split
  · exact .pure (.inl ⟨rfl, rfl⟩)
  · rename_i fd _
    refine .bind (tracks_writeMyproc _) fun _ after updated => .pure ?_
    exact .inr ⟨fd, rfl, updated⟩

theorem tracks_sysDup (fd : Option Int) :
    Tracks hang (sysDup fd) ledger fun _ after => Calm ledger after := by
  refine .bind (tracks_argfd fd) fun found after same => ?_
  subst same
  cases found with
  | none => exact .pure (.refl _)
  | some found =>
    refine .bind (tracks_fdalloc found.2) fun slot middle allocated => ?_
    obtain ⟨rfl, rfl⟩ | ⟨fd, rfl, rfl⟩ := allocated
    · exact .pure (.refl _)
    · refine .bind (tracks_filedup found.2) fun _ final duplicated => .pure ?_
      obtain ⟨_, rfl, same⟩ := duplicated
      exact (calm_setOfile _).trans (calm_setFile same)

theorem tracks_sysClose (outside : ledger.phase.Idle)
    (free : hang = true ∨ ∀ ip, ledger.Free ip) (fd : Option Int) :
    Tracks hang (sysClose fd) ledger fun _ after => Calm ledger after := by
  refine .bind (tracks_argfd fd) fun found after same => ?_
  subst same
  cases found with
  | none => exact .pure (.refl _)
  | some found =>
    refine .bind (tracks_writeMyproc _) fun _ middle updated => ?_
    subst updated
    have calm := @calm_setOfile after (Function.update after.me.ofile found.1 none)
    have free' := free.imp id fun free ip => calm.free (free ip)
    refine .bind (tracks_fileclose (calm.idle outside) free' found.2)
      fun _ final closed => .pure (calm.trans closed)

theorem tracks_sysFstat (free : hang = true ∨ ∀ ip, ledger.Free ip) (fd : Option Int) (st : Bool) :
    Tracks hang (sysFstat fd st) ledger fun _ after => after = ledger := by
  refine .bind (tracks_argfd fd) fun found after same => ?_
  subst same
  cases found with
  | none => exact .pure rfl
  | some found =>
    refine .ite (fun _ => .get fun kernel _ => ?_) fun _ => .pure rfl
    split
    · refine .bind (tracks_ilock (free.imp id fun free => free _)) fun _ middle locked => ?_
      obtain ⟨unlocked, rfl⟩ := locked
      refine .bind (tracks_readInode _) fun inode _ same => ?_
      subst same
      refine .bind (tracks_iunlock _) fun _ final released => .pure ?_
      exact released.2.trans (unlock_lock unlocked)
    · exact .pure rfl

/-! ## Loading a program -/

theorem quiet_readExactly (ip : InodePtr) (off : UInt32) (n : Nat) :
    Quiet hang (readExactly ip off n) := by
  refine .bind (quiet_readi ip off _) fun bytes => ?_
  cases bytes with
  | none => exact .pure _
  | some bytes => exact .pure _

theorem quiet_loaduvm (ip : InodePtr) (ph : Proghdr) (sz : Nat) :
    Quiet hang (loaduvm ip ph sz) := by
  refine .ite (.panic _) ?_
  induction (List.range ((ph.filesz + (PGSIZE - 1)) / PGSIZE)).map (PGSIZE * ·) with
  | nil => exact .pure _
  | cons i rest ih =>
    refine .ite (.panic _) (.bind (quiet_readExactly ip _ _) fun bytes => ?_)
    cases bytes with
    | none => exact .pure _
    | some bytes => exact ih

theorem quiet_execSegments (memory : ExecMemory) (ip : InodePtr) (phoff : Nat)
    (indices : List Nat) (sz : Nat) : Quiet hang (execSegments memory ip phoff indices sz) := by
  induction indices generalizing sz with
  | nil => exact .pure _
  | cons i rest ih =>
    refine .bind (quiet_readExactly ip _ _) fun bytes => ?_
    cases bytes with
    | none => exact .pure _
    | some bytes =>
      refine .ite (ih sz) (.ite (.pure _) ?_)
      refine .ite (.pure _) (.ite (.pure _) (.ite (.pure _) ?_))
      refine .bind (quiet_loaduvm ip _ _) fun loaded => ?_
      exact .ite (ih _) (.pure _)

theorem quiet_execLoad (memory : ExecMemory) (ip : InodePtr) :
    Quiet hang (execLoad memory ip) := by
  refine .bind (quiet_readExactly ip _ _) fun bytes => ?_
  cases bytes with
  | none => exact .pure _
  | some bytes =>
    refine .ite (.pure _) (.ite (.pure _) ?_)
    exact quiet_execSegments memory ip _ _ _

/-! ## Lookups by path -/

/-- The file `openFile` fills in holds the inode that was looked up. -/
theorem inode_open (ref_eq : file.ref ≠ 0) (ip : InodePtr) (off : UInt32) (readable writable : Bool) :
    (file.open (.inode ip off) readable writable).inode = some ip := by
  simp [File.inode, File.open, ref_eq]

/-- A reference taken for a file that held nothing is accounted for by it. -/
theorem calm_takeFile (idle : (ledger.ftable f).inode = none) (holds : file.inode = some ip) :
    Calm ledger ((ledger.take ip).setFile f file) := by
  refine ⟨⟨rfl, ?_, rfl, rfl, rfl, rfl, fun _ => rfl⟩, fun p => .refl _⟩
  have idle' : ((ledger.take ip).ftable f).inode = none := idle
  rw [extra_setFile, extra_take, idle', holds]
  simp [heldBy]

theorem tracks_openFile (outside : ledger.phase.Idle) (unlocked : ledger.locks ip = none)
    (omode : UInt32) :
    Tracks hang (openFile ip omode) ((ledger.take ip).lock ip).begin_ fun _ after =>
      Calm ledger after := by
  refine .bind tracks_filealloc fun found after allocated => ?_
  obtain ⟨rfl, rfl⟩ | ⟨f, rfl, unused, rfl⟩ := allocated
  · refine .mono (tracks_giveBack outside unlocked _) fun _ after given => ?_
    rw [given.2]
    exact .refl ledger
  have unused' : (ledger.ftable f).ref = 0 := unused
  have taken : Calm ledger (ledger.setFile f (ledger.ftable f).taken) :=
    calm_setFile ((inode_taken _ unused').trans (inode_unused _ unused').symm)
  refine .bind (tracks_fdalloc f) fun slot after allocated => ?_
  obtain ⟨rfl, rfl⟩ | ⟨fd, rfl, rfl⟩ := allocated
  · -- no descriptor: the new file has no type, so closing it needs no transaction
    have closing := @tracks_fileclose_idle hang
      (((ledger.take ip).lock ip).begin_.setFile f (ledger.ftable f).taken) f
      (by simp [Ledger.setFile, File.taken])
      (by simpa [Ledger.setFile, File.taken] using (ledger.ftable f).unused unused')
    refine .bind closing fun _ after closed => ?_
    have released : Calm ledger ((ledger.setFile f (ledger.ftable f).taken).setFile f
        ((ledger.setFile f (ledger.ftable f).taken).ftable f).release) := by
      refine taken.trans (calm_setFile ?_)
      rw [inode_release]
      simpa [Ledger.setFile] using (inode_taken _ unused').symm
    rw [closed]
    refine .mono (tracks_giveBack (released.idle outside)
      ((congrFun released.locks ip).trans unlocked) _) fun _ after given => ?_
    rw [given.2]
    exact released
  · obtain ⟨opening, opening_eq⟩ : ∃ opening, opening =
        (ledger.setFile f (ledger.ftable f).taken).setProc ledger.cur
          { ledger.me with ofile := Function.update ledger.me.ofile fd (some f) } := ⟨_, rfl⟩
    have seated : Calm ledger opening := by
      rw [opening_eq]
      exact taken.trans (calm_setOfile _)
    have file_eq : opening.ftable f = (ledger.ftable f).taken := by
      simp [opening_eq, Ledger.setProc, Ledger.setFile]
    refine .bind (tracks_iunlock ip) fun _ after released => ?_
    have released' : after = (opening.take ip).begin_ := by
      rw [released.2, opening_eq]
      exact Ledger.ext (released_eq unlocked _) rfl rfl rfl rfl rfl rfl rfl
    refine .bind tracks_endOp fun _ after ended => ?_
    have outside' : (opening.take ip).phase.Idle := seated.idle outside
    refine .bind (tracks_updateFile f _) fun _ after opened => .pure ?_
    rw [opened, ended, released', end_begin_ outside']
    refine seated.trans (calm_takeFile ?_ (inode_open ?_ ip 0 _ _))
    · rw [file_eq, inode_taken _ unused']
    · exact (congrArg File.ref file_eq).trans_ne Nat.one_ne_zero

theorem tracks_openInode (outside : ledger.phase.Idle)
    (free : hang = true ∨ ∀ ip, ledger.Free ip) (path : Path) (omode : UInt32) (ip : InodePtr) :
    Tracks hang (openInode path omode ip) (ledger.take ip).begin_ fun _ after =>
      Calm ledger after := by
  refine .bind (tracks_ilock_found free ip) fun _ after locked => ?_
  obtain ⟨unlocked, rfl⟩ := locked
  have refused : ∀ value, Tracks hang (do iunlockput ip; endOp; pure value)
      ((ledger.take ip).lock ip).begin_ fun (_ : Int) after => Calm ledger after := fun value =>
    .mono (tracks_giveBack outside unlocked value) fun _ after given => by
      rw [given.2]
      exact .refl ledger
  refine .get fun kernel _ => .ite (fun _ => refused _) fun _ => ?_
  refine .ite (fun _ => ?_) fun _ => tracks_openFile outside unlocked omode
  refine .bind (tracks_emit _) fun _ after emitted => ?_
  subst emitted
  exact refused _

theorem tracks_openPath (outside : ledger.phase.Idle)
    (free : hang = true ∨ ∀ ip, ledger.Free ip) (path : Path) (omode : UInt32) :
    Tracks hang (openPath path omode) ledger.begin_ fun _ after => Calm ledger after :=
  tracks_withInode outside free path (.refl ledger) fun ip =>
    tracks_openInode outside free path omode ip

/-- `open` of a file it is not asked to create. -/
theorem tracks_sysOpen (outside : ledger.phase.Idle)
    (free : hang = true ∨ ∀ ip, ledger.Free ip) (path : Option Path) (omode : Option UInt32)
    (existing : ∀ omode', omode = some omode' → ¬(omode' &&& O_CREATE ≠ 0)) :
    Tracks hang (sysOpen path omode) ledger fun _ after => Calm ledger after := by
  unfold sysOpen
  split
  · refine .bind tracks_beginOp fun _ after begun => ?_
    rw [if_neg (existing _ rfl), begun]
    exact tracks_openPath outside free _ _
  · exact .pure (.refl ledger)

theorem tracks_exec (outside : ledger.phase.Idle)
    (free : hang = true ∨ ∀ ip, ledger.Free ip) (memory : ExecMemory) (path : Path)
    (argv : List Path) :
    Tracks hang (exec memory path argv) ledger fun _ after => after = ledger := by
  refine .bind tracks_beginOp fun _ after begun => ?_
  subst begun
  refine .bind (tracks_namei_begin outside free path) fun found after looked => ?_
  subst looked
  cases found with
  | none =>
    refine .bind tracks_endOp fun _ after ended => ?_
    refine .bind (tracks_emit _) fun _ final emitted => .pure ?_
    rw [emitted, ended]
    exact end_begin_ outside
  | some ip =>
    refine .bind (tracks_ilock_found free ip) fun _ after locked => ?_
    obtain ⟨unlocked, rfl⟩ := locked
    refine (quiet_execLoad memory ip).then (by exact begin_inside outside) fun loaded => ?_
    refine .bind (tracks_iunlockput (by exact begin_inside outside) ip) fun _ after put => ?_
    have put_eq : after = ledger.begin_ := put.2.trans (@move_on ledger.begin_ ip unlocked none)
    subst put_eq
    refine .bind tracks_endOp fun _ after ended => ?_
    rw [end_begin_ outside] at ended
    cases loaded with
    | none => exact .pure ended
    | some sz => exact .pure ended

/-! ## Attributes -/

/-- Unlock an inode and end the transaction, keeping the reference. -/
theorem tracks_unlockEnd (outside : ledger.phase.Idle) (unlocked : ledger.locks ip = none)
    {Value : Type} (value : Value) :
    Tracks hang (do iunlock ip; endOp; pure value) ((ledger.take ip).lock ip).begin_
      fun result after => result = value ∧ after = ledger.take ip := by
  refine .bind (tracks_iunlock ip) fun _ after released => ?_
  have released_eq : after = (ledger.take ip).begin_ :=
    released.2.trans (@unlock_lock (ledger.take ip).begin_ ip unlocked)
  subst released_eq
  exact tracks_end_ (show (ledger.take ip).phase.Idle from outside) value

/-- `chmod` and `chown` never give back the reference to what they found. -/
theorem tracks_chmodInode (outside : ledger.phase.Idle)
    (free : hang = true ∨ ∀ ip, ledger.Free ip) (mode : UInt32) (ip : InodePtr) :
    Tracks hang (chmodInode mode ip) (ledger.take ip).begin_ fun _ after =>
      after = ledger.take ip := by
  refine .get fun kernel _ => .ite (fun _ => ?_) fun _ => ?_
  · exact .mono (tracks_end_ (show (ledger.take ip).phase.Idle from outside) _)
      fun _ after ended => ended.2
  · refine .bind (tracks_ilock_found free ip) fun _ after locked => ?_
    obtain ⟨unlocked, rfl⟩ := locked
    refine tracks_writeBack (begin_inside outside) (fun _ => rfl) (fun _ => rfl) ?_
    exact .mono (tracks_unlockEnd outside unlocked _) fun _ after ended => ended.2

theorem tracks_chownInode (outside : ledger.phase.Idle)
    (free : hang = true ∨ ∀ ip, ledger.Free ip) (owner group : UInt32) (ip : InodePtr) :
    Tracks hang (chownInode owner group ip) (ledger.take ip).begin_ fun _ after =>
      after = ledger.take ip := by
  refine .bind (tracks_ilock_found free ip) fun _ after locked => ?_
  obtain ⟨unlocked, rfl⟩ := locked
  refine Quiet.then (Quiet.when (quiet_writeInode (fun _ => rfl) fun _ => rfl))
    (begin_inside outside) fun _ => ?_
  refine tracks_writeBack (begin_inside outside) (fun _ => rfl) (fun _ => rfl) ?_
  exact Track.mono (tracks_unlockEnd outside unlocked _) fun _ after ended => ended.2

/-! ## The current directory -/

/-- The caller exchanges the directory it holds. -/
theorem kept_exchange {p : ProcPtr} {proc : Proc} {old new : InodePtr}
    (identity : proc.toCredentials = (ledger.ptable p).toCredentials)
    (live : (ledger.ptable p).Live) (old_eq : (ledger.ptable p).cwd = some old)
    (stillLive : proc.Live) (new_eq : proc.cwd = some new) :
    Kept ledger (((ledger.take new).drop old).setProc p proc) := by
  have oldHeld : liveCwd (((ledger.take new).drop old).ptable p) = some old := by
    change liveCwd (ledger.ptable p) = some old
    simp [liveCwd, live, old_eq]
  have newHeld : liveCwd proc = some new := by simp [liveCwd, stillLive, new_eq]
  refine ⟨rfl, ?_, rfl, rfl, rfl, rfl, fun p' => ?_⟩
  · rw [extra_setProc, extra_drop, extra_take, oldHeld, newHeld]
    simp [heldBy]
  · by_cases same : p' = p
    · subst same
      rw [ptable_setProc_self]
      exact identity
    · rw [ptable_setProc_of_ne proc same]
      rfl

theorem tracks_chdirInode (outside : ledger.phase.Idle)
    (free : hang = true ∨ ∀ ip, ledger.Free ip) (live : ledger.me.Live) (path : Path)
    (ip : InodePtr) :
    Tracks hang (chdirInode path ip) (ledger.take ip).begin_ fun _ after => Kept ledger after := by
  refine .bind (tracks_ilock_found free ip) fun _ after locked => ?_
  obtain ⟨unlocked, rfl⟩ := locked
  have refused : ∀ value, Tracks hang (do iunlockput ip; endOp; pure value)
      ((ledger.take ip).lock ip).begin_ fun (_ : Int) after => Kept ledger after := fun value =>
    .mono (tracks_giveBack outside unlocked value) fun _ after given => by
      rw [given.2]
      exact .refl ledger
  refine .get fun kernel viewed => .ite (fun _ => refused _) fun _ => ?_
  refine .ite (fun _ => ?_) fun _ => ?_
  · refine .bind (tracks_emit _) fun _ after emitted => ?_
    subst emitted
    exact refused _
  · have me_eq : kernel.myproc = ledger.me := by
      have same : kernel.ledger.me = ledger.me := by rw [viewed]; rfl
      exact same
    refine .bind (tracks_iunlock ip) fun _ after released => ?_
    have released_eq : after = (ledger.take ip).begin_ :=
      released.2.trans (@unlock_lock (ledger.take ip).begin_ ip unlocked)
    subst released_eq
    split
    · exact .throw trivial
    · rename_i cwd found
      rw [me_eq] at found
      refine .bind (tracks_iput (begin_inside outside)
        (free.imp id fun free => free cwd)) fun _ after put => ?_
      have put_eq : after = ((ledger.take ip).drop cwd).begin_ := put.2
      subst put_eq
      refine .bind tracks_endOp fun _ after ended => ?_
      have ended_eq : after = (ledger.take ip).drop cwd := ended.trans (end_begin_ outside)
      subst ended_eq
      refine .bind (tracks_writeMyproc _) fun _ after updated => .pure ?_
      rw [updated]
      exact kept_exchange rfl live found live rfl

theorem tracks_sysChdir (outside : ledger.phase.Idle)
    (free : hang = true ∨ ∀ ip, ledger.Free ip) (live : ledger.me.Live) (path : Option Path) :
    Tracks hang (sysChdir path) ledger fun _ after => Kept ledger after := by
  refine .bind tracks_beginOp fun _ after begun => ?_
  subst begun
  cases path with
  | none =>
    refine .mono (tracks_end_ outside _) fun _ after ended => ?_
    rw [ended.2]
    exact .refl ledger
  | some path =>
    exact tracks_withInode outside free path (.refl ledger) fun ip =>
      tracks_chdirInode outside free live path ip

/-! ## Writing -/

/-- Moving the offset of a file keeps the inode it holds. -/
theorem inode_seek (held : file.inode = some ip) (off : UInt32) :
    (file.seek ip off).inode = some ip := by
  refine inode_open (fun unused => ?_) ip off _ _
  rw [inode_unused file unused] at held
  cases held

/-- The inode of an open file, from its type. -/
theorem inode_of_type {off : UInt32} (type_eq : file.type = .inode ip off) : file.inode = some ip := by
  have counted : file.ref ≠ 0 := fun unused => by
    rw [file.unused unused] at type_eq
    cases type_eq
  simp [File.inode, type_eq, counted]

/-- One piece of a write leaves its file on the inode it holds. -/
theorem tracks_seek (held : (ledger.ftable f).inode = some ip) {condition : Prop}
    [Decidable condition] (off : UInt32) :
    Tracks hang (when condition (modify (·.updateFile f (File.seek · ip off)))) ledger
      fun _ after => ∃ file, file.inode = some ip ∧ after = ledger.setFile f file := by
  refine .ite (fun _ => ?_) fun _ => .pure ⟨ledger.ftable f, held, ?_⟩
  · exact .mono (tracks_updateFile f _) fun _ after updated =>
      ⟨_, inode_seek held off, updated⟩
  · exact Ledger.ext rfl rfl (Function.update_eq_self f _).symm rfl rfl rfl rfl rfl

theorem tracks_filewriteLoop (outside : ledger.phase.Idle)
    (free : hang = true ∨ ∀ ip, ledger.Free ip) (fuel : Nat) (bytes : List Byte)
    (held : (ledger.ftable f).inode = some ip) :
    Tracks hang (filewriteLoop f ip fuel bytes) ledger fun _ after => Calm ledger after := by
  induction fuel generalizing ledger bytes with
  | zero => exact .pure (.refl _)
  | succ fuel ih =>
    refine .ite (fun _ => .pure (.refl _)) fun _ => ?_
    refine .bind tracks_beginOp fun _ after begun => ?_
    subst begun
    refine .bind (tracks_ilock (by exact free.imp id fun free => free ip))
      fun _ after locked => ?_
    obtain ⟨unlocked, rfl⟩ := locked
    refine .get fun kernel viewed => ?_
    split
    · refine (quiet_writei ip _ _ _).then (begin_inside outside) fun r => ?_
      refine .bind (tracks_seek (by exact held) _) fun _ after moved => ?_
      obtain ⟨file, still, rfl⟩ := moved
      refine .bind (tracks_iunlock ip) fun _ after released => ?_
      have released_eq : after = (ledger.setFile f file).begin_ :=
        released.2.trans (@unlock_lock (ledger.setFile f file).begin_ ip unlocked)
      refine .bind tracks_endOp fun _ after ended => ?_
      rw [released_eq] at ended
      have ended_eq : after = ledger.setFile f file := ended.trans (end_begin_ outside)
      have calm : Calm ledger after := by
        rw [ended_eq]
        exact calm_setFile (still.trans held.symm)
      refine .ite (fun _ => .pure calm) fun _ => ?_
      refine .ite (fun _ => .throw trivial) fun _ => ?_
      have still' : (after.ftable f).inode = some ip := by simpa [ended_eq, Ledger.setFile]
      have free' := free.imp id fun free ip => calm.free (free ip)
      exact .mono (ih (calm.idle outside) free' _ still')
        fun _ final rest => calm.trans rest
    · exact .throw trivial

theorem tracks_pipewriteLoop (p : Nat) (bytes : List Byte) :
    Tracks hang (pipewriteLoop p bytes) ledger fun _ after => after = ledger := by
  induction bytes with
  | nil => exact .pure rfl
  | cons byte rest ih =>
    refine .get fun kernel _ => .ite (fun _ => ?_) fun _ => ?_
    · refine .ite (fun _ => .pure rfl) fun _ => ?_
      exact .bind (tracks_wakeup _) fun _ _ _ => .throw trivial
    · refine .bind (tracks_updatePipe p _) fun _ after same => ?_
      rw [same]
      exact ih

theorem tracks_filewrite (outside : ledger.phase.Idle)
    (free : hang = true ∨ ∀ ip, ledger.Free ip) (f : FilePtr) (bytes : List Byte) :
    Tracks hang (filewrite f bytes) ledger fun _ after => Calm ledger after := by
  refine .get fun kernel viewed => .ite (fun _ => .pure (.refl _)) fun _ => ?_
  split
  · exact .throw trivial
  · refine .bind (tracks_pipewriteLoop _ bytes) fun all after same => ?_
    rw [same]
    refine .ite (fun _ => ?_) fun _ => .pure (.refl _)
    refine .bind (tracks_wakeup _) fun _ after woken => .pure ?_
    rw [woken]
    exact calm_wake _
  · rename_i ip off type_eq
    have held : (ledger.ftable f).inode = some ip := by
      rw [← viewed]
      exact inode_of_type type_eq
    exact .bind (tracks_filewriteLoop outside free _ bytes held)
      fun _ after calm => .pure calm

theorem tracks_sysWrite (outside : ledger.phase.Idle)
    (free : hang = true ∨ ∀ ip, ledger.Free ip) (fd : Option Int) (buffer : Option (List Byte)) :
    Tracks hang (sysWrite fd buffer) ledger fun _ after => Calm ledger after := by
  refine .bind (tracks_argfd fd) fun found after same => ?_
  subst same
  split
  · exact tracks_filewrite outside free _ _
  · exact .pure (.refl _)

end Xv6.Resource
