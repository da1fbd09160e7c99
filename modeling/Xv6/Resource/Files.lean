import Xv6.Resource.Holders

/-!
# What `file.c` does to the ledger

Duplicating and closing a file keep every reference accounted for: the last
close gives back the one the file held, in a transaction of its own.
-/

namespace Xv6.Resource

variable {hang : Bool} {ledger after : Ledger}

/-- A call that moves no process: it may open and close files. -/
structure Calm (before after : Ledger) : Prop extends Kept before after where
  unmoved : ∀ p, Unmoved (before.ptable p) (after.ptable p)

theorem Calm.refl (ledger : Ledger) : Calm ledger ledger :=
  ⟨.refl ledger, fun p => .refl (ledger.ptable p)⟩

theorem Calm.trans {before middle after : Ledger} (first : Calm before middle)
    (second : Calm middle after) : Calm before after :=
  ⟨first.toKept.trans second.toKept, fun p => (first.unmoved p).trans (second.unmoved p)⟩

theorem calm_setFile {f : FilePtr} {file : File} (same : file.inode = (ledger.ftable f).inode) :
    Calm ledger (ledger.setFile f file) :=
  ⟨kept_setFile same, fun p => .refl (ledger.ptable p)⟩

theorem calm_setProc {p : ProcPtr} {proc : Proc} (unmoved : Unmoved (ledger.ptable p) proc) :
    Calm ledger (ledger.setProc p proc) := by
  refine ⟨kept_setProc unmoved.identity unmoved.liveCwd_eq, fun p' => ?_⟩
  by_cases same : p' = p
  · subst same
    rw [ptable_setProc_self]
    exact unmoved
  · rw [ptable_setProc_of_ne proc same]
    exact .refl (ledger.ptable p')

theorem calm_wake (chan : Channel) : Calm ledger (ledger.wake chan) :=
  ⟨kept_wake chan, fun p => unmoved_wake (ledger.ptable p) chan⟩

/-- The caller holds none of the locks it did not hold before. -/
theorem Calm.free (calm : Calm ledger after) {ip : InodePtr} (free : ledger.Free ip) :
    after.Free ip := by
  unfold Ledger.Free Ledger.pid at free ⊢
  rw [calm.locks, calm.cur, (calm.unmoved ledger.cur).pid]
  exact free

/-! ## Tables -/

theorem tracks_updateFile (f : FilePtr) (update : File → File) :
    Tracks hang (modify (·.updateFile f update)) ledger fun _ after =>
      after = ledger.setFile f (update (ledger.ftable f)) := by
  refine .modify fun kernel viewed => ?_
  subst viewed
  rfl

theorem tracks_updateProc (p : ProcPtr) (update : Proc → Proc) :
    Tracks hang (modify (·.updateProc p update)) ledger fun _ after =>
      after = ledger.setProc p (update (ledger.ptable p)) := by
  refine .modify fun kernel viewed => ?_
  subst viewed
  rfl

theorem tracks_writeMyproc (update : Proc → Proc) :
    Tracks hang (writeMyproc update) ledger fun _ after =>
      after = ledger.setProc ledger.cur (update ledger.me) := by
  refine .modify fun kernel viewed => ?_
  subst viewed
  rfl

theorem tracks_wakeup (chan : Channel) :
    Tracks hang (wakeup chan) ledger fun _ after => after = ledger.wake chan := by
  refine .modify fun kernel viewed => ?_
  subst viewed
  rfl

theorem tracks_updatePipe (p : Nat) (update : Pipe → Pipe) :
    Tracks hang (updatePipe p update) ledger fun _ after => after = ledger :=
  .modify fun _ viewed => viewed

/-! ## Files -/

/-- The file that was taken held nothing, and holds nothing yet. -/
theorem tracks_filealloc :
    Tracks hang filealloc ledger fun found after =>
      (found = none ∧ after = ledger) ∨
      ∃ f, found = some f ∧ (ledger.ftable f).ref = 0 ∧
        after = ledger.setFile f (ledger.ftable f).taken := by
  refine .get fun kernel viewed => ?_
  split
  · exact .pure (.inl ⟨rfl, rfl⟩)
  · rename_i f found
    have unused : (ledger.ftable f).ref = 0 := by
      have first : (kernel.ftable f).ref = 0 := by simpa using List.find?_some found
      rw [← viewed]
      exact first
    refine .bind (tracks_updateFile f File.taken) fun _ after updated => .pure ?_
    exact .inr ⟨f, rfl, unused, updated⟩

theorem inode_dup (file : File) (held : ¬file.ref < 1) : file.dup.inode = file.inode := by
  have some : file.ref ≠ 0 := by omega
  simp [File.inode, File.dup, some]

theorem inode_drop (file : File) (several : 1 < file.ref) :
    (file.drop several).inode = file.inode := by
  have some : file.ref ≠ 0 := by omega
  have more : file.ref - 1 ≠ 0 := by omega
  simp [File.inode, File.drop, some, more]

theorem inode_release (file : File) : file.release.inode = none := rfl

theorem inode_taken (file : File) (unused : file.ref = 0) : file.taken.inode = none := by
  simp [File.inode, File.taken, file.unused unused]

theorem inode_unused (file : File) (unused : file.ref = 0) : file.inode = none := by
  simp [File.inode, unused]

theorem tracks_filedup (f : FilePtr) :
    Tracks hang (filedup f) ledger fun found after =>
      found = f ∧ after = ledger.setFile f (ledger.ftable f).dup ∧
        (ledger.ftable f).dup.inode = (ledger.ftable f).inode := by
  refine .get fun kernel viewed => .ite (fun _ => .throw trivial) fun held => ?_
  refine .bind (tracks_updateFile f File.dup) fun _ after updated => .pure ?_
  refine ⟨rfl, updated, inode_dup _ ?_⟩
  rw [← viewed]
  exact held

/-- Opening and closing a transaction leaves what was done in between. -/
theorem end_begin_ (outside : ledger.phase.Idle) : ledger.begin_.end_ = ledger := by
  refine Ledger.ext rfl rfl rfl rfl rfl rfl (add_sub_cancel_right _ _) ?_
  change (ledger.phase.next .beginOp).next .endOp = ledger.phase
  cases phase_eq : ledger.phase with
  | outside => rfl
  | inside => exact absurd phase_eq outside
  | broken => rfl

theorem begin_inside (outside : ledger.phase.Idle) : ledger.begin_.phase.Busy := by
  change ledger.phase.next .beginOp ≠ .outside
  cases phase_eq : ledger.phase with
  | outside => decide
  | inside => exact absurd phase_eq outside
  | broken => decide

/-- A reference given back in a transaction of its own. -/
theorem tracks_putInside (outside : ledger.phase.Idle) {ip : InodePtr}
    (free : hang = true ∨ ledger.Free ip) :
    Tracks hang (do beginOp; iput ip; endOp) ledger fun _ after => after = ledger.drop ip := by
  refine .bind tracks_beginOp fun _ after begun => ?_
  subst begun
  refine .bind (tracks_iput (begin_inside outside) free) fun _ after put => ?_
  have put_eq : after = (ledger.drop ip).begin_ := put.2
  subst put_eq
  exact tracks_endOp.mono fun _ after ended => ended.trans (end_begin_ outside)

theorem tracks_pipecloseEnd (p : Nat) (writable : Bool) :
    Tracks hang (pipecloseEnd p writable) ledger fun _ after => Calm ledger after := by
  refine .ite (fun _ => ?_) fun _ => ?_
  all_goals
    refine .bind (tracks_updatePipe p _) fun _ after same => ?_
    subst same
    refine .mono (tracks_wakeup _) fun _ after woken => ?_
    rw [woken]
    exact calm_wake _

theorem tracks_pipeclose (p : Nat) (writable : Bool) :
    Tracks hang (pipeclose p writable) ledger fun _ after => Calm ledger after := by
  refine .bind (tracks_pipecloseEnd p writable) fun _ middle closed => ?_
  refine .get fun kernel _ => .when (fun _ => closed) fun _ => ?_
  refine .mono (tracks_emit (.kfree p)) fun _ after freed => ?_
  -- giving back a page is no event of a transaction
  rw [freed]
  exact closed

/-- Closing a file the ledger counts: what it held is given back. -/
theorem tracks_fileclose (outside : ledger.phase.Idle)
    (free : hang = true ∨ ∀ ip, ledger.Free ip) (f : FilePtr) :
    Tracks hang (fileclose f) ledger fun _ after => Calm ledger after := by
  refine .get fun kernel viewed => .ite (fun _ => .throw trivial) fun held => ?_
  have file_eq : kernel.ftable f = ledger.ftable f := by rw [← viewed]; rfl
  split
  · rename_i several
    refine .mono (tracks_updateFile f _) fun _ after updated => ?_
    rw [updated]
    exact calm_setFile ((inode_drop _ several).trans (congrArg File.inode file_eq))
  · refine .bind (tracks_updateFile f _) fun _ after updated => ?_
    rw [file_eq]
    unfold filerelease
    have counted : (ledger.ftable f).ref ≠ 0 := by
      rw [← file_eq]
      omega
    cases type_eq : (ledger.ftable f).type with
    | none =>
      have idle : (ledger.ftable f).inode = none := by simp [File.inode, type_eq]
      refine .pure ?_
      rw [updated]
      exact calm_setFile ((inode_release _).trans idle.symm)
    | pipe p =>
      have idle : (ledger.ftable f).inode = none := by simp [File.inode, type_eq]
      refine .mono (tracks_pipeclose p _) fun _ after closed => ?_
      rw [updated] at closed
      exact (calm_setFile ((inode_release _).trans idle.symm)).trans closed
    | inode ip off =>
      have holds : (ledger.ftable f).inode = some ip := by
        simp [File.inode, type_eq, counted]
      have released : after.Free ip ∨ hang = true := by
        rcases free with allowed | free
        · exact .inr allowed
        · rw [updated]
          exact .inl (free ip)
      have outside' : after.phase.Idle := by
        rw [updated]
        exact outside
      refine .mono (tracks_putInside outside' released.symm) fun _ final put => ?_
      rw [put, updated]
      refine ⟨⟨rfl, ?_, rfl, rfl, rfl, rfl, fun _ => rfl⟩, fun p => .refl _⟩
      rw [extra_drop, extra_setFile, holds, inode_release]
      simp [heldBy]

/-- Closing a file of no type yet needs no transaction. -/
theorem tracks_fileclose_idle {f : FilePtr} (ref_eq : (ledger.ftable f).ref = 1)
    (idle : (ledger.ftable f).type = .none) :
    Tracks hang (fileclose f) ledger fun _ after =>
      after = ledger.setFile f (ledger.ftable f).release := by
  refine .get fun kernel viewed => .ite (fun _ => .throw trivial) fun held => ?_
  have file_eq : kernel.ftable f = ledger.ftable f := by rw [← viewed]; rfl
  split
  · rename_i several
    rw [file_eq, ref_eq] at several
    exact absurd several (Nat.lt_irrefl 1)
  · refine .bind (tracks_updateFile f _) fun _ after updated => ?_
    rw [file_eq, filerelease, idle]
    exact .pure updated

end Xv6.Resource
