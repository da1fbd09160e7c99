import Xv6.Access.Mode
import Xv6.Kernel.Boot
import Xv6.Resource.Calls

/-!
# `sys_open` as a reference monitor

The check of `sys_open` compares `omode` with three constants, while the rights
of the file it returns are taken from two of its bits. The two decodings are
compared here for every mode, caller and `omode`.
-/

namespace Xv6.Access

open Program Resource

/-! ## The decision -/

/-- The rights that the file of a successful open has. -/
def opensFor (omode : UInt32) : Right → Bool
  | .read => omode &&& O_WRONLY = 0
  | .write => omode &&& O_WRONLY ≠ 0 ∨ omode &&& O_RDWR ≠ 0
  | .execute => false

/-- The mode grants the class every right that the file has. -/
def Grants (mode : UInt32) (accessClass : AccessClass) (omode : UInt32) : Prop :=
  ∀ right, opensFor omode right = true → permits mode accessClass right = true

/-- The three values of `omode` that the check knows. -/
def Named (omode : UInt32) : Prop := omode = O_RDONLY ∨ omode = O_WRONLY ∨ omode = O_RDWR

/-- When a successful open respects the mode. The owner is checked for the three
named modes only. A member of the group is never checked against the group bits.
For the others the check of `O_RDWR` looks at the wrong write bit. -/
def OpenRespects (mode : UInt32) (accessClass : AccessClass) (omode : UInt32) : Prop :=
  match accessClass with
  | .user => Named omode ∨ Grants mode .user omode
  | .group => Grants mode .group omode
  | .other =>
    omode = O_RDONLY ∨ omode = O_WRONLY ∨
      (omode = O_RDWR ∧ permits mode .other .write = true) ∨
      (¬Named omode ∧ Grants mode .other omode)

/-- The check of `sys_open`, in terms of rights. -/
theorem openInvalid_eq (inode : Inode) (euid omode : UInt32) :
    openInvalid inode euid omode =
      if omode = O_RDWR then
        !(if inode.uid = euid then
            permits inode.mode .user .read && permits inode.mode .user .write
          else permits inode.mode .other .read && permits inode.mode .group .write)
      else if omode = O_RDONLY then
        !(if inode.uid = euid then permits inode.mode .user .read
          else permits inode.mode .other .read)
      else if omode = O_WRONLY then
        !(if inode.uid = euid then permits inode.mode .user .write
          else permits inode.mode .other .write)
      else false := by
  simp only [openInvalid, classInvalid_eq, ← modeBit_eq_permits, bitIndex, decide_eq_true_eq]

theorem grants_iff_both {mode : UInt32} {accessClass : AccessClass} {omode : UInt32} :
    Grants mode accessClass omode ↔
      (opensFor omode .read = true → permits mode accessClass .read = true) ∧
        (opensFor omode .write = true → permits mode accessClass .write = true) := by
  constructor
  · exact fun grants => ⟨grants .read, grants .write⟩
  · rintro ⟨read, write⟩ right asked
    cases right with
    | read => exact read asked
    | write => exact write asked
    | execute => cases asked

/-- What the check of each named `omode` comes to for a caller that it takes for
a member of `accessClass`. -/
theorem grants_named {mode : UInt32} {accessClass : AccessClass} :
    (Grants mode accessClass O_RDONLY ↔ permits mode accessClass .read = true) ∧
    (Grants mode accessClass O_WRONLY ↔ permits mode accessClass .write = true) ∧
    (Grants mode accessClass O_RDWR ↔
      permits mode accessClass .read = true ∧ permits mode accessClass .write = true) := by
  have rdonly : opensFor O_RDONLY .read = true ∧ opensFor O_RDONLY .write = false := by decide
  have wronly : opensFor O_WRONLY .read = false ∧ opensFor O_WRONLY .write = true := by decide
  have rdwr : opensFor O_RDWR .read = true ∧ opensFor O_RDWR .write = true := by decide
  simp [grants_iff_both, rdonly, wronly, rdwr]

/-- An open that passes the check respects the mode exactly under the condition. -/
theorem grants_iff {inode : Inode} {credentials : Credentials} {omode : UInt32}
    (passed : openInvalid inode credentials.euid omode = false) :
    Grants inode.mode (classOf inode.uid inode.gid credentials) omode ↔
      OpenRespects inode.mode (classOf inode.uid inode.gid credentials) omode := by
  have distinct : O_RDONLY ≠ O_RDWR ∧ O_WRONLY ≠ O_RDWR ∧ O_WRONLY ≠ O_RDONLY := by decide
  obtain ⟨rdonly_rdwr, wronly_rdwr, wronly_rdonly⟩ := distinct
  obtain ⟨rdonly, wronly, rdwr⟩ := @grants_named inode.mode
    (classOf inode.uid inode.gid credentials)
  rw [openInvalid_eq] at passed
  by_cases owner : inode.uid = credentials.euid
  · have class_eq : classOf inode.uid inode.gid credentials = .user := if_pos owner
    rw [class_eq] at rdonly wronly rdwr ⊢
    refine ⟨.inr, fun respects => respects.elim (fun named => ?_) id⟩
    rcases named with rfl | rfl | rfl
    · rw [rdonly]
      simpa [owner, rdonly_rdwr] using passed
    · rw [wronly]
      simpa [owner, wronly_rdwr, wronly_rdonly] using passed
    · rw [rdwr]
      simpa [owner] using passed
  · by_cases member : ∃ i, credentials.gids i = inode.gid
    · have class_eq : classOf inode.uid inode.gid credentials = .group := by
        simp only [classOf, owner, member, if_true, if_false]
      rw [class_eq]
      exact Iff.rfl
    · have class_eq : classOf inode.uid inode.gid credentials = .other := by
        simp only [classOf, owner, member, if_false]
      rw [class_eq] at rdonly wronly rdwr ⊢
      constructor
      · intro grants
        by_cases named : Named omode
        · rcases named with same | same | same
          · exact .inl same
          · exact .inr (.inl same)
          · subst same
            exact .inr (.inr (.inl ⟨rfl, (rdwr.mp grants).2⟩))
        · exact .inr (.inr (.inr ⟨named, grants⟩))
      · rintro (rfl | rfl | ⟨rfl, write⟩ | ⟨_, grants⟩)
        · rw [rdonly]
          simpa [owner, rdonly_rdwr] using passed
        · rw [wronly]
          simpa [owner, wronly_rdwr, wronly_rdonly] using passed
        · have both : permits inode.mode .other .read = true ∧
              permits inode.mode .group .write = true := by simpa [owner] using passed
          exact rdwr.mpr ⟨both.1, write⟩
        · exact grants

/-! ## The call -/

/-- Inode attributes and the tables of files and processes stay as they are. -/
structure Untouched (before after : Kernel) : Prop where
  attributes : ∀ ip, (after.icache ip).toDinode = (before.icache ip).toDinode
  ftable : after.ftable = before.ftable
  ptable : after.ptable = before.ptable
  cur : after.cur = before.cur

theorem Untouched.refl (kernel : Kernel) : Untouched kernel kernel :=
  ⟨fun _ => rfl, rfl, rfl, rfl⟩

theorem Untouched.trans {before middle after : Kernel} (first : Untouched before middle)
    (second : Untouched middle after) : Untouched before after where
  attributes ip := (second.attributes ip).trans (first.attributes ip)
  ftable := second.ftable.trans first.ftable
  ptable := second.ptable.trans first.ptable
  cur := second.cur.trans first.cur

theorem untouched_iunlock (ip : InodePtr) : Keeps Untouched (fun _ => True) (iunlock ip) := by
  intro kernel
  unfold iunlock
  rw [sat_bind, sat_get, sat_ite]
  split
  · trivial
  · refine ⟨fun ip' => ?_, rfl, rfl, rfl⟩
    by_cases same : ip' = ip
    · subst same
      simp [Kernel.updateInode]
    · simp [Kernel.updateInode, same]

theorem untouched_endOp : Keeps Untouched (fun _ => True) endOp := by
  refine .bind Untouched.trans (.modify fun kernel => ⟨fun _ => rfl, rfl, rfl, rfl⟩)
    fun _ => ?_
  refine .bind Untouched.trans (.modify fun kernel => ⟨fun _ => rfl, rfl, rfl, rfl⟩)
    fun _ => ?_
  refine .bind Untouched.trans (.get Untouched.refl) fun kernel => ?_
  refine .ite (fun _ => .throw trivial) fun _ => .ite (fun _ => ?_) fun _ => ?_
  · exact .modify fun kernel => ⟨fun _ => rfl, rfl, rfl, rfl⟩
  · exact .pure Untouched.refl ()

/-- The descriptor that `openFile` returns refers to a file of the inode, with
the rights the bits of `omode` give. -/
structure Opened (kernel : Kernel) (ip : InodePtr) (omode : UInt32) (result : Int) (next : Kernel) :
    Prop where
  descriptor : ∃ (fd : Fin NOFILE) (f : FilePtr), result = fd.val ∧
    next.myproc.ofile fd = some f ∧ (next.ftable f).type = .inode ip 0 ∧
    (next.ftable f).readable = opensFor omode .read ∧
    (next.ftable f).writable = opensFor omode .write
  attributes : (next.icache ip).toDinode = (kernel.icache ip).toDinode
  identity : next.myproc.toCredentials = kernel.myproc.toCredentials

/-- A branch that gives up: whatever it does first, it returns `-1`. -/
theorem sat_fails {kernel : Kernel} {body : Kern Unit} {post : Int → Kernel → Prop}
    (minusOne : ∀ next, post (-1) next) :
    Sat (do body; pure (-1)) kernel post fun _ _ => True :=
  .bind (sat_true body kernel) fun _ next _ => minusOne next

theorem sat_openFile (kernel : Kernel) (ip : InodePtr) (omode : UInt32) :
    Sat (openFile ip omode) kernel
      (fun result next => result = -1 ∨ Opened kernel ip omode result next) fun _ _ => True := by
  unfold openFile filealloc
  rw [sat_bind, sat_bind, sat_get]
  split
  · refine .bind (sat_true _ _) fun _ next _ => sat_fails fun _ => .inl rfl
  · rename_i f found
    rw [sat_bind, sat_modify, sat_pure]
    change Sat (do let fd ← fdalloc f; _) _ _ _
    unfold fdalloc
    rw [sat_bind, sat_bind, sat_get]
    split
    · refine .bind (sat_true _ _) fun _ next _ => ?_
      exact .bind (sat_true _ _) fun _ next _ => sat_fails fun _ => .inl rfl
    · rename_i fd free
      rw [sat_bind]
      refine .bind ((untouched_iunlock ip _).mono (fun _ _ kept => kept) fun _ _ _ => trivial)
        fun _ unlocked first => ?_
      refine .bind ((untouched_endOp _).mono (fun _ _ kept => kept) fun _ _ _ => trivial)
        fun _ ended second => ?_
      have kept := first.trans second
      rw [sat_bind, sat_modify, sat_pure]
      have file_eq : ended.ftable f = (kernel.ftable f).taken := by
        rw [kept.ftable]
        simp [Kernel.updateProc, Kernel.updateFile]
      have me_eq : (ended.updateFile f fun file => file.open (.inode ip 0)
          (omode &&& O_WRONLY = 0) (omode &&& O_WRONLY ≠ 0 ∨ omode &&& O_RDWR ≠ 0)).myproc =
          { kernel.myproc with ofile := Function.update kernel.myproc.ofile fd (some f) } := by
        change ended.ptable ended.cur = _
        rw [kept.ptable, kept.cur]
        simp [Kernel.updateProc, Kernel.updateFile, Kernel.myproc]
      refine .inr ⟨⟨fd, f, rfl, ?_, ?_⟩, kept.attributes ip, by rw [me_eq]⟩
      · rw [me_eq]
        simp
      · simp [Kernel.updateFile, File.open, file_eq, File.taken, opensFor]

/-- The state after a lookup still has the caller's process entry. -/
theorem sat_openPath (kernel : Kernel) (inside : kernel.ledger.phase.Busy) (path : Path)
    (omode : UInt32) :
    Sat (openPath path omode) kernel
      (fun result next => result = -1 ∨ ∃ found ip, found.myproc = kernel.myproc ∧
        unlessRoot kernel.myproc.euid
          (openInvalid (found.icache ip) kernel.myproc.euid omode) = false ∧
        Opened found ip omode result next) fun _ _ => True := by
  have looked := @tracks_namei true _ inside (.inl rfl) path kernel rfl
  unfold openPath withInode
  refine .bind (looked.mono (fun _ _ held => held) fun _ _ _ => trivial) fun found middle held => ?_
  cases found with
  | none => exact sat_fails fun _ => .inl rfl
  | some ip =>
    have locking := @tracks_ilock true _ ip (.inl rfl) middle rfl
    unfold openInode
    refine .bind (locking.mono (fun _ _ held => held) fun _ _ _ => trivial)
      fun _ locked lockedHeld => ?_
    have me_eq : locked.myproc = kernel.myproc := by
      have first : middle.ledger.me = kernel.ledger.me := by rw [held]; rfl
      have second : locked.ledger.me = middle.ledger.me := by rw [lockedHeld.2]; rfl
      exact second.trans first
    rw [sat_bind, sat_get, sat_ite]
    split
    · exact .bind (sat_true _ _) fun _ _ _ => sat_fails fun _ => .inl rfl
    · rw [sat_ite]
      split
      · refine .bind (sat_true _ _) fun _ _ _ => ?_
        exact .bind (sat_true _ _) fun _ _ _ => sat_fails fun _ => .inl rfl
      · rename_i denied
        refine (sat_openFile locked ip omode).weaken fun result next outcome => ?_
        rw [me_eq] at denied
        exact outcome.imp id fun opened => ⟨locked, ip, me_eq, by simpa using denied, opened⟩

/-- An open file has only rights that the mode of its inode grants to the class
of the process with these credentials. -/
def Sound (file : File) (inode : Inode) (credentials : Credentials) : Prop :=
  (file.readable = true →
    permits inode.mode (classOf inode.uid inode.gid credentials) .read = true) ∧
  (file.writable = true →
    permits inode.mode (classOf inode.uid inode.gid credentials) .write = true)

/-- A process of user 1000, in no group, on a disk with one file. -/
def oneFileKernel (mode : UInt32) : Kernel :=
  (Kernel.boot (.image 0o755 [(2, [102])] [Dinode.single .file 1 0 0 mode 0 0] [])).updateProc 0
    fun proc => { proc with uid := 1000, euid := 1000, gids := fun _ => 0xffffffff }

end Xv6.Access
