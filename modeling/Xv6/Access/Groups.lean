import Xv6.Access.Open

/-!
# The classes of the open check

What the check of `sys_open` lets a caller do, from one class and one `omode` to the
next. Reading and writing together should be allowed to those who may read and may
write, and a member of the group of a file should be judged by the bits of the group.
The check asks the others for a bit of the group, and the members for the bits of the
others.
-/

namespace Xv6.Access

open Program Resource

/-- The check of `sys_open` lets the caller have what `omode` asks for. -/
def admits (inode : Inode) (credentials : Credentials) (omode : UInt32) : Bool :=
  !unlessRoot credentials.euid (openInvalid inode credentials.euid omode)

section

variable {inode : Inode} {credentials : Credentials}

theorem admits_root (root : credentials.euid = 0) (omode : UInt32) :
    admits inode credentials omode = true := by
  simp [admits, unlessRoot, root]

theorem admits_owner (user : credentials.euid ≠ 0) (owner : inode.uid = credentials.euid) :
    (admits inode credentials O_RDONLY = permits inode.mode .user .read) ∧
      (admits inode credentials O_WRONLY = permits inode.mode .user .write) ∧
      (admits inode credentials O_RDWR =
        (permits inode.mode .user .read && permits inode.mode .user .write)) := by
  have distinct : O_RDONLY ≠ O_RDWR ∧ O_WRONLY ≠ O_RDWR ∧ O_WRONLY ≠ O_RDONLY := by decide
  simp [admits, unlessRoot, user, openInvalid_eq, owner, distinct]

theorem admits_stranger (user : credentials.euid ≠ 0) (stranger : inode.uid ≠ credentials.euid) :
    (admits inode credentials O_RDONLY = permits inode.mode .other .read) ∧
      (admits inode credentials O_WRONLY = permits inode.mode .other .write) ∧
      (admits inode credentials O_RDWR =
        (permits inode.mode .other .read && permits inode.mode .group .write)) := by
  have distinct : O_RDONLY ≠ O_RDWR ∧ O_WRONLY ≠ O_RDWR ∧ O_WRONLY ≠ O_RDONLY := by decide
  simp [admits, unlessRoot, user, openInvalid_eq, stranger, distinct]

end

/-! ## Reading and writing -/

/-- The check grants `O_RDWR` just when it grants `O_RDONLY` and `O_WRONLY`, if and only if
the caller is root or the owner, or the others may not read, or they may write just when
the group may. -/
theorem rdwr_is_both_iff (inode : Inode) (credentials : Credentials) :
    (admits inode credentials O_RDWR = true ↔
        admits inode credentials O_RDONLY = true ∧ admits inode credentials O_WRONLY = true) ↔
      credentials.euid = 0 ∨ inode.uid = credentials.euid ∨
        permits inode.mode .other .read = false ∨
        permits inode.mode .group .write = permits inode.mode .other .write := by
  by_cases root : credentials.euid = 0
  · simp only [admits_root root, root, true_and, true_or]
  by_cases owner : inode.uid = credentials.euid
  · obtain ⟨rdonly, wronly, rdwr⟩ := admits_owner root owner
    rw [rdonly, wronly, rdwr, Bool.and_eq_true]
    exact iff_of_true Iff.rfl (.inr (.inl owner))
  · obtain ⟨rdonly, wronly, rdwr⟩ := admits_stranger root owner
    rw [rdonly, wronly, rdwr]
    cases permits inode.mode .other .read <;> cases permits inode.mode .group .write <;>
      cases permits inode.mode .other .write <;> simp [root, owner]

/-- A file that the group may write and the others may read, and a stranger. -/
theorem rdwr_without_write :
    ∃ (inode : Inode) (credentials : Credentials), inode.type = .file ∧
      admits inode credentials O_RDWR = true ∧ admits inode credentials O_WRONLY = false := by
  refine ⟨{ Inode.zero with toDinode := Dinode.single .file 1 0 0 0o624 0 0 },
    { uid := 1000, euid := 1000, gids := fun _ => 0xffffffff }, rfl, ?_, ?_⟩
  · decide
  · decide

/-! ## Members of the group -/

/-- A process that is neither root nor the owner opens a file of a group that it is in,
and there is a file and a descriptor for it. -/
structure Attempt where
  kernel : Kernel
  p : ProcPtr
  path : Path
  found : Kernel
  locked : Kernel
  ip : InodePtr
  lookup : (do beginOp; namei path) (kernel.enter p) = .ok (some ip) found
  locking : ilock ip found = .ok () locked
  file : (locked.icache ip).type ≠ .dir
  user : (kernel.ptable p).euid ≠ 0
  stranger : (locked.icache ip).uid ≠ (kernel.ptable p).euid
  member : ∃ i, (kernel.ptable p).gids i = (locked.icache ip).gid
  ftable : ∃ f, (locked.ftable f).ref = 0
  ofile : ∃ fd, (kernel.ptable p).ofile fd = none

namespace Attempt

variable (attempt : Attempt)

/-- The inode that the path leads to, as it is read from the disk or the cache. -/
def inode : Inode := attempt.locked.icache attempt.ip

def proc : Proc := attempt.kernel.ptable attempt.p

/-- The call with this `omode`. -/
def call (omode : UInt32) : EStateM.Result Fault Kernel Int :=
  sysOpen (some attempt.path) (some omode) (attempt.kernel.enter attempt.p)

theorem myproc_locked : attempt.locked.myproc = attempt.proc := by
  obtain ⟨_, begun, begins, looks⟩ := bind_ok attempt.lookup
  have begun_eq := (@tracks_beginOp true _ (attempt.kernel.enter attempt.p) rfl).ok begins
  have inside : begun.ledger.phase.Busy := by
    rw [begun_eq]
    exact begin_inside (enter_idle attempt.kernel attempt.p)
  have found_eq := (@tracks_namei true _ inside (.inl rfl) attempt.path begun rfl).ok looks
  have locked_eq := (@tracks_ilock true _ attempt.ip (.inl rfl) attempt.found rfl).ok attempt.locking
  calc attempt.locked.ledger.me
      = attempt.found.ledger.me := by rw [locked_eq.2]; rfl
    _ = begun.ledger.me := by rw [found_eq]; rfl
    _ = attempt.proc := by rw [begun_eq]; rfl

/-- With a file and a descriptor to be had, `openFile` returns the descriptor. -/
theorem sat_openFile_room (kernel : Kernel) (ip : InodePtr) (omode : UInt32)
    (ftable : ∃ f, (kernel.ftable f).ref = 0) (ofile : ∃ fd, kernel.myproc.ofile fd = none) :
    Sat (openFile ip omode) kernel (fun result _ => 0 ≤ result) fun _ _ => True := by
  obtain ⟨f, unused⟩ := ftable
  obtain ⟨fd, free⟩ := ofile
  unfold openFile filealloc
  rw [sat_bind, sat_bind, sat_get]
  split
  · rename_i absent
    exact absurd (decide_eq_true unused) (List.find?_eq_none.mp absent f (List.mem_finRange f))
  · rename_i f' _
    rw [sat_bind, sat_modify, sat_pure]
    change Sat (do let fd ← fdalloc f'; _) _ _ _
    unfold fdalloc
    rw [sat_bind, sat_bind, sat_get]
    split
    · rename_i absent
      exact absurd (decide_eq_true free) (List.find?_eq_none.mp absent fd (List.mem_finRange fd))
    · rename_i fd' _
      rw [sat_bind]
      refine .bind (sat_true _ _) fun _ unlocked _ => .bind (sat_true _ _) fun _ ended _ => ?_
      rw [sat_bind, sat_modify, sat_pure]
      exact Int.natCast_nonneg _

/-- The call returns a descriptor if the check admits the caller, and `-1` otherwise. -/
theorem returns_descriptor_iff {omode : UInt32} {result : Int} {next : Kernel}
    (existing : omode &&& O_CREATE = 0) (run : attempt.call omode = .ok result next) :
    0 ≤ result ↔ admits attempt.inode attempt.proc.toCredentials omode = true := by
  obtain ⟨_, begun, begins, looks⟩ := bind_ok attempt.lookup
  obtain ⟨_, begun', begins', run⟩ := bind_ok run
  cases begins.symm.trans begins'
  rw [if_neg (not_not.mpr existing)] at run
  obtain ⟨_, found, looks', run⟩ := bind_ok run
  cases looks.symm.trans looks'
  obtain ⟨_, locked, locks, run⟩ := bind_ok run
  cases attempt.locking.symm.trans locks
  obtain ⟨_, _, reads, run⟩ := bind_ok run
  cases reads
  have me_eq := attempt.myproc_locked
  have notDirectory : ¬((attempt.locked.icache attempt.ip).type = .dir ∧ omode ≠ O_RDONLY) :=
    fun directory => attempt.file directory.1
  rw [if_neg notDirectory, me_eq] at run
  unfold admits
  rw [Bool.not_eq_true']
  split at run
  · rename_i denied
    have failed : Sat (do
        permissionDenied attempt.path
        iunlockput attempt.ip
        endOp
        pure (-1)) attempt.locked (fun result _ => result = -1) fun _ _ => True :=
      .bind (sat_true _ _) fun _ _ _ => .bind (sat_true _ _) fun _ _ _ =>
        sat_fails fun _ => rfl
    have result_eq := failed.ok run
    exact iff_of_false (by omega) fun passed => Bool.false_ne_true (passed.symm.trans denied)
  · rename_i passed
    have room := sat_openFile_room attempt.locked attempt.ip omode attempt.ftable
      (by rw [me_eq]; exact attempt.ofile)
    exact iff_of_true (room.ok run) (eq_false_of_ne_true passed)

end Attempt

/-- The group of the file and the others have the same right. -/
def Alike (mode : UInt32) (right : Right) : Prop :=
  permits mode .group right = permits mode .other right

instance (mode : UInt32) (right : Right) : Decidable (Alike mode right) :=
  inferInstanceAs (Decidable (_ = _))

/-- For every attempt of a member of the group whose calls return: opening for reading and
opening for writing succeed just when the bits of the group allow it, if and only if the
others have the same bits. Of two such attempts with these bits alike, equal bits of the
group make equal outcomes. -/
theorem group_decides_iff (attempt : Attempt) :
    (∀ (reading writing : Int) (next next' : Kernel),
      attempt.call O_RDONLY = .ok reading next → attempt.call O_WRONLY = .ok writing next' →
      (((0 ≤ reading ↔ permits attempt.inode.mode .group .read = true) ∧
          (0 ≤ writing ↔ permits attempt.inode.mode .group .write = true)) ↔
        Alike attempt.inode.mode .read ∧ Alike attempt.inode.mode .write)) ∧
    (∀ (attempt' : Attempt) (omode : UInt32) (right : Right) (result result' : Int)
      (next next' : Kernel),
      (omode = O_RDONLY ∧ right = .read) ∨ (omode = O_WRONLY ∧ right = .write) →
      attempt.call omode = .ok result next → attempt'.call omode = .ok result' next' →
      Alike attempt.inode.mode right → Alike attempt'.inode.mode right →
      permits attempt.inode.mode .group right = permits attempt'.inode.mode .group right →
      (0 ≤ result ↔ 0 ≤ result')) := by
  constructor
  · intro reading writing next next' reads writes
    obtain ⟨rdonly, wronly, _⟩ := admits_stranger attempt.user attempt.stranger
    have readable := attempt.returns_descriptor_iff (by decide) reads
    have writable := attempt.returns_descriptor_iff (by decide) writes
    rw [Attempt.inode, Attempt.proc] at readable writable
    rw [readable, writable, rdonly, wronly]
    unfold Alike Attempt.inode
    have alike_iff : ∀ right right' : Bool,
        (right' = true ↔ right = true) ↔ right = right' := by decide
    rw [alike_iff, alike_iff]
  · intro attempt' omode right result result' next next' asked run run' alike alike' same
    have decides : ∀ attempt : Attempt,
        admits attempt.inode attempt.proc.toCredentials omode =
          permits attempt.inode.mode .other right := by
      intro attempt
      obtain ⟨rdonly, wronly, _⟩ := admits_stranger attempt.user attempt.stranger
      rcases asked with ⟨rfl, rfl⟩ | ⟨rfl, rfl⟩
      · exact rdonly
      · exact wronly
    have existing : omode &&& O_CREATE = 0 := by
      rcases asked with ⟨rfl, _⟩ | ⟨rfl, _⟩ <;> decide
    rw [attempt.returns_descriptor_iff existing run, attempt'.returns_descriptor_iff existing run',
      decides, decides, ← alike, ← alike', same]

/-- A process of user 1000, in the group 7, on a disk with one file of that group. -/
def memberKernel (mode : UInt32) : Kernel :=
  (Kernel.boot (.image 0o755 [(2, [102])] [Dinode.single .file 1 0 0 mode 0 7] [])).updateProc 0
    fun proc => { proc with uid := 1000, euid := 1000
                            gids := fun i => if i = 0 then 7 else 0xffffffff }

/-- The attempt of that process, if its lookup can be evaluated. -/
theorem exists_attempt {mode : UInt32} (evaluated :
    (outcome (do beginOp; namei [102]) ((memberKernel mode).enter 0)).any (fun (found, looked) =>
      found.any fun ip => (outcome (ilock ip) looked).any fun (_, locked) =>
        decide ((locked.icache ip).type ≠ .dir ∧ (locked.icache ip).uid ≠ 1000 ∧
          (locked.icache ip).gid = 7 ∧ (locked.icache ip).mode = mode ∧
          (locked.ftable 0).ref = 0)) = true) :
    ∃ attempt : Attempt, attempt.kernel = memberKernel mode ∧ attempt.p = 0 ∧
      attempt.path = [102] ∧ attempt.inode.mode = mode := by
  obtain ⟨found, looked, lookup, holds⟩ := exists_of_outcome evaluated
  obtain _ | ip := found
  · cases holds
  obtain ⟨_, locked, locking, holds⟩ := exists_of_outcome holds
  obtain ⟨file, stranger, group_eq, mode_eq, unused⟩ := of_decide_eq_true holds
  refine ⟨⟨memberKernel mode, 0, [102], looked, locked, ip, lookup, locking, file, ?_, stranger,
    ⟨0, group_eq.symm⟩, ⟨0, unused⟩, 0, rfl⟩, rfl, rfl, rfl, mode_eq⟩
  change (1000 : UInt32) ≠ 0
  decide

/-- The file may be read by the group and by nobody else, and a member may not. -/
theorem member_is_denied : ∃ (attempt : Attempt) (next : Kernel),
    attempt.call O_RDONLY = .ok (-1) next ∧ permits attempt.inode.mode .group .read = true := by
  obtain ⟨attempt, kernel_eq, p_eq, path_eq, mode_eq⟩ :=
    @exists_attempt 0o640 (by decide +kernel)
  have evaluated : (outcome (sysOpen (some [102]) (some O_RDONLY))
      ((memberKernel 0o640).enter 0)).any (fun (result, _) => decide (result = -1)) = true := by
    decide +kernel
  obtain ⟨result, next, run, holds⟩ := exists_of_outcome evaluated
  obtain rfl := of_decide_eq_true holds
  refine ⟨attempt, next, ?_, by rw [mode_eq]; decide⟩
  unfold Attempt.call
  rw [kernel_eq, p_eq, path_eq]
  exact run

/-- A public file is read, and not written. -/
theorem group_decides_iff_public : ∃ (attempt : Attempt) (reading writing : Int)
    (next next' : Kernel), attempt.call O_RDONLY = .ok reading next ∧
      attempt.call O_WRONLY = .ok writing next' ∧
      (0 ≤ reading ↔ permits attempt.inode.mode .group .read = true) ∧
      (0 ≤ writing ↔ permits attempt.inode.mode .group .write = true) := by
  obtain ⟨attempt, kernel_eq, p_eq, path_eq, mode_eq⟩ :=
    @exists_attempt 0o644 (by decide +kernel)
  have runs : ∀ omode, (outcome (sysOpen (some [102]) (some omode))
      ((memberKernel 0o644).enter 0)).any (fun _ => true) = true →
      ∃ result next, attempt.call omode = .ok result next := by
    intro omode evaluated
    obtain ⟨result, next, run, _⟩ := exists_of_outcome evaluated
    refine ⟨result, next, ?_⟩
    unfold Attempt.call
    rw [kernel_eq, p_eq, path_eq]
    exact run
  obtain ⟨reading, next, reads⟩ := runs O_RDONLY (by decide +kernel)
  obtain ⟨writing, next', writes⟩ := runs O_WRONLY (by decide +kernel)
  refine ⟨attempt, reading, writing, next, next', reads, writes, ?_⟩
  refine ((group_decides_iff attempt).1 reading writing next next' reads writes).mpr ?_
  rw [mode_eq]
  decide

end Xv6.Access
