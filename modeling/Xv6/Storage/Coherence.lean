import Xv6.Storage.Inodes

/-!
# The inode cache over runs

Processes take and give references to inodes, lock them, and change those they
have locked, in any order. An inode changes through `writei`, through `itrunc`, or
by an assignment that `iupdate` follows. Starting from an empty cache, on a disk
whose blocks are owned and whose files have no holes, no inode is ever cached
twice, no entry that can be locked differs from its inode, and no file gets a hole.
-/

namespace Xv6

open Program Transition Function Option

/-- The assignments to a locked inode that the system calls write back at once. -/
inductive FieldUpdate where
  /-- `create` of a new inode. -/
  | create (major minor : Int16)
  /-- A link more: `sys_link`, and `create` for the parent of a new directory. -/
  | link
  /-- A link less: `sys_unlink`, and `sys_link` when it fails. -/
  | unlink
  | chmod (mode : UInt32)
  | chown (owner group : UInt32)
deriving DecidableEq

def FieldUpdate.apply (update : FieldUpdate) (inode : Inode) : Inode :=
  match update with
  | .create major minor => { inode with major := major, minor := minor, nlink := 1 }
  | .link => { inode with nlink := inode.nlink + 1 }
  | .unlink => { inode with nlink := inode.nlink - 1 }
  | .chmod mode => { inode with mode := mode }
  | .chown owner group =>
    { inode with uid := if owner = 0xffffffff then inode.uid else owner, gid := group }

theorem FieldUpdate.attributes (update : FieldUpdate) :
    Attributes fun inode => update.apply inode := by
  constructor
  intro inode
  cases update <;> rfl

/-- What a process does with the inode cache. -/
inductive InodeCall where
  | beginOp
  | endOp
  | iget (inum : Nat)
  | idup (ip : InodePtr)
  | ilock (ip : InodePtr)
  | iunlock (ip : InodePtr)
  | iput (ip : InodePtr)
  | ialloc (type : InodeType) (uid mode : UInt32)
  | writei (ip : InodePtr) (src : Nat → Byte) (off n : UInt32)
  | itrunc (ip : InodePtr)
  | iupdate (ip : InodePtr)
  | assign (ip : InodePtr) (update : FieldUpdate)

def InodeCall.run : InodeCall → Kern Unit
  | .beginOp => Xv6.beginOp
  | .endOp => Xv6.endOp
  | .iget inum => do let _ ← Xv6.iget ROOTDEV inum
  | .idup ip => do let _ ← Xv6.idup ip
  | .ilock ip => Xv6.ilock ip
  | .iunlock ip => Xv6.iunlock ip
  | .iput ip => Xv6.iput ip
  | .ialloc type uid mode => do let _ ← Xv6.ialloc ROOTDEV type uid mode
  | .writei ip src off n => do let _ ← Xv6.writei ip src off n
  | .itrunc ip => Xv6.itrunc ip
  | .iupdate ip => Xv6.iupdate ip
  | .assign ip update => do
      writeInode ip update.apply
      Xv6.iupdate ip

/-- A call by one of the processes that returns. -/
def Kernel.perform (kernel : Kernel) (label : ProcPtr × InodeCall) : Option Kernel :=
  (outcome label.2.run (kernel.enter label.1)).map Prod.snd

/-- The rules of the cache: a reference is duplicated or given back by who has one,
and an inode is changed by who has locked it. -/
def InodeCall.Disciplined (kernel : Kernel) (p : ProcPtr) : InodeCall → Prop
  | .idup ip | .iput ip => 0 < (kernel.icache ip).ref
  | .writei ip _ _ _ | .itrunc ip | .iupdate ip | .assign ip _ =>
    (kernel.icache ip).lock = some (kernel.ptable p).pid
  | _ => True

instance (kernel : Kernel) (p : ProcPtr) (call : InodeCall) :
    Decidable (call.Disciplined kernel p) := by
  cases call <;> unfold InodeCall.Disciplined <;> infer_instance

namespace Storage

variable {store after : Store} {ip : InodePtr} {base : InodePtr → Int}

/-- The cache agrees with the disk, and what is locked is referenced and has been read. -/
structure Coherent (store : Store) : Prop where
  sound : Sound store
  locked : ∀ ip, (store.icache ip).lock ≠ none → Loaded store ip

/-- Entries that were locked stay so, with the references they had. -/
theorem Coherent.keep (coherent : Coherent store) (sound : Sound after)
    (stays : Stays base store after)
    (kept : ∀ ip, (after.icache ip).lock ≠ none →
      0 < base ip ∧ (store.icache ip).lock ≠ none ∧ (store.icache ip).ref ≤ (after.icache ip).ref) :
    Coherent after where
  sound := sound
  locked ip locked := by
    obtain ⟨guarded, before, counted⟩ := kept ip locked
    have loaded := coherent.locked ip before
    exact ⟨loaded.held.trans_le counted, stays.valid ip guarded loaded.valid⟩

/-- The entries that are locked, as references of their owners. -/
def lockers (store : Store) : InodePtr → Int :=
  fun ip => if (store.icache ip).lock = none then 0 else 1

theorem lockers_pos : 0 < lockers store ip ↔ (store.icache ip).lock ≠ none := by
  unfold lockers
  split
  · simp_all
  · simp_all

theorem Coherent.held (coherent : Coherent store) (ip : InodePtr) (locked : 0 < lockers store ip) :
    0 < (store.icache ip).ref :=
  (coherent.locked ip (lockers_pos.mp locked)).held

/-- One reference more. -/
theorem Coherent.taken (coherent : Coherent store) (sound : Sound after)
    (stays : Stays (lockers store) store after) (account_eq : after.account = store.account.take ip) :
    Coherent after := by
  refine coherent.keep sound stays fun ip' locked => ?_
  have lock_eq : (after.icache ip').lock = (store.icache ip').lock :=
    congrFun (congrArg Account.locks account_eq) ip'
  have ref_eq : (after.icache ip').ref = (store.icache ip').ref + Pi.single (M := fun _ => Int) ip 1 ip' :=
    congrFun (congrArg Account.refs account_eq) ip'
  rw [lock_eq] at locked
  refine ⟨lockers_pos.mpr locked, locked, ?_⟩
  rw [ref_eq]
  have nonneg : (0 : Int) ≤ Pi.single (M := fun _ => Int) ip 1 ip' := by
    by_cases here : ip' = ip
    · subst here
      simp
    · simp [here]
  omega

section

variable (coherent : Coherent store)

include coherent

theorem Coherent.edited {inum : Nat} (edits : Edits inum store after) : Coherent after := by
  refine coherent.keep edits.sound (edits.stays (lockers store)) fun ip' locked => ?_
  have lock_eq : (after.icache ip').lock = (store.icache ip').lock :=
    congrFun (congrArg Account.locks edits.account) ip'
  have ref_eq : (after.icache ip').ref = (store.icache ip').ref :=
    congrFun (congrArg Account.refs edits.account) ip'
  rw [lock_eq] at locked
  exact ⟨lockers_pos.mpr locked, locked, ref_eq.ge⟩

theorem Coherent.congr (sb_eq : after.sb = store.sb) (disk_eq : after.disk = store.disk)
    (icache_eq : after.icache = store.icache) :
    Coherent after where
  sound := coherent.sound.congr sb_eq disk_eq icache_eq
  locked ip locked := by
    rw [icache_eq] at locked
    have loaded := coherent.locked ip locked
    exact ⟨by rw [icache_eq]; exact loaded.held, by rw [icache_eq]; exact loaded.valid⟩

theorem coherent_ilock (ip : InodePtr) :
    Stores (fun _ => True) (ilock ip) store fun _ after => Coherent after := by
  refine .mono (calm_ilock (lockers store) coherent.sound (.inl trivial) (lockable_any _ ip) (.inl trivial))
    fun _ after outcome => ?_
  obtain ⟨calm, account_eq, _, _, loaded, _⟩ := outcome
  refine ⟨calm.sound, fun ip' locked => ?_⟩
  by_cases here : ip' = ip
  · subst here
    exact loaded
  · have lock_eq : (after.icache ip').lock = (store.icache ip').lock :=
      (congrFun (congrArg Account.locks account_eq) ip').trans (update_of_ne here _ _)
    have ref_eq : (after.icache ip').ref = (store.icache ip').ref :=
      congrFun (congrArg Account.refs account_eq) ip'
    rw [lock_eq] at locked
    have loaded := coherent.locked ip' locked
    exact ⟨by rw [ref_eq]; exact loaded.held,
      calm.stays.valid ip' (lockers_pos.mpr locked) loaded.valid⟩

theorem coherent_iunlock (ip : InodePtr) :
    Stores (fun _ => True) (iunlock ip) store fun _ after => Coherent after := by
  refine .mono (calm_iunlock (lockers store) coherent.sound ip (.inl trivial)) fun _ after outcome => ?_
  obtain ⟨calm, account_eq, _, _, _⟩ := outcome
  refine coherent.keep calm.sound calm.stays fun ip' locked => ?_
  have ref_eq : (after.icache ip').ref = (store.icache ip').ref :=
    congrFun (congrArg Account.refs account_eq) ip'
  have lock_eq : (after.icache ip').lock = update store.account.locks ip none ip' :=
    congrFun (congrArg Account.locks account_eq) ip'
  by_cases here : ip' = ip
  · subst here
    rw [lock_eq, update_self] at locked
    exact absurd rfl locked
  · rw [lock_eq, update_of_ne here] at locked
    exact ⟨lockers_pos.mpr locked, locked, ref_eq.ge⟩

/-- A reference is given back by a process that waited until nobody had the lock. -/
theorem coherent_iput (ip : InodePtr) :
    Stores (fun _ => True) (iput ip) store fun _ after => Coherent after := by
  have ours : 0 < update (lockers store) ip 0 ip → 2 ≤ (store.icache ip).ref := by
    intro absurdity
    rw [update_self] at absurdity
    exact absurd absurdity (by decide)
  refine .mono (calm_iput (update (lockers store) ip 0) coherent.sound (lockable_any _ ip) (.inl (tolerant_any _)) ours)
    fun _ after outcome => ?_
  obtain ⟨calm, account_eq, unlocked, _⟩ := outcome
  refine coherent.keep calm.sound calm.stays fun ip' locked => ?_
  have lock_eq : (after.icache ip').lock = (store.icache ip').lock :=
    congrFun (congrArg Account.locks account_eq) ip'
  rw [lock_eq] at locked
  have other : ip' ≠ ip := by
    rintro rfl
    exact locked unlocked
  have ref_eq : (after.icache ip').ref = (store.icache ip').ref := by
    refine (congrFun (congrArg Account.refs account_eq) ip').trans ?_
    simp [Store.account, other]
  rw [update_of_ne other]
  exact ⟨lockers_pos.mpr locked, locked, ref_eq.ge⟩

end

/-- Each call that follows the rules keeps the cache coherent. -/
theorem coherent_call {kernel next : Kernel} (coherent : Coherent kernel.store) (call : InodeCall)
    (disciplined : call.Disciplined kernel kernel.cur) (ran : call.run kernel = .ok () next) :
    Coherent next.store := by
  have mine (ip : InodePtr) (lock_eq : (kernel.icache ip).lock = some kernel.myproc.pid) :
      Loaded kernel.store ip := by
    refine coherent.locked ip fun unlocked => ?_
    cases lock_eq.symm.trans unlocked
  cases call with
  | beginOp =>
    have outcome := (stores_beginOp kernel rfl).ok ran
    exact coherent.congr (by rw [outcome]) (by rw [outcome]) (by rw [outcome])
  | endOp =>
    have outcome := (stores_endOp kernel rfl).ok ran
    exact coherent.congr (by rw [outcome]) (by rw [outcome]) (by rw [outcome])
  | iget inum =>
    have spec : Stores (fun _ => True) (InodeCall.run (.iget inum)) kernel.store
        fun _ after => Coherent after :=
      .bind (calm_iget (.inl trivial) (lockers kernel.store) coherent.sound coherent.held)
        fun _ _ taken => .pure (coherent.taken taken.1.sound taken.1.stays taken.2.1)
    exact (spec kernel rfl).ok ran
  | idup ip =>
    have spec : Stores (fun _ => True) (InodeCall.run (.idup ip)) kernel.store
        fun _ after => Coherent after :=
      .bind (calm_idup (lockers kernel.store) coherent.sound disciplined)
        fun _ _ taken => .pure (coherent.taken taken.2.1.sound taken.2.1.stays taken.2.2.1)
    exact (spec kernel rfl).ok ran
  | ilock ip => exact (coherent_ilock coherent ip kernel rfl).ok ran
  | iunlock ip => exact (coherent_iunlock coherent ip kernel rfl).ok ran
  | iput ip => exact (coherent_iput coherent ip kernel rfl).ok ran
  | ialloc type uid mode =>
    have spec : Stores (fun _ => True) (InodeCall.run (.ialloc type uid mode)) kernel.store
        fun _ after => Coherent after :=
      .bind (stores_ialloc (lockers kernel.store) coherent.sound coherent.held type uid mode)
        fun _ _ taken => .pure (coherent.taken taken.1 taken.2.1 taken.2.2.1)
    exact (spec kernel rfl).ok ran
  | writei ip src off n =>
    have spec : Stores (fun _ => True) (InodeCall.run (.writei ip src off n)) kernel.store
        fun _ after => Coherent after :=
      .bind (edits_writei coherent.sound (mine ip disciplined) src off n)
        fun _ _ wrote => .pure (coherent.edited wrote)
    exact (spec kernel rfl).ok ran
  | itrunc ip =>
    have spec : Stores (fun _ => True) (itrunc ip) kernel.store fun _ after => Coherent after :=
      .mono (edits_itrunc coherent.sound (mine ip disciplined))
        fun _ _ edits => coherent.edited edits
    exact (spec kernel rfl).ok ran
  | iupdate ip =>
    have spec : Stores (fun _ => True) (iupdate ip) kernel.store fun _ after =>
        after = kernel.store := stores_iupdate_clean coherent.sound (mine ip disciplined)
    rw [(spec kernel rfl).ok ran]
    exact coherent
  | assign ip update =>
    have spec : Stores (fun _ => True) (InodeCall.run (.assign ip update)) kernel.store
        fun _ after => Coherent after :=
      .mono (edits_assign coherent.sound (mine ip disciplined) update.attributes)
        fun _ _ assigned => coherent.edited assigned.1
    exact (spec kernel rfl).ok ran

/-- One step of a run. -/
theorem coherent_perform {kernel next : Kernel} {label : ProcPtr × InodeCall}
    (coherent : Coherent kernel.store) (disciplined : label.2.Disciplined kernel label.1)
    (performed : kernel.perform label = some next) : Coherent next.store := by
  obtain ⟨p, call⟩ := label
  obtain ⟨⟨_, after⟩, returned, rfl⟩ := map_eq_some_iff.mp performed
  have entered : Coherent (kernel.enter p).store := coherent.congr rfl rfl rfl
  exact coherent_call entered call disciplined (outcome_eq_some.mp returned)

/-- The processes make the calls in turn, and each follows the rules. -/
abbrev Calls (kernel : Kernel) (labels : List (ProcPtr × InodeCall)) (last : Kernel) : Prop :=
  Steps (Guarded (fun kernel label next => kernel.perform label = some next)
    fun kernel label => label.2.Disciplined kernel label.1) kernel labels last

theorem Coherent.calls {kernel last : Kernel} {labels : List (ProcPtr × InodeCall)}
    (coherent : Coherent kernel.store) (run : Calls kernel labels last) : Coherent last.store :=
  run.invariant (fun kernel => Coherent kernel.store) coherent fun coherent step =>
    coherent_perform coherent step.1 step.2

/-- A file without a hole has a block number in every slot below its size. -/
theorem slot_of_filled {disk : Disk} {inum bn : Nat} (filled : disk.Filled inum)
    (below : bn < ((disk.dinode inum).size.toNat + (BSIZE - 1)) / BSIZE) :
    ∃ slot, slotOf bn = some slot ∧ disk.points (inum, slot) ≠ 0 := by
  have inside : bn * BSIZE < (disk.dinode inum).size.toNat := by
    have bound := (Nat.lt_div_iff_mul_lt (by decide)).mp below
    omega
  obtain ⟨block, block_eq⟩ := isSome_iff_exists.mp (filled bn inside)
  obtain ⟨slot, slot_eq, present, _⟩ := file_eq_some.mp block_eq
  exact ⟨slot, slot_eq, present⟩

/-- The cache starts out empty. -/
theorem coherent_of_run {kernel last : Kernel} {labels : List (ProcPtr × InodeCall)}
    (owned : kernel.disk.Owned kernel.sb)
    (filled : ∀ inum, (kernel.disk.dinode inum).type ≠ .free →
      (kernel.disk.dinode inum).type ≠ .dev → kernel.disk.Filled inum)
    (empty : ∀ ip, (kernel.icache ip).ref = 0 ∧ (kernel.icache ip).lock = none)
    (run : Calls kernel labels last) : Coherent last.store := by
  have unused : ∀ ip, ¬0 < (kernel.icache ip).ref := fun ip => by
    rw [(empty ip).1]
    decide
  have start : Coherent kernel.store := by
    refine ⟨⟨owned, filled, ?_, ?_, ?_, ?_⟩, fun ip locked => absurd (empty ip).2 locked⟩
    · exact fun ip held => absurd held (unused ip)
    · exact fun ip held => absurd held (unused ip)
    · exact fun ip held => absurd held (unused ip)
    · exact fun ip _ held => absurd held (unused ip)
  exact start.calls run

/-- The cache starts out empty, on a disk whose blocks are owned and whose files have
no holes. However processes use it from then on, an inode is cached at most once, an
entry that has been read and is not locked agrees with its inode in every field, and
no file or directory gets a hole. So `readi` of a file or directory changes nothing,
and it does so outside of a transaction as well: it never reaches `log_write`. -/
theorem inode_cache_coherent {kernel last : Kernel} {labels : List (ProcPtr × InodeCall)}
    (owned : kernel.disk.Owned kernel.sb)
    (filled : ∀ inum, (kernel.disk.dinode inum).type ≠ .free →
      (kernel.disk.dinode inum).type ≠ .dev → kernel.disk.Filled inum)
    (empty : ∀ ip, (kernel.icache ip).ref = 0 ∧ (kernel.icache ip).lock = none)
    (run : Steps (Guarded (fun kernel label next => kernel.perform label = some next)
      fun kernel label => label.2.Disciplined kernel label.1) kernel labels last) :
    (∀ ip ip', 0 < (last.icache ip).ref → 0 < (last.icache ip').ref →
        (last.icache ip').dev = (last.icache ip).dev →
        (last.icache ip').inum = (last.icache ip).inum → ip' = ip) ∧
      (∀ ip, 0 < (last.icache ip).ref → (last.icache ip).valid = true →
        (last.icache ip).lock = none →
        (last.icache ip).toDinode = last.disk.dinode (last.icache ip).inum) ∧
      (∀ inum, (last.disk.dinode inum).type = .file ∨ (last.disk.dinode inum).type = .dir →
        ∀ bn < ((last.disk.dinode inum).size.toNat + (BSIZE - 1)) / BSIZE,
          ∃ slot, slotOf bn = some slot ∧ last.disk.points (inum, slot) ≠ 0) ∧
      ∀ ip, 0 < (last.icache ip).ref → (last.icache ip).valid = true →
        (last.icache ip).type ≠ .dev → ∀ off n,
          Sat (readi ip off n) last (fun _ next => next.store = last.store) fun _ _ => False := by
  have sound := (coherent_of_run owned filled empty run).sound
  refine ⟨fun ip ip' held held' _ same => sound.distinct ip ip' held held' same,
    fun ip held valid _ => sound.clean ip held valid, fun inum kind bn below => ?_,
    fun ip held valid notDev off n => ?_⟩
  · refine slot_of_filled (sound.filled inum ?_ ?_) below
    · rcases kind with file | directory
      · change (last.disk.dinode inum).type ≠ .free
        rw [file]
        decide
      · change (last.disk.dinode inum).type ≠ .free
        rw [directory]
        decide
    · rcases kind with file | directory
      · change (last.disk.dinode inum).type ≠ .dev
        rw [file]
        decide
      · change (last.disk.dinode inum).type ≠ .dev
        rw [directory]
        decide
  · have regular := sound.regular ⟨held, valid⟩ notDev
    have reads : Stores (fun _ => False) (readi ip off n) last.store _ :=
      stores_readi regular.notDev regular.filled off n
    exact (reads last rfl).weaken fun _ _ found => found.1

/-! ## An example -/

/-- Nothing has been read from the disk yet. -/
def coldCache : Kernel := { Kernel.boot emptyFileDisk with icache := fun _ => Inode.zero }

/-- A file is written and changed; a directory is made; the file is unlinked and
then given back. -/
def writeAndUnlink : List (ProcPtr × InodeCall) :=
  [.beginOp, .iget 2, .ilock 0, .writei 0 (fun i => [104, 105].getD i 0) 0 2,
    .assign 0 (.chmod 0o600), .iunlock 0, .idup 0, .ialloc .dir 0 0o755, .ilock 1,
    .assign 1 (.create 0 0), .iunlock 1, .ilock 0, .assign 0 .unlink, .iupdate 0, .iunlock 0,
    .iput 0, .iput 0, .endOp].map ((0, ·))

theorem filled_emptyFileDisk (inum : Nat) : emptyFileDisk.Filled inum := by
  intro bn below
  match inum with
  | 0 => simp [emptyFileDisk, Disk.image, Dinode.fresh] at below
  | 1 =>
    have first : bn = 0 := by
      have size_eq : (emptyFileDisk.dinode 1).size.toNat = 48 := by decide
      rw [size_eq] at below
      unfold BSIZE at below
      omega
    subst first
    decide
  | 2 => simp [emptyFileDisk, Disk.image, Dinode.fresh] at below
  | inum + 3 =>
    have other : inum + 3 ≠ ROOTINO := by
      change inum + 3 ≠ 1
      omega
    simp [emptyFileDisk, Disk.image, Dinode.fresh, other] at below

theorem inode_cache_coherent_writeAndUnlink :
    ∃ last, Steps (Guarded (fun kernel label next => kernel.perform label = some next)
        fun kernel label => label.2.Disciplined kernel label.1) coldCache writeAndUnlink last ∧
      (last.disk.dinode 2).type = .free ∧
      ∀ ip, 0 < (last.icache ip).ref → (last.icache ip).valid = true →
        (last.icache ip).lock = none →
        (last.icache ip).toDinode = last.disk.dinode (last.icache ip).inum := by
  have evaluated : (follow Kernel.perform (fun kernel label => label.2.Disciplined kernel label.1)
      coldCache writeAndUnlink).any (fun last => decide ((last.disk.dinode 2).type = .free)) = true := by
    decide +kernel
  obtain ⟨reached, freed⟩ := (any_eq_true_iff_get _ _).mp evaluated
  have run := Steps.of_follow (some_get reached).symm
  have coherent := inode_cache_coherent (owned_of_root rfl points_emptyFileDisk)
    (fun inum _ _ => filled_emptyFileDisk inum) (fun _ => ⟨rfl, rfl⟩) run
  exact ⟨_, run, of_decide_eq_true freed, coherent.2.1⟩

/-! ## The blocks -/

/-- However processes use the inodes, every block number that an inode stores lies in the
data area and is stored once, and the bitmap marks these blocks and the metadata. So
`iput` never frees a block that is free. -/
theorem blocks_owned_over_runs {kernel last : Kernel} {labels : List (ProcPtr × InodeCall)}
    (coherent : Coherent kernel.store) (run : Calls kernel labels last) :
    last.disk.Owned last.sb ∧ ∀ p ip next,
      iput ip (last.enter p) ≠ .error (.panic .freeingFreeBlock) next := by
  have reached := coherent.calls run
  refine ⟨reached.sound.owned, fun p ip next raised => ?_⟩
  have entered : Coherent (last.enter p).store := reached.congr rfl rfl rfl
  have tolerant : Tolerant (· ≠ .panic .freeingFreeBlock) (last.enter p).store.outstanding :=
    ⟨by simp, by simp, .inr (by simp)⟩
  have free : Lockable (· ≠ .panic .freeingFreeBlock) (last.enter p).store ip :=
    .inr ⟨by simp, .inr (by simp)⟩
  have spec := calm_iput (fun _ => 0) entered.sound free (.inl tolerant) (by simp)
  exact (spec _ rfl).error raised rfl

theorem blocks_owned_over_runs_writeAndUnlink :
    ∃ last, Calls coldCache writeAndUnlink last ∧ last.disk.Owned last.sb := by
  have evaluated : (follow Kernel.perform (fun kernel label => label.2.Disciplined kernel label.1)
      coldCache writeAndUnlink).isSome = true := by
    decide +kernel
  have run := Steps.of_follow (some_get evaluated).symm
  have start : Coherent coldCache.store := coherent_of_run (owned_of_root rfl points_emptyFileDisk)
    (fun inum _ _ => filled_emptyFileDisk inum) (fun _ => ⟨rfl, rfl⟩) .refl
  exact ⟨_, run, (blocks_owned_over_runs start run).1⟩

end Storage

end Xv6
