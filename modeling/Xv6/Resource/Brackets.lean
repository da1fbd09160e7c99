import Xv6.Resource.Accounting
import Xv6.Storage.Store

/-!
# Transactions around every change of the disk

Every call opens its transactions and closes them in turn, and changes the disk
only in between, on every branch that returns. The exception is `mknod`, which
looks up the parent of an uninitialised path before it begins: this goes well
only for a path of one element, whose parent is where the lookup starts.
-/

namespace Xv6

/-- An inode as `ilock` delivers it after `iget`. -/
def Store.named (store : Store) (dev inum : Nat) : Dinode :=
  match store.cached dev inum with
  | some ip => store.current ip
  | none => store.disk.dinode inum

/-- The inode that the lookup of a path starts from. -/
def Store.start (store : Store) (path : Path) : Option Dinode :=
  if path.head? = some SLASH then some (store.named ROOTDEV ROOTINO)
  else store.me.cwd.map store.current

namespace Resource

open Program Storage Store

/-- The call left its transactions as it found them, in good order. -/
def Bracketed (kernel next : Kernel) : Prop :=
  next.log.outstanding = kernel.log.outstanding ∧ phaseOf next.trace = .outside

/-- Nothing follows the first element of a path. -/
def OneElement (elements : List (Name × Path)) : Prop :=
  elements.head?.any (fun element => element.2 = []) = true

instance (elements : List (Name × Path)) : Decidable (OneElement elements) :=
  inferInstanceAs (Decidable (_ = true))

/-- Would the permission check of `mknod` refuse the caller in this directory? -/
def refuses (euid : UInt32) (dip : Dinode) : Bool :=
  unlessRoot euid (mknodInvalid dip.mode dip.uid euid)

/-- The lookup of the path that `mknod` left uninitialised stops where it starts,
at a directory the caller may write. -/
def Harmless (store : Store) (path : Path) : Prop :=
  OneElement (skipelems path.length path) ∧ ∃ dip, store.start path = some dip ∧ dip.type = .dir ∧
    refuses store.me.euid dip = false

/-- Every call but a `mknod` that strays. -/
def Orderly (kernel : Kernel) : Syscall → Prop
  | .mknod locals _ _ _ => Harmless kernel.store locals.path
  | _ => True

variable {kernel next : Kernel} {ledger : Ledger}

/-! ## The lookup of an uninitialised path -/

theorem current_take (store : Store) (ip : InodePtr) :
    (store.take ip).current ip = store.current ip := by
  simp [current, take, setInode]

theorem current_iget {store after : Store} {ip : InodePtr} {dev inum : Nat}
    (got : (store.cached dev inum = some ip ∧ after = store.take ip) ∨
      (store.cached dev inum = none ∧ (store.icache ip).ref = 0 ∧
        after = store.enter ip dev inum)) : after.current ip = store.named dev inum := by
  unfold named
  rcases got with ⟨found, rfl⟩ | ⟨absent, _, rfl⟩
  · rw [found]
    exact current_take store ip
  · rw [absent]
    simp [current, enter, setInode]

/-- How a lookup for a parent ends that started from `ip`, outside of a transaction:
it stops where it started, or it has dropped a reference and there is disorder. -/
def Ended (stops : Prop) (ledger : Ledger) (dip : Dinode) (ip : InodePtr)
    (entry : Option (InodePtr × Name)) (next : Kernel) : Prop :=
  (stops ∧ (∃ name, entry = some (ip, name)) ∧ next.ledger = ledger.take ip ∧
    (next.icache ip).toDinode = dip) ∨ (¬stops ∧ next.ledger.phase = .broken)

/-- Dropping a reference outside of a transaction brings disorder. -/
theorem broken_emit (idle : ledger.phase.Idle) : (ledger.emit .iput).phase = .broken := by
  change ledger.phase.next .iput = .broken
  cases phase_eq : ledger.phase with
  | outside => rfl
  | inside => exact absurd phase_eq idle
  | broken => rfl

theorem take_drop (ip : InodePtr) : (ledger.drop ip).take ip = ledger :=
  Ledger.ext rfl (sub_add_cancel _ _) rfl rfl rfl rfl rfl rfl

theorem phase_found (found : Option InodePtr) : (ledger.found found).phase = ledger.phase := by
  cases found <;> rfl

theorem sat_namexFrom (idle : ledger.phase.Idle) {ip : InodePtr}
    (viewed : kernel.ledger = ledger.take ip) (elements : List (Name × Path)) (name : Name) :
    Sat (namexFrom true elements ip name) kernel
      (Ended (OneElement elements ∧ (kernel.store.current ip).type = .dir) ledger
        (kernel.store.current ip) ip) fun _ _ => True := by
  cases elements with
  | nil =>
    refine .bind (@tracks_iput_any true _ ip (.inl rfl) kernel viewed).returning
      fun _ next put => .inr ⟨fun absurdity => (by cases absurdity.1), ?_⟩
    exact (congrArg Ledger.phase put.2).trans (broken_emit idle)
  | cons element rest =>
    obtain ⟨name', path⟩ := element
    have locking := (@tracks_ilock true _ ip (.inl rfl) kernel viewed).returning.and
      (@stores_ilock (fun _ => True) _ ip (.inl trivial) (lockable_any _ ip) (.inl trivial) kernel rfl).returning
    refine .bind (locking.returning) fun _ locked both => ?_
    obtain ⟨⟨unlocked, ledger_eq⟩, _, _, _, store_eq⟩ := both
    have content : (locked.icache ip).toDinode = kernel.store.current ip := by
      change (locked.store.icache ip).toDinode = _
      rw [store_eq]
      simp [load]
    rw [sat_bind]
    change Sat (if (locked.icache ip).type ≠ .dir then _ else _) locked _ _
    rw [sat_ite, content]
    split
    · rename_i other
      refine .bind (@tracks_iunlockput_any true _ ip locked ledger_eq).returning
        fun _ next put => .inr ⟨fun absurdity => other absurdity.2, ?_⟩
      exact (congrArg Ledger.phase put.2).trans (broken_emit idle)
    · rename_i directory
      have directory' : (kernel.store.current ip).type = .dir := not_not.mp directory
      by_cases last : path = []
      · rw [if_pos ⟨rfl, last⟩]
        have released := @tracks_iunlock true _ ip locked ledger_eq
        have unchanged := @stores_iunlock (fun _ => True) _ ip (.inl trivial) locked rfl
        refine .bind (released.returning.and unchanged.returning).returning
          fun _ next both => .inl ⟨⟨by simp [OneElement, last], directory'⟩, ⟨name', rfl⟩, ?_, ?_⟩
        · exact both.1.2.trans (unlock_lock unlocked)
        · have after : next.store = locked.store.unlock ip := both.2.2
          change (next.store.icache ip).toDinode = _
          rw [after, ← content]
          simp [unlock, Kernel.store]
      · rw [if_neg (fun both => last both.2)]
        have strays : ¬(OneElement ((name', path) :: rest) ∧
            (kernel.store.current ip).type = .dir) := fun both => by
          simp [OneElement, last] at both
        refine .bind (@tracks_dirlookup_any true _ ip name' locked ledger_eq).returning
          fun entry looked found => ?_
        obtain ⟨middle, disturbed, found_eq⟩ := found
        have stillIdle : (looked.ledger.unlock ip).phase.Idle := by
          change looked.ledger.phase.Idle
          rw [found_eq, phase_found]
          exact disturbed.idle idle
        have giving := (@tracks_iunlockput_any true _ ip looked rfl).returning
        cases entry with
        | none =>
          refine .bind giving fun _ next put => .inr ⟨strays, ?_⟩
          exact (congrArg Ledger.phase put.2).trans (broken_emit stillIdle)
        | some entry =>
          refine .bind giving fun _ moved put => ?_
          have broken : moved.ledger.phase = .broken :=
            (congrArg Ledger.phase put.2).trans (broken_emit stillIdle)
          have busy : (moved.ledger.drop entry.1).phase.Busy := by
            change moved.ledger.phase ≠ .outside
            rw [broken]
            rintro ⟨⟩
          have walk := @tracks_namexFrom true _ busy (.inl rfl) true rest entry.1 name' moved
            (take_drop entry.1).symm
          refine walk.returning.weaken fun _ next walked => .inr ⟨strays, ?_⟩
          exact (congrArg Ledger.phase walked).trans ((phase_found _).trans broken)

/-- The lookup of a parent, from the state in which a call enters the kernel. -/
theorem sat_nameiparent (p : ProcPtr) (path : Path) :
    Sat (nameiparent path) (kernel.enter p) (fun entry next =>
      ∃ dip ip, (kernel.enter p).store.start path = some dip ∧
        Ended (OneElement (skipelems path.length path) ∧ dip.type = .dir) (kernel.enter p).ledger
          dip ip entry next) fun _ _ => True := by
  unfold nameiparent namex
  rw [sat_ite]
  split
  · rename_i absolute
    have getting := (@tracks_iget true _ ROOTDEV ROOTINO (kernel.enter p) rfl).returning.and
      (@stores_iget (fun _ => True) _ ROOTDEV ROOTINO (.inl trivial) (kernel.enter p) rfl).returning
    refine .bind getting.returning fun ip taken both => ?_
    have walk := sat_namexFrom (enter_idle kernel p) both.1 (skipelems path.length path) []
    refine walk.weaken fun entry next ended => ⟨_, ip, ?_, ended⟩
    rw [start, if_pos absolute, current_iget both.2]
  · rename_i relative
    rw [sat_bind, sat_get]
    cases cwd_eq : (kernel.enter p).myproc.cwd with
    | none => trivial
    | some cwd =>
      have taking := (@tracks_idup true _ cwd (kernel.enter p) rfl).returning.and
        (@stores_idup (fun _ => True) _ cwd (kernel.enter p) rfl)
      refine .bind taking.returning fun ip taken both => ?_
      obtain ⟨⟨rfl, ledger_eq⟩, _, store_eq⟩ := both
      have walk := sat_namexFrom (enter_idle kernel p) ledger_eq (skipelems path.length path) []
      refine walk.weaken fun entry next ended => ⟨_, ip, ?_, ended⟩
      rw [start, if_neg relative, store_eq, current_take]
      exact congrArg (Option.map (kernel.enter p).store.current) cwd_eq

/-! ## Calls -/

theorem bracketed_iff : Bracketed kernel next ↔
    next.ledger.outstanding = kernel.ledger.outstanding ∧ next.ledger.phase = .outside :=
  Iff.rfl

/-- `mknod` refuses outside of its transaction: it gives back an inode that it never
looked up, and ends what it did not begin. -/
theorem tracks_mknodRefused (idle : ledger.phase.Idle) (locals : MknodLocals) :
    Tracks true (do
      permissionDenied locals.path
      match locals.ip with
      | none => throw .wild
      | some ip => do
          iunlockput ip
          endOp
          pure (-1 : Int)) ledger fun _ after => after.phase = .broken := by
  refine .bind (tracks_emit _) fun _ after emitted => ?_
  have stillIdle : after.phase.Idle := by
    rw [emitted]
    exact idle
  cases locals.ip with
  | none => exact .throw trivial
  | some ip =>
    refine .bind (tracks_iunlockput_any ip) fun _ put given => ?_
    refine .bind tracks_endOp fun _ final ended => .pure ?_
    have broken : put.phase = .broken :=
      (congrArg Ledger.phase given.2).trans (broken_emit stillIdle)
    rw [ended]
    change put.phase.next .endOp = .broken
    rw [broken]
    rfl

theorem sat_sysMknod (p : ProcPtr) (locals : MknodLocals) (path : Option Path)
    (major minor : Option Int16) :
    Sat (sysMknod locals path major minor) (kernel.enter p) (fun _ next =>
      Bracketed kernel next ↔ Harmless (kernel.enter p).store locals.path) fun _ _ => True := by
  refine .bind (sat_nameiparent p locals.path) fun parent found looked => ?_
  obtain ⟨dip, ip, start_eq, ended⟩ := looked
  have harmless_iff : Harmless (kernel.enter p).store locals.path ↔
      (OneElement (skipelems locals.path.length locals.path) ∧ dip.type = .dir) ∧
        refuses (kernel.ptable p).euid dip = false := by
    unfold Harmless
    rw [start_eq]
    simp only [Option.some.injEq, exists_eq_left', and_assoc]
    rfl
  rw [sat_bind, sat_get]
  rcases ended with ⟨stops, ⟨name, rfl⟩, ledger_eq, content⟩ | ⟨strays, broken⟩
  · have idle : found.ledger.phase.Idle := by
      rw [ledger_eq]
      exact enter_idle kernel p
    have refuses_eq : unlessRoot found.myproc.euid (mknodInvalid (found.icache ip).mode
        (found.icache ip).uid found.myproc.euid) = refuses (kernel.ptable p).euid dip := by
      have me_eq : found.myproc = kernel.ptable p := congrArg Ledger.me ledger_eq
      rw [me_eq, ← content]
      rfl
    change Sat (if unlessRoot found.myproc.euid (mknodInvalid (found.icache ip).mode
      (found.icache ip).uid found.myproc.euid) = true then _ else _) found _ _
    rw [sat_ite, refuses_eq, harmless_iff]
    split
    · rename_i refused
      refine (tracks_mknodRefused idle locals found rfl).returning.weaken fun _ next broken => ?_
      refine iff_of_false (fun bracketed => ?_) fun harmless => ?_
      · exact nomatch bracketed.2.symm.trans broken
      · exact nomatch harmless.2.symm.trans refused
    · rename_i granted
      refine (tracks_mknodCreate idle path major minor found rfl).returning.weaken
        fun _ next same => ?_
      refine iff_of_true ?_ ⟨stops, eq_false_of_ne_true granted⟩
      rw [bracketed_iff, same, ledger_eq]
      exact ⟨rfl, rfl⟩
  · have idle : found.ledger.phase.Idle := by
      rw [broken]
      exact fun absurdity => nomatch absurdity
    have fails : ∀ next : Kernel, next.ledger.phase = .broken →
        (Bracketed kernel next ↔ Harmless (kernel.enter p).store locals.path) := by
      intro next stillBroken
      refine iff_of_false (fun bracketed => ?_) fun harmless => strays (harmless_iff.mp harmless).1
      exact nomatch bracketed.2.symm.trans stillBroken
    cases parent with
    | none =>
      change Sat (if unlessRoot _ (mknodInvalid locals.mode locals.uid _) = true then _ else _)
        found _ _
      rw [sat_ite]
      split
      · exact (tracks_mknodRefused idle locals found rfl).returning.weaken
          fun _ next stillBroken => fails next stillBroken
      · exact (tracks_mknodCreate idle path major minor found rfl).returning.weaken
          fun _ next same => fails next ((congrArg Ledger.phase same).trans broken)
    | some entry =>
      change Sat (if unlessRoot _ (mknodInvalid (found.icache entry.1).mode
        (found.icache entry.1).uid _) = true then _ else _) found _ _
      rw [sat_ite]
      split
      · exact (tracks_mknodRefused idle locals found rfl).returning.weaken
          fun _ next stillBroken => fails next stillBroken
      · exact (tracks_mknodCreate idle path major minor found rfl).returning.weaken
          fun _ next same => fails next ((congrArg Ledger.phase same).trans broken)

/-- A call that returns has kept its transactions in order, unless it is a `mknod`
whose uninitialised path leads astray. -/
theorem transactions_bracketed (kernel next : Kernel) (p : ProcPtr) (call : Syscall)
    (returns : kernel.syscall (p, call) = some next) :
    Bracketed kernel next ↔ Orderly (kernel.enter p) call := by
  obtain ⟨live, result, run⟩ := Kernel.syscall_eq_some.mp returns
  by_cases counted : Counted call
  · have balance := balance_of_run counted live run
    have orderly : Orderly (kernel.enter p) call := by
      cases call with
      | mknod locals path major minor => exact counted.elim
      | _ => trivial
    exact iff_of_true ⟨balance.outstanding, balance.phase⟩ orderly
  · cases call with
    | mknod locals path major minor => exact (sat_sysMknod p locals path major minor).ok run
    | _ => exact absurd trivial counted

/-- `mknod` of `/d` by root, with a stray path of two elements, `/./x`. -/
def strayMknod : Syscall :=
  .mknod { path := [47, 46, 47, 120], ip := none, mode := 0, uid := 0 } (some [47, 100]) (some 1)
    (some 1)

/-- The stray lookup gives up a reference before the call has begun its transaction. -/
theorem mknod_puts_outside :
    ∃ next, (Kernel.boot (.image 0o755 [] [] [])).syscall (0, strayMknod) = some next ∧
      phaseOf next.trace = .broken := by
  have evaluated : ((Kernel.boot (.image 0o755 [] [] [])).syscall (0, strayMknod)).any
      (fun next => phaseOf next.trace = .broken) = true := by
    decide +kernel
  obtain ⟨returned, broken⟩ := (Option.any_eq_true_iff_get _ _).mp evaluated
  exact ⟨_, (Option.some_get returned).symm, of_decide_eq_true broken⟩

/-- Root makes the same device, and the stray path happens to be `/x`. -/
def harmlessMknod : Syscall :=
  .mknod { path := [47, 120], ip := none, mode := 0, uid := 0 } (some [47, 100]) (some 1) (some 1)

theorem transactions_bracketed_mknod :
    ∃ next, (Kernel.boot (.image 0o755 [] [] [])).syscall (0, harmlessMknod) = some next ∧
      Bracketed (Kernel.boot (.image 0o755 [] [] [])) next := by
  have evaluated : ((Kernel.boot (.image 0o755 [] [] [])).syscall (0, harmlessMknod)).isSome =
      true := by
    decide +kernel
  have returns := (Option.some_get evaluated).symm
  refine ⟨_, returns, (transactions_bracketed _ _ 0 harmlessMknod returns).mpr ?_⟩
  refine ⟨by decide, _, rfl, ?_, ?_⟩
  · decide +kernel
  · decide +kernel

end Resource

end Xv6
