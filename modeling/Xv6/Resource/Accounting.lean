import Xv6.Semantics.Transition
import Xv6.Kernel.Boot
import Xv6.Kernel.Syscall
import Xv6.Resource.Names
import Xv6.Resource.Processes

/-!
# Reference counts over runs of system calls

A reference is accounted for by an open file or by the current directory of a
live process. Every call gives back what it took for itself, on every branch,
with three exceptions: `chmod` and `chown` keep the reference to the inode they
looked up, and `open` drops on the floor what `create` returned to it.
-/

namespace Xv6.Resource

open Program Transition

/-- The count of every cached inode is the number of its holders. -/
def Accounted (kernel : Kernel) : Prop :=
  ∀ ip, (kernel.icache ip).ref = kernel.ledger.holders ip

instance (kernel : Kernel) : Decidable (Accounted kernel) :=
  inferInstanceAs (Decidable (∀ ip, (kernel.icache ip).ref = kernel.ledger.holders ip))

/-- Looked up now, the path leads to an inode. -/
def Resolves (kernel : Kernel) (path : Path) : Prop :=
  (outcome (do beginOp; namei path) kernel).any (·.1.isSome) = true

/-- Called now, `create` finds or makes a file under the path. -/
def Creates (kernel : Kernel) (path : Path) : Prop :=
  (outcome (do beginOp; create path .file 0 0 (← get).myproc.uid 0o644) kernel).any
    (·.1.isSome) = true

/-- The calls that count: `mknod` also looks up whatever its uninitialised path
says. -/
def Counted : Syscall → Prop
  | .mknod .. => False
  | _ => True

instance (call : Syscall) : Decidable (Counted call) := by
  cases call <;> first | exact isTrue trivial | exact isFalse id

/-- A live process makes a call that counts, and it returns. -/
def Completes (kernel : Kernel) (label : ProcPtr × Syscall) (next : Kernel) : Prop :=
  Counted label.2 ∧ kernel.syscall label = some next

/-- The call is none of those that lose a reference: a `chmod` of a path that
leads somewhere, a `chown` of one by root, and an `open` for which `create`
succeeds. -/
def Settles (kernel : Kernel) (label : ProcPtr × Syscall) : Prop :=
  match label.2 with
  | .chmod (some path) (some _) => ¬Resolves (kernel.enter label.1) path
  | .chown (some path) (some _) (some _) =>
    (kernel.ptable label.1).uid = 0 → ¬Resolves (kernel.enter label.1) path
  | .open_ (some path) (some omode) =>
    omode &&& O_CREATE ≠ 0 → ¬Creates (kernel.enter label.1) path
  | _ => True

instance (kernel : Kernel) (path : Path) : Decidable (Resolves kernel path) :=
  inferInstanceAs (Decidable (_ = true))

instance (kernel : Kernel) (path : Path) : Decidable (Creates kernel path) :=
  inferInstanceAs (Decidable (_ = true))

instance (kernel : Kernel) (label : ProcPtr × Syscall) : Decidable (Settles kernel label) := by
  unfold Settles
  split <;> infer_instance

variable {kernel next : Kernel} {p : ProcPtr} {result : Int}

theorem accounted_iff : Accounted kernel ↔ kernel.ledger.extra = 0 := by
  constructor
  · intro accounted
    funext ip
    exact sub_eq_zero.mpr (accounted ip)
  · intro balanced ip
    exact sub_eq_zero.mp (congrFun balanced ip)

/-- What a call did. Its transactions are closed; the references without a holder
are as before if it settles, and one more if it does not. -/
structure Balance (settles : Prop) (before after : Ledger) : Prop where
  outstanding : after.outstanding = before.outstanding
  phase : after.phase = before.phase
  settled : settles → after.extra = before.extra
  lost : ¬settles → ∃ ip, after.extra = before.extra + Pi.single ip 1

variable {settles settles' : Prop} {before after : Ledger}

theorem Balance.of_kept (kept : Kept before after) : Balance True before after where
  outstanding := kept.outstanding
  phase := kept.phase
  settled _ := kept.extra
  lost absurdity := absurd trivial absurdity

/-- A reference was taken and never given back. -/
theorem Balance.of_lost (ip : InodePtr) (kept : Kept (before.take ip) after) :
    Balance False before after where
  outstanding := kept.outstanding
  phase := kept.phase
  settled := False.elim
  lost _ := ⟨ip, kept.extra.trans (extra_take ip)⟩

theorem Balance.congr (balance : Balance settles before after) (same : settles' ↔ settles) :
    Balance settles' before after := by
  rw [propext same]
  exact balance

/-- A call that settles keeps the counts in order, and no other call does. -/
theorem Balance.accounted_iff (balance : Balance settles (kernel.enter p).ledger next.ledger)
    (accounted : Accounted kernel) : Accounted next ↔ settles := by
  rw [Resource.accounted_iff] at accounted ⊢
  have entered : (kernel.enter p).ledger.extra = 0 := accounted
  constructor
  · intro balanced
    by_contra loses
    obtain ⟨ip, more⟩ := balance.lost loses
    have one := congrFun (balanced.symm.trans more) ip
    simp [entered] at one
  · intro settled
    exact (balance.settled settled).trans entered

theorem resolves_iff {found : Option InodePtr} {path : Path}
    (looked : (do beginOp; namei path) kernel = .ok found next) :
    Resolves kernel path ↔ found.isSome = true := by
  unfold Resolves
  rw [outcome_eq_some.mpr looked]
  rfl

theorem creates_iff {found : Option InodePtr} {path : Path}
    (created : (do beginOp; create path .file 0 0 (← get).myproc.uid 0o644) kernel =
      .ok found next) : Creates kernel path ↔ found.isSome = true := by
  unfold Creates
  rw [outcome_eq_some.mpr created]
  rfl

/-- A call on an inode that it looks up and never gives back. -/
theorem balance_withInode {path : Path} {body : InodePtr → Kern Int}
    (keeps : ∀ (ledger : Ledger) ip, ledger.phase.Idle →
      Tracks true (body ip) (ledger.take ip).begin_ fun _ after => after = ledger.take ip)
    (run : (do beginOp; withInode path body) (kernel.enter p) = .ok result next) :
    Balance (¬Resolves (kernel.enter p) path) (kernel.enter p).ledger next.ledger := by
  have idle := enter_idle kernel p
  rw [withInode, ← bind_assoc] at run
  obtain ⟨found, middle, looked, rest⟩ := bind_ok run
  have spec : Tracks true (do beginOp; namei path) (kernel.enter p).ledger fun found after =>
      after = ((kernel.enter p).ledger.found found).begin_ :=
    .bind tracks_beginOp fun _ after begun => by
      rw [begun]
      exact tracks_namei_begin idle (.inl rfl) path
  have middle_eq := (spec _ rfl).ok looked
  rw [resolves_iff looked]
  cases found with
  | none =>
    have ended := (@tracks_end_ true _ idle Int (-1) _ middle_eq).ok rest
    refine (Balance.of_kept ?_).congr (by simp)
    rw [ended.2]
    exact .refl _
  | some ip =>
    have kept := (keeps _ ip idle _ middle_eq).ok rest
    refine (Balance.of_lost ip ?_).congr (by simp)
    rw [kept]
    exact .refl _

/-- The first half of an `open` that creates. -/
theorem tracks_makes {ledger : Ledger} (idle : ledger.phase.Idle) (path : Path) :
    Tracks true (do beginOp; create path .file 0 0 (← get).myproc.uid 0o644) ledger
      fun found after => after = (ledger.created found).begin_ :=
  .bind tracks_beginOp fun _ after begun => by
    rw [begun]
    exact .get fun _ _ => .mono (tracks_create idle path .file 0 0 _ _)
      fun _ after made => made.2

/-- What `create` returned to `open` is never given back. -/
theorem balance_create {path : Path} {omode : UInt32} (creating : omode &&& O_CREATE ≠ 0)
    (run : sysOpen (some path) (some omode) (kernel.enter p) = .ok result next) :
    Balance (¬Creates (kernel.enter p) path) (kernel.enter p).ledger next.ledger := by
  have idle := enter_idle kernel p
  simp only [sysOpen, if_pos creating] at run
  rw [← bind_assoc, ← bind_assoc] at run
  obtain ⟨found, middle, created, rest⟩ := bind_ok run
  rw [bind_assoc] at created
  have middle_eq := (tracks_makes idle path _ rfl).ok created
  rw [creates_iff created]
  cases found with
  | none =>
    have ended := (@tracks_end_ true _ idle Int (-1) _ middle_eq).ok rest
    refine (Balance.of_kept ?_).congr (by simp)
    rw [ended.2]
    exact .refl _
  | some ip =>
    have opened :=
      (@tracks_openPath true _ (by exact idle) (.inl rfl) path omode _ middle_eq).ok rest
    refine Balance.congr ⟨opened.outstanding, opened.phase, False.elim, fun _ => ⟨ip, ?_⟩⟩ (by simp)
    exact opened.extra.trans (extra_take ip)

/-- A call that refuses its arguments changes nothing. -/
theorem balance_refused {value : Int}
    (run : (pure value : Kern Int) (kernel.enter p) = .ok result next) :
    Balance True (kernel.enter p).ledger next.ledger := by
  cases run
  exact .of_kept (.refl _)

theorem balance_sysOpen {path : Option Path} {omode : Option UInt32}
    (run : sysOpen path omode (kernel.enter p) = .ok result next) :
    Balance (Settles kernel (p, .open_ path omode)) (kernel.enter p).ledger next.ledger := by
  cases path with
  | none => exact balance_refused run
  | some path =>
    cases omode with
    | none => exact balance_refused run
    | some omode =>
      by_cases creating : omode &&& O_CREATE ≠ 0
      · exact (balance_create creating run).congr (forall_prop_of_true creating)
      · have existing : ∀ omode', some omode = some omode' → ¬(omode' &&& O_CREATE ≠ 0) := by
          rintro _ ⟨⟩
          exact creating
        have spec := @tracks_sysOpen true _ (enter_idle kernel p) (.inl rfl) (some path)
          (some omode) existing
        exact (Balance.of_kept ((spec _ rfl).ok run).toKept).congr
          (iff_of_true (fun asked => absurd asked creating) trivial)

theorem balance_sysChmod {path : Option Path} {mode : Option UInt32}
    (run : sysChmod path mode (kernel.enter p) = .ok result next) :
    Balance (Settles kernel (p, .chmod path mode)) (kernel.enter p).ledger next.ledger := by
  cases path with
  | none => exact balance_refused run
  | some path =>
    cases mode with
    | none => exact balance_refused run
    | some mode =>
      exact balance_withInode
        (fun ledger ip idle => tracks_chmodInode idle (.inl rfl) mode ip) run

theorem balance_sysChown {path : Option Path} {owner group : Option UInt32}
    (run : sysChown path owner group (kernel.enter p) = .ok result next) :
    Balance (Settles kernel (p, .chown path owner group)) (kernel.enter p).ledger next.ledger := by
  change (if _ then _ else _ : Kern Int) (kernel.enter p) = _ at run
  match path, owner, group, run with
  | some path, some owner, some group, run =>
    split at run
    · rename_i user
      exact (balance_refused run).congr (iff_of_true (fun root => absurd root user) trivial)
    · rename_i root
      exact (balance_withInode
        (fun ledger ip idle => tracks_chownInode idle (.inl rfl) owner group ip) run).congr
        (forall_prop_of_true (not_not.mp root))
  | none, _, _, run | some _, none, _, run | some _, some _, none, run =>
    split at run <;> exact balance_refused run

/-- One call. -/
theorem balance_of_run {call : Syscall} (counted : Counted call) (live : (kernel.ptable p).Live)
    (run : call.run (kernel.enter p) = .ok result next) :
    Balance (Settles kernel (p, call)) (kernel.enter p).ledger next.ledger := by
  have idle := enter_idle kernel p
  have same (equal : next.ledger = (kernel.enter p).ledger) :
      Balance True (kernel.enter p).ledger next.ledger :=
    .of_kept (equal ▸ .refl _)
  cases call with
  | fork kstack copied => exact .of_kept ((@tracks_fork true _ kstack copied _ rfl).ok run).1
  | exit =>
    have spec : Tracks true (Syscall.run .exit) (kernel.enter p).ledger fun _ after =>
        Kept (kernel.enter p).ledger after :=
      .bind (tracks_exit idle (.inl rfl) live) fun _ _ left => .pure left.1
    exact .of_kept ((spec _ rfl).ok run)
  | wait => exact .of_kept ((@tracks_wait true _ _ rfl).ok run).1
  | exec memory path argv =>
    exact same ((@tracks_exec true _ idle (.inl rfl) memory path argv _ rfl).ok run)
  | dup fd => exact .of_kept ((@tracks_sysDup true _ fd _ rfl).ok run).toKept
  | close fd => exact .of_kept ((@tracks_sysClose true _ idle (.inl rfl) fd _ rfl).ok run).toKept
  | write fd buffer =>
    exact .of_kept ((@tracks_sysWrite true _ idle (.inl rfl) fd buffer _ rfl).ok run).toKept
  | fstat fd st =>
    have spec : Tracks true (Syscall.run (.fstat fd st)) (kernel.enter p).ledger fun _ after =>
        after = (kernel.enter p).ledger :=
      .bind (tracks_sysFstat (.inl rfl) fd st) fun _ _ equal => .pure equal
    exact same ((spec _ rfl).ok run)
  | chdir path => exact .of_kept ((@tracks_sysChdir true _ idle (.inl rfl) live path _ rfl).ok run)
  | link old new => exact same ((tracks_sysLink idle old new _ rfl).ok run)
  | unlink path => exact same ((tracks_sysUnlink idle path _ rfl).ok run)
  | mkdir path => exact same ((tracks_sysMkdir idle path _ rfl).ok run)
  | mknod locals path major minor => exact absurd counted id
  | open_ path omode => exact balance_sysOpen run
  | chmod path mode => exact balance_sysChmod run
  | chown path owner group => exact balance_sysChown run

/-- In every run of system calls in which no call loses a reference, the count of
every inode stays the number of its holders. The first call that does lose one
ends this. -/
theorem references_accounted (kernel : Kernel) (accounted : Accounted kernel)
    (labels : List (ProcPtr × Syscall)) (last : Kernel)
    (run : Steps (Guarded Completes Settles) kernel labels last) :
    Accounted last ∧
      ∀ label next, Completes last label next → (Accounted next ↔ Settles last label) := by
  have each : ∀ {kernel label next}, Accounted kernel → Completes kernel label next →
      (Accounted next ↔ Settles kernel label) := by
    rintro kernel ⟨p, call⟩ next accounted ⟨counted, completes⟩
    obtain ⟨live, result, ran⟩ := Kernel.syscall_eq_some.mp completes
    exact (balance_of_run counted live ran).accounted_iff accounted
  have holds : Accounted last := by
    refine run.invariant Accounted accounted ?_
    rintro kernel label next accounted ⟨settles, completes⟩
    exact (each accounted completes).mpr settles
  exact ⟨holds, fun label next completes => each holds completes⟩

/-- A root directory with one file in it. -/
def oneFile : Kernel :=
  Kernel.boot (.image 0o755 [(2, [102])] [.single .file 1 0 85 0o644 0 0] [fun _ => 0])

/-- Init opens the file and duplicates the descriptor; its child makes a directory,
moves there and exits. -/
def openAndLeave : List (ProcPtr × Syscall) :=
  [(0, .open_ (some [102]) (some O_RDONLY)), (0, .dup (some 0)), (0, .fork true true),
    (1, .mkdir (some [100])), (1, .chdir (some [100])), (1, .exit)]

theorem references_accounted_openAndLeave :
    Accounted oneFile ∧ ∃ last, Steps (Guarded Completes Settles) oneFile openAndLeave last ∧
      Accounted last := by
  have start : Accounted oneFile := by decide +kernel
  have evaluated : (follow Kernel.syscall (fun kernel label => Counted label.2 ∧
      Settles kernel label) oneFile openAndLeave).isSome = true := by
    decide +kernel
  have followed := Steps.of_follow (Option.some_get evaluated).symm
  have run : Steps (Guarded Completes Settles) oneFile openAndLeave _ :=
    followed.mono fun step => ⟨step.1.2, step.1.1, step.2⟩
  exact ⟨start, _, run, (references_accounted oneFile start openAndLeave _ run).1⟩

/-- Init changes the mode of the file, and its inode is held by nobody ever after. -/
theorem chmod_keeps_reference :
    Accounted oneFile ∧ ∃ next, Completes oneFile (0, .chmod (some [102]) (some 0o600)) next ∧
      ¬Accounted next := by
  refine ⟨by decide +kernel, ?_⟩
  have evaluated : (oneFile.syscall (0, .chmod (some [102]) (some 0o600))).any
      (fun next => decide ¬Accounted next) = true := by
    decide +kernel
  obtain ⟨returned, lost⟩ := (Option.any_eq_true_iff_get _ _).mp evaluated
  exact ⟨_, ⟨trivial, (Option.some_get returned).symm⟩, of_decide_eq_true lost⟩

/-- `create` returns an inode that it has locked, and `open` looks the path up and locks
what it finds. An `open` that finds the inode again waits for itself. -/
theorem open_create_never_returns {path : Path} {omode : UInt32} {ip : InodePtr}
    {made found : Kernel} (creating : omode &&& O_CREATE ≠ 0)
    (makes : (do beginOp; create path .file 0 0 (← get).myproc.uid 0o644) (kernel.enter p) =
      .ok (some ip) made) (finds : namei path made = .ok (some ip) found) :
    sysOpen (some path) (some omode) (kernel.enter p) ≠ .ok result next := by
  intro run
  have idle := enter_idle kernel p
  simp only [sysOpen, if_pos creating] at run
  rw [← bind_assoc, ← bind_assoc] at run
  obtain ⟨_, _, makes', opens⟩ := bind_ok run
  rw [bind_assoc, makes] at makes'
  cases makes'
  obtain ⟨_, _, finds', body⟩ := bind_ok opens
  rw [finds] at finds'
  cases finds'
  obtain ⟨_, _, locks, _⟩ := bind_ok body
  have made_eq := (tracks_makes idle path _ rfl).ok makes
  have found_eq := (@tracks_namei_begin true _ (by exact idle) (.inl rfl) path _ made_eq).ok finds
  have unlocked := ((@tracks_ilock true _ ip (.inl rfl) _ found_eq).ok locks).1
  exact Option.some_ne_none _ ((Function.update_self ip _ _).symm.trans unlocked)

/-- Init opens the file with `O_CREATE`. -/
theorem open_create_never_returns_oneFile :
    outcome (sysOpen (some [102]) (some O_CREATE)) (oneFile.enter 0) = none := by
  have evaluated : (outcome (do beginOp; create [102] .file 0 0 (← get).myproc.uid 0o644)
      (oneFile.enter 0)).any (fun made => (outcome (namei [102]) made.2).any
        fun found => made.1 = some 1 ∧ found.1 = some 1) = true := by
    decide +kernel
  obtain ⟨_, made, makes, evaluated⟩ := exists_of_outcome evaluated
  obtain ⟨_, found, finds, same⟩ := exists_of_outcome evaluated
  obtain ⟨rfl, rfl⟩ := of_decide_eq_true same
  refine Option.eq_none_iff_forall_ne_some.mpr fun returned run => ?_
  exact open_create_never_returns (by decide) makes finds (outcome_eq_some.mp run)

end Xv6.Resource
