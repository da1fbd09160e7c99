import Xv6.Files.Calls

/-!
# The system calls keep the file table in order

Every call of the table, and `pipe`, started by a live process in a settled state
ends in a settled state. Inside of them a reference is in a variable between the
function that returns it and the descriptor it is put in.
-/

namespace Xv6.Files

open Program Function List

variable {base : Nat → Int} {extra : FilePtr → Int} {d d' : Descriptors} {f : FilePtr}
  {fd : Fin NOFILE} {rest : List (Fin NOFILE)}

/-- Close a file that a variable refers to. -/
theorem accounted_fileclose_var (accounted : Accounted base (extra + Pi.single f 1) d)
    (none : 0 ≤ extra f) :
    Describes (fileclose f) d fun _ after => Accounted base extra after ∧ after.ofile = d.ofile ∧
      after.kind = d.kind ∧ after.cur = d.cur := by
  have counted := accounted.counted f
  rw [Pi.add_apply, Pi.single_eq_same] at counted
  apply Track.mono (accounted_fileclose accounted (by omega))
  rintro _ after ⟨closed, same⟩
  rw [single_cancel] at closed
  exact ⟨closed, same⟩

/-! ## `pipe` -/

/-- The descriptors of all processes and their kinds are the same. -/
def SameProcesses (before after : Descriptors) : Prop :=
  after.ofile = before.ofile ∧ after.kind = before.kind ∧ after.cur = before.cur

theorem handle_open_pipe {file : File} (used : file.ref ≠ 0) (p : Nat) (readable writable : Bool) :
    (file.open (.pipe p) readable writable).handle =
      ⟨file.ref, some ⟨p, readable, writable⟩⟩ := by
  simp [File.handle, File.open, used]

theorem handle_open_inode (file : File) (ip : InodePtr) (off : UInt32)
    (readable writable : Bool) :
    (file.open (.inode ip off) readable writable).handle = ⟨file.ref, none⟩ := by
  unfold File.handle File.open
  by_cases none : file.ref = 0
  · simp [none]
  · simp [none]

/-- A file that a variable refers to becomes an end of a pipe. -/
theorem describes_open_pipe (used : (d.file f).ref ≠ 0) (p : Nat) (readable writable : Bool) :
    Describes (modify (·.updateFile f fun file => file.open (.pipe p) readable writable)) d
      fun _ after => after = d.setFile f ⟨(d.file f).ref, some ⟨p, readable, writable⟩⟩ := by
  apply describes_updateFile
  intro file same
  rw [← same] at used ⊢
  exact handle_open_pipe used p readable writable

/-- Two files without a pipe get one, on a page that is not in use. -/
theorem accounted_pipeinit (accounted : Accounted base extra d) {f0 f1 : FilePtr} {p : Nat}
    (other : f1 ≠ f0) (entry0 : d.file f0 = ⟨1, none⟩) (entry1 : d.file f1 = ⟨1, none⟩)
    (fresh : base p + balance p d.pages = 0) :
    Describes (pipeinit p f0 f1) d fun _ after =>
      SameProcesses d after ∧ Accounted base extra after := by
  have ref0 : (d.file f0).ref = 1 := by rw [entry0]
  have ref1 : (d.file f1).ref = 1 := by rw [entry1]
  have ends : Describes (updatePipe p fun _ => { data := [], readopen := true, writeopen := true })
      { d with pages := .kalloc p :: d.pages } fun _ after => after = d.pipe p := by
    apply Track.mono
    · apply describes_updatePipe
      intro _ _
      funext readable
      exact ite_self true
    · rintro _ _ rfl
      rfl
  apply Track.bind (describes_emitPage rfl)
  rintro _ _ rfl
  apply Track.bind ends
  rintro _ _ rfl
  have used0 : ((d.pipe p).file f0).ref ≠ 0 := by
    change (d.file f0).ref ≠ 0
    omega
  apply Track.bind (describes_open_pipe used0 p true false)
  rintro _ _ rfl
  have file1 : (((d.pipe p).setFile f0 ⟨((d.pipe p).file f0).ref, some ⟨p, true, false⟩⟩).file f1) =
      d.file f1 := update_of_ne other ..
  have used1 : (((d.pipe p).setFile f0
      ⟨((d.pipe p).file f0).ref, some ⟨p, true, false⟩⟩).file f1).ref ≠ 0 := by
    rw [file1]
    omega
  apply Track.mono (describes_open_pipe used1 p false true)
  rintro _ _ rfl
  refine ⟨⟨rfl, rfl, rfl⟩, ?_⟩
  rw [file1]
  apply accounted.pipe other _ _ _ _ fresh
  · rw [entry0]
  · rw [entry1]
  · omega
  · omega

theorem accounted_pipealloc (settled : Settled base d) (page : Option Nat)
    (fresh : ∀ p ∈ page, base p + balance p d.pages = 0) :
    Describes (pipealloc page) d fun result after => SameProcesses d after ∧
      match result with
      | none => Settled base after
      | some (rf, wf) => Accounted base (Pi.single rf 1 + Pi.single wf 1) after := by
  apply Track.bind describes_filealloc
  intro first middle taken
  match first with
  | none =>
    subst taken
    exact .pure ⟨⟨rfl, rfl, rfl⟩, settled⟩
  | some f0 =>
    obtain ⟨free0, rfl⟩ := taken
    have one := settled.alloc free0
    apply Track.bind describes_filealloc
    intro second middle taken
    match second with
    | none =>
      subst taken
      apply Track.bind (accounted_fileclose_var one le_rfl)
      rintro _ after ⟨closed, same⟩
      exact .pure ⟨same, closed⟩
    | some f1 =>
      obtain ⟨free1, rfl⟩ := taken
      have two := one.alloc free1
      have other : f1 ≠ f0 := by
        rintro rfl
        change (update d.file f1 ⟨1, none⟩ f1).ref = 0 at free1
        rw [update_self] at free1
        exact nomatch free1
      match page with
      | none =>
        rw [add_right_comm] at two
        apply Track.bind (accounted_fileclose_var two (by simp [Ne.symm other]))
        rintro _ closed ⟨accounted, same⟩
        apply Track.bind (accounted_fileclose_var accounted le_rfl)
        rintro _ after ⟨accounted', same'⟩
        apply Track.pure
        refine ⟨⟨?_, ?_, ?_⟩, accounted'⟩
        · exact same'.1.trans same.1
        · exact same'.2.1.trans same.2.1
        · exact same'.2.2.trans same.2.2
      | some p =>
        have entry0 : ((d.setFile f0 ⟨1, none⟩).setFile f1 ⟨1, none⟩).file f0 = ⟨1, none⟩ := by
          change update (update d.file f0 ⟨1, none⟩) f1 ⟨1, none⟩ f0 = _
          rw [update_of_ne (Ne.symm other), update_self]
        have entry1 : ((d.setFile f0 ⟨1, none⟩).setFile f1 ⟨1, none⟩).file f1 = ⟨1, none⟩ :=
          update_self ..
        apply Track.bind (accounted_pipeinit two other entry0 entry1 (fresh p rfl))
        rintro _ after ⟨same, accounted⟩
        rw [zero_add] at accounted
        exact .pure ⟨same, accounted⟩

theorem single_nonneg (f g : FilePtr) : 0 ≤ (Pi.single f 1 : FilePtr → Int) g := by
  by_cases here : g = f
  · subst here
    simp
  · simp [here]

theorem SameProcesses.running (same : SameProcesses d d') (running : Running d) : Running d' := by
  unfold Running
  rw [same.2.1, same.2.2]
  exact running

/-- `sys_pipe` gives up both of its files. -/
theorem accounted_closeBoth {rf wf : FilePtr}
    (accounted : Accounted base (Pi.single wf 1 + Pi.single rf 1) d) :
    Describes (do
      fileclose rf
      fileclose wf
      pure none : Kern (Option (Fin NOFILE × Fin NOFILE))) d fun _ after => Settled base after := by
  apply Track.bind (accounted_fileclose_var accounted (single_nonneg wf rf))
  rintro _ middle ⟨closed, _⟩
  rw [← zero_add (Pi.single wf 1)] at closed
  apply Track.bind (accounted_fileclose_var closed le_rfl)
  rintro _ after ⟨closed', _⟩
  exact .pure closed'

theorem accounted_sysPipe (settled : Settled base d) (running : Running d) (fd : Bool)
    (page : Option Nat) (fresh : ∀ p ∈ page, base p + balance p d.pages = 0) :
    Describes (sysPipe fd page) d fun _ after => Settled base after := by
  cases fd with
  | false => exact .pure settled
  | true =>
    apply Track.bind (accounted_pipealloc settled page fresh)
    rintro result middle ⟨same, accounted⟩
    have running' := same.running running
    match result with
    | none => exact .pure accounted
    | some (rf, wf) =>
      change Accounted base (Pi.single rf 1 + Pi.single wf 1) middle at accounted
      apply Track.bind (describes_fdalloc rf)
      intro first after allocated
      match first with
      | none =>
        subst allocated
        rw [add_comm] at accounted
        exact accounted_closeBoth accounted
      | some fd0 =>
        obtain ⟨free, rfl⟩ := allocated
        have filled := accounted.fill running'.live free rf
        rw [add_comm (Pi.single rf 1), single_cancel] at filled
        have running0 : Running (middle.setSlot middle.cur fd0 (some rf)) := running'
        have slot0 : (middle.setSlot middle.cur fd0 (some rf)).ofile middle.cur fd0 =
            some rf := by
          change update middle.ofile middle.cur
            (update (middle.ofile middle.cur) fd0 (some rf)) middle.cur fd0 = _
          rw [update_self, update_self]
        apply Track.bind (describes_fdalloc wf)
        intro second after allocated
        match second with
        | none =>
          subst allocated
          apply Track.bind (describes_setSlot fd0 none)
          rintro _ _ rfl
          exact accounted_closeBoth (filled.clear slot0)
        | some fd1 =>
          obtain ⟨free1, rfl⟩ := allocated
          have filled' := filled.fill running0.live free1 wf
          rw [← zero_add (Pi.single wf 1), single_cancel] at filled'
          exact .pure filled'

/-! ## `open` -/

section

variable (settled : Settled base d)

include settled

theorem accounted_openFile (running : Running d) (ip : InodePtr) (omode : UInt32) :
    Describes (openFile ip omode) d fun _ after => Settled base after := by
  apply Track.bind describes_filealloc
  intro first middle taken
  match first with
  | none =>
    subst taken
    apply Still.then (frame.iunlockput ip)
    intro _
    apply Still.then frame.endOp
    exact fun _ => .pure settled
  | some f =>
    obtain ⟨free, rfl⟩ := taken
    have one := settled.alloc free
    apply Track.bind (describes_fdalloc f)
    intro second after allocated
    match second with
    | none =>
      subst allocated
      apply Track.bind (accounted_fileclose_var one le_rfl)
      rintro _ after ⟨closed, _⟩
      apply Still.then (frame.iunlockput ip)
      intro _
      apply Still.then frame.endOp
      exact fun _ => .pure closed
    | some fd =>
      obtain ⟨empty, rfl⟩ := allocated
      have running' : Running (d.setFile f ⟨1, none⟩) := running
      have filled := one.fill running'.live empty f
      rw [single_cancel] at filled
      have entry : ((d.setFile f ⟨1, none⟩).setSlot d.cur fd (some f)).file f = ⟨1, none⟩ :=
        update_self ..
      change Describes _ ((d.setFile f ⟨1, none⟩).setSlot d.cur fd (some f)) _
      change Accounted base 0 ((d.setFile f ⟨1, none⟩).setSlot d.cur fd (some f)) at filled
      generalize (d.setFile f ⟨1, none⟩).setSlot d.cur fd (some f) = e at filled entry ⊢
      apply Still.then (frame.iunlock ip)
      intro _
      apply Still.then frame.endOp
      intro _
      -- the file had no pipe end and gets none
      have opened : Describes (modify (·.updateFile f fun file =>
          file.open (.inode ip 0) (omode &&& O_WRONLY = 0)
            (omode &&& O_WRONLY ≠ 0 ∨ omode &&& O_RDWR ≠ 0))) e fun _ after =>
          after = e.setFile f (e.file f) := by
        apply describes_updateFile
        intro file same
        rw [handle_open_inode, entry]
        rw [entry] at same
        rw [← same]
        exact congrArg (Handle.mk file.ref) (congrArg Handle.pipe same).symm
      apply Track.bind opened
      rintro _ _ rfl
      rw [setFile_same]
      exact .pure filled

theorem accounted_openInode (running : Running d) (path : Path) (omode : UInt32) (ip : InodePtr) :
    Describes (openInode path omode ip) d fun _ after => Settled base after := by
  apply Still.then (frame.ilock ip)
  intro _
  apply Track.get
  intro kernel _
  apply Track.ite
  · intro _
    apply Still.then (frame.iunlockput ip)
    intro _
    apply Still.then frame.endOp
    exact fun _ => .pure settled
  · intro _
    apply Track.ite
    · intro _
      apply Still.then (frame.emit rfl)
      intro _
      apply Still.then (frame.iunlockput ip)
      intro _
      apply Still.then frame.endOp
      exact fun _ => .pure settled
    · exact fun _ => accounted_openFile settled running ip omode

theorem accounted_openPath (running : Running d) (path : Path) (omode : UInt32) :
    Describes (openPath path omode) d fun _ after => Settled base after := by
  apply Still.then (frame.namei path)
  intro found
  split
  · apply Still.then frame.endOp
    exact fun _ => .pure settled
  · exact accounted_openInode settled running path omode _

theorem accounted_sysOpen (running : Running d) (path : Option Path) (omode : Option UInt32) :
    Describes (sysOpen path omode) d fun _ after => Settled base after := by
  unfold sysOpen
  split
  · apply Still.then frame.beginOp
    intro _
    apply Track.ite
    · intro _
      apply Track.get
      intro kernel _
      apply Still.then (frame.create _ _ _ _ _ _)
      intro made
      split
      · apply Still.then frame.endOp
        exact fun _ => .pure settled
      · exact accounted_openPath settled running _ _
    · exact fun _ => accounted_openPath settled running _ _
  · exact .pure settled

end

/-! ## `fork` -/

theorem describes_setState (p : ProcPtr) (state : ProcState) :
    Describes (modify (·.updateProc p fun proc => { proc with state := state })) d fun _ after =>
      after = d.setKind p state.kind := by
  apply Track.modify
  rintro kernel rfl
  exact descriptors_setKind rfl

theorem describes_allocproc (kstack : Bool) : Describes (allocproc kstack) d fun result after =>
    match result with
    | none => after = d
    | some np => d.kind np = .unused ∧ after = d.setKind np .embryo := by
  apply Track.get
  intro kernel viewed
  cases found : (finRange NPROC).find? fun p => (kernel.ptable p).state = .unused with
  | none => exact .pure rfl
  | some np =>
    have free : (kernel.ptable np).state = .unused := by simpa using find?_some found
    have kind_eq : d.kind np = .unused := by
      rw [← viewed]
      exact Processes.kind_eq_unused.mpr free
    have embryo : Describes (modify (·.updateProc np fun proc =>
        { proc with state := .embryo, pid := kernel.nextpid })) d
        fun _ after => after = d.setKind np .embryo := by
      apply Track.modify
      rintro kernel rfl
      exact descriptors_setKind rfl
    apply Track.bind embryo
    rintro _ _ rfl
    have numbered : Still (modify fun kernel : Kernel =>
        { kernel with nextpid := kernel.nextpid + 1 }) := .modify fun _ => rfl
    apply numbered.then
    intro _
    apply Track.ite
    · exact fun _ => .pure ⟨kind_eq, rfl⟩
    · intro _
      apply Track.bind (describes_setState np .unused)
      rintro _ _ rfl
      apply Track.pure
      change (d.setKind np .embryo).setKind np .unused = d
      unfold Descriptors.setKind
      rw [update_idem, ← kind_eq, update_eq_self]

/-- Both slots of a `fork`: the caller's descriptors are as before, and those still
to be copied are free in the new process. -/
structure Copying (base : Nat → Int) (d : Descriptors) (np : ProcPtr) (rest : List (Fin NOFILE))
    (now : Descriptors) : Prop where
  settled : Settled base now
  cur : now.cur = d.cur
  caller : now.ofile d.cur = d.ofile d.cur
  other : np ≠ d.cur
  embryo : now.kind np = .embryo
  nodup : rest.Nodup
  free : ∀ fd ∈ rest, now.ofile np fd = none

theorem Copying.tail {np : ProcPtr} (copying : Copying base d np (fd :: rest) d') :
    Copying base d np rest d' :=
  { copying with
    nodup := (nodup_cons.mp copying.nodup).2
    free := fun other among => copying.free other (mem_cons_of_mem fd among) }

/-- One turn of the loop: the reference that `filedup` returns goes to the new process. -/
theorem describes_forkFile {np : ProcPtr} (copying : Copying base d np (fd :: rest) d') :
    Describes (forkFile np fd) d' fun _ after => Copying base d np rest after := by
  apply Track.get
  rintro kernel rfl
  cases slot : kernel.myproc.ofile fd with
  | none => exact .pure copying.tail
  | some f =>
    have used := copying.settled.used_of_slot slot rfl
    apply Track.bind (describes_filedup used)
    rintro _ _ ⟨same, rfl⟩
    rw [same]
    have raised := copying.settled.dup f
    have filled : Describes (modify (·.updateProc np fun proc =>
        { proc with ofile := update proc.ofile fd (some f) }))
        (kernel.descriptors.setFile f
          ⟨(kernel.descriptors.file f).ref + 1, (kernel.descriptors.file f).pipe⟩) fun _ after =>
          after = (kernel.descriptors.setFile f
            ⟨(kernel.descriptors.file f).ref + 1, (kernel.descriptors.file f).pipe⟩).setSlot
              np fd (some f) := by
      apply Track.modify
      rintro kernel viewed
      rw [descriptors_setSlot, viewed]
    apply Track.mono filled
    rintro _ _ rfl
    have tail := copying.tail
    have live : kernel.descriptors.kind np ≠ .unused ∧ kernel.descriptors.kind np ≠ .zombie := by
      rw [copying.embryo]
      exact ⟨nofun, nofun⟩
    have settled := raised.fill (p := np) live (copying.free fd mem_cons_self) f
    rw [single_cancel] at settled
    refine ⟨settled, tail.cur, ?_, tail.other, tail.embryo, tail.nodup, ?_⟩
    · change update kernel.descriptors.ofile np _ d.cur = _
      rw [update_of_ne (Ne.symm copying.other)]
      exact copying.caller
    · intro fd' among
      change update kernel.descriptors.ofile np
        (update (kernel.descriptors.ofile np) fd (some f)) np fd' = none
      have later : fd' ≠ fd := by
        rintro rfl
        exact (nodup_cons.mp copying.nodup).1 among
      rw [update_self, update_of_ne later]
      exact tail.free fd' among

theorem accounted_fork (settled : Settled base d) (running : Running d) (kstack copied : Bool) :
    Describes (fork kstack copied) d fun _ after => Settled base after := by
  apply Track.bind (describes_allocproc kstack)
  intro result middle allocated
  match result with
  | none =>
    subst allocated
    exact .pure settled
  | some np =>
    obtain ⟨unused, rfl⟩ := allocated
    have other : np ≠ d.cur := by
      rintro rfl
      exact nomatch unused.symm.trans running
    have vacant : ∀ fd, d.ofile np fd = none := settled.empty np (.inl unused)
    have born : Settled base (d.setKind np .embryo) := settled.setKind nofun
    cases copied with
    | false =>
      apply Track.bind (describes_setState np .unused)
      rintro _ _ rfl
      exact .pure (born.setKind fun _ => vacant)
    | true =>
      have adopted : Still (modify fun kernel : Kernel => kernel.updateProc np fun proc =>
          { proc with parent := some kernel.cur }) :=
        .modify fun kernel => descriptors_updateProc rfl rfl
      apply adopted.then
      intro _
      have start : Copying base d np (finRange NOFILE) (d.setKind np .embryo) := by
        refine ⟨born, rfl, rfl, other, ?_, nodup_finRange NOFILE, fun fd _ => vacant fd⟩
        exact update_self ..
      apply Track.bind (.forM (Copying base d np)
        (fun fd rest now copying => describes_forkFile copying) _ start)
      intro _ after copying
      apply Track.get
      intro kernel _
      split
      · exact .throw rfl
      · apply Still.then (frame.idup _)
        intro cwd
        have placed : Still (modify (·.updateProc np fun proc =>
            { proc with cwd := some cwd })) :=
          .modify fun kernel => descriptors_updateProc rfl rfl
        apply placed.then
        intro _
        apply Track.bind (describes_setState np .runnable)
        rintro _ _ rfl
        apply Track.get
        intro _ _
        exact .pure (copying.settled.setKind nofun)

/-! ## `exit` and `wait` -/

/-- The descriptors of the caller before `rest` are closed. -/
structure Closing (base : Nat → Int) (d : Descriptors) (rest : List (Fin NOFILE))
    (now : Descriptors) : Prop where
  settled : Settled base now
  cur : now.cur = d.cur
  kind : now.kind = d.kind
  closed : ∀ fd ∉ rest, now.ofile d.cur fd = none

/-- One turn of the loop: the file is closed while its descriptor is still there. -/
theorem describes_exitFile (closing : Closing base d (fd :: rest) d') :
    Describes (exitFile fd) d' fun _ after => Closing base d rest after := by
  apply Track.get
  rintro kernel viewed
  have slot_eq : kernel.myproc.ofile fd = d'.ofile d'.cur fd := by
    rw [← viewed]
    rfl
  rw [slot_eq]
  cases slot : d'.ofile d'.cur fd with
  | none =>
    apply Track.pure
    refine ⟨closing.settled, closing.cur, closing.kind, fun other passed => ?_⟩
    by_cases here : other = fd
    · rw [here, ← closing.cur]
      exact slot
    · exact closing.closed other (by simp [here, passed])
  | some f =>
    have used := closing.settled.used_of_slot slot rfl
    apply Track.bind (accounted_fileclose closing.settled used)
    rintro _ middle ⟨accounted, ofile_eq, kind_eq, cur_eq⟩
    have slot' : middle.ofile middle.cur fd = some f := by
      rw [ofile_eq, cur_eq]
      exact slot
    apply Track.mono (describes_setSlot fd none)
    rintro _ _ rfl
    have cleared := accounted.clear slot'
    rw [single_cancel'] at cleared
    refine ⟨cleared, cur_eq.trans closing.cur, kind_eq.trans closing.kind, ?_⟩
    intro other passed
    have here_eq : middle.cur = d.cur := cur_eq.trans closing.cur
    change update middle.ofile middle.cur
      (update (middle.ofile middle.cur) fd none) d.cur other = none
    rw [← here_eq, update_self]
    by_cases here : other = fd
    · rw [here, update_self]
    · rw [update_of_ne here, ofile_eq, here_eq]
      exact closing.closed other (by simp [here, passed])

theorem still_exitChild (p : ProcPtr) : Still (exitChild p) := by
  apply frame.get
  intro kernel
  apply frame.when
  apply frame.bind
  · exact .modify fun kernel => descriptors_updateProc rfl rfl
  · exact fun _ => frame.when (still_wakeup _)

theorem still_wakeParent : Still wakeParent := by
  apply frame.get
  intro kernel
  split
  · exact frame.pure ()
  · exact still_wakeup _

theorem accounted_exit (settled : Settled base d) :
    Describes exit d fun _ after => Settled base after := by
  apply Track.get
  intro kernel _
  apply Track.ite
  · exact fun _ => .throw rfl
  · intro _
    have start : Closing base d (finRange NOFILE) d :=
      ⟨settled, rfl, rfl, fun fd absent => absurd (mem_finRange fd) absent⟩
    apply Track.bind (.forM (Closing base d)
      (fun fd rest now closing => describes_exitFile closing) _ start)
    intro _ after closing
    apply Still.then frame.beginOp
    intro _
    apply Track.get
    intro kernel _
    split
    · exact .throw rfl
    · apply Still.then (frame.iput _)
      intro _
      apply Still.then frame.endOp
      intro _
      apply (still_writeCwd none).then
      intro _
      apply Still.then still_wakeParent
      intro _
      apply Still.then (frame.forM _ still_exitChild)
      intro _
      apply Track.modify
      rintro kernel rfl
      have ended : (kernel.updateProc kernel.cur fun proc =>
          { proc with state := .zombie }).descriptors =
            kernel.descriptors.setKind kernel.cur .zombie := descriptors_setKind rfl
      rw [ended]
      apply closing.settled.setKind
      intro _ fd
      have here : kernel.cur = d.cur := closing.cur
      rw [here]
      exact closing.closed fd not_mem_nil

theorem accounted_wait (settled : Settled base d) :
    Describes wait d fun _ after => Settled base after := by
  apply Track.get
  intro kernel viewed
  cases found : (finRange NPROC).find? fun p =>
      (kernel.ptable p).parent = some kernel.cur ∧ (kernel.ptable p).state = .zombie with
  | some p =>
    have both := find?_some found
    simp only [decide_eq_true_eq] at both
    have zombie : d.kind p = .zombie := by
      rw [← viewed]
      exact Processes.kind_eq_zombie.mpr both.2
    have reaped : Describes (modify (·.updateProc p Proc.reaped)) d fun _ after =>
        after = d.setKind p .unused := by
      apply Track.modify
      rintro kernel rfl
      exact descriptors_setKind rfl
    apply Track.bind reaped
    rintro _ _ rfl
    exact .pure (settled.setKind fun _ => settled.empty p (.inr zombie))
  | none =>
    apply Track.ite
    · exact fun _ => .pure settled
    · exact fun _ => .throw rfl

/-! ## The rest of the table -/

theorem still_chdirInode (path : Path) (ip : InodePtr) : Still (chdirInode path ip) := by
  apply frame.bind (frame.ilock ip)
  intro _
  apply frame.get
  intro kernel
  apply Keeps.ite
  · intro _
    apply frame.bind (frame.iunlockput ip)
    intro _
    apply frame.bind frame.endOp
    exact fun _ => frame.pure _
  · intro _
    apply Keeps.ite
    · intro _
      apply frame.bind (frame.emit rfl)
      intro _
      apply frame.bind (frame.iunlockput ip)
      intro _
      apply frame.bind frame.endOp
      exact fun _ => frame.pure _
    · intro _
      apply frame.bind (frame.iunlock ip)
      intro _
      split
      · exact frame.throw rfl
      · apply frame.bind (frame.iput _)
        intro _
        apply frame.bind frame.endOp
        intro _
        apply frame.bind (still_writeCwd (some ip))
        exact fun _ => frame.pure _

theorem still_sysChdir (path : Option Path) : Still (sysChdir path) := by
  apply frame.bind frame.beginOp
  intro _
  split
  · apply frame.bind frame.endOp
    exact fun _ => frame.pure _
  · exact frame.withInode _ (still_chdirInode _)

theorem still_argfd (fd : Option Int) : Still (argfd fd) := by
  apply frame.get
  intro kernel
  split
  · exact frame.pure _
  · split
    · exact frame.pure _
    · exact frame.pure _

theorem still_sysFstat (fd : Option Int) (st : Bool) : Still (sysFstat fd st) := by
  apply frame.bind (still_argfd fd)
  intro found
  split
  · exact frame.pure _
  · apply Keeps.ite
    · intro _
      apply frame.get
      intro kernel
      split
      · apply frame.bind (frame.ilock _)
        intro _
        apply frame.bind (frame.readInode _)
        intro inode
        apply frame.bind (frame.iunlock _)
        exact fun _ => frame.pure _
      · exact frame.pure _
    · exact fun _ => frame.pure _

/-- Bytes move through a pipe without opening or closing an end. -/
theorem still_pipeData (p : Nat) (data : Pipe → List Byte) :
    Still (updatePipe p fun pipe => { pipe with data := data pipe }) := by
  apply Keeps.modify
  intro kernel
  apply Descriptors.ext
  · rfl
  · rfl
  · rfl
  · rfl
  · funext q
    change (update kernel.pipes p _ q).opened = (kernel.pipes q).opened
    by_cases here : q = p
    · subst here
      rw [update_self]
      rfl
    · rw [update_of_ne here]
  · rfl

theorem still_pipewriteLoop (p : Nat) (bytes : List Byte) : Still (pipewriteLoop p bytes) := by
  induction bytes with
  | nil => exact frame.pure true
  | cons byte rest ih =>
    apply frame.get
    intro kernel
    apply Keeps.ite
    · intro _
      apply Keeps.ite
      · exact fun _ => frame.pure false
      · intro _
        apply frame.bind (still_wakeup _)
        exact fun _ => frame.throw rfl
    · intro _
      apply frame.bind (still_pipeData p _)
      exact fun _ => ih

theorem still_pipewrite (p : Nat) (bytes : List Byte) : Still (pipewrite p bytes) := by
  apply frame.bind (still_pipewriteLoop p bytes)
  intro all
  apply Keeps.ite
  · intro _
    apply frame.bind (still_wakeup _)
    exact fun _ => frame.pure _
  · exact fun _ => frame.pure _

/-- Moving the offset of an open inode. -/
theorem describes_seek (idle : (d.file f).pipe = none) (ip : InodePtr) (off : UInt32) :
    Describes (modify (·.updateFile f (File.seek · ip off))) d fun _ after => after = d := by
  have moved : Describes (modify (·.updateFile f (File.seek · ip off))) d fun _ after =>
      after = d.setFile f (d.file f) := by
    apply describes_updateFile
    intro file same
    unfold File.seek
    rw [handle_open_inode, ← same]
    rw [← same] at idle
    exact congrArg (Handle.mk file.ref) idle.symm
  apply Track.mono moved
  rintro _ _ rfl
  exact setFile_same f

theorem describes_filewriteLoop (idle : (d.file f).pipe = none) (ip : InodePtr) (fuel : Nat)
    (bytes : List Byte) : Describes (filewriteLoop f ip fuel bytes) d fun _ after => after = d := by
  induction fuel generalizing bytes with
  | zero => exact .pure rfl
  | succ fuel ih =>
    apply Track.ite
    · exact fun _ => .pure rfl
    · intro _
      apply Still.then frame.beginOp
      intro _
      apply Still.then (frame.ilock ip)
      intro _
      apply Track.get
      intro kernel _
      split
      · rename_i off _
        apply Still.then (frame.writei ip _ _ _)
        intro r
        have moved : Describes (when (0 < r)
            (modify (·.updateFile f (File.seek · ip (off + .ofNat r.toNat))))) d
            fun _ after => after = d :=
          .when (fun _ => rfl) fun _ => describes_seek idle ip _
        apply Track.bind moved
        rintro _ _ rfl
        apply Still.then (frame.iunlock ip)
        intro _
        apply Still.then frame.endOp
        intro _
        apply Track.ite
        · exact fun _ => .pure rfl
        · intro _
          apply Track.ite
          · exact fun _ => .throw rfl
          · exact fun _ => ih _
      · exact .throw rfl

theorem describes_filewrite (f : FilePtr) (bytes : List Byte) :
    Describes (filewrite f bytes) d fun _ after => after = d := by
  apply Track.get
  intro kernel viewed
  apply Track.ite
  · exact fun _ => .pure rfl
  · intro _
    cases type_eq : (kernel.ftable f).type with
    | none => exact .throw rfl
    | pipe p => exact (still_pipewrite p bytes).describes
    | inode ip off =>
      have idle : (d.file f).pipe = none := by
        rw [← viewed]
        change (kernel.ftable f).handle.pipe = none
        simp [File.handle, type_eq]
      apply Track.bind (describes_filewriteLoop idle ip _ bytes)
      rintro _ _ rfl
      exact .pure rfl

theorem describes_sysWrite (fd : Option Int) (buffer : Option (List Byte)) :
    Describes (sysWrite fd buffer) d fun _ after => after = d := by
  apply (still_argfd fd).then
  intro found
  split
  · exact describes_filewrite _ _
  · exact .pure rfl

/-- Every system call of the table. -/
theorem accounted_syscall (settled : Settled base d) (running : Running d) (call : Syscall) :
    Describes call.run d fun _ after => Settled base after := by
  have keep : ∀ {program : Kern Int}, Still program →
      Describes program d fun _ after => Settled base after := by
    intro program still
    apply Track.mono still.describes
    rintro _ _ rfl
    exact settled
  cases call with
  | fork kstack copied => exact accounted_fork settled running kstack copied
  | exit =>
    apply Track.bind (accounted_exit settled)
    exact fun _ _ ended => .pure ended
  | wait => exact accounted_wait settled
  | exec memory path argv => exact keep (frame.exec memory path argv)
  | dup fd => exact accounted_sysDup settled running fd
  | close fd => exact accounted_sysClose settled fd
  | write fd buffer =>
    apply Track.mono (describes_sysWrite fd buffer)
    rintro _ _ rfl
    exact settled
  | fstat fd st =>
    apply (still_sysFstat fd st).then
    exact fun _ => .pure settled
  | open_ path omode => exact accounted_sysOpen settled running path omode
  | chdir path => exact keep (still_sysChdir path)
  | link old new => exact keep (frame.sysLink old new)
  | unlink path => exact keep (frame.sysUnlink path)
  | mkdir path => exact keep (frame.sysMkdir path)
  | mknod locals path major minor => exact keep (frame.sysMknod locals path major minor)
  | chmod path mode => exact keep (frame.sysChmod path mode)
  | chown path owner group => exact keep (frame.sysChown path owner group)

end Xv6.Files
