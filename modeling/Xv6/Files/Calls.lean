import Xv6.Files.Descriptors

/-!
# The functions of `file.c`, `pipe.c` and the calls that use them

Each specification says what becomes of the descriptors, and that the panics of
`filedup` and `fileclose` are not raised: the callers hold a reference, in a
descriptor or in a variable, to every file they pass.
-/

namespace Xv6.Files

open Program Function

variable {Value Result : Type} {program : Kern Value} {base : Nat → Int} {extra : FilePtr → Int}
  {d d' : Descriptors} {f : FilePtr} {kernel : Kernel} {p : ProcPtr} {fd : Fin NOFILE}

/-- Specifications over the descriptors. -/
abbrev Describes (program : Kern Value) (d : Descriptors) (post : Value → Descriptors → Prop) :
    Prop :=
  Track Kernel.descriptors (fun fault => fault.outsideFiles = true) program d post

/-- The descriptors stay as they are. -/
abbrev SameDescriptors (before after : Kernel) : Prop := after.descriptors = before.descriptors

theorem descriptors_emit {event : Event} (outside : event.outsidePages = true) :
    (kernel.emit event).descriptors = kernel.descriptors := by
  unfold Kernel.descriptors Kernel.emit
  simp [outside]

/-- File-system code leaves the descriptors alone. -/
theorem frame : Frame SameDescriptors (fun fault => fault.outsideFiles = true) where
  refl _ := rfl
  trans first second := second.trans first
  cache _ _ _ := rfl
  disk _ _ := rfl
  log _ _ _ := rfl
  input _ _ := rfl
  event _ _ outside := descriptors_emit outside
  fault _ outside := outside

/-- Code that leaves the descriptors alone. -/
abbrev Still (program : Kern Value) : Prop :=
  Keeps SameDescriptors (fun fault => fault.outsideFiles = true) program

theorem Still.describes (still : Still program) :
    Describes program d fun _ after => after = d := by
  intro kernel viewed
  apply (still kernel).weaken
  intro _ next same
  exact same.trans viewed

/-- Go on after code that leaves the descriptors alone. -/
theorem Still.then {continuation : Value → Kern Result} {post : Result → Descriptors → Prop}
    (still : Still program) (rest : ∀ value, Describes (continuation value) d post) :
    Describes (program >>= continuation) d post := by
  apply Track.bind still.describes
  rintro value _ rfl
  exact rest value

/-! ## Processes -/

theorem descriptors_setKind {update : Proc → Proc}
    (ofile : (update (kernel.ptable p)).ofile = (kernel.ptable p).ofile) :
    (kernel.updateProc p update).descriptors =
      kernel.descriptors.setKind p (update (kernel.ptable p)).state.kind := by
  apply Descriptors.ext
  · rfl
  · funext q
    change (Function.update kernel.ptable p (update (kernel.ptable p)) q).ofile = _
    by_cases here : q = p
    · subst here
      rw [update_self, ofile]
      rfl
    · rw [update_of_ne here]
      rfl
  · funext q
    change (Function.update kernel.ptable p (update (kernel.ptable p)) q).state.kind =
      Function.update kernel.descriptors.kind p _ q
    by_cases here : q = p
    · subst here
      rw [update_self, update_self]
    · rw [update_of_ne here, update_of_ne here]
      rfl
  · rfl
  · rfl
  · rfl

theorem setKind_same (p : ProcPtr) : d.setKind p (d.kind p) = d := by
  unfold Descriptors.setKind
  rw [update_eq_self]

theorem descriptors_updateProc {update : Proc → Proc}
    (ofile : (update (kernel.ptable p)).ofile = (kernel.ptable p).ofile)
    (kind : (update (kernel.ptable p)).state.kind = (kernel.ptable p).state.kind) :
    (kernel.updateProc p update).descriptors = kernel.descriptors := by
  rw [descriptors_setKind ofile, kind]
  exact setKind_same p

theorem descriptors_setSlot (kernel : Kernel) (p : ProcPtr) (fd : Fin NOFILE)
    (entry : Option FilePtr) :
    (kernel.updateProc p fun proc =>
      { proc with ofile := update proc.ofile fd entry }).descriptors =
      kernel.descriptors.setSlot p fd entry := by
  apply Descriptors.ext
  · rfl
  · funext q
    change (update kernel.ptable p _ q).ofile =
      update kernel.descriptors.ofile p (update (kernel.ptable p).ofile fd entry) q
    by_cases here : q = p
    · subst here
      rw [update_self, update_self]
    · rw [update_of_ne here, update_of_ne here]
      rfl
  · funext q
    change (update kernel.ptable p _ q).state.kind = (kernel.ptable q).state.kind
    by_cases here : q = p
    · subst here
      rw [update_self]
    · rw [update_of_ne here]
  · rfl
  · rfl
  · rfl

theorem still_wakeup (chan : Channel) : Still (wakeup chan) := by
  apply Keeps.modify
  intro kernel
  apply Descriptors.ext
  · rfl
  · funext q
    change ((kernel.ptable q).wake chan).ofile = (kernel.ptable q).ofile
    unfold Proc.wake
    split
    · rfl
    · rfl
  · funext q
    change ((kernel.ptable q).wake chan).state.kind = (kernel.ptable q).state.kind
    unfold Proc.wake
    split
    · rename_i asleep
      rw [asleep.1]
      rfl
    · rfl
  · rfl
  · rfl
  · rfl

theorem still_writeCwd (cwd : Option InodePtr) :
    Still (writeMyproc fun proc => { proc with cwd := cwd }) := by
  apply Keeps.modify
  intro kernel
  exact descriptors_updateProc rfl rfl

/-- A descriptor of the calling process is assigned. -/
theorem describes_setSlot (fd : Fin NOFILE) (entry : Option FilePtr) :
    Describes (writeMyproc fun proc => { proc with ofile := update proc.ofile fd entry }) d
      fun _ after => after = d.setSlot d.cur fd entry := by
  apply Track.modify
  rintro kernel rfl
  exact descriptors_setSlot kernel kernel.cur fd entry

/-! ## Files -/

theorem descriptors_updateFile (kernel : Kernel) (f : FilePtr) (update : File → File) :
    (kernel.updateFile f update).descriptors =
      kernel.descriptors.setFile f (update (kernel.ftable f)).handle := by
  apply Descriptors.ext
  · funext g
    change (Function.update kernel.ftable f _ g).handle =
      Function.update kernel.descriptors.file f _ g
    by_cases here : g = f
    · subst here
      rw [update_self, update_self]
    · rw [update_of_ne here, update_of_ne here]
      rfl
  · rfl
  · rfl
  · rfl
  · rfl
  · rfl

theorem setFile_same (f : FilePtr) : d.setFile f (d.file f) = d := by
  unfold Descriptors.setFile
  rw [update_eq_self]

theorem describes_updateFile {update : File → File} {handle : Handle}
    (becomes : ∀ file : File, file.handle = d.file f → (update file).handle = handle) :
    Describes (modify (·.updateFile f update)) d fun _ after => after = d.setFile f handle := by
  apply Track.modify
  rintro kernel rfl
  rw [descriptors_updateFile, becomes (kernel.ftable f) rfl]

theorem describes_filealloc : Describes filealloc d fun result after =>
    match result with
    | none => after = d
    | some f => (d.file f).ref = 0 ∧ after = d.setFile f ⟨1, none⟩ := by
  apply Track.get
  intro kernel viewed
  cases found : (List.finRange NFILE).find? fun f => (kernel.ftable f).ref = 0 with
  | none => exact .pure rfl
  | some f =>
    have free : (kernel.ftable f).ref = 0 := by simpa using List.find?_some found
    have ref_eq : (d.file f).ref = 0 := by
      rw [← viewed]
      exact free
    have taken : Describes (modify (·.updateFile f File.taken)) d fun _ after =>
        after = d.setFile f ⟨1, none⟩ := by
      apply describes_updateFile
      intro file same
      have idle : file.type = .none := by
        apply file.unused
        rw [← same] at ref_eq
        exact ref_eq
      unfold File.taken File.handle
      simp only [idle]
    apply Track.bind taken
    rintro _ _ rfl
    exact .pure ⟨ref_eq, rfl⟩

theorem describes_filedup (used : 0 < (d.file f).ref) : Describes (filedup f) d fun result after =>
    result = f ∧ after = d.setFile f ⟨(d.file f).ref + 1, (d.file f).pipe⟩ := by
  apply Track.get
  intro kernel viewed
  have ref_eq : (kernel.ftable f).ref = (d.file f).ref := by rw [← viewed]; rfl
  rw [ref_eq, if_neg (by omega)]
  have raised : Describes (modify (·.updateFile f File.dup)) d fun _ after =>
      after = d.setFile f ⟨(d.file f).ref + 1, (d.file f).pipe⟩ := by
    apply describes_updateFile
    intro file same
    rw [← same]
    rfl
  apply Track.bind raised
  rintro _ _ rfl
  exact .pure ⟨rfl, rfl⟩

theorem describes_updatePipe {p : Nat} {update : Pipe → Pipe} {opened : Bool → Bool}
    (becomes : ∀ pipe : Pipe, pipe.opened = d.opened p → (update pipe).opened = opened) :
    Describes (updatePipe p update) d fun _ after => after = d.setEnds p opened := by
  apply Track.modify
  rintro kernel rfl
  apply Descriptors.ext
  · rfl
  · rfl
  · rfl
  · rfl
  · funext q
    change (Function.update kernel.pipes p _ q).opened =
      Function.update kernel.descriptors.opened p opened q
    by_cases here : q = p
    · subst here
      rw [update_self, update_self]
      exact becomes (kernel.pipes q) rfl
    · rw [update_of_ne here, update_of_ne here]
      rfl
  · rfl

theorem describes_pipecloseEnd (p : Nat) (readable : Bool) :
    Describes (pipecloseEnd p (!readable)) d fun _ after =>
      after = d.setEnds p (update (d.opened p) readable false) := by
  unfold pipecloseEnd
  cases readable with
  | false =>
    have marked : Describes (updatePipe p fun pipe => { pipe with writeopen := false }) d
        fun _ after => after = d.setEnds p (update (d.opened p) false false) := by
      apply describes_updatePipe
      intro pipe same
      funext readable
      rw [← same]
      cases readable <;> rfl
    apply Track.bind marked
    rintro _ _ rfl
    exact (still_wakeup _).describes
  | true =>
    have marked : Describes (updatePipe p fun pipe => { pipe with readopen := false }) d
        fun _ after => after = d.setEnds p (update (d.opened p) true false) := by
      apply describes_updatePipe
      intro pipe same
      funext readable
      rw [← same]
      cases readable <;> rfl
    apply Track.bind marked
    rintro _ _ rfl
    exact (still_wakeup _).describes

theorem describes_emitPage {event : Event} (page : event.outsidePages = false) :
    Describes (emit event) d fun _ after => after = { d with pages := event :: d.pages } := by
  apply Track.modify
  rintro kernel rfl
  unfold Kernel.descriptors Kernel.emit
  simp [page]

/-- `pipeclose` marks one end and frees the page if the other was marked before. -/
theorem describes_pipeclose (p : Nat) (readable : Bool) :
    Describes (pipeclose p (!readable)) d fun _ after => after = d.shut p readable := by
  apply Track.bind (describes_pipecloseEnd p readable)
  rintro _ _ rfl
  apply Track.get
  intro kernel viewed
  have ends : (kernel.pipes p).opened = update (d.opened p) readable false := by
    have opened := congrFun (congrArg Descriptors.opened viewed) p
    exact opened.trans (update_self ..)
  have both : ((kernel.pipes p).readopen = false ∧ (kernel.pipes p).writeopen = false) ↔
      d.opened p (!readable) = false := by
    have read : (kernel.pipes p).readopen = update (d.opened p) readable false true :=
      congrFun ends true
    have write : (kernel.pipes p).writeopen = update (d.opened p) readable false false :=
      congrFun ends false
    rw [read, write]
    cases readable <;> simp
  unfold Descriptors.shut
  apply Track.when
  · intro still
    rw [both, Bool.not_eq_false] at still
    rw [if_pos still]
    rfl
  · intro closed
    rw [both] at closed
    rw [if_neg (by rw [closed]; nofun)]
    exact describes_emitPage rfl

/-- The last reference of a file goes. -/
theorem accounted_filerelease {file : File} (accounted : Accounted base extra d)
    (handle : file.handle = d.file f) (last : (d.file f).ref = 1) :
    Describes (filerelease file) (d.setFile f ⟨0, none⟩) fun _ after =>
      Accounted base (extra + Pi.single f (-1)) after ∧ after.ofile = d.ofile ∧
        after.kind = d.kind ∧ after.cur = d.cur := by
  have idle : (d.file f).pipe = none →
      Accounted base (extra + Pi.single f (-1)) (d.setFile f ⟨0, none⟩) := by
    intro none
    have set := accounted.setFile f ⟨0, .none⟩ none.symm fun _ => rfl
    rw [last] at set
    exact set
  unfold filerelease
  cases type_eq : file.type with
  | none =>
    have none : (d.file f).pipe = none := by
      rw [← handle]
      simp [File.handle, type_eq]
    exact Track.pure ⟨idle none, rfl, rfl, rfl⟩
  | pipe p =>
    have end_ : (d.file f).pipe = some ⟨p, file.readable, file.writable⟩ := by
      rw [← handle]
      simp [File.handle, type_eq]
    have side : file.writable = !file.readable := accounted.sided f _ end_
    rw [side] at end_ ⊢
    apply Track.mono (describes_pipeclose p file.readable)
    rintro _ _ rfl
    exact ⟨accounted.shut end_ last, rfl, rfl, rfl⟩
  | inode ip off =>
    have none : (d.file f).pipe = none := by
      rw [← handle]
      simp [File.handle, type_eq]
    apply Still.then frame.beginOp
    intro _
    apply Still.then (frame.iput ip)
    intro _
    apply Track.mono (Still.describes frame.endOp)
    rintro _ _ rfl
    exact ⟨idle none, rfl, rfl, rfl⟩

/-- `fileclose` gives back the reference its caller holds. -/
theorem accounted_fileclose (accounted : Accounted base extra d) (used : 0 < (d.file f).ref) :
    Describes (fileclose f) d fun _ after =>
      Accounted base (extra + Pi.single f (-1)) after ∧ after.ofile = d.ofile ∧
        after.kind = d.kind ∧ after.cur = d.cur := by
  apply Track.get
  intro kernel viewed
  have handle : (kernel.ftable f).handle = d.file f := by rw [← viewed]; rfl
  have ref_eq : (kernel.ftable f).ref = (d.file f).ref := congrArg Handle.ref handle
  rw [if_neg (by omega)]
  split
  · rename_i several
    have lowered : Describes (modify (·.updateFile f fun _ => (kernel.ftable f).drop several)) d
        fun _ after => after = d.setFile f ⟨(d.file f).ref - 1, (d.file f).pipe⟩ := by
      apply describes_updateFile
      intro _ _
      rw [← handle]
      rfl
    apply Track.mono lowered
    rintro _ _ rfl
    refine ⟨?_, rfl, rfl, rfl⟩
    have still : (d.file f).ref - 1 ≠ 0 := by omega
    have set := accounted.setFile f ⟨(d.file f).ref - 1, (d.file f).pipe⟩ rfl
      fun none => absurd none still
    have change_eq : (((d.file f).ref - 1 : Nat) : Int) - (d.file f).ref = -1 := by omega
    rw [change_eq] at set
    exact set
  · have released : Describes (modify (·.updateFile f File.release)) d
        fun _ after => after = d.setFile f ⟨0, none⟩ := by
      apply describes_updateFile
      intro _ _
      rfl
    apply Track.bind released
    rintro _ _ rfl
    exact accounted_filerelease accounted handle (by omega)

/-! ## System calls on descriptors -/

theorem describes_argfd (fd : Option Int) : Describes (argfd fd) d fun result after => after = d ∧
    ∀ slot f, result = some (slot, f) → d.ofile d.cur slot = some f := by
  apply Track.get
  rintro kernel rfl
  split
  · exact .pure ⟨rfl, nofun⟩
  · split
    · apply Track.pure
      refine ⟨rfl, fun slot f found => ?_⟩
      obtain ⟨g, open_, same⟩ := Option.map_eq_some_iff.mp found
      cases same
      exact open_
    · exact .pure ⟨rfl, nofun⟩

theorem describes_fdalloc (f : FilePtr) : Describes (fdalloc f) d fun result after =>
    match result with
    | none => after = d
    | some fd => d.ofile d.cur fd = none ∧ after = d.setSlot d.cur fd (some f) := by
  apply Track.get
  intro kernel viewed
  cases found : (List.finRange NOFILE).find? fun fd => kernel.myproc.ofile fd = none with
  | none => exact .pure rfl
  | some fd =>
    have free : kernel.myproc.ofile fd = none := by simpa using List.find?_some found
    have slot_eq : d.ofile d.cur fd = none := by
      rw [← viewed]
      exact free
    apply Track.bind (describes_setSlot fd (some f))
    rintro _ _ rfl
    exact .pure ⟨slot_eq, rfl⟩

/-- The running process is one that may have descriptors. -/
def Running (d : Descriptors) : Prop := d.kind d.cur = .alive

theorem Running.live (running : Running d) : d.kind d.cur ≠ .unused ∧ d.kind d.cur ≠ .zombie := by
  rw [running]
  exact ⟨nofun, nofun⟩

/-- A reference moves from a variable to a free descriptor. -/
theorem Accounted.fill (accounted : Accounted base extra d)
    (live : d.kind p ≠ .unused ∧ d.kind p ≠ .zombie) (free : d.ofile p fd = none) (f : FilePtr) :
    Accounted base (extra + Pi.single f (-1)) (d.setSlot p fd (some f)) := by
  have filled := accounted.setSlot p fd (some f) (.inr live)
  convert filled using 1
  funext g
  rw [free, Pi.add_apply]
  by_cases here : g = f
  · subst here
    simp [points]
    ring
  · have other : f ≠ g := Ne.symm here
    simp [points, here, other]

/-- A reference moves from a descriptor to a variable. -/
theorem Accounted.clear (accounted : Accounted base extra d) (open_ : d.ofile p fd = some f) :
    Accounted base (extra + Pi.single f 1) (d.setSlot p fd none) := by
  have cleared := accounted.setSlot p fd none (.inl rfl)
  convert cleared using 1
  funext g
  rw [open_, Pi.add_apply]
  by_cases here : g = f
  · subst here
    simp [points]
  · have other : f ≠ g := Ne.symm here
    simp [points, here, other]

theorem single_cancel (extra : FilePtr → Int) (f : FilePtr) :
    extra + Pi.single f 1 + Pi.single f (-1) = extra := by
  funext g
  by_cases here : g = f
  · subst here
    simp
  · simp [here]

theorem single_cancel' (extra : FilePtr → Int) (f : FilePtr) :
    extra + Pi.single f (-1) + Pi.single f 1 = extra := by
  funext g
  by_cases here : g = f
  · subst here
    simp
  · simp [here]

/-- What a completed call leaves behind. -/
abbrev Settled (base : Nat → Int) (d : Descriptors) : Prop := Accounted base 0 d

/-- A descriptor is a reference. -/
theorem Accounted.used_of_slot (accounted : Accounted base extra d) (open_ : d.ofile p fd = some f)
    (none : extra f = 0) : 0 < (d.file f).ref := by
  have counted := accounted.counted f
  have some := holders_pos open_
  omega

/-- One more reference to a file that has one. -/
theorem Accounted.dup (accounted : Accounted base extra d) (f : FilePtr) :
    Accounted base (extra + Pi.single f 1)
      (d.setFile f ⟨(d.file f).ref + 1, (d.file f).pipe⟩) := by
  have raised := accounted.setFile f ⟨(d.file f).ref + 1, (d.file f).pipe⟩ rfl nofun
  have change_eq : (((d.file f).ref + 1 : Nat) : Int) - (d.file f).ref = 1 := by omega
  rw [change_eq] at raised
  exact raised

/-- The first reference to a free file. -/
theorem Accounted.alloc (accounted : Accounted base extra d) (free : (d.file f).ref = 0) :
    Accounted base (extra + Pi.single f 1) (d.setFile f ⟨1, none⟩) := by
  have taken := accounted.setFile f ⟨1, none⟩ (accounted.unused f free).symm nofun
  rw [free] at taken
  exact taken

theorem accounted_sysDup (settled : Settled base d) (running : Running d) (fd : Option Int) :
    Describes (sysDup fd) d fun _ after => Settled base after := by
  apply Track.bind (describes_argfd fd)
  rintro found middle ⟨same, open_⟩
  subst same
  match found with
  | none => exact .pure settled
  | some (slot, f) =>
    have used := settled.used_of_slot (open_ slot f rfl) rfl
    apply Track.bind (describes_fdalloc f)
    intro result after allocated
    match result with
    | none =>
      subst allocated
      exact .pure settled
    | some fd =>
      obtain ⟨free, rfl⟩ := allocated
      have filled := settled.fill running.live free f
      have used' : 0 < ((middle.setSlot middle.cur fd (some f)).file f).ref := used
      apply Track.bind (describes_filedup used')
      rintro _ _ ⟨_, rfl⟩
      apply Track.pure
      have raised := filled.dup f
      rw [single_cancel'] at raised
      exact raised

theorem accounted_sysClose (settled : Settled base d) (fd : Option Int) :
    Describes (sysClose fd) d fun _ after => Settled base after := by
  apply Track.bind (describes_argfd fd)
  rintro found _ ⟨rfl, open_⟩
  match found with
  | none => exact .pure settled
  | some (slot, f) =>
    have used := settled.used_of_slot (open_ slot f rfl) rfl
    have cleared := settled.clear (open_ slot f rfl)
    apply Track.bind (describes_setSlot slot none)
    rintro _ _ rfl
    apply Track.bind (accounted_fileclose cleared used)
    rintro _ _ ⟨closed, _⟩
    apply Track.pure
    rw [single_cancel] at closed
    exact closed

end Xv6.Files
