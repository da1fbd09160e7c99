import Xv6.Resource.Calls

/-!
# What `fork`, `exit` and `wait` do to the ledger

A new process accounts for the reference to its current directory, and an
exiting one gives its reference back. None of the three assigns to the identity
of any process, and only `fork` and `exit` change who is alive.
-/

namespace Xv6.Resource

variable {hang : Bool} {ledger after : Ledger}

/-- The slot that `allocproc` takes. -/
def firstUnused (ptable : ProcPtr → Proc) : Option ProcPtr :=
  (List.finRange NPROC).find? fun p => (ptable p).state = .unused

theorem state_firstUnused {ptable : ProcPtr → Proc} {np : ProcPtr}
    (first : firstUnused ptable = some np) : (ptable np).state = .unused := by
  simpa using List.find?_some first

/-- Nobody is born and nobody dies. -/
def SameLive (before after : Ledger) : Prop :=
  ∀ p, (after.ptable p).Live ↔ (before.ptable p).Live

theorem SameLive.refl (ledger : Ledger) : SameLive ledger ledger := fun _ => Iff.rfl

theorem SameLive.trans {before middle after : Ledger} (first : SameLive before middle)
    (second : SameLive middle after) : SameLive before after :=
  fun p => (second p).trans (first p)

/-- Overwriting a dead process by a dead one. -/
theorem dead_setProc {p : ProcPtr} {proc : Proc}
    (identity : proc.toCredentials = (ledger.ptable p).toCredentials)
    (dead : ¬(ledger.ptable p).Live) (stillDead : ¬proc.Live) :
    Kept ledger (ledger.setProc p proc) ∧ SameLive ledger (ledger.setProc p proc) := by
  refine ⟨kept_setProc identity (by simp [liveCwd, dead, stillDead]), fun p' => ?_⟩
  by_cases same : p' = p
  · subst same
    rw [ptable_setProc_self]
    exact iff_of_false stillDead dead
  · rw [ptable_setProc_of_ne proc same]

/-! ## Fork -/

theorem tracks_nextpid (ledger : Ledger) :
    Tracks hang (modify fun kernel => { kernel with nextpid := kernel.nextpid + 1 }) ledger
      fun _ after => after = ledger :=
  .modify fun _ viewed => viewed

theorem tracks_allocproc (kstack : Bool) :
    Tracks hang (allocproc kstack) ledger fun found after =>
      Kept ledger after ∧ SameLive ledger after ∧
        found = if kstack then firstUnused ledger.ptable else none := by
  refine .get fun kernel viewed => ?_
  have ptable_eq : kernel.ptable = ledger.ptable := congrArg Ledger.ptable viewed
  rw [ptable_eq]
  split
  · rename_i found
    have full : firstUnused ledger.ptable = none := found
    refine .pure ⟨.refl _, SameLive.refl _, ?_⟩
    rw [full, ite_self]
  · rename_i np found
    have first : firstUnused ledger.ptable = some np := found
    have dead : ¬(ledger.ptable np).Live := fun live => live.1 (state_firstUnused first)
    refine .bind (tracks_updateProc np _) fun _ taken updated => ?_
    have reserved : Kept ledger taken ∧ SameLive ledger taken := by
      rw [updated]
      exact dead_setProc rfl dead fun live => live.2.1 rfl
    refine .bind (tracks_nextpid taken) fun _ taken' same => ?_
    subst same
    refine .ite (fun available => .pure ?_) fun missing => ?_
    · exact ⟨reserved.1, reserved.2, by rw [if_pos available, first]⟩
    · refine .bind (tracks_updateProc np _) fun _ after returned => .pure ?_
      have stillDead : ¬(taken'.ptable np).Live := fun live => dead ((reserved.2 np).mp live)
      have released : Kept taken' after ∧ SameLive taken' after := by
        rw [returned]
        exact dead_setProc rfl stillDead fun live => live.1 rfl
      exact ⟨reserved.1.trans released.1, reserved.2.trans released.2, by rw [if_neg missing]⟩

theorem tracks_forkFile (np : ProcPtr) (fd : Fin NOFILE) :
    Tracks hang (forkFile np fd) ledger fun _ after => Calm ledger after := by
  refine .get fun kernel _ => ?_
  split
  · exact .pure (.refl _)
  · refine .bind (tracks_filedup _) fun f after duplicated => ?_
    obtain ⟨_, rfl, same⟩ := duplicated
    refine .mono (tracks_updateProc np _) fun _ final updated => ?_
    rw [updated]
    exact (calm_setFile same).trans (calm_setProc ⟨rfl, rfl, rfl, Iff.rfl⟩)

theorem tracks_adopt (np : ProcPtr) :
    Tracks hang (modify fun kernel => kernel.updateProc np fun proc =>
      { proc with parent := some kernel.cur }) ledger fun _ after => Calm ledger after := by
  refine .modify fun kernel viewed => ?_
  subst viewed
  exact calm_setProc ⟨rfl, rfl, rfl, Iff.rfl⟩

/-- A process comes to life with the current directory it took a reference to. -/
theorem kept_birth {np : ProcPtr} {proc : Proc} {cwd : InodePtr}
    (identity : proc.toCredentials = (ledger.ptable np).toCredentials)
    (dead : ¬(ledger.ptable np).Live) (live : proc.Live) (cwd_eq : proc.cwd = some cwd) :
    Kept ledger ((ledger.take cwd).setProc np proc) := by
  have none_held : liveCwd ((ledger.take cwd).ptable np) = none := by
    change liveCwd (ledger.ptable np) = none
    simp [liveCwd, dead]
  have one_held : liveCwd proc = some cwd := by simp [liveCwd, live, cwd_eq]
  refine ⟨rfl, ?_, rfl, rfl, rfl, rfl, fun p => ?_⟩
  · rw [extra_setProc, extra_take, none_held, one_held]
    simp [heldBy]
  · by_cases same : p = np
    · subst same
      rw [ptable_setProc_self]
      exact identity
    · rw [ptable_setProc_of_ne proc same]
      rfl

/-- `fork` creates one process, in the first unused slot, if there is one and
memory suffices, and it assigns nobody's identity. -/
theorem tracks_fork (kstack copied : Bool) :
    Tracks hang (fork kstack copied) ledger fun _ after =>
      Kept ledger after ∧ ∀ p, (after.ptable p).Live ↔ (ledger.ptable p).Live ∨
        (kstack = true ∧ copied = true ∧ firstUnused ledger.ptable = some p) := by
  refine .bind (tracks_allocproc kstack) fun found taken allocated => ?_
  obtain ⟨kept, sameLive, first⟩ := allocated
  cases found with
  | none =>
    refine .pure ⟨kept, fun p => (sameLive p).trans ?_⟩
    have noSlot : ¬(kstack = true ∧ copied = true ∧ firstUnused ledger.ptable = some p) := by
      rintro ⟨available, _, slot⟩
      rw [if_pos available, slot] at first
      cases first
    simp only [noSlot, or_false]
  | some np =>
    have available : kstack = true := by
      by_contra missing
      rw [if_neg missing] at first
      cases first
    rw [if_pos available] at first
    have deadBefore : ¬(ledger.ptable np).Live :=
      fun live => live.1 (state_firstUnused first.symm)
    have dead : ¬(taken.ptable np).Live := fun live => deadBefore ((sameLive np).mp live)
    refine .ite (fun hasCopy => ?_) fun noCopy => ?_
    · refine .bind (tracks_adopt np) fun _ adopted calm => ?_
      refine .bind (.forM (fun _ current => Calm taken current)
        (fun fd _ current calm => (tracks_forkFile np fd).mono fun _ _ next => calm.trans next)
        _ calm) fun _ shared calm => .get fun kernel _ => ?_
      split
      · exact .throw trivial
      · rename_i cwd _
        refine .bind (tracks_idup cwd) fun _ counted duplicated => ?_
        obtain ⟨rfl, rfl⟩ := duplicated
        refine .bind (tracks_updateProc np _) fun _ seated updated => ?_
        subst updated
        refine .bind (tracks_updateProc np _) fun _ born updated => ?_
        refine .get fun kernel _ => .pure ?_
        have dead' : ¬(shared.ptable np).Live := fun live => dead ((calm.unmoved np).live.mp live)
        rw [updated, ptable_setProc_self, setProc_setProc]
        refine ⟨kept.trans (calm.toKept.trans (kept_birth rfl dead' (by simp [Proc.Live]) rfl)),
          fun p => ?_⟩
        by_cases same : p = np
        · subst same
          rw [ptable_setProc_self]
          simp [Proc.Live, available, hasCopy, ← first]
        · rw [ptable_setProc_of_ne _ same]
          change (shared.ptable p).Live ↔ _
          rw [(calm.unmoved p).live, sameLive p, ← first]
          simp [Ne.symm same]
    · refine .bind (tracks_updateProc np _) fun _ after returned => .pure ?_
      have released : Kept taken after ∧ SameLive taken after := by
        rw [returned]
        exact dead_setProc rfl dead fun live => live.1 rfl
      refine ⟨kept.trans released.1, fun p => (sameLive.trans released.2 p).trans ?_⟩
      simp [noCopy]

/-! ## Exit and wait -/

theorem tracks_exitFile (outside : ledger.phase.Idle)
    (free : hang = true ∨ ∀ ip, ledger.Free ip) (fd : Fin NOFILE) :
    Tracks hang (exitFile fd) ledger fun _ after => Calm ledger after := by
  refine .get fun kernel _ => ?_
  split
  · exact .pure (.refl _)
  · refine .bind (tracks_fileclose outside free _) fun _ closed calm => ?_
    refine .mono (tracks_writeMyproc _) fun _ after updated => ?_
    rw [updated]
    exact calm.trans (calm_setOfile _)

theorem tracks_exitChild (p : ProcPtr) :
    Tracks hang (exitChild p) ledger fun _ after => Calm ledger after := by
  refine .get fun kernel _ => .when (fun _ => .refl _) fun _ => ?_
  refine .bind (tracks_updateProc p _) fun _ adopted updated => ?_
  have calm : Calm ledger adopted := by
    rw [updated]
    exact calm_setProc ⟨rfl, rfl, rfl, Iff.rfl⟩
  refine .when (fun _ => calm) fun _ => ?_
  refine .mono (tracks_wakeup _) fun _ after woken => ?_
  rw [woken]
  exact calm.trans (calm_wake _)

theorem tracks_wakeParent : Tracks hang wakeParent ledger fun _ after => Calm ledger after := by
  refine .get fun kernel _ => ?_
  split
  · exact .pure (.refl _)
  · refine .mono (tracks_wakeup _) fun _ after woken => ?_
    rw [woken]
    exact calm_wake _

/-- The exiting process gives its current directory back. -/
theorem kept_leave {p : ProcPtr} {proc : Proc} {cwd : InodePtr}
    (identity : proc.toCredentials = (ledger.ptable p).toCredentials)
    (live : (ledger.ptable p).Live) (cwd_eq : (ledger.ptable p).cwd = some cwd)
    (gone : proc.cwd = none) : Kept ledger ((ledger.drop cwd).setProc p proc) := by
  have one_held : liveCwd ((ledger.drop cwd).ptable p) = some cwd := by
    change liveCwd (ledger.ptable p) = some cwd
    simp [liveCwd, live, cwd_eq]
  have none_held : liveCwd proc = none := by simp [liveCwd, gone]
  refine ⟨rfl, ?_, rfl, rfl, rfl, rfl, fun p' => ?_⟩
  · rw [extra_setProc, extra_drop, one_held, none_held]
    simp [heldBy]
  · by_cases same : p' = p
    · subst same
      rw [ptable_setProc_self]
      exact identity
    · rw [ptable_setProc_of_ne proc same]
      rfl

/-- The part of `exit` after the current directory is gone. -/
theorem tracks_exitTail (gone : ledger.me.cwd = none) :
    Tracks hang (do
      wakeParent
      forM (List.finRange NPROC) exitChild
      writeMyproc fun proc => { proc with state := .zombie }) ledger fun _ after =>
      Kept ledger after ∧
        ∀ p, (after.ptable p).Live ↔ (ledger.ptable p).Live ∧ p ≠ ledger.cur := by
  refine .bind tracks_wakeParent fun _ woken calm => ?_
  refine .bind (.forM (fun _ current => Calm ledger current)
    (fun p _ current calm => (tracks_exitChild p).mono fun _ _ next => calm.trans next) _ calm)
    fun _ orphaned calm => ?_
  refine .mono (tracks_writeMyproc _) fun _ after updated => ?_
  have gone' : orphaned.me.cwd = none := by
    change (orphaned.ptable orphaned.cur).cwd = none
    rw [calm.cur, (calm.unmoved ledger.cur).cwd]
    exact gone
  rw [updated]
  refine ⟨calm.toKept.trans (kept_setProc rfl ?_), fun p => ?_⟩
  · change _ = liveCwd orphaned.me
    simp [liveCwd, gone']
  · by_cases same : p = orphaned.cur
    · subst same
      rw [ptable_setProc_self, calm.cur]
      simp [Proc.Live]
    · rw [ptable_setProc_of_ne _ same, (calm.unmoved p).live, ← calm.cur]
      simp [same]

/-- `exit` ends the calling process and nobody else. -/
theorem tracks_exit (outside : ledger.phase.Idle)
    (free : hang = true ∨ ∀ ip, ledger.Free ip) (live : ledger.me.Live) :
    Tracks hang exit ledger fun _ after =>
      Kept ledger after ∧
        ∀ p, (after.ptable p).Live ↔ (ledger.ptable p).Live ∧ p ≠ ledger.cur := by
  refine .get fun kernel _ => .ite (fun _ => .throw trivial) fun _ => ?_
  have close : ∀ fd (_ : List (Fin NOFILE)) current, Calm ledger current →
      Tracks hang (exitFile fd) current fun _ after => Calm ledger after := by
    intro fd _ current calm
    refine (tracks_exitFile (calm.idle outside) ?_ fd).mono fun _ _ next => calm.trans next
    exact free.imp id fun free ip => calm.free (free ip)
  refine .bind (.forM (fun _ current => Calm ledger current) close _ (.refl ledger))
    fun _ closed calm => ?_
  have outside' : closed.phase.Idle := calm.idle outside
  refine .bind tracks_beginOp fun _ begun begun_eq => .get fun kernel viewed => ?_
  have cwd_eq : kernel.myproc.cwd = closed.me.cwd := by
    have me_eq : kernel.ledger.me = closed.me := by
      rw [viewed, begun_eq]
      rfl
    exact congrArg Proc.cwd me_eq
  subst begun_eq
  split
  · exact .throw trivial
  · rename_i cwd found
    have free' : hang = true ∨ closed.begin_.Free cwd :=
      free.imp id fun free => calm.free (free cwd)
    refine .bind (tracks_iput (begin_inside outside') free') fun _ after put => ?_
    have put_eq : after = (closed.drop cwd).begin_ := put.2
    subst put_eq
    refine .bind tracks_endOp fun _ after ended => ?_
    have ended_eq : after = closed.drop cwd := ended.trans (end_begin_ outside')
    subst ended_eq
    refine .bind (tracks_writeMyproc _) fun _ left updated => ?_
    have liveClosed : closed.me.Live := by
      change (closed.ptable closed.cur).Live
      rw [calm.cur]
      exact (calm.unmoved ledger.cur).live.mpr live
    have leaving : Kept closed left := by
      rw [updated]
      exact kept_leave rfl liveClosed (cwd_eq.symm.trans found) rfl
    have seat : left.me = { closed.me with cwd := none } := by
      rw [updated]
      exact ptable_setProc_self _ _
    refine .mono (tracks_exitTail (congrArg Proc.cwd seat)) fun _ after left_kept => ?_
    refine ⟨calm.toKept.trans (leaving.trans left_kept.1), fun p => ?_⟩
    rw [left_kept.2 p, leaving.cur, calm.cur, ← (calm.unmoved p).live]
    by_cases same : p = closed.cur
    · simp [same, calm.cur]
    · rw [updated, ptable_setProc_of_ne _ (by exact same)]
      rfl

/-- `wait` frees the slot of a dead process. -/
theorem tracks_wait :
    Tracks hang wait ledger fun _ after => Kept ledger after ∧ SameLive ledger after := by
  refine .get fun kernel viewed => ?_
  split
  · rename_i p found
    have zombie : (ledger.ptable p).state = .zombie := by
      have both : (kernel.ptable p).parent = some kernel.cur ∧
          (kernel.ptable p).state = .zombie := by simpa using List.find?_some found
      rw [← viewed]
      exact both.2
    refine .bind (tracks_updateProc p _) fun _ after reaped => .pure ?_
    rw [reaped]
    exact dead_setProc rfl (fun live => live.2.2 zombie) fun live => live.1 rfl
  · exact .ite (fun _ => .pure ⟨.refl _, SameLive.refl _⟩) fun _ => .throw trivial

end Xv6.Resource
