import Xv6.Kernel.Ide
import Xv6.Semantics.Transition

/-!
# Requests to the disk

A request is appended to the queue by a process in `iderw` and taken off it by the interrupt
handler. The disk is started by the process if the queue was empty, and else by the handler when it
is done with the request before. Whoever holds `idelock` decides; so the disk works on the
first request of the queue, and it is idle only if there is none, or if the holder of the
lock has yet to start it.
-/

namespace Xv6

open Function Option

variable {Process Data : Type} {ide : Ide Process Data} {point : IdePoint}

namespace Ide

/-! ## What a step can do -/

section Steps

variable [DecidableEq Process]

/-- The steps of a process in `iderw`. -/
inductive Ran (ide : Ide Process Data) (p : Process) : Ide Process Data → Prop where
  | acquire {b} (here : ide.point p = .acquiring b) (free : ide.lock = none) :
      Ran ide p ({ ide with lock := some (.process p) }.goto p (.appending b))
  | append {b} (here : ide.point p = .appending b) :
      Ran ide p ({ ide with queue := ide.queue ++ [b], arrived := ide.arrived ++ [b] }.goto p (.starting b))
  | start {b} (here : ide.point p = .starting b) (first : ide.queue.head? = some b) :
      Ran ide p ({ ide with
        drive := .busy (ide.buf b).command, started := ide.started ++ [b] }.goto p (.waiting b))
  | panic {b} (here : ide.point p = .starting b) : Ran ide p { ide with panicked := true }
  | queued {b} (here : ide.point p = .starting b) (behind : ide.queue.head? ≠ some b) :
      Ran ide p (ide.goto p (.waiting b))
  | done {b} (here : ide.point p = .waiting b) (done : (ide.buf b).done = true) :
      Ran ide p (ide.goto p (.releasing b))
  | doze {b} (here : ide.point p = .waiting b) (undone : (ide.buf b).done = false) :
      Ran ide p (ide.goto p (.dozing b))
  | sleep {b} (here : ide.point p = .dozing b) (free : ide.ptable = none) :
      Ran ide p ({ ide with ptable := some p, lock := none }.goto p (.falling b))
  | fall {b} (here : ide.point p = .falling b) :
      Ran ide p ({ ide with ptable := none }.goto p (.asleep b))
  | wake {b} (here : ide.point p = .waking b) (free : ide.lock = none) :
      Ran ide p ({ ide with lock := some (.process p) }.goto p (.waiting b))
  | release {b} (here : ide.point p = .releasing b) :
      Ran ide p ({ ide with lock := none }.goto p .outside)

theorem Ran.of_run {next : Ide Process Data} {p : Process} (stepped : ide.run p = some next) :
    Ran ide p next := by
  unfold run at stepped
  split at stepped
  · cases stepped
  · rename_i b here
    split at stepped
    · rename_i free
      cases stepped
      exact .acquire here (isNone_iff_eq_none.mp free)
    · cases stepped
  · rename_i b here
    cases stepped
    exact .append here
  · rename_i b here
    cases stepped
    split
    · rename_i first
      unfold idestart
      split
      · exact .panic here
      · exact .start here first
    · rename_i behind
      exact .queued here behind
  · rename_i b here
    cases stepped
    split
    · rename_i done
      exact .done here done
    · rename_i undone
      exact .doze here (Bool.eq_false_of_not_eq_true undone)
  · rename_i b here
    split at stepped
    · rename_i free
      cases stepped
      exact .sleep here (isNone_iff_eq_none.mp free)
    · cases stepped
  · rename_i b here
    cases stepped
    exact .fall here
  · cases stepped
  · rename_i b here
    split at stepped
    · rename_i free
      cases stepped
      exact .wake here (isNone_iff_eq_none.mp free)
    · cases stepped
  · rename_i b here
    cases stepped
    exact .release here

end Steps

/-- The steps of the interrupt handler. -/
inductive Handled (ide : Ide Process Data) : Ide Process Data → Prop where
  | acquire (here : ide.intr = .acquiring) (free : ide.lock = none) :
      Handled ide { ide with lock := some .handler, intr := .popping }
  | nothing (here : ide.intr = .popping) (empty : ide.queue = []) : Handled ide { ide with intr := .releasing }
  | pop {b rest} (here : ide.intr = .popping) (queue : ide.queue = b :: rest) :
      Handled ide { ide with queue := rest, intr := .reading b }
  | read {b} (here : ide.intr = .reading b) (data : Data)
      (value : ∀ command sector, ide.drive = .finished command sector →
        data = if (ide.buf b).dirty then (ide.buf b).data else sector) :
      Handled ide { ide.setBuf b { ide.buf b with data := data } with drive := .idle, intr := .marking b }
  | mark {b} (here : ide.intr = .marking b) :
      Handled ide { ide.setBuf b { ide.buf b with valid := true, dirty := false } with
        intr := .waking b, completed := ide.completed ++ [b] }
  | wake {b} (here : ide.intr = .waking b) (free : ide.ptable = none) :
      Handled ide { ide.wakeup b with intr := .starting }
  | last (here : ide.intr = .starting) (empty : ide.queue = []) : Handled ide { ide with intr := .releasing }
  | start {b rest} (here : ide.intr = .starting) (queue : ide.queue = b :: rest) :
      Handled ide { ide with
        drive := .busy (ide.buf b).command, started := ide.started ++ [b], intr := .releasing }
  | panic (here : ide.intr = .starting) : Handled ide { ide with panicked := true }
  | release (here : ide.intr = .releasing) : Handled ide { ide with lock := none, intr := .idle }

theorem Handled.of_handle {next : Ide Process Data} (stepped : ide.handle = some next) :
    Handled ide next := by
  unfold handle at stepped
  split at stepped
  · cases stepped
  · rename_i here
    split at stepped
    · rename_i free
      cases stepped
      exact .acquire here (isNone_iff_eq_none.mp free)
    · cases stepped
  · rename_i here
    split at stepped
    · rename_i empty
      cases stepped
      exact .nothing here empty
    · rename_i queue
      cases stepped
      exact .pop here queue
  · rename_i here
    cases stepped
    refine .read here _ fun command sector finished => ?_
    rw [finished]
  · rename_i here
    cases stepped
    exact .mark here
  · rename_i here
    split at stepped
    · rename_i free
      cases stepped
      exact .wake here (isNone_iff_eq_none.mp free)
    · cases stepped
  · rename_i here
    split at stepped
    · rename_i empty
      cases stepped
      exact .last here empty
    · rename_i queue
      cases stepped
      unfold idestart
      split
      · exact .panic here
      · exact .start here queue
  · rename_i here
    cases stepped
    exact .release here

section Steps

variable [DecidableEq Process]

/-- All steps. -/
inductive Moved (ide : Ide Process Data) : Ide Process Data → Prop where
  | modify (b : BufPtr) (buf : Buf Process Data) (unused : ∀ q, (ide.point q).buffer ≠ some b) :
      Moved ide (ide.setBuf b buf)
  | call {p b} (here : ide.point p = .outside) (locked : (ide.buf b).lock = some p)
      (undone : (ide.buf b).done = false)
      (apart : ∀ q c, (ide.point q).buffer = some c → c ≠ b → (ide.buf c).place ≠ (ide.buf b).place) :
      Moved ide (ide.goto p (.acquiring b))
  | panic : Moved ide { ide with panicked := true }
  | run {p next} (ran : Ran ide p next) : Moved ide next
  | rouse {p b} (here : ide.point p = .asleep b) : Moved ide (ide.goto p (.waking b))
  | nothing : Moved ide ide
  | read {place} (busy : ide.drive = .busy (.read place)) :
      Moved ide { ide with drive := .finished (.read place) (ide.disk place), irq := true }
  | write {place data} (busy : ide.drive = .busy (.write place data)) :
      Moved ide { ide with
        disk := Function.update ide.disk place data
        drive := .finished (.write place data) data
        irq := true }
  | interrupt (raised : ide.irq = true) (here : ide.intr = .idle) :
      Moved ide { ide with irq := false, intr := .acquiring }
  | handle {next} (handled : Handled ide next) : Moved ide next

theorem Moved.of_step {havedisk1 : Bool} {next : Ide Process Data} {action : IdeAction Process Data}
    (allowed : ide.Allowed action) (stepped : ide.step havedisk1 action = some next) :
    Moved ide next := by
  unfold step at stepped
  split at stepped
  · cases stepped
  · cases action with
    | modify b buf =>
      cases stepped
      exact .modify b buf allowed
    | call p b =>
      dsimp only at stepped
      split at stepped
      · rename_i here
        cases stepped
        unfold Ide.call
        split
        · exact .panic
        · rename_i fine
          rw [not_or, not_or, not_not] at fine
          exact .call here fine.1 (Bool.eq_false_of_not_eq_true fine.2.1) allowed
      · cases stepped
    | run p => exact .run (Ran.of_run stepped)
    | kill p =>
      dsimp only [kill] at stepped
      split at stepped
      · split at stepped
        · rename_i b here
          cases stepped
          exact .rouse here
        · cases stepped
          exact .nothing
      · cases stepped
    | finish =>
      dsimp only [finish] at stepped
      split at stepped
      · rename_i busy
        cases stepped
        exact .read busy
      · rename_i busy
        cases stepped
        exact .write busy
      · cases stepped
    | interrupt =>
      dsimp only at stepped
      split at stepped
      · rename_i ready
        cases stepped
        exact .interrupt ready.1 ready.2
      · cases stepped
    | handle => exact .handle (Handled.of_handle stepped)

end Steps

/-! ## Who is woken -/

/-- What does not tell a sleeping process from a woken one is as before. -/
theorem wakeup_observe {Value : Type} {observe : IdePoint → Value}
    (same : ∀ c, observe (.waking c) = observe (.asleep c)) (ide : Ide Process Data) (b : BufPtr)
    (q : Process) : observe ((ide.wakeup b).point q) = observe (ide.point q) := by
  simp only [wakeup]
  split
  · rename_i asleep
    split <;> simp [asleep, same]
  · rfl

@[simp] theorem wakeup_buffer (ide : Ide Process Data) (b : BufPtr) (q : Process) :
    ((ide.wakeup b).point q).buffer = (ide.point q).buffer :=
  wakeup_observe (fun _ => rfl) ide b q

@[simp] theorem wakeup_appended (ide : Ide Process Data) (b : BufPtr) (q : Process) :
    ((ide.wakeup b).point q).appended = (ide.point q).appended :=
  wakeup_observe (fun _ => rfl) ide b q

@[simp] theorem wakeup_holds (ide : Ide Process Data) (b : BufPtr) (q : Process) :
    ((ide.wakeup b).point q).holds = (ide.point q).holds :=
  wakeup_observe (fun _ => rfl) ide b q

@[simp] theorem wakeup_falls (ide : Ide Process Data) (b : BufPtr) (q : Process) :
    ((ide.wakeup b).point q).falls = (ide.point q).falls :=
  wakeup_observe (fun _ => rfl) ide b q

/-- A process that is not woken up stands where it stood. -/
theorem wakeup_point {b : BufPtr} {q : Process} (there : (ide.wakeup b).point q = point)
    (elsewhere : point ≠ .waking b) : ide.point q = point := by
  simp only [wakeup] at there
  split at there
  · split at there
    · rename_i same
      exact absurd (same ▸ there.symm) elsewhere
    · rename_i asleep _
      exact asleep.trans there
  · exact there

/-! ## Locks and buffers -/

/-- The locks are held where they should be, and each process in `iderw` has a buffer and a block of
its own. -/
structure Locks (ide : Ide Process Data) : Prop where
  locked : ∀ p b, (ide.point p).buffer = some b → (ide.buf b).lock = some p
  apart : ∀ p q b c, (ide.point p).buffer = some b → (ide.point q).buffer = some c → b ≠ c →
    (ide.buf b).place ≠ (ide.buf c).place
  holder : ∀ p, (ide.point p).holds = true ↔ ide.lock = some (.process p)
  handler : ide.intr.holds = true ↔ ide.lock = some .handler
  falling : ∀ p, (ide.point p).falls = true ↔ ide.ptable = some p

variable {ide next : Ide Process Data} {p : Process}

/-- Two that hold `idelock` are one. -/
theorem Locks.holder_unique (locks : Locks ide) {q : Process} (held : (ide.point p).holds = true)
    (held' : (ide.point q).holds = true) : q = p := by
  have same := ((locks.holder q).mp held').symm.trans ((locks.holder p).mp held)
  exact IdeHolder.process.inj (Option.some.inj same)

theorem Locks.not_handler (locks : Locks ide) (held : (ide.point p).holds = true) :
    ide.intr.holds = false := by
  by_contra both
  have same := (locks.handler.mp (Bool.eq_true_of_not_eq_false both)).symm.trans ((locks.holder p).mp held)
  cases same

/-- No process has a new buffer, and the buffers of the calls keep their locks and blocks. -/
theorem Locks.frame (locks : Locks ide)
    (buffer : ∀ q b, (next.point q).buffer = some b → (ide.point q).buffer = some b)
    (kept : ∀ q b, (ide.point q).buffer = some b →
      (next.buf b).lock = (ide.buf b).lock ∧ (next.buf b).place = (ide.buf b).place)
    (holder : ∀ q, (next.point q).holds = true ↔ next.lock = some (.process q))
    (handler : next.intr.holds = true ↔ next.lock = some .handler)
    (falling : ∀ q, (next.point q).falls = true ↔ next.ptable = some q) : Locks next where
  locked := by
    intro q b called
    have before := buffer q b called
    rw [(kept q b before).1]
    exact locks.locked q b before
  apart := by
    intro q r b c called called'
    have before := buffer q b called
    have before' := buffer r c called'
    rw [(kept q b before).2, (kept r c before').2]
    exact locks.apart q r b c before before'
  holder := holder
  handler := handler
  falling := falling

theorem Locks.handled (locks : Locks ide) (handled : Handled ide next) : Locks next := by
  have holder := locks.holder
  have handler := locks.handler
  have falling := locks.falling
  cases handled with
  | read _ _ _ | mark _ =>
    refine locks.frame (fun _ _ called => called) (fun _ c _ => ?_) holder ?_ falling
    · simp only [setBuf, update_apply]
      split
      · rename_i same
        exact same ▸ ⟨rfl, rfl⟩
      · exact ⟨rfl, rfl⟩
    · grind [IntrPoint.holds, setBuf]
  | wake _ _ =>
    refine locks.frame (fun q b called => ?_) (fun _ _ _ => ⟨rfl, rfl⟩) (fun q => ?_) ?_ fun q => ?_
    · simpa using called
    · simp only [wakeup_holds]
      exact holder q
    · grind [IntrPoint.holds, wakeup]
    · simp only [wakeup_falls]
      exact falling q
  | _ =>
    refine locks.frame (fun _ _ called => called) (fun _ _ _ => ⟨rfl, rfl⟩) ?_ ?_ falling <;>
      grind [IntrPoint.holds]

section

variable [DecidableEq Process]

/-- A process goes to another point of its call. -/
theorem Locks.move (locks : Locks ide) (buf : next.buf = ide.buf) (intr : next.intr = ide.intr)
    (points : next.point = update ide.point p point)
    (buffer : ∀ b, point.buffer = some b → (ide.point p).buffer = some b)
    (self : point.holds = true ↔ next.lock = some (.process p))
    (others : ∀ h, h ≠ .process p → (ide.lock = some h ↔ next.lock = some h))
    (falls : point.falls = true ↔ next.ptable = some p)
    (held : ∀ q, q ≠ p → (ide.ptable = some q ↔ next.ptable = some q)) : Locks next := by
  refine locks.frame ?_ (fun q b _ => by rw [buf]; exact ⟨rfl, rfl⟩) ?_ ?_ ?_
  · rw [points]
    exact (forall_update_iff _ fun q (point : IdePoint) =>
      ∀ b, point.buffer = some b → (ide.point q).buffer = some b).mpr ⟨buffer, fun _ _ _ called => called⟩
  · rw [points]
    refine (forall_update_iff _ fun q (point : IdePoint) =>
      point.holds = true ↔ next.lock = some (.process q)).mpr ⟨self, fun q other => ?_⟩
    rw [locks.holder q]
    exact others _ fun same => other (IdeHolder.process.inj same)
  · rw [intr, locks.handler]
    exact others _ nofun
  · rw [points]
    exact (forall_update_iff _ fun q (point : IdePoint) =>
      point.falls = true ↔ next.ptable = some q).mpr
        ⟨falls, fun q other => (locks.falling q).trans (held q other)⟩

theorem Locks.ran (locks : Locks ide) (ran : Ran ide p next) : Locks next := by
  have holder := locks.holder p
  have falling := locks.falling p
  cases ran with
  | panic => exact ⟨locks.locked, locks.apart, locks.holder, locks.handler, locks.falling⟩
  | _ =>
    refine locks.move rfl rfl rfl ?_ ?_ ?_ ?_ ?_ <;> grind [IdePoint.buffer, IdePoint.holds, IdePoint.falls, goto]

theorem Locks.moved (locks : Locks ide) (moved : Moved ide next) : Locks next := by
  cases moved with
  | modify b buf unused =>
    refine locks.frame (fun _ _ called => called) (fun q c called => ?_) locks.holder locks.handler
      locks.falling
    have other : c ≠ b := fun same => unused q (same ▸ called)
    simp only [setBuf, update_of_ne other, and_self]
  | call here lock _ apart =>
    obtain ⟨locked, apart', holder, handler, falling⟩ := locks
    refine ⟨?_, ?_, ?_, handler, ?_⟩ <;> simp only [goto] <;>
      grind [IdePoint.buffer, IdePoint.holds, IdePoint.falls]
  | panic | nothing | read _ | write _ =>
    exact locks.frame (fun _ _ called => called) (fun _ _ _ => ⟨rfl, rfl⟩) locks.holder locks.handler
      locks.falling
  | run ran => exact locks.ran ran
  | rouse here =>
    have holder := locks.holder
    have falling := locks.falling
    refine locks.move rfl rfl rfl ?_ ?_ ?_ ?_ ?_ <;> grind [IdePoint.buffer, IdePoint.holds, IdePoint.falls, goto]
  | interrupt raised here =>
    refine locks.frame (fun _ _ called => called) (fun _ _ _ => ⟨rfl, rfl⟩) locks.holder ?_ locks.falling
    have handler := locks.handler
    grind [IntrPoint.holds]
  | handle handled => exact locks.handled handled

end

/-! ## Requests -/

/-- A buffer whose request is not completed. -/
def Pending (ide : Ide Process Data) (b : BufPtr) : Prop := b ∈ ide.queue ∨ ide.intr.current = some b

/-- The buffer has the contents of its block. -/
def Synced (ide : Ide Process Data) (b : BufPtr) : Prop := ide.disk (ide.buf b).place = (ide.buf b).data

/-- Every pending request belongs to a process in `iderw`, and every process there whose request is
not pending has its buffer filled or written. A process sleeps for a request that is pending, or
that the handler is about to announce. -/
structure Requests (ide : Ide Process Data) : Prop where
  fresh : ∀ p b, ide.point p = .acquiring b ∨ ide.point p = .appending b → (ide.buf b).done = false
  owner : ∀ b, ide.Pending b → ∃ p, (ide.point p).appended = some b
  undone : ∀ b, ide.Pending b → (ide.buf b).done = false
  served : ∀ p b, (ide.point p).appended = some b → ¬ide.Pending b →
    (ide.buf b).done = true ∧ ide.Synced b
  marking : ∀ b, ide.intr = .marking b → ide.Synced b
  nodup : (ide.intr.current.toList ++ ide.queue).Nodup
  dozing : ∀ p b, ide.point p = .dozing b → ide.Pending b
  releasing : ∀ p b, ide.point p = .releasing b → ¬ide.Pending b
  asleep : ∀ p b, ide.point p = .falling b ∨ ide.point p = .asleep b → ide.Pending b ∨ ide.intr = .waking b

theorem buffer_of_appended {b : BufPtr} (appended : point.appended = some b) :
    point.buffer = some b := by
  cases point with
  | outside | acquiring | appending => cases appended
  | starting | waiting | dozing | falling | asleep | waking | releasing => exact appended

/-- A process that is yet to append its buffer has none that is pending. -/
theorem Requests.not_pending (requests : Requests ide) (locks : Locks ide) {b : BufPtr}
    (called : (ide.point p).buffer = some b) (early : (ide.point p).appended = none) : ¬ide.Pending b := by
  intro pending
  obtain ⟨q, appended⟩ := requests.owner b pending
  have lock := (locks.locked q b (buffer_of_appended appended)).symm.trans (locks.locked p b called)
  rw [Option.some.inj lock, early] at appended
  cases appended

/-- The processes stay where they are, and what is pending stays so. -/
theorem Requests.frame (requests : Requests ide) (points : next.point = ide.point)
    (pending : ∀ b, next.Pending b ↔ ide.Pending b)
    (done : ∀ q b, (ide.point q).buffer = some b → (next.buf b).done = (ide.buf b).done)
    (synced : ∀ q b, (ide.point q).appended = some b → ¬ide.Pending b → ide.Synced b → next.Synced b)
    (marking : ∀ b, next.intr = .marking b → next.Synced b)
    (nodup : (next.intr.current.toList ++ next.queue).Nodup)
    (waking : ∀ b, ide.intr = .waking b → next.intr = .waking b) : Requests next := by
  constructor <;> try simp only [pending, points]
  · intro q b early
    rw [done q b (by rcases early with here | here <;> rw [here] <;> rfl)]
    exact requests.fresh q b early
  · exact requests.owner
  · intro b waits
    obtain ⟨q, owner⟩ := requests.owner b waits
    rw [done q b (buffer_of_appended owner)]
    exact requests.undone b waits
  · intro q b appended past
    obtain ⟨marked, same⟩ := requests.served q b appended past
    rw [done q b (buffer_of_appended appended)]
    exact ⟨marked, synced q b appended past same⟩
  · exact marking
  · exact nodup
  · exact requests.dozing
  · exact requests.releasing
  · exact fun q b sleeps => (requests.asleep q b sleeps).imp_right (waking b)

theorem early_buffer {b : BufPtr} (early : point = .acquiring b ∨ point = .appending b) :
    point.buffer = some b ∧ point.appended = none := by
  rcases early with rfl | rfl
  · exact ⟨rfl, rfl⟩
  · exact ⟨rfl, rfl⟩

/-- The handler marks its buffer. -/
theorem Requests.mark (requests : Requests ide) (locks : Locks ide) {b : BufPtr} (here : ide.intr = .marking b)
    (points : next.point = ide.point) (queue : next.queue = ide.queue) (disk : next.disk = ide.disk)
    (intr : next.intr = .waking b) (self : (next.buf b).done = true ∧ next.Synced b)
    (others : ∀ c, c ≠ b → next.buf c = ide.buf c) : Requests next := by
  have current : ide.Pending b := .inr (by rw [here]; rfl)
  have before : ∀ c, ide.Pending c ↔ c ∈ ide.queue ∨ c = b := by
    intro c
    rw [Pending, here]
    exact or_congr_right (some_inj.trans eq_comm)
  have pending : ∀ c, next.Pending c ↔ c ∈ ide.queue := by
    intro c
    rw [Pending, intr, queue]
    exact or_iff_left nofun
  have nodup := requests.nodup
  rw [here] at nodup
  obtain ⟨unqueued, nodup⟩ := List.nodup_cons.mp nodup
  have handling : ide.intr.holds = true := by rw [here]; rfl
  constructor <;> try simp only [pending, points, intr]
  · intro q c early
    obtain ⟨called, unappended⟩ := early_buffer early
    rw [others c fun same => requests.not_pending locks called unappended (same ▸ current)]
    exact requests.fresh q c early
  · exact fun c waits => requests.owner c ((before c).mpr (.inl waits))
  · intro c waits
    rw [others c fun same => unqueued (same ▸ waits)]
    exact requests.undone c ((before c).mpr (.inl waits))
  · intro q c appended past
    by_cases same : c = b
    · exact same ▸ self
    · rw [Synced, others c same, disk]
      exact requests.served q c appended fun waits => ((before c).mp waits).elim past same
  · nofun
  · rwa [queue]
  · intro q c dozes
    have held : (ide.point q).holds = true := by rw [dozes]; rfl
    rw [locks.not_handler held] at handling
    cases handling
  · exact fun q c releases waits => requests.releasing q c releases ((before c).mpr (.inl waits))
  · intro q c sleeps
    rcases requests.asleep q c sleeps with waits | wakes
    · exact ((before c).mp waits).imp_right fun same => congrArg _ same.symm
    · rw [here] at wakes
      cases wakes

/-- The handler wakes the process up. -/
theorem Requests.wake (requests : Requests ide) (locks : Locks ide) {b : BufPtr} (here : ide.intr = .waking b)
    (free : ide.ptable = none) : Requests { ide.wakeup b with intr := .starting } := by
  have pending : ∀ c, ({ ide.wakeup b with intr := .starting } : Ide Process Data).Pending c ↔ ide.Pending c := by
    intro c
    rw [Pending, Pending, here]
    rfl
  constructor <;> try simp only [pending, wakeup_appended]
  · intro q c early
    exact requests.fresh q c (early.imp (wakeup_point · nofun) (wakeup_point · nofun))
  · exact requests.owner
  · exact requests.undone
  · exact requests.served
  · nofun
  · have nodup := requests.nodup
    rwa [here] at nodup
  · exact fun q c dozes => requests.dozing q c (wakeup_point dozes nofun)
  · exact fun q c releases => requests.releasing q c (wakeup_point releases nofun)
  · rintro q c (falls | sleeps)
    · -- whoever falls asleep holds `ptable.lock`
      have held := (locks.falling q).mp (by rw [wakeup_point falls nofun]; rfl)
      rw [free] at held
      cases held
    · have slept := wakeup_point sleeps nofun
      rcases requests.asleep q c (.inr slept) with waits | wakes
      · exact .inl waits
      · cases here.symm.trans wakes
        have woken : (ide.wakeup b).point q = .waking b := by simp [wakeup, slept]
        cases woken.symm.trans sleeps

section

variable [DecidableEq Process]

/-- A process goes to another point of its call, and the queue stays. -/
theorem Requests.move (requests : Requests ide) (buf : next.buf = ide.buf)
    (disk : next.disk = ide.disk) (queue : next.queue = ide.queue) (intr : next.intr = ide.intr)
    (points : next.point = update ide.point p point)
    (fresh : ∀ b, point = .acquiring b ∨ point = .appending b → (ide.buf b).done = false)
    (owns : ∀ b, ide.Pending b → (ide.point p).appended = some b → point.appended = some b)
    (appended : ∀ b, point.appended = some b → (ide.point p).appended = some b)
    (dozing : ∀ b, point = .dozing b → ide.Pending b)
    (releasing : ∀ b, point = .releasing b → ¬ide.Pending b)
    (asleep : ∀ b, point = .falling b ∨ point = .asleep b → ide.Pending b ∨ ide.intr = .waking b) :
    Requests next := by
  have pending : ∀ b, next.Pending b ↔ ide.Pending b := by
    intro b
    rw [Pending, Pending, queue, intr]
  have synced : ∀ b, next.Synced b ↔ ide.Synced b := by
    intro b
    rw [Synced, Synced, disk, buf]
  constructor <;> simp only [pending, synced, buf, intr, points, queue]
  · exact (forall_update_iff _ fun q (point : IdePoint) =>
      ∀ b, point = .acquiring b ∨ point = .appending b → (ide.buf b).done = false).mpr
        ⟨fresh, fun q _ => requests.fresh q⟩
  · intro b waits
    obtain ⟨q, owner⟩ := requests.owner b waits
    refine ⟨q, ?_⟩
    by_cases same : q = p
    · subst same
      rw [update_self]
      exact owns b waits owner
    · rwa [update_of_ne same]
  · exact requests.undone
  · exact (forall_update_iff _ fun q (point : IdePoint) =>
      ∀ b, point.appended = some b → ¬ide.Pending b → (ide.buf b).done = true ∧ ide.Synced b).mpr
        ⟨fun b has => requests.served p b (appended b has), fun q _ => requests.served q⟩
  · exact requests.marking
  · exact requests.nodup
  · exact (forall_update_iff _ fun q (point : IdePoint) =>
      ∀ b, point = .dozing b → ide.Pending b).mpr ⟨dozing, fun q _ => requests.dozing q⟩
  · exact (forall_update_iff _ fun q (point : IdePoint) =>
      ∀ b, point = .releasing b → ¬ide.Pending b).mpr ⟨releasing, fun q _ => requests.releasing q⟩
  · exact (forall_update_iff _ fun q (point : IdePoint) =>
      ∀ b, point = .falling b ∨ point = .asleep b → ide.Pending b ∨ ide.intr = .waking b).mpr
        ⟨asleep, fun q _ => requests.asleep q⟩

/-- The new request is the last in the queue. -/
theorem Requests.append (requests : Requests ide) (locks : Locks ide) {b : BufPtr}
    (here : ide.point p = .appending b) :
    Requests ({ ide with queue := ide.queue ++ [b], arrived := ide.arrived ++ [b] }.goto p (.starting b)) := by
  have called : (ide.point p).buffer = some b := by rw [here]; rfl
  have early : (ide.point p).appended = none := by rw [here]; rfl
  have free := requests.not_pending locks called early
  -- nobody else is in a call with the buffer
  have alone : ∀ q, (ide.point q).buffer = some b → q = p := fun q called' =>
    Option.some.inj ((locks.locked q b called').symm.trans (locks.locked p b called))
  have pending : ∀ c, ({ ide with queue := ide.queue ++ [b], arrived := ide.arrived ++ [b] }.goto p
      (.starting b)).Pending c ↔ ide.Pending c ∨ c = b := by
    intro c
    simp only [Pending, goto, List.mem_append, List.mem_singleton]
    exact or_right_comm
  constructor <;> try simp only [pending]
  · exact (forall_update_iff _ fun q (point : IdePoint) =>
      ∀ b, point = .acquiring b ∨ point = .appending b → (ide.buf b).done = false).mpr
        ⟨fun _ never => never.elim nofun nofun, fun q _ => requests.fresh q⟩
  · rintro c (waits | rfl)
    · obtain ⟨q, owner⟩ := requests.owner c waits
      have other : q ≠ p := by
        rintro rfl
        rw [early] at owner
        cases owner
      exact ⟨q, (congrArg IdePoint.appended (update_of_ne other _ _)).trans owner⟩
    · exact ⟨p, by simp only [goto, update_self, IdePoint.appended]⟩
  · rintro c (waits | rfl)
    · exact requests.undone c waits
    · exact requests.fresh p c (.inr here)
  · refine (forall_update_iff _ fun q (point : IdePoint) => ∀ c, point.appended = some c →
      ¬(ide.Pending c ∨ c = b) → (ide.buf c).done = true ∧ ide.Synced c).mpr ⟨?_, fun q _ c appended done => ?_⟩
    · intro c same done
      exact absurd (.inr (Option.some.inj same).symm) done
    · exact requests.served q c appended fun waits => done (.inl waits)
  · exact requests.marking
  · simp only [goto, ← List.append_assoc]
    refine requests.nodup.append (List.nodup_singleton b) ?_
    rw [List.disjoint_singleton, List.mem_append, mem_toList]
    rintro (current | queued)
    · exact free (.inr current)
    · exact free (.inl queued)
  · exact (forall_update_iff _ fun q (point : IdePoint) =>
      ∀ c, point = .dozing c → ide.Pending c ∨ c = b).mpr
        ⟨nofun, fun q _ c dozes => .inl (requests.dozing q c dozes)⟩
  · refine (forall_update_iff _ fun q (point : IdePoint) =>
      ∀ c, point = .releasing c → ¬(ide.Pending c ∨ c = b)).mpr ⟨nofun, fun q other c releases => ?_⟩
    rintro (waits | rfl)
    · exact requests.releasing q c releases waits
    · exact other (alone q (by rw [releases]; rfl))
  · refine (forall_update_iff _ fun q (point : IdePoint) =>
      ∀ c, point = .falling c ∨ point = .asleep c → (ide.Pending c ∨ c = b) ∨ ide.intr = .waking c).mpr
        ⟨fun _ never => never.elim nofun nofun, fun q _ c sleeps => ?_⟩
    exact (requests.asleep q c sleeps).imp_left .inl

theorem Requests.ran (requests : Requests ide) (locks : Locks ide) (ran : Ran ide p next) : Requests next := by
  have undone := requests.undone
  have served := requests.served p
  cases ran with
  | append here => exact requests.append locks here
  | panic => exact ⟨requests.fresh, requests.owner, undone, requests.served, requests.marking,
      requests.nodup, requests.dozing, requests.releasing, requests.asleep⟩
  | _ =>
    have fresh := requests.fresh p
    have dozing := requests.dozing p
    have releasing := requests.releasing p
    have asleep := requests.asleep p
    refine requests.move rfl rfl rfl rfl rfl ?_ ?_ ?_ ?_ ?_ ?_ <;> grind [IdePoint.appended]

end

end Ide

end Xv6
