import Xv6.Buffers.Requests
import Mathlib.Data.Fintype.Basic

/-!
# The order of requests to the disk

The phases of the disk, and what follows for the requests: the command at the disk is that for the
first buffer of the queue, commands are started and completed in the order in which the
requests arrived, and `iderw` returns with a buffer that agrees with the disk.
-/

namespace Xv6

open Transition Function List Option

variable {Process Data : Type} {command : IdeCommand Data}

namespace Ide

variable {ide next : Ide Process Data} {p : Process}

/-! ## The disk and the queue -/

/-- The command has been carried out. -/
def Transferred (ide : Ide Process Data) : IdeCommand Data → Data → Prop
  | .read place, sector => sector = ide.disk place
  | .write place data, _ => ide.disk place = data

/-- What the disk is doing, and for which request. -/
inductive Driven (ide : Ide Process Data) : Prop where
  /-- There is no request. -/
  | rest (intr : ide.intr = .idle ∨ ide.intr = .releasing) (queue : ide.queue = []) (drive : ide.drive = .idle)
      (irq : ide.irq = false) (started : ide.started = ide.completed)
  /-- A process is about to start the disk. -/
  | owed {p b} (intr : ide.intr = .idle ∨ ide.intr = .releasing) (here : ide.point p = .starting b)
      (queue : ide.queue = [b]) (drive : ide.drive = .idle) (irq : ide.irq = false)
      (started : ide.started = ide.completed)
  /-- The disk is at work on the first request. -/
  | busy {b rest} (intr : ide.intr = .idle ∨ ide.intr = .releasing) (queue : ide.queue = b :: rest)
      (drive : ide.drive = .busy (ide.buf b).command) (irq : ide.irq = false)
      (started : ide.started = ide.completed ++ [b])
  /-- It has finished and raised its interrupt. -/
  | raised {b rest sector} (intr : ide.intr = .idle ∨ ide.intr = .releasing) (queue : ide.queue = b :: rest)
      (drive : ide.drive = .finished (ide.buf b).command sector)
      (transferred : ide.Transferred (ide.buf b).command sector) (irq : ide.irq = true)
      (started : ide.started = ide.completed ++ [b])
  /-- The handler has been entered. -/
  | taken {b rest sector} (intr : ide.intr = .acquiring ∨ ide.intr = .popping) (queue : ide.queue = b :: rest)
      (drive : ide.drive = .finished (ide.buf b).command sector)
      (transferred : ide.Transferred (ide.buf b).command sector) (irq : ide.irq = false)
      (started : ide.started = ide.completed ++ [b])
  /-- It has taken the request off the queue. -/
  | reading {b sector} (intr : ide.intr = .reading b)
      (drive : ide.drive = .finished (ide.buf b).command sector)
      (transferred : ide.Transferred (ide.buf b).command sector) (irq : ide.irq = false)
      (started : ide.started = ide.completed ++ [b])
  /-- It has the data. -/
  | marking {b} (intr : ide.intr = .marking b) (drive : ide.drive = .idle) (irq : ide.irq = false)
      (started : ide.started = ide.completed ++ [b])
  /-- It is about to start the disk for the next request. -/
  | ended (intr : (∃ b, ide.intr = .waking b) ∨ ide.intr = .starting) (drive : ide.drive = .idle)
      (irq : ide.irq = false) (started : ide.started = ide.completed)

/-- The requests are completed in the order in which they arrived, and the disk is at work on the first
one that is not. -/
structure Order (ide : Ide Process Data) : Prop where
  arrived : ide.arrived = ide.completed ++ (ide.intr.current.toList ++ ide.queue)
  first : ∀ p b, ide.point p = .starting b → ide.queue.head? = some b → ide.drive = .idle
  driven : Driven ide

section

variable (driven : Driven ide)

include driven

/-- The handler and the disk stay as they are, and so do the commands for the buffers of the
calls. -/
theorem Driven.frame (requests : Requests ide) (intr : next.intr = ide.intr)
    (queue : next.queue = ide.queue) (drive : next.drive = ide.drive) (irq : next.irq = ide.irq)
    (disk : next.disk = ide.disk) (started : next.started = ide.started)
    (completed : next.completed = ide.completed)
    (command : ∀ q b, (ide.point q).buffer = some b → (next.buf b).command = (ide.buf b).command)
    (starting : ∀ q b, ide.point q = .starting b → ide.queue = [b] → next.point q = .starting b) :
    Driven next := by
  have same : ∀ b, ide.Pending b → (next.buf b).command = (ide.buf b).command := by
    intro b waits
    obtain ⟨q, owner⟩ := requests.owner b waits
    exact command q b (buffer_of_appended owner)
  have carried : ∀ command sector, next.Transferred command sector ↔ ide.Transferred command sector := by
    intro command sector
    cases command <;> simp only [Transferred, disk]
  cases driven with
  | rest at_ list disk' line count =>
    exact .rest (by rwa [intr]) (queue.trans list) (drive.trans disk') (irq.trans line)
      (by rwa [started, completed])
  | owed at_ here list disk' line count =>
    exact .owed (by rwa [intr]) (starting _ _ here list) (queue.trans list) (drive.trans disk')
      (irq.trans line) (by rwa [started, completed])
  | busy at_ list disk' line count =>
    have head := same _ (.inl (list ▸ mem_cons_self))
    exact .busy (by rwa [intr]) (queue.trans list) (by rw [drive, disk', head]) (irq.trans line)
      (by rwa [started, completed])
  | raised at_ list disk' data line count =>
    have head := same _ (.inl (list ▸ mem_cons_self))
    exact .raised (by rwa [intr]) (queue.trans list) (by rw [drive, disk', head])
      (by rwa [head, carried]) (irq.trans line) (by rwa [started, completed])
  | taken at_ list disk' data line count =>
    have head := same _ (.inl (list ▸ mem_cons_self))
    exact .taken (by rwa [intr]) (queue.trans list) (by rw [drive, disk', head])
      (by rwa [head, carried]) (irq.trans line) (by rwa [started, completed])
  | reading at_ disk' data line count =>
    have head := same _ (.inr (by rw [at_]; rfl))
    exact .reading (intr.trans at_) (by rw [drive, disk', head]) (by rwa [head, carried])
      (irq.trans line) (by rwa [started, completed])
  | marking at_ disk' line count =>
    exact .marking (intr.trans at_) (drive.trans disk') (irq.trans line) (by rwa [started, completed])
  | ended at_ disk' line count =>
    exact .ended (by rwa [intr]) (drive.trans disk') (irq.trans line) (by rwa [started, completed])

theorem Driven.of_taken (here : ide.intr = .acquiring ∨ ide.intr = .popping) :
    ∃ b rest sector, ide.queue = b :: rest ∧ ide.drive = .finished (ide.buf b).command sector ∧
      ide.Transferred (ide.buf b).command sector ∧ ide.irq = false ∧ ide.started = ide.completed ++ [b] := by
  cases driven <;> grind

theorem Driven.of_reading {b : BufPtr} (here : ide.intr = .reading b) :
    ∃ sector, ide.drive = .finished (ide.buf b).command sector ∧
      ide.Transferred (ide.buf b).command sector ∧ ide.irq = false ∧ ide.started = ide.completed ++ [b] := by
  cases driven <;> grind

theorem Driven.of_marking {b : BufPtr} (here : ide.intr = .marking b) :
    ide.drive = .idle ∧ ide.irq = false ∧ ide.started = ide.completed ++ [b] := by
  cases driven <;> grind

theorem Driven.of_ended (here : (∃ b, ide.intr = .waking b) ∨ ide.intr = .starting) :
    ide.drive = .idle ∧ ide.irq = false ∧ ide.started = ide.completed := by
  cases driven <;> grind

theorem Driven.of_busy (here : ide.drive = .busy command) :
    ∃ b rest, (ide.intr = .idle ∨ ide.intr = .releasing) ∧ ide.queue = b :: rest ∧
      command = (ide.buf b).command ∧ ide.irq = false ∧ ide.started = ide.completed ++ [b] := by
  cases driven <;> grind

theorem Driven.of_raised (here : ide.irq = true) :
    ∃ b rest sector, ide.queue = b :: rest ∧ ide.drive = .finished (ide.buf b).command sector ∧
      ide.Transferred (ide.buf b).command sector ∧ ide.started = ide.completed ++ [b] := by
  cases driven <;> grind

/-- The disk is idle while the handler does not hold the lock: there is no request, or a process is about
to start it. -/
theorem Driven.of_idle (free : ide.intr.holds = false) (here : ide.drive = .idle) :
    (ide.queue = [] ∨ ∃ p b, ide.point p = .starting b ∧ ide.queue = [b]) ∧ ide.intr = .idle ∧
      ide.irq = false ∧ ide.started = ide.completed := by
  cases driven <;> grind [IntrPoint.holds]

theorem Driven.of_empty (free : ide.intr.holds = false) (empty : ide.queue = []) :
    ide.intr = .idle ∧ ide.drive = .idle ∧ ide.irq = false ∧ ide.started = ide.completed := by
  cases driven <;> grind [IntrPoint.holds]

end

/-! ## The steps -/

/-- Only the holder of the lock is about to start the disk. -/
theorem Locks.starting_unique (locks : Locks ide) {q : Process} {b : BufPtr} (held : (ide.point p).holds = true)
    (there : ide.point q = .starting b) : q = p :=
  locks.holder_unique held (by rw [there]; rfl)

theorem Locks.not_starting (locks : Locks ide) {q : Process} {b : BufPtr} (handling : ide.intr.holds = true) :
    ide.point q ≠ .starting b := by
  intro there
  have free := locks.not_handler (p := q) (by rw [there]; rfl)
  rw [handling] at free
  cases free

/-- After the test for `insl` the buffer has the contents of its block. -/
theorem Driven.read_synced (driven : Driven ide) {b : BufPtr} (here : ide.intr = .reading b) {data : Data}
    (value : ∀ command sector, ide.drive = .finished command sector →
      data = if (ide.buf b).dirty then (ide.buf b).data else sector) : ide.disk (ide.buf b).place = data := by
  obtain ⟨sector, drive, transferred, -, -⟩ := driven.of_reading here
  rw [value _ _ drive]
  unfold Buf.command at transferred
  split
  · rename_i dirty
    rwa [if_pos dirty] at transferred
  · rename_i clean
    rw [if_neg clean] at transferred
    exact transferred.symm

theorem Requests.handled (requests : Requests ide) (locks : Locks ide) (order : Order ide)
    (handled : Handled ide next) : Requests next := by
  have nodup := requests.nodup
  cases handled with
  | mark here =>
    refine requests.mark locks here rfl rfl rfl rfl ?_ fun c other => update_of_ne other _ _
    simp only [Synced, setBuf, update_self]
    exact ⟨rfl, requests.marking _ here⟩
  | wake here free => exact requests.wake locks here free
  | pop here list =>
    have pending : ∀ c, ide.Pending c ↔ c ∈ ide.queue := by
      intro c
      rw [Pending, here]
      exact or_iff_left (by rintro ⟨⟩)
    rw [here, list] at nodup
    refine requests.frame rfl ?_ (fun _ _ _ => rfl) (fun _ _ _ _ same => same) (by rintro _ ⟨⟩) nodup ?_
    · intro c
      rw [pending, list, mem_cons]
      exact or_comm.trans (or_congr_left (some_inj.trans eq_comm))
    · rw [here]
      rintro _ ⟨⟩
  | @read b here data value =>
    have current : ide.Pending b := .inr (by rw [here]; rfl)
    rw [here] at nodup
    refine requests.frame rfl ?_ ?_ ?_ ?_ nodup ?_
    · intro c
      rw [Pending, Pending, here]
      rfl
    · intro _ c _
      simp only [setBuf, update_apply]
      split
      · rename_i same
        rw [same]
        rfl
      · rfl
    · intro _ c _ past synced
      have other : c ≠ b := fun same => past (same ▸ current)
      simpa only [Synced, setBuf, update_of_ne other] using synced
    · rintro _ ⟨⟩
      simp only [Synced, setBuf, update_self]
      exact order.driven.read_synced here value
    · rw [here]
      rintro _ ⟨⟩
  | acquire here | nothing here | last here | start here | panic here | release here =>
    refine requests.frame rfl (fun c => ?_) (fun _ _ _ => rfl) (fun _ _ _ _ same => same) ?_ ?_ ?_
    · simp only [Pending, here, IntrPoint.current]
    · grind
    · simpa only [here, IntrPoint.current] using nodup
    · rw [here]
      rintro _ ⟨⟩

theorem Order.handled (order : Order ide) (requests : Requests ide) (locks : Locks ide)
    (handled : Handled ide next) : Order next := by
  have arrived := order.arrived
  cases handled with
  | acquire here free =>
    obtain ⟨b, rest, sector, list, drive, transferred, irq, started⟩ := order.driven.of_taken (.inl here)
    rw [here] at arrived
    exact ⟨arrived, order.first, .taken (.inr rfl) list drive transferred irq started⟩
  | nothing here empty =>
    obtain ⟨b, rest, sector, list, -⟩ := order.driven.of_taken (.inr here)
    rw [empty] at list
    cases list
  | pop here list =>
    obtain ⟨b, rest, sector, list', drive, transferred, irq, started⟩ := order.driven.of_taken (.inr here)
    cases list.symm.trans list'
    rw [here, list] at arrived
    have handling : ide.intr.holds = true := by rw [here]; rfl
    exact ⟨arrived, fun q c there => absurd there (locks.not_starting handling),
      .reading rfl drive transferred irq started⟩
  | read here data value =>
    obtain ⟨sector, -, -, irq, started⟩ := order.driven.of_reading here
    rw [here] at arrived
    exact ⟨arrived, fun _ _ _ _ => rfl, .marking rfl rfl irq started⟩
  | mark here =>
    obtain ⟨drive, irq, started⟩ := order.driven.of_marking here
    rw [here] at arrived
    refine ⟨?_, order.first, .ended (.inl ⟨_, rfl⟩) drive irq started⟩
    exact arrived.trans (append_assoc ..).symm
  | wake here free =>
    obtain ⟨drive, irq, started⟩ := order.driven.of_ended (.inl ⟨_, here⟩)
    rw [here] at arrived
    exact ⟨arrived, fun _ _ _ _ => drive, .ended (.inr rfl) drive irq started⟩
  | last here empty =>
    obtain ⟨drive, irq, started⟩ := order.driven.of_ended (.inr here)
    rw [here] at arrived
    exact ⟨arrived, order.first, .rest (.inr rfl) empty drive irq started⟩
  | @start b rest here list =>
    obtain ⟨drive, irq, started⟩ := order.driven.of_ended (.inr here)
    rw [here] at arrived
    have handling : ide.intr.holds = true := by rw [here]; rfl
    exact ⟨arrived, fun q c there => absurd there (locks.not_starting handling),
      .busy (.inr rfl) list rfl irq (congrArg (· ++ [b]) started)⟩
  | panic here =>
    exact ⟨order.arrived, order.first, order.driven.frame requests rfl rfl rfl rfl rfl rfl rfl
      (fun _ _ _ => rfl) fun _ _ there _ => there⟩
  | release here =>
    rw [here] at arrived
    refine ⟨arrived, order.first, ?_⟩
    cases order.driven with
    | rest _ list drive irq started => exact .rest (.inl rfl) list drive irq started
    | owed _ there list drive irq started => exact .owed (.inl rfl) there list drive irq started
    | busy _ list drive irq started => exact .busy (.inl rfl) list drive irq started
    | raised _ list drive data irq started => exact .raised (.inl rfl) list drive data irq started
    | taken at_ | reading at_ | marking at_ | ended at_ => grind

section

variable [DecidableEq Process]

/-- A process that is not about to start the disk goes to another point. -/
theorem Order.move (order : Order ide) (requests : Requests ide) {point : IdePoint} (buf : next.buf = ide.buf)
    (disk : next.disk = ide.disk) (queue : next.queue = ide.queue) (drive : next.drive = ide.drive)
    (irq : next.irq = ide.irq) (intr : next.intr = ide.intr) (arrived : next.arrived = ide.arrived)
    (started : next.started = ide.started) (completed : next.completed = ide.completed)
    (points : next.point = update ide.point p point) (elsewhere : ∀ b, point ≠ .starting b)
    (left : ∀ b, ide.point p = .starting b → ide.queue ≠ [b]) : Order next where
  arrived := by
    rw [arrived, completed, intr, queue]
    exact order.arrived
  first := by
    rw [points, queue, drive]
    exact (forall_update_iff _ fun q (point : IdePoint) =>
      ∀ b, point = .starting b → ide.queue.head? = some b → ide.drive = .idle).mpr
        ⟨fun b there => absurd there (elsewhere b), fun q _ => order.first q⟩
  driven := by
    refine order.driven.frame requests intr queue drive irq disk started completed (fun _ _ _ => by rw [buf]) ?_
    intro q b there only
    have other : q ≠ p := by
      rintro rfl
      exact left b there only
    rw [points, update_of_ne other]
    exact there

/-- A request joins a queue, and an idle disk is to be started for it. -/
theorem Driven.append (driven : Driven ide) (free : ide.intr.holds = false)
    (nobody : ∀ q c, ide.point q ≠ .starting c) (p : Process) (b : BufPtr) :
    Driven ({ ide with queue := ide.queue ++ [b], arrived := ide.arrived ++ [b] }.goto p (.starting b)) := by
  cases driven with
  | rest at_ list drive irq started =>
    exact .owed at_ (update_self ..) (congrArg (· ++ [b]) list) drive irq started
  | owed _ there => exact absurd there (nobody _ _)
  | busy at_ list drive irq started => exact .busy at_ (congrArg (· ++ [b]) list) drive irq started
  | raised at_ list drive data irq started =>
    exact .raised at_ (congrArg (· ++ [b]) list) drive data irq started
  | taken at_ list drive data irq started =>
    exact .taken at_ (congrArg (· ++ [b]) list) drive data irq started
  | reading at_ | marking at_ =>
    rw [at_] at free
    cases free
  | ended at_ =>
    rcases at_ with ⟨_, at_⟩ | at_ <;> rw [at_] at free <;> cases free

theorem Order.append (order : Order ide) (requests : Requests ide) (locks : Locks ide) {b : BufPtr}
    (here : ide.point p = .appending b) :
    Order ({ ide with queue := ide.queue ++ [b], arrived := ide.arrived ++ [b] }.goto p (.starting b)) := by
  have held : (ide.point p).holds = true := by rw [here]; rfl
  have free := locks.not_handler held
  have nobody : ∀ q c, ide.point q ≠ .starting c := by
    intro q c there
    have same := locks.starting_unique held there
    rw [same, here] at there
    cases there
  have unqueued : b ∉ ide.queue := fun queued =>
    requests.not_pending locks (p := p) (by rw [here]; rfl) (by rw [here]; rfl) (.inl queued)
  refine ⟨?_, ?_, order.driven.append free nobody p b⟩
  · simp only [goto, order.arrived, append_assoc]
  · refine (forall_update_iff _ fun q (point : IdePoint) => ∀ c, point = .starting c →
      (ide.queue ++ [b]).head? = some c → ide.drive = .idle).mpr ⟨?_, fun q _ c there => absurd there (nobody q c)⟩
    rintro _ ⟨⟩ head
    cases list : ide.queue with
    | nil => exact (order.driven.of_empty free list).2.1
    | cons c rest =>
      rw [list] at head unqueued
      exact absurd (mem_cons.mpr (.inl (Option.some.inj head).symm)) unqueued

theorem Order.start (order : Order ide) (locks : Locks ide) {b : BufPtr} (here : ide.point p = .starting b)
    (head : ide.queue.head? = some b) :
    Order ({ ide with
      drive := .busy (ide.buf b).command, started := ide.started ++ [b] }.goto p (.waiting b)) := by
  have held : (ide.point p).holds = true := by rw [here]; rfl
  have idle := order.first p b here head
  obtain ⟨waits, intr, irq, started⟩ := order.driven.of_idle (locks.not_handler held) idle
  obtain ⟨rest, list⟩ : ∃ rest, ide.queue = b :: rest := List.head?_eq_some_iff.mp head
  refine ⟨order.arrived, ?_, ?_⟩
  · refine (forall_update_iff _ fun q (point : IdePoint) => ∀ c, point = .starting c →
      ide.queue.head? = some c → IdeDrive.busy (ide.buf b).command = .idle).mpr ⟨nofun, ?_⟩
    exact fun q other c there => absurd (locks.starting_unique held there) other
  · exact .busy (.inl intr) list rfl irq (congrArg (· ++ [b]) started)

theorem Order.ran (order : Order ide) (requests : Requests ide) (locks : Locks ide) (ran : Ran ide p next) :
    Order next := by
  cases ran with
  | append here => exact order.append requests locks here
  | start here head => exact order.start locks here head
  | panic => exact ⟨order.arrived, order.first, order.driven.frame requests rfl rfl rfl rfl rfl rfl rfl
      (fun _ _ _ => rfl) fun _ _ there _ => there⟩
  | queued here behind =>
    refine order.move requests rfl rfl rfl rfl rfl rfl rfl rfl rfl rfl nofun fun b there only => ?_
    cases here.symm.trans there
    rw [only] at behind
    exact behind rfl
  | acquire here | done here | doze here | sleep here | fall here | wake here | release here =>
    refine order.move requests rfl rfl rfl rfl rfl rfl rfl rfl rfl rfl nofun fun b there => ?_
    cases here.symm.trans there

/-- The invariants of the driver. -/
structure Orderly (ide : Ide Process Data) : Prop where
  locks : Locks ide
  requests : Requests ide
  order : Order ide

theorem Orderly.modify (orderly : Orderly ide) {b : BufPtr} (buf : Buf Process Data)
    (unused : ∀ q, (ide.point q).buffer ≠ some b) : Orderly (ide.setBuf b buf) := by
  obtain ⟨locks, requests, order⟩ := orderly
  have others : ∀ q c, (ide.point q).buffer = some c → (ide.setBuf b buf).buf c = ide.buf c := by
    intro q c called
    refine update_of_ne ?_ _ _
    rintro rfl
    exact unused q called
  refine ⟨locks.moved (.modify b buf unused), ?_, order.arrived, order.first, ?_⟩
  · refine requests.frame rfl (fun _ => Iff.rfl) (fun q c called => by rw [others q c called])
      (fun q c appended _ synced => ?_) (fun c marks => ?_) requests.nodup fun _ wakes => wakes
    · rw [Synced, others q c (buffer_of_appended appended)]
      exact synced
    · obtain ⟨q, owner⟩ := requests.owner c (.inr (congrArg IntrPoint.current marks))
      rw [Synced, others q c (buffer_of_appended owner)]
      exact requests.marking c marks
  · exact order.driven.frame requests rfl rfl rfl rfl rfl rfl rfl
      (fun q c called => by rw [others q c called]) fun _ _ there _ => there

theorem Orderly.call (orderly : Orderly ide) {b : BufPtr} (here : ide.point p = .outside)
    (locked : (ide.buf b).lock = some p) (undone : (ide.buf b).done = false)
    (apart : ∀ q c, (ide.point q).buffer = some c → c ≠ b → (ide.buf c).place ≠ (ide.buf b).place) :
    Orderly (ide.goto p (.acquiring b)) := by
  obtain ⟨locks, requests, order⟩ := orderly
  refine ⟨locks.moved (.call here locked undone apart), ?_, ?_⟩
  · refine requests.move rfl rfl rfl rfl rfl ?_ ?_ nofun nofun nofun fun _ never => never.elim nofun nofun
    · rintro c (same | absurdity)
      · cases same
        exact undone
      · cases absurdity
    · intro c _ appended
      rw [here] at appended
      cases appended
  · refine order.move requests rfl rfl rfl rfl rfl rfl rfl rfl rfl rfl nofun fun c there => ?_
    cases here.symm.trans there

theorem Orderly.rouse (orderly : Orderly ide) {b : BufPtr} (here : ide.point p = .asleep b) :
    Orderly (ide.goto p (.waking b)) := by
  obtain ⟨locks, requests, order⟩ := orderly
  refine ⟨locks.moved (.rouse here), ?_, ?_⟩
  · refine requests.move rfl rfl rfl rfl rfl (fun _ never => never.elim nofun nofun) ?_ ?_ nofun nofun
      fun _ never => never.elim nofun nofun
    · rw [here]
      exact fun _ _ appended => appended
    · rw [here]
      exact fun _ appended => appended
  · refine order.move requests rfl rfl rfl rfl rfl rfl rfl rfl rfl rfl nofun fun c there => ?_
    cases here.symm.trans there

omit [DecidableEq Process] in
theorem place_of_write {buf : Buf Process Data} {place : Nat × Nat} {data : Data}
    (command : .write place data = buf.command) : place = buf.place := by
  unfold Buf.command at command
  split at command
  · cases command
    rfl
  · cases command

omit [DecidableEq Process] in
/-- The disk has carried out the command for the first buffer of the queue. -/
theorem Orderly.finish (orderly : Orderly ide) (busy : ide.drive = .busy command)
    (drive : ∃ sector, next.drive = .finished command sector ∧ next.Transferred command sector)
    (irq : next.irq = true) (buf : next.buf = ide.buf) (queue : next.queue = ide.queue)
    (intr : next.intr = ide.intr) (points : next.point = ide.point) (lock : next.lock = ide.lock)
    (ptable : next.ptable = ide.ptable) (arrived : next.arrived = ide.arrived)
    (started : next.started = ide.started) (completed : next.completed = ide.completed)
    (disk : ∀ b rest, ide.queue = b :: rest → command = (ide.buf b).command → ∀ place, place ≠ (ide.buf b).place →
      next.disk place = ide.disk place) : Orderly next := by
  obtain ⟨locks, requests, order⟩ := orderly
  obtain ⟨b, rest, rests, list, rfl, -, counts⟩ := order.driven.of_busy busy
  obtain ⟨sector, finished, transferred⟩ := drive
  have waits : ide.Pending b := .inl (list ▸ mem_cons_self)
  obtain ⟨q, owner⟩ := requests.owner b waits
  refine ⟨?_, ?_, ?_, ?_, ?_⟩
  · refine locks.frame ?_ ?_ ?_ ?_ ?_
    · rw [points]
      exact fun _ _ called => called
    · rw [buf]
      exact fun _ _ _ => ⟨rfl, rfl⟩
    · rw [points, lock]
      exact locks.holder
    · rw [intr, lock]
      exact locks.handler
    · rw [points, ptable]
      exact locks.falling
  · refine requests.frame points ?_ (fun _ _ _ => by rw [buf]) ?_ ?_ ?_ ?_
    · intro c
      rw [Pending, Pending, queue, intr]
    · -- the other buffers are for other blocks
      intro r c appended past synced
      have other : c ≠ b := fun same => past (same ▸ waits)
      have apart := locks.apart r q c b (buffer_of_appended appended) (buffer_of_appended owner) other
      rw [Synced, buf, disk b rest list rfl _ apart]
      exact synced
    · rw [intr]
      rcases rests with at_ | at_ <;> rw [at_] <;> rintro _ ⟨⟩
    · rw [intr, queue]
      exact requests.nodup
    · rw [intr]
      exact fun _ wakes => wakes
  · rw [arrived, completed, intr, queue]
    exact order.arrived
  · intro r c there head
    rw [points] at there
    rw [queue] at head
    have idle := order.first r c there head
    rw [busy] at idle
    cases idle
  · exact .raised (by rwa [intr]) (queue.trans list) (by rw [finished, buf]) (by rwa [buf]) irq
      (by rw [started, completed, counts])

theorem Orderly.interrupt (orderly : Orderly ide) (raised : ide.irq = true) (here : ide.intr = .idle) :
    Orderly { ide with irq := false, intr := .acquiring } := by
  obtain ⟨locks, requests, order⟩ := orderly
  obtain ⟨b, rest, sector, list, drive, transferred, started⟩ := order.driven.of_raised raised
  have nodup := requests.nodup
  have arrived := order.arrived
  rw [here] at nodup arrived
  refine ⟨locks.moved (.interrupt raised here), ?_, arrived, order.first,
    .taken (.inl rfl) list drive transferred rfl started⟩
  refine requests.frame rfl (fun c => ?_) (fun _ _ _ => rfl) (fun _ _ _ _ same => same) (by rintro _ ⟨⟩) nodup ?_
  · simp only [Pending, here, IntrPoint.current]
  · rw [here]
    rintro _ ⟨⟩

theorem Orderly.moved (orderly : Orderly ide) (moved : Moved ide next) : Orderly next := by
  obtain ⟨locks, requests, order⟩ := orderly
  cases moved with
  | modify b buf unused => exact Orderly.modify ⟨locks, requests, order⟩ buf unused
  | call here locked undone apart => exact Orderly.call ⟨locks, requests, order⟩ here locked undone apart
  | panic =>
    exact ⟨locks.moved .panic, requests.frame rfl (fun _ => Iff.rfl) (fun _ _ _ => rfl)
      (fun _ _ _ _ same => same) requests.marking requests.nodup fun _ wakes => wakes, order.arrived, order.first,
      order.driven.frame requests rfl rfl rfl rfl rfl rfl rfl (fun _ _ _ => rfl) fun _ _ there _ => there⟩
  | run ran => exact ⟨locks.ran ran, requests.ran locks ran, order.ran requests locks ran⟩
  | rouse here => exact Orderly.rouse ⟨locks, requests, order⟩ here
  | nothing => exact ⟨locks, requests, order⟩
  | read busy =>
    exact Orderly.finish ⟨locks, requests, order⟩ busy ⟨_, rfl, rfl⟩ rfl rfl rfl rfl rfl rfl rfl rfl rfl rfl
      fun _ _ _ _ _ _ => rfl
  | @write place data busy =>
    refine Orderly.finish ⟨locks, requests, order⟩ busy ⟨_, rfl, update_self ..⟩ rfl rfl rfl rfl rfl
      rfl rfl rfl rfl rfl ?_
    intro b rest _ command place' other
    refine update_of_ne (fun same => other ?_) _ _
    exact same.trans (place_of_write command)
  | interrupt raised here => exact Orderly.interrupt ⟨locks, requests, order⟩ raised here
  | handle handled =>
    exact ⟨locks.handled handled, requests.handled locks order handled, order.handled requests locks handled⟩

end

/-! ## Whole runs -/

theorem orderly_start (buf : BufPtr → Buf Process Data) (disk : Nat × Nat → Data) :
    Orderly (start buf disk) where
  locks :=
    { locked := nofun
      apart := nofun
      holder := fun _ => ⟨nofun, nofun⟩
      handler := ⟨nofun, nofun⟩
      falling := fun _ => ⟨nofun, nofun⟩ }
  requests :=
    { fresh := fun _ _ never => never.elim nofun nofun
      owner := fun _ never => never.elim nofun nofun
      undone := fun _ never => never.elim nofun nofun
      served := nofun
      marking := nofun
      nodup := nodup_nil
      dozing := nofun
      releasing := nofun
      asleep := fun _ _ never => never.elim nofun nofun }
  order := ⟨rfl, nofun, .rest (.inl rfl) rfl rfl rfl rfl⟩

/-- The requests that have been started: those completed, and perhaps the one after them. -/
theorem Order.started (order : Order ide) :
    ide.completed <+: ide.started ∧ ide.started <+: ide.arrived ∧
      ide.started.length ≤ ide.completed.length + 1 := by
  have arrived := order.arrived
  cases order.driven with
  | rest _ _ _ _ count | owed _ _ _ _ _ count | ended _ _ _ count =>
    rw [count, arrived]
    exact ⟨prefix_rfl, prefix_append _ _, by omega⟩
  | @busy b rest at_ list _ _ count | @raised b rest _ at_ list _ _ _ count
  | @taken b rest _ at_ list _ _ _ count =>
    have none_current : ide.intr.current = none := by rcases at_ with at_ | at_ <;> rw [at_] <;> rfl
    rw [count, arrived, none_current, list]
    refine ⟨prefix_append _ _, ⟨rest, ?_⟩, by simp⟩
    simp
  | reading at_ _ _ _ count | marking at_ _ _ count =>
    rw [count, arrived, at_]
    refine ⟨prefix_append _ _, ⟨ide.queue, ?_⟩, by simp⟩
    simp [IntrPoint.current]

/-- The command at the disk, until the handler takes its request off the queue. -/
theorem Driven.of_active (driven : Driven ide) (active : ide.drive = .busy command ∨
      ide.intr.current = none ∧ ∃ sector, ide.drive = .finished command sector) :
    ∃ b rest, ide.queue = b :: rest ∧ command = (ide.buf b).command := by
  cases driven <;> grind [IntrPoint.current]

/-- All requests for a buffer that is not pending have been completed. -/
theorem Order.count_completed (order : Order ide) {b : BufPtr} (through : ¬ide.Pending b) :
    ide.completed.count b = ide.arrived.count b ∧ ide.started.count b = ide.arrived.count b := by
  have none_left : (ide.intr.current.toList ++ ide.queue).count b = 0 := by
    refine count_eq_zero.mpr fun member => through ?_
    rcases mem_append.mp member with current | queued
    · exact .inr (mem_toList.mp current)
    · exact .inl queued
  have equal : ide.completed.count b = ide.arrived.count b := by
    rw [order.arrived, count_append, none_left, Nat.add_zero]
  obtain ⟨after, before, _⟩ := order.started
  have lower := after.sublist.count_le b
  have upper := before.sublist.count_le b
  omega

section Runs

variable [DecidableEq Process] {havedisk1 : Bool}

theorem orderly_of_run {buf : BufPtr → Buf Process Data} {disk : Nat × Nat → Data}
    {actions : List (IdeAction Process Data)}
    (run : Steps (Guarded (fun ide action next => ide.step havedisk1 action = some next) Allowed)
      (start buf disk) actions ide) : Orderly ide :=
  run.invariant Orderly (orderly_start buf disk) fun orderly transition =>
    orderly.moved (.of_step transition.1 transition.2)

/-- None of the processes in `iderw`, the disk and the interrupt handler can take a step. -/
def Stalled (havedisk1 : Bool) (ide : Ide Process Data) : Prop :=
  (∀ p, ide.step havedisk1 (.run p) = none) ∧ ide.step havedisk1 .finish = none ∧
    ide.step havedisk1 .interrupt = none ∧ ide.step havedisk1 .handle = none

/-- Both locks are free then, for their holders could go on. -/
theorem Stalled.free (stalled : Stalled havedisk1 ide) (alive : ide.panicked = false) (locks : Locks ide) :
    ide.ptable = none ∧ ide.lock = none := by
  obtain ⟨run, -, -, handle⟩ := stalled
  simp only [step, alive, Bool.false_eq_true, if_false] at run handle
  have table : ide.ptable = none := by
    refine eq_none_iff_forall_not_mem.mpr fun p held => ?_
    have falls := (locks.falling p).mpr held
    have stuck := run p
    cases here : ide.point p <;> simp_all [IdePoint.falls, Ide.run]
  refine ⟨table, eq_none_iff_forall_not_mem.mpr fun holder held => ?_⟩
  cases holder with
  | process p =>
    have holds := (locks.holder p).mpr held
    have stuck := run p
    cases here : ide.point p <;> simp_all [IdePoint.holds, Ide.run]
  | handler =>
    have holds := locks.handler.mpr held
    cases here : ide.intr with
    | idle | acquiring => simp_all [IntrPoint.holds]
    | popping | starting => cases queue : ide.queue <;> simp_all [Ide.handle]
    | reading | marking | waking | releasing => simp_all [Ide.handle]

/-- If nothing can go on, there is nothing left to do. -/
theorem Orderly.settled (orderly : Orderly ide) (alive : ide.panicked = false)
    (stalled : Stalled havedisk1 ide) :
    ide.started = ide.arrived ∧ ide.completed = ide.arrived ∧ ∀ p, ide.point p = .outside := by
  obtain ⟨table, free⟩ := stalled.free alive orderly.locks
  obtain ⟨run, finish, interrupt, handle⟩ := stalled
  simp only [step, alive, Bool.false_eq_true, if_false] at run finish interrupt handle
  have intr : ide.intr = .idle := by
    have unheld := mt orderly.locks.handler.mp (by simp [free])
    cases here : ide.intr <;> simp_all [IntrPoint.holds, Ide.handle]
  have released : ∀ p, (ide.point p).holds ≠ true := fun p => mt (orderly.locks.holder p).mp (by simp [free])
  have rest : ide.queue = [] ∧ ide.started = ide.completed := by
    cases orderly.order.driven with
    | rest _ empty _ _ count => exact ⟨empty, count⟩
    | owed _ here => exact absurd (by rw [here]; rfl) (released _)
    | @busy b _ _ _ busy => cases command : (ide.buf b).command <;> simp_all [Ide.finish]
    | raised _ _ _ _ raised => simp_all
    | taken at_ => rcases at_ with at_ | at_ <;> simp_all
    | reading at_ | marking at_ => simp_all
    | ended at_ => rcases at_ with ⟨_, at_⟩ | at_ <;> simp_all
  have arrived := orderly.order.arrived
  rw [intr, rest.1] at arrived
  have completed : ide.completed = ide.arrived := by simpa [IntrPoint.current] using arrived.symm
  refine ⟨rest.2.trans completed, completed, fun p => ?_⟩
  have stuck := run p
  have unheld := released p
  have unlocked := mt (orderly.locks.falling p).mp (by simp [table])
  cases here : ide.point p with
  | outside => rfl
  | acquiring | waking => simp [Ide.run, here, free] at stuck
  | appending | starting | waiting | dozing | releasing => simp [here, IdePoint.holds] at unheld
  | falling => simp [here, IdePoint.falls] at unlocked
  | asleep b =>
    -- its request would be in the queue, or the handler about to wake it
    have waits := orderly.requests.asleep p b (.inr here)
    simp [Pending, rest.1, intr, IntrPoint.current] at waits

/-- However the calls of `iderw`, the disk and its interrupts interleave: the command at the disk is
that for the first buffer of `idequeue`; requests are started and completed in the order of their
arrival, each of them once, and the next is not started before the last is completed; a process
leaves `iderw` with a buffer that is valid, not dirty and the same as its block on the disk, when
all requests for it are completed; and when nothing can go on all requests are. -/
theorem requests_served_once_in_order {buf : BufPtr → Buf Process Data} {disk : Nat × Nat → Data}
    {actions : List (IdeAction Process Data)}
    (run : Steps (Guarded (fun ide action next => ide.step havedisk1 action = some next) Allowed)
      (start buf disk) actions ide) :
    (∀ command, ide.drive = .busy command ∨
        ide.intr.current = none ∧ (∃ sector, ide.drive = .finished command sector) →
      ∃ b rest, ide.queue = b :: rest ∧ command = (ide.buf b).command) ∧
    ide.completed <+: ide.started ∧ ide.started <+: ide.arrived ∧
    ide.started.length ≤ ide.completed.length + 1 ∧
    (∀ p b, ide.point p = .releasing b →
      (ide.buf b).valid = true ∧ (ide.buf b).dirty = false ∧ ide.disk (ide.buf b).place = (ide.buf b).data ∧
      ide.completed.count b = ide.arrived.count b ∧ ide.started.count b = ide.arrived.count b) ∧
    (ide.panicked = false → Stalled havedisk1 ide →
      ide.started = ide.arrived ∧ ide.completed = ide.arrived ∧ ∀ p, ide.point p = .outside) := by
  have orderly := orderly_of_run run
  obtain ⟨after, before, next⟩ := orderly.order.started
  refine ⟨fun command active => orderly.order.driven.of_active active, after, before, next,
    fun p b here => ?_, fun alive stalled => orderly.settled alive stalled⟩
  have through := orderly.requests.releasing p b here
  have served := orderly.requests.served p b (by rw [here]; rfl) through
  have flags : (ide.buf b).valid = true ∧ (ide.buf b).dirty = false := by
    simpa [Buf.done] using served.1
  exact ⟨flags.1, flags.2, served.2, orderly.order.count_completed through⟩

/-! ## An example -/

instance [Fintype Process] (ide : Ide Process Data) : DecidablePred ide.Allowed
  | .modify b _ => inferInstanceAs (Decidable (∀ q, (ide.point q).buffer ≠ some b))
  | .call _ b => inferInstanceAs (Decidable (∀ q c, (ide.point q).buffer = some c → c ≠ b →
      (ide.buf c).place ≠ (ide.buf b).place))
  | .run _ | .kill _ | .finish | .interrupt | .handle => inferInstanceAs (Decidable True)

/-- Buffer 0 of process 0 is to be read, buffer 1 of process 1 to be written. -/
def twoBuffers (b : BufPtr) : Buf (Fin 2) Nat :=
  { valid := b = 1, dirty := b = 1, lock := if b = 0 then some 0 else some 1, dev := 1, blockno := b
    refcnt := 1, data := 7 }

/-- Process 1 comes while the disk works for process 0. -/
def twoRequests : List (IdeAction (Fin 2) Nat) :=
  [.call 0 0, .call 1 1] ++ List.replicate 6 (.run 0) ++ List.replicate 6 (.run 1) ++
    [.finish, .interrupt] ++ List.replicate 7 .handle ++ List.replicate 3 (.run 0) ++
    [.finish, .interrupt] ++ List.replicate 7 .handle ++ List.replicate 3 (.run 1)

theorem requests_served_once_in_order_two : ∃ last,
    Steps (Guarded (fun ide action next => ide.step true action = some next) Allowed)
      (start twoBuffers fun _ => 5) twoRequests last ∧
    Stalled true last ∧ last.arrived = [0, 1] ∧ last.completed = [0, 1] ∧ last.disk (1, 1) = 7 := by
  have evaluated : (follow (step true) Allowed (start twoBuffers fun _ => 5) twoRequests).any
      (fun last => decide (last.panicked = false ∧ ((∀ p, last.step true (.run p) = none) ∧ last.step true .finish = none ∧
        last.step true .interrupt = none ∧ last.step true .handle = none) ∧
        last.arrived = [0, 1] ∧ last.disk (1, 1) = 7)) = true := by
    decide +kernel
  obtain ⟨reached, facts⟩ := (any_eq_true_iff_get _ _).mp evaluated
  obtain ⟨alive, stalled, arrived, disk⟩ := of_decide_eq_true facts
  have run := Steps.of_follow (some_get reached).symm
  have settled := (requests_served_once_in_order run).2.2.2.2.2 alive stalled
  exact ⟨_, run, stalled, arrived, settled.2.1.trans arrived, disk⟩

end Runs

end Ide

end Xv6
