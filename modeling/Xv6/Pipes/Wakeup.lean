import Xv6.Kernel.PipeSteps
import Xv6.Semantics.Transition

/-!
# Wakeups on a pipe

While the lock of a pipe is free, a process should sleep on it only for the reason
for which it went to sleep. While another process holds the lock the reason may be
gone, but then the holder still has a `wakeup` to make. This is so with one
exception: `pipewrite` returns without its `wakeup` if it finds that the caller was
killed, or that nobody can read, after it filled the pipe.
-/

namespace Xv6

open Transition Function Option

variable {point : PipePoint} {request : PipeRequest}

/-- The reason for which a call sleeps. -/
def PipeRing.Blocks (ring : PipeRing) : PipeRequest → Prop
  | .write _ _ => ring.nwrite = ring.nread + UInt32.ofNat PIPESIZE ∧ ring.readopen = true
  | .read _ => ring.nread = ring.nwrite ∧ ring.writeopen = true

namespace PipePoint

/-- The channel for which a process at this point has a `wakeup` to make before it
releases the lock, unless it gives up. -/
def owes : PipePoint → Option PipeChannel
  | looping (.write _ _) | blocked (.write _ _) | announcing _ => some .nread
  | copying _ _ => some .nwrite
  | waking channel _ => some channel
  | _ => none

/-- What a process at this point found out about the pipe since it has the lock. -/
def Justified (ring : PipeRing) : PipePoint → Prop
  | blocked (.write _ _) => ring.nwrite = ring.nread + UInt32.ofNat PIPESIZE
  | blocked (.read n) => ring.Blocks (.read n)
  | announcing request | dozing request => ring.Blocks request
  | _ => True

end PipePoint

namespace Pipes

/-- A pipe is not empty and full at once. -/
theorem not_empty_of_full {ring : PipeRing}
    (full : ring.nwrite = ring.nread + UInt32.ofNat PIPESIZE) : ring.nread ≠ ring.nwrite := by
  intro empty
  have bound := ring.nread.toNat_lt
  rw [full, ← UInt32.toNat_inj, UInt32.toNat_add] at empty
  change _ = (_ + 512) % 2 ^ 32 at empty
  omega

/-- Without the lock a process relies on nothing. -/
theorem justified_of_not_holds (free : point.holds = false) (ring : PipeRing) :
    point.Justified ring := by
  cases point with
  | outside | acquiring | falling | asleep | closing => trivial
  | looping | blocked | announcing | dozing | copying | shutting | waking | releasing => cases free

variable {Process : Type} [DecidableEq Process] {threads next : PipeThreads Process} {p : Process}

/-- The locks are held where they should be, and whoever sleeps has a reason to, or
will be woken by the process that holds the lock of the pipe. -/
structure Attended (threads : PipeThreads Process) : Prop where
  holder : ∀ p, (threads.point p).holds = true ↔ threads.lock = some p
  ptable : ∀ p request, threads.point p = .falling request → threads.ptable = some p
  served : ∀ p request, (threads.point p).waits = some request →
    threads.ring.Blocks request ∨
      ∃ q, threads.lock = some q ∧ (threads.point q).owes = some request.channel
  justified : ∀ p, (threads.point p).Justified threads.ring

omit [DecidableEq Process] in
theorem Attended.not_holds (attended : Attended threads) {q : Process} (held : threads.lock = some p)
    (other : q ≠ p) : (threads.point q).holds = false := by
  by_contra holds
  have same := (attended.holder q).mp (Bool.eq_true_of_not_eq_false holds)
  rw [held] at same
  exact other (some.inj same).symm

omit [DecidableEq Process] in
/-- The holder of the lock is not where the lock is not held. -/
theorem Attended.holder_ne (attended : Attended threads) {q : Process}
    (free : (threads.point p).holds = false) (held : threads.lock = some q) : q ≠ p := by
  intro same
  rw [← same, (attended.holder q).mpr held] at free
  cases free

theorem waits_of_holds (holds : point.holds = true) : point.waits = none := by
  cases point with
  | outside | acquiring | falling | asleep | closing => cases holds
  | looping | blocked | announcing | dozing | copying | shutting | waking | releasing => rfl

theorem ne_falling_of_waits (waits : point.waits = none) (request : PipeRequest) :
    point ≠ .falling request := by
  intro falling
  rw [falling] at waits
  cases waits

/-- A process moves to a point at which it does not wait. The others see its lock, its
debts and the pipe. -/
theorem Attended.move (attended : Attended threads) (ring : PipeRing) (lock : Option Process)
    (waits : point.waits = none) (self : point.holds = true ↔ lock = some p)
    (other : ∀ q, q ≠ p → (threads.lock = some q ↔ lock = some q))
    (justified : point.Justified ring) (others : ∀ q, q ≠ p → (threads.point q).Justified ring)
    (serves : ∀ q request, q ≠ p → (threads.point q).waits = some request →
      ring.Blocks request ∨ lock = some p ∧ point.owes = some request.channel ∨
        ∃ h, h ≠ p ∧ lock = some h ∧ (threads.point h).owes = some request.channel) :
    Attended ({ threads with ring := ring, lock := lock }.goto p point) where
  holder := by
    refine (forall_update_iff _ fun q (point : PipePoint) => point.holds = true ↔ lock = some q).mpr
      ⟨self, ?_⟩
    intro q apart
    exact (attended.holder q).trans (other q apart)
  ptable := by
    refine (forall_update_iff _ fun q (point : PipePoint) =>
      ∀ request, point = .falling request → threads.ptable = some q).mpr ⟨?_, ?_⟩
    · intro request falling
      exact absurd falling (ne_falling_of_waits waits request)
    · intro q _
      exact attended.ptable q
  served := by
    refine (forall_update_iff _ fun q (point' : PipePoint) => ∀ request, point'.waits = some request →
      ring.Blocks request ∨ ∃ h, lock = some h ∧
        (update threads.point p point h).owes = some request.channel).mpr ⟨?_, ?_⟩
    · intro request waiting
      rw [waits] at waiting
      cases waiting
    · intro q apart request waiting
      rcases serves q request apart waiting with blocks | ⟨held, owes⟩ | ⟨h, apart', held, owes⟩
      · exact .inl blocks
      · refine .inr ⟨p, held, ?_⟩
        rw [update_self]
        exact owes
      · refine .inr ⟨h, held, ?_⟩
        rw [update_of_ne apart']
        exact owes
  justified := (forall_update_iff _ fun _ (point : PipePoint) => point.Justified ring).mpr
    ⟨justified, others⟩

/-- A step of the process that holds the lock and keeps it. -/
theorem Attended.inside (attended : Attended threads) (held : threads.lock = some p)
    (ring : PipeRing) (holds : point.holds = true) (justified : point.Justified ring)
    (serves : ∀ q request, (threads.point q).waits = some request →
      threads.ring.Blocks request ∨ (threads.point p).owes = some request.channel →
        ring.Blocks request ∨ point.owes = some request.channel) :
    Attended ({ threads with ring := ring }.goto p point) := by
  apply attended.move ring threads.lock (waits_of_holds holds) (iff_of_true holds held) (fun _ _ => Iff.rfl) justified
  · intro q apart
    exact justified_of_not_holds (attended.not_holds held apart) ring
  · intro q request apart waiting
    have before : threads.ring.Blocks request ∨
        (threads.point p).owes = some request.channel := by
      rcases attended.served q request waiting with blocks | ⟨holder, lock_eq, owes⟩
      · exact .inl blocks
      · rw [held] at lock_eq
        cases lock_eq
        exact .inr owes
    rcases serves q request waiting before with blocks | owes
    · exact .inl blocks
    · exact .inr (.inl ⟨held, owes⟩)

/-- A process without the lock takes another point without it. -/
theorem Attended.outside (attended : Attended threads) (free : (threads.point p).holds = false)
    (holds : point.holds = false) (waits : point.waits = none) :
    Attended (threads.goto p point) := by
  have unheld : threads.lock ≠ some p := fun held => attended.holder_ne free held rfl
  apply attended.move threads.ring threads.lock waits
  · rw [holds]
    exact iff_of_false Bool.false_ne_true unheld
  · exact fun _ _ => Iff.rfl
  · exact justified_of_not_holds holds _
  · exact fun q _ => attended.justified q
  · intro q request _ waiting
    rcases attended.served q request waiting with blocks | ⟨holder, held, owes⟩
    · exact .inl blocks
    · exact .inr (.inr ⟨holder, attended.holder_ne free held, held, owes⟩)

/-- A process takes the lock. -/
theorem Attended.enter (attended : Attended threads) (free : threads.lock = none)
    (holds : point.holds = true) (justified : point.Justified threads.ring) :
    Attended ({ threads with lock := some p }.goto p point) := by
  apply attended.move threads.ring (some p) (waits_of_holds holds) (iff_of_true holds rfl)
  · intro q apart
    rw [free]
    exact iff_of_false (fun held => nomatch held) (fun same => apart (some.inj same).symm)
  · exact justified
  · exact fun q _ => attended.justified q
  · intro q request _ waiting
    rcases attended.served q request waiting with blocks | ⟨holder, held, _⟩
    · exact .inl blocks
    · rw [free] at held
      cases held

omit [DecidableEq Process] in
/-- Nobody relies on a holder of the lock that owes nothing. -/
theorem Attended.blocks (attended : Attended threads) (held : threads.lock = some p)
    (paid : (threads.point p).owes = none) {q : Process}
    (waiting : (threads.point q).waits = some request) : threads.ring.Blocks request := by
  rcases attended.served q request waiting with blocks | ⟨holder, lock_eq, owes⟩
  · exact blocks
  · rw [held] at lock_eq
    cases lock_eq
    rw [paid] at owes
    cases owes

/-- A process that owes nothing releases the lock. -/
theorem Attended.leave (attended : Attended threads) (held : threads.lock = some p)
    (paid : (threads.point p).owes = none) :
    Attended ({ threads with lock := none }.goto p .outside) := by
  apply attended.move threads.ring none rfl
  · exact iff_of_false Bool.false_ne_true (fun held => nomatch held)
  · intro q apart
    rw [held]
    exact iff_of_false (fun same => apart (some.inj same).symm) (fun held => nomatch held)
  · trivial
  · exact fun q _ => attended.justified q
  · intro q request _ waiting
    exact .inl (attended.blocks held paid waiting)

/-- A process that has a reason to sleep releases the lock in `sleep`, where it holds
the lock of the process table. -/
theorem Attended.doze (attended : Attended threads) (held : threads.lock = some p)
    (paid : (threads.point p).owes = none) (unlocked : threads.ptable = none)
    (reason : threads.ring.Blocks request) :
    Attended ({ threads with ptable := some p, lock := none }.goto p (.falling request)) where
  holder := by
    refine (forall_update_iff _ fun q (point : PipePoint) => point.holds = true ↔ none = some q).mpr
      ⟨iff_of_false Bool.false_ne_true (fun held => nomatch held), ?_⟩
    intro q apart
    rw [attended.not_holds held apart]
    exact iff_of_false Bool.false_ne_true (fun held => nomatch held)
  ptable := by
    refine (forall_update_iff _ fun q (point : PipePoint) =>
      ∀ request, point = .falling request → some p = some q).mpr ⟨fun _ _ => rfl, ?_⟩
    intro q _ request falling
    have locked := attended.ptable q request falling
    rw [unlocked] at locked
    cases locked
  served := by
    refine (forall_update_iff _ fun q (point' : PipePoint) => ∀ request', point'.waits = some request' →
      threads.ring.Blocks request' ∨ ∃ h, none = some h ∧
        (update threads.point p (.falling request) h).owes = some request'.channel).mpr
      ⟨?_, ?_⟩
    · intro request' waiting
      cases waiting
      exact .inl reason
    · intro q _ request' waiting
      exact .inl (attended.blocks held paid waiting)
  justified := (forall_update_iff _ fun _ (point : PipePoint) => point.Justified threads.ring).mpr
    ⟨trivial, fun q _ => attended.justified q⟩

/-- A process that fell asleep gives up the lock of the process table. -/
theorem Attended.asleep (attended : Attended threads) (falling : threads.point p = .falling request) :
    Attended ({ threads with ptable := none }.goto p (.asleep request)) where
  holder := by
    refine (forall_update_iff _ fun q (point : PipePoint) =>
      point.holds = true ↔ threads.lock = some q).mpr ⟨?_, fun q _ => attended.holder q⟩
    have before := attended.holder p
    rw [falling] at before
    exact before
  ptable := by
    refine (forall_update_iff _ fun q (point : PipePoint) =>
      ∀ request, point = .falling request → none = some q).mpr ⟨fun _ absurdity => (nomatch absurdity), ?_⟩
    intro q apart request' falling'
    have locked := attended.ptable p request falling
    rw [attended.ptable q request' falling'] at locked
    exact absurd (some.inj locked) apart
  served := by
    have free : (threads.point p).holds = false := by rw [falling]; rfl
    have serves : ∀ q request', (threads.point q).waits = some request' →
        threads.ring.Blocks request' ∨ ∃ h, threads.lock = some h ∧
          (update threads.point p (.asleep request) h).owes = some request'.channel := by
      intro q request' waiting
      rcases attended.served q request' waiting with blocks | ⟨holder, held, owes⟩
      · exact .inl blocks
      · refine .inr ⟨holder, held, ?_⟩
        rw [update_of_ne (attended.holder_ne free held)]
        exact owes
    refine (forall_update_iff _ fun q (point' : PipePoint) => ∀ request', point'.waits = some request' →
      threads.ring.Blocks request' ∨ ∃ h, threads.lock = some h ∧
        (update threads.point p (.asleep request) h).owes = some request'.channel).mpr
      ⟨?_, fun q _ => serves q⟩
    intro request' waiting
    apply serves p
    rw [falling]
    exact waiting
  justified := (forall_update_iff _ fun _ (point : PipePoint) => point.Justified threads.ring).mpr
    ⟨trivial, fun q _ => attended.justified q⟩

omit [DecidableEq Process] in
/-- Some sleeping processes are made runnable, and nothing else changes. -/
theorem Attended.roused (attended : Attended threads) (next : PipeThreads Process)
    (ring_eq : next.ring = threads.ring) (lock_eq : next.lock = threads.lock)
    (ptable_eq : next.ptable = threads.ptable)
    (roused : ∀ q, next.point q = threads.point q ∨
      ∃ request, threads.point q = .asleep request ∧ next.point q = .acquiring request) :
    Attended next := by
  have holds_eq : ∀ q, (next.point q).holds = (threads.point q).holds := by
    intro q
    rcases roused q with same | ⟨request, before, after⟩
    · rw [same]
    · rw [before, after]
      rfl
  constructor
  · intro q
    rw [holds_eq, lock_eq]
    exact attended.holder q
  · intro q request falling
    rw [ptable_eq]
    rcases roused q with same | ⟨request', before, after⟩
    · rw [same] at falling
      exact attended.ptable q request falling
    · rw [after] at falling
      cases falling
  · intro q request waits
    rcases roused q with same | ⟨request', before, after⟩
    · rw [same] at waits
      rw [ring_eq, lock_eq]
      rcases attended.served q request waits with blocks | ⟨holder, held, owes⟩
      · exact .inl blocks
      · refine .inr ⟨holder, held, ?_⟩
        rcases roused holder with same' | ⟨request'', before, _⟩
        · rw [same']
          exact owes
        · rw [before] at owes
          cases owes
    · rw [after] at waits
      cases waits
  · intro q
    rw [ring_eq]
    rcases roused q with same | ⟨request, _, after⟩
    · rw [same]
      exact attended.justified q
    · rw [after]
      trivial

omit [DecidableEq Process] in
/-- What `wakeup` does to a process. -/
theorem wakeup_point (threads : PipeThreads Process) (channel : PipeChannel) (q : Process) :
    (threads.wakeup channel).point q = threads.point q ∧
        (∀ request, threads.point q = .asleep request → request.channel ≠ channel) ∨
      ∃ request, threads.point q = .asleep request ∧
        (threads.wakeup channel).point q = .acquiring request := by
  unfold PipeThreads.wakeup
  dsimp only
  split
  · rename_i request asleep
    split
    · exact .inr ⟨request, asleep, rfl⟩
    · rename_i apart
      refine .inl ⟨asleep.symm, ?_⟩
      intro request' asleep'
      rw [asleep] at asleep'
      cases asleep'
      exact apart
  · rename_i different
    exact .inl ⟨rfl, fun request asleep => absurd asleep (different request)⟩

omit [DecidableEq Process] in
theorem Attended.wakeup (attended : Attended threads) (channel : PipeChannel) :
    Attended (threads.wakeup channel) := by
  apply attended.roused (threads.wakeup channel) rfl rfl rfl
  intro q
  exact (wakeup_point threads channel q).imp And.left id

omit [DecidableEq Process] in
/-- After `wakeup` nobody waits on the channel. -/
theorem Attended.nobody (attended : Attended threads) (unlocked : threads.ptable = none)
    {channel : PipeChannel} {q : Process}
    (waits : ((threads.wakeup channel).point q).waits = some request) :
    request.channel ≠ channel := by
  rcases wakeup_point threads channel q with ⟨same, apart⟩ | ⟨request', _, after⟩
  · rw [same] at waits
    cases at_point : threads.point q with
    | falling request' =>
      have locked := attended.ptable q request' at_point
      rw [unlocked] at locked
      cases locked
    | asleep request' =>
      rw [at_point] at waits
      cases waits
      exact apart request at_point
    | outside | acquiring | looping | blocked | announcing | dozing | copying | closing | shutting
    | waking | releasing =>
      rw [at_point] at waits
      cases waits
  · rw [after] at waits
    cases waits

omit [DecidableEq Process] in
theorem wakeup_holder (channel : PipeChannel) (holds : (threads.point p).holds = true) :
    (threads.wakeup channel).point p = threads.point p := by
  rcases wakeup_point threads channel p with ⟨same, _⟩ | ⟨request, asleep, _⟩
  · exact same
  · rw [asleep] at holds
    cases holds

/-- The holder of the lock wakes everybody on the channel for which it owes a
`wakeup`. -/
theorem Attended.pay (attended : Attended threads) (held : threads.lock = some p)
    (unlocked : threads.ptable = none) {channel : PipeChannel}
    (owes : (threads.point p).owes = some channel) (holds : point.holds = true)
    (justified : point.Justified threads.ring) :
    Attended ((threads.wakeup channel).goto p point) := by
  have same := wakeup_holder channel ((attended.holder p).mpr held)
  refine (attended.wakeup channel).inside held threads.ring holds justified ?_
  intro q request waits before
  rw [same, owes] at before
  rcases before with blocks | owed
  · exact .inl blocks
  · exact absurd (some.inj owed).symm (attended.nobody unlocked waits)

theorem Attended.kill (attended : Attended threads) (q : Process) : Attended (threads.kill q) := by
  apply attended.roused (threads.kill q) rfl rfl rfl
  refine (forall_update_iff _ fun r (point : PipePoint) => point = threads.point r ∨
    ∃ request, threads.point r = .asleep request ∧ point = .acquiring request).mpr
    ⟨?_, fun r _ => .inl rfl⟩
  split
  · rename_i request asleep
    exact .inr ⟨request, asleep, rfl⟩
  · exact .inl rfl

/-! ## Steps -/

/-- A process in `pipewrite` that found the pipe full returns -1. -/
def GivesUp (threads : PipeThreads Process) (p : Process) : Prop :=
  ∃ n rest, threads.point p = .blocked (.write n rest) ∧
    (threads.ring.readopen = false ∨ threads.killed p = true)

instance (threads : PipeThreads Process) (p : Process) : Decidable (GivesUp threads p) :=
  match at_point : threads.point p with
  | .blocked (.write n rest) =>
    decidable_of_iff (threads.ring.readopen = false ∨ threads.killed p = true)
      ⟨fun reason => ⟨n, rest, at_point, reason⟩, fun ⟨_, _, _, reason⟩ => reason⟩
  | .blocked (.read _) | .outside | .acquiring _ | .looping _ | .announcing _ | .dozing _
  | .falling _ | .asleep _ | .copying _ _ | .closing _ | .shutting _ | .waking _ _
  | .releasing _ => isFalse fun ⟨_, _, blocked, _⟩ => nomatch at_point.symm.trans blocked

/-- Nobody sleeps on `&p->nread`, or is about to. -/
def Unread (threads : PipeThreads Process) : Prop :=
  ∀ q, (threads.point q).waits.map PipeRequest.channel ≠ some .nread

instance [Fintype Process] (threads : PipeThreads Process) : Decidable (Unread threads) :=
  inferInstanceAs (Decidable (∀ q, (threads.point q).waits.map PipeRequest.channel ≠ some .nread))

/-- `pipewrite` gives up only when no reader sleeps. -/
def Announced (threads : PipeThreads Process) : ThreadAction Process → Prop
  | .run p => GivesUp threads p → Unread threads
  | _ => True

instance [Fintype Process] (threads : PipeThreads Process) (action : ThreadAction Process) :
    Decidable (Announced threads action) :=
  match action with
  | .run p => inferInstanceAs (Decidable (GivesUp threads p → Unread threads))
  | .call _ _ | .close _ _ | .kill _ => isTrue trivial

section

variable (attended : Attended threads)

include attended

section

variable (held : threads.lock = some p)

include held

/-- A step that leaves the pipe as it is, and the debts of the holder. -/
theorem Attended.stay (holds : point.holds = true) (justified : point.Justified threads.ring)
    (owes : (threads.point p).owes = none ∨ (threads.point p).owes = point.owes) :
    Attended (threads.goto p point) := by
  apply attended.inside held threads.ring holds justified
  intro q request _ before
  rcases before with blocks | owed
  · exact .inl blocks
  · rcases owes with none | same
    · rw [none] at owed
      cases owed
    · rw [← same]
      exact .inr owed

/-- One byte more is in the pipe: only readers are concerned, and they will be woken. -/
theorem Attended.store {n : Nat} {byte : Byte} {rest : List Byte}
    (at_point : threads.point p = .looping (.write n (byte :: rest)))
    (room : ¬ threads.ring.nwrite = threads.ring.nread + UInt32.ofNat PIPESIZE) :
    Attended ({ threads with ring := threads.ring.store byte }.goto p
      (.looping (.write n rest))) := by
  refine attended.inside held _ rfl trivial ?_
  intro q request _ before
  rw [at_point] at before
  cases request with
  | read m => exact .inr rfl
  | write m bytes =>
    rcases before with blocks | owed
    · exact absurd blocks.1 room
    · cases owed

/-- One byte less is in the pipe: only writers are concerned, and they will be woken. -/
theorem Attended.advance {left left' : Nat} {copied copied' : List Byte}
    (at_point : threads.point p = .copying left copied)
    (nonempty : ¬ threads.ring.nread = threads.ring.nwrite) :
    Attended ({ threads with ring := threads.ring.advance }.goto p (.copying left' copied')) := by
  refine attended.inside held _ rfl trivial ?_
  intro q request _ before
  rw [at_point] at before
  cases request with
  | write m bytes => exact .inr rfl
  | read m =>
    rcases before with blocks | owed
    · exact absurd blocks.1 nonempty
    · cases owed

/-- Closing an end concerns those that sleep on the other, and they will be woken. -/
theorem Attended.shut {writable : Bool} (at_point : threads.point p = .shutting writable) :
    Attended ({ threads with ring := threads.ring.pipeclose writable }.goto p
      (.waking (if writable then .nread else .nwrite) 0)) := by
  refine attended.inside held _ rfl trivial ?_
  intro q request _ before
  have blocks : threads.ring.Blocks request := by
    rcases before with blocks | owed
    · exact blocks
    · rw [at_point] at owed
      cases owed
  cases request with
  | write m bytes =>
    cases writable with
    | false => exact .inr rfl
    | true => exact .inl blocks
  | read m =>
    cases writable with
    | false => exact .inl blocks
    | true => exact .inr rfl

/-- `pipewrite` returns without its `wakeup`. -/
theorem Attended.giveUp {n : Nat} {rest : List Byte}
    (at_point : threads.point p = .blocked (.write n rest)) (unread : Unread threads) {result : Int} :
    Attended (threads.goto p (.releasing result)) := by
  refine attended.inside held threads.ring rfl trivial ?_
  intro q request waits before
  rw [at_point] at before
  rcases before with blocks | owed
  · exact .inl blocks
  · cases request with
    | read m =>
      refine absurd ?_ (unread q)
      rw [waits]
      rfl
    | write m bytes => cases owed

end

end

omit [DecidableEq Process] in
theorem Attended.locked {state : PipeThreads Process} (step : threads.locked next = some state)
    (attended : threads.ptable = none → Attended next) : Attended state := by
  unfold PipeThreads.locked at step
  split at step
  · rename_i unlocked
    cases step
    exact attended unlocked
  · cases step

theorem Attended.acquire (attended : Attended threads) (step : threads.acquire p point = some next)
    (holds : point.holds = true) (justified : point.Justified threads.ring) : Attended next := by
  unfold PipeThreads.acquire at step
  split at step
  · rename_i free
    cases step
    exact attended.enter free holds justified
  · cases step

theorem Attended.run (attended : Attended threads) (announced : GivesUp threads p → Unread threads)
    (step : threads.run p = some next) : Attended next := by
  have held : (threads.point p).holds = true → threads.lock = some p := (attended.holder p).mp
  have justified := attended.justified p
  unfold PipeThreads.run at step
  split at step
  · cases step
  · exact attended.acquire step rfl trivial
  · rename_i n at_point
    cases step
    rw [at_point] at held
    refine attended.stay (held rfl) rfl trivial (.inr ?_)
    rw [at_point]
    rfl
  · rename_i n byte rest at_point
    rw [at_point] at held
    split at step
    · rename_i full
      cases step
      refine attended.stay (held rfl) rfl full (.inr ?_)
      rw [at_point]
      rfl
    · rename_i room
      cases step
      exact attended.store (held rfl) at_point room
  · rename_i n at_point
    rw [at_point] at held
    split at step
    · rename_i empty
      cases step
      refine attended.stay (held rfl) rfl empty (.inl ?_)
      rw [at_point]
      rfl
    · cases step
      refine attended.stay (held rfl) rfl trivial (.inl ?_)
      rw [at_point]
      rfl
  · rename_i n rest at_point
    rw [at_point] at held justified
    split at step
    · rename_i reason
      cases step
      apply attended.giveUp (held rfl) at_point
      apply announced
      refine ⟨n, rest, at_point, ?_⟩
      simpa using reason
    · rename_i patient
      cases step
      refine attended.stay (held rfl) rfl ⟨justified, ?_⟩ (.inr ?_)
      · simp only [Bool.not_eq_eq_eq_not, Bool.not_true, not_or, Bool.not_eq_false] at patient
        exact patient.1
      · rw [at_point]
        rfl
  · rename_i n at_point
    rw [at_point] at held justified
    split at step
    · cases step
      refine attended.stay (held rfl) rfl trivial (.inl ?_)
      rw [at_point]
      rfl
    · cases step
      refine attended.stay (held rfl) rfl justified (.inl ?_)
      rw [at_point]
      rfl
  · rename_i request at_point
    rw [at_point] at held justified
    apply Attended.locked step
    intro unlocked
    refine attended.pay (held rfl) unlocked ?_ rfl justified
    rw [at_point]
    rfl
  · rename_i request at_point
    rw [at_point] at held justified
    apply Attended.locked step
    intro unlocked
    apply attended.doze (held rfl) _ unlocked justified
    rw [at_point]
    rfl
  · rename_i request at_point
    cases step
    exact attended.asleep at_point
  · cases step
  · rename_i copied at_point
    cases step
    rw [at_point] at held
    refine attended.stay (held rfl) rfl trivial (.inr ?_)
    rw [at_point]
    rfl
  · rename_i left copied at_point
    rw [at_point] at held
    split at step
    · cases step
      refine attended.stay (held rfl) rfl trivial (.inr ?_)
      rw [at_point]
      rfl
    · rename_i nonempty
      cases step
      exact attended.advance (held rfl) at_point nonempty
  · exact attended.acquire step rfl trivial
  · rename_i writable at_point
    cases step
    rw [at_point] at held
    exact attended.shut (held rfl) at_point
  · rename_i channel result at_point
    rw [at_point] at held
    apply Attended.locked step
    intro unlocked
    refine attended.pay (held rfl) unlocked ?_ rfl trivial
    rw [at_point]
    rfl
  · rename_i result at_point
    cases step
    rw [at_point] at held
    apply attended.leave (held rfl)
    rw [at_point]
    rfl

theorem Attended.step (attended : Attended threads) {action : ThreadAction Process}
    (announced : Announced threads action) (step : threads.step action = some next) :
    Attended next := by
  cases action with
  | call _ _ | close _ _ =>
    unfold PipeThreads.step at step
    simp only [ite_none_right_eq_some, some.injEq] at step
    obtain ⟨⟨outside, _⟩, rfl⟩ := step
    apply attended.outside _ rfl rfl
    rw [outside]
    rfl
  | run p => exact attended.run announced step
  | kill p => exact Attended.locked step fun _ => attended.kill p

omit [DecidableEq Process] in
theorem attended_start (page : Nat → Byte) : Attended (PipeThreads.start page : PipeThreads Process) where
  holder _ := iff_of_false Bool.false_ne_true (fun held => nomatch held)
  ptable _ _ falling := nomatch falling
  served _ _ waits := nomatch waits
  justified _ := trivial

/-! ## Runs -/

/-- However the statements of any number of processes in `pipewrite`, `piperead` and
`pipeclose` interleave, and whenever processes are killed: as long as `pipewrite` never
gives up on a full pipe while a reader sleeps, whoever sleeps while the lock is free has
the reason for which it went to sleep. The first time `pipewrite` does give up then, it
leaves the reader asleep at a pipe full of bytes. -/
theorem pipe_wakeups {page : Nat → Byte} {actions : List (ThreadAction Process)}
    (run : Steps (Guarded (fun threads action next => PipeThreads.step threads action = some next)
      Announced) (PipeThreads.start page) actions threads) :
    (threads.lock = none →
      (∀ p n, threads.point p = .asleep (.read n) →
        threads.ring.nread = threads.ring.nwrite ∧ threads.ring.writeopen = true) ∧
      (∀ p n rest, threads.point p = .asleep (.write n rest) →
        threads.ring.nwrite = threads.ring.nread + UInt32.ofNat PIPESIZE ∧
          threads.ring.readopen = true)) ∧
    (∀ p q n, GivesUp threads p → threads.point q = .asleep (.read n) →
      ∃ given left, threads.step (.run p) = some given ∧ given.step (.run p) = some left ∧
        left.lock = none ∧ left.point q = .asleep (.read n) ∧
        left.ring.nread ≠ left.ring.nwrite) := by
  have attended : Attended threads := by
    apply run.invariant Attended (attended_start page)
    intro threads action next attended step
    exact attended.step step.1 step.2
  have blocks : threads.lock = none → ∀ p request, threads.point p = .asleep request →
      threads.ring.Blocks request := by
    intro free p request asleep
    have waits : (threads.point p).waits = some request := by rw [asleep]; rfl
    rcases attended.served p request waits with blocks | ⟨holder, held, _⟩
    · exact blocks
    · rw [free] at held
      cases held
  refine ⟨?_, ?_⟩
  · intro free
    exact ⟨fun p n => blocks free p (.read n), fun p n rest => blocks free p (.write n rest)⟩
  · rintro p q n ⟨m, rest, at_point, reason⟩ asleep
    have apart : q ≠ p := by
      intro same
      rw [same, at_point] at asleep
      cases asleep
    have full := attended.justified p
    rw [at_point] at full
    have gives : threads.run p = some (threads.goto p (.releasing (-1))) := by
      unfold PipeThreads.run
      rw [at_point]
      exact if_pos (by simpa using reason)
    have leaves : (threads.goto p (.releasing (-1))).run p =
        some ({ threads.goto p (.releasing (-1)) with lock := none }.goto p .outside) := by
      unfold PipeThreads.run
      rw [show (threads.goto p (.releasing (-1))).point p = .releasing (-1) from
        update_self ..]
    refine ⟨_, _, gives, leaves, rfl, ?_, not_empty_of_full full⟩
    change update (update threads.point p _) p _ q = _
    rw [update_of_ne apart, update_of_ne apart]
    exact asleep

/-- A reader is woken by a writer, reads the byte and sleeps again. -/
def wokenReader : List (ThreadAction (Fin 2)) :=
  .call 0 (.read 8) :: List.replicate 5 (.run 0) ++ .call 1 (.write 1 [7]) ::
    List.replicate 5 (.run 1) ++ List.replicate 6 (.run 0) ++
      .call 0 (.read 8) :: List.replicate 5 (.run 0)

theorem pipe_wakeups_wokenReader : ∃ threads : PipeThreads (Fin 2),
    threads.lock = none ∧ threads.point 0 = .asleep (.read 8) ∧
    threads.ring.nread = threads.ring.nwrite ∧ threads.ring.writeopen = true := by
  have evaluated : (follow PipeThreads.step Announced (PipeThreads.start fun _ => 0)
      wokenReader).any (fun threads => decide (threads.lock = none ∧
        threads.point 0 = .asleep (.read 8))) = true := by
    decide +kernel
  obtain ⟨reached, facts⟩ := (any_eq_true_iff_get _ _).mp evaluated
  have run := Steps.of_follow (some_get reached).symm
  obtain ⟨free, asleep⟩ := of_decide_eq_true facts
  exact ⟨_, free, asleep, ((pipe_wakeups run).1 free).1 0 8 asleep⟩

/-- A reader sleeps; a writer fills the pipe, is killed, and returns. -/
def killedWriter : List (ThreadAction (Fin 2)) :=
  .call 0 (.read 1) :: List.replicate 5 (.run 0) ++
    .call 1 (.write 513 (List.replicate 513 7)) :: List.replicate 513 (.run 1) ++
      .kill 1 :: List.replicate 3 (.run 1)

theorem killed_writer_leaves_reader : ∃ threads : PipeThreads (Fin 2),
    Steps (fun threads action next => PipeThreads.step threads action = some next)
      (PipeThreads.start fun _ => 0) killedWriter threads ∧
    threads.lock = none ∧ threads.point 0 = .asleep (.read 1) ∧
    threads.ring.nread ≠ threads.ring.nwrite := by
  have evaluated : (follow PipeThreads.step (fun _ _ => True) (PipeThreads.start fun _ => 0)
      killedWriter).any (fun threads => decide (threads.lock = none ∧
        threads.point 0 = .asleep (.read 1) ∧ threads.ring.nread ≠ threads.ring.nwrite)) = true := by
    decide +kernel
  obtain ⟨reached, facts⟩ := (any_eq_true_iff_get _ _).mp evaluated
  have run := (Steps.of_follow (some_get reached).symm).unguarded
  exact ⟨_, run, of_decide_eq_true facts⟩

end Pipes

end Xv6
