import Xv6.Kernel.Bio
import Xv6.Semantics.Transition
import Xv6.Std.Counting

/-!
# The buffer cache is a flat array of blocks

Users read, lock, change, log, write and release buffers in any order. A block
that differs from its disk copy is in a valid buffer that is dirty or about to be
passed to `log_write` or `bwrite`; such a buffer is not recycled, so a `bread`
finds the last value given to the block in the buffer or on the disk.
-/

namespace Xv6

variable {stage stage' : BufStage} {dev blockno : Nat}

/-- The buffer a user has a reference to. -/
def BufStage.at : BufStage → Option BufPtr
  | .idle => none
  | .waiting b _ _ => some b
  | .locked b _ _ => some b
  | .holding b _ _ _ => some b
  | .releasing b => some b

/-- The buffer whose lock a user has. -/
def BufStage.owns : BufStage → Option BufPtr
  | .locked b _ _ => some b
  | .holding b _ _ _ => some b
  | _ => none

/-- The buffer of a user and the block it asked for. -/
def BufStage.asked : BufStage → Option (BufPtr × Nat × Nat)
  | .waiting b dev blockno => some (b, dev, blockno)
  | .locked b dev blockno => some (b, dev, blockno)
  | .holding b dev blockno _ => some (b, dev, blockno)
  | _ => none

namespace Buffers

open Counting Linked Function List Option BufSystem

variable {User Data : Type}

theorem at_of_owns {b : BufPtr} (owns : stage.owns = some b) : stage.at = some b := by
  cases stage <;> first | exact owns | cases owns

theorem at_of_asked {b : BufPtr} (asked : stage.asked = some (b, dev, blockno)) : stage.at = some b := by
  cases stage <;> cases asked <;> rfl

/-- Does a user have a reference to the buffer? -/
def visits (b : BufPtr) (stage : BufStage) : Nat := if stage.at = some b then 1 else 0

variable [Fintype User]

/-- The invariant of the cache. -/
structure Coherent (system : BufSystem User Data) : Prop where
  threads : ∃ list, Threads system.cache.links list ∧ ∀ b, b ∈ list
  unique : ∀ b b', 1 ≤ (system.cache.buf b).dev →
    (system.cache.buf b').dev = (system.cache.buf b).dev →
    (system.cache.buf b').blockno = (system.cache.buf b).blockno → b' = b
  refcnt : ∀ b, (system.cache.buf b).refcnt = total (visits b) system.stage
  lock : ∀ b user, (system.cache.buf b).lock = some user ↔ (system.stage user).owns = some b
  asked : ∀ user b dev blockno, (system.stage user).asked = some (b, dev, blockno) →
    1 ≤ dev ∧ (system.cache.buf b).dev = dev ∧ (system.cache.buf b).blockno = blockno
  valid : ∀ user b dev blockno modified, system.stage user = .holding b dev blockno modified →
    (system.cache.buf b).valid = true
  data : ∀ b, 1 ≤ (system.cache.buf b).dev → (system.cache.buf b).valid = true →
    (system.cache.buf b).data = system.given (system.cache.buf b).dev (system.cache.buf b).blockno
  dirty : ∀ b, (system.cache.buf b).dirty = true → (system.cache.buf b).valid = true
  disk : ∀ dev blockno, 1 ≤ dev → system.disk dev blockno = system.given dev blockno ∨
    ∃ b, (system.cache.buf b).dev = dev ∧ (system.cache.buf b).blockno = blockno ∧
      (system.cache.buf b).valid = true ∧
      ((system.cache.buf b).dirty = true ∨ ∃ user, system.stage user = .holding b dev blockno true)

variable {system next : BufSystem User Data} {user : User} {b : BufPtr}

/-! ## The list -/

/-- Both walks meet every buffer once, in opposite orders. -/
theorem Coherent.walks (coherent : Coherent system) :
    system.cache.forward.Nodup ∧ (∀ b, b ∈ system.cache.forward) ∧
      system.cache.backward = system.cache.forward.reverse := by
  obtain ⟨list, threads, all⟩ := coherent.threads
  have short : list.length < NBUF + 1 := by
    have bounded := List.Nodup.length_le_card threads.nodup
    rw [Fintype.card_fin] at bounded
    exact Nat.lt_succ_of_le bounded
  have forward_eq : system.cache.forward = list := walk_eq threads.next short
  have backward_eq : system.cache.backward = list.reverse :=
    walk_eq threads.prev (by rw [length_reverse]; exact short)
  rw [forward_eq, backward_eq]
  exact ⟨threads.nodup, all, rfl⟩

/-- A block that `bget` does not find is in no buffer. -/
theorem Coherent.not_cached (coherent : Coherent system)
    (absent : system.cache.cached dev blockno = none) (b : BufPtr)
    (dev_eq : (system.cache.buf b).dev = dev) : (system.cache.buf b).blockno ≠ blockno := by
  intro blockno_eq
  have passed := List.find?_eq_none.mp absent b (coherent.walks.2.1 b)
  simp [dev_eq, blockno_eq] at passed

omit [Fintype User] in
theorem cached_spec (found : system.cache.cached dev blockno = some b) :
    (system.cache.buf b).dev = dev ∧ (system.cache.buf b).blockno = blockno := by
  have both := List.find?_some found
  simpa using both

omit [Fintype User] in
theorem unused_spec (found : system.cache.unused = some b) :
    (system.cache.buf b).refcnt = 0 ∧ (system.cache.buf b).dirty = false := by
  have both := List.find?_some found
  simpa using both

/-! ## References -/

/-- Without references, no user is at the buffer. -/
theorem Coherent.absent (coherent : Coherent system) (none : (system.cache.buf b).refcnt = 0)
    (user : User) : (system.stage user).at ≠ some b := by
  intro here
  have counted := coherent.refcnt b
  have one : visits b (system.stage user) = 1 := if_pos here
  have part := measure_le_total (visits b) system.stage user
  omega

/-- Two users do not own one buffer. -/
theorem Coherent.owner (coherent : Coherent system) {user' : User}
    (owns : (system.stage user).owns = some b) (owns' : (system.stage user').owns = some b) :
    user' = user := by
  have first := (coherent.lock b user).mpr owns
  have second := (coherent.lock b user').mpr owns'
  rw [first] at second
  exact (some.inj second).symm

/-! ## Steps at one buffer -/

omit [Fintype User] in
theorem buf_update (cache : Bcache User Data) (b c : BufPtr)
    (change : Buf User Data → Buf User Data) :
    (cache.update b change).buf c = if c = b then change (cache.buf b) else cache.buf c := by
  unfold Bcache.update
  by_cases here : c = b
  · subst here
    simp
  · simp [here]

variable [DecidableEq User]

/-- A user at a buffer goes on to another stage there, and the buffer, its block on
the disk and the value of its block change. -/
structure Touch (system : BufSystem User Data) (user : User) (b : BufPtr) (stage' : BufStage)
    (buf' : Buf User Data) (next : BufSystem User Data) : Prop where
  cache_eq : next.cache = system.cache.update b fun _ => buf'
  stage_eq : next.stage = Function.update system.stage user stage'
  at_ : (system.stage user).at = some b
  at' : stage'.at = some b
  asked : ∀ request, stage'.asked = some request → (system.stage user).asked = some request
  place : buf'.dev = (system.cache.buf b).dev ∧ buf'.blockno = (system.cache.buf b).blockno ∧
    buf'.refcnt = (system.cache.buf b).refcnt
  lock : ∀ other, buf'.lock = some other ↔
    (Function.update system.stage user stage' other).owns = some b
  validity : (system.cache.buf b).valid = true → buf'.valid = true
  filled : ∀ dev blockno modified, stage' = .holding b dev blockno modified → buf'.valid = true
  data : 1 ≤ buf'.dev → buf'.valid = true → buf'.data = next.given buf'.dev buf'.blockno
  dirty : buf'.dirty = true → buf'.valid = true
  disk : 1 ≤ buf'.dev → next.disk buf'.dev buf'.blockno = next.given buf'.dev buf'.blockno ∨
    buf'.valid = true ∧ (buf'.dirty = true ∨ stage' = .holding b buf'.dev buf'.blockno true)
  far : ∀ dev blockno, ¬(dev = buf'.dev ∧ blockno = buf'.blockno) →
    next.disk dev blockno = system.disk dev blockno ∧
      next.given dev blockno = system.given dev blockno

theorem Coherent.touch (coherent : Coherent system) {buf' : Buf User Data}
    (touch : Touch system user b stage' buf' next) : Coherent next := by
  have buf_eq : ∀ c, next.cache.buf c = if c = b then buf' else system.cache.buf c := by
    intro c
    rw [touch.cache_eq, buf_update]
  have here : next.cache.buf b = buf' := by rw [buf_eq, if_pos rfl]
  have there : ∀ c, c ≠ b → next.cache.buf c = system.cache.buf c := by
    intro c other
    rw [buf_eq, if_neg other]
  obtain ⟨dev_eq, blockno_eq, refcnt_eq⟩ := touch.place
  have dev_same : ∀ c, (next.cache.buf c).dev = (system.cache.buf c).dev := by
    intro c
    rw [buf_eq]
    split
    · rename_i same
      rw [same, dev_eq]
    · rfl
  have blockno_same : ∀ c, (next.cache.buf c).blockno = (system.cache.buf c).blockno := by
    intro c
    rw [buf_eq]
    split
    · rename_i same
      rw [same, blockno_eq]
    · rfl
  have stage_of : ∀ other, other ≠ user → next.stage other = system.stage other := by
    intro other different
    rw [touch.stage_eq, update_of_ne different]
  have stage_user : next.stage user = stage' := by rw [touch.stage_eq, update_self]
  -- another buffer with a device is at another place
  have apart : ∀ c, c ≠ b → 1 ≤ (system.cache.buf c).dev →
      ¬((system.cache.buf c).dev = buf'.dev ∧ (system.cache.buf c).blockno = buf'.blockno) := by
    rintro c other device ⟨same_dev, same_blockno⟩
    exact other (coherent.unique c b device (by rw [same_dev, dev_eq])
      (by rw [same_blockno, blockno_eq])).symm
  constructor
  · rw [touch.cache_eq]
    exact coherent.threads
  · intro c c'
    rw [dev_same, dev_same, blockno_same, blockno_same]
    exact coherent.unique c c'
  · intro c
    have updated := total_update (visits c) system.stage user stage'
    have same : visits c stage' = visits c (system.stage user) := by
      unfold visits
      rw [touch.at_, touch.at']
    have refcnt_same : (next.cache.buf c).refcnt = (system.cache.buf c).refcnt := by
      rw [buf_eq]
      split
      · rename_i same
        rw [same, refcnt_eq]
      · rfl
    rw [refcnt_same, coherent.refcnt, touch.stage_eq]
    omega
  · intro c other
    by_cases same : c = b
    · rw [same, here, touch.stage_eq]
      exact touch.lock other
    · rw [there c same, coherent.lock]
      by_cases self : other = user
      · rw [self, stage_user]
        constructor
        · intro owns
          have place := at_of_owns owns
          rw [touch.at_] at place
          exact absurd (some.inj place).symm same
        · intro owns
          have place := at_of_owns owns
          rw [touch.at'] at place
          exact absurd (some.inj place).symm same
      · rw [stage_of other self]
  · intro other c dev blockno request
    rw [dev_same, blockno_same]
    by_cases self : other = user
    · rw [self, stage_user] at request
      exact coherent.asked user c dev blockno (touch.asked _ request)
    · rw [stage_of other self] at request
      exact coherent.asked other c dev blockno request
  · intro other c dev blockno modified holds
    by_cases self : other = user
    · rw [self, stage_user] at holds
      have place := touch.at'
      rw [holds] at place
      cases place
      rw [here]
      exact touch.filled dev blockno modified holds
    · rw [stage_of other self] at holds
      have was := coherent.valid other c dev blockno modified holds
      by_cases same : c = b
      · rw [same, here]
        rw [same] at was
        exact touch.validity was
      · rw [there c same]
        exact was
  · intro c device valid
    by_cases same : c = b
    · rw [same, here] at device valid ⊢
      exact touch.data device valid
    · rw [there c same] at device valid ⊢
      rw [(touch.far _ _ (apart c same device)).2]
      exact coherent.data c device valid
  · intro c dirty
    by_cases same : c = b
    · rw [same, here] at dirty ⊢
      exact touch.dirty dirty
    · rw [there c same] at dirty ⊢
      exact coherent.dirty c dirty
  · intro dev blockno device
    by_cases place : dev = buf'.dev ∧ blockno = buf'.blockno
    · obtain ⟨rfl, rfl⟩ := place
      rcases touch.disk device with clean | ⟨valid, kept⟩
      · exact .inl clean
      · refine .inr ⟨b, by rw [here], by rw [here], by rw [here]; exact valid, ?_⟩
        rw [here]
        rcases kept with dirty | holds
        · exact .inl dirty
        · exact .inr ⟨user, stage_user.trans holds⟩
    · obtain ⟨disk_eq, given_eq⟩ := touch.far dev blockno place
      rw [disk_eq, given_eq]
      rcases coherent.disk dev blockno device with clean | ⟨c, dev_at, blockno_at, valid, kept⟩
      · exact .inl clean
      · right
        have other : c ≠ b := by
          rintro rfl
          exact place ⟨by rw [dev_eq, dev_at], by rw [blockno_eq, blockno_at]⟩
        refine ⟨c, by rw [there c other, dev_at], by rw [there c other, blockno_at],
          by rw [there c other]; exact valid, ?_⟩
        rw [there c other]
        rcases kept with dirty | ⟨holder, holds⟩
        · exact .inl dirty
        · right
          have different : holder ≠ user := by
            rintro rfl
            have place := touch.at_
            rw [holds] at place
            exact other (some.inj place)
          exact ⟨holder, (stage_of holder different).trans holds⟩

/-- The lock of a buffer stays right when its user owns it before and after. -/
theorem Coherent.sameLock (coherent : Coherent system)
    (same : stage'.owns = (system.stage user).owns) (other : User) :
    (system.cache.buf b).lock = some other ↔
      (update system.stage user stage' other).owns = some b := by
  rw [coherent.lock]
  by_cases self : other = user
  · rw [self, update_self, same]
  · rw [update_of_ne self]

omit [DecidableEq User] in
/-- Where the last value of the block of an owned buffer is. -/
theorem Coherent.owned (coherent : Coherent system)
    (owns : (system.stage user).owns = some b) (device : 1 ≤ (system.cache.buf b).dev) :
    system.disk (system.cache.buf b).dev (system.cache.buf b).blockno =
        system.given (system.cache.buf b).dev (system.cache.buf b).blockno ∨
      (system.cache.buf b).valid = true ∧ ((system.cache.buf b).dirty = true ∨
        system.stage user =
          .holding b (system.cache.buf b).dev (system.cache.buf b).blockno true) := by
  rcases coherent.disk _ (system.cache.buf b).blockno device with
    clean | ⟨c, dev_eq, blockno_eq, valid, kept⟩
  · exact .inl clean
  · right
    cases coherent.unique b c device dev_eq blockno_eq
    constructor
    · exact valid
    · rcases kept with dirty | ⟨holder, holds⟩
      · exact .inl dirty
      · right
        have owns' : (system.stage holder).owns = some b := by rw [holds]; rfl
        rw [← coherent.owner owns owns']
        exact holds

theorem Coherent.acquiresleep (coherent : Coherent system)
    (stepped : system.step (.acquiresleep user) = some next) : Coherent next := by
  simp only [step] at stepped
  split at stepped
  case h_2 => cases stepped
  rename_i b dev blockno waits
  split at stepped
  case isFalse => cases stepped
  rename_i free
  cases stepped
  have unowned : ∀ other, (system.stage other).owns ≠ some b := by
    intro other owns
    rw [← coherent.lock, free] at owns
    cases owns
  refine coherent.touch (?_ : Touch system user b (.locked b dev blockno)
    { system.cache.buf b with lock := some user } _)
  constructor
  · rfl
  · rfl
  · rw [waits]; rfl
  · rfl
  · intro request asked
    rw [waits]
    exact asked
  · exact ⟨rfl, rfl, rfl⟩
  · intro other
    by_cases self : other = user
    · rw [self, update_self]
      exact ⟨fun _ => rfl, fun _ => rfl⟩
    · rw [update_of_ne self]
      constructor
      · intro same
        exact absurd (some.inj same).symm self
      · intro owns
        exact absurd owns (unowned other)
  · exact id
  · intro dev blockno modified holds
    cases holds
  · exact coherent.data b
  · exact coherent.dirty b
  · intro device
    rcases coherent.disk _ _ device with clean | ⟨c, dev_eq, blockno_eq, valid, kept⟩
    · exact .inl clean
    · cases coherent.unique b c device dev_eq blockno_eq
      rcases kept with dirty | ⟨holder, holds⟩
      · exact .inr ⟨valid, .inl dirty⟩
      · exact absurd (by rw [holds]; rfl) (unowned holder)
  · exact fun _ _ _ => ⟨rfl, rfl⟩

/-- The owner of a buffer makes it valid, with the last value of its block. -/
theorem Coherent.holding (coherent : Coherent system) (buf' : Buf User Data) {modified : Bool}
    (owns : (system.stage user).owns = some b)
    (asked : (system.stage user).asked = some (b, dev, blockno))
    (cache_eq : next.cache = system.cache.update b fun _ => buf')
    (stage_eq : next.stage = update system.stage user (.holding b dev blockno modified))
    (place : buf'.dev = (system.cache.buf b).dev ∧ buf'.blockno = (system.cache.buf b).blockno ∧
      buf'.refcnt = (system.cache.buf b).refcnt) (lock : buf'.lock = (system.cache.buf b).lock)
    (valid : buf'.valid = true) (data : buf'.data = next.given dev blockno)
    (disk : next.disk dev blockno = next.given dev blockno ∨ buf'.dirty = true ∨ modified = true)
    (far : ∀ dev' blockno', ¬(dev' = dev ∧ blockno' = blockno) →
      next.disk dev' blockno' = system.disk dev' blockno' ∧
        next.given dev' blockno' = system.given dev' blockno') : Coherent next := by
  obtain ⟨-, rfl, rfl⟩ := coherent.asked user b dev blockno asked
  refine coherent.touch (?_ : Touch system user b
    (.holding b (system.cache.buf b).dev (system.cache.buf b).blockno modified) buf' next)
  constructor
  · exact cache_eq
  · exact stage_eq
  · exact at_of_owns owns
  · rfl
  · intro request same
    rw [asked]
    exact same
  · exact place
  · rw [lock]
    exact coherent.sameLock (by rw [owns]; rfl)
  · exact fun _ => valid
  · exact fun _ _ _ _ => valid
  · intro _ _
    rw [place.1, place.2.1]
    exact data
  · exact fun _ => valid
  · intro _
    rw [place.1, place.2.1]
    rcases disk with clean | dirty | rfl
    · exact .inl clean
    · exact .inr ⟨valid, .inl dirty⟩
    · exact .inr ⟨valid, .inr rfl⟩
  · rw [place.1, place.2.1]
    exact far

theorem set_self (blocks : Blocks Data) (dev blockno : Nat) (data : Data) :
    blocks.set dev blockno data dev blockno = data := by
  simp [Blocks.set]

theorem set_of_ne (blocks : Blocks Data) (data : Data) {dev' blockno' : Nat}
    (other : ¬(dev' = dev ∧ blockno' = blockno)) :
    blocks.set dev blockno data dev' blockno' = blocks dev' blockno' := by
  unfold Blocks.set
  by_cases device : dev' = dev
  · subst device
    rw [update_self, update_of_ne fun same => other ⟨rfl, same⟩]
  · rw [update_of_ne device]

/-- `bread` finds the last value in the buffer or reads it from the disk. -/
theorem Coherent.fill (coherent : Coherent system)
    (stepped : system.step (.fill user) = some next) : Coherent next := by
  simp only [step] at stepped
  split at stepped
  case h_2 => cases stepped
  rename_i b dev blockno locked
  have owns : (system.stage user).owns = some b := by rw [locked]; rfl
  have asked : (system.stage user).asked = some (b, dev, blockno) := by rw [locked]; rfl
  obtain ⟨device, rfl, rfl⟩ := coherent.asked user b dev blockno asked
  have last := coherent.owned owns device
  rw [locked] at last
  split at stepped
  case isTrue valid =>
    cases stepped
    apply coherent.holding (system.cache.buf b) owns asked _ rfl ⟨rfl, rfl, rfl⟩ rfl valid
    · exact coherent.data b device valid
    · rcases last with clean | ⟨-, dirty | holds⟩
      · exact .inl clean
      · exact .inr (.inl dirty)
      · cases holds
    · exact fun _ _ _ => ⟨rfl, rfl⟩
    · unfold Bcache.update
      rw [update_eq_self]
      rfl
  case isFalse invalid =>
    have clean : (system.cache.buf b).dirty = false := by
      by_contra dirty
      exact invalid (coherent.dirty b (by simpa using dirty))
    have current := last.resolve_right fun kept => invalid kept.1
    simp only [iderw, clean, Bool.false_eq_true, if_false] at stepped
    cases stepped
    apply coherent.holding
      { system.cache.buf b with
        valid := true, dirty := false
        data := system.disk (system.cache.buf b).dev (system.cache.buf b).blockno }
      owns asked rfl rfl ⟨rfl, rfl, rfl⟩ rfl rfl
    · exact current
    · exact .inl current
    · exact fun _ _ _ => ⟨rfl, rfl⟩

/-- The holder of a buffer may write any data into it. -/
theorem Coherent.write (coherent : Coherent system) {dev blockno : Nat} {modified : Bool}
    (holds : system.stage user = .holding b dev blockno modified) (data : Data) :
    Coherent (system.write user b dev blockno data) := by
  have owns : (system.stage user).owns = some b := by rw [holds]; rfl
  have asked : (system.stage user).asked = some (b, dev, blockno) := by rw [holds]; rfl
  apply coherent.holding { system.cache.buf b with data := data } owns asked rfl rfl
    ⟨rfl, rfl, rfl⟩ rfl (coherent.valid user b dev blockno modified holds)
  · exact (set_self ..).symm
  · exact .inr (.inr rfl)
  · intro dev' blockno' other
    exact ⟨rfl, set_of_ne _ _ other⟩

section

variable (coherent : Coherent system)

include coherent

theorem Coherent.modify {change : Data → Data}
    (stepped : system.step (.modify user change) = some next) : Coherent next := by
  simp only [step] at stepped
  split at stepped
  case h_2 => cases stepped
  rename_i holds
  cases stepped
  exact coherent.write holds _

theorem Coherent.memmove {source : User} (stepped : system.step (.memmove user source) = some next) :
    Coherent next := by
  simp only [step] at stepped
  split at stepped
  case h_2 => cases stepped
  rename_i holds _
  cases stepped
  exact coherent.write holds _

/-- A logged buffer is dirty, so it stays until it is written. -/
theorem Coherent.logWrite (stepped : system.step (.logWrite user) = some next) : Coherent next := by
  simp only [step] at stepped
  split at stepped
  case h_2 => cases stepped
  rename_i b dev blockno modified holds
  split at stepped
  case isFalse => cases stepped
  cases stepped
  have owns : (system.stage user).owns = some b := by rw [holds]; rfl
  have asked : (system.stage user).asked = some (b, dev, blockno) := by rw [holds]; rfl
  have valid := coherent.valid user b dev blockno modified holds
  obtain ⟨device, rfl, rfl⟩ := coherent.asked user b dev blockno asked
  apply coherent.holding { system.cache.buf b with dirty := true } owns asked rfl rfl
    ⟨rfl, rfl, rfl⟩ rfl valid
  · exact coherent.data b device valid
  · exact .inr (.inl rfl)
  · exact fun _ _ _ => ⟨rfl, rfl⟩

/-- After `bwrite` the disk has the last value. -/
theorem Coherent.bwrite (stepped : system.step (.bwrite user) = some next) : Coherent next := by
  simp only [step] at stepped
  split at stepped
  case h_2 => cases stepped
  rename_i b dev blockno modified holds
  have owns : (system.stage user).owns = some b := by rw [holds]; rfl
  have asked : (system.stage user).asked = some (b, dev, blockno) := by rw [holds]; rfl
  have valid := coherent.valid user b dev blockno modified holds
  obtain ⟨device, rfl, rfl⟩ := coherent.asked user b dev blockno asked
  have data := coherent.data b device valid
  simp only [iderw, if_true] at stepped
  cases stepped
  apply coherent.holding { system.cache.buf b with valid := true, dirty := false }
    owns asked rfl rfl ⟨rfl, rfl, rfl⟩ rfl rfl
  · exact data
  · exact .inl ((set_self ..).trans data)
  · intro dev' blockno' other
    exact ⟨set_of_ne _ _ other, rfl⟩

/-- A user releases the lock of a buffer that it has not modified since it was logged
or written. -/
theorem Coherent.releasesleep (stepped : system.step (.releasesleep user) = some next) :
    Coherent next := by
  simp only [step] at stepped
  split at stepped
  case h_2 => cases stepped
  rename_i b dev blockno holds
  cases stepped
  have owns : (system.stage user).owns = some b := by rw [holds]; rfl
  refine coherent.touch (?_ : Touch system user b (.releasing b)
    { system.cache.buf b with lock := none } _)
  constructor
  · rfl
  · rfl
  · exact at_of_owns owns
  · rfl
  · intro request asked
    cases asked
  · exact ⟨rfl, rfl, rfl⟩
  · intro other
    by_cases self : other = user
    · rw [self, update_self]
      exact ⟨nofun, nofun⟩
    · rw [update_of_ne self]
      constructor
      · nofun
      · intro owns'
        exact absurd (coherent.owner owns owns') self
  · exact id
  · intro dev blockno modified holds
    cases holds
  · exact coherent.data b
  · exact coherent.dirty b
  · intro device
    rcases coherent.owned owns device with clean | ⟨valid, dirty | holds'⟩
    · exact .inl clean
    · exact .inr ⟨valid, .inl dirty⟩
    · rw [holds] at holds'
      cases holds'
  · exact fun _ _ _ => ⟨rfl, rfl⟩

end

/-! ## Steps that count references -/

/-- A user without a lock takes or drops a reference, and the list may be reordered. -/
theorem Coherent.counted (coherent : Coherent system) {count : Nat}
    (threads : ∃ list, Threads next.cache.links list ∧ ∀ b, b ∈ list)
    (buf_eq : next.cache.buf = (system.cache.update b fun buf => { buf with refcnt := count }).buf)
    (here : count + visits b (system.stage user) = (system.cache.buf b).refcnt + visits b stage')
    (elsewhere : ∀ c, c ≠ b → visits c stage' = visits c (system.stage user))
    (stage_eq : next.stage = update system.stage user stage')
    (unlocked : (system.stage user).owns = none) (unlocked' : stage'.owns = none)
    (asked : ∀ b dev blockno, stage'.asked = some (b, dev, blockno) →
      1 ≤ dev ∧ (system.cache.buf b).dev = dev ∧ (system.cache.buf b).blockno = blockno)
    (disk_eq : next.disk = system.disk) (given_eq : next.given = system.given) : Coherent next := by
  have same : ∀ c, next.cache.buf c =
      { system.cache.buf c with refcnt := (next.cache.buf c).refcnt } := by
    intro c
    rw [buf_eq, buf_update]
    split
    · rename_i same
      rw [same]
    · rfl
  have dev_eq : ∀ c, (next.cache.buf c).dev = (system.cache.buf c).dev := by
    intro c
    rw [same c]
  have blockno_eq : ∀ c, (next.cache.buf c).blockno = (system.cache.buf c).blockno := by
    intro c
    rw [same c]
  have valid_eq : ∀ c, (next.cache.buf c).valid = (system.cache.buf c).valid := by
    intro c
    rw [same c]
  have dirty_eq : ∀ c, (next.cache.buf c).dirty = (system.cache.buf c).dirty := by
    intro c
    rw [same c]
  -- a holder is not the user, before and after
  have holder : ∀ other c dev blockno modified,
      next.stage other = .holding c dev blockno modified ↔
        system.stage other = .holding c dev blockno modified := by
    intro other c dev blockno modified
    rw [stage_eq]
    by_cases self : other = user
    · rw [self, update_self]
      constructor
      · rintro rfl
        cases unlocked'
      · intro holds
        rw [holds] at unlocked
        cases unlocked
    · rw [update_of_ne self]
  constructor
  · exact threads
  · intro c c'
    rw [dev_eq, dev_eq, blockno_eq, blockno_eq]
    exact coherent.unique c c'
  · intro c
    have updated := total_update (visits c) system.stage user stage'
    have counted := coherent.refcnt c
    rw [stage_eq, buf_eq, buf_update]
    split
    · rename_i same
      cases same
      change count = _
      omega
    · rename_i other
      have unchanged := elsewhere c other
      omega
  · intro c other
    rw [same c, stage_eq]
    exact coherent.sameLock (by rw [unlocked, unlocked']) other
  · intro other c dev blockno request
    rw [dev_eq, blockno_eq]
    rw [stage_eq] at request
    by_cases self : other = user
    · rw [self, update_self] at request
      exact asked c dev blockno request
    · rw [update_of_ne self] at request
      exact coherent.asked other c dev blockno request
  · intro other c dev blockno modified holds
    rw [valid_eq]
    exact coherent.valid other c dev blockno modified ((holder ..).mp holds)
  · intro c
    rw [same c, given_eq]
    exact coherent.data c
  · intro c
    rw [dirty_eq, valid_eq]
    exact coherent.dirty c
  · intro dev blockno device
    rw [disk_eq, given_eq]
    rcases coherent.disk dev blockno device with clean | ⟨c, at_dev, at_blockno, valid, kept⟩
    · exact .inl clean
    · refine .inr ⟨c, (dev_eq c).trans at_dev, (blockno_eq c).trans at_blockno,
        (valid_eq c).trans valid, ?_⟩
      rw [dirty_eq]
      rcases kept with dirty | ⟨other, holds⟩
      · exact .inl dirty
      · exact .inr ⟨other, (holder ..).mpr holds⟩

omit [DecidableEq User] in
/-- A clean buffer without references may be given to a block that is in no buffer. -/
theorem Coherent.recycle (coherent : Coherent system) (unused : (system.cache.buf b).refcnt = 0)
    (clean : (system.cache.buf b).dirty = false)
    (absent : ∀ c, (system.cache.buf c).dev = dev → (system.cache.buf c).blockno ≠ blockno) :
    Coherent { system with
      cache := system.cache.update b fun buf =>
        { buf with dev := dev, blockno := blockno, valid := false, dirty := false } } := by
  have away := coherent.absent unused
  have unowned : ∀ other, (system.stage other).owns ≠ some b := by
    intro other owns
    exact away other (at_of_owns owns)
  constructor <;> dsimp only
  · exact coherent.threads
  · intro c c'
    rw [buf_update, buf_update]
    split <;> split
    · rename_i first second
      exact fun _ _ _ => second.trans first.symm
    · intro _ dev_eq blockno_eq
      exact absurd blockno_eq (absent c' dev_eq)
    · intro _ dev_eq blockno_eq
      exact absurd blockno_eq.symm (absent c dev_eq.symm)
    · exact coherent.unique c c'
  · intro c
    rw [buf_update]
    split
    · rename_i here
      rw [here]
      exact coherent.refcnt b
    · exact coherent.refcnt c
  · intro c other
    rw [buf_update]
    split
    · rename_i here
      rw [here]
      exact coherent.lock b other
    · exact coherent.lock c other
  · intro other c dev' blockno' request
    have elsewhere : c ≠ b := by
      rintro rfl
      exact away other (at_of_asked request)
    rw [buf_update, if_neg elsewhere]
    exact coherent.asked other c dev' blockno' request
  · intro other c dev' blockno' modified holds
    have elsewhere : c ≠ b := by
      rintro rfl
      exact unowned other (by rw [holds]; rfl)
    rw [buf_update, if_neg elsewhere]
    exact coherent.valid other c dev' blockno' modified holds
  · intro c
    rw [buf_update]
    split
    · nofun
    · exact coherent.data c
  · intro c
    rw [buf_update]
    split
    · nofun
    · exact coherent.dirty c
  · intro dev' blockno' device'
    rcases coherent.disk dev' blockno' device' with
      current | ⟨c, dev_eq, blockno_eq, valid, kept⟩
    · exact .inl current
    · -- a dirty or held buffer is not the one that is recycled
      have elsewhere : c ≠ b := by
        rintro rfl
        rcases kept with dirty | ⟨other, holds⟩
        · rw [clean] at dirty
          cases dirty
        · exact unowned other (by rw [holds]; rfl)
      right
      use c
      rw [buf_update, if_neg elsewhere]
      exact ⟨dev_eq, blockno_eq, valid, kept⟩

theorem visits_of_ne {c : BufPtr} (at_ : stage.at = some b) (other : c ≠ b) :
    visits c stage = 0 := by
  apply if_neg
  rw [at_]
  exact fun same => other (some.inj same).symm

/-- A user gets a reference to the buffer of the block it asks for. -/
theorem Coherent.refer (coherent : Coherent system) (idle : system.stage user = .idle) (count : Nat)
    (device : 1 ≤ dev) (dev_eq : (system.cache.buf b).dev = dev)
    (blockno_eq : (system.cache.buf b).blockno = blockno)
    (count_eq : count = (system.cache.buf b).refcnt + 1)
    (threads : ∃ list, Threads next.cache.links list ∧ ∀ b, b ∈ list)
    (buf_eq : next.cache.buf = (system.cache.update b fun buf => { buf with refcnt := count }).buf)
    (stage_eq : next.stage = update system.stage user (.waiting b dev blockno))
    (disk_eq : next.disk = system.disk) (given_eq : next.given = system.given) : Coherent next := by
  have before : ∀ c, visits c (system.stage user) = 0 := by
    intro c
    rw [idle]
    rfl
  have after : visits b (.waiting b dev blockno) = 1 := if_pos rfl
  apply coherent.counted threads buf_eq _ _ stage_eq _ rfl _ disk_eq given_eq
  · rw [before, after, count_eq]
  · intro c other
    rw [before, visits_of_ne rfl other]
  · rw [idle]
    rfl
  · rintro c dev' blockno' ⟨⟩
    exact ⟨device, dev_eq, blockno_eq⟩

theorem Coherent.bget (coherent : Coherent system)
    (stepped : system.step (.bget user dev blockno) = some next) : Coherent next := by
  simp only [step] at stepped
  split at stepped
  case isFalse => cases stepped
  rename_i ready
  obtain ⟨idle, device⟩ := ready
  obtain ⟨⟨b, cache⟩, found, rfl⟩ := map_eq_some_iff.mp stepped
  unfold Bcache.bget at found
  split at found
  · rename_i b' cached
    cases found
    obtain ⟨dev_eq, blockno_eq⟩ := cached_spec cached
    exact coherent.refer idle _ device dev_eq blockno_eq rfl coherent.threads rfl rfl rfl rfl
  · rename_i missing
    obtain ⟨b', unused, recycled⟩ := map_eq_some_iff.mp found
    cases recycled
    obtain ⟨unreferenced, clean⟩ := unused_spec unused
    have absent := coherent.not_cached missing
    refine (coherent.recycle unreferenced clean absent).refer idle 1 device ?_ ?_ ?_
      coherent.threads ?_ rfl rfl rfl
    · rw [buf_update, if_pos rfl]
    · rw [buf_update, if_pos rfl]
    · rw [buf_update, if_pos rfl, unreferenced]
    · simp [setStage, Bcache.update]

omit [Fintype User] [DecidableEq User] in
theorem brelse_buf (cache : Bcache User Data) (b : BufPtr) :
    (cache.brelse b).buf =
      (cache.update b fun buf => { buf with refcnt := (cache.buf b).refcnt - 1 }).buf := by
  simp only [Bcache.brelse]
  split <;> rfl

/-- `brelse` moves a buffer without references to the head of the list. -/
theorem Coherent.brelse (coherent : Coherent system)
    (stepped : system.step (.brelse user) = some next) : Coherent next := by
  simp only [step] at stepped
  split at stepped
  case h_2 => cases stepped
  rename_i b releases
  cases stepped
  have threads : ∃ list, Threads (system.cache.brelse b).links list ∧ ∀ b, b ∈ list := by
    obtain ⟨list, threads, all⟩ := coherent.threads
    simp only [Bcache.brelse]
    split
    · obtain ⟨front, back, rfl⟩ := append_of_mem (all b)
      have taken := threads.unlink
      have fresh : b ∉ front ++ back := by
        have distinct := threads.nodup
        rw [nodup_middle, nodup_cons] at distinct
        exact distinct.1
      refine ⟨b :: (front ++ back), taken.insertHead fresh, ?_⟩
      intro c
      have among := all c
      simp only [mem_append, mem_cons] at among ⊢
      tauto
    · exact ⟨list, threads, all⟩
  have before : visits b (system.stage user) = 1 := by
    rw [releases]
    exact if_pos rfl
  have counted := coherent.refcnt b
  have part := measure_le_total (visits b) system.stage user
  refine coherent.counted threads (brelse_buf _ b) ?_ ?_ rfl ?_ rfl ?_ rfl rfl
  · rw [before]
    change _ = _ + 0
    omega
  · intro c other
    have before : visits c (.releasing b) = 0 := visits_of_ne rfl other
    rw [releases, before]
    rfl
  · rw [releases]
    rfl
  · nofun

/-! ## Runs -/

theorem Coherent.step (coherent : Coherent system) {action : BufAction User Data}
    (stepped : system.step action = some next) : Coherent next := by
  cases action with
  | bget user dev blockno => exact coherent.bget stepped
  | acquiresleep user => exact coherent.acquiresleep stepped
  | fill user => exact coherent.fill stepped
  | modify user change => exact coherent.modify stepped
  | memmove target source => exact coherent.memmove stepped
  | logWrite user => exact coherent.logWrite stepped
  | bwrite user => exact coherent.bwrite stepped
  | releasesleep user => exact coherent.releasesleep stepped
  | brelse user => exact coherent.brelse stepped
  | emptyLog =>
    cases stepped
    exact ⟨coherent.threads, coherent.unique, coherent.refcnt, coherent.lock, coherent.asked,
      coherent.valid, coherent.data, coherent.dirty, coherent.disk⟩

omit [DecidableEq User] in
theorem coherent_start (zero : Data) (disk : Blocks Data) :
    Coherent (BufSystem.start zero disk : BufSystem User Data) := by
  constructor
  · have distinct : (List.finRange NBUF ++ []).Nodup := by
      rw [append_nil]
      exact nodup_finRange NBUF
    have empty : Threads (⟨fun _ => none, fun _ => none⟩ : Links BufPtr) [] := ⟨.nil, rfl, rfl⟩
    refine ⟨_, empty.insertHeads distinct, fun b => ?_⟩
    rw [append_nil, mem_reverse]
    exact mem_finRange b
  · nofun
  · intro b
    exact (total_eq_zero fun _ => rfl).symm
  · exact fun b user => ⟨nofun, nofun⟩
  · nofun
  · nofun
  · nofun
  · nofun
  · exact fun dev blockno _ => .inl rfl

end Buffers

end Xv6
