import Xv6.Files.Frame
import Xv6.Kernel.FileSteps
import Xv6.Std.Pieces
import Xv6.Storage.Content

/-!
# Writing through a shared file

`f->off` has no lock of its own. It is read and assigned under the lock of the inode
only, so the pieces that any number of processes write through one `struct file` follow
each other, in whatever order the processes run.
-/

namespace Xv6

open Program Transition Function List Option

variable {Value : Type} {r : Int}

/-- Does a process hold the lock of the inode there? -/
def WritePoint.holds : WritePoint → Bool
  | .inside _ _ .locked | .inside _ _ (.wrote _) | .inside _ _ (.advanced _) => true
  | _ => false

/-- How far `f->off` is behind there. -/
def WritePoint.pending : WritePoint → Nat
  | .inside _ _ (.wrote r) => r.toNat
  | _ => 0

/-- What a call has still to write. -/
def WritePoint.left : WritePoint → List Byte
  | .outside _ => []
  | .inside addr i .loop | .inside addr i .begun | .inside addr i .locked => addr.drop i
  | .inside addr i (.wrote r) | .inside addr i (.advanced r) | .inside addr i (.unlocked r) =>
    addr.drop (i + r.toNat)

/-- There is something to write, and `writei` wrote all of it. -/
def WritePoint.Regular : WritePoint → Prop
  | .outside _ | .inside _ _ .loop => True
  | .inside addr i .begun | .inside addr i .locked => i < addr.length
  | .inside addr i (.wrote r) | .inside addr i (.advanced r) | .inside addr i (.unlocked r) =>
    r = pieceSize addr i

/-- The pieces that were written, with their offsets. -/
def Writers.pieces (writers : Writers) : List (Nat × List Byte) :=
  writers.chunks.map fun chunk => (chunk.off.toNat, chunk.bytes)

/-- All bytes that were written. -/
def Writers.written (writers : Writers) : List Byte := Pieces.join writers.pieces

/-- The bytes that a process wrote. -/
def Writers.writtenBy (writers : Writers) (p : ProcPtr) : List Byte :=
  (writers.chunks.filter fun chunk => chunk.process = p).flatMap Chunk.bytes

/-- The next piece does not exceed the largest size of a file. -/
def Writers.Fits (f : FilePtr) (writers : Writers) : WriteAction → Prop
  | .call _ _ => True
  | .run p =>
    match writers.point p, (writers.kernel.ftable f).type with
    | .inside addr i .locked, .inode _ off => off.toNat + pieceSize addr i ≤ MAXFILE * BSIZE
    | _, _ => True

instance (f : FilePtr) (writers : Writers) (action : WriteAction) :
    Decidable (writers.Fits f action) := by
  unfold Writers.Fits
  split
  · infer_instance
  · split <;> infer_instance

namespace Storage

variable {f : FilePtr} {ip : InodePtr} {off : UInt32} {content : List Byte} {kernel next : Kernel}
  {p : ProcPtr}

/-! ## The steps of one process -/

/-- An open file whose inode is cached. -/
structure Opened (f : FilePtr) (ip : InodePtr) (off : UInt32) (content : List Byte)
    (kernel : Kernel) : Prop where
  type : (kernel.ftable f).type = .inode ip off
  regular : Regular kernel.store ip
  valid : (kernel.icache ip).valid = true
  held : 1 ≤ (kernel.icache ip).ref
  content : kernel.store.content ip = content

theorem Opened.enter (opened : Opened f ip off content kernel) (p : ProcPtr) :
    Opened f ip off content (kernel.enter p) :=
  ⟨opened.type, ⟨opened.regular.owned, opened.regular.used, opened.regular.notDev,
    opened.regular.filled⟩, opened.valid, opened.held, opened.content⟩

/-- File-system code does not write the file table. -/
theorem frame_ftable : Frame (fun before after : Kernel => after.ftable = before.ftable)
    fun _ => True where
  refl _ := rfl
  trans first second := second.trans first
  cache _ _ _ := rfl
  disk _ _ := rfl
  log _ _ _ := rfl
  input _ _ := rfl
  event _ _ _ := rfl
  fault _ _ := trivial

/-- A program that leaves the file table alone, and what it does to the store. -/
theorem sat_of_store {program : Kern Value} {allowed : Fault → Prop} {post : Value → Store → Prop}
    (stores : Stores allowed program kernel.store post)
    (keeps : Keeps (fun before after : Kernel => after.ftable = before.ftable) (fun _ => True)
      program) :
    Sat program kernel (fun value next => post value next.store ∧ next.ftable = kernel.ftable)
      fun _ _ => True :=
  ((stores kernel rfl).and (keeps kernel)).mono (fun _ _ both => both) fun _ _ _ => trivial

section

variable (opened : Opened f ip off content kernel)

include opened

/-- A change of the store that does not touch the file. -/
theorem Opened.same (ftable_eq : next.ftable = kernel.ftable)
    (disk_eq : next.store.disk = kernel.store.disk) (sb_eq : next.store.sb = kernel.store.sb)
    {lock : Option Nat}
    (inode_eq : next.store.icache ip = { kernel.store.icache ip with lock := lock }) :
    Opened f ip off content next := by
  have flushed_eq : next.store.flushed ip = kernel.store.flushed ip := by
    unfold Store.flushed
    rw [disk_eq, inode_eq]
  have file_eq : next.store.file ip = kernel.store.file ip := by
    unfold Store.file
    rw [flushed_eq, inode_eq]
  have inode_eq' : next.icache ip = { kernel.icache ip with lock := lock } := inode_eq
  constructor
  · rw [ftable_eq]
    exact opened.type
  · refine ⟨?_, ?_, ?_, ?_⟩
    · rw [flushed_eq, sb_eq]
      exact opened.regular.owned
    · rw [inode_eq]
      exact opened.regular.used
    · rw [inode_eq]
      exact opened.regular.notDev
    · unfold Filled
      rw [file_eq, inode_eq]
      exact opened.regular.filled
  · rw [inode_eq']
    exact opened.valid
  · rw [inode_eq']
    exact opened.held
  · unfold Store.content
    rw [file_eq, inode_eq]
    exact opened.content

theorem Opened.outstanding (ftable_eq : next.ftable = kernel.ftable) {count : Int}
    (store_eq : next.store = { kernel.store with outstanding := count }) :
    Opened f ip off content next ∧ (next.icache ip).lock = (kernel.icache ip).lock := by
  have icache_eq : next.store.icache = kernel.store.icache := by rw [store_eq]
  have inode_eq : next.store.icache ip =
      { kernel.store.icache ip with lock := (kernel.store.icache ip).lock } :=
    congrFun icache_eq ip
  refine ⟨opened.same ftable_eq ?_ ?_ inode_eq, congrArg Inode.lock inode_eq⟩
  · rw [store_eq]
  · rw [store_eq]

theorem opened_beginOp :
    Sat beginOp kernel (fun _ next => Opened f ip off content next ∧
      (next.icache ip).lock = (kernel.icache ip).lock) fun _ _ => True :=
  (sat_of_store stores_beginOp frame_ftable.beginOp).weaken fun _ _ both =>
    opened.outstanding both.2 both.1

theorem opened_endOp :
    Sat endOp kernel (fun _ next => Opened f ip off content next ∧
      (next.icache ip).lock = (kernel.icache ip).lock) fun _ _ => True :=
  (sat_of_store stores_endOp frame_ftable.endOp).weaken fun _ _ both =>
    opened.outstanding both.2 both.1

/-- `ilock` waits until nobody holds the lock. -/
theorem opened_ilock :
    Sat (ilock ip) kernel (fun _ next => Opened f ip off content next ∧
      (kernel.icache ip).lock = none ∧ (next.icache ip).lock ≠ none) fun _ _ => True := by
  have stores : Stores (fun _ => True) (ilock ip) kernel.store _ :=
    stores_ilock (.inl trivial) (lockable_any _ ip) (.inl trivial)
  refine (sat_of_store stores (frame_ftable.ilock ip)).weaken ?_
  rintro _ next ⟨⟨_, unlocked, _, store_eq⟩, ftable_eq⟩
  have valid : (kernel.store.icache ip).valid = true := opened.valid
  have current_eq : kernel.store.current ip = (kernel.store.icache ip).toDinode := if_pos valid
  have inode_eq : next.store.icache ip =
      { kernel.store.icache ip with lock := some kernel.store.me.pid } := by
    rw [store_eq]
    unfold Store.load
    rw [icache_setInode_self, current_eq, ← valid]
  refine ⟨opened.same ftable_eq ?_ ?_ inode_eq, unlocked, ?_⟩
  · rw [store_eq]
    rfl
  · rw [store_eq]
    rfl
  · change (next.store.icache ip).lock ≠ none
    rw [inode_eq]
    exact some_ne_none _

theorem opened_iunlock :
    Sat (iunlock ip) kernel (fun _ next => Opened f ip off content next ∧
      (next.icache ip).lock = none) fun _ _ => True := by
  have stores : Stores (fun _ => True) (iunlock ip) kernel.store _ := stores_iunlock ip (.inl trivial)
  refine (sat_of_store stores (frame_ftable.iunlock ip)).weaken ?_
  rintro _ next ⟨⟨_, store_eq⟩, ftable_eq⟩
  have inode_eq : next.store.icache ip = { kernel.store.icache ip with lock := none } := by
    rw [store_eq]
    exact icache_setInode_self ip _
  refine ⟨opened.same ftable_eq ?_ ?_ inode_eq, ?_⟩
  · rw [store_eq]
    rfl
  · rw [store_eq]
    rfl
  · change (next.store.icache ip).lock = none
    rw [inode_eq]

/-- `writei` at the end of the file appends. -/
theorem opened_writei {n : Nat} (src : Nat → Byte) (at_end : content.length = off.toNat)
    (fits : off.toNat + n ≤ MAXFILE * BSIZE) :
    Sat (writei ip src off (.ofNat n)) kernel (fun r next => r = n ∧
      Opened f ip off (content ++ (List.range n).map src) next ∧
      (next.icache ip).lock = (kernel.icache ip).lock) fun _ _ => True := by
  have tolerant : Tolerant (fun _ => True) kernel.store.outstanding := ⟨trivial, trivial, .inr trivial⟩
  have size_eq : (kernel.store.icache ip).size.toNat = off.toNat := by
    rw [← length_content_eq, opened.content, at_end]
  have n_eq : (UInt32.ofNat n).toNat = n := by
    change off.toNat + n ≤ 71680 at fits
    have small : n < 2 ^ 32 := by omega
    exact UInt32.toNat_ofNat_of_lt' small
  refine (sat_of_store (stores_writei tolerant opened.regular.owned opened.regular.used
    opened.regular.notDev src off (.ofNat n)) (frame_ftable.writei ip src off _)).weaken ?_
  rintro r next ⟨refused | ⟨_, returned, wrote⟩, ftable_eq⟩
  · change off.toNat + n ≤ 71680 at fits
    have refuses := refused.1
    unfold refusesWrite at refuses
    rw [size_eq, n_eq] at refuses
    change _ ∨ _ ∨ 71680 < _ at refuses
    omega
  · have self := wrote.self
    have inside : off.toNat ≤ (kernel.store.icache ip).size.toNat := size_eq.ge
    rw [n_eq] at returned
    have lock_eq : (next.store.icache ip).lock = (kernel.store.icache ip).lock := by rw [self]
    have valid_eq : (next.store.icache ip).valid = (kernel.store.icache ip).valid := by rw [self]
    have ref_eq : (next.store.icache ip).ref = (kernel.store.icache ip).ref := by rw [self]
    refine ⟨returned, ⟨?_, wrote.regular opened.regular inside, valid_eq.trans opened.valid,
      opened.held.trans_eq ref_eq.symm, ?_⟩, lock_eq⟩
    · rw [ftable_eq]
      exact opened.type
    · rw [wrote.content inside, n_eq, opened.content, ← at_end, take_length,
        drop_eq_nil_of_le (Nat.le_add_right _ _), append_nil]

/-- The assignment to `f->off`. -/
theorem opened_seek (off' : UInt32) :
    Opened f ip off' content (kernel.updateFile f (File.seek · ip off')) := by
  refine ⟨?_, opened.regular, opened.valid, opened.held, opened.content⟩
  have referenced : (kernel.ftable f).ref ≠ 0 := by
    intro unused
    have none := (kernel.ftable f).unused unused
    rw [opened.type] at none
    cases none
  change (update kernel.ftable f _ f).type = _
  rw [update_self]
  exact if_neg referenced

theorem sat_onInode {body : InodePtr → UInt32 → Kern Value} {post : Value → Kernel → Prop}
    {fault : Fault → Kernel → Prop} (sat : Sat (body ip off) kernel post fault) :
    Sat (onInode f body) kernel post fault := by
  unfold onInode
  rw [sat_bind, sat_get, opened.type]
  exact sat

end

/-! ## The record -/

section Record

variable {writers writers' : Writers} {chunk : Chunk}

section

variable (chunks_eq : writers'.chunks = writers.chunks ++ [chunk])

include chunks_eq

theorem pieces_concat : writers'.pieces = writers.pieces ++ [(chunk.off.toNat, chunk.bytes)] := by
  simp [Writers.pieces, chunks_eq]

theorem written_concat : writers'.written = writers.written ++ chunk.bytes := by
  simp [Writers.written, pieces_concat chunks_eq, Pieces.join]

theorem writtenBy_concat (q : ProcPtr) :
    writers'.writtenBy q = writers.writtenBy q ++ if chunk.process = q then chunk.bytes else [] := by
  by_cases own : chunk.process = q <;> simp [Writers.writtenBy, chunks_eq, filter_append, own]

end

end Record

/-! ## The invariant -/

/-- What holds at every moment: the pieces make up the file, `f->off` is behind its end
only while a process that holds the lock has to advance it, and the pieces of a process
are what it asked for, as far as it got. -/
structure Shared (f : FilePtr) (ip : InodePtr) (writers : Writers) : Prop where
  opened : ∃ off, Opened f ip off writers.written writers.kernel ∧
    (∀ p, (writers.point p).holds = true →
      off.toNat + (writers.point p).pending = writers.written.length) ∧
    ((∀ p, (writers.point p).holds = false) → off.toNat = writers.written.length)
  consecutive : Pieces.Consecutive 0 writers.pieces
  alone : ∀ p q, (writers.point p).holds = true → (writers.point q).holds = true → p = q
  locked : ∀ p, (writers.point p).holds = true → (writers.kernel.icache ip).lock ≠ none
  regular : ∀ p, (writers.point p).Regular
  account : ∀ p, writers.asked p = writers.writtenBy p ++ (writers.point p).left

/-- One process moves on. -/
structure Moved (f : FilePtr) (ip : InodePtr) (p : ProcPtr) (point : WritePoint) (off : UInt32)
    (before after : Writers) : Prop where
  points : after.point = Function.update before.point p point
  opened : Opened f ip off after.written after.kernel
  consecutive : Pieces.Consecutive 0 after.pieces
  regular : point.Regular
  account : after.asked p = after.writtenBy p ++ point.left
  others : ∀ q, q ≠ p → after.asked q = before.asked q ∧ after.writtenBy q = before.writtenBy q

section Moved

variable {point : WritePoint} {writers writers' : Writers}

theorem Moved.regulars (moved : Moved f ip p point off writers writers') (shared : Shared f ip writers) :
    (∀ q, (writers'.point q).Regular) ∧
      ∀ q, writers'.asked q = writers'.writtenBy q ++ (writers'.point q).left := by
  rw [moved.points]
  constructor
  · intro q
    by_cases own : q = p
    · rw [own, update_self]
      exact moved.regular
    · rw [update_of_ne own]
      exact shared.regular q
  · intro q
    by_cases own : q = p
    · rw [own, update_self]
      exact moved.account
    · rw [update_of_ne own, (moved.others q own).1, (moved.others q own).2]
      exact shared.account q

/-- The process that moves holds the lock. -/
theorem Moved.holding (moved : Moved f ip p point off writers writers')
    (shared : Shared f ip writers)
    (at_end : off.toNat + point.pending = writers'.written.length)
    (locked : (writers'.kernel.icache ip).lock ≠ none) (holds : point.holds = true)
    (nobody : ∀ q, q ≠ p → (writers.point q).holds = false) : Shared f ip writers' := by
  have only : ∀ q, (writers'.point q).holds = true → q = p := by
    intro q holding
    by_contra other
    rw [moved.points, update_of_ne other, nobody q other] at holding
    cases holding
  have own : writers'.point p = point := by rw [moved.points, update_self]
  refine ⟨⟨off, moved.opened, ?_, ?_⟩, moved.consecutive, ?_, ?_, (moved.regulars shared).1,
    (moved.regulars shared).2⟩
  · intro q holding
    rw [only q holding, own]
    exact at_end
  · intro free
    have := free p
    rw [own, holds] at this
    cases this
  · intro q q' holding holding'
    rw [only q holding, only q' holding']
  · exact fun _ _ => locked

/-- The process that moves does not hold the lock. -/
theorem Moved.aside (moved : Moved f ip p point off writers writers') (shared : Shared f ip writers)
    (free : point.holds = false)
    (behind : ∀ q, q ≠ p → (writers.point q).holds = true →
      off.toNat + (writers.point q).pending = writers'.written.length ∧
        (writers'.kernel.icache ip).lock ≠ none)
    (at_end : (∀ q, q ≠ p → (writers.point q).holds = false) →
      off.toNat = writers'.written.length) : Shared f ip writers' := by
  have other : ∀ q, (writers'.point q).holds = true →
      q ≠ p ∧ writers'.point q = writers.point q := by
    intro q holding
    have ne : q ≠ p := by
      rintro rfl
      rw [moved.points, update_self, free] at holding
      cases holding
    exact ⟨ne, by rw [moved.points, update_of_ne ne]⟩
  refine ⟨⟨off, moved.opened, ?_, ?_⟩, moved.consecutive, ?_, ?_, (moved.regulars shared).1,
    (moved.regulars shared).2⟩
  · intro q holding
    obtain ⟨ne, same⟩ := other q holding
    rw [same] at holding ⊢
    exact (behind q ne holding).1
  · intro nobody
    refine at_end fun q ne => ?_
    have := nobody q
    rwa [moved.points, update_of_ne ne] at this
  · intro q q' holding holding'
    rw [(other q holding).2] at holding
    rw [(other q' holding').2] at holding'
    exact shared.alone q q' holding holding'
  · intro q holding
    obtain ⟨ne, same⟩ := other q holding
    rw [same] at holding
    exact (behind q ne holding).2

end Moved

/-! ## Steps -/

theorem perform_eq_some {writers last : Writers} {program : Kern Value}
    {continue_ : Value → Writers → Option Writers} :
    writers.perform p program continue_ = some last ↔
      ∃ value kernel, program (writers.kernel.enter p) = .ok value kernel ∧
        continue_ value { writers with kernel := kernel } = some last := by
  unfold Writers.perform
  rw [bind_eq_some_iff]
  constructor
  · rintro ⟨⟨value, kernel⟩, returned, continued⟩
    exact ⟨value, kernel, outcome_eq_some.mp returned, continued⟩
  · rintro ⟨value, kernel, returned, continued⟩
    exact ⟨(value, kernel), outcome_eq_some.mpr returned, continued⟩

/-- The bytes that `writei` copies. -/
theorem range_map_getD (bytes : List Byte) {n : Nat} (within : n ≤ bytes.length) :
    (List.range n).map (fun k => bytes.getD k 0) = bytes.take n := by
  apply ext_getElem?
  intro k
  by_cases inside : k < n
  · simp [inside, List.getElem?_eq_getElem (inside.trans_le within)]
  · simp [inside]

section Steps

variable {writers last : Writers} {addr : List Byte} {i : Nat}

/-- A process that neither has nor takes the lock goes on in the same file. -/
theorem Shared.aside (shared : Shared f ip writers) {point : WritePoint} {kernel : Kernel}
    (before : (writers.point p).holds = false) (after : point.holds = false)
    (regular : point.Regular) (left_eq : point.left = (writers.point p).left)
    (opened : ∀ off, Opened f ip off writers.written writers.kernel →
      Opened f ip off writers.written kernel)
    (lock_eq : (kernel.icache ip).lock = (writers.kernel.icache ip).lock) :
    Shared f ip ({ writers with kernel := kernel }.goto p point) := by
  obtain ⟨off, open_, behind, at_end⟩ := shared.opened
  have moved : Moved f ip p point off writers ({ writers with kernel := kernel }.goto p point) := by
    refine ⟨rfl, opened off open_, shared.consecutive, regular, ?_, fun q _ => ⟨rfl, rfl⟩⟩
    rw [left_eq]
    exact shared.account p
  refine moved.aside shared after ?_ ?_
  · intro q _ holding
    refine ⟨behind q holding, ?_⟩
    change (kernel.icache ip).lock ≠ none
    rw [lock_eq]
    exact shared.locked q holding
  · intro nobody
    refine at_end fun q => ?_
    by_cases own : q = p
    · rw [own, before]
    · exact nobody q own

theorem Shared.loop (shared : Shared f ip writers) (point_eq : writers.point p = .inside addr i .loop)
    (turn : writers.turn f p addr i .loop = some last) : Shared f ip last := by
  have before : (writers.point p).holds = false := by rw [point_eq]; rfl
  rw [Writers.turn] at turn
  by_cases inside : i < addr.length
  · rw [if_pos inside] at turn
    obtain ⟨_, kernel, returned, continued⟩ := perform_eq_some.mp turn
    cases continued
    obtain ⟨off, open_, _⟩ := shared.opened
    refine shared.aside before rfl inside (by rw [point_eq]; rfl) ?_
      ((opened_beginOp (open_.enter p)).ok returned).2
    intro off open_
    exact ((opened_beginOp (open_.enter p)).ok returned).1
  · rw [if_neg inside] at turn
    cases turn
    have moved := @Shared.aside f ip p writers shared (.outside (some (writeResult addr i)))
      writers.kernel before rfl trivial
    refine moved ?_ (fun _ open_ => open_) rfl
    rw [point_eq]
    exact (drop_eq_nil_of_le (not_lt.mp inside)).symm

theorem Shared.begun (shared : Shared f ip writers)
    (point_eq : writers.point p = .inside addr i .begun)
    (turn : writers.turn f p addr i .begun = some last) : Shared f ip last := by
  rw [Writers.turn] at turn
  obtain ⟨_, kernel, returned, continued⟩ := perform_eq_some.mp turn
  cases continued
  obtain ⟨off, open_, behind, at_end⟩ := shared.opened
  have entered := open_.enter p
  obtain ⟨opened, unlocked, locked⟩ := (sat_onInode entered (opened_ilock entered)).ok returned
  -- Nobody holds the lock that `ilock` found free, so `f->off` is at the end.
  have nobody : ∀ q, (writers.point q).holds = false := by
    intro q
    by_contra holding
    exact shared.locked q (Bool.not_eq_false _ ▸ holding) unlocked
  have regular : (writers.point p).Regular := shared.regular p
  have account := shared.account p
  rw [point_eq] at regular account
  have moved : Moved f ip p (.inside addr i .locked) off writers
      ({ writers with kernel := kernel }.goto p (.inside addr i .locked)) :=
    ⟨rfl, opened, shared.consecutive, regular, account, fun q _ => ⟨rfl, rfl⟩⟩
  exact moved.holding shared (at_end nobody) locked rfl fun q _ => nobody q

theorem Shared.holder (shared : Shared f ip writers) (holds : (writers.point p).holds = true) :
    ∀ q, q ≠ p → (writers.point q).holds = false := by
  intro q other
  by_contra holding
  exact other (shared.alone q p (Bool.not_eq_false _ ▸ holding) holds)

theorem pieceSize_le (addr : List Byte) (i : Nat) : pieceSize addr i ≤ (addr.drop i).length := by
  rw [length_drop]
  exact Nat.min_le_left _ _

theorem Shared.write (shared : Shared f ip writers)
    (point_eq : writers.point p = .inside addr i .locked) (fits : writers.Fits f (.run p))
    (turn : writers.turn f p addr i .locked = some last) : Shared f ip last := by
  rw [Writers.turn] at turn
  obtain ⟨⟨_, r⟩, kernel, returned, continued⟩ := perform_eq_some.mp turn
  obtain ⟨off, open_, behind, _⟩ := shared.opened
  have holds : (writers.point p).holds = true := by rw [point_eq]; rfl
  have at_end : off.toNat = writers.written.length := by
    have := behind p holds
    rwa [point_eq] at this
  have entered := open_.enter p
  have small : off.toNat + pieceSize addr i ≤ MAXFILE * BSIZE := by
    unfold Writers.Fits at fits
    simp only [point_eq, open_.type] at fits
    exact fits
  have written : Sat (writei ip (fun k => (addr.drop i).getD k 0) off (.ofNat (pieceSize addr i)) >>=
      fun r => pure (off, r)) (writers.kernel.enter p)
      (fun result next => result = (off, (pieceSize addr i : Int)) ∧
        Opened f ip off (writers.written ++ (addr.drop i).take (pieceSize addr i)) next ∧
        (next.icache ip).lock = (writers.kernel.icache ip).lock) fun _ _ => True := by
    refine (opened_writei entered _ at_end.symm small).bind ?_
    rintro r next ⟨rfl, opened, lock_eq⟩
    rw [range_map_getD _ (pieceSize_le addr i)] at opened
    exact ⟨rfl, opened, lock_eq⟩
  obtain ⟨result, opened, lock_eq⟩ := (sat_onInode entered written).ok returned
  have regular : i < addr.length := by
    have := shared.regular p
    rwa [point_eq] at this
  have positive : (0 : Int) < (pieceSize addr i : Int) := by
    have : 0 < writeMax := by decide
    unfold pieceSize
    omega
  have length_eq : ((addr.drop i).take (pieceSize addr i)).length = pieceSize addr i :=
    length_take_of_le (pieceSize_le addr i)
  have account := shared.account p
  rw [point_eq] at account
  rw [result] at continued
  dsimp only at continued
  rw [if_pos positive, Int.toNat_natCast] at continued
  have last_eq := Option.some.inj continued
  have chunks_eq : last.chunks =
      writers.chunks ++ [⟨p, off, (addr.drop i).take (pieceSize addr i)⟩] := by
    rw [← last_eq]
  have asked_eq : last.asked = writers.asked := by
    rw [← last_eq]
    rfl
  have kernel_eq : last.kernel = kernel := by
    rw [← last_eq]
    rfl
  have moved : Moved f ip p (.inside addr i (.wrote (pieceSize addr i))) off writers last := by
    constructor
    · rw [← last_eq]
      rfl
    · rw [written_concat chunks_eq, kernel_eq]
      exact opened
    · rw [pieces_concat chunks_eq]
      refine shared.consecutive.concat ?_ _
      rw [Nat.zero_add]
      exact at_end
    · exact rfl
    · rw [writtenBy_concat chunks_eq, if_pos rfl, asked_eq, account, append_assoc]
      congr 1
      change addr.drop i = _ ++ addr.drop (i + (pieceSize addr i : Int).toNat)
      rw [Int.toNat_natCast, ← drop_drop, take_append_drop]
    · intro q other
      rw [asked_eq, writtenBy_concat chunks_eq, if_neg (Ne.symm other), append_nil]
      exact ⟨rfl, rfl⟩
  refine moved.holding shared ?_ ?_ rfl (shared.holder holds)
  · rw [written_concat chunks_eq, length_append, length_eq, at_end]
    rfl
  · rw [kernel_eq, lock_eq]
    exact shared.locked p holds

section

variable (shared : Shared f ip writers)

include shared

theorem Shared.advance (point_eq : writers.point p = .inside addr i (.wrote r))
    (turn : writers.turn f p addr i (.wrote r) = some last) : Shared f ip last := by
  rw [Writers.turn] at turn
  obtain ⟨_, kernel, returned, continued⟩ := perform_eq_some.mp turn
  obtain ⟨off, open_, behind, _⟩ := shared.opened
  have holds : (writers.point p).holds = true := by rw [point_eq]; rfl
  have at_end : off.toNat + r.toNat = writers.written.length := by
    have := behind p holds
    rwa [point_eq] at this
  have regular : (writers.point p).Regular := shared.regular p
  have account := shared.account p
  rw [point_eq] at regular account
  have entered := open_.enter p
  have sum_eq : (off + UInt32.ofNat r.toNat).toNat = off.toNat + r.toNat := by
    have size_lt : writers.written.length < 2 ^ 32 := by
      rw [← open_.content, length_content_eq]
      exact UInt32.toNat_lt _
    have piece_eq : (UInt32.ofNat r.toNat).toNat = r.toNat :=
      UInt32.toNat_ofNat_of_lt' (show r.toNat < 2 ^ 32 by omega)
    rw [UInt32.toNat_add, piece_eq]
    exact Nat.mod_eq_of_lt (by omega)
  have sought : Sat (when (0 < r) (modify (·.updateFile f (File.seek · ip (off + .ofNat r.toNat)))) :
      Kern Unit) (writers.kernel.enter p)
      (fun _ next => (∃ off', Opened f ip off' writers.written next ∧
        off'.toNat = writers.written.length) ∧
        (next.icache ip).lock = (writers.kernel.icache ip).lock) fun _ _ => True := by
    unfold when
    by_cases positive : 0 < r
    · rw [if_pos positive, sat_modify]
      exact ⟨⟨_, opened_seek entered _, sum_eq.trans at_end⟩, rfl⟩
    · rw [if_neg positive, sat_pure]
      exact ⟨⟨off, entered, by omega⟩, rfl⟩
  obtain ⟨⟨off', opened, end_eq⟩, lock_eq⟩ := (sat_onInode entered sought).ok returned
  cases continued
  have moved : Moved f ip p (.inside addr i (.advanced r)) off' writers
      ({ writers with kernel := kernel }.goto p (.inside addr i (.advanced r))) :=
    ⟨rfl, opened, shared.consecutive, regular, account, fun q _ => ⟨rfl, rfl⟩⟩
  refine moved.holding shared end_eq ?_ rfl (shared.holder holds)
  change (kernel.icache ip).lock ≠ none
  rw [lock_eq]
  exact shared.locked p holds

theorem Shared.release (point_eq : writers.point p = .inside addr i (.advanced r))
    (turn : writers.turn f p addr i (.advanced r) = some last) : Shared f ip last := by
  rw [Writers.turn] at turn
  obtain ⟨_, kernel, returned, continued⟩ := perform_eq_some.mp turn
  cases continued
  obtain ⟨off, open_, behind, _⟩ := shared.opened
  have holds : (writers.point p).holds = true := by rw [point_eq]; rfl
  have at_end : off.toNat = writers.written.length := by
    have := behind p holds
    rwa [point_eq] at this
  have entered := open_.enter p
  obtain ⟨opened, _⟩ := (sat_onInode entered (opened_iunlock entered)).ok returned
  have regular : (writers.point p).Regular := shared.regular p
  have account := shared.account p
  rw [point_eq] at regular account
  have moved : Moved f ip p (.inside addr i (.unlocked r)) off writers
      ({ writers with kernel := kernel }.goto p (.inside addr i (.unlocked r))) :=
    ⟨rfl, opened, shared.consecutive, regular, account, fun q _ => ⟨rfl, rfl⟩⟩
  refine moved.aside shared rfl ?_ fun _ => at_end
  intro q other holding
  rw [shared.holder holds q other] at holding
  cases holding

theorem Shared.finish (point_eq : writers.point p = .inside addr i (.unlocked r))
    (turn : writers.turn f p addr i (.unlocked r) = some last) : Shared f ip last := by
  rw [Writers.turn] at turn
  obtain ⟨_, kernel, returned, continued⟩ := perform_eq_some.mp turn
  have before : (writers.point p).holds = false := by rw [point_eq]; rfl
  have regular : (writers.point p).Regular := shared.regular p
  rw [point_eq] at regular
  have size_eq : r = pieceSize addr i := regular
  rw [if_neg (by omega), if_neg (not_not_intro size_eq)] at continued
  cases continued
  obtain ⟨off, open_, _⟩ := shared.opened
  refine shared.aside before rfl trivial (by rw [point_eq]; rfl) ?_
    ((opened_endOp (open_.enter p)).ok returned).2
  intro off open_
  exact ((opened_endOp (open_.enter p)).ok returned).1

theorem Shared.call (call : writers.call f p addr = some last) : Shared f ip last := by
  have account := shared.account p
  unfold Writers.call at call
  cases point_eq : writers.point p with
  | inside addr i stage =>
    rw [point_eq] at call
    cases call
  | outside result =>
    rw [point_eq] at call account
    have before : (writers.point p).holds = false := by rw [point_eq]; rfl
    obtain ⟨off, open_, behind, at_end⟩ := shared.opened
    dsimp only at call
    rw [open_.type] at call
    split at call
    · cases call
      have moved := @Shared.aside f ip p writers shared (.outside (some (-1))) writers.kernel before
        rfl trivial
      exact moved (by rw [point_eq]; rfl) (fun _ open_ => open_) rfl
    · have last_eq := Option.some.inj call
      have moved : Moved f ip p (.inside addr 0 .loop) off writers last := by
        rw [← last_eq]
        refine ⟨rfl, open_, shared.consecutive, trivial, ?_, ?_⟩
        · have asked : update writers.asked p (writers.asked p ++ addr) p =
              writers.asked p ++ addr := update_self ..
          exact asked.trans (congrArg (· ++ addr) (account.trans (append_nil _)))
        · intro q other
          exact ⟨update_of_ne other _ _, rfl⟩
      refine moved.aside shared rfl ?_ ?_
      · intro q _ holding
        rw [← last_eq]
        exact ⟨behind q holding, shared.locked q holding⟩
      · intro nobody
        rw [← last_eq]
        refine at_end fun q => ?_
        by_cases own : q = p
        · rw [own, before]
        · exact nobody q own

end

/-- Every step keeps the invariant. -/
theorem Shared.step (shared : Shared f ip writers) {action : WriteAction}
    (fits : writers.Fits f action) (step : writers.step f action = some last) :
    Shared f ip last := by
  cases action with
  | call p addr => exact shared.call step
  | run p =>
    rw [Writers.step] at step
    cases point_eq : writers.point p with
    | outside result =>
      rw [point_eq] at step
      cases step
    | inside addr i stage =>
      rw [point_eq] at step
      cases stage with
      | loop => exact shared.loop point_eq step
      | begun => exact shared.begun point_eq step
      | locked => exact shared.write point_eq fits step
      | wrote r => exact shared.advance point_eq step
      | advanced r => exact shared.release point_eq step
      | unlocked r => exact shared.finish point_eq step

end Steps

/-- A file that was opened, whose inode is empty and not locked. -/
structure Fresh (f : FilePtr) (ip : InodePtr) (kernel : Kernel) : Prop where
  type : (kernel.ftable f).type = .inode ip 0
  empty : Empty kernel.store ip
  valid : (kernel.icache ip).valid = true
  held : 1 ≤ (kernel.icache ip).ref

theorem Fresh.shared (fresh : Fresh f ip kernel) : Shared f ip (.start kernel) where
  opened := by
    refine ⟨0, ⟨fresh.type, fresh.empty.regular, fresh.valid, fresh.held, fresh.empty.content⟩, ?_,
      fun _ => rfl⟩
    intro p holding
    cases holding
  consecutive := trivial
  alone p q holding := by cases holding
  locked p holding := by cases holding
  regular _ := trivial
  account _ := rfl

theorem shared_of_run {actions : List WriteAction} {last : Writers} (fresh : Fresh f ip kernel)
    (run : Steps (Guarded (fun writers action next => writers.step f action = some next)
      (Writers.Fits f)) (.start kernel) actions last) : Shared f ip last := by
  induction run with
  | refl => exact fresh.shared
  | step _ transition ih => exact ih.step transition.1 transition.2

/-- However many processes write through one file that was empty, and however their
calls of `filewrite` interleave: the pieces that they write follow each other from
offset 0 on and do not overlap, each of them is in the file at its offset, the size of
the file is the number of the bytes written, and so is `f->off` when all calls have
returned. What a process wrote is what it asked for, as far as it got. -/
theorem shared_file_loses_nothing {actions : List WriteAction} {last : Writers}
    (fresh : Fresh f ip kernel)
    (run : Steps (Guarded (fun writers action next => writers.step f action = some next)
      (Writers.Fits f)) (.start kernel) actions last) :
    Pieces.Consecutive 0 last.pieces ∧
    (last.pieces.Pairwise fun piece later => piece.1 + piece.2.length ≤ later.1) ∧
    last.kernel.store.content ip = last.written ∧
    (∀ piece ∈ last.pieces,
      ((last.kernel.store.content ip).drop piece.1).take piece.2.length = piece.2) ∧
    (last.kernel.icache ip).size.toNat = last.written.length ∧
    (∀ p, last.asked p = last.writtenBy p ++ (last.point p).left) ∧
    ((∀ p, ∃ result, last.point p = .outside result) →
      (∃ off, (last.kernel.ftable f).type = .inode ip off ∧ off.toNat = last.written.length) ∧
      ∀ p, last.asked p = last.writtenBy p) := by
  have shared := shared_of_run fresh run
  obtain ⟨off, opened, _, at_end⟩ := shared.opened
  refine ⟨shared.consecutive, shared.consecutive.disjoint, opened.content, ?_, ?_, shared.account, ?_⟩
  · intro piece member
    rw [opened.content]
    exact shared.consecutive.slice member
  · rw [← opened.content]
    exact (length_content_eq last.kernel.store ip).symm
  · intro outside
    refine ⟨⟨off, opened.type, at_end fun p => ?_⟩, fun p => ?_⟩
    · obtain ⟨result, point_eq⟩ := outside p
      rw [point_eq]
      rfl
    · obtain ⟨result, point_eq⟩ := outside p
      rw [shared.account p, point_eq]
      exact append_nil _

/-! ## An example -/

/-- A file of an empty inode, shared by the processes 0 and 1. -/
def sharedFile : Kernel :=
  let kernel := emptyFile
  let file : File :=
    { type := .inode 1 0, ref := 2, readable := false, writable := true, unused := nofun }
  { kernel with ftable := Function.update kernel.ftable 0 file }

/-- Process 1 starts while process 0 is between `writei` and the assignment to `f->off`. -/
def twoWriters : List WriteAction :=
  [.call 0 [104, 105], .run 0, .run 0, .run 0, .call 1 [33], .run 1, .run 0, .run 0, .run 1, .run 1,
    .run 0, .run 0, .run 1, .run 1, .run 1, .run 1]

theorem fresh_sharedFile : Fresh 0 1 sharedFile where
  type := by decide
  empty := ⟨empty_emptyFile.owned, empty_emptyFile.used, empty_emptyFile.notDev, empty_emptyFile.empty⟩
  valid := by decide
  held := by decide

theorem shared_file_loses_nothing_twoWriters : ∃ last,
    Steps (Guarded (fun writers action next => writers.step 0 action = some next)
      (Writers.Fits 0)) (.start sharedFile) twoWriters last ∧
    last.kernel.store.content 1 = [104, 105, 33] := by
  have evaluated : (follow (Writers.step 0) (Writers.Fits 0) (.start sharedFile) twoWriters).any
      (fun last => decide (last.written = [104, 105, 33])) = true := by
    decide +kernel
  obtain ⟨reached, facts⟩ := (any_eq_true_iff_get _ _).mp evaluated
  have run := Steps.of_follow (some_get reached).symm
  have settled := shared_file_loses_nothing fresh_sharedFile run
  exact ⟨_, run, settled.2.2.1.trans (of_decide_eq_true facts)⟩

end Storage

end Xv6
