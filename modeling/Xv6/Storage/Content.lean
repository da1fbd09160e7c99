import Xv6.Kernel.Boot
import Xv6.Semantics.Transition
import Xv6.Storage.Transfer

/-!
# Files as byte sequences

`readi` and `writei` implement a sequence of bytes that is read and overwritten
in ranges. An inode that was empty once, and was written with `writei` ever
since, contains exactly what the same writes make of the empty sequence; the
block structure below it shows only when the disk or the log is full.
-/

namespace Xv6

open Program Transition Function Option

/-! ## Byte sequences -/

/-- What a read of a range returns: nothing if the range starts past the end or
wraps around, and what there is of it otherwise. -/
def readBytes (content : List Byte) (off n : UInt32) : Option (List Byte) :=
  if content.length < off.toNat ∨ 2 ^ 32 ≤ off.toNat + n.toNat then none
  else some ((content.drop off.toNat).take n.toNat)

/-- What a write of a range leaves, unless it is refused. -/
def writeBytes (content : List Byte) (src : Nat → Byte) (off n : UInt32) : Option (List Byte) :=
  if content.length < off.toNat ∨ 2 ^ 32 ≤ off.toNat + n.toNat ∨
      MAXFILE * BSIZE < off.toNat + n.toNat then none
  else some (content.take off.toNat ++ (List.range n.toNat).map src ++
    content.drop (off.toNat + n.toNat))

/-! ## Runs of writes -/

/-- What a process does with one inode and with the log. -/
inductive Access where
  | write (src : Nat → Byte) (off n : UInt32)
  | beginOp
  | endOp

def Access.run (ip : InodePtr) : Access → Kern Unit
  | .write src off n => do let _ ← writei ip src off n
  | .beginOp => Xv6.beginOp
  | .endOp => Xv6.endOp

/-- What an access makes of the bytes. -/
def Access.apply (content : List Byte) : Access → List Byte
  | .write src off n => (writeBytes content src off n).getD content
  | .beginOp => content
  | .endOp => content

/-- The accesses that return. -/
def Kernel.access (ip : InodePtr) (kernel : Kernel) (label : Access) : Option Kernel :=
  (outcome (label.run ip) kernel).map Prod.snd

/-- The bytes of an inode on the disk. -/
def Disk.content (disk : Disk) (inum : Nat) : List Byte :=
  Sparse.content BSIZE (disk.file inum) (disk.dinode inum).size.toNat

namespace Storage

variable {allowed : Fault → Prop} {store before after : Store} {ip : InodePtr}

/-- A cached file or directory without holes, on a disk whose blocks are owned. -/
structure Regular (store : Store) (ip : InodePtr) : Prop where
  owned : (store.flushed ip).Owned store.sb
  used : (store.icache ip).type ≠ .free
  notDev : (store.icache ip).type ≠ .dev
  filled : Filled store ip

/-- An empty file or directory. -/
structure Empty (store : Store) (ip : InodePtr) : Prop where
  owned : (store.flushed ip).Owned store.sb
  used : (store.icache ip).type ≠ .free
  notDev : (store.icache ip).type ≠ .dev
  empty : (store.icache ip).size = 0

theorem Empty.regular (empty : Empty store ip) : Regular store ip where
  owned := empty.owned
  used := empty.used
  notDev := empty.notDev
  filled bn below := by
    rw [empty.empty] at below
    exact absurd below (Nat.not_lt_zero _)

theorem Empty.content (empty : Empty store ip) : store.content ip = [] := by
  rw [← List.length_eq_zero_iff]
  exact (Sparse.length_content _).trans (congrArg UInt32.toNat empty.empty)

theorem length_content_eq (store : Store) (ip : InodePtr) :
    (store.content ip).length = (store.icache ip).size.toNat :=
  Sparse.length_content _

/-- Nothing that belongs to another inode differs. -/
structure Untouched (ip : InodePtr) (before after : Store) : Prop where
  cached : ∀ ip', ip' ≠ ip → after.icache ip' = before.icache ip'
  dinode : ∀ inum, inum ≠ (before.icache ip).inum →
    after.disk.dinode inum = before.disk.dinode inum
  content : ∀ inum, inum ≠ (before.icache ip).inum →
    after.disk.content inum = before.disk.content inum

/-! ## One write -/

variable {off n : UInt32} {src : Nat → Byte}

section

variable (wrote : Wrote ip off.toNat n.toNat src before after)

include wrote

theorem Wrote.inum : (after.icache ip).inum = (before.icache ip).inum := by
  rw [wrote.self]

theorem Wrote.file :
    after.file ip = Sparse.splice BSIZE (before.file ip) off.toNat n.toNat src := by
  unfold Store.file
  rw [wrote.files, wrote.inum, update_self]
  rfl

theorem Wrote.filled (filled : Filled before ip)
    (inside : off.toNat ≤ (before.icache ip).size.toNat) : Filled after ip := by
  intro bn below
  rw [wrote.size] at below
  rw [wrote.file, Sparse.isSome_splice]
  by_cases old : bn * BSIZE < (before.icache ip).size.toNat
  · exact .inr (filled bn old)
  · have new : bn * BSIZE < off.toNat + n.toNat := (lt_max_iff.mp below).resolve_left old
    have positive : 0 < BSIZE := by decide
    refine .inl ?_
    unfold Sparse.Touches
    rw [Nat.add_mul, Nat.one_mul]
    omega

theorem Wrote.regular (regular : Regular before ip)
    (inside : off.toNat ≤ (before.icache ip).size.toNat) :
    Regular after ip where
  owned := wrote.owned
  used := by
    rw [wrote.self]
    exact regular.used
  notDev := by
    rw [wrote.self]
    exact regular.notDev
  filled := wrote.filled regular.filled inside

theorem Wrote.content (inside : off.toNat ≤ (before.icache ip).size.toNat) :
    after.content ip = (before.content ip).take off.toNat ++ (List.range n.toNat).map src ++
      (before.content ip).drop (off.toNat + n.toNat) := by
  unfold Store.content
  rw [wrote.file, wrote.size]
  exact Sparse.content_splice (by decide) _ src inside

end

/-- The file of another inode is the one on the disk. -/
theorem file_flushed_of_ne {inum : Nat} (other : inum ≠ (store.icache ip).inum) :
    (store.flushed ip).file inum = store.disk.file inum := by
  funext bn
  unfold Disk.file Store.flushed
  simp only [points_setDinode_of_ne other]
  rfl

theorem Wrote.untouched (wrote : Wrote ip off.toNat n.toNat src before after) :
    Untouched ip before after where
  cached := wrote.others
  dinode := wrote.dinodes
  content inum other := by
    have other' : inum ≠ (after.icache ip).inum := wrote.inum ▸ other
    unfold Disk.content
    rw [← file_flushed_of_ne other', wrote.files, update_of_ne other,
      file_flushed_of_ne other, wrote.dinodes inum other]

theorem stores_writei_bytes (tolerant : Tolerant allowed store.outstanding)
    (regular : Regular store ip) (src : Nat → Byte) (off n : UInt32) :
    Stores allowed (writei ip src off n) store fun result after =>
      match writeBytes (store.content ip) src off n with
      | none => result = -1 ∧ after = store
      | some content => result = n.toNat ∧ after.content ip = content ∧ Regular after ip ∧
          Untouched ip store after := by
  refine .mono (stores_writei tolerant regular.owned regular.used regular.notDev src off n)
    fun result after outcome => ?_
  unfold writeBytes
  rw [length_content_eq]
  rcases outcome with ⟨refused, same⟩ | ⟨accepted, returned, wrote⟩
  · rw [if_pos (by exact refused)]
    exact same
  · rw [if_neg (by exact accepted)]
    have inside : off.toNat ≤ (store.icache ip).size.toNat :=
      not_lt.mp fun past => accepted (.inl past)
    exact ⟨returned, wrote.content inside, wrote.regular regular inside, wrote.untouched⟩

/-! ## Runs -/

/-- The log does not matter to a file. -/
theorem Regular.setOutstanding (regular : Regular store ip) (outstanding : Int) :
    Regular { store with outstanding := outstanding } ip :=
  ⟨regular.owned, regular.used, regular.notDev, regular.filled⟩

theorem stores_beginOp :
    Stores (fun _ => True) beginOp store fun _ after =>
      after = { store with outstanding := store.outstanding + 1 } := by
  refine .bind (stores_emit _) fun _ after same => ?_
  subst same
  refine .get fun kernel viewed => .ite (fun _ => .throw trivial) fun _ => ?_
  refine .ite (fun _ => .throw trivial) fun _ => .modify fun kernel viewed => ?_
  subst viewed
  rfl

theorem stores_endOp :
    Stores (fun _ => True) endOp store fun _ after =>
      after = { store with outstanding := store.outstanding - 1 } := by
  refine .bind (stores_emit _) fun _ after same => ?_
  subst same
  have closing : Stores (fun _ => True) (modify fun kernel =>
      { kernel with log := { kernel.log with outstanding := kernel.log.outstanding - 1 } }) after
      fun _ last => last = { after with outstanding := after.outstanding - 1 } := by
    refine .modify fun kernel viewed => ?_
    subst viewed
    rfl
  refine .bind closing fun _ closed closed_eq => ?_
  refine .get fun kernel viewed => .ite (fun _ => .throw trivial) fun _ => ?_
  refine .ite (fun _ => .modify fun kernel viewed => ?_) fun _ => .pure closed_eq
  rw [← closed_eq, ← viewed]
  rfl

/-- One access is the same access to the bytes. -/
theorem stores_access (regular : Regular store ip) (label : Access) :
    Stores (fun _ => True) (label.run ip) store fun _ after =>
      Regular after ip ∧ after.content ip = label.apply (store.content ip) := by
  cases label with
  | write src off n =>
    have tolerant : Tolerant (fun _ => True) store.outstanding := ⟨trivial, trivial, .inr trivial⟩
    refine .bind (stores_writei_bytes tolerant regular src off n) fun result after wrote => ?_
    refine .pure ?_
    change Regular after ip ∧ after.content ip =
      (writeBytes (store.content ip) src off n).getD (store.content ip)
    split at wrote
    · rename_i refused
      rw [refused, wrote.2]
      exact ⟨regular, rfl⟩
    · rename_i content accepted
      rw [accepted]
      exact ⟨wrote.2.2.1, wrote.2.1⟩
  | beginOp =>
    refine .mono stores_beginOp fun _ after opened => ?_
    rw [opened]
    exact ⟨regular.setOutstanding _, rfl⟩
  | endOp =>
    refine .mono stores_endOp fun _ after closed => ?_
    rw [closed]
    exact ⟨regular.setOutstanding _, rfl⟩

/-- Along a run, the content follows the bytes. -/
theorem content_of_run {kernel last : Kernel} {labels : List Access} (empty : Empty kernel.store ip)
    (run : Steps (fun kernel label next => kernel.access ip label = some next) kernel labels last) :
    Regular last.store ip ∧ last.store.content ip = labels.foldl Access.apply [] := by
  induction run with
  | refl => exact ⟨empty.regular, empty.content⟩
  | @step labels current label next _ transition ih =>
    obtain ⟨regular, content_eq⟩ := ih
    obtain ⟨⟨_, after⟩, returned, rfl⟩ := map_eq_some_iff.mp transition
    have access := (stores_access regular label current rfl).ok (outcome_eq_some.mp returned)
    refine ⟨access.1, ?_⟩
    rw [List.foldl_append, ← content_eq]
    exact access.2

/-- An inode that was empty and then written implements the byte sequence that
the writes describe. A read returns what there is of a range. A write inside a
transaction returns as well, with the range overwritten and every other inode
untouched, unless it fills the disk or the log. -/
theorem files_refine_bytes {kernel last : Kernel} {ip : InodePtr} {labels : List Access}
    (empty : Empty kernel.store ip)
    (run : Steps (fun kernel label next => kernel.access ip label = some next) kernel labels last) :
    last.store.content ip = labels.foldl Access.apply [] ∧
      (last.store.content ip).length = (last.icache ip).size.toNat ∧
      (∀ off n, Sat (readi ip off n) last
        (fun result next => result = readBytes (last.store.content ip) off n ∧
          next.store = last.store)
        fun _ _ => False) ∧
      ∀ src off n, 1 ≤ last.log.outstanding → Sat (writei ip src off n) last
        (fun result next =>
          match writeBytes (last.store.content ip) src off n with
          | none => result = -1 ∧ next.store = last.store
          | some content => result = n.toNat ∧ next.store.content ip = content ∧
              Untouched ip last.store next.store)
        fun raised _ => raised = .panic .ballocOutOfBlocks ∨ raised = .panic .tooBigTransaction := by
  obtain ⟨regular, content_eq⟩ := content_of_run empty run
  refine ⟨content_eq, length_content_eq _ _, fun off n => ?_, fun src off n inside => ?_⟩
  · have reads : Stores (fun _ => False) (readi ip off n) last.store _ :=
      stores_readi regular.notDev regular.filled off n
    exact (reads last rfl).weaken fun _ _ found => ⟨found.2, found.1⟩
  · have tolerant : Tolerant (fun raised => raised = .panic .ballocOutOfBlocks ∨
        raised = .panic .tooBigTransaction) last.store.outstanding :=
      ⟨.inr rfl, .inl rfl, .inl inside⟩
    refine (stores_writei_bytes tolerant regular src off n last rfl).weaken fun _ _ wrote => ?_
    split at wrote
    · exact wrote
    · exact ⟨wrote.1, wrote.2.1, wrote.2.2.2⟩

/-! ## An example -/

/-- A disk on which the root directory has the first data block and nobody else has any. -/
theorem owned_of_root {disk : Disk} (bitmap_eq : disk.bitmap = fun b => decide (b < firstData + 1))
    (points_eq : ∀ place, disk.points place = if place = (ROOTINO, .direct 0) then firstData else 0) :
    disk.Owned mkfsSuperblock := by
  have start : dataStart mkfsSuperblock = firstData := by decide
  have root : disk.points (ROOTINO, .direct 0) = firstData := by rw [points_eq, if_pos rfl]
  have only : ∀ place, disk.points place ≠ 0 → place = (ROOTINO, .direct 0) := by
    intro place present
    by_contra other
    rw [points_eq, if_neg other] at present
    exact present rfl
  constructor
  · rw [start]
    decide
  · intro place present
    rw [only place present, root, start]
    decide
  · intro place place' present same
    rw [only place present, only place' (same ▸ present)]
  · intro b inDisk
    rw [bitmap_eq, start, decide_eq_true_iff]
    constructor
    · intro below
      rcases Nat.lt_succ_iff_lt_or_eq.mp below with reserved | first
      · exact .inl reserved
      · exact .inr ⟨by rw [first]; decide, (ROOTINO, .direct 0), root.trans first.symm⟩
    · rintro (reserved | ⟨nonzero, place, held⟩)
      · exact Nat.lt_succ_of_lt reserved
      · rw [only place (held ▸ nonzero), root] at held
        rw [← held]
        decide

/-- A root directory with an empty file in it. -/
def emptyFileDisk : Disk :=
  .image 0o755 [(2, [102])] [{ Dinode.fresh .file 0 0o644 with nlink := 1 }] []

/-- The file is in the cache. -/
def emptyFile : Kernel :=
  let kernel := Kernel.boot emptyFileDisk
  let file : Inode :=
    { emptyFileDisk.dinode 2 with dev := ROOTDEV, inum := 2, ref := 1, lock := none, valid := true }
  { kernel with icache := Function.update kernel.icache 1 file }

theorem points_emptyFileDisk (place : Place) :
    emptyFileDisk.points place = if place = (ROOTINO, .direct 0) then firstData else 0 := by
  obtain ⟨inum, slot⟩ := place
  match inum with
  | 0 => simp [emptyFileDisk, Disk.points, Disk.image, Dinode.fresh]
  | 1 =>
    cases slot with
    | direct _ | indirect | entry _ => simp [emptyFileDisk, Disk.points, Disk.image, Dinode.single, Dinode.points]
  | 2 =>
    cases slot <;> simp [emptyFileDisk, Disk.points, Disk.image, Dinode.fresh, Dinode.points]
  | inum + 3 =>
    have other : inum + 3 ≠ ROOTINO := by
      change inum + 3 ≠ 1
      omega
    simp [emptyFileDisk, Disk.points, Disk.image, Dinode.fresh, other]

theorem empty_emptyFile : Empty emptyFile.store 1 where
  owned := by
    have flushed_eq : emptyFile.store.flushed 1 = emptyFileDisk := by
      change emptyFileDisk.setDinode 2 (emptyFileDisk.dinode 2) = emptyFileDisk
      unfold Disk.setDinode
      rw [update_eq_self]
    rw [flushed_eq]
    exact owned_of_root rfl points_emptyFileDisk
  used := by decide
  notDev := by decide
  empty := by decide

/-- Two overlapping writes. -/
def twoWrites : List Access :=
  [.beginOp, .write (fun i => [104, 105, 106].getD i 0) 0 3, .write (fun i => [33, 33].getD i 0) 2 2]

theorem files_refine_bytes_twoWrites :
    Empty emptyFile.store 1 ∧ ∃ last,
      Steps (fun kernel label next => kernel.access 1 label = some next) emptyFile twoWrites last ∧
        last.store.content 1 = [104, 105, 33, 33] := by
  have evaluated : (follow (Kernel.access 1) (fun _ _ => True) emptyFile twoWrites).isSome = true := by
    decide +kernel
  have run := (Steps.of_follow (some_get evaluated).symm).unguarded
  have content_eq := (files_refine_bytes empty_emptyFile run).1
  exact ⟨empty_emptyFile, _, run, content_eq.trans (by decide +kernel)⟩

/-- A write of 31 blocks in one transaction is accepted, but it does not return. -/
theorem writei_overflows_log :
    Empty emptyFile.store 1 ∧ ∃ last,
      Steps (fun kernel label next => kernel.access 1 label = some next) emptyFile [.beginOp] last ∧
        1 ≤ last.log.outstanding ∧
        (writeBytes (last.store.content 1) (fun _ => 0) 0 (31 * 512)).isSome = true ∧
        ∃ next, writei 1 (fun _ => 0) 0 (31 * 512) last = .error (.panic .tooBigTransaction) next := by
  have evaluated : (emptyFile.access 1 .beginOp).any (fun last =>
      decide (1 ≤ last.log.outstanding) && decide (raised (writei 1 (fun _ => 0) 0 (31 * 512)) last =
        some (.panic .tooBigTransaction))) = true := by
    decide +kernel
  obtain ⟨returned, checked⟩ := (any_eq_true_iff_get _ _).mp evaluated
  simp only [Bool.and_eq_true, decide_eq_true_eq] at checked
  have run : Steps (fun kernel label next => kernel.access 1 label = some next) emptyFile [.beginOp] _ :=
    .step .refl (some_get returned).symm
  refine ⟨empty_emptyFile, _, run, checked.1, ?_, raised_eq_some.mp checked.2⟩
  rw [(content_of_run empty_emptyFile run).2]
  decide

end Storage

end Xv6
