import Xv6.Log.Disk

/-!
# Crash atomicity of the log

The disk passes through three phases. It is `Idle` on the old contents until the
header naming the transaction reaches it, then `Committed` until the header is
erased, and then `Idle` on the new contents. Every single-block write of
`commit` and of `recover_from_log` keeps the phase or moves to the next one, so
a power failure anywhere leaves a disk in one of the three.
-/

namespace Xv6.Log

open Program Words Function List

variable {block : Nat} {disk : Nat → Block} {machine : Machine}

/-! ## The header block -/

theorem word_setHeadBlocks_le (blocks : List Nat) (buf : Block) {index i : Nat} (below : i ≤ index) :
    word (setHeadBlocks buf index blocks) i = word buf i := by
  induction blocks generalizing buf index with
  | nil => rfl
  | cons block rest ih =>
    rw [setHeadBlocks, ih _ (by omega)]
    exact word_setWord_of_ne buf block (by omega)

theorem word_setHeadBlocks (blocks : List Nat) (buf : Block) (index : Nat)
    (uint : ∀ block ∈ blocks, block < 2 ^ 32) (i : Nat) (bounded : i < blocks.length) :
    word (setHeadBlocks buf index blocks) (index + 1 + i) = blocks[i] := by
  induction blocks generalizing buf index i with
  | nil => simp at bounded
  | cons block rest ih =>
    cases i with
    | zero =>
      rw [setHeadBlocks, word_setHeadBlocks_le rest _ (by omega)]
      exact word_setWord_self buf (index + 1) (uint block (by simp))
    | succ i =>
      have inRest : i < rest.length := by simpa using bounded
      rw [setHeadBlocks, show index + 1 + (i + 1) = (index + 1) + 1 + i by omega]
      exact ih _ (index + 1)
        (fun other member => uint other (mem_cons_of_mem _ member)) i inRest

theorem headCount_writeHead (buf : Block) (blocks : List Nat) (small : blocks.length < 2 ^ 31) :
    headCount (setHeadBlocks (setWord buf 0 blocks.length) 0 blocks) = blocks.length := by
  have count : word (setHeadBlocks (setWord buf 0 blocks.length) 0 blocks) 0 = blocks.length := by
    rw [word_setHeadBlocks_le blocks _ (Nat.le_refl 0)]
    exact word_setWord_self buf 0 (by omega)
  rw [headCount, count, if_pos small]

/-- Reading a header back gives the block numbers that were written. -/
theorem headBlocks_writeHead (buf : Block) (blocks : List Nat) (small : blocks.length < 2 ^ 31)
    (uint : ∀ block ∈ blocks, block < 2 ^ 32) :
    headBlocks (setHeadBlocks (setWord buf 0 blocks.length) 0 blocks) = blocks := by
  apply ext_getElem
  · simp [headBlocks, headCount_writeHead buf blocks small]
  · intro i _ bounded
    have entry := word_setHeadBlocks blocks (setWord buf 0 blocks.length) 0 uint i bounded
    simpa [headBlocks, Nat.add_comm] using entry

/-! ## The three phases -/

/-- The header names no block and every home block has the given contents. -/
def Idle (start size : Nat) (contents disk : Nat → Block) : Prop :=
  headCount (disk start) = 0 ∧ ∀ block, Home start size block → disk block = contents block

variable {start size : Nat}

/-- The header names the transaction, the log holds its contents, and home
blocks outside it are as before. Its own home blocks may hold anything. -/
structure Committed (transaction : Transaction start size) (old disk : Nat → Block) : Prop where
  header : headBlocks (disk start) = transaction.blocks
  slots : ∀ i (bounded : i < transaction.blocks.length),
    disk (start + i + 1) = transaction.contents transaction.blocks[i]
  others : ∀ block, Home start size block → block ∉ transaction.blocks → disk block = old block

variable {transaction : Transaction start size} {old : Nat → Block}

/-- A home block is none of the blocks of the log area in use. -/
theorem Transaction.home_ne (transaction : Transaction start size)
    (member : block ∈ transaction.blocks) :
    block ≠ start ∧ ∀ i, i < transaction.blocks.length → block ≠ start + i + 1 := by
  have nonempty := length_pos_of_mem member
  have fits := transaction.fitsLog
  rcases transaction.outside block member with below | above
  · exact ⟨by omega, fun i bounded => by omega⟩
  · exact ⟨by omega, fun i bounded => by omega⟩

theorem home_ne_start (transaction : Transaction start size) (home : Home start size block) :
    block ≠ start := by
  have fits := transaction.fitsLog
  rcases home with below | above <;> omega

/-- Installing a block of the transaction keeps the committed phase. -/
theorem Committed.install (committed : Committed transaction old disk)
    (member : block ∈ transaction.blocks) (data : Block) :
    Committed transaction old (update disk block data) where
  header := by
    rw [update_of_ne (transaction.home_ne member).1.symm]
    exact committed.header
  slots i bounded := by
    rw [update_of_ne ((transaction.home_ne member).2 i bounded).symm]
    exact committed.slots i bounded
  others other home notMember := by
    have different : other ≠ block := fun same => notMember (same ▸ member)
    rw [update_of_ne different]
    exact committed.others other home notMember

theorem sat_bwrite {data : Block} {post : Unit → Machine → Prop}
    {fault : PowerFailure → Machine → Prop} (lost : fault .lost machine)
    (done : post () (machine.write block data)) : Sat (bwrite block data) machine post fault := by
  unfold bwrite
  simp only [sat_bind, sat_get, sat_ite, sat_throw, sat_set]
  split
  · exact lost
  · exact done

/-! ## Installation -/

/-- What `install_trans` needs of the machine: the committed disk, and cached log
slots that agree with the transaction. -/
structure Installing (transaction : Transaction start size) (old : Nat → Block)
    (machine : Machine) : Prop where
  start_eq : machine.start = start
  committed : Committed transaction old machine.disk
  cached : ∀ i (bounded : i < transaction.blocks.length),
    machine.cache (start + i + 1) = transaction.contents transaction.blocks[i]

/-- From log slot `tail` on, `install_trans` completes the home blocks and stays
in the committed phase whether or not the power lasts. -/
theorem installFrom_spec (rest done : List Nat) (machine : Machine)
    (split : transaction.blocks = done ++ rest) (installing : Installing transaction old machine)
    (installed : ∀ block ∈ done, machine.disk block = transaction.contents block) :
    Sat (installFrom done.length rest) machine
      (fun _ next => Installing transaction old next ∧
        ∀ block ∈ transaction.blocks, next.disk block = transaction.contents block)
      (fun _ next => Committed transaction old next.disk) := by
  induction rest generalizing done machine with
  | nil =>
    refine ⟨installing, ?_⟩
    rw [split, append_nil]
    exact installed
  | cons block rest ih =>
    have bounded : done.length < transaction.blocks.length := by simp [split]
    have here : transaction.blocks[done.length] = block := by simp [split]
    have member : block ∈ transaction.blocks := by simp [split]
    have source : machine.cache (start + done.length + 1) = transaction.contents block := by
      rw [installing.cached done.length bounded, here]
    simp only [installFrom, bread, sat_bind, sat_get, sat_pure, installing.start_eq, source]
    apply sat_bwrite installing.committed
    rw [show done.length + 1 = (done ++ [block]).length by simp]
    refine ih (done ++ [block]) _ (by simp [split]) ?_ ?_
    · refine ⟨installing.start_eq, installing.committed.install member _, fun i inside => ?_⟩
      rw [Machine.write_cache, update_of_ne ((transaction.home_ne member).2 i inside).symm]
      exact installing.cached i inside
    · intro other already
      by_cases same : other = block
      · simp [same]
      · rw [Machine.write_disk, update_of_ne same]
        exact installed other (by simpa [same] using already)

theorem installTrans_spec (installing : Installing transaction old machine)
    (blocks_eq : machine.blocks = transaction.blocks) :
    Sat installTrans machine
      (fun _ next => Installing transaction old next ∧
        ∀ block ∈ transaction.blocks, next.disk block = transaction.contents block)
      (fun _ next => Committed transaction old next.disk) := by
  simp only [installTrans, sat_bind, sat_get, blocks_eq]
  exact installFrom_spec transaction.blocks [] machine rfl installing (by simp)

/-- Erasing the header of a fully installed transaction ends it. -/
theorem erase_spec (installing : Installing transaction old machine)
    (installed : ∀ block ∈ transaction.blocks, machine.disk block = transaction.contents block) :
    Sat (do modify fun machine => { machine with blocks := [] }; writeHead) machine
      (fun _ next => Idle start size (transaction.apply old) next.disk)
      (fun _ next => Committed transaction old next.disk) := by
  simp only [writeHead, bread, sat_bind, sat_modify, sat_get, sat_pure, installing.start_eq]
  refine sat_bwrite installing.committed ⟨?_, fun block home => ?_⟩
  · simpa [setHeadBlocks] using headCount_writeHead (machine.cache start) [] (by simp)
  · have notHeader := home_ne_start transaction home
    rw [Machine.write_disk, update_of_ne notHeader, Transaction.apply]
    by_cases member : block ∈ transaction.blocks
    · simp [member, installed block member]
    · simp [member, installing.committed.others block home member]

/-! ## Recovery -/

/-- Recovery of an idle disk keeps it idle on the same contents. -/
theorem recover_idle (transaction : Transaction start size) {contents : Nat → Block}
    (idle : Idle start size contents disk) (budget : Nat) :
    Sat recoverFromLog (boot start disk budget)
      (fun _ next => Idle start size contents next.disk)
      (fun _ next => Idle start size contents next.disk) := by
  have noBlocks : headBlocks (disk start) = [] := by simp [headBlocks, idle.1]
  simp only [recoverFromLog, readHead, installTrans, writeHead, bread, boot, sat_bind, sat_get,
    sat_modify, sat_pure, noBlocks, installFrom]
  refine sat_bwrite idle ⟨?_, fun block home => ?_⟩
  · simpa [setHeadBlocks] using headCount_writeHead (disk start) [] (by simp)
  · have notHeader := home_ne_start transaction home
    simp [update_of_ne notHeader, idle.2 block home]

/-- Recovery of a committed disk completes the transaction, or is cut while the
disk is still committed. -/
theorem recover_committed (committed : Committed transaction old disk) (budget : Nat) :
    Sat recoverFromLog (boot start disk budget)
      (fun _ next => Idle start size (transaction.apply old) next.disk)
      (fun _ next => Committed transaction old next.disk) := by
  have installing : Installing transaction old
      { boot start disk budget with blocks := transaction.blocks } :=
    ⟨rfl, committed, committed.slots⟩
  simp only [recoverFromLog, readHead, bread, sat_bind, sat_get, sat_modify, sat_pure]
  rw [show (boot start disk budget).cache (boot start disk budget).start = disk start from rfl,
    committed.header]
  refine (installTrans_spec installing rfl).weaken fun _ next done => ?_
  simpa only [sat_bind, sat_modify] using erase_spec done.1 done.2

/-! ## Commit -/

/-- Writing the log slots touches neither the header nor any home block. -/
theorem writeLogFrom_spec (rest done : List Nat) (machine : Machine)
    (split : transaction.blocks = done ++ rest) (start_eq : machine.start = start)
    (idle : Idle start size old machine.disk) (fresh : start ∉ machine.written)
    (cache_home : ∀ block ∈ transaction.blocks, machine.cache block = transaction.contents block)
    (slots : ∀ i (bounded : i < transaction.blocks.length), i < done.length →
      machine.disk (start + i + 1) = transaction.contents transaction.blocks[i] ∧
      machine.cache (start + i + 1) = transaction.contents transaction.blocks[i]) :
    Sat (writeLogFrom done.length rest) machine
      (fun _ next => next.start = start ∧ next.blocks = machine.blocks ∧
        Idle start size old next.disk ∧ start ∉ next.written ∧
        ∀ i (bounded : i < transaction.blocks.length),
          next.disk (start + i + 1) = transaction.contents transaction.blocks[i] ∧
          next.cache (start + i + 1) = transaction.contents transaction.blocks[i])
      (fun _ next => Idle start size old next.disk ∧ start ∉ next.written) := by
  induction rest generalizing done machine with
  | nil =>
    have complete : transaction.blocks.length = done.length := by simp [split]
    exact ⟨start_eq, rfl, idle, fresh, fun i bounded => slots i bounded (by omega)⟩
  | cons block rest ih =>
    have bounded : done.length < transaction.blocks.length := by simp [split]
    have here : transaction.blocks[done.length] = block := by simp [split]
    have member : block ∈ transaction.blocks := by simp [split]
    have fits := transaction.fitsLog
    simp only [writeLogFrom, bread, sat_bind, sat_get, sat_pure, start_eq]
    apply sat_bwrite ⟨idle, fresh⟩
    rw [show done.length + 1 = (done ++ [block]).length by simp]
    refine ih (done ++ [block]) _ (by simp [split]) start_eq ?_ ?_ ?_ ?_
    · refine ⟨?_, fun other home => ?_⟩
      · rw [Machine.write_disk, update_of_ne (by omega)]
        exact idle.1
      · rw [Machine.write_disk, update_of_ne (by rcases home with below | above <;> omega)]
        exact idle.2 other home
    · simp only [Machine.write_written, mem_cons, not_or]
      exact ⟨by omega, fresh⟩
    · intro other inside
      rw [Machine.write_cache,
        update_of_ne ((transaction.home_ne inside).2 done.length bounded)]
      exact cache_home other inside
    · intro i inside written
      by_cases same : i = done.length
      · subst same
        simp [cache_home block member, here]
      · have earlier : i < done.length := by
          simp only [length_append, length_singleton] at written
          omega
        rw [Machine.write_disk, Machine.write_cache, update_of_ne (by omega),
          update_of_ne (by omega)]
        exact slots i inside earlier

/-- The header write is the commit point. -/
theorem writeHead_commits (start_eq : machine.start = start)
    (blocks_eq : machine.blocks = transaction.blocks) (idle : Idle start size old machine.disk)
    (fresh : start ∉ machine.written) (slots : ∀ i (bounded : i < transaction.blocks.length),
      machine.disk (start + i + 1) = transaction.contents transaction.blocks[i] ∧
      machine.cache (start + i + 1) = transaction.contents transaction.blocks[i]) :
    Sat writeHead machine
      (fun _ next => Installing transaction old next ∧ next.blocks = transaction.blocks)
      (fun _ next => Idle start size old next.disk ∧ start ∉ next.written) := by
  have small : transaction.blocks.length < 2 ^ 31 :=
    Nat.lt_of_le_of_lt transaction.fitsHeader (by decide)
  simp only [writeHead, bread, sat_bind, sat_get, sat_pure, start_eq, blocks_eq]
  refine sat_bwrite ⟨idle, fresh⟩ ⟨⟨start_eq, ⟨?_, ?_, ?_⟩, ?_⟩, blocks_eq⟩
  · rw [Machine.write_disk, update_self]
    exact headBlocks_writeHead _ _ small transaction.uint
  · intro i bounded
    rw [Machine.write_disk, update_of_ne (by omega)]
    exact (slots i bounded).1
  · intro block home _
    rw [Machine.write_disk, update_of_ne (home_ne_start transaction home)]
    exact idle.2 block home
  · intro i bounded
    rw [Machine.write_cache, update_of_ne (by omega)]
    exact (slots i bounded).2

/-- A complete commit ends idle on the new contents. A cut one leaves the disk
idle on the old contents with the header untouched, or committed. -/
theorem commit_spec (transaction : Transaction start size) (clean : headCount (old start) = 0) (budget : Nat) :
    Sat commit (transaction.pending old budget)
      (fun _ next => Idle start size (transaction.apply old) next.disk)
      (fun _ next => (Idle start size old next.disk ∧ start ∉ next.written) ∨
        Committed transaction old next.disk) := by
  simp only [commit, sat_bind, sat_get, sat_ite]
  split
  · have cache_home : ∀ block ∈ transaction.blocks,
        transaction.apply old block = transaction.contents block := by
      intro block member
      simp [Transaction.apply, member]
    simp only [writeLog, sat_bind, sat_get]
    refine (writeLogFrom_spec transaction.blocks [] (transaction.pending old budget) rfl rfl
      ⟨clean, fun _ _ => rfl⟩ (by simp [Transaction.pending]) cache_home (by simp)).mono ?_ fun _ _ idle => Or.inl idle
    rintro _ written ⟨start_eq, blocks_eq, idle, fresh, slots⟩
    refine (writeHead_commits start_eq blocks_eq idle fresh slots).mono ?_
      fun _ _ idle => Or.inl idle
    rintro _ headed ⟨installing, blocks_eq⟩
    refine (installTrans_spec installing blocks_eq).mono ?_ fun _ _ committed => Or.inr committed
    rintro _ installed ⟨stays, complete⟩
    have erased := erase_spec stays complete
    simp only [sat_bind, sat_modify] at erased ⊢
    exact erased.mono (fun _ _ idle => idle) fun _ _ committed => Or.inr committed
  · rename_i empty
    have noBlocks : transaction.blocks = [] := by
      change ¬0 < transaction.blocks.length at empty
      exact eq_nil_of_length_eq_zero (by omega)
    refine ⟨clean, fun block _ => ?_⟩
    simp [Transaction.pending, Transaction.apply, noBlocks]

/-! ## Any number of power failures -/

/-- Recoveries that are cut keep the phase the disk is in. -/
theorem Reboots.idle_or_committed (transaction : Transaction start size)
    (old contents : Nat → Block) {disk' : Nat → Block} (reboots : Reboots start disk disk') :
    (Idle start size contents disk → Idle start size contents disk') ∧
      (Committed transaction old disk → Committed transaction old disk') := by
  induction reboots with
  | refl => exact ⟨id, id⟩
  | crash cut _ ih =>
    exact ⟨fun idle => ih.1 ((recover_idle transaction idle _).error cut),
      fun committed => ih.2 ((recover_committed committed _).error cut)⟩

/-- Every disk that commit can leave behind is idle on the old contents with the
header never written, committed, or idle on the new contents. -/
theorem commit_final (transaction : Transaction start size) (clean : headCount (old start) = 0)
    (budget : Nat) :
    let last := final commit (transaction.pending old budget)
    (Idle start size old last.disk ∧ start ∉ last.written) ∨
      Committed transaction old last.disk ∨ Idle start size (transaction.apply old) last.disk := by
  have spec := commit_spec transaction clean budget
  unfold final
  cases outcome : commit (transaction.pending old budget) with
  | ok _ last => exact Or.inr (Or.inr (spec.ok outcome))
  | error _ last =>
    rcases spec.error outcome with idle | committed
    · exact Or.inl idle
    · exact Or.inr (Or.inl committed)

/-- Enough power always completes a recovery. -/
theorem recover_completes (disk : Nat → Block) :
    ∃ budget machine, recoverFromLog (boot start disk budget) = .ok () machine := by
  have install : ∀ (blocks : List Nat) (tail : Nat) (machine : Machine),
      blocks.length < machine.budget →
      Sat (installFrom tail blocks) machine (fun _ next => 0 < next.budget) (fun _ _ => False) := by
    intro blocks
    induction blocks with
    | nil => exact fun tail machine enough => Nat.zero_lt_of_lt enough
    | cons block rest ih =>
      intro tail machine enough
      have power : machine.budget ≠ 0 := by omega
      simp only [installFrom, bread, bwrite, sat_bind, sat_get, sat_pure, sat_ite, power,
        if_false, sat_set]
      apply ih
      simp only [length_cons] at enough
      change rest.length < machine.budget - 1
      omega
  let budget := (headBlocks (disk start)).length + 1
  have completes : Sat recoverFromLog (boot start disk budget) (fun _ _ => True) (fun _ _ => False) := by
    simp only [recoverFromLog, readHead, installTrans, bread, sat_bind, sat_get, sat_modify, sat_pure]
    refine (install _ 0 _ (Nat.lt_succ_self _)).weaken fun _ next power => ?_
    have powered : next.budget ≠ 0 := by omega
    simp only [writeHead, bread, bwrite, sat_bind, sat_get, sat_pure, sat_ite, powered, if_false,
      sat_set]
  refine ⟨budget, ?_⟩
  cases outcome : recoverFromLog (boot start disk budget) with
  | ok _ machine => exact ⟨machine, rfl⟩
  | error _ machine => exact (completes.error outcome).elim

/-- Cut `commit` anywhere, then cut any number of recoveries anywhere: the first
recovery that runs to completion leaves the header empty and the home blocks all
old or all new, and all new once `commit`'s first header write had reached the
disk. -/
theorem commit_crash_atomic (transaction : Transaction start size) (old : Nat → Block)
    (clean : headCount (old start) = 0) (budget : Nat) (disk : Nat → Block)
    (crashes : Reboots start (final commit (transaction.pending old budget)).disk disk)
    (power : Nat) (machine : Machine)
    (recovered : recoverFromLog (boot start disk power) = .ok () machine) :
    headCount (machine.disk start) = 0 ∧
      ((∀ block, Home start size block → machine.disk block = old block) ∨
        (∀ block, Home start size block → machine.disk block = transaction.apply old block)) ∧
      (start ∈ (final commit (transaction.pending old budget)).written →
        ∀ block, Home start size block → machine.disk block = transaction.apply old block) := by
  rcases commit_final transaction clean budget with
    ⟨idle, fresh⟩ | committed | idle
  · have before := (crashes.idle_or_committed transaction old _).1 idle
    have recoveredIdle := (recover_idle transaction before power).ok recovered
    exact ⟨recoveredIdle.1, Or.inl recoveredIdle.2, fun reached => absurd reached fresh⟩
  · have still := (crashes.idle_or_committed transaction old old).2 committed
    have recoveredIdle := (recover_committed still power).ok recovered
    exact ⟨recoveredIdle.1, Or.inr recoveredIdle.2, fun _ => recoveredIdle.2⟩
  · have after := (crashes.idle_or_committed transaction old _).1 idle
    have recoveredIdle := (recover_idle transaction after power).ok recovered
    exact ⟨recoveredIdle.1, Or.inr recoveredIdle.2, fun _ => recoveredIdle.2⟩

/-- A transaction of one block outside the log `mkfs` lays out. -/
def oneBlock : Transaction 2 LOGSIZE where
  blocks := [40]
  contents := fun _ _ => 7
  distinct := by simp
  fitsLog := by decide
  fitsHeader := by decide
  outside := by
    intro block member
    rw [List.mem_singleton.mp member]
    exact Or.inr (by decide)
  uint := by simp

/-- The power fails right after the header write, then again during the first
recovery: block 40 is complete all the same. -/
theorem commit_crash_atomic_oneBlock :
    (final recoverFromLog (boot 2 (final recoverFromLog (boot 2 (final commit
      (oneBlock.pending (fun _ _ => 0) 2)).disk 1)).disk 5)).disk 40 = fun _ => 7 := by
  have complete := commit_crash_atomic oneBlock (fun _ _ => 0) rfl 2 _
    (@Reboots.crash 2 _ 1 _ _ rfl .refl) 5 _ rfl
  exact complete.2.2 (by decide) 40 (Or.inr (by decide))

end Xv6.Log
