import Xv6.Kernel.Boot
import Xv6.Storage.Blocks

/-!
# What a write logs

`filewrite` cuts its data into chunks and makes one transaction of each. A chunk covers at most
four blocks of the file, and if it covers four the first of them is there already. A block that is
new costs its own number and that of a block of the bitmap. Besides there are the inode and the
indirect block, which is allocated at most once.
-/

namespace Xv6.Log

open Program Function Finset

variable {ip : InodePtr} {kernel before middle after : Kernel} {b m n : Nat} {Value : Type}
  {post : Value → Kernel → Prop}

/-- The block is the indirect block of a cached inode. -/
def Indirect (ip : InodePtr) (kernel : Kernel) (b : Nat) : Prop :=
  b ≠ 0 ∧ (kernel.icache ip).addrs (Fin.last NDIRECT) = b

/-- The number of indirect blocks to be allocated. -/
def missing (ip : InodePtr) (kernel : Kernel) : Nat :=
  if (kernel.icache ip).addrs (Fin.last NDIRECT) = 0 then 1 else 0

/-- The header of the log has grown by `n` block numbers at most, and by the indirect block and the
bitmap block that marks it. -/
structure Spends (ip : InodePtr) (n : Nat) (before after : Kernel) : Prop where
  blocks : ∃ blocks : Finset Nat, blocks.card + missing ip after ≤ n + missing ip before ∧
    ∀ b ∈ after.log.lh, b ∈ before.log.lh ∨ b ∈ blocks ∨ Indirect ip after b
  indirect : ∀ b, Indirect ip before b → Indirect ip after b
  boot : before.disk.bitmap 0 = true → after.disk.bitmap 0 = true

theorem Spends.trans (first : Spends ip m before middle) (second : Spends ip n middle after) :
    Spends ip (m + n) before after where
  blocks := by
    obtain ⟨blocks, few, covered⟩ := first.blocks
    obtain ⟨blocks', few', covered'⟩ := second.blocks
    refine ⟨blocks ∪ blocks', ?_, fun b logged => ?_⟩
    · have both := card_union_le blocks blocks'
      omega
    · rcases covered' b logged with earlier | new | indirect
      · rcases covered b earlier with old | new | indirect
        · exact .inl old
        · exact .inr (.inl (mem_union_left _ new))
        · exact .inr (.inr (second.indirect b indirect))
      · exact .inr (.inl (mem_union_right _ new))
      · exact .inr (.inr indirect)
  indirect b indirect := second.indirect b (first.indirect b indirect)
  boot reserved := second.boot (first.boot reserved)

theorem Spends.mono (spends : Spends ip m before after) (more : m ≤ n) : Spends ip n before after where
  blocks := by
    obtain ⟨blocks, few, covered⟩ := spends.blocks
    exact ⟨blocks, by omega, covered⟩
  indirect := spends.indirect
  boot := spends.boot

/-- The cached inode keeps its indirect block, and the header grows by known numbers. -/
theorem Spends.of_logged (blocks : Finset Nat) (few : blocks.card ≤ n)
    (addr : (after.icache ip).addrs (Fin.last NDIRECT) = (before.icache ip).addrs (Fin.last NDIRECT))
    (boot : before.disk.bitmap 0 = true → after.disk.bitmap 0 = true)
    (covered : ∀ b ∈ after.log.lh, b ∈ before.log.lh ∨ b ∈ blocks ∨ Indirect ip after b) :
    Spends ip n before after where
  blocks := by
    refine ⟨blocks, ?_, covered⟩
    unfold missing
    rw [addr]
    omega
  indirect b indirect := ⟨indirect.1, addr.trans indirect.2⟩
  boot := boot

theorem Spends.of_same (log : after.log = before.log) (icache : after.icache = before.icache)
    (bitmap : after.disk.bitmap = before.disk.bitmap) : Spends ip 0 before after :=
  .of_logged ∅ le_rfl (by rw [icache]) (by rw [bitmap]; exact id) (by rw [log]; exact fun _ old => .inl old)

theorem Spends.refl (ip : InodePtr) (kernel : Kernel) : Spends ip 0 kernel kernel := .of_same rfl rfl rfl

/-- The program spends `n` blocks at most, also if it stops with a fault. -/
def Costs (ip : InodePtr) (n : Nat) {Value : Type} (program : Kern Value) (kernel : Kernel)
    (post : Value → Kernel → Prop) : Prop :=
  Sat program kernel (fun value after => Spends ip n kernel after ∧ post value after)
    fun _ after => Spends ip n kernel after

theorem Costs.bind {Result : Type} {program : Kern Value} {continuation : Value → Kern Result}
    {result : Result → Kernel → Prop} (first : Costs ip m program kernel post)
    (rest : ∀ value middle, Spends ip m kernel middle → post value middle →
      Costs ip n (continuation value) middle result) :
    Costs ip (m + n) (program >>= continuation) kernel result := by
  unfold Costs at first ⊢
  rw [sat_bind]
  refine first.mono (fun value middle done => ?_) fun _ _ spends => spends.mono (Nat.le_add_right m n)
  refine (rest value middle done.1 done.2).mono (fun _ after done' => ?_) fun _ _ spends => done.1.trans spends
  exact ⟨done.1.trans done'.1, done'.2⟩

theorem Costs.mono {program : Kern Value} {post' : Value → Kernel → Prop}
    (costs : Costs ip m program kernel post) (more : m ≤ n)
    (weaken : ∀ value after, post value after → post' value after) :
    Costs ip n program kernel post' :=
  Sat.mono costs (fun value after done => ⟨done.1.mono more, weaken value after done.2⟩)
    fun _ _ spends => spends.mono more

theorem Costs.pure {value : Value} (holds : post value kernel) :
    Costs ip 0 (pure value) kernel post :=
  ⟨.refl ip kernel, holds⟩

/-! ## The functions -/

/-- What `log_write` does to the rest of the kernel. -/
structure Logged (b : Nat) (before after : Kernel) : Prop where
  kept : ∀ b' ∈ before.log.lh, b' ∈ after.log.lh
  header : ∀ b' ∈ after.log.lh, b' ∈ before.log.lh ∨ b' = b
  icache : after.icache = before.icache
  disk : after.disk = before.disk

theorem sat_logWrite (kernel : Kernel) (b : Nat) :
    Sat (logWrite b) kernel (fun _ after => Logged b kernel after ∧ b ∈ after.log.lh)
      fun _ after => after = kernel.emit .logWrite := by
  unfold logWrite emit
  rw [sat_bind, sat_modify, sat_bind, sat_get, sat_ite]
  split
  · exact rfl
  · rw [sat_ite]
    split
    · exact rfl
    · rw [sat_ite]
      split
      · rename_i present
        exact ⟨⟨fun _ old => old, fun _ old => .inl old, rfl, rfl⟩, present⟩
      · rw [sat_modify]
        refine ⟨⟨fun _ old => List.mem_append_left _ old, fun b' logged => ?_, rfl, rfl⟩,
          List.mem_append_right _ (List.mem_singleton_self b)⟩
        exact (List.mem_append.mp logged).imp_right List.mem_singleton.mp

theorem Spends.emit (ip : InodePtr) (kernel : Kernel) (event : Event) :
    Spends ip 0 kernel (kernel.emit event) :=
  .of_same rfl rfl rfl

theorem Logged.spends (logged : Logged b before after) : Spends ip 1 before after := by
  refine .of_logged {b} (card_singleton b).le (by rw [logged.icache]) (by rw [logged.disk]; exact id) ?_
  intro b' present
  exact (logged.header b' present).imp_right fun same => .inl (mem_singleton.mpr same)

/-- A block that is in the header, or the indirect block, costs nothing. -/
theorem Logged.spends_nothing (logged : Logged b before after)
    (known : b ∈ before.log.lh ∨ Indirect ip before b) : Spends ip 0 before after := by
  refine .of_logged ∅ le_rfl (by rw [logged.icache]) (by rw [logged.disk]; exact id) fun b' present => ?_
  rcases logged.header b' present with old | rfl
  · exact .inl old
  · refine known.imp_right fun indirect => .inr ?_
    unfold Indirect
    rw [logged.icache]
    exact indirect

theorem costs_logWrite (ip : InodePtr) (kernel : Kernel) (b : Nat) :
    Costs ip 1 (logWrite b) kernel fun _ _ => True := by
  refine (sat_logWrite kernel b).mono (fun _ _ done => ⟨done.1.spends, trivial⟩) ?_
  rintro _ _ rfl
  exact (Spends.emit ip kernel _).mono (Nat.zero_le 1)

theorem costs_logWrite_known (ip : InodePtr) (known : b ∈ kernel.log.lh ∨ Indirect ip kernel b) :
    Costs ip 0 (logWrite b) kernel fun _ _ => True := by
  refine (sat_logWrite kernel b).mono (fun _ _ done => ⟨done.1.spends_nothing known, trivial⟩) ?_
  rintro _ _ rfl
  exact .emit ip kernel _

/-- `balloc` logs a block of the bitmap and the new block, which is not block 0. -/
theorem sat_balloc (ip : InodePtr) (reserved : kernel.disk.bitmap 0 = true) :
    Sat balloc kernel
      (fun b after => b ≠ 0 ∧ b ∈ after.log.lh ∧ after.icache = kernel.icache ∧
        after.disk.bitmap 0 = true ∧ ∀ b' ∈ after.log.lh, b' ∈ kernel.log.lh ∨ b' = BBLOCK b kernel.sb ∨ b' = b)
      fun _ after => Spends ip 1 kernel after := by
  unfold balloc
  rw [sat_bind, sat_get]
  split
  · exact (Spends.refl ip kernel).mono (Nat.zero_le 1)
  · rename_i b found
    have free : kernel.disk.bitmap b = false := by simpa using List.find?_some found
    have positive : b ≠ 0 := by
      rintro rfl
      rw [reserved] at free
      cases free
    have boot : update kernel.disk.bitmap b true 0 = true := by
      rw [update_of_ne positive.symm]
      exact reserved
    rw [sat_bind, sat_modify, sat_bind]
    refine (sat_logWrite _ _).mono (fun _ marked done => ?_) ?_
    · obtain ⟨logged, -⟩ := done
      have covered : ∀ b' ∈ marked.log.lh, b' ∈ kernel.log.lh ∨ b' = BBLOCK b kernel.sb := logged.header
      have icache : marked.icache = kernel.icache := logged.icache
      have boot' : marked.disk.bitmap 0 = true := by
        rw [logged.disk]
        exact boot
      unfold bzero
      rw [sat_bind, sat_bind, sat_modify]
      refine (sat_logWrite _ b).mono (fun _ after done => ?_) ?_
      · obtain ⟨logged', present⟩ := done
        refine ⟨positive, present, logged'.icache.trans icache, ?_, fun b' member => ?_⟩
        · rw [logged'.disk]
          exact boot'
        · rcases logged'.header b' member with earlier | new
          · exact (covered b' earlier).imp_right .inl
          · exact .inr (.inr new)
      · rintro _ _ rfl
        refine .of_logged {BBLOCK b kernel.sb} (card_singleton _).le (by rw [← icache]; rfl)
          (fun _ => boot') fun b' member => ?_
        exact (covered b' member).imp_right fun same => .inl (mem_singleton.mpr same)
    · rintro _ _ rfl
      exact .of_logged ∅ (Nat.zero_le 1) rfl (fun _ => boot) fun _ old => .inl old

/-- A new data block. -/
theorem costs_balloc (ip : InodePtr) (reserved : kernel.disk.bitmap 0 = true) :
    Costs ip 2 balloc kernel fun b after => b ∈ after.log.lh ∧ after.icache = kernel.icache := by
  refine (sat_balloc ip reserved).mono (fun b after done => ?_) fun _ _ spends => spends.mono (by omega)
  obtain ⟨-, present, icache, boot, covered⟩ := done
  refine ⟨.of_logged {BBLOCK b kernel.sb, b} card_le_two (by rw [icache]) (fun _ => boot) ?_,
    present, icache⟩
  intro b' member
  refine (covered b' member).imp_right fun new => .inl ?_
  rw [mem_insert, mem_singleton]
  exact new

/-- The indirect block costs nothing that is not counted for it, but `balloc` may stop on the way. -/
theorem sat_bmapSlot_indirect (reserved : kernel.disk.bitmap 0 = true) :
    Sat (bmapSlot ip (Fin.last NDIRECT)) kernel
      (fun b after => Spends ip 0 kernel after ∧ Indirect ip after b) fun _ after => Spends ip 1 kernel after := by
  unfold bmapSlot readInode
  rw [sat_bind, sat_bind, sat_get, sat_pure, sat_ite]
  split
  · rename_i absent
    rw [sat_bind]
    refine (sat_balloc ip reserved).weaken fun b middle done => ?_
    obtain ⟨positive, -, icache, boot, covered⟩ := done
    unfold setAddr writeInode
    rw [sat_bind, sat_modify, sat_pure]
    have here : (((middle.updateInode ip fun inode =>
        { inode with addrs := update inode.addrs (Fin.last NDIRECT) b }).icache ip).addrs
          (Fin.last NDIRECT)) = b := by
      simp [Kernel.updateInode]
    refine ⟨⟨⟨{BBLOCK b kernel.sb}, ?_, fun b' member => ?_⟩, ?_, fun _ => boot⟩, positive, here⟩
    · unfold missing
      rw [here, if_neg positive, if_pos absent, card_singleton]
    · rcases covered b' member with old | marks | new
      · exact .inl old
      · exact .inr (.inl (mem_singleton.mpr marks))
      · exact .inr (.inr ⟨new ▸ positive, here.trans new.symm⟩)
    · rintro b' ⟨present, same⟩
      exact absurd (same.symm.trans absent) present
  · rename_i present
    rw [sat_pure]
    exact ⟨.refl ip kernel, present, rfl⟩

/-- `bmap` finds a block, or it allocates one and logs it. -/
theorem sat_bmap (bn : Nat) (reserved : kernel.disk.bitmap 0 = true) :
    Sat (bmap ip bn) kernel
      (fun b after => Spends ip 2 kernel after ∧ (b ∈ after.log.lh ∨ Spends ip 1 kernel after))
      fun _ after => Spends ip 2 kernel after := by
  unfold bmap
  split
  · rename_i direct
    unfold bmapSlot readInode
    rw [sat_bind, sat_bind, sat_get, sat_pure, sat_ite]
    split
    · rw [sat_bind]
      refine (costs_balloc ip reserved).weaken fun b middle done => ?_
      obtain ⟨spends, present, -⟩ := done
      unfold setAddr writeInode
      rw [sat_bind, sat_modify, sat_pure]
      have kept : Spends ip 0 middle (middle.updateInode ip fun inode =>
          { inode with addrs := update inode.addrs (Fin.castSucc ⟨bn, direct⟩) b }) := by
        refine .of_logged ∅ le_rfl ?_ id fun _ old => .inl old
        change (update middle.icache ip _ ip).addrs _ = _
        rw [update_self]
        exact update_of_ne (Fin.castSucc_ne_last _).symm _ _
      exact ⟨spends.trans kept, .inl present⟩
    · rw [sat_pure]
      exact ⟨(Spends.refl ip kernel).mono (by omega), .inr ((Spends.refl ip kernel).mono (by omega))⟩
  · rw [sat_ite]
    split
    · rw [sat_bind]
      refine (sat_bmapSlot_indirect reserved).mono (fun indirect middle done => ?_)
        fun _ _ spends => spends.mono (by omega)
      obtain ⟨spends, isIndirect⟩ := done
      rw [sat_bind, sat_get, sat_ite]
      split
      · -- the new number is stored in the indirect block
        have rest : Costs ip (2 + 0) (do
            let addr ← balloc
            modify fun kernel => kernel.setData indirect
              (Words.setWord (kernel.disk.data indirect) (bn - NDIRECT) addr)
            logWrite indirect
            pure addr) middle fun addr after => addr ∈ after.log.lh := by
          refine (costs_balloc ip (spends.boot reserved)).bind fun addr found spends' done => ?_
          have known : Indirect ip (found.setData indirect
              (Words.setWord (found.disk.data indirect) (bn - NDIRECT) addr)) indirect := by
            unfold Indirect Kernel.setData
            rw [done.2]
            exact isIndirect
          have stored : Spends ip 0 found (found.setData indirect
              (Words.setWord (found.disk.data indirect) (bn - NDIRECT) addr)) := .of_same rfl rfl rfl
          unfold Costs
          rw [sat_bind, sat_modify, sat_bind]
          refine (sat_logWrite _ indirect).mono (fun _ after logged => ?_) ?_
          · exact ⟨stored.trans (logged.1.spends_nothing (.inr known)), logged.1.kept addr done.1⟩
          · rintro _ _ rfl
            exact .of_same rfl rfl rfl
        refine .mono rest (fun addr after done => ?_) fun _ _ spends' => (spends.trans spends').mono (by omega)
        exact ⟨(spends.trans done.1).mono (by omega), .inl done.2⟩
      · rw [sat_pure]
        exact ⟨spends.mono (by omega), .inr (spends.mono (by omega))⟩
    · exact (Spends.refl ip kernel).mono (by omega)

/-- A turn of the loop of `writei`. -/
def writeiTurn (ip : InodePtr) (bn : Nat) (change : Block → Block) : Kern Unit := do
  let addr ← bmap ip bn
  modify fun kernel => kernel.setData addr (change (kernel.disk.data addr))
  logWrite addr

theorem writeiLoop_succ (fuel : Nat) (src : Nat → Byte) (off n : Nat) (some : n ≠ 0) :
    writeiLoop ip (fuel + 1) src off n =
      writeiTurn ip (off / BSIZE) (fun block => overwrite block (off % BSIZE) (chunk off n) src) >>= fun _ =>
        writeiLoop ip fuel (fun i => src (chunk off n + i)) (off + chunk off n) (n - chunk off n) := by
  rw [writeiLoop, if_neg some]
  simp only [writeiTurn, bind_assoc]

theorem costs_writeiTurn (bn : Nat) (change : Block → Block) (reserved : kernel.disk.bitmap 0 = true) :
    Costs ip 2 (writeiTurn ip bn change) kernel fun _ _ => True := by
  unfold Costs writeiTurn
  rw [sat_bind]
  refine (sat_bmap bn reserved).weaken fun addr middle done => ?_
  rw [sat_bind, sat_modify]
  have changed : Spends ip 0 middle (middle.setData addr (change (middle.disk.data addr))) :=
    .of_same rfl rfl rfl
  rcases done with ⟨spends, present | less⟩
  · refine .mono (costs_logWrite_known ip (.inl present)) (fun _ after done => ⟨?_, trivial⟩) fun _ after spends' => ?_
    · exact spends.trans (changed.trans done.1)
    · exact spends.trans (changed.trans spends')
  · refine .mono (costs_logWrite ip _ addr) (fun _ after done => ⟨?_, trivial⟩) fun _ after spends' => ?_
    · exact less.trans (changed.trans done.1)
    · exact less.trans (changed.trans spends')

/-- The block with the given index is allocated. -/
def Allocated (ip : InodePtr) (kernel : Kernel) (bn : Nat) : Prop :=
  ∃ slot, slotOf bn = some slot ∧ (kernel.icache ip).toDinode.points kernel.disk.data slot ≠ 0

/-- `bmap` of an allocated block changes nothing. -/
theorem sat_bmap_allocated {bn : Nat} (allocated : Allocated ip kernel bn) :
    Sat (bmap ip bn) kernel (fun _ after => after = kernel) fun _ _ => False := by
  obtain ⟨slot, slot_eq, present⟩ := allocated
  unfold slotOf at slot_eq
  unfold bmap bmapSlot readInode
  split
  · rename_i direct
    rw [dif_pos direct] at slot_eq
    cases slot_eq
    change (kernel.icache ip).addrs _ ≠ 0 at present
    rw [sat_bind, sat_bind, sat_get, sat_pure, if_neg present]
    exact rfl
  · rename_i beyond
    rw [dif_neg beyond] at slot_eq
    split at slot_eq
    · rename_i entry
      cases slot_eq
      simp only [Dinode.points] at present
      have indirect : (kernel.icache ip).addrs (Fin.last NDIRECT) ≠ 0 := fun absent => present (if_pos absent)
      rw [if_neg indirect] at present
      rw [if_pos entry, sat_bind, sat_bind, sat_bind, sat_get, sat_pure, if_neg indirect, sat_pure, sat_bind,
        sat_get, if_neg present]
      exact rfl
    · cases slot_eq

/-- A block that is there already costs its own number only. -/
theorem costs_writeiTurn_allocated {bn : Nat} (change : Block → Block) (allocated : Allocated ip kernel bn) :
    Costs ip 1 (writeiTurn ip bn change) kernel fun _ _ => True := by
  unfold Costs writeiTurn
  rw [sat_bind]
  refine (sat_bmap_allocated allocated).mono (fun addr after same => ?_) fun _ _ never => never.elim
  subst same
  rw [sat_bind, sat_modify]
  have changed : Spends ip 0 after (after.setData addr (change (after.disk.data addr))) := .of_same rfl rfl rfl
  exact .mono (costs_logWrite ip _ addr) (fun _ _ done => ⟨(changed.trans done.1).mono (by omega), trivial⟩)
    fun _ _ spends => (changed.trans spends).mono (by omega)

theorem costs_writeiLoop_nil (kernel : Kernel) (fuel : Nat) (src : Nat → Byte) (off : Nat) :
    Costs ip 0 (writeiLoop ip fuel src off 0) kernel fun _ _ => True := by
  cases fuel with
  | zero => exact .pure trivial
  | succ fuel => exact .pure trivial

/-- From the start of a block on, `k` blocks hold the data. -/
theorem costs_writeiLoop_aligned {k off : Nat} (fuel : Nat) (src : Nat → Byte) (aligned : off % BSIZE = 0)
    (short : n ≤ k * BSIZE) (reserved : kernel.disk.bitmap 0 = true) :
    Costs ip (2 * k) (writeiLoop ip fuel src off n) kernel fun _ _ => True := by
  have nothing : ∀ fuel src off k (kernel : Kernel),
      Costs ip (2 * k) (writeiLoop ip fuel src off 0) kernel fun _ _ => True := by
    intro fuel src off k kernel
    exact (costs_writeiLoop_nil kernel fuel src off).mono (Nat.zero_le _) fun _ _ done => done
  induction k generalizing fuel src off n kernel with
  | zero =>
    obtain rfl : n = 0 := by omega
    exact nothing fuel src off 0 kernel
  | succ k ih =>
    by_cases empty : n = 0
    · subst empty
      exact nothing fuel src off (k + 1) kernel
    cases fuel with
    | zero => exact (Costs.pure trivial).mono (Nat.zero_le _) fun _ _ done => done
    | succ fuel =>
      rw [writeiLoop_succ fuel src off n empty, Nat.mul_succ, Nat.add_comm]
      refine (costs_writeiTurn _ _ reserved).bind fun _ middle spends _ => ?_
      unfold chunk
      rw [aligned, Nat.sub_zero]
      rcases Nat.le_total n BSIZE with last | more
      · rw [Nat.min_eq_left last, Nat.sub_self]
        exact nothing fuel _ _ k middle
      · rw [Nat.min_eq_right more]
        exact ih fuel _ (by rw [Nat.add_mod_right, aligned]) (by rw [Nat.succ_mul] at short; omega)
          (spends.boot reserved)

/-- A chunk that starts within a block has at most three blocks to follow. -/
theorem costs_writeiLoop {off : Nat} (fuel : Nat) (src : Nat → Byte) (short : n ≤ 3 * BSIZE)
    (reserved : kernel.disk.bitmap 0 = true) (first : off % BSIZE ≠ 0 → Allocated ip kernel (off / BSIZE)) :
    Costs ip 7 (writeiLoop ip fuel src off n) kernel fun _ _ => True := by
  by_cases aligned : off % BSIZE = 0
  · exact (costs_writeiLoop_aligned fuel src aligned short reserved).mono (by omega) fun _ _ done => done
  by_cases empty : n = 0
  · subst empty
    exact (costs_writeiLoop_nil kernel fuel src off).mono (by omega) fun _ _ done => done
  cases fuel with
  | zero => exact (Costs.pure trivial).mono (by omega) fun _ _ done => done
  | succ fuel =>
    rw [writeiLoop_succ fuel src off n empty]
    refine .bind (n := 6) (costs_writeiTurn_allocated _ (first aligned)) fun _ middle spends _ => ?_
    have room : off % BSIZE < BSIZE := Nat.mod_lt _ (by decide)
    rcases Nat.le_total n (BSIZE - off % BSIZE) with last | more
    · rw [chunk, Nat.min_eq_left last, Nat.sub_self]
      exact (costs_writeiLoop_nil middle fuel _ _).mono (by omega) fun _ _ done => done
    · rw [chunk, Nat.min_eq_right more]
      refine costs_writeiLoop_aligned (k := 3) fuel _ ?_ (by omega) (spends.boot reserved)
      change (off + (512 - off % 512)) % 512 = 0
      omega

/-! ## Chunks -/

/-- At most `MAXOPBLOCKS` block numbers are new in the header of the log. -/
def Fits (before after : Kernel) : Prop :=
  (after.log.lh.toFinset \ before.log.lh.toFinset).card ≤ MAXOPBLOCKS

theorem Spends.fits (spends : Spends ip 8 before after) : Fits before after := by
  obtain ⟨blocks, few, covered⟩ := spends.blocks
  have subset : after.log.lh.toFinset \ before.log.lh.toFinset ⊆
      insert ((after.icache ip).addrs (Fin.last NDIRECT)) blocks := by
    intro b new
    rw [mem_sdiff, List.mem_toFinset, List.mem_toFinset] at new
    rw [mem_insert]
    rcases covered b new.1 with old | counted | indirect
    · exact absurd old new.2
    · exact .inr counted
    · exact .inl indirect.2.symm
  have bound : missing ip before ≤ 1 := by
    unfold missing
    split <;> omega
  calc (after.log.lh.toFinset \ before.log.lh.toFinset).card
      ≤ (insert ((after.icache ip).addrs (Fin.last NDIRECT)) blocks).card := card_le_card subset
    _ ≤ blocks.card + 1 := card_insert_le _ _
    _ ≤ MAXOPBLOCKS := by change blocks.card + 1 ≤ 10; omega

theorem costs_iupdate (ip : InodePtr) (kernel : Kernel) :
    Costs ip 1 (iupdate ip) kernel fun _ _ => True := by
  unfold Costs iupdate emit
  rw [sat_bind, sat_modify, sat_bind, sat_get, sat_bind, sat_modify]
  have written : Spends ip 0 kernel ((kernel.emit .iupdate).setDinode (kernel.icache ip).inum
      (kernel.icache ip).toDinode) := .of_same rfl rfl rfl
  exact .mono (costs_logWrite ip _ _) (fun _ _ done => ⟨(written.trans done.1).mono (by omega), trivial⟩)
    fun _ _ spends => (written.trans spends).mono (by omega)

/-- Writing to a device logs nothing. -/
theorem sat_consolewrite (ip : InodePtr) (n : Int) (kernel : Kernel) :
    Sat (consolewrite ip n) kernel (fun _ after => after.log = kernel.log) fun _ after => after.log = kernel.log := by
  have locked : ∀ middle : Kernel, middle.log = kernel.log →
      Sat (ilock ip) middle (fun _ after => after.log = kernel.log) fun _ after => after.log = kernel.log := by
    intro middle log
    unfold ilock acquiresleep writeInode panic
    simp only [sat_bind, sat_get, sat_ite, sat_throw]
    split
    · exact log
    · split
      · simp only [sat_modify, sat_pure]
        split
        · exact log
        · split <;> exact log
      · simp only [sat_ite, sat_throw]
        split <;> exact log
  unfold consolewrite iunlock releasesleep writeInode panic
  simp only [sat_bind, sat_get, sat_ite, sat_throw, sat_modify]
  split
  · exact trivial
  · exact locked _ rfl

/-- A chunk fits the reservation that `begin_op` makes for it: whatever the size of the disk, `writei` of
a chunk of `filewrite` within or at the end of a file without holes adds at most `MAXOPBLOCKS` block
numbers to the header of the log, also if it stops with a panic. If the header was empty these are
all the blocks that it logs. -/
theorem writei_fits_reservation {off n : UInt32} (src : Nat → Byte)
    (reserved : kernel.disk.bitmap 0 = true)
    (allocated : ∀ bn, bn * BSIZE < (kernel.icache ip).size.toNat → Allocated ip kernel bn)
    (inside : off ≤ (kernel.icache ip).size)
    (short : n.toNat ≤ (MAXOPBLOCKS - 1 - 1 - 2) / 2 * 512) :
    Sat (writei ip src off n) kernel (fun _ after => Fits kernel after) fun _ after => Fits kernel after := by
  have same : ∀ after : Kernel, after.log = kernel.log → Fits kernel after := by
    intro after log
    unfold Fits
    rw [log, sdiff_self]
    exact Nat.zero_le _
  unfold writei readInode
  rw [sat_bind, sat_bind, sat_get, sat_pure, sat_ite]
  split
  · rw [sat_ite]
    split
    · exact (sat_consolewrite ip _ kernel).mono (fun _ => same) fun _ => same
    · exact same kernel rfl
  · rw [sat_ite]
    split
    · exact same kernel rfl
    · rw [sat_ite]
      split
      · exact same kernel rfl
      · have costs : Costs ip 8 (do
            writeiLoop ip n.toNat src off.toNat n.toNat
            let inode ← readInode ip
            when (0 < n ∧ inode.size < off + n) do
              writeInode ip fun inode => { inode with size := off + n }
              iupdate ip
            pure (n.toNat : Int)) kernel fun _ _ => True := by
          refine .bind (n := 1) (costs_writeiLoop _ src short reserved ?_) fun _ middle spends _ => ?_
          · intro unaligned
            refine allocated _ ?_
            have below : off.toNat ≤ (kernel.icache ip).size.toNat := inside
            change off.toNat / 512 * 512 < _
            change off.toNat % 512 ≠ 0 at unaligned
            omega
          · unfold Costs readInode when writeInode
            rw [sat_bind, sat_bind, sat_get, sat_pure, sat_bind, sat_ite]
            split
            · have sized : Spends ip 0 middle (middle.updateInode ip fun inode => { inode with size := off + n }) := by
                refine .of_logged ∅ le_rfl ?_ id fun _ old => .inl old
                simp [Kernel.updateInode]
              rw [sat_bind, sat_modify]
              exact .mono (costs_iupdate ip _) (fun _ _ done => ⟨(sized.trans done.1).mono (by omega), trivial⟩)
                fun _ _ spends => (sized.trans spends).mono (by omega)
            · exact ⟨(Spends.refl ip middle).mono (by omega), trivial⟩
        exact .mono costs (fun _ _ done => done.1.fits) fun _ _ spends => spends.fits

/-- The root directory is locked in an open transaction. -/
@[irreducible] def writingRoot : Kernel :=
  let kernel := Kernel.boot (.image 0o755 [] [] [])
  let root : Inode :=
    { kernel.disk.dinode ROOTINO with dev := ROOTDEV, inum := ROOTINO, ref := 1, lock := some 1, valid := true }
  { kernel with
    icache := Function.update kernel.icache 0 root
    log := { kernel.log with outstanding := 1 } }

theorem writei_fits_reservation_root : ∃ after,
    writei 0 (fun _ => 7) 32 1536 writingRoot = .ok 1536 after ∧ after.log.lh.length = 6 ∧
      Fits writingRoot after := by
  have evaluated : (outcome (writei 0 (fun _ => 7) 32 1536) writingRoot).any
      (fun run => decide (run.1 = 1536 ∧ run.2.log.lh.length = 6)) = true := by
    decide +kernel
  obtain ⟨value, after, run, facts⟩ := exists_of_outcome evaluated
  obtain ⟨rfl, logged⟩ := of_decide_eq_true facts
  have allocated : ∀ bn, bn * BSIZE < (writingRoot.icache 0).size.toNat → Allocated 0 writingRoot bn := by
    intro bn below
    have size_eq : (writingRoot.icache 0).size.toNat = 32 := by decide +kernel
    rw [size_eq] at below
    obtain rfl : bn = 0 := by
      change bn * 512 < 32 at below
      omega
    exact ⟨.direct 0, by decide, by decide +kernel⟩
  have reserved : writingRoot.disk.bitmap 0 = true := by decide +kernel
  have inside : 32 ≤ (writingRoot.icache 0).size := by decide +kernel
  have short : (1536 : UInt32).toNat ≤ (MAXOPBLOCKS - 1 - 1 - 2) / 2 * 512 := by decide +kernel
  have fits := writei_fits_reservation (fun _ => 7) reserved allocated inside short
  exact ⟨after, run, logged, fits.ok run⟩

end Xv6.Log
