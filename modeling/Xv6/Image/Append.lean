import Xv6.Storage.Inodes
import Xv6.Tools.Mkfs

/-!
# What `iappend` does to the image

`iappend` keeps its own copy of the inode and writes it back at the end, as the
kernel does with an entry of its cache. Seen in this way, every turn of its loop is
a turn of the loop of `writei`: the blocks are given out in order instead of being
searched in the bitmap, and they are cleared when the image is made instead of when
they are given out.
-/

namespace Xv6.Mkfs

open Program Storage Function

/-- The disk, with the bitmap that `balloc` would write now. -/
def Image.marked (image : Image) : Disk :=
  { image.disk with bitmap := fun b => decide (b < image.freeblock) }

/-- The copy of an inode, as an entry of a cache. -/
def cached (inum : Nat) (din : Dinode) : Inode :=
  { din with dev := ROOTDEV, inum := inum, ref := 1, lock := none, valid := true }

/-- The image as the kernel would see it in the middle of a write to an inode. -/
def Image.view (image : Image) (inum : Nat) (din : Dinode) : Store where
  sb := superblock
  disk := image.marked
  icache := Function.update (fun _ => cached 0 (.fresh .free 0 0)) 0 (cached inum din)
  me := Proc.zero
  outstanding := 1

variable {image before middle after : Image} {inum : Nat} {din : Dinode}

@[simp] theorem icache_view : (image.view inum din).icache 0 = cached inum din := by
  simp [Image.view]

theorem flushed_view : (image.view inum din).flushed 0 = image.marked.setDinode inum din := by
  simp [Store.flushed, Image.view, cached]

/-- The block numbers of the inode are those of the copy. -/
theorem points_view (used : din.type ≠ .free) (slot : Slot) :
    ((image.view inum din).flushed 0).points (inum, slot) = din.points image.disk.data slot := by
  have points_eq := @points_flushed (image.view inum din) 0 (by rw [icache_view]; exact used) slot
  rw [icache_view] at points_eq
  exact points_eq

theorem view_setInode (disk : Disk) (din' : Dinode) :
    ((image.view inum din).setDisk disk).setInode 0 (cached inum din') =
      { image.view inum din' with disk := disk } := by
  simp [Store.setInode, Store.setDisk, Image.view]

/-! ## Blocks -/

/-- The blocks that were not given out are clear, and there are no more than the disk
has. -/
structure Clear (image : Image) : Prop where
  zeros : ∀ b, image.freeblock ≤ b → image.disk.data b = fun _ => 0
  within : image.freeblock ≤ FSSIZE

/-- `freeblock++`. -/
def Image.next (image : Image) : Image := { image with freeblock := image.freeblock + 1 }

/-- `wsect`. -/
def Image.put (image : Image) (sec : Nat) (buf : Block) : Image :=
  { image with disk := image.disk.setData sec buf }

/-- A clear block is as good as one that was just cleared. -/
theorem marked_next (clear : Clear image) : image.next.marked = image.marked.fresh image.freeblock := by
  have bitmap_eq : (fun b => decide (b < image.freeblock + 1)) =
      update (fun b => decide (b < image.freeblock)) image.freeblock true := by
    funext b
    by_cases here : b = image.freeblock
    · simp [here]
    · rw [update_of_ne here, decide_eq_decide]
      omega
  have data_eq : update image.disk.data image.freeblock (fun _ => 0) = image.disk.data := by
    rw [← clear.zeros _ le_rfl, update_eq_self]
  unfold Disk.fresh Disk.setData Disk.setBitmap Image.marked Image.next
  rw [bitmap_eq, data_eq]

theorem data_marked_fresh (clear : Clear image) :
    (image.marked.fresh image.freeblock).data = image.disk.data := by
  rw [← marked_next clear]
  rfl

theorem unmarked (image : Image) : image.marked.bitmap image.freeblock = false := by
  simp [Image.marked]

theorem Clear.next (clear : Clear image) (inDisk : image.freeblock < FSSIZE) : Clear image.next where
  zeros b beyond := clear.zeros b (Nat.le_of_succ_le beyond)
  within := inDisk

/-- A block that some inode has was given out. -/
theorem given_out (owned : ((image.view inum din).flushed 0).Owned superblock) {place : Place}
    (present : ((image.view inum din).flushed 0).points place ≠ 0) :
    ((image.view inum din).flushed 0).points place < image.freeblock := by
  have marked := owned.used_points present
  rw [flushed_view] at marked ⊢
  exact of_decide_eq_true marked

theorem Clear.put (clear : Clear image) {b : Nat} (given : b < image.freeblock) (block : Block) :
    Clear (image.put b block) where
  zeros b' beyond := by
    have other : b' ≠ b := (given.trans_le beyond).ne'
    rw [← clear.zeros b' beyond]
    exact update_of_ne other _ _
  within := clear.within

/-- What appending changes besides the file. -/
structure Extends (before after : Image) : Prop extends Clear after where
  freeinode : after.freeinode = before.freeinode

/-! ## The block map -/

theorem sat_rsect (sec : Nat) : Sat (rsect sec) image
    (fun block after => sec < FSSIZE ∧ block = image.disk.data sec ∧ after = image)
    fun _ _ => True := by
  unfold rsect
  rw [sat_ite]
  split
  · rename_i inDisk
    exact ⟨inDisk, rfl, rfl⟩
  · trivial

/-- A slot of the inode has a block already, or it takes the next one. -/
theorem sat_slot (din : Dinode) (i : Fin (NDIRECT + 1)) : Sat (slot din i) image
    (fun din' after => (din.addrs i ≠ 0 ∧ din' = din ∧ after = image) ∨
      (din.addrs i = 0 ∧ after = image.next ∧
        din' = { din with addrs := update din.addrs i image.freeblock }))
    fun _ _ => True := by
  unfold slot
  rw [sat_ite]
  split
  · rename_i empty
    exact .inr ⟨empty, rfl, rfl⟩
  · rename_i present
    exact .inl ⟨present, rfl, rfl⟩

/-- The next block in a slot of the inode. -/
theorem grew_next {i : Fin (NDIRECT + 1)} {slot : Slot} (clear : Clear image)
    (inDisk : image.freeblock < FSSIZE)
    (link_eq : ∀ (disk : Disk) (inum b : Nat), disk.link inum slot b =
      disk.setDinode inum { disk.dinode inum with
        addrs := update (disk.dinode inum).addrs i b }) :
    Grew 0 slot image.freeblock (image.view inum din)
      (image.next.view inum { din with addrs := update din.addrs i image.freeblock }) := by
  have grew := @grew_slot (image.view inum din) 0 i slot image.freeblock inDisk (unmarked image)
    link_eq
  have viewed : image.next.view inum
      { din with addrs := update din.addrs i image.freeblock } =
      ((image.view inum din).setDisk (image.marked.fresh image.freeblock)).setInode 0
        (cached inum { din with addrs := update din.addrs i image.freeblock }) := by
    rw [view_setInode, ← marked_next clear]
    rfl
  rw [icache_view] at grew
  rw [viewed]
  exact grew

/-- The next block in an entry of the indirect block. -/
theorem grew_next_entry {j : Fin NINDIRECT} (clear : Clear image)
    (inDisk : image.freeblock < FSSIZE) :
    Grew 0 (.entry j) image.freeblock (image.view inum din)
      ((image.next.put (din.addrs (Fin.last NDIRECT)) (Words.setWord
        (image.disk.data (din.addrs (Fin.last NDIRECT))) j image.freeblock)).view inum din) := by
  have grew := @grew_entry (image.view inum din) 0 j image.freeblock inDisk (unmarked image)
  rw [icache_view] at grew
  have disk_eq : (image.view inum din).disk = image.marked := rfl
  rw [disk_eq, data_marked_fresh clear, ← marked_next clear] at grew
  exact grew

/-- A block that the file has. -/
theorem mapped_same {slot : Slot} {fbn : Nat}
    (owned : ((image.view inum din).flushed 0).Owned superblock) (slot_eq : slotOf fbn = some slot)
    (present : ((image.view inum din).flushed 0).points (inum, slot) ≠ 0) :
    Mapped 0 fbn (image.view inum din) (((image.view inum din).flushed 0).points (inum, slot))
      (image.view inum din) := by
  have mapped := @mapped_of_present (image.view inum din) 0 slot fbn owned slot_eq
  rw [icache_view] at mapped
  exact mapped present

/-- A block that the file takes. -/
theorem mapped_next {slot : Slot} {fbn b : Nat} {din' : Dinode}
    (owned : ((image.view inum din).flushed 0).Owned superblock) (used : din.type ≠ .free)
    (grew : Grew 0 slot b (image.view inum din) (after.view inum din'))
    (slot_eq : slotOf fbn = some slot)
    (empty : ((image.view inum din).flushed 0).points (inum, slot) = 0)
    (ready : Ready ((image.view inum din).flushed 0) inum slot) :
    Mapped 0 fbn (image.view inum din) b (after.view inum din') := by
  have mapped := @mapped_of_grew (image.view inum din) (after.view inum din') 0 slot fbn b owned
  rw [icache_view] at mapped
  exact mapped used grew slot_eq empty ready

/-- What the block map leaves, if the sector it returns is on the disk. -/
def Maps (inum : Nat) (din : Dinode) (fbn : Nat) (image : Image) (result : Dinode × Nat)
    (after : Image) : Prop :=
  result.2 < FSSIZE →
    Mapped 0 fbn (image.view inum din) result.2 (after.view inum result.1) ∧ Extends image after

/-- The entry of the indirect block. -/
theorem sat_entry {fbn : Nat} (clear : Clear image)
    (owned : ((image.view inum din).flushed 0).Owned superblock) (used : din.type ≠ .free)
    (beyond : ¬fbn < NDIRECT) (entry : fbn - NDIRECT < NINDIRECT)
    (indirect : din.addrs (Fin.last NDIRECT) ≠ 0) :
    Sat (do
      if Words.word (image.disk.data (din.addrs (Fin.last NDIRECT))) (fbn - NDIRECT) = 0 then do
        let b ← nextblock
        wsect (din.addrs (Fin.last NDIRECT))
          (Words.setWord (image.disk.data (din.addrs (Fin.last NDIRECT))) (fbn - NDIRECT) b)
        pure (din, b)
      else pure (din, Words.word (image.disk.data (din.addrs (Fin.last NDIRECT))) (fbn - NDIRECT)))
      image (Maps inum din fbn image) fun _ _ => True := by
  have slot_eq := slotOf_entry beyond entry
  have indirect_eq := @points_view image inum din used .indirect
  have points_eq : ((image.view inum din).flushed 0).points (inum, .entry ⟨fbn - NDIRECT, entry⟩) =
      Words.word (image.disk.data (din.addrs (Fin.last NDIRECT))) (fbn - NDIRECT) :=
    (points_view used _).trans (if_neg indirect)
  have ready : ((image.view inum din).flushed 0).points (inum, .indirect) ≠ 0 :=
    indirect_eq.trans_ne indirect
  have given : din.addrs (Fin.last NDIRECT) < image.freeblock :=
    indirect_eq.symm.trans_lt (given_out owned ready)
  rw [sat_ite]
  split
  · rename_i empty
    intro (inDisk : image.freeblock < FSSIZE)
    refine ⟨?_, (clear.next inDisk).put (Nat.lt_succ_of_lt given) _, rfl⟩
    exact mapped_next owned used (grew_next_entry clear inDisk) slot_eq (points_eq.trans empty) ready
  · rename_i present
    intro _
    refine ⟨?_, clear, rfl⟩
    rw [← points_eq]
    exact mapped_same owned slot_eq (points_eq.trans_ne present)

/-- The block map finds or adds the block. -/
theorem sat_iblock {fbn : Nat} (clear : Clear image)
    (owned : ((image.view inum din).flushed 0).Owned superblock) (used : din.type ≠ .free)
    (inRange : fbn < MAXFILE) :
    Sat (iblock din fbn) image (Maps inum din fbn image) fun _ _ => True := by
  unfold iblock
  split
  · rename_i direct
    have slot_eq := slotOf_direct direct
    have points_eq := @points_view image inum din used (.direct ⟨fbn, direct⟩)
    refine (sat_slot din _).bind fun din' after found => ?_
    rcases found with ⟨present, rfl, rfl⟩ | ⟨empty, rfl, rfl⟩
    · intro _
      refine ⟨?_, clear, rfl⟩
      have mapped := mapped_same owned slot_eq (points_eq.trans_ne present)
      rw [points_eq] at mapped
      exact mapped
    · have taken : update din.addrs (Fin.castSucc ⟨fbn, direct⟩) image.freeblock
          (Fin.castSucc ⟨fbn, direct⟩) = image.freeblock := update_self _ _ _
      intro inDisk
      change update din.addrs _ _ _ < FSSIZE at inDisk
      rw [taken] at inDisk
      refine ⟨?_, clear.next inDisk, rfl⟩
      change Mapped 0 fbn _ (update din.addrs _ _ _) _
      rw [taken]
      exact mapped_next owned used (grew_next clear inDisk fun _ _ _ => rfl) slot_eq
        (points_eq.trans empty) trivial
  · rename_i beyond
    have entry : fbn - NDIRECT < NINDIRECT := by
      change fbn - 12 < 128
      change fbn < 140 at inRange
      omega
    have points_eq := @points_view image inum din used .indirect
    refine (sat_slot din _).bind fun din' middle found => ?_
    refine (sat_rsect _).bind fun indirect same read => ?_
    obtain ⟨inDisk, rfl, rfl⟩ := read
    rcases found with ⟨present, rfl, rfl⟩ | ⟨empty, rfl, rfl⟩
    · exact sat_entry clear owned used beyond entry present
    · have taken : update din.addrs (Fin.last NDIRECT) image.freeblock
          (Fin.last NDIRECT) = image.freeblock := update_self _ _ _
      change update din.addrs (Fin.last NDIRECT) image.freeblock (Fin.last NDIRECT) <
        FSSIZE at inDisk
      rw [taken] at inDisk
      have grew := @grew_next image inum din _ .indirect clear inDisk fun _ _ _ => rfl
      have owned' : ((image.next.view inum { din with
          addrs := update din.addrs (Fin.last NDIRECT) image.freeblock }).flushed 0).Owned
          superblock := by
        rw [grew.flushed]
        exact owned_grow owned grew.inDisk grew.unused (by
          rw [dinode_flushed, icache_view]
          exact used) (by
          rw [icache_view]
          exact points_eq.trans empty) trivial
      refine (sat_entry (clear.next inDisk) owned' used beyond entry (by
        change update din.addrs (Fin.last NDIRECT) image.freeblock (Fin.last NDIRECT) ≠ 0
        rw [taken]
        exact (owned.unowned grew.inDisk grew.unused).1)).weaken fun result after maps inDisk' => ?_
      obtain ⟨mapped, extended⟩ := maps inDisk'
      refine ⟨mapped.of_indirect owned (by rw [icache_view]; exact used) grew (by
        rw [icache_view]
        exact points_eq.trans empty) (slotOf_entry beyond entry), extended.toClear, extended.freeinode⟩

/-! ## The loop -/

/-- The part of a turn inside of the block. -/
theorem chunk_eq (off n : Nat) : min n ((off / BSIZE + 1) * BSIZE - off) = chunk off n := by
  change min n ((off / 512 + 1) * 512 - off) = min n (512 - off % 512)
  omega

theorem sat_iappendLoop (fuel : Nat) (off : Nat) (p : Nat → Byte) (n : Nat) (enough : n ≤ fuel)
    (clear : Clear image) (owned : ((image.view inum din).flushed 0).Owned superblock)
    (used : din.type ≠ .free) :
    Sat (iappendLoop fuel din off p n) image (fun result after =>
      result.2 = off + n ∧ (0 < n → off + n ≤ MAXFILE * BSIZE) ∧
        Written 0 off n p (image.view inum din) (after.view inum result.1) ∧ Extends image after)
      fun _ _ => True := by
  induction fuel generalizing image din off p n with
  | zero =>
    obtain rfl : n = 0 := Nat.le_zero.mp enough
    exact ⟨rfl, fun some => absurd some (lt_irrefl 0), .refl owned off p, clear, rfl⟩
  | succ fuel ih =>
    unfold iappendLoop
    rw [sat_ite]
    split
    · rename_i empty
      subst empty
      exact ⟨rfl, fun some => absurd some (lt_irrefl 0), .refl owned off p, clear, rfl⟩
    rename_i some
    have positive : 0 < n := Nat.pos_of_ne_zero some
    obtain ⟨progress, within, inBlock⟩ := chunk_spec off positive
    rw [sat_ite]
    split
    swap
    · trivial
    rename_i inRange
    have start_eq : off - off / BSIZE * BSIZE = off % BSIZE := by
      change off - off / 512 * 512 = off % 512
      omega
    refine (sat_iblock clear owned used inRange).bind fun result middle maps => ?_
    obtain ⟨din', x⟩ := result
    refine (sat_rsect x).bind fun block same read => ?_
    obtain ⟨inDisk, rfl, rfl⟩ := read
    obtain ⟨(mapped : Mapped 0 (off / BSIZE) (image.view inum din) x (same.view inum din')),
      extended⟩ := maps inDisk
    rw [chunk_eq, start_eq]
    have turn := written_turn p mapped progress inBlock
    obtain ⟨slot, slot_eq, address⟩ := mapped.address
    have given : x < same.freeblock := by
      rw [← address]
      exact given_out mapped.owned (address.trans_ne mapped.present)
    have rest := @ih (same.put x (overwrite (same.disk.data x) (off % BSIZE)
      (chunk off n) p)) din' (off + chunk off n) (fun i => p (chunk off n + i)) (n - chunk off n)
      (by omega) (extended.toClear.put given _) turn.owned (by
        have type_eq := mapped.type
        rw [icache_view, icache_view] at type_eq
        exact type_eq.trans_ne used)
    refine Sat.weaken rest fun result after done => ?_
    obtain ⟨offset, bound, written, extended'⟩ := done
    refine ⟨by omega, fun _ => ?_, ?_, extended'.toClear, ?_⟩
    · by_cases last : 0 < n - chunk off n
      · have bound := bound last
        omega
      · change off / 512 < 140 at inRange
        change chunk off n ≤ 512 - off % 512 at inBlock
        change off + n ≤ 140 * 512
        omega
    · have whole := turn.trans written
      rwa [Nat.add_sub_cancel' within] at whole
    · exact extended'.freeinode.trans extended.freeinode

/-! ## The call -/

/-- The image after bytes were appended to a file. -/
structure Appends (inum : Nat) (p : List Byte) (before after : Image) : Prop
    extends Extends before after where
  owned : after.marked.Owned superblock
  fields : after.disk.dinode inum = { before.disk.dinode inum with
    size := (after.disk.dinode inum).size, addrs := (after.disk.dinode inum).addrs }
  size : (after.disk.dinode inum).size.toNat = (before.disk.dinode inum).size.toNat + p.length
  dinode : ∀ inum', inum' ≠ inum → after.disk.dinode inum' = before.disk.dinode inum'
  file : after.disk.file = Function.update before.disk.file inum
    (Sparse.splice BSIZE (before.disk.file inum) (before.disk.dinode inum).size.toNat p.length
      fun i => p.getD i 0)

/-- Writing back a copy that is no different. -/
theorem flushed_self (image : Image) (inum : Nat) :
    (image.view inum (image.disk.dinode inum)).flushed 0 = image.marked := by
  rw [flushed_view]
  exact congrArg (fun dinode => { image.marked with dinode }) (update_eq_self _ _)

theorem sat_iappend (inum : Nat) (p : List Byte) (clear : Clear image)
    (owned : image.marked.Owned superblock) (used : (image.disk.dinode inum).type ≠ .free) :
    Sat (iappend inum p) image (fun _ after => Appends inum p image after) fun _ _ => True := by
  have owned' : ((image.view inum (image.disk.dinode inum)).flushed 0).Owned superblock := by
    rw [flushed_self]
    exact owned
  refine (sat_iappendLoop p.length (image.disk.dinode inum).size.toNat (fun i => p.getD i 0) p.length
    le_rfl clear owned' used).bind fun result after done => ?_
  obtain ⟨din, off⟩ := result
  obtain ⟨rfl, bound, written, extended⟩ := done
  have copy : din = { image.disk.dinode inum with addrs := din.addrs } := by
    have self := congrArg Inode.toDinode written.self
    rw [icache_view, icache_view] at self
    exact self
  have size_eq : (UInt32.ofNat ((image.disk.dinode inum).size.toNat + p.length)).toNat =
      (image.disk.dinode inum).size.toNat + p.length := by
    have small := (image.disk.dinode inum).size.toNat_lt
    rw [UInt32.toNat_ofNat']
    refine Nat.mod_eq_of_lt ?_
    rcases Nat.eq_zero_or_pos p.length with none | some
    · omega
    · have bound : (image.disk.dinode inum).size.toNat + p.length ≤ 140 * 512 := bound some
      omega
  -- the size makes no difference to the blocks
  have points_eq := @points_setDinode_congr after.marked inum din
    { din with size := .ofNat ((image.disk.dinode inum).size.toNat + p.length) } rfl rfl
  have self_eq : (after.disk.setDinode inum
      { din with size := .ofNat ((image.disk.dinode inum).size.toNat + p.length) }).dinode inum =
      { din with size := .ofNat ((image.disk.dinode inum).size.toNat + p.length) } :=
    update_self _ _ _
  have dinode_eq : after.disk.dinode = image.disk.dinode := written.dinode
  refine ⟨⟨⟨extended.zeros, extended.within⟩, extended.freeinode⟩, ?_, ?_, ?_, fun inum' other => ?_, ?_⟩
  · have owned := written.owned
    rw [flushed_view] at owned
    exact owned_of_points owned points_eq rfl
  · change (after.disk.setDinode inum _).dinode inum = _
    rw [self_eq, copy]
  · change ((after.disk.setDinode inum _).dinode inum).size.toNat = _
    rw [self_eq]
    exact size_eq
  · exact (update_of_ne other _ _).trans (congrFun dinode_eq inum')
  · have files := written.files
    rw [flushed_view] at files
    have file_eq := (file_eq_of_points points_eq rfl).trans files
    unfold Store.file at file_eq
    rw [flushed_self, icache_view] at file_eq
    exact file_eq

variable {p : List Byte}

theorem Appends.content_of_ne (appends : Appends inum p before after) {inum' : Nat}
    (other : inum' ≠ inum) : after.disk.content inum' = before.disk.content inum' := by
  unfold Disk.content
  rw [appends.file, update_of_ne other, appends.dinode inum' other]

/-- The bytes are behind the others. -/
theorem Appends.content (appends : Appends inum p before after) :
    after.disk.content inum = before.disk.content inum ++ p := by
  have spliced := @Sparse.content_splice Byte _ BSIZE (before.disk.file inum) (by decide)
    (before.disk.dinode inum).size.toNat (before.disk.dinode inum).size.toNat p.length
    (fun i => p.getD i 0) le_rfl
  have length_eq : (before.disk.content inum).length = (before.disk.dinode inum).size.toNat :=
    Sparse.length_content _
  have source : (List.range p.length).map (fun i => p.getD i 0) = p := by
    refine List.ext_getElem (by simp) fun i below _ => ?_
    simp at below
    simp [below]
  unfold Disk.content at length_eq ⊢
  rw [appends.file, update_self, appends.size]
  rw [max_eq_right (Nat.le_add_right _ _), source, List.take_of_length_le length_eq.le,
    List.drop_eq_nil_of_le (length_eq.le.trans (Nat.le_add_right _ _)), List.append_nil] at spliced
  exact spliced

/-- No block below the size is missing. -/
theorem Appends.filled (appends : Appends inum p before after)
    (filled : ∀ bn, bn * BSIZE < (before.disk.dinode inum).size.toNat →
      (before.disk.file inum bn).isSome = true) {bn : Nat}
    (below : bn * BSIZE < (after.disk.dinode inum).size.toNat) :
    (after.disk.file inum bn).isSome = true := by
  rw [appends.file, update_self, Sparse.isSome_splice]
  rw [appends.size] at below
  by_cases old : bn * BSIZE < (before.disk.dinode inum).size.toNat
  · exact .inr (filled bn old)
  · have positive : 0 < BSIZE := by decide
    refine .inl ?_
    unfold Sparse.Touches
    rw [Nat.add_mul, Nat.one_mul]
    omega

end Xv6.Mkfs
