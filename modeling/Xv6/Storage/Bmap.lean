import Xv6.Storage.Blocks

/-!
# What `bmap` does to a file

A cached inode may be ahead of its copy on the disk: `bmap` stores new block
numbers in the cache only. Its file is the one on the flushed disk, with the
cached copy in place of the other. `bmap` makes sure that this file has a block,
and leaves everything else as it was.
-/

namespace Xv6

open Function

/-- The disk with the cached copy of an inode written to it. -/
def Store.flushed (store : Store) (ip : InodePtr) : Disk :=
  store.disk.setDinode (store.icache ip).inum (store.icache ip).toDinode

/-- The file of a cached inode. -/
def Store.file (store : Store) (ip : InodePtr) : Sparse.File Byte :=
  (store.flushed ip).file (store.icache ip).inum

namespace Storage

/-- The faults that a full disk or a full log makes unavoidable. -/
structure Tolerant (allowed : Fault → Prop) (outstanding : Int) : Prop where
  tooBig : allowed (.panic .tooBigTransaction)
  noBlocks : allowed (.panic .ballocOutOfBlocks)
  outside : 1 ≤ outstanding ∨ allowed (.panic .logWriteOutside)

variable {allowed : Fault → Prop} {store before middle after : Store} {ip : InodePtr}

/-! ## The log and the allocator -/

section

variable (tolerant : Tolerant allowed store.outstanding)

include tolerant

theorem stores_logWrite (blockno : Nat) :
    Stores allowed (logWrite blockno) store fun _ after => after = store := by
  refine .bind (stores_emit _) fun _ after same => ?_
  subst same
  refine .get fun kernel viewed => .ite (fun _ => .throw tolerant.tooBig) fun _ => ?_
  refine .ite (fun outside => .throw ?_) fun _ => ?_
  · refine tolerant.outside.resolve_left fun inside => ?_
    rw [← viewed] at inside
    exact absurd outside (not_lt.mpr inside)
  · exact .ite (fun _ => .pure rfl) fun _ => .modify fun _ viewed => viewed

theorem stores_balloc :
    Stores allowed balloc store fun b after =>
      b < store.sb.size ∧ store.disk.bitmap b = false ∧
        after = store.setDisk (store.disk.fresh b) := by
  refine .get fun kernel viewed => ?_
  subst viewed
  split
  · exact .throw tolerant.noBlocks
  · rename_i b found
    have inDisk : b < kernel.sb.size := List.mem_range.mp (List.mem_of_find?_eq_some found)
    have unused : kernel.disk.bitmap b = false := by simpa using List.find?_some found
    refine .bind (stores_setBitmap b true) fun _ marked marked_eq => ?_
    have tolerant' : Tolerant allowed marked.outstanding := by rw [marked_eq]; exact tolerant
    refine .bind (stores_logWrite tolerant' _) fun _ logged logged_eq => ?_
    subst logged_eq
    have zeroing : Stores allowed (bzero b) logged fun _ after =>
        after = logged.setDisk (logged.disk.setData b fun _ => 0) := by
      refine .bind (stores_setData b (fun _ _ => 0) (fun _ _ => 0) fun _ => rfl)
        fun _ zeroed zeroed_eq => ?_
      have tolerant'' : Tolerant allowed zeroed.outstanding := by rw [zeroed_eq]; exact tolerant'
      exact .mono (stores_logWrite tolerant'' b) fun _ _ same => same.trans zeroed_eq
    refine .bind zeroing fun _ after zeroed => .pure ⟨inDisk, unused, ?_⟩
    rw [zeroed, marked_eq]
    rfl

theorem stores_iupdate (ip : InodePtr) :
    Stores allowed (iupdate ip) store fun _ after =>
      after = store.setDisk (store.flushed ip) := by
  refine .bind (stores_emit _) fun _ after same => ?_
  subst same
  refine .get fun kernel viewed => ?_
  subst viewed
  refine .bind (stores_setDinode _ _) fun _ updated updated_eq => ?_
  have tolerant' : Tolerant allowed updated.outstanding := by rw [updated_eq]; exact tolerant
  exact .mono (stores_logWrite tolerant' _) fun _ _ same => same.trans updated_eq

end

/-! ## One slot -/

/-- The address in one slot of an inode, before and after `bmapSlot`. -/
theorem stores_bmapSlot (tolerant : Tolerant allowed store.outstanding) (ip : InodePtr)
    (slot : Fin (NDIRECT + 1)) :
    Stores allowed (bmapSlot ip slot) store fun addr after =>
      ((store.icache ip).addrs slot ≠ 0 ∧ addr = (store.icache ip).addrs slot ∧ after = store) ∨
        ((store.icache ip).addrs slot = 0 ∧ addr < store.sb.size ∧
          store.disk.bitmap addr = false ∧
          after = (store.setDisk (store.disk.fresh addr)).setInode ip { store.icache ip with
            addrs := update (store.icache ip).addrs slot addr }) := by
  refine .bind (stores_readInode ip) fun inode after read => ?_
  obtain ⟨rfl, rfl⟩ := read
  refine .ite (fun empty => ?_) fun present => .pure (.inl ⟨present, rfl, rfl⟩)
  refine .bind (stores_balloc tolerant) fun addr allocated found => ?_
  obtain ⟨inDisk, unused, rfl⟩ := found
  refine .bind (stores_writeInode ip _) fun _ linked linked_eq => .pure ?_
  exact .inr ⟨empty, inDisk, unused, linked_eq⟩

/-! ## Growing a file -/

/-- Everything but the block numbers of one cached inode, the bitmap and the data
is as before. -/
structure Grown (ip : InodePtr) (before after : Store) : Prop where
  sb : after.sb = before.sb
  me : after.me = before.me
  outstanding : after.outstanding = before.outstanding
  dinode : after.disk.dinode = before.disk.dinode
  others : ∀ ip', ip' ≠ ip → after.icache ip' = before.icache ip'
  self : after.icache ip = { before.icache ip with addrs := (after.icache ip).addrs }

theorem Grown.refl (store : Store) : Grown ip store store :=
  ⟨rfl, rfl, rfl, rfl, fun _ _ => rfl, rfl⟩

theorem Grown.trans (first : Grown ip before middle) (second : Grown ip middle after) :
    Grown ip before after where
  sb := second.sb.trans first.sb
  me := second.me.trans first.me
  outstanding := second.outstanding.trans first.outstanding
  dinode := second.dinode.trans first.dinode
  others ip' other := (second.others ip' other).trans (first.others ip' other)
  self := by
    rw [second.self, first.self]

theorem Grown.inum (grown : Grown ip before after) :
    (after.icache ip).inum = (before.icache ip).inum := by
  rw [grown.self]

theorem Grown.type (grown : Grown ip before after) :
    (after.icache ip).type = (before.icache ip).type := by
  rw [grown.self]

theorem Grown.size (grown : Grown ip before after) :
    (after.icache ip).size = (before.icache ip).size := by
  rw [grown.self]

theorem grown_setDisk {disk : Disk} (dinode : disk.dinode = store.disk.dinode) :
    Grown ip store (store.setDisk disk) :=
  ⟨rfl, rfl, rfl, dinode, fun _ _ => rfl, rfl⟩

/-- The store after one more block was added to the file of an inode. -/
structure Grew (ip : InodePtr) (slot : Slot) (b : Nat) (before after : Store) : Prop
    extends Grown ip before after where
  inDisk : b < before.sb.size
  unused : before.disk.bitmap b = false
  flushed : after.flushed ip = ((before.flushed ip).fresh b).link (before.icache ip).inum slot b

theorem dinode_flushed (store : Store) (ip : InodePtr) :
    (store.flushed ip).dinode (store.icache ip).inum = (store.icache ip).toDinode := by
  simp [Store.flushed, Disk.setDinode]

/-- A new block in a slot of the inode itself. -/
theorem grew_slot {slot : Fin (NDIRECT + 1)} {slot' : Slot} {addr : Nat}
    (inDisk : addr < store.sb.size) (unused : store.disk.bitmap addr = false)
    (link_eq : ∀ (disk : Disk) (inum b : Nat), disk.link inum slot' b =
      disk.setDinode inum { disk.dinode inum with
        addrs := update (disk.dinode inum).addrs slot b }) :
    Grew ip slot' addr store ((store.setDisk (store.disk.fresh addr)).setInode ip
      { store.icache ip with addrs := update (store.icache ip).addrs slot addr }) where
  sb := rfl
  me := rfl
  outstanding := rfl
  dinode := rfl
  others ip' other := icache_setInode_of_ne _ other
  self := by simp
  inDisk := inDisk
  unused := unused
  flushed := by
    rw [link_eq]
    simp [Store.flushed, Disk.fresh, Disk.setDinode, Disk.setData, Disk.setBitmap, Store.setDisk,
      Store.setInode]

/-- A new block in an entry of the indirect block. -/
theorem grew_entry {j : Fin NINDIRECT} {addr : Nat} (inDisk : addr < store.sb.size)
    (unused : store.disk.bitmap addr = false) :
    Grew ip (.entry j) addr store (store.setDisk ((store.disk.fresh addr).setData
      ((store.icache ip).addrs (Fin.last NDIRECT))
      (Words.setWord ((store.disk.fresh addr).data ((store.icache ip).addrs (Fin.last NDIRECT))) j
        addr))) where
  toGrown := grown_setDisk rfl
  inDisk := inDisk
  unused := unused
  flushed := by
    simp [Store.flushed, Disk.link, Disk.fresh, Disk.setDinode, Disk.setData, Disk.setBitmap,
      Store.setDisk]

/-- The store after `bmap`: the file has the block, at the address returned. -/
structure Mapped (ip : InodePtr) (bn : Nat) (before : Store) (addr : Nat) (after : Store) : Prop
    extends Grown ip before after where
  owned : (after.flushed ip).Owned after.sb
  present : addr ≠ 0
  address : ∃ slot, slotOf bn = some slot ∧
    (after.flushed ip).points ((before.icache ip).inum, slot) = addr
  file : (after.flushed ip).file = Function.update (before.flushed ip).file (before.icache ip).inum
    (Function.update (before.file ip) bn (some (Sparse.block (before.file ip) bn)))
  unchanged : (before.file ip bn).isSome = true → after = before

theorem used_flushed (used : (store.icache ip).type ≠ .free) :
    ((store.flushed ip).dinode (store.icache ip).inum).type ≠ .free := by
  rw [dinode_flushed]
  exact used

/-- Only an inode in use has blocks. -/
theorem used_of_points {disk : Disk} {place : Place} (present : disk.points place ≠ 0) :
    (disk.dinode place.1).type ≠ .free :=
  fun free => present (if_pos free)

theorem points_flushed (used : (store.icache ip).type ≠ .free) (slot : Slot) :
    (store.flushed ip).points ((store.icache ip).inum, slot) =
      (store.icache ip).points store.disk.data slot := by
  rw [points_of_used (used_flushed used), dinode_flushed]
  rfl

theorem mapped_of_present {slot : Slot} {bn : Nat} (owned : (store.flushed ip).Owned store.sb)
    (slot_eq : slotOf bn = some slot)
    (present : (store.flushed ip).points ((store.icache ip).inum, slot) ≠ 0) :
    Mapped ip bn store ((store.flushed ip).points ((store.icache ip).inum, slot)) store where
  toGrown := .refl store
  owned := owned
  present := present
  address := ⟨slot, slot_eq, rfl⟩
  file := by
    have here : store.file ip bn = some (Sparse.block (store.file ip) bn) := by
      simp [Sparse.block, Store.file, file_of_slot slot_eq, present]
    rw [← here, update_eq_self]
    exact (update_eq_self _ _).symm
  unchanged _ := rfl

theorem mapped_of_grew {slot : Slot} {bn addr : Nat} (owned : (store.flushed ip).Owned store.sb)
    (used : (store.icache ip).type ≠ .free) (grew : Grew ip slot addr store after)
    (slot_eq : slotOf bn = some slot)
    (empty : (store.flushed ip).points ((store.icache ip).inum, slot) = 0)
    (ready : Ready (store.flushed ip) (store.icache ip).inum slot) :
    Mapped ip bn store addr after where
  toGrown := grew.toGrown
  owned := by
    rw [grew.flushed, grew.sb]
    exact owned_grow owned grew.inDisk grew.unused (used_flushed used) empty ready
  present := (owned.unowned grew.inDisk grew.unused).1
  address := by
    refine ⟨slot, slot_eq, ?_⟩
    rw [grew.flushed, points_grow owned grew.inDisk grew.unused (used_flushed used) empty ready,
      update_self]
  file := by
    rw [grew.flushed, file_grow owned grew.inDisk grew.unused (used_flushed used) empty ready
      slot_eq]
    have absent : Sparse.block (store.file ip) bn = fun _ => 0 := by
      simp [Sparse.block, Store.file, file_of_slot slot_eq, empty]
      rfl
    rw [absent]
    rfl
  unchanged here := by
    simp [Store.file, file_of_slot slot_eq, empty] at here

theorem slotOf_direct {bn : Nat} (direct : bn < NDIRECT) :
    slotOf bn = some (.direct ⟨bn, direct⟩) := by
  simp [slotOf, direct]

theorem slotOf_entry {bn : Nat} (beyond : ¬bn < NDIRECT) (entry : bn - NDIRECT < NINDIRECT) :
    slotOf bn = some (.entry ⟨bn - NDIRECT, entry⟩) := by
  unfold slotOf
  rw [dif_neg beyond, dif_pos entry]

/-- A block mapped after the file got its indirect block. -/
theorem Mapped.of_indirect {b bn addr : Nat} {j : Fin NINDIRECT}
    (mapped : Mapped ip bn middle addr after) (owned : (before.flushed ip).Owned before.sb)
    (used : (before.icache ip).type ≠ .free) (grew : Grew ip .indirect b before middle)
    (empty : (before.flushed ip).points ((before.icache ip).inum, .indirect) = 0)
    (slot_eq : slotOf bn = some (.entry j)) : Mapped ip bn before addr after where
  toGrown := grew.toGrown.trans mapped.toGrown
  owned := mapped.owned
  present := mapped.present
  address := by
    rw [← grew.inum]
    exact mapped.address
  file := by
    have same : (middle.flushed ip).file = (before.flushed ip).file := by
      rw [grew.flushed]
      exact file_grow_indirect owned grew.inDisk grew.unused (used_flushed used) empty
    have file_eq : middle.file ip = before.file ip := by
      unfold Store.file
      rw [same, grew.inum]
    rw [mapped.file, same, file_eq, grew.inum]
  unchanged here := by
    have absent : (before.flushed ip).points ((before.icache ip).inum, .entry j) = 0 := by
      rw [points_flushed used] at empty ⊢
      exact if_pos empty
    simp [Store.file, file_of_slot slot_eq, absent] at here

/-- The entry for a block, once there is an indirect block. -/
theorem stores_bmapEntry (tolerant : Tolerant allowed store.outstanding)
    (owned : (store.flushed ip).Owned store.sb) (used : (store.icache ip).type ≠ .free) {bn : Nat}
    (beyond : ¬bn < NDIRECT) (entry : bn - NDIRECT < NINDIRECT)
    (indirect : (store.icache ip).addrs (Fin.last NDIRECT) ≠ 0) :
    Stores allowed (do
      let addr := Words.word ((← get).disk.data ((store.icache ip).addrs (Fin.last NDIRECT)))
        (bn - NDIRECT)
      if addr = 0 then do
        let addr ← balloc
        modify fun kernel => kernel.setData ((store.icache ip).addrs (Fin.last NDIRECT))
          (Words.setWord (kernel.disk.data ((store.icache ip).addrs (Fin.last NDIRECT)))
            (bn - NDIRECT) addr)
        logWrite ((store.icache ip).addrs (Fin.last NDIRECT))
        pure addr
      else pure addr) store fun addr after => Mapped ip bn store addr after := by
  have slot_eq := slotOf_entry beyond entry
  have points_eq : (store.flushed ip).points ((store.icache ip).inum, .entry ⟨bn - NDIRECT, entry⟩) =
      Words.word (store.disk.data ((store.icache ip).addrs (Fin.last NDIRECT))) (bn - NDIRECT) := by
    rw [points_flushed used]
    exact if_neg indirect
  have ready : Ready (store.flushed ip) (store.icache ip).inum (.entry ⟨bn - NDIRECT, entry⟩) := by
    change (store.flushed ip).points _ ≠ 0
    rw [points_flushed used]
    exact indirect
  refine .get fun kernel viewed => ?_
  have data_eq : kernel.disk.data = store.disk.data := by rw [← viewed]; rfl
  rw [data_eq, ← points_eq]
  refine .ite (fun empty => ?_) fun present => .pure (mapped_of_present owned slot_eq present)
  refine .bind (stores_balloc tolerant) fun addr allocated found => ?_
  obtain ⟨inDisk, unused, rfl⟩ := found
  refine .bind (stores_setData _ _
    (fun store' => Words.setWord
      (store'.disk.data ((store.icache ip).addrs (Fin.last NDIRECT))) (bn - NDIRECT) addr)
    fun _ => rfl) fun _ linked linked_eq => ?_
  have tolerant' : Tolerant allowed linked.outstanding := by rw [linked_eq]; exact tolerant
  refine .bind (stores_logWrite tolerant' _) fun _ after same => .pure ?_
  rw [same, linked_eq]
  exact mapped_of_grew owned used (grew_entry inDisk unused) slot_eq empty ready

theorem stores_bmap (tolerant : Tolerant allowed store.outstanding)
    (owned : (store.flushed ip).Owned store.sb) (used : (store.icache ip).type ≠ .free) {bn : Nat}
    (inRange : bn < MAXFILE) :
    Stores allowed (bmap ip bn) store fun addr after => Mapped ip bn store addr after := by
  unfold bmap
  split
  · rename_i direct
    have slot_eq := slotOf_direct direct
    have points_eq := points_flushed used (.direct ⟨bn, direct⟩)
    refine .mono (stores_bmapSlot tolerant ip _) fun addr after outcome => ?_
    rcases outcome with ⟨present, rfl, rfl⟩ | ⟨empty, inDisk, unused, rfl⟩
    · have mapped := mapped_of_present owned slot_eq (by rw [points_eq]; exact present)
      rw [points_eq] at mapped
      exact mapped
    · exact mapped_of_grew owned used (grew_slot inDisk unused fun _ _ _ => rfl) slot_eq
        (points_eq.trans empty) trivial
  · rename_i beyond
    have entry : bn - NDIRECT < NINDIRECT := by
      change bn < 12 + 512 / 4 at inRange
      change bn - 12 < 512 / 4
      omega
    rw [if_pos entry]
    refine .bind (stores_bmapSlot tolerant ip _) fun indirect middle outcome => ?_
    rcases outcome with ⟨present, rfl, rfl⟩ | ⟨empty, inDisk, unused, rfl⟩
    · exact stores_bmapEntry tolerant owned used beyond entry present
    · have grew : Grew ip .indirect indirect store _ :=
        grew_slot inDisk unused fun _ _ _ => rfl
      have noEntry : (store.flushed ip).points ((store.icache ip).inum, .indirect) = 0 :=
        (points_flushed used .indirect).trans empty
      have owned' := owned_grow owned inDisk unused (used_flushed used) noEntry trivial
      rw [← grew.flushed] at owned'
      have nonzero := (owned.unowned inDisk unused).1
      generalize middle_eq : (store.setDisk (store.disk.fresh indirect)).setInode ip
        { store.icache ip with
          addrs := update (store.icache ip).addrs (Fin.last NDIRECT) indirect } = middle
        at grew owned' ⊢
      have indirect_eq : (middle.icache ip).addrs (Fin.last NDIRECT) = indirect := by
        simp [← middle_eq]
      have tolerant' : Tolerant allowed middle.outstanding := by
        rw [grew.outstanding]
        exact tolerant
      have rest := stores_bmapEntry tolerant' (grew.sb ▸ owned') (grew.type.trans_ne used) beyond
        entry (indirect_eq.trans_ne nonzero)
      rw [indirect_eq] at rest
      refine .mono rest fun addr after mapped => ?_
      exact mapped.of_indirect owned used grew noEntry (slotOf_entry beyond entry)

end Storage

end Xv6
