import Xv6.Storage.Transfer

/-!
# Giving back the blocks of a file

`itrunc` frees the block of each direct slot and clears the slot, then the blocks
that the indirect block lists, then the indirect block. Between two steps the
places of the inode are those not yet visited, and they own their blocks; so the
bit of every block that is freed was set. The last reference to an unlinked inode
goes on to free the inode itself.
-/

namespace Xv6

open Program Function List Store

/-- The disk with another bitmap. -/
def Disk.withBitmap (disk : Disk) (bitmap : Nat → Bool) : Disk := { disk with bitmap := bitmap }

namespace Storage

variable {allowed : Fault → Prop} {store before middle after : Store} {ip : InodePtr}

theorem stores_bfree (tolerant : Tolerant allowed store.outstanding) {b : Nat}
    (marked : store.disk.bitmap b = true) :
    Stores allowed (bfree b) store fun _ after =>
      after = store.setDisk (store.disk.setBitmap b false) := by
  refine .get fun kernel viewed => ?_
  subst viewed
  refine .ite (fun _ => ?_) fun unmarked => absurd marked unmarked
  refine .bind (stores_setBitmap b false) fun _ cleared cleared_eq => ?_
  have tolerant' : Tolerant allowed cleared.outstanding := by rw [cleared_eq]; exact tolerant
  exact .mono (stores_logWrite tolerant' _) fun _ _ same => same.trans cleared_eq

/-- The file of one inode lost some of its blocks; everything else is as before. -/
structure Trimmed (ip : InodePtr) (before after : Store) : Prop extends Grown ip before after where
  owned : (after.flushed ip).Owned after.sb
  data : after.disk.data = before.disk.data
  points : ∀ place : Place,
    (after.flushed ip).points place = (before.flushed ip).points place ∨
      (place.1 = (before.icache ip).inum ∧ (after.flushed ip).points place = 0)

theorem Trimmed.refl (owned : (store.flushed ip).Owned store.sb) : Trimmed ip store store where
  toGrown := .refl store
  owned := owned
  data := rfl
  points _ := .inl rfl

theorem Trimmed.trans (first : Trimmed ip before middle) (second : Trimmed ip middle after) :
    Trimmed ip before after where
  toGrown := first.toGrown.trans second.toGrown
  owned := second.owned
  data := second.data.trans first.data
  points place := by
    rcases second.points place with same | ⟨own, empty⟩
    · rw [same]
      exact first.points place
    · rw [first.inum] at own
      exact .inr ⟨own, empty⟩

/-- An empty place stays empty. -/
theorem Trimmed.empty (trimmed : Trimmed ip before after) {place : Place}
    (empty : (before.flushed ip).points place = 0) : (after.flushed ip).points place = 0 :=
  (trimmed.points place).elim (fun same => same.trans empty) And.right

/-! ## Direct slots -/

/-- Free the block of a direct slot and clear the slot. -/
theorem trimmed_direct (owned : (store.flushed ip).Owned store.sb)
    (used : (store.icache ip).type ≠ .free) {slot : Fin NDIRECT}
    (present : (store.icache ip).addrs slot.castSucc ≠ 0)
    (after_eq : after = (store.setDisk
      (store.disk.setBitmap ((store.icache ip).addrs slot.castSucc) false)).setInode ip
        { store.icache ip with
          addrs := update (store.icache ip).addrs slot.castSucc 0 }) :
    Trimmed ip store after ∧
      (after.flushed ip).points ((store.icache ip).inum, .direct slot) = 0 := by
  have points_eq : (store.flushed ip).points ((store.icache ip).inum, .direct slot) =
      (store.icache ip).addrs slot.castSucc := points_flushed used _
  have flushed_eq : after.flushed ip =
      ((store.flushed ip).setBitmap ((store.icache ip).addrs slot.castSucc) false).link
        (store.icache ip).inum (.direct slot) 0 := by
    simp [after_eq, flushed, Disk.link, Disk.setDinode, Disk.setBitmap, setDisk,
      setInode]
  have linked : (after.flushed ip).points = update (store.flushed ip).points
      ((store.icache ip).inum, .direct slot) 0 := by
    rw [flushed_eq]
    exact points_link_direct (used_flushed used) slot 0
  refine ⟨?_, by rw [linked, update_self]⟩
  constructor
  · rw [after_eq]
    exact ⟨rfl, rfl, rfl, rfl, fun _ other => icache_setInode_of_ne _ other, by simp⟩
  · have nonzero : (store.flushed ip).points ((store.icache ip).inum, .direct slot) ≠ 0 := by
      rw [points_eq]
      exact present
    have freed := owned.free nonzero
    rw [points_eq] at freed
    unfold Disk.Owned
    rw [linked, flushed_eq, after_eq]
    exact freed
  · rw [after_eq]
    rfl
  · intro place
    rw [linked]
    by_cases here : place = ((store.icache ip).inum, .direct slot)
    · subst here
      exact .inr ⟨rfl, update_self ..⟩
    · exact .inl (update_of_ne here ..)

theorem stores_itruncDirect (tolerant : Tolerant allowed store.outstanding)
    (owned : (store.flushed ip).Owned store.sb) (used : (store.icache ip).type ≠ .free)
    (slot : Fin NDIRECT) :
    Stores allowed (itruncDirect ip slot) store fun _ after =>
      Trimmed ip store after ∧
        (after.flushed ip).points ((store.icache ip).inum, .direct slot) = 0 := by
  refine .bind (stores_readInode ip) fun inode after read => ?_
  obtain ⟨rfl, rfl⟩ := read
  have points_eq : (after.flushed ip).points ((after.icache ip).inum, .direct slot) =
      (after.icache ip).addrs slot.castSucc := points_flushed used _
  refine .when (fun empty => ⟨.refl owned, points_eq.trans (not_not.mp empty)⟩) fun present => ?_
  have marked : after.disk.bitmap ((after.icache ip).addrs slot.castSucc) = true := by
    rw [← points_eq] at present ⊢
    exact owned.used_points present
  refine .bind (stores_bfree tolerant marked) fun _ freed freed_eq => ?_
  refine .mono (stores_writeInode ip _) fun _ cleared cleared_eq => ?_
  rw [freed_eq] at cleared_eq
  exact trimmed_direct owned used present cleared_eq

/-- The first loop of `itrunc`. -/
theorem stores_itruncDirects (tolerant : Tolerant allowed store.outstanding)
    (owned : (store.flushed ip).Owned store.sb) (used : (store.icache ip).type ≠ .free) :
    Stores allowed (forM (List.finRange NDIRECT) (itruncDirect ip)) store fun _ after =>
      Trimmed ip store after ∧ ∀ slot : Fin NDIRECT,
        (after.flushed ip).points ((store.icache ip).inum, .direct slot) = 0 := by
  have loop : Stores allowed (forM (List.finRange NDIRECT) (itruncDirect ip)) store
      fun _ after => Trimmed ip store after ∧ ∀ slot : Fin NDIRECT, slot ∉ [] →
        (after.flushed ip).points ((store.icache ip).inum, .direct slot) = 0 := by
    -- the slots that are not to come are empty
    refine .forM (fun rest current => Trimmed ip store current ∧ ∀ slot : Fin NDIRECT,
      slot ∉ rest → (current.flushed ip).points ((store.icache ip).inum, .direct slot) = 0) ?_ _
      ⟨.refl owned, fun slot absent => absurd (mem_finRange slot) absent⟩
    rintro head rest current ⟨trimmed, visited⟩
    have tolerant' : Tolerant allowed current.outstanding := by
      rw [trimmed.outstanding]
      exact tolerant
    refine .mono (stores_itruncDirect tolerant' trimmed.owned (trimmed.type.trans_ne used) head)
      fun _ next step => ⟨trimmed.trans step.1, fun slot absent => ?_⟩
    by_cases here : slot = head
    · rw [here, ← trimmed.inum]
      exact step.2
    · exact step.1.empty (visited slot (by simp [here, absent]))
  exact .mono loop fun _ after done => ⟨done.1, fun slot => done.2 slot not_mem_nil⟩

/-! ## The indirect block -/

/-- The places of an inode when only the entries in `rest` are still to be freed. -/
def cut (points : Place → Nat) (inum : Nat) (rest : List Nat) : Place → Nat
  | (inum', .entry j) => if inum' = inum ∧ (j : Nat) ∉ rest then 0 else points (inum', .entry j)
  | place => points place

theorem cut_all (points : Place → Nat) (inum : Nat) :
    cut points inum (List.range NINDIRECT) = points := by
  funext ⟨inum', slot⟩
  cases slot with
  | direct i => rfl
  | indirect => rfl
  | entry j =>
    refine if_neg fun visited => visited.2 ?_
    exact mem_range.mpr j.isLt

theorem cut_head (points : Place → Nat) (inum : Nat) (j : Fin NINDIRECT) (rest : List Nat) :
    cut points inum (j :: rest) (inum, .entry j) = points (inum, .entry j) :=
  if_neg fun visited => visited.2 mem_cons_self

theorem cut_tail (points : Place → Nat) (inum : Nat) {j : Fin NINDIRECT} {rest : List Nat}
    (new : (j : Nat) ∉ rest) :
    cut points inum rest = update (cut points inum (j :: rest)) (inum, .entry j) 0 := by
  funext ⟨inum', slot⟩
  cases slot with
  | direct i => simp [cut]
  | indirect => simp [cut]
  | entry j' =>
    by_cases here : (inum', Slot.entry j') = (inum, Slot.entry j)
    · rw [here, update_self]
      exact if_pos ⟨rfl, new⟩
    · rw [update_of_ne here]
      by_cases own : inum' = inum
      · have other : (j' : Nat) ≠ j := by
          intro same
          rw [own, Fin.ext same] at here
          exact here rfl
        simp [cut, other]
      · simp [cut, own]

/-- The loop over the entries of the indirect block clears their bits and nothing else. -/
theorem stores_itruncEntries (tolerant : Tolerant allowed store.outstanding)
    (owned : (store.flushed ip).Owned store.sb) (used : (store.icache ip).type ≠ .free)
    (present : (store.icache ip).addrs (Fin.last NDIRECT) ≠ 0) :
    Stores allowed (forM (List.range NINDIRECT) fun j =>
      when (Words.word (store.disk.data ((store.icache ip).addrs (Fin.last NDIRECT))) j ≠ 0)
        (bfree (Words.word (store.disk.data ((store.icache ip).addrs (Fin.last NDIRECT))) j)))
      store fun _ after => ∃ bitmap, after = store.setDisk (store.disk.withBitmap bitmap) ∧
        Ownership.Owned (· < dataStart store.sb) store.sb.size
          (cut (store.flushed ip).points (store.icache ip).inum []) bitmap := by
  have points_eq : ∀ j : Fin NINDIRECT,
      (store.flushed ip).points ((store.icache ip).inum, .entry j) =
        Words.word (store.disk.data ((store.icache ip).addrs (Fin.last NDIRECT))) j := by
    intro j
    rw [points_flushed used]
    exact if_neg present
  have loop : Stores allowed (forM (List.range NINDIRECT) fun j =>
      when (Words.word (store.disk.data ((store.icache ip).addrs (Fin.last NDIRECT))) j ≠ 0)
        (bfree (Words.word (store.disk.data ((store.icache ip).addrs (Fin.last NDIRECT))) j)))
      store fun _ after => ([] : List Nat).Nodup ∧ (∀ j ∈ ([] : List Nat), j < NINDIRECT) ∧
        ∃ bitmap, after = store.setDisk (store.disk.withBitmap bitmap) ∧
          Ownership.Owned (· < dataStart store.sb) store.sb.size
            (cut (store.flushed ip).points (store.icache ip).inum []) bitmap := by
    refine .forM (fun rest current => rest.Nodup ∧ (∀ j ∈ rest, j < NINDIRECT) ∧
      ∃ bitmap, current = store.setDisk (store.disk.withBitmap bitmap) ∧
        Ownership.Owned (· < dataStart store.sb) store.sb.size
          (cut (store.flushed ip).points (store.icache ip).inum rest) bitmap) ?_ _ ?_
    · rintro head rest current ⟨nodup, bounded, bitmap, current_eq, left⟩
      obtain ⟨new, nodup'⟩ := nodup_cons.mp nodup
      have bounded' : ∀ j ∈ rest, j < NINDIRECT := fun j later => bounded j (mem_cons_of_mem _ later)
      obtain ⟨j, rfl⟩ : ∃ j : Fin NINDIRECT, (j : Nat) = head :=
        ⟨⟨head, bounded head mem_cons_self⟩, rfl⟩
      have head_eq := cut_head (store.flushed ip).points (store.icache ip).inum j rest
      rw [points_eq] at head_eq
      refine .when (fun empty => ⟨nodup', bounded', bitmap, current_eq, ?_⟩) fun some => ?_
      · rw [cut_tail _ _ new]
        rw [not_not] at empty
        rw [← head_eq] at empty
        rw [← empty, update_eq_self]
        exact left
      · rw [← head_eq] at some
        have marked := left.used_points some
        have freed := left.free some
        rw [head_eq] at marked freed
        have marked' : current.disk.bitmap (Words.word (store.disk.data
            ((store.icache ip).addrs (Fin.last NDIRECT))) j) = true := by
          rw [current_eq]
          exact marked
        have tolerant' : Tolerant allowed current.outstanding := by
          rw [current_eq]
          exact tolerant
        refine .mono (stores_bfree tolerant' marked') fun _ next next_eq => ?_
        rw [current_eq] at next_eq
        refine ⟨nodup', bounded', update bitmap _ false, next_eq, ?_⟩
        rw [cut_tail _ _ new]
        exact freed
    · refine ⟨nodup_range, fun j => mem_range.mp, store.disk.bitmap, rfl, ?_⟩
      rw [cut_all]
      exact owned
  exact .mono loop fun _ after done => done.2.2

/-- After its entries, the indirect block itself. -/
theorem trimmed_indirect {bitmap : Nat → Bool} (used : (store.icache ip).type ≠ .free)
    (present : (store.icache ip).addrs (Fin.last NDIRECT) ≠ 0)
    (left : Ownership.Owned (· < dataStart store.sb) store.sb.size
      (cut (store.flushed ip).points (store.icache ip).inum []) bitmap)
    (after_eq : after = (store.setDisk (store.disk.withBitmap
      (update bitmap ((store.icache ip).addrs (Fin.last NDIRECT)) false))).setInode ip
        { store.icache ip with
          addrs := update (store.icache ip).addrs (Fin.last NDIRECT) 0 }) :
    Trimmed ip store after ∧ (after.icache ip).addrs (Fin.last NDIRECT) = 0 := by
  have points_eq : cut (store.flushed ip).points (store.icache ip).inum []
      ((store.icache ip).inum, .indirect) = (store.icache ip).addrs (Fin.last NDIRECT) :=
    points_flushed used .indirect
  have empty : (after.icache ip).addrs (Fin.last NDIRECT) = 0 := by simp [after_eq]
  have grown : Grown ip store after := by
    rw [after_eq]
    exact ⟨rfl, rfl, rfl, rfl, fun _ other => icache_setInode_of_ne _ other, by simp⟩
  have data_eq : after.disk.data = store.disk.data := by rw [after_eq]; rfl
  have cleared : (after.flushed ip).points =
      update (cut (store.flushed ip).points (store.icache ip).inum [])
        ((store.icache ip).inum, .indirect) 0 := by
    funext ⟨inum, slot⟩
    by_cases own : inum = (store.icache ip).inum
    · subst own
      have here := points_flushed (grown.type.trans_ne used) slot
      rw [grown.inum] at here
      rw [update_place, here]
      cases slot with
      | direct i =>
        have direct_eq : cut (store.flushed ip).points (store.icache ip).inum []
            ((store.icache ip).inum, .direct i) = (store.icache ip).addrs i.castSucc :=
          points_flushed used (.direct i)
        rw [if_neg (nomatch ·), direct_eq]
        simp [after_eq, Dinode.points, Fin.castSucc_ne_last i]
      | indirect => simp [empty, Dinode.points]
      | entry j => simp [empty, Dinode.points, cut]
    · have other : (inum, slot) ≠ ((store.icache ip).inum, Slot.indirect) := fun both =>
        own (congrArg Prod.fst both)
      have own' : inum ≠ (after.icache ip).inum := by rwa [grown.inum]
      have same : (store.flushed ip).points (inum, slot) = store.disk.points (inum, slot) :=
        points_setDinode_of_ne own _ _
      have same' : (after.flushed ip).points (inum, slot) = after.disk.points (inum, slot) :=
        points_setDinode_of_ne own' _ _
      have cut_eq : cut (store.flushed ip).points (store.icache ip).inum [] (inum, slot) =
          (store.flushed ip).points (inum, slot) := by
        cases slot <;> simp [cut, own]
      rw [update_of_ne other, cut_eq, same, same']
      unfold Disk.points
      rw [grown.dinode, data_eq]
  have nonzero : cut (store.flushed ip).points (store.icache ip).inum []
      ((store.icache ip).inum, .indirect) ≠ 0 := by
    rw [points_eq]
    exact present
  refine ⟨?_, empty⟩
  constructor
  · exact grown
  · have freed := left.free nonzero
    rw [points_eq] at freed
    unfold Disk.Owned
    rw [cleared, after_eq]
    exact freed
  · exact data_eq
  · intro place
    rw [cleared]
    by_cases here : place = ((store.icache ip).inum, .indirect)
    · subst here
      exact .inr ⟨rfl, update_self ..⟩
    · rw [update_of_ne here]
      obtain ⟨inum, slot⟩ := place
      cases slot with
      | direct i => exact .inl rfl
      | indirect => exact .inl rfl
      | entry j =>
        by_cases own : inum = (store.icache ip).inum
        · exact .inr ⟨own, by simp [cut, own]⟩
        · exact .inl (by simp [cut, own])

theorem stores_itruncIndirect (tolerant : Tolerant allowed store.outstanding)
    (owned : (store.flushed ip).Owned store.sb) (used : (store.icache ip).type ≠ .free) :
    Stores allowed (itruncIndirect ip) store fun _ after =>
      Trimmed ip store after ∧ (after.icache ip).addrs (Fin.last NDIRECT) = 0 := by
  refine .bind (stores_readInode ip) fun inode after read => ?_
  obtain ⟨rfl, rfl⟩ := read
  refine .when (fun empty => ⟨.refl owned, not_not.mp empty⟩) fun present => ?_
  refine .get fun kernel viewed => ?_
  have data_eq : kernel.disk.data = after.disk.data := by rw [← viewed]; rfl
  rw [data_eq]
  refine .bind (stores_itruncEntries tolerant owned used present) fun _ looped outcome => ?_
  obtain ⟨bitmap, looped_eq, left⟩ := outcome
  have tolerant' : Tolerant allowed looped.outstanding := by rw [looped_eq]; exact tolerant
  have points_eq : cut (after.flushed ip).points (after.icache ip).inum []
      ((after.icache ip).inum, .indirect) = (after.icache ip).addrs (Fin.last NDIRECT) :=
    points_flushed used .indirect
  have marked : looped.disk.bitmap ((after.icache ip).addrs (Fin.last NDIRECT)) = true := by
    rw [← points_eq] at present ⊢
    rw [looped_eq]
    exact left.used_points present
  refine .bind (stores_bfree tolerant' marked) fun _ freed freed_eq => ?_
  refine .mono (stores_writeInode ip _) fun _ cleared cleared_eq => ?_
  rw [freed_eq, looped_eq] at cleared_eq
  exact trimmed_indirect used present left cleared_eq

/-! ## The whole file, and the inode -/

/-- The inode has no blocks at all. -/
def Bare (store : Store) (ip : InodePtr) : Prop :=
  ∀ slot, (store.flushed ip).points ((store.icache ip).inum, slot) = 0

/-- Both parts of `itrunc` together leave no block. -/
theorem Trimmed.bare (direct : Trimmed ip before middle) (indirect : Trimmed ip middle after)
    (used : (before.icache ip).type ≠ .free)
    (empty : ∀ slot : Fin NDIRECT,
      (middle.flushed ip).points ((before.icache ip).inum, .direct slot) = 0)
    (noBlock : (after.icache ip).addrs (Fin.last NDIRECT) = 0) : Bare after ip := by
  have used' := indirect.type.trans_ne (direct.type.trans_ne used)
  intro slot
  cases slot with
  | direct i =>
    rw [indirect.inum, direct.inum]
    exact indirect.empty (empty i)
  | indirect =>
    rw [points_flushed used']
    exact noBlock
  | entry j =>
    rw [points_flushed used']
    exact if_pos noBlock

theorem stores_itrunc (tolerant : Tolerant allowed store.outstanding)
    (owned : (store.flushed ip).Owned store.sb) (used : (store.icache ip).type ≠ .free) :
    Stores allowed (itrunc ip) store fun _ after =>
      ∃ middle, Trimmed ip store middle ∧ Bare middle ip ∧
        after = (middle.setDisk (middle.disk.setDinode (middle.icache ip).inum
          { (middle.icache ip).toDinode with size := 0 })).setInode ip
            { middle.icache ip with size := 0 } := by
  refine .bind (stores_itruncDirects tolerant owned used) fun _ middle looped => ?_
  obtain ⟨direct, empty⟩ := looped
  have tolerant' : Tolerant allowed middle.outstanding := by
    rw [direct.outstanding]
    exact tolerant
  refine .bind (stores_itruncIndirect tolerant' direct.owned (direct.type.trans_ne used))
    fun _ trimmed rest => ?_
  obtain ⟨indirect, noBlock⟩ := rest
  refine .bind (stores_writeInode ip _) fun _ sized sized_eq => ?_
  have tolerant'' : Tolerant allowed sized.outstanding := by
    rw [sized_eq]
    exact indirect.outstanding ▸ tolerant'
  refine .mono (stores_iupdate tolerant'' ip) fun _ after after_eq => ?_
  refine ⟨trimmed, direct.trans indirect, direct.bare indirect used empty noBlock, ?_⟩
  rw [after_eq, sized_eq]
  simp [flushed, setDisk, setInode]

/-- The store after an inode was freed. -/
structure Erased (ip : InodePtr) (before after : Store) : Prop where
  sb : after.sb = before.sb
  me : after.me = before.me
  outstanding : after.outstanding = before.outstanding
  others : ∀ ip', ip' ≠ ip → after.icache ip' = before.icache ip'
  self : after.icache ip = { before.icache ip with
    toDinode := (after.icache ip).toDinode, valid := false }
  owned : after.disk.Owned after.sb
  freed : (after.disk.dinode (before.icache ip).inum).type = .free
  dinodes : ∀ inum, inum ≠ (before.icache ip).inum →
    after.disk.dinode inum = before.disk.dinode inum
  files : ∀ inum, inum ≠ (before.icache ip).inum → after.disk.file inum = before.disk.file inum

/-- Another file is as before on a disk with the places of the trimmed one. -/
theorem Trimmed.file_of_ne {disk : Disk} (trimmed : Trimmed ip before middle)
    (points_eq : disk.points = (middle.flushed ip).points)
    (data_eq : disk.data = middle.disk.data) {inum : Nat} (other : inum ≠ (before.icache ip).inum) :
    disk.file inum = before.disk.file inum := by
  have same : ∀ slot, disk.points (inum, slot) = before.disk.points (inum, slot) := by
    intro slot
    rw [points_eq]
    rcases trimmed.points (inum, slot) with same | ⟨own, _⟩
    · exact same.trans (points_setDinode_of_ne other _ slot)
    · exact absurd own other
  exact file_congr (fun slot _ => same slot) fun slot _ _ => by rw [data_eq, trimmed.data]

/-- Freeing an inode without blocks. -/
theorem Trimmed.erased {dip : Dinode} (trimmed : Trimmed ip before middle) (bare : Bare middle ip)
    (free : dip.type = .free)
    (after_eq : after = (middle.setDisk (middle.disk.setDinode (middle.icache ip).inum dip)).setInode ip
      { middle.icache ip with toDinode := dip, valid := false }) :
    Erased ip before after := by
  have points_eq : after.disk.points = (middle.flushed ip).points := by
    funext ⟨inum, slot⟩
    rw [after_eq]
    by_cases own : inum = (middle.icache ip).inum
    · subst own
      rw [bare slot]
      exact (points_setDinode_self dip slot).trans (if_pos free)
    · exact (points_setDinode_of_ne own dip slot).trans (points_setDinode_of_ne own _ slot).symm
  constructor
  · rw [after_eq]
    exact trimmed.sb
  · rw [after_eq]
    exact trimmed.me
  · rw [after_eq]
    exact trimmed.outstanding
  · intro ip' other
    rw [after_eq]
    exact (icache_setInode_of_ne _ other).trans (trimmed.others ip' other)
  · rw [after_eq, icache_setInode_self, trimmed.self]
  · have owned := owned_of_points trimmed.owned points_eq (by rw [after_eq]; rfl)
    rw [after_eq]
    rw [after_eq] at owned
    exact owned
  · rw [← trimmed.inum]
    simp [after_eq, setDisk, setInode, Disk.setDinode, free]
  · intro inum other
    rw [← trimmed.inum] at other
    rw [after_eq]
    exact (update_of_ne other _ _).trans (congrFun trimmed.dinode inum)
  · intro inum other
    exact trimmed.file_of_ne points_eq (by rw [after_eq]; rfl) other

theorem stores_ifree (tolerant : Tolerant allowed store.outstanding)
    (owned : (store.flushed ip).Owned store.sb) (used : (store.icache ip).type ≠ .free) :
    Stores allowed (ifree ip) store fun _ after => Erased ip store after := by
  refine .bind (stores_itrunc tolerant owned used) fun _ truncated outcome => ?_
  obtain ⟨middle, trimmed, bare, truncated_eq⟩ := outcome
  refine .bind (stores_writeInode ip _) fun _ typed typed_eq => ?_
  have tolerant' : Tolerant allowed typed.outstanding := by
    rw [typed_eq, truncated_eq]
    exact trimmed.outstanding ▸ tolerant
  refine .bind (stores_iupdate tolerant' ip) fun _ updated updated_eq => ?_
  refine .mono (stores_writeInode ip _) fun _ after after_eq => ?_
  refine @Trimmed.erased _ _ _ ip { (middle.icache ip).toDinode with size := 0, type := .free }
    trimmed bare rfl ?_
  rw [after_eq, updated_eq, typed_eq, truncated_eq]
  simp [flushed, setDisk, setInode, Disk.setDinode]

end Storage

end Xv6
