import Xv6.Storage.Bmap

/-!
# Reading and writing the bytes of a file

`readi` and `writei` move a range of bytes block by block. Reading returns the
bytes of the file and changes nothing, as long as the file has all the blocks
below its size; writing overwrites the range and touches no other file.
-/

namespace Xv6

open Function UInt32

variable {off n : Nat} {src : Nat → Byte}

/-- The bytes of a cached inode. -/
def Store.content (store : Store) (ip : InodePtr) : List Byte :=
  Sparse.content BSIZE (store.file ip) (store.icache ip).size.toNat

namespace Storage

variable {allowed : Fault → Prop} {store before middle after : Store} {ip : InodePtr}

/-! ## Blocks that are there -/

theorem stores_bmapSlot_present {slot : Fin (NDIRECT + 1)}
    (present : (store.icache ip).addrs slot ≠ 0) :
    Stores allowed (bmapSlot ip slot) store fun addr after =>
      addr = (store.icache ip).addrs slot ∧ after = store := by
  refine .bind (stores_readInode ip) fun inode after read => ?_
  obtain ⟨rfl, rfl⟩ := read
  exact .ite (fun empty => absurd empty present) fun _ => .pure ⟨rfl, rfl⟩

/-- `bmap` of a block that the file has. -/
theorem stores_bmap_present {bn : Nat} {block : Block} (present : store.file ip bn = some block) :
    Stores allowed (bmap ip bn) store fun addr after =>
      after = store ∧ store.disk.data addr = block := by
  obtain ⟨slot, slot_eq, nonzero, data_eq⟩ := file_eq_some.mp present
  have used : (store.icache ip).type ≠ .free := by
    have used := used_of_points nonzero
    rwa [dinode_flushed] at used
  rw [points_flushed used] at nonzero data_eq
  unfold bmap
  split
  · rename_i direct
    rw [slotOf_direct direct] at slot_eq
    cases slot_eq
    refine .mono (stores_bmapSlot_present nonzero) fun addr after found => ?_
    rw [found.1]
    exact ⟨found.2, data_eq⟩
  · rename_i beyond
    by_cases entry : bn - NDIRECT < NINDIRECT
    · rw [slotOf_entry beyond entry] at slot_eq
      cases slot_eq
      have indirect : (store.icache ip).addrs (Fin.last NDIRECT) ≠ 0 := fun empty =>
        nonzero (if_pos empty)
      have points_eq : (store.icache ip).points store.disk.data (.entry ⟨bn - NDIRECT, entry⟩) =
          Words.word (store.disk.data ((store.icache ip).addrs (Fin.last NDIRECT)))
            (bn - NDIRECT) := if_neg indirect
      rw [points_eq] at nonzero data_eq
      rw [if_pos entry]
      refine .bind (stores_bmapSlot_present indirect) fun addr after found => ?_
      obtain ⟨rfl, rfl⟩ := found
      refine .get fun kernel viewed => ?_
      have disk_eq : kernel.disk.data = after.disk.data := by rw [← viewed]; rfl
      rw [disk_eq]
      exact .ite (fun empty => absurd empty nonzero) fun _ => .pure ⟨rfl, data_eq⟩
    · simp [slotOf, beyond, entry] at slot_eq

/-- The file has every block that the range touches. -/
def Covers (file : Sparse.File Byte) (off n : Nat) : Prop :=
  ∀ bn, Sparse.Touches BSIZE off n bn → (file bn).isSome = true

theorem Covers.mono {file : Sparse.File Byte} {off' n' : Nat} (covers : Covers file off n)
    (lower : off ≤ off') (upper : off' + n' ≤ off + n) : Covers file off' n' := by
  intro bn touches
  refine covers bn ?_
  unfold Sparse.Touches at touches ⊢
  omega

/-- A range touches the block it starts in. -/
theorem touches_first (some : 0 < n) : Sparse.Touches BSIZE off n (off / BSIZE) := by
  unfold Sparse.Touches
  change off < (off / 512 + 1) * 512 ∧ off / 512 * 512 < off + n ∧ 0 < n
  omega

theorem chunk_spec (off : Nat) (some : 0 < n) :
    0 < chunk off n ∧ chunk off n ≤ n ∧ chunk off n ≤ BSIZE - off % BSIZE := by
  change 0 < min n (512 - off % 512) ∧ min n (512 - off % 512) ≤ n ∧
    min n (512 - off % 512) ≤ 512 - off % 512
  omega

/-! ## Reading -/

theorem stores_readiLoop (fuel off n : Nat) (enough : n ≤ fuel)
    (covers : Covers (store.file ip) off n) :
    Stores allowed (readiLoop ip fuel off n) store fun bytes after =>
      after = store ∧
        bytes = (List.range n).map fun i => Sparse.at_ BSIZE (store.file ip) (off + i) := by
  induction fuel generalizing off n with
  | zero =>
    obtain rfl : n = 0 := Nat.le_zero.mp enough
    exact .pure ⟨rfl, rfl⟩
  | succ fuel ih =>
    refine .ite (fun empty => ?_) fun some => ?_
    · subst empty
      exact .pure ⟨rfl, rfl⟩
    have positive : 0 < n := Nat.pos_of_ne_zero some
    obtain ⟨progress, within, inBlock⟩ := chunk_spec off positive
    obtain ⟨block, block_eq⟩ := Option.isSome_iff_exists.mp
      (covers _ (touches_first positive))
    refine .bind (stores_bmap_present block_eq) fun addr after found => ?_
    obtain ⟨rfl, data_eq⟩ := found
    refine .get fun kernel viewed => ?_
    have disk_eq : kernel.disk.data addr = block := by
      rw [← data_eq, ← viewed]
      rfl
    have rest := ih (off + chunk off n) (n - chunk off n) (by omega)
      (covers.mono (by omega) (by omega))
    refine .bind rest fun bytes after found => .pure ⟨found.1, ?_⟩
    have total : n = chunk off n + (n - chunk off n) := by omega
    rw [found.2, disk_eq]
    conv_rhs => rw [total, List.range_add, List.map_append, List.map_map]
    congr 1
    · refine List.map_congr_left fun i below => ?_
      have inside : i < BSIZE - off % BSIZE := (List.mem_range.mp below).trans_le inBlock
      rw [Sparse.at_inside inside, Sparse.block, block_eq]
      rfl
    · refine List.map_congr_left fun i _ => ?_
      rw [Function.comp_apply, Nat.add_assoc]

/-- The file has all the blocks below its size. -/
def Filled (store : Store) (ip : InodePtr) : Prop :=
  ∀ bn, bn * BSIZE < (store.icache ip).size.toNat → (store.file ip bn).isSome = true

theorem Filled.covers (filled : Filled store ip) (inside : off + n ≤ (store.icache ip).size.toNat) :
    Covers (store.file ip) off n :=
  fun bn touches => filled bn (touches.2.1.trans_le inside)

/-- The sum of two words wraps around if it is less than one of them. -/
theorem wraps_iff (off n : UInt32) : off + n < off ↔ 2 ^ 32 ≤ off.toNat + n.toNat := by
  have offBound := off.toNat_lt
  have nBound := n.toNat_lt
  rw [UInt32.lt_iff_toNat_lt, UInt32.toNat_add]
  omega

theorem toNat_add_of_not_wraps {off n : UInt32} (noWrap : ¬2 ^ 32 ≤ off.toNat + n.toNat) :
    (off + n).toNat = off.toNat + n.toNat := by
  rw [UInt32.toNat_add]
  omega

/-- `readi` of a file or a directory returns what it has of the range. -/
theorem stores_readi (notDev : (store.icache ip).type ≠ .dev) (filled : Filled store ip)
    (off n : UInt32) :
    Stores allowed (readi ip off n) store fun result after =>
      after = store ∧ result =
        if (store.content ip).length < off.toNat ∨ 2 ^ 32 ≤ off.toNat + n.toNat then none
        else some (((store.content ip).drop off.toNat).take n.toNat) := by
  refine .bind (stores_readInode ip) fun inode after read => ?_
  obtain ⟨rfl, rfl⟩ := read
  have length_eq : (after.content ip).length = (after.icache ip).size.toNat :=
    Sparse.length_content _
  have refused_iff : (after.icache ip).size < off ∨ off + n < off ↔
      (after.content ip).length < off.toNat ∨ 2 ^ 32 ≤ off.toNat + n.toNat := by
    rw [wraps_iff, length_eq, lt_iff_toNat_lt]
  rw [if_neg notDev]
  refine .ite (fun refused => .pure ⟨rfl, (if_pos (refused_iff.mp refused)).symm⟩)
    fun accepted => ?_
  have accepted' := mt refused_iff.mpr accepted
  rw [if_neg accepted']
  obtain ⟨below, noWrap⟩ := not_or.mp accepted'
  rw [length_eq, not_lt] at below
  have clipped : (if (after.icache ip).size < off + n then (after.icache ip).size - off
      else n).toNat = min n.toNat ((after.icache ip).size.toNat - off.toNat) := by
    have sum := toNat_add_of_not_wraps noWrap
    split
    · rename_i past
      rw [lt_iff_toNat_lt, sum] at past
      rw [UInt32.toNat_sub_of_le _ _ (UInt32.le_iff_toNat_le.mpr below)]
      omega
    · rename_i inside
      rw [lt_iff_toNat_lt, sum] at inside
      omega
  have covers : Covers (after.file ip) off.toNat
      (min n.toNat ((after.icache ip).size.toNat - off.toNat)) := filled.covers (by omega)
  have reading : ∀ m : UInt32, m.toNat = min n.toNat ((after.icache ip).size.toNat - off.toNat) →
      Stores allowed (do
        let bytes ← readiLoop ip m.toNat off.toNat m.toNat
        pure (some bytes)) after fun result last =>
          last = after ∧ result = some (((after.content ip).drop off.toNat).take n.toNat) := by
    intro m m_eq
    rw [m_eq]
    refine .bind (stores_readiLoop _ _ _ le_rfl covers) fun bytes last found => .pure ?_
    refine ⟨found.1, congrArg some ?_⟩
    rw [found.2]
    exact (Sparse.content_slice off.toNat n.toNat _).symm
  exact reading _ clipped

/-! ## Writing -/

/-- The store after `n` bytes from `off` on were overwritten. -/
structure Written (ip : InodePtr) (off n : Nat) (src : Nat → Byte) (before after : Store) : Prop
    extends Grown ip before after where
  owned : (after.flushed ip).Owned after.sb
  files : (after.flushed ip).file = Function.update (before.flushed ip).file
    (before.icache ip).inum (Sparse.splice BSIZE (before.file ip) off n src)
  covered : Covers (before.file ip) off n → after.icache = before.icache

theorem Written.file (written : Written ip off n src before after) :
    after.file ip = Sparse.splice BSIZE (before.file ip) off n src := by
  unfold Store.file
  rw [written.files, written.inum, update_self]
  rfl

theorem Written.refl (owned : (store.flushed ip).Owned store.sb) (off : Nat) (src : Nat → Byte) :
    Written ip off 0 src store store where
  toGrown := .refl store
  owned := owned
  files := by
    rw [Sparse.splice_zero]
    exact (update_eq_self _ _).symm
  covered _ := rfl

theorem Written.trans {m : Nat} (first : Written ip off m src before middle)
    (second : Written ip (off + m) n (fun i => src (m + i)) middle after) :
    Written ip off (m + n) src before after where
  toGrown := first.toGrown.trans second.toGrown
  owned := second.owned
  files := by
    rw [second.files, first.files, first.inum, first.file, update_idem,
      Sparse.splice_append (by decide)]
  covered covers := by
    have firstPart : Covers (before.file ip) off m := covers.mono le_rfl (by omega)
    have secondPart : Covers (middle.file ip) (off + m) n := by
      intro bn touches
      rw [first.file, Sparse.isSome_splice]
      exact .inr (covers.mono (by omega) (by omega) bn touches)
    rw [second.covered secondPart, first.covered firstPart]

/-- One turn of the loop: map the block, then write into it. -/
theorem written_turn {m addr : Nat} (src : Nat → Byte)
    (mapped : Mapped ip (off / BSIZE) before addr middle) (some : 0 < m)
    (inBlock : m ≤ BSIZE - off % BSIZE) :
    Written ip off m src before (middle.setDisk (middle.disk.setData addr
      (overwrite (middle.disk.data addr) (off % BSIZE) m src))) := by
  obtain ⟨slot, slot_eq, points_eq⟩ := mapped.address
  have data : slot ≠ .indirect := fun indirect => slotOf_ne_indirect (indirect ▸ slot_eq)
  have contents : middle.disk.data addr = Sparse.block (before.file ip) (off / BSIZE) := by
    have here := congrFun (congrFun mapped.file (before.icache ip).inum) (off / BSIZE)
    rw [update_self, update_self, file_of_slot slot_eq, points_eq,
      if_neg mapped.present] at here
    exact Option.some.inj here
  have present : (middle.flushed ip).points ((before.icache ip).inum, slot) ≠ 0 := by
    rw [points_eq]
    exact mapped.present
  constructor
  · exact mapped.toGrown.trans (grown_setDisk rfl)
  · have put := owned_put mapped.owned (by exact data) present
      (overwrite (middle.disk.data addr) (off % BSIZE) m src)
    rw [points_eq] at put
    exact put
  · have put := file_put mapped.owned slot_eq present
      (overwrite (middle.disk.data addr) (off % BSIZE) m src)
    rw [points_eq, mapped.file, update_idem, update_self, update_idem,
      contents] at put
    rw [Sparse.splice_inside (by decide) src some inBlock, contents]
    exact put
  · intro covers
    have touched : Sparse.Touches BSIZE off m (off / BSIZE) := touches_first some
    change middle.icache = before.icache
    rw [mapped.unchanged (covers _ touched)]

theorem stores_writeiLoop (tolerant : Tolerant allowed store.outstanding)
    (owned : (store.flushed ip).Owned store.sb) (used : (store.icache ip).type ≠ .free)
    (fuel : Nat) (src : Nat → Byte) (off n : Nat) (enough : n ≤ fuel)
    (bounded : off + n ≤ MAXFILE * BSIZE) :
    Stores allowed (writeiLoop ip fuel src off n) store fun _ after =>
      Written ip off n src store after := by
  induction fuel generalizing store src off n with
  | zero =>
    obtain rfl : n = 0 := Nat.le_zero.mp enough
    exact .pure (.refl owned off src)
  | succ fuel ih =>
    refine .ite (fun empty => ?_) fun some => ?_
    · subst empty
      exact .pure (.refl owned off src)
    have positive : 0 < n := Nat.pos_of_ne_zero some
    obtain ⟨progress, within, inBlock⟩ := chunk_spec off positive
    have inRange : off / BSIZE < MAXFILE := by
      change off / 512 < 140
      change off + n ≤ 140 * 512 at bounded
      omega
    refine .bind (stores_bmap tolerant owned used inRange) fun addr middle mapped => ?_
    refine .bind (stores_setData addr _
      (fun store' => overwrite (store'.disk.data addr) (off % BSIZE) (chunk off n) src)
      fun _ => rfl) fun _ put put_eq => ?_
    have turn : Written ip off (chunk off n) src store put := by
      rw [put_eq]
      exact written_turn src mapped progress inBlock
    have tolerant' : Tolerant allowed put.outstanding := by
      rw [turn.outstanding]
      exact tolerant
    refine .bind (stores_logWrite tolerant' addr) fun _ logged same => ?_
    subst same
    have rest := ih tolerant' turn.owned (turn.type.trans_ne used)
      (fun i => src (chunk off n + i)) (off + chunk off n) (n - chunk off n) (by omega) (by omega)
    refine .mono rest fun _ after later => ?_
    have whole := turn.trans later
    rwa [Nat.add_sub_cancel' within] at whole

/-- The store after `writei` wrote `n` bytes at `off`. -/
structure Wrote (ip : InodePtr) (off n : Nat) (src : Nat → Byte) (before after : Store) : Prop where
  sb : after.sb = before.sb
  me : after.me = before.me
  outstanding : after.outstanding = before.outstanding
  others : ∀ ip', ip' ≠ ip → after.icache ip' = before.icache ip'
  self : after.icache ip = { before.icache ip with
    addrs := (after.icache ip).addrs, size := (after.icache ip).size }
  size : (after.icache ip).size.toNat = max (before.icache ip).size.toNat (off + n)
  dinodes : ∀ inum, inum ≠ (before.icache ip).inum →
    after.disk.dinode inum = before.disk.dinode inum
  owned : (after.flushed ip).Owned after.sb
  files : (after.flushed ip).file = Function.update (before.flushed ip).file
    (before.icache ip).inum (Sparse.splice BSIZE (before.file ip) off n src)
  clean : before.flushed ip = before.disk → Filled before ip → after.flushed ip = after.disk

/-- A write within the size of the file: the inode itself is not written back. -/
theorem Written.wrote_inside (written : Written ip off n src before after)
    (inside : off + n ≤ (before.icache ip).size.toNat) : Wrote ip off n src before after where
  sb := written.sb
  me := written.me
  outstanding := written.outstanding
  others := written.others
  self := by
    have self := written.self
    rw [written.size, ← self]
  size := by
    rw [written.size]
    omega
  dinodes inum _ := congrFun written.dinode inum
  owned := written.owned
  files := written.files
  clean clean filled := by
    have kept : after.icache = before.icache := written.covered (filled.covers inside)
    have dinode_eq : after.disk.dinode (after.icache ip).inum = (after.icache ip).toDinode := by
      rw [kept, written.dinode]
      conv_lhs => rw [← clean]
      exact dinode_flushed before ip
    unfold Store.flushed Disk.setDinode
    rw [← dinode_eq, update_eq_self]

/-- The size of a file that grew goes to the disk with the new block numbers. -/
theorem Written.wrote_past {size : UInt32} (written : Written ip off n src before after)
    (size_eq : size.toNat = off + n) (past : (before.icache ip).size.toNat ≤ off + n) :
    Wrote ip off n src before
      ((after.setInode ip { after.icache ip with size := size }).setDisk
        ((after.setInode ip { after.icache ip with size := size }).flushed ip)) := by
  generalize grown_eq : after.setInode ip { after.icache ip with size := size } = grown
  have icache_eq : grown.icache ip = { after.icache ip with size := size } := by
    rw [← grown_eq]
    exact icache_setInode_self ip _
  have flushed_eq : (grown.setDisk (grown.flushed ip)).flushed ip = grown.flushed ip := by
    simp [Store.flushed, Store.setDisk, Disk.setDinode]
  have points_eq : (grown.flushed ip).points = (after.flushed ip).points := by
    have disk_eq : grown.disk = after.disk := by rw [← grown_eq]; rfl
    unfold Store.flushed
    rw [icache_eq, disk_eq]
    exact points_setDinode_congr rfl rfl
  have fields : grown.sb = after.sb ∧ grown.me = after.me ∧ grown.outstanding = after.outstanding ∧
      grown.disk = after.disk := by
    rw [← grown_eq]
    exact ⟨rfl, rfl, rfl, rfl⟩
  obtain ⟨sb_eq, me_eq, outstanding_eq, disk_eq⟩ := fields
  constructor
  · exact sb_eq.trans written.sb
  · exact me_eq.trans written.me
  · exact outstanding_eq.trans written.outstanding
  · intro ip' other
    have unchanged : grown.icache ip' = after.icache ip' := by
      rw [← grown_eq]
      exact icache_setInode_of_ne _ other
    exact unchanged.trans (written.others ip' other)
  · change grown.icache ip = { before.icache ip with
      addrs := (grown.icache ip).addrs, size := (grown.icache ip).size }
    rw [icache_eq, written.self]
  · change (grown.icache ip).size.toNat = _
    rw [icache_eq, Nat.max_eq_right past]
    exact size_eq
  · intro inum other
    have inum_eq : (grown.icache ip).inum = (before.icache ip).inum := by
      rw [icache_eq]
      exact written.inum
    change (grown.flushed ip).dinode inum = _
    simp [Store.flushed, Disk.setDinode, inum_eq, other, disk_eq, written.dinode]
  · rw [flushed_eq]
    change (grown.flushed ip).Owned grown.sb
    rw [sb_eq]
    exact owned_of_points written.owned points_eq (by rw [Store.flushed, disk_eq]; rfl)
  · rw [flushed_eq, ← written.files]
    exact file_eq_of_points points_eq (by rw [Store.flushed, disk_eq]; rfl)
  · intro _ _
    exact flushed_eq

/-- `writei` refuses a range that starts past the end, wraps around or is too long. -/
def refusesWrite (size : Nat) (off n : UInt32) : Prop :=
  size < off.toNat ∨ 2 ^ 32 ≤ off.toNat + n.toNat ∨ MAXFILE * BSIZE < off.toNat + n.toNat

theorem stores_writei (tolerant : Tolerant allowed store.outstanding)
    (owned : (store.flushed ip).Owned store.sb) (used : (store.icache ip).type ≠ .free)
    (notDev : (store.icache ip).type ≠ .dev) (src : Nat → Byte) (off n : UInt32) :
    Stores allowed (writei ip src off n) store fun result after =>
      (refusesWrite (store.icache ip).size.toNat off n ∧ result = -1 ∧ after = store) ∨
        (¬refusesWrite (store.icache ip).size.toNat off n ∧ result = n.toNat ∧
          Wrote ip off.toNat n.toNat src store after) := by
  refine .bind (stores_readInode ip) fun inode after read => ?_
  obtain ⟨rfl, rfl⟩ := read
  rw [if_neg notDev]
  refine .ite (fun refused => .pure (.inl ⟨?_, rfl, rfl⟩)) fun accepted => ?_
  · rw [wraps_iff, lt_iff_toNat_lt] at refused
    exact refused.imp_right .inl
  rw [wraps_iff, lt_iff_toNat_lt] at accepted
  obtain ⟨below, noWrap⟩ := not_or.mp accepted
  have sum := toNat_add_of_not_wraps noWrap
  rw [sum]
  refine .ite (fun long => .pure (.inl ⟨.inr (.inr long), rfl, rfl⟩)) fun fits => ?_
  have accepts : ¬refusesWrite (after.icache ip).size.toNat off n := by
    rintro (past | wraps | long)
    · exact below past
    · exact noWrap wraps
    · exact fits long
  refine .bind (stores_writeiLoop tolerant owned used _ src _ _ le_rfl (not_lt.mp fits))
    fun _ middle written => ?_
  refine .bind (stores_readInode ip) fun inode middle' read => ?_
  obtain ⟨rfl, rfl⟩ := read
  refine .bind ?_ fun _ last wrote => .pure (.inr ⟨accepts, rfl, wrote⟩)
  refine .when (fun inside => written.wrote_inside ?_) fun past => ?_
  · rw [lt_iff_toNat_lt, lt_iff_toNat_lt, sum, written.size] at inside
    rw [UInt32.toNat_zero] at inside
    omega
  · refine .bind (stores_writeInode ip _) fun _ sized sized_eq => ?_
    have tolerant' : Tolerant allowed sized.outstanding := by
      rw [sized_eq]
      exact written.outstanding ▸ tolerant
    refine .mono (stores_iupdate tolerant' ip) fun _ flushed flushed_eq => ?_
    have past' := lt_iff_toNat_lt.mp past.2
    rw [sum, written.size] at past'
    rw [flushed_eq, sized_eq]
    exact written.wrote_past sum past'.le

end Storage

end Xv6
