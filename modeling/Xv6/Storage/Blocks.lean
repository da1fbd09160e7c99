import Mathlib.Data.UInt
import Xv6.Std.Ownership
import Xv6.Std.Sparse
import Xv6.Storage.Store

/-!
# Which blocks belong to which file

An inode keeps block numbers in twelve direct slots and an indirect slot, and
the block of the latter keeps more of them. Together these are the places that
own the blocks of the data area. A file is the sparse file its places describe.
The lemmas say what each change of the disk does to the places and to the files.
-/

namespace Xv6

open Function Disk

variable {bn : Nat} {disk' : Disk} {place : Place}

/-- Where an inode keeps a block number. -/
inductive Slot where
  | direct (i : Fin NDIRECT)
  | indirect
  | entry (j : Fin NINDIRECT)
deriving DecidableEq

/-- A slot of the inode with the given number. -/
abbrev Place := Nat × Slot

/-- The block number in a slot. Without an indirect block there are no entries. -/
def Dinode.points (dip : Dinode) (data : Nat → Block) : Slot → Nat
  | .direct i => dip.addrs i.castSucc
  | .indirect => dip.addrs (Fin.last NDIRECT)
  | .entry j =>
    if dip.addrs (Fin.last NDIRECT) = 0 then 0
    else Words.word (data (dip.addrs (Fin.last NDIRECT))) j

/-- The first block of the data area, as `mkfs` lays out the disk. -/
def dataStart (sb : Superblock) : Nat := sb.bmapstart + sb.size / BPB + 1

/-- The slot that holds the number of the block with the given index. -/
def slotOf (bn : Nat) : Option Slot :=
  if direct : bn < NDIRECT then some (.direct ⟨bn, direct⟩)
  else if entry : bn - NDIRECT < NINDIRECT then some (.entry ⟨bn - NDIRECT, entry⟩)
  else none

namespace Disk

variable (disk : Disk)

/-- The block number at a place. A free inode has none. -/
def points (place : Place) : Nat :=
  if (disk.dinode place.1).type = .free then 0
  else (disk.dinode place.1).points disk.data place.2

/-- Every block number lies in the data area and occurs once, and the bitmap marks
exactly these blocks and the metadata. -/
def Owned (sb : Superblock) : Prop :=
  Ownership.Owned (· < dataStart sb) sb.size disk.points disk.bitmap

/-- The blocks of a file. -/
def file (inum : Nat) : Sparse.File Byte := fun bn =>
  (slotOf bn).bind fun slot =>
    if disk.points (inum, slot) = 0 then none else some (disk.data (disk.points (inum, slot)))

/-- Mark a block and fill it with zeros. -/
def fresh (b : Nat) : Disk := (disk.setBitmap b true).setData b fun _ => 0

/-- Store a block number in a slot of an inode. -/
def link (inum : Nat) (slot : Slot) (b : Nat) : Disk :=
  let dip := disk.dinode inum
  match slot with
  | .direct i =>
    disk.setDinode inum { dip with addrs := Function.update dip.addrs i.castSucc b }
  | .indirect =>
    disk.setDinode inum { dip with addrs := Function.update dip.addrs (Fin.last NDIRECT) b }
  | .entry j =>
    let indirect := dip.addrs (Fin.last NDIRECT)
    disk.setData indirect (Words.setWord (disk.data indirect) j b)

end Disk

namespace Storage

variable {sb : Superblock} {disk : Disk} {inum : Nat} {b : Nat} {slot : Slot}

/-! ## Places -/

theorem points_of_used (used : (disk.dinode inum).type ≠ .free) (slot : Slot) :
    disk.points (inum, slot) = (disk.dinode inum).points disk.data slot :=
  if_neg used

/-- The places depend on the data of indirect blocks only. -/
theorem points_setData (notIndirect : ∀ inum, disk.points (inum, .indirect) ≠ b) (block : Block) :
    (disk.setData b block).points = disk.points := by
  funext ⟨inum, slot⟩
  by_cases free : (disk.dinode inum).type = .free
  · simp [points, setData, free]
  · cases slot with
    | direct i => rfl
    | indirect => rfl
    | entry j =>
      have other : (disk.dinode inum).addrs (Fin.last NDIRECT) ≠ b := by
        have indirect := notIndirect inum
        rwa [points_of_used free] at indirect
      simp [points, setData, free, Dinode.points, other]

/-- A change of one inode moves its own places only. -/
theorem points_setDinode_of_ne {inum' : Nat} (other : inum' ≠ inum) (dip : Dinode) (slot : Slot) :
    (disk.setDinode inum dip).points (inum', slot) = disk.points (inum', slot) := by
  simp [points, setDinode, other]

theorem points_setDinode_self (dip : Dinode) (slot : Slot) :
    (disk.setDinode inum dip).points (inum, slot) =
      if dip.type = .free then 0 else dip.points disk.data slot := by
  simp [points, setDinode]

/-- An unmarked block is in none of the places, and marking it moves none. -/
theorem points_fresh (owned : disk.Owned sb) (inDisk : b < sb.size) (unused : disk.bitmap b = false) :
    (disk.fresh b).points = disk.points :=
  points_setData (fun inum => (owned.unowned inDisk unused).2.2 (inum, .indirect)) _

/-- An update of one inode is an update at one place if it agrees everywhere else. -/
theorem points_setDinode (dip : Dinode) (slot : Slot) (b : Nat)
    (same : ∀ slot', (if dip.type = .free then 0 else dip.points disk.data slot') =
      update disk.points (inum, slot) b (inum, slot')) :
    (disk.setDinode inum dip).points = update disk.points (inum, slot) b := by
  funext ⟨inum', slot'⟩
  by_cases equal : inum' = inum
  · subst equal
    rw [points_setDinode_self, same]
  · have other : (inum', slot') ≠ (inum, slot) := fun both => equal (congrArg Prod.fst both)
    rw [update_of_ne other, points_setDinode_of_ne equal]

/-- Moving within one inode. -/
theorem update_place (points : Place → Nat) (slot slot' : Slot) (b : Nat) :
    update points (inum, slot) b (inum, slot') =
      if slot' = slot then b else points (inum, slot') := by
  by_cases equal : slot' = slot
  · subst equal
    simp
  · have other : (inum, slot') ≠ (inum, slot) := fun both => equal (congrArg Prod.snd both)
    rw [if_neg equal, update_of_ne other]

section

variable (used : (disk.dinode inum).type ≠ .free)

include used

theorem points_link_direct (i : Fin NDIRECT) (b : Nat) :
    (disk.link inum (.direct i) b).points = update disk.points (inum, .direct i) b := by
  refine points_setDinode _ _ b fun slot => ?_
  rw [if_neg used, update_place, points_of_used used]
  have notLast := (Fin.castSucc_ne_last i).symm
  cases slot with
  | direct i' =>
    by_cases equal : i' = i
    · subst equal
      simp [Dinode.points]
    · have other : i'.castSucc ≠ i.castSucc := fun both => equal (Fin.castSucc_injective _ both)
      simp [Dinode.points, equal, other]
  | indirect => simp [Dinode.points, notLast]
  | entry j => simp [Dinode.points, notLast]

/-- A new indirect block must be empty. -/
theorem points_link_indirect (empty : disk.points (inum, .indirect) = 0)
    (zeros : disk.data b = fun _ => 0) :
    (disk.link inum .indirect b).points = update disk.points (inum, .indirect) b := by
  rw [points_of_used used] at empty
  have empty' : (disk.dinode inum).addrs (Fin.last NDIRECT) = 0 := empty
  refine points_setDinode _ _ b fun slot => ?_
  rw [if_neg used, update_place, points_of_used used]
  cases slot with
  | direct i => simp [Dinode.points]
  | indirect => simp [Dinode.points]
  | entry j => simp [Dinode.points, empty', zeros]

/-- An entry of the indirect block of an inode is in no other indirect block. -/
theorem points_link_entry
    (once : ∀ inum', disk.points (inum', .indirect) = disk.points (inum, .indirect) → inum' = inum)
    (present : disk.points (inum, .indirect) ≠ 0) (j : Fin NINDIRECT) (fits : b < 2 ^ 32) :
    (disk.link inum (.entry j) b).points = update disk.points (inum, .entry j) b := by
  have indirect_eq : disk.points (inum, .indirect) =
      (disk.dinode inum).addrs (Fin.last NDIRECT) := points_of_used used .indirect
  rw [indirect_eq] at present
  funext ⟨inum', slot⟩
  by_cases free : (disk.dinode inum').type = .free
  · have other : (inum', slot) ≠ (inum, Slot.entry j) := by
      rintro ⟨⟩
      exact used free
    rw [update_of_ne other]
    simp [points, link, setData, free]
  · by_cases same : inum' = inum
    · subst same
      rw [update_place, points_of_used used, points_of_used (by exact used)]
      cases slot with
      | direct _ | indirect => simp [Dinode.points, link, setData]
      | entry j' =>
        by_cases equal : j' = j
        · subst equal
          simp [Dinode.points, link, setData, present, Words.word_setWord_self _ _ fits]
        · have other : (j' : Nat) ≠ j := fun both => equal (Fin.ext both)
          simp [Dinode.points, link, setData, present, equal,
            Words.word_setWord_of_ne _ _ other]
    · have other : (inum', slot) ≠ (inum, Slot.entry j) := fun both => same (congrArg Prod.fst both)
      rw [update_of_ne other, points_of_used free, points_of_used (by exact free)]
      cases slot with
      | direct i => rfl
      | indirect => rfl
      | entry j' =>
        have elsewhere : (disk.dinode inum').addrs (Fin.last NDIRECT) ≠
            (disk.dinode inum).addrs (Fin.last NDIRECT) := by
          intro shared
          refine same (once inum' ?_)
          rw [points_of_used free, points_of_used used]
          exact shared
        simp [Dinode.points, link, setData, elsewhere]

end

/-- A slot can take a block: for an entry there has to be an indirect block. -/
def Ready (disk : Disk) (inum : Nat) : Slot → Prop
  | .entry _ => disk.points (inum, .indirect) ≠ 0
  | _ => True

/-- An empty slot takes an unmarked block. -/
theorem points_grow (owned : disk.Owned sb) (inDisk : b < sb.size)
    (unused : disk.bitmap b = false) (used : (disk.dinode inum).type ≠ .free)
    (empty : disk.points (inum, slot) = 0) (ready : Ready disk inum slot) :
    ((disk.fresh b).link inum slot b).points = update disk.points (inum, slot) b := by
  have same := points_fresh owned inDisk unused
  have zeros : (disk.fresh b).data b = fun _ => 0 := by simp [fresh, setData]
  have used' : ((disk.fresh b).dinode inum).type ≠ .free := used
  rw [← same]
  cases slot with
  | direct i => exact points_link_direct used' i b
  | indirect => exact points_link_indirect used' (by rw [same]; exact empty) zeros
  | entry j =>
    have present : disk.points (inum, .indirect) ≠ 0 := ready
    refine points_link_entry used' (fun inum' shared => ?_) (by rw [same]; exact present) j
      (inDisk.trans sb.sizeFits)
    rw [same] at shared
    exact congrArg Prod.fst (owned.once (inum, .indirect) (inum', .indirect) present shared)

theorem bitmap_link (inum : Nat) (slot : Slot) (b : Nat) :
    (disk.link inum slot b).bitmap = disk.bitmap := by
  cases slot <;> rfl

theorem owned_grow (owned : disk.Owned sb) (inDisk : b < sb.size)
    (unused : disk.bitmap b = false) (used : (disk.dinode inum).type ≠ .free)
    (empty : disk.points (inum, slot) = 0) (ready : Ready disk inum slot) :
    ((disk.fresh b).link inum slot b).Owned sb := by
  unfold Disk.Owned
  rw [points_grow owned inDisk unused used empty ready, bitmap_link]
  exact owned.alloc inDisk unused empty

/-! ## Files -/

theorem slotOf_injective {bn' : Nat} {slot : Slot} (first : slotOf bn = some slot)
    (second : slotOf bn' = some slot) : bn' = bn := by
  unfold slotOf at first second
  split at first
  · split at second
    · rw [← second] at first
      simp only [Option.some.injEq, Slot.direct.injEq, Fin.mk.injEq] at first
      exact first.symm
    · split at second
      · rw [← second] at first
        simp at first
      · cases second
  · split at first
    · split at second
      · rw [← second] at first
        simp at first
      · split at second
        · rw [← second] at first
          simp only [Option.some.injEq, Slot.entry.injEq, Fin.mk.injEq] at first
          omega
        · cases second
    · cases first

theorem slotOf_ne_indirect : slotOf bn ≠ some .indirect := by
  unfold slotOf
  split
  · simp
  · split
    · simp
    · simp

theorem file_of_slot (slot_eq : slotOf bn = some slot) :
    disk.file inum bn =
      if disk.points (inum, slot) = 0 then none else some (disk.data (disk.points (inum, slot))) := by
  simp [file, slot_eq]

theorem file_eq_some {block : Block} : disk.file inum bn = some block ↔
    ∃ slot, slotOf bn = some slot ∧ disk.points (inum, slot) ≠ 0 ∧
      disk.data (disk.points (inum, slot)) = block := by
  cases slot_eq : slotOf bn with
  | none => simp [file, slot_eq]
  | some slot =>
    rw [file_of_slot slot_eq]
    by_cases empty : disk.points (inum, slot) = 0
    · simp [empty]
    · simp [empty]

/-- Two disks have the same files if they agree on the places and on the blocks
that data slots point to. -/
theorem file_congr {inum' : Nat} (points_eq : ∀ slot, slot ≠ .indirect →
      disk'.points (inum', slot) = disk.points (inum', slot))
    (data_eq : ∀ slot, slot ≠ .indirect → disk.points (inum', slot) ≠ 0 →
      disk'.data (disk.points (inum', slot)) = disk.data (disk.points (inum', slot))) :
    disk'.file inum' = disk.file inum' := by
  funext bn
  cases slot_eq : slotOf bn with
  | none => simp [file, slot_eq]
  | some slot =>
    have data : slot ≠ .indirect := fun indirect => slotOf_ne_indirect (indirect ▸ slot_eq)
    rw [file_of_slot slot_eq, file_of_slot slot_eq, points_eq slot data]
    by_cases empty : disk.points (inum', slot) = 0
    · simp [empty]
    · simp [empty, data_eq slot data empty]

/-- A change at one data slot changes one block of one file. -/
theorem file_update (slot_eq : slotOf bn = some slot)
    (points_eq : disk'.points = update disk.points (inum, slot) b)
    (data_eq : ∀ place : Place, place ≠ (inum, slot) → place.2 ≠ .indirect →
      disk.points place ≠ 0 → disk'.data (disk.points place) = disk.data (disk.points place)) :
    disk'.file = update disk.file inum
      (update (disk.file inum) bn (if b = 0 then none else some (disk'.data b))) := by
  have elsewhere : ∀ place : Place, place ≠ (inum, slot) →
      disk'.points place = disk.points place := by
    intro place other
    rw [points_eq, update_of_ne other]
  funext inum'
  by_cases same : inum' = inum
  · subst same
    rw [update_self]
    funext bn'
    by_cases here : bn' = bn
    · subst here
      rw [update_self, file_of_slot slot_eq, points_eq, update_self]
    · rw [update_of_ne here]
      cases slot_eq' : slotOf bn' with
      | none => simp [file, slot_eq']
      | some slot' =>
        have other : (inum', slot') ≠ (inum', slot) := fun both =>
          here (slotOf_injective slot_eq ((Prod.mk.inj both).2 ▸ slot_eq'))
        rw [file_of_slot slot_eq', file_of_slot slot_eq', elsewhere _ other]
        by_cases empty : disk.points (inum', slot') = 0
        · simp [empty]
        · have data : slot' ≠ .indirect := fun indirect =>
            slotOf_ne_indirect (indirect ▸ slot_eq')
          simp [empty, data_eq _ other data empty]
  · rw [update_of_ne same]
    have other : ∀ slot', (inum', slot') ≠ (inum, slot) := fun slot' both =>
      same (congrArg Prod.fst both)
    exact file_congr (fun slot' _ => elsewhere _ (other slot')) fun slot' data present =>
      data_eq _ (other slot') data present

/-- Where growing a file leaves the data alone. -/
theorem data_grow {x : Nat} (notNew : x ≠ b)
    (notIndirect : ∀ j, slot = .entry j → x ≠ (disk.dinode inum).addrs (Fin.last NDIRECT)) :
    ((disk.fresh b).link inum slot b).data x = disk.data x := by
  cases slot with
  | direct _ | indirect => simp [link, fresh, setData, setDinode, setBitmap, notNew]
  | entry j =>
    have other := notIndirect j rfl
    simp [link, fresh, setData, setBitmap, notNew, other]

section

variable (owned : disk.Owned sb)

include owned

/-- The data of other places survive when a file grows. -/
theorem data_grow_of_place (inDisk : b < sb.size) (unused : disk.bitmap b = false)
    (used : (disk.dinode inum).type ≠ .free) (data : place.2 ≠ .indirect)
    (present : disk.points place ≠ 0) :
    ((disk.fresh b).link inum slot b).data (disk.points place) = disk.data (disk.points place) := by
  refine data_grow ((owned.unowned inDisk unused).2.2 place) fun j _ shared => ?_
  have indirect_eq : disk.points (inum, .indirect) = disk.points place := by
    rw [shared, points_of_used used]
    rfl
  have twice := owned.once place (inum, .indirect) present indirect_eq
  exact data (congrArg Prod.snd twice.symm)

/-- A file gets a new block of zeros. -/
theorem file_grow (inDisk : b < sb.size) (unused : disk.bitmap b = false)
    (used : (disk.dinode inum).type ≠ .free) (empty : disk.points (inum, slot) = 0)
    (ready : Ready disk inum slot) (slot_eq : slotOf bn = some slot) :
    ((disk.fresh b).link inum slot b).file =
      update disk.file inum
        (update (disk.file inum) bn (some fun _ => 0)) := by
  have nonzero := (owned.unowned inDisk unused).1
  rw [file_update slot_eq (points_grow owned inDisk unused used empty ready)
    fun place _ data present => data_grow_of_place owned inDisk unused used data present,
    if_neg nonzero]
  have zeros : ((disk.fresh b).link inum slot b).data b = fun _ => 0 := by
    cases slot with
    | direct _ | indirect => simp [link, fresh, setData, setDinode]
    | entry j =>
      have other : b ≠ (disk.dinode inum).addrs (Fin.last NDIRECT) := fun shared =>
        (owned.unowned inDisk unused).2.2 (inum, .indirect)
          ((points_of_used used .indirect).trans shared.symm)
      simp [link, fresh, setData, setBitmap, other]
  rw [zeros]

/-- A new indirect block is in no file. -/
theorem file_grow_indirect (inDisk : b < sb.size) (unused : disk.bitmap b = false)
    (used : (disk.dinode inum).type ≠ .free) (empty : disk.points (inum, .indirect) = 0) :
    ((disk.fresh b).link inum .indirect b).file = disk.file := by
  funext inum'
  refine file_congr (fun slot data => ?_) fun slot data present =>
    data_grow_of_place owned inDisk unused used data present
  have other : (inum', slot) ≠ (inum, Slot.indirect) := fun both => data (Prod.mk.inj both).2
  rw [points_grow owned inDisk unused used empty trivial, update_of_ne other]

/-- Writing a block of a file changes nothing else. -/
theorem points_put (data : place.2 ≠ .indirect) (present : disk.points place ≠ 0) (block : Block) :
    (disk.setData (disk.points place) block).points = disk.points := by
  refine points_setData (fun inum' shared => ?_) block
  have twice := owned.once place (inum', .indirect) present shared
  exact data (congrArg Prod.snd twice.symm)

theorem owned_put (data : place.2 ≠ .indirect) (present : disk.points place ≠ 0) (block : Block) :
    (disk.setData (disk.points place) block).Owned sb := by
  unfold Disk.Owned
  rw [points_put owned data present]
  exact owned

theorem file_put (slot_eq : slotOf bn = some slot) (present : disk.points (inum, slot) ≠ 0)
    (block : Block) :
    (disk.setData (disk.points (inum, slot)) block).file =
      update disk.file inum (update (disk.file inum) bn (some block)) := by
  have data : slot ≠ .indirect := fun indirect => slotOf_ne_indirect (indirect ▸ slot_eq)
  have points_eq : (disk.setData (disk.points (inum, slot)) block).points =
      update disk.points (inum, slot) (disk.points (inum, slot)) := by
    rw [points_put owned (by exact data) present, update_eq_self]
  rw [file_update slot_eq points_eq fun place other _ present' => ?_, if_neg present]
  · simp [setData]
  · have elsewhere : disk.points place ≠ disk.points (inum, slot) := fun shared =>
      other (owned.once (inum, slot) place present shared)
    simp [setData, elsewhere]

end

/-- The places and the files do not depend on the other fields of an inode. -/
theorem points_setDinode_congr {dip dip' : Dinode} (type_eq : dip'.type = dip.type)
    (addrs_eq : dip'.addrs = dip.addrs) :
    (disk.setDinode inum dip').points = (disk.setDinode inum dip).points := by
  funext ⟨inum', slot⟩
  by_cases same : inum' = inum
  · subst same
    rw [points_setDinode_self, points_setDinode_self, type_eq]
    cases slot <;> simp [Dinode.points, addrs_eq]
  · rw [points_setDinode_of_ne same, points_setDinode_of_ne same]

theorem file_eq_of_points (points_eq : disk'.points = disk.points)
    (data_eq : disk'.data = disk.data) : disk'.file = disk.file := by
  unfold file
  rw [points_eq, data_eq]

theorem owned_of_points (owned : disk.Owned sb) (points_eq : disk'.points = disk.points)
    (bitmap_eq : disk'.bitmap = disk.bitmap) : disk'.Owned sb := by
  unfold Disk.Owned
  rw [points_eq, bitmap_eq]
  exact owned

end Storage

end Xv6
