import Xv6.Names.Entries

/-!
# Reading and writing directories

What `dirlookup` and `dirlink` do to a sound store, in terms of the entries of the
directory. A lookup finds the first entry in use whose name compares equal; a new entry
goes to the first unused slot or to the end of the directory.
-/

namespace Xv6

open Program List

namespace Disk

variable (disk : Disk)

/-- Is the slot in use, under the given name? -/
def holds (inum : Nat) (name : Name) (slot : Nat) : Bool :=
  decide ((disk.entry inum slot).inum ≠ 0 ∧ namecmp name (disk.entry inum slot).name = 0)

/-- The slot in which `dirlookup` finds a name. -/
def seek (inum : Nat) (name : Name) : Option Nat :=
  (List.range (disk.slots inum)).find? (disk.holds inum name)

/-- The slot that `dirlink` writes to. -/
def vacant (inum : Nat) : Nat :=
  ((List.range (disk.slots inum)).find? fun slot => (disk.entry inum slot).inum = 0).getD (disk.slots inum)

end Disk

/-- The entry that `dirlink` writes, as it is read back. -/
def Dirent.written (inum : Nat) (name : Name) : Dirent :=
  .decode ((List.range DIRENT).map (Dirent.encode inum (name.take DIRSIZ)))

namespace Storage

variable {allowed : Fault → Prop} {store : Store} {dp : InodePtr} {inum slot : Nat} {name : Name}
  {disk : Disk}

theorem holds_iff : disk.holds inum name slot = true ↔
    (disk.entry inum slot).inum ≠ 0 ∧ canonical (disk.entry inum slot).name = canonical name := by
  unfold Disk.holds
  rw [decide_eq_true_iff, namecmp_eq_zero, eq_comm]

/-- A name that is not found is in no slot. -/
theorem not_holds (missed : disk.seek inum name = none) (slot : Nat) : ¬disk.holds inum name slot = true := by
  intro found
  exact find?_eq_none.mp missed slot (mem_range.mpr (slot_lt (holds_iff.mp found).1)) found

theorem vacant_unused (disk : Disk) (inum : Nat) : (disk.entry inum (disk.vacant inum)).inum = 0 := by
  unfold Disk.vacant
  cases found : (range (disk.slots inum)).find? fun slot => (disk.entry inum slot).inum = 0 with
  | some slot => simpa using find?_some found
  | none =>
    by_contra inUse
    exact absurd (slot_lt inUse) (lt_irrefl _)

theorem vacant_le (disk : Disk) (inum : Nat) : disk.vacant inum ≤ disk.slots inum := by
  unfold Disk.vacant
  cases found : (range (disk.slots inum)).find? fun slot => (disk.entry inum slot).inum = 0 with
  | some slot => exact (mem_range.mp (mem_of_find?_eq_some found)).le
  | none => exact le_rfl

/-- All slots before it are in use. -/
theorem vacant_first (before : slot < disk.vacant inum) : (disk.entry inum slot).inum ≠ 0 := by
  unfold Disk.vacant at before
  cases found : (range (disk.slots inum)).find? fun slot => (disk.entry inum slot).inum = 0 with
  | some slot' =>
    rw [found] at before
    have earlier := (find?_range_eq_some.mp found).2.2 slot before
    simpa using earlier
  | none =>
    rw [found] at before
    simpa using find?_eq_none.mp found slot (mem_range.mpr before)

/-! ## Reading -/

/-- No file is longer than its blocks. -/
theorem size_le (sound : Sound store) (loaded : Loaded store dp) (notDev : (store.icache dp).type ≠ .dev) :
    (store.icache dp).size.toNat ≤ MAXFILE * BSIZE := by
  by_contra long
  have present := (sound.regular loaded notDev).filled MAXFILE (not_le.mp long)
  simp [Store.file, Disk.file, slotOf, MAXFILE, NDIRECT, NINDIRECT] at present

/-- Numbers below the size of a file fit in a word. -/
theorem toNat_ofNat_offset {off : Nat} {size : UInt32} (below : off ≤ size.toNat) :
    (UInt32.ofNat off).toNat = off := by
  have bound := size.toNat_lt
  rw [UInt32.toNat_ofNat']
  exact Nat.mod_eq_of_lt (by omega)

section Lookup

variable (sound : Sound store) (loaded : Loaded store dp) (directory : (store.icache dp).type = .dir)

include sound loaded

/-- The slots of a directory, as the offsets that the loops visit. -/
theorem direntOffsets_eq : direntOffsets (store.icache dp).size =
    (List.range (store.disk.slots (store.icache dp).inum)).map (DIRENT * ·) := by
  unfold direntOffsets Disk.slots
  rw [← sound.clean dp loaded.held loaded.valid]

theorem visited_iff : slot < store.disk.slots (store.icache dp).inum ↔
    DIRENT * slot < (store.icache dp).size.toNat := by
  unfold Disk.slots
  rw [← sound.clean dp loaded.held loaded.valid]
  change slot < ((store.icache dp).size.toNat + 15) / 16 ↔ 16 * slot < _
  omega

include directory

theorem stores_readDirent (visited : slot < store.disk.slots (store.icache dp).inum) {short : Panic}
    (whole : allowed (.panic short) ∨ DIRENT ∣ (store.icache dp).size.toNat) :
    Stores allowed (readDirent dp (DIRENT * slot) short) store fun de after =>
      after = store ∧ de = store.disk.entry (store.icache dp).inum slot := by
  have regular := sound.regular loaded (by rw [directory]; decide)
  have below := (visited_iff sound loaded).mp visited
  refine .bind (stores_readi regular.notDev regular.filled _ _) fun result last found => ?_
  obtain ⟨rfl, result_eq⟩ := found
  have length_eq : (last.content dp).length = (last.icache dp).size.toNat := length_content_eq _ _
  have bound := (last.icache dp).size.toNat_lt
  rw [toNat_ofNat_offset below.le] at result_eq
  -- only an entry that is cut short stops the reader
  have fits : DIRENT ∣ (last.icache dp).size.toNat → DIRENT * slot + DIRENT ≤ (last.icache dp).size.toNat := by
    rintro ⟨count, size_eq⟩
    change (last.icache dp).size.toNat = 16 * count at size_eq
    change 16 * slot < _ at below
    change 16 * slot + 16 ≤ _
    omega
  split at result_eq
  · rename_i refused
    rw [result_eq]
    refine .throw (whole.resolve_right fun multiple => ?_)
    have inside := fits multiple
    rcases refused with past | wraps
    · omega
    · change 2 ^ 32 ≤ DIRENT * slot + DIRENT at wraps
      omega
  · rw [result_eq]
    refine .ite (fun _ => .pure ⟨rfl, ?_⟩) fun short => .throw (whole.resolve_right fun multiple => ?_)
    · rw [sound.content loaded]
      rfl
    · refine short ?_
      have inside := fits multiple
      change (((last.content dp).drop (DIRENT * slot)).take DIRENT).length = DIRENT
      rw [length_take, length_drop, length_eq]
      omega

/-! ## Looking up -/

/-- The store after a lookup that found the name in a slot of `dp`: one more
reference to what is named there. -/
structure Found (dp : InodePtr) (slot : Nat) (ip : InodePtr) (before after : Store) : Prop where
  calm : Calm before.account.refs before after
  account : after.account = before.account.take ip
  disk : after.disk = before.disk
  inum : (after.icache ip).inum = (before.disk.entry (before.icache dp).inum slot).inum
  held : 0 < (after.icache ip).ref
  remains : after.Remains ip

theorem calm_dirlookupFrom (name : Name) (slots : List Nat)
    (visited : ∀ slot ∈ slots, slot < store.disk.slots (store.icache dp).inum)
    (whole : allowed (.panic .dirlookupRead) ∨ DIRENT ∣ (store.icache dp).size.toNat)
    (full : allowed (.panic .igetNoInodes) ∨
      ∀ slot, slots.find? (store.disk.holds (store.icache dp).inum name) = some slot →
        (store.cached ROOTDEV (store.disk.entry (store.icache dp).inum slot).inum).isSome = true) :
    Stores allowed (dirlookupFrom dp name (slots.map (DIRENT * ·))) store fun entry after =>
      (entry = none ∧ after = store ∧
        slots.find? (store.disk.holds (store.icache dp).inum name) = none) ∨
      ∃ ip slot, entry = some (ip, DIRENT * slot) ∧ Found dp slot ip store after ∧
        slots.find? (store.disk.holds (store.icache dp).inum name) = some slot := by
  induction slots with
  | nil => exact .pure (.inl ⟨rfl, rfl, rfl⟩)
  | cons slot rest ih =>
    obtain ⟨here, later⟩ := forall_mem_cons.mp visited
    refine .bind (stores_readDirent sound loaded directory here whole) fun de last read => ?_
    obtain ⟨rfl, rfl⟩ := read
    refine .ite (fun holds => ?_) fun misses => ?_
    · have found : last.disk.holds (last.icache dp).inum name slot = true := decide_eq_true holds
      rw [find?_cons_of_pos found] at full ⊢
      refine .bind (stores_readInode dp) fun inode after read => ?_
      obtain ⟨rfl, rfl⟩ := read
      rw [sound.device dp loaded.held]
      refine .bind (calm_iget (full.imp_right fun cached => cached slot rfl) after.account.refs sound
        fun _ held => held)
        fun ip taken outcome => .pure (.inr ⟨ip, slot, rfl, ?_, rfl⟩)
      obtain ⟨calm, account_eq, disk_eq, inum_eq, held, remains⟩ := outcome
      exact ⟨calm, account_eq, disk_eq, inum_eq, held, remains⟩
    · have missed : ¬last.disk.holds (last.icache dp).inum name slot = true :=
        fun holds => misses (of_decide_eq_true holds)
      rw [find?_cons_of_neg missed] at full ⊢
      exact ih later full

theorem calm_dirlookup (name : Name)
    (whole : allowed (.panic .dirlookupRead) ∨ DIRENT ∣ (store.icache dp).size.toNat)
    (full : allowed (.panic .igetNoInodes) ∨
      ∀ slot, store.disk.seek (store.icache dp).inum name = some slot →
        (store.cached ROOTDEV (store.disk.entry (store.icache dp).inum slot).inum).isSome = true) :
    Stores allowed (dirlookup dp name) store fun entry after =>
      (entry = none ∧ after = store ∧ store.disk.seek (store.icache dp).inum name = none) ∨
        ∃ ip slot, entry = some (ip, DIRENT * slot) ∧ Found dp slot ip store after ∧
          store.disk.seek (store.icache dp).inum name = some slot := by
  refine .bind (stores_readInode dp) fun inode last read => ?_
  obtain ⟨rfl, rfl⟩ := read
  rw [if_neg (not_not.mpr directory), direntOffsets_eq sound loaded]
  exact calm_dirlookupFrom sound loaded directory name _ (fun _ => mem_range.mp) whole full

/-! ## New entries -/

/-- The loop stops at the first unused slot, or has read all of them. -/
theorem stores_emptyDirent (full : Nat) (slots : List Nat)
    (visited : ∀ slot ∈ slots, slot < store.disk.slots (store.icache dp).inum)
    (whole : allowed (.panic .dirlinkRead) ∨ DIRENT ∣ (store.icache dp).size.toNat) :
    Stores allowed (emptyDirent dp (DIRENT * full) (slots.map (DIRENT * ·))) store fun off after =>
      after = store ∧ off = DIRENT * ((slots.find? fun slot =>
        (store.disk.entry (store.icache dp).inum slot).inum = 0).getD full) := by
  induction slots with
  | nil => exact .pure ⟨rfl, rfl⟩
  | cons slot rest ih =>
    obtain ⟨here, later⟩ := forall_mem_cons.mp visited
    refine .bind (stores_readDirent sound loaded directory here whole) fun de last read => ?_
    obtain ⟨rfl, rfl⟩ := read
    refine .ite (fun unused => .pure ⟨rfl, ?_⟩) fun inUse => ?_
    · simp [unused]
    · simpa [inUse] using ih later

end Lookup

/-- The store after `dirlink` has written an entry. -/
structure Linked (dp : InodePtr) (name : Name) (inum : Nat) (before after : Store) : Prop where
  edits : Edits (before.icache dp).inum before after
  missed : before.disk.seek (before.icache dp).inum name = none
  overwrites : Overwrites (before.icache dp).inum (Dirent.encode inum (name.take DIRSIZ))
    (DIRENT * before.disk.vacant (before.icache dp).inum) DIRENT before.disk after.disk
  inside : DIRENT * before.disk.vacant (before.icache dp).inum ≤ (before.icache dp).size.toNat

/-- `dirlink` writes an entry unless it finds the name. What it found was referred to
for a moment only; its lock was taken, so it hangs if its caller has the lock. -/
theorem stores_dirlink (sound : Sound store) (loaded : Loaded store dp)
    (directory : (store.icache dp).type = .dir) (name : Name) (inum : Nat)
    (whole : (allowed (.panic .dirlookupRead) ∧ allowed (.panic .dirlinkRead)) ∨
      DIRENT ∣ (store.icache dp).size.toNat)
    (tolerant : Tolerant allowed store.outstanding)
    (room : allowed (.panic .dirlink) ∨ (DIRENT ∣ (store.icache dp).size.toNat ∧
      DIRENT * store.disk.vacant (store.icache dp).inum + DIRENT ≤ MAXFILE * BSIZE))
    (full : allowed (.panic .igetNoInodes)) (waits : allowed .asleep)
    (clear : (∀ ip, allowed (.deadlock ip)) ∨
      ∀ slot, store.disk.seek (store.icache dp).inum name = some slot →
        ∀ ip, ¬store.Free ip → 0 < (store.icache ip).ref ∧
          (store.icache ip).inum ≠ (store.disk.entry (store.icache dp).inum slot).inum) :
    Stores allowed (dirlink dp name inum) store fun linked after =>
      (linked = false ∧ Calm store.account.refs store after ∧ after.account = store.account ∧
          after.disk = store.disk ∧ ∃ slot, store.disk.seek (store.icache dp).inum name = some slot) ∨
        (linked = true ∧ Linked dp name inum store after) := by
  refine .bind (calm_dirlookup sound loaded directory name (whole.imp_left And.left) (.inl full))
    fun entry found outcome => ?_
  rcases outcome with ⟨rfl, rfl, missed⟩ | ⟨ip, slot, rfl, found', sought⟩
  · refine .bind (stores_readInode dp) fun inode read outcome => ?_
    obtain ⟨rfl, rfl⟩ := outcome
    dsimp only
    rw [direntOffsets_eq sound loaded, length_map, length_range]
    refine .bind (stores_emptyDirent sound loaded directory _ _ (fun _ => mem_range.mp)
      (whole.imp_left And.right)) fun off same outcome => ?_
    obtain ⟨rfl, rfl⟩ := outcome
    change Track Kernel.store allowed (do
      let written ← writei dp _ (UInt32.ofNat (DIRENT * same.disk.vacant (same.icache dp).inum)) _
      if written = DIRENT then pure true else panic .dirlink) same _
    have small := size_le sound loaded (by rw [directory]; decide)
    change (same.icache dp).size.toNat ≤ 71680 at small
    have last := vacant_le same.disk (same.icache dp).inum
    unfold Disk.slots at last
    rw [← sound.clean dp loaded.held loaded.valid] at last
    change _ ≤ (_ + 15) / 16 at last
    have exact_ : (UInt32.ofNat (DIRENT * same.disk.vacant (same.icache dp).inum)).toNat =
        DIRENT * same.disk.vacant (same.icache dp).inum := by
      rw [UInt32.toNat_ofNat']
      change 16 * _ % 2 ^ 32 = 16 * _
      omega
    refine .bind (edits_writei_file tolerant sound loaded (by rw [directory]; decide) _ _ _)
      fun result after outcome => ?_
    obtain ⟨edits, outcome⟩ := outcome
    unfold refusesWrite at outcome
    rw [exact_] at outcome
    rcases outcome with ⟨refused, rfl, _⟩ | ⟨accepted, rfl, overwrites⟩
    · refine .ite (fun written => absurd written (by decide)) fun _ => .throw (room.resolve_right ?_)
      rintro ⟨⟨count, size_eq⟩, inside⟩
      change _ = 16 * count at size_eq
      change 16 * _ + 16 ≤ 71680 at inside
      change _ < 16 * _ ∨ 2 ^ 32 ≤ 16 * _ + 16 ∨ 71680 < 16 * _ + 16 at refused
      omega
    · exact .ite (fun written => .pure (.inr ⟨rfl, edits, missed, overwrites,
        not_lt.mp fun past => accepted (.inl past)⟩)) fun other => absurd rfl other
  · have free : Lockable allowed found ip := by
      refine .inr ⟨waits, clear.symm.imp (fun clear => ?_) fun hangs => hangs ip⟩
      change found.account.Free ip
      rw [found'.account]
      by_contra mine
      obtain ⟨held, other⟩ := clear slot sought ip mine
      refine other ?_
      rw [← found'.inum]
      exact (found'.calm.stays.inum ip held).symm
    have held : 0 < store.account.refs ip → 2 ≤ (found.icache ip).ref := by
      intro positive
      change 2 ≤ found.account.refs ip
      rw [found'.account, Account.take_refs, Pi.add_apply, Pi.single_eq_same]
      omega
    refine .bind (calm_iput store.account.refs found'.calm.sound free (.inr found'.remains) held)
      fun _ after outcome => .pure (.inl ⟨rfl, ?_, ?_, ?_, slot, sought⟩)
    · exact found'.calm.trans outcome.1
    · rw [outcome.2.1, found'.account, Account.drop_take]
    · rw [outcome.2.2.2 found'.remains, found'.disk]

end Storage

end Xv6
