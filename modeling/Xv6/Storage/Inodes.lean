import Xv6.Storage.Sound

/-!
# Writing the inodes of a sound store

The functions of `fs.c` that change an inode are called with its lock held. Each
of them leaves the entry of the cache and the inode on the disk alike: `writei`
writes the inode back when the file grows, and no block below the size is ever
missing, so a write that does not grow the file finds every block number in
place. `ialloc` writes an inode that no valid entry stands for.
-/

namespace Xv6

open Function Store

/-- An assignment to the fields of an inode that its blocks do not depend on. -/
structure Attributes (update : Inode → Inode) : Prop where
  kept : ∀ inode, update inode = { inode with
    major := (update inode).major, minor := (update inode).minor, nlink := (update inode).nlink,
    mode := (update inode).mode, uid := (update inode).uid, gid := (update inode).gid }

namespace Storage

variable {allowed : Fault → Prop} {store before after : Store} {ip : InodePtr}

/-! ## Contents -/

theorem Wrote.rewritten {off n : UInt32} {src : Nat → Byte}
    (wrote : Wrote ip off.toNat n.toNat src before after) (sound : Sound before)
    (loaded : Loaded before ip) (notDev : (before.icache ip).type ≠ .dev)
    (inside : off.toNat ≤ (before.icache ip).size.toNat) : Rewritten ip before after := by
  have regular := sound.regular loaded notDev
  have flushed_eq : after.flushed ip = after.disk :=
    wrote.clean (sound.flushed loaded) regular.filled
  have clean : (after.icache ip).toDinode = after.disk.dinode (before.icache ip).inum := by
    rw [← flushed_eq, ← wrote.inum]
    exact (dinode_flushed after ip).symm
  have type_eq : (after.icache ip).type = (before.icache ip).type := by rw [wrote.self]
  have owned := wrote.owned
  have filled := (wrote.regular regular inside).filled
  unfold Filled Store.file at filled
  rw [flushed_eq] at owned filled
  rw [clean, wrote.inum] at filled
  refine ⟨wrote.sb, wrote.me, wrote.outstanding, wrote.others, ?_, owned, clean, type_eq,
    fun _ => filled, wrote.dinodes, fun inum other => ?_⟩
  · rw [wrote.self]
  · rw [← flushed_eq, wrote.files, update_of_ne other, sound.flushed loaded]

/-- What a write does to the file on the disk: the contents are overwritten, and no
field of the inode but the size and the block numbers differs. -/
structure Overwrites (inum : Nat) (src : Nat → Byte) (off n : Nat) (before after : Disk) : Prop where
  content : after.content inum = (before.content inum).take off ++ (List.range n).map src ++
    (before.content inum).drop (off + n)
  fields : after.dinode inum = { before.dinode inum with
    size := (after.dinode inum).size, addrs := (after.dinode inum).addrs }

theorem Wrote.overwrites {off n : UInt32} {src : Nat → Byte}
    (wrote : Wrote ip off.toNat n.toNat src before after) (sound : Sound before)
    (loaded : Loaded before ip) (notDev : (before.icache ip).type ≠ .dev)
    (inside : off.toNat ≤ (before.icache ip).size.toNat) :
    Overwrites (before.icache ip).inum src off.toNat n.toNat before.disk after.disk := by
  have rewritten := wrote.rewritten sound loaded notDev inside
  have content_eq := wrote.content inside
  rw [sound.content loaded, (rewritten.sound sound loaded).content (rewritten.loaded loaded),
    wrote.inum] at content_eq
  refine ⟨content_eq, ?_⟩
  rw [← rewritten.clean, ← sound.clean ip loaded.held loaded.valid, wrote.self]

/-- A driver releases the lock of the inode and takes it again. -/
theorem stores_relock (loaded : Loaded store ip) :
    Stores (fun _ => True) (do iunlock ip; ilock ip) store fun _ after => after = store := by
  refine .bind (stores_iunlock ip (.inl trivial)) fun _ unlocked outcome => ?_
  obtain ⟨owner, unlocked_eq⟩ := outcome
  have entry_eq : unlocked.icache ip = { store.icache ip with lock := none } := by
    rw [unlocked_eq]
    exact icache_setInode_self ip _
  have valid : (unlocked.icache ip).valid = true := by
    rw [entry_eq]
    exact loaded.valid
  refine .mono (stores_ilock (.inl trivial) (lockable_any _ ip) (.inl trivial)) fun _ after outcome => ?_
  rw [outcome.2.2.2, load, current, if_pos valid, entry_eq, unlocked_eq]
  change (store.unlock ip).setInode ip { store.icache ip with
    lock := some store.me.pid, valid := true } = store
  rw [← owner, ← loaded.valid, unlock, setInode_setInode]
  exact Store.ext rfl rfl (update_eq_self ip _) rfl rfl

theorem stores_consolewrite (loaded : Loaded store ip) (n : Int) :
    Stores (fun _ => True) (consolewrite ip n) store fun _ after => after = store := by
  have split : consolewrite ip n = (do iunlock ip; ilock ip) >>= fun _ => pure n := by
    rw [bind_assoc]
    rfl
  rw [split]
  exact .bind (stores_relock loaded) fun _ _ same => .pure same

/-- A write to a file or a directory. -/
theorem edits_writei_file (tolerant : Tolerant allowed store.outstanding) (sound : Sound store)
    (loaded : Loaded store ip) (notDev : (store.icache ip).type ≠ .dev) (src : Nat → Byte) (off n : UInt32) :
    Stores allowed (writei ip src off n) store fun result after =>
      Edits (store.icache ip).inum store after ∧
        ((refusesWrite (store.icache ip).size.toNat off n ∧ result = -1 ∧ after = store) ∨
          (¬refusesWrite (store.icache ip).size.toNat off n ∧ result = n.toNat ∧
            Overwrites (store.icache ip).inum src off.toNat n.toNat store.disk after.disk)) := by
  have regular := sound.regular loaded notDev
  refine .mono (stores_writei tolerant regular.owned regular.used notDev src off n)
    fun _ after outcome => ?_
  rcases outcome with ⟨refused, returned, rfl⟩ | ⟨accepted, returned, wrote⟩
  · exact ⟨.refl sound _, .inl ⟨refused, returned, rfl⟩⟩
  · have inside : off.toNat ≤ (store.icache ip).size.toNat :=
      not_lt.mp fun past => accepted (.inl past)
    exact ⟨(wrote.rewritten sound loaded notDev inside).edits sound loaded,
      .inr ⟨accepted, returned, wrote.overwrites sound loaded notDev inside⟩⟩

/-- A write to a file or a directory, or to a device. -/
theorem edits_writei (sound : Sound store) (loaded : Loaded store ip) (src : Nat → Byte)
    (off n : UInt32) :
    Stores (fun _ => True) (writei ip src off n) store fun _ after =>
      Edits (store.icache ip).inum store after := by
  by_cases device : (store.icache ip).type = .dev
  · have unchanged : Stores (fun _ => True) (writei ip src off n) store fun _ after =>
        after = store := by
      refine .bind (stores_readInode ip) fun inode after read => ?_
      obtain ⟨rfl, rfl⟩ := read
      rw [if_pos device]
      exact .ite (fun _ => stores_consolewrite loaded _) fun _ => .pure rfl
    refine .mono unchanged fun _ after same => ?_
    rw [same]
    exact .refl sound _
  · exact .mono (edits_writei_file (tolerant_any _) sound loaded device src off n) fun _ _ outcome => outcome.1

/-! ## Attributes -/

/-- An inode with other attributes has the same blocks. -/
theorem points_setAttributes {disk : Disk} {inum : Nat} {dip : Dinode}
    (type_eq : dip.type = (disk.dinode inum).type) (addrs_eq : dip.addrs = (disk.dinode inum).addrs) :
    (disk.setDinode inum dip).points = disk.points := by
  have same : disk.setDinode inum (disk.dinode inum) = disk := by
    unfold Disk.setDinode
    rw [update_eq_self]
  rw [points_setDinode_congr type_eq addrs_eq, same]

/-- Fields of a locked inode are assigned and written back. -/
theorem edits_assign (sound : Sound store) (loaded : Loaded store ip) {update : Inode → Inode}
    (attributes : Attributes update) :
    Stores (fun _ => True) (do writeInode ip update; iupdate ip) store fun _ after =>
      Edits (store.icache ip).inum store after ∧
        after.disk = store.disk.setDinode (store.icache ip).inum
          (update (store.icache ip)).toDinode ∧
        after.disk.file = store.disk.file := by
  refine .bind (stores_writeInode ip update) fun _ assigned assigned_eq => ?_
  refine .mono (stores_iupdate (tolerant_any _) ip) fun _ after after_eq => ?_
  have kept := attributes.kept (store.icache ip)
  generalize update (store.icache ip) = inode at *
  have clean := sound.clean ip loaded.held loaded.valid
  have inum_eq : inode.inum = (store.icache ip).inum := by rw [kept]
  have disk_eq : after.disk = store.disk.setDinode (store.icache ip).inum inode.toDinode := by
    rw [after_eq, assigned_eq, ← inum_eq]
    simp [setDisk, flushed, setInode]
  have entry_eq : after.icache ip = inode := by
    rw [after_eq, assigned_eq]
    simp [setDisk, setInode]
  have points_eq : after.disk.points = store.disk.points := by
    rw [disk_eq]
    exact points_setAttributes (by rw [← clean, kept]) (by rw [← clean, kept])
  have data_eq : after.disk.data = store.disk.data := by rw [disk_eq]; rfl
  have file_eq : after.disk.file = store.disk.file := file_eq_of_points points_eq data_eq
  have self_eq : after.disk.dinode (store.icache ip).inum = inode.toDinode := by
    rw [disk_eq]
    exact update_self _ _ _
  have rewritten : Rewritten ip store after := by
    constructor
    · rw [after_eq, assigned_eq]
      rfl
    · rw [after_eq, assigned_eq]
      rfl
    · rw [after_eq, assigned_eq]
      rfl
    · intro ip' other
      rw [after_eq, assigned_eq]
      exact icache_setInode_of_ne _ other
    · rw [entry_eq]
      conv_rhs => rw [kept]
      exact kept
    · have sb_eq : after.sb = store.sb := by rw [after_eq, assigned_eq]; rfl
      rw [sb_eq]
      exact owned_of_points sound.owned points_eq (by rw [disk_eq]; rfl)
    · rw [entry_eq, self_eq]
    · rw [entry_eq, kept]
    · intro notDev bn below
      rw [file_eq]
      refine sound.filled _ ?_ ?_ bn ?_
      · rw [← clean]
        exact sound.live ip loaded.held loaded.valid
      · rw [entry_eq, kept] at notDev
        rw [← clean]
        exact notDev
      · rw [self_eq, kept] at below
        rw [← clean]
        exact below
    · intro inum other
      rw [disk_eq]
      exact update_of_ne other _ _
    · intro inum _
      rw [file_eq]
  exact ⟨rewritten.edits sound loaded, disk_eq, file_eq⟩

/-- The blocks of a locked inode are given back. -/
theorem edits_itrunc (sound : Sound store) (loaded : Loaded store ip) :
    Stores (fun _ => True) (itrunc ip) store fun _ after =>
      Edits (store.icache ip).inum store after := by
  have flushed_eq := sound.flushed loaded
  have used := sound.live ip loaded.held loaded.valid
  have owned : (store.flushed ip).Owned store.sb := by
    rw [flushed_eq]
    exact sound.owned
  refine .mono (stores_itrunc (tolerant_any _) owned used)
    fun _ after outcome => ?_
  obtain ⟨middle, trimmed, bare, after_eq⟩ := outcome
  have disk_eq : after.disk = middle.disk.setDinode (store.icache ip).inum
      { (middle.icache ip).toDinode with size := 0 } := by
    rw [after_eq, ← trimmed.inum]
    rfl
  have entry_eq : after.icache ip = { middle.icache ip with size := 0 } := by
    rw [after_eq]
    exact icache_setInode_self ip _
  have points_eq : after.disk.points = (middle.flushed ip).points := by
    rw [disk_eq, flushed, trimmed.inum]
    exact points_setDinode_congr rfl rfl
  have self_eq : after.disk.dinode (store.icache ip).inum =
      { (middle.icache ip).toDinode with size := 0 } := by
    rw [disk_eq]
    exact update_self _ _ _
  refine Rewritten.edits ?_ sound loaded
  constructor
  · rw [after_eq]
    exact trimmed.sb
  · rw [after_eq]
    exact trimmed.me
  · rw [after_eq]
    exact trimmed.outstanding
  · intro ip' other
    rw [after_eq]
    exact (icache_setInode_of_ne _ other).trans (trimmed.others ip' other)
  · rw [entry_eq, trimmed.self]
  · have sb_eq : after.sb = middle.sb := by rw [after_eq]; rfl
    rw [sb_eq]
    exact owned_of_points trimmed.owned points_eq (by rw [disk_eq]; rfl)
  · rw [entry_eq, self_eq]
  · rw [entry_eq]
    exact trimmed.type
  · intro _ bn below
    rw [self_eq] at below
    exact absurd below (Nat.not_lt_zero _)
  · intro inum other
    rw [disk_eq]
    exact (update_of_ne other _ _).trans (congrFun trimmed.dinode inum)
  · intro inum other
    exact trimmed.file_of_ne points_eq (by rw [disk_eq]; rfl) other

/-- Writing back an entry that is a copy already. -/
theorem stores_iupdate_clean (sound : Sound store) (loaded : Loaded store ip) :
    Stores (fun _ => True) (iupdate ip) store fun _ after => after = store := by
  refine .mono (stores_iupdate (tolerant_any _) ip) fun _ after after_eq => ?_
  rw [after_eq, sound.flushed loaded]
  rfl

/-! ## New inodes -/

/-- A free inode on the disk is given a type and owners. -/
structure Allocates (inum : Nat) (dip : Dinode) (before after : Disk) : Prop where
  unused : (before.dinode inum).type = .free
  dinode : after.dinode = Function.update before.dinode inum dip
  file : after.file = before.file

/-- No valid entry stands for a free inode. -/
theorem Sound.inum_ne_of_free (sound : Sound store) (loaded : Loaded store ip) {inum : Nat}
    (unused : (store.disk.dinode inum).type = .free) : (store.icache ip).inum ≠ inum := by
  rintro rfl
  rw [← sound.clean ip loaded.held loaded.valid] at unused
  exact sound.live ip loaded.held loaded.valid unused

/-- An inode without blocks takes the place of a free one. -/
theorem points_allocate {disk : Disk} {inum : Nat} {dip : Dinode}
    (unused : (disk.dinode inum).type = .free) (bare : ∀ slot, dip.points disk.data slot = 0) :
    (disk.setDinode inum dip).points = disk.points := by
  funext ⟨inum', slot⟩
  by_cases here : inum' = inum
  · subst here
    rw [points_setDinode_self, bare, ite_self]
    exact (if_pos unused).symm
  · exact points_setDinode_of_ne here dip slot

theorem points_fresh_dinode (type : InodeType) (uid mode : UInt32) (data : Nat → Block)
    (slot : Slot) : (Dinode.fresh type uid mode).points data slot = 0 := by
  cases slot <;> simp [Dinode.points, Dinode.fresh]

/-- The store in which `ialloc` has written its inode. -/
theorem Sound.allocate (sound : Sound store) {inum : Nat}
    (unused : (store.disk.dinode inum).type = .free) (type : InodeType) (uid mode : UInt32) :
    Sound (store.setDisk (store.disk.setDinode inum (.fresh type uid mode))) ∧
      Allocates inum (.fresh type uid mode) store.disk
        (store.disk.setDinode inum (.fresh type uid mode)) := by
  have points_eq := points_allocate unused (points_fresh_dinode type uid mode store.disk.data)
  have file_eq : (store.disk.setDinode inum (.fresh type uid mode)).file = store.disk.file :=
    file_eq_of_points points_eq rfl
  refine ⟨?_, unused, rfl, file_eq⟩
  constructor
  · exact owned_of_points sound.owned points_eq rfl
  · intro inum' used notDev bn below
    by_cases here : inum' = inum
    · subst here
      simp [setDisk, Disk.setDinode, Dinode.fresh] at below
    · have same : (store.disk.setDinode inum (.fresh type uid mode)).dinode inum' =
          store.disk.dinode inum' := update_of_ne here _ _
      change ((store.disk.setDinode inum (.fresh type uid mode)).dinode inum').type ≠ .free at used
      change ((store.disk.setDinode inum (.fresh type uid mode)).dinode inum').type ≠ .dev at notDev
      change bn * BSIZE <
        ((store.disk.setDinode inum (.fresh type uid mode)).dinode inum').size.toNat at below
      change ((store.disk.setDinode inum (.fresh type uid mode)).file inum' bn).isSome = true
      rw [same] at used notDev below
      rw [file_eq]
      exact sound.filled inum' used notDev bn below
  · exact sound.device
  · intro ip held valid
    have other := sound.inum_ne_of_free ⟨held, valid⟩ unused
    exact (sound.clean ip held valid).trans (update_of_ne other _ _).symm
  · exact sound.live
  · exact sound.distinct

/-- `ialloc` writes a free inode and refers to it. -/
theorem stores_ialloc (base : InodePtr → Int) (sound : Sound store)
    (held : ∀ ip, 0 < base ip → 0 < (store.icache ip).ref) (type : InodeType) (uid mode : UInt32) :
    Stores (fun _ => True) (ialloc ROOTDEV type uid mode) store fun ip after =>
      Sound after ∧ Stays base store after ∧ after.account = store.account.take ip ∧
        0 < (after.icache ip).ref ∧ 0 < (after.icache ip).inum ∧
        (after.icache ip).inum < store.sb.ninodes ∧
        Allocates (after.icache ip).inum (.fresh type uid mode) store.disk after.disk := by
  refine .bind (stores_emit _) fun _ same same_eq => ?_
  subst same_eq
  refine .get fun kernel viewed => ?_
  subst viewed
  split
  · exact .throw trivial
  · rename_i inum found
    have unused : (kernel.disk.dinode inum).type = .free := by
      simpa using List.find?_some found
    have range := List.mem_range'_1.mp (List.mem_of_find?_eq_some found)
    obtain ⟨sound', allocates⟩ := sound.allocate unused type uid mode
    refine .bind (stores_setDinode _ _) fun _ written written_eq => ?_
    refine .bind (stores_logWrite (tolerant_any _) _) fun _ logged logged_eq => ?_
    rw [logged_eq, written_eq]
    refine .mono (calm_iget (.inl trivial) base sound' held) fun ip after outcome => ?_
    obtain ⟨calm, account_eq, disk_eq, inum_eq, positive, _⟩ := outcome
    refine ⟨calm.sound, ⟨calm.stays.inum, calm.stays.valid⟩, account_eq, positive, ?_, ?_, ?_⟩
    · rw [inum_eq]
      omega
    · rw [inum_eq]
      change inum < kernel.sb.ninodes
      omega
    · rw [inum_eq, disk_eq]
      exact allocates

end Storage

end Xv6
