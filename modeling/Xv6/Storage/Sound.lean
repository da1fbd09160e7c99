import Mathlib.Algebra.Group.Pi.Lemmas
import Mathlib.Tactic.Abel
import Mathlib.Tactic.Simps.Basic
import Xv6.Storage.Content
import Xv6.Storage.Truncate

/-!
# Sound stores

A store is sound if the blocks of the disk are owned, no file has a hole below
its size, and the inode cache agrees with the disk: referenced entries stand for
different inodes, and a valid one is a copy of its inode. Between two calls of
`fs.c` every entry is a copy; a function that assigns to one writes it back
before it calls another.

Each operation keeps a store sound. What else it does is said by its account,
the locks and references it takes and gives, and by what it leaves in place.
-/

namespace Xv6

open Program Function Store

variable {inode : Inode}

/-- What a process takes from and gives back to the inode cache. -/
@[ext] structure Account where
  sb : Superblock
  me : Proc
  outstanding : Int
  locks : InodePtr → Option Nat
  refs : InodePtr → Int

namespace Account

variable (account : Account)

@[simps] def take (ip : InodePtr) : Account := { account with refs := account.refs + Pi.single ip 1 }

@[simps] def drop (ip : InodePtr) : Account := { account with refs := account.refs - Pi.single ip 1 }

@[simps] def lock (ip : InodePtr) : Account :=
  { account with locks := Function.update account.locks ip (some account.me.pid) }

@[simps] def unlock (ip : InodePtr) : Account :=
  { account with locks := Function.update account.locks ip none }

/-- The process does not hold the lock of `ip`. -/
def Free (ip : InodePtr) : Prop := account.locks ip ≠ some account.me.pid

/-- A lock that was free is free again after it was taken and released. -/
theorem unlock_lock {ip : InodePtr} (free : account.locks ip = none) :
    (account.lock ip).unlock ip = account := by
  unfold lock unlock
  simp only [update_idem]
  rw [← free, update_eq_self]

theorem take_lock (ip ip' : InodePtr) : (account.take ip').lock ip = (account.lock ip).take ip' := rfl

theorem take_take (ip ip' : InodePtr) : (account.take ip).take ip' = (account.take ip').take ip := by
  unfold take
  simp only [add_right_comm]

theorem drop_take (ip : InodePtr) : (account.take ip).drop ip = account := by
  unfold take drop
  simp only [add_sub_cancel_right]

end Account

def Store.account (store : Store) : Account :=
  { sb := store.sb, me := store.me, outstanding := store.outstanding,
    locks := fun ip => (store.icache ip).lock, refs := fun ip => (store.icache ip).ref }

/-- `iput` frees an inode only if it has been read, has no name and no other reference. -/
def Store.Remains (store : Store) (ip : InodePtr) : Prop :=
  ¬((store.icache ip).valid = true ∧ (store.icache ip).nlink = 0 ∧ (store.icache ip).ref = 1)

/-- A file without a hole. -/
def Disk.Filled (disk : Disk) (inum : Nat) : Prop :=
  ∀ bn, bn * BSIZE < (disk.dinode inum).size.toNat → (disk.file inum bn).isSome = true

namespace Storage

structure Sound (store : Store) : Prop where
  owned : store.disk.Owned store.sb
  filled : ∀ inum, (store.disk.dinode inum).type ≠ .free → (store.disk.dinode inum).type ≠ .dev →
    store.disk.Filled inum
  device : ∀ ip, 0 < (store.icache ip).ref → (store.icache ip).dev = ROOTDEV
  clean : ∀ ip, 0 < (store.icache ip).ref → (store.icache ip).valid = true →
    (store.icache ip).toDinode = store.disk.dinode (store.icache ip).inum
  live : ∀ ip, 0 < (store.icache ip).ref → (store.icache ip).valid = true →
    (store.icache ip).type ≠ .free
  distinct : ∀ ip ip', 0 < (store.icache ip).ref → 0 < (store.icache ip').ref →
    (store.icache ip').inum = (store.icache ip).inum → ip' = ip

/-- The entries that the rest of the kernel refers to, according to `base`, still
stand for the same inodes. -/
structure Stays (base : InodePtr → Int) (before after : Store) : Prop where
  inum : ∀ ip, 0 < base ip → (after.icache ip).inum = (before.icache ip).inum
  valid : ∀ ip, 0 < base ip → (before.icache ip).valid = true → (after.icache ip).valid = true

/-- Some unlinked inodes may have been freed; the others are the same. -/
def Shrinks (before after : Disk) : Prop :=
  ∀ inum, (after.dinode inum = before.dinode inum ∧ after.file inum = before.file inum) ∨
    ((after.dinode inum).type = .free ∧ (before.dinode inum).nlink = 0)

/-- An entry that is referenced and has been read. -/
structure Loaded (store : Store) (ip : InodePtr) : Prop where
  held : 0 < (store.icache ip).ref
  valid : (store.icache ip).valid = true

/-- An unlinked inode is still referred to, by an entry whose last `iput` will free it. -/
def Caught (store : Store) : Prop :=
  ∀ inum, (store.disk.dinode inum).type ≠ .free → (store.disk.dinode inum).nlink = 0 →
    ∃ ip, Loaded store ip ∧ (store.icache ip).inum = inum

/-- What looking at files leaves: a sound store with no file changed. -/
structure Calm (base : InodePtr → Int) (before after : Store) : Prop where
  sound : Sound after
  stays : Stays base before after
  shrinks : Shrinks before.disk after.disk
  caught : Caught before → Caught after

variable {allowed : Fault → Prop} {base : InodePtr → Int} {store before middle after : Store} {ip : InodePtr}

theorem Shrinks.refl (disk : Disk) : Shrinks disk disk := fun _ => .inl ⟨rfl, rfl⟩

theorem Shrinks.trans {first second third : Disk} (left : Shrinks first second)
    (right : Shrinks second third) : Shrinks first third := by
  intro inum
  rcases left inum with ⟨dinode_eq, file_eq⟩ | ⟨freed, unlinked⟩
  · rw [← dinode_eq, ← file_eq]
    exact right inum
  · refine .inr ⟨?_, unlinked⟩
    rcases right inum with ⟨dinode_eq, _⟩ | ⟨freed', _⟩
    · rw [dinode_eq]
      exact freed
    · exact freed'

theorem Stays.refl (base : InodePtr → Int) (store : Store) : Stays base store store :=
  ⟨fun _ _ => rfl, fun _ _ valid => valid⟩

theorem Stays.trans (first : Stays base before middle) (second : Stays base middle after) :
    Stays base before after where
  inum ip held := (second.inum ip held).trans (first.inum ip held)
  valid ip held valid := second.valid ip held (first.valid ip held valid)

/-- Fewer references stay if more do. -/
theorem Stays.mono {base' : InodePtr → Int} (stays : Stays base before after)
    (fewer : ∀ ip, 0 < base' ip → 0 < base ip) : Stays base' before after where
  inum ip held := stays.inum ip (fewer ip held)
  valid ip held := stays.valid ip (fewer ip held)

theorem Calm.trans (first : Calm base before middle) (second : Calm base middle after) :
    Calm base before after :=
  ⟨second.sound, first.stays.trans second.stays, first.shrinks.trans second.shrinks,
    fun caught => second.caught (first.caught caught)⟩

theorem Calm.mono {base' : InodePtr → Int} (calm : Calm base before after)
    (fewer : ∀ ip, 0 < base' ip → 0 < base ip) : Calm base' before after :=
  ⟨calm.sound, calm.stays.mono fewer, calm.shrinks, calm.caught⟩

theorem tolerant_any (outstanding : Int) : Tolerant (fun _ => True) outstanding :=
  ⟨trivial, trivial, .inr trivial⟩

/-- It matters neither who is running nor whether there is a transaction. -/
theorem Sound.congr (sound : Sound before) (sb_eq : after.sb = before.sb)
    (disk_eq : after.disk = before.disk) (icache_eq : after.icache = before.icache) : Sound after := by
  obtain ⟨sb, disk, icache, me, outstanding⟩ := after
  cases sb_eq
  cases disk_eq
  cases icache_eq
  exact ⟨sound.owned, sound.filled, sound.device, sound.clean, sound.live, sound.distinct⟩

/-! ## One entry of the cache -/

/-- Replace an entry by one that agrees with the disk and with the other entries. -/
theorem Sound.setInode (sound : Sound store) (device : 0 < inode.ref → inode.dev = ROOTDEV)
    (clean : 0 < inode.ref → inode.valid = true →
      inode.toDinode = store.disk.dinode inode.inum ∧ inode.type ≠ .free)
    (distinct : 0 < inode.ref → ∀ ip', ip' ≠ ip → 0 < (store.icache ip').ref →
      (store.icache ip').inum ≠ inode.inum) :
    Sound (store.setInode ip inode) where
  owned := sound.owned
  filled := sound.filled
  device ip' := by
    by_cases here : ip' = ip
    · subst here
      rw [icache_setInode_self]
      exact device
    · rw [icache_setInode_of_ne _ here]
      exact sound.device ip'
  clean ip' := by
    by_cases here : ip' = ip
    · subst here
      rw [icache_setInode_self]
      exact fun held valid => (clean held valid).1
    · rw [icache_setInode_of_ne _ here]
      exact sound.clean ip'
  live ip' := by
    by_cases here : ip' = ip
    · subst here
      rw [icache_setInode_self]
      exact fun held valid => (clean held valid).2
    · rw [icache_setInode_of_ne _ here]
      exact sound.live ip'
  distinct first second := by
    by_cases left : first = ip <;> by_cases right : second = ip
    · exact fun _ _ _ => right.trans left.symm
    · subst left
      rw [icache_setInode_self, icache_setInode_of_ne _ right]
      exact fun held held' same => absurd same (distinct held second right held')
    · subst right
      rw [icache_setInode_self, icache_setInode_of_ne _ left]
      exact fun held held' same => absurd same.symm (distinct held' first left held)
    · rw [icache_setInode_of_ne _ left, icache_setInode_of_ne _ right]
      exact sound.distinct first second

/-- A change of the lock, or of the count of an entry that is referenced. -/
theorem Sound.setEntry (sound : Sound store) {ref : Int} {lock : Option Nat}
    (held : 0 < ref → 0 < (store.icache ip).ref) :
    Sound (store.setInode ip { store.icache ip with ref := ref, lock := lock }) := by
  refine sound.setInode (fun held' => sound.device ip (held held')) (fun held' valid => ?_)
    fun held' ip' other held'' => ?_
  · exact ⟨sound.clean ip (held held') valid, sound.live ip (held held') valid⟩
  · exact fun same => other (sound.distinct ip ip' (held held') held'' same)

theorem stays_setInode (kept : 0 < base ip → inode.inum = (store.icache ip).inum ∧
      ((store.icache ip).valid = true → inode.valid = true)) :
    Stays base store (store.setInode ip inode) where
  inum ip' held := by
    by_cases here : ip' = ip
    · subst here
      rw [icache_setInode_self]
      exact (kept held).1
    · rw [icache_setInode_of_ne _ here]
  valid ip' held := by
    by_cases here : ip' = ip
    · subst here
      rw [icache_setInode_self]
      exact (kept held).2
    · rw [icache_setInode_of_ne _ here]
      exact id

/-- The entry of an unlinked inode is still one. -/
theorem Caught.setInode (caught : Caught store)
    (kept : Loaded store ip → (store.disk.dinode (store.icache ip).inum).nlink = 0 →
      0 < inode.ref ∧ inode.valid = true ∧ inode.inum = (store.icache ip).inum) :
    Caught (store.setInode ip inode) := by
  intro inum used unlinked
  obtain ⟨ip', loaded, inum_eq⟩ := caught inum used unlinked
  refine ⟨ip', ?_⟩
  by_cases here : ip' = ip
  · subst here
    obtain ⟨held, valid, same⟩ := kept loaded (by rw [inum_eq]; exact unlinked)
    refine ⟨⟨?_, ?_⟩, ?_⟩
    · rw [icache_setInode_self]
      exact held
    · rw [icache_setInode_self]
      exact valid
    · rw [icache_setInode_self]
      exact same.trans inum_eq
  · have same := @icache_setInode_of_ne store ip ip' inode here
    exact ⟨⟨by rw [same]; exact loaded.held, by rw [same]; exact loaded.valid⟩,
      by rw [same]; exact inum_eq⟩

/-- An entry is assigned to and keeps what others rely on. -/
theorem calm_setInode (sound : Sound (store.setInode ip inode))
    (stays : 0 < base ip → inode.inum = (store.icache ip).inum ∧
      ((store.icache ip).valid = true → inode.valid = true))
    (kept : Loaded store ip → (store.disk.dinode (store.icache ip).inum).nlink = 0 →
      0 < inode.ref ∧ inode.valid = true ∧ inode.inum = (store.icache ip).inum) :
    Calm base store (store.setInode ip inode) where
  sound := sound
  stays := stays_setInode stays
  shrinks := .refl _
  caught caught := caught.setInode kept

theorem account_setInode (store : Store) (ip : InodePtr) (inode : Inode) :
    (store.setInode ip inode).account = { store.account with
      locks := update store.account.locks ip inode.lock
      refs := update store.account.refs ip inode.ref } := by
  unfold account setInode
  congr 1
  · funext ip'
    by_cases here : ip' = ip
    · subst here
      simp
    · simp [here]
  · funext ip'
    by_cases here : ip' = ip
    · subst here
      simp
    · simp [here]

/-- One reference more or less. -/
theorem refs_add (refs : InodePtr → Int) (ip : InodePtr) (change : Int) :
    update refs ip (refs ip + change) = refs + Pi.single ip change := by
  funext ip'
  by_cases here : ip' = ip
  · subst here
    simp
  · simp [here]

/-- The account of a store whose entry changed its count. -/
theorem account_setRef {change : Int} (lock_eq : inode.lock = (store.icache ip).lock)
    (ref_eq : inode.ref = (store.icache ip).ref + change) :
    (store.setInode ip inode).account =
      { store.account with refs := store.account.refs + Pi.single ip change } := by
  have locks_eq : update store.account.locks ip (store.icache ip).lock =
      store.account.locks := update_eq_self ip store.account.locks
  rw [account_setInode, lock_eq, ref_eq, locks_eq, ← refs_add]
  rfl

/-- The account of a store whose entry changed its lock. -/
theorem account_setLock (ref_eq : inode.ref = (store.icache ip).ref) :
    (store.setInode ip inode).account =
      { store.account with locks := update store.account.locks ip inode.lock } := by
  have refs_eq : update store.account.refs ip (store.icache ip).ref =
      store.account.refs := update_eq_self ip store.account.refs
  rw [account_setInode, ref_eq, refs_eq]

/-! ## References -/

/-- `iget` refers to the inode with the given number. -/
theorem calm_iget {inum : Nat}
    (full : allowed (.panic .igetNoInodes) ∨ (store.cached ROOTDEV inum).isSome = true)
    (base : InodePtr → Int) (sound : Sound store)
    (held : ∀ ip, 0 < base ip → 0 < (store.icache ip).ref) :
    Stores allowed (iget ROOTDEV inum) store fun ip after =>
      Calm base store after ∧ after.account = store.account.take ip ∧ after.disk = store.disk ∧
        (after.icache ip).inum = inum ∧ 0 < (after.icache ip).ref ∧ after.Remains ip := by
  refine .mono (stores_iget full) fun ip after outcome => ?_
  rcases outcome with ⟨found, rfl⟩ | ⟨absent, unused, rfl⟩
  · have cached := List.find?_some found
    simp only [decide_eq_true_eq] at cached
    obtain ⟨positive, _, inum_eq⟩ := cached
    refine ⟨calm_setInode (sound.setEntry fun _ => positive) (fun _ => ⟨rfl, id⟩) ?_,
      account_setRef rfl rfl, rfl, ?_, ?_, ?_⟩
    · exact fun loaded _ => ⟨by change 0 < (store.icache ip).ref + 1; omega, loaded.valid, rfl⟩
    · simp [take, inum_eq]
    · simp only [take, icache_setInode_self]
      omega
    · rintro ⟨_, _, once⟩
      simp only [take, icache_setInode_self] at once
      omega
  · have fresh : ¬0 < base ip := fun kept => by
      have positive := held ip kept
      omega
    refine ⟨calm_setInode (sound.setInode (fun _ => rfl) (fun _ valid => nomatch valid) ?_)
      (fun kept => absurd kept fresh) ?_, account_setRef rfl ?_, rfl, ?_, ?_, ?_⟩
    · intro _ ip' _ positive same
      have none := List.find?_eq_none.mp absent ip' (List.mem_finRange ip')
      simp only [decide_eq_true_eq] at none
      exact none ⟨positive, sound.device ip' positive, same⟩
    · exact fun loaded _ => absurd loaded.held (by omega)
    · rw [unused]
      rfl
    · simp [enter]
    · simp [enter]
    · simp [Store.Remains, enter]

theorem calm_idup (base : InodePtr → Int) (sound : Sound store) (positive : 0 < (store.icache ip).ref) :
    Stores allowed (idup ip) store fun found after => found = ip ∧
      Calm base store after ∧ after.account = store.account.take ip ∧ after.disk = store.disk ∧
        (after.icache ip).inum = (store.icache ip).inum := by
  refine .mono (stores_idup ip) fun found after outcome => ?_
  obtain ⟨rfl, rfl⟩ := outcome
  refine ⟨rfl, calm_setInode (sound.setEntry fun _ => positive) (fun _ => ⟨rfl, id⟩) ?_,
    account_setRef rfl rfl, rfl, ?_⟩
  · exact fun loaded _ => ⟨by change 0 < (store.icache found).ref + 1; omega, loaded.valid, rfl⟩
  · simp [take]

/-! ## Locks -/

theorem calm_ilock (base : InodePtr → Int) (sound : Sound store)
    (held : allowed (.panic .ilock) ∨ 1 ≤ (store.icache ip).ref) (free : Lockable allowed store ip)
    (live : allowed (.panic .ilockNoType) ∨ (store.disk.dinode (store.icache ip).inum).type ≠ .free) :
    Stores allowed (ilock ip) store fun _ after =>
      Calm base store after ∧ after.account = store.account.lock ip ∧ after.disk = store.disk ∧
        (after.icache ip).inum = (store.icache ip).inum ∧ Loaded after ip ∧
        (store.icache ip).lock = none := by
  refine .mono (stores_ilock held free (live.imp_right fun used _ => used)) fun _ after outcome => ?_
  obtain ⟨counted, unlocked, loaded, rfl⟩ := outcome
  have current_eq : store.current ip = store.disk.dinode (store.icache ip).inum := by
    unfold current
    split
    · rename_i valid
      exact sound.clean ip counted valid
    · rfl
  have used : (store.current ip).type ≠ .free := by
    by_cases valid : (store.icache ip).valid = true
    · rw [current, if_pos valid]
      exact sound.live ip counted valid
    · exact loaded (eq_false_of_ne_true valid)
  refine ⟨calm_setInode (sound.setInode (fun _ => sound.device ip counted)
    (fun _ _ => ⟨current_eq, used⟩) ?_) (fun _ => ⟨rfl, fun _ => rfl⟩)
    (fun _ _ => ⟨counted, rfl, rfl⟩), account_setLock rfl, rfl, ?_, ⟨?_, ?_⟩, unlocked⟩
  · exact fun _ ip' other positive same => other (sound.distinct ip ip' counted positive same)
  · simp [load]
  · simp only [load, icache_setInode_self]
    exact counted
  · simp [load]

theorem calm_iunlock (base : InodePtr → Int) (sound : Sound store) (ip : InodePtr)
    (own : allowed (.panic .iunlock) ∨
      ((store.icache ip).lock = some store.me.pid ∧ 1 ≤ (store.icache ip).ref)) :
    Stores allowed (iunlock ip) store fun _ after =>
      Calm base store after ∧ after.account = store.account.unlock ip ∧ after = store.unlock ip ∧
        (after.icache ip).inum = (store.icache ip).inum ∧
        (store.icache ip).lock = some store.me.pid := by
  refine .mono (stores_iunlock ip own) fun _ after outcome => ?_
  obtain ⟨owner, rfl⟩ := outcome
  refine ⟨calm_setInode (sound.setEntry id) (fun _ => ⟨rfl, id⟩)
    (fun loaded _ => ⟨loaded.held, loaded.valid, rfl⟩), account_setLock rfl, rfl, ?_, owner⟩
  simp [unlock]

/-! ## Giving a reference back -/

theorem flushed_of_clean (clean : (store.icache ip).toDinode = store.disk.dinode (store.icache ip).inum) :
    store.flushed ip = store.disk := by
  unfold flushed Disk.setDinode
  rw [clean, update_eq_self]

section

variable (erased : Erased ip before after)

include erased

/-- Freeing an inode makes a sound store again once its entry is given up. -/
theorem Erased.sound (sound : Sound before) (positive : 0 < (before.icache ip).ref)
    (gone : ¬0 < inode.ref) : Sound (after.setInode ip inode) := by
  have kept : ∀ ip', 0 < ((after.setInode ip inode).icache ip').ref →
      (after.setInode ip inode).icache ip' = before.icache ip' ∧ 0 < (before.icache ip').ref ∧
        (before.icache ip').inum ≠ (before.icache ip).inum := by
    intro ip' held
    by_cases here : ip' = ip
    · subst here
      rw [icache_setInode_self] at held
      exact absurd held gone
    · rw [icache_setInode_of_ne _ here, erased.others ip' here] at held ⊢
      exact ⟨rfl, held, fun same => here (sound.distinct ip ip' positive held same)⟩
  constructor
  · exact erased.owned
  · intro inum used notDev bn below
    have other : inum ≠ (before.icache ip).inum := by
      rintro rfl
      exact used erased.freed
    change (after.disk.dinode inum).type ≠ .free at used
    change (after.disk.dinode inum).type ≠ .dev at notDev
    change bn * BSIZE < (after.disk.dinode inum).size.toNat at below
    change (after.disk.file inum bn).isSome = true
    rw [erased.dinodes inum other] at used notDev below
    rw [erased.files inum other]
    exact sound.filled inum used notDev bn below
  · intro ip' held
    obtain ⟨same, held', _⟩ := kept ip' held
    rw [same]
    exact sound.device ip' held'
  · intro ip' held
    obtain ⟨same, held', other⟩ := kept ip' held
    rw [same]
    intro valid
    rw [sound.clean ip' held' valid]
    exact (erased.dinodes _ other).symm
  · intro ip' held
    obtain ⟨same, held', _⟩ := kept ip' held
    rw [same]
    exact sound.live ip' held'
  · intro first second held held'
    obtain ⟨same, positive', _⟩ := kept first held
    obtain ⟨same', positive'', _⟩ := kept second held'
    rw [same, same']
    exact sound.distinct first second positive' positive''

theorem Erased.shrinks (unlinked : (before.disk.dinode (before.icache ip).inum).nlink = 0) :
    Shrinks before.disk after.disk := by
  intro inum
  by_cases own : inum = (before.icache ip).inum
  · subst own
    exact .inr ⟨erased.freed, unlinked⟩
  · exact .inl ⟨erased.dinodes inum own, erased.files inum own⟩

/-- The inode that was freed needs no entry any more. -/
theorem Erased.caught (caught : Caught before) (inode : Inode) :
    Caught (after.setInode ip inode) := by
  intro inum used unlinked
  have other : inum ≠ (before.icache ip).inum := by
    rintro rfl
    exact used erased.freed
  change (after.disk.dinode inum).type ≠ .free at used
  change (after.disk.dinode inum).nlink = 0 at unlinked
  rw [erased.dinodes inum other] at used unlinked
  obtain ⟨ip', loaded, inum_eq⟩ := caught inum used unlinked
  have elsewhere : ip' ≠ ip := by
    rintro rfl
    exact other inum_eq.symm
  have same : (after.setInode ip inode).icache ip' = before.icache ip' :=
    (icache_setInode_of_ne _ elsewhere).trans (erased.others ip' elsewhere)
  exact ⟨ip', ⟨by rw [same]; exact loaded.held, by rw [same]; exact loaded.valid⟩,
    by rw [same]; exact inum_eq⟩

theorem Erased.account : after.account = before.account := by
  have entry : ∀ ip', (after.icache ip').lock = (before.icache ip').lock ∧
      (after.icache ip').ref = (before.icache ip').ref := by
    intro ip'
    by_cases here : ip' = ip
    · subst here
      rw [erased.self]
      exact ⟨rfl, rfl⟩
    · rw [erased.others ip' here]
      exact ⟨rfl, rfl⟩
  ext1
  · exact erased.sb
  · exact erased.me
  · exact erased.outstanding
  · exact funext fun ip' => (entry ip').1
  · exact funext fun ip' => (entry ip').2

end

theorem account_release (store : Store) (ip : InodePtr) :
    (store.setInode ip { store.icache ip with
      ref := (store.icache ip).ref - 1, lock := none }).account =
        (store.account.unlock ip).drop ip := by
  have refs_eq : update store.account.refs ip ((store.icache ip).ref - 1) =
      store.account.refs - Pi.single ip 1 := by
    refine (refs_add store.account.refs ip (-1)).trans ?_
    rw [Pi.single_neg, sub_eq_add_neg]
  rw [account_setInode, refs_eq]
  rfl

/-- The end of `iput`. -/
theorem stores_release {allowed : Fault → Prop} (ip : InodePtr) :
    Stores allowed (do
      releasesleep ip
      writeInode ip fun inode => { inode with ref := inode.ref - 1 }) store fun _ after =>
        after = store.setInode ip
          { store.icache ip with ref := (store.icache ip).ref - 1, lock := none } := by
  refine .bind (stores_writeInode ip _) fun _ unlocked unlocked_eq => ?_
  refine .mono (stores_writeInode ip _) fun _ after after_eq => ?_
  rw [after_eq, unlocked_eq, setInode_setInode, icache_setInode_self]

/-- `iput` gives a reference back, and with the last one to an unlinked inode the
inode and its blocks. -/
theorem calm_iput (base : InodePtr → Int) (sound : Sound store) (free : Lockable allowed store ip)
    (tolerant : Tolerant allowed store.outstanding ∨ store.Remains ip)
    (held : 0 < base ip → 2 ≤ (store.icache ip).ref) :
    Stores allowed (iput ip) store fun _ after =>
      Calm base store after ∧ after.account = store.account.drop ip ∧
        (store.icache ip).lock = none ∧ (store.Remains ip → after.disk = store.disk) := by
  refine .bind (stores_emit _) fun _ same same_eq => ?_
  subst same_eq
  refine .bind (stores_acquiresleep free) fun _ locked outcome => ?_
  obtain ⟨unlocked, locked_eq⟩ := outcome
  have entry_eq : locked.icache ip = { same.icache ip with lock := some same.me.pid } := by
    rw [locked_eq, icache_setInode_self]
  have others : ∀ ip', ip' ≠ ip → locked.icache ip' = same.icache ip' := by
    intro ip' other
    rw [locked_eq, icache_setInode_of_ne _ other]
  have sound' : Sound locked := by
    rw [locked_eq]
    exact sound.setEntry id
  have disk_eq : locked.disk = same.disk := by rw [locked_eq]; rfl
  refine .bind (stores_readInode ip) fun inode read outcome => ?_
  obtain ⟨rfl, rfl⟩ := outcome
  have freeing : Stores allowed
      (when ((read.icache ip).valid ∧ (read.icache ip).nlink = 0 ∧ (read.icache ip).ref = 1)
        (ifree ip)) read fun _ after =>
          (after = read ∧ ¬((read.icache ip).valid = true ∧ (read.icache ip).nlink = 0 ∧
            (read.icache ip).ref = 1)) ∨
          (((read.icache ip).ref = 1 ∧ ¬same.Remains ip) ∧
            (read.disk.dinode (read.icache ip).inum).nlink = 0 ∧ Erased ip read after) := by
    refine .when (fun other => .inl ⟨rfl, other⟩) fun last => ?_
    have lost : ¬same.Remains ip := by
      rw [entry_eq] at last
      exact not_not.mpr last
    have tolerant' : Tolerant allowed read.outstanding := by
      rw [locked_eq]
      exact tolerant.resolve_right lost
    have positive : 0 < (read.icache ip).ref := by omega
    have clean := sound'.clean ip positive last.1
    refine .mono (stores_ifree tolerant' ?_ (sound'.live ip positive last.1))
      fun _ after erased => .inr ⟨⟨last.2.2, lost⟩, ?_, erased⟩
    · rw [flushed_of_clean clean]
      exact sound'.owned
    · rw [← clean]
      exact last.2.1
  refine .bind freeing fun _ freed outcome => ?_
  refine .mono (stores_release ip) fun _ after after_eq => ⟨?_, ?_, unlocked, fun remains => ?_⟩
  · rw [after_eq]
    rcases outcome with ⟨rfl, remains⟩ | ⟨⟨last, _⟩, noName, erased⟩
    · refine ⟨sound'.setEntry fun positive => by omega, ?_, by rw [← disk_eq]; exact .refl _, ?_⟩
      · rw [locked_eq, setInode_setInode, icache_setInode_self]
        exact stays_setInode fun _ => ⟨rfl, id⟩
      · intro caught
        rw [locked_eq, setInode_setInode, icache_setInode_self]
        refine caught.setInode fun loaded noName => ⟨?_, loaded.valid, rfl⟩
        have held' := loaded.held
        have linked : (same.icache ip).ref ≠ 1 := by
          intro last
          refine remains ⟨by rw [entry_eq]; exact loaded.valid, ?_, by rw [entry_eq]; exact last⟩
          rw [entry_eq]
          change (same.icache ip).nlink = 0
          rw [sound.clean ip loaded.held loaded.valid]
          exact noName
        change 0 < (same.icache ip).ref - 1
        omega
    · have positive : 0 < (read.icache ip).ref := by omega
      have gone : ¬0 < (freed.icache ip).ref - 1 := by
        rw [erased.self, last]
        decide
      refine ⟨erased.sound sound' positive gone, ?_, by rw [← disk_eq]; exact erased.shrinks noName,
        fun caught => erased.caught ?_ _⟩
      · have last' : (same.icache ip).ref = 1 := by rw [← last, entry_eq]
        have notBase : ∀ ip', 0 < base ip' → ip' ≠ ip := by
          rintro ip' kept rfl
          have two := held kept
          omega
        constructor
        · intro ip' kept
          rw [icache_setInode_of_ne _ (notBase ip' kept), erased.others ip' (notBase ip' kept),
            others ip' (notBase ip' kept)]
        · intro ip' kept
          rw [icache_setInode_of_ne _ (notBase ip' kept), erased.others ip' (notBase ip' kept),
            others ip' (notBase ip' kept)]
          exact id
      · rw [locked_eq]
        exact caught.setInode fun loaded _ => ⟨loaded.held, loaded.valid, rfl⟩
  · have freed_eq : freed.account = same.account.lock ip := by
      have locked_account : read.account = same.account.lock ip := by
        rw [locked_eq]
        exact account_setLock rfl
      rcases outcome with ⟨rfl, _⟩ | ⟨_, _, erased⟩
      · exact locked_account
      · exact erased.account.trans locked_account
    rw [after_eq, account_release, freed_eq, Account.unlock_lock _ unlocked]
  · rw [after_eq]
    rcases outcome with ⟨rfl, _⟩ | ⟨⟨_, lost⟩, _⟩
    · exact disk_eq
    · exact absurd remains lost

/-- `iunlockput` of an inode the caller has locked. -/
theorem calm_iunlockput (base : InodePtr → Int) (sound : Sound store)
    (own : allowed (.panic .iunlock) ∨
      ((store.icache ip).lock = some store.me.pid ∧ 1 ≤ (store.icache ip).ref))
    (tolerant : Tolerant allowed store.outstanding ∨ store.Remains ip)
    (held : 0 < base ip → 2 ≤ (store.icache ip).ref) :
    Stores allowed (iunlockput ip) store fun _ after =>
      Calm base store after ∧ after.account = (store.account.unlock ip).drop ip ∧
        (store.Remains ip → after.disk = store.disk) := by
  refine .bind (calm_iunlock base sound ip own) fun _ unlocked outcome => ?_
  obtain ⟨calm, account_eq, unlocked_eq, _, _⟩ := outcome
  have entry_eq : unlocked.icache ip = { store.icache ip with lock := none } := by
    rw [unlocked_eq]
    exact icache_setInode_self ip _
  have remains_iff : unlocked.Remains ip ↔ store.Remains ip := by
    unfold Store.Remains
    rw [entry_eq]
  have tolerant' : Tolerant allowed unlocked.outstanding ∨ unlocked.Remains ip := by
    rw [remains_iff, unlocked_eq]
    exact tolerant
  refine .mono (calm_iput base calm.sound (.inl (by rw [entry_eq])) tolerant' (by rw [entry_eq]; exact held))
    fun _ after outcome => ?_
  obtain ⟨calm', account_eq', _, disk_eq⟩ := outcome
  refine ⟨calm.trans calm', by rw [account_eq', account_eq], fun remains => ?_⟩
  rw [disk_eq (remains_iff.mpr remains), unlocked_eq]
  rfl

/-! ## Files -/

theorem Sound.flushed (sound : Sound store) (loaded : Loaded store ip) :
    store.flushed ip = store.disk :=
  flushed_of_clean (sound.clean ip loaded.held loaded.valid)

theorem Sound.content (sound : Sound store) (loaded : Loaded store ip) :
    store.content ip = store.disk.content (store.icache ip).inum := by
  unfold Store.content Store.file Disk.content
  rw [sound.flushed loaded, ← sound.clean ip loaded.held loaded.valid]

theorem Sound.regular (sound : Sound store) (loaded : Loaded store ip)
    (notDev : (store.icache ip).type ≠ .dev) : Regular store ip := by
  have flushed_eq := sound.flushed loaded
  have clean := sound.clean ip loaded.held loaded.valid
  have used := sound.live ip loaded.held loaded.valid
  constructor
  · rw [flushed_eq]
    exact sound.owned
  · exact used
  · exact notDev
  · intro bn below
    unfold file
    rw [flushed_eq]
    rw [clean] at below used notDev
    exact sound.filled _ used notDev bn below

/-- Only one inode was written. -/
structure Edits (inum : Nat) (before after : Store) : Prop where
  sound : Sound after
  account : after.account = before.account
  stays : ∀ base, Stays base before after
  caught : Caught before → Caught after
  dinode : ∀ inum', inum' ≠ inum → after.disk.dinode inum' = before.disk.dinode inum'
  file : ∀ inum', inum' ≠ inum → after.disk.file inum' = before.disk.file inum'
  type : (after.disk.dinode inum).type = (before.disk.dinode inum).type

theorem Edits.refl (sound : Sound store) (inum : Nat) : Edits inum store store where
  sound := sound
  account := rfl
  stays base := .refl base store
  caught := id
  dinode _ _ := rfl
  file _ _ := rfl
  type := rfl

/-- The entry of one inode and the inode itself were written alike. -/
structure Rewritten (ip : InodePtr) (before after : Store) : Prop where
  sb : after.sb = before.sb
  me : after.me = before.me
  outstanding : after.outstanding = before.outstanding
  others : ∀ ip', ip' ≠ ip → after.icache ip' = before.icache ip'
  self : after.icache ip = { before.icache ip with toDinode := (after.icache ip).toDinode }
  owned : after.disk.Owned after.sb
  clean : (after.icache ip).toDinode = after.disk.dinode (before.icache ip).inum
  type : (after.icache ip).type = (before.icache ip).type
  filled : (after.icache ip).type ≠ .dev → after.disk.Filled (before.icache ip).inum
  dinode : ∀ inum, inum ≠ (before.icache ip).inum →
    after.disk.dinode inum = before.disk.dinode inum
  file : ∀ inum, inum ≠ (before.icache ip).inum → after.disk.file inum = before.disk.file inum

section

variable (rewritten : Rewritten ip before after)

include rewritten

/-- What the cache keeps about an inode is all there but for the copy. -/
theorem Rewritten.entry (ip' : InodePtr) :
    after.icache ip' = { before.icache ip' with toDinode := (after.icache ip').toDinode } := by
  by_cases here : ip' = ip
  · subst here
    exact rewritten.self
  · rw [rewritten.others ip' here]

theorem Rewritten.loaded {ip' : InodePtr} (loaded : Loaded before ip') : Loaded after ip' := by
  constructor
  · rw [rewritten.entry ip']
    exact loaded.held
  · rw [rewritten.entry ip']
    exact loaded.valid

theorem Rewritten.account : after.account = before.account := by
  ext1
  · exact rewritten.sb
  · exact rewritten.me
  · exact rewritten.outstanding
  · funext ip'
    change (after.icache ip').lock = _
    rw [rewritten.entry ip']
    rfl
  · funext ip'
    change (after.icache ip').ref = _
    rw [rewritten.entry ip']
    rfl

theorem Rewritten.stays (base : InodePtr → Int) :
    Stays base before after where
  inum ip' _ := by rw [rewritten.entry ip']
  valid ip' _ valid := by
    rw [rewritten.entry ip']
    exact valid

theorem Rewritten.sound (sound : Sound before) (loaded : Loaded before ip) : Sound after := by
  have ref_eq : ∀ ip', (after.icache ip').ref = (before.icache ip').ref := fun ip' =>
    congrFun (congrArg Account.refs rewritten.account) ip'
  have inum_eq : ∀ ip', (after.icache ip').inum = (before.icache ip').inum := fun ip' => by
    rw [rewritten.entry ip']
  constructor
  · exact rewritten.owned
  · intro inum used notDev
    by_cases own : inum = (before.icache ip).inum
    · rw [own] at notDev ⊢
      exact rewritten.filled (rewritten.clean ▸ notDev)
    · intro bn below
      rw [rewritten.dinode inum own] at below used notDev
      rw [rewritten.file inum own]
      exact sound.filled inum used notDev bn below
  · intro ip' held
    rw [rewritten.entry ip']
    exact sound.device ip' (ref_eq ip' ▸ held)
  · intro ip' held valid
    by_cases here : ip' = ip
    · subst here
      rw [rewritten.clean, inum_eq]
    · have other : (before.icache ip').inum ≠ (before.icache ip).inum := fun same =>
        here (sound.distinct ip ip' loaded.held (ref_eq ip' ▸ held) same)
      rw [rewritten.others ip' here] at held valid ⊢
      rw [rewritten.dinode _ other]
      exact sound.clean ip' held valid
  · intro ip' held valid
    by_cases here : ip' = ip
    · subst here
      rw [rewritten.type]
      exact sound.live ip' loaded.held loaded.valid
    · rw [rewritten.others ip' here] at held valid ⊢
      exact sound.live ip' held valid
  · intro first second held held'
    rw [inum_eq first, inum_eq second]
    exact sound.distinct first second (ref_eq first ▸ held) (ref_eq second ▸ held')

/-- The inode that was written is held, whatever its link count is now. -/
theorem Rewritten.caught (loaded : Loaded before ip) (caught : Caught before) : Caught after := by
  intro inum used unlinked
  by_cases own : inum = (before.icache ip).inum
  · refine ⟨ip, rewritten.loaded loaded, ?_⟩
    rw [rewritten.self, own]
  · rw [rewritten.dinode inum own] at used unlinked
    obtain ⟨ip', loaded', inum_eq⟩ := caught inum used unlinked
    refine ⟨ip', rewritten.loaded loaded', ?_⟩
    rw [rewritten.entry ip', ← inum_eq]

theorem Rewritten.edits (sound : Sound before) (loaded : Loaded before ip) :
    Edits (before.icache ip).inum before after where
  sound := rewritten.sound sound loaded
  account := rewritten.account
  stays := rewritten.stays
  caught := rewritten.caught loaded
  dinode := rewritten.dinode
  file := rewritten.file
  type := by
    rw [← rewritten.clean, ← sound.clean ip loaded.held loaded.valid]
    exact rewritten.type

end

end Storage

end Xv6
