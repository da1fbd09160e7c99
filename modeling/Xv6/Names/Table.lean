import Xv6.Names.Directory
import Xv6.Storage.Coherence

/-!
# A directory is a finite map

The history of a directory is made of calls of `dirlink` and of the entries that
`sys_unlink` clears. The directory maps a name to the number under which it was entered
last, unless it was cleared since. Names are compared up to `DIRSIZ` bytes.

`dirlink` gives back the inode that it finds under a name by `iput`, which takes the lock of
the inode. If it is the directory itself the caller holds this lock, and waits for itself.
-/

namespace Xv6

open Program Transition

/-- What happens to a directory. -/
inductive DirEvent where
  | link (name : Name) (inum : Nat) (done : Bool)
  | clear (name : Name)
  /-- Something else happens in the kernel. -/
  | other

/-- What the last event that touched a name has left. -/
def recorded (history : List DirEvent) (name : Name) : Option Nat :=
  history.foldl (fun found event =>
    match event with
    | .link name' inum true => if canonical name' = canonical name then some inum else found
    | .clear name' => if canonical name' = canonical name then none else found
    | _ => found) none

/-- The number under which a directory has a name. -/
def Disk.find (disk : Disk) (dir : Nat) (name : Name) : Option Nat :=
  (disk.seek dir name).map fun slot => (disk.entry dir slot).inum

namespace Storage

variable {store before after : Store} {dp ip : InodePtr} {inum slot dir : Nat} {name : Name} {disk : Disk}
  {history : List DirEvent} {kernel next : Kernel}

/-! ## Entries -/

/-- No name is in two slots, and what is recorded is what the slots say. -/
structure Table (entries : Nat → Dirent) (found : Name → Option Nat) : Prop where
  single : ∀ {slot slot'}, (entries slot).inum ≠ 0 → (entries slot').inum ≠ 0 →
    canonical (entries slot').name = canonical (entries slot).name → slot' = slot
  found_iff : ∀ {name inum}, found name = some inum ↔ inum ≠ 0 ∧
    ∃ slot, (entries slot).inum = inum ∧ canonical (entries slot).name = canonical name

variable {entries entries' : Nat → Dirent} {found : Name → Option Nat} {de : Dirent}

theorem Table.found_of_entry (table : Table entries found) (inUse : (entries slot).inum ≠ 0)
    (named : canonical (entries slot).name = canonical name) : found name = some (entries slot).inum :=
  table.found_iff.mpr ⟨inUse, slot, rfl, named⟩

/-- The slot of a name is written, or an unused slot if it had none. -/
theorem Table.set (table : Table entries found)
    (own : (entries slot).inum ≠ 0 → canonical (entries slot).name = canonical name)
    (fresh : ∀ slot', slot' ≠ slot → (entries slot').inum ≠ 0 →
      canonical (entries slot').name ≠ canonical name)
    (named : de.inum ≠ 0 → canonical de.name = canonical name)
    (entries_eq : ∀ slot', entries' slot' = if slot' = slot then de else entries slot') :
    Table entries' fun name' =>
      if canonical name = canonical name' then (if de.inum = 0 then none else some de.inum)
      else found name' := by
  have single := @table.single
  constructor
  · intro slot₁ slot₂ inUse inUse' same
    rw [entries_eq] at inUse inUse' same
    rw [entries_eq] at same
    grind
  · intro name' inum
    have found_iff := @table.found_iff name' inum
    simp only [entries_eq]
    by_cases here : canonical name = canonical name'
    · rw [if_pos here]
      constructor
      · intro value
        split at value
        · cases value
        · rename_i inUse
          cases value
          exact ⟨inUse, slot, by rw [if_pos rfl], by rw [if_pos rfl, named inUse, here]⟩
      · rintro ⟨inUse, slot', rfl, same⟩
        by_cases same_slot : slot' = slot
        · rw [if_pos same_slot] at inUse ⊢
          rw [if_neg inUse]
        · rw [if_neg same_slot] at inUse same
          exact absurd (same.trans here.symm) (fresh slot' same_slot inUse)
    · rw [if_neg here, found_iff]
      refine and_congr_right fun positive => ⟨?_, ?_⟩
      · rintro ⟨slot', rfl, same⟩
        have elsewhere : slot' ≠ slot := by
          rintro rfl
          exact here ((own positive).symm.trans same)
        exact ⟨slot', by rw [if_neg elsewhere], by rw [if_neg elsewhere, same]⟩
      · rintro ⟨slot', rfl, same⟩
        by_cases same_slot : slot' = slot
        · rw [if_pos same_slot] at positive same
          exact absurd ((named positive).symm.trans same) here
        · rw [if_neg same_slot] at same ⊢
          exact ⟨slot', rfl, same⟩

/-- A lookup finds what is recorded. -/
theorem Table.find_eq (table : Table (disk.entry dir) found) (name : Name) : disk.find dir name = found name := by
  unfold Disk.find
  cases sought : disk.seek dir name with
  | none =>
    by_contra recorded
    obtain ⟨inum, value⟩ := Option.ne_none_iff_exists'.mp (Ne.symm recorded)
    obtain ⟨positive, slot, rfl, named⟩ := table.found_iff.mp value
    exact not_holds sought slot (holds_iff.mpr ⟨positive, named⟩)
  | some slot =>
    obtain ⟨inUse, named⟩ := holds_iff.mp (List.find?_some sought)
    exact (table.found_of_entry inUse named).symm

/-! ## The directory in the kernel -/

/-- A directory that has been read. -/
structure OpenDir (dp : InodePtr) (store : Store) : Prop extends Coherent store where
  loaded : Loaded store dp
  directory : (store.icache dp).type = .dir

theorem OpenDir.of_stays (opened : OpenDir dp before) (sound : Sound after)
    (stays : Stays before.account.refs before after) (locks_eq : after.account.locks = before.account.locks)
    (refs_le : ∀ ip, before.account.refs ip ≤ after.account.refs ip)
    (type_eq : (after.disk.dinode (before.icache dp).inum).type =
      (before.disk.dinode (before.icache dp).inum).type) : OpenDir dp after := by
  have held := opened.loaded.held
  have loaded : Loaded after dp :=
    ⟨lt_of_lt_of_le held (refs_le dp), stays.valid dp held opened.loaded.valid⟩
  refine ⟨opened.keep sound stays fun ip owner => ?_, loaded, ?_⟩
  · change after.account.locks ip ≠ none at owner
    rw [locks_eq] at owner
    exact ⟨(opened.locked ip owner).held, owner, refs_le ip⟩
  · rw [sound.clean dp loaded.held loaded.valid, stays.inum dp held, type_eq,
      ← opened.sound.clean dp held opened.loaded.valid]
    exact opened.directory

theorem OpenDir.edited (opened : OpenDir dp before) (edits : Edits (before.icache dp).inum before after) :
    OpenDir dp after :=
  opened.of_stays edits.sound (edits.stays _) (by rw [edits.account]) (by rw [edits.account]; exact fun _ => le_rfl)
    edits.type

theorem OpenDir.size_eq (opened : OpenDir dp store) :
    (store.icache dp).size.toNat = (store.disk.content (store.icache dp).inum).length := by
  rw [length_content_disk, ← opened.sound.clean dp opened.loaded.held opened.loaded.valid]

/-- Nothing that matters to the directory happens. -/
structure Elsewhere (dp : InodePtr) (before after : Store) : Prop where
  opened : OpenDir dp after
  inum : (after.icache dp).inum = (before.icache dp).inum
  content : after.disk.content (before.icache dp).inum = before.disk.content (before.icache dp).inum

theorem Elsewhere.entry (elsewhere : Elsewhere dp before after) :
    after.disk.entry (after.icache dp).inum = before.disk.entry (before.icache dp).inum := by
  funext slot
  unfold Disk.entry
  rw [elsewhere.inum, elsewhere.content]

theorem Elsewhere.trans {middle : Store} (first : Elsewhere dp before middle)
    (second : Elsewhere dp middle after) : Elsewhere dp before after :=
  ⟨second.opened, second.inum.trans first.inum, by rw [← first.content, ← first.inum, second.content]⟩

/-- A directory whose slots hold what its history has left. -/
structure Tabled (dp : InodePtr) (history : List DirEvent) (store : Store) : Prop extends OpenDir dp store where
  whole : DIRENT ∣ (store.icache dp).size.toNat
  table : Table (store.disk.entry (store.icache dp).inum) (recorded history)

theorem Tabled.elsewhere (tabled : Tabled dp history before) (elsewhere : Elsewhere dp before after) :
    Tabled dp history after := by
  refine ⟨elsewhere.opened, ?_, ?_⟩
  · rw [elsewhere.opened.size_eq, elsewhere.inum, elsewhere.content, ← tabled.size_eq]
    exact tabled.whole
  · rw [elsewhere.entry]
    exact tabled.table

theorem Tabled.congr (tabled : Tabled dp history store) {history' : List DirEvent}
    (same : ∀ name, recorded history' name = recorded history name) : Tabled dp history' store :=
  ⟨tabled.toOpenDir, tabled.whole, funext same ▸ tabled.table⟩

/-- One slot was written. -/
theorem Tabled.write (tabled : Tabled dp history before) {src : Nat → Byte} {history' : List DirEvent}
    (edits : Edits (before.icache dp).inum before after)
    (overwrites : Overwrites (before.icache dp).inum src (DIRENT * slot) DIRENT before.disk after.disk)
    (inside : DIRENT * slot ≤ (before.icache dp).size.toNat)
    (table : ∀ entries', (∀ slot', entries' slot' = if slot' = slot then .decode ((List.range DIRENT).map src)
      else before.disk.entry (before.icache dp).inum slot') → Table entries' (recorded history')) :
    Tabled dp history' after ∧
      (after.icache dp).size.toNat = max (before.icache dp).size.toNat (DIRENT * slot + DIRENT) := by
  have opened := tabled.edited edits
  have inum_eq := (edits.stays before.account.refs).inum dp tabled.loaded.held
  have size_eq : (after.icache dp).size.toNat = max (before.icache dp).size.toNat (DIRENT * slot + DIRENT) := by
    rw [opened.size_eq, inum_eq, overwrites.content, tabled.size_eq]
    rw [tabled.size_eq] at inside
    simp
    omega
  refine ⟨⟨opened, ?_, ?_⟩, size_eq⟩
  · rw [size_eq]
    obtain ⟨count, whole⟩ := tabled.whole
    rw [whole]
    rcases max_choice (DIRENT * count) (DIRENT * slot + DIRENT) with same | same
    · exact ⟨count, same⟩
    · exact ⟨slot + 1, same⟩
  · rw [inum_eq]
    refine table _ (overwrites.entry ?_)
    rw [← length_content_disk, ← tabled.size_eq]
    exact inside

/-! ## The two operations -/

theorem recorded_concat (history : List DirEvent) (event : DirEvent) (name : Name) :
    recorded (history ++ [event]) name = match event with
      | .link name' inum true => if canonical name' = canonical name then some inum else recorded history name
      | .clear name' => if canonical name' = canonical name then none else recorded history name
      | _ => recorded history name := by
  unfold recorded
  rw [List.foldl_append]
  rfl

/-- The directory grows by one slot, and only if all others are in use. -/
def Grows (dp : InodePtr) (before after : Store) : Prop :=
  (after.icache dp).size = (before.icache dp).size ∨
    ((after.icache dp).size.toNat = (before.icache dp).size.toNat + DIRENT ∧
      ∀ slot, DIRENT * slot < (before.icache dp).size.toNat →
        (before.disk.entry (before.icache dp).inum slot).inum ≠ 0)

/-- `dirlink` enters a name that is not recorded. -/
theorem Tabled.links (tabled : Tabled dp history store) (name : Name) (positive : inum ≠ 0)
    (short : inum < 2 ^ 16) {allowed : Fault → Prop} (tolerant : Tolerant allowed store.outstanding)
    (room : allowed (.panic .dirlink) ∨
      DIRENT * store.disk.vacant (store.icache dp).inum + DIRENT ≤ MAXFILE * BSIZE)
    (full : allowed (.panic .igetNoInodes)) (waits : allowed .asleep)
    (clear : (∀ ip, allowed (.deadlock ip)) ∨
      ∀ ip, ¬store.Free ip → recorded history name ≠ some (store.icache ip).inum) :
    Stores allowed (dirlink dp name inum) store fun done after =>
      Tabled dp (history ++ [.link name inum done]) after ∧
        (done = false ↔ recorded history name ≠ none) ∧ Grows dp store after := by
  have find_eq := tabled.table.find_eq name
  unfold Disk.find at find_eq
  refine .mono (stores_dirlink tabled.sound tabled.loaded tabled.directory name inum (.inr tabled.whole)
    tolerant (room.imp_right fun room => ⟨tabled.whole, room⟩) full waits (clear.imp_right ?_))
    fun done after outcome => ?_
  · intro clear slot sought ip mine
    rw [sought] at find_eq
    refine ⟨(tabled.locked ip fun unlocked => ?_).held, fun same => clear ip mine ?_⟩
    · exact mine fun owner => absurd (unlocked.symm.trans owner) (by simp)
    · rw [← find_eq, same]
      rfl
  rcases outcome with ⟨rfl, calm, account_eq, disk_eq, slot, sought⟩ | ⟨rfl, linked⟩
  · rw [sought] at find_eq
    have inum_eq := calm.stays.inum dp tabled.loaded.held
    have opened : OpenDir dp after := tabled.of_stays calm.sound calm.stays (by rw [account_eq])
      (by rw [account_eq]; exact fun _ => le_rfl) (by rw [disk_eq])
    have elsewhere : Elsewhere dp store after := ⟨opened, inum_eq, by rw [disk_eq]⟩
    refine ⟨(tabled.elsewhere elsewhere).congr (recorded_concat history _), ⟨fun _ => ?_, fun _ => rfl⟩,
      .inl ?_⟩
    · rw [← find_eq]
      simp
    · rw [opened.sound.clean dp opened.loaded.held opened.loaded.valid, inum_eq, disk_eq,
        ← tabled.sound.clean dp tabled.loaded.held tabled.loaded.valid]
  · rw [linked.missed] at find_eq
    have unused := vacant_unused store.disk (store.icache dp).inum
    have number : (Dirent.written inum name).inum = inum := by
      unfold Dirent.written
      rw [decode_encode_inum, Nat.mod_eq_of_lt short]
    have named : canonical (Dirent.written inum name).name = canonical name :=
      (decode_encode_name inum _).trans (canonical_take name)
    have table : ∀ entries', (∀ slot', entries' slot' =
        if slot' = store.disk.vacant (store.icache dp).inum then Dirent.written inum name
        else store.disk.entry (store.icache dp).inum slot') →
        Table entries' (recorded (history ++ [.link name inum true])) := by
      intro entries' entries_eq
      have set := tabled.table.set (fun inUse => absurd unused inUse)
        (fun slot' _ inUse named => not_holds linked.missed slot' (holds_iff.mpr ⟨inUse, named⟩))
        (fun _ => named) entries_eq
      rw [number, if_neg positive] at set
      exact funext (recorded_concat history _) ▸ set
    obtain ⟨next, size_eq⟩ := tabled.write linked.edits linked.overwrites linked.inside table
    refine ⟨next, ⟨nofun, fun present => absurd find_eq.symm present⟩, ?_⟩
    obtain ⟨count, whole⟩ := tabled.whole
    have last := linked.inside
    rw [whole] at last size_eq
    change 16 * _ ≤ 16 * count at last
    change _ = max (16 * count) (16 * _ + 16) at size_eq
    by_cases reused : store.disk.vacant (store.icache dp).inum < count
    · refine .inl (UInt32.toNat_inj.mp ?_)
      rw [size_eq, whole]
      change _ = 16 * count
      omega
    · refine .inr ⟨?_, fun slot below => vacant_first ?_⟩
      · rw [size_eq, whole]
        change _ = 16 * count + 16
        omega
      · rw [whole] at below
        change 16 * slot < 16 * count at below
        omega

/-- `sys_unlink` clears the entry that it has found. -/
theorem Tabled.clear (tabled : Tabled dp history kernel.store) {off : Nat} {found locked : Kernel}
    (looked : dirlookup dp name kernel = .ok (some (ip, off)) found)
    (elsewhere : Elsewhere dp found.store locked.store)
    (wrote : writei dp (fun _ => 0) (.ofNat off) (.ofNat DIRENT) locked = .ok DIRENT next) :
    Tabled dp (history ++ [.clear name]) next.store := by
  have lookup : Stores (fun _ => True) (dirlookup dp name) kernel.store _ :=
    calm_dirlookup tabled.sound tabled.loaded tabled.directory name (.inl trivial) (.inl trivial)
  have outcome := (lookup kernel rfl).ok looked
  rcases outcome with ⟨absurdity, _⟩ | ⟨ip', slot, entry_eq, found', sought⟩
  · cases absurdity
  cases entry_eq
  have reached : Elsewhere dp kernel.store found.store :=
    ⟨tabled.of_stays found'.calm.sound found'.calm.stays (by rw [found'.account]; rfl)
      (fun ip' => by
        rw [found'.account, Account.take_refs, Pi.add_apply, Pi.single_apply]
        split <;> omega)
      (by rw [found'.disk]), found'.calm.stays.inum dp tabled.loaded.held, by rw [found'.disk]⟩
  have same := (reached.trans elsewhere).entry
  have before := tabled.elsewhere (reached.trans elsewhere)
  obtain ⟨inUse, named⟩ := holds_iff.mp (List.find?_some sought)
  rw [← same] at inUse named
  have below : DIRENT * slot < (locked.icache dp).size.toNat :=
    (visited_iff before.sound before.loaded).mp (slot_lt inUse)
  have write : Stores (fun _ => True) (writei dp (fun _ => 0) (.ofNat (DIRENT * slot)) (.ofNat DIRENT))
      locked.store _ :=
    edits_writei_file (tolerant_any _) before.sound before.loaded (by rw [before.directory]; decide) _ _ _
  obtain ⟨edits, ⟨_, refused, _⟩ | ⟨_, _, overwrites⟩⟩ := (write locked rfl).ok wrote
  · exact absurd refused (by decide)
  rw [toNat_ofNat_offset below.le] at overwrites
  refine (before.write edits overwrites below.le fun entries' entries_eq => ?_).1
  have set := before.table.set (fun _ => named) (fun slot' other inUse' named' =>
    other (before.table.single inUse inUse' (named'.trans named.symm)))
    (fun inUse => absurd decode_zero_inum inUse) entries_eq
  rw [if_pos decode_zero_inum] at set
  exact funext (recorded_concat history _) ▸ set

/-! ## Histories -/

/-- An event happens. Between the lookup and the write `sys_unlink` locks what it has found. -/
def Happens (dp : InodePtr) (kernel : Kernel) : DirEvent → Kernel → Prop
  | .link name inum done, next => inum ≠ 0 ∧ inum < 2 ^ 16 ∧ dirlink dp name inum kernel = .ok done next
  | .clear name, next => ∃ ip off found locked, dirlookup dp name kernel = .ok (some (ip, off)) found ∧
      Elsewhere dp found.store locked.store ∧
      writei dp (fun _ => 0) (.ofNat off) (.ofNat DIRENT) locked = .ok DIRENT next
  | .other, next => Elsewhere dp kernel.store next.store

theorem Tabled.step (tabled : Tabled dp history kernel.store) {event : DirEvent}
    (runs : Happens dp kernel event next) : Tabled dp (history ++ [event]) next.store := by
  cases event with
  | link name inum done =>
    obtain ⟨positive, short, linked⟩ := runs
    have link : Stores (fun _ => True) (dirlink dp name inum) kernel.store _ :=
      tabled.links name positive short (tolerant_any _) (.inl trivial) trivial trivial (.inl fun _ => trivial)
    exact ((link kernel rfl).ok linked).1
  | clear name =>
    obtain ⟨ip, off, found, locked, looked, elsewhere, wrote⟩ := runs
    exact tabled.clear looked elsewhere wrote
  | other => exact (tabled.elsewhere runs).congr (recorded_concat history _)

theorem tabled_of_empty (opened : OpenDir dp store) (empty : (store.icache dp).size = 0) :
    Tabled dp [] store := by
  have unused : ∀ slot, (store.disk.entry (store.icache dp).inum slot).inum = 0 := by
    refine fun slot => entry_past ?_
    rw [← length_content_disk, ← opened.size_eq, empty]
    exact Nat.zero_le _
  refine ⟨opened, ⟨0, by rw [empty]; rfl⟩, fun inUse => absurd (unused _) inUse, ?_⟩
  intro name inum
  refine ⟨nofun, ?_⟩
  rintro ⟨positive, slot, rfl, _⟩
  exact absurd (unused slot) positive

theorem tabled_of_run {start : Kernel} (opened : OpenDir dp start.store) (empty : (start.icache dp).size = 0)
    (run : Steps (Happens dp) start history kernel) :
    Tabled dp history kernel.store := by
  induction run with
  | refl => exact tabled_of_empty opened empty
  | step _ runs ih => exact ih.step runs

/-! ## The map -/

/-- `dirlookup` finds a name under the given number, or not at all. -/
def Finds (dp : InodePtr) (name : Name) (found : Option Nat) (kernel : Kernel) : Prop :=
  Sat (dirlookup dp name) kernel
    (fun entry next => entry.map (fun entry => (next.icache entry.1).inum) = found)
    fun raised _ => raised = .panic .igetNoInodes ∧ found ≠ none

theorem Tabled.finds (tabled : Tabled dp history kernel.store) (name : Name) :
    Finds dp name (recorded history name) kernel := by
  have find_eq := tabled.table.find_eq name
  unfold Disk.find at find_eq
  have lookup : Stores (fun raised => raised = .panic .igetNoInodes ∧ recorded history name ≠ none)
      (dirlookup dp name) kernel.store _ :=
    calm_dirlookup tabled.sound tabled.loaded tabled.directory name (.inr tabled.whole) (by
      by_cases absent : recorded history name = none
      · refine .inr fun slot sought => ?_
        rw [sought, absent] at find_eq
        cases find_eq
      · exact .inl ⟨rfl, absent⟩)
  refine (lookup kernel rfl).weaken fun entry next outcome => ?_
  rcases outcome with ⟨rfl, _, missed⟩ | ⟨ip, slot, rfl, found, sought⟩
  · rw [← find_eq, missed]
    rfl
  · rw [← find_eq, sought]
    exact congrArg some found.inum

/-- What may keep `dirlink` from returning: it waits for another process, or the inode
table, the disk, the log or the directory is full, or there is no transaction. -/
def Stopped (dp : InodePtr) (store : Store) : Fault → Prop
  | .asleep => True
  | .panic .igetNoInodes => True
  | .panic .tooBigTransaction => True
  | .panic .ballocOutOfBlocks => True
  | .panic .logWriteOutside => store.outstanding < 1
  | .panic .dirlink => MAXFILE * BSIZE < DIRENT * store.disk.vacant (store.icache dp).inum + DIRENT
  | _ => False

/-- The directory is a map for this name. -/
structure IsMap (dp : InodePtr) (history : List DirEvent) (kernel : Kernel) (name : Name) (inum : Nat) : Prop where
  whole : DIRENT ∣ (kernel.icache dp).size.toNat
  lookup : Finds dp name (recorded history name) kernel
  link : Sat (dirlink dp name inum) kernel
    (fun done next => (done = false ↔ recorded history name ≠ none) ∧
      (∀ name', Finds dp name' (recorded (history ++ [.link name inum done]) name') next) ∧
      Grows dp kernel.store next.store)
    fun raised _ => Stopped dp kernel.store raised

/-- `iput` waits for the lock that its caller has. -/
theorem stuck_iput (mine : (store.icache ip).lock = some store.me.pid) :
    Stores (· = .deadlock ip) (iput ip) store fun _ _ => False := by
  refine .bind (stores_emit _) fun _ same same_eq => ?_
  subst same_eq
  have stuck : Stores (· = .deadlock ip) (acquiresleep ip) same fun _ _ => False := by
    refine .get fun kernel viewed => ?_
    subst viewed
    change (kernel.icache ip).lock = some kernel.myproc.pid at mine
    rw [mine]
    exact .ite (fun _ => .throw rfl) fun other => absurd rfl other
  exact .bind stuck fun _ _ => False.elim

/-- What is referred to is found in the cache. -/
theorem cached_of_held (sound : Sound store) (held : 0 < (store.icache ip).ref) :
    (store.cached ROOTDEV (store.icache ip).inum).isSome = true := by
  unfold Store.cached
  rw [List.find?_isSome]
  exact ⟨ip, List.mem_finRange ip, by simp [held, sound.device ip held]⟩

/-- `dirlink` hangs if its caller has locked what it finds. -/
theorem Tabled.stuck (tabled : Tabled dp history store) (inum : Nat)
    (mine : (store.icache ip).lock = some store.me.pid)
    (named : recorded history name = some (store.icache ip).inum) :
    Stores (· = .deadlock ip) (dirlink dp name inum) store fun _ _ => False := by
  have held : 0 < (store.icache ip).ref :=
    (tabled.locked ip fun unlocked => absurd (unlocked.symm.trans mine) (by simp)).held
  have find_eq := (tabled.table.find_eq name).trans named
  unfold Disk.find at find_eq
  refine .bind (calm_dirlookup tabled.sound tabled.loaded tabled.directory name (.inr tabled.whole)
    (.inr fun slot sought => ?_)) fun entry found outcome => ?_
  · rw [sought] at find_eq
    rw [show (store.disk.entry (store.icache dp).inum slot).inum = _ from Option.some.inj find_eq]
    exact cached_of_held tabled.sound held
  rcases outcome with ⟨rfl, _, missed⟩ | ⟨ip', slot, rfl, found', sought⟩
  · rw [missed] at find_eq
    cases find_eq
  · rw [sought] at find_eq
    have refs_eq := congrFun (congrArg Account.refs found'.account)
    have same : ip' = ip := by
      refine found'.calm.sound.distinct ip ip' ?_ ?_ ?_
      · have counted := refs_eq ip
        rw [Account.take_refs, Pi.add_apply, Pi.single_apply] at counted
        change 0 < found.account.refs ip
        change 0 < store.account.refs ip at held
        rw [counted]
        split <;> omega
      · exact found'.held
      · rw [found'.inum, found'.calm.stays.inum ip held]
        exact Option.some.inj find_eq
    subst same
    refine .bind (stuck_iput ?_) fun _ _ => False.elim
    change found.account.locks ip' = some found.account.me.pid
    rw [found'.account]
    exact mine

/-- Every directory is a map for the names under which it has no inode that the caller has
locked, and for no other name. -/
theorem directory_is_map_iff {start : Kernel} (opened : OpenDir dp start.store)
    (empty : (start.icache dp).size = 0) (run : Steps (Happens dp) start history kernel) (name : Name)
    (positive : inum ≠ 0) (short : inum < 2 ^ 16) :
    IsMap dp history kernel name inum ↔
      ∀ ip, (kernel.icache ip).lock = some kernel.myproc.pid →
        recorded history name ≠ some (kernel.icache ip).inum := by
  have tabled := tabled_of_run opened empty run
  constructor
  · intro isMap ip mine named
    obtain ⟨next, raised⟩ := (tabled.stuck inum mine named kernel rfl).exists_error
    exact isMap.link.error raised
  · intro clear
    have link : Stores (Stopped dp kernel.store) (dirlink dp name inum) kernel.store _ :=
      tabled.links name positive short ⟨trivial, trivial, (lt_or_ge _ _).symm⟩ (lt_or_ge _ _) trivial trivial
        (.inr fun ip mine => clear ip (not_not.mp mine))
    refine ⟨tabled.whole, tabled.finds name, (link kernel rfl).weaken fun done next outcome => ?_⟩
    exact ⟨outcome.2.1, fun name' => outcome.1.finds name', outcome.2.2⟩

/-! ## A directory that names itself -/

/-- The calls of `create` for a new directory, up to its first entry. -/
def newDirectory : List (ProcPtr × InodeCall) :=
  [.beginOp, .ialloc .dir 0 0o755, .ilock 0].map ((0, ·))

theorem exists_newDirectory : ∃ start : Kernel, OpenDir 0 start.store ∧ (start.icache 0).size = 0 ∧
    ∃ kernel, dirlink 0 DOT 3 start = .ok true kernel ∧ (kernel.icache 0).inum = 3 ∧
      (kernel.icache 0).lock = some kernel.myproc.pid ∧
      raised (dirlink 0 DOT 2) kernel = some (.deadlock 0) := by
  have evaluated : (follow Kernel.perform (fun kernel label => label.2.Disciplined kernel label.1)
      coldCache newDirectory).any (fun start => decide ((start.icache 0).type = .dir ∧
        (0 < (start.icache 0).ref ∧ (start.icache 0).valid = true) ∧ (start.icache 0).size = 0 ∧
        (outcome (dirlink 0 DOT 3) start).any (fun linked => decide (linked.1 = true ∧
          (linked.2.icache 0).inum = 3 ∧ (linked.2.icache 0).lock = some linked.2.myproc.pid ∧
          raised (dirlink 0 DOT 2) linked.2 = some (.deadlock 0))) = true)) = true := by
    decide +kernel
  obtain ⟨reached, facts⟩ := (Option.any_eq_true_iff_get _ _).mp evaluated
  obtain ⟨directory, loaded, empty, linked⟩ := of_decide_eq_true facts
  have run := Steps.of_follow (Option.some_get reached).symm
  have coherent := coherent_of_run (owned_of_root rfl points_emptyFileDisk)
    (fun inum _ _ => filled_emptyFileDisk inum) (fun _ => ⟨rfl, rfl⟩) run
  obtain ⟨done, kernel, linked, facts'⟩ := exists_of_outcome linked
  obtain ⟨rfl, inum_eq, mine, stuck⟩ := of_decide_eq_true facts'
  exact ⟨_, ⟨coherent, ⟨loaded.1, loaded.2⟩, directory⟩, empty, kernel, linked, inum_eq, mine, stuck⟩

/-- A directory finds itself under the name `.`. Entering this name again does not fail:
`dirlink` waits for the lock of the directory, which its caller has. -/
theorem dirlink_dot_deadlocks : ∃ start kernel : Kernel, OpenDir 0 start.store ∧ (start.icache 0).size = 0 ∧
    Steps (Happens 0) start [.link DOT 3 true] kernel ∧ recorded [.link DOT 3 true] DOT = some 3 ∧
    ∃ next, dirlink 0 DOT 2 kernel = .error (.deadlock 0) next := by
  obtain ⟨start, opened, empty, kernel, linked, _, _, stuck⟩ := exists_newDirectory
  have run : Steps (Happens 0) start ([] ++ [.link DOT 3 true]) kernel :=
    .step .refl ⟨by decide, by decide, linked⟩
  exact ⟨start, kernel, opened, empty, run, rfl, raised_eq_some.mp stuck⟩

theorem directory_is_map_iff_newDirectory : ∃ start kernel : Kernel, OpenDir 0 start.store ∧
    Steps (Happens 0) start [.link DOT 3 true] kernel ∧ IsMap 0 [.link DOT 3 true] kernel [102] 2 ∧
      ¬IsMap 0 [.link DOT 3 true] kernel DOT 2 := by
  obtain ⟨start, opened, empty, kernel, linked, inum_eq, mine, _⟩ := exists_newDirectory
  have run : Steps (Happens 0) start ([] ++ [.link DOT 3 true]) kernel :=
    .step .refl ⟨by decide, by decide, linked⟩
  refine ⟨start, kernel, opened, run, ?_, fun isMap => ?_⟩
  · exact (directory_is_map_iff opened empty run [102] (by decide) (by decide)).mpr fun _ _ => nofun
  · refine (directory_is_map_iff opened empty run DOT (by decide) (by decide)).mp isMap 0 mine ?_
    rw [inum_eq]
    rfl

end Storage

end Xv6
