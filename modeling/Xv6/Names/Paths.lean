import Mathlib.Data.List.DropRight
import Xv6.Names.Table

/-!
# Path resolution

`namex` follows the elements of a path through the directories. It refers to one inode
at a time, and to the next one before it gives the last one back. Nothing is freed on the
way if every inode that is named has a link or a reference of its own.
-/

namespace Xv6

open Program List Option Pi

/-! ## The elements of a path -/

/-- The parts of a path between slashes, cut to `DIRSIZ` bytes. -/
def elements (path : Path) : List Name :=
  ((path.splitOnP (· = SLASH)).filter (· ≠ [])).map (·.take DIRSIZ)

/-- The elements still to come are none if the rest of the path is empty. -/
def Marked : List (Name × Path) → Prop
  | [] => True
  | (_, path) :: rest => (path = [] ↔ rest = []) ∧ Marked rest

namespace Disk

variable (disk : Disk)

/-- The inode that a directory has under a name. -/
def descend (inum : Nat) (name : Name) : Option Nat :=
  if (disk.dinode inum).type = .dir then disk.find inum name else none

/-- Follow the elements from an inode. -/
def resolve (names : List Name) (inum : Nat) : Option Nat := names.foldlM disk.descend inum

/-- The directory of the last element, and this element. -/
def resolveParent (names : List Name) (inum : Nat) : Option (Nat × Name) := do
  let name ← names.getLast?
  let dir ← disk.resolve names.dropLast inum
  if (disk.dinode dir).type = .dir then some (dir, name) else none

end Disk

namespace Storage

/-! ## Scanning -/

theorem elements_slash (path : Path) : elements (SLASH :: path) = elements path := by
  unfold elements
  rw [splitOnP_cons_eq_if_modifyHead]
  simp

theorem elements_dropWhile (path : Path) : elements (path.dropWhile (· = SLASH)) = elements path := by
  induction path with
  | nil => rfl
  | cons byte rest ih =>
    by_cases slash : byte = SLASH
    · subst slash
      rw [elements_slash, ← ih]
      rfl
    · rw [dropWhile_cons_of_neg (by simpa using slash)]

/-- A path that does not begin with a slash begins with an element. -/
theorem elements_cons {byte : Byte} (first : byte ≠ SLASH) (path : Path) :
    elements (byte :: path) = ((byte :: path).takeWhile (· ≠ SLASH)).take DIRSIZ ::
      elements ((byte :: path).dropWhile (· ≠ SLASH)) := by
  have word : ∀ other ∈ (byte :: path).takeWhile (· ≠ SLASH), decide (other = SLASH) = false := by
    intro other member
    simpa using mem_takeWhile_imp member
  have nonempty : (byte :: path).takeWhile (· ≠ SLASH) ≠ [] := by
    rw [takeWhile_cons_of_pos (by simpa using first)]
    exact cons_ne_nil _ _
  have split := takeWhile_append_dropWhile (p := (· ≠ SLASH)) (l := byte :: path)
  cases remainder : (byte :: path).dropWhile (· ≠ SLASH) with
  | nil =>
    rw [remainder, append_nil] at split
    rw [split] at word nonempty ⊢
    unfold elements
    rw [splitOnP_eq_singleton word]
    simp
  | cons slash rest =>
    have separator : slash = SLASH := by
      have stops := List.head?_dropWhile_not (· ≠ SLASH) (byte :: path)
      rw [remainder] at stops
      simpa using stops
    subst separator
    rw [elements_slash]
    have parts := splitOnP_append_cons_of_forall_mem word SLASH (by simp) rest
    rw [remainder] at split
    rw [split] at parts
    unfold elements
    rw [parts, filter_cons_of_pos (by simpa using nonempty)]
    rfl

/-- What `skipelem` returns, and that it comes closer to the end. -/
theorem elements_skipelem (path : Path) :
    (skipelem path = none ∧ elements path = []) ∨
      ∃ name rest, skipelem path = some (name, rest) ∧ elements path = name :: elements rest ∧
        rest.length < path.length ∧ rest.dropWhile (· = SLASH) = rest := by
  have shorter : (path.dropWhile (· = SLASH)).length ≤ path.length := length_dropWhile_le _ _
  rw [← elements_dropWhile path]
  cases stripped : path.dropWhile (· = SLASH) with
  | nil => exact .inl ⟨by simp [skipelem, stripped], rfl⟩
  | cons byte tail =>
    have first : byte ≠ SLASH := by
      have stops := List.head?_dropWhile_not (· = SLASH) path
      rw [stripped] at stops
      simpa using stops
    rw [stripped] at shorter
    have inside : ((byte :: tail).dropWhile (· ≠ SLASH)).length ≤ tail.length := by
      rw [dropWhile_cons_of_pos (by simpa using first)]
      exact length_dropWhile_le _ _
    have further := length_dropWhile_le (· = SLASH) ((byte :: tail).dropWhile (· ≠ SLASH))
    refine .inr ⟨_, _, by simp only [skipelem, stripped]; rw [if_neg (cons_ne_nil _ _)], ?_, ?_, ?_⟩
    · rw [elements_cons first, elements_dropWhile]
    · rw [length_cons] at shorter
      omega
    · exact dropWhile_idempotent _ _

theorem elements_eq_nil {path : Path} (stripped : path.dropWhile (· = SLASH) = path) :
    elements path = [] ↔ path = [] := by
  cases path with
  | nil => exact iff_of_true rfl rfl
  | cons byte rest =>
    have first : byte ≠ SLASH := by
      have stops := List.head?_dropWhile_not (· = SLASH) (byte :: rest)
      rw [stripped] at stops
      simpa using stops
    rw [elements_cons first]
    simp

/-- The loop over `skipelem` visits the elements. -/
theorem skipelems_eq (fuel : Nat) {path : Path} (enough : path.length ≤ fuel) :
    (skipelems fuel path).map Prod.fst = elements path ∧ Marked (skipelems fuel path) := by
  induction fuel generalizing path with
  | zero =>
    obtain rfl := length_eq_zero_iff.mp (Nat.le_zero.mp enough)
    exact ⟨rfl, trivial⟩
  | succ fuel ih =>
    unfold skipelems
    rcases elements_skipelem path with ⟨none, empty⟩ | ⟨name, rest, some, split, shorter, stripped⟩
    · rw [none, empty]
      exact ⟨rfl, trivial⟩
    · obtain ⟨names, marked⟩ := @ih rest (by omega)
      rw [some, split]
      refine ⟨by rw [← names]; rfl, ?_, marked⟩
      rw [← elements_eq_nil stripped, ← names, map_eq_nil_iff]

/-! ## Following the elements -/

variable {allowed : Fault → Prop} {start store after : Store} {ip : InodePtr} {inum : Nat} {disk : Disk}
  {name : Name} {names : List Name}

theorem resolve_cons : disk.resolve (name :: names) inum = (disk.descend inum name).bind (disk.resolve names) :=
  rfl

theorem resolveParent_single : disk.resolveParent [name] inum =
    if (disk.dinode inum).type = .dir then some (inum, name) else none := rfl

theorem resolveParent_cons (more : names ≠ []) : disk.resolveParent (name :: names) inum =
    (disk.descend inum name).bind (disk.resolveParent names) := by
  obtain ⟨next, rest, rfl⟩ := exists_cons_of_ne_nil more
  unfold Disk.resolveParent
  rw [List.getLast?_cons_cons, dropLast_cons_cons, resolve_cons]
  cases disk.descend inum name with
  | none => cases (next :: rest).getLast? <;> rfl
  | some dir => rfl

/-- What `namex` is to find: the inode, and the name of the last element if it is to
stop at its directory. -/
def answer (disk : Disk) (parent : Bool) (names : List Name) (inum : Nat) : Option (Nat × Option Name) :=
  if parent then (disk.resolveParent names inum).map fun found => (found.1, some found.2)
  else (disk.resolve names inum).map fun found => (found, none)

theorem answer_nondir (notDir : (disk.dinode inum).type ≠ .dir) (parent : Bool) :
    answer disk parent (name :: names) inum = none := by
  have stops : disk.descend inum name = none := if_neg notDir
  unfold answer
  rw [resolve_cons, stops]
  cases parent with
  | false => rfl
  | true =>
    by_cases more : names = []
    · rw [more, resolveParent_single, if_neg notDir]
      rfl
    · rw [resolveParent_cons more, stops]
      rfl

theorem answer_cons {parent : Bool} (goesOn : ¬(parent = true ∧ names = [])) :
    answer disk parent (name :: names) inum = (disk.descend inum name).bind (answer disk parent names) := by
  unfold answer
  cases parent with
  | false =>
    rw [resolve_cons]
    cases disk.descend inum name <;> rfl
  | true =>
    rw [resolveParent_cons fun last => goesOn ⟨rfl, last⟩]
    cases disk.descend inum name <;> rfl

/-! ## References on the way -/

/-- An inode with a name, or one that is referred to. -/
def Anchored (store : Store) (inum : Nat) : Prop :=
  (store.disk.dinode inum).nlink ≠ 0 ∨ ∃ ip, 0 < (store.icache ip).ref ∧ (store.icache ip).inum = inum

/-- Paths can be followed: the caller has no lock, and what a directory names, the root
and the current directory are in use and anchored. -/
structure Walkable (allowed : Fault → Prop) (start : Store) : Prop where
  sound : Sound start
  free : ∀ ip, start.Free ip
  waits : allowed .asleep
  full : allowed (.panic .igetNoInodes)
  whole : allowed (.panic .dirlookupRead) ∨
    ∀ dir, (start.disk.dinode dir).type = .dir → DIRENT ∣ (start.disk.dinode dir).size.toNat
  live : allowed (.panic .ilockNoType) ∨ ∀ dir slot, (start.disk.dinode dir).type = .dir →
    (start.disk.entry dir slot).inum ≠ 0 → (start.disk.dinode (start.disk.entry dir slot).inum).type ≠ .free
  anchored : ∀ dir slot, (start.disk.dinode dir).type = .dir → (start.disk.entry dir slot).inum ≠ 0 →
    Anchored start (start.disk.entry dir slot).inum
  root : (allowed (.panic .ilockNoType) ∨ (start.disk.dinode ROOTINO).type ≠ .free) ∧ Anchored start ROOTINO
  cwd : ∃ cwd, start.me.cwd = some cwd ∧ 0 < (start.icache cwd).ref ∧
    (allowed (.panic .ilockNoType) ∨ (start.disk.dinode (start.icache cwd).inum).type ≠ .free)

/-- The store looks as at the start but for what is cached and for the account. -/
structure Visited (account : Account) (start store : Store) : Prop where
  calm : Calm start.account.refs start store
  account : store.account = account
  disk : store.disk = start.disk

/-- One more reference, to an inode that stays. -/
structure Walking (allowed : Fault → Prop) (ip : InodePtr) (start store : Store) : Prop extends
    Visited (start.account.take ip) start store where
  held : 0 < (store.icache ip).ref
  live : allowed (.panic .ilockNoType) ∨ (start.disk.dinode (store.icache ip).inum).type ≠ .free
  anchored : Anchored start (store.icache ip).inum

theorem Walking.lockable (walking : Walking allowed ip start store) (walkable : Walkable allowed start) :
    Lockable allowed store ip := by
  refine .inr ⟨walkable.waits, .inl ?_⟩
  change store.account.Free ip
  rw [walking.account]
  exact walkable.free ip

/-- An anchored inode is not freed by who has taken a reference to it. -/
theorem remains_of_anchored (calm : Calm start.account.refs start store) (disk_eq : store.disk = start.disk)
    (counted : ∀ ip', (start.account.take ip).refs ip' ≤ store.account.refs ip')
    (held : 0 < (store.icache ip).ref) (anchored : Anchored start (store.icache ip).inum) :
    store.Remains ip := by
  rintro ⟨valid, unlinked, once⟩
  rcases anchored with linked | ⟨ip', held', inum_eq⟩
  · refine linked ?_
    rw [← disk_eq, ← calm.sound.clean ip held valid]
    exact unlinked
  · have counted' := counted ip'
    rw [Account.take_refs, Pi.add_apply, single_apply] at counted'
    change 0 < start.account.refs ip' at held'
    have positive : 0 < store.account.refs ip' := by
      split at counted' <;> omega
    have same : ip' = ip := calm.sound.distinct ip ip' held positive ((calm.stays.inum ip' held').trans inum_eq)
    subst same
    rw [if_pos rfl] at counted'
    change store.account.refs ip' = 1 at once
    omega

theorem owner_of_account {account : Account} (account_eq : store.account = account.lock ip) :
    (store.icache ip).lock = some store.me.pid := by
  change store.account.locks ip = some store.account.me.pid
  rw [account_eq]
  exact Function.update_self ..

/-- `iunlockput` on the way: what else was referred to is still there. -/
theorem stores_leave {extra : Account} (calm : Calm start.account.refs start store)
    (disk_eq : store.disk = start.disk) (account_eq : store.account = (extra.take ip).lock ip)
    (unlocked : extra.locks ip = none) (more : ∀ ip', start.account.refs ip' ≤ extra.refs ip')
    (held : 0 < (store.icache ip).ref) (anchored : Anchored start (store.icache ip).inum) :
    Stores allowed (iunlockput ip) store fun _ after => Visited extra start after ∧
      ∀ ip', 0 < extra.refs ip' → (after.icache ip').inum = (store.icache ip').inum := by
  have refs_eq : store.account.refs = extra.refs + single ip 1 := by
    rw [account_eq]
    rfl
  have remains : store.Remains ip := by
    refine remains_of_anchored calm disk_eq (fun ip' => ?_) held anchored
    rw [refs_eq, Account.take_refs]
    exact add_le_add_left (more ip') _
  have kept : 0 < extra.refs ip → 2 ≤ (store.icache ip).ref := by
    intro positive
    change 2 ≤ store.account.refs ip
    rw [refs_eq, Pi.add_apply, single_eq_same]
    omega
  refine .mono (calm_iunlockput extra.refs calm.sound (.inr ⟨owner_of_account account_eq, held⟩)
    (.inr remains) kept)
    fun _ after outcome => ?_
  obtain ⟨calm', account_eq', disk_eq'⟩ := outcome
  refine ⟨⟨calm.trans (calm'.mono fun ip' positive => positive.trans_le (more ip')), ?_,
    (disk_eq' remains).trans disk_eq⟩, calm'.stays.inum⟩
  rw [account_eq', account_eq, Account.unlock_lock (extra.take ip) unlocked, Account.drop_take]

/-- `namex` at an inode. -/
theorem stores_namexFrom (walkable : Walkable allowed start) (parent : Bool) (elements : List (Name × Path))
    (marked : Marked elements) (ip : InodePtr) (name : Name) (walking : Walking allowed ip start store) :
    Stores allowed (namexFrom parent elements ip name) store fun result after =>
      (result = none ∧ answer start.disk parent (elements.map Prod.fst) (store.icache ip).inum = none ∧
        Visited start.account start after) ∨
      ∃ ip' name', result = some (ip', name') ∧ Walking allowed ip' start after ∧
        answer start.disk parent (elements.map Prod.fst) (store.icache ip).inum =
          some ((after.icache ip').inum, if parent then some name' else none) := by
  induction elements generalizing ip name store with
  | nil =>
    cases parent with
    | true =>
      have refs_eq : store.account.refs = start.account.refs + single ip 1 := by
        rw [walking.account]
        rfl
      have remains := remains_of_anchored walking.calm walking.disk (fun ip' => by rw [walking.account])
        walking.held walking.anchored
      refine .bind (calm_iput start.account.refs walking.calm.sound (walking.lockable walkable)
        (.inr remains) fun positive => ?_)
        fun _ after outcome => .pure (.inl ⟨rfl, rfl, ?_⟩)
      · change 2 ≤ store.account.refs ip
        rw [refs_eq, Pi.add_apply, single_eq_same]
        omega
      · obtain ⟨calm, account_eq, _, disk_eq⟩ := outcome
        exact ⟨walking.calm.trans calm, by rw [account_eq, walking.account, Account.drop_take],
          (disk_eq remains).trans walking.disk⟩
    | false => exact .pure (.inr ⟨ip, name, rfl, walking, rfl⟩)
  | cons element rest ih =>
    obtain ⟨name, path⟩ := element
    obtain ⟨last_iff, marked⟩ := marked
    have live : allowed (.panic .ilockNoType) ∨ (store.disk.dinode (store.icache ip).inum).type ≠ .free := by
      rw [walking.disk]
      exact walking.live
    refine .bind (calm_ilock start.account.refs walking.calm.sound (.inr walking.held)
      (walking.lockable walkable) live) fun _ locked outcome => ?_
    obtain ⟨calm', account_eq, disk_eq, inum_eq, loaded, unlocked⟩ := outcome
    have calm := walking.calm.trans calm'
    rw [walking.disk] at disk_eq
    rw [walking.account] at account_eq
    have unlocked' : start.account.locks ip = none := by
      change store.account.locks ip = none at unlocked
      rwa [walking.account] at unlocked
    have anchored := walking.anchored
    rw [← inum_eq] at anchored ⊢
    have type_eq : (locked.icache ip).type = (start.disk.dinode (locked.icache ip).inum).type := by
      rw [calm.sound.clean ip loaded.held loaded.valid, disk_eq]
    refine .bind (stores_readInode ip) fun inode same outcome => ?_
    obtain ⟨rfl, rfl⟩ := outcome
    have leave : Stores allowed (iunlockput ip) same _ :=
      stores_leave calm disk_eq account_eq unlocked' (fun _ => le_rfl) loaded.held anchored
    refine .ite (fun notDir => ?_) fun isDir => ?_
    · rw [type_eq] at notDir
      exact .bind leave fun _ after outcome =>
        .pure (.inl ⟨rfl, answer_nondir notDir parent, outcome.1⟩)
    have directory := not_not.mp isDir
    have directory' := type_eq.symm.trans directory
    refine .ite (fun stop => ?_) fun goesOn => ?_
    · -- the last element: the directory is returned with its reference
      obtain ⟨rfl, rfl⟩ := stop
      obtain rfl := last_iff.mp rfl
      refine .bind (calm_iunlock start.account.refs calm.sound ip
        (.inr ⟨owner_of_account account_eq, loaded.held⟩)) fun _ after outcome => .pure ?_
      obtain ⟨calm'', account_eq', rfl, inum_eq', _⟩ := outcome
      rw [account_eq, Account.unlock_lock (start.account.take ip) unlocked'] at account_eq'
      refine .inr ⟨ip, name, rfl, ⟨⟨calm.trans calm'', account_eq', disk_eq⟩, ?_, ?_, ?_⟩, ?_⟩
      · change 0 < (same.unlock ip).account.refs ip
        rw [account_eq', ← walking.account]
        exact walking.held
      · rw [inum_eq', inum_eq]
        exact walking.live
      · rw [inum_eq']
        exact anchored
      · rw [inum_eq']
        change (start.disk.resolveParent [name] _).map _ = _
        rw [resolveParent_single, if_pos directory']
        rfl
    · have answer_eq : answer start.disk parent (name :: rest.map Prod.fst) (same.icache ip).inum =
          (start.disk.find (same.icache ip).inum name).bind (answer start.disk parent (rest.map Prod.fst)) := by
        rw [answer_cons, Disk.descend, if_pos directory']
        rw [map_eq_nil_iff, ← last_iff]
        exact goesOn
      rw [map_cons, answer_eq]
      unfold Disk.find
      have whole : allowed (.panic .dirlookupRead) ∨ DIRENT ∣ (same.icache ip).size.toNat := by
        rw [calm.sound.clean ip loaded.held loaded.valid, disk_eq]
        exact walkable.whole.imp_right fun whole => whole _ directory'
      refine .bind (calm_dirlookup calm.sound loaded directory name whole (.inl walkable.full))
        fun entry found outcome => ?_
      rw [disk_eq] at outcome
      rcases outcome with ⟨rfl, rfl, missed⟩ | ⟨next, slot, rfl, found', sought⟩
      · rw [missed]
        exact .bind leave fun _ after outcome => .pure (.inl ⟨rfl, rfl, outcome.1⟩)
      · have held := walking.held
        change 0 < store.account.refs ip at held
        rw [walking.account, Account.take_refs, Pi.add_apply, single_eq_same] at held
        have refs_eq : same.account.refs = start.account.refs + single ip 1 := by
          rw [account_eq]
          rfl
        have account_eq' : found.account = ((start.account.take next).take ip).lock ip := by
          rw [found'.account, account_eq, ← Account.take_lock, Account.take_take]
        have calm' : Calm start.account.refs start found := calm.trans (found'.calm.mono fun ip' positive => by
          rw [refs_eq, Pi.add_apply, single_apply]
          split <;> omega)
        have inum_eq' := found'.calm.stays.inum ip loaded.held
        rw [← inum_eq'] at anchored
        have refs_eq' : ∀ ip', (found.icache ip').ref =
            (start.account.take next).refs ip' + if ip' = ip then 1 else 0 := by
          intro ip'
          change found.account.refs ip' = _
          rw [account_eq', ← single_apply]
          rfl
        have more : ∀ ip', start.account.refs ip' ≤ (start.account.take next).refs ip' := by
          intro ip'
          rw [Account.take_refs, Pi.add_apply, single_apply]
          split <;> omega
        refine .bind (stores_leave calm' (found'.disk.trans disk_eq) account_eq' unlocked' more ?_ anchored)
          fun _ after outcome => ?_
        · have counted := more ip
          rw [refs_eq', if_pos rfl]
          omega
        obtain ⟨visited, inums⟩ := outcome
        have kept : 0 < (start.account.take next).refs next := by
          by_cases again : next = ip
          · rw [again, Account.take_refs, Pi.add_apply, single_eq_same]
            exact held
          · have counted := found'.held
            rwa [refs_eq', if_neg again, add_zero] at counted
        obtain ⟨inUse, _⟩ := holds_iff.mp (List.find?_some sought)
        have inum_eq'' : (after.icache next).inum = (start.disk.entry (same.icache ip).inum slot).inum := by
          rw [inums next kept, found'.inum, disk_eq]
        have walking' : Walking allowed next start after := by
          refine ⟨visited, ?_, ?_, ?_⟩
          · change 0 < after.account.refs next
            rw [visited.account]
            exact kept
          · rw [inum_eq'']
            exact walkable.live.imp_right fun live => live _ _ directory' inUse
          · rw [inum_eq'']
            exact walkable.anchored _ _ directory' inUse
        have walked := ih marked next name walking'
        rw [inum_eq''] at walked
        rw [sought]
        exact walked

/-- Where a path starts. -/
def origin (start : Store) (path : Path) : Nat :=
  if path.head? = some SLASH then ROOTINO else (start.me.cwd.map fun cwd => (start.icache cwd).inum).getD 0

theorem stores_namex (walkable : Walkable allowed start) (path : Path) (parent : Bool) :
    Stores allowed (namex path parent) start fun result after =>
      (result = none ∧ answer start.disk parent (elements path) (origin start path) = none ∧
        Visited start.account start after) ∨
      ∃ ip' name', result = some (ip', name') ∧ Walking allowed ip' start after ∧
        answer start.disk parent (elements path) (origin start path) =
          some ((after.icache ip').inum, if parent then some name' else none) := by
  obtain ⟨names, marked⟩ := @skipelems_eq path.length path le_rfl
  unfold origin
  rw [← names]
  refine .ite (fun absolute => ?_) fun relative => ?_
  · rw [if_pos absolute]
    refine .bind (calm_iget (.inl walkable.full) start.account.refs walkable.sound fun _ held => held)
      fun ip store outcome => ?_
    obtain ⟨calm, account_eq, disk_eq, inum_eq, held, _⟩ := outcome
    have walking : Walking allowed ip start store := by
      refine ⟨⟨calm, account_eq, disk_eq⟩, held, ?_, ?_⟩
      · rw [inum_eq]
        exact walkable.root.1
      · rw [inum_eq]
        exact walkable.root.2
    rw [← inum_eq]
    exact stores_namexFrom walkable parent _ marked ip [] walking
  · rw [if_neg relative]
    obtain ⟨cwd, cwd_eq, held, live⟩ := walkable.cwd
    refine .get fun kernel viewed => ?_
    subst viewed
    change kernel.myproc.cwd = some cwd at cwd_eq
    rw [show kernel.store.me.cwd = some cwd from cwd_eq, cwd_eq]
    refine .bind (calm_idup kernel.store.account.refs walkable.sound held) fun ip store outcome => ?_
    obtain ⟨rfl, calm, account_eq, disk_eq, inum_eq⟩ := outcome
    have walking : Walking allowed ip kernel.store store := by
      refine ⟨⟨calm, account_eq, disk_eq⟩, ?_, ?_, ?_⟩
      · change 0 < store.account.refs ip
        rw [account_eq, Account.take_refs, Pi.add_apply, single_eq_same]
        exact held.trans (lt_add_one _)
      · rw [inum_eq]
        exact live
      · exact .inr ⟨ip, held, inum_eq.symm⟩
    rw [map_some, getD_some, ← inum_eq]
    exact stores_namexFrom walkable parent _ marked ip [] walking

/-! ## The result -/

/-- What may stop a walk: it waits for another process, or the inode cache is full. -/
def Busy (raised : Fault) : Prop := raised = .asleep ∨ raised = .panic .igetNoInodes

/-- One reference is added, to the inode returned. All that was referred to is where it was. -/
structure Refers (result : Option InodePtr) (before after : Kernel) : Prop where
  refs : ∀ ip, (after.icache ip).ref = (before.icache ip).ref + if result = some ip then 1 else 0
  inum : ∀ ip, 0 < (before.icache ip).ref → (after.icache ip).inum = (before.icache ip).inum
  disk : after.disk = before.disk

theorem Visited.refers {before next : Kernel} (visited : Visited before.store.account before.store next.store) :
    Refers none before next where
  refs ip := by
    change next.store.account.refs ip = _
    rw [visited.account, if_neg (nofun : (none : Option InodePtr) ≠ some ip), add_zero]
    rfl
  inum := visited.calm.stays.inum
  disk := visited.disk

theorem Walking.refers {before next : Kernel} (walking : Walking allowed ip before.store next.store) :
    Refers (some ip) before next where
  refs ip' := by
    change next.store.account.refs ip' = _
    rw [walking.account, Account.take_refs, Pi.add_apply, single_apply]
    simp only [Option.some.injEq, eq_comm]
    rfl
  inum := walking.calm.stays.inum
  disk := walking.disk

/-- The only directory is the root, and it has three entries. -/
theorem entry_emptyFileDisk {dir slot : Nat} (directory : (emptyFileDisk.dinode dir).type = .dir) :
    dir = ROOTINO ∧ ((emptyFileDisk.entry dir slot).inum ≠ 0 →
      (emptyFileDisk.entry dir slot).inum = 1 ∨ (emptyFileDisk.entry dir slot).inum = 2) := by
  have root : dir = ROOTINO := by
    rcases dir with _ | _ | _ | dir
    · exact absurd directory (by decide)
    · rfl
    · exact absurd directory (by decide)
    · simp [emptyFileDisk, Disk.image, Dinode.fresh, ROOTINO] at directory
  subst root
  refine ⟨rfl, fun inUse => ?_⟩
  have below : slot < 3 := slot_lt inUse
  rcases slot with _ | _ | _ | slot
  · exact .inl (by decide +kernel)
  · exact .inl (by decide +kernel)
  · exact .inr (by decide +kernel)
  · omega

theorem exists_walkable : ∃ kernel : Kernel, Walkable Busy kernel.store ∧ kernel.disk = emptyFileDisk := by
  have evaluated : (outcome (iget ROOTDEV ROOTINO) coldCache).any (fun result => decide (result.1 = 0)) = true := by
    decide +kernel
  obtain ⟨ip, kernel, run, facts⟩ := exists_of_outcome evaluated
  obtain rfl := of_decide_eq_true facts
  have coherent : Coherent coldCache.store := coherent_of_run (owned_of_root rfl points_emptyFileDisk)
    (fun inum _ _ => filled_emptyFileDisk inum) (fun _ => ⟨rfl, rfl⟩) .refl
  have got : Stores (fun _ => True) (iget ROOTDEV ROOTINO) coldCache.store _ :=
    calm_iget (.inl trivial) coldCache.store.account.refs coherent.sound fun _ held => held
  obtain ⟨calm, account_eq, disk_eq, inum_eq, held, _⟩ := (got coldCache rfl).ok run
  change kernel.disk = emptyFileDisk at disk_eq
  have linked : ∀ inum, inum = 1 ∨ inum = 2 →
      (kernel.disk.dinode inum).type ≠ .free ∧ Anchored kernel.store inum := by
    rintro inum (rfl | rfl)
    · exact ⟨by rw [disk_eq]; decide, .inl (by change (kernel.disk.dinode 1).nlink ≠ 0; rw [disk_eq]; decide)⟩
    · exact ⟨by rw [disk_eq]; decide, .inl (by change (kernel.disk.dinode 2).nlink ≠ 0; rw [disk_eq]; decide)⟩
  have named : ∀ dir slot, (kernel.disk.dinode dir).type = .dir → (kernel.disk.entry dir slot).inum ≠ 0 →
      (kernel.disk.entry dir slot).inum = 1 ∨ (kernel.disk.entry dir slot).inum = 2 := by
    rw [disk_eq]
    exact fun dir slot directory => (entry_emptyFileDisk directory).2
  refine ⟨kernel, ⟨calm.sound, fun ip => ?_, .inl rfl, .inr rfl, .inr fun dir directory => ?_,
    .inr fun dir slot directory inUse => (linked _ (named dir slot directory inUse)).1,
    fun dir slot directory inUse => (linked _ (named dir slot directory inUse)).2,
    ⟨.inr (linked 1 (.inl rfl)).1, (linked 1 (.inl rfl)).2⟩, 0, ?_, held, .inr ?_⟩, disk_eq⟩
  · change kernel.store.account.Free ip
    rw [account_eq]
    exact nofun
  · change (kernel.disk.dinode dir).type = .dir at directory
    change DIRENT ∣ (kernel.disk.dinode dir).size.toNat
    rw [disk_eq] at directory ⊢
    rw [(@entry_emptyFileDisk dir 0 directory).1]
    decide +kernel
  · change kernel.store.account.me.cwd = some 0
    rw [account_eq]
    rfl
  · rw [inum_eq]
    exact (linked 1 (.inl rfl)).1

end Storage

end Xv6
