import Xv6.Access.Chmod
import Xv6.Database.Lookup
import Xv6.User.Chown

/-!
# What `chown` and `chgrp` change

The first argument of `chown` names a user, a group, a user with the login group, or both.
The programs look the names up and pass two numbers to the system call, with -1 for the one
that was not given; the system call leaves the owner alone if it is -1, but it stores the
group whatever it is. So a user alone costs the file its group.
-/

namespace Xv6.Attributes

open Program Storage User Database List

/-! ## What is asked for -/

/-- The records of `/etc/passwd` and `/etc/group`, in files shorter than the buffers. -/
structure Records where
  stack : List Byte
  passwd : List PasswdRecord
  group : List GroupRecord
  passwdShort : (passwdFile passwd).length < BUFF
  groupShort : (groupFile group).length < BUFF

namespace Records

variable (records : Records)

/-- The files, as the programs find them. -/
def database : UserDatabase :=
  { stack := records.stack
    passwd := some (passwdFile records.passwd)
    group := some (groupFile records.group) }

/-- The user with this name. -/
def user (name : Field) : Option PasswdRecord :=
  records.passwd.find? (PasswdRecord.named name.text)

/-- The group with this name. -/
def groupNamed (name : Field) : Option GroupRecord :=
  records.group.find? (GroupRecord.named name.text)

/-- The uid of the user with this name. -/
def uidOf (name : Field) : UInt32 := ((records.user name).map PasswdRecord.uidNumber).getD (-1)

/-- The gid of the group with this name. -/
def gidOf (name : Field) : UInt32 := ((records.groupNamed name).map GroupRecord.gidNumber).getD (-1)

/-- The login gid of the user with this name. -/
def loginOf (name : Field) : UInt32 := ((records.user name).map PasswdRecord.gidNumber).getD (-1)

end Records

/-- The forms of the argument of `chown`. -/
inductive Asked where
  | user (user : Field)
  | group (group : Field)
  | login (user : Field)
  | both (user group : Field)

namespace Asked

/-- The argument as it is typed. -/
def argument : Asked → List Byte
  | .user u => u.text
  | .group g => colon :: g.text
  | .login u => u.text ++ [colon]
  | .both u g => u.text ++ colon :: g.text

/-- The names are those of a user and a group. -/
def Resolves (records : Records) : Asked → Prop
  | .user u | .login u => (records.user u).isSome = true
  | .group g => (records.groupNamed g).isSome = true
  | .both u g => (records.user u).isSome = true ∧ (records.groupNamed g).isSome = true

/-- What is to become of the inode of a file. -/
def wanted (records : Records) (dip : Dinode) : Asked → Dinode
  | .user u => { dip with uid := records.uidOf u }
  | .group g => { dip with gid := records.gidOf g }
  | .login u => { dip with uid := records.uidOf u, gid := records.loginOf u }
  | .both u g => { dip with uid := records.uidOf u, gid := records.gidOf g }

end Asked

/-! ## What is done -/

/-- What `sys_chown` makes of an inode. -/
def chowned (owner group : UInt32) (dip : Dinode) : Dinode :=
  { dip with uid := if owner = -1 then dip.uid else owner, gid := group }

/-- What a program makes of it that has found these numbers, or has given up. -/
def applied : Except String (UInt32 × UInt32) → Dinode → Dinode
  | .error _, dip => dip
  | .ok (owner, group), dip => chowned owner group dip

/-- A name does not start with digits that make another number. -/
def Legible (name : List Byte) (number : UInt32) : Prop :=
  (atoi name).toUInt32 = -1 ∨ (atoi name).toUInt32 = number

namespace Records

variable (records : Records)

/-- The user is found under the name, and has a uid that can be told from none. -/
def Settable (dip : Dinode) (user : Field) : Prop :=
  Legible user.text (records.uidOf user) ∧ (records.uidOf user = -1 → dip.uid = -1)

/-- The gid to which the name of the group with this gid leads back. -/
def regroup (gid : UInt32) : UInt32 :=
  ((records.group.find? (GroupRecord.numbered gid)).map fun record =>
    numberOr record.name.text (records.gidOf record.name)).getD (-1)

/-- The login group of the first user with this uid. -/
def loginGroup (uid : UInt32) : UInt32 :=
  records.regroup
    (((records.passwd.find? (PasswdRecord.numbered uid)).map PasswdRecord.gidNumber).getD (-1))

end Records

/-- When `chown` does what it is asked. A name of one letter is not accepted for a user
alone. -/
def Fulfils (records : Records) (dip : Dinode) : Asked → Prop
  | .user u =>
    if u.text.length = 1 then dip.uid = records.uidOf u
    else records.Settable dip u ∧ dip.gid = -1
  | .group g => Legible g.text (records.gidOf g)
  | .login u => records.Settable dip u ∧ records.loginGroup (records.uidOf u) = records.loginOf u
  | .both u g => records.Settable dip u ∧ Legible g.text (records.gidOf g)

/-- When `chgrp` does: it only takes a number that some group has. -/
def FulfilsGroup (records : Records) (dip : Dinode) (group : Field) : Prop :=
  if numberOr group.text (records.gidOf group) = -1 ∨
      records.group.find? (GroupRecord.numbered (numberOr group.text (records.gidOf group))) = none
  then dip.gid = records.gidOf group
  else Legible group.text (records.gidOf group)

/-! ## Taking the argument apart -/

theorem numberOr_eq_iff {name : List Byte} {number : UInt32} :
    numberOr name number = number ↔ Legible name number := by
  unfold numberOr Legible
  split
  · rename_i letters
    exact iff_of_true rfl (.inl letters)
  · rename_i digits
    exact ⟨.inr, fun legible => legible.resolve_left digits⟩

/-- A number that is passed to the system call arrives unless it looks like none. -/
theorem settable_iff {name : List Byte} {number old : UInt32} :
    (if numberOr name number = -1 then old else numberOr name number) = number ↔
      Legible name number ∧ (number = -1 → old = -1) := by
  by_cases legible : Legible name number
  · rw [numberOr_eq_iff.mpr legible]
    by_cases none : number = -1
    · rw [if_pos none]
      constructor
      · exact fun same => ⟨legible, fun _ => same.trans none⟩
      · exact fun both => (both.2 none).trans none.symm
    · rw [if_neg none]
      exact iff_of_true rfl ⟨legible, fun absurdity => absurd absurdity none⟩
  · have digits : (atoi name).toUInt32 ≠ -1 := fun letters => legible (.inl letters)
    have number_eq : numberOr name number = (atoi name).toUInt32 := if_neg digits
    rw [number_eq, if_neg digits]
    exact iff_of_false (fun same => legible (.inr same)) fun both => legible both.1

theorem strstr_absent {text : List Byte} (absent : ∀ c ∈ text, c ≠ colon) :
    strstr text [colon] = none := by
  induction text with
  | nil => rfl
  | cons c text ih =>
    have different : (colon == c) = false :=
      beq_false_of_ne (absent c mem_cons_self).symm
    unfold strstr
    rw [if_neg (by simp [List.isPrefixOf, different])]
    exact ih fun c member => absent c (mem_cons_of_mem _ member)

theorem strstr_present (front rest : List Byte) :
    (strstr (front ++ colon :: rest) [colon]).isNone = false := by
  induction front with
  | nil => simp [strstr]
  | cons c front ih =>
    rw [cons_append]
    unfold strstr
    split
    · rfl
    · exact ih

/-- The last token ends with the string. -/
theorem strtok_last (field : Field) :
    strtok none [colon] (some field.text) = (some field.text, none) := by
  have ends : ∀ {text : List Byte}, (∀ c ∈ text, c ≠ colon ∧ c ≠ newline ∧ c ≠ 0) →
      strcspn text [colon] = text.length := by
    intro text
    induction text with
    | nil => exact fun _ => rfl
    | cons c text ih =>
      intro clean
      obtain ⟨different, _, present⟩ := clean c mem_cons_self
      unfold strcspn
      rw [if_neg present,
        if_neg fun found => different ((strchr_singleton (by decide)).mp found).symm,
        ih fun c member => clean c (mem_cons_of_mem _ member)]
      rfl
  obtain ⟨c, text, text_eq⟩ := exists_cons_of_ne_nil field.nonempty
  have skipped : strspn field.text [colon] = 0 := by
    rw [text_eq]
    refine strspn_zero (by decide) (field.clean c ?_).1 _
    rw [text_eq]
    exact mem_cons_self
  unfold strtok
  dsimp only [Option.or]
  rw [skipped, drop_zero, ends field.clean,
    if_neg (length_pos_of_ne_nil field.nonempty).ne', take_length, drop_length]

theorem noColon (field : Field) : ∀ c ∈ field.text, c ≠ colon :=
  fun c member => (field.clean c member).1

/-- An argument that starts with a field does not start with a colon. -/
theorem strncmp_field (field : Field) (rest : List Byte) :
    User.strncmp (field.text ++ rest) [colon] 1 ≠ 0 := by
  obtain ⟨c, text, text_eq⟩ := exists_cons_of_ne_nil field.nonempty
  have different : c ≠ colon := noColon field c (by rw [text_eq]; exact mem_cons_self)
  have apart : c.toNat ≠ colon.toNat := fun same => different (UInt8.toNat_inj.mp same)
  rw [text_eq]
  change (if c ≠ 0 ∧ c = colon then _ else ((c.toNat : Int) - colon.toNat)) ≠ 0
  rw [if_neg fun both => different both.2]
  omega

section Names

variable (database : UserDatabase)

theorem chownNames_user (user : Field) : chownNames database user.text = (some user.text, none) := by
  unfold chownNames
  rw [strstr_absent (noColon user)]
  exact if_pos rfl

theorem chownNames_group (group : Field) :
    chownNames database (colon :: group.text) = (none, some group.text) := by
  have present := strstr_present [] group.text
  rw [nil_append] at present
  unfold chownNames
  rw [present, if_neg Bool.false_ne_true]
  have first : User.strncmp (colon :: group.text) [colon] 1 = 0 := by
    simp [User.strncmp]
  exact if_pos first

theorem chownNames_login (user : Field) :
    chownNames database (user.text ++ [colon]) = (some user.text,
      gidtogroup database.stack database.group (uidtogid database.stack database.passwd
        (usertouid database.stack database.passwd user.text))) := by
  unfold chownNames
  rw [strstr_present, if_neg Bool.false_ne_true, if_neg (strncmp_field user _),
    strtok_field (by decide) user (noColon user) [] (some _) none rfl]
  dsimp only
  rw [if_pos (by simp)]

theorem chownNames_both (user group : Field) :
    chownNames database (user.text ++ colon :: group.text) = (some user.text, some group.text) := by
  unfold chownNames
  rw [strstr_present, if_neg Bool.false_ne_true, if_neg (strncmp_field user _),
    strtok_field (by decide) user (noColon user) group.text (some _) none rfl]
  dsimp only
  rw [if_neg (by simpa using group.nonempty), strtok_last]

end Names

/-! ## Looking the names up -/

section Numbers

variable {records : Records} {user group : Field}

/-- A file in which a name is found has a line. -/
theorem passwd_ne_nil (found : (records.user user).isSome = true) : records.passwd ≠ [] := by
  intro empty
  unfold Records.user at found
  rw [empty] at found
  cases found

theorem group_ne_nil (found : (records.groupNamed group).isSome = true) : records.group ≠ [] := by
  intro empty
  unfold Records.groupNamed at found
  rw [empty] at found
  cases found

theorem usertouid_database (found : (records.user user).isSome = true) :
    usertouid records.database.stack records.database.passwd user.text = records.uidOf user :=
  usertouid_eq (passwd_ne_nil found) records.passwdShort records.stack user.string

theorem grouptogid_database (found : (records.groupNamed group).isSome = true) :
    grouptogid records.database.stack records.database.group group.text = records.gidOf group :=
  grouptogid_eq (group_ne_nil found) records.groupShort records.stack group.string

/-- What `chown` passes on for the group that it finds for a gid. -/
theorem regroup_database (gid : UInt32) :
    numberOf (grouptogid records.database.stack records.database.group)
        (gidtogroup records.database.stack records.database.group gid) =
      records.regroup gid := by
  by_cases empty : records.group = []
  · have nothing : gidtogroup records.database.stack records.database.group gid = none := by
      unfold Records.database
      rw [empty]
      rfl
    unfold Records.regroup
    rw [nothing, empty]
    rfl
  · have found := gidtogroup_eq empty records.groupShort records.stack gid
    change gidtogroup records.database.stack records.database.group gid = _ at found
    unfold Records.regroup
    rw [found]
    cases entry : records.group.find? (GroupRecord.numbered gid) with
    | none => rfl
    | some record =>
      -- the group that was found by its number has a name, so one is found by the name
      have named : (records.groupNamed record.name).isSome = true :=
        List.find?_isSome.mpr ⟨record, mem_of_find?_eq_some entry, decide_eq_true rfl⟩
      change numberOr record.name.text _ = numberOr record.name.text _
      rw [grouptogid_database named]

theorem chownNumbers_user (found : (records.user user).isSome = true)
    (long : user.text.length ≠ 1) :
    chownNumbers records.database user.text = .ok (numberOr user.text (records.uidOf user), -1) := by
  have length_pos := length_pos_of_ne_nil user.nonempty
  unfold chownNumbers
  rw [if_neg (by omega), chownNames_user]
  dsimp only [numberOf]
  rw [usertouid_database found]

theorem chownNumbers_group (found : (records.groupNamed group).isSome = true) :
    chownNumbers records.database (colon :: group.text) =
      .ok (-1, numberOr group.text (records.gidOf group)) := by
  unfold chownNumbers
  rw [if_neg (by simpa using group.nonempty), chownNames_group]
  dsimp only [numberOf]
  rw [grouptogid_database found]

theorem chownNumbers_login (found : (records.user user).isSome = true) :
    chownNumbers records.database (user.text ++ [colon]) =
      .ok (numberOr user.text (records.uidOf user), records.loginGroup (records.uidOf user)) := by
  have login := uidtogid_eq (passwd_ne_nil found) records.passwdShort records.stack (records.uidOf user)
  change uidtogid records.database.stack records.database.passwd _ = _ at login
  unfold chownNumbers
  rw [if_neg (by simpa using user.nonempty), chownNames_login]
  dsimp only
  rw [regroup_database, usertouid_database found, login]
  dsimp only [numberOf]
  rw [usertouid_database found]
  rfl

theorem chownNumbers_both (found : (records.user user).isSome = true)
    (found' : (records.groupNamed group).isSome = true) :
    chownNumbers records.database (user.text ++ colon :: group.text) =
      .ok (numberOr user.text (records.uidOf user), numberOr group.text (records.gidOf group)) := by
  have length_pos := length_pos_of_ne_nil user.nonempty
  unfold chownNumbers
  rw [if_neg (by simp; omega), chownNames_both]
  dsimp only [numberOf]
  rw [usertouid_database found, grouptogid_database found']

theorem chgrpNumbers_eq (found : (records.groupNamed group).isSome = true) :
    chgrpNumbers records.database group.text =
      if numberOr group.text (records.gidOf group) = -1 ∨ records.group.find?
          (GroupRecord.numbered (numberOr group.text (records.gidOf group))) = none
      then .error "chgrp: invalid gid\n"
      else .ok (-1, numberOr group.text (records.gidOf group)) := by
  have some_record := group_ne_nil found
  have exists_iff : ∀ gid, gidexists records.database.stack records.database.group gid = -1 ↔
      records.group.find? (GroupRecord.numbered gid) = none := by
    intro gid
    have looked := gidexists_eq some_record records.groupShort records.stack gid
    change gidexists records.database.stack records.database.group gid = _ at looked
    rw [looked]
    cases records.group.find? (GroupRecord.numbered gid) with
    | none => exact iff_of_true rfl rfl
    | some record =>
      have one : (1 : UInt32) ≠ -1 := by decide
      exact iff_of_false one (Option.some_ne_none record)
  unfold chgrpNumbers
  dsimp only
  rw [grouptogid_database found]
  simp only [exists_iff]

end Numbers

/-! ## The effect on an inode -/

theorem owners_eq_iff {dip : Dinode} {uid uid' gid gid' : UInt32} :
    { dip with uid := uid, gid := gid } = { dip with uid := uid', gid := gid' } ↔
      uid = uid' ∧ gid = gid' := by
  constructor
  · intro same
    exact ⟨congrArg Dinode.uid same, congrArg Dinode.gid same⟩
  · rintro ⟨rfl, rfl⟩
    rfl

theorem chowned_eq_iff {dip : Dinode} {owner group uid gid : UInt32} :
    chowned owner group dip = { dip with uid := uid, gid := gid } ↔
      (if owner = -1 then dip.uid else owner) = uid ∧ group = gid :=
  owners_eq_iff

/-- `chown` does as it is asked under its conditions only. -/
theorem chown_fulfils_iff {records : Records} {asked : Asked} (resolves : asked.Resolves records)
    (dip : Dinode) : applied (chownNumbers records.database asked.argument) dip =
      asked.wanted records dip ↔ Fulfils records dip asked := by
  cases asked with
  | user u =>
    change applied (chownNumbers records.database u.text) dip = _ ↔
      if u.text.length = 1 then dip.uid = records.uidOf u
      else records.Settable dip u ∧ dip.gid = -1
    split
    · rename_i short
      have refused : chownNumbers records.database u.text = .error "chown: invalid args\n" :=
        if_pos short.le
      rw [refused]
      exact owners_eq_iff.trans (and_iff_left rfl)
    · rename_i long
      rw [chownNumbers_user resolves long]
      refine chowned_eq_iff.trans (and_congr settable_iff ?_)
      exact eq_comm
  | group g =>
    change applied (chownNumbers records.database (colon :: g.text)) dip = _ ↔ _
    rw [chownNumbers_group resolves]
    refine chowned_eq_iff.trans ?_
    rw [if_pos rfl]
    exact (and_iff_right rfl).trans numberOr_eq_iff
  | login u =>
    change applied (chownNumbers records.database (u.text ++ [colon])) dip = _ ↔ _
    rw [chownNumbers_login resolves]
    exact chowned_eq_iff.trans (and_congr settable_iff Iff.rfl)
  | both u g =>
    change applied (chownNumbers records.database (u.text ++ colon :: g.text)) dip = _ ↔ _
    rw [chownNumbers_both resolves.1 resolves.2]
    exact chowned_eq_iff.trans (and_congr settable_iff numberOr_eq_iff)

/-- So does `chgrp`. -/
theorem chgrp_fulfils_iff {records : Records} {group : Field}
    (found : (records.groupNamed group).isSome = true) (dip : Dinode) :
    applied (chgrpNumbers records.database group.text) dip =
      (Asked.group group).wanted records dip ↔ FulfilsGroup records dip group := by
  rw [chgrpNumbers_eq found]
  unfold FulfilsGroup
  split
  · exact owners_eq_iff.trans (and_iff_right rfl)
  · refine chowned_eq_iff.trans ?_
    rw [if_pos rfl]
    exact (and_iff_right rfl).trans numberOr_eq_iff

/-! ## The effect on the disk -/

/-- A call left this inode to a file, and nothing else on the disk is changed. -/
def Chowned (owner group : UInt32) (path : Path) (before after : Kernel) : Prop :=
  ∀ found looked, Looks before path found looked →
    after.disk = match found with
      | none => looked.disk
      | some ip => looked.disk.setDinode (looked.icache ip).inum
          (chowned owner group (looked.store.current ip))

/-- One call after another did. -/
def ChownedAll (owner group : UInt32) : List Path → Kernel → Kernel → Prop
  | [], before, after => after = before
  | path :: paths, before, after =>
    ∃ middle, Chowned owner group path before middle ∧ ChownedAll owner group paths middle after

/-- What a program printed and did that has found these numbers. -/
def Done (files : List Path) (before : Kernel) (message : Option String) (after : Kernel) :
    Except String (UInt32 × UInt32) → Prop
  | .error text => message = some text ∧ after = before
  | .ok (owner, group) => message = none ∧ ChownedAll owner group files before after

/-- The inode is locked, and its new owners go to the disk with the rest of it. -/
theorem sat_chownInode (kernel : Kernel) (owner group : UInt32) (ip : InodePtr) :
    Sat (chownInode owner group ip) kernel (fun _ after =>
      after.disk = kernel.disk.setDinode (kernel.icache ip).inum
        (chowned owner group (kernel.store.current ip))) fun _ _ => True := by
  have locking := (@stores_ilock (fun _ => True) _ ip (.inl trivial) (lockable_any _ ip) (.inl trivial) kernel rfl).returning
  refine .bind locking fun _ locked outcome => ?_
  obtain ⟨_, _, _, locked_eq⟩ := outcome
  have owning : Stores (fun _ => True) (when (owner ≠ 0xffffffff)
      (writeInode ip fun inode => { inode with uid := owner })) locked.store fun _ after =>
        after = locked.store.setInode ip { locked.store.icache ip with
          uid := if owner = -1 then (locked.store.icache ip).uid else owner } := by
    have largest : (0xffffffff : UInt32) = -1 := by decide
    rw [largest]
    refine Track.when (fun absent => ?_) fun given => Track.mono (stores_writeInode ip _)
      fun _ after owned => ?_
    · rw [if_pos (not_not.mp absent)]
      exact Store.ext rfl rfl (Function.update_eq_self ip _).symm rfl rfl
    · rw [owned, if_neg given]
  refine .bind (owning locked rfl) fun _ owned owned_eq => ?_
  have writing := (@stores_writeInode (fun _ => True) owned.store ip
    (fun inode => { inode with gid := group }) owned rfl).returning
  refine .bind writing fun _ written written_eq => ?_
  refine (sat_flush written ip).weaken fun _ after flushed => ?_
  rw [flushed.2, written_eq, owned_eq, locked_eq]
  unfold Store.flushed Store.load
  simp only [icache_setInode_self]
  rfl

/-- `sys_chown` by root. -/
theorem sat_sysChown {kernel : Kernel} (root : kernel.myproc.uid = 0) (path : Path)
    (owner group : UInt32) :
    Sat (sysChown (some path) (some owner) (some group)) kernel
      (fun _ after => Chowned owner group path kernel after ∧ after.myproc.uid = 0)
      fun _ _ => True := by
  have steady := steady_frame.sysChown (some path) (some owner) (some group) kernel
  refine ((sat_run _ kernel).and steady).mono ?_ fun _ _ _ => trivial
  rintro code after ⟨run, same⟩
  refine ⟨fun found looked looks => ?_, ?_⟩
  · have body : sysChown (some path) (some owner) (some group) kernel =
        (do beginOp; withInode path (chownInode owner group)) kernel := by
      change (if kernel.myproc.uid ≠ 0 then _ else _ : Kern Int) kernel = _
      rw [if_neg (not_not.mpr root)]
    have rest : proceed (chownInode owner group) found looked = .ok code after :=
      (looks.run_eq _).symm.trans (body.symm.trans run)
    cases found with
    | none =>
      obtain ⟨_, failed, disk_eq⟩ := fails_quiet looks.quiet
      cases failed.symm.trans rest
      exact disk_eq
    | some ip => exact (sat_chownInode looked owner group ip).ok rest
  · unfold Kernel.myproc
    rw [same.ptable, same.cur]
    exact root

/-- The loop over the files. -/
theorem sat_chownFiles {kernel : Kernel} (root : kernel.myproc.uid = 0) (files : List Path)
    (numbers : Except String (UInt32 × UInt32)) :
    Sat (chownFiles files numbers) kernel (fun message after => Done files kernel message after numbers)
      fun _ _ => True := by
  cases numbers with
  | error text => exact ⟨rfl, rfl⟩
  | ok numbers =>
    obtain ⟨owner, group⟩ := numbers
    have loop : Sat (forM files fun file => do
        let _ ← sysChown (some file) (some owner) (some group)
        pure () : Kern Unit) kernel (fun _ after => ChownedAll owner group files kernel after)
        fun _ _ => True := by
      induction files generalizing kernel with
      | nil => exact rfl
      | cons file files ih =>
        rw [forM_cons]
        have first : Sat (do
            let _ ← sysChown (some file) (some owner) (some group)
            pure () : Kern Unit) kernel
            (fun _ middle => Chowned owner group file kernel middle ∧ middle.myproc.uid = 0)
            fun _ _ => True :=
          .bind (sat_sysChown root file owner group) fun _ _ done => sat_pure.mpr done
        refine .bind first fun _ middle done => ?_
        exact (ih done.2).weaken fun _ after later => ⟨middle, done.1, later⟩
    exact .bind loop fun _ after done => ⟨rfl, done⟩

/-- The group of root. -/
def rootGroup : GroupRecord where
  name := .of [114, 111, 111, 116] (.refl true)
  gid := .of [48] (.refl true)
  members := .of [114, 111, 111, 116] (.refl true)

/-- Nobody but root. -/
def rootOnly : Records :=
  { stack := [], passwd := [rootRecord], group := [rootGroup], passwdShort := by decide
    groupShort := by decide }

/-- Init, and a file that belongs to the group 7. -/
def groupSeven : Kernel :=
  .boot (.image 0o755 [(2, [102])] [.single .file 1 0 85 0o644 1000 7] [fun _ => 0])

end Xv6.Attributes
