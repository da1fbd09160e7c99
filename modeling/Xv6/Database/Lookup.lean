import Xv6.Database.Format

/-!
# What the lookups return

On a file of records the lookups of `auth.c` return the field they are for, of the first
record that has the name or the number. There are two exceptions: all of them return 0
for an empty file, which is not what some of them return otherwise if they find nothing;
and a number that `atoi` reads as -1 cannot be told from the number that stands for none.
-/

namespace Xv6.Database

open User List

/-- A line of `/etc/passwd`. -/
structure PasswdRecord where
  name : Field
  pass : Field
  uid : Field
  gid : Field
  realname : Field
  dir : Field

namespace PasswdRecord

def fields (record : PasswdRecord) : List Field :=
  [record.name, record.pass, record.uid, record.gid, record.realname, record.dir]

/-- The uid and the gid as numbers. -/
def uidNumber (record : PasswdRecord) : UInt32 := (atoi record.uid.text).toUInt32

def gidNumber (record : PasswdRecord) : UInt32 := (atoi record.gid.text).toUInt32

def named (name : List Byte) (record : PasswdRecord) : Bool := record.name.text = name

def numbered (uid : UInt32) (record : PasswdRecord) : Bool := record.uidNumber = uid

end PasswdRecord

/-- A line of `/etc/group`. -/
structure GroupRecord where
  name : Field
  gid : Field
  members : Field

namespace GroupRecord

def fields (record : GroupRecord) : List Field := [record.name, record.gid, record.members]

def gidNumber (record : GroupRecord) : UInt32 := (atoi record.gid.text).toUInt32

def named (name : List Byte) (record : GroupRecord) : Bool := record.name.text = name

def numbered (gid : UInt32) (record : GroupRecord) : Bool := record.gidNumber = gid

end GroupRecord

def passwdFile (records : List PasswdRecord) : List Byte :=
  serialize (records.map PasswdRecord.fields)

def groupFile (records : List GroupRecord) : List Byte := serialize (records.map GroupRecord.fields)

/-- Strings are equal if `strcmp` says so. -/
theorem strcmp_eq_zero {p q : List Byte} (p_string : 0 ∉ p) (q_string : 0 ∉ q) :
    strcmp p q = 0 ↔ p = q := by
  have positive : ∀ {c : Byte} {cs : List Byte}, 0 ∉ c :: cs → c.toNat ≠ 0 := by
    intro c cs string zero
    apply string
    rw [show (0 : Byte) = c from (UInt8.toNat_inj.mp zero).symm]
    exact mem_cons_self
  induction p generalizing q with
  | nil =>
    cases q with
    | nil => exact iff_of_true rfl rfl
    | cons c q =>
      have := positive q_string
      refine iff_of_false ?_ (cons_ne_nil _ _).symm
      change (0 : Int) - c.toNat ≠ 0
      omega
  | cons c p ih =>
    cases q with
    | nil =>
      have := positive p_string
      refine iff_of_false ?_ (cons_ne_nil _ _)
      change (c.toNat : Int) ≠ 0
      omega
    | cons d q =>
      unfold strcmp
      split
      · rename_i same
        have rest := ih
          (fun member => p_string (mem_cons_of_mem _ member))
          (fun member => q_string (mem_cons_of_mem _ member))
        refine ⟨fun equal => ?_, fun equal => rest.mpr (List.cons.inj equal).2⟩
        rw [same, rest.mp equal]
      · rename_i different
        refine iff_of_false ?_ (fun same => different (List.cons.inj same).1)
        intro equal
        apply different
        apply UInt8.toNat_inj.mp
        omega

/-- A lookup whose value is a pointer returns NULL if it finds nothing. -/
theorem getD_map_some {Record Value : Type} {found : Option Record} {value : Record → Value} :
    (found.map fun record => some (value record)).getD none = found.map value := by
  cases found with
  | none => rfl
  | some record => rfl

theorem Field.string (field : Field) : 0 ∉ field.text := by
  intro member
  exact (field.clean 0 member).2.2 rfl

/-- A lookup that returns at the first record of some kind. -/
theorem lookup_find {Record State Result : Type} {table : Table} (proper : Proper table)
    {visit : Nat → List Byte → State → Visit State Result} (fields : Record → List Field)
    {records : List Record} (some_record : records ≠ [])
    (columns : ∀ line ∈ records.map fields, line.length = table.columns)
    (short : (serialize (records.map fields)).length < BUFF) (stack : List Byte)
    (wanted : Record → Bool) (value : Record → Result) (between : State → Prop)
    (found : ∀ record state, between state → wanted record = true →
      visitFields visit 0 (fields record) state = .stop (value record))
    (missed : ∀ record state, between state → wanted record = false →
      ∃ next, visitFields visit 0 (fields record) state = .go next ∧ between next)
    {start : State} (between_start : between start) (failed missing : Result) :
    lookup table visit start failed (fun _ => missing) stack
        (some (serialize (records.map fields))) =
      ((records.find? wanted).map value).getD missing := by
  rw [lookup_records proper (fun empty => some_record (map_eq_nil_iff.mp empty)) columns short]
  exact visitRecords_find fields wanted value between found missed missing records between_start

/-! ## `/etc/passwd` -/

theorem proper_passwdTable : Proper passwdTable := rfl

theorem passwd_columns (records : List PasswdRecord) :
    ∀ fields ∈ records.map PasswdRecord.fields, fields.length = passwdTable.columns := by
  intro fields member
  obtain ⟨record, _, rfl⟩ := mem_map.mp member
  rfl

section Passwd

open PasswdRecord

variable {records : List PasswdRecord} (some_record : records ≠ [])
  (short : (passwdFile records).length < BUFF) (stack : List Byte)

include some_record short

theorem uidtouser_eq (uid : UInt32) :
    uidtouser stack (some (passwdFile records)) uid =
      (records.find? (numbered uid)).map fun record => record.name.text := by
  refine (lookup_find proper_passwdTable fields some_record (passwd_columns records)
    short stack (numbered uid) (fun record => some record.name.text)
    (fun _ => True) ?_ ?_ trivial none none).trans getD_map_some
  · intro record state _ wanted
    have same : (atoi record.uid.text).toUInt32 = uid := of_decide_eq_true wanted
    simp [fields, visitFields, Visit.andThen, same]
  · intro record state _ wanted
    have different : (atoi record.uid.text).toUInt32 ≠ uid := of_decide_eq_false wanted
    simp [fields, visitFields, Visit.andThen, different]

theorem uidtopass_eq (uid : UInt32) :
    uidtopass stack (some (passwdFile records)) uid =
      (records.find? (numbered uid)).map fun record => record.pass.text := by
  refine (lookup_find proper_passwdTable fields some_record (passwd_columns records)
    short stack (numbered uid) (fun record => some record.pass.text)
    (fun _ => True) ?_ ?_ trivial none none).trans getD_map_some
  · intro record state _ wanted
    have same : (atoi record.uid.text).toUInt32 = uid := of_decide_eq_true wanted
    simp [fields, visitFields, Visit.andThen, same]
  · intro record state _ wanted
    have different : (atoi record.uid.text).toUInt32 ≠ uid := of_decide_eq_false wanted
    simp [fields, visitFields, Visit.andThen, different]

theorem uidtodir_eq (uid : UInt32) :
    uidtodir stack (some (passwdFile records)) uid =
      (records.find? (numbered uid)).map fun record => record.dir.text := by
  refine (lookup_find proper_passwdTable fields some_record (passwd_columns records)
    short stack (numbered uid) (fun record => some record.dir.text)
    (fun found => found = false) ?_ ?_ rfl none none).trans getD_map_some
  · rintro record state rfl wanted
    have same : (atoi record.uid.text).toUInt32 = uid := of_decide_eq_true wanted
    simp [fields, visitFields, Visit.andThen, same]
  · rintro record state rfl wanted
    have different : (atoi record.uid.text).toUInt32 ≠ uid := of_decide_eq_false wanted
    simp [fields, visitFields, Visit.andThen, different]

theorem uidtogid_eq (uid : UInt32) :
    uidtogid stack (some (passwdFile records)) uid =
      ((records.find? (numbered uid)).map gidNumber).getD (-1) := by
  refine lookup_find proper_passwdTable fields some_record (passwd_columns records)
    short stack (numbered uid) gidNumber (fun found => found = false) ?_ ?_ rfl 0 (-1)
  · rintro record state rfl wanted
    have same : uid = (atoi record.uid.text).toUInt32 := (of_decide_eq_true wanted).symm
    simp [fields, visitFields, Visit.andThen, gidNumber, same]
  · rintro record state rfl wanted
    have different : uid ≠ (atoi record.uid.text).toUInt32 :=
      fun same => of_decide_eq_false wanted same.symm
    simp [fields, visitFields, Visit.andThen, different]

theorem usertouid_eq {name : List Byte} (string : 0 ∉ name) :
    usertouid stack (some (passwdFile records)) name =
      ((records.find? (named name)).map uidNumber).getD (-1) := by
  refine lookup_find proper_passwdTable fields some_record (passwd_columns records)
    short stack (named name) uidNumber (fun found => found = false) ?_ ?_ rfl 0 (-1)
  · rintro record state rfl wanted
    have same : strcmp name record.name.text = 0 :=
      (strcmp_eq_zero string record.name.string).mpr (of_decide_eq_true wanted).symm
    simp [fields, visitFields, Visit.andThen, uidNumber, same]
  · rintro record state rfl wanted
    have different : strcmp name record.name.text ≠ 0 := fun same =>
      of_decide_eq_false wanted ((strcmp_eq_zero string record.name.string).mp same).symm
    simp [fields, visitFields, Visit.andThen, different]

theorem validateuserpass_eq (uid : UInt32) {pass : List Byte} (string : 0 ∉ pass) :
    validateuserpass stack (some (passwdFile records)) uid pass =
      ((records.find? (numbered uid)).map fun record =>
        if pass = record.pass.text then 1 else 0).getD 0 := by
  refine lookup_find proper_passwdTable fields some_record (passwd_columns records)
    short stack (numbered uid) _ (fun _ => True) ?_ ?_ trivial 0 0
  · intro record state _ wanted
    have same : (atoi record.uid.text).toUInt32 = uid := of_decide_eq_true wanted
    simp [fields, visitFields, Visit.andThen, same,
      strcmp_eq_zero string record.pass.string]
  · intro record state _ wanted
    have different : (atoi record.uid.text).toUInt32 ≠ uid := of_decide_eq_false wanted
    simp [fields, visitFields, Visit.andThen, different]

end Passwd

/-! ## `/etc/group` -/

theorem proper_groupTable : Proper groupTable := rfl

theorem group_columns (records : List GroupRecord) :
    ∀ fields ∈ records.map GroupRecord.fields, fields.length = groupTable.columns := by
  intro fields member
  obtain ⟨record, _, rfl⟩ := mem_map.mp member
  rfl

section Group

open GroupRecord

variable {records : List GroupRecord} (some_record : records ≠ [])
  (short : (groupFile records).length < BUFF) (stack : List Byte)

include some_record short

theorem gidtogroup_eq (gid : UInt32) :
    gidtogroup stack (some (groupFile records)) gid =
      (records.find? (numbered gid)).map fun record => record.name.text := by
  refine (lookup_find proper_groupTable fields some_record (group_columns records)
    short stack (numbered gid) (fun record => some record.name.text)
    (fun _ => True) ?_ ?_ trivial none none).trans getD_map_some
  · intro record state _ wanted
    have same : (atoi record.gid.text).toUInt32 = gid := of_decide_eq_true wanted
    simp [fields, visitFields, Visit.andThen, same]
  · intro record state _ wanted
    have different : (atoi record.gid.text).toUInt32 ≠ gid := of_decide_eq_false wanted
    simp [fields, visitFields, Visit.andThen, different]

theorem grouptogid_eq {name : List Byte} (string : 0 ∉ name) :
    grouptogid stack (some (groupFile records)) name =
      ((records.find? (named name)).map gidNumber).getD (-1) := by
  refine lookup_find proper_groupTable fields some_record (group_columns records)
    short stack (named name) gidNumber (fun found => found = false) ?_ ?_ rfl 0 (-1)
  · rintro record state rfl wanted
    have same : strcmp name record.name.text = 0 :=
      (strcmp_eq_zero string record.name.string).mpr (of_decide_eq_true wanted).symm
    simp [fields, visitFields, Visit.andThen, gidNumber, same]
  · rintro record state rfl wanted
    have different : strcmp name record.name.text ≠ 0 := fun same =>
      of_decide_eq_false wanted ((strcmp_eq_zero string record.name.string).mp same).symm
    simp [fields, visitFields, Visit.andThen, different]

theorem gidexists_eq (gid : UInt32) :
    gidexists stack (some (groupFile records)) gid =
      ((records.find? (numbered gid)).map fun _ => 1).getD (-1) := by
  refine lookup_find proper_groupTable fields some_record (group_columns records)
    short stack (numbered gid) _ (fun _ => True) ?_ ?_ trivial 0 (-1)
  · intro record state _ wanted
    have same : gid = (atoi record.gid.text).toUInt32 := (of_decide_eq_true wanted).symm
    simp [fields, visitFields, Visit.andThen, presentVisit, same]
  · intro record state _ wanted
    have different : gid ≠ (atoi record.gid.text).toUInt32 :=
      fun same => of_decide_eq_false wanted same.symm
    simp [fields, visitFields, Visit.andThen, presentVisit, different]

end Group

/-! ## All lookups -/

/-- A number is returned for the first record of some kind, and -1 just when there is none. -/
def Returns {Record : Type} (result : UInt32) (found : Option Record) (number : Record → UInt32) :
    Prop :=
  (∀ record, found = some record → result = number record) ∧ (result = -1 ↔ found = none)

/-- The lookups in `/etc/passwd` return the fields of the first record with the name, or
with the uid. -/
structure PasswdDecodes (stack : List Byte) (records : List PasswdRecord) (name pass : List Byte)
    (uid : UInt32) : Prop where
  usertouid : Returns (usertouid stack (some (passwdFile records)) name)
    (records.find? (PasswdRecord.named name)) PasswdRecord.uidNumber
  uidtogid : Returns (uidtogid stack (some (passwdFile records)) uid)
    (records.find? (PasswdRecord.numbered uid)) PasswdRecord.gidNumber
  uidtouser : uidtouser stack (some (passwdFile records)) uid =
    (records.find? (PasswdRecord.numbered uid)).map fun record => record.name.text
  uidtopass : uidtopass stack (some (passwdFile records)) uid =
    (records.find? (PasswdRecord.numbered uid)).map fun record => record.pass.text
  uidtodir : uidtodir stack (some (passwdFile records)) uid =
    (records.find? (PasswdRecord.numbered uid)).map fun record => record.dir.text
  validateuserpass : validateuserpass stack (some (passwdFile records)) uid pass =
    ((records.find? (PasswdRecord.numbered uid)).map fun record =>
      if pass = record.pass.text then 1 else 0).getD 0

/-- The lookups in `/etc/group` return the fields of the first record with the name, or
with the gid. -/
structure GroupDecodes (stack : List Byte) (records : List GroupRecord) (name : List Byte)
    (gid : UInt32) : Prop where
  grouptogid : Returns (grouptogid stack (some (groupFile records)) name)
    (records.find? (GroupRecord.named name)) GroupRecord.gidNumber
  gidtogroup : gidtogroup stack (some (groupFile records)) gid =
    (records.find? (GroupRecord.numbered gid)).map fun record => record.name.text
  gidexists : Returns (gidexists stack (some (groupFile records)) gid)
    (records.find? (GroupRecord.numbered gid)) fun _ => 1

/-- A lookup of a number is in order just when the number found does not look like none. -/
theorem returns_iff {Record : Type} {found : Option Record} {number : Record → UInt32} :
    Returns ((found.map number).getD (-1)) found number ↔
      ∀ record, found = some record → number record ≠ -1 := by
  cases found with
  | none =>
    refine iff_of_true ⟨fun record absurdity => (nomatch absurdity), ?_⟩
      fun record absurdity => (nomatch absurdity)
    exact iff_of_true rfl rfl
  | some found =>
    constructor
    · rintro ⟨_, none_iff⟩ record same looks
      cases same
      cases none_iff.mp looks
    · intro visible
      refine ⟨fun record same => ?_, fun looks => absurd looks (visible found rfl),
        fun absurdity => (nomatch absurdity)⟩
      cases same
      rfl

/-- An empty file: 0 is returned. -/
theorem not_returns_empty {Record : Type} {number : Record → UInt32} :
    ¬ Returns 0 (none : Option Record) number := by
  intro returns
  exact absurd (returns.2.mpr rfl) (by decide)

/-- For every list of records that makes a file shorter than the buffers, every name,
password, uid and gid: the lookups return the corresponding field of the first record, and
the value for none just when there is none, if and only if the file is not empty and the
number found, where a number is looked up, is not the one that stands for none. -/
theorem database_lookups (stack : List Byte) :
    (∀ (records : List PasswdRecord) (name pass : List Byte) (uid : UInt32),
      (passwdFile records).length < BUFF → 0 ∉ name → 0 ∉ pass →
      (PasswdDecodes stack records name pass uid ↔
        records ≠ [] ∧
        (∀ record, records.find? (PasswdRecord.named name) = some record →
          record.uidNumber ≠ -1) ∧
        (∀ record, records.find? (PasswdRecord.numbered uid) = some record →
          record.gidNumber ≠ -1))) ∧
    (∀ (records : List GroupRecord) (name : List Byte) (gid : UInt32),
      (groupFile records).length < BUFF → 0 ∉ name →
      (GroupDecodes stack records name gid ↔
        records ≠ [] ∧
        (∀ record, records.find? (GroupRecord.named name) = some record →
          record.gidNumber ≠ -1))) := by
  refine ⟨?_, ?_⟩
  · intro records name pass uid short name_string pass_string
    by_cases empty : records = []
    · subst empty
      refine iff_of_false (fun decodes => not_returns_empty decodes.usertouid) ?_
      rintro ⟨absurdity, _⟩
      exact absurdity rfl
    · constructor
      · rintro ⟨byName, byNumber, _⟩
        rw [usertouid_eq empty short stack name_string] at byName
        rw [uidtogid_eq empty short stack] at byNumber
        exact ⟨empty, returns_iff.mp byName, returns_iff.mp byNumber⟩
      · rintro ⟨_, byName, byNumber⟩
        constructor
        · rw [usertouid_eq empty short stack name_string]
          exact returns_iff.mpr byName
        · rw [uidtogid_eq empty short stack]
          exact returns_iff.mpr byNumber
        · exact uidtouser_eq empty short stack uid
        · exact uidtopass_eq empty short stack uid
        · exact uidtodir_eq empty short stack uid
        · exact validateuserpass_eq empty short stack uid pass_string
  · intro records name gid short string
    by_cases empty : records = []
    · subst empty
      refine iff_of_false (fun decodes => not_returns_empty decodes.grouptogid) ?_
      rintro ⟨absurdity, _⟩
      exact absurdity rfl
    · constructor
      · rintro ⟨byName, _⟩
        rw [grouptogid_eq empty short stack string] at byName
        exact ⟨empty, returns_iff.mp byName⟩
      · rintro ⟨_, byName⟩
        constructor
        · rw [grouptogid_eq empty short stack string]
          exact returns_iff.mpr byName
        · exact gidtogroup_eq empty short stack gid
        · rw [gidexists_eq empty short stack]
          refine returns_iff.mpr fun record _ => ?_
          decide

/-- The line of root in the `/etc/passwd` that comes with the system. -/
def rootRecord : PasswdRecord where
  name := .of [114, 111, 111, 116] (.refl true)
  pass := .of [112, 97, 115, 115, 119, 111, 114, 100] (.refl true)
  uid := .of [48] (.refl true)
  gid := .of [48] (.refl true)
  realname := .of [83, 117, 112, 101, 114, 117, 115, 101, 114] (.refl true)
  dir := .of [47, 104, 111, 109, 101, 47, 114, 111, 111, 116] (.refl true)

theorem database_lookups_rootRecord :
    PasswdDecodes [] [rootRecord] [114, 111, 111, 116] [112, 97, 115, 115] 0 := by
  refine ((database_lookups []).1 [rootRecord] _ _ 0 (by decide) (by decide) (by decide)).mpr
    ⟨cons_ne_nil _ _, ?_, ?_⟩
  · intro record found
    cases found
    decide
  · intro record found
    cases found
    decide

/-- In a file without any record, bob is found to be root. -/
theorem usertouid_of_empty_file :
    ([] : List PasswdRecord).find? (PasswdRecord.named [98, 111, 98]) = none ∧
      usertouid [] (some (passwdFile [])) [98, 111, 98] = 0 :=
  ⟨rfl, rfl⟩

end Xv6.Database
