import Xv6.Database.Lookup
import Xv6.User.Getty

/-!
# Whom `getty` lets in

The name leads to a uid by the first record with that name, and the uid to a password by
the first record with that uid. These are the same record, or as good as the same, if
the name determines the uid and the uid the password. Otherwise somebody logs in with
the password of another record, or cannot log in with their own.
-/

namespace Xv6.Database

open User List Option PasswdRecord

variable {name pass : List Byte} {records : List PasswdRecord}

/-- A line that can be typed: `gets` stops at a newline or a carriage return. -/
structure Typed (size : Nat) (text : List Byte) : Prop where
  string : 0 ∉ text
  line : ∀ c ∈ text, c ≠ 10 ∧ c ≠ 13
  short : text.length + 1 < size

/-- `gets` reads a typed line with its newline. -/
theorem gets_line {text : List Byte} (line : ∀ c ∈ text, c ≠ 10 ∧ c ≠ 13) {max : Nat}
    (short : text.length < max) (rest : List Byte) :
    gets max (text ++ newline :: rest) = (text ++ [newline], rest) := by
  induction text generalizing max with
  | nil =>
    obtain ⟨max, rfl⟩ := Nat.exists_eq_add_of_lt short
    rfl
  | cons c text ih =>
    obtain ⟨left, rfl⟩ := Nat.exists_eq_add_of_lt short
    obtain ⟨notNewline, notReturn⟩ := line c mem_cons_self
    change gets ((c :: text).length + left + 1) (c :: (text ++ newline :: rest)) = _
    unfold gets
    rw [if_neg (not_or.mpr ⟨notNewline, notReturn⟩),
      ih (fun c member => line c (mem_cons_of_mem _ member))
        (by simp only [length_cons]; omega)]
    rfl

section Searches

variable {records : List PasswdRecord} {record : PasswdRecord}

theorem of_find_named (found : records.find? (PasswdRecord.named name) = some record) :
    record ∈ records ∧ record.name.text = name := by
  have named := List.find?_some found
  exact ⟨mem_of_find?_eq_some found, of_decide_eq_true named⟩

theorem of_find_numbered {uid : UInt32}
    (found : records.find? (PasswdRecord.numbered uid) = some record) :
    record ∈ records ∧ record.uidNumber = uid := by
  have numbered := List.find?_some found
  exact ⟨mem_of_find?_eq_some found, of_decide_eq_true numbered⟩

theorem find_named (member : record ∈ records) :
    ∃ first, records.find? (PasswdRecord.named record.name.text) = some first := by
  rw [← isSome_iff_exists, List.find?_isSome]
  exact ⟨record, member, decide_eq_true rfl⟩

theorem find_numbered (member : record ∈ records) :
    ∃ first, records.find? (PasswdRecord.numbered record.uidNumber) = some first := by
  rw [← isSome_iff_exists, List.find?_isSome]
  exact ⟨record, member, decide_eq_true rfl⟩

end Searches

/-- The outcome of an attempt on a file of records, by two searches. -/
def admitted (records : List PasswdRecord) (name pass : List Byte) : Option Int32 :=
  match records.find? (PasswdRecord.named name) with
  | none => none
  | some record =>
    if atoi record.uid.text < 0 then none
    else
      if (records.find? (PasswdRecord.numbered record.uidNumber)).map (·.pass.text) = some pass then
        some (atoi record.uid.text)
      else none

theorem attempt_eq (some_record : records ≠ []) (short : (passwdFile records).length < BUFF)
    (stack page : List Byte) (name_typed : Typed 30 name) (pass_typed : Typed 32 pass)
    (rest : List Byte) :
    (attempt stack (some (passwdFile records)) page
      (name ++ newline :: (pass ++ newline :: rest))).1 = admitted records name pass := by
  have name_short : name.length < 29 := Nat.lt_of_succ_lt_succ name_typed.short
  have pass_short : pass.length < 31 := Nat.lt_of_succ_lt_succ pass_typed.short
  unfold attempt admitted
  rw [gets_line name_typed.line name_short]
  dsimp only
  rw [gets_line pass_typed.line pass_short]
  dsimp only
  rw [dropLast_concat, dropLast_concat, usertouid_eq some_record short stack
    name_typed.string]
  cases found : records.find? (named name) with
  | none => rfl
  | some record =>
    have number_eq : ((some record).map uidNumber).getD (-1) =
        (atoi record.uid.text).toUInt32 := rfl
    rw [number_eq, Int32.toInt32_toUInt32, uidtopass_eq some_record short stack]
    dsimp only
    split
    · rfl
    · -- The record itself has the uid, so the second search finds one.
      obtain ⟨other, other_eq⟩ := find_numbered (of_find_named found).1
      change (if strcmp (((records.find? (numbered record.uidNumber)).map
        fun record => record.pass.text).getD page) pass ≠ 0 then _ else _ : Option Int32 × _).1 = _
      rw [other_eq]
      dsimp only [map_some, getD_some]
      by_cases same : other.pass.text = pass
      · rw [if_neg (not_not.mpr ((strcmp_eq_zero other.pass.string pass_typed.string).mpr same)),
          if_pos (congrArg some same)]
      · rw [if_pos fun equal => same
          ((strcmp_eq_zero other.pass.string pass_typed.string).mp equal),
          if_neg fun equal => same (Option.some.inj equal)]

/-- The name determines the uid and the uid the password, and every uid is one that `getty`
does not take for an error. -/
structure Unambiguous (records : List PasswdRecord) : Prop where
  visible : ∀ record ∈ records, 0 ≤ atoi record.uid.text
  uid : ∀ record ∈ records, ∀ record' ∈ records, record.name.text = record'.name.text →
    record.uidNumber = record'.uidNumber
  pass : ∀ record ∈ records, ∀ record' ∈ records, record.uidNumber = record'.uidNumber →
    record.pass.text = record'.pass.text

theorem atoi_eq_of_uidNumber_eq {record record' : PasswdRecord}
    (same : record.uidNumber = record'.uidNumber) : atoi record.uid.text = atoi record'.uid.text := by
  have back := congrArg UInt32.toInt32 same
  unfold uidNumber at back
  rw [Int32.toInt32_toUInt32, Int32.toInt32_toUInt32] at back
  exact back

/-- What the two searches found for somebody who is let in. -/
theorem searches_of_admitted {uid : Int32} (admitted_eq : admitted records name pass = some uid) :
    ∃ first, records.find? (PasswdRecord.named name) = some first ∧ atoi first.uid.text = uid ∧
      0 ≤ uid ∧ (records.find? (PasswdRecord.numbered first.uidNumber)).map (·.pass.text) =
        some pass := by
  unfold admitted at admitted_eq
  cases found : records.find? (named name) with
  | none =>
    rw [found] at admitted_eq
    cases admitted_eq
  | some first =>
    rw [found] at admitted_eq
    dsimp only at admitted_eq
    split at admitted_eq
    · cases admitted_eq
    · rename_i visible
      split at admitted_eq
      · rename_i checked
        cases admitted_eq
        exact ⟨first, rfl, rfl, Int32.not_lt.mp visible, checked⟩
      · cases admitted_eq

/-- Whoever is let in has a record with the name, the password and the uid. -/
theorem Unambiguous.sound (unambiguous : Unambiguous records) {uid : Int32}
    (admitted_eq : admitted records name pass = some uid) :
    ∃ record ∈ records, record.name.text = name ∧ record.pass.text = pass ∧
      atoi record.uid.text = uid := by
  obtain ⟨first, found, uid_eq, _, checked⟩ := searches_of_admitted admitted_eq
  obtain ⟨other, found', pass_eq⟩ := map_eq_some_iff.mp checked
  obtain ⟨member, named⟩ := of_find_named found
  obtain ⟨member', numbered⟩ := of_find_numbered found'
  refine ⟨first, member, named, ?_, uid_eq⟩
  rw [← pass_eq]
  exact unambiguous.pass first member other member' numbered.symm

/-- Whoever types the name and the password of a record is let in. -/
theorem Unambiguous.complete (unambiguous : Unambiguous records) {record : PasswdRecord}
    (member : record ∈ records) :
    admitted records record.name.text record.pass.text = some (atoi record.uid.text) := by
  obtain ⟨first, found⟩ := find_named member
  obtain ⟨first_member, named⟩ := of_find_named found
  obtain ⟨other, found'⟩ := find_numbered first_member
  obtain ⟨other_member, numbered⟩ := of_find_numbered found'
  have number_eq := unambiguous.uid first first_member record member named
  have pass_eq := unambiguous.pass other other_member record member (numbered.trans number_eq)
  unfold admitted
  rw [found]
  dsimp only
  rw [if_neg (Int32.not_lt.mpr (unambiguous.visible first first_member)), found',
    map_some, if_pos (congrArg some pass_eq), atoi_eq_of_uidNumber_eq number_eq]

/-- If all records with names and passwords that can be typed are let in, they are
unambiguous. -/
theorem unambiguous_of_complete (complete : ∀ record ∈ records,
      admitted records record.name.text record.pass.text = some (atoi record.uid.text)) :
    Unambiguous records := by
  constructor
  · intro record member
    obtain ⟨first, _, _, visible, _⟩ := searches_of_admitted (complete record member)
    exact visible
  · intro record member record' member' same
    obtain ⟨first, found, uid_eq, _⟩ := searches_of_admitted (complete record member)
    obtain ⟨first', found', uid_eq', _⟩ := searches_of_admitted (complete record' member')
    rw [same, found'] at found
    cases found
    unfold uidNumber
    rw [← uid_eq, ← uid_eq']
  · intro record member record' member' same
    obtain ⟨first, _, uid_eq, _, checked⟩ := searches_of_admitted (complete record member)
    obtain ⟨first', _, uid_eq', _, checked'⟩ := searches_of_admitted (complete record' member')
    have number_eq : first.uidNumber = first'.uidNumber := by
      unfold uidNumber
      rw [uid_eq, uid_eq']
      exact same
    rw [number_eq, checked'] at checked
    exact (Option.some.inj checked).symm

/-- Whoever types this name and this password is let in just when a record has both, and
with the uid of that record. -/
def Authenticates (stack page : List Byte) (records : List PasswdRecord) (name pass : List Byte) :
    Prop :=
  ∀ rest, let uid := (attempt stack (some (passwdFile records)) page
      (name ++ newline :: (pass ++ newline :: rest))).1
    (∀ started, uid = some started → ∃ record ∈ records, record.name.text = name ∧
      record.pass.text = pass ∧ atoi record.uid.text = started) ∧
    (∀ record ∈ records, record.name.text = name → record.pass.text = pass →
      uid = some (atoi record.uid.text))

/-- For every file of records shorter than the buffers: if it has a record, and the name
determines the uid, the uid the password, and no uid is negative, then `getty` lets in just
those who type the name and the password of a record, with its uid. If all names and
passwords can be typed, this is also necessary. -/
theorem login_authenticates (stack page : List Byte) (records : List PasswdRecord)
    (short : (passwdFile records).length < BUFF) :
    (records ≠ [] → Unambiguous records → ∀ name pass, Typed 30 name → Typed 32 pass →
      Authenticates stack page records name pass) ∧
    ((∀ record ∈ records, Typed 30 record.name.text ∧ Typed 32 record.pass.text) →
      (∀ name pass, Typed 30 name → Typed 32 pass → Authenticates stack page records name pass) →
      Unambiguous records) := by
  refine ⟨?_, ?_⟩
  · intro some_record unambiguous name pass name_typed pass_typed rest
    rw [attempt_eq some_record short stack page name_typed pass_typed]
    refine ⟨fun started admitted_eq => unambiguous.sound admitted_eq, ?_⟩
    rintro record member rfl rfl
    exact unambiguous.complete member
  · intro typable authenticates
    apply unambiguous_of_complete
    intro record member
    obtain ⟨name_typed, pass_typed⟩ := typable record member
    have admits := (authenticates record.name.text record.pass.text name_typed pass_typed []).2
      record member rfl rfl
    rwa [attempt_eq (ne_nil_of_mem member) short stack page name_typed pass_typed] at admits

theorem login_authenticates_root :
    Authenticates [] [] [rootRecord] [114, 111, 111, 116] [112, 97, 115, 115] := by
  refine (login_authenticates [] [] [rootRecord] (by decide)).1 (cons_ne_nil _ _) ?_ _ _
    ⟨by decide, by simp, by decide⟩ ⟨by decide, by simp, by decide⟩
  constructor
  · intro record member
    rw [mem_singleton.mp member]
    decide
  · intro record member record' member' _
    rw [mem_singleton.mp member, mem_singleton.mp member']
  · intro record member record' member' _
    rw [mem_singleton.mp member, mem_singleton.mp member']

/-- Another user, whom `useradd -u` gave the uid of root. -/
def secondRoot : PasswdRecord where
  name := .of [98, 111, 98] (.refl true)
  pass := .of [115, 101, 99, 114, 101, 116] (.refl true)
  uid := .of [48] (.refl true)
  gid := .of [48] (.refl true)
  realname := .of [95] (.refl true)
  dir := .of [47] (.refl true)

/-- bob logs in with the password of root, and not with the password of bob. -/
theorem bob_needs_password_of_root :
    (attempt [] (some (passwdFile [rootRecord, secondRoot])) []
      ([98, 111, 98, 10] ++ [112, 97, 115, 115, 119, 111, 114, 100, 10])).1 = some 0 ∧
    (attempt [] (some (passwdFile [rootRecord, secondRoot])) []
      ([98, 111, 98, 10] ++ [115, 101, 99, 114, 101, 116, 10])).1 = none := by
  decide +kernel

end Xv6.Database
