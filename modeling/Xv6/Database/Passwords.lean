import Mathlib.Data.List.TakeWhile
import Xv6.Database.Growth
import Xv6.Database.Login
import Xv6.User.Passwd

/-!
# Changing one password

`passwd` looks for the name and a colon anywhere in the text, cuts as many bytes behind
them as the old password has, and puts the new one there. So it depends on what stands in front
of the record, on the other records with the uid, and on the sizes of its buffers.
-/

namespace Xv6.Database

open User List Option

variable {str substr text file pass currpass : List Byte} {index start : Nat}

/-! ## `strstr` -/

theorem strstr_of_isPrefix (nonempty : substr ≠ []) (starts : substr <+: str) :
    strstr str substr = some str := by
  cases str with
  | nil => exact absurd (prefix_nil.mp starts) nonempty
  | cons c rest => exact if_pos (List.isPrefixOf_iff_prefix.mpr starts)

/-- The string is found where it stands first. -/
theorem strstr_eq (nonempty : substr ≠ []) (here : substr <+: str.drop index)
    (first : ∀ i, i < index → ¬substr <+: str.drop i) :
    strstr str substr = some (str.drop index) := by
  induction index generalizing str with
  | zero => exact strstr_of_isPrefix nonempty here
  | succ index ih =>
    cases str with
    | nil => exact absurd (prefix_nil.mp here) nonempty
    | cons c rest =>
      have later : ¬substr.isPrefixOf (c :: rest) = true :=
        fun starts => first 0 (Nat.succ_pos _) (List.isPrefixOf_iff_prefix.mp starts)
      unfold strstr
      rw [if_neg later, drop_succ_cons]
      exact ih here fun i before => first (i + 1) (Nat.succ_lt_succ before)

/-- A string that stands somewhere has a first place. -/
theorem exists_first_place (here : substr <+: str.drop index) :
    ∃ first, first ≤ index ∧ substr <+: str.drop first ∧ ∀ i, i < first → ¬substr <+: str.drop i := by
  classical
  have somewhere : ∃ i, substr <+: str.drop i := ⟨index, here⟩
  exact ⟨Nat.find somewhere, Nat.find_min' somewhere here, Nat.find_spec somewhere,
    fun i before => Nat.find_min somewhere before⟩

/-! ## What is written -/

theorem cutBytes_eq (turns : Nat) {buff : List Byte} (inside : start ≤ buff.length) :
    cutBytes start turns buff = buff.take start ++ buff.drop (start + turns) := by
  induction turns generalizing buff with
  | zero => exact (take_append_drop start buff).symm
  | succ turns ih =>
    have length : (buff.take start).length = start := length_take_of_le inside
    simp only [cutBytes]
    rw [ih (by simp [length]), take_left' length, ← drop_drop,
      drop_left' length, drop_drop, Nat.add_assoc, Nat.add_comm 1]

/-- The text with the new password: so many bytes from the start on are replaced. -/
def spliced (text : List Byte) (start count : Nat) (pass : List Byte) : List Byte :=
  text.take start ++ pass ++ text.drop (start + count)

theorem length_spliced (inside : start ≤ text.length) (count : Nat) (pass : List Byte) :
    (spliced text start count pass).length = start + pass.length + (text.length - (start + count)) := by
  simp [spliced, inside, Nat.add_assoc]

theorem string_cstring_self (string : 0 ∉ text) : cstring text = text := by
  refine takeWhile_eq_self_iff.mpr ?_
  simpa using fun c member (zero : c = 0) => string (zero ▸ member)

/-- Nothing of the old text is left behind the new one, up to the first NUL. -/
theorem cstring_overlay {count : Nat} (inside : start ≤ file.length)
    (string : 0 ∉ spliced file start count pass) :
    cstring (overlay (overlay file 0 (spliced file start count pass))
      (spliced file start count pass).length (List.replicate (count - pass.length) 0)) =
        spliced file start count pass := by
  have length := length_spliced inside count pass
  generalize spliced file start count pass = text at *
  have written : overlay (overlay file 0 text) text.length (replicate (count - pass.length) 0) =
      text ++ (replicate (count - pass.length) 0 ++ file.drop (text.length + (count - pass.length))) := by
    simp [overlay, drop_append, append_assoc]
  rw [written]
  cases left : count - pass.length with
  | zero =>
    rw [drop_eq_nil_of_le (by omega)]
    simpa using string_cstring_self string
  | succ left =>
    rw [replicate_succ, cons_append]
    exact string_cstring string _

theorem changePassword_eq {user currpass pass file : List Byte} {index : Nat} (string : 0 ∉ file)
    (short : file.length < 512) (fits : user.length + 1 < 256)
    (found : strstr file (user ++ [colon]) = some (file.drop index))
    (inside : index + user.length + 1 ≤ file.length) :
    changePassword user currpass pass file =
      let text := spliced file (index + user.length + 1) currpass.length pass
      if 512 ≤ text.length then .fault
      else .changed (overlay (overlay file 0 text) text.length
        (replicate (currpass.length - pass.length) 0)) := by
  have place : file.length - (file.drop index).length = index := by
    rw [length_drop]
    omega
  have length : (file.take (index + user.length + 1)).length = index + user.length + 1 :=
    length_take_of_le inside
  unfold changePassword
  rw [if_neg (Nat.not_le_of_lt short), if_neg (Nat.not_le_of_lt fits)]
  dsimp only
  rw [string_cstring_self string, found]
  dsimp only
  rw [place, cutBytes_eq _ inside]
  rw [take_left' length, drop_left' length]
  rfl

/-! ## The place of a password -/

/-- The rest of the line, behind the password. -/
def PasswdRecord.tail (record : PasswdRecord) : List Byte :=
  colon :: line [record.uid, record.gid, record.realname, record.dir]

/-- The file with another password in one record. -/
def withPassword (before : List PasswdRecord) (record : PasswdRecord) (after : List PasswdRecord)
    (pass : List Byte) : List Byte :=
  passwdFile before ++ (record.name.text ++ colon :: (pass ++ (record.tail ++ passwdFile after)))

theorem passwdFile_string (records : List PasswdRecord) : 0 ∉ passwdFile records := serialize_string _

section

variable (before : List PasswdRecord) (record : PasswdRecord) (after : List PasswdRecord)

theorem passwdFile_split :
    passwdFile (before ++ record :: after) = withPassword before record after record.pass.text := by
  simp [passwdFile, withPassword, serialize, PasswdRecord.fields, PasswdRecord.tail, line]

/-- Where the password starts. -/
def passwordAt : Nat := (passwdFile before).length + record.name.text.length + 1

theorem spliced_password (pass : List Byte) :
    spliced (passwdFile (before ++ record :: after)) (passwordAt before record) record.pass.text.length pass =
      withPassword before record after pass := by
  have front : (passwdFile before ++ (record.name.text ++ [colon])).length = passwordAt before record := by
    simp [passwordAt, Nat.add_assoc]
  have file : passwdFile (before ++ record :: after) =
      passwdFile before ++ (record.name.text ++ [colon]) ++
        (record.pass.text ++ (record.tail ++ passwdFile after)) := by
    simp [passwdFile_split, withPassword]
  unfold spliced
  rw [file, take_left' front, ← drop_drop, drop_left' front, drop_left]
  simp [withPassword]

/-- The name and the colon stand at the start of the record. -/
theorem name_isPrefix :
    record.name.text ++ [colon] <+: (passwdFile (before ++ record :: after)).drop (passwdFile before).length := by
  rw [passwdFile_split, withPassword, drop_left]
  exact ⟨record.pass.text ++ (record.tail ++ passwdFile after), by simp⟩

theorem password_inside :
    passwordAt before record + record.pass.text.length < (passwdFile (before ++ record :: after)).length := by
  simp [passwdFile_split, withPassword, passwordAt, PasswdRecord.tail]
  omega

end

/-! ## What is typed -/

theorem length_gets_le (max : Nat) (input : List Byte) : (gets max input).1.length ≤ max := by
  induction max generalizing input with
  | zero => exact Nat.le_refl _
  | succ max ih =>
    cases input with
    | nil => exact Nat.zero_le _
    | cons c input =>
      unfold gets
      split
      · exact Nat.succ_le_succ (Nat.zero_le _)
      · exact Nat.succ_le_succ (ih input)

theorem cstring_string (memory : List Byte) : 0 ∉ cstring memory := by
  intro member
  simpa using mem_takeWhile_imp member

theorem typed_string (input : List Byte) : 0 ∉ (typed input).1 :=
  fun member => cstring_string _ (dropLast_subset _ member)

theorem length_typed_le (input : List Byte) : (typed input).1.length ≤ 30 := by
  have whole := length_gets_le 31 input
  have string := (takeWhile_sublist (l := (gets 31 input).1) (· ≠ 0)).length_le
  change (cstring (gets 31 input).1).dropLast.length ≤ 30
  rw [length_dropLast]
  unfold cstring
  omega

/-- A line that fits is taken as it is. -/
theorem typed_line (line : Typed 32 text) (rest : List Byte) :
    typed (text ++ newline :: rest) = (text, rest) := by
  have short := line.short
  have string : 0 ∉ text ++ [newline] := by
    rw [mem_append, not_or]
    exact ⟨line.string, by decide⟩
  unfold typed
  rw [gets_line line.line (by omega)]
  simp [string_cstring_self string]

/-- A run that goes on takes the typed password. -/
theorem askPassword_eq {user input : List Byte}
    (accepted : askPassword user currpass input file ≠ .refused) :
    askPassword user currpass input file = changePassword user currpass (typed input).1 file := by
  unfold askPassword at accepted ⊢
  dsimp only at accepted ⊢
  split at accepted
  · exact absurd rfl accepted
  · rename_i long
    rw [if_neg long]
    split at accepted
    · exact absurd rfl accepted
    · rename_i same
      rw [if_neg same]
      split at accepted
      · exact absurd rfl accepted
      · rename_i nonempty
        rw [if_neg nonempty]

/-- The same line twice is accepted. -/
theorem askPassword_twice (line : Typed 32 pass) (long : 7 ≤ pass.length) (nonempty : file ≠ [])
    (user currpass : List Byte) :
    askPassword user currpass (pass ++ newline :: (pass ++ [newline])) file =
      changePassword user currpass pass file := by
  have same : strcmp pass pass = 0 := (strcmp_eq_zero line.string line.string).mpr rfl
  unfold askPassword
  rw [typed_line line]
  dsimp only
  rw [if_neg (Nat.not_lt_of_le long), typed_line line]
  simp [same, nonempty]

/-! ## Runs for one user -/

/-- The password that is typed as the new one. -/
def newPassword (uid : UInt32) (input : List Byte) : List Byte :=
  (typed (if uid = 0 then input else (typed input).2)).1

/-- A run is for the user with this name: root gives the name, or the user gives none. -/
def Concerns (stack file name : List Byte) (uid : UInt32) (argv : List (List Byte)) : Prop :=
  (uid = 0 ∧ argv.head? = some name) ∨ (argv = [] ∧ uidtouser stack (some file) uid = some name)

/-- Every run of `passwd` for the user of this record that is not refused changes the password
of this record in the text of the file, and nothing else. -/
def ChangesOne (stack page : List Byte) (before : List PasswdRecord) (record : PasswdRecord)
    (after : List PasswdRecord) : Prop :=
  ∀ uid argv input,
    Concerns stack (passwdFile (before ++ record :: after)) record.name.text uid argv →
    passwd stack page uid argv input (passwdFile (before ++ record :: after)) ≠ .refused →
    ∃ contents,
      passwd stack page uid argv input (passwdFile (before ++ record :: after)) = .changed contents ∧
        cstring contents = withPassword before record after (newPassword uid input)

/-- The record can be found by its name and its uid, and the text fits in the buffers with
any password. -/
structure Changeable (before : List PasswdRecord) (record : PasswdRecord) (after : List PasswdRecord) :
    Prop where
  short : (passwdFile (before ++ record :: after)).length < 512
  room : (passwdFile (before ++ record :: after)).length + 30 < 512 + record.pass.text.length
  name : record.name.text.length + 1 < 256
  pass : record.pass.text.length < 32
  sameUid : ∀ first, (before ++ record :: after).find? (PasswdRecord.numbered record.uidNumber) = some first →
    first.pass.text.length = record.pass.text.length
  alone : ∀ i, i < (passwdFile before).length →
    ¬record.name.text ++ [colon] <+: (passwdFile (before ++ record :: after)).drop i

section

variable {stack page : List Byte} {before after : List PasswdRecord} {record : PasswdRecord}

theorem name_colon_ne_nil (record : PasswdRecord) : record.name.text ++ [colon] ≠ [] :=
  append_ne_nil_of_right_ne_nil _ (cons_ne_nil _ _)

theorem withPassword_string (string : 0 ∉ pass) : 0 ∉ withPassword before record after pass := by
  intro member
  have file := passwdFile_string (before ++ record :: after)
  rw [passwdFile_split] at file
  simp only [withPassword, mem_append, mem_cons, not_or] at file member
  rcases member with inside | inside | inside | inside | inside | inside
  · exact file.1 inside
  · exact file.2.1 inside
  · exact file.2.2.1 inside
  · exact string inside
  · exact file.2.2.2.2.1 inside
  · exact file.2.2.2.2.2 inside

/-- With an old password of the right length, the new one takes its place. -/
theorem Changeable.changes (changeable : Changeable before record after)
    (same : currpass.length = record.pass.text.length) (short : pass.length ≤ 30)
    (string : 0 ∉ pass) :
    ∃ contents,
      changePassword record.name.text currpass pass (passwdFile (before ++ record :: after)) =
          .changed contents ∧
        cstring contents = withPassword before record after pass := by
  have inside := password_inside before record after
  have atStart : passwordAt before record ≤ (passwdFile (before ++ record :: after)).length := by omega
  have text : spliced (passwdFile (before ++ record :: after)) (passwordAt before record) currpass.length pass =
      withPassword before record after pass := by
    rw [same, spliced_password]
  have size := length_spliced atStart currpass.length pass
  have room := changeable.room
  have found := strstr_eq (name_colon_ne_nil record) (name_isPrefix before record after) changeable.alone
  have run := @changePassword_eq _ currpass pass _ _ (passwdFile_string _) changeable.short changeable.name found
    atStart
  have written := cstring_overlay atStart (text ▸ withPassword_string string)
  dsimp only at run
  rw [if_neg (by change ¬512 ≤ (spliced _ (passwordAt before record) _ _).length; omega)] at run
  exact ⟨_, run, written.trans text⟩

theorem find_named_self (distinct : ((before ++ record :: after).map fun record => record.name.text).Nodup) :
    (before ++ record :: after).find? (PasswdRecord.named record.name.text) = some record := by
  have member : record ∈ before ++ record :: after := mem_append_right _ mem_cons_self
  obtain ⟨first, found⟩ := find_named member
  obtain ⟨among, same⟩ := of_find_named found
  rw [found, inj_on_of_nodup_map distinct among member same]

theorem someone (before : List PasswdRecord) (record : PasswdRecord) (after : List PasswdRecord) :
    before ++ record :: after ≠ [] := append_ne_nil_of_right_ne_nil _ (cons_ne_nil _ _)

theorem passwd_nonempty (before : List PasswdRecord) (record : PasswdRecord) (after : List PasswdRecord) :
    passwdFile (before ++ record :: after) ≠ [] := by
  intro empty
  have inside := password_inside before record after
  rw [empty] at inside
  exact absurd inside (Nat.not_lt_zero _)

/-- The old password that root's run takes: that of the first record with the uid. -/
theorem root_password (distinct : ((before ++ record :: after).map fun record => record.name.text).Nodup)
    (short : (passwdFile (before ++ record :: after)).length < BUFF) :
    ∃ first, (before ++ record :: after).find? (PasswdRecord.numbered record.uidNumber) = some first ∧
      uidtopass stack (some (passwdFile (before ++ record :: after)))
        (usertouid stack (some (passwdFile (before ++ record :: after))) record.name.text) =
          some first.pass.text := by
  have member : record ∈ before ++ record :: after := mem_append_right _ mem_cons_self
  obtain ⟨first, found⟩ := find_numbered member
  refine ⟨first, found, ?_⟩
  rw [usertouid_eq (someone before record after) short stack record.name.string, find_named_self distinct,
    map_some, getD_some, uidtopass_eq (someone before record after) short stack, found,
    map_some]

theorem Changeable.changesOne (changeable : Changeable before record after)
    (distinct : ((before ++ record :: after).map fun record => record.name.text).Nodup) :
    ChangesOne stack page before record after := by
  have short : (passwdFile (before ++ record :: after)).length < BUFF :=
    changeable.short.trans (by decide)
  have member : record ∈ before ++ record :: after := mem_append_right _ mem_cons_self
  intro uid argv input concerns accepted
  have user : argv.head?.getD ((uidtouser stack (some (passwdFile (before ++ record :: after))) uid).getD page) =
      record.name.text := by
    rcases concerns with ⟨-, given⟩ | ⟨rfl, found⟩
    · rw [given, getD_some]
    · rw [found]
      rfl
  have allowed : ¬(argv ≠ [] ∧ uid ≠ 0) := by
    rintro ⟨given, other⟩
    rcases concerns with ⟨root, -⟩ | ⟨none_, -⟩
    · exact other root
    · exact given none_
  unfold passwd at accepted ⊢
  rw [if_neg allowed] at accepted ⊢
  dsimp only at accepted ⊢
  rw [user] at accepted ⊢
  by_cases root : uid = 0
  · subst root
    obtain ⟨first, found, old⟩ := @root_password stack before after record distinct short
    have same := changeable.sameUid first found
    have fits : ¬32 ≤ first.pass.text.length := by
      rw [same]
      exact Nat.not_le_of_lt changeable.pass
    rw [if_neg (not_not.mpr rfl), old, getD_some, if_neg fits] at accepted ⊢
    rw [askPassword_eq accepted]
    exact changeable.changes same (length_typed_le _) (typed_string _)
  · rw [if_pos root] at accepted ⊢
    -- the first record with the uid has the name, so it is the record
    have self : (before ++ record :: after).find? (PasswdRecord.numbered uid) = some record := by
      rcases concerns with ⟨zero, -⟩ | ⟨-, found⟩
      · exact absurd zero root
      · rw [uidtouser_eq (someone before record after) short stack] at found
        obtain ⟨first, first_eq, same⟩ := map_eq_some_iff.mp found
        rw [first_eq, inj_on_of_nodup_map distinct (of_find_numbered first_eq).1 member same]
    rw [validateuserpass_eq (someone before record after) short stack uid (typed_string input), self,
      map_some, getD_some] at accepted ⊢
    by_cases same : (typed input).1 = record.pass.text
    · rw [if_pos same, if_neg (by decide)] at accepted ⊢
      rw [askPassword_eq accepted, newPassword, if_neg root]
      exact changeable.changes (congrArg length same) (length_typed_le _) (typed_string _)
    · rw [if_neg same, if_pos rfl] at accepted
      exact absurd rfl accepted

/-- A run of root that types the password twice. -/
theorem passwd_root {pass : List Byte} (line : Typed 32 pass) (long : 7 ≤ pass.length) :
    passwd stack page 0 [record.name.text] (pass ++ newline :: (pass ++ [newline]))
        (passwdFile (before ++ record :: after)) =
      let currpass := (uidtopass stack (some (passwdFile (before ++ record :: after)))
        (usertouid stack (some (passwdFile (before ++ record :: after))) record.name.text)).getD page
      if 32 ≤ currpass.length then .fault
      else changePassword record.name.text currpass pass (passwdFile (before ++ record :: after)) := by
  unfold passwd
  rw [if_neg fun both => both.2 rfl]
  dsimp only
  rw [if_neg (not_not.mpr rfl), head?_cons, getD_some,
    askPassword_twice line long (passwd_nonempty before record after)]

/-- A password that can be typed, of one character. -/
theorem typed_replicate {count : Nat} (short : count ≤ 30) {c : Byte} (plain : c ≠ 0 ∧ c ≠ 10 ∧ c ≠ 13) :
    Typed 32 (List.replicate count c) where
  string := fun member => plain.1 (eq_of_mem_replicate member).symm
  line := fun b member => (eq_of_mem_replicate member) ▸ plain.2
  short := by
    rw [length_replicate]
    omega

theorem changePassword_ne_refused (user currpass pass file : List Byte) :
    changePassword user currpass pass file ≠ .refused := by
  unfold changePassword
  split
  · nofun
  · split
    · nofun
    · dsimp only
      split
      · nofun
      · split
        · nofun
        · nofun

/-- A run that gets to the end has had the file and the name in its buffers. -/
theorem fits_of_changed {user contents : List Byte}
    (changed : changePassword user currpass pass file = .changed contents) :
    file.length < 512 ∧ user.length + 1 < 256 := by
  unfold changePassword at changed
  split at changed
  · cases changed
  · rename_i short
    split at changed
    · cases changed
    · rename_i fits
      exact ⟨Nat.lt_of_not_le short, Nat.lt_of_not_le fits⟩

theorem spliced_string (string : 0 ∉ text) (passString : 0 ∉ pass) (start count : Nat) :
    0 ∉ spliced text start count pass := by
  unfold spliced
  simp only [mem_append, not_or]
  exact ⟨⟨fun inside => string (mem_of_mem_take inside), passString⟩,
    fun inside => string (mem_of_mem_drop inside)⟩

/-- Root's run with a password, if it changes what it should. -/
theorem ChangesOne.root (changes : ChangesOne stack page before record after)
    (old : (uidtopass stack (some (passwdFile (before ++ record :: after)))
      (usertouid stack (some (passwdFile (before ++ record :: after))) record.name.text)).getD page = currpass)
    (line : Typed 32 pass) (long : 7 ≤ pass.length) :
    currpass.length < 32 ∧ ∃ contents,
      changePassword record.name.text currpass pass (passwdFile (before ++ record :: after)) =
          .changed contents ∧
        cstring contents = withPassword before record after pass := by
  have run := @passwd_root stack page before after record pass line long
  dsimp only at run
  rw [old] at run
  have outcome := changes 0 [record.name.text] (pass ++ newline :: (pass ++ [newline])) (.inl ⟨rfl, rfl⟩)
  rw [run, newPassword, if_pos rfl, typed_line line] at outcome
  split at outcome
  · obtain ⟨_, absurdity, _⟩ := outcome nofun
    cases absurdity
  · rename_i fits
    exact ⟨Nat.lt_of_not_le fits, outcome (changePassword_ne_refused _ _ _ _)⟩

/-- What is written is what should be, wherever the name was found. -/
theorem spliced_of_changed {contents : List Byte} (passString : 0 ∉ pass)
    (found : strstr (passwdFile (before ++ record :: after)) (record.name.text ++ [colon]) =
      some ((passwdFile (before ++ record :: after)).drop index))
    (inside : index + record.name.text.length + 1 ≤ (passwdFile (before ++ record :: after)).length)
    (changed : changePassword record.name.text currpass pass (passwdFile (before ++ record :: after)) =
      .changed contents) :
    (spliced (passwdFile (before ++ record :: after)) (index + record.name.text.length + 1) currpass.length
        pass).length < 512 ∧
      cstring contents = spliced (passwdFile (before ++ record :: after))
        (index + record.name.text.length + 1) currpass.length pass := by
  obtain ⟨short, fits⟩ := fits_of_changed changed
  have string := spliced_string (passwdFile_string (before ++ record :: after)) passString
    (index + record.name.text.length + 1) currpass.length
  have written := cstring_overlay inside string
  rw [changePassword_eq (passwdFile_string _) short fits found inside] at changed
  dsimp only at changed
  split at changed
  · cases changed
  · rename_i room
    cases changed
    exact ⟨Nat.lt_of_not_le room, written⟩

/-- A text that another password is put into differs at the first byte. -/
theorem not_spliced_before {place count count' : Nat} (earlier : start < place)
    (inside : place ≤ text.length) {c : Byte} (other : text[start]? ≠ some c) :
    spliced text start count (List.replicate 7 c) ≠ spliced text place count' (List.replicate 7 c) := by
  intro same
  have length : (text.take start).length = start := length_take_of_le (by omega)
  have length' : (text.take place).length = place := length_take_of_le inside
  have new : (spliced text start count (replicate 7 c))[start]? = some c := by
    rw [spliced, append_assoc, getElem?_append_right length.le, length, Nat.sub_self]
    rfl
  have old : (spliced text place count' (replicate 7 c))[start]? = text[start]? := by
    rw [spliced, append_assoc, getElem?_append_left (length'.symm ▸ earlier),
      getElem?_take_of_lt earlier]
  exact other (old.symm.trans (same ▸ new))

theorem exists_other_byte (found : Option Byte) : ∃ c : Byte, (c ≠ 0 ∧ c ≠ 10 ∧ c ≠ 13) ∧ found ≠ some c := by
  by_cases taken : found = some 97
  · exact ⟨98, by decide, by rw [taken]; decide⟩
  · exact ⟨97, by decide, taken⟩

theorem ChangesOne.changeable (changes : ChangesOne stack page before record after)
    (distinct : ((before ++ record :: after).map fun record => record.name.text).Nodup) :
    Changeable before record after := by
  obtain ⟨index, early, here, first⟩ := exists_first_place (name_isPrefix before record after)
  have found := strstr_eq (name_colon_ne_nil record) here first
  have place := password_inside before record after
  have inside : index + record.name.text.length + 1 ≤ (passwdFile (before ++ record :: after)).length := by
    unfold passwordAt at place
    omega
  obtain ⟨currpass, old⟩ : ∃ currpass, (uidtopass stack (some (passwdFile (before ++ record :: after)))
    (usertouid stack (some (passwdFile (before ++ record :: after))) record.name.text)).getD page = currpass :=
    ⟨_, rfl⟩
  have text : ∀ pass, Typed 32 pass → 7 ≤ pass.length →
      (spliced (passwdFile (before ++ record :: after)) (index + record.name.text.length + 1)
          currpass.length pass).length < 512 ∧
        spliced (passwdFile (before ++ record :: after)) (index + record.name.text.length + 1)
          currpass.length pass =
            spliced (passwdFile (before ++ record :: after)) (passwordAt before record)
              record.pass.text.length pass := by
    intro pass line long
    obtain ⟨-, contents, changed, written⟩ := changes.root old line long
    obtain ⟨room, same⟩ := spliced_of_changed line.string found inside changed
    exact ⟨room, same.symm.trans (written.trans (spliced_password before record after pass).symm)⟩
  -- otherwise a password that starts with another byte would stand further up
  have start : index = (passwdFile before).length := by
    by_contra different
    obtain ⟨c, plain, other⟩ := exists_other_byte
      (passwdFile (before ++ record :: after))[index + record.name.text.length + 1]?
    have earlier : index + record.name.text.length + 1 < passwordAt before record := by
      unfold passwordAt
      omega
    exact not_spliced_before earlier (by omega) other
      (text _ (typed_replicate (by decide) plain) (by simp)).2
  have seven := @typed_replicate 7 (by decide) 97 (by decide)
  have thirty := @typed_replicate 30 (by decide) 97 (by decide)
  obtain ⟨small, contents, changed, -⟩ := changes.root old seven (by simp)
  obtain ⟨short, fits⟩ := fits_of_changed changed
  -- and one of another length than the old password would leave the text with a wrong length
  have same : currpass.length = record.pass.text.length := by
    have lengths := congrArg length (text _ seven (by simp)).2
    rw [length_spliced inside, length_spliced (by omega)] at lengths
    unfold passwordAt at *
    omega
  obtain ⟨first', numbered, first_eq⟩ := @root_password stack before after record distinct (short.trans (by decide))
  have old_eq : first'.pass.text = currpass := by
    rw [← old, first_eq, getD_some]
  refine ⟨short, ?_, fits, same ▸ small, ?_, start ▸ first⟩
  · have room := (text _ thirty (by simp)).1
    rw [length_spliced inside, length_replicate] at room
    unfold passwordAt at place
    omega
  · intro other numbered'
    cases numbered.symm.trans numbered'
    rw [old_eq, same]

/-- In a file of records with distinct names, every run of `passwd` for a user changes
just this user's password if and only if the record is found and everything fits. -/
theorem passwd_changes_one_iff (stack page : List Byte) (before : List PasswdRecord) (record : PasswdRecord)
    (after : List PasswdRecord)
    (distinct : ((before ++ record :: after).map fun record => record.name.text).Nodup) :
    ChangesOne stack page before record after ↔ Changeable before record after :=
  ⟨fun changes => changes.changeable distinct, fun changeable => changeable.changesOne distinct⟩

end

/-- Users `jimbob` and `bob`. -/
def jimbobRecord : PasswdRecord :=
  { rootRecord with
    name := .of [106, 105, 109, 98, 111, 98] (.refl true)
    uid := .of [49, 48, 48, 48] (.refl true) }

def bobRecord : PasswdRecord :=
  { rootRecord with
    name := .of [98, 111, 98] (.refl true)
    uid := .of [49, 48, 48, 49] (.refl true) }

/-- `newpass1`. -/
def newpass : List Byte := [110, 101, 119, 112, 97, 115, 115, 49]

/-- `passwd bob` changes the password of `jimbob`. -/
theorem passwd_changes_other :
    passwd [] [] 0 [[98, 111, 98]] (newpass ++ newline :: (newpass ++ [newline]))
        (passwdFile [jimbobRecord, bobRecord]) =
      .changed (withPassword [] jimbobRecord [bobRecord] newpass) ∧
    cstring (withPassword [] jimbobRecord [bobRecord] newpass) ≠
      withPassword [jimbobRecord] bobRecord [] newpass := by
  decide +kernel

/-- In a file with nobody else, root's password can be changed. -/
theorem passwd_changes_one_iff_root : ChangesOne [] [] [] rootRecord [] := by
  refine (passwd_changes_one_iff [] [] [] rootRecord [] (by decide)).mpr
    ⟨by decide, by decide, by decide, by decide, ?_, nofun⟩
  intro first found
  cases found
  rfl

end Xv6.Database
