import Xv6.Database.Numbers
import Xv6.Database.Numerals
import Xv6.Semantics.Transition
import Xv6.User.Useradd

/-!
# Adding users one after another

`useradd` gives out the numbers from 1000 on, one after another, as long as `nextuid`
and `nextgid` see all of the files: up to 2047 bytes. From then on every user gets the
same uid, and the lines are written over each other.
-/

namespace Xv6.Database

open User Transition Option Int32
open List hiding lookup

variable {n : Nat} {contents stack : List Byte} {system : UserSystem} {user : UserName}
  {users : List UserName}

/-! ## Numbers as text -/

theorem atoi_itoa (small : n < 2 ^ 31) : atoi (itoa (Int32.ofNat n)) = Int32.ofNat n := by
  simpa using @Numeral.atoi _ n [] (itoa_numeral small) (by simp)

theorem itoa_clean (num : Int32) : ∀ c ∈ itoa num, c ≠ colon ∧ c ≠ newline ∧ c ≠ 0 := by
  intro c member
  unfold itoa at member
  split at member
  · rw [mem_singleton.mp member]
    decide
  · rw [mem_reverse] at member
    split at member
    · rcases mem_append.mp member with digit | sign
      · exact (digit_itoaDigits _ _ c digit).clean
      · rw [mem_singleton.mp sign]
        decide
    · exact (digit_itoaDigits _ _ c member).clean

theorem itoa_ne_nil (num : Int32) : itoa num ≠ [] := by
  unfold itoa
  split
  · exact cons_ne_nil _ _
  · rename_i nonzero
    obtain ⟨n, n_eq⟩ : ∃ n, num.toInt.natAbs = n + 1 := by
      refine ⟨num.toInt.natAbs - 1, ?_⟩
      have : num.toInt ≠ 0 := fun zero => nonzero (toInt_inj.mp zero)
      omega
    intro empty
    rw [reverse_eq_nil_iff, n_eq] at empty
    split at empty
    · exact absurd empty (by simp)
    · exact absurd empty (cons_ne_nil _ _)

/-! ## Records of new users -/

/-- A name that `useradd` takes for the name of a user. -/
structure UserName extends Field where
  plain : 45 ∉ text

def numberField (num : Int32) : Field := ⟨itoa num, itoa_ne_nil num, itoa_clean num⟩

def blankField : Field := .of blank (.refl true)

def homeField (user : UserName) : Field where
  text := home ++ user.text
  nonempty := List.cons_ne_nil _ _
  clean c member := by
    rcases List.mem_append.mp member with first | second
    · have slash : ∀ c ∈ home, c ≠ colon ∧ c ≠ newline ∧ c ≠ 0 := clean_of_all (by decide)
      exact slash c first
    · exact user.clean c second

/-- The lines of the user with a number. -/
def userRecord (entry : UserName × Nat) : PasswdRecord where
  name := entry.1.toField
  pass := blankField
  uid := numberField (Int32.ofNat entry.2)
  gid := numberField (Int32.ofNat entry.2)
  realname := blankField
  dir := homeField entry.1

def userGroup (entry : UserName × Nat) : GroupRecord where
  name := entry.1.toField
  gid := numberField (Int32.ofNat entry.2)
  members := entry.1.toField

theorem passwdEntry_eq (user : UserName) (n : Nat) :
    passwdEntry user.text (Int32.ofNat n) (Int32.ofNat n) none (home ++ user.text) =
      line (userRecord (user, n)).fields := by
  simp [passwdEntry, userRecord, PasswdRecord.fields, line, numberField, blankField, Field.of,
    homeField, blank, append_assoc]

theorem groupEntry_eq (user : UserName) (n : Nat) :
    groupEntry user.text (Int32.ofNat n) = line (userGroup (user, n)).fields := by
  simp [groupEntry, userGroup, GroupRecord.fields, line, numberField, append_assoc]

/-- The line of root in the `/etc/group` that comes with the system. -/
def rootGroup : GroupRecord where
  name := .of [114, 111, 111, 116] (.refl true)
  gid := .of [48] (.refl true)
  members := .of [114, 111, 111, 116] (.refl true)

/-- The files with these users, numbered from 1000 on. -/
def passwdRecords (users : List UserName) : List PasswdRecord :=
  rootRecord :: (users.zipIdx 1000).map userRecord

def groupRecords (users : List UserName) : List GroupRecord :=
  rootGroup :: (users.zipIdx 1000).map userGroup

/-! ## The next number -/

/-- Numbers in a row are all passed. -/
theorem climb_range' (start length : Nat) : climb start (List.range' start length) = start + length := by
  have high := climb_le start (range' start length)
  rw [length_range'] at high
  exact Nat.le_antisymm high ((add_le_climb_iff start length _).mpr (List.Sublist.refl _))

theorem number_itoa (small : n < 2 ^ 31) : (atoi (itoa (Int32.ofNat n))).toUInt32.toNat = n := by
  rw [atoi_itoa small, toUInt32_ofNat',
    UInt32.toNat_ofNat_of_lt' (small.trans (by decide))]

/-- The numbers of users that were added one after another. -/
theorem map_number_zipIdx {Record : Type} (number : Record → Nat) (entry : UserName × Nat → Record)
    (each : ∀ user n, n < 2 ^ 31 → number (entry (user, n)) = n) (users : List UserName)
    (few : n + users.length < 2 ^ 31) :
    ((users.zipIdx n).map entry).map number = List.range' n users.length := by
  induction users generalizing n with
  | nil => rfl
  | cons user users ih =>
    rw [length_cons] at few
    rw [zipIdx_cons, map_cons, map_cons, length_cons, range'_succ,
      each user n (by omega), ih (by omega)]

section Next

variable {users : List UserName} (stack : List Byte)

theorem few_users (short : (passwdFile (passwdRecords users)).length < BUFF) :
    1000 + users.length < 2 ^ 31 := by
  have few := few_records (by decide) (passwd_columns (passwdRecords users)) short
  rw [length_map] at few
  change 1000 + (((users.zipIdx 1000).map userRecord).length + 1) < _ at few
  rw [length_map, length_zipIdx] at few
  omega

theorem nextuid_eq (short : (passwdFile (passwdRecords users)).length < BUFF) :
    nextuid stack (some (passwdFile (passwdRecords users))) = UInt32.ofNat (1000 + users.length) := by
  have someone : passwdRecords users ≠ [] := cons_ne_nil _ _
  rw [nextuid_climb someone short]
  change UInt32.ofNat (climb 1000 (((users.zipIdx 1000).map userRecord).map _)) = _
  rw [map_number_zipIdx _ userRecord (fun _ _ => number_itoa) users (few_users short),
    climb_range']

theorem nextgid_eq (few : 1000 + users.length < 2 ^ 31)
    (short : (groupFile (groupRecords users)).length < BUFF) :
    nextgid stack (some (groupFile (groupRecords users))) = UInt32.ofNat (1000 + users.length) := by
  have someone : groupRecords users ≠ [] := cons_ne_nil _ _
  rw [nextgid_climb someone short]
  change UInt32.ofNat (climb 1000 (((users.zipIdx 1000).map userGroup).map _)) = _
  rw [map_number_zipIdx _ userGroup (fun _ _ => number_itoa) users few, climb_range']

end Next

/-! ## Appending -/

theorem line_string (fields : List Field) : 0 ∉ line fields := by
  induction fields with
  | nil => exact not_mem_nil
  | cons field fields ih =>
    intro member
    cases fields with
    | nil =>
      rcases mem_append.mp member with inside | last
      · exact field.string inside
      · exact absurd (mem_singleton.mp last) (by decide)
    | cons next fields =>
      rcases mem_append.mp member with inside | rest
      · exact field.string inside
      · rcases mem_cons.mp rest with separator | later
        · exact absurd separator (by decide)
        · exact ih later

theorem serialize_string (records : List (List Field)) : 0 ∉ serialize records := by
  intro member
  obtain ⟨fields, _, inside⟩ := mem_flatMap.mp member
  exact line_string fields inside

/-- `passwdlen` and `grouplen` return the length of a file that is shorter than the buffer. -/
theorem filelen_eq (records : List (List Field)) (short : (serialize records).length < BUFF)
    (stack : List Byte) : filelen stack (some (serialize records)) = (serialize records).length := by
  obtain ⟨rest, memory_eq⟩ := buff_of_short short stack
  have string : cstring (buff stack (serialize records)) = serialize records := by
    rw [memory_eq]
    exact string_cstring (serialize_string records) rest
  unfold filelen
  cases contents_eq : serialize records with
  | nil => rfl
  | cons c contents =>
    rw [contents_eq] at string
    exact congrArg length string

theorem serialize_concat (records : List (List Field)) (fields : List Field) :
    serialize (records ++ [fields]) = serialize records ++ line fields := by
  unfold serialize
  rw [flatMap_append, flatMap_singleton]

/-- A line is appended. -/
theorem extend_eq {records : List (List Field)} {fields : List Field}
    (extended : extend (serialize records) (serialize records).length (line fields) =
      some contents) : contents = serialize (records ++ [fields]) := by
  unfold extend at extended
  dsimp only at extended
  split at extended
  · cases extended
    unfold overlay
    rw [Nat.min_self, take_length, drop_eq_nil_of_le (Nat.le_add_right _ _),
      append_nil, serialize_concat]
  · cases extended

/-! ## Runs -/

theorem strstr_none {text : List Byte} (plain : 45 ∉ text) (rest : List Byte) :
    strstr text (45 :: rest) = none := by
  induction text with
  | nil => rfl
  | cons c text ih =>
    have different : ¬ (45 :: rest).isPrefixOf (c :: text) = true := by
      intro first
      rw [isPrefixOf_cons_cons, Bool.and_eq_true, beq_iff_eq] at first
      rw [← first.1] at plain
      exact plain mem_cons_self
    unfold strstr
    rw [if_neg different]
    exact ih fun member => plain (mem_cons_of_mem _ member)

theorem useraddArgs_user (user : UserName) (args : UseraddArgs) :
    useraddArgs .undefined args [user.text] = some { args with user := some user.text } := by
  unfold useraddArgs
  rw [strstr_none user.plain, strstr_none user.plain, strstr_none user.plain,
    strstr_none user.plain]
  rfl

/-- The entry of a user in the record of the runs. -/
def addedEntry (entry : UserName × Nat) : List Byte × Int32 × Int32 :=
  (entry.1.text, Int32.ofNat entry.2, Int32.ofNat entry.2)

/-- What a successful run does. -/
theorem step_iff {next : UserSystem} {uid gid : Int32}
    (uid_eq : (nextuid stack (some system.files.passwd)).toInt32 = uid)
    (gid_eq : (nextgid stack (some system.files.group)).toInt32 = gid) :
    system.step stack user.text = some next ↔
      ((home ++ user.text).length < 64 ∧
        (passwdEntry user.text uid gid none (home ++ user.text)).length < 256 ∧
        (groupEntry user.text gid).length < 256 ∧ (itoa uid).length < 10 ∧ (itoa gid).length < 10) ∧
      extend system.files.passwd (passwdlen stack (some system.files.passwd))
        (passwdEntry user.text uid gid none (home ++ user.text)) = some next.files.passwd ∧
      extend system.files.group (grouplen stack (some system.files.group))
        (groupEntry user.text gid) = some next.files.group ∧
      next.added = system.added ++ [(user.text, uid, gid)] := by
  unfold UserSystem.step useradd
  rw [useraddArgs_user]
  dsimp only
  rw [if_pos rfl, if_pos rfl, uid_eq, gid_eq]
  obtain ⟨⟨passwd, group⟩, added⟩ := next
  by_cases room : (home ++ user.text).length < 64 ∧
      (passwdEntry user.text uid gid none (home ++ user.text)).length < 256 ∧
      (groupEntry user.text gid).length < 256 ∧ (itoa uid).length < 10 ∧ (itoa gid).length < 10
  · rw [if_pos ⟨rfl, room⟩]
    cases extend system.files.passwd (passwdlen stack (some system.files.passwd))
        (passwdEntry user.text uid gid none (home ++ user.text)) with
    | none => simp
    | some contents =>
      cases extend system.files.group (grouplen stack (some system.files.group))
          (groupEntry user.text gid) with
      | none => simp
      | some lines =>
        simp only [room, Option.some.injEq, UserSystem.mk.injEq, UserFiles.mk.injEq]
        grind
  · rw [if_neg fun both => room both.2]
    exact ⟨fun impossible => (nomatch impossible), fun both => absurd both.1 room⟩

theorem passwdFile_concat (users : List UserName) (user : UserName) :
    passwdFile (passwdRecords (users ++ [user])) = passwdFile (passwdRecords users) ++
      line (userRecord (user, 1000 + users.length)).fields := by
  unfold passwdFile passwdRecords
  rw [zipIdx_append, map_append, ← cons_append, map_append]
  exact serialize_concat _ _

theorem groupFile_concat (users : List UserName) (user : UserName) :
    groupFile (groupRecords (users ++ [user])) = groupFile (groupRecords users) ++
      line (userGroup (user, 1000 + users.length)).fields := by
  unfold groupFile groupRecords
  rw [zipIdx_append, map_append, ← cons_append, map_append]
  exact serialize_concat _ _

/-- The files hold the users that were added, numbered from 1000 on. -/
structure Grown (users : List UserName) (system : UserSystem) : Prop where
  passwd : system.files.passwd = passwdFile (passwdRecords users)
  group : system.files.group = groupFile (groupRecords users)
  added : system.added = (users.zipIdx 1000).map addedEntry

/-- The files with these users are shorter than the buffers. -/
def Short (users : List UserName) : Prop :=
  (passwdFile (passwdRecords users)).length < BUFF ∧ (groupFile (groupRecords users)).length < BUFF

instance (users : List UserName) : Decidable (Short users) :=
  inferInstanceAs (Decidable (_ < _ ∧ _ < _))

theorem Short.init (short : Short (users ++ [user])) : Short users := by
  obtain ⟨shortPasswd, shortGroup⟩ := short
  rw [passwdFile_concat, length_append] at shortPasswd
  rw [groupFile_concat, length_append] at shortGroup
  exact ⟨by omega, by omega⟩

/-- The lines for the next user leave the files shorter than the buffers. -/
def Fits (system : UserSystem) (user : UserName) : Prop :=
  let number := Int32.ofNat (1000 + system.added.length)
  system.files.passwd.length +
      (passwdEntry user.text number number none (home ++ user.text)).length < BUFF ∧
    system.files.group.length + (groupEntry user.text number).length < BUFF

instance (system : UserSystem) (user : UserName) : Decidable (Fits system user) :=
  inferInstanceAs (Decidable (_ < _ ∧ _ < _))

/-- The files that come with the system. -/
def shipped : UserSystem :=
  { files := { passwd := passwdFile [rootRecord], group := groupFile [rootGroup] }, added := [] }

section Step

variable {users : List UserName} {system next : UserSystem} {user : UserName} {stack : List Byte}

theorem Grown.uid (grown : Grown users system) (short : Short users) :
    (nextuid stack (some system.files.passwd)).toInt32 = Int32.ofNat (1000 + users.length) := by
  rw [grown.passwd, nextuid_eq stack short.1, UInt32.toInt32_ofNat']

theorem group_gid (group_eq : system.files.group = groupFile (groupRecords users))
    (few : 1000 + users.length < 2 ^ 31)
    (short : (groupFile (groupRecords users)).length < BUFF) :
    (nextgid stack (some system.files.group)).toInt32 = Int32.ofNat (1000 + users.length) := by
  rw [group_eq, nextgid_eq stack few short, UInt32.toInt32_ofNat']

/-- A run of `useradd` appends the line of the user to `/etc/group`. -/
theorem group_step (group_eq : system.files.group = groupFile (groupRecords users))
    (few : 1000 + users.length < 2 ^ 31)
    (short : (groupFile (groupRecords users)).length < BUFF)
    (step : system.step stack user.text = some next) :
    next.files.group = groupFile (groupRecords (users ++ [user])) := by
  obtain ⟨_, _, extended, _⟩ := (step_iff rfl (group_gid group_eq few short)).mp step
  unfold grouplen at extended
  rw [group_eq, groupEntry_eq, groupFile, filelen_eq _ short] at extended
  rw [extend_eq extended, groupFile_concat, serialize_concat]
  rfl

/-- A run of `useradd` adds the next user. -/
theorem Grown.step (grown : Grown users system) (short : Short users)
    (step : system.step stack user.text = some next) : Grown (users ++ [user]) next := by
  have few := few_users short.1
  obtain ⟨_, extended, _, added_eq⟩ :=
    (step_iff (grown.uid short) (group_gid grown.group few short.2)).mp step
  refine ⟨?_, group_step grown.group few short.2 step, ?_⟩
  · unfold passwdlen at extended
    rw [grown.passwd, passwdEntry_eq, passwdFile, filelen_eq _ short.1] at extended
    rw [extend_eq extended, passwdFile_concat, serialize_concat]
    rfl
  · rw [added_eq, grown.added, zipIdx_append, map_append]
    rfl

theorem Grown.short_of_fits (grown : Grown users system) (fits : Fits system user) :
    Short (users ++ [user]) := by
  have count_eq : system.added.length = users.length := by
    rw [grown.added, length_map, length_zipIdx]
  unfold Fits at fits
  dsimp only at fits
  rw [count_eq, grown.passwd, grown.group, passwdEntry_eq, groupEntry_eq] at fits
  unfold Short
  rw [passwdFile_concat, groupFile_concat, length_append, length_append]
  exact fits

end Step

theorem grown_shipped : Grown [] shipped := ⟨rfl, rfl, rfl⟩

theorem grown_of_run (run : Steps (Guarded (fun system (user : UserName) next =>
      UserSystem.step stack system user.text = some next) Fits) shipped users system) :
    Grown users system ∧ Short users := by
  induction run with
  | refl => exact ⟨grown_shipped, by decide⟩
  | step _ transition ih =>
    obtain ⟨grown, short⟩ := ih
    exact ⟨grown.step short transition.2, grown.short_of_fits transition.1⟩

theorem ofNat_injective {m : Nat} (m_small : m < 2 ^ 31) (n_small : n < 2 ^ 31)
    (same : Int32.ofNat m = Int32.ofNat n) : m = n := by
  have value := congrArg toInt same
  rw [toInt_ofNat_of_lt m_small, toInt_ofNat_of_lt n_small] at value
  omega

/-- Numbers from 1000 on, and that of root, are different. -/
theorem nodup_numbers (users : List UserName) (few : 1000 + users.length < 2 ^ 31) :
    (0 :: (users.zipIdx 1000).map fun entry => Int32.ofNat entry.2).Nodup := by
  have range : (users.zipIdx 1000).map (fun entry => ofNat entry.2) =
      (range' 1000 users.length).map ofNat := by
    rw [← List.zipIdx_map_snd 1000 users, List.map_map]
    rfl
  rw [range, nodup_cons]
  refine ⟨?_, ?_⟩
  · intro member
    obtain ⟨n, inside, zero⟩ := mem_map.mp member
    rw [mem_range'_1] at inside
    have := ofNat_injective (n := 0) (by omega) (by decide) zero
    omega
  · apply List.Nodup.map_on _ (nodup_range' ..)
    intro m m_inside n n_inside same
    rw [mem_range'_1] at m_inside n_inside
    exact ofNat_injective (by omega) (by omega) same

/-- The first record with the name of a user is that of the user. -/
theorem find_user (distinct : (rootRecord.name.text :: users.map fun user => user.text).Nodup)
    {entry : UserName × Nat} (member : entry ∈ users.zipIdx 1000) :
    (passwdRecords users).find? (PasswdRecord.named entry.1.text) = some (userRecord entry) := by
  obtain ⟨notRoot, distinct⟩ := nodup_cons.mp distinct
  obtain ⟨lower, at_index⟩ := mk_mem_zipIdx_iff_le_and_getElem?_sub.mp member
  have apart : rootRecord.name.text ≠ entry.1.text := by
    intro same
    apply notRoot
    rw [same]
    exact mem_map_of_mem (mem_of_getElem? at_index)
  unfold passwdRecords
  rw [find?_cons_of_neg (by simpa [PasswdRecord.named] using apart), find?_map]
  have unique : ∀ other ∈ users.zipIdx 1000, other.1.text = entry.1.text → other = entry := by
    rintro ⟨other, n⟩ other_member same
    obtain ⟨lower', at_index'⟩ := mk_mem_zipIdx_iff_le_and_getElem?_sub.mp other_member
    have texts : (users.map fun user => user.text)[n - 1000]? =
        (users.map fun user => user.text)[entry.2 - 1000]? := by
      rw [getElem?_map, getElem?_map, at_index, at_index']
      exact congrArg some same
    have bound : n - 1000 < (users.map fun user => user.text).length := by
      rw [length_map]
      exact (List.getElem?_eq_some_iff.mp at_index').1
    have index_eq := (getElem?_inj bound distinct).mp texts
    have n_eq : n = entry.2 := by omega
    rw [n_eq] at at_index'
    rw [at_index] at at_index'
    cases at_index'
    exact Prod.ext rfl n_eq
  have found : ((users.zipIdx 1000).find? (PasswdRecord.named entry.1.text ∘ userRecord)).isSome := by
    rw [find?_isSome]
    exact ⟨entry, member, decide_eq_true rfl⟩
  obtain ⟨other, other_eq⟩ := isSome_iff_exists.mp found
  have named := find?_some other_eq
  have same : other.1.text = entry.1.text := of_decide_eq_true named
  rw [other_eq, unique other (mem_of_find?_eq_some other_eq) same]
  rfl

/-- A letter and then as many `x` as asked for. -/
def letters (i : Fin 26) (length : Nat) : UserName where
  text := (97 + UInt8.ofNat i) :: List.replicate length 120
  nonempty := List.cons_ne_nil _ _
  clean c member := by
    rcases List.mem_cons.mp member with rfl | rest
    · clear member
      revert i
      decide
    · rw [List.eq_of_mem_replicate rest]
      decide
  plain member := by
    rcases List.mem_cons.mp member with first | rest
    · clear member
      revert i
      decide
    · exact absurd (List.eq_of_mem_replicate rest) (by decide)

/-- A file without a zero that fills the buffers. -/
def Full (contents : List Byte) : Prop := BUFF ≤ contents.length ∧ 0 ∉ contents.take BUFF

section

variable (full : Full contents)

include full

theorem Full.ne_nil : contents ≠ [] := by
  rintro rfl
  exact absurd full.1 (by decide)

theorem Full.buff_eq (stack : List Byte) : buff stack contents = contents.take BUFF ++ stack := by
  unfold buff
  rw [Nat.sub_eq_zero_of_le full.1, replicate_zero, append_nil]

theorem Full.length_take : (contents.take BUFF).length = BUFF :=
  length_take_of_le full.1

/-- `passwdlen` ends in or behind the part that was read. -/
theorem Full.le_passwdlen (stack : List Byte) : BUFF ≤ passwdlen stack (some contents) := by
  have string : cstring (buff stack contents) = contents.take BUFF ++ cstring stack := by
    unfold cstring
    rw [full.buff_eq stack, takeWhile_append_of_pos]
    intro c member
    refine decide_eq_true ?_
    rintro rfl
    exact full.2 member
  unfold passwdlen filelen
  cases contents with
  | nil => exact absurd rfl full.ne_nil
  | cons c contents =>
    dsimp only
    rw [string, length_append, full.length_take]
    exact Nat.le_add_right _ _

/-- A line goes behind the part that is read. -/
theorem Full.extend {extended bytes : List Byte}
    (run_eq : extend contents (passwdlen stack (some contents)) bytes = some extended) :
    Full extended ∧ extended.take BUFF = contents.take BUFF := by
  have behind := full.le_passwdlen stack
  unfold User.extend at run_eq
  dsimp only at run_eq
  split at run_eq
  · cases run_eq
    have off_le : BUFF ≤ min (passwdlen stack (some contents)) contents.length :=
      Nat.le_min.mpr ⟨behind, full.1⟩
    have length_eq : (contents.take (min (passwdlen stack (some contents)) contents.length)).length =
        min (passwdlen stack (some contents)) contents.length :=
      length_take_of_le (Nat.min_le_right _ _)
    have take_eq : (overlay contents (min (passwdlen stack (some contents)) contents.length)
        bytes).take BUFF = contents.take BUFF := by
      unfold overlay
      rw [append_assoc, take_append_of_le_length (by rw [length_eq]; exact off_le),
        take_take, Nat.min_eq_left off_le]
    refine ⟨⟨?_, ?_⟩, take_eq⟩
    · unfold overlay
      rw [append_assoc, length_append, length_eq]
      exact off_le.trans (Nat.le_add_right _ _)
    · rw [take_eq]
      exact full.2
  · cases run_eq

end

theorem length_extend_le {bytes extended : List Byte} {length : Nat}
    (run_eq : extend contents length bytes = some extended) :
    extended.length ≤ contents.length + bytes.length := by
  unfold extend at run_eq
  dsimp only at run_eq
  split at run_eq
  · cases run_eq
    unfold overlay
    rw [length_append, length_append, length_take, length_drop]
    omega
  · cases run_eq

/-- `nextuid` does not see what is behind the part that is read. -/
theorem nextuid_congr {others : List Byte} (full : Full contents) (fullOthers : Full others)
    (same : others.take BUFF = contents.take BUFF) (stack : List Byte) :
    nextuid stack (some others) = nextuid stack (some contents) := by
  have memory_eq : buff stack others = buff stack contents := by
    rw [full.buff_eq, fullOthers.buff_eq, same]
  unfold nextuid lookup
  cases contents with
  | nil => exact absurd rfl full.ne_nil
  | cons c contents =>
    cases others with
    | nil => exact absurd rfl fullOthers.ne_nil
    | cons d others =>
      dsimp only
      rw [memory_eq]

/-- Once the file is full, the next users all get the same uid. -/
theorem step_of_full {next : UserSystem} (full : Full system.files.passwd)
    (step : system.step stack user.text = some next) :
    Full next.files.passwd ∧
      nextuid stack (some next.files.passwd) = nextuid stack (some system.files.passwd) := by
  obtain ⟨_, extended, _⟩ := (step_iff rfl rfl).mp step
  obtain ⟨fullNext, same⟩ := full.extend extended
  exact ⟨fullNext, nextuid_congr full fullNext same stack⟩

/-! ## Runs that succeed -/

theorem length_itoa (positive : 0 < n) (small : n < 10 ^ 9) :
    (itoa (Int32.ofNat n)).length ≤ 9 := by
  rw [itoa_ofNat positive (small.trans (by decide)), length_reverse,
    itoaDigits_eq (small.trans (by decide)), length_map]
  exact (Nat.digits_length_le_iff (by decide) n).mpr small

/-- A name that fits in the buffer for the directory is added. -/
theorem step_of_room {u g : Nat}
    (uid_eq : (nextuid stack (some system.files.passwd)).toInt32 = Int32.ofNat u)
    (gid_eq : (nextgid stack (some system.files.group)).toInt32 = Int32.ofNat g)
    (uid_range : 0 < u ∧ u < 10 ^ 9) (gid_range : 0 < g ∧ g < 10 ^ 9) (room : user.text.length ≤ 57)
    (passwd_small : system.files.passwd.length ≤ 65536)
    (group_small : system.files.group.length ≤ 65536) :
    ∃ next, system.step stack user.text = some next := by
  have uid_length := length_itoa uid_range.1 uid_range.2
  have gid_length := length_itoa gid_range.1 gid_range.2
  have dir_length : (home ++ user.text).length < 64 := by
    rw [length_append]
    change 6 + _ < 64
    omega
  have passwd_length : (passwdEntry user.text (ofNat u) (ofNat g) none
      (home ++ user.text)).length < 256 := by
    simp only [passwdEntry, length_append, length_cons, length_nil, getD_none,
      blank] at dir_length ⊢
    omega
  have group_length : (groupEntry user.text (ofNat g)).length < 256 := by
    simp only [groupEntry, length_append, length_cons, length_nil]
    omega
  have extends_some : ∀ {contents bytes : List Byte} (length : Nat), contents.length ≤ 65536 →
      bytes.length < 256 → ∃ extended, extend contents length bytes = some extended := by
    intro contents bytes length small short
    unfold extend
    dsimp only
    rw [if_pos]
    · exact ⟨_, rfl⟩
    · change _ ≤ 71680
      omega
  obtain ⟨passwd, passwd_eq⟩ :=
    extends_some (passwdlen stack (some system.files.passwd)) passwd_small passwd_length
  obtain ⟨group, group_eq⟩ :=
    extends_some (grouplen stack (some system.files.group)) group_small group_length
  refine ⟨{ files := { passwd := passwd, group := group }, added := _ },
    (step_iff uid_eq gid_eq).mpr ⟨⟨dir_length, passwd_length, group_length, by omega, by omega⟩,
      passwd_eq, group_eq, rfl⟩⟩

theorem Grown.next (grown : Grown users system) (short : Short users) (room : user.text.length ≤ 57)
    (stack : List Byte) : ∃ next, system.step stack user.text = some next := by
  obtain ⟨shortPasswd, shortGroup⟩ := short
  have few := few_users shortPasswd
  have range : 0 < 1000 + users.length ∧ 1000 + users.length < 10 ^ 9 := by
    have tokens := tokens_le_serialize (group_columns (groupRecords users))
    change _ ≤ (groupFile (groupRecords users)).length at tokens
    rw [length_map] at tokens
    change 3 * (((users.zipIdx 1000).map userGroup).length + 1) ≤ _ at tokens
    rw [length_map, length_zipIdx] at tokens
    change _ < 2048 at shortGroup
    omega
  have buff_le : BUFF ≤ 65536 := by decide
  refine step_of_room (grown.uid ⟨shortPasswd, shortGroup⟩) (group_gid grown.group few shortGroup)
    range range room ?_ ?_
  · rw [grown.passwd]
    exact shortPasswd.le.trans buff_le
  · rw [grown.group]
    exact shortGroup.le.trans buff_le

/-- Users whose names fit can be added as long as the files are short. -/
theorem run_of_room (room : ∀ user ∈ users, user.text.length ≤ 57) (short : Short users)
    (stack : List Byte) :
    ∃ system, Steps (fun system (user : UserName) next =>
      UserSystem.step stack system user.text = some next) shipped users system ∧
      Grown users system := by
  induction users using reverseRecOn with
  | nil => exact ⟨shipped, .refl, grown_shipped⟩
  | append_singleton users user ih =>
    obtain ⟨system, run, grown⟩ := ih
      (fun user member => room user (mem_append_left _ member)) short.init
    obtain ⟨next, step⟩ := grown.next short.init
      (room user (mem_append_right _ mem_cons_self)) stack
    exact ⟨next, run.step step, grown.step short.init step⟩

/-- Names of 57 characters, the most that fit. -/
def longNames (n : Nat) : List UserName :=
  (List.range n).map fun i => letters (Fin.ofNat 26 i) 56

theorem room_letters (i : Fin 26) : (letters i 56).text.length ≤ 57 :=
  (length_cons.trans (congrArg (· + 1) length_replicate)).le

theorem room_longNames (n : Nat) : ∀ user ∈ longNames n, user.text.length ≤ 57 := by
  intro user member
  obtain ⟨i, _, rfl⟩ := mem_map.mp member
  exact room_letters _

end Xv6.Database
