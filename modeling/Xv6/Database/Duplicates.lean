import Xv6.Database.Growth
import Xv6.User.Groupadd

/-!
# Numbers that are taken

`validateuid` and `validategid` return `-1` for a number that is taken, as an unsigned
number, and `useradd` and `groupadd` ask whether that is negative. So the number is never
refused, and the runs that change nothing are those that fail for another reason.
-/

namespace Xv6.Database

open User List

variable {argv : List (List Byte)}

/-! ## The check refuses nothing -/

theorem not_neg (number : UInt32) : ¬number < 0 := by
  rw [UInt32.lt_iff_toNat_lt]
  exact Nat.not_lt_zero _

/-- What is asked of a name that is given. -/
theorem forall_given_iff {Name : Type} {given : Option Name} {name : Name} (eq : given = some name)
    (p : Name → Prop) : (∀ name, given = some name → p name) ↔ p name := by
  subst eq
  exact ⟨fun all => all name rfl, fun holds _ same => Option.some.inj same ▸ holds⟩

theorem directories_useraddWrites {stack : List Byte} {args : UseraddArgs} {user : List Byte}
    {uid gid : Int32} {disk after : UserDisk}
    (run : useraddWrites stack args user uid gid disk = some after) :
    after.directories = disk.directories := by
  unfold useraddWrites at run
  dsimp only at run
  split at run
  · cases run
  · split at run
    · cases run
      rfl
    · split at run
      · cases run
      · split at run
        · cases run
          rfl
        · cases run
          rfl

/-- A run of `useradd` that has the name of a user leaves the disk alone only if `mkdir`
fails. -/
theorem useraddRun_eq_self_iff (stack : List Byte) (made : Bool) (disk : UserDisk)
    {args : UseraddArgs} (parsed : useraddArgs .undefined
      { user := none, dir := [], uid := -1, name := none } argv = some args) :
    useraddRun stack made argv disk = some disk ↔
      ∀ user, args.user = some user → (args.directory user).length < 64 ∧ made = false := by
  unfold useraddRun
  rw [parsed]
  dsimp only
  split
  · rename_i nobody
    exact iff_of_true rfl fun user somebody => absurd (nobody.symm.trans somebody) nofun
  · rename_i user somebody
    rw [if_neg fun refused => not_neg _ refused.2]
    rw [forall_given_iff somebody]
    split
    · rename_i long
      exact iff_of_false nofun fun both => absurd both.1 (Nat.not_lt_of_le long)
    · rename_i fits
      split
      · rename_i missing
        exact iff_of_true rfl ⟨Nat.lt_of_not_le fits, missing⟩
      · rename_i present
        refine iff_of_false (fun run => ?_) fun both => present both.2
        -- a directory has been made
        have grown := congrArg List.length (directories_useraddWrites run)
        exact absurd grown (Nat.succ_ne_self _).symm

/-- `useradd` is the run, as far as it tells of the files. -/
theorem useradd_files {stack : List Byte} {made : Bool} {disk after : UserDisk}
    (run : useraddRun stack made argv disk = some after) :
    (useradd stack made argv disk.files).2 = after.files := by
  unfold useraddRun at run
  unfold useradd
  cases parsed : useraddArgs .undefined { user := none, dir := [], uid := -1, name := none } argv with
  | none =>
    rw [parsed] at run
    cases run
    rfl
  | some args =>
    obtain ⟨user, dir, uid, name⟩ := args
    rw [parsed] at run
    cases user with
    | none =>
      cases run
      rfl
    | some user =>
      simp only [useraddWrites, UseraddArgs.directory] at run ⊢
      rw [if_neg fun refused => not_neg _ refused.2] at run
      generalize (home ++ if dir = [] then user else dir) = directory at *
      generalize (if uid = -1 then (nextuid stack (some disk.files.passwd)).toInt32 else uid) = uid at *
      generalize (nextgid stack (some disk.files.group)).toInt32 = gid at *
      split at run
      · cases run
      · rename_i fits
        split at run
        · rename_i missing
          cases run
          rw [if_neg fun all => Bool.false_ne_true (missing.symm.trans all.1)]
        · rename_i present
          split at run
          · cases run
          · rename_i room
            rw [not_or, not_or] at room
            split at run
            · cases run
              rw [ite_self]
            · split at run
              · cases run
              · rename_i groupRoom
                rw [if_pos ⟨Bool.of_not_eq_false present, Nat.lt_of_not_le fits, Nat.lt_of_not_le room.1,
                  Nat.lt_of_not_le groupRoom, Nat.lt_of_not_le room.2.1, Nat.lt_of_not_le room.2.2⟩]
                split at run
                · cases run
                  rfl
                · cases run
                  rfl

/-! ## What `groupadd` writes -/

theorem overlay_eq_self_iff (contents : List Byte) (off : Nat) (bytes : List Byte) :
    overlay contents off bytes = contents ↔ bytes <+: contents.drop off := by
  rw [prefix_iff_eq_append, drop_drop]
  unfold overlay
  rw [append_assoc]
  conv_lhs => rhs; rw [← take_append_drop off contents]
  exact append_right_inj _

/-- A line that is not written, or written where it stands. This takes a file that is too long
for the buffer of `grouplen`, which then returns some other place. -/
def Lost (stack file entry : List Byte) : Prop :=
  BUFF ≤ file.length ∧ entry.length < 256 ∧
    (MAXFILE * BSIZE < min (grouplen stack (some file)) file.length + entry.length ∨
      entry <+: file.drop (min (grouplen stack (some file)) file.length))

theorem extend_lost_iff (stack : List Byte) (groups : List GroupRecord) {entry : List Byte}
    (nonempty : entry ≠ []) (room : entry.length < 256) :
    (extend (groupFile groups) (grouplen stack (some (groupFile groups))) entry).getD (groupFile groups) =
      groupFile groups ↔ Lost stack (groupFile groups) entry := by
  have written : (extend (groupFile groups) (grouplen stack (some (groupFile groups))) entry).getD
      (groupFile groups) = groupFile groups ↔
        MAXFILE * BSIZE < min (grouplen stack (some (groupFile groups))) (groupFile groups).length +
          entry.length ∨
        entry <+: (groupFile groups).drop
          (min (grouplen stack (some (groupFile groups))) (groupFile groups).length) := by
    unfold extend
    dsimp only
    split
    · rename_i small
      rw [or_iff_right (Nat.not_lt_of_le small)]
      exact overlay_eq_self_iff _ _ entry
    · rename_i large
      exact iff_of_true rfl (.inl (Nat.lt_of_not_le large))
  rw [written]
  unfold Lost
  rw [and_iff_right room]
  refine (and_iff_right_of_imp fun lost => ?_).symm
  -- a shorter file ends where `grouplen` says
  by_contra short
  rw [Nat.not_le] at short
  have off : grouplen stack (some (groupFile groups)) = (groupFile groups).length := filelen_eq _ short stack
  rw [off, Nat.min_self, drop_length] at lost
  rcases lost with large | stands
  · exact absurd ((Nat.add_lt_add short room).trans_le' large.le) (by decide)
  · exact nonempty (prefix_nil.mp stands)

theorem groupadd_eq_self_iff (stack : List Byte) (groups : List GroupRecord) {args : GroupaddArgs}
    (parsed : groupaddArgs .undefined { group := none, gid := -1 } argv = some args) :
    groupadd stack argv (groupFile groups) = some (groupFile groups) ↔
      ∀ group, args.group = some group →
        (itoa (groupaddNumber stack args (groupFile groups))).length < 10 ∧
          Lost stack (groupFile groups)
            (groupaddEntry group (groupaddNumber stack args (groupFile groups))) := by
  unfold groupadd
  rw [parsed]
  dsimp only
  split
  · rename_i nobody
    exact iff_of_true rfl fun group somebody => absurd (nobody.symm.trans somebody) nofun
  · rename_i group somebody
    rw [if_neg fun refused => not_neg _ refused.2, forall_given_iff somebody]
    generalize groupaddNumber stack args (groupFile groups) = gid
    split
    · rename_i excess
      refine iff_of_false nofun fun both => ?_
      rcases excess with long | long
      · exact absurd both.2.2.1 (Nat.not_lt_of_le long)
      · exact absurd both.1 (Nat.not_lt_of_le long)
    · rename_i fits
      rw [not_or, Nat.not_le, Nat.not_le] at fits
      have nonempty : groupaddEntry group gid ≠ [] := append_ne_nil_of_right_ne_nil _ (cons_ne_nil _ _)
      rw [and_iff_right fits.2, ← extend_lost_iff stack groups nonempty fits.1]
      cases extend (groupFile groups) (grouplen stack (some (groupFile groups))) (groupaddEntry group gid) with
      | none => exact iff_of_true rfl rfl
      | some file => exact Option.some_inj

/-! ## Numbers given on the command line -/

/-- The disk with the users, the groups and the directories. -/
def databaseDisk (users : List PasswdRecord) (groups : List GroupRecord)
    (directories : List (List Byte × Int32 × Int32)) : UserDisk :=
  { files := { passwd := passwdFile users, group := groupFile groups }, directories := directories }

/-- `-u 0 bob`. -/
def bobAsRoot : List (List Byte) := [[45, 117], [48], [98, 111, 98]]

/-- `-g 0 staff`. -/
def staffAsRoot : List (List Byte) := [[45, 103], [48], [115, 116, 97, 102, 102]]

end Xv6.Database
