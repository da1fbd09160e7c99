import Xv6.Database.Lookup

/-!
# The next free number

`nextuid` and `nextgid` pass over the file once and raise their number whenever they meet
it. So they come past the numbers that stand in the file in ascending order, from 1000
on, and stop at the first that does not, even if it stands further up in the file.
-/

namespace Xv6.Database

open User List UInt32

/-! ## One pass -/

/-- The number after a pass over a list. -/
def climb (start : Nat) (list : List Nat) : Nat :=
  list.foldl (fun n x => if x = n then n + 1 else n) start

theorem climb_cons (start x : Nat) (list : List Nat) :
    climb start (x :: list) = climb (if x = start then start + 1 else start) list := rfl

theorem le_climb (start : Nat) (list : List Nat) : start ≤ climb start list := by
  induction list generalizing start with
  | nil => exact Nat.le_refl _
  | cons x list ih =>
    rw [climb_cons]
    split
    · exact (Nat.le_succ _).trans (ih _)
    · exact ih _

theorem climb_le (start : Nat) (list : List Nat) : climb start list ≤ start + list.length := by
  induction list generalizing start with
  | nil => exact Nat.le_refl _
  | cons x list ih =>
    rw [climb_cons, length_cons]
    split
    · exact (ih _).trans_eq (by omega)
    · exact (ih _).trans (by omega)

/-- The pass comes past the numbers that stand in the list in this order. -/
theorem add_le_climb_iff (start k : Nat) (list : List Nat) :
    start + k ≤ climb start list ↔ (List.range' start k).Sublist list := by
  induction list generalizing start k with
  | nil =>
    cases k with
    | zero => exact iff_of_true (Nat.le_refl _) (List.Sublist.refl _)
    | succ k =>
      refine iff_of_false (Nat.not_le_of_lt (Nat.lt_add_of_pos_right (Nat.succ_pos k))) ?_
      rw [List.range'_succ, sublist_nil]
      exact cons_ne_nil _ _
  | cons x list ih =>
    cases k with
    | zero => exact iff_of_true (le_climb ..) (nil_sublist _)
    | succ k =>
      rw [climb_cons, List.range'_succ]
      split
      · rename_i same
        rw [same, cons_sublist_cons, ← ih, Nat.add_right_comm, Nat.add_assoc]
      · rename_i different
        rw [cons_sublist_cons', ← List.range'_succ, ih]
        exact (or_iff_left fun both => different both.1.symm).symm

/-- A number that stands in a list stands there after all smaller ones, from the start on, if
those are in order. -/
def Rising (start : Nat) (list : List Nat) : Prop :=
  ∀ k, (List.range' start k).Sublist list → start + k ∈ list → (List.range' start (k + 1)).Sublist list

theorem climb_notMem_iff (start : Nat) (list : List Nat) :
    climb start list ∉ list ↔ Rising start list := by
  constructor
  · intro fresh k passed member
    rw [← add_le_climb_iff] at passed ⊢
    refine Nat.lt_of_le_of_ne passed fun top => fresh ?_
    rwa [← top]
  · intro rising member
    obtain ⟨k, top⟩ := Nat.exists_eq_add_of_le (le_climb start list)
    rw [top] at member
    have further := rising k ((add_le_climb_iff start k list).mp top.ge) member
    rw [← add_le_climb_iff, top] at further
    exact absurd further (Nat.not_succ_le_self _)

/-! ## `nextuid` and `nextgid` -/

theorem nextVisit_skip {column counter : Nat} (other : counter ≠ column) (tok : List Byte)
    (min : UInt32) : nextVisit column counter tok min = .go min :=
  if_neg fun hit => other hit.1

theorem nextVisit_number {column n : Nat} (lower : 1000 ≤ n) (small : n < 2 ^ 31) (tok : List Byte) :
    nextVisit column column tok (UInt32.ofNat n) =
      .go (UInt32.ofNat (if (atoi tok).toUInt32.toNat = n then n + 1 else n)) := by
  have same : (atoi tok).toUInt32 = ofNat n ↔ (atoi tok).toUInt32.toNat = n := by
    rw [← UInt32.toNat_inj, UInt32.toNat_ofNat_of_lt' (small.trans (by decide))]
  have least : (atoi tok).toUInt32.toNat = n → 1000 ≤ atoi tok := by
    intro value
    have positive : (atoi tok).toInt = (atoi tok).toUInt32.toNat :=
      BitVec.toInt_eq_toNat_of_lt (by change 2 * (atoi tok).toUInt32.toNat < 2 ^ 32; omega)
    rw [Int32.le_iff_toInt_le, positive, value]
    exact Int.ofNat_le.mpr lower
  unfold nextVisit
  dsimp only
  split
  · rename_i hit
    rw [if_pos (same.mp hit.2.2), ofNat_add]
    rfl
  · rename_i miss
    rw [if_neg fun value => miss ⟨rfl, least value, same.mpr value⟩]

/-- The loops on records, by what they do with one. -/
theorem visitRecords_climb {Record : Type} {column : Nat} (fields : Record → List Field)
    (number : Record → UInt32)
    (each : ∀ record n, 1000 ≤ n → n < 2 ^ 31 →
      visitFields (nextVisit column) 0 (fields record) (UInt32.ofNat n) =
        .go (UInt32.ofNat (if (number record).toNat = n then n + 1 else n)))
    (records : List Record) {n : Nat} (lower : 1000 ≤ n) (small : n + records.length < 2 ^ 31) :
    visitRecords (nextVisit column) (records.map fields) (UInt32.ofNat n) =
      .go (UInt32.ofNat (climb n (records.map fun record => (number record).toNat))) := by
  induction records generalizing n with
  | nil => rfl
  | cons record records ih =>
    rw [length_cons] at small
    rw [map_cons, map_cons, climb_cons]
    unfold visitRecords
    rw [each record n lower (by omega)]
    split
    · exact ih (by omega) (by omega)
    · exact ih lower (by omega)

theorem visitFields_passwd (record : PasswdRecord) (n : Nat) (lower : 1000 ≤ n) (small : n < 2 ^ 31) :
    visitFields (nextVisit 2) 0 record.fields (UInt32.ofNat n) =
      .go (UInt32.ofNat (if record.uidNumber.toNat = n then n + 1 else n)) := by
  simp only [PasswdRecord.fields, visitFields, Nat.zero_add, Nat.reduceAdd, Visit.andThen,
    nextVisit_number lower small, nextVisit_skip (show 0 ≠ 2 by decide),
    nextVisit_skip (show 1 ≠ 2 by decide), nextVisit_skip (show 3 ≠ 2 by decide),
    nextVisit_skip (show 4 ≠ 2 by decide), nextVisit_skip (show 5 ≠ 2 by decide)]
  rfl

theorem visitFields_group (record : GroupRecord) (n : Nat) (lower : 1000 ≤ n) (small : n < 2 ^ 31) :
    visitFields (nextVisit 1) 0 record.fields (UInt32.ofNat n) =
      .go (UInt32.ofNat (if record.gidNumber.toNat = n then n + 1 else n)) := by
  simp only [GroupRecord.fields, visitFields, Nat.zero_add, Nat.reduceAdd, Visit.andThen,
    nextVisit_number lower small, nextVisit_skip (show 0 ≠ 1 by decide),
    nextVisit_skip (show 2 ≠ 1 by decide)]
  rfl

/-- A file shorter than the buffers has few lines. -/
theorem few_records {columns : Nat} {records : List (List Field)} (positive : 0 < columns)
    (all : ∀ fields ∈ records, fields.length = columns) (short : (serialize records).length < BUFF) :
    1000 + records.length < 2 ^ 31 := by
  have tokens := tokens_le_serialize all
  have lines : 1 * records.length ≤ columns * records.length := Nat.mul_le_mul_right _ positive
  unfold BUFF at short
  omega

/-- The uids of the records, and the gids, as numbers. -/
def uids (records : List PasswdRecord) : List Nat := records.map fun record => record.uidNumber.toNat

def gids (records : List GroupRecord) : List Nat := records.map fun record => record.gidNumber.toNat

theorem nextuid_climb {records : List PasswdRecord} (some_record : records ≠ [])
    (short : (passwdFile records).length < BUFF) (stack : List Byte) :
    nextuid stack (some (passwdFile records)) = UInt32.ofNat (climb 1000 (uids records)) := by
  have few := few_records (by decide) (passwd_columns records) short
  rw [length_map] at few
  unfold nextuid passwdFile
  rw [lookup_records proper_passwdTable (fun empty => some_record (map_eq_nil_iff.mp empty))
    (passwd_columns records) short]
  change Database.outcome id (visitRecords (nextVisit 2) _ (ofNat 1000)) = _
  rw [visitRecords_climb PasswdRecord.fields PasswdRecord.uidNumber visitFields_passwd records le_rfl few]
  rfl

theorem nextgid_climb {records : List GroupRecord} (some_record : records ≠ [])
    (short : (groupFile records).length < BUFF) (stack : List Byte) :
    nextgid stack (some (groupFile records)) = UInt32.ofNat (climb 1000 (gids records)) := by
  have few := few_records (by decide) (group_columns records) short
  rw [length_map] at few
  unfold nextgid groupFile
  rw [lookup_records proper_groupTable (fun empty => some_record (map_eq_nil_iff.mp empty))
    (group_columns records) short]
  change Database.outcome id (visitRecords (nextVisit 1) _ (ofNat 1000)) = _
  rw [visitRecords_climb GroupRecord.fields GroupRecord.gidNumber visitFields_group records le_rfl few]
  rfl

/-! ## Is the number free? -/

/-- A number for a new user or group. -/
def Fresh (number : UInt32) (taken : List Nat) : Prop := 1000 ≤ number ∧ number.toNat ∉ taken

theorem fresh_climb_iff {numbers : List Nat} (few : 1000 + numbers.length < 2 ^ 31) :
    Fresh (UInt32.ofNat (climb 1000 numbers)) numbers ↔ Rising 1000 numbers := by
  have high := climb_le 1000 numbers
  have low := le_climb 1000 numbers
  have value : (ofNat (climb 1000 numbers)).toNat = climb 1000 numbers :=
    toNat_ofNat_of_lt' ((high.trans_lt few).trans (by decide))
  unfold Fresh
  rw [value, climb_notMem_iff, le_iff_toNat_le, value]
  exact and_iff_right low

/-- The number that is returned for an empty file is that of root. -/
theorem not_fresh_zero (taken : List Nat) : ¬Fresh 0 taken := fun fresh => absurd fresh.1 (by decide)

/-- The new uid is free if and only if the file is not empty and the uids in it, from 1000
on, stand in ascending order; and so with the new gid. -/
theorem next_number_fresh_iff (stack : List Byte) (users : List PasswdRecord) (groups : List GroupRecord)
    (shortUsers : (passwdFile users).length < BUFF) (shortGroups : (groupFile groups).length < BUFF) :
    (Fresh (nextuid stack (some (passwdFile users))) (uids users) ↔
        users ≠ [] ∧ Rising 1000 (uids users)) ∧
      (Fresh (nextgid stack (some (groupFile groups))) (gids groups) ↔
        groups ≠ [] ∧ Rising 1000 (gids groups)) := by
  constructor
  · by_cases empty : users = []
    · subst empty
      exact iff_of_false (not_fresh_zero _) fun both => both.1 rfl
    · have few := few_records (by decide) (passwd_columns users) shortUsers
      rw [length_map] at few
      rw [nextuid_climb empty shortUsers, fresh_climb_iff (by rwa [uids, length_map])]
      exact (and_iff_right empty).symm
  · by_cases empty : groups = []
    · subst empty
      exact iff_of_false (not_fresh_zero _) fun both => both.1 rfl
    · have few := few_records (by decide) (group_columns groups) shortGroups
      rw [length_map] at few
      rw [nextgid_climb empty shortGroups, fresh_climb_iff (by rwa [gids, length_map])]
      exact (and_iff_right empty).symm

/-- The line of a user with this name and number. -/
def numberedRecord (name : Byte) (number : List Byte)
    (clean : (name :: number).all (fun c => c ≠ colon ∧ c ≠ newline ∧ c ≠ 0) = true)
    (nonempty : number ≠ []) : PasswdRecord :=
  { rootRecord with
    name := ⟨[name], List.cons_ne_nil _ _, fun c member =>
      clean_of_all clean c (by rw [List.mem_singleton.mp member]; exact List.mem_cons_self)⟩
    uid := ⟨number, nonempty, fun c member => clean_of_all clean c (List.mem_cons_of_mem _ member)⟩ }

/-- The users after `useradd -u 1001 a` and `useradd b`. -/
def outOfOrder : List PasswdRecord :=
  [rootRecord, numberedRecord 97 [49, 48, 48, 49] (by decide) (by decide),
    numberedRecord 98 [49, 48, 48, 48] (by decide) (by decide)]

/-- The next user gets the uid of the first, and of an empty file the uid of root. -/
theorem nextuid_takes_again :
    (nextuid [] (some (passwdFile outOfOrder)) = 1001 ∧ 1001 ∈ uids outOfOrder) ∧
      nextuid [] (some (passwdFile [])) = 0 := by
  refine ⟨⟨?_, by decide⟩, rfl⟩
  rw [@nextuid_climb outOfOrder (cons_ne_nil _ _) (by decide)]
  decide

/-- With the users in order, the next one gets a number of its own. -/
theorem next_number_fresh_iff_root :
    Fresh (nextuid [] (some (passwdFile [rootRecord]))) (uids [rootRecord]) ↔
      [rootRecord] ≠ [] ∧ Rising 1000 (uids [rootRecord]) :=
  (next_number_fresh_iff [] [rootRecord] [] (by decide) (by decide)).1

end Xv6.Database
