import Xv6.User.Auth
import Mathlib.Data.List.Basic

/-!
# Files of records and the column counters

A line of `/etc/passwd` or `/etc/group` is a record whose fields are not empty and hold
no colon, newline or NUL. On a file of such lines, each shorter than the buffer in all,
the calls of `strtok` are in step with the columns: the loops of `auth.c` visit the
fields of the records, one after another.
-/

namespace Xv6.Database

open User
open List hiding lookup

variable {text : List Byte} {delim : Byte}

/-- A field of a record. -/
structure Field where
  text : List Byte
  nonempty : text ≠ []
  clean : ∀ c ∈ text, c ≠ colon ∧ c ≠ newline ∧ c ≠ 0

/-- The bytes of a field, checked one by one. -/
theorem clean_of_all (all : text.all (fun c => c ≠ colon ∧ c ≠ newline ∧ c ≠ 0) = true) :
    ∀ c ∈ text, c ≠ colon ∧ c ≠ newline ∧ c ≠ 0 := by
  intro c member
  exact of_decide_eq_true (all_eq_true.mp all c member)

/-- A field whose text is checked by evaluation. -/
def Field.of (text : List Byte)
    (ok : (!text.isEmpty && text.all fun c => c ≠ colon ∧ c ≠ newline ∧ c ≠ 0) = true) : Field :=
  ⟨text, by simpa using (Bool.and_eq_true_iff.mp ok).1, clean_of_all (Bool.and_eq_true_iff.mp ok).2⟩

/-- A line: the fields with colons between them, and a newline. -/
def line : List Field → List Byte
  | [] => []
  | [last] => last.text ++ [newline]
  | field :: fields => field.text ++ colon :: line fields

/-- The file with these lines. -/
def serialize (records : List (List Field)) : List Byte := records.flatMap line

/-! ## `strtok` on fields -/

theorem strchr_singleton {b c : Byte} (nonzero : b ≠ 0) : (strchr [b] c).isSome ↔ b = c := by
  unfold strchr strchr
  rw [if_neg nonzero]
  split
  · rename_i same
    exact iff_of_true rfl same
  · rename_i different
    exact iff_of_false Bool.false_ne_true different

/-- A text that does not start with the delimiter is not skipped. -/
theorem strspn_zero {c : Byte} (nonzero : delim ≠ 0) (different : c ≠ delim) (rest : List Byte) :
    strspn (c :: rest) [delim] = 0 := by
  unfold strspn
  rw [if_neg]
  rintro ⟨_, found⟩
  exact different ((strchr_singleton nonzero).mp found).symm

/-- A text without the delimiter ends at it. -/
theorem strcspn_field (nonzero : delim ≠ 0) (inside : ∀ c ∈ text, c ≠ delim ∧ c ≠ 0)
    (rest : List Byte) : strcspn (text ++ delim :: rest) [delim] = text.length := by
  induction text with
  | nil =>
    change strcspn (delim :: rest) [delim] = 0
    unfold strcspn
    rw [if_neg nonzero, if_pos ((strchr_singleton nonzero).mpr rfl)]
  | cons c text ih =>
    obtain ⟨different, present⟩ := inside c mem_cons_self
    change strcspn (c :: (text ++ delim :: rest)) [delim] = text.length + 1
    unfold strcspn
    rw [if_neg present, if_neg fun found => different ((strchr_singleton nonzero).mp found).symm,
      ih fun c member => inside c (mem_cons_of_mem _ member)]

/-- `strtok` at a field that ends with the delimiter. -/
theorem strtok_field (nonzero : delim ≠ 0) (field : Field) (inside : ∀ c ∈ field.text, c ≠ delim)
    (rest : List Byte) (str p : Option (List Byte))
    (here : str.or p = some (field.text ++ delim :: rest)) :
    strtok str [delim] p = (some field.text, some rest) := by
  have ends := strcspn_field nonzero
    (fun c member => ⟨inside c member, (field.clean c member).2.2⟩) rest
  unfold strtok
  rw [here]
  obtain ⟨c, text, text_eq⟩ := exists_cons_of_ne_nil field.nonempty
  have skipped : strspn (field.text ++ delim :: rest) [delim] = 0 := by
    rw [text_eq]
    refine strspn_zero nonzero (inside c ?_) _
    rw [text_eq]
    exact mem_cons_self
  dsimp only
  rw [skipped, drop_zero, ends, if_neg (length_pos_of_ne_nil field.nonempty).ne',
    take_left, drop_left]
  dsimp only
  rw [if_neg nonzero]

/-- `strtok` at the end of the string. -/
theorem strtok_end (delim rest : List Byte) :
    strtok none delim (some (0 :: rest)) = (none, none) := by
  have skipped : strspn (0 :: rest) delim = 0 := by
    unfold strspn
    exact if_neg fun both => both.1 rfl
  have empty : strcspn (0 :: rest) delim = 0 := by
    unfold strcspn
    exact if_pos rfl
  unfold strtok
  dsimp only [Option.or]
  rw [skipped, drop_zero, empty, if_pos rfl]

/-! ## The loop on records -/

variable {State Result : Type}

/-- The body of the loop on the fields of a record, from a column on. -/
def visitFields (visit : Nat → List Byte → State → Visit State Result) :
    Nat → List Field → State → Visit State Result
  | _, [], state => .go state
  | counter, field :: fields, state =>
    (visit counter field.text state).andThen (visitFields visit (counter + 1) fields)

/-- The body of the loop on all records. -/
def visitRecords (visit : Nat → List Byte → State → Visit State Result) :
    List (List Field) → State → Visit State Result
  | [], state => .go state
  | fields :: records, state =>
    (visitFields visit 0 fields state).andThen (visitRecords visit records)

theorem andThen_assoc (visit : Visit State Result) (next last : State → Visit State Result) :
    (visit.andThen next).andThen last = visit.andThen fun state => (next state).andThen last := by
  cases visit with
  | go state => rfl
  | stop result => rfl

variable {table : Table} {visit : Nat → List Byte → State → Visit State Result}

/-- The delimiter with which `strtok` is called after a column. -/
def delimiter (table : Table) (counter : Nat) : Byte :=
  if counter = table.lineAt then newline else colon

theorem delimiter_eq (table : Table) (counter : Nat) :
    (if counter = table.lineAt then [newline] else [colon]) = [delimiter table counter] := by
  unfold delimiter
  split
  · rfl
  · rfl

/-- The column after which `strtok` is called with the newline is the last but one. -/
def Proper (table : Table) : Prop := table.columns = table.lineAt + 2

/-- One turn of the loop. -/
theorem scan_some (turns counter : Nat) (tok : List Byte) (p : Option (List Byte)) (state : State) :
    scan table visit (turns + 1) counter (some tok, p) state =
      (visit counter tok state).andThen fun state =>
        scan table visit turns (if counter + 1 = table.columns then 0 else counter + 1)
          (strtok none [delimiter table counter] p) state := by
  rw [← delimiter_eq]
  rfl

/-- From the next field of a line on, the rest of the line is visited, and then the loop is
at the start of the next line. -/
theorem scan_fields (proper : Proper table) {field : Field} {fields : List Field}
    {counter : Nat} (columns : counter + 1 + (field :: fields).length = table.columns)
    (rest : List Byte) (turns : Nat) (state : State) :
    scan table visit ((field :: fields).length + turns) (counter + 1)
        (strtok none [delimiter table counter] (some (line (field :: fields) ++ rest))) state =
      (visitFields visit (counter + 1) (field :: fields) state).andThen fun state =>
        scan table visit turns 0 (strtok none [colon] (some rest)) state := by
  unfold Proper at proper
  induction fields generalizing field counter state with
  | nil =>
    -- The last column was taken up to the newline.
    have last : counter = table.lineAt := by
      simp only [length_singleton] at columns
      omega
    have here : (none : Option (List Byte)).or (some (line [field] ++ rest)) =
        some (field.text ++ newline :: rest) := by
      change some ((field.text ++ [newline]) ++ rest) = _
      rw [append_assoc]
      rfl
    have wraps : counter + 1 + 1 = table.columns := columns
    have separator : delimiter table counter = newline := if_pos last
    have separator' : delimiter table (counter + 1) = colon := if_neg (by omega)
    rw [separator, strtok_field (by decide) field
      (fun c member => (field.clean c member).2.1) rest _ _ here,
      show [field].length + turns = turns + 1 from Nat.add_comm _ _, scan_some, separator',
      if_pos wraps]
    unfold visitFields
    rw [andThen_assoc]
    rfl
  | cons next fields ih =>
    simp only [length_cons] at columns
    have here : (none : Option (List Byte)).or (some (line (field :: next :: fields) ++ rest)) =
        some (field.text ++ colon :: (line (next :: fields) ++ rest)) := by
      change some ((field.text ++ colon :: line (next :: fields)) ++ rest) = _
      rw [append_assoc]
      rfl
    have continues : counter + 1 + 1 ≠ table.columns := by omega
    have separator : delimiter table counter = colon := if_neg (by omega)
    rw [separator, strtok_field (by decide) field
      (fun c member => (field.clean c member).1) _ _ _ here,
      show (field :: next :: fields).length + turns = (next :: fields).length + turns + 1 from
        Nat.add_right_comm _ _ _, scan_some, if_neg continues]
    unfold visitFields
    rw [andThen_assoc]
    congr 1
    funext state
    apply ih
    simp only [length_cons]
    omega

/-- From the start of a line on, the loop visits the records. -/
theorem scan_records (proper : Proper table) {records : List (List Field)}
    (columns : ∀ fields ∈ records, fields.length = table.columns) (rest : List Byte) {turns : Nat}
    (enough : table.columns * records.length < turns) (state : State) :
    scan table visit turns 0 (strtok none [colon] (some (serialize records ++ 0 :: rest))) state =
      visitRecords visit records state := by
  induction records generalizing turns state with
  | nil =>
    obtain ⟨left, rfl⟩ := Nat.exists_eq_add_of_lt enough
    change scan table visit (_ + left + 1) 0 (strtok none [colon] (some (0 :: rest))) state = _
    rw [strtok_end]
    rfl
  | cons fields records ih =>
    have length_eq := columns fields mem_cons_self
    unfold Proper at proper
    match fields, length_eq with
    | [], length_eq => simp at length_eq; omega
    | [_], length_eq => simp at length_eq; omega
    | field :: next :: others, length_eq =>
      have here : (none : Option (List Byte)).or
          (some (serialize ((field :: next :: others) :: records) ++ 0 :: rest)) =
          some (field.text ++ colon ::
            (line (next :: others) ++ (serialize records ++ 0 :: rest))) := by
        change some (((field.text ++ colon :: line (next :: others)) ++ serialize records) ++
          0 :: rest) = _
        simp only [append_assoc, cons_append]
      rw [length_cons, Nat.mul_add, Nat.mul_one, ← length_eq] at enough
      obtain ⟨left, left_gt, turns_eq⟩ : ∃ left, table.columns * records.length < left ∧
          turns = (next :: others).length + left + 1 := by
        refine ⟨turns - (next :: others).length - 1, ?_, ?_⟩
        · rw [← length_eq]
          simp only [length_cons] at enough ⊢
          omega
        · simp only [length_cons] at enough ⊢
          omega
      have continues : 0 + 1 ≠ table.columns := by omega
      rw [strtok_field (by decide) field (fun c member => (field.clean c member).1) _ _ _ here,
        turns_eq, scan_some, if_neg continues]
      unfold visitRecords visitFields
      rw [andThen_assoc]
      congr 1
      funext state
      rw [scan_fields proper (by simpa [Nat.add_comm] using length_eq)]
      congr 1
      funext state
      exact ih
        (fun fields member => columns fields (mem_cons_of_mem _ member)) left_gt state

/-! ## Lookups -/

theorem length_le_line (fields : List Field) : fields.length ≤ (line fields).length := by
  induction fields with
  | nil => exact Nat.zero_le _
  | cons field fields ih =>
    cases fields with
    | nil =>
      change 0 + 1 ≤ (field.text ++ [newline]).length
      rw [length_append]
      exact Nat.le_add_left _ _
    | cons next fields =>
      change _ ≤ (field.text ++ colon :: line (next :: fields)).length
      rw [length_append, length_cons, length_cons]
      exact (Nat.succ_le_succ ih).trans (Nat.le_add_left _ _)

/-- There are no more tokens than bytes. -/
theorem tokens_le_serialize {columns : Nat} {records : List (List Field)}
    (all : ∀ fields ∈ records, fields.length = columns) :
    columns * records.length ≤ (serialize records).length := by
  induction records with
  | nil => exact Nat.zero_le _
  | cons fields records ih =>
    have first := length_le_line fields
    rw [all fields mem_cons_self] at first
    have others := ih fun fields member => all fields (mem_cons_of_mem _ member)
    change _ ≤ (line fields ++ serialize records).length
    rw [length_append, length_cons, Nat.mul_add, Nat.mul_one, Nat.add_comm]
    exact Nat.add_le_add first others

theorem string_cstring (string : 0 ∉ text) (rest : List Byte) :
    cstring (text ++ 0 :: rest) = text := by
  unfold cstring
  rw [takeWhile_append_of_pos]
  · simp
  · intro c member
    exact decide_eq_true fun zero => string (zero ▸ member)

/-- A file that is shorter than the buffer is followed by a NUL. -/
theorem buff_of_short {contents : List Byte} (short : contents.length < BUFF) (stack : List Byte) :
    ∃ rest, buff stack contents = contents ++ 0 :: rest := by
  obtain ⟨left, left_eq⟩ := Nat.exists_eq_add_of_lt short
  refine ⟨replicate left 0 ++ stack, ?_⟩
  unfold buff
  rw [take_of_length_le short.le, show BUFF - contents.length = left + 1 by omega,
    replicate_succ, append_assoc]
  rfl

/-- What a lookup returns after the loop. -/
def outcome (finish : State → Result) : Visit State Result → Result
  | .stop result => result
  | .go state => finish state

/-- A lookup in a file of records visits them. -/
theorem lookup_records (proper : Proper table) {records : List (List Field)} (some_record : records ≠ [])
    (columns : ∀ fields ∈ records, fields.length = table.columns)
    (short : (serialize records).length < BUFF) (start : State) (failed : Result)
    (finish : State → Result) (stack : List Byte) :
    lookup table visit start failed finish stack (some (serialize records)) =
      outcome finish (visitRecords visit records start) := by
  obtain ⟨rest, memory_eq⟩ := buff_of_short short stack
  have tokens := tokens_le_serialize columns
  have written : serialize records ≠ [] := by
    intro empty
    rw [empty] at tokens
    have positive : 0 < table.columns * records.length := by
      unfold Proper at proper
      exact Nat.mul_pos (by omega) (length_pos_of_ne_nil some_record)
    exact absurd tokens (by simpa using positive.ne')
  obtain ⟨c, cs, contents_eq⟩ := exists_cons_of_ne_nil written
  have visited : scan table visit ((buff stack (serialize records)).length + 1) 0
      (strtok (some (buff stack (serialize records))) [colon] none) start =
        visitRecords visit records start := by
    rw [memory_eq]
    apply scan_records proper columns
    rw [length_append]
    exact Nat.lt_succ_of_le (tokens.trans (Nat.le_add_right _ _))
  rw [← visited]
  unfold lookup
  rw [contents_eq]
  dsimp only
  generalize scan table visit _ _ _ _ = visit
  cases visit with
  | go state => rfl
  | stop result => rfl

/-- A lookup that returns at the first record of some kind, and otherwise a fixed value:
between two records its local variables are as at the start, as far as it matters. -/
theorem visitRecords_find {Record : Type} (fields : Record → List Field) (wanted : Record → Bool)
    (value : Record → Result) (between : State → Prop)
    (found : ∀ record state, between state → wanted record = true →
      visitFields visit 0 (fields record) state = .stop (value record))
    (missed : ∀ record state, between state → wanted record = false →
      ∃ next, visitFields visit 0 (fields record) state = .go next ∧ between next)
    (missing : Result) (records : List Record) {state : State} (start : between state) :
    outcome (fun _ => missing) (visitRecords visit (records.map fields) state) =
      ((records.find? wanted).map value).getD missing := by
  induction records generalizing state with
  | nil => rfl
  | cons record records ih =>
    rw [map_cons, find?_cons]
    unfold visitRecords
    cases want : wanted record with
    | true =>
      rw [found record state start want]
      rfl
    | false =>
      obtain ⟨next, visited, between⟩ := missed record state start want
      rw [visited]
      exact ih between

end Xv6.Database
