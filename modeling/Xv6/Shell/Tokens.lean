import Mathlib.Data.List.Infix
import Mathlib.Data.List.TakeWhile
import Xv6.Semantics.Program
import Xv6.User.Sh

/-!
# The tokens of a line

`tokens` cuts a line into symbols and maximal words. `gettoken` returns the first of
them and moves behind it, and `peek` looks at it.
-/

namespace Xv6.Shell

open Program User List

variable {set rest : List Byte} {c : Byte} {fault : Halt → List Byte → Prop}

inductive Token where
  | word (text : List Byte)
  /-- `<`. -/
  | input
  /-- `>`. -/
  | output
  /-- `>>`. -/
  | append
  /-- `|`. -/
  | pipe
  /-- `&`. -/
  | back
  /-- `;`. -/
  | list
  | opened
  | closed
deriving DecidableEq, Repr

/-- A space. -/
def White (c : Byte) : Prop := c ∈ whitespace

/-- A character of words: neither a space nor a symbol. -/
def Wordy (c : Byte) : Prop := c ∉ whitespace ∧ c ∉ symbols

instance (c : Byte) : Decidable (White c) := inferInstanceAs (Decidable (c ∈ whitespace))

instance (c : Byte) : Decidable (Wordy c) := inferInstanceAs (Decidable (_ ∧ _))

/-- The symbol that is a token by itself, if any. -/
def symbol : Byte → Option Token
  | 60 => some .input
  | 62 => some .output
  | 124 => some .pipe
  | 38 => some .back
  | 59 => some .list
  | 40 => some .opened
  | 41 => some .closed
  | _ => none

/-- Add a character to the word that the tokens start with. -/
def join (c : Byte) : List Token → List Token
  | .word text :: rest => .word (c :: text) :: rest
  | rest => .word [c] :: rest

/-- The text starts with a character of a word. -/
def Word : List Byte → Prop
  | [] => False
  | c :: _ => Wordy c

instance : (text : List Byte) → Decidable (Word text)
  | [] => inferInstanceAs (Decidable False)
  | c :: _ => inferInstanceAs (Decidable (Wordy c))

/-- The tokens of a text. -/
def tokens : List Byte → List Token
  | [] => []
  | c :: rest =>
    if White c then tokens rest
    else if Wordy c then if Word rest then join c (tokens rest) else .word [c] :: tokens rest
    else if c = 62 then
      match rest with
      | [] => [.output]
      | d :: rest => if d = 62 then .append :: tokens rest else .output :: tokens (d :: rest)
    else (symbol c).toList ++ tokens rest

example : tokens [97, 98, 32, 62, 62, 62, 40, 99] =
    [.word [97, 98], .append, .output, .opened, .word [99]] := by decide

/-! ## Characters -/

theorem strchr_isSome (string : 0 ∉ set) (c : Byte) : (strchr set c).isSome = decide (c ∈ set) := by
  induction set with
  | nil => rfl
  | cons b set ih =>
    have nonzero : b ≠ 0 := fun zero => string (zero ▸ mem_cons_self)
    have rest := ih fun member => string (mem_cons_of_mem _ member)
    by_cases same : b = c
    · subst same
      simp [strchr, nonzero]
    · simp [strchr, nonzero, same, rest, Ne.symm same]

@[simp] theorem strchr_whitespace (c : Byte) :
    (strchr whitespace c).isSome = decide (c ∈ whitespace) :=
  strchr_isSome (by decide) c

@[simp] theorem strchr_symbols (c : Byte) : (strchr symbols c).isSome = decide (c ∈ symbols) :=
  strchr_isSome (by decide) c

theorem skip_cons (c : Byte) (s : List Byte) :
    skip (c :: s) = if White c then skip s else c :: s := by
  by_cases white : White c
  · rw [if_pos white]
    exact dropWhile_cons_of_pos ((strchr_whitespace c).trans (decide_eq_true white))
  · rw [if_neg white]
    refine dropWhile_cons_of_neg ?_
    rw [strchr_whitespace, decide_eq_true_iff]
    exact white

theorem tokens_white (white : White c) (rest : List Byte) : tokens (c :: rest) = tokens rest := by
  cases rest <;> simp [tokens, white]

theorem tokens_wordy (wordy : Wordy c) (rest : List Byte) :
    tokens (c :: rest) = if Word rest then join c (tokens rest) else .word [c] :: tokens rest := by
  have notWhite : ¬White c := wordy.1
  cases rest <;> simp [tokens, notWhite, wordy]

theorem tokens_skip (s : List Byte) : tokens (skip s) = tokens s := by
  induction s with
  | nil => rfl
  | cons c s ih =>
    rw [skip_cons]
    by_cases white : White c
    · rw [if_pos white, ih, tokens_white white]
    · rw [if_neg white]

theorem skip_suffix (s : List Byte) : skip s <:+ s := dropWhile_suffix _

/-- There is no space where the skipping ends. -/
theorem not_white_skip {s : List Byte} (skip_eq : skip s = c :: rest) : ¬White c := by
  induction s with
  | nil => cases skip_eq
  | cons d s ih =>
    rw [skip_cons] at skip_eq
    by_cases white : White d
    · rw [if_pos white] at skip_eq
      exact ih skip_eq
    · rw [if_neg white] at skip_eq
      cases skip_eq
      exact white

/-! ## The first token -/

/-- A word ends where no character of a word follows. -/
theorem tokens_word {text : List Byte} (nonempty : text ≠ []) (wordy : ∀ c ∈ text, Wordy c)
    (stop : ¬Word rest) : tokens (text ++ rest) = .word text :: tokens rest := by
  induction text with
  | nil => exact absurd rfl nonempty
  | cons c text ih =>
    have first := wordy c mem_cons_self
    cases text with
    | nil =>
      change tokens (c :: rest) = _
      rw [tokens_wordy first, if_neg stop]
    | cons d text =>
      have following : Word (d :: text ++ rest) := wordy d (by simp)
      have tail := ih (cons_ne_nil d text) fun c member =>
        wordy c (mem_cons_of_mem _ member)
      change tokens (c :: (d :: text ++ rest)) = _
      rw [tokens_wordy first, if_pos following, tail]
      rfl

/-- What `gettoken` returns for a token. -/
def Token.code : Token → Byte
  | .word _ => 97
  | .input => 60
  | .output => 62
  | .append => 43
  | .pipe => 124
  | .back => 38
  | .list => 59
  | .opened => 40
  | .closed => 41

/-- The symbol that a token starts with. -/
def Token.first : Token → Option Byte
  | .word _ => none
  | .input => some 60
  | .output | .append => some 62
  | .pipe => some 124
  | .back => some 38
  | .list => some 59
  | .opened => some 40
  | .closed => some 41

/-- The first of the tokens starts with one of the symbols. -/
def starts (set : List Byte) (toks : List Token) : Bool :=
  (toks.head?.bind Token.first).any fun c => decide (c ∈ set)

/-- The counted string is a maximal word of the line. -/
structure Spells (line : List Byte) (span : Span) (text : List Byte) : Prop where
  suffix : span.q <:+ line
  split : span.q = text ++ span.eq
  wordy : ∀ c ∈ text, Wordy c
  stop : ¬Word span.eq

/-- The token at a pointer is the first of the tokens from there on. -/
structure Scanned (s : List Byte) (tok : Token) (eq : List Byte) : Prop where
  scan : scanToken s = (tok.code, eq)
  reads : tokens s = tok :: tokens eq
  suffix : eq <:+ s
  shorter : eq.length < s.length
  first : tok.first = s.head?.filter fun c => decide (c ∈ symbols)
  word : ∀ text, tok = .word text → s = text ++ eq ∧ (∀ c ∈ text, Wordy c) ∧ ¬Word eq

theorem wordy_strchr : (fun c => decide (¬(strchr whitespace c).isSome = true ∧
    ¬(strchr symbols c).isSome = true)) = fun c => decide (Wordy c) := by
  funext c
  simp only [strchr_whitespace, strchr_symbols, decide_eq_true_iff]
  rfl

theorem scanned_word (nonzero : c ≠ 0) (wordy : Wordy c) :
    ∃ tok eq, Scanned (c :: rest) tok eq := by
  have scan : scanToken (c :: rest) = (97, (c :: rest).dropWhile fun c => decide (Wordy c)) := by
    have plain : ∀ d ∈ symbols, c ≠ d := fun d member same => wordy.2 (same ▸ member)
    unfold scanToken
    dsimp only
    rw [wordy_strchr, if_neg nonzero, if_neg, if_neg (plain 62 (by decide))]
    rintro (same | same | same | same | same | same) <;> exact plain _ (by decide) same
  have split := takeWhile_append_dropWhile (p := fun c => decide (Wordy c)) (l := c :: rest)
  have nonempty : (c :: rest).takeWhile (fun c => decide (Wordy c)) ≠ [] := by
    simp [wordy]
  have all : ∀ d ∈ (c :: rest).takeWhile (fun c => decide (Wordy c)), Wordy d := fun d member =>
    of_decide_eq_true (mem_takeWhile_imp (p := fun c => decide (Wordy c)) member)
  have stop : ¬Word ((c :: rest).dropWhile fun c => decide (Wordy c)) := by
    intro word
    cases left : (c :: rest).dropWhile fun c => decide (Wordy c) with
    | nil => simp [left, Word] at word
    | cons d left' =>
      have first := List.head?_dropWhile_not (fun c => decide (Wordy c)) (c :: rest)
      rw [left] at first word
      simp at first
      exact first word
  refine ⟨.word ((c :: rest).takeWhile fun c => decide (Wordy c)), _, scan, ?_,
    dropWhile_suffix _, ?_, ?_, ?_⟩
  · rw [← tokens_word nonempty all stop, split]
  · have lengths := congrArg List.length split
    have := length_pos_of_ne_nil nonempty
    rw [length_append] at lengths
    omega
  · exact (Option.filter_some_neg (by simpa using wordy.2)).symm
  · rintro text ⟨⟩
    exact ⟨split.symm, all, stop⟩

theorem tokens_output (rest : List Byte) :
    tokens (62 :: rest) = if deref rest = 62 then .append :: tokens rest.tail
      else .output :: tokens rest := by
  cases rest with
  | nil => decide
  | cons d rest =>
    have notWhite : ¬White 62 := by decide
    have notWordy : ¬Wordy 62 := by decide
    simp [tokens, notWhite, notWordy, deref]

theorem tokens_symbol {tok : Token} (known : symbol c = some tok) (notWhite : ¬White c)
    (notWordy : ¬Wordy c) (single : c ≠ 62) (rest : List Byte) :
    tokens (c :: rest) = tok :: tokens rest := by
  cases rest <;> simp [tokens, known, notWhite, notWordy, single]

theorem scanned_output (rest : List Byte) : ∃ tok eq, Scanned (62 :: rest) tok eq := by
  have scan : scanToken (62 :: rest) = if deref rest = 62 then (43, rest.tail) else (62, rest) := rfl
  by_cases twice : deref rest = 62
  · refine ⟨.append, rest.tail, ?_, ?_, ?_, ?_, rfl, fun _ impossible => (nomatch impossible)⟩
    · rw [scan, if_pos twice]
      rfl
    · rw [tokens_output, if_pos twice]
    · exact (tail_suffix rest).trans (suffix_cons 62 rest)
    · rw [length_tail, length_cons]
      omega
  · refine ⟨.output, rest, ?_, ?_, suffix_cons 62 rest, Nat.lt_succ_self _, rfl,
      fun _ impossible => (nomatch impossible)⟩
    · rw [scan, if_neg twice]
      rfl
    · rw [tokens_output, if_neg twice]

theorem scanned_symbol (member : c ∈ symbols) (rest : List Byte) :
    ∃ tok eq, Scanned (c :: rest) tok eq := by
  by_cases single : c = 62
  · subst single
    exact scanned_output rest
  · have facts : ∀ c ∈ symbols, c ≠ 62 → ∃ tok, symbol c = some tok ∧ tok.code = c ∧ tok.first = some c ∧
        (∀ text, tok ≠ .word text) ∧ ¬White c ∧ ¬Wordy c ∧ c ≠ 0 ∧
        (c = 124 ∨ c = 40 ∨ c = 41 ∨ c = 59 ∨ c = 38 ∨ c = 60) := by
      simp only [symbols, forall_mem_cons]
      refine ⟨fun _ => ⟨.input, ?_⟩, fun _ => ⟨.pipe, ?_⟩, fun impossible => absurd rfl impossible,
        fun _ => ⟨.back, ?_⟩, fun _ => ⟨.list, ?_⟩, fun _ => ⟨.opened, ?_⟩, fun _ => ⟨.closed, ?_⟩,
        fun _ impossible => absurd impossible not_mem_nil⟩ <;>
        exact ⟨rfl, rfl, rfl, nofun, by decide⟩
    obtain ⟨tok, known, code_eq, first_eq, notWord, notWhite, notWordy, nonzero, case⟩ := facts c member single
    refine ⟨tok, rest, ?_, tokens_symbol known notWhite notWordy single rest, suffix_cons c rest,
      Nat.lt_succ_self _, ?_, fun text impossible => absurd impossible (notWord text)⟩
    · unfold scanToken
      dsimp only
      rw [if_neg nonzero, if_pos case, code_eq]
    · exact first_eq.trans (Option.filter_some_pos (by simpa using member)).symm

/-- There is a token at every character that is not a space. -/
theorem exists_scanned (nonzero : c ≠ 0) (notWhite : ¬White c) :
    ∃ tok eq, Scanned (c :: rest) tok eq := by
  by_cases member : c ∈ symbols
  · exact scanned_symbol member rest
  · exact scanned_word nonzero ⟨notWhite, member⟩

/-! ## The cursor -/

/-- The cursor stands before the tokens. -/
structure Before (line : List Byte) (toks : List Token) (s : List Byte) : Prop where
  suffix : s <:+ line
  reads : tokens s = toks

theorem before_start (line : List Byte) : Before line (tokens line) line :=
  ⟨suffix_rfl, rfl⟩

section Cursor

variable {line s : List Byte} {toks : List Token}

theorem Before.skip (before : Before line toks s) : Before line toks (skip s) :=
  ⟨(skip_suffix s).trans before.suffix, (tokens_skip s).trans before.reads⟩

/-- The first token from the cursor on, behind the spaces. -/
theorem Before.cases (before : Before line toks s) (string : 0 ∉ line) :
    (toks = [] ∧ User.skip s = []) ∨
      ∃ tok rest eq, toks = tok :: rest ∧ Scanned (User.skip s) tok eq ∧ tokens eq = rest ∧
        ∃ c left, User.skip s = c :: left ∧ c ≠ 0 := by
  have moved := before.skip
  cases skip_eq : User.skip s with
  | nil =>
    rw [skip_eq] at moved
    exact .inl ⟨moved.reads.symm, rfl⟩
  | cons c left =>
    have nonzero : c ≠ 0 := by
      rintro rfl
      exact string (moved.suffix.subset (skip_eq ▸ mem_cons_self))
    obtain ⟨tok, eq, scanned⟩ := exists_scanned nonzero (not_white_skip skip_eq)
    refine .inr ⟨tok, tokens eq, eq, ?_, scanned, rfl, c, left, rfl, nonzero⟩
    rw [← moved.reads, skip_eq, scanned.reads]

omit s in
theorem gettoken_eq (s : List Byte) :
    gettoken s = .ok ((scanToken (User.skip s)).1, ⟨User.skip s, (scanToken (User.skip s)).2⟩)
      (User.skip (scanToken (User.skip s)).2) := rfl

/-- `gettoken` at the end of the line. -/
theorem sat_gettoken_end (before : Before line [] s) (string : 0 ∉ line)
    {post : Byte × Span → List Byte → Prop} (result : post (0, ⟨[], []⟩) []) :
    Sat gettoken s post fault := by
  rcases before.cases string with ⟨_, skip_eq⟩ | ⟨_, _, _, impossible, _⟩
  · have run : gettoken s = .ok (0, ⟨[], []⟩) [] := by
      rw [gettoken_eq, skip_eq]
      rfl
    unfold Sat
    rw [run]
    exact result
  · cases impossible

/-- `gettoken` returns the first token and moves behind it. -/
theorem sat_gettoken {tok : Token} {post : Byte × Span → List Byte → Prop}
    (before : Before line (tok :: toks) s) (string : 0 ∉ line)
    (result : ∀ span next, Before line toks next → next.length < s.length →
      (∀ text, tok = .word text → Spells line span text) → post (tok.code, span) next) :
    Sat gettoken s post fault := by
  rcases before.cases string with ⟨impossible, _⟩ | ⟨tok', rest, eq, toks_eq, scanned, reads, _⟩
  · cases impossible
  · cases toks_eq
    have run : gettoken s = .ok (tok.code, ⟨User.skip s, eq⟩) (User.skip eq) := by
      rw [gettoken_eq, scanned.scan]
    unfold Sat
    rw [run]
    have inside : User.skip s <:+ line := before.skip.suffix
    refine result _ _ ?_ ?_ ?_
    · exact Before.skip ⟨scanned.suffix.trans inside, reads⟩
    · calc (User.skip eq).length ≤ eq.length := (skip_suffix eq).length_le
        _ < (User.skip s).length := scanned.shorter
        _ ≤ s.length := (skip_suffix s).length_le
    · intro text word
      obtain ⟨split, wordy, stop⟩ := scanned.word text word
      exact ⟨inside, split, wordy, stop⟩

/-- `peek` looks at the first token. -/
theorem sat_peek (within : set ⊆ symbols) {post : Bool → List Byte → Prop}
    (before : Before line toks s) (string : 0 ∉ line)
    (result : ∀ next, Before line toks next → next.length ≤ s.length → post (starts set toks) next) :
    Sat (peek set) s post fault := by
  have string_set : 0 ∉ set := fun member => absurd (within member) (by decide)
  have found : decide (deref (User.skip s) ≠ 0 ∧ (strchr set (deref (User.skip s))).isSome = true) =
      starts set toks := by
    rcases before.cases string with ⟨rfl, skip_eq⟩ | ⟨tok, rest, eq, rfl, scanned, _, c, left, skip_eq, nonzero⟩
    · rw [skip_eq]
      rfl
    · have first_eq := scanned.first
      rw [skip_eq] at first_eq ⊢
      change decide (c ≠ 0 ∧ (strchr set c).isSome = true) = tok.first.any fun c => decide (c ∈ set)
      rw [first_eq, strchr_isSome string_set]
      by_cases member : c ∈ symbols
      · simp [member, nonzero]
      · have outside : c ∉ set := fun inside => member (within inside)
        simp [member, outside]
  have run : peek set s = .ok (starts set toks) (User.skip s) := by
    rw [← found]
    rfl
  unfold Sat
  rw [run]
  exact result _ before.skip (skip_suffix s).length_le

/-- `peek` at the end of the line. -/
theorem sat_peek_end {post : Bool → List Byte → Prop} (before : Before line [] s)
    (string : 0 ∉ line) (result : post false []) : Sat (peek set) s post fault := by
  rcases before.cases string with ⟨_, skip_eq⟩ | ⟨_, _, _, impossible, _⟩
  · have run : peek set s = .ok (decide (deref (User.skip s) ≠ 0 ∧
        (strchr set (deref (User.skip s))).isSome = true)) (User.skip s) := rfl
    rw [skip_eq] at run
    unfold Sat
    rw [run]
    exact result
  · cases impossible

end Cursor

end Xv6.Shell
