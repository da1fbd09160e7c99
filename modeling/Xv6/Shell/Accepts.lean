import Xv6.Shell.Parser

/-!
# The language of the shell

`nulterminate` ends every string of the tree without touching another one, so that the
tree that `parsecmd` returns reads as the tree of the derivation.
-/

namespace Xv6.Shell

open Program User List

variable {line : List Byte}

/-! ## Ending the strings -/

/-- Write zeros at the offsets. -/
def zeros (offsets : List Nat) (memory : List Byte) : List Byte :=
  offsets.foldl (fun memory offset => memory.set offset 0) memory

theorem getElem?_zeros (offsets : List Nat) (memory : List Byte) (i : Nat) :
    (zeros offsets memory)[i]? =
      if i ∈ offsets ∧ i < memory.length then some 0 else memory[i]? := by
  induction offsets generalizing memory with
  | nil => simp [zeros]
  | cons offset offsets ih =>
    have step : zeros (offset :: offsets) memory = zeros offsets (memory.set offset 0) := rfl
    rw [step, ih, length_set]
    by_cases same : i = offset
    · subst same
      by_cases inside : i < memory.length <;> simp [inside]
    · simp [same, getElem?_set_ne (Ne.symm same)]

/-- The offsets behind the strings. -/
def ends (es : Nat) (cmd : Cmd Span) : List Nat :=
  (strings cmd).map fun span => es - span.eq.length

theorem nulterminate_eq (es : Nat) (cmd : Cmd Span) (memory : List Byte) :
    nulterminate es cmd memory = zeros (ends es cmd) memory := by
  induction cmd generalizing memory with
  | exec argv => simp [nulterminate, zeros, ends, strings, foldl_map]
  | redir cmd file mode fd ih =>
    simp [nulterminate, ih, zeros, ends, strings]
  | pipe left right leftHypothesis rightHypothesis =>
    simp [nulterminate, leftHypothesis, rightHypothesis, zeros, ends, strings]
  | list left right leftHypothesis rightHypothesis =>
    simp [nulterminate, leftHypothesis, rightHypothesis, zeros, ends, strings]
  | back cmd ih => simp [nulterminate, ih, ends, strings]

theorem Wordy.ne_zero_of_mem (string : 0 ∉ line) {span : Span} {word : List Byte}
    (spells : Spells line span word) : 0 ∉ word := by
  intro member
  apply string
  apply spells.suffix.subset
  rw [spells.split]
  exact mem_append_left _ member

/-- The string at an offset where the bytes of a word and a zero stand. -/
theorem cstring_drop {memory word : List Byte} {offset : Nat} (string : 0 ∉ word)
    (bytes : ∀ i < word.length, memory[offset + i]? = word[i]?)
    (last : memory[offset + word.length]? = some 0) : cstring (memory.drop offset) = word := by
  have shape : memory.drop offset = word ++ 0 :: memory.drop (offset + word.length + 1) := by
    apply ext_getElem?
    intro i
    rw [getElem?_drop]
    rcases Nat.lt_trichotomy i word.length with inside | rfl | behind
    · rw [bytes i inside, getElem?_append_left inside]
    · simpa using last
    · obtain ⟨k, rfl⟩ := Nat.exists_eq_add_of_lt behind
      rw [getElem?_append_right (by omega),
        show word.length + k + 1 - word.length = k + 1 by omega, getElem?_cons_succ,
        getElem?_drop]
      congr 1
      omega
  rw [shape]
  unfold cstring
  rw [takeWhile_append_of_pos]
  · simp
  · intro c member
    refine decide_eq_true ?_
    rintro rfl
    exact string member

/-- Behind a string there is no character of a word, so no zero goes into a word. -/
theorem outside_ends {span other : Span} {word otherWord : List Byte} {start : List Byte}
    (spells : Spells line span word) (others : Spells line other otherWord)
    (line_eq : start ++ span.q = line) {i : Nat} (inside : i < word.length) :
    start.length + i ≠ line.length - other.eq.length := by
  intro same
  obtain ⟨front, front_eq⟩ := others.suffix
  have eq_drop : other.eq = line.drop (line.length - other.eq.length) := by
    rw [← front_eq, others.split, ← append_assoc, length_append, Nat.add_sub_cancel,
      drop_left]
  rw [← same, ← line_eq, spells.split, drop_append, Nat.add_sub_cancel_left,
    drop_eq_nil_of_le (Nat.le_add_right _ _), nil_append,
    drop_append_of_le_length inside.le, drop_eq_getElem_cons inside] at eq_drop
  apply others.stop
  rw [eq_drop]
  exact spells.wordy _ (getElem_mem inside)

/-- The tree reads as the words that it was built from. -/
theorem string_nulterminate (string : 0 ∉ line) {cmd : Cmd Span}
    (spells : ∀ span ∈ strings cmd, Spells line span (text span)) {span : Span}
    (member : span ∈ strings cmd) :
    span.string line.length (nulterminate line.length cmd (line ++ [0])) = text span := by
  have spelled := spells span member
  obtain ⟨start, line_eq⟩ := spelled.suffix
  have lengths := congrArg length line_eq
  have split_lengths := congrArg length spelled.split
  rw [length_append] at lengths split_lengths
  have offset_eq : line.length - span.q.length = start.length := by omega
  unfold Span.string
  rw [nulterminate_eq, offset_eq]
  apply cstring_drop (Wordy.ne_zero_of_mem string spelled)
  · intro i inside
    rw [getElem?_zeros, if_neg]
    · rw [getElem?_append_left (by omega), ← line_eq,
        getElem?_append_right (Nat.le_add_right _ _), Nat.add_sub_cancel_left]
      conv_lhs => rw [spelled.split]
      exact getElem?_append_left inside
    · rintro ⟨ending, _⟩
      obtain ⟨other, other_member, same⟩ := mem_map.mp ending
      exact outside_ends spelled (spells other other_member) line_eq inside same.symm
  · rw [getElem?_zeros, if_pos]
    refine ⟨mem_map.mpr ⟨span, member, by omega⟩, ?_⟩
    rw [length_append, length_singleton]
    omega

theorem map_congr {Text Other : Type} {read read' : Text → Other} {cmd : Cmd Text}
    (same : ∀ text ∈ strings cmd, read text = read' text) : cmd.map read = cmd.map read' := by
  induction cmd with
  | exec argv => exact congrArg Cmd.exec (map_congr_left same)
  | redir cmd file mode fd ih =>
    obtain ⟨inside, last⟩ := forall_mem_append.mp same
    simp only [Cmd.map, ih inside, last file mem_cons_self]
  | pipe left right leftHypothesis rightHypothesis =>
    obtain ⟨first, second⟩ := forall_mem_append.mp same
    simp only [Cmd.map, leftHypothesis first, rightHypothesis second]
  | list left right leftHypothesis rightHypothesis =>
    obtain ⟨first, second⟩ := forall_mem_append.mp same
    simp only [Cmd.map, leftHypothesis first, rightHypothesis second]
  | back cmd ih => exact congrArg Cmd.back (ih same)

theorem Renders.read (string : 0 ∉ line) {cmd : Cmd Span} {tree : Cmd (List Byte)}
    (renders : Renders line cmd tree) :
    cmd.map (Span.string line.length (nulterminate line.length cmd (line ++ [0]))) = tree := by
  rw [← renders.texts]
  exact map_congr fun span member => string_nulterminate string renders.spells member

/-! ## Whole lines -/

/-- What `parsecmd` returns, read from memory. -/
def parsed (turns : Nat) (line : List Byte) : Except Halt (Cmd (List Byte)) :=
  (parsecmd turns line).map fun result => result.1.map (Span.string line.length result.2)

theorem sound_parseall (string : 0 ∉ line) (turns : Nat) :
    Sat (parseall turns) line
      (fun cmd _ => ∃ derivation : Line, derivation.yield = tokens line ∧ derivation.Fits ∧
        Renders line cmd derivation.tree)
      (fun halt _ => halt = .turns → turns < 4 * line.length + 4) := by
  unfold parseall
  refine sat_bind.mpr (sat_bounded ((sounds string turns).parseline _ _ (before_start line)) id ?_)
  rintro cmd s₁ ⟨derivation, rest, toks_eq, before₁, _, fits, renders⟩
  refine sat_bind.mpr (sat_peek (nil_subset _) before₁ string fun s₂ before₂ _ => ?_)
  refine sat_bind.mpr (sat_get.mpr ?_)
  by_cases leftovers : s₂ = []
  · subst leftovers
    rw [if_neg (not_not_intro rfl)]
    have rest_eq : rest = [] := before₂.reads.symm
    rw [rest_eq, append_nil] at toks_eq
    exact ⟨derivation, toks_eq.symm, fits, renders⟩
  · rw [if_pos leftovers]
    exact nofun

theorem complete_parseall (string : 0 ∉ line) {derivation : Line} (fits : derivation.Fits)
    (yield_eq : derivation.yield = tokens line) (turns : Nat) :
    Sat (parseall turns) line (fun cmd _ => Renders line cmd derivation.tree)
      (fun halt _ => halt = .turns) := by
  have before : Before line (derivation.yield ++ []) line := by
    rw [yield_eq, append_nil]
    exact before_start line
  unfold parseall
  refine (Line.finds string derivation fits before (.inl rfl) turns).bind ?_
  rintro cmd s₁ ⟨before₁, renders⟩
  refine sat_bind.mpr (sat_peek_end before₁ string ?_)
  refine sat_bind.mpr (sat_get.mpr ?_)
  rw [if_neg (not_not_intro rfl)]
  exact renders

/-- The result of a line is that of `parseall`. -/
theorem parsed_eq (string : 0 ∉ line) {turns : Nat} {tree : Cmd (List Byte)}
    (sat : Sat (parseall turns) line (fun cmd _ => Renders line cmd tree) fun _ _ => False) :
    parsed turns line = .ok tree := by
  unfold parsed parsecmd
  cases run : parseall turns line with
  | ok cmd next => exact congrArg Except.ok ((sat.ok run).read string)
  | error halt next => exact absurd (sat.error run) id

/-- `parsecmd` finishes on every line, and it returns a tree exactly if the tokens of the
line derive from the grammar with at most `MAXARGS - 1` words in each simple command:
that of the derivation. -/
theorem shell_accepts_grammar (string : 0 ∉ line) {turns : Nat}
    (enough : 4 * line.length + 4 ≤ turns) :
    parsed turns line ≠ .error .turns ∧
    ∀ tree, parsed turns line = .ok tree ↔
      ∃ derivation : Line, derivation.yield = tokens line ∧ derivation.Fits ∧
        derivation.tree = tree := by
  have sound := sound_parseall string turns
  refine ⟨?_, fun tree => ⟨?_, ?_⟩⟩
  · intro out
    unfold parsed parsecmd at out
    cases run : parseall turns line with
    | ok cmd next =>
      rw [run] at out
      cases out
    | error halt next =>
      rw [run] at out
      have few := sound.error run (Except.error.inj out)
      omega
  · intro accepted
    unfold parsed parsecmd at accepted
    cases run : parseall turns line with
    | ok cmd next =>
      rw [run] at accepted
      obtain ⟨derivation, yield_eq, fits, renders⟩ := sound.ok run
      exact ⟨derivation, yield_eq, fits, (renders.read string).symm.trans (Except.ok.inj accepted)⟩
    | error halt next =>
      rw [run] at accepted
      cases accepted
  · rintro ⟨derivation, yield_eq, fits, rfl⟩
    have both := (complete_parseall string fits yield_eq turns).and sound
    refine parsed_eq string (both.mono (fun cmd next found => found.1) ?_)
    rintro halt next ⟨out, short⟩
    have few := short out
    omega

/-- The line `(ls>f|wc)&;x`. -/
theorem shell_accepts_grammar_block :
    parsed 52 [40, 108, 115, 62, 102, 124, 119, 99, 41, 38, 59, 120] =
      .ok (.list (.back (.pipe (.redir (.exec [[108, 115]]) [102] (O_WRONLY ||| O_CREATE) 1)
        (.exec [[119, 99]]))) (.exec [[120]])) ∧
    ∃ derivation : Line,
      derivation.yield = tokens [40, 108, 115, 62, 102, 124, 119, 99, 41, 38, 59, 120] := by
  have settled := @shell_accepts_grammar [40, 108, 115, 62, 102, 124, 119, 99, 41, 38, 59, 120]
    (by decide) 52 (by decide)
  have run : parsed 52 [40, 108, 115, 62, 102, 124, 119, 99, 41, 38, 59, 120] =
      .ok (.list (.back (.pipe (.redir (.exec [[108, 115]]) [102] (O_WRONLY ||| O_CREATE) 1)
        (.exec [[119, 99]]))) (.exec [[120]])) := by
    rfl
  obtain ⟨derivation, yield_eq, _⟩ := (settled.2 _).mp run
  exact ⟨run, derivation, yield_eq⟩

end Xv6.Shell
