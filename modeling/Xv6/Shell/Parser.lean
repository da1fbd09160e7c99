import Xv6.Shell.Grammar

/-!
# The parser against the grammar

Whatever the parser returns is the tree of a derivation of the tokens that it consumed,
and it finds the tree of every derivation. It runs out of turns only if it was given
fewer than the length of the line asks for.
-/

namespace Xv6.Shell

open Program User List

variable {line set s : List Byte} {span : Span} {cmd : Cmd Span} {tok : Token}
  {rest toks : List Token} {tree : Cmd (List Byte)} {redirs : List Redir}

/-! ## Commands over counted strings -/

/-- The bytes of a counted string. -/
def text (span : Span) : List Byte := span.q.take (span.q.length - span.eq.length)

theorem Spells.text_eq {word : List Byte} (spells : Spells line span word) : text span = word := by
  unfold text
  rw [spells.split, length_append, Nat.add_sub_cancel]
  exact take_left

/-- The strings of a command. -/
def strings {Text : Type} : Cmd Text → List Text
  | .exec argv => argv
  | .redir cmd file _ _ => strings cmd ++ [file]
  | .pipe left right => strings left ++ strings right
  | .list left right => strings left ++ strings right
  | .back cmd => strings cmd

/-- The strings of the command are words of the line, and those of the tree. -/
structure Renders (line : List Byte) (cmd : Cmd Span) (tree : Cmd (List Byte)) : Prop where
  texts : cmd.map text = tree
  spells : ∀ span ∈ strings cmd, Spells line span (text span)

theorem renders_exec : Renders line (.exec []) (.exec []) :=
  ⟨rfl, fun _ member => absurd member not_mem_nil⟩

theorem Spells.spelled {word : List Byte} (spells : Spells line span word) :
    Spells line span (text span) := by
  rw [spells.text_eq]
  exact spells

section Renders

variable {cmd right : Cmd Span} {tree rightTree : Cmd (List Byte)} {span : Span} {word : List Byte}

section

variable (renders : Renders line cmd tree)

include renders

theorem Renders.redir (spells : Spells line span word) (mode : UInt32) (fd : Nat) :
    Renders line (.redir cmd span mode fd) (.redir tree word mode fd) := by
  refine ⟨?_, forall_mem_append.mpr ⟨renders.spells, ?_⟩⟩
  · rw [Cmd.map, renders.texts, spells.text_eq]
  · exact forall_mem_singleton.mpr spells.spelled

theorem Renders.back : Renders line (.back cmd) (.back tree) :=
  ⟨congrArg Cmd.back renders.texts, renders.spells⟩

theorem Renders.pipe (rights : Renders line right rightTree) :
    Renders line (.pipe cmd right) (.pipe tree rightTree) :=
  ⟨congrArg₂ Cmd.pipe renders.texts rights.texts,
    forall_mem_append.mpr ⟨renders.spells, rights.spells⟩⟩

theorem Renders.list (rights : Renders line right rightTree) :
    Renders line (.list cmd right) (.list tree rightTree) :=
  ⟨congrArg₂ Cmd.list renders.texts rights.texts,
    forall_mem_append.mpr ⟨renders.spells, rights.spells⟩⟩

end

theorem map_addArg (cmd : Cmd Span) (span : Span) :
    (cmd.addArg span).map text = (cmd.map text).addArg (text span) := by
  induction cmd with
  | exec argv => simp [Cmd.addArg, Cmd.map]
  | redir cmd file mode fd ih => simp [Cmd.addArg, Cmd.map, ih]
  | pipe left right => rfl
  | list left right => rfl
  | back cmd => rfl

theorem mem_strings_addArg {other : Span} (member : other ∈ strings (cmd.addArg span)) :
    other ∈ strings cmd ∨ other = span := by
  induction cmd with
  | exec argv => simpa [Cmd.addArg, strings] using member
  | redir cmd file mode fd ih =>
    rcases mem_append.mp member with inside | last
    · exact (ih inside).imp_left (mem_append_left _)
    · exact .inl (mem_append_right _ last)
  | pipe left right => exact .inl member
  | list left right => exact .inl member
  | back cmd => exact .inl member

theorem Renders.addArg (renders : Renders line cmd tree) (spells : Spells line span word) :
    Renders line (cmd.addArg span) (tree.addArg word) := by
  constructor
  · rw [map_addArg, renders.texts, spells.text_eq]
  · intro other member
    rcases mem_strings_addArg member with before | rfl
    · exact renders.spells other before
    · exact spells.spelled

end Renders

/-- The argument goes into the command inside of the redirections. -/
theorem addArg_wrap (tree : Cmd (List Byte)) (redirs : List Redir) (word : List Byte) :
    (wrap tree redirs).addArg word = wrap (tree.addArg word) redirs := by
  induction redirs generalizing tree with
  | nil => rfl
  | cons redir redirs ih => exact ih _

theorem wrap_append (tree : Cmd (List Byte)) (first second : List Redir) :
    wrap tree (first ++ second) = wrap (wrap tree first) second :=
  foldl_append

/-! ## Looking at the first token -/

theorem Token.eq_word (code_eq : tok.code = 97) : ∃ word, tok = .word word := by
  cases tok with
  | word word => exact ⟨word, rfl⟩
  | _ => exact absurd code_eq (by decide)

theorem Token.code_ne_zero (tok : Token) : tok.code ≠ 0 := by
  cases tok <;> simp [Token.code]

theorem starts_cons : starts set (tok :: rest) = true ↔ ∃ c ∈ tok.first, c ∈ set := by
  cases first_eq : tok.first <;> simp [starts, first_eq]

/-- All symbols but `>` start one token only. -/
theorem Token.symbol_first {c : Byte} (first : tok.first = some c) (single : c ≠ 62) :
    symbol c = some tok := by
  cases tok with
  | word => cases first
  | output | append => exact absurd (Option.some.inj first).symm single
  | _ =>
    cases first
    rfl

theorem starts_single (tok : Token) {c : Byte} (first : tok.first = some c) (single : c ≠ 62) :
    starts [c] toks = true ↔ ∃ rest, toks = tok :: rest := by
  constructor
  · intro found
    cases toks with
    | nil => cases found
    | cons other rest =>
      obtain ⟨d, otherFirst, member⟩ := starts_cons.mp found
      rw [mem_singleton.mp member] at otherFirst
      have same := (Token.symbol_first first single).symm.trans (Token.symbol_first otherFirst single)
      exact ⟨rest, by rw [Option.some.inj same]⟩
  · rintro ⟨rest, rfl⟩
    exact starts_cons.mpr ⟨c, first, mem_singleton_self c⟩

theorem starts_disjoint {other : List Byte} (disjoint : ∀ c ∈ set, c ∉ other)
    (found : starts set toks = true) : ¬starts other toks = true := by
  intro both
  cases toks with
  | nil => cases found
  | cons tok rest =>
    obtain ⟨c, first, member⟩ := starts_cons.mp found
    obtain ⟨d, otherFirst, otherMember⟩ := starts_cons.mp both
    cases Option.mem_unique first otherFirst
    exact disjoint c member otherMember

theorem starts_redirs :
    starts [60, 62] toks = true ↔ ∃ (kind : RedirKind) (rest : List Token), toks = kind.token :: rest := by
  constructor
  · intro found
    cases toks with
    | nil => cases found
    | cons tok rest =>
      obtain ⟨c, first, member⟩ := starts_cons.mp found
      cases tok with
      | input => exact ⟨.input, rest, rfl⟩
      | output => exact ⟨.output, rest, rfl⟩
      | append => exact ⟨.append, rest, rfl⟩
      | word => cases first
      | _ =>
        cases first
        exact absurd member (by decide)
  · rintro ⟨kind, rest, rfl⟩
    cases kind <;> rfl

/-- A bound on the turns of a part is one on those of the whole. -/
theorem sat_bounded {Value : Type} {parser : Parse Value} {post post' : Value → List Byte → Prop}
    {few few' : Prop} (sat : Sat parser s post fun halt _ => halt = .turns → few)
    (bound : few → few') (weaken : ∀ value next, post value next → post' value next) :
    Sat parser s post' fun halt _ => halt = .turns → few' :=
  sat.mono weaken fun _ _ short out => bound (short out)

/-! ## Redirections -/

/-- The three cases of the `switch` in `parseredirs`. -/
theorem parseredirs_switch (kind : RedirKind) (turns : Nat) (cmd : Cmd Span) (file : Span) :
    (if kind.token.code = 60 then parseredirs turns (.redir cmd file O_RDONLY 0)
      else if kind.token.code = 62 then parseredirs turns (.redir cmd file (O_WRONLY ||| O_CREATE) 1)
      else if kind.token.code = 43 then parseredirs turns (.redir cmd file (O_WRONLY ||| O_CREATE) 1)
      else parseredirs turns cmd) = parseredirs turns (.redir cmd file kind.mode kind.fd) := by
  cases kind <;> rfl

theorem redirs_subset : ([60, 62] : List Byte) ⊆ symbols := by decide

/-- `parseredirs` consumes redirections and wraps them around the command. -/
theorem sound_parseredirs (string : 0 ∉ line) (turns : Nat) (renders : Renders line cmd tree)
    (before : Before line toks s) :
    Sat (parseredirs turns cmd) s
      (fun cmd next => ∃ redirs rest, toks = redirsYield redirs ++ rest ∧ Before line rest next ∧
        next.length ≤ s.length ∧ Renders line cmd (wrap tree redirs))
      (fun halt _ => halt = .turns → turns ≤ s.length) := by
  induction turns generalizing cmd tree toks s with
  | zero => exact fun _ => Nat.zero_le _
  | succ turns ih =>
    rw [parseredirs]
    refine sat_bind.mpr (sat_peek redirs_subset before string fun s₁ before₁ le₁ => ?_)
    by_cases found : starts [60, 62] toks = true
    · obtain ⟨kind, toks, rfl⟩ := starts_redirs.mp found
      rw [if_pos found]
      refine sat_bind.mpr (sat_gettoken before₁ string fun _ s₂ before₂ lt₂ _ => ?_)
      dsimp only
      cases toks with
      | nil => exact sat_bind.mpr (sat_gettoken_end before₂ string nofun)
      | cons tok toks =>
        refine sat_bind.mpr (sat_gettoken before₂ string fun file s₃ before₃ lt₃ spells => ?_)
        dsimp only
        by_cases code_eq : tok.code = 97
        · obtain ⟨word, rfl⟩ := Token.eq_word code_eq
          rw [if_neg fun other => other rfl, parseredirs_switch]
          have spells := spells word rfl
          refine sat_bounded (ih (renders.redir spells kind.mode kind.fd) before₃) (by omega) ?_
          rintro cmd next ⟨redirs, rest, rfl, after, le, renders⟩
          exact ⟨⟨kind, word⟩ :: redirs, rest, rfl, after, by omega, renders⟩
        · rw [if_pos code_eq]
          exact nofun
    · rw [if_neg found]
      exact ⟨[], toks, rfl, before₁, le₁, renders⟩

/-- `parseredirs` consumes all redirections that there are. -/
theorem complete_parseredirs (string : 0 ∉ line) (turns : Nat) (renders : Renders line cmd tree)
    (before : Before line (redirsYield redirs ++ rest) s) (stop : ¬starts [60, 62] rest = true) :
    Sat (parseredirs turns cmd) s
      (fun cmd next => Before line rest next ∧ Renders line cmd (wrap tree redirs))
      (fun halt _ => halt = .turns) := by
  induction turns generalizing cmd tree redirs s with
  | zero => rfl
  | succ turns ih =>
    rw [parseredirs]
    refine sat_bind.mpr (sat_peek redirs_subset before string fun s₁ before₁ _ => ?_)
    cases redirs with
    | nil =>
      rw [if_neg (by exact stop)]
      exact ⟨before₁, renders⟩
    | cons redir redirs =>
      have found : starts [60, 62] (redirsYield (redir :: redirs) ++ rest) = true :=
        starts_redirs.mpr ⟨redir.kind, _, rfl⟩
      rw [if_pos found]
      refine sat_bind.mpr (sat_gettoken before₁ string fun _ s₂ before₂ _ _ => ?_)
      refine sat_bind.mpr (sat_gettoken before₂ string fun file s₃ before₃ _ spells => ?_)
      dsimp only
      rw [if_neg fun other => other rfl, parseredirs_switch]
      have later : Before line (redirsYield redirs ++ rest) s₃ := before₃
      have wrapped := renders.redir (spells redir.file rfl) redir.kind.mode redir.kind.fd
      have result := ih wrapped later
      exact result

/-! ## Words -/

theorem stops_subset : ([124, 41, 38, 59] : List Byte) ⊆ symbols := by decide

/-- The loop of `parseexec` consumes words and redirections. -/
theorem sound_parseargs (string : 0 ∉ line) (turns : Nat) {argc : Nat} {ret : Cmd Span}
    {words : List (List Byte)} (renders : Renders line ret (wrap (.exec words) redirs))
    (count : words.length = argc) (few : argc < MAXARGS) (before : Before line toks s) :
    Sat (parseargs turns argc ret) s
      (fun cmd next => ∃ args rest, toks = argsYield args ++ rest ∧ Before line rest next ∧
        next.length ≤ s.length ∧ argc + args.length < MAXARGS ∧
        Renders line cmd (wrap (.exec (words ++ args.map Prod.fst)) (redirs ++ args.flatMap Prod.snd)))
      (fun halt _ => halt = .turns → turns ≤ s.length) := by
  induction turns generalizing argc ret words redirs toks s with
  | zero => exact fun _ => Nat.zero_le _
  | succ turns ih =>
    have finish : ∀ next, Before line toks next → next.length ≤ s.length →
        ∃ args rest, toks = argsYield args ++ rest ∧ Before line rest next ∧
          next.length ≤ s.length ∧ argc + args.length < MAXARGS ∧
          Renders line ret (wrap (.exec (words ++ args.map Prod.fst))
            (redirs ++ args.flatMap Prod.snd)) := by
      intro next before le
      refine ⟨[], toks, rfl, before, le, few, ?_⟩
      simpa using renders
    rw [parseargs]
    refine sat_bind.mpr (sat_peek stops_subset before string fun s₁ before₁ le₁ => ?_)
    by_cases stop : starts [124, 41, 38, 59] toks = true
    · rw [if_pos stop]
      exact finish s₁ before₁ le₁
    · rw [if_neg stop]
      cases toks with
      | nil =>
        exact sat_bind.mpr (sat_gettoken_end before₁ string
          (finish [] ⟨nil_suffix, rfl⟩ (Nat.zero_le _)))
      | cons tok toks =>
        refine sat_bind.mpr (sat_gettoken before₁ string fun arg s₂ before₂ lt₂ spells => ?_)
        dsimp only
        rw [if_neg tok.code_ne_zero]
        by_cases code_eq : tok.code = 97
        · obtain ⟨word, rfl⟩ := Token.eq_word code_eq
          rw [if_neg fun other => other rfl]
          by_cases many : MAXARGS ≤ argc + 1
          · rw [if_pos many]
            exact nofun
          · rw [if_neg many]
            have added := renders.addArg (spells word rfl)
            rw [addArg_wrap] at added
            refine sat_bind.mpr (sat_bounded (sound_parseredirs string turns added before₂) (by omega) ?_)
            rintro ret s₃ ⟨behind, toks₃, rfl, before₃, le₃, renders₃⟩
            rw [← wrap_append] at renders₃
            have count₃ : (words ++ [word]).length = argc + 1 := by simp [count]
            refine sat_bounded (ih renders₃ count₃ (by omega) before₃) (by omega) ?_
            rintro cmd next ⟨args, rest, rfl, after, le, few, renders⟩
            refine ⟨(word, behind) :: args, rest, ?_, after, by omega, ?_, ?_⟩
            · simp [argsYield]
            · rw [length_cons]
              omega
            · simpa using renders
        · rw [if_pos code_eq]
          exact nofun

/-- The loop of `parseexec` consumes all words that there are, if they are few. -/
theorem complete_parseargs (string : 0 ∉ line) (turns : Nat) {argc : Nat} {ret : Cmd Span}
    {words : List (List Byte)} {args : List (List Byte × List Redir)}
    (renders : Renders line ret (wrap (.exec words) redirs)) (few : argc + args.length < MAXARGS)
    (before : Before line (argsYield args ++ rest) s)
    (stop : rest = [] ∨ starts [124, 41, 38, 59] rest = true) :
    Sat (parseargs turns argc ret) s
      (fun cmd next => Before line rest next ∧
        Renders line cmd (wrap (.exec (words ++ args.map Prod.fst)) (redirs ++ args.flatMap Prod.snd)))
      (fun halt _ => halt = .turns) := by
  induction turns generalizing argc ret words redirs args s with
  | zero => rfl
  | succ turns ih =>
    rw [parseargs]
    refine sat_bind.mpr (sat_peek stops_subset before string fun s₁ before₁ _ => ?_)
    cases args with
    | nil =>
      have whole : Renders line ret (wrap (.exec (words ++ ([] : List (List Byte × List Redir)).map
          Prod.fst)) (redirs ++ ([] : List (List Byte × List Redir)).flatMap Prod.snd)) := by
        simpa using renders
      rcases stop with rfl | stop
      · rw [if_neg nofun]
        exact sat_bind.mpr (sat_gettoken_end before₁ string ⟨⟨nil_suffix, rfl⟩, whole⟩)
      · rw [if_pos (by exact stop)]
        exact ⟨before₁, whole⟩
    | cons arg args =>
      obtain ⟨word, behind⟩ := arg
      have before₁ : Before line (.word word :: (redirsYield behind ++ (argsYield args ++ rest))) s₁ := by
        simpa [argsYield] using before₁
      have going : ¬starts [124, 41, 38, 59] (argsYield ((word, behind) :: args) ++ rest) = true :=
        nofun
      rw [if_neg going]
      refine sat_bind.mpr (sat_gettoken before₁ string fun arg s₂ before₂ _ spells => ?_)
      dsimp only
      rw [length_cons] at few
      rw [if_neg (Token.code_ne_zero _), if_neg fun other => other rfl, if_neg (by omega)]
      have added := renders.addArg (spells word rfl)
      rw [addArg_wrap] at added
      have behind_stop : ¬starts [60, 62] (argsYield args ++ rest) = true := by
        cases args with
        | nil =>
          rcases stop with rfl | stop
          · exact nofun
          · exact starts_disjoint (by simp) stop
        | cons => exact nofun
      refine (complete_parseredirs string turns added before₂ behind_stop).bind ?_
      rintro ret s₃ ⟨before₃, renders₃⟩
      rw [← wrap_append] at renders₃
      have fewer : argc + 1 + args.length < MAXARGS := by omega
      have result := ih renders₃ fewer before₃
      simpa using result

/-! ## Background commands -/

theorem sound_parsebacks (string : 0 ∉ line) (turns : Nat) (renders : Renders line cmd tree)
    (before : Before line toks s) :
    Sat (parsebacks turns cmd) s
      (fun cmd next => ∃ backs rest, toks = List.replicate backs .back ++ rest ∧
        Before line rest next ∧ next.length ≤ s.length ∧ Renders line cmd (Cmd.back^[backs] tree))
      (fun halt _ => halt = .turns → turns ≤ s.length) := by
  induction turns generalizing cmd tree toks s with
  | zero => exact fun _ => Nat.zero_le _
  | succ turns ih =>
    rw [parsebacks]
    refine sat_bind.mpr (sat_peek (by decide) before string fun s₁ before₁ le₁ => ?_)
    by_cases found : starts [38] toks = true
    · obtain ⟨toks, rfl⟩ := (starts_single .back rfl (by decide)).mp found
      rw [if_pos found]
      refine sat_bind.mpr (sat_gettoken before₁ string fun _ s₂ before₂ lt₂ _ => ?_)
      refine sat_bounded (ih renders.back before₂) (by omega) ?_
      rintro cmd next ⟨backs, rest, rfl, after, le, renders⟩
      exact ⟨backs + 1, rest, rfl, after, by omega, renders⟩
    · rw [if_neg found]
      exact ⟨0, toks, rfl, before₁, le₁, renders⟩

theorem complete_parsebacks (string : 0 ∉ line) (turns : Nat) {backs : Nat}
    (renders : Renders line cmd tree) (before : Before line (List.replicate backs .back ++ rest) s)
    (stop : ¬starts [38] rest = true) :
    Sat (parsebacks turns cmd) s
      (fun cmd next => Before line rest next ∧ Renders line cmd (Cmd.back^[backs] tree))
      (fun halt _ => halt = .turns) := by
  induction turns generalizing cmd tree backs s with
  | zero => rfl
  | succ turns ih =>
    rw [parsebacks]
    refine sat_bind.mpr (sat_peek (by decide) before string fun s₁ before₁ _ => ?_)
    cases backs with
    | zero =>
      rw [replicate_zero, nil_append] at before₁ ⊢
      rw [if_neg stop]
      exact ⟨before₁, renders⟩
    | succ backs =>
      rw [replicate_succ, cons_append] at before₁ ⊢
      rw [if_pos ((starts_single .back rfl (by decide)).mpr ⟨_, rfl⟩)]
      refine sat_bind.mpr (sat_gettoken before₁ string fun _ s₂ before₂ _ _ => ?_)
      have result := ih renders.back before₂
      exact result

/-! ## Soundness -/

/-- The parser consumes the yield of a derivation and returns its tree, or panics; it
does not run out of turns if there are four of them for each byte, and the margin. -/
def Sound {Derivation : Type} (line : List Byte) (yield : Derivation → List Token)
    (Fits : Derivation → Prop) (tree : Derivation → Cmd (List Byte)) (margin : Nat)
    (turns : Nat) (parser : Parse (Cmd Span)) : Prop :=
  ∀ toks s, Before line toks s →
    Sat parser s
      (fun cmd next => ∃ derivation rest, toks = yield derivation ++ rest ∧ Before line rest next ∧
        next.length ≤ s.length ∧ Fits derivation ∧ Renders line cmd (tree derivation))
      (fun halt _ => halt = .turns → turns < 4 * s.length + margin)

/-- The four functions that call each other. -/
structure Sounds (line : List Byte) (turns : Nat) : Prop where
  parseline : Sound line Line.yield Line.Fits Line.tree 4 turns (parseline turns)
  parsepipe : Sound line Pipe.yield Pipe.Fits Pipe.tree 3 turns (parsepipe turns)
  parseexec : Sound line Exec.yield Exec.Fits Exec.tree 2 turns (parseexec turns)
  parseblock : Sound line Exec.yield Exec.Fits Exec.tree 1 turns (parseblock turns)

section Sound

variable {turns : Nat}

theorem sound_parseline (string : 0 ∉ line) (sounds : Sounds line turns) :
    Sound line Line.yield Line.Fits Line.tree 4 (turns + 1) (parseline (turns + 1)) := by
  intro toks s before
  rw [parseline]
  refine sat_bind.mpr (sat_bounded (sounds.parsepipe toks s before) (by omega) ?_)
  rintro cmd s₁ ⟨pipe, toks, rfl, before₁, le₁, fits, renders₁⟩
  refine sat_bind.mpr (sat_bounded (sound_parsebacks string turns renders₁ before₁) (by omega) ?_)
  rintro cmd s₂ ⟨backs, toks, rfl, before₂, le₂, renders₂⟩
  refine sat_bind.mpr (sat_peek (by decide) before₂ string fun s₃ before₃ le₃ => ?_)
  by_cases found : starts [59] toks = true
  · obtain ⟨toks, rfl⟩ := (starts_single .list rfl (by decide)).mp found
    rw [if_pos found]
    refine sat_bind.mpr (sat_gettoken before₃ string fun _ s₄ before₄ lt₄ _ => ?_)
    refine sat_bind.mpr (sat_bounded (sounds.parseline toks s₄ before₄) (by omega) ?_)
    rintro right s₅ ⟨later, rest, rfl, before₅, le₅, fits₅, renders₅⟩
    refine ⟨.more pipe backs later, rest, ?_, before₅, by omega, ⟨fits, fits₅⟩,
      renders₂.list renders₅⟩
    simp [Line.yield]
  · rw [if_neg found]
    refine ⟨.last pipe backs, toks, ?_, before₃, by omega, fits, renders₂⟩
    simp [Line.yield]

theorem sound_parsepipe (string : 0 ∉ line) (sounds : Sounds line turns) :
    Sound line Pipe.yield Pipe.Fits Pipe.tree 3 (turns + 1) (parsepipe (turns + 1)) := by
  intro toks s before
  rw [parsepipe]
  refine sat_bind.mpr (sat_bounded (sounds.parseexec toks s before) (by omega) ?_)
  rintro cmd s₁ ⟨exec, toks, rfl, before₁, le₁, fits, renders₁⟩
  refine sat_bind.mpr (sat_peek (by decide) before₁ string fun s₂ before₂ le₂ => ?_)
  by_cases found : starts [124] toks = true
  · obtain ⟨toks, rfl⟩ := (starts_single .pipe rfl (by decide)).mp found
    rw [if_pos found]
    refine sat_bind.mpr (sat_gettoken before₂ string fun _ s₃ before₃ lt₃ _ => ?_)
    refine sat_bind.mpr (sat_bounded (sounds.parsepipe toks s₃ before₃) (by omega) ?_)
    rintro right s₄ ⟨later, rest, rfl, before₄, le₄, fits₄, renders₄⟩
    refine ⟨.more exec later, rest, ?_, before₄, by omega, ⟨fits, fits₄⟩,
      renders₁.pipe renders₄⟩
    simp [Pipe.yield]
  · rw [if_neg found]
    exact ⟨.last exec, toks, rfl, before₂, by omega, fits, renders₁⟩

theorem sound_parseblock (string : 0 ∉ line) (sounds : Sounds line turns) :
    Sound line Exec.yield Exec.Fits Exec.tree 1 (turns + 1) (parseblock (turns + 1)) := by
  intro toks s before
  rw [parseblock]
  refine sat_bind.mpr (sat_peek (by decide) before string fun s₁ before₁ le₁ => ?_)
  by_cases opens : starts [40] toks = true
  · obtain ⟨toks, rfl⟩ := (starts_single .opened rfl (by decide)).mp opens
    rw [if_pos opens]
    refine sat_bind.mpr (sat_gettoken before₁ string fun _ s₂ before₂ lt₂ _ => ?_)
    refine sat_bind.mpr (sat_bounded (sounds.parseline toks s₂ before₂) (by omega) ?_)
    rintro cmd s₃ ⟨inner, toks, rfl, before₃, le₃, fits, renders₃⟩
    refine sat_bind.mpr (sat_peek (by decide) before₃ string fun s₄ before₄ le₄ => ?_)
    by_cases closes : starts [41] toks = true
    · obtain ⟨toks, rfl⟩ := (starts_single .closed rfl (by decide)).mp closes
      rw [if_pos closes]
      refine sat_bind.mpr (sat_gettoken before₄ string fun _ s₅ before₅ lt₅ _ => ?_)
      refine sat_bounded (sound_parseredirs string turns renders₃ before₅) (by omega) ?_
      rintro cmd next ⟨redirs, rest, rfl, after, le, renders⟩
      refine ⟨.block inner redirs, rest, ?_, after, by omega, fits, renders⟩
      simp [Exec.yield]
    · rw [if_neg closes]
      exact nofun
  · rw [if_neg opens]
    exact nofun

theorem sound_parseexec (string : 0 ∉ line) (sounds : Sounds line turns) :
    Sound line Exec.yield Exec.Fits Exec.tree 2 (turns + 1) (parseexec (turns + 1)) := by
  intro toks s before
  rw [parseexec]
  refine sat_bind.mpr (sat_peek (by decide) before string fun s₁ before₁ le₁ => ?_)
  by_cases opens : starts [40] toks = true
  · rw [if_pos opens]
    refine sat_bounded (sounds.parseblock toks s₁ before₁) (by omega) ?_
    rintro cmd next ⟨exec, rest, rfl, after, le, fits, renders⟩
    exact ⟨exec, rest, rfl, after, by omega, fits, renders⟩
  · rw [if_neg opens]
    refine sat_bind.mpr (sat_bounded (sound_parseredirs string turns renders_exec before₁) (by omega) ?_)
    rintro ret s₂ ⟨redirs, toks, rfl, before₂, le₂, renders₂⟩
    refine sat_bounded (sound_parseargs string turns renders₂ rfl (by decide) before₂) (by omega) ?_
    rintro cmd next ⟨args, rest, rfl, after, le, few, renders⟩
    refine ⟨.simple redirs args, rest, ?_, after, by omega, ?_, renders⟩
    · simp [Exec.yield]
    · change args.length ≤ MAXARGS - 1
      omega

end Sound

theorem sounds (string : 0 ∉ line) (turns : Nat) : Sounds line turns := by
  induction turns with
  | zero =>
    refine ⟨?_, ?_, ?_, ?_⟩ <;> exact fun _ s _ _ => by omega
  | succ turns ih =>
    exact ⟨sound_parseline string ih, sound_parsepipe string ih,
      sound_parseexec string ih, sound_parseblock string ih⟩

/-! ## Completeness -/

/-- The tokens end, or go on with one of the symbols. -/
def Follow (set : List Byte) (rest : List Token) : Prop := rest = [] ∨ starts set rest = true

theorem Follow.not_starts {other : List Byte} (follow : Follow set rest)
    (disjoint : ∀ c ∈ set, c ∉ other) : ¬starts other rest = true := by
  rcases follow with rfl | found
  · exact nofun
  · exact starts_disjoint disjoint found

theorem Follow.mono {larger : List Byte} (follow : Follow set rest) (subset : set ⊆ larger) :
    Follow larger rest := by
  rcases follow with rfl | found
  · exact .inl rfl
  · cases rest with
    | nil => exact .inl rfl
    | cons tok rest =>
      obtain ⟨c, first, member⟩ := starts_cons.mp found
      exact .inr (starts_cons.mpr ⟨c, first, subset member⟩)

theorem follow_backs (member : 38 ∈ set) {backs : Nat} (follow : Follow set rest) :
    Follow set (List.replicate backs .back ++ rest) := by
  cases backs with
  | zero => exact follow
  | succ backs => exact .inr (starts_cons.mpr ⟨38, rfl, member⟩)

/-- The parser consumes what is before the rest and returns the tree, if it does not run
out of turns. -/
def Finds (line : List Byte) (rest : List Token) (tree : Cmd (List Byte)) (s : List Byte)
    (parser : Parse (Cmd Span)) : Prop :=
  Sat parser s (fun cmd next => Before line rest next ∧ Renders line cmd tree)
    (fun halt _ => halt = .turns)

mutual

theorem Line.finds (string : 0 ∉ line) : ∀ (derivation : Line), derivation.Fits →
    ∀ {rest : List Token} {s : List Byte}, Before line (derivation.yield ++ rest) s →
    Follow [41] rest → ∀ turns, Finds line rest derivation.tree s (parseline turns)
  | _, _, _, _, _, _, 0 => rfl
  | .last pipe backs, fits, rest, s, before, follow, turns + 1 => by
      have before : Before line (pipe.yield ++ (List.replicate backs .back ++ rest)) s := by
        simpa [Line.yield] using before
      have followRest : Follow [38, 59, 41] rest := follow.mono (by decide)
      rw [parseline]
      refine (Pipe.finds string pipe fits before (follow_backs (by decide) followRest) turns).bind ?_
      rintro cmd s₁ ⟨before₁, renders₁⟩
      refine (complete_parsebacks string turns renders₁ before₁
        (follow.not_starts (by simp))).bind ?_
      rintro cmd s₂ ⟨before₂, renders₂⟩
      refine sat_bind.mpr (sat_peek (by decide) before₂ string fun s₃ before₃ _ => ?_)
      rw [if_neg (follow.not_starts (by simp))]
      exact ⟨before₃, renders₂⟩
  | .more pipe backs later, fits, rest, s, before, follow, turns + 1 => by
      have before : Before line (pipe.yield ++ (List.replicate backs .back ++
          (.list :: (later.yield ++ rest)))) s := by
        simpa [Line.yield] using before
      have followList : Follow [38, 59, 41] (.list :: (later.yield ++ rest)) :=
        .inr (starts_cons.mpr ⟨59, rfl, by decide⟩)
      rw [parseline]
      refine (Pipe.finds string pipe fits.1 before (follow_backs (by decide) followList) turns).bind ?_
      rintro cmd s₁ ⟨before₁, renders₁⟩
      refine (complete_parsebacks string turns renders₁ before₁ nofun).bind ?_
      rintro cmd s₂ ⟨before₂, renders₂⟩
      refine sat_bind.mpr (sat_peek (by decide) before₂ string fun s₃ before₃ _ => ?_)
      rw [if_pos ((starts_single .list rfl (by decide)).mpr ⟨_, rfl⟩)]
      refine sat_bind.mpr (sat_gettoken before₃ string fun _ s₄ before₄ _ _ => ?_)
      refine (Line.finds string later fits.2 before₄ follow turns).bind ?_
      rintro right s₅ ⟨before₅, renders₅⟩
      exact ⟨before₅, renders₂.list renders₅⟩

theorem Pipe.finds (string : 0 ∉ line) : ∀ (derivation : Pipe), derivation.Fits →
    ∀ {rest : List Token} {s : List Byte}, Before line (derivation.yield ++ rest) s →
    Follow [38, 59, 41] rest → ∀ turns, Finds line rest derivation.tree s (parsepipe turns)
  | _, _, _, _, _, _, 0 => rfl
  | .last exec, fits, rest, s, before, follow, turns + 1 => by
      rw [parsepipe]
      refine (Exec.finds string exec fits before (follow.mono (by decide)) turns).bind ?_
      rintro cmd s₁ ⟨before₁, renders₁⟩
      refine sat_bind.mpr (sat_peek (by decide) before₁ string fun s₂ before₂ _ => ?_)
      rw [if_neg (follow.not_starts (by simp))]
      exact ⟨before₂, renders₁⟩
  | .more exec later, fits, rest, s, before, follow, turns + 1 => by
      have before : Before line (exec.yield ++ (.pipe :: (later.yield ++ rest))) s := by
        simpa [Pipe.yield] using before
      rw [parsepipe]
      refine (Exec.finds string exec fits.1 before
        (.inr (starts_cons.mpr ⟨124, rfl, by decide⟩)) turns).bind ?_
      rintro cmd s₁ ⟨before₁, renders₁⟩
      refine sat_bind.mpr (sat_peek (by decide) before₁ string fun s₂ before₂ _ => ?_)
      rw [if_pos ((starts_single .pipe rfl (by decide)).mpr ⟨_, rfl⟩)]
      refine sat_bind.mpr (sat_gettoken before₂ string fun _ s₃ before₃ _ _ => ?_)
      refine (Pipe.finds string later fits.2 before₃ follow turns).bind ?_
      rintro right s₄ ⟨before₄, renders₄⟩
      exact ⟨before₄, renders₁.pipe renders₄⟩

theorem Exec.finds (string : 0 ∉ line) : ∀ (derivation : Exec), derivation.Fits →
    ∀ {rest : List Token} {s : List Byte}, Before line (derivation.yield ++ rest) s →
    Follow [124, 41, 38, 59] rest → ∀ turns, Finds line rest derivation.tree s (parseexec turns)
  | _, _, _, _, _, _, 0 => rfl
  | .block inner redirs, fits, rest, s, before, follow, turns + 1 => by
      have before : Before line (.opened :: (inner.yield ++
          (.closed :: (redirsYield redirs ++ rest)))) s := by
        simpa [Exec.yield] using before
      have opens : starts [40] (.opened :: (inner.yield ++
          (.closed :: (redirsYield redirs ++ rest)))) = true := rfl
      rw [parseexec]
      refine sat_bind.mpr (sat_peek (by decide) before string fun s₁ before₁ _ => ?_)
      rw [if_pos opens]
      cases turns with
      | zero => rfl
      | succ turns =>
        rw [parseblock]
        refine sat_bind.mpr (sat_peek (by decide) before₁ string fun s₂ before₂ _ => ?_)
        rw [if_pos opens]
        refine sat_bind.mpr (sat_gettoken before₂ string fun _ s₃ before₃ _ _ => ?_)
        refine (Line.finds string inner fits before₃
          (.inr (starts_cons.mpr ⟨41, rfl, by decide⟩)) turns).bind ?_
        rintro cmd s₄ ⟨before₄, renders₄⟩
        refine sat_bind.mpr (sat_peek (by decide) before₄ string fun s₅ before₅ _ => ?_)
        rw [if_pos ((starts_single .closed rfl (by decide)).mpr ⟨_, rfl⟩)]
        refine sat_bind.mpr (sat_gettoken before₅ string fun _ s₆ before₆ _ _ => ?_)
        exact complete_parseredirs string turns renders₄ before₆ (follow.not_starts (by simp))
  | .simple redirs args, fits, rest, s, before, follow, turns + 1 => by
      have before : Before line (redirsYield redirs ++ (argsYield args ++ rest)) s := by
        simpa [Exec.yield] using before
      have followArgs : Follow [124, 41, 38, 59] (argsYield args ++ rest) ∨
          ∃ word toks, argsYield args ++ rest = .word word :: toks := by
        cases args with
        | nil => exact .inl follow
        | cons arg args => exact .inr ⟨arg.1, _, rfl⟩
      have notOpens : ¬starts [40] (redirsYield redirs ++ (argsYield args ++ rest)) = true := by
        cases redirs with
        | nil =>
          rcases followArgs with follow | ⟨word, toks, toks_eq⟩
          · exact follow.not_starts (by simp)
          · rw [redirsYield, flatMap_nil, nil_append, toks_eq]
            exact nofun
        | cons redir redirs =>
          have found : starts [60, 62] (redirsYield (redir :: redirs) ++
              (argsYield args ++ rest)) = true := starts_redirs.mpr ⟨redir.kind, _, rfl⟩
          exact starts_disjoint (by simp) found
      have stopRedirs : ¬starts [60, 62] (argsYield args ++ rest) = true := by
        rcases followArgs with follow | ⟨word, toks, toks_eq⟩
        · exact follow.not_starts (by simp)
        · rw [toks_eq]
          exact nofun
      have few : 0 + args.length < MAXARGS := by
        change args.length ≤ 9 at fits
        change 0 + args.length < 10
        omega
      rw [parseexec]
      refine sat_bind.mpr (sat_peek (by decide) before string fun s₁ before₁ _ => ?_)
      rw [if_neg notOpens]
      refine (complete_parseredirs string turns renders_exec before₁ stopRedirs).bind ?_
      rintro ret s₂ ⟨before₂, renders₂⟩
      exact complete_parseargs string turns renders₂ few before₂ follow

end

end Xv6.Shell
