import Xv6.User.Ulib

/-!
# The parser of the shell: `sh.c`

A pointer into the line is the text from it to the end `es`, behind which there is a
NUL. The cursor `*ps` is the state of the parser. Its loops and its recursion take
a number of turns; a parser that is out of turns has not finished.

`malloc` succeeds.
-/

namespace Xv6.User

/-! ## Commands -/

abbrev MAXARGS : Nat := 10

/-- `struct cmd`, over the strings that it points to. -/
inductive Cmd (Text : Type) where
  | exec (argv : List Text)
  | redir (cmd : Cmd Text) (file : Text) (mode : UInt32) (fd : Nat)
  | pipe (left right : Cmd Text)
  | list (left right : Cmd Text)
  | back (cmd : Cmd Text)
deriving DecidableEq, Repr

/-- Set the next argument of the `struct execcmd` at the bottom of `ret`, which `cmd` in
`parseexec` points to. -/
def Cmd.addArg {Text : Type} : Cmd Text → Text → Cmd Text
  | .exec argv, arg => .exec (argv ++ [arg])
  | .redir cmd file mode fd, arg => .redir (cmd.addArg arg) file mode fd
  | cmd, _ => cmd

/-- A counted string: the pointers to its first byte and behind its last one. -/
structure Span where
  q : List Byte
  eq : List Byte
deriving DecidableEq, Repr

/-! ## Tokens -/

/-- Blank, tab, carriage return, newline and vertical tab. -/
def whitespace : List Byte := [32, 9, 13, 10, 11]

/-- `<|>&;()`. -/
def symbols : List Byte := [60, 124, 62, 38, 59, 40, 41]

/-- What ends a parse without a tree. -/
inductive Halt where
  | panic (message : String)
  /-- There are no turns left. -/
  | turns
deriving DecidableEq, Repr

abbrev Parse := EStateM Halt (List Byte)

/-- `*s`. -/
def deref (s : List Byte) : Byte := s.headD 0

/-- `while(s < es && strchr(whitespace, *s)) s++`. -/
def skip (s : List Byte) : List Byte := s.dropWhile fun c => (strchr whitespace c).isSome

/-- The `switch` of `gettoken`: the token at a pointer, and the pointer behind it. -/
def scanToken (s : List Byte) : Byte × List Byte :=
  match s with
  | [] => (0, s)
  | c :: rest =>
    if c = 0 then (0, s)
    else if c = 124 ∨ c = 40 ∨ c = 41 ∨ c = 59 ∨ c = 38 ∨ c = 60 then (c, rest)
    else if c = 62 then if deref rest = 62 then (43, rest.tail) else (c, rest)
    else (97, s.dropWhile fun c => ¬(strchr whitespace c).isSome ∧ ¬(strchr symbols c).isSome)

def gettoken : Parse (Byte × Span) := do
  let q := skip (← get)
  let (ret, eq) := scanToken q
  set (skip eq)
  return (ret, { q := q, eq := eq })

def peek (toks : List Byte) : Parse Bool := do
  let s := skip (← get)
  set s
  return deref s ≠ 0 ∧ (strchr toks (deref s)).isSome

/-! ## The grammar -/

def parseredirs : Nat → Cmd Span → Parse (Cmd Span)
  | 0, _ => throw .turns
  | turns + 1, cmd => do
      if ← peek [60, 62] then
        let (tok, _) ← gettoken
        let (next, file) ← gettoken
        if next ≠ 97 then
          throw (.panic "missing file for redirection")
        else if tok = 60 then
          parseredirs turns (.redir cmd file O_RDONLY 0)
        else if tok = 62 then
          parseredirs turns (.redir cmd file (O_WRONLY ||| O_CREATE) 1)
        else if tok = 43 then
          parseredirs turns (.redir cmd file (O_WRONLY ||| O_CREATE) 1)
        else
          parseredirs turns cmd
      else
        return cmd

/-- The loop of `parseexec`. -/
def parseargs : Nat → Nat → Cmd Span → Parse (Cmd Span)
  | 0, _, _ => throw .turns
  | turns + 1, argc, ret => do
      if ← peek [124, 41, 38, 59] then
        return ret
      else
        let (tok, arg) ← gettoken
        if tok = 0 then
          return ret
        else if tok ≠ 97 then
          throw (.panic "syntax")
        else if MAXARGS ≤ argc + 1 then
          throw (.panic "too many args")
        else
          let ret ← parseredirs turns (ret.addArg arg)
          parseargs turns (argc + 1) ret

/-- The loop of `parseline`. -/
def parsebacks : Nat → Cmd Span → Parse (Cmd Span)
  | 0, _ => throw .turns
  | turns + 1, cmd => do
      if ← peek [38] then
        let _ ← gettoken
        parsebacks turns (.back cmd)
      else
        return cmd

mutual

def parseline : Nat → Parse (Cmd Span)
  | 0 => throw .turns
  | turns + 1 => do
      let cmd ← parsepipe turns
      let cmd ← parsebacks turns cmd
      if ← peek [59] then
        let _ ← gettoken
        let right ← parseline turns
        return .list cmd right
      else
        return cmd

def parsepipe : Nat → Parse (Cmd Span)
  | 0 => throw .turns
  | turns + 1 => do
      let cmd ← parseexec turns
      if ← peek [124] then
        let _ ← gettoken
        let right ← parsepipe turns
        return .pipe cmd right
      else
        return cmd

def parseblock : Nat → Parse (Cmd Span)
  | 0 => throw .turns
  | turns + 1 => do
      if ← peek [40] then
        let _ ← gettoken
        let cmd ← parseline turns
        if ← peek [41] then
          let _ ← gettoken
          parseredirs turns cmd
        else
          throw (.panic "syntax - missing )")
      else
        throw (.panic "parseblock")

def parseexec : Nat → Parse (Cmd Span)
  | 0 => throw .turns
  | turns + 1 => do
      if ← peek [40] then
        parseblock turns
      else
        let ret ← parseredirs turns (.exec [])
        parseargs turns 0 ret

end

/-! ## Whole lines -/

/-- Write the NULs behind the strings of a command; `es` is the length of the line. -/
def nulterminate (es : Nat) : Cmd Span → List Byte → List Byte
  | .exec argv, memory => argv.foldl (fun memory arg => memory.set (es - arg.eq.length) 0) memory
  | .redir cmd file _ _, memory => (nulterminate es cmd memory).set (es - file.eq.length) 0
  | .pipe left right, memory => nulterminate es right (nulterminate es left memory)
  | .list left right, memory => nulterminate es right (nulterminate es left memory)
  | .back cmd, memory => nulterminate es cmd memory

/-- `parsecmd` up to `nulterminate`. -/
def parseall (turns : Nat) : Parse (Cmd Span) := do
  let cmd ← parseline turns
  let _ ← peek []
  let s ← get
  if s ≠ [] then
    throw (.panic "syntax")
  else
    return cmd

/-- The tree of a line, and the memory that its pointers point into. -/
def parsecmd (turns : Nat) (line : List Byte) : Except Halt (Cmd Span × List Byte) :=
  match parseall turns line with
  | .ok cmd _ => .ok (cmd, nulterminate line.length cmd (line ++ [0]))
  | .error halt _ => .error halt

/-- The string that a pointer of the tree points to. -/
def Span.string (es : Nat) (memory : List Byte) (span : Span) : List Byte :=
  cstring (memory.drop (es - span.q.length))

/-- The tree with the strings that it points to. -/
def Cmd.map {Text Other : Type} (read : Text → Other) : Cmd Text → Cmd Other
  | .exec argv => .exec (argv.map read)
  | .redir cmd file mode fd => .redir (cmd.map read) (read file) mode fd
  | .pipe left right => .pipe (left.map read) (right.map read)
  | .list left right => .list (left.map read) (right.map read)
  | .back cmd => .back (cmd.map read)

end Xv6.User
