import Xv6.Shell.Tokens

/-!
# The grammar of the shell

    line  ::= pipe '&'* [';' line]
    pipe  ::= exec ['|' pipe]
    exec  ::= '(' line ')' redir* | redir* (word redir*)*
    redir ::= ('<' | '>' | '>>') word

A derivation is a tree of the types below. Its yield is the sequence of the tokens at
its leaves, and its tree is the command that it stands for.
-/

namespace Xv6.Shell

open User

/-! ## Derivations -/

inductive RedirKind where
  | input
  | output
  | append
deriving DecidableEq, Repr

/-- `redir`. -/
structure Redir where
  kind : RedirKind
  file : List Byte
deriving DecidableEq, Repr

mutual

/-- `line`, with the number of the `&`s. -/
inductive Line where
  | last (pipe : Pipe) (backs : Nat)
  | more (pipe : Pipe) (backs : Nat) (rest : Line)

inductive Pipe where
  | last (exec : Exec)
  | more (exec : Exec) (rest : Pipe)

/-- `exec`, with each word and the redirections behind it. -/
inductive Exec where
  | block (line : Line) (redirs : List Redir)
  | simple (redirs : List Redir) (args : List (List Byte × List Redir))

end

/-! ## Yields -/

def RedirKind.token : RedirKind → Token
  | .input => .input
  | .output => .output
  | .append => .append

def Redir.yield (redir : Redir) : List Token := [redir.kind.token, .word redir.file]

def redirsYield (redirs : List Redir) : List Token := redirs.flatMap Redir.yield

def argsYield (args : List (List Byte × List Redir)) : List Token :=
  args.flatMap fun arg => .word arg.1 :: redirsYield arg.2

mutual

def Line.yield : Line → List Token
  | .last pipe backs => pipe.yield ++ List.replicate backs .back
  | .more pipe backs rest => pipe.yield ++ List.replicate backs .back ++ .list :: rest.yield

def Pipe.yield : Pipe → List Token
  | .last exec => exec.yield
  | .more exec rest => exec.yield ++ .pipe :: rest.yield

def Exec.yield : Exec → List Token
  | .block line redirs => .opened :: line.yield ++ .closed :: redirsYield redirs
  | .simple redirs args => redirsYield redirs ++ argsYield args

end

/-! ## At most `MAXARGS - 1` words in a simple command -/

mutual

def Line.Fits : Line → Prop
  | .last pipe _ => pipe.Fits
  | .more pipe _ rest => pipe.Fits ∧ rest.Fits

def Pipe.Fits : Pipe → Prop
  | .last exec => exec.Fits
  | .more exec rest => exec.Fits ∧ rest.Fits

def Exec.Fits : Exec → Prop
  | .block line _ => line.Fits
  | .simple _ args => args.length ≤ MAXARGS - 1

end

/-! ## Commands -/

def RedirKind.mode : RedirKind → UInt32
  | .input => O_RDONLY
  | .output | .append => O_WRONLY ||| O_CREATE

def RedirKind.fd : RedirKind → Nat
  | .input => 0
  | .output | .append => 1

/-- Wrap redirections around a command, the last one outermost. -/
def wrap (cmd : Cmd (List Byte)) (redirs : List Redir) : Cmd (List Byte) :=
  redirs.foldl (fun cmd redir => .redir cmd redir.file redir.kind.mode redir.kind.fd) cmd

mutual

def Line.tree : Line → Cmd (List Byte)
  | .last pipe backs => Cmd.back^[backs] pipe.tree
  | .more pipe backs rest => .list (Cmd.back^[backs] pipe.tree) rest.tree

def Pipe.tree : Pipe → Cmd (List Byte)
  | .last exec => exec.tree
  | .more exec rest => .pipe exec.tree rest.tree

def Exec.tree : Exec → Cmd (List Byte)
  | .block line redirs => wrap line.tree redirs
  | .simple redirs args =>
    wrap (.exec (args.map Prod.fst)) (redirs ++ args.flatMap Prod.snd)

end

end Xv6.Shell
