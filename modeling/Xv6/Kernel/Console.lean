import Xv6.Kernel.Param
import Xv6.Std.Ring

/-!
# Console input: `consoleintr` and `consoleread` of `console.c`

Keys go into a ring of `INPUT_BUF` bytes with three indices that wrap around with the
32-bit words they are kept in: bytes from `r` on are to be read, those from `w` on may
still be edited, and the next key goes to `e`. The console lock is held for a whole
interrupt, and in `consoleread` from its start, or from where it was woken, to its end
or to where it sleeps. What is drawn on the screen is left out.
-/

namespace Xv6

abbrev INPUT_BUF : Nat := 128

/-- `C('D')`, and so on. -/
abbrev ctrlD : Nat := 4
abbrev ctrlH : Nat := 8
abbrev ctrlP : Nat := 16
abbrev ctrlU : Nat := 21
abbrev rubout : Nat := 127
abbrev lineFeed : Nat := 10
abbrev carriageReturn : Nat := 13

/-- `input`. Only the first `INPUT_BUF` bytes are used. -/
structure ConsoleInput where
  buf : Nat → Byte
  r : UInt32
  w : UInt32
  e : UInt32

namespace ConsoleInput

/-- The global variable at boot. -/
def boot : ConsoleInput := { buf := fun _ => 0, r := 0, w := 0, e := 0 }

/-- Backspace. -/
def backspace (input : ConsoleInput) : ConsoleInput :=
  if input.e ≠ input.w then { input with e := input.e - 1 } else input

/-- The loop of `^U`. -/
def killLineFrom : Nat → ConsoleInput → ConsoleInput
  | 0, input => input
  | turns + 1, input =>
    if input.e ≠ input.w ∧
        input.buf ((input.e - 1).toNat % INPUT_BUF) ≠ UInt8.ofNat lineFeed then
      killLineFrom turns { input with e := input.e - 1 }
    else input

/-- `^U`. The loop ends at the latest when `e` has come down to `w`. -/
def killLine (input : ConsoleInput) : ConsoleInput :=
  killLineFrom (input.e - input.w).toNat input

/-- `input.buf[input.e++ % INPUT_BUF] = c`. -/
def store (input : ConsoleInput) (c : Nat) : ConsoleInput :=
  { input with
    buf := Function.update input.buf (input.e.toNat % INPUT_BUF) (UInt8.ofNat c)
    e := input.e + 1 }

/-- A key that is not a control key of the console. -/
def enter (input : ConsoleInput) (key : Nat) : ConsoleInput :=
  if key ≠ 0 ∧ (input.e - input.r).toNat < INPUT_BUF then
    let c := if key = carriageReturn then lineFeed else key
    let next := input.store c
    if c = lineFeed ∨ c = ctrlD ∨ next.e = next.r + UInt32.ofNat INPUT_BUF then
      { next with w := next.e }
    else next
  else input

/-- One turn of `consoleintr`. -/
def press (input : ConsoleInput) (key : Nat) : ConsoleInput :=
  if key = ctrlP then input
  else if key = ctrlU then input.killLine
  else if key = ctrlH ∨ key = rubout then input.backspace
  else input.enter key

/-- The byte `input.buf[input.r++ % INPUT_BUF]`. -/
def front (input : ConsoleInput) : Byte := input.buf (input.r.toNat % INPUT_BUF)

end ConsoleInput

/-- How a segment of `consoleread` ends: asleep with a number of bytes still to read. -/
inductive ConsoleOutcome where
  | returned (result : Int)
  | asleep (left : Nat)
deriving DecidableEq, Repr

/-- A segment of `consoleread`: what it leaves, the bytes it copied, whether it took a
`^D`, and how it ends. -/
structure ConsoleSegment where
  input : ConsoleInput
  copied : List Byte
  eof : Bool
  outcome : ConsoleOutcome

/-- `consoleread` from its loop on, with `n` of `target` bytes still to read. A caller
that was killed finds out where it would sleep. -/
def ConsoleInput.consoleread (killed : Bool) (target : Nat) : Nat → ConsoleInput → ConsoleSegment
  | 0, input => ⟨input, [], false, .returned target⟩
  | n + 1, input =>
    if input.r = input.w then
      if killed then ⟨input, [], false, .returned (-1)⟩ else ⟨input, [], false, .asleep (n + 1)⟩
    else
      let next := { input with r := input.r + 1 }
      if input.front = UInt8.ofNat ctrlD then
        if n + 1 < target then
          -- Save ^D for next time.
          ⟨{ next with r := next.r - 1 }, [], false, .returned (target - (n + 1))⟩
        else ⟨next, [], true, .returned (target - (n + 1))⟩
      else if input.front = UInt8.ofNat lineFeed then
        ⟨next, [input.front], false, .returned (target - n)⟩
      else
        let rest := consoleread killed target n next
        { rest with copied := input.front :: rest.copied }

/-- A call of `consoleread` that sleeps, with what it has copied so far. -/
structure ConsoleCall where
  size : Int
  left : Nat
  copied : List Byte
deriving DecidableEq, Repr

/-- A call of `consoleread` that returned. -/
structure ConsoleRead (Process : Type) where
  process : Process
  size : Int
  copied : List Byte
  eof : Bool
  result : Int
deriving DecidableEq, Repr

/-- The console, the calls that sleep on it, and a record: of the bytes that `w` has
passed, of the bytes taken from the ring and by whom, and of the calls that returned,
each in the order in which it happened. -/
structure ConsoleSystem (Process : Type) where
  input : ConsoleInput
  pending : Process → Option ConsoleCall
  committed : List Byte
  consumed : List (Process × Byte)
  finished : List (ConsoleRead Process)

inductive ConsoleAction (Process : Type) where
  /-- `consoleintr`, with what `getc` returns before it returns -1. -/
  | interrupt (keys : List Nat)
  | read (p : Process) (size : Int) (killed : Bool)
  /-- A sleeping call goes on. More calls are woken than find something to read. -/
  | resume (p : Process) (killed : Bool)
deriving DecidableEq, Repr

namespace ConsoleSystem

variable {Process : Type}

def start : ConsoleSystem Process :=
  { input := .boot, pending := fun _ => none, committed := [], consumed := [], finished := [] }

/-- One key. What lies between the old `w` and the new one is committed. -/
def press (system : ConsoleSystem Process) (key : Nat) : ConsoleSystem Process :=
  let next := system.input.press key
  { system with
    input := next
    committed := system.committed ++
      Ring.contents INPUT_BUF next.buf system.input.w.toNat (next.w - system.input.w).toNat }

variable [DecidableEq Process]

/-- A segment of a call. -/
def reading (system : ConsoleSystem Process) (p : Process) (killed : Bool) (call : ConsoleCall) :
    ConsoleSystem Process :=
  let segment := ConsoleInput.consoleread killed call.size.toNat call.left system.input
  let taken := segment.copied ++ if segment.eof then [UInt8.ofNat ctrlD] else []
  let copied := call.copied ++ segment.copied
  { system with
    input := segment.input
    consumed := system.consumed ++ taken.map (Prod.mk p)
    pending := Function.update system.pending p
      (match segment.outcome with
      | .returned _ => none
      | .asleep left => some { call with left := left, copied := copied })
    finished :=
      match segment.outcome with
      | .returned result => system.finished ++ [⟨p, call.size, copied, segment.eof, result⟩]
      | .asleep _ => system.finished }

def step (system : ConsoleSystem Process) : ConsoleAction Process → Option (ConsoleSystem Process)
  | .interrupt keys => some (keys.foldl press system)
  | .read p size killed =>
    if system.pending p = none then
      some (system.reading p killed { size := size, left := size.toNat, copied := [] })
    else none
  | .resume p killed => (system.pending p).map (system.reading p killed)

end ConsoleSystem

end Xv6
