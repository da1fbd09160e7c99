import Xv6.Kernel.Param

/-!
# The arguments of a system call: `syscall.c`

A call finds its arguments on the user stack, above the saved program counter. All
sums are of `uint`s. A pointer that the kernel follows is checked against the size of
the process first; an access outside of it would be one to memory of the kernel or of
nobody, and the model stops there.
-/

namespace Xv6

/-- What the kernel sees of the process that makes a call. -/
structure Caller where
  sz : UInt32
  esp : UInt32
  memory : UInt32 → Byte

/-- An access to an address outside of the process. -/
structure Outside where
  addr : UInt32
deriving DecidableEq, Repr

namespace Caller

variable (caller : Caller)

/-- `*addr`. -/
def load (addr : UInt32) : Except Outside Byte :=
  if addr < caller.sz then pure (caller.memory addr) else throw ⟨addr⟩

/-- The word whose bytes are in memory, the lowest first. -/
def word (addr : UInt32) : UInt32 :=
  (caller.memory addr).toUInt32 ||| (caller.memory (addr + 1)).toUInt32 <<< 8 |||
    (caller.memory (addr + 2)).toUInt32 <<< 16 ||| (caller.memory (addr + 3)).toUInt32 <<< 24

/-- `*(int*)addr`. -/
def loadInt (addr : UInt32) : Except Outside UInt32 := do
  let first ← caller.load addr
  let second ← caller.load (addr + 1)
  let third ← caller.load (addr + 2)
  let fourth ← caller.load (addr + 3)
  pure (first.toUInt32 ||| second.toUInt32 <<< 8 ||| third.toUInt32 <<< 16 |||
    fourth.toUInt32 <<< 24)

/-- `fetchint`. -/
def fetchint (addr : UInt32) : Except Outside (Option UInt32) :=
  if caller.sz ≤ addr ∨ caller.sz < addr + 4 then pure none
  else do
    let value ← caller.loadInt addr
    pure (some value)

/-- The loop of `fetchstr`, with the number of bytes before `ep`. -/
def fetchstrLoop (addr : UInt32) : Nat → UInt32 → Except Outside (Option (UInt32 × UInt32))
  | 0, _ => pure none
  | left + 1, s => do
      if (← caller.load s) = 0 then pure (some (addr, s - addr))
      else fetchstrLoop addr left (s + 1)

/-- `fetchstr`: the string and its length. -/
def fetchstr (addr : UInt32) : Except Outside (Option (UInt32 × UInt32)) :=
  if caller.sz ≤ addr then pure none
  else caller.fetchstrLoop addr (caller.sz - addr).toNat addr

/-- The address of the nth argument. -/
def argAddr (n : UInt32) : UInt32 := caller.esp + 4 + 4 * n

/-- `argint`. -/
def argint (n : UInt32) : Except Outside (Option UInt32) := caller.fetchint (caller.argAddr n)

/-- `argptr`. -/
def argptr (n : UInt32) (size : Int32) : Except Outside (Option UInt32) := do
  match ← caller.argint n with
  | none => pure none
  | some i =>
    if size < 0 ∨ caller.sz ≤ i ∨ caller.sz < i + size.toUInt32 then pure none
    else pure (some i)

/-- `argstr`. -/
def argstr (n : UInt32) : Except Outside (Option (UInt32 × UInt32)) := do
  match ← caller.argint n with
  | none => pure none
  | some addr => caller.fetchstr addr

/-- The elements of an array of words that lie inside of the process. -/
def array (p : UInt32) (i : Nat) : Option UInt32 :=
  let addr := p + 4 * .ofNat i
  if addr.toNat + 4 ≤ caller.sz.toNat then some (caller.word addr) else none

end Caller

end Xv6
