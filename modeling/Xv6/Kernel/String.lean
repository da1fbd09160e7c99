import Xv6.Kernel.Param

/-!
# Moving and filling memory: `string.c`, with `stosb` and `stosl` of `x86.h`

The memory has a byte at every address. A pointer is moved modulo 2^32, and what is
stored for an `int` is the two's complement.
-/

namespace Xv6.Primitives

abbrev Ram := Nat → Byte

/-- `while(n-- > 0) *d++ = *s++`. -/
def copyUp (ram : Ram) (d s : Nat) : Nat → Ram
  | 0 => ram
  | n + 1 => copyUp (Function.update ram d (ram s)) ((d + 1) % 2 ^ 32) ((s + 1) % 2 ^ 32) n

/-- `while(n-- > 0) *--d = *--s`. -/
def copyDown (ram : Ram) (d s : Nat) : Nat → Ram
  | 0 => ram
  | n + 1 =>
    let d := (d + (2 ^ 32 - 1)) % 2 ^ 32
    let s := (s + (2 ^ 32 - 1)) % 2 ^ 32
    copyDown (Function.update ram d (ram s)) d s n

def memmove (ram : Ram) (dst src n : Nat) : Ram :=
  if src < dst ∧ dst < (src + n) % 2 ^ 32 then
    copyDown ram ((dst + n) % 2 ^ 32) ((src + n) % 2 ^ 32) n
  else copyUp ram dst src n

/-- `rep stosb` stores the byte in `al`. -/
def stosb (ram : Ram) (addr : Nat) (data : Int32) : Nat → Ram
  | 0 => ram
  | cnt + 1 => stosb (Function.update ram addr data.toUInt32.toUInt8) ((addr + 1) % 2 ^ 32) data cnt

/-- One byte of a word, the lowest first. -/
def byte (data : Int32) (k : UInt32) : Byte := (data.toUInt32 >>> (8 * k)).toUInt8

/-- `rep stosl` stores the word in `eax`. -/
def stosl (ram : Ram) (addr : Nat) (data : Int32) : Nat → Ram
  | 0 => ram
  | cnt + 1 =>
    let ram := Function.update ram addr (byte data 0)
    let ram := Function.update ram ((addr + 1) % 2 ^ 32) (byte data 1)
    let ram := Function.update ram ((addr + 2) % 2 ^ 32) (byte data 2)
    let ram := Function.update ram ((addr + 3) % 2 ^ 32) (byte data 3)
    stosl ram ((addr + 4) % 2 ^ 32) data cnt

/-- The word with the low byte of `c` four times. -/
def fourfold (c : Int32) : Int32 :=
  let c := c &&& 0xFF
  c <<< 24 ||| c <<< 16 ||| c <<< 8 ||| c

def memset (ram : Ram) (dst : Nat) (c : Int32) (n : Nat) : Ram :=
  if (Int32.ofNat dst) % 4 = 0 ∧ n % 4 = 0 then stosl ram dst (fourfold c) (n / 4)
  else stosb ram dst c n

end Xv6.Primitives
