import Xv6.Kernel.Param

/-!
# Strings in user programs: `ulib.c`

A pointer is the list of the bytes from it to the end of the memory it points into; a
read behind that end finds a NUL. A string that was copied or cut out is the list of
its bytes without the NUL. An `int` is an `Int32`, which wraps around.
-/

namespace Xv6.User

/-- The string at a pointer. -/
def cstring (pointer : List Byte) : List Byte := pointer.takeWhile (· ≠ 0)

abbrev colon : Byte := 58
abbrev newline : Byte := 10
abbrev zero : Byte := 48

def strchr : List Byte → Byte → Option (List Byte)
  | [], _ => none
  | b :: rest, c =>
    if b = 0 then none
    else if b = c then some (b :: rest)
    else strchr rest c

def strspn : List Byte → List Byte → Nat
  | [], _ => 0
  | c :: s1, s2 => if c ≠ 0 ∧ (strchr s2 c).isSome then strspn s1 s2 + 1 else 0

def strcspn : List Byte → List Byte → Nat
  | [], _ => 0
  | c :: s1, s2 => if c = 0 then 0 else if (strchr s2 c).isSome then 0 else strcspn s1 s2 + 1

/-- `strtok`, with its static variable before and after. It returns the string at the
pointer that it returns, which ends at the NUL it writes. -/
def strtok (str : Option (List Byte)) (delim : List Byte) (p : Option (List Byte)) :
    Option (List Byte) × Option (List Byte) :=
  match str.or p with
  | none => (none, none)
  | some p =>
    let str := p.drop (strspn p delim)
    let length := strcspn str delim
    if length = 0 then (none, none)
    else
      (some (str.take length),
        match str.drop length with
        | [] => none
        | c :: rest => if c = 0 then none else some rest)

/-- The difference of the first bytes that differ. -/
def strcmp : List Byte → List Byte → Int
  | [], [] => 0
  | [], q :: _ => 0 - q.toNat
  | p :: _, [] => p.toNat
  | p :: ps, q :: qs => if p = q then strcmp ps qs else p.toNat - q.toNat

/-- The difference of the first bytes that differ, of the first `n`. -/
def strncmp : List Byte → List Byte → Nat → Int
  | _, _, 0 => 0
  | [], q, _ + 1 => 0 - (q.headD 0).toNat
  | p :: ps, q, n + 1 =>
    if p ≠ 0 ∧ p = q.headD 0 then strncmp ps q.tail n else p.toNat - (q.headD 0).toNat

/-- The loop of `atoi`. -/
def atoiFrom (n : Int32) : List Byte → Int32
  | [] => n
  | c :: rest => if 48 ≤ c ∧ c ≤ 57 then atoiFrom (n * 10 + Int32.ofNat c.toNat - 48) rest else n

/-- `atoi`: -1 if there is no digit at all. -/
def atoi : List Byte → Int32
  | [] => -1
  | c :: rest => if 48 ≤ c ∧ c ≤ 57 then atoiFrom 0 (c :: rest) else -1

/-- The loop of `itoa` in base 10 for a positive number, least digit first. A word has at
most ten digits. -/
def itoaDigits : Nat → Nat → List Byte
  | 0, _ => []
  | _ + 1, 0 => []
  | turns + 1, n => (zero + UInt8.ofNat (n % 10)) :: itoaDigits turns (n / 10)

/-- `itoa` in base 10. -/
def itoa (num : Int32) : List Byte :=
  if num = 0 then [zero]
  else
    let digits := itoaDigits 10 num.toInt.natAbs
    ((if num < 0 then digits ++ [45] else digits)).reverse

/-- `strstr`, on strings. -/
def strstr : List Byte → List Byte → Option (List Byte)
  | [], _ => none
  | c :: rest, substr => if substr.isPrefixOf (c :: rest) then some (c :: rest) else strstr rest substr

/-- `gets` into a buffer of `max + 1` bytes, from the bytes still to be read: the string,
and what is left. -/
def gets : Nat → List Byte → List Byte × List Byte
  | 0, input => ([], input)
  | _ + 1, [] => ([], [])
  | max + 1, c :: input =>
    if c = 10 ∨ c = 13 then ([c], input)
    else
      let (line, rest) := gets max input
      (c :: line, rest)

/-! ## Numbers written into a buffer -/

namespace InPlace

/-- The loop of `strrev`. -/
def strrevLoop (str : List Byte) (i j : Nat) : List Byte :=
  if i < j then
    let a := str.getD i 0
    strrevLoop ((str.set i (str.getD j 0)).set j a) (i + 1) (j - 1)
  else str
termination_by j - i

def strrev (str : List Byte) : List Byte := strrevLoop str 0 ((cstring str).length - 1)

/-- The loop of `itoa` over the digits. A word has at most 32 of them. -/
def itoaLoop (base : Int) : Nat → Int → List Byte → Nat → List Byte × Nat
  | 0, _, str, i => (str, i)
  | turns + 1, num, str, i =>
    if num = 0 then (str, i)
    else
      let rem := num.tmod base
      let digit := if 9 < rem then rem - 10 + 97 else rem + 48
      itoaLoop base turns (num.tdiv base) (str.set i (UInt8.ofInt digit)) (i + 1)

def itoa (num : Int) (str : List Byte) (base : Int) : List Byte :=
  if num = 0 then (str.set 0 48).set 1 0
  else
    let isNegative := num < 0 ∧ base = 10
    let (str, i) := itoaLoop base 32 (if isNegative then (-num).bmod (2 ^ 32) else num) str 0
    let (str, i) := if isNegative then (str.set i 45, i + 1) else (str, i)
    strrev (str.set i 0)

end InPlace

end Xv6.User
