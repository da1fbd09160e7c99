import Mathlib.Data.Int.Basic

/-!
# Reading an octal mode: `chmod.c`

An `int` is an `Int`, and an operation that leaves the range of an `int` has no result.
-/

namespace Xv6.User

/-- The result of an operation on `int`s, unless it overflows. -/
def int (value : Int) : Option Int :=
  if -2147483648 ≤ value ∧ value ≤ 2147483647 then some value else none

/-- `pow`. -/
def pow (x : Int) (y : Nat) : Option Int :=
  if y = 0 then some 1
  else if y % 2 = 0 then do int ((← pow x (y / 2)) * (← pow x (y / 2)))
  else do int ((← int (x * (← pow x (y / 2)))) * (← pow x (y / 2)))
termination_by y

/-- The loop of `octtodec`. -/
def octtodecFrom (dec : Int) (i : Nat) (oct : Int) : Option Int :=
  if oct = 0 then some dec
  else do
    let term ← int (oct.tmod 10 * (← pow 8 i))
    octtodecFrom (← int (dec + term)) (i + 1) (oct.tdiv 10)
termination_by oct.natAbs
decreasing_by
  rw [Int.natAbs_tdiv]
  exact Nat.div_lt_self (by omega) (by decide)

/-- `octtodec`. -/
def octtodec (oct : Int) : Option Int := octtodecFrom 0 0 oct

end Xv6.User
