import Mathlib.Data.Nat.Bitwise
import Xv6.Kernel.Sysfile

/-!
# The rights a mode grants

What the nine mode bits are for: the owner, the members of the group and
everybody else each have a bit for reading, writing and executing, and a caller
is judged by the first class it falls in. The code reads the bits from the array
that `int_to_bin_digit` fills, and `modeBit_eq_permits` says that they are these.
-/

namespace Xv6.Access

/-- The class of a caller with respect to a file. -/
inductive AccessClass where
  | user | group | other
deriving DecidableEq, Repr

inductive Right where
  | read | write | execute
deriving DecidableEq, Repr

/-- The owner is judged by the user bits, then the group decides. -/
def classOf (owner group : UInt32) (credentials : Credentials) : AccessClass :=
  if owner = credentials.euid then .user
  else if ∃ i, credentials.gids i = group then .group
  else .other

/-- The weight of each bit: `0400` for the user's read bit down to `01` for the
others' execute bit. -/
def bitPosition : AccessClass → Right → Nat
  | .user, .read => 8
  | .user, .write => 7
  | .user, .execute => 6
  | .group, .read => 5
  | .group, .write => 4
  | .group, .execute => 3
  | .other, .read => 2
  | .other, .write => 1
  | .other, .execute => 0

/-- Does the mode grant the right to the class? -/
def permits (mode : UInt32) (accessClass : AccessClass) (right : Right) : Bool :=
  mode.toNat.testBit (bitPosition accessClass right)

/-- The mask meets the shifted mode in the bit that was shifted to its place. -/
theorem and_mask_eq_zero (mode : UInt32) {index : Nat} (bounded : index < 10) :
    (mode <<< UInt32.ofNat index) &&& ((1 : UInt32) <<< UInt32.ofNat 9) = 0 ↔
      mode.toNat.testBit (9 - index) = false := by
  have mask : ((1 : UInt32) <<< UInt32.ofNat 9).toNat = 2 ^ 9 := by decide
  have amount : (UInt32.ofNat index).toNat % 32 = index := by
    rw [UInt32.toNat_ofNat']
    omega
  have bit : (mode <<< UInt32.ofNat index).toNat.testBit 9 = mode.toNat.testBit (9 - index) := by
    rw [UInt32.toNat_shiftLeft, amount, Nat.testBit_mod_two_pow, Nat.testBit_shiftLeft]
    simp
    omega
  rw [← UInt32.toNat_inj, UInt32.toNat_and, mask, Nat.and_two_pow, bit]
  cases mode.toNat.testBit (9 - index) <;> simp

/-- The array holds the bits of the number, the highest first. -/
theorem modeBit_eq_testBit (mode : UInt32) {index : Nat} (bounded : index < 10) :
    modeBit mode index = mode.toNat.testBit (9 - index) := by
  have masked := and_mask_eq_zero mode bounded
  unfold modeBit intToBinDigit
  rw [List.getD_eq_getElem?_getD, List.getElem?_map, List.getElem?_range bounded]
  change decide (mode <<< UInt32.ofNat index &&& (1 : UInt32) <<< UInt32.ofNat 9 ≠ 0) = _
  cases bit : mode.toNat.testBit (9 - index) with
  | false => exact decide_eq_false (not_not.mpr (masked.mpr bit))
  | true =>
    refine decide_eq_true fun zero => ?_
    rw [masked.mp zero] at bit
    cases bit

/-- The index under which the code looks up each bit. -/
def bitIndex : AccessClass → Right → Nat
  | .user, .read => USER_R_BIT
  | .user, .write => USER_W_BIT
  | .user, .execute => USER_X_BIT
  | .group, .read => GROUP_R_BIT
  | .group, .write => GROUP_W_BIT
  | .group, .execute => GROUP_X_BIT
  | .other, .read => OTHER_R_BIT
  | .other, .write => OTHER_W_BIT
  | .other, .execute => OTHER_X_BIT

theorem modeBit_eq_permits (mode : UInt32) (accessClass : AccessClass) (right : Right) :
    modeBit mode (bitIndex accessClass right) = permits mode accessClass right := by
  cases accessClass <;> cases right <;> exact modeBit_eq_testBit mode (by decide)

/-- The cascade of a check never reaches the group: who does not own the file is
judged by what it grants to the others. -/
theorem classInvalid_eq (fileowner user group others : Bool) :
    classInvalid fileowner user group others = !(if fileowner then user else others) := by
  cases fileowner <;> rfl

end Xv6.Access
