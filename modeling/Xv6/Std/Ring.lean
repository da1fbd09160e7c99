import Mathlib.Data.List.Basic
import Mathlib.Data.Nat.ModEq
import Mathlib.Logic.Function.Basic

/-!
# Queues in a ring

A queue of at most `size` elements lies in a cyclic array: it starts at some
position, counted without bound, and each position is taken modulo the size.
Elements are added after the last one and removed at the start. The positions may be
kept in 32-bit counters that wrap around, as long as the size divides their range.
-/

namespace Ring

open List

variable {Element : Type}

/-- The `count` elements from position `start` on. -/
def contents (size : Nat) (data : Nat → Element) (start count : Nat) : List Element :=
  (List.range count).map fun i => data ((start + i) % size)

variable {size : Nat} {data : Nat → Element} {start count : Nat}

@[simp] theorem length_contents : (contents size data start count).length = count := by
  simp [contents]

/-- Only the residue of the start matters. -/
theorem contents_congr {start' : Nat} (same : start' % size = start % size) :
    contents size data start' count = contents size data start count := by
  apply map_congr_left
  intro i _
  rw [Nat.add_mod, same, ← Nat.add_mod]

/-- An element at the end of a queue that is not full. -/
theorem contents_push (room : count < size) (element : Element) :
    contents size (Function.update data ((start + count) % size) element) start (count + 1) =
      contents size data start count ++ [element] := by
  unfold contents
  rw [range_succ, map_append, map_singleton, Function.update_self]
  congr 1
  apply map_congr_left
  intro i below
  have apart : (start + i) % size ≠ (start + count) % size := by
    intro same
    have bounded : i < count := mem_range.mp below
    have residue : i % size = count % size := Nat.ModEq.add_left_cancel' start same
    rw [Nat.mod_eq_of_lt room, Nat.mod_eq_of_lt (bounded.trans room)] at residue
    omega
  rw [Function.update_of_ne apart]

/-- The first element of a queue that is not empty. -/
theorem contents_pop :
    contents size data start (count + 1) =
      data (start % size) :: contents size data (start + 1) count := by
  unfold contents
  rw [range_succ_eq_map, map_cons, map_map]
  congr 1
  apply map_congr_left
  intro i _
  rw [Function.comp_apply, Nat.add_right_comm]
  rfl

/-- A shorter queue from the same start. -/
theorem contents_take {part : Nat} (shorter : part ≤ count) :
    contents size data start part = (contents size data start count).take part := by
  unfold contents
  rw [← map_take, take_range, Nat.min_eq_left shorter]

/-- A queue that starts later. -/
theorem contents_drop {part : Nat} (shorter : part ≤ count) :
    contents size data (start + part) (count - part) =
      (contents size data start count).drop part := by
  obtain ⟨rest, rfl⟩ := Nat.exists_eq_add_of_le shorter
  unfold contents
  rw [Nat.add_sub_cancel_left, range_add, map_append, drop_left' (by simp),
    map_map]
  apply map_congr_left
  intro i _
  rw [Nat.add_assoc]
  rfl

/-! ## Counters that wrap around -/

section Counters

variable {front back : UInt32}

theorem distance_eq_zero : (back - front).toNat = 0 ↔ front = back := by
  have := front.toNat_lt
  have := back.toNat_lt
  rw [← UInt32.toNat_inj, UInt32.toNat_sub]
  omega

/-- The start moves on. -/
theorem distance_advance (apart : front ≠ back) :
    (back - front).toNat = (back - (front + 1)).toNat + 1 := by
  have := front.toNat_lt
  have := back.toNat_lt
  rw [Ne, ← UInt32.toNat_inj] at apart
  rw [UInt32.toNat_sub, UInt32.toNat_sub, UInt32.toNat_add]
  change _ = (2 ^ 32 - (_ + 1) % 2 ^ 32 + _) % 2 ^ 32 + 1
  omega

/-- The end moves on. -/
theorem distance_extend (room : (back - front).toNat + 1 < 2 ^ 32) :
    (back + 1 - front).toNat = (back - front).toNat + 1 := by
  have := front.toNat_lt
  have := back.toNat_lt
  rw [UInt32.toNat_sub] at room
  rw [UInt32.toNat_sub, UInt32.toNat_sub, UInt32.toNat_add]
  change (_ + (_ + 1) % 2 ^ 32) % 2 ^ 32 = _
  omega

/-- The end moves back. -/
theorem distance_retract (apart : front ≠ back) :
    (back - front).toNat = (back - 1 - front).toNat + 1 := by
  have := front.toNat_lt
  have := back.toNat_lt
  rw [Ne, ← UInt32.toNat_inj] at apart
  rw [UInt32.toNat_sub, UInt32.toNat_sub, UInt32.toNat_sub]
  change _ = (_ + (2 ^ 32 - 1 + _) % 2 ^ 32) % 2 ^ 32 + 1
  omega

/-- The position of the end in the array. -/
theorem residue_back (divides : size ∣ 2 ^ 32) :
    back.toNat % size = (front.toNat + (back - front).toNat) % size := by
  have := front.toNat_lt
  have := back.toNat_lt
  have whole : back.toNat ≡ front.toNat + (back - front).toNat [MOD 2 ^ 32] := by
    unfold Nat.ModEq
    rw [UInt32.toNat_sub]
    omega
  exact whole.of_dvd divides

/-- The position of the start after it moved on. -/
theorem residue_advance (divides : size ∣ 2 ^ 32) :
    (front + 1).toNat % size = (front.toNat + 1) % size := by
  have whole : (front + 1).toNat ≡ front.toNat + 1 [MOD 2 ^ 32] := by
    unfold Nat.ModEq
    rw [UInt32.toNat_add]
    exact Nat.mod_mod _ _
  exact whole.of_dvd divides

end Counters

end Ring
