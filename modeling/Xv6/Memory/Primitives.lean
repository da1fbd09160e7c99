import Mathlib.Tactic.IntervalCases
import Xv6.Kernel.String

/-!
# What `memmove` and `memset` leave in memory

The loops are followed with pointers that may reach 2^32, where the last one wraps to 0
without being used any more.
-/

namespace Xv6.Primitives

variable {ram : Ram} {d s n a : Nat} {c data : Int32}

/-- Copying upwards is right unless the source begins below the destination and reaches
into it. -/
theorem copyUp_apply (d_range : d + n ≤ 2 ^ 32) (s_range : s + n ≤ 2 ^ 32)
    (apart : d ≤ s ∨ s + n ≤ d) : copyUp ram (d % 2 ^ 32) (s % 2 ^ 32) n a =
      if d ≤ a ∧ a < d + n then ram (s + (a - d)) else ram a := by
  induction n generalizing ram d s with
  | zero => rw [copyUp, if_neg (by omega)]
  | succ n ih =>
    have d_eq : (d % 2 ^ 32 + 1) % 2 ^ 32 = (d + 1) % 2 ^ 32 := by omega
    have s_eq : (s % 2 ^ 32 + 1) % 2 ^ 32 = (s + 1) % 2 ^ 32 := by omega
    rw [copyUp, d_eq, s_eq, ih (by omega) (by omega) (by omega), Nat.mod_eq_of_lt (by omega),
      Nat.mod_eq_of_lt (by omega)]
    -- the byte just written is not read any more
    simp only [Function.update_apply]
    grind

theorem copyDown_apply (d_range : d + n ≤ 2 ^ 32) (below : s ≤ d) :
    copyDown ram ((d + n) % 2 ^ 32) ((s + n) % 2 ^ 32) n a =
      if d ≤ a ∧ a < d + n then ram (s + (a - d)) else ram a := by
  induction n generalizing ram with
  | zero => rw [copyDown, if_neg (by omega)]
  | succ n ih =>
    have d_eq : ((d + (n + 1)) % 2 ^ 32 + (2 ^ 32 - 1)) % 2 ^ 32 = (d + n) % 2 ^ 32 := by omega
    have s_eq : ((s + (n + 1)) % 2 ^ 32 + (2 ^ 32 - 1)) % 2 ^ 32 = (s + n) % 2 ^ 32 := by omega
    simp only [copyDown, d_eq, s_eq]
    rw [ih (by omega), Nat.mod_eq_of_lt (a := d + n) (by omega),
      Nat.mod_eq_of_lt (a := s + n) (by omega)]
    simp only [Function.update_apply]
    grind

theorem stosb_apply (range : d + n ≤ 2 ^ 32) : stosb ram (d % 2 ^ 32) data n a =
    if d ≤ a ∧ a < d + n then data.toUInt32.toUInt8 else ram a := by
  induction n generalizing ram d with
  | zero => rw [stosb, if_neg (by omega)]
  | succ n ih =>
    have d_eq : (d % 2 ^ 32 + 1) % 2 ^ 32 = (d + 1) % 2 ^ 32 := by omega
    rw [stosb, d_eq, ih (by omega), Nat.mod_eq_of_lt (by omega), Function.update_apply]
    grind

theorem byte_fourfold (c : Int32) :
    byte (fourfold c) 0 = c.toUInt32.toUInt8 ∧ byte (fourfold c) 1 = c.toUInt32.toUInt8 ∧
      byte (fourfold c) 2 = c.toUInt32.toUInt8 ∧ byte (fourfold c) 3 = c.toUInt32.toUInt8 := by
  refine ⟨?_, ?_, ?_, ?_⟩
  all_goals
    apply UInt8.toBitVec_inj.mp
    apply BitVec.eq_of_getLsbD_eq
    intro i small
    interval_cases i <;> simp [byte, fourfold]

/-- A word of four equal bytes is stored like the bytes one after another. -/
theorem stosl_fourfold (ram : Ram) (addr cnt : Nat) (c : Int32) :
    stosl ram addr (fourfold c) cnt = stosb ram addr c (4 * cnt) := by
  obtain ⟨zero, one, two, three⟩ := byte_fourfold c
  induction cnt generalizing ram addr with
  | zero => rfl
  | succ cnt ih =>
    rw [Nat.mul_succ]
    simp only [stosl, stosb, ih, zero, one, two, three, Nat.mod_add_mod, Nat.add_assoc,
      Nat.reduceAdd]

/-- `memmove` and `memset` change the bytes of their range, to the right bytes for every
overlap, and no others; and words are only a faster way to store bytes. -/
theorem memory_primitives_exact (ram : Ram) (dst src n : Nat) (c : Int32)
    (dst_pointer : dst < 2 ^ 32) (src_pointer : src < 2 ^ 32)
    (dst_range : dst + n ≤ 2 ^ 32) (src_range : src + n ≤ 2 ^ 32) :
    (∀ a, memmove ram dst src n a =
      if dst ≤ a ∧ a < dst + n then ram (src + (a - dst)) else ram a) ∧
    (∀ a, memset ram dst c n a = if dst ≤ a ∧ a < dst + n then c.toUInt32.toUInt8 else ram a) ∧
    (n % 4 = 0 → stosl ram dst (fourfold c) (n / 4) = stosb ram dst c n) := by
  have words : n % 4 = 0 → stosl ram dst (fourfold c) (n / 4) = stosb ram dst c n := by
    intro whole
    rw [stosl_fourfold, Nat.mul_div_cancel' (Nat.dvd_of_mod_eq_zero whole)]
  refine ⟨fun a => ?_, fun a => ?_, words⟩
  · unfold memmove
    split
    · exact copyDown_apply dst_range (by omega)
    · have copied := @copyUp_apply ram dst src n a dst_range src_range (by omega)
      rwa [Nat.mod_eq_of_lt dst_pointer, Nat.mod_eq_of_lt src_pointer] at copied
  · have filled := @stosb_apply ram dst n a c dst_range
    rw [Nat.mod_eq_of_lt dst_pointer] at filled
    unfold memset
    split
    · rename_i aligned
      rw [words aligned.2, filled]
    · exact filled

/-- Three bytes moved up by two, and four set to -1 in one word. -/
theorem memory_primitives_overlap :
    (List.range 6).map (memmove UInt8.ofNat 2 0 3) = [0, 1, 0, 1, 2, 5] ∧
      (memset UInt8.ofNat 4 (-1) 4) 7 = 255 := by
  obtain ⟨moved, _⟩ := memory_primitives_exact UInt8.ofNat 2 0 3 0 (by decide) (by decide)
    (by decide) (by decide)
  obtain ⟨_, filled, _⟩ := memory_primitives_exact UInt8.ofNat 4 0 4 (-1) (by decide)
    (by decide) (by decide) (by decide)
  refine ⟨?_, (filled 7).trans (by decide)⟩
  rw [List.map_congr_left fun a _ => moved a]
  decide

end Xv6.Primitives
