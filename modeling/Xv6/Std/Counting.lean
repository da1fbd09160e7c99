import Mathlib.Algebra.BigOperators.Ring.Finset
import Mathlib.Algebra.Order.BigOperators.Group.Finset

/-!
# Totals over finite tables

A table assigns an entry to each of finitely many slots. `total` adds up a
measure of its entries; `total_update` says how the sum moves when one slot is
overwritten, which is all that accounting arguments over tables need.
-/

namespace Counting

open Finset

variable {Slot Entry : Type} [Fintype Slot]

/-- The sum of a measure over all slots. -/
def total (measure : Entry → Nat) (table : Slot → Entry) : Nat :=
  ∑ slot, measure (table slot)

/-- The sum of a measure that may depend on the slot. -/
def totalAt (measure : Slot → Entry → Nat) (table : Slot → Entry) : Nat :=
  ∑ slot, measure slot (table slot)

theorem totalAt_update [DecidableEq Slot] (measure : Slot → Entry → Nat) (table : Slot → Entry)
    (slot : Slot) (entry : Entry) :
    totalAt measure (Function.update table slot entry) + measure slot (table slot) =
      totalAt measure table + measure slot entry := by
  have others : ∑ other ∈ Finset.univ.erase slot,
        measure other (Function.update table slot entry other) =
      ∑ other ∈ Finset.univ.erase slot, measure other (table other) := by
    apply sum_congr rfl
    intro other member
    rw [Function.update_of_ne (ne_of_mem_erase member)]
  unfold totalAt
  rw [← add_sum_erase _ _ (mem_univ slot), others,
    ← add_sum_erase Finset.univ (fun other => measure other (table other))
      (mem_univ slot),
    Function.update_self]
  omega

/-- Overwriting a slot exchanges its old measure for the new one. -/
theorem total_update [DecidableEq Slot] (measure : Entry → Nat) (table : Slot → Entry)
    (slot : Slot) (entry : Entry) :
    total measure (Function.update table slot entry) + measure (table slot) =
      total measure table + measure entry :=
  totalAt_update (fun _ => measure) table slot entry

/-- One slot is part of the total. -/
theorem measure_le_total (measure : Entry → Nat) (table : Slot → Entry) (slot : Slot) :
    measure (table slot) ≤ total measure table :=
  single_le_sum (f := fun slot => measure (table slot)) (fun _ _ => Nat.zero_le _)
    (mem_univ slot)

/-- A total of nothing. -/
theorem total_eq_zero {measure : Entry → Nat} {table : Slot → Entry}
    (none : ∀ slot, measure (table slot) = 0) : total measure table = 0 :=
  sum_eq_zero fun slot _ => none slot

/-- If the slots with a property number one, there is exactly one. -/
theorem existsUnique_of_total {holds : Entry → Prop} [DecidablePred holds] {table : Slot → Entry}
    (one : total (fun entry => if holds entry then 1 else 0) table = 1) :
    ∃! slot, holds (table slot) := by
  have card : (Finset.univ.filter fun slot => holds (table slot)).card = 1 := by
    rw [card_filter]
    exact one
  obtain ⟨slot, only⟩ := card_eq_one.mp card
  have member : ∀ other, holds (table other) ↔ other = slot := by
    intro other
    rw [← mem_singleton, ← only, mem_filter]
    exact ⟨fun held => ⟨mem_univ other, held⟩, And.right⟩
  exact ⟨slot, (member slot).mpr rfl, fun other held => (member other).mp held⟩

/-- A measure bounded by a multiple of another has a total bounded alike. -/
theorem total_le_mul {measure weight : Entry → Nat} {factor : Nat} {table : Slot → Entry}
    (bounded : ∀ slot, measure (table slot) ≤ factor * weight (table slot)) :
    total measure table ≤ factor * total weight table := by
  unfold total
  rw [mul_sum]
  exact sum_le_sum fun slot _ => bounded slot

end Counting
