import Mathlib.Logic.Function.Basic

/-!
# Places that own units of a pool

A pool has units numbered below a size, some of them reserved, and a mark on
each unit in use. Every place points to a unit or, with zero, to none. The pool
is owned if different places point to different units and exactly the units that
are reserved or pointed to are marked. Allocation and release keep this, and a
unit that a place points to is never found unmarked.
-/

namespace Ownership

open Function

variable {Place : Type} {place : Place} {unit : Nat}

/-- Some place points to the unit. -/
def Held (points : Place → Nat) (unit : Nat) : Prop := unit ≠ 0 ∧ ∃ place, points place = unit

structure Owned (reserved : Nat → Prop) (size : Nat) (points : Place → Nat) (used : Nat → Bool) :
    Prop where
  /-- The number that stands for no unit is not given out. -/
  origin : reserved 0
  within : ∀ place, points place ≠ 0 → points place < size ∧ ¬reserved (points place)
  once : ∀ place place', points place ≠ 0 → points place' = points place → place' = place
  marked : ∀ unit, unit < size → (used unit = true ↔ reserved unit ∨ Held points unit)

variable {reserved : Nat → Prop} {size : Nat} {points : Place → Nat} {used : Nat → Bool}

/-- What a place points to is in use. -/
theorem Owned.used_points (owned : Owned reserved size points used) (some : points place ≠ 0) :
    used (points place) = true :=
  (owned.marked _ (owned.within place some).1).mpr (.inr ⟨some, place, rfl⟩)

/-- An unmarked unit is nobody's. -/
theorem Owned.unowned (owned : Owned reserved size points used) (inPool : unit < size)
    (unused : used unit = false) : unit ≠ 0 ∧ ¬reserved unit ∧ ∀ place, points place ≠ unit := by
  have nobody : ¬(reserved unit ∨ Held points unit) := by
    rw [← owned.marked unit inPool, unused]
    exact Bool.false_ne_true
  have nonzero : unit ≠ 0 := by
    rintro rfl
    exact nobody (.inl owned.origin)
  exact ⟨nonzero, fun held => nobody (.inl held), fun place held =>
    nobody (.inr ⟨nonzero, place, held⟩)⟩

variable [DecidableEq Place]

/-- Who points to the other units does not change when one place moves. -/
theorem held_update {unit' : Nat} (notOld : unit' ≠ points place) (notNew : unit' ≠ unit) :
    Held (update points place unit) unit' ↔ Held points unit' := by
  refine and_congr_right fun _ => exists_congr fun place' => ?_
  by_cases same : place' = place
  · subst same
    rw [update_self]
    exact iff_of_false notNew.symm notOld.symm
  · rw [update_of_ne same]

/-- An empty place takes an unmarked unit. -/
theorem Owned.alloc (owned : Owned reserved size points used) (inPool : unit < size)
    (unused : used unit = false) (empty : points place = 0) :
    Owned reserved size (update points place unit) (update used unit true) := by
  obtain ⟨nonzero, notReserved, nobody⟩ := owned.unowned inPool unused
  constructor
  · exact owned.origin
  · intro place' some
    by_cases same : place' = place
    · subst same
      rw [update_self]
      exact ⟨inPool, notReserved⟩
    · rw [update_of_ne same] at some ⊢
      exact owned.within place' some
  · intro first second some equal
    by_cases firstSame : first = place <;> by_cases secondSame : second = place
    · rw [firstSame, secondSame]
    · subst firstSame
      rw [update_self, update_of_ne secondSame] at equal
      exact absurd equal (nobody second)
    · subst secondSame
      rw [update_self, update_of_ne firstSame] at equal
      exact absurd equal.symm (nobody first)
    · rw [update_of_ne firstSame] at some equal
      rw [update_of_ne secondSame] at equal
      exact owned.once first second some equal
  · intro unit' inPool'
    by_cases same : unit' = unit
    · subst same
      rw [update_self]
      exact iff_of_true rfl (.inr ⟨nonzero, place, update_self ..⟩)
    · rw [update_of_ne same, owned.marked unit' inPool']
      by_cases zero : unit' = 0
      · subst zero
        exact iff_of_true (.inl owned.origin) (.inl owned.origin)
      · rw [held_update (by rwa [empty]) same]

/-- A place gives its unit back. -/
theorem Owned.free (owned : Owned reserved size points used) (some : points place ≠ 0) :
    Owned reserved size (update points place 0)
      (update used (points place) false) := by
  constructor
  · exact owned.origin
  · intro place' some'
    have other : place' ≠ place := by
      rintro rfl
      exact some' (update_self ..)
    rw [update_of_ne other] at some' ⊢
    exact owned.within place' some'
  · intro first second some' equal
    have firstOther : first ≠ place := by
      rintro rfl
      exact some' (update_self ..)
    rw [update_of_ne firstOther] at some' equal
    have secondOther : second ≠ place := by
      rintro rfl
      rw [update_self] at equal
      exact some' equal.symm
    rw [update_of_ne secondOther] at equal
    exact owned.once first second some' equal
  · intro unit inPool
    by_cases same : unit = points place
    · subst same
      rw [update_self]
      refine iff_of_false Bool.false_ne_true ?_
      rintro (held | ⟨_, place', held⟩)
      · exact (owned.within place some).2 held
      · have other : place' ≠ place := by
          rintro rfl
          rw [update_self] at held
          exact some held.symm
        rw [update_of_ne other] at held
        exact other (owned.once place place' some held)
    · rw [update_of_ne same, owned.marked unit inPool]
      by_cases zero : unit = 0
      · subst zero
        exact iff_of_true (.inl owned.origin) (.inl owned.origin)
      · rw [held_update same zero]

end Ownership
