import Mathlib.Data.List.Basic

/-!
# Pieces laid end to end

A sequence of pieces, each with the offset at which it was put. If every piece was put
where the one before it ends, the pieces are disjoint, and their concatenation has each
of them at its offset.
-/

namespace Pieces

variable {Element : Type}

/-- The data of the pieces, one after the other. -/
def join (pieces : List (Nat × List Element)) : List Element := pieces.flatMap Prod.snd

/-- The pieces follow each other from an offset on. -/
def Consecutive : Nat → List (Nat × List Element) → Prop
  | _, [] => True
  | start, (off, data) :: rest => off = start ∧ Consecutive (start + data.length) rest

variable {start : Nat} {pieces : List (Nat × List Element)}

@[simp] theorem join_cons (off : Nat) (data : List Element) :
    join ((off, data) :: pieces) = data ++ join pieces := List.flatMap_cons

section

variable (consecutive : Consecutive start pieces)

include consecutive

/-- A piece put at the end. -/
theorem Consecutive.concat {off : Nat} (at_end : off = start + (join pieces).length)
    (data : List Element) : Consecutive start (pieces ++ [(off, data)]) := by
  induction pieces generalizing start with
  | nil => exact ⟨at_end, trivial⟩
  | cons piece pieces ih =>
    obtain ⟨first, firstData⟩ := piece
    refine ⟨consecutive.1, ih consecutive.2 ?_⟩
    rw [join_cons, List.length_append] at at_end
    omega

theorem Consecutive.le_off {piece : Nat × List Element} (member : piece ∈ pieces) : start ≤ piece.1 := by
  induction pieces generalizing start with
  | nil => cases member
  | cons first pieces ih =>
    rcases List.mem_cons.mp member with rfl | later
    · exact Nat.le_of_eq consecutive.1.symm
    · have := ih consecutive.2 later
      omega

/-- No two pieces overlap. -/
theorem Consecutive.disjoint :
    pieces.Pairwise fun piece later => piece.1 + piece.2.length ≤ later.1 := by
  induction pieces generalizing start with
  | nil => exact .nil
  | cons first pieces ih =>
    refine .cons (fun later member => ?_) (ih consecutive.2)
    have := consecutive.2.le_off member
    have := consecutive.1
    omega

/-- Every piece is found at its offset. -/
theorem Consecutive.slice {piece : Nat × List Element} (member : piece ∈ pieces) :
    ((join pieces).drop (piece.1 - start)).take piece.2.length = piece.2 := by
  induction pieces generalizing start with
  | nil => cases member
  | cons first pieces ih =>
    obtain ⟨off, data⟩ := first
    rw [join_cons]
    rcases List.mem_cons.mp member with rfl | later
    · rw [consecutive.1, Nat.sub_self, List.drop_zero, List.take_left]
    · have found := ih consecutive.2 later
      have behind := consecutive.2.le_off later
      have offset_eq : piece.1 - start = data.length + (piece.1 - (start + data.length)) := by omega
      rw [offset_eq, List.drop_length_add_append]
      exact found

end

end Pieces
