import Mathlib.Algebra.Group.Pi.Basic
import Mathlib.Algebra.Order.Group.Nat

/-!
# Files made of blocks

A sparse file maps the index of a block to its contents, if the file has that
block. Positions in the file are counted in elements; the block of a position is
its quotient by the block size. `splice` overwrites a range of positions, block
by block where the range crosses a boundary, and creates the blocks it needs.
-/

namespace Sparse

open List

variable {Element : Type} [Zero Element]

/-- The blocks of a file, by index. -/
abbrev File (Element : Type) := Nat → Option (Nat → Element)

variable (size : Nat) (file : File Element)

/-- The contents of a block; one that the file does not have reads as zeros. -/
def block (index : Nat) : Nat → Element := (file index).getD 0

/-- The element at a position. -/
def at_ (position : Nat) : Element := block file (position / size) (position % size)

/-- Overwrite a part of a block. -/
def patch (contents : Nat → Element) (start count : Nat) (source : Nat → Element) :
    Nat → Element :=
  fun i => if start ≤ i ∧ i < start + count then source (i - start) else contents i

/-- The range of `count` positions has some in the block. -/
def Touches (position count index : Nat) : Prop :=
  position < (index + 1) * size ∧ index * size < position + count ∧ 0 < count

instance (position count index : Nat) : Decidable (Touches size position count index) :=
  inferInstanceAs (Decidable (_ ∧ _ ∧ _))

/-- Overwrite `count` elements from a position on. -/
def splice (position count : Nat) (source : Nat → Element) : File Element :=
  fun index =>
    if Touches size position count index then
      some fun i =>
        if i < size ∧ position ≤ index * size + i ∧ index * size + i < position + count then
          source (index * size + i - position)
        else block file index i
    else file index

variable {size file}

/-- A file is known by which blocks it has and by what is in them. -/
theorem file_ext {file file' : File Element}
    (present : ∀ index, (file index).isSome = (file' index).isSome)
    (contents : ∀ index i, block file index i = block file' index i) : file = file' := by
  funext index
  have presence := present index
  have equal := funext (contents index)
  unfold block at equal
  cases first : file index with
  | none =>
    rw [first] at presence
    cases second : file' index with
    | none => rfl
    | some _ =>
      rw [second] at presence
      cases presence
  | some _ =>
    rw [first] at presence equal
    cases second : file' index with
    | none =>
      rw [second] at presence
      cases presence
    | some _ =>
      rw [second] at equal
      exact congrArg some equal

theorem isSome_splice (position count : Nat) (source : Nat → Element) (index : Nat) :
    (splice size file position count source index).isSome = true ↔
      Touches size position count index ∨ (file index).isSome = true := by
  unfold splice
  by_cases touched : Touches size position count index
  · simp [touched]
  · simp [touched]

theorem block_splice (position count : Nat) (source : Nat → Element) (index i : Nat) :
    block (splice size file position count source) index i =
      if i < size ∧ position ≤ index * size + i ∧ index * size + i < position + count then
        source (index * size + i - position)
      else block file index i := by
  have next : (index + 1) * size = index * size + size := Nat.succ_mul index size
  by_cases touched : Touches size position count index
  · simp [block, splice, touched]
  · have outside : ¬(i < size ∧ position ≤ index * size + i ∧
        index * size + i < position + count) := by
      unfold Touches at touched
      omega
    rw [if_neg outside]
    simp [block, splice, touched]

@[simp] theorem splice_zero (position : Nat) (source : Nat → Element) :
    splice size file position 0 source = file := by
  funext index
  simp [splice, Touches]

/-- Overwriting a range in two parts is overwriting it. -/
theorem splice_append (positive : 0 < size) (position first second : Nat) (source : Nat → Element) :
    splice size (splice size file position first source) (position + first) second
        (fun i => source (first + i)) =
      splice size file position (first + second) source := by
  refine file_ext (fun index => ?_) fun index i => ?_
  · rw [Bool.eq_iff_iff, isSome_splice, isSome_splice, isSome_splice, ← or_assoc]
    refine or_congr_left ?_
    have next : (index + 1) * size = index * size + size := Nat.succ_mul index size
    unfold Touches
    omega
  · rw [block_splice, block_splice, block_splice]
    split_ifs
    all_goals first | omega | rfl | skip
    congr 1
    omega

/-- A range inside of one block changes that block only. -/
theorem splice_inside (positive : 0 < size) {position count : Nat} (source : Nat → Element)
    (some : 0 < count) (inside : count ≤ size - position % size) :
    splice size file position count source =
      Function.update file (position / size)
        (Option.some (patch (block file (position / size)) (position % size) count source)) := by
  have split := Nat.div_add_mod' position size
  have remainder := Nat.mod_lt position positive
  funext index
  by_cases same : index = position / size
  · subst same
    have touched : Touches size position count (position / size) := by
      unfold Touches
      rw [Nat.succ_mul]
      omega
    rw [Function.update_self, splice, if_pos touched]
    congr 1
    funext i
    unfold patch
    by_cases covered : position % size ≤ i ∧ i < position % size + count
    · rw [if_pos covered, if_pos (by omega)]
      congr 1
      omega
    · rw [if_neg covered, if_neg (by omega)]
  · have untouched : ¬Touches size position count index := by
      unfold Touches
      rcases Nat.lt_or_gt_of_ne same with below | above
      · have earlier := Nat.mul_le_mul_right size (Nat.succ_le_of_lt below)
        rw [Nat.succ_mul] at earlier ⊢
        omega
      · have later := Nat.mul_le_mul_right size (Nat.succ_le_of_lt above)
        rw [Nat.succ_mul] at later
        omega
    rw [Function.update_of_ne same, splice, if_neg untouched]

/-- What is at a position after a range was overwritten. -/
theorem at_splice (positive : 0 < size) (start count : Nat) (source : Nat → Element)
    (position : Nat) :
    at_ size (splice size file start count source) position =
      if start ≤ position ∧ position < start + count then source (position - start)
      else at_ size file position := by
  have split := Nat.div_add_mod' position size
  have remainder := Nat.mod_lt position positive
  unfold at_
  rw [block_splice, split]
  simp [remainder]

/-- Positions up to the next boundary are in the same block. -/
theorem at_inside {position i : Nat} (inside : i < size - position % size) :
    at_ size file (position + i) = block file (position / size) (position % size + i) := by
  have split := Nat.div_add_mod' position size
  have sum : position + i = position % size + i + size * (position / size) := by
    rw [Nat.mul_comm size]
    omega
  have bounded : position % size + i < size := by omega
  unfold at_
  rw [sum, Nat.add_mul_div_left _ _ (by omega), Nat.add_mul_mod_self_left, Nat.div_eq_of_lt bounded,
    Nat.mod_eq_of_lt bounded, Nat.zero_add]

/-! ## Contents -/

/-- The first elements of a file, as a list. -/
def content (size : Nat) (file : File Element) (length : Nat) : List Element :=
  (List.range length).map (at_ size file)

@[simp] theorem length_content (length : Nat) : (content size file length).length = length := by
  simp [content]

/-- A part of the contents, read position by position, as far as they reach. -/
theorem content_slice (start count length : Nat) :
    ((content size file length).drop start).take count =
      (List.range (min count (length - start))).map fun i => at_ size file (start + i) := by
  refine ext_getElem (by simp) fun i _ _ => ?_
  simp [content]

/-- Overwriting a range of a file overwrites it in the contents. -/
theorem content_splice (positive : 0 < size) {start length : Nat} (count : Nat)
    (source : Nat → Element) (inside : start ≤ length) :
    content size (splice size file start count source) (max length (start + count)) =
      (content size file length).take start ++ (List.range count).map source ++
        (content size file length).drop (start + count) := by
  refine ext_getElem (by simp; omega) fun i below _ => ?_
  have bounded : i < max length (start + count) := by simpa using below
  simp only [content, getElem_map, getElem_range, at_splice positive, getElem_append,
    length_append, length_take, length_map, length_range, getElem_take,
    getElem_drop]
  split_ifs
  all_goals first | omega | rfl | skip
  all_goals
    congr 1
    omega

end Sparse
