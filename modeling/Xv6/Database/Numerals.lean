import Mathlib.Data.Nat.Digits.Lemmas
import Xv6.User.Chmod
import Xv6.User.Ulib

/-!
# Numbers as text

`itoa` writes the numeral of a number, `atoi` reads it, and `octtodec` reads the same
digits in base 8.
-/

namespace Xv6.Database

open User List Int32

variable {c : Byte} {s : List Byte} {n : Nat}

/-- Is the byte a digit? -/
def Digit (c : Byte) : Prop := 48 ≤ c ∧ c ≤ 57

instance (c : Byte) : Decidable (Digit c) := inferInstanceAs (Decidable (48 ≤ c ∧ c ≤ 57))

theorem Digit.clean (digit : Digit c) : c ≠ colon ∧ c ≠ newline ∧ c ≠ 0 := by
  obtain ⟨lower, upper⟩ := digit
  refine ⟨?_, ?_, ?_⟩
  · rintro rfl
    exact absurd upper (by decide)
  · rintro rfl
    exact absurd lower (by decide)
  · rintro rfl
    exact absurd lower (by decide)

theorem Digit.toNat (digit : Digit c) : 48 ≤ c.toNat ∧ c.toNat ≤ 57 :=
  ⟨UInt8.le_iff_toNat_le.mp digit.1, UInt8.le_iff_toNat_le.mp digit.2⟩

theorem digit_ofNat {d : Nat} (small : d < 10) : Digit (zero + UInt8.ofNat d) := by
  revert d
  decide

/-- The value of a digit, and how the loop of `itoa` writes it. -/
theorem value_digit {d : Nat} (small : d < 10) : (zero + UInt8.ofNat d).toNat - 48 = d ∧
    UInt8.ofInt (if 9 < (d : Int) then d - 10 + 97 else d + 48) = zero + UInt8.ofNat d := by
  revert d
  decide

/-- The value of a text of digits in a base. -/
def value (base : Nat) (s : List Byte) : Nat := Nat.ofDigits base (s.reverse.map (·.toNat - 48))

@[simp] theorem value_concat (base : Nat) (s : List Byte) (c : Byte) :
    value base (s ++ [c]) = c.toNat - 48 + base * value base s := by
  simp [value, Nat.ofDigits_cons]

/-- The digits of a number, and no zero in front of them. -/
structure Numeral (s : List Byte) (n : Nat) : Prop where
  digits : ∀ c ∈ s, Digit c
  nonempty : s ≠ []
  value_eq : value 10 s = n
  canonical : s.head? = some zero → s = [zero]

/-! ## Reading -/

theorem atoiFrom_cons (digit : Digit c) (n : Int32) (rest : List Byte) :
    atoiFrom n (c :: rest) = atoiFrom (n * 10 + Int32.ofNat c.toNat - 48) rest :=
  if_pos digit

theorem atoiFrom_append {digits : List Byte} (all : ∀ c ∈ digits, Digit c) (n : Int32)
    (rest : List Byte) : atoiFrom n (digits ++ rest) = atoiFrom (atoiFrom n digits) rest := by
  induction digits generalizing n with
  | nil => rfl
  | cons c digits ih =>
    have digit := all c mem_cons_self
    rw [cons_append, atoiFrom_cons digit, atoiFrom_cons digit]
    exact ih (fun c member => all c (mem_cons_of_mem _ member)) _

theorem atoiFrom_value (digits : ∀ c ∈ s, Digit c) : atoiFrom 0 s = Int32.ofNat (value 10 s) := by
  induction s using reverseRecOn with
  | nil => rfl
  | append_singleton s c ih =>
    simp only [mem_append, mem_singleton] at digits
    have digit := digits c (.inr rfl)
    have front : ∀ c ∈ s, Digit c := fun c member => digits c (.inl member)
    have split : c.toNat = c.toNat - 48 + 48 := by
      have := digit.toNat
      omega
    rw [atoiFrom_append front, ih front, atoiFrom_cons digit, split, value_concat]
    simp only [ofNat_add, ofNat_mul, atoiFrom]
    grind

/-- `atoi` reads digits up to the first byte that is none. -/
theorem atoi_append {after : List Byte} (digits : ∀ c ∈ s, Digit c) (nonempty : s ≠ [])
    (stop : ∀ c ∈ after.head?, ¬ Digit c) : atoi (s ++ after) = Int32.ofNat (value 10 s) := by
  have ends : ∀ n, atoiFrom n after = n := by
    cases after with
    | nil => exact fun n => rfl
    | cons c after => exact fun n => if_neg (stop c rfl)
  have read : atoi (s ++ after) = atoiFrom 0 (s ++ after) := by
    cases s with
    | nil => exact absurd rfl nonempty
    | cons c rest => exact if_pos (digits c mem_cons_self)
  rw [read, atoiFrom_append digits, ends, atoiFrom_value digits]

/-! ## Writing -/

theorem itoaDigits_eq {turns : Nat} (bounded : n < 10 ^ turns) :
    itoaDigits turns n = (Nat.digits 10 n).map fun d => zero + UInt8.ofNat d := by
  induction turns generalizing n with
  | zero =>
    rw [Nat.lt_one_iff.mp bounded]
    rfl
  | succ turns ih =>
    cases n with
    | zero => rfl
    | succ n =>
      rw [itoaDigits, ih (Nat.div_lt_of_lt_mul (by omega)),
        Nat.digits_def' (by decide) (Nat.succ_pos n), map_cons]
      simp

theorem digit_itoaDigits (turns n : Nat) : ∀ c ∈ itoaDigits turns n, Digit c := by
  induction turns generalizing n with
  | zero => exact fun c member => absurd member not_mem_nil
  | succ turns ih =>
    cases n with
    | zero => exact fun c member => absurd member not_mem_nil
    | succ n =>
      intro c member
      rcases mem_cons.mp member with rfl | later
      · exact digit_ofNat (Nat.mod_lt _ (by decide))
      · exact ih _ c later

theorem itoa_ofNat (positive : 0 < n) (small : n < 2 ^ 31) :
    itoa (Int32.ofNat n) = (itoaDigits 10 n).reverse := by
  have value := toInt_ofNat_of_lt small
  have nonzero : ofNat n ≠ 0 := by
    intro same
    rw [same] at value
    change (0 : Int) = n at value
    omega
  have nonnegative : ¬ ofNat n < 0 := by
    rw [lt_iff_toInt_lt, value]
    change ¬ (n : Int) < 0
    omega
  unfold itoa
  dsimp only
  rw [if_neg nonzero, value, if_neg nonnegative]
  rfl

theorem itoa_numeral (small : n < 2 ^ 31) : Numeral (itoa (Int32.ofNat n)) n := by
  rcases Nat.eq_zero_or_pos n with rfl | positive
  · exact ⟨forall_mem_singleton.mpr (by decide), by decide, by decide, fun _ => rfl⟩
  · have bounded : n < 10 ^ 10 := small.trans (by decide)
    have some_digit : Nat.digits 10 n ≠ [] := Nat.digits_ne_nil_iff_ne_zero.mpr positive.ne'
    have below : ∀ d ∈ Nat.digits 10 n, d < 10 := fun d => Nat.digits_lt_base (by decide)
    rw [itoa_ofNat positive small]
    refine ⟨?_, ?_, ?_, ?_⟩
    · simpa using digit_itoaDigits 10 n
    · simpa [itoaDigits_eq bounded] using some_digit
    · have same : (Nat.digits 10 n).map (fun d => (zero + UInt8.ofNat d).toNat - 48) =
          Nat.digits 10 n := by
        conv_rhs => rw [← map_id (Nat.digits 10 n)]
        exact map_congr_left fun d digit => (value_digit (below d digit)).1
      rw [value, reverse_reverse, itoaDigits_eq bounded, map_map]
      exact (congrArg _ same).trans (Nat.ofDigits_digits 10 n)
    · intro first
      rw [itoaDigits_eq bounded, head?_reverse, getLast?_map, Option.map_eq_some_iff] at first
      obtain ⟨d, last, digit⟩ := first
      have zero_eq := (value_digit (below d (mem_of_getLast? last))).1
      rw [digit] at zero_eq
      rw [getLast?_eq_some_getLast some_digit, ← zero_eq] at last
      exact absurd (Option.some.inj last) (Nat.getLast_digit_ne_zero 10 positive.ne')

theorem Numeral.atoi {after : List Byte} (numeral : Numeral s n)
    (stop : ∀ c ∈ after.head?, ¬ Digit c) : User.atoi (s ++ after) = Int32.ofNat n := by
  rw [atoi_append numeral.digits numeral.nonempty stop, numeral.value_eq]

/-! ## Writing into a buffer -/

theorem strrevLoop_eq (pre mid post : List Byte) :
    InPlace.strrevLoop (pre ++ mid ++ post) pre.length (pre.length + mid.length - 1) =
      pre ++ mid.reverse ++ post := by
  induction mid using bidirectionalRec generalizing pre post with
  | nil | singleton a =>
    rw [InPlace.strrevLoop, if_neg (by simp)]
    rfl
  | cons_append a mid b ih =>
    -- one turn swaps the outer two bytes, which the rest leaves alone
    have swapped := ih (pre ++ [b]) (a :: post)
    rw [InPlace.strrevLoop, if_pos (by simp)]
    simpa using swapped

theorem strrev_eq (digits : ∀ c ∈ s, Digit c) (post : List Byte) :
    InPlace.strrev (s ++ 0 :: post) = s.reverse ++ 0 :: post := by
  have string : cstring (s ++ 0 :: post) = s := by
    unfold cstring
    rw [takeWhile_append_of_pos fun c member => by simpa using (digits c member).clean.2.2]
    simp
  have reversed := strrevLoop_eq [] s (0 :: post)
  rw [InPlace.strrev, string]
  simpa using reversed

theorem itoaLoop_eq {turns : Nat} (pre : List Byte) {old : List Byte}
    (room : (itoaDigits turns n).length ≤ old.length) :
    InPlace.itoaLoop 10 turns n (pre ++ old) pre.length =
      (pre ++ itoaDigits turns n ++ old.drop (itoaDigits turns n).length,
        pre.length + (itoaDigits turns n).length) := by
  induction turns generalizing n pre old with
  | zero => simp [InPlace.itoaLoop, itoaDigits]
  | succ turns ih =>
    cases n with
    | zero => simp [InPlace.itoaLoop, itoaDigits]
    | succ n =>
      simp only [itoaDigits, length_cons] at room ⊢
      obtain ⟨x, old, rfl⟩ := exists_cons_of_length_pos (by omega : 0 < old.length)
      rw [length_cons, Nat.add_le_add_iff_right] at room
      have next := ih (pre ++ [zero + UInt8.ofNat ((n + 1) % 10)]) room
      have remainder : ((n + 1 : Nat) : Int).tmod 10 = ((n + 1) % 10 : Nat) := rfl
      have quotient : ((n + 1 : Nat) : Int).tdiv 10 = ((n + 1) / 10 : Nat) := rfl
      have written := (value_digit (Nat.mod_lt (n + 1) (by decide))).2
      rw [InPlace.itoaLoop, if_neg (by omega)]
      simp only [remainder, quotient, written]
      simpa [Nat.add_assoc, Nat.add_comm 1] using next

/-- What `itoa` leaves in the buffer: the string, its NUL, and the bytes behind it. -/
theorem itoa_inPlace (small : n < 2 ^ 31) {str : List Byte}
    (room : (itoa (Int32.ofNat n)).length < str.length) :
    InPlace.itoa n str 10 =
      itoa (Int32.ofNat n) ++ 0 :: str.drop ((itoa (Int32.ofNat n)).length + 1) := by
  rcases Nat.eq_zero_or_pos n with rfl | positive
  · match str, room with
    | _ :: _ :: _, _ => rfl
  · have bounded : n < 10 ^ 32 := small.trans (by decide)
    have same : itoa (ofNat n) = (itoaDigits 32 n).reverse := by
      rw [itoa_ofNat positive small, itoaDigits_eq (small.trans (by decide)), itoaDigits_eq bounded]
    rw [same, length_reverse] at room ⊢
    have loop := itoaLoop_eq [] room.le
    simp only [nil_append, length_nil, Nat.zero_add] at loop
    have nonnegative : ¬ (n : Int) < 0 := by omega
    obtain ⟨x, rest, drop_eq⟩ := exists_cons_of_length_pos
      (by rw [length_drop]; omega : 0 < (str.drop (itoaDigits 32 n).length).length)
    have ended : (itoaDigits 32 n ++ str.drop (itoaDigits 32 n).length).set
        (itoaDigits 32 n).length 0 =
        itoaDigits 32 n ++ 0 :: str.drop ((itoaDigits 32 n).length + 1) := by
      rw [← drop_drop, drop_eq]
      simp
    rw [InPlace.itoa, if_neg (by omega)]
    simp only [nonnegative, false_and, if_false, loop, ended]
    exact strrev_eq (digit_itoaDigits 32 n) _

/-- For a number that is no less than 0, `itoa` writes its numeral with a NUL behind it,
and `atoi` reads the number back from the numeral, up to any byte that is no digit. -/
theorem itoa_numeral_atoi {n : Nat} (small : n < 2 ^ 31) :
    ∃ s, Numeral s n ∧
      (∀ buf : List Byte, s.length < buf.length →
        InPlace.itoa n buf 10 = s ++ 0 :: buf.drop (s.length + 1)) ∧
      ∀ after : List Byte, (∀ c ∈ after.head?, ¬ Digit c) → (atoi (s ++ after)).toInt = n := by
  refine ⟨itoa (ofNat n), itoa_numeral small, fun buf => itoa_inPlace small, ?_⟩
  intro after stop
  rw [(itoa_numeral small).atoi stop, toInt_ofNat_of_lt small]

/-- The greatest number, followed by a colon. -/
theorem itoa_numeral_atoi_greatest :
    ∃ s, Numeral s 2147483647 ∧ (atoi (s ++ [58])).toInt = 2147483647 := by
  obtain ⟨s, numeral, _, read⟩ := @itoa_numeral_atoi 2147483647 (by decide)
  refine ⟨s, numeral, read [58] ?_⟩
  rintro c ⟨⟩
  decide

/-! ## Octal numbers -/

theorem int_of_lt (small : n < 2 ^ 31) : int n = some (n : Int) := if_pos (by omega)

theorem pow_eq {x y : Nat} (positive : 0 < x) (small : x ^ y < 2 ^ 31) :
    pow x y = some ((x ^ y : Nat) : Int) := by
  induction y using Nat.strong_induction_on with
  | _ y ih =>
    unfold pow
    by_cases zero : y = 0
    · simp [zero]
    · have smaller := Nat.pow_le_pow_right positive (Nat.div_le_self y 2)
      rw [if_neg zero, ih (y / 2) (by omega) (smaller.trans_lt small)]
      split
      · have twice : y / 2 + y / 2 = y := by omega
        have square : x ^ (y / 2) * x ^ (y / 2) = x ^ y := by rw [← Nat.pow_add, twice]
        simp only [Option.bind_eq_bind, Option.bind_some]
        rw [← Int.natCast_mul, square, int_of_lt small]
      · have twice : (y / 2 + 1) + y / 2 = y := by omega
        have square : x * x ^ (y / 2) * x ^ (y / 2) = x ^ y := by
          rw [← Nat.pow_succ', ← Nat.pow_add, twice]
        have less : x * x ^ (y / 2) ≤ x ^ y := by
          rw [← square]
          exact Nat.le_mul_of_pos_right _ (Nat.pow_pos positive)
        simp only [Option.bind_eq_bind, Option.bind_some]
        rw [← Int.natCast_mul, int_of_lt (less.trans_lt small), Option.bind_some,
          ← Int.natCast_mul, square, int_of_lt small]

/-- The loop reads the decimal digits of a number in base 8. There are at most ten of
them, so a term is below 10 * 8^9. -/
theorem octtodecFrom_eq {k dec i n : Nat} (few : n < 10 ^ k) (turns : i + k ≤ 10)
    (small : dec < 2 * 8 ^ i) :
    octtodecFrom dec i n = some ((dec + 8 ^ i * Nat.ofDigits 8 (Nat.digits 10 n) : Nat) : Int) := by
  induction k generalizing dec i n with
  | zero =>
    obtain rfl : n = 0 := by omega
    simp [octtodecFrom.eq_def]
  | succ k ih =>
    rw [octtodecFrom.eq_def]
    split
    · simp_all
    · have positive : 0 < n := by omega
      have power_le : 8 ^ i ≤ 8 ^ 9 := Nat.pow_le_pow_right (by decide) (by omega)
      have power : pow 8 i = some ((8 ^ i : Nat) : Int) := @pow_eq 8 i (by decide) (by omega)
      have term_lt : n % 10 * 8 ^ i < 10 * 8 ^ i :=
        Nat.mul_lt_mul_of_pos_right (Nat.mod_lt _ (by decide)) (by positivity)
      have next := @ih (dec + n % 10 * 8 ^ i) (i + 1) (n / 10)
        (Nat.div_lt_of_lt_mul (by omega)) (by omega) (by omega)
      rw [Nat.digits_def' (by decide) positive, Nat.ofDigits_cons]
      have cast : (n : Int).tmod 10 * ((8 ^ i : Nat) : Int) = ((n % 10 * 8 ^ i : Nat) : Int) := by
        push_cast
        rfl
      have quotient : (n : Int).tdiv 10 = ((n / 10 : Nat) : Int) := rfl
      simp only [power, Option.bind_eq_bind, Option.bind_some, cast, quotient]
      rw [int_of_lt (by omega), Option.bind_some, ← Int.natCast_add, int_of_lt (by omega),
        Option.bind_some, next]
      congr 2
      ring

theorem ofDigits_digits_value (digits : ∀ c ∈ s, Digit c) :
    Nat.ofDigits 8 (Nat.digits 10 (value 10 s)) = value 8 s := by
  induction s using reverseRecOn with
  | nil => rfl
  | append_singleton s c ih =>
    simp only [mem_append, mem_singleton] at digits
    have digit := (digits c (.inr rfl)).toNat
    rw [value_concat, value_concat, ← ih fun c member => digits c (.inl member)]
    by_cases empty : c.toNat - 48 = 0 ∧ value 10 s = 0
    · simp [empty]
    · rw [Nat.digits_add 10 (by decide) _ _ (by omega) (by omega), Nat.ofDigits_cons]

/-- A numeral of octal digits is first read in base 10, and then its digits in base 8.
Nothing overflows on the way. -/
theorem octtodec_atoi {s : List Byte} (nonempty : s ≠ []) (octal : ∀ c ∈ s, 48 ≤ c ∧ c ≤ 55)
    (fits : value 10 s < 2 ^ 31) : octtodec (atoi s).toInt = some (value 8 s : Int) := by
  have digits : ∀ c ∈ s, Digit c := fun c member =>
    ⟨(octal c member).1, UInt8.le_trans (octal c member).2 (by decide)⟩
  have read := @atoi_append s [] digits nonempty (by simp)
  rw [append_nil] at read
  rw [read, toInt_ofNat_of_lt fits, ← ofDigits_digits_value digits]
  have loop := @octtodecFrom_eq 10 0 0 (value 10 s) (fits.trans (by decide)) le_rfl (by decide)
  simpa [octtodec] using loop

/-- The mode 755. -/
theorem octtodec_atoi_mode : octtodec (atoi [55, 53, 53]).toInt = some 493 :=
  (octtodec_atoi (by decide) (by simp) (by decide)).trans (by decide)

end Xv6.Database
