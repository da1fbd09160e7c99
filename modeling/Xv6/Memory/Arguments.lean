import Xv6.Kernel.Arguments

/-!
# Arguments lie inside of the process

No process is larger than the user half of the address space, so a `uint` below its
size plus an `int` does not wrap. Each function succeeds just when the bytes it is
asked for are below the size, and follows no pointer that leads elsewhere.
-/

namespace Xv6.Memory

open Caller UInt32

variable {caller : Caller} {addr i : UInt32} {n : UInt32} {size : Int32}

/-- The bytes from `start` on are in the address space. -/
def Inside (caller : Caller) (start length : Nat) : Prop := start + length ≤ caller.sz.toNat

instance (caller : Caller) (start length : Nat) : Decidable (Inside caller start length) :=
  inferInstanceAs (Decidable (_ ≤ _))

/-! ## Words -/

theorem toNat_add_small (user : caller.sz.toNat ≤ KERNBASE) (below : addr < caller.sz)
    {offset : UInt32} (small : offset.toNat ≤ KERNBASE - 1) :
    (addr + offset).toNat = addr.toNat + offset.toNat := by
  rw [UInt32.lt_iff_toNat_lt] at below
  rw [UInt32.toNat_add]
  simp only [KERNBASE] at *
  omega

theorem load_inside (below : addr < caller.sz) : caller.load addr = .ok (caller.memory addr) :=
  if_pos below

/-- The check of `fetchint` and of `argptr`: the sum does not wrap. -/
theorem accepts_iff (user : caller.sz.toNat ≤ KERNBASE) {offset : UInt32}
    (small : offset.toNat ≤ KERNBASE - 1) :
    ¬(caller.sz ≤ addr ∨ caller.sz < addr + offset) ↔
      addr < caller.sz ∧ Inside caller addr.toNat offset.toNat := by
  rw [not_or, UInt32.not_le, UInt32.not_lt]
  refine and_congr_right fun below => ?_
  rw [le_iff_toNat_le, toNat_add_small user below small, Inside]

theorem loadInt_inside (user : caller.sz.toNat ≤ KERNBASE) (inside : Inside caller addr.toNat 4) :
    caller.loadInt addr = .ok (caller.word addr) := by
  have below : ∀ offset : UInt32, offset.toNat < 4 → addr + offset < caller.sz := by
    intro offset small
    have first : addr < caller.sz := by
      rw [lt_iff_toNat_lt]
      unfold Inside at inside
      omega
    rw [lt_iff_toNat_lt, toNat_add_small user first (by simp only [KERNBASE]; omega)]
    unfold Inside at inside
    omega
  have first : addr < caller.sz := by simpa using below 0 (by decide)
  unfold loadInt word
  rw [load_inside first, load_inside (below 1 (by decide)), load_inside (below 2 (by decide)),
    load_inside (below 3 (by decide))]
  rfl

/-- `fetchint` reads a word just when it is in the address space. -/
theorem fetchint_eq (user : caller.sz.toNat ≤ KERNBASE) (addr : UInt32) :
    caller.fetchint addr =
      .ok (if addr.toNat + 4 ≤ caller.sz.toNat then some (caller.word addr) else none) := by
  have accepts := @accepts_iff caller addr user 4 (by decide)
  have inside_iff : (addr < caller.sz ∧ Inside caller addr.toNat 4) ↔
      addr.toNat + 4 ≤ caller.sz.toNat := by
    unfold Inside
    rw [lt_iff_toNat_lt]
    omega
  unfold fetchint
  by_cases inside : addr.toNat + 4 ≤ caller.sz.toNat
  · rw [if_neg (accepts.mpr (inside_iff.mpr inside)), if_pos inside, loadInt_inside user inside]
    rfl
  · rw [if_neg inside, if_pos]
    · rfl
    · by_contra accepted
      exact inside (inside_iff.mp (accepts.mp accepted))

/-! ## Strings -/

/-- A string of this length starts at the address, and ends inside of the process. -/
structure IsString (caller : Caller) (addr : UInt32) (length : Nat) : Prop where
  inside : Inside caller addr.toNat (length + 1)
  terminated : caller.memory (addr + .ofNat length) = 0
  shortest : ∀ i < length, caller.memory (addr + .ofNat i) ≠ 0

/-- The loop of `fetchstr` after `passed` bytes that are not zero. -/
theorem fetchstrLoop_spec (addr : UInt32) (left passed : Nat)
    (all : addr.toNat + passed + left = caller.sz.toNat)
    (nonzero : ∀ i < passed, caller.memory (addr + .ofNat i) ≠ 0) :
    (∃ length, caller.fetchstrLoop addr left (addr + .ofNat passed) =
        .ok (some (addr, .ofNat length)) ∧ IsString caller addr length) ∨
      (caller.fetchstrLoop addr left (addr + .ofNat passed) = .ok none ∧
        ∀ length, ¬IsString caller addr length) := by
  induction left generalizing passed with
  | zero =>
    refine .inr ⟨rfl, fun length string => ?_⟩
    have inside := string.inside
    unfold Inside at inside
    exact nonzero length (by omega) string.terminated
  | succ left ih =>
    have word := caller.sz.toNat_lt
    have passed_eq : (ofNat passed).toNat = passed := by
      rw [toNat_ofNat']
      exact Nat.mod_eq_of_lt (by omega)
    have here : (addr + .ofNat passed).toNat = addr.toNat + passed := by
      rw [UInt32.toNat_add, passed_eq]
      exact Nat.mod_eq_of_lt (by omega)
    have below : addr + .ofNat passed < caller.sz := by
      rw [lt_iff_toNat_lt, here]
      omega
    unfold fetchstrLoop
    rw [load_inside below]
    by_cases zero : caller.memory (addr + .ofNat passed) = 0
    · refine .inl ⟨passed, ?_, ?_, zero, nonzero⟩
      · change (if caller.memory (addr + .ofNat passed) = 0 then _ else _) = _
        rw [if_pos zero, UInt32.add_comm, UInt32.add_sub_cancel]
        rfl
      · unfold Inside
        omega
    · have next := ih (passed + 1) (by omega) fun i earlier => by
        rcases Nat.lt_succ_iff_lt_or_eq.mp earlier with before | same
        · exact nonzero i before
        · rw [same]
          exact zero
      have advance : addr + .ofNat (passed + 1) = addr + .ofNat passed + 1 := by
        rw [UInt32.ofNat_add, UInt32.add_assoc]
        rfl
      rw [advance] at next
      change (∃ length, (if caller.memory (addr + .ofNat passed) = 0 then _ else _) = _ ∧ _) ∨
        ((if caller.memory (addr + .ofNat passed) = 0 then _ else _) = _ ∧ _)
      rw [if_neg zero]
      exact next

/-- `fetchstr` finds the string at an address just when it ends inside of the process. -/
theorem fetchstr_spec (addr : UInt32) :
    (∃ length, caller.fetchstr addr = .ok (some (addr, .ofNat length)) ∧
        IsString caller addr length) ∨
      (caller.fetchstr addr = .ok none ∧ ∀ length, ¬IsString caller addr length) := by
  unfold fetchstr
  split
  · rename_i beyond
    refine .inr ⟨rfl, fun length string => ?_⟩
    have inside := string.inside
    rw [le_iff_toNat_le] at beyond
    unfold Inside at inside
    omega
  · rename_i below
    have below' : addr.toNat ≤ caller.sz.toNat := by
      rw [le_iff_toNat_le] at below
      omega
    have first : addr + .ofNat 0 = addr := UInt32.add_zero addr
    have spec := @fetchstrLoop_spec caller addr (caller.sz - addr).toNat 0
      (by rw [UInt32.toNat_sub_of_le _ _ (UInt32.le_iff_toNat_le.mpr below')]; omega)
      (fun i absurdity => absurd absurdity (Nat.not_lt_zero i))
    rw [first] at spec
    exact spec

/-! ## Arguments -/

/-- What the functions deliver, for the nth argument and a block of `size` bytes. -/
structure Validates (caller : Caller) (n : UInt32) (size : Int32) : Prop where
  /-- The word of the argument is read just when it is inside. -/
  argint : caller.argint n = .ok
    (if Inside caller (caller.argAddr n).toNat 4 then some (caller.word (caller.argAddr n)) else none)
  /-- A block is accepted just when it starts and lies inside. -/
  argptr : ∃ pointer, caller.argptr n size = .ok pointer ∧ ∀ p, pointer = some p ↔
    Inside caller (caller.argAddr n).toNat 4 ∧ p = caller.word (caller.argAddr n) ∧
      0 ≤ size.toInt ∧ p < caller.sz ∧ Inside caller p.toNat size.toInt.toNat
  /-- A string is accepted just when it ends inside. -/
  argstr : ∃ string, caller.argstr n = .ok string ∧
    ((∃ p length, string = some (p, .ofNat length) ∧
        Inside caller (caller.argAddr n).toNat 4 ∧ p = caller.word (caller.argAddr n) ∧
        IsString caller p length) ∨
      (string = none ∧ (Inside caller (caller.argAddr n).toNat 4 →
        ∀ length, ¬IsString caller (caller.word (caller.argAddr n)) length)))

theorem argint_eq (user : caller.sz.toNat ≤ KERNBASE) (n : UInt32) :
    caller.argint n = .ok (if Inside caller (caller.argAddr n).toNat 4 then
      some (caller.word (caller.argAddr n)) else none) :=
  fetchint_eq user (caller.argAddr n)

theorem argptr_spec (user : caller.sz.toNat ≤ KERNBASE) (n : UInt32) (size : Int32) :
    ∃ pointer, caller.argptr n size = .ok pointer ∧ ∀ p, pointer = some p ↔
      Inside caller (caller.argAddr n).toNat 4 ∧ p = caller.word (caller.argAddr n) ∧
        0 ≤ size.toInt ∧ p < caller.sz ∧ Inside caller p.toNat size.toInt.toNat := by
  unfold Caller.argptr
  rw [argint_eq user]
  by_cases inside : Inside caller (caller.argAddr n).toNat 4
  · rw [if_pos inside]
    by_cases negative : size < 0
    · refine ⟨none, if_pos (.inl negative), fun p => ?_⟩
      rw [Int32.lt_iff_toInt_lt] at negative
      exact iff_of_false (fun absurdity => nomatch absurdity) fun accepted =>
        absurd accepted.2.2.1 (not_le.mpr negative)
    · have nonneg : 0 ≤ size := Int32.not_lt.mp negative
      have size_eq : size.toUInt32.toNat = size.toInt.toNat := Int32.toNat_toUInt32_of_le nonneg
      have small : size.toUInt32.toNat ≤ KERNBASE - 1 := by
        have bound := size.toInt_lt
        rw [size_eq]
        simp only [KERNBASE]
        omega
      have accepts := @accepts_iff caller (caller.word (caller.argAddr n)) user _ small
      rw [size_eq] at accepts
      by_cases accepted : caller.word (caller.argAddr n) < caller.sz ∧
          Inside caller (caller.word (caller.argAddr n)).toNat size.toInt.toNat
      · have passes := accepts.mpr accepted
        refine ⟨some (caller.word (caller.argAddr n)),
          if_neg (not_or.mpr ⟨negative, passes⟩), fun p => ?_⟩
        rw [Option.some.injEq]
        constructor
        · rintro rfl
          exact ⟨inside, rfl, Int32.le_iff_toInt_le.mp nonneg, accepted⟩
        · exact fun held => held.2.1.symm
      · have refused := not_not.mp (mt accepts.mp accepted)
        refine ⟨none, if_pos (.inr refused), fun p => ?_⟩
        refine iff_of_false (fun absurdity => nomatch absurdity) ?_
        rintro ⟨_, rfl, _, held⟩
        exact accepted held
  · rw [if_neg inside]
    refine ⟨none, rfl, fun p => ?_⟩
    exact iff_of_false (fun absurdity => nomatch absurdity) fun accepted => inside accepted.1

theorem argstr_spec (user : caller.sz.toNat ≤ KERNBASE) (n : UInt32) :
    ∃ string, caller.argstr n = .ok string ∧
      ((∃ p length, string = some (p, .ofNat length) ∧
          Inside caller (caller.argAddr n).toNat 4 ∧ p = caller.word (caller.argAddr n) ∧
          IsString caller p length) ∨
        (string = none ∧ (Inside caller (caller.argAddr n).toNat 4 →
          ∀ length, ¬IsString caller (caller.word (caller.argAddr n)) length))) := by
  unfold Caller.argstr
  rw [argint_eq user]
  by_cases inside : Inside caller (caller.argAddr n).toNat 4
  · rw [if_pos inside]
    rcases @fetchstr_spec caller (caller.word (caller.argAddr n)) with
      ⟨length, found, string⟩ | ⟨missed, noString⟩
    · exact ⟨_, found, .inl ⟨_, length, rfl, inside, rfl, string⟩⟩
    · exact ⟨_, missed, .inr ⟨rfl, fun _ => noString⟩⟩
  · rw [if_neg inside]
    exact ⟨none, rfl, .inr ⟨rfl, fun accepted => absurd accepted inside⟩⟩

/-- For every process no larger than the user half, every saved stack pointer, every
argument and every size, the functions validate what they deliver, and never access an
address outside of the process. -/
theorem arguments_validated (caller : Caller) (user : caller.sz.toNat ≤ KERNBASE) (n : UInt32)
    (size : Int32) : Validates caller n size :=
  ⟨argint_eq user n, argptr_spec user n size, argstr_spec user n⟩

/-- The stack pointer is at the last word of a process of one page, so its first argument
would lie beyond it. -/
def edgeCaller : Caller := { sz := 4096, esp := 4092, memory := fun _ => 0 }

theorem arguments_validated_edge :
    edgeCaller.argint 0 = .ok none ∧ Validates edgeCaller 0 2147483647 :=
  ⟨rfl, arguments_validated edgeCaller (by decide) 0 2147483647⟩

end Xv6.Memory
