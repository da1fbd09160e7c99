import Xv6.Memory.Loading

/-!
# The stack that `exec` builds

The strings are pushed downwards from the end of the address space, and what keeps them
in the one stack page is that `copyout` fails in the guard page below it. A push that
would reach below address zero wraps around to addresses that the user may not use, so
it fails too. What has been pushed is above the stack pointer, and no later push
changes it.
-/

namespace Xv6.Memory

open Program Vm Uvm List Option

variable {old n va sp sz newsz : Nat} {buf : List Byte} {pointers : List Nat}
  {strings : List (List Byte)} {pte : Pte} {kmap : List Kmap}

/-- The last page of an address space is for the stack, and the one below it is closed. -/
structure UserStack (pgdir : PageDir) (sz : Nat) (page : Page) : Prop where
  aligned : sz % PGSIZE = 0
  room : 2 * PGSIZE ≤ sz
  below : sz < KERNBASE
  stack : ∀ va, sz - PGSIZE ≤ va → va < sz → userPage pgdir va = some page
  guard : ∀ va, sz - 2 * PGSIZE ≤ va → va < sz - PGSIZE → userPage pgdir va = none
  above : ∀ va, sz ≤ va → va < 2 ^ 32 → userPage pgdir va = none

variable {pgdir : PageDir} {sz : Nat} {page : Page} {machine after : Machine}

/-! ## One push -/

/-- A push that starts below the stack page passes through the guard page. -/
theorem guard_reached (room : 2 * PGSIZE ≤ sz) (alignedSz : sz % PGSIZE = 0)
    (low : sz - PGSIZE ≤ old) (aligned : old % 4 = 0) (positive : 0 < n) (fits : n ≤ old)
    (under : (old - n) / 4 * 4 < sz - PGSIZE) :
    ∃ va, (old - n) / 4 * 4 ≤ va ∧ va < (old - n) / 4 * 4 + n ∧ sz - 2 * PGSIZE ≤ va ∧
      va < sz - PGSIZE := by
  refine ⟨max ((old - n) / 4 * 4) (sz - 2 * PGSIZE), ?_⟩
  unfold PGSIZE at *
  omega

/-- A push that succeeds stays in the stack page. -/
theorem UserStack.push (stack : UserStack pgdir sz page) (low : sz - PGSIZE ≤ old) (high : old ≤ sz)
    (aligned : old % 4 = 0) (positive : 0 < n)
    (accessible : Accessible pgdir (uintSub old n / 4 * 4) n) :
    sz - PGSIZE ≤ uintSub old n / 4 * 4 ∧ uintSub old n / 4 * 4 + n ≤ old := by
  have reaches : ∀ va, uintSub old n / 4 * 4 ≤ va → va < 2 ^ 32 → va < uintSub old n / 4 * 4 + n →
      userPage pgdir va ≠ none := by
    intro va from_ word until_
    have usable := accessible (va - uintSub old n / 4 * 4) (by omega)
    have same : address (uintSub old n / 4 * 4) (va - uintSub old n / 4 * 4) = va := by
      unfold address
      rw [Nat.add_sub_cancel' from_, Nat.mod_eq_of_lt word]
    rwa [same] at usable
  have room := stack.room
  have below := stack.below
  have alignedSz := stack.aligned
  by_cases fits : n ≤ old
  · have start : uintSub old n = old - n := by
      unfold uintSub
      unfold KERNBASE at below
      omega
    rw [start] at reaches ⊢
    refine ⟨?_, by omega⟩
    by_contra under
    obtain ⟨va, from_, until_, inGuard, underStack⟩ :=
      guard_reached room alignedSz low aligned positive fits (Nat.lt_of_not_le under)
    exact reaches va from_ (by unfold KERNBASE at below; omega) until_ (stack.guard va inGuard underStack)
  · -- the copy passes through the last address of all
    exfalso
    have start : uintSub old n / 4 * 4 < 2 ^ 32 := by
      unfold uintSub
      omega
    have long : 2 ^ 32 - 1 < uintSub old n / 4 * 4 + n := by
      unfold uintSub
      unfold KERNBASE at below
      unfold PGSIZE at *
      omega
    refine reaches (2 ^ 32 - 1) (by omega) (by omega) long (stack.above _ ?_ (by omega))
    unfold KERNBASE at below
    omega

/-- There are page tables below the size and for the devices. -/
def Tabled (pgdir : PageDir) (sz : Nat) : Prop :=
  ∀ va, va < sz ∨ DEVSPACE ≤ va ∧ va < 2 ^ 32 → walkpgdir pgdir va ≠ none

/-- A push that wraps around comes to the devices, unless it goes further than their space. -/
theorem devices_reached (word : old < 2 ^ 31) (wraps : old < n)
    (short : n + DEVSPACE ≤ old + 2 ^ 32) :
    DEVSPACE ≤ uintSub old n / 4 * 4 ∧ uintSub old n / 4 * 4 < 2 ^ 32 := by
  unfold uintSub
  unfold DEVSPACE at *
  omega

theorem address_zero (word : va < 2 ^ 32) : address va 0 = va := by
  unfold address
  rw [Nat.add_zero, Nat.mod_eq_of_lt word]

/-- Such a push never misses a page table: it stays below the size, or it stops at the
devices. -/
theorem UserStack.walkable (stack : UserStack pgdir sz page) (tabled : Tabled pgdir sz)
    (high : old ≤ sz) (short : n + DEVSPACE ≤ old + 2 ^ 32) :
    Walkable pgdir (uintSub old n / 4 * 4) n := by
  have below : sz < 2 ^ 31 := stack.below
  intro k inside reached
  apply tabled
  by_cases fits : n ≤ old
  · left
    unfold address uintSub
    omega
  · right
    have start := devices_reached (high.trans_lt below) (Nat.lt_of_not_le fits) short
    have first := address_zero start.2
    cases k with
    | zero =>
      rw [first]
      exact start
    | succ k =>
      have usable := reached 0 (Nat.succ_pos k)
      rw [first] at usable
      have kernel : sz ≤ DEVSPACE := below.le.trans (by decide)
      exact absurd (stack.above _ (kernel.trans start.1) start.2) usable

theorem userByte_of_userPage (found : userPage pgdir va = some page) :
    userByte machine pgdir va = some (machine.ram page (va % PGSIZE)) := by
  unfold userPage at found
  obtain ⟨pte, present, usable⟩ := bind_eq_some_iff.mp found
  split at usable
  · cases usable
  · cases usable
    unfold userByte
    rw [present, map_some]

/-- What the stack page holds after a push. -/
theorem UserStack.copied (stack : UserStack pgdir sz page) (low : sz - PGSIZE ≤ sp)
    (high : sp + buf.length ≤ sz) (copies : CopiesOut pgdir sp buf machine true after)
    (from_ : sz - PGSIZE ≤ va) (until_ : va < sz) :
    userByte after pgdir va =
      if sp ≤ va ∧ va < sp + buf.length then buf[va - sp]? else userByte machine pgdir va := by
  have below := stack.below
  have alignedSz := stack.aligned
  have room := stack.room
  have place : ∀ k, k < buf.length → location pgdir sp k = some (page, (sp + k) % PGSIZE) := by
    intro k inside
    have word : address sp k = sp + k := by
      unfold address
      unfold KERNBASE at below
      omega
    unfold location
    rw [word, stack.stack (sp + k) (by omega) (by omega), map_some]
  -- in one page, different addresses have different offsets
  have apart : ∀ k, k < buf.length → sp + k ≠ va → (sp + k) % PGSIZE ≠ va % PGSIZE := by
    intro k inside different same
    unfold PGSIZE at *
    omega
  obtain ⟨bytes, others⟩ := copies.overwrites rfl
  rw [userByte_of_userPage (stack.stack va from_ until_),
    userByte_of_userPage (stack.stack va from_ until_)]
  split
  · rename_i inside
    obtain ⟨byte, found⟩ : ∃ byte, buf[va - sp]? = some byte :=
      ⟨_, List.getElem?_eq_getElem (by omega)⟩
    have here : location pgdir sp (va - sp) = some (page, va % PGSIZE) := by
      rw [place (va - sp) (by omega), Nat.add_sub_cancel' inside.1]
    rw [found, bytes (va - sp) byte page (va % PGSIZE) found here]
    intro k later below' same
    rw [place k below'] at same
    exact apart k below' (by omega) (congrArg Prod.snd (Option.some.inj same))
  · rename_i outside
    rw [others page (va % PGSIZE)]
    intro k below' same
    rw [place k below'] at same
    exact apart k below' (by omega) (congrArg Prod.snd (Option.some.inj same))

/-! ## The strings -/

/-- The bytes at an address. -/
def ReadsBytes (machine : Machine) (pgdir : PageDir) (va : Nat) (bytes : List Byte) : Prop :=
  ∀ k byte, bytes[k]? = some byte → userByte machine pgdir (va + k) = some byte

/-- A push leaves what is above it as it is. -/
theorem UserStack.reads_kept (stack : UserStack pgdir sz page) {bytes : List Byte}
    (low : sz - PGSIZE ≤ sp) (copies : CopiesOut pgdir sp buf machine true after)
    (above : sp + buf.length ≤ va) (high : va + bytes.length ≤ sz)
    (reads : ReadsBytes machine pgdir va bytes) : ReadsBytes after pgdir va bytes := by
  intro k byte found
  have inside : k < bytes.length := (List.getElem?_eq_some_iff.mp found).1
  rw [stack.copied low (by omega) copies (by omega) (by omega), if_neg (by omega)]
  exact reads k byte found

/-- What a push has written. -/
theorem UserStack.reads_pushed (stack : UserStack pgdir sz page) (low : sz - PGSIZE ≤ sp)
    (high : sp + buf.length ≤ sz) (copies : CopiesOut pgdir sp buf machine true after) :
    ReadsBytes after pgdir sp buf := by
  intro k byte found
  have inside : k < buf.length := (List.getElem?_eq_some_iff.mp found).1
  rw [stack.copied low high copies (by omega) (by omega), if_pos (by omega), Nat.add_sub_cancel_left]
  exact found

/-- The strings pushed so far, with the pointers to them. -/
structure Pushed (machine : Machine) (pgdir : PageDir) (sz sp : Nat) (pointers : List Nat)
    (strings : List (List Byte)) : Prop where
  length : pointers.length = strings.length
  low : sz - PGSIZE ≤ sp
  high : sp ≤ sz
  aligned : sp % 4 = 0
  each : ∀ (i p : Nat) (s : List Byte), pointers[i]? = some p → strings[i]? = some s →
    p % 4 = 0 ∧ sp ≤ p ∧ p + (s ++ [0]).length ≤ sz ∧ ReadsBytes machine pgdir p (s ++ [0])
  apart : ∀ (i j p q : Nat) (s : List Byte), i < j → pointers[i]? = some p → pointers[j]? = some q →
    strings[j]? = some s → q + (s ++ [0]).length ≤ p

theorem UserStack.pushed_nil (stack : UserStack pgdir sz page) : Pushed machine pgdir sz sz [] [] := by
  have alignedSz := stack.aligned
  refine ⟨rfl, Nat.sub_le .., Nat.le_refl _, ?_, nofun, nofun⟩
  unfold PGSIZE at alignedSz
  omega

/-- An element of a list with one more at its end. -/
theorem getElem?_concat_eq_some {Element : Type} {list : List Element} {last element : Element} {i : Nat}
    (found : (list ++ [last])[i]? = some element) :
    list[i]? = some element ∨ i = list.length ∧ element = last := by
  rcases Nat.lt_or_ge i list.length with earlier | later
  · rw [List.getElem?_append_left earlier] at found
    exact .inl found
  · have bound := (List.getElem?_eq_some_iff.mp found).1
    rw [length_append, length_singleton] at bound
    have end_ : i = list.length := by omega
    subst end_
    rw [List.getElem?_concat_length] at found
    exact .inr ⟨rfl, (Option.some.inj found).symm⟩

theorem Pushed.push {s : List Byte} (pushed : Pushed machine pgdir sz old pointers strings)
    (stack : UserStack pgdir sz page) (low : sz - PGSIZE ≤ sp) (fits : sp + (s ++ [0]).length ≤ old)
    (aligned : sp % 4 = 0) (copies : CopiesOut pgdir sp (s ++ [0]) machine true after) :
    Pushed after pgdir sz sp (pointers ++ [sp]) (strings ++ [s]) := by
  have high := pushed.high
  have length := pushed.length
  have bound : ∀ {Element : Type} {list : List Element} {i : Nat} {element : Element},
      list[i]? = some element → i < list.length := fun found => (List.getElem?_eq_some_iff.mp found).1
  refine ⟨?_, low, by omega, aligned, ?_, ?_⟩
  · rw [length_append, length_append, length]
    rfl
  · intro i p s' foundP foundS
    rcases getElem?_concat_eq_some foundP with foundP | ⟨rfl, rfl⟩
    · rcases getElem?_concat_eq_some foundS with foundS | ⟨rfl, -⟩
      · obtain ⟨alignedP, above, inside, reads⟩ := pushed.each i p s' foundP foundS
        exact ⟨alignedP, by omega, inside, stack.reads_kept low copies (by omega) inside reads⟩
      · exact absurd (bound foundP) (by omega)
    · rcases getElem?_concat_eq_some foundS with foundS | ⟨-, rfl⟩
      · exact absurd (bound foundS) (by omega)
      · exact ⟨aligned, Nat.le_refl _, by omega, stack.reads_pushed low (by omega) copies⟩
  · intro i j p q s' before foundP foundQ foundS
    rcases getElem?_concat_eq_some foundP with foundP | ⟨rfl, rfl⟩
    · obtain ⟨s'', foundS''⟩ : ∃ s'', strings[i]? = some s'' :=
        ⟨_, List.getElem?_eq_getElem (length ▸ bound foundP)⟩
      have above := (pushed.each i p s'' foundP foundS'').2.1
      rcases getElem?_concat_eq_some foundQ with foundQ | ⟨rfl, rfl⟩
      · rcases getElem?_concat_eq_some foundS with foundS | ⟨rfl, -⟩
        · exact pushed.apart i j p q s' before foundP foundQ foundS
        · exact absurd (bound foundQ) (by omega)
      · rcases getElem?_concat_eq_some foundS with foundS | ⟨-, rfl⟩
        · exact absurd (bound foundS) (by omega)
        · omega
    · have last := bound foundQ
      rw [length_append, length_singleton] at last
      omega

/-- The loop that pushes the strings comes to an address without a page table, with `count`
of them pushed. -/
def Misses (pgdir : PageDir) : Nat → Nat → List (List Byte) → Prop
  | _, _, [] => False
  | count, sp, s :: rest => count < MAXARG ∧
      (¬Walkable pgdir (uintSub sp (s.length + 1) / 4 * 4) (s.length + 1) ∨
        Accessible pgdir (uintSub sp (s.length + 1) / 4 * 4) (s.length + 1) ∧
          Misses pgdir (count + 1) (uintSub sp (s.length + 1) / 4 * 4) rest)

/-- The loop that pushes the strings. -/
theorem sat_execArguments (stack : UserStack pgdir sz page) (argv : List (List Byte))
    (machine : Machine) (pushed : Pushed machine pgdir sz sp pointers strings) :
    Sat (Exec.execArguments pgdir argv pointers sp) machine (fun result after =>
      ¬Misses pgdir pointers.length sp argv ∧ ∀ pointers sp, result = some (pointers, sp) →
        Pushed after pgdir sz sp pointers (strings ++ argv))
      fun raised _ => raised = .uva2kaNull ∧ Misses pgdir pointers.length sp argv := by
  induction argv generalizing pointers strings sp machine with
  | nil =>
    refine ⟨id, ?_⟩
    rintro _ _ ⟨⟩
    rw [append_nil]
    exact pushed
  | cons s rest ih =>
    unfold Exec.execArguments
    rw [sat_ite]
    split
    · rename_i full
      exact ⟨fun misses => absurd misses.1 (Nat.not_lt_of_le full), nofun⟩
    · rename_i more
      dsimp only
      have length : (s ++ [0]).length = s.length + 1 := length_append
      have word : uintSub sp (s.length + 1) / 4 * 4 < 2 ^ 32 := by
        unfold uintSub
        omega
      have copying : Sat (Uvm.copyout pgdir _ (s ++ [0])) machine _ _ :=
        sat_copyout (s ++ [0]) machine word
      rw [length] at copying
      refine (copying.mono (fun _ _ holds => holds) fun _ _ holds =>
        ⟨holds.1, Nat.lt_of_not_le more, .inl holds.2⟩).bind ?_
      rintro copied middle ⟨walkable, copies⟩
      have accessible := copies.succeeds
      rw [length] at accessible
      cases copied with
      | false =>
        rw [if_neg Bool.false_ne_true]
        refine ⟨?_, nofun⟩
        rintro ⟨-, misses | ⟨usable, -⟩⟩
        · exact misses walkable
        · exact Bool.false_ne_true (accessible.mpr usable)
      | true =>
        rw [if_pos rfl]
        have usable := accessible.mp rfl
        obtain ⟨low, fits⟩ := stack.push pushed.low pushed.high pushed.aligned (Nat.succ_pos _) usable
        have next := pushed.push stack low (length ▸ fits) (Nat.mul_mod_left ..) copies
        have count : ∀ va, (pointers ++ [va]).length = pointers.length + 1 := fun _ =>
          length_append
        have later := ih middle next
        rw [count] at later
        refine later.mono ?_ ?_
        · rintro result after ⟨reaches, all⟩
          refine ⟨?_, fun pointers sp found => ?_⟩
          · rintro ⟨-, misses | ⟨-, misses⟩⟩
            · exact misses walkable
            · exact reaches misses
          · have done := all pointers sp found
            rwa [append_assoc] at done
        · rintro raised after ⟨null, misses⟩
          exact ⟨null, Nat.lt_of_not_le more, .inr ⟨usable, misses⟩⟩

/-- Pushed to the stack of the smallest image, a string that does not fit into the page is
so long that it comes down below the devices. -/
def Overlong : Nat → Nat → List (List Byte) → Prop
  | _, _, [] => False
  | count, sp, s :: rest => count < MAXARG ∧
      if PGSIZE + (s.length + 1) ≤ sp then Overlong (count + 1) ((sp - (s.length + 1)) / 4 * 4) rest
      else sp + 2 ^ 32 < s.length + 1 + DEVSPACE

instance decidableOverlong : ∀ count sp argv, Decidable (Overlong count sp argv)
  | _, _, [] => inferInstanceAs (Decidable False)
  | count, sp, s :: rest =>
    have := decidableOverlong (count + 1) ((sp - (s.length + 1)) / 4 * 4) rest
    inferInstanceAs (Decidable (count < MAXARG ∧
      if PGSIZE + (s.length + 1) ≤ sp then Overlong (count + 1) ((sp - (s.length + 1)) / 4 * 4) rest
      else sp + 2 ^ 32 < s.length + 1 + DEVSPACE))

/-- For an image of any size: the stacks differ in their addresses only. -/
theorem UserStack.overlong (stack : UserStack pgdir sz page) (tabled : Tabled pgdir sz)
    (argv : List (List Byte)) {count : Nat} (low : sz - PGSIZE ≤ sp) (high : sp ≤ sz)
    (aligned : sp % 4 = 0) (misses : Misses pgdir count sp argv) :
    Overlong count (sp + 2 * PGSIZE - sz) argv := by
  have room := stack.room
  have below : sz < 2 ^ 31 := stack.below
  have alignedSz := stack.aligned
  induction argv generalizing count sp with
  | nil => exact misses
  | cons s rest ih =>
    obtain ⟨more, strays⟩ := misses
    refine ⟨more, ?_⟩
    rcases strays with strays | ⟨usable, misses⟩
    · have long : sp + 2 ^ 32 < s.length + 1 + DEVSPACE :=
        Nat.lt_of_not_le fun short => strays (stack.walkable tabled high short)
      rw [if_neg]
      · unfold DEVSPACE at *
        omega
      · unfold DEVSPACE PGSIZE at *
        omega
    · obtain ⟨low', fits⟩ := stack.push low high aligned (Nat.succ_pos _) usable
      have start : uintSub sp (s.length + 1) = sp - (s.length + 1) := by
        unfold uintSub
        omega
      rw [start] at low' fits misses
      have later := ih low' (by omega) (Nat.mul_mod_left ..) misses
      rw [if_pos (by unfold PGSIZE at *; omega)]
      convert later using 1
      unfold PGSIZE at *
      omega

/-! ## The whole stack -/

/-- The word at an address. -/
def ReadsWord (machine : Machine) (pgdir : PageDir) (va value : Nat) : Prop :=
  value < 2 ^ 32 ∧ ReadsBytes machine pgdir va (Words.bytes [value])

theorem ReadsBytes.word {words : List Nat} (reads : ReadsBytes machine pgdir va (Words.bytes words))
    {j value : Nat} (found : words[j]? = some value) (small : value < 2 ^ 32) :
    ReadsWord machine pgdir (va + 4 * j) value := by
  refine ⟨small, fun k byte present => ?_⟩
  have bound : k < 4 := (List.getElem?_eq_some_iff.mp present).1
  have single : (Words.bytes [value])[4 * 0 + k]? = _ := Words.getElem?_bytes rfl bound
  rw [Nat.mul_zero, Nat.zero_add, present] at single
  rw [Nat.add_assoc]
  exact reads (4 * j + k) byte (single ▸ Words.getElem?_bytes found bound)

/-- The arguments as a program finds them: the fake return address, `argc` and `argv` at
the stack pointer, the array, and the strings, all of it in the last page. -/
structure Delivered (machine : Machine) (pgdir : PageDir) (sz esp : Nat) (strings : List (List Byte))
    (array : Nat) (pointers : List Nat) : Prop where
  count : pointers.length = strings.length
  pc : ReadsWord machine pgdir esp 0xffffffff
  argc : ReadsWord machine pgdir (esp + 4) strings.length
  argv : ReadsWord machine pgdir (esp + 8) array
  pointer : ∀ i p : Nat, pointers[i]? = some p → ReadsWord machine pgdir (array + 4 * i) p
  null : ReadsWord machine pgdir (array + 4 * strings.length) 0
  string : ∀ (i p : Nat) (s : List Byte), pointers[i]? = some p → strings[i]? = some s →
    ReadsBytes machine pgdir p (s ++ [0])
  bottom : sz - PGSIZE ≤ esp ∧ esp + 12 ≤ array
  top : array + 4 * (strings.length + 1) ≤ sz
  inside : ∀ (i p : Nat) (s : List Byte), pointers[i]? = some p → strings[i]? = some s →
    array + 4 * (strings.length + 1) ≤ p ∧ p + (s ++ [0]).length ≤ sz
  apart : ∀ (i j p q : Nat) (s : List Byte), i < j → pointers[i]? = some p → pointers[j]? = some q →
    strings[j]? = some s → q + (s ++ [0]).length ≤ p
  aligned : esp % 4 = 0 ∧ array % 4 = 0 ∧ ∀ p ∈ pointers, p % 4 = 0

/-- `ustack`. -/
def vector (sp : Nat) (pointers : List Nat) : List Nat :=
  0xffffffff :: pointers.length :: uintSub sp ((pointers.length + 1) * 4) :: (pointers ++ [0])

theorem length_vector (sp : Nat) (pointers : List Nat) :
    (Words.bytes (vector sp pointers)).length = (3 + pointers.length + 1) * 4 := by
  rw [Words.length_bytes]
  simp only [vector, length_cons, length_append, length_nil]
  omega

theorem uintSub_aligned (aligned : sp % 4 = 0) :
    uintSub sp (n * 4) / 4 * 4 = uintSub sp (n * 4) := by
  unfold uintSub
  omega

/-- The last push. -/
theorem Pushed.deliver (pushed : Pushed machine pgdir sz sp pointers strings)
    (stack : UserStack pgdir sz page)
    (copies : CopiesOut pgdir (uintSub sp ((3 + pointers.length + 1) * 4))
      (Words.bytes (vector sp pointers)) machine true after) :
    Delivered after pgdir sz (uintSub sp ((3 + pointers.length + 1) * 4)) strings
      (uintSub sp ((pointers.length + 1) * 4)) pointers := by
  have length := pushed.length
  have alignedSp := pushed.aligned
  have high := pushed.high
  have below := stack.below
  have size := length_vector sp pointers
  have whole := uintSub_aligned (n := 3 + pointers.length + 1) alignedSp
  have accessible := copies.succeeds.mp rfl
  rw [size, ← whole] at accessible
  obtain ⟨low, fits⟩ := stack.push pushed.low high alignedSp (by omega) accessible
  rw [whole] at low fits
  have esp : uintSub sp ((3 + pointers.length + 1) * 4) = sp - (3 + pointers.length + 1) * 4 := by
    unfold uintSub
    unfold KERNBASE at below
    omega
  have array : uintSub sp ((pointers.length + 1) * 4) =
      uintSub sp ((3 + pointers.length + 1) * 4) + 12 := by
    unfold uintSub
    unfold KERNBASE at below
    omega
  have reads := stack.reads_pushed low (by omega) copies
  have word : ∀ j value va, (vector sp pointers)[j]? = some value → value < 2 ^ 32 →
      va = uintSub sp ((3 + pointers.length + 1) * 4) + 4 * j → ReadsWord after pgdir va value := by
    rintro j value _ found small rfl
    exact reads.word found small
  have strings_ : ∀ (i p : Nat), pointers[i]? = some p → ∃ s, strings[i]? = some s := by
    intro i p found
    have bound := (List.getElem?_eq_some_iff.mp found).1
    exact ⟨_, List.getElem?_eq_getElem (length ▸ bound)⟩
  have small : ∀ i p : Nat, pointers[i]? = some p → p < 2 ^ 32 := by
    intro i p found
    obtain ⟨s, foundS⟩ := strings_ i p found
    have inside := (pushed.each i p s found foundS).2.2.1
    unfold KERNBASE at below
    omega
  refine ⟨length, word 0 _ _ rfl (by decide) (by omega),
    word 1 _ _ (by rw [← length]; rfl) ?_ (by omega), word 2 _ _ rfl ?_ (by omega), ?_, ?_, ?_,
    ⟨low, by omega⟩, by omega, ?_, pushed.apart, ?_, ?_, ?_⟩
  · unfold KERNBASE at below
    omega
  · unfold KERNBASE at below
    omega
  · intro i p found
    have bound := (List.getElem?_eq_some_iff.mp found).1
    refine word (i + 3) p _ ?_ (small i p found) (by omega)
    exact (List.getElem?_append_left bound).trans found
  · refine word (pointers.length + 3) 0 _ ?_ (by decide) (by omega)
    exact List.getElem?_concat_length
  · intro i p s found foundS
    obtain ⟨-, above, inside, kept⟩ := pushed.each i p s found foundS
    exact stack.reads_kept low copies (by omega) inside kept
  · intro i p s found foundS
    obtain ⟨-, above, inside, -⟩ := pushed.each i p s found foundS
    omega
  · omega
  · omega
  · intro p among
    obtain ⟨i, found⟩ := mem_iff_getElem?.mp among
    obtain ⟨s, foundS⟩ := strings_ i p found
    exact (pushed.each i p s found foundS).1

/-! ## The second half of `exec` -/

/-- `clearpteu` closes one page. -/
theorem sat_clearpteu {uva : Nat} (kmem : Kmem) (word : uva < 2 ^ 32)
    (found : pgdir.entry uva = some pte) :
    Sat (clearpteu pgdir uva) kmem (fun result after => after = kmem ∧
      ∀ va, va < 2 ^ 32 → result.entry va = if va / PGSIZE = uva / PGSIZE then
        some { pte with flags := pte.flags &&& (0xFFF - PTE_U) } else pgdir.entry va)
      fun _ _ => False := by
  unfold PageDir.entry at found
  obtain ⟨table, there, present⟩ := bind_eq_some_iff.mp found
  unfold clearpteu walkpgdir
  rw [there]
  refine ⟨rfl, fun va wordVa => ?_⟩
  rw [entry_setPte _ there word wordVa, present]
  rfl

theorem sat_clearpteu_pde (pgdir : PageDir) {uva : Nat} (kmem : Kmem) :
    Sat (clearpteu pgdir uva) kmem (fun result _ => ∀ i, i ≠ PDX uva → result.pde i = pgdir.pde i)
      fun _ _ => True := by
  unfold clearpteu
  split
  · trivial
  · exact fun i other => Function.update_of_ne other ..

/-- The two pages above the program are the guard page and the stack. -/
theorem Loading.userStack {grown closed : PageDir} (loading : Loading kmap machine.kmem pgdir sz)
    (size : PGROUNDUP sz + 2 * PGSIZE = newsz) (below : newsz < KERNBASE)
    (extended : Extends (PGROUNDUP sz) newsz pgdir machine grown after)
    (shut : pte.flags &&& PTE_U = 0) (entries : ∀ va, va < 2 ^ 32 → closed.entry va =
      if va / PGSIZE = PGROUNDUP sz / PGSIZE then some pte else grown.entry va) :
    ∃ page, UserStack closed newsz page := by
  have aligned : newsz % PGSIZE = 0 := by
    have rounded := pgroundup_mod sz
    unfold PGSIZE at *
    omega
  have room : 2 * PGSIZE ≤ newsz := by omega
  have top : newsz - PGSIZE < 2 ^ 32 := by
    unfold KERNBASE at below
    omega
  have inside : InRange (PGROUNDUP sz) newsz (newsz - PGSIZE) := by
    refine ⟨?_, Nat.lt_of_le_of_lt (pgrounddown_le _) ?_⟩
    · unfold PGSIZE at *
      omega
    · unfold PGSIZE at *
      omega
  obtain ⟨page, -, found, -⟩ := extended.fresh _ top inside
  refine ⟨page, aligned, room, below, ?_, ?_, ?_⟩
  · intro va from_ until_
    have samePage : va / PGSIZE = (newsz - PGSIZE) / PGSIZE := by
      unfold PGSIZE at *
      omega
    have above : va / PGSIZE ≠ PGROUNDUP sz / PGSIZE := by
      unfold PGSIZE at *
      omega
    unfold userPage
    have open_ : (PTE_W ||| PTE_U ||| PTE_P) &&& PTE_U ≠ 0 := by decide
    rw [entries va (by unfold KERNBASE at below; omega), if_neg above, entry_congr samePage, found,
      bind_some, if_neg open_]
  · intro va from_ until_
    have guardPage : va / PGSIZE = PGROUNDUP sz / PGSIZE := by
      have rounded := pgroundup_mod sz
      unfold PGSIZE at *
      omega
    unfold userPage
    rw [entries va (by unfold KERNBASE at below; omega), if_pos guardPage, bind_some, if_pos shut]
  · intro va above word
    have outside : ¬InRange (PGROUNDUP sz) newsz va := by
      rintro ⟨-, last⟩
      unfold PGROUNDDOWN at last
      unfold PGSIZE at *
      omega
    have apart : va / PGSIZE ≠ PGROUNDUP sz / PGSIZE := by
      unfold PGSIZE at *
      omega
    have same : closed.entry va = pgdir.entry va := by
      rw [entries va word, if_neg apart, extended.kept va word outside]
    rw [userPage_congr same]
    rcases Nat.lt_or_ge va KERNBASE with user | kernel
    · unfold userPage
      rw [loading.missing va user (by omega)]
      rfl
    · exact loading.kernel va kernel word

theorem walkpgdir_of_entry (present : pgdir.entry va ≠ none) : walkpgdir pgdir va ≠ none := by
  intro missing
  apply present
  unfold PageDir.entry
  rw [show pgdir.pde (PDX va) = none from missing]
  rfl

/-- All pages below the new size and all ranges of the kernel have page tables. -/
theorem Loading.tabled {grown closed : PageDir} (loading : Loading kmap machine.kmem pgdir sz)
    (below : newsz < KERNBASE) (extended : Extends (PGROUNDUP sz) newsz pgdir machine grown after)
    (entries : ∀ va, va < 2 ^ 32 → closed.entry va =
      if va / PGSIZE = PGROUNDUP sz / PGSIZE then some pte else grown.entry va)
    (devices : ∀ va, DEVSPACE ≤ va → va < 2 ^ 32 → ∃ k ∈ kmap, Covers k va) : Tabled closed newsz := by
  have present : ∀ va, va < 2 ^ 32 → grown.entry va ≠ none → walkpgdir closed va ≠ none := by
    intro va word found
    apply walkpgdir_of_entry
    rw [entries va word]
    split
    · nofun
    · exact found
  rintro va (user | ⟨device, word⟩)
  · have word : va < 2 ^ 32 := (user.trans below).trans (by decide)
    apply present va word
    by_cases fresh : InRange (PGROUNDUP sz) newsz va
    · obtain ⟨pa, -, found, -⟩ := extended.fresh va word fresh
      rw [found]
      nofun
    · rw [extended.kept va word fresh]
      apply loading.mapped
      have last := Nat.lt_of_le_of_lt (pgrounddown_le va) user
      unfold InRange at fresh
      unfold PGROUNDDOWN at *
      unfold PGROUNDUP PGSIZE at *
      omega
  · have outside : ¬InRange (PGROUNDUP sz) newsz va := by
      rintro ⟨-, last⟩
      unfold PGROUNDDOWN PGSIZE at last
      unfold KERNBASE at below
      unfold DEVSPACE at device
      omega
    obtain ⟨k, among, covered⟩ := devices va device word
    apply present va word
    rw [extended.kept va word outside]
    exact loading.tables k among va word covered

/-- There are never more pointers than `ustack` has room for. -/
theorem sat_execArguments_count (argv : List (List Byte)) (machine : Machine)
    (room : pointers.length ≤ MAXARG) :
    Sat (Exec.execArguments pgdir argv pointers sp) machine (fun result _ =>
      ∀ pointers sp, result = some (pointers, sp) → pointers.length ≤ MAXARG) fun _ _ => True := by
  induction argv generalizing pointers sp machine with
  | nil =>
    rintro _ _ ⟨⟩
    exact room
  | cons s rest ih =>
    unfold Exec.execArguments
    rw [sat_ite]
    split
    · nofun
    · rename_i more
      refine (sat_true _ machine).bind fun copied middle _ => ?_
      rw [sat_ite]
      split
      · apply ih
        rw [length_append, length_singleton]
        omega
      · nofun

/-- If the kernel maps the devices, then only an overlong argument can make a copy miss a
page table. -/
def Strays (kmap : List Kmap) (argv : List (List Byte)) : Prop :=
  (∀ va, DEVSPACE ≤ va → va < 2 ^ 32 → ∃ k ∈ kmap, Covers k va) → Overlong 0 (2 * PGSIZE) argv

/-- The end of `execStack`, with its two pages there. -/
def execPush (pgdir : PageDir) (argv : List (List Byte)) (sz : Nat) :
    Phys (PageDir × Option (Nat × Nat)) := do
  match ← Exec.execArguments pgdir argv [] sz with
  | none => pure (pgdir, none)
  | some (pointers, sp) => do
      let sp' := uintSub sp ((3 + pointers.length + 1) * 4)
      if ← Uvm.copyout pgdir sp' (Words.bytes (vector sp pointers)) then pure (pgdir, some (sz, sp'))
      else pure (pgdir, none)

theorem sat_execPush (stack : UserStack pgdir sz page)
    (tabled : (∀ va, DEVSPACE ≤ va → va < 2 ^ 32 → ∃ k ∈ kmap, Covers k va) → Tabled pgdir sz)
    (argv : List (List Byte)) (machine : Machine) :
    Sat (execPush pgdir argv sz) machine (fun result after => ¬Misses pgdir 0 sz argv ∧
      ∀ sz esp, result.2 = some (sz, esp) → ∃ page array pointers,
        UserStack result.1 sz page ∧ Delivered after result.1 sz esp argv array pointers)
      fun raised _ => raised = .uva2kaNull ∧ Strays kmap argv := by
  have overlong : Misses pgdir 0 sz argv → Strays kmap argv := by
    intro misses devices
    have alignedSz : sz % 4 = 0 := (@UserStack.pushed_nil pgdir sz page machine stack).aligned
    have long := stack.overlong (tabled devices) argv (Nat.sub_le ..) (Nat.le_refl _) alignedSz misses
    rwa [Nat.add_sub_cancel_left] at long
  have arguments := (sat_execArguments stack argv machine stack.pushed_nil).and
    (sat_execArguments_count argv machine (Nat.zero_le MAXARG))
  unfold execPush
  refine (arguments.mono (fun _ _ holds => holds) fun _ _ holds =>
    ⟨holds.1.1, overlong holds.1.2⟩).bind ?_
  rintro result last ⟨⟨reaches, pushed⟩, counted⟩
  cases result with
  | none => exact ⟨reaches, nofun⟩
  | some result =>
    obtain ⟨pointers, sp⟩ := result
    have pushed := pushed pointers sp rfl
    have word : uintSub sp ((3 + pointers.length + 1) * 4) < 2 ^ 32 := Nat.mod_lt _ (by decide)
    have counted := counted pointers sp rfl
    have strays : ¬Walkable pgdir (uintSub sp ((3 + pointers.length + 1) * 4))
        (Words.bytes (vector sp pointers)).length → Strays kmap argv := by
      intro misses devices
      refine absurd ?_ misses
      rw [length_vector, ← uintSub_aligned pushed.aligned]
      refine stack.walkable (tabled devices) pushed.high ?_
      unfold MAXARG at counted
      unfold DEVSPACE
      omega
    dsimp only
    refine ((sat_copyout (Words.bytes (vector sp pointers)) last word).mono
      (fun _ _ holds => holds) fun _ _ holds => ⟨holds.1, strays holds.2⟩).bind ?_
    rintro copied final ⟨-, copies⟩
    rw [sat_ite]
    split
    · rename_i success
      subst success
      refine ⟨reaches, ?_⟩
      rintro _ _ ⟨⟩
      exact ⟨page, _, pointers, stack, pushed.deliver stack copies⟩
    · exact ⟨reaches, nofun⟩

/-- The stack is what the pushes make of its two pages, if there are pages for it. -/
theorem sat_execStack_of {argv : List (List Byte)} (loading : Loading kmap machine.kmem pgdir sz)
    (newsz_eq : PGROUNDUP sz + 2 * PGSIZE = newsz) {allocated : PageDir × Nat → Machine → Prop}
    {post : PageDir × Option (Nat × Nat) → Machine → Prop} {fault : Vm.Panic → Machine → Prop}
    (allocates : Sat (Uvm.allocuvm pgdir (PGROUNDUP sz) newsz) machine allocated fun _ _ => True)
    (failed : ∀ grown after, allocated (grown, 0) after → post (grown, none) after)
    (built : ∀ grown closed page middle next,
      allocated (grown, newsz) middle → UserStack closed newsz page →
      ((∀ va, DEVSPACE ≤ va → va < 2 ^ 32 → ∃ k ∈ kmap, Covers k va) → Tabled closed newsz) →
      (∀ i, i ≠ PDX (PGROUNDUP sz) → closed.pde i = grown.pde i) →
      Sat (execPush closed argv newsz) next post fault) :
    Sat (Exec.execStack pgdir argv sz) machine post fault := by
  have again : PGROUNDUP (PGROUNDUP sz) = PGROUNDUP sz := by
    unfold PGROUNDUP PGSIZE
    omega
  have missing : ∀ va, va < KERNBASE → PGROUNDUP (PGROUNDUP sz) ≤ va → pgdir.entry va = none := by
    rw [again]
    exact loading.missing
  unfold Exec.execStack
  rw [newsz_eq]
  have outcomes := (sat_allocuvm pgdir (PGROUNDUP sz) newsz machine loading.freeable
    loading.releasable missing).and allocates
  refine (outcomes.mono (fun _ _ holds => holds) fun _ _ impossible => impossible.1.elim).bind ?_
  rintro ⟨grown, size⟩ middle ⟨outcome, allocated⟩
  dsimp only at outcome ⊢
  rw [sat_ite]
  split
  · rename_i empty
    subst empty
    exact failed grown middle allocated
  · rename_i positive
    rcases outcome with ⟨-, below, rfl, extended⟩ | ⟨shrinks, -⟩ | ⟨failed, -⟩
    · rw [again] at extended
      have base : size - 2 * PGSIZE = PGROUNDUP sz := by omega
      have word : PGROUNDUP sz < 2 ^ 32 := by
        unfold KERNBASE at below
        omega
      have first : InRange (PGROUNDUP sz) size (PGROUNDUP sz) := by
        refine ⟨Nat.le_refl _, Nat.lt_of_le_of_lt (pgrounddown_le _) ?_⟩
        unfold PGSIZE at newsz_eq
        omega
      obtain ⟨pa, -, found, -⟩ := extended.fresh _ word first
      rw [base]
      have clears := (sat_clearpteu middle.kmem word found).and (sat_clearpteu_pde grown middle.kmem)
      refine ((sat_pages (clears.mono (fun _ _ holds => holds) fun _ _ impossible =>
        impossible.1)).mono (fun _ _ holds => holds) fun _ _ impossible => impossible.elim).bind ?_
      rintro closed next ⟨⟨⟨-, entries⟩, tables⟩, -⟩
      obtain ⟨page, stack⟩ := loading.userStack newsz_eq below extended
        (show (PTE_W ||| PTE_U ||| PTE_P) &&& (0xFFF - PTE_U) &&& PTE_U = 0 by decide) entries
      exact built grown closed page middle next allocated stack
        (loading.tabled below extended entries) tables
    · exact absurd shrinks (by omega)
    · exact absurd failed positive

theorem sat_execStack (argv : List (List Byte)) (machine : Machine)
    (loading : Loading kmap machine.kmem pgdir sz) :
    Sat (Exec.execStack pgdir argv sz) machine (fun result after =>
      ∀ sz esp, result.2 = some (sz, esp) → ∃ page array pointers,
        UserStack result.1 sz page ∧ Delivered after result.1 sz esp argv array pointers)
      fun raised _ => raised = .uva2kaNull ∧ Strays kmap argv := by
  generalize newsz_eq : PGROUNDUP sz + 2 * PGSIZE = newsz
  refine sat_execStack_of loading newsz_eq (sat_true _ machine) (fun _ _ _ => nofun) ?_
  intro grown closed page middle next _ stack tabled _
  exact (sat_execPush stack tabled argv next).weaken fun _ _ holds => holds.2

end Xv6.Memory
