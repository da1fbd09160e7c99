import Xv6.Memory.Growth

/-!
# Where `copyout` writes

`copyout` walks through the pages of a range of addresses, which may wrap around. It
writes to pages of the address space that the user may use, and to no others, and it
reports whether all of the range was such. But `uva2ka` does not test whether there is a
page table: where the first page that stops the copy has none, it reads through a null
pointer.
-/

namespace Xv6.Memory

open Program Vm Uvm Function List

variable {va k : Nat} {page : Page}

/-- The page behind a user address, if it is there and the user may use it. -/
def userPage (pgdir : PageDir) (va : Nat) : Option Page :=
  (pgdir.entry va).bind fun pte => if pte.flags &&& PTE_U = 0 then none else some pte.pa

/-- The address of a byte of a range. -/
def address (va k : Nat) : Nat := (va + k) % 2 ^ 32

/-- Where a byte of a range is: its page and the offset in it. -/
def location (pgdir : PageDir) (va k : Nat) : Option (Page × Nat) :=
  (userPage pgdir (address va k)).map fun page => (page, address va k % PGSIZE)

/-- The bytes of the range hold the buffer, and no other byte has changed. Where two
addresses share a page, the later one counts. -/
structure Overwrites (pgdir : PageDir) (va : Nat) (buf : List Byte) (before after : Ram) : Prop where
  bytes : ∀ k byte page offset, buf[k]? = some byte → location pgdir va k = some (page, offset) →
    (∀ k', k < k' → k' < buf.length → location pgdir va k' ≠ some (page, offset)) →
    after page offset = byte
  others : ∀ page offset, (∀ k, k < buf.length → location pgdir va k ≠ some (page, offset)) →
    after page offset = before page offset

/-- Every page that the range overlaps can be used by the user. -/
def Accessible (pgdir : PageDir) (va len : Nat) : Prop :=
  ∀ k, k < len → userPage pgdir (address va k) ≠ none

/-- What `copyout` is to do. -/
structure CopiesOut (pgdir : PageDir) (va : Nat) (buf : List Byte) (machine : Machine)
    (copied : Bool) (after : Machine) : Prop where
  kmem : after.kmem = machine.kmem
  succeeds : copied = true ↔ Accessible pgdir va buf.length
  overwrites : copied = true → Overwrites pgdir va buf machine.ram after.ram
  spares : ∀ page, (∀ va, va < 2 ^ 32 → userPage pgdir va ≠ some page) →
    after.ram page = machine.ram page

/-- The pages of the range have page tables, up to the first that the user may not use. -/
def Walkable (pgdir : PageDir) (va len : Nat) : Prop :=
  ∀ k, k < len → (∀ j, j < k → userPage pgdir (address va j) ≠ none) →
    walkpgdir pgdir (address va k) ≠ none

variable {pgdir : PageDir} {machine : Machine}

theorem uva2ka_eq (pgdir : PageDir) (uva : Nat) : Uvm.uva2ka pgdir uva =
    if walkpgdir pgdir uva = none then throw .uva2kaNull else pure (userPage pgdir uva) := by
  unfold Uvm.uva2ka userPage PageDir.entry walkpgdir
  cases pgdir.pde (PDX uva) with
  | none => rfl
  | some table =>
    dsimp only [Option.bind_some]
    rw [if_neg nofun]
    cases table.pte (PTX uva) with
    | none => rfl
    | some pte => rfl

theorem walkpgdir_of_userPage (usable : userPage pgdir va ≠ none) : walkpgdir pgdir va ≠ none := by
  intro missing
  apply usable
  unfold userPage PageDir.entry
  rw [show pgdir.pde (PDX va) = none from missing]
  rfl

theorem patch_inside {content : Nat → Byte} {offset i : Nat} {bytes : List Byte}
    (from_ : offset ≤ i) (until_ : i < offset + bytes.length) :
    patch content offset bytes i = bytes.getD (i - offset) 0 :=
  if_pos ⟨from_, until_⟩

theorem patch_outside {content : Nat → Byte} {offset i : Nat} {bytes : List Byte}
    (outside : ¬(offset ≤ i ∧ i < offset + bytes.length)) :
    patch content offset bytes i = content i :=
  if_neg outside

/-! ## One page of the range -/

/-- A turn of the loop: `n` bytes go to the page of `va`, and `next` is the next page. -/
structure Chunk (va len n next : Nat) : Prop where
  word : va < 2 ^ 32
  nextWord : next < 2 ^ 32
  fits : n ≤ len
  positive : 0 < n
  within : va % PGSIZE + n ≤ PGSIZE
  rest : n < len → next % PGSIZE = 0 ∧ ∀ k, n ≤ k → address va k = address next (k - n)

theorem sub_pgrounddown (va : Nat) : va - PGROUNDDOWN va = va % PGSIZE := by
  unfold PGROUNDDOWN PGSIZE
  omega

theorem chunk_copyout {len : Nat} (word : va < 2 ^ 32) (some_ : 0 < len) :
    Chunk va len (min (PGSIZE - va % PGSIZE) len) ((PGROUNDDOWN va + PGSIZE) % 2 ^ 32) := by
  have bound : va % PGSIZE < PGSIZE := Nat.mod_lt _ (by decide)
  refine ⟨word, Nat.mod_lt _ (by decide), Nat.min_le_right .., by omega, by omega, ?_⟩
  intro more
  have whole : min (PGSIZE - va % PGSIZE) len = PGSIZE - va % PGSIZE := by omega
  rw [whole]
  unfold address PGROUNDDOWN
  unfold PGSIZE at *
  refine ⟨by omega, fun k later => ?_⟩
  omega

section Chunk

variable {va len n next : Nat}

section

variable (chunk : Chunk va len n next)

include chunk

theorem Chunk.address_eq (inside : k < n) : address va k = va + k := by
  obtain ⟨word, -, -, -, within, -⟩ := chunk
  unfold address
  unfold PGSIZE at within
  omega

theorem Chunk.userPage_eq (inside : k < n) :
    userPage pgdir (address va k) = userPage pgdir (PGROUNDDOWN va) := by
  have same : (va + k) / PGSIZE = PGROUNDDOWN va / PGSIZE := by
    have within := chunk.within
    unfold PGROUNDDOWN
    unfold PGSIZE at *
    omega
  unfold userPage
  rw [chunk.address_eq inside, entry_congr same]

theorem Chunk.location_eq (inside : k < n) (found : userPage pgdir (PGROUNDDOWN va) = some page) :
    location pgdir va k = some (page, va % PGSIZE + k) := by
  have offset : (va + k) % PGSIZE = va % PGSIZE + k := by
    have within := chunk.within
    unfold PGSIZE at *
    omega
  unfold location
  rw [chunk.userPage_eq inside, found, chunk.address_eq inside, offset, Option.map_some]

theorem Chunk.location_later (later : n ≤ k) (below : k < len) :
    location pgdir va k = location pgdir next (k - n) := by
  unfold location
  rw [(chunk.rest (by omega)).2 k later]

theorem Chunk.accessible_iff (found : userPage pgdir (PGROUNDDOWN va) ≠ none) :
    Accessible pgdir va len ↔ Accessible pgdir next (len - n) := by
  constructor
  · intro all k below
    have later := all (n + k) (by omega)
    rw [(chunk.rest (by omega)).2 (n + k) (by omega), Nat.add_sub_cancel_left] at later
    exact later
  · intro rest k below
    by_cases inside : k < n
    · rw [chunk.userPage_eq inside]
      exact found
    · rw [(chunk.rest (by omega)).2 k (by omega)]
      exact rest (k - n) (by omega)

theorem Chunk.walkable_iff (found : userPage pgdir (PGROUNDDOWN va) ≠ none) :
    Walkable pgdir va len ↔ Walkable pgdir next (len - n) := by
  constructor
  · intro all k below before
    have later := all (n + k) (by omega) ?_
    · rw [(chunk.rest (by omega)).2 (n + k) (by omega), Nat.add_sub_cancel_left] at later
      exact later
    · intro j earlier
      by_cases inside : j < n
      · rw [chunk.userPage_eq inside]
        exact found
      · rw [(chunk.rest (by omega)).2 j (by omega)]
        exact before (j - n) (by omega)
  · intro rest k below before
    by_cases inside : k < n
    · apply walkpgdir_of_userPage
      rw [chunk.userPage_eq inside]
      exact found
    · rw [(chunk.rest (by omega)).2 k (by omega)]
      refine rest (k - n) (by omega) fun j earlier => ?_
      have usable := before (n + j) (by omega)
      rw [(chunk.rest (by omega)).2 (n + j) (by omega), Nat.add_sub_cancel_left] at usable
      exact usable

/-- The bytes of one page, then the rest. -/
theorem Chunk.overwrites {buf : List Byte} {before after : Ram} (length : buf.length = len)
    (found : userPage pgdir (PGROUNDDOWN va) = some page) (rest : Overwrites pgdir next (buf.drop n)
      (update before page (patch (before page) (va % PGSIZE) (buf.take n))) after) :
    Overwrites pgdir va buf before after := by
  have lengthTake : (buf.take n).length = n := by
    rw [length_take, length]
    exact Nat.min_eq_left chunk.fits
  have lengthDrop : (buf.drop n).length = len - n := by rw [length_drop, length]
  constructor
  · intro k byte page' offset present place last
    have below : k < buf.length := (List.getElem?_eq_some_iff.mp present).1
    by_cases inside : k < n
    · -- no later byte is in the same place, so the rest of the copy leaves it alone
      rw [chunk.location_eq inside found] at place
      cases place
      rw [rest.others page _, update_self, patch_inside (by omega) (by omega)]
      · rw [Nat.add_sub_cancel_left, getD_eq_getElem?_getD, List.getElem?_take_of_lt inside, present]
        rfl
      · intro j below'
        rw [lengthDrop] at below'
        have other := last (n + j) (by omega) (by omega)
        rw [chunk.location_later (by omega) (by omega), Nat.add_sub_cancel_left] at other
        exact other
    · rw [chunk.location_later (by omega) (by omega)] at place
      refine rest.bytes (k - n) byte page' offset ?_ place ?_
      · rw [List.getElem?_drop, Nat.add_sub_cancel' (by omega)]
        exact present
      · intro k' later below'
        rw [lengthDrop] at below'
        have other := last (n + k') (by omega) (by omega)
        rw [chunk.location_later (by omega) (by omega), Nat.add_sub_cancel_left] at other
        exact other
  · intro page' offset nowhere
    rw [rest.others page' offset]
    · rw [update_apply]
      split
      · rename_i same
        subst same
        apply patch_outside
        rintro ⟨from_, until_⟩
        refine nowhere (offset - va % PGSIZE) (by have := chunk.fits; omega) ?_
        rw [chunk.location_eq (by omega) found, Nat.add_sub_cancel' from_]
      · rfl
    · intro k below
      rw [lengthDrop] at below
      have other := nowhere (n + k) (by omega)
      rw [chunk.location_later (by omega) (by omega), Nat.add_sub_cancel_left] at other
      exact other

end

end Chunk

/-! ## The loop -/

theorem copiesOut_nil (va : Nat) (machine : Machine) : CopiesOut pgdir va [] machine true machine :=
  ⟨rfl, iff_of_true rfl nofun, fun _ => ⟨nofun, fun _ _ _ => rfl⟩, fun _ _ => rfl⟩

section Chunk

variable {va n next : Nat} {buf : List Byte}

/-- The user may not use the first page. -/
theorem Chunk.copiesOut_none (chunk : Chunk va buf.length n next)
    (unusable : userPage pgdir (PGROUNDDOWN va) = none) :
    CopiesOut pgdir va buf machine false machine := by
  refine ⟨rfl, iff_of_false nofun fun all => ?_, nofun, fun _ _ => rfl⟩
  have positive := chunk.positive
  have fits := chunk.fits
  have first := all 0 (by omega)
  rw [chunk.userPage_eq positive] at first
  exact first unusable

/-- The first page is written, and the rest is copied. -/
theorem Chunk.copiesOut_some (chunk : Chunk va buf.length n next) {copied : Bool} {after : Machine}
    (found : userPage pgdir (PGROUNDDOWN va) = some page)
    (rest : CopiesOut pgdir next (buf.drop n) { machine with
      ram := update machine.ram page
        (patch (machine.ram page) (va % PGSIZE) (buf.take n)) } copied after) :
    CopiesOut pgdir va buf machine copied after := by
  have usable : userPage pgdir (PGROUNDDOWN va) ≠ none := by
    rw [found]
    nofun
  refine ⟨rest.kmem, ?_, fun success => chunk.overwrites rfl found (rest.overwrites success), ?_⟩
  · rw [rest.succeeds, length_drop, chunk.accessible_iff usable]
  · intro page' foreign
    rw [rest.spares page' foreign]
    apply update_of_ne
    rintro rfl
    exact foreign _ (Nat.lt_of_le_of_lt (pgrounddown_le va) chunk.word) found

end Chunk

/-- The loop of `copyout` does its part, unless it comes to a missing page table. -/
theorem sat_copyoutLoop (fuel : Nat) (buf : List Byte) (machine : Machine) (word : va < 2 ^ 32)
    (enough : va % PGSIZE + buf.length ≤ fuel * PGSIZE) :
    Sat (Uvm.copyoutLoop pgdir fuel va buf) machine
      (fun copied after => Walkable pgdir va buf.length ∧ CopiesOut pgdir va buf machine copied after)
      fun raised _ => raised = .uva2kaNull ∧ ¬Walkable pgdir va buf.length := by
  induction fuel generalizing va buf machine with
  | zero =>
    have empty : buf = [] := eq_nil_of_length_eq_zero (by omega)
    subst empty
    exact ⟨nofun, copiesOut_nil va machine⟩
  | succ fuel ih =>
    unfold Uvm.copyoutLoop
    rw [sat_ite]
    split
    · rename_i empty
      rw [eq_nil_of_length_eq_zero empty]
      exact ⟨nofun, copiesOut_nil va machine⟩
    · rename_i some_
      have chunk := chunk_copyout word (Nat.pos_of_ne_zero some_)
      have positive := chunk.positive
      have fits := chunk.fits
      have first : walkpgdir pgdir (address va 0) = walkpgdir pgdir (PGROUNDDOWN va) := by
        unfold walkpgdir
        rw [chunk.address_eq positive]
        congr 1
        apply Fin.ext
        change va / 2 ^ 22 % 1024 = PGROUNDDOWN va / 2 ^ 22 % 1024
        unfold PGROUNDDOWN PGSIZE
        omega
      dsimp only
      rw [uva2ka_eq, sub_pgrounddown]
      split
      · rename_i missing
        refine ⟨rfl, fun walkable => ?_⟩
        exact walkable 0 (by omega) (fun j before => absurd before (Nat.not_lt_zero j))
          (first.trans missing)
      · rename_i there
        rw [pure_bind]
        cases found : userPage pgdir (PGROUNDDOWN va) with
        | none =>
          refine ⟨fun k below before => ?_, chunk.copiesOut_none found⟩
          cases k with
          | zero =>
            rw [first]
            exact there
          | succ k =>
            have usable := before 0 (Nat.succ_pos k)
            rw [chunk.userPage_eq positive] at usable
            exact absurd found usable
        | some page =>
          have usable : userPage pgdir (PGROUNDDOWN va) ≠ none := by
            rw [found]
            nofun
          have more : (PGROUNDDOWN va + PGSIZE) % 2 ^ 32 % PGSIZE +
              (buf.drop (min (PGSIZE - va % PGSIZE) buf.length)).length ≤ fuel * PGSIZE := by
            rw [length_drop]
            unfold PGROUNDDOWN
            unfold PGSIZE at *
            omega
          rw [sat_bind]
          refine (ih (buf.drop _) _ chunk.nextWord more).mono ?_ ?_
          · rintro copied after ⟨walkable, rest⟩
            rw [length_drop, ← chunk.walkable_iff usable] at walkable
            exact ⟨walkable, chunk.copiesOut_some found rest⟩
          · rintro raised after ⟨null, stuck⟩
            rw [length_drop, ← chunk.walkable_iff usable] at stuck
            exact ⟨null, stuck⟩

theorem sat_copyout (buf : List Byte) (machine : Machine) (word : va < 2 ^ 32) :
    Sat (Uvm.copyout pgdir va buf) machine
      (fun copied after => Walkable pgdir va buf.length ∧ CopiesOut pgdir va buf machine copied after)
      fun raised _ => raised = .uva2kaNull ∧ ¬Walkable pgdir va buf.length := by
  apply sat_copyoutLoop _ buf machine word
  have bound : va % PGSIZE < PGSIZE := Nat.mod_lt _ (by decide)
  unfold PGSIZE at *
  omega

/-- `copyout` does what it is to do iff, up to the first page that the user may not use,
no page table is missing. -/
theorem copyout_copies_iff (pgdir : PageDir) {va : Nat} (buf : List Byte) (machine : Machine)
    (word : va < 2 ^ 32) :
    (∃ copied after, Uvm.copyout pgdir va buf machine = .ok copied after ∧
      CopiesOut pgdir va buf machine copied after) ↔ Walkable pgdir va buf.length := by
  have spec : Sat (Uvm.copyout pgdir va buf) machine _ _ := sat_copyout buf machine word
  constructor
  · rintro ⟨copied, after, run, -⟩
    exact (spec.ok run).1
  · intro walkable
    cases run : Uvm.copyout pgdir va buf machine with
    | ok copied after => exact ⟨copied, after, rfl, (spec.ok run).2⟩
    | error raised after => exact absurd walkable (spec.error run).2

/-- A copy to an address without a page table reads the entry through a null pointer. -/
theorem copyout_reads_null :
    (∃ after, Uvm.copyout onePage 0x90000000 [1] onePageMachine = .error .uva2kaNull after) ∧
      ¬∃ copied after, Uvm.copyout onePage 0x90000000 [1] onePageMachine = .ok copied after ∧
        CopiesOut onePage 0x90000000 [1] onePageMachine copied after := by
  have evaluated : raised (Uvm.copyout onePage 0x90000000 [1]) onePageMachine = some .uva2kaNull := by
    decide +kernel
  obtain ⟨final, run⟩ := raised_eq_some.mp evaluated
  refine ⟨⟨final, run⟩, ?_⟩
  rintro ⟨copied, after, run', -⟩
  rw [run] at run'
  cases run'

theorem copyout_copies_iff_onePage :
    (∃ copied after, Uvm.copyout onePage 10 [1, 2, 3] onePageMachine = .ok copied after ∧
      CopiesOut onePage 10 [1, 2, 3] onePageMachine copied after) ↔ Walkable onePage 10 3 :=
  copyout_copies_iff onePage [1, 2, 3] onePageMachine (by decide)

end Xv6.Memory
