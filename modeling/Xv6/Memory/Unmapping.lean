import Xv6.Memory.Mapping

/-!
# What `deallocuvm` skips

Where a page table is missing, `deallocuvm` goes on at the first address of the next one. The
plain loop takes the pages one by one. Both are the same program, and from the plain
loop one reads off which pages go back to the free list.
-/

namespace Xv6.Memory

open Program Vm List

variable {pgdir : PageDir} {a last oldsz : Nat}

/-! ## The plain loop -/

/-- Free the page of one address, if there is one. -/
def unmapPage (pgdir : PageDir) (a : Nat) : Mem PageDir :=
  match walkpgdir pgdir a with
  | none => pure pgdir
  | some pgtab =>
    match pgtab.pte (PTX a) with
    | none => pure pgdir
    | some pte => do
        if pte.pa = 0 then throw .kfree
        kfree pte.pa
        pure (pgdir.setPte pgtab a none)

/-- The loop over all pages. -/
def unmapPages : List Nat → PageDir → Mem PageDir
  | [], pgdir => pure pgdir
  | a :: rest, pgdir => do
      let pgdir ← unmapPage pgdir a
      unmapPages rest pgdir

/-- `deallocuvm` to a smaller size, with the plain loop. -/
def plainDeallocuvm (pgdir : PageDir) (oldsz newsz : Nat) : Mem (PageDir × Nat) := do
  let pgdir ← unmapPages (pagesUpTo (PGROUNDUP newsz) oldsz) pgdir
  pure (pgdir, newsz)

theorem unmapPage_of_missing (missing : pgdir.entry a = none) : unmapPage pgdir a = pure pgdir := by
  unfold unmapPage
  split
  · rfl
  · rename_i pgtab found
    rw [(entry_eq found).symm.trans missing]

theorem throw_bind {Value Result : Type} (stop : Vm.Panic) (rest : Value → Mem Result) :
    (throw stop >>= rest) = throw stop := rfl

theorem unmapPages_first (a : Nat) (rest : List Nat) :
    unmapPages (a :: rest) pgdir = unmapPage pgdir a >>= unmapPages rest := rfl

theorem unmapPages_cons (more : a < last) :
    unmapPages (pagesUpTo a last) pgdir =
      unmapPage pgdir a >>= unmapPages (pagesUpTo (a + PGSIZE) last) := by
  rw [pagesUpTo_cons more, unmapPages_first]

/-- Pages without an entry may be skipped. -/
theorem unmapPages_skip (last turns : Nat)
    (missing : ∀ va, a ≤ va → va < a + turns * PGSIZE → pgdir.entry va = none) :
    unmapPages (pagesUpTo a last) pgdir = unmapPages (pagesUpTo (a + turns * PGSIZE) last) pgdir := by
  induction turns generalizing a with
  | zero => rw [Nat.zero_mul, Nat.add_zero]
  | succ turns ih =>
    have next : a + (turns + 1) * PGSIZE = a + PGSIZE + turns * PGSIZE := by
      rw [Nat.succ_mul]
      omega
    rw [next] at missing ⊢
    by_cases more : a < last
    · have here : pgdir.entry a = none := missing a le_rfl (by unfold PGSIZE; omega)
      rw [unmapPages_cons more, unmapPage_of_missing here, pure_bind]
      exact ih fun va from_ => missing va (by omega)
    · rw [pagesUpTo_nil (by omega), pagesUpTo_nil (by omega)]

/-! ## The loop of `deallocuvm` -/

/-- The jump over a missing page table passes over missing pages. -/
theorem unmapPages_jump (aligned : a % PGSIZE = 0) (word : a < 2 ^ 32)
    (missing : pgdir.pde (PDX a) = none) :
    unmapPages (pagesUpTo a last) pgdir = unmapPages (pagesUpTo (((PDX a).val + 1) * 2 ^ 22) last) pgdir := by
  have region : (PDX a).val = a / 2 ^ 22 := Nat.mod_eq_of_lt (by unfold NPDENTRIES; omega)
  rw [region]
  have turns : (a / 2 ^ 22 + 1) * 2 ^ 22 = a + ((a / 2 ^ 22 + 1) * 2 ^ 22 - a) / PGSIZE * PGSIZE := by
    unfold PGSIZE at aligned ⊢
    omega
  rw [turns]
  apply unmapPages_skip
  intro va from_ before
  rw [← turns] at before
  have same : PDX va = PDX a := by
    apply Fin.ext
    change va / 2 ^ 22 % 1024 = a / 2 ^ 22 % 1024
    omega
  unfold PageDir.entry
  rw [same, missing]
  rfl

theorem deallocuvmLoop_eq (user : oldsz ≤ KERNBASE) (fuel : Nat) (pgdir : PageDir)
    (aligned : a % PGSIZE = 0) (enough : oldsz ≤ a + fuel * PGSIZE) :
    deallocuvmLoop oldsz fuel pgdir a = unmapPages (pagesUpTo a oldsz) pgdir := by
  induction fuel generalizing pgdir a with
  | zero =>
    rw [pagesUpTo_nil (by omega)]
    rfl
  | succ fuel ih =>
    rw [Nat.succ_mul] at enough
    unfold deallocuvmLoop
    split
    · rename_i more
      have word : a < 2 ^ 32 := by
        unfold KERNBASE at user
        omega
      have next : ∀ pgdir, deallocuvmLoop oldsz fuel pgdir (a + PGSIZE) =
          unmapPages (pagesUpTo (a + PGSIZE) oldsz) pgdir := fun pgdir =>
        ih pgdir (by rw [Nat.add_mod_right]; exact aligned) (by omega)
      split
      · rename_i missing
        have further : a + PGSIZE ≤ ((PDX a).val + 1) * 2 ^ 22 := by
          change a + 4096 ≤ (a / 2 ^ 22 % 1024 + 1) * 2 ^ 22
          unfold PGSIZE at aligned
          omega
        rw [unmapPages_jump aligned word missing]
        exact ih pgdir (by unfold PGSIZE; omega) (by omega)
      · rename_i pgtab found
        rw [unmapPages_cons more]
        unfold unmapPage
        rw [found]
        dsimp only
        cases pgtab.pte (PTX a) with
        | none =>
          rw [pure_bind]
          exact next pgdir
        | some pte =>
          dsimp only
          split
          · rw [throw_bind, throw_bind, throw_bind]
          · rw [bind_assoc]
            simp only [pure_bind, next]
    · rw [pagesUpTo_nil (by omega)]
      rfl

/-! ## What goes back to the free list -/

/-- The pages of these addresses. -/
def pagesAt (pgdir : PageDir) (list : List Nat) : List Page :=
  list.filterMap fun a => (pgdir.entry a).map Pte.pa

/-- The pages of these addresses can be freed. -/
def Returnable (first : Page) (pgdir : PageDir) (list : List Nat) : Prop :=
  ∀ a ∈ list, ∀ pte, pgdir.entry a = some pte → Freeable first pte.pa

/-- The pages of these addresses are on the free list, the last one on top, and their entries
are gone. -/
structure Unmapped (list : List Nat) (pgdir : PageDir) (kmem : Kmem) (result : PageDir) (after : Kmem) :
    Prop where
  freed : after = { kmem with freelist := (pagesAt pgdir list).reverse ++ kmem.freelist }
  entries : ∀ va, va < 2 ^ 32 → result.entry va =
    if ∃ a ∈ list, va / PGSIZE = a / PGSIZE then none else pgdir.entry va

theorem sat_kfree_or (kmem : Kmem) {v : Page} (nonzero : v ≠ 0) :
    Sat (kfree v) kmem
      (fun _ after => Freeable kmem.first v ∧ after = { kmem with freelist := v :: kmem.freelist })
      fun stop _ => stop = .kfree ∧ ¬Freeable kmem.first v := by
  by_cases freeable : Freeable kmem.first v
  · exact (sat_kfree freeable).mono (fun _ _ same => ⟨freeable, same⟩) fun _ _ => False.elim
  · have refused : v % PGSIZE ≠ 0 ∨ v < kmem.first ∨ PHYSTOP ≤ v := by
      by_contra accepted
      rw [not_or, not_or, not_not, Nat.not_lt, Nat.not_le] at accepted
      exact freeable ⟨accepted.1, accepted.2.1, accepted.2.2, nonzero⟩
    unfold Sat kfree
    rw [if_pos refused]
    exact ⟨rfl, freeable⟩

theorem sat_unmapPage (pgdir : PageDir) (kmem : Kmem) (word : a < 2 ^ 32) :
    Sat (unmapPage pgdir a) kmem
      (fun result after => Returnable kmem.first pgdir [a] ∧ Unmapped [a] pgdir kmem result after)
      fun stop _ => stop = .kfree ∧ ¬Returnable kmem.first pgdir [a] := by
  have only : ∀ {pte : Pte}, pgdir.entry a = some pte →
      (Returnable kmem.first pgdir [a] ↔ Freeable kmem.first pte.pa) := by
    intro pte here
    unfold Returnable
    rw [forall_mem_singleton, here]
    exact ⟨fun all => all pte rfl, fun freeable _ same => Option.some.inj same ▸ freeable⟩
  cases here : pgdir.entry a with
  | none =>
    rw [unmapPage_of_missing here]
    refine ⟨fun b among pte found => ?_, ?_, fun va _ => ?_⟩
    · rw [mem_singleton.mp among, here] at found
      cases found
    · rw [pagesAt, filterMap_cons, here]
      rfl
    · split
      · rename_i same
        simp only [mem_singleton, exists_eq_left] at same
        rw [entry_congr same, here]
      · rfl
  | some pte =>
    obtain ⟨pgtab, found, present⟩ : ∃ pgtab, pgdir.pde (PDX a) = some pgtab ∧
        pgtab.pte (PTX a) = some pte := by
      cases found : pgdir.pde (PDX a) with
      | none =>
        rw [PageDir.entry, found] at here
        cases here
      | some pgtab => exact ⟨pgtab, rfl, (entry_eq found).symm.trans here⟩
    rw [only here]
    unfold unmapPage
    rw [show walkpgdir pgdir a = some pgtab from found]
    dsimp only
    rw [present]
    dsimp only
    split
    · rename_i null
      exact ⟨rfl, fun freeable => freeable.positive null⟩
    · rename_i nonzero
      refine (sat_kfree_or kmem nonzero).bind ?_
      rintro _ _ ⟨freeable, rfl⟩
      refine ⟨freeable, ?_, fun va wordVa => ?_⟩
      · rw [pagesAt, filterMap_cons, here]
        rfl
      · simp only [mem_singleton, exists_eq_left]
        exact entry_setPte none found word wordVa

/-- The pages of the addresses are freed one by one, unless one of them cannot be. -/
theorem sat_unmapPages (list : List Nat) (pgdir : PageDir) (kmem : Kmem)
    (words : ∀ a ∈ list, a < 2 ^ 32) (apart : list.Pairwise fun a b => a / PGSIZE ≠ b / PGSIZE) :
    Sat (unmapPages list pgdir) kmem
      (fun result after => Returnable kmem.first pgdir list ∧ Unmapped list pgdir kmem result after)
      fun stop _ => stop = .kfree ∧ ¬Returnable kmem.first pgdir list := by
  induction list generalizing pgdir kmem with
  | nil =>
    refine ⟨nofun, rfl, fun va _ => ?_⟩
    rw [if_neg nofun]
  | cons a list ih =>
    rw [pairwise_cons] at apart
    have word := words a mem_cons_self
    have wordsRest : ∀ b ∈ list, b < 2 ^ 32 := fun b among => words b (mem_cons_of_mem _ among)
    have split_ : Returnable kmem.first pgdir (a :: list) ↔
        Returnable kmem.first pgdir [a] ∧ Returnable kmem.first pgdir list := by
      unfold Returnable
      rw [forall_mem_cons, forall_mem_singleton]
    rw [unmapPages_first]
    refine Sat.bind ((sat_unmapPage pgdir kmem word).mono (fun _ _ done => done) fun stop _ stuck =>
      ⟨stuck.1, fun all => stuck.2 (split_.mp all).1⟩) ?_
    rintro next middle ⟨first, freed, entries⟩
    subst freed
    -- the entries of the other addresses are still there
    have same : ∀ b ∈ list, next.entry b = pgdir.entry b := by
      intro b among
      rw [entries b (wordsRest b among), if_neg]
      simp only [mem_singleton, exists_eq_left]
      exact (apart.1 b among).symm
    have rest : Returnable kmem.first next list ↔ Returnable kmem.first pgdir list :=
      forall₂_congr fun b among => by rw [same b among]
    have others : pagesAt next list = pagesAt pgdir list :=
      filterMap_congr fun b among => by rw [same b among]
    refine (ih next _ wordsRest apart.2).mono ?_ fun stop _ stuck =>
      ⟨stuck.1, fun all => stuck.2 (rest.mpr (split_.mp all).2)⟩
    rintro result after ⟨later, freed, entriesRest⟩
    refine ⟨split_.mpr ⟨first, rest.mp later⟩, ?_, fun va wordVa => ?_⟩
    · rw [freed, others, ← append_assoc, ← reverse_append]
      congr 3
      exact (@filterMap_append _ _ [a] list _).symm
    · rw [entriesRest va wordVa, entries va wordVa]
      simp only [exists_mem_cons_iff, not_mem_nil, false_and, exists_false, or_false]
      split
      · rename_i below
        rw [if_pos (.inr below)]
      · rename_i elsewhere
        simp only [elsewhere, or_false]

/-! ## `deallocuvm` -/

theorem mem_pagesUpTo_iff {va : Nat} (aligned : a % PGSIZE = 0) :
    va ∈ pagesUpTo a last ↔ va % PGSIZE = 0 ∧ a ≤ va ∧ va < last := by
  constructor
  · intro among
    obtain ⟨alignedVa, below⟩ := mem_pagesUpTo aligned among
    obtain ⟨i, _, rfl⟩ := mem_map.mp among
    exact ⟨alignedVa, Nat.le_add_right .., below⟩
  · rintro ⟨alignedVa, after, below⟩
    refine mem_map.mpr ⟨(va - a) / PGSIZE, mem_range.mpr ?_, ?_⟩
    · unfold PGSIZE at *
      omega
    · unfold PGSIZE at *
      omega

/-- The addresses lie in different pages. -/
theorem apart_pagesUpTo (a last : Nat) :
    (pagesUpTo a last).Pairwise fun a b => a / PGSIZE ≠ b / PGSIZE := by
  unfold pagesUpTo
  rw [pairwise_map]
  refine pairwise_lt_range.imp ?_
  intro i j less same
  rw [Nat.add_mul_div_left _ _ (by decide), Nat.add_mul_div_left _ _ (by decide)] at same
  omega

/-- An address lies in one of the pages. -/
theorem exists_page_iff {va : Nat} (aligned : a % PGSIZE = 0) :
    (∃ b ∈ pagesUpTo a last, va / PGSIZE = b / PGSIZE) ↔ InRange a last va := by
  simp only [mem_pagesUpTo_iff aligned]
  unfold InRange PGROUNDDOWN
  constructor
  · rintro ⟨b, ⟨alignedB, after, below⟩, same⟩
    unfold PGSIZE at *
    omega
  · rintro ⟨after, below⟩
    refine ⟨va / PGSIZE * PGSIZE, ⟨Nat.mul_mod_left .., ?_, below⟩, ?_⟩
    · unfold PGSIZE at *
      omega
    · rw [Nat.mul_div_cancel _ (by decide)]

theorem deallocuvm_eq_plain (pgdir : PageDir) {newsz : Nat} (smaller : newsz < oldsz)
    (user : oldsz ≤ KERNBASE) : deallocuvm pgdir oldsz newsz = plainDeallocuvm pgdir oldsz newsz := by
  unfold deallocuvm plainDeallocuvm
  rw [if_neg (Nat.not_le_of_lt smaller), deallocuvmLoop_eq user _ _ (pgroundup_mod newsz)]
  unfold PGSIZE
  omega

theorem sat_plainDeallocuvm (pgdir : PageDir) (newsz : Nat) (kmem : Kmem) (user : oldsz ≤ KERNBASE) :
    Sat (plainDeallocuvm pgdir oldsz newsz) kmem
      (fun result after => result.2 = newsz ∧
        after = { kmem with
          freelist := (pagesAt pgdir (pagesUpTo (PGROUNDUP newsz) oldsz)).reverse ++ kmem.freelist } ∧
        ∀ va, va < 2 ^ 32 → result.1.entry va =
          if InRange (PGROUNDUP newsz) oldsz va then none else pgdir.entry va)
      fun stop _ => stop = .kfree ∧
        ¬Returnable kmem.first pgdir (pagesUpTo (PGROUNDUP newsz) oldsz) := by
  have words : ∀ a ∈ pagesUpTo (PGROUNDUP newsz) oldsz, a < 2 ^ 32 := fun a among =>
    ((mem_pagesUpTo (pgroundup_mod newsz) among).2.trans_le user).trans (by decide)
  unfold plainDeallocuvm
  refine (sat_unmapPages _ pgdir kmem words (apart_pagesUpTo ..)).bind ?_
  rintro result after ⟨-, freed, entries⟩
  refine ⟨rfl, freed, fun va wordVa => ?_⟩
  rw [entries va wordVa]
  simp only [exists_page_iff (pgroundup_mod newsz)]

/-- `deallocuvm` within the user half. -/
theorem sat_deallocuvm (pgdir : PageDir) (newsz : Nat) (kmem : Kmem) (user : oldsz ≤ KERNBASE)
    (releasable : Releasable kmem.first pgdir) :
    Sat (deallocuvm pgdir oldsz newsz) kmem (fun result after =>
      after.first = kmem.first ∧ result.2 = (if oldsz ≤ newsz then oldsz else newsz) ∧
        ∀ va, va < 2 ^ 32 → result.1.entry va =
          if InRange (PGROUNDUP newsz) oldsz va then none else pgdir.entry va) fun _ _ => False := by
  by_cases smaller : newsz < oldsz
  · rw [deallocuvm_eq_plain pgdir smaller user, if_neg (Nat.not_le_of_lt smaller)]
    refine (sat_plainDeallocuvm pgdir newsz kmem user).mono ?_ ?_
    · rintro result _ ⟨size, rfl, entries⟩
      exact ⟨rfl, size, entries⟩
    · rintro stop _ ⟨-, stuck⟩
      exact stuck fun a among => releasable a
        ((mem_pagesUpTo (pgroundup_mod newsz) among).2.trans_le user)
  · rw [Nat.not_lt] at smaller
    unfold deallocuvm
    rw [if_pos smaller, if_pos smaller]
    refine ⟨rfl, rfl, fun va _ => ?_⟩
    rw [if_neg (not_inRange (pgroundup_mod newsz) (smaller.trans (le_pgroundup newsz)))]

/-- `deallocuvm` is the plain loop. Unless it meets a page that cannot be freed, the pages from the
new size to the old one are freed, each one once, their entries are gone and all others are as
before. -/
theorem deallocuvm_exact (pgdir : PageDir) (oldsz newsz : Nat) (smaller : newsz < oldsz)
    (user : oldsz ≤ KERNBASE) :
    deallocuvm pgdir oldsz newsz = plainDeallocuvm pgdir oldsz newsz ∧
      ∀ kmem, Sat (deallocuvm pgdir oldsz newsz) kmem
        (fun result after => result.2 = newsz ∧
          after = { kmem with
            freelist := (pagesAt pgdir (pagesUpTo (PGROUNDUP newsz) oldsz)).reverse ++ kmem.freelist } ∧
          ∀ va, va < 2 ^ 32 → result.1.entry va =
            if InRange (PGROUNDUP newsz) oldsz va then none else pgdir.entry va)
        fun stop _ => stop = .kfree ∧ ∃ a ∈ pagesUpTo (PGROUNDUP newsz) oldsz, ∃ pte,
          pgdir.entry a = some pte ∧ ¬Freeable kmem.first pte.pa := by
  have plain := deallocuvm_eq_plain pgdir smaller user
  refine ⟨plain, fun kmem => ?_⟩
  rw [plain]
  refine (sat_plainDeallocuvm pgdir newsz kmem user).mono (fun _ _ done => done) fun stop _ stuck =>
    ⟨stuck.1, ?_⟩
  simpa only [Returnable, not_forall, exists_prop] using stuck.2

/-- One page, at the start of the second page table; the first table is missing. -/
def holedDirectory : PageDir :=
  (PageDir.zero 0x400000).setPte (.zero 0x401000) 0x400000 (some { pa := 0x402000, flags := PTE_P })

/-- The loop jumps over the first page table to the page. -/
theorem deallocuvm_exact_jump :
    deallocuvm holedDirectory 0x400001 1 = plainDeallocuvm holedDirectory 0x400001 1 ∧
      (outcome (deallocuvm holedDirectory 0x400001 1)
        { freelist := [], first := 0x400000, refusals := [] }).any (fun (_, after) =>
          decide (after.freelist = [0x402000])) = true :=
  ⟨(deallocuvm_exact holedDirectory 0x400001 1 (by decide) (by decide)).1, by decide +kernel⟩

end Xv6.Memory
