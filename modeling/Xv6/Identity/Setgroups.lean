import Xv6.Identity.Inheritance
import Xv6.Memory.Arguments

/-!
# What `setgroups` writes

The count comes from user memory and is not compared with anything, while `argptr`
checks two words of the array and `struct proc` has room for 32 groups. The call keeps
to the group list of its caller just when the count does not exceed the room and the
whole array is in the address space.
-/

namespace Xv6

/-- `sys_setgroups` with its arguments fetched from the caller. -/
def sysSetgroupsFrom (caller : Caller) : Kern Int :=
  match caller.argint 0, caller.argptr 1 8 with
  | .ok ngroups, .ok rgids =>
    sysSetgroups (ngroups.map fun n => n.toInt32.toInt) (rgids.map caller.array)
  | _, _ => throw .wild

namespace Identity

open Memory Program

variable {kernel : Kernel} {caller : Caller} {ngroups p : UInt32}

/-- The arguments of the call: the count and the array. -/
structure Fetched (caller : Caller) (ngroups p : UInt32) : Prop where
  ngroups : caller.argint 0 = .ok (some ngroups)
  rgids : caller.argptr 1 8 = .ok (some p)

/-- The first `count` elements of the array lie inside of the process. -/
def ReadsInside (caller : Caller) (p : UInt32) (count : Nat) : Prop :=
  ∀ i < count, Inside caller (p.toNat + 4 * i) 4

/-- The first `count` elements of the array, and `-1` in the rest of the list. -/
def groupsOf (caller : Caller) (p : UInt32) (count : Nat) (i : Fin 32) : UInt32 :=
  if (i : Nat) < count then caller.word (p + 4 * .ofNat i) else 0xffffffff

/-- Nothing is written but the group list of the caller, by the elements of the array that
are inside of the process. -/
def WritesGroups (kernel : Kernel) (caller : Caller) : Prop :=
  sysSetgroupsFrom caller kernel = .ok (-1) kernel ∨
    ∃ ngroups p, Fetched caller ngroups p ∧ ReadsInside caller p ngroups.toInt32.toInt.toNat ∧
      sysSetgroupsFrom caller kernel = .ok 0 (kernel.updateProc kernel.cur fun proc =>
        { proc with gids := groupsOf caller p ngroups.toInt32.toInt.toNat })

/-- The count is at most 32, and the array ends inside of the process. -/
def GroupsFit (caller : Caller) : Prop :=
  ∀ ngroups p, Fetched caller ngroups p →
    ngroups.toInt32.toInt ≤ 32 ∧ p.toNat + 4 * ngroups.toInt32.toInt.toNat ≤ caller.sz.toNat

/-- The elements of an array are next to each other. -/
theorem toNat_element (user : caller.sz.toNat ≤ KERNBASE) (below : p < caller.sz) {i : Nat}
    (room : i < 32) : (p + 4 * .ofNat i).toNat = p.toNat + 4 * i := by
  rw [UInt32.lt_iff_toNat_lt] at below
  rw [UInt32.toNat_add, UInt32.toNat_mul, UInt32.toNat_ofNat']
  change (p.toNat + 4 * (i % 2 ^ 32) % 2 ^ 32) % 2 ^ 32 = _
  simp only [KERNBASE] at user
  omega

theorem fits_iff (user : caller.sz.toNat ≤ KERNBASE) (below : p < caller.sz) {i : Nat}
    (room : i < 32) : Fits (caller.array p) i ↔ Inside caller (p.toNat + 4 * i) 4 := by
  unfold Fits Caller.array Inside
  dsimp only
  rw [toNat_element user below room]
  constructor
  · rintro ⟨_, found⟩
    by_contra outside
    rw [if_neg outside] at found
    cases found
  · intro inside
    rw [if_pos inside]
    exact ⟨room, rfl⟩

/-- All elements fit just when the list has room for them and the last is inside. -/
theorem all_fit_iff (user : caller.sz.toNat ≤ KERNBASE) (below : p < caller.sz) (count : Nat) :
    (∀ i < count, Fits (caller.array p) i) ↔
      count ≤ 32 ∧ p.toNat + 4 * count ≤ caller.sz.toNat := by
  constructor
  · intro fits
    have room : count ≤ 32 := by
      by_contra more
      exact absurd (fits 32 (by omega)).1 (lt_irrefl _)
    refine ⟨room, ?_⟩
    rcases Nat.eq_zero_or_pos count with none | some
    · rw [UInt32.lt_iff_toNat_lt] at below
      omega
    · have last := (fits_iff user below (by omega)).mp (fits (count - 1) (by omega))
      unfold Inside at last
      omega
  · rintro ⟨room, inside⟩ i earlier
    refine (fits_iff user below (by omega)).mpr ?_
    unfold Inside
    omega

theorem groupList_array {count : Int} (fits : ∀ i < count.toNat, Fits (caller.array p) i) :
    groupList count (caller.array p) = groupsOf caller p count.toNat := by
  funext i
  unfold groupList groupsOf
  split
  · rename_i below
    have found := (fits i below).2
    unfold Caller.array at found ⊢
    dsimp only at found ⊢
    split at found
    · rw [if_pos ‹_›]
      rfl
    · cases found
  · rfl

theorem Fetched.below (user : caller.sz.toNat ≤ KERNBASE) (fetched : Fetched caller ngroups p) :
    p < caller.sz := by
  obtain ⟨pointer, argptr_eq, accepted⟩ := argptr_spec user 1 8
  have pointer_eq := Except.ok.inj (argptr_eq.symm.trans fetched.rgids)
  exact ((accepted p).mp pointer_eq).2.2.2.1

theorem Fetched.call_eq (fetched : Fetched caller ngroups p) :
    sysSetgroupsFrom caller =
      sysSetgroups (some ngroups.toInt32.toInt) (some (caller.array p)) := by
  unfold sysSetgroupsFrom
  rw [fetched.ngroups, fetched.rgids]
  rfl

/-- Without one of its arguments the call does nothing. -/
theorem sysSetgroups_missing (root : kernel.myproc.uid = 0) {ngroups : Option Int}
    {rgids : Option (Nat → Option UInt32)} (missing : ngroups = none ∨ rgids = none) :
    sysSetgroups ngroups rgids kernel = .ok (-1) kernel := by
  have body : sysSetgroups ngroups rgids kernel = (if kernel.myproc.uid ≠ 0 then pure (-1)
      else pure (-1) : Kern Int) kernel := by
    rcases missing with rfl | rfl
    · rfl
    · cases ngroups <;> rfl
  rw [body, if_neg (not_not.mpr root)]
  rfl

theorem call_unfetched (user : caller.sz.toNat ≤ KERNBASE) (root : kernel.myproc.uid = 0)
    (unfetched : ∀ ngroups p, ¬Fetched caller ngroups p) :
    sysSetgroupsFrom caller kernel = .ok (-1) kernel := by
  obtain ⟨pointer, argptr, _⟩ := argptr_spec user 1 8
  have argint := argint_eq user 0
  unfold sysSetgroupsFrom
  rw [argptr, argint]
  refine sysSetgroups_missing root ?_
  split at argint
  · rename_i inside
    cases pointer with
    | none => exact .inr rfl
    | some p => exact absurd ⟨argint, argptr⟩ (unfetched (caller.word (caller.argAddr 0)) p)
  · exact .inl (by rw [if_neg ‹_›]; rfl)

/-- With its arguments, the call of root returns just when all elements fit. -/
theorem Fetched.call_iff (fetched : Fetched caller ngroups p) (root : kernel.myproc.uid = 0) :
    sysSetgroupsFrom caller kernel ≠ .ok (-1) kernel ∧
      (sysSetgroupsFrom caller kernel = .ok 0 (regrouped kernel
          (groupList ngroups.toInt32.toInt (caller.array p))) ↔
        ∀ i < ngroups.toInt32.toInt.toNat, Fits (caller.array p) i) := by
  have spec := sat_sysSetgroups_root root ngroups.toInt32.toInt (caller.array p)
  rw [fetched.call_eq]
  refine ⟨fun failed => ?_, fun run => (spec.ok run).1, fun fits => ?_⟩
  · exact absurd (spec.ok failed).2.1 (by decide)
  · cases run : sysSetgroups (some ngroups.toInt32.toInt) (some (caller.array p)) kernel with
    | ok result next =>
      obtain ⟨_, rfl, rfl⟩ := spec.ok run
      rfl
    | error fault next =>
      obtain ⟨i, below, misfit⟩ := spec.error run
      exact absurd (fits i below) misfit

/-- For every kernel, every caller with uid 0 and every memory of it: `setgroups` writes
only the group list of the caller, from elements inside of the process, or returns `-1` and
changes nothing, if and only if the count is at most 32 and the array ends inside of the
process. -/
theorem setgroups_writes_groups_iff (kernel : Kernel) (caller : Caller)
    (user : caller.sz.toNat ≤ KERNBASE) (root : kernel.myproc.uid = 0) :
    WritesGroups kernel caller ↔ GroupsFit caller := by
  by_cases fetch : ∃ ngroups p, Fetched caller ngroups p
  · obtain ⟨ngroups, p, fetched⟩ := fetch
    have unique : ∀ ngroups' p', Fetched caller ngroups' p' → ngroups' = ngroups ∧ p' = p := by
      intro ngroups' p' fetched'
      exact ⟨Option.some.inj (Except.ok.inj (fetched'.ngroups.symm.trans fetched.ngroups)),
        Option.some.inj (Except.ok.inj (fetched'.rgids.symm.trans fetched.rgids))⟩
    obtain ⟨proceeds, returns_iff⟩ := fetched.call_iff root
    rw [all_fit_iff user (fetched.below user)] at returns_iff
    have fit_iff : GroupsFit caller ↔ ngroups.toInt32.toInt.toNat ≤ 32 ∧
        p.toNat + 4 * ngroups.toInt32.toInt.toNat ≤ caller.sz.toNat := by
      constructor
      · intro fit
        have here := fit ngroups p fetched
        omega
      · intro here ngroups' p' fetched'
        obtain ⟨rfl, rfl⟩ := unique ngroups' p' fetched'
        omega
    rw [fit_iff]
    constructor
    · rintro (failed | ⟨ngroups', p', fetched', _, run⟩)
      · exact absurd failed proceeds
      · obtain ⟨rfl, rfl⟩ := unique ngroups' p' fetched'
        have spec := sat_sysSetgroups_root root ngroups'.toInt32.toInt (caller.array p')
        rw [fetched.call_eq] at run
        exact (all_fit_iff user (fetched.below user) _).mp (spec.ok run).1
    · intro fit
      refine .inr ⟨ngroups, p, fetched, fun i below => ?_, ?_⟩
      · unfold Inside
        omega
      · rw [returns_iff.mpr fit, groupList_array ((all_fit_iff user (fetched.below user) _).mpr fit)]
        rfl
  · rw [not_exists] at fetch
    have unfetched : ∀ ngroups p, ¬Fetched caller ngroups p := fun ngroups p fetched =>
      fetch ngroups ⟨p, fetched⟩
    exact iff_of_true (.inl (call_unfetched user root unfetched)) fun ngroups p fetched =>
      absurd fetched (unfetched ngroups p)

/-- A process of one page that passes a count and an array of zeros at address 16. -/
def groupsCaller (ngroups : Byte) : Caller :=
  { sz := 4096, esp := 0, memory := fun addr => if addr = 4 then ngroups else if addr = 8 then 16 else 0 }

/-- Init, on an empty disk. -/
def rootKernel : Kernel := Kernel.boot (.image 0o755 [] [] [])

/-- A count of 33 makes the call write behind the list. -/
theorem setgroups_overruns :
    (groupsCaller 33).sz.toNat ≤ KERNBASE ∧ rootKernel.myproc.uid = 0 ∧
      (∃ next, sysSetgroupsFrom (groupsCaller 33) rootKernel = .error .wild next) ∧
      ¬WritesGroups rootKernel (groupsCaller 33) := by
  have evaluated : raised (sysSetgroupsFrom (groupsCaller 33)) rootKernel = some .wild := by
    decide +kernel
  obtain ⟨next, stopped⟩ := raised_eq_some.mp evaluated
  refine ⟨by decide, rfl, ⟨next, stopped⟩, ?_⟩
  rintro (run | ⟨_, _, _, _, run⟩)
  · rw [stopped] at run
    cases run
  · rw [stopped] at run
    cases run

/-- Two groups are inside of everything. -/
theorem setgroups_writes_groups_iff_two : WritesGroups rootKernel (groupsCaller 2) := by
  refine (setgroups_writes_groups_iff rootKernel (groupsCaller 2) (by decide) rfl).mpr ?_
  have count : (groupsCaller 2).argint 0 = .ok (some 2) := by rfl
  have array : (groupsCaller 2).argptr 1 8 = .ok (some 16) := by rfl
  intro ngroups p fetched
  obtain rfl := Option.some.inj (Except.ok.inj (count.symm.trans fetched.ngroups))
  obtain rfl := Option.some.inj (Except.ok.inj (array.symm.trans fetched.rgids))
  decide

end Identity

end Xv6
