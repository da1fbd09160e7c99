import Xv6.Buffers.Cache

/-!
# The array that the cache refines

`FlatArray` has the values of the blocks and the block each user asked for; it knows
nothing of buffers, the disk or the log. Every step of the cache is a step of the
array, and a user that holds a buffer sees the array at the block it asked for.
-/

namespace Xv6

/-- An array of blocks with users that work on one block each. -/
structure FlatArray (User Data : Type) where
  block : Blocks Data
  asked : User → Option (Nat × Nat)

namespace FlatArray

variable {User Data : Type} [DecidableEq User]

def start (disk : Blocks Data) : FlatArray User Data := { block := disk, asked := fun _ => none }

/-- Only `modify` and `memmove` give a block a value. -/
def step (flat : FlatArray User Data) : BufAction User Data → FlatArray User Data
  | .bget user dev blockno =>
    { flat with asked := Function.update flat.asked user (some (dev, blockno)) }
  | .modify user change =>
    match flat.asked user with
    | some (dev, blockno) =>
      { flat with block := flat.block.set dev blockno (change (flat.block dev blockno)) }
    | none => flat
  | .memmove target source =>
    match flat.asked target, flat.asked source with
    | some (dev, blockno), some (dev', blockno') =>
      { flat with block := flat.block.set dev blockno (flat.block dev' blockno') }
    | _, _ => flat
  | .releasesleep user => { flat with asked := Function.update flat.asked user none }
  | _ => flat

end FlatArray

/-- What the users of the cache see. -/
def BufSystem.flat {User Data : Type} (system : BufSystem User Data) : FlatArray User Data :=
  { block := system.given, asked := fun user => (system.stage user).asked.map Prod.snd }

namespace Buffers

open Transition Function Option BufSystem

variable {User Data : Type} [Fintype User] [DecidableEq User] {system next : BufSystem User Data}
  {user : User} {b : BufPtr} {dev blockno : Nat} {modified : Bool} {action : BufAction User Data}

/-- The steps of the cache. -/
abbrev Works (system : BufSystem User Data) (action : BufAction User Data)
    (next : BufSystem User Data) : Prop :=
  system.step action = some next

omit [Fintype User] in
/-- A stage changes what its user asked for and nothing else. -/
theorem asked_update (stage : User → BufStage) (user : User) (stage' : BufStage) :
    (fun other => (update stage user stage' other).asked.map Prod.snd) =
      update (fun other => (stage other).asked.map Prod.snd) user
        (stage'.asked.map Prod.snd) := by
  ext1 other
  by_cases self : other = user
  · rw [self, update_self, update_self]
  · rw [update_of_ne self, update_of_ne self]

omit [Fintype User] in
theorem asked_same (stage : User → BufStage) {user : User} {stage' : BufStage}
    (same : stage'.asked = (stage user).asked) :
    (fun other => (update stage user stage' other).asked.map Prod.snd) =
      fun other => (stage other).asked.map Prod.snd := by
  rw [asked_update, same]
  exact update_eq_self ..

omit [DecidableEq User] in
/-- A holder sees the last value of the block it asked for. -/
theorem Coherent.sees (coherent : Coherent system)
    (holds : system.stage user = .holding b dev blockno modified) :
    (system.cache.buf b).dev = dev ∧ (system.cache.buf b).blockno = blockno ∧
      (system.cache.buf b).data = system.flat.block dev blockno ∧
      system.flat.asked user = some (dev, blockno) := by
  have asked : (system.stage user).asked = some (b, dev, blockno) := by rw [holds]; rfl
  obtain ⟨device, rfl, rfl⟩ := coherent.asked user b dev blockno asked
  have valid := coherent.valid user b _ _ modified holds
  refine ⟨rfl, rfl, coherent.data b device valid, ?_⟩
  change (system.stage user).asked.map Prod.snd = _
  rw [asked]
  rfl

omit [Fintype User] in
/-- Writing a held buffer writes the array. -/
theorem flat_write (holds : system.stage user = .holding b dev blockno modified) (data : Data) :
    (system.write user b dev blockno data).flat =
      { system.flat with block := system.flat.block.set dev blockno data } := by
  unfold flat write
  dsimp only
  rw [asked_same system.stage (by rw [holds]; rfl)]

/-- Every step of the cache is a step of the array. -/
theorem Coherent.flat_step (coherent : Coherent system) (works : Works system action next) :
    next.flat = system.flat.step action := by
  cases action with
  | bget user dev blockno =>
    simp only [Works, BufSystem.step] at works
    split at works
    case isFalse => cases works
    obtain ⟨⟨b, cache⟩, found, rfl⟩ := map_eq_some_iff.mp works
    exact congrArg (FlatArray.mk system.given) (asked_update ..)
  | acquiresleep user =>
    simp only [Works, BufSystem.step] at works
    split at works
    case h_2 => cases works
    rename_i waits
    split at works
    case isFalse => cases works
    cases works
    exact congrArg (FlatArray.mk system.given) (asked_same _ (by rw [waits]; rfl))
  | fill user =>
    simp only [Works, BufSystem.step] at works
    split at works
    case h_2 => cases works
    rename_i locked
    split at works
    all_goals
      cases works
      exact congrArg (FlatArray.mk system.given) (asked_same _ (by rw [locked]; rfl))
  | modify user change =>
    simp only [Works, BufSystem.step] at works
    split at works
    case h_2 => cases works
    rename_i holds
    cases works
    obtain ⟨-, -, data, asked⟩ := coherent.sees holds
    rw [flat_write holds, data]
    simp only [FlatArray.step, asked]
  | memmove target source =>
    simp only [Works, BufSystem.step] at works
    split at works
    case h_2 => cases works
    rename_i holds holds'
    cases works
    obtain ⟨-, -, -, asked⟩ := coherent.sees holds
    obtain ⟨-, -, data, asked'⟩ := coherent.sees holds'
    rw [flat_write holds, data]
    simp only [FlatArray.step, asked, asked']
  | logWrite user =>
    simp only [Works, BufSystem.step] at works
    split at works
    case h_2 => cases works
    rename_i holds
    split at works
    case isFalse => cases works
    cases works
    exact congrArg (FlatArray.mk system.given) (asked_same _ (by rw [holds]; rfl))
  | bwrite user =>
    simp only [Works, BufSystem.step] at works
    split at works
    case h_2 => cases works
    rename_i holds
    cases works
    exact congrArg (FlatArray.mk system.given) (asked_same _ (by rw [holds]; rfl))
  | releasesleep user =>
    simp only [Works, BufSystem.step] at works
    split at works
    case h_2 => cases works
    cases works
    exact congrArg (FlatArray.mk system.given) (asked_update ..)
  | brelse user =>
    simp only [Works, BufSystem.step] at works
    split at works
    case h_2 => cases works
    rename_i releases
    cases works
    exact congrArg (FlatArray.mk system.given) (asked_same _ (by rw [releases]; rfl))
  | emptyLog =>
    cases works
    rfl

/-- A run of the cache is a run of the array. -/
theorem flat_of_run {zero : Data} {disk : Blocks Data} {actions : List (BufAction User Data)}
    (run : Steps Works (.start zero disk) actions system) :
    Coherent system ∧ system.flat = actions.foldl FlatArray.step (.start disk) := by
  induction run with
  | refl => exact ⟨coherent_start zero disk, rfl⟩
  | step _ works ih =>
    obtain ⟨coherent, flat_eq⟩ := ih
    constructor
    · exact coherent.step works
    · rw [coherent.flat_step works, flat_eq, List.foldl_append]
      rfl

omit [Fintype User] [DecidableEq User] in
theorem place_update {cache : Bcache User Data} {change : Buf User Data → Buf User Data}
    (same : (change (cache.buf b)).dev = (cache.buf b).dev ∧
      (change (cache.buf b)).blockno = (cache.buf b).blockno) (c : BufPtr) :
    ((cache.update b change).buf c).dev = (cache.buf c).dev ∧
      ((cache.update b change).buf c).blockno = (cache.buf c).blockno := by
  rw [buf_update]
  split
  · rename_i here
    rw [here]
    exact same
  · exact ⟨rfl, rfl⟩

omit [Fintype User] in
/-- A buffer keeps its block unless it is clean and `bget` recycles it. -/
theorem place_of_step (works : Works system action next) {c : BufPtr}
    (dirty : (system.cache.buf c).dirty = true) :
    (next.cache.buf c).dev = (system.cache.buf c).dev ∧
      (next.cache.buf c).blockno = (system.cache.buf c).blockno := by
  cases action with
  | bget user dev blockno =>
    simp only [Works, step, setStage] at works
    split at works
    case isFalse => cases works
    obtain ⟨⟨b, cache⟩, found, rfl⟩ := map_eq_some_iff.mp works
    unfold Bcache.bget at found
    split at found
    · cases found
      dsimp only
      apply place_update
      exact ⟨rfl, rfl⟩
    · obtain ⟨b', unused, recycled⟩ := map_eq_some_iff.mp found
      cases recycled
      have other : c ≠ b := by
        rintro rfl
        rw [(unused_spec unused).2] at dirty
        cases dirty
      dsimp only
      rw [buf_update, if_neg other]
      exact ⟨rfl, rfl⟩
  | acquiresleep _ | logWrite _ =>
    simp only [Works, step, setStage] at works
    split at works
    case h_2 => cases works
    split at works
    case isFalse => cases works
    cases works
    dsimp only
    apply place_update
    exact ⟨rfl, rfl⟩
  | fill user =>
    simp only [Works, step, setStage] at works
    split at works
    case h_2 => cases works
    split at works
    · cases works
      exact ⟨rfl, rfl⟩
    · cases works
      dsimp only
      apply place_update
      unfold iderw
      split <;> exact ⟨rfl, rfl⟩
  | modify _ _ | memmove _ _ | bwrite _ | releasesleep _ =>
    simp only [Works, step, setStage, write] at works
    split at works
    case h_2 => cases works
    cases works
    dsimp only
    apply place_update
    exact ⟨rfl, rfl⟩
  | brelse user =>
    simp only [Works, step, setStage] at works
    split at works
    case h_2 => cases works
    rename_i b _
    cases works
    dsimp only
    rw [brelse_buf]
    apply place_update
    exact ⟨rfl, rfl⟩
  | emptyLog =>
    cases works
    exact ⟨rfl, rfl⟩

/-- The cache refines the array, one buffer per block, with every buffer in the list once
and no dirty buffer recycled. -/
theorem bufferCache_refines {zero : Data} {disk : Blocks Data}
    {actions : List (BufAction User Data)} (run : Steps Works (.start zero disk) actions system) :
    (∀ user b dev blockno modified, system.stage user = .holding b dev blockno modified →
      (system.cache.buf b).dev = dev ∧ (system.cache.buf b).blockno = blockno ∧
        (system.cache.buf b).data =
          (actions.foldl FlatArray.step (.start disk)).block dev blockno) ∧
    (∀ b b', 1 ≤ (system.cache.buf b).dev →
      (system.cache.buf b').dev = (system.cache.buf b).dev →
      (system.cache.buf b').blockno = (system.cache.buf b).blockno → b' = b) ∧
    (system.cache.forward.Nodup ∧ (∀ b, b ∈ system.cache.forward) ∧
      system.cache.backward = system.cache.forward.reverse) ∧
    ∀ action next, system.step action = some next → ∀ b, (system.cache.buf b).dirty = true →
      (next.cache.buf b).dev = (system.cache.buf b).dev ∧
        (next.cache.buf b).blockno = (system.cache.buf b).blockno := by
  obtain ⟨coherent, flat_eq⟩ := flat_of_run run
  refine ⟨?_, coherent.unique, coherent.walks, ?_⟩
  · intro user b dev blockno modified holds
    obtain ⟨dev_eq, blockno_eq, data, -⟩ := coherent.sees holds
    rw [flat_eq] at data
    exact ⟨dev_eq, blockno_eq, data⟩
  · intro action next works b dirty
    exact place_of_step works dirty

/-- One user logs an update of a block, the log commits it, and another user reads it. -/
def loggedUpdate : List (BufAction Bool Nat) :=
  BufAction.bread false 1 5 ++ [.modify false (· + 7), .logWrite false] ++
    BufAction.release false ++ BufAction.commit true false 1 2 (fun lh _ => lh.length) [5] ++
    BufAction.bread true 1 5

theorem bufferCache_refines_loggedUpdate : ∃ system : BufSystem Bool Nat,
    Steps Works (.start 0 fun _ _ => 0) loggedUpdate system ∧
      ∃ b, system.stage true = .holding b 1 5 false ∧ system.disk 1 5 = 7 ∧
        (system.cache.buf b).data = 7 := by
  have evaluated : (follow step (fun _ _ => True) (.start 0 fun _ _ => 0)
      loggedUpdate).any (fun system =>
        (∃ b, system.stage true = .holding b 1 5 false) ∧ system.disk 1 5 = 7) = true := by
    decide +kernel
  have array : (loggedUpdate.foldl FlatArray.step (.start fun _ _ => 0)).block 1 5 = 7 := by
    decide +kernel
  obtain ⟨reached, outcome⟩ := (any_eq_true_iff_get _ _).mp evaluated
  obtain ⟨⟨b, holds⟩, disk⟩ := of_decide_eq_true outcome
  have run : Steps Works (.start 0 fun _ _ => 0) loggedUpdate _ :=
    (Steps.of_follow (some_get reached).symm).unguarded
  have seen := (bufferCache_refines run).1 true b 1 5 false holds
  exact ⟨_, run, b, holds, disk, seen.2.2.trans array⟩

end Buffers

end Xv6
