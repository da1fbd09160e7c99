import Xv6.Kernel.Console
import Xv6.Semantics.Transition

/-!
# The line discipline of the console

The ring is a text of at most `INPUT_BUF` bytes, of which a first part is ready to be
read. Keys add to the end of the text, or take from its end down to the ready part;
a commit makes all of it ready. Reads take from the front of the ready part. So what
was committed is what was taken, in the same order, and then what is still ready.
-/

namespace Xv6

open Transition Function Option
open List hiding count

namespace ConsoleInput

/-- The number of bytes that are ready. -/
def ready (input : ConsoleInput) : Nat := (input.w - input.r).toNat

/-- The number of bytes in the ring. -/
def count (input : ConsoleInput) : Nat := (input.e - input.r).toNat

/-- All bytes in the ring, oldest first. -/
def text (input : ConsoleInput) : List Byte :=
  Ring.contents INPUT_BUF input.buf input.r.toNat input.count

/-- The bytes that are ready. -/
def waiting (input : ConsoleInput) : List Byte :=
  Ring.contents INPUT_BUF input.buf input.r.toNat input.ready

/-- `r <= w <= e <= r + INPUT_BUF`, as distances. -/
structure Ordered (input : ConsoleInput) : Prop where
  ready_le : input.ready ≤ input.count
  count_le : input.count ≤ INPUT_BUF

end ConsoleInput

namespace Console

variable {input : ConsoleInput}

open ConsoleInput

@[simp] theorem length_text (input : ConsoleInput) : input.text.length = input.count :=
  Ring.length_contents

theorem waiting_eq (ordered : Ordered input) : input.waiting = input.text.take input.ready :=
  Ring.contents_take ordered.ready_le

/-! ## Indices -/

theorem divides_range : INPUT_BUF ∣ 2 ^ 32 := by
  change 128 ∣ 2 ^ 32
  decide

/-- Without an edit both distances are the same. -/
theorem ready_lt_count (ordered : Ordered input) (apart : input.e ≠ input.w) :
    input.ready < input.count := by
  have := input.r.toNat_lt
  have := input.w.toNat_lt
  have := input.e.toNat_lt
  have ready_le := ordered.ready_le
  unfold count ready at ready_le ⊢
  rw [Ne, ← UInt32.toNat_inj] at apart
  rw [UInt32.toNat_sub, UInt32.toNat_sub] at ready_le ⊢
  omega

/-- What can be edited lies behind the ready part. -/
theorem w_mod (input : ConsoleInput) :
    input.w.toNat % INPUT_BUF = (input.r.toNat + input.ready) % INPUT_BUF :=
  Ring.residue_back divides_range

/-! ## Keys -/

/-- What a key does: the ready part stays and may grow. -/
structure Pressed (before after : ConsoleInput) : Prop where
  ordered : Ordered after
  r_eq : after.r = before.r
  ready_le : before.ready ≤ after.ready
  kept : after.text.take before.ready = before.text.take before.ready

theorem Pressed.refl (ordered : Ordered input) : Pressed input input :=
  ⟨ordered, rfl, le_rfl, rfl⟩

theorem Pressed.trans {before middle after : ConsoleInput} (first : Pressed before middle)
    (second : Pressed middle after) : Pressed before after where
  ordered := second.ordered
  r_eq := second.r_eq.trans first.r_eq
  ready_le := first.ready_le.trans second.ready_le
  kept := by
    have kept := congrArg (take before.ready) second.kept
    rw [take_take, take_take, Nat.min_eq_left first.ready_le] at kept
    exact kept.trans first.kept

/-- `e` comes down by one, but not below `w`. -/
theorem pressed_back (ordered : Ordered input) (apart : input.e ≠ input.w) :
    Pressed input { input with e := input.e - 1 } ∧
      ({ input with e := input.e - 1 } : ConsoleInput).w = input.w := by
  have less := ready_lt_count ordered apart
  have count_eq : ({ input with e := input.e - 1 } : ConsoleInput).count = input.count - 1 := by
    have nonempty : input.r ≠ input.e := by
      intro same
      exact Nat.ne_zero_of_lt less (Ring.distance_eq_zero.mpr same)
    exact Nat.eq_sub_of_add_eq (Ring.distance_retract nonempty).symm
  refine ⟨⟨⟨?_, ?_⟩, rfl, le_rfl, ?_⟩, rfl⟩
  · rw [count_eq]
    exact Nat.le_sub_one_of_lt less
  · rw [count_eq]
    exact (Nat.sub_le _ _).trans ordered.count_le
  · have shorter : ({ input with e := input.e - 1 } : ConsoleInput).text =
        input.text.take (input.count - 1) := by
      unfold text
      rw [count_eq]
      exact Ring.contents_take (Nat.sub_le _ _)
    rw [shorter, take_take, Nat.min_eq_left (Nat.le_sub_one_of_lt less)]

theorem pressed_backspace (ordered : Ordered input) :
    Pressed input input.backspace ∧ input.backspace.w = input.w := by
  unfold backspace
  split
  · rename_i apart
    exact pressed_back ordered apart
  · exact ⟨.refl ordered, rfl⟩

theorem pressed_killLineFrom (turns : Nat) {input : ConsoleInput} (ordered : Ordered input) :
    Pressed input (killLineFrom turns input) ∧ (killLineFrom turns input).w = input.w := by
  induction turns generalizing input with
  | zero => exact ⟨.refl ordered, rfl⟩
  | succ turns ih =>
    unfold killLineFrom
    split
    · rename_i more
      have first := pressed_back ordered more.1
      have rest := ih first.1.ordered
      exact ⟨first.1.trans rest.1, rest.2⟩
    · exact ⟨.refl ordered, rfl⟩

section

variable (ordered : Ordered input)

include ordered

/-- A byte at the end of a text that is not full. -/
theorem pressed_store (room : input.count < INPUT_BUF) (c : Nat) :
    Pressed input (input.store c) ∧ (input.store c).count = input.count + 1 := by
  have count_eq : (input.store c).count = input.count + 1 := by
    apply Ring.distance_extend
    change input.count < 128 at room
    exact (Nat.succ_le_of_lt room).trans_lt (by decide)
  have text_eq : (input.store c).text = input.text ++ [UInt8.ofNat c] := by
    unfold text
    rw [count_eq]
    unfold store
    rw [show input.e.toNat % INPUT_BUF = (input.r.toNat + input.count) % INPUT_BUF from
      Ring.residue_back divides_range]
    exact Ring.contents_push room _
  refine ⟨⟨⟨?_, ?_⟩, rfl, le_rfl, ?_⟩, count_eq⟩
  · rw [count_eq]
    exact ordered.ready_le.trans (Nat.le_succ _)
  · rw [count_eq]
    exact room
  · rw [text_eq, take_append_of_le_length]
    rw [length_text]
    exact ordered.ready_le

/-- A commit makes the whole text ready. -/
theorem pressed_commit : Pressed input { input with w := input.e } where
  ordered := ⟨le_rfl, ordered.count_le⟩
  r_eq := rfl
  ready_le := ordered.ready_le
  kept := rfl

theorem pressed_enter (key : Nat) : Pressed input (input.enter key) := by
  unfold enter
  split
  · rename_i room
    dsimp only
    generalize (if key = carriageReturn then lineFeed else key) = c
    have stored := (pressed_store ordered room.2 c).1
    split
    · exact stored.trans (pressed_commit stored.ordered)
    · exact stored
  · exact .refl ordered

theorem pressed_press (key : Nat) : Pressed input (input.press key) := by
  unfold press
  split
  · exact .refl ordered
  · split
    · exact (pressed_killLineFrom _ ordered).1
    · split
      · exact (pressed_backspace ordered).1
      · exact pressed_enter ordered key

/-- Backspace and `^U` leave `r`, `w` and the bytes between them. -/
theorem erase_keeps {key : Nat} (erases : key = ctrlH ∨ key = rubout ∨ key = ctrlU) :
    (input.press key).w = input.w ∧ (input.press key).waiting = input.waiting := by
  have pressed := pressed_press ordered key
  have w_eq : (input.press key).w = input.w := by
    rcases erases with rfl | rfl | rfl
    · exact (pressed_backspace ordered).2
    · exact (pressed_backspace ordered).2
    · exact (pressed_killLineFrom _ ordered).2
  have ready_eq : (input.press key).ready = input.ready := by
    unfold ready
    rw [w_eq, pressed.r_eq]
  refine ⟨w_eq, ?_⟩
  rw [waiting_eq pressed.ordered, ready_eq, pressed.kept, waiting_eq ordered]

end

/-- What lies between the old `w` and the new one is what became ready. -/
theorem Pressed.committed {before after : ConsoleInput} (pressed : Pressed before after)
    (ordered : Ordered before) :
    before.waiting ++
      Ring.contents INPUT_BUF after.buf before.w.toNat (after.w - before.w).toNat =
        after.waiting := by
  have grown : (after.w - before.w).toNat = after.ready - before.ready := by
    have := before.r.toNat_lt
    have := before.w.toNat_lt
    have := after.w.toNat_lt
    have ready_le := pressed.ready_le
    unfold ready at ready_le ⊢
    rw [pressed.r_eq] at ready_le ⊢
    rw [UInt32.toNat_sub, UInt32.toNat_sub] at ready_le ⊢
    rw [UInt32.toNat_sub]
    omega
  have later : Ring.contents INPUT_BUF after.buf before.w.toNat (after.w - before.w).toNat =
      after.waiting.drop before.ready := by
    rw [grown, Ring.contents_congr (w_mod before), Ring.contents_drop pressed.ready_le]
    unfold waiting
    rw [pressed.r_eq]
  have earlier : before.waiting = after.waiting.take before.ready := by
    rw [waiting_eq pressed.ordered, take_take, Nat.min_eq_left pressed.ready_le, pressed.kept,
      waiting_eq ordered]
  rw [later, earlier, take_append_drop]

/-! ## Reads -/

/-- Taking the front byte of the ready part. -/
theorem waiting_advance (some : input.r ≠ input.w) (ordered : Ordered input) :
    Ordered { input with r := input.r + 1 } ∧
      input.waiting = input.front :: ({ input with r := input.r + 1 } : ConsoleInput).waiting := by
  obtain ⟨ready_le, count_le⟩ := ordered
  have ready_eq : input.ready = ({ input with r := input.r + 1 } : ConsoleInput).ready + 1 :=
    Ring.distance_advance some
  have count_eq : input.count = ({ input with r := input.r + 1 } : ConsoleInput).count + 1 := by
    apply Ring.distance_advance
    intro same
    have empty : input.count = 0 := Ring.distance_eq_zero.mpr same
    omega
  refine ⟨⟨by omega, by omega⟩, ?_⟩
  unfold waiting
  rw [ready_eq, Ring.contents_pop, ← Ring.contents_congr (Ring.residue_advance divides_range)]
  rfl

/-- A `^D` as the marker of an end of file in the record. -/
def marker (eof : Bool) : List Byte := if eof then [UInt8.ofNat ctrlD] else []

/-- What a segment of `consoleread` does with `n` bytes still to read of `target`. -/
structure Reads (target n : Nat) (input : ConsoleInput) (segment : ConsoleSegment) : Prop where
  ordered : Ordered segment.input
  taken : input.waiting = segment.copied ++ marker segment.eof ++ segment.input.waiting
  plain : UInt8.ofNat ctrlD ∉ segment.copied
  line : UInt8.ofNat lineFeed ∉ segment.copied.dropLast
  bounded : segment.copied.length ≤ n
  /-- A `^D` is taken only by a call that has read nothing, and ends it. -/
  eof : segment.eof = true → segment.copied = [] ∧ n = target ∧ segment.outcome = .returned 0
  returned : ∀ result, segment.outcome = .returned result →
    result = -1 ∨ result = target - n + segment.copied.length ∧
      (result = 0 → target = 0 ∨ segment.eof = true)
  asleep : ∀ left, segment.outcome = .asleep left → segment.eof = false ∧
    UInt8.ofNat lineFeed ∉ segment.copied ∧ left + segment.copied.length = n

theorem reads_consoleread (killed : Bool) (target n : Nat) (le : n ≤ target) {input : ConsoleInput}
    (ordered : Ordered input) : Reads target n input (consoleread killed target n input) := by
  induction n generalizing input with
  | zero =>
    constructor
    · exact ordered
    · rfl
    · exact not_mem_nil
    · exact not_mem_nil
    · exact le_rfl
    · intro eof
      cases eof
    · intro result returned
      cases returned
      refine .inr ⟨by simp [consoleread], fun zero => .inl ?_⟩
      exact Int.ofNat_eq_zero.mp zero
    · intro left asleep
      cases asleep
  | succ n ih =>
    by_cases empty : input.r = input.w
    · -- Nothing is ready.
      unfold consoleread
      rw [if_pos empty]
      cases killed with
      | true =>
        refine ⟨ordered, rfl, not_mem_nil, not_mem_nil, Nat.zero_le _, (nomatch ·),
          ?_, fun left asleep => (nomatch asleep)⟩
        intro result returned
        exact .inl (ConsoleOutcome.returned.inj returned).symm
      | false =>
        refine ⟨ordered, rfl, not_mem_nil, not_mem_nil, Nat.zero_le _, (nomatch ·),
          fun result returned => (nomatch returned), ?_⟩
        intro left asleep
        exact ⟨rfl, not_mem_nil, (ConsoleOutcome.asleep.inj asleep).symm⟩
    · obtain ⟨ordered', waiting_eq⟩ := waiting_advance empty ordered
      unfold consoleread
      rw [if_neg empty]
      dsimp only
      by_cases control : input.front = UInt8.ofNat ctrlD
      · rw [if_pos control]
        by_cases more : n + 1 < target
        · -- The call has bytes already: the `^D` stays.
          rw [if_pos more]
          have same : ({ input with r := input.r + 1 - 1 } : ConsoleInput) = input := by
            rw [UInt32.add_sub_cancel]
          rw [same]
          refine ⟨ordered, rfl, not_mem_nil, not_mem_nil, Nat.zero_le _, (nomatch ·),
            ?_, fun left asleep => (nomatch asleep)⟩
          intro result returned
          cases returned
          refine .inr ⟨by simp, fun zero => ?_⟩
          omega
        · rw [if_neg more]
          have all : n + 1 = target := by omega
          refine ⟨ordered', ?_, not_mem_nil, not_mem_nil, Nat.zero_le _, ?_, ?_,
            fun left asleep => (nomatch asleep)⟩
          · rw [waiting_eq, control]
            rfl
          · intro _
            refine ⟨rfl, all, ?_⟩
            rw [← all]
            simp
          · intro result returned
            cases returned
            exact .inr ⟨by simp, fun _ => .inr rfl⟩
      · rw [if_neg control]
        by_cases ends : input.front = UInt8.ofNat lineFeed
        · rw [if_pos ends]
          refine ⟨ordered', ?_, ?_, not_mem_nil, by simp, (nomatch ·), ?_,
            fun left asleep => (nomatch asleep)⟩
          · rw [waiting_eq]
            rfl
          · exact fun member => control (mem_singleton.mp member).symm
          · intro result returned
            cases returned
            refine .inr ⟨by simp; omega, fun zero => ?_⟩
            omega
        · rw [if_neg ends]
          have rest := ih (by omega) ordered'
          refine ⟨rest.ordered, ?_, ?_, ?_, ?_, ?_, ?_, ?_⟩
          · rw [waiting_eq, rest.taken]
            rfl
          · intro member
            rcases mem_cons.mp member with here | later
            · exact control here.symm
            · exact rest.plain later
          · cases copied : (consoleread killed target n { input with r := input.r + 1 }).copied with
            | nil => exact not_mem_nil
            | cons c cs =>
              have line := rest.line
              rw [copied] at line
              intro member
              rcases mem_cons.mp member with here | later
              · exact ends here.symm
              · exact line later
          · exact Nat.succ_le_succ rest.bounded
          · intro eof
            have n_eq := (rest.eof eof).2.1
            omega
          · intro result returned
            rcases rest.returned result returned with killed | ⟨result_eq, _⟩
            · exact .inl killed
            · refine .inr ⟨?_, fun zero => ?_⟩
              · rw [result_eq, length_cons]
                omega
              · omega
          · intro left asleep
            obtain ⟨eof, unended, length_eq⟩ := rest.asleep left asleep
            refine ⟨eof, ?_, ?_⟩
            · intro member
              rcases mem_cons.mp member with here | later
              · exact ends here.symm
              · exact unended later
            · rw [length_cons]
              omega

/-! ## Runs -/

variable {Process : Type} [DecidableEq Process]

/-- What a process took, according to the calls that returned and to its own call that
sleeps: the bytes they copied, and the `^D` of those that ended with one. -/
def takenBy (p : Process) (finished : List (ConsoleRead Process)) (pending : Option ConsoleCall) :
    List Byte :=
  ((finished.filter fun read => read.process = p).flatMap fun read =>
    read.copied ++ marker read.eof) ++ pending.elim [] ConsoleCall.copied

/-- How a call ends: after one newline at most, and with 0 only if it took a `^D`, or if
nothing was asked for. A `^D` ends a call that has no bytes. -/
structure WellEnded (read : ConsoleRead Process) : Prop where
  plain : UInt8.ofNat ctrlD ∉ read.copied
  line : UInt8.ofNat lineFeed ∉ read.copied.dropLast
  bounded : read.copied.length ≤ read.size.toNat
  result : read.result = -1 ∨ read.result = read.copied.length
  eof : read.eof = true → read.copied = [] ∧ read.result = 0
  zero : read.result = 0 → read.size ≤ 0 ∨ read.eof = true

/-- A call that sleeps has not seen the end of a line. -/
structure Partway (call : ConsoleCall) : Prop where
  plain : UInt8.ofNat ctrlD ∉ call.copied
  line : UInt8.ofNat lineFeed ∉ call.copied
  length : call.left + call.copied.length = call.size.toNat

structure Disciplined (system : ConsoleSystem Process) : Prop where
  ordered : Ordered system.input
  committed : system.consumed.map Prod.snd ++ system.input.waiting = system.committed
  pending : ∀ p call, system.pending p = some call → Partway call
  finished : ∀ read ∈ system.finished, WellEnded read
  taken : ∀ p, (system.consumed.filter fun entry => entry.1 = p).map Prod.snd =
    takenBy p system.finished (system.pending p)

variable {system next : ConsoleSystem Process}

theorem Disciplined.press (disciplined : Disciplined system) (key : Nat) :
    Disciplined (system.press key) where
  ordered := (pressed_press disciplined.ordered key).ordered
  committed := by
    change system.consumed.map Prod.snd ++ (system.input.press key).waiting = system.committed ++ _
    rw [← (pressed_press disciplined.ordered key).committed disciplined.ordered,
      ← append_assoc, disciplined.committed]
  pending := disciplined.pending
  finished := disciplined.finished
  taken := disciplined.taken

theorem Disciplined.interrupt (disciplined : Disciplined system) (keys : List Nat) :
    Disciplined (keys.foldl ConsoleSystem.press system) := by
  induction keys generalizing system with
  | nil => exact disciplined
  | cons key keys ih => exact ih (disciplined.press key)

/-- What a segment takes for `p` is taken by `p` alone. -/
theorem filter_taken (p q : Process) (bytes : List Byte) :
    ((bytes.map (Prod.mk p)).filter fun entry => entry.1 = q).map Prod.snd =
      if p = q then bytes else [] := by
  by_cases same : p = q
  · rw [if_pos same, List.filter_eq_self.mpr, List.map_map]
    · exact map_id bytes
    · intro entry member
      obtain ⟨byte, _, rfl⟩ := mem_map.mp member
      exact decide_eq_true same
  · rw [if_neg same, filter_eq_nil_iff.mpr]
    · rfl
    · intro entry member
      obtain ⟨byte, _, rfl⟩ := mem_map.mp member
      exact decide_eq_true_iff.not.mpr same

/-- A segment of a call that has what it has. -/
theorem Disciplined.reading (disciplined : Disciplined system) {p : Process} {killed : Bool}
    {call : ConsoleCall} (partway : Partway call)
    (copied_eq : (system.pending p).elim [] ConsoleCall.copied = call.copied) :
    Disciplined (system.reading p killed call) := by
  have left_le : call.left ≤ call.size.toNat := by
    have := partway.length
    omega
  have reads := reads_consoleread killed call.size.toNat call.left left_le disciplined.ordered
  generalize segment_eq : ConsoleInput.consoleread killed call.size.toNat call.left system.input =
    segment at reads
  have plain : UInt8.ofNat ctrlD ∉ call.copied ++ segment.copied := by
    intro member
    exact (mem_append.mp member).elim partway.plain reads.plain
  have line : UInt8.ofNat lineFeed ∉ (call.copied ++ segment.copied).dropLast := by
    intro member
    by_cases none : segment.copied = []
    · rw [none, append_nil] at member
      exact partway.line (dropLast_subset _ member)
    · rw [dropLast_append_of_ne_nil none] at member
      exact (mem_append.mp member).elim partway.line reads.line
  have consumed : ((system.consumed ++ (segment.copied ++ marker segment.eof).map
      (Prod.mk p)).map Prod.snd) ++ segment.input.waiting = system.committed := by
    rw [List.map_append, List.map_map, List.append_assoc, ← disciplined.committed, reads.taken]
    congr 2
    exact map_id _
  have taken : ∀ q, ((system.consumed ++ (segment.copied ++ marker segment.eof).map
      (Prod.mk p)).filter fun entry => entry.1 = q).map Prod.snd =
        takenBy q system.finished (system.pending q) ++ if p = q then segment.copied ++ marker segment.eof else [] := by
    intro q
    rw [filter_append, map_append, disciplined.taken, filter_taken]
  unfold ConsoleSystem.reading
  rw [segment_eq]
  dsimp only
  cases outcome_eq : segment.outcome with
  | asleep left =>
    obtain ⟨eof, unended, length_eq⟩ := reads.asleep left outcome_eq
    refine ⟨reads.ordered, consumed, ?_, disciplined.finished, ?_⟩
    · refine (forall_update_iff _ fun _ (entry : Option ConsoleCall) =>
        ∀ call, entry = some call → Partway call).mpr ⟨?_, fun q _ => disciplined.pending q⟩
      intro call' call_eq
      cases call_eq
      refine ⟨plain, ?_, ?_⟩
      · intro member
        exact (mem_append.mp member).elim partway.line unended
      · change left + (call.copied ++ segment.copied).length = call.size.toNat
        rw [length_append]
        have := partway.length
        omega
    · intro q
      refine (taken q).trans ?_
      change _ = takenBy q system.finished (update system.pending p
        (some { call with left := left, copied := call.copied ++ segment.copied }) q)
      by_cases same : p = q
      · rw [← same, if_pos rfl, update_self, eof]
        unfold takenBy
        rw [copied_eq, append_assoc]
        simp [marker]
      · rw [if_neg same, update_of_ne (Ne.symm same), append_nil]
  | returned result =>
    refine ⟨reads.ordered, consumed, ?_, ?_, ?_⟩
    · refine (forall_update_iff _ fun _ (entry : Option ConsoleCall) =>
        ∀ call, entry = some call → Partway call).mpr
        ⟨fun _ absurdity => (nomatch absurdity), fun q _ => disciplined.pending q⟩
    · intro read member
      rcases mem_append.mp member with before | here
      · exact disciplined.finished read before
      · rw [mem_singleton.mp here]
        have result_eq := reads.returned result outcome_eq
        have length_eq := partway.length
        have bounded := reads.bounded
        refine ⟨plain, line, ?_, ?_, ?_, ?_⟩
        · change (call.copied ++ segment.copied).length ≤ call.size.toNat
          rw [length_append]
          omega
        · refine result_eq.imp id fun counted => ?_
          change result = ((call.copied ++ segment.copied).length : Int)
          rw [counted.1, length_append]
          omega
        · intro eof
          obtain ⟨nothing, whole, outcome_eq'⟩ := reads.eof eof
          rw [outcome_eq] at outcome_eq'
          cases outcome_eq'
          refine ⟨?_, rfl⟩
          have before : call.copied = [] := eq_nil_of_length_eq_zero (by omega)
          change call.copied ++ segment.copied = []
          rw [before, nothing]
          rfl
        · intro zero
          change result = 0 at zero
          rcases result_eq with killed | counted
          · omega
          · refine (counted.2 zero).imp ?_ id
            intro none
            change call.size ≤ 0
            omega
    · intro q
      refine (taken q).trans ?_
      change _ = takenBy q (system.finished ++ [⟨p, call.size, call.copied ++ segment.copied,
        segment.eof, result⟩]) (update system.pending p none q)
      by_cases same : p = q
      · rw [← same, if_pos rfl, update_self]
        unfold takenBy
        rw [copied_eq, filter_append, flatMap_append]
        simp [append_assoc]
      · rw [if_neg same, update_of_ne (Ne.symm same)]
        unfold takenBy
        rw [filter_append, flatMap_append]
        simp [same]

theorem Disciplined.step (disciplined : Disciplined system) {action : ConsoleAction Process}
    (step : system.step action = some next) : Disciplined next := by
  cases action with
  | interrupt keys =>
    cases step
    exact disciplined.interrupt keys
  | read p size killed =>
    unfold ConsoleSystem.step at step
    simp only [ite_none_right_eq_some, Option.some.injEq] at step
    obtain ⟨none, rfl⟩ := step
    apply disciplined.reading ⟨not_mem_nil, not_mem_nil, rfl⟩
    rw [none]
    rfl
  | resume p killed =>
    obtain ⟨call, pending, rfl⟩ := map_eq_some_iff.mp step
    apply disciplined.reading (disciplined.pending p call pending)
    rw [pending]
    rfl

theorem boot_count : ConsoleInput.boot.count = 0 ∧ ConsoleInput.boot.ready = 0 := by
  decide

theorem disciplined_start : Disciplined (ConsoleSystem.start : ConsoleSystem Process) where
  ordered := by
    refine ⟨?_, ?_⟩
    · change ConsoleInput.boot.ready ≤ ConsoleInput.boot.count
      rw [boot_count.1, boot_count.2]
    · change ConsoleInput.boot.count ≤ INPUT_BUF
      rw [boot_count.1]
      exact Nat.zero_le _
  committed := by
    change [] ++ ConsoleInput.boot.waiting = []
    unfold waiting
    rw [boot_count.2]
    rfl
  pending p call absurdity := nomatch absurdity
  finished read member := absurd member not_mem_nil
  taken p := rfl

/-- A call that starts at a `^D` takes it and returns 0. -/
theorem read_at_eof (system : ConsoleSystem Process) {p : Process} {size : Int} {killed : Bool}
    (idle : system.pending p = none) (positive : 0 < size) (some : system.input.r ≠ system.input.w)
    (control : system.input.front = UInt8.ofNat ctrlD) :
    ∃ next, system.step (.read p size killed) = Option.some next ∧
      next.finished = system.finished ++ [⟨p, size, [], true, 0⟩] := by
  obtain ⟨n, size_eq⟩ : ∃ n, size.toNat = n + 1 := ⟨size.toNat - 1, by omega⟩
  have segment : ConsoleInput.consoleread killed size.toNat size.toNat system.input =
      ⟨{ system.input with r := system.input.r + 1 }, [], true, .returned 0⟩ := by
    rw [size_eq]
    unfold ConsoleInput.consoleread
    rw [if_neg some, if_pos control, if_neg (lt_irrefl _)]
    simp
  refine ⟨_, if_pos idle, ?_⟩
  unfold ConsoleSystem.reading
  dsimp only
  rw [segment]
  rfl

/-- However interrupts with any keys and calls of `consoleread` of any size interleave,
also when the indices wrap around: `r`, `w`, `e` and `r + INPUT_BUF` stay in this order;
backspace and `^U` leave the bytes below `w`; the bytes taken from the ring are the
committed ones, in their order, up to those that are still ready; each process took what
its calls copied, and a `^D` for each call that ended at one; a call ends after one
newline at most, takes a `^D` only if it has no bytes, and then returns 0; and a call
that starts at a `^D` does so. -/
theorem console_lines {actions : List (ConsoleAction Process)}
    (run : Steps (fun system action next => ConsoleSystem.step system action = some next)
      ConsoleSystem.start actions system) :
    ((system.input.w - system.input.r).toNat ≤ (system.input.e - system.input.r).toNat ∧
      (system.input.e - system.input.r).toNat ≤ INPUT_BUF) ∧
    (∀ key, key = ctrlH ∨ key = rubout ∨ key = ctrlU →
      (system.input.press key).w = system.input.w ∧
        (system.input.press key).waiting = system.input.waiting) ∧
    system.consumed.map Prod.snd ++ system.input.waiting = system.committed ∧
    (∀ p, (system.consumed.filter fun entry => entry.1 = p).map Prod.snd =
      takenBy p system.finished (system.pending p)) ∧
    (∀ read ∈ system.finished, WellEnded read) ∧
    (∀ p size killed, system.pending p = none → 0 < size → system.input.r ≠ system.input.w →
      system.input.front = UInt8.ofNat ctrlD →
      ∃ next, system.step (.read p size killed) = some next ∧
        next.finished = system.finished ++ [⟨p, size, [], true, 0⟩]) := by
  have disciplined : Disciplined system := by
    apply run.invariant Disciplined disciplined_start
    intro system action next disciplined step
    exact disciplined.step step
  refine ⟨⟨disciplined.ordered.ready_le, disciplined.ordered.count_le⟩, ?_, disciplined.committed,
    disciplined.taken, disciplined.finished, ?_⟩
  · intro key erases
    exact erase_keeps disciplined.ordered erases
  · intro p size killed idle positive some control
    exact read_at_eof system idle positive some control

/-- A line with a correction, and a `^D` behind the start of another. -/
def typedLines : List (ConsoleAction (Fin 2)) :=
  [.read 0 10 false, .interrupt [104, 120, ctrlH, 105, carriageReturn], .resume 0 false,
    .interrupt [97, ctrlD], .read 1 10 false, .read 0 10 false]

theorem console_lines_typedLines : ∃ system : ConsoleSystem (Fin 2),
    Steps (fun system action next => ConsoleSystem.step system action = some next)
      ConsoleSystem.start typedLines system ∧
    system.finished = [⟨0, 10, [104, 105, 10], false, 3⟩, ⟨1, 10, [97], false, 1⟩,
      ⟨0, 10, [], true, 0⟩] ∧
    system.consumed.map Prod.snd ++ system.input.waiting = system.committed := by
  have evaluated : (follow ConsoleSystem.step (fun _ _ => True) ConsoleSystem.start
      typedLines).any (fun system => decide (system.finished =
        [⟨0, 10, [104, 105, 10], false, 3⟩, ⟨1, 10, [97], false, 1⟩, ⟨0, 10, [], true, 0⟩])) =
      true := by
    decide +kernel
  obtain ⟨reached, facts⟩ := (any_eq_true_iff_get _ _).mp evaluated
  have run := (Steps.of_follow (some_get reached).symm).unguarded
  exact ⟨_, run, of_decide_eq_true facts, (console_lines run).2.2.1⟩

end Console

end Xv6
