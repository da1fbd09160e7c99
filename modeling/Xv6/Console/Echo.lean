import Xv6.User.Prompts
import Xv6.Semantics.Transition
import Mathlib.Data.Fintype.Basic

/-!
# Echo during password entry

`echoswitch` only tells a process that the flag changed, not what it is. The flag
follows the prompts as long as one password is typed at a time and whoever types one
lives to the end of the line; otherwise it is inverted from then on.
-/

namespace Xv6.Console

open Transition Function Option

variable {Process : Type} [DecidableEq Process] {prompts next : Prompts Process} {p : Process}

/-- Echo is off just when somebody types a password. -/
def Quiet (prompts : Prompts Process) : Prop :=
  prompts.echodisabled ≠ 0 ↔ ∃ p, (prompts.point p).isTyping = true

/-- A prompt starts only when nobody types a password, and nobody dies typing one. -/
def Undisturbed (prompts : Prompts Process) : PromptAction Process → Prop
  | .proceed p _ => (∃ prompt, prompts.point p = .before prompt) →
      ∀ q, (prompts.point q).isTyping = false
  | .die p => (prompts.point p).isTyping = false
  | .getty _ | .passwd _ _ => True

instance (prompts : Prompts Process) (p : Process) :
    Decidable (∃ prompt, prompts.point p = .before prompt) :=
  match prompts.point p with
  | .before prompt => isTrue ⟨prompt, rfl⟩
  | .absent | .username | .typing _ | .after _ => isFalse fun ⟨_, before⟩ => nomatch before

instance [Fintype Process] (prompts : Prompts Process) (action : PromptAction Process) :
    Decidable (Undisturbed prompts action) :=
  match action with
  | .proceed p _ => inferInstanceAs (Decidable ((∃ prompt, prompts.point p = .before prompt) →
      ∀ q, (prompts.point q).isTyping = false))
  | .die p => inferInstanceAs (Decidable ((prompts.point p).isTyping = false))
  | .getty _ | .passwd _ _ => isTrue trivial

/-- One password at a time, and the flag follows. -/
structure Single (prompts : Prompts Process) : Prop where
  quiet : Quiet prompts
  single : ∀ p q, (prompts.point p).isTyping = true → (prompts.point q).isTyping = true → p = q

omit [DecidableEq Process] in
theorem echoswitch_ne_zero (prompts : Prompts Process) :
    prompts.echoswitch.echodisabled ≠ 0 ↔ prompts.echodisabled = 0 := by
  change (if prompts.echodisabled = 0 then (1 : UInt32) else 0) ≠ 0 ↔ _
  split
  · rename_i zero
    exact iff_of_true (by decide) zero
  · rename_i nonzero
    exact iff_of_false (fun absurdity => absurdity rfl) nonzero

/-- A step outside the passwords. -/
theorem Single.aside (single : Single prompts) {p : Process} {point : PromptPoint}
    (before : (prompts.point p).isTyping = false) (after : point.isTyping = false) :
    Single (prompts.goto p point) := by
  have same : ∀ q, ((prompts.goto p point).point q).isTyping = (prompts.point q).isTyping := by
    refine (forall_update_iff _ fun q (point : PromptPoint) =>
      point.isTyping = (prompts.point q).isTyping).mpr ⟨?_, fun _ _ => rfl⟩
    rw [after, before]
  constructor
  · unfold Quiet
    simp only [same]
    exact single.quiet
  · intro q r
    rw [same, same]
    exact single.single q r

section

variable (single : Single prompts)

include single

/-- A prompt starts while nobody types. -/
theorem Single.begin {prompt : Prompt} (nobody : ∀ q, (prompts.point q).isTyping = false) :
    Single (prompts.echoswitch.goto p (.typing prompt)) := by
  have echo : prompts.echodisabled = 0 := by
    by_contra off
    obtain ⟨q, typing⟩ := single.quiet.mp off
    rw [nobody q] at typing
    cases typing
  have only : ∀ q, ((prompts.echoswitch.goto p (.typing prompt)).point q).isTyping = true →
      q = p := by
    refine (forall_update_iff _ fun q (point : PromptPoint) =>
      point.isTyping = true → q = p).mpr ⟨fun _ => rfl, ?_⟩
    intro q _ typing
    rw [show prompts.echoswitch.point q = prompts.point q from rfl, nobody q] at typing
    cases typing
  constructor
  · refine iff_of_true ((echoswitch_ne_zero prompts).mpr echo) ⟨p, ?_⟩
    change (update prompts.point p (.typing prompt) p).isTyping = true
    rw [update_self]
    rfl
  · intro q r typing typing'
    rw [only q typing, only r typing']

/-- The one who types stops: nobody types. -/
theorem Single.nobody {point : PromptPoint} (typing : (prompts.point p).isTyping = true)
    (after : point.isTyping = false) (q : Process) :
    (update prompts.point p point q).isTyping = false := by
  by_cases here : q = p
  · rw [here, update_self]
    exact after
  · rw [update_of_ne here]
    by_contra other
    exact here (single.single q p (Bool.eq_true_of_not_eq_false other) typing)

/-- The line was read. -/
theorem Single.finish {point : PromptPoint} (typing : (prompts.point p).isTyping = true)
    (after : point.isTyping = false) : Single (prompts.echoswitch.goto p point) := by
  have nobody := single.nobody typing after
  have off : prompts.echodisabled ≠ 0 := single.quiet.mpr ⟨p, typing⟩
  constructor
  · refine iff_of_false (fun still => off ((echoswitch_ne_zero prompts).mp still)) ?_
    rintro ⟨q, typing'⟩
    rw [show (prompts.echoswitch.goto p point).point q = update prompts.point p point q
      from rfl, nobody q] at typing'
    cases typing'
  · intro q r typing' _
    rw [show (prompts.echoswitch.goto p point).point q = update prompts.point p point q
      from rfl, nobody q] at typing'
    cases typing'

/-- A second prompt turns echo on while two passwords are typed. -/
theorem Single.overlap {q : Process} {prompt : Prompt} (typing : (prompts.point q).isTyping = true) :
    ¬ Quiet (prompts.echoswitch.goto p (.typing prompt)) := by
  intro quiet
  have off := (echoswitch_ne_zero prompts).mp (quiet.mpr ⟨p, by
    change (update prompts.point p (.typing prompt) p).isTyping = true
    rw [update_self]
    rfl⟩)
  exact single.quiet.mpr ⟨q, typing⟩ off

/-- Who dies typing leaves echo off. -/
theorem Single.abandon (typing : (prompts.point p).isTyping = true) :
    ¬ Quiet (prompts.goto p .absent) := by
  intro quiet
  obtain ⟨q, typing'⟩ := quiet.mp (single.quiet.mpr ⟨p, typing⟩)
  rw [show (prompts.goto p .absent).point q = update prompts.point p .absent q from rfl,
    single.nobody typing rfl q] at typing'
  cases typing'

end

/-- Each step either is undisturbed and keeps the flag in order, or puts it out of order. -/
theorem Single.step (single : Single prompts) {action : PromptAction Process}
    (step : prompts.step action = some next) :
    (Undisturbed prompts action → Single next) ∧ (¬ Undisturbed prompts action → ¬ Quiet next) := by
  cases action with
  | getty _ | passwd _ _ =>
    unfold Prompts.step at step
    simp only [ite_none_right_eq_some, Option.some.injEq] at step
    obtain ⟨absent, rfl⟩ := step
    refine ⟨fun _ => single.aside ?_ rfl, fun disturbed => absurd trivial disturbed⟩
    rw [absent]
    rfl
  | proceed p accepted =>
    unfold Prompts.step at step
    dsimp only at step
    split at step
    · cases step
    · rename_i at_point
      cases step
      refine ⟨fun _ => single.aside ?_ rfl, fun disturbed => absurd ?_ disturbed⟩
      · rw [at_point]
        rfl
      · rintro ⟨prompt, before⟩
        rw [at_point] at before
        cases before
    · rename_i prompt at_point
      cases step
      refine ⟨fun undisturbed => single.begin (undisturbed ⟨prompt, at_point⟩), ?_⟩
      intro disturbed
      have somebody : ∃ q, (prompts.point q).isTyping = true := by
        by_contra nobody
        refine disturbed fun _ q => ?_
        exact Bool.eq_false_of_not_eq_true fun typing => nobody ⟨q, typing⟩
      obtain ⟨q, typing⟩ := somebody
      exact single.overlap typing
    · rename_i prompt at_point
      cases step
      have typing : (prompts.point p).isTyping = true := by rw [at_point]; rfl
      refine ⟨fun _ => single.finish typing rfl, fun disturbed => absurd ?_ disturbed⟩
      rintro ⟨prompt', before⟩
      rw [at_point] at before
      cases before
    · rename_i prompt at_point
      cases step
      refine ⟨fun _ => single.aside ?_ ?_, fun disturbed => absurd ?_ disturbed⟩
      · rw [at_point]
        rfl
      · cases prompt <;> cases accepted <;> rfl
      · rintro ⟨prompt', before⟩
        rw [at_point] at before
        cases before
  | die p =>
    cases step
    refine ⟨fun alive => single.aside alive rfl, fun dying => single.abandon ?_⟩
    exact Bool.eq_true_of_not_eq_false dying

omit [DecidableEq Process] in
theorem single_start : Single (Prompts.start : Prompts Process) := by
  constructor
  · refine iff_of_false (fun absurdity => absurdity rfl) ?_
    rintro ⟨p, typing⟩
    cases typing
  · intro p q typing
    cases typing

/-- However any number of processes run `getty` and `passwd`, and whenever they are
killed: as long as no prompt starts while another password is typed and nobody dies
typing one, `echodisabled` is non-zero just when somebody types a password. The first
step that does either ends this. -/
theorem echo_off_while_typing {actions : List (PromptAction Process)}
    (run : Steps (Guarded (fun prompts action next => Prompts.step prompts action = some next)
      Undisturbed) Prompts.start actions prompts) :
    (prompts.echodisabled ≠ 0 ↔ ∃ p, (prompts.point p).isTyping = true) ∧
      ∀ action next, prompts.step action = some next →
        ((next.echodisabled ≠ 0 ↔ ∃ p, (next.point p).isTyping = true) ↔
          Undisturbed prompts action) := by
  have single : Single prompts := by
    apply run.invariant Single single_start
    intro prompts action next single step
    exact (single.step step.2).1 step.1
  refine ⟨single.quiet, ?_⟩
  intro action next step
  obtain ⟨keeps, breaks⟩ := single.step step
  refine ⟨?_, fun undisturbed => (keeps undisturbed).quiet⟩
  intro quiet
  by_contra disturbed
  exact breaks disturbed quiet

/-- One login, and the password of another user is changed meanwhile, in turns. -/
def inTurns : List (PromptAction (Fin 2)) :=
  [.getty 0, .proceed 0 true, .passwd 1 true, .proceed 0 true, .proceed 0 true, .proceed 1 true]

theorem echo_off_while_typing_inTurns : ∃ prompts : Prompts (Fin 2),
    prompts.point 1 = .typing .new ∧
    (prompts.echodisabled ≠ 0 ↔ ∃ p, (prompts.point p).isTyping = true) := by
  have evaluated : (follow Prompts.step Undisturbed Prompts.start inTurns).any
      (fun prompts => decide (prompts.point 1 = .typing .new)) = true := by
    decide
  obtain ⟨reached, facts⟩ := (any_eq_true_iff_get _ _).mp evaluated
  have run := Steps.of_follow (some_get reached).symm
  exact ⟨_, of_decide_eq_true facts, (echo_off_while_typing run).1⟩

/-- Two users change their passwords at the same time: both type with echo on. -/
theorem echo_on_while_two_type : ∃ prompts : Prompts (Fin 2),
    Steps (fun prompts action next => Prompts.step prompts action = some next) Prompts.start
      [.passwd 0 false, .proceed 0 true, .passwd 1 false, .proceed 1 true] prompts ∧
    prompts.point 0 = .typing .current ∧ prompts.echodisabled = 0 := by
  have evaluated : (follow Prompts.step (fun _ _ => True) Prompts.start
      [.passwd (0 : Fin 2) false, .proceed 0 true, .passwd 1 false, .proceed 1 true]).any
      (fun prompts => decide (prompts.point 0 = .typing .current ∧
        prompts.echodisabled = 0)) = true := by
    decide
  obtain ⟨reached, facts⟩ := (any_eq_true_iff_get _ _).mp evaluated
  have run := (Steps.of_follow (some_get reached).symm).unguarded
  exact ⟨_, run, of_decide_eq_true facts⟩

end Xv6.Console
