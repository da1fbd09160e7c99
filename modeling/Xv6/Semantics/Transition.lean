import Mathlib.Logic.Basic

/-!
# Runs of labelled transition systems

A run is a finite sequence of labelled steps from a fixed start. `Guarded`
restricts a step relation to the steps that meet a condition on the state
before them, so "every run whose steps all meet the condition" is a run of the
guarded relation. `Steps.invariant` is the only induction a safety property
over runs needs.
-/

namespace Transition

variable {State Label : Type} {Step Step' : State → Label → State → Prop} {start state : State}
  {labels : List Label}

/-- Zero or more steps from `start`, with the labels taken in order. -/
inductive Steps (Step : State → Label → State → Prop) (start : State) :
    List Label → State → Prop where
  | refl : Steps Step start [] start
  | step {labels current label next} (prior : Steps Step start labels current)
      (transition : Step current label next) : Steps Step start (labels ++ [label]) next

/-- The steps that meet a condition on the state before them and on their label. -/
def Guarded (Step : State → Label → State → Prop) (condition : State → Label → Prop) :
    State → Label → State → Prop :=
  fun state label next => condition state label ∧ Step state label next

/-- What holds at the start and is preserved by every step holds in every state reached. -/
theorem Steps.invariant (run : Steps Step start labels state) (invariant : State → Prop)
    (initial : invariant start)
    (preserved : ∀ {state label next}, invariant state → Step state label next → invariant next) :
    invariant state := by
  induction run with
  | refl => exact initial
  | step _ transition ih => exact preserved ih transition

/-- A run of a smaller relation is a run of a larger one. -/
theorem Steps.mono (run : Steps Step start labels state)
    (included : ∀ {state label next}, Step state label next → Step' state label next) :
    Steps Step' start labels state := by
  induction run with
  | refl => exact .refl
  | step _ transition ih => exact .step ih (included transition)

/-- Forget that every step met the condition. -/
theorem Steps.unguarded {condition : State → Label → Prop}
    (run : Steps (Guarded Step condition) start labels state) : Steps Step start labels state :=
  run.mono And.right

/-- Runs compose where they meet. -/
theorem Steps.trans {middle : State} {labels' : List Label} (first : Steps Step start labels middle)
    (second : Steps Step middle labels' state) : Steps Step start (labels ++ labels') state := by
  induction second with
  | refl => simpa using first
  | step _ transition ih =>
    rw [← List.append_assoc]
    exact .step ih transition

/-! The processes of a concrete run are numerals of `Fin 2` or `Fin 3`. -/

instance neZero_two : @NeZero Nat .ofOfNat0 2 := ⟨by decide⟩

instance neZero_three : @NeZero Nat .ofOfNat0 3 := ⟨by decide⟩

/-- Evaluate a deterministic system along a list of labels, as long as every
step is enabled and meets the condition. -/
def follow (exec : State → Label → Option State) (condition : State → Label → Prop)
    [∀ state label, Decidable (condition state label)] : State → List Label → Option State
  | state, [] => some state
  | state, label :: rest =>
    if condition state label then
      (exec state label).bind fun next => follow exec condition next rest
    else none

/-- An evaluation that succeeds is a run whose steps all meet the condition. -/
theorem Steps.of_follow {exec : State → Label → Option State} {condition : State → Label → Prop}
    [∀ state label, Decidable (condition state label)]
    (followed : follow exec condition start labels = some state) :
    Steps (Guarded (fun state label next => exec state label = some next) condition)
      start labels state := by
  induction labels generalizing start with
  | nil =>
    cases followed
    exact .refl
  | cons label rest ih =>
    unfold follow at followed
    split at followed
    · rename_i met
      obtain ⟨next, taken, later⟩ := Option.bind_eq_some_iff.mp followed
      have first : Steps (Guarded (fun state label next => exec state label = some next) condition)
          start ([] ++ [label]) next := .step .refl ⟨met, taken⟩
      exact first.trans (ih later)
    · cases followed

end Transition
