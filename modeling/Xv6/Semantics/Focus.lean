import Xv6.Semantics.Program

/-!
# Programs on a part of the state

A `Lens` reads and replaces a part of a state. A program over the part runs on the
whole state, and its specifications carry over; what another lens reads stays as it was.
-/

namespace Program

variable {Fault OuterFault Whole Part Other Value : Type}

/-- A part of a state. -/
structure Lens (Whole Part : Type) where
  get : Whole → Part
  set : Part → Whole → Whole
  get_set : ∀ part whole, get (set part whole) = part

/-- Run a program on a part of the state. -/
def focus (lens : Lens Whole Part) (wrap : Fault → OuterFault) (program : EStateM Fault Part Value) :
    EStateM OuterFault Whole Value := fun whole =>
  match program (lens.get whole) with
  | .ok value part => .ok value (lens.set part whole)
  | .error raised part => .error (wrap raised) (lens.set part whole)

variable {lens : Lens Whole Part} {wrap : Fault → OuterFault} {program : EStateM Fault Part Value}

/-- A specification of the program on its part. -/
theorem Sat.focus {whole : Whole} {post : Value → Part → Prop} {fault : Fault → Part → Prop}
    {allowed : OuterFault → Whole → Prop} (sat : Sat program (lens.get whole) post fault)
    (allows : ∀ raised part, fault raised part → allowed (wrap raised) (lens.set part whole)) :
    Sat (Program.focus lens wrap program) whole
      (fun value after => ∃ part, after = lens.set part whole ∧ post value part) allowed := by
  unfold Sat at sat ⊢
  unfold Program.focus
  cases run : program (lens.get whole) with
  | ok value part =>
    rw [run] at sat
    exact ⟨part, rfl, sat⟩
  | error raised part =>
    rw [run] at sat
    exact allows raised part sat

/-- What the part does not show, the program does not change. -/
theorem Track.focus_of_set {View : Type} {view : Whole → View} {allowed : Fault → Prop}
    {outer : OuterFault → Prop} {before : View}
    (keeps : Keeps (fun _ _ => True) allowed program)
    (allows : ∀ raised, allowed raised → outer (wrap raised))
    (same : ∀ part whole, view (lens.set part whole) = view whole) :
    Track view outer (Program.focus lens wrap program) before fun _ after => after = before := by
  intro whole viewed
  refine ((keeps (lens.get whole)).focus fun raised part => allows raised).weaken ?_
  rintro value _ ⟨part, rfl, -⟩
  rw [same, viewed]

end Program
