import Mathlib.Logic.Basic

/-!
# Programs that may fault

A program transforms a state and either returns a value or raises a fault. A
fault keeps the state in which it was raised, so a fault predicate can still
speak about what had been done before it.

`Sat` is the outcome predicate every specification is stated with. Its rules
follow the program's own structure, and `Keeps` packages the common case of a
preorder that every part of a program respects.
-/

namespace Program

variable {Fault State Value Result : Type}

/-- Every normal result of the program satisfies `post` and every fault it
raises satisfies `fault`. -/
def Sat (program : EStateM Fault State Value) (state : State)
    (post : Value → State → Prop) (fault : Fault → State → Prop) : Prop :=
  match program state with
  | .ok value next => post value next
  | .error raised next => fault raised next

variable {program : EStateM Fault State Value} {state next : State} {value : Value}
  {post post' : Value → State → Prop} {fault fault' : Fault → State → Prop}
  {continuation : Value → EStateM Fault State Result}

theorem Sat.mono (sat : Sat program state post fault)
    (weaken : ∀ value next, post value next → post' value next)
    (weakenFault : ∀ raised next, fault raised next → fault' raised next) :
    Sat program state post' fault' := by
  unfold Sat at sat ⊢
  cases outcome : program state with
  | ok value next =>
    rw [outcome] at sat
    exact weaken value next sat
  | error raised next =>
    rw [outcome] at sat
    exact weakenFault raised next sat

/-- Only the normal postcondition changes. -/
theorem Sat.weaken (sat : Sat program state post fault)
    (weaken : ∀ value next, post value next → post' value next) :
    Sat program state post' fault :=
  sat.mono weaken fun _ _ holds => holds

/-- Only the runs that return are looked at. -/
theorem Sat.returning (sat : Sat program state post fault) :
    Sat program state post fun _ _ => True :=
  sat.mono (fun _ _ holds => holds) fun _ _ _ => trivial

/-- Programs are deterministic, so two specifications of one run combine. -/
theorem Sat.and (left : Sat program state post fault) (right : Sat program state post' fault') :
    Sat program state (fun value next => post value next ∧ post' value next)
      (fun raised next => fault raised next ∧ fault' raised next) := by
  unfold Sat at left right ⊢
  cases outcome : program state with
  | ok _ _ | error _ _ =>
    rw [outcome] at left right
    exact ⟨left, right⟩

/-- Read a specification at an actual normal result. -/
theorem Sat.ok (sat : Sat program state post fault) (run : program state = .ok value next) :
    post value next := by
  unfold Sat at sat
  rw [run] at sat
  exact sat

/-- Read a specification at an actual fault. -/
theorem Sat.error {raised : Fault} (sat : Sat program state post fault)
    (run : program state = .error raised next) : fault raised next := by
  unfold Sat at sat
  rw [run] at sat
  exact sat

/-- A program that does not return and can raise one fault only, raises it. -/
theorem Sat.exists_error {raised : Fault}
    (sat : Sat program state (fun _ _ => False) fun raised' _ => raised' = raised) :
    ∃ next, program state = .error raised next := by
  unfold Sat at sat
  cases run : program state with
  | ok value next =>
    rw [run] at sat
    exact sat.elim
  | error raised' next =>
    rw [run] at sat
    exact ⟨next, by rw [sat]⟩

/-- A run of two programs in sequence passes through the result of the first. -/
theorem bind_ok {result : Result} (run : (program >>= continuation) state = .ok result next) :
    ∃ value middle, program state = .ok value middle ∧
      continuation value middle = .ok result next := by
  change EStateM.bind program continuation state = _ at run
  unfold EStateM.bind at run
  cases first : program state with
  | ok value middle =>
    rw [first] at run
    exact ⟨value, middle, rfl, run⟩
  | error raised middle =>
    rw [first] at run
    cases run

/-- The result of a run, if it returns. -/
def outcome (program : EStateM Fault State Value) (state : State) : Option (Value × State) :=
  match program state with
  | .ok value next => some (value, next)
  | .error _ _ => none

theorem outcome_eq_some : outcome program state = some (value, next) ↔
    program state = .ok value next := by
  unfold outcome
  cases program state with
  | ok value next => simp
  | error raised next => simp

/-- Evaluate a run to find what it returns. -/
theorem exists_of_outcome {check : Value × State → Bool}
    (evaluated : (outcome program state).any check = true) :
    ∃ value next, program state = .ok value next ∧ check (value, next) = true := by
  cases found : outcome program state with
  | none =>
    rw [found] at evaluated
    cases evaluated
  | some result =>
    rw [found] at evaluated
    exact ⟨result.1, result.2, outcome_eq_some.mp found, evaluated⟩

/-- The fault of a run, if it raises one. -/
def raised (program : EStateM Fault State Value) (state : State) : Option Fault :=
  match program state with
  | .ok _ _ => none
  | .error fault _ => some fault

theorem raised_eq_some {fault : Fault} : raised program state = some fault ↔
    ∃ next, program state = .error fault next := by
  unfold raised
  cases program state with
  | ok value next => simp
  | error fault next => simp

variable {raised : Fault} {update : State → State} {left right : EStateM Fault State Value}
  {condition : Prop} [Decidable condition] {Element : Type}
  {body : Element → EStateM Fault State PUnit}

/-- Nothing is claimed about the run. -/
theorem sat_true (program : EStateM Fault State Value) (state : State) :
    Sat program state (fun _ _ => True) fun _ _ => True := by
  unfold Sat
  cases program state with
  | ok value next => trivial
  | error raised next => trivial

/-- The strongest outcome predicate: what the run itself does. -/
theorem sat_run (program : EStateM Fault State Value) (state : State) :
    Sat program state (fun value next => program state = .ok value next)
      (fun raised next => program state = .error raised next) := by
  unfold Sat
  cases outcome : program state with
  | ok value next => rfl
  | error raised next => rfl

@[simp] theorem sat_pure :
    Sat (pure value) state post fault ↔ post value state := Iff.rfl

@[simp] theorem sat_throw :
    Sat (throw raised : EStateM Fault State Value) state post fault ↔ fault raised state :=
  Iff.rfl

@[simp] theorem sat_get {post : State → State → Prop} :
    Sat (get : EStateM Fault State State) state post fault ↔ post state state := Iff.rfl

@[simp] theorem sat_set {post : PUnit → State → Prop} :
    Sat (set next : EStateM Fault State PUnit) state post fault ↔ post ⟨⟩ next := Iff.rfl

@[simp] theorem sat_modify {post : PUnit → State → Prop} :
    Sat (modify update : EStateM Fault State PUnit) state post fault ↔ post ⟨⟩ (update state) :=
  Iff.rfl

@[simp] theorem sat_bind {post : Result → State → Prop} :
    Sat (program >>= continuation) state post fault ↔
      Sat program state (fun value next => Sat (continuation value) next post fault) fault := by
  unfold Sat
  change (match EStateM.bind program continuation state with
    | .ok value next => post value next
    | .error raised next => fault raised next) ↔ _
  unfold EStateM.bind
  cases program state with
  | ok value next => rfl
  | error raised next => rfl

/-- Sequencing: specify the first program, then the rest from where it ends. -/
theorem Sat.bind {after : Result → State → Prop} (first : Sat program state post fault)
    (rest : ∀ value next, post value next → Sat (continuation value) next after fault) :
    Sat (program >>= continuation) state after fault :=
  sat_bind.mpr (first.weaken rest)

theorem sat_ite :
    Sat (if condition then left else right) state post fault ↔
      if condition then Sat left state post fault else Sat right state post fault := by
  by_cases holds : condition <;> simp [holds]

/-- Run the body where the condition holds. -/
def when {Monad' : Type → Type} [Monad Monad'] (condition : Prop) [Decidable condition]
    (body : Monad' Unit) : Monad' Unit :=
  if condition then body else pure ()

/-- A loop over a list keeps an invariant indexed by the elements still to come. -/
theorem Sat.forM (invariant : List Element → State → Prop)
    (step : ∀ head rest current, invariant (head :: rest) current →
      Sat (body head) current (fun _ next => invariant rest next) fault) (elements : List Element)
    {state : State} (holds : invariant elements state) :
    Sat (forM elements body) state (fun _ next => invariant [] next) fault := by
  induction elements generalizing state with
  | nil => exact holds
  | cons head rest ih =>
    rw [List.forM_cons]
    exact (step head rest state holds).bind fun _ next kept => ih kept

/-! ## Relations kept by every part of a program -/

/-- Every normal run of the program relates its first and last state, and
every fault it raises is an allowed one. -/
def Keeps (relation : State → State → Prop) (allowed : Fault → Prop)
    (program : EStateM Fault State Value) : Prop :=
  ∀ state, Sat program state (fun _ next => relation state next) (fun raised _ => allowed raised)

section Keeps

variable {relation : State → State → Prop} {allowed : Fault → Prop}

theorem Keeps.pure (reflexive : ∀ state, relation state state) (value : Value) :
    Keeps relation allowed (pure value : EStateM Fault State Value) :=
  fun state => reflexive state

theorem Keeps.throw (isAllowed : allowed raised) :
    Keeps relation allowed (throw raised : EStateM Fault State Value) :=
  fun _ => isAllowed

theorem Keeps.modify (related : ∀ state, relation state (update state)) :
    Keeps relation allowed (modify update : EStateM Fault State PUnit) :=
  fun state => related state

/-- Reading the state keeps any reflexive relation. -/
theorem Keeps.get (reflexive : ∀ state, relation state state) :
    Keeps relation allowed (get : EStateM Fault State State) :=
  fun state => reflexive state

theorem Keeps.bind (transitive : ∀ {a b c}, relation a b → relation b c → relation a c)
    (first : Keeps relation allowed program)
    (rest : ∀ value, Keeps relation allowed (continuation value)) :
    Keeps relation allowed (program >>= continuation) := by
  intro state
  refine (first state).bind fun value next related => ?_
  exact (rest value next).weaken fun _ _ later => transitive related later

theorem Keeps.ite (positive : condition → Keeps relation allowed left)
    (negative : ¬condition → Keeps relation allowed right) :
    Keeps relation allowed (if condition then left else right) := by
  by_cases holds : condition
  · simpa [holds] using positive holds
  · simpa [holds] using negative holds

theorem Keeps.forM (reflexive : ∀ state, relation state state)
    (transitive : ∀ {a b c}, relation a b → relation b c → relation a c) (elements : List Element)
    (each : ∀ element, Keeps relation allowed (body element)) :
    Keeps relation allowed (forM elements body) := by
  induction elements with
  | nil => exact fun state => reflexive state
  | cons head rest ih =>
    rw [List.forM_cons]
    exact .bind transitive (each head) fun _ => ih

theorem Keeps.when {body : EStateM Fault State Unit} (reflexive : ∀ state, relation state state)
    (each : condition → Keeps relation allowed body) :
    Keeps relation allowed (when condition body) :=
  .ite each fun _ => .pure reflexive ()

end Keeps

/-! ## Specifications through a view

A view forgets most of the state. A program tracks a view when the view after a
run depends only on the view before it and on the result. -/

/-- From every state with view `before`, a normal run ends with a result and a
view that satisfy `post`, and every fault is an allowed one. -/
def Track {View : Type} (view : State → View) (allowed : Fault → Prop)
    (program : EStateM Fault State Value) (before : View) (post : Value → View → Prop) : Prop :=
  ∀ state, view state = before →
    Sat program state (fun value next => post value (view next)) (fun raised _ => allowed raised)

section Track

variable {View : Type} {view : State → View} {allowed : Fault → Prop} {before : View}
  {result : Value → View → Prop}

theorem Track.mono {weaker : Value → View → Prop} (track : Track view allowed program before result)
    (weaken : ∀ value after, result value after → weaker value after) :
    Track view allowed program before weaker :=
  fun state viewed => (track state viewed).weaken fun value next => weaken value (view next)

theorem Track.pure (holds : result value before) :
    Track view allowed (pure value : EStateM Fault State Value) before result := by
  intro state viewed
  rw [sat_pure, viewed]
  exact holds

theorem Track.throw (isAllowed : allowed raised) :
    Track view allowed (throw raised : EStateM Fault State Value) before result :=
  fun _ _ => isAllowed

theorem Track.modify {result : PUnit → View → Prop}
    (updated : ∀ state, view state = before → result ⟨⟩ (view (update state))) :
    Track view allowed (modify update : EStateM Fault State PUnit) before result :=
  fun state viewed => updated state viewed

theorem Track.bind {final : Result → View → Prop} (first : Track view allowed program before result)
    (rest : ∀ value after, result value after → Track view allowed (continuation value) after final) :
    Track view allowed (program >>= continuation) before final :=
  fun state viewed =>
    (first state viewed).bind fun value next held => rest value (view next) held next rfl

/-- After reading the state, the rest is specified for every state with this view. -/
theorem Track.get {continuation : State → EStateM Fault State Result}
    {final : Result → View → Prop}
    (rest : ∀ state, view state = before → Track view allowed (continuation state) before final) :
    Track view allowed (get >>= continuation) before final :=
  fun state viewed => sat_bind.mpr (rest state viewed state viewed)

theorem Track.ite (positive : condition → Track view allowed left before result)
    (negative : ¬condition → Track view allowed right before result) :
    Track view allowed (if condition then left else right) before result := by
  by_cases holds : condition
  · simpa [holds] using positive holds
  · simpa [holds] using negative holds

theorem Track.when {body : EStateM Fault State Unit} {result : Unit → View → Prop}
    (idle : ¬condition → result () before)
    (each : condition → Track view allowed body before result) :
    Track view allowed (when condition body) before result :=
  .ite each fun skipped => .pure (idle skipped)

/-- A loop keeps an invariant of the view, indexed by the elements still to come. -/
theorem Track.forM (invariant : List Element → View → Prop)
    (step : ∀ head rest current, invariant (head :: rest) current →
      Track view allowed (body head) current fun _ after => invariant rest after)
    (elements : List Element) {before : View} (holds : invariant elements before) :
    Track view allowed (forM elements body) before fun _ after => invariant [] after := by
  intro state viewed
  refine Sat.forM (fun rest state => invariant rest (view state)) ?_ elements ?_
  · exact fun head rest current held => step head rest (view current) held current rfl
  · rw [viewed]
    exact holds

end Track

/-! ## Amounts that programs pass on

A state holds an amount of something, and a program holds some of it too. It
conserves the amount if what it ends with makes up for what it started with. -/

/-- A normal run started with `owed` in hand ends with an amount in hand that, with its
value, satisfies `result`, and no amount is made or lost. -/
structure Conserves (amount : State → Nat) (owed : Nat) (program : EStateM Fault State Value)
    (result : Value → Nat → Prop) : Prop where
  sat : ∀ state, Sat program state
    (fun value next => ∃ left, result value left ∧ amount next + left = amount state + owed)
    fun _ _ => True

section Conserves

variable {amount : State → Nat} {owed : Nat} {result : Value → Nat → Prop}

theorem Conserves.pure (holds : result value owed) :
    Conserves amount owed (pure value : EStateM Fault State Value) result :=
  ⟨fun _ => ⟨owed, holds, rfl⟩⟩

theorem Conserves.throw :
    Conserves amount owed (throw raised : EStateM Fault State Value) result :=
  ⟨fun _ => trivial⟩

theorem Conserves.mono {weaker : Value → Nat → Prop}
    (conserves : Conserves amount owed program result)
    (weaken : ∀ value left, result value left → weaker value left) :
    Conserves amount owed program weaker := by
  constructor
  intro state
  apply (conserves.sat state).weaken
  rintro value next ⟨left, holds, equal⟩
  exact ⟨left, weaken value left holds, equal⟩

theorem Conserves.bind {final : Result → Nat → Prop} (first : Conserves amount owed program result)
    (rest : ∀ value left, result value left → Conserves amount left (continuation value) final) :
    Conserves amount owed (program >>= continuation) final := by
  constructor
  intro state
  apply (first.sat state).bind
  rintro value next ⟨left, holds, equal⟩
  apply ((rest value left holds).sat next).weaken
  rintro result last ⟨left', holds', equal'⟩
  exact ⟨left', holds', by omega⟩

theorem Conserves.ite (positive : condition → Conserves amount owed left result)
    (negative : ¬condition → Conserves amount owed right result) :
    Conserves amount owed (if condition then left else right) result := by
  by_cases holds : condition
  · simpa [holds] using positive holds
  · simpa [holds] using negative holds

end Conserves

end Program
