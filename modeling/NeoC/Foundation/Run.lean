import Mathlib.Data.List.Basic

/-!
# Properties along a run

A run is a list of steps applied to a state one after another.  `Along`
states a property of every step together with the state it is taken in.  The
invariant rule below is the only induction the safety results need: a guard
on each step, an invariant that guarded steps keep, and a property that the
invariant and the guard give.
-/

namespace NeoC.Foundation

variable {State Step : Type}

/-- The state after a list of steps. -/
def finalState (next : State → Step → State) :
    State → List Step → State
  | state, [] => state
  | state, step :: rest => finalState next (next state step) rest

/-- Every step of the run has the property in the state it is taken in. -/
def Along (next : State → Step → State)
    (property : State → Step → Prop) : State → List Step → Prop
  | _, [] => True
  | state, step :: rest =>
      property state step ∧ Along next property (next state step) rest

/-- A property that can be decided of a step can be decided of a run. -/
instance Along.decidable {next : State → Step → State}
    {property : State → Step → Prop}
    [∀ state step, Decidable (property state step)] :
    (state : State) → (steps : List Step) →
      Decidable (Along next property state steps)
  | _, [] => inferInstanceAs (Decidable True)
  | state, step :: rest =>
      @instDecidableAnd _ _ inferInstance
        (Along.decidable (next state step) rest)

variable {next : State → Step → State}
variable (invariant : State → Prop)
variable {guard property : State → Step → Prop}

/-- Guarded steps keep an invariant over a whole run. -/
theorem finalState_invariant
    (preserved :
      ∀ state step,
        invariant state → guard state step →
          invariant (next state step))
    {state : State} (holds : invariant state)
    {steps : List Step} (guarded : Along next guard state steps) :
    invariant (finalState next state steps) := by
  induction steps generalizing state with
  | nil => exact holds
  | cons step rest induction =>
      rcases guarded with ⟨guardedStep, guardedRest⟩
      exact induction (preserved state step holds guardedStep) guardedRest

/-- What the invariant and the guard give of one step holds along the run. -/
theorem along_of_invariant
    (preserved :
      ∀ state step,
        invariant state → guard state step →
          invariant (next state step))
    (gives :
      ∀ state step,
        invariant state → guard state step → property state step)
    {state : State} (holds : invariant state)
    {steps : List Step} (guarded : Along next guard state steps) :
    Along next property state steps := by
  induction steps generalizing state with
  | nil => trivial
  | cons step rest induction =>
      rcases guarded with ⟨guardedStep, guardedRest⟩
      exact
        ⟨gives state step holds guardedStep,
          induction (preserved state step holds guardedStep) guardedRest⟩

/-- A guard that is exact for one step is exact for a whole run. -/
theorem along_iff_of_invariant
    (preserved :
      ∀ state step,
        invariant state → guard state step →
          invariant (next state step))
    (exact :
      ∀ state step,
        invariant state → (property state step ↔ guard state step))
    {state : State} (holds : invariant state) (steps : List Step) :
    Along next property state steps ↔ Along next guard state steps := by
  constructor
  · intro along
    induction steps generalizing state with
    | nil => trivial
    | cons step rest induction =>
        rcases along with ⟨propertyStep, propertyRest⟩
        have guarded := (exact state step holds).mp propertyStep
        exact
          ⟨guarded,
            induction (preserved state step holds guarded) propertyRest⟩
  · exact
      along_of_invariant invariant preserved
        (fun state step held => (exact state step held).mpr) holds

/-- What an invariant gives of every step holds along every run. -/
theorem along_of_forall
    (preserved : ∀ state step, invariant state → invariant (next state step))
    (gives : ∀ state step, invariant state → property state step)
    {state : State} (holds : invariant state) (steps : List Step) :
    Along next property state steps := by
  induction steps generalizing state with
  | nil => trivial
  | cons step rest induction =>
      exact
        ⟨gives state step holds, induction (preserved state step holds)⟩

/-- What holds along a run holds along its front. -/
theorem along_of_append {state : State} {front rest : List Step}
    (along : Along next property state (front ++ rest)) :
    Along next property state front := by
  induction front generalizing state with
  | nil => trivial
  | cons step front induction =>
      rcases along with ⟨holds, later⟩
      exact ⟨holds, induction later⟩

/-- A property that does not look at the state is one of each step. -/
theorem along_const {property : Step → Prop}
    (state : State) (steps : List Step) :
    Along next (fun _ step => property step) state steps ↔
      ∀ step ∈ steps, property step := by
  induction steps generalizing state with
  | nil => simp [Along]
  | cons step rest induction =>
      rw [Along, induction, List.forall_mem_cons]

/-- A run with a record kept beside the state is a run of the state. -/
theorem along_project {Recorded : Type}
    {recordedNext : Recorded → Step → Recorded} {project : Recorded → State}
    (commutes :
      ∀ recorded step,
        project (recordedNext recorded step) = next (project recorded) step)
    (recorded : Recorded) (steps : List Step) :
    Along recordedNext
        (fun recorded step => property (project recorded) step)
        recorded steps ↔
      Along next property (project recorded) steps := by
  induction steps generalizing recorded with
  | nil => rfl
  | cons step rest induction =>
      rw [Along, Along, induction, commutes]

/-- Two properties along a run are their conjunction along it. -/
theorem along_and {first second : State → Step → Prop}
    (state : State) (steps : List Step) :
    Along next (fun state step => first state step ∧ second state step)
        state steps ↔
      Along next first state steps ∧ Along next second state steps := by
  induction steps generalizing state with
  | nil => simp [Along]
  | cons step rest induction =>
      rw [Along, Along, Along, induction]
      exact and_and_and_comm

/-! ## What the steps put out -/

section Output

variable {Output : Type} (emit : State → Step → List Output)

/-- What the steps of a run put out, one after another. -/
def emitted (next : State → Step → State) : State → List Step → List Output
  | _, [] => []
  | state, step :: rest =>
      emit state step ++ emitted next (next state step) rest

variable {emit}

/--
Where every step moves a state forwards and puts out what lies in between, a
whole run puts out what lies between its ends.
-/
theorem emitted_span
    {before : State → State → Prop} {span : State → State → List Output}
    (refl : ∀ state, before state state ∧ span state state = [])
    (joins :
      ∀ {first middle last},
        before first middle → before middle last →
          before first last ∧
            span first middle ++ span middle last = span first last)
    {state : State} {steps : List Step}
    (spans :
      Along next
        (fun state step =>
          before state (next state step) ∧
            emit state step = span state (next state step))
        state steps) :
    before state (finalState next state steps) ∧
      emitted emit next state steps =
        span state (finalState next state steps) := by
  induction steps generalizing state with
  | nil => exact ⟨(refl state).1, (refl state).2.symm⟩
  | cons step rest induction =>
      rcases spans with ⟨⟨forwards, first⟩, later⟩
      rcases induction later with ⟨further, others⟩
      rcases joins forwards further with ⟨ordered, joined⟩
      refine ⟨ordered, ?_⟩
      rw [emitted, first, others]
      exact joined

end Output

/-! ## A model that runs beside the states -/

variable {View : Type}

/-- The value that a model of the steps predicts for the end of a run. -/
def predict (next : State → Step → State)
    (follow : State → Step → View → View) :
    State → View → List Step → View
  | _, view, [] => view
  | state, view, step :: rest =>
      predict next follow (next state step) (follow state step view) rest

/-- A model is right in every state reached if it is right at every step. -/
theorem predict_prefixes_iff {view : State → View}
    {follow : State → Step → View → View}
    (state : State) (steps : List Step) :
    (∀ reached, reached <+: steps →
        view (finalState next state reached) =
          predict next follow state (view state) reached) ↔
      Along next
        (fun state step =>
          view (next state step) = follow state step (view state))
        state steps := by
  induction steps generalizing state with
  | nil =>
      constructor
      · intro _
        trivial
      · intro _ reached within
        rw [List.prefix_nil.mp within]
        rfl
  | cons step rest induction =>
      constructor
      · intro right
        have first :
            view (next state step) = follow state step (view state) :=
          right [step] (by simp)
        refine ⟨first, (induction (next state step)).mp ?_⟩
        intro reached within
        have later :=
          right (step :: reached) (List.cons_prefix_cons.mpr ⟨rfl, within⟩)
        rw [first]
        exact later
      · rintro ⟨first, later⟩ reached within
        cases reached with
        | nil => rfl
        | cons head reached =>
            rcases List.cons_prefix_cons.mp within with ⟨rfl, inside⟩
            rw [finalState, predict, ← first]
            exact (induction (next state head)).mpr later reached inside

end NeoC.Foundation
