import NeoC.Foundation.Run

/-!
# Runs of calls that report how they ended

A call on an object reports success or failure to its caller, or it does not
come back.  An object stands for a value of a model; a call that succeeds is to
do to the value what its specification says, and one that reports failure is to
leave what the object shows exactly as it was.  The rule below turns a complete
list of the ways in which one call can end into an equivalence about whole
runs.
-/

namespace NeoC.Foundation

/-- How a call ended, as its caller sees it. -/
inductive Report where
  | succeeded
  | failed
  | halted
deriving DecidableEq, Repr

namespace Reports

variable {State Step Value Shown : Type}
variable (perform : Step → State → Report × State)
variable (apply : Step → Value → Value)
variable (shown : State → Shown)

/-- The state after a call, however it ended. -/
def next (state : State) (step : Step) : State :=
  (perform step state).2

/-- The value changes with every call that succeeds. -/
def follow (state : State) (step : Step) (value : Value) : Value :=
  match (perform step state).1 with
  | .succeeded => apply step value
  | .failed => value
  | .halted => value

/-- A call comes back, and if it reports failure, nothing shows it. -/
def Keeps (state : State) (step : Step) : Prop :=
  match (perform step state).1 with
  | .succeeded => True
  | .failed => shown (next perform state step) = shown state
  | .halted => False

/-- The ways in which a call can end, in two groups that a condition parts. -/
inductive Ends (stands : State → Value → Prop) (state : State)
    (value after : Value) (exact : Prop) : Report × State → Prop where
  | succeeds (holds : exact) {state' : State}
      (represents : stands state' after) :
      Ends stands state value after exact (.succeeded, state')
  | fails (holds : exact) {state' : State}
      (same : shown state' = shown state)
      (represents : stands state' value) :
      Ends stands state value after exact (.failed, state')
  | spoils (breaks : ¬ exact) {state' : State}
      (different : shown state' ≠ shown state) :
      Ends stands state value after exact (.failed, state')
  | halts (breaks : ¬ exact) {state' : State} :
      Ends stands state value after exact (.halted, state')

variable {perform apply shown}
variable {stands holds : State → Value → Prop}
variable {exact : State → Step → Prop}

/-- The condition of one call carries over to a call that ends the same way. -/
theorem Ends.congr {state : State} {value after : Value}
    {result : Report × State} {first second : Prop} (same : first ↔ second)
    (ends : Ends shown stands state value after first result) :
    Ends shown stands state value after second result := by
  rwa [propext same] at ends

/--
Along every run, the calls keep to their reports and the object holds the value
of the model in every state reached, exactly if the condition of each call
holds in the state that it is made in.
-/
theorem keeps_and_holds_iff
    (reads : ∀ state value, stands state value → holds state value)
    (ends :
      ∀ state value step,
        stands state value →
          Ends shown stands state value (apply step value)
            (exact state step) (perform step state))
    {state : State} {value : Value} (represents : stands state value)
    (steps : List Step) :
    (Along (next perform) (Keeps perform shown) state steps ∧
        ∀ reached, reached <+: steps →
          holds (finalState (next perform) state reached)
            (predict (next perform) (follow perform apply) state value
              reached)) ↔
      Along (next perform) exact state steps := by
  induction steps generalizing state value with
  | nil =>
      refine iff_of_true ⟨trivial, ?_⟩ trivial
      intro reached within
      rw [List.prefix_nil.mp within]
      exact reads state value represents
  | cons step rest induction =>
      have prefixes (after : Value)
          (followed : follow perform apply state step value = after) :
          (∀ reached, reached <+: step :: rest →
              holds (finalState (next perform) state reached)
                (predict (next perform) (follow perform apply) state value
                  reached)) ↔
            ∀ reached, reached <+: rest →
              holds
                (finalState (next perform) (next perform state step) reached)
                (predict (next perform) (follow perform apply)
                  (next perform state step) after reached) := by
        rw [← followed]
        constructor
        · intro all reached within
          exact all (step :: reached) (List.cons_prefix_cons.mpr ⟨rfl, within⟩)
        · rintro all (_ | ⟨head, reached⟩) within
          · exact reads state value represents
          · rcases List.cons_prefix_cons.mp within with ⟨rfl, inside⟩
            exact all reached inside
      have ended := ends state value step represents
      generalize ran : perform step state = result at ended
      have after : next perform state step = result.2 :=
        congrArg Prod.snd ran
      cases ended with
      | succeeds holds represents' =>
          have followed :
              follow perform apply state step value = apply step value := by
            rw [follow, ran]
          rw [prefixes _ followed, Along, Along, and_assoc, after,
            induction represents']
          exact
            and_congr_left fun _ =>
              iff_of_true (by rw [Keeps, ran]; trivial) holds
      | fails holds same represents' =>
          have followed : follow perform apply state step value = value := by
            rw [follow, ran]
          have kept : Keeps perform shown state step := by
            rw [Keeps, after, ran]
            exact same
          rw [prefixes _ followed, Along, Along, and_assoc, after,
            induction represents']
          exact and_congr_left fun _ => iff_of_true kept holds
      | spoils breaks different =>
          refine iff_of_false ?_ fun along => breaks along.1
          rintro ⟨⟨kept, -⟩, -⟩
          rw [Keeps, after, ran] at kept
          exact different kept
      | halts breaks =>
          refine iff_of_false ?_ fun along => breaks along.1
          rintro ⟨⟨kept, -⟩, -⟩
          rw [Keeps, ran] at kept
          exact kept

end Reports

end NeoC.Foundation
