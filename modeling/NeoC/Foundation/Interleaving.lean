import NeoC.Foundation.Run
import Mathlib.Algebra.BigOperators.Group.List.Basic

/-!
# Threads that interleave

Threads run programs on a state that they share.  A program proceeds by
atomic steps; between two steps of one thread any steps of the others may
happen, in any order.

The state is divided into shares.  Every thread owns one, and the invariant
says how the state follows from the sum of all of them.  A program is judged
alone: each of its steps may change the share of its own thread and has to
keep the invariant whatever the other threads own.  The only induction over
schedules is the one below.
-/

namespace NeoC.Foundation

/-! ## Programs -/

/--
A program that acts on a shared state.  A step is given an answer from
outside; where it yields no state it cannot be taken now and is tried again.
What follows may depend on the state before the step.
-/
inductive Task (Shared Answer Result : Type) where
  | done (result : Result)
  | step (perform : Answer → Shared → Option Shared)
      (next : Answer → Shared → Task Shared Answer Result)

namespace Task

variable {Shared Answer Result Result' : Type}

/-- Run one program and hand its result to the next one. -/
protected def bind (following : Result → Task Shared Answer Result') :
    Task Shared Answer Result → Task Shared Answer Result'
  | done result => following result
  | step perform next =>
      step perform fun answer shared =>
        (next answer shared).bind following

instance : Monad (Task Shared Answer) where
  pure := done
  bind first following := first.bind following

/-- One atomic step with a result. -/
def act (perform : Answer → Shared → Option Shared)
    (reply : Answer → Shared → Result) : Task Shared Answer Result :=
  step perform fun answer shared => done (reply answer shared)

end Task

/-! ## Threads -/

/-- What a call takes out of the state, does, and brings back. -/
structure Service (Shared Answer Request Result : Type) where
  enter : Request → Shared → Option Shared
  body : Request → Task Shared Answer Result
  leave : Result → Shared → Shared

/-- The shared state and what every thread has left to do, if anything. -/
structure Pool (Shared Answer Result : Type) where
  shared : Shared
  threads : List (Option (Task Shared Answer Result))

/-- A thread starts a call, or does the next step of the one it is in. -/
inductive Move (Answer Request : Type) where
  | call (thread : Nat) (request : Request)
  | advance (thread : Nat) (answer : Answer)
deriving Repr

/-- The thread that a move is about. -/
def Move.thread {Answer Request : Type} : Move Answer Request → Nat
  | call thread _ => thread
  | advance thread _ => thread

/-- The outside gives an answer that it may give. -/
def Move.Allowed {Answer Request : Type} (allowed : Answer → Prop) :
    Move Answer Request → Prop
  | call _ _ => True
  | advance _ answer => allowed answer

instance {Answer Request : Type} (allowed : Answer → Prop)
    [DecidablePred allowed] :
    (step : Move Answer Request) → Decidable (step.Allowed allowed)
  | .call _ _ => inferInstanceAs (Decidable True)
  | .advance _ answer => inferInstanceAs (Decidable (allowed answer))

namespace Pool

variable {Shared Answer Request Result : Type}

/-- Some threads, none of which has anything to do. -/
def idle (shared : Shared) (count : Nat) : Pool Shared Answer Result where
  shared := shared
  threads := List.replicate count none

/-- No thread is in a call. -/
def AtRest (pool : Pool Shared Answer Result) : Prop :=
  ∀ thread ∈ pool.threads, thread.isNone = true

instance (pool : Pool Shared Answer Result) : Decidable pool.AtRest :=
  List.decidableBAll _ _

variable (service : Service Shared Answer Request Result)

/-- The new state and what the thread has left to do, if it can move so. -/
def turn (shared : Shared) :
    Option (Task Shared Answer Result) → Move Answer Request →
      Option (Shared × Option (Task Shared Answer Result))
  | none, .call _ request =>
      (service.enter request shared).map fun shared' =>
        (shared', some (service.body request))
  | some (.done result), .advance _ _ =>
      some (service.leave result shared, none)
  | some (.step perform next), .advance _ answer =>
      (perform answer shared).map fun shared' =>
        (shared', some (next answer shared))
  | none, .advance _ _ => none
  | some _, .call _ _ => none

/-- One move of a schedule; one that cannot be made changes nothing. -/
def move (pool : Pool Shared Answer Result) (step : Move Answer Request) :
    Pool Shared Answer Result :=
  match pool.threads[step.thread]? with
  | none => pool
  | some thread =>
      match turn service pool.shared thread step with
      | none => pool
      | some (shared, left) =>
          { shared := shared
            threads := pool.threads.set step.thread left }

end Pool

/-! ## Shares -/

section Shares

variable {Shared Answer Request Result Result' Share : Type}
variable [AddCommMonoid Share]
variable (allowed : Answer → Prop) (invariant : Shared → Share → Prop)

/--
From its share the program keeps the invariant at every step, whatever the
others own, and ends with a result and a share as described.
-/
def Meets (ends : Result → Share → Prop) :
    Task Shared Answer Result → Share → Prop
  | .done result, own => ends result own
  | .step perform next, own =>
      ∀ answer shared shared' frame,
        allowed answer → invariant shared (own + frame) →
          perform answer shared = some shared' →
            ∃ own',
              invariant shared' (own' + frame) ∧
                Meets ends (next answer shared) own'

/-- The result can be brought back and nothing is left of the share. -/
def Returns (service : Service Shared Answer Request Result)
    (result : Result) (own : Share) : Prop :=
  ∀ shared frame, invariant shared (own + frame) →
    invariant (service.leave result shared) frame

/-- Every call gets a share to start from and meets its end. -/
def Serves (service : Service Shared Answer Request Result) : Prop :=
  ∀ request shared shared' frame,
    invariant shared frame → service.enter request shared = some shared' →
      ∃ own,
        invariant shared' (own + frame) ∧
          Meets allowed invariant (Returns invariant service)
            (service.body request) own

variable {allowed invariant}
variable {ends ends' : Result → Share → Prop}
variable {own : Share}

theorem Meets.done {result : Result} (reached : ends result own) :
    Meets allowed invariant ends
      (pure result : Task Shared Answer Result) own :=
  reached

/-- A program may end with less than was shown of it. -/
theorem Meets.weaken {task : Task Shared Answer Result}
    (meets : Meets allowed invariant ends task own)
    (weaker : ∀ result share, ends result share → ends' result share) :
    Meets allowed invariant ends' task own := by
  induction task generalizing own with
  | done result => exact weaker result own meets
  | step perform next induction =>
      intro answer shared shared' frame may holds performed
      rcases meets answer shared shared' frame may holds performed with
        ⟨own', holds', later⟩
      exact ⟨own', holds', induction answer shared later⟩

/-- Two programs one after the other. -/
theorem Meets.bind {first : Task Shared Answer Result}
    {following : Result → Task Shared Answer Result'}
    {middle : Result → Share → Prop} {ends : Result' → Share → Prop}
    (meets : Meets allowed invariant middle first own)
    (continues :
      ∀ result share, middle result share →
        Meets allowed invariant ends (following result) share) :
    Meets allowed invariant ends (first >>= following) own := by
  induction first generalizing own with
  | done result => exact continues result own meets
  | step perform next induction =>
      intro answer shared shared' frame may holds performed
      rcases meets answer shared shared' frame may holds performed with
        ⟨own', holds', later⟩
      exact ⟨own', holds', induction answer shared later⟩

/-- One atomic step. -/
theorem Meets.act {perform : Answer → Shared → Option Shared}
    {reply : Answer → Shared → Result}
    (acts :
      ∀ answer shared shared' frame,
        allowed answer → invariant shared (own + frame) →
          perform answer shared = some shared' →
            ∃ own',
              invariant shared' (own' + frame) ∧
                ends (reply answer shared) own') :
    Meets allowed invariant ends (Task.act perform reply) own :=
  acts

/-! ## Schedules -/

variable {service : Service Shared Answer Request Result}

/-- What a thread owns is enough for what it has left to do. -/
def Covered (allowed : Answer → Prop) (invariant : Shared → Share → Prop)
    (service : Service Shared Answer Request Result) :
    Option (Task Shared Answer Result) → Share → Prop
  | none, own => own = 0
  | some task, own =>
      Meets allowed invariant (Returns invariant service) task own

/-- The state is divided into shares that cover every thread. -/
def Divided (allowed : Answer → Prop) (invariant : Shared → Share → Prop)
    (service : Service Shared Answer Request Result)
    (pool : Pool Shared Answer Result) : Prop :=
  ∃ shares : List Share,
    List.Forall₂ (Covered allowed invariant service) pool.threads shares ∧
      invariant pool.shared shares.sum

/-- One thread moves with its share, beside all others. -/
theorem turn_covered (serves : Serves allowed invariant service)
    {shared shared' : Shared} {frame : Share}
    {thread left : Option (Task Shared Answer Result)}
    {step : Move Answer Request} (may : step.Allowed allowed)
    (covered : Covered allowed invariant service thread own)
    (holds : invariant shared (own + frame))
    (turned : Pool.turn service shared thread step = some (shared', left)) :
    ∃ own',
      Covered allowed invariant service left own' ∧
        invariant shared' (own' + frame) := by
  match thread, step, turned with
  | none, .call _ request, turned =>
      obtain ⟨entered, enters, same⟩ := Option.map_eq_some_iff.mp turned
      injection same with same gone
      subst same gone
      have nothing : own = 0 := covered
      rw [nothing, zero_add] at holds
      rcases serves request shared entered frame holds enters with
        ⟨own', holds', meets⟩
      exact ⟨own', meets, holds'⟩
  | some (.done result), .advance _ _, turned =>
      injection turned with same
      injection same with same gone
      subst same gone
      refine ⟨0, rfl, ?_⟩
      rw [zero_add]
      exact covered shared frame holds
  | some (.step perform next), .advance _ answer, turned =>
      obtain ⟨after, performed, same⟩ := Option.map_eq_some_iff.mp turned
      injection same with same gone
      subst same gone
      rcases covered answer shared after frame may holds performed with
        ⟨own', holds', later⟩
      exact ⟨own', later, holds'⟩

/-- One thread's share, what the others own, and a new share in its place. -/
theorem exists_share {Thread : Type} {covers : Thread → Share → Prop}
    {threads : List Thread} {shares : List Share}
    (each : List.Forall₂ covers threads shares)
    {index : Nat} {thread : Thread} (found : threads[index]? = some thread) :
    ∃ own frame,
      covers thread own ∧
        shares.sum = own + frame ∧
          ∀ left own', covers left own' →
            ∃ shares',
              List.Forall₂ covers (threads.set index left) shares' ∧
                shares'.sum = own' + frame := by
  induction each generalizing index with
  | nil => simp at found
  | @cons first share others rest covered each induction =>
      cases index with
      | zero =>
          rw [List.getElem?_cons_zero, Option.some.injEq] at found
          subst found
          refine ⟨share, rest.sum, covered, List.sum_cons, ?_⟩
          intro left own' covered'
          exact ⟨own' :: rest, .cons covered' each, List.sum_cons⟩
      | succ index =>
          rw [List.getElem?_cons_succ] at found
          rcases induction found with ⟨own, frame, here, whole, replaced⟩
          refine ⟨own, share + frame, here, ?_, ?_⟩
          · rw [List.sum_cons, whole, add_left_comm]
          · intro left own' covered'
            rcases replaced left own' covered' with ⟨shares', each', sum⟩
            refine ⟨share :: shares', .cons covered each', ?_⟩
            rw [List.sum_cons, sum, add_left_comm]

/-- Every move leaves the state divided. -/
theorem divided_move (serves : Serves allowed invariant service)
    {pool : Pool Shared Answer Result} {step : Move Answer Request}
    (may : step.Allowed allowed)
    (divided : Divided allowed invariant service pool) :
    Divided allowed invariant service (pool.move service step) := by
  rcases divided with ⟨shares, covers, holds⟩
  rw [Pool.move]
  cases found : pool.threads[step.thread]? with
  | none => exact ⟨shares, covers, holds⟩
  | some thread =>
      dsimp only
      cases turned : Pool.turn service pool.shared thread step with
      | none => exact ⟨shares, covers, holds⟩
      | some outcome =>
          rcases outcome with ⟨shared, left⟩
          rcases exists_share covers found with
            ⟨own, frame, covered, whole, replaced⟩
          rw [whole] at holds
          rcases turn_covered serves may covered holds turned with
            ⟨own', covered', holds'⟩
          rcases replaced left own' covered' with ⟨shares', each, sum⟩
          refine ⟨shares', each, ?_⟩
          rw [sum]
          exact holds'

/-- Threads that have nothing to do own nothing. -/
theorem covered_none {count : Nat} {shares : List Share}
    (each :
      List.Forall₂ (Covered allowed invariant service)
        (List.replicate count none) shares) :
    shares.sum = 0 := by
  induction count generalizing shares with
  | zero =>
      cases each
      rfl
  | succ count induction =>
      rw [List.replicate_succ] at each
      cases each with
      | @cons _ share _ _ covered others =>
          have nothing : share = 0 := covered
          rw [List.sum_cons, nothing, zero_add]
          exact induction others

theorem divided_idle {shared : Shared} (holds : invariant shared 0)
    (count : Nat) :
    Divided allowed invariant service (Pool.idle shared count) := by
  have each :
      List.Forall₂ (Covered allowed invariant service)
        (List.replicate count none) (List.replicate count 0) := by
    induction count with
    | zero => exact .nil
    | succ count induction => exact .cons rfl induction
  refine ⟨List.replicate count 0, each, ?_⟩
  rw [covered_none each]
  exact holds

/-- Where no thread is in a call, the invariant holds with nothing owned. -/
theorem Divided.at_rest {pool : Pool Shared Answer Result}
    (divided : Divided allowed invariant service pool)
    (rest : pool.AtRest) :
    invariant pool.shared 0 := by
  rcases divided with ⟨shares, covers, holds⟩
  have same : pool.threads = List.replicate pool.threads.length none := by
    apply List.eq_replicate_of_mem
    intro thread member
    exact Option.isNone_iff_eq_none.mp (rest thread member)
  rw [same] at covers
  rw [covered_none covers] at holds
  exact holds

/-- The state stays divided over every schedule. -/
theorem divided_schedule (serves : Serves allowed invariant service)
    {shared : Shared} (holds : invariant shared 0) (count : Nat)
    {schedule : List (Move Answer Request)}
    (may : ∀ step ∈ schedule, step.Allowed allowed) :
    Divided allowed invariant service
      (finalState (Pool.move service) (Pool.idle shared count) schedule) := by
  apply finalState_invariant
    (Divided allowed invariant service)
    (fun pool step divided may => divided_move serves may divided)
    (divided_idle holds count)
  exact (along_const _ schedule).mpr may

end Shares

end NeoC.Foundation
