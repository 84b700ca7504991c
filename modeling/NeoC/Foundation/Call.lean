import Mathlib.Data.List.Basic

/-!
# Stateful calls that may halt early

A C function changes objects it was given and then either returns a value or
halts for a reason.  `Call ε σ α` is that shape: the state is returned in both
cases, because a function that fails halfway leaves behind what it already
wrote.  The rules below take a sequence of calls apart without unfolding the
monad.
-/

namespace NeoC.Foundation

/-- A computation on a state `σ` that returns an `α` or halts with an `ε`. -/
def Call (ε σ α : Type) : Type :=
  σ → Except ε α × σ

namespace Call

variable {ε σ α β : Type}

/-- Return a value and leave the state alone. -/
protected def pure (value : α) : Call ε σ α :=
  fun state => (.ok value, state)

/-- Run one call and hand its value to the next one, unless it halted. -/
protected def bind (first : Call ε σ α) (next : α → Call ε σ β) :
    Call ε σ β :=
  fun state =>
    match first state with
    | (.ok value, state') => next value state'
    | (.error reason, state') => (.error reason, state')

instance : Monad (Call ε σ) where
  pure := Call.pure
  bind := Call.bind

/-- Halt in the current state. -/
def halt (reason : ε) : Call ε σ α :=
  fun state => (.error reason, state)

/-- Read off a part of the state. -/
def read (view : σ → α) : Call ε σ α :=
  fun state => (.ok (view state), state)

/-- Replace the state. -/
def update (change : σ → σ) : Call ε σ Unit :=
  fun state => (.ok (), change state)

/-- Run a call on an object local to the caller. -/
def eval (call : Call ε σ α) (state : σ) : Except ε (α × σ) :=
  match call state with
  | (.ok value, state') => .ok (value, state')
  | (.error reason, _) => .error reason

/-- A call that does not touch the state. -/
def lift (outcome : Except ε α) : Call ε σ α :=
  fun state => (outcome, state)

/-- Run a call for every element of a list, up to the first that halts. -/
def forEach (call : α → Call ε σ Unit) : List α → Call ε σ Unit
  | [] => Call.pure ()
  | item :: rest => Call.bind (call item) fun _ => forEach call rest

/-- Run a call a number of times and collect its values. -/
def times (call : Call ε σ α) : Nat → Call ε σ (List α)
  | 0 => Call.pure []
  | count + 1 =>
      Call.bind call fun value =>
        Call.bind (times call count) fun values =>
          Call.pure (value :: values)

/-! ## Running the primitives -/

@[simp]
theorem pure_run (value : α) (state : σ) :
    (pure value : Call ε σ α) state = (.ok value, state) :=
  rfl

@[simp]
theorem halt_run (reason : ε) (state : σ) :
    (halt reason : Call ε σ α) state = (.error reason, state) :=
  rfl

@[simp]
theorem read_run (view : σ → α) (state : σ) :
    (read view : Call ε σ α) state = (.ok (view state), state) :=
  rfl

@[simp]
theorem update_run (change : σ → σ) (state : σ) :
    (update change : Call ε σ Unit) state = (.ok (), change state) :=
  rfl

@[simp]
theorem lift_run (outcome : Except ε α) (state : σ) :
    (lift outcome : Call ε σ α) state = (outcome, state) :=
  rfl

theorem bind_of_ok
    {first : Call ε σ α} {next : α → Call ε σ β}
    {state state' : σ} {value : α}
    (ran : first state = (.ok value, state')) :
    (first >>= next) state = next value state' := by
  change Call.bind first next state = _
  simp only [Call.bind, ran]

theorem bind_of_error
    {first : Call ε σ α} {next : α → Call ε σ β}
    {state state' : σ} {reason : ε}
    (ran : first state = (.error reason, state')) :
    (first >>= next) state = (.error reason, state') := by
  change Call.bind first next state = _
  simp only [Call.bind, ran]

theorem lift_ok_bind (value : α) (next : α → Call ε σ β) (state : σ) :
    (lift (.ok value) >>= next) state = next value state :=
  rfl

theorem lift_error_bind (reason : ε) (next : α → Call ε σ β) (state : σ) :
    (lift (.error reason) >>= next) state = (.error reason, state) :=
  rfl

/-- Dropping the value of a call does not change what it does. -/
theorem discard_state (call : Call ε σ α) (state : σ) :
    ((call >>= fun _ => (pure () : Call ε σ Unit)) state).2 =
      (call state).2 := by
  rcases ran : call state with ⟨reason | value, state'⟩
  · rw [bind_of_error ran]
  · rw [bind_of_ok ran]
    rfl

/-- Sequencing is associative. -/
theorem bind_assoc {γ : Type}
    (first : Call ε σ α) (next : α → Call ε σ β) (last : β → Call ε σ γ) :
    (first >>= next) >>= last =
      first >>= fun value => next value >>= last := by
  funext state
  rcases ran : first state with ⟨reason | value, state'⟩
  · rw [bind_of_error (bind_of_error ran), bind_of_error ran]
  · rw [bind_of_ok ran]
    rcases ran' : next value state' with ⟨reason | value', state''⟩
    · rw [bind_of_error ran', bind_of_error ((bind_of_ok ran).trans ran')]
    · rw [bind_of_ok ran', bind_of_ok ((bind_of_ok ran).trans ran')]

/-- A sequence succeeds exactly when both halves do. -/
theorem bind_eq_ok_iff
    {first : Call ε σ α} {next : α → Call ε σ β}
    {state final : σ} {result : β} :
    (first >>= next) state = (.ok result, final) ↔
      ∃ value state',
        first state = (.ok value, state') ∧
          next value state' = (.ok result, final) := by
  constructor
  · intro ran
    rcases outcome : first state with ⟨value | value, state'⟩
    · rw [bind_of_error outcome] at ran
      cases ran
    · rw [bind_of_ok outcome] at ran
      exact ⟨value, state', rfl, ran⟩
  · rintro ⟨value, state', ran, rest⟩
    rw [bind_of_ok ran, rest]

theorem eval_eq_ok_iff
    {call : Call ε σ α} {state final : σ} {value : α} :
    call.eval state = .ok (value, final) ↔
      call state = (.ok value, final) := by
  unfold eval
  rcases outcome : call state with ⟨reason | result, state'⟩
  · simp
  · simp

/-- The state that a call without a value leaves. -/
theorem eval_state_eq_ok_iff {call : Call ε σ Unit} {state final : σ} :
    (call.eval state >>= fun result => Except.ok result.2) = .ok final ↔
      call state = (.ok (), final) := by
  unfold eval
  rcases outcome : call state with ⟨reason | ⟨⟩, state'⟩
  · refine iff_of_false nofun ?_
    intro same
    injection same with failed
    cases failed
  · constructor
    · intro same
      injection same with same
      exact congrArg (Prod.mk (Except.ok ())) same
    · intro same
      injection same with _ same
      exact congrArg Except.ok same

theorem forEach_map (call : β → Call ε σ Unit) (change : α → β)
    (items : List α) :
    forEach call (items.map change) =
      forEach (fun item => call (change item)) items := by
  induction items with
  | nil => rfl
  | cons item rest induction =>
      rw [List.map_cons, forEach, forEach, induction]

section Series

variable {call : α → Call ε σ Unit} {items : List α}
  {invariant : List α → σ → Prop}

/--
What holds of the items that were dealt with and the state, and is kept by
every successful call, holds of all items after a successful series.
-/
theorem forEach_eq_ok
    (step :
      ∀ done item rest state state',
        items = done ++ item :: rest →
          invariant done state →
            call item state = (.ok (), state') →
              invariant (done ++ [item]) state')
    {state final : σ} (holds : invariant [] state)
    (ran : forEach call items state = (.ok (), final)) :
    invariant items final := by
  have general :
      ∀ rest done state,
        items = done ++ rest →
          invariant done state →
            forEach call rest state = (.ok (), final) →
              invariant items final := by
    intro rest
    induction rest with
    | nil =>
        intro done state whole holds ran
        rw [List.append_nil] at whole
        injection ran with _ same
        rw [whole, ← same]
        exact holds
    | cons item rest induction =>
        intro done state whole holds ran
        rcases bind_eq_ok_iff.mp ran with ⟨⟨⟩, state', first, later⟩
        refine induction (done ++ [item]) state' ?_ ?_ later
        · rw [whole, List.append_assoc, List.singleton_append]
        · exact step done item rest state state' whole holds first
  exact general items [] state rfl holds ran

/-- A loop that halted has run the calls before the one that halts. -/
theorem forEach_eq_error
    {call : α → Call ε σ Unit} {items : List α} {state final : σ} {reason : ε}
    (ran : forEach call items state = (.error reason, final)) :
    ∃ done item rest between,
      items = done ++ item :: rest ∧
        forEach call done state = (.ok (), between) ∧
          call item between = (.error reason, final) := by
  induction items generalizing state with
  | nil => cases ran
  | cons item rest induction =>
      rcases first : call item state with ⟨reason' | ⟨⟩, between⟩
      · have halted := (bind_of_error first).symm.trans ran
        cases halted
        exact ⟨[], item, rest, state, rfl, rfl, first⟩
      · have later : forEach call rest between = (.error reason, final) :=
          (bind_of_ok first).symm.trans ran
        rcases induction later with
          ⟨done, halting, others, last, rfl, ran', halts⟩
        exact
          ⟨item :: done, halting, others, last, rfl,
            (bind_of_ok first).trans ran', halts⟩

/-- If every call succeeds after those before it, the series does. -/
theorem forEach_succeeds
    (step :
      ∀ done item rest state,
        items = done ++ item :: rest →
          invariant done state →
            ∃ state',
              call item state = (.ok (), state') ∧
                invariant (done ++ [item]) state')
    {state : σ} (holds : invariant [] state) :
    ∃ final, forEach call items state = (.ok (), final) := by
  have general :
      ∀ rest done state,
        items = done ++ rest →
          invariant done state →
            ∃ final, forEach call rest state = (.ok (), final) := by
    intro rest
    induction rest with
    | nil =>
        intro done state _ _
        exact ⟨state, rfl⟩
    | cons item rest induction =>
        intro done state whole holds
        rcases step done item rest state whole holds with
          ⟨state', first, kept⟩
        have following : items = (done ++ [item]) ++ rest := by
          rw [whole, List.append_assoc, List.singleton_append]
        rcases induction (done ++ [item]) state' following kept with
          ⟨final, later⟩
        exact ⟨final, bind_eq_ok_iff.mpr ⟨(), state', first, later⟩⟩
  exact general items [] state rfl holds

end Series

/--
When a call makes one value of its item or fails without making one, a
series makes the values of the items before the first that fails, in order,
and stops as the call stops there.
-/
theorem forEach_emits
    {call : α → Call ε σ Unit}
    {view : σ → List β}
    {made : α → β → Prop}
    {invariant : σ → Prop}
    (step :
      ∀ item state,
        invariant state →
          (∃ reason state',
            call item state = (.error reason, state') ∧
              view state' = view state) ∨
          ∃ value state',
            call item state = (.ok (), state') ∧ invariant state' ∧
              made item value ∧ view state' = view state ++ [value])
    (items : List α)
    {state : σ}
    (holds : invariant state) :
    ∃ done values between,
      List.Forall₂ made done values ∧
        forEach call done state = (.ok (), between) ∧
          view between = view state ++ values ∧
            (items = done ∨
              ∃ reason item rest final,
                items = done ++ item :: rest ∧
                  call item between = (.error reason, final) ∧
                    forEach call items state = (.error reason, final) ∧
                      view final = view between) := by
  induction items generalizing state with
  | nil =>
      exact ⟨[], [], state, .nil, rfl, (List.append_nil _).symm, .inl rfl⟩
  | cons item rest induction =>
      rcases step item state holds with
        ⟨reason, state', failed, unchanged⟩ |
        ⟨value, state', ran, kept, isMade, appended⟩
      · exact
          ⟨[], [], state, .nil, rfl, (List.append_nil _).symm,
            .inr
              ⟨reason, item, rest, state', rfl, failed, bind_of_error failed,
                unchanged⟩⟩
      · have continued (items : List α) :
            forEach call (item :: items) state = forEach call items state' :=
          bind_of_ok ran
        rcases induction kept with
          ⟨done, values, between, makes, finished, written, ended⟩
        refine
          ⟨item :: done, value :: values, between, .cons isMade makes, ?_, ?_,
            ?_⟩
        · rw [continued, finished]
        · rw [written, appended, List.append_assoc, List.singleton_append]
        · rcases ended with
            rfl | ⟨reason, next, later, final, rfl, failed, halted, unchanged⟩
          · exact .inl rfl
          · refine .inr ⟨reason, next, later, final, rfl, failed, ?_, unchanged⟩
            rw [continued, halted]

/-! ## What the returned values are -/

/-- Every value that the call returns has the property. -/
def Yields (call : Call ε σ α) (property : α → Prop) : Prop :=
  ∀ state value state', call state = (.ok value, state') → property value

section Yields

variable {call : Call ε σ α} {property : α → Prop} {result : β → Prop}

theorem yields_pure {value : α} (holds : property value) :
    Yields (pure value : Call ε σ α) property := by
  intro state value' state' ran
  injection ran with same
  injection same with equal
  rwa [← equal]

theorem yields_halt (reason : ε) :
    Yields (halt reason : Call ε σ α) property := by
  intro state value state' ran
  cases ran

theorem Yields.bind {next : α → Call ε σ β}
    (first : Yields call property)
    (later : ∀ value, property value → Yields (next value) result) :
    Yields (call >>= next) result := by
  intro state value state' ran
  rcases bind_eq_ok_iff.mp ran with ⟨middle, between, ranFirst, ranNext⟩
  exact
    later middle (first state middle between ranFirst) between value state'
      ranNext

/-- Without a look at the first value. -/
theorem Yields.after {next : α → Call ε σ β}
    (later : ∀ value, Yields (next value) result) :
    Yields (call >>= next) result :=
  Yields.bind (fun _ _ _ _ => trivial : Yields call fun _ => True)
    fun value _ => later value

theorem Yields.times (each : Yields call property) (count : Nat) :
    Yields (call.times count) fun values =>
      values.length = count ∧ ∀ value ∈ values, property value := by
  induction count with
  | zero => exact yields_pure ⟨rfl, List.forall_mem_nil _⟩
  | succ count induction =>
      refine each.bind fun value holds => ?_
      refine induction.bind fun values later => yields_pure ?_
      exact
        ⟨by rw [List.length_cons, later.1],
          List.forall_mem_cons.mpr ⟨holds, later.2⟩⟩

end Yields

/-! ## What a call leaves alone -/

variable {View : Type}

/-- The call does not change what the view shows of the state. -/
def Preserves (view : σ → View) (call : Call ε σ α) : Prop :=
  ∀ state, view (call state).2 = view state

namespace Preserves

variable {view : σ → View}

protected theorem pure (value : α) :
    Preserves view (Pure.pure value : Call ε σ α) :=
  fun _ => rfl

theorem halt (reason : ε) : Preserves view (Call.halt reason : Call ε σ α) :=
  fun _ => rfl

theorem lift (outcome : Except ε α) : Preserves view (Call.lift outcome) :=
  fun _ => rfl

theorem read (look : σ → α) :
    Preserves view (Call.read look : Call ε σ α) :=
  fun _ => rfl

theorem update {change : σ → σ}
    (unseen : ∀ state, view (change state) = view state) :
    Preserves view (Call.update change : Call ε σ Unit) :=
  unseen

theorem bind {first : Call ε σ α} {next : α → Call ε σ β}
    (left : Preserves view first)
    (right : ∀ value, Preserves view (next value)) :
    Preserves view (first >>= next) := by
  intro state
  rcases ran : first state with ⟨reason | value, after⟩
  · rw [bind_of_error ran]
    exact (congrArg (fun result => view result.2) ran).symm.trans (left state)
  · rw [bind_of_ok ran, right value after]
    exact (congrArg (fun result => view result.2) ran).symm.trans (left state)

theorem ite {condition : Prop} [Decidable condition]
    {first second : Call ε σ α}
    (left : Preserves view first) (right : Preserves view second) :
    Preserves view (if condition then first else second) := by
  split
  · exact left
  · exact right

end Preserves

end Call

/-- A chain of calls without state succeeds exactly when both halves do. -/
theorem Except.bind_eq_ok_iff {ε α β : Type}
    {first : Except ε α} {next : α → Except ε β} {result : β} :
    (first >>= next) = .ok result ↔
      ∃ value, first = .ok value ∧ next value = .ok result := by
  cases first with
  | error reason => simp [bind, Except.bind]
  | ok value => simp [bind, Except.bind]

/-- A value is handed on to the next step. -/
theorem Except.ok_bind {ε α β : Type} (value : α) (next : α → Except ε β) :
    ((.ok value : Except ε α) >>= next) = next value :=
  rfl

/-- A step that succeeds hands its value on. -/
theorem Except.bind_of_ok {ε α β : Type} {first : Except ε α} {value : α}
    (ran : first = .ok value) (next : α → Except ε β) :
    (first >>= next) = next value := by
  rw [ran]
  rfl

/-- What is made of each item is made of all of them. -/
theorem Except.mapM_eq_ok {ε α β : Type} {call : α → Except ε β}
    {value : α → β} {items : List α}
    (each : ∀ item ∈ items, call item = .ok (value item)) :
    items.mapM call = .ok (items.map value) := by
  induction items with
  | nil => rfl
  | cons item rest induction =>
      rcases List.forall_mem_cons.mp each with ⟨first, later⟩
      rw [List.map_cons, List.mapM_cons]
      refine bind_eq_ok_iff.mpr ⟨value item, first, ?_⟩
      exact bind_eq_ok_iff.mpr ⟨rest.map value, induction later, rfl⟩

theorem Except.mapM_map_eq_ok {ε α β : Type} {call : α → Except ε β}
    {encode : β → α} {values : List β}
    (each : ∀ value ∈ values, call (encode value) = .ok value) :
    (values.map encode).mapM call = .ok values := by
  have made : values.mapM (call ∘ encode) = .ok (values.map id) :=
    mapM_eq_ok each
  rw [List.mapM_map, made, List.map_id]

/-- The items are gone through to the end if none of the calls fails. -/
theorem Except.mapM_succeeds_iff {ε α β : Type} {call : α → Except ε β}
    {items : List α} :
    (∃ values, items.mapM call = .ok values) ↔
      ∀ item ∈ items, ∃ value, call item = .ok value := by
  induction items with
  | nil => exact iff_of_true ⟨[], rfl⟩ (List.forall_mem_nil _)
  | cons item rest induction =>
      rw [List.forall_mem_cons, ← induction, List.mapM_cons]
      constructor
      · rintro ⟨values, made⟩
        rcases bind_eq_ok_iff.mp made with ⟨value, first, made⟩
        rcases bind_eq_ok_iff.mp made with ⟨others, later, -⟩
        exact ⟨⟨value, first⟩, others, later⟩
      · rintro ⟨⟨value, first⟩, others, later⟩
        exact
          ⟨value :: others,
            bind_eq_ok_iff.mpr
              ⟨value, first, bind_eq_ok_iff.mpr ⟨others, later, rfl⟩⟩⟩

/-- Every value that is made of a list is made of one of its items. -/
theorem Except.of_mapM_eq_ok {ε α β : Type} {call : α → Except ε β}
    {items : List α} {values : List β}
    (made : items.mapM call = .ok values) :
    values.length = items.length ∧
      ∀ value ∈ values, ∃ item ∈ items, call item = .ok value := by
  induction items generalizing values with
  | nil =>
      injection made with same
      rw [← same]
      exact ⟨rfl, List.forall_mem_nil _⟩
  | cons item rest induction =>
      rw [List.mapM_cons] at made
      rcases bind_eq_ok_iff.mp made with ⟨first, madeFirst, made⟩
      rcases bind_eq_ok_iff.mp made with ⟨later, madeLater, made⟩
      injection made with same
      rcases induction madeLater with ⟨length, each⟩
      rw [← same]
      refine ⟨by rw [List.length_cons, List.length_cons, length], ?_⟩
      refine List.forall_mem_cons.mpr ⟨?_, ?_⟩
      · exact ⟨item, List.mem_cons_self, madeFirst⟩
      · intro value member
        rcases each value member with ⟨source, inside, madeOf⟩
        exact ⟨source, List.mem_cons_of_mem _ inside, madeOf⟩

end NeoC.Foundation
