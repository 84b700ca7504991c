import NeoC.Foundation.Run
import NeoC.Runtime.Cells

/-!
# Byte arrays that are resized

A `neoc_bytes_t` keeps a length and a capacity.  Shrinking it only moves the
length, except for a shrink to nothing, which frees the storage.  Growing past
the capacity reallocates and writes zeros behind the old bytes; growing within
the capacity only moves the length again, and what was cut off before is there
once more.  So the array is the list it is meant to be exactly as long as such
a growth uncovers nothing but zeros.
-/

namespace NeoC

open Foundation

/-- A `neoc_bytes_t`; without storage, the pointer is `NULL`. -/
structure NeocBytes where
  data : Cells UInt8
  length : Nat
  capacity : Nat
deriving DecidableEq, Repr

namespace NeocBytes

/-! ## The calls -/

/-- `sizeof(neoc_bytes_t)`. -/
def structSize : Nat := 24

/-- `neoc_bytes_create`; `none` is `NULL`. -/
def create (alloc : Allocator) (length : Nat) :
    Outcome (Option NeocBytes) :=
  if alloc.neocGrants structSize = false then
    .ok none
  else if length > 0 then
    if alloc.neocGrants length = false then
      .ok none
    else do
      let data ←
        (Cells.fresh length).store 0 (Cells.written (List.replicate length 0))
      .ok (some { data, length, capacity := length })
  else
    .ok (some { data := [], length, capacity := length })

/-- `neoc_bytes_from_data`. -/
def fromData (alloc : Allocator) (data : Buffer) :
    Outcome (Option NeocBytes) :=
  match data with
  | .null length =>
      if length > 0 then .ok none else create alloc length
  | .items content => do
      match ← create alloc content.length with
      | none => .ok none
      | some bytes =>
          if content.length > 0 then do
            let data ← bytes.data.store 0 (Cells.written content)
            .ok (some { bytes with data })
          else
            .ok (some bytes)

/-- `neoc_bytes_resize`. -/
def resize (alloc : Allocator) (newLength : Nat) : Routine NeocBytes Unit :=
  fun bytes =>
    if newLength = bytes.length then
      (.ok (), bytes)
    else if newLength = 0 then
      (.ok (), { data := [], length := 0, capacity := 0 })
    else if newLength ≤ bytes.capacity then
      (.ok (), { bytes with length := newLength })
    else if alloc.neocGrants newLength = false then
      errorSet .outOfMemory "" bytes
    else
      -- `memset` is called for a length above the old one only
      match
        (bytes.data.realloc newLength).store bytes.length
          (Cells.written (List.replicate (newLength - bytes.length) 0))
      with
      | .error reason => Call.halt reason bytes
      | .ok data =>
          (.ok (), { data, length := newLength, capacity := newLength })

/-- The `memcpy` of `neoc_bytes_append`. -/
def storeAt (offset : Nat) (content : List UInt8) : Routine NeocBytes Unit :=
  fun bytes =>
    match bytes.data.store offset (Cells.written content) with
    | .error reason => Call.halt reason bytes
    | .ok data => (.ok (), { bytes with data })

/-- `neoc_bytes_append`. -/
def append (alloc : Allocator) (data : Buffer) : Routine NeocBytes Unit :=
  match data with
  | .null length =>
      if length > 0 then errorSet .nullPointer "" else pure ()
  | .items content =>
      if content.length = 0 then
        pure ()
      else do
        let oldLength ← Call.read NeocBytes.length
        resize alloc (sizeAdd oldLength content.length)
        storeAt oldLength content

/-! ## Runs and the list they are compared with -/

/-- How an array is made. -/
inductive Start where
  | create (length : Nat)
  | fromData (data : Buffer)

def Start.perform (alloc : Allocator) :
    Start → Outcome (Option NeocBytes)
  | .create length => NeocBytes.create alloc length
  | .fromData data => NeocBytes.fromData alloc data

/-- The list to begin with. -/
def Start.content : Start → List UInt8
  | .create length => List.replicate length 0
  | .fromData data => data.content

/-- The calls of a run.  No object is larger than `PTRDIFF_MAX` bytes. -/
inductive Change where
  | resize (newLength : Nat)
  | append (data : { data : Buffer // data.content.length ≤ ptrdiffMax })

def Change.perform (alloc : Allocator) :
    Change → Routine NeocBytes Unit
  | .resize newLength => NeocBytes.resize alloc newLength
  | .append data => NeocBytes.append alloc data.val

/-- What a call is to do to a list. -/
def Change.apply : Change → List UInt8 → List UInt8
  | .resize newLength, content =>
      content.take newLength ++
        List.replicate (newLength - content.length) 0
  | .append data, content => content ++ data.val.content

/-- A call and the allocator it meets. -/
abbrev Step := Allocator × Change

def next (bytes : NeocBytes) (step : Step) : NeocBytes :=
  (step.2.perform step.1 bytes).2

/-- The list changes with every call that succeeds. -/
def follow (bytes : NeocBytes) (step : Step) (content : List UInt8) :
    List UInt8 :=
  if (step.2.perform step.1 bytes).1.isOk then
    step.2.apply content
  else
    content

/-- The array holds a list. -/
structure Holds (bytes : NeocBytes) (content : List UInt8) : Prop where
  length_le : bytes.length ≤ bytes.capacity
  length_eq : bytes.length = content.length
  data_eq : bytes.data.take bytes.length = Cells.written content

/-- A call returns, if not successfully then with an error code. -/
def Returns (bytes : NeocBytes) (step : Step) : Prop :=
  ∀ reason,
    (step.2.perform step.1 bytes).1 = .error reason →
      ∃ code text, reason = .error code text

/-- A growth within the capacity uncovers nothing but zeros. -/
def Clean (bytes : NeocBytes) (step : Step) : Prop :=
  match step.2 with
  | .resize newLength =>
      newLength ≤ bytes.capacity →
        ∀ cell ∈ (bytes.data.take newLength).drop bytes.length,
          cell = some 0
  | .append _ => True

instance (bytes : NeocBytes) (step : Step) : Decidable (Clean bytes step) :=
  match step with
  | (_, .resize _) => @instDecidableForall _ _ _ (List.decidableBAll _ _)
  | (_, .append _) => inferInstanceAs (Decidable True)

/-! ## What a call does -/

/-- The storage has been written, up to the capacity. -/
structure WellFormed (bytes : NeocBytes) : Prop where
  length_le : bytes.length ≤ bytes.capacity
  capacity_le : bytes.capacity ≤ ptrdiffMax
  written :
    ∃ storage : List UInt8,
      bytes.data = Cells.written storage ∧ storage.length = bytes.capacity

variable {alloc : Allocator} {bytes : NeocBytes}

theorem WellFormed.length_data (wellFormed : bytes.WellFormed) :
    bytes.data.length = bytes.capacity := by
  rcases wellFormed.written with ⟨storage, same, length⟩
  rw [same, Cells.length_written, length]

/-- Every way a resizing can end. -/
theorem resize_cases (alloc : Allocator) (wellFormed : bytes.WellFormed)
    (newLength : Nat) :
    (∃ after,
      resize alloc newLength bytes = (.ok (), after) ∧ after.WellFormed ∧
        after.length = newLength ∧ newLength ≤ bytes.capacity ∧
        after.data.take newLength = bytes.data.take newLength) ∨
      (∃ after,
        resize alloc newLength bytes = (.ok (), after) ∧
          after.WellFormed ∧ after.length = newLength ∧
          bytes.capacity < newLength ∧
          after.data.take newLength =
            bytes.data.take bytes.length ++
              Cells.written
                (List.replicate (newLength - bytes.length) 0)) ∨
        resize alloc newLength bytes =
            (.error (.error .outOfMemory ""), bytes) ∧
          bytes.capacity < newLength := by
  rcases wellFormed with ⟨ordered, bounded, storage, content, full⟩
  unfold resize
  split
  · rename_i same
    exact
      .inl
        ⟨bytes, rfl, ⟨ordered, bounded, storage, content, full⟩, same.symm,
          same.symm ▸ ordered, rfl⟩
  split
  · rename_i zero
    refine .inl ⟨_, rfl, ⟨le_rfl, Nat.zero_le _, [], rfl, rfl⟩, ?_⟩
    rw [zero]
    exact ⟨rfl, Nat.zero_le _, rfl⟩
  split
  · rename_i within
    exact
      .inl
        ⟨_, rfl, ⟨within, bounded, storage, content, full⟩, rfl, within,
          rfl⟩
  split
  · rename_i beyond refused
    exact .inr (.inr ⟨rfl, Nat.lt_of_not_le beyond⟩)
  rename_i beyond granted
  have long : bytes.capacity < newLength :=
    Nat.lt_of_not_le beyond
  have small : newLength ≤ ptrdiffMax := by
    rw [Bool.not_eq_false, Allocator.neocGrants, Bool.and_eq_true]
      at granted
    exact alloc.grants_le newLength granted.2
  have length :
      (List.replicate (newLength - bytes.length) (0 : UInt8)).length =
        newLength - bytes.length :=
    List.length_replicate
  have room :
      bytes.length +
          (Cells.written (List.replicate (newLength - bytes.length) (0 : UInt8))
            ).length ≤
        (bytes.data.realloc newLength).length := by
    rw [Cells.length_written, length, Cells.length_realloc]
    omega
  have front :
      (bytes.data.realloc newLength).take bytes.length =
        bytes.data.take bytes.length := by
    have whole :
        (Cells.written storage).take newLength = Cells.written storage := by
      apply List.take_of_length_le
      rw [Cells.length_written]
      omega
    rw [Cells.realloc, content, whole, List.take_append_of_le_length]
    rw [Cells.length_written]
    omega
  have back :
      (bytes.data.realloc newLength).drop
          (bytes.length + (newLength - bytes.length)) =
        [] := by
    apply List.drop_of_length_le
    rw [Cells.length_realloc]
    omega
  rw [Cells.store_of_le room, Cells.length_written, length, front, back,
    List.append_nil]
  have made :
      bytes.data.take bytes.length ++
          Cells.written (List.replicate (newLength - bytes.length) 0) =
        Cells.written
          (storage.take bytes.length ++
            List.replicate (newLength - bytes.length) 0) := by
    rw [content, Cells.written_take, Cells.written_append]
  have total :
      (storage.take bytes.length ++
          List.replicate (newLength - bytes.length) (0 : UInt8)).length =
        newLength := by
    rw [List.length_append, List.length_take, length]
    omega
  refine
    .inr
      (.inl ⟨_, rfl, ⟨le_rfl, small, _, made, total⟩, rfl, long, ?_⟩)
  dsimp only
  rw [made, Cells.written_take, List.take_of_length_le total.le]

/-- Storing behind the old bytes hides what a growth has uncovered. -/
theorem storeAt_grown {after : NeocBytes} {content : List UInt8}
    (wellFormed : bytes.WellFormed) (made : after.WellFormed)
    (length : after.length = bytes.length + content.length)
    (front : after.data.take bytes.length = bytes.data.take bytes.length) :
    ∃ final,
      storeAt bytes.length content after = (.ok (), final) ∧
        final.WellFormed ∧
        final.length = bytes.length + content.length ∧
        final.data.take final.length =
          bytes.data.take bytes.length ++ Cells.written content := by
  rcases made with ⟨ordered, bounded, storage, same, full⟩
  have fits :
      bytes.length + (Cells.written content).length ≤
        after.data.length := by
    rw [same, Cells.length_written, Cells.length_written, full]
    omega
  have short : bytes.length ≤ storage.length := by
    omega
  refine
    ⟨{ after with
        data :=
          after.data.take bytes.length ++
            (Cells.written content ++
              after.data.drop
                (bytes.length + (Cells.written content).length)) },
      ?_, ⟨ordered, bounded,
        storage.take bytes.length ++
          (content ++ storage.drop (bytes.length + content.length)),
        ?_, ?_⟩, length, ?_⟩
  · rw [storeAt, Cells.store_of_le fits]
  · dsimp only
    rw [same, Cells.written_take, Cells.length_written,
      Cells.written_drop, Cells.written_append, Cells.written_append]
  · simp only [List.length_append, List.length_take, List.length_drop]
    omega
  · dsimp only
    rw [length, front, ← List.append_assoc]
    apply List.take_left'
    have old := wellFormed.length_data
    have inside := wellFormed.length_le
    rw [List.length_append, List.length_take, Cells.length_written]
    omega

/-- Every way an appending can end. -/
theorem append_cases (alloc : Allocator) (wellFormed : bytes.WellFormed)
    {data : Buffer} (small : data.content.length ≤ ptrdiffMax) :
    (∃ after,
      append alloc data bytes = (.ok (), after) ∧ after.WellFormed ∧
        after.length = bytes.length + data.content.length ∧
        after.data.take after.length =
          bytes.data.take bytes.length ++ Cells.written data.content) ∨
      ∃ code text,
        append alloc data bytes = (.error (.error code text), bytes) := by
  cases data with
  | null length =>
      rw [append]
      split
      · exact .inr ⟨_, _, rfl⟩
      · exact .inl ⟨bytes, rfl, wellFormed, rfl, (List.append_nil _).symm⟩
  | items content =>
      change content.length ≤ ptrdiffMax at small
      change
        (∃ after,
          append alloc (.items content) bytes = (.ok (), after) ∧
            after.WellFormed ∧
            after.length = bytes.length + content.length ∧
            after.data.take after.length =
              bytes.data.take bytes.length ++ Cells.written content) ∨ _
      rw [append]
      split
      · rename_i empty
        rw [List.length_eq_zero_iff.mp empty]
        exact .inl ⟨bytes, rfl, wellFormed, rfl, (List.append_nil _).symm⟩
      have lengthSmall := wellFormed.length_le.trans wellFormed.capacity_le
      have sum :
          sizeAdd bytes.length content.length =
            bytes.length + content.length := by
        apply sizeAdd_of_lt
        simp only [ptrdiffMax] at small lengthSmall
        simp only [sizeModulus]
        omega
      have stored {after : NeocBytes}
          (ran :
            resize alloc (bytes.length + content.length) bytes =
              (.ok (), after)) :
          (Call.read NeocBytes.length >>= fun oldLength =>
              resize alloc (sizeAdd oldLength content.length) >>= fun _ =>
                storeAt oldLength content) bytes =
            storeAt bytes.length content after := by
        refine (Call.bind_of_ok (Call.read_run _ _)).trans ?_
        rw [sum]
        exact Call.bind_of_ok ran
      rcases
          resize_cases alloc wellFormed
            (bytes.length + content.length) with
        ⟨after, ran, made, length, -, same⟩ |
        ⟨after, ran, made, length, -, same⟩ | ⟨failed, -⟩
      · rw [stored ran]
        refine .inl (storeAt_grown wellFormed made length ?_)
        have cut := congrArg (List.take bytes.length) same
        rwa [List.take_take, List.take_take, Nat.min_eq_left (by omega)]
          at cut
      · rw [stored ran]
        refine .inl (storeAt_grown wellFormed made length ?_)
        have cut := congrArg (List.take bytes.length) same
        have old := wellFormed.length_data
        have inside := wellFormed.length_le
        rw [List.take_take, Nat.min_eq_left (by omega)] at cut
        rw [cut]
        apply List.take_left'
        rw [List.length_take]
        omega
      · refine .inr ⟨.outOfMemory, "", ?_⟩
        refine (Call.bind_of_ok (Call.read_run _ _)).trans ?_
        rw [sum]
        exact Call.bind_of_error failed

/-! ## Runs -/

/-- The list that a well-formed array holds. -/
def contents (bytes : NeocBytes) : List UInt8 :=
  (bytes.data.take bytes.length).reduceOption

theorem reduceOption_written (content : List UInt8) :
    (Cells.written content).reduceOption = content := by
  change (content.map some).filterMap id = content
  rw [List.filterMap_map]
  exact List.filterMap_some

theorem WellFormed.take_data (wellFormed : bytes.WellFormed) :
    bytes.data.take bytes.length = Cells.written bytes.contents := by
  rcases wellFormed.written with ⟨storage, same, -⟩
  rw [contents, same, Cells.written_take, reduceOption_written]

theorem WellFormed.length_contents (wellFormed : bytes.WellFormed) :
    bytes.contents.length = bytes.length := by
  have length := congrArg List.length wellFormed.take_data
  rw [List.length_take, wellFormed.length_data,
    Nat.min_eq_left wellFormed.length_le, Cells.length_written] at length
  exact length.symm

theorem WellFormed.holds_iff (wellFormed : bytes.WellFormed)
    (content : List UInt8) :
    bytes.Holds content ↔ bytes.contents = content := by
  constructor
  · rintro ⟨-, -, same⟩
    rw [contents, same, reduceOption_written]
  · rintro rfl
    exact
      ⟨wellFormed.length_le, wellFormed.length_contents.symm,
        wellFormed.take_data⟩

/-- What a successful call leaves is what lies in front of the length. -/
theorem contents_eq_of_take {content : List UInt8}
    (same : bytes.data.take bytes.length = Cells.written content) :
    bytes.contents = content := by
  rw [contents, same, reduceOption_written]

theorem returns_of_ok {step : Step}
    (ran : (step.2.perform step.1 bytes).1 = .ok ()) :
    Returns bytes step := by
  intro reason absurdity
  rw [ran] at absurdity
  cases absurdity

theorem returns_of_error {step : Step} {code : ErrorCode} {text : String}
    (failed :
      (step.2.perform step.1 bytes).1 = .error (.error code text)) :
    Returns bytes step := by
  intro reason same
  rw [failed] at same
  cases same
  exact ⟨_, _, rfl⟩

/-- A call keeps the array well formed and returns. -/
theorem next_wellFormed (wellFormed : bytes.WellFormed) (step : Step) :
    (next bytes step).WellFormed ∧ Returns bytes step := by
  rcases step with ⟨alloc, newLength | ⟨data, small⟩⟩
  · rw [next, Change.perform]
    rcases resize_cases alloc wellFormed newLength with
      ⟨after, ran, made, -⟩ | ⟨after, ran, made, -⟩ | ⟨failed, -⟩
    · exact ⟨by rwa [ran], returns_of_ok (congrArg Prod.fst ran)⟩
    · exact ⟨by rwa [ran], returns_of_ok (congrArg Prod.fst ran)⟩
    · exact ⟨by rwa [failed], returns_of_error (congrArg Prod.fst failed)⟩
  · rw [next, Change.perform]
    rcases append_cases alloc wellFormed small with
      ⟨after, ran, made, -⟩ | ⟨code, text, failed⟩
    · exact ⟨by rwa [ran], returns_of_ok (congrArg Prod.fst ran)⟩
    · exact ⟨by rwa [failed], returns_of_error (congrArg Prod.fst failed)⟩

/-- Cells behind a list that are to be zeros. -/
theorem take_eq_zeros_iff {storage : List UInt8} {length newLength : Nat}
    (lengthInside : length ≤ storage.length)
    (inside : newLength ≤ storage.length) :
    storage.take newLength =
        (storage.take length).take newLength ++
          List.replicate (newLength - (storage.take length).length) 0 ↔
      ∀ byte ∈ (storage.take newLength).drop length, byte = 0 := by
  have parted :
      storage.take newLength =
        (storage.take length).take newLength ++
          (storage.take newLength).drop length := by
    conv_lhs => rw [← List.take_append_drop length (storage.take newLength)]
    rw [List.take_take, List.take_take, Nat.min_comm]
  have count :
      ((storage.take newLength).drop length).length =
        newLength - (storage.take length).length := by
    rw [List.length_drop, List.length_take, List.length_take]
    omega
  rw [← count]
  conv_lhs => lhs; rw [parted]
  rw [List.append_cancel_left_eq, List.eq_replicate_iff]
  exact and_iff_right rfl

/-- A call does to the list what it is to do, if it uncovers only zeros. -/
theorem next_contents_iff (wellFormed : bytes.WellFormed) (step : Step) :
    (next bytes step).contents = follow bytes step bytes.contents ↔
      Clean bytes step := by
  have length := wellFormed.length_contents
  rcases step with ⟨alloc, newLength | ⟨data, small⟩⟩
  · have fails (beyond : bytes.capacity < newLength) :
        Clean bytes (alloc, .resize newLength) :=
      fun within => absurd within (Nat.not_le.mpr beyond)
    rcases resize_cases alloc wellFormed newLength with
      ⟨after, ran, made, moved, within, same⟩ |
      ⟨after, ran, made, moved, beyond, same⟩ | ⟨failed, beyond⟩
    · rw [next, follow, Change.perform, ran]
      rcases wellFormed.written with ⟨storage, content, full⟩
      have uncovered : after.contents = storage.take newLength := by
        apply contents_eq_of_take
        rw [moved, same, content, Cells.written_take]
      have before : bytes.contents = storage.take bytes.length := by
        apply contents_eq_of_take
        rw [content, Cells.written_take]
      have zeros :=
        take_eq_zeros_iff (full ▸ wellFormed.length_le) (full ▸ within)
      change
        after.contents = Change.apply (.resize newLength) bytes.contents ↔
          (newLength ≤ bytes.capacity →
            ∀ cell ∈ (bytes.data.take newLength).drop bytes.length,
              cell = some 0)
      rw [uncovered, before, Change.apply, zeros, content,
        Cells.written_take, Cells.written_drop]
      simp only [within, true_imp_iff, Cells.written, List.forall_mem_map,
        Option.some.injEq]
    · refine iff_of_true ?_ (fails beyond)
      rw [next, follow, Change.perform, ran]
      apply contents_eq_of_take
      have short : bytes.contents.take newLength = bytes.contents := by
        apply List.take_of_length_le
        have ordered := wellFormed.length_le
        omega
      change _ = Cells.written (Change.apply (.resize newLength) bytes.contents)
      rw [moved, same, wellFormed.take_data, ← Cells.written_append,
        Change.apply, short, length]
    · refine iff_of_true ?_ (fails beyond)
      rw [next, follow, Change.perform, failed]
      rfl
  · refine iff_of_true ?_ trivial
    rcases append_cases alloc wellFormed small with
      ⟨after, ran, made, moved, same⟩ | ⟨code, text, failed⟩
    · rw [next, follow, Change.perform, ran]
      apply contents_eq_of_take
      rw [same, wellFormed.take_data, ← Cells.written_append]
      rfl
    · rw [next, follow, Change.perform, failed]
      rfl

theorem create_wellFormed {length : Nat}
    (made : create alloc length = .ok (some bytes)) :
    bytes.WellFormed ∧ bytes.length = length ∧
      bytes.data = Cells.written (List.replicate length 0) := by
  rw [create] at made
  split at made
  · cases made
  split at made
  · split at made
    · cases made
    rename_i granted
    have small : length ≤ ptrdiffMax := by
      rw [Bool.not_eq_false, Allocator.neocGrants, Bool.and_eq_true]
        at granted
      exact alloc.grants_le length granted.2
    have stored :
        (Cells.fresh length).store 0
            (Cells.written (List.replicate length (0 : UInt8))) =
          .ok (Cells.written (List.replicate length 0)) :=
      Cells.store_whole (by simp)
    rw [stored] at made
    injection made with same
    injection same with same
    rw [← same]
    exact
      ⟨⟨le_rfl, small, _, rfl, List.length_replicate⟩, rfl, rfl⟩
  · rename_i empty
    have zero : length = 0 := by
      omega
    subst zero
    injection made with same
    injection same with same
    rw [← same]
    exact ⟨⟨le_rfl, Nat.zero_le _, [], rfl, rfl⟩, rfl, rfl⟩

theorem create_holds {length : Nat}
    (made : create alloc length = .ok (some bytes)) :
    bytes.WellFormed ∧ bytes.Holds (List.replicate length 0) := by
  rcases create_wellFormed made with ⟨wellFormed, size, data⟩
  refine ⟨wellFormed, (wellFormed.holds_iff _).mpr ?_⟩
  apply contents_eq_of_take
  rw [size, data, Cells.written_take, List.take_of_length_le (by simp)]

theorem fromData_holds {content : List UInt8}
    (made : fromData alloc (.items content) = .ok (some bytes)) :
    bytes.WellFormed ∧ bytes.Holds content := by
  rcases Except.bind_eq_ok_iff.mp made with ⟨result, new, made⟩
  cases result with
  | none => cases made
  | some before =>
      rcases create_wellFormed new with ⟨wellFormed, size, data⟩
      dsimp only at made
      split at made
      · have stored :
            before.data.store 0 (Cells.written content) =
              .ok (Cells.written content) :=
          Cells.store_whole (by simp [data])
        rw [stored] at made
        injection made with same
        injection same with same
        have full :
            content.length = before.capacity := by
          rw [← wellFormed.length_data, data, Cells.length_written,
            List.length_replicate]
        have made :
            { before with data := Cells.written content }.WellFormed :=
          ⟨wellFormed.length_le, wellFormed.capacity_le, content, rfl,
            full⟩
        rw [← same]
        refine ⟨made, (made.holds_iff _).mpr ?_⟩
        apply contents_eq_of_take
        rw [size, Cells.written_take, List.take_length]
      · rename_i none
        have empty : content = [] :=
          List.length_eq_zero_iff.mp (by omega)
        injection made with same
        injection same with same
        subst same empty
        refine ⟨wellFormed, (wellFormed.holds_iff _).mpr ?_⟩
        apply contents_eq_of_take
        rw [size]
        rfl

/-- A new array holds what it is made of. -/
theorem start_holds {start : Start}
    (made : start.perform alloc = .ok (some bytes)) :
    bytes.WellFormed ∧ bytes.Holds start.content := by
  cases start with
  | create length => exact create_holds made
  | fromData data =>
      cases data with
      | null length =>
          rw [Start.perform, fromData] at made
          split at made
          · cases made
          · rename_i none
            have zero : length = 0 := by
              omega
            rw [zero] at made
            exact create_holds made
      | items content => exact fromData_holds made

/--
Along a run, every call returns and the array holds the list in every state
reached, exactly if no growth within the capacity uncovers anything but zeros.
-/
theorem holds_along_iff (alloc : Allocator) (start : Start)
    (bytes : NeocBytes) (made : start.perform alloc = .ok (some bytes))
    (steps : List Step) :
    (Along next Returns bytes steps ∧
        ∀ reached, reached <+: steps →
          (finalState next bytes reached).Holds
            (predict next follow bytes start.content reached)) ↔
      Along next Clean bytes steps := by
  rcases start_holds made with ⟨wellFormed, holds⟩
  have begins := (wellFormed.holds_iff _).mp holds
  have returns : Along next Returns bytes steps :=
    along_of_forall WellFormed
      (fun bytes step held => (next_wellFormed held step).1)
      (fun bytes step held => (next_wellFormed held step).2)
      wellFormed steps
  have kept (reached : List Step) :
      (finalState next bytes reached).WellFormed := by
    have free : Along next (fun _ _ => True) bytes reached :=
      (along_const bytes reached).mpr fun _ _ => trivial
    exact
      finalState_invariant WellFormed
        (fun bytes step held _ => (next_wellFormed held step).1) wellFormed
        free
  rw [and_iff_right returns, ← begins]
  simp only [fun reached => (kept reached).holds_iff]
  rw [predict_prefixes_iff]
  exact
    along_iff_of_invariant WellFormed
      (fun bytes step held _ => (next_wellFormed held step).1)
      (fun bytes step held => next_contents_iff held step) wellFormed steps

theorem holds_along_regrown :
    (finalState next
        { data := Cells.written [1], length := 1, capacity := 1 }
        [(.ample, .resize 3), (.ample, .resize 2), (.ample, .resize 3)]
      ).Holds [1, 0, 0] :=
  ((holds_along_iff .ample (.fromData (.items [1]))
      { data := Cells.written [1], length := 1, capacity := 1 }
      (by decide)
      [(.ample, .resize 3), (.ample, .resize 2), (.ample, .resize 3)]).mpr
    (by decide)).2 _ List.prefix_rfl

/-- Two bytes that were cut off are there again, in the place of zeros. -/
theorem shrunk_bytes_reappear :
    ∃ bytes,
      (Start.fromData (.items [1, 2, 3, 4])).perform .ample =
          .ok (some bytes) ∧
        predict next follow bytes [1, 2, 3, 4]
            [(.ample, .resize 2), (.ample, .resize 4)] =
          [1, 2, 0, 0] ∧
        (finalState next bytes
            [(.ample, .resize 2), (.ample, .resize 4)]).Holds
          [1, 2, 3, 4] ∧
        ¬ (finalState next bytes
            [(.ample, .resize 2), (.ample, .resize 4)]).Holds
          [1, 2, 0, 0] := by
  refine
    ⟨{ data := Cells.written [1, 2, 3, 4], length := 4, capacity := 4 },
      by decide, by decide, ⟨by decide, by decide, by decide⟩, ?_⟩
  intro holds
  exact absurd holds.data_eq (by decide)

end NeocBytes

end NeoC
