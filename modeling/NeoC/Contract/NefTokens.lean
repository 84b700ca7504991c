import NeoC.Contract.NefLayout
import NeoC.Foundation.Run

/-!
# The token array of a NEF file

An object that was created has an array whose capacity is known, and adding
tokens keeps it so: the array doubles until it has room for the most tokens
that a file may have.  An object that was read from a file has an array too,
and its capacity is zero.  The first token that is added to it asks for an
array of twice that capacity, which is none; the array is freed, and the
object keeps the pointer.  An object that was read may also have more tokens
than a file may have.

Both are excluded by a condition on the object at the start and on the state
before each step, and the condition is exact.
-/

namespace NeoC

open Foundation

namespace NefFile

/-! ## Additions and runs of them -/

/-- A call that adds a token, with the memory that it sees. -/
structure Addition where
  alloc : Allocator
  hash : Option Hash160
  method : Option CString
  parametersCount : UInt16
  hasReturnValue : Bool
  callFlags : UInt8

namespace Addition

/-- The token that is described, if the arguments are accepted. -/
def token (step : Addition) : Option NefMethodToken :=
  match step.hash, step.method with
  | some hash, some method =>
      if method.strlen > 31 then
        none
      else
        some
          (tokenOf hash method step.parametersCount step.hasReturnValue
            step.callFlags)
  | _, _ => none

/-- What the call does. -/
def run (host : Host) (step : Addition) : Routine NefFile Unit :=
  addMethodToken host step.alloc step.hash step.method
    step.parametersCount step.hasReturnValue step.callFlags

end Addition

/-- The object after a call, whether it succeeded or not. -/
def next (host : Host) (nef : NefFile) (step : Addition) : NefFile :=
  (step.run host nef).2

variable {host : Host} {nef : NefFile} {step : Addition}

/-- Without a token the call fails and changes nothing. -/
theorem run_of_token_none (refused : step.token = none) :
    ∃ code text, step.run host nef = (.error (.error code text), nef) := by
  rcases step with
    ⟨alloc, hash, method, parametersCount, hasReturnValue, callFlags⟩
  cases hash with
  | none => exact ⟨_, _, rfl⟩
  | some hash =>
      cases method with
      | none => exact ⟨_, _, rfl⟩
      | some method =>
          rw [Addition.token] at refused
          dsimp only at refused
          split at refused
          · rename_i long
            rw [Addition.run, addMethodToken, if_pos long]
            exact ⟨_, _, rfl⟩
          · cases refused

/-- With a token the call goes through its four parts. -/
theorem run_of_token_some {token : NefMethodToken}
    (some : step.token = some token) :
    step.run host =
      requireRoom >>= fun _ =>
        resizeTokens step.alloc >>= fun _ =>
          storeToken token >>= fun _ => updateChecksum host step.alloc := by
  rw [Addition.token] at some
  rw [Addition.run]
  split at some
  · rename_i hash method givenHash givenMethod
    rw [givenHash, givenMethod]
    split at some
    · cases some
    · rename_i short
      injection some with same
      rw [addMethodToken, if_neg short, same]
  · cases some

theorem requireRoom_run (room : nef.tokenCount < nefMaxTokens) :
    requireRoom nef = (.ok (), nef) :=
  if_neg (Nat.not_le.mpr room)

/-- A full object takes no token. -/
theorem run_of_full (full : nefMaxTokens ≤ nef.tokenCount) :
    ∃ code text, step.run host nef = (.error (.error code text), nef) := by
  rcases described : step.token with _ | token
  · exact run_of_token_none described
  · have refused :
        requireRoom nef =
          (.error (.error .invalidSize "Too many method tokens"), nef) :=
      if_pos full
    rw [run_of_token_some described, Call.bind_of_error refused]
    exact ⟨_, _, rfl⟩

/-! ## Arrays whose capacity is known -/

/-- The capacity is the number of slots, and it is within the limits. -/
structure Growing (nef : NefFile) : Prop where
  allocated : ∃ content, nef.tokens = .slots content
  capacity : nef.tokenCapacity = nef.tokens.size
  positive : 0 < nef.tokenCapacity
  count_le : nef.tokenCount ≤ nef.tokenCapacity
  most : nef.tokenCapacity ≤ nefMaxTokens

theorem Growing.withChecksum (growing : nef.Growing) (checksum : Hash256) :
    ({ nef with checksum } : NefFile).Growing :=
  ⟨growing.allocated, growing.capacity, growing.positive,
    growing.count_le, growing.most⟩

/-- The object with another array. -/
def withSlots (nef : NefFile) (content : List NefMethodToken) : NefFile :=
  { nef with
    tokens := .slots content
    tokenCapacity := content.length }

/-- A larger array begins with the slots of the old one. -/
theorem realloc_larger (alloc : Allocator) {content : List NefMethodToken}
    {count : Nat} (positive : count ≠ 0) (larger : content.length ≤ count) :
    (TokenArray.slots content).realloc alloc count =
        .ok (none, .slots content) ∨
      ∃ grown : List NefMethodToken,
        grown.length = count ∧
          grown.take content.length = content ∧
          (TokenArray.slots content).realloc alloc count =
            .ok (some (.slots grown), .dangling) := by
  by_cases granted :
      alloc.grants (count * NefMethodToken.structSize) = true
  · right
    refine
      ⟨(content ++ List.replicate count NefMethodToken.blank).take count,
        ?_, ?_, ?_⟩
    · rw [List.length_take, List.length_append, List.length_replicate]
      omega
    · rw [List.take_take, Nat.min_eq_left larger, List.take_left]
    · rw [TokenArray.realloc, if_neg positive, if_pos granted]
  · left
    rw [TokenArray.realloc, if_neg positive, if_neg granted]

/-- Without an array the call ends, with what the old pointer is worth. -/
theorem resizeTokens_refused {alloc : Allocator} {old : TokenArray}
    (full : nef.tokenCount ≥ nef.tokenCapacity)
    (refused :
      nef.tokens.realloc alloc (min (nef.tokenCapacity * 2) nefMaxTokens) =
        .ok (none, old)) :
    resizeTokens alloc nef =
      (.error (.error .outOfMemory "Failed to resize tokens"),
        { nef with tokens := old }) := by
  rw [resizeTokens, if_pos full]
  simp only [refused]
  rfl

/-- The array has room for one more token, or there is no memory for it. -/
theorem Growing.resizeTokens_cases (growing : nef.Growing)
    (room : nef.tokenCount < nefMaxTokens) (alloc : Allocator) :
    (∃ code text,
      resizeTokens alloc nef = (.error (.error code text), nef)) ∨
    ∃ content : List NefMethodToken,
      nef.tokenCount < content.length ∧ content.length ≤ nefMaxTokens ∧
        content.take nef.tokenCount =
          nef.tokens.content.take nef.tokenCount ∧
        resizeTokens alloc nef = (.ok (), nef.withSlots content) := by
  rcases growing with ⟨⟨content, slots⟩, known, positive, within, most⟩
  rw [slots] at known
  change nef.tokenCapacity = content.length at known
  by_cases full : nef.tokenCount ≥ nef.tokenCapacity
  -- The limit is not reached yet, so twice the capacity, cut to it, is more.
  · have larger :
        content.length ≤ min (nef.tokenCapacity * 2) nefMaxTokens := by
      rw [Nat.le_min]
      omega
    rcases realloc_larger alloc (Nat.ne_of_gt (by omega)) larger with
      refused | ⟨grown, length, same, granted⟩
    · left
      rw [← slots] at refused
      refine ⟨_, _, resizeTokens_refused full refused⟩
    · right
      refine ⟨grown, ?_, ?_, ?_, ?_⟩
      · rw [length, Nat.lt_min]
        omega
      · rw [length]
        exact Nat.min_le_right _ _
      · rw [Nat.le_antisymm within full, known, same, slots]
        exact List.take_length.symm
      · rw [← slots] at granted
        rw [resizeTokens, if_pos full]
        simp only [granted, withSlots, length]
  · refine .inr ⟨content, by omega, by omega, by rw [slots]; rfl, ?_⟩
    rw [resizeTokens, if_neg full, withSlots, ← known, ← slots]

/-- The object with the token stored and the checksum not yet computed. -/
def withToken (nef : NefFile) (content : List NefMethodToken) : NefFile :=
  { nef.withSlots content with tokenCount := nef.tokenCount + 1 }

theorem storeToken_run (token : NefMethodToken)
    {content : List NefMethodToken}
    (inside : nef.tokenCount < content.length) :
    storeToken token (nef.withSlots content) =
      (.ok (), nef.withToken (content.set nef.tokenCount token)) := by
  refine (if_pos inside).trans ?_
  rw [withToken, withSlots, withSlots, List.length_set]
  rfl

/-- Storing behind the first slots leaves them as they are. -/
theorem take_set_last {content : List NefMethodToken} {count : Nat}
    (token : NefMethodToken) (inside : count < content.length) :
    (content.set count token).take (count + 1) =
      content.take count ++ [token] := by
  have length : (content.take count).length = count := by
    rw [List.length_take, Nat.min_eq_left (Nat.le_of_lt inside)]
  rw [List.set_eq_take_append_cons_drop, if_pos inside, List.take_append,
    length, Nat.add_sub_cancel_left, List.take_take,
    Nat.min_eq_right (Nat.le_succ count)]
  rfl

theorem growing_withToken {content : List NefMethodToken}
    (inside : nef.tokenCount < content.length)
    (most : content.length ≤ nefMaxTokens) :
    (nef.withToken content).Growing :=
  ⟨⟨content, rfl⟩, rfl, Nat.zero_lt_of_lt inside, inside, most⟩

/-- A call fails and changes nothing, or the token is stored. -/
theorem Growing.run_cases (growing : nef.Growing) (host : Host)
    (step : Addition) :
    (∃ code text, step.run host nef = (.error (.error code text), nef)) ∨
    ∃ (token : NefMethodToken) (content : List NefMethodToken),
      step.token = some token ∧ nef.tokenCount < content.length ∧
        content.length ≤ nefMaxTokens ∧
        content.take (nef.tokenCount + 1) =
          nef.tokens.content.take nef.tokenCount ++ [token] ∧
        step.run host nef =
          updateChecksum host step.alloc (nef.withToken content) := by
  rcases described : step.token with _ | token
  · exact .inl (run_of_token_none described)
  rcases Nat.lt_or_ge nef.tokenCount nefMaxTokens with room | full
  · rw [run_of_token_some described,
      Call.bind_of_ok (requireRoom_run room)]
    rcases growing.resizeTokens_cases room step.alloc with
      ⟨code, text, refused⟩ | ⟨content, inside, most, same, resized⟩
    · left
      rw [Call.bind_of_error refused]
      exact ⟨code, text, rfl⟩
    · right
      refine
        ⟨token, content.set nef.tokenCount token, rfl, ?_, ?_, ?_, ?_⟩
      · rw [List.length_set]
        exact inside
      · rw [List.length_set]
        exact most
      · rw [take_set_last token inside, same]
      · rw [Call.bind_of_ok resized,
          Call.bind_of_ok (storeToken_run token inside)]
  · exact .inl (run_of_full full)

/-- Computing the checksum changes nothing else. -/
theorem updateChecksum_frame (host : Host) (alloc : Allocator)
    (nef : NefFile) :
    ∃ checksum,
      (updateChecksum host alloc nef).2 = { nef with checksum } := by
  rw [updateChecksum]
  split
  · exact ⟨_, rfl⟩
  · exact ⟨nef.checksum, rfl⟩

/-! ## What is expected of the tokens -/

/-- There are no more tokens than slots, and no more than allowed. -/
def Bounded (nef : NefFile) : Prop :=
  nef.tokenCount ≤ nef.tokens.size ∧ nef.tokenCount ≤ nefMaxTokens

/-- A call that succeeds puts its token behind the tokens there are. -/
def Appends (host : Host) (nef : NefFile) (step : Addition) : Prop :=
  (step.run host nef).1 = .ok () →
    ∃ token,
      step.token = some token ∧
        (next host nef step).tokenCount = nef.tokenCount + 1 ∧
        (next host nef step).tokens.content.take (nef.tokenCount + 1) =
          nef.tokens.content.take nef.tokenCount ++ [token]

/-- Both hold of a call. -/
def KeepsTokens (host : Host) (nef : NefFile) (step : Addition) : Prop :=
  (next host nef step).Bounded ∧ Appends host nef step

/-- A call that fails and changes nothing does what is expected. -/
theorem keepsTokens_of_unchanged (bounded : nef.Bounded)
    (failed :
      ∃ code text, step.run host nef = (.error (.error code text), nef)) :
    next host nef step = nef ∧ KeepsTokens host nef step := by
  rcases failed with ⟨code, text, ran⟩
  have same : next host nef step = nef := congrArg Prod.snd ran
  refine ⟨same, ?_, ?_⟩
  · rw [same]
    exact bounded
  · intro succeeded
    rw [ran] at succeeded
    cases succeeded

namespace Growing

theorem bounded (growing : nef.Growing) : nef.Bounded := by
  refine ⟨?_, growing.count_le.trans growing.most⟩
  rw [← growing.capacity]
  exact growing.count_le

/-- An array whose capacity is known keeps one, with the tokens in it. -/
theorem next_keeps (growing : nef.Growing) (host : Host)
    (step : Addition) :
    (next host nef step).Growing ∧ KeepsTokens host nef step := by
  rcases growing.run_cases host step with
    failed | ⟨token, content, described, inside, most, stored, ran⟩
  · rcases keepsTokens_of_unchanged growing.bounded failed with
      ⟨same, keeps⟩
    rw [same]
    exact ⟨growing, keeps⟩
  · rcases updateChecksum_frame host step.alloc (nef.withToken content)
      with ⟨checksum, frame⟩
    have reached :
        next host nef step =
          { nef.withToken content with checksum } := by
      rw [next, ran, frame]
    have grown : (next host nef step).Growing := by
      rw [reached]
      exact (growing_withToken inside most).withChecksum checksum
    refine ⟨grown, grown.bounded, ?_⟩
    intro _
    rw [reached]
    exact ⟨token, described, rfl, stored⟩

end Growing

/-! ## Objects without a capacity -/

/-- The tokens were read from a file, and there is room for another. -/
def Unsized (nef : NefFile) : Prop :=
  nef.tokenCapacity = 0 ∧ 0 < nef.tokenCount ∧
    nef.tokenCount < nefMaxTokens

/-- The array of an object without a capacity is freed. -/
theorem Unsized.next_eq {content : List NefMethodToken}
    (unsized : nef.Unsized) (slots : nef.tokens = .slots content)
    {token : NefMethodToken} (described : step.token = some token) :
    next host nef step = { nef with tokens := .dangling } := by
  rcases unsized with ⟨capacity, some, room⟩
  have freed :
      nef.tokens.realloc step.alloc
          (min (nef.tokenCapacity * 2) nefMaxTokens) =
        .ok (none, .dangling) := by
    rw [slots, capacity]
    rfl
  have full : nef.tokenCount ≥ nef.tokenCapacity := by omega
  rw [next, run_of_token_some described,
    Call.bind_of_ok (requireRoom_run room),
    Call.bind_of_error (resizeTokens_refused full freed)]

/-- A token that is added to such an object is lost with all the others. -/
theorem Unsized.keepsTokens_iff {content : List NefMethodToken}
    (unsized : nef.Unsized) (bounded : nef.Bounded)
    (slots : nef.tokens = .slots content) (step : Addition) :
    KeepsTokens host nef step ↔ step.token = none := by
  constructor
  · rintro ⟨⟨within, -⟩, -⟩
    rcases described : step.token with _ | token
    · rfl
    · rw [unsized.next_eq slots described] at within
      exact absurd within (Nat.not_le.mpr unsized.2.1)
  · intro refused
    exact
      (keepsTokens_of_unchanged bounded (run_of_token_none refused)).2

/-- An object with no tokens and no array takes none. -/
theorem run_of_null (capacity : nef.tokenCapacity = 0)
    (empty : nef.tokenCount = 0) (null : nef.tokens = .null) :
    ∃ code text, step.run host nef = (.error (.error code text), nef) := by
  rcases described : step.token with _ | token
  · exact run_of_token_none described
  · have room : nef.tokenCount < nefMaxTokens := by
      rw [empty]
      decide
    have refused :
        nef.tokens.realloc step.alloc
            (min (nef.tokenCapacity * 2) nefMaxTokens) =
          .ok (none, .null) := by
      rw [null, capacity]
      rfl
    have full : nef.tokenCount ≥ nef.tokenCapacity := by omega
    rw [run_of_token_some described,
      Call.bind_of_ok (requireRoom_run room),
      Call.bind_of_error (resizeTokens_refused full refused), ← null]
    exact ⟨_, _, rfl⟩

/-! ## Where objects come from -/

/-- What an object that was created was created from. -/
theorem of_create_eq_ok {alloc : Allocator}
    {compiler source : Option CString} {script : Buffer}
    (created : create host alloc compiler source script = .ok nef) :
    ∃ (name : CString) (code : List UInt8) (checksum : Hash256),
      compiler = some name ∧ script = .items code ∧
        name.strlen ≤ 63 ∧
        (∀ text ∈ source, text.strlen ≤ nefMaxSourceSize) ∧
        0 < code.length ∧ code.length ≤ nefMaxScriptSize ∧
        calculateChecksum host alloc (initial name source code) =
          .ok checksum ∧
        nef = { initial name source code with checksum } := by
  unfold create at created
  split at created
  · rename_i name code
    split at created
    · cases created
    rename_i small
    split at created
    · cases created
    rename_i shortName
    split at created
    · cases created
    rename_i shortSource
    split at created
    · cases created
    split at created
    · cases created
    split at created
    · cases created
    rename_i granted
    rcases Except.bind_eq_ok_iff.mp created with
      ⟨checksum, computed, same⟩
    injection same with same
    refine
      ⟨name, code, checksum, rfl, rfl, Nat.le_of_not_lt shortName, ?_, ?_,
        Nat.le_of_not_lt small, computed, same.symm⟩
    · rintro text rfl
      rw [Option.any_some, decide_eq_true_iff] at shortSource
      exact Nat.le_of_not_lt shortSource
    · rcases Nat.eq_zero_or_pos code.length with empty | some
      · rw [empty] at granted
        exact absurd rfl granted
      · exact some
  · cases created

theorem growing_initial (compiler : CString) (source : Option CString)
    (script : List UInt8) : (initial compiler source script).Growing :=
  ⟨⟨_, rfl⟩, rfl, (by decide : 0 < 10), Nat.zero_le 10,
    (by decide : 10 ≤ nefMaxTokens)⟩

theorem growing_of_create {alloc : Allocator}
    {compiler source : Option CString} {script : Buffer}
    (created : create host alloc compiler source script = .ok nef) :
    nef.Growing := by
  rcases of_create_eq_ok created with
    ⟨name, code, checksum, -, -, -, -, -, -, -, rfl⟩
  exact (growing_initial name source code).withChecksum checksum

/-- An object that a caller has before it adds tokens. -/
inductive Obtained (host : Host) : NefFile → Prop
  | created {alloc : Allocator} {compiler source : Option CString}
      {script : Buffer} {nef : NefFile} :
      create host alloc compiler source script = .ok nef →
        Obtained host nef
  | read {alloc : Allocator} {data : Buffer} {nef : NefFile} :
      fromBytes alloc data = .ok nef → Obtained host nef

/-- At the start and after every call the tokens are as expected. -/
def TokensKept (host : Host) (start : NefFile) (steps : List Addition) :
    Prop :=
  start.Bounded ∧ Along (next host) (KeepsTokens host) start steps

/-- The pointer of an object that was read, and what it is worth. -/
theorem read_cases {alloc : Allocator} {data : Buffer}
    (read : fromBytes alloc data = .ok nef) :
    nef.tokenCapacity = 0 ∧ nef.tokenCount = nef.tokens.size ∧
      (nef.tokens = .null ∧ nef.tokenCount = 0 ∨
        0 < nef.tokenCount ∧ ∃ content, nef.tokens = .slots content) := by
  rcases of_fromBytes_eq_ok read with
    ⟨parts, lengthBytes, rest, -, -, -, -, -, -, rfl⟩
  by_cases empty : parts.tokens.length = 0
  · have null : parts.toNef.tokens = .null := if_pos empty
    refine ⟨rfl, ?_, .inl ⟨null, empty⟩⟩
    rw [null]
    exact empty
  · have slots :
        parts.toNef.tokens = .slots (parts.tokens.map TokenParts.toToken) :=
      if_neg empty
    refine ⟨rfl, ?_, .inr ⟨Nat.pos_of_ne_zero empty, _, slots⟩⟩
    rw [slots]
    exact (List.length_map _).symm

/-- Calls that all fail and change nothing do what is expected. -/
theorem along_of_unchanged {start : NefFile} (bounded : start.Bounded)
    (failed :
      ∀ step : Addition, ∃ code text,
        step.run host start = (.error (.error code text), start))
    (steps : List Addition) :
    Along (next host) (KeepsTokens host) start steps := by
  refine along_of_forall (fun nef => nef = start) ?_ ?_ rfl steps
  · rintro nef step rfl
    exact (keepsTokens_of_unchanged bounded (failed step)).1
  · rintro nef step rfl
    exact (keepsTokens_of_unchanged bounded (failed step)).2

/-- Nothing may be added to tokens that were read, and that is exact. -/
theorem Unsized.along_iff {start : NefFile}
    {content : List NefMethodToken} (unsized : start.Unsized)
    (bounded : start.Bounded) (slots : start.tokens = .slots content)
    (steps : List Addition) :
    Along (next host) (KeepsTokens host) start steps ↔
      ∀ step ∈ steps, step.token = none := by
  rw [← along_const start steps]
  refine along_iff_of_invariant (fun nef => nef = start) ?_ ?_ rfl steps
  · rintro nef step rfl refused
    exact
      (keepsTokens_of_unchanged bounded (run_of_token_none refused)).1
  · rintro nef step rfl
    exact unsized.keepsTokens_iff bounded slots step

/--
The tokens stay within their array and within the limit, and each call that
succeeds appends its token, exactly if the object has no more tokens than
allowed at the start and nothing is added to tokens that were read.
-/
theorem tokensKept_iff
    {host : Host} {start : NefFile}
    (obtained : Obtained host start)
    (steps : List Addition) :
    TokensKept host start steps ↔
      start.tokenCount ≤ nefMaxTokens ∧
        (start.Unsized → ∀ step ∈ steps, step.token = none) := by
  cases obtained with
  | created created =>
      have growing := growing_of_create created
      have along :
          Along (next host) (KeepsTokens host) start steps :=
        along_of_forall Growing
          (fun _ step growing => (growing.next_keeps host step).1)
          (fun _ step growing => (growing.next_keeps host step).2)
          growing steps
      have sized : ¬ start.Unsized := by
        rintro ⟨capacity, -⟩
        have positive := growing.positive
        omega
      constructor
      · intro _
        exact ⟨growing.bounded.2, fun unsized => absurd unsized sized⟩
      · intro _
        exact ⟨growing.bounded, along⟩
  | read read =>
      rcases read_cases read with ⟨capacity, count, pointer⟩
      rw [TokensKept]
      constructor
      · rintro ⟨bounded, along⟩
        refine ⟨bounded.2, ?_⟩
        intro unsized
        rcases pointer with ⟨-, empty⟩ | ⟨-, content, slots⟩
        · exact absurd empty (Nat.ne_of_gt unsized.2.1)
        · exact (unsized.along_iff bounded slots steps).mp along
      · rintro ⟨few, spared⟩
        have bounded : start.Bounded := ⟨Nat.le_of_eq count, few⟩
        refine ⟨bounded, ?_⟩
        rcases pointer with ⟨null, empty⟩ | ⟨some, content, slots⟩
        · exact
            along_of_unchanged bounded
              (fun _ => run_of_null capacity empty null) steps
        -- With all the tokens there may be, no call gets to the array.
        · by_cases unsized : start.Unsized
          · exact
              (unsized.along_iff bounded slots steps).mpr (spared unsized)
          · have full : nefMaxTokens ≤ start.tokenCount :=
              Nat.le_of_not_lt fun room => unsized ⟨capacity, some, room⟩
            exact along_of_unchanged bounded (fun _ => run_of_full full) steps

/-! ## Adding to a file with a token -/

/-- A call that adds a token. -/
def anAddition : Addition where
  alloc := .ample
  hash := some (Bytes.zero 20)
  method := some (CString.ofString "main")
  parametersCount := 0
  hasReturnValue := false
  callFlags := 0

/-- The object that is read from a file with a token. -/
def tokenObject : NefFile :=
  (tokenFile 0 (Bytes.zero 32)).toNef

theorem obtained_tokenObject (host : Host) : Obtained host tokenObject :=
  .read (fromBytes_tokenFile 0 (Bytes.zero 32))

/-- A token that is added to the file costs it all of its slots. -/
theorem tokenObject_loses_tokens :
    ¬ ∀ (host : Host) (start : NefFile) (steps : List Addition),
        Obtained host start → TokensKept host start steps := by
  intro always
  rcases always (Host.ofTables [] []) tokenObject [anAddition]
      (obtained_tokenObject _) with
    ⟨bounded, along⟩
  have unsized : tokenObject.Unsized := by
    refine ⟨rfl, ?_, ?_⟩
    · decide
    · decide
  have refused :=
    (unsized.along_iff bounded rfl [anAddition]).mp along anAddition
      (List.mem_singleton.mpr rfl)
  exact absurd refused (by decide)

end NefFile

end NeoC
