import NeoC.Foundation.Run
import NeoC.Utils.ByteArray

/-!
# Byte arrays that are made from one another

A program makes byte arrays from data, from text and from arrays it has made
before, and appends to them.  Its arrays are the lists they are meant to be,
in every state reached, exactly if no text is read and nothing is padded
unless the new array is to be empty or is refused, and if every appending
finds a capacity.
-/

namespace NeoC

open Foundation

namespace NeocByteArray

/-! ## The calls -/

/-- The arrays that were made, in the order in which they were made. -/
abbrev Store := List NeocByteArray

/-- How an array is made; an index without an array stands for `NULL`. -/
inductive Build where
  | fromData (data : Buffer)
  | fromHexString (hexString : Option CString)
  | throughHex (index : Nat) (uppercase withPrefix : Bool)
      (reader : Allocator)
  | pad (index targetLength : Nat) (padValue : UInt8) (padLeft : Bool)
  | concat (left right : Nat)
  | concatByte (index : Nat) (byte : UInt8)
  | prependByte (byte : UInt8) (index : Nat)
  | slice (index start stop : Nat)

def Build.perform (alloc : Allocator) (store : Store) :
    Build → Outcome NeocByteArray
  | .fromData (.null length) => NeocByteArray.fromData alloc none length
  | .fromData (.items content) =>
      NeocByteArray.fromData alloc (some (Cells.written content))
        content.length
  | .fromHexString hexString => NeocByteArray.fromHexString alloc hexString
  | .throughHex index uppercase withPrefix reader =>
      NeocByteArray.throughHex alloc reader store[index]? uppercase withPrefix
  | .pad index targetLength padValue padLeft =>
      NeocByteArray.pad alloc store[index]? targetLength padValue padLeft
  | .concat left right =>
      NeocByteArray.concat alloc store[left]? store[right]?
  | .concatByte index byte =>
      NeocByteArray.concatByte alloc store[index]? byte
  | .prependByte byte index =>
      NeocByteArray.prependByte alloc byte store[index]?
  | .slice index start stop =>
      NeocByteArray.slice alloc store[index]? start stop

/-- A list with copies of a byte on one side. -/
def padded (content : List UInt8) (targetLength : Nat) (padValue : UInt8)
    (padLeft : Bool) : List UInt8 :=
  let filler := List.replicate (targetLength - content.length) padValue
  if padLeft then filler ++ content else content ++ filler

/-- The list that an array is to be. -/
def Build.apply (lists : List (List UInt8)) : Build → List UInt8
  | .fromData data => data.content
  | .fromHexString hexString => (hexString.map hexBytes).getD []
  | .throughHex index _ _ _ => lists.getD index []
  | .pad index targetLength padValue padLeft =>
      padded (lists.getD index []) targetLength padValue padLeft
  | .concat left right => lists.getD left [] ++ lists.getD right []
  | .concatByte index byte => lists.getD index [] ++ [byte]
  | .prependByte byte index => byte :: lists.getD index []
  | .slice index start stop => ((lists.getD index []).take stop).drop start

/-- The calls of a run.  No object is larger than `PTRDIFF_MAX` bytes. -/
inductive Call where
  | make (build : Build)
  | appendBytes (index : Nat)
      (data : { data : Buffer // data.content.length ≤ ptrdiffMax })

/-- `neoc_byte_array_append_bytes` on an array of the store. -/
def appendTo (alloc : Allocator) (array : Option NeocByteArray)
    (data : Buffer) : Outcome NeocByteArray := do
  let array ← given array
  match data with
  | .null length => appendBytes alloc array none length
  | .items content =>
      appendBytes alloc array (some (Cells.written content)) content.length

def Call.perform (alloc : Allocator) (store : Store) :
    Call → Outcome Store
  | .make build => do
      let array ← build.perform alloc store
      .ok (store ++ [array])
  | .appendBytes index data => do
      let array ← appendTo alloc store[index]? data.val
      .ok (store.set index array)

/-- What a call is to do to the lists. -/
def Call.apply (lists : List (List UInt8)) : Call → List (List UInt8)
  | .make build => lists ++ [build.apply lists]
  | .appendBytes index data =>
      lists.set index (lists.getD index [] ++ data.val.content)

/-! ## Runs and the lists they are compared with -/

/-- A call and the allocator it meets. -/
abbrev Step := Allocator × Call

def next (store : Store) (step : Step) : Store :=
  match step.2.perform step.1 store with
  | .ok after => after
  | .error _ => store

/-- The lists change with every call that succeeds. -/
def follow (store : Store) (step : Step) (lists : List (List UInt8)) :
    List (List UInt8) :=
  if (step.2.perform step.1 store).isOk then
    step.2.apply lists
  else
    lists

/-- An array holds a list. -/
structure Holds (array : NeocByteArray) (content : List UInt8) : Prop where
  length_eq : array.length = content.length
  data_eq : array.data.take array.length = Cells.written content

/-- A call returns, if not successfully then with an error code. -/
def Returns (store : Store) (step : Step) : Prop :=
  ∀ reason, step.2.perform step.1 store = .error reason →
    ∃ code text, reason = .error code text

/-- A new array is to be what the code makes of it. -/
def Build.Exact (alloc : Allocator) (store : Store) : Build → Prop
  | .fromHexString (some hexString) =>
      Hex.Undecodable hexString ∨ hexBytes hexString = [] ∨
        Refuses alloc (hexBytes hexString).length
  | .throughHex index _ withPrefix reader =>
      ∀ array ∈ store[index]?,
        alloc.neocGrants (hexSize array.length withPrefix) = false ∨
          HexSizeFits array.length withPrefix ∧
            (array.length = 0 ∨ Refuses reader array.length)
  | .pad index targetLength _ _ =>
      ∀ array ∈ store[index]?,
        targetLength ≤ array.length ∨ Refuses alloc targetLength
  | _ => True

/--
No text that stands for bytes is read and nothing is padded, but for arrays
that are refused; and what is appended finds a capacity.
-/
def Exact (store : Store) (step : Step) : Prop :=
  match step.2 with
  | .make build => build.Exact step.1 store
  | .appendBytes index data =>
      ∀ array ∈ store[index]?,
        RoomEnds array.capacity (array.length + data.val.content.length)

/--
What making an array may be refused for: a `NULL`, a range or a text that is
not one, or memory.
-/
def Build.Refused (alloc : Allocator) (store : Store) : Build → Prop
  | .fromData data =>
      data.content.length < data.len ∨ Refuses alloc data.len
  | .fromHexString none => True
  | .fromHexString (some hexString) =>
      Hex.Undecodable hexString ∨ Refuses alloc (hexBytes hexString).length
  | .throughHex index _ withPrefix reader =>
      ∀ array ∈ store[index]?,
        alloc.neocGrants (hexSize array.length withPrefix) = false ∨
          Refuses reader array.length
  | .pad index targetLength _ _ =>
      ∀ array ∈ store[index]?, Refuses alloc (max targetLength array.length)
  | .concat left right =>
      ∀ first ∈ store[left]?, ∀ second ∈ store[right]?,
        Refuses alloc (first.length + second.length)
  | .concatByte index _ =>
      ∀ array ∈ store[index]?, Refuses alloc (array.length + 1)
  | .prependByte _ index =>
      ∀ array ∈ store[index]?, Refuses alloc (1 + array.length)
  | .slice index start stop =>
      ∀ array ∈ store[index]?,
        stop < start ∨ array.length < stop ∨ Refuses alloc (stop - start)

/-- What a call may be refused for. -/
def Refused (store : Store) (step : Step) : Prop :=
  match step.2 with
  | .make build => build.Refused step.1 store
  | .appendBytes index data =>
      ∀ array ∈ store[index]?,
        data.val.content.length < data.val.len ∨
          GrowthRefused step.1 array.capacity
            (array.length + data.val.content.length)

/-- A call that fails with an error code has a reason for it. -/
def Justified (store : Store) (step : Step) : Prop :=
  ∀ code text,
    step.2.perform step.1 store = .error (.error code text) →
      Refused store step

/-! ## How one array can come out -/

/--
An array comes out as the list it is to be, or is refused with an error code,
exactly where a condition holds.
-/
inductive Ends (outcome : Outcome NeocByteArray) (content : List UInt8)
    (exact refused : Prop) : Prop where
  | fails (holds : exact) (why : refused) (code : ErrorCode) (text : String)
      (failed : outcome = .error (.error code text))
  | agrees (holds : exact) (array : NeocByteArray)
      (made : outcome = .ok array) (wellFormed : array.WellFormed)
      (same : array.contents = content)
  | stops (breaks : ¬ exact) (reason : Halt)
      (stopped : outcome = .error reason)
      (silent : ∀ code text, reason ≠ .error code text)
  | differs (breaks : ¬ exact) (array : NeocByteArray)
      (made : outcome = .ok array) (wellFormed : array.WellFormed)
      (other : array.contents ≠ content)

variable {alloc : Allocator} {content : List UInt8} {size : Nat}
variable {outcome : Outcome NeocByteArray} {exact refused : Prop}

theorem wellFormed_filled {stale : Cells UInt8}
    (small : content.length + stale.length ≤ ptrdiffMax) :
    (filled content stale).WellFormed :=
  ⟨content, stale, rfl, small⟩

/-- A new array that holds what it is to hold. -/
theorem ends_of_builds (builds : Builds alloc size content outcome)
    (holds : exact) (why : Refuses alloc size → refused) :
    Ends outcome content exact refused := by
  rcases builds with ⟨refuses, failed⟩ | ⟨-, stale, small, made⟩
  · exact .fails holds (why refuses) .outOfMemory "" failed
  · exact
      .agrees holds _ made (wellFormed_filled small)
        (contents_filled content stale)

/-- A new array of which no byte counts. -/
theorem ends_of_builds_empty (builds : Builds alloc size [] outcome)
    (exact_iff : exact ↔ content = [] ∨ Refuses alloc size)
    (why : Refuses alloc size → refused) :
    Ends outcome content exact refused := by
  rcases builds with ⟨refuses, failed⟩ | ⟨granted, stale, small, made⟩
  · exact
      .fails (exact_iff.mpr (.inr refuses)) (why refuses) .outOfMemory ""
        failed
  · have wellFormed := wellFormed_filled small
    have none := contents_filled [] stale
    by_cases empty : content = []
    · refine .agrees (exact_iff.mpr (.inl empty)) _ made wellFormed ?_
      rw [none, empty]
    · refine .differs ?_ _ made wellFormed ?_
      · rw [exact_iff]
        exact not_or.mpr ⟨empty, granted⟩
      · rw [none]
        exact Ne.symm empty

theorem Ends.congr {exact' : Prop} (same : exact ↔ exact')
    (ends : Ends outcome content exact refused) :
    Ends outcome content exact' refused := by
  rwa [propext same] at ends

/-! ## New arrays -/

variable {store : Store}

/-- The arrays of a store are well formed. -/
def Store.WellFormed (store : Store) : Prop :=
  ∀ array ∈ store, array.WellFormed

/-- The lists that the arrays of a store hold. -/
def Store.lists (store : Store) : List (List UInt8) :=
  store.map contents

/-- An index names an array that is filled, or it stands for `NULL`. -/
theorem lookup_cases (wellFormed : store.WellFormed) (index : Nat) :
    store[index]? = none ∨
      ∃ content stale,
        store[index]? = some (filled content stale) ∧
          store.lists.getD index [] = content ∧
          content.length + stale.length ≤ ptrdiffMax := by
  cases found : store[index]? with
  | none => exact .inl rfl
  | some array =>
      rcases wellFormed array (List.mem_of_getElem? found) with
        ⟨content, stale, rfl, small⟩
      refine .inr ⟨content, stale, rfl, ?_, small⟩
      rw [Store.lists, List.getD_eq_getElem?_getD, List.getElem?_map, found]
      exact contents_filled content stale

theorem le_of_add_le {first second bound : Nat}
    (total : first + second ≤ bound) : first ≤ bound :=
  (Nat.le_add_right first second).trans total

/-- What is made of an array of the store; a `NULL` is refused. -/
theorem ends_of_lookup (wellFormed : store.WellFormed) (index : Nat)
    {make : Option NeocByteArray → Outcome NeocByteArray}
    {apply : List UInt8 → List UInt8} {exact refused : NeocByteArray → Prop}
    (absent : make none = .error (.error .invalidArgument ""))
    (present :
      ∀ content stale,
        content.length + stale.length ≤ ptrdiffMax →
          Ends (make (some (filled content stale))) (apply content)
            (exact (filled content stale)) (refused (filled content stale))) :
    Ends (make store[index]?) (apply (store.lists.getD index []))
      (∀ array ∈ store[index]?, exact array)
      (∀ array ∈ store[index]?, refused array) := by
  rcases lookup_cases wellFormed index with
    none | ⟨content, stale, found, same, small⟩
  · rw [none]
    exact
      .fails (fun _ none => nomatch none) (fun _ none => nomatch none)
        .invalidArgument "" absent
  · rw [found, same]
    simp only [Option.mem_some_iff, forall_eq']
    exact present content stale small

/-- The same where the list is always the one it is to be. -/
theorem ends_of_lookup_true (wellFormed : store.WellFormed) (index : Nat)
    {make : Option NeocByteArray → Outcome NeocByteArray}
    {apply : List UInt8 → List UInt8} {refused : NeocByteArray → Prop}
    (absent : make none = .error (.error .invalidArgument ""))
    (present :
      ∀ content stale,
        content.length + stale.length ≤ ptrdiffMax →
          Ends (make (some (filled content stale))) (apply content) True
            (refused (filled content stale))) :
    Ends (make store[index]?) (apply (store.lists.getD index [])) True
      (∀ array ∈ store[index]?, refused array) :=
  (ends_of_lookup wellFormed index absent present).congr
    (iff_of_true (fun _ _ => trivial) trivial)

theorem concat_ends (alloc : Allocator) (wellFormed : store.WellFormed)
    (left right : Nat) :
    Ends (concat alloc store[left]? store[right]?)
      (store.lists.getD left [] ++ store.lists.getD right []) True
      (Build.Refused alloc store (.concat left right)) := by
  refine
    @ends_of_lookup_true _ wellFormed left
      (fun array => concat alloc array store[right]?)
      (· ++ store.lists.getD right []) _ rfl fun first _ small => ?_
  refine
    @ends_of_lookup_true _ wellFormed right
      (fun array => concat alloc (some (filled first _)) array)
      (first ++ ·) _ rfl fun second _ small' => ?_
  exact
    ends_of_builds
      (concat_builds (le_of_add_le small) (le_of_add_le small')) trivial id

theorem slice_ends (alloc : Allocator) (wellFormed : store.WellFormed)
    (index start stop : Nat) :
    Ends (slice alloc store[index]? start stop)
      (((store.lists.getD index []).take stop).drop start) True
      (Build.Refused alloc store (.slice index start stop)) := by
  refine
    @ends_of_lookup_true _ wellFormed index
      (fun array => slice alloc array start stop)
      (fun content => (content.take stop).drop start) _ rfl
      fun content behind _ => ?_
  rcases @slice_builds alloc content behind start stop with
    ⟨outside, failed⟩ | ⟨-, builds⟩
  · exact
      .fails trivial (outside.imp_right .inl) .invalidArgument "" failed
  · exact ends_of_builds builds trivial fun refuses => .inr (.inr refuses)

theorem pad_ends (alloc : Allocator) (wellFormed : store.WellFormed)
    (index targetLength : Nat) (padValue : UInt8) (padLeft : Bool) :
    Ends (pad alloc store[index]? targetLength padValue padLeft)
      (padded (store.lists.getD index []) targetLength padValue padLeft)
      (Build.Exact alloc store (.pad index targetLength padValue padLeft))
      (Build.Refused alloc store
        (.pad index targetLength padValue padLeft)) := by
  refine
    @ends_of_lookup _ wellFormed index
      (fun array => pad alloc array targetLength padValue padLeft)
      (fun content => padded content targetLength padValue padLeft) _ _ rfl
      fun content behind _ => ?_
  by_cases short : targetLength ≤ content.length
  · have unpadded : padded content targetLength padValue padLeft = content := by
      rw [padded, Nat.sub_eq_zero_of_le short, List.replicate_zero]
      cases padLeft
      · exact List.append_nil content
      · rfl
    rw [unpadded]
    exact
      ends_of_builds (pad_builds padValue padLeft short) (.inl short)
        ((max_eq_right short).symm ▸ ·)
  · have long := Nat.not_le.mp short
    have some : padded content targetLength padValue padLeft ≠ [] := by
      apply List.ne_nil_of_length_pos
      rw [padded]
      cases padLeft <;>
        simp only [List.length_append, List.length_replicate, if_true,
          Bool.false_eq_true, if_false] <;>
        omega
    refine
      ends_of_builds_empty (pad_builds_empty padValue padLeft long) ?_
        ((max_eq_left (Nat.le_of_lt long)).symm ▸ ·)
    exact (or_iff_right short).trans (or_iff_right some).symm

theorem fromHexString_ends (alloc : Allocator)
    (hexString : Option CString) :
    Ends (fromHexString alloc hexString)
      ((hexString.map hexBytes).getD [])
      (Build.Exact alloc store (.fromHexString hexString))
      (Build.Refused alloc store (.fromHexString hexString)) := by
  cases hexString with
  | none => exact .fails trivial trivial .invalidArgument "" rfl
  | some hexString =>
      rcases fromHexString_builds_empty alloc hexString with
        ⟨undecodable, code, failed⟩ | ⟨decodable, builds⟩
      · exact .fails (.inl undecodable) (.inl undecodable) code "" failed
      · exact
          ends_of_builds_empty builds (or_iff_right decodable) .inr

theorem throughHex_ends (alloc reader : Allocator)
    (wellFormed : store.WellFormed) (index : Nat)
    (uppercase withPrefix : Bool) :
    Ends (throughHex alloc reader store[index]? uppercase withPrefix)
      (store.lists.getD index [])
      (Build.Exact alloc store
        (.throughHex index uppercase withPrefix reader))
      (Build.Refused alloc store
        (.throughHex index uppercase withPrefix reader)) := by
  refine
    @ends_of_lookup _ wellFormed index
      (fun array => throughHex alloc reader array uppercase withPrefix) id
      _ _ rfl fun content behind small => ?_
  rcases
      @throughHex_cases content alloc reader behind uppercase withPrefix
        (le_of_add_le small) with
    ⟨refused, failed⟩ | ⟨granted, ⟨wraps, stopped⟩ | ⟨fits, builds⟩⟩
  · exact .fails (.inl refused) (.inl refused) .invalidArgument "" failed
  · refine .stops ?_ .illegalAccess stopped fun _ _ same => nomatch same
    rintro (refused | ⟨fits, -⟩)
    · exact absurd (granted.symm.trans refused) (by decide)
    · exact wraps fits
  · refine ends_of_builds_empty builds ?_ .inr
    change
      alloc.neocGrants (hexSize content.length withPrefix) = false ∨
          HexSizeFits content.length withPrefix ∧
            (content.length = 0 ∨ Refuses reader content.length) ↔ _
    rw [granted, and_iff_right fits, List.length_eq_zero_iff]
    exact or_iff_right (fun same => nomatch same)

/-- Every way of making an array. -/
theorem build_ends (alloc : Allocator) (wellFormed : store.WellFormed)
    (build : Build) :
    Ends (build.perform alloc store) (build.apply store.lists)
      (build.Exact alloc store) (build.Refused alloc store) := by
  cases build with
  | fromData data =>
      cases data with
      | null length =>
          rw [Build.perform, NeocByteArray.fromData]
          split
          · rename_i some
            exact .fails trivial (.inl some) .invalidArgument "" rfl
          · exact ends_of_builds (create_builds alloc length) trivial .inr
      | items content =>
          have builds := @fromData_builds alloc content []
          rw [List.append_nil] at builds
          exact ends_of_builds builds trivial .inr
  | fromHexString hexString => exact fromHexString_ends alloc hexString
  | throughHex index uppercase withPrefix reader =>
      exact throughHex_ends alloc reader wellFormed index uppercase withPrefix
  | pad index targetLength padValue padLeft =>
      exact pad_ends alloc wellFormed index targetLength padValue padLeft
  | concat left right => exact concat_ends alloc wellFormed left right
  | concatByte index byte =>
      exact
        @ends_of_lookup_true _ wellFormed index
          (fun array => concatByte alloc array byte) (· ++ [byte]) _ rfl
          fun content _ small =>
            ends_of_builds (concatByte_builds byte (le_of_add_le small))
              trivial id
  | prependByte byte index =>
      exact
        @ends_of_lookup_true _ wellFormed index (prependByte alloc byte)
          (byte :: ·) _ rfl fun content _ small =>
            ends_of_builds (prependByte_builds byte (le_of_add_le small))
              trivial id
  | slice index start stop => exact slice_ends alloc wellFormed index start stop

/-- What is appended to an array of a store. -/
theorem appendTo_ends (alloc : Allocator) (wellFormed : store.WellFormed)
    (index : Nat) {data : Buffer} (small : data.content.length ≤ ptrdiffMax) :
    Ends (appendTo alloc store[index]? data)
      (store.lists.getD index [] ++ data.content)
      (∀ array ∈ store[index]?,
        RoomEnds array.capacity (array.length + data.content.length))
      (∀ array ∈ store[index]?,
        data.content.length < data.len ∨
          GrowthRefused alloc array.capacity
            (array.length + data.content.length)) := by
  refine
    @ends_of_lookup _ wellFormed index
      (fun array => appendTo alloc array data) (· ++ data.content) _ _ rfl
      fun content stale bounded => ?_
  have bounded' : content.length + stale.length < sizeModulus :=
    lt_sizeModulus bounded
  cases data with
  | null length =>
      have room :
          RoomEnds (content.length + stale.length) (content.length + 0) := by
        refine ⟨0, by decide, ?_⟩
        rw [Nat.pow_zero, Nat.mul_one, Nat.mod_eq_of_lt bounded']
        omega
      change
        Ends (if length > 0 then _ else .ok (filled content stale)) _ _ _
      split
      · rename_i some
        exact
          .fails room (.inl some) .invalidArgument "" rfl
      · refine .agrees room _ rfl (wellFormed_filled bounded) ?_
        rw [contents_filled]
        exact (List.append_nil content).symm
  | items bytes =>
      have cases := @appendBytes_cases content bytes stale alloc [] bounded small
      rw [List.append_nil] at cases
      rcases cases with
        ⟨endless, stopped⟩ |
        ⟨room, ⟨stale', fits, made⟩ | ⟨refused, failed⟩⟩
      · exact .stops endless .divergence stopped fun _ _ same => nomatch same
      · refine
          .agrees room _ made (wellFormed_filled ?_) (contents_filled _ _)
        rwa [List.length_append]
      · exact .fails room (.inr refused) .outOfMemory "" failed

/-! ## One call -/

/-- What a call does that puts an array into the store. -/
structure Puts (store : Store) (step : Step)
    (outcome : Outcome NeocByteArray) (content : List UInt8)
    (put : NeocByteArray → Store) : Prop where
  perform : step.2.perform step.1 store = outcome >>= fun array => .ok (put array)
  wellFormed : ∀ array, array.WellFormed → (put array).WellFormed
  lists_iff :
    ∀ array,
      (put array).lists = step.2.apply store.lists ↔
        array.contents = content

/-- A call keeps the store well formed, says what it leaves in it, and why. -/
theorem Puts.next_cases {step : Step} {put : NeocByteArray → Store}
    (wellFormed : store.WellFormed)
    (puts : Puts store step outcome content put)
    (ends : Ends outcome content exact refused) :
    (next store step).WellFormed ∧
      (Returns store step ∧
          (next store step).lists = follow store step store.lists ↔
        exact) ∧
      ∀ code text,
        step.2.perform step.1 store = .error (.error code text) → refused := by
  have ran {array : NeocByteArray} (made : outcome = .ok array) :
      step.2.perform step.1 store = .ok (put array) :=
    puts.perform.trans (Except.bind_of_ok made _)
  have halted {reason : Halt} (stopped : outcome = .error reason) :
      step.2.perform step.1 store = .error reason := by
    rw [puts.perform, stopped]
    rfl
  have put_iff {array : NeocByteArray} (made : outcome = .ok array) :
      Returns store step ∧
          (next store step).lists = follow store step store.lists ↔
        array.contents = content := by
    rw [Returns, next, follow, ran made, ← puts.lists_iff array]
    exact and_iff_right fun _ same => nomatch same
  have succeeds {array : NeocByteArray} (made : outcome = .ok array)
      (code : ErrorCode) (text : String) :
      step.2.perform step.1 store ≠ .error (.error code text) := by
    rw [ran made]
    exact fun same => nomatch same
  cases ends with
  | fails holds why code text failed =>
      refine
        ⟨by rwa [next, halted failed], iff_of_true ⟨?_, ?_⟩ holds,
          fun _ _ _ => why⟩
      · intro reason same
        rw [halted failed] at same
        cases same
        exact ⟨code, text, rfl⟩
      · rw [next, follow, halted failed]
        rfl
  | agrees holds array made good same =>
      refine
        ⟨?_, iff_of_true ((put_iff made).mpr same) holds,
          fun code text failed => absurd failed (succeeds made code text)⟩
      rw [next, ran made]
      exact puts.wellFormed array good
  | stops breaks reason stopped silent =>
      refine ⟨by rwa [next, halted stopped], iff_of_false ?_ breaks, ?_⟩
      · rintro ⟨returns, -⟩
        rcases returns reason (halted stopped) with ⟨code, text, same⟩
        exact silent code text same
      · intro code text failed
        rw [halted stopped] at failed
        injection failed with same
        exact absurd same (silent code text)
  | differs breaks array made good other =>
      refine
        ⟨?_, iff_of_false (other ∘ (put_iff made).mp) breaks,
          fun code text failed => absurd failed (succeeds made code text)⟩
      rw [next, ran made]
      exact puts.wellFormed array good

theorem make_puts (wellFormed : store.WellFormed) (alloc : Allocator)
    (build : Build) :
    Puts store (alloc, .make build) (build.perform alloc store)
      (build.apply store.lists) fun array => store ++ [array] where
  perform := rfl
  wellFormed := by
    intro array good other member
    rcases List.mem_append.mp member with old | new
    · exact wellFormed other old
    · rwa [List.mem_singleton.mp new]
  lists_iff := by
    intro array
    rw [Store.lists, List.map_append, List.map_singleton, Call.apply,
      Store.lists, List.append_right_inj]
    exact List.singleton_inj

theorem appendBytes_puts (wellFormed : store.WellFormed) (alloc : Allocator)
    {index : Nat} (inside : index < store.length)
    (data : { data : Buffer // data.content.length ≤ ptrdiffMax }) :
    Puts store (alloc, .appendBytes index data)
      (appendTo alloc store[index]? data.val)
      (store.lists.getD index [] ++ data.val.content)
      fun array => store.set index array where
  perform := rfl
  wellFormed := by
    intro array good other member
    rcases List.mem_or_eq_of_mem_set member with old | rfl
    · exact wellFormed other old
    · exact good
  lists_iff := by
    intro array
    have inside' : index < store.lists.length := by
      rwa [Store.lists, List.length_map]
    rw [Store.lists, List.map_set, Call.apply]
    constructor
    · intro same
      have here :=
        List.getElem?_set_self inside' |>.symm.trans
          ((congrArg (·[index]?) same).trans
            (List.getElem?_set_self inside'))
      exact Option.some.inj here
    · rintro same
      rw [same]
      rfl

/-- One call, whatever it is. -/
theorem step_cases (wellFormed : store.WellFormed) (step : Step) :
    (next store step).WellFormed ∧
      (Returns store step ∧
          (next store step).lists = follow store step store.lists ↔
        Exact store step) ∧
      Justified store step := by
  rcases step with ⟨alloc, build | ⟨index, data⟩⟩
  · exact
      (make_puts wellFormed alloc build).next_cases wellFormed
        (build_ends alloc wellFormed build)
  by_cases inside : index < store.length
  · exact
      (appendBytes_puts wellFormed alloc inside data).next_cases wellFormed
        (appendTo_ends alloc wellFormed index data.property)
  · have absent : store[index]? = none :=
      List.getElem?_eq_none (Nat.not_lt.mp inside)
    have failed :
        Call.perform alloc store (.appendBytes index data) =
          .error (.error .invalidArgument "") := by
      rw [Call.perform, absent]
      rfl
    have free {property : NeocByteArray → Prop} :
        ∀ array ∈ store[index]?, property array := by
      intro array found
      rw [absent] at found
      cases found
    refine
      ⟨by rwa [next, failed], iff_of_true ⟨?_, ?_⟩ free, fun _ _ _ => free⟩
    · intro reason same
      rw [failed] at same
      cases same
      exact ⟨_, _, rfl⟩
    · rw [next, follow, failed]
      rfl

/-! ## Runs -/

theorem WellFormed.holds_iff {array : NeocByteArray}
    (wellFormed : array.WellFormed) (content : List UInt8) :
    array.Holds content ↔ array.contents = content := by
  rcases wellFormed with ⟨bytes, stale, rfl, -⟩
  rw [contents_filled]
  have front :
      (filled bytes stale).data.take (filled bytes stale).length =
        Cells.written bytes :=
    List.take_left' (Cells.length_written bytes)
  constructor
  · rintro ⟨-, same⟩
    rw [front] at same
    exact Cells.written_inj.mp same
  · rintro rfl
    exact ⟨rfl, front⟩

/-- The arrays of a store hold lists. -/
theorem Store.holds_iff (wellFormed : store.WellFormed)
    (lists : List (List UInt8)) :
    List.Forall₂ Holds store lists ↔ store.lists = lists := by
  induction store generalizing lists with
  | nil =>
      cases lists with
      | nil => exact iff_of_true .nil rfl
      | cons content rest =>
          exact
            iff_of_false (fun all => nomatch all) (fun same => nomatch same)
  | cons array store induction =>
      cases lists with
      | nil =>
          exact
            iff_of_false (fun all => nomatch all) (fun same => nomatch same)
      | cons content rest =>
          rcases List.forall_mem_cons.mp wellFormed with ⟨first, others⟩
          rw [List.forall₂_cons, first.holds_iff, induction others]
          exact List.cons_eq_cons.symm

/--
Along every run, the calls return and the arrays hold the lists that they are
to hold in every state reached, exactly if no text that stands for bytes is
read, nothing is padded, and what is appended finds a capacity.  In any case
a call is refused only for its arguments or for want of memory.
-/
theorem behave_as_lists_iff (steps : List Step) :
    ((Along next Returns [] steps ∧
          ∀ reached, reached <+: steps →
            List.Forall₂ Holds (finalState next [] reached)
              (predict next follow [] [] reached)) ↔
        Along next Exact [] steps) ∧
      Along next Justified [] steps := by
  have none : Store.WellFormed [] := fun _ member => nomatch member
  have kept (reached : List Step) :
      Store.WellFormed (finalState next [] reached) := by
    have free : Along next (fun _ _ => True) [] reached :=
      (along_const _ reached).mpr fun _ _ => trivial
    exact
      finalState_invariant Store.WellFormed
        (fun store step held _ => (step_cases held step).1) none free
  have compared :
      (∀ reached, reached <+: steps →
          List.Forall₂ Holds (finalState next [] reached)
            (predict next follow [] [] reached)) ↔
        Along next
          (fun store step =>
            (next store step).lists = follow store step store.lists)
          [] steps := by
    rw [← predict_prefixes_iff]
    simp only [fun reached => Store.holds_iff (kept reached)]
    rfl
  rw [compared, ← along_and]
  constructor
  · exact
      along_iff_of_invariant Store.WellFormed
        (fun store step held _ => (step_cases held step).1)
        (fun store step held => (step_cases held step).2.1) none steps
  · exact
      along_of_forall Store.WellFormed
        (fun store step held => (step_cases held step).1)
        (fun store step held => (step_cases held step).2.2) none steps

theorem Store.lengths_of_holds {lists : List (List UInt8)}
    (holds : List.Forall₂ Holds store lists) :
    store.map length = lists.map List.length := by
  induction holds with
  | nil => rfl
  | cons first _ induction =>
      rw [List.map_cons, List.map_cons, first.length_eq, induction]

/-- A text that is read back and a padded array come out without a byte. -/
theorem text_and_padding_come_out_empty :
    ∃ steps : List Step,
      steps =
          [(.ample, .make (.fromData (.items [1]))),
            (.ample, .make (.throughHex 0 false true .ample)),
            (.ample, .make (.pad 0 2 0 true)),
            (.ample, .make (.concat 1 2))] ∧
        predict next follow [] [] steps = [[1], [1], [0, 1], [1, 0, 1]] ∧
        (finalState next [] steps).map length = [1, 0, 0, 0] ∧
        ¬ List.Forall₂ Holds (finalState next [] steps)
          (predict next follow [] [] steps) := by
  refine ⟨_, rfl, by decide, by decide, ?_⟩
  intro holds
  exact absurd (Store.lengths_of_holds holds) (by decide)

end NeocByteArray

end NeoC
