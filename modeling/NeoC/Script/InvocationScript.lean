import NeoC.Foundation.Run
import NeoC.Script.ScriptBuilder
import NeoC.Serialization.RoundTrip

/-!
# Invocation scripts

An invocation script grows by one push for each signature.  Signatures are
taken out again by a parser with two passes: the first one counts and checks
every bound, the second one copies and trusts the first.  A load of the second
pass outside the script halts here, so that its trust is part of what is
proved.

`Holds` relates a script to the byte strings that were pushed.  It is
established by the constructors, kept by every push, and gives the result of
the parser.
-/

namespace NeoC

open Foundation NeoVm

/-- A `neoc_invocation_script_t`. -/
structure InvocationScript where
  script : Buffer
deriving DecidableEq, Repr

namespace InvocationScript

/-- `sizeof(neoc_invocation_script_t)`. -/
def structSize : Nat := 16

/-- `NEOC_SIGNATURE_SIZE`. -/
def signatureSize : Nat := 64

/-- The size of a pointer, and of a length. -/
def wordSize : Nat := 8

/-! ## Appending a push -/

/-- `neoc_invocation_pushdata_header_size`. -/
def pushdataHeaderSize (dataLen : Nat) : Outcome Nat :=
  if dataLen ≤ 0xFF then
    .ok 2
  else if dataLen ≤ 0xFFFF then
    .ok 3
  else if dataLen ≤ 0xFFFFFFFF then
    .ok 5
  else
    .error (.error .invalidLength "Push data length exceeds supported range")

/-- `neoc_invocation_write_pushdata_header`: the bytes it writes. -/
def writePushdataHeader (bufferLen dataLen : Nat) :
    Outcome (List UInt8) := do
  let required ← pushdataHeaderSize dataLen
  if bufferLen < required then
    .error (.error .bufferOverflow "Pushdata header buffer too small")
  else if dataLen ≤ 0xFF then
    .ok (Opcode.pushData1 :: LittleEndian.toBytes 1 dataLen)
  else if dataLen ≤ 0xFFFF then
    .ok (Opcode.pushData2 :: LittleEndian.toBytes 2 dataLen)
  else
    .ok (Opcode.pushData4 :: LittleEndian.toBytes 4 dataLen)

/--
Growing the buffer and copying a header and its payload behind what is there.
A length that wrapped would leave too little room for the copies.
-/
def growWith (alloc : Allocator) (header content : List UInt8) :
    Routine InvocationScript Unit :=
  fun invocationScript =>
    let newLen :=
      sizeAdd (sizeAdd invocationScript.script.len header.length)
        content.length
    if alloc.neocGrants newLen = false then
      errorSet .outOfMemory "Failed to grow invocation script buffer"
        invocationScript
    else if newLen <
        invocationScript.script.len + header.length + content.length then
      Call.halt .illegalAccess invocationScript
    else
      (.ok (),
        { script :=
            .items
              (invocationScript.script.content ++ (header ++ content)) })

/-- `neoc_invocation_append_data`. -/
def appendData (alloc : Allocator) (data : Buffer) :
    Routine InvocationScript Unit :=
  match data with
  | .null _ =>
      errorSet .invalidArgument "Invalid invocation script append arguments"
  | .items content => do
      let header ← Call.lift (writePushdataHeader 5 content.length)
      growWith alloc header content

/-! ## The constructors -/

/-- `neoc_invocation_script_allocate`. -/
def allocate (alloc : Allocator) (script : Buffer) :
    Outcome InvocationScript :=
  if alloc.neocGrants structSize = false then
    .error (.error .outOfMemory "Failed to allocate invocation script")
  else if script.len = 0 then
    .ok { script := .null 0 }
  else
    match script with
    | .null _ =>
        .error
          (.error .invalidArgument
            "Script data is NULL but length is non-zero")
    | .items content =>
        if alloc.neocGrants content.length = false then
          .error
            (.error .outOfMemory "Failed to copy invocation script data")
        else
          .ok { script := .items content }

/-- `neoc_invocation_script_create`. -/
def create (alloc : Allocator) (script : Buffer) : Outcome InvocationScript :=
  allocate alloc script

/-- `neoc_invocation_script_create_empty`. -/
def createEmpty (alloc : Allocator) : Outcome InvocationScript :=
  allocate alloc (.null 0)

/-- `neoc_invocation_script_create_single_sig`. -/
def createSingleSig (alloc : Allocator) (signature : Buffer) :
    Outcome InvocationScript :=
  match signature with
  | .null _ =>
      .error
        (.error .invalidArgument
          "Invalid single signature invocation arguments")
  | .items content =>
      if content.length ≠ signatureSize then
        .error (.error .invalidLength "Signature must be 64 bytes")
      else do
        let scriptObj ← allocate alloc (.null 0)
        let appended ← (appendData alloc (.items content)).eval scriptObj
        .ok appended.2

/--
The checks in front of `neoc_invocation_append_data`; the two callers differ
in the text for a `NULL`.
-/
def appendSignature (nullText : String) (alloc : Allocator)
    (signature : Buffer) : Routine InvocationScript Unit :=
  match signature with
  | .null _ => errorSet .invalidArgument nullText
  | .items content =>
      if content.length = 0 then
        errorSet .invalidLength "Signature length must be greater than zero"
      else
        appendData alloc (.items content)

/-- The body of the loop in `neoc_invocation_script_create_multi_sig`. -/
def pushSignature (alloc : Allocator) (signature : Buffer) :
    Routine InvocationScript Unit :=
  appendSignature "Signature pointer is NULL" alloc signature

/-- `neoc_invocation_script_create_multi_sig`. -/
def createMultiSig (alloc : Allocator) (signatures : Slice Buffer) :
    Outcome InvocationScript :=
  match signatures with
  | .null count =>
      if count > 0 then
        .error (.error .invalidArgument "Signature arrays are NULL")
      else
        allocate alloc (.null 0)
  | .items buffers => do
      let scriptObj ← allocate alloc (.null 0)
      let pushed ← (Call.forEach (pushSignature alloc) buffers).eval scriptObj
      .ok pushed.2

/-- `neoc_invocation_script_add_signature`. -/
def addSignature (alloc : Allocator) (signature : Buffer) :
    Routine InvocationScript Unit :=
  appendSignature "Invalid add signature arguments" alloc signature

/-! ## Taking the signatures out -/

/-- `neoc_invocation_script_is_empty`. -/
def isEmpty (invocationScript : InvocationScript) : Bool :=
  decide (invocationScript.script.len = 0)

/--
The number of length bytes behind an opcode that pushes data, and the text of
the error where they are missing.
-/
def lengthWidth (opcode : UInt8) : Option (Nat × String) :=
  if opcode = Opcode.pushData1 then
    some (1, "Unexpected end of script while reading PUSHDATA1 length")
  else if opcode = Opcode.pushData2 then
    some (2, "Unexpected end of script while reading PUSHDATA2 length")
  else if opcode = Opcode.pushData4 then
    some (4, "Unexpected end of script while reading PUSHDATA4 length")
  else
    none

/-- The length bytes at an offset. -/
def lengthAt (content : List UInt8) (offset width : Nat) : Nat :=
  LittleEndian.ofBytes ((content.drop offset).take width)

/-- The first pass of `neoc_invocation_script_extract_signatures`. -/
def countSignatures (content : List UInt8) (offset count : Nat) :
    Outcome Nat :=
  if offset < content.length then
    match lengthWidth (content.getD offset 0) with
    | none => .ok count
    | some (width, text) =>
        if offset + 1 + width > content.length then
          .error (.error .invalidFormat text)
        else
          let payloadLen := lengthAt content (offset + 1) width
          if offset + 1 + width + payloadLen > content.length then
            .error
              (.error .invalidFormat
                "Invocation script payload exceeds buffer length")
          else
            countSignatures content (offset + 1 + width + payloadLen)
              (if payloadLen = signatureSize then count + 1 else count)
  else
    .ok count
termination_by content.length - offset

/--
The second pass.  It reads the length bytes without a check of its own.
-/
def copySignatures (alloc : Allocator) (content : List UInt8)
    (count offset index : Nat) : Outcome (List (List UInt8)) :=
  if offset < content.length ∧ index < count then
    match lengthWidth (content.getD offset 0) with
    | none => .ok []
    | some (width, _) =>
        if offset + 1 + width > content.length then
          .error .illegalAccess
        else
          let payloadLen := lengthAt content (offset + 1) width
          let payload := offset + 1 + width
          if payload + payloadLen > content.length then
            .error
              (.error .invalidFormat
                "Invocation script payload exceeds buffer length")
          else if payloadLen = signatureSize then
            if alloc.neocGrants payloadLen = false then
              .error (.error .outOfMemory "Failed to copy signature")
            else do
              let signatures ←
                copySignatures alloc content count (payload + payloadLen)
                  (index + 1)
              .ok ((content.drop payload).take payloadLen :: signatures)
          else
            copySignatures alloc content count (payload + payloadLen) index
  else
    .ok []
termination_by content.length - offset

/-- `neoc_invocation_script_extract_signatures`. -/
def extractSignatures (alloc : Allocator)
    (invocationScript : InvocationScript) : Outcome (List (List UInt8)) :=
  if invocationScript.isEmpty then
    .ok []
  else do
    let content := invocationScript.script.content
    let count ← countSignatures content 0 0
    if count = 0 then
      .ok []
    else if alloc.neocGrants (count * wordSize) = false then
      .error (.error .outOfMemory "Failed to allocate signature arrays")
    else
      copySignatures alloc content count 0 0

/-! ## The wire format -/

/-- `neoc_invocation_script_get_size`. -/
def getSize (invocationScript : InvocationScript) : Nat :=
  BinaryWriter.varIntSize invocationScript.script.len +
    invocationScript.script.len

/-- `neoc_invocation_script_serialize`. -/
def serialize (alloc : Allocator) (invocationScript : InvocationScript) :
    Outcome (List UInt8) :=
  BinaryWriter.produce alloc (BinaryWriter.create alloc 32 true)
    (BinaryWriter.writeVarBytes alloc invocationScript.script)

/-- `neoc_invocation_script_deserialize`. -/
def deserialize (alloc : Allocator) (serialized : List UInt8) :
    Outcome InvocationScript := do
  let reader ← BinaryReader.create alloc serialized
  let read ← (BinaryReader.readVarBytes alloc).eval reader
  allocate alloc read.1

/-! ## What a push appends -/

open Serialization (bufferOf content_bufferOf len_bufferOf)

/-- The bytes that a push of data appends. -/
abbrev pushBytes (data : List UInt8) : List UInt8 :=
  (Instruction.pushData data).encode

/-- The header that is written belongs to the push instruction. -/
theorem writePushdataHeader_eq {data : List UInt8}
    (fits : data.length < 0x100000000) :
    ∃ header,
      writePushdataHeader 5 data.length = .ok header ∧
        header ++ data = pushBytes data := by
  rw [pushBytes, Instruction.encode, writePushdataHeader, pushdataHeaderSize]
  split_ifs with one two four
  · exact ⟨_, rfl, rfl⟩
  · exact ⟨_, rfl, rfl⟩
  · exact ⟨_, rfl, rfl⟩
  · omega

theorem writePushdataHeader_fails {data : List UInt8}
    (long : 0x100000000 ≤ data.length) :
    ∃ reason, writePushdataHeader 5 data.length = .error reason := by
  rw [writePushdataHeader, pushdataHeaderSize, if_neg (by omega),
    if_neg (by omega), if_neg (by omega)]
  exact ⟨_, rfl⟩

theorem length_pushBytes_le (data : List UInt8) :
    (pushBytes data).length ≤ data.length + 5 := by
  rw [pushBytes, Instruction.encode]
  split_ifs <;>
    simp only [List.length_cons, List.length_append,
      LittleEndian.length_toBytes] <;>
    omega

theorem growWith_cases (alloc : Allocator) (header content : List UInt8)
    (invocationScript : InvocationScript) :
    (∃ reason,
        growWith alloc header content invocationScript =
          (.error reason, invocationScript)) ∨
      growWith alloc header content invocationScript =
        (.ok (),
          { script :=
              .items
                (invocationScript.script.content ++
                  (header ++ content)) }) := by
  unfold growWith
  extract_lets newLen
  split
  · exact .inl ⟨_, rfl⟩
  split
  · exact .inl ⟨_, rfl⟩
  · exact .inr rfl

/-- What appending data can do. -/
theorem appendData_cases (alloc : Allocator) (data : Buffer)
    (invocationScript : InvocationScript) :
    (∃ reason,
        appendData alloc data invocationScript =
          (.error reason, invocationScript)) ∨
      ∃ content,
        data = .items content ∧ content.length < 0x100000000 ∧
          appendData alloc data invocationScript =
            (.ok (),
              { script :=
                  .items
                    (invocationScript.script.content ++
                      pushBytes content) }) := by
  rcases data with count | content
  · exact .inl ⟨_, rfl⟩
  by_cases fits : content.length < 0x100000000
  · rcases writePushdataHeader_eq fits with ⟨header, written, bytes⟩
    rw [appendData, written, Call.lift_ok_bind]
    rcases growWith_cases alloc header content invocationScript with
      ⟨reason, refused⟩ | grown
    · exact .inl ⟨reason, refused⟩
    · rw [bytes] at grown
      exact .inr ⟨content, rfl, fits, grown⟩
  · rcases writePushdataHeader_fails (Nat.le_of_not_lt fits) with
      ⟨reason, failed⟩
    rw [appendData, failed, Call.lift_error_bind]
    exact .inl ⟨reason, rfl⟩

/-- With memory for the longer script, the data is appended. -/
theorem appendData_succeeds {alloc : Allocator} {content : List UInt8}
    {invocationScript : InvocationScript}
    (fits : content.length < 0x100000000)
    (serves :
      alloc.Serves
        (invocationScript.script.len + (pushBytes content).length)) :
    appendData alloc (.items content) invocationScript =
      (.ok (),
        { script :=
            .items
              (invocationScript.script.content ++ pushBytes content) }) := by
  rcases writePushdataHeader_eq fits with ⟨header, written, bytes⟩
  have lengths : header.length + content.length = (pushBytes content).length := by
    rw [← bytes, List.length_append]
  have some : 0 < (pushBytes content).length :=
    List.length_pos_iff.mpr (encode_ne_nil _)
  have bounded := serves.bound_le
  have small : ptrdiffMax < sizeModulus := by decide
  have inner :
      sizeAdd invocationScript.script.len header.length =
        invocationScript.script.len + header.length :=
    sizeAdd_of_lt (by omega)
  have newLen :
      sizeAdd (sizeAdd invocationScript.script.len header.length)
          content.length =
        invocationScript.script.len + header.length + content.length := by
    rw [inner]
    exact sizeAdd_of_lt (by omega)
  have granted :
      alloc.neocGrants
          (invocationScript.script.len + header.length + content.length) =
        true :=
    serves.neocGrants (by omega) (by omega)
  rw [appendData, written, Call.lift_ok_bind, growWith, newLen, granted,
    bytes]
  simp

/-! ## A script and what was pushed -/

/-- The bytes of a list of pushes. -/
def pushesBytes (pushed : List (List UInt8)) : List UInt8 :=
  assemble (pushed.map Instruction.pushData)

theorem pushesBytes_cons (data : List UInt8) (pushed : List (List UInt8)) :
    pushesBytes (data :: pushed) = pushBytes data ++ pushesBytes pushed :=
  rfl

theorem pushesBytes_append (first second : List (List UInt8)) :
    pushesBytes (first ++ second) =
      pushesBytes first ++ pushesBytes second := by
  rw [pushesBytes, List.map_append, assemble_append]
  rfl

/-- The script consists of these pushes, each short enough to be one. -/
structure Holds (invocationScript : InvocationScript)
    (pushed : List (List UInt8)) : Prop where
  script_eq : invocationScript.script = bufferOf (pushesBytes pushed)
  fits : ∀ data ∈ pushed, data.length < 0x100000000

namespace Holds

variable {alloc : Allocator} {invocationScript : InvocationScript}
  {pushed : List (List UInt8)}

theorem content_eq (holds : invocationScript.Holds pushed) :
    invocationScript.script.content = pushesBytes pushed := by
  rw [holds.script_eq, content_bufferOf]

theorem len_eq (holds : invocationScript.Holds pushed) :
    invocationScript.script.len = (pushesBytes pushed).length := by
  rw [holds.script_eq, len_bufferOf]

theorem empty : Holds { script := .null 0 } [] :=
  ⟨rfl, fun _ member => absurd member List.not_mem_nil⟩

/-- A push is added at the end. -/
theorem push (holds : invocationScript.Holds pushed) {content : List UInt8}
    (fits : content.length < 0x100000000) :
    Holds
      { script :=
          .items (invocationScript.script.content ++ pushBytes content) }
      (pushed ++ [content]) := by
  have bytes :
      pushesBytes (pushed ++ [content]) =
        pushesBytes pushed ++ pushBytes content := by
    rw [pushesBytes_append, pushesBytes_cons]
    exact congrArg _ (List.append_nil _)
  have some := encode_ne_nil (Instruction.pushData content)
  refine ⟨?_, ?_⟩
  · rw [holds.content_eq, bytes, bufferOf, if_neg]
    rw [List.length_eq_zero_iff]
    exact List.append_ne_nil_of_right_ne_nil _ some
  · intro data member
    rcases List.mem_append.mp member with older | newest
    · exact holds.fits data older
    · rw [List.mem_singleton.mp newest]
      exact fits

end Holds

/-! ## Pushing signatures -/

/-- What appending a signature can do. -/
theorem appendSignature_cases (nullText : String) (alloc : Allocator)
    (signature : Buffer) (invocationScript : InvocationScript) :
    (∃ reason,
        appendSignature nullText alloc signature invocationScript =
          (.error reason, invocationScript)) ∨
      ∃ content,
        signature = .items content ∧ content.length < 0x100000000 ∧
          appendSignature nullText alloc signature invocationScript =
            (.ok (),
              { script :=
                  .items
                    (invocationScript.script.content ++
                      pushBytes content) }) := by
  rcases signature with count | content
  · exact .inl ⟨_, rfl⟩
  · rw [appendSignature]
    split
    · exact .inl ⟨_, rfl⟩
    · exact appendData_cases alloc (.items content) invocationScript

theorem appendSignature_succeeds (nullText : String) {alloc : Allocator}
    {content : List UInt8} {invocationScript : InvocationScript}
    (positive : 1 ≤ content.length) (fits : content.length < 0x100000000)
    (serves :
      alloc.Serves
        (invocationScript.script.len + (pushBytes content).length)) :
    appendSignature nullText alloc (.items content) invocationScript =
      (.ok (),
        { script :=
            .items
              (invocationScript.script.content ++ pushBytes content) }) := by
  rw [appendSignature, if_neg (by omega)]
  exact appendData_succeeds fits serves

/-- The loop pushes all signatures, or the whole call fails. -/
theorem forEach_holds {alloc : Allocator} {buffers : List Buffer}
    {invocationScript result : InvocationScript}
    {pushed : List (List UInt8)}
    (holds : invocationScript.Holds pushed)
    (ran :
      Call.forEach (pushSignature alloc) buffers invocationScript =
        (.ok (), result)) :
    ∃ contents,
      buffers = contents.map Slice.items ∧
        result.Holds (pushed ++ contents) := by
  induction buffers generalizing invocationScript pushed with
  | nil =>
      injection ran with _ same
      subst same
      exact ⟨[], rfl, by rwa [List.append_nil]⟩
  | cons signature rest induction =>
      rcases Call.bind_eq_ok_iff.mp ran with ⟨_, middle, first, later⟩
      rcases appendSignature_cases "Signature pointer is NULL" alloc
          signature invocationScript with
        ⟨reason, refused⟩ | ⟨content, rfl, fits, appended⟩
      · have clash := first.symm.trans refused
        cases clash
      · have same := first.symm.trans appended
        injection same with _ same
        subst same
        rcases induction (holds.push fits) later with
          ⟨contents, rfl, reached⟩
        refine ⟨content :: contents, rfl, ?_⟩
        rwa [List.append_assoc] at reached

theorem forEach_succeeds {alloc : Allocator} {contents : List (List UInt8)}
    {invocationScript : InvocationScript} {pushed : List (List UInt8)}
    (holds : invocationScript.Holds pushed)
    (lengths :
      ∀ content ∈ contents,
        1 ≤ content.length ∧ content.length < 0x100000000)
    (serves : alloc.Serves (pushesBytes (pushed ++ contents)).length) :
    ∃ result,
      Call.forEach (pushSignature alloc) (contents.map Slice.items)
          invocationScript =
        (.ok (), result) := by
  induction contents generalizing invocationScript pushed with
  | nil => exact ⟨_, rfl⟩
  | cons content rest induction =>
      rcases lengths content List.mem_cons_self with ⟨positive, fits⟩
      have memory :
          alloc.Serves
            (invocationScript.script.len + (pushBytes content).length) := by
        apply serves.mono
        rw [holds.len_eq, pushesBytes_append, pushesBytes_cons,
          List.length_append, List.length_append]
        omega
      have appended :
          pushSignature alloc (.items content) invocationScript = _ :=
        appendSignature_succeeds _ positive fits memory
      have regrouped :
          pushed ++ content :: rest = (pushed ++ [content]) ++ rest := by
        rw [List.append_assoc]
        rfl
      rw [regrouped] at serves
      rcases induction (holds.push fits)
          (fun later member => lengths later (List.mem_cons_of_mem _ member))
          serves with
        ⟨result, ran⟩
      refine ⟨result, ?_⟩
      rw [List.map_cons]
      exact (Call.bind_of_ok appended).trans ran

theorem allocate_empty_eq_ok {alloc : Allocator}
    {invocationScript : InvocationScript}
    (allocated : allocate alloc (.null 0) = .ok invocationScript) :
    invocationScript = { script := .null 0 } := by
  rw [allocate] at allocated
  split at allocated
  · cases allocated
  · injection allocated with same
    exact same.symm

/-- A copy of a buffer of bytes has the same form. -/
theorem allocate_bufferOf {alloc : Allocator} {content : List UInt8}
    (serves : alloc.Serves (max structSize content.length)) :
    allocate alloc (bufferOf content) = .ok { script := bufferOf content } := by
  have granted : alloc.neocGrants structSize = true :=
    serves.neocGrants (by decide) (le_max_left _ _)
  unfold allocate
  rw [granted, if_neg (by decide), len_bufferOf, bufferOf]
  split
  · rfl
  · rename_i some
    have copied : alloc.neocGrants content.length = true :=
      serves.neocGrants (by omega) (le_max_right _ _)
    dsimp only
    rw [copied, if_neg (by decide)]

/-- A script that was created consists of the signatures. -/
theorem createMultiSig_holds {alloc : Allocator}
    {contents : List (List UInt8)} {invocationScript : InvocationScript}
    (created :
      createMultiSig alloc (.items (contents.map Slice.items)) =
        .ok invocationScript) :
    invocationScript.Holds contents := by
  rcases Except.bind_eq_ok_iff.mp created with ⟨start, allocated, rest⟩
  rcases Except.bind_eq_ok_iff.mp rest with ⟨⟨_, pushed⟩, ran, last⟩
  injection last with same
  subst same
  have begins := allocate_empty_eq_ok allocated
  subst begins
  rcases forEach_holds Holds.empty (Call.eval_eq_ok_iff.mp ran) with
    ⟨found, same, holds⟩
  have injective : Function.Injective (Slice.items (α := UInt8)) := by
    intro left right equal
    injection equal
  rw [List.nil_append] at holds
  rwa [← List.map_injective_iff.mpr injective same] at holds

theorem createMultiSig_succeeds {alloc : Allocator}
    {contents : List (List UInt8)}
    (lengths :
      ∀ content ∈ contents,
        1 ≤ content.length ∧ content.length < 0x100000000)
    (serves : alloc.Serves (max structSize (pushesBytes contents).length)) :
    ∃ invocationScript,
      createMultiSig alloc (.items (contents.map Slice.items)) =
        .ok invocationScript := by
  have allocated : allocate alloc (.null 0) = .ok { script := .null 0 } :=
    @allocate_bufferOf alloc []
      (serves.mono (max_le_max le_rfl (Nat.zero_le _)))
  rcases forEach_succeeds Holds.empty lengths
      (serves.mono (le_max_right _ _)) with
    ⟨result, ran⟩
  refine ⟨result, ?_⟩
  rw [createMultiSig, allocated]
  change (Call.eval _ _ >>= _) = _
  rw [Call.eval_eq_ok_iff.mpr ran]
  rfl

/-! ## The two passes -/

/-- The form of a push: an opcode, the length and the data. -/
theorem pushBytes_form {data : List UInt8}
    (fits : data.length < 0x100000000) :
    ∃ opcode width text,
      pushBytes data =
          opcode :: (LittleEndian.toBytes width data.length ++ data) ∧
        lengthWidth opcode = some (width, text) ∧
        data.length < 256 ^ width := by
  rw [pushBytes, Instruction.encode]
  split_ifs with one two
  · exact ⟨_, 1, _, rfl, rfl, by omega⟩
  · exact ⟨_, 2, _, rfl, rfl, by omega⟩
  · exact ⟨_, 4, _, rfl, rfl, by omega⟩

section Passes

variable {data : List UInt8} (before after : List UInt8)

/-- Where a push stands in a script, and what the passes read of it. -/
theorem push_at (fits : data.length < 0x100000000)
    {script : List UInt8}
    (script_eq : script = before ++ (pushBytes data ++ after)) :
    ∃ opcode width text,
      script.getD before.length 0 = opcode ∧
        lengthWidth opcode = some (width, text) ∧
        before.length + 1 + width + data.length =
          before.length + (pushBytes data).length ∧
        lengthAt script (before.length + 1) width = data.length ∧
        (script.drop (before.length + 1 + width)).take data.length = data ∧
        script.length =
          before.length + (pushBytes data).length + after.length := by
  rcases pushBytes_form fits with ⟨opcode, width, text, form, wide, small⟩
  refine ⟨opcode, width, text, ?_, wide, ?_, ?_, ?_, ?_⟩
  · rw [script_eq, form, List.cons_append]
    simp
  · rw [form, List.length_cons, List.length_append,
      LittleEndian.length_toBytes]
    omega
  · have behind :
        script.drop (before.length + 1) =
          LittleEndian.toBytes width data.length ++ (data ++ after) := by
      rw [script_eq, form, ← List.drop_drop, List.drop_left,
        List.cons_append, List.append_assoc]
      rfl
    rw [lengthAt, behind,
      List.take_left' (LittleEndian.length_toBytes width data.length),
      LittleEndian.ofBytes_toBytes_of_lt small]
  · have behind :
        script.drop (before.length + 1 + width) = data ++ after := by
      rw [script_eq, form, Nat.add_assoc, ← List.drop_drop, List.drop_left,
        List.cons_append, Nat.add_comm, List.drop_succ_cons,
        List.append_assoc,
        List.drop_left' (LittleEndian.length_toBytes width data.length)]
    rw [behind, List.take_left]
  · rw [script_eq, List.length_append, List.length_append, Nat.add_assoc]

/-- The first pass steps over a push. -/
theorem countSignatures_push (fits : data.length < 0x100000000)
    (count : Nat) :
    countSignatures (before ++ (pushBytes data ++ after)) before.length
        count =
      countSignatures (before ++ (pushBytes data ++ after))
        (before.length + (pushBytes data).length)
        (if data.length = signatureSize then count + 1 else count) := by
  have some : 0 < (pushBytes data).length :=
    List.length_pos_iff.mpr (encode_ne_nil _)
  generalize shape : before ++ (pushBytes data ++ after) = script
  rcases push_at before after fits shape.symm with
    ⟨opcode, width, text, first, wide, stop, len, -, total⟩
  rw [countSignatures, if_pos (by omega), first, wide]
  dsimp only
  rw [len, if_neg (by omega), if_neg (by omega), stop]

/-- The second pass steps over a push and keeps it if it is a signature. -/
theorem copySignatures_push {alloc : Allocator}
    (granted : alloc.neocGrants signatureSize = true)
    (fits : data.length < 0x100000000) {count index : Nat}
    (missing : index < count) {signatures : List (List UInt8)}
    (copied :
      copySignatures alloc (before ++ (pushBytes data ++ after)) count
          (before.length + (pushBytes data).length)
          (if data.length = signatureSize then index + 1 else index) =
        .ok signatures) :
    copySignatures alloc (before ++ (pushBytes data ++ after)) count
        before.length index =
      .ok
        (if data.length = signatureSize then data :: signatures
          else signatures) := by
  have some : 0 < (pushBytes data).length :=
    List.length_pos_iff.mpr (encode_ne_nil _)
  generalize shape : before ++ (pushBytes data ++ after) = script at copied ⊢
  rcases push_at before after fits shape.symm with
    ⟨opcode, width, text, first, wide, stop, len, payload, total⟩
  rw [copySignatures, if_pos ⟨by omega, missing⟩, first, wide]
  dsimp only
  rw [len, if_neg (by omega), if_neg (by omega), stop, payload]
  split
  · rename_i exact
    rw [if_pos exact] at copied
    rw [exact, granted, if_neg (by decide), copied]
    rfl
  · rename_i other
    rw [if_neg other] at copied
    exact copied

end Passes

/-- The signatures among the byte strings that were pushed. -/
def signaturesOf (pushed : List (List UInt8)) : List (List UInt8) :=
  pushed.filter fun data => data.length = signatureSize

theorem signaturesOf_cons (data : List UInt8)
    (pushed : List (List UInt8)) :
    signaturesOf (data :: pushed) =
      if data.length = signatureSize then data :: signaturesOf pushed
      else signaturesOf pushed := by
  rw [signaturesOf, List.filter_cons]
  simp only [decide_eq_true_eq]
  rfl

/-- The first pass counts the signatures. -/
theorem countSignatures_pushes {pushed : List (List UInt8)}
    (fits : ∀ data ∈ pushed, data.length < 0x100000000)
    (before : List UInt8) (count : Nat) :
    countSignatures (before ++ pushesBytes pushed) before.length count =
      .ok (count + (signaturesOf pushed).length) := by
  induction pushed generalizing before count with
  | nil =>
      rw [countSignatures, if_neg]
      · rfl
      · rw [List.length_append]
        exact Nat.lt_irrefl _
  | cons data rest induction =>
      rw [pushesBytes_cons,
        countSignatures_push _ _ (fits data List.mem_cons_self),
        ← List.append_assoc, ← List.length_append,
        induction fun later member =>
          fits later (List.mem_cons_of_mem _ member)]
      rw [signaturesOf_cons]
      split
      · rw [List.length_cons, Nat.add_assoc, Nat.add_comm 1]
      · rfl

/-- The second pass copies the signatures that are still missing. -/
theorem copySignatures_pushes {alloc : Allocator}
    (granted : alloc.neocGrants signatureSize = true)
    {pushed : List (List UInt8)}
    (fits : ∀ data ∈ pushed, data.length < 0x100000000)
    (before : List UInt8) {count index : Nat}
    (missing : count = index + (signaturesOf pushed).length) :
    copySignatures alloc (before ++ pushesBytes pushed) count before.length
        index =
      .ok (signaturesOf pushed) := by
  induction pushed generalizing before index with
  | nil =>
      rw [copySignatures, if_neg]
      · rfl
      · rw [List.length_append]
        exact fun open' => Nat.lt_irrefl _ open'.1
  | cons data rest induction =>
      by_cases done : index < count
      · have later :
            copySignatures alloc
                ((before ++ pushBytes data) ++ pushesBytes rest) count
                (before ++ pushBytes data).length
                (if data.length = signatureSize then index + 1 else index) =
              .ok (signaturesOf rest) := by
          apply induction
          · intro later member
            exact fits later (List.mem_cons_of_mem _ member)
          · rw [missing, signaturesOf_cons]
            split
            · rw [List.length_cons]
              omega
            · rfl
        rw [List.append_assoc, List.length_append] at later
        rw [pushesBytes_cons,
          copySignatures_push _ _ granted (fits data List.mem_cons_self)
            done later,
          signaturesOf_cons]
      · have none : signaturesOf (data :: rest) = [] :=
          List.length_eq_zero_iff.mp (by omega)
        rw [copySignatures, if_neg (fun open' => done open'.2), none]

namespace Holds

variable {alloc : Allocator} {invocationScript : InvocationScript}
  {pushed : List (List UInt8)}

theorem length_signaturesOf_le (pushed : List (List UInt8)) :
    (signaturesOf pushed).length * signatureSize ≤
      (pushesBytes pushed).length := by
  induction pushed with
  | nil => exact Nat.zero_le _
  | cons data rest induction =>
      have grows : data.length ≤ (pushBytes data).length := by
        rw [pushBytes, Instruction.encode]
        split_ifs <;>
          simp only [List.length_cons, List.length_append] <;> omega
      rw [pushesBytes_cons, List.length_append, signaturesOf_cons]
      split
      · rw [List.length_cons, Nat.add_mul]
        omega
      · omega

/-- The parser returns the signatures, in the order they were pushed. -/
theorem extractSignatures_eq (holds : invocationScript.Holds pushed)
    (serves : alloc.Serves (pushesBytes pushed).length) :
    extractSignatures alloc invocationScript =
      .ok (signaturesOf pushed) := by
  have enough := length_signaturesOf_le pushed
  rw [extractSignatures]
  split
  · rename_i nothing
    have absent : (pushesBytes pushed).length = 0 := by
      rw [← holds.len_eq]
      exact of_decide_eq_true nothing
    have none : signaturesOf pushed = [] := by
      apply List.length_eq_zero_iff.mp
      simp only [signatureSize] at enough
      omega
    rw [none]
  · have counted := countSignatures_pushes holds.fits [] 0
    rw [List.nil_append, List.length_nil, Nat.zero_add] at counted
    dsimp only
    rw [holds.content_eq, counted]
    change (if _ then _ else _) = _
    split
    · rename_i none
      rw [List.length_eq_zero_iff.mp none]
    · rename_i some
      have array :
          alloc.neocGrants ((signaturesOf pushed).length * wordSize) =
            true := by
        apply serves.neocGrants
        · simp only [wordSize]
          omega
        · simp only [wordSize, signatureSize] at enough ⊢
          omega
      have one : alloc.neocGrants signatureSize = true := by
        apply serves.neocGrants (by decide)
        simp only [signatureSize] at enough ⊢
        omega
      rw [array, if_neg (by decide)]
      have copied :=
        copySignatures_pushes one holds.fits [] (Nat.zero_add _).symm
      exact copied

/-- A script comes back from its wire form. -/
theorem deserialize_serialize (holds : invocationScript.Holds pushed)
    (serves : alloc.Serves (2 * (pushesBytes pushed).length + 64)) :
    ∃ serialized,
      serialize alloc invocationScript = .ok serialized ∧
        serialized.length = invocationScript.getSize ∧
          deserialize alloc serialized = .ok invocationScript := by
  have bounded := serves.bound_le
  have header := VarInt.length_encode (pushesBytes pushed).length
  have total :
      (BinaryWriter.varBytes (pushesBytes pushed)).length ≤
        (pushesBytes pushed).length + 9 := by
    rw [BinaryWriter.varBytes, List.length_append, header]
    split_ifs <;> omega
  have wrote :
      serialize alloc invocationScript =
        .ok (BinaryWriter.varBytes (pushesBytes pushed)) := by
    have memory : alloc.Serves (max 32 BinaryWriter.structSize) :=
      serves.mono (by simp only [BinaryWriter.structSize]; omega)
    rcases BinaryWriter.create_succeeds true memory with
      ⟨writer, created⟩
    rw [serialize, holds.script_eq, Serialization.writeVarBytes_bufferOf]
    exact
      BinaryWriter.produce_succeeds (BinaryWriter.fresh_create 32) created
        (BinaryWriter.writeVarBytes_emits _) (serves.mono (by omega))
  refine ⟨_, wrote, ?_, ?_⟩
  · rw [getSize, holds.len_eq, BinaryWriter.varBytes, List.length_append,
      header]
    rfl
  · have granted : alloc.grants (pushesBytes pushed).length = true :=
      serves _ (by omega)
    have small :
        (BinaryWriter.varBytes (pushesBytes pushed) ++ []).length ≤
          ptrdiffMax := by
      rw [List.append_nil]
      omega
    have read :=
      (Serialization.reads_readVarBytes granted).eval_fresh small
    have opened :=
      @BinaryReader.create_succeeds alloc
        (BinaryWriter.varBytes (pushesBytes pushed))
        (serves.mono
          (by simp only [BinaryReader.structSize]; omega))
    rw [List.append_nil] at read
    rw [deserialize, opened]
    change (Call.eval _ _ >>= _) = _
    rw [read]
    rcases invocationScript with ⟨script⟩
    have shape : script = bufferOf (pushesBytes pushed) := holds.script_eq
    rw [shape]
    exact allocate_bufferOf (serves.mono (by simp only [structSize]; omega))

end Holds

/-! ## A sequence of added signatures -/

/-- One call of `neoc_invocation_script_add_signature`. -/
structure Step where
  alloc : Allocator
  signature : Buffer

/-- The script after a call. -/
def next (invocationScript : InvocationScript) (step : Step) :
    InvocationScript :=
  (addSignature step.alloc step.signature invocationScript).2

/-- The byte strings of the calls that succeed along a run. -/
def added : InvocationScript → List Step → List (List UInt8)
  | _, [] => []
  | invocationScript, step :: rest =>
      match addSignature step.alloc step.signature invocationScript with
      | (.ok _, longer) => step.signature.content :: added longer rest
      | (.error _, same) => added same rest

/-- A byte string of a length that can be pushed, with memory, is added. -/
def Accepts (invocationScript : InvocationScript) (step : Step) : Prop :=
  ∀ content,
    step.signature = .items content →
      1 ≤ content.length → content.length < 0x100000000 →
        step.alloc.Serves
            (invocationScript.script.len + content.length + 5) →
          (addSignature step.alloc step.signature invocationScript).1 =
            .ok ()

theorem accepts (invocationScript : InvocationScript) (step : Step) :
    Accepts invocationScript step := by
  intro content shape positive fits serves
  have header := length_pushBytes_le content
  have appended :=
    @appendSignature_succeeds "Invalid add signature arguments" step.alloc
      content invocationScript positive fits (serves.mono (by omega))
  rw [shape, addSignature, appended]

/-- After a run the script consists of what was there and what was added. -/
theorem Holds.finalState {invocationScript : InvocationScript}
    {pushed : List (List UInt8)} (holds : invocationScript.Holds pushed)
    (steps : List Step) :
    (Foundation.finalState next invocationScript steps).Holds
      (pushed ++ added invocationScript steps) := by
  induction steps generalizing invocationScript pushed with
  | nil =>
      rw [added, List.append_nil]
      exact holds
  | cons step rest induction =>
      rw [Foundation.finalState, added]
      rcases appendSignature_cases "Invalid add signature arguments"
          step.alloc step.signature invocationScript with
        ⟨reason, refused⟩ | ⟨content, shape, fits, appended⟩
      · rw [next, addSignature, refused]
        exact induction holds
      · rw [next, addSignature, appended, shape]
        have later := induction (holds.push fits)
        rwa [List.append_assoc] at later

end InvocationScript

end NeoC
