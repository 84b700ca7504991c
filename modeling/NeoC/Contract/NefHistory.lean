import NeoC.Contract.NefTokens
import Mathlib.Algebra.Order.BigOperators.Group.List

/-!
# NEF files that were created

An object that was created, and to which tokens were added since, holds
fields in normal form: its strings have no NUL in them, the bytes behind the
name of the compiler are zeros, and a return flag is zero or one.  What is
written for the checksum is then what is written to the file, so the checksum
at the end of a file is that of all the bytes before it.

Reading such a file gives the object back, unless the reader refuses it.  It
refuses files that are smaller than the header is in memory, where the source
takes 256 bytes whatever its length, and a source of 255 characters, which an
object may be created with.
-/

namespace NeoC

open Foundation Serialization

/-! ## Fields in normal form -/

namespace NefParts

variable {parts : NefParts}

/-- A token in normal form may be added. -/
theorem normalize_append (normal : parts.normalize = parts)
    {token : TokenParts} (tokenNormal : token.normalize = token) :
    ({ parts with tokens := parts.tokens ++ [token] } : NefParts).normalize =
      { parts with tokens := parts.tokens ++ [token] } := by
  rcases normalize_eq_iff.mp normal with ⟨compiler, source, tokens⟩
  refine normalize_eq_iff.mpr ⟨compiler, source, ?_⟩
  rw [List.map_append, tokens, List.map_singleton, tokenNormal]

end NefParts

namespace NefFile

variable {host : Host} {nef : NefFile} {parts : NefParts}

/-- Every token that may be added has fields in normal form. -/
theorem Addition.token_parts {step : Addition} {token : NefMethodToken}
    (described : step.token = some token) :
    ∃ parts : TokenParts,
      parts.Fits ∧ parts.normalize = parts ∧ parts.toToken = token := by
  rw [Addition.token] at described
  split at described
  · rename_i hash method _ _
    split at described
    · cases described
    rename_i short
    injection described with same
    have small : method.characters.length ≤ 31 := Nat.le_of_not_lt short
    refine
      ⟨{ hash := hash
         method := method.characters
         parametersCount := step.parametersCount
         hasReturn := if step.hasReturnValue then 1 else 0
         callFlags := step.callFlags }, ?_, ?_, ?_⟩
    · exact Nat.lt_succ_of_le small
    · rw [TokenParts.normalize, cutString_of_nul_free method.nul_free]
      cases step.hasReturnValue with
      | false => rfl
      | true => rfl
    · rw [← same, TokenParts.toToken, tokenOf, List.take_of_length_le small]
      cases step.hasReturnValue with
      | false => rfl
      | true => rfl
  · cases described

/-! ## The invariant -/

/-- The object holds fields in normal form, within the limits. -/
structure Kept (nef : NefFile) (parts : NefParts) : Prop where
  holds : nef.Holds parts
  growing : nef.Growing
  normal : parts.normalize = parts
  source : parts.source.length ≤ nefMaxSourceSize
  each : ∀ token ∈ parts.tokens, token.Fits
  script : parts.script.length ≤ nefMaxScriptSize

namespace Kept

theorem few (kept : nef.Kept parts) : parts.tokens.length ≤ nefMaxTokens := by
  rw [← kept.holds.count]
  exact kept.growing.bounded.2

theorem fits (kept : nef.Kept parts) : parts.Fits := by
  have few := kept.few
  have script := kept.script
  refine ⟨kept.source, ?_, kept.each, ?_⟩
  · simp only [nefMaxTokens] at few
    omega
  · simp only [nefMaxScriptSize] at script
    simp only [sizeModulus]
    omega

/-- Another checksum is held as well. -/
theorem withChecksum (kept : nef.Kept parts) (checksum : Hash256) :
    ({ nef with checksum } : NefFile).Kept { parts with checksum } := by
  rcases kept with ⟨holds, growing, normal, source, each, script⟩
  refine ⟨?_, growing.withChecksum checksum, ?_, source, each, script⟩
  · exact
      ⟨holds.header, holds.count, holds.tokens, holds.script, holds.backed,
        rfl⟩
  · exact congrArg (fun parts : NefParts => { parts with checksum }) normal

/-- A call fails and changes nothing, or its token is held as well. -/
theorem run_cases (kept : nef.Kept parts) (host : Host)
    (step : Addition) :
    (∃ code text, step.run host nef = (.error (.error code text), nef)) ∨
    ∃ (token : TokenParts) (content : List NefMethodToken),
      (nef.withToken content).Kept
          { parts with tokens := parts.tokens ++ [token] } ∧
        step.run host nef =
          updateChecksum host step.alloc (nef.withToken content) := by
  rcases kept.growing.run_cases host step with
    failed | ⟨token, content, described, inside, most, stored, ran⟩
  · exact .inl failed
  · rcases Addition.token_parts described with ⟨added, fits, normal, rfl⟩
    refine .inr ⟨added, content, ?_, ran⟩
    rcases kept with ⟨holds, growing, partsNormal, source, each, script⟩
    have loaded :
        nef.tokens.content.take nef.tokenCount =
          parts.tokens.map TokenParts.toToken := by
      have tokens := holds.tokens
      rw [TokenArray.load, if_pos growing.bounded.1] at tokens
      injection tokens
    have all :
        (nef.withToken content).tokens.load
            (nef.withToken content).tokenCount =
          .ok ((parts.tokens ++ [added]).map TokenParts.toToken) := by
      refine (if_pos (show _ ≤ content.length from inside)).trans ?_
      rw [List.map_append, ← loaded]
      exact congrArg Except.ok stored
    refine
      ⟨⟨holds.header, ?_, all, holds.script, holds.backed,
          holds.checksum⟩,
        growing_withToken inside most, ?_, source, ?_, script⟩
    · rw [List.length_append, ← holds.count]
      rfl
    · exact NefParts.normalize_append partsNormal normal
    · intro token member
      rcases List.mem_append.mp member with old | new
      · exact each token old
      · rw [List.mem_singleton.mp new]
        exact fits

/-- A call keeps the invariant, whatever the memory allows. -/
theorem next_kept (kept : nef.Kept parts) (host : Host)
    (step : Addition) : ∃ parts, (next host nef step).Kept parts := by
  rcases kept.run_cases host step with
    ⟨code, text, ran⟩ | ⟨token, content, stored, ran⟩
  · refine ⟨parts, ?_⟩
    rw [next, ran]
    exact kept
  · rcases updateChecksum_frame host step.alloc (nef.withToken content)
      with ⟨checksum, frame⟩
    rw [next, ran, frame]
    exact ⟨_, stored.withChecksum checksum⟩

/-- A run keeps the invariant. -/
theorem run (kept : nef.Kept parts) (host : Host)
    (steps : List Addition) :
    ∃ parts, (finalState (next host) nef steps).Kept parts := by
  have all :=
    (@along_const _ _ (next host) (fun _ => True) nef steps).mpr
      fun _ _ => trivial
  refine
    finalState_invariant (fun nef => ∃ parts, nef.Kept parts) ?_
      ⟨parts, kept⟩ all
  rintro nef step ⟨parts, kept⟩ -
  exact kept.next_kept host step

end Kept

/-- The fields of an object when it is created. -/
def initialParts (compiler : CString) (source : Option CString)
    (script : List UInt8) : NefParts where
  compiler := Bytes.fill 64 compiler.characters
  source := (source.map CString.characters).getD []
  reserved := Bytes.zero 2
  tokens := []
  reserved2 := 0
  script := script
  checksum := Bytes.zero 32

theorem fill_nil (size : Nat) : Bytes.fill size [] = Bytes.zero size := by
  apply Subtype.ext
  rw [val_fill (Nat.zero_le size)]
  rfl

/-- What fits is copied as a whole. -/
theorem header_initial {compiler : CString} {source : Option CString}
    {script : List UInt8} (shortName : compiler.strlen ≤ 63)
    (shortSource : ∀ text ∈ source, text.strlen ≤ nefMaxSourceSize) :
    (initial compiler source script).header =
      (initialParts compiler source script).header := by
  have name : compiler.characters.take 63 = compiler.characters :=
    List.take_of_length_le shortName
  cases source with
  | none =>
      rw [initial, initialParts, NefParts.header, name, Option.map_none,
        Option.getD_none, fill_nil]
  | some text =>
      have whole :
          text.characters.take nefMaxSourceSize = text.characters :=
        List.take_of_length_le (shortSource text rfl)
      rw [initial, initialParts, NefParts.header, name, Option.map_some,
        Option.getD_some, whole]

/-- The name of the compiler is in normal form. -/
theorem compilerBuf_fill {compiler : CString}
    (shortName : compiler.strlen ≤ 63) :
    compilerBuf (Bytes.fill 64 compiler.characters) =
      Bytes.fill 64 compiler.characters := by
  have fits : compiler.characters.length ≤ 64 :=
    Nat.le_succ_of_le shortName
  rw [compilerBuf, stringIn_fill fits,
    cutString_of_nul_free compiler.nul_free,
    List.take_of_length_le shortName]

theorem kept_initial {compiler : CString} {source : Option CString}
    {script : List UInt8} (shortName : compiler.strlen ≤ 63)
    (shortSource : ∀ text ∈ source, text.strlen ≤ nefMaxSourceSize)
    (small : script.length ≤ nefMaxScriptSize) :
    (initial compiler source script).Kept
      (initialParts compiler source script) := by
  refine
    ⟨⟨header_initial shortName shortSource, rfl, rfl, rfl, trivial, rfl⟩,
      growing_initial compiler source script, ?_, ?_,
      List.forall_mem_nil _, small⟩
  · have nulFree :
        (0 : UInt8) ∉ (initialParts compiler source script).source := by
      cases source with
      | none => exact List.not_mem_nil
      | some text => exact text.nul_free
    exact
      NefParts.normalize_eq_iff.mpr
        ⟨compilerBuf_fill shortName, cutString_of_nul_free nulFree, rfl⟩
  · cases source with
    | none => exact Nat.zero_le _
    | some text => exact shortSource text rfl

/-- An object that was created holds fields in normal form. -/
theorem kept_of_create {alloc : Allocator}
    {compiler source : Option CString} {script : Buffer}
    (created : create host alloc compiler source script = .ok nef) :
    ∃ parts,
      nef.Kept parts ∧
        parts.checksum = host.doubleDigest (parts.body parts.scriptLength) ∧
        host.cryptoInitialized = true := by
  rcases of_create_eq_ok created with
    ⟨name, code, checksum, rfl, rfl, shortName, shortSource, -, small,
      computed, rfl⟩
  have kept := @kept_initial name source code shortName shortSource small
  rcases kept.holds.of_calculateChecksum_eq_ok kept.fits computed with
    ⟨digest, initialized⟩
  rw [NefParts.stored_of_normal kept.normal] at digest
  exact ⟨_, kept.withChecksum checksum, digest, initialized⟩

/-! ## The size of a file -/

/-- How many bytes are written for an object. -/
def fileSize (nef : NefFile) : Nat :=
  105 + (stringIn nef.header.source).length +
    ((nef.tokens.content.take nef.tokenCount).map fun token =>
      25 + (stringIn token.method).length).sum +
    (BinaryWriter.varIntSize nef.script.len + nef.script.len)

namespace Kept

theorem source_eq (kept : nef.Kept parts) :
    stringIn nef.header.source = parts.source := by
  rw [kept.holds.source_eq kept.fits]
  exact (NefParts.normalize_eq_iff.mp kept.normal).2.1

/-- What is written for an object is as long as its fields say. -/
theorem length_layout (kept : nef.Kept parts) :
    (parts.layout parts.scriptLength).length = nef.fileSize := by
  have tokens :
      (nef.tokens.content.take nef.tokenCount).map (fun token =>
          25 + (stringIn token.method).length) =
        parts.tokens.map fun token => 25 + token.method.length := by
    have loaded := kept.holds.tokens
    rw [TokenArray.load, if_pos kept.growing.bounded.1] at loaded
    injection loaded with same
    rw [same, List.map_map]
    apply List.map_congr_left
    intro token member
    have small : token.method.length < 32 := kept.each token member
    have name : stringIn token.toToken.method = cutString token.method :=
      stringIn_fill (Nat.le_of_lt small)
    have normal : token.normalize = token := by
      have all := (NefParts.normalize_eq_iff.mp kept.normal).2.2
      exact
        List.map_inj_left.mp (all.trans (List.map_id _).symm) token member
    change 25 + (stringIn token.toToken.method).length = _
    rw [name]
    exact
      congrArg (fun token : TokenParts => 25 + token.method.length) normal
  have script : nef.script.len = parts.script.length := by
    rw [← kept.holds.backed.length_content, kept.holds.script]
  have length :
      parts.scriptLength.length =
        BinaryWriter.varIntSize parts.script.length := by
    rw [NefParts.scriptLength, VarInt.length_encode]
    rfl
  rw [NefParts.length_layout, NefParts.size, fileSize, kept.source_eq,
    tokens, script, length]
  omega

/-- A file is far smaller than the memory that is asked for. -/
theorem length_layout_le (kept : nef.Kept parts) :
    (parts.layout parts.scriptLength).length ≤ 0x80000 := by
  have source := kept.source
  have few := kept.few
  have script := kept.script
  have tokens :
      (parts.tokens.map fun token => 25 + token.method.length).sum ≤
        (parts.tokens.map fun token =>
          25 + token.method.length).length • 56 := by
    apply List.sum_le_card_nsmul
    intro size member
    rcases List.mem_map.mp member with ⟨token, inside, rfl⟩
    have small : token.method.length < 32 := kept.each token inside
    omega
  have length : parts.scriptLength.length ≤ 9 := by
    rw [NefParts.scriptLength, VarInt.length_encode]
    split_ifs <;> decide
  rw [List.length_map, nsmul_eq_mul, Nat.cast_id] at tokens
  rw [NefParts.length_layout, NefParts.size]
  simp only [nefMaxSourceSize, nefMaxTokens, nefMaxScriptSize] at *
  omega

/-- With memory, an object is written as its fields are laid out. -/
theorem toBytes_eq (kept : nef.Kept parts) {alloc : Allocator}
    (serves : alloc.Serves 0x100000) :
    toBytes alloc (some nef) =
      .ok (parts.layout parts.scriptLength) := by
  have small := kept.length_layout_le
  have written :=
    @Holds.toBytes_eq alloc nef parts kept.holds kept.fits
  rw [kept.normal] at written
  exact written (serves.mono (by omega))

end Kept

/-! ## Creating a file with memory -/

namespace Kept

theorem body_serves (kept : nef.Kept parts) {alloc : Allocator}
    (serves : alloc.Serves 0x100000) :
    alloc.Serves
      (max 1024 (2 * (parts.stored.body parts.scriptLength).length)) := by
  have small := kept.length_layout_le
  have shorter := parts.length_body parts.scriptLength
  rw [NefParts.stored_of_normal kept.normal]
  exact serves.mono (by omega)

/-- With memory, the checksum is computed from the contents. -/
theorem calculateChecksum_eq (kept : nef.Kept parts) {alloc : Allocator}
    (initialized : host.cryptoInitialized = true)
    (serves : alloc.Serves 0x100000) :
    calculateChecksum host alloc nef =
      .ok (host.doubleDigest (parts.body parts.scriptLength)) := by
  have computed :=
    kept.holds.calculateChecksum_eq kept.fits initialized
      (kept.body_serves serves)
  rwa [NefParts.stored_of_normal kept.normal] at computed

end Kept

/-- With memory, whatever is within the limits is created. -/
theorem create_eq {alloc : Allocator} {compiler : CString}
    {source : Option CString} {script : List UInt8}
    (initialized : host.cryptoInitialized = true)
    (serves : alloc.Serves 0x100000)
    (shortName : compiler.strlen ≤ 63)
    (shortSource : ∀ text ∈ source, text.strlen ≤ nefMaxSourceSize)
    (positive : 0 < script.length)
    (small : script.length ≤ nefMaxScriptSize) :
    create host alloc (some compiler) source (.items script) =
      .ok
        { initial compiler source script with
          checksum :=
            host.doubleDigest
              ((initialParts compiler source script).body
                (initialParts compiler source script).scriptLength) } := by
  have granted {size : Nat} (some : 0 < size) (bounded : size ≤ 0x100000) :
      ¬ alloc.neocGrants size = false := by
    rw [serves.neocGrants some bounded]
    decide
  have sourceFits :
      ¬ (source.any fun source => source.strlen > nefMaxSourceSize) =
        true := by
    cases source with
    | none => decide
    | some text =>
        rw [Option.any_some, decide_eq_true_iff]
        exact Nat.not_lt.mpr (shortSource text rfl)
  have computed :=
    (kept_initial shortName shortSource small).calculateChecksum_eq
      initialized serves
  have scriptSize : script.length ≤ 0x100000 :=
    small.trans (by decide)
  rw [create, if_neg (Nat.not_lt.mpr small),
    if_neg (Nat.not_lt.mpr shortName), if_neg sourceFits,
    if_neg (granted (by decide) (by decide)),
    if_neg (granted (by decide) (by decide)),
    if_neg (granted positive scriptSize)]
  exact Except.bind_eq_ok_iff.mpr ⟨_, computed, rfl⟩

/-! ## Two files -/

/-- The name of a compiler. -/
def nefCompiler : CString := CString.ofString "neoc"

/-- A script that returns. -/
def shortScript : List UInt8 := [0x40]

/-- A script that is long enough for the reader. -/
def longScript : List UInt8 := List.replicate 252 0x40

/-- The token that a call below adds. -/
def addedToken : TokenParts where
  hash := Bytes.zero 20
  method := ascii "main"
  parametersCount := 0
  hasReturn := 0
  callFlags := 0

/-- A file with a script and tokens, without its checksum. -/
def bodyOf (script : List UInt8) (tokens : List TokenParts) : List UInt8 :=
  let parts := initialParts nefCompiler none script
  ({ parts with tokens } : NefParts).body parts.scriptLength

/-- A host that knows the digests of both files, without and with a token. -/
def nefHost : Host :=
  Host.ofTables
    (Host.twiceDigests (bodyOf shortScript [])
        0x4E96DA2DC1FC46A365E887D2CFD3E0542588F904C5C6E5B190A5E7A4A4AAFA4D
        0xC9E70AAE941ED73FB266FA3A3F9DD0DD68220811445E9378819B79A2DF471240 ++
      Host.twiceDigests (bodyOf shortScript [addedToken])
        0xE915362C9F4ECBB85228CFA1DB7AEBE0C7B29563354BAF2CB21D68DD7F0348BB
        0x6412CDDC818DEE91124D8EB31D5A97D95B070961974EEA12C623249C310726A ++
      Host.twiceDigests (bodyOf longScript [])
        0x8F8E4667437DE9B578361C5A2F59CBEEED698596C18895067CB92F5B585A20C8
        0x5D7DE011AD6F9E8F18842EEE3489F1CB6EC5026AC91146A4CF475C71AF895555 ++
      Host.twiceDigests (bodyOf longScript [addedToken])
        0x433A5AE97C51B834F7E8D4F594FC633AF44B5D79C7B8EBECF4CE9B8D9FDFB7F5
        0xA86E08019D3DD9DA1CDB0480DD525D9929D9FA81BF4E69BBCDA3DD89D680C7BF)
    []

/-- An object that was created with a script. -/
def createdWith (script : List UInt8) : NefFile :=
  { initial nefCompiler none script with
    checksum :=
      nefHost.doubleDigest
        ((initialParts nefCompiler none script).body
          (initialParts nefCompiler none script).scriptLength) }

theorem ample_serves_files : Allocator.ample.Serves 0x100000 :=
  Allocator.ample_serves (by decide)

theorem create_createdWith {script : List UInt8}
    (positive : 0 < script.length)
    (small : script.length ≤ nefMaxScriptSize) :
    create nefHost .ample (some nefCompiler) none
        (.items script) =
      .ok (createdWith script) :=
  create_eq rfl ample_serves_files (by decide)
    (fun _ none => nomatch none) positive small

/-- A token that is added to a new object is kept. -/
theorem tokensKept_created :
    TokensKept nefHost (createdWith shortScript) [anAddition] ∧
      (finalState (next nefHost) (createdWith shortScript)
        [anAddition]).tokenCount = 1 := by
  have created :=
    @create_createdWith shortScript (by decide) (by decide)
  have sized : ¬ (createdWith shortScript).Unsized := by
    rintro ⟨capacity, -⟩
    exact absurd capacity (by decide)
  refine ⟨(tokensKept_iff (.created created) _).mpr ⟨by decide, ?_⟩, ?_⟩
  · intro unsized
    exact absurd unsized sized
  · decide +kernel

/-! ## Reading back what was written -/

/-- The contents of two objects are the same. -/
structure SameContents (nef restored : NefFile) : Prop where
  header : restored.header = nef.header
  count : restored.tokenCount = nef.tokenCount
  tokens :
    ∃ tokens,
      nef.tokens.load nef.tokenCount = .ok tokens ∧
        restored.tokens.load restored.tokenCount = .ok tokens
  script : restored.script.content = nef.script.content
  checksum : restored.checksum = nef.checksum

/-- The object is written, and reading that gives the same contents. -/
def RoundTrips (saving loading : Allocator) (nef : NefFile) : Prop :=
  ∃ bytes restored,
    toBytes saving (some nef) = .ok bytes ∧
      fromBytes loading (.items bytes) = .ok restored ∧
      nef.SameContents restored

/-- Objects that hold the same fields have the same contents. -/
theorem Holds.sameContents {restored : NefFile} (holds : nef.Holds parts)
    (holds' : restored.Holds parts) : nef.SameContents restored where
  header := holds'.header.trans holds.header.symm
  count := holds'.count.trans holds.count.symm
  tokens := ⟨_, holds.tokens, holds'.tokens⟩
  script := holds'.script.trans holds.script.symm
  checksum := holds'.checksum.trans holds.checksum.symm

/-- The byte before the source is at the same place in every file. -/
theorem source_length_unique {parts' : NefParts}
    {lengthBytes lengthBytes' rest : List UInt8}
    (same :
      parts.layout lengthBytes = parts'.layout lengthBytes' ++ rest) :
    UInt8.ofNat parts.source.length = UInt8.ofNat parts'.source.length := by
  simp only [NefParts.layout, NefParts.body, List.append_assoc,
    List.append_cancel_left_eq] at same
  have behind :=
    List.append_inj_right same
      (parts.compiler.property.trans parts'.compiler.property.symm)
  exact List.head_eq_of_cons_eq behind

/-- The reader takes what was written, but for two limits of its own. -/
theorem Kept.trips_iff (kept : nef.Kept parts)
    {saving loading : Allocator} (saves : saving.Serves 0x100000)
    (loads : loading.Serves 0x100000) :
    RoundTrips saving loading nef ↔
      (stringIn nef.header.source).length ≠ 255 ∧
        NefHeader.structSize ≤ nef.fileSize := by
  rw [kept.source_eq, ← kept.length_layout]
  constructor
  · rintro ⟨bytes, restored, written, accepted, -⟩
    rw [kept.toBytes_eq saves] at written
    injection written with same
    subst same
    rcases of_fromBytes_eq_ok accepted with
      ⟨found, lengthBytes, rest, same, -, short, -, long, -, -⟩
    injection same with same
    refine ⟨?_, ?_⟩
    -- The length before the source is the one that was written.
    · intro most
      have length := congrArg UInt8.toNat (source_length_unique same)
      rw [toNat_ofNat_length kept.source,
        toNat_ofNat_length (Nat.le_of_lt short)] at length
      omega
    · rw [same]
      exact long
  · rintro ⟨most, long⟩
    have source := kept.source
    have small := kept.length_layout_le
    simp only [nefMaxSourceSize] at source
    refine ⟨_, parts.toNef, kept.toBytes_eq saves, ?_, ?_⟩
    · exact
        fromBytes_written kept.fits (by omega) long
          (loads.mono (by omega))
    · exact kept.holds.sameContents (holds_toNef parts)

/--
An object that was created, and to which tokens were added since, is read
back from what is written for it exactly if its source is shorter than 255
characters and the file is not smaller than a header in memory.
-/
theorem roundTrips_iff
    {host : Host} {creating : Allocator}
    {compiler source : Option CString} {script : Buffer}
    {start : NefFile}
    (created : create host creating compiler source script = .ok start)
    (steps : List Addition)
    {saving loading : Allocator}
    (saves : saving.Serves 0x100000)
    (loads : loading.Serves 0x100000) :
    RoundTrips saving loading (finalState (next host) start steps) ↔
      (stringIn
          (finalState (next host) start steps).header.source).length ≠
        255 ∧
        NefHeader.structSize ≤
          (finalState (next host) start steps).fileSize := by
  rcases kept_of_create created with ⟨parts, kept, -, -⟩
  rcases kept.run host steps with ⟨parts, reached⟩
  exact reached.trips_iff saves loads

/-- The long file with a token is read back. -/
theorem roundTrips_long_token :
    RoundTrips .ample .ample
      (finalState (next nefHost) (createdWith longScript) [anAddition]) := by
  have created :=
    @create_createdWith longScript (by decide +kernel) (by decide +kernel)
  refine
    (roundTrips_iff created [anAddition] ample_serves_files
      ample_serves_files).mpr ?_
  decide +kernel

/-- The short file is smaller than a header in memory. -/
theorem short_file_refused :
    ¬ ∀ (host : Host) (creating : Allocator)
        (compiler source : Option CString) (script : Buffer)
        (start : NefFile) (steps : List Addition)
        (saving loading : Allocator),
        create host creating compiler source script = .ok start →
          saving.Serves 0x100000 → loading.Serves 0x100000 →
            RoundTrips saving loading
              (finalState (next host) start steps) := by
  intro always
  have created :=
    @create_createdWith shortScript (by decide) (by decide)
  have trip :=
    always _ _ _ _ _ _ [] .ample .ample created
      ample_serves_files ample_serves_files
  rcases kept_of_create created with ⟨parts, kept, -, -⟩
  have long :=
    ((kept.trips_iff ample_serves_files ample_serves_files).mp trip).2
  exact absurd long (by decide)

/-! ## The checksum -/

/-- The checksum is the digest of the contents, and digests can be made. -/
structure Tracked (host : Host) (nef : NefFile) (parts : NefParts) :
    Prop where
  kept : nef.Kept parts
  digest : parts.checksum = host.doubleDigest (parts.body parts.scriptLength)
  initialized : host.cryptoInitialized = true

namespace Tracked

/-- A call with memory keeps the checksum right. -/
theorem next_tracked (tracked : Tracked host nef parts) {step : Addition}
    (serves : step.alloc.Serves 0x100000) :
    ∃ parts, Tracked host (next host nef step) parts := by
  rcases tracked.kept.run_cases host step with
    ⟨code, text, ran⟩ | ⟨token, content, stored, ran⟩
  · refine ⟨parts, ?_⟩
    rw [next, ran]
    exact tracked
  · have computed :=
      stored.calculateChecksum_eq tracked.initialized serves
    rw [next, ran, updateChecksum, computed]
    exact ⟨_, stored.withChecksum _, rfl, tracked.initialized⟩

/-- A run with memory keeps the checksum right. -/
theorem run (tracked : Tracked host nef parts) {steps : List Addition}
    (memory : ∀ step ∈ steps, step.alloc.Serves 0x100000) :
    ∃ parts, Tracked host (finalState (next host) nef steps) parts := by
  have all :=
    (@along_const _ _ (next host)
      (fun step => step.alloc.Serves 0x100000) nef steps).mpr memory
  refine
    finalState_invariant (fun nef => ∃ parts, Tracked host nef parts) ?_
      ⟨parts, tracked⟩ all
  rintro nef step ⟨parts, tracked⟩ serves
  exact tracked.next_tracked serves

theorem verifies (tracked : Tracked host nef parts) {alloc : Allocator}
    (serves : alloc.Serves 0x100000) :
    verifyChecksum host alloc (some nef) = .ok true := by
  rw [verifyChecksum,
    tracked.kept.calculateChecksum_eq tracked.initialized serves,
    tracked.kept.holds.checksum, tracked.digest]
  exact congrArg Except.ok (decide_eq_true rfl)

end Tracked

/--
After any run of calls with memory, the checksum verifies, and a file ends
with the digest of all that is before it.
-/
theorem checksum_tracks_contents
    {host : Host} {creating : Allocator}
    {compiler source : Option CString} {script : Buffer}
    {start : NefFile}
    (created : create host creating compiler source script = .ok start)
    {steps : List Addition}
    (memory : ∀ step ∈ steps, step.alloc.Serves 0x100000)
    {verifying saving : Allocator}
    (verifies : verifying.Serves 0x100000)
    (saves : saving.Serves 0x100000) :
    verifyChecksum host verifying
        (some (finalState (next host) start steps)) =
        .ok true ∧
      ∃ contents,
        toBytes saving (some (finalState (next host) start steps)) =
          .ok (contents ++ (host.doubleDigest contents).val) := by
  rcases kept_of_create created with ⟨_, kept, digest, initialized⟩
  have tracked : Tracked host start _ := ⟨kept, digest, initialized⟩
  rcases tracked.run memory with ⟨parts, reached⟩
  refine ⟨reached.verifies verifies, parts.body parts.scriptLength, ?_⟩
  rw [reached.kept.toBytes_eq saves, ← reached.digest]
  rfl

theorem checksum_tracks_short :
    verifyChecksum nefHost .ample
        (some
          (finalState (next nefHost) (createdWith shortScript)
            [anAddition])) =
        .ok true ∧
      ∃ contents,
        toBytes .ample
            (some
              (finalState (next nefHost) (createdWith shortScript)
                [anAddition])) =
          .ok (contents ++ (nefHost.doubleDigest contents).val) := by
  refine
    checksum_tracks_contents
      (create_createdWith (by decide) (by decide)) ?_ ample_serves_files
      ample_serves_files
  intro step member
  rw [List.mem_singleton.mp member]
  exact ample_serves_files

end NefFile

end NeoC
