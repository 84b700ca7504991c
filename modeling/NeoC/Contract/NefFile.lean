import NeoC.Crypto.Hash
import NeoC.Serialization.BinaryReader
import NeoC.Serialization.BinaryWriter

/-!
# NEF files

A NEF file holds a compiled contract with the methods that it calls.  In
memory it is an object with arrays of fixed size for the strings, an array of
tokens that grows, and a checksum that is kept beside the contents.

The contents are written in two places, once for the checksum and once for the
file.  The two differ in how they write the name of the compiler: for the
checksum all 64 bytes of the array are taken, for the file only the string in
it.  Reading a file goes through the fields as they stand in it
(`NefParts`), which are then stored in an object; what does not fit into the
object is lost on the way.
-/

namespace NeoC

open Foundation

/-- `NEF_MAGIC`. -/
def nefMagic : UInt32 := 0x3346454E

/-- `NEF_MAX_SCRIPT_SIZE`. -/
def nefMaxScriptSize : Nat := 512000

/-- `NEF_MAX_SOURCE_SIZE`. -/
def nefMaxSourceSize : Nat := 255

/-- `NEF_MAX_TOKENS`. -/
def nefMaxTokens : Nat := 128

/-! ## The object -/

/-- A `neoc_nef_header_t`, without the count that no function uses. -/
structure NefHeader where
  magic : UInt32
  compiler : Bytes 64
  source : Bytes 256
  reserved : Bytes 2
  reserved2 : UInt8
deriving DecidableEq

/-- `sizeof(neoc_nef_header_t)`. -/
def NefHeader.structSize : Nat := 328

/-- A `neoc_nef_method_token_t`. -/
structure NefMethodToken where
  hash : Hash160
  method : Bytes 32
  parametersCount : UInt16
  hasReturnValue : Bool
  callFlags : UInt8
deriving DecidableEq

namespace NefMethodToken

/-- `sizeof(neoc_nef_method_token_t)`. -/
def structSize : Nat := 56

/-- What a slot holds before a token is stored in it. -/
def blank : NefMethodToken where
  hash := Bytes.zero 20
  method := Bytes.zero 32
  parametersCount := 0
  hasReturnValue := false
  callFlags := 0

end NefMethodToken

/-- The pointer to the tokens. -/
inductive TokenArray where
  | null
  | slots (content : List NefMethodToken)
  /-- The array has been freed. -/
  | dangling
deriving DecidableEq

namespace TokenArray

/-- The slots that may be accessed through the pointer. -/
def content : TokenArray → List NefMethodToken
  | .null => []
  | .slots content => content
  | .dangling => []

/-- The number of allocated slots. -/
def size (tokens : TokenArray) : Nat :=
  tokens.content.length

/-- The first tokens, as a loop over them reads them. -/
def load (tokens : TokenArray) (count : Nat) :
    Outcome (List NefMethodToken) :=
  if count ≤ tokens.size then
    .ok (tokens.content.take count)
  else
    .error .illegalAccess

/--
`neoc_realloc` to a number of slots: the new array, if there is one, and what
the old pointer is worth afterwards.  An array that is resized to nothing is
freed.
-/
def realloc (alloc : Allocator) (tokens : TokenArray) (count : Nat) :
    Outcome (Option TokenArray × TokenArray) :=
  match tokens with
  | .null =>
      if alloc.neocGrants (count * NefMethodToken.structSize) then
        .ok
          (some (.slots (List.replicate count NefMethodToken.blank)), .null)
      else
        .ok (none, .null)
  | .slots content =>
      if count = 0 then
        .ok (none, .dangling)
      else if alloc.grants (count * NefMethodToken.structSize) then
        .ok
          (some
            (.slots
              ((content ++ List.replicate count NefMethodToken.blank).take
                count)),
            .dangling)
      else
        .ok (none, .slots content)
  | .dangling => .error .illegalAccess

end TokenArray

/-- A `neoc_nef_file_t`, without the flag that no function reads. -/
structure NefFile where
  header : NefHeader
  tokens : TokenArray
  tokenCount : Nat
  tokenCapacity : Nat
  script : Buffer
  checksum : Hash256
deriving DecidableEq

namespace NefFile

/-- `sizeof(neoc_nef_file_t)`. -/
def structSize : Nat := 408

/-! ## Writing -/

/-- The string at the start of an array. -/
def stringIn {size : Nat} (array : Bytes size) : List UInt8 :=
  (CString.ofBuffer array.val).characters

/-- A string behind a byte with its length. -/
def writeString (alloc : Allocator) (text : List UInt8) :
    Routine BinaryWriter Unit := do
  let length := UInt8.ofNat text.length
  BinaryWriter.writeByte alloc length
  BinaryWriter.writeBytes alloc (.items (text.take length.toNat))

/-- One turn of the loop over the tokens. -/
def writeToken (alloc : Allocator) (token : NefMethodToken) :
    Routine BinaryWriter Unit := do
  BinaryWriter.writeBytes alloc (.items token.hash.toBytes)
  writeString alloc (stringIn token.method)
  BinaryWriter.writeUint16 alloc token.parametersCount
  BinaryWriter.writeByte alloc (if token.hasReturnValue then 1 else 0)
  BinaryWriter.writeByte alloc token.callFlags

/--
What `calculate_checksum` and `neoc_nef_file_to_bytes` both write, with the 64
bytes that each takes for the compiler.
-/
def writeContents (alloc : Allocator) (nef : NefFile)
    (compiler : Bytes 64) : Routine BinaryWriter Unit := do
  BinaryWriter.writeUint32 alloc nef.header.magic
  BinaryWriter.writeBytes alloc (.items compiler.val)
  writeString alloc (stringIn nef.header.source)
  BinaryWriter.writeBytes alloc (.items nef.header.reserved.val)
  BinaryWriter.writeByte alloc (UInt8.ofNat nef.tokenCount)
  let tokens ← Call.lift (nef.tokens.load nef.tokenCount)
  Call.forEach (writeToken alloc) tokens
  BinaryWriter.writeByte alloc nef.header.reserved2
  BinaryWriter.writeVarBytes alloc nef.script

/-- `calculate_checksum`. -/
def calculateChecksum (host : Host) (alloc : Allocator) (nef : NefFile) :
    Outcome Hash256 := do
  let data ←
    BinaryWriter.produce alloc (BinaryWriter.create alloc 1024 true)
      (writeContents alloc nef nef.header.compiler)
  host.sha256Double data

/-- `neoc_nef_file_verify_checksum`; an error code counts as a mismatch. -/
def verifyChecksum (host : Host) (alloc : Allocator)
    (nef : Option NefFile) : Outcome Bool :=
  match nef with
  | none => .ok false
  | some nef =>
      match calculateChecksum host alloc nef with
      | .ok calculated => .ok (decide (calculated = nef.checksum))
      | .error (.error _ _) => .ok false
      | .error reason => .error reason

/--
`compiler_buf` of `neoc_nef_file_to_bytes`.  A name without a NUL runs on into
the source, and its length is cut to 63 either way.
-/
def compilerBuf (compiler : Bytes 64) : Bytes 64 :=
  Bytes.fill 64 ((stringIn compiler).take 63)

/-- `neoc_nef_file_to_bytes`. -/
def toBytes (alloc : Allocator) (nef : Option NefFile) :
    Outcome (List UInt8) :=
  match nef with
  | none => .error (.error .invalidArgument "Invalid arguments")
  | some nef =>
      BinaryWriter.produce alloc (BinaryWriter.create alloc 1024 true) do
        writeContents alloc nef (compilerBuf nef.header.compiler)
        BinaryWriter.writeBytes alloc (.items nef.checksum.val)

/-! ## Creating a file -/

/-- The object that is filled in before its checksum is computed. -/
def initial (compiler : CString) (source : Option CString)
    (script : List UInt8) : NefFile where
  header :=
    { magic := nefMagic
      compiler := Bytes.fill 64 (compiler.characters.take 63)
      source :=
        match source with
        | none => Bytes.zero 256
        | some source =>
            Bytes.fill 256 (source.characters.take nefMaxSourceSize)
      reserved := Bytes.zero 2
      reserved2 := 0 }
  tokens := .slots (List.replicate 10 NefMethodToken.blank)
  tokenCount := 0
  tokenCapacity := 10
  script := .items script
  checksum := Bytes.zero 32

/-- `neoc_nef_file_create`. -/
def create (host : Host) (alloc : Allocator)
    (compiler source : Option CString) (script : Buffer) :
    Outcome NefFile :=
  match compiler, script with
  | some compiler, .items script =>
      if script.length > nefMaxScriptSize then
        .error (.error .invalidSize "Script too large")
      else if compiler.strlen > 63 then
        .error (.error .invalidSize "Compiler name too long")
      else if source.any fun source => source.strlen > nefMaxSourceSize then
        .error (.error .invalidSize "Source URL too long")
      else if alloc.neocGrants structSize = false then
        .error (.error .outOfMemory "Failed to allocate NEF file")
      else if alloc.neocGrants (10 * NefMethodToken.structSize) = false then
        .error (.error .outOfMemory "Failed to allocate tokens")
      else if alloc.neocGrants script.length = false then
        .error (.error .outOfMemory "Failed to allocate script")
      else do
        let nef := initial compiler source script
        let checksum ← calculateChecksum host alloc nef
        .ok { nef with checksum }
  | _, _ => .error (.error .invalidArgument "Invalid arguments")

/-! ## Adding a token -/

/-- `if (nef->token_count >= NEF_MAX_TOKENS) return error;` -/
def requireRoom : Routine NefFile Unit :=
  fun nef =>
    if nef.tokenCount ≥ nefMaxTokens then
      errorSet .invalidSize "Too many method tokens" nef
    else
      (.ok (), nef)

/-- The array is resized if all of its capacity is in use. -/
def resizeTokens (alloc : Allocator) : Routine NefFile Unit :=
  fun nef =>
    if nef.tokenCount ≥ nef.tokenCapacity then
      let newCapacity := min (nef.tokenCapacity * 2) nefMaxTokens
      match nef.tokens.realloc alloc newCapacity with
      | .error reason => (.error reason, nef)
      | .ok (none, old) =>
          errorSet .outOfMemory "Failed to resize tokens"
            { nef with tokens := old }
      | .ok (some newTokens, _) =>
          (.ok (),
            { nef with
              tokens := newTokens
              tokenCapacity := newCapacity })
    else
      (.ok (), nef)

/-- A token is stored behind the last one. -/
def storeToken (token : NefMethodToken) : Routine NefFile Unit :=
  fun nef =>
    if nef.tokenCount < nef.tokens.size then
      (.ok (),
        { nef with
          tokens := .slots (nef.tokens.content.set nef.tokenCount token)
          tokenCount := nef.tokenCount + 1 })
    else
      Call.halt .illegalAccess nef

/-- The checksum is computed again; it stays as it was if that fails. -/
def updateChecksum (host : Host) (alloc : Allocator) :
    Routine NefFile Unit :=
  fun nef =>
    match calculateChecksum host alloc nef with
    | .ok checksum => (.ok (), { nef with checksum })
    | .error reason => (.error reason, nef)

/-- The token that the arguments describe. -/
def tokenOf (hash : Hash160) (method : CString) (parametersCount : UInt16)
    (hasReturnValue : Bool) (callFlags : UInt8) : NefMethodToken where
  hash := hash
  method := Bytes.fill 32 (method.characters.take 31)
  parametersCount := parametersCount
  hasReturnValue := hasReturnValue
  callFlags := callFlags

/-- `neoc_nef_file_add_method_token`. -/
def addMethodToken (host : Host) (alloc : Allocator)
    (hash : Option Hash160) (method : Option CString)
    (parametersCount : UInt16) (hasReturnValue : Bool)
    (callFlags : UInt8) : Routine NefFile Unit :=
  match hash, method with
  | some hash, some method =>
      if method.strlen > 31 then
        errorSet .invalidSize "Method name too long"
      else do
        requireRoom
        resizeTokens alloc
        storeToken
          (tokenOf hash method parametersCount hasReturnValue callFlags)
        updateChecksum host alloc
  | _, _ => errorSet .invalidArgument "Invalid arguments"

end NefFile

/-! ## Reading a file -/

/-- The fields of a token as they stand in a file. -/
structure TokenParts where
  hash : Hash160
  method : List UInt8
  parametersCount : UInt16
  hasReturn : UInt8
  callFlags : UInt8
deriving DecidableEq

/-- The fields of a file behind the magic number. -/
structure NefParts where
  compiler : Bytes 64
  source : List UInt8
  reserved : Bytes 2
  tokens : List TokenParts
  reserved2 : UInt8
  script : List UInt8
  checksum : Hash256
deriving DecidableEq

/-- The token that is stored. -/
def TokenParts.toToken (parts : TokenParts) : NefMethodToken where
  hash := parts.hash
  method := Bytes.fill 32 parts.method
  parametersCount := parts.parametersCount
  hasReturnValue := parts.hasReturn != 0
  callFlags := parts.callFlags

namespace NefParts

/-- The header that is stored. -/
def header (parts : NefParts) : NefHeader where
  magic := nefMagic
  compiler := parts.compiler
  source := Bytes.fill 256 parts.source
  reserved := parts.reserved
  reserved2 := parts.reserved2

/-- The object that is stored; its capacity is left at zero. -/
def toNef (parts : NefParts) : NefFile where
  header := parts.header
  tokens :=
    if parts.tokens.length = 0 then .null
    else .slots (parts.tokens.map TokenParts.toToken)
  tokenCount := parts.tokens.length
  tokenCapacity := 0
  script :=
    if parts.script.length = 0 then .null 0 else .items parts.script
  checksum := parts.checksum

end NefParts

namespace NefFile

/-- The source and the length before it. -/
def readSource : Routine BinaryReader (List UInt8) := do
  let sourceLen ← BinaryReader.readByte
  if sourceLen > 0 then
    if sourceLen ≥ 255 then
      errorSet .invalidFormat "Source string too long"
    else
      BinaryReader.readBytes sourceLen.toNat
  else
    pure []

/-- One turn of the loop over the tokens. -/
def readToken : Routine BinaryReader TokenParts := do
  let hash ← BinaryReader.readBytes 20
  let methodLen ← BinaryReader.readByte
  if methodLen.toNat ≥ 32 then
    errorSet .invalidFormat "Method name too long"
  else do
    let method ← BinaryReader.readBytes methodLen.toNat
    let parametersCount ← BinaryReader.readUint16
    let hasReturn ← BinaryReader.readByte
    let callFlags ← BinaryReader.readByte
    pure
      { hash := Bytes.fill 20 hash
        method
        parametersCount
        hasReturn
        callFlags }

/-- The tokens and the count before them. -/
def readTokens (alloc : Allocator) :
    Routine BinaryReader (List TokenParts) := do
  let tokenCount ← BinaryReader.readByte
  if tokenCount > 0 then do
    BinaryReader.malloc alloc
      (tokenCount.toNat * NefMethodToken.structSize)
      "Failed to allocate tokens"
    readToken.times tokenCount.toNat
  else
    pure []

/-- All fields, in their order. -/
def readParts (alloc : Allocator) : Routine BinaryReader NefParts := do
  let magic ← BinaryReader.readUint32
  if magic ≠ nefMagic then
    errorSet .invalidFormat "Invalid NEF magic number"
  else do
    let compiler ← BinaryReader.readBytes 64
    let source ← readSource
    let reserved ← BinaryReader.readBytes 2
    let tokens ← readTokens alloc
    let reserved2 ← BinaryReader.readByte
    let script ← BinaryReader.readVarBytes alloc
    let checksum ← BinaryReader.readBytes 32
    pure
      { compiler := Bytes.fill 64 compiler
        source
        reserved := Bytes.fill 2 reserved
        tokens
        reserved2
        script := script.content
        checksum := Bytes.fill 32 checksum }

/-- `neoc_nef_file_from_bytes`. -/
def fromBytes (alloc : Allocator) (data : Buffer) : Outcome NefFile :=
  match data with
  | .null _ => .error (.error .invalidArgument "Invalid arguments")
  | .items data =>
      if data.length < NefHeader.structSize then
        .error (.error .invalidFormat "Data too small for NEF header")
      else do
        let reader ← BinaryReader.create alloc data
        if alloc.neocGrants structSize = false then
          .error (.error .outOfMemory "Failed to allocate NEF file")
        else do
          let (parts, _) ← (readParts alloc).eval reader
          .ok parts.toNef

end NefFile

end NeoC
