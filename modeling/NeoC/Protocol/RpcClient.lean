import NeoC.Foundation.Call
import NeoC.Runtime.Base64
import NeoC.Runtime.JsonSplice
import NeoC.Runtime.Text

/-!
# Requests of the RPC client

The parameters of a request are printed into an array of fixed size, and what
was printed is parsed again before it is sent.  So a text that is cut off
never leaves the client.  Bytes are printed in Base64, whose characters stand
for themselves; but the name of a method is put between quotes as it is.
-/

namespace NeoC

open Foundation JsonGrammar

/-- The part of `neoc_rpc_client_t` that a request is made with. -/
structure RpcClient where
  requestId : UInt32
deriving DecidableEq, Repr

namespace RpcClient

/-! ## Making a request -/

/-- `snprintf` into an array of characters. -/
def snprintf (size : Nat) (text : List UInt8) : CString :=
  CString.ofBuffer (text.take (size - 1))

/-- What is sent: the parameters that were handed over, and the text. -/
structure Request where
  params : CString
  requestStr : CString

variable (library : JsonLibrary) (alloc : Allocator)

/-- The end of `make_rpc_call`, up to the transfer. -/
def serializeRequest (params : CString) (request : JsonTree) :
    Outcome Request :=
  match library.print request with
  | none => .error (.error .outOfMemory "Failed to serialize request")
  | some requestStr =>
      if alloc.neocGrants 4096 then
        .ok { params, requestStr }
      else
        .error (.error .outOfMemory "Failed to allocate response buffer")

/-- `make_rpc_call`, up to the transfer. -/
def makeRpcCall (method params : CString) : Routine RpcClient Request := do
  let request ←
    Call.lift
      (JsonTree.createObject alloc "Failed to create JSON request")
  let request ←
    Call.lift
      (unchecked request
        (JsonTree.addString alloc request (CString.ofString "jsonrpc")
          (CString.ofString "2.0")))
  let request ←
    Call.lift
      (unchecked request
        (JsonTree.addString alloc request (CString.ofString "method")
          method))
  let requestId ← Call.read RpcClient.requestId
  Call.update fun client => { client with requestId := requestId + 1 }
  let request ←
    Call.lift
      (unchecked request
        (JsonTree.addNumber alloc request (CString.ofString "id")
          requestId.toNat))
  match library.parse params with
  | none => errorSet .invalidFormat "Invalid JSON parameters"
  | some paramsJson =>
      Call.lift
        (serializeRequest library alloc params
          (.object
            (JsonTree.addItem alloc request (CString.ofString "params")
              paramsJson)))

/-- Bytes in Base64; the buffer is always large enough. -/
def encodeBase64 (data : Buffer) : Outcome CString :=
  match data with
  | .null _ => .error (.error .invalidArgument "Invalid arguments")
  | .items content =>
      if alloc.neocGrants (Base64.encodeBufferSize content.length) then
        .ok (Base64.text content)
      else
        .error (.error .outOfMemory "Failed to allocate base64 buffer")

/-- A text of JSON that may be left out. -/
def orArray (json : Option CString) : CString :=
  json.getD (CString.ofString "[]")

/-- The parameters of `neoc_rpc_send_raw_transaction`. -/
def sendRawTransactionText (base64Tx : CString) : List UInt8 :=
  ascii "[\"" ++ (base64Tx.characters ++ ascii "\"]")

/-- `neoc_rpc_send_raw_transaction`, up to the transfer. -/
def sendRawTransaction (txData : Buffer) : Routine RpcClient Request := do
  let base64Tx ← Call.lift (encodeBase64 alloc txData)
  makeRpcCall library alloc (CString.ofString "sendrawtransaction")
    (snprintf 1024 (sendRawTransactionText base64Tx))

/-- The parameters of `neoc_rpc_invoke_function`. -/
def invokeFunctionText (hashPrefixed method : CString)
    (params signers : Option CString) : List UInt8 :=
  ascii "[\"" ++ (hashPrefixed.characters ++ (ascii "\", \"" ++
    (method.characters ++ (ascii "\", " ++
      ((orArray params).characters ++ (ascii ", " ++
        ((orArray signers).characters ++ ascii "]")))))))

/-- `neoc_rpc_invoke_function`, up to the transfer. -/
def invokeFunction (scriptHash : Hash160) (method : Option CString)
    (params signers : Option CString) : Routine RpcClient Request :=
  match method with
  | none => errorSet .invalidArgument "Invalid arguments"
  | some method => do
      let hashHex ← Call.lift (Hash160.toHex scriptHash 41 false)
      makeRpcCall library alloc (CString.ofString "invokefunction")
        (snprintf 4096
          (invokeFunctionText (Hash160.marked hashHex) method params
            signers))

/-- The parameters of `neoc_rpc_invoke_script`. -/
def invokeScriptText (base64Script : CString)
    (signers : Option CString) : List UInt8 :=
  ascii "[\"" ++ (base64Script.characters ++ (ascii "\", " ++
    ((orArray signers).characters ++ ascii "]")))

/-- `neoc_rpc_invoke_script`, up to the transfer. -/
def invokeScript (script : Buffer) (signers : Option CString) :
    Routine RpcClient Request := do
  let base64Script ← Call.lift (encodeBase64 alloc script)
  makeRpcCall library alloc (CString.ofString "invokescript")
    (snprintf 8192 (invokeScriptText base64Script signers))

/-- The parameters of `neoc_rpc_get_storage`. -/
def getStorageText (hashStr base64Key : CString) : List UInt8 :=
  ascii "[\"0x" ++ (hashStr.characters ++ (ascii "\", \"" ++
    (base64Key.characters ++ ascii "\"]")))

/-- `neoc_rpc_get_storage`, up to the transfer. -/
def getStorage (scriptHash : Hash160) (key : Buffer) :
    Routine RpcClient Request := do
  let hashStr ← Call.lift (Hash160.toHex scriptHash 41 false)
  let base64Key ← Call.lift (encodeBase64 alloc key)
  makeRpcCall library alloc (CString.ofString "getstorage")
    (snprintf 512 (getStorageText hashStr base64Key))

/-! ## Operations -/

/-- A call that carries a payload. -/
inductive Operation where
  | sendRawTransaction (txData : List UInt8)
  | invokeFunction (scriptHash : Hash160) (method : CString)
      (params signers : Option CString)
  | invokeScript (script : List UInt8) (signers : Option CString)
  | getStorage (scriptHash : Hash160) (key : List UInt8)

namespace Operation

variable (strtod : List UInt8 → Option Rat)

/-- Make the call. -/
def perform : Operation → Routine RpcClient Request
  | .sendRawTransaction txData =>
      RpcClient.sendRawTransaction library alloc (.items txData)
  | .invokeFunction scriptHash method params signers =>
      RpcClient.invokeFunction library alloc scriptHash (some method) params
        signers
  | .invokeScript script signers =>
      RpcClient.invokeScript library alloc (.items script) signers
  | .getStorage scriptHash key =>
      RpcClient.getStorage library alloc scriptHash (.items key)

/-- The text of a hash in a request. -/
def hashText (scriptHash : Hash160) : CString :=
  Hash160.marked (Hex.text scriptHash.val false false)

/-- The parameters as they are printed. -/
def params : Operation → CString
  | .sendRawTransaction txData =>
      snprintf 1024 (sendRawTransactionText (Base64.text txData))
  | .invokeFunction scriptHash method params signers =>
      snprintf 4096
        (invokeFunctionText (hashText scriptHash) method params signers)
  | .invokeScript script signers =>
      snprintf 8192 (invokeScriptText (Base64.text script) signers)
  | .getStorage scriptHash key =>
      snprintf 512
        (getStorageText (Hex.text scriptHash.val false false)
          (Base64.text key))

/-- The texts of JSON that are given are well formed. -/
def WellFormed : Operation → Prop
  | .invokeFunction _ _ params signers =>
      (parse strtod (orArray params).characters).isSome = true ∧
        (parse strtod (orArray signers).characters).isSome = true
  | .invokeScript _ signers =>
      (parse strtod (orArray signers).characters).isSome = true
  | _ => True

/-- A text in Base64 that is decoded to some bytes. -/
def Encodes (bytes : List UInt8) (item : JsonTree) : Prop :=
  ∃ encoded,
    item = .string encoded ∧
      Base64.decode encoded bytes.length = .ok bytes

/-- A value that is given as a text of JSON. -/
def Given (json : Option CString) (item : JsonTree) : Prop :=
  parse strtod (orArray json).characters = some item

/-- The items are what was given. -/
def Describes : Operation → List JsonTree → Prop
  | .sendRawTransaction txData, items =>
      ∃ first, items = [first] ∧ Encodes txData first
  | .invokeFunction scriptHash method params signers, items =>
      ∃ third fourth,
        items =
            [.string (hashText scriptHash), .string method, third, fourth] ∧
          Given strtod params third ∧ Given strtod signers fourth
  | .invokeScript script signers, items =>
      ∃ first second,
        items = [first, second] ∧ Encodes script first ∧
          Given strtod signers second
  | .getStorage scriptHash key, items =>
      ∃ second,
        items = [.string (hashText scriptHash), second] ∧
          Encodes key second

/-- Whatever is sent carries the payload. -/
def Carries (operation : Operation) : Prop :=
  ∀ (alloc : Allocator) (client client' : RpcClient) (request : Request),
    operation.perform library alloc client = (.ok request, client') →
      ∃ items,
        parse strtod request.params.characters = some (.array items) ∧
          operation.Describes strtod items

/-- The characters of the method stand for themselves. -/
def PlainMethod : Operation → Prop
  | .invokeFunction _ method _ _ => ∀ byte ∈ method.characters, Plain byte
  | _ => True

/-- The method is plain text. -/
def Quotable : Operation → Prop
  | .invokeFunction _ method _ _ =>
      (∀ byte ∈ method.characters, Plain byte) ∧
        Utf8.valid method.characters = true
  | _ => True

theorem Quotable.plainMethod {operation : Operation}
    (quotable : operation.Quotable) : operation.PlainMethod := by
  cases operation with
  | sendRawTransaction txData => trivial
  | invokeFunction scriptHash method params signers => exact quotable.1
  | invokeScript script signers => trivial
  | getStorage scriptHash key => trivial

end Operation

/-! ## What is sent -/

variable {library alloc} {client client' : RpcClient} {request : Request}

theorem serializeRequest_params {params : CString} {tree : JsonTree}
    (made : serializeRequest library alloc params tree = .ok request) :
    request.params = params := by
  rw [serializeRequest] at made
  split at made
  · cases made
  split at made
  · cases made
    rfl
  · cases made

/-- A request is sent if its parameters can be parsed. -/
theorem makeRpcCall_eq_ok {method params : CString}
    (sent :
      makeRpcCall library alloc method params client =
        (.ok request, client')) :
    request.params = params ∧ library.parse params ≠ none := by
  rcases Call.bind_eq_ok_iff.mp sent with ⟨_, _, -, sent⟩
  rcases Call.bind_eq_ok_iff.mp sent with ⟨_, _, -, sent⟩
  rcases Call.bind_eq_ok_iff.mp sent with ⟨_, _, -, sent⟩
  rcases Call.bind_eq_ok_iff.mp sent with ⟨_, _, -, sent⟩
  rcases Call.bind_eq_ok_iff.mp sent with ⟨_, _, -, sent⟩
  rcases Call.bind_eq_ok_iff.mp sent with ⟨_, _, -, sent⟩
  cases parsed : library.parse params with
  | none =>
      rw [parsed] at sent
      cases sent
  | some paramsJson =>
      rw [parsed] at sent
      injection sent with made _
      exact ⟨serializeRequest_params made, Option.some_ne_none _⟩

theorem encodeBase64_eq_ok {data : List UInt8} {encoded : CString}
    (made : encodeBase64 alloc (.items data) = .ok encoded) :
    encoded = Base64.text data := by
  rw [encodeBase64] at made
  split at made
  · cases made
    rfl
  · cases made

/-- What is sent was printed, and the library has parsed it. -/
theorem Operation.perform_eq_ok {operation : Operation}
    (sent :
      operation.perform library alloc client = (.ok request, client')) :
    request.params = operation.params ∧
      library.parse operation.params ≠ none := by
  cases operation with
  | sendRawTransaction txData =>
      rcases Call.bind_eq_ok_iff.mp sent with ⟨encoded, _, made, sent⟩
      injection made with made _
      cases encodeBase64_eq_ok made
      exact makeRpcCall_eq_ok sent
  | invokeFunction scriptHash method params signers =>
      rcases Call.bind_eq_ok_iff.mp sent with ⟨hashHex, _, made, sent⟩
      rw [Hash160.toHex_eq scriptHash le_rfl] at made
      cases made
      exact makeRpcCall_eq_ok sent
  | invokeScript script signers =>
      rcases Call.bind_eq_ok_iff.mp sent with ⟨encoded, _, made, sent⟩
      injection made with made _
      cases encodeBase64_eq_ok made
      exact makeRpcCall_eq_ok sent
  | getStorage scriptHash key =>
      rcases Call.bind_eq_ok_iff.mp sent with ⟨hashStr, _, made, sent⟩
      rw [Hash160.toHex_eq scriptHash le_rfl] at made
      cases made
      rcases Call.bind_eq_ok_iff.mp sent with ⟨encoded, _, made, sent⟩
      injection made with made _
      cases encodeBase64_eq_ok made
      exact makeRpcCall_eq_ok sent

/-- A member that could not be added is left out. -/
theorem unchecked_addString (members : List (CString × JsonTree))
    (name value : CString) :
    ∃ added,
      unchecked members (JsonTree.addString alloc members name value) =
        .ok added := by
  rw [JsonTree.addString]
  split
  · exact ⟨_, rfl⟩
  · exact ⟨_, rfl⟩

theorem unchecked_addNumber (members : List (CString × JsonTree))
    (name : CString) (value : Rat) :
    ∃ added,
      unchecked members (JsonTree.addNumber alloc members name value) =
        .ok added := by
  rw [JsonTree.addNumber]
  split
  · exact ⟨_, rfl⟩
  · exact ⟨_, rfl⟩

/-- With memory to spare, parameters that can be parsed are sent. -/
theorem makeRpcCall_of_parse
    (prints : ∀ tree, (library.print tree).isSome = true)
    {method params : CString} {paramsJson : JsonTree}
    (parsed : library.parse params = some paramsJson)
    (client : RpcClient) :
    ∃ request client',
      makeRpcCall library .ample method params client =
        (.ok request, client') := by
  have created :
      JsonTree.createObject .ample
          "Failed to create JSON request" =
        .ok [] :=
    if_pos (by decide)
  rcases @unchecked_addString .ample []
    (CString.ofString "jsonrpc") (CString.ofString "2.0") with
    ⟨versioned, first⟩
  rcases @unchecked_addString .ample versioned
    (CString.ofString "method") method with
    ⟨named, second⟩
  rcases @unchecked_addNumber .ample named
    (CString.ofString "id") client.requestId.toNat with
    ⟨numbered, third⟩
  rcases Option.isSome_iff_exists.mp
    (prints
      (.object
        (JsonTree.addItem .ample numbered
          (CString.ofString "params") paramsJson))) with
    ⟨requestStr, printed⟩
  have granted : Allocator.ample.neocGrants 4096 = true := by decide
  refine ⟨{ params, requestStr }, { requestId := client.requestId + 1 }, ?_⟩
  rw [makeRpcCall]
  refine Call.bind_eq_ok_iff.mpr
    ⟨[], client, congrArg (·, client) created, ?_⟩
  refine Call.bind_eq_ok_iff.mpr
    ⟨versioned, client, congrArg (·, client) first, ?_⟩
  refine Call.bind_eq_ok_iff.mpr
    ⟨named, client, congrArg (·, client) second, ?_⟩
  refine Call.bind_eq_ok_iff.mpr ⟨client.requestId, client, rfl, ?_⟩
  refine Call.bind_eq_ok_iff.mpr ⟨(), _, rfl, ?_⟩
  refine Call.bind_eq_ok_iff.mpr
    ⟨numbered, _, congrArg (·, _) third, ?_⟩
  rw [parsed]
  dsimp only
  rw [serializeRequest, printed]
  dsimp only
  rw [granted, if_pos rfl]
  rfl

/-- A function is invoked where the library parses and prints. -/
theorem invokeFunction_eq_ok
    (prints : ∀ tree, (library.print tree).isSome = true)
    (scriptHash : Hash160) (method : CString)
    (params signers : Option CString)
    (parsed :
      library.parse
          (Operation.invokeFunction scriptHash method params
            signers).params ≠
        none) (client : RpcClient) :
    ∃ request client',
      (Operation.invokeFunction scriptHash method params signers).perform
          library .ample client =
        (.ok request, client') := by
  rcases Option.ne_none_iff_exists'.mp parsed with ⟨paramsJson, tree⟩
  rcases makeRpcCall_of_parse prints tree client with
    ⟨request, client', sent⟩
  refine ⟨request, client', Call.bind_eq_ok_iff.mpr ⟨_, client, ?_, sent⟩⟩
  rw [Hash160.toHex_eq scriptHash le_rfl]
  rfl

/-! ## The texts of the items -/

namespace Operation

/-- The texts of the items. -/
def texts : Operation → List (List UInt8)
  | .sendRawTransaction txData =>
      [quoted (Base64.text txData).characters]
  | .invokeFunction scriptHash method params signers =>
      [quoted (hashText scriptHash).characters, quoted method.characters,
        (orArray params).characters, (orArray signers).characters]
  | .invokeScript script signers =>
      [quoted (Base64.text script).characters,
        (orArray signers).characters]
  | .getStorage scriptHash key =>
      [quoted (hashText scriptHash).characters,
        quoted (Base64.text key).characters]

/-- The size of the array of characters. -/
def size : Operation → Nat
  | .sendRawTransaction _ => 1024
  | .invokeFunction _ _ _ _ => 4096
  | .invokeScript _ _ => 8192
  | .getStorage _ _ => 512

/-- The parameters are printed as an array. -/
theorem params_eq (operation : Operation) :
    operation.params =
      snprintf operation.size (arrayText operation.texts) := by
  have pieces :
      ascii "[\"" = [0x5B, 0x22] ∧ ascii "\"]" = [0x22, 0x5D] ∧
        ascii "\", \"" = [0x22, 0x2C, 0x20, 0x22] ∧
        ascii "\", " = [0x22, 0x2C, 0x20] ∧ ascii ", " = [0x2C, 0x20] ∧
        ascii "]" = [0x5D] ∧
        ascii "[\"0x" = [0x5B, 0x22, 0x30, 0x78] := by
    decide
  cases operation with
  | sendRawTransaction txData =>
      simp only [params, sendRawTransactionText, pieces, texts, arrayText,
        joined, quoted, size, List.cons_append, List.append_assoc,
        List.nil_append]
  | invokeFunction scriptHash method params signers =>
      simp only [Operation.params, invokeFunctionText, pieces, texts,
        arrayText, joined, quoted, size, List.cons_append,
        List.append_assoc, List.nil_append]
  | invokeScript script signers =>
      simp only [params, invokeScriptText, pieces, texts, arrayText,
        joined, quoted, size, List.cons_append, List.append_assoc,
        List.nil_append]
  | getStorage scriptHash key =>
      simp only [params, getStorageText, pieces, texts, arrayText,
        joined, quoted, size, hashText, Hash160.characters_marked,
        Hex.characters_text, List.cons_append, List.append_assoc,
        List.nil_append]

/-! ## Requests that are right -/

section Right

variable {strtod : List UInt8 → Option Rat} {operation : Operation}

theorem base64_plain (data : List UInt8) :
    ∀ byte ∈ (Base64.text data).characters, Plain byte ∧ byte < 0x80 := by
  have table :
      ∀ bits : Fin 64,
        Plain (Base64.character bits.val) ∧
          Base64.character bits.val < 0x80 := by
    unfold Base64.character
    rw [Base64.alphabet, ascii_ofList]
    decide
  rw [Base64.characters_text]
  exact
    Base64.forall_encodeCharacters (fun bits small => table ⟨bits, small⟩)
      (by decide) data

theorem hashText_plain (scriptHash : Hash160) :
    ∀ byte ∈ (hashText scriptHash).characters,
      Plain byte ∧ byte < 0x80 := by
  rw [hashText, Hash160.characters_marked]
  refine List.forall_mem_cons.mpr ⟨by decide, ?_⟩
  refine List.forall_mem_cons.mpr ⟨by decide, ?_⟩
  intro byte member
  exact ⟨(digits_plain byte member).1, (digits_plain byte member).2.2⟩

theorem valid_quoted {text : List UInt8} (valid : Utf8.valid text = true) :
    Utf8.valid (quoted text) = true := by
  have quote : Utf8.valid [0x22] = true := rfl
  change Utf8.valid ([0x22] ++ (text ++ [0x22])) = true
  exact Utf8.valid_append quote (Utf8.valid_append valid quote)

/-- A string that is read as it is. -/
theorem reads_quoted {text : CString}
    (plain : ∀ byte ∈ text.characters, Plain byte) :
    ReadsAs strtod (quoted text.characters) (.string text) := by
  have reads := @readsAs_quoted strtod text.characters plain
  rw [CString.ofBuffer_characters] at reads
  exact reads

theorem reads_base64 (data : List UInt8) :
    ReadsAs strtod (quoted (Base64.text data).characters)
      (.string (Base64.text data)) :=
  reads_quoted fun byte member => (base64_plain data byte member).1

theorem reads_hashText (scriptHash : Hash160) :
    ReadsAs strtod (quoted (hashText scriptHash).characters)
      (.string (hashText scriptHash)) :=
  reads_quoted fun byte member => (hashText_plain scriptHash byte member).1

theorem reads_given {text : List UInt8}
    (wellFormed : (parse strtod text).isSome = true) :
    ∃ tree, parse strtod text = some tree ∧ ReadsAs strtod text tree := by
  rcases Option.isSome_iff_exists.mp wellFormed with ⟨tree, parsed⟩
  exact ⟨tree, parsed, readsAs_of_parse parsed⟩

theorem valid_given {text : List UInt8}
    (wellFormed : (parse strtod text).isSome = true) :
    Utf8.valid text = true := by
  rcases Option.isSome_iff_exists.mp wellFormed with ⟨tree, parsed⟩
  exact (of_parse parsed).1

theorem valid_base64 (data : List UInt8) :
    Utf8.valid (quoted (Base64.text data).characters) = true :=
  valid_quoted
    (Utf8.valid_ascii fun byte member => (base64_plain data byte member).2)

theorem valid_hashText (scriptHash : Hash160) :
    Utf8.valid (quoted (hashText scriptHash).characters) = true :=
  valid_quoted
    (Utf8.valid_ascii fun byte member =>
      (hashText_plain scriptHash byte member).2)

theorem encodes_text (bytes : List UInt8) :
    Encodes bytes (.string (Base64.text bytes)) :=
  ⟨Base64.text bytes, rfl, Base64.decode_text le_rfl⟩

/-- The items of a call with a plain method are what was given. -/
theorem exists_items (wellFormed : operation.WellFormed strtod)
    (plain : operation.PlainMethod) :
    ∃ items : List (List UInt8 × JsonTree),
      items ≠ [] ∧
        items.map Prod.fst = operation.texts ∧
        (∀ item ∈ items, ReadsAs strtod item.1 item.2) ∧
        operation.Describes strtod (items.map Prod.snd) := by
  cases operation with
  | sendRawTransaction txData =>
      refine
        ⟨[(quoted (Base64.text txData).characters,
            .string (Base64.text txData))],
          List.cons_ne_nil _ _, rfl, ?_, _, rfl, encodes_text txData⟩
      rw [List.forall_mem_singleton]
      exact reads_base64 txData
  | invokeFunction scriptHash method params signers =>
      rcases reads_given wellFormed.1 with ⟨third, parsedParams, readParams⟩
      rcases reads_given wellFormed.2 with
        ⟨fourth, parsedSigners, readSigners⟩
      refine
        ⟨[(quoted (hashText scriptHash).characters,
              .string (hashText scriptHash)),
            (quoted method.characters, .string method),
            ((orArray params).characters, third),
            ((orArray signers).characters, fourth)],
          List.cons_ne_nil _ _, rfl, ?_, third, fourth, rfl, parsedParams,
          parsedSigners⟩
      simp only [List.forall_mem_cons]
      exact
        ⟨reads_hashText scriptHash, reads_quoted plain, readParams,
          readSigners, List.forall_mem_nil _⟩
  | invokeScript script signers =>
      rcases reads_given wellFormed with
        ⟨second, parsedSigners, readSigners⟩
      refine
        ⟨[(quoted (Base64.text script).characters,
              .string (Base64.text script)),
            ((orArray signers).characters, second)],
          List.cons_ne_nil _ _, rfl, ?_, _, second, rfl,
          encodes_text script, parsedSigners⟩
      simp only [List.forall_mem_cons]
      exact ⟨reads_base64 script, readSigners, List.forall_mem_nil _⟩
  | getStorage scriptHash key =>
      refine
        ⟨[(quoted (hashText scriptHash).characters,
              .string (hashText scriptHash)),
            (quoted (Base64.text key).characters,
              .string (Base64.text key))],
          List.cons_ne_nil _ _, rfl, ?_, _, rfl, encodes_text key⟩
      simp only [List.forall_mem_cons]
      exact
        ⟨reads_hashText scriptHash, reads_base64 key,
          List.forall_mem_nil _⟩

/-- The texts of the items are valid. -/
theorem valid_texts (wellFormed : operation.WellFormed strtod)
    (quotable : operation.Quotable) :
    ∀ text ∈ operation.texts, Utf8.valid text = true := by
  cases operation with
  | sendRawTransaction txData =>
      exact List.forall_mem_singleton.mpr (valid_base64 txData)
  | invokeFunction scriptHash method params signers =>
      simp only [texts, List.forall_mem_cons]
      exact
        ⟨valid_hashText scriptHash, valid_quoted quotable.2,
          valid_given wellFormed.1, valid_given wellFormed.2,
          List.forall_mem_nil _⟩
  | invokeScript script signers =>
      simp only [texts, List.forall_mem_cons]
      exact
        ⟨valid_base64 script, valid_given wellFormed, List.forall_mem_nil _⟩
  | getStorage scriptHash key =>
      simp only [texts, List.forall_mem_cons]
      exact
        ⟨valid_hashText scriptHash, valid_base64 key,
          List.forall_mem_nil _⟩

theorem free_quoted (text : CString) : 0 ∉ quoted text.characters := by
  rw [quoted, List.mem_cons, List.mem_append, List.mem_singleton]
  rintro (zero | member | zero)
  · cases zero
  · exact text.nul_free member
  · cases zero

/-- The text of the array is a string. -/
theorem free_arrayText (operation : Operation) :
    0 ∉ arrayText operation.texts := by
  apply free_arrayText_of
  cases operation with
  | sendRawTransaction txData =>
      exact List.forall_mem_singleton.mpr (free_quoted _)
  | invokeFunction scriptHash method params signers =>
      simp only [texts, List.forall_mem_cons]
      exact
        ⟨free_quoted _, free_quoted _, (orArray params).nul_free,
          (orArray signers).nul_free, List.forall_mem_nil _⟩
  | invokeScript script signers =>
      simp only [texts, List.forall_mem_cons]
      exact
        ⟨free_quoted _, (orArray signers).nul_free, List.forall_mem_nil _⟩
  | getStorage scriptHash key =>
      simp only [texts, List.forall_mem_cons]
      exact ⟨free_quoted _, free_quoted _, List.forall_mem_nil _⟩

theorem characters_params (operation : Operation) :
    operation.params.characters =
      (arrayText operation.texts).take (operation.size - 1) := by
  rw [params_eq, snprintf]
  exact
    CString.characters_ofBuffer fun member =>
      operation.free_arrayText (List.mem_of_mem_take member)

/-- A text that is cut off is not sent, and any other one is right. -/
theorem carries_of_quotable (rejects : library.RejectsCuts strtod)
    (wellFormed : operation.WellFormed strtod)
    (quotable : operation.Quotable) :
    operation.Carries library strtod := by
  intro alloc client client' request sent
  rcases perform_eq_ok sent with ⟨params, parsed⟩
  rcases exists_items wellFormed quotable.plainMethod with
    ⟨items, some, texts, reads, describes⟩
  refine ⟨items.map Prod.snd, ?_, describes⟩
  have whole := parseValue_arrayText some reads
  have valid := valid_arrayText (valid_texts wellFormed quotable)
  by_cases cut : operation.size - 1 < (arrayText operation.texts).length
  · have characters :=
      CString.characters_ofBuffer operation.free_arrayText
    rw [texts] at whole
    have refused :=
      rejects (CString.ofBuffer (arrayText operation.texts)) _ _
        (by rw [characters]; exact bracketed_arrayText _)
        (by rw [characters]; exact whole) (operation.size - 1)
        (by rw [characters]; exact cut)
    rw [characters] at refused
    rw [params_eq] at parsed
    exact absurd refused parsed
  · rw [← texts] at valid
    rw [params, characters_params,
      List.take_of_length_le (Nat.not_lt.mp cut), ← texts]
    exact parse_arrayText some reads valid

/-- An array with the name of the method in it has that name as it is. -/
theorem quotable_of_parsed {scriptHash : Hash160} {method : CString}
    {params signers : Option CString} {first : JsonTree}
    {others : List JsonTree}
    (wellFormed :
      (invokeFunction scriptHash method params signers).WellFormed strtod)
    (read :
      parse strtod
          (invokeFunction scriptHash method params
            signers).params.characters =
        some (.array (first :: .string method :: others))) :
    (invokeFunction scriptHash method params signers).Quotable := by
  rw [characters_params] at read
  rcases of_parse read with ⟨valid, rest, value, -⟩
  -- What was cut off does not change what was read.
  have extended :=
    (extends_all _).1 value le_rfl
      (.inr (.inl ⟨_, .inr rfl⟩) :
        _ ∨ _ ∨
          Delimits
            ((arrayText
              (invokeFunction scriptHash method params signers).texts).drop
                ((invokeFunction scriptHash method params signers).size -
                  1)))
  rw [List.take_append_drop] at extended
  change
    parseValue strtod _
        (0x5B :: (quoted (hashText scriptHash).characters ++ 0x2C :: 0x20 ::
          (quoted method.characters ++ 0x2C :: 0x20 ::
            joined
              [(orArray params).characters,
                (orArray signers).characters]))) = _ at extended
  have plainHash : ∀ byte ∈ (hashText scriptHash).characters, Plain byte :=
    fun byte member => (hashText_plain scriptHash byte member).1
  rw [parseValue_items rfl rfl (by decide)] at extended
  rcases Option.bind_eq_some_iff.mp extended with
    ⟨⟨items, behind⟩, readItems, same⟩
  cases same
  have plain : ∀ byte ∈ method.characters, Plain byte :=
    plain_of_parseItems plainHash readItems
  refine ⟨plain, ?_⟩
  rcases exists_items wellFormed plain with ⟨items, some, texts, reads, -⟩
  have whole := parseValue_arrayText some reads
  rw [texts] at whole
  by_cases cut :
      (invokeFunction scriptHash method params signers).size - 1 <
        (arrayText
          (invokeFunction scriptHash method params signers).texts).length
  · rw [parse_take (bracketed_arrayText _) whole cut] at read
    cases read
  have frame :
      arrayText (invokeFunction scriptHash method params signers).texts =
        (0x5B :: (quoted (hashText scriptHash).characters ++
            [0x2C, 0x20, 0x22])) ++
          (method.characters ++ 0x22 :: 0x2C :: 0x20 ::
            joined
              [(orArray params).characters,
                (orArray signers).characters]) := by
    simp [Operation.texts, arrayText, joined, quoted]
  have before :
      ∀ byte ∈
          (0x5B :: (quoted (hashText scriptHash).characters ++
            [0x2C, 0x20, 0x22])),
        byte < 0x80 := by
    simp only [quoted, List.forall_mem_cons, List.forall_mem_append]
    exact
      ⟨by decide, ⟨by decide,
        fun byte member => (hashText_plain scriptHash byte member).2,
        by decide, List.forall_mem_nil _⟩, by decide, by decide, by decide,
        List.forall_mem_nil _⟩
  rw [List.take_of_length_le (Nat.not_lt.mp cut), frame] at valid
  exact ((Utf8.valid_frame_iff before (by decide)).mp valid).1

end Right

end Operation

/-! ## Requests -/

/--
Whatever is sent carries the payload, exactly if the method of an invocation
is plain text or the text that it is put into cannot be parsed.
-/
theorem payload_carried_iff
    {strtod : List UInt8 → Option Rat}
    (rejects : library.RejectsCuts strtod)
    (prints : ∀ tree, (library.print tree).isSome = true)
    (operation : Operation)
    (wellFormed : operation.WellFormed strtod) :
    operation.Carries library strtod ↔
      operation.Quotable ∨ library.parse operation.params = none := by
  constructor
  · intro carries
    by_cases parsed : library.parse operation.params = none
    · exact .inr parsed
    left
    cases operation with
    | sendRawTransaction txData => trivial
    | invokeScript script signers => trivial
    | getStorage scriptHash key => trivial
    | invokeFunction scriptHash method params signers =>
        rcases invokeFunction_eq_ok prints scriptHash method params signers
          parsed { requestId := 1 } with
          ⟨request, client', sent⟩
        rcases carries _ _ _ _ sent with
          ⟨items, read, third, fourth, rfl, -⟩
        rw [(Operation.perform_eq_ok sent).1] at read
        exact Operation.quotable_of_parsed wellFormed read
  · rintro (quotable | refused)
    · exact Operation.carries_of_quotable rejects wellFormed quotable
    · intro alloc client client' request sent
      exact absurd refused (Operation.perform_eq_ok sent).2

/-- A library that follows the grammar and prints plain trees. -/
def printingLibrary : JsonLibrary where
  __ := JsonLibrary.byGrammar
  print tree := some (CString.ofBuffer (printTree tree))

theorem printingLibrary_correct :
    printingLibrary.Correct JsonGrammar.strtod where
  numerals value _ := JsonGrammar.strtod_decimal value
  parses _ := rfl

/-- A call of a method with a plain name. -/
def plainCall : Operation :=
  .invokeFunction (Bytes.zero 20) (CString.ofString "transfer") none none

theorem payload_carried_iff_plain :
    plainCall.Carries printingLibrary JsonGrammar.strtod :=
  (payload_carried_iff printingLibrary_correct.rejectsCuts (fun _ => rfl)
    plainCall ⟨by decide, by decide⟩).mpr
    (.inl ⟨by decide +kernel, by decide +kernel⟩)

/-- A method that closes its quotes. -/
def quotedMethod : CString :=
  CString.ofString "a\", \"b"

/-- A call of that method without parameters. -/
def quotedCall : Operation :=
  .invokeFunction (Bytes.zero 20) quotedMethod none none

/-- The request is sent, and its array has an item more. -/
theorem quotedCall_sent :
    quotedCall.WellFormed JsonGrammar.strtod ∧
      ¬ quotedCall.Carries printingLibrary JsonGrammar.strtod := by
  have wellFormed : quotedCall.WellFormed JsonGrammar.strtod :=
    ⟨by decide, by decide⟩
  refine ⟨wellFormed, ?_⟩
  intro carries
  have parsed : (printingLibrary.parse quotedCall.params).isSome = true := by
    decide
  rcases invokeFunction_eq_ok (fun _ => rfl) (Bytes.zero 20) quotedMethod
    none none (Option.isSome_iff_ne_none.mp parsed) { requestId := 1 } with
    ⟨request, client', sent⟩
  rcases carries _ _ _ _ sent with ⟨items, read, third, fourth, rfl, -⟩
  rw [(Operation.perform_eq_ok sent).1] at read
  have plain := (Operation.quotable_of_parsed wellFormed read).1 0x22
  exact absurd (plain (by decide)).1 (by decide)

end RpcClient

end NeoC
