import NeoC.Runtime.Hex
import NeoC.Runtime.JsonCut
import NeoC.Runtime.Text
import NeoC.Transaction.Transaction

/-!
# Transactions as JSON

A transaction is printed into a buffer of 4096 bytes, with its script in
hexadecimal and its fees as texts; the arrays of signers, attributes and
witnesses are left empty.  Nobody looks at the length that `snprintf`
returns.  So a text that does not fit is cut off, and what is left of it is
not JSON.  Up to there, every number survives the way through a `double` and
`strtoull`.
-/

namespace NeoC.Transaction

open Foundation JsonGrammar

/-! ## Writing -/

/-- `json_size`. -/
def jsonSize : Nat := 4096

/-- The script in hexadecimal, `NULL` if there is none or no memory. -/
def scriptHex (alloc : Allocator) (tx : Transaction) : Option CString :=
  match tx.script with
  | .null _ => none
  | .items content =>
      let hexLen := content.length * 2 + 1
      if content.length > 0 ∧ alloc.neocGrants hexLen = true then
        (Hex.encode content hexLen false false).toOption
      else
        none

/-- What follows the script. -/
def closingText : List UInt8 :=
  ascii "\",\"signers\":[],\"attributes\":[],\"witnesses\":[]\x7d"

/-- The text that is printed, from the script on. -/
def scriptText (hex : List UInt8) : List UInt8 :=
  ascii "\"script\":\"" ++ (hex ++ closingText)

/-- The text that is printed, up to the comma in front of the script. -/
def headText (tx : Transaction) (hash rest : List UInt8) : List UInt8 :=
  ascii "\x7b\"hash\":\"" ++ (hash ++
    (ascii "\",\"version\":" ++ (decimal tx.version.toNat ++
      (ascii ",\"nonce\":" ++ (decimal tx.nonce.toNat ++
        (ascii ",\"sysfee\":\"" ++ (decimal tx.systemFee.toNat ++
          (ascii "\",\"netfee\":\"" ++ (decimal tx.networkFee.toNat ++
            (ascii "\",\"validuntilblock\":" ++
              (decimal tx.validUntilBlock.toNat ++
                (ascii "," ++ rest))))))))))))

/-- `neoc_transaction_to_json`, which returns `NULL` for a failure. -/
def toJson (alloc : Allocator) (tx : Transaction) : Option CString :=
  if alloc.neocGrants jsonSize = false then
    none
  else
    let hex :=
      match scriptHex alloc tx with
      | some hex => hex.characters
      | none => []
    match Hash256.toString tx.hash 65 with
    | .error _ => none
    | .ok hash =>
        some
          (CString.ofBuffer
            ((tx.headText hash.characters (scriptText hex)).take
              (jsonSize - 1)))

/-! ## Reading -/

variable (library : JsonLibrary)

/-- A number that is converted to an unsigned type, if it is there. -/
def readNumber (json : JsonTree) (name : CString) (highest before : Nat) :
    Outcome Nat :=
  match library.getNumber json name with
  | .ok numberValue => do
      let value ← JsonTree.convert 0 highest numberValue
      .ok value.toNat
  | .error _ => .ok before

/-- A number in a text, if it is there. -/
def readFee (json : JsonTree) (name : CString) (before : UInt64) : UInt64 :=
  match library.getString json name with
  | some text => strtoull text.characters
  | none => before

/--
The script.  Where its text cannot be decoded, bytes that nobody has written
would be left in it; the model halts there.
-/
def readScript (alloc : Allocator) (json : JsonTree) (before : Buffer) :
    Outcome Buffer :=
  match library.getString json (CString.ofString "script") with
  | none => .ok before
  | some hex =>
      let scriptLen := hex.strlen / 2
      if alloc.neocGrants scriptLen then
        match Hex.decode hex.characters scriptLen with
        | .ok bytes => .ok (.items bytes)
        | .error _ => .error .illegalAccess
      else
        .ok (.null scriptLen)

/-- The stored hash, if there is a text that it can be read from. -/
def readHash (json : JsonTree) (before : Hash256) : Outcome Hash256 :=
  match library.getString json (CString.ofString "hash") with
  | none => .ok before
  | some text => unchecked before (Hash256.fromString text)

/-- `neoc_transaction_from_json`, with `none` for `NULL`. -/
def fromJson (alloc : Allocator) (time : UInt32) (jsonStr : CString) :
    Outcome (Option Transaction) :=
  match library.parse jsonStr with
  | none => .ok none
  | some json =>
      match create alloc time with
      | .error _ => .ok none
      | .ok tx => do
          let version ←
            readNumber library json (CString.ofString "version") 0xFF
              tx.version.toNat
          let nonce ←
            readNumber library json (CString.ofString "nonce") 0xFFFFFFFF
              tx.nonce.toNat
          let validUntilBlock ←
            readNumber library json (CString.ofString "validuntilblock")
              0xFFFFFFFF tx.validUntilBlock.toNat
          let script ← readScript library alloc json tx.script
          let hash ← readHash library json tx.hash
          .ok
            (some
              { tx with
                version := UInt8.ofNat version
                nonce := UInt32.ofNat nonce
                validUntilBlock := UInt32.ofNat validUntilBlock
                systemFee :=
                  readFee library json (CString.ofString "sysfee")
                    tx.systemFee
                networkFee :=
                  readFee library json (CString.ofString "netfee")
                    tx.networkFee
                script
                hash })

/-! ## What is expected -/

/-- The fields that are written are read as they were. -/
def Returns (writing reading : Allocator) (time : UInt32)
    (tx : Transaction) : Prop :=
  ∃ text back,
    toJson writing tx = some text ∧
      fromJson library reading time text = .ok (some back) ∧
      back.version = tx.version ∧
      back.nonce = tx.nonce ∧
      back.systemFee = tx.systemFee ∧
      back.networkFee = tx.networkFee ∧
      back.validUntilBlock = tx.validUntilBlock ∧
      back.script.content = tx.script.content ∧
      back.hash = tx.hash

/-- The number of digits of the numbers of a transaction. -/
def digitCount (tx : Transaction) : Nat :=
  (decimal tx.version.toNat).length + (decimal tx.nonce.toNat).length +
    (decimal tx.systemFee.toNat).length +
    (decimal tx.networkFee.toNat).length +
    (decimal tx.validUntilBlock.toNat).length

/-- The script leaves the text room in the buffer. -/
def FitsBuffer (tx : Transaction) : Prop :=
  tx.digitCount + 2 * tx.script.content.length ≤ 3901

instance (tx : Transaction) : Decidable tx.FitsBuffer :=
  inferInstanceAs (Decidable (_ ≤ _))

/-! ## The text -/

section Text

variable {tx : Transaction} {hash hex rest : List UInt8}

theorem length_headText (sized : hash.length = 64) :
    (tx.headText hash rest).length = 138 + tx.digitCount + rest.length := by
  have pieces :
      (ascii "\x7b\"hash\":\"").length = 9 ∧
        (ascii "\",\"version\":").length = 12 ∧
        (ascii ",\"nonce\":").length = 9 ∧
        (ascii ",\"sysfee\":\"").length = 11 ∧
        (ascii "\",\"netfee\":\"").length = 12 ∧
        (ascii "\",\"validuntilblock\":").length = 20 ∧
        (ascii ",").length = 1 := by
    decide
  simp only [headText, digitCount, List.length_append, sized, pieces]
  omega

theorem length_scriptText :
    (scriptText hex).length = 56 + hex.length := by
  have pieces :
      (ascii "\"script\":\"").length = 10 ∧ closingText.length = 46 := by
    decide
  simp only [scriptText, List.length_append, pieces]
  omega

theorem digitCount_le (tx : Transaction) : tx.digitCount ≤ 63 := by
  have version :=
    @length_decimal_le _ 3 (by decide)
      (tx.version.toNat_lt.trans (by decide))
  have nonce :=
    @length_decimal_le _ 10 (by decide)
      (tx.nonce.toNat_lt.trans (by decide))
  have systemFee :=
    @length_decimal_le _ 20 (by decide)
      (tx.systemFee.toNat_lt.trans (by decide))
  have networkFee :=
    @length_decimal_le _ 20 (by decide)
      (tx.networkFee.toNat_lt.trans (by decide))
  have block :=
    @length_decimal_le _ 10 (by decide)
      (tx.validUntilBlock.toNat_lt.trans (by decide))
  rw [digitCount]
  omega

theorem printable_headText (hashed : ∀ byte ∈ hash, Printable byte)
    (ended : ∀ byte ∈ rest, Printable byte) :
    ∀ byte ∈ tx.headText hash rest, Printable byte := by
  have numeral (value : Nat) : ∀ byte ∈ decimal value, Printable byte :=
    fun byte member => printable_of_isDigit (isDigit_decimal value byte member)
  simp only [headText, List.forall_mem_append]
  refine
    ⟨forall_mem_ascii (by decide), hashed, forall_mem_ascii (by decide),
      numeral _, forall_mem_ascii (by decide), numeral _,
      forall_mem_ascii (by decide), numeral _, forall_mem_ascii (by decide),
      numeral _, forall_mem_ascii (by decide), numeral _,
      forall_mem_ascii (by decide), ended⟩

theorem printable_scriptText (plain : ∀ byte ∈ hex, Printable byte) :
    ∀ byte ∈ scriptText hex, Printable byte := by
  simp only [scriptText, List.forall_mem_append]
  exact ⟨forall_mem_ascii (by decide), plain, forall_mem_ascii (by decide)⟩

end Text

/-! ## Parsing the text -/

section Parsing

variable {strtod : List UInt8 → Option Rat} {fuel : Nat}
  {tx : Transaction} {hash hex rest : List UInt8}

/-- The members in front of the script. -/
def headMembers (strtod : List UInt8 → Option Rat) (tx : Transaction)
    (hash : List UInt8) : List (CString × JsonTree) :=
  [(CString.ofString "hash", .string (CString.ofBuffer hash)),
    (CString.ofString "version",
      .number (strtod (decimal tx.version.toNat))),
    (CString.ofString "nonce", .number (strtod (decimal tx.nonce.toNat))),
    (CString.ofString "sysfee",
      .string (CString.ofBuffer (decimal tx.systemFee.toNat))),
    (CString.ofString "netfee",
      .string (CString.ofBuffer (decimal tx.networkFee.toNat))),
    (CString.ofString "validuntilblock",
      .number (strtod (decimal tx.validUntilBlock.toNat)))]

/-- The members from the script on. -/
def scriptMembers (hex : List UInt8) : List (CString × JsonTree) :=
  [(CString.ofString "script", .string (CString.ofBuffer hex)),
    (CString.ofString "signers", .array []),
    (CString.ofString "attributes", .array []),
    (CString.ofString "witnesses", .array [])]

/-- The text up to the script, member by member. -/
theorem headText_eq :
    tx.headText hash rest =
      0x7B :: 0x22 :: (ascii "hash" ++ 0x22 :: 0x3A :: 0x22 ::
        (hash ++ 0x22 :: 0x2C :: 0x22 ::
          (ascii "version" ++ 0x22 :: 0x3A ::
            (decimal tx.version.toNat ++ 0x2C :: 0x22 ::
              (ascii "nonce" ++ 0x22 :: 0x3A ::
                (decimal tx.nonce.toNat ++ 0x2C :: 0x22 ::
                  (ascii "sysfee" ++ 0x22 :: 0x3A :: 0x22 ::
                    (decimal tx.systemFee.toNat ++ 0x22 :: 0x2C :: 0x22 ::
                      (ascii "netfee" ++ 0x22 :: 0x3A :: 0x22 ::
                        (decimal tx.networkFee.toNat ++
                          0x22 :: 0x2C :: 0x22 ::
                            (ascii "validuntilblock" ++ 0x22 :: 0x3A ::
                              (decimal tx.validUntilBlock.toNat ++
                                0x2C :: rest)))))))))))) := by
  have pieces :
      ascii "\x7b\"hash\":\"" =
          0x7B :: 0x22 :: (ascii "hash" ++ [0x22, 0x3A, 0x22]) ∧
        ascii "\",\"version\":" =
          0x22 :: 0x2C :: 0x22 :: (ascii "version" ++ [0x22, 0x3A]) ∧
        ascii ",\"nonce\":" =
          0x2C :: 0x22 :: (ascii "nonce" ++ [0x22, 0x3A]) ∧
        ascii ",\"sysfee\":\"" =
          0x2C :: 0x22 :: (ascii "sysfee" ++ [0x22, 0x3A, 0x22]) ∧
        ascii "\",\"netfee\":\"" =
          0x22 :: 0x2C :: 0x22 ::
            (ascii "netfee" ++ [0x22, 0x3A, 0x22]) ∧
        ascii "\",\"validuntilblock\":" =
          0x22 :: 0x2C :: 0x22 ::
            (ascii "validuntilblock" ++ [0x22, 0x3A]) ∧
        ascii "," = [0x2C] := by
    decide
  simp only [headText, pieces, List.cons_append, List.append_assoc,
    List.nil_append]

/-- What follows the head decides what the text is read as. -/
theorem parseValue_headText (plain : ∀ byte ∈ hash, Plain byte) :
    parseValue strtod (fuel + 8) (tx.headText hash rest) =
      (parseMembers strtod (fuel + 1) rest).bind fun read =>
        some (.object (headMembers strtod tx hash ++ read.1), read.2) := by
  rw [headText_eq, parseValue_members rfl rfl,
    parseMembers_text (forall_mem_ascii (by decide)) plain,
    parseMembers_number (forall_mem_ascii (by decide)),
    parseMembers_number (forall_mem_ascii (by decide)),
    parseMembers_text (forall_mem_ascii (by decide)) (plain_decimal _),
    parseMembers_text (forall_mem_ascii (by decide)) (plain_decimal _),
    parseMembers_number (forall_mem_ascii (by decide))]
  cases parseMembers strtod (fuel + 1) rest with
  | none => rfl
  | some read => rfl

/-- The arrays behind the script are empty. -/
theorem parseMembers_scriptText (plain : ∀ byte ∈ hex, Plain byte) :
    parseMembers strtod (fuel + 5) (scriptText hex) =
      some (scriptMembers hex, []) := by
  have witnesses :
      parseMembers strtod (fuel + 2) (ascii "\"witnesses\":[]\x7d") =
        some ([(CString.ofString "witnesses", .array [])], []) :=
    parseMembers_last rfl rfl rfl (parseValue_emptyArray rfl rfl) rfl
  have attributes :
      parseMembers strtod (fuel + 3)
          (ascii "\"attributes\":[],\"witnesses\":[]\x7d") =
        some
          ([(CString.ofString "attributes", .array []),
              (CString.ofString "witnesses", .array [])], []) :=
    parseMembers_next rfl rfl rfl (parseValue_emptyArray rfl rfl) rfl
      witnesses
  have signers :
      parseMembers strtod (fuel + 4)
          (ascii "\"signers\":[],\"attributes\":[],\"witnesses\":[]\x7d") =
        some
          ([(CString.ofString "signers", .array []),
              (CString.ofString "attributes", .array []),
              (CString.ofString "witnesses", .array [])], []) :=
    parseMembers_next rfl rfl rfl (parseValue_emptyArray rfl rfl) rfl
      attributes
  exact
    parseMembers_next rfl rfl rfl
      (parseValue_string rfl (parseString_of_plain plain _)) rfl signers

/-- The tree of the text. -/
def jsonTree (strtod : List UInt8 → Option Rat) (tx : Transaction)
    (hash hex : List UInt8) : JsonTree :=
  .object (headMembers strtod tx hash ++ scriptMembers hex)

/-- The text that is printed is one object. -/
theorem parseValue_text (plain : ∀ byte ∈ hash, Plain byte)
    (plainHex : ∀ byte ∈ hex, Plain byte) :
    parseValue strtod (fuel + 12) (tx.headText hash (scriptText hex)) =
      some (jsonTree strtod tx hash hex, []) := by
  rw [parseValue_headText plain, parseMembers_scriptText plainHex]
  rfl

end Parsing

/-! ## The text of a transaction -/

section Whole

variable {strtod : List UInt8 → Option Rat} {library : JsonLibrary}
  {writing reading : Allocator} {tx : Transaction}

/-- The digits of the stored hash. -/
def hashDigits (tx : Transaction) : List UInt8 :=
  tx.hash.val.flatMap (Hex.digits false)

/-- The digits of the script. -/
def scriptDigits (tx : Transaction) : List UInt8 :=
  tx.script.content.flatMap (Hex.digits false)

/-- The text that is printed. -/
def jsonText (tx : Transaction) : List UInt8 :=
  tx.headText tx.hashDigits (scriptText tx.scriptDigits)

theorem length_hashDigits (tx : Transaction) :
    tx.hashDigits.length = 64 := by
  rw [hashDigits, Hex.length_digits, tx.hash.property]

theorem length_scriptDigits (tx : Transaction) :
    tx.scriptDigits.length = 2 * tx.script.content.length := by
  rw [scriptDigits, Hex.length_digits]

theorem length_jsonText (tx : Transaction) :
    tx.jsonText.length =
      194 + tx.digitCount + 2 * tx.script.content.length := by
  rw [jsonText, length_headText tx.length_hashDigits, length_scriptText,
    length_scriptDigits]
  omega

theorem jsonText_length_le_iff (tx : Transaction) :
    tx.jsonText.length ≤ jsonSize - 1 ↔ tx.FitsBuffer := by
  rw [length_jsonText, FitsBuffer, jsonSize]
  omega

theorem printable_jsonText (tx : Transaction) :
    ∀ byte ∈ tx.jsonText, Printable byte :=
  printable_headText (fun byte member => (digits_plain byte member).2)
    (printable_scriptText fun byte member => (digits_plain byte member).2)

theorem parseValue_jsonText (tx : Transaction) (fuel : Nat) :
    parseValue strtod (fuel + 12) tx.jsonText =
      some (jsonTree strtod tx tx.hashDigits tx.scriptDigits, []) :=
  parseValue_text (fun byte member => (digits_plain byte member).1)
    fun byte member => (digits_plain byte member).1

/-- A text that fits is well formed. -/
theorem parse_jsonText (tx : Transaction) :
    parse strtod tx.jsonText =
      some (jsonTree strtod tx tx.hashDigits tx.scriptDigits) := by
  have valid : Utf8.valid tx.jsonText = true :=
    Utf8.valid_ascii fun byte member => (tx.printable_jsonText byte member).2
  obtain ⟨fuel, enough⟩ :
      ∃ fuel, tx.jsonText.length + 1 = fuel + 12 :=
    ⟨tx.jsonText.length - 11, by rw [length_jsonText]; omega⟩
  rw [parse, if_pos valid, enough, parseValue_jsonText]
  rfl

/-- A text that does not fit is none any more. -/
theorem parse_take_jsonText (long : ¬ tx.FitsBuffer) :
    parse strtod (tx.jsonText.take (jsonSize - 1)) = none := by
  rw [← jsonText_length_le_iff, Nat.not_le] at long
  exact
    parse_take ⟨_, .inl (by rw [jsonText, headText_eq]; rfl)⟩
      (tx.parseValue_jsonText 0) long

/-! ## Writing and reading -/

/-- The script is written as its digits. -/
theorem scriptHex_digits
    (servesScript :
      writing.Serves (2 * tx.script.content.length + 1)) :
    (match scriptHex writing tx with
      | some hex => hex.characters
      | none => []) = tx.scriptDigits := by
  rw [scriptHex, scriptDigits]
  generalize tx.script = script at *
  cases script with
  | null count => rfl
  | items content =>
      cases content with
      | nil => rfl
      | cons byte rest =>
          have granted :
              writing.neocGrants ((byte :: rest).length * 2 + 1) = true :=
            servesScript.neocGrants (Nat.succ_pos _)
              (Nat.le_of_eq (by rw [Nat.mul_comm]; rfl))
          have room :
              ¬ (byte :: rest).length * 2 + 1 <
                Hex.encodeBufferSize (byte :: rest).length false := by
            rw [Hex.encodeBufferSize]
            simp
          dsimp only
          rw [if_pos ⟨Nat.succ_pos _, granted⟩, Hex.encode, if_neg room]
          exact Hex.characters_text (byte :: rest) false

theorem toJson_eq (serves : writing.Serves jsonSize)
    (servesScript : writing.Serves (2 * tx.script.content.length + 1)) :
    toJson writing tx =
      some (CString.ofBuffer (tx.jsonText.take (jsonSize - 1))) := by
  have granted : writing.neocGrants jsonSize = true :=
    serves.neocGrants (by decide) le_rfl
  rw [toJson, granted, if_neg (by decide), scriptHex_digits servesScript,
    Hash256.toString_eq tx.hash le_rfl]
  dsimp only
  rw [Hex.characters_text]
  rfl

/-- The names of the tree are told apart. -/
theorem apart_jsonTree (hash hex : List UInt8) :
    JsonTree.Apart
      ((headMembers strtod tx hash ++ scriptMembers hex).map Prod.fst) := by
  change
    JsonTree.Apart
      [CString.ofString "hash", CString.ofString "version",
        CString.ofString "nonce", CString.ofString "sysfee",
        CString.ofString "netfee", CString.ofString "validuntilblock",
        CString.ofString "script", CString.ofString "signers",
        CString.ofString "attributes", CString.ofString "witnesses"]
  decide

/-- A text of the tree. -/
theorem getString_jsonTree {hash hex text : List UInt8} {name : CString}
    (listed :
      (name, JsonTree.string (CString.ofBuffer text)) ∈
        headMembers strtod tx hash ++ scriptMembers hex) :
    library.getString (jsonTree strtod tx hash hex) name =
      some (CString.ofBuffer text) :=
  JsonLibrary.getString_of_item
    (JsonTree.getItem_of_mem (apart_jsonTree hash hex) listed)

/-- A number of the tree that a type of up to 32 bits holds. -/
theorem readNumber_jsonTree (correct : library.Correct strtod)
    {hash hex : List UInt8} {name : CString} {value highest : Nat}
    (listed :
      (name, JsonTree.number (strtod (decimal value))) ∈
        headMembers strtod tx hash ++ scriptMembers hex)
    (bounded : value ≤ highest) (small : highest ≤ 2 ^ 53) (before : Nat) :
    readNumber library (jsonTree strtod tx hash hex) name highest before =
      .ok value := by
  have found :
      library.getNumber (jsonTree strtod tx hash hex) name =
        .ok (some (value : Rat)) := by
    rw [← correct.numerals value (bounded.trans small)]
    exact
      JsonLibrary.getNumber_of_item
        (JsonTree.getItem_of_mem (apart_jsonTree hash hex) listed)
  rw [readNumber, found]
  dsimp only
  rw [JsonTree.convert_natCast le_rfl (Int.ofNat_le.mpr bounded)]
  rfl

/-- A fee of the tree. -/
theorem readFee_jsonTree {hash hex : List UInt8} {name : CString}
    {value : UInt64}
    (listed :
      (name, JsonTree.string (CString.ofBuffer (decimal value.toNat))) ∈
        headMembers strtod tx hash ++ scriptMembers hex)
    (before : UInt64) :
    readFee library (jsonTree strtod tx hash hex) name before = value := by
  rw [readFee, getString_jsonTree listed]
  dsimp only
  rw [characters_of_printable fun byte member =>
    printable_of_isDigit (isDigit_decimal value.toNat byte member)]
  exact strtoull_decimal value

/-- The script of the tree. -/
theorem readScript_jsonTree (serves : reading.Serves tx.script.content.length)
    {hash : List UInt8} (before : Buffer) :
    ∃ script,
      readScript library reading
            (jsonTree strtod tx hash tx.scriptDigits) before =
          .ok script ∧
        script.content = tx.script.content := by
  have characters :
      (CString.ofBuffer tx.scriptDigits).characters = tx.scriptDigits :=
    characters_of_printable fun byte member => (digits_plain byte member).2
  have half :
      (CString.ofBuffer tx.scriptDigits).strlen / 2 =
        tx.script.content.length := by
    rw [CString.strlen, characters, length_scriptDigits]
    omega
  rw [readScript,
    getString_jsonTree (List.mem_append_right _ List.mem_cons_self)]
  dsimp only
  rw [half]
  cases some : tx.script.content.length with
  | zero =>
      refine ⟨.null 0, rfl, ?_⟩
      rw [List.eq_nil_of_length_eq_zero some]
      rfl
  | succ count =>
      rw [← some, serves.neocGrants (by omega) le_rfl, if_pos rfl, characters,
        scriptDigits, Hex.decode_digits _ _ le_rfl]
      exact ⟨_, rfl, rfl⟩

/-- The stored hash of the tree. -/
theorem readHash_jsonTree {hex : List UInt8} (before : Hash256) :
    readHash library (jsonTree strtod tx tx.hashDigits hex) before =
      .ok tx.hash := by
  have text :
      CString.ofBuffer tx.hashDigits = Hex.text tx.hash.val false false :=
    rfl
  rw [readHash,
    getString_jsonTree (List.mem_append_left _ List.mem_cons_self)]
  dsimp only
  rw [text, Hash256.fromString_text]
  rfl

/-- A text that fits is read as the transaction. -/
theorem fromJson_jsonText (correct : library.Correct strtod)
    (serves : reading.Serves structSize)
    (servesScript : reading.Serves tx.script.content.length)
    (time : UInt32) :
    ∃ back,
      fromJson library reading time (CString.ofBuffer tx.jsonText) =
          .ok (some back) ∧
        back.version = tx.version ∧
        back.nonce = tx.nonce ∧
        back.systemFee = tx.systemFee ∧
        back.networkFee = tx.networkFee ∧
        back.validUntilBlock = tx.validUntilBlock ∧
        back.script.content = tx.script.content ∧
        back.hash = tx.hash := by
  have granted : reading.neocGrants structSize = true :=
    serves.neocGrants (by decide) le_rfl
  have parsed :
      library.parse (CString.ofBuffer tx.jsonText) =
        some (jsonTree strtod tx tx.hashDigits tx.scriptDigits) := by
    rw [correct.parses, characters_of_printable tx.printable_jsonText,
      parse_jsonText]
  have listed (index : Fin 6) :
      (headMembers strtod tx tx.hashDigits)[index] ∈
        headMembers strtod tx tx.hashDigits ++
          scriptMembers tx.scriptDigits :=
    List.mem_append_left _ (List.getElem_mem _)
  have version (before : Nat) :=
    readNumber_jsonTree correct (listed 1)
      (Nat.le_of_lt_succ tx.version.toNat_lt) (by decide) before
  have nonce (before : Nat) :=
    readNumber_jsonTree correct (listed 2)
      (Nat.le_of_lt_succ tx.nonce.toNat_lt) (by decide) before
  have validUntilBlock (before : Nat) :=
    readNumber_jsonTree correct (listed 5)
      (Nat.le_of_lt_succ tx.validUntilBlock.toNat_lt) (by decide) before
  have systemFee (before : UInt64) :
      readFee library (jsonTree strtod tx tx.hashDigits tx.scriptDigits)
          (CString.ofString "sysfee") before =
        tx.systemFee :=
    readFee_jsonTree (listed 3) before
  have networkFee (before : UInt64) :
      readFee library (jsonTree strtod tx tx.hashDigits tx.scriptDigits)
          (CString.ofString "netfee") before =
        tx.networkFee :=
    readFee_jsonTree (listed 4) before
  have scripted :
      ∃ script,
        readScript library reading
              (jsonTree strtod tx tx.hashDigits tx.scriptDigits)
              (.null 0) =
            .ok script ∧
          script.content = tx.script.content :=
    readScript_jsonTree servesScript (.null 0)
  rcases scripted with ⟨script, readScript, same⟩
  have hash :
      readHash library (jsonTree strtod tx tx.hashDigits tx.scriptDigits)
          (Bytes.zero 32) =
        .ok tx.hash :=
    readHash_jsonTree (Bytes.zero 32)
  rw [fromJson, parsed, create, if_pos granted]
  dsimp only
  refine
    ⟨{ version := tx.version, nonce := tx.nonce,
       systemFee := tx.systemFee, networkFee := tx.networkFee,
       validUntilBlock := tx.validUntilBlock, signers := [],
       attributes := [], script, witnesses := [], hash := tx.hash },
      ?_, rfl, rfl, rfl, rfl, rfl, same, rfl⟩
  rw [version, nonce, validUntilBlock, readScript, hash, systemFee,
    networkFee]
  dsimp only [Except.bind, bind]
  rw [UInt8.ofNat_toNat, UInt32.ofNat_toNat, UInt32.ofNat_toNat]

theorem returns_of_fitsBuffer
    (correct : library.Correct strtod)
    (serves : writing.Serves jsonSize)
    (servesHex : writing.Serves (2 * tx.script.content.length + 1))
    (servesReading : reading.Serves structSize)
    (servesScript : reading.Serves tx.script.content.length)
    (time : UInt32) (fits : tx.FitsBuffer) :
    Returns library writing reading time tx := by
  have whole : tx.jsonText.take (jsonSize - 1) = tx.jsonText :=
    List.take_of_length_le (tx.jsonText_length_le_iff.mpr fits)
  rcases fromJson_jsonText correct servesReading servesScript time with
    ⟨back, read, fields⟩
  refine ⟨_, back, toJson_eq serves servesHex, ?_, fields⟩
  rw [whole]
  exact read

/-- A text that is cut off is not read at all. -/
theorem not_returns_of_long
    (correct : library.Correct strtod)
    (serves : writing.Serves jsonSize)
    (servesHex : writing.Serves (2 * tx.script.content.length + 1))
    (time : UInt32) (long : ¬ tx.FitsBuffer) :
    ¬ Returns library writing reading time tx := by
  rintro ⟨text, back, written, read, -⟩
  rw [toJson_eq serves servesHex] at written
  cases written
  have printable :
      ∀ byte ∈ tx.jsonText.take (jsonSize - 1), Printable byte :=
    fun byte member => tx.printable_jsonText byte (List.mem_of_mem_take member)
  rw [fromJson, correct.parses, characters_of_printable printable,
    parse_take_jsonText long] at read
  cases read

/--
A transaction comes back from its text exactly if the script leaves the text
room in the buffer of 4096 bytes.
-/
theorem returns_iff_fitsBuffer
    (correct : library.Correct strtod)
    (serves : writing.Serves jsonSize)
    (servesHex : writing.Serves (2 * tx.script.content.length + 1))
    (servesReading : reading.Serves structSize)
    (servesScript : reading.Serves tx.script.content.length)
    (time : UInt32) :
    Returns library writing reading time tx ↔ tx.FitsBuffer := by
  constructor
  · intro returns
    by_contra long
    exact not_returns_of_long correct serves servesHex time long returns
  · intro fits
    exact
      returns_of_fitsBuffer correct serves servesHex servesReading
        servesScript time fits

/-- A script of at most 1919 bytes comes back with any numbers. -/
theorem fitsBuffer_of_length_le
    (short : tx.script.content.length ≤ 1919) : tx.FitsBuffer := by
  have digits := tx.digitCount_le
  rw [FitsBuffer]
  omega

/-- A transaction with numbers and a script. -/
def scriptedTransaction : Transaction where
  __ := emptyTransaction
  nonce := 7
  systemFee := 100
  networkFee := 20
  validUntilBlock := 5760
  script := .items [0x15, 0x40]

theorem returns_iff_fitsBuffer_script :
    Returns JsonLibrary.byGrammar .ample .ample 0
      scriptedTransaction :=
  (returns_iff_fitsBuffer JsonLibrary.byGrammar_correct
    (Allocator.ample_serves (by decide)) (Allocator.ample_serves (by decide))
    (Allocator.ample_serves (by decide)) (Allocator.ample_serves (by decide))
    0).mpr (fitsBuffer_of_length_le (by decide))

end Whole

/-! ## A transaction that does not come back -/

/-- A transaction with a script of 2000 bytes. -/
def longTransaction : Transaction where
  __ := emptyTransaction
  script := .items (List.replicate 2000 0x40)

/-- It is built by setting a script, and its text is cut off. -/
theorem longTransaction_lost :
    setScript .ample (.items (List.replicate 2000 0x40))
          emptyTransaction =
        (.ok (), longTransaction) ∧
      (toJson .ample longTransaction).isSome = true ∧
      ¬ Returns JsonLibrary.byGrammar .ample .ample 0
          longTransaction := by
  have length : longTransaction.script.content.length = 2000 :=
    List.length_replicate
  refine ⟨?_, ?_, ?_⟩
  · have granted : Allocator.ample.neocGrants 2000 = true := by decide
    rw [setScript, List.length_replicate, if_neg (by decide), granted,
      if_pos rfl]
    rfl
  · rw [toJson_eq (Allocator.ample_serves (by decide))
      (Allocator.ample_serves (by rw [length]; decide))]
    rfl
  · apply not_returns_of_long JsonLibrary.byGrammar_correct
      (Allocator.ample_serves (by decide))
      (Allocator.ample_serves (by rw [length]; decide))
    rw [FitsBuffer, length]
    omega

end NeoC.Transaction
