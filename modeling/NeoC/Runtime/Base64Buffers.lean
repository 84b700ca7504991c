import NeoC.Runtime.Base64
import NeoC.Runtime.Cells

/-!
# The buffers behind Base64

The decoder writes three bytes for every group of four characters, except for
those beyond the length that it has computed from the last two characters.
That length is compared with the room before anything is written, so no index
leaves the buffer, whatever the characters are.  The variant for URLs
translates two characters of the alphabet on the way out and on the way in.
-/

namespace NeoC

open Foundation

namespace Base64

/-! ## Encoding into a buffer -/

/-- `neoc_base64_encode`. -/
def encode (data : List UInt8) (bufferSize : Nat) : Outcome CString :=
  if bufferSize < (data.length + 2) / 3 * 4 + 1 then
    .error (.error .bufferTooSmall "Buffer too small")
  else
    .ok (text data)

/-- `+` and `/` as they stand in a URL. -/
def toUrl (character : UInt8) : UInt8 :=
  if character = 0x2B then 0x2D
  else if character = 0x2F then 0x5F
  else character

/-- `-` and `_` as they stand in the alphabet. -/
def ofUrl (character : UInt8) : UInt8 :=
  if character = 0x2D then 0x2B
  else if character = 0x5F then 0x2F
  else character

/-- `neoc_base64_url_encode`. -/
def urlEncode (data : List UInt8) (bufferSize : Nat) : Outcome CString := do
  let encoded ← encode data bufferSize
  .ok (CString.ofBuffer (encoded.characters.map toUrl))

/-- A group with a character of no value is refused. -/
theorem decodeChunks_unread {first second third fourth : UInt8}
    (unread :
      ∀ a b c d,
        charValue first = some a → charValue second = some b →
          charValue third = some c → charValue fourth = some d → False)
    (rest : List UInt8) :
    decodeChunks (first :: second :: third :: fourth :: rest) =
      .error (.error .invalidFormat "Invalid base64 character") := by
  rw [decodeChunks]
  split
  · rename_i a b c d firstRead secondRead thirdRead fourthRead
    exact absurd fourthRead (unread a b c d firstRead secondRead thirdRead)
  · rfl

namespace InPlace

/-! ## Decoding into a buffer -/

/-- `if (index < output_len) buffer[index] = byte;`. -/
def put (outputLen index : Nat) (byte : UInt8) (buffer : Cells UInt8) :
    Outcome (Cells UInt8) :=
  if index < outputLen then
    buffer.store index (Cells.written [byte])
  else
    .ok buffer

/-- The three bytes of a group. -/
def putChunk (outputLen j chunk : Nat) (buffer : Cells UInt8) :
    Outcome (Cells UInt8) := do
  let buffer ← put outputLen j (UInt8.ofNat (chunk / 0x10000)) buffer
  let buffer ← put outputLen (j + 1) (UInt8.ofNat (chunk / 0x100)) buffer
  put outputLen (j + 2) (UInt8.ofNat chunk) buffer

/-- The loop of `neoc_base64_decode`. -/
def decodeLoop (outputLen : Nat) :
    (encoded : List UInt8) → (j : Nat) → (buffer : Cells UInt8) →
      Outcome (Cells UInt8)
  | first :: second :: third :: fourth :: rest, j, buffer =>
      match charValue first, charValue second, charValue third,
          charValue fourth with
      | some first, some second, some third, some fourth => do
          let buffer ←
            putChunk outputLen j
              (first * 0x40000 + second * 0x1000 + third * 0x40 + fourth)
              buffer
          decodeLoop outputLen rest (j + 3) buffer
      | _, _, _, _ =>
          .error (.error .invalidFormat "Invalid base64 character")
  | _, _, buffer => .ok buffer

/-- `neoc_base64_decode`: the buffer afterwards, and the decoded length. -/
def decode (encoded : CString) (buffer : Cells UInt8) :
    Outcome (Cells UInt8 × Nat) :=
  if encoded.strlen % 4 ≠ 0 then
    .error (.error .invalidFormat "Invalid base64 string length")
  else
    let outputLen :=
      encoded.strlen / 4 * 3 - paddingCount encoded.characters
    if buffer.length < outputLen then
      .error (.error .bufferTooSmall "Buffer too small")
    else do
      let buffer ← decodeLoop outputLen encoded.characters 0 buffer
      .ok (buffer, outputLen)

/--
`neoc_base64_decode_alloc`; `none` is the `NULL` that it returns for an error
code.
-/
def decodeAlloc (alloc : Allocator) (encoded : CString) :
    Outcome (Option (Cells UInt8 × Nat)) :=
  let bufferSize := decodeBufferSize encoded
  if bufferSize = 0 then
    .ok none
  else if alloc.neocGrants bufferSize = false then
    .ok none
  else
    match decode encoded (Cells.fresh bufferSize) with
    | .error (.error _ _) => .ok none
    | .error reason => .error reason
    | .ok decoded => .ok (some decoded)

/-- `neoc_base64_url_decode`. -/
def urlDecode (alloc : Allocator) (encoded : CString)
    (buffer : Cells UInt8) : Outcome (Cells UInt8 × Nat) :=
  if alloc.neocGrants (sizeAdd encoded.strlen 1) = false then
    .error (.error .outOfMemory "base64_url_decode: allocation failed")
  else
    decode (CString.ofBuffer (encoded.characters.map ofUrl)) buffer

/-! ## The loop stays inside -/

/-- A buffer with some bytes at its front, up to the output length. -/
def filled (outputLen : Nat) (bytes : List UInt8) (buffer : Cells UInt8) :
    Cells UInt8 :=
  Cells.written (bytes.take outputLen) ++
    buffer.drop (min bytes.length outputLen)

variable {outputLen : Nat} {buffer : Cells UInt8}

theorem put_filled (room : outputLen ≤ buffer.length) (bytes : List UInt8)
    (byte : UInt8) :
    put outputLen bytes.length byte (filled outputLen bytes buffer) =
      .ok (filled outputLen (bytes ++ [byte]) buffer) := by
  have length : (bytes ++ [byte]).length = bytes.length + 1 :=
    List.length_append
  rw [put, filled, filled, length]
  split
  · rename_i short
    rw [List.take_of_length_le (Nat.le_of_lt short),
      List.take_of_length_le (by omega), Nat.min_eq_left (by omega),
      Nat.min_eq_left (by omega)]
    have inside : bytes.length < buffer.length := by
      omega
    rw [List.drop_eq_getElem_cons inside, Cells.written_append,
      List.append_assoc]
    have stored :=
      @Cells.store_append UInt8 (Cells.written bytes) [buffer[bytes.length]]
        (Cells.written [byte]) (buffer.drop (bytes.length + 1)) rfl
    rwa [Cells.length_written] at stored
  · rename_i long
    rw [List.take_append_of_le_length (by omega),
      Nat.min_eq_right (by omega), Nat.min_eq_right (by omega)]

theorem putChunk_filled (room : outputLen ≤ buffer.length)
    (bytes : List UInt8) (chunk : Nat) :
    putChunk outputLen bytes.length chunk (filled outputLen bytes buffer) =
      .ok (filled outputLen (bytes ++ chunkBytes chunk) buffer) := by
  have first := put_filled room bytes (UInt8.ofNat (chunk / 0x10000))
  have second :=
    put_filled room (bytes ++ [UInt8.ofNat (chunk / 0x10000)])
      (UInt8.ofNat (chunk / 0x100))
  have third :=
    put_filled room
      (bytes ++ [UInt8.ofNat (chunk / 0x10000)] ++
        [UInt8.ofNat (chunk / 0x100)])
      (UInt8.ofNat chunk)
  rw [List.length_append, List.length_singleton] at second
  rw [List.length_append, List.length_append, List.length_singleton]
    at third
  rw [putChunk]
  refine (Except.bind_of_ok first _).trans ?_
  refine (Except.bind_of_ok second _).trans ?_
  refine third.trans ?_
  rw [List.append_assoc, List.append_assoc]
  rfl

theorem length_chunkBytes (chunk : Nat) : (chunkBytes chunk).length = 3 :=
  rfl

/-- The loop writes the bytes of all groups, up to the output length. -/
theorem decodeLoop_filled (room : outputLen ≤ buffer.length)
    (encoded bytes : List UInt8) :
    decodeLoop outputLen encoded bytes.length
        (filled outputLen bytes buffer) =
      (decodeChunks encoded).map fun decoded =>
        filled outputLen (bytes ++ decoded) buffer := by
  induction encoded using decodeChunks.induct generalizing bytes with
  | case1 first second third fourth rest a b c d fourthRead thirdRead
      secondRead firstRead induction =>
      have written :=
        putChunk_filled room bytes
          (a * 0x40000 + b * 0x1000 + c * 0x40 + d)
      rw [decodeLoop, decodeChunks, firstRead, secondRead, thirdRead,
        fourthRead]
      refine (Except.bind_of_ok written _).trans ?_
      rw [← length_chunkBytes (a * 0x40000 + b * 0x1000 + c * 0x40 + d),
        ← List.length_append, induction]
      cases decodeChunks rest with
      | error reason => rfl
      | ok decoded =>
          exact
            congrArg
              (fun bytes => Except.ok (filled outputLen bytes buffer))
              (List.append_assoc _ _ _)
  | case2 first second third fourth rest unread =>
      have refused {result : Type}
          (next : Nat → Nat → Nat → Nat → Outcome result) :
          (match charValue first, charValue second, charValue third,
              charValue fourth with
            | some a, some b, some c, some d => next a b c d
            | _, _, _, _ =>
                .error (.error .invalidFormat "Invalid base64 character")) =
            .error (.error .invalidFormat "Invalid base64 character") := by
        split
        · rename_i a b c d firstRead secondRead thirdRead fourthRead
          exact absurd fourthRead
            (unread a b c d firstRead secondRead thirdRead)
        · rfl
      rw [decodeLoop, decodeChunks]
      exact (refused _).trans (congrArg (Except.map _) (refused _)).symm
  | case3 short none =>
      rw [decodeLoop, decodeChunks]
      · exact
          congrArg (fun bytes => Except.ok (filled outputLen bytes buffer))
            (List.append_nil _).symm
      · exact none
      · exact none

/-- Four characters make three bytes. -/
theorem length_decodeChunks {encoded bytes : List UInt8}
    (decoded : decodeChunks encoded = .ok bytes) :
    bytes.length = encoded.length / 4 * 3 := by
  induction encoded using decodeChunks.induct generalizing bytes with
  | case1 first second third fourth rest a b c d fourthRead thirdRead
      secondRead firstRead induction =>
      rw [decodeChunks, firstRead, secondRead, thirdRead, fourthRead]
        at decoded
      rcases Except.bind_eq_ok_iff.mp decoded with ⟨later, found, same⟩
      injection same with same
      rw [← same, List.length_append, length_chunkBytes, induction found]
      simp only [List.length_cons]
      omega
  | case2 first second third fourth rest unread =>
      rw [decodeChunks_unread unread] at decoded
      cases decoded
  | case3 short none =>
      rw [decodeChunks] at decoded
      · injection decoded with same
        rw [← same]
        rcases short with _ | ⟨a, _ | ⟨b, _ | ⟨c, _ | ⟨d, rest⟩⟩⟩⟩
        · rfl
        · simp
        · simp
        · simp
        · exact absurd rfl (none a b c d rest)
      · exact none

/-- Into a buffer, the decoder decodes what it decodes on lists. -/
theorem decode_eq (encoded : CString) (buffer : Cells UInt8) :
    decode encoded buffer =
      (Base64.decode encoded buffer.length).map fun bytes =>
        (Cells.written bytes ++ buffer.drop bytes.length, bytes.length) := by
  rw [decode, Base64.decode]
  split
  · rfl
  dsimp only
  split
  · rfl
  rename_i _ fits
  have written :=
    decodeLoop_filled (Nat.le_of_not_lt fits) encoded.characters []
  have start :
      filled
          (encoded.strlen / 4 * 3 - paddingCount encoded.characters) []
          buffer =
        buffer := by
    rw [filled, List.take_nil, List.length_nil, Nat.zero_min, List.drop_zero]
    rfl
  rw [start, List.length_nil] at written
  rw [written]
  cases found : decodeChunks encoded.characters with
  | error reason => rfl
  | ok bytes =>
      have length := length_decodeChunks found
      rw [← CString.strlen] at length
      have cut :
          (bytes.take
            (encoded.strlen / 4 * 3 - paddingCount encoded.characters)
            ).length =
            encoded.strlen / 4 * 3 - paddingCount encoded.characters := by
        rw [List.length_take, length]
        omega
      change
        Except.ok (filled _ ([] ++ bytes) buffer, _) =
          Except.ok (_ ++ buffer.drop (List.length _), List.length _)
      rw [cut, filled, List.nil_append, Nat.min_eq_right (by omega)]

/-! ## Bounds -/

/-- A character is all that can go wrong in the loop. -/
theorem decodeChunks_eq_error {encoded : List UInt8} {reason : Halt}
    (failed : decodeChunks encoded = .error reason) :
    reason = .error .invalidFormat "Invalid base64 character" := by
  induction encoded using decodeChunks.induct with
  | case1 first second third fourth rest a b c d fourthRead thirdRead
      secondRead firstRead induction =>
      rw [decodeChunks, firstRead, secondRead, thirdRead, fourthRead]
        at failed
      cases found : decodeChunks rest with
      | error other =>
          rw [found] at failed induction
          exact induction failed
      | ok bytes =>
          rw [found] at failed
          cases failed
  | case2 first second third fourth rest unread =>
      rw [decodeChunks_unread unread] at failed
      injection failed with same
      exact same.symm
  | case3 short none =>
      rw [decodeChunks] at failed
      · cases failed
      · exact none

/-- The decoder returns a result or an error code. -/
theorem decode_eq_error {encoded : CString} {buffer : Cells UInt8}
    {reason : Halt} (failed : decode encoded buffer = .error reason) :
    ∃ code text, reason = .error code text := by
  rw [decode_eq, Base64.decode] at failed
  split at failed
  · cases failed
    exact ⟨_, _, rfl⟩
  dsimp only at failed
  split at failed
  · cases failed
    exact ⟨_, _, rfl⟩
  cases found : decodeChunks encoded.characters with
  | error other =>
      rw [found] at failed
      injection failed with same
      rw [← same, decodeChunks_eq_error found]
      exact ⟨_, _, rfl⟩
  | ok bytes =>
      rw [found] at failed
      cases failed

theorem decode_stays_inside (encoded : CString) (buffer : Cells UInt8) :
    decode encoded buffer ≠ .error .illegalAccess := by
  intro failed
  rcases decode_eq_error failed with ⟨code, text, absurdity⟩
  cases absurdity

theorem decodeAlloc_stays_inside (alloc : Allocator) (encoded : CString) :
    decodeAlloc alloc encoded ≠ .error .illegalAccess := by
  rw [decodeAlloc]
  split
  · exact fun same => by cases same
  split
  · exact fun same => by cases same
  split
  · exact fun same => by cases same
  · rename_i reason coded failed
    rcases decode_eq_error failed with ⟨code, text, rfl⟩
    exact absurd rfl (coded code text)
  · exact fun same => by cases same

/-! ## Round trips -/

theorem encode_eq {data : List UInt8} {bufferSize : Nat}
    (room : encodeBufferSize data.length ≤ bufferSize) :
    encode data bufferSize = .ok (text data) := by
  rw [encodeBufferSize] at room
  rw [encode, if_neg (by omega)]

theorem decode_text_buffer {data : List UInt8} {buffer : Cells UInt8}
    (room : data.length ≤ buffer.length) :
    decode (text data) buffer =
      .ok
        (Cells.written data ++ buffer.drop data.length, data.length) := by
  rw [decode_eq, decode_text room]
  rfl

/-- The text for a URL. -/
def urlText (data : List UInt8) : CString :=
  CString.ofBuffer ((encodeCharacters data).map toUrl)

/-- No character of a text is one of the two for URLs. -/
theorem ofUrl_toUrl {character : UInt8}
    (member : character ∈ alphabet ∨ character = padding) :
    ofUrl (toUrl character) = character ∧ toUrl character ≠ 0 := by
  have all :
      (alphabet ++ [padding]).all fun character =>
        decide
          (ofUrl (toUrl character) = character ∧ toUrl character ≠ 0) := by
    rw [alphabet, ascii_ofList]
    decide +kernel
  refine of_decide_eq_true (List.all_eq_true.mp all character ?_)
  rcases member with member | rfl
  · exact List.mem_append_left _ member
  · exact List.mem_append_right _ List.mem_cons_self

/-- The characters of a text are those of the alphabet and the padding. -/
theorem known_encodeCharacters (data : List UInt8) :
    ∀ character ∈ encodeCharacters data,
      character ∈ alphabet ∨ character = padding := by
  refine forall_encodeCharacters ?_ (.inr rfl) data
  intro bits small
  have inside : bits < alphabet.length := by
    rwa [alphabet, ascii_ofList]
  rw [character, List.getD_eq_getElem?_getD,
    List.getElem?_eq_getElem inside]
  exact .inl (List.getElem_mem inside)

theorem characters_urlText (data : List UInt8) :
    (urlText data).characters = (encodeCharacters data).map toUrl := by
  apply CString.characters_ofBuffer
  intro member
  rcases List.mem_map.mp member with ⟨character, inside, zero⟩
  exact (ofUrl_toUrl (known_encodeCharacters data character inside)).2 zero

theorem ofUrl_urlText (data : List UInt8) :
    CString.ofBuffer ((urlText data).characters.map ofUrl) = text data := by
  have back : ((encodeCharacters data).map toUrl).map ofUrl =
      encodeCharacters data := by
    rw [List.map_map]
    refine (List.map_congr_left ?_).trans (List.map_id _)
    intro character inside
    exact (ofUrl_toUrl (known_encodeCharacters data character inside)).1
  rw [characters_urlText, back, text]

theorem urlEncode_eq {data : List UInt8} {bufferSize : Nat}
    (room : encodeBufferSize data.length ≤ bufferSize) :
    urlEncode data bufferSize = .ok (urlText data) := by
  refine (Except.bind_of_ok (encode_eq room) _).trans ?_
  rw [characters_text]
  rfl

theorem strlen_text_eq (data : List UInt8) :
    (text data).strlen = encodeBufferSize data.length - 1 := by
  rw [strlen_text, encodeBufferSize, Nat.add_sub_cancel]

theorem strlen_urlText (data : List UInt8) :
    (urlText data).strlen = encodeBufferSize data.length - 1 := by
  rw [CString.strlen, characters_urlText, List.length_map,
    ← characters_text, ← CString.strlen, strlen_text_eq]

/--
Base64 is exact in both alphabets: bytes come back from their text, which has
the length that was announced; and no string whatever makes a decoder leave
its buffer.
-/
theorem roundTrips_and_inside :
    (∀ (data : List UInt8) (bufferSize : Nat),
      encodeBufferSize data.length ≤ bufferSize →
        ∃ plain url,
          encode data bufferSize = .ok plain ∧
            urlEncode data bufferSize = .ok url ∧
            plain.strlen = encodeBufferSize data.length - 1 ∧
            url.strlen = encodeBufferSize data.length - 1 ∧
            ∀ buffer : Cells UInt8,
              data.length ≤ buffer.length →
                decode plain buffer =
                    .ok
                      (Cells.written data ++ buffer.drop data.length,
                        data.length) ∧
                  ∀ alloc : Allocator,
                    alloc.neocGrants (sizeAdd url.strlen 1) = true →
                      urlDecode alloc url buffer =
                        .ok
                          (Cells.written data ++ buffer.drop data.length,
                            data.length)) ∧
      ∀ encoded : CString,
        (∀ buffer : Cells UInt8,
          decode encoded buffer ≠ .error .illegalAccess) ∧
          ∀ alloc : Allocator,
            decodeAlloc alloc encoded ≠ .error .illegalAccess := by
  refine ⟨?_, ?_⟩
  · intro data bufferSize room
    refine
      ⟨text data, urlText data, encode_eq room, urlEncode_eq room,
        strlen_text_eq data, strlen_urlText data, ?_⟩
    intro buffer fits
    have decoded := decode_text_buffer fits
    refine ⟨decoded, ?_⟩
    intro alloc granted
    rw [urlDecode, granted, if_neg (by decide), ofUrl_urlText, decoded]
  · intro encoded
    exact
      ⟨decode_stays_inside encoded,
        fun alloc => decodeAlloc_stays_inside alloc encoded⟩

theorem roundTrips_and_inside_letter :
    decode (CString.ofString "YQ==") (Cells.fresh 2) =
      .ok ([some 0x61, none], 1) := by
  rcases roundTrips_and_inside.1 [0x61] 5 (by decide) with
    ⟨plain, url, encoded, -, -, -, decoded⟩
  have same : plain = CString.ofString "YQ==" := by
    rw [encode_eq (by decide)] at encoded
    injection encoded with equal
    rw [← equal, text, encodeCharacters]
    simp only [encodeChunk, character]
    rw [alphabet, ascii_ofList]
    decide +kernel
  rw [← same]
  exact (decoded (Cells.fresh 2) (by decide)).1

end InPlace

end Base64

end NeoC
