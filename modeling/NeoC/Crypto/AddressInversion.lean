import NeoC.Crypto.Address

/-!
# What a decoder accepts

A text that Base58 decodes is the one text for its bytes: the zeros in front
are counted character by character, and the number behind them does not
start with zero.  So a text that Base58Check accepts is the encoding of its
payload, and an address that is accepted is the address of the hash in it.
-/

namespace NeoC

open Foundation

namespace Base58

/-! ## Reading characters -/

/-- A character that is decoded is the one of its digit. -/
theorem decodeChar_eq_some {character : UInt8} {digit : Nat}
    (decoded : decodeChar character = some digit) :
    digit < 58 ∧ alphabet.getD digit 0 = character := by
  rcases List.findIdx?_eq_some_iff_getElem.mp decoded with
    ⟨small, found, -⟩
  have bound : digit < 58 := by
    rwa [length_alphabet] at small
  refine ⟨bound, ?_⟩
  rw [List.getD, List.getElem?_eq_getElem small]
  exact of_decide_eq_true found

/-- Characters that are read are those of digits. -/
theorem digits_eq_ok {characters buf result : List UInt8}
    (decoded : digits characters buf = .ok result) :
    ∃ numeral : List Nat,
      (∀ digit ∈ numeral, digit < 58) ∧
        characters = numeral.map fun digit => alphabet.getD digit 0 := by
  induction characters generalizing buf with
  | nil => exact ⟨[], List.forall_mem_nil _, rfl⟩
  | cons character rest induction =>
      unfold digits at decoded
      split at decoded
      · cases decoded
      · rename_i digit value
        rcases decodeChar_eq_some value with ⟨small, same⟩
        rcases induction decoded with ⟨numeral, bounded, read⟩
        refine
          ⟨digit :: numeral, List.forall_mem_cons.mpr ⟨small, bounded⟩, ?_⟩
        rw [List.map_cons, same, ← read]

/-- The digit of a character that is not the first one is not zero. -/
theorem ne_zero_of_getD_ne {digit : Nat}
    (different : alphabet.getD digit 0 ≠ 0x31) :
    digit ≠ 0 := by
  rintro rfl
  apply different
  rw [alphabet, ascii_ofList]
  rfl

/-- The digits behind the zeros do not start with zero. -/
theorem numeral_head {text : CString} {numeral : List Nat}
    (read :
      text.characters.drop (zeros text) =
        numeral.map fun digit => alphabet.getD digit 0) :
    ∀ digit ∈ numeral.head?, digit ≠ 0 := by
  intro digit first
  rw [zeros, drop_length_takeWhile] at read
  apply ne_zero_of_getD_ne
  apply head_dropWhile_ne 0x31 text.characters
  rw [read, List.head?_map, Option.mem_def.mp first]
  rfl

/-! ## One text for some bytes -/

/-- What is read behind the zeros does not start with a zero byte. -/
theorem digits_behind_zeros {text : CString} {buf : List UInt8}
    (decoded :
      digits (text.characters.drop (zeros text)) [] = .ok buf) :
    ∃ numeral : List Nat,
      (∀ digit ∈ numeral, digit < 58) ∧
        (∀ digit ∈ numeral.head?, digit ≠ 0) ∧
        text.characters.drop (zeros text) =
          (numeral.map fun digit => alphabet.getD digit 0) ∧
        buf.map UInt8.toNat = Radix.convert 256 58 numeral := by
  rcases digits_eq_ok decoded with ⟨numeral, small, read⟩
  rcases digits_characters small [] with ⟨result, again, value⟩
  rw [read, again] at decoded
  injection decoded with same
  refine ⟨numeral, small, numeral_head read, read, ?_⟩
  rw [← same, value, List.map_nil]
  rfl

/-- The number that was read does not start with a zero byte. -/
theorem dropWhile_reverse {numeral : List Nat} {buf : List UInt8}
    (value : buf.map UInt8.toNat = Radix.convert 256 58 numeral) :
    buf.reverse.dropWhile (· = 0) = buf.reverse := by
  rcases shape : buf.reverse with _ | ⟨byte, rest⟩
  · rfl
  · have leading :
        (Radix.convert 256 58 numeral).reverse.head? = some byte.toNat := by
      rw [← value, ← List.map_reverse, shape]
      rfl
    have different : byte ≠ 0 := by
      rintro rfl
      exact Radix.convert_leading (by decide) (by decide) leading rfl
    rw [List.dropWhile_cons_of_neg (by simpa using different)]

/-- Zeros in front of a number that does not start with one are counted. -/
theorem front_of_append {count : Nat} {number : List UInt8}
    (stripped : number.dropWhile (· = 0) = number) :
    leadingZeros (List.replicate count 0 ++ number) = count ∧
      significant (List.replicate count 0 ++ number) = number := by
  have none : number.takeWhile (· = 0) = [] := by
    have parts :=
      List.takeWhile_append_dropWhile (p := (· = 0)) (l := number)
    rw [stripped] at parts
    exact List.append_left_eq_self.mp parts
  constructor
  · rw [leadingZeros, List.takeWhile_append_of_pos (by simp),
      none, List.append_nil, List.length_replicate]
  · rw [significant, List.dropWhile_append_of_pos (by simp),
      stripped]

/-- A text that is decoded is what is written for its bytes. -/
theorem encodeText_of_decode {alloc : Allocator} {text : CString}
    {bufferSize : Nat} {bytes : List UInt8}
    (decoded : decode alloc text bufferSize = .ok bytes) :
    encodeText bytes = text := by
  rw [decode] at decoded
  split at decoded
  · cases decoded
  rcases Except.bind_eq_ok_iff.mp decoded with ⟨buf, read, rest⟩
  dsimp only at rest
  split at rest
  · cases rest
  injection rest with same
  rcases digits_behind_zeros read with
    ⟨numeral, small, leading, characters, value⟩
  have stripped := dropWhile_reverse value
  rw [stripped] at same
  rcases @front_of_append (zeros text) buf.reverse stripped with
    ⟨front, behind⟩
  have back :
      encodeDigits bytes = numeral.reverse := by
    rw [encodeDigits_eq, ← same, behind, List.map_reverse, value,
      Radix.convert_convert (by decide) (by decide) small leading]
  have written : encodeCharacters bytes = text.characters := by
    rw [encodeCharacters, back, List.reverse_reverse, ← characters, ← same,
      front, zeros, drop_length_takeWhile, replicate_append_dropWhile]
  rw [encodeText, written, CString.ofBuffer_characters]

/-- A text that is accepted is what is written for its payload. -/
theorem checkDecode_eq_ok {host : Host} {alloc : Allocator}
    {text : CString} {bufferSize : Nat} {payload : List UInt8}
    (decoded : checkDecode host alloc text bufferSize = .ok payload) :
    text = encodeText (checked host payload) ∧
      host.cryptoInitialized = true := by
  unfold checkDecode at decoded
  dsimp only at decoded
  split at decoded
  · cases decoded
  split at decoded
  · cases decoded
  rcases Except.bind_eq_ok_iff.mp decoded with ⟨temp, raw, rest⟩
  split at rest
  · cases rest
  rcases Except.bind_eq_ok_iff.mp rest with ⟨hash, hashed, rest⟩
  split at rest
  · cases rest
  rename_i agrees
  split at rest
  · cases rest
  injection rest with same
  have whole : checked host payload = temp := by
    have parts := List.take_append_drop (temp.length - 4) temp
    rw [not_ne_iff.mp agrees, Host.sha256Double_eq_ok hashed, same] at parts
    exact parts
  rw [whole]
  exact
    ⟨(encodeText_of_decode raw).symm,
      Host.initialized_of_sha256Double hashed⟩

/-- A text that is accepted had memory for both buffers. -/
theorem grants_of_checkDecode {host : Host} {alloc : Allocator}
    {text : CString} {bufferSize : Nat} {payload : List UInt8}
    (decoded : checkDecode host alloc text bufferSize = .ok payload) :
    alloc.neocGrants (decodeBufferSize text) = true ∧
      alloc.neocGrants (text.strlen * 733 / 1000 + 1) = true := by
  unfold checkDecode at decoded
  dsimp only at decoded
  split at decoded
  · cases decoded
  split at decoded
  · cases decoded
  rename_i granted
  rcases Except.bind_eq_ok_iff.mp decoded with ⟨temp, raw, -⟩
  rw [decode] at raw
  split at raw
  · cases raw
  rename_i granted'
  exact ⟨Bool.not_eq_false _ ▸ granted, Bool.not_eq_false _ ▸ granted'⟩

/-! ## Encoding with memory -/

theorem strlen_encodeText_le (data : List UInt8) :
    (encodeText data).strlen ≤ data.length * 138 / 100 + 1 := by
  have parts := length_significant data
  have digits := length_encodeDigits data
  rw [strlen_encodeText]
  omega

theorem encode_eq {alloc : Allocator} {data : List UInt8}
    {bufferSize : Nat} (some : data ≠ [])
    (granted : alloc.neocGrants (data.length * 138 / 100 + 1) = true)
    (room : (encodeText data).strlen < bufferSize) :
    encode alloc data bufferSize = .ok (encodeText data) := by
  rw [strlen_encodeText] at room
  rw [encode, if_neg (by simpa using some), if_neg (by simp [granted]),
    if_neg (by omega)]
  rfl

/-- With the memory for both buffers a payload is encoded. -/
theorem checkEncode_of_grants {host : Host} {alloc : Allocator}
    {data : List UInt8} {bufferSize : Nat}
    (initialized : host.cryptoInitialized = true)
    (granted : alloc.neocGrants (data.length + 4) = true)
    (granted' :
      alloc.neocGrants ((data.length + 4) * 138 / 100 + 1) = true)
    (room : (encodeText (checked host data)).strlen < bufferSize) :
    checkEncode host alloc data bufferSize =
      .ok (encodeText (checked host data)) := by
  have length := @length_checked host data
  have some : checked host data ≠ [] := by
    intro none
    rw [none, List.length_nil] at length
    omega
  have encoded :=
    @encode_eq alloc (checked host data) bufferSize some
      (by rw [length]; exact granted') room
  refine
    Except.bind_eq_ok_iff.mpr
      ⟨_, Host.sha256Double_of_initialized initialized data, ?_⟩
  rw [if_neg (by simp [granted])]
  exact encoded

/-- With memory and room, a payload is encoded with its checksum. -/
theorem checkEncode_eq {host : Host} {alloc : Allocator}
    {data : List UInt8} {bufferSize : Nat}
    (initialized : host.cryptoInitialized = true)
    (serves : alloc.Serves ((data.length + 4) * 138 / 100 + 1))
    (room : (encodeText (checked host data)).strlen < bufferSize) :
    checkEncode host alloc data bufferSize =
      .ok (encodeText (checked host data)) :=
  checkEncode_of_grants initialized
    (serves.neocGrants (Nat.succ_pos _) (by omega))
    (serves.neocGrants (Nat.succ_pos _) le_rfl) room

end Base58

/-! ## Addresses -/

namespace Hash160

variable {host : Host} {alloc : Allocator} {hash : Hash160}

/-- The bytes that an address encodes. -/
def addressBytes (hash : Hash160) : List UInt8 :=
  addressVersion :: hash.val.reverse

theorem length_addressBytes (hash : Hash160) :
    hash.addressBytes.length = 21 := by
  rw [addressBytes, List.length_cons, List.length_reverse, hash.property]

/-- The text of the address of a hash. -/
def addressText (host : Host) (hash : Hash160) : CString :=
  Base58.encodeText (Base58.checked host hash.addressBytes)

theorem strlen_addressText_le (host : Host) (hash : Hash160) :
    (addressText host hash).strlen ≤ 35 := by
  have short :=
    Base58.strlen_encodeText_le (Base58.checked host hash.addressBytes)
  rw [Base58.length_checked, length_addressBytes] at short
  exact short

theorem strlen_addressText_pos (host : Host) (hash : Hash160) :
    0 < (addressText host hash).strlen := by
  have length := length_addressBytes hash
  have checkedLength :=
    @Base58.length_checked host hash.addressBytes
  have some : Base58.checked host hash.addressBytes ≠ [] := by
    apply List.length_pos_iff.mp
    omega
  have sizes := Base58.decodeBufferSize_encodeText some
  rw [addressText]
  omega

/-- Whatever the memory is, an address that is made is this text. -/
theorem toAddress_text {bufferSize : Nat} {address : CString}
    (addressed : toAddress host alloc hash bufferSize = .ok address) :
    address = addressText host hash ∧ host.cryptoInitialized = true :=
  Base58.checkEncodeAlloc_eq_some (toAddress_eq_ok addressed)

/-- The sizes of the three buffers on the way to an address. -/
def addressSizes : List Nat :=
  [36, 25, 35]

/-- With the memory for these buffers a hash has an address. -/
theorem toAddress_of_grants {bufferSize : Nat}
    (initialized : host.cryptoInitialized = true)
    (granted : ∀ size ∈ addressSizes, alloc.neocGrants size = true)
    (room : 35 < bufferSize) :
    toAddress host alloc hash bufferSize =
      .ok (addressText host hash) := by
  have short := strlen_addressText_le host hash
  have length := length_addressBytes hash
  have granted' :
      alloc.neocGrants
          (Base58.encodeBufferSize (hash.addressBytes.length + 4)) =
        true := by
    rw [length]
    exact granted 36 (by decide)
  have encoded :
      Base58.checkEncode host alloc hash.addressBytes
          (Base58.encodeBufferSize (hash.addressBytes.length + 4)) =
        .ok (addressText host hash) := by
    apply Base58.checkEncode_of_grants initialized
    · rw [length]
      exact granted 25 (by decide)
    · rw [length]
      exact granted 35 (by decide)
    · rw [length]
      exact Nat.lt_of_le_of_lt short (by decide)
  have text :
      Base58.checkEncodeAlloc host alloc
          (addressVersion :: hash.val.reverse) =
        some (addressText host hash) := by
    rw [Base58.checkEncodeAlloc]
    rw [show addressVersion :: hash.val.reverse = hash.addressBytes from
      rfl]
    rw [if_neg (by simp [granted']), encoded]
  rw [toAddress, text]
  dsimp only
  rw [if_neg (by omega)]

/-- A hash whose address was made had the memory for these buffers. -/
theorem grants_of_toAddress {bufferSize : Nat} {address : CString}
    (addressed : toAddress host alloc hash bufferSize = .ok address) :
    ∀ size ∈ addressSizes, alloc.neocGrants size = true := by
  have length := length_addressBytes hash
  have checkedLength := @Base58.length_checked host hash.addressBytes
  have text := toAddress_eq_ok addressed
  change Base58.checkEncodeAlloc host alloc hash.addressBytes = _ at text
  rw [Base58.checkEncodeAlloc, length] at text
  split at text
  · cases text
  rename_i whole
  split at text
  · cases text
  rename_i encoded
  rcases Except.bind_eq_ok_iff.mp encoded with ⟨digest, digested, rest⟩
  rw [Host.sha256Double_eq_ok digested, length] at rest
  change
    (if alloc.neocGrants 25 = false then _
      else Base58.encode alloc (Base58.checked host hash.addressBytes) _) =
      _ at rest
  split at rest
  · cases rest
  rename_i sum
  rw [Base58.encode, checkedLength, length, if_neg (by decide)] at rest
  split at rest
  · cases rest
  rename_i digits
  rw [Bool.not_eq_false] at whole sum digits
  simp only [addressSizes, List.forall_mem_cons]
  exact ⟨whole, sum, digits, List.forall_mem_nil _⟩

/-- With memory, every hash has an address. -/
theorem toAddress_eq {bufferSize : Nat}
    (initialized : host.cryptoInitialized = true)
    (serves : alloc.Serves 64) (room : 35 < bufferSize) :
    toAddress host alloc hash bufferSize =
      .ok (addressText host hash) := by
  refine toAddress_of_grants initialized ?_ room
  simp only [addressSizes, List.forall_mem_cons]
  refine ⟨?_, ?_, ?_, List.forall_mem_nil _⟩
  all_goals exact serves.neocGrants (by decide) (by decide)

/-- An address that is accepted is the address of the hash in it. -/
theorem fromAddress_eq_ok {address : CString}
    (parsed : fromAddress host alloc address = .ok hash) :
    address = addressText host hash ∧ host.cryptoInitialized = true := by
  rw [fromAddress] at parsed
  split at parsed
  · cases parsed
  rename_i payload decoded
  rw [Base58.checkDecodeAlloc] at decoded
  split at decoded
  · cases decoded
  split at decoded
  · cases decoded
  split at decoded
  · cases decoded
  rename_i bytes checked
  split at decoded
  · cases decoded
  injection decoded with same
  subst same
  split at parsed
  · rename_i length
    split at parsed
    · cases parsed
    · rename_i version
      injection parsed with same
      rcases Base58.checkDecode_eq_ok checked with ⟨text, initialized⟩
      refine ⟨?_, initialized⟩
      have shape : bytes = addressBytes hash := by
        rcases bytes with _ | ⟨first, rest⟩
        · cases length
        · have leading : first = addressVersion := not_ne_iff.mp version
          rw [addressBytes, ← same, leading]
          simp
      rw [text, shape, addressText]
  · cases parsed

/-- The address of a hash is read as the hash. -/
theorem fromAddress_addressText
    (initialized : host.cryptoInitialized = true)
    (serves : alloc.Serves 64) :
    fromAddress host alloc (addressText host hash) = .ok hash := by
  have addressed :=
    @toAddress_eq host alloc hash 64 initialized serves (by decide)
  have short := strlen_addressText_le host hash
  have decoded :=
    checkDecodeAlloc_toAddress addressed
      (serves.mono (by omega) :
        alloc.Serves ((addressText host hash).strlen + 1))
  rw [fromAddress, decoded]
  dsimp only
  rw [dif_pos (by
    rw [List.length_cons, toLittleEndianBytes, List.length_reverse,
      hash.property])]
  rw [if_neg (by simp)]
  congr 1
  apply Subtype.ext
  change hash.val.reverse.reverse = hash.val
  exact List.reverse_reverse hash.val

/-- Different hashes have different addresses. -/
theorem addressText_injective
    (initialized : host.cryptoInitialized = true) {other : Hash160}
    (same : addressText host hash = addressText host other) :
    hash = other := by
  have serves : Allocator.ample.Serves 64 :=
    Allocator.ample_serves (by decide)
  have first := @fromAddress_addressText host _ hash initialized serves
  have second := @fromAddress_addressText host _ other initialized serves
  rw [same, second] at first
  injection first with equal
  exact equal.symm

/--
Script hashes and addresses are in bijection.  Every hash has an address that
is read as the hash, every address that is accepted is the one of its hash,
and so no two addresses stand for one hash.
-/
theorem fromAddress_toAddress_bijection
    (initialized : host.cryptoInitialized = true)
    (serves : alloc.Serves 64)
    {bufferSize : Nat}
    (room : 35 < bufferSize) :
    (∀ hash,
        ∃ address,
          toAddress host alloc hash bufferSize = .ok address ∧
            fromAddress host alloc address = .ok hash) ∧
      (∀ memory address hash,
        fromAddress host memory address = .ok hash →
          toAddress host alloc hash bufferSize = .ok address) ∧
      ∀ memory memory' address address' hash,
        fromAddress host memory address = .ok hash →
          fromAddress host memory' address' = .ok hash →
            address = address' := by
  refine ⟨?_, ?_, ?_⟩
  · intro hash
    exact
      ⟨addressText host hash, toAddress_eq initialized serves room,
        fromAddress_addressText initialized serves⟩
  · intro memory address hash parsed
    rw [(fromAddress_eq_ok parsed).1]
    exact toAddress_eq initialized serves room
  · intro memory memory' address address' hash parsed parsed'
    rw [(fromAddress_eq_ok parsed).1, (fromAddress_eq_ok parsed').1]

/-- SHA-256, once and twice, of the payload of the zero address. -/
def zeroAddressDigests : List (List UInt8 × Bytes 32) :=
  Host.twiceDigests (0x35 :: List.replicate 20 0)
    0x81906F92850808ABEA698B668C93C550D32EA984D70700CF1D3E6D784A54F1E4
    0xE46CD1D8D522ECD1FEBCA60F87B4ACD4F82AE0D23CB0DB5B4A177F991FE652CD

/-- A host that knows the digests of the zero address. -/
def zeroHost : Host :=
  Host.ofTables zeroAddressDigests []

/-- The address of the zero hash. -/
def zeroAddress : CString :=
  CString.ofString "NKuyBkoGdZZSLyPbJEetheRhMjeznFZszf"

theorem zeroAddress_eq :
    zeroAddress = addressText zeroHost (Bytes.zero 20) := by
  rw [addressText, Base58.encodeText, Base58.encodeCharacters,
    Base58.alphabet, ascii_ofList]
  decide +kernel

/-- The zero hash and its address stand for each other. -/
theorem zeroAddress_bijection :
    fromAddress zeroHost .ample zeroAddress = .ok (Bytes.zero 20) ∧
      toAddress zeroHost .ample (Bytes.zero 20) 64 = .ok zeroAddress := by
  have parsed :
      fromAddress zeroHost .ample zeroAddress = .ok (Bytes.zero 20) := by
    rw [zeroAddress_eq]
    exact fromAddress_addressText rfl (Allocator.ample_serves (by decide))
  have bijection :=
    @fromAddress_toAddress_bijection zeroHost .ample rfl
      (Allocator.ample_serves (by decide)) 64 (by decide)
  exact ⟨parsed, bijection.2.1 .ample zeroAddress (Bytes.zero 20) parsed⟩

end Hash160

end NeoC
