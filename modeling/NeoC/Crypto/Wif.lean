import NeoC.Crypto.AddressInversion

/-!
# The wallet import format

A private key travels as text: a version byte, the 32 bytes of the key and a
flag that says that its public key is compressed, under Base58Check.  The text
goes into a buffer of 64 bytes, which is never filled, and reading it back
checks everything that was written around the key.  So a key and its text
stand for each other.
-/

namespace NeoC

open Foundation

namespace Wif

/-- `WIF_VERSION`. -/
def version : UInt8 := 0x80

/-- `WIF_COMPRESSED_FLAG`. -/
def compressedFlag : UInt8 := 0x01

/-- `WIF_MAX_LENGTH`. -/
def maxLength : Nat := 64

/-- `WIF_DECODED_MAX_LENGTH`. -/
def decodedMaxLength : Nat := 40

/-- `neoc_private_key_to_wif`. -/
def ofPrivateKey (host : Host) (alloc : Allocator)
    (privateKey : Bytes 32) : Outcome CString :=
  if alloc.neocGrants maxLength = false then
    .error (.error .outOfMemory "Failed to allocate WIF string")
  else
    Base58.checkEncode host alloc
      (version :: (privateKey.val ++ [compressedFlag])) maxLength

/-- `neoc_wif_to_private_key`. -/
def toPrivateKey (host : Host) (alloc : Allocator) (wif : CString) :
    Outcome (Bytes 32) := do
  let decoded ← Base58.checkDecode host alloc wif decodedMaxLength
  if decoded.length ≠ 34 then
    .error
      (.error .invalidFormat
        "Invalid WIF length - expected compressed key payload")
  else if decoded.getD 0 0 ≠ version then
    .error (.error .invalidFormat "Invalid WIF version")
  else if decoded.getD 33 0 ≠ compressedFlag then
    .error
      (.error .invalidFormat "NEO only supports compressed WIF format")
  else if alloc.neocGrants 32 = false then
    .error (.error .outOfMemory "Failed to allocate private key")
  else
    .ok (Bytes.fill 32 (decoded.drop 1))

section Bijection

variable {host : Host} {alloc : Allocator}

/-- `neoc_wif_is_valid`. -/
def isValid (host : Host) (alloc : Allocator) (wif : CString) : Bool :=
  (toPrivateKey host alloc wif).isOk

/-! ## What is encoded -/

/-- The payload of a private key. -/
def payload (privateKey : Bytes 32) : List UInt8 :=
  version :: (privateKey.val ++ [compressedFlag])

theorem length_payload (privateKey : Bytes 32) :
    (payload privateKey).length = 34 := by
  rw [payload, List.length_cons, List.length_append, privateKey.property]
  rfl

/-- The wallet import format of a private key. -/
def wifText (host : Host) (privateKey : Bytes 32) : CString :=
  Base58.encodeText (Base58.checked host (payload privateKey))

/-- A key that is written as text leaves ten bytes of the buffer free. -/
theorem strlen_wifText_le (host : Host) (privateKey : Bytes 32) :
    (wifText host privateKey).strlen ≤ 53 := by
  have short :=
    Base58.strlen_encodeText_le (Base58.checked host (payload privateKey))
  rwa [Base58.length_checked, length_payload] at short

/-- With memory, every private key is written as text. -/
theorem ofPrivateKey_eq
    (initialized : host.cryptoInitialized = true)
    (serves : alloc.Serves maxLength)
    (privateKey : Bytes 32) :
    ofPrivateKey host alloc privateKey = .ok (wifText host privateKey) := by
  have short := strlen_wifText_le host privateKey
  have granted : alloc.neocGrants maxLength = true :=
    serves.neocGrants (by decide) le_rfl
  have enough :
      alloc.Serves (((payload privateKey).length + 4) * 138 / 100 + 1) := by
    rw [length_payload]
    exact serves.mono (by decide)
  rw [ofPrivateKey, if_neg (by simp [granted])]
  exact
    Base58.checkEncode_eq initialized enough (Nat.lt_of_le_of_lt short
      (by decide))

/-! ## What is decoded -/

/-- What stands around the key is what was put there. -/
theorem payload_of_decoded {decoded : List UInt8}
    (length : decoded.length = 34)
    (first : decoded.getD 0 0 = version)
    (last : decoded.getD 33 0 = compressedFlag) :
    payload (Bytes.fill 32 (decoded.drop 1)) = decoded := by
  rcases decoded with _ | ⟨byte, rest⟩
  · cases length
  rw [List.length_cons, Nat.succ_inj] at length
  have split : rest.take 32 ++ rest.drop 32 = rest :=
    List.take_append_drop 32 rest
  have keyLength : (rest.take 32).length = 32 := by
    rw [List.length_take, length]
    rfl
  have flag : rest.drop 32 = [compressedFlag] := by
    rw [List.getD_cons_succ, List.getD_eq_getElem?_getD,
      List.getElem?_eq_getElem (by omega), Option.getD_some] at last
    rw [List.drop_eq_getElem_cons (by omega), last,
      List.drop_eq_nil_of_le (by omega)]
  have key :
      Bytes.fill 32 rest = ⟨rest.take 32, keyLength⟩ := by
    have filled :=
      Bytes.fill_append (⟨rest.take 32, keyLength⟩ : Bytes 32)
        (rest.drop 32)
    rwa [split] at filled
  rw [List.getD_cons_zero] at first
  rw [List.drop_one, List.tail_cons, key, payload, first, ← flag]
  exact congrArg (version :: ·) split

/-- A text that is accepted is the one of its key. -/
theorem toPrivateKey_eq_ok {wif : CString} {privateKey : Bytes 32}
    (accepted : toPrivateKey host alloc wif = .ok privateKey) :
    wif = wifText host privateKey ∧ host.cryptoInitialized = true := by
  rcases Except.bind_eq_ok_iff.mp accepted with ⟨decoded, read, rest⟩
  split at rest
  · cases rest
  rename_i length
  split at rest
  · cases rest
  rename_i first
  split at rest
  · cases rest
  rename_i last
  split at rest
  · cases rest
  injection rest with same
  rcases Base58.checkDecode_eq_ok read with ⟨rfl, initialized⟩
  have whole :=
    payload_of_decoded (not_ne_iff.mp length) (not_ne_iff.mp first)
      (not_ne_iff.mp last)
  rw [same] at whole
  exact ⟨by rw [wifText, whole], initialized⟩

/-- With memory, the text of a key is read back as the key. -/
theorem toPrivateKey_wifText
    (initialized : host.cryptoInitialized = true)
    (serves : alloc.Serves maxLength)
    (privateKey : Bytes 32) :
    toPrivateKey host alloc (wifText host privateKey) =
      .ok privateKey := by
  have short := strlen_wifText_le host privateKey
  have length := length_payload privateKey
  have decoded :
      Base58.checkDecode host alloc (wifText host privateKey)
          decodedMaxLength =
        .ok (payload privateKey) :=
    Base58.checkDecode_encodeText initialized
      (serves.mono (Nat.le_trans (Nat.succ_le_succ short) (by decide)))
      (Nat.le_trans (Nat.le_of_eq length) (by decide))
  have last : (payload privateKey).getD 33 0 = compressedFlag := by
    rw [payload, List.getD_cons_succ, List.getD_eq_getElem?_getD,
      List.getElem?_append_right (Nat.le_of_eq privateKey.property),
      privateKey.property]
    rfl
  have granted : alloc.neocGrants 32 = true :=
    serves.neocGrants (by decide) (by decide)
  refine Except.bind_eq_ok_iff.mpr ⟨_, decoded, ?_⟩
  rw [if_neg (by simp [length]), if_neg (by simp [payload]),
    if_neg (not_not_intro last), if_neg (by simp [granted]), payload,
    List.drop_one, List.tail_cons, Bytes.fill_append]

/--
A private key and its text stand for each other: every key is written into
the buffer and read back, and what is accepted for a key is what is written
for it, so that no key has a second text.
-/
theorem wif_bijection
    (initialized : host.cryptoInitialized = true)
    (serves : alloc.Serves maxLength)
    (privateKey : Bytes 32) :
    (∃ wif,
      ofPrivateKey host alloc privateKey = .ok wif ∧
        wif.strlen < maxLength ∧
        toPrivateKey host alloc wif = .ok privateKey) ∧
      (∀ (memory : Allocator) wif,
        toPrivateKey host memory wif = .ok privateKey →
          ofPrivateKey host alloc privateKey = .ok wif) ∧
      ∀ (memory memory' : Allocator) wif wif',
        toPrivateKey host memory wif = .ok privateKey →
          toPrivateKey host memory' wif' = .ok privateKey → wif = wif' := by
  have written := ofPrivateKey_eq initialized serves privateKey
  refine ⟨⟨_, written, ?_, ?_⟩, ?_, ?_⟩
  · exact Nat.lt_of_le_of_lt (strlen_wifText_le host privateKey) (by decide)
  · exact toPrivateKey_wifText initialized serves privateKey
  · intro memory wif accepted
    rw [(toPrivateKey_eq_ok accepted).1]
    exact written
  · intro memory memory' wif wif' accepted accepted'
    rw [(toPrivateKey_eq_ok accepted).1, (toPrivateKey_eq_ok accepted').1]

end Bijection

/-- A small private key. -/
def keyTwo : Bytes 32 :=
  ⟨List.replicate 31 0 ++ [2], rfl⟩

/-- SHA-256, once and twice, of the payload of a small private key. -/
def keyTwoDigests : List (List UInt8 × Bytes 32) :=
  Host.twiceDigests (payload keyTwo)
    0xD878A10D71D4831E5C7F0A09B28C94BB9A1F0C8E8C7F1E693BB77DE0284918DB
    0x1F4B9D339E306F3403711520E3B3A1C4FDC86AEDCF82E397E1E06CE53713BE68

/-- A host that knows the digests of a small private key. -/
def keyTwoHost : Host :=
  Host.ofTables keyTwoDigests []

example :
    wifText keyTwoHost keyTwo =
      CString.ofString
        "KwDiBf89QgGbjEhKnhXJuH7LrciVrZi3qYjgd9M7rFU74NMTptX4" := by
  rw [wifText, Base58.encodeText, Base58.encodeCharacters,
    Base58.alphabet, ascii_ofList]
  decide +kernel

/-- A small private key is written and read back. -/
theorem wif_bijection_keyTwo :
    keyTwoHost.cryptoInitialized = true ∧
      ∃ wif,
        ofPrivateKey keyTwoHost .ample keyTwo = .ok wif ∧
          wif.strlen < 64 ∧
          toPrivateKey keyTwoHost .ample wif = .ok keyTwo :=
  ⟨rfl,
    (@wif_bijection keyTwoHost .ample rfl
      (Allocator.ample_serves (by decide)) keyTwo).1⟩

end Wif

end NeoC
