import NeoC.Crypto.Base58Check
import NeoC.Wallet.AccountOps

/-!
# Keys under a password, from the outside

A key that gets past scrypt is always written as a text of 58 characters,
because 43 bytes that begin with the prefix of NEP-2 lie between two powers of
58.  The same password opens the text again.  What is opened is put into the
buffer of the caller before it is checked, and stays there when the check
fails.
-/

namespace NeoC

open Foundation

namespace Nep2

/-! ## The length of the text -/

/-- The prefix of NEP-2 before 41 bytes makes 58 digits. -/
theorem strlen_encodeText_prefix {rest : List UInt8}
    (length : rest.length = 41) :
    (Base58.encodeText (0x01 :: 0x42 :: rest)).strlen = encodedSize := by
  have zeros : Base58.leadingZeros (0x01 :: 0x42 :: rest) = 0 := rfl
  have significant :
      Base58.significant (0x01 :: 0x42 :: rest) = 0x01 :: 0x42 :: rest :=
    rfl
  have bounded :=
    Nat.ofDigits_lt_base_pow_length (b := 256)
      (l := (rest.map UInt8.toNat).reverse) (by decide)
      fun digit member =>
        Base58.map_toNat_lt rest digit (List.mem_reverse.mp member)
  rw [List.length_reverse, List.length_map, length] at bounded
  have value :
      Nat.ofDigits 256
          (((0x01 : UInt8) :: 0x42 :: rest).map UInt8.toNat).reverse =
        Nat.ofDigits 256 (rest.map UInt8.toNat).reverse +
          256 ^ 41 * 66 + 256 ^ 42 * 1 := by
    rw [List.map_cons, List.map_cons, Nat.ofDigits_reverse_cons,
      Nat.ofDigits_reverse_cons, List.length_cons, List.length_map, length]
    rfl
  have lower : 58 ^ 57 ≤ 256 ^ 41 * 66 + 256 ^ 42 * 1 := by
    norm_num
  have upper : 256 ^ 41 + 256 ^ 41 * 66 + 256 ^ 42 * 1 < 58 ^ (57 + 1) := by
    norm_num
  have digits :=
    @Radix.length_convert_eq 58 256 (by decide) (by decide)
      (((0x01 : UInt8) :: 0x42 :: rest).map UInt8.toNat) 57
      (by rw [value]; omega) (by rw [value]; omega)
  rw [Base58.strlen_encodeText, zeros, Base58.encodeDigits_eq, significant,
    digits]
  rfl

/-- With its checksum, a payload of NEP-2 is the prefix and 41 bytes. -/
theorem checked_eq_cons {host : Host} {data : List UInt8}
    (length : data.length = encryptedSize)
    (front : data.take 2 = [0x01, 0x42]) :
    ∃ rest,
      Base58.checked host data = 0x01 :: 0x42 :: rest ∧
        rest.length = 41 := by
  have whole : data = 0x01 :: 0x42 :: data.drop 2 := by
    have parts := List.take_append_drop 2 data
    rw [front] at parts
    exact parts.symm
  refine ⟨(Base58.checked host data).drop 2, ?_, ?_⟩
  · rw [Base58.checked,
      List.drop_append_of_le_length (by rw [length]; decide)]
    exact congrArg (· ++ _) whole
  · rw [List.length_drop, Base58.length_checked, length]
    rfl

/-- Every payload of NEP-2 is written as 58 characters. -/
theorem strlen_encodeText_checked {host : Host} {data : List UInt8}
    (length : data.length = encryptedSize)
    (front : data.take 2 = [0x01, 0x42]) :
    (Base58.encodeText (Base58.checked host data)).strlen =
      encodedSize := by
  rcases @checked_eq_cons host data length front with ⟨rest, whole, behind⟩
  rw [whole]
  exact strlen_encodeText_prefix behind

section

variable {curve : Curve} (derivation : KeyDerivation curve)
  (cipher : Cipher) (host : Host) (alloc : Allocator)

/-- `neoc_nep2_verify_password`. -/
def verifyPassword (encryptedKey password : CString)
    (params : Option Nep2Params) : Bool :=
  (decrypt derivation cipher host alloc encryptedKey password params).isOk

/-- `neoc_nep2_is_valid_format`. -/
def isValidFormat (encryptedKey : CString) : Bool :=
  if encryptedKey.strlen ≠ encodedSize then
    false
  else
    match Base58.checkDecode host alloc encryptedKey encryptedSize with
    | .error _ => false
    | .ok decoded =>
        if decoded.length ≠ encryptedSize then
          false
        else
          decoded.take 2 = [0x01, 0x42]

end

section

variable {curve : Curve} {derivation : KeyDerivation curve}
  {cipher : Cipher} {host : Host} {alloc : Allocator}

/-! ## Behind the key derivation -/

/-- The text of a payload of NEP-2 has the format that is asked for. -/
theorem isValidFormat_encodeText
    (initialized : host.cryptoInitialized = true)
    (serves : alloc.Serves 120)
    {data : List UInt8}
    (length : data.length = encryptedSize)
    (front : data.take 2 = [0x01, 0x42]) :
    isValidFormat host alloc
      (Base58.encodeText (Base58.checked host data)) = true := by
  have characters := @strlen_encodeText_checked host data length front
  have decoded :
      Base58.checkDecode host alloc
          (Base58.encodeText (Base58.checked host data)) encryptedSize =
        .ok data :=
    Base58.checkDecode_encodeText initialized
      (serves.mono (by rw [characters]; decide)) (Nat.le_of_eq length)
  rw [isValidFormat, if_neg (not_not_intro characters), decoded]
  dsimp only
  rw [if_neg (not_not_intro length), front]
  rfl

/--
A key that gets past the key derivation is written as a text of 58 characters
which has the format of NEP-2, and the password opens the text again.
-/
theorem encrypted_opens
    (serves : alloc.Serves 120)
    {privateKey : Bytes 32}
    {password : CString}
    {params : Option Nep2Params}
    {encryptedKeyLen : Nat}
    (room : 59 ≤ encryptedKeyLen)
    {keyPair : EcKeyPair curve}
    (created :
      EcKeyPair.createFromPrivateKey derivation alloc privateKey =
        .ok keyPair)
    {salt : Bytes 4}
    (salted :
      addressSalt host alloc keyPair.publicKey
          keyPair.publicKey.isCompressed =
        .ok salt)
    {derivedKey : Bytes 32 × Bytes 32}
    (derived :
      cipher.deriveKey password salt (params.getD defaultParams) =
        .ok derivedKey)
    (ciphers :
      ∃ ciphertext,
        cipher.aesEncrypt derivedKey.2 (xorBytes privateKey derivedKey.1) =
          .ok ciphertext) :
    ∃ encryptedKey,
      encrypt derivation cipher host alloc privateKey password params
            encryptedKeyLen =
          .ok encryptedKey ∧
        encryptedKey.strlen = 58 ∧
        isValidFormat host alloc encryptedKey = true ∧
        decrypt derivation cipher host alloc encryptedKey password params =
          .ok privateKey ∧
        verifyPassword derivation cipher host alloc encryptedKey password
            params =
          true := by
  rcases ciphers with ⟨ciphertext, ciphered⟩
  have initialized := (addressSalt_eq_ok_iff.mp salted).1
  have length :=
    length_payload (flag keyPair.publicKey.isCompressed) salt ciphertext
  have characters := @strlen_encodeText_checked host _ length rfl
  -- Behind the key derivation only OpenSSL and memory can fail.
  have encrypted :
      encrypt derivation cipher host alloc privateKey password params
          encryptedKeyLen =
        .ok
          (Base58.encodeText
            (Base58.checked host
              (payload (flag keyPair.publicKey.isCompressed) salt
                ciphertext))) := by
    have wide : ¬ encryptedKeyLen < encodedSize := Nat.not_lt_of_lt room
    rw [encrypt, if_neg wide]
    refine Except.bind_eq_ok_iff.mpr ⟨keyPair, created, ?_⟩
    refine Except.bind_eq_ok_iff.mpr ⟨salt, salted, ?_⟩
    refine Except.bind_eq_ok_iff.mpr ⟨derivedKey, derived, ?_⟩
    refine Except.bind_eq_ok_iff.mpr ⟨ciphertext, ciphered, ?_⟩
    exact
      Base58.checkEncode_eq initialized
        (serves.mono (by rw [← payload, length]; decide))
        (by rw [← payload, characters]; exact room)
  have decrypted := decrypt_encrypt encrypted serves
  refine ⟨_, encrypted, characters, ?_, decrypted, ?_⟩
  · exact isValidFormat_encodeText initialized serves length rfl
  · rw [verifyPassword, decrypted]
    rfl

end

open WalletAccount (neoPassword neoCipher nep2Payload nep2Host)

/-- The private key one gets past the key derivation. -/
theorem encrypted_opens_keyOne :
    59 ≤ 60 ∧
      ∃ encryptedKey,
        encrypt baseDerivation neoCipher nep2Host .ample privateKeyOne
              neoPassword none 60 =
            .ok encryptedKey ∧
          encryptedKey.strlen = 58 ∧
          isValidFormat nep2Host .ample encryptedKey = true ∧
          decrypt baseDerivation neoCipher nep2Host .ample encryptedKey
              neoPassword none =
            .ok privateKeyOne ∧
          verifyPassword baseDerivation neoCipher nep2Host .ample
              encryptedKey neoPassword none =
            true := by
  have salted :
      addressSalt nep2Host .ample Transaction.baseKeyPair.publicKey
          Transaction.baseKeyPair.publicKey.isCompressed =
        .ok ⟨[0x70, 0x52, 0x02, 0xC2], rfl⟩ := by
    decide +kernel
  have created :
      EcKeyPair.createFromPrivateKey baseDerivation .ample privateKeyOne =
        .ok Transaction.baseKeyPair :=
    rfl
  have derived :
      (neoCipher.deriveKey neoPassword ⟨[0x70, 0x52, 0x02, 0xC2], rfl⟩
        ((none : Option Nep2Params).getD defaultParams)).toBool = true := by
    decide +kernel
  rcases exists_of_toBool derived with ⟨derivedKey, known⟩
  have ciphers :
      ∃ ciphertext,
        neoCipher.aesEncrypt derivedKey.2
            (xorBytes privateKeyOne derivedKey.1) =
          .ok ciphertext := by
    apply exists_of_toBool
    injection known with same
    subst same
    decide +kernel
  exact
    ⟨by decide,
      encrypted_opens (Allocator.ample_serves (by decide)) (by decide)
        created salted known ciphers⟩

/-! ## What a text holds -/

section

variable {host : Host} {cipher : Cipher} {alloc : Allocator}

/-- The size of the two buffers in which 58 characters are decoded. -/
def decodedSize : Nat := 43

/-- Both buffers for the text of a payload have this size. -/
theorem decodedSize_checked {data : List UInt8}
    (length : data.length = encryptedSize)
    (front : data.take 2 = [0x01, 0x42]) :
    Base58.decodeBufferSize
          (Base58.encodeText (Base58.checked host data)) =
        decodedSize ∧
      (Base58.encodeText (Base58.checked host data)).strlen * 733 / 1000 + 1 =
        decodedSize := by
  rcases @checked_eq_cons host data length front with ⟨rest, whole, behind⟩
  have characters := strlen_encodeText_prefix behind
  have zeros :
      Base58.zeros (Base58.encodeText (0x01 :: 0x42 :: rest)) = 0 :=
    Base58.zeros_encode _
  rw [whole, Base58.decodeBufferSize, zeros, characters]
  exact ⟨rfl, rfl⟩

/-- A payload of NEP-2 is its flag, its salt and 32 bytes more. -/
theorem payload_of_front {data : List UInt8}
    (length : data.length = encryptedSize)
    (front : data.take 2 = [0x01, 0x42]) :
    payload (data.getD 2 0) (Bytes.fill 4 (data.drop 3))
        (Bytes.fill 32 (data.drop 7)) =
      data := by
  have version : data = 0x01 :: 0x42 :: data.drop 2 := by
    have parts := List.take_append_drop 2 data
    rw [front] at parts
    exact parts.symm
  have behind : data.drop 2 = data.getD 2 0 :: data.drop 3 := by
    have inside : 2 < data.length := by
      rw [length]
      decide
    rw [List.drop_eq_getElem_cons inside, List.getD_eq_getElem?_getD,
      List.getElem?_eq_getElem inside, Option.getD_some]
  have ciphertext : (data.drop 3).drop 4 = data.drop 7 := by
    rw [List.drop_drop]
  rw [payload, Bytes.val_fill (by rw [List.length_drop, length]; decide),
    Bytes.val_fill (by rw [List.length_drop, length]; decide),
    ← ciphertext, List.take_of_length_le (l := (data.drop 3).drop 4),
    List.append_assoc, List.take_append_drop]
  · exact (version.trans (by rw [behind]; rfl)).symm
  · rw [List.length_drop, List.length_drop, length]
    decide

/--
A text holds a key under a password: it is the Base58Check form of a payload,
scrypt makes two keys of the password and the salt, and AES and the first of
them make the key of what is encrypted.
-/
structure Holds (cipher : Cipher) (host : Host) (alloc : Allocator)
    (encryptedKey password : CString) (params : Option Nep2Params)
    (flagByte : UInt8) (salt : Bytes 4) (privateKey : Bytes 32) :
    Prop where
  initialized : host.cryptoInitialized = true
  memory : alloc.neocGrants decodedSize = true
  opened :
    ∃ ciphertext derivedKey plaintext,
      encryptedKey =
          Base58.encodeText
            (Base58.checked host (payload flagByte salt ciphertext)) ∧
        cipher.deriveKey password salt (params.getD defaultParams) =
            .ok derivedKey ∧
          cipher.aesDecrypt derivedKey.2 ciphertext = .ok plaintext ∧
            privateKey = xorBytes plaintext derivedKey.1

/-- The keys that are put into the buffer are the ones that a text holds. -/
theorem openKey_eq_ok_iff {encryptedKey password : CString}
    {params : Option Nep2Params} {flagByte : UInt8} {salt : Bytes 4}
    {privateKey : Bytes 32} :
    openKey cipher host alloc encryptedKey password params =
        .ok (flagByte, salt, privateKey) ↔
      Holds cipher host alloc encryptedKey password params flagByte salt
        privateKey := by
  constructor
  · intro opened
    rw [openKey] at opened
    split at opened
    · cases opened
    rename_i data decoded
    split at opened
    · cases opened
    rename_i length
    split at opened
    · cases opened
    rename_i front
    rw [not_ne_iff] at length front
    rcases Except.bind_eq_ok_iff.mp opened with ⟨derivedKey, derived, rest⟩
    rcases Except.bind_eq_ok_iff.mp rest with ⟨plaintext, plain, rest⟩
    injection rest with parts
    injection parts with flagged parts
    injection parts with salted value
    rcases Base58.checkDecode_eq_ok decoded with ⟨text, initialized⟩
    rcases Base58.grants_of_checkDecode decoded with ⟨memory, -⟩
    rw [text, (decodedSize_checked length front).1] at memory
    rw [← payload_of_front length front, flagged, salted] at text
    rw [salted] at derived
    exact
      ⟨initialized, memory, _, derivedKey, plaintext, text, derived, plain,
        value.symm⟩
  · intro holds
    rcases holds.opened with
      ⟨ciphertext, derivedKey, plaintext, rfl, derived, plain, rfl⟩
    have length := length_payload flagByte salt ciphertext
    rcases @decodedSize_checked host _ length rfl with ⟨size, size'⟩
    refine openKey_of_payload ?_ derived plain
    exact
      Base58.checkDecode_of_grants holds.initialized
        (size ▸ holds.memory) (size' ▸ holds.memory) (Nat.le_of_eq length)

end

/-! ## The buffer of the caller -/

section

variable {curve : Curve} (derivation : KeyDerivation curve)
  (cipher : Cipher) (host : Host) (alloc : Allocator)

/-- `neoc_nep2_decrypt` on the buffer that it was given. -/
def decryptInto (encryptedKey password : CString)
    (params : Option Nep2Params) : Routine (List UInt8) Unit := do
  let privateKeyLen ← Call.read List.length
  if privateKeyLen < 32 then
    errorSet .bufferTooSmall "Buffer too small"
  else do
    let opened ←
      Call.lift (openKey cipher host alloc encryptedKey password params)
    -- The key is in the buffer before anything has been said of it.
    Call.update fun buffer => opened.2.2.val ++ buffer.drop 32
    let _ ←
      Call.lift
        (verifyKey derivation host alloc opened.1 opened.2.1 opened.2.2)
    pure ()

/-- When decryption fails, the buffer is what the caller passed. -/
def LeavesBuffer (encryptedKey password : CString)
    (params : Option Nep2Params) (buffer : List UInt8) : Prop :=
  ∀ reason after,
    decryptInto derivation cipher host alloc encryptedKey password params
        buffer =
      (.error reason, after) →
    after = buffer

/--
A key that the text holds, and that the buffer has room for, passes the
checks, unless it is in the buffer already.
-/
def NothingExposed (encryptedKey password : CString)
    (params : Option Nep2Params) (buffer : List UInt8) : Prop :=
  ∀ flagByte salt privateKey,
    32 ≤ buffer.length →
      Holds cipher host alloc encryptedKey password params flagByte salt
          privateKey →
        (∃ isCompressed,
            Passes derivation host alloc flagByte salt privateKey
              isCompressed) ∨
          buffer.take 32 = privateKey.val

end

section

variable {curve : Curve} {derivation : KeyDerivation curve}
  {cipher : Cipher} {host : Host} {alloc : Allocator}
  {encryptedKey password : CString} {params : Option Nep2Params}
  {buffer : List UInt8}

/-- A buffer that is too short is not touched. -/
theorem decryptInto_short (short : buffer.length < 32) :
    decryptInto derivation cipher host alloc encryptedKey password params
        buffer =
      (.error (.error .bufferTooSmall "Buffer too small"), buffer) := by
  rw [decryptInto, Call.bind_of_ok (Call.read_run List.length buffer),
    if_pos short]
  rfl

/-- Neither is one for a text that holds no key. -/
theorem decryptInto_closed (long : 32 ≤ buffer.length) {reason : Halt}
    (closed :
      openKey cipher host alloc encryptedKey password params =
        .error reason) :
    decryptInto derivation cipher host alloc encryptedKey password params
        buffer =
      (.error reason, buffer) := by
  rw [decryptInto, Call.bind_of_ok (Call.read_run List.length buffer),
    if_neg (Nat.not_lt_of_le long), closed]
  rfl

/-- A key that is found is stored, and only then looked at. -/
theorem decryptInto_opened (long : 32 ≤ buffer.length)
    {flagByte : UInt8} {salt : Bytes 4} {privateKey : Bytes 32}
    (opened :
      openKey cipher host alloc encryptedKey password params =
        .ok (flagByte, salt, privateKey)) :
    decryptInto derivation cipher host alloc encryptedKey password params
        buffer =
      ((verifyKey derivation host alloc flagByte salt privateKey).map
          fun _ => (),
        privateKey.val ++ buffer.drop 32) := by
  rw [decryptInto, Call.bind_of_ok (Call.read_run List.length buffer),
    if_neg (Nat.not_lt_of_le long), opened]
  rcases verified :
      verifyKey derivation host alloc flagByte salt privateKey with
    failure | found
  · rw [Call.lift_ok_bind, verified]
    rfl
  · rw [Call.lift_ok_bind, verified]
    rfl

/--
A failing decryption leaves the buffer alone if and only if the key that the
text holds under this password, if there is one, passes the checks or is in
the buffer already.
-/
theorem leavesBuffer_iff :
    LeavesBuffer derivation cipher host alloc encryptedKey password params
        buffer ↔
      NothingExposed derivation cipher host alloc encryptedKey password
        params buffer := by
  constructor
  · intro leaves flagByte salt privateKey long holds
    have ran :
        decryptInto derivation cipher host alloc encryptedKey password params
            buffer =
          ((verifyKey derivation host alloc flagByte salt privateKey).map
              fun _ => (),
            privateKey.val ++ buffer.drop 32) :=
      decryptInto_opened long (openKey_eq_ok_iff.mpr holds)
    rcases verified :
        verifyKey derivation host alloc flagByte salt privateKey with
      reason | found
    · rw [verified] at ran
      have same := leaves reason _ ran
      right
      rw [← same]
      exact List.take_left' privateKey.property
    · exact .inl (verifyKey_eq_ok_iff.mp verified).2
  · intro nothing reason after ran
    rcases Nat.lt_or_ge buffer.length 32 with short | long
    · rw [decryptInto_short short] at ran
      injection ran with _ same
      exact same.symm
    rcases opened :
        openKey cipher host alloc encryptedKey password params with
      failure | ⟨flagByte, salt, privateKey⟩
    · rw [decryptInto_closed long opened] at ran
      injection ran with _ same
      exact same.symm
    rw [decryptInto_opened long opened] at ran
    injection ran with outcome same
    rcases nothing flagByte salt privateKey long
        (openKey_eq_ok_iff.mp opened) with
      passes | front
    · rw [verifyKey_eq_ok_iff.mpr ⟨rfl, passes⟩] at outcome
      cases outcome
    · rw [← same, ← front, List.take_append_drop]

/--
For every text, password and buffer: a failing decryption leaves the buffer
alone exactly when the key that the text holds passes the checks or is there
already.  Of two failing decryptions for which this holds, the buffers do not
tell which was which.
-/
theorem failing_decrypt_iff :
    (∀ encryptedKey password params buffer,
      LeavesBuffer derivation cipher host alloc encryptedKey password params
          buffer ↔
        NothingExposed derivation cipher host alloc encryptedKey password
          params buffer) ∧
      ∀ encryptedKey encryptedKey' password params buffer reason reason'
        after after',
        NothingExposed derivation cipher host alloc encryptedKey password
            params buffer →
          NothingExposed derivation cipher host alloc encryptedKey' password
            params buffer →
          decryptInto derivation cipher host alloc encryptedKey password
              params buffer =
            (.error reason, after) →
          decryptInto derivation cipher host alloc encryptedKey' password
              params buffer =
            (.error reason', after') →
          after = after' := by
  refine ⟨fun _ _ _ _ => leavesBuffer_iff, ?_⟩
  intro encryptedKey encryptedKey' password params buffer reason reason'
    after after' nothing nothing' failed failed'
  rw [leavesBuffer_iff.mpr nothing reason after failed,
    leavesBuffer_iff.mpr nothing' reason' after' failed']

end

/-! ## A flag that does not exist -/

/-- The payload of the private key one with another flag. -/
def flaggedPayload : List UInt8 :=
  0x01 :: 0x42 :: 0xE1 :: nep2Payload.drop 3

/-- SHA-256, once and twice, of this payload. -/
def flaggedDigests : List (List UInt8 × Bytes 32) :=
  Host.twiceDigests flaggedPayload
    0xD094AC4AE6C5D6210898F9C6D950D12024FB616684814EC04D41258C32565093
    0xDD4591CFD376D48887DC4F4D4E7DA07BCF3F64142CA6F41B83623AE29742E11F

/-- A host that also knows these digests. -/
def flaggedHost : Host :=
  { nep2Host with
    sha256Digest := fun data =>
      (flaggedDigests.lookup data).getD (nep2Host.sha256Digest data) }

/-- The text of this payload. -/
def flaggedKey : CString :=
  CString.ofString
    "6PYdFn5th7Fb8DHngmsm7njnV9XHAy6EJZB2NtX7JbSf4cmmTG5X1EeBL2"

theorem flaggedKey_eq :
    flaggedKey =
      Base58.encodeText (Base58.checked flaggedHost flaggedPayload) := by
  rw [Base58.encodeText, Base58.encodeCharacters, Base58.alphabet, ascii_ofList]
  decide +kernel

/-- The flag is refused when the private key is in the buffer. -/
theorem flaggedKey_exposes :
    decryptInto baseDerivation neoCipher flaggedHost .ample flaggedKey
          neoPassword none (List.replicate 32 0) =
        (.error (.error .invalidFormat "Invalid NEP-2 flag byte"),
          privateKeyOne.val) ∧
      privateKeyOne.val ≠ List.replicate 32 0 ∧
      ¬LeavesBuffer baseDerivation neoCipher flaggedHost .ample flaggedKey
        neoPassword none (List.replicate 32 0) := by
  have short :
      (Base58.encodeText
        (Base58.checked flaggedHost flaggedPayload)).strlen = 58 :=
    strlen_encodeText_checked rfl rfl
  have decoded :
      Base58.checkDecode flaggedHost .ample flaggedKey encryptedSize =
        .ok flaggedPayload := by
    rw [flaggedKey_eq]
    exact
      Base58.checkDecode_encodeText rfl
        (by rw [short]; exact Allocator.ample_serves (by decide)) le_rfl
  have ran :
      decryptInto baseDerivation neoCipher flaggedHost .ample flaggedKey
          neoPassword none (List.replicate 32 0) =
        (.error (.error .invalidFormat "Invalid NEP-2 flag byte"),
          privateKeyOne.val) := by
    have opened :
        openKey neoCipher flaggedHost .ample flaggedKey neoPassword none =
          .ok
            (0xE1, ⟨[0x70, 0x52, 0x02, 0xC2], rfl⟩, privateKeyOne) := by
      rw [openKey, decoded]
      decide +kernel
    rw [decryptInto_opened (by decide) opened]
    rfl
  have different : privateKeyOne.val ≠ List.replicate 32 0 := by
    decide
  exact ⟨ran, different, fun leaves => different (leaves _ _ ran)⟩

end Nep2

end NeoC
