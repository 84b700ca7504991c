import NeoC.Crypto.AddressInversion
import NeoC.Crypto.KeyPair
import NeoC.Script.ScriptHelper

/-!
# Private keys under a password

NEP-2 encrypts a private key with a key that scrypt derives from a password.
The salt is taken from the address of the private key, so that decrypting can
tell whether the key it has found is the one that was encrypted.  Scrypt and
AES are OpenSSL's; `Cipher` carries them with the one fact that is used of
them, that decrypting gives back what was encrypted.
-/

namespace NeoC

open Foundation

/-- A `neoc_nep2_params_t`. -/
structure Nep2Params where
  n : UInt32
  r : UInt32
  p : UInt32
deriving DecidableEq, Repr

/-- What NEP-2 asks of OpenSSL. -/
structure Cipher where
  /-- The two halves of the 64 bytes that `derive_key` computes. -/
  deriveKey : CString → Bytes 4 → Nep2Params → Outcome (Bytes 32 × Bytes 32)
  /-- AES-256 in ECB mode on 32 bytes, with a key of 32 bytes. -/
  aesEncrypt : Bytes 32 → Bytes 32 → Outcome (Bytes 32)
  aesDecrypt : Bytes 32 → Bytes 32 → Outcome (Bytes 32)
  aesDecrypt_aesEncrypt :
    ∀ key plaintext ciphertext,
      aesEncrypt key plaintext = .ok ciphertext →
        aesDecrypt key ciphertext = .ok plaintext

/-- A cipher that is known for one key under one password. -/
def Cipher.single (password : CString) (salt : Bytes 4)
    (params : Nep2Params) (derivedKey : Bytes 32 × Bytes 32)
    (plaintext ciphertext : Bytes 32) : Cipher where
  deriveKey pass bytes tried :=
    if pass = password ∧ bytes = salt ∧ tried = params then
      .ok derivedKey
    else
      .error (.error .crypto "Failed to derive key")
  aesEncrypt key text :=
    if key = derivedKey.2 ∧ text = plaintext then
      .ok ciphertext
    else
      .error (.error .crypto "Failed to encrypt")
  aesDecrypt key text :=
    if key = derivedKey.2 ∧ text = ciphertext then
      .ok plaintext
    else
      .error (.error .crypto "Failed to decrypt")
  aesDecrypt_aesEncrypt := by
    intro key text found encrypted
    split at encrypted
    · rename_i known
      injection encrypted with same
      rw [if_pos ⟨known.1, same.symm⟩, known.2]
    · cases encrypted

namespace Nep2

/-- `NEOC_NEP2_DEFAULT_PARAMS`. -/
def defaultParams : Nep2Params where
  n := 16384
  r := 8
  p := 8

/-- `NEP2_ENCODED_SIZE`. -/
def encodedSize : Nat := 58

/-- `NEP2_ENCRYPTED_SIZE`. -/
def encryptedSize : Nat := 39

/-- `NEP2_ADDRESS_BUFFER_LEN`. -/
def addressBufferLen : Nat := 64

/-- `xor_bytes` on 32 bytes. -/
def xorBytes (dest src : Bytes 32) : Bytes 32 :=
  ⟨List.zipWith (· ^^^ ·) dest.val src.val, by
    rw [List.length_zipWith, dest.property, src.property]
    rfl⟩

/-- `NEP2_FLAG_COMPRESSED` or `NEP2_FLAG_UNCOMPRESSED`. -/
def flag (isCompressed : Bool) : UInt8 :=
  if isCompressed then 0xE0 else 0xC0

/-- `is_compressed`, as the flag of a file says. -/
def readFlag (byte : UInt8) : Outcome Bool :=
  if byte = 0xE0 then
    .ok true
  else if byte = 0xC0 then
    .ok false
  else
    .error (.error .invalidFormat "Invalid NEP-2 flag byte")

section

variable {curve : Curve} (derivation : KeyDerivation curve)
  (cipher : Cipher) (host : Host) (alloc : Allocator)

/--
The script that both directions put together by hand, and the first four
bytes of the digest of its address.
-/
def addressSalt (publicKey : EcPublicKey curve) (isCompressed : Bool) :
    Outcome (Bytes 4) :=
  let pubkeyBytes :=
    if isCompressed then publicKey.compressed.val
    else publicKey.uncompressed.val
  if alloc.neocGrants (2 + pubkeyBytes.length + 1 + 4) = false then
    .error (.error .outOfMemory "Failed to allocate verification script")
  else do
    let scriptHash ←
      Hash160.fromScript host
        ([Opcode.pushData1, UInt8.ofNat pubkeyBytes.length] ++
          pubkeyBytes ++
          Opcode.syscall ::
            LittleEndian.toBytes 4
              (host.interopGetHash .systemCryptoCheckSig).toNat)
    let address ←
      Hash160.toAddress host alloc scriptHash addressBufferLen
    let addressHash ← host.sha256Double address.characters
    .ok (Bytes.fill 4 addressHash.val)

/-- `neoc_nep2_encrypt`. -/
def encrypt (privateKey : Bytes 32) (password : CString)
    (params : Option Nep2Params) (encryptedKeyLen : Nat) :
    Outcome CString :=
  if encryptedKeyLen < encodedSize then
    .error (.error .bufferTooSmall "Buffer too small")
  else do
    let keyPair ←
      EcKeyPair.createFromPrivateKey derivation alloc privateKey
    let isCompressed := keyPair.publicKey.isCompressed
    let salt ← addressSalt host alloc keyPair.publicKey isCompressed
    let derivedKey ←
      cipher.deriveKey password salt (params.getD defaultParams)
    let ciphertext ←
      cipher.aesEncrypt derivedKey.2 (xorBytes privateKey derivedKey.1)
    Base58.checkEncode host alloc
      ([0x01, 0x42, flag isCompressed] ++ salt.val ++ ciphertext.val)
      encryptedKeyLen

/-- The key that is found is the one whose address gave the salt. -/
def verifyKey (flagByte : UInt8) (salt : Bytes 4) (privateKey : Bytes 32) :
    Outcome (Bytes 32) :=
  match EcKeyPair.createFromPrivateKey derivation alloc privateKey with
  | .error _ => .error (.error .invalidPassword "Invalid password")
  | .ok keyPair => do
      let isCompressed ← readFlag flagByte
      let found ← addressSalt host alloc keyPair.publicKey isCompressed
      if salt ≠ found then
        .error (.error .invalidPassword "Invalid password")
      else
        .ok privateKey

/--
`neoc_nep2_decrypt` up to the key that it puts into the buffer: the flag and
the salt of the text, and what scrypt and AES make of the rest.
-/
def openKey (encryptedKey password : CString)
    (params : Option Nep2Params) :
    Outcome (UInt8 × Bytes 4 × Bytes 32) :=
  match Base58.checkDecode host alloc encryptedKey encryptedSize with
  | .error _ => .error (.error .invalidFormat "Invalid NEP-2 format")
  | .ok nep2Data =>
      if nep2Data.length ≠ encryptedSize then
        .error (.error .invalidFormat "Invalid NEP-2 format")
      else if nep2Data.take 2 ≠ [0x01, 0x42] then
        .error (.error .invalidFormat "Invalid NEP-2 prefix")
      else do
        let salt := Bytes.fill 4 (nep2Data.drop 3)
        let encrypted := Bytes.fill 32 (nep2Data.drop 7)
        let derivedKey ←
          cipher.deriveKey password salt (params.getD defaultParams)
        let decrypted ← cipher.aesDecrypt derivedKey.2 encrypted
        .ok (nep2Data.getD 2 0, salt, xorBytes decrypted derivedKey.1)

/-- `neoc_nep2_decrypt` into a buffer of 32 bytes. -/
def decrypt (encryptedKey password : CString)
    (params : Option Nep2Params) : Outcome (Bytes 32) := do
  let opened ← openKey cipher host alloc encryptedKey password params
  verifyKey derivation host alloc opened.1 opened.2.1 opened.2.2

end

theorem xorBytes_xorBytes (dest src : Bytes 32) :
    xorBytes (xorBytes dest src) src = dest := by
  apply Subtype.ext
  have same := dest.property.trans src.property.symm
  change
    List.zipWith (· ^^^ ·) (List.zipWith (· ^^^ ·) dest.val src.val)
        src.val =
      dest.val
  generalize dest.val = left at same ⊢
  generalize src.val = right at same ⊢
  induction left generalizing right with
  | nil => rfl
  | cons byte rest induction =>
      cases right with
      | nil => cases same
      | cons other others =>
          rw [List.zipWith_cons_cons, List.zipWith_cons_cons,
            UInt8.xor_assoc, UInt8.xor_self, UInt8.xor_zero,
            induction others (Nat.succ.inj same)]

section

variable {curve : Curve} {derivation : KeyDerivation curve}
  {cipher : Cipher} {host : Host} {alloc : Allocator}

/-! ## The salt of an address -/

/-- The bytes of a point in one of its two forms. -/
def pointBytes (point : curve.Point) (isCompressed : Bool) : List UInt8 :=
  if isCompressed then (curve.compressed point).val
  else (curve.uncompressed point).val

/-- The script around these bytes. -/
def keyScript (host : Host) (pubkeyBytes : List UInt8) : List UInt8 :=
  [Opcode.pushData1, UInt8.ofNat pubkeyBytes.length] ++ pubkeyBytes ++
    Opcode.syscall ::
      LittleEndian.toBytes 4
        (host.interopGetHash .systemCryptoCheckSig).toNat

/-- The front of the double digest of the address of this script. -/
def saltOf (host : Host) (pubkeyBytes : List UInt8) : Bytes 4 :=
  let script := keyScript host pubkeyBytes
  let address := Hash160.addressText host (host.scriptDigest script).reverse
  Bytes.fill 4 (host.doubleDigest address.characters).val

/-- The sizes of what is allocated on the way to a salt. -/
def saltSizes (isCompressed : Bool) : List Nat :=
  (if isCompressed then 40 else 72) :: Hash160.addressSizes

/-- With memory, an initialised library finds the salt of an address. -/
theorem addressSalt_eq_ok_iff {publicKey : EcPublicKey curve}
    {isCompressed : Bool} {salt : Bytes 4} :
    addressSalt host alloc publicKey isCompressed = .ok salt ↔
      host.cryptoInitialized = true ∧
        (∀ size ∈ saltSizes isCompressed, alloc.neocGrants size = true) ∧
          salt = saltOf host (pointBytes publicKey.point isCompressed) := by
  have bytes :
      (if isCompressed = true then publicKey.compressed.val
        else publicKey.uncompressed.val) =
          pointBytes publicKey.point isCompressed := by
    rw [pointBytes, publicKey.compressed_eq, publicKey.uncompressed_eq]
  have scriptSize :
      2 + (pointBytes publicKey.point isCompressed).length + 1 + 4 =
        if isCompressed then 40 else 72 := by
    rw [pointBytes]
    split
    · rw [(curve.compressed publicKey.point).property]
    · rw [(curve.uncompressed publicKey.point).property]
  rw [addressSalt, saltSizes, List.forall_mem_cons, bytes, scriptSize]
  generalize (if isCompressed = true then 40 else 72) = size
  constructor
  · intro salted
    split at salted
    · cases salted
    rename_i granted
    rcases Except.bind_eq_ok_iff.mp salted with ⟨hash, hashed, rest⟩
    rcases Except.bind_eq_ok_iff.mp rest with ⟨address, addressed, rest⟩
    rcases Except.bind_eq_ok_iff.mp rest with ⟨digest, digested, rest⟩
    rcases Hash160.toAddress_text addressed with ⟨text, initialized⟩
    rw [Bool.not_eq_false] at granted
    rw [text, Hash160.fromScript_eq_ok hashed] at digested
    rw [Host.sha256Double_eq_ok digested] at rest
    injection rest with same
    exact
      ⟨initialized, ⟨granted, Hash160.grants_of_toAddress addressed⟩,
        same.symm⟩
  · rintro ⟨initialized, ⟨granted, sizes⟩, rfl⟩
    rw [if_neg (by rw [granted]; decide)]
    refine
      Except.bind_eq_ok_iff.mpr
        ⟨_, Hash160.fromScript_of_initialized initialized _, ?_⟩
    refine
      Except.bind_eq_ok_iff.mpr
        ⟨_, Hash160.toAddress_of_grants initialized sizes (by decide), ?_⟩
    exact
      Except.bind_eq_ok_iff.mpr
        ⟨_, Host.sha256Double_of_initialized initialized _, rfl⟩

/-- With memory, the salt that was found is found again. -/
theorem addressSalt_eq {alloc' : Allocator}
    {publicKey : EcPublicKey curve} {isCompressed : Bool} {salt : Bytes 4}
    (found : addressSalt host alloc publicKey isCompressed = .ok salt)
    (serves : alloc'.Serves 120) :
    addressSalt host alloc' publicKey isCompressed = .ok salt := by
  rcases addressSalt_eq_ok_iff.mp found with ⟨initialized, -, same⟩
  refine addressSalt_eq_ok_iff.mpr ⟨initialized, ?_, same⟩
  intro size member
  have bounds :
      ∀ size ∈ saltSizes isCompressed, 0 < size ∧ size ≤ 120 := by
    cases isCompressed
    · decide
    · decide
  rcases bounds size member with ⟨positive, bounded⟩
  exact serves.neocGrants positive bounded

/-! ## What the checks let through -/

theorem readFlag_flag (isCompressed : Bool) :
    readFlag (flag isCompressed) = .ok isCompressed := by
  cases isCompressed with
  | false => rfl
  | true => rfl

theorem readFlag_eq_ok_iff {byte : UInt8} {isCompressed : Bool} :
    readFlag byte = .ok isCompressed ↔ byte = flag isCompressed := by
  constructor
  · intro read
    rw [readFlag] at read
    split at read
    · rename_i same
      injection read with found
      rw [← found, same]
      rfl
    split at read
    · rename_i same
      injection read with found
      rw [← found, same]
      rfl
    · cases read
  · rintro rfl
    exact readFlag_flag isCompressed

/--
A key passes the checks behind the decryption: it has a public key, the flag
names one of the two forms of that, and the address of this form gives the
salt.
-/
structure Passes (derivation : KeyDerivation curve) (host : Host)
    (alloc : Allocator) (flagByte : UInt8) (salt : Bytes 4)
    (privateKey : Bytes 32) (isCompressed : Bool) : Prop where
  initialized : host.cryptoInitialized = true
  pairMemory : ∀ size ∈ EcKeyPair.structSizes, alloc.grants size = true
  saltMemory :
    ∀ size ∈ saltSizes isCompressed, alloc.neocGrants size = true
  flagged : flagByte = flag isCompressed
  salted :
    ∃ key point,
      derivation.derive privateKey = .ok (key, some point) ∧
        salt = saltOf host (pointBytes point isCompressed)

/-- The keys that are let through are the ones that pass the checks. -/
theorem verifyKey_eq_ok_iff {flagByte : UInt8} {salt : Bytes 4}
    {privateKey found : Bytes 32} :
    verifyKey derivation host alloc flagByte salt privateKey = .ok found ↔
      found = privateKey ∧
        ∃ isCompressed,
          Passes derivation host alloc flagByte salt privateKey
            isCompressed := by
  constructor
  · intro verified
    rw [verifyKey] at verified
    split at verified
    · cases verified
    rename_i keyPair created
    rcases Except.bind_eq_ok_iff.mp verified with
      ⟨isCompressed, flagged, rest⟩
    rcases Except.bind_eq_ok_iff.mp rest with ⟨expected, salted, rest⟩
    split at rest
    · cases rest
    rename_i same
    injection rest with whole
    rcases EcKeyPair.createFromPrivateKey_eq_ok_iff.mp created with
      ⟨pairMemory, point, derived, shape⟩
    rcases addressSalt_eq_ok_iff.mp salted with
      ⟨initialized, saltMemory, value⟩
    rw [shape] at value
    refine ⟨whole.symm, isCompressed, initialized, pairMemory, saltMemory,
      readFlag_eq_ok_iff.mp flagged, _, point, derived, ?_⟩
    exact (not_ne_iff.mp same).trans value
  · rintro ⟨rfl, isCompressed, passes⟩
    rcases passes.salted with ⟨key, point, derived, value⟩
    have created :
        EcKeyPair.createFromPrivateKey derivation alloc found =
          .ok ⟨key, EcPublicKey.ofPoint point true⟩ :=
      EcKeyPair.createFromPrivateKey_eq_ok_iff.mpr
        ⟨passes.pairMemory, point, derived, rfl⟩
    have salted :
        addressSalt host alloc (EcPublicKey.ofPoint point true)
            isCompressed =
          .ok salt :=
      addressSalt_eq_ok_iff.mpr
        ⟨passes.initialized, passes.saltMemory, value⟩
    rw [verifyKey, created]
    refine
      Except.bind_eq_ok_iff.mpr
        ⟨isCompressed, readFlag_eq_ok_iff.mpr passes.flagged, ?_⟩
    refine Except.bind_eq_ok_iff.mpr ⟨salt, salted, ?_⟩
    exact if_neg (not_not_intro rfl)

/-! ## Decrypting what was encrypted -/

/-- The payload that a key is written as. -/
def payload (flagByte : UInt8) (salt : Bytes 4)
    (ciphertext : Bytes 32) : List UInt8 :=
  [0x01, 0x42, flagByte] ++ salt.val ++ ciphertext.val

theorem length_payload (flagByte : UInt8) (salt : Bytes 4)
    (ciphertext : Bytes 32) :
    (payload flagByte salt ciphertext).length = encryptedSize := by
  rw [payload, List.length_append, List.length_append, salt.property,
    ciphertext.property]
  rfl

/-- A text whose payload is known is opened with what scrypt makes of it. -/
theorem openKey_of_payload {encryptedKey password : CString}
    {params : Option Nep2Params} {flagByte : UInt8} {salt : Bytes 4}
    {ciphertext plaintext : Bytes 32} {derivedKey : Bytes 32 × Bytes 32}
    (decoded :
      Base58.checkDecode host alloc encryptedKey encryptedSize =
        .ok (payload flagByte salt ciphertext))
    (derived :
      cipher.deriveKey password salt (params.getD defaultParams) =
        .ok derivedKey)
    (opened : cipher.aesDecrypt derivedKey.2 ciphertext = .ok plaintext) :
    openKey cipher host alloc encryptedKey password params =
      .ok (flagByte, salt, xorBytes plaintext derivedKey.1) := by
  have length := length_payload flagByte salt ciphertext
  have front :
      (payload flagByte salt ciphertext).take 2 = [0x01, 0x42] :=
    rfl
  have behindFlag :
      (payload flagByte salt ciphertext).drop 3 =
        salt.val ++ ciphertext.val :=
    rfl
  have behindSalt :
      (payload flagByte salt ciphertext).drop 7 = ciphertext.val ++ [] := by
    have split :
        (payload flagByte salt ciphertext).drop 7 =
          ((payload flagByte salt ciphertext).drop 3).drop 4 := by
      rw [List.drop_drop]
    rw [split, behindFlag, List.drop_left' salt.property, List.append_nil]
  rw [openKey, decoded]
  dsimp only
  rw [if_neg (not_not_intro length), if_neg (not_not_intro front),
    behindFlag, behindSalt, Bytes.fill_append, Bytes.fill_append]
  refine Except.bind_eq_ok_iff.mpr ⟨derivedKey, derived, ?_⟩
  exact Except.bind_eq_ok_iff.mpr ⟨plaintext, opened, rfl⟩

/-- With memory, a key is decrypted with what it was encrypted with. -/
theorem decrypt_encrypt {alloc' : Allocator} {privateKey : Bytes 32}
    {password encryptedKey : CString} {params : Option Nep2Params}
    {encryptedKeyLen : Nat}
    (encrypted :
      encrypt derivation cipher host alloc privateKey password params
          encryptedKeyLen =
        .ok encryptedKey)
    (serves : alloc'.Serves 120) :
    decrypt derivation cipher host alloc' encryptedKey password params =
      .ok privateKey := by
  rw [encrypt] at encrypted
  split at encrypted
  · cases encrypted
  rcases Except.bind_eq_ok_iff.mp encrypted with ⟨keyPair, created, rest⟩
  rcases Except.bind_eq_ok_iff.mp rest with ⟨salt, salted, rest⟩
  rcases Except.bind_eq_ok_iff.mp rest with ⟨derivedKey, derived, rest⟩
  rcases Except.bind_eq_ok_iff.mp rest with ⟨ciphertext, ciphered, rest⟩
  rw [← payload] at rest
  rcases Base58.checkEncode_eq_ok rest with ⟨rfl, initialized⟩
  have length :=
    length_payload (flag keyPair.publicKey.isCompressed) salt ciphertext
  generalize shape :
    payload (flag keyPair.publicKey.isCompressed) salt ciphertext = data
      at length
  have short := Base58.strlen_encodeText_le (Base58.checked host data)
  rw [Base58.length_checked, length, encryptedSize] at short
  have decoded :
      Base58.checkDecode host alloc'
          (Base58.encodeText (Base58.checked host data)) encryptedSize =
        .ok data :=
    Base58.checkDecode_encodeText initialized (serves.mono (by omega))
      (Nat.le_of_eq length)
  have opened :=
    cipher.aesDecrypt_aesEncrypt derivedKey.2 _ ciphertext ciphered
  have found :
      openKey cipher host alloc'
          (Base58.encodeText (Base58.checked host data)) password params =
        .ok (flag keyPair.publicKey.isCompressed, salt, privateKey) := by
    rw [← shape] at decoded ⊢
    rw [openKey_of_payload decoded derived opened, xorBytes_xorBytes]
  have verified :
      verifyKey derivation host alloc'
          (flag keyPair.publicKey.isCompressed) salt privateKey =
        .ok privateKey := by
    rw [verifyKey, EcKeyPair.createFromPrivateKey_eq created serves]
    refine
      Except.bind_eq_ok_iff.mpr
        ⟨_, readFlag_flag keyPair.publicKey.isCompressed, ?_⟩
    refine
      Except.bind_eq_ok_iff.mpr ⟨salt, addressSalt_eq salted serves, ?_⟩
    exact if_neg (not_not_intro rfl)
  exact Except.bind_eq_ok_iff.mpr ⟨_, found, verified⟩

end

end Nep2

end NeoC
