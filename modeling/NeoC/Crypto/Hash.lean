import NeoC.Foundation.LittleEndian
import NeoC.Runtime.Memory

/-!
# Digests, script hashes and addresses

SHA-256 and RIPEMD-160 come from OpenSSL; `Host` carries them together with
the two facts about the process that decide whether the library uses them: it
refuses to hash before `neoc_crypto_init`, and it fills the table of interop
hashes at the first lookup, with zeros if that lookup comes too early.

A `neoc_hash160_t` keeps the digest of a script with its bytes reversed, so
`toBytes` is the reversed digest and `toLittleEndianBytes` the digest itself.
-/

namespace NeoC

open Foundation

/-- What the library finds around it: OpenSSL and its own global flags. -/
structure Host where
  sha256Digest : List UInt8 → Bytes 32
  ripemd160Digest : List UInt8 → Bytes 20
  /-- `neoc_crypto_init` has been called. -/
  cryptoInitialized : Bool
  /-- It had been called when the interop table was filled. -/
  interopHashed : Bool

/-- A byte array of fixed size in reverse order. -/
def Bytes.reverse {size : Nat} (bytes : Bytes size) : Bytes size :=
  ⟨bytes.val.reverse, by rw [List.length_reverse, bytes.property]⟩

@[simp]
theorem Bytes.val_reverse {size : Nat} (bytes : Bytes size) :
    bytes.reverse.val = bytes.val.reverse :=
  rfl

/-- The bytes of a number, the most significant one first. -/
def Bytes.ofNat (size value : Nat) : Bytes size :=
  ⟨(LittleEndian.toBytes size value).reverse, by simp⟩

/-- A byte array of zeros. -/
def Bytes.zero (size : Nat) : Bytes size :=
  ⟨List.replicate size 0, List.length_replicate⟩

/-- A byte array of zeros into which bytes were copied. -/
def Bytes.fill (size : Nat) (content : List UInt8) : Bytes size :=
  ⟨(content ++ List.replicate size 0).take size, by
    rw [List.length_take, List.length_append, List.length_replicate]
    omega⟩

/-- Of enough bytes the first ones are copied. -/
theorem Bytes.val_fill {size : Nat} {content : List UInt8}
    (enough : size ≤ content.length) :
    (Bytes.fill size content).val = content.take size := by
  rw [Bytes.fill]
  exact List.take_append_of_le_length enough

theorem Bytes.fill_val {size : Nat} (array : Bytes size) :
    Bytes.fill size array.val = array := by
  apply Subtype.ext
  exact List.take_left' array.property

/-- What stands behind an array is not copied into one of its size. -/
theorem Bytes.fill_append {size : Nat} (array : Bytes size)
    (rest : List UInt8) :
    Bytes.fill size (array.val ++ rest) = array := by
  apply Subtype.ext
  rw [Bytes.fill]
  dsimp only
  rw [List.append_assoc]
  exact List.take_left' array.property

namespace Host

/-- `neoc_sha256`. -/
def sha256 (host : Host) (data : List UInt8) : Outcome (Bytes 32) :=
  if host.cryptoInitialized then
    .ok (host.sha256Digest data)
  else
    .error (.error .cryptoInit "")

/-- `neoc_sha256_double`. -/
def sha256Double (host : Host) (data : List UInt8) : Outcome (Bytes 32) := do
  let firstHash ← host.sha256 data
  host.sha256 firstHash.val

/-- `neoc_ripemd160`. -/
def ripemd160 (host : Host) (data : List UInt8) : Outcome (Bytes 20) :=
  if host.cryptoInitialized then
    .ok (host.ripemd160Digest data)
  else
    .error (.error .cryptoInit "")

/-- `neoc_hash160`. -/
def hash160 (host : Host) (data : List UInt8) : Outcome (Bytes 20) := do
  let sha256Hash ← host.sha256 data
  host.ripemd160 sha256Hash.val

theorem sha256_eq_ok {host : Host} {data : List UInt8} {digest : Bytes 32}
    (hashed : host.sha256 data = .ok digest) :
    digest = host.sha256Digest data := by
  unfold sha256 at hashed
  split at hashed
  · injection hashed with equal
    exact equal.symm
  · cases hashed

/-- What `sha256Double` computes. -/
def doubleDigest (host : Host) (data : List UInt8) : Bytes 32 :=
  host.sha256Digest (host.sha256Digest data).val

theorem sha256Double_eq_ok {host : Host} {data : List UInt8}
    {hash : Bytes 32} (hashed : host.sha256Double data = .ok hash) :
    hash = host.doubleDigest data := by
  rcases Except.bind_eq_ok_iff.mp hashed with ⟨first, once, twice⟩
  rw [sha256_eq_ok twice, sha256_eq_ok once, doubleDigest]

theorem sha256Double_of_initialized {host : Host}
    (initialized : host.cryptoInitialized) (data : List UInt8) :
    host.sha256Double data = .ok (host.doubleDigest data) := by
  simp [sha256Double, sha256, doubleDigest, initialized, bind, Except.bind]

theorem initialized_of_sha256Double {host : Host} {data : List UInt8}
    {hash : Bytes 32} (hashed : host.sha256Double data = .ok hash) :
    host.cryptoInitialized = true := by
  rcases Except.bind_eq_ok_iff.mp hashed with ⟨first, once, -⟩
  rw [sha256] at once
  split at once
  · assumption
  · cases once

/-- RIPEMD-160 of SHA-256. -/
def scriptDigest (host : Host) (script : List UInt8) : Bytes 20 :=
  host.ripemd160Digest (host.sha256Digest script).val

theorem hash160_eq_ok {host : Host} {data : List UInt8}
    {digest : Bytes 20} (hashed : host.hash160 data = .ok digest) :
    digest = host.scriptDigest data := by
  rcases Except.bind_eq_ok_iff.mp hashed with ⟨first, once, twice⟩
  rw [sha256_eq_ok once, ripemd160] at twice
  split at twice
  · injection twice with same
    exact same.symm
  · cases twice

end Host

/-! ## Interop services -/

/-- The interop services that the modelled functions call. -/
inductive InteropService where
  | systemContractCall
  | systemCryptoCheckSig
  | systemCryptoCheckMultisig
deriving DecidableEq, Repr

/-- The name a service has in `interop_table`. -/
def InteropService.name : InteropService → String
  | .systemContractCall => "System.Contract.Call"
  | .systemCryptoCheckSig => "System.Crypto.CheckSig"
  | .systemCryptoCheckMultisig => "System.Crypto.CheckMultisig"

/-- `neoc_interop_get_hash`. -/
def Host.interopGetHash (host : Host) (service : InteropService) : UInt32 :=
  if host.interopHashed then
    UInt32.ofNat
      (LittleEndian.ofBytes
        ((host.sha256Digest (ascii service.name)).val.take 4))
  else
    0

/-! ## Known digests -/

/-- SHA-256 of the names of the services. -/
def serviceDigests : List (List UInt8 × Bytes 32) :=
  [
    (ascii "System.Contract.Call",
      Bytes.ofNat 32
        0x627D5B52093B5C7953CD1DC8C62D7589A0D284B409CBD13AB13A6130C1ECD4A5),
    (ascii "System.Crypto.CheckSig",
      Bytes.ofNat 32
        0x56E7B3273B2F761D33E495B4DC0A97F22BCE530EFFB96F7F72FBFD3FD81BEE20),
    (ascii "System.Crypto.CheckMultisig",
      Bytes.ofNat 32
        0x9ED0DC3A1CD08AD8F82C614D01E75F18D97CF2F27E594A338991ABA5D6083F68)
  ]

/-- The entries for SHA-256, once and twice, of some bytes. -/
def Host.twiceDigests (data : List UInt8) (once twice : Nat) :
    List (List UInt8 × Bytes 32) :=
  [(data, .ofNat 32 once), ((Bytes.ofNat 32 once).val, .ofNat 32 twice)]

/-- An initialised host that knows some digests and no others. -/
def Host.ofTables (sha256Table : List (List UInt8 × Bytes 32))
    (ripemd160Table : List (List UInt8 × Bytes 20)) : Host where
  sha256Digest data := (sha256Table.lookup data).getD (Bytes.zero 32)
  ripemd160Digest data := (ripemd160Table.lookup data).getD (Bytes.zero 20)
  cryptoInitialized := true
  interopHashed := true

/-! ## Base58Check -/

namespace Base58

/-- `NEOC_BASE58_ALPHABET`. -/
def alphabet : List UInt8 :=
  ascii "123456789ABCDEFGHJKLMNPQRSTUVWXYZabcdefghijkmnopqrstuvwxyz"

/-- `neoc_base58_decode_char`. -/
def decodeChar (character : UInt8) : Option Nat :=
  alphabet.findIdx? (· = character)

/--
One step of the decoder: multiply the number by 58 and add a digit.  The
number is kept in base 256, least significant digit first.  The carry stays
below 58, so at most one digit is added at the end.
-/
def mulAdd : List UInt8 → (carry : Nat) → List UInt8
  | [], carry => if carry = 0 then [] else [UInt8.ofNat (carry % 256)]
  | digit :: rest, carry =>
      UInt8.ofNat ((carry + 58 * digit.toNat) % 256) ::
        mulAdd rest ((carry + 58 * digit.toNat) / 256)

/-- The loop over the characters. -/
def digits : List UInt8 → List UInt8 → Outcome (List UInt8)
  | [], buf => .ok buf
  | character :: rest, buf =>
      match decodeChar character with
      | none =>
          .error (.error .invalidFormat "Invalid base58 character")
      | some carry => digits rest (mulAdd buf carry)

/-- The number of leading characters that stand for zero bytes. -/
def zeros (encoded : CString) : Nat :=
  (encoded.characters.takeWhile (· = 0x31)).length

/-- `neoc_base58_decode_buffer_size`. -/
def decodeBufferSize (encoded : CString) : Nat :=
  if encoded.strlen = 0 then 0
  else zeros encoded + ((encoded.strlen - zeros encoded) * 733 / 1000 + 1)

/-- `neoc_base58_decode`. -/
def decode (alloc : Allocator) (encoded : CString) (bufferSize : Nat) :
    Outcome (List UInt8) :=
  if alloc.neocGrants (encoded.strlen * 733 / 1000 + 1) = false then
    .error (.error .outOfMemory "Failed to allocate Base58 buffer")
  else do
    let buf ← digits (encoded.characters.drop (zeros encoded)) []
    let result :=
      List.replicate (zeros encoded) 0 ++ buf.reverse.dropWhile (· = 0)
    if bufferSize < result.length then
      .error (.error .bufferTooSmall "Buffer too small")
    else
      .ok result

/-- `neoc_base58_check_decode`. -/
def checkDecode (host : Host) (alloc : Allocator) (encoded : CString)
    (bufferSize : Nat) : Outcome (List UInt8) :=
  let tempSize := decodeBufferSize encoded
  if tempSize = 0 then
    .error (.error .invalidArgument "Invalid Base58 input")
  else if alloc.neocGrants tempSize = false then
    .error (.error .outOfMemory "Failed to allocate temp buffer")
  else do
    let temp ← decode alloc encoded tempSize
    if temp.length < 4 then
      .error (.error .invalidSize "Decoded data too short for checksum")
    else do
      let payload := temp.take (temp.length - 4)
      let hash ← host.sha256Double payload
      if temp.drop (temp.length - 4) ≠ hash.val.take 4 then
        .error (.error .invalidFormat "Checksum verification failed")
      else if bufferSize < payload.length then
        .error (.error .bufferTooSmall "Buffer too small")
      else
        .ok payload

/-- `neoc_base58_check_decode_alloc`; `none` is the `NULL` it returns. -/
def checkDecodeAlloc (host : Host) (alloc : Allocator) (encoded : CString) :
    Option (List UInt8) :=
  let bufferSize := decodeBufferSize encoded
  if bufferSize = 0 then
    none
  else if alloc.neocGrants bufferSize = false then
    none
  else
    match checkDecode host alloc encoded bufferSize with
    | .error _ => none
    | .ok payload => if payload.length < 4 then none else some payload

end Base58

/-! ## Script hashes -/

/-- A `neoc_hash160_t`. -/
abbrev Hash160 := Bytes 20

/-- A `neoc_hash256_t`. -/
abbrev Hash256 := Bytes 32

namespace Hash160

/-- `NEOC_ADDRESS_VERSION`. -/
def addressVersion : UInt8 := 0x35

/-- `neoc_hash160_from_script`. -/
def fromScript (host : Host) (script : List UInt8) : Outcome Hash160 := do
  let hashResult ← host.hash160 script
  .ok hashResult.reverse

theorem fromScript_eq_ok {host : Host} {script : List UInt8}
    {hash : Hash160} (hashed : fromScript host script = .ok hash) :
    hash = (host.scriptDigest script).reverse := by
  rcases Except.bind_eq_ok_iff.mp hashed with ⟨digest, digested, rest⟩
  injection rest with same
  rw [← same, Host.hash160_eq_ok digested]

theorem fromScript_of_initialized {host : Host}
    (initialized : host.cryptoInitialized = true) (script : List UInt8) :
    fromScript host script =
      .ok (host.scriptDigest script).reverse := by
  have digested :
      host.sha256 script = .ok (host.sha256Digest script) :=
    if_pos initialized
  have digested' :
      host.ripemd160 (host.sha256Digest script).val =
        .ok (host.scriptDigest script) :=
    if_pos initialized
  refine Except.bind_eq_ok_iff.mpr ⟨host.scriptDigest script, ?_, rfl⟩
  exact Except.bind_eq_ok_iff.mpr ⟨_, digested, digested'⟩

/-- `neoc_hash160_to_bytes`. -/
def toBytes (hash : Hash160) : List UInt8 :=
  hash.val

/-- `neoc_hash160_to_little_endian_bytes`. -/
def toLittleEndianBytes (hash : Hash160) : List UInt8 :=
  hash.val.reverse

/-- `neoc_hash160_from_address`. -/
def fromAddress (host : Host) (alloc : Allocator) (address : CString) :
    Outcome Hash160 :=
  match Base58.checkDecodeAlloc host alloc address with
  | none => .error (.error .invalidBase58 "")
  | some decoded =>
      if exact : decoded.length = 21 then
        if decoded.headD 0 ≠ addressVersion then
          .error (.error .invalidFormat "")
        else
          .ok ⟨(decoded.drop 1).reverse, by simp [exact]⟩
      else
        .error (.error .invalidFormat "")

end Hash160

/-- `neoc_hash256_to_little_endian_bytes`. -/
def Hash256.toLittleEndianBytes (hash : Hash256) : List UInt8 :=
  hash.val.reverse

end NeoC
