import NeoC.Crypto.Hash

/-!
# Keys and signatures on secp256r1

The arithmetic of the curve is OpenSSL's.  `Curve` carries what the library
asks of it: encoding and decoding points, and signing a hash.  A
`neoc_ec_public_key_t` stores its two encodings next to the point; they are
fields here too, with the fact that they encode that point.
-/

namespace NeoC

/-- The curve as OpenSSL offers it. -/
structure Curve where
  /-- The points that have a 33 byte form, so not the one at infinity. -/
  Point : Type
  PrivateKey : Type
  /-- `EC_POINT_point2oct` with `POINT_CONVERSION_COMPRESSED`. -/
  compressed : Point → Bytes 33
  /-- `EC_POINT_point2oct` with `POINT_CONVERSION_UNCOMPRESSED`. -/
  uncompressed : Point → Bytes 65
  /-- `EC_POINT_oct2point` on 33 or 65 bytes. -/
  decode : List UInt8 → Option Point
  /-- `ECDSA_do_sign`, with the two numbers padded to 32 bytes. -/
  ecdsaDoSign : PrivateKey → Bytes 32 → Option (Bytes 32 × Bytes 32)
  decode_compressed : ∀ point, decode (compressed point).val = some point

/-- A `neoc_ec_public_key_t`. -/
structure EcPublicKey (curve : Curve) where
  point : curve.Point
  compressed : Bytes 33
  uncompressed : Bytes 65
  isCompressed : Bool
  compressed_eq : compressed = curve.compressed point
  uncompressed_eq : uncompressed = curve.uncompressed point

namespace EcPublicKey

variable {curve : Curve}

/-- `sizeof(neoc_ec_public_key_t)`. -/
def structSize : Nat := 120

/-- The struct that is filled in once a point has been decoded. -/
def ofPoint (point : curve.Point) (isCompressed : Bool) :
    EcPublicKey curve where
  point := point
  compressed := curve.compressed point
  uncompressed := curve.uncompressed point
  isCompressed := isCompressed
  compressed_eq := rfl
  uncompressed_eq := rfl

/-- `neoc_ec_public_key_from_bytes`. -/
def fromBytes (curve : Curve) (alloc : Allocator) (encoded : List UInt8) :
    Outcome (EcPublicKey curve) :=
  if encoded.length ≠ 33 ∧ encoded.length ≠ 65 then
    .error (.error .invalidArgument "Invalid public key length")
  else if alloc.grants structSize = false then
    .error (.error .outOfMemory "Failed to allocate public key")
  else
    match curve.decode encoded with
    | none => .error (.error .crypto "Failed to decode public key")
    | some point => .ok (ofPoint point (decide (encoded.length = 33)))

/-- `neoc_ec_public_key_get_encoded`. -/
def getEncoded (alloc : Allocator) (publicKey : EcPublicKey curve)
    (compressed : Bool) : Outcome (List UInt8) :=
  if compressed then
    if alloc.grants 33 then
      .ok publicKey.compressed.val
    else
      .error (.error .outOfMemory "Failed to allocate memory")
  else if alloc.grants 65 then
    .ok publicKey.uncompressed.val
  else
    .error (.error .outOfMemory "Failed to allocate memory")

/-- The compressed form of a key is decoded to its point. -/
theorem fromBytes_compressed {alloc : Allocator}
    (granted : alloc.grants structSize = true)
    (publicKey : EcPublicKey curve) :
    fromBytes curve alloc publicKey.compressed.val =
      .ok (ofPoint publicKey.point true) := by
  have decoded :
      curve.decode publicKey.compressed.val = some publicKey.point := by
    rw [publicKey.compressed_eq]
    exact curve.decode_compressed publicKey.point
  simp [fromBytes, publicKey.compressed.property, granted, decoded]

end EcPublicKey

/-- A `neoc_ec_key_pair_t`. -/
structure EcKeyPair (curve : Curve) where
  privateKey : curve.PrivateKey
  publicKey : EcPublicKey curve

namespace EcKeyPair

variable {curve : Curve}

/-- `sizeof(neoc_ecdsa_signature_t)`. -/
def signatureSize : Nat := 64

/-- `neoc_ec_key_pair_sign`; the pair holds `r` and `s`. -/
def sign (alloc : Allocator) (keyPair : EcKeyPair curve)
    (messageHash : Bytes 32) : Outcome (Bytes 32 × Bytes 32) :=
  if alloc.grants signatureSize = false then
    .error (.error .outOfMemory "Failed to allocate signature")
  else
    match curve.ecdsaDoSign keyPair.privateKey messageHash with
    | none => .error (.error .crypto "Failed to create signature")
    | some signature => .ok signature

/-- `neoc_ec_key_pair_get_public_key` into a buffer of 65 bytes. -/
def getPublicKey (keyPair : EcKeyPair curve) : Bytes 33 :=
  keyPair.publicKey.compressed

end EcKeyPair

/-- `neoc_ecdsa_signature_to_bytes`. -/
def ecdsaSignatureToBytes (alloc : Allocator)
    (signature : Bytes 32 × Bytes 32) : Outcome (Bytes 64) :=
  if alloc.neocGrants 64 then
    .ok
      ⟨signature.1.val ++ signature.2.val, by
        rw [List.length_append, signature.1.property, signature.2.property]⟩
  else
    .error (.error .outOfMemory "Failed to allocate signature buffer")

/-! ## The base point -/

/-- The compressed form of the base point. -/
def basePointCompressed : List UInt8 :=
  [0x03, 0x6B, 0x17, 0xD1, 0xF2, 0xE1, 0x2C, 0x42, 0x47, 0xF8, 0xBC, 0xE6,
    0xE5, 0x63, 0xA4, 0x40, 0xF2, 0x77, 0x03, 0x7D, 0x81, 0x2D, 0xEB, 0x33,
    0xA0, 0xF4, 0xA1, 0x39, 0x45, 0xD8, 0x98, 0xC2, 0x96]

/-- The uncompressed form of the base point. -/
def basePointUncompressed : List UInt8 :=
  [0x04, 0x6B, 0x17, 0xD1, 0xF2, 0xE1, 0x2C, 0x42, 0x47, 0xF8, 0xBC, 0xE6,
    0xE5, 0x63, 0xA4, 0x40, 0xF2, 0x77, 0x03, 0x7D, 0x81, 0x2D, 0xEB, 0x33,
    0xA0, 0xF4, 0xA1, 0x39, 0x45, 0xD8, 0x98, 0xC2, 0x96, 0x4F, 0xE3, 0x42,
    0xE2, 0xFE, 0x1A, 0x7F, 0x9B, 0x8E, 0xE7, 0xEB, 0x4A, 0x7C, 0x0F, 0x9E,
    0x16, 0x2B, 0xCE, 0x33, 0x57, 0x6B, 0x31, 0x5E, 0xCE, 0xCB, 0xB6, 0x40,
    0x68, 0x37, 0xBF, 0x51, 0xF5]

theorem length_basePointCompressed : basePointCompressed.length = 33 :=
  rfl

theorem length_basePointUncompressed : basePointUncompressed.length = 65 :=
  rfl

/--
The curve reduced to its base point and the private key one.  The function
holds the signatures made with that key.
-/
def Curve.basePoint
    (signatures : Bytes 32 → Option (Bytes 32 × Bytes 32)) : Curve where
  Point := Unit
  PrivateKey := Unit
  compressed _ :=
    ⟨basePointCompressed, rfl⟩
  uncompressed _ :=
    ⟨basePointUncompressed, rfl⟩
  decode encoded :=
    if encoded = basePointCompressed ∨ encoded = basePointUncompressed then
      some ()
    else
      none
  ecdsaDoSign _ := signatures
  decode_compressed _ := if_pos (.inl rfl)

/-- The curve reduced to its base point and the inverse of that point. -/
def Curve.basePoints : Curve where
  Point := Bool
  PrivateKey := Unit
  compressed inverse :=
    if inverse then ⟨0x02 :: basePointCompressed.drop 1, rfl⟩
    else (Curve.basePoint fun _ => none).compressed ()
  uncompressed inverse :=
    if inverse then
      ⟨basePointUncompressed.take 33 ++
        (Bytes.ofNat 32
          0xB01CBD1C01E58065711814B583F061E9D431CCA994CEA1313449BF97C840AE0A).val,
        rfl⟩
    else (Curve.basePoint fun _ => none).uncompressed ()
  decode encoded :=
    if encoded = basePointCompressed then some false
    else if encoded = 0x02 :: basePointCompressed.drop 1 then some true
    else none
  ecdsaDoSign _ _ := none
  decode_compressed := by decide

/-- The key of the base point. -/
def baseKey : EcPublicKey Curve.basePoints :=
  EcPublicKey.ofPoint false true

/-- The key of the inverse of the base point. -/
def inverseKey : EcPublicKey Curve.basePoints :=
  EcPublicKey.ofPoint true true

end NeoC
