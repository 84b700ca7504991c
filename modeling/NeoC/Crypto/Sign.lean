import NeoC.Crypto.EcdsaSignature
import NeoC.Foundation.SignatureAlgebra
import NeoC.Runtime.Hex
import NeoC.Script.ScriptHelper
import NeoC.Transaction.Sign

/-!
# Signing messages and recovering keys

A message is signed with its digest.  The signature is made canonical
afterwards, so the identifier that tells the four possible keys apart is found
by recovering each of them and comparing it with the key of the signer.  That
search is what makes recovery give back the signer, and the algebra of the
curve is what makes the altered signature verify.

The arithmetic of the curve is OpenSSL's; `CurveGroup` carries it as a
commutative group in which the generator has the order of the curve.
-/

namespace NeoC

open Foundation SignatureAlgebra
open Bip32 (bin2bn)

/--
The equation of ECDSA, over the operations of a group: the numbers are in
range, and the sum that they give of the generator and the key has the first
of them as its `x`.
-/
def Verifies {Point Element : Type} [AddCommGroup Element]
    (generator : Element) (element : Point → Element)
    (affine : Element → Option Point) (xCoordinate : Point → Nat)
    (messageHash r s : Bytes 32) (point : Point) : Prop :=
  (0 < bin2bn r.val ∧ bin2bn r.val < secp256r1Order) ∧
    (0 < bin2bn s.val ∧ bin2bn s.val < secp256r1Order) ∧
      ∃ inverse ∈ modInverse (bin2bn s.val) secp256r1Order,
        ∃ commitment ∈
            affine
              ((bin2bn messageHash.val * inverse % secp256r1Order) •
                  generator +
                (bin2bn r.val * inverse % secp256r1Order) • element point),
          xCoordinate commitment % secp256r1Order = bin2bn r.val

instance {Point Element : Type} [AddCommGroup Element]
    {generator : Element} {element : Point → Element}
    {affine : Element → Option Point} {xCoordinate : Point → Nat}
    {messageHash r s : Bytes 32} {point : Point} :
    Decidable
      (Verifies generator element affine xCoordinate messageHash r s
        point) :=
  inferInstanceAs (Decidable (_ ∧ _ ∧ ∃ _ ∈ _, ∃ _ ∈ _, _))

/-- The group of the curve as OpenSSL offers it. -/
structure CurveGroup (curve : Curve) where
  /-- `EC_POINT_add` is the sum, and the point at infinity is zero. -/
  Element : Type
  [addCommGroup : AddCommGroup Element]
  [decidableEq : DecidableEq Element]
  /-- `EC_GROUP_get0_generator`. -/
  generator : Element
  /-- `EC_GROUP_get_curve_GFp`. -/
  prime : Nat
  element : curve.Point → Element
  /-- The coordinates of an element; the point at infinity has none. -/
  affine : Element → Option curve.Point
  xCoordinate : curve.Point → Nat
  /-- `EC_POINT_set_compressed_coordinates_GFp`. -/
  setCompressedCoordinates : Nat → Bool → Option curve.Point
  /-- `ECDSA_do_verify`. -/
  ecdsaDoVerify : Bytes 32 → Bytes 32 → Bytes 32 → curve.Point → Bool
  order_nsmul_generator : secp256r1Order • generator = 0
  affine_element : ∀ point, affine (element point) = some point
  element_of_affine :
    ∀ value point, affine value = some point → element point = value
  xCoordinate_of_set :
    ∀ x odd point,
      setCompressedCoordinates x odd = some point → xCoordinate point = x
  /-- The two numbers of `ECDSA_do_sign` are residues other than zero. -/
  ecdsaDoSign_range :
    ∀ key digest r s,
      curve.ecdsaDoSign key digest = some (r, s) →
        (0 < bin2bn r.val ∧ bin2bn r.val < secp256r1Order) ∧
          0 < bin2bn s.val ∧ bin2bn s.val < secp256r1Order
  ecdsaDoVerify_iff :
    ∀ messageHash r s point,
      ecdsaDoVerify messageHash r s point = true ↔
        Verifies generator element affine xCoordinate messageHash r s point

attribute [instance] CurveGroup.addCommGroup CurveGroup.decidableEq

/-- A `neoc_signature_data_t`. -/
structure SignatureData where
  v : UInt8
  r : Bytes 32
  s : Bytes 32
deriving DecidableEq

namespace Sign

/-- `NEOC_RECOVERY_V_OFFSET`. -/
def recoveryVOffset : Nat := 27

/-- `sizeof(neoc_signature_data_t)`. -/
def signatureDataSize : Nat := 65

/-- `neoc_compute_message_hash`. -/
def computeMessageHash (host : Host) : Buffer → Outcome (Bytes 32)
  | .null messageLen =>
      if 0 < messageLen then
        .error (.error .invalidArgument "Message pointer is NULL")
      else
        host.sha256 []
  | .items message => host.sha256 message

section Functions

variable {curve : Curve} (group : CurveGroup curve) (host : Host)
  (alloc : Allocator)

/-- The steps of `neoc_recover_from_signature` on a candidate point. -/
def recoverFromPoint (signature : EcdsaSignature) (messageHash : Bytes 32)
    (pointR : curve.Point) : Outcome (EcPublicKey curve) :=
  if secp256r1Order • group.element pointR ≠ 0 then
    .error (.error .notFound "Candidate point is not valid on curve")
  else
    match modInverse (bin2bn signature.r.val) secp256r1Order with
    | none =>
        .error (.error .crypto "Failed to compute inverse of r")
    | some rInv =>
        let eInv := modNegate (bin2bn messageHash.val) secp256r1Order
        let srInv := bin2bn signature.s.val * rInv % secp256r1Order
        let eInvrInv := eInv * rInv % secp256r1Order
        match
          group.affine
            (srInv • group.element pointR + eInvrInv • group.generator)
        with
        | none =>
            .error (.error .crypto "Failed to encode recovered public key")
        | some publicPoint =>
            EcPublicKey.fromBytes curve alloc
              (curve.compressed publicPoint).val

/-- `neoc_recover_from_signature`. -/
def recoverFromSignature (recId : Int) (signature : EcdsaSignature)
    (messageHash : Bytes 32) : Outcome (EcPublicKey curve) :=
  if recId < 0 ∨ 3 < recId then
    .error
      (.error .invalidArgument
        "Recovery identifier must be between 0 and 3")
  else
    let x :=
      secp256r1Order * (recId.toNat / 2) + bin2bn signature.r.val
    if group.prime ≤ x then
      .error (.error .notFound "Candidate x is outside field range")
    else
      match
        group.setCompressedCoordinates x (decide (recId.toNat % 2 = 1))
      with
      | none =>
          .error (.error .notFound "Failed to decompress candidate point")
      | some pointR =>
          recoverFromPoint group alloc signature messageHash pointR

/-- The loop of `neoc_find_recovery_id` over the identifiers that are left. -/
def findRecoveryIdFrom (messageHash : Bytes 32)
    (signature : EcdsaSignature) (keyPair : EcKeyPair curve) :
    List Int → Outcome Int
  | [] =>
      .error (.error .crypto "Could not determine recovery identifier")
  | recId :: rest =>
      match recoverFromSignature group alloc recId signature messageHash with
      | .error (.error .notFound _) =>
          findRecoveryIdFrom messageHash signature keyPair rest
      | .error reason => .error reason
      | .ok candidate =>
          if candidate.compressed = keyPair.publicKey.compressed then
            .ok recId
          else
            findRecoveryIdFrom messageHash signature keyPair rest

/-- `neoc_find_recovery_id`. -/
def findRecoveryId (messageHash : Bytes 32) (signature : EcdsaSignature)
    (keyPair : EcKeyPair curve) : Outcome Int :=
  findRecoveryIdFrom group alloc messageHash signature keyPair [0, 1, 2, 3]

/-- `neoc_signature_data_from_ecdsa`. -/
def signatureDataFromEcdsa (recId : Int) (signature : EcdsaSignature) :
    Outcome SignatureData :=
  if recId < 0 ∨ 3 < recId then
    .error (.error .invalidArgument "Invalid recovery identifier")
  else if alloc.neocGrants signatureDataSize = false then
    .error (.error .outOfMemory "Failed to allocate signature data")
  else
    .ok
      { v := UInt8.ofNat (recId.toNat + recoveryVOffset)
        r := signature.r
        s := signature.s }

/-- `neoc_sign_message`. -/
def signMessage (message : Buffer) (keyPair : EcKeyPair curve) :
    Outcome SignatureData := do
  let messageHash ← computeMessageHash host message
  let pair ← keyPair.sign alloc messageHash
  let signature ←
    EcdsaSignature.makeCanonical secp256r1Order ⟨pair.1, pair.2⟩
  let recId ← findRecoveryId group alloc messageHash signature keyPair
  signatureDataFromEcdsa alloc recId signature

/-- `neoc_sign_hex_message`, where nothing is written for a failed decode. -/
def signHexMessage (hexMessage : CString) (keyPair : EcKeyPair curve) :
    Outcome SignatureData :=
  let decoded := Hex.decodeAlloc alloc hexMessage
  let decodedLen := (decoded.map List.length).getD 0
  if decoded = none ∧ 0 < decodedLen then
    .error (.error .invalidHex "Failed to decode hex message")
  else
    match decoded with
    | none => signMessage group host alloc (.null decodedLen) keyPair
    | some bytes => signMessage group host alloc (.items bytes) keyPair

/-- The identifier that `v` stands for. -/
def recIdOf (v : UInt8) : Option Int :=
  if recoveryVOffset ≤ v.toNat ∧ v.toNat < recoveryVOffset + 8 then
    some ((v.toNat : Int) - recoveryVOffset)
  else if v.toNat < 4 then
    some v.toNat
  else
    none

/-- `neoc_signed_message_to_key`. -/
def signedMessageToKey (message : Buffer) (sigData : SignatureData) :
    Outcome (EcPublicKey curve) :=
  match recIdOf sigData.v with
  | none =>
      .error (.error .invalidArgument "Unsupported recovery identifier")
  | some recId =>
      if alloc.neocGrants EcKeyPair.signatureSize = false then
        .error (.error .outOfMemory "Failed to allocate signature")
      else do
        let messageHash ← computeMessageHash host message
        recoverFromSignature group alloc recId ⟨sigData.r, sigData.s⟩
          messageHash

/-- `neoc_recover_signing_script_hash`. -/
def recoverSigningScriptHash (message : Buffer) (sigData : SignatureData) :
    Outcome Hash160 := do
  let publicKey ← signedMessageToKey group host alloc message sigData
  let encoded ← publicKey.getEncoded alloc true
  if exact : encoded.length = 33 then
    Hash160.fromPublicKey host alloc ⟨encoded, exact⟩
  else
    .error (.error .invalidLength "Unexpected public key length")

/-- `neoc_verify_signature`. -/
def verifySignature (message : Buffer) (sigData : SignatureData)
    (publicKey : EcPublicKey curve) : Bool :=
  match computeMessageHash host message with
  | .error _ => false
  | .ok messageHash =>
      group.ecdsaDoVerify messageHash sigData.r sigData.s publicKey.point

end Functions

section Recovery

variable {curve : Curve} {group : CurveGroup curve} {host : Host}
  {alloc : Allocator}

/-! ## What a recovered key is -/

/-- The key that a point and a signature determine. -/
structure Recovered (group : CurveGroup curve) (signature : EcdsaSignature)
    (messageHash : Bytes 32) (pointR publicPoint : curve.Point) : Prop where
  order : secp256r1Order • group.element pointR = 0
  inverts :
    ∃ rInv,
      modInverse (bin2bn signature.r.val) secp256r1Order = some rInv ∧
        group.element publicPoint =
          (bin2bn signature.s.val * rInv % secp256r1Order) •
              group.element pointR +
            (modNegate (bin2bn messageHash.val) secp256r1Order * rInv %
                secp256r1Order) •
              group.generator
  decoded : curve.decode (curve.compressed publicPoint).val = some publicPoint

/-- A key that is recovered from a point is the one it determines. -/
theorem recoverFromPoint_eq_ok {signature : EcdsaSignature}
    {messageHash : Bytes 32} {pointR : curve.Point}
    {publicKey : EcPublicKey curve}
    (recovered :
      recoverFromPoint group alloc signature messageHash pointR =
        .ok publicKey) :
    ∃ publicPoint,
      Recovered group signature messageHash pointR publicPoint ∧
        publicKey = EcPublicKey.ofPoint publicPoint true := by
  rw [recoverFromPoint] at recovered
  split at recovered
  · cases recovered
  rename_i order
  split at recovered
  · cases recovered
  rename_i rInv inverts
  dsimp only at recovered
  split at recovered
  · cases recovered
  rename_i publicPoint computed
  have decoded := curve.decode_compressed publicPoint
  refine
    ⟨publicPoint,
      ⟨not_ne_iff.mp order,
        ⟨rInv, inverts, group.element_of_affine _ _ computed⟩, decoded⟩, ?_⟩
  have length := (curve.compressed publicPoint).property
  rw [EcPublicKey.fromBytes, if_neg (by omega)] at recovered
  split at recovered
  · cases recovered
  rw [decoded] at recovered
  injection recovered with same
  rw [← same]
  simp [length]

/-- With memory, a key that a point determines is recovered from it. -/
theorem recoverFromPoint_eq {signature : EcdsaSignature}
    {messageHash : Bytes 32} {pointR publicPoint : curve.Point}
    (recovered : Recovered group signature messageHash pointR publicPoint)
    (granted : alloc.grants EcPublicKey.structSize = true) :
    recoverFromPoint group alloc signature messageHash pointR =
      .ok (EcPublicKey.ofPoint publicPoint true) := by
  rcases recovered.inverts with ⟨rInv, inverts, computed⟩
  have affine := group.affine_element publicPoint
  rw [computed] at affine
  have built :=
    EcPublicKey.fromBytes_compressed granted
      (EcPublicKey.ofPoint publicPoint true)
  rw [recoverFromPoint, if_neg (not_not_intro recovered.order), inverts]
  dsimp only
  rw [affine]
  exact built

/-- The candidate point of an identifier. -/
def Candidate (group : CurveGroup curve) (recId : Int)
    (signature : EcdsaSignature) (pointR : curve.Point) : Prop :=
  0 ≤ recId ∧ recId ≤ 3 ∧
    secp256r1Order * (recId.toNat / 2) + bin2bn signature.r.val <
      group.prime ∧
    group.setCompressedCoordinates
        (secp256r1Order * (recId.toNat / 2) + bin2bn signature.r.val)
        (decide (recId.toNat % 2 = 1)) =
      some pointR

/-- A key that is recovered belongs to the point of its identifier. -/
theorem recoverFromSignature_eq_ok {recId : Int}
    {signature : EcdsaSignature} {messageHash : Bytes 32}
    {publicKey : EcPublicKey curve}
    (recovered :
      recoverFromSignature group alloc recId signature messageHash =
        .ok publicKey) :
    ∃ pointR publicPoint,
      Candidate group recId signature pointR ∧
        Recovered group signature messageHash pointR publicPoint ∧
        publicKey = EcPublicKey.ofPoint publicPoint true := by
  rw [recoverFromSignature] at recovered
  split at recovered
  · cases recovered
  rename_i range
  dsimp only at recovered
  split at recovered
  · cases recovered
  rename_i inField
  split at recovered
  · cases recovered
  rename_i pointR decompressed
  rcases recoverFromPoint_eq_ok recovered with ⟨publicPoint, key, shape⟩
  exact
    ⟨pointR, publicPoint,
      ⟨by omega, by omega, Nat.lt_of_not_le inField, decompressed⟩, key,
      shape⟩

/-- With memory, the key of a candidate point is recovered. -/
theorem recoverFromSignature_eq {recId : Int}
    {signature : EcdsaSignature} {messageHash : Bytes 32}
    {pointR publicPoint : curve.Point}
    (candidate : Candidate group recId signature pointR)
    (recovered : Recovered group signature messageHash pointR publicPoint)
    (granted : alloc.grants EcPublicKey.structSize = true) :
    recoverFromSignature group alloc recId signature messageHash =
      .ok (EcPublicKey.ofPoint publicPoint true) := by
  rcases candidate with ⟨low, high, inField, decompressed⟩
  rw [recoverFromSignature, if_neg (by omega)]
  dsimp only
  rw [if_neg (Nat.not_le_of_lt inField), decompressed]
  exact recoverFromPoint_eq recovered granted

/-- An identifier that is found recovers the key that was looked for. -/
theorem findRecoveryIdFrom_eq_ok {messageHash : Bytes 32}
    {signature : EcdsaSignature} {keyPair : EcKeyPair curve}
    {ids : List Int} {recId : Int}
    (found :
      findRecoveryIdFrom group alloc messageHash signature keyPair ids =
        .ok recId) :
    ∃ candidate,
      recoverFromSignature group alloc recId signature messageHash =
          .ok candidate ∧
        candidate.compressed = keyPair.publicKey.compressed := by
  induction ids with
  | nil => cases found
  | cons first rest induction =>
      rw [findRecoveryIdFrom] at found
      split at found
      · exact induction found
      · cases found
      · rename_i candidate recovered
        split at found
        · rename_i same
          injection found with equal
          subst equal
          exact ⟨candidate, recovered, same⟩
        · exact induction found

/-! ## What is signed -/

/-- A signature with its identifier, which belong to a key and a digest. -/
structure SignedFor (group : CurveGroup curve) (messageHash : Bytes 32)
    (sigData : SignatureData) (point : curve.Point) : Prop where
  recovers :
    ∃ recId pointR,
      recIdOf sigData.v = some recId ∧
        Candidate group recId ⟨sigData.r, sigData.s⟩ pointR ∧
        Recovered group ⟨sigData.r, sigData.s⟩ messageHash pointR point
  rRange :
    0 < bin2bn sigData.r.val ∧ bin2bn sigData.r.val < secp256r1Order
  sRange :
    0 < bin2bn sigData.s.val ∧ bin2bn sigData.s.val < secp256r1Order

/-- Equal encodings belong to one point. -/
theorem point_of_compressed {first second : curve.Point}
    (same : curve.compressed first = curve.compressed second) :
    first = second := by
  have decoded := curve.decode_compressed first
  rw [same, curve.decode_compressed second] at decoded
  injection decoded with equal
  exact equal.symm

/-- The identifiers that are tried are read back from `v`. -/
theorem recIdOf_ofNat {recId : Int} (low : 0 ≤ recId) (high : recId ≤ 3) :
    recIdOf (UInt8.ofNat (recId.toNat + recoveryVOffset)) = some recId := by
  have value :
      (UInt8.ofNat (recId.toNat + recoveryVOffset)).toNat =
        recId.toNat + recoveryVOffset := by
    rw [UInt8.toNat_ofNat', recoveryVOffset, Nat.mod_eq_of_lt (by omega)]
  rw [recIdOf, value, if_pos (by omega)]
  congr 1
  omega

/-- A digest is only computed by a library that can hash. -/
theorem initialized_of_computeMessageHash {message : Buffer}
    {messageHash : Bytes 32}
    (hashed : computeMessageHash host message = .ok messageHash) :
    host.cryptoInitialized = true := by
  have initialized_of_sha256 :
      ∀ data, host.sha256 data = .ok messageHash →
        host.cryptoInitialized = true := by
    intro data digested
    rw [Host.sha256] at digested
    split at digested
    · assumption
    · cases digested
  cases message with
  | null messageLen =>
      rw [computeMessageHash] at hashed
      split at hashed
      · cases hashed
      · exact initialized_of_sha256 _ hashed
  | items content => exact initialized_of_sha256 _ hashed

/-- A signature that was made canonical is in range as before. -/
theorem range_of_makeCanonical {signature canonical : EcdsaSignature}
    (positive : 0 < signature.sValue)
    (below : signature.sValue < secp256r1Order)
    (made :
      EcdsaSignature.makeCanonical secp256r1Order signature =
        .ok canonical) :
    canonical.r = signature.r ∧ 0 < canonical.sValue ∧
      canonical.sValue < secp256r1Order := by
  rcases EcdsaSignature.makeCanonical_settles below with
    ⟨settled, found, sameR, value, -, -⟩
  injection made.symm.trans found with same
  subst same
  refine ⟨sameR, ?_⟩
  rw [value]
  split
  · exact ⟨positive, below⟩
  · omega

/-- A message that is signed is signed for the key of the signer. -/
theorem signMessage_eq_ok {message : Buffer} {keyPair : EcKeyPair curve}
    {sigData : SignatureData}
    (signed :
      signMessage group host alloc message keyPair = .ok sigData) :
    ∃ messageHash,
      computeMessageHash host message = .ok messageHash ∧
        SignedFor group messageHash sigData keyPair.publicKey.point := by
  rcases Except.bind_eq_ok_iff.mp signed with ⟨messageHash, hashed, rest⟩
  rcases Except.bind_eq_ok_iff.mp rest with ⟨⟨r, s⟩, made, rest⟩
  rcases Except.bind_eq_ok_iff.mp rest with ⟨canonical, settled, rest⟩
  rcases Except.bind_eq_ok_iff.mp rest with ⟨recId, found, rest⟩
  refine ⟨messageHash, hashed, ?_⟩
  have computed :
      curve.ecdsaDoSign keyPair.privateKey messageHash = some (r, s) := by
    rw [EcKeyPair.sign] at made
    split at made
    · cases made
    split at made
    · cases made
    · rename_i signature computed
      injection made with same
      rw [← same]
      exact computed
  rcases group.ecdsaDoSign_range _ _ _ _ computed with ⟨rRange, sRange⟩
  rcases @range_of_makeCanonical ⟨r, s⟩ canonical sRange.1 sRange.2
      settled with
    ⟨sameR, positive, below⟩
  rcases findRecoveryIdFrom_eq_ok found with ⟨candidate, recovered, same⟩
  rcases recoverFromSignature_eq_ok recovered with
    ⟨pointR, publicPoint, isCandidate, isKey, rfl⟩
  have key : publicPoint = keyPair.publicKey.point := by
    apply point_of_compressed
    rw [← keyPair.publicKey.compressed_eq]
    exact same
  subst key
  rw [signatureDataFromEcdsa] at rest
  split at rest
  · cases rest
  rename_i range
  split at rest
  · cases rest
  injection rest with shape
  subst shape
  exact
    { recovers :=
        ⟨recId, pointR, recIdOf_ofNat (by omega) (by omega), isCandidate,
          isKey⟩
      rRange := by
        dsimp only
        rw [sameR]
        exact rRange
      sRange := ⟨positive, below⟩ }

/-! ## What is read back -/

/-- With memory, the key that a message is signed for is recovered. -/
theorem signedMessageToKey_eq {message : Buffer} {messageHash : Bytes 32}
    {sigData : SignatureData} {point : curve.Point}
    (hashed : computeMessageHash host message = .ok messageHash)
    (signed : SignedFor group messageHash sigData point)
    (serves : alloc.Serves 120) :
    signedMessageToKey group host alloc message sigData =
      .ok (EcPublicKey.ofPoint point true) := by
  rcases signed.recovers with ⟨recId, pointR, read, isCandidate, isKey⟩
  have granted : alloc.neocGrants EcKeyPair.signatureSize = true :=
    serves.neocGrants (by decide) (by decide)
  rw [signedMessageToKey, read]
  dsimp only
  rw [if_neg (by simp [granted])]
  refine Except.bind_eq_ok_iff.mpr ⟨messageHash, hashed, ?_⟩
  exact recoverFromSignature_eq isCandidate isKey (serves _ (by decide))

/-- The signature verifies under the key that it is for. -/
theorem ecdsaDoVerify_of_signedFor {messageHash : Bytes 32}
    {sigData : SignatureData} {point : curve.Point}
    (signed : SignedFor group messageHash sigData point) :
    group.ecdsaDoVerify messageHash sigData.r sigData.s point = true := by
  have positive : 0 < secp256r1Order := secp256r1Order_prime.pos
  rcases signed with
    ⟨⟨recId, pointR, -, ⟨-, -, -, decompressed⟩, isKey⟩, rRange, sRange⟩
  rcases isKey.inverts with ⟨rInv, inverts, computed⟩
  rcases exists_modInverse secp256r1Order_prime sRange.1 sRange.2 with
    ⟨sInv, inverts'⟩
  have commitment :=
    @recovered_verifies _ _ _ positive _ _ group.order_nsmul_generator
      isKey.order _ _ (bin2bn messageHash.val) _ _
      (mul_of_modInverse positive inverts)
      (mul_of_modInverse positive inverts')
  have x := group.xCoordinate_of_set _ _ _ decompressed
  refine
    (group.ecdsaDoVerify_iff _ _ _ _).mpr
      ⟨rRange, sRange, sInv, inverts', pointR, ?_, ?_⟩
  · rw [computed, commitment]
    exact group.affine_element pointR
  · rw [x, Nat.mul_add_mod]
    exact Nat.mod_eq_of_lt rRange.2

/--
A message that is signed gives back its signer: the public key is recovered
from it, the script hash is the one of the script that checks the signature
of this key, and the signature verifies.
-/
theorem signed_message_recovers
    {message : Buffer}
    {keyPair : EcKeyPair curve}
    {sigData : SignatureData}
    (signed :
      signMessage group host alloc message keyPair = .ok sigData)
    {memory : Allocator}
    (serves : memory.Serves 256) :
    signedMessageToKey group host memory message sigData =
        .ok (EcPublicKey.ofPoint keyPair.publicKey.point true) ∧
      (∃ script scriptHash,
        ScriptHelper.createSingleSigVerification host memory
              keyPair.publicKey.compressed.val =
            .ok script ∧
          Hash160.fromScript host script = .ok scriptHash ∧
          recoverSigningScriptHash group host memory message sigData =
            .ok scriptHash) ∧
      verifySignature group host message sigData keyPair.publicKey = true := by
  rcases signMessage_eq_ok signed with ⟨messageHash, hashed, signedFor⟩
  have recovered :=
    signedMessageToKey_eq hashed signedFor (serves.mono (by decide))
  have initialized := initialized_of_computeMessageHash hashed
  have length := keyPair.publicKey.compressed.property
  have built :=
    @ScriptHelper.createSingleSigVerification_eq host memory
      keyPair.publicKey.compressed.val length serves
  refine ⟨recovered, ?_, ?_⟩
  · refine ⟨_, _, built, Hash160.fromScript_of_initialized initialized _, ?_⟩
    have encoded :
        (EcPublicKey.ofPoint keyPair.publicKey.point true).getEncoded memory
            true =
          .ok keyPair.publicKey.compressed.val := by
      rw [EcPublicKey.getEncoded, if_pos rfl,
        if_pos (serves _ (by decide)), keyPair.publicKey.compressed_eq]
      rfl
    refine Except.bind_eq_ok_iff.mpr ⟨_, recovered, ?_⟩
    refine Except.bind_eq_ok_iff.mpr ⟨_, encoded, ?_⟩
    rw [dif_pos length]
    exact
      Except.bind_eq_ok_iff.mpr
        ⟨_, built, Hash160.fromScript_of_initialized initialized _⟩
  · rw [verifySignature, hashed]
    exact ecdsaDoVerify_of_signedFor signedFor

end Recovery

/-! ## The group of exponents -/

instance : NeZero secp256r1Order :=
  ⟨secp256r1Order_prime.ne_zero⟩

/-- A point other than infinity, as a multiple of the base point. -/
def Exponent : Type :=
  { value : Nat // 0 < value ∧ value < secp256r1Order }

/-- The exponents of the base point and of the points used below. -/
def exponent (value : Nat) (positive : 0 < value)
    (below : value < secp256r1Order) : Exponent :=
  ⟨value, positive, below⟩

/-- The base point. -/
def one : Exponent :=
  exponent 1 (by decide) (by decide)

/-- The base point is encoded as it is; other points by their exponents. -/
def Exponent.compressed (point : Exponent) : Bytes 33 :=
  if point.val = 1 then
    ⟨basePointCompressed, length_basePointCompressed⟩
  else
    ⟨0x02 :: (Bip32.bn2binpad point.val).val, by
      rw [List.length_cons, (Bip32.bn2binpad point.val).property]⟩

/-- The decoder of these encodings. -/
def decodeExponent (encoded : List UInt8) : Option Exponent :=
  if encoded = basePointCompressed ∨ encoded = basePointUncompressed then
    some one
  else if range :
      0 < bin2bn (encoded.drop 1) ∧
        bin2bn (encoded.drop 1) < secp256r1Order then
    some ⟨bin2bn (encoded.drop 1), range⟩
  else
    none

theorem decodeExponent_compressed (point : Exponent) :
    decodeExponent point.compressed.val = some point := by
  by_cases base : point.val = 1
  · have same : point = one := Subtype.ext base
    subst same
    rfl
  · have encoded :
        point.compressed.val =
          0x02 :: (Bip32.bn2binpad point.val).val := by
      rw [Exponent.compressed, if_neg base]
    have value : bin2bn (Bip32.bn2binpad point.val).val = point.val :=
      bin2bn_bn2binpad_of_lt
        (point.property.2.trans (by decide))
    rw [encoded, decodeExponent, if_neg, List.drop_one, List.tail_cons,
      dif_pos (by rw [value]; exact point.property)]
    · exact congrArg some (Subtype.ext value)
    · rintro (same | same)
      · injection same with first
        cases first
      · injection same with first
        cases first

/-- The curve on exponents, with the signatures that a table holds. -/
def exponentCurve (signatures : Bytes 32 → Option (Bytes 32 × Bytes 32)) :
    Curve where
  Point := Exponent
  PrivateKey := Unit
  compressed := Exponent.compressed
  uncompressed _ := ⟨basePointUncompressed, length_basePointUncompressed⟩
  decode := decodeExponent
  ecdsaDoSign _ := signatures
  decode_compressed := decodeExponent_compressed

/-- A point that OpenSSL finds for an `x` coordinate and an even `y`. -/
structure EvenPoint where
  x : Nat
  point : Exponent

/-- The group of exponents, with the one point that is looked for. -/
def exponentGroup {signatures : Bytes 32 → Option (Bytes 32 × Bytes 32)}
    (range :
      ∀ digest r s,
        signatures digest = some (r, s) →
          (0 < bin2bn r.val ∧ bin2bn r.val < secp256r1Order) ∧
            0 < bin2bn s.val ∧ bin2bn s.val < secp256r1Order)
    (even : EvenPoint) : CurveGroup (exponentCurve signatures) where
  Element := ZMod secp256r1Order
  generator := 1
  prime :=
    0xFFFFFFFF00000001000000000000000000000000FFFFFFFFFFFFFFFFFFFFFFFF
  element point := (point.val : ZMod secp256r1Order)
  affine value :=
    if finite : 0 < value.val then
      some ⟨value.val, finite, ZMod.val_lt value⟩
    else
      none
  xCoordinate point :=
    if point.val = even.point.val then even.x else point.val
  setCompressedCoordinates x odd :=
    if x = even.x ∧ odd = false then some even.point else none
  order_nsmul_generator := by
    rw [nsmul_eq_mul, ZMod.natCast_self, zero_mul]
  affine_element point := by
    have value := ZMod.val_natCast_of_lt point.property.2
    simp only [value]
    exact dif_pos point.property.1
  element_of_affine value point finite := by
    split at finite
    · injection finite with same
      rw [← same]
      exact ZMod.natCast_zmod_val value
    · cases finite
  xCoordinate_of_set x odd point found := by
    split at found
    · rename_i known
      injection found with same
      rw [← same, if_pos rfl, known.1]
    · cases found
  ecdsaDoVerify digest r s point := decide (Verifies _ _ _ _ digest r s point)
  ecdsaDoSign_range _ digest r s := range digest r s
  ecdsaDoVerify_iff _ _ _ _ := decide_eq_true_iff

/-- The number that a signature with the private key one has to satisfy. -/
theorem recovered_one
    {signatures : Bytes 32 → Option (Bytes 32 × Bytes 32)} {range}
    {even : EvenPoint} {signature : EcdsaSignature} {messageHash : Bytes 32}
    (positive : 0 < bin2bn signature.r.val)
    (below : bin2bn signature.r.val < secp256r1Order)
    (signs :
      signature.sValue * even.point.val % secp256r1Order =
        (bin2bn messageHash.val + bin2bn signature.r.val) %
          secp256r1Order) :
    Recovered (@exponentGroup signatures range even) signature messageHash
      even.point one := by
  rcases exists_modInverse secp256r1Order_prime positive below with
    ⟨rInv, inverts⟩
  have unit :=
    mul_of_modInverse secp256r1Order_prime.pos inverts
  have negated :=
    cast_modNegate secp256r1Order_prime.pos (bin2bn messageHash.val)
  have residues :=
    (ZMod.natCast_eq_natCast_iff' _ _ secp256r1Order).mpr signs
  rw [Nat.cast_mul, Nat.cast_add] at residues
  refine ⟨?_, ⟨rInv, inverts, ?_⟩, decodeExponent_compressed one⟩
  · change secp256r1Order • (even.point.val : ZMod secp256r1Order) = 0
    rw [nsmul_eq_mul, ZMod.natCast_self, zero_mul]
  · change
      ((1 : Nat) : ZMod secp256r1Order) =
        (signature.sValue * rInv % secp256r1Order) •
            (even.point.val : ZMod secp256r1Order) +
          (modNegate (bin2bn messageHash.val) secp256r1Order * rInv %
              secp256r1Order) •
            (1 : ZMod secp256r1Order)
    rw [nsmul_eq_mul, nsmul_eq_mul, ZMod.natCast_mod, ZMod.natCast_mod,
      Nat.cast_mul, Nat.cast_mul, negated, Nat.cast_one]
    linear_combination (-(rInv : ZMod secp256r1Order)) * residues - unit

/-- The key pair of the private key one. -/
def keyPairOne (signatures : Bytes 32 → Option (Bytes 32 × Bytes 32)) :
    EcKeyPair (exponentCurve signatures) where
  privateKey := ()
  publicKey := EcPublicKey.ofPoint one true

/-- With the first identifier, a message is signed. -/
theorem signMessage_one
    {signatures : Bytes 32 → Option (Bytes 32 × Bytes 32)} {range}
    {even : EvenPoint} {host : Host} {message : Buffer}
    {messageHash r s : Bytes 32} {canonical : EcdsaSignature}
    (hashed : computeMessageHash host message = .ok messageHash)
    (known : signatures messageHash = some (r, s))
    (made :
      EcdsaSignature.makeCanonical secp256r1Order ⟨r, s⟩ = .ok canonical)
    (sameR : bin2bn canonical.r.val = even.x)
    (inField :
      even.x <
        0xFFFFFFFF00000001000000000000000000000000FFFFFFFFFFFFFFFFFFFFFFFF)
    (positive : 0 < bin2bn canonical.r.val)
    (below : bin2bn canonical.r.val < secp256r1Order)
    (signs :
      canonical.sValue * even.point.val % secp256r1Order =
        (bin2bn messageHash.val + bin2bn canonical.r.val) %
          secp256r1Order) :
    signMessage (@exponentGroup signatures range even) host .ample message
        (keyPairOne signatures) =
      .ok { v := 27, r := canonical.r, s := canonical.s } := by
  have candidate :
      Candidate (@exponentGroup signatures range even) 0 canonical
        even.point := by
    refine ⟨le_rfl, by decide, ?_, ?_⟩
    · change secp256r1Order * 0 + bin2bn canonical.r.val < _
      rw [Nat.mul_zero, Nat.zero_add, sameR]
      exact inField
    · change
        (if secp256r1Order * 0 + bin2bn canonical.r.val = even.x ∧
            false = false then
          some even.point
        else none) = some even.point
      rw [Nat.mul_zero, Nat.zero_add]
      exact if_pos ⟨sameR, rfl⟩
  have recovered :=
    @recoverFromSignature_eq _ (@exponentGroup signatures range even) .ample
      _ _ _ _ _ candidate (recovered_one positive below signs) (by decide)
  have signed :
      (keyPairOne signatures).sign .ample messageHash = .ok (r, s) := by
    have looked :
        (exponentCurve signatures).ecdsaDoSign
            (keyPairOne signatures).privateKey messageHash =
          some (r, s) :=
      known
    rw [EcKeyPair.sign, if_neg (by decide), looked]
  have found :
      findRecoveryId (@exponentGroup signatures range even) .ample
          messageHash canonical (keyPairOne signatures) =
        .ok 0 := by
    rw [findRecoveryId, findRecoveryIdFrom, recovered]
    exact if_pos rfl
  refine Except.bind_eq_ok_iff.mpr ⟨messageHash, hashed, ?_⟩
  refine Except.bind_eq_ok_iff.mpr ⟨_, signed, ?_⟩
  refine Except.bind_eq_ok_iff.mpr ⟨canonical, made, ?_⟩
  exact Except.bind_eq_ok_iff.mpr ⟨0, found, rfl⟩

/-- A table with one signature in range gives no other. -/
theorem single_range {digest known : Bytes 32}
    {signature : Bytes 32 × Bytes 32}
    (within :
      (0 < bin2bn signature.1.val ∧
          bin2bn signature.1.val < secp256r1Order) ∧
        0 < bin2bn signature.2.val ∧
          bin2bn signature.2.val < secp256r1Order)
    {r s : Bytes 32}
    (signed :
      (if digest = known then some signature else none) = some (r, s)) :
    (0 < bin2bn r.val ∧ bin2bn r.val < secp256r1Order) ∧
      0 < bin2bn s.val ∧ bin2bn s.val < secp256r1Order := by
  split at signed
  · cases signed
    exact within
  · cases signed

open Transaction (baseHost baseSignature emptyTransactionDigest)

/-- The signature of 28 zero bytes, with one for its nonce. -/
def zerosSignature (digest : Bytes 32) : Option (Bytes 32 × Bytes 32) :=
  if digest = emptyTransactionDigest then some baseSignature else none

theorem zerosSignature_range (digest r s : Bytes 32)
    (signed : zerosSignature digest = some (r, s)) :
    (0 < bin2bn r.val ∧ bin2bn r.val < secp256r1Order) ∧
      0 < bin2bn s.val ∧ bin2bn s.val < secp256r1Order :=
  single_range (by decide) signed

/-- The inverse of the base point, whose `y` is even. -/
def negativeOne : EvenPoint where
  x := 0x6B17D1F2E12C4247F8BCE6E563A440F277037D812DEB33A0F4A13945D898C296
  point := exponent (secp256r1Order - 1) (by decide)
    (by decide)

/-- The signer of 28 zero bytes is recovered. -/
theorem signed_message_recovers_zeros :
    ∃ sigData,
      signMessage (exponentGroup zerosSignature_range negativeOne) baseHost
            .ample (.items (List.replicate 28 0))
            (keyPairOne zerosSignature) =
          .ok sigData ∧
        verifySignature (exponentGroup zerosSignature_range negativeOne)
            baseHost (.items (List.replicate 28 0)) sigData
            (keyPairOne zerosSignature).publicKey =
          true := by
  have hashed :
      computeMessageHash baseHost (.items (List.replicate 28 0)) =
        .ok emptyTransactionDigest := by
    decide
  have signed :=
    @signMessage_one zerosSignature zerosSignature_range negativeOne
      baseHost (.items (List.replicate 28 0)) emptyTransactionDigest
      baseSignature.1 baseSignature.2
      ⟨baseSignature.1,
        Bip32.bn2binpad (secp256r1Order - bin2bn baseSignature.2.val)⟩
      hashed (if_pos rfl) (by decide) (by decide)
      (by decide) (by decide) (by decide)
      (by decide)
  exact
    ⟨_, signed,
      (signed_message_recovers signed
        (Allocator.ample_serves (by decide))).2.2⟩

/-! ## Messages in hexadecimal -/

section HexMessages

variable {curve : Curve} {group : CurveGroup curve} {host : Host}
  {alloc : Allocator} {keyPair : EcKeyPair curve}

/-- `neoc_hex_decode` gives these bytes for the string. -/
def Decodes (hexMessage : CString) (bytes : List UInt8) : Prop :=
  Hex.decode hexMessage.characters
      (Hex.decodeBufferSize hexMessage.characters) =
    .ok bytes

/--
What is signed is what the string stands for, and a string that stands for
nothing is not signed.
-/
def SignsWhatIsWritten (group : CurveGroup curve) (host : Host)
    (alloc : Allocator) (keyPair : EcKeyPair curve)
    (hexMessage : CString) : Prop :=
  (∀ sigData,
    signHexMessage group host alloc hexMessage keyPair = .ok sigData →
      ∃ bytes,
        Decodes hexMessage bytes ∧
          signMessage group host alloc (.items bytes) keyPair =
            .ok sigData) ∧
    ((∀ bytes, ¬Decodes hexMessage bytes) →
      ∃ reason,
        signHexMessage group host alloc hexMessage keyPair = .error reason)

/-- What is decoded is signed, and a failure to decode is not noticed. -/
theorem signHexMessage_eq (hexMessage : CString) :
    signHexMessage group host alloc hexMessage keyPair =
      signMessage group host alloc
        (.items ((Hex.decodeAlloc alloc hexMessage).getD [])) keyPair := by
  rw [signHexMessage]
  rcases Hex.decodeAlloc alloc hexMessage with _ | bytes
  · rfl
  · rfl

/-- The decoder gets its buffer, where it asks for one. -/
def Granted (alloc : Allocator) (hexMessage : CString) : Prop :=
  0 < Hex.decodeBufferSize hexMessage.characters →
    alloc.neocGrants (Hex.decodeBufferSize hexMessage.characters) = true

/-- With memory, what is decoded are the bytes of the string. -/
theorem decodeAlloc_of_decodes {hexMessage : CString} {bytes : List UInt8}
    (granted : Granted alloc hexMessage) (decodes : Decodes hexMessage bytes) :
    (Hex.decodeAlloc alloc hexMessage).getD [] = bytes := by
  rw [Hex.decodeAlloc]
  by_cases empty : Hex.decodeBufferSize hexMessage.characters = 0
  · rw [if_pos empty]
    rw [Decodes, Hex.decode] at decodes
    split at decodes
    · cases decodes
    rename_i even
    split at decodes
    · cases decodes
    rw [Hex.decodeBufferSize] at empty
    have none :
        Hex.skipMark hexMessage.characters = [] :=
      List.eq_nil_of_length_eq_zero (by omega)
    rw [none] at decodes
    injection decodes
  · rw [if_neg empty,
      if_neg (by simp [granted (Nat.pos_of_ne_zero empty)])]
    rw [Decodes] at decodes
    rw [decodes]
    rfl

/-- Without, the message is empty. -/
theorem decodeAlloc_of_not_granted {hexMessage : CString}
    (refused : ¬Granted alloc hexMessage) :
    (Hex.decodeAlloc alloc hexMessage).getD [] = [] := by
  rw [Hex.decodeAlloc]
  split
  · rfl
  rename_i asked
  rw [if_pos]
  · rfl
  · by_contra granted
    exact refused fun _ => Bool.not_eq_false _ ▸ granted

/-- A string that cannot be decoded is signed as the empty message. -/
theorem decodeAlloc_of_not_decodes {hexMessage : CString}
    (none : ∀ bytes, ¬Decodes hexMessage bytes) :
    (Hex.decodeAlloc alloc hexMessage).getD [] = [] := by
  rw [Hex.decodeAlloc]
  split
  · rfl
  split
  · rfl
  rcases decoded :
      Hex.decode hexMessage.characters
        (Hex.decodeBufferSize hexMessage.characters) with
    reason | bytes
  · rfl
  · exact absurd decoded (none bytes)

/--
What is signed is what is written exactly when the string is valid and there
is memory to decode it, or it is signed as the empty message is, or when the
key pair cannot sign the empty message.
-/
theorem signsWhatIsWritten_iff {hexMessage : CString} :
    SignsWhatIsWritten group host alloc keyPair hexMessage ↔
      (∃ bytes,
          Decodes hexMessage bytes ∧
            (Granted alloc hexMessage ∨
              signMessage group host alloc (.items bytes) keyPair =
                signMessage group host alloc (.items []) keyPair)) ∨
        ∃ reason,
          signMessage group host alloc (.items []) keyPair =
            .error reason := by
  have signed :=
    @signHexMessage_eq curve group host alloc keyPair hexMessage
  by_cases valid : ∃ bytes, Decodes hexMessage bytes
  · rcases valid with ⟨bytes, decodes⟩
    by_cases granted : Granted alloc hexMessage
    · rw [decodeAlloc_of_decodes granted decodes] at signed
      refine ⟨fun _ => .inl ⟨bytes, decodes, .inl granted⟩, fun _ => ?_⟩
      refine ⟨?_, fun none => absurd decodes (none bytes)⟩
      intro sigData made
      exact ⟨bytes, decodes, signed.symm.trans made⟩
    · rw [decodeAlloc_of_not_granted granted] at signed
      constructor
      · rintro ⟨written, -⟩
        rcases outcome :
            signMessage group host alloc (.items []) keyPair with
          reason | sigData
        · exact .inr ⟨reason, rfl⟩
        · rcases written sigData (signed.trans outcome) with
            ⟨others, decodes', made⟩
          exact .inl ⟨others, decodes', .inr made⟩
      · intro condition
        refine ⟨?_, fun none => absurd decodes (none bytes)⟩
        intro sigData made
        have empty := signed.symm.trans made
        rcases condition with
          ⟨others, decodes', memory | alike⟩ | ⟨reason, failed⟩
        · exact absurd memory granted
        · exact ⟨others, decodes', alike.trans empty⟩
        · cases failed.symm.trans empty
  · have none : ∀ bytes, ¬Decodes hexMessage bytes :=
      fun bytes decodes => valid ⟨bytes, decodes⟩
    rw [decodeAlloc_of_not_decodes none] at signed
    constructor
    · rintro ⟨-, refuses⟩
      rcases refuses none with ⟨reason, refused⟩
      exact .inr ⟨reason, signed.symm.trans refused⟩
    · rintro (⟨bytes, decodes, -⟩ | ⟨reason, failed⟩)
      · exact absurd decodes (none bytes)
      rw [failed] at signed
      refine ⟨?_, fun _ => ⟨reason, signed⟩⟩
      intro sigData made
      cases signed.symm.trans made

end HexMessages

/-- The digest of the empty message. -/
def emptyMessageDigest : Bytes 32 :=
  Bip32.bn2binpad
    0xE3B0C44298FC1C149AFBF4C8996FB92427AE41E4649B934CA495991B7852B855

/-- A host that knows this digest. -/
def emptyMessageHost : Host :=
  Host.ofTables [([], emptyMessageDigest)] []

/-- The signature of the empty message, with eight for its nonce. -/
def emptyMessageSignature : Bytes 32 × Bytes 32 :=
  (Bip32.bn2binpad
      0x62D9779DBEE9B0534042742D3AB54CADC1D238980FCE97DBB4DD9DC1DB6FB393,
    Bip32.bn2binpad
      0x28D1477C0AFCB98CFB67CD1EBA84A0BA3D300F4F8E8D45650B2E66DBAA784D7D)

/-- The signature that OpenSSL makes of this digest. -/
def emptySignature (digest : Bytes 32) : Option (Bytes 32 × Bytes 32) :=
  if digest = emptyMessageDigest then some emptyMessageSignature else none

theorem emptySignature_range (digest r s : Bytes 32)
    (signed : emptySignature digest = some (r, s)) :
    (0 < bin2bn r.val ∧ bin2bn r.val < secp256r1Order) ∧
      0 < bin2bn s.val ∧ bin2bn s.val < secp256r1Order :=
  single_range (by decide) signed

/-- Eight times the base point, whose `y` is even. -/
def eight : EvenPoint where
  x := 0x62D9779DBEE9B0534042742D3AB54CADC1D238980FCE97DBB4DD9DC1DB6FB393
  point := exponent 8 (by decide) (by decide)

/-- The empty message is signed with the private key one. -/
theorem sign_emptyMessage :
    signMessage (exponentGroup emptySignature_range eight) emptyMessageHost
        .ample (.items []) (keyPairOne emptySignature) =
      .ok
        { v := 27
          r := emptyMessageSignature.1
          s := emptyMessageSignature.2 } :=
  @signMessage_one emptySignature emptySignature_range eight
    emptyMessageHost (.items []) emptyMessageDigest
    emptyMessageSignature.1 emptyMessageSignature.2
    ⟨emptyMessageSignature.1, emptyMessageSignature.2⟩ (by decide)
    (if_pos rfl) (by decide) (by decide)
    (by decide) (by decide) (by decide)
    (by decide)

/-- A string that is not hexadecimal. -/
def notHex : CString :=
  CString.ofString "zz"

theorem notHex_decodes_nothing (bytes : List UInt8) :
    ¬Decodes notHex bytes := by
  have refused :
      (Hex.decode notHex.characters
        (Hex.decodeBufferSize notHex.characters)).toBool = false := by
    decide
  intro decodes
  rw [Decodes] at decodes
  rw [decodes] at refused
  cases refused

/-- Such a string is signed, as the empty message is. -/
theorem notHex_signed :
    signHexMessage (exponentGroup emptySignature_range eight)
          emptyMessageHost .ample notHex (keyPairOne emptySignature) =
        .ok
          { v := 27
            r := emptyMessageSignature.1
            s := emptyMessageSignature.2 } ∧
      ¬SignsWhatIsWritten (exponentGroup emptySignature_range eight)
        emptyMessageHost .ample (keyPairOne emptySignature) notHex := by
  have signed :=
    @signHexMessage_eq _ (exponentGroup emptySignature_range eight)
      emptyMessageHost .ample (keyPairOne emptySignature) notHex
  rw [decodeAlloc_of_not_decodes notHex_decodes_nothing,
    sign_emptyMessage] at signed
  refine ⟨signed, ?_⟩
  rintro ⟨-, refuses⟩
  rcases refuses notHex_decodes_nothing with ⟨reason, refused⟩
  rw [signed] at refused
  cases refused

/-- The mark alone is valid, and is signed as the empty message. -/
theorem signsWhatIsWritten_iff_mark :
    SignsWhatIsWritten (exponentGroup emptySignature_range eight)
        emptyMessageHost .ample (keyPairOne emptySignature)
        (CString.ofString "0x") ∧
      signHexMessage (exponentGroup emptySignature_range eight)
          emptyMessageHost .ample (CString.ofString "0x")
          (keyPairOne emptySignature) =
        .ok
          { v := 27
            r := emptyMessageSignature.1
            s := emptyMessageSignature.2 } := by
  have decodes : Decodes (CString.ofString "0x") [] := by
    rw [Decodes]
    decide
  have granted : Granted .ample (CString.ofString "0x") :=
    fun asked => absurd asked (by decide)
  have signed :=
    @signHexMessage_eq _ (exponentGroup emptySignature_range eight)
      emptyMessageHost .ample (keyPairOne emptySignature)
      (CString.ofString "0x")
  rw [decodeAlloc_of_decodes granted decodes, sign_emptyMessage] at signed
  exact
    ⟨signsWhatIsWritten_iff.mpr (.inl ⟨[], decodes, .inl granted⟩), signed⟩

end Sign

end NeoC
