import NeoC.Crypto.Bip32History
import NeoC.Crypto.KeyPair

/-!
# Key pairs of extended keys

An extended key keeps a private key behind a zero byte and a public key in the
same 33 bytes.  `neoc_bip32_to_ec_key_pair_raw` asks which of them it has;
`neoc_bip32_to_ec_key_pair_alloc` does not, and makes a private key of the
coordinate of a public one.  On private keys both make the pair whose public
key is the one of `neoc_bip32_get_public_key`.
-/

namespace NeoC

open Foundation

namespace Bip32

/-- What key pairs ask of OpenSSL beyond what extended keys do. -/
structure PairPrimitives extends Primitives where
  /-- `EC_POINT_point2oct`, uncompressed, of a point other than infinity. -/
  uncompressed : Point → Bytes 65
  /-- `EC_POINT_oct2point` on 65 bytes. -/
  decodeUncompressed : List UInt8 → Option Point
  /-- `ECDSA_do_sign`. -/
  ecdsaDoSign : Bytes 32 → Bytes 32 → Option (Bytes 32 × Bytes 32)

/-- The points that have coordinates. -/
def Primitives.Finite (ssl : Primitives) : Type :=
  { point : ssl.Point // point ≠ 0 }

/-- A point that is not at infinity. -/
def Primitives.finite (ssl : Primitives) (point : ssl.Point) :
    Option ssl.Finite :=
  if infinite : point = 0 then none else some ⟨point, infinite⟩

/-- `EC_POINT_oct2point` on 33 or 65 bytes. -/
def PairPrimitives.decodePoint (ssl : PairPrimitives)
    (encoded : List UInt8) : Option ssl.Finite :=
  if exact : encoded.length = 33 then
    (ssl.decode ⟨encoded, exact⟩).bind ssl.toPrimitives.finite
  else
    (ssl.decodeUncompressed encoded).bind ssl.toPrimitives.finite

theorem PairPrimitives.decodePoint_compressed (ssl : PairPrimitives)
    (point : ssl.toPrimitives.Finite) :
    ssl.decodePoint (ssl.compressed point.val).val = some point := by
  rw [decodePoint, dif_pos (ssl.compressed point.val).property]
  have decoded := ssl.decode_compressed point.val point.property
  have same :
      (⟨(ssl.compressed point.val).val,
          (ssl.compressed point.val).property⟩ : Bytes 33) =
        ssl.compressed point.val :=
    rfl
  rw [same, decoded, Option.bind_some, Primitives.finite,
    dif_neg point.property]
  rfl

/-- The curve of these key pairs; a private key is known by its bytes. -/
def PairPrimitives.curve (ssl : PairPrimitives) : Curve where
  Point := ssl.toPrimitives.Finite
  PrivateKey := Bytes 32
  compressed point := ssl.compressed point.val
  uncompressed point := ssl.uncompressed point.val
  decode := ssl.decodePoint
  ecdsaDoSign := ssl.ecdsaDoSign
  decode_compressed := ssl.decodePoint_compressed

/-- The calls between the bytes of a private key and its point. -/
def PairPrimitives.derivation (ssl : PairPrimitives) :
    KeyDerivation ssl.curve where
  derive bytes :=
    if ssl.setPrivateKey (bin2bn bytes.val) = false then
      .error "Failed to set private key"
    else
      .ok
        (bytes,
          ssl.toPrimitives.finite (ssl.multiply (bin2bn bytes.val)))
  privateBytes bytes := bytes
  privateBytes_derive := by
    intro bytes key point derived
    split at derived
    · cases derived
    · injection derived with same
      exact (congrArg Prod.fst same).symm

theorem PairPrimitives.derive_eq (ssl : PairPrimitives) (bytes : Bytes 32) :
    ssl.derivation.derive bytes =
      if ssl.setPrivateKey (bin2bn bytes.val) = false then
        .error "Failed to set private key"
      else
        .ok
          (bytes,
            ssl.toPrimitives.finite (ssl.multiply (bin2bn bytes.val))) :=
  rfl

variable (ssl : PairPrimitives) (alloc : Allocator)

/-- `neoc_ec_key_pair_from_private_key`. -/
def fromPrivateKey (privateKeyBytes : List UInt8) :
    Outcome (EcKeyPair ssl.curve) :=
  if exact : privateKeyBytes.length = 32 then
    EcKeyPair.createFromPrivateKey ssl.derivation alloc
      ⟨privateKeyBytes, exact⟩
  else
    .error (.error .invalidLength "Private key must be 32 bytes")

/-- `neoc_bip32_to_ec_key_pair_raw`. -/
def toEcKeyPairRaw (key : Bip32Key) : Outcome (EcKeyPair ssl.curve) :=
  if key.isPrivate = false then
    .error
      (.error .invalidState "Cannot create EC key pair from public key only")
  else
    fromPrivateKey ssl alloc (key.key.val.drop 1)

/-- `neoc_bip32_to_ec_key_pair_alloc`. -/
def toEcKeyPairAlloc (key : Bip32Key) : Outcome (EcKeyPair ssl.curve) :=
  fromPrivateKey ssl alloc (key.key.val.drop 1)

/-- The last 32 bytes of a key are a private key, and there is memory. -/
structure MakesKeyPair (key : Bip32Key) : Prop where
  pair : alloc.grants EcKeyPair.structSize = true
  privateKey : alloc.grants EcKeyPair.privateKeySize = true
  publicKey : alloc.grants EcPublicKey.structSize = true
  accepted : ssl.setPrivateKey (scalarOf key.key) = true
  finite : ssl.multiply (scalarOf key.key) ≠ 0

/--
Both conversions succeed on the same keys with the same private key, and the
public key of the pair is the one of the extended key.
-/
structure ConversionsAgree (key : Bip32Key) : Prop where
  together :
    (∃ keyPair, toEcKeyPairAlloc ssl alloc key = .ok keyPair) ↔
      ∃ keyPair, toEcKeyPairRaw ssl alloc key = .ok keyPair
  privateKey :
    ∀ keyPair keyPair',
      toEcKeyPairAlloc ssl alloc key = .ok keyPair →
        toEcKeyPairRaw ssl alloc key = .ok keyPair' →
          keyPair.privateKey = keyPair'.privateKey
  publicKey :
    ∀ keyPair,
      toEcKeyPairAlloc ssl alloc key = .ok keyPair ∨
          toEcKeyPairRaw ssl alloc key = .ok keyPair →
        ∃ publicKey,
          getPublicKey ssl.toPrimitives key = .ok publicKey ∧
            keyPair.publicKey.compressed = publicKey.key

variable {ssl alloc}

/-! ## What a pair is made of -/

theorem length_drop_key (key : Bytes 33) : (key.val.drop 1).length = 32 := by
  rw [List.length_drop, key.property]

/-- The conversion without a question is the constructor of pairs. -/
theorem toEcKeyPairAlloc_eq (key : Bip32Key) :
    toEcKeyPairAlloc ssl alloc key =
      EcKeyPair.createFromPrivateKey ssl.derivation alloc
        ⟨key.key.val.drop 1, length_drop_key key.key⟩ :=
  dif_pos (length_drop_key key.key)

theorem toEcKeyPairRaw_eq {key : Bip32Key} (isPrivate : key.isPrivate = true) :
    toEcKeyPairRaw ssl alloc key = toEcKeyPairAlloc ssl alloc key :=
  if_neg (by simp [isPrivate])

theorem toEcKeyPairRaw_public {key : Bip32Key}
    (isPublic : key.isPrivate = false) (keyPair : EcKeyPair ssl.curve) :
    toEcKeyPairRaw ssl alloc key ≠ .ok keyPair := by
  rw [toEcKeyPairRaw, if_pos isPublic]
  intro made
  cases made

/-- A pair that is made has the point of the number in the last 32 bytes. -/
theorem toEcKeyPairAlloc_eq_ok {key : Bip32Key}
    {keyPair : EcKeyPair ssl.curve}
    (made : toEcKeyPairAlloc ssl alloc key = .ok keyPair) :
    MakesKeyPair ssl alloc key ∧
      keyPair.publicKey.compressed =
        ssl.compressed (ssl.multiply (scalarOf key.key)) := by
  rw [toEcKeyPairAlloc_eq, EcKeyPair.createFromPrivateKey] at made
  split at made
  · cases made
  rename_i pair
  split at made
  · cases made
  rename_i privateKey
  split at made
  · cases made
  rename_i number point derived
  split at made
  · cases made
  rename_i publicKey
  split at made
  · cases made
  rename_i point
  injection made with same
  subst same
  rw [PairPrimitives.derive_eq] at derived
  split at derived
  · cases derived
  rename_i accepted
  injection derived with parts
  have isFinite := congrArg Prod.snd parts
  dsimp only at isFinite
  rw [Primitives.finite] at isFinite
  split at isFinite
  · cases isFinite
  rename_i finite
  injection isFinite with same
  subst same
  exact
    ⟨{ pair := Bool.eq_true_of_not_eq_false pair
       privateKey := Bool.eq_true_of_not_eq_false privateKey
       publicKey := Bool.eq_true_of_not_eq_false publicKey
       accepted := Bool.eq_true_of_not_eq_false accepted
       finite := finite }, rfl⟩

/-- With memory, a number that OpenSSL accepts makes a pair. -/
theorem toEcKeyPairAlloc_succeeds {key : Bip32Key}
    (makes : MakesKeyPair ssl alloc key) :
    ∃ keyPair, toEcKeyPairAlloc ssl alloc key = .ok keyPair := by
  have derived :
      ssl.derivation.derive
          ⟨key.key.val.drop 1, length_drop_key key.key⟩ =
        .ok
          (⟨key.key.val.drop 1, length_drop_key key.key⟩,
            some ⟨ssl.multiply (scalarOf key.key), makes.finite⟩) := by
    have accepted :
        ssl.setPrivateKey (bin2bn (key.key.val.drop 1)) = true :=
      makes.accepted
    rw [PairPrimitives.derive_eq, if_neg (by rw [accepted]; decide),
      Primitives.finite]
    exact congrArg (fun point => Except.ok (_, point)) (dif_neg makes.finite)
  rw [toEcKeyPairAlloc_eq, EcKeyPair.createFromPrivateKey,
    if_neg (by simp [makes.pair]), if_neg (by simp [makes.privateKey]),
    derived]
  dsimp only
  rw [if_neg (by simp [makes.publicKey])]
  exact ⟨_, rfl⟩

/-! ## Where the conversions agree -/

/--
The conversions agree exactly on private keys, and on public keys of which no
pair can be made: where the number in the last 32 bytes is no private key, or
there is no memory.
-/
theorem conversionsAgree_iff (key : Bip32Key) :
    ConversionsAgree ssl alloc key ↔
      key.isPrivate = true ∨ ¬MakesKeyPair ssl alloc key := by
  cases isPrivate : key.isPrivate with
  | false =>
      constructor
      · intro agree
        refine .inr fun makes => ?_
        rcases agree.together.mp (toEcKeyPairAlloc_succeeds makes) with
          ⟨keyPair, made⟩
        exact toEcKeyPairRaw_public isPrivate keyPair made
      · rintro (isTrue | fails)
        · cases isTrue
        have neither :
            ∀ keyPair, toEcKeyPairAlloc ssl alloc key ≠ .ok keyPair :=
          fun keyPair made => fails (toEcKeyPairAlloc_eq_ok made).1
        have neither' := @toEcKeyPairRaw_public ssl alloc key isPrivate
        exact
          { together :=
              ⟨fun ⟨keyPair, made⟩ => absurd made (neither keyPair),
                fun ⟨keyPair, made⟩ => absurd made (neither' keyPair)⟩
            privateKey := fun keyPair _ made =>
              absurd made (neither keyPair)
            publicKey := fun keyPair made =>
              made.elim (fun made => absurd made (neither keyPair))
                fun made => absurd made (neither' keyPair) }
  | true =>
      have same := @toEcKeyPairRaw_eq ssl alloc key isPrivate
      refine iff_of_true ?_ (.inl rfl)
      refine ⟨by rw [same], ?_, ?_⟩
      · intro keyPair keyPair' made made'
        rw [same, made] at made'
        injection made' with equal
        rw [equal]
      · intro keyPair made
        rw [same, or_self] at made
        rcases toEcKeyPairAlloc_eq_ok made with ⟨makes, compressed⟩
        exact
          ⟨_,
            (getPublicKey_private isPrivate).mpr
              ⟨_,
                compressedOf_eq_ok.mpr
                  ⟨makes.accepted, makes.finite, rfl⟩, rfl⟩,
            compressed⟩

/-! ## A public key that is taken for a private one -/

/-- The public key of the sample seed. -/
def samplePublic : Bip32Key :=
  { sampleRoot with
    version := mainnetPublic
    key := samplePublicKey
    isPrivate := false }

/-- The point whose number is the coordinate of this public key. -/
def coordinatePublicKey : Bytes 33 :=
  Bytes.ofNat 33
    0x26A2E86F776DD02573767E35A54EA52F0515CA55A15195BAFC7DD73587E328337

/-- The curve with this point. -/
def coordinatePrimitives : PairPrimitives where
  toPrimitives :=
    .known (scalarOf samplePublicKey) coordinatePublicKey (by decide) []
  uncompressed _ := ⟨basePointUncompressed, length_basePointUncompressed⟩
  decodeUncompressed _ := none
  ecdsaDoSign _ _ := none

/-- A pair is made whose private key everybody can read in the public key. -/
theorem samplePublic_converted :
    (∃ keyPair : EcKeyPair coordinatePrimitives.curve,
      toEcKeyPairAlloc coordinatePrimitives .ample samplePublic =
          .ok keyPair ∧
        keyPair.publicKey.compressed = coordinatePublicKey) ∧
      toEcKeyPairRaw coordinatePrimitives .ample samplePublic =
        .error
          (.error .invalidState
            "Cannot create EC key pair from public key only") ∧
      ¬ConversionsAgree coordinatePrimitives .ample samplePublic := by
  have small : scalarOf samplePublicKey < curveOrder := by
    decide +kernel
  have residue : scalarOf samplePublicKey % curveOrder ≠ 0 := by
    decide +kernel
  have makes : MakesKeyPair coordinatePrimitives .ample samplePublic :=
    { pair := by decide
      privateKey := by decide
      publicKey := by decide
      accepted := rfl
      finite := fun infinite => residue (multiply_eq_zero.mp infinite) }
  rcases toEcKeyPairAlloc_succeeds makes with ⟨keyPair, made⟩
  refine ⟨⟨keyPair, made, ?_⟩, rfl, ?_⟩
  · rw [(toEcKeyPairAlloc_eq_ok made).2]
    exact @Primitives.known_compressed _ _ (by decide) [] small
  · intro agree
    rcases agree.together.mp ⟨keyPair, made⟩ with ⟨keyPair', made'⟩
    exact toEcKeyPairRaw_public rfl keyPair' made'

end Bip32

end NeoC
