import Mathlib.GroupTheory.OrderOfElement
import NeoC.Crypto.Address

/-!
# Extended keys and their derivation

A BIP-32 key is a private or a public key with a chain code and the record of
where it stands in the tree.  `neoc_bip32_derive_child` adds a number to a
private key modulo the order of the curve, and the corresponding point to a
public key.

The arithmetic is OpenSSL's.  `Primitives` carries it as a commutative group
with a generator, together with the keyed digest.  The two ways to derive
agree because `scalar • generator` turns sums of numbers into sums of points
and does not see multiples of the order.
-/

namespace NeoC

open Foundation

/-- `neoc_hash160_from_data`: it copies a hash and computes none. -/
def Hash160.fromData (data : List UInt8) : Outcome Hash160 :=
  if exact : data.length = 20 then
    .ok ⟨data, exact⟩
  else
    .error (.error .invalidArgument "")

/-- A `neoc_bip32_key_t`. -/
structure Bip32Key where
  version : Bytes 4
  depth : UInt8
  parentFingerprint : Bytes 4
  childNumber : UInt32
  chainCode : Bytes 32
  key : Bytes 33
  isPrivate : Bool
deriving DecidableEq

namespace Bip32

/-- The group of the curve and the keyed digest as OpenSSL offers them. -/
structure Primitives where
  /-- `EC_POINT_add` is the sum, and the point at infinity is zero. -/
  Point : Type
  [addCommGroup : AddCommGroup Point]
  [decidableEq : DecidableEq Point]
  generator : Point
  /-- `EC_GROUP_get_order`. -/
  order : Nat
  /-- `EC_POINT_mul` with a number for the generator alone. -/
  multiply : Nat → Point
  /-- `EC_POINT_point2oct`, compressed, of a point other than infinity. -/
  compressed : Point → Bytes 33
  /-- `EC_POINT_oct2point` on 33 bytes. -/
  decode : Bytes 33 → Option Point
  /-- `EC_KEY_set_private_key`. -/
  setPrivateKey : Nat → Bool
  /-- `HMAC` with `EVP_sha512`, of a key and data. -/
  hmacSha512 : List UInt8 → List UInt8 → Bytes 64
  order_pos : 0 < order
  order_le : order ≤ 256 ^ 32
  addOrderOf_generator : addOrderOf generator = order
  multiply_eq : ∀ scalar, multiply scalar = scalar • generator
  decode_compressed :
    ∀ point, point ≠ 0 → decode (compressed point) = some point
  setPrivateKey_of_lt :
    ∀ scalar, 0 < scalar → scalar < order → setPrivateKey scalar = true

attribute [instance] Primitives.addCommGroup Primitives.decidableEq

/-- `EC_POINT_point2oct`, compressed: infinity has one byte. -/
def Primitives.point2oct (ssl : Primitives) (point : ssl.Point) :
    List UInt8 :=
  if point = 0 then [0] else (ssl.compressed point).val

/-! ## The functions -/

/-- `BN_bin2bn`. -/
def bin2bn (bytes : List UInt8) : Nat :=
  LittleEndian.ofBytes bytes.reverse

/-- `BN_bn2binpad` into 32 bytes. -/
def bn2binpad (value : Nat) : Bytes 32 :=
  Bytes.ofNat 32 value

/-- The number in the last 32 bytes of a private key. -/
def scalarOf (key : Bytes 33) : Nat :=
  bin2bn (key.val.drop 1)

/-- The four bytes of an index, the most significant one first. -/
def indexBytes (index : UInt32) : Bytes 4 :=
  ⟨(LittleEndian.toBytes 4 index.toNat).reverse, by simp⟩

/-- `MAINNET_PRIVATE`. -/
def mainnetPrivate : Bytes 4 := ⟨[0x04, 0x88, 0xAD, 0xE4], rfl⟩

/-- `MAINNET_PUBLIC`. -/
def mainnetPublic : Bytes 4 := ⟨[0x04, 0x88, 0xB2, 0x1E], rfl⟩

/-- `TESTNET_PRIVATE`. -/
def testnetPrivate : Bytes 4 := ⟨[0x04, 0x35, 0x83, 0x94], rfl⟩

/-- `TESTNET_PUBLIC`. -/
def testnetPublic : Bytes 4 := ⟨[0x04, 0x35, 0x87, 0xCF], rfl⟩

/-- The test of `BIP32_HARDENED_KEY_START`. -/
def isHardened (index : UInt32) : Bool :=
  decide (0x80000000 ≤ index.toNat)

variable (ssl : Primitives)

/-- `neoc_bip32_from_seed_raw`. -/
def fromSeedRaw (seed : List UInt8) : Outcome Bip32Key :=
  if seed.length < 16 ∨ 64 < seed.length then
    .error (.error .invalidLength "Seed must be 16-64 bytes")
  else
    let hmacResult := ssl.hmacSha512 (ascii "Neo seed") seed
    .ok
      { version := mainnetPrivate
        depth := 0
        parentFingerprint := Bytes.zero 4
        childNumber := 0
        chainCode := ⟨hmacResult.val.drop 32, by
          rw [List.length_drop, hmacResult.property]⟩
        key := ⟨0 :: hmacResult.val.take 32, by
          rw [List.length_cons, List.length_take, hmacResult.property]
          rfl⟩
        isPrivate := true }

/--
The compressed point of a private key.  `neoc_bip32_derive_child` and
`neoc_bip32_get_public_key` compute it with the same calls.
-/
def compressedOf (key : Bytes 33) : Outcome (Bytes 33) :=
  if ssl.setPrivateKey (scalarOf key) = false then
    .error (.error .crypto "Failed to set private key")
  else
    let encoded := ssl.point2oct (ssl.multiply (scalarOf key))
    if exact : encoded.length = 33 then
      .ok ⟨encoded, exact⟩
    else
      .error (.error .crypto "Invalid public key length")

/-- `neoc_bip32_get_public_key`. -/
def getPublicKey (key : Bip32Key) : Outcome Bip32Key :=
  if key.isPrivate then do
    let publicKey ← compressedOf ssl key.key
    .ok
      { key with
        key := publicKey
        version := mainnetPublic
        isPrivate := false }
  else
    .ok key

/-- `neoc_bip32_get_fingerprint`. -/
def getFingerprint (key : Bip32Key) : Outcome (Bytes 4) := do
  let publicKey ← getPublicKey ssl key
  let hash ← Hash160.fromData publicKey.key.val
  .ok ⟨hash.val.take 4, by rw [List.length_take, hash.property]; rfl⟩

/-- The fingerprint of a child; the error code is not looked at. -/
def childFingerprint (parent : Bip32Key) : Bytes 4 :=
  if 0 < parent.depth then
    match getFingerprint ssl parent with
    | .error _ => parent.parentFingerprint
    | .ok fingerprint => fingerprint
  else
    parent.parentFingerprint

/-- The private key of a child: the sum modulo the order. -/
def childPrivateKey (key : Bytes 33) (il : List UInt8) : Outcome (Bytes 33) :=
  let childKey := (scalarOf key + bin2bn il) % ssl.order
  if childKey = 0 ∨ ssl.order ≤ childKey then
    .error (.error .crypto "Invalid child key")
  else
    .ok ⟨0 :: (bn2binpad childKey).val, by
      rw [List.length_cons, (bn2binpad childKey).property]⟩

/-- The public key of a child: the sum of two points. -/
def childPublicKey (key : Bytes 33) (il : List UInt8) : Outcome (Bytes 33) :=
  match ssl.decode key with
  | none => .error (.error .crypto "Invalid parent public key")
  | some parentPoint =>
      let encoded := ssl.point2oct (parentPoint + ssl.multiply (bin2bn il))
      if exact : encoded.length = 33 then
        .ok ⟨encoded, exact⟩
      else
        .error (.error .crypto "Point to octets conversion failed")

/-- What is put before the index in the data of the digest. -/
def childData (parent : Bip32Key) (index : UInt32) : Outcome (Bytes 33) :=
  if isHardened index then
    .ok parent.key
  else if parent.isPrivate then
    compressedOf ssl parent.key
  else
    .ok parent.key

/-- `neoc_bip32_derive_child`. -/
def deriveChild (parent : Bip32Key) (index : UInt32) : Outcome Bip32Key :=
  if isHardened index = true ∧ parent.isPrivate = false then
    .error
      (.error .invalidState "Cannot derive hardened child from public key")
  else do
    let front ← childData ssl parent index
    let hmacResult :=
      ssl.hmacSha512 parent.chainCode.val
        (front.val ++ (indexBytes index).val)
    let il := hmacResult.val.take 32
    let key ←
      if parent.isPrivate then
        childPrivateKey ssl parent.key il
      else
        childPublicKey ssl parent.key il
    .ok
      { parent with
        depth := parent.depth + 1
        childNumber := index
        parentFingerprint := childFingerprint ssl parent
        chainCode := ⟨hmacResult.val.drop 32, by
          rw [List.length_drop, hmacResult.property]⟩
        key := key }

/-- `neoc_bip32_derive_path_indices`. -/
def derivePathIndices (current : Bip32Key) :
    List UInt32 → Outcome Bip32Key
  | [] => .ok current
  | index :: rest => do
      let next ← deriveChild ssl current index
      derivePathIndices next rest

/-! ## Numbers and points -/

variable {ssl : Primitives}

/-- A point is written with 33 bytes unless it is the one at infinity. -/
theorem length_point2oct {point : ssl.Point} :
    (ssl.point2oct point).length = 33 ↔ point ≠ 0 := by
  rw [Primitives.point2oct]
  split
  · rename_i infinite
    simp [infinite]
  · rename_i finite
    exact iff_of_true (ssl.compressed point).property finite

/-- The two ways to a key that is written in 33 bytes. -/
theorem encoded_eq_ok {point : ssl.Point} {reason : Halt}
    {encoded : Bytes 33} :
    (if exact : (ssl.point2oct point).length = 33 then
        Except.ok (⟨ssl.point2oct point, exact⟩ : Bytes 33)
      else
        Except.error reason) = .ok encoded ↔
      point ≠ 0 ∧ encoded = ssl.compressed point := by
  by_cases infinite : point = 0
  · rw [dif_neg (fun exact => length_point2oct.mp exact infinite)]
    exact iff_of_false (by simp) (fun finite => finite.1 infinite)
  · have same :
        (⟨ssl.point2oct point, length_point2oct.mpr infinite⟩ : Bytes 33) =
          ssl.compressed point :=
      Subtype.ext (if_neg infinite)
    rw [dif_pos (length_point2oct.mpr infinite), same]
    constructor
    · intro encodes
      injection encodes with equal
      exact ⟨infinite, equal.symm⟩
    · rintro ⟨-, rfl⟩
      rfl

/-- Multiples of the order do not change the point of a number. -/
theorem multiply_mod (scalar : Nat) :
    ssl.multiply (scalar % ssl.order) = ssl.multiply scalar := by
  rw [ssl.multiply_eq, ssl.multiply_eq, ← ssl.addOrderOf_generator,
    mod_addOrderOf_nsmul]

theorem multiply_add (first second : Nat) :
    ssl.multiply (first + second) =
      ssl.multiply first + ssl.multiply second := by
  rw [ssl.multiply_eq, ssl.multiply_eq, ssl.multiply_eq, add_nsmul]

/-- The multiples of the order have no key. -/
theorem multiply_eq_zero {scalar : Nat} :
    ssl.multiply scalar = 0 ↔ scalar % ssl.order = 0 := by
  rw [ssl.multiply_eq, ← addOrderOf_dvd_iff_nsmul_eq_zero,
    ssl.addOrderOf_generator, Nat.dvd_iff_mod_eq_zero]

/-- A number below the order is read back from 32 bytes. -/
theorem bin2bn_bn2binpad {value : Nat} (small : value < ssl.order) :
    bin2bn (bn2binpad value).val = value := by
  rw [bin2bn, bn2binpad, Bytes.ofNat, List.reverse_reverse]
  exact
    LittleEndian.ofBytes_toBytes_of_lt (small.trans_le ssl.order_le)

theorem compressedOf_eq_ok {key encoded : Bytes 33} :
    compressedOf ssl key = .ok encoded ↔
      ssl.setPrivateKey (scalarOf key) = true ∧
        ssl.multiply (scalarOf key) ≠ 0 ∧
          encoded = ssl.compressed (ssl.multiply (scalarOf key)) := by
  rw [compressedOf]
  split
  · rename_i refused
    exact iff_of_false (by simp) (fun accepted => by simp_all)
  · rename_i accepted
    dsimp only
    rw [encoded_eq_ok]
    exact
      ⟨fun encodes => ⟨by simpa using accepted, encodes⟩,
        fun encodes => encodes.2⟩

theorem childPublicKey_eq_ok {key child : Bytes 33} {il : List UInt8}
    {point : ssl.Point} (decoded : ssl.decode key = some point) :
    childPublicKey ssl key il = .ok child ↔
      point + ssl.multiply (bin2bn il) ≠ 0 ∧
        child = ssl.compressed (point + ssl.multiply (bin2bn il)) := by
  rw [childPublicKey, decoded]
  exact encoded_eq_ok

theorem childPrivateKey_eq_ok {key child : Bytes 33} {il : List UInt8} :
    childPrivateKey ssl key il = .ok child ↔
      (scalarOf key + bin2bn il) % ssl.order ≠ 0 ∧
        child.val =
          0 :: (bn2binpad ((scalarOf key + bin2bn il) % ssl.order)).val := by
  have small := Nat.mod_lt (scalarOf key + bin2bn il) ssl.order_pos
  rw [childPrivateKey]
  split
  · rename_i invalid
    refine iff_of_false (by simp) ?_
    rintro ⟨positive, -⟩
    omega
  · rename_i valid
    rw [not_or] at valid
    constructor
    · intro derived
      injection derived with equal
      exact ⟨valid.1, by rw [← equal]⟩
    · rintro ⟨-, content⟩
      exact congrArg Except.ok (Subtype.ext content.symm)

/-- The point of a child's private key is the sum of the two points. -/
theorem multiply_child {key child : Bytes 33} {il : List UInt8}
    (derived : childPrivateKey ssl key il = .ok child) :
    scalarOf child = (scalarOf key + bin2bn il) % ssl.order ∧
      ssl.multiply (scalarOf child) =
        ssl.multiply (scalarOf key) + ssl.multiply (bin2bn il) := by
  rcases childPrivateKey_eq_ok.mp derived with ⟨-, content⟩
  have scalar :
      scalarOf child = (scalarOf key + bin2bn il) % ssl.order := by
    rw [scalarOf, content]
    exact bin2bn_bn2binpad (Nat.mod_lt _ ssl.order_pos)
  refine ⟨scalar, ?_⟩
  rw [scalar, multiply_mod, multiply_add]

/--
From a private key whose point is known, both ways lead to the key of the
sum, and they fail together.
-/
theorem childKeys_agree {key publicKey encoded : Bytes 33}
    (known : compressedOf ssl key = .ok publicKey) (il : List UInt8) :
    childPublicKey ssl publicKey il = .ok encoded ↔
      ∃ child,
        childPrivateKey ssl key il = .ok child ∧
          compressedOf ssl child = .ok encoded := by
  rcases compressedOf_eq_ok.mp known with ⟨-, finite, rfl⟩
  rw [childPublicKey_eq_ok (ssl.decode_compressed _ finite)]
  constructor
  · rintro ⟨finiteSum, rfl⟩
    have nonzero : (scalarOf key + bin2bn il) % ssl.order ≠ 0 := by
      intro multiple
      rw [← multiply_add] at finiteSum
      exact finiteSum (multiply_eq_zero.mpr multiple)
    have derived :
        childPrivateKey ssl key il =
          .ok ⟨0 :: (bn2binpad ((scalarOf key + bin2bn il) % ssl.order)).val,
            by simp [bn2binpad, Bytes.ofNat]⟩ :=
      childPrivateKey_eq_ok.mpr ⟨nonzero, rfl⟩
    rcases multiply_child derived with ⟨scalar, point⟩
    refine ⟨_, derived, compressedOf_eq_ok.mpr ⟨?_, ?_, by rw [point]⟩⟩
    · rw [scalar]
      exact
        ssl.setPrivateKey_of_lt _ (Nat.pos_of_ne_zero nonzero)
          (Nat.mod_lt _ ssl.order_pos)
    · rwa [point]
  · rintro ⟨child, derived, encodes⟩
    rcases compressedOf_eq_ok.mp encodes with ⟨-, finiteChild, rfl⟩
    rw [(multiply_child derived).2] at finiteChild ⊢
    exact ⟨finiteChild, rfl⟩

/-- A derived private key always has a point. -/
theorem compressedOf_child {key child : Bytes 33} {il : List UInt8}
    (derived : childPrivateKey ssl key il = .ok child) :
    ∃ encoded, compressedOf ssl child = .ok encoded := by
  have nonzero := (childPrivateKey_eq_ok.mp derived).1
  have scalar := (multiply_child derived).1
  have below := Nat.mod_lt (scalarOf key + bin2bn il) ssl.order_pos
  refine ⟨_, compressedOf_eq_ok.mpr ⟨?_, ?_, rfl⟩⟩
  · rw [scalar]
    exact ssl.setPrivateKey_of_lt _ (Nat.pos_of_ne_zero nonzero) below
  · intro infinite
    rw [multiply_eq_zero, scalar, Nat.mod_mod] at infinite
    exact nonzero infinite

/-! ## One step -/

/-- A hash is never made of 33 bytes, so no fingerprint is ever taken. -/
theorem getFingerprint_fails (key : Bip32Key) (fingerprint : Bytes 4) :
    getFingerprint ssl key ≠ .ok fingerprint := by
  intro taken
  rcases Except.bind_eq_ok_iff.mp taken with ⟨publicKey, -, rest⟩
  rcases Except.bind_eq_ok_iff.mp rest with ⟨hash, copied, -⟩
  rw [Hash160.fromData,
    dif_neg (by rw [publicKey.key.property]; decide)] at copied
  cases copied

/-- A child has the fingerprint its parent has. -/
theorem childFingerprint_eq (parent : Bip32Key) :
    childFingerprint ssl parent = parent.parentFingerprint := by
  rw [childFingerprint]
  split
  · split
    · rfl
    · rename_i fingerprint taken
      exact absurd taken (getFingerprint_fails parent fingerprint)
  · rfl

/-- The child that a key and the digest make of a parent. -/
def childOf (parent : Bip32Key) (index : UInt32) (hmacResult : Bytes 64)
    (key : Bytes 33) : Bip32Key :=
  { parent with
    depth := parent.depth + 1
    childNumber := index
    chainCode := ⟨hmacResult.val.drop 32, by
      rw [List.length_drop, hmacResult.property]⟩
    key := key }

/-- The digest of a derivation. -/
def childDigest (ssl : Primitives) (parent : Bip32Key) (front : Bytes 33)
    (index : UInt32) : Bytes 64 :=
  ssl.hmacSha512 parent.chainCode.val (front.val ++ (indexBytes index).val)

/-- A derivation that is not refused: the fingerprint stays as it was. -/
theorem deriveChild_eq {parent : Bip32Key} {index : UInt32}
    (accepted : ¬ (isHardened index = true ∧ parent.isPrivate = false)) :
    deriveChild ssl parent index = (do
      let front ← childData ssl parent index
      let hmacResult := childDigest ssl parent front index
      let key ←
        if parent.isPrivate then
          childPrivateKey ssl parent.key (hmacResult.val.take 32)
        else
          childPublicKey ssl parent.key (hmacResult.val.take 32)
      .ok (childOf parent index hmacResult key)) := by
  rw [deriveChild, if_neg accepted, childFingerprint_eq]
  rfl

/-- What a derivation from a private key does. -/
theorem deriveChild_private {parent child : Bip32Key} {index : UInt32}
    (isPrivate : parent.isPrivate = true) :
    deriveChild ssl parent index = .ok child ↔
      ∃ front key,
        childData ssl parent index = .ok front ∧
          childPrivateKey ssl parent.key
              ((childDigest ssl parent front index).val.take 32) = .ok key ∧
            child =
              childOf parent index (childDigest ssl parent front index)
                key := by
  rw [deriveChild_eq (by simp [isPrivate])]
  simp only [isPrivate, if_true, Except.bind_eq_ok_iff]
  constructor
  · rintro ⟨front, fronts, key, keys, made⟩
    injection made with same
    exact ⟨front, key, fronts, keys, same.symm⟩
  · rintro ⟨front, key, fronts, keys, rfl⟩
    exact ⟨front, fronts, key, keys, rfl⟩

/-- What a derivation from a public key does. -/
theorem deriveChild_public {parent child : Bip32Key} {index : UInt32}
    (isPublic : parent.isPrivate = false) :
    deriveChild ssl parent index = .ok child ↔
      isHardened index = false ∧
        ∃ key,
          childPublicKey ssl parent.key
              ((childDigest ssl parent parent.key index).val.take 32) =
              .ok key ∧
            child =
              childOf parent index (childDigest ssl parent parent.key index)
                key := by
  cases soft : isHardened index with
  | true =>
      rw [deriveChild, if_pos ⟨soft, isPublic⟩]
      exact iff_of_false (by simp) (by simp)
  | false =>
      rw [deriveChild_eq (by simp [soft])]
      simp only [childData, isPublic, soft, Bool.false_eq_true, if_false,
        Except.bind_eq_ok_iff, true_and]
      constructor
      · rintro ⟨front, same, key, keys, made⟩
        injection same with same
        subst same
        injection made with made
        exact ⟨key, keys, made.symm⟩
      · rintro ⟨key, keys, rfl⟩
        exact ⟨parent.key, rfl, key, keys, rfl⟩

theorem getPublicKey_private {key publicKey : Bip32Key}
    (isPrivate : key.isPrivate = true) :
    getPublicKey ssl key = .ok publicKey ↔
      ∃ encoded,
        compressedOf ssl key.key = .ok encoded ∧
          publicKey =
            { key with
              key := encoded
              version := mainnetPublic
              isPrivate := false } := by
  rw [getPublicKey, if_pos isPrivate, Except.bind_eq_ok_iff]
  constructor
  · rintro ⟨encoded, encodes, made⟩
    injection made with same
    exact ⟨encoded, encodes, same.symm⟩
  · rintro ⟨encoded, encodes, rfl⟩
    exact ⟨encoded, encodes, rfl⟩

theorem getPublicKey_public {key : Bip32Key}
    (isPublic : key.isPrivate = false) :
    getPublicKey ssl key = .ok key := by
  rw [getPublicKey, if_neg (by simp [isPublic])]

/-- A child is private when its parent is. -/
theorem childOf_isPrivate {parent : Bip32Key} {isPrivate : Bool}
    (same : parent.isPrivate = isPrivate) (index : UInt32)
    (hmacResult : Bytes 64) (key : Bytes 33) :
    (childOf parent index hmacResult key).isPrivate = isPrivate :=
  same

/-! ## Watching a wallet -/

/--
The public key of a child is the child of the public key, for an index that
is not hardened.
-/
theorem publicChild_iff {key publicChild : Bip32Key} {index : UInt32}
    (soft : isHardened index = false) :
    (∃ publicKey,
        getPublicKey ssl key = .ok publicKey ∧
          deriveChild ssl publicKey index = .ok publicChild) ↔
      ∃ child,
        deriveChild ssl key index = .ok child ∧
          getPublicKey ssl child = .ok publicChild := by
  cases isPrivate : key.isPrivate with
  | false =>
      -- Nothing is converted, before the step or after it.
      rw [getPublicKey_public isPrivate]
      constructor
      · rintro ⟨publicKey, same, derived⟩
        injection same with same
        subst same
        rcases (deriveChild_public isPrivate).mp derived with
          ⟨-, encoded, -, rfl⟩
        exact
          ⟨_, derived,
            getPublicKey_public (childOf_isPrivate isPrivate _ _ _)⟩
      · rintro ⟨child, derived, same⟩
        rcases (deriveChild_public isPrivate).mp derived with
          ⟨-, encoded, -, rfl⟩
        rw [getPublicKey_public (childOf_isPrivate isPrivate _ _ _)] at same
        injection same with same
        exact ⟨key, rfl, same ▸ derived⟩
  | true =>
      have front :
          childData ssl key index = compressedOf ssl key.key := by
        rw [childData, if_neg (by simp [soft]), if_pos isPrivate]
      constructor
      · rintro ⟨publicKey, converted, derived⟩
        rcases (getPublicKey_private isPrivate).mp converted with
          ⟨encoded, known, rfl⟩
        rcases (deriveChild_public rfl).mp derived with
          ⟨-, childKey, keys, rfl⟩
        rcases (childKeys_agree known _).mp keys with
          ⟨childScalar, derivedScalar, encodes⟩
        exact
          ⟨_,
            (deriveChild_private isPrivate).mpr
              ⟨encoded, childScalar, front.trans known, derivedScalar, rfl⟩,
            (getPublicKey_private (childOf_isPrivate isPrivate _ _ _)).mpr
              ⟨childKey, encodes, rfl⟩⟩
      · rintro ⟨child, derived, converted⟩
        rcases (deriveChild_private isPrivate).mp derived with
          ⟨encoded, childScalar, known, derivedScalar, rfl⟩
        rw [front] at known
        rcases
          (getPublicKey_private (childOf_isPrivate isPrivate _ _ _)).mp
            converted with
          ⟨childKey, encodes, rfl⟩
        have keys :=
          (childKeys_agree known _).mpr ⟨childScalar, derivedScalar, encodes⟩
        exact
          ⟨_, (getPublicKey_private isPrivate).mpr ⟨encoded, known, rfl⟩,
            (deriveChild_public rfl).mpr ⟨soft, childKey, keys, rfl⟩⟩

/-- A key with a child has a public key, and so has the child. -/
theorem publicKeys_of_child {key child : Bip32Key} {index : UInt32}
    (derived : deriveChild ssl key index = .ok child) :
    ∃ publicChild, getPublicKey ssl child = .ok publicChild := by
  cases isPrivate : key.isPrivate with
  | false =>
      rcases (deriveChild_public isPrivate).mp derived with ⟨-, encoded, -, rfl⟩
      exact ⟨_, getPublicKey_public (childOf_isPrivate isPrivate _ _ _)⟩
  | true =>
      rcases (deriveChild_private isPrivate).mp derived with
        ⟨encoded, childScalar, -, derivedScalar, rfl⟩
      rcases compressedOf_child derivedScalar with ⟨childKey, encodes⟩
      exact
        ⟨_,
          (getPublicKey_private (childOf_isPrivate isPrivate _ _ _)).mpr
            ⟨childKey, encodes, rfl⟩⟩

/-- The same for every path of such indices. -/
theorem publicPath_iff {key publicDerived : Bip32Key} {indices : List UInt32}
    (soft : ∀ index ∈ indices, isHardened index = false) :
    (∃ publicKey,
        getPublicKey ssl key = .ok publicKey ∧
          derivePathIndices ssl publicKey indices = .ok publicDerived) ↔
      ∃ derived,
        derivePathIndices ssl key indices = .ok derived ∧
          getPublicKey ssl derived = .ok publicDerived := by
  induction indices generalizing key with
  | nil =>
      constructor
      · rintro ⟨publicKey, converted, same⟩
        exact ⟨key, rfl, converted.trans same⟩
      · rintro ⟨derived, same, converted⟩
        injection same with same
        exact ⟨publicDerived, same ▸ converted, rfl⟩
  | cons index rest induction =>
      rcases List.forall_mem_cons.mp soft with ⟨first, later⟩
      simp only [derivePathIndices, Except.bind_eq_ok_iff]
      constructor
      · rintro ⟨publicKey, converted, publicNext, stepped, walked⟩
        rcases (publicChild_iff first).mp ⟨publicKey, converted, stepped⟩ with
          ⟨next, derived, nextConverted⟩
        rcases (induction later).mp ⟨publicNext, nextConverted, walked⟩ with
          ⟨last, reached, lastConverted⟩
        exact ⟨last, ⟨next, derived, reached⟩, lastConverted⟩
      · rintro ⟨last, ⟨next, derived, reached⟩, lastConverted⟩
        rcases (induction later).mpr ⟨last, reached, lastConverted⟩ with
          ⟨publicNext, nextConverted, walked⟩
        rcases (publicChild_iff first).mpr ⟨next, derived, nextConverted⟩ with
          ⟨publicKey, converted, stepped⟩
        exact ⟨publicKey, converted, publicNext, stepped, walked⟩

/--
A watch-only wallet derives the keys of the wallet it watches.  For an index
that is not hardened the two derivations succeed together and with the same
key, and along a path of such indices they stay together.
-/
theorem derivation_commutes (ssl : Primitives) (key : Bip32Key) :
    (∀ index,
      isHardened index = false →
        ((∃ publicChild,
            (getPublicKey ssl key >>= (deriveChild ssl · index)) =
              .ok publicChild) ↔
          ∃ child, deriveChild ssl key index = .ok child) ∧
        ∀ publicChild child,
          (getPublicKey ssl key >>= (deriveChild ssl · index)) =
              .ok publicChild →
            deriveChild ssl key index = .ok child →
              getPublicKey ssl child = .ok publicChild) ∧
    ∀ indices : List UInt32,
      (∀ index ∈ indices, isHardened index = false) →
        ∀ publicDerived,
          (getPublicKey ssl key >>= (derivePathIndices ssl · indices)) =
              .ok publicDerived ↔
            (derivePathIndices ssl key indices >>= getPublicKey ssl) =
              .ok publicDerived := by
  refine ⟨?_, ?_⟩
  · intro index soft
    simp only [Except.bind_eq_ok_iff]
    refine ⟨⟨?_, ?_⟩, ?_⟩
    · rintro ⟨publicChild, watched⟩
      rcases (publicChild_iff soft).mp watched with ⟨child, derived, -⟩
      exact ⟨child, derived⟩
    · rintro ⟨child, derived⟩
      rcases publicKeys_of_child derived with ⟨publicChild, converted⟩
      exact
        ⟨publicChild,
          (publicChild_iff soft).mpr ⟨child, derived, converted⟩⟩
    · intro publicChild child watched derived
      rcases (publicChild_iff soft).mp watched with
        ⟨other, otherDerived, converted⟩
      rw [derived] at otherDerived
      injection otherDerived with same
      rw [same]
      exact converted
  · intro indices soft publicDerived
    rw [Except.bind_eq_ok_iff, Except.bind_eq_ok_iff]
    exact publicPath_iff soft

end Bip32

end NeoC
