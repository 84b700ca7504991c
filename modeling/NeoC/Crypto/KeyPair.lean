import NeoC.Crypto.EcKey

/-!
# Making key pairs

Every key pair is made from the 32 bytes of a private key.  OpenSSL computes
the public key; the bytes are kept in the pair, so that a copy of the pair is
made from them again.
-/

namespace NeoC

open Foundation

/--
What making a key pair asks of OpenSSL: the key and the multiple of the base
point that belong to 32 bytes, or the text of the step that failed.  The point
at infinity has no encodings.
-/
structure KeyDerivation (curve : Curve) where
  derive : Bytes 32 → Except String (curve.PrivateKey × Option curve.Point)
  /-- The member `bytes` of the private key. -/
  privateBytes : curve.PrivateKey → Bytes 32
  privateBytes_derive :
    ∀ bytes key point,
      derive bytes = .ok (key, point) → privateBytes key = bytes

namespace EcKeyPair

variable {curve : Curve}

/-- `sizeof(neoc_ec_key_pair_t)`. -/
def structSize : Nat := 16

/-- `sizeof(neoc_ec_private_key_t)`. -/
def privateKeySize : Nat := 48

/-- `neoc_ec_key_pair_create_from_private_key`. -/
def createFromPrivateKey (derivation : KeyDerivation curve)
    (alloc : Allocator) (privateKeyBytes : Bytes 32) :
    Outcome (EcKeyPair curve) :=
  if alloc.grants structSize = false then
    .error (.error .outOfMemory "Failed to allocate key pair")
  else if alloc.grants privateKeySize = false then
    .error (.error .outOfMemory "Failed to allocate private key")
  else
    match derivation.derive privateKeyBytes with
    | .error text => .error (.error .crypto text)
    | .ok (privateKey, point) =>
        if alloc.grants EcPublicKey.structSize = false then
          .error (.error .outOfMemory "Failed to allocate public key")
        else
          match point with
          | none =>
              .error (.error .crypto "Failed to get compressed public key")
          | some point =>
              .ok
                { privateKey
                  publicKey := EcPublicKey.ofPoint point true }

/-- The sizes of the three structs of a key pair. -/
def structSizes : List Nat :=
  [structSize, privateKeySize, EcPublicKey.structSize]

/-- With memory for them, bytes that belong to a point make a key pair. -/
theorem createFromPrivateKey_eq_ok_iff {derivation : KeyDerivation curve}
    {alloc : Allocator} {keyPair : EcKeyPair curve}
    {privateKeyBytes : Bytes 32} :
    createFromPrivateKey derivation alloc privateKeyBytes = .ok keyPair ↔
      (∀ size ∈ structSizes, alloc.grants size = true) ∧
        ∃ point,
          derivation.derive privateKeyBytes =
              .ok (keyPair.privateKey, some point) ∧
            keyPair.publicKey = EcPublicKey.ofPoint point true := by
  simp only [structSizes, List.forall_mem_cons]
  constructor
  · intro created
    rw [createFromPrivateKey] at created
    split at created
    · cases created
    rename_i pair
    split at created
    · cases created
    rename_i secret
    split at created
    · cases created
    rename_i privateKey point derived
    split at created
    · cases created
    rename_i shared
    split at created
    · cases created
    · rename_i point
      injection created with same
      subst same
      rw [Bool.not_eq_false] at pair secret shared
      exact
        ⟨⟨pair, secret, shared, List.forall_mem_nil _⟩, point, derived, rfl⟩
  · rintro ⟨⟨pair, secret, shared, -⟩, point, derived, shape⟩
    rw [createFromPrivateKey, if_neg (by simp [pair]),
      if_neg (by simp [secret]), derived]
    dsimp only
    rw [if_neg (by simp [shared]), ← shape]

theorem createFromPrivateKey_eq_ok {derivation : KeyDerivation curve}
    {alloc : Allocator} {keyPair : EcKeyPair curve}
    {privateKeyBytes : Bytes 32}
    (created :
      createFromPrivateKey derivation alloc privateKeyBytes = .ok keyPair) :
    ∃ point,
      derivation.derive privateKeyBytes =
          .ok (keyPair.privateKey, some point) ∧
        keyPair.publicKey = EcPublicKey.ofPoint point true :=
  (createFromPrivateKey_eq_ok_iff.mp created).2

/-- With memory, bytes that made a key pair make it again. -/
theorem createFromPrivateKey_eq {derivation : KeyDerivation curve}
    {alloc alloc' : Allocator} {keyPair : EcKeyPair curve}
    {privateKeyBytes : Bytes 32}
    (created :
      createFromPrivateKey derivation alloc privateKeyBytes = .ok keyPair)
    (serves : alloc'.Serves 120) :
    createFromPrivateKey derivation alloc' privateKeyBytes =
      .ok keyPair := by
  refine
    createFromPrivateKey_eq_ok_iff.mpr
      ⟨?_, createFromPrivateKey_eq_ok created⟩
  simp only [structSizes, List.forall_mem_cons]
  refine ⟨?_, ?_, ?_, List.forall_mem_nil _⟩
  all_goals exact serves _ (by decide)

end EcKeyPair

end NeoC
