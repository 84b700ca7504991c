import Mathlib.Data.ZMod.Basic
import NeoC.Crypto.AddressInversion
import NeoC.Crypto.Bip32
import NeoC.Foundation.Run

/-!
# The record of an extended key along its derivation

An extended key records its depth, the index it was derived with, the
fingerprint of its parent and, in its version, its network and whether it is
private.  `MetadataRight` says of a run that this record is right.

The text of a key always gives the key back.  The depth is a byte and wraps,
the public version is always the one of the main network, and the fingerprint
is never written: `neoc_bip32_get_fingerprint` hands 33 bytes to a function
that copies hashes of 20, and its error code is not looked at.  So a
derivation is recorded rightly only when the parent happens to carry its own
fingerprint already.
-/

namespace NeoC.Bip32

open Foundation

/-! ## The text of a key -/

/--
The 82 bytes that `neoc_bip32_serialize` encodes.  The last four are not
written before they are read.
-/
def serializedBytes (unset : Bytes 4) (key : Bip32Key) : List UInt8 :=
  key.version.val ++
    key.depth ::
      (key.parentFingerprint.val ++
        ((indexBytes key.childNumber).val ++
          (key.chainCode.val ++ (key.key.val ++ unset.val))))

/-- `neoc_bip32_serialize`. -/
def serialize (host : Host) (alloc : Allocator) (unset : Bytes 4)
    (key : Bip32Key) (xkeySize : Nat) : Outcome CString :=
  if xkeySize < 112 then
    .error (.error .bufferTooSmall "Buffer too small for xkey")
  else
    match
      Base58.checkEncodeAlloc host alloc (serializedBytes unset key)
    with
    | none => .error (.error .outOfMemory "Failed to encode xkey")
    | some encoded =>
        if xkeySize ≤ encoded.strlen then
          .error (.error .bufferTooSmall "Buffer too small")
        else
          .ok encoded

/-- The test of the version in `neoc_bip32_deserialize`. -/
def readVersion (version : Bytes 4) : Outcome Bool :=
  if version = mainnetPrivate ∨ version = testnetPrivate then
    .ok true
  else if version = mainnetPublic ∨ version = testnetPublic then
    .ok false
  else
    .error (.error .invalidFormat "Unknown xkey version")

/-- `neoc_bip32_deserialize`. -/
def deserialize (host : Host) (alloc : Allocator) (xkey : CString) :
    Outcome Bip32Key :=
  match Base58.checkDecodeAlloc host alloc xkey with
  | none => .error (.error .invalidFormat "Invalid xkey format")
  | some decoded =>
      if decoded.length ≠ 82 then
        .error (.error .invalidLength "Invalid xkey length")
      else do
        let isPrivate ← readVersion (Bytes.fill 4 decoded)
        .ok
          { version := Bytes.fill 4 decoded
            depth := (decoded.drop 4).headD 0
            parentFingerprint := Bytes.fill 4 (decoded.drop 5)
            childNumber :=
              UInt32.ofNat (bin2bn (Bytes.fill 4 (decoded.drop 9)).val)
            chainCode := Bytes.fill 32 (decoded.drop 13)
            key := Bytes.fill 33 (decoded.drop 45)
            isPrivate := isPrivate }

/-! ## Versions -/

/-- The networks that have version bytes. -/
inductive Network where
  | mainnet
  | testnet
deriving DecidableEq, Repr

/-- The version of a key of a network. -/
def Network.version : Network → (isPrivate : Bool) → Bytes 4
  | .mainnet, true => mainnetPrivate
  | .mainnet, false => mainnetPublic
  | .testnet, true => testnetPrivate
  | .testnet, false => testnetPublic

/-- A version tells its network and whether the key is private. -/
theorem Network.version_inj {network other : Network}
    {isPrivate isPrivate' : Bool} :
    network.version isPrivate = other.version isPrivate' ↔
      network = other ∧ isPrivate = isPrivate' := by
  constructor
  · intro same
    cases network <;> cases other <;> cases isPrivate <;>
      cases isPrivate' <;> first | exact ⟨rfl, rfl⟩ | cases same
  · rintro ⟨rfl, rfl⟩
    rfl

/-- The version of a key matches its kind. -/
def Coherent (key : Bip32Key) : Prop :=
  ∃ network : Network, key.version = network.version key.isPrivate

theorem readVersion_version (network : Network) (isPrivate : Bool) :
    readVersion (network.version isPrivate) = .ok isPrivate := by
  cases network <;> cases isPrivate <;> rfl

/-- Only the four versions are read. -/
theorem version_of_readVersion {version : Bytes 4} {isPrivate : Bool}
    (read : readVersion version = .ok isPrivate) :
    ∃ network : Network, version = network.version isPrivate := by
  rw [readVersion] at read
  split at read
  · rename_i isPrivateVersion
    injection read with same
    subst same
    rcases isPrivateVersion with rfl | rfl
    · exact ⟨.mainnet, rfl⟩
    · exact ⟨.testnet, rfl⟩
  split at read
  · rename_i isPublicVersion
    injection read with same
    subst same
    rcases isPublicVersion with rfl | rfl
    · exact ⟨.mainnet, rfl⟩
    · exact ⟨.testnet, rfl⟩
  · cases read

/-! ## The round trip -/

section RoundTrip

variable {host : Host} {alloc : Allocator} (unset : Bytes 4)
  (key : Bip32Key)

theorem length_serializedBytes : (serializedBytes unset key).length = 82 := by
  simp only [serializedBytes, List.length_append, List.length_cons,
    key.version.property, key.parentFingerprint.property,
    (indexBytes key.childNumber).property, key.chainCode.property,
    key.key.property, unset.property]

/-- Skipping an array leaves what stands behind it. -/
theorem drop_array {size : Nat} (array : Bytes size) (rest : List UInt8)
    (count : Nat) :
    (array.val ++ rest).drop (size + count) = rest.drop count := by
  rw [← List.drop_drop, List.drop_left' array.property]

theorem index_of_bytes (index : UInt32) :
    UInt32.ofNat (bin2bn (indexBytes index).val) = index := by
  rw [bin2bn, indexBytes, List.reverse_reverse,
    LittleEndian.ofBytes_toBytes_of_lt index.toNat_lt]
  exact UInt32.ofNat_toNat

/-- The text of a key. -/
def xkeyText (host : Host) (unset : Bytes 4) (key : Bip32Key) : CString :=
  Base58.encodeText (Base58.checked host (serializedBytes unset key))

theorem strlen_xkeyText : (xkeyText host unset key).strlen < 120 := by
  have bound :=
    Base58.strlen_encodeText_le
      (Base58.checked host (serializedBytes unset key))
  rw [Base58.length_checked, length_serializedBytes] at bound
  rw [xkeyText]
  omega

theorem checkEncodeAlloc_xkey (initialized : host.cryptoInitialized = true)
    (serves : alloc.Serves 120) :
    Base58.checkEncodeAlloc host alloc (serializedBytes unset key) =
      some (xkeyText host unset key) := by
  have length := length_serializedBytes unset key
  have size : Base58.encodeBufferSize (82 + 4) = 120 := rfl
  rw [Base58.checkEncodeAlloc, length, size,
    if_neg (by simp [serves.neocGrants (Nat.succ_pos 119) (Nat.le_refl _)]),
    Base58.checkEncode_eq initialized
      (serves.mono (by rw [length]; decide)) (strlen_xkeyText unset key)]
  rfl

/-- With memory a key has a text that fits 120 bytes. -/
theorem serialize_eq {xkeySize : Nat}
    (initialized : host.cryptoInitialized = true)
    (serves : alloc.Serves 120) (room : 120 ≤ xkeySize) :
    serialize host alloc unset key xkeySize =
      .ok (xkeyText host unset key) := by
  have short := @strlen_xkeyText host unset key
  rw [serialize, if_neg (by omega),
    checkEncodeAlloc_xkey unset key initialized serves]
  dsimp only
  rw [if_neg (by omega)]

/-- The text of a coherent key is read as the key. -/
theorem deserialize_text (coherent : Coherent key)
    (initialized : host.cryptoInitialized = true)
    (serves : alloc.Serves 120) :
    deserialize host alloc (xkeyText host unset key) = .ok key := by
  have length := length_serializedBytes unset key
  have decoded :
      Base58.checkDecodeAlloc host alloc (xkeyText host unset key) =
        some (serializedBytes unset key) :=
    Base58.checkDecodeAlloc_checkEncodeAlloc
      (checkEncodeAlloc_xkey unset key initialized serves)
      (serves.mono (strlen_xkeyText unset key)) (by rw [length]; decide)
  have version :
      Bytes.fill 4 (serializedBytes unset key) = key.version :=
    Bytes.fill_append key.version _
  have read : readVersion key.version = .ok key.isPrivate := by
    rcases coherent with ⟨network, named⟩
    rw [named]
    exact readVersion_version network key.isPrivate
  have behind4 := drop_array key.version
    (key.depth ::
      (key.parentFingerprint.val ++
        ((indexBytes key.childNumber).val ++
          (key.chainCode.val ++ (key.key.val ++ unset.val)))))
  have behind9 := drop_array key.parentFingerprint
    ((indexBytes key.childNumber).val ++
      (key.chainCode.val ++ (key.key.val ++ unset.val)))
  have behind13 := drop_array (indexBytes key.childNumber)
    (key.chainCode.val ++ (key.key.val ++ unset.val))
  have behind45 := drop_array key.chainCode (key.key.val ++ unset.val)
  have depth : ((serializedBytes unset key).drop 4).headD 0 = key.depth :=
    congrArg (List.headD · 0) (behind4 0)
  have fingerprint :
      Bytes.fill 4 ((serializedBytes unset key).drop 5) =
        key.parentFingerprint :=
    (congrArg (Bytes.fill 4) (behind4 1)).trans (Bytes.fill_append _ _)
  have index :
      Bytes.fill 4 ((serializedBytes unset key).drop 9) =
        indexBytes key.childNumber :=
    (congrArg (Bytes.fill 4) ((behind4 5).trans (behind9 0))).trans
      (Bytes.fill_append _ _)
  have chainCode :
      Bytes.fill 32 ((serializedBytes unset key).drop 13) = key.chainCode :=
    (congrArg (Bytes.fill 32)
      ((behind4 9).trans ((behind9 4).trans (behind13 0)))).trans
      (Bytes.fill_append _ _)
  have content :
      Bytes.fill 33 ((serializedBytes unset key).drop 45) = key.key :=
    (congrArg (Bytes.fill 33)
      ((behind4 41).trans
        ((behind9 36).trans ((behind13 32).trans (behind45 0))))).trans
      (Bytes.fill_append _ _)
  rw [deserialize, decoded]
  dsimp only
  rw [if_neg (by simp [length]), version, read, depth, fingerprint, index,
    chainCode, content, index_of_bytes]
  rfl

end RoundTrip

/-! ## Runs -/

/-- The calls that make a key of another. -/
inductive Step where
  | deriveChild (index : UInt32)
  | getPublicKey

/-- A key with how often it was derived, and last from where. -/
structure Recorded where
  key : Bip32Key
  derivations : Nat
  last : Option (Bip32Key × UInt32)

/-- A root key has not been derived. -/
def start (root : Bip32Key) : Recorded :=
  ⟨root, 0, none⟩

/-- The call of a step. -/
def Step.call (ssl : Primitives) (key : Bip32Key) : Step → Outcome Bip32Key
  | .deriveChild index => Bip32.deriveChild ssl key index
  | .getPublicKey => Bip32.getPublicKey ssl key

/-- What is known of the key that a step has made. -/
def Step.record (state : Recorded) (key : Bip32Key) : Step → Recorded
  | .deriveChild index =>
      ⟨key, state.derivations + 1, some (state.key, index)⟩
  | .getPublicKey => { state with key := key }

/-- A step from a key; a call that fails leaves the caller with its key. -/
def next (ssl : Primitives) (state : Recorded) (step : Step) : Recorded :=
  match step.call ssl state.key with
  | .error _ => state
  | .ok key => step.record state key

/-- The step succeeds. -/
def Succeeds (ssl : Primitives) (state : Recorded) (step : Step) : Prop :=
  ∃ key, step.call ssl state.key = .ok key

/-- A key comes from a seed or from a text. -/
def IsRoot (host : Host) (ssl : Primitives) (root : Bip32Key) : Prop :=
  (∃ seed, fromSeedRaw ssl seed = .ok root) ∨
    ∃ alloc xkey, deserialize host alloc xkey = .ok root

/-- The first bytes of the digest of the compressed public key of a key. -/
def HasFingerprint (host : Host) (ssl : Primitives) (key : Bip32Key)
    (fingerprint : Bytes 4) : Prop :=
  ∃ publicKey,
    Bip32.getPublicKey ssl key = .ok publicKey ∧
      fingerprint.val = (host.scriptDigest publicKey.key.val).val.take 4

/-- The record of a key that was made from a root is right. -/
structure MetadataRight (host : Host) (ssl : Primitives) (root : Bip32Key)
    (state : Recorded) : Prop where
  depth :
    state.key.depth.toNat = root.depth.toNat + state.derivations
  child :
    ∀ parent index,
      state.last = some (parent, index) →
        state.key.childNumber = index ∧
          HasFingerprint host ssl parent state.key.parentFingerprint
  version :
    ∃ network : Network,
      root.version = network.version root.isPrivate ∧
        state.key.version = network.version state.key.isPrivate
  text :
    ∀ unset alloc (xkeySize : Nat),
      alloc.Serves 120 →
        120 ≤ xkeySize →
          ∃ xkey,
            serialize host alloc unset state.key xkeySize = .ok xkey ∧
              deserialize host alloc xkey = .ok state.key

/--
The steps that are recorded rightly.  A derivation is one when the depth does
not wrap and the parent carries its own fingerprint where that of its parent
belongs; the conversion of a private key is one on the main network.
-/
def Step.Recordable (host : Host) (ssl : Primitives) (key : Bip32Key) :
    Step → Prop
  | .deriveChild _ =>
      key.depth.toNat ≠ 255 ∧ HasFingerprint host ssl key key.parentFingerprint
  | .getPublicKey => key.isPrivate = true → key.version = mainnetPrivate

section Runs

variable {host : Host} {ssl : Primitives} {root : Bip32Key}

/-- A derivation changes these fields in this way. -/
theorem fields_of_derive {key child : Bip32Key} {index : UInt32}
    (derived : Bip32.deriveChild ssl key index = .ok child) :
    child.depth = key.depth + 1 ∧ child.childNumber = index ∧
      child.parentFingerprint = key.parentFingerprint ∧
        child.version = key.version ∧ child.isPrivate = key.isPrivate := by
  cases isPrivate : key.isPrivate with
  | true =>
      rcases (deriveChild_private isPrivate).mp derived with
        ⟨front, childKey, -, -, rfl⟩
      exact ⟨rfl, rfl, rfl, rfl, isPrivate⟩
  | false =>
      rcases (deriveChild_public isPrivate).mp derived with
        ⟨-, childKey, -, rfl⟩
      exact ⟨rfl, rfl, rfl, rfl, isPrivate⟩

/-- A conversion changes these fields in this way. -/
theorem fields_of_convert {key publicKey : Bip32Key}
    (converted : Bip32.getPublicKey ssl key = .ok publicKey) :
    publicKey.depth = key.depth ∧
      publicKey.childNumber = key.childNumber ∧
        publicKey.parentFingerprint = key.parentFingerprint ∧
          publicKey.isPrivate = false ∧
            publicKey.version =
              if key.isPrivate then mainnetPublic else key.version := by
  cases isPrivate : key.isPrivate with
  | true =>
      rcases (getPublicKey_private isPrivate).mp converted with
        ⟨encoded, -, rfl⟩
      exact ⟨rfl, rfl, rfl, rfl, rfl⟩
  | false =>
      rw [getPublicKey_public isPrivate] at converted
      injection converted with same
      subst same
      exact ⟨rfl, rfl, rfl, isPrivate, rfl⟩

/-- A coherent key can be written and read. -/
theorem text_of_coherent (initialized : host.cryptoInitialized = true)
    {key : Bip32Key} (coherent : Coherent key) (unset : Bytes 4)
    (alloc : Allocator) (xkeySize : Nat) (serves : alloc.Serves 120)
    (room : 120 ≤ xkeySize) :
    ∃ xkey,
      serialize host alloc unset key xkeySize = .ok xkey ∧
        deserialize host alloc xkey = .ok key :=
  ⟨_, serialize_eq unset key initialized serves room,
    deserialize_text unset key coherent initialized serves⟩

/-- Every root is recorded rightly. -/
theorem metadataRight_start (initialized : host.cryptoInitialized = true)
    (isRoot : IsRoot host ssl root) :
    MetadataRight host ssl root (start root) := by
  have coherent : Coherent root := by
    rcases isRoot with ⟨seed, made⟩ | ⟨alloc, xkey, read⟩
    · rw [fromSeedRaw] at made
      split at made
      · cases made
      · injection made with same
        subst same
        exact ⟨.mainnet, rfl⟩
    · rw [deserialize] at read
      split at read
      · cases read
      split at read
      · cases read
      rcases Except.bind_eq_ok_iff.mp read with ⟨isPrivate, known, made⟩
      injection made with same
      subst same
      exact version_of_readVersion known
  rcases coherent with ⟨network, named⟩
  exact
    { depth := rfl
      child := by
        intro parent index none
        cases none
      version := ⟨network, named, named⟩
      text := text_of_coherent initialized ⟨network, named⟩ }

/-- A derivation is recorded rightly exactly when it is recordable. -/
theorem metadataRight_derive (initialized : host.cryptoInitialized = true)
    {state : Recorded} {child : Bip32Key} {index : UInt32}
    (right : MetadataRight host ssl root state)
    (derived : Bip32.deriveChild ssl state.key index = .ok child) :
    MetadataRight host ssl root
        ((Step.deriveChild index).record state child) ↔
      (Step.deriveChild index).Recordable host ssl state.key := by
  rcases fields_of_derive derived with
    ⟨depth, childNumber, fingerprint, version, isPrivate⟩
  have below := state.key.depth.toNat_lt
  have deeper :
      child.depth.toNat = (state.key.depth.toNat + 1) % 256 := by
    rw [depth, UInt8.toNat_add]
    rfl
  have recorded := right.depth
  constructor
  · intro after
    refine ⟨?_, ?_⟩
    · intro deepest
      have wrong :
          child.depth.toNat = root.depth.toNat + (state.derivations + 1) :=
        after.depth
      rw [deeper, deepest] at wrong
      omega
    · have marked := (after.child state.key index rfl).2
      exact fingerprint ▸ marked
  · rintro ⟨shallow, marked⟩
    rcases right.version with ⟨network, rootNamed, named⟩
    have childNamed : child.version = network.version child.isPrivate := by
      rw [version, isPrivate]
      exact named
    exact
      { depth := by
          have exact : child.depth.toNat =
              root.depth.toNat + (state.derivations + 1) := by
            rw [deeper, Nat.mod_eq_of_lt (by omega)]
            omega
          exact exact
        child := by
          intro parent index' last
          injection last with last
          injection last with parentSame indexSame
          subst parentSame
          subst indexSame
          exact ⟨childNumber, fingerprint.symm ▸ marked⟩
        version := ⟨network, rootNamed, childNamed⟩
        text := text_of_coherent initialized ⟨network, childNamed⟩ }

/-- A conversion is recorded rightly exactly when it is recordable. -/
theorem metadataRight_convert (initialized : host.cryptoInitialized = true)
    {state : Recorded} {publicKey : Bip32Key}
    (right : MetadataRight host ssl root state)
    (converted : Bip32.getPublicKey ssl state.key = .ok publicKey) :
    MetadataRight host ssl root (Step.getPublicKey.record state publicKey) ↔
      Step.getPublicKey.Recordable host ssl state.key := by
  rcases fields_of_convert converted with
    ⟨depth, childNumber, fingerprint, isPublic, version⟩
  rcases right.version with ⟨network, rootNamed, named⟩
  constructor
  · intro after isPrivate
    rcases after.version with ⟨other, rootNamed', converted'⟩
    have sameNetwork :=
      (Network.version_inj.mp (rootNamed.symm.trans rootNamed')).1
    have main : Network.mainnet.version false = other.version false := by
      have named' : publicKey.version = other.version publicKey.isPrivate :=
        converted'
      rw [version, isPublic, if_pos isPrivate] at named'
      exact named'
    rw [named, isPrivate, sameNetwork, ← (Network.version_inj.mp main).1]
    rfl
  · intro recordable
    have publicNamed :
        publicKey.version = network.version publicKey.isPrivate := by
      rw [version, isPublic]
      cases isPrivate : state.key.isPrivate with
      | true =>
          have main : network.version true = Network.mainnet.version true := by
            have named' := named
            rw [isPrivate] at named'
            exact named'.symm.trans (recordable isPrivate)
          rw [if_pos rfl, (Network.version_inj.mp main).1]
          rfl
      | false =>
          rw [if_neg (by decide), named, isPrivate]
    exact
      { depth := (congrArg UInt8.toNat depth).trans right.depth
        child := by
          intro parent index last
          rcases right.child parent index last with ⟨number, marked⟩
          exact ⟨childNumber.trans number, fingerprint.symm ▸ marked⟩
        version := ⟨network, rootNamed, publicNamed⟩
        text := text_of_coherent initialized ⟨network, publicNamed⟩ }

/-- One step is recorded rightly exactly when it is recordable. -/
theorem metadataRight_next (initialized : host.cryptoInitialized = true)
    {state : Recorded} {step : Step}
    (right : MetadataRight host ssl root state)
    (succeeds : Succeeds ssl state step) :
    MetadataRight host ssl root (next ssl state step) ↔
      step.Recordable host ssl state.key := by
  rcases succeeds with ⟨key, called⟩
  rw [next, called]
  cases step with
  | deriveChild index => exact metadataRight_derive initialized right called
  | getPublicKey => exact metadataRight_convert initialized right called

/--
In a run from a root whose calls all succeed, every key that is reached is
recorded rightly exactly when every step is recordable.
-/
theorem metadataRight_iff
    (host : Host)
    (ssl : Primitives)
    (root : Bip32Key)
    (steps : List Step)
    (initialized : host.cryptoInitialized = true)
    (isRoot : IsRoot host ssl root)
    (succeed : Along (next ssl) (Succeeds ssl) (start root) steps) :
    Along (next ssl)
        (fun state step => MetadataRight host ssl root (next ssl state step))
        (start root) steps ↔
      Along (next ssl)
        (fun state step => step.Recordable host ssl state.key)
        (start root) steps := by
  have exactly :
      Along (next ssl)
          (fun state step =>
            Succeeds ssl state step ∧
              MetadataRight host ssl root (next ssl state step))
          (start root) steps ↔
        Along (next ssl)
          (fun state step =>
            Succeeds ssl state step ∧ step.Recordable host ssl state.key)
          (start root) steps := by
    refine
      along_iff_of_invariant (MetadataRight host ssl root) ?_ ?_
        (metadataRight_start initialized isRoot) steps
    · rintro state step right ⟨succeeds, recordable⟩
      exact (metadataRight_next initialized right succeeds).mpr recordable
    · intro state step right
      exact
        and_congr_right
          (fun succeeds => metadataRight_next initialized right succeeds)
  rw [along_and, along_and, and_iff_right succeed, and_iff_right succeed]
    at exactly
  exact exactly

end Runs

/-! ## The first key of a seed -/

/-- The order of secp256r1. -/
def curveOrder : Nat :=
  0xFFFFFFFF00000000FFFFFFFFFFFFFFFFBCE6FAADA7179E84F3B9CAC2FC632551

instance : NeZero curveOrder :=
  ⟨by decide⟩

/--
The numbers modulo the order of the curve, with the encoding of one point and
with some digests.  The other points are written as their numbers.
-/
def Primitives.known (scalar : Nat) (encoded : Bytes 33)
    (compressedHead : encoded.val.headD 0 ≠ 4)
    (digests : List ((List UInt8 × List UInt8) × Bytes 64)) :
    Primitives where
  Point := ZMod curveOrder
  generator := 1
  order := curveOrder
  multiply number := number
  compressed point :=
    if point.val = scalar then
      encoded
    else
      ⟨4 :: (bn2binpad point.val).val, by
        rw [List.length_cons, (bn2binpad point.val).property]⟩
  decode bytes :=
    if bytes = encoded then
      some scalar
    else
      some (bin2bn (bytes.val.drop 1))
  setPrivateKey _ := true
  hmacSha512 key data := (digests.lookup (key, data)).getD (Bytes.zero 64)
  order_pos := by decide
  order_le := by decide
  addOrderOf_generator := ZMod.addOrderOf_one curveOrder
  multiply_eq number := (nsmul_one number).symm
  decode_compressed := by
    intro point _
    have small : point.val < 256 ^ 32 :=
      (ZMod.val_lt point).trans_le (by decide)
    by_cases isKnown : point.val = scalar
    · rw [if_pos isKnown, if_pos rfl, ← isKnown, ZMod.natCast_zmod_val]
    · have other :
          (⟨4 :: (bn2binpad point.val).val, by
              rw [List.length_cons, (bn2binpad point.val).property]⟩ :
              Bytes 33) ≠
            encoded := by
        intro same
        rw [← same] at compressedHead
        exact compressedHead rfl
      rw [if_neg isKnown, if_neg other]
      have number : bin2bn (bn2binpad point.val).val = point.val := by
        rw [bin2bn, bn2binpad, Bytes.ofNat, List.reverse_reverse]
        exact LittleEndian.ofBytes_toBytes_of_lt small
      rw [List.drop_one, List.tail_cons, number, ZMod.natCast_zmod_val]
  setPrivateKey_of_lt _ _ _ := rfl

theorem Primitives.known_compressed {scalar : Nat} {encoded : Bytes 33}
    {compressedHead : encoded.val.headD 0 ≠ 4}
    {digests : List ((List UInt8 × List UInt8) × Bytes 64)}
    (small : scalar < curveOrder) :
    (known scalar encoded compressedHead digests).compressed
        ((known scalar encoded compressedHead digests).multiply scalar) =
      encoded :=
  if_pos ((ZMod.val_natCast _ _).trans (Nat.mod_eq_of_lt small))

/-- A seed of 16 bytes. -/
def sampleSeed : List UInt8 :=
  [0x00, 0x01, 0x02, 0x03, 0x04, 0x05, 0x06, 0x07, 0x08, 0x09, 0x0A, 0x0B,
   0x0C, 0x0D, 0x0E, 0x0F]

/-- The digest of the seed. -/
def sampleDigest : Bytes 64 :=
  let front := Bytes.ofNat 32
    0xD2C3CBE9359D36320F11868901F9C25495D668A40FE064ECFAFFCCC8BEA2A60C
  let back := Bytes.ofNat 32
    0x49197E2364AC5736290AC1916F61264C6E0E8A4206351FFEEA3F4C046A899BBE
  ⟨front.val ++ back.val, rfl⟩

/-- The public key of the seed. -/
def samplePublicKey : Bytes 33 :=
  Bytes.ofNat 33
    0x33AD94F493FEA09BE9ED1A6BA107B94D22D741B5B34960D369010D201AAC4D536

/-- The digest of the first hardened derivation. -/
def sampleChildDigest : Bytes 64 :=
  let front := Bytes.ofNat 32
    0x2D81A3B320BC4FABBFCDED5582C5947663F80FC72B9EC2F9A76589F4E2587CFA
  let back := Bytes.ofNat 32
    0x8A46BD63246FA0D75236026C1BED79101A75834FEA1C57157C03FE95440454BE
  ⟨front.val ++ back.val, rfl⟩

/-- The key of the seed. -/
def sampleRoot : Bip32Key where
  version := mainnetPrivate
  depth := 0
  parentFingerprint := Bytes.zero 4
  childNumber := 0
  chainCode := ⟨sampleDigest.val.drop 32, rfl⟩
  key := ⟨0 :: sampleDigest.val.take 32, rfl⟩
  isPrivate := true

/-- What the runs below ask of the curve and the digest. -/
def samplePrimitives : Primitives :=
  .known (scalarOf sampleRoot.key) samplePublicKey (by decide)
    [((ascii "Neo seed", sampleSeed), sampleDigest),
      ((sampleDigest.val.drop 32,
        sampleRoot.key.val ++ [0x80, 0x00, 0x00, 0x00]), sampleChildDigest)]

/-- A host with the digests of the public key. -/
def sampleHost : Host :=
  let digest :=
    Bytes.ofNat 32
      0xDE5BE1D3DCEFFA22D9FC82B3E53D3760F1B1C4703BE1E3E843C9ECA2226F016
  .ofTables [(samplePublicKey.val, digest)]
    [(digest.val, Bytes.ofNat 20 0x83AF7BD01988CF66115750D511A07E1FB4412DC6)]

theorem isRoot_sampleRoot :
    IsRoot sampleHost samplePrimitives sampleRoot :=
  .inl ⟨sampleSeed, by decide⟩

theorem compressedOf_sampleRoot :
    compressedOf samplePrimitives sampleRoot.key = .ok samplePublicKey := by
  have small : scalarOf sampleRoot.key < curveOrder := by decide
  have finite : scalarOf sampleRoot.key % curveOrder ≠ 0 := by
    decide
  exact
    compressedOf_eq_ok.mpr
      ⟨rfl, fun infinite => finite (multiply_eq_zero.mp infinite),
        (Primitives.known_compressed small).symm⟩

/-- The first derivation from a seed does not record its parent. -/
theorem firstChild_unrecorded :
    IsRoot sampleHost samplePrimitives sampleRoot ∧
      Along (next samplePrimitives) (Succeeds samplePrimitives)
        (start sampleRoot) [.deriveChild 0x80000000] ∧
      ¬ Along (next samplePrimitives)
        (fun state step =>
          MetadataRight sampleHost samplePrimitives sampleRoot
            (next samplePrimitives state step))
        (start sampleRoot) [.deriveChild 0x80000000] := by
  have derives :
      (deriveChild samplePrimitives sampleRoot 0x80000000).isOk = true := by
    decide
  have succeeds :
      Succeeds samplePrimitives (start sampleRoot)
        (.deriveChild 0x80000000) := by
    cases derived : deriveChild samplePrimitives sampleRoot 0x80000000 with
    | error reason => rw [derived] at derives; cases derives
    | ok child => exact ⟨child, derived⟩
  refine ⟨isRoot_sampleRoot, ⟨succeeds, trivial⟩, ?_⟩
  rintro ⟨right, -⟩
  rcases (metadataRight_next rfl (metadataRight_start rfl isRoot_sampleRoot)
    succeeds).mp right with ⟨-, publicKey, converted, marked⟩
  rcases (getPublicKey_private rfl).mp converted with ⟨encoded, encodes, rfl⟩
  injection compressedOf_sampleRoot.symm.trans encodes with same
  subst same
  revert marked
  decide

/-- The public key of a seed is recorded rightly. -/
theorem metadataRight_publicKey :
    Along (next samplePrimitives)
      (fun state step =>
        MetadataRight sampleHost samplePrimitives sampleRoot
          (next samplePrimitives state step))
      (start sampleRoot) [.getPublicKey] :=
  (metadataRight_iff sampleHost samplePrimitives sampleRoot [.getPublicKey]
    rfl isRoot_sampleRoot
    ⟨⟨_, (getPublicKey_private rfl).mpr
      ⟨samplePublicKey, compressedOf_sampleRoot, rfl⟩⟩, trivial⟩).mpr
    ⟨fun _ => rfl, trivial⟩

end NeoC.Bip32
