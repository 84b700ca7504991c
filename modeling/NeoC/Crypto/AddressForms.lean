import NeoC.Crypto.AddressInversion

/-!
# Addresses outside the hash type

`utils/string.c` checks addresses and takes them apart on its own, and two
functions named `neoc_bytes_script_hash_to_address` put them together, each
with a checksum that it computes itself.  A checksum is the start of a digest
of the version byte and the hash.  Here it is the start of the double SHA-256
in `neoc_bytes.c`, as in Base58Check, but of `neoc_hash256` in the other two
places, which is one round of SHA-256.

So there are two texts for every hash.  They are the same text exactly when
the two digests agree in their first four bytes, and this decides where the
notions of a valid address agree.
-/

namespace NeoC

open Foundation

/-- `neoc_hash256`. -/
def Host.hash256 (host : Host) (data : List UInt8) : Outcome (Bytes 32) :=
  host.sha256 data

/-- `neoc_base58_decode_alloc`; `none` is the `NULL` it returns. -/
def Base58.decodeAlloc (alloc : Allocator) (encoded : CString) :
    Option (List UInt8) :=
  let bufferSize := decodeBufferSize encoded
  if bufferSize = 0 then
    none
  else if alloc.neocGrants bufferSize = false then
    none
  else
    match decode alloc encoded bufferSize with
    | .error _ => none
    | .ok buffer => some buffer

namespace AddressForms

open Hash160

/-! ## The functions -/

/-- `neoc_string_base58_decode`. -/
def stringBase58Decode (alloc : Allocator) (base58String : CString) :
    Outcome (List UInt8) :=
  match Base58.decodeAlloc alloc base58String with
  | none => .error (.error .invalidFormat "")
  | some bytes => .ok bytes

/-- `neoc_string_is_valid_address`. -/
def stringIsValidAddress (host : Host) (alloc : Allocator)
    (address : CString) : Bool :=
  match stringBase58Decode alloc address with
  | .error _ => false
  | .ok data =>
      if data.length = 25 then
        if data.headD 0 = 0x35 then
          match host.hash256 (data.take 21) with
          | .error _ => false
          | .ok hashResult =>
              decide (hashResult.val.take 4 = (data.drop 21).take 4)
        else
          false
      else
        false

/-- `neoc_string_address_to_script_hash`. -/
def stringAddressToScriptHash (host : Host) (alloc : Allocator)
    (address : CString) : Outcome (List UInt8) :=
  if stringIsValidAddress host alloc address = false then
    .error (.error .invalidArgument "")
  else do
    let data ← stringBase58Decode alloc address
    if alloc.neocGrants 20 = false then
      .error (.error .outOfMemory "")
    else
      .ok ((data.drop 1).take 20).reverse

/-- `neoc_bytes_script_hash_to_address` of `neoc_bytes.c`. -/
def bytesScriptHashToAddress (host : Host) (alloc : Allocator)
    (scriptHash : Bytes 20) (version : UInt8) (addressSize : Nat) :
    Outcome CString := do
  let script := version :: scriptHash.val.reverse
  let hash ← host.sha256Double script
  Base58.encode alloc (script ++ hash.val.take 4) addressSize

/-- `neoc_bytes_script_hash_to_address` of `neoc_bytes_utils.c`. -/
def bytesUtilsScriptHashToAddress (host : Host) (alloc : Allocator)
    (scriptHash : Buffer) (bufferSize : Nat) : Outcome CString :=
  match scriptHash with
  | .null _ => .error (.error .invalidLength "")
  | .items data =>
      if data.length ≠ 20 then
        .error (.error .invalidLength "")
      else do
        let versionedScript := addressVersion :: data.reverse
        let hash256Result ← host.hash256 versionedScript
        Base58.encode alloc (versionedScript ++ hash256Result.val.take 4)
          bufferSize

/-! ## Base58 texts -/

theorem decodeAlloc_eq_some {alloc : Allocator} {text : CString}
    {bytes : List UInt8}
    (decoded : Base58.decodeAlloc alloc text = some bytes) :
    text = Base58.encodeText bytes := by
  rw [Base58.decodeAlloc] at decoded
  split at decoded
  · cases decoded
  split at decoded
  · cases decoded
  split at decoded
  · cases decoded
  · rename_i buffer read
    injection decoded with same
    rw [← same]
    exact (Base58.encodeText_of_decode read).symm

theorem decodeAlloc_encodeText {alloc : Allocator} {bytes : List UInt8}
    (some : bytes ≠ [])
    (serves : alloc.Serves ((Base58.encodeText bytes).strlen + 1)) :
    Base58.decodeAlloc alloc (Base58.encodeText bytes) =
      .some bytes := by
  rcases Base58.decodeBufferSize_encodeText some with ⟨fits, bounded⟩
  have present := List.length_pos_iff.mpr some
  have granted :=
    @Allocator.Serves.neocGrants alloc _
      (Base58.decodeBufferSize (Base58.encodeText bytes)) serves (by omega)
      bounded
  have decoded :=
    Base58.decode_encodeText bytes
      (serves.neocGrants (by omega) (by omega)) fits
  rw [Base58.decodeAlloc, if_neg (by omega), if_neg (by simp [granted]),
    decoded]

/-- Different bytes have different texts. -/
theorem encodeText_injective {first second : List UInt8}
    (same : Base58.encodeText first = Base58.encodeText second)
    (bounded : (Base58.encodeText second).strlen ≤ 64) :
    first = second := by
  have granted :
      Allocator.ample.neocGrants
          ((Base58.encodeText second).strlen * 733 / 1000 + 1) =
        true :=
    (Allocator.ample_serves (by decide : 64 ≤ ptrdiffMax)).neocGrants
      (by omega) (by omega)
  have read :=
    Base58.decode_encodeText first (by rw [same]; exact granted)
      (le_max_left first.length second.length)
  have read' :=
    Base58.decode_encodeText second granted
      (le_max_right first.length second.length)
  rw [same, read'] at read
  injection read with equal
  exact equal.symm

/-! ## The two texts of a hash -/

/-- The start of the digest of one round. -/
def onceChecksum (host : Host) (hash : Hash160) : List UInt8 :=
  (host.sha256Digest hash.addressBytes).val.take 4

/-- The start of the digest of two rounds. -/
def twiceChecksum (host : Host) (hash : Hash160) : List UInt8 :=
  (host.doubleDigest hash.addressBytes).val.take 4

/-- The text with a checksum of one round. -/
def onceText (host : Host) (hash : Hash160) : CString :=
  Base58.encodeText (hash.addressBytes ++ onceChecksum host hash)

theorem addressText_eq (host : Host) (hash : Hash160) :
    addressText host hash =
      Base58.encodeText (hash.addressBytes ++ twiceChecksum host hash) :=
  rfl

theorem length_onceChecksum (host : Host) (hash : Hash160) :
    (onceChecksum host hash).length = 4 := by
  rw [onceChecksum, List.length_take,
    (host.sha256Digest hash.addressBytes).property]
  rfl

theorem strlen_onceText_le (host : Host) (hash : Hash160) :
    (onceText host hash).strlen ≤ 35 := by
  have short :=
    Base58.strlen_encodeText_le
      (hash.addressBytes ++ onceChecksum host hash)
  rw [List.length_append, length_addressBytes, length_onceChecksum] at short
  exact short

theorem addressBytes_injective {hash other : Hash160}
    (same : hash.addressBytes = other.addressBytes) :
    hash = other := by
  injection same with _ reversed
  exact Subtype.ext (List.reverse_injective reversed)

/-- The two texts meet only where they belong to one hash. -/
theorem onceText_eq_addressText_iff {host : Host} {hash other : Hash160} :
    onceText host hash = addressText host other ↔
      hash = other ∧ onceChecksum host hash = twiceChecksum host hash := by
  constructor
  · intro same
    have bytes :=
      encodeText_injective same
        ((strlen_addressText_le host other).trans (by decide))
    have parts :=
      List.append_inj bytes
        ((length_addressBytes hash).trans (length_addressBytes other).symm)
    rcases addressBytes_injective parts.1 with rfl
    exact ⟨rfl, parts.2⟩
  · rintro ⟨rfl, same⟩
    rw [onceText, same, addressText_eq]

/-! ## What the functions accept and write -/

section Forms

variable {host : Host} {alloc : Allocator}

/-- Twenty-five bytes behind the version byte are a hash and a checksum. -/
theorem split_payload {data : List UInt8} (length : data.length = 25)
    (version : data.headD 0 = addressVersion) :
    ∃ (hash : Hash160) (checksum : List UInt8),
      checksum.length = 4 ∧ data = hash.addressBytes ++ checksum := by
  cases data with
  | nil => cases length
  | cons first rest =>
      have long : rest.length = 24 := Nat.succ_injective length
      have leading : first = addressVersion := version
      have exact : ((rest.take 20).reverse).length = 20 := by
        rw [List.length_reverse, List.length_take, long]
        rfl
      refine ⟨⟨(rest.take 20).reverse, exact⟩, rest.drop 20, ?_, ?_⟩
      · rw [List.length_drop, long]
      · rw [addressBytes, List.reverse_reverse, leading, List.cons_append,
          List.take_append_drop]

/-- A text that is valid has a checksum of one round. -/
theorem onceText_of_valid {address : CString}
    (valid : stringIsValidAddress host alloc address = true) :
    ∃ hash, address = onceText host hash := by
  rw [stringIsValidAddress, stringBase58Decode] at valid
  cases decoded : Base58.decodeAlloc alloc address with
  | none =>
      rw [decoded] at valid
      cases valid
  | some data =>
      rw [decoded] at valid
      dsimp only at valid
      split at valid
      · rename_i length
        split at valid
        · rename_i version
          rcases split_payload length version with
            ⟨hash, checksum, four, rfl⟩
          rw [List.take_left' (length_addressBytes hash),
            List.drop_left' (length_addressBytes hash),
            List.take_of_length_le four.le, Host.hash256, Host.sha256]
            at valid
          split at valid
          · cases valid
          · rename_i hashResult hashed
            refine ⟨hash, ?_⟩
            have same := of_decide_eq_true valid
            rw [Host.sha256_eq_ok hashed] at same
            rw [decodeAlloc_eq_some decoded, onceText, onceChecksum, same]
        · cases valid
      · cases valid

theorem stringBase58Decode_onceText (serves : alloc.Serves 64)
    (hash : Hash160) :
    stringBase58Decode alloc (onceText host hash) =
      .ok (hash.addressBytes ++ onceChecksum host hash) := by
  have short := strlen_onceText_le host hash
  have some : hash.addressBytes ++ onceChecksum host hash ≠ [] :=
    List.append_ne_nil_of_left_ne_nil (List.cons_ne_nil _ _) _
  rw [stringBase58Decode, onceText, decodeAlloc_encodeText some]
  exact serves.mono (Nat.succ_le_succ (short.trans (by decide)))

theorem valid_onceText (initialized : host.cryptoInitialized = true)
    (serves : alloc.Serves 64) (hash : Hash160) :
    stringIsValidAddress host alloc (onceText host hash) = true := by
  have length :
      (hash.addressBytes ++ onceChecksum host hash).length = 25 := by
    rw [List.length_append, length_addressBytes, length_onceChecksum]
  have version :
      (hash.addressBytes ++ onceChecksum host hash).headD 0 = 0x35 :=
    rfl
  rw [stringIsValidAddress, stringBase58Decode_onceText serves]
  dsimp only
  rw [if_pos length, if_pos version,
    List.take_left' (length_addressBytes hash),
    List.drop_left' (length_addressBytes hash),
    List.take_of_length_le (length_onceChecksum host hash).le,
    Host.hash256, Host.sha256, if_pos initialized]
  exact decide_eq_true rfl

theorem stringAddressToScriptHash_onceText
    (initialized : host.cryptoInitialized = true)
    (serves : alloc.Serves 64) (hash : Hash160) :
    stringAddressToScriptHash host alloc (onceText host hash) =
      .ok hash.val := by
  have granted : alloc.neocGrants 20 = true :=
    serves.neocGrants (by decide) (by decide)
  have payload :
      ((hash.addressBytes ++ onceChecksum host hash).drop 1).take 20 =
        hash.val.reverse := by
    rw [addressBytes, List.cons_append, List.drop_one, List.tail_cons]
    apply List.take_left'
    rw [List.length_reverse, hash.property]
  rw [stringAddressToScriptHash,
    if_neg (by rw [valid_onceText initialized serves]; decide),
    stringBase58Decode_onceText serves]
  refine Except.bind_eq_ok_iff.mpr ⟨_, rfl, ?_⟩
  rw [if_neg (by rw [granted]; decide), payload, List.reverse_reverse]

theorem fromAddress_iff (initialized : host.cryptoInitialized = true)
    (serves : alloc.Serves 64) {address : CString} {hash : Hash160} :
    fromAddress host alloc address = .ok hash ↔
      address = addressText host hash := by
  constructor
  · intro parsed
    exact (fromAddress_eq_ok parsed).1
  · rintro rfl
    exact fromAddress_addressText initialized serves

theorem valid_iff (initialized : host.cryptoInitialized = true)
    (serves : alloc.Serves 64) {address : CString} :
    stringIsValidAddress host alloc address = true ↔
      ∃ hash, address = onceText host hash := by
  constructor
  · exact onceText_of_valid
  · rintro ⟨hash, rfl⟩
    exact valid_onceText initialized serves hash

/-- Twenty-five bytes are written as their text where there is room. -/
theorem encode_iff (serves : alloc.Serves 64) {data : List UInt8}
    (length : data.length = 25) {bufferSize : Nat} {address : CString} :
    Base58.encode alloc data bufferSize = .ok address ↔
      (Base58.encodeText data).strlen < bufferSize ∧
        address = Base58.encodeText data := by
  have some : data ≠ [] := by
    rintro rfl
    cases length
  have granted : alloc.neocGrants (data.length * 138 / 100 + 1) = true := by
    rw [length]
    exact serves.neocGrants (by decide) (by decide)
  constructor
  · intro encoded
    by_cases room : (Base58.encodeText data).strlen < bufferSize
    · rw [Base58.encode_eq some granted room] at encoded
      injection encoded with same
      exact ⟨room, same.symm⟩
    · rw [Base58.strlen_encodeText] at room
      rw [Base58.encode, if_neg (by omega), if_neg (by simp [granted]),
        if_pos (by omega)] at encoded
      cases encoded
  · rintro ⟨room, rfl⟩
    exact Base58.encode_eq some granted room

theorem toAddress_iff (initialized : host.cryptoInitialized = true)
    (serves : alloc.Serves 64) {hash : Hash160} {bufferSize : Nat}
    {address : CString} :
    toAddress host alloc hash bufferSize = .ok address ↔
      (addressText host hash).strlen < bufferSize ∧
        address = addressText host hash := by
  have made :=
    toAddress_eq_ok (@toAddress_eq host alloc hash 64 initialized serves
      (by decide))
  rw [toAddress, made]
  dsimp only
  constructor
  · intro written
    split at written
    · cases written
    · rename_i room
      injection written with same
      exact ⟨Nat.lt_of_not_le room, same.symm⟩
  · rintro ⟨room, rfl⟩
    rw [if_neg (Nat.not_le_of_lt room)]

theorem bytesScriptHashToAddress_iff
    (initialized : host.cryptoInitialized = true)
    (serves : alloc.Serves 64) {hash : Hash160} {bufferSize : Nat}
    {address : CString} :
    bytesScriptHashToAddress host alloc hash addressVersion bufferSize =
        .ok address ↔
      (addressText host hash).strlen < bufferSize ∧
        address = addressText host hash := by
  have length := @Base58.length_checked host hash.addressBytes
  rw [length_addressBytes] at length
  rw [bytesScriptHashToAddress,
    Host.sha256Double_of_initialized initialized]
  exact encode_iff serves length

theorem bytesUtilsScriptHashToAddress_iff
    (initialized : host.cryptoInitialized = true)
    (serves : alloc.Serves 64) {hash : Hash160} {bufferSize : Nat}
    {address : CString} :
    bytesUtilsScriptHashToAddress host alloc (.items hash.val) bufferSize =
        .ok address ↔
      (onceText host hash).strlen < bufferSize ∧
        address = onceText host hash := by
  have length :
      (hash.addressBytes ++ onceChecksum host hash).length = 25 := by
    rw [List.length_append, length_addressBytes, length_onceChecksum]
  rw [bytesUtilsScriptHashToAddress, if_neg (not_ne_iff.mpr hash.property)]
  dsimp only
  rw [Host.hash256, Host.sha256, if_pos initialized]
  exact encode_iff serves length

/-! ## One notion of an address -/

/-- The checks of `string.c` and of the hash type agree about a text. -/
def SameVerdict (host : Host) (alloc : Allocator) (address : CString) :
    Prop :=
  (stringIsValidAddress host alloc address = true ↔
      ∃ hash, fromAddress host alloc address = .ok hash) ∧
    ∀ hash : Hash160,
      fromAddress host alloc address = .ok hash →
        stringAddressToScriptHash host alloc address = .ok hash.val

/-- All functions write one address for a hash, into buffers of any size. -/
def SameAddress (host : Host) (alloc : Allocator) (hash : Hash160) : Prop :=
  ∀ bufferSize address,
    (bytesUtilsScriptHashToAddress host alloc (.items hash.val) bufferSize =
        .ok address ↔
      toAddress host alloc hash bufferSize = .ok address) ∧
    (bytesScriptHashToAddress host alloc hash addressVersion bufferSize =
        .ok address ↔
      toAddress host alloc hash bufferSize = .ok address)

theorem sameVerdict_iff (initialized : host.cryptoInitialized = true)
    (serves : alloc.Serves 64) (address : CString) :
    SameVerdict host alloc address ↔
      ∀ hash,
        address = addressText host hash ∨ address = onceText host hash →
          onceChecksum host hash = twiceChecksum host hash := by
  rw [SameVerdict, valid_iff initialized serves]
  constructor
  · rintro ⟨agrees, -⟩ hash (right | once)
    · rcases agrees.mpr ⟨hash, (fromAddress_iff initialized serves).mpr right⟩
        with ⟨other, same⟩
      rw [right] at same
      rcases onceText_eq_addressText_iff.mp same.symm with ⟨rfl, equal⟩
      exact equal
    · rcases agrees.mp ⟨hash, once⟩ with ⟨other, parsed⟩
      rw [fromAddress_iff initialized serves, once] at parsed
      exact (onceText_eq_addressText_iff.mp parsed).2
  · intro checksums
    have texts (hash : Hash160) (right : address = addressText host hash) :
        address = onceText host hash := by
      rw [right]
      exact
        (onceText_eq_addressText_iff.mpr
          ⟨rfl, checksums hash (.inl right)⟩).symm
    refine ⟨⟨?_, ?_⟩, ?_⟩
    · rintro ⟨hash, once⟩
      refine ⟨hash, (fromAddress_iff initialized serves).mpr ?_⟩
      rw [once]
      exact
        onceText_eq_addressText_iff.mpr
          ⟨rfl, checksums hash (.inr once)⟩
    · rintro ⟨hash, parsed⟩
      exact ⟨hash, texts hash ((fromAddress_iff initialized serves).mp parsed)⟩
    · intro hash parsed
      rw [texts hash ((fromAddress_iff initialized serves).mp parsed)]
      exact stringAddressToScriptHash_onceText initialized serves hash

theorem sameAddress_iff (initialized : host.cryptoInitialized = true)
    (serves : alloc.Serves 64) (hash : Hash160) :
    SameAddress host alloc hash ↔
      onceChecksum host hash = twiceChecksum host hash := by
  constructor
  · intro same
    have short := strlen_addressText_le host hash
    have written :=
      (same 64 (addressText host hash)).1.mpr
        ((toAddress_iff initialized serves).mpr
          ⟨Nat.lt_of_le_of_lt short (by decide), rfl⟩)
    have equal :=
      ((bytesUtilsScriptHashToAddress_iff initialized serves).mp written).2
    exact (onceText_eq_addressText_iff.mp equal.symm).2
  · intro checksums bufferSize address
    have texts : onceText host hash = addressText host hash :=
      onceText_eq_addressText_iff.mpr ⟨rfl, checksums⟩
    rw [bytesUtilsScriptHashToAddress_iff initialized serves,
      bytesScriptHashToAddress_iff initialized serves,
      toAddress_iff initialized serves, texts]
    exact ⟨Iff.rfl, Iff.rfl⟩

/--
The checks agree about a text unless it is one of two different texts of a
hash, and the functions agree about a hash unless it has two different texts.
-/
theorem oneNotion_iff
    (initialized : host.cryptoInitialized = true)
    (serves : alloc.Serves 64) :
    (∀ address,
        SameVerdict host alloc address ↔
          ∀ hash,
            address = addressText host hash ∨
                address = onceText host hash →
              onceChecksum host hash = twiceChecksum host hash) ∧
      ∀ hash,
        SameAddress host alloc hash ↔
          onceChecksum host hash = twiceChecksum host hash :=
  ⟨sameVerdict_iff initialized serves, sameAddress_iff initialized serves⟩

/-- A hash whose two checksums are the same. -/
def agreeingHash : Hash160 :=
  (Bytes.ofNat 20 0x14D161839).reverse

/-- A host that knows the digests of its address. -/
def agreeingHost : Host :=
  Host.ofTables
    (Host.twiceDigests agreeingHash.addressBytes
      0x9CF7EB34B3FDF2C5A67217EAA19AAC0D5E584A22F1FE39F5F04BCFE65868AEA7
      0x9CF7EB34B72842095EBFB8F41F2C81603327F5E4F218016C162790723EBD031F)
    []

/-- The address of that hash is one everywhere, and the zero hash has two. -/
theorem oneNotion_agreeingHash :
    SameVerdict agreeingHost .ample (addressText agreeingHost agreeingHash) ∧
      SameAddress agreeingHost .ample agreeingHash ∧
      ¬SameAddress zeroHost .ample (Bytes.zero 20) := by
  have memory : Allocator.ample.Serves 64 :=
    Allocator.ample_serves (by decide)
  have agreeing := @oneNotion_iff agreeingHost .ample rfl memory
  have zero := @oneNotion_iff zeroHost .ample rfl memory
  have different :
      onceChecksum zeroHost (Bytes.zero 20) ≠
        twiceChecksum zeroHost (Bytes.zero 20) := by
    decide
  have checksums :
      onceChecksum agreeingHost agreeingHash =
        twiceChecksum agreeingHost agreeingHash := by
    decide
  refine
    ⟨(agreeing.1 _).mpr ?_, (agreeing.2 _).mpr checksums,
      fun same => different ((zero.2 _).mp same)⟩
  rintro hash (own | once)
  · rw [← addressText_injective rfl own]
    exact checksums
  · exact (onceText_eq_addressText_iff.mp once.symm).2

/-- The address of the zero hash is accepted by the hash type alone. -/
theorem zeroAddress_rejected :
    fromAddress zeroHost .ample zeroAddress = .ok (Bytes.zero 20) ∧
      stringIsValidAddress zeroHost .ample zeroAddress = false ∧
        ¬SameVerdict zeroHost .ample zeroAddress := by
  have memory : Allocator.ample.Serves 64 :=
    Allocator.ample_serves (by decide)
  have parsed :
      fromAddress zeroHost .ample zeroAddress = .ok (Bytes.zero 20) := by
    rw [zeroAddress_eq]
    exact fromAddress_addressText rfl memory
  have different :
      onceChecksum zeroHost (Bytes.zero 20) ≠
        twiceChecksum zeroHost (Bytes.zero 20) := by
    decide
  have rejected :
      stringIsValidAddress zeroHost .ample zeroAddress = false := by
    apply Bool.eq_false_of_not_eq_true
    intro valid
    rcases onceText_of_valid valid with ⟨hash, same⟩
    rw [zeroAddress_eq] at same
    rcases onceText_eq_addressText_iff.mp same.symm with ⟨rfl, equal⟩
    exact different equal
  refine ⟨parsed, rejected, ?_⟩
  rintro ⟨agrees, -⟩
  have valid := agrees.mpr ⟨_, parsed⟩
  rw [rejected] at valid
  cases valid

end Forms

end AddressForms

end NeoC
