import NeoC.Crypto.AddressInversion

/-!
# The addresses of the script helper

`script_helper.c` writes addresses with its own copy of the encoder and reads
them with the one decoder of the hash type.  The copy puts the bytes of the
hash behind the version byte as they are stored.  The encoder of the hash type
puts them in reverse order there, and its decoder turns them around again.
What the script helper writes for a hash is therefore the address of the
reversed hash.
-/

namespace NeoC

open Foundation

namespace ScriptHelper

open Hash160

/-! ## The functions -/

/-- `neoc_script_hash_to_address`. -/
def scriptHashToAddress (host : Host) (alloc : Allocator)
    (scriptHash : Hash160) (version : UInt8) : Outcome CString :=
  let version := if version ≠ 0 then version else addressVersion
  let versioned := version :: scriptHash.val
  let bufferSize := Base58.encodeBufferSize (versioned.length + 4)
  if alloc.neocGrants bufferSize = false then
    .error (.error .outOfMemory "")
  else
    Base58.checkEncode host alloc versioned bufferSize

/-- `neoc_script_address_to_hash`. -/
def scriptAddressToHash (host : Host) (alloc : Allocator)
    (address : CString) : Outcome Hash160 :=
  fromAddress host alloc address

section Addresses

variable {host : Host} {alloc : Allocator} {hash : Hash160}

/-! ## The address that is written -/

theorem addressBytes_reverse (hash : Hash160) :
    addressBytes hash.reverse = addressVersion :: hash.val := by
  rw [addressBytes, Bytes.val_reverse, List.reverse_reverse]

/-- The version zero stands for the one of addresses. -/
theorem scriptHashToAddress_eq
    (initialized : host.cryptoInitialized = true)
    (serves : alloc.Serves 64) :
    scriptHashToAddress host alloc hash 0 =
      .ok (addressText host hash.reverse) := by
  have short := strlen_addressText_le host hash.reverse
  have length := length_addressBytes hash.reverse
  have size : Base58.encodeBufferSize (21 + 4) = 36 :=
    rfl
  have granted : alloc.neocGrants 36 = true :=
    serves.neocGrants (by decide) (by decide)
  have encoded :
      Base58.checkEncode host alloc (addressBytes hash.reverse) 36 =
        .ok (addressText host hash.reverse) := by
    apply Base58.checkEncode_eq initialized
    · rw [length]
      exact serves.mono (by decide)
    · exact Nat.lt_succ_of_le short
  rw [scriptHashToAddress, if_neg (not_not_intro rfl),
    ← addressBytes_reverse, length, size, granted, if_neg (by decide), encoded]

/-! ## Where the helper and the hash type agree -/

/-- The address that is written is read as the hash. -/
def Inverse (host : Host) (alloc : Allocator) (hash : Hash160) : Prop :=
  ∃ address,
    scriptHashToAddress host alloc hash 0 = .ok address ∧
      scriptAddressToHash host alloc address = .ok hash

/-- The address that is written is the one of the hash type. -/
def SameAsHashType (host : Host) (alloc : Allocator) (hash : Hash160)
    (bufferSize : Nat) : Prop :=
  ∃ address,
    scriptHashToAddress host alloc hash 0 = .ok address ∧
      toAddress host alloc hash bufferSize = .ok address

theorem inverse_iff
    (initialized : host.cryptoInitialized = true)
    (serves : alloc.Serves 64) :
    Inverse host alloc hash ↔ hash.reverse = hash := by
  have written :=
    @scriptHashToAddress_eq host alloc hash initialized serves
  have read :=
    @fromAddress_addressText host alloc hash.reverse initialized serves
  constructor
  · rintro ⟨address, addressed, parsed⟩
    rw [written] at addressed
    injection addressed with same
    rw [← same, scriptAddressToHash, read] at parsed
    injection parsed
  · intro palindrome
    refine ⟨_, written, ?_⟩
    rw [scriptAddressToHash, read, palindrome]

theorem sameAsHashType_iff
    (initialized : host.cryptoInitialized = true)
    (serves : alloc.Serves 64)
    {bufferSize : Nat}
    (room : 35 < bufferSize) :
    SameAsHashType host alloc hash bufferSize ↔ hash.reverse = hash := by
  have written :=
    @scriptHashToAddress_eq host alloc hash initialized serves
  have converted :=
    @toAddress_eq host alloc hash bufferSize initialized serves room
  constructor
  · rintro ⟨address, addressed, other⟩
    rw [written] at addressed
    rw [converted] at other
    injection addressed with same
    injection other with same'
    exact addressText_injective initialized (same.trans same'.symm)
  · intro palindrome
    rw [palindrome] at written
    exact ⟨_, written, converted⟩

/--
The script helper reads back what it writes, and writes what the hash type
writes, exactly for the hashes whose bytes are a palindrome.
-/
theorem scriptAddress_iff_palindrome
    (initialized : host.cryptoInitialized = true)
    (serves : alloc.Serves 64)
    {bufferSize : Nat}
    (room : 35 < bufferSize)
    (hash : Hash160) :
    Inverse host alloc hash ∧ SameAsHashType host alloc hash bufferSize ↔
      hash.reverse = hash := by
  rw [inverse_iff initialized serves,
    sameAsHashType_iff initialized serves room, and_self_iff]

end Addresses

/-! ## A hash that is not a palindrome -/

/-- Zeros and a one. -/
def oneHash : Hash160 :=
  ⟨List.replicate 19 0 ++ [1], rfl⟩

/-- SHA-256, once and twice, of the version byte and the hash both ways. -/
def oneHashDigests : List (List UInt8 × Bytes 32) :=
  Host.twiceDigests (0x35 :: oneHash.val)
    0x2491B5894B6288017DCE796A9CD00D7A4FBCF06DDB90A63989F15D9DDB27443F
    0x76B9E42726E655385F3AB5D64C5EABF2AD2EAFEECC997EE015E7BB70B4D3B799 ++
  Host.twiceDigests (0x35 :: oneHash.val.reverse)
    0x5E09E14CE055A43764FC90441A859B5E033874B4284A1D1647EB3F119E8428BD
    0xFCFA54A47B760309CD06A75FFD9342EFF9CACE4BCC612D974CB9D7C35398AA02

/-- A host that knows these digests. -/
def oneHashHost : Host :=
  Host.ofTables oneHashDigests []

theorem oneHash_reverse_text :
    addressText oneHashHost oneHash.reverse =
      CString.ofString "NKuyBkoGdZZSLyPbJEetheRhMjezqzTxcW" := by
  rw [addressText, Base58.encodeText, Base58.encodeCharacters,
    Base58.alphabet, ascii_ofList]
  decide +kernel

theorem oneHash_text :
    addressText oneHashHost oneHash =
      CString.ofString "NL1Frwvb3jo8sWyqN6NCfwg2o2Y2pQ9ttT" := by
  rw [addressText, Base58.encodeText, Base58.encodeCharacters,
    Base58.alphabet, ascii_ofList]
  decide +kernel

/-- The helper's address of the hash belongs to another hash. -/
theorem oneHash_reversed :
    scriptHashToAddress oneHashHost .ample oneHash 0 =
        .ok (CString.ofString "NKuyBkoGdZZSLyPbJEetheRhMjezqzTxcW") ∧
      toAddress oneHashHost .ample oneHash 64 =
        .ok (CString.ofString "NL1Frwvb3jo8sWyqN6NCfwg2o2Y2pQ9ttT") ∧
      scriptAddressToHash oneHashHost .ample
          (CString.ofString "NKuyBkoGdZZSLyPbJEetheRhMjezqzTxcW") =
        .ok oneHash.reverse ∧
      ¬Inverse oneHashHost .ample oneHash ∧
      ¬SameAsHashType oneHashHost .ample oneHash 64 := by
  have different : oneHash.reverse ≠ oneHash := by
    decide
  have memory : Allocator.ample.Serves 64 :=
    Allocator.ample_serves (by decide)
  refine ⟨?_, ?_, ?_, ?_, ?_⟩
  · rw [← oneHash_reverse_text]
    exact scriptHashToAddress_eq rfl memory
  · rw [← oneHash_text]
    exact toAddress_eq rfl memory (by decide)
  · rw [← oneHash_reverse_text]
    exact fromAddress_addressText rfl memory
  · rw [inverse_iff rfl memory]
    exact different
  · rw [sameAsHashType_iff rfl memory (by decide)]
    exact different

/-- A hash that reads the same backwards. -/
def palindromeHash : Hash160 :=
  Bytes.ofNat 20 0x0102030405060708090A0A090807060504030201

/-- A host that knows the digests of its address. -/
def palindromeHost : Host :=
  Host.ofTables
    (Host.twiceDigests palindromeHash.addressBytes
      0x5808B517B630EC1C863B35506F88DC4846FD4C0E37F6D25017841076C9CC618F
      0xD2EE2239DBE8591507C46972E5B14EA031AE1CE2D2CB02689CE72324C07473CE)
    []

/-- That hash has one address. -/
theorem scriptAddress_iff_palindrome_twenty :
    Inverse palindromeHost .ample palindromeHash ∧
      SameAsHashType palindromeHost .ample palindromeHash 64 :=
  (@scriptAddress_iff_palindrome palindromeHost .ample rfl
    (Allocator.ample_serves (by decide)) 64 (by decide)
    palindromeHash).mpr (by decide)

end ScriptHelper

end NeoC
