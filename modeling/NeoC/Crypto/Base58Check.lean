import NeoC.Crypto.AddressInversion

/-!
# The two decoders of Base58Check

`neoc_base58_check_decode` takes the checksum off and delivers the payload,
however short it is.  `neoc_base58_check_decode_alloc` calls it and then asks
once more whether the four bytes of a checksum are there, now of the payload
that has already lost them.  So a payload of fewer than four bytes can be
encoded, and is decoded by the one function and refused by the other.
-/

namespace NeoC

open Foundation

namespace Base58

section EntryPoints

variable {host : Host} {alloc : Allocator}

/-! ## What each decoder accepts -/

/-- With memory, the first decoder accepts the texts of all payloads. -/
theorem checkDecode_iff
    (initialized : host.cryptoInitialized = true)
    {text : CString}
    (serves : alloc.Serves (text.strlen + 1))
    {bufferSize : Nat}
    {payload : List UInt8}
    (room : payload.length ≤ bufferSize) :
    checkDecode host alloc text bufferSize = .ok payload ↔
      text = encodeText (checked host payload) := by
  constructor
  · intro decoded
    exact (checkDecode_eq_ok decoded).1
  · rintro rfl
    exact checkDecode_encodeText initialized serves room

/-- Two payloads do not have one text. -/
theorem payload_unique
    (initialized : host.cryptoInitialized = true)
    {first second : List UInt8}
    (serves :
      alloc.Serves ((encodeText (checked host first)).strlen + 1))
    (same :
      encodeText (checked host first) = encodeText (checked host second)) :
    first = second := by
  have read :=
    @checkDecode_encodeText host alloc first
      (max first.length second.length) initialized serves
      (Nat.le_max_left _ _)
  rw [same] at serves read
  rw [checkDecode_encodeText initialized serves (Nat.le_max_right _ _)]
    at read
  injection read with equal
  exact equal.symm

/-- The second decoder accepts those of payloads that are not too short. -/
theorem checkDecodeAlloc_iff
    (initialized : host.cryptoInitialized = true)
    {text : CString}
    (serves : alloc.Serves (text.strlen + 1))
    {payload : List UInt8} :
    checkDecodeAlloc host alloc text = some payload ↔
      text = encodeText (checked host payload) ∧ 4 ≤ payload.length := by
  constructor
  · intro decoded
    rw [checkDecodeAlloc] at decoded
    split at decoded
    · cases decoded
    split at decoded
    · cases decoded
    split at decoded
    · cases decoded
    · rename_i buffer read
      split at decoded
      · cases decoded
      · rename_i long
        injection decoded with same
        rw [← same]
        exact ⟨(checkDecode_eq_ok read).1, Nat.le_of_not_lt long⟩
  · rintro ⟨rfl, long⟩
    rcases @decodeBufferSize_checked host payload with ⟨fits, bounded⟩
    have granted :=
      @Allocator.Serves.neocGrants alloc _
        (decodeBufferSize (encodeText (checked host payload))) serves
        (by omega) bounded
    rw [checkDecodeAlloc, if_neg (by omega), granted, if_neg (by decide),
      checkDecode_encodeText initialized serves (by omega)]
    exact if_neg (Nat.not_lt_of_le long)

/-- With memory, every payload is encoded. -/
theorem checkEncodeAlloc_eq
    (initialized : host.cryptoInitialized = true)
    {data : List UInt8}
    (serves : alloc.Serves ((data.length + 4) * 138 / 100 + 2)) :
    checkEncodeAlloc host alloc data =
      some (encodeText (checked host data)) := by
  have length := @length_checked host data
  have short := strlen_encodeText_le (checked host data)
  rw [length] at short
  have size :
      encodeBufferSize (data.length + 4) =
        (data.length + 4) * 138 / 100 + 2 :=
    if_neg (Nat.succ_ne_zero _)
  have granted := serves.neocGrants (Nat.succ_pos _) le_rfl
  have encoded :=
    @checkEncode_eq host alloc data ((data.length + 4) * 138 / 100 + 2)
      initialized (serves.mono (Nat.le_succ _)) (Nat.lt_succ_of_le short)
  rw [checkEncodeAlloc, size, granted, if_neg (by decide), encoded]

/-! ## Where the decoders agree -/

/-- What is encoded is decoded to what it was. -/
def RoundTrips (host : Host) (alloc : Allocator) (data : List UInt8) :
    Prop :=
  ∃ text,
    checkEncodeAlloc host alloc data = some text ∧
      checkDecodeAlloc host alloc text = some data

/-- Given a buffer of any sufficient size, both decoders accept or refuse. -/
def Agree (host : Host) (alloc : Allocator) (text : CString) : Prop :=
  ∀ bufferSize,
    decodeBufferSize text ≤ bufferSize →
      ((∃ payload, checkDecode host alloc text bufferSize = .ok payload) ↔
        ∃ payload, checkDecodeAlloc host alloc text = some payload)

theorem roundTrips_iff_long
    (initialized : host.cryptoInitialized = true)
    {data : List UInt8}
    (serves : alloc.Serves ((data.length + 4) * 138)) :
    RoundTrips host alloc data ↔ 4 ≤ data.length := by
  have length := @length_checked host data
  have short := strlen_encodeText_le (checked host data)
  rw [length] at short
  have encoded :=
    @checkEncodeAlloc_eq host alloc initialized data
      (serves.mono (by omega))
  have memory :
      alloc.Serves ((encodeText (checked host data)).strlen + 1) :=
    serves.mono (by omega)
  constructor
  · rintro ⟨text, written, read⟩
    rw [encoded] at written
    injection written with same
    rw [← same] at read
    exact ((checkDecodeAlloc_iff initialized memory).mp read).2
  · intro long
    exact
      ⟨_, encoded, (checkDecodeAlloc_iff initialized memory).mpr ⟨rfl, long⟩⟩

theorem agree_iff_long
    (initialized : host.cryptoInitialized = true)
    {text : CString}
    (serves : alloc.Serves (text.strlen + 1)) :
    Agree host alloc text ↔
      ∀ payload,
        text = encodeText (checked host payload) → 4 ≤ payload.length := by
  constructor
  · rintro agree payload rfl
    rcases @decodeBufferSize_checked host payload with ⟨fits, -⟩
    have accepted :=
      @checkDecode_encodeText host alloc payload _ initialized serves
        ((Nat.le_add_right _ 4).trans fits)
    rcases (agree _ le_rfl).mp ⟨payload, accepted⟩ with ⟨other, read⟩
    rcases (checkDecodeAlloc_iff initialized serves).mp read with
      ⟨same, long⟩
    rwa [payload_unique initialized serves same]
  · intro long bufferSize room
    constructor
    · rintro ⟨payload, accepted⟩
      have same := (checkDecode_eq_ok accepted).1
      exact
        ⟨payload,
          (checkDecodeAlloc_iff initialized serves).mpr
            ⟨same, long payload same⟩⟩
    · rintro ⟨payload, accepted⟩
      rcases (checkDecodeAlloc_iff initialized serves).mp accepted with
        ⟨rfl, -⟩
      rcases @decodeBufferSize_checked host payload with ⟨fits, -⟩
      exact
        ⟨payload,
          checkDecode_encodeText initialized serves (by omega)⟩

/--
Exactly the payloads of at least four bytes come back, and exactly the texts
of shorter ones are accepted by one decoder only.
-/
theorem entryPoints_iff
    (initialized : host.cryptoInitialized = true) :
    (∀ data : List UInt8,
      alloc.Serves ((data.length + 4) * 138) →
        (RoundTrips host alloc data ↔ 4 ≤ data.length)) ∧
      ∀ text : CString,
        alloc.Serves (text.strlen * 733 + 1) →
          (Agree host alloc text ↔
            ∀ payload,
              text = encodeText (checked host payload) →
                4 ≤ payload.length) := by
  constructor
  · intro data serves
    exact roundTrips_iff_long initialized serves
  · intro text serves
    exact agree_iff_long initialized (serves.mono (by omega))

end EntryPoints

/-! ## The empty payload -/

/-- SHA-256, once and twice, of no bytes at all. -/
def emptyDigests : List (List UInt8 × Bytes 32) :=
  Host.twiceDigests []
    0xE3B0C44298FC1C149AFBF4C8996FB92427AE41E4649B934CA495991B7852B855
    0x5DF6E0E2761359D30A8275058E299FCC0381534545F55CF43E41983F5D4C9456

/-- A host that knows the checksum of no bytes. -/
def emptyHost : Host :=
  Host.ofTables emptyDigests []

/-- The text of no bytes. -/
def emptyText : CString :=
  CString.ofString "3QJmnh"

theorem emptyText_eq : emptyText = encodeText (checked emptyHost []) := by
  rw [encodeText, encodeCharacters, alphabet, ascii_ofList]
  decide

/-- No bytes are encoded, and only one of the decoders takes them back. -/
theorem emptyText_refused :
    checkEncodeAlloc emptyHost .ample [] = some emptyText ∧
      checkDecode emptyHost .ample emptyText 16 = .ok [] ∧
        checkDecodeAlloc emptyHost .ample emptyText = none ∧
          ¬RoundTrips emptyHost .ample [] ∧
            ¬Agree emptyHost .ample emptyText := by
  have memory : Allocator.ample.Serves 64 :=
    Allocator.ample_serves (by decide)
  have short : emptyText.strlen ≤ 6 := by
    decide
  have serves : Allocator.ample.Serves (emptyText.strlen + 1) :=
    memory.mono (by omega)
  have encoded :
      checkEncodeAlloc emptyHost .ample [] = some emptyText := by
    rw [emptyText_eq]
    exact checkEncodeAlloc_eq rfl (memory.mono (by decide))
  have accepted : checkDecode emptyHost .ample emptyText 16 = .ok [] :=
    (checkDecode_iff rfl serves (by decide)).mpr emptyText_eq
  have refused : checkDecodeAlloc emptyHost .ample emptyText = none := by
    apply Option.eq_none_iff_forall_ne_some.mpr
    intro payload read
    rcases (checkDecodeAlloc_iff rfl serves).mp read with ⟨same, long⟩
    rw [emptyText_eq] at same serves
    rw [← payload_unique rfl serves same] at long
    exact absurd long (by decide)
  refine ⟨encoded, accepted, refused, ?_, ?_⟩
  · rintro ⟨text, written, read⟩
    rw [encoded] at written
    injection written with same
    rw [← same, refused] at read
    cases read
  · intro agree
    rcases (agree 16 (by decide)).mp ⟨[], accepted⟩ with
      ⟨payload, read⟩
    rw [refused] at read
    cases read

/-- Four bytes are enough. -/
theorem entryPoints_iff_four :
    RoundTrips emptyHost .ample [0, 0, 0, 0] :=
  ((@entryPoints_iff emptyHost .ample rfl).1 _
    (Allocator.ample_serves (by decide))).mpr (by decide)

end Base58

end NeoC
