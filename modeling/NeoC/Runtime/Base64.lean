import NeoC.Runtime.Memory
import Mathlib.Data.List.Nodup

/-!
# Base64 text

Three bytes are written as four characters, and a shorter group at the end is
padded.  The decoder takes the length of its result from the last two
characters and reads a padding character anywhere as zero bits.  The shifts
and masks of the source are written as divisions and remainders.  No array has
more than `PTRDIFF_MAX` bytes, so the sizes computed by the encoder do not
wrap.
-/

namespace NeoC

open Foundation

namespace Base64

/-! ## Characters -/

/-- `BASE64_CHARS`. -/
def alphabet : List UInt8 :=
  ascii "ABCDEFGHIJKLMNOPQRSTUVWXYZabcdefghijklmnopqrstuvwxyz0123456789+/"

/-- The character `=`. -/
def padding : UInt8 := 0x3D

/-- The character for six bits. -/
def character (bits : Nat) : UInt8 :=
  alphabet.getD bits 0

/-- `BASE64_DECODE_TABLE`, with `none` for -1. -/
def decodeChar (character : UInt8) : Option Nat :=
  if character ∈ alphabet then some (alphabet.idxOf character) else none

/-- What the decoder reads at one character. -/
def charValue (character : UInt8) : Option Nat :=
  if character = padding then some 0 else decodeChar character

theorem nodup_alphabet : alphabet.Nodup := by
  -- comparing numbers is cheaper than comparing bytes
  have codes : (alphabet.map UInt8.toNat).Nodup := by
    rw [alphabet, ascii_ofList]
    decide +kernel
  exact List.Nodup.of_map _ codes

theorem ne_of_mem_alphabet :
    ∀ character ∈ alphabet, character ≠ padding ∧ character ≠ 0 := by
  have all :
      alphabet.all fun character =>
        decide (character ≠ padding ∧ character ≠ 0) := by
    rw [alphabet, ascii_ofList]
    decide +kernel
  intro character member
  exact of_decide_eq_true (List.all_eq_true.mp all character member)

theorem character_cases {bits : Nat} (small : bits < 64) :
    charValue (character bits) = some bits ∧ character bits ≠ padding ∧
      character bits ≠ 0 := by
  have inside : bits < alphabet.length := by
    rwa [alphabet, ascii_ofList]
  have found : character bits = alphabet[bits] := by
    rw [character, List.getD_eq_getElem?_getD,
      List.getElem?_eq_getElem inside, Option.getD_some]
  have member := List.getElem_mem inside
  rcases ne_of_mem_alphabet _ member with ⟨different, positive⟩
  rw [found]
  refine ⟨?_, different, positive⟩
  rw [charValue, if_neg different, decodeChar, if_pos member,
    nodup_alphabet.idxOf_getElem bits inside]

/-! ## Encoding -/

/-- The characters for 24 bits. -/
def encodeChunk (chunk : Nat) : List UInt8 :=
  [character (chunk / 0x40000 % 64), character (chunk / 0x1000 % 64),
    character (chunk / 0x40 % 64), character (chunk % 64)]

/-- The loop of `neoc_base64_encode`. -/
def encodeCharacters : List UInt8 → List UInt8
  | [] => []
  | [first] =>
      (encodeChunk (first.toNat * 0x10000)).take 2 ++ [padding, padding]
  | [first, second] =>
      (encodeChunk (first.toNat * 0x10000 + second.toNat * 0x100)).take 3 ++
        [padding]
  | first :: second :: third :: rest =>
      encodeChunk
          (first.toNat * 0x10000 + second.toNat * 0x100 + third.toNat) ++
        encodeCharacters rest

/-- The text that is written for some bytes. -/
def text (data : List UInt8) : CString :=
  CString.ofBuffer (encodeCharacters data)

/-- `neoc_base64_encode_buffer_size`. -/
def encodeBufferSize (dataLength : Nat) : Nat :=
  (dataLength + 2) / 3 * 4 + 1

/-- `neoc_base64_encode_alloc`; its buffer is always large enough. -/
def encodeAlloc (alloc : Allocator) (data : List UInt8) : Option CString :=
  if alloc.neocGrants (encodeBufferSize data.length) then
    some (text data)
  else
    none

/-! ## Decoding -/

/-- The number of padding characters among the last two. -/
def paddingCount (encoded : List UInt8) : Nat :=
  (if 1 ≤ encoded.length ∧ encoded.getD (encoded.length - 1) 0 = padding then
      1
    else
      0) +
    (if 2 ≤ encoded.length ∧
        encoded.getD (encoded.length - 2) 0 = padding then
      1
    else
      0)

/-- `neoc_base64_decode_buffer_size`. -/
def decodeBufferSize (encoded : CString) : Nat :=
  if encoded.strlen = 0 then
    0
  else
    (encoded.strlen / 4 * 3 + sizeModulus -
        paddingCount encoded.characters) % sizeModulus

/-- The bytes of 24 bits. -/
def chunkBytes (chunk : Nat) : List UInt8 :=
  [UInt8.ofNat (chunk / 0x10000), UInt8.ofNat (chunk / 0x100),
    UInt8.ofNat chunk]

/-- The loop of `neoc_base64_decode`, before the cut at the end. -/
def decodeChunks : List UInt8 → Outcome (List UInt8)
  | first :: second :: third :: fourth :: rest =>
      match charValue first, charValue second, charValue third,
          charValue fourth with
      | some first, some second, some third, some fourth => do
          let bytes ← decodeChunks rest
          .ok
            (chunkBytes
                (first * 0x40000 + second * 0x1000 + third * 0x40 +
                  fourth) ++
              bytes)
      | _, _, _, _ =>
          .error (.error .invalidFormat "Invalid base64 character")
  | _ => .ok []

/-- `neoc_base64_decode`. -/
def decode (encoded : CString) (bufferSize : Nat) :
    Outcome (List UInt8) :=
  if encoded.strlen % 4 ≠ 0 then
    .error (.error .invalidFormat "Invalid base64 string length")
  else
    let outputLen :=
      encoded.strlen / 4 * 3 - paddingCount encoded.characters
    if bufferSize < outputLen then
      .error (.error .bufferTooSmall "Buffer too small")
    else do
      let bytes ← decodeChunks encoded.characters
      .ok (bytes.take outputLen)

/-- `neoc_base64_decode_alloc`, which returns `NULL` for a failure. -/
def decodeAlloc (alloc : Allocator) (encoded : CString) :
    Option (List UInt8) :=
  let bufferSize := decodeBufferSize encoded
  if bufferSize = 0 then
    none
  else if alloc.neocGrants bufferSize = false then
    none
  else
    (decode encoded bufferSize).toOption

/-- What is decoded had a buffer of its size. -/
theorem length_decodeAlloc {alloc : Allocator} {encoded : CString}
    {bytes : List UInt8} (decoded : decodeAlloc alloc encoded = some bytes) :
    bytes.length ≤ ptrdiffMax := by
  unfold decodeAlloc at decoded
  dsimp only at decoded
  split at decoded
  · cases decoded
  split at decoded
  · cases decoded
  rename_i granted
  rw [Bool.not_eq_false, Allocator.neocGrants, Bool.and_eq_true] at granted
  have bounded := alloc.grants_le _ granted.2
  rw [decode] at decoded
  split at decoded
  · cases decoded
  dsimp only at decoded
  split at decoded
  · cases decoded
  rename_i fits
  cases found : decodeChunks encoded.characters with
  | error reason =>
      rw [found] at decoded
      cases decoded
  | ok chunks =>
      rw [found] at decoded
      injection decoded with same
      rw [← same, List.length_take]
      omega

/-- A text whose length is no multiple of four is refused. -/
theorem decodeAlloc_eq_none {alloc : Allocator} {encoded : CString}
    (odd : encoded.strlen % 4 ≠ 0) :
    decodeAlloc alloc encoded = none := by
  unfold decodeAlloc
  dsimp only
  split
  · rfl
  split
  · rfl
  · rw [decode, if_pos odd]
    rfl

/-! ## Decoding what was encoded -/

/-- What holds of the alphabet and of the padding holds of every text. -/
theorem forall_encodeCharacters {property : UInt8 → Prop}
    (entries : ∀ bits < 64, property (character bits))
    (mark : property padding) (data : List UInt8) :
    ∀ entry ∈ encodeCharacters data, property entry := by
  have entry (bits : Nat) : property (character (bits % 64)) :=
    entries _ (Nat.mod_lt _ (by decide))
  induction data using encodeCharacters.induct with
  | case1 =>
      intro entry member
      cases member
  | case2 first =>
      simp only [encodeCharacters, encodeChunk, List.take, List.cons_append,
        List.nil_append, List.forall_mem_cons]
      exact
        ⟨entry _, entry _, mark, mark, List.forall_mem_nil _⟩
  | case3 first second =>
      simp only [encodeCharacters, encodeChunk, List.take, List.cons_append,
        List.nil_append, List.forall_mem_cons]
      exact
        ⟨entry _, entry _, entry _, mark, List.forall_mem_nil _⟩
  | case4 first second third rest induction =>
      simp only [encodeCharacters, encodeChunk, List.cons_append,
        List.nil_append, List.forall_mem_cons]
      exact ⟨entry _, entry _, entry _, entry _, induction⟩

theorem characters_ne_zero (data : List UInt8) :
    ∀ entry ∈ encodeCharacters data, entry ≠ 0 :=
  forall_encodeCharacters
    (fun _ small => (character_cases small).2.2) (by decide) data

@[simp]
theorem characters_text (data : List UInt8) :
    (text data).characters = encodeCharacters data := by
  apply List.takeWhile_eq_self_iff.mpr
  intro entry member
  simpa using characters_ne_zero data entry member

theorem length_encodeChunk (chunk : Nat) : (encodeChunk chunk).length = 4 :=
  rfl

theorem length_encodeCharacters (data : List UInt8) :
    (encodeCharacters data).length = (data.length + 2) / 3 * 4 := by
  induction data using encodeCharacters.induct with
  | case1 => rfl
  | case2 first => simp [encodeCharacters, encodeChunk]
  | case3 first second => simp [encodeCharacters, encodeChunk]
  | case4 first second third rest induction =>
      rw [encodeCharacters, List.length_append, induction,
        List.length_cons, List.length_cons, List.length_cons]
      change 4 + _ = _
      omega

theorem paddingCount_four (first second third fourth : UInt8) :
    paddingCount [first, second, third, fourth] =
      (if fourth = padding then 1 else 0) +
        (if third = padding then 1 else 0) := by
  simp [paddingCount]

/-- The padding tells how many bytes the last group is short of three. -/
theorem paddingCount_encodeCharacters (data : List UInt8) :
    paddingCount (encodeCharacters data) =
      (data.length + 2) / 3 * 3 - data.length := by
  have none {bits : Nat} : character (bits % 64) ≠ padding :=
    (character_cases (Nat.mod_lt _ (by decide))).2.1
  induction data using encodeCharacters.induct with
  | case1 => rfl
  | case2 first =>
      refine (paddingCount_four _ _ _ _).trans ?_
      simp
  | case3 first second =>
      refine (paddingCount_four _ _ _ _).trans ?_
      rw [if_pos rfl, if_neg none]
      simp
  | case4 first second third rest induction =>
      cases rest with
      | nil =>
          refine (paddingCount_four _ _ _ _).trans ?_
          rw [if_neg none, if_neg none]
          simp
      | cons next others =>
          have long := length_encodeCharacters (next :: others)
          rw [List.length_cons] at long
          -- The last two characters are those of the groups behind.
          have behind {back : Nat} (few : back ≤ 2) (positive : 1 ≤ back) :
              (encodeCharacters
                  (first :: second :: third :: next :: others)).getD
                  ((encodeCharacters
                    (first :: second :: third :: next :: others)).length -
                    back) 0 =
                (encodeCharacters (next :: others)).getD
                  ((encodeCharacters (next :: others)).length - back) 0 := by
            rw [List.getD_eq_getElem?_getD, List.getD_eq_getElem?_getD,
              encodeCharacters, List.length_append, length_encodeChunk,
              List.getElem?_append_right (by rw [length_encodeChunk]; omega),
              length_encodeChunk,
              show 4 + (encodeCharacters (next :: others)).length - back -
                4 = (encodeCharacters (next :: others)).length - back by
                omega]
          have length :
              (encodeCharacters
                (first :: second :: third :: next :: others)).length =
                (encodeCharacters (next :: others)).length + 4 := by
            rw [encodeCharacters, List.length_append, length_encodeChunk,
              Nat.add_comm]
          have same :
              paddingCount
                  (encodeCharacters
                    (first :: second :: third :: next :: others)) =
                paddingCount (encodeCharacters (next :: others)) := by
            rw [paddingCount, paddingCount, behind (by decide) (by decide),
              behind (by decide) (by decide), length]
            congr 1
            · simp only [show (1 ≤
                    (encodeCharacters (next :: others)).length + 4) ↔
                  (1 ≤ (encodeCharacters (next :: others)).length) from
                by omega]
            · simp only [show (2 ≤
                    (encodeCharacters (next :: others)).length + 4) ↔
                  (2 ≤ (encodeCharacters (next :: others)).length) from
                by omega]
          rw [same, induction]
          simp only [List.length_cons]
          omega

theorem chunkBytes_eq (first second third : UInt8) :
    chunkBytes (first.toNat * 0x10000 + second.toNat * 0x100 +
        third.toNat) =
      [first, second, third] := by
  have one := first.toNat_lt
  have two := second.toNat_lt
  have three := third.toNat_lt
  simp only [chunkBytes, List.cons.injEq, and_true]
  refine ⟨?_, ?_, ?_⟩
  · apply UInt8.toNat_inj.mp
    rw [UInt8.toNat_ofNat']
    omega
  · apply UInt8.toNat_inj.mp
    rw [UInt8.toNat_ofNat']
    omega
  · apply UInt8.toNat_inj.mp
    rw [UInt8.toNat_ofNat']
    omega

/-- The loop finds the bytes, with zeros behind them. -/
theorem decodeChunks_encodeCharacters (data : List UInt8) :
    ∃ zeros,
      decodeChunks (encodeCharacters data) = .ok (data ++ zeros) := by
  have value {bits : Nat} :
      charValue (character (bits % 64)) = some (bits % 64) :=
    (character_cases (Nat.mod_lt _ (by decide))).1
  have mark : charValue padding = some 0 := rfl
  induction data using encodeCharacters.induct with
  | case1 => exact ⟨[], rfl⟩
  | case2 first =>
      have one := first.toNat_lt
      refine ⟨[0, 0], ?_⟩
      simp only [encodeCharacters, encodeChunk, List.take, List.cons_append,
        List.nil_append, decodeChunks, value, mark]
      refine Except.bind_eq_ok_iff.mpr ⟨[], rfl, ?_⟩
      have bits :
          first.toNat * 0x10000 / 0x40000 % 64 * 0x40000 +
              first.toNat * 0x10000 / 0x1000 % 64 * 0x1000 + 0 * 0x40 + 0 =
            first.toNat * 0x10000 + UInt8.toNat 0 * 0x100 +
              UInt8.toNat 0 := by
        rw [show UInt8.toNat 0 = 0 from rfl]
        omega
      rw [List.append_nil, bits, chunkBytes_eq]
  | case3 first second =>
      have one := first.toNat_lt
      have two := second.toNat_lt
      refine ⟨[0], ?_⟩
      simp only [encodeCharacters, encodeChunk, List.take, List.cons_append,
        List.nil_append, decodeChunks, value, mark]
      refine Except.bind_eq_ok_iff.mpr ⟨[], rfl, ?_⟩
      have bits :
          (first.toNat * 0x10000 + second.toNat * 0x100) / 0x40000 % 64 *
                0x40000 +
              (first.toNat * 0x10000 + second.toNat * 0x100) / 0x1000 % 64 *
                0x1000 +
              (first.toNat * 0x10000 + second.toNat * 0x100) / 0x40 % 64 *
                0x40 + 0 =
            first.toNat * 0x10000 + second.toNat * 0x100 +
              UInt8.toNat 0 := by
        rw [show UInt8.toNat 0 = 0 from rfl]
        omega
      rw [List.append_nil, bits, chunkBytes_eq]
  | case4 first second third rest induction =>
      have one := first.toNat_lt
      have two := second.toNat_lt
      have three := third.toNat_lt
      rcases induction with ⟨zeros, decoded⟩
      refine ⟨zeros, ?_⟩
      simp only [encodeCharacters, encodeChunk, List.cons_append,
        List.nil_append, decodeChunks, value]
      refine Except.bind_eq_ok_iff.mpr ⟨_, decoded, ?_⟩
      have bits (chunk : Nat) (small : chunk < 0x1000000) :
          chunk / 0x40000 % 64 * 0x40000 + chunk / 0x1000 % 64 * 0x1000 +
              chunk / 0x40 % 64 * 0x40 + chunk % 64 =
            chunk := by
        omega
      rw [bits _ (by omega), chunkBytes_eq]
      rfl

theorem strlen_text (data : List UInt8) :
    (text data).strlen = (data.length + 2) / 3 * 4 := by
  rw [CString.strlen, characters_text, length_encodeCharacters]

/-- Bytes that were encoded are decoded again. -/
theorem decode_text {data : List UInt8} {bufferSize : Nat}
    (room : data.length ≤ bufferSize) :
    decode (text data) bufferSize = .ok data := by
  have length := strlen_text data
  have output :
      (text data).strlen / 4 * 3 - paddingCount (text data).characters =
        data.length := by
    rw [characters_text, paddingCount_encodeCharacters, length]
    omega
  rcases decodeChunks_encodeCharacters data with ⟨zeros, decoded⟩
  rw [decode, if_neg (by omega)]
  dsimp only
  rw [output, if_neg (by omega), characters_text, decoded]
  change Except.ok ((data ++ zeros).take data.length) = _
  rw [List.take_left' rfl]

/-- With memory, they are decoded into an allocated buffer. -/
theorem decodeAlloc_text {alloc : Allocator} {data : List UInt8}
    (some : data ≠ []) (serves : alloc.Serves data.length) :
    decodeAlloc alloc (text data) = .some data := by
  have positive := List.length_pos_iff.mpr some
  have bounded := serves.bound_le
  simp only [ptrdiffMax] at bounded
  have length := strlen_text data
  have size : decodeBufferSize (text data) = data.length := by
    rw [decodeBufferSize, if_neg (by omega), characters_text,
      paddingCount_encodeCharacters, length]
    simp only [sizeModulus]
    omega
  have granted := serves.neocGrants positive le_rfl
  rw [decodeAlloc, size, if_neg (by omega), if_neg (by simp [granted]),
    decode_text le_rfl]
  rfl

end Base64

end NeoC
