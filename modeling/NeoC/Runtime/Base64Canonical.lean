import NeoC.Runtime.Base64Buffers

/-!
# The texts that Base64 accepts

The decoder looks at a padding character as at one that stands for zero bits,
wherever it is, and does not look at the bits that are cut off at the end.  So
it accepts every text of whole groups over the alphabet and the padding, and
what it returns is the beginning of the bytes whose text has an `A` in place
of each padding character.  The validator and the decoder for URLs know the
same characters.
-/

namespace NeoC

open Foundation

namespace Base64

/-! ## The validator -/

/-- `isalnum` in the locale of the language. -/
def isAlnum (c : UInt8) : Bool :=
  decide (0x30 ≤ c ∧ c ≤ 0x39) || decide (0x41 ≤ c ∧ c ≤ 0x5A) ||
    decide (0x61 ≤ c ∧ c ≤ 0x7A)

/-- `neoc_base64_is_valid_char`. -/
def isValidChar (c : UInt8) : Bool :=
  isAlnum c || c == 0x2B || c == 0x2F || c == 0x3D || c == 0x2D || c == 0x5F

/-- `neoc_base64_is_valid_string`. -/
def isValidString (str : CString) : Bool :=
  if str.strlen = 0 ∨ str.strlen % 4 ≠ 0 then false
  else str.characters.all isValidChar

/-! ## Characters -/

/-- A character that the decoder reads. -/
def Known (c : UInt8) : Prop :=
  c ∈ alphabet ∨ c = padding

instance (c : UInt8) : Decidable (Known c) :=
  inferInstanceAs (Decidable (_ ∨ _))

/-- The character with the same bits that is no padding. -/
def asLetter (c : UInt8) : UInt8 :=
  if c = padding then 0x41 else c

/-- What is checked for every character holds of all. -/
theorem forall_character (property : UInt8 → Prop) [DecidablePred property]
    (all : ∀ code : Fin 256, property (UInt8.ofNat code)) (c : UInt8) :
    property c := by
  have checked := all ⟨c.toNat, c.toNat_lt⟩
  rwa [UInt8.ofNat_toNat] at checked

theorem isValidChar_eq_true_iff (c : UInt8) :
    isValidChar c = true ↔ Known (ofUrl c) := by
  refine forall_character (fun c =>
    isValidChar c = true ↔ Known (ofUrl c)) ?_ c
  unfold Known
  rw [alphabet, ascii_ofList]
  decide +kernel

theorem known_ofUrl_of_known {c : UInt8} (known : Known c) :
    Known (ofUrl c) := by
  refine forall_character (fun c =>
    Known c → Known (ofUrl c)) ?_ c known
  unfold Known
  rw [alphabet, ascii_ofList]
  decide +kernel

theorem charValue_of_mem {c : UInt8} (member : c ∈ alphabet) :
    ∃ bits < 64, charValue c = some bits ∧ character bits = c := by
  rcases List.mem_iff_getElem.mp member with ⟨bits, inside, found⟩
  have small : bits < 64 := by
    rwa [alphabet, ascii_ofList] at inside
  have same : character bits = c := by
    rw [character, List.getD_eq_getElem?_getD,
      List.getElem?_eq_getElem inside, Option.getD_some, found]
  have read := (character_cases small).1
  rw [same] at read
  exact ⟨bits, small, read, same⟩

theorem asLetter_mem {c : UInt8} (known : Known c) : asLetter c ∈ alphabet := by
  rw [asLetter]
  split
  · rw [alphabet, ascii_ofList]
    decide +kernel
  · exact known.resolve_right ‹_›

/-- A padding character has the bits of an `A`. -/
theorem charValue_asLetter (c : UInt8) :
    charValue (asLetter c) = charValue c := by
  rw [asLetter]
  split
  · rename_i same
    rw [same, charValue, charValue, if_pos rfl, if_neg (by decide),
      decodeChar, alphabet, ascii_ofList]
    decide +kernel
  · rfl

theorem charValue_isSome_iff (c : UInt8) :
    (∃ bits, charValue c = some bits) ↔ Known c := by
  constructor
  · rintro ⟨bits, read⟩
    rw [charValue] at read
    split at read
    · exact .inr ‹_›
    · rw [decodeChar] at read
      split at read
      · exact .inl ‹_›
      · cases read
  · rintro (member | rfl)
    · rcases charValue_of_mem member with ⟨bits, -, read, -⟩
      exact ⟨bits, read⟩
    · exact ⟨0, rfl⟩

/-! ## Whole groups -/

/-- A text of whole groups is decoded if every character is known. -/
theorem decodeChunks_accepts_iff {encoded : List UInt8}
    (groups : encoded.length % 4 = 0) :
    (∃ bytes, decodeChunks encoded = .ok bytes) ↔
      ∀ c ∈ encoded, Known c := by
  induction encoded using decodeChunks.induct with
  | case1 first second third fourth rest a b c d fourthRead thirdRead
      secondRead firstRead induction =>
      have shorter : rest.length % 4 = 0 := by
        simp only [List.length_cons] at groups
        omega
      have firstKnown := (charValue_isSome_iff first).mp ⟨a, firstRead⟩
      have secondKnown := (charValue_isSome_iff second).mp ⟨b, secondRead⟩
      have thirdKnown := (charValue_isSome_iff third).mp ⟨c, thirdRead⟩
      have fourthKnown := (charValue_isSome_iff fourth).mp ⟨d, fourthRead⟩
      rw [decodeChunks, firstRead, secondRead, thirdRead, fourthRead]
      simp only [List.forall_mem_cons, firstKnown, secondKnown, thirdKnown,
        fourthKnown, true_and, ← induction shorter]
      constructor
      · rintro ⟨bytes, decoded⟩
        rcases Except.bind_eq_ok_iff.mp decoded with ⟨later, found, -⟩
        exact ⟨later, found⟩
      · rintro ⟨later, found⟩
        exact ⟨_, Except.bind_of_ok found _⟩
  | case2 first second third fourth rest unread =>
      constructor
      · rintro ⟨bytes, decoded⟩
        rw [decodeChunks_unread unread] at decoded
        cases decoded
      · intro known
        simp only [List.forall_mem_cons, ← charValue_isSome_iff] at known
        rcases known with
          ⟨⟨a, firstRead⟩, ⟨b, secondRead⟩, ⟨c, thirdRead⟩,
            ⟨d, fourthRead⟩, -⟩
        exact absurd fourthRead
          (unread a b c d firstRead secondRead thirdRead)
  | case3 short none =>
      rcases short with _ | ⟨a, _ | ⟨b, _ | ⟨c, _ | ⟨d, rest⟩⟩⟩⟩
      · exact ⟨fun _ => List.forall_mem_nil _, fun _ => ⟨[], rfl⟩⟩
      · simp at groups
      · simp at groups
      · simp at groups
      · exact absurd rfl (none a b c d rest)

/-- The decoder does not tell padding from a character for zero bits. -/
theorem decodeChunks_map_asLetter (encoded : List UInt8) :
    decodeChunks (encoded.map asLetter) = decodeChunks encoded := by
  induction encoded using decodeChunks.induct with
  | case1 first second third fourth rest a b c d fourthRead thirdRead
      secondRead firstRead induction =>
      simp only [List.map_cons, decodeChunks, charValue_asLetter, induction]
  | case2 first second third fourth rest unread =>
      simp only [List.map_cons, decodeChunks, charValue_asLetter]
  | case3 short none =>
      rcases short with _ | ⟨a, _ | ⟨b, _ | ⟨c, _ | ⟨d, rest⟩⟩⟩⟩
      · rfl
      · rfl
      · rfl
      · rfl
      · exact absurd rfl (none a b c d rest)

/-- The bytes of a group have the characters of the group as text. -/
theorem encodeCharacters_chunkBytes {a b c d : Nat} (aSmall : a < 64)
    (bSmall : b < 64) (cSmall : c < 64) (dSmall : d < 64)
    (rest : List UInt8) :
    encodeCharacters
        (chunkBytes (a * 0x40000 + b * 0x1000 + c * 0x40 + d) ++ rest) =
      [character a, character b, character c, character d] ++
        encodeCharacters rest := by
  have back (chunk : Nat) (small : chunk < 0x1000000) :
      (UInt8.ofNat (chunk / 0x10000)).toNat * 0x10000 +
          (UInt8.ofNat (chunk / 0x100)).toNat * 0x100 +
          (UInt8.ofNat chunk).toNat =
        chunk := by
    simp only [UInt8.toNat_ofNat']
    omega
  rw [chunkBytes, List.cons_append, List.cons_append, List.cons_append,
    List.nil_append, encodeCharacters, back _ (by omega), encodeChunk]
  congr 1
  have first :
      (a * 0x40000 + b * 0x1000 + c * 0x40 + d) / 0x40000 % 64 = a := by
    omega
  have second :
      (a * 0x40000 + b * 0x1000 + c * 0x40 + d) / 0x1000 % 64 = b := by
    omega
  have third :
      (a * 0x40000 + b * 0x1000 + c * 0x40 + d) / 0x40 % 64 = c := by
    omega
  have fourth :
      (a * 0x40000 + b * 0x1000 + c * 0x40 + d) % 64 = d := by
    omega
  rw [first, second, third, fourth]

/-- Without padding, decoding whole groups is encoding backwards. -/
theorem encodeCharacters_of_decodeChunks {encoded bytes : List UInt8}
    (groups : encoded.length % 4 = 0)
    (letters : ∀ c ∈ encoded, c ∈ alphabet)
    (decoded : decodeChunks encoded = .ok bytes) :
    encodeCharacters bytes = encoded := by
  induction encoded using decodeChunks.induct generalizing bytes with
  | case1 first second third fourth rest a b c d fourthRead thirdRead
      secondRead firstRead induction =>
      simp only [List.forall_mem_cons] at letters
      rcases letters with
        ⟨firstMember, secondMember, thirdMember, fourthMember, others⟩
      have shorter : rest.length % 4 = 0 := by
        simp only [List.length_cons] at groups
        omega
      rw [decodeChunks, firstRead, secondRead, thirdRead, fourthRead]
        at decoded
      rcases Except.bind_eq_ok_iff.mp decoded with ⟨later, found, same⟩
      injection same with same
      rcases charValue_of_mem firstMember with ⟨a', aSmall, aRead, aSame⟩
      rcases charValue_of_mem secondMember with ⟨b', bSmall, bRead, bSame⟩
      rcases charValue_of_mem thirdMember with ⟨c', cSmall, cRead, cSame⟩
      rcases charValue_of_mem fourthMember with ⟨d', dSmall, dRead, dSame⟩
      rw [firstRead] at aRead
      rw [secondRead] at bRead
      rw [thirdRead] at cRead
      rw [fourthRead] at dRead
      injection aRead with aEqual
      injection bRead with bEqual
      injection cRead with cEqual
      injection dRead with dEqual
      subst aEqual bEqual cEqual dEqual
      rw [← same, encodeCharacters_chunkBytes aSmall bSmall cSmall dSmall,
        aSame, bSame, cSame, dSame, induction shorter others found]
      rfl
  | case2 first second third fourth rest unread =>
      rw [decodeChunks_unread unread] at decoded
      cases decoded
  | case3 short none =>
      rcases short with _ | ⟨a, _ | ⟨b, _ | ⟨c, _ | ⟨d, rest⟩⟩⟩⟩
      · injection decoded with same
        rw [← same]
        rfl
      · simp at groups
      · simp at groups
      · simp at groups
      · exact absurd rfl (none a b c d rest)

/-! ## Texts for URLs -/

theorem ofUrl_cases (c : UInt8) :
    (ofUrl c = padding ↔ c = padding) ∧ (c ≠ 0 → ofUrl c ≠ 0) := by
  refine forall_character (fun c =>
    (ofUrl c = padding ↔ c = padding) ∧ (c ≠ 0 → ofUrl c ≠ 0)) ?_ c
  decide +kernel

theorem paddingCount_map_ofUrl (encoded : List UInt8) :
    paddingCount (encoded.map ofUrl) = paddingCount encoded := by
  have at_ (position : Nat) :
      (encoded.map ofUrl).getD position 0 = padding ↔
        encoded.getD position 0 = padding := by
    rw [List.getD_eq_getElem?_getD, List.getD_eq_getElem?_getD,
      List.getElem?_map]
    cases encoded[position]? with
    | none => rfl
    | some c => exact (ofUrl_cases c).1
  rw [paddingCount, paddingCount, List.length_map]
  simp only [at_]

theorem characters_map_ofUrl (encoded : CString) :
    (CString.ofBuffer (encoded.characters.map ofUrl)).characters =
      encoded.characters.map ofUrl := by
  apply CString.characters_ofBuffer
  intro member
  rcases List.mem_map.mp member with ⟨c, inside, zero⟩
  refine (ofUrl_cases c).2 ?_ zero
  rintro rfl
  exact encoded.nul_free inside

namespace InPlace

/-! ## The accepted texts -/

variable {encoded : CString} {buffer : Cells UInt8}

/-- What a buffer holds after a successful call. -/
def holding (buffer : Cells UInt8) (bytes : List UInt8) :
    Cells UInt8 × Nat :=
  (Cells.written bytes ++ buffer.drop bytes.length, bytes.length)

/-- The length that `neoc_base64_decode` computes. -/
def outputLength (encoded : CString) : Nat :=
  encoded.strlen / 4 * 3 - paddingCount encoded.characters

theorem decode_eq_of_groups (groups : encoded.strlen % 4 = 0)
    (room : outputLength encoded ≤ buffer.length) :
    decode encoded buffer =
      (decodeChunks encoded.characters).map fun bytes =>
        holding buffer (bytes.take (outputLength encoded)) := by
  rw [decode_eq, Base64.decode, if_neg (by omega)]
  dsimp only
  rw [outputLength] at room
  rw [if_neg (by omega)]
  cases decodeChunks encoded.characters with
  | error reason => rfl
  | ok bytes => rfl

theorem decode_accepts_iff (room : outputLength encoded ≤ buffer.length) :
    (∃ result, decode encoded buffer = .ok result) ↔
      encoded.strlen % 4 = 0 ∧ ∀ c ∈ encoded.characters, Known c := by
  constructor
  · rintro ⟨result, decoded⟩
    have groups : encoded.strlen % 4 = 0 := by
      by_contra odd
      rw [decode, if_pos odd] at decoded
      cases decoded
    refine ⟨groups, (decodeChunks_accepts_iff groups).mp ?_⟩
    rw [decode_eq_of_groups groups room] at decoded
    cases found : decodeChunks encoded.characters with
    | error reason =>
        rw [found] at decoded
        cases decoded
    | ok bytes => exact ⟨bytes, rfl⟩
  · rintro ⟨groups, known⟩
    rcases (decodeChunks_accepts_iff groups).mpr known with ⟨bytes, found⟩
    rw [decode_eq_of_groups groups room, found]
    exact ⟨_, rfl⟩

/-- The bytes are the beginning of those whose text has no padding. -/
theorem decode_result (room : outputLength encoded ≤ buffer.length)
    {result : Cells UInt8 × Nat}
    (decoded : decode encoded buffer = .ok result) :
    ∃ whole,
      encodeCharacters whole = encoded.characters.map asLetter ∧
        result =
          holding buffer (whole.take (outputLength encoded)) := by
  rcases (decode_accepts_iff room).mp ⟨result, decoded⟩ with
    ⟨groups, known⟩
  rw [decode_eq_of_groups groups room] at decoded
  cases found : decodeChunks encoded.characters with
  | error reason =>
      rw [found] at decoded
      cases decoded
  | ok whole =>
      rw [found] at decoded
      injection decoded with same
      refine ⟨whole, ?_, same.symm⟩
      apply encodeCharacters_of_decodeChunks
      · rwa [List.length_map]
      · intro c inside
        rcases List.mem_map.mp inside with ⟨before, member, rfl⟩
        exact asLetter_mem (known before member)
      · rw [decodeChunks_map_asLetter, found]

/-- The variant for URLs accepts what is known after the translation. -/
theorem urlDecode_accepts_iff {alloc : Allocator}
    (room : outputLength encoded ≤ buffer.length)
    (granted : alloc.neocGrants (sizeAdd encoded.strlen 1) = true) :
    (∃ result, urlDecode alloc encoded buffer = .ok result) ↔
      encoded.strlen % 4 = 0 ∧
        ∀ c ∈ encoded.characters, Known (ofUrl c) := by
  have length :
      (CString.ofBuffer (encoded.characters.map ofUrl)).strlen =
        encoded.strlen := by
    rw [CString.strlen, characters_map_ofUrl, List.length_map,
      CString.strlen]
  have fits :
      outputLength (CString.ofBuffer (encoded.characters.map ofUrl)) ≤
        buffer.length := by
    rwa [outputLength, length, characters_map_ofUrl,
      paddingCount_map_ofUrl, ← outputLength]
  rw [urlDecode, granted, if_neg (by decide), decode_accepts_iff fits,
    length, characters_map_ofUrl]
  simp only [List.forall_mem_map]

/-- The validator is the decoder for URLs, for all but the empty text. -/
theorem isValidString_eq_true_iff (nonempty : encoded.strlen ≠ 0) :
    isValidString encoded = true ↔
      encoded.strlen % 4 = 0 ∧
        ∀ c ∈ encoded.characters, Known (ofUrl c) := by
  rw [isValidString]
  split
  · rename_i refused
    constructor
    · intro absurdity
      cases absurdity
    · rintro ⟨groups, -⟩
      rcases refused with empty | odd
      · exact absurd empty nonempty
      · exact absurd groups odd
  · rename_i taken
    simp only [not_or, not_not] at taken
    simp only [List.all_eq_true, isValidChar_eq_true_iff, taken.2, true_and]

/--
What Base64 accepts: whole groups of characters of the alphabet and of the
padding.  The bytes are those whose text has an `A` for each padding, as many
as the padding among the last two characters leaves, so the texts of the
encoder come back.  The validator accepts what one of the two decoders does.
-/
theorem accepts_whole_groups (alloc : Allocator) (encoded : CString)
    (buffer : Cells UInt8) (nonempty : encoded.strlen ≠ 0)
    (room : outputLength encoded ≤ buffer.length)
    (granted : alloc.neocGrants (sizeAdd encoded.strlen 1) = true) :
    ((∃ result, decode encoded buffer = .ok result) ↔
        encoded.strlen % 4 = 0 ∧ ∀ c ∈ encoded.characters, Known c) ∧
      (∀ result,
        decode encoded buffer = .ok result →
          ∃ whole,
            encodeCharacters whole = encoded.characters.map asLetter ∧
              result =
                holding buffer (whole.take (outputLength encoded))) ∧
      (∀ data,
        encode data (encodeBufferSize data.length) = .ok encoded →
          decode encoded buffer = .ok (holding buffer data)) ∧
      (isValidString encoded = true ↔
        (∃ result, decode encoded buffer = .ok result) ∨
          ∃ result, urlDecode alloc encoded buffer = .ok result) := by
  refine
    ⟨decode_accepts_iff room, fun result => decode_result room, ?_, ?_⟩
  · intro data encoding
    rw [encode_eq le_rfl] at encoding
    injection encoding with same
    rw [← same] at room ⊢
    refine decode_text_buffer ?_
    rwa [outputLength, strlen_text, characters_text,
      paddingCount_encodeCharacters,
      show (data.length + 2) / 3 * 4 / 4 * 3 -
          ((data.length + 2) / 3 * 3 - data.length) = data.length by omega]
      at room
  · rw [isValidString_eq_true_iff nonempty, decode_accepts_iff room,
      urlDecode_accepts_iff room granted]
    constructor
    · exact .inr
    · rintro (⟨groups, known⟩ | accepted)
      · exact ⟨groups, fun c inside => known_ofUrl_of_known (known c inside)⟩
      · exact accepted

theorem accepts_whole_groups_padded :
    ∃ result,
      decode (CString.ofString "=A==") (Cells.fresh 1) = .ok result := by
  have known :
      ∀ c ∈ (CString.ofString "=A==").characters, Known c := by
    unfold Known
    rw [alphabet, ascii_ofList]
    decide +kernel
  have facts :=
    accepts_whole_groups .ample (CString.ofString "=A==") (Cells.fresh 1)
      (by decide +kernel) (by decide +kernel) (by decide +kernel)
  exact facts.1.mpr ⟨by decide +kernel, known⟩

/-- A text that decodes, and that is the text of no bytes. -/
theorem accepts_not_canonical :
    decode (CString.ofString "ABC=") (Cells.fresh 3) =
        .ok ([some 0, some 0x10, none], 2) ∧
      ∀ data bufferSize,
        encode data bufferSize ≠ .ok (CString.ofString "ABC=") := by
  refine ⟨by decide +kernel, ?_⟩
  intro data bufferSize encoding
  rw [encode] at encoding
  split at encoding
  · cases encoding
  injection encoding with same
  have short : data.length ≤ 3 := by
    have length := strlen_text data
    rw [same, show (CString.ofString "ABC=").strlen = 4 by decide +kernel]
      at length
    omega
  have back := decode_text short
  rw [same] at back
  have decoded :
      Base64.decode (CString.ofString "ABC=") 3 = .ok [0, 0x10] := by
    decide +kernel
  rw [decoded] at back
  injection back with equal
  rw [← equal] at same
  exact absurd same (by decide +kernel)

end InPlace

end Base64

end NeoC
