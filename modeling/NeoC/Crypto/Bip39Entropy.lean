import NeoC.Crypto.Bip39

/-!
# Entropy read back from a mnemonic

The text is cut at its spaces, whatever their number, and the words are looked
up.  It is accepted exactly if its words stand for numbers that spell an
entropy and the checksum of that entropy, and the entropy is the result.
-/

namespace NeoC.Bip39

open Foundation
open Foundation.BitString

/-! ## Tokens -/

theorem pieces_dropWhile (rest : List UInt8) :
    pieces 0x20 (rest.dropWhile (· = 0x20)) = pieces 0x20 rest := by
  induction rest with
  | nil => rfl
  | cons character rest induction =>
      rw [List.dropWhile_cons]
      by_cases space : character = 0x20
      · rw [if_pos (decide_eq_true space), induction, space, pieces_cons_self]
      · rw [if_neg (by rw [decide_eq_true_iff]; exact space)]

/-- A token is the first piece, and what is left holds the others. -/
theorem pieces_eq_strtok (rest : List UInt8) :
    pieces 0x20 rest =
      match strtok rest with
      | none => []
      | some (token, behind) => token :: pieces 0x20 behind := by
  rw [← pieces_dropWhile, strtok]
  rcases shape : rest.dropWhile (· = 0x20) with _ | ⟨first, behind⟩
  · rw [shape]
    rfl
  · rw [shape]
    have proper : first ≠ 0x20 := by
      have fails := List.head?_dropWhile_not (· = (0x20 : UInt8)) rest
      rw [shape, List.head?_cons] at fails
      simpa using fails
    have absent :
        (0x20 : UInt8) ∉ (first :: behind).takeWhile (· ≠ 0x20) := by
      intro member
      simpa using List.mem_takeWhile_imp member
    have nonempty : (first :: behind).takeWhile (· ≠ 0x20) ≠ [] := by
      rw [List.takeWhile_cons, if_pos (decide_eq_true proper)]
      exact List.cons_ne_nil _ _
    have parts :=
      @List.takeWhile_append_dropWhile _ (· ≠ (0x20 : UInt8))
        (first :: behind)
    dsimp only
    rcases stop : (first :: behind).dropWhile (· ≠ 0x20) with
      _ | ⟨space, tail⟩
    · rw [stop, List.append_nil] at parts
      rw [stop, List.drop_nil, pieces_nil,
        ← pieces_of_not_mem absent nonempty, parts]
    · have separates : space = 0x20 := by
        have fails :=
          List.head?_dropWhile_not (· ≠ (0x20 : UInt8)) (first :: behind)
        rw [stop, List.head?_cons] at fails
        simpa using fails
      rw [stop, separates] at parts
      rw [stop, List.drop_succ_cons, List.drop_zero,
        ← pieces_append_cons absent nonempty, parts]

/-- The loop collects the pieces it has room for. -/
theorem collect_eq (room : Nat) (rest : List UInt8) :
    collect room rest =
      ((pieces 0x20 rest).take room,
        decide (room < (pieces 0x20 rest).length)) := by
  induction room generalizing rest with
  | zero =>
      rw [collect, pieces_eq_strtok rest]
      cases strtok rest <;> rfl
  | succ room induction =>
      rw [collect, pieces_eq_strtok rest]
      rcases strtok rest with _ | ⟨token, behind⟩
      · rfl
      · dsimp only
        rw [induction, List.take_succ_cons, List.length_cons]
        simp only [Nat.add_lt_add_iff_right]

/-! ## The numbers of the words -/

variable {host : Host} {alloc : Allocator} {language : Language}
variable {mnemonic : CString} {entropy : List UInt8} {indexes : List Nat}

theorem writeIndex_eq (index turns bitPosition : Nat)
    (bitstream : List UInt8) :
    writeIndex index turns bitPosition bitstream =
      inside (writeBits (digits turns index) bitPosition bitstream) := by
  induction turns generalizing bitPosition bitstream with
  | zero => rfl
  | succ turns induction =>
      rw [writeIndex, digits, writeBits]
      generalize
        (if index.testBit turns then setBit bitstream bitPosition
          else some bitstream) = result
      cases result with
      | none => rfl
      | some after => exact induction (bitPosition + 1) after

/-- The words of some numbers write those numbers. -/
theorem writeIndexes_eq (supported : getWordlist language ≠ none)
    (small : ∀ index ∈ indexes, index < 2048) (bitPosition : Nat)
    (bitstream : List UInt8) :
    writeIndexes language (indexes.map wordOf) bitPosition bitstream =
      inside
        (writeBits (indexes.flatMap (digits 11)) bitPosition bitstream) := by
  induction indexes generalizing bitPosition bitstream with
  | nil => rfl
  | cons index rest induction =>
      rcases List.forall_mem_cons.mp small with ⟨first, others⟩
      have found := findWord_eq_ok_iff.mpr ⟨supported, first, rfl⟩
      rw [List.map_cons, writeIndexes, List.flatMap_cons, writeBits_append,
        length_digits]
      refine (Except.bind_of_ok found _).trans ?_
      dsimp only
      rw [writeIndex_eq]
      cases writeBits (digits 11 index) bitPosition bitstream with
      | none => rfl
      | some after => exact induction others (bitPosition + 11) after

/-- Words that can be written are those of some numbers. -/
theorem exists_indexes {words : List (List UInt8)} {bitPosition : Nat}
    {bitstream after : List UInt8}
    (wrote :
      writeIndexes language words bitPosition bitstream = .ok after) :
    ∃ indexes : List Nat,
      words = indexes.map wordOf ∧ (∀ index ∈ indexes, index < 2048) ∧
        (words ≠ [] → getWordlist language ≠ none) := by
  induction words generalizing bitPosition bitstream with
  | nil =>
      exact
        ⟨[], rfl, fun _ member => (List.not_mem_nil member).elim,
          fun some => absurd rfl some⟩
  | cons word rest induction =>
      rw [writeIndexes] at wrote
      rcases Except.bind_eq_ok_iff.mp wrote with ⟨answer, found, later⟩
      cases answer with
      | none => cases later
      | some index =>
          rcases findWord_eq_ok_iff.mp found with ⟨supported, first, rfl⟩
          rcases Except.bind_eq_ok_iff.mp later with ⟨middle, -, last⟩
          rcases induction last with ⟨indexes, rfl, others, -⟩
          exact
            ⟨index :: indexes, rfl, List.forall_mem_cons.mpr ⟨first, others⟩,
              fun _ => supported⟩

/-! ## The entropy in front of the checksum -/

/-- The first byte of the hash has all the bits of a checksum. -/
theorem number_checksum (host : Host) (proper : ValidLength entropy) :
    ∃ first,
      (host.sha256Digest entropy).val[0]? = some first ∧
        number 0 (checksum host entropy) =
          first.toNat >>> (8 - checksumBits entropy.length) := by
  have few : checksumBits entropy.length ≤ 8 := by
    have bounded := proper.2.1
    rw [checksumBits]
    omega
  have hash := (host.sha256Digest entropy).property
  rw [checksum]
  rcases shape : (host.sha256Digest entropy).val with _ | ⟨first, rest⟩
  · rw [shape, List.length_nil] at hash
    omega
  · refine ⟨first, rfl, ?_⟩
    have length : (byteBits first).length = 8 := length_digits 8 _
    rw [bits, List.flatMap_cons, List.take_append_of_le_length (by omega),
      number_take_byteBits]

/-- The allocations on the way from a mnemonic to an entropy succeed. -/
def Room (alloc : Allocator) (mnemonic : CString) (entropy : List UInt8) :
    Prop :=
  alloc.neocGrants (sizeAdd mnemonic.strlen 1) = true ∧
    alloc.neocGrants
        (totalBytes (entropy.length * 8 + checksumBits entropy.length)) =
      true ∧
    alloc.neocGrants entropy.length = true

/-- The words of numbers are compared with the checksum of what they hold. -/
theorem exists_entropy {count : Nat} (few : 4 ≤ count) (many : count ≤ 8)
    (small : ∀ index ∈ indexes, index < 2048)
    (length : indexes.length = 3 * count)
    (cut : pieces 0x20 mnemonic.characters = indexes.map wordOf)
    (supported : getWordlist language ≠ none)
    (initialized : host.cryptoInitialized = true)
    (granted :
      alloc.neocGrants (sizeAdd mnemonic.strlen 1) = true ∧
        alloc.neocGrants (totalBytes (33 * count)) = true ∧
        alloc.neocGrants (4 * count) = true) :
    ∃ entropy,
      entropy.length = 4 * count ∧
        bits entropy = (indexes.flatMap (digits 11)).take (32 * count) ∧
        mnemonicToEntropy host alloc (some mnemonic) language =
          if (indexes.flatMap (digits 11)).drop (32 * count) =
              checksum host entropy then
            .ok entropy
          else
            .error
              (.error .invalidArgument "Invalid mnemonic checksum") := by
  have wrote := writeIndexes_eq supported small 0
    (List.replicate (totalBytes (33 * count)) 0)
  have size := length_flatMap_digits 11 indexes
  generalize indexes.flatMap (digits 11) = string at wrote size ⊢
  have zeros :
      bits (List.replicate (totalBytes (33 * count)) 0) =
        [] ++
          (List.replicate string.length false ++
            List.replicate
              (8 * totalBytes (33 * count) - string.length) false) := by
    rw [bits_zeros, List.nil_append, List.replicate_append_replicate]
    congr 1
    rw [totalBytes]
    omega
  rcases exists_writeBits string zeros with ⟨after, written, same, value⟩
  rw [List.length_nil] at written
  rw [List.nil_append] at value
  rw [written, ← cut] at wrote
  rw [List.length_replicate, totalBytes] at same
  have front : (after.take (4 * count)).length = 4 * count := by
    rw [List.length_take]
    omega
  have proper : ValidLength (after.take (4 * count)) := by
    rw [ValidLength, front]
    omega
  have held : bits (after.take (4 * count)) = string.take (32 * count) := by
    have eight : 8 * (4 * count) = 32 * count := by
      omega
    rw [bits_take, eight, value, List.take_append_of_le_length (by omega)]
  have behind : (string.drop (32 * count)).length = count := by
    rw [List.length_drop]
    omega
  have read :
      readNumber after count (32 * count) 0 =
        some (number 0 (string.drop (32 * count))) := by
    have found :=
      @readNumber_eq after (string.take (32 * count)) _
        (string.drop (32 * count)) 0
        (by rw [value, ← List.append_assoc, List.take_append_drop])
    rwa [behind, List.length_take, Nat.min_eq_left (by omega)] at found
  rcases number_checksum host proper with ⟨first, head, expected⟩
  have four : checksumBits (after.take (4 * count)).length = count := by
    rw [front, checksumBits]
    omega
  have hashed :
      host.sha256 (after.take (4 * count)) =
        .ok (host.sha256Digest (after.take (4 * count))) := by
    rw [Host.sha256, if_pos initialized]
  have words : (pieces 0x20 mnemonic.characters).length = 3 * count := by
    rw [cut, List.length_map, length]
  have bound : (3 * count * 11) / 33 = count := by
    omega
  have entropyBits : 3 * count * 11 - count = 32 * count := by
    omega
  have total : 3 * count * 11 = 33 * count := by
    omega
  refine ⟨after.take (4 * count), front, held, ?_⟩
  rw [mnemonicToEntropy, granted.1, if_neg (by decide), collect_eq,
    List.take_of_length_le (by omega)]
  dsimp only
  rw [words, if_neg (by rw [decide_eq_true_iff]; omega), bound, entropyBits,
    total, if_neg (by omega), granted.2.1, if_neg (by decide)]
  refine (Except.bind_of_ok wrote _).trans ?_
  have bytes : 32 * count / 8 = 4 * count := by
    omega
  rw [bytes, granted.2.2, if_neg (by decide), read]
  change
    (host.sha256 (after.take (4 * count)) >>= fun hash =>
      inside hash.val[0]? >>= fun first => _) = _
  refine (Except.bind_of_ok hashed _).trans ?_
  have positive : count > 0 := by
    omega
  rw [head]
  change
    (if
      number 0 (string.drop (32 * count)) ≠
        if count > 0 then first.toNat >>> (8 - count) else 0 then
      _ else _) = _
  rw [four] at expected
  rw [if_pos positive, ← expected]
  have lengths :
      (string.drop (32 * count)).length =
        (checksum host (after.take (4 * count))).length := by
    rw [behind, length_checksum host proper, four]
  by_cases spelled :
      string.drop (32 * count) = checksum host (after.take (4 * count))
  · rw [if_pos spelled, if_neg (not_not_intro (by rw [spelled]))]
  · rw [if_neg spelled, if_pos fun equal => spelled (number_inj lengths equal)]

/-! ## What is accepted -/

/-- An accepted text has the words of some numbers, and room for them. -/
theorem words_of_accepted
    (accepted :
      mnemonicToEntropy host alloc (some mnemonic) language = .ok entropy) :
    ∃ (count : Nat) (indexes : List Nat),
      4 ≤ count ∧ count ≤ 8 ∧ indexes.length = 3 * count ∧
        (∀ index ∈ indexes, index < 2048) ∧
        pieces 0x20 mnemonic.characters = indexes.map wordOf ∧
        getWordlist language ≠ none ∧ host.cryptoInitialized = true ∧
        alloc.neocGrants (sizeAdd mnemonic.strlen 1) = true ∧
        alloc.neocGrants (totalBytes (33 * count)) = true ∧
        alloc.neocGrants (4 * count) = true := by
  rw [mnemonicToEntropy, collect_eq] at accepted
  split at accepted
  · cases accepted
  rename_i copied
  dsimp only at accepted
  split at accepted
  · cases accepted
  rename_i counted
  rw [not_or, decide_eq_true_iff, List.length_take] at counted
  rw [List.take_of_length_le (Nat.not_lt.mp counted.1)] at accepted
  obtain ⟨count, few, many, length⟩ :
      ∃ count, 4 ≤ count ∧ count ≤ 8 ∧
        (pieces 0x20 mnemonic.characters).length = 3 * count := by
    refine ⟨(pieces 0x20 mnemonic.characters).length / 3, ?_⟩
    omega
  have bound : (3 * count * 11) / 33 = count := by
    omega
  have entropyBits : 3 * count * 11 - count = 32 * count := by
    omega
  have total : 3 * count * 11 = 33 * count := by
    omega
  have bytes : 32 * count / 8 = 4 * count := by
    omega
  rw [length, bound, entropyBits, total, bytes] at accepted
  split at accepted
  · cases accepted
  split at accepted
  · cases accepted
  rename_i stream
  rcases Except.bind_eq_ok_iff.mp accepted with ⟨after, wrote, later⟩
  rcases exists_indexes wrote with ⟨indexes, cut, small, supported⟩
  split at later
  · cases later
  rename_i room
  rcases Except.bind_eq_ok_iff.mp later with ⟨_, -, hashing⟩
  rcases Except.bind_eq_ok_iff.mp hashing with ⟨digest, hashed, -⟩
  rw [Bool.not_eq_false] at copied stream room
  refine
    ⟨count, indexes, few, many, ?_, small, cut, supported ?_, ?_, copied,
      stream, room⟩
  · rw [← length, cut, List.length_map]
  · intro none
    rw [none, List.length_nil] at length
    omega
  · rw [Host.sha256] at hashed
    split at hashed
    · assumption
    · cases hashed

/--
A text is accepted with an entropy exactly if its words stand for numbers that
spell that entropy and its checksum.
-/
theorem mnemonicToEntropy_eq_ok_iff :
    mnemonicToEntropy host alloc (some mnemonic) language = .ok entropy ↔
      getWordlist language ≠ none ∧ host.cryptoInitialized = true ∧
        Room alloc mnemonic entropy ∧ ValidLength entropy ∧
        ∃ indexes : List Nat,
          pieces 0x20 mnemonic.characters = indexes.map wordOf ∧
            Spells host indexes entropy := by
  constructor
  · intro accepted
    rcases words_of_accepted accepted with
      ⟨count, indexes, few, many, length, small, cut, supported, initialized,
        copied, stream, room⟩
    rcases
        exists_entropy few many small length cut supported initialized
          ⟨copied, stream, room⟩ with
      ⟨found, size, front, result⟩
    rw [accepted] at result
    split at result
    · rename_i behind
      injection result with same
      subst same
      have eight : entropy.length * 8 + checksumBits entropy.length =
          33 * count := by
        rw [checksumBits]
        omega
      refine
        ⟨supported, initialized, ⟨copied, ?_, ?_⟩, ?_, indexes, cut, small,
          ?_⟩
      · rw [eight]
        exact stream
      · rw [size]
        exact room
      · rw [ValidLength]
        omega
      · rw [front, ← behind, List.take_append_drop]
    · cases result
  · rintro
      ⟨supported, initialized, ⟨copied, stream, room⟩, proper, indexes, cut,
        spelled⟩
    have length := spelled.length_eq proper
    rcases proper with ⟨enough, bounded, whole⟩
    obtain ⟨count, size⟩ : ∃ count, entropy.length = 4 * count :=
      ⟨entropy.length / 4, by omega⟩
    have bits : checksumBits entropy.length = count := by
      rw [checksumBits]
      omega
    have total : 4 * count * 8 + count = 33 * count := by
      omega
    rw [bits] at length stream
    rw [size] at stream room
    rw [total] at stream
    rcases
        exists_entropy (by omega) (by omega) spelled.1 length cut supported
          initialized ⟨copied, stream, room⟩ with
      ⟨found, same, front, result⟩
    have first : (BitString.bits entropy).length = 32 * count := by
      rw [length_bits]
      omega
    rw [spelled.2, List.take_left' first] at front
    have equal := bits_injective front
    subst equal
    rw [result, spelled.2, List.drop_left' first, if_pos rfl]

/-! ## There and back -/

theorem proper_wordOf (small : ∀ index ∈ indexes, index < 2048) :
    ∀ word ∈ indexes.map wordOf, word ≠ [] ∧ 0x20 ∉ word := by
  intro word member
  rcases List.mem_map.mp member with ⟨index, listed, rfl⟩
  rcases isWord_wordOf (small index listed) with ⟨enough, -, letters⟩
  constructor
  · rintro none
    rw [none, List.length_nil] at enough
    omega
  · intro space
    exact absurd (letters 0x20 space).1 (by decide)

theorem characters_sentence (small : ∀ index ∈ indexes, index < 2048) :
    (CString.ofBuffer (sentence indexes)).characters = sentence indexes :=
  CString.characters_ofBuffer (nul_free_sentence small)

/-- The words of a sentence are read again. -/
theorem pieces_sentence (small : ∀ index ∈ indexes, index < 2048) :
    pieces 0x20 (sentence indexes) = indexes.map wordOf :=
  pieces_intercalate (proper_wordOf small)

theorem validateMnemonic_of_accepted
    (accepted :
      mnemonicToEntropy host alloc (some mnemonic) language = .ok entropy) :
    validateMnemonic host alloc (some mnemonic) language = .ok true := by
  rw [validateMnemonic, accepted]

/-- One sequence of numbers spells an entropy. -/
theorem Spells.unique {others : List Nat}
    (proper : ValidLength entropy) (spelled : Spells host indexes entropy)
    (again : Spells host others entropy) : others = indexes :=
  flatMap_digits_inj
    ((again.length_eq proper).trans (spelled.length_eq proper).symm) again.1
    spelled.1 (again.2.trans spelled.2.symm)

/-- The sentence of what an entropy spells is accepted with that entropy. -/
theorem mnemonicToEntropy_sentence
    (initialized : host.cryptoInitialized = true)
    (serves : alloc.Serves 216) (supported : getWordlist language ≠ none)
    (proper : ValidLength entropy) (spelled : Spells host indexes entropy) :
    mnemonicToEntropy host alloc
        (some (CString.ofBuffer (sentence indexes))) language =
      .ok entropy := by
  have ⟨enough, bounded, whole⟩ := proper
  have small := spelled.1
  have count := spelled.length_eq proper
  rw [checksumBits] at count
  have letters := totalLength_le small
  have length :=
    length_sentence indexes (by rintro rfl; rw [List.length_nil] at count; omega)
  apply mnemonicToEntropy_eq_ok_iff.mpr
  refine ⟨supported, initialized, ⟨?_, ?_, ?_⟩, proper, indexes, ?_, spelled⟩
  · rw [CString.strlen, characters_sentence small,
      sizeAdd_of_lt (by rw [sizeModulus]; omega)]
    apply serves.neocGrants (Nat.succ_pos _)
    omega
  · apply serves.neocGrants
    · rw [totalBytes]
      omega
    · rw [totalBytes, checksumBits]
      omega
  · apply serves.neocGrants
    · omega
    · omega
  · rw [characters_sentence small, pieces_sentence small]

/--
Every entropy of a valid length has a mnemonic of 12 to 24 words with single
spaces between them, which is read back as that entropy and found valid, and
a text is accepted only if its words are those of numbers that spell the
entropy and the leading bits of its hash.
-/
theorem mnemonics_carry_entropy (host : Host) (alloc : Allocator) :
    (host.cryptoInitialized = true → alloc.Serves 216 →
      ∀ (language : Language) (entropy : List UInt8),
        getWordlist language ≠ none →
        entropy.length ∈ [16, 20, 24, 28, 32] →
        ∃ mnemonic words,
          mnemonicFromEntropy host alloc (.items entropy) language =
              .ok mnemonic ∧
            mnemonic.characters = [0x20].intercalate words ∧
            12 ≤ words.length ∧ words.length ≤ 24 ∧
            (∀ word ∈ words, word ∈ wordlistEn) ∧
            mnemonicToEntropy host alloc (some mnemonic) language =
              .ok entropy ∧
            validateMnemonic host alloc (some mnemonic) language =
              .ok true) ∧
      (∀ (language : Language) (mnemonic : CString) (entropy : List UInt8),
        mnemonicToEntropy host alloc (some mnemonic) language = .ok entropy →
        ∃ indexes : List Nat,
          pieces 0x20 mnemonic.characters = indexes.map wordOf ∧
            Spells host indexes entropy) ∧
      wordlistEn.length = 2048 ∧ Increasing wordlistEn ∧
      wordlistEn.Nodup := by
  refine
    ⟨?_, ?_, length_wordlistEn, increasing_wordlistEn,
      increasing_wordlistEn.nodup⟩
  · intro initialized serves language entropy supported length
    have proper : ValidLength entropy := by
      rw [ValidLength]
      simp only [List.mem_cons, List.not_mem_nil, or_false] at length
      omega
    rcases exists_spells host proper with ⟨indexes, spelled⟩
    have small := spelled.1
    have count := spelled.length_eq proper
    have ⟨enough, bounded, whole⟩ := proper
    rw [checksumBits] at count
    have accepted :=
      mnemonicToEntropy_sentence initialized serves supported proper spelled
    refine
      ⟨CString.ofBuffer (sentence indexes), indexes.map wordOf,
        mnemonicFromEntropy_eq initialized serves supported proper spelled,
        characters_sentence small, ?_, ?_, ?_, accepted,
        validateMnemonic_of_accepted accepted⟩
    · rw [List.length_map]
      omega
    · rw [List.length_map]
      omega
    · intro word member
      rcases List.mem_map.mp member with ⟨index, listed, rfl⟩
      exact List.mem_of_getElem? (wordlistEn_of_lt (small index listed))
  · intro language mnemonic entropy accepted
    rcases mnemonicToEntropy_eq_ok_iff.mp accepted with
      ⟨-, -, -, -, indexes, cut, spelled⟩
    exact ⟨indexes, cut, spelled⟩

/-- A host that knows the SHA-256 of sixteen zeros. -/
def zerosHost : Host :=
  Host.ofTables
    [(List.replicate 16 0,
      ⟨[0x37, 0x47, 0x08, 0xFF, 0xF7, 0x71, 0x9D, 0xD5, 0x97, 0x9E, 0xC8, 0x75,
        0xD5, 0x6C, 0xD2, 0x28, 0x6F, 0x6D, 0x3C, 0xF7, 0xEC, 0x31, 0x7A, 0x3B,
        0x25, 0x63, 0x2A, 0xAB, 0x28, 0xEC, 0x37, 0xBB], rfl⟩)]
    []

theorem mnemonics_carry_zeros :
    ∃ mnemonic,
      mnemonicFromEntropy zerosHost .ample
          (.items (List.replicate 16 0)) .english =
        .ok mnemonic ∧
      mnemonicToEntropy zerosHost .ample (some mnemonic) .english =
        .ok (List.replicate 16 0) := by
  have serves : Allocator.ample.Serves 216 :=
    Allocator.ample_serves (by decide)
  rcases
      (mnemonics_carry_entropy zerosHost .ample).1 rfl serves
        .english (List.replicate 16 0) (Option.some_ne_none _)
        (by rw [List.length_replicate]; decide) with
    ⟨mnemonic, words, written, -, -, -, -, read, -⟩
  exact ⟨mnemonic, written, read⟩

end NeoC.Bip39
