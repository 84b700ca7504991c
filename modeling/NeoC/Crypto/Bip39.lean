import NeoC.Crypto.Bip39Wordlist
import NeoC.Crypto.Hash
import NeoC.Foundation.BitString
import NeoC.Foundation.Pieces
import NeoC.Runtime.Cells

/-!
# Entropy and mnemonics

An entropy of 16 to 32 bytes is followed by the leading bits of its SHA-256,
one for every four bytes, and cut into numbers of eleven bits, which stand for
words.  The way back cuts the text at its spaces, looks the words up and
compares the bits behind the entropy with the hash again.
-/

namespace NeoC.Bip39

open Foundation
open Foundation.BitString

/-! ## Languages -/

/-- `neoc_bip39_language_t`. -/
inductive Language where
  | english
  | japanese
  | korean
  | spanish
  | chineseSimplified
  | chineseTraditional
  | french
  | italian
  | czech
  | portuguese
deriving DecidableEq, Repr

/-- `neoc_bip39_get_wordlist`; `none` is `NULL`. -/
def getWordlist : Language → Option (List (List UInt8))
  | .english => some wordlistEn
  | .japanese => some wordlistEn
  | .korean => some wordlistEn
  | .spanish => some wordlistEn
  | .chineseSimplified => some wordlistEn
  | .chineseTraditional => some wordlistEn
  | .french => some wordlistEn
  | .italian => some wordlistEn
  | .czech => some wordlistEn
  | .portuguese => none

/-- `neoc_bip39_get_word`. -/
def getWord (language : Language) (index : Nat) : Option (List UInt8) :=
  if index ≥ 2048 then
    none
  else
    match getWordlist language with
    | none => none
    | some wordlist => wordlist[index]?

/-- `while (left <= right)` the middle of the range is compared. -/
def findLoop (wordlist : List (List UInt8)) (word : List UInt8) :
    (fuel : Nat) → (left right : Int) → Outcome (Option Nat)
  | 0, _, _ => .error .divergence
  | fuel + 1, left, right =>
      if left ≤ right then
        let mid := left + (right - left) / 2
        match wordlist[mid.toNat]? with
        | none => .error .illegalAccess
        | some entry =>
            match strcmp word entry with
            | .eq => .ok (some mid.toNat)
            | .lt => findLoop wordlist word fuel left (mid - 1)
            | .gt => findLoop wordlist word fuel (mid + 1) right
      else
        .ok none

/-- `neoc_bip39_find_word`, with `none` for -1. -/
def findWord (language : Language) (word : List UInt8) :
    Outcome (Option Nat) :=
  match getWordlist language with
  | none => .ok none
  | some wordlist => findLoop wordlist word 2049 0 2047

/-! ## From entropy to a mnemonic -/

/-- An access outside its object has no result. -/
def inside {α : Type} (result : Option α) : Outcome α :=
  match result with
  | none => .error .illegalAccess
  | some value => .ok value

/-- The first bits of the hash are added behind the entropy. -/
def appendChecksum (hash : List UInt8) :
    (turns i bitPosition : Nat) → (bitstream : List UInt8) →
      Outcome (List UInt8)
  | 0, _, _, bitstream => .ok bitstream
  | turns + 1, i, bitPosition, bitstream => do
      let bit ← inside (bitAt hash i)
      let bitstream ←
        inside (if bit then setBit bitstream bitPosition else some bitstream)
      appendChecksum hash turns (i + 1) (bitPosition + 1) bitstream

/-- A number of eleven bits and the word it stands for. -/
def wordAt (language : Language) (bitstream : List UInt8)
    (bitPosition : Nat) : Outcome (List UInt8) := do
  let index ← inside (readNumber bitstream 11 bitPosition 0)
  match getWord language index with
  | none => .error (.error .invalidState "Invalid word index")
  | some word => .ok word

/-- The characters of the words are counted. -/
def countChars (language : Language) (bitstream : List UInt8) :
    (turns i mnemonicChars : Nat) → Outcome Nat
  | 0, _, mnemonicChars => .ok mnemonicChars
  | turns + 1, i, mnemonicChars => do
      let word ← wordAt language bitstream (i * 11)
      countChars language bitstream turns (i + 1)
        (sizeAdd mnemonicChars word.length)

/-- The words are written, with a space behind each but the last. -/
def writeWords (language : Language) (bitstream : List UInt8) :
    (turns bitPosition outOffset : Nat) → (output : Cells UInt8) →
      Outcome (Cells UInt8)
  | 0, _, _, output => .ok output
  | turns + 1, bitPosition, outOffset, output => do
      let word ← wordAt language bitstream bitPosition
      let output ← output.store outOffset (Cells.written word)
      if turns = 0 then
        writeWords language bitstream turns (bitPosition + 11)
          (outOffset + word.length) output
      else do
        let output ←
          output.store (outOffset + word.length) (Cells.written [0x20])
        writeWords language bitstream turns (bitPosition + 11)
          (outOffset + word.length + 1) output

/-- `entropy_len / 4`. -/
def checksumBits (entropyLen : Nat) : Nat := entropyLen / 4

/-- `(total_bits + 7) / 8`. -/
def totalBytes (totalBits : Nat) : Nat := (totalBits + 7) / 8

/-- `neoc_bip39_mnemonic_from_entropy`. -/
def mnemonicFromEntropy (host : Host) (alloc : Allocator) (entropy : Buffer)
    (language : Language) : Outcome CString :=
  match entropy with
  | .null _ => .error (.error .invalidArgument "Invalid arguments")
  | .items entropy =>
      if entropy.length < 16 ∨ entropy.length > 32 ∨
          entropy.length % 4 ≠ 0 then
        .error (.error .invalidLength "Invalid entropy length")
      else if getWordlist language = none then
        .error
          (.error .notSupported "Only English wordlist is currently supported")
      else do
        let checksum := checksumBits entropy.length
        let totalBits := entropy.length * 8 + checksum
        let wordCount := totalBits / 11
        let hash ← host.sha256 entropy
        if alloc.neocGrants (totalBytes totalBits) = false then
          .error (.error .outOfMemory "Failed to allocate bitstream")
        else do
          let bitstream :=
            entropy ++
              List.replicate (totalBytes totalBits - entropy.length) 0
          let bitstream ←
            appendChecksum hash.val checksum 0 (entropy.length * 8) bitstream
          let chars ← countChars language bitstream wordCount 0 (wordCount - 1)
          if alloc.neocGrants (sizeAdd chars 1) = false then
            .error
              (.error .outOfMemory "Failed to allocate mnemonic buffer")
          else do
            let output :=
              Cells.written (List.replicate (sizeAdd chars 1) (0 : UInt8))
            let output ← writeWords language bitstream wordCount 0 0 output
            let characters ← output.readString
            .ok (CString.ofBuffer characters)

/-! ## From a mnemonic to entropy -/

/-- `strtok` with a space as the delimiter: the token and what is left. -/
def strtok (rest : List UInt8) : Option (List UInt8 × List UInt8) :=
  match rest.dropWhile (· = 0x20) with
  | [] => none
  | first :: behind =>
      some
        ((first :: behind).takeWhile (· ≠ 0x20),
          ((first :: behind).dropWhile (· ≠ 0x20)).drop 1)

/--
`while (token != NULL && word_count < 24)`: the tokens, and whether there is
another one.
-/
def collect : (room : Nat) → (rest : List UInt8) → List (List UInt8) × Bool
  | 0, rest => ([], (strtok rest).isSome)
  | room + 1, rest =>
      match strtok rest with
      | none => ([], false)
      | some (token, rest) =>
          (token :: (collect room rest).1, (collect room rest).2)

/-- The bits of an index that are `1` are set, from bit 10 on. -/
def writeIndex (index : Nat) :
    (turns bitPosition : Nat) → (bitstream : List UInt8) →
      Outcome (List UInt8)
  | 0, _, bitstream => .ok bitstream
  | bit + 1, bitPosition, bitstream => do
      let bitstream ←
        inside
          (if index.testBit bit then setBit bitstream bitPosition
            else some bitstream)
      writeIndex index bit (bitPosition + 1) bitstream

/-- The words are looked up and their indexes written. -/
def writeIndexes (language : Language) :
    (words : List (List UInt8)) → (bitPosition : Nat) →
      (bitstream : List UInt8) → Outcome (List UInt8)
  | [], _, bitstream => .ok bitstream
  | word :: rest, bitPosition, bitstream => do
      match ← findWord language word with
      | none =>
          .error (.error .invalidArgument "Invalid word in mnemonic")
      | some index => do
          let bitstream ← writeIndex index 11 bitPosition bitstream
          writeIndexes language rest (bitPosition + 11) bitstream

/-- `neoc_bip39_mnemonic_to_entropy`; the length is that of the list. -/
def mnemonicToEntropy (host : Host) (alloc : Allocator)
    (mnemonic : Option CString) (language : Language) :
    Outcome (List UInt8) :=
  match mnemonic with
  | none => .error (.error .invalidArgument "Invalid arguments")
  | some mnemonic =>
      if alloc.neocGrants (sizeAdd mnemonic.strlen 1) = false then
        .error (.error .outOfMemory "Failed to allocate mnemonic copy")
      else
        let (words, more) := collect 24 mnemonic.characters
        if more = true ∨
            (words.length ≠ 12 ∧ words.length ≠ 15 ∧ words.length ≠ 18 ∧
              words.length ≠ 21 ∧ words.length ≠ 24) then
          .error (.error .invalidArgument "Invalid word count")
        else
          let totalBits := words.length * 11
          let checksum := totalBits / 33
          let entropyBits := totalBits - checksum
          if entropyBits % 8 ≠ 0 then
            .error (.error .internal "Invalid entropy bit length")
          else if alloc.neocGrants (totalBytes totalBits) = false then
            .error (.error .outOfMemory "Failed to allocate bitstream")
          else do
            let bitstream ←
              writeIndexes language words 0
                (List.replicate (totalBytes totalBits) 0)
            if alloc.neocGrants (entropyBits / 8) = false then
              .error
                (.error .outOfMemory "Failed to allocate entropy buffer")
            else do
              let entropy := bitstream.take (entropyBits / 8)
              let checksumAccum ←
                inside (readNumber bitstream checksum entropyBits 0)
              let hash ← host.sha256 entropy
              let first ← inside hash.val[0]?
              let expectedChecksum :=
                if checksum > 0 then first.toNat >>> (8 - checksum) else 0
              if checksumAccum ≠ expectedChecksum then
                .error (.error .invalidArgument "Invalid mnemonic checksum")
              else
                .ok entropy

/-- `neoc_bip39_validate_mnemonic`. -/
def validateMnemonic (host : Host) (alloc : Allocator)
    (mnemonic : Option CString) (language : Language) : Outcome Bool :=
  match mnemonic with
  | none => .ok false
  | some mnemonic =>
      match mnemonicToEntropy host alloc (some mnemonic) language with
      | .ok _ => .ok true
      | .error (.error _ _) => .ok false
      | .error reason => .error reason

/-! ## Words and their numbers -/

/-- The word of a number. -/
def wordOf (index : Nat) : List UInt8 :=
  wordlistEn[index]?.getD []

theorem wordlistEn_of_lt {index : Nat} (small : index < 2048) :
    wordlistEn[index]? = some (wordOf index) := by
  rw [← length_wordlistEn] at small
  rw [wordOf, List.getElem?_eq_getElem small]
  rfl

theorem isWord_wordOf {index : Nat} (small : index < 2048) :
    IsWord (wordOf index) :=
  isWord_wordlistEn _ (List.mem_of_getElem? (wordlistEn_of_lt small))

/-- The loop of the source is the search of a table. -/
theorem findLoop_eq {wordlist : List (List UInt8)} (word : List UInt8)
    {fuel first stop : Nat} (enough : stop - first ≤ fuel)
    (bounded : stop ≤ wordlist.length) :
    findLoop wordlist word (fuel + 1) first ((stop : Int) - 1) =
      .ok (search (probe wordlist word) fuel first stop) := by
  induction fuel generalizing first stop with
  | zero =>
      rw [findLoop, if_neg (by omega)]
      rfl
  | succ fuel induction =>
      rw [findLoop, search_succ]
      by_cases some : first < stop
      · have middle :
            (first : Int) + ((stop : Int) - 1 - first) / 2 =
              ((first + (stop - 1 - first) / 2 : Nat) : Int) := by
          omega
        have inside : first + (stop - 1 - first) / 2 < wordlist.length := by
          omega
        have here := List.getElem?_eq_getElem inside
        rw [if_pos (by omega), if_pos some]
        dsimp only
        rw [middle, Int.toNat_natCast, here, probe_of_getElem? here]
        dsimp only
        rw [strcmp]
        generalize
          compare word wordlist[first + (stop - 1 - first) / 2] = order
        cases order with
        | eq => rfl
        | lt => exact induction (by omega) (by omega)
        | gt =>
            have later :=
              @induction (first + (stop - 1 - first) / 2 + 1) stop (by omega)
                bounded
            rw [Int.natCast_add_one] at later
            exact later
      · rw [if_neg (by omega), if_neg some]

/-- The languages share one table. -/
theorem getWordlist_of_ne_none {language : Language}
    (supported : getWordlist language ≠ none) :
    getWordlist language = some wordlistEn := by
  cases language
  case portuguese => exact absurd rfl supported
  all_goals rfl

theorem findWord_of_supported {language : Language}
    (supported : getWordlist language ≠ none) (word : List UInt8) :
    findWord language word = .ok (find wordlistEn word) := by
  have run :=
    @findLoop_eq wordlistEn word 2048 0 wordlistEn.length
      (by rw [length_wordlistEn]) (Nat.le_refl _)
  have last : ((wordlistEn.length : Nat) : Int) - 1 = 2047 := by
    rw [length_wordlistEn]
    rfl
  rw [last] at run
  rw [findWord, getWordlist_of_ne_none supported, find]
  dsimp only
  rw [length_wordlistEn] at run ⊢
  exact run

theorem findWord_of_unsupported {language : Language}
    (unsupported : getWordlist language = none) (word : List UInt8) :
    findWord language word = .ok none := by
  rw [findWord, unsupported]

/-- A word is found where it stands, in every language with a table. -/
theorem findWord_eq_ok_iff {language : Language} {word : List UInt8}
    {index : Nat} :
    findWord language word = .ok (some index) ↔
      getWordlist language ≠ none ∧ index < 2048 ∧ wordOf index = word := by
  have lookup :
      wordlistEn[index]? = some word ↔
        index < 2048 ∧ wordOf index = word := by
    constructor
    · intro here
      have inside := (List.getElem?_eq_some_iff.mp here).1
      rw [length_wordlistEn] at inside
      refine ⟨inside, ?_⟩
      rw [wordOf, here]
      rfl
    · rintro ⟨small, rfl⟩
      exact wordlistEn_of_lt small
  by_cases unsupported : getWordlist language = none
  · rw [findWord_of_unsupported unsupported]
    exact
      iff_of_false (fun same => nomatch same) fun both => both.1 unsupported
  · rw [findWord_of_supported unsupported, Except.ok.injEq,
      increasing_wordlistEn.find_eq_some_iff, lookup]
    exact (and_iff_right unsupported).symm

theorem getWord_eq {language : Language}
    (supported : getWordlist language ≠ none) {index : Nat}
    (small : index < 2048) : getWord language index = some (wordOf index) := by
  rw [getWord, if_neg (Nat.not_le.mpr small),
    getWordlist_of_ne_none supported]
  exact wordlistEn_of_lt small

/-! ## The entropy and its checksum -/

variable {language : Language} {bitstream : List UInt8}
variable {front back : List Bool} {indexes : List Nat}

theorem appendChecksum_eq (hash : List UInt8) {turns i : Nat}
    (bitPosition : Nat) (bitstream : List UInt8)
    (bounded : i + turns ≤ 8 * hash.length) :
    appendChecksum hash turns i bitPosition bitstream =
      inside
        (writeBits (((bits hash).drop i).take turns) bitPosition bitstream) := by
  induction turns generalizing i bitPosition bitstream with
  | zero => rw [List.take_zero]; rfl
  | succ turns induction =>
      have within : i < (bits hash).length := by
        rw [length_bits]
        omega
      have here : bitAt hash i = some (bits hash)[i] := by
        rw [bitAt_eq, List.getElem?_eq_getElem within]
      rw [List.drop_eq_getElem_cons within, List.take_succ_cons,
        appendChecksum, here, writeBits]
      generalize (bits hash)[i] = bit
      change
        inside (if bit then setBit bitstream bitPosition else some bitstream) >>=
            _ = _
      generalize
        (if bit then setBit bitstream bitPosition else some bitstream) = result
      cases result with
      | none => rfl
      | some after =>
          exact
            @induction (i + 1) (bitPosition + 1) after
              (by rw [Nat.add_assoc, Nat.add_comm 1]; exact bounded)

/-- The word whose number stands at a position. -/
theorem wordAt_eq (supported : getWordlist language ≠ none) {index : Nat}
    (small : index < 2048)
    (shape : bits bitstream = front ++ (digits 11 index ++ back)) :
    wordAt language bitstream front.length = .ok (wordOf index) := by
  have read := readNumber_eq (digits 11 index) 0 shape
  rw [length_digits, number_digits small] at read
  rw [wordAt, read]
  change (match getWord language index with | none => _ | some word => _) = _
  rw [getWord_eq supported small]

/-- The length of the words, one after another. -/
def totalLength (indexes : List Nat) : Nat :=
  (indexes.map fun index => (wordOf index).length).sum

theorem totalLength_cons (index : Nat) (rest : List Nat) :
    totalLength (index :: rest) =
      (wordOf index).length + totalLength rest := by
  rw [totalLength, List.map_cons, List.sum_cons]
  rfl

theorem totalLength_le (small : ∀ index ∈ indexes, index < 2048) :
    totalLength indexes ≤ indexes.length * 8 := by
  induction indexes with
  | nil => exact Nat.le_refl 0
  | cons index rest induction =>
      rcases List.forall_mem_cons.mp small with ⟨first, others⟩
      have word := (isWord_wordOf first).2.1
      have later := induction others
      rw [totalLength_cons, List.length_cons]
      omega

theorem countChars_eq (supported : getWordlist language ≠ none)
    (small : ∀ index ∈ indexes, index < 2048) {i chars : Nat}
    (shape :
      bits bitstream = front ++ (indexes.flatMap (digits 11) ++ back))
    (start : front.length = i * 11)
    (bounded : chars + totalLength indexes < sizeModulus) :
    countChars language bitstream indexes.length i chars =
      .ok (chars + totalLength indexes) := by
  induction indexes generalizing front i chars with
  | nil => rfl
  | cons index rest induction =>
      rcases List.forall_mem_cons.mp small with ⟨first, others⟩
      rw [totalLength_cons] at bounded ⊢
      rw [List.flatMap_cons, List.append_assoc] at shape
      have word := wordAt_eq supported first shape
      rw [start] at word
      have sum :
          sizeAdd chars (wordOf index).length =
            chars + (wordOf index).length :=
        sizeAdd_of_lt (by omega)
      rw [List.length_cons, countChars]
      refine (Except.bind_of_ok word _).trans ?_
      rw [sum,
        @induction (front ++ digits 11 index) others (i + 1)
          (chars + (wordOf index).length)
          (by rw [shape, List.append_assoc])
          (by rw [List.length_append, length_digits, start]; omega)
          (by omega),
        Nat.add_assoc]

/-- The words of some numbers with one space between them. -/
def sentence (indexes : List Nat) : List UInt8 :=
  [0x20].intercalate (indexes.map wordOf)

theorem sentence_cons_cons (first second : Nat) (rest : List Nat) :
    sentence (first :: second :: rest) =
      wordOf first ++ 0x20 :: sentence (second :: rest) := by
  rw [sentence, List.map_cons, List.map_cons, List.intercalate_cons_cons,
    List.append_assoc]
  rfl

theorem sentence_singleton (index : Nat) :
    sentence [index] = wordOf index := by
  rw [sentence, List.map_singleton, List.intercalate_singleton]

theorem length_sentence (indexes : List Nat) (some : indexes ≠ []) :
    (sentence indexes).length =
      indexes.length - 1 + totalLength indexes := by
  induction indexes with
  | nil => exact absurd rfl some
  | cons first rest induction =>
      cases rest with
      | nil =>
          rw [sentence_singleton, totalLength_cons]
          exact (Nat.zero_add _).symm
      | cons second rest =>
          have later := induction (List.cons_ne_nil _ _)
          rw [sentence_cons_cons, List.length_append, List.length_cons, later,
            totalLength_cons first]
          simp only [List.length_cons]
          omega

theorem store_zeros (text values : List UInt8) {room : Nat}
    (enough : values.length ≤ room) :
    (Cells.written text ++ Cells.written (List.replicate room (0 : UInt8))).store
        text.length (Cells.written values) =
      .ok
        (Cells.written (text ++ values) ++
          Cells.written (List.replicate (room - values.length) 0)) := by
  rw [Cells.store_behind text values
      (by rw [Cells.length_written, List.length_replicate]; exact enough),
    Cells.written_drop, List.drop_replicate]

/-- The loop writes the sentence over the zeros. -/
theorem writeWords_eq (supported : getWordlist language ≠ none)
    (small : ∀ index ∈ indexes, index < 2048) (text : List UInt8) {room : Nat}
    (shape :
      bits bitstream = front ++ (indexes.flatMap (digits 11) ++ back))
    (enough : (sentence indexes).length ≤ room) :
    writeWords language bitstream indexes.length front.length text.length
        (Cells.written text ++ Cells.written (List.replicate room 0)) =
      .ok
        (Cells.written (text ++ sentence indexes) ++
          Cells.written
            (List.replicate (room - (sentence indexes).length) 0)) := by
  induction indexes generalizing front text room with
  | nil =>
      change Except.ok _ = Except.ok _
      rw [sentence, List.map_nil, List.intercalate_nil, List.append_nil,
        List.length_nil, Nat.sub_zero]
  | cons index rest induction =>
      rcases List.forall_mem_cons.mp small with ⟨first, others⟩
      rw [List.flatMap_cons, List.append_assoc] at shape
      have word := wordAt_eq supported first shape
      have behind :
          bits bitstream =
            (front ++ digits 11 index) ++
              (rest.flatMap (digits 11) ++ back) := by
        rw [shape, List.append_assoc]
      rw [List.length_cons, writeWords]
      refine (Except.bind_of_ok word _).trans ?_
      cases rest with
      | nil =>
          rw [sentence_singleton] at enough ⊢
          refine (Except.bind_of_ok (store_zeros text _ enough) _).trans ?_
          rfl
      | cons second rest =>
          rw [sentence_cons_cons, List.length_append, List.length_cons]
            at enough
          have later :=
            @induction (front ++ digits 11 index) others
              (text ++ wordOf index ++ [0x20])
              (room - (wordOf index).length - 1) behind (by omega)
          have space :=
            @store_zeros (text ++ wordOf index) [0x20]
              (room - (wordOf index).length)
              (by rw [List.length_singleton]; omega)
          rw [List.length_append] at space
          refine
            (Except.bind_of_ok (store_zeros text _ (by omega)) _).trans ?_
          rw [if_neg (by rw [List.length_cons]; omega)]
          refine (Except.bind_of_ok space _).trans ?_
          rw [List.length_append, length_digits, List.length_append,
            List.length_append, List.length_singleton] at later
          rw [List.length_singleton, later, sentence_cons_cons,
            List.length_append, List.length_cons]
          simp only [List.append_assoc, List.singleton_append]
          congr 4
          omega

/-! ## The mnemonic of an entropy -/

/-- The leading bits of the hash of an entropy, one for four bytes. -/
def checksum (host : Host) (entropy : List UInt8) : List Bool :=
  (bits (host.sha256Digest entropy).val).take (checksumBits entropy.length)

/-- Numbers of eleven bits spell an entropy with its checksum behind it. -/
def Spells (host : Host) (indexes : List Nat) (entropy : List UInt8) : Prop :=
  (∀ index ∈ indexes, index < 2048) ∧
    indexes.flatMap (digits 11) = bits entropy ++ checksum host entropy

/-- The lengths an entropy may have. -/
def ValidLength (entropy : List UInt8) : Prop :=
  16 ≤ entropy.length ∧ entropy.length ≤ 32 ∧ entropy.length % 4 = 0

variable {host : Host} {alloc : Allocator} {entropy : List UInt8}

theorem length_checksum (host : Host) (proper : ValidLength entropy) :
    (checksum host entropy).length = checksumBits entropy.length := by
  have bounded := proper.2.1
  rw [checksum, List.length_take, length_bits,
    (host.sha256Digest entropy).property, checksumBits]
  omega

/-- Three words for every four bytes. -/
theorem Spells.length_eq (spelled : Spells host indexes entropy)
    (proper : ValidLength entropy) :
    indexes.length = 3 * checksumBits entropy.length := by
  have lengths := congrArg List.length spelled.2
  have whole := proper.2.2
  rw [length_flatMap_digits, List.length_append, length_bits,
    length_checksum host proper] at lengths
  rw [checksumBits] at lengths ⊢
  omega

theorem exists_spells (host : Host) (proper : ValidLength entropy) :
    ∃ indexes, Spells host indexes entropy := by
  have whole := proper.2.2
  rcases
      @exists_numbers 11 (3 * checksumBits entropy.length)
        (bits entropy ++ checksum host entropy)
        (by
          rw [List.length_append, length_bits, length_checksum host proper,
            checksumBits]
          omega) with
    ⟨indexes, -, small, same⟩
  exact ⟨indexes, small, same⟩

theorem nul_free_sentence (small : ∀ index ∈ indexes, index < 2048) :
    0 ∉ sentence indexes := by
  induction indexes with
  | nil => exact List.not_mem_nil
  | cons index rest induction =>
      rcases List.forall_mem_cons.mp small with ⟨first, others⟩
      have letters : 0 ∉ wordOf index := by
        intro member
        have bounds := ((isWord_wordOf first).2.2 0 member).1
        exact absurd bounds (by decide)
      cases rest with
      | nil =>
          rw [sentence_singleton]
          exact letters
      | cons second rest =>
          rw [sentence_cons_cons, List.mem_append, List.mem_cons]
          rintro (member | zero | member)
          · exact letters member
          · exact absurd zero (by decide)
          · exact induction others member

/-- The checksum stands behind the entropy in the bitstream. -/
theorem exists_bitstream (host : Host) (proper : ValidLength entropy) :
    ∃ bitstream back,
      appendChecksum (host.sha256Digest entropy).val
            (checksumBits entropy.length) 0 (entropy.length * 8)
            (entropy ++
              List.replicate
                (totalBytes
                    (entropy.length * 8 + checksumBits entropy.length) -
                  entropy.length)
                0) =
          .ok bitstream ∧
        bits bitstream = (bits entropy ++ checksum host entropy) ++ back := by
  have bounded := proper.2.1
  have count := length_checksum host proper
  have hash := (host.sha256Digest entropy).property
  have room :
      checksumBits entropy.length ≤
        8 *
          (totalBytes (entropy.length * 8 + checksumBits entropy.length) -
            entropy.length) := by
    rw [totalBytes]
    omega
  generalize
    totalBytes (entropy.length * 8 + checksumBits entropy.length) -
      entropy.length = behind at room ⊢
  have shape :
      bits (entropy ++ List.replicate behind 0) =
        bits entropy ++
          (List.replicate (checksum host entropy).length false ++
            List.replicate (8 * behind - checksumBits entropy.length)
              false) := by
    rw [bits_append, bits_zeros, count, List.replicate_append_replicate,
      Nat.add_sub_cancel' room]
  rcases exists_writeBits (checksum host entropy) shape with
    ⟨bitstream, written, -, same⟩
  refine ⟨bitstream, _, ?_, by rw [same, List.append_assoc]⟩
  rw [appendChecksum_eq _ _ _ (by rw [hash, checksumBits]; omega),
    List.drop_zero, ← checksum, Nat.mul_comm entropy.length, ← length_bits,
    written]
  rfl

/-- The mnemonic of an entropy is the sentence of the numbers it spells. -/
theorem mnemonicFromEntropy_eq (initialized : host.cryptoInitialized = true)
    (serves : alloc.Serves 216) (supported : getWordlist language ≠ none)
    (proper : ValidLength entropy) (spelled : Spells host indexes entropy) :
    mnemonicFromEntropy host alloc (.items entropy) language =
      .ok (CString.ofBuffer (sentence indexes)) := by
  have ⟨enough, bounded, whole⟩ := proper
  have count := spelled.length_eq proper
  have small := spelled.1
  have letters := totalLength_le small
  rcases exists_bitstream host proper with ⟨bitstream, back, appended, shape⟩
  rw [← spelled.2] at shape
  have some : indexes ≠ [] := by
    intro none
    rw [none, List.length_nil, checksumBits] at count
    omega
  have length := length_sentence indexes some
  have words :
      (entropy.length * 8 + checksumBits entropy.length) / 11 =
        indexes.length := by
    rw [count, checksumBits]
    omega
  rw [checksumBits] at count
  have hashed :
      host.sha256 entropy = .ok (host.sha256Digest entropy) := by
    rw [Host.sha256, if_pos initialized]
  have stream :
      alloc.neocGrants
          (totalBytes (entropy.length * 8 + checksumBits entropy.length)) =
        true := by
    apply serves.neocGrants
    · rw [totalBytes]
      omega
    · rw [totalBytes, checksumBits]
      omega
  have chars :
      countChars language bitstream indexes.length 0 (indexes.length - 1) =
        .ok (sentence indexes).length := by
    rw [length]
    exact
      @countChars_eq language bitstream [] back indexes supported small 0
        (indexes.length - 1) shape rfl (by rw [sizeModulus]; omega)
  have sum :
      sizeAdd (sentence indexes).length 1 = (sentence indexes).length + 1 := by
    apply sizeAdd_of_lt
    rw [sizeModulus]
    omega
  have output :
      alloc.neocGrants ((sentence indexes).length + 1) = true := by
    apply serves.neocGrants (Nat.succ_pos _)
    omega
  have wrote :=
    @writeWords_eq language bitstream [] back indexes supported small []
      ((sentence indexes).length + 1) shape (Nat.le_succ _)
  rw [Nat.add_sub_cancel_left, List.nil_append] at wrote
  have text := Cells.readString_written (nul_free_sentence small) []
  rw [List.append_nil, Cells.written_append] at text
  rw [mnemonicFromEntropy, if_neg (by omega), if_neg supported]
  refine (Except.bind_of_ok hashed _).trans ?_
  rw [stream, if_neg (by decide)]
  refine (Except.bind_of_ok appended _).trans ?_
  rw [words]
  refine (Except.bind_of_ok chars _).trans ?_
  rw [sum, output, if_neg (by decide)]
  refine (Except.bind_of_ok wrote _).trans ?_
  exact Except.bind_of_ok text _

end NeoC.Bip39
