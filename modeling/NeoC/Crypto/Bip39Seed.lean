import NeoC.Crypto.Bip39Entropy

/-!
# Seeds of mnemonics

A seed is what PBKDF2 makes of the text of a mnemonic and of its passphrase.
The text is taken as it stands, while its validation reads only the words
between the spaces: spaces too many leave a mnemonic valid and its entropy the
same, and change the seed.
-/

namespace NeoC.Bip39

open Foundation
open Foundation.BitString

/-! ## PBKDF2 -/

/-- The conversion of a length to `int`. -/
def intOf (length : Nat) : Int :=
  Int.bmod length 0x100000000

/--
`PKCS5_PBKDF2_HMAC` with SHA-512, a function of the bytes it reads and of the
numbers it is given; `none` is a result other than 1.
-/
abbrev Pbkdf2 :=
  (pass : List UInt8) → (passLen : Int) → (salt : List UInt8) →
    (saltLen : Int) → (iter : Nat) → (keyLen : Int) → Option (List UInt8)

/-- Of a string as many bytes are read as its length says, or else all. -/
def passed (characters : List UInt8) (length : Int) : List UInt8 :=
  if 0 ≤ length then characters.take length.toNat else characters

/-- `"mnemonic"`, and the passphrase if there is one. -/
def saltOf (passphrase : Option CString) : List UInt8 :=
  ascii "mnemonic" ++
    match passphrase with
    | none => []
    | some passphrase => passphrase.characters

/-- `neoc_bip39_pbkdf2`. -/
def pbkdf2 (derive : Pbkdf2) (alloc : Allocator) (mnemonic : Option CString)
    (passphrase : Option CString) (seedLen : Nat) : Outcome (List UInt8) :=
  match mnemonic with
  | none => .error (.error .invalidArgument "Invalid arguments")
  | some mnemonic =>
      if seedLen = 0 then
        .error (.error .invalidArgument "Invalid arguments")
      else
        let salt := saltOf passphrase
        if alloc.neocGrants (sizeAdd salt.length 1) = false then
          .error (.error .outOfMemory "Failed to allocate salt")
        else
          match
            derive
              (passed mnemonic.characters (intOf mnemonic.strlen))
              (intOf mnemonic.strlen)
              (passed salt (intOf salt.length)) (intOf salt.length) 2048
              (intOf seedLen) with
          | none => .error (.error .crypto "PBKDF2 failed")
          | some seed => .ok seed

/-- `neoc_bip39_mnemonic_to_seed_buffer`. -/
def mnemonicToSeedBuffer (derive : Pbkdf2) (alloc : Allocator)
    (mnemonic : Option CString) (passphrase : Option CString) :
    Outcome (List UInt8) :=
  pbkdf2 derive alloc mnemonic passphrase 64

/-! ## Texts with the same seed -/

variable {host : Host} {alloc : Allocator} {language : Language}
variable {entropy : List UInt8} {first second : CString}

/-- What PBKDF2 is given of a mnemonic. -/
def password (mnemonic : CString) : List UInt8 × Int :=
  (passed mnemonic.characters (intOf mnemonic.strlen), intOf mnemonic.strlen)

/-- Two texts have one seed, whatever PBKDF2 computes. -/
def SameSeed (first second : CString) : Prop :=
  ∀ derive alloc passphrase,
    mnemonicToSeedBuffer derive alloc (some first) passphrase =
      mnemonicToSeedBuffer derive alloc (some second) passphrase

theorem mnemonicToSeedBuffer_eq {passphrase : Option CString}
    (granted :
      alloc.neocGrants (sizeAdd (saltOf passphrase).length 1) = true)
    (derive : Pbkdf2) (mnemonic : CString) :
    mnemonicToSeedBuffer derive alloc (some mnemonic) passphrase =
      match
        derive (password mnemonic).1 (password mnemonic).2
          (passed (saltOf passphrase) (intOf (saltOf passphrase).length))
          (intOf (saltOf passphrase).length) 2048 (intOf 64) with
      | none => .error (.error .crypto "PBKDF2 failed")
      | some seed => .ok seed := by
  rw [mnemonicToSeedBuffer, pbkdf2, password]
  dsimp only
  rw [if_neg (by decide), granted, if_neg (by decide)]

/-- A function that has a key for one password only. -/
def keyFor (known : List UInt8 × Int) : Pbkdf2 :=
  fun pass passLen _ _ _ _ =>
    if (pass, passLen) = known then some [] else none

/-- PBKDF2 tells all passwords apart. -/
theorem sameSeed_iff_password :
    SameSeed first second ↔ password first = password second := by
  constructor
  · intro same
    have salted :
        Allocator.ample.neocGrants (sizeAdd (saltOf none).length 1) =
          true := by
      have length : (saltOf none).length = 8 := by
        decide
      rw [length]
      decide
    have seeds := same (keyFor (password first)) .ample none
    rw [mnemonicToSeedBuffer_eq salted, mnemonicToSeedBuffer_eq salted]
      at seeds
    generalize password first = left at seeds ⊢
    generalize password second = right at seeds ⊢
    rw [keyFor, keyFor, if_pos rfl] at seeds
    by_contra different
    rw [if_neg (Ne.symm different)] at seeds
    cases seeds
  · intro same derive alloc passphrase
    rw [password, password, Prod.mk.injEq] at same
    rw [mnemonicToSeedBuffer, mnemonicToSeedBuffer, pbkdf2, pbkdf2, same.1,
      same.2]

/-! ## Spaces -/

/--
The words of a text have one space between them, and no space stands in front
of them or behind them but as many as the conversion to `int` takes away.
-/
def SinglySpaced (text : List UInt8) : Prop :=
  ∃ words count,
    text = words ++ List.replicate (0x100000000 * count) 0x20 ∧
      Tight 0x20 words

/-- The words of a text with one space between them. -/
def joined (text : List UInt8) : List UInt8 :=
  [0x20].intercalate (pieces 0x20 text)

theorem singlySpaced_iff {text : List UInt8}
    (proper : ∀ word ∈ pieces 0x20 text, word ≠ [] ∧ 0x20 ∉ word) :
    SinglySpaced text ↔
      ∃ count,
        text = joined text ++ List.replicate (0x100000000 * count) 0x20 := by
  constructor
  · rintro ⟨words, count, rfl, tight⟩
    refine ⟨count, ?_⟩
    rw [joined, pieces_append_replicate, tight.intercalate_pieces]
  · rintro ⟨count, shape⟩
    exact ⟨joined text, count, shape, tight_intercalate proper⟩

/-- What `int` cannot tell from a small length. -/
theorem intOf_add_eq_iff {length more : Nat} (small : length < 0x80000000) :
    intOf (length + more) = length ↔ 0x100000000 ∣ more := by
  have positive : 0 < 0x100000000 := by
    decide
  unfold intOf
  refine (Int.bmod_eq_iff positive).trans ?_
  omega

theorem password_of_small {mnemonic : CString}
    (small : mnemonic.characters.length < 0x80000000) :
    password mnemonic =
      (mnemonic.characters, (mnemonic.characters.length : Int)) := by
  have whole := (@intOf_add_eq_iff _ 0 small).mpr (dvd_zero _)
  rw [Nat.add_zero] at whole
  rw [password, CString.strlen, whole, passed,
    if_pos (Int.natCast_nonneg _), Int.toNat_natCast, List.take_length]

/-- The password of a text is that of its words, joined, if it is so spaced. -/
theorem password_eq_iff
    (proper : ∀ word ∈ pieces 0x20 first.characters,
      word ≠ [] ∧ 0x20 ∉ word)
    (joint : second.characters = joined first.characters)
    (small : second.characters.length < 0x80000000) :
    password first = password second ↔ SinglySpaced first.characters := by
  rw [password_of_small small, singlySpaced_iff proper, ← joint, password,
    CString.strlen, Prod.mk.injEq]
  have words :
      pieces 0x20 second.characters = pieces 0x20 first.characters := by
    rw [joint, joined, pieces_intercalate proper]
  constructor
  · rintro ⟨front, length⟩
    rw [length, passed, if_pos (Int.natCast_nonneg _), Int.toNat_natCast]
      at front
    have shape := List.take_append_drop second.characters.length
      first.characters
    rw [front] at shape
    generalize first.characters.drop second.characters.length = behind at shape
    have spaces : behind.filter (· ≠ 0x20) = [] := by
      have held := congrArg List.flatten words
      rw [flatten_pieces, flatten_pieces, ← shape, List.filter_append]
        at held
      exact List.self_eq_append_right.mp held
    have repeated : behind = List.replicate behind.length 0x20 := by
      rw [List.eq_replicate_iff]
      refine ⟨rfl, ?_⟩
      intro character member
      have absent := List.filter_eq_nil_iff.mp spaces character member
      simpa using absent
    rw [← shape, List.length_append, intOf_add_eq_iff small] at length
    rcases length with ⟨count, many⟩
    rw [many] at repeated
    exact ⟨count, by rw [← repeated, shape]⟩
  · rintro ⟨count, shape⟩
    have length :
        intOf first.characters.length = (second.characters.length : Int) := by
      rw [shape, List.length_append, List.length_replicate,
        intOf_add_eq_iff small]
      exact Nat.dvd_mul_right _ _
    refine ⟨?_, length⟩
    rw [length, passed, if_pos (Int.natCast_nonneg _), Int.toNat_natCast, shape,
      List.take_left]

/-! ## Seeds of accepted texts -/

/-- An accepted text has the password of its entropy if it is so spaced. -/
theorem password_eq_sentence_iff {indexes : List Nat}
    (proper : ValidLength entropy) (spelled : Spells host indexes entropy)
    (accepted :
      mnemonicToEntropy host alloc (some first) language = .ok entropy) :
    password first = password (CString.ofBuffer (sentence indexes)) ↔
      SinglySpaced first.characters := by
  rcases mnemonicToEntropy_eq_ok_iff.mp accepted with
    ⟨-, -, -, -, others, cut, again⟩
  rw [spelled.unique proper again] at cut
  have small := spelled.1
  have count := spelled.length_eq proper
  have ⟨enough, bounded, whole⟩ := proper
  rw [checksumBits] at count
  have letters := totalLength_le small
  have length :=
    length_sentence indexes (by rintro rfl; rw [List.length_nil] at count; omega)
  apply password_eq_iff
  · rw [cut]
    exact proper_wordOf small
  · rw [characters_sentence small, joined, cut, sentence]
  · rw [characters_sentence small]
    omega

/--
An accepted text has the seed of the mnemonic of its entropy, whatever PBKDF2
computes, exactly if it is spaced like that mnemonic; and of two texts with
one entropy, the first of which is, the other has the same seed exactly if it
is as well.
-/
theorem seed_follows_entropy_iff
    (accepted :
      mnemonicToEntropy host alloc (some first) language = .ok entropy) :
    ∃ canonical,
      mnemonicFromEntropy host .ample (.items entropy) language =
          .ok canonical ∧
        (SameSeed first canonical ↔ SinglySpaced first.characters) ∧
        ∀ alloc language second,
          mnemonicToEntropy host alloc (some second) language =
              .ok entropy →
            SinglySpaced first.characters →
              (SameSeed first second ↔ SinglySpaced second.characters) := by
  rcases mnemonicToEntropy_eq_ok_iff.mp accepted with
    ⟨supported, initialized, -, proper, indexes, -, spelled⟩
  have serves : Allocator.ample.Serves 216 :=
    Allocator.ample_serves (by decide)
  have own := password_eq_sentence_iff proper spelled accepted
  refine
    ⟨CString.ofBuffer (sentence indexes),
      mnemonicFromEntropy_eq initialized serves supported proper spelled,
      sameSeed_iff_password.trans own, ?_⟩
  intro alloc language second other spaced
  rw [sameSeed_iff_password, own.mpr spaced, eq_comm]
  exact password_eq_sentence_iff proper spelled other

/-- The numbers that sixteen zeros spell. -/
def zerosIndexes : List Nat :=
  List.replicate 11 0 ++ [3]

/-- The mnemonic of sixteen zeros. -/
def zerosMnemonic : CString :=
  CString.ofBuffer (sentence zerosIndexes)

theorem spells_zeros :
    Spells zerosHost zerosIndexes (List.replicate 16 0) :=
  ⟨by decide, by decide⟩

theorem validLength_zeros : ValidLength (List.replicate 16 0) := by
  rw [ValidLength, List.length_replicate]
  decide

theorem zerosMnemonic_accepted :
    mnemonicToEntropy zerosHost .ample (some zerosMnemonic)
        .english =
      .ok (List.replicate 16 0) :=
  mnemonicToEntropy_sentence rfl (Allocator.ample_serves (by decide))
    (Option.some_ne_none _) validLength_zeros spells_zeros

theorem seed_follows_zeros_iff :
    ∃ canonical,
      mnemonicFromEntropy zerosHost .ample
            (.items (List.replicate 16 0)) .english =
          .ok canonical ∧
        (SameSeed zerosMnemonic canonical ↔
          SinglySpaced zerosMnemonic.characters) := by
  rcases seed_follows_entropy_iff zerosMnemonic_accepted with
    ⟨canonical, written, same, -⟩
  exact ⟨canonical, written, same⟩

/-- The mnemonic of sixteen zeros with a space in front of it. -/
def spacedMnemonic : CString :=
  CString.ofBuffer (0x20 :: sentence zerosIndexes)

/-- A space in front of a mnemonic leaves it valid and changes its seed. -/
theorem space_changes_seed :
    mnemonicToEntropy zerosHost .ample (some zerosMnemonic)
          .english =
        .ok (List.replicate 16 0) ∧
      mnemonicToEntropy zerosHost .ample (some spacedMnemonic)
          .english =
        .ok (List.replicate 16 0) ∧
      validateMnemonic zerosHost .ample (some zerosMnemonic)
          .english =
        .ok true ∧
      validateMnemonic zerosHost .ample (some spacedMnemonic)
          .english =
        .ok true ∧
      ¬SameSeed spacedMnemonic zerosMnemonic := by
  have small := spells_zeros.1
  have serves : Allocator.ample.Serves 216 :=
    Allocator.ample_serves (by decide)
  have letters := totalLength_le small
  have count : zerosIndexes.length = 12 := rfl
  have length := length_sentence zerosIndexes (List.cons_ne_nil _ _)
  have spaced :
      spacedMnemonic.characters = 0x20 :: sentence zerosIndexes := by
    apply CString.characters_ofBuffer
    rw [List.mem_cons, not_or]
    exact ⟨by decide, nul_free_sentence small⟩
  have accepted :
      mnemonicToEntropy zerosHost .ample (some spacedMnemonic)
          .english =
        .ok (List.replicate 16 0) := by
    apply mnemonicToEntropy_eq_ok_iff.mpr
    refine
      ⟨Option.some_ne_none _, rfl, ⟨?_, ?_, ?_⟩, validLength_zeros,
        zerosIndexes, ?_, spells_zeros⟩
    · rw [CString.strlen, spaced, List.length_cons,
        sizeAdd_of_lt (by rw [sizeModulus]; omega)]
      apply serves.neocGrants (Nat.succ_pos _)
      omega
    · rw [List.length_replicate]
      decide
    · rw [List.length_replicate]
      decide
    · rw [spaced, pieces_cons_self, pieces_sentence small]
  refine
    ⟨zerosMnemonic_accepted, accepted,
      validateMnemonic_of_accepted zerosMnemonic_accepted,
      validateMnemonic_of_accepted accepted, ?_⟩
  rw [sameSeed_iff_password, password_of_small, password_of_small, spaced,
    zerosMnemonic, characters_sentence small]
  · intro same
    exact List.cons_ne_self _ _ (Prod.mk.inj same).1
  · rw [zerosMnemonic, characters_sentence small]
    omega
  · rw [spaced, List.length_cons]
    omega

end NeoC.Bip39
