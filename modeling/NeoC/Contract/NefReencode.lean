import NeoC.Contract.NefLayout
import Mathlib.Algebra.Order.BigOperators.Group.List

/-!
# Writing a NEF file that was read

A file that was read is written again as it was only if it is in the form
that the writer writes.  The reader accepts more: bytes behind the name of the
compiler and strings with a NUL in them, return flags other than zero and one,
lengths of the script that are longer than they need to be, and anything
behind the checksum.  All of it is lost in the object.

The checksum is computed from the object and not from the file, so a file
whose checksum is right for its bytes need not verify, and one whose checksum
is wrong may.
-/

namespace NeoC

open Foundation Serialization

namespace NefFile

/-! ## Files -/

/-- The bytes are a file with these fields, and something behind it. -/
structure FileOf (data : List UInt8) (parts : NefParts)
    (lengthBytes rest : List UInt8) : Prop where
  fits : parts.Fits
  short : parts.source.length < 255
  form : VarIntForm lengthBytes parts.script.length
  eq : data = parts.layout lengthBytes ++ rest

/-- The file is in the form that the writer writes. -/
def Canonical (data : List UInt8) : Prop :=
  ∃ parts : NefParts,
    FileOf data parts parts.scriptLength [] ∧ parts.normalize = parts

/-- The last 32 bytes are the digest of all the bytes before them. -/
def Matches (host : Host) (data : List UInt8) : Prop :=
  ∃ contents, data = contents ++ (host.doubleDigest contents).val

/-- The checksum of the file is right for what is left of it in the object. -/
def Vouched (host : Host) (data : List UInt8) : Prop :=
  ∃ (parts : NefParts) (lengthBytes rest : List UInt8),
    FileOf data parts lengthBytes rest ∧
      parts.checksum =
        host.doubleDigest (parts.stored.body parts.scriptLength)

/--
A file that matches verifies and is written as it was; a file that does not
match does not verify.
-/
structure Reproduces (host : Host) (verifying saving : Allocator)
    (data : List UInt8) (nef : NefFile) : Prop where
  matching :
    Matches host data →
      verifyChecksum host verifying (some nef) = .ok true ∧
        toBytes saving (some nef) = .ok data
  differing :
    ¬ Matches host data →
      verifyChecksum host verifying (some nef) ≠ .ok true

/-! ## The form of a file -/

theorem FileOf.unique {data : List UInt8} {parts parts' : NefParts}
    {lengthBytes lengthBytes' rest rest' : List UInt8}
    (small : data.length ≤ ptrdiffMax)
    (file : FileOf data parts lengthBytes rest)
    (file' : FileOf data parts' lengthBytes' rest') :
    parts = parts' ∧ lengthBytes = lengthBytes' ∧ rest = rest' := by
  rw [file.eq] at small
  exact
    layout_unique file.fits file.short file.form file'.fits file'.short
      file'.form small (file.eq.symm.trans file'.eq)

namespace FileOf

variable {host : Host} {data : List UInt8} {parts : NefParts}
variable {lengthBytes rest : List UInt8}

/-- What is written for an object that was read is not longer. -/
theorem length_normalize_le (file : FileOf data parts lengthBytes rest) :
    (parts.normalize.layout parts.scriptLength).length ≤ data.length := by
  have source := length_cutString_le parts.source
  have tokens :
      ((parts.tokens.map TokenParts.normalize).map fun token =>
          25 + token.method.length).sum ≤
        (parts.tokens.map fun token => 25 + token.method.length).sum := by
    rw [List.map_map]
    apply List.sum_le_sum
    intro token _
    exact
      Nat.add_le_add_left (TokenParts.length_method_normalize_le token) 25
  have prefixed : parts.scriptLength.length ≤ lengthBytes.length :=
    file.form.length_encode_le
  rw [file.eq, List.length_append, NefParts.length_layout,
    NefParts.length_layout, NefParts.size, NefParts.size]
  change
    105 + (cutString parts.source).length +
          ((parts.tokens.map TokenParts.normalize).map fun token =>
            25 + token.method.length).sum +
        parts.script.length + _ ≤ _
  omega

/-- The file is in the form of the writer exactly if it is written again. -/
theorem canonical_iff (small : data.length ≤ ptrdiffMax)
    (file : FileOf data parts lengthBytes rest) :
    Canonical data ↔
      parts.normalize.layout parts.scriptLength = data := by
  constructor
  · rintro ⟨parts', file', normal⟩
    rcases file.unique small file' with ⟨rfl, rfl, rfl⟩
    rw [normal, file.eq, List.append_nil]
  · intro same
    have written : FileOf data parts.normalize parts.scriptLength [] :=
      ⟨file.fits.normalize,
        (length_cutString_le _).trans_lt file.short,
        form_scriptLength file.fits,
        by rw [List.append_nil, same]⟩
    rcases written.unique small file with ⟨normal, -, -⟩
    refine ⟨parts, ?_, normal⟩
    rw [normal] at written
    exact written

theorem vouched_iff (small : data.length ≤ ptrdiffMax)
    (file : FileOf data parts lengthBytes rest) :
    Vouched host data ↔
      host.doubleDigest (parts.stored.body parts.scriptLength) =
        parts.checksum := by
  constructor
  · rintro ⟨parts', lengthBytes', rest', file', digest⟩
    rcases file.unique small file' with ⟨rfl, -, -⟩
    exact digest.symm
  · intro digest
    exact ⟨parts, lengthBytes, rest, file, digest.symm⟩

end FileOf

/-- In the form of the writer, a file matches exactly if it verifies. -/
theorem Canonical.matches_iff {data : List UInt8} (host : Host)
    (small : data.length ≤ ptrdiffMax) (canonical : Canonical data) :
    Matches host data ↔ Vouched host data := by
  rcases canonical with ⟨parts, file, normal⟩
  have data_eq :
      data = parts.body parts.scriptLength ++ parts.checksum.val := by
    rw [file.eq, List.append_nil]
    rfl
  rw [file.vouched_iff small, NefParts.stored_of_normal normal]
  constructor
  · rintro ⟨contents, same⟩
    rw [data_eq] at same
    rcases List.append_inj' same
        (parts.checksum.property.trans
          (host.doubleDigest contents).property.symm) with
      ⟨rfl, digest⟩
    exact Subtype.ext digest.symm
  · intro digest
    refine ⟨parts.body parts.scriptLength, ?_⟩
    rw [digest]
    exact data_eq

/-! ## Objects that were read -/

section Accepted

variable {host : Host} {verifying saving : Allocator}
variable {data : List UInt8} {parts : NefParts}
variable {lengthBytes rest : List UInt8}

theorem verifies_iff (small : data.length ≤ ptrdiffMax)
    (file : FileOf data parts lengthBytes rest)
    (initialized : host.cryptoInitialized = true)
    (serves : verifying.Serves (max 1024 (2 * data.length))) :
    verifyChecksum host verifying (some parts.toNef) = .ok true ↔
      Vouched host data := by
  have shorter :
      (parts.stored.body parts.scriptLength).length ≤ data.length := by
    have total := file.length_normalize_le
    have body := parts.stored.length_body parts.scriptLength
    rw [NefParts.length_layout] at total body
    change parts.stored.size + _ ≤ _ at total
    omega
  rw [(holds_toNef parts).verifyChecksum_eq file.fits initialized
    (serves.mono (by omega)), file.vouched_iff small]
  constructor
  · intro same
    injection same with digest
    exact of_decide_eq_true digest
  · intro digest
    exact congrArg Except.ok (decide_eq_true digest)

theorem writes_iff (small : data.length ≤ ptrdiffMax)
    (file : FileOf data parts lengthBytes rest)
    (serves : saving.Serves (max 1024 (2 * data.length))) :
    toBytes saving (some parts.toNef) = .ok data ↔ Canonical data := by
  have shorter := file.length_normalize_le
  rw [(holds_toNef parts).toBytes_eq file.fits
    (serves.mono (by omega)), file.canonical_iff small]
  constructor
  · intro same
    injection same
  · exact congrArg Except.ok

end Accepted

/-! ## Two return flags -/

/-- The bytes before the checksum. -/
def flagContents (hasReturn : UInt8) : List UInt8 :=
  (tokenFile hasReturn (Bytes.zero 32)).body
    (tokenFile hasReturn (Bytes.zero 32)).scriptLength

/-- SHA-256 of the contents with flag 1. -/
def oneDigest : Bytes 32 :=
  Bytes.ofNat 32
    0x4DBFA47737B8589390D231D66DAE3374D4B579A295CB7B0ECF768768151159B3

/-- SHA-256 of that. -/
def oneChecksum : Bytes 32 :=
  Bytes.ofNat 32
    0xEAC1AAEFC64B49B2FBA7C42981741F7826A56742F125F78E8B33EFD7269BD267

/-- SHA-256 of the contents with flag 2. -/
def twoDigest : Bytes 32 :=
  Bytes.ofNat 32
    0x33119566BCDAD34D1A08AF22FB72F5558609097FACEFCC9E5A611EF6DC2BC0A5

/-- SHA-256 of that. -/
def twoChecksum : Bytes 32 :=
  Bytes.ofNat 32
    0x2E25792C18759E33200DCC2F2A53DDCB1489D2D7C8F7D6565AA1098EB7513F68

/-- A host that knows these digests. -/
def flagHost : Host :=
  Host.ofTables
    [(flagContents 1, oneDigest), (oneDigest.val, oneChecksum),
      (flagContents 2, twoDigest), (twoDigest.val, twoChecksum)]
    []

theorem fileOf_tokenFileBytes (hasReturn : UInt8) (checksum : Hash256) :
    FileOf (tokenFileBytes hasReturn checksum) (tokenFile hasReturn checksum)
      (tokenFile hasReturn checksum).scriptLength [] :=
  ⟨fits_tokenFile hasReturn checksum, (by decide : 0 < 255),
    form_scriptLength (fits_tokenFile hasReturn checksum),
    (List.append_nil _).symm⟩

theorem tokenFileBytes_serves (hasReturn : UInt8) (checksum : Hash256) :
    Allocator.ample.Serves
      (max 1024 (2 * (tokenFileBytes hasReturn checksum).length)) := by
  rw [length_tokenFileBytes]
  exact Allocator.ample_serves (by decide)

/-! ## Which files are reproduced -/

/--
Reading a file and writing it again does what is expected exactly if the file
is in the form of the writer, or its checksum is right neither for its bytes
nor for what is left of them in the object.
-/
theorem reproduces_iff
    {host : Host} {loading verifying saving : Allocator}
    {data : List UInt8} {nef : NefFile}
    (initialized : host.cryptoInitialized = true)
    (accepted : fromBytes loading (.items data) = .ok nef)
    (verifies : verifying.Serves (max 1024 (2 * data.length)))
    (saves : saving.Serves (max 1024 (2 * data.length))) :
    Reproduces host verifying saving data nef ↔
      Canonical data ∨ ¬ Matches host data ∧ ¬ Vouched host data := by
  rcases of_fromBytes_eq_ok accepted with
    ⟨parts, lengthBytes, rest, same, fits, short, form, -, small, rfl⟩
  injection same with same
  rw [← same] at small
  have file : FileOf data parts lengthBytes rest :=
    ⟨fits, short, form, same⟩
  have verifies_iff := verifies_iff small file initialized verifies
  have writes_iff := writes_iff small file saves
  constructor
  · rintro ⟨matching, differing⟩
    by_cases canonical : Canonical data
    · exact .inl canonical
    -- What is not in the form of the writer is never written again.
    · have different : ¬ Matches host data := fun found =>
        canonical (writes_iff.mp (matching found).2)
      refine .inr ⟨different, ?_⟩
      intro vouched
      exact differing different (verifies_iff.mpr vouched)
  · rintro (canonical | ⟨different, unvouched⟩)
    · have matches_iff := canonical.matches_iff host small
      refine ⟨?_, ?_⟩
      · intro found
        exact
          ⟨verifies_iff.mpr (matches_iff.mp found),
            writes_iff.mpr canonical⟩
      · intro different verified
        exact different (matches_iff.mpr (verifies_iff.mp verified))
    · refine ⟨fun found => absurd found different, ?_⟩
      intro _ verified
      exact unvouched (verifies_iff.mp verified)

theorem reproduces_flag_one :
    Reproduces flagHost .ample .ample
      (tokenFileBytes 1 oneChecksum) (tokenFile 1 oneChecksum).toNef := by
  have serves := tokenFileBytes_serves 1 oneChecksum
  refine
    (reproduces_iff rfl (fromBytes_tokenFile 1 oneChecksum) serves
      serves).mpr (.inl ?_)
  refine
    ⟨tokenFile 1 oneChecksum, fileOf_tokenFileBytes 1 oneChecksum, ?_⟩
  rw [NefParts.normalize_eq_iff]
  decide

/-- The flag 2 is written as 1, though the checksum is right. -/
theorem flag_two_changes :
    ¬ ∀ (host : Host) (loading verifying saving : Allocator)
        (data : List UInt8) (nef : NefFile),
        host.cryptoInitialized = true →
          fromBytes loading (.items data) = .ok nef →
          verifying.Serves (max 1024 (2 * data.length)) →
          saving.Serves (max 1024 (2 * data.length)) →
            Reproduces host verifying saving data nef := by
  intro always
  have serves := tokenFileBytes_serves 2 twoChecksum
  have small : (tokenFileBytes 2 twoChecksum).length ≤ ptrdiffMax := by
    rw [length_tokenFileBytes]
    decide
  have file := fileOf_tokenFileBytes 2 twoChecksum
  have right : Matches flagHost (tokenFileBytes 2 twoChecksum) := by
    refine ⟨flagContents 2, ?_⟩
    have digest : flagHost.doubleDigest (flagContents 2) = twoChecksum := by
      decide +kernel
    rw [digest]
    rfl
  have written :=
    (always flagHost _ _ _ _ _ rfl (fromBytes_tokenFile 2 twoChecksum)
      serves serves).matching right
  rcases (writes_iff small file serves).mp written.2 with
    ⟨parts, file', normal⟩
  rcases file.unique small file' with ⟨rfl, -, -⟩
  have tokens := (NefParts.normalize_eq_iff.mp normal).2.2
  exact absurd tokens (by decide)

end NefFile

end NeoC
