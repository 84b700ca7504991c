import NeoC.Wallet.Identity

/-!
# The script hash of several keys

Four functions derive the script hash of a multi-signature account.  Two of
them sort the keys and two do not; two of them keep the threshold in eight
bits, and one of these the number of keys as well.  The account that is made
from public keys goes through the eight bit functions, although it admits
1024 keys.
-/

namespace NeoC

open Foundation NeoVm

namespace VerificationScript

variable {curve : Curve} {host : Host} {alloc : Allocator}

/-! ## The scripts -/

theorem encodeKeys_eq_ok {publicKeys : List (EcPublicKey curve)}
    {entries : List (List UInt8)}
    (encoded : encodeKeys alloc (publicKeys.map some) = .ok entries) :
    entries = MultiSig.encodings publicKeys := by
  cases granted : alloc.grants 33 with
  | true =>
      rw [encodeKeys_map granted] at encoded
      injection encoded with same
      exact same.symm
  | false =>
      cases publicKeys with
      | nil =>
          injection encoded with same
          exact same.symm
      | cons publicKey rest =>
          rw [encodeKeys_map_refused granted (List.cons_ne_nil _ _)]
            at encoded
          cases encoded

/-- The script of `neoc_verification_script_create_multi_sig`. -/
theorem createMultiSig_eq_ok {publicKeys : List (EcPublicKey curve)}
    {signingThreshold : Int32} {verificationScript : VerificationScript}
    (created :
      createMultiSig host alloc (.items (publicKeys.map some))
          signingThreshold =
        .ok verificationScript) :
    verificationScript.script =
      .items
        (assemble
          (multiSigProgram host
            (sortEntries (MultiSig.encodings publicKeys))
            signingThreshold.toInt)) := by
  rw [createMultiSig] at created
  split at created
  · cases created
  split at created
  · cases created
  rename_i few
  split at created
  · cases created
  rcases Except.bind_eq_ok_iff.mp created with ⟨entries, encoded, rest⟩
  rcases Except.bind_eq_ok_iff.mp rest with ⟨script, built, allocated⟩
  have encodings := encodeKeys_eq_ok encoded
  subst encodings
  have length :
      (sortEntries (MultiSig.encodings publicKeys)).length =
        publicKeys.length := by
    rw [sortEntries, List.length_mergeSort, MultiSig.encodings,
      List.length_map]
  have exact :
      ∀ entry ∈ sortEntries (MultiSig.encodings publicKeys),
        entry.length = 33 := by
    intro entry member
    exact
      MultiSig.encodings_length publicKeys entry
        (List.mem_mergeSort.mp member)
  have assembled :=
    @pushMultiSig_assembles alloc host _ exact
      (by simpa [length, Slice.len] using few) signingThreshold
  have bytes := ScriptBuilder.build_eq_ok assembled.appends built
  rw [allocate] at allocated
  split at allocated
  · cases allocated
  split at allocated
  · rename_i none
    rw [bytes, assemble_multiSigProgram] at none
    simp at none
  split at allocated
  · cases allocated
  · injection allocated with same
    rw [← same, bytes]

theorem sortEntries_eq_self_iff {entries : List (List UInt8)} :
    sortEntries entries = entries ↔
      entries.Pairwise fun left right =>
        (compare left right).isLE = true := by
  constructor
  · intro same
    rw [← same]
    exact sortEntries_pairwise entries
  · intro sorted
    rw [sortEntries_eq]
    exact List.mergeSort_of_pairwise sorted

/-- As many keys with the same bytes are the same keys. -/
theorem keyBytes_injective {left right : List (List UInt8)}
    (exactLeft : ∀ entry ∈ left, entry.length = 33)
    (exactRight : ∀ entry ∈ right, entry.length = 33)
    (sameLength : left.length = right.length)
    (sameBytes : keyBytes left = keyBytes right) :
    left = right := by
  induction left generalizing right with
  | nil =>
      symm
      exact List.length_eq_zero_iff.mp sameLength.symm
  | cons entry rest induction =>
      cases right with
      | nil => cases sameLength
      | cons entry' rest' =>
          rcases List.forall_mem_cons.mp exactLeft with ⟨first, others⟩
          rcases List.forall_mem_cons.mp exactRight with ⟨first', others'⟩
          rw [keyBytes_cons rest first, keyBytes_cons rest' first']
            at sameBytes
          injection sameBytes with _ sameBytes
          injection sameBytes with _ sameBytes
          rcases List.append_inj sameBytes (first.trans first'.symm) with
            ⟨same, later⟩
          rw [same,
            induction others others' (Nat.succ.inj sameLength) later]

/-- The script determines the keys, given their number and the threshold. -/
theorem multiSigProgram_injective {left right : List (List UInt8)}
    {threshold : Int}
    (exactLeft : ∀ entry ∈ left, entry.length = 33)
    (exactRight : ∀ entry ∈ right, entry.length = 33)
    (sameLength : left.length = right.length)
    (sameScript :
      assemble (multiSigProgram host left threshold) =
        assemble (multiSigProgram host right threshold)) :
    left = right := by
  rw [assemble_multiSigProgram, assemble_multiSigProgram, sameLength]
    at sameScript
  have keys := List.append_cancel_left sameScript
  exact
    keyBytes_injective exactLeft exactRight sameLength
      (List.append_cancel_right keys)

/-- The script of few keys is shorter than that of many. -/
theorem length_multiSigProgram_lt {few many : List (List UInt8)}
    {threshold threshold' : Int}
    (exactFew : ∀ entry ∈ few, entry.length = 33)
    (exactMany : ∀ entry ∈ many, entry.length = 33)
    (positive : 1 ≤ threshold ∧ 1 ≤ threshold')
    (enough : threshold ≤ few.length ∧ threshold' ≤ many.length)
    (fewer : few.length < many.length)
    (bounded : many.length ≤ 1024) :
    (assemble (multiSigProgram host few threshold)).length <
      (assemble (multiSigProgram host many threshold')).length := by
  have first :=
    @encode_pushInt_bounds threshold positive.1 (by omega)
  have first' :=
    @encode_pushInt_bounds threshold' positive.2 (by omega)
  have last := @encode_pushInt_bounds few.length (by omega) (by omega)
  have last' := @encode_pushInt_bounds many.length (by omega) (by omega)
  rw [assemble_multiSigProgram, assemble_multiSigProgram]
  simp only [List.length_append, length_keyBytes exactFew,
    length_keyBytes exactMany, List.length_cons,
    LittleEndian.length_toBytes]
  omega

end VerificationScript

/-! ## Four script hashes -/

section Hashes

variable {curve : Curve} {host : Host} {keys : List (EcPublicKey curve)}
  {threshold : Nat}

/-- The compressed forms of the keys, as arrays. -/
def compressedKeys (keys : List (EcPublicKey curve)) : List (Bytes 33) :=
  keys.map EcPublicKey.compressed

/-- The program of a list of entries. -/
abbrev scriptOf (host : Host) (entries : List (List UInt8))
    (threshold : Nat) : List UInt8 :=
  assemble (VerificationScript.multiSigProgram host entries threshold)

theorem compressedKeys_val (keys : List (EcPublicKey curve)) :
    (compressedKeys keys).map (fun key => (.items key.val : Buffer)) =
      (MultiSig.encodings keys).map Slice.items := by
  rw [compressedKeys, MultiSig.encodings, List.map_map, List.map_map]
  rfl

theorem Hash160.fromPublicKeys_eq_ok {alloc : Allocator} {hash : Hash160}
    (hashed :
      fromPublicKeys host alloc (.items (compressedKeys keys)) threshold =
        .ok hash) :
    hash =
      (host.scriptDigest
        (scriptOf host (MultiSig.encodings keys)
          (UInt8.ofNat threshold).toNat)).reverse := by
  rw [fromPublicKeys] at hashed
  split at hashed
  · cases hashed
  split at hashed
  · cases hashed
  rcases Except.bind_eq_ok_iff.mp hashed with ⟨script, built, digested⟩
  rw [compressedKeys_val] at built
  rw [fromScript_eq_ok digested,
    (ScriptHelper.createMultiSigVerificationInternal_eq_ok
      (MultiSig.encodings_length keys) built).1]

theorem Bytes.reverse_injective {size : Nat} {left right : Bytes size}
    (equal : left.reverse = right.reverse) :
    left = right :=
  Subtype.ext (List.reverse_injective (congrArg Subtype.val equal))

theorem toNat_ofNat_of_le {number : Nat} (small : number ≤ 255) :
    (UInt8.ofNat number).toNat = number := by
  rw [UInt8.toNat_ofNat', Nat.mod_eq_of_lt (by omega)]

theorem toNat_ofNat_lt_of_gt {number : Nat} (large : 255 < number) :
    (UInt8.ofNat number).toNat < number := by
  have bounded := (UInt8.ofNat number).toNat_lt
  omega

theorem sortEntries_length (keys : List (EcPublicKey curve)) :
    ∀ entry ∈ VerificationScript.sortEntries (MultiSig.encodings keys),
      entry.length = 33 := by
  intro entry member
  exact
    MultiSig.encodings_length keys entry (List.mem_mergeSort.mp member)

theorem length_sortEntries (keys : List (EcPublicKey curve)) :
    (VerificationScript.sortEntries (MultiSig.encodings keys)).length =
      keys.length := by
  rw [VerificationScript.sortEntries, List.length_mergeSort,
    MultiSig.encodings, List.length_map]

/-- At most 255 keys in the order of their compressed forms. -/
def FewAndSorted (keys : List (EcPublicKey curve)) : Prop :=
  keys.length ≤ 255 ∧
    (MultiSig.encodings keys).Pairwise fun left right =>
      (compare left right).isLE = true

/-- No two of these scripts have the same digest. -/
def CollisionFree (host : Host) (scripts : List (List UInt8)) : Prop :=
  ∀ left ∈ scripts, ∀ right ∈ scripts,
    host.scriptDigest left = host.scriptDigest right → left = right

/-- More than 255 keys would not be in the script of the account. -/
theorem length_le_of_account_script {alloc : Allocator}
    {account : MultiSigAccount curve} (positive : 1 ≤ threshold)
    (enough : threshold ≤ keys.length) (few : keys.length ≤ 1024)
    (byAccount :
      MultiSig.create host alloc (UInt8.ofNat threshold)
          (.items (keys.map some)) (UInt8.ofNat keys.length) =
        .ok account)
    (whole :
      account.verificationScript =
        scriptOf host
          (VerificationScript.sortEntries (MultiSig.encodings keys))
          threshold) :
    keys.length ≤ 255 := by
  have created := MultiSig.create_eq_ok byAccount
  by_contra many
  have cut := toNat_ofNat_lt_of_gt (Nat.lt_of_not_le many)
  have short :
      (VerificationScript.sortEntries
        (MultiSig.encodings
          (keys.take (UInt8.ofNat keys.length).toNat))).length =
        (UInt8.ofNat keys.length).toNat := by
    rw [length_sortEntries, List.length_take]
    omega
  have shorter :=
    @VerificationScript.length_multiSigProgram_lt host
      _ _ (UInt8.ofNat threshold).toNat threshold
      (sortEntries_length (keys.take (UInt8.ofNat keys.length).toNat))
      (sortEntries_length keys)
      ⟨by exact_mod_cast created.positive, by exact_mod_cast positive⟩
      ⟨by rw [short]; exact_mod_cast created.enough,
        by rw [length_sortEntries]; exact_mod_cast enough⟩
      (by rw [short, length_sortEntries]; exact cut)
      (by rw [length_sortEntries]; exact few)
  rw [created.script_eq] at whole
  rw [whole] at shorter
  exact lt_irrefl _ shorter

/--
The four derivations agree on a list of keys that the caller has sorted and
that has at most 255 keys.  On other lists they agree only by a collision.
-/
theorem multiSig_hashes_agree
    {alloc₁ alloc₂ alloc₃ alloc₄ : Allocator}
    {keysHash scriptHash helperHash : Hash160}
    {account : MultiSigAccount curve}
    {verificationScript : VerificationScript}
    {helperScript : List UInt8}
    (positive : 1 ≤ threshold)
    (enough : threshold ≤ keys.length)
    (few : keys.length ≤ 1024)
    (byKeys :
      Hash160.fromPublicKeys host alloc₁ (.items (compressedKeys keys))
          threshold =
        .ok keysHash)
    (byAccount :
      MultiSig.create host alloc₂ (UInt8.ofNat threshold)
          (.items (keys.map some)) (UInt8.ofNat keys.length) =
        .ok account)
    (byScript :
      VerificationScript.createMultiSig host alloc₃
          (.items (keys.map some)) (Int32.ofNat threshold) =
        .ok verificationScript)
    (scriptHashed :
      Hash160.fromScript host verificationScript.script.content =
        .ok scriptHash)
    (byHelper :
      ScriptHelper.createMultiSigVerification host alloc₄
          (.items
            ((compressedKeys keys).map fun key => .items key.val))
          threshold =
        .ok helperScript)
    (helperHashed :
      Hash160.fromScript host helperScript = .ok helperHash) :
    (FewAndSorted keys →
        keysHash = scriptHash ∧
          account.scriptHash = scriptHash ∧
          helperHash = scriptHash) ∧
      (CollisionFree host
          [account.verificationScript, verificationScript.script.content,
            helperScript] →
        keysHash = scriptHash ∧
            account.scriptHash = scriptHash ∧
            helperHash = scriptHash →
          FewAndSorted keys) := by
  have created := MultiSig.create_eq_ok byAccount
  have integer : (Int32.ofNat threshold).toInt = threshold :=
    Int32.toInt_ofNat_of_lt (by omega)
  have sorted :
      verificationScript.script.content =
        scriptOf host
          (VerificationScript.sortEntries (MultiSig.encodings keys))
          threshold := by
    rw [VerificationScript.createMultiSig_eq_ok byScript, integer]
    rfl
  rw [compressedKeys_val] at byHelper
  have unsorted :=
    (ScriptHelper.createMultiSigVerificationInternal_eq_ok
      (MultiSig.encodings_length keys) byHelper).1
  have keysDigest := Hash160.fromPublicKeys_eq_ok byKeys
  have accountDigest := Hash160.fromScript_eq_ok created.hashed
  have scriptDigest := Hash160.fromScript_eq_ok scriptHashed
  have helperDigest := Hash160.fromScript_eq_ok helperHashed
  constructor
  · rintro ⟨small, ordered⟩
    have entries := VerificationScript.sortEntries_eq_self_iff.mpr ordered
    have whole := created.script_eq
    rw [toNat_ofNat_of_le small, List.take_length,
      toNat_ofNat_of_le (by omega)] at whole
    rw [toNat_ofNat_of_le (by omega)] at keysDigest
    refine ⟨?_, ?_, ?_⟩
    · rw [keysDigest, scriptDigest, sorted, entries]
    · rw [accountDigest, scriptDigest, whole, sorted]
    · rw [helperDigest, scriptDigest, unsorted, sorted, entries]
  · rintro collisionFree ⟨-, fromAccount, fromHelper⟩
    have accountScript :
        account.verificationScript = verificationScript.script.content := by
      apply collisionFree _ (by simp) _ (by simp)
      rw [accountDigest, scriptDigest] at fromAccount
      exact Bytes.reverse_injective fromAccount
    have helper : helperScript = verificationScript.script.content := by
      apply collisionFree _ (by simp) _ (by simp)
      rw [helperDigest, scriptDigest] at fromHelper
      exact Bytes.reverse_injective fromHelper
    constructor
    · rw [sorted] at accountScript
      exact
        length_le_of_account_script positive enough few byAccount
          accountScript
    · rw [unsorted, sorted] at helper
      have entries :=
        VerificationScript.multiSigProgram_injective
          (MultiSig.encodings_length keys) (sortEntries_length keys)
          (by rw [length_sortEntries, MultiSig.encodings, List.length_map])
          helper
      exact VerificationScript.sortEntries_eq_self_iff.mp entries.symm

end Hashes

/-! ## Scripts of the base point and its inverse -/

/-- The script of one signature of the base point. -/
def oneKeyScript : List UInt8 :=
  [0x11, 0x0C, 0x21] ++ basePointCompressed ++
    [0x11, 0x41, 0x9E, 0xD0, 0xDC, 0x3A]

/-- The script of one signature, with the base point listed first. -/
def descendingScript : List UInt8 :=
  [0x11, 0x0C, 0x21] ++ basePointCompressed ++
    [0x0C, 0x21, 0x02] ++ basePointCompressed.drop 1 ++
    [0x12, 0x41, 0x9E, 0xD0, 0xDC, 0x3A]

/-- The script of one signature, with the base point listed second. -/
def ascendingScript : List UInt8 :=
  [0x11, 0x0C, 0x21, 0x02] ++ basePointCompressed.drop 1 ++
    [0x0C, 0x21] ++ basePointCompressed ++
    [0x12, 0x41, 0x9E, 0xD0, 0xDC, 0x3A]

/-- SHA-256 and RIPEMD-160 of these scripts. -/
def multiSigDigests : List (List UInt8 × Bytes 32 × Bytes 20) :=
  [
    (oneKeyScript,
      Bytes.ofNat 32
        0x20996117C924B80C744E7B0AB0C89F3B182FD204D3968D6466AEA8E3DD131D7E,
      Bytes.ofNat 20 0x5F3B79206526EF9504843E42D9DBAFAB1128C663),
    (descendingScript,
      Bytes.ofNat 32
        0x1B0DDE34CE1F57A64F3F0ED22C07AC0FF73990907FC3D66CDABFE411FAE3C79B,
      Bytes.ofNat 20 0xEAEB8C159067C8127C76AFEF20186900F5AEEBF4),
    (ascendingScript,
      Bytes.ofNat 32
        0xE473526A7D2F3777FA769B5AB02019318089EEABF6E7E14F6D3E4D6B3E7621E7,
      Bytes.ofNat 20 0x6682E14DC2310DDEE3CC50DA09B971C089796EEE)
  ]

/-- SHA-256, once and twice, of the addresses of the first and the last. -/
def multiSigAddressDigests : List (List UInt8 × Bytes 32) :=
  Host.twiceDigests
    (Bytes.ofNat 21 0x355F3B79206526EF9504843E42D9DBAFAB1128C663).val
    0x645EAD81C13173E241C191728F79CC8A327697E09713A733AC2F3BC0E451C251
    0xEC84BB35D583F7E53B259AECBB0C0E3792EF2ABC26CE450DFACB2A7FFC48EA19 ++
  Host.twiceDigests
    (Bytes.ofNat 21 0x356682E14DC2310DDEE3CC50DA09B971C089796EEE).val
    0xDFDA4CC8E02526AFF15FC2EDDF68371BB3BD8A13AB9E5D76AFBE040025275466
    0x384B36268D33AE041BFE474972AA00D9F94A6A5A0250EB1523670B4391A961E2

/-- A host that knows the digests of these scripts. -/
def multiSigHost : Host :=
  Host.ofTables
    (serviceDigests ++
      multiSigDigests.map (fun entry => (entry.1, entry.2.1)) ++
      multiSigAddressDigests)
    (multiSigDigests.map fun entry => (entry.2.1.val, entry.2.2))

/-- The script of both keys, in whatever order they are given. -/
theorem createMultiSig_basePoints
    {keys : List (EcPublicKey Curve.basePoints)}
    (perm : keys.Perm [inverseKey, baseKey]) :
    VerificationScript.createMultiSig multiSigHost .ample
        (.items (keys.map some)) 1 =
      .ok { script := .items ascendingScript } := by
  have created :=
    @VerificationScript.createMultiSig_eq Curve.basePoints multiSigHost
      .ample [inverseKey, baseKey] 1 (List.cons_ne_nil _ _)
      (by decide) (by decide) (by decide)
      (Allocator.ample_serves (by decide))
  rw [← VerificationScript.sortEntries_map, ← MultiSig.encodings,
    VerificationScript.sortEntries_eq_self_iff.mpr (by decide)] at created
  rw [VerificationScript.createMultiSig_perm multiSigHost .ample
    perm, created]
  decide +kernel

/-- The hash of the keys depends on their order, that of the script does not. -/
theorem descending_keys_two_hashes :
    ∃ keysHash verificationScript scriptHash,
      Hash160.fromPublicKeys multiSigHost .ample
            (.items (compressedKeys [baseKey, inverseKey])) 1 =
          .ok keysHash ∧
        VerificationScript.createMultiSig multiSigHost .ample
            (.items ([baseKey, inverseKey].map some)) 1 =
          .ok verificationScript ∧
        Hash160.fromScript multiSigHost verificationScript.script.content =
          .ok scriptHash ∧
        keysHash ≠ scriptHash := by
  refine
    ⟨(multiSigHost.scriptDigest descendingScript).reverse,
      { script := .items ascendingScript },
      (multiSigHost.scriptDigest ascendingScript).reverse, ?_,
      createMultiSig_basePoints (List.Perm.swap _ _ _), ?_, ?_⟩
  · decide +kernel
  · decide +kernel
  · decide +kernel

/-- Two keys that are in order stay where they are. -/
theorem sortPublicKeys_ascending :
    MultiSig.sortPublicKeys .ample
        (([inverseKey, baseKey].map some).take (2 : UInt8).toNat) =
      .ok ([inverseKey, baseKey].map some) := by
  rw [MultiSig.sortPublicKeys, if_neg (by decide)]
  exact congrArg Except.ok (List.mergeSort_of_pairwise (by decide))

/-- Two keys that are in order have the same four hashes. -/
theorem multiSig_hashes_agree_basePoints :
    ∃ account : MultiSigAccount Curve.basePoints,
      MultiSig.create multiSigHost .ample 1
            (.items ([inverseKey, baseKey].map some)) 2 =
          .ok account ∧
        Hash160.fromPublicKeys multiSigHost .ample
            (.items (compressedKeys [inverseKey, baseKey])) 1 =
          .ok (multiSigHost.scriptDigest ascendingScript).reverse ∧
        FewAndSorted [inverseKey, baseKey] ∧
        account.scriptHash =
          (multiSigHost.scriptDigest ascendingScript).reverse := by
  have made :
      (MultiSig.create multiSigHost .ample 1
        (.items ([inverseKey, baseKey].map some)) 2).toBool = true := by
    simp only [MultiSig.create, sortPublicKeys_ascending]
    decide +kernel
  have byKeys :
      Hash160.fromPublicKeys multiSigHost .ample
          (.items (compressedKeys [inverseKey, baseKey])) 1 =
        .ok (multiSigHost.scriptDigest ascendingScript).reverse := by
    decide +kernel
  rcases exists_of_toBool made with ⟨account, byAccount⟩
  have sorted : FewAndSorted [inverseKey, baseKey] :=
    ⟨by decide, by decide⟩
  have agree :=
    @multiSig_hashes_agree Curve.basePoints multiSigHost
      [inverseKey, baseKey] 1 .ample .ample .ample .ample _
      (multiSigHost.scriptDigest ascendingScript).reverse
      (multiSigHost.scriptDigest ascendingScript).reverse account
      { script := .items ascendingScript } ascendingScript
      (by decide) (by decide) (by decide) byKeys byAccount
      (createMultiSig_basePoints (List.Perm.refl _)) (by decide +kernel)
      (by decide +kernel) (by decide +kernel)
  exact ⟨account, byAccount, byKeys, sorted, (agree.1 sorted).2.1⟩

/-! ## Accounts of several keys -/

section Accounts

variable {curve : Curve} {host : Host} {alloc : Allocator}
  {keys : List (EcPublicKey curve)} {threshold : Nat}
  {account : WalletAccount curve}

/-- The account that a list of keys and a threshold ask for. -/
structure IsMultisigOf (host : Host) (keys : List (EcPublicKey curve))
    (threshold : Nat) (account : WalletAccount curve) : Prop where
  threshold_eq : account.getSigningThreshold = .ok (Int32.ofNat threshold)
  participants_eq :
    account.getNrParticipants = .ok (Int32.ofNat keys.length)
  scriptHash_eq :
    ∀ alloc verificationScript,
      VerificationScript.createMultiSig host alloc
            (.items (keys.map some)) (Int32.ofNat threshold) =
          .ok verificationScript →
        Hash160.fromScript host verificationScript.script.content =
          .ok account.scriptHash
  script_eq :
    ∀ alloc alloc' verificationScript,
      VerificationScript.createMultiSig host alloc
            (.items (keys.map some)) (Int32.ofNat threshold) =
          .ok verificationScript →
        alloc'.Serves verificationScript.script.len →
          account.getVerificationScript host alloc' =
            .ok verificationScript.script.content
  address_eq :
    ∃ address,
      account.address = some address ∧
        ∀ alloc bufferSize text,
          account.scriptHash.toAddress host alloc bufferSize = .ok text →
            text = address

/-- What the account keeps of the multi-signature struct. -/
theorem WalletAccount.createMultisigFromPublicKeys_eq_ok
    (created :
      createMultisigFromPublicKeys host alloc (.items (keys.map some))
          (Int32.ofNat threshold) =
        .ok account) :
    ∃ multisig address,
      MultiSig.Created host (UInt8.ofNat threshold) keys
          (UInt8.ofNat keys.length) multisig ∧
        account.extra = some (.multisig multisig) ∧
        account.verificationScript = .null 0 ∧
        account.scriptHash = multisig.scriptHash ∧
        account.address = some address ∧
        multisig.scriptHash.toAddress host alloc addressLength =
          .ok address := by
  have cast :
      (Int32.ofNat threshold).toUInt32.toUInt8 = UInt8.ofNat threshold :=
    UInt32.toUInt8_ofNat' threshold
  rw [createMultisigFromPublicKeys] at created
  split at created
  · cases created
  split at created
  · cases created
  split at created
  · cases created
  rcases Except.bind_eq_ok_iff.mp created with ⟨multisig, made, rest⟩
  split at rest
  · cases rest
  rcases Except.bind_eq_ok_iff.mp rest with ⟨address, addressed, rest⟩
  rcases Except.bind_eq_ok_iff.mp rest with ⟨label, -, rest⟩
  injection rest with same
  subst same
  rw [cast, List.length_map] at made
  exact
    ⟨multisig, address, MultiSig.create_eq_ok made, rfl, rfl, rfl, rfl,
      makeAddress_eq_ok addressed⟩

section Stored

variable {multisig : MultiSigAccount curve} {small count : UInt8}
  (made : MultiSig.Created host small keys count multisig)
  (stored : account.extra = some (.multisig multisig))

include made stored

theorem isMultisigInternal_of_created :
    account.isMultisigInternal = true := by
  have positive := made.positive
  have enough := made.enough
  rw [WalletAccount.isMultisigInternal, stored]
  apply decide_eq_true
  rw [made.threshold_eq, made.count_eq]
  refine ⟨?_, ?_, ?_⟩
  · exact UInt8.lt_iff_toNat_lt.mpr positive
  · exact UInt8.le_iff_toNat_le.mpr enough
  · exact UInt8.le_iff_toNat_le.mpr (positive.trans enough)

theorem getSigningThreshold_of_created :
    account.getSigningThreshold = .ok (Int32.ofNat small.toNat) := by
  have positive := made.positive
  have enough := made.enough
  rw [WalletAccount.getSigningThreshold,
    isMultisigInternal_of_created made stored, if_neg (by decide), stored]
  dsimp only
  rw [made.threshold_eq, made.count_eq, if_pos]
  exact
    ⟨UInt8.lt_iff_toNat_lt.mpr positive,
      UInt8.le_iff_toNat_le.mpr enough⟩

theorem getNrParticipants_of_created :
    account.getNrParticipants = .ok (Int32.ofNat count.toNat) := by
  have positive := made.positive
  have enough := made.enough
  rw [WalletAccount.getNrParticipants,
    isMultisigInternal_of_created made stored, if_neg (by decide), stored]
  dsimp only
  rw [made.count_eq, if_pos]
  exact UInt8.lt_iff_toNat_lt.mpr (Nat.lt_of_lt_of_le positive enough)

end Stored

/--
The account that is made from public keys is the one they ask for exactly
when there are at most 255 of them.
-/
theorem createMultisigFromPublicKeys_isMultisigOf_iff
    (enough : threshold ≤ keys.length)
    (few : keys.length ≤ 1024)
    (created :
      WalletAccount.createMultisigFromPublicKeys host alloc
          (.items (keys.map some)) (Int32.ofNat threshold) =
        .ok account) :
    IsMultisigOf host keys threshold account ↔ keys.length ≤ 255 := by
  rcases WalletAccount.createMultisigFromPublicKeys_eq_ok created with
    ⟨multisig, address, made, stored, uncached, hash, text, addressed⟩
  have participants := getNrParticipants_of_created made stored
  constructor
  · intro isMultisig
    by_contra many
    have cut := toNat_ofNat_lt_of_gt (Nat.lt_of_not_le many)
    rw [isMultisig.participants_eq] at participants
    injection participants with same
    have numbers := congrArg Int32.toInt same
    rw [Int32.toInt_ofNat_of_lt (by omega),
      Int32.toInt_ofNat_of_lt (by omega)] at numbers
    omega
  · intro small
    have whole := made.script_eq
    rw [toNat_ofNat_of_le small, List.take_length,
      toNat_ofNat_of_le (by omega)] at whole
    have built {alloc : Allocator} {verificationScript : VerificationScript}
        (scripted :
          VerificationScript.createMultiSig host alloc
              (.items (keys.map some)) (Int32.ofNat threshold) =
            .ok verificationScript) :
        verificationScript.script = .items multisig.verificationScript := by
      rw [VerificationScript.createMultiSig_eq_ok scripted, whole,
        Int32.toInt_ofNat_of_lt (by omega)]
    refine ⟨?_, ?_, ?_, ?_, address, text, ?_⟩
    · rw [getSigningThreshold_of_created made stored,
        toNat_ofNat_of_le (by omega)]
    · rw [participants, toNat_ofNat_of_le small]
    · intro alloc verificationScript scripted
      rw [built scripted, hash]
      exact made.hashed
    · intro alloc alloc' verificationScript scripted serves
      rw [built scripted] at serves ⊢
      have some : 0 < multisig.verificationScript.length := by
        rw [whole, VerificationScript.assemble_multiSigProgram]
        simp
      have granted := serves.neocGrants some le_rfl
      rw [WalletAccount.getVerificationScript, uncached]
      dsimp only
      rw [WalletAccount.makeVerificationScript, stored]
      dsimp only
      rw [if_neg (by simp [granted])]
      rfl
    · intro alloc bufferSize text' converted
      rw [hash] at converted
      exact Hash160.toAddress_unique converted addressed

end Accounts

/-- Of 257 keys one is left. -/
theorem many_keys_one_participant :
    ∃ account : WalletAccount Curve.basePoints,
      WalletAccount.createMultisigFromPublicKeys multiSigHost
            .ample
            (.items ((List.replicate 257 baseKey).map some)) 1 =
          .ok account ∧
        account.getNrParticipants = .ok 1 ∧
        ¬ IsMultisigOf multiSigHost (List.replicate 257 baseKey) 1
          account := by
  have made :
      (WalletAccount.createMultisigFromPublicKeys multiSigHost
        .ample
        (.items ((List.replicate 257 baseKey).map some)) 1).toBool =
        true := by
    decide +kernel
  rcases exists_of_toBool made with ⟨account, created⟩
  rcases WalletAccount.createMultisigFromPublicKeys_eq_ok created with
    ⟨multisig, address, kept, stored, -⟩
  have participants := getNrParticipants_of_created kept stored
  rw [List.length_replicate] at participants
  refine ⟨account, created, participants, ?_⟩
  intro isMultisig
  have wrong := isMultisig.participants_eq
  rw [participants, List.length_replicate] at wrong
  revert wrong
  decide

theorem createMultisigFromPublicKeys_isMultisigOf_basePoints :
    ∃ account : WalletAccount Curve.basePoints,
      WalletAccount.createMultisigFromPublicKeys multiSigHost
            .ample (.items ([inverseKey, baseKey].map some)) 1 =
          .ok account ∧
        IsMultisigOf multiSigHost [inverseKey, baseKey] 1 account := by
  have made :
      (WalletAccount.createMultisigFromPublicKeys multiSigHost
        .ample
        (.items ([inverseKey, baseKey].map some)) 1).toBool = true := by
    rw [WalletAccount.createMultisigFromPublicKeys]
    rw [if_neg (by decide), if_neg (by decide), if_neg (by decide)]
    change
      (MultiSig.create multiSigHost .ample 1
          (.items ([inverseKey, baseKey].map some)) 2 >>= _).toBool = true
    simp only [MultiSig.create, sortPublicKeys_ascending]
    decide +kernel
  rcases exists_of_toBool made with ⟨account, created⟩
  refine ⟨account, created, ?_⟩
  exact
    (createMultisigFromPublicKeys_isMultisigOf_iff (by decide) (by decide)
      created).mpr (by decide)

end NeoC
