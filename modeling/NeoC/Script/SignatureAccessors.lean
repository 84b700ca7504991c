import NeoC.Script.MultiSigGrammar

/-!
# The accessors of a verification script

`neoc_verification_script_get_public_keys` asks first whether the script is a
signature script.  `neoc_verification_script_get_signing_threshold` does not:
behind the test for a single signature it takes the first push of the script
for the threshold, whatever follows.  So the two succeed on different scripts,
and `ThresholdFirst` is what only the second one looks at.
-/

namespace NeoC

open Foundation NeoVm

namespace VerificationScript

variable {curve : Curve} {host : Host} {alloc : Allocator}
  {script : List UInt8} {threshold count : Nat}

theorem MultiSigForm.not_singleSig
    (form : MultiSigForm host script threshold count) :
    isSingleSig host { script := .items script } = false := by
  have long := form.long
  have different : Slice.len (.items script) ≠ 40 := by
    change script.length ≠ 40
    omega
  rw [isSingleSig, if_pos different]

/-- The threshold that is reported for a form of the grammar. -/
theorem MultiSigForm.getSigningThreshold_eq
    (form : MultiSigForm host script threshold count) :
    getSigningThreshold host { script := .items script } =
      .ok (Int32.ofNat threshold) := by
  have positive := form.positive
  have enough := form.enough
  have few := form.few
  rcases form.walk with ⟨offset, parsed, -, -⟩
  rw [getSigningThreshold, form.not_singleSig, if_neg (by decide), parsed]
  simp only [bind, Except.bind]
  rw [if_neg (by simp only [maxPublicKeysPerMultisigAccount]; omega),
    Int32.ofInt_eq_ofNat]

theorem MultiSigForm.countKeys_eq
    (form : MultiSigForm host script threshold count) :
    ∃ offset,
      parsePushInt (.items script) 0 = .ok ((threshold : Int), offset) ∧
        countKeys script offset = count := by
  rcases form.walk with ⟨offset, parsed, scanned, -⟩
  refine ⟨offset, parsed, ?_⟩
  rcases form with
    ⟨⟨first, keys, last, ofThreshold, rfl, ofCount, rfl⟩, positive, -, -⟩
  rcases ofCount.head_ne with ⟨opcode, rest, shape, different⟩
  have parsed' :=
    parsePushInt_push []
      (keyBlocks keys ++ (last ++ checkMultisigCall host)) ofThreshold
  rw [List.nil_append, List.length_nil, parsed] at parsed'
  injection parsed' with same
  injection same with _ sameOffset
  have exact : ∀ entry ∈ keys.map Subtype.val, entry.length = 33 := by
    intro entry member
    rcases List.mem_map.mp member with ⟨key, -, rfl⟩
    exact key.property
  have counted :=
    countKeys_keyBytes exact different first
      (rest ++ checkMultisigCall host)
  rw [keyBytes_map, ← List.cons_append, ← shape, List.length_map]
    at counted
  rw [sameOffset, Nat.zero_add]
  exact counted

theorem length_readKeys {offset : Nat}
    {publicKeys : List (EcPublicKey curve)}
    (read : readKeys curve alloc script count offset = .ok publicKeys) :
    publicKeys.length = count := by
  induction count generalizing offset publicKeys with
  | zero =>
      injection read with same
      rw [← same]
      rfl
  | succ count induction =>
      rw [readKeys] at read
      split at read
      · cases read
      rcases Except.bind_eq_ok_iff.mp read with ⟨publicKey, -, rest⟩
      rcases Except.bind_eq_ok_iff.mp rest with ⟨others, later, rest⟩
      injection rest with same
      rw [← same, List.length_cons, induction later]

/-- The number of accounts, where the keys can be decoded. -/
theorem MultiSigForm.getNrAccounts_eq_ok
    (form : MultiSigForm host script threshold count) {nrAccounts : Int32}
    (reported :
      getNrAccounts curve host alloc { script := .items script } =
        .ok nrAccounts) :
    nrAccounts = Int32.ofNat count := by
  rcases Except.bind_eq_ok_iff.mp reported with ⟨publicKeys, found, rest⟩
  injection rest with same
  rcases form.countKeys_eq with ⟨offset, parsed, counted⟩
  rw [getPublicKeys, form.not_singleSig, isMultiSig_of_form form] at found
  rw [if_neg (by decide), if_neg (by decide), parsed] at found
  simp only [bind, Except.bind] at found
  split at found
  · cases found
  split at found
  · cases found
  · rw [← same, length_readKeys found]
    exact congrArg Int32.ofNat counted

/-! ## Which scripts have a threshold -/

/-- The script starts by pushing an integer that could be a threshold. -/
def ThresholdFirst (script : List UInt8) : Prop :=
  ∃ push after value,
    script = push ++ after ∧ IntegerPush push value ∧ 1 ≤ value ∧
      value ≤ maxPublicKeysPerMultisigAccount

/-- The first push decides, unless the script has a single signature. -/
theorem getSigningThreshold_eq_ok
    {verificationScript : VerificationScript} {signingThreshold : Int32}
    (multiple : isSingleSig host verificationScript = false)
    (found :
      getSigningThreshold host verificationScript = .ok signingThreshold) :
    ThresholdFirst verificationScript.script.content := by
  rw [getSigningThreshold, multiple, if_neg (by decide)] at found
  rcases Except.bind_eq_ok_iff.mp found with ⟨⟨value, stop⟩, parsed, rest⟩
  dsimp only at rest
  split at rest
  · cases rest
  rename_i bounded
  rcases verificationScript with ⟨_ | content⟩
  · cases parsed
  · rcases parsePushInt_eq_ok (by omega) parsed with
      ⟨push, after, split, -, pushed⟩
    exact ⟨push, after, value, split, pushed, by omega, by omega⟩

theorem ThresholdFirst.getSigningThreshold_succeeds
    {verificationScript : VerificationScript}
    (first : ThresholdFirst verificationScript.script.content) :
    ∃ signingThreshold,
      getSigningThreshold host verificationScript = .ok signingThreshold := by
  rcases first with ⟨push, after, value, split, pushed, positive, small⟩
  rw [getSigningThreshold]
  split
  · exact ⟨1, rfl⟩
  rcases verificationScript with ⟨_ | content⟩
  · exact absurd (List.append_eq_nil_iff.mp split.symm).1 pushed.ne_nil
  · have parsed := parsePushInt_push [] after pushed
    rw [List.nil_append, List.length_nil] at parsed
    change content = _ at split
    subst split
    refine ⟨Int32.ofInt value, ?_⟩
    rw [parsed]
    simp only [bind, Except.bind]
    rw [if_neg (by omega)]

theorem getSigningThreshold_succeeds_iff
    (verificationScript : VerificationScript) :
    (∃ signingThreshold,
        getSigningThreshold host verificationScript =
          .ok signingThreshold) ↔
      isSingleSig host verificationScript = true ∨
        ThresholdFirst verificationScript.script.content := by
  constructor
  · rintro ⟨signingThreshold, found⟩
    rcases single : isSingleSig host verificationScript
    · exact .inr (getSigningThreshold_eq_ok single found)
    · exact .inl rfl
  · rintro (single | first)
    · refine ⟨1, ?_⟩
      rw [getSigningThreshold, if_pos single]
    · exact first.getSigningThreshold_succeeds

/-- A multi-signature script has a form of the grammar. -/
theorem exists_form {verificationScript : VerificationScript}
    (multiple : isMultiSig host verificationScript = true) :
    ∃ script threshold count,
      verificationScript = { script := .items script } ∧
        MultiSigForm host script threshold count := by
  rcases verificationScript with ⟨_ | script⟩
  · rw [isMultiSig] at multiple
    split at multiple <;> cases multiple
  · rcases form_of_isMultiSig multiple with ⟨threshold, count, form⟩
    exact ⟨script, threshold, count, rfl, form⟩

theorem MultiSigForm.thresholdFirst
    (form : MultiSigForm host script threshold count) :
    ThresholdFirst script := by
  have enough := form.enough
  have few := form.few
  have positive := form.positive
  rcases form.parts with ⟨first, keys, last, ofThreshold, -, -, split⟩
  refine ⟨first, _, threshold, split, ofThreshold, by omega, ?_⟩
  simp only [maxPublicKeysPerMultisigAccount]
  omega

/-! ## The two numbers -/

/-- A single-signature script has one account and asks for its signature. -/
theorem getNrAccounts_of_singleSig
    {verificationScript : VerificationScript} {nrAccounts : Int32}
    (single : isSingleSig host verificationScript = true)
    (reported :
      getNrAccounts curve host alloc verificationScript = .ok nrAccounts) :
    nrAccounts = 1 := by
  rcases Except.bind_eq_ok_iff.mp reported with ⟨publicKeys, found, rest⟩
  injection rest with same
  rw [getPublicKeys, single, if_pos rfl] at found
  split at found
  · cases found
  · rcases Except.bind_eq_ok_iff.mp found with ⟨publicKey, -, listed⟩
    injection listed with list
    rw [← same, ← list]
    rfl

/-- Keys are only taken from signature scripts. -/
theorem signature_of_getNrAccounts
    {verificationScript : VerificationScript} {nrAccounts : Int32}
    (reported :
      getNrAccounts curve host alloc verificationScript = .ok nrAccounts) :
    isSingleSig host verificationScript = true ∨
      isMultiSig host verificationScript = true := by
  rcases Except.bind_eq_ok_iff.mp reported with ⟨publicKeys, found, -⟩
  rcases single : isSingleSig host verificationScript
  · rcases multiple : isMultiSig host verificationScript
    · rw [getPublicKeys, single, multiple, if_neg (by decide),
        if_pos rfl] at found
      cases found
    · exact .inr rfl
  · exact .inl rfl

/-- Where both numbers are reported, the threshold can be reached. -/
theorem threshold_le_nrAccounts
    {verificationScript : VerificationScript}
    {signingThreshold nrAccounts : Int32}
    (found :
      getSigningThreshold host verificationScript = .ok signingThreshold)
    (reported :
      getNrAccounts curve host alloc verificationScript = .ok nrAccounts) :
    1 ≤ signingThreshold.toInt ∧
      signingThreshold.toInt ≤ nrAccounts.toInt := by
  rcases signature_of_getNrAccounts reported with single | multiple
  · rw [getSigningThreshold, if_pos single] at found
    injection found with same
    rw [← same, getNrAccounts_of_singleSig single reported]
    decide
  · rcases exists_form multiple with
      ⟨script, threshold, count, rfl, form⟩
    have positive := form.positive
    have enough := form.enough
    have few := form.few
    rw [form.getSigningThreshold_eq] at found
    injection found with same
    rw [← same, form.getNrAccounts_eq_ok reported,
      Int32.toInt_ofNat_of_lt (by omega), Int32.toInt_ofNat_of_lt (by omega)]
    omega

/-! ## When the accessors agree -/

/-- The accessors agree on a script. -/
structure AccessorsAgree (curve : Curve) (host : Host) (alloc : Allocator)
    (verificationScript : VerificationScript) : Prop where
  signatures :
    (∃ signingThreshold,
        getSigningThreshold host verificationScript =
          .ok signingThreshold) ↔
      isSingleSig host verificationScript = true ∨
        isMultiSig host verificationScript = true
  numbers :
    ∀ signingThreshold nrAccounts,
      getSigningThreshold host verificationScript = .ok signingThreshold →
        getNrAccounts curve host alloc verificationScript =
            .ok nrAccounts →
          1 ≤ signingThreshold.toInt ∧
            signingThreshold.toInt ≤ nrAccounts.toInt

/--
The accessors agree on every signature script, and on every other script that
does not start with the push of a possible threshold.
-/
theorem accessorsAgree_iff
    (curve : Curve)
    (host : Host)
    (alloc : Allocator)
    (verificationScript : VerificationScript) :
    AccessorsAgree curve host alloc verificationScript ↔
      isSingleSig host verificationScript = true ∨
        isMultiSig host verificationScript = true ∨
          ¬ ThresholdFirst verificationScript.script.content := by
  constructor
  · intro agree
    by_cases first : ThresholdFirst verificationScript.script.content
    · have signature :=
        agree.signatures.mp first.getSigningThreshold_succeeds
      exact signature.imp_right .inl
    · exact .inr (.inr first)
  · intro condition
    refine ⟨?_, fun _ _ => threshold_le_nrAccounts⟩
    rw [getSigningThreshold_succeeds_iff]
    constructor
    · rintro (single | first)
      · exact .inl single
      · rcases condition with single | multiple | absent
        · exact .inl single
        · exact .inr multiple
        · exact absurd first absent
    · rintro (single | multiple)
      · exact .inl single
      · rcases exists_form multiple with
          ⟨script, threshold, count, rfl, form⟩
        exact .inr form.thresholdFirst

/-- A script that only pushes the integer one reports a threshold. -/
theorem push1_reports_threshold :
    ¬ ∀ (curve : Curve) (host : Host) (alloc : Allocator)
        (verificationScript : VerificationScript),
      AccessorsAgree curve host alloc verificationScript := by
  intro agree
  have agrees :=
    agree (Curve.basePoint fun _ => none) (Host.ofTables serviceDigests [])
      .ample { script := .items [0x11] }
  have found :
      getSigningThreshold (Host.ofTables serviceDigests [])
          { script := .items [0x11] } =
        .ok 1 := by
    rfl
  rcases agrees.signatures.mp ⟨1, found⟩ with single | multiple
  · cases single
  · cases multiple

end VerificationScript

end NeoC
