import NeoC.Crypto.EcKey
import NeoC.Script.ScriptBuilder
import Mathlib.Data.List.Sort

/-!
# Verification scripts

The builder and the parser of multi-signature scripts are written separately.
The builder sorts the compressed keys and pushes threshold, keys and count;
the parser walks over the bytes with an offset and never decodes an
instruction as such.  The results below put the two together: what the
builder makes from any list of keys is recognised, and taken apart into the
threshold, the number and the sorted keys it was made from.
-/

namespace NeoC

open Foundation NeoVm

namespace Opcode

/-- `NEOC_OP_PUSH16`. -/
def push16 : UInt8 := 0x20

end Opcode

/-- A `neoc_verification_script_t`. -/
structure VerificationScript where
  script : Buffer
deriving DecidableEq, Repr

namespace VerificationScript

/-- `sizeof(neoc_verification_script_t)`. -/
def structSize : Nat := 16

/-- `sizeof(neoc_key_entry_t)`. -/
def entrySize : Nat := 16

/-- The size of a pointer to a key. -/
def pointerSize : Nat := 8

/-- `NEOC_MAX_PUBLIC_KEYS_PER_MULTISIG_ACCOUNT`. -/
def maxPublicKeysPerMultisigAccount : Nat := 1024

/-! ## The builder -/

/-- `neoc_verification_script_allocate`. -/
def allocate (alloc : Allocator) (script : Buffer) :
    Outcome VerificationScript :=
  if alloc.neocGrants structSize = false then
    .error (.error .outOfMemory "Failed to allocate verification script")
  else
    match script with
    | .null count =>
        if count > 0 then
          .error (.error .invalidArgument "Script data pointer is NULL")
        else
          .ok { script := .null 0 }
    | .items content =>
        if content.length = 0 then
          .ok { script := .null 0 }
        else if alloc.neocGrants content.length = false then
          .error
            (.error .outOfMemory "Failed to copy verification script data")
        else
          .ok { script := .items content }

/--
`neoc_key_entry_compare`.  On byte strings of the same length `memcmp` is the
lexicographic comparison.
-/
def keyEntryCompare (left right : List UInt8) : Ordering :=
  let minLen := min left.length right.length
  (compare (left.take minLen) (right.take minLen)).then
    (compare left.length right.length)

/-- `qsort` on the entries. -/
def sortEntries (entries : List (List UInt8)) : List (List UInt8) :=
  entries.mergeSort fun left right => (keyEntryCompare left right).isLE

variable {curve : Curve}

/-- The loop that fills the entries. -/
def encodeKeys (alloc : Allocator) :
    List (Option (EcPublicKey curve)) → Outcome (List (List UInt8))
  | [] => .ok []
  | none :: _ =>
      .error (.error .invalidArgument "Public key pointer is NULL")
  | some publicKey :: rest => do
      let encoded ← publicKey.getEncoded alloc true
      let entries ← encodeKeys alloc rest
      .ok (encoded :: entries)

/-- The loop that pushes the entries. -/
def pushKeys (alloc : Allocator) :
    List (List UInt8) → Routine BinaryWriter Unit
  | [] => pure ()
  | entry :: rest => do
      ScriptBuilder.pushData alloc (.items entry)
      pushKeys alloc rest

/-- What is pushed for sorted entries. -/
def pushMultiSig (host : Host) (alloc : Allocator)
    (entries : List (List UInt8)) (signingThreshold : Int32) :
    Routine BinaryWriter Unit := do
  ScriptBuilder.pushInteger alloc signingThreshold.toInt64
  pushKeys alloc entries
  ScriptBuilder.pushInteger alloc (Int64.ofNat entries.length)
  ScriptBuilder.emitSyscall host alloc .systemCryptoCheckMultisig

/-- `neoc_verification_script_create_multi_sig`. -/
def createMultiSig (host : Host) (alloc : Allocator)
    (publicKeys : Slice (Option (EcPublicKey curve)))
    (signingThreshold : Int32) : Outcome VerificationScript :=
  if publicKeys.len = 0 ∨ signingThreshold ≤ 0 ∨
      Int32.ofNat publicKeys.len < signingThreshold then
    .error
      (.error .invalidArgument "Invalid key count or signing threshold")
  else if publicKeys.len > maxPublicKeysPerMultisigAccount then
    .error
      (.error .invalidArgument "Too many public keys for multisig script")
  else
    match publicKeys with
    | .null _ =>
        .error (.error .invalidArgument "Public key array is NULL")
    | .items keys =>
        if alloc.neocGrants (keys.length * entrySize) = false then
          .error (.error .outOfMemory "Failed to allocate key entries")
        else do
          let entries ← encodeKeys alloc keys
          let script ←
            ScriptBuilder.build alloc
              (pushMultiSig host alloc (sortEntries entries)
                signingThreshold)
          allocate alloc (.items script)

/-! ## The parser -/

/--
The operand of a wider integer opcode, with the text of its error.  The shifts
put its bytes together as two's complement, also where the top byte reaches
the sign bit.
-/
def parseOperand (content : List UInt8) (offset width : Nat)
    (text : String) : Outcome (Int × Nat) :=
  if offset + width > content.length then
    .error (.error .invalidFormat text)
  else
    .ok
      (LittleEndian.ofBytesSigned ((content.drop offset).take width),
        offset + width)

/-- `neoc_verification_script_parse_push_int`: the value and the new offset. -/
def parsePushInt (script : Buffer) (offset : Nat) : Outcome (Int × Nat) :=
  match script with
  | .null _ =>
      .error
        (.error .invalidArgument "Invalid arguments for push-int parsing")
  | .items content =>
      if content.length ≤ offset then
        .error
          (.error .invalidFormat
            "Unexpected end of script while reading integer")
      else
        let opcode := content.getD offset 0
        if opcode = Opcode.pushM1 then
          .ok (-1, offset + 1)
        else if opcode = Opcode.push0 then
          .ok (0, offset + 1)
        else if Opcode.push1 ≤ opcode ∧ opcode ≤ Opcode.push16 then
          .ok ((opcode.toNat : Int) - Opcode.push0.toNat, offset + 1)
        else if opcode = Opcode.pushInt8 then
          parseOperand content (offset + 1) 1 "Invalid PUSHINT8 encoding"
        else if opcode = Opcode.pushInt16 then
          parseOperand content (offset + 1) 2 "Invalid PUSHINT16 encoding"
        else if opcode = Opcode.pushInt32 then
          parseOperand content (offset + 1) 4 "Invalid PUSHINT32 encoding"
        else if opcode = Opcode.pushInt64 then
          parseOperand content (offset + 1) 8 "Invalid PUSHINT64 encoding"
        else
          .error
            (.error .invalidFormat "Unsupported integer opcode in script")

/-- The four bytes at an offset, as `memcpy` reads them into a `uint32_t`. -/
def wordAt (content : List UInt8) (offset : Nat) : UInt32 :=
  UInt32.ofNat (LittleEndian.ofBytes ((content.drop offset).take 4))

/-- `neoc_verification_script_checksig_match`. -/
def checksigMatch (host : Host) (content : List UInt8) : Bool :=
  if content.length ≠ 40 then
    false
  else if content.getD 0 0 ≠ Opcode.pushData1 ∨ content.getD 1 0 ≠ 33 then
    false
  else if content.getD 35 0 ≠ Opcode.syscall then
    false
  else
    decide
      (host.interopGetHash .systemCryptoCheckSig = wordAt content 36)

/-- `neoc_verification_script_is_single_sig`. -/
def isSingleSig (host : Host) (verificationScript : VerificationScript) :
    Bool :=
  if verificationScript.script.len ≠ 40 then
    false
  else
    checksigMatch host verificationScript.script.content

/--
The loop of `neoc_verification_script_is_multi_sig` over the keys: the offset
behind them and their number, or `none` where it returns false.
-/
def scanKeys (content : List UInt8) (offset keyCount : Nat) :
    Option (Nat × Nat) :=
  if content.length ≤ offset then
    some (offset, keyCount)
  else if content.getD offset 0 ≠ Opcode.pushData1 then
    some (offset, keyCount)
  else if offset + 2 > content.length then
    none
  else if content.getD (offset + 1) 0 ≠ 33 then
    none
  else if offset + 2 + 33 > content.length then
    none
  else
    scanKeys content (offset + 2 + 33) (keyCount + 1)
termination_by content.length - offset

/-- What has to follow the keys: their number and the syscall. -/
def checkTail (host : Host) (content : List UInt8) (offset keyCount : Nat) :
    Bool :=
  match parsePushInt (.items content) offset with
  | .error _ => false
  | .ok (declaredCount, offset) =>
      if declaredCount ≠ keyCount then
        false
      else if content.length ≤ offset ∨
          content.getD offset 0 ≠ Opcode.syscall then
        false
      else if offset + 1 + 4 > content.length then
        false
      else if host.interopGetHash .systemCryptoCheckMultisig ≠
          wordAt content (offset + 1) then
        false
      else
        decide (offset + 1 + 4 = content.length)

/-- `neoc_verification_script_is_multi_sig`. -/
def isMultiSig (host : Host) (verificationScript : VerificationScript) :
    Bool :=
  if verificationScript.script.len < 42 then
    false
  else
    let content := verificationScript.script.content
    match parsePushInt verificationScript.script 0 with
    | .error _ => false
    | .ok (threshold, offset) =>
        if threshold < 1 ∨
            (maxPublicKeysPerMultisigAccount : Int) < threshold then
          false
        else
          match scanKeys content offset 0 with
          | none => false
          | some (offset, keyCount) =>
              if keyCount = 0 ∨
                  keyCount > maxPublicKeysPerMultisigAccount then
                false
              else if threshold > keyCount then
                false
              else
                checkTail host content offset keyCount

/-- `neoc_verification_script_get_signing_threshold`. -/
def getSigningThreshold (host : Host)
    (verificationScript : VerificationScript) : Outcome Int32 :=
  if isSingleSig host verificationScript then
    .ok 1
  else do
    let (value, _) ← parsePushInt verificationScript.script 0
    if value < 1 ∨ (maxPublicKeysPerMultisigAccount : Int) < value then
      .error (.error .invalidFormat "Invalid signing threshold in script")
    else
      .ok (Int32.ofInt value)

/-- The loop that counts the keys. -/
def countKeys (content : List UInt8) (offset : Nat) : Nat :=
  if offset < content.length ∧ content.getD offset 0 = Opcode.pushData1 then
    countKeys content (offset + 2 + 33) + 1
  else
    0
termination_by content.length - offset

/-- The loop that decodes the keys. -/
def readKeys (curve : Curve) (alloc : Allocator) (content : List UInt8) :
    (count offset : Nat) → Outcome (List (EcPublicKey curve))
  | 0, _ => .ok []
  | count + 1, offset =>
      if offset + 2 + 33 > content.length then
        .error (.error .invalidFormat "Malformed public key entry")
      else do
        let publicKey ←
          EcPublicKey.fromBytes curve alloc
            ((content.drop (offset + 2)).take 33)
        let publicKeys ← readKeys curve alloc content count (offset + 2 + 33)
        .ok (publicKey :: publicKeys)

/-- `neoc_verification_script_get_public_keys`. -/
def getPublicKeys (curve : Curve) (host : Host) (alloc : Allocator)
    (verificationScript : VerificationScript) :
    Outcome (List (EcPublicKey curve)) :=
  let content := verificationScript.script.content
  if isSingleSig host verificationScript then
    if alloc.neocGrants pointerSize = false then
      .error (.error .outOfMemory "Failed to allocate key array")
    else do
      let publicKey ←
        EcPublicKey.fromBytes curve alloc ((content.drop 2).take 33)
      .ok [publicKey]
  else if isMultiSig host verificationScript = false then
    .error
      (.error .invalidFormat "Verification script is not signature-based")
  else do
    let (_, offset) ← parsePushInt verificationScript.script 0
    let count := countKeys content offset
    if count = 0 then
      .error (.error .invalidFormat "No public keys found in script")
    else if alloc.neocGrants (count * pointerSize) = false then
      .error (.error .outOfMemory "Failed to allocate key list")
    else
      readKeys curve alloc content count offset

/-- `neoc_verification_script_get_nr_accounts`. -/
def getNrAccounts (curve : Curve) (host : Host) (alloc : Allocator)
    (verificationScript : VerificationScript) : Outcome Int32 := do
  let publicKeys ← getPublicKeys curve host alloc verificationScript
  .ok (Int32.ofNat publicKeys.length)

/-! ## Sorting the keys -/

/-- Comparing the common part and then the lengths is comparing the lists. -/
theorem keyEntryCompare_eq (left right : List UInt8) :
    keyEntryCompare left right = compare left right := by
  induction left generalizing right with
  | nil =>
      cases right with
      | nil => rfl
      | cons byte rest => rfl
  | cons byte rest induction =>
      cases right with
      | nil => rfl
      | cons byte' rest' =>
          have later := induction rest'
          simp only [keyEntryCompare] at later
          simp only [keyEntryCompare, List.length_cons,
            Nat.add_min_add_right, List.take_succ_cons,
            List.compare_cons_cons, Ordering.then_assoc]
          rw [← later]
          congr 2
          simp [Nat.compare_eq_ite_lt]

theorem isLE_total (left right : List UInt8) :
    ((compare left right).isLE || (compare right left).isLE) = true := by
  rw [@Std.OrientedCmp.eq_swap _ compare _ right left]
  cases compare left right <;> rfl

theorem sortEntries_eq (entries : List (List UInt8)) :
    sortEntries entries =
      entries.mergeSort fun left right => (compare left right).isLE := by
  simp only [sortEntries, keyEntryCompare_eq]

/-- The entries come out in ascending order. -/
theorem sortEntries_pairwise (entries : List (List UInt8)) :
    (sortEntries entries).Pairwise
      fun left right => (compare left right).isLE = true := by
  have transitive (first second third : List UInt8)
      (lower : (compare first second).isLE = true)
      (upper : (compare second third).isLE = true) :
      (compare first third).isLE = true :=
    Std.TransCmp.isLE_trans lower upper
  rw [sortEntries_eq]
  exact List.pairwise_mergeSort transitive isLE_total entries

/-- The order in which the keys were given does not matter. -/
theorem sortEntries_perm {left right : List (List UInt8)}
    (perm : left.Perm right) :
    sortEntries left = sortEntries right := by
  have sameEntries : (sortEntries left).Perm (sortEntries right) :=
    (List.mergeSort_perm left _).trans
      (perm.trans (List.mergeSort_perm right _).symm)
  apply List.Perm.eq_of_pairwise _ (sortEntries_pairwise left)
    (sortEntries_pairwise right) sameEntries
  intro first second _ _ below above
  exact Std.LawfulEqCmp.eq_of_compare (Std.OrientedCmp.isLE_antisymm below above)

/-! ## Parsing what was pushed -/

theorem getD_append_length (before after : List UInt8) (byte : UInt8) :
    (before ++ byte :: after).getD before.length 0 = byte := by
  simp

theorem parseOperand_append {width : Nat} {value : Int} (before : List UInt8)
    (after : List UInt8) (text : String)
    (positive : 0 ≤ value) (fits : 2 * value < (256 ^ width : Nat)) :
    parseOperand
        (before ++ (LittleEndian.toBytesSigned width value ++ after))
        before.length width text =
      .ok (value, before.length + width) := by
  have read :
      LittleEndian.ofBytesSigned
          (((before ++
            (LittleEndian.toBytesSigned width value ++ after)).drop
              before.length).take width) = value := by
    rw [List.drop_left, List.take_left' (by simp)]
    exact LittleEndian.ofBytesSigned_toBytesSigned (by omega) fits
  rw [parseOperand, if_neg (by simp), read]

/-- A positive number of at most two bytes is parsed back. -/
theorem parsePushInt_encode {value : Int} (before after : List UInt8)
    (positive : 1 ≤ value) (small : value ≤ 32767) :
    parsePushInt
        (.items (before ++ ((Instruction.pushInt value).encode ++ after)))
        before.length =
      .ok
        (value, before.length + (Instruction.pushInt value).encode.length) := by
  have inside {bytes : List UInt8} (nonempty : bytes ≠ []) :
      ¬(before ++ (bytes ++ after)).length ≤ before.length := by
    have := List.length_pos_iff.mpr nonempty
    simp only [List.length_append]
    omega
  rw [Instruction.encode, if_neg (by omega)]
  split_ifs with tiny byte short
  · -- One of `PUSH1` to `PUSH16`.
    have code :
        (UInt8.ofNat (0x10 + value.toNat)).toNat = 0x10 + value.toNat := by
      rw [UInt8.toNat_ofNat', Nat.mod_eq_of_lt (by omega)]
    have notM1 : UInt8.ofNat (0x10 + value.toNat) ≠ Opcode.pushM1 := by
      intro same
      have values := congrArg UInt8.toNat same
      rw [code] at values
      simp [Opcode.pushM1] at values
      omega
    have notZero : UInt8.ofNat (0x10 + value.toNat) ≠ Opcode.push0 := by
      intro same
      have values := congrArg UInt8.toNat same
      rw [code] at values
      simp [Opcode.push0] at values
      omega
    have ranged :
        Opcode.push1 ≤ UInt8.ofNat (0x10 + value.toNat) ∧
          UInt8.ofNat (0x10 + value.toNat) ≤ Opcode.push16 := by
      constructor
      · rw [UInt8.le_iff_toNat_le, code]
        simp [Opcode.push1]
        omega
      · rw [UInt8.le_iff_toNat_le, code]
        simp [Opcode.push16]
        omega
    rw [parsePushInt, if_neg (inside (List.cons_ne_nil _ _))]
    simp only [List.singleton_append, getD_append_length]
    rw [if_neg notM1, if_neg notZero, if_pos ranged, code]
    simp [Opcode.push0]
    omega
  · rw [parsePushInt, if_neg (inside (List.cons_ne_nil _ _))]
    have parsed :=
      @parseOperand_append 1 value (before ++ [0x00]) after
        "Invalid PUSHINT8 encoding" (by omega) (by norm_num; omega)
    simp only [List.append_assoc, List.singleton_append,
      List.length_append, List.length_singleton] at parsed
    simp only [List.cons_append, getD_append_length]
    rw [if_neg (by decide), if_neg (by decide), if_neg (by decide),
      if_pos (by decide), parsed]
    simp
  · rw [parsePushInt, if_neg (inside (List.cons_ne_nil _ _))]
    have parsed :=
      @parseOperand_append 2 value (before ++ [0x01]) after
        "Invalid PUSHINT16 encoding" (by omega) (by norm_num; omega)
    simp only [List.append_assoc, List.singleton_append,
      List.length_append, List.length_singleton] at parsed
    simp only [List.cons_append, getD_append_length]
    rw [if_neg (by decide), if_neg (by decide), if_neg (by decide),
      if_neg (by decide), if_pos (by decide), parsed]
    simp
  · omega
  · omega

/-- The bytes that push a compressed key. -/
theorem encode_key {entry : List UInt8} (exact : entry.length = 33) :
    (Instruction.pushData entry).encode =
      Opcode.pushData1 :: 33 :: entry := by
  rw [Instruction.encode, if_pos (by omega), exact]
  rfl

/-- The bytes that push all keys. -/
def keyBytes (entries : List (List UInt8)) : List UInt8 :=
  assemble (entries.map Instruction.pushData)

theorem keyBytes_cons {entry : List UInt8} (rest : List (List UInt8))
    (exact : entry.length = 33) :
    keyBytes (entry :: rest) =
      Opcode.pushData1 :: 33 :: (entry ++ keyBytes rest) := by
  rw [keyBytes, List.map_cons, assemble_cons, encode_key exact]
  rfl

theorem length_keyBytes {entries : List (List UInt8)}
    (exact : ∀ entry ∈ entries, entry.length = 33) :
    (keyBytes entries).length = 35 * entries.length := by
  induction entries with
  | nil => rfl
  | cons entry rest induction =>
      rcases List.forall_mem_cons.mp exact with ⟨first, others⟩
      rw [keyBytes_cons rest first]
      simp only [List.length_cons, List.length_append, first,
        induction others]
      omega

/-- Moving over one key moves it from what follows to what precedes. -/
theorem advance_key (before entry after : List UInt8) :
    before ++ (Opcode.pushData1 :: 33 :: (entry ++ after)) =
      (before ++ Opcode.pushData1 :: 33 :: entry) ++ after := by
  simp

section Walk

variable {entries : List (List UInt8)} {opcode : UInt8}

/-- The scan stops behind the keys, having counted them. -/
theorem scanKeys_keyBytes
    (exact : ∀ entry ∈ entries, entry.length = 33)
    (different : opcode ≠ Opcode.pushData1)
    (before after : List UInt8) (keyCount : Nat) :
    scanKeys (before ++ (keyBytes entries ++ opcode :: after))
        before.length keyCount =
      some
        (before.length + 35 * entries.length, keyCount + entries.length) := by
  induction entries generalizing before keyCount with
  | nil =>
      rw [scanKeys, if_neg (by simp [keyBytes, assemble])]
      rw [if_pos (by simpa [keyBytes, assemble] using different)]
      rfl
  | cons entry rest induction =>
      rcases List.forall_mem_cons.mp exact with ⟨first, others⟩
      have later :=
        induction others (before ++ Opcode.pushData1 :: 33 :: entry)
          (keyCount + 1)
      have position :
          (before ++ Opcode.pushData1 :: 33 :: entry).length =
            before.length + 2 + 33 := by
        simp [first]
      have second (tail : List UInt8) :
          (before ++ Opcode.pushData1 :: 33 :: tail).getD
            (before.length + 1) 0 = 33 := by
        simp
      rw [position] at later
      rw [keyBytes_cons rest first, scanKeys, List.cons_append,
        List.cons_append, List.append_assoc,
        if_neg (by simp), if_neg (by simp), if_neg (by simp),
        if_neg (by rw [second]; simp), if_neg (by simp [first]; omega),
        advance_key, later]
      simp only [List.length_cons, Option.some.injEq, Prod.mk.injEq]
      omega

theorem countKeys_keyBytes
    (exact : ∀ entry ∈ entries, entry.length = 33)
    (different : opcode ≠ Opcode.pushData1)
    (before after : List UInt8) :
    countKeys (before ++ (keyBytes entries ++ opcode :: after))
        before.length =
      entries.length := by
  induction entries generalizing before with
  | nil =>
      rw [countKeys, if_neg (by simpa [keyBytes, assemble] using different)]
      rfl
  | cons entry rest induction =>
      rcases List.forall_mem_cons.mp exact with ⟨first, others⟩
      have later :=
        induction others (before ++ Opcode.pushData1 :: 33 :: entry)
      have position :
          (before ++ Opcode.pushData1 :: 33 :: entry).length =
            before.length + 2 + 33 := by
        simp [first]
      rw [position] at later
      rw [keyBytes_cons rest first, countKeys, List.cons_append,
        List.cons_append, List.append_assoc, if_pos (by simp), advance_key,
        later]
      rfl

end Walk

/-- The decoder finds the keys whose compressed forms were pushed. -/
theorem readKeys_keyBytes {alloc : Allocator}
    (granted : alloc.grants EcPublicKey.structSize = true)
    (publicKeys : List (EcPublicKey curve)) (before after : List UInt8) :
    readKeys curve alloc
        (before ++
          (keyBytes (publicKeys.map fun key => key.compressed.val) ++ after))
        publicKeys.length before.length =
      .ok
        (publicKeys.map fun key => EcPublicKey.ofPoint key.point true) := by
  induction publicKeys generalizing before with
  | nil => rfl
  | cons publicKey rest induction =>
      have first := publicKey.compressed.property
      have later :=
        induction
          (before ++ Opcode.pushData1 :: 33 :: publicKey.compressed.val)
      have position :
          (before ++
            Opcode.pushData1 :: 33 :: publicKey.compressed.val).length =
            before.length + 2 + 33 := by
        simp [first]
      have taken (tail : List UInt8) :
          ((before ++ Opcode.pushData1 :: 33 ::
            (publicKey.compressed.val ++ tail)).drop
              (before.length + 2)).take 33 = publicKey.compressed.val := by
        rw [List.drop_append, List.drop_of_length_le (by omega)]
        simp [first]
      rw [position] at later
      rw [List.map_cons, keyBytes_cons _ first, List.length_cons, readKeys,
        List.cons_append, List.cons_append, List.append_assoc,
        if_neg (by simp; omega), taken,
        EcPublicKey.fromBytes_compressed granted, advance_key, later]
      rfl

/-! ## The script of a list of keys -/

/-- The program that is pushed for sorted entries. -/
def multiSigProgram (host : Host) (entries : List (List UInt8))
    (signingThreshold : Int) : List Instruction :=
  [.pushInt signingThreshold] ++
    (entries.map Instruction.pushData ++
      ([.pushInt entries.length] ++
        [.syscall (host.interopGetHash .systemCryptoCheckMultisig)]))

theorem pushKeys_assembles {alloc : Allocator}
    {entries : List (List UInt8)}
    (exact : ∀ entry ∈ entries, entry.length = 33) :
    ScriptBuilder.Assembles alloc (pushKeys alloc entries)
      (entries.map Instruction.pushData) := by
  induction entries with
  | nil => exact BinaryWriter.emits_pure
  | cons entry rest induction =>
      rcases List.forall_mem_cons.mp exact with ⟨first, others⟩
      have pushed := @ScriptBuilder.pushData_assembles alloc entry
      rw [ScriptBuilder.instructionOfBytes, if_neg (by omega)] at pushed
      exact pushed.bind (induction others)

theorem pushMultiSig_assembles {alloc : Allocator} (host : Host)
    {entries : List (List UInt8)}
    (exact : ∀ entry ∈ entries, entry.length = 33)
    (few : entries.length ≤ maxPublicKeysPerMultisigAccount)
    (signingThreshold : Int32) :
    ScriptBuilder.Assembles alloc
      (pushMultiSig host alloc entries signingThreshold)
      (multiSigProgram host entries signingThreshold.toInt) := by
  have threshold :=
    @ScriptBuilder.pushInteger_assembles alloc signingThreshold.toInt64
  have count :=
    @ScriptBuilder.pushInteger_assembles alloc (Int64.ofNat entries.length)
  rw [Int32.toInt_toInt64] at threshold
  rw [Int64.toInt_ofNat_of_lt
    (by simp only [maxPublicKeysPerMultisigAccount] at few; omega)] at count
  exact
    threshold.bind
      ((pushKeys_assembles exact).bind
        (count.bind (ScriptBuilder.emitSyscall_assembles host _)))

/-- The bytes of that program, part by part. -/
theorem assemble_multiSigProgram (host : Host) (entries : List (List UInt8))
    (signingThreshold : Int) :
    assemble (multiSigProgram host entries signingThreshold) =
      (Instruction.pushInt signingThreshold).encode ++
        (keyBytes entries ++
          ((Instruction.pushInt entries.length).encode ++
            (Opcode.syscall ::
              LittleEndian.toBytes 4
                (host.interopGetHash
                  .systemCryptoCheckMultisig).toNat))) := by
  simp only [multiSigProgram, assemble_append, assemble_cons]
  rw [keyBytes, show assemble [] = [] from rfl, List.append_nil,
    List.append_nil]
  rfl

theorem encode_pushInt_bounds {value : Int}
    (positive : 1 ≤ value) (small : value ≤ 1024) :
    1 ≤ (Instruction.pushInt value).encode.length ∧
      (Instruction.pushInt value).encode.length ≤ 3 := by
  rw [Instruction.encode, if_neg (by omega)]
  split_ifs <;> first | omega | simp

/-- The bytes of a count do not start like those of a key. -/
theorem encode_pushInt_head {value : Int}
    (positive : 1 ≤ value) (small : value ≤ 1024) :
    ∃ opcode rest,
      (Instruction.pushInt value).encode = opcode :: rest ∧
        opcode ≠ Opcode.pushData1 := by
  rw [Instruction.encode, if_neg (by omega)]
  split_ifs with tiny byte short
  · refine ⟨_, _, rfl, ?_⟩
    intro same
    have values := congrArg UInt8.toNat same
    rw [UInt8.toNat_ofNat', Nat.mod_eq_of_lt (by omega)] at values
    simp [Opcode.pushData1] at values
    omega
  · exact ⟨_, _, rfl, by decide⟩
  · exact ⟨_, _, rfl, by decide⟩
  · omega
  · omega

theorem wordAt_append (before : List UInt8) (word : UInt32) :
    wordAt (before ++ LittleEndian.toBytes 4 word.toNat) before.length =
      word := by
  have bounded := word.toNat_lt
  rw [wordAt, List.drop_left, List.take_of_length_le (by simp),
    LittleEndian.ofBytes_toBytes_of_lt (by omega), UInt32.ofNat_toNat]

/-- Behind the keys stand their number and the syscall. -/
theorem checkTail_count (host : Host) (before : List UInt8) {count : Nat}
    (positive : 1 ≤ count) (few : count ≤ 1024) :
    checkTail host
        (before ++
          ((Instruction.pushInt count).encode ++
            (Opcode.syscall ::
              LittleEndian.toBytes 4
                (host.interopGetHash
                  .systemCryptoCheckMultisig).toNat)))
        before.length count =
      true := by
  have parsed :=
    @parsePushInt_encode count before
      (Opcode.syscall ::
        LittleEndian.toBytes 4
          (host.interopGetHash .systemCryptoCheckMultisig).toNat)
      (by omega) (by omega)
  rw [checkTail, parsed]
  dsimp only
  rw [← List.append_assoc, ← List.length_append]
  generalize before ++ (Instruction.pushInt count).encode = front
  have word :=
    wordAt_append (front ++ [Opcode.syscall])
      (host.interopGetHash .systemCryptoCheckMultisig)
  rw [List.append_assoc, List.singleton_append, List.length_append,
    List.length_singleton] at word
  rw [if_neg (by simp), if_neg (by simp), if_neg (by simp), word,
    if_neg (by simp)]
  simp

section Recognised

variable {host : Host} {entries : List (List UInt8)} {signingThreshold : Int}

/-- The verification script made from sorted entries. -/
def multiSigScript (host : Host) (entries : List (List UInt8))
    (signingThreshold : Int) : VerificationScript where
  script := .items (assemble (multiSigProgram host entries signingThreshold))

theorem parsePushInt_multiSigScript
    (positive : 1 ≤ signingThreshold) (small : signingThreshold ≤ 1024) :
    parsePushInt (multiSigScript host entries signingThreshold).script 0 =
      .ok
        (signingThreshold,
          (Instruction.pushInt signingThreshold).encode.length) := by
  rw [multiSigScript, assemble_multiSigProgram]
  have parsed :=
    parsePushInt_encode []
      (keyBytes entries ++
        ((Instruction.pushInt entries.length).encode ++
          (Opcode.syscall ::
            LittleEndian.toBytes 4
              (host.interopGetHash .systemCryptoCheckMultisig).toNat)))
      positive (by omega)
  simpa using parsed

/-- Such a script is too long for a single signature. -/
theorem forty_two_le_length
    (exact : ∀ entry ∈ entries, entry.length = 33)
    (nonempty : entries ≠ []) (few : entries.length ≤ 1024)
    (positive : 1 ≤ signingThreshold) (small : signingThreshold ≤ 1024) :
    42 ≤ (multiSigScript host entries signingThreshold).script.len := by
  have count := List.length_pos_iff.mpr nonempty
  have ofThreshold := encode_pushInt_bounds positive small
  have ofCount :=
    @encode_pushInt_bounds (entries.length : Int) (by omega) (by omega)
  rw [multiSigScript, assemble_multiSigProgram, Slice.len]
  simp only [List.length_append, List.length_cons,
    length_keyBytes exact, LittleEndian.length_toBytes]
  omega

theorem isSingleSig_multiSigScript
    (exact : ∀ entry ∈ entries, entry.length = 33)
    (nonempty : entries ≠ []) (few : entries.length ≤ 1024)
    (positive : 1 ≤ signingThreshold) (small : signingThreshold ≤ 1024) :
    isSingleSig host (multiSigScript host entries signingThreshold) =
      false := by
  have long :=
    @forty_two_le_length host entries signingThreshold exact nonempty few
      positive small
  rw [isSingleSig, if_pos (by omega)]

theorem isMultiSig_multiSigScript
    (exact : ∀ entry ∈ entries, entry.length = 33)
    (nonempty : entries ≠ []) (few : entries.length ≤ 1024)
    (positive : 1 ≤ signingThreshold)
    (enough : signingThreshold ≤ entries.length) :
    isMultiSig host (multiSigScript host entries signingThreshold) =
      true := by
  have count := List.length_pos_iff.mpr nonempty
  have long :=
    @forty_two_le_length host entries signingThreshold exact nonempty few
      positive (by omega)
  rcases @encode_pushInt_head (entries.length : Int) (by omega) (by omega)
    with ⟨opcode, rest, shape, different⟩
  have tail :=
    @checkTail_count host
      ((Instruction.pushInt signingThreshold).encode ++ keyBytes entries)
      entries.length (by omega) few
  rw [List.append_assoc, List.length_append, length_keyBytes exact] at tail
  rw [isMultiSig, if_neg (by omega),
    parsePushInt_multiSigScript positive (by omega)]
  dsimp only
  rw [if_neg (by simp only [maxPublicKeysPerMultisigAccount]; omega),
    multiSigScript, assemble_multiSigProgram, Slice.content]
  have scanned :=
    scanKeys_keyBytes exact different
      (Instruction.pushInt signingThreshold).encode
      (rest ++
        (Opcode.syscall ::
          LittleEndian.toBytes 4
            (host.interopGetHash .systemCryptoCheckMultisig).toNat)) 0
  rw [← List.cons_append, ← shape, Nat.zero_add] at scanned
  rw [scanned]
  dsimp only
  rw [if_neg (by simp only [maxPublicKeysPerMultisigAccount]; omega),
    if_neg (by omega), tail]

theorem getSigningThreshold_multiSigScript
    (exact : ∀ entry ∈ entries, entry.length = 33)
    (nonempty : entries ≠ []) (few : entries.length ≤ 1024)
    (positive : 1 ≤ signingThreshold)
    (enough : signingThreshold ≤ entries.length) :
    getSigningThreshold host
        (multiSigScript host entries signingThreshold) =
      .ok (Int32.ofInt signingThreshold) := by
  rw [getSigningThreshold,
    isSingleSig_multiSigScript exact nonempty few positive (by omega),
    if_neg Bool.false_ne_true,
    parsePushInt_multiSigScript positive (by omega)]
  simp only [bind, Except.bind]
  rw [if_neg (by simp only [maxPublicKeysPerMultisigAccount]; omega)]

end Recognised

/-- The keys in ascending order of their compressed forms. -/
def sortKeys (publicKeys : List (EcPublicKey curve)) :
    List (EcPublicKey curve) :=
  publicKeys.mergeSort fun left right =>
    (compare left.compressed.val right.compressed.val).isLE

theorem sortEntries_map (publicKeys : List (EcPublicKey curve)) :
    sortEntries (publicKeys.map fun key => key.compressed.val) =
      (sortKeys publicKeys).map fun key => key.compressed.val := by
  rw [sortEntries_eq, sortKeys]
  symm
  apply List.map_mergeSort
  intro left _ right _
  rfl

theorem length_sortKeys (publicKeys : List (EcPublicKey curve)) :
    (sortKeys publicKeys).length = publicKeys.length :=
  List.length_mergeSort _

/-- The encodings in a script are compressed ones. -/
theorem length_compressed (publicKeys : List (EcPublicKey curve)) :
    ∀ entry ∈ publicKeys.map fun key => key.compressed.val,
      entry.length = 33 := by
  intro entry member
  rcases List.mem_map.mp member with ⟨key, -, rfl⟩
  exact key.compressed.property

/-- Taking the script apart gives the keys it was made from. -/
theorem getPublicKeys_multiSigScript {host : Host} {alloc : Allocator}
    {publicKeys : List (EcPublicKey curve)} {signingThreshold : Int}
    (nonempty : publicKeys ≠ []) (few : publicKeys.length ≤ 1024)
    (positive : 1 ≤ signingThreshold)
    (enough : signingThreshold ≤ publicKeys.length)
    (serves : alloc.Serves 0x2000) :
    getPublicKeys curve host alloc
        (multiSigScript host
          (publicKeys.map fun key => key.compressed.val)
          signingThreshold) =
      .ok
        (publicKeys.map fun key => EcPublicKey.ofPoint key.point true) := by
  have exact := length_compressed publicKeys
  have count :
      (publicKeys.map fun key => key.compressed.val).length =
        publicKeys.length :=
    List.length_map _
  have some' : (publicKeys.map fun key => key.compressed.val) ≠ [] := by
    simpa using nonempty
  have positiveCount := List.length_pos_iff.mpr nonempty
  rcases @encode_pushInt_head (publicKeys.length : Int) (by omega) (by omega)
    with ⟨opcode, rest, shape, different⟩
  have counted :=
    countKeys_keyBytes exact different
      (Instruction.pushInt signingThreshold).encode
      (rest ++
        (Opcode.syscall ::
          LittleEndian.toBytes 4
            (host.interopGetHash .systemCryptoCheckMultisig).toNat))
  have read :=
    @readKeys_keyBytes curve alloc (serves _ (by decide)) publicKeys
      (Instruction.pushInt signingThreshold).encode
      (opcode :: rest ++
        (Opcode.syscall ::
          LittleEndian.toBytes 4
            (host.interopGetHash .systemCryptoCheckMultisig).toNat))
  rw [← List.cons_append, ← shape, count] at counted
  rw [← shape] at read
  rw [getPublicKeys,
    isSingleSig_multiSigScript exact some' (by omega) positive (by omega),
    if_neg Bool.false_ne_true,
    isMultiSig_multiSigScript exact some' (by omega) positive (by omega),
    if_neg Bool.true_eq_false.mp,
    parsePushInt_multiSigScript positive (by omega)]
  simp only [bind, Except.bind]
  rw [multiSigScript, assemble_multiSigProgram, Slice.content, count,
    counted, if_neg (by omega),
    serves.neocGrants (by simp only [pointerSize]; omega)
      (by simp only [pointerSize]; omega),
    if_neg Bool.true_eq_false.mp, read]

/-! ## From keys to script and back -/

theorem encodeKeys_map {alloc : Allocator} (granted : alloc.grants 33 = true)
    (publicKeys : List (EcPublicKey curve)) :
    encodeKeys alloc (publicKeys.map some) =
      .ok (publicKeys.map fun key => key.compressed.val) := by
  induction publicKeys with
  | nil => rfl
  | cons publicKey rest induction =>
      have encoded :
          publicKey.getEncoded alloc true =
            .ok publicKey.compressed.val := by
        simp [EcPublicKey.getEncoded, granted]
      rw [List.map_cons, encodeKeys, encoded, induction]
      rfl

theorem encodeKeys_map_refused {alloc : Allocator}
    (refused : alloc.grants 33 = false)
    {publicKeys : List (EcPublicKey curve)} (nonempty : publicKeys ≠ []) :
    encodeKeys alloc (publicKeys.map some) =
      .error (.error .outOfMemory "Failed to allocate memory") := by
  cases publicKeys with
  | nil => exact absurd rfl nonempty
  | cons publicKey rest =>
      rw [List.map_cons, encodeKeys]
      simp [EcPublicKey.getEncoded, refused, bind, Except.bind]

/-- The outcome does not depend on the order of the keys. -/
theorem createMultiSig_perm (host : Host) (alloc : Allocator)
    {left right : List (EcPublicKey curve)} (perm : left.Perm right)
    (signingThreshold : Int32) :
    createMultiSig host alloc (.items (left.map some)) signingThreshold =
      createMultiSig host alloc (.items (right.map some))
        signingThreshold := by
  have sameLength := perm.length_eq
  simp only [createMultiSig, Slice.len, List.length_map, sameLength]
  split
  · rfl
  · rename_i accepted
    have nonempty : right ≠ [] := by
      rintro rfl
      exact accepted (.inl rfl)
    have nonempty' : left ≠ [] := by
      rintro rfl
      exact nonempty (List.nil_perm.mp perm)
    cases granted : alloc.grants 33 with
    | false =>
        rw [encodeKeys_map_refused granted nonempty,
          encodeKeys_map_refused granted nonempty']
    | true =>
        have sameEntries :=
          sortEntries_perm (perm.map fun key => key.compressed.val)
        rw [encodeKeys_map granted, encodeKeys_map granted]
        simp only [bind, Except.bind, sameEntries]

/-- With 72 KiB at hand the script is made. -/
theorem createMultiSig_eq {host : Host} {alloc : Allocator}
    {publicKeys : List (EcPublicKey curve)} {signingThreshold : Int32}
    (nonempty : publicKeys ≠ [])
    (few : publicKeys.length ≤ maxPublicKeysPerMultisigAccount)
    (positive : 1 ≤ signingThreshold.toInt)
    (enough : signingThreshold.toInt ≤ publicKeys.length)
    (serves : alloc.Serves 0x12000) :
    createMultiSig host alloc (.items (publicKeys.map some))
        signingThreshold =
      .ok
        (multiSigScript host
          ((sortKeys publicKeys).map fun key => key.compressed.val)
          signingThreshold.toInt) := by
  have positiveCount := List.length_pos_iff.mpr nonempty
  simp only [maxPublicKeysPerMultisigAccount] at few
  have exact := length_compressed (sortKeys publicKeys)
  have count :
      ((sortKeys publicKeys).map fun key => key.compressed.val).length =
        publicKeys.length := by
    rw [List.length_map, length_sortKeys]
  have assembles :=
    @pushMultiSig_assembles alloc host _ exact
      (by simp only [maxPublicKeysPerMultisigAccount]; omega)
      signingThreshold
  have ofThreshold := encode_pushInt_bounds positive (by omega)
  have ofCount :=
    @encode_pushInt_bounds (publicKeys.length : Int) (by omega) (by omega)
  have size :
      1 ≤
          (assemble
            (multiSigProgram host
              ((sortKeys publicKeys).map fun key => key.compressed.val)
              signingThreshold.toInt)).length ∧
        (assemble
            (multiSigProgram host
              ((sortKeys publicKeys).map fun key => key.compressed.val)
              signingThreshold.toInt)).length ≤
          11 + 35 * publicKeys.length := by
    rw [assemble_multiSigProgram]
    simp only [List.length_append, List.length_cons, count,
      length_keyBytes exact, LittleEndian.length_toBytes]
    omega
  have built :=
    ScriptBuilder.build_succeeds assembles (serves.mono (by omega))
  have notRefused :
      ¬(publicKeys.length = 0 ∨ signingThreshold ≤ 0 ∨
        Int32.ofNat publicKeys.length < signingThreshold) := by
    rw [Int32.le_iff_toInt_le, Int32.lt_iff_toInt_lt,
      Int32.toInt_ofNat_of_lt (by omega)]
    have zero : (0 : Int32).toInt = 0 := rfl
    omega
  rw [createMultiSig]
  simp only [Slice.len, List.length_map]
  rw [if_neg notRefused,
    if_neg (by simp only [maxPublicKeysPerMultisigAccount]; omega),
    if_neg
      (by
        rw [serves.neocGrants (by simp only [entrySize]; omega)
          (by simp only [entrySize]; omega)]
        simp),
    encodeKeys_map (serves _ (by omega))]
  simp only [bind, Except.bind]
  rw [sortEntries_map, built]
  simp only [allocate]
  rw [serves.neocGrants (by decide) (by decide), if_neg (by simp),
    if_neg (by omega),
    serves.neocGrants (by omega) (by omega), if_neg (by simp)]
  rfl

/--
For every list of keys and every threshold the script is the same whatever
the order of the keys, is recognised as a multi-signature script and not as a
single-signature one, and is taken apart into the threshold, the number and
the points of the keys in ascending order of their compressed forms.
-/
theorem createMultiSig_roundTrip
    {host : Host}
    {alloc : Allocator}
    {publicKeys : List (EcPublicKey curve)}
    {signingThreshold : Int32}
    (nonempty : publicKeys ≠ [])
    (few : publicKeys.length ≤ maxPublicKeysPerMultisigAccount)
    (positive : 1 ≤ signingThreshold.toInt)
    (enough : signingThreshold.toInt ≤ publicKeys.length)
    (serves : alloc.Serves 0x12000) :
    ∃ verificationScript,
      (∀ permuted : List (EcPublicKey curve),
        permuted.Perm publicKeys →
          createMultiSig host alloc (.items (permuted.map some))
            signingThreshold = .ok verificationScript) ∧
      isMultiSig host verificationScript = true ∧
      isSingleSig host verificationScript = false ∧
      getSigningThreshold host verificationScript =
        .ok signingThreshold ∧
      getNrAccounts curve host alloc verificationScript =
        .ok (Int32.ofNat publicKeys.length) ∧
      ∃ found,
        getPublicKeys curve host alloc verificationScript = .ok found ∧
        (found.map EcPublicKey.point).Perm
          (publicKeys.map EcPublicKey.point) ∧
        found.Pairwise fun left right =>
          (compare left.compressed.val right.compressed.val).isLE = true := by
  have positiveCount := List.length_pos_iff.mpr nonempty
  have created := @createMultiSig_eq curve host alloc publicKeys
    signingThreshold nonempty few positive enough serves
  simp only [maxPublicKeysPerMultisigAccount] at few
  have sorted := length_sortKeys publicKeys
  have nonempty' : sortKeys publicKeys ≠ [] :=
    List.length_pos_iff.mp (by omega)
  have exact := length_compressed (sortKeys publicKeys)
  have count :
      ((sortKeys publicKeys).map fun key => key.compressed.val).length =
        publicKeys.length := by
    rw [List.length_map, sorted]
  have entries :
      ((sortKeys publicKeys).map fun key => key.compressed.val) ≠ [] :=
    List.length_pos_iff.mp (by omega)
  have found :=
    @getPublicKeys_multiSigScript curve host alloc (sortKeys publicKeys)
      signingThreshold.toInt nonempty' (by omega) positive (by omega)
      (serves.mono (by decide))
  refine ⟨_, ?_, ?_, ?_, ?_, ?_, _, found, ?_, ?_⟩
  · intro permuted perm
    rw [createMultiSig_perm host alloc perm, created]
  · exact
      isMultiSig_multiSigScript exact entries (by omega) positive (by omega)
  · exact
      isSingleSig_multiSigScript exact entries (by omega) positive (by omega)
  · rw [getSigningThreshold_multiSigScript exact entries (by omega) positive
      (by omega), Int32.ofInt_toInt]
  · rw [getNrAccounts, found]
    simp only [bind, Except.bind, List.length_map, sorted]
  · rw [List.map_map]
    exact (List.mergeSort_perm publicKeys _).map EcPublicKey.point
  · rw [List.pairwise_map]
    have ascending := sortEntries_pairwise
      (publicKeys.map fun key => key.compressed.val)
    rw [sortEntries_map, List.pairwise_map] at ascending
    apply ascending.imp
    intro left right below
    rw [left.compressed_eq, right.compressed_eq] at below
    exact below

/-- Both keys in either order have one script, which is recognised. -/
theorem createMultiSig_roundTrip_basePoints :
    ∃ verificationScript,
      createMultiSig (Host.ofTables serviceDigests []) .ample
          (.items ([baseKey, inverseKey].map some)) 2 =
        .ok verificationScript ∧
      createMultiSig (Host.ofTables serviceDigests []) .ample
          (.items ([inverseKey, baseKey].map some)) 2 =
        .ok verificationScript ∧
      isMultiSig (Host.ofTables serviceDigests []) verificationScript =
        true ∧
      getSigningThreshold (Host.ofTables serviceDigests [])
          verificationScript =
        .ok 2 := by
  have roundTrip :=
    @createMultiSig_roundTrip Curve.basePoints
      (Host.ofTables serviceDigests []) .ample
      [baseKey, inverseKey] 2 (List.cons_ne_nil _ _) (by decide)
      (by decide) (by decide) (Allocator.ample_serves (by decide))
  rcases roundTrip with
    ⟨verificationScript, created, recognised, -, threshold, -⟩
  exact
    ⟨verificationScript, created _ (List.Perm.refl _),
      created _ (List.Perm.swap _ _ _), recognised, threshold⟩

end VerificationScript

end NeoC
