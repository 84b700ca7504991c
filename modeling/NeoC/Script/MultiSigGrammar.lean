import NeoC.Script.VerificationScript

/-!
# The grammar of multi-signature scripts

`neoc_verification_script_is_multi_sig` walks over the bytes of a script with
an offset.  `MultiSigForm` says what it looks for: a push of the threshold,
key blocks, a push of their number and the syscall.  An integer may be pushed
in any of five ways, so a script is not determined by its threshold and keys,
but it has at most one threshold and one number of keys.

The last part follows the loads of the parser one by one.  They are written
so that a load behind the end of the script would show.
-/

namespace NeoC

open Foundation NeoVm

namespace VerificationScript

/-! ## The grammar -/

/-- The opcodes with an operand, and the number of its bytes. -/
def wideForms : List (UInt8 × Nat) :=
  [(Opcode.pushInt8, 1), (Opcode.pushInt16, 2), (Opcode.pushInt32, 4),
    (Opcode.pushInt64, 8)]

/-- Bytes that push an integer. -/
inductive IntegerPush : List UInt8 → Int → Prop where
  | small {value : Nat} (positive : 1 ≤ value) (small : value ≤ 16) :
      IntegerPush [UInt8.ofNat (0x10 + value)] value
  | wide {opcode : UInt8} {operand : List UInt8}
      (form : (opcode, operand.length) ∈ wideForms) :
      IntegerPush (opcode :: operand) (LittleEndian.ofBytesSigned operand)

/-- The blocks `0x0C 0x21` with a key each. -/
def keyBlocks (keys : List (Bytes 33)) : List UInt8 :=
  keys.flatMap fun key => 0x0C :: 0x21 :: key.val

/-- The syscall that ends a multi-signature script. -/
def checkMultisigCall (host : Host) : List UInt8 :=
  0x41 ::
    LittleEndian.toBytes 4
      (host.interopGetHash .systemCryptoCheckMultisig).toNat

/-- A script that asks for `threshold` signatures of `count` keys. -/
structure MultiSigForm (host : Host) (script : List UInt8)
    (threshold count : Nat) : Prop where
  parts :
    ∃ first keys last,
      IntegerPush first threshold ∧ keys.length = count ∧
        IntegerPush last count ∧
          script =
            first ++ (keyBlocks keys ++ (last ++ checkMultisigCall host))
  positive : 1 ≤ threshold
  enough : threshold ≤ count
  few : count ≤ 1024

/-! ## Parsing an integer -/

theorem IntegerPush.ne_nil {push : List UInt8} {value : Int}
    (pushes : IntegerPush push value) :
    push ≠ [] := by
  cases pushes with
  | small positive small => exact List.cons_ne_nil _ _
  | wide form => exact List.cons_ne_nil _ _

/-- A push of an integer does not start like a key. -/
theorem IntegerPush.head_ne {push : List UInt8} {value : Int}
    (pushes : IntegerPush push value) :
    ∃ opcode rest, push = opcode :: rest ∧ opcode ≠ Opcode.pushData1 := by
  cases pushes with
  | small positive small =>
      refine ⟨_, _, rfl, ?_⟩
      rename_i value
      interval_cases value <;> decide
  | @wide opcode operand form =>
      refine ⟨_, _, rfl, ?_⟩
      rintro rfl
      simp [wideForms, Opcode.pushData1, Opcode.pushInt8, Opcode.pushInt16,
        Opcode.pushInt32, Opcode.pushInt64] at form

theorem parseOperand_operand (before operand after : List UInt8)
    (text : String) :
    parseOperand (before ++ (operand ++ after)) before.length
        operand.length text =
      .ok
        (LittleEndian.ofBytesSigned operand,
          before.length + operand.length) := by
  rw [parseOperand, if_neg (by simp)]
  simp only [List.drop_left, List.take_left]

/-- An integer that was pushed in one of the five ways is parsed back. -/
theorem parsePushInt_push {push : List UInt8} {value : Int}
    (before after : List UInt8) (pushes : IntegerPush push value) :
    parsePushInt (.items (before ++ (push ++ after))) before.length =
      .ok (value, before.length + push.length) := by
  cases pushes with
  | @small value low high =>
      rw [parsePushInt, if_neg (by simp)]
      simp only [List.singleton_append, getD_append_length]
      interval_cases value <;> rfl
  | @wide opcode operand form =>
      have parsed (text : String) :=
        parseOperand_operand (before ++ [opcode]) operand after text
      simp only [List.append_assoc, List.singleton_append,
        List.length_append, List.length_singleton] at parsed
      rw [parsePushInt, if_neg (by simp)]
      simp only [List.cons_append, getD_append_length]
      simp only [wideForms, List.mem_cons, Prod.mk.injEq,
        List.not_mem_nil, or_false] at form
      rcases form with ⟨rfl, exact⟩ | ⟨rfl, exact⟩ | ⟨rfl, exact⟩ |
        ⟨rfl, exact⟩
      all_goals
        rw [exact] at parsed
        simp only [parsed, List.length_cons, exact]
        rfl

/-- The operand that was parsed stands at the offset. -/
theorem parseOperand_eq_ok {content : List UInt8} {offset width : Nat}
    {text : String} {value : Int} {stop : Nat}
    (parsed : parseOperand content offset width text = .ok (value, stop)) :
    ∃ operand after,
      content.drop offset = operand ++ after ∧ operand.length = width ∧
        LittleEndian.ofBytesSigned operand = value ∧
        stop = offset + width := by
  rw [parseOperand] at parsed
  split at parsed
  · cases parsed
  · rename_i inside
    injection parsed with same
    injection same with equal equal'
    refine
      ⟨(content.drop offset).take width, (content.drop offset).drop width,
        (List.take_append_drop _ _).symm, ?_, equal, equal'.symm⟩
    rw [List.length_take, List.length_drop]
    omega

theorem drop_eq_cons {content : List UInt8} {offset : Nat}
    (inside : offset < content.length) :
    content.drop offset =
      content.getD offset 0 :: content.drop (offset + 1) := by
  rw [List.drop_eq_getElem_cons inside]
  simp [inside]

/-- The push that was parsed stands at the offset. -/
theorem parsePushInt_eq_ok {content : List UInt8} {offset stop : Nat}
    {value : Int} (positive : 1 ≤ value)
    (parsed : parsePushInt (.items content) offset = .ok (value, stop)) :
    ∃ push after,
      content.drop offset = push ++ after ∧ stop = offset + push.length ∧
        IntegerPush push value := by
  rw [parsePushInt] at parsed
  split at parsed
  · cases parsed
  · rename_i inside
    have head := drop_eq_cons (Nat.lt_of_not_le inside)
    dsimp only at parsed
    generalize content.getD offset 0 = opcode at parsed head
    have wide {width : Nat} {text : String}
        (form : (opcode, width) ∈ wideForms)
        (operandParsed :
          parseOperand content (offset + 1) width text =
            .ok (value, stop)) :
        ∃ push after,
          content.drop offset = push ++ after ∧
            stop = offset + push.length ∧ IntegerPush push value := by
      rcases parseOperand_eq_ok operandParsed with
        ⟨operand, after, split, exact, equal, stopped⟩
      subst exact equal
      refine ⟨opcode :: operand, after, ?_, ?_, .wide form⟩
      · rw [head, split]
        rfl
      · rw [stopped, List.length_cons]
        omega
    split_ifs at parsed with minusOne zero ranged int8 int16 int32 int64
    · injection parsed with same
      injection same with equal
      omega
    · injection parsed with same
      injection same with equal
      omega
    · injection parsed with same
      injection same with equal stopped
      have low : 0x11 ≤ opcode.toNat := UInt8.le_iff_toNat_le.mp ranged.1
      have high : opcode.toNat ≤ 0x20 := UInt8.le_iff_toNat_le.mp ranged.2
      have code : opcode = UInt8.ofNat (0x10 + (opcode.toNat - 0x10)) := by
        rw [Nat.add_sub_cancel' (by omega), UInt8.ofNat_toNat]
      have exact : value = ((opcode.toNat - 0x10 : Nat) : Int) := by
        have base : Opcode.push0.toNat = 0x10 := rfl
        omega
      refine ⟨[opcode], content.drop (offset + 1), head, stopped.symm, ?_⟩
      rw [exact, code]
      have cut :
          (UInt8.ofNat (0x10 + (opcode.toNat - 0x10))).toNat - 0x10 =
            opcode.toNat - 0x10 := by
        rw [← code]
      rw [cut]
      exact .small (by omega) (by omega)
    · exact wide (by simp [wideForms, int8]) parsed
    · exact wide (by simp [wideForms, int16]) parsed
    · exact wide (by simp [wideForms, int32]) parsed
    · exact wide (by simp [wideForms, int64]) parsed

/-! ## Walking over the keys -/

theorem keyBytes_map (keys : List (Bytes 33)) :
    keyBytes (keys.map Subtype.val) = keyBlocks keys := by
  induction keys with
  | nil => rfl
  | cons key rest induction =>
      rw [List.map_cons, keyBytes_cons _ key.property, induction]
      rfl

theorem length_keyBlocks (keys : List (Bytes 33)) :
    (keyBlocks keys).length = 35 * keys.length := by
  have exact : ∀ entry ∈ keys.map Subtype.val, entry.length = 33 := by
    intro entry member
    rcases List.mem_map.mp member with ⟨key, -, rfl⟩
    exact key.property
  rw [← keyBytes_map, length_keyBytes exact, List.length_map]

theorem scanKeys_keyBlocks (keys : List (Bytes 33)) {opcode : UInt8}
    (different : opcode ≠ Opcode.pushData1)
    (before after : List UInt8) (keyCount : Nat) :
    scanKeys (before ++ (keyBlocks keys ++ opcode :: after))
        before.length keyCount =
      some (before.length + 35 * keys.length, keyCount + keys.length) := by
  have exact : ∀ entry ∈ keys.map Subtype.val, entry.length = 33 := by
    intro entry member
    rcases List.mem_map.mp member with ⟨key, -, rfl⟩
    exact key.property
  have scanned :=
    scanKeys_keyBytes exact different before after keyCount
  rwa [keyBytes_map, List.length_map] at scanned

/-- What the scan has passed over is key blocks. -/
theorem scanKeys_eq_some {content : List UInt8} {offset keyCount : Nat}
    {stop total : Nat}
    (scanned : scanKeys content offset keyCount = some (stop, total)) :
    ∃ keys after,
      content.drop offset = keyBlocks keys ++ after ∧
        stop = offset + 35 * keys.length ∧
        total = keyCount + keys.length := by
  fun_induction scanKeys content offset keyCount with
  | case1 offset keyCount outside =>
      cases scanned
      exact ⟨[], _, rfl, rfl, rfl⟩
  | case2 offset keyCount inside different =>
      cases scanned
      exact ⟨[], _, rfl, rfl, rfl⟩
  | case3 => cases scanned
  | case4 => cases scanned
  | case5 => cases scanned
  | case6 offset keyCount inside opcode long length room induction =>
      rcases induction scanned with ⟨keys, after, split, stopped, counted⟩
      have first := drop_eq_cons (Nat.lt_of_not_le inside)
      have second :=
        @drop_eq_cons content (offset + 1) (by omega)
      rw [not_not.mp opcode] at first
      rw [not_not.mp length] at second
      have exact :
          ((content.drop (offset + 2)).take 33).length = 33 := by
        rw [List.length_take, List.length_drop]
        omega
      have whole := List.take_append_drop 33 (content.drop (offset + 2))
      rw [List.drop_drop, split] at whole
      have shape :
          keyBlocks (⟨_, exact⟩ :: keys) ++ after =
            0x0C :: 0x21 ::
              ((content.drop (offset + 2)).take 33 ++
                (keyBlocks keys ++ after)) := by
        simp [keyBlocks]
      refine ⟨⟨_, exact⟩ :: keys, after, ?_, ?_, ?_⟩
      · rw [first, second, shape, whole]
        rfl
      · rw [stopped, List.length_cons]
        omega
      · rw [counted, List.length_cons]
        omega

/-! ## The end of the script -/

/-- Behind the keys stand their number and the syscall. -/
theorem checkTail_push (host : Host) (before : List UInt8)
    {last : List UInt8} {count : Nat} (pushes : IntegerPush last count) :
    checkTail host (before ++ (last ++ checkMultisigCall host))
        before.length count =
      true := by
  have parsed :=
    parsePushInt_push before (checkMultisigCall host) pushes
  rw [checkTail, parsed]
  dsimp only
  rw [checkMultisigCall, ← List.append_assoc, ← List.length_append]
  generalize before ++ last = front
  have word :=
    wordAt_append (front ++ [Opcode.syscall])
      (host.interopGetHash .systemCryptoCheckMultisig)
  rw [List.append_assoc, List.singleton_append, List.length_append,
    List.length_singleton] at word
  change
    wordAt
      (front ++
        0x41 ::
          LittleEndian.toBytes 4
            (host.interopGetHash .systemCryptoCheckMultisig).toNat)
      (front.length + 1) = _ at word
  rw [if_neg (by simp), if_neg (by simp [Opcode.syscall]),
    if_neg (by simp), word, if_neg (by simp)]
  simp

/-- Four bytes are the bytes of the word read from them. -/
theorem take_of_wordAt {content : List UInt8} {offset : Nat} {word : UInt32}
    (exact : offset + 4 = content.length)
    (read : word = wordAt content offset) :
    content.drop offset = LittleEndian.toBytes 4 word.toNat := by
  have length : (content.drop offset).length = 4 := by
    rw [List.length_drop]
    omega
  have bounded := LittleEndian.ofBytes_lt (content.drop offset)
  have stored := LittleEndian.toBytes_ofBytes (content.drop offset)
  rw [length] at bounded stored
  rw [read, wordAt, List.take_of_length_le (by omega),
    UInt32.toNat_ofNat_of_lt' (by omega), stored]

/-- An accepted end consists of the number and the syscall. -/
theorem checkTail_eq_true {host : Host} {content : List UInt8}
    {offset count : Nat} (positive : 1 ≤ count)
    (checked : checkTail host content offset count = true) :
    ∃ last,
      IntegerPush last count ∧
        content.drop offset = last ++ checkMultisigCall host := by
  rw [checkTail] at checked
  split at checked
  · cases checked
  · rename_i declaredCount stop parsed
    split_ifs at checked with declared missing short different
    have same : declaredCount = count := not_not.mp declared
    rw [same] at parsed
    rcases parsePushInt_eq_ok (by omega) parsed with
      ⟨last, after, split, stopped, pushes⟩
    rw [not_or, not_not] at missing
    have finished := of_decide_eq_true checked
    have opcode := drop_eq_cons (Nat.lt_of_not_le missing.1)
    rw [missing.2,
      take_of_wordAt (by omega) (not_not.mp different)] at opcode
    refine ⟨last, pushes, ?_⟩
    rw [split]
    congr 1
    have rest := congrArg (List.drop last.length) split
    rw [List.drop_drop, List.drop_left, ← stopped, opcode] at rest
    exact rest.symm

/-! ## What is accepted -/

section Accepted

variable {host : Host} {script : List UInt8} {threshold count : Nat}

/-- The parser finds the threshold and the keys of a form. -/
theorem MultiSigForm.walk (form : MultiSigForm host script threshold count) :
    ∃ offset,
      parsePushInt (.items script) 0 = .ok ((threshold : Int), offset) ∧
        scanKeys script offset 0 = some (offset + 35 * count, count) ∧
        checkTail host script (offset + 35 * count) count = true := by
  rcases form with
    ⟨⟨first, keys, last, ofThreshold, rfl, ofCount, rfl⟩, positive, enough,
      few⟩
  rcases ofCount.head_ne with ⟨opcode, rest, shape, different⟩
  refine ⟨first.length, ?_, ?_, ?_⟩
  · have parsed :=
      parsePushInt_push []
        (keyBlocks keys ++ (last ++ checkMultisigCall host)) ofThreshold
    simpa using parsed
  · have scanned :=
      scanKeys_keyBlocks keys different first
        (rest ++ checkMultisigCall host) 0
    rw [← List.cons_append, ← shape, Nat.zero_add] at scanned
    exact scanned
  · have checked :=
      checkTail_push host (first ++ keyBlocks keys) ofCount
    rw [List.length_append, length_keyBlocks, List.append_assoc] at checked
    exact checked

/-- The shortest form has one key and is 42 bytes long. -/
theorem MultiSigForm.long (form : MultiSigForm host script threshold count) :
    42 ≤ script.length := by
  rcases form with
    ⟨⟨first, keys, last, ofThreshold, rfl, ofCount, rfl⟩, positive, enough,
      few⟩
  have some := List.length_pos_iff.mpr ofThreshold.ne_nil
  have some' := List.length_pos_iff.mpr ofCount.ne_nil
  simp only [List.length_append, length_keyBlocks, checkMultisigCall,
    List.length_cons, LittleEndian.length_toBytes]
  omega

theorem isMultiSig_of_form (form : MultiSigForm host script threshold count) :
    isMultiSig host { script := .items script } = true := by
  have long := form.long
  have positive := form.positive
  have enough := form.enough
  have few := form.few
  rcases form.walk with ⟨offset, parsed, scanned, checked⟩
  rw [isMultiSig, if_neg (by simpa [Slice.len] using long)]
  dsimp only [Slice.content]
  rw [parsed]
  dsimp only
  rw [if_neg (by simp only [maxPublicKeysPerMultisigAccount]; omega),
    scanned]
  dsimp only
  rw [if_neg (by simp only [maxPublicKeysPerMultisigAccount]; omega),
    if_neg (by omega), checked]

theorem form_of_isMultiSig
    (accepted : isMultiSig host { script := .items script } = true) :
    ∃ threshold count, MultiSigForm host script threshold count := by
  rw [isMultiSig] at accepted
  split at accepted
  · cases accepted
  · dsimp only [Slice.content] at accepted
    split at accepted
    · cases accepted
    · rename_i value offset parsed
      split at accepted
      · cases accepted
      · rename_i bounded
        split at accepted
        · cases accepted
        · rename_i stop total scanned
          split at accepted
          · cases accepted
          rename_i countBounded
          split at accepted
          · cases accepted
          rename_i reached
          simp only [maxPublicKeysPerMultisigAccount] at bounded countBounded
          rcases parsePushInt_eq_ok (by omega) parsed with
            ⟨first, after, split, stopped, ofThreshold⟩
          rcases scanKeys_eq_some scanned with
            ⟨keys, after', split', stopped', counted⟩
          rcases checkTail_eq_true (by omega) accepted with
            ⟨last, ofCount, split''⟩
          rw [Nat.zero_add] at stopped counted
          subst stopped stopped' counted
          have exact : ((value.toNat : Nat) : Int) = value :=
            Int.toNat_of_nonneg (by omega)
          refine ⟨value.toNat, keys.length, ?_, by omega, by omega, by omega⟩
          refine ⟨first, keys, last, ?_, rfl, ofCount, ?_⟩
          · rw [exact]
            exact ofThreshold
          · rw [List.drop_zero] at split
            have behind := congrArg (List.drop first.length) split
            rw [List.drop_left, split'] at behind
            have behind' :=
              congrArg (List.drop (35 * keys.length)) split'
            rw [List.drop_drop, split'', ← length_keyBlocks,
              List.drop_left] at behind'
            rw [split, ← behind, ← behind']

theorem isMultiSig_iff_form :
    isMultiSig host { script := .items script } = true ↔
      ∃ threshold count, MultiSigForm host script threshold count := by
  constructor
  · exact form_of_isMultiSig
  · rintro ⟨threshold, count, form⟩
    exact isMultiSig_of_form form

/-- No script has two readings. -/
theorem MultiSigForm.unique {threshold' count' : Nat}
    (form : MultiSigForm host script threshold count)
    (form' : MultiSigForm host script threshold' count') :
    threshold = threshold' ∧ count = count' := by
  rcases form.walk with ⟨offset, parsed, scanned, -⟩
  rcases form'.walk with ⟨offset', parsed', scanned', -⟩
  rw [parsed] at parsed'
  injection parsed' with same
  injection same with sameThreshold sameOffset
  rw [sameOffset, scanned'] at scanned
  injection scanned with same
  injection same with _ sameCount
  exact ⟨by omega, sameCount.symm⟩

end Accepted

/-! ## The loads of the parser -/

/-- `script[offset]`; behind the end of the script there is nothing to load. -/
def load (content : List UInt8) (offset : Nat) : Outcome UInt8 :=
  match content[offset]? with
  | some byte => .ok byte
  | none => .error .illegalAccess

/-- The loads of a number of bytes from an offset on. -/
def loadBytes (content : List UInt8) (offset : Nat) :
    Nat → Outcome (List UInt8)
  | 0 => .ok []
  | width + 1 => do
      let byte ← load content offset
      let rest ← loadBytes content (offset + 1) width
      return byte :: rest

/-- `parseOperand`, load by load. -/
def parseOperandLoads (content : List UInt8) (offset width : Nat)
    (text : String) : Outcome (Int × Nat) :=
  if offset + width > content.length then
    .error (.error .invalidFormat text)
  else do
    let operand ← loadBytes content offset width
    .ok (LittleEndian.ofBytesSigned operand, offset + width)

/-- `neoc_verification_script_parse_push_int`, load by load. -/
def parsePushIntLoads (content : List UInt8) (offset : Nat) :
    Outcome (Int × Nat) :=
  if content.length ≤ offset then
    .error
      (.error .invalidFormat
        "Unexpected end of script while reading integer")
  else do
    let opcode ← load content offset
    if opcode = Opcode.pushM1 then
      .ok (-1, offset + 1)
    else if opcode = Opcode.push0 then
      .ok (0, offset + 1)
    else if Opcode.push1 ≤ opcode ∧ opcode ≤ Opcode.push16 then
      .ok ((opcode.toNat : Int) - Opcode.push0.toNat, offset + 1)
    else if opcode = Opcode.pushInt8 then
      parseOperandLoads content (offset + 1) 1 "Invalid PUSHINT8 encoding"
    else if opcode = Opcode.pushInt16 then
      parseOperandLoads content (offset + 1) 2 "Invalid PUSHINT16 encoding"
    else if opcode = Opcode.pushInt32 then
      parseOperandLoads content (offset + 1) 4 "Invalid PUSHINT32 encoding"
    else if opcode = Opcode.pushInt64 then
      parseOperandLoads content (offset + 1) 8 "Invalid PUSHINT64 encoding"
    else
      .error (.error .invalidFormat "Unsupported integer opcode in script")

/-- The loop over the keys, load by load. -/
def scanKeysLoads (content : List UInt8) (offset keyCount : Nat) :
    Outcome (Option (Nat × Nat)) :=
  if content.length ≤ offset then
    .ok (some (offset, keyCount))
  else do
    let opcode ← load content offset
    if opcode ≠ Opcode.pushData1 then
      .ok (some (offset, keyCount))
    else if offset + 2 > content.length then
      .ok none
    else
      let len ← load content (offset + 1)
      if len ≠ 33 then
        .ok none
      else if offset + 2 + 33 > content.length then
        .ok none
      else
        scanKeysLoads content (offset + 2 + 33) (keyCount + 1)
termination_by content.length - offset

/-- What has to follow the keys, load by load. -/
def checkTailLoads (host : Host) (content : List UInt8)
    (offset keyCount : Nat) : Outcome Bool :=
  match parsePushIntLoads content offset with
  | .error (.error _ _) => .ok false
  | .error reason => .error reason
  | .ok (declaredCount, offset) =>
      if declaredCount ≠ keyCount then
        .ok false
      else if content.length ≤ offset then
        .ok false
      else do
        let opcode ← load content offset
        if opcode ≠ Opcode.syscall then
          .ok false
        else if offset + 1 + 4 > content.length then
          .ok false
        else
          let word ← loadBytes content (offset + 1) 4
          if host.interopGetHash .systemCryptoCheckMultisig ≠
              UInt32.ofNat (LittleEndian.ofBytes word) then
            .ok false
          else
            .ok (decide (offset + 1 + 4 = content.length))

/-- `neoc_verification_script_is_multi_sig` on a script, load by load. -/
def isMultiSigLoads (host : Host) (content : List UInt8) : Outcome Bool :=
  if content.length < 42 then
    .ok false
  else
    match parsePushIntLoads content 0 with
    | .error (.error _ _) => .ok false
    | .error reason => .error reason
    | .ok (threshold, offset) =>
        if threshold < 1 ∨
            (maxPublicKeysPerMultisigAccount : Int) < threshold then
          .ok false
        else do
          match ← scanKeysLoads content offset 0 with
          | none => .ok false
          | some (offset, keyCount) =>
              if keyCount = 0 ∨
                  keyCount > maxPublicKeysPerMultisigAccount then
                .ok false
              else if threshold > keyCount then
                .ok false
              else
                checkTailLoads host content offset keyCount

theorem load_inside {content : List UInt8} {offset : Nat}
    (inside : offset < content.length) :
    load content offset = .ok (content.getD offset 0) := by
  simp [load, inside]

theorem loadBytes_inside {content : List UInt8} {offset width : Nat}
    (inside : offset + width ≤ content.length) :
    loadBytes content offset width =
      .ok ((content.drop offset).take width) := by
  induction width generalizing offset with
  | zero => rfl
  | succ width induction =>
      rw [loadBytes, load_inside (by omega), induction (by omega),
        @drop_eq_cons content offset (by omega)]
      rfl

/-- A check of the length stands before the loads of an operand. -/
theorem parseOperandLoads_eq (content : List UInt8) (offset width : Nat)
    (text : String) :
    parseOperandLoads content offset width text =
      parseOperand content offset width text := by
  rw [parseOperandLoads, parseOperand]
  split
  · rfl
  · rename_i inside
    rw [loadBytes_inside (by omega)]
    rfl

theorem parsePushIntLoads_eq (content : List UInt8) (offset : Nat) :
    parsePushIntLoads content offset =
      parsePushInt (.items content) offset := by
  rw [parsePushIntLoads, parsePushInt]
  split
  · rfl
  · rename_i inside
    rw [load_inside (by omega)]
    simp only [parseOperandLoads_eq]
    rfl

theorem scanKeysLoads_eq (content : List UInt8) (offset keyCount : Nat) :
    scanKeysLoads content offset keyCount =
      .ok (scanKeys content offset keyCount) := by
  fun_induction scanKeys content offset keyCount with
  | case1 offset keyCount outside =>
      rw [scanKeysLoads, if_pos outside]
  | case2 offset keyCount inside different =>
      rw [scanKeysLoads, if_neg inside, load_inside (by omega)]
      exact if_pos different
  | case3 offset keyCount inside opcode short =>
      rw [scanKeysLoads, if_neg inside, load_inside (by omega)]
      exact (if_neg opcode).trans (if_pos short)
  | case4 offset keyCount inside opcode long different =>
      rw [scanKeysLoads, if_neg inside, load_inside (by omega),
        load_inside (by omega)]
      exact (if_neg opcode).trans ((if_neg long).trans (if_pos different))
  | case5 offset keyCount inside opcode long length short =>
      rw [scanKeysLoads, if_neg inside, load_inside (by omega),
        load_inside (by omega)]
      exact
        (if_neg opcode).trans
          ((if_neg long).trans ((if_neg length).trans (if_pos short)))
  | case6 offset keyCount inside opcode long length room induction =>
      rw [scanKeysLoads, if_neg inside, load_inside (by omega),
        load_inside (by omega)]
      exact
        (if_neg opcode).trans
          ((if_neg long).trans
            ((if_neg length).trans ((if_neg room).trans induction)))

/-- The integer parser stops with an error code. -/
theorem parsePushInt_reason {content : List UInt8} {offset : Nat}
    {reason : Halt}
    (failed : parsePushInt (.items content) offset = .error reason) :
    ∃ code text, reason = .error code text := by
  have ofOperand {width : Nat} {text : String}
      (failed :
        parseOperand content (offset + 1) width text = .error reason) :
      ∃ code text, reason = .error code text := by
    rw [parseOperand] at failed
    split_ifs at failed
    cases failed
    exact ⟨_, _, rfl⟩
  rw [parsePushInt] at failed
  dsimp only at failed
  split_ifs at failed
  · cases failed
    exact ⟨_, _, rfl⟩
  · exact ofOperand failed
  · exact ofOperand failed
  · exact ofOperand failed
  · exact ofOperand failed
  · cases failed
    exact ⟨_, _, rfl⟩

theorem checkTailLoads_eq (host : Host) (content : List UInt8)
    (offset keyCount : Nat) :
    checkTailLoads host content offset keyCount =
      .ok (checkTail host content offset keyCount) := by
  rw [checkTailLoads, checkTail, parsePushIntLoads_eq]
  rcases parsed : parsePushInt (.items content) offset with
    reason | ⟨declaredCount, stop⟩
  · rcases parsePushInt_reason parsed with ⟨code, text, rfl⟩
    rfl
  · dsimp only
    split
    · rfl
    · by_cases inside : stop < content.length
      · rw [if_neg (by omega), load_inside inside]
        by_cases short : stop + 1 + 4 > content.length
        · simp only [bind, Except.bind, if_pos short, ite_self]
        · have word :
              UInt32.ofNat
                  (LittleEndian.ofBytes
                    ((content.drop (stop + 1)).take 4)) =
                wordAt content (stop + 1) :=
            rfl
          rw [loadBytes_inside (by omega)]
          simp only [bind, Except.bind, if_neg short,
            Nat.not_le.mpr inside, false_or, word]
          rw [apply_ite Except.ok, apply_ite Except.ok]
      · rw [if_pos (by omega), if_pos (.inl (by omega))]

/-- No load of the parser is behind the end of the script. -/
theorem isMultiSigLoads_eq (host : Host) (script : List UInt8) :
    isMultiSigLoads host script =
      .ok (isMultiSig host { script := .items script }) := by
  rw [isMultiSigLoads, isMultiSig, parsePushIntLoads_eq]
  by_cases short : script.length < 42
  · have short' : Slice.len (.items script) < 42 := short
    rw [if_pos short, if_pos short']
  have long : ¬ Slice.len (.items script) < 42 := short
  rw [if_neg short, if_neg long]
  dsimp only [Slice.content]
  rcases parsed : parsePushInt (.items script) 0 with
    reason | ⟨threshold, offset⟩
  · rcases parsePushInt_reason parsed with ⟨code, text, rfl⟩
    rfl
  dsimp only
  by_cases outside :
      threshold < 1 ∨ (maxPublicKeysPerMultisigAccount : Int) < threshold
  · rw [if_pos outside, if_pos outside]
  rw [if_neg outside, if_neg outside, scanKeysLoads_eq]
  simp only [bind, Except.bind]
  rcases scanKeys script offset 0 with _ | ⟨stop, keyCount⟩
  · rfl
  dsimp only
  by_cases wrong :
      keyCount = 0 ∨ keyCount > maxPublicKeysPerMultisigAccount
  · rw [if_pos wrong, if_pos wrong]
  rw [if_neg wrong, if_neg wrong]
  by_cases many : threshold > keyCount
  · rw [if_pos many, if_pos many]
  rw [if_neg many, if_neg many]
  exact checkTailLoads_eq host script stop keyCount

/--
`neoc_verification_script_is_multi_sig` accepts the scripts of the grammar
and no others, reads one threshold and one number of keys from each of them,
and never loads from behind the end.
-/
theorem isMultiSig_accepts_grammar
    (host : Host)
    (script : List UInt8) :
    (isMultiSig host { script := .items script } = true ↔
        ∃ threshold count, MultiSigForm host script threshold count) ∧
      (∀ threshold count threshold' count',
        MultiSigForm host script threshold count →
          MultiSigForm host script threshold' count' →
            threshold = threshold' ∧ count = count') ∧
      isMultiSigLoads host script =
        .ok (isMultiSig host { script := .items script }) := by
  refine ⟨isMultiSig_iff_form, ?_, isMultiSigLoads_eq host script⟩
  intro threshold count threshold' count' form form'
  exact form.unique form'

end VerificationScript

end NeoC
