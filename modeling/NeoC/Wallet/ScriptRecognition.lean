import NeoC.Script.SignatureAccessors
import NeoC.Wallet.MultiSigHash

/-!
# Two recognisers of multi-signature scripts

The parser inside `neoc_account_create_from_verification_script` reads another
language than `neoc_verification_script_is_multi_sig`.  It knows two ways to
push a number and takes an operand byte as unsigned; it knows four ways to
push a key; it does not look behind the syscall.  `AccountLayout` is that
language, in the form of its parts, and the parts of a script are unique.
-/

namespace NeoC

open Foundation NeoVm

namespace WalletAccount

open VerificationScript (checkMultisigCall keyBlocks IntegerPush MultiSigForm
  wordAt drop_eq_cons getD_append_length)

/-! ## The layout -/

/-- A number as the account parser knows it. -/
inductive NarrowPush : List UInt8 → Nat → Prop where
  | small {value : Nat} (positive : 1 ≤ value) (small : value ≤ 16) :
      NarrowPush [UInt8.ofNat (0x10 + value)] value
  | operand (byte : UInt8) : NarrowPush [0x00, byte] byte.toNat

/-- A key as the account parser knows it. -/
inductive KeyBlock : List UInt8 → Prop where
  | bare (key : Bytes 33) : KeyBlock (0x21 :: key.val)
  | bareUncompressed (key : Bytes 65) : KeyBlock (0x41 :: key.val)
  | data (key : Bytes 33) : KeyBlock (0x0C :: 0x21 :: key.val)
  | dataUncompressed (key : Bytes 65) : KeyBlock (0x0C :: 0x41 :: key.val)

/-- A script cut into its pushes, with the bytes behind the syscall. -/
structure ScriptParts where
  first : List UInt8
  blocks : List (List UInt8)
  last : List UInt8
  rest : List UInt8

/-- The script of these parts. -/
def ScriptParts.script (host : Host) (parts : ScriptParts) : List UInt8 :=
  parts.first ++
    (parts.blocks.flatten ++
      (parts.last ++ (checkMultisigCall host ++ parts.rest)))

/-- What the account parser takes for a multi-signature script. -/
structure AccountLayout (host : Host) (script : List UInt8)
    (threshold : Nat) (parts : ScriptParts) : Prop where
  script_eq : script = parts.script host
  first : NarrowPush parts.first threshold
  blocks : ∀ block ∈ parts.blocks, KeyBlock block
  last : NarrowPush parts.last parts.blocks.length
  positive : 1 ≤ threshold
  enough : threshold ≤ parts.blocks.length

/-! ## Scanning a number -/

theorem NarrowPush.lt {push : List UInt8} {value : Nat}
    (narrow : NarrowPush push value) :
    value < 256 := by
  cases narrow with
  | small positive small => omega
  | operand byte => exact byte.toNat_lt

theorem NarrowPush.head {push : List UInt8} {value : Nat}
    (narrow : NarrowPush push value) :
    ∃ opcode rest,
      push = opcode :: rest ∧ opcode ≠ 0x21 ∧ opcode ≠ 0x41 ∧
        opcode ≠ 0x0C := by
  cases narrow with
  | @small value positive small =>
      refine ⟨_, _, rfl, ?_⟩
      interval_cases value <;> decide
  | operand byte =>
      exact ⟨_, _, rfl, by decide, by decide, by decide⟩

/-- A push is scanned to its value. -/
theorem scanPush_narrow {push : List UInt8} {value : Nat}
    (narrow : NarrowPush push value) (before after : List UInt8) :
    scanPush (before ++ (push ++ after)) before.length =
      (UInt8.ofNat value, before.length + push.length) := by
  cases narrow with
  | @small value positive small =>
      rw [scanPush, List.singleton_append, getD_append_length, if_pos]
      · interval_cases value <;> rfl
      · refine ⟨by simp, ?_⟩
        interval_cases value <;> decide
  | operand byte =>
      have second :
          (before ++ ([0x00, byte] ++ after)).getD (before.length + 1) 0 =
            byte := by
        simp
      rw [scanPush, List.cons_append, getD_append_length,
        if_neg (by simp), if_pos (by simp), if_pos (by simp),
        ← List.cons_append, second, UInt8.ofNat_toNat]
      rfl

/-- What was scanned to a value other than zero is a push. -/
theorem scanPush_eq {script : List UInt8} {pos stop : Nat} {value : UInt8}
    (some : value ≠ 0) (scanned : scanPush script pos = (value, stop)) :
    ∃ push after,
      script.drop pos = push ++ after ∧ stop = pos + push.length ∧
        NarrowPush push value.toNat := by
  rw [scanPush] at scanned
  split at scanned
  · rename_i found
    have head := drop_eq_cons found.1
    generalize script.getD pos 0 = opcode at scanned found head
    injection scanned with equal stopped
    have low : 0x11 ≤ opcode.toNat := UInt8.le_iff_toNat_le.mp found.2.1
    have high : opcode.toNat ≤ 0x20 := UInt8.le_iff_toNat_le.mp found.2.2
    have number : value.toNat = opcode.toNat - 0x10 := by
      rw [← equal, UInt8.toNat_sub_of_le]
      · rfl
      · apply UInt8.le_iff_toNat_le.mpr
        exact (by decide : 0x10 ≤ 0x11).trans low
    have code : opcode = UInt8.ofNat (0x10 + value.toNat) := by
      rw [number, Nat.add_sub_cancel' (by omega), UInt8.ofNat_toNat]
    refine ⟨[opcode], _, head, stopped.symm, ?_⟩
    rw [code]
    exact .small (by omega) (by omega)
  split at scanned
  · rename_i found
    have head := drop_eq_cons found.1
    rw [found.2] at head
    split at scanned
    · rename_i inside
      have next := drop_eq_cons inside
      injection scanned with equal stopped
      rw [equal] at next
      refine
        ⟨[0x00, value], script.drop (pos + 1 + 1), ?_, stopped.symm,
          .operand value⟩
      rw [head, next]
      rfl
    · injection scanned with equal
      exact absurd equal.symm some
  · injection scanned with equal
    exact absurd equal.symm some

/-! ## Scanning the keys -/

/-- A key is recognised and stepped over. -/
theorem keyStride_block {block : List UInt8} (key : KeyBlock block)
    (before after : List UInt8) :
    keyStride (before ++ (block ++ after)) before.length =
      some block.length := by
  have second (first second : UInt8) (tail : List UInt8) :
      (before ++ first :: second :: tail).getD (before.length + 1) 0 =
        second := by
    simp
  cases key with
  | bare key =>
      rw [keyStride, List.cons_append, getD_append_length, if_pos rfl,
        List.length_cons, key.property]
  | bareUncompressed key =>
      rw [keyStride, List.cons_append, getD_append_length,
        if_neg (by decide), if_pos rfl, List.length_cons, key.property]
  | data key =>
      rw [keyStride, List.cons_append, List.cons_append,
        getD_append_length, if_neg (by decide), if_neg (by decide),
        if_pos (by simp), second]
      simp [key.property]
  | dataUncompressed key =>
      rw [keyStride, List.cons_append, List.cons_append,
        getD_append_length, if_neg (by decide), if_neg (by decide),
        if_pos (by simp), second]
      simp [key.property]

/-- What is stepped over inside of the script is a key. -/
theorem keyStride_eq_some {script : List UInt8} {pos stride : Nat}
    (found : keyStride script pos = some stride)
    (inside : pos + stride ≤ script.length) :
    KeyBlock ((script.drop pos).take stride) := by
  have positive := keyStride_pos found
  have first := @drop_eq_cons script pos (by omega)
  rw [keyStride] at found
  split at found
  · rename_i opcode
    injection found with same
    subst same
    have key : (((script.drop (pos + 1))).take 33).length = 33 := by
      rw [List.length_take, List.length_drop]
      omega
    rw [first, opcode, List.take_succ_cons]
    exact .bare ⟨_, key⟩
  split at found
  · rename_i opcode
    injection found with same
    subst same
    have key : (((script.drop (pos + 1))).take 65).length = 65 := by
      rw [List.length_take, List.length_drop]
      omega
    rw [first, opcode, List.take_succ_cons]
    exact .bareUncompressed ⟨_, key⟩
  split at found
  · rename_i opcode
    have second := drop_eq_cons opcode.2
    dsimp only at found
    split at found
    · rename_i len
      injection found with same
      subst same
      rw [first, opcode.1, second, Nat.add_comm 2, List.take_succ_cons,
        List.take_succ_cons]
      rcases len with len | len
      · rw [len] at inside ⊢
        have key : (((script.drop (pos + 1 + 1))).take 33).length = 33 := by
          rw [List.length_take, List.length_drop]
          have number : (33 : UInt8).toNat = 33 := rfl
          omega
        exact .data ⟨_, key⟩
      · rw [len] at inside ⊢
        have key : (((script.drop (pos + 1 + 1))).take 65).length = 65 := by
          rw [List.length_take, List.length_drop]
          have number : (65 : UInt8).toNat = 65 := rfl
          omega
        exact .dataUncompressed ⟨_, key⟩
    · cases found
  · cases found

theorem keyStride_none {opcode : UInt8} (before after : List UInt8)
    (different : opcode ≠ 0x21 ∧ opcode ≠ 0x41 ∧ opcode ≠ 0x0C) :
    keyStride (before ++ opcode :: after) before.length = none := by
  rw [keyStride, getD_append_length, if_neg different.1,
    if_neg different.2.1, if_neg (fun found => different.2.2 found.1)]

/-- The scan stops behind the keys, having counted them. -/
theorem scanKeys_blocks {blocks : List (List UInt8)}
    (keys : ∀ block ∈ blocks, KeyBlock block) {opcode : UInt8}
    (different : opcode ≠ 0x21 ∧ opcode ≠ 0x41 ∧ opcode ≠ 0x0C)
    {after : List UInt8} (long : 2 ≤ after.length)
    (before : List UInt8) {pubkeyCount : Nat}
    (few : pubkeyCount + blocks.length ≤ 0x7FFFFFFF) :
    scanKeys (before ++ (blocks.flatten ++ opcode :: after))
        before.length pubkeyCount =
      .ok
        (before.length + blocks.flatten.length,
          pubkeyCount + blocks.length) := by
  induction blocks generalizing before pubkeyCount with
  | nil =>
      rw [scanKeys, if_pos (by simp; omega)]
      have stops := keyStride_none before after different
      split
      · rfl
      · rename_i stride found
        rw [List.flatten_nil, List.nil_append, stops] at found
        cases found
  | cons block rest induction =>
      rcases List.forall_mem_cons.mp keys with ⟨first, others⟩
      have stepped :=
        keyStride_block first before
          (rest.flatten ++ opcode :: after)
      rw [List.length_cons] at few
      have later :=
        @induction others (before ++ block) (pubkeyCount + 1) (by omega)
      rw [List.append_assoc, List.length_append] at later
      rw [List.flatten_cons, List.append_assoc, scanKeys,
        if_pos (by simp; omega)]
      split
      · rename_i found
        rw [stepped] at found
        cases found
      · rename_i stride found
        rw [stepped] at found
        injection found with same
        rw [← same, if_neg (by omega), later, List.length_append,
          List.length_cons]
        congr 2
        · omega
        · omega

theorem le_of_scanKeys {script : List UInt8} {pos pubkeyCount stop total : Nat}
    (scanned : scanKeys script pos pubkeyCount = .ok (stop, total)) :
    pos ≤ stop := by
  fun_induction scanKeys script pos pubkeyCount with
  | case1 pos pubkeyCount inside none =>
      cases scanned
      exact le_rfl
  | case2 => cases scanned
  | case3 pos pubkeyCount inside stride found few induction =>
      exact (Nat.le_add_right pos stride).trans (induction scanned)
  | case4 pos pubkeyCount outside =>
      cases scanned
      exact le_rfl

/-- What the scan has stepped over is keys. -/
theorem scanKeys_eq_ok {script : List UInt8}
    {pos pubkeyCount stop total : Nat}
    (scanned : scanKeys script pos pubkeyCount = .ok (stop, total))
    (inside : stop ≤ script.length) :
    ∃ (blocks : List (List UInt8)) (after : List UInt8),
      script.drop pos = blocks.flatten ++ after ∧
        stop = pos + blocks.flatten.length ∧
        total = pubkeyCount + blocks.length ∧
        ∀ block ∈ blocks, KeyBlock block := by
  fun_induction scanKeys script pos pubkeyCount with
  | case1 pos pubkeyCount _ none =>
      cases scanned
      exact ⟨[], _, rfl, rfl, rfl, by simp⟩
  | case2 => cases scanned
  | case3 pos pubkeyCount _ stride found few induction =>
      have reached := le_of_scanKeys scanned
      rcases induction scanned with
        ⟨blocks, after, split, stopped, counted, keys⟩
      have exact : ((script.drop pos).take stride).length = stride := by
        rw [List.length_take, List.length_drop]
        omega
      have whole := List.take_append_drop stride (script.drop pos)
      rw [List.drop_drop, split] at whole
      refine
        ⟨(script.drop pos).take stride :: blocks, after, ?_, ?_, ?_, ?_⟩
      · rw [List.flatten_cons, List.append_assoc, whole]
      · rw [List.flatten_cons, List.length_append, exact, stopped]
        omega
      · rw [counted, List.length_cons]
        omega
      · intro block member
        rcases List.mem_cons.mp member with rfl | member
        · exact keyStride_eq_some found (by omega)
        · exact keys block member
  | case4 pos pubkeyCount outside =>
      cases scanned
      exact ⟨[], _, rfl, rfl, rfl, by simp⟩

/-! ## The syscall -/

theorem isCheckMultisig_call (host : Host) (before rest : List UInt8) :
    isCheckMultisig host (before ++ (checkMultisigCall host ++ rest))
        before.length =
      true := by
  have word := (host.interopGetHash .systemCryptoCheckMultisig).toNat_lt
  have read :
      wordAt (before ++ (checkMultisigCall host ++ rest))
          (before.length + 1) =
        host.interopGetHash .systemCryptoCheckMultisig := by
    have split :
        before ++ (checkMultisigCall host ++ rest) =
          (before ++ [0x41]) ++
            (LittleEndian.toBytes 4
              (host.interopGetHash
                .systemCryptoCheckMultisig).toNat ++ rest) := by
      simp [checkMultisigCall]
    have length : before.length + 1 = (before ++ [0x41]).length := by
      simp
    rw [split, length, wordAt, List.drop_left,
      List.take_left' (LittleEndian.length_toBytes 4 _),
      LittleEndian.ofBytes_toBytes_of_lt (by omega), UInt32.ofNat_toNat]
  apply decide_eq_true
  refine ⟨by simp [checkMultisigCall], ?_, read⟩
  rw [checkMultisigCall, List.cons_append, getD_append_length]

theorem isCheckMultisig_eq_true {host : Host} {script : List UInt8}
    {pos : Nat} (found : isCheckMultisig host script pos = true) :
    ∃ rest, script.drop pos = checkMultisigCall host ++ rest := by
  rcases of_decide_eq_true found with ⟨inside, opcode, word⟩
  have head := @drop_eq_cons script pos (by omega)
  have whole := List.take_append_drop 4 (script.drop (pos + 1))
  have length : ((script.drop (pos + 1)).take 4).length = 4 := by
    rw [List.length_take, List.length_drop]
    omega
  have bounded :=
    LittleEndian.ofBytes_lt ((script.drop (pos + 1)).take 4)
  have stored :=
    LittleEndian.toBytes_ofBytes ((script.drop (pos + 1)).take 4)
  rw [length] at bounded stored
  refine ⟨(script.drop (pos + 1)).drop 4, ?_⟩
  rw [head, opcode, checkMultisigCall, ← word, wordAt,
    UInt32.toNat_ofNat_of_lt' (by omega), stored, List.cons_append, whole]

/-! ## The analysis of a script -/

section Analysis

variable {host : Host} {script : List UInt8} {threshold : Nat}
  {parts : ScriptParts}

/-- The positions at which the parts of a layout are found. -/
theorem AccountLayout.walk (layout : AccountLayout host script threshold parts) :
    scanPush script 0 = (UInt8.ofNat threshold, parts.first.length) ∧
      scanKeys script parts.first.length 0 =
        .ok
          (parts.first.length + parts.blocks.flatten.length,
            parts.blocks.length) ∧
      scanPush script
          (parts.first.length + parts.blocks.flatten.length) =
        (UInt8.ofNat parts.blocks.length,
          parts.first.length + parts.blocks.flatten.length +
            parts.last.length) ∧
      isCheckMultisig host script
          (parts.first.length + parts.blocks.flatten.length +
            parts.last.length) =
        true := by
  have few := layout.last.lt
  rw [layout.script_eq, ScriptParts.script]
  refine ⟨?_, ?_, ?_, ?_⟩
  · have scanned :=
      scanPush_narrow layout.first []
        (parts.blocks.flatten ++
          (parts.last ++ (checkMultisigCall host ++ parts.rest)))
    simpa using scanned
  · rcases layout.last.head with ⟨opcode, tail, shape, different⟩
    have scanned :=
      @scanKeys_blocks _ layout.blocks opcode different
        (tail ++ (checkMultisigCall host ++ parts.rest))
        (by simp [checkMultisigCall]; omega) parts.first 0 (by omega)
    rw [← List.cons_append, ← shape, Nat.zero_add] at scanned
    exact scanned
  · have scanned :=
      scanPush_narrow layout.last (parts.first ++ parts.blocks.flatten)
        (checkMultisigCall host ++ parts.rest)
    rw [List.append_assoc, List.length_append] at scanned
    exact scanned
  · have called :=
      isCheckMultisig_call host
        (parts.first ++ (parts.blocks.flatten ++ parts.last)) parts.rest
    simp only [List.append_assoc, List.length_append] at called
    rw [Nat.add_assoc]
    exact called

theorem AccountLayout.long (layout : AccountLayout host script threshold parts) :
    4 ≤ script.length := by
  rw [layout.script_eq, ScriptParts.script, checkMultisigCall]
  simp only [List.length_append, List.length_cons,
    LittleEndian.length_toBytes]
  omega

/-- A script in the layout is found to be multi-signature. -/
theorem AccountLayout.analyzeScript_eq
    (layout : AccountLayout host script threshold parts) :
    analyzeScript host script =
      .ok
        (some
          (UInt8.ofNat threshold, UInt8.ofNat parts.blocks.length)) := by
  have few := layout.last.lt
  have small := layout.first.lt
  have positive := layout.positive
  have enough := layout.enough
  have number {value : Nat} (bounded : value < 256) :
      (UInt8.ofNat value).toNat = value := by
    rw [UInt8.toNat_ofNat', Nat.mod_eq_of_lt bounded]
  rcases layout.walk with ⟨first, keys, last, called⟩
  rw [analyzeScript, if_neg (Nat.not_lt.mpr layout.long), first]
  dsimp only
  rw [keys]
  simp only [bind, Except.bind]
  rw [last]
  dsimp only
  rw [if_pos]
  refine ⟨called, ?_, ?_, number few, ?_⟩
  · apply UInt8.lt_iff_toNat_lt.mpr
    rw [number small]
    exact positive
  · apply UInt8.lt_iff_toNat_lt.mpr
    rw [number few]
    exact positive.trans enough
  · apply UInt8.le_iff_toNat_le.mpr
    rw [number small, number few]
    exact enough

/-- What is found to be multi-signature is in the layout. -/
theorem layout_of_analyzeScript {found participants : UInt8}
    (analyzed :
      analyzeScript host script = .ok (some (found, participants))) :
    ∃ parts,
      AccountLayout host script found.toNat parts ∧
        parts.blocks.length = participants.toNat := by
  rw [analyzeScript] at analyzed
  split at analyzed
  · cases analyzed
  rcases first : scanPush script 0 with ⟨threshold, pos⟩
  rw [first] at analyzed
  dsimp only at analyzed
  rcases Except.bind_eq_ok_iff.mp analyzed with
    ⟨⟨stop, total⟩, keys, rest⟩
  dsimp only at rest
  rcases last : scanPush script stop with ⟨count, behind⟩
  rw [last] at rest
  dsimp only at rest
  split at rest
  · rename_i checks
    injection rest with same
    injection same with same
    injection same with sameThreshold sameCount
    subst sameThreshold sameCount
    rcases checks with ⟨called, positive, some, counted, enough⟩
    have inside := (of_decide_eq_true called).1
    rcases scanPush_eq (UInt8.ne_of_lt positive).symm first with
      ⟨push, after, split, stopped, narrow⟩
    rcases scanPush_eq (UInt8.ne_of_lt some).symm last with
      ⟨push', after', split', stopped', narrow'⟩
    rcases scanKeys_eq_ok keys (by omega) with
      ⟨blocks, after'', split'', stopped'', total', blocksKeys⟩
    rcases isCheckMultisig_eq_true called with ⟨behindCall, call⟩
    rw [Nat.zero_add] at stopped total'
    subst stopped stopped' stopped''
    rw [List.drop_zero] at split
    have second := congrArg (List.drop push.length) split
    rw [List.drop_left, split''] at second
    have third := congrArg (List.drop blocks.flatten.length) split''
    rw [List.drop_left, List.drop_drop, split'] at third
    have fourth := congrArg (List.drop push'.length) split'
    rw [List.drop_left, List.drop_drop, call] at fourth
    refine
      ⟨{ first := push, blocks, last := push', rest := behindCall },
        ⟨?_, narrow, blocksKeys, ?_, ?_, ?_⟩, ?_⟩
    · rw [ScriptParts.script, split, ← second, ← third, ← fourth]
    · change NarrowPush push' blocks.length
      rw [← total', ← counted]
      exact narrow'
    · exact UInt8.lt_iff_toNat_lt.mp positive
    · change _ ≤ blocks.length
      rw [← total', ← counted]
      exact UInt8.le_iff_toNat_le.mp enough
    · exact total'.symm.trans counted.symm
  · cases rest

end Analysis

/-! ## The parts of a script are unique -/

theorem NarrowPush.prefix_unique {push push' after after' : List UInt8}
    {value value' : Nat} (narrow : NarrowPush push value)
    (narrow' : NarrowPush push' value')
    (same : push ++ after = push' ++ after') :
    push = push' ∧ after = after' := by
  have scanned := scanPush_narrow narrow [] after
  have scanned' := scanPush_narrow narrow' [] after'
  rw [same, scanned'] at scanned
  injection scanned with _ lengths
  exact List.append_inj same (by simpa using lengths.symm)

theorem KeyBlock.prefix_unique {block block' after after' : List UInt8}
    (key : KeyBlock block) (key' : KeyBlock block')
    (same : block ++ after = block' ++ after') :
    block = block' ∧ after = after' := by
  have stepped := keyStride_block key [] after
  have stepped' := keyStride_block key' [] after'
  rw [same, stepped'] at stepped
  injection stepped with lengths
  exact List.append_inj same lengths.symm

/-- A key starts with one of three opcodes. -/
theorem KeyBlock.ne_cons {block : List UInt8} (key : KeyBlock block)
    {opcode : UInt8}
    (different : opcode ≠ 0x21 ∧ opcode ≠ 0x41 ∧ opcode ≠ 0x0C)
    (tail after : List UInt8) :
    opcode :: tail ≠ block ++ after := by
  intro same
  have stepped := keyStride_block key [] after
  have stops := keyStride_none [] tail different
  rw [List.nil_append] at stepped stops
  rw [same, stepped] at stops
  cases stops

/-- A push of a number is not the start of a key. -/
theorem NarrowPush.ne_block {push block after after' : List UInt8}
    {value : Nat} (narrow : NarrowPush push value) (key : KeyBlock block) :
    push ++ after ≠ block ++ after' := by
  rcases narrow.head with ⟨opcode, tail, rfl, different⟩
  exact key.ne_cons different (tail ++ after) after'

theorem blocks_unique {blocks blocks' : List (List UInt8)}
    (keys : ∀ block ∈ blocks, KeyBlock block)
    (keys' : ∀ block ∈ blocks', KeyBlock block)
    {push push' after after' : List UInt8} {value value' : Nat}
    (narrow : NarrowPush push value) (narrow' : NarrowPush push' value')
    (same :
      blocks.flatten ++ (push ++ after) =
        blocks'.flatten ++ (push' ++ after')) :
    blocks = blocks' ∧ push = push' ∧ after = after' := by
  induction blocks generalizing blocks' with
  | nil =>
      cases blocks' with
      | nil => exact ⟨rfl, narrow.prefix_unique narrow' same⟩
      | cons block' rest' =>
          rcases List.forall_mem_cons.mp keys' with ⟨key', -⟩
          rw [List.flatten_cons, List.append_assoc] at same
          exact absurd same (narrow.ne_block key')
  | cons block rest induction =>
      rcases List.forall_mem_cons.mp keys with ⟨key, others⟩
      rw [List.flatten_cons, List.append_assoc] at same
      cases blocks' with
      | nil => exact absurd same.symm (narrow'.ne_block key)
      | cons block' rest' =>
          rcases List.forall_mem_cons.mp keys' with ⟨key', others'⟩
          rw [List.flatten_cons, List.append_assoc] at same
          rcases key.prefix_unique key' same with ⟨rfl, later⟩
          rcases induction others others' later with ⟨rfl, rest⟩
          exact ⟨rfl, rest⟩

theorem AccountLayout.parts_unique {host : Host} {script : List UInt8}
    {threshold threshold' : Nat} {parts parts' : ScriptParts}
    (layout : AccountLayout host script threshold parts)
    (layout' : AccountLayout host script threshold' parts') :
    parts = parts' := by
  have same := layout.script_eq.symm.trans layout'.script_eq
  rcases layout.first.prefix_unique layout'.first same with
    ⟨sameFirst, behind⟩
  rcases blocks_unique layout.blocks layout'.blocks layout.last layout'.last
      behind with
    ⟨sameBlocks, sameLast, behindCall⟩
  have sameRest := List.append_cancel_left behindCall
  cases parts
  cases parts'
  simp only at sameFirst sameBlocks sameLast sameRest
  rw [sameFirst, sameBlocks, sameLast, sameRest]

/-! ## Scripts in both languages -/

/-- A pushed operand byte whose sign bit is not set. -/
def PlainPush (push : List UInt8) : Prop :=
  ∀ byte, push = [0x00, byte] → byte < 0x80

/--
The parts that both parsers read alike: keys pushed as `0x0C 0x21`, operands
below `0x80`, and nothing behind the syscall.
-/
structure ScriptParts.Plain (parts : ScriptParts) : Prop where
  first : PlainPush parts.first
  blocks :
    ∀ block ∈ parts.blocks,
      ∃ key : Bytes 33, block = 0x0C :: 0x21 :: key.val
  last : PlainPush parts.last
  rest : parts.rest = []

/-- A number pushed with `PUSHINT16`, `PUSHINT32` or `PUSHINT64`. -/
def WidePush (push : List UInt8) : Prop :=
  ∃ opcode operand,
    push = opcode :: operand ∧
      opcode ∈
        [Opcode.pushInt16, Opcode.pushInt32, Opcode.pushInt64]

theorem ofBytesSigned_byte (byte : UInt8) :
    LittleEndian.ofBytesSigned [byte] =
      if byte.toNat < 0x80 then (byte.toNat : Int) else byte.toNat - 256 := by
  have value : LittleEndian.ofBytes [byte] = byte.toNat := by
    simp [LittleEndian.ofBytes]
  rw [LittleEndian.ofBytesSigned, value, List.length_singleton]
  by_cases small : byte.toNat < 0x80
  · rw [if_pos (by omega), if_pos small]
  · rw [if_neg (by omega), if_neg small]
    rfl

theorem NarrowPush.integerPush {push : List UInt8} {value : Nat}
    (narrow : NarrowPush push value) (plain : PlainPush push) :
    IntegerPush push value := by
  cases narrow with
  | small positive small => exact .small positive small
  | operand byte =>
      have small : byte.toNat < 0x80 :=
        UInt8.lt_iff_toNat_lt.mp (plain byte rfl)
      have signed :
          LittleEndian.ofBytesSigned [byte] = (byte.toNat : Int) := by
        rw [ofBytesSigned_byte, if_pos small]
      rw [← signed]
      exact .wide (by simp [VerificationScript.wideForms, Opcode.pushInt8])

/-- A pushed number is wide, or both parsers read it alike. -/
theorem integerPush_cases {push : List UInt8} {value : Nat}
    (pushes : IntegerPush push value) (positive : 1 ≤ value) :
    WidePush push ∨ (NarrowPush push value ∧ PlainPush push) := by
  generalize number : (value : Int) = integer at pushes
  cases pushes with
  | @small small low high =>
      right
      have same : value = small := by
        exact_mod_cast number
      subst same
      refine ⟨.small low high, ?_⟩
      intro byte shape
      have lengths := congrArg List.length shape
      cases lengths
  | @wide opcode operand form =>
      simp only [VerificationScript.wideForms, List.mem_cons,
        Prod.mk.injEq, List.not_mem_nil, or_false] at form
      rcases form with ⟨rfl, length⟩ | ⟨rfl, -⟩ | ⟨rfl, -⟩ | ⟨rfl, -⟩
      · right
        rcases List.length_eq_one_iff.mp length with ⟨byte, rfl⟩
        have bounded := byte.toNat_lt
        rw [ofBytesSigned_byte] at number
        have small : byte.toNat < 0x80 ∧ byte.toNat = value := by
          split at number
          · omega
          · omega
        refine ⟨?_, ?_⟩
        · rw [← small.2]
          exact .operand byte
        · rintro byte' shape
          injection shape with _ shape
          injection shape with shape
          subst shape
          exact UInt8.lt_iff_toNat_lt.mpr small.1
      · exact .inl ⟨_, _, rfl, by simp⟩
      · exact .inl ⟨_, _, rfl, by simp⟩
      · exact .inl ⟨_, _, rfl, by simp⟩

/-- The key blocks of the grammar are plain blocks of the layout. -/
theorem keyBlocks_eq_flatten (keys : List (Bytes 33)) :
    keyBlocks keys =
      (keys.map fun key => 0x0C :: 0x21 :: key.val).flatten :=
  List.flatMap_def

/-- A plain layout is a form of the grammar. -/
theorem AccountLayout.multiSigForm {host : Host} {script : List UInt8}
    {threshold : Nat} {parts : ScriptParts}
    (layout : AccountLayout host script threshold parts)
    (plain : parts.Plain) :
    MultiSigForm host script threshold parts.blocks.length := by
  have keysOf :
      ∀ blocks : List (List UInt8),
        (∀ block ∈ blocks,
          ∃ key : Bytes 33, block = 0x0C :: 0x21 :: key.val) →
          ∃ keys : List (Bytes 33),
            blocks = keys.map fun key => 0x0C :: 0x21 :: key.val := by
    intro blocks all
    induction blocks with
    | nil => exact ⟨[], rfl⟩
    | cons block rest induction =>
        rcases List.forall_mem_cons.mp all with ⟨⟨key, rfl⟩, others⟩
        rcases induction others with ⟨keys, rfl⟩
        exact ⟨key :: keys, rfl⟩
  rcases keysOf parts.blocks plain.blocks with ⟨keys, shape⟩
  have few := layout.last.lt
  refine
    ⟨⟨parts.first, keys, parts.last,
        layout.first.integerPush plain.first, ?_,
        layout.last.integerPush plain.last, ?_⟩,
      layout.positive, layout.enough, by omega⟩
  · rw [shape, List.length_map]
  · rw [layout.script_eq, ScriptParts.script, plain.rest, List.append_nil,
      keyBlocks_eq_flatten, shape]

/-- The grammar with one of its numbers pushed wide. -/
def WideForm (host : Host) (script : List UInt8) : Prop :=
  ∃ first keys last,
    (WidePush first ∨ WidePush last) ∧
      ∃ threshold : Nat,
        IntegerPush first threshold ∧ IntegerPush last keys.length ∧
          script =
            first ++ (keyBlocks keys ++ (last ++ checkMultisigCall host)) ∧
          1 ≤ threshold ∧ threshold ≤ keys.length ∧ keys.length ≤ 1024

/-- The layout of the account parser with parts that are not plain. -/
def LooseLayout (host : Host) (script : List UInt8) : Prop :=
  ∃ threshold parts,
    AccountLayout host script threshold parts ∧ ¬ parts.Plain

theorem WideForm.multiSigForm {host : Host} {script : List UInt8}
    (wide : WideForm host script) :
    ∃ threshold count, MultiSigForm host script threshold count := by
  rcases wide with
    ⟨first, keys, last, -, threshold, pushed, counted, shape, positive,
      enough, few⟩
  exact
    ⟨threshold, keys.length,
      ⟨first, keys, last, pushed, rfl, counted, shape⟩, positive, enough,
      few⟩

/-- A form of the grammar is wide or a plain layout. -/
theorem wide_or_layout {host : Host} {script : List UInt8}
    {threshold count : Nat}
    (form : MultiSigForm host script threshold count) :
    WideForm host script ∨
      ∃ parts,
        AccountLayout host script threshold parts ∧
          parts.blocks.length = count ∧ parts.Plain := by
  rcases form with
    ⟨⟨first, keys, last, pushed, rfl, counted, shape⟩, positive, enough,
      few⟩
  rcases integerPush_cases pushed positive with wide | ⟨narrow, plain⟩
  · exact
      .inl
        ⟨first, keys, last, .inl wide, threshold, pushed, counted, shape,
          positive, enough, few⟩
  rcases integerPush_cases counted (positive.trans enough) with
    wide | ⟨narrow', plain'⟩
  · exact
      .inl
        ⟨first, keys, last, .inr wide, threshold, pushed, counted, shape,
          positive, enough, few⟩
  right
  refine
    ⟨{ first, blocks := keys.map fun key => 0x0C :: 0x21 :: key.val, last,
        rest := [] },
      ⟨?_, narrow, ?_, ?_, positive, ?_⟩, ?_, plain, ?_, plain', rfl⟩
  · rw [ScriptParts.script, List.append_nil, ← keyBlocks_eq_flatten, shape]
  · intro block member
    rcases List.mem_map.mp member with ⟨key, -, rfl⟩
    exact .data key
  · rw [List.length_map]
    exact narrow'
  · rw [List.length_map]
    exact enough
  · exact List.length_map _
  · intro block member
    rcases List.mem_map.mp member with ⟨key, -, rfl⟩
    exact ⟨key, rfl⟩

theorem NarrowPush.not_wide {push after : List UInt8} {value : Nat}
    (narrow : NarrowPush push value) {wide after' : List UInt8}
    (pushed : WidePush wide) :
    push ++ after ≠ wide ++ after' := by
  rcases pushed with ⟨opcode, operand, rfl, member⟩
  intro same
  cases narrow with
  | @small value low high =>
      injection same with head
      subst head
      revert member
      interval_cases value <;> decide
  | operand byte =>
      injection same with head
      subst head
      revert member
      decide

theorem WidePush.ne_block {push block after after' : List UInt8}
    (wide : WidePush push) (key : KeyBlock block) :
    push ++ after ≠ block ++ after' := by
  rcases wide with ⟨opcode, tail, rfl, member⟩
  have different : opcode ≠ 0x21 ∧ opcode ≠ 0x41 ∧ opcode ≠ 0x0C := by
    simp only [List.mem_cons, List.not_mem_nil, or_false] at member
    rcases member with rfl | rfl | rfl <;> decide
  exact key.ne_cons different (tail ++ after) after'

/-- Behind the same keys there is a narrow number or a wide one. -/
theorem blocks_ne_wide {push last after after' : List UInt8} {value : Nat}
    (narrow : NarrowPush push value) (wide : WidePush last)
    {blocks : List (List UInt8)}
    (all : ∀ block ∈ blocks, KeyBlock block) (keys : List (Bytes 33)) :
    blocks.flatten ++ (push ++ after) ≠
      keyBlocks keys ++ (last ++ after') := by
  rw [keyBlocks_eq_flatten]
  induction blocks generalizing keys with
  | nil =>
      cases keys with
      | nil =>
          simp only [List.map_nil, List.flatten_nil, List.nil_append]
          exact narrow.not_wide wide
      | cons key rest =>
          rw [List.map_cons, List.flatten_cons, List.append_assoc]
          exact narrow.ne_block (.data key)
  | cons block rest induction =>
      rcases List.forall_mem_cons.mp all with ⟨key, others⟩
      rw [List.flatten_cons, List.append_assoc]
      cases keys with
      | nil =>
          simp only [List.map_nil, List.flatten_nil, List.nil_append]
          exact (wide.ne_block key).symm
      | cons key' rest' =>
          rw [List.map_cons, List.flatten_cons, List.append_assoc]
          intro same
          rcases key.prefix_unique (.data key') same with ⟨-, later⟩
          exact induction others rest' later

/-- No script with a wide number is in the layout. -/
theorem WideForm.not_layout {host : Host} {script : List UInt8}
    (wide : WideForm host script) {threshold : Nat} {parts : ScriptParts}
    (layout : AccountLayout host script threshold parts) :
    False := by
  rcases wide with
    ⟨first, keys, last, pushedWide, number, pushed, counted, shape,
      positive, enough, few⟩
  have same := layout.script_eq.symm.trans shape
  rw [ScriptParts.script] at same
  rcases integerPush_cases pushed positive with wide | ⟨narrow, -⟩
  · exact layout.first.not_wide wide same
  · rcases layout.first.prefix_unique narrow same with ⟨-, behind⟩
    have lastWide : WidePush last := by
      rcases pushedWide with wide | wide
      · exact absurd rfl (@NarrowPush.not_wide _ [] _ narrow _ [] wide)
      · exact wide
    exact blocks_ne_wide layout.last lastWide layout.blocks keys behind

/-! ## What is reported -/

section Reported

variable {curve : Curve} {host : Host} {alloc : Allocator}
  {script : List UInt8} {account : WalletAccount curve}

/-- The account keeps what was found in the script. -/
theorem createFromVerificationScript_eq_ok
    (created :
      createFromVerificationScript host alloc (.items script) =
        .ok account) :
    ∃ found,
      analyzeScript host script = .ok found ∧
        account.extra = makeInfo alloc found := by
  rw [createFromVerificationScript] at created
  split at created
  · cases created
  split at created
  · cases created
  rcases Except.bind_eq_ok_iff.mp created with ⟨scriptHash, -, rest⟩
  split at rest
  · cases rest
  rcases Except.bind_eq_ok_iff.mp rest with ⟨address, -, rest⟩
  rcases Except.bind_eq_ok_iff.mp rest with ⟨found, analyzed, rest⟩
  rcases Except.bind_eq_ok_iff.mp rest with ⟨label, -, rest⟩
  injection rest with same
  subst same
  exact ⟨found, analyzed, rfl⟩

/-- What an account with a filled in struct reports. -/
theorem reports_of_info {threshold participants : Nat}
    (positive : 1 ≤ threshold) (enough : threshold ≤ participants)
    (few : participants < 256)
    (stored :
      account.extra =
        some
          (.multisigInfo
            { threshold := Int32.ofNat threshold
              nrParticipants := Int32.ofNat participants
              isAddressOnly := true })) :
    account.isMultisigInternal = true ∧
      account.getSigningThreshold = .ok (Int32.ofNat threshold) ∧
      account.getNrParticipants = .ok (Int32.ofNat participants) := by
  have number {value : Nat} (small : value < 256) :
      (Int32.ofNat value).toInt = value :=
    Int32.toInt_ofNat_of_lt (by omega)
  have zero : (0 : Int32).toInt = 0 := rfl
  have one : (1 : Int32).toInt = 1 := rfl
  have some : (0 : Int32) < Int32.ofNat threshold := by
    rw [Int32.lt_iff_toInt_lt, number (by omega), zero]
    omega
  have ordered : Int32.ofNat threshold ≤ Int32.ofNat participants := by
    rw [Int32.le_iff_toInt_le, number (by omega), number few]
    omega
  have others : (0 : Int32) < Int32.ofNat participants := by
    rw [Int32.lt_iff_toInt_lt, number few, zero]
    omega
  have least : (1 : Int32) ≤ Int32.ofNat participants := by
    rw [Int32.le_iff_toInt_le, number few, one]
    omega
  have multisig : account.isMultisigInternal = true := by
    rw [isMultisigInternal, stored]
    exact decide_eq_true ⟨some, ordered, least⟩
  refine ⟨multisig, ?_, ?_⟩
  · rw [getSigningThreshold, multisig, if_neg (by decide), stored]
    exact if_pos some
  · rw [getNrParticipants, multisig, if_neg (by decide), stored]
    exact if_pos others

theorem reports_of_layout {threshold : Nat} {parts : ScriptParts}
    (created :
      createFromVerificationScript host alloc (.items script) =
        .ok account)
    (granted : alloc.neocGrants infoSize = true)
    (layout : AccountLayout host script threshold parts) :
    account.isMultisigInternal = true ∧
      account.getSigningThreshold = .ok (Int32.ofNat threshold) ∧
      account.getNrParticipants =
        .ok (Int32.ofNat parts.blocks.length) := by
  rcases createFromVerificationScript_eq_ok created with
    ⟨found, analyzed, stored⟩
  have small := layout.first.lt
  have few := layout.last.lt
  rw [layout.analyzeScript_eq] at analyzed
  injection analyzed with same
  rw [← same, makeInfo, if_pos granted, UInt8.toNat_ofNat',
    UInt8.toNat_ofNat', Nat.mod_eq_of_lt small, Nat.mod_eq_of_lt few]
    at stored
  exact reports_of_info layout.positive layout.enough few stored

/-- An account is multi-signature when a layout was found and stored. -/
theorem isMultisigInternal_iff
    (created :
      createFromVerificationScript host alloc (.items script) =
        .ok account) :
    account.isMultisigInternal = true ↔
      alloc.neocGrants infoSize = true ∧
        ∃ threshold parts, AccountLayout host script threshold parts := by
  constructor
  · intro multisig
    rcases createFromVerificationScript_eq_ok created with
      ⟨found, analyzed, stored⟩
    rcases found with _ | ⟨threshold, participants⟩
    · rw [isMultisigInternal, stored] at multisig
      cases multisig
    · rcases layout_of_analyzeScript analyzed with ⟨parts, layout, -⟩
      refine ⟨?_, _, parts, layout⟩
      by_contra refused
      rw [makeInfo, if_neg refused] at stored
      rw [isMultisigInternal, stored] at multisig
      cases multisig
  · rintro ⟨granted, threshold, parts, layout⟩
    exact (reports_of_layout created granted layout).1

end Reported

end WalletAccount

namespace WalletAccount

open VerificationScript (MultiSigForm isMultiSig_iff_form)

/-- The two recognisers say the same about a script. -/
structure RecognisersAgree {curve : Curve} (host : Host)
    (script : List UInt8) (account : WalletAccount curve) : Prop where
  recognised :
    account.isMultisigInternal = true ↔
      VerificationScript.isMultiSig host { script := .items script } = true
  threshold :
    VerificationScript.isMultiSig host { script := .items script } = true →
      account.getSigningThreshold =
        VerificationScript.getSigningThreshold host
          { script := .items script }
  participants :
    ∀ threshold count,
      MultiSigForm host script threshold count →
        account.getNrParticipants = .ok (Int32.ofNat count) ∧
          ∀ alloc nrAccounts,
            VerificationScript.getNrAccounts curve host alloc
                { script := .items script } =
              .ok nrAccounts →
              account.getNrParticipants = .ok nrAccounts

section Agreement

variable {curve : Curve} {host : Host} {alloc : Allocator}
  {script : List UInt8} {account : WalletAccount curve}

/-- Agreement rules out what only one of the two recognises. -/
theorem RecognisersAgree.excludes
    (created :
      createFromVerificationScript host alloc (.items script) =
        .ok account)
    (agree : RecognisersAgree host script account) :
    (alloc.neocGrants infoSize = true →
        ¬ WideForm host script ∧ ¬ LooseLayout host script) ∧
      (alloc.neocGrants infoSize = false →
        ¬ ∃ threshold count, MultiSigForm host script threshold count) := by
  have both :=
    (isMultisigInternal_iff created).symm.trans
      (agree.recognised.trans isMultiSig_iff_form)
  refine ⟨?_, ?_⟩
  · intro granted
    refine ⟨?_, ?_⟩
    · intro wide
      rcases both.mpr wide.multiSigForm with ⟨-, threshold, parts, layout⟩
      exact wide.not_layout layout
    · rintro ⟨threshold, parts, layout, notPlain⟩
      rcases both.mp ⟨granted, threshold, parts, layout⟩ with
        ⟨threshold', count, form⟩
      rcases wide_or_layout form with wide | ⟨parts', layout', -, plain⟩
      · exact wide.not_layout layout
      · rw [layout.parts_unique layout'] at notPlain
        exact notPlain plain
  · intro refused form
    rcases both.mpr form with ⟨granted, -⟩
    rw [refused] at granted
    cases granted

/-- Without memory for the struct the account recognises nothing. -/
theorem recognisersAgree_of_refused
    (created :
      createFromVerificationScript host alloc (.items script) =
        .ok account)
    (refused : alloc.neocGrants infoSize = false)
    (none :
      ¬ ∃ threshold count, MultiSigForm host script threshold count) :
    RecognisersAgree host script account := by
  refine ⟨?_, ?_, ?_⟩
  · rw [isMultisigInternal_iff created, isMultiSig_iff_form, refused]
    constructor
    · rintro ⟨granted, -⟩
      cases granted
    · intro form
      exact absurd form none
  · intro multiSig
    exact absurd (isMultiSig_iff_form.mp multiSig) none
  · intro threshold count form
    exact absurd ⟨threshold, count, form⟩ none

/-- With memory, what both recognise they report alike. -/
theorem recognisersAgree_of_granted
    (created :
      createFromVerificationScript host alloc (.items script) =
        .ok account)
    (granted : alloc.neocGrants infoSize = true)
    (notWide : ¬ WideForm host script)
    (notLoose : ¬ LooseLayout host script) :
    RecognisersAgree host script account := by
  have narrow {threshold count : Nat}
      (form : MultiSigForm host script threshold count) :
      ∃ parts,
        AccountLayout host script threshold parts ∧
          parts.blocks.length = count := by
    rcases wide_or_layout form with wide | ⟨parts, layout, length, -⟩
    · exact absurd wide notWide
    · exact ⟨parts, layout, length⟩
  refine ⟨?_, ?_, ?_⟩
  · rw [isMultisigInternal_iff created, isMultiSig_iff_form]
    constructor
    · rintro ⟨-, threshold, parts, layout⟩
      have plain : parts.Plain := by
        by_contra notPlain
        exact notLoose ⟨threshold, parts, layout, notPlain⟩
      exact ⟨threshold, _, layout.multiSigForm plain⟩
    · rintro ⟨threshold, count, form⟩
      rcases narrow form with ⟨parts, layout, -⟩
      exact ⟨granted, threshold, parts, layout⟩
  · intro multiSig
    rcases isMultiSig_iff_form.mp multiSig with ⟨threshold, count, form⟩
    rcases narrow form with ⟨parts, layout, -⟩
    rw [(reports_of_layout created granted layout).2.1,
      form.getSigningThreshold_eq]
  · intro threshold count form
    rcases narrow form with ⟨parts, layout, rfl⟩
    have reported := (reports_of_layout created granted layout).2.2
    refine ⟨reported, ?_⟩
    intro alloc' nrAccounts other
    rw [reported, form.getNrAccounts_eq_ok other]

end Agreement

/--
The recognisers agree about a script exactly when it has no wide number and
no layout of the account parser that is not plain.  Without memory for the
struct they agree about the scripts that are not multi-signature.
-/
theorem recognisers_agree_iff
    {curve : Curve}
    {host : Host}
    {alloc : Allocator}
    {script : List UInt8}
    {account : WalletAccount curve}
    (created :
      createFromVerificationScript host alloc (.items script) =
        .ok account) :
    RecognisersAgree host script account ↔
      (alloc.neocGrants infoSize = true →
        ¬ WideForm host script ∧ ¬ LooseLayout host script) ∧
      (alloc.neocGrants infoSize = false →
        ¬ ∃ threshold count, MultiSigForm host script threshold count) := by
  constructor
  · exact RecognisersAgree.excludes created
  · rintro ⟨whenGranted, whenRefused⟩
    cases memory : alloc.neocGrants infoSize with
    | false =>
        exact
          recognisersAgree_of_refused created memory (whenRefused memory)
    | true =>
        rcases whenGranted memory with ⟨notWide, notLoose⟩
        exact recognisersAgree_of_granted created memory notWide notLoose

/-! ## A byte behind the syscall -/

/-- A script with a `RET` behind the syscall. -/
def trailingScript : List UInt8 :=
  oneKeyScript ++ [0x40]

/-- SHA-256 of that script. -/
def trailingSha256 : Bytes 32 :=
  Bytes.ofNat 32
    0x3D8440D60D9168EFDFD39468D6E734A2D9F782E7E0C108E38631E915D8EB6F7E

/-- RIPEMD-160 of that digest. -/
def trailingDigest : Bytes 20 :=
  Bytes.ofNat 20 0x5BFE2A029AFB4B18A28DA0DA4EC0D3CF50C7506B

/-- A host that knows the digests around that script. -/
def trailingHost : Host :=
  let once : Bytes 32 :=
    Bytes.ofNat 32
      0x554946CA377564BB75F8E2F3E928D85FE1D7FD72BAEA5B15B12E250D0701D8F9
  let twice : Bytes 32 :=
    Bytes.ofNat 32
      0x5AB51B0D43C26C07CF4F77E8B84166B11A94F8ACC6BEBB8855AA9DF810A2FDE5
  Host.ofTables
    (serviceDigests ++
      [(trailingScript, trailingSha256),
        (0x35 :: trailingDigest.val, once), (once.val, twice)])
    [(trailingSha256.val, trailingDigest)]

/-- The parts of that script. -/
def trailingParts : ScriptParts where
  first := [0x11]
  blocks := [0x0C :: 0x21 :: basePointCompressed]
  last := [0x11]
  rest := [0x40]

theorem trailing_layout :
    AccountLayout trailingHost trailingScript 1 trailingParts := by
  refine ⟨by decide +kernel, ?_, ?_, ?_, le_rfl, le_rfl⟩
  · exact @NarrowPush.small 1 le_rfl (by decide)
  · intro block member
    rw [List.mem_singleton.mp member]
    exact .data ⟨basePointCompressed, rfl⟩
  · exact @NarrowPush.small 1 le_rfl (by decide)

/-- The account is multi-signature, the script is not. -/
theorem trailing_byte_recognised_once :
    ∃ account : WalletAccount Curve.basePoints,
      createFromVerificationScript trailingHost .ample
            (.items trailingScript) =
          .ok account ∧
        account.isMultisigInternal = true ∧
        VerificationScript.isMultiSig trailingHost
            { script := .items trailingScript } =
          false := by
  have made :
      (createFromVerificationScript trailingHost .ample
        (.items trailingScript) :
          Outcome (WalletAccount Curve.basePoints)).toBool = true := by
    decide +kernel
  rcases exists_of_toBool made with ⟨account, created⟩
  refine ⟨account, created, ?_, by decide +kernel⟩
  exact (reports_of_layout created (by decide) trailing_layout).1

theorem recognisers_disagree_trailing :
    ∃ account : WalletAccount Curve.basePoints,
      createFromVerificationScript trailingHost .ample
            (.items trailingScript) =
          .ok account ∧
        ¬ RecognisersAgree trailingHost trailingScript account := by
  have made :
      (createFromVerificationScript trailingHost .ample
        (.items trailingScript) :
          Outcome (WalletAccount Curve.basePoints)).toBool = true := by
    decide +kernel
  rcases exists_of_toBool made with ⟨account, created⟩
  refine ⟨account, created, ?_⟩
  rw [recognisers_agree_iff created]
  rintro ⟨condition, -⟩
  apply (condition (by decide)).2
  refine ⟨1, trailingParts, trailing_layout, ?_⟩
  intro plain
  cases plain.rest

end WalletAccount

end NeoC
