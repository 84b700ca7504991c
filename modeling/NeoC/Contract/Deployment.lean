import NeoC.Contract.NefHistory
import NeoC.Script.ContractCall

/-!
# Deploying a contract

Deploying builds a script that calls the native contract for management with
a manifest and the bytes of a NEF file.  These bytes are not written by
`neoc_nef_file_to_bytes`: a second encoder allocates a block for them and
fills it from the front.  The block is allotted four bytes for the length of
the script, which takes one, three or five.
-/

namespace NeoC

open Foundation

/-- A `neoc_contract_nef_t`, as far as its bytes are made from it. -/
structure ContractNef where
  compiler : Option CString
  source : Option CString
  script : Buffer
deriving DecidableEq

/-! ## The block -/

/-- `nef_bytes` and the `offset` in it. -/
structure NefBlock where
  bytes : List UInt8
  offset : Nat

namespace NefBlock

/-- `memcpy(nef_bytes + offset, data, ...);` -/
def copy (data : List UInt8) : Routine NefBlock Unit :=
  fun block =>
    if block.offset + data.length ≤ block.bytes.length then
      (.ok (),
        { block with
          bytes :=
            block.bytes.take block.offset ++ data ++
              block.bytes.drop (block.offset + data.length) })
    else
      Call.halt .illegalAccess block

/-- `offset += count;` -/
def advance (count : Nat) : Routine NefBlock Unit :=
  Call.update fun block => { block with offset := block.offset + count }

/-- Bytes are copied and the offset moves on. -/
def putField (data : List UInt8) (count : Nat) :
    Routine NefBlock Unit := do
  copy data
  advance count

/-- `nef_bytes[offset++] = byte;` -/
def put (byte : UInt8) : Routine NefBlock Unit :=
  putField [byte] 1

/-- The length of the script, in as many bytes as it takes. -/
def putScriptLength (scriptSize : Nat) : Routine NefBlock Unit :=
  if scriptSize < 0xFD then
    put (UInt8.ofNat scriptSize)
  else if scriptSize ≤ 0xFFFF then do
    put 0xFD
    put (UInt8.ofNat (scriptSize % 0x100))
    put (UInt8.ofNat (scriptSize / 0x100 % 0x100))
  else do
    put 0xFE
    put (UInt8.ofNat (scriptSize % 0x100))
    put (UInt8.ofNat (scriptSize / 0x100 % 0x100))
    put (UInt8.ofNat (scriptSize / 0x10000 % 0x100))
    put (UInt8.ofNat (scriptSize / 0x1000000 % 0x100))

/--
The first four bytes of a digest of what has been written.  If no digest is
computed, they are what the variable for it held before.
-/
def putChecksum (host : Host) (stack : Bytes 32) : Routine NefBlock Unit :=
  fun block =>
    let checksum :=
      match host.sha256 (block.bytes.take block.offset) with
      | .ok digest => digest
      | .error _ => stack
    copy (checksum.val.take 4) block

end NefBlock

namespace ContractNef

/-- What is copied of the name of the compiler. -/
def compilerBytes (nef : ContractNef) : List UInt8 :=
  match nef.compiler with
  | none => []
  | some compiler => compiler.characters.take 64

/-- What is copied of the source. -/
def sourceBytes (nef : ContractNef) : List UInt8 :=
  match nef.source with
  | none => []
  | some source => source.characters.take 255

/-- `nef_size`, as it is computed for the allocation. -/
def blockSize (nef : ContractNef) : Nat :=
  (4 + 64 + 1 + nef.sourceBytes.length + 1 + 1 + 2 + 4 +
      nef.script.content.length + 4) % sizeModulus

/-- How the block is filled in front of the checksum. -/
def fillContents (nef : ContractNef) : Routine NefBlock Unit := do
  NefBlock.put 0x4E
  NefBlock.put 0x45
  NefBlock.put 0x46
  NefBlock.put 0x33
  NefBlock.putField nef.compilerBytes 64
  NefBlock.put (UInt8.ofNat nef.sourceBytes.length)
  NefBlock.putField nef.sourceBytes nef.sourceBytes.length
  -- A reserved byte, no tokens, and two more reserved bytes.
  NefBlock.put 0
  NefBlock.put 0
  NefBlock.put 0
  NefBlock.put 0
  NefBlock.putScriptLength nef.script.content.length
  NefBlock.putField nef.script.content nef.script.content.length

/-- How the block is filled. -/
def fillBlock (host : Host) (stack : Bytes 32) (nef : ContractNef) :
    Routine NefBlock Unit := do
  nef.fillContents
  NefBlock.putChecksum host stack

/-- `nef_bytes`, up to the size that is left in `nef_size`. -/
def nefBytes (host : Host) (alloc : Allocator) (stack : Bytes 32)
    (nef : ContractNef) : Outcome (List UInt8) :=
  if alloc.neocGrants nef.blockSize = false then
    .error (.error .outOfMemory "Failed to allocate NEF bytes")
  else
    match
      (nef.fillBlock host stack).eval
        { bytes := List.replicate nef.blockSize 0
          offset := 0 }
    with
    | .error reason => .error reason
    | .ok (_, block) => .ok (block.bytes.take (block.offset + 4))

end ContractNef

/-! ## The script -/

namespace ContractManagement

/-- `CONTRACT_MANAGEMENT_HASH`. -/
def contractManagementHash : Hash160 :=
  ⟨[0xFF, 0xFF, 0xFF, 0xFF, 0xFF, 0xFF, 0xFF, 0xFF, 0xFF, 0xFF, 0xFF, 0xFF,
    0xFF, 0xFF, 0xFF, 0xFF, 0xFF, 0xFF, 0xFF, 0x00], rfl⟩

/-- The manifest as text; the name stands in it as it is. -/
def manifestJson (alloc : Allocator) (name : Option CString) :
    Outcome (List UInt8) :=
  match name with
  | some name =>
      if alloc.neocGrants 2048 = false then
        .error (.error .outOfMemory "Failed to allocate manifest JSON")
      else
        .ok
          ((ascii "\x7b\"name\":\"" ++ name.characters ++
              ascii
                ("\",\"groups\":[],\"features\":\x7b\x7d," ++
                  "\"supportedstandards\":[]," ++
                  "\"abi\":\x7b\"methods\":[],\"events\":[]\x7d," ++
                  "\"permissions\":[\x7b\"contract\":\"*\"," ++
                  "\"methods\":\"*\"\x7d]," ++
                  "\"trusts\":[],\"extra\":null\x7d")).take 2047)
  | none =>
      if alloc.neocGrants 256 = false then
        .error (.error .outOfMemory "Failed to allocate manifest JSON")
      else
        .ok
          (ascii
            ("\x7b\"name\":\"Contract\",\"groups\":[]," ++
              "\"features\":\x7b\x7d,\"supportedstandards\":[]," ++
              "\"abi\":\x7b\"methods\":[],\"events\":[]\x7d," ++
              "\"permissions\":[],\"trusts\":[],\"extra\":null\x7d"))

/-- The script of `neoc_contract_management_deploy`. -/
def deployScript (host : Host) (alloc : Allocator) (stack : Bytes 32)
    (nef : ContractNef) (manifestName : Option CString) :
    Outcome (List UInt8) :=
  ScriptBuilder.build alloc do
    let manifest ← Call.lift (manifestJson alloc manifestName)
    ScriptBuilder.pushData alloc (.items manifest)
    let nefBytes ← Call.lift (nef.nefBytes host alloc stack)
    ScriptBuilder.pushData alloc (.items nefBytes)
    ScriptBuilder.emitAppCall host alloc contractManagementHash
      (CString.ofString "deploy") 2

end ContractManagement

/-! ## What stands in the block -/

namespace NefBlock

/-- A block of which the front has been written. -/
def filled (size : Nat) (content : List UInt8) : NefBlock where
  bytes := content ++ List.replicate (size - content.length) 0
  offset := content.length

/-- The call writes these bytes behind the ones there are. -/
def Lays (call : Routine NefBlock Unit) (data : List UInt8) : Prop :=
  ∀ size content, content.length + data.length ≤ size →
    call (filled size content) = (.ok (), filled size (content ++ data))

theorem Lays.bind {first second : Routine NefBlock Unit}
    {data later : List UInt8} (lays : Lays first data)
    (laysLater : Lays second later) :
    Lays (first >>= fun _ => second) (data ++ later) := by
  intro size content room
  rw [List.length_append] at room
  rw [Call.bind_of_ok (lays size content (by omega)),
    laysLater size (content ++ data)
      (by rw [List.length_append]; omega),
    List.append_assoc]

theorem take_filled (size : Nat) (content : List UInt8) :
    (filled size content).bytes.take content.length = content :=
  List.take_left

/-- What is copied stands behind the front, and zeros behind it. -/
theorem copy_filled {size : Nat} {content data : List UInt8}
    (room : content.length + data.length ≤ size) :
    copy data (filled size content) =
      (.ok (),
        { bytes :=
            content ++ data ++
              List.replicate (size - (content.length + data.length)) 0
          offset := content.length }) := by
  have inside :
      (filled size content).offset + data.length ≤
        (filled size content).bytes.length := by
    simp only [filled, List.length_append, List.length_replicate]
    omega
  have front := take_filled size content
  have back :
      (filled size content).bytes.drop (content.length + data.length) =
        List.replicate (size - (content.length + data.length)) 0 := by
    rw [filled, List.drop_append, List.drop_eq_nil_of_le (by omega),
      List.nil_append, List.drop_replicate]
    congr 1
    omega
  rw [copy, if_pos inside]
  change
    ((Except.ok () : Except Halt Unit),
      ({ bytes :=
          (filled size content).bytes.take content.length ++ data ++
            (filled size content).bytes.drop (content.length + data.length)
         offset := content.length } : NefBlock)) = _
  rw [front, back]

/-- Nothing is copied beyond the end of the block. -/
theorem copy_filled_overflow {size : Nat} {content data : List UInt8}
    (bounded : content.length ≤ size)
    (beyond : size < content.length + data.length) :
    copy data (filled size content) =
      (.error .illegalAccess, filled size content) := by
  have outside :
      ¬ (filled size content).offset + data.length ≤
        (filled size content).bytes.length := by
    simp only [filled, List.length_append, List.length_replicate]
    omega
  rw [copy, if_neg outside, Call.halt_run]

/-- What is copied is filled up with the zeros that stand behind it. -/
theorem putField_lays {data : List UInt8} {count : Nat}
    (short : data.length ≤ count) :
    Lays (putField data count)
      (data ++ List.replicate (count - data.length) 0) := by
  intro size content room
  rw [List.length_append, List.length_replicate] at room
  have zeros :
      size - (content.length + data.length) =
        (count - data.length) + (size - (content.length + count)) := by
    omega
  have behind :
      (content ++ (data ++ List.replicate (count - data.length) 0)).length =
        content.length + count := by
    rw [List.length_append, List.length_append, List.length_replicate]
    omega
  rw [putField, Call.bind_of_ok (copy_filled (by omega)), advance,
    Call.update_run, filled, behind, zeros, List.replicate_add]
  simp only [List.append_assoc]

theorem putField_lays_all (data : List UInt8) :
    Lays (putField data data.length) data := by
  have lays := @putField_lays data data.length le_rfl
  rwa [Nat.sub_self, List.replicate_zero, List.append_nil] at lays

theorem put_lays (byte : UInt8) : Lays (put byte) [byte] :=
  putField_lays_all [byte]

/-- The length is written in its shortest form. -/
theorem putScriptLength_lays {scriptSize : Nat}
    (small : scriptSize ≤ 0xFFFFFFFF) :
    Lays (putScriptLength scriptSize) (VarInt.encode scriptSize) := by
  rw [putScriptLength, VarInt.encode]
  simp only [LittleEndian.toBytes, Nat.div_div_eq_div_mul]
  split_ifs
  · have byte : UInt8.ofNat (scriptSize % 256) = UInt8.ofNat scriptSize :=
      UInt8.ofNat_mod_size
    rw [byte]
    exact put_lays _
  · exact (put_lays _).bind ((put_lays _).bind (put_lays _))
  · exact
      (put_lays _).bind
        ((put_lays _).bind
          ((put_lays _).bind ((put_lays _).bind (put_lays _))))

/-- The digest that is written, or what stands in for it. -/
def checksumOf (host : Host) (stack : Bytes 32) (content : List UInt8) :
    Bytes 32 :=
  if host.cryptoInitialized then host.sha256Digest content else stack

theorem putChecksum_filled (host : Host) (stack : Bytes 32) (size : Nat)
    (content : List UInt8) :
    putChecksum host stack (filled size content) =
      copy ((checksumOf host stack content).val.take 4)
        (filled size content) := by
  have front :
      (filled size content).bytes.take (filled size content).offset =
        content :=
    take_filled size content
  by_cases initialized : host.cryptoInitialized
  · simp only [putChecksum, front, Host.sha256, checksumOf, initialized,
      if_true]
  · simp only [putChecksum, front, Host.sha256, checksumOf, initialized,
      Bool.false_eq_true, if_false]

theorem length_checksum (host : Host) (stack : Bytes 32)
    (content : List UInt8) :
    ((checksumOf host stack content).val.take 4).length = 4 := by
  rw [List.length_take, (checksumOf host stack content).property]
  rfl

end NefBlock

namespace ContractNef

open NefBlock

variable (nef : ContractNef)

theorem length_compilerBytes_le : nef.compilerBytes.length ≤ 64 := by
  rw [compilerBytes]
  split
  · exact Nat.zero_le 64
  · rw [List.length_take]
    exact Nat.min_le_left _ _

theorem length_sourceBytes_le : nef.sourceBytes.length ≤ 255 := by
  rw [sourceBytes]
  split
  · exact Nat.zero_le 255
  · rw [List.length_take]
    exact Nat.min_le_left _ _

/-- The bytes in front of the checksum. -/
def contents : List UInt8 :=
  [0x4E] ++ ([0x45] ++ ([0x46] ++ ([0x33] ++
    ((nef.compilerBytes ++
        List.replicate (64 - nef.compilerBytes.length) 0) ++
      ([UInt8.ofNat nef.sourceBytes.length] ++
        (nef.sourceBytes ++ ([0] ++ ([0] ++ ([0] ++ ([0] ++
          (VarInt.encode nef.script.content.length ++
            nef.script.content)))))))))))

theorem length_contents :
    nef.contents.length =
      73 + nef.sourceBytes.length +
        (VarInt.encode nef.script.content.length).length +
        nef.script.content.length := by
  have compiler := nef.length_compilerBytes_le
  simp only [contents, List.length_append, List.length_singleton,
    List.length_replicate]
  omega

theorem fillContents_lays (small : nef.script.content.length ≤ 0xFFFFFFFF) :
    Lays nef.fillContents nef.contents := by
  refine (put_lays _).bind ((put_lays _).bind ((put_lays _).bind ?_))
  refine (put_lays _).bind ?_
  refine (putField_lays nef.length_compilerBytes_le).bind ?_
  refine (put_lays _).bind ((putField_lays_all nef.sourceBytes).bind ?_)
  refine (put_lays _).bind ((put_lays _).bind ((put_lays _).bind ?_))
  refine (put_lays _).bind ((putScriptLength_lays small).bind ?_)
  exact putField_lays_all nef.script.content

/-- With a script below `2 ^ 32` bytes the size does not wrap. -/
theorem blockSize_eq (small : nef.script.content.length ≤ 0xFFFFFFFF) :
    nef.blockSize =
      81 + nef.sourceBytes.length + nef.script.content.length := by
  have source := nef.length_sourceBytes_le
  rw [blockSize, Nat.mod_eq_of_lt (by rw [sizeModulus]; omega)]
  omega

section Block

variable {nef} {host : Host} {alloc : Allocator} {stack : Bytes 32}

/-- Up to the checksum everything stays inside, whatever the length is. -/
theorem fillBlock_eq (small : nef.script.content.length ≤ 0xFFFFFFFF) :
    nef.fillBlock host stack
        { bytes := List.replicate nef.blockSize 0
          offset := 0 } =
      copy ((checksumOf host stack nef.contents).val.take 4)
        (filled nef.blockSize nef.contents) := by
  have empty :
      ({ bytes := List.replicate nef.blockSize 0
         offset := 0 } : NefBlock) = filled nef.blockSize [] :=
    rfl
  have room : ([] : List UInt8).length + nef.contents.length ≤
      nef.blockSize := by
    have length : (VarInt.encode nef.script.content.length).length ≤ 5 := by
      rw [VarInt.length_encode]
      split_ifs <;> decide
    rw [nef.length_contents, nef.blockSize_eq small, List.length_nil]
    omega
  rw [empty, fillBlock,
    Call.bind_of_ok (nef.fillContents_lays small nef.blockSize [] room),
    List.nil_append, putChecksum_filled]

/-- A short script leaves room for the checksum. -/
theorem nefBytes_eq
    (granted : alloc.neocGrants nef.blockSize = true)
    (short : nef.script.content.length ≤ 0xFFFF) :
    nef.nefBytes host alloc stack =
      .ok
        (nef.contents ++
          (checksumOf host stack nef.contents).val.take 4) := by
  have small : nef.script.content.length ≤ 0xFFFFFFFF := by omega
  have four := length_checksum host stack nef.contents
  have length : (VarInt.encode nef.script.content.length).length ≤ 3 := by
    rw [VarInt.length_encode, if_pos short]
    split_ifs <;> decide
  have room :
      nef.contents.length +
          ((checksumOf host stack nef.contents).val.take 4).length ≤
        nef.blockSize := by
    rw [four, nef.length_contents, nef.blockSize_eq small]
    omega
  have ran := @fillBlock_eq nef host stack small
  rw [copy_filled room] at ran
  rw [nefBytes, if_neg (by simp [granted]), Call.eval, ran]
  dsimp only
  rw [List.take_left' (by rw [List.length_append, four])]

/-- With a long one the checksum is written beyond the end. -/
theorem nefBytes_overflow
    (granted : alloc.neocGrants nef.blockSize = true)
    (small : nef.script.content.length ≤ 0xFFFFFFFF)
    (long : 0xFFFF < nef.script.content.length) :
    nef.nefBytes host alloc stack = .error .illegalAccess := by
  have four := length_checksum host stack nef.contents
  have length : (VarInt.encode nef.script.content.length).length = 5 := by
    rw [VarInt.length_encode, if_neg (by omega), if_neg (by omega),
      if_pos small]
  have ran := @fillBlock_eq nef host stack small
  rw [copy_filled_overflow
    (by rw [nef.length_contents, nef.blockSize_eq small]; omega)
    (by rw [four, nef.length_contents, nef.blockSize_eq small]; omega)] at ran
  rw [nefBytes, if_neg (by simp [granted]), Call.eval, ran]

end Block

end ContractNef

/-! ## Files with the same contents -/

namespace NefFile

variable {host : Host} {nef : NefFile} {parts : NefParts}

/-- Adding tokens touches neither the header nor the script. -/
theorem Kept.next_frame (kept : nef.Kept parts) (host : Host)
    (step : Addition) :
    (next host nef step).header = nef.header ∧
      (next host nef step).script = nef.script := by
  rcases kept.run_cases host step with
    ⟨code, text, ran⟩ | ⟨token, content, -, ran⟩
  · rw [next, ran]
    exact ⟨rfl, rfl⟩
  · rcases updateChecksum_frame host step.alloc (nef.withToken content)
      with ⟨checksum, frame⟩
    rw [next, ran, frame]
    exact ⟨rfl, rfl⟩

theorem Kept.run_frame (kept : nef.Kept parts) (host : Host)
    (steps : List Addition) :
    ∃ parts,
      (finalState (next host) nef steps).Kept parts ∧
        (finalState (next host) nef steps).header = nef.header ∧
        (finalState (next host) nef steps).script = nef.script := by
  have all :=
    (@along_const _ _ (next host) (fun _ => True) nef steps).mpr
      fun _ _ => trivial
  refine
    finalState_invariant
      (fun reached =>
        ∃ parts,
          reached.Kept parts ∧ reached.header = nef.header ∧
            reached.script = nef.script)
      ?_ ⟨parts, kept, rfl, rfl⟩ all
  rintro reached step ⟨parts, kept, header, script⟩ -
  rcases kept.next_kept host step with ⟨parts', kept'⟩
  rcases kept.next_frame host step with ⟨header', script'⟩
  exact ⟨parts', kept', header'.trans header, script'.trans script⟩

end NefFile

namespace ContractNef

/--
An object that was created for the same compiler, source and script, with
whatever tokens were added to it.
-/
def Restates (host : Host) (nef : ContractNef) (file : NefFile) : Prop :=
  ∃ alloc start steps,
    NefFile.create host alloc nef.compiler nef.source nef.script =
        .ok start ∧
      file = finalState (NefFile.next host) start steps

/-- What is created holds the source and the script as they were given. -/
theorem of_created {host : Host} {nef : ContractNef} {alloc : Allocator}
    {start : NefFile}
    (created :
      NefFile.create host alloc nef.compiler nef.source nef.script =
        .ok start) :
    (∃ parts, start.Kept parts) ∧
      NefFile.stringIn start.header.source = nef.sourceBytes ∧
      ∃ code, nef.script = .items code ∧ start.script = .items code := by
  rcases NefFile.of_create_eq_ok created with
    ⟨name, code, checksum, -, script, shortName, shortSource, -,
      smallScript, -, rfl⟩
  have kept :=
    (NefFile.kept_initial shortName shortSource smallScript).withChecksum
      checksum
  refine ⟨⟨_, kept⟩, kept.source_eq.trans ?_, code, script, rfl⟩
  rw [sourceBytes]
  cases given : nef.source with
  | none => rfl
  | some text =>
      exact (List.take_of_length_le (shortSource text given)).symm

/-- A file is longer than the block, by the rest of the checksum at least. -/
theorem Restates.length_le {host : Host} {nef : ContractNef}
    {file : NefFile} (restates : Restates host nef file)
    {alloc : Allocator} {bytes : List UInt8}
    (written : NefFile.toBytes alloc (some file) = .ok bytes) :
    nef.contents.length + 32 ≤ bytes.length := by
  rcases restates with ⟨creating, start, steps, created, same⟩
  rcases of_created created with
    ⟨⟨parts, kept⟩, source, code, script, startScript⟩
  rcases kept.run_frame host steps with ⟨parts', kept', header, sameScript⟩
  rw [← same] at kept' header sameScript
  have laid := kept'.holds.of_toBytes_eq_ok kept'.fits written
  rw [kept'.normal] at laid
  have scriptLength :
      BinaryWriter.varIntSize code.length =
        (VarInt.encode code.length).length :=
    (VarInt.length_encode code.length).symm
  rw [laid, kept'.length_layout, NefFile.fileSize, header, source,
    sameScript, startScript, nef.length_contents, script, Slice.len,
    Slice.content, scriptLength]
  omega

/-! ## The block against the file -/


/--
The block is assembled inside its allocation exactly if the script has at
most `0xFFFF` bytes, and it is never the encoding of a NEF file with that
compiler, source and script, whatever its tokens are.
-/
theorem deployed_block_never_nef_file
    (host : Host)
    (alloc : Allocator)
    (stack : Bytes 32)
    (nef : ContractNef)
    (granted : alloc.neocGrants nef.blockSize = true)
    (small : nef.script.content.length < 2 ^ 32) :
    (nef.nefBytes host alloc stack = .error .illegalAccess ↔
        0xFFFF < nef.script.content.length) ∧
      ¬ ∃ block file saving,
        nef.nefBytes host alloc stack = .ok block ∧
          Restates host nef file ∧
          NefFile.toBytes saving (some file) = .ok block := by
  have bounded : nef.script.content.length ≤ 0xFFFFFFFF := by omega
  rcases Nat.lt_or_ge 0xFFFF nef.script.content.length with long | short
  · have overflow :=
      @nefBytes_overflow nef host alloc stack granted bounded long
    refine ⟨iff_of_true overflow long, ?_⟩
    rintro ⟨block, file, saving, assembled, -, -⟩
    rw [overflow] at assembled
    cases assembled
  · have assembled := @nefBytes_eq nef host alloc stack granted short
    refine ⟨iff_of_false ?_ (Nat.not_lt.mpr short), ?_⟩
    · rw [assembled]
      exact fun impossible => nomatch impossible
    · rintro ⟨block, file, saving, same, restates, written⟩
      rw [assembled] at same
      injection same with same
      have longer := restates.length_le written
      rw [← same, List.length_append,
        NefBlock.length_checksum] at longer
      omega

/-- A contract that consists of a script. -/
def ofScript (script : List UInt8) : ContractNef where
  compiler := some NefFile.nefCompiler
  source := none
  script := .items script

/-- A contract that returns is assembled, and not as its file. -/
theorem short_block_never_nef_file :
    ((ofScript NefFile.shortScript).nefBytes NefFile.nefHost
          .ample (Bytes.zero 32) ≠
        .error .illegalAccess) ∧
      ¬ ∃ block file saving,
        (ofScript NefFile.shortScript).nefBytes NefFile.nefHost
              .ample (Bytes.zero 32) =
            .ok block ∧
          Restates NefFile.nefHost (ofScript NefFile.shortScript) file ∧
          NefFile.toBytes saving (some file) = .ok block := by
  have exact :=
    deployed_block_never_nef_file NefFile.nefHost .ample
      (Bytes.zero 32) (ofScript NefFile.shortScript) (by decide) (by decide)
  refine ⟨?_, exact.2⟩
  intro beyond
  exact absurd (exact.1.mp beyond) (by decide)

/--
For a script that only returns, the block and the file are both written and
differ; for one of `0x10000` bytes the block is written beyond its end.
-/
theorem deployed_block_differs :
    (∃ block bytes,
      (ofScript NefFile.shortScript).nefBytes NefFile.nefHost
            .ample (Bytes.zero 32) =
          .ok block ∧
        NefFile.create NefFile.nefHost .ample
            (some NefFile.nefCompiler) none (.items NefFile.shortScript) =
          .ok (NefFile.createdWith NefFile.shortScript) ∧
        NefFile.toBytes .ample
            (some (NefFile.createdWith NefFile.shortScript)) =
          .ok bytes ∧
        block ≠ bytes) ∧
      (ofScript (List.replicate 0x10000 0x40)).nefBytes NefFile.nefHost
          .ample (Bytes.zero 32) =
        .error .illegalAccess := by
  have created :=
    @NefFile.create_createdWith NefFile.shortScript (by decide) (by decide)
  have restates :
      Restates NefFile.nefHost (ofScript NefFile.shortScript)
        (NefFile.createdWith NefFile.shortScript) :=
    ⟨.ample, _, [], created, rfl⟩
  rcases NefFile.kept_of_create created with ⟨parts, kept, -⟩
  have written := kept.toBytes_eq NefFile.ample_serves_files
  have assembled :=
    @nefBytes_eq (ofScript NefFile.shortScript) NefFile.nefHost
      .ample (Bytes.zero 32) (by decide) (by decide)
  refine ⟨⟨_, _, assembled, created, written, ?_⟩, ?_⟩
  · intro same
    have longer := restates.length_le written
    rw [← same, List.length_append, NefBlock.length_checksum] at longer
    omega
  · have length :
        (ofScript (List.replicate 0x10000 0x40)).script.content.length =
          0x10000 :=
      List.length_replicate
    have size := blockSize_eq (ofScript (List.replicate 0x10000 0x40))
    apply nefBytes_overflow
    · rw [size (by omega), length]
      decide
    · omega
    · omega

end ContractNef

end NeoC
