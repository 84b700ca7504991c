import NeoC.Contract.NefFile
import NeoC.Serialization.ReaderInversion

/-!
# The layout of NEF files

`NefParts.layout` is the sequence of bytes that a file with given fields
consists of.  The reader takes exactly such sequences, followed by anything,
and the writer makes one from an object that `Holds` the fields.  Between the
two lies `normalize`: strings end at their first NUL, the name of the
compiler is cut and padded with zeros, and a return flag is zero or one.
-/

namespace NeoC

open Foundation Serialization

/-! ## Strings in arrays -/

/-- A string ends at its first NUL. -/
def cutString (text : List UInt8) : List UInt8 :=
  text.takeWhile (· ≠ 0)

theorem length_cutString_le (text : List UInt8) :
    (cutString text).length ≤ text.length :=
  (List.takeWhile_sublist _).length_le

theorem cutString_of_nul_free {text : List UInt8}
    (nulFree : (0 : UInt8) ∉ text) : cutString text = text := by
  apply List.takeWhile_eq_self_iff.mpr
  intro character member
  have different : character ≠ 0 := by
    rintro rfl
    exact nulFree member
  exact decide_eq_true different

/-- Zeros behind a string do not belong to it. -/
theorem cutString_append_zeros (text : List UInt8) (count : Nat) :
    cutString (text ++ List.replicate count 0) = cutString text := by
  induction text with
  | nil =>
      cases count with
      | zero => rfl
      | succ count => rfl
  | cons character rest induction =>
      rw [cutString, cutString, List.cons_append, List.takeWhile_cons,
        List.takeWhile_cons]
      split
      · exact congrArg _ induction
      · rfl

theorem val_fill {size : Nat} {content : List UInt8}
    (fits : content.length ≤ size) :
    (Bytes.fill size content).val =
      content ++ List.replicate (size - content.length) 0 := by
  change (content ++ List.replicate size 0).take size = _
  rw [List.take_append, List.take_of_length_le fits, List.take_replicate,
    Nat.min_eq_left (Nat.sub_le _ _)]

/-- Bytes that take up the whole array are the array. -/
theorem val_fill_of_length {size : Nat} {content : List UInt8}
    (length : content.length = size) :
    (Bytes.fill size content).val = content := by
  rw [val_fill (Nat.le_of_eq length), length, Nat.sub_self]
  exact List.append_nil content

/-- The string in an array is the one that was copied into it. -/
theorem stringIn_fill {size : Nat} {content : List UInt8}
    (fits : content.length ≤ size) :
    NefFile.stringIn (Bytes.fill size content) = cutString content := by
  change cutString (Bytes.fill size content).val = _
  rw [val_fill fits, cutString_append_zeros]

/-! ## The fields on the wire -/

namespace TokenParts

/-- The bytes of a token. -/
def encode (parts : TokenParts) : List UInt8 :=
  parts.hash.val ++
    ([UInt8.ofNat parts.method.length] ++
      (parts.method ++
        (LittleEndian.toBytes 2 parts.parametersCount.toNat ++
          ([parts.hasReturn] ++ [parts.callFlags]))))

/-- The name of the method fits into the object. -/
def Fits (parts : TokenParts) : Prop :=
  parts.method.length < 32

/-- What is left of a token in the object, written again. -/
def normalize (parts : TokenParts) : TokenParts :=
  { parts with
    method := cutString parts.method
    hasReturn := if parts.hasReturn != 0 then 1 else 0 }

theorem length_encode (parts : TokenParts) :
    parts.encode.length = 25 + parts.method.length := by
  simp only [encode, List.length_append, List.length_singleton,
    LittleEndian.length_toBytes, parts.hash.property]
  omega

theorem length_method_normalize_le (parts : TokenParts) :
    parts.normalize.method.length ≤ parts.method.length :=
  length_cutString_le parts.method

end TokenParts

namespace NefParts

/-- The bytes before the checksum; the length of the script has many forms. -/
def body (parts : NefParts) (lengthBytes : List UInt8) : List UInt8 :=
  LittleEndian.toBytes 4 nefMagic.toNat ++
    (parts.compiler.val ++
      (([UInt8.ofNat parts.source.length] ++ parts.source) ++
        (parts.reserved.val ++
          (([UInt8.ofNat parts.tokens.length] ++
              parts.tokens.flatMap TokenParts.encode) ++
            ([parts.reserved2] ++ (lengthBytes ++ parts.script))))))

/-- The bytes of a file. -/
def layout (parts : NefParts) (lengthBytes : List UInt8) : List UInt8 :=
  parts.body lengthBytes ++ parts.checksum.val

/-- The fields in the order in which they are read. -/
theorem layout_eq (parts : NefParts) (lengthBytes : List UInt8) :
    parts.layout lengthBytes =
      LittleEndian.toBytes 4 nefMagic.toNat ++
        (parts.compiler.val ++
          (([UInt8.ofNat parts.source.length] ++ parts.source) ++
            (parts.reserved.val ++
              (([UInt8.ofNat parts.tokens.length] ++
                  parts.tokens.flatMap TokenParts.encode) ++
                ([parts.reserved2] ++
                  ((lengthBytes ++ parts.script) ++
                    parts.checksum.val)))))) := by
  simp only [layout, body, List.append_assoc]

/-- The length of the script as the writer writes it. -/
def scriptLength (parts : NefParts) : List UInt8 :=
  VarInt.encode parts.script.length

/-- The fields fit into an object and their lengths into their bytes. -/
structure Fits (parts : NefParts) : Prop where
  source : parts.source.length ≤ 255
  tokens : parts.tokens.length ≤ 255
  each : ∀ token ∈ parts.tokens, token.Fits
  script : parts.script.length < sizeModulus

/-- What the checksum is computed from when a file has been read. -/
def stored (parts : NefParts) : NefParts :=
  { parts with
    source := cutString parts.source
    tokens := parts.tokens.map TokenParts.normalize }

/-- What is written when a file has been read. -/
def normalize (parts : NefParts) : NefParts :=
  { parts.stored with compiler := NefFile.compilerBuf parts.compiler }

theorem Fits.stored {parts : NefParts} (fits : parts.Fits) :
    parts.stored.Fits := by
  refine
    ⟨(length_cutString_le _).trans fits.source, ?_, ?_, fits.script⟩
  · change (parts.tokens.map _).length ≤ 255
    rw [List.length_map]
    exact fits.tokens
  · intro token member
    rcases List.mem_map.mp member with ⟨source, inside, rfl⟩
    exact
      lt_of_le_of_lt source.length_method_normalize_le
        (fits.each source inside)

theorem Fits.normalize {parts : NefParts} (fits : parts.Fits) :
    parts.normalize.Fits :=
  ⟨fits.stored.source, fits.stored.tokens, fits.stored.each,
    fits.stored.script⟩

/-- Fields are in normal form if each of them is. -/
theorem normalize_eq_iff {parts : NefParts} :
    parts.normalize = parts ↔
      NefFile.compilerBuf parts.compiler = parts.compiler ∧
        cutString parts.source = parts.source ∧
        parts.tokens.map TokenParts.normalize = parts.tokens := by
  constructor
  · intro normal
    exact
      ⟨congrArg NefParts.compiler normal, congrArg NefParts.source normal,
        congrArg NefParts.tokens normal⟩
  · rintro ⟨compiler, source, tokens⟩
    rw [normalize, stored, compiler, source, tokens]

/-- What is written again for the checksum is what is there. -/
theorem stored_of_normal {parts : NefParts}
    (normal : parts.normalize = parts) :
    parts.stored = parts := by
  rcases normalize_eq_iff.mp normal with ⟨-, source, tokens⟩
  rw [stored, source, tokens]

/-- The size of a file, apart from the length of the script. -/
def size (parts : NefParts) : Nat :=
  105 + parts.source.length +
    (parts.tokens.map fun token => 25 + token.method.length).sum +
    parts.script.length

theorem length_layout (parts : NefParts) (lengthBytes : List UInt8) :
    (parts.layout lengthBytes).length =
      parts.size + lengthBytes.length := by
  have tokens :
      (parts.tokens.flatMap TokenParts.encode).length =
        (parts.tokens.map fun token => 25 + token.method.length).sum := by
    rw [List.length_flatMap]
    exact
      congrArg List.sum
        (List.map_congr_left fun token _ => token.length_encode)
  simp only [layout, body, List.length_append, List.length_singleton,
    LittleEndian.length_toBytes, parts.compiler.property,
    parts.reserved.property, parts.checksum.property, tokens, size]
  omega

theorem length_body (parts : NefParts) (lengthBytes : List UInt8) :
    (parts.body lengthBytes).length + 32 =
      (parts.layout lengthBytes).length := by
  rw [layout, List.length_append, parts.checksum.property]

end NefParts

/-! ## Reading -/

namespace NefFile

theorem toNat_ofNat_length {count : Nat} (small : count ≤ 255) :
    (UInt8.ofNat count).toNat = count := by
  rw [UInt8.toNat_ofNat', Nat.mod_eq_of_lt (by omega)]

theorem eq_zero_of_not_pos {count : Nat} (small : count ≤ 255)
    (least : ¬ UInt8.ofNat count > 0) : count = 0 := by
  rw [gt_iff_lt, UInt8.lt_iff_toNat_lt, toNat_ofNat_length small] at least
  exact Nat.eq_zero_of_not_pos least

theorem reads_token {parts : TokenParts} (fits : parts.Fits) :
    Reads readToken parts.encode parts := by
  have small : parts.method.length < 32 := fits
  have number := @toNat_ofNat_length parts.method.length (by omega)
  have hash := reads_readBytes parts.hash.val
  rw [parts.hash.property] at hash
  refine hash.bind ((reads_readByte _).bind ?_)
  rw [number, if_neg (Nat.not_le.mpr fits)]
  refine (reads_readBytes parts.method).bind ?_
  refine (reads_readUint16 parts.parametersCount).bind ?_
  refine (reads_readByte parts.hasReturn).bind ?_
  rw [Bytes.fill_val]
  exact
    (reads_readByte parts.callFlags).map fun callFlags =>
      ({ parts with callFlags } : TokenParts)

theorem consumes_token :
    Consumes readToken fun bytes parts =>
      parts.Fits ∧ bytes = parts.encode := by
  refine (consumes_readBytes 20).bind ?_
  rintro _ hash ⟨rfl, length⟩
  refine consumes_readByte.bind ?_
  rintro methodLen _ rfl
  split
  · exact consumes_halt _ _
  rename_i short
  refine (consumes_readBytes _).bind ?_
  rintro _ method ⟨rfl, exact⟩
  refine consumes_readUint16.bind ?_
  rintro parametersCount _ rfl
  refine consumes_readByte.bind ?_
  rintro hasReturn _ rfl
  refine consumes_readByte.bind ?_
  rintro callFlags _ rfl
  refine consumes_pure ⟨?_, ?_⟩
  · rw [TokenParts.Fits, exact]
    exact Nat.lt_of_not_le short
  · have number : UInt8.ofNat method.length = methodLen := by
      rw [exact, UInt8.ofNat_toNat]
    rw [TokenParts.encode, val_fill_of_length length, number,
      List.append_nil]

theorem reads_source {source : List UInt8} (small : source.length < 255) :
    Reads readSource ([UInt8.ofNat source.length] ++ source) source := by
  have number := @toNat_ofNat_length source.length (by omega)
  have low : ¬ UInt8.ofNat source.length ≥ 255 := by
    intro high
    have bound := UInt8.le_iff_toNat_le.mp high
    rw [number] at bound
    change 255 ≤ source.length at bound
    omega
  refine (reads_readByte _).bind ?_
  by_cases some : UInt8.ofNat source.length > 0
  · rw [if_pos some, if_neg low, number]
    exact reads_readBytes source
  · have zero := eq_zero_of_not_pos (by omega) some
    rw [if_neg some, List.length_eq_zero_iff.mp zero]
    exact reads_pure []

theorem consumes_source :
    Consumes readSource fun bytes source =>
      source.length < 255 ∧
        bytes = [UInt8.ofNat source.length] ++ source := by
  refine consumes_readByte.bind ?_
  rintro sourceLen _ rfl
  split
  · split
    · exact consumes_halt _ _
    rename_i low
    refine (consumes_readBytes _).imp ?_
    rintro bytes source ⟨rfl, exact⟩
    refine ⟨?_, ?_⟩
    · rw [exact]
      exact UInt8.lt_iff_toNat_lt.mp (UInt8.not_le.mp low)
    · rw [exact, UInt8.ofNat_toNat]
  · rename_i empty
    have zero : sourceLen = 0 :=
      UInt8.le_zero_iff.mp (UInt8.not_lt.mp empty)
    refine consumes_pure ⟨by decide, ?_⟩
    rw [zero]
    rfl

theorem reads_tokens {alloc : Allocator} {tokens : List TokenParts}
    (few : tokens.length ≤ 255) (each : ∀ token ∈ tokens, token.Fits)
    (granted :
      alloc.grants (tokens.length * NefMethodToken.structSize) = true) :
    Reads (readTokens alloc)
      ([UInt8.ofNat tokens.length] ++ tokens.flatMap TokenParts.encode)
      tokens := by
  refine (reads_readByte _).bind ?_
  split
  · rw [toNat_ofNat_length few]
    exact
      (reads_malloc _ granted).bind
        (Reads.times fun token member => reads_token (each token member))
  · rename_i empty
    rw [List.length_eq_zero_iff.mp (eq_zero_of_not_pos few empty)]
    exact reads_pure []

/-- Pieces that are tokens make up the bytes of all of them. -/
theorem flatten_tokens {pieces : List (List UInt8)}
    {tokens : List TokenParts}
    (formed :
      List.Forall₂ (fun bytes parts =>
        TokenParts.Fits parts ∧ bytes = parts.encode) pieces tokens) :
    (∀ token ∈ tokens, token.Fits) ∧
      pieces.flatten = tokens.flatMap TokenParts.encode := by
  induction formed with
  | nil => exact ⟨List.forall_mem_nil _, rfl⟩
  | cons first later induction =>
      rcases first with ⟨fits, rfl⟩
      rcases induction with ⟨each, same⟩
      refine ⟨List.forall_mem_cons.mpr ⟨fits, each⟩, ?_⟩
      rw [List.flatten_cons, List.flatMap_cons, same]

theorem consumes_tokens (alloc : Allocator) :
    Consumes (readTokens alloc) fun bytes tokens =>
      tokens.length ≤ 255 ∧ (∀ token ∈ tokens, token.Fits) ∧
        bytes =
          [UInt8.ofNat tokens.length] ++
            tokens.flatMap TokenParts.encode := by
  refine consumes_readByte.bind ?_
  rintro tokenCount _ rfl
  split
  · refine (consumes_malloc alloc _ _).bind ?_
    rintro _ _ rfl
    refine (consumes_token.times tokenCount.toNat).imp ?_
    rintro bytes tokens ⟨length, pieces, rfl, formed⟩
    rcases flatten_tokens formed with ⟨each, same⟩
    have bounded := tokenCount.toNat_lt
    refine ⟨by omega, each, ?_⟩
    rw [length, UInt8.ofNat_toNat, List.nil_append, same]
  · rename_i empty
    have zero : tokenCount = 0 :=
      UInt8.le_zero_iff.mp (UInt8.not_lt.mp empty)
    refine consumes_pure ⟨by decide, List.forall_mem_nil _, ?_⟩
    rw [zero]
    rfl

/-- A file with fitting fields is read. -/
theorem reads_parts {alloc : Allocator} {parts : NefParts}
    {lengthBytes : List UInt8} (fits : parts.Fits)
    (short : parts.source.length < 255)
    (form : VarIntForm lengthBytes parts.script.length)
    (tokens :
      alloc.grants (parts.tokens.length * NefMethodToken.structSize) = true)
    (script : alloc.grants parts.script.length = true) :
    Reads (readParts alloc) (parts.layout lengthBytes) parts := by
  have compiler := reads_readBytes parts.compiler.val
  have reserved := reads_readBytes parts.reserved.val
  have checksum := reads_readBytes parts.checksum.val
  rw [parts.compiler.property] at compiler
  rw [parts.reserved.property] at reserved
  rw [parts.checksum.property] at checksum
  rw [NefParts.layout_eq]
  refine (reads_readUint32 nefMagic).bind ?_
  rw [if_neg (not_not.mpr rfl)]
  refine compiler.bind ((reads_source short).bind (reserved.bind ?_))
  refine (reads_tokens fits.tokens fits.each tokens).bind ?_
  refine (reads_readByte parts.reserved2).bind ?_
  refine (reads_varBytesForm form script).bind ?_
  rw [Bytes.fill_val, Bytes.fill_val, content_bufferOf]
  have last :=
    checksum.map fun bytes =>
      ({ parts with checksum := Bytes.fill 32 bytes } : NefParts)
  rw [Bytes.fill_val] at last
  exact last

/-- Whatever is read is a file with fitting fields. -/
theorem consumes_parts (alloc : Allocator) :
    Consumes (readParts alloc) fun bytes parts =>
      parts.Fits ∧ parts.source.length < 255 ∧
        ∃ lengthBytes,
          VarIntForm lengthBytes parts.script.length ∧
            bytes = parts.layout lengthBytes := by
  refine consumes_readUint32.bind ?_
  rintro magic _ rfl
  split
  · exact consumes_halt _ _
  rename_i known
  have known := not_not.mp known
  subst known
  refine (consumes_readBytes 64).bind ?_
  rintro _ compiler ⟨rfl, compilerLength⟩
  refine consumes_source.bind ?_
  rintro source _ ⟨short, rfl⟩
  refine (consumes_readBytes 2).bind ?_
  rintro _ reserved ⟨rfl, reservedLength⟩
  refine (consumes_tokens alloc).bind ?_
  rintro tokens _ ⟨few, each, rfl⟩
  refine consumes_readByte.bind ?_
  rintro reserved2 _ rfl
  refine (consumes_readVarBytes alloc).bind ?_
  rintro _ _ ⟨lengthBytes, script, rfl, form, rfl⟩
  refine (consumes_readBytes 32).bind ?_
  rintro _ checksum ⟨rfl, checksumLength⟩
  rw [content_bufferOf]
  refine
    consumes_pure
      ⟨⟨Nat.le_of_lt short, few, each, form.lt⟩, short, lengthBytes, form,
        ?_⟩
  rw [NefParts.layout_eq, List.append_nil,
    val_fill_of_length compilerLength, val_fill_of_length reservedLength,
    val_fill_of_length checksumLength]

/-- The bytes determine the fields, the form of the length and the rest. -/
theorem layout_unique {parts parts' : NefParts}
    {lengthBytes lengthBytes' rest rest' : List UInt8}
    (fits : parts.Fits) (short : parts.source.length < 255)
    (form : VarIntForm lengthBytes parts.script.length)
    (fits' : parts'.Fits) (short' : parts'.source.length < 255)
    (form' : VarIntForm lengthBytes' parts'.script.length)
    (small : (parts.layout lengthBytes ++ rest).length ≤ ptrdiffMax)
    (same :
      parts.layout lengthBytes ++ rest =
        parts'.layout lengthBytes' ++ rest') :
    parts = parts' ∧ lengthBytes = lengthBytes' ∧ rest = rest' := by
  have granted {parts : NefParts} {lengthBytes rest : List UInt8}
      (fits : parts.Fits)
      (small : (parts.layout lengthBytes ++ rest).length ≤ ptrdiffMax) :
      Allocator.ample.grants
            (parts.tokens.length * NefMethodToken.structSize) =
          true ∧
        Allocator.ample.grants parts.script.length = true := by
    have few := fits.tokens
    rw [List.length_append, NefParts.length_layout, NefParts.size] at small
    have room : 255 * NefMethodToken.structSize ≤ ptrdiffMax := by decide
    constructor
    · exact
        decide_eq_true (le_trans (Nat.mul_le_mul_right _ few) room)
    · exact decide_eq_true (by omega)
  -- One call reads both, so it returns one and the same record and position.
  have small' := small
  rw [same] at small'
  have read :=
    (reads_parts fits short form (granted fits small).1
      (granted fits small).2).eval_fresh small
  have read' :=
    (reads_parts fits' short' form' (granted fits' small').1
      (granted fits' small').2).eval_fresh small'
  rw [same, read'] at read
  injection read with both
  injection both with parts_eq reader_eq
  injection reader_eq with _ position_eq
  subst parts_eq
  rw [NefParts.length_layout, NefParts.length_layout] at position_eq
  have split :
      (parts'.layout lengthBytes).length =
        (parts'.layout lengthBytes').length := by
    rw [NefParts.length_layout, NefParts.length_layout]
    omega
  have layouts := List.append_inj_left same split
  refine ⟨rfl, ?_, List.append_inj_right same split⟩
  have bodies := List.append_cancel_right layouts
  simp only [NefParts.body, List.append_assoc,
    List.append_cancel_left_eq] at bodies
  exact List.append_cancel_right bodies

/-! ## Writing -/

open BinaryWriter

variable {alloc : Allocator}

theorem writeString_emits {text : List UInt8} (small : text.length ≤ 255) :
    Emits alloc (writeString alloc text)
      ([UInt8.ofNat text.length] ++ text) := by
  rw [writeString, toNat_ofNat_length small, List.take_length]
  exact (writeByte_emits _).bind (writeBytes_emits text)

theorem writeToken_emits {parts : TokenParts} (fits : parts.Fits) :
    Emits alloc (writeToken alloc parts.toToken) parts.normalize.encode := by
  have small : parts.method.length < 32 := fits
  have short := length_cutString_le parts.method
  have name :
      stringIn parts.toToken.method = cutString parts.method :=
    stringIn_fill (Nat.le_of_lt small)
  have written :
      Emits alloc (writeToken alloc parts.toToken)
        (parts.hash.val ++
          (([UInt8.ofNat (cutString parts.method).length] ++
              cutString parts.method) ++
            (LittleEndian.toBytes 2 parts.parametersCount.toNat ++
              ([if parts.hasReturn != 0 then 1 else 0] ++
                [parts.callFlags])))) := by
    rw [writeToken, name]
    refine (writeBytes_emits parts.hash.val).bind ?_
    refine (writeString_emits (by omega)).bind ?_
    refine (writeWord_emits 2 _).bind ?_
    exact (writeByte_emits _).bind (writeByte_emits _)
  rw [List.append_assoc] at written
  exact written

/-- The object holds the fields of a file. -/
structure Holds (nef : NefFile) (parts : NefParts) : Prop where
  header : nef.header = parts.header
  count : nef.tokenCount = parts.tokens.length
  tokens :
    nef.tokens.load nef.tokenCount =
      .ok (parts.tokens.map TokenParts.toToken)
  script : nef.script.content = parts.script
  backed : nef.script.Backed
  checksum : nef.checksum = parts.checksum

theorem holds_toNef (parts : NefParts) : parts.toNef.Holds parts := by
  have content :
      parts.toNef.tokens.content =
        parts.tokens.map TokenParts.toToken := by
    change
      TokenArray.content
          (if parts.tokens.length = 0 then .null
            else .slots (parts.tokens.map TokenParts.toToken)) =
        _
    split
    · rename_i empty
      rw [List.length_eq_zero_iff.mp empty]
      rfl
    · rfl
  refine ⟨rfl, rfl, ?_, content_bufferOf parts.script, ?_, rfl⟩
  · have inside : parts.toNef.tokenCount ≤ parts.toNef.tokens.size := by
      rw [TokenArray.size, content, List.length_map]
      exact le_rfl
    rw [TokenArray.load, if_pos inside, content]
    exact
      congrArg Except.ok
        (List.take_of_length_le (by rw [List.length_map]; exact le_rfl))
  · change
      Slice.Backed
        (if parts.script.length = 0 then .null 0 else .items parts.script)
    split
    · rfl
    · trivial

theorem tokens_emit {tokens : List TokenParts}
    (each : ∀ token ∈ tokens, token.Fits) :
    Emits alloc
      (Call.forEach (writeToken alloc) (tokens.map TokenParts.toToken))
      ((tokens.map TokenParts.normalize).flatMap TokenParts.encode) := by
  rw [List.flatMap_map, Call.forEach_map]
  exact emits_forEach fun token member =>
    writeToken_emits (each token member)

theorem Holds.script_emits {nef : NefFile} {parts : NefParts}
    (holds : nef.Holds parts) (fits : parts.Fits) :
    Emits alloc (writeVarBytes alloc nef.script)
      (parts.scriptLength ++ parts.script) := by
  have length : nef.script.len = parts.script.length := by
    rw [← holds.backed.length_content, holds.script]
  have written := @writeVarBytes_emits_buffer alloc nef.script
  rwa [bufferBytes, countBytes, length, holds.script,
    Nat.mod_eq_of_lt fits.script] at written

theorem Holds.source_eq {nef : NefFile} {parts : NefParts}
    (holds : nef.Holds parts) (fits : parts.Fits) :
    stringIn nef.header.source = cutString parts.source := by
  rw [holds.header]
  exact stringIn_fill (fits.source.trans (by decide))

/-- The contents are written as the fields are stored. -/
theorem Holds.writeContents_emits {nef : NefFile} {parts : NefParts}
    (holds : nef.Holds parts) (fits : parts.Fits) (compiler : Bytes 64) :
    Emits alloc (writeContents alloc nef compiler)
      (({ parts.stored with compiler } : NefParts).body
        parts.scriptLength) := by
  have magic : nef.header.magic = nefMagic := by rw [holds.header]; rfl
  have reserved : nef.header.reserved = parts.reserved := by
    rw [holds.header]
    rfl
  have reserved2 : nef.header.reserved2 = parts.reserved2 := by
    rw [holds.header]
    rfl
  have loaded := holds.tokens
  rw [holds.count] at loaded
  rw [writeContents, holds.source_eq fits, magic, reserved, reserved2,
    holds.count, loaded]
  refine (writeWord_emits 4 _).bind ?_
  refine (writeBytes_emits compiler.val).bind ?_
  refine
    (writeString_emits ((length_cutString_le _).trans fits.source)).bind ?_
  refine (writeBytes_emits parts.reserved.val).bind ?_
  -- The layout counts the tokens after they were put into normal form.
  have counted :
      (parts.tokens.map TokenParts.normalize).length =
        parts.tokens.length :=
    List.length_map _
  have written :
      Emits alloc
        (writeByte alloc (UInt8.ofNat parts.tokens.length) >>= fun _ =>
          Call.forEach (writeToken alloc)
              (parts.tokens.map TokenParts.toToken) >>=
            fun _ =>
              writeByte alloc parts.reserved2 >>= fun _ =>
                writeVarBytes alloc nef.script)
        ([UInt8.ofNat (parts.tokens.map TokenParts.normalize).length] ++
          ((parts.tokens.map TokenParts.normalize).flatMap
              TokenParts.encode ++
            ([parts.reserved2] ++
              (parts.scriptLength ++ parts.script)))) := by
    rw [counted]
    refine (writeByte_emits _).bind ((tokens_emit fits.each).bind ?_)
    exact (writeByte_emits _).bind (holds.script_emits fits)
  rw [← List.append_assoc] at written
  exact written

/-! ## What the functions return -/

/-- A writer for a file is made, and an array of what is written. -/
theorem produce_file {calls : Routine BinaryWriter Unit}
    {bytes : List UInt8} (emits : Emits alloc calls bytes)
    (serves : alloc.Serves (max 1024 (2 * bytes.length))) :
    produce alloc (BinaryWriter.create alloc 1024 true) calls =
      .ok bytes := by
  rcases create_succeeds true
      (serves.mono (le_max_left _ _) :
        alloc.Serves (max 1024 BinaryWriter.structSize)) with
    ⟨writer, created⟩
  exact
    produce_succeeds (fresh_create 1024) created emits
      (serves.mono (le_max_right _ _))

namespace Holds

variable {host : Host} {nef : NefFile} {parts : NefParts}

theorem compiler_eq (holds : nef.Holds parts) :
    nef.header.compiler = parts.compiler := by
  rw [holds.header]
  rfl

theorem contents_emits (holds : nef.Holds parts) (fits : parts.Fits) :
    Emits alloc (writeContents alloc nef nef.header.compiler)
      (parts.stored.body parts.scriptLength) := by
  rw [holds.compiler_eq]
  exact holds.writeContents_emits fits parts.compiler

/-- With memory, the checksum is the digest of what is stored. -/
theorem calculateChecksum_eq (holds : nef.Holds parts)
    (fits : parts.Fits) (initialized : host.cryptoInitialized = true)
    (serves :
      alloc.Serves
        (max 1024 (2 * (parts.stored.body parts.scriptLength).length))) :
    calculateChecksum host alloc nef =
      .ok (host.doubleDigest (parts.stored.body parts.scriptLength)) :=
  Except.bind_eq_ok_iff.mpr
    ⟨_, produce_file (holds.contents_emits fits) serves,
      Host.sha256Double_of_initialized initialized _⟩

/-- Without a look at the memory, a checksum that is computed is right. -/
theorem of_calculateChecksum_eq_ok (holds : nef.Holds parts)
    (fits : parts.Fits) {checksum : Hash256}
    (computed : calculateChecksum host alloc nef = .ok checksum) :
    checksum =
        host.doubleDigest (parts.stored.body parts.scriptLength) ∧
      host.cryptoInitialized = true := by
  rcases Except.bind_eq_ok_iff.mp computed with ⟨data, made, hashed⟩
  have written :=
    produce_eq_ok (fresh_create 1024) (holds.contents_emits fits).appends
      made
  rw [Host.sha256Double_eq_ok hashed, written]
  exact ⟨rfl, Host.initialized_of_sha256Double hashed⟩

theorem verifyChecksum_eq (holds : nef.Holds parts) (fits : parts.Fits)
    (initialized : host.cryptoInitialized = true)
    (serves :
      alloc.Serves
        (max 1024 (2 * (parts.stored.body parts.scriptLength).length))) :
    verifyChecksum host alloc (some nef) =
      .ok
        (decide
          (host.doubleDigest (parts.stored.body parts.scriptLength) =
            parts.checksum)) := by
  rw [verifyChecksum,
    holds.calculateChecksum_eq fits initialized serves, holds.checksum]

theorem toBytes_emits (holds : nef.Holds parts) (fits : parts.Fits) :
    Emits alloc
      (writeContents alloc nef (compilerBuf nef.header.compiler) >>=
        fun _ => writeBytes alloc (.items nef.checksum.val))
      (parts.normalize.layout parts.scriptLength) := by
  rw [holds.compiler_eq, holds.checksum]
  exact
    (holds.writeContents_emits fits _).bind
      (writeBytes_emits parts.checksum.val)

/-- With memory, the fields are written in normal form. -/
theorem toBytes_eq (holds : nef.Holds parts) (fits : parts.Fits)
    (serves :
      alloc.Serves
        (max 1024
          (2 * (parts.normalize.layout parts.scriptLength).length))) :
    toBytes alloc (some nef) =
      .ok (parts.normalize.layout parts.scriptLength) :=
  produce_file (holds.toBytes_emits fits) serves

/-- Without a look at the memory, what is written is in normal form. -/
theorem of_toBytes_eq_ok (holds : nef.Holds parts) (fits : parts.Fits)
    {bytes : List UInt8} (written : toBytes alloc (some nef) = .ok bytes) :
    bytes = parts.normalize.layout parts.scriptLength :=
  produce_eq_ok (fresh_create 1024) (holds.toBytes_emits fits).appends
    written

end Holds

/-- With memory, a file that is long enough is read. -/
theorem fromBytes_layout {parts : NefParts}
    {lengthBytes rest : List UInt8} (fits : parts.Fits)
    (short : parts.source.length < 255)
    (form : VarIntForm lengthBytes parts.script.length)
    (long :
      NefHeader.structSize ≤ (parts.layout lengthBytes ++ rest).length)
    (serves :
      alloc.Serves
        (max 0x4000 (parts.layout lengthBytes ++ rest).length)) :
    fromBytes alloc (.items (parts.layout lengthBytes ++ rest)) =
      .ok parts.toNef := by
  have bounded := serves.bound_le
  have few := fits.tokens
  have script :
      parts.script.length ≤
        (parts.layout lengthBytes ++ rest).length := by
    rw [List.length_append, NefParts.length_layout, NefParts.size]
    omega
  have opened :=
    @BinaryReader.create_succeeds alloc (parts.layout lengthBytes ++ rest)
      (serves.mono (by simp only [BinaryReader.structSize]; omega))
  have object : ¬ alloc.neocGrants structSize = false := by
    rw [serves.neocGrants (by decide) (by simp only [structSize]; omega)]
    decide
  have read :=
    (reads_parts fits short form
      (serves _ (by simp only [NefMethodToken.structSize]; omega))
      (serves _ (by omega))).eval_fresh
        (show (parts.layout lengthBytes ++ rest).length ≤ ptrdiffMax by
          omega)
  rw [fromBytes, if_neg (Nat.not_lt.mpr long)]
  refine Except.bind_eq_ok_iff.mpr ⟨_, opened, ?_⟩
  rw [if_neg object]
  exact Except.bind_eq_ok_iff.mpr ⟨_, read, rfl⟩

/-- The form that the writer chooses for the length of the script. -/
theorem form_scriptLength {parts : NefParts} (fits : parts.Fits) :
    VarIntForm parts.scriptLength parts.script.length := by
  have form := varIntForm_encode (UInt64.ofNat parts.script.length)
  rwa [toNat_ofNat_size fits.script] at form

/-- With memory, a file as it is written is read. -/
theorem fromBytes_written {parts : NefParts} (fits : parts.Fits)
    (short : parts.source.length < 255)
    (long :
      NefHeader.structSize ≤ (parts.layout parts.scriptLength).length)
    (serves :
      alloc.Serves
        (max 0x4000 (parts.layout parts.scriptLength).length)) :
    fromBytes alloc (.items (parts.layout parts.scriptLength)) =
      .ok parts.toNef := by
  rw [← List.append_nil (parts.layout parts.scriptLength)] at *
  exact fromBytes_layout fits short (form_scriptLength fits) long serves

/-- Whatever is accepted is a file of a certain size, followed by anything. -/
theorem of_fromBytes_eq_ok {data : Buffer} {nef : NefFile}
    (accepted : fromBytes alloc data = .ok nef) :
    ∃ (parts : NefParts) (lengthBytes rest : List UInt8),
      data = .items (parts.layout lengthBytes ++ rest) ∧ parts.Fits ∧
        parts.source.length < 255 ∧
        VarIntForm lengthBytes parts.script.length ∧
        NefHeader.structSize ≤
          (parts.layout lengthBytes ++ rest).length ∧
        (parts.layout lengthBytes ++ rest).length ≤ ptrdiffMax ∧
        nef = parts.toNef := by
  cases data with
  | null count => cases accepted
  | items data =>
      rw [fromBytes] at accepted
      split at accepted
      · cases accepted
      rename_i long
      rcases Except.bind_eq_ok_iff.mp accepted with ⟨reader, opened, rest⟩
      rcases BinaryReader.create_eq_ok opened with ⟨rfl, wellFormed⟩
      split at rest
      · cases rest
      rcases Except.bind_eq_ok_iff.mp rest with
        ⟨⟨parts, last⟩, ran, stored⟩
      injection stored with same
      rcases consumes_parts alloc _ parts last wellFormed
          (Call.eval_eq_ok_iff.mp ran) with
        ⟨bytes, behind, found, ⟨fits, short, lengthBytes, form, rfl⟩, -⟩
      rw [List.drop_zero] at found
      change data = _ at found
      subst found
      exact
        ⟨parts, lengthBytes, behind, rfl, fits, short, form,
          Nat.le_of_not_lt long, wellFormed.length_le, same.symm⟩

/-! ## A file with a token -/

/-- A file with a token, with its return flag and its checksum. -/
def tokenFile (hasReturn : UInt8) (checksum : Hash256) : NefParts where
  compiler := Bytes.zero 64
  source := []
  reserved := Bytes.zero 2
  tokens :=
    [{ hash := Bytes.zero 20
       method := []
       parametersCount := 0
       hasReturn := hasReturn
       callFlags := 0 }]
  reserved2 := 0
  script := List.replicate 252 0x40
  checksum := checksum

/-- The bytes of the file. -/
def tokenFileBytes (hasReturn : UInt8) (checksum : Hash256) : List UInt8 :=
  (tokenFile hasReturn checksum).layout
    (tokenFile hasReturn checksum).scriptLength

section TokenFile

variable (hasReturn : UInt8) (checksum : Hash256)

theorem fits_tokenFile : (tokenFile hasReturn checksum).Fits := by
  refine ⟨Nat.zero_le _, (by decide : 1 ≤ 255), ?_, ?_⟩
  · intro token member
    rw [List.mem_singleton.mp member]
    exact (by decide : 0 < 32)
  · rw [tokenFile, List.length_replicate]
    decide

theorem length_tokenFileBytes :
    (tokenFileBytes hasReturn checksum).length = 383 := by
  rw [tokenFileBytes, NefParts.length_layout, NefParts.size,
    NefParts.scriptLength, VarInt.length_encode]
  rw [tokenFile, List.length_replicate]
  rfl

theorem fromBytes_tokenFile :
    fromBytes .ample
        (.items (tokenFileBytes hasReturn checksum)) =
      .ok (tokenFile hasReturn checksum).toNef := by
  have length := length_tokenFileBytes hasReturn checksum
  rw [tokenFileBytes] at length ⊢
  apply
    fromBytes_written (fits_tokenFile hasReturn checksum)
      (by decide : 0 < 255)
  · rw [length]
    decide
  · rw [length]
    exact Allocator.ample_serves (by decide)

end TokenFile

end NefFile

end NeoC
