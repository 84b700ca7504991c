import NeoC.Wallet.Nep6History

/-!
# NEP-6 wallets to JSON

The text of a wallet is put together by `snprintf` in a buffer of an
estimated size, without the library.  Names and labels are copied as they
are.  The label of an account is written later than the rest of it, over its
last characters; the script of a contract is left empty, and the bracket
behind the parameters is closed twice unless the contract is deployed.  The
reported length is the offset that the returned lengths add up to, which is
the length of the text as long as the text fits into the buffer.
-/

namespace NeoC

open Foundation JsonGrammar

namespace Nep6Wallet

/-! ## Writing into the buffer -/

/-- What `snprintf` returns for a text, or `-1` when an `int` is too small. -/
def printedLength (text : List UInt8) : Int :=
  if (text.length : Int) ≤ intMax then text.length else -1

/--
`snprintf` to an offset of a buffer, for at most `size` bytes with the NUL.
-/
def snprintf (offset : Int) (size : Nat) (text : List UInt8) :
    Routine (List UInt8) Int :=
  fun buffer =>
    let written := text.take (size - 1) ++ [0]
    if size = 0 then
      (.ok (printedLength text), buffer)
    else if 0 ≤ offset ∧ offset + written.length ≤ buffer.length then
      (.ok (printedLength text),
        buffer.take offset.toNat ++ written ++
          buffer.drop (offset.toNat + written.length))
    else
      Call.halt .illegalAccess buffer

/-- `estimated_size - offset`, a `size_t`. -/
def room (estimatedSize : Nat) (offset : Int) : Nat :=
  ((estimatedSize - offset) % sizeModulus).toNat

/-- Print a text behind what is there, and move the offset over it. -/
def append (estimatedSize : Nat) (offset : Int) (text : List UInt8) :
    Routine (List UInt8) Int := do
  let printed ← snprintf offset (room estimatedSize offset) text
  if offset + printed ≤ intMax then
    pure (offset + printed)
  else
    Call.halt .signedOverflow

/-- The characters of a text that may be absent. -/
def orEmpty (text : Option CString) : List UInt8 :=
  match text with
  | some text => text.characters
  | none => []

/-- The first part of the text. -/
def headerText (wallet : Nep6Wallet) : List UInt8 :=
  ascii "\x7b\n  \"name\": \"" ++ (orEmpty wallet.name ++
    (ascii "\",\n  \"version\": \"" ++ (orEmpty wallet.version ++
      (ascii "\",\n  \"scrypt\": \x7b\n    \"n\": " ++
        (decimal wallet.scrypt.n.toNat ++
          (ascii ",\n    \"r\": " ++ (decimal wallet.scrypt.r.toNat ++
            (ascii ",\n    \"p\": " ++ (decimal wallet.scrypt.p.toNat ++
              ascii "\n  \x7d,\n  \"accounts\": [\n")))))))))

/-- A flag. -/
def flagText (flag : Bool) : List UInt8 :=
  if flag then ascii "true" else ascii "false"

/-- The first part of an account; an empty text stands for its label. -/
def accountText (account : Nep6Account) : List UInt8 :=
  ascii "    \x7b\n      \"address\": \"" ++ orEmpty account.address ++
    ascii "\",\n      \"label\": " ++
    (if account.label.isSome then [] else ascii "null") ++
    ascii ",\n      \"isDefault\": " ++ flagText account.isDefault ++
    ascii ",\n      \"lock\": " ++ flagText account.lock ++
    ascii ",\n      \"key\": \"" ++ orEmpty account.key ++
    ascii "\",\n      \"contract\": \x7b\n        \"script\": \""

/-- The last part of an account. -/
def closingText (account : Nep6Account) (last : Bool) : List UInt8 :=
  (if account.contract.any Nep6Contract.isDeployed then
    ascii ",\n        \"deployed\": true\n      \x7d\n    \x7d"
  else
    ascii "],\n        \"deployed\": false\n      \x7d\n    \x7d") ++
    (if last then [] else ascii ",") ++ ascii "\n"

/-- The label, written over the last six characters. -/
def patchLabel (offset : Int) (label : Option CString) :
    Routine (List UInt8) Unit :=
  match label with
  | none => pure ()
  | some label => do
      let _ ←
        snprintf (offset - 6) 256
          (ascii "\"" ++ label.characters ++ ascii "\",\n")
      pure ()

/-- `offset = strlen(buffer);` with an `int` on the left. -/
def bufferLength (buffer : List UInt8) : Int :=
  ((CString.ofBuffer buffer).strlen : Int).bmod 0x100000000

/-- One account. -/
def writeAccount (estimatedSize : Nat) (offset : Int)
    (account : Nep6Account) (last : Bool) : Routine (List UInt8) Int := do
  let offset ← append estimatedSize offset (accountText account)
  patchLabel offset account.label
  let offset ← Call.read bufferLength
  let offset ←
    append estimatedSize offset (ascii "\",\n        \"parameters\": []")
  append estimatedSize offset (closingText account last)

/-- The accounts, one behind the other. -/
def writeAccounts (estimatedSize : Nat) :
    Int → List Nep6Account → Routine (List UInt8) Int
  | offset, [] => pure offset
  | offset, account :: rest => do
      let offset ←
        writeAccount estimatedSize offset account rest.isEmpty
      writeAccounts estimatedSize offset rest

/-- The end of the text. -/
def footerText : List UInt8 := ascii "  ]\n\x7d\n"

/-- The whole text, with the offset behind it. -/
def writeWallet (estimatedSize : Nat) (wallet : Nep6Wallet) :
    Routine (List UInt8) Int := do
  let offset ←
    snprintf 0 estimatedSize wallet.headerText
  let offset ← writeAccounts estimatedSize offset wallet.accounts
  append estimatedSize offset footerText

/--
`neoc_nep6_wallet_to_json`, with the text in the buffer and the reported
length.  What `malloc` leaves in the buffer is not read before it is written;
zeros stand for it.
-/
def toJson (alloc : Allocator) (wallet : Nep6Wallet) :
    Outcome (CString × Nat) :=
  let estimatedSize := (4096 + wallet.accounts.length * 512) % sizeModulus
  if alloc.neocGrants estimatedSize = false then
    .error (.error .outOfMemory "Failed to allocate buffer")
  else do
    let (offset, buffer) ←
      (writeWallet estimatedSize wallet).eval
        (List.replicate estimatedSize 0)
    .ok (CString.ofBuffer buffer, (offset % sizeModulus).toNat)

/-! ## The text of a wallet without accounts -/

/-- The string of a buffer ends at its first NUL. -/
theorem ofBuffer_nul {text : List UInt8} (free : (0 : UInt8) ∉ text)
    (rest : List UInt8) :
    (CString.ofBuffer (text ++ 0 :: rest)).characters = text := by
  rw [CString.ofBuffer]
  dsimp only
  rw [List.takeWhile_append_of_pos ?_, List.takeWhile_cons,
    if_neg (by decide), List.append_nil]
  intro byte member
  rw [decide_eq_true_iff]
  rintro rfl
  exact free member

/-- A string is not longer than what is before a NUL. -/
theorem strlen_ofBuffer_le (left right : List UInt8) :
    (CString.ofBuffer (left ++ 0 :: right)).strlen ≤ left.length := by
  rw [CString.strlen, CString.ofBuffer]
  dsimp only
  rw [List.takeWhile_append]
  split
  · rw [List.takeWhile_cons, if_neg (by decide), List.append_nil]
  · exact (List.takeWhile_sublist _).length_le

theorem nul_free_orEmpty (text : Option CString) :
    (0 : UInt8) ∉ orEmpty text := by
  cases text with
  | none => exact List.not_mem_nil
  | some text => exact text.nul_free

theorem nul_free_decimal (value : Nat) : (0 : UInt8) ∉ decimal value := by
  intro member
  cases isDigit_decimal value 0 member

/-- There is no NUL in the text of a wallet. -/
theorem nul_free_header (wallet : Nep6Wallet) :
    (0 : UInt8) ∉ wallet.headerText ++ footerText := by
  simp only [headerText, footerText, List.mem_append, not_or]
  have name := nul_free_orEmpty wallet.name
  have version := nul_free_orEmpty wallet.version
  have numeral := nul_free_decimal
  refine
    ⟨⟨by decide, name, by decide, version, by decide, numeral _, by decide,
        numeral _, by decide, numeral _, by decide⟩, by decide⟩

/-- The room that the texts of a wallet without accounts take. -/
def headerRoom (wallet : Nep6Wallet) : Nat :=
  (orEmpty wallet.name).length + (orEmpty wallet.version).length +
    (decimal wallet.scrypt.n.toNat).length +
    (decimal wallet.scrypt.r.toNat).length +
    (decimal wallet.scrypt.p.toNat).length

theorem length_headerText (wallet : Nep6Wallet) :
    wallet.headerText.length = wallet.headerRoom + 100 := by
  simp only [headerText, headerRoom, List.length_append]
  have first : (ascii "\x7b\n  \"name\": \"").length = 13 := by decide
  have second : (ascii "\",\n  \"version\": \"").length = 17 := by decide
  have third :
      (ascii "\",\n  \"scrypt\": \x7b\n    \"n\": ").length = 26 := by
    decide
  have fourth : (ascii ",\n    \"r\": ").length = 11 := by decide
  have fifth : (ascii ",\n    \"p\": ").length = 11 := by decide
  have sixth :
      (ascii "\n  \x7d,\n  \"accounts\": [\n").length = 22 := by
    decide
  omega

/-- Printing over a part of a buffer, with a NUL behind the text. -/
theorem snprintf_run {offset size : Nat} {text buffer : List UInt8}
    (fits : offset + (text.take size).length + 1 ≤ buffer.length) :
    snprintf offset (size + 1) text buffer =
      (.ok (printedLength text),
        buffer.take offset ++
          (text.take size ++
            0 :: buffer.drop (offset + (text.take size).length + 1))) := by
  unfold snprintf
  rw [if_neg (Nat.succ_ne_zero size), if_pos ?_, Int.toNat_natCast,
    Nat.add_sub_cancel, List.length_append, List.length_singleton,
    List.append_assoc, List.append_assoc, List.singleton_append,
    Nat.add_assoc]
  refine ⟨Int.natCast_nonneg offset, ?_⟩
  rw [Nat.add_sub_cancel, List.length_append, List.length_singleton]
  omega

/-- The header is cut to the buffer, and its whole length is returned. -/
theorem snprintf_header (wallet : Nep6Wallet) {buffer : List UInt8}
    (size : buffer.length = 4096) :
    ∃ rest,
      snprintf 0 4096 wallet.headerText buffer =
          (.ok (printedLength wallet.headerText),
            wallet.headerText.take 4095 ++ 0 :: rest) ∧
        (wallet.headerText.take 4095).length + 1 + rest.length = 4096 := by
  have short : (wallet.headerText.take 4095).length ≤ 4095 :=
    List.length_take_le _ _
  have ran := @snprintf_run 0 4095 wallet.headerText buffer (by omega)
  refine
    ⟨buffer.drop (0 + (wallet.headerText.take 4095).length + 1), ran, ?_⟩
  rw [List.length_drop, size]
  omega

theorem writeWallet_empty {wallet : Nep6Wallet}
    (empty : wallet.accounts = []) {size : Nat} {buffer : List UInt8} :
    writeWallet size wallet buffer =
      (snprintf 0 size wallet.headerText >>= fun offset =>
        append size offset footerText) buffer := by
  rw [writeWallet, empty]
  rfl

/-- With room for it, the text of a wallet is its header and its footer. -/
theorem writeWallet_fits {wallet : Nep6Wallet}
    (empty : wallet.accounts = []) (fits : wallet.headerRoom ≤ 3989)
    {buffer : List UInt8} (size : buffer.length = 4096) :
    ∃ rest,
      writeWallet 4096 wallet buffer =
        (.ok ((wallet.headerText ++ footerText).length : Int),
          (wallet.headerText ++ footerText) ++ 0 :: rest) := by
  have length := length_headerText wallet
  have whole : wallet.headerText.take 4095 = wallet.headerText :=
    List.take_of_length_le (by omega)
  rcases snprintf_header wallet size with ⟨rest, ran, total⟩
  rw [whole] at ran total
  have printed :
      printedLength wallet.headerText = (wallet.headerText.length : Int) := by
    rw [printedLength, if_pos]
    rw [intMax]
    omega
  have footer : footerText.length = 6 := by decide
  have space :
      room 4096 (wallet.headerText.length : Int) =
        4095 - wallet.headerText.length + 1 := by
    rw [room, sizeModulus]
    omega
  have kept :
      footerText.take (4095 - wallet.headerText.length) = footerText :=
    List.take_of_length_le (by omega)
  have second :=
    @snprintf_run wallet.headerText.length
      (4095 - wallet.headerText.length) footerText
      (wallet.headerText ++ 0 :: rest) (by
        rw [kept, List.length_append, List.length_cons]
        omega)
  rw [kept, List.take_left, ← List.append_assoc] at second
  have sum :
      (wallet.headerText.length : Int) + printedLength footerText =
        ((wallet.headerText ++ footerText).length : Int) := by
    rw [List.length_append, footer]
    rfl
  have written :
      writeWallet 4096 wallet buffer =
        (.ok ((wallet.headerText ++ footerText).length : Int),
          (wallet.headerText ++ footerText) ++
            0 ::
              (wallet.headerText ++ 0 :: rest).drop
                (wallet.headerText.length + footerText.length + 1)) := by
    rw [writeWallet_empty empty, Call.bind_of_ok ran, printed, append,
      space, Call.bind_of_ok second, sum, if_pos ?_]
    · rfl
    · rw [List.length_append, footer, intMax]
      omega
  exact ⟨_, written⟩

theorem toJson_fits {alloc : Allocator} {wallet : Nep6Wallet}
    (empty : wallet.accounts = []) (fits : wallet.headerRoom ≤ 3989)
    (granted : alloc.neocGrants 4096 = true) :
    toJson alloc wallet =
      .ok
        (⟨wallet.headerText ++ footerText, nul_free_header wallet⟩,
          (wallet.headerText ++ footerText).length) := by
  have estimated :
      (4096 + wallet.accounts.length * 512) % sizeModulus = 4096 := by
    rw [empty]
    rfl
  rcases writeWallet_fits empty fits (List.length_replicate (a := 0)) with
    ⟨rest, ran⟩
  have text :
      CString.ofBuffer ((wallet.headerText ++ footerText) ++ 0 :: rest) =
        ⟨wallet.headerText ++ footerText, nul_free_header wallet⟩ := by
    rw [CString.mk.injEq]
    exact ofBuffer_nul (nul_free_header wallet) rest
  have length :
      (((wallet.headerText ++ footerText).length : Int) %
          sizeModulus).toNat =
        (wallet.headerText ++ footerText).length := by
    have total := length_headerText wallet
    have footer : footerText.length = 6 := by decide
    rw [List.length_append, sizeModulus]
    omega
  unfold toJson
  dsimp only
  rw [estimated, granted, if_neg (by decide)]
  refine
    Except.bind_eq_ok_iff.mpr ⟨_, Call.eval_eq_ok_iff.mpr ran, ?_⟩
  dsimp only
  rw [text, length]

/-- Behind the buffer nothing can be printed. -/
theorem append_outside {offset : Int} {buffer : List UInt8}
    (size : buffer.length = 4096) (outside : offset < 0 ∨ 4096 < offset)
    (bounded : -1 ≤ offset ∧ offset ≤ intMax) (text : List UInt8) :
    append 4096 offset text buffer = (.error .illegalAccess, buffer) := by
  have some : room 4096 offset ≠ 0 := by
    rw [intMax] at bounded
    rw [room, sizeModulus]
    omega
  have illegal :
      snprintf offset (room 4096 offset) text buffer =
        (.error .illegalAccess, buffer) := by
    unfold snprintf
    rw [if_neg some, if_neg ?_]
    · rfl
    · rw [size]
      omega
  rw [append, Call.bind_of_error illegal]

/-- The footer may be cut, but the offset is moved over the whole of it. -/
theorem append_footer_cut {text rest : List UInt8}
    (inside : text.length ≤ 4096)
    (total : (text.take 4095).length + 1 + rest.length = 4096) :
    ∃ buffer,
      append 4096 (text.length : Int) footerText
            (text.take 4095 ++ 0 :: rest) =
          (.ok ((text.length : Int) + 6), buffer) ∧
        (CString.ofBuffer buffer).strlen ≤ 4095 := by
  have cut : (text.take 4095).length ≤ 4095 := List.length_take_le _ _
  have moved : (text.length : Int) + 6 ≤ intMax := by
    rw [intMax]
    omega
  have printedFooter : printedLength footerText = 6 := by
    decide
  rcases Nat.lt_or_eq_of_le inside with smaller | equal
  · have whole : text.take 4095 = text :=
      List.take_of_length_le (by omega)
    rw [whole] at total ⊢
    have space : room 4096 (text.length : Int) = 4095 - text.length + 1 := by
      rw [room, sizeModulus]
      omega
    have short :
        (footerText.take (4095 - text.length)).length ≤
          4095 - text.length :=
      List.length_take_le _ _
    have ran :=
      @snprintf_run text.length (4095 - text.length) footerText
        (text ++ 0 :: rest) (by
          rw [List.length_append, List.length_cons]
          omega)
    rw [List.take_left, ← List.append_assoc] at ran
    refine
      ⟨(text ++ footerText.take (4095 - text.length)) ++
          0 ::
            (text ++ 0 :: rest).drop
              (text.length + (footerText.take (4095 - text.length)).length +
                1),
        ?_, ?_⟩
    · rw [append, space, Call.bind_of_ok ran]
      rw [printedFooter, if_pos moved]
      rfl
    · refine (strlen_ofBuffer_le _ _).trans ?_
      rw [List.length_append]
      omega
  · have space : room 4096 (text.length : Int) = 0 := by
      rw [room, sizeModulus]
      omega
    refine ⟨text.take 4095 ++ 0 :: rest, ?_, ?_⟩
    · have ran :
          snprintf (text.length : Int) 0 footerText
              (text.take 4095 ++ 0 :: rest) =
            (.ok (printedLength footerText),
              text.take 4095 ++ 0 :: rest) :=
        rfl
      rw [append, space, Call.bind_of_ok ran]
      rw [printedFooter, if_pos moved]
      rfl
    · exact (strlen_ofBuffer_le _ _).trans cut

/-- A wallet whose text does not fit is not written with its length. -/
theorem headerRoom_le_of_toJson {alloc : Allocator} {wallet : Nep6Wallet}
    (empty : wallet.accounts = []) {text : CString}
    (written : toJson alloc wallet = .ok (text, text.strlen)) :
    wallet.headerRoom ≤ 3989 := by
  have estimated :
      (4096 + wallet.accounts.length * 512) % sizeModulus = 4096 := by
    rw [empty]
    rfl
  have length := length_headerText wallet
  have footer : footerText.length = 6 := by decide
  unfold toJson at written
  dsimp only at written
  rw [estimated] at written
  split at written
  · cases written
  rcases Except.bind_eq_ok_iff.mp written with
    ⟨⟨offset, buffer⟩, ran, written⟩
  injection written with same
  injection same with same reported
  have ran := Call.eval_eq_ok_iff.mp ran
  rw [writeWallet_empty empty] at ran
  rcases snprintf_header wallet (List.length_replicate (a := 0)) with
    ⟨rest, first, total⟩
  rw [Call.bind_of_ok first] at ran
  by_contra large
  -- Either the footer is cut, or it is printed outside of the buffer.
  have cut :
      (wallet.headerText.take 4095).length ≤ 4095 :=
    List.length_take_le _ _
  by_cases inside : wallet.headerText.length ≤ 4096
  · have printed :
        printedLength wallet.headerText =
          (wallet.headerText.length : Int) := by
      rw [printedLength, if_pos]
      rw [intMax]
      omega
    rw [printed] at ran
    rcases append_footer_cut inside total with ⟨buffer', ran', short⟩
    rw [ran'] at ran
    injection ran with sameOffset sameBuffer
    injection sameOffset with sameOffset
    dsimp only at reported same
    rw [← sameOffset, ← same, ← sameBuffer, sizeModulus] at reported
    omega
  · have outside :
        printedLength wallet.headerText < 0 ∨
          4096 < printedLength wallet.headerText := by
      rw [printedLength]
      split
      · omega
      · omega
    have bounded :
        -1 ≤ printedLength wallet.headerText ∧
          printedLength wallet.headerText ≤ intMax := by
      rw [printedLength]
      split
      · omega
      · rw [intMax]
        omega
    rw [append_outside ?_ outside bounded] at ran
    · cases ran
    · rw [List.length_append, List.length_cons]
      omega

end Nep6Wallet

end NeoC
