import NeoC.Wallet.WalletHistory

/-!
# Wallets in NEP-6 form

A wallet is written as a NEP-6 wallet and read back.  Of an account, only its
address, its flag and its encrypted key decide what becomes of it in the
wallet that is read: the address is parsed, the key is copied, and the last
account with a flag becomes the default one.  So the wallet that is read has
the same default account as long as the flags of the accounts agree with the
default account of the wallet.  They do unless an account that is flagged
already is added to a wallet that has a default account.
-/

namespace NeoC

open Foundation

/-! ## What is written of an account -/

/-- What decides where an account stands in the wallet that is read. -/
structure FileEntry where
  address : Option CString
  isDefault : Bool
  key : Option CString

/-- The entry of an account in a NEP-6 wallet. -/
def Nep6Account.fileEntry (account : Nep6Account) : FileEntry where
  address := account.address
  isDefault := account.isDefault
  key := account.key

namespace WalletAccount

variable {curve : Curve} {host : Host} {alloc : Allocator}
  {account : WalletAccount curve}

/-- The entry that an account gets. -/
def fileEntry (account : WalletAccount curve) : FileEntry where
  address := account.address
  isDefault := account.isDefault
  key := account.encryptedText

/-- The address is the one of the script hash. -/
structure AtOwnHash (host : Host) (account : WalletAccount curve) :
    Prop where
  address : account.address = some (account.scriptHash.addressText host)
  initialized : host.cryptoInitialized = true

/-- An account that is written gets its entry. -/
theorem fileEntry_toNep6 {nep6Account : Nep6Account}
    (written : account.toNep6 host alloc = .ok nep6Account) :
    nep6Account.fileEntry = account.fileEntry := by
  unfold toNep6 at written
  split at written
  · cases written
  rename_i address has
  rcases Except.bind_eq_ok_iff.mp written with ⟨bare, created, rest⟩
  have entry : bare.fileEntry = account.fileEntry := by
    rw [Nep6Account.create_eq_ok created, Nep6Account.fileEntry,
      fileEntry, has]
  split at rest
  · injection rest with same
    rw [← same]
    exact entry
  · cases rest
  split at rest
  · injection rest with same
    rw [← same]
    exact entry
  rcases Except.bind_eq_ok_iff.mp rest with ⟨contract, -, rest⟩
  injection rest with same
  rw [← same]
  exact entry

/-- The length of the script of several keys. -/
def multisigLength (account : WalletAccount curve) : Nat :=
  match account.extra with
  | some (.multisig multisig) => multisig.verificationScript.length
  | _ => 0

/-- A bound of the length of the script that an account can give. -/
def scriptRoom (account : WalletAccount curve) : Nat :=
  40 + account.verificationScript.content.length + account.multisigLength

/-- Memory that is enough to write an account and to read it again. -/
def fileRoom (account : WalletAccount curve) : Nat :=
  256 + account.label.elim 0 CString.strlen +
    account.encryptedText.elim 0 CString.strlen + 2 * account.scriptRoom

/-- With memory, a short script is given, or an error code. -/
theorem getVerificationScript_of_serves (serves : alloc.Serves 256) :
    (∃ script,
        script.length ≤ account.scriptRoom ∧
          account.getVerificationScript host alloc = .ok script) ∨
      ∃ code text,
        account.getVerificationScript host alloc =
          .error (.error code text) := by
  have made :
      (∃ script,
          script.length ≤ account.scriptRoom ∧
            account.makeVerificationScript host alloc = .ok script) ∨
        ∃ code text,
          account.makeVerificationScript host alloc =
            .error (.error code text) := by
    unfold makeVerificationScript
    split
    · rename_i multisig kind
      split
      · exact .inr ⟨_, _, rfl⟩
      · refine .inl ⟨_, ?_, rfl⟩
        rw [scriptRoom, multisigLength, kind]
        exact Nat.le_add_left _ _
    · exact .inr ⟨_, _, rfl⟩
    · split
      · rename_i keyPair held
        have sized := keyPair.getPublicKey.property
        have given :=
          @ScriptHelper.createSingleSigVerification_eq host alloc _ sized
            serves
        refine .inl ⟨_, ?_, given⟩
        rw [ScriptHelper.length_singleSigScript sized, scriptRoom]
        omega
      · exact .inr ⟨_, _, rfl⟩
  unfold getVerificationScript
  split
  · exact made
  · rename_i content cache
    split
    · exact made
    split
    · exact .inr ⟨_, _, rfl⟩
    · refine .inl ⟨content, ?_, rfl⟩
      rw [scriptRoom, cache, Slice.content]
      omega

/-- With memory, an account with the address of a hash is written. -/
theorem toNep6_succeeds {scriptHash : Hash160}
    (addressed : account.address = some (scriptHash.addressText host))
    (serves : alloc.Serves account.fileRoom) :
    ∃ nep6Account, account.toNep6 host alloc = .ok nep6Account := by
  have short := scriptHash.strlen_addressText_le host
  have base : 256 ≤ account.fileRoom := by
    rw [fileRoom]
    omega
  have created :
      ∃ bare,
        Nep6Account.create alloc (scriptHash.addressText host)
            account.writtenLabel account.isDefault account.isLocked
            account.encryptedText none =
          .ok bare := by
    have labelled :
        ∀ text, account.writtenLabel = some text →
          text.strlen + 1 ≤ account.fileRoom := by
      intro text written
      rcases Option.filter_eq_some_iff.mp written with ⟨stored, -⟩
      rw [fileRoom, stored, Option.elim_some]
      omega
    have keyed :
        ∀ text, account.encryptedText = some text →
          text.strlen + 1 ≤ account.fileRoom := by
      intro text stored
      rw [fileRoom, stored, Option.elim_some]
      omega
    exact
      ⟨_, Nep6Account.create_of_serves serves
        ((by decide : Nep6Account.structSize ≤ 256).trans base) (by omega)
        labelled account.isDefault account.isLocked keyed none⟩
  rcases created with ⟨bare, started⟩
  rw [toNep6, addressed]
  dsimp only
  rw [started]
  rcases @getVerificationScript_of_serves curve host alloc account
      (serves.mono base) with
    ⟨script, bounded, given⟩ | ⟨code, text, given⟩
  · rw [given]
    change
      ∃ nep6Account,
        (if script.length = 0 then Except.ok bare else _) =
          Except.ok nep6Account
    split
    · exact ⟨_, rfl⟩
    · have enough : 256 + 2 * script.length ≤ account.fileRoom := by
        rw [fileRoom]
        omega
      rw [makeContract_eq (serves.mono enough)]
      exact ⟨_, rfl⟩
  · rw [given]
    exact ⟨_, rfl⟩

end WalletAccount

namespace Wallet

variable {curve : Curve} {host : Host} {alloc : Allocator}

/-- The flags of the accounts agree with the default account. -/
def FlagsAgree (wallet : Wallet curve) : Prop :=
  ∀ held ∈ wallet.accounts,
    held.account.isDefault = true ↔
      wallet.defaultAccount = some held.pointer

instance (wallet : Wallet curve) : Decidable wallet.FlagsAgree :=
  inferInstanceAs
    (Decidable
      (∀ held ∈ wallet.accounts,
        held.account.isDefault = true ↔
          wallet.defaultAccount = some held.pointer))

/-- The entries of accounts. -/
def fileEntries (accounts : List (HeldAccount curve)) : List FileEntry :=
  accounts.map fun held => held.account.fileEntry

/-- At most one account has a flag. -/
theorem FlagsAgree.earlier {wallet : Wallet curve}
    (agree : wallet.FlagsAgree) (places : wallet.pointers.Nodup)
    {earlier later : List (HeldAccount curve)} {held : HeldAccount curve}
    (shape : wallet.accounts = earlier ++ held :: later)
    (flagged : held.account.isDefault = true) :
    ∀ other ∈ earlier, other.account.isDefault = false := by
  intro other before
  have within : held ∈ wallet.accounts := by
    rw [shape]
    exact List.mem_append_right _ List.mem_cons_self
  have also : other ∈ wallet.accounts := by
    rw [shape]
    exact List.mem_append_left _ before
  apply Bool.eq_false_of_not_eq_true
  intro flaggedToo
  have default := (agree held within).mp flagged
  have same := (agree other also).mp flaggedToo
  rw [default] at same
  rw [pointers, shape, List.map_append, List.map_cons,
    List.nodup_append] at places
  exact
    places.2.2 other.pointer (List.mem_map_of_mem before) held.pointer
      List.mem_cons_self (Option.some.inj same).symm

/-! ## Writing a wallet -/

/-- One account is written. -/
def writeAccount (host : Host) (alloc : Allocator)
    (held : HeldAccount curve) : Routine Nep6Wallet Unit := do
  let nep6Account ← Call.lift (held.account.toNep6 host alloc)
  Nep6Wallet.addAccountExisting alloc nep6Account

/-- The NEP-6 wallet that the accounts of a wallet are written to. -/
structure Blank (wallet : Wallet curve) (nep6Wallet : Nep6Wallet) :
    Prop where
  name :
    ∀ name,
      nep6Wallet.name = some name →
        name = wallet.name.getD (CString.ofString "NeoC Wallet")
  accounts : nep6Wallet.accounts = []
  accountCapacity : nep6Wallet.accountCapacity = 10
  slots : nep6Wallet.slots = 10

/-- Writing a wallet is writing its accounts, one after another. -/
theorem toNep6_cases (host : Host) (alloc : Allocator)
    (wallet : Wallet curve) :
    (¬ alloc.Serves 128 ∧
        ∃ reason, wallet.toNep6 host alloc = .error reason) ∨
      ∃ start,
        Blank wallet start ∧
          ∀ final,
            wallet.toNep6 host alloc = .ok final ↔
              Call.forEach (writeAccount host alloc) wallet.accounts
                  start =
                (.ok (), final) := by
  cases started :
      Nep6Wallet.create alloc
        (some (wallet.name.getD (CString.ofString "NeoC Wallet")))
        (some (wallet.version.getD (CString.ofString "1.0"))) with
  | error reason =>
      refine .inl ⟨?_, reason, ?_⟩
      · intro serves
        rw [Nep6Wallet.create,
          if_neg (by
            rw [serves.neocGrants (by decide) (by decide)]
            exact Bool.true_eq_false.mp),
          if_neg (by
            rw [serves.neocGrants (by decide) (by decide)]
            exact Bool.true_eq_false.mp)] at started
        cases started
      · rw [toNep6]
        dsimp only
        rw [started]
        rfl
  | ok start =>
      have blank : Blank wallet start := by
        rw [Nep6Wallet.create] at started
        split at started
        · cases started
        split at started
        · cases started
        injection started with same
        subst same
        refine ⟨?_, rfl, rfl, rfl⟩
        intro name copied
        exact WalletAccount.strdup_eq_some copied
      right
      cases versioned : wallet.version with
      | none =>
          refine ⟨start, blank, ?_⟩
          intro final
          rw [toNep6]
          dsimp only
          rw [started, versioned]
          exact Call.eval_state_eq_ok_iff
      | some version =>
          refine
            ⟨(Nep6Wallet.setVersion alloc (some version) start).2, ?_, ?_⟩
          · rw [Nep6Wallet.setVersion]
            split
            · exact { blank with }
            · exact { blank with }
          · intro final
            rw [toNep6]
            dsimp only
            rw [started, versioned]
            exact Call.eval_state_eq_ok_iff

/-- The NEP-6 wallet when some of the accounts are written. -/
structure Written (name : Option CString) (done : List (HeldAccount curve))
    (nep6Wallet : Nep6Wallet) : Prop where
  name : nep6Wallet.name = name
  entries :
    nep6Wallet.accounts.map Nep6Account.fileEntry = fileEntries done
  slots : nep6Wallet.slots = nep6Wallet.accountCapacity
  growable : 0 < nep6Wallet.accountCapacity
  fits : nep6Wallet.accounts.length ≤ nep6Wallet.accountCapacity

theorem Blank.written {wallet : Wallet curve} {start : Nep6Wallet}
    (blank : Blank wallet start) :
    Written start.name ([] : List (HeldAccount curve)) start := by
  refine ⟨rfl, ?_, ?_, ?_, ?_⟩
  · rw [blank.accounts]
    rfl
  · rw [blank.slots, blank.accountCapacity]
  · rw [blank.accountCapacity]
    decide
  · rw [blank.accounts]
    exact Nat.zero_le _

/-- An account that is written already has the entry of one of those. -/
theorem Written.entry {name : Option CString}
    {done : List (HeldAccount curve)} {nep6Wallet : Nep6Wallet}
    (written : Written name done nep6Wallet) {existing : Nep6Account}
    (member : existing ∈ nep6Wallet.accounts) :
    ∃ held ∈ done, held.account.fileEntry = existing.fileEntry := by
  have listed : existing.fileEntry ∈ fileEntries done := by
    rw [← written.entries]
    exact List.mem_map_of_mem member
  exact List.mem_map.mp listed

/-- A slot is there for every further account. -/
theorem Written.roomy {name : Option CString}
    {done : List (HeldAccount curve)} {nep6Wallet : Nep6Wallet}
    (written : Written name done nep6Wallet) :
    nep6Wallet.roomy.name = name ∧
      nep6Wallet.roomy.slots = nep6Wallet.roomy.accountCapacity ∧
      nep6Wallet.accounts.length < nep6Wallet.roomy.accountCapacity := by
  have growable := written.growable
  have fits := written.fits
  rw [Nep6Wallet.roomy]
  split
  · refine ⟨written.name, rfl, ?_⟩
    change _ < nep6Wallet.newCapacity
    rw [Nep6Wallet.newCapacity, if_neg (by omega)]
    omega
  · exact ⟨written.name, written.slots, by omega⟩

/-- No flag is cleared where at most one account has one. -/
theorem fileEntry_clearDefaults {account : Nep6Account}
    {accounts : List Nep6Account}
    (unflagged :
      account.isDefault = true →
        ∀ existing ∈ accounts, existing.isDefault = false) :
    (Nep6Wallet.clearDefaults account accounts).map
        Nep6Account.fileEntry =
      accounts.map Nep6Account.fileEntry := by
  rw [Nep6Wallet.clearDefaults]
  split
  · rename_i flagged
    rw [List.map_map]
    apply List.map_congr_left
    intro existing member
    rw [Function.comp_apply, Nep6Account.fileEntry, Nep6Account.fileEntry,
      unflagged flagged existing member]
  · rfl

section Writing

variable {wallet : Wallet curve} {name : Option CString}
  {earlier later : List (HeldAccount curve)} {held : HeldAccount curve}
  {state : Nep6Wallet}

/-- One more account is written with its entry. -/
theorem Written.append (written : Written name earlier state)
    (agree : wallet.FlagsAgree) (places : wallet.pointers.Nodup)
    (shape : wallet.accounts = earlier ++ held :: later)
    {nep6Account : Nep6Account}
    (entry : nep6Account.fileEntry = held.account.fileEntry) :
    Written name (earlier ++ [held])
      { state.roomy with
        accounts :=
          Nep6Wallet.clearDefaults nep6Account state.accounts ++
            [nep6Account] } := by
  rcases written.roomy with ⟨named, slots, room⟩
  have flag : nep6Account.isDefault = held.account.isDefault :=
    congrArg FileEntry.isDefault entry
  have entries :
      (Nep6Wallet.clearDefaults nep6Account state.accounts).map
          Nep6Account.fileEntry =
        fileEntries earlier := by
    rw [fileEntry_clearDefaults, written.entries]
    intro flagged existing member
    rcases written.entry member with ⟨other, before, same⟩
    rw [flag] at flagged
    have unflagged := agree.earlier places shape flagged other before
    have equal : other.account.isDefault = existing.isDefault :=
      congrArg FileEntry.isDefault same
    rw [← equal]
    exact unflagged
  have length :
      (Nep6Wallet.clearDefaults nep6Account state.accounts).length =
        state.accounts.length := by
    rw [Nep6Wallet.clearDefaults]
    split
    · rw [List.length_map]
    · rfl
  refine ⟨named, ?_, slots, Nat.zero_lt_of_lt room, ?_⟩
  · rw [List.map_append, entries, List.map_singleton, entry, fileEntries,
      fileEntries, List.map_append, List.map_singleton]
  · rw [List.length_append, length, List.length_singleton]
    exact room

/-- What a successful call to write one account leaves. -/
theorem writeAccount_written (written : Written name earlier state)
    (agree : wallet.FlagsAgree) (places : wallet.pointers.Nodup)
    (shape : wallet.accounts = earlier ++ held :: later)
    {after : Nep6Wallet}
    (ran : writeAccount host alloc held state = (.ok (), after)) :
    Written name (earlier ++ [held]) after := by
  rw [writeAccount] at ran
  cases made : held.account.toNep6 host alloc with
  | error reason =>
      rw [made, Call.lift_error_bind] at ran
      cases ran
  | ok nep6Account =>
      rw [made, Call.lift_ok_bind] at ran
      have entry := WalletAccount.fileEntry_toNep6 made
      rcases @Nep6Wallet.addAccountExisting_cases alloc nep6Account
          state with
        ⟨code, text, failed⟩ |
          ⟨address, -, -, -, ⟨-, failed⟩ | ⟨-, appended⟩⟩
      · rw [failed] at ran
        cases ran
      · rw [failed] at ran
        cases ran
      · rw [appended] at ran
        injection ran with _ same
        rw [← same]
        exact written.append agree places shape entry

/-- What is written has the entries of the accounts. -/
theorem toNep6_written {nep6Wallet : Nep6Wallet}
    (agree : wallet.FlagsAgree) (places : wallet.pointers.Nodup)
    (ran : wallet.toNep6 host alloc = .ok nep6Wallet) :
    nep6Wallet.accounts.map Nep6Account.fileEntry =
        fileEntries wallet.accounts ∧
      ∀ name,
        nep6Wallet.name = some name →
          name = wallet.name.getD (CString.ofString "NeoC Wallet") := by
  rcases toNep6_cases host alloc wallet with
    ⟨-, reason, failed⟩ | ⟨start, blank, exact'⟩
  · rw [failed] at ran
    cases ran
  · have written :=
      @Call.forEach_eq_ok _ _ _ _ _ (Written start.name)
        (fun done held rest state after shape holds ran =>
          writeAccount_written holds agree places shape ran)
        _ _ blank.written ((exact' nep6Wallet).mp ran)
    refine ⟨written.entries, ?_⟩
    rw [written.name]
    exact blank.name

/-- With memory, one more account is written. -/
theorem writeAccount_succeeds (written : Written name earlier state)
    (ordered : wallet.Ordered)
    (shape : wallet.accounts = earlier ++ held :: later)
    {scriptHash : Hash160}
    (addressed : held.address = some (scriptHash.addressText host))
    {bound : Nat} (serves : alloc.Serves bound)
    (enough : held.account.fileRoom ≤ bound)
    (slots : 16 * wallet.accounts.length ≤ bound) :
    ∃ after, writeAccount host alloc held state = (.ok (), after) := by
  rcases WalletAccount.toNep6_succeeds addressed (serves.mono enough) with
    ⟨nep6Account, made⟩
  have entry := WalletAccount.fileEntry_toNep6 made
  have has :
      nep6Account.address = some (scriptHash.addressText host) :=
    (congrArg FileEntry.address entry).trans addressed
  have missing :
      ∀ existing ∈ state.accounts,
        existing.address ≠ some (scriptHash.addressText host) := by
    intro existing member same
    rcases written.entry member with ⟨other, before, equal⟩
    have address : other.address = existing.address :=
      congrArg FileEntry.address equal
    have distinct := ordered.distinct
    rw [addresses, shape, List.map_append, List.map_cons,
      List.nodup_append] at distinct
    refine
      distinct.2.2 other.address (List.mem_map_of_mem before) held.address
        List.mem_cons_self ?_
    rw [address, same, addressed]
  have count : state.accounts.length = earlier.length := by
    have lengths := congrArg List.length written.entries
    rw [fileEntries, List.length_map, List.length_map] at lengths
    exact lengths
  have granted :
      state.accountCapacity ≤ state.accounts.length →
        alloc.neocGrants
            (state.newCapacity * Nep6Wallet.pointerSize) = true := by
    intro full
    have growable := written.growable
    have fits := written.fits
    have total : earlier.length ≤ wallet.accounts.length := by
      rw [shape, List.length_append]
      exact Nat.le_add_right _ _
    rw [Nep6Wallet.newCapacity, if_neg (by omega), Nep6Wallet.pointerSize]
    exact serves.neocGrants (by omega) (by omega)
  rcases written.roomy with ⟨-, recorded, room⟩
  rw [writeAccount, made, Call.lift_ok_bind]
  exact
    ⟨_,
      Nep6Wallet.addAccountExisting_eq has missing granted
        (by rw [recorded]; exact room)⟩

/-- Memory that is enough to write a wallet and to read it again. -/
def fileRoom (wallet : Wallet curve) : Nat :=
  128 + (wallet.name.getD (CString.ofString "NeoC Wallet")).strlen +
    16 * wallet.accounts.length +
    (wallet.accounts.map fun held => held.account.fileRoom).sum

theorem fileRoom_le (member : held ∈ wallet.accounts) :
    held.account.fileRoom ≤ wallet.fileRoom := by
  have part :
      held.account.fileRoom ≤
        (wallet.accounts.map fun held => held.account.fileRoom).sum :=
    List.le_sum_of_mem
      (List.mem_map_of_mem
        (f := fun held : HeldAccount curve => held.account.fileRoom) member)
  rw [fileRoom]
  omega

/-- The addresses of all accounts are those of their script hashes. -/
def Addressed (host : Host) (wallet : Wallet curve) : Prop :=
  ∀ held ∈ wallet.accounts, held.account.AtOwnHash host

/-- With memory, a wallet is written. -/
theorem toNep6_writes (ordered : wallet.Ordered)
    (agree : wallet.FlagsAgree) (addressed : wallet.Addressed host)
    (serves : alloc.Serves wallet.fileRoom) :
    ∃ nep6Wallet, wallet.toNep6 host alloc = .ok nep6Wallet := by
  have base : 128 + 16 * wallet.accounts.length ≤ wallet.fileRoom := by
    rw [fileRoom]
    omega
  rcases toNep6_cases host alloc wallet with
    ⟨refused, -⟩ | ⟨start, blank, exact'⟩
  · exact absurd (serves.mono (by omega)) refused
  have runs :
      ∃ final,
        Call.forEach (writeAccount host alloc) wallet.accounts start =
          (.ok (), final) := by
    refine @Call.forEach_succeeds _ _ _ _ _ (Written start.name) ?_ _
      blank.written
    intro earlier held later state shape written
    have member : held ∈ wallet.accounts := by
      rw [shape]
      exact List.mem_append_right _ List.mem_cons_self
    rcases writeAccount_succeeds written ordered shape
        (addressed held member).address serves (fileRoom_le member)
        (by omega) with
      ⟨after, ran⟩
    exact
      ⟨after, ran, writeAccount_written written agree ordered.places shape ran⟩
  rcases runs with ⟨final, ran⟩
  exact ⟨final, (exact' final).mpr ran⟩

end Writing

/-! ## The address of the default account -/

/-- The address of the default account. -/
def defaultAddress (wallet : Wallet curve) : Option CString :=
  wallet.getDefaultAccount.bind HeldAccount.address

theorem defaultAddress_eq {wallet : Wallet curve}
    (ordered : wallet.Ordered) {held : HeldAccount curve}
    (member : held ∈ wallet.accounts)
    (default : wallet.defaultAccount = some held.pointer) :
    wallet.defaultAddress = held.address := by
  rw [defaultAddress, getDefaultAccount, default, Option.bind_some,
    find_pointer ordered.places member, Option.bind_some]

/-- Only an empty wallet has no default address. -/
theorem Ordered.default_cases {wallet : Wallet curve}
    (ordered : wallet.Ordered) :
    (wallet.accounts = [] ∧ wallet.defaultAddress = none) ∨
      ∃ held ∈ wallet.accounts,
        wallet.defaultAccount = some held.pointer ∧
          wallet.defaultAddress = held.address ∧
          wallet.defaultAddress ≠ none := by
  rcases ordered.defaulted with ⟨none, empty⟩ | ⟨pointer, member, default⟩
  · refine .inl ⟨empty, ?_⟩
    rw [defaultAddress, getDefaultAccount, none]
    rfl
  · rcases List.mem_map.mp member with ⟨held, within, rfl⟩
    have address := defaultAddress_eq ordered within default
    refine .inr ⟨held, within, default, address, ?_⟩
    rw [address]
    exact ordered.address_ne_none held within

/-- A further account that is added is not. -/
theorem defaultAddress_push_more {wallet : Wallet curve}
    {account : WalletAccount curve} (before : wallet.Ordered)
    (ordered : (push account wallet).Ordered)
    (some : wallet.accounts ≠ []) :
    (push account wallet).defaultAddress = wallet.defaultAddress := by
  rcases before.default_cases with
    ⟨empty, -⟩ | ⟨held, member, default, address, -⟩
  · exact absurd empty some
  have shape := push_more some account
  have within : held ∈ (push account wallet).accounts := by
    rw [shape]
    exact List.mem_append_left _ member
  rw [address, defaultAddress_eq ordered within]
  rw [shape]
  exact default

theorem exists_mem_setFlag (pointer : Nat) (isDefault : Bool)
    {accounts : List (HeldAccount curve)} {held : HeldAccount curve}
    (member : held ∈ accounts) :
    ∃ other ∈ setFlag pointer isDefault accounts,
      other.pointer = held.pointer ∧ other.address = held.address := by
  refine ⟨_, List.mem_map_of_mem member, ?_⟩
  split
  · exact ⟨rfl, rfl⟩
  · exact ⟨rfl, rfl⟩

theorem defaultAddress_redirect {wallet : Wallet curve}
    (ordered : wallet.Ordered) (old : Nat) {held : HeldAccount curve}
    (member : held ∈ wallet.accounts) :
    (redirect old held.pointer wallet).defaultAddress = held.address := by
  rcases exists_mem_setFlag old false member with
    ⟨first, within, place, address⟩
  rcases exists_mem_setFlag held.pointer true within with
    ⟨last, inside, place', address'⟩
  rw [place] at place'
  rw [address] at address'
  rw [defaultAddress_eq (ordered.redirect old member) inside, address']
  rw [place']
  rfl

/-- An account of the wallet is made the default one by its address. -/
theorem setDefaultAccountStr_eq {wallet : Wallet curve}
    (ordered : wallet.Ordered) {held : HeldAccount curve}
    (member : held ∈ wallet.accounts) {address : CString}
    (has : held.address = some address) :
    ∃ after,
      setDefaultAccountStr address wallet = (.ok (), after) ∧
        after.Ordered ∧
        after.addresses = wallet.addresses ∧
        after.defaultAddress = some address := by
  rcases setDefaultAccountStr_cases ordered address with
    ⟨absent, -⟩ | ⟨other, within, same, old, -, ran⟩
  · exact absurd has (absent held member)
  · refine
      ⟨_, ran, ordered.redirect old within,
        addresses_redirect old other.pointer wallet, ?_⟩
    rw [defaultAddress_redirect ordered old within, same]

/-! ## Reading a wallet -/

/-- The default address when one more account is read. -/
def choose (current : Option CString) (entry : FileEntry) :
    Option CString :=
  if current = none ∨ entry.isDefault = true then
    entry.address
  else
    current

/-- The account that was added, and whether it has a flag by now. -/
theorem getLast_push (wallet : Wallet curve)
    (account : WalletAccount curve) :
    ∃ last,
      (push account wallet).accounts.getLast? = some last ∧
        last.address = account.address ∧
        (last.account.isDefault = true ↔
          wallet.accounts = [] ∨ account.isDefault = true) := by
  by_cases empty : wallet.accounts = []
  · rw [push_first empty]
    exact ⟨_, rfl, rfl, iff_of_true rfl (.inl empty)⟩
  · rw [push_more empty]
    refine ⟨_, List.getLast?_concat, rfl, ?_⟩
    constructor
    · exact .inr
    · rintro (none | flagged)
      · exact absurd none empty
      · exact flagged

/-- Reading an account that the wallet takes. -/
theorem loadAccount_of_takes {wallet : Wallet curve}
    (ordered : wallet.Ordered) {nep6Account : Nep6Account}
    {account : WalletAccount curve}
    (read : WalletAccount.fromNep6 host alloc nep6Account = .ok account)
    {address : CString} (has : account.address = some address)
    (takes : wallet.Takes alloc address) :
    ∃ after,
      loadAccount host alloc nep6Account wallet = (.ok (), after) ∧
        after.Ordered ∧
        after.addresses =
          wallet.addresses ++ [nep6Account.fileEntry.address] ∧
        after.defaultAddress =
          choose wallet.defaultAddress nep6Account.fileEntry := by
  rcases WalletAccount.fromNep6_eq_ok read with
    ⟨own, scriptHash, addressed, -, shape⟩
  have flag : account.isDefault = nep6Account.isDefault := by
    rw [shape]
    rfl
  have same : nep6Account.fileEntry.address = some address := by
    rw [← has, shape]
    exact addressed
  rcases addAccount_cases ordered has alloc with
    ⟨refused, -⟩ | ⟨-, capacity, room, added⟩
  · exact absurd takes refused
  have pushed := ordered.push has takes.missing room
  rcases getLast_push { wallet with accountCapacity := capacity }
      account with
    ⟨last, final, lastAddress, lastFlag⟩
  have member := List.mem_of_getLast? final
  rw [has] at lastAddress
  rw [loadAccount, read, Call.lift_ok_bind, Call.bind_of_ok added,
    Call.bind_of_ok (Call.read_run _ _), final]
  have addresses :
      (push account
          { wallet with accountCapacity := capacity }).addresses =
        wallet.addresses ++ [some address] := by
    rw [addresses_push, has]
    rfl
  rw [choose, same]
  dsimp only
  by_cases flagged : last.account.isDefault = true
  · rw [if_pos flagged]
    rcases setDefaultAccountStr_eq pushed member lastAddress with
      ⟨after, ran, after_ordered, after_addresses, after_default⟩
    refine
      ⟨after, ?_, after_ordered, after_addresses.trans addresses, ?_⟩
    · have called :
          setDefaultAccountAccount host alloc last.account
              (push account { wallet with accountCapacity := capacity }) =
            (.ok (), after) := by
        rw [setDefaultAccountAccount]
        rw [show last.account.address = some address from lastAddress]
        exact ran
      rw [ignoring, called]
    · rw [after_default, if_pos]
      rcases lastFlag.mp flagged with empty | own
      · left
        rcases ordered.default_cases with ⟨-, none⟩ | ⟨held, within, -⟩
        · exact none
        · change wallet.accounts = [] at empty
          rw [empty] at within
          cases within
      · right
        rw [flag] at own
        exact own
  · rw [if_neg flagged]
    have some : wallet.accounts ≠ [] := fun empty =>
      flagged (lastFlag.mpr (.inl empty))
    refine ⟨_, rfl, pushed, addresses, ?_⟩
    have kept :=
      @defaultAddress_push_more curve
        { wallet with accountCapacity := capacity } account
        (ordered.grown room) pushed some
    rw [kept, if_neg]
    · rfl
    · rintro (none | own)
      · rcases ordered.default_cases with
          ⟨empty, -⟩ | ⟨held, -, -, -, present⟩
        · exact some empty
        · exact present none
      · refine flagged (lastFlag.mpr (.inr ?_))
        rw [flag]
        exact own

/-- The wallet when some of the accounts are read. -/
structure Loaded (done : List Nep6Account) (wallet : Wallet curve) :
    Prop where
  ordered : wallet.Ordered
  addresses : wallet.addresses = done.map fun read => read.fileEntry.address
  default :
    wallet.defaultAddress =
      (done.map Nep6Account.fileEntry).foldl choose none

theorem Empty.loaded {wallet : Wallet curve} (empty : wallet.Empty) :
    Loaded [] wallet := by
  refine ⟨empty.ordered, ?_, ?_⟩
  · rw [addresses, empty.accounts]
    rfl
  · rw [defaultAddress, getDefaultAccount, empty.defaultAccount]
    rfl

section Reading

variable {done : List Nep6Account} {nep6Account : Nep6Account}
  {wallet : Wallet curve}

/-- One more account is read. -/
theorem Loaded.append (loaded : Loaded done wallet)
    {account : WalletAccount curve}
    (read : WalletAccount.fromNep6 host alloc nep6Account = .ok account)
    {address : CString} (has : account.address = some address)
    (takes : wallet.Takes alloc address) :
    ∃ after,
      loadAccount host alloc nep6Account wallet = (.ok (), after) ∧
        Loaded (done ++ [nep6Account]) after := by
  rcases loadAccount_of_takes loaded.ordered read has takes with
    ⟨after, ran, ordered, addresses, default⟩
  refine ⟨after, ran, ordered, ?_, ?_⟩
  · rw [addresses, loaded.addresses, List.map_append, List.map_singleton]
  · rw [default, loaded.default, List.map_append, List.map_singleton,
      List.foldl_append]
    rfl

/-- What a successful call to read one account leaves. -/
theorem loadAccount_loaded (loaded : Loaded done wallet)
    {after : Wallet curve}
    (ran : loadAccount host alloc nep6Account wallet = (.ok (), after)) :
    Loaded (done ++ [nep6Account]) after := by
  cases read :
      (WalletAccount.fromNep6 host alloc nep6Account :
        Outcome (WalletAccount curve)) with
  | error reason =>
      rw [loadAccount, read, Call.lift_error_bind] at ran
      cases ran
  | ok account =>
      have has := (address_fromNep6 read).1
      rcases addAccount_cases loaded.ordered has alloc with
        ⟨-, code, text, failed⟩ | ⟨takes, -⟩
      · rw [loadAccount, read, Call.lift_ok_bind,
          Call.bind_of_error failed] at ran
        cases ran
      · rcases loaded.append read has takes with ⟨left, ran', kept⟩
        rw [ran'] at ran
        injection ran with _ same
        rw [← same]
        exact kept

/-- What is read has the addresses in their order. -/
theorem fromNep6_loaded {nep6Wallet : Nep6Wallet}
    (ran : fromNep6 host alloc nep6Wallet = .ok wallet) :
    Loaded nep6Wallet.accounts wallet := by
  rcases @fromNep6_cases curve host alloc nep6Wallet with
    ⟨reason, -, failed⟩ | ⟨start, empty, exact'⟩
  · rw [failed] at ran
    cases ran
  · exact
      @Call.forEach_eq_ok _ _ _ _ _ Loaded
        (fun done nep6Account rest wallet after _ loaded ran =>
          loadAccount_loaded loaded ran)
        _ _ empty.loaded ((exact' wallet).mp ran)

theorem create_succeeds {name : Option CString}
    (serves : alloc.Serves (128 + name.elim 0 CString.strlen)) :
    ∃ wallet : Wallet curve, create alloc name = .ok wallet := by
  have struct : alloc.grants structSize = true :=
    serves _ (Nat.le_trans (by decide) (Nat.le_add_right 128 _))
  have named : ∃ copy, makeName alloc name = .ok copy := by
    cases name with
    | none => exact ⟨_, rfl⟩
    | some name =>
        have granted : alloc.grants (name.strlen + 1) = true := by
          apply serves
          rw [Option.elim_some]
          omega
        refine ⟨some name, ?_⟩
        rw [makeName, Allocator.strdup, if_pos granted]
  have version :
      alloc.strdup (CString.ofString "1.0") =
        some (CString.ofString "1.0") := by
    rw [Allocator.strdup, if_pos]
    exact serves _ (Nat.le_trans (by decide) (Nat.le_add_right 128 _))
  have array :
      alloc.grants (initialAccountCapacity * pointerSize) = true :=
    serves _ (Nat.le_trans (by decide) (Nat.le_add_right 128 _))
  rcases named with ⟨copy, made⟩
  rw [create, if_neg (by simp [struct]), made, version]
  simp only [bind, Except.bind]
  rw [if_neg (by simp [array])]
  exact ⟨_, rfl⟩

/-- A NEP-6 wallet that is read as soon as there is memory. -/
structure Readable (host : Host) (bound : Nat) (nep6Wallet : Nep6Wallet) :
    Prop where
  distinct :
    (nep6Wallet.accounts.map fun account =>
      account.fileEntry.address).Nodup
  addressed :
    ∀ account ∈ nep6Wallet.accounts,
      ∃ scriptHash : Hash160,
        account.address = some (scriptHash.addressText host) ∧
          host.cryptoInitialized = true
  keyed :
    ∀ account ∈ nep6Wallet.accounts, ∀ key,
      account.key = some key → key.strlen + 1 ≤ bound
  named : 128 + nep6Wallet.name.elim 0 CString.strlen ≤ bound
  account : WalletAccount.structSize ≤ bound
  slots : 16 * nep6Wallet.accounts.length ≤ bound

/-- With memory, one more account of such a wallet is read. -/
theorem Readable.loadAccount {bound : Nat} {nep6Wallet : Nep6Wallet}
    (readable : Readable host bound nep6Wallet)
    (serves : alloc.Serves bound) {rest : List Nep6Account}
    (shape : nep6Wallet.accounts = done ++ nep6Account :: rest)
    (loaded : Loaded done wallet) :
    ∃ after,
      Wallet.loadAccount host alloc nep6Account wallet = (.ok (), after) ∧
        Loaded (done ++ [nep6Account]) after := by
  have member : nep6Account ∈ nep6Wallet.accounts := by
    rw [shape]
    exact List.mem_append_right _ List.mem_cons_self
  rcases readable.addressed nep6Account member with
    ⟨scriptHash, addressed, initialized⟩
  have read :
      (WalletAccount.fromNep6 host alloc nep6Account :
          Outcome (WalletAccount curve)) =
        .ok
          (WalletAccount.readAccount alloc nep6Account
            (scriptHash.addressText host) scriptHash) :=
    WalletAccount.fromNep6_of_serves initialized addressed serves
      readable.account (readable.keyed nep6Account member)
  have missing :
      ∀ held ∈ wallet.accounts,
        held.address ≠ some (scriptHash.addressText host) := by
    intro held within same
    have distinct := readable.distinct
    have listed : held.address ∈ wallet.addresses :=
      List.mem_map_of_mem within
    rw [shape, List.map_append, List.map_cons, List.nodup_append,
      ← loaded.addresses] at distinct
    refine
      distinct.2.2 held.address listed nep6Account.fileEntry.address
        List.mem_cons_self ?_
    rw [same]
    exact addressed.symm
  have hasRoom : wallet.HasRoom alloc := by
    intro full
    have fits := loaded.ordered.fits
    have slots := readable.slots
    have count : wallet.accounts.length = done.length := by
      have lengths := congrArg List.length loaded.addresses
      rw [addresses, List.length_map, List.length_map] at lengths
      exact lengths
    rw [shape, List.length_append] at slots
    apply serves
    rw [pointerSize]
    omega
  exact loaded.append read rfl ⟨missing, hasRoom⟩

/-- With memory, such a wallet is read. -/
theorem Readable.fromNep6 {bound : Nat} {nep6Wallet : Nep6Wallet}
    (readable : Readable host bound nep6Wallet)
    (serves : alloc.Serves bound) :
    ∃ restored : Wallet curve,
      Wallet.fromNep6 host alloc nep6Wallet = .ok restored := by
  rcases @fromNep6_cases curve host alloc nep6Wallet with
    ⟨reason, failed, -⟩ | ⟨start, empty, exact'⟩
  · rcases @create_succeeds curve alloc nep6Wallet.name
        (serves.mono readable.named) with
      ⟨created, ran⟩
    rw [ran] at failed
    cases failed
  · rcases @Call.forEach_succeeds _ _ _ _ _ Loaded
        (fun done nep6Account rest wallet shape loaded =>
          readable.loadAccount serves shape loaded)
        _ empty.loaded with
      ⟨final, ran⟩
    exact ⟨final, (exact' final).mpr ran⟩

end Reading

/-! ## The wallet that is read back -/

/--
With memory a wallet is written and read back, and whatever is read back has
the same addresses in the same order and the same default account.
-/
structure Restores (host : Host) (wallet : Wallet curve) : Prop where
  writes :
    ∀ alloc : Allocator,
      alloc.Serves wallet.fileRoom →
        ∃ nep6Wallet, wallet.toNep6 host alloc = .ok nep6Wallet
  reads :
    ∀ (writing reading : Allocator) (nep6Wallet : Nep6Wallet),
      wallet.toNep6 host writing = .ok nep6Wallet →
        reading.Serves wallet.fileRoom →
          ∃ restored : Wallet curve,
            fromNep6 host reading nep6Wallet = .ok restored
  same :
    ∀ (writing reading : Allocator) (nep6Wallet : Nep6Wallet)
      (restored : Wallet curve),
      wallet.toNep6 host writing = .ok nep6Wallet →
        fromNep6 host reading nep6Wallet = .ok restored →
          restored.addresses = wallet.addresses ∧
            restored.defaultAddress = wallet.defaultAddress

/-- Without a flag behind it, the entry with one is chosen. -/
theorem foldl_choose {earlier later : List FileEntry} {entry : FileEntry}
    (flagged : entry.isDefault = true) (addressed : entry.address ≠ none)
    (unflagged : ∀ other ∈ later, other.isDefault = false) :
    (earlier ++ entry :: later).foldl choose none = entry.address := by
  have chosen (current : Option CString) :
      choose current entry = entry.address := by
    rw [choose, if_pos (.inr flagged)]
  have kept :
      ∀ later : List FileEntry,
        (∀ other ∈ later, other.isDefault = false) →
          later.foldl choose entry.address = entry.address := by
    intro later
    induction later with
    | nil =>
        intro _
        rfl
    | cons other rest induction =>
        intro none
        rcases List.forall_mem_cons.mp none with ⟨first, others⟩
        have passed : choose entry.address other = entry.address := by
          rw [choose, if_neg]
          rintro (missing | flag)
          · exact addressed missing
          · rw [first] at flag
            cases flag
        rw [List.foldl_cons, passed]
        exact induction others
  rw [List.foldl_append, List.foldl_cons, chosen]
  exact kept later unflagged

/-- The entry that is chosen is the one of the default account. -/
theorem FlagsAgree.foldl_choose {wallet : Wallet curve}
    (agree : wallet.FlagsAgree) (ordered : wallet.Ordered) :
    (fileEntries wallet.accounts).foldl choose none =
      wallet.defaultAddress := by
  rcases ordered.default_cases with
    ⟨empty, none⟩ | ⟨held, member, default, address, -⟩
  · rw [empty, none]
    rfl
  have flagged := (agree held member).mpr default
  rcases List.append_of_mem member with ⟨earlier, later, shape⟩
  have unflagged :
      ∀ other ∈ later, other.account.isDefault = false := by
    intro other behind
    apply Bool.eq_false_of_not_eq_true
    intro flaggedToo
    rcases List.append_of_mem behind with ⟨between, last, rest⟩
    have shape' :
        wallet.accounts = (earlier ++ held :: between) ++ other :: last := by
      rw [shape, rest, List.append_assoc, List.cons_append]
    have cleared :=
      agree.earlier ordered.places shape' flaggedToo held
        (List.mem_append_right _ List.mem_cons_self)
    rw [flagged] at cleared
    cases cleared
  rw [address, shape, fileEntries, List.map_append, List.map_cons]
  refine Wallet.foldl_choose flagged ?_ ?_
  · exact ordered.address_ne_none held member
  · intro entry listed
    rcases List.mem_map.mp listed with ⟨other, behind, rfl⟩
    exact unflagged other behind

/-- Where the flags agree, the wallet is restored. -/
theorem FlagsAgree.restores {wallet : Wallet curve}
    (agree : wallet.FlagsAgree) (ordered : wallet.Ordered)
    (addressed : wallet.Addressed host) :
    Restores host wallet := by
  refine ⟨?_, ?_, ?_⟩
  · intro alloc serves
    exact toNep6_writes ordered agree addressed serves
  · intro writing reading nep6Wallet written serves
    rcases toNep6_written agree ordered.places written with
      ⟨entries, named⟩
    have entry {account : Nep6Account}
        (member : account ∈ nep6Wallet.accounts) :
        ∃ held ∈ wallet.accounts,
          held.account.fileEntry = account.fileEntry := by
      have listed : account.fileEntry ∈ fileEntries wallet.accounts := by
        rw [← entries]
        exact List.mem_map_of_mem member
      exact List.mem_map.mp listed
    have count :
        nep6Wallet.accounts.length = wallet.accounts.length := by
      have lengths := congrArg List.length entries
      rw [fileEntries, List.length_map, List.length_map] at lengths
      exact lengths
    refine
      @Readable.fromNep6 curve host reading wallet.fileRoom nep6Wallet ?_
        serves
    refine
      { distinct := ?_, addressed := ?_, keyed := ?_, named := ?_,
        account := ?_, slots := ?_ }
    · have mapped := congrArg (List.map FileEntry.address) entries
      rw [fileEntries, List.map_map, List.map_map] at mapped
      change (nep6Wallet.accounts.map (FileEntry.address ∘ _)).Nodup
      rw [mapped]
      exact ordered.distinct
    · intro account member
      rcases entry member with ⟨held, within, same⟩
      rcases addressed held within with ⟨has, initialized⟩
      refine ⟨held.account.scriptHash, ?_, initialized⟩
      rw [← has]
      exact (congrArg FileEntry.address same).symm
    · intro account member key stored
      rcases entry member with ⟨held, within, same⟩
      have text : held.account.encryptedText = some key :=
        (congrArg FileEntry.key same).trans stored
      have room := fileRoom_le within
      rw [WalletAccount.fileRoom, text, Option.elim_some] at room
      omega
    · rw [fileRoom]
      cases name : nep6Wallet.name with
      | none =>
          rw [Option.elim_none]
          omega
      | some text =>
          rw [Option.elim_some, named text name]
          omega
    · have small : WalletAccount.structSize ≤ 128 := by
        decide
      rw [fileRoom]
      omega
    · rw [count, fileRoom]
      omega
  · intro writing reading nep6Wallet restored written read
    rcases toNep6_written agree ordered.places written with ⟨entries, -⟩
    have loaded := fromNep6_loaded read
    refine ⟨?_, ?_⟩
    · rw [loaded.addresses]
      have mapped := congrArg (List.map FileEntry.address) entries
      rw [fileEntries, List.map_map, List.map_map] at mapped
      exact mapped
    · rw [loaded.default, entries]
      exact agree.foldl_choose ordered

/-! ## Which calls keep the flags -/

theorem Empty.flagsAgree {wallet : Wallet curve} (empty : wallet.Empty) :
    wallet.FlagsAgree := by
  rw [FlagsAgree, empty.accounts]
  exact List.forall_mem_nil _

section Flags

variable {wallet : Wallet curve}

/-- The first account is flagged when it is added. -/
theorem flagsAgree_push_first (empty : wallet.accounts = [])
    (account : WalletAccount curve) :
    (push account wallet).FlagsAgree := by
  rw [push_first empty]
  intro held member
  rw [List.mem_singleton.mp member]
  exact iff_of_true rfl rfl

/-- The flags agree after a further account exactly when it has none. -/
theorem flagsAgree_push_more_iff (agree : wallet.FlagsAgree)
    (ordered : wallet.Ordered) (some : wallet.accounts ≠ [])
    (account : WalletAccount curve) :
    (push account wallet).FlagsAgree ↔ account.isDefault = false := by
  have other : wallet.defaultAccount ≠ .some wallet.nextPointer := by
    rcases ordered.defaulted with ⟨-, empty⟩ | ⟨pointer, member, default⟩
    · exact absurd empty some
    · rw [default]
      intro same
      have below := ordered.below pointer member
      rw [Option.some.inj same] at below
      exact Nat.lt_irrefl _ below
  rw [push_more some]
  constructor
  · intro agreed
    apply Bool.eq_false_of_not_eq_true
    intro flagged
    have last :
        ({ pointer := wallet.nextPointer, account } :
            HeldAccount curve) ∈
          wallet.accounts ++
            [{ pointer := wallet.nextPointer, account }] :=
      List.mem_append_right _ (List.mem_singleton.mpr rfl)
    exact other ((agreed _ last).mp flagged)
  · intro unflagged held member
    rcases List.mem_append.mp member with before | last
    · exact agree held before
    · rw [List.mem_singleton.mp last]
      refine iff_of_false ?_ other
      rw [unflagged]
      exact Bool.false_ne_true

/-- The flag of the first account that is left is set. -/
theorem FlagsAgree.inherit (agree : wallet.FlagsAgree)
    (ordered : wallet.Ordered)
    {earlier later : List (HeldAccount curve)} {held : HeldAccount curve}
    (shape : wallet.accounts = earlier ++ held :: later)
    (default : wallet.defaultAccount = some held.pointer) :
    (Wallet.inherit (earlier ++ later) wallet).FlagsAgree := by
  have places := ordered.places
  rw [pointers, shape, List.map_append, List.map_cons,
    List.nodup_middle, List.nodup_cons, ← List.map_append] at places
  have unflagged :
      ∀ other ∈ earlier ++ later, ¬ other.account.isDefault = true := by
    intro other member flagged
    have within : other ∈ wallet.accounts := by
      rw [shape]
      rcases List.mem_append.mp member with before | behind
      · exact List.mem_append_left _ before
      · exact List.mem_append_right _ (List.mem_cons_of_mem _ behind)
    have same := (agree other within).mp flagged
    rw [default] at same
    apply places.1
    rw [Option.some.inj same]
    exact List.mem_map_of_mem member
  generalize earlier ++ later = others at places unflagged ⊢
  cases others with
  | nil => exact List.forall_mem_nil _
  | cons first rest =>
      refine List.forall_mem_cons.mpr ⟨iff_of_true rfl rfl, ?_⟩
      intro other member
      refine
        iff_of_false (unflagged other (List.mem_cons_of_mem _ member)) ?_
      intro same
      have distinct := (List.nodup_cons.mp places.2).1
      apply distinct
      rw [Option.some.inj same]
      exact List.mem_map_of_mem member

theorem FlagsAgree.remove (agree : wallet.FlagsAgree)
    {earlier later : List (HeldAccount curve)} {held : HeldAccount curve}
    (shape : wallet.accounts = earlier ++ held :: later) :
    FlagsAgree { wallet with accounts := earlier ++ later } := by
  intro other member
  apply agree other
  rw [shape]
  rcases List.mem_append.mp member with before | behind
  · exact List.mem_append_left _ before
  · exact List.mem_append_right _ (List.mem_cons_of_mem _ behind)

/-- An account after a flag is set or cleared is one from before. -/
theorem mem_setFlag {pointer : Nat} {isDefault : Bool}
    {accounts : List (HeldAccount curve)} {held : HeldAccount curve}
    (member : held ∈ setFlag pointer isDefault accounts) :
    ∃ other ∈ accounts,
      held.pointer = other.pointer ∧
        held.account.address = other.account.address ∧
        held.account.scriptHash = other.account.scriptHash ∧
        held.account.isDefault =
          if other.pointer = pointer then isDefault
          else other.account.isDefault := by
  rcases List.mem_map.mp member with ⟨other, within, rfl⟩
  refine ⟨other, within, ?_⟩
  by_cases same : other.pointer = pointer
  · rw [if_pos same, if_pos same]
    exact ⟨rfl, rfl, rfl, rfl⟩
  · rw [if_neg same, if_neg same]
    exact ⟨rfl, rfl, rfl, rfl⟩

/-- The flag goes from the old default account to the new one. -/
theorem FlagsAgree.redirect (agree : wallet.FlagsAgree) {old : Nat}
    (default : wallet.defaultAccount = some old) (new : Nat) :
    (Wallet.redirect old new wallet).FlagsAgree := by
  intro held member
  rcases mem_setFlag member with ⟨cleared, within, place, -, -, flag⟩
  rcases mem_setFlag within with ⟨other, inside, place', -, -, flag'⟩
  change _ ↔ some new = some held.pointer
  rw [flag, flag', place]
  by_cases isNew : cleared.pointer = new
  · rw [if_pos isNew, isNew]
    exact iff_of_true rfl rfl
  · rw [if_neg isNew]
    refine iff_of_false ?_ ?_
    · by_cases isOld : other.pointer = old
      · rw [if_pos isOld]
        exact Bool.false_ne_true
      · rw [if_neg isOld]
        intro flagged
        have same := (agree other inside).mp flagged
        rw [default] at same
        exact isOld (Option.some.inj same).symm
    · intro same
      exact isNew (Option.some.inj same).symm

/-- The calls that add no flagged account keep the flags. -/
theorem FlagsAgree.change {changed : Wallet curve}
    {offered : WalletAccount curve → Prop} (agree : wallet.FlagsAgree)
    (ordered : wallet.Ordered)
    (unflagged :
      ∀ account, offered account → account.isDefault = false)
    (change : Change offered wallet changed) :
    changed.FlagsAgree := by
  cases change with
  | kept => exact agree
  | @added account address capacity given has missing room =>
      by_cases empty : wallet.accounts = []
      · exact
          @flagsAgree_push_first curve
            { wallet with accountCapacity := capacity } empty account
      · have grown :
            Ordered { wallet with accountCapacity := capacity } :=
          ordered.grown room
        exact
          (@flagsAgree_push_more_iff curve
            { wallet with accountCapacity := capacity } agree grown empty
            account).mpr (unflagged account given)
  | removedDefault shape default =>
      exact agree.inherit ordered shape default
  | removedOther shape other => exact agree.remove shape
  | redirected default member => exact agree.redirect default _

/-- The calls that add accounts at the address of their hash keep that. -/
theorem Addressed.change {changed : Wallet curve}
    {offered : WalletAccount curve → Prop}
    (addressed : wallet.Addressed host)
    (offers : ∀ account, offered account → account.AtOwnHash host)
    (change : Change offered wallet changed) :
    changed.Addressed host := by
  cases change with
  | kept => exact addressed
  | @added account address capacity given has missing room =>
      have own := offers account given
      by_cases empty : wallet.accounts = []
      · rw [@push_first curve { wallet with accountCapacity := capacity }
          empty account]
        intro held member
        rw [List.mem_singleton.mp member]
        exact ⟨own.address, own.initialized⟩
      · rw [@push_more curve { wallet with accountCapacity := capacity }
          empty account]
        intro held member
        rcases List.mem_append.mp member with before | last
        · exact addressed held before
        · rw [List.mem_singleton.mp last]
          exact own
  | @removedDefault earlier later held shape default =>
      have others :
          ∀ other ∈ earlier ++ later, other.account.AtOwnHash host := by
        intro other member
        apply addressed other
        rw [shape]
        exact
          ((List.sublist_cons_self held later).append_left earlier).subset
            member
      generalize earlier ++ later = rest at others ⊢
      cases rest with
      | nil => exact List.forall_mem_nil _
      | cons first rest =>
          rcases List.forall_mem_cons.mp others with ⟨own, behind⟩
          exact
            List.forall_mem_cons.mpr
              ⟨⟨own.address, own.initialized⟩, behind⟩
  | @removedOther earlier later held shape other =>
      intro other member
      apply addressed other
      rw [shape]
      exact
        ((List.sublist_cons_self held later).append_left earlier).subset
          member
  | redirected default member =>
      intro held within
      rcases mem_setFlag within with ⟨cleared, inside, -, address, hash, -⟩
      rcases mem_setFlag inside with ⟨other, first, -, address', hash', -⟩
      have own := addressed other first
      refine ⟨?_, own.initialized⟩
      rw [address, hash, address', hash']
      exact own.address

end Flags

/-! ## Accounts in any state -/

section Histories

variable (derivation : KeyDerivation curve) (cipher : Cipher)

/-- An account that a constructor or a file gave, after any calls. -/
def Made (host : Host) (account : WalletAccount curve) : Prop :=
  ∃ (alloc : Allocator) (source : WalletAccount.Source curve)
    (start : WalletAccount curve)
    (operations : List WalletAccount.Operation),
    source.load derivation cipher host alloc = .ok start ∧
      finalState (WalletAccount.next derivation cipher host) start
          operations =
        account

variable {derivation cipher}

/-- No call on an account moves it to another address. -/
theorem next_atOwnHash {account : WalletAccount curve}
    (own : account.AtOwnHash host) (operation : WalletAccount.Operation) :
    (WalletAccount.next derivation cipher host account
      operation).AtOwnHash host := by
  rcases own with ⟨address, initialized⟩
  rw [WalletAccount.next]
  cases operation with
  | setLabel alloc label =>
      rcases @WalletAccount.setLabel_cases curve alloc label account with
        ⟨outcome, stored, ran⟩
      rw [WalletAccount.perform, ran]
      exact ⟨address, initialized⟩
  | setDefault isDefault => exact ⟨address, initialized⟩
  | lock => exact ⟨address, initialized⟩
  | unlock => exact ⟨address, initialized⟩
  | encrypt alloc password params =>
      rw [WalletAccount.perform]
      rcases @WalletAccount.encryptPrivateKeyWithParams_cases curve
          derivation cipher host alloc password params account with
        ⟨reason, failed⟩ | ⟨reason, failed⟩ | ⟨keyPair, text, -, -, ran⟩
      · rw [failed]
        exact ⟨address, initialized⟩
      · rw [failed]
        exact ⟨address, initialized⟩
      · rw [ran]
        exact ⟨address, initialized⟩
  | decrypt alloc password params =>
      rw [WalletAccount.perform]
      rcases @WalletAccount.decryptPrivateKeyWithParams_cases curve
          derivation cipher host alloc password params account with
        ⟨reason, failed⟩ | ⟨content, privateKey, keyPair, -, -, -, ran⟩
      · rw [failed]
        exact ⟨address, initialized⟩
      · rw [ran]
        exact ⟨address, initialized⟩
  | setEncryptedPrivateKey alloc encryptedKey =>
      rcases @WalletAccount.setEncryptedPrivateKey_cases curve alloc
          encryptedKey account with
        ⟨outcome, stored, ran⟩
      rw [WalletAccount.perform, ran]
      exact ⟨address, initialized⟩

theorem Made.atOwnHash {account : WalletAccount curve}
    (made : Made derivation cipher host account) :
    account.AtOwnHash host := by
  rcases made with ⟨alloc, source, start, operations, loaded, rfl⟩
  have own : start.AtOwnHash host := by
    cases source with
    | constructed origin =>
        have fresh := AccountOrigin.construct_fresh loaded
        exact ⟨fresh.address, fresh.initialized⟩
    | imported nep6Account =>
        rcases address_fromNep6 loaded with ⟨address, initialized⟩
        exact ⟨address, initialized⟩
  exact
    finalState_invariant
      (fun account : WalletAccount curve => account.AtOwnHash host)
      (fun account operation own _ => next_atOwnHash own operation)
      own ((along_const start operations).mpr fun _ _ => trivial)

variable (derivation cipher)

/-- An account that the call is given was made, whatever its state is. -/
def AddsMade (host : Host) : Operation curve → Prop
  | .addAccount _ given => Made derivation cipher host given.account
  | _ => True

variable {derivation cipher}

/--
An account that the wallet takes beside others does not bring a flag of its
own.
-/
def AddsUnflagged (wallet : Wallet curve) : Operation curve → Prop
  | .addAccount alloc given =>
      wallet.accounts ≠ [] →
        wallet.Takes alloc given.address →
          given.account.isDefault = false
  | _ => True

/--
Exactly the default account has a flag, and the wallet that is written and
read back has the same accounts and default.
-/
structure Faithful (host : Host) (wallet : Wallet curve) : Prop where
  flags : wallet.FlagsAgree
  restores : Restores host wallet

/-- What the calls keep. -/
structure InStep (host : Host) (wallet : Wallet curve) : Prop where
  ordered : wallet.Ordered
  flags : wallet.FlagsAgree
  addressed : wallet.Addressed host

theorem InStep.faithful {wallet : Wallet curve}
    (inStep : InStep host wallet) :
    Faithful host wallet :=
  ⟨inStep.flags, inStep.flags.restores inStep.ordered inStep.addressed⟩

/-- What a call offers to add is at the address of its hash. -/
theorem offers_atOwnHash {operation : Operation curve}
    (made : AddsMade derivation cipher host operation)
    (account : WalletAccount curve)
    (offered : Offers derivation cipher host operation account) :
    account.AtOwnHash host := by
  have constructed {alloc : Allocator} {origin : AccountOrigin curve}
      (constructed :
        origin.construct derivation cipher host alloc = .ok account) :
      account.AtOwnHash host :=
    ⟨(AccountOrigin.construct_fresh constructed).address,
      (AccountOrigin.construct_fresh constructed).initialized⟩
  cases operation with
  | addAccount alloc given =>
      rw [show account = given.account from offered]
      exact Made.atOwnHash made
  | removeAccount address => exact offered.elim
  | setDefaultAccountStr address => exact offered.elim
  | setDefaultAccountHash alloc scriptHash => exact offered.elim
  | setDefaultAccountAccount alloc account => exact offered.elim
  | createAccount alloc random label =>
      exact @constructed alloc (.withLabel random label) offered
  | importFromWif alloc wif label =>
      exact @constructed alloc (.fromWif label wif) offered
  | importFromNep2 alloc nep2 passphrase label =>
      exact @constructed alloc (.fromNep2 label nep2 passphrase) offered

/-- The flags agree after adding an account as the condition says. -/
theorem flagsAgree_addAccount_iff {wallet : Wallet curve}
    (inStep : InStep host wallet) (alloc : Allocator)
    (given : GivenAccount curve) :
    (next derivation cipher host wallet
        (.addAccount alloc given)).FlagsAgree ↔
      wallet.AddsUnflagged (.addAccount alloc given) := by
  rw [next, perform, succeeds, AddsUnflagged]
  rcases addAccount_cases inStep.ordered given.addressed alloc with
    ⟨refused, code, text, failed⟩ | ⟨takes, capacity, room, ran⟩
  · rw [Call.bind_of_error failed]
    refine iff_of_true inStep.flags ?_
    intro _ takes
    exact absurd takes refused
  · rw [Call.bind_of_ok ran]
    by_cases empty : wallet.accounts = []
    · refine iff_of_true ?_ fun some => absurd empty some
      exact
        @flagsAgree_push_first curve
          { wallet with accountCapacity := capacity } empty given.account
    · have further :=
        @flagsAgree_push_more_iff curve
          { wallet with accountCapacity := capacity } inStep.flags
          (inStep.ordered.grown room) empty given.account
      refine further.trans ⟨?_, ?_⟩
      · intro unflagged _ _
        exact unflagged
      · intro unflagged
        exact unflagged empty takes

/-- The flags agree after a call exactly where the condition says. -/
theorem next_flagsAgree_iff {wallet : Wallet curve}
    (inStep : InStep host wallet) (operation : Operation curve) :
    (next derivation cipher host wallet operation).FlagsAgree ↔
      wallet.AddsUnflagged operation := by
  have change :=
    (@perform_disciplined curve derivation cipher host wallet
      inStep.ordered operation).change
  have kept
      (unflagged :
        ∀ account,
          Offers derivation cipher host operation account →
            account.isDefault = false) :
      (next derivation cipher host wallet operation).FlagsAgree :=
    inStep.flags.change inStep.ordered unflagged change
  cases operation with
  | addAccount alloc given =>
      exact flagsAgree_addAccount_iff inStep alloc given
  | removeAccount address =>
      exact iff_of_true (kept fun _ offered => offered.elim) trivial
  | setDefaultAccountStr address =>
      exact iff_of_true (kept fun _ offered => offered.elim) trivial
  | setDefaultAccountHash alloc scriptHash =>
      exact iff_of_true (kept fun _ offered => offered.elim) trivial
  | setDefaultAccountAccount alloc account =>
      exact iff_of_true (kept fun _ offered => offered.elim) trivial
  | createAccount alloc random label =>
      refine iff_of_true (kept ?_) trivial
      intro account offered
      exact (WalletAccount.createWithLabel_fresh offered).isDefault
  | importFromWif alloc wif label =>
      refine iff_of_true (kept ?_) trivial
      intro account offered
      exact
        (@AccountOrigin.construct_fresh curve derivation cipher host alloc
          (.fromWif label wif) account offered).isDefault
  | importFromNep2 alloc nep2 passphrase label =>
      refine iff_of_true (kept ?_) trivial
      intro account offered
      exact
        (@AccountOrigin.construct_fresh curve derivation cipher host alloc
          (.fromNep2 label nep2 passphrase) account offered).isDefault

theorem next_inStep {wallet : Wallet curve} (inStep : InStep host wallet)
    {operation : Operation curve}
    (made : AddsMade derivation cipher host operation)
    (unflagged : wallet.AddsUnflagged operation) :
    InStep host (next derivation cipher host wallet operation) := by
  refine ⟨next_ordered inStep.ordered operation, ?_, ?_⟩
  · exact (next_flagsAgree_iff inStep operation).mpr unflagged
  · exact
      inStep.addressed.change (offers_atOwnHash made)
        (perform_disciplined inStep.ordered operation).change

/--
From a new wallet on, exactly the default account has a flag and the wallet
is read back as it was written, in every state that is reached, exactly when
no account that is taken beside others brings a flag of its own.
-/
theorem faithful_history_iff
    {alloc : Allocator}
    {name : Option CString}
    {wallet : Wallet curve}
    (created : create alloc name = .ok wallet)
    {operations : List (Operation curve)}
    (made :
      ∀ operation ∈ operations, AddsMade derivation cipher host operation) :
    (Faithful host wallet ∧
        Along (next derivation cipher host)
          (fun wallet operation =>
            Faithful host (next derivation cipher host wallet operation))
          wallet operations) ↔
      Along (next derivation cipher host) AddsUnflagged wallet
        operations := by
  have empty := create_empty created
  have start : InStep host wallet := by
    refine ⟨empty.ordered, empty.flagsAgree, ?_⟩
    rw [Addressed, empty.accounts]
    exact List.forall_mem_nil _
  have faithful_iff {wallet : Wallet curve} {operation : Operation curve}
      (inStep : InStep host wallet)
      (made : AddsMade derivation cipher host operation) :
      Faithful host (next derivation cipher host wallet operation) ↔
        wallet.AddsUnflagged operation := by
    constructor
    · intro faithful
      exact (next_flagsAgree_iff inStep operation).mp faithful.flags
    · intro unflagged
      exact (next_inStep inStep made unflagged).faithful
  have along :
      Along (next derivation cipher host)
          (fun wallet operation =>
            Faithful host
                (next derivation cipher host wallet operation) ∧
              AddsMade derivation cipher host operation)
          wallet operations ↔
        Along (next derivation cipher host)
          (fun wallet operation =>
            wallet.AddsUnflagged operation ∧
              AddsMade derivation cipher host operation)
          wallet operations :=
    along_iff_of_invariant (InStep host)
      (fun wallet operation inStep allowed =>
        next_inStep inStep allowed.2 allowed.1)
      (fun wallet operation inStep =>
        and_congr_left fun made => faithful_iff inStep made)
      start operations
  have always :
      Along (next derivation cipher host)
        (fun _ operation => AddsMade derivation cipher host operation)
        wallet operations :=
    (along_const wallet operations).mpr made
  rw [along_and, along_and] at along
  constructor
  · rintro ⟨-, later⟩
    exact (along.mp ⟨later, always⟩).1
  · intro unflagged
    exact ⟨start.faithful, (along.mpr ⟨unflagged, always⟩).1⟩

end Histories

open WalletAccount (accountOther addressOne addressOther neoCipher nep2Host)

/-- The account of the private key one is made. -/
theorem made_givenOne :
    Made baseDerivation neoCipher nep2Host givenOne.account :=
  ⟨.ample,
    .constructed (.fromKeyPair none Transaction.baseKeyPair),
    WalletAccount.accountOne, [], WalletAccount.construct_accountOne, rfl⟩

/-- The account of the other address is made. -/
theorem made_givenOther :
    Made baseDerivation neoCipher nep2Host givenOther.account :=
  ⟨.ample, .constructed (.fromAddress addressOther), accountOther,
    [], WalletAccount.construct_accountOther, rfl⟩

/-- The account of the other address, with its flag set. -/
def flaggedOther : GivenAccount Transaction.baseCurve where
  account := { accountOther with isDefault := true }
  address := addressOther
  addressed := rfl

/-- A second account without a flag leaves the first one the default. -/
theorem faithful_newWallet :
    Along (next baseDerivation neoCipher nep2Host)
      (fun wallet operation =>
        Faithful nep2Host
          (next baseDerivation neoCipher nep2Host wallet operation))
      (newWallet Transaction.baseCurve)
      [.addAccount .ample givenOne,
        .addAccount .ample givenOther,
        .setDefaultAccountStr addressOther,
        .removeAccount addressOther] := by
  have created :
      create .ample none =
        .ok (newWallet Transaction.baseCurve) := by
    rfl
  have made :
      ∀ operation ∈
        ([.addAccount .ample givenOne,
          .addAccount .ample givenOther,
          .setDefaultAccountStr addressOther,
          .removeAccount addressOther] :
          List (Operation Transaction.baseCurve)),
        AddsMade baseDerivation neoCipher nep2Host operation := by
    intro operation member
    simp only [List.mem_cons, List.not_mem_nil, or_false] at member
    rcases member with rfl | rfl | rfl | rfl
    · exact made_givenOne
    · exact made_givenOther
    · trivial
    · trivial
  refine ((faithful_history_iff created made).mpr ⟨?_, ?_, ?_⟩).2
  · intro some
    exact absurd rfl some
  · intro _ _
    rfl
  · exact ⟨trivial, trivial, trivial⟩

/-- The wallet after an account and a second one with a flag are added. -/
def walletOfTwo : Wallet Transaction.baseCurve :=
  finalState (next baseDerivation neoCipher nep2Host)
    (newWallet Transaction.baseCurve)
    [.addAccount .ample givenOne,
      .addAccount .ample flaggedOther]

/-- Of two accounts with a flag, the second is the default once read. -/
theorem flaggedOther_takes_over :
    create .ample none = .ok (newWallet Transaction.baseCurve) ∧
      Made baseDerivation neoCipher nep2Host givenOne.account ∧
      Made baseDerivation neoCipher nep2Host flaggedOther.account ∧
      ¬ walletOfTwo.FlagsAgree ∧
      walletOfTwo.defaultAddress = some addressOne ∧
      (do
        let nep6Wallet ← walletOfTwo.toNep6 nep2Host .ample
        let restored : Wallet Transaction.baseCurve ←
          fromNep6 nep2Host .ample nep6Wallet
        .ok restored.defaultAddress) =
        (.ok (some addressOther) : Outcome (Option CString)) := by
  refine ⟨rfl, made_givenOne, ?_, ?_, ?_, ?_⟩
  · exact
      ⟨.ample, .constructed (.fromAddress addressOther),
        accountOther, [.setDefault true],
        WalletAccount.construct_accountOther, rfl⟩
  · decide +kernel
  · decide +kernel
  · decide +kernel

end Wallet

end NeoC
