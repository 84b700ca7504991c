import NeoC.Foundation.Run
import NeoC.Runtime.JsonGrammar
import NeoC.Wallet.AccountNep6
import NeoC.Wallet.Nep6Json

/-!
# Histories of a NEP-6 wallet

A wallet is created empty or loaded from a file, accounts are added to it
and removed from it, and its version and its parameters are set.  Created
wallets stay in order whatever is done to them.  A loaded wallet takes over
the accounts of its file as they are, and since it does not record a
capacity, the first account that is added gets an array of four slots,
however many accounts are already there.
-/

namespace NeoC

open Foundation WalletAccount

namespace Nep6Wallet

/-! ## Wallets in order -/

/-- What is expected of the accounts of a wallet. -/
structure Tidy (wallet : Nep6Wallet) : Prop where
  fits : wallet.accounts.length ≤ wallet.slots
  addressed : ∀ account ∈ wallet.accounts, account.address ≠ none
  distinct : (wallet.accounts.map Nep6Account.address).Nodup
  oneDefault : wallet.accounts.countP Nep6Account.isDefault ≤ 1

instance (wallet : Nep6Wallet) : Decidable wallet.Tidy :=
  decidable_of_iff
    (wallet.accounts.length ≤ wallet.slots ∧
      (∀ account ∈ wallet.accounts, account.address ≠ none) ∧
      (wallet.accounts.map Nep6Account.address).Nodup ∧
      wallet.accounts.countP Nep6Account.isDefault ≤ 1)
    ⟨fun ⟨fits, addressed, distinct, oneDefault⟩ =>
        { fits, addressed, distinct, oneDefault },
      fun tidy =>
        ⟨tidy.fits, tidy.addressed, tidy.distinct, tidy.oneDefault⟩⟩

/-! ## Where a wallet comes from -/

/-- How a wallet is obtained. -/
inductive Origin where
  | create (alloc : Allocator) (name version : Option CString)
  | fromJson (library : JsonLibrary) (alloc : Allocator)
      (jsonStr : CString)

/-- The call that obtains it. -/
def Origin.load : Origin → Outcome Nep6Wallet
  | .create alloc name version => Nep6Wallet.create alloc name version
  | .fromJson library alloc jsonStr =>
      Nep6Wallet.fromJson library alloc jsonStr

/-- The address that a file gives for an account. -/
def fileAddress (library : JsonLibrary) (account : JsonTree) :
    Option CString :=
  match accountItem library account "address" with
  | some (.string valuestring) => some valuestring
  | _ => none

/--
A file has an address for each of its accounts, with memory for a copy, no
address twice and no second default account.
-/
structure TidyFile (library : JsonLibrary) (alloc : Allocator)
    (jsonObj : JsonTree) : Prop where
  addressed :
    ∀ account ∈ accountItems library jsonObj,
      ∃ address,
        fileAddress library account = some address ∧
          alloc.grants (address.strlen + 1) = true
  distinct :
    ((accountItems library jsonObj).map (fileAddress library)).Nodup
  oneDefault :
    (accountItems library jsonObj).countP
        (fun account =>
          readFlag (accountItem library account "isDefault")) ≤
      1

/-- The file a wallet is loaded from, if there is one, is in order. -/
def Origin.TidySource : Origin → Prop
  | .create _ _ _ => True
  | .fromJson library alloc jsonStr =>
      ∀ jsonObj,
        library.parse jsonStr = some jsonObj →
          TidyFile library alloc jsonObj

/-! ## The calls -/

/-- The calls that change a wallet. -/
inductive Operation where
  | setVersion (alloc : Allocator) (version : Option CString)
  | setScrypt (params : ScryptParams)
  | addAccount (alloc : Allocator) (privateKey : Bytes 32)
      (password : CString) (label : Option CString) (isDefault : Bool)
  | addAccountExisting (alloc : Allocator) (account : Nep6Account)
  | removeAccount (address : CString)

section Calls

variable {curve : Curve} (derivation : KeyDerivation curve)
  (cipher : Cipher) (host : Host)

/-- One call. -/
def perform : Operation → Routine Nep6Wallet Unit
  | .setVersion alloc version => setVersion alloc version
  | .setScrypt params => setScrypt params
  | .addAccount alloc privateKey password label isDefault =>
      addAccount derivation cipher host alloc privateKey password label
        isDefault
  | .addAccountExisting alloc account => addAccountExisting alloc account
  | .removeAccount address => removeAccount address

/-- The wallet after a call, whether it succeeds or not. -/
def next (wallet : Nep6Wallet) (operation : Operation) : Nep6Wallet :=
  (perform derivation cipher host operation wallet).2

/-- The account that a call hands to `add_account_existing`. -/
def Operation.handed (wallet : Nep6Wallet) :
    Operation → Option (Allocator × Nep6Account)
  | .addAccount alloc privateKey password label isDefault =>
      match
        makeAccount derivation cipher host alloc wallet.scrypt privateKey
          password label isDefault with
      | .ok account => some (alloc, account)
      | .error _ => none
  | .addAccountExisting alloc account => some (alloc, account)
  | _ => none

/--
After the call the wallet is in order, nothing was written behind the slots
of its array, and an account that was to be removed is the only one missing.
-/
structure StaysTidy (wallet : Nep6Wallet) (operation : Operation) :
    Prop where
  tidy : (next derivation cipher host wallet operation).Tidy
  within :
    ∀ alloc account,
      operation.handed derivation cipher host wallet =
          some (alloc, account) →
        (addAccountExisting alloc account wallet).1 ≠ .error .illegalAccess
  removes :
    ∀ address,
      operation = .removeAccount address →
        (∃ account ∈ wallet.accounts, account.address = some address) →
          ∃ earlier account later,
            wallet.accounts = earlier ++ account :: later ∧
              account.address = some address ∧
              perform derivation cipher host operation wallet =
                (.ok (), { wallet with accounts := earlier ++ later })

/--
The account is not one more in a loaded wallet of four accounts or more that
never grew: it has no address, its address is there already, or there is no
memory for the new array.
-/
def FindsSlot (wallet : Nep6Wallet) (operation : Operation) : Prop :=
  wallet.accountCapacity = 0 → 4 ≤ wallet.accounts.length →
    ∀ alloc account,
      operation.handed derivation cipher host wallet =
          some (alloc, account) →
        account.address = none ∨
          (∃ existing ∈ wallet.accounts,
            existing.address = account.address) ∨
          alloc.neocGrants (4 * pointerSize) = false

variable {derivation cipher host}

/-! ## What the calls do to the accounts -/

theorem map_address_clearDefaults (account : Nep6Account)
    (accounts : List Nep6Account) :
    (clearDefaults account accounts).map Nep6Account.address =
      accounts.map Nep6Account.address := by
  rw [clearDefaults]
  split
  · rw [List.map_map]
    rfl
  · rfl

/-- After an account was added there is still at most one default. -/
theorem countP_clearDefaults {accounts : List Nep6Account}
    (atMostOne : accounts.countP Nep6Account.isDefault ≤ 1)
    (account : Nep6Account) :
    (clearDefaults account accounts ++ [account]).countP
        Nep6Account.isDefault ≤
      1 := by
  rw [clearDefaults, List.countP_append]
  split
  · rename_i flagged
    have cleared :
        (accounts.map fun existing =>
            ({ existing with isDefault := false } : Nep6Account)).countP
          Nep6Account.isDefault = 0 := by
      rw [List.countP_eq_zero]
      intro existing member
      rcases List.mem_map.mp member with ⟨before, -, rfl⟩
      exact Bool.false_ne_true
    rw [cleared, List.countP_singleton, if_pos flagged]
  · rename_i plain
    rw [List.countP_singleton, if_neg plain]
    exact atMostOne

/-- A wallet that takes one more account stays in order. -/
theorem Tidy.append {wallet added : Nep6Wallet} (tidy : wallet.Tidy)
    {account : Nep6Account} {address : CString}
    (has : account.address = some address)
    (unique :
      ∀ existing ∈ wallet.accounts, existing.address ≠ some address)
    (room : wallet.accounts.length < added.slots)
    (listed :
      added.accounts =
        clearDefaults account wallet.accounts ++ [account]) :
    added.Tidy := by
  have addresses :
      added.accounts.map Nep6Account.address =
        wallet.accounts.map Nep6Account.address ++ [some address] := by
    rw [listed, List.map_append, map_address_clearDefaults,
      List.map_singleton, has]
  refine { fits := ?_, addressed := ?_, distinct := ?_, oneDefault := ?_ }
  · have length := congrArg List.length addresses
    rw [List.length_map, List.length_append, List.length_map,
      List.length_singleton] at length
    omega
  · intro member inside missing
    have found : none ∈ added.accounts.map Nep6Account.address :=
      List.mem_map.mpr ⟨member, inside, missing⟩
    rw [addresses, List.mem_append, List.mem_map] at found
    rcases found with ⟨existing, before, none⟩ | last
    · exact tidy.addressed existing before none
    · cases List.mem_singleton.mp last
  · rw [addresses, List.nodup_append]
    refine ⟨tidy.distinct, List.nodup_singleton _, ?_⟩
    intro earlier member last final same
    rcases List.mem_map.mp member with ⟨existing, before, rfl⟩
    rw [List.mem_singleton.mp final] at same
    exact unique existing before same
  · rw [listed]
    exact countP_clearDefaults tidy.oneDefault account

/-- A wallet that keeps some of its accounts stays in order. -/
theorem Tidy.sublist {wallet : Nep6Wallet} (tidy : wallet.Tidy)
    {accounts : List Nep6Account}
    (kept : accounts.Sublist wallet.accounts) :
    ({ wallet with accounts } : Nep6Wallet).Tidy where
  fits := kept.length_le.trans tidy.fits
  addressed account member := tidy.addressed account (kept.mem member)
  distinct := (kept.map Nep6Account.address).nodup tidy.distinct
  oneDefault := kept.countP_le.trans tidy.oneDefault

/-- Removing finds the first account at an address, or there is none. -/
theorem removeFrom_cases (address : CString) {accounts : List Nep6Account}
    (addressed : ∀ account ∈ accounts, account.address ≠ none) :
    (∃ earlier account later,
        accounts = earlier ++ account :: later ∧
          account.address = some address ∧
          removeFrom address accounts = .ok (earlier ++ later)) ∨
      (∀ account ∈ accounts, account.address ≠ some address) ∧
        ∃ code text,
          removeFrom address accounts = .error (.error code text) := by
  induction accounts with
  | nil => exact .inr ⟨List.forall_mem_nil _, _, _, rfl⟩
  | cons account rest induction =>
      rcases List.forall_mem_cons.mp addressed with ⟨first, others⟩
      rcases Option.ne_none_iff_exists'.mp first with ⟨found, has⟩
      rw [removeFrom, has]
      dsimp only
      by_cases same : found = address
      · rw [if_pos same]
        refine .inl ⟨[], account, rest, rfl, ?_, rfl⟩
        rw [has, same]
      · rw [if_neg same]
        rcases induction others with
          ⟨earlier, removed, later, rfl, at', ran⟩ |
            ⟨missing, code, text, failed⟩
        · refine .inl ⟨account :: earlier, removed, later, rfl, at', ?_⟩
          rw [ran]
          rfl
        · refine .inr ⟨?_, code, text, ?_⟩
          · refine List.forall_mem_cons.mpr ⟨?_, missing⟩
            rw [has]
            exact fun equal => same (Option.some.inj equal)
          · rw [failed]
            rfl

/-! ## Every history -/

/-- The capacity that is recorded is missing, or it is the right one. -/
structure Kept (wallet : Nep6Wallet) : Prop where
  tidy : wallet.Tidy
  recorded :
    wallet.accountCapacity = 0 ∨ wallet.accountCapacity = wallet.slots

theorem Kept.roomy {wallet : Nep6Wallet} (kept : wallet.Kept) :
    wallet.roomy.accountCapacity = 0 ∨
      wallet.roomy.accountCapacity = wallet.roomy.slots := by
  rw [Nep6Wallet.roomy]
  split
  · exact .inr rfl
  · exact kept.recorded

theorem Kept.setVersion {wallet : Nep6Wallet} (kept : wallet.Kept)
    (alloc : Allocator) (version : Option CString) :
    (Nep6Wallet.setVersion alloc version wallet).2.Kept := by
  unfold Nep6Wallet.setVersion
  split
  · exact ⟨{ kept.tidy with }, kept.recorded⟩
  · split
    · exact ⟨{ kept.tidy with }, kept.recorded⟩
    · exact ⟨{ kept.tidy with }, kept.recorded⟩

/-- The array is too small only where no capacity was recorded. -/
theorem Kept.full_iff {wallet : Nep6Wallet} (kept : wallet.Kept) :
    wallet.roomy.slots ≤ wallet.accounts.length ↔
      wallet.accountCapacity = 0 ∧ 4 ≤ wallet.accounts.length := by
  have fits := kept.tidy.fits
  have recorded := kept.recorded
  rw [Nep6Wallet.roomy]
  split
  · rename_i full
    change wallet.newCapacity ≤ _ ↔ _
    rw [newCapacity]
    split
    · rename_i missing
      exact ⟨fun small => ⟨missing, small⟩, And.right⟩
    · omega
  · omega

/-- A call either leaves the wallet or hands an account on. -/
theorem perform_of_handed {wallet : Nep6Wallet} {operation : Operation}
    {alloc : Allocator} {account : Nep6Account}
    (handed :
      operation.handed derivation cipher host wallet =
        some (alloc, account)) :
    perform derivation cipher host operation wallet =
      addAccountExisting alloc account wallet := by
  cases operation with
  | setVersion alloc' version => cases handed
  | setScrypt params => cases handed
  | addAccount alloc' privateKey password label isDefault =>
      rw [Operation.handed] at handed
      split at handed
      · rename_i account' made
        injection handed with same
        injection same with sameAlloc sameAccount
        rw [perform, addAccount, Call.bind_of_ok (Call.read_run _ _), made,
          Call.lift_ok_bind, sameAlloc, sameAccount]
      · cases handed
  | addAccountExisting alloc' account' =>
      injection handed with same
      injection same with sameAlloc sameAccount
      rw [perform, sameAlloc, sameAccount]
  | removeAccount address => cases handed

variable (derivation cipher host) in
/-- A call keeps a wallet in order exactly where there is a slot for it. -/
def Settles (wallet : Nep6Wallet) (operation : Operation) : Prop :=
  (StaysTidy derivation cipher host wallet operation ↔
      FindsSlot derivation cipher host wallet operation) ∧
    (FindsSlot derivation cipher host wallet operation →
      (next derivation cipher host wallet operation).Kept)

/-- A call that keeps the wallet, and removes nothing, settles. -/
theorem settles_of_kept {wallet : Nep6Wallet} {operation : Operation}
    (within :
      ∀ alloc account,
        operation.handed derivation cipher host wallet =
            some (alloc, account) →
          (addAccountExisting alloc account wallet).1 ≠
            .error .illegalAccess)
    (slot : FindsSlot derivation cipher host wallet operation)
    (removes : ∀ address, operation ≠ .removeAccount address)
    (still : (next derivation cipher host wallet operation).Kept) :
    Settles derivation cipher host wallet operation := by
  refine ⟨iff_of_true ⟨still.tidy, within, ?_⟩ slot, fun _ => still⟩
  intro address same
  exact absurd same (removes address)

theorem staysTidy_of_handed {wallet : Nep6Wallet} (kept : wallet.Kept)
    {operation : Operation} {alloc : Allocator} {account : Nep6Account}
    (handed :
      operation.handed derivation cipher host wallet =
        some (alloc, account)) :
    Settles derivation cipher host wallet operation := by
  have ran := perform_of_handed handed
  have removes :
      ∀ address, operation ≠ .removeAccount address := by
    rintro address rfl
    cases handed
  have within
      (legal :
        (addAccountExisting alloc account wallet).1 ≠
          .error .illegalAccess)
      (alloc' : Allocator) (account' : Nep6Account)
      (handed' :
        operation.handed derivation cipher host wallet =
          some (alloc', account')) :
      (addAccountExisting alloc' account' wallet).1 ≠
        .error .illegalAccess := by
    rw [handed] at handed'
    cases handed'
    exact legal
  rcases @addAccountExisting_cases alloc account wallet with
    ⟨code, text, failed⟩ |
      ⟨address, has, unique, granted,
        ⟨full, failed⟩ | ⟨room, appended⟩⟩
  · have legal :
        (addAccountExisting alloc account wallet).1 ≠
          .error .illegalAccess := by
      rw [failed]
      intro same
      cases same
    refine settles_of_kept (within legal) ?_ removes ?_
    · -- Otherwise the write would have gone behind the slots.
      intro missing many alloc' account' handed'
      rw [handed] at handed'
      injection handed' with same
      injection same with sameAlloc sameAccount
      subst sameAlloc sameAccount
      by_contra taken
      rw [not_or, not_or] at taken
      rcases taken with ⟨hasAddress, fresh, memory⟩
      rcases Option.ne_none_iff_exists'.mp hasAddress with ⟨address, has⟩
      have capacity : wallet.newCapacity = 4 := by
        rw [newCapacity, if_pos missing]
      have grown : grow alloc wallet = (.ok (), wallet.roomy) := by
        rw [grow, if_pos (by omega), capacity, if_neg memory,
          Nep6Wallet.roomy, if_pos (by omega), capacity]
      have small := kept.full_iff.mpr ⟨missing, many⟩
      rw [addAccountExisting, has] at failed
      dsimp only at failed
      rw [Call.bind_of_ok (Call.read_run _ _), if_neg ?_,
        Call.bind_of_ok grown, Call.bind_of_ok (Call.read_run _ _),
        if_pos small] at failed
      · cases failed
      · intro present
        rcases List.any_eq_true.mp present with ⟨existing, member, same⟩
        exact fresh ⟨existing, member, by rw [has]; simpa using same⟩
    · rw [next, ran, failed]
      exact kept
  · rcases kept.full_iff.mp full with ⟨missing, many⟩
    have illegal : ¬ FindsSlot derivation cipher host wallet operation := by
      intro slot
      rcases slot missing many alloc account handed with
        none | ⟨existing, member, same⟩ | refused
      · rw [has] at none
        cases none
      · exact unique existing member (same.trans has)
      · have capacity : wallet.newCapacity = 4 := by
          rw [newCapacity, if_pos missing]
        rw [← capacity, granted (by omega)] at refused
        cases refused
    refine ⟨iff_of_false ?_ illegal, fun slot => absurd slot illegal⟩
    intro tidy
    exact tidy.within alloc account handed (by rw [failed])
  · have legal :
        (addAccountExisting alloc account wallet).1 ≠
          .error .illegalAccess := by
      rw [appended]
      intro same
      cases same
    refine settles_of_kept (within legal) ?_ removes ?_
    · intro missing many
      have full := kept.full_iff.mpr ⟨missing, many⟩
      omega
    · rw [next, ran, appended]
      exact ⟨kept.tidy.append has unique room rfl, kept.roomy⟩

/-- A call keeps a wallet in order exactly where there is a slot for it. -/
theorem staysTidy_iff {wallet : Nep6Wallet} (kept : wallet.Kept)
    (operation : Operation) :
    Settles derivation cipher host wallet operation := by
  cases handed : operation.handed derivation cipher host wallet with
  | some pair => exact staysTidy_of_handed kept handed
  | none =>
      have slot : FindsSlot derivation cipher host wallet operation := by
        intro missing many alloc account handed'
        rw [handed] at handed'
        cases handed'
      have within :
          ∀ alloc account,
            operation.handed derivation cipher host wallet =
                some (alloc, account) →
              (addAccountExisting alloc account wallet).1 ≠
                .error .illegalAccess := by
        intro alloc account handed'
        rw [handed] at handed'
        cases handed'
      cases operation with
      | setVersion alloc version =>
          refine settles_of_kept within slot (by intro _ same; cases same) ?_
          rw [next, perform]
          exact kept.setVersion alloc version
      | setScrypt params =>
          refine settles_of_kept within slot (by intro _ same; cases same) ?_
          exact ⟨{ kept.tidy with }, kept.recorded⟩
      | addAccount alloc privateKey password label isDefault =>
          have same :
              next derivation cipher host wallet
                  (.addAccount alloc privateKey password label isDefault) =
                wallet := by
            rw [Operation.handed] at handed
            split at handed
            · cases handed
            · rename_i reason failed
              rw [next, perform, addAccount,
                Call.bind_of_ok (Call.read_run _ _), failed,
                Call.lift_error_bind]
          refine settles_of_kept within slot (by intro _ same; cases same) ?_
          rw [same]
          exact kept
      | addAccountExisting alloc account => cases handed
      | removeAccount address =>
          rcases removeFrom_cases address kept.tidy.addressed with
            ⟨earlier, account, later, listed, at', removed⟩ |
              ⟨missing, code, text, failed⟩
          · have ran :
                perform derivation cipher host (.removeAccount address)
                    wallet =
                  (.ok (), { wallet with accounts := earlier ++ later }) := by
              rw [perform, removeAccount, removed]
            have fewer : (earlier ++ later).Sublist wallet.accounts := by
              rw [listed]
              exact
                (List.Sublist.refl earlier).append
                  (List.sublist_cons_self account later)
            have still :
                (next derivation cipher host wallet
                  (.removeAccount address)).Kept := by
              rw [next, ran]
              exact ⟨kept.tidy.sublist fewer, kept.recorded⟩
            refine
              ⟨iff_of_true ⟨still.tidy, within, ?_⟩ slot, fun _ => still⟩
            rintro other ⟨⟩ -
            exact ⟨earlier, account, later, listed, at', ran⟩
          · have same :
                next derivation cipher host wallet
                    (.removeAccount address) =
                  wallet := by
              rw [next, perform, removeAccount, failed]
              rfl
            rw [Settles, same]
            refine ⟨iff_of_true ⟨?_, within, ?_⟩ slot, fun _ => kept⟩
            · rw [same]
              exact kept.tidy
            · rintro other ⟨⟩ ⟨account, member, found⟩
              exact absurd found (missing account member)

/-- The address of a loaded account is the one of the file, if copied. -/
theorem address_loadedAccount_iff {library : JsonLibrary}
    {alloc : Allocator} {account : JsonTree} {address : CString} :
    (loadedAccount library alloc account).address = some address ↔
      fileAddress library account = some address ∧
        alloc.grants (address.strlen + 1) = true := by
  rw [loadedAccount]
  dsimp only
  unfold fileAddress
  generalize accountItem library account "address" = item
  unfold readText
  have other (missing : Option CString) (empty : missing = none) :
      (none : Option CString) = some address ↔
        missing = some address ∧
          alloc.grants (address.strlen + 1) = true := by
    rw [empty]
    exact iff_of_false nofun nofun
  rcases item with - | tree
  · exact other _ rfl
  cases tree with
  | string valuestring =>
      change
        (if alloc.grants (valuestring.strlen + 1) = true then
            some valuestring
          else
            none) =
            some address ↔
          some valuestring = some address ∧ _
      rw [Option.some_inj]
      by_cases granted : alloc.grants (valuestring.strlen + 1) = true
      · rw [if_pos granted, Option.some_inj]
        constructor
        · rintro rfl
          exact ⟨rfl, granted⟩
        · exact And.left
      · rw [if_neg granted]
        constructor
        · nofun
        · rintro ⟨rfl, memory⟩
          exact absurd memory granted
  | null => exact other _ rfl
  | bool value => exact other _ rfl
  | number valuedouble => exact other _ rfl
  | array items => exact other _ rfl
  | object members => exact other _ rfl

/-- With an address each, the addresses are those of the file. -/
theorem map_address_loadedAccount {library : JsonLibrary}
    {alloc : Allocator} {items : List JsonTree}
    (addressed :
      ∀ account ∈ items,
        ∃ address,
          (loadedAccount library alloc account).address = some address) :
    (items.map (loadedAccount library alloc)).map Nep6Account.address =
      items.map (fileAddress library) := by
  rw [List.map_map]
  apply List.map_congr_left
  intro account member
  rcases addressed account member with ⟨address, has⟩
  rw [Function.comp_apply, has, (address_loadedAccount_iff.mp has).1]

/-- A loaded wallet is in order exactly when its file is. -/
theorem tidy_loaded_iff {library : JsonLibrary} {alloc : Allocator}
    {jsonObj : JsonTree} {wallet : Nep6Wallet}
    (listed :
      wallet.accounts =
        (accountItems library jsonObj).map (loadedAccount library alloc))
    (slots : wallet.slots = (accountItems library jsonObj).length) :
    wallet.Tidy ↔ TidyFile library alloc jsonObj := by
  have defaults :
      wallet.accounts.countP Nep6Account.isDefault =
        (accountItems library jsonObj).countP fun account =>
          readFlag (accountItem library account "isDefault") := by
    rw [listed, List.countP_map]
    rfl
  constructor
  · intro tidy
    have addressed :
        ∀ account ∈ accountItems library jsonObj,
          ∃ address,
            (loadedAccount library alloc account).address =
              some address := by
      intro account member
      apply Option.ne_none_iff_exists'.mp
      apply tidy.addressed
      rw [listed]
      exact List.mem_map_of_mem member
    refine { addressed := ?_, distinct := ?_, oneDefault := ?_ }
    · intro account member
      rcases addressed account member with ⟨address, has⟩
      exact ⟨address, address_loadedAccount_iff.mp has⟩
    · rw [← map_address_loadedAccount addressed, ← listed]
      exact tidy.distinct
    · rw [← defaults]
      exact tidy.oneDefault
  · intro tidy
    have addressed :
        ∀ account ∈ accountItems library jsonObj,
          ∃ address,
            (loadedAccount library alloc account).address =
              some address := by
      intro account member
      rcases tidy.addressed account member with ⟨address, given⟩
      exact ⟨address, address_loadedAccount_iff.mpr given⟩
    refine
      { fits := ?_, addressed := ?_, distinct := ?_, oneDefault := ?_ }
    · rw [listed, List.length_map, slots]
    · intro account member
      rw [listed] at member
      rcases List.mem_map.mp member with ⟨item, inside, rfl⟩
      exact Option.ne_none_iff_exists'.mpr (addressed item inside)
    · rw [listed, map_address_loadedAccount addressed]
      exact tidy.distinct
    · rw [defaults]
      exact tidy.oneDefault

/-- A wallet starts in order exactly when its file is. -/
theorem load_tidy_iff {origin : Origin} {wallet : Nep6Wallet}
    (loaded : origin.load = .ok wallet) :
    (wallet.Tidy ↔ origin.TidySource) ∧ (wallet.Tidy → wallet.Kept) := by
  cases origin with
  | create alloc name version =>
      have kept : wallet.Kept := by
        rw [Origin.load, create] at loaded
        split at loaded
        · cases loaded
        split at loaded
        · cases loaded
        injection loaded with same
        subst same
        exact
          { tidy :=
              { fits := Nat.zero_le _
                addressed := List.forall_mem_nil _
                distinct := List.nodup_nil
                oneDefault := Nat.zero_le _ }
            recorded := .inr rfl }
      exact ⟨iff_of_true kept.tidy trivial, fun _ => kept⟩
  | fromJson library alloc jsonStr =>
      rcases fromJson_eq_ok loaded with ⟨jsonObj, scrypt, parsed, -, same⟩
      have tidy : wallet.Tidy ↔ TidyFile library alloc jsonObj := by
        subst same
        exact tidy_loaded_iff rfl rfl
      refine ⟨tidy.trans ⟨?_, ?_⟩, fun held => ⟨held, ?_⟩⟩
      · intro file jsonObj' parsed'
        rw [parsed] at parsed'
        injection parsed' with same
        rw [← same]
        exact file
      · intro source
        exact source jsonObj parsed
      · subst same
        exact .inl rfl

/--
A wallet is in order all along its history exactly when the file it was
loaded from is, and no account is one more in a loaded wallet of four or more
accounts that never grew.
-/
theorem tidy_history_iff
    {origin : Origin}
    {wallet : Nep6Wallet}
    (loaded : origin.load = .ok wallet)
    (operations : List Operation) :
    (wallet.Tidy ∧
        Along (next derivation cipher host)
          (StaysTidy derivation cipher host) wallet operations) ↔
      origin.TidySource ∧
        Along (next derivation cipher host)
          (FindsSlot derivation cipher host) wallet operations := by
  rcases load_tidy_iff loaded with ⟨start, begins⟩
  have along (kept : wallet.Kept) :
      Along (next derivation cipher host)
          (StaysTidy derivation cipher host) wallet operations ↔
        Along (next derivation cipher host)
          (FindsSlot derivation cipher host) wallet operations :=
    along_iff_of_invariant Kept
      (fun wallet operation held => (staysTidy_iff held operation).2)
      (fun wallet operation held => (staysTidy_iff held operation).1)
      kept operations
  constructor
  · rintro ⟨tidy, later⟩
    exact ⟨start.mp tidy, (along (begins tidy)).mp later⟩
  · rintro ⟨source, later⟩
    have tidy := start.mpr source
    exact ⟨tidy, (along (begins tidy)).mpr later⟩

end Calls

/-- An account with an address and nothing else. -/
def bareAccount (address : String) : Nep6Account where
  address := some (CString.ofString address)
  label := none
  isDefault := false
  lock := false
  key := none
  contract := none

/-- A file with one account. -/
def fileOfOne : CString :=
  CString.ofString "\x7b\"accounts\":[\x7b\"address\":\"a\"\x7d]\x7d"

/-- The wallet of that file. -/
def walletOfOne : Nep6Wallet where
  name := none
  version := none
  scrypt := { n := 0, r := 0, p := 0 }
  accounts := [bareAccount "a"]
  accountCapacity := 0
  slots := 1

/-- A file with four accounts. -/
def fileOfFour : CString :=
  CString.ofString
    ("\x7b\"accounts\":[\x7b\"address\":\"a\"\x7d," ++
      "\x7b\"address\":\"b\"\x7d,\x7b\"address\":\"c\"\x7d," ++
      "\x7b\"address\":\"d\"\x7d]\x7d")

/-- The wallet of that file. -/
def walletOfFour : Nep6Wallet where
  name := none
  version := none
  scrypt := { n := 0, r := 0, p := 0 }
  accounts :=
    [bareAccount "a", bareAccount "b", bareAccount "c", bareAccount "d"]
  accountCapacity := 0
  slots := 4

/-- Another account goes into a loaded wallet of one. -/
theorem walletOfOne_stays_tidy :
    walletOfOne.Tidy ∧
      Along (next baseDerivation neoCipher nep2Host)
        (StaysTidy baseDerivation neoCipher nep2Host) walletOfOne
        [.addAccountExisting .ample (bareAccount "b"),
          .removeAccount (CString.ofString "a")] := by
  have loaded :
      (Origin.fromJson JsonLibrary.byGrammar .ample
          fileOfOne).load =
        .ok walletOfOne := by
    decide +kernel
  have tidy : walletOfOne.Tidy := by
    decide +kernel
  refine
    (@tidy_history_iff _ baseDerivation neoCipher nep2Host _ _ loaded
      _).mpr ⟨(load_tidy_iff loaded).1.mp tidy, ?_, ?_, trivial⟩
  · intro missing many
    exact absurd many (by decide)
  · intro missing many alloc account handed
    cases handed

/-- The fifth account of a loaded wallet is written behind its array. -/
theorem walletOfFour_overruns :
    (Origin.fromJson JsonLibrary.byGrammar .ample
          fileOfFour).load =
        .ok walletOfFour ∧
      walletOfFour.Tidy ∧
      (addAccountExisting .ample (bareAccount "e")
          walletOfFour).1 =
        .error .illegalAccess ∧
      ¬ StaysTidy baseDerivation neoCipher nep2Host walletOfFour
        (.addAccountExisting .ample (bareAccount "e")) := by
  have overrun :
      (addAccountExisting .ample (bareAccount "e")
          walletOfFour).1 =
        .error .illegalAccess := by
    decide +kernel
  refine ⟨by decide +kernel, by decide +kernel, overrun, ?_⟩
  intro stays
  exact stays.within .ample (bareAccount "e") rfl overrun

end Nep6Wallet

end NeoC
