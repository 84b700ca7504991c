import NeoC.Foundation.Run
import NeoC.Wallet.AccountHistory
import NeoC.Wallet.Wallet

/-!
# Histories of a wallet

A wallet is created empty or made from a NEP-6 wallet, and then changed by
any sequence of calls, successful or not, each with its own memory.  All
along, its addresses are different, its array holds its accounts, and its
default account is one of them as long as there are any.  The invariant
speaks of the places of the accounts too: a default account is found by its
place, and no call moves an account to another one.
-/

namespace NeoC

open Foundation

namespace Wallet

variable {curve : Curve}

/-! ## The invariant -/

/-- The addresses of the accounts, in their order. -/
def addresses (wallet : Wallet curve) : List (Option CString) :=
  wallet.accounts.map HeldAccount.address

/-- The places of the accounts, in their order. -/
def pointers (wallet : Wallet curve) : List Nat :=
  wallet.accounts.map HeldAccount.pointer

/-- What every call finds and leaves. -/
structure Ordered (wallet : Wallet curve) : Prop where
  addressed : none ∉ wallet.addresses
  distinct : wallet.addresses.Nodup
  fits : wallet.accounts.length ≤ wallet.accountCapacity
  growable : 0 < wallet.accountCapacity
  places : wallet.pointers.Nodup
  below : ∀ pointer ∈ wallet.pointers, pointer < wallet.nextPointer
  defaulted :
    (wallet.defaultAccount = none ∧ wallet.accounts = []) ∨
      ∃ pointer ∈ wallet.pointers, wallet.defaultAccount = some pointer

theorem Ordered.address_ne_none {wallet : Wallet curve}
    (ordered : wallet.Ordered) :
    ∀ held ∈ wallet.accounts, held.address ≠ none := by
  intro held member missing
  exact ordered.addressed (List.mem_map.mpr ⟨held, member, missing⟩)

/--
The invariant looks at the addresses and the places only, and it is kept
where some of them are left out.
-/
theorem Ordered.of_sublist {wallet other : Wallet curve}
    (ordered : wallet.Ordered)
    (addresses : other.addresses.Sublist wallet.addresses)
    (pointers : other.pointers.Sublist wallet.pointers)
    (capacity : other.accountCapacity = wallet.accountCapacity)
    (next : other.nextPointer = wallet.nextPointer)
    (defaulted :
      (other.defaultAccount = none ∧ other.accounts = []) ∨
        ∃ pointer ∈ other.pointers, other.defaultAccount = some pointer) :
    other.Ordered := by
  have length : other.accounts.length ≤ wallet.accounts.length := by
    have shorter := pointers.length_le
    rw [Wallet.pointers, Wallet.pointers, List.length_map,
      List.length_map] at shorter
    exact shorter
  refine
    { addressed := fun missing => ordered.addressed (addresses.mem missing)
      distinct := ordered.distinct.sublist addresses
      fits := ?_
      growable := ?_
      places := ordered.places.sublist pointers
      below := ?_
      defaulted }
  · rw [capacity]
    exact length.trans ordered.fits
  · rw [capacity]
    exact ordered.growable
  · rw [next]
    intro pointer member
    exact ordered.below pointer (pointers.mem member)

/-! ## Flags -/

theorem address_setFlag (pointer : Nat) (isDefault : Bool)
    (accounts : List (HeldAccount curve)) :
    (setFlag pointer isDefault accounts).map HeldAccount.address =
      accounts.map HeldAccount.address := by
  rw [setFlag, List.map_map]
  apply List.map_congr_left
  intro held _
  rw [Function.comp_apply]
  split
  · rfl
  · rfl

theorem pointer_setFlag (pointer : Nat) (isDefault : Bool)
    (accounts : List (HeldAccount curve)) :
    (setFlag pointer isDefault accounts).map HeldAccount.pointer =
      accounts.map HeldAccount.pointer := by
  rw [setFlag, List.map_map]
  apply List.map_congr_left
  intro held _
  rw [Function.comp_apply]
  split
  · rfl
  · rfl

/-! ## Finding accounts -/

/-- Looking an address up finds an account at it, or there is none. -/
theorem findAddress_cases (address : CString)
    {accounts : List (HeldAccount curve)}
    (addressed : ∀ held ∈ accounts, held.address ≠ none) :
    (findAddress address accounts = .ok none ∧
        ∀ held ∈ accounts, held.address ≠ some address) ∨
      ∃ held ∈ accounts,
        held.address = some address ∧
          findAddress address accounts = .ok (some held) := by
  induction accounts with
  | nil => exact .inl ⟨rfl, List.forall_mem_nil _⟩
  | cons held rest induction =>
      rcases List.forall_mem_cons.mp addressed with ⟨first, others⟩
      rcases Option.ne_none_iff_exists'.mp first with ⟨found, has⟩
      rw [findAddress, has]
      dsimp only
      by_cases same : found = address
      · rw [if_pos same]
        refine .inr ⟨held, List.mem_cons_self, ?_, rfl⟩
        rw [has, same]
      · rw [if_neg same]
        rcases induction others with
          ⟨absent, missing⟩ | ⟨account, member, at', ran⟩
        · refine .inl ⟨absent, List.forall_mem_cons.mpr ⟨?_, missing⟩⟩
          rw [has]
          exact fun equal => same (Option.some.inj equal)
        · exact .inr ⟨account, List.mem_cons_of_mem _ member, at', ran⟩

/-- Splitting at an address finds an account at it, or there is none. -/
theorem splitAddress_cases (address : CString)
    {accounts : List (HeldAccount curve)}
    (addressed : ∀ held ∈ accounts, held.address ≠ none) :
    (∃ earlier held later,
        accounts = earlier ++ held :: later ∧
          held.address = some address ∧
          splitAddress address accounts = .ok (earlier, held, later)) ∨
      (∀ held ∈ accounts, held.address ≠ some address) ∧
        ∃ code text,
          splitAddress address accounts = .error (.error code text) := by
  induction accounts with
  | nil => exact .inr ⟨List.forall_mem_nil _, _, _, rfl⟩
  | cons held rest induction =>
      rcases List.forall_mem_cons.mp addressed with ⟨first, others⟩
      rcases Option.ne_none_iff_exists'.mp first with ⟨found, has⟩
      rw [splitAddress, has]
      dsimp only
      by_cases same : found = address
      · rw [if_pos same]
        refine .inl ⟨[], held, rest, rfl, ?_, rfl⟩
        rw [has, same]
      · rw [if_neg same]
        rcases induction others with
          ⟨earlier, account, later, rfl, at', ran⟩ |
            ⟨missing, code, text, failed⟩
        · refine .inl ⟨held :: earlier, account, later, rfl, at', ?_⟩
          rw [ran]
          rfl
        · refine .inr ⟨?_, code, text, ?_⟩
          · refine List.forall_mem_cons.mpr ⟨?_, missing⟩
            rw [has]
            exact fun equal => same (Option.some.inj equal)
          · rw [failed]
            rfl

/-- An account is found by its place. -/
theorem find_pointer {accounts : List (HeldAccount curve)}
    (places : (accounts.map HeldAccount.pointer).Nodup)
    {held : HeldAccount curve} (member : held ∈ accounts) :
    (accounts.find? fun other => other.pointer = held.pointer) =
      some held := by
  induction accounts with
  | nil => cases member
  | cons first rest induction =>
      rw [List.map_cons, List.nodup_cons] at places
      rcases List.mem_cons.mp member with rfl | within
      · exact List.find?_cons_of_pos (by simp)
      · have different : first.pointer ≠ held.pointer := by
          intro same
          rw [same] at places
          exact places.1 (List.mem_map_of_mem within)
        rw [List.find?_cons_of_neg (by simpa using different)]
        exact induction places.2 within

/-- By the address of a hash the same account is found as by the hash. -/
theorem findAddress_addressText {host : Host}
    (initialized : host.cryptoInitialized = true) (scriptHash : Hash160)
    {accounts : List (HeldAccount curve)}
    (derived :
      ∀ held ∈ accounts,
        held.address = some (held.account.scriptHash.addressText host)) :
    findAddress (scriptHash.addressText host) accounts =
      .ok
        (accounts.find? fun held =>
          held.account.scriptHash = scriptHash) := by
  induction accounts with
  | nil => rfl
  | cons held rest induction =>
      rcases List.forall_mem_cons.mp derived with ⟨first, others⟩
      rw [findAddress, first]
      dsimp only
      by_cases same : held.account.scriptHash = scriptHash
      · rw [if_pos (by rw [same]), List.find?_cons_of_pos (by simp [same])]
      · have different :
            held.account.scriptHash.addressText host ≠
              scriptHash.addressText host :=
          fun equal =>
            same (Hash160.addressText_injective initialized equal)
        rw [if_neg different, List.find?_cons_of_neg (by simp [same]),
          induction others]

/-! ## What the calls do -/

theorem checkAbsent_cases {wallet : Wallet curve}
    (ordered : wallet.Ordered) {account : WalletAccount curve}
    {address : CString} (has : account.address = some address) :
    (checkAbsent account wallet.accounts = .ok () ∧
        ∀ held ∈ wallet.accounts, held.address ≠ some address) ∨
      (∃ held ∈ wallet.accounts, held.address = some address) ∧
        ∃ code text,
          checkAbsent account wallet.accounts =
            .error (.error code text) := by
  rcases findAddress_cases address ordered.address_ne_none with
    ⟨absent, missing⟩ | ⟨held, member, at', found⟩
  · refine .inl ⟨?_, missing⟩
    rw [checkAbsent.eq_def, has]
    cases listed : wallet.accounts with
    | nil => rfl
    | cons first rest =>
        rw [listed] at absent
        exact Except.bind_eq_ok_iff.mpr ⟨none, absent, rfl⟩
  · refine
      .inr
        ⟨⟨held, member, at'⟩, .invalidState,
          "Account already exists in wallet", ?_⟩
    rw [checkAbsent.eq_def, has]
    cases listed : wallet.accounts with
    | nil =>
        rw [listed] at member
        cases member
    | cons first rest =>
        rw [listed] at found
        dsimp only
        rw [found]
        rfl

/-- There is room for one more account, or memory to make room. -/
def HasRoom (alloc : Allocator) (wallet : Wallet curve) : Prop :=
  wallet.accountCapacity ≤ wallet.accounts.length →
    alloc.grants (wallet.accountCapacity * 2 * pointerSize) = true

theorem grow_cases {wallet : Wallet curve} (ordered : wallet.Ordered)
    (alloc : Allocator) :
    (¬ wallet.HasRoom alloc ∧
        ∃ code text,
          grow alloc wallet = (.error (.error code text), wallet)) ∨
      wallet.HasRoom alloc ∧
        ∃ capacity,
          wallet.accounts.length < capacity ∧
            grow alloc wallet =
              (.ok (), { wallet with accountCapacity := capacity }) := by
  have fits := ordered.fits
  have growable := ordered.growable
  unfold grow HasRoom
  split
  · rename_i full
    split
    · rename_i refused
      refine .inl ⟨?_, _, _, rfl⟩
      intro granted
      rw [granted full] at refused
      cases refused
    · rename_i granted
      refine .inr ⟨fun _ => ?_, _, ?_, rfl⟩
      · exact Bool.eq_true_of_not_eq_false granted
      · omega
  · rename_i room
    refine .inr ⟨fun full => absurd full room, _, ?_, rfl⟩
    exact Nat.lt_of_not_le room

/-- No account is at the address, and there is room for one that is. -/
structure Takes (alloc : Allocator) (address : CString)
    (wallet : Wallet curve) : Prop where
  missing : ∀ held ∈ wallet.accounts, held.address ≠ some address
  hasRoom : wallet.HasRoom alloc

/-- Everything that adding an account can do. -/
theorem addAccount_cases {wallet : Wallet curve} (ordered : wallet.Ordered)
    {account : WalletAccount curve} {address : CString}
    (has : account.address = some address) (alloc : Allocator) :
    (¬ wallet.Takes alloc address ∧
        ∃ code text,
          addAccount alloc account wallet =
            (.error (.error code text), wallet)) ∨
      wallet.Takes alloc address ∧
        ∃ capacity,
          wallet.accounts.length < capacity ∧
            addAccount alloc account wallet =
              (.ok (),
                push account
                  { wallet with accountCapacity := capacity }) := by
  generalize ran : addAccount alloc account wallet = result
  rw [addAccount, Call.bind_of_ok (Call.read_run _ _)] at ran
  rcases checkAbsent_cases ordered has with
    ⟨absent, missing⟩ | ⟨⟨held, member, at'⟩, code, text, present⟩
  · rw [absent, Call.lift_ok_bind] at ran
    rcases grow_cases ordered alloc with
      ⟨full, code, text, refused⟩ | ⟨hasRoom, capacity, room, grown⟩
    · rw [Call.bind_of_error refused] at ran
      refine .inl ⟨?_, code, text, ran.symm⟩
      intro takes
      exact full takes.hasRoom
    · rw [Call.bind_of_ok grown] at ran
      exact .inr ⟨⟨missing, hasRoom⟩, capacity, room, ran.symm⟩
  · rw [present, Call.lift_error_bind] at ran
    refine .inl ⟨?_, code, text, ran.symm⟩
    intro takes
    exact takes.missing held member at'

theorem push_first {wallet : Wallet curve} (empty : wallet.accounts = [])
    (account : WalletAccount curve) :
    push account wallet =
      { wallet with
        accounts :=
          [HeldAccount.flagged true
            { pointer := wallet.nextPointer, account }]
        defaultAccount := some wallet.nextPointer
        nextPointer := wallet.nextPointer + 1 } := by
  rw [push, empty]
  rfl

theorem push_more {wallet : Wallet curve} (some : wallet.accounts ≠ [])
    (account : WalletAccount curve) :
    push account wallet =
      { wallet with
        accounts :=
          wallet.accounts ++ [{ pointer := wallet.nextPointer, account }]
        nextPointer := wallet.nextPointer + 1 } := by
  have positive := List.length_pos_iff.mpr some
  rw [push]
  dsimp only
  rw [if_neg]
  rw [List.length_append, List.length_singleton]
  omega

theorem addresses_push (wallet : Wallet curve)
    (account : WalletAccount curve) :
    (push account wallet).addresses =
      wallet.addresses ++ [account.address] := by
  by_cases empty : wallet.accounts = []
  · rw [push_first empty, addresses, addresses, empty]
    rfl
  · rw [push_more empty, addresses, addresses, List.map_append]
    rfl

theorem pointers_push (wallet : Wallet curve)
    (account : WalletAccount curve) :
    (push account wallet).pointers =
      wallet.pointers ++ [wallet.nextPointer] := by
  by_cases empty : wallet.accounts = []
  · rw [push_first empty, pointers, pointers, empty]
    rfl
  · rw [push_more empty, pointers, pointers, List.map_append]
    rfl

theorem nextPointer_push (wallet : Wallet curve)
    (account : WalletAccount curve) :
    (push account wallet).nextPointer = wallet.nextPointer + 1 := by
  by_cases empty : wallet.accounts = []
  · rw [push_first empty]
  · rw [push_more empty]

theorem accountCapacity_push (wallet : Wallet curve)
    (account : WalletAccount curve) :
    (push account wallet).accountCapacity = wallet.accountCapacity := by
  by_cases empty : wallet.accounts = []
  · rw [push_first empty]
  · rw [push_more empty]

theorem length_pointers (wallet : Wallet curve) :
    wallet.pointers.length = wallet.accounts.length := by
  rw [pointers, List.length_map]

theorem Ordered.grown {wallet : Wallet curve} (ordered : wallet.Ordered)
    {capacity : Nat} (room : wallet.accounts.length < capacity) :
    Ordered { wallet with accountCapacity := capacity } :=
  { ordered with
    fits := Nat.le_of_lt room
    growable := Nat.zero_lt_of_lt room }

/-- A wallet with one more account stays ordered. -/
theorem Ordered.push {wallet : Wallet curve} (ordered : wallet.Ordered)
    {account : WalletAccount curve} {address : CString}
    (has : account.address = some address)
    (missing : ∀ held ∈ wallet.accounts, held.address ≠ some address)
    {capacity : Nat} (room : wallet.accounts.length < capacity) :
    (Wallet.push account
      { wallet with accountCapacity := capacity }).Ordered := by
  have addresses :
      (Wallet.push account
          { wallet with accountCapacity := capacity }).addresses =
        wallet.addresses ++ [some address] := by
    rw [addresses_push, has]
    rfl
  have pointers :
      (Wallet.push account
          { wallet with accountCapacity := capacity }).pointers =
        wallet.pointers ++ [wallet.nextPointer] :=
    pointers_push _ account
  refine
    { addressed := ?_, distinct := ?_, fits := ?_, growable := ?_,
      places := ?_, below := ?_, defaulted := ?_ }
  · rw [addresses, List.mem_append, not_or]
    exact ⟨ordered.addressed, by simp⟩
  · rw [addresses, List.nodup_append]
    refine ⟨ordered.distinct, List.nodup_singleton _, ?_⟩
    intro earlier member last final same
    rcases List.mem_map.mp member with ⟨held, before, rfl⟩
    rw [List.mem_singleton.mp final] at same
    exact missing held before same
  · rw [← length_pointers, pointers, List.length_append, length_pointers,
      accountCapacity_push]
    exact room
  · rw [accountCapacity_push]
    exact Nat.zero_lt_of_lt room
  · rw [pointers, List.nodup_append]
    refine ⟨ordered.places, List.nodup_singleton _, ?_⟩
    intro earlier member last final same
    rw [List.mem_singleton.mp final] at same
    exact absurd (ordered.below earlier member) (by omega)
  · rw [pointers, nextPointer_push]
    intro pointer member
    rcases List.mem_append.mp member with before | last
    · exact Nat.lt_succ_of_lt (ordered.below pointer before)
    · rw [List.mem_singleton.mp last]
      exact Nat.lt_succ_self _
  · right
    rw [pointers]
    rcases ordered.defaulted with
      ⟨-, empty⟩ | ⟨pointer, member, default⟩
    · refine ⟨wallet.nextPointer, by simp, ?_⟩
      rw [@push_first curve { wallet with accountCapacity := capacity }
        empty account]
    · have some : wallet.accounts ≠ [] := by
        intro empty
        rw [Wallet.pointers, empty] at member
        cases member
      refine ⟨pointer, List.mem_append_left _ member, ?_⟩
      rw [@push_more curve { wallet with accountCapacity := capacity }
        some account]
      exact default

/-! ## Removing accounts -/

theorem addresses_inherit (others : List (HeldAccount curve))
    (wallet : Wallet curve) :
    (inherit others wallet).addresses =
      others.map HeldAccount.address := by
  cases others with
  | nil => rfl
  | cons first rest => rfl

theorem pointers_inherit (others : List (HeldAccount curve))
    (wallet : Wallet curve) :
    (inherit others wallet).pointers =
      others.map HeldAccount.pointer := by
  cases others with
  | nil => rfl
  | cons first rest => rfl

/-- Everything that removing an account can do. -/
theorem removeAccount_cases {wallet : Wallet curve}
    (ordered : wallet.Ordered) (address : CString) :
    (∃ code text,
        removeAccount address wallet =
          (.error (.error code text), wallet)) ∨
      ∃ earlier held later,
        wallet.accounts = earlier ++ held :: later ∧
          held.address = some address ∧
          ((wallet.defaultAccount = some held.pointer ∧
              removeAccount address wallet =
                (.ok (), inherit (earlier ++ later) wallet)) ∨
            (wallet.defaultAccount ≠ some held.pointer ∧
              removeAccount address wallet =
                (.ok (),
                  { wallet with accounts := earlier ++ later }))) := by
  generalize ran : removeAccount address wallet = result
  rw [removeAccount] at ran
  rcases splitAddress_cases address ordered.address_ne_none with
    ⟨earlier, held, later, shape, has, found⟩ | ⟨-, code, text, failed⟩
  · right
    refine ⟨earlier, held, later, shape, has, ?_⟩
    rw [found] at ran
    by_cases default : wallet.defaultAccount = some held.pointer
    · dsimp only at ran
      rw [if_pos default] at ran
      exact .inl ⟨default, ran.symm⟩
    · dsimp only at ran
      rw [if_neg default] at ran
      exact .inr ⟨default, ran.symm⟩
  · rw [failed] at ran
    exact .inl ⟨code, text, ran.symm⟩

/-- Without the default account, the first one that is left is it. -/
theorem Ordered.inherit {wallet : Wallet curve} (ordered : wallet.Ordered)
    {earlier later : List (HeldAccount curve)} {held : HeldAccount curve}
    (shape : wallet.accounts = earlier ++ held :: later) :
    (Wallet.inherit (earlier ++ later) wallet).Ordered := by
  have sublist : (earlier ++ later).Sublist wallet.accounts := by
    rw [shape]
    exact (List.sublist_cons_self held later).append_left earlier
  refine
    @Ordered.of_sublist curve wallet
      (Wallet.inherit (earlier ++ later) wallet) ordered ?_ ?_ ?_ ?_ ?_
  · rw [addresses_inherit]
    exact sublist.map _
  · rw [pointers_inherit]
    exact sublist.map _
  · cases earlier ++ later with
    | nil => rfl
    | cons first rest => rfl
  · cases earlier ++ later with
    | nil => rfl
    | cons first rest => rfl
  · cases earlier ++ later with
    | nil => exact .inl ⟨rfl, rfl⟩
    | cons first rest =>
        exact .inr ⟨first.pointer, List.mem_cons_self, rfl⟩

/-- Without another account, the default one is still there. -/
theorem Ordered.remove {wallet : Wallet curve} (ordered : wallet.Ordered)
    {earlier later : List (HeldAccount curve)} {held : HeldAccount curve}
    (shape : wallet.accounts = earlier ++ held :: later)
    (other : wallet.defaultAccount ≠ some held.pointer) :
    Ordered { wallet with accounts := earlier ++ later } := by
  have sublist : (earlier ++ later).Sublist wallet.accounts := by
    rw [shape]
    exact (List.sublist_cons_self held later).append_left earlier
  refine
    ordered.of_sublist (sublist.map _) (sublist.map _) rfl rfl (.inr ?_)
  rcases ordered.defaulted with ⟨-, empty⟩ | ⟨pointer, member, default⟩
  · rw [empty] at shape
    exact absurd shape.symm (by simp)
  · refine ⟨pointer, ?_, default⟩
    rw [Wallet.pointers, shape, List.map_append, List.map_cons,
      List.mem_append, List.mem_cons] at member
    rw [Wallet.pointers, List.map_append, List.mem_append]
    rcases member with before | rfl | behind
    · exact .inl before
    · exact absurd default other
    · exact .inr behind

/-! ## Setting the default account -/

/-- The wallet with the default account moved from one place to another. -/
def redirect (old new : Nat) (wallet : Wallet curve) : Wallet curve :=
  { wallet with
    accounts := setFlag new true (setFlag old false wallet.accounts)
    defaultAccount := some new }

theorem addresses_redirect (old new : Nat) (wallet : Wallet curve) :
    (redirect old new wallet).addresses = wallet.addresses := by
  rw [addresses, redirect, address_setFlag, address_setFlag, addresses]

theorem pointers_redirect (old new : Nat) (wallet : Wallet curve) :
    (redirect old new wallet).pointers = wallet.pointers := by
  rw [pointers, redirect, pointer_setFlag, pointer_setFlag, pointers]

/-- Everything that setting the default account by an address can do. -/
theorem setDefaultAccountStr_cases {wallet : Wallet curve}
    (ordered : wallet.Ordered) (address : CString) :
    ((∀ held ∈ wallet.accounts, held.address ≠ some address) ∧
        ∃ code text,
          setDefaultAccountStr address wallet =
            (.error (.error code text), wallet)) ∨
      ∃ held ∈ wallet.accounts,
        held.address = some address ∧
          ∃ old,
            wallet.defaultAccount = some old ∧
              setDefaultAccountStr address wallet =
                (.ok (), redirect old held.pointer wallet) := by
  generalize ran : setDefaultAccountStr address wallet = result
  rw [setDefaultAccountStr, Call.bind_of_ok (Call.read_run _ _)] at ran
  rcases findAddress_cases address ordered.address_ne_none with
    ⟨absent, missing⟩ | ⟨held, member, has, found⟩
  · rw [absent, Call.lift_ok_bind] at ran
    exact .inl ⟨missing, _, _, ran.symm⟩
  · rw [found, Call.lift_ok_bind] at ran
    rcases ordered.defaulted with ⟨-, empty⟩ | ⟨old, present, default⟩
    · rw [empty] at member
      cases member
    · right
      refine ⟨held, member, has, old, default, ?_⟩
      have cleared :
          clearDefault wallet =
            (.ok (),
              { wallet with
                accounts := setFlag old false wallet.accounts }) := by
        rw [clearDefault, default]
        dsimp only
        rw [if_pos]
        rcases List.mem_map.mp present with ⟨other, within, rfl⟩
        exact List.any_eq_true.mpr ⟨other, within, by simp⟩
      dsimp only at ran
      rw [Call.bind_of_ok cleared] at ran
      rw [← ran]
      rfl

theorem Ordered.redirect {wallet : Wallet curve} (ordered : wallet.Ordered)
    (old : Nat) {held : HeldAccount curve}
    (member : held ∈ wallet.accounts) :
    (Wallet.redirect old held.pointer wallet).Ordered := by
  refine
    @Ordered.of_sublist curve wallet
      (Wallet.redirect old held.pointer wallet) ordered ?_ ?_ rfl rfl
      (.inr ⟨held.pointer, ?_, rfl⟩)
  · rw [addresses_redirect]
  · rw [pointers_redirect]
  · rw [pointers_redirect]
    exact List.mem_map_of_mem member

/-! ## Everything that a call can do -/

/-- The ways a wallet is changed by a call that may add some accounts. -/
inductive Change (offered : WalletAccount curve → Prop)
    (wallet : Wallet curve) : Wallet curve → Prop where
  | kept : Change offered wallet wallet
  | added {account : WalletAccount curve} {address : CString}
      {capacity : Nat}
      (given : offered account)
      (has : account.address = some address)
      (missing : ∀ held ∈ wallet.accounts, held.address ≠ some address)
      (room : wallet.accounts.length < capacity) :
      Change offered wallet
        (push account { wallet with accountCapacity := capacity })
  | removedDefault {earlier later : List (HeldAccount curve)}
      {held : HeldAccount curve}
      (shape : wallet.accounts = earlier ++ held :: later)
      (default : wallet.defaultAccount = some held.pointer) :
      Change offered wallet (inherit (earlier ++ later) wallet)
  | removedOther {earlier later : List (HeldAccount curve)}
      {held : HeldAccount curve}
      (shape : wallet.accounts = earlier ++ held :: later)
      (other : wallet.defaultAccount ≠ some held.pointer) :
      Change offered wallet { wallet with accounts := earlier ++ later }
  | redirected {old : Nat} {held : HeldAccount curve}
      (default : wallet.defaultAccount = some old)
      (member : held ∈ wallet.accounts) :
      Change offered wallet (redirect old held.pointer wallet)

/-- A call that fails leaves the wallet alone, and any call changes it so. -/
structure Disciplined (offered : WalletAccount curve → Prop)
    (call : Routine (Wallet curve) Bool) (wallet : Wallet curve) :
    Prop where
  failure : (call wallet).1 ≠ .ok true → (call wallet).2 = wallet
  change : Change offered wallet (call wallet).2

section Changes

variable {offered : WalletAccount curve → Prop} {wallet : Wallet curve}

theorem Change.ordered {changed : Wallet curve}
    (change : Change offered wallet changed) (ordered : wallet.Ordered) :
    changed.Ordered := by
  cases change with
  | kept => exact ordered
  | added given has missing room => exact ordered.push has missing room
  | removedDefault shape default => exact ordered.inherit shape
  | removedOther shape other => exact ordered.remove shape other
  | redirected default member => exact ordered.redirect _ member

theorem Disciplined.of_failed {call : Routine (Wallet curve) Bool}
    {result : Outcome Bool} (ran : call wallet = (result, wallet)) :
    Disciplined offered call wallet := by
  refine ⟨?_, ?_⟩
  · intro _
    rw [ran]
  · rw [ran]
    exact .kept

theorem Disciplined.of_changed {call : Routine (Wallet curve) Bool}
    {changed : Wallet curve} (ran : call wallet = (.ok true, changed))
    (change : Change offered wallet changed) :
    Disciplined offered call wallet := by
  refine ⟨?_, ?_⟩
  · intro failed
    rw [ran] at failed
    exact absurd rfl failed
  · rw [ran]
    exact change

/-- A call that returns a code, as one that tells whether it succeeded. -/
def succeeds (call : Routine (Wallet curve) Unit) :
    Routine (Wallet curve) Bool := do
  call
  pure true

theorem addAccount_disciplined (ordered : wallet.Ordered)
    {account : WalletAccount curve}
    {address : CString} (has : account.address = some address)
    (alloc : Allocator) :
    Disciplined (fun offer => offer = account)
      (succeeds (addAccount alloc account)) wallet := by
  rcases addAccount_cases ordered has alloc with
    ⟨-, code, text, failed⟩ | ⟨takes, capacity, room, ran⟩
  · exact .of_failed (Call.bind_of_error failed)
  · exact .of_changed (Call.bind_of_ok ran) (.added rfl has takes.missing room)

theorem removeAccount_disciplined
    (ordered : wallet.Ordered) (address : CString) :
    Disciplined offered (succeeds (removeAccount address)) wallet := by
  rcases removeAccount_cases ordered address with
    ⟨code, text, failed⟩ |
      ⟨earlier, held, later, shape, -, ⟨default, ran⟩ | ⟨other, ran⟩⟩
  · exact .of_failed (Call.bind_of_error failed)
  · exact
      .of_changed (Call.bind_of_ok ran) (.removedDefault shape default)
  · exact .of_changed (Call.bind_of_ok ran) (.removedOther shape other)

theorem setDefaultAccountStr_disciplined
    (ordered : wallet.Ordered) (address : CString) :
    Disciplined offered (succeeds (setDefaultAccountStr address)) wallet := by
  rcases setDefaultAccountStr_cases ordered address with
    ⟨-, code, text, failed⟩ | ⟨held, member, -, old, default, ran⟩
  · exact .of_failed (Call.bind_of_error failed)
  · exact
      .of_changed (Call.bind_of_ok ran) (.redirected default member)

theorem setDefaultAccountHash_disciplined
    (ordered : wallet.Ordered) (host : Host) (alloc : Allocator)
    (scriptHash : Hash160) :
    Disciplined offered
      (succeeds (setDefaultAccountHash host alloc scriptHash)) wallet := by
  cases addressed :
      Hash160.toAddress host alloc scriptHash
        WalletAccount.addressLength with
  | error reason =>
      have failed :
          setDefaultAccountHash host alloc scriptHash wallet =
            (.error reason, wallet) := by
        rw [setDefaultAccountHash, addressed, Call.lift_error_bind]
      exact .of_failed (Call.bind_of_error failed)
  | ok address =>
      have same :
          setDefaultAccountHash host alloc scriptHash wallet =
            setDefaultAccountStr address wallet := by
        rw [setDefaultAccountHash, addressed, Call.lift_ok_bind]
      rcases setDefaultAccountStr_cases ordered address with
        ⟨-, code, text, failed⟩ | ⟨held, member, -, old, default, ran⟩
      · exact .of_failed (Call.bind_of_error (same.trans failed))
      · exact
          .of_changed (Call.bind_of_ok (same.trans ran))
            (.redirected default member)

theorem setDefaultAccountAccount_disciplined
    (ordered : wallet.Ordered) (host : Host) (alloc : Allocator)
    (account : WalletAccount curve) :
    Disciplined offered
      (succeeds (setDefaultAccountAccount host alloc account)) wallet := by
  unfold setDefaultAccountAccount
  split
  · exact
      setDefaultAccountHash_disciplined ordered host alloc
        account.scriptHash
  · exact setDefaultAccountStr_disciplined ordered _

/-- An account that was made is added, if it can be. -/
theorem adopt_disciplined
    (ordered : wallet.Ordered) (alloc : Allocator)
    {made : Outcome (WalletAccount curve)}
    (addressed :
      ∀ account, made = .ok account →
        ∃ address, account.address = some address) :
    Disciplined (fun offer => made = .ok offer) (adopt alloc made)
      wallet := by
  cases made with
  | error reason =>
      cases reason with
      | error code text => exact .of_failed rfl
      | illegalAccess => exact .of_failed rfl
      | signedOverflow => exact .of_failed rfl
      | divergence => exact .of_failed rfl
  | ok account =>
      rcases addressed account rfl with ⟨address, has⟩
      rcases addAccount_cases ordered has alloc with
        ⟨-, code, text, failed⟩ | ⟨takes, capacity, room, ran⟩
      · apply Disciplined.of_failed
        rw [adopt, failed]
      · refine Disciplined.of_changed ?_ (.added rfl has takes.missing room)
        rw [adopt, ran]

end Changes

/-! ## Where a wallet comes from -/

/-- How a wallet is obtained. -/
inductive Origin where
  | create (alloc : Allocator) (name : Option CString)
  | fromNep6 (alloc : Allocator) (nep6Wallet : Nep6Wallet)

/-- The call that obtains it. -/
def Origin.load (host : Host) : Origin → Outcome (Wallet curve)
  | .create alloc name => Wallet.create alloc name
  | .fromNep6 alloc nep6Wallet => Wallet.fromNep6 host alloc nep6Wallet

/-- A wallet with no accounts, as it is created. -/
structure Empty (wallet : Wallet curve) : Prop where
  accounts : wallet.accounts = []
  accountCapacity : wallet.accountCapacity = initialAccountCapacity
  defaultAccount : wallet.defaultAccount = none

theorem create_empty {alloc : Allocator} {name : Option CString}
    {wallet : Wallet curve} (created : create alloc name = .ok wallet) :
    wallet.Empty := by
  rw [create] at created
  split at created
  · cases created
  rcases Except.bind_eq_ok_iff.mp created with ⟨name', -, rest⟩
  split at rest
  · cases rest
  split at rest
  · cases rest
  injection rest with same
  subst same
  exact ⟨rfl, rfl, rfl⟩

theorem Empty.ordered {wallet : Wallet curve} (empty : wallet.Empty) :
    wallet.Ordered := by
  have addresses : wallet.addresses = [] := by
    rw [Wallet.addresses, empty.accounts, List.map_nil]
  have pointers : wallet.pointers = [] := by
    rw [Wallet.pointers, empty.accounts, List.map_nil]
  refine
    { addressed := ?_, distinct := ?_, fits := ?_, growable := ?_,
      places := ?_, below := ?_,
      defaulted := .inl ⟨empty.defaultAccount, empty.accounts⟩ }
  · rw [addresses]
    exact List.not_mem_nil
  · rw [addresses]
    exact List.nodup_nil
  · rw [empty.accounts]
    exact Nat.zero_le _
  · rw [empty.accountCapacity]
    decide
  · rw [pointers]
    exact List.nodup_nil
  · rw [pointers]
    exact List.forall_mem_nil _

/-- An account of a NEP-6 wallet has an address. -/
theorem address_fromNep6 {host : Host} {alloc : Allocator}
    {nep6Account : Nep6Account} {account : WalletAccount curve}
    (read : WalletAccount.fromNep6 host alloc nep6Account = .ok account) :
    account.address =
        some (account.scriptHash.addressText host) ∧
      host.cryptoInitialized = true := by
  rcases WalletAccount.fromNep6_eq_ok read with
    ⟨address, scriptHash, -, parsed, rfl⟩
  rcases Hash160.fromAddress_eq_ok parsed with ⟨rfl, initialized⟩
  exact ⟨rfl, initialized⟩

theorem ignoring_ordered {wallet : Wallet curve}
    {call : Routine (Wallet curve) Unit}
    {offered : WalletAccount curve → Prop}
    (disciplined : Disciplined offered (succeeds call) wallet)
    (ordered : wallet.Ordered) :
    (ignoring call wallet).2.Ordered := by
  have kept := disciplined.change.ordered ordered
  rw [succeeds] at kept
  rw [ignoring]
  rcases ran : call wallet with ⟨outcome, left⟩
  have after : left.Ordered := by
    cases outcome with
    | error reason =>
        rw [Call.bind_of_error ran] at kept
        exact kept
    | ok value =>
        rw [Call.bind_of_ok ran] at kept
        exact kept
  split
  · rename_i same
    injection same with _ state
    rw [← state]
    exact after
  · exact after

/-- Every account that is loaded leaves the wallet ordered. -/
theorem loadAccount_ordered {wallet : Wallet curve}
    (ordered : wallet.Ordered) (host : Host) (alloc : Allocator)
    (nep6Account : Nep6Account) :
    (loadAccount host alloc nep6Account wallet).2.Ordered := by
  rw [loadAccount]
  cases read :
      (WalletAccount.fromNep6 host alloc nep6Account :
        Outcome (WalletAccount curve)) with
  | error reason =>
      rw [Call.lift_error_bind]
      exact ordered
  | ok account =>
      rw [Call.lift_ok_bind]
      have has := (address_fromNep6 read).1
      rcases addAccount_cases ordered has alloc with
        ⟨-, code, text, failed⟩ | ⟨takes, capacity, room, ran⟩
      · rw [Call.bind_of_error failed]
        exact ordered
      · rw [Call.bind_of_ok ran, Call.bind_of_ok (Call.read_run _ _)]
        have added := ordered.push has takes.missing room
        generalize push account { wallet with accountCapacity := capacity } =
          pushed at added ⊢
        cases pushed.accounts.getLast? with
        | none => exact added
        | some held =>
            dsimp only
            split
            · have disciplined :
                  Disciplined (fun _ => False)
                    (succeeds
                      (setDefaultAccountAccount host alloc held.account))
                    pushed :=
                setDefaultAccountAccount_disciplined added host alloc _
              exact ignoring_ordered disciplined added
            · exact added

/-- A wallet that is read is filled account by account. -/
theorem fromNep6_cases (host : Host) (alloc : Allocator)
    (nep6Wallet : Nep6Wallet) :
    (∃ reason,
        (create alloc nep6Wallet.name : Outcome (Wallet curve)) =
            .error reason ∧
          (fromNep6 host alloc nep6Wallet : Outcome (Wallet curve)) =
            .error reason) ∨
      ∃ start : Wallet curve,
        start.Empty ∧
          ∀ final,
            fromNep6 host alloc nep6Wallet = .ok final ↔
              Call.forEach (loadAccount host alloc) nep6Wallet.accounts
                  start =
                (.ok (), final) := by
  cases created :
      (create alloc nep6Wallet.name : Outcome (Wallet curve)) with
  | error reason =>
      refine .inl ⟨reason, rfl, ?_⟩
      rw [fromNep6, created]
      rfl
  | ok start =>
      right
      have empty := create_empty created
      cases copied :
          nep6Wallet.version.bind (WalletAccount.strdup alloc) with
      | none =>
          refine ⟨start, empty, ?_⟩
          intro final
          rw [fromNep6, created, copied]
          exact Call.eval_state_eq_ok_iff
      | some version =>
          refine
            ⟨{ start with version := some version },
              ⟨empty.accounts, empty.accountCapacity,
                empty.defaultAccount⟩,
              ?_⟩
          intro final
          rw [fromNep6, created, copied]
          exact Call.eval_state_eq_ok_iff

theorem load_ordered {host : Host} {origin : Origin}
    {wallet : Wallet curve} (loaded : origin.load host = .ok wallet) :
    wallet.Ordered := by
  cases origin with
  | create alloc name => exact (create_empty loaded).ordered
  | fromNep6 alloc nep6Wallet =>
      rcases @fromNep6_cases curve host alloc nep6Wallet with
        ⟨reason, -, failed⟩ | ⟨start, empty, exact'⟩
      · rw [Origin.load, failed] at loaded
        cases loaded
      have ran := (exact' wallet).mp loaded
      have step
          (done : List Nep6Account) (nep6Account : Nep6Account)
          (rest : List Nep6Account) (before after : Wallet curve)
          (_ : nep6Wallet.accounts = done ++ nep6Account :: rest)
          (ordered : before.Ordered)
          (loaded :
            loadAccount host alloc nep6Account before = (.ok (), after)) :
          after.Ordered := by
        have kept := loadAccount_ordered ordered host alloc nep6Account
        rw [loaded] at kept
        exact kept
      exact
        @Call.forEach_eq_ok _ _ _ _ _ (fun _ wallet => wallet.Ordered) step
          _ _ empty.ordered ran

/-! ## Histories -/

/-- An account that a caller hands over; every constructor addresses it. -/
structure GivenAccount (curve : Curve) where
  account : WalletAccount curve
  address : CString
  addressed : account.address = some address

/-- The calls of a history, with the memory that each of them finds. -/
inductive Operation (curve : Curve) where
  | addAccount (alloc : Allocator) (given : GivenAccount curve)
  | removeAccount (address : CString)
  | setDefaultAccountStr (address : CString)
  | setDefaultAccountHash (alloc : Allocator) (scriptHash : Hash160)
  | setDefaultAccountAccount (alloc : Allocator)
      (account : WalletAccount curve)
  | createAccount (alloc : Allocator) (random : Option (Bytes 32))
      (label : Option CString)
  | importFromWif (alloc : Allocator) (wif : CString)
      (label : Option CString)
  | importFromNep2 (alloc : Allocator) (nep2 passphrase : CString)
      (label : Option CString)

section Histories

variable (derivation : KeyDerivation curve) (cipher : Cipher) (host : Host)

/-- One call, and whether it succeeded. -/
def perform : Operation curve → Routine (Wallet curve) Bool
  | .addAccount alloc given => succeeds (addAccount alloc given.account)
  | .removeAccount address => succeeds (removeAccount address)
  | .setDefaultAccountStr address =>
      succeeds (setDefaultAccountStr address)
  | .setDefaultAccountHash alloc scriptHash =>
      succeeds (setDefaultAccountHash host alloc scriptHash)
  | .setDefaultAccountAccount alloc account =>
      succeeds (setDefaultAccountAccount host alloc account)
  | .createAccount alloc random label =>
      createAccount derivation host alloc random label
  | .importFromWif alloc wif label =>
      importFromWif derivation host alloc wif label
  | .importFromNep2 alloc nep2 passphrase label =>
      importFromNep2 derivation cipher host alloc nep2 passphrase label

/-- The wallet after a call, whether it succeeds or not. -/
def next (wallet : Wallet curve) (operation : Operation curve) :
    Wallet curve :=
  (perform derivation cipher host operation wallet).2

/-- The accounts that a call may add. -/
def Offers : Operation curve → WalletAccount curve → Prop
  | .addAccount _ given, account => account = given.account
  | .createAccount alloc random label, account =>
      WalletAccount.createWithLabel derivation host alloc random label =
        .ok account
  | .importFromWif alloc wif label, account =>
      WalletAccount.createFromWifWithLabel derivation host alloc label
          wif =
        .ok account
  | .importFromNep2 alloc nep2 passphrase label, account =>
      WalletAccount.createFromNep2WithLabel derivation cipher host alloc
          label nep2 passphrase =
        .ok account
  | _, _ => False

/-- The address is one that `neoc_hash160_to_address` gives for the hash. -/
def AddressDerived (held : HeldAccount curve) : Prop :=
  ∃ alloc bufferSize address,
    Hash160.toAddress host alloc held.account.scriptHash bufferSize =
        .ok address ∧
      held.address = some address

/-- What is expected of a wallet. -/
structure InOrder (wallet : Wallet curve) : Prop where
  distinct : wallet.addresses.Nodup
  fits : wallet.accounts.length ≤ wallet.accountCapacity
  noDefault : wallet.defaultAccount = none ↔ wallet.accounts = []
  default :
    wallet.accounts ≠ [] →
      ∃ held ∈ wallet.accounts,
        wallet.defaultAccount = some held.pointer ∧
          wallet.getDefaultAccount = some held
  lookup :
    (∀ held ∈ wallet.accounts, AddressDerived host held) →
      ∀ alloc scriptHash bufferSize address,
        Hash160.toAddress host alloc scriptHash bufferSize =
            .ok address →
          wallet.getAccountByAddress address =
            .ok (wallet.getAccountByScriptHash scriptHash)

/--
A call leaves the wallet in order, changes nothing when it fails, and takes
nothing but the account it is to remove out of the order of the accounts.
-/
structure StaysInOrder (wallet : Wallet curve)
    (operation : Operation curve) : Prop where
  inOrder : InOrder host (next derivation cipher host wallet operation)
  failure :
    (perform derivation cipher host operation wallet).1 ≠ .ok true →
      (next derivation cipher host wallet operation).accounts =
          wallet.accounts ∧
        (next derivation cipher host wallet operation).defaultAccount =
          wallet.defaultAccount
  removal :
    ∀ address,
      operation = .removeAccount address →
        (perform derivation cipher host operation wallet).1 = .ok true →
          ∃ earlier held later,
            wallet.accounts = earlier ++ held :: later ∧
              held.address = some address ∧
              (next derivation cipher host wallet operation).pointers =
                (earlier ++ later).map HeldAccount.pointer

variable {derivation cipher host}

/-- An ordered wallet is in order. -/
theorem Ordered.inOrder {wallet : Wallet curve} (ordered : wallet.Ordered) :
    InOrder host wallet := by
  refine
    { distinct := ordered.distinct
      fits := ordered.fits
      noDefault := ?_
      default := ?_
      lookup := ?_ }
  · rcases ordered.defaulted with ⟨none, empty⟩ | ⟨pointer, member, default⟩
    · exact iff_of_true none empty
    · rw [default]
      refine iff_of_false nofun ?_
      intro empty
      rw [pointers, empty] at member
      cases member
  · intro some
    rcases ordered.defaulted with ⟨-, empty⟩ | ⟨pointer, member, default⟩
    · exact absurd empty some
    rcases List.mem_map.mp member with ⟨held, within, rfl⟩
    refine ⟨held, within, default, ?_⟩
    rw [getDefaultAccount, default, Option.bind_some]
    exact find_pointer ordered.places within
  · intro derived alloc scriptHash bufferSize address addressed
    rcases Hash160.toAddress_text addressed with ⟨rfl, initialized⟩
    refine findAddress_addressText initialized scriptHash ?_
    intro held member
    rcases derived held member with ⟨alloc', bufferSize', own, made, has⟩
    rw [has, (Hash160.toAddress_text made).1]

/-- Every call is disciplined. -/
theorem perform_disciplined {wallet : Wallet curve}
    (ordered : wallet.Ordered) (operation : Operation curve) :
    Disciplined (Offers derivation cipher host operation)
      (perform derivation cipher host operation) wallet := by
  -- What a constructor makes has an address.
  have made (alloc : Allocator) (origin : AccountOrigin curve)
      (account : WalletAccount curve)
      (constructed :
        origin.construct derivation cipher host alloc = .ok account) :
      ∃ address, account.address = some address :=
    ⟨_, (AccountOrigin.construct_fresh constructed).address⟩
  cases operation with
  | addAccount alloc given =>
      exact addAccount_disciplined ordered given.addressed alloc
  | removeAccount address => exact removeAccount_disciplined ordered address
  | setDefaultAccountStr address =>
      exact setDefaultAccountStr_disciplined ordered address
  | setDefaultAccountHash alloc scriptHash =>
      exact
        setDefaultAccountHash_disciplined ordered host alloc scriptHash
  | setDefaultAccountAccount alloc account =>
      exact
        setDefaultAccountAccount_disciplined ordered host alloc account
  | createAccount alloc random label =>
      exact
        adopt_disciplined ordered alloc
          (made alloc (.withLabel random label))
  | importFromWif alloc wif label =>
      exact
        adopt_disciplined ordered alloc (made alloc (.fromWif label wif))
  | importFromNep2 alloc nep2 passphrase label =>
      exact
        adopt_disciplined ordered alloc
          (made alloc (.fromNep2 label nep2 passphrase))

theorem next_ordered {wallet : Wallet curve} (ordered : wallet.Ordered)
    (operation : Operation curve) :
    (next derivation cipher host wallet operation).Ordered :=
  (perform_disciplined ordered operation).change.ordered ordered

theorem staysInOrder {wallet : Wallet curve} (ordered : wallet.Ordered)
    (operation : Operation curve) :
    StaysInOrder derivation cipher host wallet operation := by
  refine
    { inOrder := (next_ordered ordered operation).inOrder
      failure := ?_
      removal := ?_ }
  · intro failed
    have same := (perform_disciplined ordered operation).failure failed
    rw [next, same]
    exact ⟨rfl, rfl⟩
  · rintro address rfl succeeded
    rw [next]
    rw [perform, succeeds] at succeeded ⊢
    rcases removeAccount_cases ordered address with
      ⟨code, text, failed⟩ |
        ⟨earlier, held, later, shape, has, ⟨-, ran⟩ | ⟨-, ran⟩⟩
    · rw [Call.bind_of_error failed] at succeeded
      cases succeeded
    · refine ⟨earlier, held, later, shape, has, ?_⟩
      rw [Call.bind_of_ok ran]
      exact pointers_inherit _ wallet
    · refine ⟨earlier, held, later, shape, has, ?_⟩
      rw [Call.bind_of_ok ran]
      rfl

/--
A wallet is in order when it is obtained and after every call of its
history, whichever calls are made and whether they succeed.
-/
theorem inOrder_history
    {origin : Origin}
    {wallet : Wallet curve}
    (loaded : origin.load host = .ok wallet)
    (operations : List (Operation curve)) :
    InOrder host wallet ∧
      Along (next derivation cipher host)
        (StaysInOrder derivation cipher host) wallet operations := by
  have ordered := load_ordered loaded
  refine ⟨ordered.inOrder, ?_⟩
  exact
    along_of_forall Ordered
      (fun _ operation held => next_ordered held operation)
      (fun _ operation held => staysInOrder held operation)
      ordered operations

end Histories

/-- A new wallet. -/
def newWallet (curve : Curve) : Wallet curve where
  name := some (CString.ofString "NeoC Wallet")
  version := some (CString.ofString "1.0")
  accounts := []
  accountCapacity := initialAccountCapacity
  defaultAccount := none
  nextPointer := 0

/-- The account of the private key one, to be added. -/
def givenOne : GivenAccount Transaction.baseCurve where
  account := WalletAccount.accountOne
  address := WalletAccount.addressOne
  addressed := rfl

/-- The account of another address, to be added. -/
def givenOther : GivenAccount Transaction.baseCurve where
  account := WalletAccount.accountOther
  address := WalletAccount.addressOther
  addressed := rfl

/-- Two accounts are added, and the first one, the default, is removed. -/
theorem inOrder_newWallet :
    InOrder WalletAccount.nep2Host (newWallet Transaction.baseCurve) ∧
      Along
        (next baseDerivation WalletAccount.neoCipher
          WalletAccount.nep2Host)
        (StaysInOrder baseDerivation WalletAccount.neoCipher
          WalletAccount.nep2Host)
        (newWallet Transaction.baseCurve)
        [.addAccount .ample givenOne,
          .addAccount .ample givenOther,
          .removeAccount WalletAccount.addressOne] := by
  have loaded :
      (Origin.create .ample none).load WalletAccount.nep2Host =
        .ok (newWallet Transaction.baseCurve) := by
    rfl
  exact inOrder_history loaded _

end Wallet

end NeoC
