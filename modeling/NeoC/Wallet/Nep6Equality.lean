import NeoC.Foundation.KeyedList
import NeoC.Wallet.Nep6

/-!
# NEP-6 wallet structures and their equality

Beside `neoc_nep6_wallet_t` there is a second wallet type, a record of what a
wallet file may hold: its accounts and the wallet itself also have extra
fields, which are lists of keys with values.  Nothing keeps a key from being
in such a list twice.

`neoc_nep6_account_equals` compares the extra fields of two accounts by their
number and by a search for every field of the first one.  The search stops at
the first field with the key.  Where the keys of each account are different
this is an equivalence; where a key is repeated, two accounts can be equal in
one direction only.

`neoc_nep6_wallet_struct_equals` compares the number of the accounts and the
number of the extra fields, and nothing else of them.  So it compares rightly
the wallets without accounts and without extra fields, and no other kind.
-/

namespace NeoC

open Foundation

/-! ## The structures -/

/-- The extra fields of an account or of a wallet. -/
abbrev ExtraFields := List (CString × CString)

/--
A `neoc_nep6_account_t` with its extra fields.  Neither of the functions that
set an address takes `NULL`.
-/
structure ExtendedAccount extends Nep6Account where
  extra : ExtraFields
  addressed : address.isSome = true
deriving DecidableEq

/-- A `neoc_nep6_wallet_struct_t`, over what it holds for an account. -/
structure Nep6WalletStruct (Account : Type) where
  name : Option CString
  version : CString
  scrypt : Nep2Params
  accounts : List Account
  extra : ExtraFields
deriving DecidableEq

/-- The keys of the extra fields of an account. -/
def ExtendedAccount.extraKeys (account : ExtendedAccount) : List CString :=
  account.extra.map Prod.fst

/-! ## Accounts -/

/-- Two texts of which each may be absent. -/
def sameText : Option CString → Option CString → Bool
  | none, none => true
  | some text1, some text2 => decide (text1 = text2)
  | _, _ => false

theorem sameText_eq_true_iff {text1 text2 : Option CString} :
    sameText text1 text2 = true ↔ text1 = text2 := by
  cases text1 <;> cases text2 <;> simp [sameText]

namespace Nep6Contract

/-- The comparison of the parameters, after that of their numbers. -/
def parametersEqual : List Nep6Parameter → List Nep6Parameter → Bool
  | pa :: a, pb :: b =>
      if pa.type ≠ pb.type then false
      else if sameText pa.name pb.name = false then false
      else parametersEqual a b
  | _, _ => true

/-- `neoc_nep6_contracts_equal` of two contracts at different places. -/
def contractsEqual (a b : Nep6Contract) : Bool :=
  if a.isDeployed ≠ b.isDeployed then false
  else if sameText a.script b.script = false then false
  else if a.parameters.length ≠ b.parameters.length then false
  else parametersEqual a.parameters b.parameters

theorem parametersEqual_iff {a b : List Nep6Parameter}
    (lengths : a.length = b.length) :
    parametersEqual a b = true ↔ a = b := by
  induction a generalizing b with
  | nil =>
      cases b with
      | nil => exact iff_of_true rfl rfl
      | cons pb b => cases lengths
  | cons pa a induction =>
      cases b with
      | nil => cases lengths
      | cons pb b =>
          have later := induction (Nat.succ.inj lengths)
          obtain ⟨name, type⟩ := pa
          obtain ⟨name', type'⟩ := pb
          have names : sameText name name' = false ↔ name ≠ name' := by
            rw [← Bool.not_eq_true, sameText_eq_true_iff]
          rw [parametersEqual, List.cons.injEq, Nep6Parameter.mk.injEq,
            ← later]
          by_cases types : type = type'
          · by_cases named : name = name'
            · rw [if_neg (not_not.mpr types),
                if_neg (fun different => names.mp different named)]
              simp only [named, types, true_and]
            · rw [if_neg (not_not.mpr types), if_pos (names.mpr named)]
              simp only [named, false_and, Bool.false_eq_true]
          · rw [if_pos types]
            simp only [types, and_false, false_and, Bool.false_eq_true]

theorem contractsEqual_iff {a b : Nep6Contract} :
    contractsEqual a b = true ↔ a = b := by
  constructor
  · intro equal
    rw [contractsEqual] at equal
    split at equal
    · cases equal
    rename_i deployed
    split at equal
    · cases equal
    rename_i script
    split at equal
    · cases equal
    rename_i counts
    rw [Bool.not_eq_false, sameText_eq_true_iff] at script
    have parameters := (parametersEqual_iff (not_not.mp counts)).mp equal
    cases a
    cases b
    cases not_not.mp deployed
    cases script
    cases parameters
    rfl
  · rintro rfl
    have script : sameText a.script a.script ≠ false := by
      rw [sameText_eq_true_iff.mpr rfl]
      exact Bool.noConfusion
    rw [contractsEqual, if_neg (not_not.mpr rfl), if_neg script,
      if_neg (not_not.mpr rfl)]
    exact (parametersEqual_iff rfl).mpr rfl

end Nep6Contract

/-- Contracts that may be absent. -/
def sameContract : Option Nep6Contract → Option Nep6Contract → Bool
  | none, none => true
  | some a, some b => Nep6Contract.contractsEqual a b
  | _, _ => false

theorem sameContract_eq_true_iff {a b : Option Nep6Contract} :
    sameContract a b = true ↔ a = b := by
  cases a <;> cases b <;>
    simp [sameContract, Nep6Contract.contractsEqual_iff]

/-- The search for an extra field: the first one with the key decides. -/
def matchExtra (field : CString × CString) : ExtraFields → Bool
  | [] => false
  | other :: others =>
      if field.1 = other.1 then decide (field.2 = other.2)
      else matchExtra field others

namespace ExtendedAccount

/-- `neoc_nep6_account_equals` of two accounts at different places. -/
def sameFields (account1 account2 : ExtendedAccount) : Bool :=
  if account1.address ≠ account2.address then false
  else if sameText account1.label account2.label = false then false
  else if account1.isDefault ≠ account2.isDefault then false
  else if account1.lock ≠ account2.lock then false
  else if sameText account1.key account2.key = false then false
  else if sameContract account1.contract account2.contract = false then false
  else if account1.extra.length ≠ account2.extra.length then false
  else account1.extra.all fun field => matchExtra field account2.extra

/-- `neoc_nep6_account_equals`. -/
def accountEquals (memory : Nat → Option ExtendedAccount)
    (account1 account2 : Option Nat) : Outcome Bool :=
  if account1 = account2 then .ok true
  else
    match account1, account2 with
    | some account1, some account2 =>
        match memory account1, memory account2 with
        | some account1, some account2 => .ok (account1.sameFields account2)
        | _, _ => .error .illegalAccess
    | _, _ => .ok false

/-! ## What is compared -/

/-- A key is compared as a text. -/
theorem equivalent_text :
    KeyedList.EquivalentOn (fun first second : CString => first == second)
      Set.univ := by
  refine ⟨?_, ?_, ?_⟩
  · intro first _
    exact beq_self_eq_true first
  · intro first _ second _ equal
    exact beq_iff_eq.mpr (beq_iff_eq.mp equal).symm
  · intro first _ second _ third _ equal equal'
    exact beq_iff_eq.mpr ((beq_iff_eq.mp equal).trans (beq_iff_eq.mp equal'))

theorem inside_univ (extra : ExtraFields) :
    KeyedList.Inside Set.univ Set.univ extra :=
  ⟨fun _ _ => Set.mem_univ _, fun _ _ => Set.mem_univ _⟩

/-- The fields of an account are each found in another one. -/
abbrev ExtraWithin (extra1 extra2 : ExtraFields) : Prop :=
  KeyedList.within (fun first second : CString => first == second)
    (fun first second : CString => first == second) extra1 extra2 = true

theorem matchExtra_eq (field : CString × CString) (extra : ExtraFields) :
    matchExtra field extra =
      (KeyedList.lookup (fun first second : CString => first == second)
        extra field.1).any (fun value => field.2 == value) := by
  induction extra with
  | nil => rfl
  | cons other others induction =>
      rw [matchExtra, KeyedList.lookup_cons, induction]
      by_cases same : field.1 = other.1
      · rw [if_pos same, if_pos (beq_iff_eq.mpr same.symm)]
        rfl
      · rw [if_neg same,
          if_neg (fun equal => same (beq_iff_eq.mp equal).symm)]

theorem sameFields_iff {account1 account2 : ExtendedAccount} :
    sameFields account1 account2 = true ↔
      account1.toNep6Account = account2.toNep6Account ∧
        account1.extra.length = account2.extra.length ∧
          ExtraWithin account1.extra account2.extra := by
  have found :
      (account1.extra.all fun field => matchExtra field account2.extra) =
        KeyedList.within (fun first second : CString => first == second)
          (fun first second : CString => first == second) account1.extra
          account2.extra := by
    simp only [matchExtra_eq]
    rfl
  rw [sameFields, found]
  constructor
  · intro equal
    split at equal
    · cases equal
    rename_i address
    split at equal
    · cases equal
    rename_i label
    split at equal
    · cases equal
    rename_i isDefault
    split at equal
    · cases equal
    rename_i lock
    split at equal
    · cases equal
    rename_i key
    split at equal
    · cases equal
    rename_i contract
    split at equal
    · cases equal
    rename_i counts
    rw [Bool.not_eq_false, sameText_eq_true_iff] at label key
    rw [Bool.not_eq_false, sameContract_eq_true_iff] at contract
    refine ⟨?_, not_not.mp counts, equal⟩
    obtain ⟨⟨_, _, _, _, _, _⟩, _, _⟩ := account1
    obtain ⟨⟨_, _, _, _, _, _⟩, _, _⟩ := account2
    cases not_not.mp address
    cases label
    cases not_not.mp isDefault
    cases not_not.mp lock
    cases key
    cases contract
    rfl
  · rintro ⟨fields, counts, inside⟩
    have text (text : Option CString) : sameText text text ≠ false := by
      rw [sameText_eq_true_iff.mpr rfl]
      exact Bool.noConfusion
    have contract :
        sameContract account2.contract account2.contract ≠ false := by
      rw [sameContract_eq_true_iff.mpr rfl]
      exact Bool.noConfusion
    rw [fields, if_neg (not_not.mpr rfl), if_neg (text _),
      if_neg (not_not.mpr rfl), if_neg (not_not.mpr rfl), if_neg (text _),
      if_neg contract, if_neg (not_not.mpr counts)]
    exact inside

/-- The keys of an account are different. -/
theorem distinct_of_nodup {account : ExtendedAccount}
    (nodup : account.extraKeys.Nodup) :
    KeyedList.Distinct (fun first second : CString => first == second)
      account.extra := by
  apply (List.pairwise_map.mp nodup).imp
  intro field other different
  exact beq_eq_false_iff_ne.mpr different

/-! ## Where the comparison is an equivalence -/

/-- A place at which there is an account whose keys are in a class. -/
abbrev Listed (classes : Set (List CString))
    (memory : Nat → Option ExtendedAccount) : Type :=
  {place : Nat //
    ∃ account, memory place = some account ∧ account.extraKeys ∈ classes}

/-- `neoc_nep6_account_equals` is an equivalence in every memory. -/
def Equates (classes : Set (List CString)) : Prop :=
  ∀ memory : Nat → Option ExtendedAccount,
    Equivalence fun account1 account2 : Listed classes memory =>
      accountEquals memory (some account1.val) (some account2.val) =
        .ok true

section

variable {memory : Nat → Option ExtendedAccount} {place1 place2 : Nat}
  {account1 account2 : ExtendedAccount}

theorem accountEquals_iff (stored : memory place1 = some account1)
    (stored' : memory place2 = some account2) :
    accountEquals memory (some place1) (some place2) = .ok true ↔
      place1 = place2 ∨ sameFields account1 account2 = true := by
  rw [accountEquals]
  by_cases same : place1 = place2
  · rw [if_pos (congrArg some same)]
    exact iff_of_true rfl (.inl same)
  · rw [if_neg (fun equal => same (Option.some.inj equal)), stored, stored']
    dsimp only
    rw [Except.ok.injEq]
    exact (or_iff_right same).symm

end

theorem equates_of_nodup {classes : Set (List CString)}
    (nodup : ∀ keys ∈ classes, keys.Nodup) : Equates classes := by
  intro memory
  refine ⟨?_, ?_, ?_⟩
  · rintro ⟨place, account, stored, inside⟩
    exact (accountEquals_iff stored stored).mpr (.inl rfl)
  · rintro ⟨place1, account1, stored1, inside1⟩
      ⟨place2, account2, stored2, inside2⟩ equal
    rw [accountEquals_iff stored1 stored2, sameFields_iff] at equal
    rw [accountEquals_iff stored2 stored1, sameFields_iff]
    rcases equal with rfl | ⟨fields, counts, found⟩
    · exact .inl rfl
    refine .inr ⟨fields.symm, counts.symm, ?_⟩
    exact KeyedList.within_symm equivalent_text equivalent_text
      (inside_univ _) (inside_univ _) (distinct_of_nodup (nodup _ inside1))
      (distinct_of_nodup (nodup _ inside2)) counts found
  · rintro ⟨place1, account1, stored1, inside1⟩
      ⟨place2, account2, stored2, inside2⟩
      ⟨place3, account3, stored3, inside3⟩ equal equal'
    rw [accountEquals_iff stored1 stored2, sameFields_iff] at equal
    rw [accountEquals_iff stored2 stored3, sameFields_iff] at equal'
    rw [accountEquals_iff stored1 stored3, sameFields_iff]
    rcases equal with rfl | ⟨fields, counts, found⟩
    · cases stored1.symm.trans stored2
      exact equal'
    rcases equal' with rfl | ⟨fields', counts', found'⟩
    · cases stored2.symm.trans stored3
      exact .inr ⟨fields, counts, found⟩
    refine .inr ⟨fields.trans fields', counts.trans counts', ?_⟩
    exact KeyedList.within_trans equivalent_text equivalent_text
      (inside_univ _) (inside_univ _) (inside_univ _)
      (distinct_of_nodup (nodup _ inside2))
      (distinct_of_nodup (nodup _ inside3)) found found'

/-- All the keys with one value. -/
def plain (keys : List CString) : ExtraFields :=
  keys.map fun key => (key, CString.ofString "first")

/-- The second occurrence of a key with another value. -/
def marked (before : List CString) (key : CString) (after : List CString) :
    ExtraFields :=
  plain before ++ (key, CString.ofString "second") :: plain after

/-- An account of which only the extra fields matter. -/
def ofExtra (extra : ExtraFields) : ExtendedAccount where
  address := some (CString.ofString "NNLi44dJNXtDNSBkofB48aTVYtb1zZrNEs")
  label := none
  isDefault := false
  lock := false
  key := none
  contract := none
  extra := extra
  addressed := rfl

/-- Two accounts beside each other. -/
def pair (account1 account2 : ExtendedAccount) (place : Nat) :
    Option ExtendedAccount :=
  [account1, account2][place]?

theorem map_fst_plain (keys : List CString) :
    (plain keys).map Prod.fst = keys := by
  rw [plain, List.map_map]
  exact List.map_id keys

theorem lookup_plain {key : CString} {keys : List CString}
    (listed : key ∈ keys) :
    KeyedList.lookup (fun first second : CString => first == second)
        (plain keys) key =
      some (CString.ofString "first") := by
  cases found :
      KeyedList.lookup (fun first second : CString => first == second)
        (plain keys) key with
  | none =>
      have absent :=
        KeyedList.lookup_eq_none_iff.mp found
          (key, CString.ofString "first") (List.mem_map_of_mem listed)
      exact absurd rfl (beq_eq_false_iff_ne.mp absent)
  | some value =>
      obtain ⟨entry, member, -, rfl⟩ := KeyedList.of_lookup found
      obtain ⟨_, -, rfl⟩ := List.mem_map.mp member
      rfl

/-- A key that is there twice stands behind itself. -/
theorem exists_before_of_duplicate {key : CString} {keys : List CString}
    (twice : List.Duplicate key keys) :
    ∃ before after, keys = before ++ key :: after ∧ key ∈ before := by
  induction twice with
  | cons_mem listed =>
      obtain ⟨before, after, rfl⟩ := List.append_of_mem listed
      exact ⟨key :: before, after, rfl, List.mem_cons_self⟩
  | cons_duplicate _ induction =>
      obtain ⟨before, after, rfl, listed⟩ := induction
      exact ⟨_ :: before, after, rfl, List.mem_cons_of_mem _ listed⟩

/-- A search in the marked fields ends before the mark. -/
theorem plain_within_marked {before after : List CString} {key : CString}
    (listed : key ∈ before) :
    ExtraWithin (plain (before ++ key :: after)) (marked before key after) := by
  rw [ExtraWithin, KeyedList.within, List.all_eq_true]
  rintro field member
  obtain ⟨searched, listed', rfl⟩ := List.mem_map.mp member
  rw [marked, KeyedList.lookup_append]
  by_cases early : searched ∈ before
  · rw [lookup_plain early]
    exact beq_self_eq_true _
  have different : searched ≠ key := by
    rintro rfl
    exact early listed
  have late : searched ∈ after := by
    rcases List.mem_append.mp listed' with first | rest
    · exact absurd first early
    · exact (List.mem_cons.mp rest).resolve_left different
  have absent :
      KeyedList.lookup (fun first second : CString => first == second)
        (plain before) searched = none := by
    rw [KeyedList.lookup_eq_none_iff]
    rintro entry member'
    obtain ⟨other, first, rfl⟩ := List.mem_map.mp member'
    refine beq_eq_false_iff_ne.mpr ?_
    rintro rfl
    exact early first
  rw [absent, Option.none_or, KeyedList.lookup_cons,
    if_neg (fun equal => different (beq_iff_eq.mp equal).symm),
    lookup_plain late]
  exact beq_self_eq_true _

/-- A search for the mark finds the first occurrence of its key. -/
theorem not_marked_within_plain {before after : List CString}
    {key : CString} :
    ¬ ExtraWithin (marked before key after)
        (plain (before ++ key :: after)) := by
  intro found
  rw [ExtraWithin, KeyedList.within, List.all_eq_true] at found
  have wrong :=
    found (key, CString.ofString "second")
      (List.mem_append_right _ List.mem_cons_self)
  rw [lookup_plain (List.mem_append_right _ List.mem_cons_self)] at wrong
  have different : CString.ofString "second" ≠ CString.ofString "first" := by
    decide +kernel
  exact different (beq_iff_eq.mp wrong)

theorem nodup_of_equates {classes : Set (List CString)}
    (equates : Equates classes) : ∀ keys ∈ classes, keys.Nodup := by
  intro keys member
  by_contra repeats
  obtain ⟨key, twice⟩ := List.exists_duplicate_iff_not_nodup.mpr repeats
  obtain ⟨before, after, rfl, listed⟩ := exists_before_of_duplicate twice
  let account1 := ofExtra (plain (before ++ key :: after))
  let account2 := ofExtra (marked before key after)
  have keys1 : account1.extraKeys = before ++ key :: after :=
    map_fst_plain _
  have keys2 : account2.extraKeys = before ++ key :: after := by
    change (marked before key after).map Prod.fst = _
    rw [marked, List.map_append, List.map_cons, map_fst_plain,
      map_fst_plain]
  let first : Listed classes (pair account1 account2) :=
    ⟨0, account1, rfl, keys1 ▸ member⟩
  let second : Listed classes (pair account1 account2) :=
    ⟨1, account2, rfl, keys2 ▸ member⟩
  have counts : account1.extra.length = account2.extra.length := by
    have lengths := congrArg List.length (keys1.trans keys2.symm)
    rwa [extraKeys, extraKeys, List.length_map, List.length_map] at lengths
  have stored : pair account1 account2 0 = some account1 := rfl
  have stored' : pair account1 account2 1 = some account2 := rfl
  have forwards :
      accountEquals (pair account1 account2) (some 0) (some 1) =
        .ok true :=
    (accountEquals_iff stored stored').mpr
      (.inr (sameFields_iff.mpr ⟨rfl, counts, plain_within_marked listed⟩))
  have backwards := (equates (pair account1 account2)).symm
    (x := first) (y := second) forwards
  rcases (accountEquals_iff stored' stored).mp backwards with same | same
  · cases same
  · exact not_marked_within_plain (sameFields_iff.mp same).2.2

end ExtendedAccount

/-! ## Wallet structures -/

namespace Nep6WalletStruct

variable {Account : Type}

/-- `neoc_nep6_wallet_struct_equals` of two wallets at different places. -/
def sameCounts (wallet1 wallet2 : Nep6WalletStruct Account) : Bool :=
  if sameText wallet1.name wallet2.name = false then false
  else if wallet1.version ≠ wallet2.version then false
  else if wallet1.scrypt.n ≠ wallet2.scrypt.n ∨
      wallet1.scrypt.r ≠ wallet2.scrypt.r ∨
      wallet1.scrypt.p ≠ wallet2.scrypt.p then false
  else if wallet1.accounts.length ≠ wallet2.accounts.length then false
  else if wallet1.extra.length ≠ wallet2.extra.length then false
  else true

/-- `neoc_nep6_wallet_struct_equals`. -/
def structEquals (memory : Nat → Option (Nep6WalletStruct Account))
    (wallet1 wallet2 : Option Nat) : Outcome Bool :=
  if wallet1 = wallet2 then .ok true
  else
    match wallet1, wallet2 with
    | some wallet1, some wallet2 =>
        match memory wallet1, memory wallet2 with
        | some wallet1, some wallet2 => .ok (wallet1.sameCounts wallet2)
        | _, _ => .error .illegalAccess
    | _, _ => .ok false

/-! ## What the counts decide -/

/-- What is compared of two wallets. -/
structure AgreeInCounts (wallet1 wallet2 : Nep6WalletStruct Account) :
    Prop where
  name : wallet1.name = wallet2.name
  version : wallet1.version = wallet2.version
  scrypt : wallet1.scrypt = wallet2.scrypt
  accounts : wallet1.accounts.length = wallet2.accounts.length
  extra : wallet1.extra.length = wallet2.extra.length

theorem sameCounts_iff {wallet1 wallet2 : Nep6WalletStruct Account} :
    sameCounts wallet1 wallet2 = true ↔ AgreeInCounts wallet1 wallet2 := by
  constructor
  · intro equal
    rw [sameCounts] at equal
    split at equal
    · cases equal
    rename_i name
    split at equal
    · cases equal
    rename_i version
    split at equal
    · cases equal
    rename_i scrypt
    split at equal
    · cases equal
    rename_i accounts
    split at equal
    · cases equal
    rename_i extra
    rw [Bool.not_eq_false, sameText_eq_true_iff] at name
    simp only [not_or, not_not] at scrypt
    obtain ⟨n, r, p⟩ := scrypt
    refine ⟨name, not_not.mp version, ?_, not_not.mp accounts,
      not_not.mp extra⟩
    cases first : wallet1.scrypt
    cases second : wallet2.scrypt
    rw [first, second] at n r p
    cases n
    cases r
    cases p
    rfl
  · rintro ⟨name, version, scrypt, accounts, extra⟩
    have named : sameText wallet1.name wallet2.name ≠ false := by
      rw [sameText_eq_true_iff.mpr name]
      exact Bool.noConfusion
    rw [sameCounts, if_neg named, if_neg (not_not.mpr version), scrypt,
      if_neg (by simp), if_neg (not_not.mpr accounts),
      if_neg (not_not.mpr extra)]

/-- The accounts are equal one by one, and so are the extra fields. -/
structure SameContents (memory : Nat → Option ExtendedAccount)
    (wallet1 wallet2 : Nep6WalletStruct Nat) : Prop where
  accounts :
    List.Forall₂
      (fun account1 account2 =>
        ExtendedAccount.accountEquals memory (some account1)
          (some account2) = .ok true)
      wallet1.accounts wallet2.accounts
  extra : wallet1.extra.Perm wallet2.extra

/-- The two wallets are the same. -/
structure SameWallet (memory : Nat → Option ExtendedAccount)
    (wallet1 wallet2 : Nep6WalletStruct Nat) : Prop where
  name : wallet1.name = wallet2.name
  version : wallet1.version = wallet2.version
  scrypt : wallet1.scrypt = wallet2.scrypt
  contents : SameContents memory wallet1 wallet2

theorem SameWallet.agree {memory : Nat → Option ExtendedAccount}
    {wallet1 wallet2 : Nep6WalletStruct Nat}
    (same : SameWallet memory wallet1 wallet2) :
    AgreeInCounts wallet1 wallet2 where
  name := same.name
  version := same.version
  scrypt := same.scrypt
  accounts := same.contents.accounts.length_eq
  extra := same.contents.extra.length_eq

theorem AgreeInCounts.refl (wallet : Nep6WalletStruct Account) :
    AgreeInCounts wallet wallet :=
  ⟨rfl, rfl, rfl, rfl, rfl⟩

theorem structEquals_iff {wallets : Nat → Option (Nep6WalletStruct Account)}
    {place1 place2 : Nat} {wallet1 wallet2 : Nep6WalletStruct Account}
    (stored : wallets place1 = some wallet1)
    (stored' : wallets place2 = some wallet2) :
    structEquals wallets (some place1) (some place2) = .ok true ↔
      AgreeInCounts wallet1 wallet2 := by
  rw [structEquals]
  by_cases same : place1 = place2
  · subst same
    cases stored.symm.trans stored'
    rw [if_pos rfl]
    exact iff_of_true rfl (AgreeInCounts.refl _)
  · rw [if_neg (fun equal => same (Option.some.inj equal)), stored, stored']
    dsimp only
    rw [Except.ok.injEq]
    exact sameCounts_iff

section

variable {memory : Nat → Option ExtendedAccount}
  {wallets : Nat → Option (Nep6WalletStruct Nat)} {place1 place2 : Nat}
  {wallet1 wallet2 : Nep6WalletStruct Nat}

/-- Two wallets are compared rightly exactly where their counts decide. -/
theorem structEquals_real_iff
    (stored : wallets place1 = some wallet1)
    (stored' : wallets place2 = some wallet2) :
    (structEquals wallets (some place1) (some place2) = .ok true ↔
        SameWallet memory wallet1 wallet2) ↔
      (AgreeInCounts wallet1 wallet2 →
        SameContents memory wallet1 wallet2) := by
  rw [structEquals_iff stored stored']
  constructor
  · intro right agree
    exact (right.mp agree).contents
  · intro decided
    constructor
    · intro agree
      exact ⟨agree.name, agree.version, agree.scrypt, decided agree⟩
    · exact SameWallet.agree

end

/-! ## Where the comparison is right -/

/-- The numbers of accounts and of extra fields. -/
def shape (wallet : Nep6WalletStruct Account) : Nat × Nat :=
  (wallet.accounts.length, wallet.extra.length)

/-- A place at which there is a wallet of one of the shapes. -/
structure Shaped (shapes : Set (Nat × Nat))
    (memory : Nat → Option ExtendedAccount)
    (wallets : Nat → Option (Nep6WalletStruct Nat)) where
  place : Nat
  wallet : Nep6WalletStruct Nat
  stored : wallets place = some wallet
  listed : wallet.shape ∈ shapes
  held : ∀ account ∈ wallet.accounts, (memory account).isSome = true

/--
`neoc_nep6_wallet_struct_equals` tells whether two wallets are the same, in
every memory in which their accounts are.
-/
def Decides (shapes : Set (Nat × Nat)) : Prop :=
  ∀ memory wallets (wallet1 wallet2 : Shaped shapes memory wallets),
    structEquals wallets (some wallet1.place) (some wallet2.place) =
        .ok true ↔
      SameWallet memory wallet1.wallet wallet2.wallet

/-- Without accounts and extra fields there is nothing left to compare. -/
theorem decides_of_bare {shapes : Set (Nat × Nat)}
    (bare : ∀ shape ∈ shapes, shape = (0, 0)) : Decides shapes := by
  rintro memory wallets ⟨place1, wallet1, stored1, listed1, -⟩
    ⟨place2, wallet2, stored2, listed2, -⟩
  have empty {wallet : Nep6WalletStruct Nat} (listed : wallet.shape ∈ shapes) :
      wallet.accounts = [] ∧ wallet.extra = [] := by
    have zero := Prod.mk.inj (bare _ listed)
    exact ⟨List.length_eq_zero_iff.mp zero.1, List.length_eq_zero_iff.mp zero.2⟩
  apply (structEquals_real_iff stored1 stored2).mpr
  intro _
  constructor
  · rw [(empty listed1).1, (empty listed2).1]
    exact .nil
  · rw [(empty listed1).2, (empty listed2).2]

/-- A wallet of which only the accounts and the extra fields matter. -/
def ofContents (accounts : List Nat) (extra : ExtraFields) :
    Nep6WalletStruct Nat where
  name := none
  version := CString.ofString "3.0"
  scrypt := Nep2.defaultParams
  accounts := accounts
  extra := extra

/-- Two accounts of which one has an extra field. -/
def unequal : Nat → Option ExtendedAccount :=
  ExtendedAccount.pair (.ofExtra [])
    (.ofExtra (ExtendedAccount.plain [CString.ofString "note"]))

theorem accountEquals_unequal :
    ExtendedAccount.accountEquals unequal (some 0) (some 1) ≠ .ok true := by
  intro equal
  rcases (ExtendedAccount.accountEquals_iff rfl rfl).mp equal with same | same
  · cases same
  · cases (ExtendedAccount.sameFields_iff.mp same).2.1

/-- As many of one account and of one extra field as a shape has. -/
def filled (shape : Nat × Nat) (account : Nat) (value : String) :
    Nep6WalletStruct Nat :=
  ofContents (List.replicate shape.1 account)
    (List.replicate shape.2
      (CString.ofString "note", CString.ofString value))

theorem shape_filled (shape : Nat × Nat) (account : Nat) (value : String) :
    (filled shape account value).shape = shape :=
  Prod.ext List.length_replicate List.length_replicate

theorem held_filled {memory : Nat → Option ExtendedAccount} {account : Nat}
    (there : (memory account).isSome = true) (shape : Nat × Nat)
    (value : String) :
    ∀ listed ∈ (filled shape account value).accounts,
      (memory listed).isSome = true := by
  intro listed member
  rw [List.eq_of_mem_replicate member]
  exact there

theorem agree_filled (shape : Nat × Nat) (account1 account2 : Nat)
    (value1 value2 : String) :
    AgreeInCounts (filled shape account1 value1)
      (filled shape account2 value2) where
  name := rfl
  version := rfl
  scrypt := rfl
  accounts := List.length_replicate.trans List.length_replicate.symm
  extra := List.length_replicate.trans List.length_replicate.symm

/-- Filled with different things, two wallets of a shape have no contents. -/
theorem bare_of_same_filled {shape : Nat × Nat}
    (same :
      SameContents unequal (filled shape 0 "first")
        (filled shape 1 "second")) :
    shape = (0, 0) := by
  rcases shape with ⟨count, fields⟩
  have noAccounts : count = 0 := by
    cases count with
    | zero => rfl
    | succ count =>
        exact
          absurd (List.forall₂_cons.mp same.accounts).1 accountEquals_unequal
  have noFields : fields = 0 := by
    by_contra some
    have member := same.extra.subset (List.mem_replicate.mpr ⟨some, rfl⟩)
    have values := congrArg Prod.snd (List.eq_of_mem_replicate member)
    have different : CString.ofString "first" ≠ CString.ofString "second" := by
      decide +kernel
    exact different values
  rw [noAccounts, noFields]

theorem bare_of_decides {shapes : Set (Nat × Nat)} (decides : Decides shapes) :
    ∀ shape ∈ shapes, shape = (0, 0) := by
  intro shape listed
  let wallets (place : Nat) : Option (Nep6WalletStruct Nat) :=
    [filled shape 0 "first", filled shape 1 "second"][place]?
  let first : Shaped shapes unequal wallets :=
    { place := 0
      wallet := filled shape 0 "first"
      stored := rfl
      listed := by rwa [shape_filled]
      held := held_filled rfl shape "first" }
  let second : Shaped shapes unequal wallets :=
    { place := 1
      wallet := filled shape 1 "second"
      stored := rfl
      listed := by rwa [shape_filled]
      held := held_filled rfl shape "second" }
  have equal :
      structEquals wallets (some first.place) (some second.place) =
        .ok true :=
    (structEquals_iff first.stored second.stored).mpr
      (agree_filled shape 0 1 "first" "second")
  exact
    bare_of_same_filled ((decides unequal wallets first second).mp equal).contents

/--
Accounts are compared by an equivalence exactly where no key is repeated, and
wallets are compared rightly exactly where they have neither accounts nor
extra fields.
-/
theorem equality_real_iff
    (classes : Set (List CString))
    (shapes : Set (Nat × Nat)) :
    (ExtendedAccount.Equates classes ↔ ∀ keys ∈ classes, keys.Nodup) ∧
      (Decides shapes ↔ ∀ shape ∈ shapes, shape = (0, 0)) :=
  ⟨⟨ExtendedAccount.nodup_of_equates, ExtendedAccount.equates_of_nodup⟩,
    ⟨bare_of_decides, decides_of_bare⟩⟩

/-- A wallet of one account, of which only the account matters. -/
def ofAccount (account : Nat) : Nep6WalletStruct Nat :=
  ofContents [account] []

/-- Two accounts of which the second repeats a key with another value. -/
def repeating : Nat → Option ExtendedAccount :=
  ExtendedAccount.pair
    (.ofExtra
      (ExtendedAccount.plain
        [CString.ofString "note", CString.ofString "note"]))
    (.ofExtra
      (ExtendedAccount.marked [CString.ofString "note"]
        (CString.ofString "note") []))

/-- The accounts are equal in one direction, and their wallets in both. -/
theorem equality_not_real :
    (ExtendedAccount.accountEquals repeating (some 0) (some 1) = .ok true ∧
        ExtendedAccount.accountEquals repeating (some 1) (some 0) =
          .ok false) ∧
      structEquals (fun place => [ofAccount 1, ofAccount 0][place]?)
          (some 0) (some 1) =
        .ok true ∧
      ¬ SameWallet repeating (ofAccount 1) (ofAccount 0) := by
  have backwards :
      ExtendedAccount.accountEquals repeating (some 1) (some 0) =
        .ok false := by
    decide +kernel
  refine ⟨⟨by decide +kernel, backwards⟩, by decide +kernel, ?_⟩
  intro same
  have equal := (List.forall₂_cons.mp same.contents.accounts).1
  rw [backwards] at equal
  cases equal

end Nep6WalletStruct

end NeoC
