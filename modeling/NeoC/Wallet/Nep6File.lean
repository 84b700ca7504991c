import NeoC.Wallet.Nep6Writer

/-!
# NEP-6 wallets through a file

A wallet is written to a text and loaded from it.  The text of a wallet
without accounts is read back here member by member: a name that needs no
escape is found again as it is, and any other one makes the text ill-formed
or comes back shorter.  An account never comes back, because its contract is
not read; so of the wallets that the calls build, only those without accounts
survive a file.
-/

namespace NeoC

open Foundation JsonGrammar WalletAccount

namespace Nep6Wallet

/-! ## Reading the text back -/

section Reading

variable {strtod : List UInt8 → Option Rat} {fuel : Nat}

/-- The member without accounts, up to the end of the wallet. -/
theorem parseMembers_accounts :
    parseMembers strtod (fuel + 2)
        (ascii "\n  \"accounts\": [\n" ++ footerText) =
      some ([(CString.ofString "accounts", .array [])], [0x0A]) :=
  parseMembers_last rfl rfl rfl (parseValue_emptyArray rfl rfl) rfl

/-- A blank in front of a numeral is skipped. -/
theorem skip_decimal (value : Nat) (rest : List UInt8) :
    skip (0x20 :: (decimal value ++ rest)) = decimal value ++ rest := by
  change skip (decimal value ++ rest) = _
  exact skip_numeral value rest

/-- The member of the parameters. -/
def scryptTree (strtod : List UInt8 → Option Rat) (scrypt : Nep2Params) :
    JsonTree :=
  .object
    [(CString.ofString "n", .number (strtod (decimal scrypt.n.toNat))),
      (CString.ofString "r", .number (strtod (decimal scrypt.r.toNat))),
      (CString.ofString "p", .number (strtod (decimal scrypt.p.toNat)))]

/-- The parameters, up to the brace behind them. -/
theorem parseValue_scrypt (scrypt : Nep2Params) (rest : List UInt8) :
    parseValue strtod (fuel + 5)
        (ascii " \x7b\n    \"n\": " ++ (decimal scrypt.n.toNat ++
          (ascii ",\n    \"r\": " ++ (decimal scrypt.r.toNat ++
            (ascii ",\n    \"p\": " ++ (decimal scrypt.p.toNat ++
              (ascii "\n  \x7d" ++ rest))))))) =
      some (scryptTree strtod scrypt, rest) := by
  have third :
      parseMembers strtod (fuel + 2)
          (ascii "\n    \"p\": " ++ (decimal scrypt.p.toNat ++
            (ascii "\n  \x7d" ++ rest))) =
        some
          ([(CString.ofString "p",
              .number (strtod (decimal scrypt.p.toNat)))], rest) :=
    parseMembers_last rfl rfl rfl
      (parseValue_number _ (.inr rfl) (skip_decimal _ _)) rfl
  have second :
      parseMembers strtod (fuel + 3)
          (ascii "\n    \"r\": " ++ (decimal scrypt.r.toNat ++
            (ascii ",\n    \"p\": " ++ (decimal scrypt.p.toNat ++
              (ascii "\n  \x7d" ++ rest))))) =
        some
          ([(CString.ofString "r",
                .number (strtod (decimal scrypt.r.toNat))),
              (CString.ofString "p",
                .number (strtod (decimal scrypt.p.toNat)))], rest) :=
    parseMembers_next rfl rfl rfl
      (parseValue_number _ (.inl rfl) (skip_decimal _ _)) rfl third
  exact
    parseValue_object rfl rfl
      (parseMembers_next rfl rfl rfl
        (parseValue_number _ (.inl rfl) (skip_decimal _ _)) rfl second)

/-- The tree of a wallet without accounts. -/
def walletTree (strtod : List UInt8 → Option Rat) (name version : CString)
    (scrypt : Nep2Params) : JsonTree :=
  .object
    [(CString.ofString "name", .string name),
      (CString.ofString "version", .string version),
      (CString.ofString "scrypt", scryptTree strtod scrypt),
      (CString.ofString "accounts", .array [])]

/-- What follows the version. -/
def scryptText (scrypt : Nep2Params) : List UInt8 :=
  ascii "\n  \"scrypt\":" ++
    (ascii " \x7b\n    \"n\": " ++ (decimal scrypt.n.toNat ++
      (ascii ",\n    \"r\": " ++ (decimal scrypt.r.toNat ++
        (ascii ",\n    \"p\": " ++ (decimal scrypt.p.toNat ++
          (ascii "\n  \x7d" ++
            (ascii "," ++
              (ascii "\n  \"accounts\": [\n" ++ footerText)))))))))

/-- What follows the name. -/
def versionText (wallet : Nep6Wallet) : List UInt8 :=
  ascii "\n  \"version\": \"" ++
    (orEmpty wallet.version ++ (ascii "\"," ++ scryptText wallet.scrypt))

/-- The text of a wallet without accounts, member by member. -/
theorem headerText_append (wallet : Nep6Wallet) :
    wallet.headerText ++ footerText =
      ascii "\x7b\n  \"name\": \"" ++
        (orEmpty wallet.name ++ (ascii "\"," ++ wallet.versionText)) := by
  simp only [headerText, versionText, scryptText, List.append_assoc]
  rfl

/-- A wallet with a plain name and a plain version is read as it is. -/
theorem parseValue_wallet {wallet : Nep6Wallet} {name version : CString}
    (named : wallet.name = some name)
    (versioned : wallet.version = some version)
    (plainName : ∀ byte ∈ name.characters, Plain byte)
    (plainVersion : ∀ byte ∈ version.characters, Plain byte) :
    parseValue strtod (fuel + 9) (wallet.headerText ++ footerText) =
      some (walletTree strtod name version wallet.scrypt, [0x0A]) := by
  have scrypt :
      parseMembers strtod (fuel + 6) (scryptText wallet.scrypt) =
        some
          ([(CString.ofString "scrypt", scryptTree strtod wallet.scrypt),
              (CString.ofString "accounts", .array [])], [0x0A]) :=
    parseMembers_next rfl rfl rfl (parseValue_scrypt _ _) rfl
      parseMembers_accounts
  have later :
      parseMembers strtod (fuel + 7) wallet.versionText =
        some
          ([(CString.ofString "version", .string version),
              (CString.ofString "scrypt", scryptTree strtod wallet.scrypt),
              (CString.ofString "accounts", .array [])], [0x0A]) := by
    rw [versionText, versioned]
    exact
      parseMembers_next rfl rfl rfl
        (parseValue_string rfl (parseString_plain plainVersion _)) rfl
        scrypt
  rw [headerText_append, named]
  exact
    parseValue_object rfl rfl
      (parseMembers_next rfl rfl rfl
        (parseValue_string rfl (parseString_plain plainName _)) rfl later)

/-- The name is at the end of its line. -/
theorem quote_versionText (wallet : Nep6Wallet) :
    ascii "\"," ++ wallet.versionText =
      0x22 :: 0x2C :: 0x0A ::
        (ascii "  \"version\": \"" ++
          (orEmpty wallet.version ++
            (ascii "\"," ++ scryptText wallet.scrypt))) := by
  rw [versionText]
  generalize
    orEmpty wallet.version ++
      (ascii "\"," ++ scryptText wallet.scrypt) = text
  rfl

/-- The version is at the end of its line. -/
theorem quote_scryptText (scrypt : Nep2Params) :
    ∃ rest,
      ascii "\"," ++ scryptText scrypt =
        0x22 :: 0x2C :: 0x0A :: rest := by
  rw [scryptText]
  generalize
    ascii " \x7b\n    \"n\": " ++ (decimal scrypt.n.toNat ++ _) = text
  exact ⟨ascii "  \"scrypt\":" ++ text, rfl⟩

/-- What was read of a wallet starts with a name. -/
theorem of_parseValue_name {text after : List UInt8} {tree : JsonTree}
    (read :
      parseValue strtod (fuel + 4) (ascii "\x7b\n  \"name\": \"" ++ text) =
        some (tree, after)) :
    ∃ name behind later,
      parseString text = some (name, behind) ∧
        tree = .object ((CString.ofString "name", .string name) :: later) ∧
        ∀ more,
          skip behind = 0x2C :: more →
            parseMembers strtod (fuel + 2) more = some (later, after) := by
  have opened :
      skip (ascii "\x7b\n  \"name\": \"" ++ text) =
        0x7B :: (ascii "\n  \"name\": \"" ++ text) :=
    rfl
  have begun :
      skip (ascii "\n  \"name\": \"" ++ text) =
        0x22 :: (ascii "name\": \"" ++ text) :=
    rfl
  have again :
      skip (0x22 :: (ascii "name\": \"" ++ text)) =
        0x22 :: (ascii "name\": \"" ++ text) :=
    rfl
  have named :
      parseString (ascii "name\": \"" ++ text) =
        some (CString.ofString "name", ascii ": \"" ++ text) :=
    rfl
  have separated :
      skip (ascii ": \"" ++ text) = 0x3A :: (ascii " \"" ++ text) :=
    rfl
  have quote : skip (ascii " \"" ++ text) = 0x22 :: text := rfl
  rcases of_parseValue_object read opened begun with
    ⟨members, rfl, inner⟩
  rcases of_parseMembers_string inner again named separated quote with
    ⟨name, behind, later, scanned, rfl, continues⟩
  exact ⟨name, behind, later, scanned, rfl, continues⟩

/-- What was read behind the name starts with a version. -/
theorem of_parseMembers_version {text after : List UInt8}
    {members : List (CString × JsonTree)}
    (read :
      parseMembers strtod (fuel + 2) (ascii "\n  \"version\": \"" ++ text) =
        some (members, after)) :
    ∃ version behind later,
      parseString text = some (version, behind) ∧
        members =
          (CString.ofString "version", .string version) :: later := by
  have opened :
      skip (ascii "\n  \"version\": \"" ++ text) =
        0x22 :: (ascii "version\": \"" ++ text) :=
    rfl
  have named :
      parseString (ascii "version\": \"" ++ text) =
        some (CString.ofString "version", ascii ": \"" ++ text) :=
    rfl
  have separated :
      skip (ascii ": \"" ++ text) = 0x3A :: (ascii " \"" ++ text) :=
    rfl
  have quote : skip (ascii " \"" ++ text) = 0x22 :: text := rfl
  rcases of_parseMembers_string read opened named separated quote with
    ⟨version, behind, later, scanned, rfl, -⟩
  exact ⟨version, behind, later, scanned, rfl⟩

theorem small_decimal (value : Nat) :
    ∀ byte ∈ decimal value, byte < 0x80 := by
  intro byte member
  have digit := isDigit_decimal value byte member
  rw [isDigit, decide_eq_true_iff] at digit
  exact UInt8.lt_of_le_of_lt digit.2 (by decide)

/-- The text is in UTF-8 when the name and the version are. -/
theorem valid_wallet_iff (wallet : Nep6Wallet) :
    Utf8.valid (wallet.headerText ++ footerText) = true ↔
      Utf8.valid (orEmpty wallet.name) = true ∧
        Utf8.valid (orEmpty wallet.version) = true := by
  have ending : Utf8.valid (0x2C :: scryptText wallet.scrypt) = true := by
    apply Utf8.valid_ascii
    have numeral := small_decimal
    simp only [scryptText, List.forall_mem_cons, List.forall_mem_append]
    refine
      ⟨by decide +kernel, forall_mem_ascii (by decide +kernel),
        forall_mem_ascii (by decide +kernel), numeral _,
        forall_mem_ascii (by decide +kernel), numeral _,
        forall_mem_ascii (by decide +kernel), numeral _,
        forall_mem_ascii (by decide +kernel),
        forall_mem_ascii (by decide +kernel),
        forall_mem_ascii (by decide +kernel),
        forall_mem_ascii (by decide +kernel)⟩
  have version :
      Utf8.valid (0x2C :: wallet.versionText) = true ↔
        Utf8.valid (orEmpty wallet.version) = true := by
    have framed :=
      @Utf8.valid_frame_iff (ascii ",\n  \"version\": \"")
        (orEmpty wallet.version) (0x2C :: scryptText wallet.scrypt) 0x22
        (forall_mem_ascii (by decide +kernel)) (by decide +kernel)
    rw [ending] at framed
    exact framed.trans ⟨And.left, fun valid => ⟨valid, rfl⟩⟩
  have framed :=
    @Utf8.valid_frame_iff (ascii "\x7b\n  \"name\": \"")
      (orEmpty wallet.name) (0x2C :: wallet.versionText) 0x22
      (forall_mem_ascii (by decide +kernel)) (by decide +kernel)
  rw [version] at framed
  rw [headerText_append]
  exact framed

end Reading

/-! ## What a file keeps -/

/-- What a file is expected to keep of an account. -/
def filed (account : Nep6Account) :
    Option CString × Option CString × Bool × Bool × Option CString ×
      Option CString :=
  (account.address, account.label, account.isDefault, account.lock,
    account.key, account.contract.bind Nep6Contract.script)

/--
The wallet is written as a well-formed text of the reported length, and it is
the same one when the text is loaded.
-/
def Survives (library : JsonLibrary) (strtod : List UInt8 → Option Rat)
    (writing reading : Allocator) (wallet : Nep6Wallet) : Prop :=
  ∃ text loaded,
    toJson writing wallet = .ok (text, text.strlen) ∧
      (parse strtod text.characters).isSome ∧
      fromJson library reading text = .ok loaded ∧
      loaded.name = wallet.name ∧
      loaded.version = wallet.version ∧
      loaded.scrypt = wallet.scrypt ∧
      loaded.accounts.map filed = wallet.accounts.map filed

/-- A text that can be copied into a JSON string as it is. -/
def Unescaped (text : CString) : Prop :=
  (∀ byte ∈ text.characters, Plain byte) ∧
    Utf8.valid text.characters = true

/--
A wallet without accounts, with a name and a version that need no escape, with
parameters that an `int` holds and with texts that fit into the buffer.
-/
structure FileSafe (wallet : Nep6Wallet) : Prop where
  empty : wallet.accounts = []
  name : ∃ name, wallet.name = some name ∧ Unescaped name
  version : ∃ version, wallet.version = some version ∧ Unescaped version
  parameters :
    wallet.scrypt.n.toNat < 2 ^ 31 ∧ wallet.scrypt.r.toNat < 2 ^ 31 ∧
      wallet.scrypt.p.toNat < 2 ^ 31
  fits : wallet.headerRoom ≤ 3989

section Lookups

variable {library : JsonLibrary}

theorem getObjectItem_first {members : List (CString × JsonTree)}
    (name : CString) (item : JsonTree) :
    library.getObjectItem (.object ((name, item) :: members)) name =
      some item :=
  JsonLibrary.getItem_first name item

theorem getObjectItem_later {members : List (CString × JsonTree)}
    {other name : CString} (item : JsonTree)
    (different :
      other.characters.map toLower ≠ name.characters.map toLower) :
    library.getObjectItem (.object ((other, item) :: members)) name =
      library.getObjectItem (.object members) name :=
  JsonLibrary.getItem_later item (JsonLibrary.sameName_false different)

/-- The integer of a whole number. -/
theorem valueint_natCast (value : Nat) :
    library.valueint (.number (some (value : Rat))) =
      if (value : Int) ≤ intMax then .ok (value : Int)
      else if library.ignoresCase then .error .signedOverflow
      else .ok intMax := by
  rw [JsonLibrary.valueint, Rat.num_natCast, Rat.den_natCast,
    Nat.cast_one, Int.tdiv_one]
  have above : intMin ≤ (value : Int) := by
    rw [intMin]
    omega
  by_cases small : (value : Int) ≤ intMax
  · rw [if_pos ⟨above, small⟩, if_pos small]
  · rw [if_neg fun both => small both.2, if_neg small]
    have positive : 0 < (value : Int) := by
      rw [intMax] at small
      omega
    rw [if_pos positive]

/-- A parameter is read as it was written when an `int` holds it. -/
theorem readParameter_iff (value : UInt32) :
    readParameter library (some (.number (some (value.toNat : Rat)))) =
        .ok value ↔
      value.toNat < 2 ^ 31 := by
  have bounded := value.toNat_lt
  rw [readParameter, valueint_natCast]
  by_cases small : (value.toNat : Int) ≤ intMax
  · rw [if_pos small]
    rw [intMax] at small
    have wrapped : ((value.toNat : Int) % 0x100000000).toNat = value.toNat := by
      omega
    change (.ok (UInt32.ofNat ((value.toNat : Int) % 0x100000000).toNat) :
      Outcome UInt32) = _ ↔ _
    rw [wrapped, UInt32.ofNat_toNat]
    exact iff_of_true rfl (by omega)
  · rw [if_neg small]
    rw [intMax] at small
    refine iff_of_false ?_ (by omega)
    split
    · intro same
      cases same
    · intro same
      injection same with same
      have equal := congrArg UInt32.toNat same
      change 0x7FFFFFFF = value.toNat at equal
      omega

/-- The parameters are read as they were written when an `int` holds them. -/
theorem readScrypt_iff {strtod : List UInt8 → Option Rat}
    (understands : library.Understands strtod) (scrypt : Nep2Params) :
    readScrypt library (some (scryptTree strtod scrypt)) = .ok scrypt ↔
      scrypt.n.toNat < 2 ^ 31 ∧ scrypt.r.toNat < 2 ^ 31 ∧
        scrypt.p.toNat < 2 ^ 31 := by
  have numeral (value : UInt32) :
      strtod (decimal value.toNat) = some (value.toNat : Rat) :=
    understands.numerals _ (value.toNat_lt.le.trans (by decide))
  have first :
      library.getObjectItem (scryptTree strtod scrypt)
          (CString.ofString "n") =
        some (.number (some (scrypt.n.toNat : Rat))) := by
    rw [scryptTree, numeral, numeral, numeral, getObjectItem_first]
  have second :
      library.getObjectItem (scryptTree strtod scrypt)
          (CString.ofString "r") =
        some (.number (some (scrypt.r.toNat : Rat))) := by
    rw [scryptTree, numeral, numeral, numeral,
      getObjectItem_later _ (by decide), getObjectItem_first]
  have third :
      library.getObjectItem (scryptTree strtod scrypt)
          (CString.ofString "p") =
        some (.number (some (scrypt.p.toNat : Rat))) := by
    rw [scryptTree, numeral, numeral, numeral,
      getObjectItem_later _ (by decide), getObjectItem_later _ (by decide),
      getObjectItem_first]
  rw [readScrypt]
  dsimp only
  rw [first, second, third]
  constructor
  · intro read
    rcases Except.bind_eq_ok_iff.mp read with ⟨n, readN, read⟩
    rcases Except.bind_eq_ok_iff.mp read with ⟨r, readR, read⟩
    rcases Except.bind_eq_ok_iff.mp read with ⟨p, readP, read⟩
    injection read with same
    subst same
    exact
      ⟨(readParameter_iff n).mp readN, (readParameter_iff r).mp readR,
        (readParameter_iff p).mp readP⟩
  · rintro ⟨smallN, smallR, smallP⟩
    refine
      Except.bind_eq_ok_iff.mpr ⟨_, (readParameter_iff _).mpr smallN, ?_⟩
    refine
      Except.bind_eq_ok_iff.mpr ⟨_, (readParameter_iff _).mpr smallR, ?_⟩
    exact
      Except.bind_eq_ok_iff.mpr ⟨_, (readParameter_iff _).mpr smallP, rfl⟩

/-- The members of a wallet's tree are found by their names. -/
theorem getObjectItem_walletTree (strtod : List UInt8 → Option Rat)
    (name version : CString) (scrypt : Nep2Params) :
    let item key :=
      library.getObjectItem (walletTree strtod name version scrypt)
        (CString.ofString key)
    item "name" = some (.string name) ∧
      item "version" = some (.string version) ∧
      item "scrypt" = some (scryptTree strtod scrypt) ∧
      item "accounts" = some (.array []) := by
  dsimp only
  rw [walletTree]
  refine ⟨getObjectItem_first _ _, ?_, ?_, ?_⟩
  · rw [getObjectItem_later _ (by decide), getObjectItem_first]
  · rw [getObjectItem_later _ (by decide),
      getObjectItem_later _ (by decide), getObjectItem_first]
  · rw [getObjectItem_later _ (by decide),
      getObjectItem_later _ (by decide), getObjectItem_later _ (by decide),
      getObjectItem_first]

/-- A text that was read as it is needed no escape. -/
theorem plain_of_readText {alloc : Allocator} (serves : alloc.Serves 4096)
    {shown : Option CString} {string : CString} {behind rest : List UInt8}
    (scanned :
      parseString (orEmpty shown ++ 0x22 :: 0x2C :: 0x0A :: rest) =
        some (string, behind))
    (kept : readText alloc (some (.string string)) = shown) :
    ∃ text,
      shown = some text ∧
        (∀ byte ∈ text.characters, Plain byte) ∧
        behind = 0x2C :: 0x0A :: rest := by
  cases shown with
  | none =>
      have found :
          parseString (orEmpty none ++ 0x22 :: 0x2C :: 0x0A :: rest) =
            some (CString.ofBuffer [], 0x2C :: 0x0A :: rest) :=
        rfl
      rw [found] at scanned
      injection scanned with same
      injection same with same _
      rw [← same, readText, if_pos (serves _ (by decide))] at kept
      cases kept
  | some text =>
      have same : string = text := by
        rw [readText] at kept
        split at kept
        · exact Option.some_inj.mp kept
        · cases kept
      subst same
      have plain := plain_of_parseString scanned
      refine ⟨string, rfl, plain, ?_⟩
      rw [orEmpty, parseString_plain plain] at scanned
      injection scanned with same
      injection same with _ same
      exact same.symm

end Lookups

/-- The tree that the text of a wallet is parsed to. -/
theorem parse_wallet {strtod : List UInt8 → Option Rat}
    {wallet : Nep6Wallet} {name version : CString}
    (named : wallet.name = some name)
    (versioned : wallet.version = some version)
    (plainName : Unescaped name) (plainVersion : Unescaped version) :
    parse strtod (wallet.headerText ++ footerText) =
      some (walletTree strtod name version wallet.scrypt) := by
  have valid : Utf8.valid (wallet.headerText ++ footerText) = true := by
    rw [valid_wallet_iff, named, versioned]
    exact ⟨plainName.2, plainVersion.2⟩
  have enough :
      ∃ fuel,
        (wallet.headerText ++ footerText).length + 1 = fuel + 9 := by
    have length := length_headerText wallet
    refine
      ⟨(wallet.headerText ++ footerText).length + 1 - 9, ?_⟩
    rw [List.length_append]
    omega
  rcases enough with ⟨fuel, length⟩
  rw [parse, if_pos valid, length,
    parseValue_wallet named versioned plainName.1 plainVersion.1]
  rfl

/-- A wallet that is safe in a file survives it. -/
theorem FileSafe.survives {library : JsonLibrary}
    {strtod : List UInt8 → Option Rat}
    (understands : library.Understands strtod)
    {writing reading : Allocator} (servesWriting : writing.Serves 4096)
    (servesReading : reading.Serves 4096) {wallet : Nep6Wallet}
    (safe : wallet.FileSafe) :
    Survives library strtod writing reading wallet := by
  rcases safe.name with ⟨name, named, plainName⟩
  rcases safe.version with ⟨version, versioned, plainVersion⟩
  have written :=
    toJson_fits safe.empty safe.fits
      (servesWriting.neocGrants (by decide) le_rfl)
  have room := safe.fits
  rw [headerRoom, named, versioned] at room
  have parsed :=
    @parse_wallet strtod wallet name version named versioned plainName
      plainVersion
  have shallow :
      (walletTree strtod name version wallet.scrypt).depth ≤ 1000 :=
    Nat.le_of_ble_eq_true rfl
  have read :=
    understands.parses
      ⟨wallet.headerText ++ footerText, nul_free_header wallet⟩ _ parsed
      shallow
  have scrypt :=
    (readScrypt_iff understands wallet.scrypt).mpr safe.parameters
  have copied {text : CString} (short : text.characters.length ≤ 3989) :
      readText reading (some (.string text)) = some text := by
    rw [readText, if_pos (servesReading _ ?_)]
    rw [CString.strlen]
    omega
  refine
    ⟨_, { name := some name, version := some version,
          scrypt := wallet.scrypt, accounts := [], accountCapacity := 0,
          slots := 0 }, written, ?_, ?_, named.symm, versioned.symm, rfl,
      ?_⟩
  · rw [parsed]
    rfl
  · rcases
        @getObjectItem_walletTree library strtod name version
          wallet.scrypt with
      ⟨atName, atVersion, atScrypt, atAccounts⟩
    dsimp only at atName atVersion atScrypt atAccounts
    unfold fromJson
    rw [read]
    dsimp only
    rw [servesReading.neocGrants (by decide) (by decide),
      if_neg (by decide), accountItems, atName, atVersion, atScrypt,
      atAccounts, copied (by rw [orEmpty, orEmpty] at room; omega),
      copied (by rw [orEmpty, orEmpty] at room; omega)]
    refine Except.bind_eq_ok_iff.mpr ⟨_, scrypt, ?_⟩
    rfl
  · rw [safe.empty]

/-- Only a wallet that is safe in a file survives it. -/
theorem fileSafe_of_survives {library : JsonLibrary}
    {strtod : List UInt8 → Option Rat}
    (understands : library.Understands strtod)
    {writing reading : Allocator} (servesWriting : writing.Serves 4096)
    (servesReading : reading.Serves 4096) {wallet : Nep6Wallet}
    (empty : wallet.accounts = [])
    (survives : Survives library strtod writing reading wallet) :
    wallet.FileSafe := by
  rcases survives with
    ⟨text, loaded, written, wellFormed, read, sameName, sameVersion,
      sameScrypt, -⟩
  have fits := headerRoom_le_of_toJson empty written
  have expected :=
    toJson_fits empty fits (servesWriting.neocGrants (by decide) le_rfl)
  rw [written] at expected
  injection expected with expected
  injection expected with sameText _
  rcases Option.isSome_iff_exists.mp wellFormed with ⟨tree, parsed⟩
  rcases fromJson_eq_ok read with ⟨jsonObj, scrypt, found, readScrypt, rfl⟩
  have agreed := understands.agrees _ _ _ parsed found
  subst agreed sameText
  dsimp only at parsed sameName sameVersion sameScrypt
  rcases of_parse parsed with ⟨valid, after, value, -⟩
  rcases (valid_wallet_iff wallet).mp valid with ⟨validName, validVersion⟩
  have enough :
      ∃ fuel,
        (wallet.headerText ++ footerText).length + 1 = fuel + 4 := by
    have length := length_headerText wallet
    refine ⟨(wallet.headerText ++ footerText).length + 1 - 4, ?_⟩
    rw [List.length_append]
    omega
  rcases enough with ⟨fuel, length⟩
  rw [length, headerText_append] at value
  rcases of_parseValue_name value with
    ⟨name, behind, later, scanned, rfl, continues⟩
  rw [getObjectItem_first] at sameName
  rw [quote_versionText] at scanned
  rcases plain_of_readText servesReading scanned sameName with
    ⟨name', named, plainName, rfl⟩
  have members := continues _ rfl
  rcases of_parseMembers_version members with
    ⟨version, behind, others, scannedVersion, rfl⟩
  rw [getObjectItem_later _ (by decide), getObjectItem_first]
    at sameVersion
  rcases quote_scryptText wallet.scrypt with ⟨ending, line⟩
  rw [line] at scannedVersion
  rcases plain_of_readText servesReading scannedVersion sameVersion with
    ⟨version', versioned, plainVersion, -⟩
  rw [named] at validName
  rw [versioned] at validVersion
  -- With plain texts the tree is known, and so are the parameters in it.
  have whole :=
    @parse_wallet strtod wallet name' version' named versioned
      ⟨plainName, validName⟩ ⟨plainVersion, validVersion⟩
  rw [parsed] at whole
  injection whole with whole
  rcases
      @getObjectItem_walletTree library strtod name' version'
        wallet.scrypt with
    ⟨-, -, atScrypt, -⟩
  dsimp only at atScrypt
  rw [whole, atScrypt, sameScrypt] at readScrypt
  exact
    { empty
      name := ⟨name', named, plainName, validName⟩
      version := ⟨version', versioned, plainVersion, validVersion⟩
      parameters := (readScrypt_iff understands wallet.scrypt).mp readScrypt
      fits }

/-! ## Every wallet that the calls build -/

/-- The calls that build a wallet from keys. -/
def Operation.Builds : Operation → Prop
  | .addAccountExisting _ _ => False
  | _ => True

/-- Every account has the script of its contract. -/
def Scripted (wallet : Nep6Wallet) : Prop :=
  ∀ account ∈ wallet.accounts,
    account.contract.bind Nep6Contract.script ≠ none

theorem Scripted.congr {wallet other : Nep6Wallet}
    (scripted : wallet.Scripted) (same : other.accounts = wallet.accounts) :
    other.Scripted := by
  rw [Scripted, same]
  exact scripted

/-- What is left after a removal was there before. -/
theorem removeFrom_sublist {address : CString}
    {accounts kept : List Nep6Account}
    (removed : removeFrom address accounts = .ok kept) :
    kept.Sublist accounts := by
  induction accounts generalizing kept with
  | nil => cases removed
  | cons account rest induction =>
      unfold removeFrom at removed
      split at removed
      · cases removed
      split at removed
      · injection removed with same
        rw [← same]
        exact List.sublist_cons_self account rest
      · rcases Except.bind_eq_ok_iff.mp removed with
          ⟨others, later, removed⟩
        injection removed with same
        rw [← same]
        exact (induction later).cons_cons account

theorem accounts_setVersion (alloc : Allocator) (version : Option CString)
    (wallet : Nep6Wallet) :
    (setVersion alloc version wallet).2.accounts = wallet.accounts := by
  unfold setVersion
  split
  · rfl
  · split
    · rfl
    · rfl

section Histories

variable {curve : Curve} {derivation : KeyDerivation curve}
  {cipher : Cipher} {host : Host}

/-- An account that was made has the script of its key. -/
theorem Scripted.add {wallet : Nep6Wallet} (scripted : wallet.Scripted)
    (alloc : Allocator) (privateKey : Bytes 32) (password : CString)
    (label : Option CString) (isDefault : Bool) :
    (addAccount derivation cipher host alloc privateKey password label
      isDefault wallet).2.Scripted := by
  rw [addAccount, Call.bind_of_ok (Call.read_run _ _)]
  cases made :
      makeAccount derivation cipher host alloc wallet.scrypt privateKey
        password label isDefault with
  | error reason =>
      rw [Call.lift_error_bind]
      exact scripted
  | ok account =>
      rw [Call.lift_ok_bind]
      rcases @addAccountExisting_cases alloc account wallet with
        ⟨code, text, failed⟩ |
          ⟨address, -, -, -, ⟨-, failed⟩ | ⟨-, appended⟩⟩
      · rw [failed]
        exact scripted
      · rw [failed]
        exact scripted.congr wallet.accounts_roomy
      · rw [appended]
        rcases makeAccount_eq_ok made with
          ⟨keyPair, address, key, contract, -, -, script, rfl⟩
        intro member inside
        rcases List.mem_append.mp inside with before | last
        · rw [clearDefaults] at before
          split at before
          · rcases List.mem_map.mp before with ⟨existing, old, rfl⟩
            exact scripted existing old
          · exact scripted member before
        · rw [List.mem_singleton.mp last]
          change contract.script ≠ none
          rw [script]
          intro same
          cases same

theorem next_scripted {wallet : Nep6Wallet} {operation : Operation}
    (scripted : wallet.Scripted) (builds : operation.Builds) :
    (next derivation cipher host wallet operation).Scripted := by
  cases operation with
  | setVersion alloc version =>
      exact scripted.congr (accounts_setVersion alloc version wallet)
  | setScrypt params => exact scripted.congr rfl
  | addAccount alloc privateKey password label isDefault =>
      exact scripted.add alloc privateKey password label isDefault
  | addAccountExisting alloc account => exact builds.elim
  | removeAccount address =>
      rw [next, perform]
      unfold removeAccount
      split
      · exact scripted
      · rename_i accounts removed
        intro account member
        exact scripted account ((removeFrom_sublist removed).mem member)

/-- A scripted account does not come back from a file. -/
theorem empty_of_survives {library : JsonLibrary}
    {strtod : List UInt8 → Option Rat} {writing reading : Allocator}
    {wallet : Nep6Wallet} (scripted : wallet.Scripted)
    (survives : Survives library strtod writing reading wallet) :
    wallet.accounts = [] := by
  rcases survives with ⟨text, loaded, -, -, read, -, -, -, same⟩
  rcases fromJson_eq_ok read with ⟨jsonObj, scrypt, -, -, rfl⟩
  rw [List.eq_nil_iff_forall_not_mem]
  intro account member
  have found : filed account ∈ wallet.accounts.map filed :=
    List.mem_map_of_mem member
  rw [← same, List.map_map] at found
  rcases List.mem_map.mp found with ⟨item, -, equal⟩
  have script :
      account.contract.bind Nep6Contract.script = none := by
    have last := congrArg (fun view => view.2.2.2.2.2) equal
    exact last.symm
  exact scripted account member script

/--
A wallet that the calls built survives a file exactly when it has no
accounts, a name and a version that need no escape, parameters that an `int`
holds, and texts that fit into the buffer.
-/
theorem survives_iff
    {library : JsonLibrary}
    {strtod : List UInt8 → Option Rat}
    (understands : library.Understands strtod)
    {writing reading : Allocator}
    (servesWriting : writing.Serves 4096)
    (servesReading : reading.Serves 4096)
    {alloc : Allocator}
    {name version : Option CString}
    {start : Nep6Wallet}
    (created : create alloc name version = .ok start)
    (operations : List Operation)
    (builds : ∀ operation ∈ operations, operation.Builds) :
    Survives library strtod writing reading
        (finalState (next derivation cipher host) start operations) ↔
      FileSafe
        (finalState (next derivation cipher host) start operations) := by
  have begins : start.Scripted := by
    rw [create] at created
    split at created
    · cases created
    split at created
    · cases created
    injection created with same
    subst same
    exact List.forall_mem_nil _
  have scripted :
      (finalState (next derivation cipher host) start
        operations).Scripted := by
    refine
      finalState_invariant Scripted
        (fun wallet operation held => next_scripted held) begins ?_
    exact (along_const start operations).mpr builds
  constructor
  · intro survives
    exact
      fileSafe_of_survives understands servesWriting servesReading
        (empty_of_survives scripted survives) survives
  · intro safe
    exact safe.survives understands servesWriting servesReading

end Histories

/-- A wallet with another version survives. -/
theorem newWallet_survives :
    Survives JsonLibrary.byGrammar JsonGrammar.strtod .ample
      .ample
      (finalState (next baseDerivation neoCipher nep2Host) newWallet
        [.setVersion .ample (some (CString.ofString "2.0"))]) := by
  have created : create .ample none none = .ok newWallet := by
    decide +kernel
  have serves : Allocator.ample.Serves 4096 :=
    Allocator.ample_serves (by decide)
  have state :
      finalState (next baseDerivation neoCipher nep2Host) newWallet
          [.setVersion .ample (some (CString.ofString "2.0"))] =
        { newWallet with version := some (CString.ofString "2.0") } := by
    decide +kernel
  refine
    (survives_iff JsonLibrary.byGrammar_understands serves serves created _
      ?_).mpr ?_
  · intro operation member
    rw [List.mem_singleton.mp member]
    trivial
  · rw [state]
    exact
      { empty := rfl
        name :=
          ⟨CString.ofString "NeoC Wallet", rfl, by decide +kernel,
            by decide +kernel⟩
        version :=
          ⟨CString.ofString "2.0", rfl, by decide +kernel,
            by decide +kernel⟩
        parameters := by decide
        fits := by decide +kernel }

/-- A wallet with an account does not. -/
theorem keyOne_not_survives :
    ∃ wallet,
      create .ample none none = .ok newWallet ∧
        addAccount baseDerivation neoCipher nep2Host .ample
            privateKeyOne neoPassword none true newWallet =
          (.ok (), wallet) ∧
        ¬ Survives JsonLibrary.byGrammar JsonGrammar.strtod
          .ample .ample wallet := by
  rcases WalletAccount.addAccount_keyOne with ⟨wallet, ran⟩
  have begins : newWallet.Scripted := List.forall_mem_nil _
  have scripted : wallet.Scripted := by
    have added :=
      @Scripted.add _ baseDerivation neoCipher nep2Host _ begins
        .ample privateKeyOne neoPassword none true
    rw [ran] at added
    exact added
  refine ⟨wallet, by decide +kernel, ran, ?_⟩
  intro survives
  rcases addAccount_eq_ok ran with ⟨account, -, accounts⟩
  rw [empty_of_survives scripted survives] at accounts
  exact
    List.append_ne_nil_of_right_ne_nil _ (List.cons_ne_nil account [])
      accounts.symm

end Nep6Wallet

end NeoC
