import NeoC.Runtime.Text

/-!
# Payment URIs

A payment URI names an address and, behind a question mark, an asset, an
amount and a description.  The texts are copied as they are when a URI is
built, and a URI is read by cutting at `?`, `=` and `&`.  So a text comes
back unless it contains the character that it is cut at.

The amount is read by `strtoull`, which reads something from every text.  And
a parameter without a value takes the next one into its name, which is then
not recognised.
-/

namespace NeoC

open JsonGrammar

/-- A `neoc_neo_uri_t`. -/
structure NeoUri where
  address : CString
  asset : Option CString
  amount : UInt64
  description : Option CString
deriving DecidableEq

namespace NeoUri

/-- `sizeof(neoc_neo_uri_t)`. -/
def structSize : Nat := 32

/-! ## Reading -/

/-- A copy of a part of the URI, or `NULL`. -/
def copyPart (alloc : Allocator) (value : List UInt8) : Option CString :=
  if alloc.neocGrants (value.length + 1) then some (CString.ofBuffer value)
  else none

/-- Keep the value of a known parameter. -/
def store (alloc : Allocator) (uri : NeoUri) (name value : List UInt8) :
    NeoUri :=
  if name = ascii "asset" then
    { uri with asset := copyPart alloc value }
  else if name = ascii "amount" then
    if alloc.neocGrants (value.length + 1) then
      { uri with amount := strtoull value }
    else uri
  else if name = ascii "description" then
    { uri with description := copyPart alloc value }
  else
    uri

/-- The loop over the query; the fuel bounds the number of its rounds. -/
def readQuery (alloc : Allocator) : Nat → List UInt8 → NeoUri → NeoUri
  | 0, _, uri => uri
  | fuel + 1, ptr, uri =>
      match strchr 0x3D ptr with
      | none => uri
      | some (name, value) =>
          let uri := store alloc uri name (value.takeWhile (· ≠ 0x26))
          match strchr 0x26 value with
          | none => uri
          | some (_, after) => readQuery alloc fuel after uri

/-- What is read behind the scheme. -/
def readText (alloc : Allocator) (ptr : List UInt8) : NeoUri :=
  let parsed : NeoUri :=
    { address := CString.ofBuffer (ptr.takeWhile (· ≠ 0x3F))
      asset := none
      amount := 0
      description := none }
  match strchr 0x3F ptr with
  | none => parsed
  | some (_, query) => readQuery alloc query.length query parsed

/-- `neoc_neo_uri_parse`. -/
def parse (alloc : Allocator) (uri : CString) : Outcome NeoUri :=
  let ptr := uri.characters.drop 4
  if uri.characters.take 4 ≠ ascii "neo:" then
    .error (.error .invalidFormat "Invalid NEO URI scheme")
  else if alloc.neocGrants structSize = false then
    .error (.error .outOfMemory "Failed to allocate URI")
  else if
    alloc.neocGrants ((ptr.takeWhile (· ≠ 0x3F)).length + 1) = false
  then
    .error (.error .outOfMemory "Failed to allocate address")
  else
    .ok (readText alloc ptr)

/-! ## Building -/

/-- The parameters of a URI, each with its name. -/
def parameters (uri : NeoUri) : List (List UInt8 × List UInt8) :=
  (uri.asset.map fun asset => (ascii "asset", asset.characters)).toList ++
    (if uri.amount = 0 then []
      else [(ascii "amount", decimal uri.amount.toNat)]) ++
    (uri.description.map fun description =>
      (ascii "description", description.characters)).toList

/-- The text of a parameter. -/
def parameterText (parameter : List UInt8 × List UInt8) : List UInt8 :=
  parameter.1 ++ 0x3D :: parameter.2

/-- Parameters with `&` between them. -/
def queryText : List (List UInt8 × List UInt8) → List UInt8
  | [] => []
  | [last] => parameterText last
  | parameter :: rest => parameterText parameter ++ 0x26 :: queryText rest

/-- The text that `strcpy` and `strcat` put together. -/
def text (uri : NeoUri) : List UInt8 :=
  ascii "neo:" ++ uri.address.characters ++
    if uri.parameters = [] then [] else 0x3F :: queryText uri.parameters

/-- The size that is computed for the text and its NUL. -/
def computedSize (uri : NeoUri) : Nat :=
  4 + uri.address.strlen + 1 +
    if uri.asset = none ∧ uri.amount = 0 ∧ uri.description = none then 0
    else
      1 + (match uri.asset with
        | none => 0
        | some asset => 6 + asset.strlen + 1) +
        (if uri.amount > 0 then 7 + 20 + 1 else 0) +
        (match uri.description with
        | none => 0
        | some description => 12 + description.strlen + 1)

/-- `neoc_neo_uri_build`. -/
def build (alloc : Allocator) (address : CString) (asset : Option CString)
    (amount : UInt64) (description : Option CString) : Outcome CString :=
  let uri : NeoUri := { address, asset, amount, description }
  let size := uri.computedSize % sizeModulus
  if alloc.neocGrants size = false then
    .error (.error .outOfMemory "Failed to allocate URI")
  else if uri.text.length < size then
    .ok (CString.ofBuffer uri.text)
  else
    .error .illegalAccess

/-! ## What is expected -/

/-- The text fits, and it is read as what it was built from. -/
structure RoundTrips (alloc : Allocator) (uri : NeoUri) : Prop where
  fits :
    build alloc uri.address uri.asset uri.amount uri.description ≠
      .error .illegalAccess
  returns :
    ∀ built,
      build alloc uri.address uri.asset uri.amount uri.description =
          .ok built →
        parse alloc built = .ok uri

/-- No text contains the character that it is cut at. -/
structure Delimited (uri : NeoUri) : Prop where
  address : 0x3F ∉ uri.address.characters
  asset : ∀ asset, uri.asset = some asset → 0x26 ∉ asset.characters
  description :
    ∀ description,
      uri.description = some description → 0x26 ∉ description.characters

/-- The parameters of a query. -/
def queryFields (uri : CString) : List (List UInt8) :=
  match strchr 0x3F (uri.characters.drop 4) with
  | none => []
  | some (_, query) => query.splitOn 0x26

/-- The value of a parameter whose name is `amount`. -/
def amountOf (field : List UInt8) : Option (List UInt8) :=
  match strchr 0x3D field with
  | none => none
  | some (name, value) => if name = ascii "amount" then some value else none

/-- What is written behind `amount=`, each time that it is. -/
def amountsWritten (uri : CString) : List (List UInt8) :=
  (queryFields uri).filterMap amountOf

/-- What is stored is what is written, or nothing is returned. -/
def AmountRight (alloc : Allocator) (uri : CString) : Prop :=
  ∀ parsed,
    parse alloc uri = .ok parsed →
      ∀ written ∈ amountsWritten uri,
        IsNumeral written ∧ parsed.amount.toNat = decimalValue written

/--
The parameters that are not taken into the name of one without a value; the
flag says that none is waiting for its value.
-/
def reached : Bool → List (List UInt8) → List (List UInt8)
  | _, [] => []
  | free, field :: rest =>
      if 0x3D ∈ field then
        if free then field :: reached true rest else reached true rest
      else reached false rest

/--
The amounts are numerals of one number below `2 ^ 64`, and one of them is not
taken into the name of another parameter, unless the number is zero.
-/
def AmountPlain (uri : CString) : Prop :=
  uri.characters.take 4 = ascii "neo:" →
    amountsWritten uri ≠ [] →
      ∃ value < 2 ^ 64,
        (∀ written ∈ amountsWritten uri,
          IsNumeral written ∧ decimalValue written = value) ∧
          ((reached true (queryFields uri)).filterMap amountOf ≠ [] ∨
            value = 0)

/-! ## What is built -/

theorem length_amount_le (amount : UInt64) :
    (decimal amount.toNat).length ≤ 20 :=
  length_decimal_le (by decide) (amount.toNat_lt.trans (by decide))

/-- The computed size has room for the text and its NUL. -/
theorem length_text_lt (uri : NeoUri) : uri.text.length < uri.computedSize := by
  have digits := length_amount_le uri.amount
  rcases uri with ⟨address, asset, amount, description⟩
  dsimp only at digits
  have names :
      (ascii "neo:").length = 4 ∧ (ascii "asset").length = 5 ∧
        (ascii "amount").length = 6 ∧ (ascii "description").length = 11 := by
    decide
  by_cases zero : amount = 0
  · cases asset <;> cases description <;>
      simp [text, parameters, computedSize, queryText, parameterText, zero,
        CString.strlen, names] <;>
      omega
  · have positive : 0 < amount := UInt64.pos_iff_ne_zero.mpr zero
    cases asset <;> cases description <;>
      simp [text, parameters, computedSize, queryText, parameterText, zero,
        positive, CString.strlen, names] <;>
      omega

/-- No part of the text contains a NUL. -/
theorem nul_not_mem_text (uri : NeoUri) : 0 ∉ uri.text := by
  have names :
      (0 : UInt8) ∉ ascii "neo:" ∧ (0 : UInt8) ∉ ascii "asset" ∧
        (0 : UInt8) ∉ ascii "amount" ∧ (0 : UInt8) ∉ ascii "description" := by
    decide
  have digits : (0 : UInt8) ∉ decimal uri.amount.toNat :=
    not_mem_decimal rfl _
  rcases uri with ⟨address, asset, amount, description⟩
  by_cases zero : amount = 0
  · cases asset <;> cases description <;>
      simp [text, parameters, queryText, parameterText, zero, names,
        CString.nul_free]
  · cases asset <;> cases description <;>
      simp [text, parameters, queryText, parameterText, zero, names, digits,
        CString.nul_free]

theorem ofBuffer_of_nul_free {content : List UInt8} (free : 0 ∉ content) :
    (CString.ofBuffer content).characters = content :=
  takeWhile_ne_eq_self_iff.mpr free

section Serving

variable {alloc : Allocator} {bound : Nat} (serves : alloc.Serves bound)

include serves

theorem copyPart_eq {value : List UInt8} (room : value.length + 1 ≤ bound) :
    copyPart alloc value = some (CString.ofBuffer value) := by
  rw [copyPart, if_pos (serves.neocGrants (Nat.succ_pos _) room)]

theorem build_eq {uri : NeoUri} (room : uri.computedSize ≤ bound) :
    build alloc uri.address uri.asset uri.amount uri.description =
      .ok (CString.ofBuffer uri.text) := by
  have fits := length_text_lt uri
  have exact : uri.computedSize % sizeModulus = uri.computedSize :=
    Nat.mod_eq_of_lt (lt_sizeModulus (room.trans serves.bound_le))
  have granted : alloc.neocGrants uri.computedSize = true :=
    serves.neocGrants (by omega) room
  rw [build, exact, granted, if_neg (by decide), if_pos fits]

/-- A URI with the scheme is read. -/
theorem parse_eq {uri : CString} (node : structSize ≤ bound)
    (room : uri.strlen + 1 ≤ bound)
    (scheme : uri.characters.take 4 = ascii "neo:") :
    parse alloc uri = .ok (readText alloc (uri.characters.drop 4)) := by
  have shorter :
      ((uri.characters.drop 4).takeWhile (· ≠ 0x3F)).length + 1 ≤ bound := by
    have cut := (List.takeWhile_sublist (· ≠ (0x3F : UInt8))
      (l := uri.characters.drop 4)).length_le
    rw [List.length_drop] at cut
    rw [CString.strlen] at room
    omega
  rw [parse, if_neg (not_not.mpr scheme),
    serves.neocGrants (by decide) node, if_neg (by decide),
    serves.neocGrants (Nat.succ_pos _) shorter, if_neg (by decide)]

end Serving

/-! ## Reading parameters -/

section Reading

variable {alloc : Allocator}

theorem readQuery_nil (fuel : Nat) (uri : NeoUri) :
    readQuery alloc fuel [] uri = uri := by
  cases fuel <;> rfl

/-- A parameter up to its `&` is stored, and the rest is read. -/
theorem readQuery_next {fuel : Nat} {name value after : List UInt8}
    (named : 0x3D ∉ name) (valued : 0x26 ∉ value) (uri : NeoUri) :
    readQuery alloc (fuel + 1) (name ++ 0x3D :: (value ++ 0x26 :: after))
        uri =
      readQuery alloc fuel after (store alloc uri name value) := by
  rw [readQuery, strchr_append named]
  dsimp only
  rw [takeWhile_ne_append valued, strchr_append valued]

/-- A parameter at the end is stored. -/
theorem readQuery_last {fuel : Nat} {name value : List UInt8}
    (named : 0x3D ∉ name) (valued : 0x26 ∉ value) (uri : NeoUri) :
    readQuery alloc (fuel + 1) (name ++ 0x3D :: value) uri =
      store alloc uri name value := by
  rw [readQuery, strchr_append named]
  dsimp only
  rw [takeWhile_ne_eq_self_iff.mpr valued, strchr_eq_none_iff.mpr valued]

/-- Parameters that keep apart are stored one after the other. -/
theorem readQuery_queryText {parameters : List (List UInt8 × List UInt8)}
    (apart :
      ∀ parameter ∈ parameters, 0x3D ∉ parameter.1 ∧ 0x26 ∉ parameter.2)
    {fuel : Nat} (enough : parameters.length ≤ fuel) (uri : NeoUri) :
    readQuery alloc fuel (queryText parameters) uri =
      parameters.foldl
        (fun uri parameter => store alloc uri parameter.1 parameter.2)
        uri := by
  induction parameters generalizing fuel uri with
  | nil => exact readQuery_nil fuel uri
  | cons parameter rest induction =>
      rcases List.forall_mem_cons.mp apart with ⟨⟨named, valued⟩, later⟩
      obtain ⟨fuel, rfl⟩ : ∃ less, fuel = less + 1 :=
        Nat.exists_eq_add_one.mpr (by simp at enough; omega)
      cases rest with
      | nil => exact readQuery_last named valued uri
      | cons second rest =>
          rw [queryText, parameterText, List.append_assoc, List.cons_append,
            readQuery_next named valued, List.foldl_cons]
          · apply induction later
            simp only [List.length_cons] at enough ⊢
            omega
          · exact List.cons_ne_nil _ _

theorem store_address (uri : NeoUri) (name value : List UInt8) :
    (store alloc uri name value).address = uri.address := by
  rw [store]
  split_ifs <;> rfl

theorem readQuery_address (fuel : Nat) (query : List UInt8) (uri : NeoUri) :
    (readQuery alloc fuel query uri).address = uri.address := by
  induction fuel generalizing query uri with
  | zero => rfl
  | succ fuel induction =>
      rw [readQuery]
      split
      · rfl
      · dsimp only
        split
        · exact store_address uri _ _
        · rw [induction, store_address]

/-- A text that is read from a query has no `&` in it. -/
structure Cut (uri : NeoUri) : Prop where
  asset : ∀ asset, uri.asset = some asset → 0x26 ∉ asset.characters
  description :
    ∀ description,
      uri.description = some description → 0x26 ∉ description.characters

theorem copyPart_cut {value : List UInt8} (cut : 0x26 ∉ value)
    (part : CString) (copied : copyPart alloc value = some part) :
    0x26 ∉ part.characters := by
  rw [copyPart] at copied
  split at copied
  · rw [← Option.some_inj.mp copied]
    intro member
    exact cut ((List.takeWhile_sublist _).mem member)
  · cases copied

theorem Cut.store {uri : NeoUri} (held : Cut uri) {name value : List UInt8}
    (cut : 0x26 ∉ value) : Cut (store alloc uri name value) := by
  rw [NeoUri.store]
  split_ifs
  · exact ⟨copyPart_cut cut, held.description⟩
  · exact ⟨held.asset, held.description⟩
  · exact held
  · exact ⟨held.asset, copyPart_cut cut⟩
  · exact held

theorem Cut.readQuery {uri : NeoUri} (held : Cut uri) (fuel : Nat)
    (query : List UInt8) : Cut (readQuery alloc fuel query uri) := by
  induction fuel generalizing query uri with
  | zero => exact held
  | succ fuel induction =>
      rw [NeoUri.readQuery]
      split
      · exact held
      · dsimp only
        split
        · exact held.store not_mem_takeWhile_ne
        · exact induction (held.store not_mem_takeWhile_ne) _

theorem readText_address (ptr : List UInt8) :
    (readText alloc ptr).address =
      CString.ofBuffer (ptr.takeWhile (· ≠ 0x3F)) := by
  rw [readText]
  split
  · rfl
  · rw [readQuery_address]

theorem readText_cut (ptr : List UInt8) : Cut (readText alloc ptr) := by
  have absent (text : CString) (some : (none : Option CString) = some text) :
      0x26 ∉ text.characters := by
    cases some
  rw [readText]
  split
  · exact ⟨absent, absent⟩
  · exact Cut.readQuery ⟨absent, absent⟩ _ _

end Reading

/-! ## The round trip -/

section RoundTrip

variable {alloc : Allocator} {bound : Nat} (serves : alloc.Serves bound)
  {uri : NeoUri}

theorem take_text (uri : NeoUri) : uri.text.take 4 = ascii "neo:" := by
  rw [text, List.append_assoc, List.take_append_of_le_length (by decide)]
  decide

theorem drop_text (uri : NeoUri) :
    uri.text.drop 4 =
      uri.address.characters ++
        if uri.parameters = [] then []
        else 0x3F :: queryText uri.parameters := by
  have scheme : (ascii "neo:").length = 4 := by decide
  rw [text, List.append_assoc, ← scheme, List.drop_left]

/-- The address that is read from the text. -/
theorem takeWhile_text (address : 0x3F ∉ uri.address.characters) :
    (uri.text.drop 4).takeWhile (· ≠ 0x3F) = uri.address.characters := by
  rw [drop_text]
  split
  · rw [List.append_nil]
    exact takeWhile_ne_eq_self_iff.mpr address
  · exact takeWhile_ne_append address

theorem parameters_apart (delimited : uri.Delimited) :
    ∀ parameter ∈ uri.parameters,
      0x3D ∉ parameter.1 ∧ 0x26 ∉ parameter.2 := by
  have names :
      (0x3D : UInt8) ∉ ascii "asset" ∧ (0x3D : UInt8) ∉ ascii "amount" ∧
        (0x3D : UInt8) ∉ ascii "description" := by
    decide
  intro parameter member
  rw [parameters, List.mem_append, List.mem_append] at member
  rcases member with (member | member) | member
  · rw [Option.mem_toList, Option.map_eq_some_iff] at member
    rcases member with ⟨asset, some, rfl⟩
    exact ⟨names.1, delimited.asset asset some⟩
  · split at member
    · cases member
    · rw [List.mem_singleton.mp member]
      exact ⟨names.2.1, not_mem_decimal rfl _⟩
  · rw [Option.mem_toList, Option.map_eq_some_iff] at member
    rcases member with ⟨description, some, rfl⟩
    exact ⟨names.2.2, delimited.description description some⟩

theorem length_queryText (parameters : List (List UInt8 × List UInt8)) :
    parameters.length ≤ (queryText parameters).length := by
  induction parameters with
  | nil => rfl
  | cons parameter rest induction =>
      cases rest with
      | nil =>
          simp only [queryText, parameterText, List.length_append,
            List.length_cons, List.length_nil]
          omega
      | cons second rest =>
          rw [queryText]
          · simp only [List.length_append, List.length_cons] at induction ⊢
            omega
          · exact List.cons_ne_nil _ _

include serves

theorem store_asset (read : NeoUri) {asset : CString}
    (room : asset.strlen + 1 ≤ bound) :
    store alloc read (ascii "asset") asset.characters =
      { read with asset := some asset } := by
  rw [store, if_pos rfl, copyPart_eq serves room, CString.ofBuffer_characters]

theorem store_amount (read : NeoUri) (amount : UInt64) (room : 21 ≤ bound) :
    store alloc read (ascii "amount") (decimal amount.toNat) =
      { read with amount } := by
  have digits := length_amount_le amount
  rw [store, if_neg (by decide), if_pos rfl,
    serves.neocGrants (Nat.succ_pos _) (by omega), if_pos rfl,
    strtoull_decimal]

theorem store_description (read : NeoUri) {description : CString}
    (room : description.strlen + 1 ≤ bound) :
    store alloc read (ascii "description") description.characters =
      { read with description := some description } := by
  rw [store, if_neg (by decide), if_neg (by decide),
    if_pos rfl, copyPart_eq serves room, CString.ofBuffer_characters]

/-- Storing the parameters of a URI puts its fields back. -/
theorem foldl_store (room : uri.computedSize ≤ bound) :
    uri.parameters.foldl
        (fun read parameter => store alloc read parameter.1 parameter.2)
        { address := uri.address
          asset := none
          amount := 0
          description := none } =
      uri := by
  rcases uri with ⟨address, asset, amount, description⟩
  have assetRoom : ∀ text ∈ asset, text.strlen + 1 ≤ bound := by
    rintro text rfl
    simp only [computedSize, reduceCtorEq, false_and, if_false] at room
    omega
  have amountRoom : amount ≠ 0 → 21 ≤ bound := by
    intro some
    have positive : 0 < amount := UInt64.pos_iff_ne_zero.mpr some
    simp only [computedSize, some, false_and, and_false, if_false, gt_iff_lt,
      positive, if_true] at room
    omega
  have descriptionRoom : ∀ text ∈ description, text.strlen + 1 ≤ bound := by
    rintro text rfl
    simp only [computedSize, reduceCtorEq, and_false, if_false] at room
    omega
  rw [parameters, List.foldl_append, List.foldl_append]
  cases asset with
  | none =>
      cases description with
      | none =>
          by_cases zero : amount = 0
          · simp [zero]
          · simp [zero, store_amount serves _ _ (amountRoom zero)]
      | some description =>
          by_cases zero : amount = 0
          · simp [zero, store_description serves _ (descriptionRoom _ rfl)]
          · simp [zero, store_amount serves _ _ (amountRoom zero),
              store_description serves _ (descriptionRoom _ rfl)]
  | some asset =>
      cases description with
      | none =>
          by_cases zero : amount = 0
          · simp [zero, store_asset serves _ (assetRoom _ rfl)]
          · simp [zero, store_asset serves _ (assetRoom _ rfl),
              store_amount serves _ _ (amountRoom zero)]
      | some description =>
          by_cases zero : amount = 0
          · simp [zero, store_asset serves _ (assetRoom _ rfl),
              store_description serves _ (descriptionRoom _ rfl)]
          · simp [zero, store_asset serves _ (assetRoom _ rfl),
              store_amount serves _ _ (amountRoom zero),
              store_description serves _ (descriptionRoom _ rfl)]

/-- What a built URI is read as. -/
theorem parse_text (node : structSize ≤ bound)
    (room : uri.computedSize ≤ bound) :
    parse alloc (CString.ofBuffer uri.text) =
      .ok (readText alloc (uri.text.drop 4)) := by
  have same := ofBuffer_of_nul_free (nul_not_mem_text uri)
  have fits := (length_text_lt uri).trans_le room
  rw [parse_eq serves node, same]
  · rw [CString.strlen, same]
    exact fits
  · rw [same]
    exact take_text uri

/-- A URI comes back exactly if no text has the character it is cut at. -/
theorem uri_roundTrips_iff (node : structSize ≤ bound)
    (room : uri.computedSize ≤ bound) :
    RoundTrips alloc uri ↔ uri.Delimited := by
  have built := build_eq serves room
  have read := parse_text serves node room
  constructor
  · intro roundTrips
    have back := (roundTrips.returns _ built).symm.trans read
    injection back with back
    have free : 0 ∉ (uri.text.drop 4).takeWhile (· ≠ 0x3F) := by
      intro member
      exact
        nul_not_mem_text uri
          (List.mem_of_mem_drop ((List.takeWhile_sublist _).mem member))
    have address := congrArg (fun uri => uri.address.characters) back
    rw [readText_address, ofBuffer_of_nul_free free] at address
    have cut : Cut uri := back ▸ readText_cut _
    refine ⟨?_, cut.asset, cut.description⟩
    rw [address]
    exact not_mem_takeWhile_ne
  · intro delimited
    constructor
    · rw [built]
      intro illegal
      cases illegal
    intro text same
    rw [built] at same
    injection same with same
    rw [← same, read, readText, takeWhile_text delimited.address,
      CString.ofBuffer_characters]
    have stored := foldl_store serves room
    rw [drop_text]
    by_cases none : uri.parameters = []
    · rw [none] at stored
      rw [if_pos none, List.append_nil,
        strchr_eq_none_iff.mpr delimited.address]
      exact congrArg _ stored
    · rw [if_neg none, strchr_append delimited.address]
      dsimp only
      rw [readQuery_queryText (parameters_apart delimited)
        (length_queryText _), stored]

end RoundTrip

/-! ## The amount -/

/-- A parameter that waits for a value takes the next ones with it. -/
theorem reached_waiting {name field : List UInt8} (named : 0x3D ∉ name)
    (cut : 0x26 ∉ field) (more : List (List UInt8)) :
    reached false ((name ++ 0x3D :: field).splitOn 0x26 ++ more) =
      reached true more := by
  induction name with
  | nil =>
      rw [List.nil_append, List.splitOn_eq_singleton]
      · rw [List.singleton_append, reached, if_pos List.mem_cons_self]
        rfl
      · intro member
        rcases List.mem_cons.mp member with equal | inside
        · cases equal
        · exact cut inside
  | cons byte rest induction =>
      have later := induction fun inside =>
        named (List.mem_cons_of_mem _ inside)
      rw [List.cons_append, List.splitOn_cons_eq_if_modifyHead]
      split
      · rw [List.cons_append, reached, if_neg List.not_mem_nil, later]
      · have different : byte ≠ 0x3D := by
          rintro rfl
          exact named List.mem_cons_self
        rw [← later]
        cases (rest ++ 0x3D :: field).splitOn 0x26 with
        | nil => rfl
        | cons head tail =>
            simp only [List.modifyHead_cons, List.cons_append, reached,
              List.mem_cons, different.symm, false_or, Bool.false_eq_true,
              if_false]

/-- Every byte of a part is one of the whole. -/
theorem mem_of_mem_splitOn {text field : List UInt8} {byte : UInt8}
    (inside : field ∈ text.splitOn 0x26) (member : byte ∈ field) :
    byte ∈ text := by
  induction text generalizing field with
  | nil =>
      rw [List.splitOn_nil, List.mem_singleton] at inside
      rw [inside] at member
      exact member
  | cons first rest induction =>
      rw [List.splitOn_cons_eq_if_modifyHead] at inside
      split at inside
      · rcases List.mem_cons.mp inside with rfl | later
        · cases member
        · exact List.mem_cons_of_mem _ (induction later member)
      · cases parts : rest.splitOn 0x26 with
        | nil =>
            rw [parts] at inside
            cases inside
        | cons head tail =>
            rw [parts] at inside induction
            rcases List.mem_cons.mp inside with rfl | later
            · rcases List.mem_cons.mp member with rfl | within
              · exact List.mem_cons_self
              · exact
                  List.mem_cons_of_mem _
                    (induction List.mem_cons_self within)
            · exact
                List.mem_cons_of_mem _
                  (induction (List.mem_cons_of_mem _ later) member)

theorem reached_of_plain {free : Bool} {fields : List (List UInt8)}
    (plain : ∀ field ∈ fields, 0x3D ∉ field) :
    reached free fields = [] := by
  induction fields generalizing free with
  | nil => rfl
  | cons field rest induction =>
      rcases List.forall_mem_cons.mp plain with ⟨first, later⟩
      rw [reached, if_neg first, induction later]

theorem mem_of_mem_reached {free : Bool} {fields : List (List UInt8)}
    {field : List UInt8} (member : field ∈ reached free fields) :
    field ∈ fields := by
  induction fields generalizing free with
  | nil => cases member
  | cons first rest induction =>
      rw [reached] at member
      split_ifs at member
      · rcases List.mem_cons.mp member with rfl | later
        · exact List.mem_cons_self
        · exact List.mem_cons_of_mem _ (induction later)
      · exact List.mem_cons_of_mem _ (induction member)
      · exact List.mem_cons_of_mem _ (induction member)

/-- Behind parameters without a value, one waits for a value. -/
theorem reached_append_plain {free : Bool} {fields more : List (List UInt8)}
    (some : fields ≠ []) (plain : ∀ field ∈ fields, 0x3D ∉ field) :
    reached free (fields ++ more) = reached false more := by
  induction fields generalizing free with
  | nil => exact absurd rfl some
  | cons field rest induction =>
      rcases List.forall_mem_cons.mp plain with ⟨first, later⟩
      rw [List.cons_append, reached, if_neg first]
      cases rest with
      | nil => rfl
      | cons second rest => exact induction (List.cons_ne_nil _ _) later

/-- A name with a `&` in it is that of no parameter. -/
theorem reached_token {name field : List UInt8} (named : 0x3D ∉ name)
    (cut : 0x26 ∉ field) (more : List (List UInt8)) :
    reached true ((name ++ 0x3D :: field).splitOn 0x26 ++ more) =
      (if 0x26 ∈ name then [] else [name ++ 0x3D :: field]) ++
        reached true more := by
  by_cases joined : 0x26 ∈ name
  · rcases List.append_of_mem joined with ⟨front, back, rfl⟩
    rw [if_pos joined, List.nil_append, List.append_assoc, List.cons_append,
      List.splitOn_append_cons_self, List.append_assoc,
      reached_append_plain (List.splitOn_ne_nil _ _), reached_waiting _ cut]
    · intro member
      exact
        named (List.mem_append_right _ (List.mem_cons_of_mem _ member))
    · intro part inside member
      exact
        named (List.mem_append_left _ (mem_of_mem_splitOn inside member))
  · rw [if_neg joined, List.splitOn_eq_singleton]
    · rw [List.singleton_append, reached, if_pos (by simp)]
      rfl
    · intro member
      rcases List.mem_append.mp member with inside | inside
      · exact joined inside
      · rcases List.mem_cons.mp inside with equal | inside
        · cases equal
        · exact cut inside

/-- The amounts that the loop comes to. -/
def amountsRead (query : List UInt8) : List (List UInt8) :=
  (reached true (query.splitOn 0x26)).filterMap amountOf

theorem amountOf_token {name field : List UInt8} (named : 0x3D ∉ name) :
    amountOf (name ++ 0x3D :: field) =
      if name = ascii "amount" then some field else none := by
  rw [amountOf, strchr_append named]

/-- One round reads the amount of one parameter. -/
theorem amountsRead_token {name field : List UInt8} (named : 0x3D ∉ name)
    (cut : 0x26 ∉ field) (more : List (List UInt8)) :
    (reached true ((name ++ 0x3D :: field).splitOn 0x26 ++ more)).filterMap
        amountOf =
      (if name = ascii "amount" then [field] else []) ++
        (reached true more).filterMap amountOf := by
  rw [reached_token named cut, List.filterMap_append]
  congr 1
  by_cases joined : 0x26 ∈ name
  · have other : name ≠ ascii "amount" := by
      rintro rfl
      revert joined
      decide
    rw [if_pos joined, if_neg other]
    rfl
  · rw [if_neg joined, List.filterMap_cons, amountOf_token named]
    split <;> simp_all

section Amount

variable {alloc : Allocator} {bound : Nat} (serves : alloc.Serves bound)

include serves

theorem store_amount_field (uri : NeoUri) (name : List UInt8)
    {value : List UInt8} (room : value.length + 1 ≤ bound) :
    (store alloc uri name value).amount =
      (if name = ascii "amount" then [value] else []).foldl
        (fun _ written => strtoull written) uri.amount := by
  have different : ascii "amount" ≠ ascii "asset" := by decide
  rw [store]
  by_cases amount : name = ascii "amount"
  · rw [amount, if_neg different, if_pos rfl, if_pos rfl,
      serves.neocGrants (Nat.succ_pos _) room, if_pos rfl]
    rfl
  · rw [if_neg amount, if_neg amount]
    split_ifs <;> rfl

/-- The amount is that of the last parameter that the loop comes to. -/
theorem readQuery_amount {fuel : Nat} {query : List UInt8}
    (enough : query.length ≤ fuel) (room : query.length + 1 ≤ bound)
    (uri : NeoUri) :
    (readQuery alloc fuel query uri).amount =
      (amountsRead query).foldl (fun _ written => strtoull written)
        uri.amount := by
  induction fuel generalizing query uri with
  | zero =>
      rw [List.length_eq_zero_iff.mp (Nat.le_zero.mp enough)]
      rfl
  | succ fuel induction =>
      rw [readQuery]
      cases token : strchr 0x3D query with
      | none =>
          have plain := strchr_eq_none_iff.mp token
          rw [amountsRead, reached_of_plain]
          · rfl
          · intro field inside member
            exact plain (mem_of_mem_splitOn inside member)
      | some parts =>
          obtain ⟨name, value⟩ := parts
          rcases strchr_eq_some token with ⟨rfl, named⟩
          simp only [List.length_append, List.length_cons] at enough room
          dsimp only
          cases next : strchr 0x26 value with
          | none =>
              have cut := strchr_eq_none_iff.mp next
              have read := amountsRead_token named cut []
              have nothing : reached true [] = [] := rfl
              rw [List.append_nil, nothing] at read
              rw [takeWhile_ne_eq_self_iff.mpr cut,
                store_amount_field serves uri name (by omega), amountsRead,
                read, List.filterMap_nil, List.append_nil]
          | some parts =>
              obtain ⟨field, after⟩ := parts
              rcases strchr_eq_some next with ⟨rfl, cut⟩
              simp only [List.length_append, List.length_cons]
                at enough room
              dsimp only
              rw [takeWhile_ne_append cut, induction (by omega) (by omega),
                store_amount_field serves uri name (by omega),
                ← List.foldl_append, amountsRead, amountsRead]
              congr 1
              rw [← List.cons_append, ← List.append_assoc,
                List.splitOn_append_cons_self,
                amountsRead_token named cut]

theorem readText_amount {uri : CString}
    (room : uri.strlen + 1 ≤ bound) :
    (readText alloc (uri.characters.drop 4)).amount =
      ((reached true (queryFields uri)).filterMap amountOf).foldl
        (fun _ written => strtoull written) 0 := by
  have shorter : (uri.characters.drop 4).length + 1 ≤ bound := by
    rw [List.length_drop]
    rw [CString.strlen] at room
    omega
  rw [readText, queryFields]
  cases cut : strchr 0x3F (uri.characters.drop 4) with
  | none => rfl
  | some parts =>
      obtain ⟨address, query⟩ := parts
      rw [(strchr_eq_some cut).1] at shorter
      simp only [List.length_append, List.length_cons] at shorter
      exact readQuery_amount serves le_rfl (by omega) _

omit serves in
/-- Of the amounts that are read, the last one stays. -/
theorem foldl_strtoull {amounts : List (List UInt8)} (start : UInt64)
    (some : amounts ≠ []) :
    ∃ written ∈ amounts,
      amounts.foldl (fun _ written => strtoull written) start =
        strtoull written := by
  refine ⟨amounts.getLast some, List.getLast_mem some, ?_⟩
  conv => lhs; rw [← List.dropLast_append_getLast some]
  rw [List.foldl_append, List.foldl_cons, List.foldl_nil]

/-- The amount is right exactly if plain amounts are written. -/
theorem amountRight_iff {uri : CString} (node : structSize ≤ bound)
    (room : uri.strlen + 1 ≤ bound) :
    AmountRight alloc uri ↔ AmountPlain uri := by
  have amount := readText_amount serves room
  constructor
  · intro right scheme some
    have right := right _ (parse_eq serves node room scheme)
    rcases List.exists_mem_of_ne_nil _ some with ⟨first, member⟩
    refine
      ⟨(readText alloc (uri.characters.drop 4)).amount.toNat,
        UInt64.toNat_lt _, ?_, ?_⟩
    · intro written inside
      exact ⟨(right written inside).1, (right written inside).2.symm⟩
    · by_cases none : (reached true (queryFields uri)).filterMap amountOf = []
      · rw [amount, none]
        exact .inr rfl
      · exact .inl none
  · intro plain parsed read written member
    have scheme : uri.characters.take 4 = ascii "neo:" := by
      by_contra other
      rw [parse, if_pos other] at read
      cases read
    rw [parse_eq serves node room scheme] at read
    injection read with read
    rcases plain scheme (List.ne_nil_of_mem member) with
      ⟨value, fits, numerals, reads⟩
    rcases numerals written member with ⟨numeral, same⟩
    refine ⟨numeral, ?_⟩
    rw [← read, amount, same]
    by_cases none : (reached true (queryFields uri)).filterMap amountOf = []
    · rw [none]
      exact (reads.resolve_left (not_not.mpr none)).symm
    · rcases foldl_strtoull 0 none with ⟨last, inside, result⟩
      rcases List.mem_filterMap.mp inside with ⟨field, reachedField, isAmount⟩
      rcases numerals last
          (List.mem_filterMap.mpr
            ⟨field, mem_of_mem_reached reachedField, isAmount⟩) with
        ⟨numeral, same⟩
      rw [result, strtoull_of_lt numeral (by omega), same]
      exact UInt64.toNat_ofNat_of_lt' fits

end Amount

/-- A name in front of which there is no `&` is part of the name. -/
example : strchr 0x3D (ascii "a&b=1") = some (ascii "a&b", ascii "1") := by
  decide

/-! ## Both directions -/

/--
A URI comes back from its text exactly if no text contains the character it
is cut at, and the amount read from a URI is the one written exactly if it is
written plainly.
-/
theorem neoUri_exact
    {alloc : Allocator}
    {bound : Nat}
    (serves : alloc.Serves bound)
    (node : structSize ≤ bound) :
    (∀ uri : NeoUri,
        uri.computedSize ≤ bound →
          (RoundTrips alloc uri ↔ uri.Delimited)) ∧
      ∀ uri : CString,
        uri.strlen + 1 ≤ bound →
          (AmountRight alloc uri ↔ AmountPlain uri) :=
  ⟨fun _ room => uri_roundTrips_iff serves node room,
    fun _ room => amountRight_iff serves node room⟩

/-- A payment with an asset, an amount and a description. -/
def payment : NeoUri where
  address := CString.ofString "NS1qGgLcsLVJQFELfVwDSiBjzYJGxLcazh"
  asset := some (CString.ofString "neo")
  amount := 18446744073709551615
  description := some (CString.ofString "two=2?")

/-- The payment comes back, and its amount is read from its text. -/
theorem neoUri_exact_payment :
    RoundTrips .ample payment ∧
      AmountRight .ample
        (CString.ofString "neo:N?asset=neo&amount=12") := by
  have serves : Allocator.ample.Serves 1000 :=
    Allocator.ample_serves (by decide)
  rcases neoUri_exact serves (by decide) with ⟨roundTrips, right⟩
  constructor
  · apply (roundTrips payment (by decide)).mpr
    refine ⟨by decide, ?_, ?_⟩
    · rintro _ ⟨⟩
      decide
    · rintro _ ⟨⟩
      decide
  · apply (right _ (by decide)).mpr
    intro _ _
    refine ⟨12, by decide, ?_, .inl (by decide)⟩
    have written :
        amountsWritten (CString.ofString "neo:N?asset=neo&amount=12") =
          [ascii "12"] := by
      decide
    rw [written]
    intro amount member
    rw [List.mem_singleton.mp member]
    decide +kernel

/--
A description with a `&` is cut, and an amount beyond 64 bits is read as the
largest number.
-/
theorem neoUri_misread :
    ¬RoundTrips .ample
        { payment with description := some (CString.ofString "a&amount=1") } ∧
      parse .ample
          (CString.ofString "neo:N?amount=18446744073709551616") =
        .ok
          { address := CString.ofString "N"
            asset := none
            amount := 18446744073709551615
            description := none } ∧
      ¬AmountRight .ample
        (CString.ofString "neo:N?amount=18446744073709551616") := by
  have read :
      parse .ample
          (CString.ofString "neo:N?amount=18446744073709551616") =
        .ok
          { address := CString.ofString "N"
            asset := none
            amount := 18446744073709551615
            description := none } := by
    decide
  refine ⟨?_, read, ?_⟩
  · intro roundTrips
    have built :
        build .ample payment.address payment.asset payment.amount
            (some (CString.ofString "a&amount=1")) =
          .ok
            (CString.ofBuffer
              (text
                { payment with
                  description :=
                    some (CString.ofString "a&amount=1") })) := by
      decide
    have returned := roundTrips.returns _ built
    revert returned
    decide
  · intro right
    have written :
        ascii "18446744073709551616" ∈
          amountsWritten
            (CString.ofString "neo:N?amount=18446744073709551616") := by
      decide
    have same := (right _ read _ written).2
    revert same
    decide

end NeoUri

end NeoC
