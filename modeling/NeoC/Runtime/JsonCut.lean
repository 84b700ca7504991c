import NeoC.Runtime.JsonGrammar

/-!
# JSON texts that are cut off

An object and an array end with a bracket of their own, so whatever is
written behind them leaves what was read of them as it is.  Hence a text that
is one object or one array, and that is cut off somewhere, is not well formed:
what is left of it cannot be a value that the rest of the text would only
follow.
-/

namespace NeoC

namespace JsonGrammar

variable {strtod : List UInt8 → Option Rat}

/-! ## Tokens -/

/-- A blank text stays behind the first character that is none. -/
theorem skip_append {text rest : List UInt8} {byte : UInt8}
    (found : skip text = byte :: rest) (more : List UInt8) :
    skip (text ++ more) = byte :: (rest ++ more) := by
  rw [skip] at found ⊢
  rw [List.dropWhile_append, found]
  rfl

theorem scanString_append {escaped : Bool} {text raw rest : List UInt8}
    (scanned : scanString escaped text = some (raw, rest))
    (more : List UInt8) :
    scanString escaped (text ++ more) = some (raw, rest ++ more) := by
  induction text generalizing escaped raw with
  | nil => cases scanned
  | cons byte text induction =>
      rw [List.cons_append, scanString]
      rw [scanString] at scanned
      split at scanned
      · rename_i closing
        cases scanned
        rw [if_pos closing]
      rename_i inside
      rw [if_neg inside]
      split at scanned
      · cases scanned
      rename_i control
      rw [if_neg control]
      rcases Option.bind_eq_some_iff.mp scanned with
        ⟨⟨raw', rest'⟩, later, scanned⟩
      cases scanned
      change (scanString _ (text ++ more)).bind _ = _
      rw [induction later]
      rfl

theorem parseString_append {text rest : List UInt8} {value : CString}
    (read : parseString text = some (value, rest)) (more : List UInt8) :
    parseString (text ++ more) = some (value, rest ++ more) := by
  rcases Option.bind_eq_some_iff.mp read with ⟨⟨raw, rest'⟩, scanned, read⟩
  rcases Option.bind_eq_some_iff.mp read with ⟨bytes, unescaped, read⟩
  cases read
  change (scanString false (text ++ more)).bind _ = _
  rw [scanString_append scanned]
  change (unescape .plain raw).bind _ = _
  rw [unescaped]
  rfl

/-- What may follow a value inside of an object or an array. -/
def Delimits (more : List UInt8) : Prop :=
  ∃ byte rest,
    more = byte :: rest ∧ (byte = 0x2C ∨ byte = 0x5D ∨ byte = 0x7D)

theorem not_isDigit_delimiter {byte : UInt8}
    (delimiter : byte = 0x2C ∨ byte = 0x5D ∨ byte = 0x7D) :
    isDigit byte = false := by
  rcases delimiter with rfl | rfl | rfl
  · rfl
  · rfl
  · rfl

/-- Digits that have come to an end do so in a longer text, too. -/
theorem digits_append {text more : List UInt8}
    (behind : text.dropWhile isDigit ≠ [] ∨ Delimits more) :
    (text ++ more).takeWhile isDigit = text.takeWhile isDigit ∧
      (text ++ more).dropWhile isDigit =
        text.dropWhile isDigit ++ more := by
  induction text with
  | nil =>
      rcases behind with behind | ⟨byte, rest, rfl, delimiter⟩
      · exact absurd rfl behind
      · have stop := not_isDigit_delimiter delimiter
        rw [List.nil_append, List.takeWhile_cons, List.dropWhile_cons, stop]
        exact ⟨rfl, rfl⟩
  | cons byte text induction =>
      rw [List.dropWhile_cons] at behind
      rw [List.cons_append, List.takeWhile_cons, List.takeWhile_cons,
        List.dropWhile_cons, List.dropWhile_cons]
      split
      · rename_i digit
        rw [if_pos digit] at behind
        rcases induction behind with ⟨taken, dropped⟩
        exact ⟨congrArg (byte :: ·) taken, dropped⟩
      · exact ⟨rfl, rfl⟩

theorem scanFraction_append {text fraction rest more : List UInt8}
    (scanned : scanFraction text = some (fraction, rest))
    (behind : rest ≠ [] ∨ Delimits more) :
    scanFraction (text ++ more) = some (fraction, rest ++ more) := by
  unfold scanFraction at scanned
  split at scanned
  · rename_i text
    dsimp only at scanned
    split at scanned
    · cases scanned
    rename_i some
    cases scanned
    rcases digits_append behind with ⟨taken, dropped⟩
    rw [List.cons_append, scanFraction, taken, dropped, if_neg some]
  · rename_i other
    cases scanned
    cases text with
    | nil =>
        rcases behind with behind | ⟨byte, rest, rfl, delimiter⟩
        · exact absurd rfl behind
        · rcases delimiter with rfl | rfl | rfl
          · rfl
          · rfl
          · rfl
    | cons byte text =>
        rw [List.cons_append]
        unfold scanFraction
        split
        · rename_i same
          injection same with same _
          exact absurd (congrArg (· :: text) same) (other text)
        · rfl

theorem scanExponent_append {text exponent rest more : List UInt8}
    (scanned : scanExponent text = some (exponent, rest))
    (behind : rest ≠ [] ∨ Delimits more) :
    scanExponent (text ++ more) = some (exponent, rest ++ more) := by
  cases text with
  | nil =>
      cases scanned
      rcases behind with behind | ⟨byte, rest, rfl, delimiter⟩
      · exact absurd rfl behind
      · rcases delimiter with rfl | rfl | rfl
        · rfl
        · rfl
        · rfl
  | cons mark text =>
      rw [List.cons_append]
      dsimp only [scanExponent] at scanned ⊢
      split at scanned
      · rename_i marked
        rw [if_pos marked]
        split at scanned
        · cases scanned
        rename_i some
        cases text with
        | nil => exact absurd rfl some
        | cons sign text =>
            cases scanned
            have signed :
                (sign :: text ++ more).take 1 = (sign :: text).take 1 :=
              rfl
            have short :
                ((sign :: text).take 1 |>.filter fun byte =>
                  byte == 0x2B || byte == 0x2D).length ≤
                    (sign :: text).length :=
              (List.length_filter_le _ _).trans (List.length_take_le' _ _)
            rw [signed, List.drop_append_of_le_length short]
            rcases digits_append behind with ⟨taken, dropped⟩
            rw [taken, dropped, if_neg some]
      · rename_i other
        cases scanned
        rw [if_neg other]
        rfl

theorem scanNumber_append {text number rest more : List UInt8}
    (scanned : scanNumber text = some (number, rest))
    (behind : rest ≠ [] ∨ Delimits more) :
    scanNumber (text ++ more) = some (number, rest ++ more) := by
  cases text with
  | nil => cases scanned
  | cons first text =>
      dsimp only [scanNumber] at scanned ⊢
      split at scanned
      · cases scanned
      rename_i wellFormed
      rcases Option.bind_eq_some_iff.mp scanned with
        ⟨⟨fraction, marked⟩, scannedFraction, scanned⟩
      rcases Option.bind_eq_some_iff.mp scanned with
        ⟨⟨exponent, rest'⟩, scannedExponent, scanned⟩
      cases scanned
      have behindFraction : marked ≠ [] ∨ Delimits more := by
        rcases behind with behind | delimits
        · left
          rintro rfl
          cases scannedExponent
          exact behind rfl
        · exact .inr delimits
      have signed :
          (first :: text ++ more).take 1 = (first :: text).take 1 :=
        rfl
      have short :
          ((first :: text).take 1 |>.filter (· == 0x2D)).length ≤
            (first :: text).length :=
        (List.length_filter_le _ _).trans (List.length_take_le' _ _)
      rw [signed, List.drop_append_of_le_length short]
      generalize
        (first :: text).drop
          ((first :: text).take 1 |>.filter (· == 0x2D)).length =
            unsigned at *
      have behindDigits :
          unsigned.dropWhile isDigit ≠ [] ∨ Delimits more := by
        rcases behindFraction with behind | delimits
        · left
          intro empty
          rw [empty] at scannedFraction
          cases scannedFraction
          exact behind rfl
        · exact .inr delimits
      rcases digits_append behindDigits with ⟨taken, dropped⟩
      rw [taken, dropped, if_neg wellFormed,
        scanFraction_append scannedFraction behindFraction]
      change (scanExponent (marked ++ more)).bind _ = _
      rw [scanExponent_append scannedExponent behind]
      rfl

/-- A number starts with a digit or with a sign. -/
theorem head_of_scanNumber {first : UInt8} {text number rest : List UInt8}
    (scanned : scanNumber (first :: text) = some (number, rest)) :
    isDigit first = true ∨ first = 0x2D := by
  by_cases minus : first = 0x2D
  · exact .inr minus
  left
  have unsigned :
      ((first :: text).take 1 |>.filter (· == 0x2D)) = [] := by
    rw [List.take_succ_cons, List.take_zero,
      List.filter_cons_of_neg (by simpa using minus), List.filter_nil]
  dsimp only [scanNumber] at scanned
  rw [unsigned, List.length_nil, List.drop_zero,
    List.takeWhile_cons] at scanned
  by_contra other
  rw [if_neg other, if_pos (.inl rfl)] at scanned
  cases scanned

/-! ## Values -/

/-- A text that starts with a bracket. -/
def Bracketed (text : List UInt8) : Prop :=
  ∃ rest, skip text = 0x7B :: rest ∨ skip text = 0x5B :: rest

variable (strtod) in
/-- What was read with some fuel is read of a longer text, with more fuel. -/
def Extends (fuel : Nat) : Prop :=
  (∀ {text rest : List UInt8} {value : JsonTree},
      parseValue strtod fuel text = some (value, rest) →
        ∀ {later : Nat}, fuel ≤ later →
          ∀ {more : List UInt8},
            (rest ≠ [] ∨ Bracketed text ∨ Delimits more) →
              parseValue strtod later (text ++ more) =
                some (value, rest ++ more)) ∧
    (∀ {text rest : List UInt8} {members : List (CString × JsonTree)},
      parseMembers strtod fuel text = some (members, rest) →
        ∀ {later : Nat}, fuel ≤ later →
          ∀ more,
            parseMembers strtod later (text ++ more) =
              some (members, rest ++ more)) ∧
      (∀ {text rest : List UInt8} {items : List JsonTree},
        parseItems strtod fuel text = some (items, rest) →
          ∀ {later : Nat}, fuel ≤ later →
            ∀ more,
              parseItems strtod later (text ++ more) =
                some (items, rest ++ more))

variable {fuel later : Nat}

theorem ne_nil_of_skip {text rest : List UInt8} {byte : UInt8}
    (found : skip text = byte :: rest) : text ≠ [] := by
  rintro rfl
  cases found

theorem parseMembers_nil : parseMembers strtod fuel [] = none := by
  cases fuel with
  | zero => rfl
  | succ fuel => rfl

theorem parseValue_nil : parseValue strtod fuel [] = none := by
  cases fuel with
  | zero => rfl
  | succ fuel => rfl

theorem parseItems_nil : parseItems strtod fuel [] = none := by
  cases fuel with
  | zero => rfl
  | succ fuel =>
      rw [parseItems, parseValue_nil]
      rfl

theorem parseItems_append (extending : Extends strtod fuel)
    {text rest : List UInt8} {items : List JsonTree}
    (read : parseItems strtod (fuel + 1) text = some (items, rest))
    (more : List UInt8) (enough : fuel ≤ later) :
    parseItems strtod (later + 1) (text ++ more) =
      some (items, rest ++ more) := by
  rw [parseItems] at read ⊢
  rcases Option.bind_eq_some_iff.mp read with
    ⟨⟨value, behind⟩, valued, read⟩
  dsimp only at read
  split at read
  · rename_i comma continued
    rcases Option.bind_eq_some_iff.mp read with
      ⟨⟨others, rest'⟩, readLater, read⟩
    cases read
    rw [extending.1 valued enough (.inl (ne_nil_of_skip continued))]
    dsimp only [Option.bind_eq_bind, Option.bind_some]
    rw [skip_append continued]
    change (parseItems strtod later (comma ++ more)).bind _ = _
    rw [extending.2.2 readLater enough]
    rfl
  · rename_i closing ended
    cases read
    rw [extending.1 valued enough (.inl (ne_nil_of_skip ended))]
    dsimp only [Option.bind_eq_bind, Option.bind_some]
    rw [skip_append ended]
    rfl
  · cases read

theorem parseMembers_append (extending : Extends strtod fuel)
    {text rest : List UInt8} {members : List (CString × JsonTree)}
    (read : parseMembers strtod (fuel + 1) text = some (members, rest))
    (more : List UInt8) (enough : fuel ≤ later) :
    parseMembers strtod (later + 1) (text ++ more) =
      some (members, rest ++ more) := by
  rw [parseMembers] at read ⊢
  split at read
  · rename_i quoted opened
    rw [skip_append opened]
    rcases Option.bind_eq_some_iff.mp read with ⟨⟨name, colon⟩, named, read⟩
    dsimp only at read
    change (parseString (quoted ++ more)).bind _ = _
    rw [parseString_append named]
    dsimp only [Option.bind_some]
    split at read
    · rename_i unvalued separated
      rw [skip_append separated]
      rcases Option.bind_eq_some_iff.mp read with
        ⟨⟨value, behind⟩, valued, read⟩
      dsimp only at read
      change (parseValue strtod later (unvalued ++ more)).bind _ = _
      split at read
      · rename_i comma continued
        rcases Option.bind_eq_some_iff.mp read with
          ⟨⟨others, rest'⟩, readLater, read⟩
        cases read
        rw [extending.1 valued enough (.inl (ne_nil_of_skip continued))]
        dsimp only [Option.bind_some]
        rw [skip_append continued]
        change (parseMembers strtod later (comma ++ more)).bind _ = _
        rw [extending.2.1 readLater enough]
        rfl
      · rename_i closing ended
        cases read
        rw [extending.1 valued enough (.inl (ne_nil_of_skip ended))]
        dsimp only [Option.bind_some]
        rw [skip_append ended]
        rfl
      · cases read
    · cases read
  · cases read

/-- A word is found at the start of a longer text, too. -/
theorem word_append {first : UInt8} {text word : List UInt8} {count : Nat}
    (found : (first :: text).take (count + 1) = word)
    (sized : word.length = count + 1) (more : List UInt8) :
    word.head? = some first ∧
      (first :: (text ++ more)).take (count + 1) = word ∧
        (text ++ more).drop count = text.drop count ++ more := by
  have long : count ≤ text.length := by
    have same := congrArg List.length found
    rw [List.length_take, List.length_cons, sized] at same
    omega
  rw [List.take_succ_cons, List.take_append_of_le_length long,
    List.drop_append_of_le_length long]
  rw [List.take_succ_cons] at found
  refine ⟨?_, found, rfl⟩
  rw [← found]
  rfl

/-- A word that starts differently is not found. -/
theorem not_word {first : UInt8} {text word : List UInt8} {count : Nat}
    (different : word.head? ≠ some first) :
    (first :: text).take (count + 1) ≠ word := by
  rintro rfl
  exact different rfl

/-- A word or a number that has come to an end. -/
theorem parseWord_append {first : UInt8} {inner rest more : List UInt8}
    {value : JsonTree}
    (read :
      (if (first :: inner).take 4 = ascii "null" then
          some (JsonTree.null, inner.drop 3)
        else if (first :: inner).take 4 = ascii "true" then
          some (.bool true, inner.drop 3)
        else if (first :: inner).take 5 = ascii "false" then
          some (.bool false, inner.drop 4)
        else do
          let (number, rest) ← scanNumber (first :: inner)
          some (.number (strtod number), rest)) =
        some (value, rest))
    (behind : rest ≠ [] ∨ Delimits more) :
    (if (first :: (inner ++ more)).take 4 = ascii "null" then
        some (JsonTree.null, (inner ++ more).drop 3)
      else if (first :: (inner ++ more)).take 4 = ascii "true" then
        some (.bool true, (inner ++ more).drop 3)
      else if (first :: (inner ++ more)).take 5 = ascii "false" then
        some (.bool false, (inner ++ more).drop 4)
      else do
        let (number, rest) ← scanNumber (first :: (inner ++ more))
        some (.number (strtod number), rest)) =
      some (value, rest ++ more) := by
  split at read
  · rename_i word
    cases read
    rcases word_append word rfl more with ⟨-, taken, dropped⟩
    rw [if_pos taken, dropped]
  split at read
  · rename_i word
    cases read
    rcases word_append word rfl more with ⟨same, taken, dropped⟩
    rw [if_neg (not_word (by rw [← same]; decide)), if_pos taken, dropped]
  split at read
  · rename_i word
    cases read
    rcases word_append word rfl more with ⟨same, taken, dropped⟩
    rw [if_neg (not_word (by rw [← same]; decide)),
      if_neg (not_word (by rw [← same]; decide)), if_pos taken, dropped]
  · rcases Option.bind_eq_some_iff.mp read with
      ⟨⟨number, rest'⟩, scanned, read⟩
    cases read
    have other {byte : UInt8} (letter : isDigit byte = false ∧ byte ≠ 0x2D) :
        some byte ≠ some first := by
      intro same
      injection same with same
      rw [same] at letter
      rcases head_of_scanNumber scanned with digit | minus
      · rw [letter.1] at digit
        cases digit
      · exact letter.2 minus
    have null : (ascii "null").head? ≠ some first := other (by decide)
    have true : (ascii "true").head? ≠ some first := other (by decide)
    have false : (ascii "false").head? ≠ some first := other (by decide)
    rw [if_neg (not_word null), if_neg (not_word true),
      if_neg (not_word false)]
    change (scanNumber (first :: inner ++ more)).bind _ = _
    rw [scanNumber_append scanned behind]
    rfl

theorem parseValue_append (extending : Extends strtod fuel)
    {text rest more : List UInt8} {value : JsonTree}
    (read : parseValue strtod (fuel + 1) text = some (value, rest))
    (ends : rest ≠ [] ∨ Bracketed text ∨ Delimits more)
    (enough : fuel ≤ later) :
    parseValue strtod (later + 1) (text ++ more) =
      some (value, rest ++ more) := by
  rw [parseValue] at read ⊢
  split at read
  · cases read
  rename_i first inner found
  rw [skip_append found]
  dsimp only
  split at read
  · rename_i quote
    rw [if_pos quote]
    rcases Option.bind_eq_some_iff.mp read with ⟨⟨text', rest'⟩, scanned, read⟩
    cases read
    change (parseString (inner ++ more)).bind _ = _
    rw [parseString_append scanned]
    rfl
  rename_i unquoted
  rw [if_neg unquoted]
  split at read
  · rename_i brace
    rw [if_pos brace]
    split at read
    · rename_i closed
      cases read
      rw [skip_append closed]
      rfl
    rename_i open'
    rcases Option.bind_eq_some_iff.mp read with
      ⟨⟨members, rest'⟩, readMembers, read⟩
    cases read
    cases started : skip inner with
    | nil =>
        rw [started, parseMembers_nil] at readMembers
        cases readMembers
    | cons byte others =>
        rw [started] at readMembers
        rw [skip_append started]
        split
        · rename_i same
          injection same with same _
          rw [same] at started
          exact absurd started (open' others)
        · change (parseMembers strtod later (byte :: others ++ more)).bind _ = _
          rw [extending.2.1 readMembers enough]
          rfl
  rename_i noBrace
  rw [if_neg noBrace]
  split at read
  · rename_i bracket
    rw [if_pos bracket]
    split at read
    · rename_i closed
      cases read
      rw [skip_append closed]
      rfl
    rename_i open'
    rcases Option.bind_eq_some_iff.mp read with
      ⟨⟨items, rest'⟩, readItems, read⟩
    cases read
    cases started : skip inner with
    | nil =>
        rw [started, parseItems_nil] at readItems
        cases readItems
    | cons byte others =>
        rw [started] at readItems
        rw [skip_append started]
        split
        · rename_i same
          injection same with same _
          rw [same] at started
          exact absurd started (open' others)
        · change (parseItems strtod later (byte :: others ++ more)).bind _ = _
          rw [extending.2.2 readItems enough]
          rfl
  rename_i noBracket
  rw [if_neg noBracket]
  have behind : rest ≠ [] ∨ Delimits more := by
    rcases ends with behind | ⟨inner', brace | bracket⟩ | delimits
    · exact .inl behind
    · rw [found] at brace
      injection brace with same
      exact absurd same noBrace
    · rw [found] at bracket
      injection bracket with same
      exact absurd same noBracket
    · exact .inr delimits
  exact parseWord_append read behind

/-- Whatever is written behind it, more fuel reads a text the same way. -/
theorem extends_all (fuel : Nat) : Extends strtod fuel := by
  induction fuel with
  | zero =>
      refine ⟨?_, ?_, ?_⟩
      · intro text rest value read
        cases read
      · intro text rest members read
        cases read
      · intro text rest items read
        cases read
  | succ fuel induction =>
      refine ⟨?_, ?_, ?_⟩
      · intro text rest value read later enough more ends
        obtain ⟨later, rfl⟩ := Nat.exists_eq_add_of_lt enough
        exact parseValue_append induction read ends (by omega)
      · intro text rest members read later enough more
        obtain ⟨later, rfl⟩ := Nat.exists_eq_add_of_lt enough
        exact parseMembers_append induction read more (by omega)
      · intro text rest items read later enough more
        obtain ⟨later, rfl⟩ := Nat.exists_eq_add_of_lt enough
        exact parseItems_append induction read more (by omega)

/-! ## Texts -/

/-- A text that is one object or one array cannot be cut off. -/
theorem parse_take {text : List UInt8} {tree : JsonTree} {fuel length : Nat}
    (bracketed : Bracketed text)
    (whole : parseValue strtod fuel text = some (tree, []))
    (cut : length < text.length) :
    parse strtod (text.take length) = none := by
  cases parsed : parse strtod (text.take length) with
  | none => rfl
  | some other =>
      rcases of_parse parsed with ⟨-, rest, read, -⟩
      have begun : Bracketed (text.take length) := by
        cases started : skip (text.take length) with
        | nil =>
            rw [parseValue, started] at read
            cases read
        | cons byte inner =>
            have first := skip_append started (text.drop length)
            rw [List.take_append_drop] at first
            rcases bracketed with ⟨inner', same⟩
            rw [first] at same
            refine ⟨inner, ?_⟩
            rcases same with brace | bracket
            · injection brace with same _
              exact .inl (by rw [started, same])
            · injection bracket with same _
              exact .inr (by rw [started, same])
      have extended :=
        (extends_all _).1 read (Nat.le_max_left _ fuel)
          (.inr (.inl begun) :
            _ ∨ _ ∨ Delimits (text.drop length))
      have again :=
        (extends_all _).1 whole
          (Nat.le_max_right ((text.take length).length + 1) fuel)
          (.inr (.inl bracketed) : _ ∨ _ ∨ Delimits [])
      rw [List.take_append_drop] at extended
      rw [List.append_nil, extended, List.nil_append] at again
      injection again with same
      injection same with _ same
      have left := List.append_eq_nil_iff.mp same
      rw [List.drop_eq_nil_iff] at left
      omega

/-- Blanks are skipped up to what is behind them. -/
theorem skip_append_blank {blank : List UInt8} (skipped : skip blank = [])
    (more : List UInt8) : skip (blank ++ more) = skip more := by
  rw [skip] at skipped ⊢
  rw [List.dropWhile_append, skipped]
  rfl

/-- A well-formed text is read as a value inside of a longer text, too. -/
theorem parseValue_of_parse {text : List UInt8} {tree : JsonTree}
    (parsed : parse strtod text = some tree) {fuel : Nat}
    (enough : text.length + 1 ≤ fuel) {more : List UInt8}
    (delimits : Delimits more) :
    ∃ blank,
      parseValue strtod fuel (text ++ more) = some (tree, blank ++ more) ∧
        skip (blank ++ more) = skip more := by
  rcases of_parse parsed with ⟨-, blank, read, skipped⟩
  exact
    ⟨blank, (extends_all _).1 read enough (.inr (.inr delimits)),
      skip_append_blank skipped more⟩

end JsonGrammar

/-! ## Libraries that notice it -/

/-- A library that rejects objects and arrays that are cut off. -/
def JsonLibrary.RejectsCuts (library : JsonLibrary)
    (strtod : List UInt8 → Option Rat) : Prop :=
  ∀ (text : CString) (tree : JsonTree) (fuel : Nat),
    JsonGrammar.Bracketed text.characters →
      JsonGrammar.parseValue strtod fuel text.characters =
          some (tree, []) →
        ∀ length < text.characters.length,
          library.parse (CString.ofBuffer (text.characters.take length)) =
            none

theorem JsonLibrary.Correct.rejectsCuts {library : JsonLibrary}
    {strtod : List UInt8 → Option Rat} (correct : library.Correct strtod) :
    library.RejectsCuts strtod := by
  intro text tree fuel bracketed whole length cut
  have free : 0 ∉ text.characters.take length :=
    fun member => text.nul_free (List.mem_of_mem_take member)
  rw [correct.parses, CString.characters_ofBuffer free]
  exact JsonGrammar.parse_take bracketed whole cut

end NeoC
