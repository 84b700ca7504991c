import NeoC.Crypto.AddressForms

/-!
# The buffers behind Base58

Both conversions keep the number that has been read in a buffer, least
significant digit first.  The buffer is allocated once, before the first digit
is read, and `length` says how much of it is used.  No index is checked: the
inner loop goes on until the carry is spent, wherever that is.

The sizes `data_len * 138 / 100 + 1` and `encoded_len * 733 / 1000 + 1` are
enough because `256 ^ 100` is at most `58 ^ 138` and `58 ^ 71` at most
`256 ^ 52`, where `52 / 71` is below `733 / 1000`.  So every write stays inside
the buffer, and what is computed there is what the conversions of lists
compute.
-/

namespace NeoC

open Foundation

namespace Base58

namespace InPlace

/-! ## The functions -/

/--
The loop over the digits of the number.  A digit outside the buffer is an
illegal access; more turns than the buffer has digits lead to one.
-/
def carryLoop (target factor : Nat) :
    (fuel j carry : Nat) → (buf : List UInt8) → (length : Nat) →
      Outcome (List UInt8 × Nat)
  | 0, _, _, _, _ => .error .illegalAccess
  | fuel + 1, j, carry, buf, length =>
      if j < length ∨ carry ≠ 0 then
        match buf[j]? with
        | none => .error .illegalAccess
        | some digit =>
            let carry := carry + factor * digit.toNat
            carryLoop target factor fuel (j + 1) (carry / target)
              (buf.set j (UInt8.ofNat (carry % target)))
              (if j ≥ length then j + 1 else length)
      else
        .ok (buf, length)

/-- The loop over what is converted; `read` gives the first carry. -/
def convertLoop (target source : Nat) (read : UInt8 → Outcome Nat) :
    (items buf : List UInt8) → (length : Nat) →
      Outcome (List UInt8 × Nat)
  | [], buf, length => .ok (buf, length)
  | item :: rest, buf, length => do
      let carry ← read item
      let state ←
        carryLoop target source (buf.length + 1) 0 carry buf length
      convertLoop target source read rest state.1 state.2

/-- `buf[length - 1 - k]` for every `k` below a count. -/
def backwards (buf : List UInt8) (length count : Nat) : List UInt8 :=
  (List.range count).map fun k => buf.getD (length - 1 - k) 0

/-- The zeros that the decoder finds at the upper end of the number. -/
def skip (buf : List UInt8) (length : Nat) : Nat :=
  ((backwards buf length length).takeWhile (· = 0)).length

/-- The carry of a byte. -/
def readByte (byte : UInt8) : Outcome Nat :=
  .ok byte.toNat

/-- The carry of a character. -/
def readCharacter (character : UInt8) : Outcome Nat :=
  match decodeChar character with
  | none => .error (.error .invalidFormat "Invalid base58 character")
  | some carry => .ok carry

/-- `neoc_base58_encode`, with its buffer. -/
def encode (alloc : Allocator) (data : List UInt8) (bufferSize : Nat) :
    Outcome CString :=
  if data.length = 0 then
    if bufferSize < 1 then
      .error (.error .bufferTooSmall "Buffer too small")
    else
      .ok (CString.ofString "")
  else
    let zeros := leadingZeros data
    let size := data.length * 138 % sizeModulus / 100 + 1
    if alloc.neocGrants size = false then
      .error (.error .outOfMemory "Failed to allocate Base58 buffer")
    else do
      let state ←
        convertLoop 58 256 readByte (data.drop zeros)
          (List.replicate size 0) 0
      if zeros + state.2 + 1 > bufferSize then
        .error (.error .bufferTooSmall "Buffer too small")
      else
        .ok
          (CString.ofBuffer
            (List.replicate zeros 0x31 ++
              (backwards state.1 state.2 state.2).map fun digit =>
                alphabet.getD digit.toNat 0))

/-- `neoc_base58_decode`, with its buffer. -/
def decode (alloc : Allocator) (encoded : CString) (bufferSize : Nat) :
    Outcome (List UInt8) :=
  let zeros := zeros encoded
  let size := encoded.strlen * 733 % sizeModulus / 1000 + 1
  if alloc.neocGrants size = false then
    .error (.error .outOfMemory "Failed to allocate Base58 buffer")
  else do
    let state ←
      convertLoop 256 58 readCharacter (encoded.characters.drop zeros)
        (List.replicate size 0) 0
    let count := state.2 - skip state.1 state.2
    if bufferSize < zeros + count then
      .error (.error .bufferTooSmall "Buffer too small")
    else
      .ok (List.replicate zeros 0 ++ backwards state.1 state.2 count)

/-- `neoc_base58_encode_alloc`; `none` is the `NULL` it returns. -/
def encodeAlloc (alloc : Allocator) (data : List UInt8) : Option CString :=
  let bufferSize :=
    if data.length = 0 then 2
    else data.length * 138 % sizeModulus / 100 + 2
  if alloc.neocGrants bufferSize = false then
    none
  else
    match encode alloc data bufferSize with
    | .error _ => none
    | .ok buffer => some buffer

/-- `neoc_base58_decode_alloc`; `none` is the `NULL` it returns. -/
def decodeAlloc (alloc : Allocator) (encoded : CString) :
    Option (List UInt8) :=
  let bufferSize :=
    if encoded.strlen = 0 then 0
    else
      zeros encoded +
        ((encoded.strlen - zeros encoded) * 733 % sizeModulus / 1000 + 1)
  if bufferSize = 0 then
    none
  else if alloc.neocGrants bufferSize = false then
    none
  else
    match decode alloc encoded bufferSize with
    | .error _ => none
    | .ok buffer => some buffer

/-! ## A number in a buffer -/

/-- A buffer with the digits of a number at its lower end. -/
def held (size : Nat) (number : List Nat) : List UInt8 :=
  number.map UInt8.ofNat ++ List.replicate (size - number.length) 0

theorem held_cons (size digit : Nat) (rest : List Nat) :
    held (size + 1) (digit :: rest) =
      UInt8.ofNat digit :: held size rest := by
  rw [held, held, List.map_cons, List.cons_append, List.length_cons,
    Nat.add_sub_add_right]

theorem length_held {size : Nat} {number : List Nat}
    (fits : number.length ≤ size) :
    (held size number).length = size := by
  rw [held, List.length_append, List.length_map, List.length_replicate]
  exact Nat.add_sub_of_le fits

theorem getD_held {size index : Nat} {number : List Nat}
    (inside : index < number.length) :
    (held size number).getD index 0 = UInt8.ofNat number[index] := by
  rw [held, List.getD_eq_getElem?_getD,
    List.getElem?_append_left (by rwa [List.length_map]),
    List.getElem?_map, List.getElem?_eq_getElem inside]
  rfl

/-- The digits are written in the order opposite to that of the buffer. -/
theorem backwards_held {size : Nat} {number : List Nat} :
    backwards (held size number) number.length number.length =
      number.reverse.map UInt8.ofNat := by
  apply List.ext_getElem
  · rw [backwards, List.length_map, List.length_range, List.length_map,
      List.length_reverse]
  · intro index left right
    rw [List.length_map, List.length_reverse] at right
    have inside : number.length - 1 - index < number.length := by
      omega
    rw [List.getElem_map, List.getElem_reverse]
    simp only [backwards, List.getElem_map, List.getElem_range]
    exact getD_held inside

/-! ## The inner loop -/

section Carry

variable {target factor : Nat}

/-- A carry beyond the last digit makes one digit and the next carry. -/
theorem mulAdd_nil (large : 1 < target) (carry : Nat) :
    Radix.mulAdd target factor [] carry =
      if carry = 0 then []
      else
        carry % target :: Radix.mulAdd target factor [] (carry / target) := by
  rw [Radix.mulAdd, Radix.mulAdd, Radix.spill_eq large le_rfl,
    Radix.spill_eq large le_rfl]
  split
  · rename_i none
    rw [none, Nat.digits_zero]
  · rename_i some
    exact Nat.digits_def' large (Nat.pos_of_ne_zero some)

/-- One turn of the loop at a digit that the buffer has. -/
theorem carryLoop_step {fuel carry length : Nat} {done rest : List UInt8}
    {digit : UInt8} (goes : done.length < length ∨ carry ≠ 0) :
    carryLoop target factor (fuel + 1) done.length carry
        (done ++ digit :: rest) length =
      carryLoop target factor fuel (done.length + 1)
        ((carry + factor * digit.toNat) / target)
        ((done ++ [UInt8.ofNat ((carry + factor * digit.toNat) % target)]) ++
          rest)
        (if done.length ≥ length then done.length + 1 else length) := by
  have found : (done ++ digit :: rest)[done.length]? = some digit := by
    rw [List.getElem?_append_right le_rfl, Nat.sub_self]
    rfl
  rw [carryLoop, if_pos goes, found]
  dsimp only
  rw [List.set_append_right _ _ le_rfl, Nat.sub_self, List.set_cons_zero,
    List.append_assoc, List.singleton_append]

/-- Behind the last digit the loop writes the digits of the carry. -/
theorem carryLoop_spill
    (large : 1 < target)
    {fuel size carry : Nat}
    (enough : size < fuel)
    (done : List UInt8)
    (room : (Radix.mulAdd target factor [] carry).length ≤ size) :
    carryLoop target factor fuel done.length carry
        (done ++ List.replicate size 0) done.length =
      .ok
        (done ++ held size (Radix.mulAdd target factor [] carry),
          done.length + (Radix.mulAdd target factor [] carry).length) := by
  induction size generalizing fuel carry done with
  | zero =>
      rcases fuel with _ | fuel
      · exact absurd enough (Nat.not_lt_zero 0)
      rw [mulAdd_nil large] at room ⊢
      by_cases spent : carry = 0
      · rw [if_pos spent, carryLoop, if_neg (by simpa using spent)]
        rfl
      · rw [if_neg spent] at room
        exact absurd room (Nat.not_succ_le_zero _)
  | succ size induction =>
      rcases fuel with _ | fuel
      · exact absurd enough (Nat.not_lt_zero _)
      rw [mulAdd_nil large] at room ⊢
      by_cases spent : carry = 0
      · rw [if_pos spent, carryLoop, if_neg (by simpa using spent)]
        rfl
      · rw [if_neg spent] at room ⊢
        have later :=
          induction (Nat.lt_of_succ_lt_succ enough)
            (done ++ [UInt8.ofNat (carry % target)])
            (Nat.le_of_succ_le_succ room)
        rw [List.length_append, List.length_singleton] at later
        rw [List.replicate_succ, carryLoop_step (.inr spent), held_cons,
          if_pos le_rfl, UInt8.toNat_zero, Nat.mul_zero, Nat.add_zero carry,
          later, List.append_assoc, List.singleton_append,
          List.length_cons, Nat.add_right_comm, Nat.add_assoc]

/--
The loop multiplies the number in the buffer by the factor and adds the
carry, provided that the buffer has room for the result.
-/
theorem carryLoop_eq
    (large : 1 < target)
    (byte : target ≤ 256)
    {fuel size carry : Nat}
    (enough : size < fuel)
    (done : List UInt8)
    {pending : List Nat}
    (digits : ∀ digit ∈ pending, digit < target)
    (room : (Radix.mulAdd target factor pending carry).length ≤ size) :
    carryLoop target factor fuel done.length carry
        (done ++ held size pending) (done.length + pending.length) =
      .ok
        (done ++ held size (Radix.mulAdd target factor pending carry),
          done.length +
            (Radix.mulAdd target factor pending carry).length) := by
  induction pending generalizing fuel size carry done with
  | nil => exact carryLoop_spill large enough done room
  | cons digit rest induction =>
      rcases List.forall_mem_cons.mp digits with ⟨first, others⟩
      rw [Radix.mulAdd, List.length_cons] at room
      rcases size with _ | size
      · exact absurd room (Nat.not_succ_le_zero _)
      rcases fuel with _ | fuel
      · exact absurd enough (Nat.not_lt_zero _)
      have value : (UInt8.ofNat digit).toNat = digit :=
        UInt8.toNat_ofNat_of_lt (Nat.lt_of_lt_of_le first byte)
      have inside : done.length < done.length + (digit :: rest).length :=
        Nat.lt_add_of_pos_right (Nat.succ_pos _)
      have later :=
        induction (Nat.lt_of_succ_lt_succ enough)
          (done ++ [UInt8.ofNat ((carry + factor * digit) % target)])
          others (Nat.le_of_succ_le_succ room)
      rw [List.length_append, List.length_singleton, Nat.add_assoc,
        Nat.add_comm 1] at later
      rw [held_cons, carryLoop_step (.inl inside), value,
        if_neg (Nat.not_le_of_lt inside), List.length_cons, later,
        Radix.mulAdd, held_cons, List.append_assoc, List.singleton_append,
        List.length_cons, Nat.add_assoc, Nat.add_comm 1]

end Carry

/-! ## The outer loop -/

section Convert

variable {target source : Nat} {read : UInt8 → Outcome Nat}

/-- The buffer and its length with a number in it. -/
def stateOf (size : Nat) (number : List Nat) : List UInt8 × Nat :=
  (held size number, number.length)

/-- A turn at the lower end of the buffer. -/
theorem carryLoop_stateOf
    (large : 1 < target)
    (byte : target ≤ 256)
    {size carry : Nat}
    {number : List Nat}
    (digits : ∀ digit ∈ number, digit < target)
    (fits : number.length ≤ size)
    (room : (Radix.mulAdd target source number carry).length ≤ size) :
    carryLoop target source ((held size number).length + 1) 0 carry
        (held size number) number.length =
      .ok (stateOf size (Radix.mulAdd target source number carry)) := by
  have ran :=
    carryLoop_eq large byte (Nat.lt_add_one size) [] digits room
  rw [length_held fits, stateOf]
  simpa only [List.nil_append, List.length_nil, Nat.zero_add] using ran

/--
The loop converts what it reads, provided that the buffer has room for every
numeral of that length.
-/
theorem convertLoop_eq
    (large : 1 < target)
    (byte : target ≤ 256)
    (positive : 0 < source)
    (reads : ∀ item carry, read item = .ok carry → carry < source)
    {size : Nat}
    (items : List UInt8)
    (start : Nat)
    (room :
      ∀ numeral : List Nat,
        numeral.length ≤ items.length →
          (∀ digit ∈ numeral, digit < source) →
            (numeral.foldl (Radix.mulAdd target source)
              (Nat.digits target start)).length ≤ size) :
    convertLoop target source read items
        (held size (Nat.digits target start))
        (Nat.digits target start).length =
      (items.mapM read).map fun numeral =>
        stateOf size
          (numeral.foldl (Radix.mulAdd target source)
            (Nat.digits target start)) := by
  induction items generalizing start with
  | nil => rfl
  | cons item rest induction =>
      rw [convertLoop, List.mapM_cons]
      cases carried : read item with
      | error reason => rfl
      | ok carry =>
          have small := reads item carry carried
          have fits := room [] (Nat.zero_le _) (List.forall_mem_nil _)
          have step :=
            room [carry] (Nat.succ_le_succ (Nat.zero_le _))
              (List.forall_mem_singleton.mpr small)
          have later :=
            induction (source * start + carry) (by
              intro numeral short digits
              rw [← Radix.mulAdd_digits large positive]
              exact
                room (carry :: numeral) (Nat.succ_le_succ short)
                  (List.forall_mem_cons.mpr ⟨small, digits⟩))
          have turned :=
            @carryLoop_stateOf target source large byte size carry _
              (fun digit member => Nat.digits_lt_base large member) fits step
          rw [← Radix.mulAdd_digits large positive] at later
          refine (Except.bind_of_ok rfl _).trans ?_
          refine (Except.bind_of_ok turned _).trans ?_
          refine later.trans ?_
          cases rest.mapM read with
          | error reason => rfl
          | ok numeral => rfl

end Convert

/-! ## The sizes of the buffers -/

theorem length_encoded_le {numeral : List Nat} {count : Nat}
    (short : numeral.length ≤ count)
    (digits : ∀ digit ∈ numeral, digit < 256) :
    (Radix.convert 58 256 numeral).length ≤ count * 138 / 100 + 1 := by
  have ratio : 256 ^ 100 ≤ 58 ^ 138 := by
    norm_num
  apply Radix.length_convert_le (by decide) (by decide) digits
  exact Radix.pow_le_pow_of_ratio (by decide) (by decide) ratio (by omega)

theorem length_decoded_le {numeral : List Nat} {count : Nat}
    (short : numeral.length ≤ count)
    (digits : ∀ digit ∈ numeral, digit < 58) :
    (Radix.convert 256 58 numeral).length ≤ count * 733 / 1000 + 1 := by
  have ratio : 58 ^ 71 ≤ 256 ^ 52 := by
    norm_num
  apply Radix.length_convert_le (by decide) (by decide) digits
  exact Radix.pow_le_pow_of_ratio (by decide) (by decide) ratio (by omega)

/-- From an empty buffer the loop converts the whole numeral. -/
theorem convertLoop_convert
    {target source size : Nat}
    (large : 1 < target)
    (byte : target ≤ 256)
    (positive : 0 < source)
    {read : UInt8 → Outcome Nat}
    (reads : ∀ item carry, read item = .ok carry → carry < source)
    (items : List UInt8)
    (room :
      ∀ numeral : List Nat,
        numeral.length ≤ items.length →
          (∀ digit ∈ numeral, digit < source) →
            (Radix.convert target source numeral).length ≤ size) :
    convertLoop target source read items (List.replicate size 0) 0 =
      (items.mapM read).map fun numeral =>
        stateOf size (Radix.convert target source numeral) := by
  have converted :=
    @convertLoop_eq target source read large byte positive reads size items 0
      (by rw [Nat.digits_zero]; exact room)
  rw [Nat.digits_zero] at converted
  exact converted

theorem readByte_lt {byte : UInt8} {carry : Nat}
    (read : readByte byte = .ok carry) :
    carry < 256 := by
  injection read with same
  rw [← same]
  exact byte.toNat_lt

theorem readCharacter_lt {character : UInt8} {carry : Nat}
    (read : readCharacter character = .ok carry) :
    carry < 58 := by
  rw [readCharacter] at read
  split at read
  · cases read
  · rename_i digit decoded
    injection read with same
    rw [← same]
    exact (decodeChar_eq_some decoded).1

/-! ## The functions on lists -/

variable {alloc : Allocator}

/-- The encoder's loops leave the digits of the text. -/
theorem convertLoop_encode (data : List UInt8) :
    convertLoop 58 256 readByte (data.drop (leadingZeros data))
        (List.replicate (data.length * 138 / 100 + 1) 0) 0 =
      .ok (stateOf (data.length * 138 / 100 + 1) (encodeDigits data)) := by
  have read :
      (data.drop (leadingZeros data)).mapM readByte =
        .ok ((data.drop (leadingZeros data)).map UInt8.toNat) :=
    Except.mapM_eq_ok fun _ _ => rfl
  rw [convertLoop_convert (by decide) (by decide) (by decide)
    (fun _ _ => readByte_lt), read]
  · rfl
  · intro numeral short digits
    have behind := List.length_drop (i := leadingZeros data) (l := data)
    exact length_encoded_le (by omega) digits

/-- The characters are looked up for the digits of the text. -/
theorem map_backwards_held (size : Nat) (data : List UInt8) :
    ((backwards (held size (encodeDigits data)) (encodeDigits data).length
        (encodeDigits data).length).map fun digit =>
          alphabet.getD digit.toNat 0) =
      (encodeDigits data).reverse.map fun digit => alphabet.getD digit 0 := by
  rw [backwards_held, List.map_map]
  apply List.map_congr_left
  intro digit member
  have small := encodeDigits_lt data digit member
  rw [Function.comp_apply, UInt8.toNat_ofNat', Nat.mod_eq_of_lt (by omega)]

/-- With its buffer the encoder writes what it writes without. -/
theorem encode_eq_encode {data : List UInt8}
    (bounded : data.length * 138 < sizeModulus) (bufferSize : Nat) :
    encode alloc data bufferSize = Base58.encode alloc data bufferSize := by
  rw [encode, Base58.encode]
  dsimp only
  rw [Nat.mod_eq_of_lt bounded]
  split
  · rfl
  split
  · rfl
  rw [convertLoop_encode]
  refine (Except.bind_of_ok rfl _).trans ?_
  rw [stateOf]
  dsimp only
  rw [map_backwards_held]
  rfl

/-- The decoder on lists reads all characters before it converts them. -/
theorem digits_eq_mapM (characters buf : List UInt8) :
    digits characters buf =
      (characters.mapM readCharacter).map fun numeral =>
        (numeral.foldl (Radix.mulAdd 256 58) (buf.map UInt8.toNat)).map
          UInt8.ofNat := by
  induction characters generalizing buf with
  | nil =>
      have back : (buf.map UInt8.toNat).map UInt8.ofNat = buf := by
        rw [List.map_map]
        exact (List.map_congr_left fun _ _ => UInt8.ofNat_toNat).trans
          (List.map_id buf)
      exact congrArg Except.ok back.symm
  | cons character rest induction =>
      rw [digits, List.mapM_cons, readCharacter]
      cases decoded : decodeChar character with
      | none => rfl
      | some carry =>
          dsimp only
          rw [induction, map_mulAdd (decodeChar_eq_some decoded).1]
          cases rest.mapM readCharacter with
          | error reason => rfl
          | ok numeral => rfl

theorem digits_nil (characters : List UInt8) :
    digits characters [] =
      (characters.mapM readCharacter).map fun numeral =>
        (Radix.convert 256 58 numeral).map UInt8.ofNat :=
  digits_eq_mapM characters []

/-- The decoder's loops leave the bytes of the numeral. -/
theorem convertLoop_decode (encoded : CString) :
    convertLoop 256 58 readCharacter
        (encoded.characters.drop (zeros encoded))
        (List.replicate (encoded.strlen * 733 / 1000 + 1) 0) 0 =
      ((encoded.characters.drop (zeros encoded)).mapM readCharacter).map
        fun numeral =>
          stateOf (encoded.strlen * 733 / 1000 + 1)
            (Radix.convert 256 58 numeral) := by
  apply convertLoop_convert (by decide) (by decide) (by decide)
    (fun _ _ => readCharacter_lt)
  intro numeral short digits
  have behind :=
    List.length_drop (i := zeros encoded) (l := encoded.characters)
  have length : encoded.strlen = encoded.characters.length := rfl
  exact length_decoded_le (by omega) digits

/-- The number that is read does not start with a zero byte. -/
theorem dropWhile_convert (numeral : List Nat) :
    ((Radix.convert 256 58 numeral).reverse.map UInt8.ofNat).dropWhile
        (· = 0) =
      (Radix.convert 256 58 numeral).reverse.map UInt8.ofNat := by
  have value :
      ((Radix.convert 256 58 numeral).map UInt8.ofNat).map UInt8.toNat =
        Radix.convert 256 58 numeral := by
    rw [List.map_map]
    refine (List.map_congr_left ?_).trans (List.map_id _)
    intro digit member
    have small := Radix.convert_lt (by decide) (by decide) member
    rw [Function.comp_apply, UInt8.toNat_ofNat', Nat.mod_eq_of_lt small]
    rfl
  rw [List.map_reverse]
  exact dropWhile_reverse value

/-- So the decoder has nothing to skip. -/
theorem skip_held (size : Nat) (numeral : List Nat) :
    skip (held size (Radix.convert 256 58 numeral))
        (Radix.convert 256 58 numeral).length =
      0 := by
  have parts :=
    List.takeWhile_append_dropWhile (p := (· = 0))
      (l := (Radix.convert 256 58 numeral).reverse.map UInt8.ofNat)
  rw [dropWhile_convert] at parts
  rw [skip, backwards_held, List.append_left_eq_self.mp parts,
    List.length_nil]

/-- With its buffer the decoder reads what it reads without. -/
theorem decode_eq_decode {encoded : CString}
    (bounded : encoded.strlen * 733 < sizeModulus) (bufferSize : Nat) :
    decode alloc encoded bufferSize =
      Base58.decode alloc encoded bufferSize := by
  rw [decode, Base58.decode]
  dsimp only
  rw [Nat.mod_eq_of_lt bounded]
  split
  · rfl
  rw [convertLoop_decode, digits_nil]
  cases (encoded.characters.drop (zeros encoded)).mapM readCharacter with
  | error reason => rfl
  | ok numeral =>
      refine (Except.bind_of_ok rfl _).trans ?_
      refine Eq.trans ?_ (Except.bind_of_ok rfl _).symm
      have stripped := dropWhile_convert numeral
      rw [List.map_reverse] at stripped
      have nothing :=
        skip_held (encoded.strlen * 733 / 1000 + 1) numeral
      simp only [stateOf, nothing, Nat.sub_zero, backwards_held,
        List.map_reverse, stripped, List.length_append,
        List.length_replicate, List.length_reverse, List.length_map]

example :
    carryLoop 58 256 4 0 97 [0, 0, 0] 0 = .ok ([39, 1, 0], 2) := by
  decide

/-! ## Round trips -/

/-- A text is at least as long as its bytes. -/
theorem length_le_strlen (data : List UInt8) :
    data.length ≤ (encodeText data).strlen := by
  have parts := length_significant data
  have fits := length_significant_le data
  rw [strlen_encodeText]
  rcases shape : encodeDigits data with _ | ⟨digit, rest⟩
  · have read := digits_encode data
    rw [shape, List.reverse_nil, List.map_nil, digits] at read
    injection read with none
    have empty := congrArg List.length none
    rw [List.length_nil, List.length_reverse] at empty
    omega
  · rw [shape, List.length_cons] at fits
    rw [List.length_cons]
    omega

/-- A text whose characters are all in the alphabet. -/
def IsBase58 (text : CString) : Prop :=
  text.characters ≠ [] ∧
    ∀ character ∈ text.characters, character ∈ alphabet

theorem encodeAlloc_eq_some {data : List UInt8}
    (some : data ≠ [])
    (bounded : data.length * 138 < sizeModulus)
    (serves : alloc.Serves (data.length * 138 / 100 + 2)) :
    encodeAlloc alloc data = .some (encodeText data) := by
  have granted :=
    serves.neocGrants (Nat.succ_pos _) le_rfl
  have short := strlen_encodeText_le data
  have present : data.length ≠ 0 := by
    simpa using some
  have encoded :=
    Base58.encode_eq some
      (serves.neocGrants (Nat.succ_pos _) (Nat.le_succ _))
      (Nat.lt_succ_of_le short)
  rw [encodeAlloc, if_neg present, Nat.mod_eq_of_lt bounded, granted,
    if_neg (by decide), encode_eq_encode bounded, encoded]

theorem decodeAlloc_eq_decodeAlloc {encoded : CString}
    (bounded : encoded.strlen * 733 < sizeModulus) :
    decodeAlloc alloc encoded = Base58.decodeAlloc alloc encoded := by
  have behind :
      (encoded.strlen - zeros encoded) * 733 < sizeModulus :=
    Nat.lt_of_le_of_lt (Nat.mul_le_mul_right 733 (Nat.sub_le _ _)) bounded
  rewrite [decodeAlloc, Nat.mod_eq_of_lt behind, decode_eq_decode bounded]
  rfl

/-- Characters of the alphabet are all read. -/
theorem readable {characters : List UInt8}
    (known : ∀ character ∈ characters, character ∈ alphabet) :
    ∃ numeral : List Nat,
      characters.mapM readCharacter = .ok numeral ∧
        numeral.length = characters.length ∧
        ∀ digit ∈ numeral, digit < 58 := by
  induction characters with
  | nil => exact ⟨[], rfl, rfl, List.forall_mem_nil _⟩
  | cons character rest induction =>
      rcases List.forall_mem_cons.mp known with ⟨first, others⟩
      rcases induction others with ⟨numeral, read, length, small⟩
      rcases decoded : decodeChar character with _ | digit
      · have absent :=
          List.findIdx?_eq_none_iff.mp decoded character first
        simp at absent
      · have carried : readCharacter character = .ok digit := by
          rw [readCharacter, decoded]
        refine ⟨digit :: numeral, ?_, ?_, ?_⟩
        · rw [List.mapM_cons, carried, read]
          rfl
        · rw [List.length_cons, List.length_cons, length]
        · exact
            List.forall_mem_cons.mpr
              ⟨(decodeChar_eq_some decoded).1, small⟩

/-- With memory, every text over the alphabet is decoded. -/
theorem decodeAlloc_succeeds {text : CString}
    (written : IsBase58 text)
    (serves : alloc.Serves (text.strlen * 138 / 100 + 2)) :
    ∃ data, Base58.decodeAlloc alloc text = some data := by
  rcases written with ⟨some, known⟩
  have length : text.strlen = text.characters.length := rfl
  have present := List.length_pos_iff.mpr some
  have front : zeros text ≤ text.characters.length :=
    (List.takeWhile_sublist _).length_le
  have behind := List.length_drop (i := zeros text) (l := text.characters)
  rcases readable fun character member =>
      known character (List.mem_of_mem_drop member)
    with ⟨numeral, read, count, small⟩
  have room := length_decoded_le count.le small
  have size :
      decodeBufferSize text =
        zeros text + ((text.strlen - zeros text) * 733 / 1000 + 1) :=
    if_neg (by omega)
  have granted : alloc.neocGrants (decodeBufferSize text) = true :=
    serves.neocGrants (by omega) (by omega)
  have work :
      alloc.neocGrants (text.strlen * 733 / 1000 + 1) = true :=
    serves.neocGrants (Nat.succ_pos _) (by omega)
  have converted :
      digits (text.characters.drop (zeros text)) [] =
        .ok ((Radix.convert 256 58 numeral).map UInt8.ofNat) := by
    rw [digits_nil, read]
    rfl
  have stripped := dropWhile_convert numeral
  rw [List.map_reverse] at stripped
  have decoded :
      Base58.decode alloc text (decodeBufferSize text) =
        .ok
          (List.replicate (zeros text) 0 ++
            ((Radix.convert 256 58 numeral).map UInt8.ofNat).reverse) := by
    rw [Base58.decode, work, if_neg (by decide)]
    refine (Except.bind_of_ok converted _).trans ?_
    dsimp only
    rw [stripped, List.length_append, List.length_replicate,
      List.length_reverse, List.length_map, if_neg (by omega)]
  rw [Base58.decodeAlloc, if_neg (by omega), granted,
    if_neg (by decide), decoded]
  exact ⟨_, rfl⟩

/-! ## The bounds -/

theorem encode_stays_inside {data : List UInt8}
    (bounded : data.length * 138 < sizeModulus) (bufferSize : Nat) :
    encode alloc data bufferSize ≠ .error .illegalAccess := by
  rw [encode_eq_encode bounded, Base58.encode]
  split
  · split <;> simp
  · split
    · simp
    · split <;> simp

/-- A character that is not in the alphabet is refused as such. -/
theorem mapM_readCharacter_ne (characters : List UInt8) :
    characters.mapM readCharacter ≠ .error .illegalAccess := by
  induction characters with
  | nil =>
      intro same
      cases same
  | cons character rest induction =>
      rw [List.mapM_cons, readCharacter]
      cases decodeChar character with
      | none => simp [bind, Except.bind]
      | some carry =>
          cases later : rest.mapM readCharacter with
          | error reason =>
              intro same
              injection same with refused
              exact induction (later.trans (congrArg Except.error refused))
          | ok numeral =>
              intro same
              cases same

theorem decode_stays_inside {text : CString}
    (bounded : text.strlen * 733 < sizeModulus) (bufferSize : Nat) :
    decode alloc text bufferSize ≠ .error .illegalAccess := by
  rw [decode_eq_decode bounded, Base58.decode, digits_nil]
  split
  · simp
  · have refused :=
      mapM_readCharacter_ne (text.characters.drop (zeros text))
    cases read : (text.characters.drop (zeros text)).mapM readCharacter with
    | error reason =>
        intro same
        injection same with illegal
        exact refused (read.trans (congrArg Except.error illegal))
    | ok numeral =>
        simp only [Except.map, bind, Except.bind]
        split <;> simp

/--
Base58 is exact: bytes come back from their text and texts come back from
their bytes, and no conversion writes outside its buffer.
-/
theorem exact_and_inside :
    (∀ data : List UInt8,
      data ≠ [] →
        data.length * 138 < sizeModulus →
          alloc.Serves (data.length * 138 / 100 + 2) →
            ∃ text,
              encodeAlloc alloc data = some text ∧
                (text.strlen * 733 < sizeModulus →
                  decodeAlloc alloc text = some data)) ∧
      (∀ text : CString,
        IsBase58 text →
          text.strlen * 733 < sizeModulus →
            alloc.Serves (text.strlen * 138 / 100 + 2) →
              ∃ data,
                decodeAlloc alloc text = some data ∧
                  ∀ bufferSize,
                    text.strlen < bufferSize →
                      encode alloc data bufferSize = .ok text) ∧
      (∀ (data : List UInt8) (bufferSize : Nat),
        data.length * 138 < sizeModulus →
          encode alloc data bufferSize ≠ .error .illegalAccess) ∧
      ∀ (text : CString) (bufferSize : Nat),
        text.strlen * 733 < sizeModulus →
          decode alloc text bufferSize ≠ .error .illegalAccess := by
  refine ⟨?_, ?_, ?_, ?_⟩
  · intro data present bounded serves
    refine ⟨_, encodeAlloc_eq_some present bounded serves, ?_⟩
    intro short
    have length := strlen_encodeText_le data
    rw [decodeAlloc_eq_decodeAlloc short]
    exact
      AddressForms.decodeAlloc_encodeText present
        (serves.mono (Nat.succ_le_succ length))
  · intro text written bounded serves
    rcases decodeAlloc_succeeds written serves with ⟨data, decoded⟩
    refine ⟨data, ?_, ?_⟩
    · rw [decodeAlloc_eq_decodeAlloc bounded, decoded]
    · intro bufferSize room
      have same := AddressForms.decodeAlloc_eq_some decoded
      have shorter := length_le_strlen data
      rw [← same] at shorter
      have present : data ≠ [] := by
        rintro rfl
        rw [same] at written
        exact written.1 rfl
      rw [encode_eq_encode (by omega), same]
      rw [same] at room
      exact
        Base58.encode_eq present
          (serves.neocGrants (Nat.succ_pos _) (by omega)) room
  · intro data bufferSize bounded
    exact encode_stays_inside bounded bufferSize
  · intro text bufferSize bounded
    exact decode_stays_inside bounded bufferSize

/-- A zero byte and a letter, as bytes and as a text. -/
theorem exact_and_inside_letter :
    encodeAlloc .ample [0, 97] = some (CString.ofString "12g") ∧
      decodeAlloc .ample (CString.ofString "12g") = some [0, 97] ∧
      encode .ample [0, 97] 4 = .ok (CString.ofString "12g") := by
  have written : encodeText [0, 97] = CString.ofString "12g" := by
    rw [encodeText, encodeCharacters, alphabet, ascii_ofList]
    decide +kernel
  have encoded :
      encodeAlloc .ample [0, 97] = some (CString.ofString "12g") := by
    rw [← written]
    exact
      encodeAlloc_eq_some (by decide) (by decide)
        (Allocator.ample_serves (by decide))
  have known : IsBase58 (CString.ofString "12g") := by
    rw [IsBase58, alphabet, ascii_ofList]
    decide +kernel
  rcases @exact_and_inside .ample with ⟨bytes, texts, -, -⟩
  rcases
      bytes [0, 97] (by decide) (by decide)
        (Allocator.ample_serves (by decide))
    with ⟨text, same, back⟩
  rw [encoded] at same
  injection same with equal
  rw [← equal] at back
  have decoded := back (by decide +kernel)
  rcases
      texts (CString.ofString "12g") known
        (by decide +kernel) (Allocator.ample_serves (by decide +kernel))
    with ⟨data, read, rewritten⟩
  rw [decoded] at read
  injection read with equal
  rw [← equal] at rewritten
  exact ⟨encoded, decoded, rewritten 4 (by decide +kernel)⟩

end InPlace

end Base58

end NeoC
