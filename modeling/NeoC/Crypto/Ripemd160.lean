import NeoC.Foundation.BlockStream
import NeoC.Foundation.LittleEndian
import NeoC.Runtime.Cells

/-!
# RIPEMD-160

The bytes of a message are collected in a buffer of 64 bytes, and every full
block is compressed into the state.  Blocks that lie in the data as a whole
are compressed from there; only the first one, which may have begun before,
and what is left at the end go through the buffer.

Everything but the compression itself is written for any compression, so that
the same code shows which blocks it is given.
-/

namespace NeoC

open Foundation

namespace Ripemd160

/-! ## The compression -/

/-- `uint32_t state[5]`. -/
structure ChainingValue where
  s0 : UInt32
  s1 : UInt32
  s2 : UInt32
  s3 : UInt32
  s4 : UInt32
deriving DecidableEq, Repr

/-- `rol`. -/
def rol (x n : UInt32) : UInt32 :=
  (x <<< n) ||| (x >>> (32 - n))

/-- `F`. -/
def f (x y z : UInt32) : UInt32 := x ^^^ y ^^^ z

/-- `G`. -/
def g (x y z : UInt32) : UInt32 := (x &&& y) ||| (~~~x &&& z)

/-- `H`. -/
def h (x y z : UInt32) : UInt32 := (x ||| ~~~y) ^^^ z

/-- `I`. -/
def i (x y z : UInt32) : UInt32 := (x &&& z) ||| (y &&& ~~~z)

/-- `J`. -/
def j (x y z : UInt32) : UInt32 := x ^^^ (y ||| ~~~z)

/-- `K1`. -/
def k1 : List UInt32 :=
  [0x00000000, 0x5A827999, 0x6ED9EBA1, 0x8F1BBCDC, 0xA953FD4E]

/-- `K2`. -/
def k2 : List UInt32 :=
  [0x50A28BE6, 0x5C4DD124, 0x6D703EF3, 0x7A6D76E9, 0x00000000]

/-- `r1`: the words that the left line takes. -/
def r1 : List Nat :=
  [0, 1, 2, 3, 4, 5, 6, 7, 8, 9, 10, 11, 12, 13, 14, 15,
    7, 4, 13, 1, 10, 6, 15, 3, 12, 0, 9, 5, 2, 14, 11, 8,
    3, 10, 14, 4, 9, 15, 8, 1, 2, 7, 0, 6, 13, 11, 5, 12,
    1, 9, 11, 10, 0, 8, 12, 4, 13, 3, 7, 15, 14, 5, 6, 2,
    4, 0, 5, 9, 7, 12, 2, 10, 14, 1, 3, 8, 11, 6, 15, 13]

/-- `r2`: the words that the right line takes. -/
def r2 : List Nat :=
  [5, 14, 7, 0, 9, 2, 11, 4, 13, 6, 15, 8, 1, 10, 3, 12,
    6, 11, 3, 7, 0, 13, 5, 10, 14, 15, 8, 12, 4, 9, 1, 2,
    15, 5, 1, 3, 7, 14, 6, 9, 11, 8, 12, 2, 10, 0, 4, 13,
    8, 6, 4, 1, 3, 11, 15, 0, 5, 12, 2, 13, 9, 7, 10, 14,
    12, 15, 10, 4, 1, 5, 8, 7, 6, 2, 13, 14, 0, 3, 9, 11]

/-- `s1`: the rotations of the left line. -/
def s1 : List UInt32 :=
  [11, 14, 15, 12, 5, 8, 7, 9, 11, 13, 14, 15, 6, 7, 9, 8,
    7, 6, 8, 13, 11, 9, 7, 15, 7, 12, 15, 9, 11, 7, 13, 12,
    11, 13, 6, 7, 14, 9, 13, 15, 14, 8, 13, 6, 5, 12, 7, 5,
    11, 12, 14, 15, 14, 15, 9, 8, 9, 14, 5, 6, 8, 6, 5, 12,
    9, 15, 5, 11, 6, 8, 13, 12, 5, 12, 13, 14, 11, 8, 5, 6]

/-- `s2`: the rotations of the right line. -/
def s2 : List UInt32 :=
  [8, 9, 9, 11, 13, 15, 15, 5, 7, 7, 8, 11, 14, 14, 12, 6,
    9, 13, 15, 7, 12, 8, 9, 11, 7, 7, 12, 7, 6, 15, 13, 11,
    9, 7, 15, 11, 8, 6, 6, 14, 12, 13, 5, 14, 13, 13, 7, 5,
    15, 5, 8, 11, 14, 14, 6, 14, 6, 9, 12, 9, 12, 5, 15, 8,
    8, 5, 12, 9, 12, 5, 14, 6, 8, 13, 6, 5, 15, 13, 11, 11]

/-- `X`: the words of a block, lowest byte first. -/
def words (block : List UInt8) : List UInt32 :=
  (List.range 16).map fun i =>
    (block.getD (4 * i) 0).toUInt32 |||
      (block.getD (4 * i + 1) 0).toUInt32 <<< 8 |||
      (block.getD (4 * i + 2) 0).toUInt32 <<< 16 |||
      (block.getD (4 * i + 3) 0).toUInt32 <<< 24

/-- The five variables of a line. -/
structure Line where
  a : UInt32
  b : UInt32
  c : UInt32
  d : UInt32
  e : UInt32

/-- One round of a line. -/
def round (mix : UInt32 → UInt32 → UInt32 → UInt32) (x k s : UInt32)
    (line : Line) : Line :=
  let t := mix line.b line.c line.d + x + k
  { a := line.e
    b := rol (t + line.a) s + line.e
    c := line.b
    d := rol line.c 10
    e := line.d }

/-- The functions of the left line, for 16 rounds each. -/
def leftMix (turn : Nat) : UInt32 → UInt32 → UInt32 → UInt32 :=
  if turn < 16 then f
  else if turn < 32 then g
  else if turn < 48 then h
  else if turn < 64 then i
  else j

/-- The functions of the right line, for 16 rounds each. -/
def rightMix (turn : Nat) : UInt32 → UInt32 → UInt32 → UInt32 :=
  if turn < 16 then j
  else if turn < 32 then i
  else if turn < 48 then h
  else if turn < 64 then g
  else f

/-- The 80 rounds of a line. -/
def rounds (mix : Nat → UInt32 → UInt32 → UInt32 → UInt32)
    (k : List UInt32) (r : List Nat) (s : List UInt32)
    (x : List UInt32) (line : Line) : Line :=
  (List.range 80).foldl
    (fun line i =>
      round (mix i) (x.getD (r.getD i 0) 0) (k.getD (i / 16) 0)
        (s.getD i 0) line)
    line

/-- `compress`. -/
def compress (state : ChainingValue) (block : List UInt8) :
    ChainingValue :=
  let x := words block
  let start : Line :=
    { a := state.s0, b := state.s1, c := state.s2, d := state.s3
      e := state.s4 }
  let left := rounds leftMix k1 r1 s1 x start
  let right := rounds rightMix k2 r2 s2 x start
  { s0 := state.s1 + left.c + right.d
    s1 := state.s2 + left.d + right.e
    s2 := state.s3 + left.e + right.a
    s3 := state.s4 + left.a + right.b
    s4 := state.s0 + left.b + right.c }

/-! ## Streaming -/

/-- `ripemd160_ctx`, with any type of states. -/
structure Context (State : Type) where
  state : State
  count : UInt64
  buffer : Cells UInt8

variable {State : Type}

/-- `init`, which leaves the buffer as it is. -/
def initWith (state : State) : Context State where
  state
  count := 0
  buffer := Cells.fresh 64

/-- The state that `init` sets. -/
def initState : ChainingValue where
  s0 := 0x67452301
  s1 := 0xEFCDAB89
  s2 := 0x98BADCFE
  s3 := 0x10325476
  s4 := 0xC3D2E1F0

/-- `init`. -/
def init : Context ChainingValue :=
  initWith initState

/-- The first byte that is free in the buffer. -/
def Context.index (ctx : Context State) : Nat :=
  (ctx.count &&& 63).toNat

/-- The bytes that `compress` reads through its second argument. -/
def readBlock (cells : Cells UInt8) (offset : Nat) :
    Outcome (List UInt8) := do
  let block ← cells.read offset 64
  block.load

section

variable (compress : State → List UInt8 → State)

/--
`for (i = part_len; i + 63 < len; i += 64)`: the state and the index
afterwards.  With `len / 64 + 1` tests of the condition, `i` has been
everywhere it can be.
-/
def compressLoop (data : Cells UInt8) (len : Nat) :
    (fuel i : Nat) → (state : State) → Outcome (State × Nat)
  | 0, _, _ => .error .divergence
  | fuel + 1, i, state =>
      if sizeAdd i 63 < len then do
        let block ← readBlock data i
        compressLoop data len fuel (sizeAdd i 64) (compress state block)
      else
        .ok (state, i)

/-- `update`. -/
def update (ctx : Context State) (data : Cells UInt8) (len : Nat) :
    Outcome (Context State) :=
  let idx := ctx.index
  let count := ctx.count + UInt64.ofNat len
  let partLen := 64 - idx
  if len ≥ partLen then do
    let part ← data.read 0 partLen
    let buffer ← ctx.buffer.store idx part
    let block ← readBlock buffer 0
    let (state, i) ←
      compressLoop compress data len (len / 64 + 1) partLen
        (compress ctx.state block)
    let last ← data.read i (len - i)
    let buffer ← buffer.store 0 last
    .ok { state, count, buffer }
  else do
    let last ← data.read 0 len
    let buffer ← ctx.buffer.store idx last
    .ok { ctx with count, buffer }

/-- `uint8_t padding[64] = {0x80};` -/
def padding : List UInt8 :=
  0x80 :: List.replicate 63 0

/-- `length` of `final`: the number of bits, lowest byte first. -/
def lengthBytes (count : UInt64) : List UInt8 :=
  let bits := count * 8
  (List.range 8).map fun i => (bits >>> UInt64.ofNat (8 * i)).toUInt8

/-- The calls of `update` in `final`. -/
def pad (ctx : Context State) : Outcome (Context State) :=
  let length := lengthBytes ctx.count
  let idx := ctx.index
  let padLen := if idx < 56 then 56 - idx else 120 - idx
  do
    let ctx ← update compress ctx (Cells.written padding) padLen
    update compress ctx (Cells.written length) 8

/-- Calls of `update` one after another. -/
def updates (ctx : Context State) :
    (chunks : List (List UInt8)) → Outcome (Context State)
  | [] => .ok ctx
  | chunk :: rest => do
      let ctx ← update compress ctx (Cells.written chunk) chunk.length
      updates ctx rest

end

/-- The digest that `final` writes. -/
def digestBytes (state : ChainingValue) : List UInt8 :=
  [state.s0, state.s1, state.s2, state.s3, state.s4].flatMap fun (word : UInt32) =>
    [(word &&& 0xFF).toUInt8, (word >>> 8 &&& 0xFF).toUInt8,
      (word >>> 16 &&& 0xFF).toUInt8, (word >>> 24 &&& 0xFF).toUInt8]

/-- `final`. -/
def final (ctx : Context ChainingValue) : Outcome (List UInt8) := do
  let ctx ← pad compress ctx
  .ok (digestBytes ctx.state)

/-- `neoc_ripemd160_hash`, with a digest to write to. -/
def hash (data : Buffer) : Outcome (List UInt8) :=
  match data with
  | .null len =>
      if len > 0 then
        .error (.error .invalidArgument "Invalid RIPEMD-160 input")
      else
        final init
  | .items content => do
      let ctx ←
        if content.length > 0 then
          update compress init (Cells.written content) content.length
        else
          .ok init
      final ctx

/-! ## The loop over whole blocks -/

variable {compress : State → List UInt8 → State}

theorem readBlock_eq {block : List UInt8} (full : block.length = 64)
    (front back : List UInt8) :
    readBlock (Cells.written (front ++ (block ++ back))) front.length =
      .ok block := by
  have found := Cells.read_written front block back
  rw [full] at found
  exact (Except.bind_of_ok found _).trans (Cells.load_written block)

/-- The loop compresses the blocks and stops in front of the rest. -/
theorem compressLoop_eq {len : Nat} (tail front extra : List UInt8)
    (state : State) {fuel : Nat}
    (whole : front.length + tail.length = len) (small : len ≤ ptrdiffMax)
    (enough : tail.length / 64 < fuel) :
    compressLoop compress (Cells.written (front ++ (tail ++ extra))) len
        fuel front.length state =
      .ok
        (BlockStream.digest compress 64 state tail,
          front.length + 64 * (tail.length / 64)) := by
  simp only [ptrdiffMax] at small
  have next {index step : Nat} (inside : index ≤ len) (few : step ≤ 64) :
      sizeAdd index step = index + step := by
    apply sizeAdd_of_lt
    simp only [sizeModulus]
    omega
  induction tail using BlockStream.block_induction (by decide : 0 < 64)
    generalizing front state fuel with
  | short tail few =>
      cases fuel with
      | zero => omega
      | succ fuel =>
          rw [compressLoop, next (by omega) (by decide), if_neg (by omega),
            BlockStream.digest_short compress few, Nat.div_eq_of_lt few,
            Nat.mul_zero, Nat.add_zero]
  | step block tail full induction =>
      rw [List.length_append, full] at whole enough
      cases fuel with
      | zero => omega
      | succ fuel =>
          have moved : front.length + 64 = (front ++ block).length := by
            rw [List.length_append, full]
          have more : (64 + tail.length) / 64 = tail.length / 64 + 1 :=
            Nat.add_div_left _ (by decide)
          have later :=
            @induction (front ++ block) (compress state block) fuel
              (by rw [← moved]; omega) (by omega)
          rw [List.append_assoc] at later
          rw [compressLoop, next (by omega) (by decide),
            if_pos (by omega), List.append_assoc]
          refine
            (Except.bind_of_ok (readBlock_eq full front (tail ++ extra))
              _).trans ?_
          rw [next (by omega) le_rfl, moved, later,
            BlockStream.digest_block compress (by decide) full, ← moved,
            List.length_append, full, more]
          congr 2
          omega

/-! ## What a context has taken up -/

/-- The context after a message, wherever it was cut. -/
structure Absorbed (compress : State → List UInt8 → State) (start : State)
    (ctx : Context State) (message : List UInt8) : Prop where
  state_eq : ctx.state = BlockStream.digest compress 64 start message
  count_eq : ctx.count = UInt64.ofNat message.length
  buffer_eq :
    ∃ stale : Cells UInt8,
      ctx.buffer =
          Cells.written (BlockStream.rest 64 message) ++ stale ∧
        message.length % 64 + stale.length = 64

variable {start : State} {ctx : Context State} {message : List UInt8}

theorem absorbed_initWith :
    Absorbed compress start (initWith start) [] :=
  ⟨rfl, rfl, Cells.fresh 64, rfl, rfl⟩

theorem Absorbed.index_eq (absorbed : Absorbed compress start ctx message) :
    ctx.index = message.length % 64 := by
  rw [Context.index, absorbed.count_eq, UInt64.toNat_and]
  change (UInt64.ofNat message.length).toNat &&& (2 ^ 6 - 1) = _
  rw [Nat.and_two_pow_sub_one_eq_mod, UInt64.toNat_ofNat']
  exact Nat.mod_mod_of_dvd _ (by decide)

theorem Absorbed.length_rest (absorbed : Absorbed compress start ctx message) :
    (BlockStream.rest 64 message).length = ctx.index := by
  rw [BlockStream.length_rest, absorbed.index_eq]

theorem Absorbed.index_lt (absorbed : Absorbed compress start ctx message) :
    ctx.index < 64 := by
  rw [absorbed.index_eq]
  exact Nat.mod_lt _ (by decide)

theorem Absorbed.counted (absorbed : Absorbed compress start ctx message)
    (content : List UInt8) :
    ctx.count + UInt64.ofNat content.length =
      UInt64.ofNat (message ++ content).length := by
  rw [absorbed.count_eq, List.length_append, UInt64.ofNat_add]

/-- Bytes that do not fill the buffer are only put into it. -/
theorem Absorbed.update_short
    (absorbed : Absorbed compress start ctx message)
    (content extra : List UInt8) (short : content.length < 64 - ctx.index) :
    ∃ after,
      update compress ctx (Cells.written (content ++ extra))
          content.length =
          .ok after ∧
        Absorbed compress start after (message ++ content) := by
  rcases absorbed.buffer_eq with ⟨stale, buffer, room⟩
  have index := absorbed.index_eq
  have indexLength := absorbed.length_rest
  rw [update]
  dsimp only
  rw [if_neg (by omega)]
  have few : (BlockStream.rest 64 message ++ content).length < 64 := by
    rw [List.length_append, indexLength]
    omega
  have old : (stale.take content.length).length = content.length := by
    rw [List.length_take]
    omega
  have found := Cells.read_written [] content extra
  have stored :
      ctx.buffer.store ctx.index (Cells.written content) =
        .ok
          (Cells.written (BlockStream.rest 64 message) ++
            (Cells.written content ++ stale.drop content.length)) := by
    have overwritten :=
      @Cells.store_append UInt8
        (Cells.written (BlockStream.rest 64 message))
        (stale.take content.length) (Cells.written content)
        (stale.drop content.length) (by rw [old, Cells.length_written])
    rwa [List.take_append_drop, ← buffer, Cells.length_written,
      indexLength] at overwritten
  refine
    ⟨_, (Except.bind_of_ok found _).trans (Except.bind_of_ok stored _), ?_,
      absorbed.counted content, stale.drop content.length, ?_, ?_⟩
  · rw [BlockStream.digest_append compress (by decide),
      BlockStream.digest_short compress few, absorbed.state_eq]
  · rw [(BlockStream.blocks_append (by decide) message content).2,
      (BlockStream.blocks_short few).2, Cells.written_append,
      List.append_assoc]
  · rw [List.length_drop, List.length_append]
    omega

/-- The buffer is filled up, and the blocks behind it are compressed. -/
theorem Absorbed.update_full
    (absorbed : Absorbed compress start ctx message)
    (part tail extra : List UInt8)
    (partLength : part.length = 64 - ctx.index)
    (small : (part ++ tail).length ≤ ptrdiffMax) :
    ∃ after,
      update compress ctx (Cells.written (part ++ tail ++ extra))
          (part ++ tail).length =
          .ok after ∧
        Absorbed compress start after (message ++ (part ++ tail)) := by
  rcases absorbed.buffer_eq with ⟨stale, buffer, room⟩
  have index := absorbed.index_eq
  have indexLength := absorbed.length_rest
  have below := absorbed.index_lt
  rw [update]
  dsimp only
  rw [if_pos (by rw [List.length_append, partLength]; omega)]
  have first :
      (BlockStream.rest 64 message ++ part).length = 64 := by
    rw [List.length_append, indexLength, partLength, index]
    omega
  have found :
      (Cells.written (part ++ tail ++ extra)).read 0 (64 - ctx.index) =
        .ok (Cells.written part) := by
    rw [← partLength, List.append_assoc]
    exact Cells.read_written [] part (tail ++ extra)
  have stored :
      ctx.buffer.store ctx.index (Cells.written part) =
        .ok
          (Cells.written (BlockStream.rest 64 message ++ part)) := by
    have overwritten :=
      @Cells.store_append UInt8
        (Cells.written (BlockStream.rest 64 message)) stale
        (Cells.written part) []
        (by rw [Cells.length_written, partLength]; omega)
    rwa [List.append_nil, ← buffer, Cells.length_written, indexLength,
      List.append_nil, ← Cells.written_append] at overwritten
  have block :
      readBlock
          (Cells.written (BlockStream.rest 64 message ++ part)) 0 =
        .ok (BlockStream.rest 64 message ++ part) := by
    have read := readBlock_eq first [] []
    rwa [List.append_nil] at read
  have looped :=
    @compressLoop_eq State compress (part ++ tail).length tail part extra
      (compress ctx.state (BlockStream.rest 64 message ++ part))
      ((part ++ tail).length / 64 + 1) List.length_append.symm small
      (by rw [List.length_append]; omega)
  rw [partLength, ← List.append_assoc] at looped
  have whole :=
    BlockStream.flatten_blocks (by decide : 0 < 64) tail
  have restLength := @BlockStream.length_rest UInt8 64 tail
  have wholeLength := congrArg List.length whole
  rw [List.length_append] at wholeLength
  have last :
      (Cells.written (part ++ tail ++ extra)).read
          (64 - ctx.index + 64 * (tail.length / 64))
          ((part ++ tail).length -
            (64 - ctx.index + 64 * (tail.length / 64))) =
        .ok (Cells.written (BlockStream.rest 64 tail)) := by
    have read :=
      Cells.read_written (part ++ (BlockStream.blocks 64 tail).flatten)
        (BlockStream.rest 64 tail) extra
    have front :
        (part ++ (BlockStream.blocks 64 tail).flatten).length =
          64 - ctx.index + 64 * (tail.length / 64) := by
      rw [List.length_append, partLength]
      omega
    have back :
        (BlockStream.rest 64 tail).length =
          (part ++ tail).length -
            (64 - ctx.index + 64 * (tail.length / 64)) := by
      rw [List.length_append, partLength]
      omega
    rwa [front, back, ← List.append_assoc,
      List.append_assoc part, whole] at read
  have short : (BlockStream.rest 64 tail).length < 64 := by
    rw [restLength]
    exact Nat.mod_lt _ (by decide)
  have kept :
      (Cells.written (BlockStream.rest 64 message ++ part)).store 0
          (Cells.written (BlockStream.rest 64 tail)) =
        .ok
          (Cells.written (BlockStream.rest 64 tail) ++
            (Cells.written (BlockStream.rest 64 message ++ part)).drop
              (BlockStream.rest 64 tail).length) := by
    rw [Cells.store_of_le, List.take_zero, Nat.zero_add,
      Cells.length_written]
    · rfl
    · rw [Cells.length_written, Cells.length_written, first]
      omega
  refine
    ⟨_, (Except.bind_of_ok found _).trans
      ((Except.bind_of_ok stored _).trans
        ((Except.bind_of_ok block _).trans
          ((Except.bind_of_ok looped _).trans
            ((Except.bind_of_ok last _).trans
              (Except.bind_of_ok kept _))))), ?_,
      absorbed.counted (part ++ tail),
      (Cells.written (BlockStream.rest 64 message ++ part)).drop
        (BlockStream.rest 64 tail).length, ?_, ?_⟩
  · rw [BlockStream.digest_append compress (by decide),
      ← List.append_assoc,
      BlockStream.digest_block compress (by decide) first,
      absorbed.state_eq]
  · rw [(BlockStream.blocks_append (by decide) message (part ++ tail)).2,
      ← List.append_assoc,
      (BlockStream.blocks_block (by decide) first tail).2]
  · rw [List.length_drop, Cells.length_written, first, restLength,
      List.length_append, List.length_append, partLength]
    omega

/-- A call of `update` takes up the bytes that it is given. -/
theorem Absorbed.update (absorbed : Absorbed compress start ctx message)
    (content extra : List UInt8) (small : content.length ≤ ptrdiffMax) :
    ∃ after,
      update compress ctx (Cells.written (content ++ extra))
          content.length =
          .ok after ∧
        Absorbed compress start after (message ++ content) := by
  by_cases short : content.length < 64 - ctx.index
  · exact absorbed.update_short content extra short
  · have partLength :
        (content.take (64 - ctx.index)).length = 64 - ctx.index := by
      rw [List.length_take]
      omega
    have full :=
      absorbed.update_full (content.take (64 - ctx.index))
        (content.drop (64 - ctx.index)) extra partLength
    rw [List.take_append_drop] at full
    exact full small

/-- So do several calls, one after another. -/
theorem Absorbed.updates (absorbed : Absorbed compress start ctx message)
    {chunks : List (List UInt8)}
    (small : ∀ chunk ∈ chunks, chunk.length ≤ ptrdiffMax) :
    ∃ after,
      updates compress ctx chunks = .ok after ∧
        Absorbed compress start after (message ++ chunks.flatten) := by
  induction chunks generalizing ctx message with
  | nil =>
      rw [List.flatten_nil, List.append_nil]
      exact ⟨ctx, rfl, absorbed⟩
  | cons chunk chunks induction =>
      rcases List.forall_mem_cons.mp small with ⟨chunkSmall, others⟩
      rcases absorbed.update chunk [] chunkSmall with
        ⟨between, ran, absorbedChunk⟩
      rw [List.append_nil] at ran
      rcases induction absorbedChunk others with ⟨after, later, whole⟩
      rw [List.append_assoc] at whole
      exact ⟨after, (Except.bind_of_ok ran _).trans later, whole⟩

/-! ## Padding -/

/-- The number of bits, as a 64-bit word, lowest byte first. -/
theorem lengthBytes_eq (length : Nat) :
    lengthBytes (UInt64.ofNat length) =
      LittleEndian.toBytes 8 (8 * length) := by
  have bits :
      (UInt64.ofNat length * 8).toNat = 8 * length % 256 ^ 8 := by
    rw [UInt64.toNat_mul, UInt64.toNat_ofNat', Nat.mul_comm 8]
    exact Nat.mod_mul_mod _ _ _
  have byte (i : Nat) (few : i < 8) :
      ((UInt64.ofNat length * 8) >>> UInt64.ofNat (8 * i)).toUInt8 =
        UInt8.ofNat (8 * length % 256 ^ 8 / 256 ^ i % 256) := by
    apply UInt8.toNat_inj.mp
    have amount : (UInt64.ofNat (8 * i)).toNat % 64 = 8 * i := by
      rw [toNat_ofNat_size (by simp only [sizeModulus]; omega),
        Nat.mod_eq_of_lt (by omega)]
    rw [UInt64.toNat_toUInt8, UInt64.toNat_shiftRight, amount, bits,
      Nat.shiftRight_eq_div_pow, Nat.pow_mul, UInt8.toNat_ofNat']
    exact (Nat.mod_mod _ _).symm
  rw [← LittleEndian.toBytes_mod, LittleEndian.toBytes_eq_map, lengthBytes]
  apply List.map_congr_left
  intro i member
  exact byte i (List.mem_range.mp member)

/-- The least number of zeros behind the mark. -/
def zeroCount (length : Nat) : Nat :=
  (119 - length % 64) % 64

theorem padding_eq (length : Nat) :
    padding.take
        (if length % 64 < 56 then 56 - length % 64 else 120 - length % 64) =
      0x80 :: List.replicate (zeroCount length) 0 := by
  have below : length % 64 < 64 := Nat.mod_lt _ (by decide)
  have count :
      (if length % 64 < 56 then 56 - length % 64 else 120 - length % 64) =
        zeroCount length + 1 := by
    rw [zeroCount]
    split
    · omega
    · omega
  have few : zeroCount length ≤ 63 :=
    Nat.le_of_lt_succ (Nat.mod_lt _ (by decide))
  rw [count, padding, List.take_succ_cons, List.take_replicate,
    Nat.min_eq_left few]

/-- The message with its padding. -/
def padded (message : List UInt8) : List UInt8 :=
  message ++
    (0x80 :: List.replicate (zeroCount message.length) 0 ++
      LittleEndian.toBytes 8 (8 * message.length))

/-- `final` takes up the padding. -/
theorem Absorbed.pad (absorbed : Absorbed compress start ctx message) :
    ∃ after,
      pad compress ctx = .ok after ∧
        Absorbed compress start after (padded message) := by
  have below := absorbed.index_lt
  have index := absorbed.index_eq
  have mark := padding_eq message.length
  have length : padding.length = 64 := rfl
  rw [← index] at mark
  have few :
      (if ctx.index < 56 then 56 - ctx.index else 120 - ctx.index) ≤ 64 := by
    split
    · omega
    · omega
  have cut :
      (padding.take
          (if ctx.index < 56 then 56 - ctx.index else 120 - ctx.index)
        ).length =
        if ctx.index < 56 then 56 - ctx.index else 120 - ctx.index := by
    rw [List.length_take, length, Nat.min_eq_left few]
  rcases
      absorbed.update
        (padding.take
          (if ctx.index < 56 then 56 - ctx.index else 120 - ctx.index))
        (padding.drop
          (if ctx.index < 56 then 56 - ctx.index else 120 - ctx.index))
        (by rw [cut]; exact few.trans (by decide)) with
    ⟨between, marked, absorbedMark⟩
  rw [List.take_append_drop, cut] at marked
  have eight : (lengthBytes ctx.count).length = 8 := by
    rw [lengthBytes, List.length_map, List.length_range]
  have lengthSmall : (lengthBytes ctx.count).length ≤ ptrdiffMax := by
    rw [eight]
    decide
  rcases
      absorbedMark.update (lengthBytes ctx.count) [] lengthSmall with
    ⟨after, counted, whole⟩
  rw [List.append_nil, eight] at counted
  refine ⟨after, (Except.bind_of_ok marked _).trans counted, ?_⟩
  rw [mark, absorbed.count_eq, lengthBytes_eq, List.append_assoc] at whole
  exact whole

theorem length_padded (message : List UInt8) :
    64 ∣ (padded message).length := by
  have below : message.length % 64 < 64 := Nat.mod_lt _ (by decide)
  rw [padded, zeroCount]
  simp only [List.length_append, List.length_cons, List.length_replicate,
    LittleEndian.length_toBytes]
  omega

/-! ## Hashing in pieces -/

/-- Data for a call of `update`: no object is larger than `PTRDIFF_MAX`. -/
abbrev Chunk := { data : List UInt8 // data.length ≤ ptrdiffMax }

/-- The least number of zeros that brings a length to 56 modulo 64. -/
structure LeastZeros (length zeros : Nat) : Prop where
  reaches : (length + 1 + zeros) % 64 = 56
  least : ∀ fewer, (length + 1 + fewer) % 64 = 56 → zeros ≤ fewer

theorem leastZeros (length : Nat) : LeastZeros length (zeroCount length) := by
  have below : length % 64 < 64 := Nat.mod_lt _ (by decide)
  constructor
  · rw [zeroCount]
    omega
  · intro fewer reaches
    rw [zeroCount]
    omega

/-- `update` for some pieces, and then the padding. -/
def absorbAll (compress : State → List UInt8 → State) (start : State)
    (pieces : List (List UInt8)) : Outcome (Context State) := do
  let ctx ← updates compress (initWith start) pieces
  pad compress ctx

theorem absorbAll_eq {pieces : List (List UInt8)}
    (small : ∀ piece ∈ pieces, piece.length ≤ ptrdiffMax) :
    ∃ after,
      absorbAll compress start pieces = .ok after ∧
        after.state =
          BlockStream.digest compress 64 start (padded pieces.flatten) := by
  rcases absorbed_initWith.updates small with ⟨between, ran, absorbed⟩
  rw [List.nil_append] at absorbed
  rcases absorbed.pad with ⟨after, padding, whole⟩
  exact ⟨after, (Except.bind_of_ok ran _).trans padding, whole.state_eq⟩

/-- The digest of some pieces is that of the blocks of the padded message. -/
theorem final_updates {pieces : List (List UInt8)}
    (small : ∀ piece ∈ pieces, piece.length ≤ ptrdiffMax) :
    (updates Ripemd160.compress init pieces >>= final) =
      .ok
        (digestBytes
          ((BlockStream.blocks 64 (padded pieces.flatten)).foldl
            Ripemd160.compress initState)) := by
  rcases
      @absorbed_initWith _ Ripemd160.compress initState |>.updates small with
    ⟨between, ran, absorbed⟩
  rw [List.nil_append] at absorbed
  rcases absorbed.pad with ⟨after, padding, whole⟩
  refine (Except.bind_of_ok ran _).trans ?_
  refine (Except.bind_of_ok padding _).trans ?_
  rw [whole.state_eq]
  rfl

/-- A single call of `update` is a call for one piece. -/
theorem update_eq_updates (content : List UInt8) :
    update Ripemd160.compress init (Cells.written content)
        content.length =
      updates Ripemd160.compress init [content] := by
  rw [updates]
  cases
    update Ripemd160.compress init (Cells.written content)
      content.length with
  | error reason => rfl
  | ok after => rfl

theorem hash_eq (content : List UInt8) :
    hash (.items content) =
      (updates Ripemd160.compress init
        (if content.length > 0 then [content] else []) >>= final) := by
  rw [hash]
  split
  · rw [update_eq_updates]
  · rfl

/--
Hashing processes exactly the padded message, however the message was cut:
the blocks that the compression is given are those of the message behind
which the mark, the least number of zeros and the number of bits stand.  The
digest is that of the blocks, also for the whole message at once, and no
access leaves the buffer or the data.
-/
theorem hashes_padded_blocks (chunks : List Chunk) :
    ∃ zeros blocks,
      LeastZeros (chunks.map Subtype.val).flatten.length zeros ∧
        (∀ block ∈ blocks, block.length = 64) ∧
        blocks.flatten =
          (chunks.map Subtype.val).flatten ++
            (0x80 :: List.replicate zeros 0 ++
              LittleEndian.toBytes 8
                (8 * (chunks.map Subtype.val).flatten.length)) ∧
        (∃ after,
          absorbAll (BlockStream.recorded compress) (start, [])
              (chunks.map Subtype.val) = .ok after ∧
            after.state = (blocks.foldl compress start, blocks)) ∧
        (updates Ripemd160.compress init (chunks.map Subtype.val) >>=
            final) =
          .ok (digestBytes (blocks.foldl Ripemd160.compress initState)) ∧
        ((chunks.map Subtype.val).flatten.length ≤ ptrdiffMax →
          (update Ripemd160.compress init
                (Cells.written (chunks.map Subtype.val).flatten)
                (chunks.map Subtype.val).flatten.length >>= final) =
              .ok
                (digestBytes (blocks.foldl Ripemd160.compress initState)) ∧
            hash (.items (chunks.map Subtype.val).flatten) =
              .ok
                (digestBytes
                  (blocks.foldl Ripemd160.compress initState))) := by
  have small :
      ∀ piece ∈ chunks.map Subtype.val, piece.length ≤ ptrdiffMax := by
    intro piece member
    rcases List.mem_map.mp member with ⟨chunk, -, rfl⟩
    exact chunk.property
  generalize chunks.map Subtype.val = pieces at small
  have whole :
      (BlockStream.blocks 64 (padded pieces.flatten)).flatten =
        padded pieces.flatten := by
    have parts :=
      BlockStream.flatten_blocks (by decide : 0 < 64)
        (padded pieces.flatten)
    rwa [BlockStream.rest_eq_nil_iff.mpr (length_padded _),
      List.append_nil] at parts
  refine
    ⟨_, BlockStream.blocks 64 (padded pieces.flatten), leastZeros _,
      BlockStream.length_of_mem_blocks (by decide), whole, ?_,
      final_updates small, ?_⟩
  · rcases
      @absorbAll_eq _ (BlockStream.recorded compress) (start, []) _
        small with
      ⟨after, ran, state⟩
    refine ⟨after, ran, ?_⟩
    rw [state, BlockStream.digest_recorded, List.nil_append,
      BlockStream.digest]
  · intro object
    have single :
        ∀ piece ∈ [pieces.flatten], piece.length ≤ ptrdiffMax :=
      List.forall_mem_singleton.mpr object
    have once := final_updates single
    rw [List.flatten_singleton] at once
    refine ⟨by rw [update_eq_updates, once], ?_⟩
    rw [hash_eq]
    split
    · exact once
    · rename_i none
      have empty : pieces.flatten = [] :=
        List.length_eq_zero_iff.mp (by omega)
      rw [empty]
      exact final_updates (List.forall_mem_nil _)

/-- The digest of the text `abc`. -/
example :
    hash (.items (ascii "abc")) =
      .ok
        [0x8E, 0xB2, 0x08, 0xF7, 0xE0, 0x5D, 0x98, 0x7A, 0x9B, 0x04, 0x4A,
          0x8E, 0x98, 0xC6, 0xB0, 0x87, 0xF1, 0x5A, 0x0B, 0xFC] := by
  decide +kernel

end Ripemd160

end NeoC
