import NeoC.Serialization.VarSize

/-!
# Arrays of serializable objects

An object that can be serialized carries pointers to its own methods, and the
functions for arrays of such objects are written over these pointers: a count
in variable-length form, followed by the objects one after another.  What the
methods have to do for the array functions to be inverse is `Codec`: an
object appends its bytes, knows how many there are, and is read back from
them whatever follows.

The results of `arrayDeserialize` are stored through pointers of the caller,
so they are part of the state that it works on.
-/

namespace NeoC.SerializableArray

open Foundation Serialization

/-! ## Objects and their methods -/

/--
The methods of an object, applied to it.  Of the two that the functions below
only test for `NULL`, nothing else is kept.
-/
structure Methods where
  serialize : Option (Routine BinaryWriter Unit)
  deserialize : Bool
  getSize : Option (Outcome Nat)
  freeObj : Bool

/-- `neoc_serializable_validate`. -/
def Methods.validate (methods : Methods) : Outcome Unit :=
  if methods.serialize.isNone ∨ methods.deserialize = false ∨
      methods.getSize.isNone ∨ methods.freeObj = false then
    .error (.error .invalidArgument "")
  else
    .ok ()

/-- `neoc_serializable_serialize`. -/
def Methods.runSerialize (methods : Methods) : Routine BinaryWriter Unit := do
  Call.lift methods.validate
  match methods.serialize with
  | none => Call.halt .illegalAccess
  | some call => call

/-- `neoc_serializable_get_size`. -/
def Methods.runGetSize (methods : Methods) : Outcome Nat := do
  methods.validate
  match methods.getSize with
  | none => .error .illegalAccess
  | some size => size

variable {Item : Type}

/-! ## The array functions -/

/-- The loop body of `neoc_serializable_array_serialize`. -/
def serializeEntry (methods : Item → Methods) (object : Option Item) :
    Routine BinaryWriter Unit :=
  match object with
  | none => errorSet .invalidArgument ""
  | some item => (methods item).runSerialize

/-- `neoc_serializable_array_serialize`. -/
def arraySerialize (methods : Item → Methods) (alloc : Allocator)
    (objects : Slice (Option Item)) : Routine BinaryWriter Unit :=
  match objects with
  | .null count =>
      if count > 0 then errorSet .invalidArgument ""
      else BinaryWriter.writeVarInt alloc 0
  | .items content => do
      BinaryWriter.writeVarInt alloc (UInt64.ofNat content.length)
      Call.forEach (serializeEntry methods) content

/-- The reader and the two results of `neoc_serializable_array_deserialize`. -/
structure ArrayCall (Item : Type) where
  reader : BinaryReader
  objects : Option (List (Option Item))
  count : Nat

/-- A call that works on the reader alone. -/
def onReader {α : Type} (call : Routine BinaryReader α) :
    Routine (ArrayCall Item) α :=
  fun state =>
    ((call state.reader).1, { state with reader := (call state.reader).2 })

/-- `neoc_serializable_array_deserialize`. -/
def arrayDeserialize (alloc : Allocator)
    (deserialize : Routine BinaryReader (Option Item)) (maxCount : Nat) :
    Routine (ArrayCall Item) Unit := do
  Call.update fun state => { state with objects := none, count := 0 }
  let arrayCount ← onReader BinaryReader.readVarInt
  if maxCount > 0 ∧ arrayCount.toNat > maxCount then
    errorSet .invalidFormat ""
  else if arrayCount.toNat = 0 then
    pure ()
  else if arrayCount.toNat > 1000000 then
    errorSet .invalidFormat ""
  else if alloc.neocGrants (8 * arrayCount.toNat) = false then
    errorSet .outOfMemory ""
  else do
    let objArray ← onReader (deserialize.times arrayCount.toNat)
    Call.update fun state =>
      { state with objects := some objArray, count := arrayCount.toNat }

/-- The size of the count in `neoc_serializable_array_get_size`. -/
def countSize (count : Nat) : Nat :=
  if count < 0xFD then 1
  else if count ≤ 0xFFFF then 3
  else if count ≤ 0xFFFFFFFF then 5
  else 9

/-- The loop of `neoc_serializable_array_get_size`. -/
def addSizes (methods : Item → Methods) :
    List (Option Item) → (totalSize : Nat) → Outcome Nat
  | [], totalSize => .ok totalSize
  | none :: _, _ => .error (.error .invalidArgument "")
  | some item :: rest, totalSize => do
      let objSize ← (methods item).runGetSize
      addSizes methods rest (sizeAdd totalSize objSize)

/-- `neoc_serializable_array_get_size`. -/
def arrayGetSize (methods : Item → Methods)
    (objects : Slice (Option Item)) : Outcome Nat :=
  match objects with
  | .null count =>
      if count > 0 then .error (.error .invalidArgument "")
      else .ok (countSize 0)
  | .items content => addSizes methods content (countSize content.length)

/-! ## Codecs -/

/-- What an object has to do to be read back from these bytes. -/
structure Codec (methods : Item → Methods) (alloc : Allocator)
    (deserialize : Routine BinaryReader (Option Item)) (item : Item)
    (bytes : List UInt8) : Prop where
  validates : (methods item).validate = .ok ()
  serializes :
    ∃ call,
      (methods item).serialize = some call ∧
        BinaryWriter.Emits alloc call bytes
  measures : (methods item).getSize = some (.ok bytes.length)
  deserializes : Reads deserialize bytes (some item)

section Codecs

variable {methods : Item → Methods} {alloc : Allocator}
  {deserialize : Routine BinaryReader (Option Item)}
  {bytesOf : Item → List UInt8} {items : List Item}

theorem Codec.serializeEntry_emits {item : Item} {bytes : List UInt8}
    (codec : Codec methods alloc deserialize item bytes) :
    BinaryWriter.Emits alloc (serializeEntry methods (some item)) bytes := by
  rcases codec.serializes with ⟨call, found, emits⟩
  have runs : serializeEntry methods (some item) = call := by
    funext writer
    rw [serializeEntry, Methods.runSerialize, codec.validates, found,
      Call.lift_ok_bind]
  rw [runs]
  exact emits

theorem Codec.runGetSize_eq {item : Item} {bytes : List UInt8}
    (codec : Codec methods alloc deserialize item bytes) :
    (methods item).runGetSize = .ok bytes.length := by
  rw [Methods.runGetSize, codec.validates, codec.measures]
  rfl

/-- The bytes of an array: its count and its objects. -/
def arrayBytes (bytesOf : Item → List UInt8) (items : List Item) :
    List UInt8 :=
  VarInt.encode items.length ++ items.flatMap bytesOf

/-- The array appends its bytes, and does so whenever memory allows. -/
theorem arraySerialize_emits
    (codecs :
      ∀ item ∈ items, Codec methods alloc deserialize item (bytesOf item))
    (few : items.length ≤ 1000000) :
    BinaryWriter.Emits alloc
      (arraySerialize methods alloc (.items (items.map some)))
      (arrayBytes bytesOf items) := by
  have count :=
    @BinaryWriter.writeVarInt_emits alloc (UInt64.ofNat items.length)
  rw [toNat_ofNat_size (Nat.lt_of_le_of_lt few (by decide))] at count
  have entries :
      BinaryWriter.Emits alloc
        (Call.forEach (serializeEntry methods) (items.map some))
        (items.flatMap bytesOf) := by
    rw [Call.forEach_map]
    apply BinaryWriter.emits_forEach
    intro item member
    exact (codecs item member).serializeEntry_emits
  rw [arraySerialize, List.length_map]
  exact count.bind entries

theorem countSize_eq (count : Nat) :
    countSize count = (VarInt.encode count).length := by
  rw [countSize, VarInt.length_encode]

theorem addSizes_eq
    (codecs :
      ∀ item ∈ items, Codec methods alloc deserialize item (bytesOf item))
    {totalSize : Nat}
    (small : totalSize + (items.flatMap bytesOf).length < sizeModulus) :
    addSizes methods (items.map some) totalSize =
      .ok (totalSize + (items.flatMap bytesOf).length) := by
  induction items generalizing totalSize with
  | nil => rfl
  | cons item rest induction =>
      rcases List.forall_mem_cons.mp codecs with ⟨first, others⟩
      rw [List.flatMap_cons, List.length_append, ← Nat.add_assoc] at small
      have step :
          sizeAdd totalSize (bytesOf item).length =
            totalSize + (bytesOf item).length :=
        sizeAdd_of_lt (Nat.lt_of_le_of_lt (Nat.le_add_right _ _) small)
      rw [List.map_cons, addSizes, first.runGetSize_eq, List.flatMap_cons,
        List.length_append, ← Nat.add_assoc, ← step]
      rw [← step] at small
      exact induction others small

/-- The size that is computed is the number of bytes that are written. -/
theorem arrayGetSize_eq
    (codecs :
      ∀ item ∈ items, Codec methods alloc deserialize item (bytesOf item))
    (small : (arrayBytes bytesOf items).length ≤ ptrdiffMax) :
    arrayGetSize methods (.items (items.map some)) =
      .ok (arrayBytes bytesOf items).length := by
  have bounded := lt_sizeModulus small
  rw [arrayBytes, List.length_append, ← countSize_eq] at bounded
  rw [arrayGetSize, List.length_map, addSizes_eq codecs bounded, arrayBytes,
    List.length_append, countSize_eq]

/-! ## Reading an array -/

/-- The bytes of the objects are read as the objects. -/
theorem reads_items
    (codecs :
      ∀ item ∈ items, Codec methods alloc deserialize item (bytesOf item)) :
    Reads (deserialize.times items.length) (items.flatMap bytesOf)
      (items.map some) := by
  induction items with
  | nil => exact reads_pure []
  | cons item rest induction =>
      rcases List.forall_mem_cons.mp codecs with ⟨first, others⟩
      rw [List.flatMap_cons]
      exact
        first.deserializes.bind
          ((induction others).map (some item :: ·))

theorem onReader_of_reads {α : Type} {call : Routine BinaryReader α}
    {bytes rest : List UInt8} {value : α} (reads : Reads call bytes value)
    {state : ArrayCall Item} (wellFormed : state.reader.WellFormed)
    (found :
      state.reader.data.drop state.reader.position = bytes ++ rest) :
    onReader call state =
      (.ok value,
        { state with
          reader :=
            { state.reader with
              position := state.reader.position + bytes.length } }) := by
  rw [onReader, reads state.reader rest wellFormed found]

/-- What the caller finds after an array was read. -/
def stored (items : List Item) : Option (List (Option Item)) :=
  if items.length = 0 then none else some (items.map some)

theorem arrayDeserialize_run
    (codecs :
      ∀ item ∈ items, Codec methods alloc deserialize item (bytesOf item))
    (few : items.length ≤ 1000000)
    {maxCount : Nat}
    (allowed : maxCount = 0 ∨ items.length ≤ maxCount)
    (serves : alloc.Serves (8 * items.length))
    {state : ArrayCall Item} (wellFormed : state.reader.WellFormed)
    {rest : List UInt8}
    (found :
      state.reader.data.drop state.reader.position =
        arrayBytes bytesOf items ++ rest) :
    arrayDeserialize alloc deserialize maxCount state =
      (.ok (),
        { reader :=
            { state.reader with
              position :=
                state.reader.position +
                  (arrayBytes bytesOf items).length }
          objects := stored items
          count := items.length }) := by
  have exact :
      (UInt64.ofNat items.length).toNat = items.length :=
    toNat_ofNat_size (Nat.lt_of_le_of_lt few (by decide))
  have count := reads_readVarInt (UInt64.ofNat items.length)
  rw [exact] at count
  rw [arrayBytes, List.append_assoc] at found
  have inside := position_add_le wellFormed found
  have moved :
      ({ state.reader with
          position :=
            state.reader.position +
              (VarInt.encode items.length).length } :
        BinaryReader).WellFormed :=
    ⟨inside, wellFormed.length_le, wellFormed.marker_le⟩
  have remaining :
      state.reader.data.drop
          (state.reader.position + (VarInt.encode items.length).length) =
        items.flatMap bytesOf ++ rest := by
    rw [← List.drop_drop, found, List.drop_left]
  have counted :=
    @onReader_of_reads Item _ _ _ _ _ count
      { state with objects := none, count := 0 } wellFormed found
  rw [arrayDeserialize, Call.bind_of_ok (Call.update_run _ _),
    Call.bind_of_ok counted, exact, if_neg (by omega)]
  by_cases empty : items.length = 0
  · rw [if_pos empty, stored, if_pos empty, arrayBytes,
      List.length_eq_zero_iff.mp empty]
    rfl
  · have granted : alloc.neocGrants (8 * items.length) = true :=
      serves.neocGrants (by omega) le_rfl
    have read :=
      @onReader_of_reads Item _ _ _ _ _ (reads_items codecs)
        { reader :=
            { state.reader with
              position :=
                state.reader.position +
                  (VarInt.encode items.length).length }
          objects := none
          count := 0 } moved remaining
    rw [if_neg empty, if_neg (by omega), if_neg (by rw [granted]; decide),
      Call.bind_of_ok read, stored, if_neg empty, arrayBytes,
      List.length_append, ← Nat.add_assoc]
    rfl

/-! ## A failed call -/

/-- A call on the reader leaves the results alone. -/
theorem onReader_state {α : Type} {call : Routine BinaryReader α}
    {state after : ArrayCall Item} {outcome : Outcome α}
    (ran : onReader call state = (outcome, after)) :
    after.objects = state.objects ∧ after.count = state.count := by
  injection ran with _ same
  rw [← same]
  exact ⟨rfl, rfl⟩

/-- Whatever made the call fail, the caller finds no array. -/
theorem arrayDeserialize_failed {maxCount : Nat} {reason : Halt}
    {state after : ArrayCall Item}
    (failed :
      arrayDeserialize alloc deserialize maxCount state =
        (.error reason, after)) :
    after.objects = none ∧ after.count = 0 := by
  rw [arrayDeserialize, Call.bind_of_ok (Call.update_run _ _)] at failed
  rcases counted :
      onReader BinaryReader.readVarInt
        { state with objects := none, count := 0 } with
    ⟨stopped | arrayCount, between⟩
  · rw [Call.bind_of_error counted] at failed
    injection failed with _ same
    rw [← same]
    exact onReader_state counted
  · have blank := onReader_state counted
    rw [Call.bind_of_ok counted] at failed
    split at failed
    · injection failed with _ same
      rw [← same]
      exact blank
    split at failed
    · cases failed
    split at failed
    · injection failed with _ same
      rw [← same]
      exact blank
    split at failed
    · injection failed with _ same
      rw [← same]
      exact blank
    rcases read :
        onReader (deserialize.times arrayCount.toNat) between with
      ⟨stopped | objArray, last⟩
    · rw [Call.bind_of_error read] at failed
      injection failed with _ same
      rcases onReader_state read with ⟨objects, count⟩
      rw [← same, objects, count]
      exact blank
    · rw [Call.bind_of_ok read] at failed
      cases failed

/-! ## The array codec -/

/--
An array of objects that are read back is read back: what is appended has the
computed size, and from these bytes, whatever follows them, the objects are
restored in order and the reader stops behind them.  And whatever the
deserializer does, a failed call leaves neither an array nor a count.
-/
theorem array_roundTrip
    (codecs :
      ∀ item ∈ items, Codec methods alloc deserialize item (bytesOf item))
    (few : items.length ≤ 1000000)
    {maxCount : Nat}
    (allowed : maxCount = 0 ∨ items.length ≤ maxCount)
    {writer : BinaryWriter}
    (wellFormed : writer.WellFormed)
    (grows : writer.autoGrow = true)
    (serves :
      alloc.Serves
        (max (8 * items.length)
          (2 * (writer.position + (arrayBytes bytesOf items).length)))) :
    (∃ written bytes,
      arraySerialize methods alloc (.items (items.map some)) writer =
          (.ok (), written) ∧
        written.contents = writer.contents ++ bytes ∧
        arrayGetSize methods (.items (items.map some)) =
          .ok bytes.length ∧
        ∀ (state : ArrayCall Item) (suffix : List UInt8),
          state.reader.WellFormed →
            state.reader.data.drop state.reader.position =
                bytes ++ suffix →
              arrayDeserialize alloc deserialize maxCount state =
                (.ok (),
                  { reader :=
                      { state.reader with
                        position := state.reader.position + bytes.length }
                    objects := stored items
                    count := items.length })) ∧
      ∀ (memory : Allocator) (read : Routine BinaryReader (Option Item))
        (limit : Nat) (reason : Halt) (state after : ArrayCall Item),
        arrayDeserialize memory read limit state = (.error reason, after) →
          after.objects = none ∧ after.count = 0 := by
  constructor
  · have emits := arraySerialize_emits codecs few
    have room := serves.mono (le_max_right _ _)
    have small : (arrayBytes bytesOf items).length ≤ ptrdiffMax := by
      have bounded := room.bound_le
      omega
    rcases emits.succeeds writer wellFormed grows room with ⟨written, ran⟩
    refine
      ⟨written, arrayBytes bytesOf items, ran,
        (emits.appends writer written wellFormed ran).2.2,
        arrayGetSize_eq codecs small, ?_⟩
    intro state suffix ready found
    exact
      arrayDeserialize_run codecs few allowed
        (serves.mono (le_max_left _ _)) ready found
  · intro memory read limit reason state after failed
    exact arrayDeserialize_failed failed

end Codecs

/-! ## Numbers in variable-length form -/

/-- Numbers as objects. -/
def numberMethods (value : UInt64) : Methods where
  serialize := some (BinaryWriter.writeVarInt .ample value)
  deserialize := true
  getSize := some (.ok (VarSize.numericVarSize value))
  freeObj := true

/-- Read a number as an object. -/
def readNumber : Routine BinaryReader (Option UInt64) := do
  let value ← BinaryReader.readVarInt
  pure (some value)

theorem number_codec (value : UInt64) :
    Codec numberMethods .ample readNumber value
      (VarInt.encode value.toNat) where
  validates := rfl
  serializes := ⟨_, rfl, BinaryWriter.writeVarInt_emits value⟩
  measures := by rw [numberMethods, VarSize.numericVarSize_eq]
  deserializes := (reads_readVarInt value).map some

/-- A reader without a marker at a position of some bytes. -/
def readerAt (data : List UInt8) (position : Nat) : BinaryReader where
  data := data
  position := position
  marker := sizeMax

/-- Two numbers of different width go through an array. -/
theorem array_roundTrip_numbers :
    ∃ writer written bytes,
      BinaryWriter.create .ample 0 true = .ok writer ∧
      arraySerialize numberMethods .ample (.items [some 1, some 300])
          writer =
        (.ok (), written) ∧
      written.contents = bytes ∧
      arrayGetSize numberMethods (.items [some 1, some 300]) =
        .ok bytes.length ∧
      arrayDeserialize .ample readNumber 2
          { reader := readerAt (bytes ++ [7]) 0
            objects := none
            count := 5 } =
        (.ok (),
          { reader := readerAt (bytes ++ [7]) bytes.length
            objects := some [some 1, some 300]
            count := 2 }) := by
  rcases BinaryWriter.create_succeeds true
      (Allocator.ample_serves
        (by decide : max 0 BinaryWriter.structSize ≤ ptrdiffMax)) with
    ⟨writer, created⟩
  rcases BinaryWriter.create_eq_ok created with ⟨ready, grows, blank⟩
  have start : writer.position = 0 := by
    rw [← ready.length_contents, blank]
    rfl
  have trip :=
    @array_roundTrip UInt64 numberMethods .ample readNumber
      (fun value => VarInt.encode value.toNat) [1, 300]
      (fun item _ => number_codec item) (by decide) 2 (.inr (by decide))
      writer ready grows
      (Allocator.ample_serves (by rw [start]; decide))
  rcases trip.1 with ⟨written, bytes, ran, contents, size, back⟩
  rw [blank, List.nil_append] at contents
  refine ⟨writer, written, bytes, created, ran, contents, size, ?_⟩
  have small : (bytes ++ [7]).length ≤ ptrdiffMax := by
    have measured :
        arrayGetSize numberMethods (.items [some 1, some 300]) = .ok 5 := by
      decide
    rw [List.map_cons, List.map_cons, List.map_nil, measured] at size
    injection size with same
    rw [List.length_append, ← same]
    decide
  have read :=
    back
      { reader := readerAt (bytes ++ [7]) 0
        objects := none
        count := 5 } [7] ⟨Nat.zero_le _, small, .inl rfl⟩ rfl
  have moved :
      (readerAt (bytes ++ [7]) 0).position + bytes.length = bytes.length :=
    Nat.zero_add _
  rw [read]
  dsimp only
  rw [moved]
  rfl

end NeoC.SerializableArray
