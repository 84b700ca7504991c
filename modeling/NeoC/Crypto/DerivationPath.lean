import NeoC.Crypto.Bip32
import NeoC.Foundation.Pieces
import NeoC.Runtime.Text

/-!
# Derivation paths

`neoc_bip32_parse_path` goes through a path once.  It collects characters in
a buffer, and a slash or the end of the path hands the buffer to `strtoul`.

Read that way a path is the list of its pieces between slashes: empty pieces
are passed over, and the loop ends when the output is full, so what stands
behind the last index that fits is not looked at.  Both make the function
accept more than the grammar of paths, and so does `strtoul`, which takes
blanks, signs and a text without any digit.  A component that the buffer does
not hold is refused although the grammar has it.
-/

namespace NeoC.Bip32

open Foundation JsonGrammar

/-! ## The scanner -/

/-- The character between components. -/
def slash : UInt8 := 0x2F

/-- The two markers of a hardened component. -/
def isMarker (byte : UInt8) : Bool :=
  byte == 0x27 || byte == 0x68

theorem isMarker_iff {byte : UInt8} :
    isMarker byte = true ↔ byte = 0x27 ∨ byte = 0x68 := by
  rw [isMarker, Bool.or_eq_true, beq_iff_eq, beq_iff_eq]

/-- The characters that `char buffer[32]` has room for. -/
def bufferRoom : Nat := 31

/-- The last character is a marker. -/
def hardened (buffer : List UInt8) : Bool :=
  buffer.getLast?.any isMarker

/-- The buffer once the marker is overwritten. -/
def withoutMarker (buffer : List UInt8) : List UInt8 :=
  if hardened buffer then buffer.dropLast else buffer

/-- The buffer is parsed; the function has the same lines twice. -/
def readComponent (buffer : List UInt8) : Outcome UInt32 :=
  let (index, rest) := strtoul (withoutMarker buffer)
  if rest ≠ [] ∨ index > 0x7FFFFFFF then
    .error (.error .invalidFormat "Invalid path component")
  else if hardened buffer then
    .ok (index ||| 0x80000000).toUInt32
  else
    .ok index.toUInt32

/-- The loop over the path; it leaves the buffer and the indices. -/
def pathLoop (maxIndices : Nat) :
    List UInt8 → List UInt8 → List UInt32 →
      Outcome (List UInt8 × List UInt32)
  | [], buffer, indices => .ok (buffer, indices)
  | byte :: rest, buffer, indices =>
      if indices.length < maxIndices then
        if byte = slash then
          if buffer = [] then
            pathLoop maxIndices rest [] indices
          else do
            let index ← readComponent buffer
            pathLoop maxIndices rest [] (indices ++ [index])
        else if bufferRoom ≤ buffer.length then
          .error (.error .invalidFormat "Path component too long")
        else
          pathLoop maxIndices rest (buffer ++ [byte]) indices
      else
        .ok (buffer, indices)

/-- The path behind `m` or `M` and one slash. -/
def skipRoot : List UInt8 → List UInt8
  | [] => []
  | byte :: rest =>
      if byte = 0x6D ∨ byte = 0x4D then
        if rest.head? = some slash then rest.tail else rest
      else
        byte :: rest

/-- `neoc_bip32_parse_path`, with the indices that are counted. -/
def parsePath (path : CString) (maxIndices : Nat) :
    Outcome (List UInt32) := do
  let (buffer, indices) ←
    pathLoop maxIndices (skipRoot path.characters) [] []
  if buffer = [] then
    .ok indices
  else
    let index ← readComponent buffer
    .ok (indices ++ [index])

/-- `neoc_bip32_derive_path_raw`. -/
def derivePathRaw (ssl : Primitives) (master : Bip32Key) (path : CString) :
    Outcome Bip32Key := do
  let indices ← parsePath path 32
  derivePathIndices ssl master indices

/-! ## The pieces of a path -/

/-- A piece as the scanner takes it: it has to fit into the buffer. -/
def readPiece (piece : List UInt8) : Outcome UInt32 :=
  if bufferRoom < piece.length then
    .error (.error .invalidFormat "Path component too long")
  else
    readComponent piece

/-- The pieces of a path that the scanner comes to. -/
def piecesRead (path : CString) (maxIndices : Nat) : List (List UInt8) :=
  (pieces slash (skipRoot path.characters)).take maxIndices

/-- What the function does with the buffer that the loop leaves. -/
def finish (left : List UInt8 × List UInt32) : Outcome (List UInt32) :=
  if left.1 = [] then
    .ok left.2
  else do
    let index ← readComponent left.1
    .ok (left.2 ++ [index])

theorem parsePath_eq_finish (path : CString) (maxIndices : Nat) :
    parsePath path maxIndices =
      pathLoop maxIndices (skipRoot path.characters) [] [] >>= finish :=
  rfl

/--
The loop in the middle of a path: the buffer is the front of the piece that
is read, and the indices are those of the pieces before it.
-/
theorem pathLoop_finish {maxIndices : Nat} {text buffer : List UInt8}
    {indices : List UInt32} (absent : slash ∉ buffer)
    (room : buffer.length ≤ bufferRoom)
    (counted : indices.length ≤ maxIndices)
    (full : indices.length = maxIndices → buffer = []) :
    pathLoop maxIndices text buffer indices >>= finish =
      (((pieces slash (buffer ++ text)).take
        (maxIndices - indices.length)).mapM readPiece >>= fun more =>
          .ok (indices ++ more)) := by
  induction text generalizing buffer indices with
  | nil =>
      rw [List.append_nil, pathLoop, Except.ok_bind, finish]
      by_cases empty : buffer = []
      · rw [if_pos empty, empty, pieces_nil, List.take_nil]
        exact (congrArg Except.ok (List.append_nil indices)).symm
      · have free : maxIndices - indices.length ≠ 0 := by
          intro none
          exact empty (full (by omega))
        rw [if_neg empty, pieces_of_not_mem absent empty,
          List.take_of_length_le (by simp; omega), List.mapM_cons,
          readPiece, if_neg (by omega)]
        cases readComponent buffer with
        | error reason => rfl
        | ok index => rfl
  | cons byte rest induction =>
      rw [pathLoop]
      by_cases free : indices.length < maxIndices
      · rw [if_pos free]
        by_cases cut : byte = slash
        · subst cut
          rw [if_pos rfl]
          by_cases empty : buffer = []
          · subst empty
            rw [if_pos rfl, List.nil_append, pieces_cons_self]
            exact induction absent room counted fun _ => rfl
          · have more :
                maxIndices - indices.length =
                  maxIndices - (indices.length + 1) + 1 := by
              omega
            rw [if_neg empty, pieces_append_cons absent empty, more,
              List.take_succ_cons, List.mapM_cons, readPiece,
              if_neg (by omega)]
            cases readComponent buffer with
            | error reason => rfl
            | ok index =>
                have next :=
                  @induction [] (indices ++ [index])
                    List.not_mem_nil (Nat.zero_le _) (by simp; omega)
                    fun _ => rfl
                simp only [Except.ok_bind]
                rw [next, List.length_append, List.length_singleton,
                  List.nil_append]
                cases List.mapM readPiece
                    ((pieces slash rest).take
                      (maxIndices - (indices.length + 1))) with
                | error reason => rfl
                | ok indices' =>
                    exact
                      congrArg Except.ok
                        (List.append_assoc indices [index] indices')
        · rw [if_neg cut]
          by_cases long : bufferRoom ≤ buffer.length
          · obtain ⟨tail, others, first⟩ :=
              @exists_pieces_append _ _ slash (buffer ++ [byte])
                (by simp [absent, Ne.symm cut]) (by simp) rest
            have more :
                maxIndices - indices.length =
                  maxIndices - indices.length - 1 + 1 := by
              omega
            rw [List.append_assoc, List.singleton_append] at first
            rw [if_pos long, first, more, List.take_succ_cons,
              List.mapM_cons, readPiece, if_pos (by simp; omega)]
            rfl
          · have next :=
              @induction (buffer ++ [byte]) indices
                (by simp [absent, Ne.symm cut]) (by simp; omega) counted
                (by omega)
            rw [if_neg long, next, List.append_assoc, List.singleton_append]
      · have complete : indices.length = maxIndices := by omega
        rw [if_neg free, Except.ok_bind, finish, full complete, if_pos rfl,
          complete, Nat.sub_self, List.take_zero]
        exact (congrArg Except.ok (List.append_nil indices)).symm

/-- A path is read piece by piece. -/
theorem parsePath_eq (path : CString) (maxIndices : Nat) :
    parsePath path maxIndices =
      (piecesRead path maxIndices).mapM readPiece := by
  rw [parsePath_eq_finish,
    pathLoop_finish List.not_mem_nil (Nat.zero_le _) (Nat.zero_le _)
      fun _ => rfl,
    List.nil_append, List.length_nil, Nat.sub_zero, ← piecesRead]
  cases (piecesRead path maxIndices).mapM readPiece with
  | error reason => rfl
  | ok indices => rfl

/-- The scanner refuses a piece. -/
def Refused (piece : List UInt8) : Prop :=
  bufferRoom < piece.length ∨
    (strtoul (withoutMarker piece)).2 ≠ [] ∨
      0x7FFFFFFF < (strtoul (withoutMarker piece)).1

instance (piece : List UInt8) : Decidable (Refused piece) :=
  inferInstanceAs (Decidable (_ ∨ _ ∨ _))

theorem readPiece_eq_ok_iff {piece : List UInt8} :
    (∃ index, readPiece piece = .ok index) ↔ ¬Refused piece := by
  rw [readPiece, Refused, not_or]
  by_cases long : bufferRoom < piece.length
  · rw [if_pos long]
    constructor
    · rintro ⟨index, read⟩
      cases read
    · rintro ⟨short, -⟩
      exact absurd long short
  · rw [if_neg long, readComponent]
    dsimp only
    by_cases refused :
        (strtoul (withoutMarker piece)).2 ≠ [] ∨
          0x7FFFFFFF < (strtoul (withoutMarker piece)).1
    · rw [if_pos refused]
      constructor
      · rintro ⟨index, read⟩
        cases read
      · rintro ⟨-, taken⟩
        exact absurd refused taken
    · rw [if_neg refused]
      refine iff_of_true ?_ ⟨long, refused⟩
      split
      · exact ⟨_, rfl⟩
      · exact ⟨_, rfl⟩

/-- The function succeeds unless it comes to a piece that it refuses. -/
theorem parsePath_succeeds_iff {path : CString} {maxIndices : Nat} :
    (∃ indices, parsePath path maxIndices = .ok indices) ↔
      ∀ piece ∈ piecesRead path maxIndices, ¬Refused piece := by
  rw [parsePath_eq]
  simp only [← readPiece_eq_ok_iff]
  exact Except.mapM_succeeds_iff

/-! ## The grammar -/

/-- A component: a decimal number below `2 ^ 31` and perhaps a marker. -/
structure PathComponent where
  numeral : List UInt8
  marker : Option UInt8
  isNumeral : IsNumeral numeral
  small : decimalValue numeral < 2 ^ 31
  isMarker : ∀ byte ∈ marker, isMarker byte = true

namespace PathComponent

/-- How the component is written. -/
def text (component : PathComponent) : List UInt8 :=
  component.numeral ++ component.marker.toList

/-- The number, with bit 31 set for a marked component. -/
def index (component : PathComponent) : UInt32 :=
  UInt32.ofNat
    (decimalValue component.numeral +
      if component.marker.isSome then 2 ^ 31 else 0)

variable (component : PathComponent)

theorem toNat_index :
    component.index.toNat =
      decimalValue component.numeral +
        if component.marker.isSome then 2 ^ 31 else 0 := by
  have small := component.small
  rw [index, UInt32.toNat_ofNat', Nat.mod_eq_of_lt]
  split
  · omega
  · omega

theorem ne_nil_text : component.text ≠ [] :=
  List.append_ne_nil_of_left_ne_nil component.isNumeral.1 _

theorem exists_text_eq_cons :
    ∃ first rest, component.text = first :: rest ∧ isDigit first = true := by
  obtain ⟨first, rest, same⟩ :=
    List.exists_cons_of_ne_nil component.isNumeral.1
  refine ⟨first, rest ++ component.marker.toList, ?_, ?_⟩
  · rw [text, same, List.cons_append]
  · apply component.isNumeral.2
    rw [same]
    exact List.mem_cons_self

theorem slash_not_mem_text : slash ∉ component.text := by
  rw [text, List.mem_append, not_or, Option.mem_toList]
  constructor
  · intro member
    exact absurd (component.isNumeral.2 slash member) (by decide)
  · intro member
    exact absurd (component.isMarker slash member) (by decide)

theorem hardened_text : hardened component.text = component.marker.isSome := by
  rw [hardened, text]
  cases marked : component.marker with
  | none =>
      rw [Option.toList_none, List.append_nil,
        List.getLast?_eq_some_getLast component.isNumeral.1, Option.any_some]
      have digit :=
        component.isNumeral.2 _ (List.getLast_mem component.isNumeral.1)
      by_contra mark
      rw [Option.isSome_none, Bool.not_eq_false] at mark
      rcases isMarker_iff.mp mark with same | same
      · rw [same] at digit
        exact absurd digit (by decide)
      · rw [same] at digit
        exact absurd digit (by decide)
  | some mark =>
      rw [Option.toList_some, List.getLast?_concat, Option.any_some,
        component.isMarker mark marked]
      rfl

theorem withoutMarker_text :
    withoutMarker component.text = component.numeral := by
  rw [withoutMarker, hardened_text, text]
  cases component.marker with
  | none => exact List.append_nil _
  | some mark => exact List.dropLast_concat

/-- A component is read as its index. -/
theorem readComponent_text :
    readComponent component.text = .ok component.index := by
  have small := component.small
  have read : strtoul component.numeral = _ :=
    strtoul_of_lt component.isNumeral (by omega)
  have value :
      (UInt64.ofNat (decimalValue component.numeral)).toNat =
        decimalValue component.numeral := by
    rw [UInt64.toNat_ofNat', Nat.mod_eq_of_lt (by omega)]
  have bounded :
      ¬UInt64.ofNat (decimalValue component.numeral) > 0x7FFFFFFF := by
    rw [gt_iff_lt, UInt64.lt_iff_toNat_lt, value]
    exact Nat.not_lt.mpr (Nat.le_of_lt_succ small)
  rw [readComponent, withoutMarker_text, read, hardened_text]
  dsimp only
  rw [if_neg (not_or.mpr ⟨not_not.mpr rfl, bounded⟩)]
  split
  · rename_i marked
    refine congrArg Except.ok (UInt32.toNat_inj.mp ?_)
    rw [toNat_index, if_pos marked, UInt64.toNat_toUInt32, UInt64.toNat_or,
      value]
    have joined := Nat.two_pow_add_eq_or_of_lt small 1
    rw [Nat.mul_one] at joined
    rw [Nat.or_comm]
    exact (congrArg (· % 2 ^ 32) joined.symm).trans
      ((Nat.mod_eq_of_lt (by omega)).trans (Nat.add_comm _ _))
  · rename_i unmarked
    refine congrArg Except.ok (UInt32.toNat_inj.mp ?_)
    rw [toNat_index, if_neg unmarked, UInt64.toNat_toUInt32, value,
      Nat.add_zero, Nat.mod_eq_of_lt (by omega)]

end PathComponent

open PathComponent

/--
A derivation path: perhaps `m` or `M`, then the components, with one slash
between any two of these.
-/
def IsPath (path : CString) (components : List PathComponent) : Prop :=
  ∃ root ∈ [[], [ascii "m"], [ascii "M"]],
    path.characters = [slash].intercalate (root ++ components.map text)

/--
The function accepts exactly the paths of the grammar with at most so many
components, and gives the index of every component, in order.
-/
structure ReadsGrammar (path : CString) (maxIndices : Nat) : Prop where
  accepts_iff :
    (∃ indices, parsePath path maxIndices = .ok indices) ↔
      ∃ components, IsPath path components ∧ components.length ≤ maxIndices
  indices_eq :
    ∀ components indices,
      IsPath path components →
        parsePath path maxIndices = .ok indices →
          indices = components.map index ∧
            indices.length = components.length

theorem skipRoot_intercalate (components : List PathComponent) :
    skipRoot ([slash].intercalate (components.map text)) =
      [slash].intercalate (components.map text) := by
  cases components with
  | nil => rfl
  | cons component rest =>
      obtain ⟨first, behind, same, digit⟩ := component.exists_text_eq_cons
      obtain ⟨tail, cons⟩ :
          ∃ tail, [slash].intercalate ((component :: rest).map text) =
            first :: tail := by
        rw [List.map_cons, same]
        cases rest with
        | nil =>
            exact ⟨behind, List.intercalate_singleton⟩
        | cons next others =>
            rw [List.map_cons, List.intercalate_cons_cons]
            exact ⟨_, rfl⟩
      rw [cons, skipRoot, if_neg]
      rintro (rfl | rfl)
      · exact absurd digit (by decide)
      · exact absurd digit (by decide)

theorem skipRoot_root {mark : UInt8} (root : mark = 0x6D ∨ mark = 0x4D)
    (parts : List (List UInt8)) :
    skipRoot ([slash].intercalate ([mark] :: parts)) =
      [slash].intercalate parts := by
  cases parts with
  | nil =>
      rw [List.intercalate_singleton, skipRoot, if_pos root]
      rfl
  | cons part rest =>
      rw [List.intercalate_cons_cons, List.append_assoc,
        List.singleton_append, List.singleton_append, skipRoot,
        if_pos root]
      rfl

/-- The pieces of a path of the grammar are its components. -/
theorem IsPath.pieces_eq {path : CString} {components : List PathComponent}
    (isPath : IsPath path components) :
    pieces slash (skipRoot path.characters) = components.map text := by
  obtain ⟨root, member, written⟩ := isPath
  have skipped :
      skipRoot path.characters = [slash].intercalate (components.map text) := by
    rw [written]
    simp only [List.mem_cons, List.not_mem_nil, or_false] at member
    rcases member with rfl | rfl | rfl
    · exact skipRoot_intercalate components
    · exact skipRoot_root (.inl rfl) (components.map text)
    · exact skipRoot_root (.inr rfl) (components.map text)
  rw [skipped]
  apply pieces_intercalate
  intro part member
  obtain ⟨component, -, rfl⟩ := List.mem_map.mp member
  exact ⟨component.ne_nil_text, component.slash_not_mem_text⟩

/-- The path is one of the grammar with at most so many components. -/
def IsShortPath (path : CString) (maxIndices : Nat) : Prop :=
  ∃ components, IsPath path components ∧ components.length ≤ maxIndices

section ReadPaths

variable {path : CString} {components : List PathComponent}
  {maxIndices : Nat}

theorem IsPath.piecesRead_eq (isPath : IsPath path components)
    (fits : components.length ≤ maxIndices) :
    piecesRead path maxIndices = components.map text := by
  rw [piecesRead, isPath.pieces_eq, List.take_of_length_le (by simpa)]

theorem readPiece_text {component : PathComponent}
    (short : component.text.length ≤ bufferRoom) :
    readPiece component.text = .ok component.index := by
  rw [readPiece, if_neg (by omega), component.readComponent_text]

/-- A component of the grammar is refused only for its length. -/
theorem refused_text_iff {component : PathComponent} :
    Refused component.text ↔ bufferRoom < component.text.length := by
  constructor
  · intro refused
    by_contra short
    have fits : component.text.length ≤ bufferRoom := Nat.not_lt.mp short
    exact readPiece_eq_ok_iff.mp ⟨_, readPiece_text fits⟩ refused
  · exact .inl

/-- A path of the grammar whose components fit is read as its indices. -/
theorem IsPath.parsePath_eq_ok (isPath : IsPath path components)
    (fits : components.length ≤ maxIndices)
    (short :
      ∀ component ∈ components, component.text.length ≤ bufferRoom) :
    parsePath path maxIndices = .ok (components.map index) := by
  rw [parsePath_eq, isPath.piecesRead_eq fits, List.mapM_map]
  exact Except.mapM_eq_ok fun component member =>
    readPiece_text (short component member)

theorem IsPath.parsePath_succeeds_iff (isPath : IsPath path components)
    (fits : components.length ≤ maxIndices) :
    (∃ indices, parsePath path maxIndices = .ok indices) ↔
      ∀ component ∈ components, component.text.length ≤ bufferRoom := by
  rw [Bip32.parsePath_succeeds_iff, isPath.piecesRead_eq fits,
    List.forall_mem_map]
  simp only [refused_text_iff, Nat.not_lt]

end ReadPaths

/--
The function reads a path as the grammar does in two cases.  The path is one
of the grammar, and every piece fits into the buffer.  Or it is none with at
most so many components, and a piece that the scanner comes to is refused.
-/
theorem readsGrammar_iff (path : CString) (maxIndices : Nat) :
    ReadsGrammar path maxIndices ↔
      (IsShortPath path maxIndices ∧
          ∀ piece ∈ piecesRead path maxIndices,
            piece.length ≤ bufferRoom) ∨
        (¬IsShortPath path maxIndices ∧
          ∃ piece ∈ piecesRead path maxIndices, Refused piece) := by
  by_cases isShort : IsShortPath path maxIndices
  · obtain ⟨components, isPath, fits⟩ := isShort
    have succeeds := isPath.parsePath_succeeds_iff fits
    rw [or_iff_left (fun refused => refused.1 ⟨components, isPath, fits⟩),
      isPath.piecesRead_eq fits, List.forall_mem_map, ← succeeds]
    constructor
    · intro reads
      have accepted := reads.accepts_iff.mpr ⟨components, isPath, fits⟩
      exact ⟨⟨components, isPath, fits⟩, accepted⟩
    · rintro ⟨-, accepted⟩
      refine
        ⟨iff_of_true accepted ⟨components, isPath, fits⟩, ?_⟩
      intro others indices isPath' read
      have same : components.map text = others.map text :=
        isPath.pieces_eq.symm.trans isPath'.pieces_eq
      have counted : others.length = components.length := by
        simpa using (congrArg List.length same).symm
      have short :=
        (isPath'.parsePath_succeeds_iff (by omega)).mp accepted
      rw [isPath'.parsePath_eq_ok (by omega) short] at read
      injection read with read
      rw [← read]
      exact ⟨rfl, List.length_map _⟩
  · rw [or_iff_right fun shortPath => isShort shortPath.1]
    constructor
    · intro reads
      refine ⟨isShort, ?_⟩
      by_contra none
      push Not at none
      exact isShort (reads.accepts_iff.mp (parsePath_succeeds_iff.mpr none))
    · rintro ⟨-, piece, member, refused⟩
      have fails :
          ¬∃ indices, parsePath path maxIndices = .ok indices := by
        intro accepted
        exact parsePath_succeeds_iff.mp accepted piece member refused
      refine ⟨iff_of_false fails isShort, ?_⟩
      intro components indices isPath read
      exact absurd ⟨indices, read⟩ fails

/-- Blanks, signs and a component without digits are taken. -/
example :
    parsePath (CString.ofString "m/ +7//-18446744073709551615/h/") 32 =
      .ok [7, 1, 0x80000000] := by
  decide

/-- A path of two components. -/
def twoSteps : CString := CString.ofString "m/1/2"

/-- The second component is dropped, and the function succeeds. -/
theorem twoSteps_shortened :
    parsePath twoSteps 1 = .ok [1] ∧ ¬ReadsGrammar twoSteps 1 := by
  have read : parsePath twoSteps 1 = .ok [1] := by
    decide
  refine ⟨read, ?_⟩
  intro reads
  obtain ⟨components, isPath, fits⟩ := reads.accepts_iff.mp ⟨_, read⟩
  have counted := congrArg List.length isPath.pieces_eq
  rw [List.length_map] at counted
  have two :
      (pieces slash (skipRoot twoSteps.characters)).length = 2 := by
    decide
  omega

end NeoC.Bip32
