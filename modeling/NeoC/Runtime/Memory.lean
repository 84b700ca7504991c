import NeoC.Foundation.Call
import Mathlib.Data.List.TakeWhile

/-!
# The C runtime under the library

The library runs on a 64-bit little-endian host: `size_t` wraps at `2 ^ 64`
and no object is larger than `PTRDIFF_MAX` bytes.  A function that does not
deliver its result returns an error code, or touches memory it does not own,
or computes a signed value out of range, or loops for ever; `Halt` keeps these
apart.

Memory comes from an allocator that may refuse any request.  One call of the
library sees one allocator, and different calls may see different ones, so a
refusal can happen at every step of a run.
-/

namespace NeoC

open Foundation

/-! ## How a function halts -/

/-- The error codes of `neoc_error_t`, one constructor for each value. -/
inductive ErrorCode where
  | nullPointer
  | invalidArgument
  | outOfMemory
  | bufferTooSmall
  | invalidState
  | notImplemented
  | invalidLength
  | endOfStream
  | bufferOverflow
  | invalidFormat
  | invalidHex
  | invalidBase58
  | invalidBase64
  | deserialize
  | serialize
  | outOfBounds
  | notFound
  | invalidSize
  | invalidPassword
  | crypto
  | cryptoInit
  | cryptoInvalidKey
  | cryptoSign
  | cryptoVerify
  | cryptoHash
  | cryptoRandom
  | network
  | protocol
  | rpc
  | http
  | txInvalid
  | txSize
  | txScript
  | txWitness
  | contractInvalid
  | contractInvoke
  | contractManifest
  | walletInvalid
  | walletLocked
  | walletDecrypt
  | walletAccount
  | system
  | inputOutput
  | timeout
  | cancelled
  | file
  | fileNotFound
  | internal
  | notSupported
deriving DecidableEq, Repr

/-- Why a function did not deliver its result. -/
inductive Halt where
  /-- An error code with the text given to `neoc_error_set`, if any. -/
  | error (code : ErrorCode) (text : String)
  /-- An access outside the object it is made through. -/
  | illegalAccess
  /-- A signed operation whose result its type cannot hold. -/
  | signedOverflow
  /-- A loop whose condition stays true for ever. -/
  | divergence
deriving DecidableEq, Repr

/-- The result of a function that changes nothing it was given. -/
abbrev Outcome (α : Type) := Except Halt α

/-- A function that works on an object of type `σ`. -/
abbrev Routine (σ α : Type) := Call Halt σ α

/-- A call whose error code is not looked at: what was there stays. -/
def unchecked {α : Type} (before : α) : Outcome α → Outcome α
  | .error (.error _ _) => .ok before
  | outcome => outcome

theorem unchecked_ok {α : Type} (before after : α) :
    unchecked before (.ok after) = .ok after :=
  rfl

/-- `return neoc_error_set(code, text);` in a function on an object. -/
abbrev errorSet {σ α : Type} (code : ErrorCode) (text : String) :
    Routine σ α :=
  Call.halt (.error code text)

/-! ## Sizes and allocation -/

/-- The number of values of `size_t`. -/
def sizeModulus : Nat := 0x10000000000000000

/-- `SIZE_MAX`. -/
def sizeMax : Nat := 0xFFFFFFFFFFFFFFFF

/-- `PTRDIFF_MAX`, the largest size of an object. -/
def ptrdiffMax : Nat := 0x7FFFFFFFFFFFFFFF

theorem lt_sizeModulus {length : Nat} (bounded : length ≤ ptrdiffMax) :
    length < sizeModulus := by
  simp only [ptrdiffMax] at bounded
  simp only [sizeModulus]
  omega

/-- A `size_t` survives the way through a `uint64_t`. -/
theorem toNat_ofNat_size {count : Nat} (small : count < sizeModulus) :
    (UInt64.ofNat count).toNat = count := by
  rw [UInt64.toNat_ofNat']
  exact Nat.mod_eq_of_lt small

/-- Addition of two `size_t` values. -/
def sizeAdd (left right : Nat) : Nat :=
  (left + right) % sizeModulus

theorem sizeAdd_of_lt {left right : Nat}
    (small : left + right < sizeModulus) :
    sizeAdd left right = left + right :=
  Nat.mod_eq_of_lt small

/--
The answers `malloc`, `calloc` and `realloc` give during one call.  A request
above `PTRDIFF_MAX` is never granted.
-/
structure Allocator where
  grants : Nat → Bool
  grants_le : ∀ size, grants size = true → size ≤ ptrdiffMax

/-- Every request of at most `bound` bytes is granted. -/
def Allocator.Serves (alloc : Allocator) (bound : Nat) : Prop :=
  ∀ size ≤ bound, alloc.grants size = true

theorem Allocator.Serves.bound_le {alloc : Allocator} {bound : Nat}
    (serves : alloc.Serves bound) :
    bound ≤ ptrdiffMax :=
  alloc.grants_le bound (serves bound le_rfl)

theorem Allocator.Serves.mono {alloc : Allocator} {small large : Nat}
    (serves : alloc.Serves large) (ordered : small ≤ large) :
    alloc.Serves small :=
  fun size bounded => serves size (bounded.trans ordered)

/-- The allocator of a host with memory to spare. -/
def Allocator.ample : Allocator where
  grants size := decide (size ≤ ptrdiffMax)
  grants_le _ granted := of_decide_eq_true granted

theorem Allocator.ample_serves {bound : Nat} (bounded : bound ≤ ptrdiffMax) :
    Allocator.ample.Serves bound :=
  fun _ small => decide_eq_true (small.trans bounded)

/-- `neoc_malloc` and `neoc_calloc` refuse requests for no bytes at all. -/
def Allocator.neocGrants (alloc : Allocator) (size : Nat) : Bool :=
  decide (size ≠ 0) && alloc.grants size

theorem Allocator.Serves.neocGrants {alloc : Allocator} {bound size : Nat}
    (serves : alloc.Serves bound) (positive : 0 < size)
    (bounded : size ≤ bound) :
    alloc.neocGrants size = true := by
  simp [Allocator.neocGrants, serves size bounded, Nat.ne_of_gt positive]

/-! ## Arrays and strings -/

/--
A pointer with the element count stored beside it.  The pointer is `NULL`, or
it points to as many elements as the count says.
-/
inductive Slice (α : Type) where
  | null (count : Nat)
  | items (content : List α)
deriving DecidableEq, Repr

namespace Slice

variable {α : Type}

/-- The stored count. -/
def len : Slice α → Nat
  | .null count => count
  | .items content => content.length

/-- The elements that can be read through the pointer. -/
def content : Slice α → List α
  | .null _ => []
  | .items content => content

/-- A slice without a pointer claims no elements. -/
def Backed : Slice α → Prop
  | .null count => count = 0
  | .items _ => True

instance (slice : Slice α) : Decidable slice.Backed :=
  match slice with
  | .null count => inferInstanceAs (Decidable (count = 0))
  | .items _ => inferInstanceAs (Decidable True)

theorem Backed.length_content {slice : Slice α} (backed : slice.Backed) :
    slice.content.length = slice.len := by
  cases slice with
  | null count => exact backed.symm
  | items content => rfl

end Slice

/-- A byte pointer with its length. -/
abbrev Buffer := Slice UInt8

/-- A byte array member of fixed size. -/
abbrev Bytes (size : Nat) := { content : List UInt8 // content.length = size }

/-- A NUL-terminated string: its characters contain no NUL. -/
structure CString where
  characters : List UInt8
  nul_free : (0 : UInt8) ∉ characters
deriving DecidableEq

/-- `strlen`. -/
def CString.strlen (text : CString) : Nat :=
  text.characters.length

/-- The string that starts a buffer which ends with a NUL. -/
def CString.ofBuffer (content : List UInt8) : CString where
  characters := content.takeWhile (· ≠ 0)
  nul_free := by
    intro member
    simpa using List.mem_takeWhile_imp member

/-- A buffer without a NUL is a string as a whole. -/
theorem CString.characters_ofBuffer {content : List UInt8}
    (free : 0 ∉ content) : (CString.ofBuffer content).characters = content := by
  apply List.takeWhile_eq_self_iff.mpr
  intro character member
  apply decide_eq_true
  rintro rfl
  exact free member

theorem CString.ofBuffer_characters (text : CString) :
    CString.ofBuffer text.characters = text := by
  cases text with
  | mk characters nul_free =>
      rw [CString.mk.injEq]
      exact CString.characters_ofBuffer nul_free

/-- The bytes of a string literal of the source; all of them are ASCII. -/
def ascii (text : String) : List UInt8 :=
  text.toList.map fun character => UInt8.ofNat character.toNat

/-- Spelled out character by character, a text is cheap to compute with. -/
theorem ascii_ofList (characters : List Char) :
    ascii (String.ofList characters) =
      characters.map fun character => UInt8.ofNat character.toNat := by
  rw [ascii, String.toList_ofList]

/-- What is checked character by character holds of a text. -/
theorem forall_mem_ascii {p : UInt8 → Prop} [DecidablePred p] {text : String}
    (all : (ascii text).all (fun byte => decide (p byte)) = true) :
    ∀ byte ∈ ascii text, p byte :=
  fun byte member => of_decide_eq_true (List.all_eq_true.mp all byte member)

/-- A string literal of the source. -/
def CString.ofString (text : String) : CString :=
  CString.ofBuffer (ascii text)

/-- `strdup` of the C library; `none` is the `NULL` it returns. -/
def Allocator.strdup (alloc : Allocator) (text : CString) : Option CString :=
  if alloc.grants (text.strlen + 1) then some text else none

end NeoC
