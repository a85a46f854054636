import Mathlib.Algebra.Order.Ring.Int
import Mathlib.Data.List.Basic

namespace Hyperspace

/-!
# Keys, their hexadecimal text, and machine words

Feed keys, discovery keys and the master key are arrays of 32 bytes.  Both the
store's directory names and the client's session names are the text that
`hex::encode` makes of such a key.  That function belongs to another crate, and
is a parameter of which only the injectivity is used.

Lengths and indices of blocks are of type `u64`; they are modelled by natural
numbers, and where the source computes a sum or a predecessor that may leave the
range, or adds a signed offset, by the operations here.
-/

/-- Addition of `u64`s; overflow panics when it is checked, and else wraps. -/
def addU64 (overflowChecks : Bool) (first second : Nat) : Option Nat :=
  if first + second < 2 ^ 64 then
    some (first + second)
  else if overflowChecks then
    none
  else
    some ((first + second) % 2 ^ 64)

/-- The predecessor of a `u64`. -/
def predU64 (overflowChecks : Bool) : Nat → Option Nat
  | number + 1 => some number
  | 0 => if overflowChecks then none else some (2 ^ 64 - 1)

/-- The `i64` with the same lowest 64 bits. -/
def wrapI64 (number : Int) : Int :=
  (number + 2 ^ 63) % 2 ^ 64 - 2 ^ 63

/-- The cast of a `u64` to `i64`. -/
def toI64 (number : Nat) : Int :=
  wrapI64 number

/-- The cast of an `i64` to `u64`. -/
def ofI64 (number : Int) : Nat :=
  (number % 2 ^ 64).toNat

/-- Addition of `i64`s; overflow panics when it is checked, and else wraps. -/
def addI64 (overflowChecks : Bool) (first second : Int) : Option Int :=
  if -2 ^ 63 ≤ first + second ∧ first + second < 2 ^ 63 then
    some (first + second)
  else if overflowChecks then
    none
  else
    some (wrapI64 (first + second))

/-- A byte vector of the source. -/
abbrev Bytes := List UInt8

/-- Exactly 32 bytes. -/
structure Key where
  bytes : Bytes
  length_eq : bytes.length = 32
  deriving Repr, DecidableEq

namespace Key

/-- Keys with the same bytes are equal. -/
@[ext] theorem ext
    {first second : Key}
    (same : first.bytes = second.bytes) :
    first = second := by
  cases first
  cases second
  simpa using same

/-- The conversion `try_into` from a byte vector to an array of 32 bytes. -/
def ofBytes? (bytes : Bytes) : Option Key :=
  if fits : bytes.length = 32 then
    some ⟨bytes, fits⟩
  else
    none

/-- The bytes of a key convert back to that key. -/
@[simp] theorem ofBytes?_bytes (key : Key) :
    ofBytes? key.bytes = some key := by
  simp [ofBytes?, key.length_eq]

/-- A key all of whose bytes are the same, for concrete runs. -/
def constant (byte : UInt8) : Key where
  bytes := List.replicate 32 byte
  length_eq := by simp

end Key

/--
The crate `hex`, as far as it is used here: the function `hex::encode`, which
gives distinct byte vectors distinct texts.
-/
class Hex where
  encode : Bytes → String
  encode_injective : Function.Injective encode

namespace Hex

/-! ## Lower-case digits, for concrete runs -/

/-- The lower-case digit of a number below 16. -/
def digit (value : Nat) : Char :=
  if value < 10 then
    Char.ofNat (48 + value)
  else
    Char.ofNat (87 + value)

/-- The two digits of one byte, the high half first. -/
def digits (byte : UInt8) : List Char :=
  [digit (byte.toNat / 16), digit (byte.toNat % 16)]

private theorem digit_injOn :
    ∀ first < 16, ∀ second < 16,
      digit first = digit second → first = second := by
  decide

private theorem digits_injective
    {first second : UInt8}
    (same : digits first = digits second) :
    first = second := by
  have firstBound := first.toNat_lt
  have secondBound := second.toNat_lt
  simp only [digits, List.cons.injEq, and_true] at same
  have high :=
    digit_injOn _ (by omega) _ (by omega) same.1
  have low :=
    digit_injOn _ (by omega) _ (by omega) same.2
  apply UInt8.toNat_inj.mp
  omega

private theorem flatMap_digits_injective
    {first second : Bytes}
    (same : first.flatMap digits = second.flatMap digits) :
    first = second := by
  induction first generalizing second with
  | nil =>
      cases second with
      | nil =>
          rfl
      | cons head rest =>
          simp [digits] at same
  | cons head rest inductionHypothesis =>
      cases second with
      | nil =>
          simp [digits] at same
      | cons otherHead otherRest =>
          simp only [List.flatMap_cons] at same
          obtain ⟨heads, rests⟩ := List.append_inj same rfl
          rw [digits_injective heads, inductionHypothesis rests]

/-- Two lower-case digits for each byte. -/
@[reducible] def lowerCase : Hex where
  encode bytes := String.ofList (bytes.flatMap digits)
  encode_injective _ _ same :=
    flatMap_digits_injective (String.ofList_injective same)

end Hex

/-! ## Keys for examples -/

/-- The secret key, the public key and the discovery key of a name. -/
structure SampleName where
  name : Bytes
  secretKey : Key
  publicKey : Key
  discoveryKey : Key

/-- The name `foo`, with the keys that the master key of sevens gives it. -/
def sampleFoo : SampleName where
  name := [102, 111, 111]
  secretKey :=
    ⟨[85, 136, 57, 208, 177, 138, 81, 168, 150, 214, 249, 225, 32, 125, 71,
      146, 62, 155, 166, 52, 177, 201, 32, 61, 3, 91, 96, 92, 102, 145, 255,
      219], rfl⟩
  publicKey :=
    ⟨[98, 187, 161, 159, 158, 103, 5, 73, 122, 152, 62, 4, 210, 206, 11, 198,
      91, 85, 182, 209, 44, 230, 237, 159, 163, 130, 9, 240, 103, 175, 183,
      242], rfl⟩
  discoveryKey :=
    ⟨[54, 99, 94, 123, 115, 215, 40, 6, 245, 251, 117, 115, 242, 113, 36, 194,
      9, 116, 33, 145, 191, 178, 217, 214, 1, 233, 198, 40, 59, 152, 185,
      225], rfl⟩

/-- The empty name, with the keys that the master key of sevens gives it. -/
def sampleEmpty : SampleName where
  name := []
  secretKey :=
    ⟨[123, 110, 249, 143, 159, 166, 209, 173, 190, 4, 194, 61, 101, 237, 104,
      25, 84, 20, 106, 236, 244, 129, 33, 230, 127, 97, 217, 121, 220, 75,
      232, 184], rfl⟩
  publicKey :=
    ⟨[121, 179, 162, 93, 246, 147, 26, 196, 21, 226, 197, 67, 5, 142, 166,
      210, 175, 4, 112, 30, 199, 200, 119, 22, 87, 168, 50, 217, 226, 72, 43,
      172], rfl⟩
  discoveryKey :=
    ⟨[78, 17, 29, 250, 43, 40, 167, 49, 111, 135, 173, 222, 220, 174, 89, 96,
      161, 226, 115, 83, 187, 48, 208, 121, 213, 239, 73, 5, 156, 131, 47,
      156], rfl⟩

/-- The master key of the example. -/
def sampleMaster : Key := Key.constant 7

/-- The discovery keys of the examples; other keys do not occur in them. -/
def sampleDiscoveryKey (key : Key) : Key :=
  if key = sampleFoo.publicKey then sampleFoo.discoveryKey
  else if key = sampleEmpty.publicKey then sampleEmpty.discoveryKey
  else key

end Hyperspace
