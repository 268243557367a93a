/-
Byte streams under construction.

Bytes are appended at the end. A word that depends on what follows is reserved and patched later; a
patch has to lie within the stream.

* **`Writer`** — a step that writes; what it has written stays when it fails;
* **`Writer.align`** — pads to a multiple of a boundary;
* **`Writer.patchHere`** — fills a reserved word with the offset that the stream has reached.
-/
import Libretto.Binary.Word
import Libretto.StringTable

namespace Libretto.Binary

/-- Why a container cannot be written. -/
inductive ExportError where
  | patchOutOfRange (position : Nat) (size : Nat)
  | offsetOverflow (offset : Nat)
  | unresolvedString (id : StringId)
  deriving DecidableEq, Repr

/-- The wording of a fault in writing. -/
def ExportError.message : ExportError → String
  | patchOutOfRange position size =>
    s!"patch at {position} is outside the {size} byte stream"
  | offsetOverflow offset => s!"offset {offset} does not fit 32 bits"
  | unresolvedString id => s!"string #{id.index} is referenced but has no write id"

/-- The bytes written so far. -/
structure Stream where
  bytes : Array UInt8
  deriving DecidableEq, Inhabited

/-- The position at which the next byte is written. -/
def Stream.size (stream : Stream) : Nat :=
  stream.bytes.size

/-- A step that writes to a stream. -/
abbrev Writer := EStateM ExportError Stream

namespace Writer

/-- The position that the stream has reached. -/
def position : Writer Nat :=
  return (← get).size

/-- Appends bytes. -/
def writeBytes (bytes : List UInt8) : Writer Unit :=
  modify fun stream => ⟨stream.bytes ++ bytes⟩

/-- Appends a tag. -/
def writeTag (tag : Tag) : Writer Unit :=
  writeBytes tag.bytes

/-- Appends a word. -/
def writeWord (word : UInt32) : Writer Unit :=
  writeBytes (wordBytes word)

/-- Appends a count as a word. -/
def writeCount (count : Nat) : Writer Unit :=
  writeWord count.toUInt32

/-- Appends a word to be patched, and gives its position. -/
def reserve : Writer Nat := do
  let at_ ← position
  writeWord 0
  return at_

/-- The zero bytes that lead from a position to the next multiple of a boundary. -/
def padding (boundary position : Nat) : Nat :=
  if position % boundary = 0 then 0 else boundary - position % boundary

/-- Pads the stream with zero bytes to a multiple of a boundary. -/
def align (boundary : Nat) : Writer Unit := do
  writeBytes (List.replicate (padding boundary (← position)) 0)

/-- Overwrites bytes from a position on. -/
def overwrite (target : Array UInt8) (position : Nat) : List UInt8 → Array UInt8
  | [] => target
  | byte :: rest => overwrite (target.setIfInBounds position byte) (position + 1) rest

/-- Overwrites the word at a position; all four bytes of it are within the stream. -/
def patch (at_ : Nat) (word : UInt32) : Writer Unit := do
  let size ← position
  if at_ + 4 ≤ size then
    modify fun stream => ⟨overwrite stream.bytes at_ (wordBytes word)⟩
  else throw (.patchOutOfRange at_ size)

/-- The offset that the stream has reached, counted from `top`. -/
def offsetFrom (top : Nat) : Writer UInt32 := do
  let offset := (← position) - top
  if offset < 0x100000000 then return offset.toUInt32 else throw (.offsetOverflow offset)

/-- Fills the word at a position with the offset that the stream has reached, as a rule counts it
from `top`. -/
def patchHereBy (rule : Nat → Writer UInt32) (at_ top : Nat) : Writer Unit := do
  patch at_ (← rule top)

/-- Fills the word at a position with the offset that the stream has reached. -/
abbrev patchHere (at_ top : Nat) : Writer Unit :=
  patchHereBy offsetFrom at_ top

end Writer

end Libretto.Binary
