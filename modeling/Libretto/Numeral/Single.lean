/-
Single-precision numbers, the numbers of scripts.

A number is its 32 bits. Reading a decimal rounds twice, first to double and then to single
precision; writing gives the shortest text, without a point for whole numbers and with one spelling
for every NaN.

* **`Single.ofDecimal`**, **`Single.parse?`** — from what a text says, and from the text;
* **`Single.text`** — the written form.
-/
import Libretto.Numeral.Decimal
import Libretto.Numeral.Shortest

namespace Libretto.Numeral

/-- A single-precision number, given by its bits. -/
structure Single where
  bits : UInt32
  deriving DecidableEq, Repr, Inhabited

namespace Single

/-- The weight of the sign bit. -/
def signBit : Nat := 0x80000000

/-- The rank of the NaN that reading produces. -/
def quietNaN : Nat := 0x7FC00000

/-- The number with a sign and a magnitude. -/
def ofRank (negative : Bool) (rank : Nat) : Single :=
  ⟨(if negative then signBit + rank else rank).toUInt32⟩

/-- The sign of a number; zeros and NaNs have one too. -/
def negative (x : Single) : Bool :=
  signBit ≤ x.bits.toNat

/-- The magnitude of a number. -/
def rank (x : Single) : Nat :=
  x.bits.toNat % signBit

/-- The bit patterns above infinity are the NaNs. -/
def isNaN (x : Single) : Bool :=
  BinaryFormat.single.infinity < x.rank

/-- Rounds what a text says, first to double and then to single precision. -/
def ofDecimal : Decimal → Single
  | .finite negative digits exponent =>
    let double := BinaryFormat.double.ofDecimal digits exponent
    ofRank negative (BinaryFormat.single.ofRank .double double)
  | .infinite negative => ofRank negative BinaryFormat.single.infinity
  | .nan negative => ofRank negative quietNaN

/-- Reads the text of a number. -/
def parse? (text : String) : Option Single :=
  (Decimal.parse? text.toList).map ofDecimal

/-- The text of a magnitude: zero, infinity, or the shortest decimal in positional notation, the
greater one of two. -/
def magnitudeText (rank : Nat) : List Char :=
  if rank = 0 then ['0']
  else if BinaryFormat.single.infinity ≤ rank then ['i', 'n', 'f']
  else
    let (digits, grid) := BinaryFormat.single.shortest .up rank
    positional digits grid BinaryFormat.single.shift

/-- The written form of a number. -/
def text (x : Single) : String :=
  if x.isNaN then "NaN"
  else
    let magnitude := magnitudeText x.rank
    String.ofList (if x.negative then '-' :: magnitude else magnitude)

end Single

end Libretto.Numeral
