/-
Binary floating-point formats in exact arithmetic.

The non-negative values of a format, infinity last, are counted 0, 1, 2, … in increasing order. The
count of a value, its *rank*, is at the same time its bit pattern without the sign. Every finite
value is a whole number of units `2 ^ -shift`, so nothing here leaves the natural numbers.

* **`BinaryFormat.units`** — the value of a rank, in units;
* **`BinaryFormat.nearest`** — the rank closest to a quotient of units, a tie going to the even one;
* **`BinaryFormat.ofDecimal`**, **`ofRank`** — reading a decimal, and a value of another format.
-/

namespace Libretto.Numeral

/-- The quotient of two natural numbers rounded to the nearest one, a half to the even one. -/
def roundDiv (num den : Nat) : Nat :=
  let quotient := num / den
  let twice := 2 * (num % den)
  if twice < den then quotient
  else if den < twice then quotient + 1
  else quotient + quotient % 2

/-- A binary format: bits of the fraction, the power of two that a unit divides one by, and the rank
of infinity. -/
structure BinaryFormat where
  fractionBits : Nat
  shift : Nat
  infinity : Nat

namespace BinaryFormat

/-- Single precision: 32 bits with the sign. -/
def single : BinaryFormat := ⟨23, 149, 0x7F800000⟩

/-- Double precision: 64 bits with the sign. -/
def double : BinaryFormat := ⟨52, 1074, 0x7FF0000000000000⟩

/-- The value of a finite rank in units. The first `2 * 2 ^ fractionBits` ranks are one unit apart,
and from there on the distance doubles with every `2 ^ fractionBits` ranks. -/
def units (f : BinaryFormat) (rank : Nat) : Nat :=
  let binade := rank / Nat.pow 2 f.fractionBits
  if binade = 0 then rank
  else (Nat.pow 2 f.fractionBits + rank % Nat.pow 2 f.fractionBits) * Nat.pow 2 (binade - 1)

/-- The rank nearest to `num / den` units. The quotient is rounded on the grid of its binade; a
carry out of the binade needs no care, as the next rank is the first of the next binade. -/
def nearest (f : BinaryFormat) (num den : Nat) : Nat :=
  let step := (num / den).log2 - f.fractionBits
  min f.infinity (step * Nat.pow 2 f.fractionBits + roundDiv num (den * Nat.pow 2 step))

/-- The rank nearest to `digits * 10 ^ exponent`. -/
def ofDecimal (f : BinaryFormat) (digits : Nat) : Int → Nat
  | .ofNat e => f.nearest (digits * Nat.pow 10 e * Nat.pow 2 f.shift) 1
  | .negSucc e => f.nearest (digits * Nat.pow 2 f.shift) (Nat.pow 10 (e + 1))

/-- The rank in `f` nearest to the value of a rank of `g`. -/
def ofRank (f g : BinaryFormat) (rank : Nat) : Nat :=
  if g.infinity ≤ rank then f.infinity
  else f.nearest (g.units rank * Nat.pow 2 f.shift) (Nat.pow 2 g.shift)

/-- The product of two finite values, rounded. -/
def mul (f : BinaryFormat) (a b : Nat) : Nat :=
  f.nearest (f.units a * f.units b) (Nat.pow 2 f.shift)

/-- The quotient of two finite values, rounded; the second is not zero. -/
def div (f : BinaryFormat) (a b : Nat) : Nat :=
  f.nearest (f.units a * Nat.pow 2 f.shift) (f.units b)

end BinaryFormat

end Libretto.Numeral
