/-
The shortest decimal text of a binary value.

Of all decimals that round to a value, the one with the fewest digits is written; of several with as
few digits the one nearest to the value. Which one of two equally near ones is written, and in which
notation, is up to the format.

Scaled by `10 ^ shift`, a value, the two midpoints to its neighbours and the decimal grids are all
natural numbers. The grids are tried from the coarsest to the finest, and only the two grid points
around the value can be nearest to it. The finest grid holds the value itself, so the search needs
no other bound.

* **`shortest`** — the digits of that decimal and the grid on which it lies;
* **`positional`**, **`scientific`** — the two notations of a decimal.
-/
import Libretto.Numeral.Binary

namespace Libretto.Numeral

/-- Which one of two equally near decimals is written: the greater one, or the one whose last digit
is even. -/
inductive Tie where
  | up
  | even
  deriving DecidableEq, Repr

/-- Whether a value in the middle between two multiples goes to the upper one. -/
def Tie.goesUp (tie : Tie) (below : Nat) : Bool :=
  match tie with
  | up => true
  | even => below % 2 = 1

/-- The doubled values that bound the decimals rounding to one value, and whether the bounds
themselves round to it. -/
structure Interval where
  low : Nat
  middle : Nat
  high : Nat
  closed : Bool

namespace Interval

/-- A doubled decimal rounds to the value of the interval. -/
def contains (i : Interval) (doubled : Nat) : Bool :=
  if i.closed then i.low ≤ doubled && doubled ≤ i.high
  else i.low < doubled && doubled < i.high

/-- The multiple of `step` that lies in the interval and is nearest to its middle, as a count of
steps. -/
def nearestMultiple? (tie : Tie) (i : Interval) (step : Nat) : Option Nat :=
  let below := i.middle / (2 * step)
  let behind := i.middle % (2 * step)
  let down := i.contains (2 * step * below)
  let up := i.contains (2 * step * (below + 1))
  let nearerUp := step < behind || (step = behind && tie.goesUp below)
  if up && (!down || nearerUp) then some (below + 1)
  else if down then some below
  else none

/-- The coarsest grid, from `10 ^ finest` down, with a point in the interval, and that point. -/
def coarsest (tie : Tie) (i : Interval) : Nat → Nat × Nat
  | 0 => (i.middle / 2, 0)
  | finest + 1 =>
    match i.nearestMultiple? tie (Nat.pow 10 (finest + 1)) with
    | some digits => (digits, finest + 1)
    | none => i.coarsest tie finest

end Interval

/-- The interval around a finite rank above zero, scaled by `10 ^ shift`. Ties go to even ranks, so
the bounds belong to those. -/
def BinaryFormat.interval (f : BinaryFormat) (rank : Nat) : Interval :=
  let scale := Nat.pow 5 f.shift
  let below := f.units (rank - 1)
  let here := f.units rank
  let above := f.units (rank + 1)
  ⟨(below + here) * scale, 2 * here * scale, (here + above) * scale, rank % 2 = 0⟩

/-- The shortest decimal `digits * 10 ^ (grid - shift)` that rounds to a finite rank above zero. -/
def BinaryFormat.shortest (tie : Tie) (f : BinaryFormat) (rank : Nat) : Nat × Nat :=
  let i := f.interval rank
  i.coarsest tie (i.high.log2 / 3 + 1)

/-- A decimal `digits * 10 ^ (grid - shift)` in positional notation. -/
def positional (digits grid shift : Nat) : List Char :=
  let text := Nat.toDigits 10 digits
  if shift ≤ grid then text ++ List.replicate (grid - shift) '0'
  else
    let places := shift - grid
    if places < text.length then
      text.take (text.length - places) ++ '.' :: text.drop (text.length - places)
    else '0' :: '.' :: List.replicate (places - text.length) '0' ++ text

/-- The exponent of a power of ten, always with its sign. -/
def exponentText (exponent : Int) : List Char :=
  (if exponent < 0 then '-' else '+') :: Nat.toDigits 10 exponent.natAbs

/-- A decimal `digits * 10 ^ exponent` with one digit in front of the point, which is left out when
no digit follows it. -/
def scientific (digits : Nat) (exponent : Int) : List Char :=
  let text := Nat.toDigits 10 digits
  let mantissa := match text with
    | first :: second :: rest => first :: '.' :: second :: rest
    | text => text
  mantissa ++ 'e' :: exponentText (exponent + text.length - 1)

end Libretto.Numeral
