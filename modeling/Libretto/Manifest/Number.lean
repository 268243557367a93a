/-
Numbers in the JSON text of a manifest.

    number ::= "-"? ( "0" | digits without a leading zero ) ( "." digits )? ( e sign? digits )?

A manifest has no use for numbers, so they matter only where one is reported. An integer of 64 bits
is reported as it stands. Any other number becomes double precision: the digits that fit 64 bits,
times or divided by a power of ten, each step rounded by itself. The last digit may so differ from
that of the nearest double. A number beyond the doubles is malformed.

* **`scanNumber`** — reads a number behind its sign;
* **`Number.text`** — a number in a report.
-/
import Libretto.Numeral.Decimal
import Libretto.Numeral.Natural
import Libretto.Numeral.Shortest

namespace Libretto.Manifest

open Numeral (BinaryFormat positional scientific spanDigits spanSign digitValue)

/-- Why a text is no JSON: a character stands where it must not, or the text ends too soon. -/
inductive TextFault where
  | malformed
  | cutOff
  deriving DecidableEq, Repr

/-- A number: an integer of 64 bits, or else a double-precision number by sign and rank. -/
inductive Number where
  | integer (value : Int)
  | floating (negative : Bool) (rank : Nat)
  deriving DecidableEq, Repr

namespace Number

/-- The text of a finite double: the shortest decimal, the even one of two. Numbers with up to 16
digits in front of the point, or with less than five zeros behind it, are positional, and those have
a point also when they are whole. -/
def floatText (rank : Nat) : List Char :=
  if rank = 0 then ['0', '.', '0']
  else
    let (digits, grid) := BinaryFormat.double.shortest .even rank
    let exponent := (grid : Int) - BinaryFormat.double.shift
    let places := exponent + (Nat.toDigits 10 digits).length
    if -5 < places && places ≤ 16 then
      let text := positional digits grid BinaryFormat.double.shift
      if text.contains '.' then text else text ++ ['.', '0']
    else scientific digits exponent

/-- The text of a number in a report. -/
def text : Number → String
  | integer value => toString value
  | floating negative rank =>
    .ofList (if negative then '-' :: floatText rank else floatText rank)

/-- A number without point and exponent: negative ones have one bit less, and zero has no sign as an
integer. -/
def ofNat (negative : Bool) (value : Nat) : Number :=
  if !negative then integer value
  else if 0 < value && value ≤ 0x8000000000000000 then integer (-value)
  else floating true (BinaryFormat.double.ofDecimal value 0)

/-- The greatest exponent of a power of ten that is a double. -/
def maxPower : Nat := 308

/-- The rank of a power of ten. -/
def powerRank (exponent : Nat) : Nat :=
  BinaryFormat.double.ofDecimal 1 exponent

/-- A rank divided by a power of ten, in steps as large as a double can be. -/
def divideByPower (rank exponent : Nat) : Nat :=
  if exponent ≤ maxPower then BinaryFormat.double.div rank (powerRank exponent)
  else if rank = 0 then 0
  else divideByPower (BinaryFormat.double.div rank (powerRank maxPower)) (exponent - maxPower)
termination_by exponent
decreasing_by simp [maxPower] at *; omega

/-- A number of up to 64 bits times a power of ten. -/
def scaled (negative : Bool) (digits : Nat) (exponent : Int) : Except TextFault Number :=
  let rank := BinaryFormat.double.ofDecimal digits 0
  match exponent with
  | .ofNat e =>
    if maxPower < e then
      if rank = 0 then .ok (floating negative 0) else .error .malformed
    else
      let product := BinaryFormat.double.mul rank (powerRank e)
      if BinaryFormat.double.infinity ≤ product then .error .malformed
      else .ok (floating negative product)
  | .negSucc e => .ok (floating negative (divideByPower rank (e + 1)))

end Number

/-- Appends digits to a number while it fits 64 bits; gives the number, and how many digits are
left. -/
def appendDigits (value : Nat) : List Char → Nat × Nat
  | [] => (value, 0)
  | c :: rest =>
    if 10 * value + digitValue c < 0x10000000000000000 then appendDigits (10 * value + digitValue c) rest
    else (value, rest.length + 1)

/-- What an exponent makes of a number; the text begins behind the `e`. An exponent of more than 31
bits leaves nothing but zero, or too much. -/
def scanExponent (negative : Bool) (digits : Nat) (exponent : Int) (text : List Char) :
    Except TextFault (Number × List Char) := do
  let (down, text) := spanSign text
  let (power, rest) := spanDigits text
  if power.isEmpty then throw (if rest.isEmpty then .cutOff else .malformed)
  let power := Numeral.ofDigits power
  if power < 0x80000000 then
    let number ← Number.scaled negative digits (if down then exponent - power else exponent + power)
    return (number, rest)
  else if digits ≠ 0 && !down then throw .malformed
  else return (.floating negative 0, rest)

/-- What follows the digits of a number that is no integer: an exponent, or its end. -/
def scanScale (negative : Bool) (digits : Nat) (exponent : Int) (text : List Char) :
    Except TextFault (Number × List Char) := do
  match text with
  | 'e' :: rest | 'E' :: rest => scanExponent negative digits exponent rest
  | rest => return (← Number.scaled negative digits exponent, rest)

/-- What follows the point of a number. -/
def scanFraction (negative : Bool) (digits : Nat) (exponent : Int) (text : List Char) :
    Except TextFault (Number × List Char) := do
  let (fraction, rest) := spanDigits text
  if fraction.isEmpty then throw (if rest.isEmpty then .cutOff else .malformed)
  let (digits, left) := appendDigits digits fraction
  scanScale negative digits (exponent - (fraction.length - left : Nat)) rest

/-- Reads a number behind its sign. -/
def scanNumber (negative : Bool) (text : List Char) : Except TextFault (Number × List Char) := do
  let (whole, rest) := spanDigits text
  match whole with
  | [] => throw (if rest.isEmpty then .cutOff else .malformed)
  | '0' :: _ :: _ => throw .malformed
  | whole =>
    let (digits, left) := appendDigits 0 whole
    match rest with
    | '.' :: rest => scanFraction negative digits left rest
    | 'e' :: rest | 'E' :: rest => scanExponent negative digits left rest
    | rest =>
      if left = 0 then return (.ofNat negative digits, rest)
      else return (← Number.scaled negative digits left, rest)

end Libretto.Manifest
