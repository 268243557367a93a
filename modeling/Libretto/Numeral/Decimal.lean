/-
The text of a floating-point number.

    number   ::= sign? ( decimal exponent? | "inf" | "infinity" | "nan" )
    decimal  ::= digits ( "." digits? )? | "." digits
    exponent ::= ( "e" | "E" ) sign? digits

Letters count in either case, digits are ASCII digits, and nothing may stand around the number.

* **`Decimal`** — what such a text says, before any rounding;
* **`Decimal.parse?`** — reads a text by the grammar above.
-/

namespace Libretto.Numeral

/-- What the text of a number says: a decimal `± digits * 10 ^ exponent`, an infinity or a NaN. -/
inductive Decimal where
  | finite (negative : Bool) (digits : Nat) (exponent : Int)
  | infinite (negative : Bool)
  | nan (negative : Bool)
  deriving DecidableEq, Repr

/-- The value of a digit. -/
def digitValue (c : Char) : Nat :=
  c.toNat - '0'.toNat

/-- The number that a row of digits writes. -/
def ofDigits (digits : List Char) : Nat :=
  digits.foldl (fun value c => 10 * value + digitValue c) 0

/-- The leading digits of a text, and the rest. -/
def spanDigits (text : List Char) : List Char × List Char :=
  text.span Char.isDigit

/-- An optional sign: whether it is a minus, and the rest. -/
def spanSign : List Char → Bool × List Char
  | '-' :: rest => (true, rest)
  | '+' :: rest => (false, rest)
  | text => (false, text)

namespace Decimal

/-- The number that the digits of an exponent write. Past `2 ^ 16` it stops growing: the value is
then zero or infinite whatever follows. -/
def exponentOfDigits (digits : List Char) : Nat :=
  digits.foldl (fun value c => if value < 0x10000 then 10 * value + digitValue c else value) 0

/-- An exponent part up to the end of the text; the empty text is the exponent 0. -/
def parseExponent? : List Char → Option Int
  | [] => some 0
  | c :: rest =>
    if c = 'e' || c = 'E' then
      let (negative, rest) := spanSign rest
      let (digits, rest) := spanDigits rest
      if digits.isEmpty || !rest.isEmpty then none
      else some (if negative then -(exponentOfDigits digits : Int) else exponentOfDigits digits)
    else none

/-- A decimal with optional exponent. The digits behind the point count into the digits of the value
and lower its exponent. -/
def parseFinite? (negative : Bool) (text : List Char) : Option Decimal := do
  let (whole, rest) := spanDigits text
  let (fraction, rest) := match rest with
    | '.' :: rest => spanDigits rest
    | rest => ([], rest)
  if whole.isEmpty && fraction.isEmpty then none
  let exponent ← parseExponent? rest
  some (.finite negative (ofDigits (whole ++ fraction)) (exponent - fraction.length))

/-- The names of the values that have no digits. -/
def parseName? (negative : Bool) (text : List Char) : Option Decimal :=
  let name := text.map Char.toLower
  if name = ['i', 'n', 'f'] || name = ['i', 'n', 'f', 'i', 'n', 'i', 't', 'y'] then
    some (.infinite negative)
  else if name = ['n', 'a', 'n'] then some (.nan negative)
  else none

/-- Reads the text of a number. -/
def parse? (text : List Char) : Option Decimal :=
  let (negative, rest) := spanSign text
  parseFinite? negative rest <|> parseName? negative rest

end Decimal

end Libretto.Numeral
