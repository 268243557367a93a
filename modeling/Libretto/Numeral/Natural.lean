/-
Natural numbers in text: the words of opcode files and of character references, and the numbers in
messages.

* **`decimal`**, **`hexadecimal`** — written forms without leading zeros;
* **`readWord`** — a 32-bit word in a given base, or what is wrong with its text.
-/

namespace Libretto.Numeral

/-- A natural number in base ten. -/
def decimal (n : Nat) : String :=
  String.ofList (Nat.toDigits 10 n)

/-- A natural number in base sixteen. -/
def hexadecimal (n : Nat) : String :=
  String.ofList (Nat.toDigits 16 n)

/-- A decimal number set to the right of at least `width` columns. -/
def padded (width n : Nat) : String :=
  let digits := Nat.toDigits 10 n
  String.ofList (List.replicate (width - digits.length) ' ' ++ digits)

/-- Why a text is no 32-bit word. -/
inductive WordError where
  | empty
  | invalidDigit
  | overflow
  deriving DecidableEq, Repr

/-- The wording of a fault in a number. -/
def WordError.message : WordError → String
  | .empty => "cannot parse integer from empty string"
  | .invalidDigit => "invalid digit found in string"
  | .overflow => "number too large to fit in target type"

/-- The value of a digit in a base up to sixteen, letters in either case. -/
def digitIn? (base : Nat) (c : Char) : Option Nat :=
  let value :=
    if c.isDigit then c.toNat - '0'.toNat
    else if 'a' ≤ c && c ≤ 'f' then c.toNat - 'a'.toNat + 10
    else if 'A' ≤ c && c ≤ 'F' then c.toNat - 'A'.toNat + 10
    else base
  if value < base then some value else none

/-- Appends digits to the number read so far, from left to right: the first fault counts. -/
def readDigits (base : Nat) : Nat → List Char → Except WordError Nat
  | value, [] => .ok value
  | value, c :: rest =>
    match digitIn? base c with
    | none => .error .invalidDigit
    | some digit =>
      let value := base * value + digit
      if value < 0x100000000 then readDigits base value rest else .error .overflow

/-- A 32-bit word. A plus sign may lead, with a digit behind it; a lone sign is no digit. -/
def readWord (base : Nat) (text : List Char) : Except WordError UInt32 := do
  let digits := match text with
    | '+' :: c :: rest => c :: rest
    | text => text
  if digits.isEmpty then throw .empty
  return (← readDigits base 0 digits).toUInt32

end Libretto.Numeral
