/-
Entities and character references in markup text.

    reference ::= "&" name ";" | "&#" digits ";" | "&#x" hex digits ";"

Five names stand for characters that markup uses itself; a number stands for the character with that
code point. An ampersand that opens no reference is a fault, and so is a reference that names
nothing.

* **`unescape`** — the text with its references replaced;
* **`EscapeFault`** — what is wrong with a reference, and where in the text in bytes.
-/
import Libretto.Numeral.Natural

namespace Libretto.Markup

/-- The size of a text in UTF-8. -/
def byteLength (text : List Char) : Nat :=
  (String.ofList text).utf8ByteSize

/-- What is wrong with the number of a character reference. -/
inductive ReferenceFault where
  | sign
  | number (error : Numeral.WordError)
  | null
  /-- The number is no code point of a character. -/
  | codePoint (number : UInt32)
  deriving DecidableEq, Repr

/-- The wording of a fault in a character reference. -/
def ReferenceFault.message : ReferenceFault → String
  | sign => "unexpected number sign"
  | number error => error.message
  | null => "0x0 character is not permitted in XML"
  | codePoint n => s!"`{n}` is not a valid codepoint"

/-- What is wrong with a reference. -/
inductive EscapeFault where
  /-- The bytes from an ampersand to the end of the text, when no semicolon closes the reference. -/
  | unterminated (start : Nat) (stop : Nat)
  /-- A name that stands for nothing, and its bytes. -/
  | unrecognized (start : Nat) (stop : Nat) (name : String)
  | reference (fault : ReferenceFault)
  deriving DecidableEq, Repr

/-- The wording of a fault in a reference. -/
def EscapeFault.message : EscapeFault → String
  | unterminated start stop =>
    s!"Error while escaping character at range {start}..{stop}: Cannot find ';' after '&'"
  | unrecognized start stop name => s!"at {start}..{stop}: unrecognized entity `{name}`"
  | reference fault => "invalid character reference: " ++ fault.message

/-- The character with a number: neither null nor a surrogate nor beyond the last code point. -/
def charOfNumber (number : UInt32) : Except ReferenceFault Char :=
  if number = 0 then .error .null
  else if h : number.toNat.isValidChar then .ok (Char.ofNatAux number.toNat h)
  else .error (.codePoint number)

/-- The character of the number in a reference, `x` in front of hexadecimal digits. -/
def charOfReference (text : List Char) : Except ReferenceFault Char :=
  let (base, digits) := match text with
    | 'x' :: digits => (16, digits)
    | digits => (10, digits)
  match digits.head? with
  | some '+' | some '-' => .error .sign
  | _ =>
    match Numeral.readWord base digits with
    | .error e => .error (.number e)
    | .ok number => charOfNumber number

/-- The character that a name stands for. -/
def charOfName? (name : String) : Option Char :=
  match name with
  | "lt" => some '<'
  | "gt" => some '>'
  | "amp" => some '&'
  | "apos" => some '\''
  | "quot" => some '"'
  | _ => none

/-- The character of what stands between an ampersand and a semicolon, which begins at byte `start`.
-/
def charOfEntity (start : Nat) (text : List Char) : Except EscapeFault Char :=
  match text with
  | '#' :: number => (charOfReference number).mapError .reference
  | name =>
    match charOfName? (.ofList name) with
    | some c => .ok c
    | none => .error (.unrecognized start (start + byteLength name) (.ofList name))

/-- Replaces the references in the rest of a text, which begins at byte `offset` and ends at `stop`.
-/
def unescapeFrom (stop offset : Nat) : List Char → Except EscapeFault (List Char)
  | [] => .ok []
  | c :: rest =>
    if c = '&' then
      let name := rest.takeWhile fun c => c ≠ '&' && c ≠ ';'
      match h : rest.dropWhile fun c => c ≠ '&' && c ≠ ';' with
      | ';' :: behind => do
        let c ← charOfEntity (offset + 1) name
        return c :: (← unescapeFrom stop (offset + byteLength name + 2) behind)
      | _ => .error (.unterminated offset stop)
    else do
      return c :: (← unescapeFrom stop (offset + c.utf8Size) rest)
termination_by text => text.length
decreasing_by
  · have := (List.dropWhile_suffix fun c => c ≠ '&' && c ≠ ';' : _ <:+ rest).length_le
    simp_all
    omega
  · simp

/-- Replaces the references in a text. -/
def unescape (text : List Char) : Except EscapeFault (List Char) :=
  unescapeFrom (byteLength text) 0 text

end Libretto.Markup
