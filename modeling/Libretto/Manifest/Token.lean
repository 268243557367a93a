/-
Tokens of the JSON text of a manifest.

A text is cut into tokens up to its end or up to the first token that is broken. What a broken token
means depends on where it stands, so it is kept, with its first character and its fault.

* **`Token`** — punctuation, scalars, and broken tokens;
* **`tokens`** — the tokens of a text.
-/
import Libretto.Manifest.Number

namespace Libretto.Manifest

/-- A value without parts. -/
inductive Scalar where
  | null
  | boolean (value : Bool)
  | number (value : Number)
  | string (value : String)
  deriving DecidableEq, Repr

/-- A token. -/
inductive Token where
  | openBrace
  | closeBrace
  | openBracket
  | closeBracket
  | comma
  | colon
  | scalar (value : Scalar)
  | broken (first : Char) (fault : TextFault)
  deriving DecidableEq, Repr

/-! ### Strings -/

/-- The value of a hexadecimal digit. -/
def hexValue? (c : Char) : Option Nat :=
  if c.isDigit then some (c.toNat - '0'.toNat)
  else if 'a' ≤ c && c ≤ 'f' then some (c.toNat - 'a'.toNat + 10)
  else if 'A' ≤ c && c ≤ 'F' then some (c.toNat - 'A'.toNat + 10)
  else none

/-- Four hexadecimal digits. With less than four bytes left the text is cut off, whatever they are.
-/
def scanHex (text : List Char) : Except TextFault (Nat × List Char) :=
  if (String.ofList text).utf8ByteSize < 4 then .error .cutOff
  else
    match text with
    | a :: b :: c :: d :: rest =>
      match hexValue? a, hexValue? b, hexValue? c, hexValue? d with
      | some a, some b, some c, some d => .ok (((a * 16 + b) * 16 + c) * 16 + d, rest)
      | _, _, _, _ => .error .malformed
    | _ => .error .malformed

/-- The character of a code unit in an escape. The first unit of a pair takes the second one, in an
escape of its own, with it; no other unit of a pair stands alone. -/
def scanUnit (text : List Char) : Except TextFault (Char × List Char) :=
  match scanHex text with
  | .error fault => .error fault
  | .ok (unit, rest) =>
    if unit < 0xD800 || 0xDFFF < unit then .ok (.ofNat unit, rest)
    else if 0xDC00 ≤ unit then .error .malformed
    else
      match rest with
      | '\\' :: 'u' :: rest =>
        match scanHex rest with
        | .error fault => .error fault
        | .ok (second, rest) =>
          if second < 0xDC00 || 0xDFFF < second then .error .malformed
          else .ok (.ofNat (0x10000 + (unit - 0xD800) * 0x400 + (second - 0xDC00)), rest)
      | [] | ['\\'] => .error .cutOff
      | _ => .error .malformed

/-- The character that an escape stands for; the text begins behind the backslash. -/
def scanEscape : List Char → Except TextFault (Char × List Char)
  | [] => .error .cutOff
  | 'u' :: rest => scanUnit rest
  | c :: rest =>
    match c with
    | '"' | '\\' | '/' => .ok (c, rest)
    | 'b' => .ok ('\x08', rest)
    | 'f' => .ok ('\x0c', rest)
    | 'n' => .ok ('\n', rest)
    | 'r' => .ok ('\r', rest)
    | 't' => .ok ('\t', rest)
    | _ => .error .malformed

theorem length_of_scanHex {text rest : List Char} {unit : Nat}
    (h : scanHex text = .ok (unit, rest)) : rest.length < text.length := by
  unfold scanHex at h
  split at h
  · simp at h
  · split at h
    · split at h <;> simp at h
      obtain ⟨-, rfl⟩ := h
      simp
      omega
    · simp at h

theorem length_of_scanUnit {text rest : List Char} {c : Char}
    (h : scanUnit text = .ok (c, rest)) : rest.length < text.length := by
  fun_cases scanUnit text <;> grind [scanUnit, → length_of_scanHex]

theorem length_of_scanEscape {text rest : List Char} {c : Char}
    (h : scanEscape text = .ok (c, rest)) : rest.length < text.length := by
  fun_cases scanEscape text <;> grind [scanEscape, → length_of_scanUnit]

/-- The rest of a string up to its closing quote. Control characters do not stand in strings. -/
def scanString (text : List Char) : Except TextFault (List Char × List Char) :=
  match text with
  | [] => .error .cutOff
  | c :: rest =>
    if c = '"' then .ok ([], rest)
    else if c = '\\' then
      match _found : scanEscape rest with
      | .error fault => .error fault
      | .ok (c, behind) =>
        match scanString behind with
        | .error fault => .error fault
        | .ok (value, behind) => .ok (c :: value, behind)
    else if c.toNat < 0x20 then .error .malformed
    else
      match scanString rest with
      | .error fault => .error fault
      | .ok (value, behind) => .ok (c :: value, behind)
termination_by text.length
decreasing_by
  · have := length_of_scanEscape _found
    simp only [List.length_cons]
    omega
  · simp

/-! ### Tokens -/

/-- A space between tokens. -/
def isSpace (c : Char) : Bool :=
  c = ' ' || c = '\n' || c = '\t' || c = '\r'

/-- The rest of a word of which the first character is read. -/
def scanWord : List Char → List Char → Except TextFault (List Char)
  | [], rest => .ok rest
  | _ :: _, [] => .error .cutOff
  | expected :: word, c :: rest => if c = expected then scanWord word rest else .error .malformed

/-- The scalar that begins with a character, and the text behind. -/
def scanScalar (first : Char) (text : List Char) : Except TextFault (Scalar × List Char) :=
  match first with
  | '"' => (scanString text).map fun (value, rest) => (.string (.ofList value), rest)
  | 'n' => (scanWord ['u', 'l', 'l'] text).map fun rest => (.null, rest)
  | 't' => (scanWord ['r', 'u', 'e'] text).map fun rest => (.boolean true, rest)
  | 'f' => (scanWord ['a', 'l', 's', 'e'] text).map fun rest => (.boolean false, rest)
  | '-' => (scanNumber true text).map fun (value, rest) => (.number value, rest)
  | c =>
    if c.isDigit then (scanNumber false (c :: text)).map fun (value, rest) => (.number value, rest)
    else .error .malformed

/-- The punctuation of a character. -/
def punctuation? : Char → Option Token
  | '{' => some .openBrace
  | '}' => some .closeBrace
  | '[' => some .openBracket
  | ']' => some .closeBracket
  | ',' => some .comma
  | ':' => some .colon
  | _ => none

/-- The tokens of the rest of a text, up to its end or to the first broken one; `room` bounds their
number. -/
def tokensWithin : Nat → List Char → List Token
  | 0, _ => []
  | room + 1, text =>
    match text.dropWhile isSpace with
    | [] => []
    | c :: rest =>
      match punctuation? c with
      | some token => token :: tokensWithin room rest
      | none =>
        match scanScalar c rest with
        | .error fault => [.broken c fault]
        | .ok (value, rest) => .scalar value :: tokensWithin room rest

/-- The tokens of a text. Each takes a character at least. -/
def tokens (text : List Char) : List Token :=
  tokensWithin text.length text

end Libretto.Manifest
