/-
The lexemes of a script line.

    line    ::= lexemes comment?
    comment ::= ";" and all that follows, also inside quotes
    lexeme  ::= "(" | ")" | quoted | word
    quoted  ::= a quote, characters other than quotes, a quote
    word    ::= one or more characters other than blanks, parentheses and quotes

A backslash inside quotes protects the character behind it; both stay in the text. Blanks separate
words and are otherwise skipped.

* **`Scan.ofLine`** — scans a line character by character;
* **`Scan.quoted`** — the texts of the literals that were closed.
-/
import Libretto.Text.Blank

namespace Libretto.Script

/-- A lexeme; the quotes of a literal are left out. -/
inductive Lexeme where
  | opening
  | closing
  | quoted (text : String)
  | word (text : String)
  deriving DecidableEq, Repr

/-- The text of a closed literal. -/
def Lexeme.quoted? : Lexeme → Option String
  | quoted text => some text
  | _ => none

/-- The line up to its comment, which the first semicolon opens. -/
def stripComment (line : List Char) : List Char :=
  line.takeWhile (· ≠ ';')

/-- A character that a word may hold. -/
def isWordChar (c : Char) : Bool :=
  !Text.isBlank c && c ≠ '(' && c ≠ ')' && c ≠ '"'

/-- The lexemes of a line, and the column of a quote that nothing closes. -/
structure Scan where
  lexemes : List Lexeme
  openQuote : Option Nat
  deriving DecidableEq, Repr

/-- The texts of the literals that were closed, in order. -/
def Scan.quoted (scan : Scan) : List String :=
  scan.lexemes.filterMap Lexeme.quoted?

/-- Where in a line a scan stands: between lexemes, in a word, or in a literal whose quote was
opened at `column`. What was read of the lexeme is held in reverse. -/
inductive Position where
  | gap
  | word (reversed : List Char)
  | literal (column : Nat) (reversed : List Char)
  /-- In a literal, behind a backslash. -/
  | escape (column : Nat) (reversed : List Char)
  deriving DecidableEq, Repr

namespace Position

/-- A character between lexemes: the lexeme that it is by itself, and where the scan stands then. -/
def start (column : Nat) (c : Char) : List Lexeme × Position :=
  if c = '(' then ([.opening], gap)
  else if c = ')' then ([.closing], gap)
  else if c = '"' then ([], literal column [])
  else if Text.isBlank c then ([], gap)
  else ([], word [c])

/-- The character in a column: the lexemes that it completes, and where the scan stands then. -/
def step (column : Nat) (c : Char) : Position → List Lexeme × Position
  | gap => start column c
  | word reversed =>
    if isWordChar c then ([], word (c :: reversed))
    else
      let (lexemes, next) := start column c
      (.word (.ofList reversed.reverse) :: lexemes, next)
  | literal opened reversed =>
    if c = '"' then ([.quoted (.ofList reversed.reverse)], gap)
    else if c = '\\' then ([], escape opened (c :: reversed))
    else ([], literal opened (c :: reversed))
  | escape opened reversed => ([], literal opened (c :: reversed))

/-- The end of the line completes a word and leaves a literal open. -/
def finish : Position → Scan
  | gap => ⟨[], none⟩
  | word reversed => ⟨[.word (.ofList reversed.reverse)], none⟩
  | literal opened _ | escape opened _ => ⟨[], some opened⟩

/-- Scans the rest of a line, which begins in the given column. -/
def scan (position : Position) (column : Nat) : List Char → Scan
  | [] => position.finish
  | c :: rest =>
    let (lexemes, next) := position.step column c
    let behind := next.scan (column + 1) rest
    { behind with lexemes := lexemes ++ behind.lexemes }

end Position

/-- Scans a line without its comment; columns are counted from 1. -/
def Scan.ofLine (line : List Char) : Scan :=
  Position.gap.scan 1 (stripComment line)

end Libretto.Script
