/-
The tokens of a script line.

A token is a lexeme in the context of a unit: literals are interned, and a word that reads as a
number is one.

* **`tokenize`** — the tokens of a line and the string table afterwards.

The literals that a line closes stay in the table also when another one is left open.
-/
import Libretto.Numeral.Decimal
import Libretto.Script.Lexeme
import Libretto.StringTable

namespace Libretto.Script

/-- A token that is an expression by itself; a number keeps its text. -/
inductive Atom where
  | symbol (name : String)
  | number (text : String)
  | string (id : StringId)
  deriving DecidableEq, Repr

/-- A token: a parenthesis or an atom. -/
inductive Token where
  | opening
  | closing
  | atom (atom : Atom)
  deriving DecidableEq, Repr

/-- Why a line has no tokens. -/
inductive TokenError where
  /-- The quote in a column, counted from 1, is not closed. -/
  | unterminated (column : Nat)
  deriving DecidableEq, Repr

/-- The wording of a fault in the tokens of a line. -/
def TokenError.message : TokenError → String
  | unterminated column => s!"unterminated string literal starting at column {column}"

/-- A word that reads as a number. -/
def isNumber (word : String) : Bool :=
  (Numeral.Decimal.parse? word.toList).isSome

/-- The token of a lexeme, with the given id for its text if it is a literal. -/
def Lexeme.token (id : String → StringId) : Lexeme → Token
  | .opening => .opening
  | .closing => .closing
  | .quoted text => .atom (.string (id text))
  | .word text => .atom (if isNumber text then .number text else .symbol text)

/-- The token of a lexeme whose text, if it is a literal, stands in the table. -/
def Token.ofLexeme (table : StringTable) : Lexeme → Token :=
  Lexeme.token table.idOf

/-- The tokens of a line, and the table with its literals added. -/
def tokenize (line : String) (table : StringTable) :
    Except TokenError (List Token) × StringTable :=
  let scan := Scan.ofLine line.toList
  let table := table.insertAll scan.quoted
  match scan.openQuote with
  | some column => (.error (.unterminated column), table)
  | none => (.ok (scan.lexemes.map (Token.ofLexeme table)), table)

end Libretto.Script
