/-
Forms: expressions read from tokens.

A line holds one form. Tokens behind it are counted and otherwise ignored, but their parentheses
have to balance. Lists may nest 256 deep.

* **`Expr.ofTokens`** — reads one expression and leaves the tokens behind it;
* **`Form.ofTokens?`** — reads the form of a line.
-/
import Libretto.Script.Expr
import Libretto.Script.Token

namespace Libretto.Script

/-- Why tokens do not make a form. -/
inductive FormError where
  /-- The number of lists that are left open. -/
  | unclosed (count : Nat)
  | unexpectedClose
  | badNumber (text : String)
  | tooDeep
  deriving DecidableEq, Repr

/-- The greatest number of lists inside of each other. -/
def maxDepth : Nat := 256

/-- The wording of a fault in a form. -/
def FormError.message : FormError → String
  | unclosed count => s!"unbalanced parentheses: {count} list(s) left open"
  | unexpectedClose => "unexpected `)`"
  | badNumber text => s!"invalid number `{text}`"
  | tooDeep => s!"lists nested deeper than {maxDepth} levels"

/-- The expression of an atom. -/
def Atom.expr : Atom → Except FormError Expr
  | symbol name => .ok (.symbol name)
  | string id => .ok (.string id)
  | number text =>
    match Numeral.Single.parse? text with
    | some value => .ok (.number value)
    | none => .error (.badNumber text)

namespace Expr

/-- Reads on inside of open lists, whose items so far stand in `stack`, innermost list first and
last item first. A complete expression ends the reading when no list is open; else it is an item of
the innermost one. -/
def readInside (depth : Nat) :
    List (List Expr) → List Token → Except FormError (Expr × List Token)
  | stack, [] => .error (.unclosed (depth + stack.length))
  | stack, .opening :: rest =>
    if maxDepth ≤ depth + stack.length then .error .tooDeep else readInside depth ([] :: stack) rest
  | [], .closing :: _ => .error .unexpectedClose
  | [items], .closing :: rest => .ok (.list items.reverse, rest)
  | items :: outer :: stack, .closing :: rest =>
    readInside depth ((.list items.reverse :: outer) :: stack) rest
  | stack, .atom atom :: rest =>
    match atom.expr, stack with
    | .error e, _ => .error e
    | .ok expr, [] => .ok (expr, rest)
    | .ok expr, items :: stack => readInside depth ((expr :: items) :: stack) rest

/-- Reads one expression, `depth` lists deep, and leaves the tokens behind it. -/
def ofTokens (depth : Nat) (tokens : List Token) : Except FormError (Expr × List Token) :=
  readInside depth [] tokens

end Expr

/-- Checks that parentheses balance, with `count` lists open in front. -/
def checkBalance (count : Nat) : List Token → Except FormError Unit
  | [] => if count = 0 then .ok () else .error (.unclosed count)
  | .opening :: rest => checkBalance (count + 1) rest
  | .closing :: rest => if count = 0 then .error .unexpectedClose else checkBalance (count - 1) rest
  | _ :: rest => checkBalance count rest

/-- The form of a line: its first expression, and the number of tokens behind it. -/
structure Form where
  expr : Expr
  trailing : Nat

/-- Reads the form of a line; a line without tokens has none. -/
def Form.ofTokens? : List Token → Except FormError (Option Form)
  | [] => .ok none
  | tokens => do
    let (expr, rest) ← Expr.ofTokens 0 tokens
    checkBalance 0 rest
    return some ⟨expr, rest.length⟩

end Libretto.Script
