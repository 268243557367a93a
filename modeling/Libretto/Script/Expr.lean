/-
Expressions: the forms of a script before they are compiled.

* **`Expr`** — numbers, symbols, interned strings, and lists of expressions;
* **`Expr.text`** — the text of an expression in messages, where a string is shown by its id;
* **`Expr.nesting`** — how deep lists stand inside of lists.
-/
import Libretto.Numeral.Natural
import Libretto.Numeral.Single
import Libretto.StringTable

namespace Libretto.Script

/-- An expression of a script. -/
inductive Expr where
  | number (value : Numeral.Single)
  | symbol (name : String)
  | string (id : StringId)
  | list (items : List Expr)
  deriving Repr, Inhabited

namespace Expr

/-- The name of an expression that is a symbol. -/
def symbol? : Expr → Option String
  | symbol name => some name
  | _ => none

mutual

/-- The text of an expression. -/
def text : Expr → String
  | number value => value.text
  | symbol name => name
  | string id => "\"#" ++ Numeral.decimal id.index.toNat ++ "\""
  | list items => "(" ++ " ".intercalate (texts items) ++ ")"

/-- The texts of expressions. -/
def texts : List Expr → List String
  | [] => []
  | item :: rest => item.text :: texts rest

end

mutual

/-- The number of lists inside of each other: none in an atom, and in a list one more than in its
deepest item. -/
def nesting : Expr → Nat
  | list items => maxNesting items + 1
  | _ => 0

/-- The deepest nesting among expressions. -/
def maxNesting : List Expr → Nat
  | [] => 0
  | item :: rest => max item.nesting (maxNesting rest)

end

end Expr

end Libretto.Script
