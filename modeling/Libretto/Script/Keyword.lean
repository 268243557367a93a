/-
The shapes of lists.

The head of a list selects how the list compiles. A *keyword* has a fixed number of operands and may
take a name as its first; an operator symbol makes a variadic form of the following operands; any
other head is a callee.

* **`Keyword`** — the forms with a layout of their own;
* **`Shape.ofHead`** — what a head selects.
-/
import Libretto.Opcode
import Libretto.Script.Expr

namespace Libretto.Script

/-- A form with a layout of its own. -/
inductive Keyword where
  | define
  | assign
  | assignItem
  | item
  | branch
  deriving DecidableEq, Repr

namespace Keyword

/-- Every keyword. -/
def all : List Keyword := [define, assign, assignItem, item, branch]

/-- The symbol that selects a keyword. -/
def text : Keyword → String
  | define => "defvar"
  | assign => "set"
  | assignItem => "lset"
  | item => "lget"
  | branch => "if"

/-- The keyword of a symbol. -/
def ofText? (name : String) : Option Keyword :=
  all.find? fun keyword => keyword.text == name

/-- The instruction of a keyword. -/
def opcode : Keyword → Opcode
  | define => .define
  | assign => .assign
  | assignItem => .assignItem
  | item => .item
  | branch => .branch

/-- The number of operands, a name included. -/
def arity : Keyword → Nat
  | define | assign | item => 2
  | assignItem | branch => 3

/-- The number of names among the operands, which they lead. -/
def names : Keyword → Nat
  | define | assign | assignItem | item => 1
  | branch => 0

/-- The number of forward offsets: each names the code behind a further operand, all but the last.
-/
def gaps : Keyword → Nat
  | define | assign | item => 0
  | assignItem => 1
  | branch => 2

end Keyword

/-- How a list compiles. -/
inductive Shape where
  | keyword (keyword : Keyword)
  | operator (op : Opcode)
  | call
  deriving DecidableEq, Repr

/-- What the head of a list selects. -/
def Shape.ofHead (head : Expr) : Shape :=
  match head.symbol? with
  | none => .call
  | some name =>
    match Keyword.ofText? name, Opcode.ofOperator? name with
    | some k, _ => .keyword k
    | none, some op => .operator op
    | none, none => .call

end Libretto.Script
