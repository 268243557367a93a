/-
The instructions of the script machine.

The set is closed. An instruction is one code word for the opcode and up to two operand words, whose
number and meaning depend on the opcode alone.

* **`Opcode.name`** — the name in opcode definitions;
* **`Opcode.mnemonic`** — the name in listings, where arithmetic and comparison are signs;
* **`Opcode.operator?`** — the variadic form that a head symbol selects in a script;
* **`Opcode.operands`** — what the operand words hold.
-/

namespace Libretto

/-- One kind of instruction. -/
inductive Opcode where
  /-- Opens a list; the operand is the offset just past its end. -/
  | enter
  /-- Closes a list. -/
  | leave
  /-- Defines a variable; its initial value follows. -/
  | define
  /-- A bare symbol. -/
  | symbol
  /-- Assigns to a variable; the value follows. -/
  | assign
  /-- A single-precision literal. -/
  | number
  /-- A string literal. -/
  | string
  /-- A conditional; condition, consequence and alternative follow. -/
  | branch
  | add
  | sub
  | mul
  | div
  | eq
  | ne
  | lt
  | gt
  | le
  | ge
  | not
  | and
  | or
  | xor
  | min
  | max
  /-- A call; callee and arguments follow. -/
  | call
  | neg
  | list
  /-- Assigns to a list item; index and value follow. -/
  | assignItem
  /-- Reads a list item; the index follows. -/
  | item
  deriving DecidableEq, Repr, Inhabited

/-- What the operand words of an instruction hold. -/
inductive OperandKind where
  | none
  /-- One code offset. -/
  | offset
  /-- Two code offsets. -/
  | offsets
  /-- One string id. -/
  | string
  /-- A string id, then a code offset. -/
  | stringOffset
  /-- The bits of a single-precision number. -/
  | number
  /-- The number of operands of a variadic form. -/
  | count
  deriving DecidableEq, Repr

/-- The number of operand words. -/
def OperandKind.words : OperandKind → Nat
  | .none => 0
  | .offset | .string | .number | .count => 1
  | .offsets | .stringOffset => 2

namespace Opcode

/-- Every opcode, in the order of the default numbering. -/
def all : List Opcode :=
  [.enter, .leave, .define, .symbol, .assign, .number, .string, .branch, .add, .sub, .mul, .div,
    .eq, .ne, .lt, .gt, .le, .ge, .not, .and, .or, .xor, .min, .max, .call, .neg, .list,
    .assignItem, .item]

theorem mem_all (op : Opcode) : op ∈ all := by
  cases op <;> decide

/-- The name of an opcode in opcode definitions. -/
def name : Opcode → String
  | enter => "BEGIN"
  | leave => "END"
  | define => "VAR"
  | symbol => "SYM"
  | assign => "SET"
  | number => "FVAL"
  | string => "SVAL"
  | branch => "IF"
  | add => "ADD"
  | sub => "SUB"
  | mul => "MUL"
  | div => "DIV"
  | eq => "EQ"
  | ne => "NE"
  | lt => "LT"
  | gt => "GT"
  | le => "LE"
  | ge => "GE"
  | not => "NOT"
  | and => "AND"
  | or => "OR"
  | xor => "XOR"
  | min => "MIN"
  | max => "MAX"
  | call => "CALL"
  | neg => "NEG"
  | list => "LIST"
  | assignItem => "LSET"
  | item => "LGET"

/-- The opcode of a name. -/
def ofName? (name : String) : Option Opcode :=
  all.find? fun op => op.name == name

/-- The name of an opcode in listings. -/
def mnemonic : Opcode → String
  | add => "+"
  | sub => "-"
  | mul => "*"
  | div => "/"
  | eq => "="
  | ne => "!="
  | lt => "<"
  | gt => ">"
  | le => "<="
  | ge => ">="
  | op => op.name

/-- What the operand words of an instruction hold. -/
def operands : Opcode → OperandKind
  | enter => .offset
  | leave => .none
  | define | symbol | assign | string | item => .string
  | assignItem => .stringOffset
  | number => .number
  | branch => .offsets
  | _ => .count

/-- The head symbol that selects a variadic form in a script. -/
def operator? : Opcode → Option String
  | add => some "+"
  | sub => some "-"
  | mul => some "*"
  | div => some "/"
  | neg => some "neg"
  | eq => some "="
  | ne => some "/="
  | lt => some "<"
  | gt => some ">"
  | le => some "<="
  | ge => some ">="
  | not => some "not"
  | and => some "and"
  | or => some "or"
  | xor => some "xor"
  | min => some "min"
  | max => some "max"
  | list => some "list"
  | _ => none

/-- The variadic form that a head symbol selects. -/
def ofOperator? (operator : String) : Option Opcode :=
  all.find? fun op => op.operator? == some operator

end Opcode

end Libretto
