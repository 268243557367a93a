/-
Compiling an expression into a block.

A list is bracketed by an instruction that holds the offset past its end, so that the machine can
skip it, and one that closes it. Conditionals and item assignments hold further forward offsets.
Such a word is emitted as a *gap* and filled when the code that it points at is about to be emitted.

* **`Expr.assembleWith`** — emits the code of an expression, given how gaps are filled;
* **`Expr.compile`** — the block of an expression, and the string table afterwards.

Names enter the string table as their code is emitted, and they stay there when the expression turns
out to be faulty further on.
-/
import Libretto.Opcode.Numbering
import Libretto.Script.Block
import Libretto.Script.Keyword

namespace Libretto.Script

/-- Why an expression does not compile. -/
inductive CompileError where
  | emptyForm
  | arity (keyword : Keyword) (found : Nat)
  /-- The first operand of the keyword is no name; its text is given. -/
  | expectedName (keyword : Keyword) (found : String)
  /-- An offset that a code word cannot hold. -/
  | tooLarge (offset : Nat)
  deriving DecidableEq, Repr

/-- The wording of a fault in an expression. -/
def CompileError.message : CompileError → String
  | emptyForm => "empty form `()`"
  | arity keyword found =>
    "`" ++ keyword.text ++ s!"` expects {keyword.arity} operand(s), found {found}"
  | expectedName keyword found =>
    "`" ++ keyword.text ++ s!"` expects a symbol name, found `{found}`"
  | tooLarge offset => s!"block too large: offset {offset} does not fit a code word"

/-- A block under construction, and the string table of its unit. -/
structure Assembler where
  code : Array UInt32
  slots : Array Nat
  table : StringTable

/-- A step of the construction; what it has done stays done when it fails. -/
abbrev Assembly := EStateM CompileError Assembler

namespace Assembly

/-- Emits a word. -/
def emit (word : UInt32) : Assembly Unit :=
  modify fun a => { a with code := a.code.push word }

/-- Emits a string id, into a slot. -/
def emitString (id : StringId) : Assembly Unit :=
  modify fun a =>
    let slot := a.code.size
    { a with code := a.code.push id.index, slots := a.slots.push slot }

/-- Interns a name and emits its id. -/
def emitName (name : String) : Assembly Unit := do
  let (id, table) := (← get).table.add name
  modify fun a => { a with table }
  emitString id

/-- Emits a gap, and gives its offset. -/
def reserve : Assembly Nat := do
  let offset := (← get).code.size
  emit 0
  return offset

/-- Emits a number of gaps, and gives their offsets. -/
def reserveMany : Nat → Assembly (List Nat)
  | 0 => return []
  | count + 1 => return (← reserve) :: (← reserveMany count)

/-- Fills a gap with the offset that the code has reached. -/
def fill (gap : Nat) : Assembly Unit := do
  let offset := (← get).code.size
  if offset < 0x100000000 then
    modify fun a => { a with code := a.code.setIfInBounds gap offset.toUInt32 }
  else throw (.tooLarge offset)

/-- Emits the name that leads the operands of a keyword, if it takes one. -/
def emitLeadingName (keyword : Keyword) (operands : List Expr) : Assembly Unit :=
  match keyword.names, operands with
  | 0, _ | _, [] => return
  | _, operand :: _ =>
    match operand.symbol? with
    | some name => emitName name
    | none => throw (.expectedName keyword operand.text)

end Assembly

namespace Expr

open Assembly

variable (numbering : Numbering)

mutual

/-- Emits the code of an expression, and fills its gaps as given. -/
def assembleWith (fill : Nat → Assembly Unit) : Expr → Assembly Unit
  | number value => do
    emit (numbering.word .number)
    emit value.bits
  | string id => do
    emit (numbering.word .string)
    emitString id
  | symbol name => do
    emit (numbering.word .symbol)
    emitName name
  | list [] => throw .emptyForm
  | list (head :: operands) => do
    emit (numbering.word .enter)
    let past ← reserve
    match Shape.ofHead head with
    | .keyword keyword =>
      if operands.length ≠ keyword.arity then throw (.arity keyword operands.length)
      emit (numbering.word keyword.opcode)
      emitLeadingName keyword operands
      let gaps ← reserveMany keyword.gaps
      assembleOperandsWith fill keyword.names gaps operands
    | .operator op =>
      emit (numbering.word op)
      emit operands.length.toUInt32
      assembleOperandsWith fill 0 [] operands
    | .call =>
      emit (numbering.word .call)
      emit operands.length.toUInt32
      head.assembleWith fill
      assembleOperandsWith fill 0 [] operands
    emit (numbering.word .leave)
    fill past

/-- Emits the code of operands behind the first `names` ones, and fills one gap behind each operand
while there are gaps. -/
def assembleOperandsWith (fill : Nat → Assembly Unit) : Nat → List Nat → List Expr → Assembly Unit
  | _, _, [] => return
  | names + 1, gaps, _ :: rest => assembleOperandsWith fill names gaps rest
  | 0, [], operand :: rest => do
    operand.assembleWith fill
    assembleOperandsWith fill 0 [] rest
  | 0, gap :: gaps, operand :: rest => do
    operand.assembleWith fill
    fill gap
    assembleOperandsWith fill 0 gaps rest

end

/-- Compiles an expression: its block or the first fault in it, and the string table afterwards. -/
def compile (expr : Expr) (table : StringTable) : Except CompileError Block × StringTable :=
  match expr.assembleWith numbering fill ⟨#[], #[], table⟩ with
  | .ok _ a => (.ok ⟨a.code, a.slots.toList⟩, a.table)
  | .error e a => (.error e, a.table)

end Expr

end Libretto.Script
