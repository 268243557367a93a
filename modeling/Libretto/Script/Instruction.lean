/-
Instructions decoded from code words, and their listing.

Decoding needs no more than the words: every opcode has a fixed number of operand words. It never
checks what the operands hold.

* **`Instruction.decode`** — the instructions of a block, or the first word that is none;
* **`Instruction.encode`** — the words of an instruction;
* **`listing`** — one line per instruction, indented by the lists that are open.
-/
import Libretto.Numeral.Natural
import Libretto.Numeral.Single
import Libretto.Opcode.Numbering

namespace Libretto.Script

/-- A decoded instruction: its offset, the lists open at it (its own included, if it opens or closes
one), its opcode and its operand words. -/
structure Instruction where
  offset : Nat
  depth : Nat
  op : Opcode
  operands : List UInt32
  deriving DecidableEq, Repr

/-- Why words do not decode. -/
inductive DecodeError where
  | unknownOpcode (offset : Nat) (word : UInt32)
  /-- The operand words of an instruction run past the end. -/
  | truncated (offset : Nat) (op : Opcode)
  deriving DecidableEq, Repr

/-- An offset as listings show it. -/
def offsetText (offset : Nat) : String :=
  Numeral.padded 3 offset

/-- The wording of a fault in code words. -/
def DecodeError.message : DecodeError → String
  | unknownOpcode offset word =>
    offsetText offset ++ ": unknown opcode word 0x" ++ Numeral.hexadecimal word.toNat
  | truncated offset op =>
    offsetText offset ++ ": `" ++ op.name ++
      s!"` needs {op.operands.words} operand word(s) past the end of the block"

namespace Instruction

/-- The depth at an instruction, when `depth` lists are open in front of it. -/
def depthAt (depth : Nat) (op : Opcode) : Nat :=
  if op = .enter then depth + 1 else depth

/-- The depth behind an instruction that stands at `depth`. -/
def depthBehind (depth : Nat) (op : Opcode) : Nat :=
  if op = .leave then depth - 1 else depth

/-- The words of an instruction. -/
def encode (numbering : Numbering) (instruction : Instruction) : List UInt32 :=
  numbering.word instruction.op :: instruction.operands

/-- Decodes words that begin at an offset, inside of `depth` lists. -/
def decodeFrom (numbering : Numbering) (offset depth : Nat) :
    List UInt32 → Except DecodeError (List Instruction)
  | [] => .ok []
  | word :: rest =>
    match numbering.decode word with
    | none => .error (.unknownOpcode offset word)
    | some op =>
      let at_ := depthAt depth op
      match op.operands.words, rest with
      | 0, rest => do
        let behind ← decodeFrom numbering (offset + 1) (depthBehind at_ op) rest
        return ⟨offset, at_, op, []⟩ :: behind
      | 1, a :: rest => do
        let behind ← decodeFrom numbering (offset + 2) (depthBehind at_ op) rest
        return ⟨offset, at_, op, [a]⟩ :: behind
      | 2, a :: b :: rest => do
        let behind ← decodeFrom numbering (offset + 3) (depthBehind at_ op) rest
        return ⟨offset, at_, op, [a, b]⟩ :: behind
      | _, _ => .error (.truncated offset op)

/-- Decodes a whole block. -/
def decode (numbering : Numbering) (code : List UInt32) : Except DecodeError (List Instruction) :=
  decodeFrom numbering 0 0 code

/-- The text of a string id and the string itself; an id without a string shows a mark. -/
def stringText (lookup : UInt32 → Option String) (id : UInt32) : String :=
  (lookup id).getD "<?>"

/-- The text of an instruction without offset and indentation. -/
def text (lookup : UInt32 → Option String) (instruction : Instruction) : String :=
  let name := instruction.op.mnemonic
  match instruction.op.operands, instruction.operands with
  | .offset, [past] => s!"{name} <{past}>"
  | .offsets, [a, b] => s!"{name} ({a}, {b})"
  | .string, [id] => s!"{name} {id} ; " ++ stringText lookup id
  | .stringOffset, [id, offset] => s!"{name} {id} <{offset}> ; " ++ stringText lookup id
  | .number, [bits] => name ++ " " ++ (Numeral.Single.mk bits).text
  | .count, [count] => s!"{name} ({count})"
  | _, _ => name

/-- The line of an instruction in a listing. -/
def line (lookup : UInt32 → Option String) (instruction : Instruction) : String :=
  String.join (List.replicate instruction.depth "  ") ++ offsetText instruction.offset ++ ": " ++
    instruction.text lookup ++ "\n"

end Instruction

/-- The listing of a block. -/
def listing (numbering : Numbering) (lookup : UInt32 → Option String) (code : List UInt32) :
    Except DecodeError String := do
  let instructions ← Instruction.decode numbering code
  return String.join (instructions.map (Instruction.line lookup))

end Libretto.Script
