/-
Code by sizes: what an expression compiles to, computed without gaps.

The size of every subexpression is known in advance, so each forward offset is a sum of sizes.  The
words that stand for names and for literals are parameters, because a block is read under two
numberings of its strings: insertion ids while its unit compiles, write ids in a container.

* **`Expr.WellFormed`** — the expressions that compile, offsets apart;
* **`Expr.size`** — the number of code words;
* **`Expr.instructions`** — the instructions, with the offsets and depths at which they stand;
* **`Expr.names`** — the names in the order in which they enter the string table;
* **`Instruction.slots`** — the offsets of the words that hold string ids.

That the assembler emits exactly this is shown in `Libretto.Proofs.Code.Assembly`.
-/
import Libretto.Script.Assembly
import Libretto.Script.Instruction
import Mathlib.Algebra.Group.Nat.Defs

namespace Libretto.Script

/-- The offsets of the words of an instruction that hold string ids. -/
def Instruction.slots (instruction : Instruction) : List Nat :=
  match instruction.op.operands with
  | .string | .stringOffset => [instruction.offset + 1]
  | _ => []

/-- The opcode of a variadic form has an operator symbol. -/
theorem Shape.isSome_operator? {head : Expr} {op : Opcode} (h : Shape.ofHead head = .operator op) :
    op.operator?.isSome := by
  unfold Shape.ofHead at h
  split at h
  · cases h
  · next name _ =>
    split at h
    · cases h
    · next found =>
      cases h
      have symbol : op.operator? = some name := by simpa using List.find?_some found
      rw [symbol]
      rfl
    · cases h

/-- An operator symbol selects a variadic form. -/
theorem Shape.operands_of_operator {head : Expr} {op : Opcode}
    (h : Shape.ofHead head = .operator op) : op.operands = .count := by
  -- the opcodes that carry an operator symbol are those that take a count
  have symbol := Shape.isSome_operator? h
  cases op <;> first | rfl | cases symbol

namespace Expr

/-- Expressions whose lists select a form and fit it. -/
inductive WellFormed : Expr → Prop where
  | number (value : Numeral.Single) : WellFormed (number value)
  | symbol (name : String) : WellFormed (symbol name)
  | string (id : StringId) : WellFormed (string id)
  | keyword {keyword : Keyword} {head : Expr} {operands : List Expr}
      (shape : Shape.ofHead head = .keyword keyword)
      (arity : operands.length = keyword.arity)
      (leading : ∀ operand ∈ operands.take keyword.names, operand.symbol?.isSome)
      (inner : ∀ operand ∈ operands.drop keyword.names, WellFormed operand) :
      WellFormed (list (head :: operands))
  | operator {op : Opcode} {head : Expr} {operands : List Expr}
      (shape : Shape.ofHead head = .operator op)
      (inner : ∀ operand ∈ operands, WellFormed operand) :
      WellFormed (list (head :: operands))
  | call {head : Expr} {operands : List Expr}
      (shape : Shape.ofHead head = .call)
      (callee : WellFormed head)
      (inner : ∀ operand ∈ operands, WellFormed operand) :
      WellFormed (list (head :: operands))

mutual

/-- The number of code words of an expression. -/
def size : Expr → Nat
  | list [] => 0
  | list (head :: operands) =>
    match Shape.ofHead head with
    | .keyword keyword => 4 + keyword.names + keyword.gaps + operandSizes keyword.names operands
    | .operator _ => 5 + operandSizes 0 operands
    | .call => 5 + head.size + operandSizes 0 operands
  | _ => 2

/-- The number of code words of operands behind the first `names` ones. -/
def operandSizes : Nat → List Expr → Nat
  | _, [] => 0
  | names + 1, _ :: rest => operandSizes names rest
  | 0, operand :: rest => operand.size + operandSizes 0 rest

end

/-- The names that lead the operands of a keyword. -/
def leadingNames (keyword : Keyword) (operands : List Expr) : List String :=
  (operands.take keyword.names).filterMap symbol?

mutual

/-- The names in an expression, in the order in which their ids are emitted. -/
def names : Expr → List String
  | symbol name => [name]
  | list (head :: operands) =>
    match Shape.ofHead head with
    | .keyword keyword => leadingNames keyword operands ++ operandNames keyword.names operands
    | .operator _ => operandNames 0 operands
    | .call => head.names ++ operandNames 0 operands
  | _ => []

/-- The names in operands behind the first `skipped` ones. -/
def operandNames : Nat → List Expr → List String
  | _, [] => []
  | skipped + 1, _ :: rest => operandNames skipped rest
  | 0, operand :: rest => operand.names ++ operandNames 0 rest

end

/-- The offsets behind the first `gaps` of some expressions, which begin at the given offset. -/
def endOffsets (offset : Nat) : Nat → List Expr → List UInt32
  | 0, _ | _, [] => []
  | gaps + 1, operand :: rest =>
    (offset + operand.size).toUInt32 :: endOffsets (offset + operand.size) gaps rest

section

variable (name : String → UInt32) (literal : StringId → UInt32)

/-- The instruction of a keyword; its operand words are the leading name and the offsets of the
operands that are skipped to. -/
def keywordInstruction (offset depth : Nat) (keyword : Keyword) (operands : List Expr) :
    Instruction :=
  ⟨offset, depth, keyword.opcode,
    (leadingNames keyword operands).map name ++
      endOffsets (offset + 1 + keyword.names + keyword.gaps) keyword.gaps
        (operands.drop keyword.names)⟩

mutual

/-- The instructions of an expression that begins at an offset, inside of `depth` lists. -/
def instructions (offset depth : Nat) : Expr → List Instruction
  | number value => [⟨offset, depth, .number, [value.bits]⟩]
  | symbol text => [⟨offset, depth, .symbol, [name text]⟩]
  | string id => [⟨offset, depth, .string, [literal id]⟩]
  | list [] => []
  | list (head :: operands) =>
    let past := offset + (list (head :: operands)).size
    let inside := match Shape.ofHead head with
      | .keyword keyword =>
        keywordInstruction name (offset + 2) (depth + 1) keyword operands ::
          operandInstructions (offset + 3 + keyword.names + keyword.gaps) (depth + 1)
            keyword.names operands
      | .operator op =>
        ⟨offset + 2, depth + 1, op, [operands.length.toUInt32]⟩ ::
          operandInstructions (offset + 4) (depth + 1) 0 operands
      | .call =>
        ⟨offset + 2, depth + 1, .call, [operands.length.toUInt32]⟩ ::
          (head.instructions (offset + 4) (depth + 1) ++
            operandInstructions (offset + 4 + head.size) (depth + 1) 0 operands)
    ⟨offset, depth + 1, .enter, [past.toUInt32]⟩ ::
      (inside ++ [⟨past - 1, depth + 1, .leave, []⟩])

/-- The instructions of operands behind the first `names` ones. -/
def operandInstructions (offset depth : Nat) : Nat → List Expr → List Instruction
  | _, [] => []
  | names + 1, _ :: rest => operandInstructions offset depth names rest
  | 0, operand :: rest =>
    operand.instructions offset depth ++ operandInstructions (offset + operand.size) depth 0 rest

end

variable (numbering : Numbering)

/-- The code words of an expression. -/
def words (offset depth : Nat) (expr : Expr) : List UInt32 :=
  (expr.instructions name literal offset depth).flatMap (Instruction.encode numbering)

/-- The code words of operands behind the first `names` ones. -/
def operandWords (offset depth names : Nat) (operands : List Expr) : List UInt32 :=
  (operandInstructions name literal offset depth names operands).flatMap
    (Instruction.encode numbering)

end

/-! ### Operands behind the leading names -/

theorem operandSizes_eq_drop (names : Nat) (operands : List Expr) :
    operandSizes names operands = operandSizes 0 (operands.drop names) := by
  induction operands generalizing names with
  | nil => simp [operandSizes]
  | cons operand rest ih =>
    cases names with
    | zero => rfl
    | succ names => simpa [operandSizes] using ih names


theorem operandInstructions_eq_drop (name : String → UInt32) (literal : StringId → UInt32)
    (offset depth names : Nat) (operands : List Expr) :
    operandInstructions name literal offset depth names operands =
      operandInstructions name literal offset depth 0 (operands.drop names) := by
  induction operands generalizing names with
  | nil => simp [operandInstructions]
  | cons operand rest ih =>
    cases names with
    | zero => rfl
    | succ names => simpa [operandInstructions] using ih names

/-! ### Numbers of words -/

theorem length_endOffsets (offset gaps : Nat) (operands : List Expr) :
    (endOffsets offset gaps operands).length = min gaps operands.length := by
  induction gaps generalizing offset operands with
  | zero => simp [endOffsets]
  | succ gaps ih =>
    cases operands with
    | nil => simp [endOffsets]
    | cons operand rest => simp [endOffsets, ih, Nat.succ_min_succ]

theorem length_leadingNames {keyword : Keyword} {operands : List Expr}
    (arity : operands.length = keyword.arity)
    (leading : ∀ operand ∈ operands.take keyword.names, operand.symbol?.isSome) :
    (leadingNames keyword operands).length = keyword.names := by
  have enough : keyword.names ≤ operands.length := by
    rw [arity]
    cases keyword <;> decide
  rw [leadingNames, List.length_filterMap_eq_countP, List.countP_eq_length.2 leading,
    List.length_take, Nat.min_eq_left enough]

/-- Behind the names of a keyword there are more operands than gaps. -/
theorem gaps_lt_length_drop {keyword : Keyword} {operands : List Expr}
    (arity : operands.length = keyword.arity) :
    keyword.gaps < (operands.drop keyword.names).length := by
  rw [List.length_drop, arity]
  cases keyword <;> decide

/-- The instruction of a keyword has as many operand words as its opcode asks for. -/
theorem length_operands_keywordInstruction (name : String → UInt32) (offset depth : Nat)
    {keyword : Keyword} {operands : List Expr} (arity : operands.length = keyword.arity)
    (leading : ∀ operand ∈ operands.take keyword.names, operand.symbol?.isSome) :
    (keywordInstruction name offset depth keyword operands).operands.length =
      keyword.names + keyword.gaps := by
  rw [keywordInstruction, List.length_append, List.length_map,
    length_leadingNames arity leading, length_endOffsets,
    Nat.min_eq_left (Nat.le_of_lt (gaps_lt_length_drop arity))]

section

variable (name : String → UInt32) (literal : StringId → UInt32) (numbering : Numbering)

theorem length_operandWords {operands : List Expr}
    (h : ∀ operand ∈ operands, ∀ offset depth,
      (operand.words name literal numbering offset depth).length = operand.size)
    (offset depth : Nat) :
    (operandWords name literal numbering offset depth 0 operands).length =
      operandSizes 0 operands := by
  induction operands generalizing offset with
  | nil => simp [operandWords, operandInstructions, operandSizes]
  | cons operand rest ih =>
    have hrest := ih (fun operand mem => h operand (List.mem_cons_of_mem _ mem))
      (offset + operand.size)
    have hoperand := h operand List.mem_cons_self offset depth
    simp only [operandWords, words] at hrest hoperand
    rw [operandWords, operandInstructions, List.flatMap_append, List.length_append, hrest,
      hoperand, operandSizes]

/-- An expression takes as many words as its size says. -/
theorem length_words {expr : Expr} (h : expr.WellFormed) (offset depth : Nat) :
    (expr.words name literal numbering offset depth).length = expr.size := by
  induction h generalizing offset depth with
  | number value => simp [words, instructions, Instruction.encode, size]
  | symbol text => simp [words, instructions, Instruction.encode, size]
  | string id => simp [words, instructions, Instruction.encode, size]
  | @keyword keyword head operands shape arity leading _ ih =>
    have hkeyword := length_operands_keywordInstruction name (offset + 2) (depth + 1) arity leading
    have hinner := length_operandWords name literal numbering ih
      (offset + 3 + keyword.names + keyword.gaps) (depth + 1)
    -- the hypotheses speak of the operands behind the names only
    rw [operandWords, ← operandInstructions_eq_drop, ← operandSizes_eq_drop] at hinner
    simp only [words, instructions, size, shape, Instruction.encode, List.flatMap_cons,
      List.flatMap_append, List.flatMap_nil, List.length_cons, List.length_append,
      List.length_nil] at hinner ⊢
    omega
  | operator shape _ ih =>
    have hinner := length_operandWords name literal numbering ih (offset + 4) (depth + 1)
    simp only [words, operandWords, instructions, size, shape, Instruction.encode,
      List.flatMap_cons, List.flatMap_append, List.flatMap_nil, List.length_cons,
      List.length_append, List.length_nil] at hinner ⊢
    omega
  | @call head operands shape _ _ ihhead ih =>
    have hhead := ihhead (offset + 4) (depth + 1)
    have hinner := length_operandWords name literal numbering ih (offset + 4 + head.size)
      (depth + 1)
    simp only [words, operandWords, instructions, size, shape, Instruction.encode,
      List.flatMap_cons, List.flatMap_append, List.flatMap_nil, List.length_cons,
      List.length_append, List.length_nil] at hhead hinner ⊢
    omega

end

end Expr

end Libretto.Script
