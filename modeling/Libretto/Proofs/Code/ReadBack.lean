/-
Reading code back.

The instructions of a block say enough to rebuild its form: an atom is one instruction, and the
instruction behind the opening of a list gives its head.  Offsets and counts are not needed.

* **`Datum.opening?`** — the items that the instruction behind an opening stands for;
* **`Datum.ofCode?`** — the datum of a block, by decoding it and keeping a stack of open lists;
* **`readInside_instructions`** — the instructions of a datum put this datum on the stack, whatever
  stands there and whatever follows;
* **`ofCode?_words`** — hence reading back inverts compiling.
-/
import Libretto.Proofs.Code.Datum

namespace Libretto.Script

namespace Datum

section

variable (text? : UInt32 → Option String)

/-- The items that the instruction behind the opening of a list stands for, last item first: its
head, unless that is an expression to be called, and its name. -/
def opening? (instruction : Instruction) : Option (List Datum) :=
  match instruction.op, instruction.operands with
  | .define, id :: _ => (text? id).map fun name => [.symbol name, .symbol "defvar"]
  | .assign, id :: _ => (text? id).map fun name => [.symbol name, .symbol "set"]
  | .assignItem, id :: _ => (text? id).map fun name => [.symbol name, .symbol "lset"]
  | .item, id :: _ => (text? id).map fun name => [.symbol name, .symbol "lget"]
  | .branch, _ => some [.symbol "if"]
  | .call, _ => some []
  | op, _ => op.operator?.map fun operator => [.symbol operator]

/-- The datum of an instruction outside of brackets. -/
def atom? (instruction : Instruction) : Option Datum :=
  match instruction.op, instruction.operands with
  | .number, [bits] => some (.number ⟨bits⟩)
  | .symbol, [id] => (text? id).map .symbol
  | .string, [id] => (text? id).map .string
  | _, _ => none

/-- Reads on inside of open lists, whose items so far stand in `stack`, innermost list first and
last item first.  The last list of the stack is that of the data outside of brackets; at the end it
holds the one that was read. -/
def readInside : List (List Datum) → List Instruction → Option Datum
  | [[datum]], [] => some datum
  | _, [] => none
  | stack, i :: rest =>
    match i.op, stack, rest with
    | .enter, stack, head :: rest => do
      let items ← opening? text? head
      readInside (items :: stack) rest
    | .enter, _, [] => none
    | .leave, (item :: items) :: outer :: stack, rest =>
      readInside ((.list (item :: items).reverse :: outer) :: stack) rest
    | .leave, _, _ => none
    | _, items :: stack, rest => do
      let item ← atom? text? i
      readInside ((item :: items) :: stack) rest
    | _, [], _ => none

/-- The datum that code words stand for. -/
def ofCode? (numbering : Numbering) (code : List UInt32) : Option Datum := do
  let instructions ← (Instruction.decode numbering code).toOption
  readInside text? [[]] instructions

end

/-! ### Heads -/

theorem eq_symbol_of_keyword {head : Datum} {keyword : Keyword}
    (h : head.shape = .keyword keyword) : head = .symbol keyword.text := by
  unfold shape Shape.ofHead at h
  rw [symbol?_expr] at h
  cases hname : head.symbol? with
  | none => simp [hname] at h
  | some name =>
    obtain rfl := eq_symbol hname
    rw [hname] at h
    cases hkeyword : Keyword.ofText? name with
    | none => cases hop : Opcode.ofOperator? name <;> simp [hkeyword, hop] at h
    | some other =>
      simp only [hkeyword, Shape.keyword.injEq] at h
      have htext := List.find?_some hkeyword
      rw [← h, ← eq_of_beq htext]

theorem eq_symbol_of_operator {head : Datum} {op : Opcode} (h : head.shape = .operator op) :
    ∃ operator, op.operator? = some operator ∧ head = .symbol operator := by
  unfold shape Shape.ofHead at h
  rw [symbol?_expr] at h
  cases hname : head.symbol? with
  | none => simp [hname] at h
  | some name =>
    rw [hname] at h
    cases hkeyword : Keyword.ofText? name with
    | some other => simp [hkeyword] at h
    | none =>
      cases hop : Opcode.ofOperator? name with
      | none => simp [hkeyword, hop] at h
      | some other =>
        simp only [hkeyword, hop, Shape.operator.injEq] at h
        exact ⟨name, by simpa [h] using List.find?_some hop, eq_symbol hname⟩

section

variable {text? : UInt32 → Option String} {word : String → UInt32}

/-- The instruction of a keyword gives back the keyword and its name. -/
theorem opening?_keyword {keyword : Keyword} {head : Datum} {operands : List Datum}
    (id : String → StringId) (shape : head.shape = .keyword keyword)
    (enough : keyword.names ≤ operands.length)
    (leading : ∀ operand ∈ operands.take keyword.names, operand.symbol?.isSome)
    (known : ∀ text ∈ stringsOf operands, text? (word text) = some text) (offset depth : Nat) :
    opening? text? (Expr.keywordInstruction word offset depth keyword (exprs id operands)) =
      some ((operands.take keyword.names).reverse ++ [head]) := by
  rw [eq_symbol_of_keyword shape, Expr.keywordInstruction, leadingNames_exprs]
  cases keyword with
  | branch => rfl
  | define | assign | assignItem | item =>
    obtain ⟨first, rest, rfl⟩ := List.exists_cons_of_length_pos enough
    obtain ⟨name, hname⟩ := Option.isSome_iff_exists.1 (leading first (by simp [Keyword.names]))
    obtain rfl := eq_symbol hname
    have hknown := known name (by simp [stringsOf, strings])
    simp [Keyword.names, symbol?, Keyword.opcode, opening?, hknown, Keyword.text]

/-- The instruction of an operator gives back its symbol. -/
theorem opening?_operator (text? : UInt32 → Option String) {head : Datum} {op : Opcode}
    (shape : head.shape = .operator op) (offset depth : Nat) (operands : List UInt32) :
    opening? text? ⟨offset, depth, op, operands⟩ = some [head] := by
  obtain ⟨operator, hoperator, rfl⟩ := eq_symbol_of_operator shape
  -- keywords and calls have no operator symbol
  cases op <;> first | (cases hoperator; rfl) | cases hoperator

/-! ### The stack -/

theorem readInside_enter {head : Instruction} {items : List Datum} {stack : List (List Datum)}
    {rest : List Instruction} {offset depth : Nat} {operands : List UInt32}
    (h : opening? text? head = some items) :
    readInside text? stack (⟨offset, depth, .enter, operands⟩ :: head :: rest) =
      readInside text? (items :: stack) rest := by
  simp [readInside, h]

theorem readInside_leave {items outer : List Datum} {stack : List (List Datum)}
    {rest : List Instruction} {offset depth : Nat} {operands : List UInt32} (h : items ≠ []) :
    readInside text? (items :: outer :: stack) (⟨offset, depth, .leave, operands⟩ :: rest) =
      readInside text? ((.list items.reverse :: outer) :: stack) rest := by
  cases items with
  | nil => exact absurd rfl h
  | cons item items => simp [readInside]

theorem readInside_atom {i : Instruction} {d : Datum} {items : List Datum}
    {stack : List (List Datum)} {rest : List Instruction} (h : atom? text? i = some d) :
    readInside text? (items :: stack) (i :: rest) =
      readInside text? ((d :: items) :: stack) rest := by
  obtain ⟨offset, depth, op, operands⟩ := i
  cases op with
  | number | symbol | string => simp [readInside, h]
  | _ => simp [atom?] at h

section

variable {literal : StringId → UInt32} {id : String → StringId}

mutual

/-- The instructions of a datum put this datum on the stack. -/
theorem readInside_instructions (hword : ∀ text, literal (id text) = word text) :
    ∀ {d : Datum}, (d.expr id).WellFormed →
      (∀ text ∈ d.strings, text? (word text) = some text) →
      ∀ (offset depth : Nat) (items : List Datum) (stack : List (List Datum))
        (rest : List Instruction),
      readInside text? (items :: stack)
          ((d.expr id).instructions word literal offset depth ++ rest) =
        readInside text? ((d :: items) :: stack) rest
  | .number _, _, _, _, _, _, _, _ => readInside_atom rfl
  | .symbol name, _, known, _, _, _, _, _ => by
    refine readInside_atom ?_
    exact congrArg (Option.map Datum.symbol) (known name (by simp [strings]))
  | .string text, _, known, _, _, _, _, _ => by
    refine readInside_atom ?_
    have found := known text (by simp [strings])
    rw [← hword] at found
    exact congrArg (Option.map Datum.string) found
  | .list [], wellFormed, _, _, _, _, _, _ => nomatch wellFormed
  | .list (head :: operands), wellFormed, known, offset, depth, items, stack, rest => by
    have known' : ∀ text ∈ stringsOf operands, text? (word text) = some text :=
      fun text mem => known text (mem_strings_of_operands mem)
    rw [expr, exprs]
    cases wellFormed with
    | @keyword keyword _ _ shape arity leading inner =>
      rw [length_exprs] at arity
      have enough : keyword.names ≤ operands.length := by
        rw [arity]
        cases keyword <;> decide
      have opening := opening?_keyword id ((ofHead_expr id head).symm.trans shape) enough
        (by simpa [exprs_eq_map, ← List.map_take] using leading) known' (offset + 2) (depth + 1)
      simp only [Expr.instructions, shape, List.cons_append, List.append_assoc]
      -- the head and the names come from the opening, the other operands from what is inside
      rw [readInside_enter opening, readInside_operands hword keyword.names inner known',
        ← List.append_assoc, ← List.reverse_append, List.take_append_drop, ← List.reverse_cons,
        List.nil_append, readInside_leave (by simp), List.reverse_reverse]
    | @operator op _ _ shape inner =>
      have opening := opening?_operator text? ((ofHead_expr id head).symm.trans shape)
        (offset + 2) (depth + 1) [operands.length.toUInt32]
      simp only [Expr.instructions, shape, List.cons_append, List.append_assoc, length_exprs]
      rw [readInside_enter opening, readInside_operands hword 0 inner known', List.drop_zero,
        ← List.reverse_cons, List.nil_append, readInside_leave (by simp), List.reverse_reverse]
    | call shape callee inner =>
      have knownHead : ∀ text ∈ head.strings, text? (word text) = some text := fun text mem =>
        known text (by
          rw [strings, (ofHead_expr id head).symm.trans shape]
          exact List.mem_append_left _ mem)
      simp only [Expr.instructions, shape, List.cons_append, List.append_assoc]
      -- the opening of a call gives no item: its callee is read like an operand
      rw [readInside_enter (show _ = some [] from rfl),
        readInside_instructions hword callee knownHead, readInside_operands hword 0 inner known',
        List.drop_zero, ← List.reverse_cons, List.nil_append, readInside_leave (by simp),
        List.reverse_reverse]

theorem readInside_operands (hword : ∀ text, literal (id text) = word text) :
    ∀ (skipped : Nat) {operands : List Datum},
      (∀ operand ∈ (exprs id operands).drop skipped, operand.WellFormed) →
      (∀ text ∈ stringsOf operands, text? (word text) = some text) →
      ∀ (offset depth : Nat) (items : List Datum) (stack : List (List Datum))
        (rest : List Instruction),
      readInside text? (items :: stack)
          (Expr.operandInstructions word literal offset depth skipped (exprs id operands) ++ rest) =
        readInside text? (((operands.drop skipped).reverse ++ items) :: stack) rest
  | _, [], _, _, _, _, _, _, _ => by simp [exprs, Expr.operandInstructions]
  | skipped + 1, _ :: others, wellFormed, known, offset, depth, items, stack, rest => by
    simp only [exprs, Expr.operandInstructions, List.drop_succ_cons]
    exact readInside_operands hword skipped wellFormed
      (fun text mem => known text (List.mem_append_right _ mem)) offset depth items stack rest
  | 0, first :: others, wellFormed, known, offset, depth, items, stack, rest => by
    rw [exprs, List.drop_zero, List.forall_mem_cons] at wellFormed
    rw [exprs, Expr.operandInstructions, List.append_assoc,
      readInside_instructions hword wellFormed.1
        (fun text mem => known text (List.mem_append_left _ mem)),
      readInside_operands hword 0 wellFormed.2
        (fun text mem => known text (List.mem_append_right _ mem))]
    simp

end

end

end

/-- Code reads back as the datum that was compiled, if its words name the strings they stand for. -/
theorem ofCode?_words {numbering : Numbering} {text? : UInt32 → Option String}
    {word : String → UInt32} {literal : StringId → UInt32} {id : String → StringId}
    (hword : ∀ text, literal (id text) = word text) {d : Datum}
    (wellFormed : (d.expr id).WellFormed)
    (known : ∀ text ∈ d.strings, text? (word text) = some text) :
    ofCode? text? numbering ((d.expr id).words word literal numbering 0 0) = some d := by
  have run := readInside_instructions hword wellFormed known 0 0 [] [] []
  rw [List.append_nil] at run
  rw [ofCode?, Expr.decode_words wellFormed]
  exact run

end Datum

end Libretto.Script
