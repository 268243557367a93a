/-
Instructions in a row, and decoding them.

A *chain* is a list of instructions that stand one behind the other: every offset is the number of
words in front, every depth the number of open lists, every opcode has its number of operand words.

* **`Chain.append`**, **`Chain.split`** — chains compose, and come apart;
* **`decodeFrom_chain`** — the words of a chain decode to the chain, whatever follows them;
* **`chain_instructions`** — the instructions of a well-formed expression are a chain, from any
  offset and at any depth;
* **`decode_words`** — hence its code decodes to them.

Decoding needs the opcode alone to know where an instruction ends, so the words that stand for
names, literals and offsets are arbitrary here.
-/
import Libretto.Proofs.Code.Reference

namespace Libretto.Script

namespace Instruction

/-- Instructions that stand one behind the other, from an offset and a depth on; the last two
numbers are the offset and the depth behind them. -/
inductive Chain : Nat → Nat → List Instruction → Nat → Nat → Prop where
  | nil (offset depth : Nat) : Chain offset depth [] offset depth
  | cons {offset depth past depthPast : Nat} {op : Opcode} {operands : List UInt32}
      {rest : List Instruction} (count : operands.length = op.operands.words)
      (tail : Chain (offset + 1 + operands.length) (depthBehind (depthAt depth op) op) rest
        past depthPast) :
      Chain offset depth (⟨offset, depthAt depth op, op, operands⟩ :: rest) past depthPast

variable {offset depth middle depthMiddle past depthPast : Nat}

theorem Chain.append {front back : List Instruction}
    (hfront : Chain offset depth front middle depthMiddle)
    (hback : Chain middle depthMiddle back past depthPast) :
    Chain offset depth (front ++ back) past depthPast := by
  induction hfront with
  | nil => exact hback
  | cons count _ ih => exact .cons count (ih hback)

theorem Chain.past_eq {instructions : List Instruction} {past' : Nat}
    (h : Chain offset depth instructions past depthPast) (eq : past = past') :
    Chain offset depth instructions past' depthPast :=
  eq ▸ h

/-- The first instruction of a chain, and the chain behind it. -/
theorem Chain.uncons {i : Instruction} {rest : List Instruction}
    (h : Chain offset depth (i :: rest) past depthPast) :
    i.offset = offset ∧ i.depth = depthAt depth i.op ∧ i.operands.length = i.op.operands.words ∧
      Chain (offset + 1 + i.operands.length) (depthBehind (depthAt depth i.op) i.op) rest past
        depthPast := by
  cases h with
  | cons count tail => exact ⟨rfl, rfl, count, tail⟩

theorem Chain.split {front back : List Instruction}
    (h : Chain offset depth (front ++ back) past depthPast) :
    ∃ middle depthMiddle, Chain offset depth front middle depthMiddle ∧
      Chain middle depthMiddle back past depthPast := by
  induction front generalizing offset depth with
  | nil => exact ⟨offset, depth, .nil _ _, h⟩
  | cons i front ih =>
    cases h with
    | cons count tail =>
      obtain ⟨middle, depthMiddle, hfront, hback⟩ := ih tail
      exact ⟨middle, depthMiddle, .cons count hfront, hback⟩

/-- The first of some instructions stands at their beginning. -/
theorem Chain.exists_offset {instructions : List Instruction}
    (h : Chain offset depth instructions past depthPast) (nonempty : instructions ≠ []) :
    ∃ i ∈ instructions, i.offset = offset := by
  cases instructions with
  | nil => exact absurd rfl nonempty
  | cons i rest => exact ⟨i, List.mem_cons_self, h.uncons.1⟩

theorem Chain.le {instructions : List Instruction}
    (h : Chain offset depth instructions past depthPast) : offset ≤ past := by
  induction h with
  | nil => exact Nat.le_refl _
  | cons _ _ ih => omega

/-- No instruction of a chain stands in front of it. -/
theorem Chain.offset_le {instructions : List Instruction}
    (h : Chain offset depth instructions past depthPast) : ∀ i ∈ instructions,
      offset ≤ i.offset := by
  induction h with
  | nil => simp
  | cons _ _ ih =>
    rw [List.forall_mem_cons]
    refine ⟨Nat.le_refl _, ?_⟩
    intro i mem
    have behind := ih i mem
    omega

/-- Every instruction of a chain has the operand words that its opcode asks for. -/
theorem Chain.count {instructions : List Instruction}
    (h : Chain offset depth instructions past depthPast) : ∀ i ∈ instructions,
      i.operands.length = i.op.operands.words := by
  induction h with
  | nil => simp
  | cons count _ ih => exact List.forall_mem_cons.2 ⟨count, ih⟩

/-- An instruction that neither opens nor closes a list leaves the depth as it is. -/
theorem chain_inside {op : Opcode} {operands : List UInt32}
    (count : operands.length = op.operands.words) (enter : op ≠ .enter) (leave : op ≠ .leave) :
    Chain offset depth [⟨offset, depth, op, operands⟩] (offset + 1 + operands.length) depth := by
  have h : Chain offset depth [⟨offset, depthAt depth op, op, operands⟩] _ _ :=
    .cons count (.nil _ _)
  rwa [depthBehind, if_neg leave, depthAt, if_neg enter] at h

/-- Brackets around a chain. -/
theorem chain_bracket {inside : List Instruction} {word : UInt32}
    (h : Chain (offset + 2) (depth + 1) inside (past - 1) (depth + 1)) (hpast : 0 < past) :
    Chain offset depth
      (⟨offset, depth + 1, .enter, [word]⟩ ::
        (inside ++ [⟨past - 1, depth + 1, .leave, []⟩])) past depth := by
  have leave : Chain (past - 1) (depth + 1) [⟨past - 1, depthAt (depth + 1) .leave, .leave, []⟩]
      (past - 1 + 1) (depthBehind (depthAt (depth + 1) .leave) .leave) := .cons rfl (.nil _ _)
  rw [Nat.sub_add_cancel hpast] at leave
  have enter : Chain offset depth [⟨offset, depthAt depth .enter, .enter, [word]⟩] (offset + 2)
      (depthBehind (depthAt depth .enter) .enter) := .cons rfl (.nil _ _)
  exact enter.append (h.append leave)

/-- A chain decodes, whatever follows it. -/
theorem decodeFrom_chain (numbering : Numbering) {instructions : List Instruction}
    (h : Chain offset depth instructions past depthPast) (rest : List UInt32) :
    decodeFrom numbering offset depth (instructions.flatMap (encode numbering) ++ rest) =
      (decodeFrom numbering past depthPast rest).map (instructions ++ ·) := by
  induction h with
  | nil offset depth =>
    rw [List.flatMap_nil, List.nil_append]
    cases decodeFrom numbering offset depth rest <;> rfl
  | @cons offset depth past depthPast op operands more count _ ih =>
    rw [List.flatMap_cons, encode, List.cons_append, List.cons_append, List.append_assoc,
      decodeFrom, Numbering.decode_word]
    -- decoding splits on the operand words it is given: an opcode has at most two
    have few : operands.length ≤ 2 := by
      rw [count]
      cases op.operands <;> decide
    rcases operands with _ | ⟨a, _ | ⟨b, _ | ⟨c, others⟩⟩⟩
    case cons.cons.cons => exact absurd few (by simp)
    all_goals
      simp only [← count, List.length_cons, List.length_nil, Nat.add_zero, List.cons_append,
        List.nil_append] at ih ⊢
      rw [ih]
      cases decodeFrom numbering past depthPast rest <;> rfl

end Instruction

namespace Expr

open Instruction

variable {name : String → UInt32} {literal : StringId → UInt32} {numbering : Numbering}

theorem chain_operandInstructions {operands : List Expr}
    (h : ∀ operand ∈ operands, ∀ offset depth, Chain offset depth
      (operand.instructions name literal offset depth) (offset + operand.size) depth)
    (offset depth : Nat) :
    Chain offset depth (operandInstructions name literal offset depth 0 operands)
      (offset + operandSizes 0 operands) depth := by
  induction operands generalizing offset with
  | nil => exact .nil offset depth
  | cons operand rest ih =>
    have hrest := ih (fun operand mem => h operand (List.mem_cons_of_mem _ mem))
      (offset + operand.size)
    rw [operandInstructions, operandSizes, ← Nat.add_assoc]
    exact (h operand List.mem_cons_self offset depth).append hrest

/-- The instructions of a well-formed expression stand one behind the other. -/
theorem chain_instructions {expr : Expr} (h : expr.WellFormed) (offset depth : Nat) :
    Chain offset depth (expr.instructions name literal offset depth) (offset + expr.size)
      depth := by
  induction h generalizing offset depth with
  | number value => exact chain_inside rfl (by decide) (by decide)
  | symbol text => exact chain_inside rfl (by decide) (by decide)
  | string id => exact chain_inside rfl (by decide) (by decide)
  | @keyword keyword head operands shape arity leading _ ih =>
    have count := length_operands_keywordInstruction name (offset + 2) (depth + 1) arity leading
    have selects : Chain (offset + 2) (depth + 1)
        [keywordInstruction name (offset + 2) (depth + 1) keyword operands]
        (offset + 3 + keyword.names + keyword.gaps) (depth + 1) :=
      (chain_inside (count.trans (by cases keyword <;> rfl)) (by cases keyword <;> decide)
        (by cases keyword <;> decide)).past_eq
          ((congrArg (offset + 2 + 1 + ·) count).trans (by omega))
    have inner := chain_operandInstructions ih
      (offset + 3 + keyword.names + keyword.gaps) (depth + 1)
    rw [← operandSizes_eq_drop, ← operandInstructions_eq_drop] at inner
    simp only [instructions, shape]
    refine chain_bracket ((selects.append inner).past_eq ?_) ?_ <;> simp only [size, shape] <;>
      omega
  | @operator op head operands shape _ ih =>
    -- an opcode that takes a count is no bracket
    have plain := Shape.operands_of_operator shape
    have selects : Chain (offset + 2) (depth + 1)
        [⟨offset + 2, depth + 1, op, [operands.length.toUInt32]⟩] (offset + 4) (depth + 1) :=
      chain_inside (by rw [plain]; rfl) (by rintro rfl; cases plain) (by rintro rfl; cases plain)
    have inner := chain_operandInstructions ih (offset + 4) (depth + 1)
    simp only [instructions, shape]
    refine chain_bracket ((selects.append inner).past_eq ?_) ?_ <;> simp only [size, shape] <;>
      omega
  | @call head operands shape _ _ callee ih =>
    have selects : Chain (offset + 2) (depth + 1)
        [⟨offset + 2, depth + 1, .call, [operands.length.toUInt32]⟩] (offset + 4) (depth + 1) :=
      chain_inside rfl (by decide) (by decide)
    have inner := chain_operandInstructions ih (offset + 4 + head.size) (depth + 1)
    have inside := selects.append ((callee (offset + 4) (depth + 1)).append inner)
    simp only [instructions, shape]
    refine chain_bracket (inside.past_eq ?_) ?_ <;> simp only [size, shape] <;> omega

/-- The code of a well-formed expression decodes to its instructions. -/
theorem decode_words {expr : Expr} (h : expr.WellFormed) :
    decode numbering (expr.words name literal numbering 0 0) =
      .ok (expr.instructions name literal 0 0) := by
  have chain : Chain 0 0 (expr.instructions name literal 0 0) (0 + expr.size) 0 :=
    chain_instructions h 0 0
  have run := decodeFrom_chain numbering chain []
  rw [List.append_nil, decodeFrom] at run
  simpa [decode, words, Except.map] using run

end Expr

end Libretto.Script
