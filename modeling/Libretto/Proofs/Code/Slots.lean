/-
Which words hold string ids.

The assembler notes a slot wherever it emits a string id; the decoder knows from the opcode alone
what its operand words hold.  Both agree on every word of a block:

* **`WordKind`**, **`Instruction.wordKinds`** — what a word of the code holds, by the opcode;
* **`slots_eq_filter`** — the slots of instructions, read off those that name a string;
* **`mem_slots_chain_iff`** — the slots of a chain are its words of kind `string`, and no others;
* **`slots_of_compile`** — hence so are the slots of every form that compiles.
-/
import Libretto.Proofs.Code.Assembly
import Libretto.Proofs.Code.Resolution

namespace Libretto

/-- What a single code word holds. -/
inductive WordKind where
  | opcode
  | offset
  | string
  | number
  | count
  deriving DecidableEq, Repr

/-- What the operand words hold, one by one. -/
def OperandKind.wordKinds : OperandKind → List WordKind
  | .none => []
  | .offset => [.offset]
  | .offsets => [.offset, .offset]
  | .string => [.string]
  | .stringOffset => [.string, .offset]
  | .number => [.number]
  | .count => [.count]

theorem OperandKind.length_wordKinds (kind : OperandKind) : kind.wordKinds.length = kind.words := by
  cases kind <;> rfl

end Libretto

namespace Libretto.Script

namespace Instruction

/-- What the words of an instruction hold. -/
def wordKinds (i : Instruction) : List WordKind :=
  .opcode :: i.op.operands.wordKinds

/-- The instruction names a string. -/
def namesString (i : Instruction) : Bool :=
  i.op.operands = .string || i.op.operands = .stringOffset

theorem length_wordKinds (numbering : Numbering) {i : Instruction}
    (count : i.operands.length = i.op.operands.words) :
    i.wordKinds.length = (i.encode numbering).length := by
  rw [wordKinds, encode, List.length_cons, List.length_cons, OperandKind.length_wordKinds, count]

theorem slots_eq_filter (instructions : List Instruction) :
    instructions.flatMap slots = (instructions.filter namesString).map (·.offset + 1) := by
  induction instructions with
  | nil => rfl
  | cons i rest ih =>
    rw [List.flatMap_cons, ih]
    cases kind : i.op.operands <;> simp [slots, namesString, kind]

/-- The only slot of an instruction is its word of kind `string`. -/
theorem mem_slots_iff {i : Instruction} {k : Nat} :
    k ∈ i.slots ↔ i.offset ≤ k ∧ i.wordKinds[k - i.offset]? = some .string := by
  by_cases inside : i.offset ≤ k
  · obtain ⟨n, rfl⟩ := Nat.exists_eq_add_of_le inside
    rw [Nat.add_sub_cancel_left]
    -- an opcode word and at most two operand words
    rcases n with _ | _ | _ | n <;>
      cases kind : i.op.operands <;> simp [slots, wordKinds, kind, OperandKind.wordKinds]
  · constructor
    · intro mem
      have at_slot : k = i.offset + 1 := by
        unfold slots at mem
        split at mem <;> simp_all
      omega
    · rintro ⟨h, -⟩
      exact absurd h inside

variable {offset depth past depthPast : Nat} {instructions : List Instruction}

theorem mem_slots_chain_iff (h : Chain offset depth instructions past depthPast) (k : Nat) :
    k ∈ instructions.flatMap slots ↔
      offset ≤ k ∧ (instructions.flatMap wordKinds)[k - offset]? = some .string := by
  induction h with
  | nil => simp
  | @cons offset depth past depthPast op operands rest count tail ih =>
    let first : Instruction := ⟨offset, depthAt depth op, op, operands⟩
    have length : first.wordKinds.length = 1 + operands.length := by
      rw [wordKinds, List.length_cons, OperandKind.length_wordKinds, count, Nat.add_comm]
    rw [List.flatMap_cons, List.flatMap_cons, List.mem_append, ih]
    change k ∈ first.slots ∨ _ ↔ _
    rw [mem_slots_iff]
    change offset ≤ k ∧ first.wordKinds[k - offset]? = _ ∨ _ ↔
      _ ∧ (first.wordKinds ++ _)[k - offset]? = _
    by_cases inside : k - offset < 1 + operands.length
    · -- the word belongs to the first instruction, as long as it is not in front of it
      rw [List.getElem?_append_left (by omega)]
      constructor
      · rintro (here | ⟨behind, -⟩)
        · exact here
        · omega
      · exact Or.inl
    · have none : first.wordKinds[k - offset]? = none := List.getElem?_eq_none (by omega)
      have shift : k - (offset + 1 + operands.length) = k - offset - first.wordKinds.length := by
        omega
      rw [List.getElem?_append_right (by omega), none, shift]
      constructor
      · rintro (⟨-, here⟩ | ⟨behind, kind⟩)
        · cases here
        · exact ⟨by omega, kind⟩
      · rintro ⟨-, kind⟩
        exact .inr ⟨by omega, kind⟩

end Instruction

namespace Expr

open Instruction

/-- The slots of a form that compiles are the string operands of its decoded code, in order.  Every
word of the code has a kind, and the slots are exactly the words of kind `string`, so no opcode, no
offset, no count and no number is one of them. -/
theorem slots_of_compile {numbering : Numbering} {e : Expr} {table : StringTable} {block : Block}
    (h : (e.compile numbering table).1 = .ok block) :
    ∃ instructions, decode numbering block.code.toList = .ok instructions ∧
      block.slots = (instructions.filter namesString).map (·.offset + 1) ∧
      block.slots.Pairwise (· < ·) ∧ (∀ slot ∈ block.slots, slot < block.code.size) ∧
      block.code.toList = instructions.flatMap (encode numbering) ∧
      (∀ i ∈ instructions, i.wordKinds.length = (i.encode numbering).length) ∧
      ∀ k, k ∈ block.slots ↔ (instructions.flatMap wordKinds)[k]? = some .string := by
  have emitted := assemble_emitted numbering e (assemble_of_compile (Prod.ext h rfl))
  let name := (e.compile numbering table).2.wordOf
  let instructions := e.instructions name StringId.index 0 0
  have chain : Chain 0 0 instructions (0 + e.size) 0 := chain_instructions emitted.wellFormed 0 0
  have code : block.code.toList = instructions.flatMap (encode numbering) :=
    emitted.code_eq _ (StringTable.le_refl _) 0
  have slots_eq : block.slots = instructions.flatMap slots :=
    emitted.slots_eq name StringId.index 0
  have size : block.code.size = 0 + e.size := emitted.size_eq
  refine ⟨instructions, ?_, ?_, ?_, ?_, code, ?_, ?_⟩
  · rw [code]
    exact decode_words emitted.wellFormed
  · rw [slots_eq, slots_eq_filter]
  · rw [slots_eq]
    exact pairwise_slots_chain chain
  · intro slot mem
    rw [slots_eq] at mem
    rw [size]
    exact (mem_slots_chain chain mem).2
  · exact fun i mem => length_wordKinds numbering (chain.count i mem)
  · intro k
    rw [slots_eq, mem_slots_chain_iff chain]
    simp

/-- A call with a number inside of an item assignment; the bits of the number and two ids, of
strings that the table does not hold, are opcode words, too. -/
theorem slots_of_compile_lset :
    ∃ block, ((list [symbol "lset", symbol "x", list [symbol "f", number ⟨103⟩, string ⟨106⟩],
        string ⟨100⟩]).compile .standard .empty).1 = .ok block ∧
      block.slots = [3, 10, 14, 17] ∧
      ∃ instructions, decode .standard block.code.toList = .ok instructions ∧
        block.slots = (instructions.filter namesString).map (·.offset + 1) ∧
        ∀ k, k ∈ block.slots ↔ (instructions.flatMap wordKinds)[k]? = some .string := by
  have compiled : ((list [symbol "lset", symbol "x",
      list [symbol "f", number ⟨103⟩, string ⟨106⟩], string ⟨100⟩]).compile .standard .empty).1 =
      .ok ⟨#[100, 19, 127, 0, 16, 100, 16, 124, 2, 103, 1, 105, 103, 106, 106, 101, 106, 100, 101],
        [3, 10, 14, 17]⟩ := rfl
  obtain ⟨instructions, decoded, slots, -, -, -, -, kinds⟩ := slots_of_compile compiled
  exact ⟨_, compiled, rfl, instructions, decoded, slots, kinds⟩

end Expr

end Libretto.Script
