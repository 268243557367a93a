/-
Every gap is filled once.

A gap is emitted as a zero and filled when the code that it points at is about to be emitted, with
other lists compiled in between.  An assembler that refuses to fill any word but an open gap does
the same as the one that fills whatever it is told to:

* **`Assembly.fillOnce`** — fills a gap that is still open, and fails if it is not;
* **`assembleWith_fillOnce`** — no gap of an expression that compiles is filled twice;
* **`blockBySizes`**, **`compile_eq_reference`** — the block that sizes alone make is the one that
  compiles, with every gap filled once.

What is filled in is never zero, since offsets lead forward, so a word that was filled once is no
open gap any more.
-/
import Libretto.Proofs.Code.Compilation
import Libretto.Proofs.Code.Complete

namespace Libretto.Script

namespace Assembly

/-- Fills a gap with the offset that the code has reached, if the word there is an open gap. -/
def fillOnce (gap : Nat) : Assembly Unit := do
  if (← get).code[gap]? = some 0 then fill gap else throw (.tooLarge gap)

variable {a a' : Assembler}

/-- Filling an open gap. -/
theorem fillOnce_of_fill {gap : Nat} (run : fill gap a = .ok () a')
    (unfilled : a.code[gap]? = some 0) : fillOnce gap a = .ok () a' := by
  have get : (get : Assembly Assembler) a = .ok a a := rfl
  rw [fillOnce, bind_of_ok _ get, if_pos unfilled]
  exact run

/-- The gap behind the word that opens a list, while the code has only grown since. -/
theorem getElem?_gap {c : Assembler} (word : UInt32)
    (grown : a.code.toList ++ [word, 0] <+: c.code.toList) :
    c.code[a.code.size + 1]? = some 0 := by
  obtain ⟨rest, code⟩ := grown
  rw [← Array.getElem?_toList, ← code, List.append_assoc, List.getElem?_append_right (by simp)]
  simp

/-- Closing a list, whose gap is open. -/
theorem close_once (word : UInt32) {gap : Nat} {c : Assembler}
    (run : (do emit word; fill gap) c = .ok () a') (unfilled : c.code[gap]? = some 0) :
    (do emit word; fillOnce gap) c = .ok () a' := by
  rw [emit_bind] at run ⊢
  refine fillOnce_of_fill run ?_
  obtain ⟨bound, same⟩ := Array.getElem?_eq_some_iff.1 unfilled
  show (c.code.push word)[gap]? = some 0
  rw [Array.getElem?_push_lt bound, same]

end Assembly

namespace Expr

open Assembly

theorem Emitted.isPrefix {numbering : Numbering} {e : Expr} {a a' : Assembler}
    (h : Emitted numbering e a a') : a.code.toList <+: a'.code.toList :=
  ⟨_, (h.code_eq a'.table (StringTable.le_refl _) 0).symm⟩

/-- Code in front of the gaps of operands stays as it is. -/
theorem OperandsEmitted.isPrefix {numbering : Numbering} {names gaps : Nat}
    {front back : List UInt32} {operands : List Expr} {a a' : Assembler}
    (h : OperandsEmitted numbering names gaps front back operands a a') :
    front <+: a'.code.toList := by
  rw [h.code_eq a'.table (StringTable.le_refl _) 0, List.append_assoc, List.append_assoc]
  exact List.prefix_append _ _

variable (numbering : Numbering)

theorem isPrefix_opened (op : Opcode) (count : Nat) (a : Assembler) :
    a.code.toList ++ [numbering.word .enter, 0] <+: (opened numbering op count a).code.toList := by
  rw [toList_opened]
  simp

mutual

/-- An expression that compiles does so when every gap may be filled only while it is open. -/
theorem assembleWith_fillOnce : ∀ (e : Expr) {a a' : Assembler},
    e.assembleWith numbering fill a = .ok () a' → e.assembleWith numbering fillOnce a = .ok () a'
  | number _, _, _, h | string _, _, _, h | symbol _, _, _, h => h
  | list [], _, _, h => by
    rw [assembleWith] at h
    exact absurd h throw_ne_ok
  | list (head :: operands), a, a', h => by
    rw [assembleWith, emit_bind, reserve_bind] at h
    rw [assembleWith, emit_bind, reserve_bind]
    simp only [Array.size_push] at h ⊢
    cases shape : Shape.ofHead head with
    | keyword keyword =>
      simp only [shape] at h ⊢
      split at h
      · rw [bind_eq_ok] at h
        obtain ⟨_, _, h, -⟩ := h
        exact absurd h throw_ne_ok
      · next arity =>
        rw [if_neg arity]
        have arity : operands.length = keyword.arity := by simpa using arity
        rw [emit_bind, bind_eq_ok] at h
        obtain ⟨⟨⟩, b, named, h⟩ := h
        rw [bind_of_ok _ (reserveMany_apply _), bind_eq_ok] at h
        obtain ⟨⟨⟩, c, inside, close⟩ := h
        rw [emit_bind, bind_of_ok _ named, bind_of_ok _ (reserveMany_apply _)]
        rw [← Array.length_toList] at inside ⊢
        have enough := Nat.le_of_lt (gaps_lt_length_drop arity)
        have emitted := assembleOperands_emitted numbering operands keyword.names keyword.gaps
          b.code.toList [] (by simp) enough inside
        have once := assembleOperandsWith_fillOnce operands keyword.names keyword.gaps
          b.code.toList [] (by simp) enough inside
        rw [bind_of_ok _ once]
        -- the name, the gaps and the operands were emitted behind the gap
        have opened : a.code.toList ++ [numbering.word .enter, 0] <+: b.code.toList := by
          rw [(emitLeadingName_eq_ok arity named).2.2.1 b.table (StringTable.le_refl _)]
          simp
        exact close_once _ close (getElem?_gap _ (opened.trans emitted.isPrefix))
    | operator op =>
      simp only [shape] at h ⊢
      rw [emit_bind, emit_bind, bind_eq_ok] at h
      obtain ⟨⟨⟩, c, inside, close⟩ := h
      have emitted := assembleOperands_emitted numbering operands 0 0
        (opened numbering op operands.length a).code.toList [] (by simp [opened]) (by simp) inside
      have once := assembleOperandsWith_fillOnce operands 0 0
        (opened numbering op operands.length a).code.toList [] (by simp [opened]) (by simp) inside
      rw [List.range'_zero] at once
      rw [emit_bind, emit_bind, bind_of_ok _ once]
      have grown := (isPrefix_opened numbering op operands.length a).trans emitted.isPrefix
      exact close_once _ close (getElem?_gap _ grown)
    | call =>
      simp only [shape] at h ⊢
      rw [emit_bind, emit_bind, bind_eq_ok] at h
      obtain ⟨⟨⟩, b, callee, h⟩ := h
      rw [bind_eq_ok] at h
      obtain ⟨⟨⟩, c, inside, close⟩ := h
      have head_emitted := assemble_emitted numbering
        (a := opened numbering .call operands.length a) head callee
      have emitted := assembleOperands_emitted numbering operands 0 0 b.code.toList [] (by simp)
        (by simp) inside
      have once := assembleOperandsWith_fillOnce operands 0 0 b.code.toList [] (by simp) (by simp)
        inside
      rw [List.range'_zero] at once
      rw [emit_bind, emit_bind, bind_of_ok _ (assembleWith_fillOnce head callee),
        bind_of_ok _ once]
      have grown := ((isPrefix_opened numbering .call operands.length a).trans
        head_emitted.isPrefix).trans emitted.isPrefix
      exact close_once _ close (getElem?_gap _ grown)

theorem assembleOperandsWith_fillOnce : ∀ (operands : List Expr) (names gaps : Nat)
    (front back : List UInt32) {a a' : Assembler},
    a.code.toList = front ++ List.replicate gaps 0 ++ back →
    gaps ≤ (operands.drop names).length →
    assembleOperandsWith numbering fill names (List.range' front.length gaps) operands a =
      .ok () a' →
    assembleOperandsWith numbering fillOnce names (List.range' front.length gaps) operands a =
      .ok () a'
  | [], _, _, _, _, _, _, _, _, h => by
    rw [assembleOperandsWith] at h
    rw [assembleOperandsWith]
    exact h
  | _ :: rest, names + 1, gaps, front, back, _, _, code, enough, h => by
    rw [assembleOperandsWith] at h
    rw [assembleOperandsWith]
    exact assembleOperandsWith_fillOnce rest names gaps front back code (by simpa using enough) h
  | operand :: rest, 0, 0, front, back, a, a', code, enough, h => by
    rw [List.range'_zero, assembleOperandsWith, bind_eq_ok] at h
    obtain ⟨⟨⟩, b, hoperand, hrest⟩ := h
    have once := assembleOperandsWith_fillOnce rest 0 0 b.code.toList [] (by simp) (by simp) hrest
    rw [List.range'_zero, assembleOperandsWith, bind_of_ok _ (assembleWith_fillOnce _ hoperand)]
    exact once
  | operand :: rest, 0, gaps + 1, front, back, a, a', code, enough, h => by
    rw [List.range'_succ, assembleOperandsWith, bind_eq_ok] at h
    obtain ⟨⟨⟩, b, hoperand, h⟩ := h
    rw [bind_eq_ok] at h
    obtain ⟨⟨⟩, c, hfill, hrest⟩ := h
    have emitted := assemble_emitted numbering operand hoperand
    obtain ⟨-, hc⟩ := fill_eq_ok.1 hfill
    have unfilled : b.code[front.length]? = some 0 := by
      rw [← Array.getElem?_toList, emitted.toList_gap code]
      simp
    have filled : c.code = b.code.setIfInBounds front.length b.code.size.toUInt32 := by rw [hc]
    have ccode := emitted.toList_fill code b.code.size.toUInt32
    rw [← filled] at ccode
    have once := assembleOperandsWith_fillOnce rest 0 gaps _ _ ccode (by simpa using enough)
      (by simpa using hrest)
    rw [List.length_append, List.length_singleton] at once
    rw [List.range'_succ, assembleOperandsWith, bind_of_ok _ (assembleWith_fillOnce _ hoperand),
      bind_of_ok _ (fillOnce_of_fill hfill unfilled)]
    exact once

end

/-- The block of an expression by sizes, and the string table afterwards.  The names are interned
first; then every word can be written where it stands, since every offset is a sum of sizes. -/
def blockBySizes (e : Expr) (table : StringTable) : Block × StringTable :=
  let after := table.insertAll e.names
  (⟨(e.words after.wordOf StringId.index numbering 0 0).toArray,
    (e.instructions after.wordOf StringId.index 0 0).flatMap Instruction.slots⟩, after)

variable {numbering}

/-- An expression that compiles makes the block that its sizes make, with slots in increasing order.
All offsets lead forward, so no gap is left open, and every gap was open when it was filled. -/
theorem compile_eq_reference {e : Expr} {table after : StringTable} {block : Block}
    (h : e.compile numbering table = (.ok block, after)) :
    (block, after) = e.blockBySizes numbering table ∧ block.code.size = e.size ∧
      block.slots.Pairwise (· < ·) ∧
      (∃ instructions, Instruction.decode numbering block.code.toList = .ok instructions ∧
        ∀ i ∈ instructions, ∀ target ∈ i.targets, i.offset < target.toNat) ∧
      e.assembleWith numbering fillOnce ⟨#[], #[], table⟩ =
        .ok () ⟨block.code, block.slots.toArray, after⟩ := by
  have run := assemble_of_compile h
  have emitted := assemble_emitted numbering e run
  have wellFormed := emitted.wellFormed
  have table_eq : after = table.insertAll e.names := emitted.table_eq
  have code : block.code.toList = e.words after.wordOf StringId.index numbering 0 0 :=
    emitted.code_eq after (StringTable.le_refl _) 0
  have slots : block.slots =
      (e.instructions after.wordOf StringId.index 0 0).flatMap Instruction.slots :=
    emitted.slots_eq after.wordOf StringId.index 0
  have size : block.code.size = 0 + e.size := emitted.size_eq
  have chain : Instruction.Chain 0 0 (e.instructions after.wordOf StringId.index 0 0)
      (0 + e.size) 0 := chain_instructions wellFormed 0 0
  refine ⟨?_, size.trans (Nat.zero_add _), ?_, ?_, assembleWith_fillOnce numbering e run⟩
  · rw [blockBySizes, ← table_eq, ← slots, ← code]
  · rw [slots]
    exact Instruction.pairwise_slots_chain chain
  · refine ⟨_, by rw [code, decode_words wellFormed], ?_⟩
    exact (complete_instructions wellFormed 0 0 emitted.size_lt).forward chain

/-- An item assignment with a call in front of its gap: the offset past the call, `12`, and the one
past the whole, `15`, are filled in behind words that were emitted later. -/
theorem compile_eq_reference_assignItem :
    ∃ block after, (list [symbol "lset", symbol "x", list [symbol "f"], symbol "x"]).compile
        .standard .empty = (.ok block, after) ∧
      block.code = #[100, 15, 127, 0, 12, 100, 12, 124, 0, 103, 1, 101, 103, 0, 101] ∧
      (block, after) =
        (list [symbol "lset", symbol "x", list [symbol "f"], symbol "x"]).blockBySizes .standard
          .empty := by
  have compiled : (list [symbol "lset", symbol "x", list [symbol "f"], symbol "x"]).compile
      .standard .empty =
      (.ok ⟨#[100, 15, 127, 0, 12, 100, 12, 124, 0, 103, 1, 101, 103, 0, 101], [3, 10, 13]⟩,
        .ofList ["x", "f"]) := rfl
  exact ⟨_, _, compiled, rfl, (compile_eq_reference compiled).1⟩

end Expr

end Libretto.Script
