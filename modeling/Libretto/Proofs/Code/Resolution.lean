/-
Slots, and what resolving them does.

The slots of a chain are the offsets of the words that name strings, so resolving a block renames
exactly these words and keeps every other one:

* **`pairwise_slots_chain`**, **`mem_slots_chain`** — the slots of a chain increase and stand inside
  of it;
* **`references_chain`** — the words at the slots of a chain name its strings, in order;
* **`resolve_chain`** — resolving the slots of a chain renames its strings;
* **`Block.resolve_eq_ok`** — resolving any block changes words at its slots only;
* **`mapStrings_instructions`** — renaming the strings of an expression's instructions is the same
  as compiling it with other words for names and literals.
-/
import Libretto.Proofs.Code.Decoding

namespace Libretto.Script

namespace Block

variable {ids : WriteIds} {code resolved : Array UInt32}

theorem resolveSlot_eq_ok {slot : Nat} (h : resolveSlot ids code slot = .ok resolved) :
    resolved.size = code.size ∧ ∀ k ≠ slot, resolved[k]? = code[k]? := by
  rw [resolveSlot] at h
  split at h
  · cases h
    exact ⟨rfl, fun _ _ => rfl⟩
  · split at h
    · cases h
    · cases h
      exact ⟨Array.size_setIfInBounds, fun k ne => Array.getElem?_setIfInBounds_ne ne.symm⟩

theorem resolveSlots_eq_ok {slots : List Nat}
    (h : slots.foldlM (resolveSlot ids) code = .ok resolved) :
    resolved.size = code.size ∧ ∀ k ∉ slots, resolved[k]? = code[k]? := by
  induction slots generalizing code with
  | nil =>
    cases h
    exact ⟨rfl, fun _ _ => rfl⟩
  | cons slot rest ih =>
    rw [List.foldlM_cons] at h
    cases first : resolveSlot ids code slot with
    | error e =>
      rw [first] at h
      cases h
    | ok middle =>
      rw [first] at h
      obtain ⟨size, same⟩ := ih h
      obtain ⟨firstSize, firstSame⟩ := resolveSlot_eq_ok first
      refine ⟨size.trans firstSize, ?_⟩
      intro k mem
      rw [List.mem_cons, not_or] at mem
      rw [same k mem.2, firstSame k mem.1]

/-- Resolving changes words at slots only. -/
theorem resolve_eq_ok {block : Block} (h : block.resolve ids = .ok resolved) :
    resolved.size = block.code.size ∧ ∀ k ∉ block.slots, resolved[k]? = block.code[k]? :=
  resolveSlots_eq_ok h

end Block

namespace Instruction

/-- The operand words of an instruction that name strings. -/
def strings (instruction : Instruction) : List UInt32 :=
  match instruction.op.operands with
  | .string | .stringOffset => instruction.operands.take 1
  | _ => []

/-- The instruction with its strings renamed. -/
def mapStrings (rename : UInt32 → UInt32) (instruction : Instruction) : Instruction :=
  match instruction.op.operands, instruction.operands with
  | .string, id :: rest | .stringOffset, id :: rest =>
    { instruction with operands := rename id :: rest }
  | _, _ => instruction

/-- An instruction either names a string in its first operand word, or has no slot at all. -/
theorem names_or_plain {i : Instruction} (count : i.operands.length = i.op.operands.words) :
    (∃ id rest, i.operands = id :: rest ∧ i.slots = [i.offset + 1] ∧ i.strings = [id] ∧
      ∀ rename, i.mapStrings rename = { i with operands := rename id :: rest }) ∨
    (i.slots = [] ∧ i.strings = [] ∧ ∀ rename, i.mapStrings rename = i) := by
  cases kind : i.op.operands with
  | string | stringOffset =>
    cases operands : i.operands with
    | nil => simp [kind, operands, OperandKind.words] at count
    | cons id rest =>
      exact .inl ⟨id, rest, rfl, by simp [slots, kind], by simp [strings, kind, operands],
        fun rename => by simp [mapStrings, kind, operands]⟩
  | none | offset | offsets | number | count =>
    exact .inr ⟨by simp [slots, kind], by simp [strings, kind], fun rename => by
      simp [mapStrings, kind]⟩

/-- The words at the slots of one instruction, wherever it stands. -/
theorem references_encode (numbering : Numbering) {i : Instruction}
    (count : i.operands.length = i.op.operands.words) {front : List UInt32}
    (start : front.length = i.offset) (back : List UInt32) :
    i.slots.filterMap (fun slot => (front ++ (i.encode numbering ++ back))[slot]?) = i.strings := by
  obtain ⟨id, more, operands, hslots, hstrings, -⟩ | ⟨hslots, hstrings, -⟩ := names_or_plain count
  · have hid : (front ++ (i.encode numbering ++ back))[i.offset + 1]? = some id := by
      rw [List.getElem?_append_right (by omega), encode, operands]
      simp [start]
    rw [hslots, hstrings, List.filterMap_cons_some hid, List.filterMap_nil]
  · rw [hslots, hstrings, List.filterMap_nil]

/-- Resolving the slots of one instruction renames its string. -/
theorem resolve_encode (numbering : Numbering) {ids : WriteIds} {rename : UInt32 → UInt32}
    {i : Instruction} (count : i.operands.length = i.op.operands.words)
    (known : ∀ id ∈ i.strings, ids.writeId? ⟨id⟩ = some (rename id)) {front : List UInt32}
    (start : front.length = i.offset) (back : List UInt32) :
    i.slots.foldlM (Block.resolveSlot ids) (front ++ (i.encode numbering ++ back)).toArray =
      .ok (front ++ ((i.mapStrings rename).encode numbering ++ back)).toArray := by
  obtain ⟨id, more, operands, hslots, hstrings, hmap⟩ | ⟨hslots, -, hmap⟩ := names_or_plain count
  · -- the word at the slot is the id, behind the opcode
    have hid : (front ++ (i.encode numbering ++ back)).toArray[i.offset + 1]? = some id := by
      rw [List.getElem?_toArray, List.getElem?_append_right (by omega), encode, operands]
      simp [start]
    have hset : (front ++ (i.encode numbering ++ back)).toArray.setIfInBounds (i.offset + 1)
        (rename id) = (front ++ ((i.mapStrings rename).encode numbering ++ back)).toArray := by
      rw [hmap, encode, encode, operands]
      simp [← start]
    have hid' := known id (by simp [hstrings])
    rw [hslots, List.foldlM_cons, Block.resolveSlot, hid]
    simp only [hid', hset]
    rfl
  · rw [hslots, hmap]
    rfl

variable {offset depth past depthPast : Nat} {instructions : List Instruction}

/-- The slots of a chain stand inside of it. -/
theorem mem_slots_chain (h : Chain offset depth instructions past depthPast) {slot : Nat}
    (mem : slot ∈ instructions.flatMap slots) : offset < slot ∧ slot < past := by
  induction h with
  | nil => simp at mem
  | @cons offset depth past depthPast op operands rest count tail ih =>
    have le := tail.le
    rw [List.flatMap_cons, List.mem_append] at mem
    rcases mem with mem | mem
    · obtain ⟨id, more, hoperands, hslots, -⟩ | ⟨hslots, -⟩ :=
        names_or_plain (i := ⟨offset, depthAt depth op, op, operands⟩) count
      · -- the string is an operand word, which the chain has room for
        obtain rfl : operands = id :: more := hoperands
        obtain rfl : slot = offset + 1 := by simpa [hslots] using mem
        rw [List.length_cons] at le
        omega
      · simp [hslots] at mem
    · have behind := ih mem
      omega

/-- The slots of a chain increase. -/
theorem pairwise_slots_chain (h : Chain offset depth instructions past depthPast) :
    (instructions.flatMap slots).Pairwise (· < ·) := by
  induction h with
  | nil => exact .nil
  | @cons offset depth past depthPast op operands rest count tail ih =>
    rw [List.flatMap_cons]
    obtain ⟨id, more, hoperands, hslots, -⟩ | ⟨hslots, -⟩ :=
      names_or_plain (i := ⟨offset, depthAt depth op, op, operands⟩) count
    · obtain rfl : operands = id :: more := hoperands
      rw [hslots, List.singleton_append, List.pairwise_cons]
      refine ⟨?_, ih⟩
      intro slot mem
      have behind := (mem_slots_chain tail mem).1
      rw [List.length_cons] at behind
      show offset + 1 < slot
      omega
    · rw [hslots]
      exact ih

/-- The words at the slots of a chain are the words that name its strings. -/
theorem references_chain (numbering : Numbering)
    (h : Chain offset depth instructions past depthPast) (front : List UInt32)
    (start : front.length = offset) (back : List UInt32) :
    (instructions.flatMap slots).filterMap
        (fun slot => (front ++ (instructions.flatMap (encode numbering) ++ back))[slot]?) =
      instructions.flatMap strings := by
  induction h generalizing front with
  | nil => rfl
  | @cons offset depth past depthPast op operands rest count _ ih =>
    have hfirst := references_encode numbering (i := ⟨offset, depthAt depth op, op, operands⟩)
      count start (rest.flatMap (encode numbering) ++ back)
    have hrest := ih (front ++ numbering.word op :: operands) (by simp [start]; omega)
    -- every slot is looked up in the whole block, so the words in front move into `front`
    simp only [encode, List.flatMap_cons, List.filterMap_append,
      List.append_assoc] at hfirst hrest ⊢
    rw [hfirst, hrest]

/-- Resolving the slots of a chain renames its strings and keeps all other words. -/
theorem resolve_chain (numbering : Numbering) {ids : WriteIds} (rename : UInt32 → UInt32)
    (h : Chain offset depth instructions past depthPast)
    (known : ∀ id ∈ instructions.flatMap strings, ids.writeId? ⟨id⟩ = some (rename id))
    (front : List UInt32) (start : front.length = offset) (back : List UInt32) :
    (instructions.flatMap slots).foldlM (Block.resolveSlot ids)
        (front ++ (instructions.flatMap (encode numbering) ++ back)).toArray =
      .ok (front ++ ((instructions.map (mapStrings rename)).flatMap (encode numbering) ++
        back)).toArray := by
  induction h generalizing front with
  | nil => rfl
  | @cons offset depth past depthPast op operands rest count _ ih =>
    rw [List.flatMap_cons] at known
    have hfirst := resolve_encode numbering (i := ⟨offset, depthAt depth op, op, operands⟩) count
      (fun id mem => known id (List.mem_append_left _ mem)) start
      (rest.flatMap (encode numbering) ++ back)
    -- the instruction keeps its length, so the rest still begins where the chain says
    have hlength : ((mapStrings rename ⟨offset, depthAt depth op, op, operands⟩).encode
        numbering).length = 1 + operands.length := by
      obtain ⟨id, more, rfl, -, -, hmap⟩ | ⟨-, -, hmap⟩ :=
        names_or_plain (i := ⟨offset, depthAt depth op, op, operands⟩) count
      · simp [hmap, encode]
        omega
      · simp [hmap, encode]
        omega
    have hrest := ih (fun id mem => known id (List.mem_append_right _ mem))
      (front ++ (mapStrings rename ⟨offset, depthAt depth op, op, operands⟩).encode numbering)
      (by rw [List.length_append, hlength, start]; omega)
    simp only [List.append_assoc, List.flatMap_cons, List.foldlM_append, List.map_cons,
      hfirst] at hrest ⊢
    exact hrest

end Instruction

namespace Expr

open Instruction

variable {name : String → UInt32} {literal : StringId → UInt32} {rename : UInt32 → UInt32}

/-- The leading name of a keyword is the only operand of it that names a string. -/
theorem mapStrings_keywordInstruction {keyword : Keyword} {operands : List Expr}
    (arity : operands.length = keyword.arity)
    (leading : ∀ operand ∈ operands.take keyword.names, operand.symbol?.isSome)
    (offset depth : Nat) :
    (keywordInstruction name offset depth keyword operands).mapStrings rename =
      keywordInstruction (rename ∘ name) offset depth keyword operands := by
  have hlength := length_leadingNames arity leading
  unfold keywordInstruction
  generalize leadingNames keyword operands = names at hlength
  cases keyword with
  | branch =>
    obtain rfl : names = [] := List.length_eq_zero_iff.1 hlength
    rfl
  | define | assign | assignItem | item =>
    obtain ⟨name, rfl⟩ := List.length_eq_one_iff.1 hlength
    rfl

theorem mapStrings_operandInstructions {operands : List Expr}
    (h : ∀ operand ∈ operands, ∀ offset depth,
      (operand.instructions name literal offset depth).map (mapStrings rename) =
        operand.instructions (rename ∘ name) (rename ∘ literal) offset depth)
    (offset depth : Nat) :
    (operandInstructions name literal offset depth 0 operands).map (mapStrings rename) =
      operandInstructions (rename ∘ name) (rename ∘ literal) offset depth 0 operands := by
  induction operands generalizing offset with
  | nil => rfl
  | cons operand rest ih =>
    rw [operandInstructions, operandInstructions, List.map_append,
      h operand List.mem_cons_self offset depth,
      ih fun operand mem => h operand (List.mem_cons_of_mem _ mem)]

/-- An operator takes a count, which no renaming touches. -/
theorem mapStrings_operator {op : Opcode} (kind : op.operands = .count) (offset depth : Nat)
    (operands : List UInt32) :
    mapStrings rename ⟨offset, depth, op, operands⟩ = ⟨offset, depth, op, operands⟩ := by
  simp [mapStrings, kind]

/-- Renaming the strings of the code is compiling with other words for names and literals. -/
theorem mapStrings_instructions {expr : Expr} (h : expr.WellFormed) (offset depth : Nat) :
    (expr.instructions name literal offset depth).map (mapStrings rename) =
      expr.instructions (rename ∘ name) (rename ∘ literal) offset depth := by
  induction h generalizing offset depth with
  | number value => rfl
  | symbol text => rfl
  | string id => rfl
  | @keyword keyword head operands shape arity leading _ ih =>
    have inner := mapStrings_operandInstructions ih
      (offset + 3 + keyword.names + keyword.gaps) (depth + 1)
    rw [← operandInstructions_eq_drop, ← operandInstructions_eq_drop] at inner
    simp only [instructions, shape, List.map_cons, List.map_append, List.map_nil, inner,
      mapStrings_keywordInstruction arity leading]
    rfl
  | operator shape _ ih =>
    simp only [instructions, shape, List.map_cons, List.map_append, List.map_nil,
      mapStrings_operandInstructions ih, mapStrings_operator (Shape.operands_of_operator shape)]
    rfl
  | call shape _ _ callee ih =>
    simp only [instructions, shape, List.map_cons, List.map_append, List.map_nil,
      mapStrings_operandInstructions ih, callee]
    rfl

end Expr

end Libretto.Script
