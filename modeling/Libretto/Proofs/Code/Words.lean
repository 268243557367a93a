/-
Words of one datum in several codes.

The code of a datum has two parameters, the numbering of opcodes and the words of strings, and each
of them decides over words of its own:

* **`getElem?_chain`** — two encodings of a chain agree at an offset, if they agree there on every
  instruction;
* **`slots_instructions`** — the slots are the same, whatever the words of strings are;
* **`getElem?_code_of_not_mem`** — so are the words outside of the slots;
* **`exists_text_of_mem_slots`** — a slot has a text, whose word stands there;
* **`renumbered_code`** — a numbering decides over the words at which instructions begin;
* **`Block.Renames`**, **`Block.Renumbers`** — blocks that hold one datum in two units, or under two
  numberings.
-/
import Libretto.Proofs.Code.Block
import Mathlib.Data.List.Forall2

namespace Libretto.Script

namespace Instruction

theorem slots_mapStrings (rename : UInt32 → UInt32) (i : Instruction) :
    (i.mapStrings rename).slots = i.slots := by
  unfold mapStrings
  split <;> rfl

theorem length_encode_mapStrings (numbering : Numbering) (rename : UInt32 → UInt32)
    (i : Instruction) :
    ((i.mapStrings rename).encode numbering).length = 1 + i.operands.length := by
  unfold mapStrings
  split <;> simp_all [encode, Nat.add_comm]

/-- Renaming the string of an instruction changes no word but the one at its slot. -/
theorem getElem?_encode_mapStrings (numbering : Numbering) (rename : UInt32 → UInt32)
    {i : Instruction} (count : i.operands.length = i.op.operands.words) {k : Nat}
    (le : i.offset ≤ k) (outside : k ∉ i.slots) :
    ((i.mapStrings rename).encode numbering)[k - i.offset]? =
      (i.encode numbering)[k - i.offset]? := by
  obtain ⟨id, rest, operands, slots, -, renamed⟩ | ⟨-, -, same⟩ := names_or_plain count
  · rw [slots, List.mem_singleton] at outside
    rw [renamed, encode, encode, operands]
    -- the opcode, the string, and what stands behind it
    rcases at_k : k - i.offset with _ | _ | n
    · rfl
    · omega
    · rfl
  · rw [same]

variable {offset depth past depthPast : Nat} {instructions : List Instruction}

/-- Two encodings of a chain agree at an offset, if they agree there on every instruction. -/
theorem getElem?_chain (h : Chain offset depth instructions past depthPast)
    {f g : Instruction → List UInt32}
    (lengths : ∀ i ∈ instructions, (f i).length = 1 + i.operands.length ∧
      (g i).length = 1 + i.operands.length) {k : Nat} (le : offset ≤ k)
    (agree : ∀ i ∈ instructions, i.offset ≤ k → (f i)[k - i.offset]? = (g i)[k - i.offset]?) :
    (instructions.flatMap f)[k - offset]? = (instructions.flatMap g)[k - offset]? := by
  induction h with
  | nil => rfl
  | @cons offset depth past depthPast op operands rest count tail ih =>
    rw [List.forall_mem_cons] at lengths agree
    obtain ⟨⟨left, right⟩, lengths⟩ := lengths
    obtain ⟨here, agree⟩ := agree
    rw [List.flatMap_cons, List.flatMap_cons]
    -- the offset belongs to the first instruction or to those behind it
    by_cases inside : k - offset < 1 + operands.length
    · rw [List.getElem?_append_left (left ▸ inside), List.getElem?_append_left (right ▸ inside)]
      exact here le
    · have shift : k - offset - (1 + operands.length) = k - (offset + 1 + operands.length) := by
        omega
      have behind := Nat.le_of_not_lt inside
      rw [List.getElem?_append_right (left ▸ behind), List.getElem?_append_right (right ▸ behind),
        left, right, shift]
      exact ih lengths (by omega) agree

end Instruction

/-- A list of found values, when nothing is missed. -/
theorem forall₂_of_filterMap {α β : Type} {f : α → Option β} {l : List α} {found : List β}
    (known : ∀ a ∈ l, (f a).isSome) (h : l.filterMap f = found) :
    List.Forall₂ (fun a b => f a = some b) l found := by
  subst h
  induction l with
  | nil => exact .nil
  | cons a rest ih =>
    rw [List.forall_mem_cons] at known
    obtain ⟨b, here⟩ := Option.isSome_iff_exists.1 known.1
    rw [List.filterMap_cons_some here]
    exact .cons here (ih known.2)

/-- Code under another numbering.  It has the same instructions, and differs at most where these
begin. -/
structure Renumbered (first second : Numbering) (code code' : List UInt32) : Prop where
  length : code'.length = code.length
  instructions : ∃ instructions, Instruction.decode first code = .ok instructions ∧
    Instruction.decode second code' = .ok instructions ∧
    ∀ k, (∀ i ∈ instructions, i.offset ≠ k) → code'[k]? = code[k]?

namespace Datum

open Instruction

variable {id : String → StringId} {d : Datum}

/-- The instructions without their strings, which are the same for all words. -/
theorem map_blank_instructions (wellFormed : (d.expr id).WellFormed) (word : String → UInt32) :
    (d.instructions word 0 0).map (mapStrings fun _ => 0) = d.instructions (fun _ => 0) 0 0 :=
  mapStrings_instructions wellFormed fun _ _ => rfl

theorem slots_instructions (wellFormed : (d.expr id).WellFormed) (word other : String → UInt32) :
    (d.instructions word 0 0).flatMap slots = (d.instructions other 0 0).flatMap slots := by
  have blank : ∀ word, (d.instructions word 0 0).flatMap slots =
      (d.instructions (fun _ => 0) 0 0).flatMap slots := by
    intro word
    rw [← map_blank_instructions wellFormed word, List.flatMap_map]
    simp only [slots_mapStrings]
  rw [blank, blank other]

/-- Outside of the slots no word depends on the words of strings. -/
theorem getElem?_code_of_not_mem (wellFormed : (d.expr id).WellFormed) (numbering : Numbering)
    (word other : String → UInt32) {k : Nat}
    (outside : k ∉ (d.instructions word 0 0).flatMap slots) :
    (d.code numbering word)[k]? = (d.code numbering other)[k]? := by
  -- both codes are compared with the one in which all strings have the word 0
  have blank : ∀ word, k ∉ (d.instructions word 0 0).flatMap slots →
      (d.code numbering word)[k]? = (d.code numbering fun _ => 0)[k]? := by
    intro word outside
    have chain := chain_instructions wellFormed word
    rw [code, code, ← map_blank_instructions wellFormed word, List.flatMap_map]
    refine getElem?_chain chain (fun i _ => ?_) (Nat.zero_le k) fun i mem le => ?_
    · exact ⟨Nat.add_comm _ _, length_encode_mapStrings numbering _ i⟩
    · have absent : k ∉ i.slots := fun here => outside (List.mem_flatMap.2 ⟨i, mem, here⟩)
      exact (getElem?_encode_mapStrings numbering _ (chain.count i mem) le absent).symm
  rw [blank word outside, blank other (slots_instructions wellFormed word other ▸ outside)]

/-- The words of the strings stand at the slots, in order. -/
theorem forall₂_slots (wellFormed : (d.expr id).WellFormed) (numbering : Numbering)
    (word : String → UInt32) :
    List.Forall₂ (fun slot text => (d.code numbering word)[slot]? = some (word text))
      ((d.instructions word 0 0).flatMap slots) d.strings := by
  have chain := chain_instructions wellFormed word
  have words := references_chain numbering chain [] rfl []
  rw [List.nil_append, List.append_nil, strings_instructions wellFormed word] at words
  have inside : ∀ slot ∈ (d.instructions word 0 0).flatMap slots,
      ((d.instructions word 0 0).flatMap (encode numbering))[slot]?.isSome := by
    intro slot mem
    have bound := (mem_slots_chain chain mem).2
    rw [Nat.zero_add, ← length_code numbering word wellFormed, code] at bound
    exact Option.isSome_iff_exists.2 ⟨_, List.getElem?_eq_getElem bound⟩
  have found := forall₂_of_filterMap inside words
  rwa [List.forall₂_map_right_iff] at found

/-- A slot has a text, whose word stands there. -/
theorem exists_text_of_mem_slots (wellFormed : (d.expr id).WellFormed) (numbering : Numbering)
    {word : String → UInt32} {k : Nat} (mem : k ∈ (d.instructions word 0 0).flatMap slots) :
    ∃ text ∈ d.strings, ∀ other, (d.code numbering other)[k]? = some (other text) := by
  obtain ⟨n, bound, rfl⟩ := List.getElem_of_mem mem
  have words := fun other => List.forall₂_iff_get.1 (forall₂_slots wellFormed numbering other)
  have count := (words word).1
  refine ⟨d.strings[n], List.getElem_mem (count ▸ bound), ?_⟩
  intro other
  simp only [slots_instructions wellFormed word other]
  exact (words other).2 n (by rwa [slots_instructions wellFormed other word]) (count ▸ bound)

/-- Under another numbering a datum has the same instructions. -/
theorem renumbered_code (wellFormed : (d.expr id).WellFormed) (first second : Numbering)
    (word : String → UInt32) :
    Renumbered first second (d.code first word) (d.code second word) := by
  refine ⟨?_, d.instructions word 0 0, decode_code word wellFormed, decode_code word wellFormed, ?_⟩
  · rw [length_code first word wellFormed, length_code second word wellFormed]
  · intro k inside
    have chain := chain_instructions wellFormed word
    refine getElem?_chain chain (fun i _ => ⟨Nat.add_comm _ _, Nat.add_comm _ _⟩) (Nat.zero_le k) ?_
    intro i mem le
    -- an operand word, as the opcode stands at another offset
    have ne := inside i mem
    obtain ⟨n, at_k⟩ : ∃ n, k - i.offset = n + 1 := ⟨k - i.offset - 1, by omega⟩
    rw [encode, encode, at_k, List.getElem?_cons_succ, List.getElem?_cons_succ]

end Datum

namespace Block

/-- The same block in another unit.  It differs at its slots alone, and there both blocks name one
text. -/
structure Renames (table other : StringTable) (block block' : Block) : Prop where
  size : block'.code.size = block.code.size
  slots : block'.slots = block.slots
  others : ∀ k ∉ block.slots, block'.code[k]? = block.code[k]?
  names : ∀ k ∈ block.slots, ∃ text, block.code[k]?.bind table.lookup = some text ∧
    block'.code[k]?.bind other.lookup = some text

/-- The same block under another numbering. -/
structure Renumbers (first second : Numbering) (block block' : Block) : Prop where
  slots : block'.slots = block.slots
  code : Renumbered first second block.code.toList block'.code.toList

variable {block block' : Block} {numbering first second : Numbering} {table other : StringTable}
  {d : Datum}

theorem Holds.getElem?_code (h : block.Holds numbering table d) (k : Nat) :
    block.code[k]? = (d.code numbering table.wordOf)[k]? := by
  rw [← h.code_eq, Array.getElem?_toList]

theorem Holds.renames (h : block.Holds numbering table d) (h' : block'.Holds numbering other d)
    (small : table.size ≤ 2 ^ 32) (small' : other.size ≤ 2 ^ 32) :
    block.Renames table other block' := by
  refine ⟨?_, ?_, ?_, ?_⟩
  · rw [h.size_eq table.wordOf, h'.size_eq table.wordOf]
  · rw [h.slots_eq, h'.slots_eq, Datum.slots_instructions h.wellFormed]
  · intro k outside
    rw [h.slots_eq] at outside
    rw [h.getElem?_code, h'.getElem?_code]
    exact (Datum.getElem?_code_of_not_mem h.wellFormed numbering _ _ outside).symm
  · intro k mem
    rw [h.slots_eq] at mem
    obtain ⟨text, among, word⟩ := Datum.exists_text_of_mem_slots h.wellFormed numbering mem
    refine ⟨text, ?_, ?_⟩
    · rw [h.getElem?_code, word]
      exact StringTable.get?_idOf small (h.known text among)
    · rw [h'.getElem?_code, word]
      exact StringTable.get?_idOf small' (h'.known text among)

theorem Holds.renumbers (h : block.Holds first table d) (h' : block'.Holds second table d) :
    block.Renumbers first second block' := by
  refine ⟨?_, ?_⟩
  · rw [h.slots_eq, h'.slots_eq]
  · rw [h.code_eq, h'.code_eq]
    exact Datum.renumbered_code h.wellFormed first second table.wordOf

end Block

end Libretto.Script
