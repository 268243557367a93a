/-
Blocks of data.

A block is made under a table that is still growing, and read under the final table of its unit, or
under write ids.  `block.Holds numbering table datum` says what all these readings share: the words
are the code of the datum, and every string stands in the table.

* **`Holds.mono`** — a block holds the same datum in every later table;
* **`Holds.references_eq`** — it refers to the strings of the datum, in order;
* **`Holds.resolve_eq`** — with write ids for these strings it resolves to the code of the datum
  under write ids;
* **`compile_holds`** — the block of an expression holds its datum.
-/
import Libretto.Proofs.Code.Assembly
import Libretto.Proofs.Code.ReadBack

namespace Libretto.Script

namespace Datum

/-- The code words of a datum, with the given words for its strings. -/
def code (numbering : Numbering) (word : String → UInt32) (d : Datum) : List UInt32 :=
  (d.instructions word 0 0).flatMap (Instruction.encode numbering)

theorem code_congr (numbering : Numbering) {word other : String → UInt32} {d : Datum}
    (h : ∀ text ∈ d.strings, word text = other text) :
    d.code numbering word = d.code numbering other := by
  rw [code, instructions_eq_of_words h, code]

/-- The code of a datum has the size of its expression, whatever the words of its strings. -/
theorem length_code (numbering : Numbering) (word : String → UInt32) {id : String → StringId}
    {d : Datum} (wellFormed : (d.expr id).WellFormed) :
    (d.code numbering word).length = (d.expr id).size := by
  rw [← size_expr (fun text => ⟨word text⟩) id d]
  exact Expr.length_words word StringId.index numbering (wellFormed_expr _ wellFormed) 0 0

/-- The code of a datum decodes to its instructions. -/
theorem decode_code {numbering : Numbering} (word : String → UInt32) {id : String → StringId}
    {d : Datum} (wellFormed : (d.expr id).WellFormed) :
    Instruction.decode numbering (d.code numbering word) = .ok (d.instructions word 0 0) :=
  Expr.decode_words (wellFormed_expr _ wellFormed)

/-- The instructions of a datum, one behind the other. -/
theorem chain_instructions {id : String → StringId} {d : Datum}
    (wellFormed : (d.expr id).WellFormed) (word : String → UInt32) :
    Instruction.Chain 0 0 (d.instructions word 0 0) (0 + (d.expr id).size) 0 := by
  rw [← size_expr (fun text => ⟨word text⟩) id d]
  exact Expr.chain_instructions (wellFormed_expr _ wellFormed) 0 0

theorem strings_instructions {id : String → StringId} {d : Datum}
    (wellFormed : (d.expr id).WellFormed) (word : String → UInt32) :
    (d.instructions word 0 0).flatMap Instruction.strings = d.strings.map word := by
  have wellFormed := wellFormed_expr (fun text => ⟨word text⟩) wellFormed
  refine strings_instructions_expr ?_ wellFormed 0 0
  exact fun _ => rfl

/-- Renaming the words of strings is writing other words for them. -/
theorem mapStrings_instructions {id : String → StringId} {d : Datum} {rename : UInt32 → UInt32}
    {word other : String → UInt32} (wellFormed : (d.expr id).WellFormed)
    (h : ∀ text ∈ d.strings, rename (word text) = other text) :
    (d.instructions word 0 0).map (Instruction.mapStrings rename) = d.instructions other 0 0 := by
  rw [instructions, Expr.mapStrings_instructions (wellFormed_expr _ wellFormed)]
  exact instructions_expr (fun text mem => ⟨h text mem, h text mem⟩) 0 0

/-- The code of a datum reads back as the datum, if its words name the strings they stand for. -/
theorem ofCode?_code {numbering : Numbering} {text? : UInt32 → Option String}
    {word : String → UInt32} {id : String → StringId} {d : Datum}
    (wellFormed : (d.expr id).WellFormed)
    (known : ∀ text ∈ d.strings, text? (word text) = some text) :
    ofCode? text? numbering (d.code numbering word) = some d := by
  have wellFormed := wellFormed_expr (fun text => ⟨word text⟩) wellFormed
  have hword : ∀ text, StringId.index ⟨word text⟩ = word text := fun _ => rfl
  exact ofCode?_words hword wellFormed known

mutual

/-- A string that the code refers to is a name or a literal. -/
theorem mem_names_or_literals {id : String → StringId} {text : String} :
    ∀ {d : Datum}, (d.expr id).WellFormed → text ∈ d.strings →
      text ∈ (d.expr id).names ∨ .quoted text ∈ d.lexemes
  | .number _, _, mem => nomatch mem
  | .symbol _, _, mem => .inl mem
  | .string text, _, mem => .inr (by simpa [strings, lexemes] using mem)
  | .list [], wellFormed, _ => nomatch wellFormed
  | .list (head :: operands), wellFormed, mem => by
    rw [expr, exprs, Expr.names, lexemes, lexemesOf]
    cases wellFormed with
    | @keyword keyword _ _ shape arity leading inner =>
      rw [strings, (ofHead_expr id head).symm.trans shape] at mem
      have leading' : ∀ operand ∈ operands.take keyword.names, operand.symbol?.isSome := by
        simpa [exprs_eq_map, ← List.map_take] using leading
      simp only [shape, List.mem_append, leadingNames_exprs]
      rw [stringsOf_leading leading', List.mem_append] at mem
      rcases mem with mem | mem
      · exact .inl (.inl mem)
      · rcases mem_operandNames_or_literals keyword.names inner mem with mem | mem
        · exact .inl (.inr mem)
        · exact .inr (.inr mem)
    | @operator op _ _ shape inner =>
      rw [strings, (ofHead_expr id head).symm.trans shape] at mem
      simp only [shape, List.mem_append]
      rcases mem_operandNames_or_literals 0 inner mem with mem | mem
      · exact .inl mem
      · exact .inr (.inr mem)
    | call shape callee inner =>
      rw [strings, (ofHead_expr id head).symm.trans shape] at mem
      simp only [shape, List.mem_append]
      rcases List.mem_append.1 mem with mem | mem
      · rcases mem_names_or_literals callee mem with mem | mem
        · exact .inl (.inl mem)
        · exact .inr (.inl mem)
      · rcases mem_operandNames_or_literals 0 inner mem with mem | mem
        · exact .inl (.inr mem)
        · exact .inr (.inr mem)

theorem mem_operandNames_or_literals {id : String → StringId} {text : String} :
    ∀ (skipped : Nat) {operands : List Datum},
      (∀ operand ∈ (exprs id operands).drop skipped, operand.WellFormed) →
      text ∈ stringsOf (operands.drop skipped) →
      text ∈ Expr.operandNames skipped (exprs id operands) ∨ .quoted text ∈ lexemesOf operands
  | _, [], _, mem => by simp [stringsOf] at mem
  | skipped + 1, _ :: rest, wellFormed, mem => by
    rw [exprs, Expr.operandNames, lexemesOf, List.mem_append]
    rcases mem_operandNames_or_literals skipped wellFormed mem with mem | mem
    · exact .inl mem
    · exact .inr (.inr mem)
  | 0, first :: rest, wellFormed, mem => by
    rw [exprs, List.drop_zero, List.forall_mem_cons] at wellFormed
    rw [exprs, Expr.operandNames, lexemesOf, List.mem_append, List.mem_append]
    rcases List.mem_append.1 mem with mem | mem
    · rcases mem_names_or_literals wellFormed.1 mem with mem | mem
      · exact .inl (.inl mem)
      · exact .inr (.inl mem)
    · rcases mem_operandNames_or_literals 0 wellFormed.2 mem with mem | mem
      · exact .inl (.inr mem)
      · exact .inr (.inr mem)

end

end Datum

/-- A block that holds a datum, in a unit with the given table. -/
structure Block.Holds (block : Block) (numbering : Numbering) (table : StringTable) (d : Datum) :
    Prop where
  wellFormed : (d.expr table.idOf).WellFormed
  known : ∀ text ∈ d.strings, text ∈ table.texts
  code_eq : block.code.toList = d.code numbering table.wordOf
  slots_eq : block.slots = (d.instructions table.wordOf 0 0).flatMap Instruction.slots

namespace Block.Holds

open Instruction

variable {block : Block} {numbering : Numbering} {table later : StringTable} {d : Datum}

theorem mono (h : block.Holds numbering table d) (le : table ≤ later) :
    block.Holds numbering later d := by
  have words : ∀ text ∈ d.strings, table.wordOf text = later.wordOf text := fun text mem =>
    (StringTable.wordOf_of_le le (h.known text mem)).symm
  have code := Datum.code_congr numbering words
  have slots := Datum.instructions_eq_of_words words 0 0
  exact ⟨Datum.wellFormed_expr later.idOf h.wellFormed,
    fun text mem => StringTable.mem_of_le le (h.known text mem),
    h.code_eq.trans code, slots ▸ h.slots_eq⟩

/-- The block refers to the strings of the datum. -/
theorem references_eq (h : block.Holds numbering table d) :
    block.references = d.strings.map table.idOf := by
  have chain := d.chain_instructions h.wellFormed table.wordOf
  have words := references_chain numbering chain [] rfl []
  rw [d.strings_instructions h.wellFormed, List.nil_append, List.append_nil, ← h.slots_eq] at words
  have code : ∀ slot : Nat, block.code[slot]? =
      ((d.instructions table.wordOf 0 0).flatMap (encode numbering))[slot]? := by
    intro slot
    rw [← Array.getElem?_toList, h.code_eq, Datum.code]
  rw [Block.references]
  simp only [code]
  rw [← List.map_filterMap, words, List.map_map]
  rfl

theorem size_eq (h : block.Holds numbering table d) (word : String → UInt32) :
    block.code.size = (d.code numbering word).length := by
  rw [← Array.length_toList, h.code_eq, Datum.length_code numbering _ h.wellFormed,
    Datum.length_code numbering _ h.wellFormed]

/-- With write ids for the strings of the datum, the block resolves to its code under these. -/
theorem resolve_eq (h : block.Holds numbering table d) {ids : WriteIds} {word : String → UInt32}
    (known : ∀ text ∈ d.strings, ids.writeId? (table.idOf text) = some (word text)) :
    block.resolve ids = .ok (d.code numbering word).toArray := by
  -- resolving renames words and not texts, so the write ids are read off the words
  let rename : UInt32 → UInt32 := fun id => (ids.writeId? ⟨id⟩).getD 0
  have hrename : ∀ text ∈ d.strings, rename (table.wordOf text) = word text := fun text mem =>
    congrArg (Option.getD · 0) (known text mem)
  have resolves : ∀ id ∈ (d.instructions table.wordOf 0 0).flatMap Instruction.strings,
      ids.writeId? ⟨id⟩ = some (rename id) := by
    intro id mem
    rw [d.strings_instructions h.wellFormed] at mem
    obtain ⟨text, htext, rfl⟩ := List.mem_map.1 mem
    rw [hrename text htext]
    exact known text htext
  have chain := d.chain_instructions h.wellFormed table.wordOf
  have run := resolve_chain numbering rename chain resolves [] rfl []
  have renamed := Datum.mapStrings_instructions h.wellFormed hrename
  rw [List.nil_append, List.append_nil, List.nil_append, List.append_nil, ← h.slots_eq, renamed]
    at run
  have code : block.code = ((d.instructions table.wordOf 0 0).flatMap (encode numbering)).toArray :=
    Array.toList_inj.1 h.code_eq
  rw [Block.resolve, code]
  exact run

end Block.Holds

/-- The block of an expression holds its datum, and interning only adds the names of the
expression. -/
theorem Expr.compile_holds {numbering : Numbering} {d : Datum} {table later : StringTable}
    {block : Block} (literals : ∀ text, .quoted text ∈ d.lexemes → text ∈ table.texts)
    (h : (d.expr table.idOf).compile numbering table = (.ok block, later)) :
    table ≤ later ∧ block.Holds numbering later d := by
  have emitted := assemble_emitted numbering _ (assemble_of_compile h)
  have grown : later = table.insertAll (d.expr table.idOf).names := emitted.table_eq
  have le : table ≤ later := by
    rw [grown]
    exact StringTable.le_insertAll _ _
  -- the ids of the literals were given before the names of this expression came in
  have same : d.expr table.idOf = d.expr later.idOf := Datum.expr_congr fun text mem =>
    (StringTable.idOf_of_le le (literals text mem)).symm
  have instructions : (d.expr table.idOf).instructions later.wordOf StringId.index 0 0 =
      d.instructions later.wordOf 0 0 := by
    rw [same]
    exact Datum.instructions_expr (fun text _ => ⟨rfl, rfl⟩) 0 0
  refine ⟨le, same ▸ emitted.wellFormed, ?_, ?_, ?_⟩
  · intro text mem
    rcases Datum.mem_names_or_literals emitted.wellFormed mem with mem | mem
    · rw [grown]
      exact StringTable.mem_insertAll mem
    · exact StringTable.mem_of_le le (literals text mem)
  · rw [Datum.code, ← instructions]
    exact emitted.code_eq later (StringTable.le_refl _) 0
  · rw [← instructions]
    exact emitted.slots_eq later.wordOf StringId.index 0

end Libretto.Script
