/-
What instructions name.

A block is listed with insertion ids while its unit is in memory, and with write ids once it is
written.  The two codes differ in these ids alone, and either id names the text in the source:

* **`Instruction.Alike`** — instructions that differ at most in the id of the string that they name,
  each in its own numbering;
* **`alike_mapStrings`** — renaming a string to an id of the same text makes such an instruction;
* **`Block.Keeps`** — a block and its resolved code name the same strings;
* **`keeps_of_holds`** — every block of a small unit keeps the strings of its datum;
* **`keeps_of_compile`** — hence what every line of a source names survives resolution.

The ids of a block are final only when the last line of its unit has been read, since skipped lines
intern strings, too.  So the datum of a line mentions no ids at all.
-/
import Libretto.Proofs.Script.Unit

namespace Libretto.Script

namespace Instruction

/-- The operand words of an instruction that name no string. -/
def others (i : Instruction) : List UInt32 :=
  i.operands.drop i.strings.length

/-- The number of a string as a line shows it, if the instruction names one. -/
def idText (i : Instruction) : String :=
  String.join (i.strings.map toString)

/-- Two instructions that differ at most in the id of a string.  Each names the same text in its own
numbering, and no id is without a text, so their lines show this text and never the mark for a
missing one; but for the number of the id the lines are the same. -/
structure Alike (old new : UInt32 → Option String) (i j : Instruction) : Prop where
  offset : j.offset = i.offset
  depth : j.depth = i.depth
  op : j.op = i.op
  others : j.others = i.others
  lines : ∃ texts front back, i.strings.map old = texts.map some ∧
    j.strings.map new = texts.map some ∧
    i.line old = front ++ i.idText ++ back ++ String.join texts ++ "\n" ∧
    j.line new = front ++ j.idText ++ back ++ String.join texts ++ "\n"

/-- What a line shows in front of the text of an instruction. -/
def margin (i : Instruction) : String :=
  String.join (List.replicate i.depth "  ") ++ offsetText i.offset ++ ": "

theorem line_eq (lookup : UInt32 → Option String) (i : Instruction) :
    i.line lookup = i.margin ++ i.text lookup ++ "\n" := rfl

section

variable {old new : UInt32 → Option String} {offset depth : Nat} {op : Opcode}
  {id renamed word : UInt32} {text : String}

theorem text_string (kind : op.operands = .string) (found : old id = some text) :
    Instruction.text old ⟨offset, depth, op, [id]⟩ =
      op.mnemonic ++ " " ++ toString id ++ " ; " ++ text := by
  simp only [Instruction.text, kind, stringText, found]
  rfl

theorem text_stringOffset (kind : op.operands = .stringOffset) (found : old id = some text) :
    Instruction.text old ⟨offset, depth, op, [id, word]⟩ =
      op.mnemonic ++ " " ++ toString id ++ (" <" ++ toString word ++ "> ; ") ++ text := by
  simp only [Instruction.text, kind, stringText, found, String.append_assoc]
  rfl

theorem text_plain {i : Instruction} (string : i.op.operands ≠ .string)
    (stringOffset : i.op.operands ≠ .stringOffset) : i.text new = i.text old := by
  unfold Instruction.text
  split <;> first | rfl | contradiction

/-- An instruction that names no string is alike in all numberings. -/
theorem alike_plain {i : Instruction} (string : i.op.operands ≠ .string)
    (stringOffset : i.op.operands ≠ .stringOffset) : Alike old new i i := by
  have plain : i.strings = [] := by
    unfold strings
    split <;> first | rfl | contradiction
  have same : i.text new = i.text old := text_plain string stringOffset
  refine ⟨rfl, rfl, rfl, rfl, [], i.margin ++ i.text old, "", by rw [plain]; rfl,
    by rw [plain]; rfl, ?_, ?_⟩
  · rw [idText, plain, line_eq]
    simp
  · rw [idText, plain, line_eq, same]
    simp

/-- Instructions that name the same text in their first operand. -/
theorem alike_named {rest : List UInt32} {front back : String}
    (names : ∀ id, strings ⟨offset, depth, op, id :: rest⟩ = [id])
    (hold : old id = some text) (hnew : new renamed = some text)
    (oldText : Instruction.text old ⟨offset, depth, op, id :: rest⟩ =
      front ++ toString id ++ back ++ text)
    (newText : Instruction.text new ⟨offset, depth, op, renamed :: rest⟩ =
      front ++ toString renamed ++ back ++ text) :
    Alike old new ⟨offset, depth, op, id :: rest⟩ ⟨offset, depth, op, renamed :: rest⟩ := by
  refine ⟨rfl, rfl, rfl, ?_, [text], margin ⟨offset, depth, op, id :: rest⟩ ++ front, back,
    by simp [names, hold], by simp [names, hnew], ?_, ?_⟩
  · rw [others, others, names, names]
    rfl
  · rw [line_eq, oldText, idText, names]
    simp [String.append_assoc]
  · rw [line_eq, newText, idText, names]
    simp [String.append_assoc, margin]

/-- Renaming a string to an id of the same text. -/
theorem alike_mapStrings {i : Instruction} {rename : UInt32 → UInt32}
    (count : i.operands.length = i.op.operands.words)
    (h : ∀ id ∈ i.strings, ∃ text, old id = some text ∧ new (rename id) = some text) :
    Alike old new i (i.mapStrings rename) := by
  obtain ⟨offset, depth, op, operands⟩ := i
  cases kind : op.operands with
  | string =>
    rw [kind] at count
    obtain ⟨id, rfl⟩ := List.length_eq_one_iff.1 count
    have names : ∀ id, strings ⟨offset, depth, op, [id]⟩ = [id] := by simp [strings, kind]
    obtain ⟨text, hold, hnew⟩ := h id (by simp [names])
    have renamed : mapStrings rename ⟨offset, depth, op, [id]⟩ =
        ⟨offset, depth, op, [rename id]⟩ := by simp [mapStrings, kind]
    rw [renamed]
    exact alike_named names hold hnew (text_string kind hold) (text_string kind hnew)
  | stringOffset =>
    rw [kind] at count
    obtain ⟨id, word, rfl⟩ := List.length_eq_two.1 count
    have names : ∀ id, strings ⟨offset, depth, op, [id, word]⟩ = [id] := by simp [strings, kind]
    obtain ⟨text, hold, hnew⟩ := h id (by simp [names])
    have renamed : mapStrings rename ⟨offset, depth, op, [id, word]⟩ =
        ⟨offset, depth, op, [rename id, word]⟩ := by simp [mapStrings, kind]
    rw [renamed]
    exact alike_named names hold hnew (text_stringOffset kind hold) (text_stringOffset kind hnew)
  | none | offset | offsets | number | count =>
    have same : mapStrings rename ⟨offset, depth, op, operands⟩ =
        ⟨offset, depth, op, operands⟩ := by simp [mapStrings, kind]
    rw [same]
    exact alike_plain (by simp [kind]) (by simp [kind])

end

end Instruction

/-- What resolving keeps of a block: its size, the words outside of its slots, and its instructions
but for the ids of the strings that they name, in order. -/
structure Block.Keeps (block : Block) (unit : ScriptUnit) (strings : List String)
    (resolved : Array UInt32) : Prop where
  resolves : block.resolve unit.writeIds = .ok resolved
  size : resolved.size = block.code.size
  others : ∀ k ∉ block.slots, resolved[k]? = block.code[k]?
  instructions : ∃ before after,
    Instruction.decode unit.numbering block.code.toList = .ok before ∧
      Instruction.decode unit.numbering resolved.toList = .ok after ∧
      List.Forall₂ (Instruction.Alike unit.table.lookup unit.writeIds.lookup) before after ∧
      (before.flatMap Instruction.strings).map unit.table.lookup = strings.map some ∧
      (after.flatMap Instruction.strings).map unit.writeIds.lookup = strings.map some ∧
      listing unit.numbering unit.table.lookup block.code.toList =
        .ok (String.join (before.map (Instruction.line unit.table.lookup))) ∧
      listing unit.numbering unit.writeIds.lookup resolved.toList =
        .ok (String.join (after.map (Instruction.line unit.writeIds.lookup)))

/-- A line of a unit that compiles reads as a datum, and its block and the resolved code name the
strings of this datum. -/
def Outcome.Keeps (unit : ScriptUnit) (line : List Char) (outcome : Outcome) : Prop :=
  ∀ form block, outcome = compiled form block →
    ∃ d, Reads (lineLexemes line) d ∧ form.expr = d.expr unit.table.idOf ∧
      ∃ resolved, block.Keeps unit d.strings resolved

namespace ScriptUnit

variable {unit : ScriptUnit}

/-- A block of a small unit keeps the strings of its datum. -/
theorem keeps_of_holds (small : unit.table.size ≤ 2 ^ 32) {block : Block} {d : Datum}
    (mem : block ∈ unit.blocks) (h : block.Holds unit.numbering unit.table d) :
    ∃ resolved, block.Keeps unit d.strings resolved := by
  have known : ∀ text ∈ d.strings,
      unit.writeIds.writeId? (unit.table.idOf text) = some (unit.writeWord text) := by
    intro text htext
    refine writeId?_eq_writeWord (List.mem_flatMap.2 ⟨block, mem, ?_⟩) (h.known text htext)
    rw [h.references_eq]
    exact List.mem_map_of_mem htext
  have old : ∀ text ∈ d.strings, unit.table.lookup (unit.table.wordOf text) = some text :=
    fun text htext => StringTable.get?_idOf small (h.known text htext)
  have new : ∀ text ∈ d.strings, unit.writeIds.lookup (unit.writeWord text) = some text :=
    fun text htext => (StringTable.lookup_writeId? small (known text htext)).trans (old text htext)
  -- the write id of a text is that of its insertion id, so resolving renames words
  let rename : UInt32 → UInt32 := fun id => (unit.writeIds.writeId? ⟨id⟩).getD 0
  have renamed : (d.instructions unit.table.wordOf 0 0).map (Instruction.mapStrings rename) =
      d.instructions unit.writeWord 0 0 :=
    Datum.mapStrings_instructions h.wellFormed fun _ _ => rfl
  have alike : List.Forall₂ (Instruction.Alike unit.table.lookup unit.writeIds.lookup)
      (d.instructions unit.table.wordOf 0 0) (d.instructions unit.writeWord 0 0) := by
    rw [← renamed, List.forall₂_map_right_iff, List.forall₂_same]
    intro i hi
    have chain := d.chain_instructions h.wellFormed unit.table.wordOf
    refine Instruction.alike_mapStrings (chain.count i hi) ?_
    intro id hid
    have mem : id ∈ (d.instructions unit.table.wordOf 0 0).flatMap Instruction.strings :=
      List.mem_flatMap.2 ⟨i, hi, hid⟩
    rw [d.strings_instructions h.wellFormed] at mem
    obtain ⟨text, htext, rfl⟩ := List.mem_map.1 mem
    exact ⟨text, old text htext, new text htext⟩
  have before : Instruction.decode unit.numbering block.code.toList =
      .ok (d.instructions unit.table.wordOf 0 0) := by
    rw [h.code_eq]
    exact Datum.decode_code _ h.wellFormed
  have after : Instruction.decode unit.numbering (d.code unit.numbering unit.writeWord) =
      .ok (d.instructions unit.writeWord 0 0) :=
    Datum.decode_code _ h.wellFormed
  have resolves := h.resolve_eq known
  obtain ⟨size, others⟩ := Block.resolve_eq_ok resolves
  refine ⟨_, resolves, size, others, _, _, before, after, alike, ?_, ?_, ?_, ?_⟩
  · rw [d.strings_instructions h.wellFormed, List.map_map]
    exact List.map_congr_left old
  · rw [d.strings_instructions h.wellFormed, List.map_map]
    exact List.map_congr_left new
  · rw [listing, before]
    rfl
  · rw [listing, after]
    rfl

/-- What the lines of a source name survives resolution. -/
theorem keeps_of_compile (numbering : Numbering) {source : String}
    (short : source.utf8ByteSize < 2 ^ 32) :
    List.Forall₂ (Outcome.Keeps (compile numbering source)) (Text.lines source.toList)
      (compile numbering source).outcomes := by
  choose found hfound using exists_found numbering
  have finds : List.Forall₂ (Outcome.Finds numbering) (Text.lines source.toList)
      ((Text.lines source.toList).map found) := by
    rw [List.forall₂_map_right_iff, List.forall₂_same]
    exact fun line _ => Outcome.finds_of_has (hfound line)
  have shown := (Outcome.ofLines_shows finds .empty).2
  rw [List.forall₂_map_right_iff] at shown
  have shown := (List.forall₂_and_left _ _).2 ⟨fun _ mem => mem, shown⟩
  refine (shown.imp ?_).flip
  rintro outcome line ⟨mem, shows⟩ form block rfl
  cases has : found line with
  | none =>
    rw [has] at shows
    cases shows
  | some d =>
    rw [has] at shows
    obtain ⟨⟨trailing, block', same, holds⟩, -⟩ := shows
    obtain ⟨rfl, rfl⟩ := Outcome.compiled.inj same
    have inside : block ∈ (compile numbering source).blocks :=
      List.mem_filterMap.2 ⟨_, mem, rfl⟩
    exact ⟨d, ((hfound line d).1 has).reads, rfl,
      keeps_of_holds (small_table_compile numbering short) inside holds⟩

/-- Two lines are skipped that intern `b` and `c`, and write ids follow another order. -/
theorem keeps_of_compile_skipped :
    "(say \"a\")\n(oops \"b\"\n(set \"c\")\n(lset x \"d\" \"a\")".utf8ByteSize < 2 ^ 32 ∧
      (compile .standard "(say \"a\")\n(oops \"b\"\n(set \"c\")\n(lset x \"d\" \"a\")").blocks =
        [⟨#[100, 9, 124, 1, 103, 1, 106, 0, 101], [5, 7]⟩,
          ⟨#[100, 10, 127, 5, 7, 106, 4, 106, 0, 101], [3, 6, 8]⟩] ∧
      List.Forall₂ (Outcome.Keeps
          (compile .standard "(say \"a\")\n(oops \"b\"\n(set \"c\")\n(lset x \"d\" \"a\")"))
        (Text.lines "(say \"a\")\n(oops \"b\"\n(set \"c\")\n(lset x \"d\" \"a\")".toList)
        (compile .standard
          "(say \"a\")\n(oops \"b\"\n(set \"c\")\n(lset x \"d\" \"a\")").outcomes := by
  have short :
      "(say \"a\")\n(oops \"b\"\n(set \"c\")\n(lset x \"d\" \"a\")".utf8ByteSize < 2 ^ 32 := by
    decide +kernel
  exact ⟨short, by decide +kernel, keeps_of_compile .standard short⟩

end ScriptUnit

end Libretto.Script
