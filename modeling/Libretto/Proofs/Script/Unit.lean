/-
Compiled units and their data.

A unit is determined by the data of its lines, but for the ids of its strings.  Its blocks hold
these data under its table, whatever ids the table gives:

* **`SourceHas`** — the data of lines;
* **`ScriptUnit.Holds`** — the blocks and forms of a unit are those of the given data;
* **`compile_holds`** — a source gives the data of its lines;
* **`references_eq`**, **`resolve_blocks`** — references and resolved code, from the data;
* **`strings_eq`**, **`writeWord_eq`** — in a small table, write ids are positions among the texts
  referred to, so that insertion ids drop out;
* **`size_table_compile_le`**, **`mem_source_of_mem_table`** — a table has no more strings than the
  source has bytes, and they consist of its characters.
-/
import Libretto.Proofs.Script.Line
import Libretto.Proofs.Text.Utf8
import Mathlib.Data.List.Forall2
import Mathlib.Data.List.Perm.Subperm

namespace Libretto.Script

/-- The data of lines: each has one datum or makes no block. -/
inductive SourceHas (numbering : Numbering) : List (List Char) → List Datum → Prop where
  | nil : SourceHas numbering [] []
  | has {line : List Char} {d : Datum} {lines : List (List Char)} {data : List Datum}
      (here : LineHas numbering line d) (behind : SourceHas numbering lines data) :
      SourceHas numbering (line :: lines) (d :: data)
  | skip {line : List Char} {lines : List (List Char)} {data : List Datum}
      (here : ∀ d, ¬ LineHas numbering line d) (behind : SourceHas numbering lines data) :
      SourceHas numbering (line :: lines) data

theorem exists_sourceHas (numbering : Numbering) (lines : List (List Char)) :
    ∃ data, SourceHas numbering lines data := by
  induction lines with
  | nil => exact ⟨[], .nil⟩
  | cons line rest ih =>
    obtain ⟨data, behind⟩ := ih
    by_cases has : ∃ d, LineHas numbering line d
    · obtain ⟨d, here⟩ := has
      exact ⟨d :: data, .has here behind⟩
    · exact ⟨data, .skip (fun d here => has ⟨d, here⟩) behind⟩

theorem SourceHas.finds {numbering : Numbering} {lines : List (List Char)} {data : List Datum}
    (h : SourceHas numbering lines data) :
    ∃ founds, List.Forall₂ (Outcome.Finds numbering) lines founds ∧ founds.filterMap id = data := by
  induction h with
  | nil => exact ⟨[], .nil, rfl⟩
  | has here _ ih =>
    obtain ⟨founds, behind, rfl⟩ := ih
    exact ⟨_, .cons here.finds behind, rfl⟩
  | skip here _ ih =>
    obtain ⟨founds, behind, rfl⟩ := ih
    exact ⟨_, .cons (finds_none here) behind, rfl⟩

namespace Outcome

variable {numbering : Numbering}

/-- Lines show what they find, under the table of the last one. -/
theorem ofLines_shows {lines : List (List Char)} {founds : List (Option Datum)}
    (h : List.Forall₂ (Finds numbering) lines founds) (table : StringTable) :
    table ≤ (ofLines numbering lines table).2 ∧
      List.Forall₂ (fun outcome found =>
        outcome.Shows numbering (ofLines numbering lines table).2 found)
        (ofLines numbering lines table).1 founds := by
  induction h generalizing table with
  | nil => exact ⟨StringTable.le_refl table, .nil⟩
  | @cons line found lines founds hline _ ih =>
    -- what the line shows under its own table it still shows under the last one
    obtain ⟨le, rest⟩ := ih (ofLine numbering line table).2
    have first : (ofLine numbering line table).1.Shows numbering
        (ofLines numbering lines (ofLine numbering line table).2).2 found := by
      cases found with
      | none => exact hline table
      | some d => exact Gives.mono (hline table) le
    exact ⟨StringTable.le_trans (ofLine_grows numbering line table).1 le, .cons first rest⟩

/-- Lines add only their own texts to the table. -/
theorem mem_texts_ofLines {lines : List (List Char)} {table : StringTable} {text : String}
    (mem : text ∈ (ofLines numbering lines table).2.texts) :
    text ∈ table.texts ∨ text ∈ lines.flatMap lineTexts := by
  induction lines generalizing table with
  | nil => exact .inl mem
  | cons line rest ih =>
    rw [List.flatMap_cons, List.mem_append]
    rcases ih mem with mem | mem
    · rcases (ofLine_grows numbering line table).2 text mem with mem | mem
      · exact .inl mem
      · exact .inr (.inl mem)
    · exact .inr (.inr mem)

end Outcome

namespace ScriptUnit

/-- The forms of the lines that compiled. -/
def forms (unit : ScriptUnit) : List Form :=
  unit.outcomes.filterMap Outcome.compiled?

/-- The data of the forms that compiled; a form whose literals are not in the table has none. -/
def data (unit : ScriptUnit) : List (Option Datum) :=
  unit.forms.map fun form => form.expr.datum? unit.table.get?

/-- The blocks and the forms of a unit are those of the given data. -/
structure Holds (unit : ScriptUnit) (data : List Datum) : Prop where
  blocks : List.Forall₂ (fun block d => block.Holds unit.numbering unit.table d) unit.blocks data
  forms : List.Forall₂ (fun form d => form.expr = d.expr unit.table.idOf ∧
    ∀ text, .quoted text ∈ d.lexemes → text ∈ unit.table.texts) unit.forms data

/-- A source gives its data. -/
theorem compile_holds {numbering : Numbering} {source : String} {data : List Datum}
    (h : SourceHas numbering (Text.lines source.toList) data) :
    (compile numbering source).Holds data := by
  obtain ⟨founds, found, rfl⟩ := h.finds
  obtain ⟨-, shown⟩ := Outcome.ofLines_shows found .empty
  have outcomes : List.Forall₂ (fun outcome found =>
      outcome.Shows numbering (compile numbering source).table found)
      (compile numbering source).outcomes founds := shown
  refine ⟨List.rel_filterMap (fun outcome found hshown => ?_) outcomes,
    List.rel_filterMap (fun outcome found hshown => ?_) outcomes⟩
  · cases found with
    | none =>
      rw [show outcome.block? = none from hshown]
      exact .none
    | some d =>
      obtain ⟨⟨trailing, block, rfl, holds⟩, -⟩ := hshown
      exact .some holds
  · cases found with
    | none =>
      have noBlock : outcome.block? = none := hshown
      have noForm : outcome.compiled? = none := by
        cases outcome with
        | compiled form block => cases noBlock
        | _ => rfl
      rw [noForm]
      exact .none
    | some d =>
      obtain ⟨⟨trailing, block, rfl, -⟩, literals⟩ := hshown
      exact .some ⟨rfl, literals⟩

theorem exists_holds (numbering : Numbering) (source : String) :
    ∃ data, (compile numbering source).Holds data := by
  obtain ⟨data, h⟩ := exists_sourceHas numbering (Text.lines source.toList)
  exact ⟨data, compile_holds h⟩

/-- A line that compiles makes a block each time it stands in a source. -/
theorem length_blocks_of_replicate {numbering : Numbering} {source : String} {line : List Char}
    {n : Nat} {table : StringTable} (lines : Text.lines source.toList = List.replicate n line)
    (compiled : (Outcome.ofLine numbering line table).1.block?.isSome = true) :
    (compile numbering source).blocks.length = n := by
  obtain ⟨d, here⟩ := exists_has_of_compiled compiled
  have has : ∀ n, SourceHas numbering (List.replicate n line) (List.replicate n d) := by
    intro n
    induction n with
    | zero => exact .nil
    | succ n ih => exact .has here ih
  rw [(compile_holds (lines ▸ has n)).blocks.length_eq, List.length_replicate]

/-! ### Resolution -/

variable {unit : ScriptUnit} {data : List Datum}

/-- The word of a text in a container: its write id. -/
def writeWord (unit : ScriptUnit) (text : String) : UInt32 :=
  (unit.writeIds.writeId? (unit.table.idOf text)).getD 0

/-- Every string that a unit refers to has a write id.  This holds of a large table too, where texts
may share an id. -/
theorem writeId?_eq_writeWord {text : String} (mem : unit.table.idOf text ∈ unit.references)
    (known : text ∈ unit.table.texts) :
    unit.writeIds.writeId? (unit.table.idOf text) = some (unit.writeWord text) := by
  obtain ⟨word, hword⟩ := Option.isSome_iff_exists.1
    (StringTable.isSome_writeId?_resolve mem (StringTable.isSome_get?_idOf known))
  have resolved : unit.writeIds.writeId? (unit.table.idOf text) = some word := hword
  rw [writeWord, resolved]
  rfl

/-- A unit refers to the strings of its data, in order. -/
theorem Holds.references_eq (h : unit.Holds data) :
    unit.references = (data.flatMap Datum.strings).map unit.table.idOf := by
  obtain ⟨blocks, -⟩ := h
  rw [references]
  generalize unit.blocks = l at blocks
  induction blocks with
  | nil => rfl
  | cons holds _ ih =>
    rw [List.flatMap_cons, List.flatMap_cons, List.map_append, holds.references_eq, ih]

/-- The strings of its data are in its table. -/
theorem Holds.known (h : unit.Holds data) : ∀ text ∈ data.flatMap Datum.strings,
    text ∈ unit.table.texts := by
  obtain ⟨blocks, -⟩ := h
  generalize unit.blocks = l at blocks
  induction blocks with
  | nil => simp
  | cons holds _ ih =>
    intro text mem
    rw [List.flatMap_cons, List.mem_append] at mem
    exact mem.elim (holds.known text) (ih text)

theorem Holds.mem_references (h : unit.Holds data) {text : String}
    (mem : text ∈ data.flatMap Datum.strings) : unit.table.idOf text ∈ unit.references := by
  rw [h.references_eq]
  exact List.mem_map_of_mem mem

theorem Holds.writeId?_eq (h : unit.Holds data) {text : String}
    (mem : text ∈ data.flatMap Datum.strings) :
    unit.writeIds.writeId? (unit.table.idOf text) = some (unit.writeWord text) :=
  writeId?_eq_writeWord (h.mem_references mem) (h.known text mem)

theorem Holds.isSome_get? (h : unit.Holds data) :
    ∀ id ∈ unit.references, (unit.table.get? id).isSome := by
  intro id mem
  rw [h.references_eq] at mem
  obtain ⟨text, among, rfl⟩ := List.mem_map.1 mem
  exact StringTable.isSome_get?_idOf (h.known text among)

/-- Every block resolves to the code of its datum, under write ids that keep those of the unit. -/
theorem Holds.resolve_blocks_of (h : unit.Holds data) {ids : WriteIds}
    (kept : ∀ id word, unit.writeIds.writeId? id = some word → ids.writeId? id = some word) :
    unit.blocks.map (·.resolve ids) =
      data.map fun d => .ok (d.code unit.numbering unit.writeWord).toArray := by
  have known : ∀ text ∈ data.flatMap Datum.strings,
      ids.writeId? (unit.table.idOf text) = some (unit.writeWord text) :=
    fun text mem => kept _ _ (h.writeId?_eq mem)
  obtain ⟨blocks, -⟩ := h
  generalize unit.blocks = l at blocks
  induction blocks with
  | nil => rfl
  | cons holds _ ih =>
    simp only [List.flatMap_cons, List.mem_append] at known
    rw [List.map_cons, List.map_cons, ih fun text mem => known text (.inr mem),
      holds.resolve_eq fun text mem => known text (.inl mem)]

theorem Holds.resolve_blocks (h : unit.Holds data) :
    unit.blocks.map (·.resolve unit.writeIds) =
      data.map fun d => .ok (d.code unit.numbering unit.writeWord).toArray :=
  h.resolve_blocks_of fun _ _ found => found

/-- In a small table the strings of a unit are those of its data, each once. -/
theorem Holds.strings_eq (h : unit.Holds data) (small : unit.table.size ≤ 2 ^ 32) :
    unit.writeIds.strings = (data.flatMap Datum.strings).eraseDups := by
  rw [writeIds, StringTable.strings_resolve, h.references_eq, List.filterMap_map]
  congr 1
  have known := h.known
  generalize data.flatMap Datum.strings = strings at known
  induction strings with
  | nil => rfl
  | cons text rest ih =>
    rw [List.forall_mem_cons] at known
    have found : (unit.table.get? ∘ unit.table.idOf) text = some text :=
      StringTable.get?_idOf small known.1
    rw [List.filterMap_cons_some found, ih known.2]

/-- In a small table the write id of a string is its position among the strings of the unit. -/
theorem Holds.writeWord_eq (h : unit.Holds data) (small : unit.table.size ≤ 2 ^ 32) {text : String}
    (mem : text ∈ data.flatMap Datum.strings) :
    unit.writeWord text = (unit.writeIds.strings.idxOf text).toUInt32 := by
  have found := StringTable.writeId?_resolve (h.mem_references mem)
    (StringTable.get?_idOf small (h.known text mem))
  rw [← StringTable.strings_resolve] at found
  exact Option.some.inj ((h.writeId?_eq mem).symm.trans found)

/-- In a small table all forms have their data. -/
theorem Holds.data_eq (h : unit.Holds data) (small : unit.table.size ≤ 2 ^ 32) :
    unit.data = data.map some := by
  obtain ⟨-, forms⟩ := h
  rw [ScriptUnit.data]
  generalize unit.forms = l at forms
  induction forms with
  | nil => rfl
  | @cons form d _ _ hform _ ih =>
    have datum : form.expr.datum? unit.table.get? = some d := by
      rw [hform.1]
      exact Datum.datum?_expr fun text mem => StringTable.get?_idOf small (hform.2 text mem)
    rw [List.map_cons, List.map_cons, datum, ih]

/-! ### Sizes and characters -/

theorem mem_lineTexts {line : List Char} {text : String} (mem : text ∈ lineTexts line) {c : Char}
    (hc : c ∈ text.toList) : c ∈ Outcome.withoutTabs line := by
  obtain ⟨lexeme, hlexeme, htext⟩ := List.mem_filterMap.1 mem
  exact Scan.mem_line_of_mem_text hlexeme htext hc

theorem length_lineTexts_le (line : List Char) : (lineTexts line).length ≤ line.length := by
  have lexemes := Scan.length_lexemes_le (Outcome.withoutTabs line)
  rw [Outcome.withoutTabs, List.length_map] at lexemes
  exact Nat.le_trans (List.length_filterMap_le _ _) lexemes

theorem length_flatten_lines_le (text : List Char) :
    (Text.lines text).flatten.length ≤ text.length := by
  fun_induction Text.lines text with
  | case1 => exact Nat.le_refl 0
  | case2 rest ih | case3 rest ih =>
    simp only [List.flatten_cons, List.nil_append, List.length_cons]
    omega
  | case4 c rest _ _ h ih => simp
  | case5 c rest _ _ line more h ih =>
    rw [h] at ih
    simp only [List.flatten_cons, List.length_append, List.length_cons] at ih ⊢
    omega

theorem mem_of_mem_lines {text line : List Char} {c : Char} (hline : line ∈ Text.lines text)
    (hc : c ∈ line) : c ∈ text := by
  fun_induction Text.lines text generalizing line with
  | case1 => simp at hline
  | case2 rest ih | case3 rest ih =>
    rcases List.mem_cons.1 hline with rfl | hline
    · simp at hc
    · simp [ih hline hc]
  | case4 d rest _ _ h ih =>
    obtain rfl := List.mem_singleton.1 hline
    exact List.mem_cons.2 (.inl (List.mem_singleton.1 hc))
  | case5 d rest _ _ first more h ih =>
    rw [h] at ih
    rcases List.mem_cons.1 hline with rfl | hline
    · rcases List.mem_cons.1 hc with rfl | hc
      · exact List.mem_cons_self
      · exact List.mem_cons_of_mem _ (ih List.mem_cons_self hc)
    · exact List.mem_cons_of_mem _ (ih (List.mem_cons_of_mem _ hline) hc)

/-- A table has no more strings than its source has characters. -/
theorem size_table_compile_le_length (numbering : Numbering) (source : String) :
    (compile numbering source).table.size ≤ source.toList.length := by
  have subset : (compile numbering source).table.texts ⊆
      (Text.lines source.toList).flatMap lineTexts := fun text mem =>
    (Outcome.mem_texts_ofLines mem).resolve_left (by simp)
  have texts : ∀ lines : List (List Char),
      (lines.flatMap lineTexts).length ≤ lines.flatten.length := by
    intro lines
    induction lines with
    | nil => exact Nat.le_refl 0
    | cons line rest ih =>
      have := length_lineTexts_le line
      rw [List.flatMap_cons, List.flatten_cons, List.length_append, List.length_append]
      omega
  calc (compile numbering source).table.size
      ≤ ((Text.lines source.toList).flatMap lineTexts).length :=
        (List.subperm_of_subset (compile numbering source).table.distinct subset).length_le
    _ ≤ (Text.lines source.toList).flatten.length := texts _
    _ ≤ source.toList.length := length_flatten_lines_le _

/-- It has no more strings than its source has bytes. -/
theorem size_table_compile_le (numbering : Numbering) (source : String) :
    (compile numbering source).table.size ≤ source.utf8ByteSize :=
  Nat.le_trans (size_table_compile_le_length numbering source)
    (Text.length_le_utf8ByteSize source)

theorem small_table_compile (numbering : Numbering) {source : String}
    (short : source.utf8ByteSize < 2 ^ 32) : (compile numbering source).table.size ≤ 2 ^ 32 :=
  Nat.le_of_lt (Nat.lt_of_le_of_lt (size_table_compile_le numbering source) short)

/-- The strings of a table consist of characters of the source, and of spaces for its tabs. -/
theorem mem_source_of_mem_table {numbering : Numbering} {source text : String} {c : Char}
    (mem : text ∈ (compile numbering source).table.texts) (hc : c ∈ text.toList) :
    c ∈ source.toList ∨ c = ' ' := by
  have mem := (Outcome.mem_texts_ofLines mem).resolve_left (by simp)
  obtain ⟨line, hline, htext⟩ := List.mem_flatMap.1 mem
  obtain ⟨d, hd, rfl⟩ := List.mem_map.1 (mem_lineTexts htext hc)
  split
  · exact .inr rfl
  · exact .inl (mem_of_mem_lines hline hd)

end ScriptUnit

end Libretto.Script
