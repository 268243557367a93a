/-
Numbers that are stored as words.

Counts and positions are numbers of any size, and where they are stored they are cut to 32 bits
without being looked at.  That this changes none of them follows from sizes elsewhere: a text that
is interned stands in the source, an operand takes code words, and what a container counts takes
bytes of a container whose size a word holds.

* **`ExactTable`** — the ids of a table are positions, from the first text on;
* **`ExactIds`** — so are write ids, with and without a sign;
* **`ExactScript`**, **`ExactDocument`** — the counts in a container are those of what is in it;
* **`five_mul_le_framedSize`**, **`le_scriptSize_of_mem`**, **`le_dramaSize`** — what is counted
  takes bytes;
* **`exact_of_compile`** — all of this holds of everything that compiles and is written.
-/
import Libretto.Proofs.Code.Counts
import Libretto.Proofs.Container.Capacity
import Libretto.Proofs.Container.Lookup
import Libretto.Proofs.Drama.Size

namespace Libretto.Binary

open Drama Script

/-! ### Tables -/

/-- A table of no more than `limit` strings, whose ids are positions.  So it was each time that a
text was added on the way to it, when the number of strings became an id. -/
structure ExactTable (table : StringTable) (limit : Nat) : Prop where
  few : table.size ≤ limit
  added : ∀ (earlier : StringTable) text, (earlier.add text).2 ≤ table →
    earlier.size.toUInt32.toNat = earlier.size ∧
      (earlier.add text).1.index.toNat = table.texts.idxOf text

theorem exactTable_of_le {table : StringTable} {limit : Nat} (few : table.size ≤ limit)
    (short : limit < 2 ^ 32) : ExactTable table limit := by
  refine ⟨few, fun earlier text le => ?_⟩
  have le : earlier.insert text ≤ table := le
  have size : earlier.size ≤ table.size :=
    (StringTable.le_trans (StringTable.le_insert earlier text) le).length_le
  have known : text ∈ table.texts :=
    StringTable.mem_of_le le (StringTable.mem_texts_insert earlier text)
  have position : table.texts.idxOf text < table.size := List.idxOf_lt_length_of_mem known
  refine ⟨toNat_toUInt32 (by omega), ?_⟩
  show (earlier.idOf text).index.toNat = _
  rw [← StringTable.idOf_of_insert_le le]
  exact toNat_toUInt32 (by omega)

/-! ### What is counted takes bytes -/

/-- A string takes an entry of four bytes, and the zero byte behind it. -/
theorem five_mul_le_framedSize (position : Nat) (strings : List String) :
    5 * strings.length ≤ framedSize position strings := by
  rw [framedSize]
  split
  · next none =>
    rw [none]
    exact Nat.zero_le _
  · let sizes := strings.map fun text => text.utf8ByteSize + 1
    have placed := add_sum_le_extent 1 (8 + 4 * strings.length) sizes
    have each : sizes.length ≤ sizes.sum := by
      refine List.length_le_sum_of_one_le _ fun size mem => ?_
      obtain ⟨text, -, rfl⟩ := List.mem_map.1 mem
      exact Nat.le_add_left 1 _
    have count : sizes.length = strings.length := List.length_map _
    show _ ≤ _ + extent 1 (8 + 4 * strings.length) sizes
    omega

theorem le_scriptSize_of_mem {unit : ScriptUnit} {block : Block} (mem : block ∈ unit.blocks) :
    4 * block.code.size ≤ scriptSize unit := by
  let sizes := unit.blocks.map fun block => 4 * block.code.size
  let body := aligned alignment (scriptTableEnd unit.blocks.length) + 4
  have one : 4 * block.code.size ≤ sizes.sum := List.le_sum_of_mem (List.mem_map_of_mem mem)
  have placed := add_sum_le_extent alignment body sizes
  have framed : extent alignment body sizes ≤ scriptSize unit := le_framedSize _ _
  omega

/-- The nodes of a dialogue take their records, and its snippets their entries and containers. -/
theorem le_dramaSize {document : Document} (some : document.nodes ≠ []) :
    recordSize * document.nodes.length + 4 * document.scripts.length +
      (document.scripts.map scriptSize).sum ≤ dramaSize document := by
  let table := dramaTableEnd document.scripts.length
  let body := aligned alignment table
  let behind := body + 4 + recordSize * document.nodes.length
  have entries : 4 * document.scripts.length ≤ table := Nat.le_add_left _ _
  have start : table ≤ body := le_aligned _ _
  have placed := add_sum_le_extent alignment behind (document.scripts.map scriptSize)
  have framed : extent alignment behind (document.scripts.map scriptSize) ≤ dramaSize document := by
    rw [dramaSize, if_neg some]
    exact le_framedSize _ _
  omega

/-! ### Ids and counts -/

/-- The number of write ids is stored as it is, and each of them as its position.  It is below
`2 ^ 31`, so that it is the same as a number with a sign. -/
structure ExactIds (ids : WriteIds) : Prop where
  size : ids.size.toUInt32.toNat = ids.size
  position : ∀ id word, ids.writeId? id = some word → word.toNat = ids.order.idxOf id
  signed : ∀ id word, ids.writeId? id = some word →
    0 ≤ word.toInt32.toInt ∧ word.toInt32.toInt = word.toNat

theorem exactIds_of_lt {ids : WriteIds} (few : ids.size < 2 ^ 31) : ExactIds ids := by
  have place : ∀ id word, ids.writeId? id = some word →
      word.toNat = ids.order.idxOf id ∧ word.toNat < 2 ^ 31 := by
    intro id word found
    rw [WriteIds.writeId?] at found
    split at found
    · next mem =>
      have bound : ids.order.idxOf id < ids.size := List.idxOf_lt_length_of_mem mem
      have same : word.toNat = ids.order.idxOf id := by
        rw [← Option.some.inj found]
        exact toNat_toUInt32 (by omega)
      exact ⟨same, by omega⟩
    · cases found
  refine ⟨toNat_toUInt32 (by omega), fun id word found => (place id word found).1, ?_⟩
  intro id word found
  have signed := toInt_toInt32 (place id word found).2
  exact ⟨by omega, signed⟩

/-- The counts of a script are stored as they are. -/
structure ExactScript (unit : ScriptUnit) : Prop where
  blocks : unit.blocks.length.toUInt32.toNat = unit.blocks.length
  words : ∀ block ∈ unit.blocks, block.code.size.toUInt32.toNat = block.code.size
  ids : ExactIds unit.writeIds

theorem exactScript_of_lt {unit : ScriptUnit} (small : scriptSize unit < 2 ^ 32) :
    ExactScript unit := by
  refine ⟨?_, fun block mem => ?_, ?_⟩
  · have entries := le_scriptSize unit
    exact toNat_toUInt32 (by omega)
  · have code := le_scriptSize_of_mem mem
    exact toNat_toUInt32 (by omega)
  · -- five bytes for each string leave no room for `2 ^ 31` of them
    have strings : 5 * unit.writeIds.strings.length ≤ scriptSize unit :=
      five_mul_le_framedSize _ _
    have count : unit.writeIds.size = unit.writeIds.strings.length :=
      StringTable.size_resolve _ _
    exact exactIds_of_lt (by omega)

/-- The counts of a dialogue are stored as they are, and so are those of its scripts. -/
structure ExactDocument (document : Document) : Prop where
  nodes : document.nodes.length.toUInt32.toNat = document.nodes.length
  snippets : document.scripts.length.toUInt32.toNat = document.scripts.length
  ids : ExactIds document.writeIds
  scripts : ∀ unit ∈ document.scripts, ExactScript unit

theorem exactDocument_of_lt {numbering : Numbering} {document : Document}
    (sound : document.Sound numbering) (small : dramaSize document < 2 ^ 32) :
    ExactDocument document := by
  have strings : 5 * document.writeIds.strings.length ≤ dramaSize document :=
    five_mul_le_framedSize _ _
  have count : document.writeIds.size = document.writeIds.strings.length :=
    StringTable.size_resolve _ _
  have ids : ExactIds document.writeIds := exactIds_of_lt (by omega)
  by_cases none : document.nodes = []
  · have noScripts := sound.nonempty none
    refine ⟨by rw [none]; rfl, by rw [noScripts]; rfl, ids, ?_⟩
    rw [noScripts]
    exact fun unit mem => nomatch mem
  · have parts := le_dramaSize none
    rw [recordSize] at parts
    refine ⟨toNat_toUInt32 (by omega), toNat_toUInt32 (by omega), ids, fun unit mem => ?_⟩
    have one : scriptSize unit ≤ (document.scripts.map scriptSize).sum :=
      List.le_sum_of_mem (List.mem_map_of_mem mem)
    exact exactScript_of_lt (by omega)

/-! ### Everything that compiles -/

variable {numbering : Numbering} {source : String}

/-- What is written has a size that a word holds. -/
theorem LimitedBy.lt_of_bytes {contents : Contents} {size : Nat} {bytes : Array UInt8}
    (limited : LimitedBy contents size) (written : contents.bytes = .ok bytes) : size < 2 ^ 32 := by
  refine Nat.lt_of_not_le fun large => ?_
  obtain ⟨e, failed⟩ := limited.bytes_fail.2 large
  cases written.symm.trans failed

theorem exactScript_of_bytes {bytes : Array UInt8}
    (written : (ofScript (.compile numbering source)).bytes = .ok bytes) :
    ExactScript (.compile numbering source) := by
  obtain ⟨data, h⟩ := ScriptUnit.exists_holds numbering source
  have limited := limitedBy_of_writesChunks (writesChunks_ofScript h) (length_image_script h)
  exact exactScript_of_lt (limited.lt_of_bytes written)

theorem exactDocument_of_bytes {document : Document} {bytes : Array UInt8}
    (compiled : Document.compile numbering source = .ok document)
    (written : (ofDocument document).bytes = .ok bytes) : ExactDocument document := by
  have sound := sound_of_compile compiled
  obtain ⟨snippets, scripts, sizes⟩ := exists_sized_snippets sound
  have limited := limitedBy_of_writesChunks (writesChunks_ofDocument sound scripts)
    (length_image_drama sound scripts sizes)
  exact exactDocument_of_lt sound (limited.lt_of_bytes written)

/-- What is read from a source has no more strings than the source has bytes, and neither have its
snippets. -/
theorem exactTables_ofSource (numbering : Numbering) (short : source.utf8ByteSize < 2 ^ 32) :
    ExactTable (Reading.ofSource source).collection.table source.utf8ByteSize ∧
      ∀ snippet ∈ (Reading.ofSource source).collection.snippets,
        ExactTable (ScriptUnit.compile numbering snippet).table source.utf8ByteSize := by
  have chars := Text.length_le_utf8ByteSize source
  have strings := size_table_ofSource_le source
  refine ⟨exactTable_of_le (Nat.le_trans strings chars) short, fun snippet mem => ?_⟩
  have shorter := length_snippet_lt mem
  have few := ScriptUnit.size_table_compile_le_length numbering snippet
  exact exactTable_of_le (by omega) short

theorem exactTables_of_compile (short : source.utf8ByteSize < 2 ^ 32) {document : Document}
    (compiled : Document.compile numbering source = .ok document) :
    ExactTable document.table source.utf8ByteSize ∧
      ∀ unit ∈ document.scripts, ExactTable unit.table source.utf8ByteSize := by
  obtain ⟨table, snippets⟩ := exactTables_ofSource numbering short
  obtain ⟨-, rfl⟩ := compile_eq_ok compiled
  exact ⟨table, List.forall_mem_map.2 snippets⟩

/-- No number is changed by being stored as a word, in a source of less than `2 ^ 32` bytes.  A
table has no more strings than the source has bytes, so its ids are positions; this holds of what is
read in front of a fault, too.  The words of a block and the operands of each list in it are counted
exactly, in any expression that compiles.  The counts and ids in a container are exact whenever it
is written. -/
theorem exact_of_compile (numbering : Numbering) (source : String)
    (short : source.utf8ByteSize < 2 ^ 32) :
    ExactTable (ScriptUnit.compile numbering source).table source.utf8ByteSize ∧
    ExactTable (Reading.ofSource source).collection.table source.utf8ByteSize ∧
    (∀ document, Document.compile numbering source = .ok document →
      ExactTable document.table source.utf8ByteSize ∧
        ∀ unit ∈ document.scripts, ExactTable unit.table source.utf8ByteSize) ∧
    (∀ (expr : Expr) table block, (expr.compile numbering table).1 = .ok block →
      block.code.size ≤ 2 ^ 32 - 1 ∧
        ∀ head operands, Expr.list (head :: operands) ∈ expr.visited →
          operands.length.toUInt32.toNat = operands.length) ∧
    (∀ bytes, (ofScript (.compile numbering source)).bytes = .ok bytes →
      ExactScript (.compile numbering source)) ∧
    ∀ document bytes, Document.compile numbering source = .ok document →
      (ofDocument document).bytes = .ok bytes → ExactDocument document := by
  refine ⟨exactTable_of_le (ScriptUnit.size_table_compile_le numbering source) short,
    (exactTables_ofSource numbering short).1,
    fun document compiled => exactTables_of_compile short compiled, ?_,
    fun bytes written => exactScript_of_bytes written,
    fun document bytes compiled written => exactDocument_of_bytes compiled written⟩
  intro expr table block compiled
  obtain ⟨code, lists⟩ := Expr.lt_of_compile compiled
  exact ⟨by omega, fun head operands mem => toNat_toUInt32 (lists head operands mem)⟩

/-- A call with an operand, a script, and a dialogue with a snippet. -/
theorem exact_of_compile_greeting :
    "(say \"a\")".utf8ByteSize < 2 ^ 32 ∧
    (∃ block, ((Expr.list [.symbol "say", .string ⟨0⟩]).compile .standard .empty).1 = .ok block ∧
      block.code.size ≤ 2 ^ 32 - 1) ∧
    (∃ bytes, (ofScript (.compile .standard "(say \"a\")")).bytes = .ok bytes ∧
      ExactTable (ScriptUnit.compile .standard "(say \"a\")").table 9 ∧
      ExactScript (.compile .standard "(say \"a\")")) ∧
    ";$<node id='a'><before>(set x 1)</before><say>Hi</say></node>".utf8ByteSize < 2 ^ 32 ∧
    ∃ document, Document.compile .standard
        ";$<node id='a'><before>(set x 1)</before><say>Hi</say></node>" = .ok document ∧
      ExactTable document.table 61 ∧
      ∃ bytes, (ofDocument document).bytes = .ok bytes ∧ ExactDocument document := by
  have shortScript : "(say \"a\")".utf8ByteSize < 2 ^ 32 := by decide
  have shortDialogue :
      ";$<node id='a'><before>(set x 1)</before><say>Hi</say></node>".utf8ByteSize < 2 ^ 32 := by
    decide
  obtain ⟨table, -, -, exprs, scripts, -⟩ := exact_of_compile .standard _ shortScript
  obtain ⟨-, -, tables, -, -, documents⟩ := exact_of_compile .standard _ shortDialogue
  obtain ⟨block, compiledCall⟩ : ∃ block,
      ((Expr.list [.symbol "say", .string ⟨0⟩]).compile .standard .empty).1 = .ok block :=
    exists_ok_of_isOk (by decide +kernel)
  obtain ⟨own, ok⟩ : ∃ bytes, (ofScript (.compile .standard "(say \"a\")")).bytes = .ok bytes :=
    exists_ok_of_isOk (by decide +kernel)
  obtain ⟨document, compiled, bytes, ok'⟩ := exists_bytes_greeting
  exact ⟨shortScript, ⟨block, compiledCall, (exprs _ _ _ compiledCall).1⟩,
    ⟨own, ok, table, scripts own ok⟩, shortDialogue,
    document, compiled, (tables document compiled).1,
    bytes, ok', documents document bytes compiled ok'⟩

end Libretto.Binary
