/-
Writing stops at the first string without a write id.

The chunks of a unit are written with write ids that somebody else chose.  What is written goes
through the strings in the order in which the unit refers to them, and stops at the first one that
has no write id.  Where the chunks end is known before, and as long as a word can hold it nothing
else goes wrong.  The scripts of a dialogue are containers of their own and bring their own write
ids.

* **`unresolved?`** — the fault that the first string without a write id causes, with
  `unresolved?_append` and `unresolved?_flatMap`: it is that of the first part that causes one;
* **`scriptEnd`**, **`dramaEnd`** — where chunks end that are written from a position on;
* **`ends_script`**, **`ends_drama`** — writing them fails for the first string without a write id,
  or leads there;
* **`stops_at_unresolved`** — hence for the write ids of any references, and for single blocks.
-/
import Libretto.Proofs.Code.Unresolved
import Libretto.Proofs.Container.Faults
import Mathlib.Algebra.Order.BigOperators.Group.List
import Mathlib.Algebra.Order.Group.Nat
import Mathlib.Data.List.Find

namespace Libretto.Binary

open Writer Script Drama

/-- The fault of the first string without a write id. -/
def unresolved? (ids : WriteIds) (references : List StringId) : Option ExportError :=
  (references.find? ids.lacks).map .unresolvedString

theorem unresolved?_append (ids : WriteIds) (front back : List StringId) :
    unresolved? ids (front ++ back) = (unresolved? ids front).or (unresolved? ids back) := by
  rw [unresolved?, List.find?_append, unresolved?, unresolved?]
  cases front.find? ids.lacks <;> rfl

theorem unresolved?_flatMap {α : Type} (ids : WriteIds) (references : α → List StringId)
    (items : List α) :
    unresolved? ids (items.flatMap references) =
      items.findSome? fun item => unresolved? ids (references item) := by
  induction items with
  | nil => rfl
  | cons item rest ih => rw [List.flatMap_cons, unresolved?_append, ih, findSome?_cons_eq_or]

/-! ### Scripts -/

/-- A block is written up to its first string without a write id. -/
theorem ends_block {block : Block} (distinct : block.slots.Nodup) (ids : WriteIds) (start : Nat) :
    Ends start (writeBlock ids block) (unresolved? ids block.references) ()
      (start + 4 * block.code.size) := by
  have fault := Block.faultOf_resolve distinct ids
  rw [writeBlock, unresolved?, ← fault]
  cases resolved : block.resolve ids with
  | error id => exact ends_throw _ _
  | ok code =>
    have length : (code.toList.flatMap wordBytes).length = 4 * block.code.size := by
      rw [length_flatMap_wordBytes, Array.length_toList, (Block.resolve_eq_ok resolved).1]
    exact length ▸ ends_bytes (code.toList.flatMap wordBytes)

/-- Where the chunks of a script end that are written from a position on. -/
def scriptEnd (unit : ScriptUnit) (position : Nat) : Nat :=
  extent alignment (aligned alignment (position + 12 + 8 * unit.blocks.length) + 4)
    (unit.blocks.map fun block => 4 * block.code.size)

variable {position top : Nat}

/-- The chunks of a script are written up to the first string without a write id. -/
theorem ends_script {unit : ScriptUnit} (distinct : ∀ block ∈ unit.blocks, block.slots.Nodup)
    (ids : WriteIds) (small : scriptEnd unit position < top + 2 ^ 32) :
    Ends position (writeScript unit top ids) (unresolved? ids unit.references) ()
      (scriptEnd unit position) := by
  let tableEnd := position + 12 + 8 * unit.blocks.length
  have behind : tableEnd ≤ aligned alignment tableEnd := le_aligned _ _
  have within : aligned alignment tableEnd + 4 ≤ scriptEnd unit position := le_extent _ _ _
  have body : Ends (aligned alignment tableEnd) (patchHere (position + 4 + 4) top) none () _ :=
    ends_patchHere (by omega) (by omega)
  let entries := List.range' (position + 4 + 4 + 4) unit.blocks.length 8
  have blocks : Ends (aligned alignment tableEnd + 4)
      (writeBlocksBy offsetFrom top ids (unit.blocks.zip entries))
      (unresolved? ids unit.references) () (scriptEnd unit position) := by
    rw [writeBlocksBy_eq, ScriptUnit.references, unresolved?_flatMap]
    refine ends_pieces (fun block mem start _ => ends_block (distinct block mem) ids start)
      (by decide) List.length_range' ?_ small
    exact fun entry mem => entry_le (by decide) mem (by omega)
  -- nothing in front of the blocks can fail, so theirs is the first fault
  exact (ends_tag _).seq ((ends_count _).seq (ends_reserve.bind ((ends_entries _ _).bind
    ((ends_align _).seq (body.seq ((ends_tag _).seq blocks))))))

/-! ### Dialogues -/

theorem ends_stringWord (ids : WriteIds) (id? : Option StringId) (start : Nat) :
    Ends start (stringWord ids id?) (unresolved? ids id?.toList)
      ((id?.bind ids.writeId?).getD absentWord) start := by
  cases id? with
  | none => exact ends_pure _
  | some id =>
    rw [stringWord, unresolved?, Option.toList_some, List.find?_singleton, WriteIds.lacks,
      Option.bind_some]
    cases ids.writeId? id with
    | none => exact ends_throw _ _
    | some writeId => exact ends_pure _

theorem ends_snippetWord {index? : Option Nat} (small : ∀ index ∈ index?, index < 0x80000000)
    (start : Nat) : Ends start (snippetWord index?) none (refWord index?) start := by
  cases index? with
  | none => exact ends_pure _
  | some index =>
    rw [snippetWord, if_pos (small index rfl)]
    exact ends_pure _

/-- The record of a node is written up to its first string without a write id. -/
theorem ends_node {node : Node} (small : ∀ index ∈ node.snippets, index < 0x80000000)
    (ids : WriteIds) (start : Nat) :
    Ends start (writeNode ids node) (unresolved? ids (Document.nodeReferences node)) ()
      (start + recordSize) := by
  have before : ∀ index ∈ node.before, index < 0x80000000 := fun index mem =>
    small index (List.mem_append_left _ (Option.mem_toList.2 mem))
  have after : ∀ index ∈ node.after, index < 0x80000000 := fun index mem =>
    small index (List.mem_append_right _ (Option.mem_toList.2 mem))
  have fault : unresolved? ids (Document.nodeReferences node) =
      (unresolved? ids [node.id]).or ((unresolved? ids node.plsay.toList).or
        ((unresolved? ids node.say.toList).or none)) := by
    rw [Option.or_none, ← unresolved?_append, ← unresolved?_append]
    rfl
  rw [fault]
  exact (ends_stringWord ids (some node.id) _).bind ((ends_word _).seq
    ((ends_snippetWord before _).bind ((ends_word _).seq
      ((ends_snippetWord after _).bind ((ends_word _).seq
        ((ends_stringWord ids node.plsay _).bind ((ends_word _).seq
          ((ends_stringWord ids node.say _).bind (ends_word _)))))))))

/-- The container of a script is written with its own write ids, which no string lacks. -/
theorem ends_snippet {unit : ScriptUnit} {data : List Datum} (h : unit.Holds data)
    (small : scriptSize unit < 2 ^ 32) {start : Nat} (top : start % alignment = 0) :
    Ends start (ofScript unit).write none () (start + scriptSize unit) := by
  intro stream here
  have length := length_image_script h
  have run : (ofScript unit).write stream = _ :=
    write_eq_ok (writesChunks_ofScript h) stream.bytes.toList (length ▸ small)
  have none : gap alignment stream.bytes.toList.length = [] := by
    rw [show stream.bytes.toList.length = start from here, gap, padding, if_pos top]
    rfl
  rw [run]
  refine ⟨rfl, rfl, ?_⟩
  rw [none, List.append_nil, ← here, ← length]
  simp [Stream.size, Stream.ofList]

variable {numbering : Numbering} {document : Document}

theorem ends_nodes (sound : document.Sound numbering) (few : document.scripts.length ≤ 0x80000000)
    (ids : WriteIds) (start : Nat) :
    Ends start (document.nodes.forM (writeNode ids)) (unresolved? ids document.references) ()
      (start + recordSize * document.nodes.length) := by
  rw [Document.references, unresolved?_flatMap]
  refine ends_forM fun node mem start => ends_node ?_ ids start
  exact fun index among => Nat.lt_of_lt_of_le (sound.snippets node mem index among) few

/-- Snippets bring no fault, as long as they fit. -/
theorem ends_snippets (sound : document.Sound numbering) {start : Nat} {entries : List Nat}
    (origin : top ≤ start) (count : entries.length = document.scripts.length)
    (room : ∀ entry ∈ entries, entry + 4 ≤ start)
    (small : extent alignment start (document.scripts.map scriptSize) < top + 2 ^ 32) :
    Ends start (writeSnippetsBy offsetFrom top (document.scripts.zip entries)) none ()
      (extent alignment start (document.scripts.map scriptSize)) := by
  have none : document.scripts.findSome? (fun _ => (none : Option ExportError)) = none :=
    List.findSome?_eq_none_iff.2 fun _ _ => rfl
  have fits := add_sum_le_extent alignment start (document.scripts.map scriptSize)
  rw [writeSnippets_eq, ← none]
  refine ends_pieces ?_ (by decide) count room small
  intro script mem start aligned
  have size : scriptSize script ≤ (document.scripts.map scriptSize).sum :=
    List.le_sum_of_mem (List.mem_map_of_mem mem)
  rw [sound.scripts] at mem
  obtain ⟨source, -, rfl⟩ := List.mem_map.1 mem
  obtain ⟨data, h⟩ := ScriptUnit.exists_holds numbering source
  exact ends_snippet h (by omega) aligned

/-- Where the chunks of a dialogue end that are written from a position on. -/
def dramaEnd (document : Document) (position : Nat) : Nat :=
  if document.nodes = [] then position + 16 + 4 * document.scripts.length
  else extent alignment (aligned alignment (position + 16 + 4 * document.scripts.length) + 4 +
    recordSize * document.nodes.length) (document.scripts.map scriptSize)

/-- The chunks of a dialogue are written up to the first string without a write id. -/
theorem ends_drama (sound : document.Sound numbering) (ids : WriteIds) (origin : top ≤ position)
    (small : dramaEnd document position < top + 2 ^ 32) :
    Ends position (writeDrama document top ids) (unresolved? ids document.references) ()
      (dramaEnd document position) := by
  let tableEnd := position + 16 + 4 * document.scripts.length
  have chunks : Ends tableEnd (do
      if document.nodes ≠ [] then
        align alignment
        writeTag .body
        patchHere (position + 4 + 4 + 4) top
        document.nodes.forM (writeNode ids)
        writeSnippetsBy offsetFrom top (document.scripts.zip
          (List.range' (position + 4 + 4 + 4 + 4) document.scripts.length 4)))
      (unresolved? ids document.references) () (dramaEnd document position) := by
    rw [dramaEnd] at small ⊢
    by_cases empty : document.nodes = []
    · have nothing : document.references = [] := by
        rw [Document.references, empty, List.flatMap_nil]
      rw [if_neg (not_not_intro empty), if_pos empty, nothing]
      exact ends_pure ()
    · rw [if_neg empty] at small
      rw [if_pos empty, if_neg empty]
      let body := aligned alignment tableEnd + 4
      let behind := body + recordSize * document.nodes.length
      change extent alignment behind _ < _ at small
      have aligns : tableEnd ≤ aligned alignment tableEnd := le_aligned _ _
      have fits : behind ≤ extent alignment behind (document.scripts.map scriptSize) :=
        le_extent _ _ _
      have patched : Ends body (patchHere (position + 4 + 4 + 4) top) none () body :=
        ends_patchHere (by omega) (by omega)
      have nodes : Ends body (document.nodes.forM (writeNode ids)) _ () behind :=
        ends_nodes sound (by omega) ids body
      let entries := List.range' (position + 4 + 4 + 4 + 4) document.scripts.length 4
      have room : ∀ entry ∈ entries, entry + 4 ≤ behind := fun _ mem =>
        entry_le (Nat.le_refl 4) mem (by omega)
      have snippets : Ends behind
          (writeSnippetsBy offsetFrom top (document.scripts.zip entries)) none () _ :=
        ends_snippets sound (by omega) List.length_range' room small
      have all := (ends_align alignment).seq ((ends_tag .body).seq
        (patched.seq (nodes.seq snippets)))
      rwa [Option.or_none] at all
  exact (ends_tag _).seq ((ends_count _).seq ((ends_count _).seq (ends_reserve.bind
    ((ends_reserveMany _ _).bind chunks))))

/-! ### Write ids of given references -/

/-- Among the strings of a table, those without a write id are those that nobody refers to. -/
theorem lacks_resolve {table : StringTable} {id : StringId} (known : (table.get? id).isSome)
    (given : List StringId) : (table.resolve given).lacks id = decide (id ∉ given) := by
  have listed : id ∈ (table.resolve given).order ↔ id ∈ given :=
    StringTable.mem_order_resolve.trans (and_iff_left known)
  rw [WriteIds.lacks, WriteIds.writeId?]
  by_cases mem : id ∈ given
  · rw [if_pos (listed.2 mem), decide_eq_false (not_not_intro mem)]
    rfl
  · rw [if_neg (mt listed.1 mem), decide_eq_true mem]
    rfl

/-- Writing stops at the first reference that is not given, and reaches a position if all are. -/
structure StopsAtFirst (w : Writer Unit) (stream : Stream) (references given : List StringId)
    (stop : Nat) : Prop where
  fault : fault? w stream = (references.find? (· ∉ given)).map .unresolvedString
  reaches : (∀ id ∈ references, id ∈ given) → ∃ later, w stream = .ok () later ∧ later.size = stop

theorem stopsAtFirst_of_ends {w : Writer Unit} {stream : Stream} {table : StringTable}
    {references given : List StringId} {stop : Nat}
    (known : ∀ id ∈ references, (table.get? id).isSome)
    (ends : Ends stream.size w (unresolved? (table.resolve given) references) () stop) :
    StopsAtFirst w stream references given stop := by
  have first : references.find? (table.resolve given).lacks = references.find? (· ∉ given) :=
    List.find?_congr fun id mem => lacks_resolve (known id mem) given
  rw [unresolved?, first] at ends
  refine ⟨ends.fault?_eq, fun all => ?_⟩
  have none : references.find? (· ∉ given) = none :=
    List.find?_eq_none.2 fun id mem => by simpa using all id mem
  rw [none] at ends
  exact ends.runs

/-- The chunks of everything that compiles are written up to the first string of a slot or a record
that the given references leave out, wherever they are written and as long as they fit; without one
they are written to their end.  The scripts of a dialogue lack no write id.  A single block resolves
up to the first string without a write id, whatever its strings are. -/
theorem stops_at_unresolved (numbering : Numbering) (source : String) (given : List StringId)
    {top : Nat} {stream : Stream} (origin : top ≤ stream.size) :
    (∀ unit, ScriptUnit.compile numbering source = unit →
      scriptEnd unit stream.size < top + 2 ^ 32 →
        StopsAtFirst (writeScript unit top (unit.table.resolve given)) stream unit.references given
          (scriptEnd unit stream.size)) ∧
      (∀ document, Document.compile numbering source = .ok document →
        (dramaEnd document stream.size < top + 2 ^ 32 →
          StopsAtFirst (writeDrama document top (document.table.resolve given)) stream
            document.references given (dramaEnd document stream.size)) ∧
        ∀ script ∈ document.scripts, ∀ behind id,
          fault? (ofScript script).write behind ≠ some (.unresolvedString id)) ∧
      ∀ (e : Expr) (table : StringTable) (block : Block),
        (e.compile numbering table).1 = .ok block →
          ∀ ids : WriteIds, faultOf (block.resolve ids) = block.references.find? ids.lacks := by
  refine ⟨?_, fun document compiled => ?_, ?_⟩
  · rintro unit rfl small
    obtain ⟨data, h⟩ := ScriptUnit.exists_holds numbering source
    exact stopsAtFirst_of_ends h.isSome_get? (ends_script h.nodup_slots _ small)
  · have sound := sound_of_compile compiled
    refine ⟨fun small => ?_, fun script mem behind id failed => ?_⟩
    · exact stopsAtFirst_of_ends sound.strings (ends_drama sound _ origin small)
    · rw [sound.scripts] at mem
      obtain ⟨snippet, -, rfl⟩ := List.mem_map.1 mem
      obtain ⟨data, h⟩ := ScriptUnit.exists_holds numbering snippet
      obtain ⟨later, run⟩ := run_of_fault? failed
      have limited := limitedBy_of_writesChunks (writesChunks_ofScript h) (length_image_script h)
      obtain ⟨offset, overflow⟩ := limited.write_overflow _ _ _ run
      cases overflow
  · intro e table block compiled ids
    exact Block.faultOf_resolve (e.nodup_slots_of_compile compiled) ids

/-- A literal between two names is missing, then the text of a node behind its identifier, then a
literal of another table.  The chunks stand behind five bytes, and two of these count. -/
theorem stops_at_unresolved_between :
    let stream := Stream.ofList [1, 2, 3, 4, 5]
    let script := ScriptUnit.compile .standard "(set x \"a\")\n(say \"b\")"
    fault? (writeScript script 3 (script.table.resolve [⟨3⟩, ⟨9⟩, ⟨1⟩])) stream =
        some (.unresolvedString ⟨0⟩) ∧
      (∃ document, Document.compile .standard
          ";$<node id='a'><before>(set x 1)</before><say>Hi</say></node>" = .ok document ∧
        fault? (writeDrama document 3 (document.table.resolve [⟨0⟩])) stream =
          some (.unresolvedString ⟨1⟩)) ∧
      ∃ block, (Expr.compile .standard (.list [.symbol "say", .string ⟨7⟩]) .empty).1 = .ok block ∧
        faultOf (block.resolve ((StringTable.ofList ["say"]).resolve [⟨0⟩])) = some ⟨7⟩ := by
  intro stream script
  have origin : 3 ≤ stream.size := by decide
  refine ⟨?_, ?_, ?_⟩
  · obtain ⟨stops, -⟩ := stops_at_unresolved .standard "(set x \"a\")\n(say \"b\")" [⟨3⟩, ⟨9⟩, ⟨1⟩]
      origin
    rw [(stops script rfl (by decide +kernel)).fault]
    decide +kernel
  · obtain ⟨document, compiled, fits, first⟩ : ∃ document, Document.compile .standard
        ";$<node id='a'><before>(set x 1)</before><say>Hi</say></node>" = .ok document ∧
          dramaEnd document stream.size < 3 + 2 ^ 32 ∧
            document.references.find? (· ∉ ([⟨0⟩] : List StringId)) = some ⟨1⟩ := by
      obtain ⟨document, compiled, checked⟩ := exists_ok_of_any (x := Document.compile .standard
        ";$<node id='a'><before>(set x 1)</before><say>Hi</say></node>")
        (p := fun document => dramaEnd document stream.size < 3 + 2 ^ 32 &&
          document.references.find? (· ∉ ([⟨0⟩] : List StringId)) == some ⟨1⟩) (by decide +kernel)
      rw [Bool.and_eq_true, decide_eq_true_eq, beq_iff_eq] at checked
      exact ⟨document, compiled, checked⟩
    obtain ⟨-, stops, -⟩ := stops_at_unresolved .standard
      ";$<node id='a'><before>(set x 1)</before><say>Hi</say></node>" [⟨0⟩] origin
    refine ⟨document, compiled, ?_⟩
    rw [((stops document compiled).1 fits).fault, first]
    rfl
  · obtain ⟨block, compiled, first⟩ := exists_ok_of_any
      (x := (Expr.compile .standard (.list [.symbol "say", .string ⟨7⟩]) .empty).1)
      (p := fun block => block.references.find?
        ((StringTable.ofList ["say"]).resolve [⟨0⟩]).lacks == some ⟨7⟩) (by decide +kernel)
    obtain ⟨-, -, resolves⟩ := stops_at_unresolved .standard "" [] origin
    refine ⟨block, compiled, ?_⟩
    rw [resolves _ _ _ compiled]
    exact beq_iff_eq.1 first

end Libretto.Binary
