/-
Containers region by region.

The positions in a container are computed from sizes alone, and what a header or a table says of a
region is its position.

* **`listRegions`**, **`frame`**, **`scriptRegions`**, **`dramaRegions`** — the regions of string
  lists and containers, with `makeUp_frame`, `makeUp_scriptRegions` and `makeUp_dramaRegions`: they
  make up the layouts that are written;
* **`ScriptLayout`**, **`DramaLayout`** — what is so of the bytes of scripts and dialogues;
* **`regions_of_compile`** — it is so of the bytes of everything that compiles.

A snippet is a container of its own and begins at an aligned position, so its blocks are aligned in
the file that holds it as well.
-/
import Libretto.Proofs.Container.Dialogue
import Libretto.Proofs.Container.Region

namespace Libretto.Binary

open Writer (padding)
open Drama Script

/-! ### Strings and the frame -/

/-- The texts of a string list whose tag stands at 0. -/
def textRegions (strings : List String) : List Region :=
  place 1 (8 + 4 * strings.length) (strings.map fun text => text.toUTF8.toList ++ [0])

/-- A string list whose tag stands at 0. -/
def listRegions (strings : List String) : List Region :=
  ⟨0, Tag.strings.bytes ++ (wordBytes strings.length.toUInt32 ++ offsets (textRegions strings))⟩ ::
    textRegions strings

/-- The regions of a container with the given chunks and strings. -/
def frame (kind : Tag) (chunks : List Region) (strings : List String) : List Region :=
  let base := aligned alignment (reach headerSize chunks)
  let listed := if strings = [] then [] else (listRegions strings).map (.moved base)
  let size := reach headerSize (chunks ++ listed)
  ⟨0, kind.bytes ++ (wordBytes 0 ++ (wordBytes size.toUInt32 ++
    (wordBytes headerSize.toUInt32 ++
      (wordBytes (if strings = [] then 0 else base.toUInt32) ++ wordBytes 0))))⟩ ::
    (chunks ++ listed)

/-- The texts of a string list stand behind its table. -/
theorem stop_listHead (strings : List String) :
    0 + (Tag.strings.bytes ++ (wordBytes strings.length.toUInt32 ++
      offsets (textRegions strings))).length = 8 + 4 * strings.length := by
  simp only [textRegions, List.length_append, length_offsets, length_place, List.length_map,
    length_wordBytes, Tag.length_bytes]
  omega

/-- A string list is made up of its regions. -/
theorem makeUp_listRegions (strings : List String) :
    MakeUp 0 (listRegions strings) (stringList strings) := by
  have pieces : (strings.map textPiece).map Piece.bytes =
      strings.map fun text => text.toUTF8.toList ++ [0] := by
    rw [List.map_map]
    rfl
  have entries : ∀ piece ∈ strings.map textPiece, piece.entry = [] := by
    intro piece mem
    obtain ⟨text, -, rfl⟩ := List.mem_map.1 mem
    rfl
  have table := table_eq_offsets 1 (8 + 4 * strings.length) entries
  have texts := makeUp_place 1 (8 + 4 * strings.length) (strings.map textPiece)
  rw [pieces] at table texts
  have all := MakeUp.cons (Nat.le_refl 0) (stop_listHead strings) texts
  simpa only [listRegions, stringList, table, textRegions, Nat.sub_self, List.replicate_zero,
    List.nil_append, List.append_assoc] using all

/-- A string list stands at the next aligned position. -/
theorem makeUp_moved_listRegions (position : Nat) (strings : List String) :
    MakeUp position ((listRegions strings).map (.moved (aligned alignment position)))
      (gap alignment position ++ stringList strings) := by
  have moved := (makeUp_listRegions strings).moved (aligned alignment position)
  have zeros : aligned alignment position - position = padding alignment position :=
    Nat.add_sub_cancel_left _ _
  rw [gap, ← zeros]
  exact moved.of_le (by simp [listRegions]) (le_aligned alignment position)

/-- A container is made up of its regions. -/
theorem makeUp_frame (kind : Tag) {regions : List Region} {chunks : List UInt8}
    (h : MakeUp headerSize regions chunks) (strings : List String) :
    MakeUp 0 (frame kind regions strings) (container kind chunks strings) := by
  let behind := reach headerSize regions
  let listed : List Region := if strings = [] then [] else
    (listRegions strings).map (.moved (aligned alignment behind))
  let tail := if strings = [] then [] else gap alignment behind ++ stringList strings
  have list : MakeUp behind listed tail := by
    simp only [listed, tail]
    by_cases none : strings = []
    · rw [if_pos none, if_pos none]
      exact ⟨trivial, rfl⟩
    · rw [if_neg none, if_neg none]
      exact makeUp_moved_listRegions behind strings
  have behind_eq : behind = headerSize + chunks.length := h.reach_eq
  have all : MakeUp headerSize (regions ++ listed) (chunks ++ tail) := h.append list
  have size : reach headerSize (regions ++ listed) =
      headerSize + chunks.length + tail.length := by
    rw [all.reach_eq, List.length_append, Nat.add_assoc]
  let header := kind.bytes ++ (wordBytes 0 ++
    (wordBytes (reach headerSize (regions ++ listed)).toUInt32 ++
      (wordBytes headerSize.toUInt32 ++
        (wordBytes (if strings = [] then 0 else (aligned alignment behind).toUInt32) ++
          wordBytes 0))))
  have length : 0 + header.length = headerSize := rfl
  have whole := MakeUp.cons (Nat.le_refl 0) length all
  have bytes : container kind chunks strings =
      List.replicate (0 - 0) 0 ++ (header ++ (chunks ++ tail)) := by
    simp only [header, size, container, tail, behind_eq, Nat.sub_self, List.replicate_zero,
      List.nil_append, List.append_assoc]
  rw [bytes]
  exact whole

/-! ### Scripts -/

/-- The blocks of a script. -/
def blockRegions (codes : List (List UInt32)) : List Region :=
  place alignment (aligned alignment (scriptTableEnd codes.length) + 4)
    (codes.map (List.flatMap wordBytes))

/-- The chunks of a script; the entry of a block has its position and its length in words. -/
def scriptRegions (codes : List (List UInt32)) : List Region :=
  let body := aligned alignment (scriptTableEnd codes.length)
  let table := (blockRegions codes).flatMap fun r =>
    wordBytes r.start.toUInt32 ++ wordBytes (r.bytes.length / 4).toUInt32
  ⟨headerSize, Tag.info.bytes ++ (wordBytes codes.length.toUInt32 ++
    (wordBytes body.toUInt32 ++ table))⟩ :: ⟨body, Tag.code.bytes⟩ :: blockRegions codes

theorem bytes_codePieces (codes : List (List UInt32)) :
    (codes.map codePiece).map Piece.bytes = codes.map (List.flatMap wordBytes) := by
  rw [List.map_map]
  rfl

/-- The chunks of a script are made up of their regions. -/
theorem makeUp_scriptRegions (codes : List (List UInt32)) :
    MakeUp headerSize (scriptRegions codes) (scriptChunks codes) := by
  let tableEnd := scriptTableEnd codes.length
  let body := aligned alignment tableEnd
  let info := Tag.info.bytes ++ (wordBytes codes.length.toUInt32 ++ (wordBytes body.toUInt32 ++
    Piece.table alignment (body + 4) (codes.map codePiece)))
  have entries : ∀ piece ∈ codes.map codePiece,
      piece.entry = wordBytes (piece.bytes.length / 4).toUInt32 := by
    intro piece mem
    obtain ⟨code, -, rfl⟩ := List.mem_map.1 mem
    have length : (codePiece code).bytes.length = 4 * code.length := length_flatMap_wordBytes code
    rw [length, Nat.mul_div_cancel_left _ (by decide)]
    rfl
  have table := table_eq (f := fun bytes => wordBytes (bytes.length / 4).toUInt32) alignment
    (body + 4) entries
  have blocks := makeUp_place alignment (body + 4) (codes.map codePiece)
  rw [bytes_codePieces] at table blocks
  have regions : scriptRegions codes =
      ⟨headerSize, info⟩ :: ⟨body, Tag.code.bytes⟩ :: blockRegions codes := by
    simp only [info, table]
    rfl
  have stop : headerSize + info.length = tableEnd := by
    simp only [info, tableEnd, List.length_append, length_wordBytes, Tag.length_bytes,
      ← Piece.length_openTable, length_openTable_codes, scriptTableEnd]
    omega
  have zeros : body - tableEnd = padding alignment tableEnd := Nat.add_sub_cancel_left _ _
  have code : MakeUp tableEnd (⟨body, Tag.code.bytes⟩ :: blockRegions codes) _ :=
    .cons (le_aligned _ _) rfl blocks
  have all := MakeUp.cons (Nat.le_refl headerSize) stop code
  rw [zeros] at all
  rw [regions]
  simpa only [info, scriptChunks, gap, Nat.sub_self, List.replicate_zero, List.nil_append,
    List.append_assoc] using all

/-! ### Dialogues -/

/-- The snippets of a dialogue with the given number of nodes. -/
def snippetRegions (nodes : Nat) (snippets : List Bytes) : List Region :=
  place alignment (aligned alignment (dramaTableEnd snippets.length) + 4 + recordSize * nodes)
    (snippets.map Array.toList)

/-- The chunks of a dialogue; without nodes there is no body. -/
def dramaRegions (records : List NodeRecord) (snippets : List Bytes) : List Region :=
  let body := aligned alignment (dramaTableEnd snippets.length)
  let placed := snippetRegions records.length snippets
  if records = [] then
    [⟨headerSize, Tag.head.bytes ++ (wordBytes 0 ++ (wordBytes 0 ++ wordBytes 0))⟩]
  else
    ⟨headerSize, Tag.head.bytes ++ (wordBytes records.length.toUInt32 ++
      (wordBytes snippets.length.toUInt32 ++ (wordBytes (body + 4).toUInt32 ++
        offsets placed)))⟩ :: ⟨body, Tag.body.bytes⟩ :: ⟨body + 4, recordBytes records⟩ :: placed

/-- The chunks of a dialogue are made up of their regions. -/
theorem makeUp_dramaRegions {records : List NodeRecord} {snippets : List Snippet}
    (nonempty : records = [] → snippets = []) :
    MakeUp headerSize (dramaRegions records (snippets.map fun snippet => snippet.image.toArray))
      (dialogueChunks records snippets) := by
  by_cases none : records = []
  · obtain rfl := nonempty none
    subst none
    exact ⟨⟨Nat.le_refl _, trivial⟩, rfl⟩
  · let tableEnd := dramaTableEnd snippets.length
    let body := aligned alignment tableEnd
    let behind := body + 4 + recordSize * records.length
    let head := Tag.head.bytes ++ (wordBytes records.length.toUInt32 ++
      (wordBytes snippets.length.toUInt32 ++ (wordBytes (body + 4).toUInt32 ++
        Piece.table alignment behind (snippetPieces snippets))))
    have pieces : (snippetPieces snippets).map Piece.bytes =
        (snippets.map fun snippet => snippet.image.toArray).map Array.toList := by
      rw [snippetPieces, List.map_map, List.map_map, List.map_map]
      rfl
    have entries : ∀ piece ∈ snippetPieces snippets, piece.entry = [] := by
      intro piece mem
      obtain ⟨image, -, rfl⟩ := List.mem_map.1 mem
      rfl
    have table := table_eq_offsets alignment behind entries
    have placed := makeUp_place alignment behind (snippetPieces snippets)
    have regions : dramaRegions records (snippets.map fun snippet => snippet.image.toArray) =
        ⟨headerSize, head⟩ :: ⟨body, Tag.body.bytes⟩ :: ⟨body + 4, recordBytes records⟩ ::
          place alignment behind ((snippetPieces snippets).map Piece.bytes) := by
      simp only [dramaRegions, if_neg none, head, table, pieces, snippetRegions, List.length_map]
      rfl
    have stop : headerSize + head.length = tableEnd := by
      simp only [head, tableEnd, List.length_append, length_wordBytes, Tag.length_bytes,
        ← Piece.length_openTable, length_openTable_snippets, dramaTableEnd]
      omega
    have recordsStop : body + 4 + (recordBytes records).length = behind := by
      rw [length_recordBytes]
    have zeros : body - tableEnd = padding alignment tableEnd := Nat.add_sub_cancel_left _ _
    have nodes := MakeUp.cons (Nat.le_refl (body + 4)) recordsStop placed
    have bodies : MakeUp tableEnd (⟨body, Tag.body.bytes⟩ :: _) _ :=
      .cons (le_aligned _ _) rfl nodes
    have all := MakeUp.cons (Nat.le_refl headerSize) stop bodies
    rw [zeros] at all
    rw [regions]
    simp only [head, dialogueChunks, dramaChunks, List.map_eq_nil_iff, if_neg none, gap,
      Nat.sub_self, List.replicate_zero, List.nil_append, List.append_assoc, List.length_map]
      at all ⊢
    exact all

/-! ### Compiled sources -/

theorem strings_resolve_eq_nil {table : StringTable} {references : List StringId}
    (known : ∀ id ∈ references, (table.get? id).isSome) :
    (table.resolve references).strings = [] ↔ references = [] := by
  refine ⟨?_, fun none => none ▸ rfl⟩
  intro none
  cases references with
  | nil => rfl
  | cons id rest =>
    obtain ⟨text, found⟩ := Option.isSome_iff_exists.1 (known id List.mem_cons_self)
    rw [StringTable.strings_resolve, List.filterMap_cons_some found, List.eraseDups_cons] at none
    cases none

/-- The container of a script unit, region by region. -/
structure ScriptLayout (unit : ScriptUnit) (codes : List (List UInt32)) (bytes : Bytes) : Prop where
  /-- The codes are those of the unit's blocks, with write ids. -/
  resolved : unit.blocks.map (·.resolve unit.writeIds) = codes.map (.ok ·.toArray)
  regions : LaidOut bytes (frame .script (scriptRegions codes) unit.writeIds.strings)
  listed : unit.writeIds.strings = [] ↔ unit.references = []
  aligned : ∀ block ∈ blockRegions codes, block.start % alignment = 0

/-- A region that is the container of a script unit: its blocks are aligned in the bytes around
it. -/
structure Embedded (bytes : Bytes) (unit : ScriptUnit) (r : Region) : Prop where
  aligned : r.start % alignment = 0
  blocks : ∃ codes, ScriptLayout unit codes r.bytes.toArray ∧
    ∀ block ∈ blockRegions codes, (r.start + block.start) % alignment = 0 ∧
      Has bytes (r.start + block.start) block.bytes

/-- The container of a dialogue, region by region. -/
structure DramaLayout (document : Document) (snippets : List Bytes) (bytes : Bytes) : Prop where
  /-- The snippets are the containers of the scripts by themselves. -/
  scripts : document.scripts.map (fun unit => (ofScript unit).bytes) = snippets.map .ok
  regions : LaidOut bytes (frame .drama
    (dramaRegions (document.nodes.map (record document.writeIds)) snippets)
    document.writeIds.strings)
  empty : document.nodes = [] → snippets = []
  listed : document.writeIds.strings = [] ↔ document.references = []
  embedded : List.Forall₂ (Embedded bytes) document.scripts
    (snippetRegions document.nodes.length snippets)

theorem scriptLayout_of_bytes {unit : ScriptUnit} {data : List Datum} (h : unit.Holds data)
    {bytes : Bytes} (written : (ofScript unit).bytes = .ok bytes) :
    ScriptLayout unit (codes unit data) bytes := by
  obtain ⟨rfl, small⟩ := image_of_bytes (writesChunks_ofScript h) written
  have whole := makeUp_frame .script (makeUp_scriptRegions (codes unit data)) unit.writeIds.strings
  refine ⟨resolve_eq_codes h, .of_makeUp whole (by simpa using small), ?_, ?_⟩
  · exact strings_resolve_eq_nil h.isSome_get?
  · exact fun block mem => start_mod_of_mem_place (by decide) mem

theorem mem_frame {kind : Tag} {chunks : List Region} {strings : List String} {r : Region}
    (mem : r ∈ chunks) : r ∈ frame kind chunks strings :=
  List.mem_cons_of_mem _ (List.mem_append_left _ mem)

theorem embedded_of_place {bytes : Bytes} {units : List ScriptUnit} {snippets : List Bytes}
    (layouts : List.Forall₂ (fun unit own => ∃ codes, ScriptLayout unit codes own) units snippets)
    {position : Nat} (found : ∀ r ∈ place alignment position (snippets.map Array.toList),
      Has bytes r.start r.bytes) :
    List.Forall₂ (Embedded bytes) units
      (place alignment position (snippets.map Array.toList)) := by
  induction layouts generalizing position with
  | nil => exact .nil
  | @cons unit own _ _ layout _ ih =>
    rw [List.map_cons, place] at found ⊢
    rw [List.forall_mem_cons] at found
    obtain ⟨codes, layout⟩ := layout
    have start : aligned alignment position % alignment = 0 := add_padding_mod (by decide) position
    refine .cons ⟨start, codes, layout, ?_⟩ (ih found.2)
    intro block mem
    refine ⟨?_, ?_⟩
    · rw [Nat.add_mod, start, layout.aligned block mem]
      rfl
    · refine found.1.inside (layout.regions.found block (mem_frame ?_))
      exact List.mem_cons_of_mem _ (List.mem_cons_of_mem _ mem)

/-- The containers of snippets are laid out as those of scripts. -/
theorem scripts_of_writesSnippet {numbering : Numbering} {units : List ScriptUnit}
    {sources : List String} (compiled : units = sources.map (.compile numbering))
    {snippets : List Snippet} (written : List.Forall₂ WritesSnippet units snippets)
    (small : ∀ snippet ∈ snippets, snippet.image.length < 2 ^ 32) :
    units.map (fun unit => (ofScript unit).bytes) =
        (snippets.map fun snippet => snippet.image.toArray).map .ok ∧
      List.Forall₂ (fun unit own => ∃ codes, ScriptLayout unit codes own) units
        (snippets.map fun snippet => snippet.image.toArray) := by
  induction written generalizing sources with
  | nil => exact ⟨rfl, .nil⟩
  | @cons unit snippet _ _ first _ ih =>
    cases sources with
    | nil => cases compiled
    | cons source sources =>
      obtain ⟨rfl, rest⟩ := List.cons.inj compiled
      rw [List.forall_mem_cons] at small
      obtain ⟨bytes, layouts⟩ := ih rest small.2
      have own := bytes_of_image first.1 (first.image_eq ▸ small.1)
      rw [first.image_eq] at own
      obtain ⟨data, h⟩ := ScriptUnit.exists_holds numbering source
      refine ⟨?_, .cons ⟨_, scriptLayout_of_bytes h own⟩ layouts⟩
      rw [List.map_cons, List.map_cons, List.map_cons, own, bytes]

theorem dramaLayout_of_bytes {numbering : Numbering} {document : Document}
    (sound : document.Sound numbering) {snippets : List Snippet}
    (scripts : List.Forall₂ WritesSnippet document.scripts snippets) {bytes : Bytes}
    (written : (ofDocument document).bytes = .ok bytes) :
    DramaLayout document (snippets.map fun snippet => snippet.image.toArray) bytes := by
  obtain ⟨rfl, small⟩ := image_of_bytes (writesChunks_ofDocument sound scripts) written
  let records := document.nodes.map (record document.writeIds)
  have nonempty : records = [] → snippets = [] := snippets_eq_nil sound scripts
  obtain ⟨own, layouts⟩ :=
    scripts_of_writesSnippet sound.scripts scripts (length_image_lt sound scripts small)
  have whole := makeUp_frame .drama (makeUp_dramaRegions nonempty) document.writeIds.strings
  have regions : LaidOut ((ofDocument document).image (dialogueChunks records snippets)).toArray
      (frame .drama (dramaRegions records (snippets.map fun snippet => snippet.image.toArray))
        document.writeIds.strings) := .of_makeUp whole (by simpa using small)
  refine ⟨own, regions, ?_, strings_resolve_eq_nil sound.strings, ?_⟩
  · intro none
    rw [nonempty (List.map_eq_nil_iff.2 none)]
    rfl
  · refine embedded_of_place layouts ?_
    intro r mem
    by_cases none : records = []
    · -- no snippet stands in a dialogue without nodes
      rw [nonempty none] at mem
      cases mem
    · refine regions.found r (mem_frame ?_)
      have count : records.length = document.nodes.length := List.length_map _
      rw [dramaRegions, if_neg none, count]
      exact List.mem_cons_of_mem _ (List.mem_cons_of_mem _ (List.mem_cons_of_mem _ mem))

/-- Scripts and dialogues are written region by region: the positions that their headers and tables
give are those of the regions, which lie one behind the other with zero bytes between them, and
every block is aligned, within a snippet too. -/
theorem regions_of_compile (numbering : Numbering) (source : String) :
    (∀ bytes, (ofScript (.compile numbering source)).bytes = .ok bytes →
      ∃ codes, ScriptLayout (.compile numbering source) codes bytes) ∧
    ∀ document, Document.compile numbering source = .ok document →
      ∀ bytes, (ofDocument document).bytes = .ok bytes →
        ∃ snippets, DramaLayout document snippets bytes := by
  refine ⟨?_, ?_⟩
  · intro bytes written
    obtain ⟨data, h⟩ := ScriptUnit.exists_holds numbering source
    exact ⟨_, scriptLayout_of_bytes h written⟩
  · intro document compiled bytes written
    have sound := sound_of_compile compiled
    obtain ⟨snippets, scripts⟩ := exists_snippets sound
    exact ⟨_, dramaLayout_of_bytes sound scripts written⟩

/-- A script of two blocks, and a dialogue with a snippet. -/
theorem regions_of_compile_greeting :
    (∃ bytes, (ofScript (.compile .standard "(say \"a\")\n(set x 1)")).bytes = .ok bytes ∧
      ∃ codes, ScriptLayout (.compile .standard "(say \"a\")\n(set x 1)") codes bytes) ∧
    ∃ document, Document.compile .standard
        ";$<node id='a'><before>(set x 1)</before><say>Hi</say></node>" = .ok document ∧
      ∃ bytes, (ofDocument document).bytes = .ok bytes ∧
        ∃ snippets, DramaLayout document snippets bytes := by
  refine ⟨?_, ?_⟩
  · obtain ⟨bytes, written⟩ : ∃ bytes,
        (ofScript (.compile .standard "(say \"a\")\n(set x 1)")).bytes = .ok bytes :=
      exists_ok_of_isOk (by decide +kernel)
    exact ⟨bytes, written, (regions_of_compile _ _).1 bytes written⟩
  · obtain ⟨document, compiled, bytes, written⟩ := exists_bytes_greeting
    exact ⟨document, compiled, bytes, written,
      (regions_of_compile _ _).2 document compiled bytes written⟩

end Libretto.Binary
