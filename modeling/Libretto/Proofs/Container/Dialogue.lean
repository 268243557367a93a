/-
Dialogue containers: what is read is what was compiled.

* **`writes_drama`** — nodes and snippets are written as their layout;
* **`readSnippets_located`**, **`ofBytes_dramaContainer`** — the layout is read back;
* **`ofBytes_eq_document`** — a reader sees the nodes, the snippets and the strings of a document.
-/
import Libretto.Proofs.Container.Opening
import Libretto.Proofs.Container.Records
import Libretto.Proofs.Container.Script

namespace Libretto.Binary

open Writer Drama Script
open Text (untilNul)

/-- What the container of a snippet is made of: its codes and its strings. -/
structure Snippet where
  codes : List (List UInt32)
  strings : List String

/-- The container of a snippet. -/
def Snippet.image (snippet : Snippet) : List UInt8 :=
  scriptContainer snippet.codes snippet.strings

/-- What a reader sees of a snippet. -/
def Snippet.view (snippet : Snippet) : ScriptView :=
  ⟨snippet.codes, snippet.strings.map untilNul⟩

/-- The unit is written as the given snippet. -/
def WritesSnippet (unit : ScriptUnit) (snippet : Snippet) : Prop :=
  WritesChunks (ofScript unit) (scriptChunks snippet.codes) ∧
    unit.writeIds.strings = snippet.strings

/-- A unit that holds data is written with their codes. -/
theorem writesSnippet_of_holds {unit : ScriptUnit} {data : List Datum} (h : unit.Holds data) :
    WritesSnippet unit ⟨codes unit data, unit.writeIds.strings⟩ :=
  ⟨writesChunks_ofScript h, rfl⟩

theorem exists_writesSnippet (numbering : Numbering) (source : String) :
    ∃ snippet, WritesSnippet (.compile numbering source) snippet := by
  obtain ⟨data, h⟩ := ScriptUnit.exists_holds numbering source
  exact ⟨_, writesSnippet_of_holds h⟩

theorem WritesSnippet.image_eq {unit : ScriptUnit} {snippet : Snippet}
    (h : WritesSnippet unit snippet) :
    (ofScript unit).image (scriptChunks snippet.codes) = snippet.image := by
  rw [image_ofScript, h.2]
  rfl

/-! ### Writing -/

/-- The snippets of a dialogue. -/
def snippetPieces (snippets : List Snippet) : List Piece :=
  (snippets.map Snippet.image).map snippetPiece

theorem openTable_snippetPieces (snippets : List Snippet) :
    Piece.openTable (snippetPieces snippets) =
      (List.replicate snippets.length (wordBytes 0)).flatten := by
  induction snippets with
  | nil => rfl
  | cons snippet rest ih =>
    rw [snippetPieces, List.map_cons, List.map_cons, Piece.openTable, List.length_cons,
      List.replicate_succ, List.flatten_cons]
    exact congrArg (wordBytes 0 ++ ·) ih

theorem length_openTable_snippets (snippets : List Snippet) :
    (Piece.openTable (snippetPieces snippets)).length = 4 * snippets.length := by
  rw [openTable_snippetPieces, List.length_flatten, List.map_replicate, List.sum_replicate_nat,
    length_wordBytes, Nat.mul_comm]

variable {front : List UInt8}

theorem writesPiece_snippets {scripts : List ScriptUnit} {snippets : List Snippet}
    (h : List.Forall₂ WritesSnippet scripts snippets) (front : List UInt8) :
    List.Forall₂ (WritesPiece front alignment) (scripts.map fun unit => (ofScript unit).write)
      (snippetPieces snippets) := by
  induction h with
  | nil => exact .nil
  | cons written _ ih => exact .cons (written.image_eq ▸ writesPiece_write written.1 front) ih

/-- The chunks of a dialogue with the given records and snippets. -/
def dialogueChunks (records : List NodeRecord) (snippets : List Snippet) : List UInt8 :=
  dramaChunks (records.map NodeRecord.words) (snippets.map Snippet.image)

/-- The table of snippets is reserved. -/
theorem writes_snippetTable (before : List UInt8) (snippets : List Snippet) :
    Writes front (reserveMany snippets.length) before
      (Piece.entries (front.length + before.length) (snippetPieces snippets))
      (before ++ Piece.openTable (snippetPieces snippets)) := by
  have entries : ∀ piece ∈ snippetPieces snippets, piece.entry = [] := by
    intro piece mem
    obtain ⟨image, -, rfl⟩ := List.mem_map.1 mem
    rfl
  rw [entries_eq_range' entries, openTable_snippetPieces, snippetPieces, List.length_map,
    List.length_map]
  exact writes_reserveMany _ _

/-- The chunks of a sound document are written as its records and snippets. -/
theorem writes_drama {numbering : Numbering} {document : Document} {ids : WriteIds}
    {snippets : List Snippet} (sound : document.Sound numbering)
    (known : ∀ id ∈ document.references, (ids.writeId? id).isSome)
    (scripts : List.Forall₂ WritesSnippet document.scripts snippets)
    (top : front.length % alignment = 0) {header : List UInt8}
    (length : header.length = headerSize) :
    Writes front (writeDrama document front.length ids) header ()
      (header ++ dialogueChunks (document.nodes.map (record ids)) snippets) := by
  have count : document.scripts.length = snippets.length := scripts.length_eq
  let table := Piece.openTable (snippetPieces snippets)
  have tableLength : table.length = 4 * snippets.length := length_openTable_snippets snippets
  let info := header ++ Tag.head.bytes ++ wordBytes document.nodes.length.toUInt32 ++
    wordBytes snippets.length.toUInt32
  rw [writeDrama, writeDramaBy, count]
  refine (writes_tag _).seq ((writes_count _).seq ((writes_count _).seq ?_))
  refine writes_reserve.bind ((writes_snippetTable (info ++ wordBytes 0) snippets).bind ?_)
  by_cases none : document.nodes = []
  · -- the table stays open: without nodes there is no body
    rw [if_neg (by simpa using none)]
    have done : info ++ wordBytes 0 ++ table = header ++ dialogueChunks [] snippets := by
      simp only [info, table, snippetPieces, dialogueChunks, dramaChunks, none, List.map_nil,
        List.length_nil, List.length_map, if_true, List.append_assoc]
    rw [none, List.map_nil, ← done]
    exact writes_pure _
  · rw [if_pos none]
    let tableEnd := dramaTableEnd snippets.length
    let zeros := gap alignment tableEnd
    let body := aligned alignment tableEnd + 4
    let records := recordBytes (document.nodes.map (record ids))
    have end_eq : (info ++ wordBytes 0 ++ table).length = tableEnd := by
      simp only [info, tableEnd, dramaTableEnd, List.length_append, length_wordBytes,
        Tag.length_bytes, length, tableLength]
    have padded : Writes front (align alignment) (info ++ wordBytes 0 ++ table) ()
        (info ++ wordBytes 0 ++ table ++ zeros) := writes_gap top end_eq
    have body_eq :
        (info ++ (wordBytes 0 ++ (table ++ (zeros ++ Tag.body.bytes)))).length = body := by
      simp only [info, zeros, gap, body, tableEnd, dramaTableEnd, aligned, List.length_append,
        length_wordBytes, Tag.length_bytes, length, tableLength, List.length_replicate]
      omega
    have located : Writes front (patchHere (front.length + info.length) front.length)
        (info ++ (wordBytes 0 ++ (table ++ (zeros ++ Tag.body.bytes)))) ()
        (info ++ (wordBytes body.toUInt32 ++ (table ++ (zeros ++ Tag.body.bytes)))) :=
      body_eq ▸ writes_patchHere rfl (length_wordBytes 0)
    have nodes : Writes front (document.nodes.forM (writeNode ids))
        (info ++ (wordBytes body.toUInt32 ++ (table ++ (zeros ++ Tag.body.bytes)))) ()
        (info ++ (wordBytes body.toUInt32 ++ (table ++ (zeros ++ Tag.body.bytes))) ++ records) := by
      -- the table that is already written bounds the indices of snippets
      have bound : ∀ node ∈ document.nodes, ∀ index ∈ node.snippets, index < snippets.length :=
        count ▸ sound.snippets
      refine writes_nodes (fun node mem id hid => known id ?_) bound ?_
      · exact List.mem_flatMap.2 ⟨node, mem, hid⟩
      · simp only [List.length_append, tableLength]
        omega
    have placed := writePieces_writes (by decide) top (writesPiece_snippets scripts front)
      (info ++ wordBytes body.toUInt32) (zeros ++ Tag.body.bytes ++ records)
    have first_eq : (info ++ wordBytes body.toUInt32 ++
        (table ++ (zeros ++ Tag.body.bytes ++ records))).length =
          body + recordSize * document.nodes.length := by
      have recordsLength : records.length = recordSize * document.nodes.length := by
        rw [← List.length_map (record ids)]
        exact length_recordBytes _
      rw [← body_eq, ← recordsLength]
      simp only [List.length_append, length_wordBytes]
      omega
    have entry_eq : (info ++ wordBytes body.toUInt32).length = (info ++ wordBytes 0).length := by
      simp only [List.length_append, length_wordBytes]
    rw [first_eq, entry_eq, ← writeSnippets_eq] at placed
    have chunks : header ++ dialogueChunks (document.nodes.map (record ids)) snippets =
        info ++ wordBytes body.toUInt32 ++ (Piece.table alignment
            (body + recordSize * document.nodes.length) (snippetPieces snippets) ++
          (zeros ++ Tag.body.bytes ++ records ++ Piece.placed alignment
            (body + recordSize * document.nodes.length) (snippetPieces snippets))) := by
      simp only [info, zeros, body, tableEnd, records, recordBytes, snippetPieces, dialogueChunks,
        dramaChunks, List.map_eq_nil_iff, none, List.length_map, if_false, List.append_assoc]
    rw [chunks]
    simp only [info, List.append_assoc] at padded located nodes placed ⊢
    refine padded.seq ((writes_tag _).seq ?_)
    simp only [List.append_assoc]
    exact located.seq (nodes.seq placed)

/-! ### Reading -/

variable {bytes : Bytes} {records : List NodeRecord} {snippets : List Snippet}
  {strings : List String}

/-- The snippets of a dialogue are read back. -/
theorem readSnippets_located {entry : Nat} (size : bytes.size < 2 ^ 32)
    (h : Located bytes 0 entry (snippetPieces snippets)) :
    readSnippets bytes entry snippets.length = .ok (snippets.map Snippet.view) := by
  induction snippets generalizing entry with
  | nil => rfl
  | cons snippet rest ih =>
    obtain _ | ⟨offset_eq, small, bytes_eq, tail⟩ := h
    have behind := ih tail
    rw [show (snippetPiece snippet.image).entry.length = 0 from rfl, Nat.add_zero] at behind
    rw [Nat.zero_add] at bytes_eq
    have bound : snippet.image.length < 2 ^ 32 := by
      have bound := bytes_eq.size_le
      change _ + snippet.image.length ≤ _ at bound
      omega
    obtain ⟨back, tail⟩ := bytes_eq.extract
    have header : readHeader ((snippetPiece snippet.image).bytes ++ back).toArray =
        .ok (.script, snippet.image.toArray) := readHeader_container back bound
    have view : ScriptView.ofBytes snippet.image.toArray = .ok snippet.view :=
      ofBytes_scriptContainer (by simpa using bound) (has_toArray _)
    rw [List.length_cons, readSnippets, offset_eq.left.number small]
    simp only [bind, Except.bind, tail, header, view, behind]
    rfl

/-- A dialogue container without nodes is read back. -/
theorem ofBytes_emptyContainer (size : bytes.size < 2 ^ 32)
    (whole : Has bytes 0 (container .drama (dialogueChunks [] []) strings)) :
    DramaView.ofBytes bytes = .ok ⟨[], [], strings.map untilNul⟩ := by
  have list := readStringList_container size whole
  have chunks := has_chunks whole
  rw [dialogueChunks, dramaChunks, if_pos (List.map_nil)] at chunks
  have nodeCount : bytes.number (headerSize + 4) = .ok 0 := chunks.right.left.number (by decide)
  have snippetCount : bytes.number (headerSize + 8) = .ok 0 :=
    chunks.right.right.left.number (by decide)
  have room : bytes.need (headerSize + 16) (0 * 4) = .ok () := by
    have bound := chunks.right.right.right.left.size_le
    rw [Bytes.need, if_pos]
    simp only [length_wordBytes, Tag.length_bytes] at bound
    omega
  rw [DramaView.ofBytes, chunks.left.expect]
  simp only [bind, Except.bind, nodeCount, snippetCount, room, list]
  rfl

/-- A dialogue container is read back, if its records are in range. -/
theorem ofBytes_dramaContainer (size : bytes.size < 2 ^ 32)
    (whole : Has bytes 0 (container .drama (dialogueChunks records snippets) strings))
    (inRange : ∀ r ∈ records, r.InRange strings.length snippets.length)
    (nonempty : records = [] → snippets = []) :
    DramaView.ofBytes bytes =
      .ok ⟨records, snippets.map Snippet.view, strings.map untilNul⟩ := by
  by_cases none : records = []
  · obtain rfl := nonempty none
    subst none
    exact ofBytes_emptyContainer size whole
  · have list := readStringList_container size whole
    have strings_le := le_length_container .drama (dialogueChunks records snippets) strings
    have whole_le := whole.size_le
    have chunks := has_chunks whole
    rw [dialogueChunks, dramaChunks, if_neg (by simpa using none)] at chunks
    simp only [List.length_map] at chunks
    change Has bytes headerSize (_ ++ (_ ++ (_ ++ (_ ++ (Piece.table alignment _
      (snippetPieces snippets) ++ (_ ++ (_ ++ (recordBytes records ++ Piece.placed alignment _
        (snippetPieces snippets))))))))) at chunks
    have tableLength : ∀ position,
        (Piece.table alignment position (snippetPieces snippets)).length = 4 * snippets.length :=
      fun position => by rw [← Piece.length_openTable, length_openTable_snippets]
    have bound := chunks.size_le
    simp only [List.length_append, length_wordBytes, Tag.length_bytes, tableLength,
      length_recordBytes, gap, List.length_replicate, recordSize] at bound
    have nodeCount : bytes.number (headerSize + 4) = .ok records.length :=
      chunks.right.left.number (by omega)
    have snippetCount : bytes.number (headerSize + 8) = .ok snippets.length :=
      chunks.right.right.left.number (by omega)
    have room : bytes.need (headerSize + 16) (snippets.length * 4) = .ok () := by
      rw [Bytes.need, if_pos (by omega)]
    have start : headerSize + Tag.head.bytes.length + (wordBytes records.length.toUInt32).length +
        (wordBytes snippets.length.toUInt32).length +
        (wordBytes (aligned alignment (dramaTableEnd snippets.length) + 4).toUInt32).length +
        4 * snippets.length + padding alignment (dramaTableEnd snippets.length) =
          aligned alignment (dramaTableEnd snippets.length) := by
      simp only [length_wordBytes, Tag.length_bytes, aligned, dramaTableEnd]
    have table := chunks.right.right.right.right.left
    have behind := chunks.right.right.right.right.right.right
    rw [tableLength, gap, List.length_replicate, start] at behind
    generalize aligned alignment (dramaTableEnd snippets.length) = at_ at *
    have body : bytes.number (headerSize + 12) = .ok (at_ + 4) :=
      chunks.right.right.right.left.number (by
        have := behind.size_le
        rw [List.length_append, Tag.length_bytes] at this
        omega)
    have marked : bytes.expect (at_ + 4 - 4) .body = .ok () := behind.left.expect
    have standing : Has bytes (at_ + 4) (recordBytes records) := behind.right.left
    have recordRoom : bytes.need (at_ + 4) (records.length * recordSize) = .ok () :=
      standing.need (by rw [length_recordBytes, Nat.mul_comm])
    -- four bytes for each string and each snippet leave room for less than `2 ^ 31` of them
    have nodes := readNodes_records (by omega) (by omega) inRange standing 0
    have located : Located bytes 0 (headerSize + 16) (snippetPieces snippets) := by
      refine located_of_has size table (behind.right.right.at_position ?_)
      rw [Tag.length_bytes, length_recordBytes, Nat.zero_add]
    have positive : records.length ≠ 0 := by simpa using none
    rw [DramaView.ofBytes, chunks.left.expect]
    simp only [bind, Except.bind, nodeCount, snippetCount, room, list, if_neg positive, body,
      marked, recordRoom, List.length_map, nodes, readSnippets_located size located]
    rfl

/-- A dialogue container by itself is read back. -/
theorem view_dramaContainer
    (small : (container .drama (dialogueChunks records snippets) strings).length < 2 ^ 32)
    (inRange : ∀ r ∈ records, r.InRange strings.length snippets.length)
    (nonempty : records = [] → snippets = []) :
    View.ofBytes (container .drama (dialogueChunks records snippets) strings).toArray =
      .ok (.drama ⟨records, snippets.map Snippet.view, strings.map untilNul⟩) := by
  have header := readHeader_container [] small
  rw [List.append_nil] at header
  have view :
      DramaView.ofBytes (container .drama (dialogueChunks records snippets) strings).toArray =
        .ok ⟨records, snippets.map Snippet.view, strings.map untilNul⟩ :=
    ofBytes_dramaContainer small (has_toArray _) inRange nonempty
  have kind : Tag.drama ≠ Tag.script := by decide
  rw [View.ofBytes, header]
  simp only [bind, Except.bind, if_neg kind, view]
  rfl

/-! ### Documents -/

/-- Write ids are positions in the string list. -/
theorem writeIndex_lt {document : Document} {id : StringId}
    (known : (document.writeIds.writeId? id).isSome) :
    writeIndex document.writeIds id < document.writeIds.strings.length := by
  have size : document.writeIds.order.length = document.writeIds.strings.length :=
    StringTable.size_resolve _ _
  rw [writeIndex, WriteIds.writeId?]
  by_cases mem : id ∈ document.writeIds.order
  · have lt := List.idxOf_lt_length_of_mem mem
    -- where positions wrap around they only get smaller
    have le : (document.writeIds.order.idxOf id).toUInt32.toNat ≤
        document.writeIds.order.idxOf id := by
      simpa [Nat.toUInt32] using Nat.mod_le _ _
    rw [if_pos mem, Option.getD_some]
    omega
  · rw [WriteIds.writeId?, if_neg mem] at known
    cases known

variable {numbering : Numbering} {document : Document}

/-- Every string that a document refers to has a write id. -/
theorem isSome_writeId? (sound : document.Sound numbering) :
    ∀ id ∈ document.references, (document.writeIds.writeId? id).isSome :=
  fun id mem => StringTable.isSome_writeId?_resolve mem (sound.strings id mem)

theorem inRange_records (sound : document.Sound numbering) :
    ∀ r ∈ document.nodes.map (record document.writeIds),
      r.InRange document.writeIds.strings.length document.scripts.length := by
  intro r mem
  obtain ⟨node, hnode, rfl⟩ := List.mem_map.1 mem
  have strings : ∀ id ∈ Document.nodeReferences node,
      writeIndex document.writeIds id < document.writeIds.strings.length := fun id hid =>
    writeIndex_lt (isSome_writeId? sound id (List.mem_flatMap.2 ⟨node, hnode, hid⟩))
  have snippets := sound.snippets node hnode
  simp only [Document.nodeReferences, Node.snippets, List.mem_cons, List.mem_append,
    Option.mem_toList] at strings snippets
  refine ⟨?_, fun i hi => snippets i (.inl hi), fun i hi => snippets i (.inr hi),
    ?_, ?_⟩
  · intro i hi
    obtain rfl := Option.some.inj hi
    exact strings _ (.inl rfl)
  · intro i hi
    obtain ⟨id, hid, rfl⟩ := Option.map_eq_some_iff.1 hi
    exact strings id (.inr (.inl hid))
  · intro i hi
    obtain ⟨id, hid, rfl⟩ := Option.map_eq_some_iff.1 hi
    exact strings id (.inr (.inr hid))

theorem exists_snippets (sound : document.Sound numbering) :
    ∃ snippets, List.Forall₂ WritesSnippet document.scripts snippets := by
  rw [sound.scripts]
  induction document.snippets with
  | nil => exact ⟨[], .nil⟩
  | cons source rest ih =>
    obtain ⟨snippet, first⟩ := exists_writesSnippet numbering source
    obtain ⟨snippets, behind⟩ := ih
    exact ⟨snippet :: snippets, .cons first behind⟩

theorem writesChunks_ofDocument (sound : document.Sound numbering) {snippets : List Snippet}
    (scripts : List.Forall₂ WritesSnippet document.scripts snippets) :
    WritesChunks (ofDocument document)
      (dialogueChunks (document.nodes.map (record document.writeIds)) snippets) :=
  fun _ top => writes_drama sound (isSome_writeId? sound) scripts top rfl

/-- A document without nodes has no snippets. -/
theorem snippets_eq_nil {ids : WriteIds} (sound : document.Sound numbering)
    (scripts : List.Forall₂ WritesSnippet document.scripts snippets)
    (none : document.nodes.map (record ids) = []) : snippets = [] := by
  rw [sound.nonempty (List.map_eq_nil_iff.1 none)] at scripts
  exact List.forall₂_nil_left_iff.1 scripts

/-- A snippet is no larger than the container that it is embedded in. -/
theorem length_image_le {records : List NodeRecord} {snippets : List Snippet}
    {strings : List String} (nonempty : records = [] → snippets = []) {snippet : Snippet}
    (mem : snippet ∈ snippets) :
    snippet.image.length ≤
      (container .drama (dialogueChunks records snippets) strings).length := by
  have none : records ≠ [] := by
    intro none
    rw [nonempty none] at mem
    cases mem
  refine Nat.le_trans ?_ (length_chunks_le _ _ _)
  have piece : snippetPiece snippet.image ∈ (snippets.map Snippet.image).map snippetPiece :=
    List.mem_map_of_mem (List.mem_map_of_mem mem)
  have placed := fun position => Piece.length_le_length_placed alignment position piece
  rw [dialogueChunks, dramaChunks, if_neg (by simpa using none)]
  simp only [List.length_append]
  -- eight parts stand in front of the snippets
  iterate 8 refine Nat.le_add_left_of_le ?_
  exact placed _

/-- The snippets of a container that fits fit by themselves. -/
theorem length_image_lt {ids : WriteIds} (sound : document.Sound numbering)
    (scripts : List.Forall₂ WritesSnippet document.scripts snippets) {strings : List String}
    (small : (container .drama (dialogueChunks (document.nodes.map (record ids)) snippets)
      strings).length < 2 ^ 32) :
    ∀ snippet ∈ snippets, snippet.image.length < 2 ^ 32 :=
  fun _ mem => Nat.lt_of_le_of_lt (length_image_le (snippets_eq_nil sound scripts) mem) small

/-- A unit whose snippet fits is written and read by itself. -/
theorem WritesSnippet.view {unit : ScriptUnit} {snippet : Snippet} (h : WritesSnippet unit snippet)
    (small : snippet.image.length < 2 ^ 32) :
    ∃ own, (ofScript unit).bytes = .ok own ∧ View.ofBytes own = .ok (.script snippet.view) := by
  refine ⟨snippet.image.toArray, ?_, view_scriptContainer small⟩
  have bytes := bytes_of_image h.1 (h.image_eq ▸ small)
  rwa [h.image_eq] at bytes

theorem forall_view {scripts : List ScriptUnit} {snippets : List Snippet}
    (h : List.Forall₂ WritesSnippet scripts snippets)
    (small : ∀ snippet ∈ snippets, snippet.image.length < 2 ^ 32) :
    List.Forall₂ (fun unit view => ∃ own, (ofScript unit).bytes = .ok own ∧
      View.ofBytes own = .ok (.script view)) scripts (snippets.map Snippet.view) := by
  induction h with
  | nil => exact .nil
  | cons written _ ih =>
    rw [List.forall_mem_cons] at small
    exact .cons (written.view small.1) (ih small.2)

theorem exists_bytes_of_any {source : String}
    (h : ((Document.compile numbering source).toOption.any
      fun document => (ofDocument document).bytes.isOk) = true) :
    ∃ document, Document.compile numbering source = .ok document ∧
      ∃ bytes, (ofDocument document).bytes = .ok bytes := by
  obtain ⟨document, compiled, written⟩ := exists_ok_of_any h
  exact ⟨document, compiled, exists_ok_of_isOk written⟩

/-- A dialogue with a snippet has a container. -/
theorem exists_bytes_greeting :
    ∃ document, Document.compile .standard
        ";$<node id='a'><before>(set x 1)</before><say>Hi</say></node>" = .ok document ∧
      ∃ bytes, (ofDocument document).bytes = .ok bytes :=
  exists_bytes_of_any (by decide +kernel)

/-- Dialogue container round trip: a reader of the written bytes sees a record for each node, with
the write ids of its strings and the indices of its snippets, what it sees of each snippet by
itself, and the strings in the order of their write ids, each up to its first character of code
0. -/
theorem ofBytes_eq_document {source : String} {bytes : Array UInt8}
    (compiled : Document.compile numbering source = .ok document)
    (written : (ofDocument document).bytes = .ok bytes) :
    (∀ id ∈ document.references, (document.writeIds.writeId? id).isSome) ∧
      ∃ snippets : List ScriptView,
        View.ofBytes bytes = .ok (.drama ⟨document.nodes.map (record document.writeIds), snippets,
          document.writeIds.strings.map untilNul⟩) ∧
        List.Forall₂ (fun unit view => ∃ own, (ofScript unit).bytes = .ok own ∧
          View.ofBytes own = .ok (.script view)) document.scripts snippets := by
  have sound := sound_of_compile compiled
  obtain ⟨snippets, scripts⟩ := exists_snippets sound
  obtain ⟨rfl, small⟩ := image_of_bytes (writesChunks_ofDocument sound scripts) written
  have inRange : ∀ r ∈ document.nodes.map (record document.writeIds),
      r.InRange document.writeIds.strings.length snippets.length :=
    scripts.length_eq ▸ inRange_records sound
  refine ⟨isSome_writeId? sound, snippets.map Snippet.view, ?_, ?_⟩
  · exact view_dramaContainer small inRange (snippets_eq_nil sound scripts)
  · exact forall_view scripts (length_image_lt sound scripts small)

theorem ofBytes_eq_document_greeting :
    ∃ document, Document.compile .standard
        ";$<node id='a'><before>(set x 1)</before><say>Hi</say></node><node id='b'/>" =
          .ok document ∧
      ∃ bytes, (ofDocument document).bytes = .ok bytes ∧
        (∀ id ∈ document.references, (document.writeIds.writeId? id).isSome) ∧
        ∃ snippets : List ScriptView,
          View.ofBytes bytes = .ok (.drama ⟨document.nodes.map (record document.writeIds),
            snippets, document.writeIds.strings.map untilNul⟩) ∧
          List.Forall₂ (fun unit view => ∃ own, (ofScript unit).bytes = .ok own ∧
            View.ofBytes own = .ok (.script view)) document.scripts snippets := by
  obtain ⟨document, compiled, bytes, written⟩ : ∃ document, Document.compile .standard
      ";$<node id='a'><before>(set x 1)</before><say>Hi</say></node><node id='b'/>" =
        .ok document ∧ ∃ bytes, (ofDocument document).bytes = .ok bytes :=
    exists_bytes_of_any (by decide +kernel)
  exact ⟨document, compiled, bytes, written, ofBytes_eq_document compiled written⟩

end Libretto.Binary
