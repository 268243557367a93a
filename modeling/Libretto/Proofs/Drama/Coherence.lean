/-
How the parts of a document fit together.

A document is written as records of its nodes, a table of its snippets and its strings, each found
by its number.  So the numbers have to agree:

* **`Progress.Numbers`**, **`Numbers.run`** — the nodes of a markup are numbered in the order in
  which they begin, whether it closes them or not;
* **`Location.Precedes`** — the order in which a document reports;
* **`Document.Shows`** — the places that a document can report about;
* **`Document.Coherent`** — nodes, snippets, units, strings and reports fit together;
* **`coherent_of_compile`** — and they do so in every document.

A string is interned when a node is kept, which then refers to it; so the order of first reference
is that of the table, and write ids are insertion ids.
-/
import Libretto.Proofs.Drama.Element
import Libretto.Proofs.Drama.Size

namespace Libretto

/-- The order of reports: nodes come before snippets, and each in their own order. -/
def Location.Precedes : Location → Location → Prop
  | node first, node second => first < second
  | node _, snippet .. => True
  | snippet first row, snippet second row' => first < second ∨ first = second ∧ row ≤ row'
  | _, _ => False

end Libretto

namespace Libretto.Drama

open Markup (Event StartTag)
open Progress (isNode)
open Script (ScriptUnit)

/-! ### Numbers of nodes -/

/-- What the tag of a node says. -/
def Draft.head (draft : Draft) : Nat × Option String :=
  (draft.ordinal, draft.id)

theorem Draft.head_set (draft : Draft) (field : Field) (text : List Char) :
    (draft.set field text).head = draft.head := by
  cases field <;> rfl

namespace Progress

/-- The nodes begun, in order. -/
def drafts (p : Progress) : List Draft :=
  p.reversed.reverse ++ p.node.toList

/-- The nodes begun are those of the given tags, numbered from 0. -/
structure Numbers (p : Progress) (nodes : List StartTag) : Prop where
  count : p.count = nodes.length
  heads : p.drafts.map Draft.head =
    nodes.zipIdx.map fun (tag, ordinal) => (Draft.ofTag ordinal tag).head

variable {p p' : Progress} {tags nodes : List StartTag}

/-- A node that begins has the next number. -/
theorem Numbers.snoc (h : p.Numbers nodes) (tag : StartTag) :
    p.drafts.map Draft.head ++ [(Draft.ofTag p.count tag).head] =
      (nodes ++ [tag]).zipIdx.map fun (tag, ordinal) => (Draft.ofTag ordinal tag).head := by
  rw [h.heads, h.count, List.zipIdx_append, List.map_append, Nat.zero_add]
  rfl

theorem Numbers.openElement (h : p.Numbers nodes) (follows : p.Follows tags) (tag : StartTag) :
    (p.openElement tag).Numbers (nodes ++ rootNode? tags tag) := by
  have depth := follows.depth
  by_cases root : tags.length = 1 ∧ isNode tag
  · -- no other node is in hand below a root, so the new one comes last
    have none := follows.node_eq_none (by omega)
    have snoc := h.snoc tag
    rw [Progress.openElement, rootNode?, if_pos (by simp [depth, root]), if_pos (by simp [root])]
    refine ⟨by simp [h.count], ?_⟩
    rw [← snoc]
    simp [drafts, none]
  · have none : rootNode? tags tag = [] := if_neg (by simpa using root)
    rw [Progress.openElement, none, List.append_nil, if_neg (by simpa [depth] using root)]
    split
    · exact ⟨h.count, h.heads⟩
    · exact ⟨h.count, h.heads⟩

theorem Numbers.emptyElement (h : p.Numbers nodes) (follows : p.Follows tags) (tag : StartTag) :
    (p.emptyElement tag).Numbers (nodes ++ rootNode? tags tag) := by
  have depth := follows.depth
  by_cases root : tags.length = 1 ∧ isNode tag
  · have none := follows.node_eq_none (by omega)
    have snoc := h.snoc tag
    rw [Progress.emptyElement, rootNode?, if_pos (by simp [depth, root]), if_pos (by simp [root])]
    refine ⟨by simp [h.count], ?_⟩
    rw [← snoc]
    simp [drafts, none]
  · have none : rootNode? tags tag = [] := if_neg (by simpa using root)
    rw [Progress.emptyElement, none, List.append_nil, if_neg (by simpa [depth] using root)]
    exact h

/-- A node that ends keeps its number. -/
theorem Numbers.closeElement (h : p.Numbers nodes) : p.closeElement.Numbers nodes := by
  have heads := h.heads
  rw [Progress.closeElement]
  split
  · split
    · next node _ =>
      -- a field that ends does not touch the tag of its node
      refine ⟨h.count, ?_⟩
      simp only [drafts, node, Option.toList_some, List.map_append, List.map_cons, List.map_nil,
        Draft.head_set] at heads ⊢
      exact heads
    · exact ⟨h.count, heads⟩
  · split
    · split
      · next node =>
        refine ⟨h.count, ?_⟩
        simpa [drafts, node] using heads
      · exact ⟨h.count, heads⟩
    · exact ⟨h.count, heads⟩

theorem Numbers.step (h : p.Numbers nodes) (follows : p.Follows tags) {event : Event}
    (run : p.step event = .ok p') : p'.Numbers (nodes ++ rootNodes tags [event]) := by
  cases event with
  | start tag =>
    obtain rfl := Except.ok.inj run
    simpa [rootNodes] using h.openElement follows tag
  | empty tag =>
    obtain rfl := Except.ok.inj run
    simpa [rootNodes] using h.emptyElement follows tag
  | close =>
    obtain rfl := Except.ok.inj run
    simpa [rootNodes] using h.closeElement
  | aside =>
    obtain rfl := Except.ok.inj run
    simpa [rootNodes] using h
  | cdata more =>
    have none : rootNodes tags [.cdata more] = [] := by simp [rootNodes]
    rw [none, List.append_nil]
    rw [Progress.step] at run
    split at run
    · obtain rfl := Except.ok.inj run
      exact h
    · obtain rfl := Except.ok.inj run
      exact ⟨h.count, h.heads⟩
  | text raw stop =>
    have none : rootNodes tags [.text raw stop] = [] := by simp [rootNodes]
    rw [none, List.append_nil]
    rw [Progress.step] at run
    split at run
    · obtain rfl := Except.ok.inj run
      exact h
    · split at run
      · cases run
      · obtain rfl := Except.ok.inj run
        exact ⟨h.count, h.heads⟩

/-- The nodes of a markup are numbered in order, up to a fault or its end. -/
theorem Numbers.run (h : p.Numbers nodes) (follows : p.Follows tags) {events : List Event}
    (run : p.run events = (p', none)) : p'.Numbers (nodes ++ rootNodes tags events) := by
  induction events generalizing p tags nodes with
  | nil =>
    obtain ⟨rfl, -⟩ := Prod.mk.inj run
    rwa [rootNodes, List.append_nil]
  | cons event rest ih =>
    rw [Progress.run] at run
    cases stepped : p.step event with
    | error e =>
      rw [stepped] at run
      cases run
    | ok next =>
      rw [stepped] at run
      have more := ih (h.step follows stepped) (follows.step stepped).1 run
      rwa [rootNodes_cons, ← List.append_assoc]

end Progress

theorem presentText?_ne_empty (text : List Char) : presentText? text ≠ some "" := by
  rw [presentText?]
  split
  · nofun
  · next some =>
    intro blank
    have none := congrArg String.toList (Option.some.inj blank)
    rw [String.toList_ofList] at none
    exact some none

/-- What a document was compiled from. -/
def Document.collection (document : Document) : Collection :=
  ⟨document.table, document.snippets, document.entries⟩

/-- The nodes that a source closes are numbered in order, and no identifier is empty. -/
theorem exists_drafts_of_compile {numbering : Numbering} {source : String} {document : Document}
    (compiled : Document.compile numbering source = .ok document) :
    ∃ drafts, document.collection.Holds drafts ∧
      drafts.map Draft.ordinal = List.range drafts.length ∧
      ∀ draft ∈ drafts, draft.id ≠ some "" := by
  obtain ⟨reached, read, collection⟩ := exists_run_of_document compiled
  obtain ⟨-, rfl⟩ := compile_eq_ok compiled
  have start : Progress.start.Numbers [] := ⟨rfl, rfl⟩
  have heads := (start.run follows_start read).heads
  rw [List.nil_append] at heads
  have holds : (Reading.ofSource source).collection.Holds reached.reversed.reverse :=
    collection ▸ Collection.holds_ofDrafts _
  refine ⟨reached.reversed.reverse, holds, ?_, ?_⟩
  · have ordinals : reached.drafts.map Draft.ordinal =
        List.range (rootNodes [] (eventsOf source)).length := by
      have numbers := congrArg (List.map Prod.fst) heads
      rw [List.map_map, List.map_map] at numbers
      refine numbers.trans ?_
      rw [List.range_eq_range', ← List.zipIdx_map_snd]
      rfl
    -- a node that is left open comes last
    have closed : reached.reversed.reverse.map Draft.ordinal <+:
        List.range (rootNodes [] (eventsOf source)).length := by
      rw [← ordinals, Progress.drafts, List.map_append]
      exact List.prefix_append _ _
    rw [List.prefix_iff_eq_take.1 closed, List.take_range, List.length_map]
    exact congrArg List.range (Nat.min_eq_left (by simpa using closed.length_le))
  · intro draft mem
    have head : draft.head ∈ reached.drafts.map Draft.head :=
      List.mem_map_of_mem (List.mem_append_left _ mem)
    rw [heads, List.mem_map] at head
    obtain ⟨⟨tag, ordinal⟩, -, same⟩ := head
    have id : draft.id = (tag.value? "id").bind presentText? := (congrArg Prod.snd same).symm
    rw [id]
    intro blank
    obtain ⟨value, -, blank⟩ := Option.bind_eq_some_iff.1 blank
    exact presentText?_ne_empty value blank

/-! ### Documents -/

namespace Document

/-- The places that a document can report about. -/
def Shows (document : Document) : Location → Prop
  | .line _ => False
  | .node ordinal => ordinal < document.entries.length
  | .snippet index row => ∃ source, document.snippets[index]? = some source ∧
      1 ≤ row ∧ row ≤ (Text.lines source.toList).length

/-- The parts of a document fit together. -/
structure Coherent (numbering : Numbering) (document : Document) : Prop where
  /-- Every node has an identifier. -/
  named : ∀ node ∈ document.nodes, ∃ text, document.table.get? node.id = some text ∧ text ≠ ""
  /-- The snippets are those of the nodes, each once and in their order. -/
  snippets : document.nodes.flatMap Node.snippets = List.range document.snippets.length
  scripts : document.scripts = document.snippets.map (ScriptUnit.compile numbering)
  /-- No string is idle. -/
  referenced : ∀ text ∈ document.table.texts, document.table.idOf text ∈ document.references
  /-- The write ids are the ids of the table. -/
  writeIds : ∀ text ∈ document.table.texts,
    document.writeIds.writeId? (document.table.idOf text) = some (document.table.idOf text).index
  strings : document.writeIds.strings = document.table.texts
  empty : document.nodes = [] → document.snippets = [] ∧ document.table.texts = []
  located : ∀ d ∈ document.diagnostics, document.Shows d.location
  ordered : document.diagnostics.Pairwise fun first second =>
    first.location.Precedes second.location

end Document

namespace Document

variable {document : Document} {drafts : List Draft}

theorem references_eq (holds : document.collection.Holds drafts) :
    document.references = ((kept drafts).flatMap Draft.texts).map document.table.idOf :=
  holds.references_eq

theorem mem_texts (holds : document.collection.Holds drafts) {text : String} :
    text ∈ document.table.texts ↔ text ∈ (kept drafts).flatMap Draft.texts := by
  rw [show document.table = _ from holds.table]
  exact StringTable.mem_texts_ofList

theorem reports_eq (holds : document.collection.Holds drafts) :
    document.entries.flatMap Entry.diagnostics = (skipped drafts).map Draft.report :=
  holds.reports

/-- A report is about a node that was read or about a line of a snippet. -/
theorem shows_of_mem {numbering : Numbering} (holds : document.collection.Holds drafts)
    (scripts : document.scripts = document.snippets.map (ScriptUnit.compile numbering))
    (ordinals : drafts.map Draft.ordinal = List.range drafts.length) {d : Diagnostic}
    (mem : d ∈ document.diagnostics) : document.Shows d.location := by
  rcases List.mem_append.1 mem with mem | mem
  · rw [reports_eq holds] at mem
    obtain ⟨draft, hdraft, rfl⟩ := List.mem_map.1 mem
    have ordinal : draft.ordinal ∈ drafts.map Draft.ordinal :=
      List.mem_map_of_mem (List.mem_of_mem_filter hdraft)
    rw [ordinals, List.mem_range, ← holds.entries] at ordinal
    exact ordinal
  · obtain ⟨⟨unit, index⟩, numbered, mem⟩ := List.mem_flatMap.1 mem
    rw [scripts, List.mem_zipIdx_iff_getElem?, List.getElem?_map, Option.map_eq_some_iff]
      at numbered
    obtain ⟨source, found, rfl⟩ := numbered
    obtain ⟨row, at_row, first, last⟩ := ScriptUnit.location_of_compile mem
    rw [at_row]
    exact ⟨source, found, first, last⟩

/-- The reports about nodes stand in the order of the nodes. -/
theorem pairwise_reports (ordinals : drafts.map Draft.ordinal = List.range drafts.length) :
    ((skipped drafts).map Draft.report).Pairwise fun first second =>
      first.location.Precedes second.location := by
  have numbered : drafts.Pairwise fun first second => first.ordinal < second.ordinal := by
    rw [← List.pairwise_map, ordinals]
    exact List.pairwise_lt_range
  exact List.pairwise_map.2 (numbered.sublist List.filter_sublist)

/-- The reports about snippets stand in the order of the snippets. -/
theorem pairwise_snippetReports (scripts : List ScriptUnit) :
    (scripts.zipIdx.flatMap fun (unit, index) =>
        unit.diagnosticsAt (.snippet index)).Pairwise fun first second =>
      first.location.Precedes second.location := by
  rw [List.pairwise_flatMap]
  refine ⟨?_, ?_⟩
  · intro (unit, index) _
    refine (unit.pairwise_diagnosticsAt (.snippet index)).imp ?_
    rintro first second ⟨k, l, le, at_first, at_second⟩
    rw [at_first, at_second]
    exact .inr ⟨rfl, le⟩
  · refine (Script.pairwise_zipIdx scripts 0).imp ?_
    intro (unit, index) (unit', index') before first mem second mem'
    obtain ⟨k, at_first, -⟩ := unit.location_of_diagnosticsAt mem
    obtain ⟨l, at_second, -⟩ := unit'.location_of_diagnosticsAt mem'
    rw [at_first, at_second]
    exact .inl before

theorem pairwise_diagnostics (holds : document.collection.Holds drafts)
    (ordinals : drafts.map Draft.ordinal = List.range drafts.length) :
    document.diagnostics.Pairwise fun first second => first.location.Precedes second.location := by
  rw [diagnostics, reports_eq holds]
  refine List.pairwise_append.2 ⟨pairwise_reports ordinals, pairwise_snippetReports _, ?_⟩
  intro first mem second mem'
  obtain ⟨draft, -, rfl⟩ := List.mem_map.1 mem
  obtain ⟨⟨unit, index⟩, -, mem'⟩ := List.mem_flatMap.1 mem'
  obtain ⟨row, at_row, -⟩ := unit.location_of_diagnosticsAt mem'
  rw [at_row]
  trivial

end Document

/-- In every document of a source of less than `2 ^ 32` bytes nodes, snippets, units, strings and
reports fit together. -/
theorem coherent_of_compile {numbering : Numbering} {source : String} {document : Document}
    (short : source.utf8ByteSize < 2 ^ 32)
    (compiled : Document.compile numbering source = .ok document) :
    document.Coherent numbering := by
  have small := small_table_of_compile short compiled
  have scripts := (sound_of_compile compiled).scripts
  obtain ⟨drafts, holds, ordinals, filled⟩ := exists_drafts_of_compile compiled
  -- references come in the order in which their texts were interned
  have references := Document.references_eq holds
  have table : document.table = .ofList ((kept drafts).flatMap Draft.texts) := holds.table
  refine ⟨?_, holds.indices, scripts, ?_, ?_, ?_, ?_, ?_, ?_⟩
  · intro node mem
    obtain ⟨draft, hdraft, held⟩ := holds.exists_draft mem
    obtain ⟨text, some, named⟩ := Option.map_eq_some_iff.1 held.id
    have known : text ∈ document.table.texts := held.known text (by simp [Draft.texts, some])
    refine ⟨text, named ▸ StringTable.get?_idOf small known, ?_⟩
    rintro rfl
    exact filled draft (List.mem_of_mem_filter hdraft) some
  · intro text mem
    rw [references]
    exact List.mem_map_of_mem ((Document.mem_texts holds).1 mem)
  · intro text mem
    have mem := (Document.mem_texts holds).1 mem
    rw [Document.writeIds, references, table]
    exact StringTable.writeId?_resolve_ofList (table ▸ small) mem
  · rw [Document.writeIds, references, table]
    exact StringTable.strings_resolve_ofList (table ▸ small)
  · -- no node is kept, so there is nothing that could have added a script or a text
    intro none
    have nodes := holds.nodes
    rw [show document.collection.nodes = [] from none, List.forall₂_nil_left_iff] at nodes
    refine ⟨(show document.snippets = _ from holds.snippets).trans (by rw [nodes]; rfl), ?_⟩
    rw [table, nodes]
    rfl
  · exact fun d mem => Document.shows_of_mem holds scripts ordinals mem
  · exact Document.pairwise_diagnostics holds ordinals

/-- Two nodes share a text, one between them has no identifier, and a script has a bad line. -/
theorem coherent_of_compile_shared :
    ∃ source document, source.utf8ByteSize < 2 ^ 32 ∧
      Document.compile .standard source = .ok document ∧ document.Coherent .standard ∧
        document.nodes.length = 2 ∧ document.snippets.length = 2 ∧
        document.table.texts = ["a", "b"] ∧ document.diagnostics.length = 2 := by
  let source := "<node id='a'><after>)</after><say>b</say></node><node/>" ++
    "<node id='b'><before>(say 1)</before><plsay>a</plsay></node>"
  have short : source.utf8ByteSize < 2 ^ 32 := by decide +kernel
  have shared : ((Document.compile .standard source).toOption.any fun document =>
      document.nodes.length = 2 ∧ document.snippets.length = 2 ∧
        document.table.texts = ["a", "b"] ∧ document.diagnostics.length = 2) = true := by
    decide +kernel
  obtain ⟨document, compiled, counts⟩ := exists_ok_of_any shared
  exact ⟨source, document, short, compiled, coherent_of_compile short compiled,
    of_decide_eq_true counts⟩

end Libretto.Drama
