/-
What the nodes of a dialogue refer to.

* **`Collection.Sound`** — every string of a node is in the table, every snippet index is one of a
  snippet, and without nodes there are no snippets;
* **`Holds.sound`** — a collection that holds its drafts is sound;
* **`document_eq_ok`**, **`compile_eq_ok`** — a document holds what was read of its source;
* **`Document.Sound`**, **`sound_of_compile`** — so documents are sound, and have one unit for each
  snippet.
-/
import Libretto.Proofs.Drama.Contents

namespace Libretto.Drama

open Script (ScriptUnit)

namespace Collection

/-- What the nodes of a collection refer to is there. -/
structure Sound (c : Collection) : Prop where
  strings : ∀ node ∈ c.nodes, ∀ id ∈ Document.nodeReferences node, (c.table.get? id).isSome
  snippets : ∀ node ∈ c.nodes, ∀ index ∈ node.snippets, index < c.snippets.length
  nonempty : c.nodes = [] → c.snippets = []

theorem Holds.sound {c : Collection} {drafts : List Draft} (h : c.Holds drafts) : c.Sound := by
  refine ⟨?_, ?_, ?_⟩
  · intro node mem id hid
    obtain ⟨draft, -, holds⟩ := h.exists_draft mem
    rw [holds.references_eq] at hid
    obtain ⟨text, named, rfl⟩ := List.mem_map.1 hid
    exact StringTable.isSome_get?_idOf (holds.known text named)
  · intro node mem index hindex
    rw [← List.mem_range, ← h.indices]
    exact List.mem_flatMap.2 ⟨node, mem, hindex⟩
  · intro none
    have indices := h.indices
    rw [none, List.flatMap_nil] at indices
    exact List.length_eq_zero_iff.1 (List.range_eq_nil.1 indices.symm)

end Collection

/-- What the nodes of a document refer to is there, and each snippet has a unit. -/
structure Document.Sound (numbering : Numbering) (document : Document) : Prop where
  strings : ∀ id ∈ document.references, (document.table.get? id).isSome
  snippets : ∀ node ∈ document.nodes, ∀ index ∈ node.snippets, index < document.scripts.length
  nonempty : document.nodes = [] → document.scripts = []
  scripts : document.scripts = document.snippets.map (ScriptUnit.compile numbering)

/-- A reading that met no fault has a document, which holds what was read. -/
theorem document_eq_ok {numbering : Numbering} {reading : Reading} {document : Document}
    (compiled : reading.document numbering = .ok document) :
    reading.error = none ∧
      document = ⟨reading.collection.table, reading.collection.entries,
        reading.collection.snippets,
        reading.collection.snippets.map (ScriptUnit.compile numbering)⟩ := by
  rw [Reading.document] at compiled
  cases error : reading.error with
  | some e => simp [error] at compiled
  | none =>
    simp only [error, Except.ok.injEq] at compiled
    exact ⟨rfl, compiled.symm⟩

/-- A source that compiles is read to its end, and its document holds what was read. -/
theorem compile_eq_ok {numbering : Numbering} {source : String} {document : Document}
    (compiled : Document.compile numbering source = .ok document) :
    (Reading.ofSource source).error = none ∧
      document = ⟨(Reading.ofSource source).collection.table,
        (Reading.ofSource source).collection.entries,
        (Reading.ofSource source).collection.snippets,
        (Reading.ofSource source).collection.snippets.map (ScriptUnit.compile numbering)⟩ :=
  document_eq_ok compiled

theorem sound_of_compile {numbering : Numbering} {source : String} {document : Document}
    (compiled : Document.compile numbering source = .ok document) : document.Sound numbering := by
  obtain ⟨-, rfl⟩ := compile_eq_ok compiled
  have sound : (Reading.ofSource source).collection.Sound := (Collection.holds_ofDrafts _).sound
  refine ⟨?_, ?_, ?_, rfl⟩
  · intro id mem
    obtain ⟨node, hnode, hid⟩ := List.mem_flatMap.1 mem
    exact sound.strings node hnode id hid
  · intro node mem index hindex
    rw [List.length_map]
    exact sound.snippets node mem index hindex
  · intro none
    exact List.map_eq_nil_iff.2 (sound.nonempty none)

end Libretto.Drama
