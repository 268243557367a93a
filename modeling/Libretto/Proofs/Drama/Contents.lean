/-
What a collection of nodes contains.

Nodes are added one after the other, and each leaves its texts in the table and its scripts among
the snippets.  So the whole collection is known from the drafts alone:

* **`Draft.texts`**, **`Draft.scripts`** — what a node that is kept adds, in the order of addition;
* **`Collection.add_of_kept`**, **`add_of_skipped`** — what adding a node does, as an equation;
* **`Node.Holds`** — a node whose ids name the texts of a draft and whose indices are those of its
  scripts;
* **`Collection.Holds`**, **`holds_ofDrafts`** — the collection of some drafts has a node for each
  draft with an identifier, a report for each without one, and the texts and scripts of the former.

A node that is left out adds nothing, so the strings of a table are those that its nodes refer to.
-/
import Libretto.Drama.Document
import Libretto.Proofs.Interning
import Mathlib.Data.List.Forall2

namespace Libretto.Drama

namespace Draft

/-- The texts of a node that are interned, in the order of its record. -/
def texts (draft : Draft) : List String :=
  draft.id.toList ++ (draft.plsay.toList ++ draft.say.toList)

/-- The scripts of a node. -/
def scripts (draft : Draft) : List String :=
  draft.before.toList ++ draft.after.toList

/-- The report about a node without an identifier. -/
def report (draft : Draft) : Diagnostic :=
  ⟨.error, .node draft.ordinal, "node has no `id` attribute, skipped"⟩

end Draft

/-- The nodes with an identifier. -/
def kept (drafts : List Draft) : List Draft :=
  drafts.filter (·.id.isSome)

/-- The nodes without one. -/
def skipped (drafts : List Draft) : List Draft :=
  drafts.filter (·.id.isNone)

/-- The snippets of a node. -/
def Node.snippets (node : Node) : List Nat :=
  node.before.toList ++ node.after.toList

/-- A node with the contents of a draft, in a document with the given strings and snippets. -/
structure Node.Holds (node : Node) (table : StringTable) (snippets : List String)
    (draft : Draft) : Prop where
  known : ∀ text ∈ draft.texts, text ∈ table.texts
  id : draft.id.map table.idOf = some node.id
  plsay : node.plsay = draft.plsay.map table.idOf
  say : node.say = draft.say.map table.idOf
  before : node.before.map (snippets[·]?) = draft.before.map some
  after : node.after.map (snippets[·]?) = draft.after.map some

namespace Node.Holds

variable {node : Node} {table later : StringTable} {snippets : List String} {draft : Draft}

theorem mono (h : node.Holds table snippets draft) (le : table ≤ later) (more : List String) :
    node.Holds later (snippets ++ more) draft := by
  have ids : ∀ {text? : Option String}, (∀ text ∈ text?, text ∈ draft.texts) →
      text?.map later.idOf = text?.map table.idOf := by
    intro text? mem
    refine Option.map_congr ?_
    intro text some
    exact StringTable.idOf_of_le le (h.known text (mem text some))
  have found : ∀ {index? : Option Nat} {source? : Option String},
      index?.map (snippets[·]?) = source?.map some →
      index?.map ((snippets ++ more)[·]?) = source?.map some := by
    intro index? source? same
    cases index? with
    | none => exact same
    | some index =>
      cases source? with
      | none => cases same
      | some source =>
        have here : snippets[index]? = some source := Option.some.inj same
        obtain ⟨bound, -⟩ := List.getElem?_eq_some_iff.1 here
        rw [Option.map_some, List.getElem?_append_left bound, here]
        rfl
  refine ⟨fun text mem => StringTable.mem_of_le le (h.known text mem), ?_, ?_, ?_, found h.before,
    found h.after⟩
  · rw [ids (by simp_all [Draft.texts]), h.id]
  · rw [ids (by simp_all [Draft.texts]), h.plsay]
  · rw [ids (by simp_all [Draft.texts]), h.say]

/-- The strings of the node are the texts of the draft. -/
theorem references_eq (h : node.Holds table snippets draft) :
    Document.nodeReferences node = draft.texts.map table.idOf := by
  obtain ⟨text, some, named⟩ := Option.map_eq_some_iff.1 h.id
  rw [Document.nodeReferences, h.plsay, h.say, Draft.texts, some, ← named]
  cases draft.plsay <;> cases draft.say <;> rfl

end Node.Holds

namespace Collection

/-- The nodes that are kept. -/
def nodes (c : Collection) : List Node :=
  c.entries.filterMap Entry.node?

theorem intern_eq (c : Collection) (text? : Option String) :
    c.intern text? =
      (text?.map c.table.idOf, { c with table := c.table.insertAll text?.toList }) := by
  cases text? <;> rfl

theorem addSnippet_eq (c : Collection) (source? : Option String) :
    c.addSnippet source? =
      (source?.map fun _ => c.snippets.length,
        { c with snippets := c.snippets ++ source?.toList }) := by
  cases source? with
  | none => rw [Option.toList_none, List.append_nil]; rfl
  | some source => rfl

/-- The node of a draft with the given identifier, behind the nodes of a collection. -/
def nodeOf (c : Collection) (text : String) (draft : Draft) : Node where
  id := c.table.idOf text
  before := draft.before.map fun _ => c.snippets.length
  after := draft.after.map fun _ => (c.snippets ++ draft.before.toList).length
  plsay := draft.plsay.map (c.table.insert text).idOf
  say := draft.say.map ((c.table.insert text).insertAll draft.plsay.toList).idOf

/-- A node with an identifier adds its texts, its scripts and an entry. -/
theorem add_of_kept (c : Collection) {draft : Draft} {text : String}
    (named : draft.id = some text) :
    c.add draft = ⟨c.table.insertAll draft.texts, c.snippets ++ draft.scripts,
      c.entries ++ [.kept draft.ordinal text (c.nodeOf text draft)]⟩ := by
  rw [add, named]
  simp only [StringTable.add, addSnippet_eq, intern_eq, nodeOf, Draft.texts, Draft.scripts, named,
    Option.toList_some, StringTable.insertAll_append, List.append_assoc]
  rfl

/-- A node without an identifier adds an entry, and nothing else. -/
theorem add_of_skipped (c : Collection) {draft : Draft} (unnamed : draft.id = none) :
    c.add draft = ⟨c.table, c.snippets, c.entries ++ [.skipped draft.ordinal]⟩ := by
  rw [add, unnamed]

/-- The node that is added holds the draft. -/
theorem holds_nodeOf (c : Collection) {draft : Draft} {text : String}
    (named : draft.id = some text) :
    (c.nodeOf text draft).Holds (c.table.insertAll draft.texts) (c.snippets ++ draft.scripts)
      draft := by
  let first := c.table.insert text
  let second := first.insertAll draft.plsay.toList
  let last := second.insertAll draft.say.toList
  have table : c.table.insertAll draft.texts = last := by
    simp only [Draft.texts, named, Option.toList_some, StringTable.insertAll_append]
    rfl
  have le₂ : second ≤ last := StringTable.le_insertAll _ _
  have le₁ : first ≤ last := StringTable.le_trans (StringTable.le_insertAll _ _) le₂
  -- an id that was given when the text came in is its id in every later table
  have plsay : ∀ text ∈ draft.plsay, first.idOf text = last.idOf text := by
    intro text some
    refine (StringTable.idOf_of_insert_le (StringTable.le_trans ?_ le₂)).symm
    rw [show second = first.insertAll draft.plsay.toList from rfl, some]
    exact StringTable.le_refl _
  have say : ∀ text ∈ draft.say, second.idOf text = last.idOf text := by
    intro text some
    refine (StringTable.idOf_of_insert_le ?_).symm
    rw [show last = second.insertAll draft.say.toList from rfl, some]
    exact StringTable.le_refl _
  rw [table]
  refine ⟨?_, ?_, Option.map_congr plsay, Option.map_congr say, ?_, ?_⟩
  · intro text mem
    rw [← table]
    exact StringTable.mem_insertAll mem
  · rw [named, Option.map_some, StringTable.idOf_of_insert_le le₁]
    rfl
  · cases before : draft.before with
    | none => simp [nodeOf, before]
    | some source => simp [nodeOf, Draft.scripts, before]
  · cases after : draft.after with
    | none => simp [nodeOf, after]
    | some source => simp [nodeOf, Draft.scripts, after]

/-- A new node takes the next snippets. -/
theorem snippets_nodeOf (c : Collection) (text : String) (draft : Draft) :
    (c.nodeOf text draft).snippets = List.range' c.snippets.length draft.scripts.length := by
  rw [Node.snippets, nodeOf, Draft.scripts]
  cases draft.before <;> cases draft.after <;> simp [List.range'_succ]

/-- The collection of some drafts. -/
structure Holds (c : Collection) (drafts : List Draft) : Prop where
  table : c.table = .ofList ((kept drafts).flatMap Draft.texts)
  snippets : c.snippets = (kept drafts).flatMap Draft.scripts
  nodes : List.Forall₂ (fun node draft => node.Holds c.table c.snippets draft) c.nodes (kept drafts)
  reports : c.entries.flatMap Entry.diagnostics = (skipped drafts).map Draft.report
  entries : c.entries.length = drafts.length
  /-- The snippets are numbered in the order of the nodes. -/
  indices : c.nodes.flatMap Node.snippets = List.range c.snippets.length

theorem holds_empty : empty.Holds [] :=
  ⟨rfl, rfl, .nil, rfl, rfl, rfl⟩

/-- Adding a node adds its draft. -/
theorem Holds.add {c : Collection} {drafts : List Draft} (h : c.Holds drafts) (draft : Draft) :
    (c.add draft).Holds (drafts ++ [draft]) := by
  cases named : draft.id with
  | none =>
    have nodes : (c.add draft).nodes = c.nodes := by
      simp [add_of_skipped c named, Collection.nodes, Entry.node?]
    have all : kept (drafts ++ [draft]) = kept drafts := by simp [kept, named]
    have none : skipped (drafts ++ [draft]) = skipped drafts ++ [draft] := by simp [skipped, named]
    refine ⟨?_, ?_, ?_, ?_, ?_, ?_⟩
    · rw [all, add_of_skipped c named]
      exact h.table
    · rw [all, add_of_skipped c named]
      exact h.snippets
    · rw [all, nodes, add_of_skipped c named]
      exact h.nodes
    · rw [none, add_of_skipped c named, List.flatMap_append, h.reports, List.map_append]
      rfl
    · rw [add_of_skipped c named]
      simp [h.entries]
    · rw [nodes, add_of_skipped c named]
      exact h.indices
  | some text =>
    have nodes : (c.add draft).nodes = c.nodes ++ [c.nodeOf text draft] := by
      simp [add_of_kept c named, Collection.nodes, Entry.node?]
    have all : kept (drafts ++ [draft]) = kept drafts ++ [draft] := by simp [kept, named]
    have none : skipped (drafts ++ [draft]) = skipped drafts := by simp [skipped, named]
    have le : c.table ≤ c.table.insertAll draft.texts := StringTable.le_insertAll _ _
    refine ⟨?_, ?_, ?_, ?_, ?_, ?_⟩
    · rw [all, add_of_kept c named, List.flatMap_append, StringTable.ofList,
        StringTable.insertAll_append, ← StringTable.ofList, ← h.table, List.flatMap_singleton]
    · rw [all, add_of_kept c named, List.flatMap_append, h.snippets, List.flatMap_singleton]
    · rw [all, nodes, add_of_kept c named]
      refine List.rel_append (h.nodes.imp ?_) (.cons (holds_nodeOf c named) .nil)
      exact fun _ _ holds => holds.mono le draft.scripts
    · rw [none, add_of_kept c named, List.flatMap_append, h.reports]
      exact List.append_nil _
    · rw [add_of_kept c named]
      simp [h.entries]
    · rw [nodes, add_of_kept c named, List.flatMap_append, h.indices, List.flatMap_singleton,
        snippets_nodeOf, List.length_append, List.range_eq_range', List.range_eq_range']
      simpa using List.range'_append_1 (s := 0) (m := c.snippets.length)

theorem Holds.addAll {c : Collection} {drafts : List Draft} (h : c.Holds drafts)
    (more : List Draft) : (more.foldl Collection.add c).Holds (drafts ++ more) := by
  induction more generalizing c drafts with
  | nil => rwa [List.append_nil]
  | cons draft rest ih =>
    have added := ih (h.add draft)
    rwa [List.append_assoc, List.singleton_append] at added

theorem holds_ofDrafts (drafts : List Draft) : (ofDrafts drafts).Holds drafts :=
  holds_empty.addAll drafts

namespace Holds

variable {c : Collection} {drafts : List Draft} {node : Node}

theorem exists_draft (h : c.Holds drafts) (mem : node ∈ c.nodes) :
    ∃ draft ∈ kept drafts, node.Holds c.table c.snippets draft := by
  obtain ⟨k, bound, rfl⟩ := List.getElem_of_mem mem
  have same : k < (kept drafts).length := h.nodes.length_eq ▸ bound
  exact ⟨(kept drafts)[k], List.getElem_mem same, h.nodes.get bound same⟩

/-- The nodes refer to their texts, in the order in which these came in. -/
theorem references_eq (h : c.Holds drafts) :
    c.nodes.flatMap Document.nodeReferences =
      ((kept drafts).flatMap Draft.texts).map c.table.idOf := by
  have nodes := h.nodes
  generalize c.nodes = nodes at nodes
  generalize kept drafts = drafts at nodes
  induction nodes with
  | nil => rfl
  | cons holds _ ih =>
    rw [List.flatMap_cons, List.flatMap_cons, List.map_append, holds.references_eq, ih]

end Holds

end Collection

end Libretto.Drama
