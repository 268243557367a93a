/-
The node elements of a markup.

A node is committed when its element closes, and the end of the markup closes nothing.  So the
reading is compared with the elements that the events open and close:

* **`opened`** — the elements that are open behind some events;
* **`rootNodes`** — the `node` elements that are children of a root, wherever they end;
* **`Progress.Follows`** — the reading knows how many elements are open, and holds back the one
  node that is;
* **`Follows.step`**, **`Follows.run`** — an event keeps it that way, and so do events;
* **`nodes_and_reports_of_events`** — hence what a document reports about the nodes among events, of
  which only those elements are closed that are open: each is a node of the document or is reported,
  except for one that never closes;
* **`nodes_and_reports`** — the events of a markup are such events.

A markup with an element left open is read like any other (`unclosed_node_lost`).
-/
import Libretto.Proofs.Drama.Collection
import Libretto.Proofs.Markup.Tree
import Libretto.Proofs.Outcome
import Libretto.Proofs.Script.Report

namespace Libretto.Drama

open Markup (Event EventStream StartTag MarkupError depthBehind)
open Progress (isNode)

/-- The elements open behind events, innermost first, when `tags` are open in front of them. -/
def opened (tags : List StartTag) : List Event → List StartTag
  | [] => tags
  | .start tag :: rest => opened (tag :: tags) rest
  | .close :: rest => opened tags.tail rest
  | _ :: rest => opened tags rest

/-- As many elements are open as the events leave open. -/
theorem length_opened (tags : List StartTag) {events : List Event} {depth : Nat}
    (matched : depthBehind tags.length events = some depth) :
    (opened tags events).length = depth := by
  induction events generalizing tags with
  | nil => exact Option.some.inj matched
  | cons event rest ih =>
    cases event with
    | start tag => exact ih (tag :: tags) matched
    | close =>
      cases tags with
      | nil => cases matched
      | cons tag tags => exact ih tags matched
    | empty | text | cdata | aside => exact ih tags matched

/-- The element that begins inside of `tags`, if it is a `node` and its parent is a root. -/
def rootNode? (tags : List StartTag) (tag : StartTag) : List StartTag :=
  if tags.length = 1 && isNode tag then [tag] else []

/-- The `node` elements among events that are children of a root, when `tags` are open in front of
them. -/
def rootNodes (tags : List StartTag) : List Event → List StartTag
  | [] => []
  | .start tag :: rest => rootNode? tags tag ++ rootNodes (tag :: tags) rest
  | .empty tag :: rest => rootNode? tags tag ++ rootNodes tags rest
  | .close :: rest => rootNodes tags.tail rest
  | _ :: rest => rootNodes tags rest

/-- Among the open elements is a `node` whose parent is a root. -/
def inNode (tags : List StartTag) : Bool :=
  tags.reverse[1]?.any isNode

theorem inNode_cons (tag : StartTag) {tags : List StartTag} (deep : tags.length ≠ 1) :
    inNode (tag :: tags) = inNode tags := by
  rw [inNode, inNode, List.reverse_cons]
  by_cases two : 2 ≤ tags.length
  · rw [List.getElem?_append_left (by rw [List.length_reverse]; omega)]
  · obtain rfl : tags = [] := List.length_eq_zero_iff.1 (by omega)
    rfl

theorem inNode_of_short {tags : List StartTag} (short : tags.length ≤ 1) : inNode tags = false := by
  have none : tags.reverse[1]? = none := List.getElem?_eq_none (by simpa using short)
  rw [inNode, none]
  rfl

theorem inNode_tail {tags : List StartTag} (deep : tags.length ≠ 2) :
    inNode tags.tail = inNode tags := by
  cases tags with
  | nil => rfl
  | cons tag tags => exact (inNode_cons tag (by simpa using deep)).symm

namespace Progress

/-- The nodes that were begun. -/
def begun (p : Progress) : Nat :=
  p.reversed.length + p.node.toList.length

/-- The reading counts the open elements, and has a node in hand if it is inside of one. -/
structure Follows (p : Progress) (tags : List StartTag) : Prop where
  depth : p.depth = tags.length
  node : p.node.isSome = inNode tags

variable {p p' : Progress} {tags : List StartTag}

/-- At the end of an element outside of all nodes, or of a root, no node is in hand. -/
theorem Follows.node_eq_none (h : p.Follows tags) (short : tags.length ≤ 1) : p.node = none := by
  have node := h.node
  rwa [inNode_of_short short, Option.isSome_eq_false_iff, Option.isNone_iff_eq_none] at node

theorem Follows.openElement (h : p.Follows tags) (tag : StartTag) :
    (p.openElement tag).Follows (tag :: tags) ∧
      (p.openElement tag).begun = p.begun + (rootNode? tags tag).length := by
  have depth := h.depth
  by_cases root : tags.length = 1
  · have none := h.node_eq_none (by omega)
    have inside : inNode (tag :: tags) = isNode tag := by
      obtain ⟨outer, rfl⟩ := List.length_eq_one_iff.1 root
      rfl
    by_cases node : isNode tag
    · rw [Progress.openElement, if_pos (by simp [depth, root, node])]
      refine ⟨⟨by simp [depth], by rw [inside, node]; rfl⟩, ?_⟩
      simp [begun, rootNode?, root, node, none]
    · rw [Progress.openElement, if_neg (by simp [node]), if_neg (by simp [depth, root])]
      refine ⟨⟨by simp [depth], by simp [inside, node, none]⟩, ?_⟩
      simp [begun, rootNode?, node]
  · have inside := inNode_cons tag root
    rw [Progress.openElement, if_neg (by simp [depth, root])]
    split
    · refine ⟨⟨by simp [depth], h.node.trans inside.symm⟩, ?_⟩
      simp [begun, rootNode?, root]
    · refine ⟨⟨by simp [depth], h.node.trans inside.symm⟩, ?_⟩
      simp [begun, rootNode?, root]

theorem Follows.emptyElement (h : p.Follows tags) (tag : StartTag) :
    (p.emptyElement tag).Follows tags ∧
      (p.emptyElement tag).begun = p.begun + (rootNode? tags tag).length := by
  rw [Progress.emptyElement, rootNode?, h.depth]
  split
  · refine ⟨⟨rfl, h.node⟩, ?_⟩
    simp only [begun, List.length_cons, List.length_nil]
    omega
  · exact ⟨h, rfl⟩

theorem Follows.closeElement (h : p.Follows tags) :
    p.closeElement.Follows tags.tail ∧ p.closeElement.begun = p.begun := by
  have depth := h.depth
  have node := h.node
  have behind : p.depth - 1 = tags.tail.length := by rw [depth, List.length_tail]
  by_cases field : p.depth = 3
  · -- a field closes: the node stays in hand
    have inside : inNode tags.tail = inNode tags := inNode_tail (by omega)
    rw [Progress.closeElement, if_pos field]
    split
    · next draft _ _ found _ =>
      rw [found] at node
      exact ⟨⟨behind, node.trans inside.symm⟩, by simp [begun, found]⟩
    · exact ⟨⟨behind, node.trans inside.symm⟩, rfl⟩
  · by_cases child : p.depth = 2
    · have outside : inNode tags.tail = false := inNode_of_short (by rw [List.length_tail]; omega)
      rw [Progress.closeElement, if_neg field, if_pos child]
      split
      · next draft found =>
        refine ⟨⟨behind, by rw [outside]; rfl⟩, ?_⟩
        simp [begun, found]
      · next found => exact ⟨⟨behind, by simp [found, outside]⟩, rfl⟩
    · have inside : inNode tags.tail = inNode tags := inNode_tail (by omega)
      rw [Progress.closeElement, if_neg field, if_neg child]
      exact ⟨⟨behind, node.trans inside.symm⟩, rfl⟩

/-- What is added to a field changes no node. -/
theorem Follows.addText (h : p.Follows tags) (field : Option (Field × List Char)) :
    Follows { p with field } tags ∧ begun { p with field } = p.begun :=
  ⟨⟨h.depth, h.node⟩, rfl⟩

/-- An event opens or closes an element, and begins a node if it is one below a root. -/
theorem Follows.step (h : p.Follows tags) {event : Event} (run : p.step event = .ok p') :
    p'.Follows (opened tags [event]) ∧ p'.begun = p.begun + (rootNodes tags [event]).length := by
  cases event with
  | start tag =>
    obtain rfl := Except.ok.inj run
    simpa [opened, rootNodes] using h.openElement tag
  | empty tag =>
    obtain rfl := Except.ok.inj run
    simpa [opened, rootNodes] using h.emptyElement tag
  | close =>
    obtain rfl := Except.ok.inj run
    exact h.closeElement
  | aside =>
    obtain rfl := Except.ok.inj run
    exact ⟨h, rfl⟩
  | cdata more =>
    rw [Progress.step] at run
    split at run
    · obtain rfl := Except.ok.inj run
      exact ⟨h, rfl⟩
    · obtain rfl := Except.ok.inj run
      exact h.addText _
  | text raw stop =>
    rw [Progress.step] at run
    split at run
    · obtain rfl := Except.ok.inj run
      exact ⟨h, rfl⟩
    · split at run
      · cases run
      · obtain rfl := Except.ok.inj run
        exact h.addText _

theorem opened_cons (tags : List StartTag) (event : Event) (rest : List Event) :
    opened tags (event :: rest) = opened (opened tags [event]) rest := by
  cases event <;> rfl

theorem rootNodes_cons (tags : List StartTag) (event : Event) (rest : List Event) :
    rootNodes tags (event :: rest) =
      rootNodes tags [event] ++ rootNodes (opened tags [event]) rest := by
  cases event <;> simp [rootNodes, opened]

/-- Every node that a markup begins is begun, whether the markup closes it or not. -/
theorem Follows.run {events : List Event} (h : p.Follows tags)
    (run : p.run events = (p', none)) :
    p'.Follows (opened tags events) ∧ p'.begun = p.begun + (rootNodes tags events).length := by
  induction events generalizing p tags with
  | nil =>
    obtain ⟨rfl, -⟩ := Prod.mk.inj run
    exact ⟨h, rfl⟩
  | cons event rest ih =>
    rw [Progress.run] at run
    cases stepped : p.step event with
    | error e =>
      rw [stepped] at run
      cases run
    | ok next =>
      rw [stepped] at run
      obtain ⟨first, begun⟩ := h.step stepped
      obtain ⟨last, more⟩ := ih first run
      rw [opened_cons, rootNodes_cons, List.length_append]
      exact ⟨last, by omega⟩

theorem Follows.begun_eq (h : p.Follows tags) :
    p.begun = p.reversed.length + (inNode tags).toNat := by
  rw [begun, ← h.node]
  cases p.node <;> rfl

end Progress

/-! ### Nodes and reports -/

/-- The diagnostic is about a node of the markup. -/
def atNode (d : Diagnostic) : Bool :=
  match d.location with
  | .node _ => true
  | _ => false

/-- An entry is a node or a report. -/
theorem countP_entries (entries : List Entry) :
    (entries.filterMap Entry.node?).length +
      (entries.flatMap Entry.diagnostics).countP atNode = entries.length := by
  induction entries with
  | nil => rfl
  | cons entry rest ih =>
    cases entry with
    | skipped ordinal =>
      rw [List.filterMap_cons_none rfl, List.flatMap_cons, List.countP_append, List.length_cons,
        ← ih]
      show _ + (1 + _) = _
      omega
    | kept ordinal id node =>
      have kept : (Entry.kept ordinal id node).node? = some node := rfl
      rw [List.filterMap_cons_some kept, List.flatMap_cons, List.countP_append, List.length_cons,
        List.length_cons, ← ih]
      show _ + (0 + _) = _
      omega

/-- Only entries are reported as nodes. -/
theorem countP_diagnostics (document : Document) :
    document.diagnostics.countP atNode =
      (document.entries.flatMap Entry.diagnostics).countP atNode := by
  rw [Document.diagnostics, List.countP_append]
  refine (congrArg (_ + ·) (List.countP_eq_zero.2 ?_)).trans (Nat.add_zero _)
  intro d mem
  obtain ⟨⟨unit, index⟩, -, mem⟩ := List.mem_flatMap.1 mem
  obtain ⟨number, at_line, -⟩ := unit.location_of_diagnosticsAt mem
  simp [atNode, at_line]

section

variable {numbering : Numbering} {stream : EventStream} {document : Document}

/-- Events that make a document are read to their end. -/
theorem exists_run_of_document
    (compiled : (Reading.ofEvents stream).document numbering = .ok document) :
    ∃ p : Progress, Progress.start.run stream.events = (p, none) ∧
      (Reading.ofEvents stream).collection = .ofDrafts p.reversed.reverse := by
  obtain ⟨fault, -⟩ := document_eq_ok compiled
  let reached := Progress.start.run stream.events
  have stopped : (reached.2 <|> stream.error) = none := fault
  have finished : reached.2 = none ∧ stream.error = none := by simpa using stopped
  exact ⟨reached.1, by rw [← finished.1], rfl⟩

theorem follows_start : Progress.start.Follows [] :=
  ⟨rfl, rfl⟩

/-- A document has an entry for every node that the events close. -/
theorem entries_of_document
    (compiled : (Reading.ofEvents stream).document numbering = .ok document) :
    document.entries.length + (inNode (opened [] stream.events)).toNat =
      (rootNodes [] stream.events).length := by
  obtain ⟨reached, read, collection⟩ := exists_run_of_document compiled
  obtain ⟨-, rfl⟩ := document_eq_ok compiled
  obtain ⟨follows, begun⟩ := follows_start.run read
  have entries : (Reading.ofEvents stream).collection.entries.length =
      reached.reversed.length := by
    rw [collection, (Collection.holds_ofDrafts _).entries, List.length_reverse]
  show (Reading.ofEvents stream).collection.entries.length + _ = _
  rw [entries, ← follows.begun_eq, begun]
  exact Nat.zero_add _

/-- Let events close only elements that are open, and leave `depth` of them open.  Their document
has a node or a report for every `node` element that is a child of a root, except for the one that
the events end in; and if they leave no more than a root open, they end in none. -/
theorem nodes_and_reports_of_events {depth : Nat}
    (matched : depthBehind 0 stream.events = some depth)
    (compiled : (Reading.ofEvents stream).document numbering = .ok document) :
    document.nodes.length + document.diagnostics.countP atNode +
        (inNode (opened [] stream.events)).toNat = (rootNodes [] stream.events).length ∧
      (depth ≤ 1 → document.nodes.length + document.diagnostics.countP atNode =
        (rootNodes [] stream.events).length) := by
  have all : document.nodes.length + document.diagnostics.countP atNode +
      (inNode (opened [] stream.events)).toNat = (rootNodes [] stream.events).length := by
    rw [countP_diagnostics, Document.nodes, countP_entries, entries_of_document compiled]
  refine ⟨all, ?_⟩
  intro shallow
  have outside : inNode (opened [] stream.events) = false :=
    inNode_of_short (by rwa [length_opened [] matched])
  rw [outside] at all
  exact all

end

/-- The events of the markup of a source. -/
def eventsOf (source : String) : List Event :=
  (Markup.events (markupOfSource source)).events

/-- A document has a node or a report for every `node` element that is a child of a root, except
for the one that the markup ends in; a markup that closes its elements ends in none. -/
theorem nodes_and_reports {numbering : Numbering} {source : String} {document : Document}
    (compiled : Document.compile numbering source = .ok document) :
    document.nodes.length + document.diagnostics.countP atNode +
        (inNode (opened [] (eventsOf source))).toNat = (rootNodes [] (eventsOf source)).length ∧
      (opened [] (eventsOf source) = [] →
        document.nodes.length + document.diagnostics.countP atNode =
          (rootNodes [] (eventsOf source)).length) := by
  obtain ⟨depth, matched⟩ :=
    Option.isSome_iff_exists.1 (Markup.matched_events (markupOfSource source))
  obtain ⟨all, shallow⟩ := nodes_and_reports_of_events matched compiled
  refine ⟨all, ?_⟩
  intro closed
  have left : (opened [] (eventsOf source)).length = depth := length_opened [] matched
  rw [closed, List.length_nil] at left
  exact shallow (by omega)

/-- One node is kept, and one is reported since it has no identifier. -/
theorem nodes_and_reports_pair :
    ∃ document, Document.compile .standard "<node id='a'/><node></node>" = .ok document ∧
      document.nodes.length + document.diagnostics.countP atNode = 2 := by
  obtain ⟨document, compiled⟩ : ∃ document,
      Document.compile .standard "<node id='a'/><node></node>" = .ok document :=
    exists_ok_of_isOk (by decide +kernel)
  have closed : opened [] (eventsOf "<node id='a'/><node></node>") = [] := by decide +kernel
  have two : (rootNodes [] (eventsOf "<node id='a'/><node></node>")).length = 2 := by
    decide +kernel
  exact ⟨document, compiled, ((nodes_and_reports compiled).2 closed).trans two⟩

/-- The end tag of the document closes the inner of two open elements.  The markup ends in the
node, which is neither kept nor reported, and the source compiles. -/
theorem unclosed_node_lost :
    (rootNodes [] (eventsOf "<node id='a'><drama>")).length = 1 ∧
      (opened [] (eventsOf "<node id='a'><drama>")).length = 2 ∧
      ∃ document, Document.compile .standard "<node id='a'><drama>" = .ok document ∧
        document.nodes = [] ∧ document.diagnostics = [] := by
  refine ⟨by decide +kernel, by decide +kernel, ?_⟩
  have lost : ((Document.compile .standard "<node id='a'><drama>").toOption.any
      fun document => document.nodes = [] ∧ document.diagnostics = []) = true := by decide +kernel
  obtain ⟨document, compiled, none⟩ := exists_ok_of_any lost
  exact ⟨document, compiled, of_decide_eq_true none⟩

end Libretto.Drama
