/-
The nodes of a markup, read off its trees.

The reading follows the events with a count of open elements and two slots, for a node and for a
field.  Where the elements match, it finds what stands in the trees:

* **`nodeElements`** — the `node` elements directly below the roots;
* **`draftOf`** — such an element as a node: the first `id` of its tag, and for each field the first
  value that is not blank among its children of that name;
* **`Progress.Reads`** — events lead from one state to another if the texts in them can be read,
  and to a fault if not;
* **`Idle.reads_eventsOf`**, **`reads_field`**, **`reads_node`**, **`reads_root`**, **`reads_forest`**
  — what the reading does inside of an element that does not count, of a field, of a node, of a
  root, and with a whole markup;
* **`ofEvents_reflects_trees`** — hence the nodes of balanced events are those of their trees.
-/
import Libretto.Proofs.Drama.Contents
import Libretto.Proofs.Markup.Tree

namespace Libretto.Drama

open Markup (Content Event EventStream MarkupError StartTag Balanced)
open Markup.Content (eventsOf)
open Progress (isNode)

/-! ### Nodes of trees -/

/-- A `node` element: its tag and what is inside of it. -/
def node? : Content → Option (StartTag × List Content)
  | .element tag children => if isNode tag then some (tag, children) else none
  | .empty tag => if isNode tag then some (tag, []) else none
  | _ => none

def childrenOf : Content → List Content
  | .element _ children => children
  | _ => []

/-- The `node` elements directly below the roots, in order. -/
def nodeElements (forest : List Content) : List (StartTag × List Content) :=
  (forest.flatMap childrenOf).filterMap node?

/-- A field element and what is inside of it; one that closes itself does not count. -/
def field? : Content → Option (Field × List Content)
  | .element tag children => (Field.ofName? tag.name).map fun field => (field, children)
  | _ => none

/-- The fields directly inside of a node. -/
def fieldElements (children : List Content) : List (Field × List Content) :=
  children.filterMap field?

/-- The text that a piece adds to the field it stands in. -/
def ownText : Content → List Char
  | .text raw _ => (Markup.unescape raw).toOption.getD []
  | .cdata text => text
  | _ => []

/-- A text in which every reference stands for characters. -/
def Readable : Content → Prop
  | .text raw _ => ∃ text, Markup.unescape raw = .ok text
  | _ => True

/-- The first value of a field that is not blank. -/
def value? (fields : List (Field × List Content)) (field : Field) : Option String :=
  fields.findSome? fun (name, inner) =>
    if name = field then presentText? (inner.flatMap ownText) else none

/-- The node of an element. -/
def draftOf (ordinal : Nat) (node : StartTag × List Content) : Draft where
  ordinal
  id := (node.1.attributes.find? fun a => a.key == "id".toList).bind fun a => presentText? a.value
  before := value? (fieldElements node.2) .before
  after := value? (fieldElements node.2) .after
  plsay := value? (fieldElements node.2) .plsay
  say := value? (fieldElements node.2) .say

/-- The nodes of elements, numbered from `first` on. -/
def draftsFrom (first : Nat) (nodes : List (StartTag × List Content)) : List Draft :=
  (nodes.zipIdx first).map fun (node, ordinal) => draftOf ordinal node

/-- The text of every field of an element can be read. -/
def FieldsReadable (children : List Content) : Prop :=
  ∀ field ∈ fieldElements children, ∀ piece ∈ field.2, Readable piece

theorem value?_cons (name field : Field) (inner : List Content)
    (rest : List (Field × List Content)) :
    value? ((name, inner) :: rest) field =
      ((if name = field then presentText? (inner.flatMap ownText) else none) <|>
        value? rest field) := by
  rw [value?, List.findSome?_cons]
  dsimp only
  cases if name = field then presentText? (inner.flatMap ownText) else none <;> rfl

/-- The text of every field of some nodes can be read. -/
def NodesReadable (nodes : List (StartTag × List Content)) : Prop :=
  ∀ node ∈ nodes, FieldsReadable node.2

/-- A node with further fields. -/
def Draft.setAll (draft : Draft) (fields : List (Field × List Content)) : Draft :=
  fields.foldl (fun draft (field, inner) => draft.set field (inner.flatMap ownText)) draft

/-- A field keeps the value that it has, and else takes the first. -/
theorem Draft.setAll_eq (draft : Draft) (fields : List (Field × List Content)) :
    draft.setAll fields =
      { draft with
        before := draft.before <|> value? fields .before
        after := draft.after <|> value? fields .after
        plsay := draft.plsay <|> value? fields .plsay
        say := draft.say <|> value? fields .say } := by
  induction fields generalizing draft with
  | nil => simp [setAll, value?]
  | cons field rest ih =>
    obtain ⟨name, inner⟩ := field
    -- the first field is set already, so it comes in front of what the rest finds
    have first := ih (draft.set name (inner.flatMap ownText))
    rw [setAll, List.foldl_cons, ← setAll, first]
    cases name <;> simp [set, value?_cons, Option.or_assoc]

theorem setAll_ofTag (ordinal : Nat) (tag : StartTag) (children : List Content) :
    (Draft.ofTag ordinal tag).setAll (fieldElements children) =
      draftOf ordinal (tag, children) := by
  rw [Draft.setAll_eq, draftOf, Draft.ofTag, StartTag.value?, Option.bind_map]
  rfl

/-! ### The reading of trees -/

namespace Progress

/-- The events lead from one state to another, whatever follows, if their texts are readable, and to
a fault if not. -/
structure Reads (p : Progress) (events : List Event) (readable : Prop) (p' : Progress) : Prop where
  reaches : readable → ∀ rest, p.run (events ++ rest) = p'.run rest
  stops : ¬ readable → ∀ rest, (p.run (events ++ rest)).2.isSome

variable {p p' p'' : Progress} {events more : List Event} {readable readable' : Prop}

theorem Reads.nil (p : Progress) : p.Reads [] True p :=
  ⟨fun _ _ => rfl, fun unreadable => absurd trivial unreadable⟩

theorem Reads.append (h : p.Reads events readable p') (h' : p'.Reads more readable' p'') :
    p.Reads (events ++ more) (readable ∧ readable') p'' := by
  refine ⟨?_, ?_⟩
  · rintro ⟨first, second⟩ rest
    rw [List.append_assoc, h.reaches first, h'.reaches second]
  · intro unreadable rest
    rw [List.append_assoc]
    -- a fault in the first part hides the second one
    by_cases first : readable
    · rw [h.reaches first]
      exact h'.stops (fun second => unreadable ⟨first, second⟩) rest
    · exact h.stops first _

theorem Reads.congr (h : p.Reads events readable p') (same : readable' ↔ readable) :
    p.Reads events readable' p' :=
  ⟨fun first => h.reaches (same.1 first), fun unreadable => h.stops (unreadable ∘ same.2)⟩

theorem reads_of_step {event : Event} (stepped : p.step event = .ok p') :
    p.Reads [event] True p' := by
  refine ⟨fun _ rest => ?_, fun unreadable => absurd trivial unreadable⟩
  rw [List.singleton_append, run, stepped]

/-- An element is read like the events of its tags and what is in between. -/
theorem Reads.element {tag : StartTag} {children : List Content}
    (inside : (p.openElement tag).Reads (eventsOf children) readable p') :
    p.Reads (Content.element tag children).events readable p'.closeElement := by
  have start : p.Reads [.start tag] True (p.openElement tag) := reads_of_step rfl
  have stop : p'.Reads [.close] True p'.closeElement := reads_of_step rfl
  rw [Content.events]
  exact ((start.append inside).append stop).congr (by simp)

/-! What is inside of an element that is neither a node nor a field changes nothing. -/

/-- One element further inside. -/
def deeper (p : Progress) : Progress :=
  { p with depth := p.depth + 1 }

theorem Reads.passed {tag : StartTag} {children : List Content}
    (inside : p.deeper.Reads (eventsOf children) True p.deeper)
    (opened : p.openElement tag = p.deeper) (closed : p.deeper.closeElement = p) :
    p.Reads (Content.element tag children).events True p := by
  rw [← opened] at inside
  have whole := inside.element
  rwa [opened, closed] at whole

/-- No node and no field begins or ends inside of this element, and its text belongs to none. -/
structure Idle (p : Progress) : Prop where
  deep : 2 ≤ p.depth
  node : p.depth = 2 → p.node = none
  field : p.depth ≤ 3 → p.field = none

theorem Idle.deeper (h : p.Idle) : p.deeper.Idle where
  deep := Nat.le_succ_of_le h.deep
  node := by
    -- one element further inside the depth is 3 at least
    intro two
    have deep := h.deep
    exact absurd two (by simp only [Progress.deeper]; omega)
  field := fun three => h.field (by simp only [Progress.deeper] at three; omega)

theorem Idle.openElement (h : p.Idle) (tag : StartTag) : p.openElement tag = p.deeper := by
  have deep := h.deep
  rw [Progress.openElement, if_neg (by simp; omega)]
  split
  · next field =>
    simp only [Bool.and_eq_true, decide_eq_true_eq] at field
    simp [h.node (by omega)] at field
  · rfl

theorem Idle.closeElement (h : p.Idle) : p.deeper.closeElement = p := by
  have deep := h.deep
  rw [Progress.closeElement]
  split
  · next three =>
    have two : p.depth = 2 := Nat.succ.inj three
    have node := h.node two
    have field := h.field (by omega)
    cases p
    simp_all [Progress.deeper]
  · rw [if_neg (by simp only [Progress.deeper]; omega)]
    rfl

/-- What is no tag and not in a field changes nothing, nor does an empty element that is no child of
a root. -/
theorem step_leaf {event : Event} (outside : p.textField? = none) (deep : p.depth ≠ 1)
    (start : ∀ tag, event ≠ .start tag) (close : event ≠ .close) : p.step event = .ok p := by
  cases event with
  | start tag => exact absurd rfl (start tag)
  | close => exact absurd rfl close
  | empty tag => exact congrArg Except.ok (if_neg (by simp [deep]))
  | text raw stop => rw [step, outside]
  | cdata text => rw [step, outside]
  | aside => rfl

theorem Idle.step_leaf (h : p.Idle) {event : Event} (start : ∀ tag, event ≠ .start tag)
    (close : event ≠ .close) : p.step event = .ok p := by
  have deep := h.deep
  refine Progress.step_leaf ?_ (by omega) start close
  rw [textField?]
  split
  · exact h.field (by omega)
  · rfl

mutual

theorem Idle.reads_events {q : Progress} (h : q.Idle) (content : Content) :
    q.Reads content.events True q := by
  cases content with
  | element tag children =>
    -- its children are deeper still
    exact (h.deeper.reads_eventsOf children).passed (h.openElement tag) h.closeElement
  | empty | text | cdata | aside => exact reads_of_step (h.step_leaf nofun nofun)

theorem Idle.reads_eventsOf {q : Progress} (h : q.Idle) (trees : List Content) :
    q.Reads (eventsOf trees) True q := by
  cases trees with
  | nil => exact .nil q
  | cons content rest =>
    exact ((h.reads_events content).append (h.reads_eventsOf rest)).congr (by simp)

end

/-! Below a root a node is in hand, and below that a field. -/

/-- Between the children of a root. -/
structure AtRoot (p : Progress) : Prop where
  depth : p.depth = 1
  node : p.node = none
  field : p.field = none

/-- Between the children of a node. -/
def atNode (p : Progress) (draft : Draft) : Progress :=
  { p with depth := 2, node := some draft }

/-- Between the pieces of a field. -/
def atField (p : Progress) (draft : Draft) (field : Field) (text : List Char) : Progress :=
  { p with depth := 3, node := some draft, field := some (field, text) }

theorem idle_atField (p : Progress) (draft : Draft) (field : Field) (text : List Char) :
    (p.atField draft field text).deeper.Idle :=
  ⟨Nat.le_add_left 2 2, nofun, fun three => absurd three (Nat.not_succ_le_self 3)⟩

/-- A piece of a field adds its text, and an element in it none. -/
theorem reads_piece (p : Progress) (draft : Draft) (field : Field) (text : List Char)
    (piece : Content) :
    (p.atField draft field text).Reads piece.events (Readable piece)
      (p.atField draft field (text ++ ownText piece)) := by
  cases piece with
  | element tag children =>
    rw [ownText, List.append_nil]
    exact ((p.idle_atField draft field text).reads_eventsOf children).passed rfl rfl
    all_goals nofun
  | empty tag =>
    rw [ownText, List.append_nil]
    exact reads_of_step rfl
    all_goals nofun
  | aside =>
    rw [ownText, List.append_nil]
    exact reads_of_step rfl
    all_goals nofun
  | cdata more => exact reads_of_step rfl
  | text raw stop =>
    cases read : Markup.unescape raw with
    | ok more =>
      have stepped : (p.atField draft field text).step (.text raw stop) =
          .ok (p.atField draft field (text ++ more)) := by
        simp [step, textField?, atField, read]
      rw [ownText, read]
      exact (reads_of_step stepped).congr (by simp [Readable, read])
    | error fault =>
      have stepped : (p.atField draft field text).step (.text raw stop) =
          .error ⟨stop, .escape fault⟩ := by
        simp [step, textField?, atField, read]
      refine ⟨fun readable => ?_, fun _ rest => ?_⟩
      · obtain ⟨more, found⟩ := readable
        rw [read] at found
        cases found
      · rw [Content.events, List.singleton_append, run, stepped]
        rfl

theorem reads_field (p : Progress) (draft : Draft) (field : Field) (text : List Char)
    (pieces : List Content) :
    (p.atField draft field text).Reads (eventsOf pieces) (∀ piece ∈ pieces, Readable piece)
      (p.atField draft field (text ++ pieces.flatMap ownText)) := by
  induction pieces generalizing text with
  | nil =>
    rw [List.flatMap_nil, List.append_nil]
    exact (Reads.nil _).congr (by simp)
  | cons piece rest ih =>
    -- the slot of the field carries the text of the pieces in front
    have both := (p.reads_piece draft field text piece).append (ih (text ++ ownText piece))
    rw [List.append_assoc, ← List.flatMap_cons] at both
    exact both.congr List.forall_mem_cons

theorem fieldElements_cons (content : Content) (rest : List Content) :
    fieldElements (content :: rest) = (field? content).toList ++ fieldElements rest := by
  rw [fieldElements, List.filterMap_cons]
  cases field? content <;> rfl

/-- A child of a node sets a field, if it is one. -/
theorem reads_child (h : p.AtRoot) (draft : Draft) (child : Content) :
    (p.atNode draft).Reads child.events
      (∀ field ∈ (field? child).toList, ∀ piece ∈ field.2, Readable piece)
      (p.atNode (draft.setAll (field? child).toList)) := by
  cases child with
  | element tag children =>
    cases named : Field.ofName? tag.name with
    | none =>
      have opened : (p.atNode draft).openElement tag = (p.atNode draft).deeper := by
        simp [Progress.openElement, atNode, Progress.deeper, named, h.field]
      -- the end of this element stands where a field could end, but none is in hand
      have closed : (p.atNode draft).deeper.closeElement = p.atNode draft := by
        simp [Progress.closeElement, atNode, Progress.deeper, h.field]
      have idle : (p.atNode draft).deeper.Idle :=
        ⟨Nat.le_succ 2, nofun, fun _ => h.field⟩
      rw [field?, named]
      exact ((idle.reads_eventsOf children).passed opened closed).congr (by simp)
    | some field =>
      have opened : (p.atNode draft).openElement tag = p.atField draft field [] := by
        simp [Progress.openElement, atNode, atField, named]
      have inside := p.reads_field draft field [] children
      rw [← opened] at inside
      have whole := inside.element
      have closed : (p.atField draft field ([] ++ children.flatMap ownText)).closeElement =
          p.atNode (draft.set field (children.flatMap ownText)) := by
        simp [Progress.closeElement, atNode, atField, h.field]
      rw [closed] at whole
      rw [field?, named]
      exact whole.congr (by simp)
  | empty | text | cdata | aside => exact (reads_of_step rfl).congr (by simp [field?])

theorem reads_node (h : p.AtRoot) (draft : Draft) (children : List Content) :
    (p.atNode draft).Reads (eventsOf children) (FieldsReadable children)
      (p.atNode (draft.setAll (fieldElements children))) := by
  induction children generalizing draft with
  | nil => exact (Reads.nil _).congr (by simp [FieldsReadable, fieldElements])
  | cons child rest ih =>
    have both := (reads_child h draft child).append (ih (draft.setAll (field? child).toList))
    rw [Draft.setAll, Draft.setAll, ← List.foldl_append, ← fieldElements_cons] at both
    refine both.congr ?_
    rw [FieldsReadable, fieldElements_cons]
    exact List.forall_mem_append

/-- The state with further complete nodes. -/
def addNodes (p : Progress) (nodes : List (StartTag × List Content)) : Progress :=
  { p with
    count := p.count + nodes.length
    reversed := (draftsFrom p.count nodes).reverse ++ p.reversed }

theorem addNodes_append (p : Progress) (nodes more : List (StartTag × List Content)) :
    (p.addNodes nodes).addNodes more = p.addNodes (nodes ++ more) := by
  simp [addNodes, draftsFrom, List.zipIdx_append, Nat.add_assoc]

theorem addNodes_nil (p : Progress) : p.addNodes [] = p := rfl

theorem AtRoot.addNodes (h : p.AtRoot) (nodes : List (StartTag × List Content)) :
    (p.addNodes nodes).AtRoot :=
  ⟨h.depth, h.node, h.field⟩

/-- The end of a node completes it. -/
theorem closeElement_atNode (h : p.AtRoot) (tag : StartTag) (children : List Content) :
    (atNode { p with count := p.count + 1 }
      ((Draft.ofTag p.count tag).setAll (fieldElements children))).closeElement =
      p.addNodes [(tag, children)] := by
  rw [setAll_ofTag]
  obtain ⟨depth, node, field⟩ := h
  cases p
  simp_all [Progress.closeElement, atNode, Progress.addNodes, draftsFrom]

/-- A child of a root is a node, if it has the name of one. -/
theorem reads_top (h : p.AtRoot) (child : Content) :
    p.Reads child.events (∀ node ∈ (node? child).toList, FieldsReadable node.2)
      (p.addNodes (node? child).toList) := by
  cases child with
  | element tag children =>
    by_cases named : isNode tag
    · have begun : AtRoot { p with count := p.count + 1 } := ⟨h.depth, h.node, h.field⟩
      have opened : p.openElement tag =
          atNode { p with count := p.count + 1 } (.ofTag p.count tag) := by
        simp [Progress.openElement, atNode, h.depth, named]
      have inside := reads_node begun (.ofTag p.count tag) children
      rw [← opened] at inside
      have whole := inside.element
      rw [closeElement_atNode h] at whole
      rw [node?, if_pos named]
      exact whole.congr (by simp)
    · have opened : p.openElement tag = p.deeper := by
        simp [Progress.openElement, Progress.deeper, h.depth, named]
      have closed : p.deeper.closeElement = p := by
        obtain ⟨depth, node, -⟩ := h
        cases p
        simp_all [Progress.closeElement, Progress.deeper]
      have idle : p.deeper.Idle :=
        ⟨by simp [Progress.deeper, h.depth], fun _ => h.node, fun _ => h.field⟩
      rw [node?, if_neg named]
      exact ((idle.reads_eventsOf children).passed opened closed).congr (by simp)
  | empty tag =>
    by_cases named : isNode tag
    · have stepped : p.step (.empty tag) = .ok (p.addNodes [(tag, [])]) := by
        have whole : draftOf p.count (tag, []) = Draft.ofTag p.count tag :=
          (setAll_ofTag p.count tag []).symm
        simp [step, Progress.emptyElement, Progress.addNodes, draftsFrom, h.depth, named, whole]
      rw [node?, if_pos named]
      exact (reads_of_step stepped).congr (by simp [FieldsReadable, fieldElements])
    · have stepped : p.step (.empty tag) = .ok p := by
        simp [step, Progress.emptyElement, named]
      rw [node?, if_neg named]
      exact (reads_of_step stepped).congr (by simp)
  | text | cdata | aside =>
    exact (reads_of_step (by simp [step, textField?, h.depth, node?, addNodes_nil])).congr
      (by simp [node?])

theorem filterMap_node?_cons (content : Content) (rest : List Content) :
    (content :: rest).filterMap node? = (node? content).toList ++ rest.filterMap node? := by
  rw [List.filterMap_cons]
  cases node? content <;> rfl

theorem reads_root (h : p.AtRoot) (children : List Content) :
    p.Reads (eventsOf children) (NodesReadable (children.filterMap node?))
      (p.addNodes (children.filterMap node?)) := by
  induction children generalizing p with
  | nil => exact (Reads.nil p).congr (by simp [NodesReadable])
  | cons child rest ih =>
    -- numbers go on behind the nodes that the first child added
    have both := (reads_top h child).append (ih (h.addNodes (node? child).toList))
    rw [addNodes_append, ← filterMap_node?_cons] at both
    refine both.congr ?_
    rw [NodesReadable, filterMap_node?_cons]
    exact List.forall_mem_append

/-- In front of the roots, and between them. -/
structure Outside (p : Progress) : Prop where
  depth : p.depth = 0
  node : p.node = none
  field : p.field = none

theorem reads_piece_outside (h : p.Outside) (content : Content) :
    p.Reads content.events (NodesReadable (nodeElements [content]))
      (p.addNodes (nodeElements [content])) := by
  cases content with
  | element tag children =>
    have inner : AtRoot p.deeper :=
      ⟨congrArg (· + 1) h.depth, h.node, h.field⟩
    have opened : p.openElement tag = p.deeper := by
      simp [Progress.openElement, Progress.deeper, h.depth]
    have inside := reads_root inner children
    rw [← opened] at inside
    have whole := inside.element
    have closed : (p.deeper.addNodes (children.filterMap node?)).closeElement =
        p.addNodes (children.filterMap node?) := by
      simp [Progress.closeElement, Progress.deeper, Progress.addNodes, h.depth]
    rw [opened, closed] at whole
    simpa [nodeElements, childrenOf] using whole
  | empty | text | cdata | aside =>
    have outside : p.textField? = none := by simp [textField?, h.depth]
    have deep : p.depth ≠ 1 := by simp [h.depth]
    exact Reads.congr (reads_of_step (step_leaf outside deep nofun nofun))
      (by simp [NodesReadable, nodeElements, childrenOf])

theorem reads_forest (h : p.Outside) (forest : List Content) :
    p.Reads (eventsOf forest) (NodesReadable (nodeElements forest))
      (p.addNodes (nodeElements forest)) := by
  induction forest generalizing p with
  | nil => exact (Reads.nil p).congr (by simp [NodesReadable, nodeElements])
  | cons content rest ih =>
    have later : Outside (p.addNodes (nodeElements [content])) := ⟨h.depth, h.node, h.field⟩
    have both := (reads_piece_outside h content).append (ih later)
    have split : nodeElements (content :: rest) = nodeElements [content] ++ nodeElements rest := by
      simp [nodeElements]
    rw [addNodes_append, ← split] at both
    refine both.congr ?_
    rw [NodesReadable, split]
    exact List.forall_mem_append

theorem outside_start : start.Outside :=
  ⟨rfl, rfl, rfl⟩

end Progress

theorem not_nodesReadable {nodes : List (StartTag × List Content)} :
    ¬ NodesReadable nodes ↔ ∃ node ∈ nodes, ∃ field ∈ fieldElements node.2,
      ∃ raw stop fault, Content.text raw stop ∈ field.2 ∧ Markup.unescape raw = .error fault := by
  simp only [NodesReadable, FieldsReadable, not_forall, exists_prop]
  refine exists_congr fun node => and_congr_right fun _ => exists_congr fun field =>
    and_congr_right fun _ => ⟨?_, ?_⟩
  · rintro ⟨piece, mem, unreadable⟩
    cases piece with
    | text raw stop =>
      cases read : Markup.unescape raw with
      | ok text => exact absurd ⟨text, read⟩ unreadable
      | error fault => exact ⟨raw, stop, fault, mem, read⟩
    | element | empty | cdata | aside => exact absurd trivial unreadable
  · rintro ⟨raw, stop, fault, mem, read⟩
    refine ⟨_, mem, ?_⟩
    rintro ⟨text, found⟩
    rw [read] at found
    cases found

/-- What a reading finds is what stands in some trees. -/
structure Reading.Reflects (reading : Reading) (forest : List Content)
    (error : Option MarkupError) : Prop where
  /-- A markup is faulty if its events are, or if the text of a field is, and only then. -/
  fails : reading.error.isSome ↔ error.isSome ∨
    ∃ node ∈ nodeElements forest, ∃ field ∈ fieldElements node.2,
      ∃ raw stop fault, Content.text raw stop ∈ field.2 ∧ Markup.unescape raw = .error fault
  /-- The nodes are those below the roots, numbered in their order. -/
  nodes : reading.error = none → reading.collection.Holds (draftsFrom 0 (nodeElements forest))

theorem reflects_ofEvents (forest : List Content) (error : Option MarkupError) :
    (Reading.ofEvents ⟨eventsOf forest, error⟩).Reflects forest error := by
  have reads := Progress.reads_forest Progress.outside_start forest
  by_cases readable : NodesReadable (nodeElements forest)
  · have run := reads.reaches readable []
    rw [List.append_nil, Progress.run] at run
    have read : readEvents ⟨eventsOf forest, error⟩ =
        (draftsFrom 0 (nodeElements forest), error) := by
      rw [readEvents, run]
      simp [Progress.addNodes, Progress.start]
    rw [Reading.ofEvents, read]
    refine ⟨?_, fun _ => Collection.holds_ofDrafts _⟩
    rw [← not_nodesReadable]
    exact ⟨.inl, fun fails => fails.resolve_right (absurd readable)⟩
  · have stopped := reads.stops readable []
    rw [List.append_nil] at stopped
    obtain ⟨fault, stopped⟩ := Option.isSome_iff_exists.1 stopped
    have read : (Reading.ofEvents ⟨eventsOf forest, error⟩).error = some fault := by
      show ((Progress.start.run (eventsOf forest)).2 <|> error) = some fault
      rw [stopped]
      rfl
    refine ⟨?_, ?_⟩
    · rw [read, ← not_nodesReadable]
      exact ⟨fun _ => .inr readable, fun _ => rfl⟩
    · rw [read]
      nofun

/-- Faulty events make a faulty markup.  Events in which every element is closed are those of one
sequence of trees, and the nodes that are read are those of the trees. -/
theorem ofEvents_reflects_trees (stream : EventStream) :
    (stream.error.isSome → (Reading.ofEvents stream).error.isSome) ∧
      (Balanced stream.events → ∃ forest, eventsOf forest = stream.events ∧
        (∀ other, eventsOf other = stream.events → other = forest) ∧
        (Reading.ofEvents stream).Reflects forest stream.error) := by
  refine ⟨?_, ?_⟩
  · intro faulty
    show ((Progress.start.run stream.events).2 <|> stream.error).isSome
    simp [faulty]
  · intro balanced
    obtain ⟨forest, same, unique⟩ := Markup.existsUnique_eventsOf balanced
    refine ⟨forest, same, unique, ?_⟩
    have reflects := reflects_ofEvents forest stream.error
    rwa [same] at reflects

/-- A blank field is passed over, and so are an element in a field and a node in another element. -/
theorem ofEvents_reflects_trees_nested :
    ∃ stream forest, Balanced stream.events ∧ eventsOf forest = stream.events ∧
      (Reading.ofEvents stream).Reflects forest none ∧
        draftsFrom 0 (nodeElements forest) =
          [⟨0, some "a", none, none, none, some "x z"⟩, ⟨1, none, none, none, none, none⟩] := by
  let stream := Markup.events
    "<d><node id=' a '><say> </say><say>x <b>y</b>z</say></node><p><node/></p><node/></d>".toList
  have balanced : Balanced stream.events := by decide +kernel
  have complete : stream.error = none := by decide +kernel
  have nodes : draftsFrom 0 (nodeElements (Markup.treesOf stream.events)) =
      [⟨0, some "a", none, none, none, some "x z"⟩, ⟨1, none, none, none, none, none⟩] := by
    decide +kernel
  obtain ⟨forest, same, unique, reflects⟩ := (ofEvents_reflects_trees stream).2 balanced
  obtain rfl := unique _ (Markup.eventsOf_treesOf balanced)
  rw [complete] at reflects
  exact ⟨stream, _, balanced, same, reflects, nodes⟩

end Libretto.Drama
