/-
Dialogue documents.

A node with an identifier becomes a node of the document: its texts are interned, its scripts become
snippets. A node without one is reported and left out. When the whole markup is read, each snippet
is compiled as a script unit of its own.

* **`Entry`** — what became of a node;
* **`Reading.ofEvents`**, **`Reading.ofSource`** — the nodes of a source, interned;
* **`Document.compile`** — the document of a source, or the fault in its markup;
* **`Document.diagnostics`**, **`references`**, **`log`** — what a document shows.
-/
import Libretto.Drama.Draft
import Libretto.Drama.Source
import Libretto.Script.Unit

namespace Libretto.Drama

open Markup (MarkupError)
open Script (ScriptUnit)

/-- A node of a document. The scripts are given by their snippets. -/
structure Node where
  id : StringId
  before : Option Nat
  after : Option Nat
  plsay : Option StringId
  say : Option StringId
  deriving DecidableEq, Repr

/-- What becomes of a node of the markup. -/
inductive Entry where
  /-- The node has no identifier. -/
  | skipped (ordinal : Nat)
  | kept (ordinal : Nat) (id : String) (node : Node)
  deriving DecidableEq, Repr

namespace Entry

/-- The node that is kept. -/
def node? : Entry → Option Node
  | skipped _ => none
  | kept _ _ node => some node

/-- The report about a node that is left out. -/
def diagnostics : Entry → List Diagnostic
  | skipped ordinal => [⟨.error, .node ordinal, "node has no `id` attribute, skipped"⟩]
  | kept .. => []

/-- A snippet index as the log shows it. -/
def indexText : Option Nat → String
  | none => "None"
  | some index => s!"Some({index})"

/-- The log of a node. -/
def log : Entry → Log
  | skipped ordinal => (skipped ordinal).diagnostics.map Diagnostic.logEntry
  | kept ordinal id node =>
    [⟨.debug, s!"node #{ordinal} `{id}`: before=" ++ indexText node.before ++ " after=" ++
      indexText node.after⟩]

end Entry

/-- Nodes interned so far. -/
structure Collection where
  table : StringTable
  snippets : List String
  entries : List Entry

namespace Collection

/-- No nodes. -/
def empty : Collection := ⟨.empty, [], []⟩

/-- Interns an optional text. -/
def intern (c : Collection) : Option String → Option StringId × Collection
  | none => (none, c)
  | some text =>
    let (id, table) := c.table.add text
    (some id, { c with table })

/-- Makes an optional script the next snippet. -/
def addSnippet (c : Collection) : Option String → Option Nat × Collection
  | none => (none, c)
  | some source => (some c.snippets.length, { c with snippets := c.snippets ++ [source] })

/-- Adds a node. -/
def add (c : Collection) (draft : Draft) : Collection :=
  match draft.id with
  | none => { c with entries := c.entries ++ [.skipped draft.ordinal] }
  | some text =>
    let (id, table) := c.table.add text
    let c := { c with table }
    let (before, c) := c.addSnippet draft.before
    let (after, c) := c.addSnippet draft.after
    let (plsay, c) := c.intern draft.plsay
    let (say, c) := c.intern draft.say
    { c with entries := c.entries ++ [.kept draft.ordinal text ⟨id, before, after, plsay, say⟩] }

/-- The collection of nodes in order. -/
def ofDrafts (drafts : List Draft) : Collection :=
  drafts.foldl add empty

end Collection

/-- The nodes of a source, interned, and the fault at which the reading stopped. -/
structure Reading where
  collection : Collection
  error : Option MarkupError

namespace Reading

/-- Reads events. -/
def ofEvents (stream : Markup.EventStream) : Reading :=
  let (drafts, error) := readEvents stream
  ⟨.ofDrafts drafts, error⟩

/-- Reads a source. -/
def ofSource (source : String) : Reading :=
  ofEvents (Markup.events (markupOfSource source))

/-- The log of a reading. -/
def log (reading : Reading) : Log :=
  reading.collection.entries.flatMap Entry.log

end Reading

/-- A compiled dialogue; each snippet is given with its unit. -/
structure Document where
  table : StringTable
  entries : List Entry
  snippets : List String
  scripts : List ScriptUnit

/-- Compiles the snippets of a reading that met no fault. -/
def Reading.document (numbering : Numbering) (reading : Reading) : Except MarkupError Document :=
  match reading.error with
  | some e => .error e
  | none =>
    let c := reading.collection
    .ok ⟨c.table, c.entries, c.snippets, c.snippets.map (ScriptUnit.compile numbering)⟩

namespace Document

/-- Compiles a source. -/
def compile (numbering : Numbering) (source : String) : Except MarkupError Document :=
  (Reading.ofSource source).document numbering

/-- The nodes, in the order of the markup. -/
def nodes (document : Document) : List Node :=
  document.entries.filterMap Entry.node?

/-- What is reported: first about the nodes, then about the lines of each snippet. -/
def diagnostics (document : Document) : List Diagnostic :=
  document.entries.flatMap Entry.diagnostics ++
    document.scripts.zipIdx.flatMap fun (unit, index) => unit.diagnosticsAt (.snippet index)

/-- The strings of a node in the order of its record. -/
def nodeReferences (node : Node) : List StringId :=
  node.id :: (node.plsay.toList ++ node.say.toList)

/-- The strings that the nodes refer to. -/
def references (document : Document) : List StringId :=
  document.nodes.flatMap nodeReferences

/-- The write ids of the document; its snippets have their own. -/
def writeIds (document : Document) : WriteIds :=
  document.table.resolve document.references

/-- The log of compiling the snippets. -/
def log (document : Document) : Log :=
  document.scripts.flatMap ScriptUnit.log ++
    [⟨.info, s!"drama: {document.nodes.length} node(s), {document.snippets.length} snippet(s), " ++
      s!"{document.diagnostics.length} diagnostic(s)"⟩]

end Document

end Libretto.Drama
