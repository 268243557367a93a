/-
Dialogue nodes read from markup.

Below the root, every `node` element is a node of the dialogue. Its children `before`, `after`,
`plsay` and `say` are its fields; the value of a field is its own text and CDATA, without that of
elements inside of it. The first value that is not blank counts. Other elements are passed over.

* **`Draft`** — a node as read, before its texts are interned;
* **`Progress.step`** — what an event adds to the reading;
* **`readEvents`** — the nodes of a markup up to its end or its first fault.
-/
import Libretto.Markup.Event
import Libretto.Text.Blank

namespace Libretto.Drama

open Markup (Event EventStream MarkupError StartTag)

/-- The fields of a node. -/
inductive Field where
  /-- A script that runs in front of the utterances. -/
  | before
  /-- A script that runs behind the utterances. -/
  | after
  /-- What the player says. -/
  | plsay
  /-- What the character says. -/
  | say
  deriving DecidableEq, Repr

/-- The field of an element name. -/
def Field.ofName? (name : List Char) : Option Field :=
  match String.ofList name with
  | "before" => some .before
  | "after" => some .after
  | "plsay" => some .plsay
  | "say" => some .say
  | _ => none

/-- A node as read from markup; nodes are counted from 0. -/
structure Draft where
  ordinal : Nat
  id : Option String
  before : Option String
  after : Option String
  plsay : Option String
  say : Option String
  deriving DecidableEq, Repr

/-- A text without the blanks around it, unless nothing is left of it. -/
def presentText? (text : List Char) : Option String :=
  match Text.trim text with
  | [] => none
  | trimmed => some (.ofList trimmed)

namespace Draft

/-- A node without fields. The identifier is the first `id` of the tag, as written. -/
def ofTag (ordinal : Nat) (tag : StartTag) : Draft :=
  ⟨ordinal, (tag.value? "id").bind presentText?, none, none, none, none⟩

/-- The node with a further value of a field, which counts if it is the first that is not blank. -/
def set (draft : Draft) (field : Field) (text : List Char) : Draft :=
  match field with
  | .before => { draft with before := draft.before <|> presentText? text }
  | .after => { draft with after := draft.after <|> presentText? text }
  | .plsay => { draft with plsay := draft.plsay <|> presentText? text }
  | .say => { draft with say := draft.say <|> presentText? text }

end Draft

/-- How far the reading of a markup has come. -/
structure Progress where
  /-- The number of open elements. -/
  depth : Nat
  /-- The number of nodes begun. -/
  count : Nat
  /-- The node that is open. -/
  node : Option Draft
  /-- The field that is open, and its text so far. -/
  field : Option (Field × List Char)
  /-- The complete nodes, last node first. -/
  reversed : List Draft

namespace Progress

/-- In front of the first event. -/
def start : Progress := ⟨0, 0, none, none, []⟩

/-- The name of the elements that are nodes. -/
def isNode (tag : StartTag) : Bool :=
  tag.name == "node".toList

/-- An element opens: a node below the root, or a field below a node. -/
def openElement (p : Progress) (tag : StartTag) : Progress :=
  let p := { p with depth := p.depth + 1 }
  if p.depth = 2 && isNode tag then
    { p with node := some (.ofTag p.count tag), count := p.count + 1 }
  else if p.depth = 3 && p.node.isSome then
    { p with field := (Field.ofName? tag.name).map fun field => (field, []) }
  else p

/-- An element that closes itself is of interest only as a node. -/
def emptyElement (p : Progress) (tag : StartTag) : Progress :=
  if p.depth = 1 && isNode tag then
    { p with reversed := .ofTag p.count tag :: p.reversed, count := p.count + 1 }
  else p

/-- The innermost element closes, and with it a field or a node. -/
def closeElement (p : Progress) : Progress :=
  let closed := { p with depth := p.depth - 1 }
  if p.depth = 3 then
    match p.node, p.field with
    | some draft, some (field, text) =>
      { closed with node := some (draft.set field text), field := none }
    | _, _ => { closed with field := none }
  else if p.depth = 2 then
    match p.node with
    | some draft => { closed with node := none, reversed := draft :: p.reversed }
    | none => closed
  else closed

/-- The field whose own text comes next. -/
def textField? (p : Progress) : Option (Field × List Char) :=
  if p.depth = 3 then p.field else none

/-- What an event adds to the reading. References count only in the text of a field, and so do the
faults in them. -/
def step (p : Progress) : Event → Except MarkupError Progress
  | .start tag => .ok (p.openElement tag)
  | .empty tag => .ok (p.emptyElement tag)
  | .close => .ok p.closeElement
  | .aside => .ok p
  | .cdata more =>
    match p.textField? with
    | none => .ok p
    | some (field, text) => .ok { p with field := some (field, text ++ more) }
  | .text raw stop =>
    match p.textField? with
    | none => .ok p
    | some (field, text) =>
      match Markup.unescape raw with
      | .error fault => .error ⟨stop, .escape fault⟩
      | .ok more => .ok { p with field := some (field, text ++ more) }

/-- What events add to the reading, up to the first fault in a reference. -/
def run (p : Progress) : List Event → Progress × Option MarkupError
  | [] => (p, none)
  | event :: rest =>
    match p.step event with
    | .error e => (p, some e)
    | .ok p => p.run rest

end Progress

/-- The complete nodes among events, and the fault at which their reading stopped. -/
def readEvents (stream : EventStream) : List Draft × Option MarkupError :=
  let (progress, error) := Progress.start.run stream.events
  (progress.reversed.reverse, error <|> stream.error)

end Libretto.Drama
