/-
The container of a dialogue.

    head   node count, snippet count, offset of the records, and per snippet its offset
    body   aligned; per node the words id, before, after, plsay, say
           per snippet, aligned, the container of its script

A field without value holds -1. A document without nodes ends behind the head.

* **`writeDrama`** — writes these chunks;
* **`ofDocument`** — what a document puts into its container.
-/
import Libretto.Binary.ScriptLayout
import Libretto.Drama.Document

namespace Libretto.Binary

open Writer Drama

/-- The word of an absent field: -1. -/
def absentWord : UInt32 := 0xFFFFFFFF

/-- The word of a snippet field. -/
def snippetWord : Option Nat → Writer UInt32
  | none => return absentWord
  | some index =>
    if index < 0x80000000 then return index.toUInt32 else throw (.offsetOverflow index)

/-- The word of a string field: the write id of the string. -/
def stringWord (ids : WriteIds) : Option StringId → Writer UInt32
  | none => return absentWord
  | some id =>
    match ids.writeId? id with
    | none => throw (.unresolvedString id)
    | some writeId => return writeId

/-- Writes the record of a node. -/
def writeNode (ids : WriteIds) (node : Node) : Writer Unit := do
  writeWord (← stringWord ids (some node.id))
  writeWord (← snippetWord node.before)
  writeWord (← snippetWord node.after)
  writeWord (← stringWord ids node.plsay)
  writeWord (← stringWord ids node.say)

/-- Reserves a number of words, and gives their positions. -/
def reserveMany : Nat → Writer (List Nat)
  | 0 => return []
  | count + 1 => return (← reserve) :: (← reserveMany count)

section

variable (rule : Nat → Writer UInt32)

/-- Writes the containers of snippets, and their offsets into the entries. -/
def writeSnippetsBy (top : Nat) : List (Script.ScriptUnit × Nat) → Writer Unit
  | [] => return
  | (unit, entry) :: rest => do
    align alignment
    patchHereBy rule entry top
    (ofScriptBy rule unit).writeBy rule
    writeSnippetsBy top rest

/-- Writes the chunks of a dialogue, with the offsets that the rule gives. -/
def writeDramaBy (document : Document) (top : Nat) (ids : WriteIds) : Writer Unit := do
  let nodes := document.nodes
  writeTag .head
  writeCount nodes.length
  writeCount document.scripts.length
  let body ← reserve
  let entries ← reserveMany document.scripts.length
  if nodes ≠ [] then
    align alignment
    writeTag .body
    patchHereBy rule body top
    nodes.forM (writeNode ids)
    writeSnippetsBy rule top (document.scripts.zip entries)

/-- What a document puts into its container, with the offsets that the rule gives. -/
def ofDocumentBy (document : Document) : Contents :=
  ⟨.drama, document.table, document.references, writeDramaBy rule document⟩

end

/-- Writes the chunks of a dialogue. -/
def writeDrama (document : Document) (top : Nat) (ids : WriteIds) : Writer Unit :=
  writeDramaBy offsetFrom document top ids

/-- What a document puts into its container. -/
def ofDocument (document : Document) : Contents :=
  ofDocumentBy offsetFrom document

end Libretto.Binary
