/-
The container of a script.

    info   block count, offset of the code chunk, and per block its offset and its length in words
    code   the blocks, each aligned

* **`writeScript`** — writes these chunks;
* **`ofScript`** — what a script unit puts into its container.
-/
import Libretto.Binary.Container
import Libretto.Script.Unit

namespace Libretto.Binary

open Writer Script

/-- Writes the entry of each block with its length, and gives the positions of the offsets, which
are still open. -/
def writeEntries : List Block → Writer (List Nat)
  | [] => return []
  | block :: rest => do
    let entry ← reserve
    writeCount block.code.size
    return entry :: (← writeEntries rest)

/-- Writes the words of a block that was resolved. -/
def writeResolved : Except StringId (Array UInt32) → Writer Unit
  | .error id => throw (.unresolvedString id)
  | .ok code => writeBytes (code.toList.flatMap wordBytes)

/-- Writes the words of a block with write ids. -/
def writeBlock (ids : WriteIds) (block : Block) : Writer Unit :=
  writeResolved (block.resolve ids)

section

variable (rule : Nat → Writer UInt32)

/-- Writes the words of blocks with write ids, and their offsets into the entries. -/
def writeBlocksBy (top : Nat) (ids : WriteIds) : List (Block × Nat) → Writer Unit
  | [] => return
  | (block, entry) :: rest => do
    align alignment
    patchHereBy rule entry top
    writeBlock ids block
    writeBlocksBy top ids rest

/-- Writes the chunks of a script, with the offsets that the rule gives. -/
def writeScriptBy (unit : ScriptUnit) (top : Nat) (ids : WriteIds) : Writer Unit := do
  writeTag .info
  writeCount unit.blocks.length
  let body ← reserve
  let entries ← writeEntries unit.blocks
  align alignment
  patchHereBy rule body top
  writeTag .code
  writeBlocksBy rule top ids (unit.blocks.zip entries)

/-- What a script unit puts into its container, with the offsets that the rule gives. -/
def ofScriptBy (unit : ScriptUnit) : Contents :=
  ⟨.script, unit.table, unit.references, writeScriptBy rule unit⟩

end

/-- Writes the chunks of a script. -/
def writeScript (unit : ScriptUnit) (top : Nat) (ids : WriteIds) : Writer Unit :=
  writeScriptBy offsetFrom unit top ids

/-- What a script unit puts into its container. -/
def ofScript (unit : ScriptUnit) : Contents :=
  ofScriptBy offsetFrom unit

end Libretto.Binary
