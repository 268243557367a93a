/-
Containers: the framing that scripts and dialogues share.

    +0   kind          four characters
    +4   flags         0
    +8   size          of the container in bytes
    +12  header size   24
    +16  strings       offset of the string list, 0 when there is none
    +20  reserved      0
    +24  chunks of the unit
         string list   aligned

A string list is a tag, the number of strings, for each string its offset from the tag, and the
strings in UTF-8, each closed by a zero byte. All other offsets count from the container's first
byte.

The writers take the rule by which offsets are counted; a container is written with `offsetFrom`.

* **`Contents`** — what a unit puts into the frame;
* **`Contents.write`** — appends a container to a stream, at an aligned position;
* **`Contents.bytes`** — a container by itself.
-/
import Libretto.Binary.Stream

namespace Libretto.Binary

open Writer

/-- What a unit puts into a container: its chunks are written for the position of the container's
first byte and the write ids of the strings referred to. -/
structure Contents where
  kind : Tag
  table : StringTable
  references : List StringId
  chunks : Nat → WriteIds → Writer Unit

section

variable (rule : Nat → Writer UInt32)

/-- Writes the strings of a list, and their offsets from `base` into consecutive words. -/
def writeStringsBy (base entry : Nat) : List String → Writer Unit
  | [] => return
  | text :: rest => do
    patchHereBy rule entry base
    writeBytes (text.toUTF8.toList ++ [0])
    writeStringsBy base (entry + 4) rest

/-- Writes a string list. -/
def writeStringListBy (ids : WriteIds) : Writer Unit := do
  let base ← position
  writeTag .strings
  writeCount ids.size
  let table ← position
  writeBytes (List.replicate (4 * ids.size) 0)
  writeStringsBy rule base table ids.strings

/-- Appends a container whose first byte comes next. -/
def Contents.writeFrameBy (contents : Contents) : Writer Unit := do
  let top ← position
  let ids := contents.table.resolve contents.references
  writeTag contents.kind
  writeWord 0
  let size ← reserve
  writeCount headerSize
  let strings ← reserve
  writeWord 0
  contents.chunks top ids
  if ids.size ≠ 0 then
    align alignment
    patchHereBy rule strings top
    writeStringListBy rule ids
  patchHereBy rule size top

/-- Appends a container to the stream, at an aligned position, with the offsets that the rule
gives. -/
def Contents.writeBy (contents : Contents) : Writer Unit := do
  align alignment
  contents.writeFrameBy rule

end

namespace Contents

/-- Appends a container to the stream, at an aligned position. -/
def write (contents : Contents) : Writer Unit :=
  contents.writeBy offsetFrom

/-- The bytes of a container by itself. -/
def bytes (contents : Contents) : Except ExportError (Array UInt8) :=
  match contents.write ⟨#[]⟩ with
  | .ok _ stream => .ok stream.bytes
  | .error e _ => .error e

end Contents

end Libretto.Binary
