/-
Containers computed from their contents.

The bytes of a container, without any patching: every offset is a sum of sizes.  Blocks, snippets
and strings follow one pattern.  There is a table with an entry for each *piece*, and the pieces
stand behind it in order, each at the next multiple of a boundary:

* **`Piece.table`**, **`Piece.placed`** — the table and the pieces, when the first piece is looked
  for from a position on;
* **`stringList`**, **`scriptChunks`**, **`dramaChunks`**, **`container`** — the parts of a
  container;
* **`scriptContainer`** — the container of a script from its code and its strings.

Positions count from the first byte of the container, in a string list from the first byte of its
tag.
-/
import Libretto.Binary.Stream
import Mathlib.Algebra.Group.Nat.Defs

namespace Libretto.Binary

open Writer (padding)

@[simp] theorem Tag.length_bytes (tag : Tag) : tag.bytes.length = 4 := rfl

theorem length_flatMap_wordBytes (words : List UInt32) :
    (words.flatMap wordBytes).length = 4 * words.length := by
  induction words with
  | nil => rfl
  | cons word rest ih =>
    rw [List.flatMap_cons, List.length_append, ih, length_wordBytes, List.length_cons]
    omega

/-- The zero bytes in front of an aligned position. -/
def gap (boundary position : Nat) : List UInt8 :=
  List.replicate (padding boundary position) 0

/-- The first multiple of a boundary from a position on. -/
def aligned (boundary position : Nat) : Nat :=
  position + padding boundary position

/-- Bytes that a table locates, and what its entry holds besides the offset. -/
structure Piece where
  entry : List UInt8
  bytes : List UInt8

namespace Piece

/-- The entries of pieces whose offsets are open. -/
def openTable : List Piece → List UInt8
  | [] => []
  | piece :: rest => wordBytes 0 ++ (piece.entry ++ openTable rest)

/-- The entries of pieces that are placed from a position on. -/
def table (boundary position : Nat) : List Piece → List UInt8
  | [] => []
  | piece :: rest =>
    wordBytes (aligned boundary position).toUInt32 ++ (piece.entry ++
      table boundary (aligned boundary position + piece.bytes.length) rest)

/-- The pieces, placed from a position on. -/
def placed (boundary position : Nat) : List Piece → List UInt8
  | [] => []
  | piece :: rest =>
    gap boundary position ++ (piece.bytes ++
      placed boundary (aligned boundary position + piece.bytes.length) rest)

/-- The positions of the entries of a table that begins at a position. -/
def entries (position : Nat) : List Piece → List Nat
  | [] => []
  | piece :: rest => position :: entries (position + 4 + piece.entry.length) rest

theorem length_openTable (boundary position : Nat) (pieces : List Piece) :
    (openTable pieces).length = (table boundary position pieces).length := by
  induction pieces generalizing position with
  | nil => rfl
  | cons piece rest ih =>
    rw [openTable, table, List.length_append, List.length_append, List.length_append,
      List.length_append, length_wordBytes, length_wordBytes, ← ih]

theorem length_le_length_placed (boundary position : Nat) {piece : Piece} {pieces : List Piece}
    (mem : piece ∈ pieces) : piece.bytes.length ≤ (placed boundary position pieces).length := by
  induction pieces generalizing position with
  | nil => cases mem
  | cons first rest ih =>
    rw [placed, List.length_append, List.length_append]
    rcases List.mem_cons.1 mem with rfl | mem
    · omega
    · have behind := ih (aligned boundary position + first.bytes.length) mem
      omega

end Piece

/-- A text and the zero byte that closes it. -/
def textPiece (text : String) : Piece :=
  ⟨[], text.toUTF8.toList ++ [0]⟩

theorem openTable_textPieces (strings : List String) :
    Piece.openTable (strings.map textPiece) = List.replicate (4 * strings.length) 0 := by
  induction strings with
  | nil => rfl
  | cons text rest ih =>
    have split : List.replicate (4 * (text :: rest).length) (0 : UInt8) =
        wordBytes 0 ++ List.replicate (4 * rest.length) 0 := by
      rw [List.length_cons, Nat.mul_succ, Nat.add_comm, ← List.replicate_append_replicate]
      rfl
    rw [List.map_cons, Piece.openTable, ih, split]
    rfl

/-- The list of the given strings. -/
def stringList (strings : List String) : List UInt8 :=
  Tag.strings.bytes ++ (wordBytes strings.length.toUInt32 ++
    (Piece.table 1 (8 + 4 * strings.length) (strings.map textPiece) ++
      Piece.placed 1 (8 + 4 * strings.length) (strings.map textPiece)))

/-- A string list holds at least its table. -/
theorem le_length_stringList (strings : List String) :
    8 + 4 * strings.length ≤ (stringList strings).length := by
  simp only [stringList, List.length_append, length_wordBytes, Tag.length_bytes,
    ← Piece.length_openTable, openTable_textPieces, List.length_replicate]
  omega

/-- A container with the given chunks and strings. -/
def container (kind : Tag) (chunks : List UInt8) (strings : List String) : List UInt8 :=
  let listed :=
    if strings = [] then []
    else gap alignment (headerSize + chunks.length) ++ stringList strings
  kind.bytes ++ (wordBytes 0 ++ (wordBytes (headerSize + chunks.length + listed.length).toUInt32 ++
    (wordBytes headerSize.toUInt32 ++
      (wordBytes (if strings = [] then 0
        else (aligned alignment (headerSize + chunks.length)).toUInt32) ++
        (wordBytes 0 ++ (chunks ++ listed))))))

theorem length_chunks_le (kind : Tag) (chunks : List UInt8) (strings : List String) :
    chunks.length ≤ (container kind chunks strings).length := by
  simp only [container, List.length_append]
  omega

/-- A block: its entry also has its length in words. -/
def codePiece (code : List UInt32) : Piece :=
  ⟨wordBytes code.length.toUInt32, code.flatMap wordBytes⟩

theorem length_openTable_codes (codes : List (List UInt32)) :
    (Piece.openTable (codes.map codePiece)).length = 8 * codes.length := by
  induction codes with
  | nil => rfl
  | cons code rest ih =>
    have entry : (codePiece code).entry.length = 4 := length_wordBytes _
    rw [List.map_cons, Piece.openTable, List.length_append, List.length_append, ih, entry,
      length_wordBytes, List.length_cons]
    omega

/-- The position behind the block table of a script. -/
def scriptTableEnd (blocks : Nat) : Nat :=
  headerSize + 12 + 8 * blocks

/-- The chunks of a script. -/
def scriptChunks (codes : List (List UInt32)) : List UInt8 :=
  let body := aligned alignment (scriptTableEnd codes.length)
  Tag.info.bytes ++ (wordBytes codes.length.toUInt32 ++ (wordBytes body.toUInt32 ++
    (Piece.table alignment (body + 4) (codes.map codePiece) ++
      (gap alignment (scriptTableEnd codes.length) ++ (Tag.code.bytes ++
        Piece.placed alignment (body + 4) (codes.map codePiece))))))

/-- The container of a script. -/
def scriptContainer (codes : List (List UInt32)) (strings : List String) : List UInt8 :=
  container .script (scriptChunks codes) strings

/-- A snippet is a container of its own. -/
def snippetPiece (snippet : List UInt8) : Piece :=
  ⟨[], snippet⟩

/-- The position behind the snippet table of a dialogue. -/
def dramaTableEnd (snippets : Nat) : Nat :=
  headerSize + 16 + 4 * snippets

/-- The chunks of a dialogue with the given records, of five words each, and snippets. -/
def dramaChunks (records : List (List UInt32)) (snippets : List (List UInt8)) : List UInt8 :=
  let body := aligned alignment (dramaTableEnd snippets.length) + 4
  let behind := body + recordSize * records.length
  Tag.head.bytes ++ (wordBytes records.length.toUInt32 ++ (wordBytes snippets.length.toUInt32 ++
    if records = [] then wordBytes 0 ++ Piece.openTable (snippets.map snippetPiece)
    else wordBytes body.toUInt32 ++ (Piece.table alignment behind (snippets.map snippetPiece) ++
      (gap alignment (dramaTableEnd snippets.length) ++ (Tag.body.bytes ++
        (records.flatMap (List.flatMap wordBytes) ++
          Piece.placed alignment behind (snippets.map snippetPiece)))))))

end Libretto.Binary
