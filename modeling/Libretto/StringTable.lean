/-
The strings of a compiled unit and their two numberings.

While a unit compiles, a string is named by its position in the table, its *insertion id*. When the
unit is written, the strings that it refers to are numbered anew in the order of first reference:
their *write ids*.

* **`StringTable.add`** — interns a text; a text keeps its id from then on;
* **`StringTable.find?`**, **`StringTable.get?`** — from text to id and back;
* **`StringTable.resolve`** — the write ids for a list of references, as `WriteIds`.

The texts of a table are distinct by construction. They stand in a plain list, so that every
statement about ids is one about positions.
-/

namespace Libretto

/-- The insertion id of a string: its position in the table, as code words hold it. -/
structure StringId where
  index : UInt32
  deriving DecidableEq, Repr, Inhabited

/-- The id of a position. -/
def StringId.ofPosition (position : Nat) : StringId :=
  ⟨position.toUInt32⟩

/-- The distinct strings of a unit, in the order in which they were first added. -/
structure StringTable where
  texts : List String
  distinct : texts.Nodup

namespace StringTable

/-- The table without strings. -/
def empty : StringTable := ⟨[], .nil⟩

instance : Inhabited StringTable := ⟨empty⟩

/-- The number of strings. -/
def size (table : StringTable) : Nat :=
  table.texts.length

/-- The id that a text has in the table, or gets when it is added. -/
def idOf (table : StringTable) (text : String) : StringId :=
  .ofPosition (table.texts.idxOf text)

/-- The id of a text, if the table holds it. -/
def find? (table : StringTable) (text : String) : Option StringId :=
  if text ∈ table.texts then some (table.idOf text) else none

/-- The text of an id. -/
def get? (table : StringTable) (id : StringId) : Option String :=
  table.texts[id.index.toNat]?

/-- The table with a further text at its end, unless it holds it already. -/
def insert (table : StringTable) (text : String) : StringTable :=
  if h : text ∈ table.texts then table
  else
    ⟨table.texts ++ [text],
      List.nodup_append.2 ⟨table.distinct, by simp, fun a ha b hb e => by simp_all⟩⟩

/-- Interns a text: its id, and the table that holds it. -/
def add (table : StringTable) (text : String) : StringId × StringTable :=
  (table.idOf text, table.insert text)

/-- The table after interning texts from left to right. -/
def insertAll (table : StringTable) (texts : List String) : StringTable :=
  texts.foldl insert table

/-- The table of the given texts. -/
def ofList (texts : List String) : StringTable :=
  empty.insertAll texts

@[simp] theorem texts_empty : empty.texts = [] := rfl

theorem texts_insert (table : StringTable) (text : String) :
    (table.insert text).texts =
      if text ∈ table.texts then table.texts else table.texts ++ [text] := by
  unfold insert
  split <;> simp

theorem mem_texts_insert (table : StringTable) (text : String) :
    text ∈ (table.insert text).texts := by
  rw [texts_insert]
  split <;> simp_all

/-- A text keeps the id that it would get, once it is added. -/
theorem idOf_insert (table : StringTable) (text : String) :
    (table.insert text).idOf text = table.idOf text := by
  unfold idOf
  rw [texts_insert]
  split
  · rfl
  · next h => rw [List.idxOf_append, if_neg h, List.idxOf_eq_length h]; simp

theorem find?_insert (table : StringTable) (text : String) :
    (table.insert text).find? text = some (table.idOf text) := by
  rw [find?, if_pos (mem_texts_insert table text), idOf_insert]

/-- Interning only extends the list of texts. -/
theorem texts_isPrefix_insert (table : StringTable) (text : String) :
    table.texts <+: (table.insert text).texts := by
  rw [texts_insert]
  split <;> simp

end StringTable

/-- The write ids of a unit: its table, and the ids that it refers to, each once, in the order of
first reference. -/
structure WriteIds where
  table : StringTable
  order : List StringId

namespace WriteIds

/-- The position of an id among the ids referred to. -/
def writeId? (ids : WriteIds) (id : StringId) : Option UInt32 :=
  if id ∈ ids.order then some (ids.order.idxOf id).toUInt32 else none

/-- The texts referred to, in the order of their write ids. -/
def strings (ids : WriteIds) : List String :=
  ids.order.filterMap ids.table.get?

/-- The text of a write id. -/
def lookup (ids : WriteIds) (writeId : UInt32) : Option String :=
  ids.order[writeId.toNat]?.bind ids.table.get?

/-- The number of strings referred to. -/
def size (ids : WriteIds) : Nat :=
  ids.order.length

end WriteIds

namespace StringTable

/-- Numbers the strings that `references` names, in the order of first reference. Ids that are not
of this table are passed over. -/
def resolve (table : StringTable) (references : List StringId) : WriteIds :=
  ⟨table, (references.filter fun id => (table.get? id).isSome).eraseDups⟩

/-- The text of a code word that holds an insertion id. -/
def lookup (table : StringTable) (word : UInt32) : Option String :=
  table.get? ⟨word⟩

end StringTable

end Libretto
