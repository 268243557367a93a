/-
Words in bytes.

A word is written in four bytes, least significant byte first. A tag of four characters takes the
same room.

* **`wordBytes`**, **`wordOfBytes`** — from word to bytes and back, with `wordOfBytes_wordBytes`;
* **`Tag`** — the four bytes that open a container or a chunk of one.
-/

namespace Libretto.Binary

/-- The bytes of a word, least significant byte first. -/
def wordBytes (word : UInt32) : List UInt8 :=
  let n := word.toNat
  [n.toUInt8, (n / 0x100).toUInt8, (n / 0x10000).toUInt8, (n / 0x1000000).toUInt8]

/-- The word of four bytes, least significant byte first. -/
def wordOfBytes (a b c d : UInt8) : UInt32 :=
  (a.toNat + 0x100 * b.toNat + 0x10000 * c.toNat + 0x1000000 * d.toNat).toUInt32

@[simp] theorem length_wordBytes (word : UInt32) : (wordBytes word).length = 4 := rfl

theorem wordOfBytes_wordBytes (word : UInt32) :
    ∃ a b c d, wordBytes word = [a, b, c, d] ∧ wordOfBytes a b c d = word := by
  refine ⟨_, _, _, _, rfl, UInt32.toNat_inj.1 ?_⟩
  have := word.toNat_lt
  simp [wordOfBytes, Nat.toUInt8, Nat.toUInt32]
  omega

/-- Four bytes that name a container or a chunk. -/
structure Tag where
  a : UInt8
  b : UInt8
  c : UInt8
  d : UInt8
  deriving DecidableEq, Repr

namespace Tag

/-- The bytes of a tag in order. -/
def bytes (tag : Tag) : List UInt8 :=
  [tag.a, tag.b, tag.c, tag.d]

/-- The tag of four ASCII characters. -/
def ofChars (a b c d : Char) : Tag :=
  ⟨a.toNat.toUInt8, b.toNat.toUInt8, c.toNat.toUInt8, d.toNat.toUInt8⟩

/-- The characters of a tag. -/
def text (tag : Tag) : String :=
  .ofList (tag.bytes.map fun byte => Char.ofNat byte.toNat)

/-- The kind of a script container. -/
def script : Tag := ofChars 'P' 'L' 'O' 'P'

/-- The kind of a dialogue container. -/
def drama : Tag := ofChars 'D' 'R' 'A' 'C'

/-- The block table of a script. -/
def info : Tag := ofChars 'i' 'n' 'f' 'o'

/-- The blocks of a script. -/
def code : Tag := ofChars 'c' 'o' 'd' 'e'

/-- The snippet table of a dialogue. -/
def head : Tag := ofChars 'h' 'e' 'a' 'd'

/-- The nodes of a dialogue. -/
def body : Tag := ofChars 'b' 'o' 'd' 'y'

/-- The strings of a container. -/
def strings : Tag := ofChars 's' 't' 'r' 's'

end Tag

/-- Every container, and every block in one, begins at a multiple of this many bytes. -/
def alignment : Nat := 16

/-- The size of a container's header in bytes. -/
def headerSize : Nat := 24

/-- The size of a dialogue node's record in bytes. -/
def recordSize : Nat := 20

end Libretto.Binary
