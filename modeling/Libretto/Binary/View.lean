/-
Containers read back.

Reading trusts nothing: every word, table and string has to lie within the bytes that the container
declares as its own, and every reference of a dialogue node has to name a string or a snippet.

* **`View.ofBytes`** — reads a script or a dialogue;
* **`ScriptView`**, **`DramaView`** — what they hold, strings in the order of their write ids.
-/
import Libretto.Binary.Word
import Libretto.Numeral.Natural

namespace Libretto.Binary

/-- Why bytes are no container. -/
inductive ViewError where
  | truncated (position : Nat) (needed : Nat) (size : Nat)
  | unknownKind (kind : Tag)
  | missingTag (position : Nat) (expected : Tag)
  | headerSize (found : UInt32)
  | badString (index : Nat)
  /-- A field of a node that names nothing. -/
  | badReference (node : Nat) (field : String) (value : Int)
  deriving DecidableEq, Repr

/-- The wording of a fault in a container. -/
def ViewError.message : ViewError → String
  | truncated position needed size =>
    s!"truncated: need {needed} byte(s) at {position}, have {size}"
  | unknownKind kind =>
    "unknown container kind [" ++
      ", ".intercalate (kind.bytes.map fun byte => Numeral.decimal byte.toNat) ++ "]"
  | missingTag position expected => "expected `" ++ expected.text ++ s!"` tag at {position}"
  | headerSize found => s!"unsupported header size {found}"
  | badString index => s!"string {index} is not NUL-terminated UTF-8"
  | badReference node field value => s!"node {node}: {field} {value} is out of range"

/-- The bytes of a container. -/
abbrev Bytes := Array UInt8

namespace Bytes

/-- Checks that a number of bytes lie within the container. -/
def need (bytes : Bytes) (position needed : Nat) : Except ViewError Unit :=
  if position + needed ≤ bytes.size then .ok () else .error (.truncated position needed bytes.size)

/-- The word at a position. -/
def word (bytes : Bytes) (position : Nat) : Except ViewError UInt32 :=
  if h : position + 4 ≤ bytes.size then
    .ok (wordOfBytes bytes[position] bytes[position + 1] bytes[position + 2] bytes[position + 3])
  else .error (.truncated position 4 bytes.size)

/-- The number that the word at a position holds. -/
def number (bytes : Bytes) (position : Nat) : Except ViewError Nat :=
  return (← bytes.word position).toNat

/-- The tag at a position. -/
def tag (bytes : Bytes) (position : Nat) : Except ViewError Tag :=
  if h : position + 4 ≤ bytes.size then
    .ok ⟨bytes[position], bytes[position + 1], bytes[position + 2], bytes[position + 3]⟩
  else .error (.truncated position 4 bytes.size)

/-- Checks for a tag at a position. -/
def expect (bytes : Bytes) (position : Nat) (expected : Tag) : Except ViewError Unit := do
  if (← bytes.tag position) ≠ expected then throw (.missingTag position expected)

/-- The words from a position on. -/
def words (bytes : Bytes) (position : Nat) : Nat → Except ViewError (List UInt32)
  | 0 => .ok []
  | count + 1 => do
    let word ← bytes.word position
    return word :: (← bytes.words (position + 4) count)

/-- The text from a position to the next zero byte, if it is UTF-8. -/
def text? (bytes : Bytes) (position : Nat) : Option String := do
  if bytes.size < position then none
  let tail := bytes.extract position bytes.size
  let length ← tail.findIdx? (· = 0)
  String.fromUTF8? ⟨tail.extract 0 length⟩

end Bytes

/-- The strings whose offsets from `base` stand from `entry` on; the first has the given index. -/
def readStrings (bytes : Bytes) (base entry index : Nat) : Nat → Except ViewError (List String)
  | 0 => .ok []
  | count + 1 => do
    let offset ← bytes.number entry
    match bytes.text? (base + offset) with
    | none => throw (.badString index)
    | some text => return text :: (← readStrings bytes base (entry + 4) (index + 1) count)

/-- The string list of a container, which its header locates. -/
def readStringList (bytes : Bytes) : Except ViewError (List String) := do
  let base ← bytes.number 16
  if base = 0 then return []
  bytes.expect base .strings
  let count ← bytes.number (base + 4)
  bytes.need (base + 8) (count * 4)
  readStrings bytes base (base + 8) 0 count

/-- Checks a header; gives the kind, and the bytes that the container declares as its own. -/
def readHeader (bytes : Bytes) : Except ViewError (Tag × Bytes) := do
  bytes.need 0 headerSize
  let kind ← bytes.tag 0
  let found ← bytes.word 12
  if found.toNat ≠ headerSize then throw (.headerSize found)
  let size ← bytes.number 8
  bytes.need 0 size
  return (kind, bytes.extract 0 size)

/-- What a script container holds. -/
structure ScriptView where
  blocks : List (List UInt32)
  strings : List String
  deriving DecidableEq, Repr

/-- The blocks whose offsets and lengths stand from `entry` on. -/
def readBlocks (bytes : Bytes) (entry : Nat) : Nat → Except ViewError (List (List UInt32))
  | 0 => .ok []
  | count + 1 => do
    let position ← bytes.number entry
    let length ← bytes.number (entry + 4)
    let block ← bytes.words position length
    return block :: (← readBlocks bytes (entry + 8) count)

/-- Reads a script from the bytes of its container. -/
def ScriptView.ofBytes (bytes : Bytes) : Except ViewError ScriptView := do
  bytes.expect headerSize .info
  let count ← bytes.number (headerSize + 4)
  bytes.need (headerSize + 12) (count * 8)
  bytes.expect (← bytes.number (headerSize + 8)) .code
  let blocks ← readBlocks bytes (headerSize + 12) count
  return ⟨blocks, ← readStringList bytes⟩

/-- The record of a dialogue node: its strings by write id, its snippets by index. -/
structure NodeRecord where
  id : Option Nat
  before : Option Nat
  after : Option Nat
  plsay : Option Nat
  say : Option Nat
  deriving DecidableEq, Repr

/-- A reference word: all ones stand for absence, anything else has to be below a limit. -/
def readReference (node : Nat) (field : String) (limit : Nat) (word : UInt32) :
    Except ViewError (Option Nat) :=
  if word.toNat = 0xFFFFFFFF then .ok none
  else if word.toNat < 0x80000000 ∧ word.toNat < limit then .ok (some word.toNat)
  else .error (.badReference node field word.toInt32.toInt)

/-- The records of nodes from a position on; the first has the given number. -/
def readNodes (bytes : Bytes) (strings snippets position node : Nat) :
    Nat → Except ViewError (List NodeRecord)
  | 0 => .ok []
  | count + 1 => do
    let id ← bytes.word position
    let before ← bytes.word (position + 4)
    let after ← bytes.word (position + 8)
    let plsay ← bytes.word (position + 12)
    let say ← bytes.word (position + 16)
    let id ← readReference node "id" strings id
    let before ← readReference node "before" snippets before
    let after ← readReference node "after" snippets after
    let plsay ← readReference node "plsay" strings plsay
    let say ← readReference node "say" strings say
    let rest ← readNodes bytes strings snippets (position + recordSize) (node + 1) count
    return ⟨id, before, after, plsay, say⟩ :: rest

/-- The snippets whose offsets stand from `entry` on; each is a script container. -/
def readSnippets (bytes : Bytes) (entry : Nat) : Nat → Except ViewError (List ScriptView)
  | 0 => .ok []
  | count + 1 => do
    let position ← bytes.number entry
    let (kind, inner) ← readHeader (bytes.extract position bytes.size)
    if kind ≠ .script then throw (.unknownKind kind)
    let snippet ← ScriptView.ofBytes inner
    return snippet :: (← readSnippets bytes (entry + 4) count)

/-- What a dialogue container holds. -/
structure DramaView where
  nodes : List NodeRecord
  snippets : List ScriptView
  strings : List String
  deriving DecidableEq, Repr

/-- Reads a dialogue from the bytes of its container. Without nodes there is no body. -/
def DramaView.ofBytes (bytes : Bytes) : Except ViewError DramaView := do
  bytes.expect headerSize .head
  let nodeCount ← bytes.number (headerSize + 4)
  let snippetCount ← bytes.number (headerSize + 8)
  bytes.need (headerSize + 16) (snippetCount * 4)
  let strings ← readStringList bytes
  if nodeCount = 0 then return ⟨[], [], strings⟩
  let body ← bytes.number (headerSize + 12)
  bytes.expect (body - 4) .body
  bytes.need body (nodeCount * recordSize)
  let nodes ← readNodes bytes strings.length snippetCount body 0 nodeCount
  let snippets ← readSnippets bytes (headerSize + 16) snippetCount
  return ⟨nodes, snippets, strings⟩

/-- A container read back. -/
inductive View where
  | script (view : ScriptView)
  | drama (view : DramaView)
  deriving DecidableEq, Repr

/-- Reads the container that begins at the first byte; bytes behind it are ignored. -/
def View.ofBytes (bytes : Bytes) : Except ViewError View := do
  let (kind, bytes) ← readHeader bytes
  if kind = .script then return .script (← ScriptView.ofBytes bytes)
  else if kind = .drama then return .drama (← DramaView.ofBytes bytes)
  else throw (.unknownKind kind)

end Libretto.Binary
