/-
Opcode definitions: the text in which a numbering is shared with the runtime.

A line `PLOP_OP(NAME, VALUE)` gives one opcode its word; every other line is passed over. A text is
accepted when it gives each opcode one word and no word to two opcodes.

* **`Definitions.ofLines`** — collects the definitions of a text, or the first fault in it;
* **`Numbering.ofText`** — the numbering that a complete text defines;
* **`Numbering.text`** — the definitions of a numbering.
-/
import Libretto.Numeral.Natural
import Libretto.Opcode.Numbering
import Libretto.Text.Blank
import Libretto.Text.Lines

namespace Libretto

/-- Why opcode definitions are rejected; lines are counted from 1. -/
inductive DefinitionError where
  | malformed (line : Nat) (text : String)
  | unknownName (line : Nat) (name : String)
  | duplicateName (line : Nat) (name : String)
  | duplicateWord (line : Nat) (name : String) (word : UInt32) (other : Opcode)
  | missing (opcodes : List Opcode)
  deriving DecidableEq, Repr

/-- The wording of a fault in opcode definitions. -/
def DefinitionError.message : DefinitionError → String
  | malformed line text => s!"line {line}: malformed opcode definition `{text}`"
  | unknownName line name => s!"line {line}: unknown opcode `{name}`"
  | duplicateName line name => s!"line {line}: opcode `{name}` defined twice"
  | duplicateWord line name word other =>
    s!"line {line}: value {word} of `{name}` already used by `" ++ other.name ++ "`"
  | missing opcodes =>
    "opcodes missing from definition file: " ++ ", ".intercalate (opcodes.map Opcode.name)

/-- Definitions collected so far: no opcode and no word occurs twice. -/
structure Definitions where
  entries : List (Opcode × UInt32)
  distinct : entries.Pairwise fun a b => a.1 ≠ b.1 ∧ a.2 ≠ b.2

namespace Definitions

/-- No definitions. -/
def empty : Definitions := ⟨[], .nil⟩

/-- The word of an opcode, if it is defined. -/
def word? (definitions : Definitions) (op : Opcode) : Option UInt32 :=
  definitions.entries.lookup op

/-- The opcode that a word is used by. -/
def opcode? (definitions : Definitions) (word : UInt32) : Option Opcode :=
  (definitions.entries.find? fun entry => entry.2 == word).map Prod.fst

/-- A further definition, of an opcode and with a word that are both new. -/
def insert (definitions : Definitions) (op : Opcode) (word : UInt32)
    (newName : definitions.word? op = none) (newWord : definitions.opcode? word = none) :
    Definitions where
  entries := definitions.entries ++ [(op, word)]
  distinct := by
    refine List.pairwise_append.2 ⟨definitions.distinct, by simp, fun entry h new hnew => ?_⟩
    obtain rfl : new = (op, word) := by simpa using hnew
    have hname := List.lookup_eq_none_iff.1 newName entry h
    have hword : entry.2 ≠ word := by
      simp only [opcode?, Option.map_eq_none_iff, List.find?_eq_none] at newWord
      simpa using newWord entry h
    exact ⟨fun e => by simp [e] at hname, hword⟩

/-- The name and the value between the parentheses of a definition, both trimmed. The closing
parenthesis may be missing. -/
def fields? (body : List Char) : Option (List Char × List Char) :=
  match (body.takeWhile (· ≠ ')')).span (· ≠ ',') with
  | (name, ',' :: value) => some (Text.trim name, Text.trim value)
  | _ => none

/-- The text of a line that opens a definition, behind the parenthesis. -/
def body? (line : List Char) : Option (List Char) :=
  if "PLOP_OP(".toList.isPrefixOf line then some (line.drop 8) else none

/-- Adds the definition on one trimmed line, if it opens one. -/
def addLine (definitions : Definitions) (number : Nat) (line : List Char) :
    Except DefinitionError Definitions :=
  match body? line with
  | none => .ok definitions
  | some body =>
    match fields? body with
    | none => .error (.malformed number (.ofList line))
    | some (name, value) =>
      match Numeral.readWord 10 value with
      | .error _ => .error (.malformed number (.ofList line))
      | .ok word =>
        let name := String.ofList name
        match Opcode.ofName? name with
        | none => .error (.unknownName number name)
        | some op =>
          match newName : definitions.word? op with
          | some _ => .error (.duplicateName number name)
          | none =>
            match newWord : definitions.opcode? word with
            | some other => .error (.duplicateWord number name word other)
            | none => .ok (definitions.insert op word newName newWord)

/-- Adds the definitions of consecutive lines, the first of which has the given number. -/
def addLines (definitions : Definitions) (number : Nat) :
    List (List Char) → Except DefinitionError Definitions
  | [] => .ok definitions
  | line :: rest =>
    match definitions.addLine number (Text.trim line) with
    | .error e => .error e
    | .ok definitions => definitions.addLines (number + 1) rest

/-- The opcodes without a definition, in the order of all opcodes. -/
def missing (definitions : Definitions) : List Opcode :=
  Opcode.all.filter fun op => (definitions.word? op).isNone

/-- A word belongs to one entry at most. -/
theorem entry_unique {entries : List (Opcode × UInt32)}
    (distinct : entries.Pairwise fun a b => a.1 ≠ b.1 ∧ a.2 ≠ b.2) {a b : Opcode × UInt32}
    (ha : a ∈ entries) (hb : b ∈ entries) (h : a.2 = b.2) : a = b := by
  induction distinct with
  | nil => simp at ha
  | cons first _ ih =>
    cases ha with
    | head =>
      cases hb with
      | head => rfl
      | tail _ hb => exact absurd h (first b hb).2
    | tail _ ha =>
      cases hb with
      | head => exact absurd h.symm (first a ha).2
      | tail _ hb => exact ih ha hb

/-- Two opcodes never share a word. -/
theorem opcode_unique {definitions : Definitions} {a b : Opcode} {word : UInt32}
    (ha : definitions.word? a = some word) (hb : definitions.word? b = some word) : a = b := by
  have mem : ∀ {op}, definitions.word? op = some word → (op, word) ∈ definitions.entries := by
    intro op h
    obtain ⟨l₁, l₂, h, -⟩ := List.lookup_eq_some_iff.1 h
    simp [h]
  exact congrArg Prod.fst (entry_unique definitions.distinct (mem ha) (mem hb) rfl)

/-- The numbering that complete definitions describe. -/
def numbering (definitions : Definitions) (complete : definitions.missing = []) : Numbering :=
  have defined : ∀ op, (definitions.word? op).isSome := fun op => by
    simpa [Option.isSome_iff_ne_none] using List.filter_eq_nil_iff.1 complete op op.mem_all
  { word := fun op => (definitions.word? op).get (defined op)
    word_injective := fun a b h => by
      have ha := (Option.some_get (defined a)).symm
      have hb := (Option.some_get (defined b)).symm
      exact opcode_unique ha (hb.trans (congrArg some h.symm)) }

end Definitions

namespace Numbering

/-- The numbering that a text of definitions describes. -/
def ofText (text : String) : Except DefinitionError Numbering :=
  match Definitions.empty.addLines 1 (Text.lines text.toList) with
  | .error e => .error e
  | .ok definitions =>
    if complete : definitions.missing = [] then .ok (definitions.numbering complete)
    else .error (.missing definitions.missing)

/-- The name of the file in which a numbering is shared. -/
def fileName : String := "plop_op.inc"

/-- The line that defines an opcode. -/
def definitionLine (numbering : Numbering) (op : Opcode) : String :=
  "PLOP_OP(" ++ op.name ++ ", " ++ Numeral.decimal (numbering.word op).toNat ++ ")\n"

/-- The definitions of a numbering, under a header that itself defines nothing. -/
def text (numbering : Numbering) : String :=
  "// Auto-generated – DO NOT EDIT\n// #define PLOP_OP(name, value) before including\n\n" ++
    String.join (numbering.entries.map numbering.definitionLine)

end Numbering

end Libretto
