/-
Numberings of the opcodes by code words.

The runtime may use any numbering in which different opcodes have different words; that condition is
part of the type, so that `decode` inverts `word` for every numbering.

* **`Numbering.word`**, **`Numbering.decode`** — from opcode to word and back;
* **`Numbering.decode_eq_some_iff`** — the two agree;
* **`Numbering.standard`** — the numbering that is built in;
* **`Numbering.entries`** — the opcodes in ascending order of their words.
-/
import Libretto.Opcode

namespace Libretto

/-- A word for every opcode, different ones for different opcodes. -/
structure Numbering where
  word : Opcode → UInt32
  word_injective : Function.Injective word

namespace Numbering

/-- The opcode that a word stands for. -/
def decode (numbering : Numbering) (word : UInt32) : Option Opcode :=
  Opcode.all.find? fun op => numbering.word op == word

theorem decode_eq_some_iff {numbering : Numbering} {word : UInt32} {op : Opcode} :
    numbering.decode word = some op ↔ numbering.word op = word := by
  constructor
  · intro h
    simpa using List.find?_some h
  · intro h
    cases found : numbering.decode word with
    | none => simpa [h] using List.find?_eq_none.1 found op op.mem_all
    | some other =>
      have : numbering.word other = word := by simpa using List.find?_some found
      rw [numbering.word_injective (this.trans h.symm)]

@[simp] theorem decode_word (numbering : Numbering) (op : Opcode) :
    numbering.decode (numbering.word op) = some op :=
  decode_eq_some_iff.2 rfl

/-- The words of the opcodes in the numbering that is built in: from 100 on, in order. -/
def standardWord (op : Opcode) : UInt32 :=
  (100 + Opcode.all.idxOf op).toUInt32

/-- The numbering that is built in. -/
def standard : Numbering where
  word := standardWord
  word_injective := by
    have h : ∀ a ∈ Opcode.all, ∀ b ∈ Opcode.all, standardWord a = standardWord b → a = b := by
      decide
    exact fun a b => h a a.mem_all b b.mem_all

instance : Inhabited Numbering := ⟨standard⟩

/-- Two numberings agree on every opcode. -/
instance : BEq Numbering :=
  ⟨fun a b => Opcode.all.all fun op => a.word op == b.word op⟩

/-- The opcodes in ascending order of their words. -/
def entries (numbering : Numbering) : List Opcode :=
  Opcode.all.mergeSort fun a b => numbering.word a ≤ numbering.word b

end Numbering

end Libretto
