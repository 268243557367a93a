/-
Blocks: the code of one form.

Words that hold string ids are *slots*. While the unit compiles they hold insertion ids; when it is
written every slot takes the write id of its string.

* **`Block.references`** — the strings that a block refers to, in code order;
* **`Block.resolve`** — the code with write ids, or the first string that has none.
-/
import Libretto.StringTable

namespace Libretto.Script

/-- The code words of a form, and the offsets of those that hold string ids. -/
structure Block where
  code : Array UInt32
  slots : List Nat
  deriving DecidableEq, Repr, Inhabited

namespace Block

/-- The strings that a block refers to, in code order. -/
def references (block : Block) : List StringId :=
  block.slots.filterMap fun slot => block.code[slot]?.map StringId.mk

/-- Puts the write id of its string into a slot. -/
def resolveSlot (ids : WriteIds) (code : Array UInt32) (slot : Nat) :
    Except StringId (Array UInt32) :=
  match code[slot]? with
  | none => .ok code
  | some word =>
    match ids.writeId? ⟨word⟩ with
    | none => .error ⟨word⟩
    | some writeId => .ok (code.setIfInBounds slot writeId)

/-- The code with write ids in all slots, or the first string without a write id. -/
def resolve (block : Block) (ids : WriteIds) : Except StringId (Array UInt32) :=
  block.slots.foldlM (resolveSlot ids) block.code

end Block

end Libretto.Script
