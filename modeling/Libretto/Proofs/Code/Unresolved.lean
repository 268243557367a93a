/-
The first string of a block without a write id.

Resolving a block goes through its slots and stops at the first word that names a string without a
write id.  The words in front of it have changed by then, but a slot is gone through once only, so
what stops it is the first such string among those that the block refers to.

* **`faultOf_resolveSlots`**, **`Block.faultOf_resolve`** — resolving fails for the first string
  without a write id, and for no other reason;
* **`nodup_slots_of_compile`**, **`ScriptUnit.Holds.nodup_slots`** — no slot occurs twice in a block
  that was compiled, by itself or in a unit.
-/
import Libretto.Proofs.Code.Slots
import Libretto.Proofs.Outcome
import Libretto.Proofs.Script.Unit

namespace Libretto

namespace WriteIds

/-- The id has no write id. -/
def lacks (ids : WriteIds) (id : StringId) : Bool :=
  (ids.writeId? id).isNone

end WriteIds

namespace Script

namespace Block

variable {ids : WriteIds} {code : Array UInt32} {slots : List Nat}

/-- The strings that the words at slots name. -/
def named (code : Array UInt32) (slots : List Nat) : List StringId :=
  slots.filterMap fun slot => code[slot]?.map StringId.mk

/-- A word that is changed elsewhere names the same string. -/
theorem named_setIfInBounds {slot : Nat} (elsewhere : slot ∉ slots) (word : UInt32) :
    named (code.setIfInBounds slot word) slots = named code slots := by
  refine List.filterMap_congr ?_
  intro other mem
  have differ : slot ≠ other := by
    rintro rfl
    exact elsewhere mem
  rw [Array.getElem?_setIfInBounds_ne differ]

/-- Going through slots stops at the first string without a write id. -/
theorem faultOf_resolveSlots (distinct : slots.Nodup) :
    faultOf (slots.foldlM (resolveSlot ids) code) = (named code slots).find? ids.lacks := by
  induction slots generalizing code with
  | nil => rfl
  | cons slot rest ih =>
    obtain ⟨once, distinct⟩ := List.nodup_cons.1 distinct
    rw [List.foldlM_cons, resolveSlot, named]
    cases here : code[slot]? with
    | none =>
      rw [List.filterMap_cons_none (by rw [here]; rfl)]
      exact ih distinct
    | some word =>
      rw [List.filterMap_cons_some (by rw [here]; rfl)]
      dsimp only
      cases found : ids.writeId? ⟨word⟩ with
      | none =>
        have lacking : ids.lacks ⟨word⟩ = true := by rw [WriteIds.lacks, found]; rfl
        rw [List.find?_cons_of_pos lacking]
        rfl
      | some writeId =>
        have present : ids.lacks ⟨word⟩ ≠ true := by
          rw [WriteIds.lacks, found]
          exact Bool.false_ne_true
        rw [List.find?_cons_of_neg present]
        exact (ih distinct).trans (congrArg _ (named_setIfInBounds once writeId))

/-- Resolving a block fails for the first of its strings without a write id. -/
theorem faultOf_resolve {block : Block} (distinct : block.slots.Nodup) (ids : WriteIds) :
    faultOf (block.resolve ids) = block.references.find? ids.lacks :=
  faultOf_resolveSlots distinct

end Block

/-- No slot occurs twice in the block of an expression. -/
theorem Expr.nodup_slots_of_compile {numbering : Numbering} {e : Expr} {table : StringTable}
    {block : Block} (h : (e.compile numbering table).1 = .ok block) : block.slots.Nodup := by
  have emitted := assemble_emitted numbering e (assemble_of_compile (Prod.ext h rfl))
  let name := (e.compile numbering table).2.wordOf
  have chain : Instruction.Chain 0 0 (e.instructions name StringId.index 0 0) (0 + e.size) 0 :=
    chain_instructions emitted.wellFormed 0 0
  have slots_eq : block.slots = (e.instructions name StringId.index 0 0).flatMap
      Instruction.slots := emitted.slots_eq name StringId.index 0
  rw [slots_eq]
  exact (Instruction.pairwise_slots_chain chain).imp Nat.ne_of_lt

theorem Block.Holds.nodup_slots {block : Block} {numbering : Numbering} {table : StringTable}
    {d : Datum} (h : block.Holds numbering table d) : block.slots.Nodup := by
  rw [h.slots_eq]
  exact (Instruction.pairwise_slots_chain (d.chain_instructions h.wellFormed _)).imp Nat.ne_of_lt

/-- Nor does one in the blocks of a unit. -/
theorem ScriptUnit.Holds.nodup_slots {unit : ScriptUnit} {data : List Datum} (h : unit.Holds data) :
    ∀ block ∈ unit.blocks, block.slots.Nodup :=
  ((List.forall₂_and_left _ _).1
    (h.blocks.imp fun _ _ holds => ⟨holds.nodup_slots, holds⟩)).1

end Script

end Libretto
