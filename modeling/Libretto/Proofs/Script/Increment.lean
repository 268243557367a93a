/-
Sources that grow.

A unit compiles line by line.  Behind further lines the same lines find another table, in which
their strings have other ids, and that is all that can differ:

* **`ofLines_append`** — lines behind others are compiled with the table of these;
* **`blocks_append`**, **`diagnostics_append`** — what is compiled of a source stays as it is when
  further lines come;
* **`writeId?_append`** — write ids are given in the order of first reference, so they stay, too;
* **`behind_corresponds`** — further lines compile behind a source as by themselves;
* **`Extends`**, **`extends_of_append`** — hence sources one behind the other compile to a unit that
  begins as the first one and goes on as the second one.

A report shows an operand by its text, in which a literal appears by its insertion id.  Therefore
the reports of a source are not always those of its parts.
-/
import Libretto.Proofs.Code.Words
import Libretto.Proofs.Script.Correspondence
import Libretto.Proofs.Script.Report
import Libretto.Proofs.Script.Unit

namespace Libretto.Script

theorem Outcome.ofLines_append (numbering : Numbering) (lines more : List (List Char))
    (table : StringTable) :
    ofLines numbering (lines ++ more) table =
      ((ofLines numbering lines table).1 ++
          (ofLines numbering more (ofLines numbering lines table).2).1,
        (ofLines numbering more (ofLines numbering lines table).2).2) := by
  induction lines generalizing table with
  | nil => rfl
  | cons line rest ih =>
    rw [List.cons_append, ofLines_cons, ofLines_cons, ih]
    rfl

namespace ScriptUnit

theorem lines_append {a b : String} (ends : a = "" ∨ ∃ line, a = line ++ "\n") :
    Text.lines (a ++ b).toList = Text.lines a.toList ++ Text.lines b.toList := by
  obtain rfl | ⟨line, rfl⟩ := ends
  · rw [String.empty_append]
    rfl
  · simp only [String.toList_append]
    rw [List.append_assoc]
    exact Text.lines_append line.toList b.toList

/-- What becomes of the lines of `b` behind those of `a`. -/
def behind (numbering : Numbering) (a b : String) : List Outcome :=
  (Outcome.ofLines numbering (Text.lines b.toList) (compile numbering a).table).1

section

variable (numbering : Numbering) {a b : String} (ends : a = "" ∨ ∃ line, a = line ++ "\n")

include ends

theorem compile_append_eq :
    compile numbering (a ++ b) = ⟨numbering,
      (Outcome.ofLines numbering (Text.lines b.toList) (compile numbering a).table).2,
      (compile numbering a).outcomes ++ behind numbering a b⟩ := by
  rw [compile, lines_append ends, Outcome.ofLines_append]
  rfl

theorem table_le_append : (compile numbering a).table ≤ (compile numbering (a ++ b)).table := by
  rw [compile_append_eq numbering ends]
  exact Outcome.le_ofLines numbering _ _

theorem blocks_append :
    (compile numbering (a ++ b)).blocks =
      (compile numbering a).blocks ++ (behind numbering a b).filterMap Outcome.block? := by
  rw [compile_append_eq numbering ends, blocks, List.filterMap_append]
  rfl

theorem diagnostics_append :
    (compile numbering (a ++ b)).diagnostics = (compile numbering a).diagnostics ++
      ((behind numbering a b).zipIdx (1 + (Text.lines a.toList).length)).flatMap
        fun (outcome, number) => outcome.diagnostics (.line number) := by
  have count : (compile numbering a).outcomes.length = (Text.lines a.toList).length :=
    Outcome.length_ofLines numbering _ _
  rw [compile_append_eq numbering ends, diagnostics, diagnosticsAt, List.zipIdx_append,
    List.flatMap_append, count]
  rfl

/-- References behind others leave the write ids that are given. -/
theorem writeId?_append {id : StringId} {word : UInt32}
    (found : (compile numbering a).writeIds.writeId? id = some word) :
    (compile numbering (a ++ b)).writeIds.writeId? id = some word := by
  obtain ⟨data, holds⟩ := exists_holds numbering a
  have references : (compile numbering (a ++ b)).references = (compile numbering a).references ++
      ((behind numbering a b).filterMap Outcome.block?).flatMap Block.references := by
    rw [references, blocks_append numbering ends, List.flatMap_append]
    rfl
  refine WriteIds.writeId?_of_order ?_ found
  rw [writeIds, writeIds, references]
  exact StringTable.order_resolve_append (table_le_append numbering ends) holds.isSome_get? _

/-- The lines of `b` stand behind the empty table by themselves, and behind that of `a` here. -/
theorem behind_corresponds :
    List.Forall₂ (Outcome.Corresponds numbering numbering (compile numbering b).table
      (compile numbering (a ++ b)).table) (compile numbering b).outcomes
      (behind numbering a b) := by
  rw [compile_append_eq numbering ends]
  -- nothing is asked of the two tables
  exact (Outcome.ofLines_corresponds interningKeeps_any (Text.lines b.toList) trivial).2

end

/-- A unit that begins as `front` and goes on as `back`, with `lines` lines in front. -/
structure Extends (front back whole : ScriptUnit) (lines : Nat) : Prop where
  table : front.table.texts <+: whole.table.texts
  writeIds : ∀ id word, front.writeIds.writeId? id = some word →
    whole.writeIds.writeId? id = some word
  /-- The blocks in front keep their resolved code. -/
  resolved : ∃ codes : List (Array UInt32),
    front.blocks.map (·.resolve front.writeIds) = codes.map .ok ∧
      front.blocks.map (·.resolve whole.writeIds) = codes.map .ok
  blocks : ∃ more, whole.blocks = front.blocks ++ more ∧
    List.Forall₂ (Block.Renames back.table whole.table) back.blocks more
  diagnostics : ∃ more, whole.diagnostics = front.diagnostics ++ more ∧
    List.Forall₂ (AlikeReports back.table whole.table lines) back.diagnostics more

/-- Sources one behind the other, the first of which ends its last line.  What was compiled of it
stays, and the second one compiles as by itself, but for the ids of its strings. -/
theorem extends_of_append (numbering : Numbering) {a b : String}
    (ends : a = "" ∨ ∃ line, a = line ++ "\n") (short : (a ++ b).utf8ByteSize < 2 ^ 32) :
    Extends (compile numbering a) (compile numbering b) (compile numbering (a ++ b))
      (Text.lines a.toList).length := by
  have shorter : b.utf8ByteSize < 2 ^ 32 := by
    rw [String.utf8ByteSize_append] at short
    omega
  have kept : ∀ id word, (compile numbering a).writeIds.writeId? id = some word →
      (compile numbering (a ++ b)).writeIds.writeId? id = some word :=
    fun _ _ found => writeId?_append numbering ends found
  have same := behind_corresponds numbering ends (b := b)
  obtain ⟨data, holds⟩ := exists_holds numbering a
  refine ⟨table_le_append numbering ends, kept, ?_, ⟨_, blocks_append numbering ends, ?_⟩,
    ⟨_, diagnostics_append numbering ends, ?_⟩⟩
  · refine ⟨data.map fun d =>
      (d.code numbering (compile numbering a).writeWord).toArray, ?_, ?_⟩
    · rw [holds.resolve_blocks, List.map_map]
      rfl
    · rw [holds.resolve_blocks_of kept, List.map_map]
      rfl
  · refine (Outcome.blocks_of_corresponds same).imp ?_
    rintro block block' ⟨d, here, there⟩
    exact here.renames there (small_table_compile numbering shorter)
      (small_table_compile numbering short)
  · exact Outcome.diagnostics_of_corresponds same 1 (Text.lines a.toList).length

/-- A line that fails, a string that both sources have, and a report behind them. -/
theorem extends_of_append_shared :
    ("(oops \"b\"\n(say \"a\")\n" = "" ∨ ∃ line, "(oops \"b\"\n(say \"a\")\n" = line ++ "\n") ∧
      ("(oops \"b\"\n(say \"a\")\n" ++ "(set \"c\" 1)\n(f \"a\")").utf8ByteSize < 2 ^ 32 ∧
      Extends (compile .standard "(oops \"b\"\n(say \"a\")\n")
        (compile .standard "(set \"c\" 1)\n(f \"a\")")
        (compile .standard ("(oops \"b\"\n(say \"a\")\n" ++ "(set \"c\" 1)\n(f \"a\")"))
        (Text.lines "(oops \"b\"\n(say \"a\")\n".toList).length := by
  have ends : "(oops \"b\"\n(say \"a\")\n" = "" ∨
      ∃ line, "(oops \"b\"\n(say \"a\")\n" = line ++ "\n" :=
    .inr ⟨"(oops \"b\"\n(say \"a\")", by decide +kernel⟩
  have short : ("(oops \"b\"\n(say \"a\")\n" ++
      "(set \"c\" 1)\n(f \"a\")").utf8ByteSize < 2 ^ 32 := by decide +kernel
  exact ⟨ends, short, extends_of_append .standard ends short⟩

/-- The report about a literal in place of a name shows its id, which depends on the lines in
front. -/
theorem diagnostics_append_ne :
    "(say \"a\")\n" = "(say \"a\")" ++ "\n" ∧
      ("(say \"a\")\n" ++ "(set \"b\" 1)").utf8ByteSize < 2 ^ 32 ∧
      (compile .standard ("(say \"a\")\n" ++ "(set \"b\" 1)")).diagnostics ≠
        (compile .standard "(say \"a\")\n").diagnostics ++
          (compile .standard "(set \"b\" 1)").diagnostics.map
            (Diagnostic.shifted (Text.lines "(say \"a\")\n".toList).length) := by
  decide +kernel

end ScriptUnit

end Libretto.Script
