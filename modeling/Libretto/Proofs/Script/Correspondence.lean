/-
The same lines in two units.

A line behaves alike under all numberings and behind all other lines: it is blank, reported or
compiled in both units, and if it is compiled its blocks hold one datum.

* **`AlikeMessages`** — messages that differ at most in the ids of literals;
* **`Outcome.Corresponds`** — what becomes of one line in two units;
* **`ofLine_corresponds`**, **`ofLines_corresponds`** — lines correspond to themselves, for any
  relation between the tables in front of them that interning keeps;
* **`blocks_of_corresponds`**, **`diagnostics_of_corresponds`** — hence so do the blocks of two
  units, and their reports.
-/
import Libretto.Proofs.Code.Alongside
import Libretto.Proofs.Script.Line
import Mathlib.Data.List.Forall2

namespace Libretto

/-- A place in a script, when lines are put in front of it. -/
def Location.shifted (lines : Nat) : Location → Location
  | line number => line (number + lines)
  | location => location

/-- A report about a script, when lines are put in front of it. -/
def Diagnostic.shifted (lines : Nat) (d : Diagnostic) : Diagnostic :=
  { d with location := d.location.shifted lines }

end Libretto

namespace Libretto.Script

/-- Messages that are the same, or that show an operand whose literals have other ids. -/
inductive AlikeMessages (table other : StringTable) : String → String → Prop where
  | same (message : String) : AlikeMessages table other message message
  | expectedName (keyword : Keyword) (d : Datum)
      (literals : ∀ text, .quoted text ∈ d.lexemes → text ∈ table.texts ∧ text ∈ other.texts) :
      AlikeMessages table other
        (CompileError.expectedName keyword (d.expr table.idOf).text).message
        (CompileError.expectedName keyword (d.expr other.idOf).text).message

theorem AlikeMessages.mono {table other later later' : StringTable} {message message' : String}
    (h : AlikeMessages table other message message') (le : table ≤ later) (le' : other ≤ later') :
    AlikeMessages later later' message message' := by
  cases h with
  | same => exact .same _
  | expectedName keyword d literals =>
    have left : d.expr table.idOf = d.expr later.idOf := Datum.expr_congr fun text mem =>
      (StringTable.idOf_of_le le (literals text mem).1).symm
    have right : d.expr other.idOf = d.expr later'.idOf := Datum.expr_congr fun text mem =>
      (StringTable.idOf_of_le le' (literals text mem).2).symm
    rw [left, right]
    refine .expectedName keyword d fun text mem => ?_
    exact ⟨StringTable.mem_of_le le (literals text mem).1,
      StringTable.mem_of_le le' (literals text mem).2⟩

theorem AlikeMessages.eq {table : StringTable} {message message' : String}
    (h : AlikeMessages table table message message') : message = message' := by
  cases h <;> rfl

theorem AlikeMessages.of_faults {table other : StringTable} {e f : CompileError}
    (h : CompileError.Alike (fun text => text ∈ table.texts ∧ text ∈ other.texts) table.idOf
      other.idOf e f) : AlikeMessages table other e.message f.message := by
  cases h with
  | same => exact .same _
  | expectedName keyword d literals => exact .expectedName keyword d literals

namespace Outcome

variable {first second : Numbering} {table other later later' : StringTable}

/-- What becomes of one line in two units: as many tokens are left over, the same is wrong, and the
blocks hold one datum. -/
structure Corresponds (first second : Numbering) (table other : StringTable)
    (outcome outcome' : Outcome) : Prop where
  trailing : outcome.form?.map Form.trailing = outcome'.form?.map Form.trailing
  faults : Option.Rel (AlikeMessages table other) outcome.fault? outcome'.fault?
  blocks : Option.Rel (fun block block' => ∃ d : Datum,
    block.Holds first table d ∧ block'.Holds second other d) outcome.block? outcome'.block?

theorem Corresponds.mono {outcome outcome' : Outcome}
    (h : Corresponds first second table other outcome outcome') (le : table ≤ later)
    (le' : other ≤ later') : Corresponds first second later later' outcome outcome' := by
  obtain ⟨trailing, faults, blocks⟩ := h
  refine ⟨trailing, ?_, ?_⟩
  · generalize outcome.fault? = fault at faults
    generalize outcome'.fault? = fault' at faults
    cases faults with
    | none => exact .none
    | some alike => exact .some (alike.mono le le')
  · generalize outcome.block? = block at blocks
    generalize outcome'.block? = block' at blocks
    cases blocks with
    | none => exact .none
    | some holds =>
      obtain ⟨d, here, there⟩ := holds
      exact .some ⟨d, here.mono le, there.mono le'⟩

variable {R : StringTable → StringTable → Prop}

/-- What two units make of one form. -/
theorem ofTokens_corresponds (keeps : InterningKeeps R) {lexemes : List Lexeme}
    (known : ∀ text, .quoted text ∈ lexemes → text ∈ table.texts ∧ text ∈ other.texts)
    (tables : R table other) :
    let left := ofTokens first (lexemes.map (Lexeme.token table.idOf)) table
    let right := ofTokens second (lexemes.map (Lexeme.token other.idOf)) other
    R left.2 right.2 ∧ Corresponds first second left.2 right.2 left.1 right.1 := by
  obtain ⟨reading, run, mem⟩ := ofTokens?_token lexemes
  simp only [ofTokens, run]
  rcases reading with e | (_ | ⟨d, trailing⟩)
  · exact ⟨tables, rfl, .some (.same _), .none⟩
  · exact ⟨tables, rfl, .none, .none⟩
  · -- the line was scanned before it is compiled, so both tables have its literals
    have literals : ∀ text, .quoted text ∈ d.lexemes → text ∈ table.texts ∧ text ∈ other.texts :=
      fun text here => known text (mem (d, trailing) rfl _ here)
    obtain ⟨related, runs⟩ := d.compile_alongside first second table.idOf other.idOf keeps literals
      tables
    have le := (d.compile_grows first table.idOf table).1
    have le' := (d.compile_grows second other.idOf other).1
    simp only [Except.map, Option.map_some]
    generalize hleft : (d.expr table.idOf).compile first table = left at related runs le
    generalize hright : (d.expr other.idOf).compile second other = right at related runs le'
    obtain ⟨result, later⟩ := left
    obtain ⟨result', later'⟩ := right
    obtain ⟨block, block', rfl, rfl⟩ | ⟨e, f, rfl, rfl, faults⟩ := runs
    · have holds := (Expr.compile_holds (fun text here => (literals text here).1) hleft).2
      have holds' := (Expr.compile_holds (fun text here => (literals text here).2) hright).2
      exact ⟨related, rfl, .none, .some ⟨d, holds, holds'⟩⟩
    · exact ⟨related, rfl, .some ((AlikeMessages.of_faults faults).mono le le'), .none⟩

/-- What two units make of one line. -/
theorem ofLine_corresponds (keeps : InterningKeeps R) (line : List Char)
    (tables : R table other) :
    R (ofLine first line table).2 (ofLine second line other).2 ∧
      Corresponds first second (ofLine first line table).2 (ofLine second line other).2
        (ofLine first line table).1 (ofLine second line other).1 := by
  have related : R (tableOfLine line table) (tableOfLine line other) := keeps.insertAll _ tables
  cases quote : (Scan.ofLine (withoutTabs line)).openQuote with
  | some column =>
    rw [ofLine_of_open quote, ofLine_of_open quote]
    exact ⟨related, rfl, .some (.same _), .none⟩
  | none =>
    rw [ofLine_of_closed quote, ofLine_of_closed quote]
    refine ofTokens_corresponds keeps ?_ related
    exact fun text mem => ⟨mem_tableOfLine mem table, mem_tableOfLine mem other⟩

theorem ofLines_cons (numbering : Numbering) (line : List Char) (rest : List (List Char))
    (table : StringTable) :
    ofLines numbering (line :: rest) table =
      ((ofLine numbering line table).1 ::
          (ofLines numbering rest (ofLine numbering line table).2).1,
        (ofLines numbering rest (ofLine numbering line table).2).2) := rfl

theorem le_ofLines (numbering : Numbering) (lines : List (List Char)) (table : StringTable) :
    table ≤ (ofLines numbering lines table).2 := by
  induction lines generalizing table with
  | nil => exact StringTable.le_refl table
  | cons line rest ih => exact StringTable.le_trans (ofLine_grows numbering line table).1 (ih _)

/-- What two units make of the same lines, each behind lines of its own. -/
theorem ofLines_corresponds (keeps : InterningKeeps R) (lines : List (List Char))
    (tables : R table other) :
    R (ofLines first lines table).2 (ofLines second lines other).2 ∧
      List.Forall₂ (Corresponds first second (ofLines first lines table).2
        (ofLines second lines other).2) (ofLines first lines table).1
        (ofLines second lines other).1 := by
  induction lines generalizing table other with
  | nil => exact ⟨tables, .nil⟩
  | cons line rest ih =>
    obtain ⟨related, here⟩ := ofLine_corresponds keeps line tables
    obtain ⟨last, behind⟩ := ih related
    rw [ofLines_cons, ofLines_cons]
    -- what the first line says, it says of the tables of the last line as well
    refine ⟨last, .cons (here.mono ?_ ?_) behind⟩
    · exact le_ofLines first rest _
    · exact le_ofLines second rest _

end Outcome

/-- Reports that differ in the number of their line, and at most in the ids of literals. -/
structure AlikeReports (table other : StringTable) (lines : Nat) (d d' : Diagnostic) : Prop where
  severity : d'.severity = d.severity
  location : d'.location = d.location.shifted lines
  message : AlikeMessages table other d.message d'.message

theorem AlikeReports.eq {table : StringTable} {d d' : Diagnostic}
    (h : AlikeReports table table 0 d d') : d = d' := by
  have location : d'.location = d.location := by
    rw [h.location]
    cases d.location <;> rfl
  have severity := h.severity
  have message := h.message.eq
  cases d
  cases d'
  simp_all

namespace Outcome

variable {first second : Numbering} {table other : StringTable}

theorem blocks_of_corresponds {outcomes outcomes' : List Outcome}
    (h : List.Forall₂ (Corresponds first second table other) outcomes outcomes') :
    List.Forall₂ (fun block block' => ∃ d : Datum,
      block.Holds first table d ∧ block'.Holds second other d)
      (outcomes.filterMap block?) (outcomes'.filterMap block?) :=
  List.rel_filterMap (fun _ _ here => here.blocks) h

theorem Corresponds.diagnostics {outcome outcome' : Outcome}
    (h : Corresponds first second table other outcome outcome') (number lines : Nat) :
    List.Forall₂ (AlikeReports table other lines) (outcome.diagnostics (.line number))
      (outcome'.diagnostics (.line (number + lines))) := by
  refine List.rel_append ?_ ?_
  · have trailing := h.trailing
    unfold warnings
    generalize outcome.form? = form at trailing
    generalize outcome'.form? = form' at trailing
    cases form with
    | none =>
      obtain rfl : form' = none := by simpa using trailing.symm
      exact .nil
    | some form =>
      cases form' with
      | none => cases trailing
      | some form' =>
        have same : form.trailing = form'.trailing := Option.some.inj trailing
        simp only [same]
        split
        · exact .nil
        · exact .cons ⟨rfl, rfl, .same _⟩ .nil
  · have faults := h.faults
    unfold errors
    generalize outcome.fault? = fault at faults
    generalize outcome'.fault? = fault' at faults
    cases faults with
    | none => exact .nil
    | some alike => exact .cons ⟨rfl, rfl, alike⟩ .nil

theorem diagnostics_of_corresponds {outcomes outcomes' : List Outcome}
    (h : List.Forall₂ (Corresponds first second table other) outcomes outcomes')
    (number lines : Nat) :
    List.Forall₂ (AlikeReports table other lines)
      ((outcomes.zipIdx number).flatMap fun (outcome, number) =>
        outcome.diagnostics (.line number))
      ((outcomes'.zipIdx (number + lines)).flatMap fun (outcome, number) =>
        outcome.diagnostics (.line number)) := by
  induction h generalizing number with
  | nil => exact .nil
  | cons here _ ih =>
    rw [List.zipIdx_cons, List.zipIdx_cons, List.flatMap_cons, List.flatMap_cons,
      Nat.add_right_comm]
    exact List.rel_append (here.diagnostics number lines) (ih (number + 1))

end Outcome

end Libretto.Script
