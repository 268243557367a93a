/-
Script units: a source with one form on each line.

The lines are independent of each other but for the string table that they share. A line without a
form is blank; every other line either makes a block or is reported and skipped.

* **`Outcome`** — what became of a line;
* **`ScriptUnit.compile`** — compiles a source line by line;
* **`ScriptUnit.blocks`**, **`diagnostics`**, **`log`** — what the outcomes show.

The log belongs to the unit, because ids keep their texts: the strings that a listing names when its
line is compiled are the same at the end.
-/
import Libretto.Diagnostic
import Libretto.Script.Assembly
import Libretto.Script.Form
import Libretto.Script.Instruction
import Libretto.Text.Lines

namespace Libretto.Script

/-- What becomes of a line. -/
inductive Outcome where
  /-- The line holds no token. -/
  | blank
  /-- The line has no tokens for a fault in a literal. -/
  | unreadable (error : TokenError)
  /-- The tokens of the line make no form. -/
  | malformed (error : FormError)
  /-- The form of the line does not compile. -/
  | faulty (form : Form) (error : CompileError)
  /-- The form of the line makes a block. -/
  | compiled (form : Form) (block : Block)

namespace Outcome

/-- The outcome of a line whose tokens are known, and the string table afterwards. -/
def ofTokens (numbering : Numbering) (tokens : List Token) (table : StringTable) :
    Outcome × StringTable :=
  match Form.ofTokens? tokens with
  | .error e => (malformed e, table)
  | .ok none => (blank, table)
  | .ok (some form) =>
    match form.expr.compile numbering table with
    | (.error e, table) => (faulty form e, table)
    | (.ok block, table) => (compiled form block, table)

/-- A line with its tabs turned into spaces. -/
def withoutTabs (line : List Char) : List Char :=
  line.map fun c => if c = '\t' then ' ' else c

/-- The outcome of a line, and the string table afterwards. -/
def ofLine (numbering : Numbering) (line : List Char) (table : StringTable) :
    Outcome × StringTable :=
  match tokenize (.ofList (withoutTabs line)) table with
  | (.error e, table) => (unreadable e, table)
  | (.ok tokens, table) => ofTokens numbering tokens table

/-- The outcomes of lines one after the other, and the string table afterwards. -/
def ofLines (numbering : Numbering) : List (List Char) → StringTable → List Outcome × StringTable
  | [], table => ([], table)
  | line :: rest, table =>
    let (outcome, table) := ofLine numbering line table
    let (outcomes, table) := ofLines numbering rest table
    (outcome :: outcomes, table)

/-- The block of a line. -/
def block? : Outcome → Option Block
  | compiled _ block => some block
  | _ => none

/-- The form of a line. -/
def form? : Outcome → Option Form
  | faulty form _ | compiled form _ => some form
  | _ => none

/-- The reason why a line is skipped. -/
def fault? : Outcome → Option String
  | blank | compiled .. => none
  | unreadable e => some e.message
  | malformed e => some e.message
  | faulty _ e => some e.message

/-- The warning about tokens behind a form. -/
def warnings (location : Location) (outcome : Outcome) : List Diagnostic :=
  match outcome.form? with
  | none => []
  | some form =>
    if form.trailing = 0 then []
    else [⟨.warning, location, s!"{form.trailing} token(s) after the first form ignored"⟩]

/-- The report about a line that is skipped. -/
def errors (location : Location) (outcome : Outcome) : List Diagnostic :=
  (outcome.fault?.map fun message => ⟨.error, location, message⟩).toList

/-- What is reported about a line at the given place. -/
def diagnostics (location : Location) (outcome : Outcome) : List Diagnostic :=
  outcome.warnings location ++ outcome.errors location

/-- The log of a line with the given number, in front of which `blocks` blocks were made. -/
def log (numbering : Numbering) (table : StringTable) (number blocks : Nat)
    (outcome : Outcome) : Log :=
  let form := outcome.form?.map fun form => ⟨.debug, s!"{blocks}: " ++ form.expr.text⟩
  let code := outcome.block?.bind fun block =>
    (listing numbering table.lookup block.code.toList).toOption.map fun text =>
      ⟨.trace, s!"block {blocks}:\n" ++ text⟩
  (outcome.warnings (.line number)).map Diagnostic.logEntry ++ form.toList ++ code.toList ++
    (outcome.errors (.line number)).map Diagnostic.logEntry

/-- The logs of consecutive lines, the first of which has the given number. -/
def logs (numbering : Numbering) (table : StringTable) (number blocks : Nat) : List Outcome → Log
  | [] => []
  | outcome :: rest =>
    outcome.log numbering table number blocks ++
      logs numbering table (number + 1) (blocks + outcome.block?.toList.length) rest

end Outcome

/-- A compiled script. -/
structure ScriptUnit where
  numbering : Numbering
  table : StringTable
  /-- What became of each line. -/
  outcomes : List Outcome

namespace ScriptUnit

/-- Compiles a source, one form on each line. -/
def compile (numbering : Numbering) (source : String) : ScriptUnit :=
  let (outcomes, table) := Outcome.ofLines numbering (Text.lines source.toList) .empty
  ⟨numbering, table, outcomes⟩

/-- The blocks of the lines that compiled. -/
def blocks (unit : ScriptUnit) : List Block :=
  unit.outcomes.filterMap Outcome.block?

/-- What is reported about the lines, in order, when line `n` is at the place `locate n`. -/
def diagnosticsAt (locate : Nat → Location) (unit : ScriptUnit) : List Diagnostic :=
  (unit.outcomes.zipIdx 1).flatMap fun (outcome, number) => outcome.diagnostics (locate number)

/-- What is reported about the lines of a source of its own. -/
def diagnostics (unit : ScriptUnit) : List Diagnostic :=
  unit.diagnosticsAt .line

/-- The strings that the blocks refer to, in code order. -/
def references (unit : ScriptUnit) : List StringId :=
  unit.blocks.flatMap Block.references

/-- The write ids of the unit. -/
def writeIds (unit : ScriptUnit) : WriteIds :=
  unit.table.resolve unit.references

/-- The log of the compilation. -/
def log (unit : ScriptUnit) : Log :=
  Outcome.logs unit.numbering unit.table 1 0 unit.outcomes ++
    [⟨.debug, s!"script unit: {unit.blocks.length} block(s), {unit.table.size} string(s), " ++
      s!"{unit.diagnostics.length} diagnostic(s)"⟩]

end ScriptUnit

end Libretto.Script
