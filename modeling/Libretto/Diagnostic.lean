/-
Diagnostics: what a compiled unit reports about parts of its source that it skipped or that look
suspicious. They never stop a compilation.

* **`Location`** — where a diagnostic points;
* **`Diagnostic.text`** — its line in a report;
* **`Diagnostic.logEntry`** — its message in the log.
-/
import Libretto.Log

namespace Libretto

/-- Where a diagnostic points. -/
inductive Location where
  /-- A line of a script, counted from 1. -/
  | line (number : Nat)
  /-- A node of a dialogue, counted from 0 in document order. -/
  | node (ordinal : Nat)
  /-- A line of a snippet of a dialogue. -/
  | snippet (index : Nat) (line : Nat)
  deriving DecidableEq, Repr

/-- The text of a location. -/
def Location.text : Location → String
  | line number => s!"line {number}"
  | node ordinal => s!"node #{ordinal}"
  | snippet index row => s!"snippet {index}, line {row}"

/-- Whether something was skipped. -/
inductive Severity where
  /-- The line or node was skipped. -/
  | error
  | warning
  deriving DecidableEq, Repr

/-- The word for a severity in a report. -/
def Severity.text : Severity → String
  | error => "error"
  | warning => "warning"

/-- The log level of a severity. -/
def Severity.level : Severity → Level
  | error => .error
  | warning => .warn

/-- A report about one place of a source. -/
structure Diagnostic where
  severity : Severity
  location : Location
  message : String
  deriving DecidableEq, Repr

/-- The line of a diagnostic in a report. -/
def Diagnostic.text (d : Diagnostic) : String :=
  d.severity.text ++ ": " ++ d.location.text ++ ": " ++ d.message

/-- The message of a diagnostic in the log. -/
def Diagnostic.logEntry (d : Diagnostic) : LogEntry :=
  ⟨d.severity.level, d.location.text ++ ": " ++ d.message⟩

end Libretto
