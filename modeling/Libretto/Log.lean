/-
Log messages.

* **`Level`** — how severe a message is, most severe first;
* **`LogEntry`** — a level and a text;
* **`Log.atLeast`** — the messages that a threshold lets through.
-/

namespace Libretto

/-- The severity of a message. -/
inductive Level where
  | error
  | warn
  | info
  | debug
  | trace
  deriving DecidableEq, Repr, Inhabited

/-- The place of a level, the most severe one first. -/
def Level.rank : Level → Nat
  | error => 0
  | warn => 1
  | info => 2
  | debug => 3
  | trace => 4

/-- The name of a level in log lines. -/
def Level.name : Level → String
  | error => "ERROR"
  | warn => "WARN"
  | info => "INFO"
  | debug => "DEBUG"
  | trace => "TRACE"

/-- A message with its level. -/
structure LogEntry where
  level : Level
  message : String
  deriving DecidableEq, Repr

/-- The line of a message in a log. -/
def LogEntry.line (entry : LogEntry) : String :=
  entry.level.name ++ ": " ++ entry.message

/-- Messages in the order in which they arose. -/
abbrev Log := List LogEntry

/-- The messages that are at least as severe as the threshold. -/
def Log.atLeast (threshold : Level) (log : Log) : Log :=
  log.filter fun entry => entry.level.rank ≤ threshold.rank

end Libretto
