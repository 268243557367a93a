/-
Faults in markup.

* **`Fault`** — what is wrong, without the place;
* **`MarkupError`** — a fault and the byte where it is found;
* **`MarkupError.links`** — its message and those of its causes, outermost first.
-/
import Libretto.Markup.Entity

namespace Libretto.Markup

/-- What a left angle bracket opens, other than text. -/
inductive Construct where
  | tag
  | comment
  | cdata
  | doctype
  | instruction
  deriving DecidableEq, Repr

/-- The name of a construct in messages. -/
def Construct.name : Construct → String
  | tag => "tag"
  | comment => "comment"
  | cdata => "CDATA"
  | doctype => "DOCTYPE"
  | instruction => "processing instruction or xml declaration"

/-- The characters that close a construct. -/
def Construct.ending : Construct → String
  | tag | doctype => ">"
  | comment => "-->"
  | cdata => "]]>"
  | instruction => "?>"

/-- What is wrong with markup. -/
inductive Fault where
  | unclosed (construct : Construct)
  /-- An exclamation mark opens none of the constructs. -/
  | unknownMarkup
  | mismatchedEnd (expected : String) (found : String)
  | unmatchedEnd (found : String)
  | missingDoctypeName
  | escape (fault : EscapeFault)
  deriving DecidableEq, Repr

/-- The classes of faults: the letters of the markup, the nesting of its elements, or a reference.
-/
inductive FaultClass where
  | lexical
  | structural
  | escape
  deriving DecidableEq, Repr

namespace Fault

/-- The class of a fault. -/
def faultClass : Fault → FaultClass
  | unclosed _ | unknownMarkup => .lexical
  | mismatchedEnd .. | unmatchedEnd _ | missingDoctypeName => .structural
  | escape _ => .escape

/-- The wording of a fault without its class. -/
def detail : Fault → String
  | unclosed construct =>
    construct.name ++ " not closed: `" ++ construct.ending ++ "` not found before end of input"
  | unknownMarkup => "unknown or missed symbol in markup"
  | mismatchedEnd expected found => s!"expected `</{expected}>`, but `</{found}>` was found"
  | unmatchedEnd found => s!"close tag `</{found}>` does not match any open tag"
  | missingDoctypeName => "`<!DOCTYPE>` declaration does not contain a name of a document type"
  | escape fault => fault.message

/-- The wording of a fault. -/
def message (fault : Fault) : String :=
  match fault.faultClass with
  | .lexical => "syntax error: " ++ fault.detail
  | .structural => "ill-formed document: " ++ fault.detail
  | .escape => fault.detail

/-- The wordings of the causes of a fault, outermost first. -/
def causes : Fault → List String
  | escape (.reference (.number error)) => [error.message, error.message]
  | escape (.reference fault) => [fault.message]
  | _ => []

end Fault

/-- A fault, and the byte of the markup where it is found. -/
structure MarkupError where
  position : Nat
  fault : Fault
  deriving DecidableEq, Repr

/-- The wording of a fault with its place. -/
def MarkupError.message (error : MarkupError) : String :=
  s!"malformed dialogue markup at byte {error.position}: " ++ error.fault.message

/-- The message of an error and those of its causes, outermost first. -/
def MarkupError.links (error : MarkupError) : List String :=
  error.message :: error.fault.message :: error.fault.detail :: error.fault.causes

end Libretto.Markup
