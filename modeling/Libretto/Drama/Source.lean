/-
Dialogue sources.

A dialogue is written as markup inside the comments of another file, so a line may begin with the
mark `;$`. The lines, freed from marks and indentation, make one document under a root element of
their own.

* **`markupLine`** — what a source line contributes;
* **`markupOfSource`** — the markup of a source.
-/
import Libretto.Text.Blank
import Libretto.Text.Lines

namespace Libretto.Drama

/-- The text without the comment mark that may open it. -/
def withoutMark : List Char → List Char
  | ';' :: '$' :: rest => rest
  | text => text

/-- What a line contributes to the markup: tabs are spaces, and one mark and the blanks on either
side of it are dropped. -/
def markupLine (line : List Char) : List Char :=
  let line := line.map fun c => if c = '\t' then ' ' else c
  Text.trimStart (withoutMark (Text.trimStart line))

/-- The markup of lines: each that is not empty, with a line feed. -/
def markupLines : List (List Char) → List Char
  | [] => []
  | line :: rest =>
    match markupLine line with
    | [] => markupLines rest
    | text => text ++ '\n' :: markupLines rest

/-- The markup of a source. -/
def markupOfSource (source : String) : List Char :=
  "<drama>\n".toList ++ markupLines (Text.lines source.toList) ++ "</drama>\n".toList

end Libretto.Drama
