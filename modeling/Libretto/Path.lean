/-
Paths of files.

A path is text; slashes separate its components. Empty components, and components that are a single
dot, do not count, except for a dot that begins a path.

* **`Path.join`** — a path seen from a directory;
* **`Path.fileName?`**, **`stem?`**, **`extension?`** — the last component and its parts;
* **`Path.parent?`** — the path without its last component;
* **`Path.stemWithExtension`** — the stem with another extension, and nothing in front.

The extension of a name begins behind its last dot. A dot that begins a name begins no extension.
-/

namespace Libretto

/-- A path of a file or directory, as it is written. -/
structure Path where
  text : String
  deriving DecidableEq, Repr, Inhabited

namespace Path

/-- The characters of a path. -/
def chars (path : Path) : List Char :=
  path.text.toList

/-- The path of the given characters. -/
def ofChars (chars : List Char) : Path :=
  ⟨.ofList chars⟩

/-- A path that does not depend on a directory. -/
def isAbsolute (path : Path) : Bool :=
  path.chars.head? = some '/'

/-- A path seen from a directory: an absolute one is unchanged, and nothing is put in front of any
when the directory has no name. -/
def join (directory path : Path) : Path :=
  if path.isAbsolute || directory.text.isEmpty then path
  else if directory.chars.getLast? = some '/' then ⟨directory.text ++ path.text⟩
  else ⟨directory.text ++ "/" ++ path.text⟩

/-! ### Components -/

/-- The last component of a text and what stands in front of the slash before it. -/
def splitLast (text : List Char) : List Char × List Char :=
  let reversed := text.reverse
  let name := reversed.takeWhile (· ≠ '/')
  ((reversed.drop (name.length + 1)).reverse, name.reverse)

/-- A component that does not count. -/
def isVoid (component : List Char) : Bool :=
  component = [] || component = ['.']

theorem length_splitLast_lt {text : List Char} (h : text ≠ []) :
    (splitLast text).1.length < text.length := by
  have := List.length_pos_iff.2 h
  simp [splitLast]
  omega

/-- A text without the components at its end that do not count. -/
def dropVoid (text : List Char) : List Char :=
  if _h : text = [] then []
  else if isVoid (splitLast text).2 then dropVoid (splitLast text).1
  else text
termination_by text.length
decreasing_by exact length_splitLast_lt _h

/-- The character that begins a path and counts by itself: the slash of an absolute path, or a dot
that is a component; and the text behind it. -/
def splitLead : List Char → List Char × List Char
  | '/' :: rest => (['/'], rest)
  | ['.'] => (['.'], [])
  | '.' :: '/' :: rest => (['.'], '/' :: rest)
  | text => ([], text)

/-- The name of the file or directory that a path leads to, if the path ends with a name. -/
def fileName? (path : Path) : Option (List Char) :=
  let (_, body) := splitLead path.chars
  match dropVoid body with
  | [] => none
  | body =>
    let name := (splitLast body).2
    if name = ['.', '.'] then none else some name

/-- The path without its last component. The root and the path without components have none. -/
def parent? (path : Path) : Option Path :=
  let (lead, body) := splitLead path.chars
  match dropVoid body with
  | [] => if lead = ['.'] then some ⟨""⟩ else none
  | body => some (.ofChars (lead ++ dropVoid (splitLast body).1))

/-! ### Extensions -/

/-- The stem of a name and, behind its last dot, the extension. -/
def splitExtension (name : List Char) : List Char × Option (List Char) :=
  let reversed := name.reverse
  let extension := reversed.takeWhile (· ≠ '.')
  match reversed.drop (extension.length + 1) with
  | [] => (name, none)
  | stem => (stem.reverse, some extension.reverse)

/-- The name without its extension. -/
def stem? (path : Path) : Option (List Char) :=
  path.fileName?.map fun name => (splitExtension name).1

/-- The extension of the name. -/
def extension? (path : Path) : Option (List Char) :=
  path.fileName?.bind fun name => (splitExtension name).2

/-- Two dots are no name, and neither is one. -/
def isDots (name : List Char) : Bool :=
  name = ['.'] || name = ['.', '.']

/-- A name with another extension in place of its own. A name of dots only stays as it is, also if
it is what the old extension leaves. -/
def replaceExtension (name extension : List Char) : List Char :=
  if isDots name then name
  else
    let dotted := match (splitExtension name).2 with
      | some old => name.take (name.length - old.length)
      | none => name
    if isDots dotted then dotted else (splitExtension dotted).1 ++ '.' :: extension

/-- The path of a name with another extension in place of its own; a path without a name stays as it
is, whatever else it holds. -/
def stemWithExtension (path : Path) (extension : List Char) : Path :=
  match path.stem? with
  | none => path
  | some stem => .ofChars (replaceExtension stem extension)

end Path

end Libretto
