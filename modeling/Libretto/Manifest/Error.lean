/-
Faults in manifests.

* **`DataFault`** — JSON that does not describe a manifest;
* **`ManifestError`** — anything that keeps a text from being read as a manifest.
-/
import Libretto.Manifest.Token
import Libretto.Text.Quoted

namespace Libretto.Manifest

/-- What stands where something else is expected. -/
inductive Found where
  | scalar (value : Scalar)
  | map
  | sequence
  deriving DecidableEq, Repr

/-- A value as a report names it. -/
def Found.text : Found → String
  | scalar .null => "null"
  | scalar (.boolean value) => s!"boolean `{value}`"
  | scalar (.number (.integer value)) => s!"integer `{value}`"
  | scalar (.number value) => "floating point `" ++ value.text ++ "`"
  | scalar (.string value) => "string " ++ Text.quoted value
  | map => "map"
  | sequence => "sequence"

/-- What may stand in a place of a manifest. -/
inductive Expected where
  | manifest
  | unit
  | units
  | path
  /-- Nothing, as the value of a kind written as an object. -/
  | nothing
  deriving DecidableEq, Repr

/-- An expectation as a report names it. -/
def Expected.text : Expected → String
  | manifest => "struct Manifest"
  | unit => "struct ManifestUnit"
  | units => "a sequence"
  | path => "path string"
  | nothing => "unit"

/-- The two kinds of objects in a manifest. -/
inductive Record where
  | manifest
  | unit
  deriving DecidableEq, Repr

/-- The fields of an object as a report lists them. -/
def Record.fieldsText : Record → String
  | manifest => "`opcodes` or `units`"
  | unit => "one of `source`, `kind`, `output`"

/-- The size of an object written as a list, as a report names it. -/
def Record.sizeText : Record → String
  | manifest => "struct Manifest with 2 elements"
  | unit => "struct ManifestUnit with 3 elements"

/-- Why JSON does not describe a manifest. -/
inductive DataFault where
  | invalidType (found : Found) (expected : Expected)
  /-- A list with too few of the fields of an object. -/
  | tooShort (length : Nat) (record : Record)
  | missingField (name : String)
  | duplicateField (name : String)
  | unknownField (name : String) (record : Record)
  | unknownKind (name : String)
  deriving DecidableEq, Repr

/-- The wording of a fault in the data of a manifest. -/
def DataFault.message : DataFault → String
  | invalidType found expected => "invalid type: " ++ found.text ++ ", expected " ++ expected.text
  | tooShort length record => s!"invalid length {length}, expected " ++ record.sizeText
  | missingField name => s!"missing field `{name}`"
  | duplicateField name => s!"duplicate field `{name}`"
  | unknownField name record => s!"unknown field `{name}`, expected " ++ record.fieldsText
  | unknownKind name => s!"unknown variant `{name}`, expected `script` or `drama`"

end Manifest

/-- Why a text is no manifest. -/
inductive ManifestError where
  | text (fault : Manifest.TextFault)
  | data (fault : Manifest.DataFault)
  | noUnits
  deriving DecidableEq, Repr

/-- The wording of a fault in a manifest. -/
def ManifestError.message : ManifestError → String
  | text .malformed => "malformed JSON"
  | text .cutOff => "the JSON ends too soon"
  | data fault => fault.message
  | noUnits => "manifest lists no units"

end Libretto
