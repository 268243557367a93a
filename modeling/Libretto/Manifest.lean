/-
Build manifests: which sources make up a project, and what becomes of each.

* **`Manifest`** — an optional file of opcode definitions, and the units;
* **`UnitKind.ofPath`**, **`defaultOutput`** — what holds for a unit that does not say otherwise;
* **`ManifestUnit.resolve`** — a unit with all defaults applied;
* **`listingPath`** — where the listing of a unit goes.
-/
import Libretto.Path

namespace Libretto

/-- What a source is compiled as. -/
inductive UnitKind where
  | script
  | drama
  deriving DecidableEq, Repr, Inhabited

namespace UnitKind

/-- The name of a kind in a manifest. -/
def name : UnitKind → String
  | script => "script"
  | drama => "drama"

/-- The kind of a name. -/
def ofName? (name : String) : Option UnitKind :=
  [script, drama].find? fun kind => kind.name == name

/-- The name of a kind in the log. -/
def title : UnitKind → String
  | script => "Script"
  | drama => "Drama"

/-- A source with the extension `drama` is a dialogue, any other one a script. -/
def ofPath (source : Path) : UnitKind :=
  if source.extension? = some "drama".toList then drama else script

/-- The extension of an output. -/
def extension : UnitKind → String
  | script => "plop"
  | drama => "drac"

/-- The output of a source that does not name one: the name of the source, with the extension of the
kind. -/
def defaultOutput (kind : UnitKind) (source : Path) : Path :=
  source.stemWithExtension kind.extension.toList

end UnitKind

/-- A unit as a manifest lists it. -/
structure ManifestUnit where
  source : Path
  kind : Option UnitKind
  output : Option Path
  deriving DecidableEq, Repr

/-- The units of a project, and where its opcode definitions are. -/
structure Manifest where
  opcodes : Option Path
  units : List ManifestUnit
  deriving DecidableEq, Repr

/-- A unit with all defaults applied: the source is seen from the directory of the manifest, the
output from the output directory. -/
structure UnitPlan where
  kind : UnitKind
  source : Path
  output : Path
  deriving DecidableEq, Repr

/-- Applies the defaults to a unit of a manifest in a directory. -/
def ManifestUnit.resolve (directory : Path) (unit : ManifestUnit) : UnitPlan :=
  let kind := unit.kind.getD (.ofPath unit.source)
  ⟨kind, directory.join unit.source, unit.output.getD (kind.defaultOutput unit.source)⟩

/-- The manifest of a single source. -/
def Manifest.ofSource (source : Path) : Manifest :=
  ⟨none, [⟨source, none, none⟩]⟩

/-- Where the listing of an output goes: beside it, with `.dis` behind its name. -/
def listingPath (directory output : Path) : Path :=
  directory.join ⟨output.text ++ ".dis"⟩

end Libretto
