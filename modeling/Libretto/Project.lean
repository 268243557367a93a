/-
Projects: the sources of a build with the numbering they are compiled for, and what they compile to.

* **`Project.load`** — reads a project from a manifest or a single source; it only reads files;
* **`SourceUnit.compile`** — compiles one source;
* **`CompiledUnit.bytes`** — the container of a compiled source.
-/
import Libretto.Binary.DramaLayout
import Libretto.Job
import Libretto.Manifest.Decoding

namespace Libretto

variable {m : Type → Type} [Monad m]

/-- A source with its text. -/
structure SourceUnit where
  plan : UnitPlan
  text : String

/-- The sources of a build, and the numbering they are compiled for. -/
structure Project where
  numbering : Numbering
  units : List SourceUnit

/-! ### Loading -/

/-- Reads opcode definitions; without any the numbering is the standard one. -/
def loadNumbering (read : FileReader m) : Option Path → Job m Numbering
  | none => return .standard
  | some path => do
    let text ← Job.readText read path
    let numbering ← Job.during (.loadingOpcodes path)
      (.ofExcept Cause.definitions (Numbering.ofText text))
    Job.inform ("opcodes loaded from " ++ path.text)
    return numbering

/-- An input with the extension `json` is a manifest, any other one a source. -/
def isManifest (input : Path) : Bool :=
  input.extension? = some "json".toList

/-- The manifest of an input, and the directory from which its paths are seen. -/
def loadManifest (read : FileReader m) (input : Path) : Job m (Path × Manifest) := do
  if isManifest input then
    let text ← Job.readText read input
    let manifest ← Job.during (.parsingManifest input)
      (.ofExcept Cause.manifest (Manifest.ofText text))
    return (input.parent?.getD ⟨""⟩, manifest)
  else return (⟨""⟩, .ofSource input)

/-- Reads the source of a unit. -/
def loadUnit (read : FileReader m) (directory : Path) (unit : ManifestUnit) : Job m SourceUnit := do
  let plan := unit.resolve directory
  let text ← Job.readText read plan.source
  Job.record [⟨.debug, plan.source.text ++ " (" ++ plan.kind.title ++
    s!", {text.utf8ByteSize} bytes) -> " ++ plan.output.text⟩]
  return ⟨plan, text⟩

/-- Loads a project. Opcode definitions that are given replace those of the manifest. -/
def Project.load (read : FileReader m) (input : Path) (opcodes : Option Path) : Job m Project :=
  Job.during (.loading input) do
    let (directory, manifest) ← loadManifest read input
    let numbering ← loadNumbering read (opcodes <|> manifest.opcodes.map directory.join)
    let units ← manifest.units.mapM (loadUnit read directory)
    Job.inform s!"loaded {units.length} unit(s)"
    return ⟨numbering, units⟩

/-! ### Compiling -/

/-- What a source compiles to. -/
inductive CompiledUnit where
  | script (unit : Script.ScriptUnit)
  | drama (document : Drama.Document)

namespace CompiledUnit

/-- What is reported about the source. -/
def diagnostics : CompiledUnit → List Diagnostic
  | script unit => unit.diagnostics
  | drama document => document.diagnostics

/-- What the unit puts into its container. -/
def contents : CompiledUnit → Binary.Contents
  | script unit => Binary.ofScript unit
  | drama document => Binary.ofDocument document

/-- The container of the unit. -/
def bytes (unit : CompiledUnit) : Except Binary.ExportError (Array UInt8) :=
  unit.contents.bytes

end CompiledUnit

/-- A compiled source and where its container goes. -/
structure Artifact where
  plan : UnitPlan
  unit : CompiledUnit

namespace SourceUnit

/-- Compiles the text of a source as its kind demands. -/
def compileText (numbering : Numbering) (source : SourceUnit) : Job m CompiledUnit :=
  match source.plan.kind with
  | .script => do
    let unit := Script.ScriptUnit.compile numbering source.text
    Job.record unit.log
    return .script unit
  | .drama => do
    let reading := Drama.Reading.ofSource source.text
    Job.record reading.log
    let document ← Job.during (.compiling source.plan.source)
      (.ofExcept Cause.markup (reading.document numbering))
    Job.record document.log
    return .drama document

/-- Compiles a source. -/
def compile (numbering : Numbering) (source : SourceUnit) : Job m Artifact := do
  let unit ← source.compileText numbering
  Job.inform (source.plan.source.text ++ s!": {unit.diagnostics.length} diagnostic(s)")
  return ⟨source.plan, unit⟩

end SourceUnit

/-- Compiles the sources of a project in order. The first one that is no dialogue although it should
be fails the whole project. -/
def Project.compile (project : Project) : Job m (List Artifact) :=
  Job.during .compilingUnits (project.units.mapM (SourceUnit.compile project.numbering))

end Libretto
