/-
Builds, and the inspection of what they wrote.

A build loads its project, compiles it and lays out every container before it writes a file; so a
failure up to there leaves the files as they are.

* **`build`** — writes the containers of a project, and on demand listings and opcode definitions;
* **`inspect`** — the listing of a container in a file;
* **`Invocation.run`** — does what a command line asks for.
-/
import Libretto.Binary.Listing
import Libretto.CommandLine
import Libretto.Project

namespace Libretto

open CommandLine (BuildOptions Invocation)

variable {m : Type → Type} [Monad m]

/-! ### Outputs -/

namespace Artifact

/-- Where the container goes. -/
def path (directory : Path) (artifact : Artifact) : Path :=
  directory.join artifact.plan.output

/-- Where the listing of the container goes. -/
def listingPath (directory : Path) (artifact : Artifact) : Path :=
  Libretto.listingPath directory artifact.plan.output

/-- Lays out the container. -/
def layOut (artifact : Artifact) : Job m (Array UInt8) :=
  Job.during (.layingOut artifact.plan.source) (.ofExcept Cause.layout artifact.unit.bytes)

/-- The listing of the container, made from its bytes. -/
def listing (numbering : Numbering) (artifact : Artifact) : Job m String := do
  let bytes ← Job.ofExcept .layout artifact.unit.bytes
  let view ← Job.during (.readingBack artifact.plan.output)
    (.ofExcept Cause.view (Binary.View.ofBytes bytes))
  Job.ofExcept .decode (view.listing numbering)

end Artifact

/-- Writes a file. -/
def writeBytes (files : FileSystem m) (path : Path) (bytes : Array UInt8) : Job m Unit :=
  Job.during (.writing path) (Job.access (files.write path bytes))

/-- Writes the container of each artifact, once all of them are laid out. -/
def writeBinaries (files : FileSystem m) (directory : Path) (artifacts : List Artifact) :
    Job m Unit :=
  Job.during .writingBinaries do
    let containers ← artifacts.mapM fun artifact =>
      return (artifact.path directory, ← artifact.layOut)
    containers.forM fun (path, bytes) => do
      writeBytes files path bytes
      Job.inform ("wrote " ++ path.text ++ s!" ({bytes.size} bytes)")

/-- Writes the listing of each artifact. -/
def writeListings (files : FileSystem m) (directory : Path) (numbering : Numbering)
    (artifacts : List Artifact) : Job m Unit :=
  Job.during .writingListings <| artifacts.forM fun artifact => do
    let text ← artifact.listing numbering
    let path := artifact.listingPath directory
    writeBytes files path text.toUTF8.data
    Job.inform ("wrote " ++ path.text)

/-- Writes the definitions of a numbering. -/
def writeDefinitions (files : FileSystem m) (directory : Path) (numbering : Numbering) :
    Job m Unit :=
  Job.during .writingDefinitions
    (Job.access (files.write (directory.join ⟨Numbering.fileName⟩) numbering.text.toUTF8.data))

/-! ### Commands -/

/-- Builds a project into a directory. -/
def build (files : FileSystem m) (options : BuildOptions) : Job m Unit := do
  let project ← Project.load files.read options.input options.opcodes
  let artifacts ← project.compile
  Job.during (.creating options.output) (Job.access (files.createDirectories options.output))
  writeBinaries files options.output artifacts
  if options.listings then writeListings files options.output project.numbering artifacts
  if options.definitions then writeDefinitions files options.output project.numbering

/-- The listing of the container in a file. -/
def inspect (read : FileReader m) (file : Path) (opcodes : Option Path) : Job m String := do
  let numbering ← loadNumbering read opcodes
  let bytes ← Job.readBytes read file
  let view ← Job.during (.decoding file) (.ofExcept Cause.view (Binary.View.ofBytes bytes))
  Job.during (.disassembling file) (.ofExcept Cause.decode (view.listing numbering))

/-- Does what a command line asks for; gives the text to print. -/
def CommandLine.Invocation.run (files : FileSystem m) (invocation : Invocation) : Job m String :=
  match invocation.command with
  | .build options => do
    build files options
    return ""
  | .info file opcodes => inspect files.read file opcodes

end Libretto
