/-
Jobs: work that may fail, and that keeps a log whether it fails or not.

* **`Activity`** — what a job was doing when it failed;
* **`Failure`** — the cause, and the activities around it;
* **`Job.during`** — names an activity;
* **`Failure.links`** — a failure as a chain of messages, outermost first.
-/
import Libretto.Binary.Stream
import Libretto.Binary.View
import Libretto.FileSystem
import Libretto.Log
import Libretto.Manifest.Error
import Libretto.Markup.Fault
import Libretto.Opcode.Definitions
import Libretto.Script.Instruction

namespace Libretto

/-- What a job is doing. -/
inductive Activity where
  /-- Loading a project from a manifest or a single source. -/
  | loading (input : Path)
  | reading (path : Path)
  | parsingManifest (path : Path)
  | loadingOpcodes (path : Path)
  | compilingUnits
  | compiling (source : Path)
  | creating (directory : Path)
  | writingBinaries
  | layingOut (source : Path)
  | writing (path : Path)
  | writingListings
  | readingBack (output : Path)
  | writingDefinitions
  | decoding (path : Path)
  | disassembling (path : Path)
  deriving DecidableEq, Repr

/-- The wording of an activity. -/
def Activity.text : Activity → String
  | loading input => "Loading " ++ input.text
  | reading path => "Reading " ++ path.text
  | parsingManifest path => "Parsing manifest " ++ path.text
  | loadingOpcodes path => "Loading opcodes from " ++ path.text
  | compilingUnits => "Compiling scripts and dramas"
  | compiling source => "Compiling " ++ source.text
  | creating directory => "Creating " ++ directory.text
  | writingBinaries => "Writing binary artifacts"
  | layingOut source => "Laying out " ++ source.text
  | writing path => "Writing " ++ path.text
  | writingListings => "Writing listings"
  | readingBack output => "Reading back " ++ output.text
  | writingDefinitions => "Writing opcode include"
  | decoding path => "Decoding " ++ path.text
  | disassembling path => "Disassembling " ++ path.text

/-- What makes a job fail. -/
inductive Cause where
  | file (error : FileError)
  | manifest (error : ManifestError)
  | definitions (error : DefinitionError)
  | markup (error : Markup.MarkupError)
  | layout (error : Binary.ExportError)
  | view (error : Binary.ViewError)
  | decode (error : Script.DecodeError)
  deriving DecidableEq, Repr

/-- The messages of a cause, outermost first. -/
def Cause.links : Cause → List String
  | file error => [error.message]
  | manifest error => [error.message]
  | definitions error => [error.message]
  | markup error => error.links
  | layout error => [error.message]
  | view error => [error.message]
  | decode error => [error.message]

/-- A cause and the activities in which it arose, outermost first. -/
structure Failure where
  activities : List Activity
  cause : Cause
  deriving DecidableEq, Repr

/-- The messages of a failure, outermost first. -/
def Failure.links (failure : Failure) : List String :=
  failure.activities.map Activity.text ++ failure.cause.links

/-- Work that may fail, with a log that stays when it does. -/
abbrev Job (m : Type → Type) := ExceptT Failure (StateT Log m)

namespace Job

variable {m : Type → Type} [Monad m] {α ε : Type}

/-- Names the activity of a job in its failures. -/
def during (activity : Activity) (job : Job m α) : Job m α :=
  job.adapt fun failure => { failure with activities := activity :: failure.activities }

/-- Takes a result over, or fails with its error. -/
def ofExcept (cause : ε → Cause) : Except ε α → Job m α
  | .ok value => pure value
  | .error error => throw ⟨[], cause error⟩

/-- Adds messages to the log. -/
def record (log : Log) : Job m Unit :=
  modifyThe Log (· ++ log)

/-- Adds a message for those who follow the work. -/
def inform (message : String) : Job m Unit :=
  record [⟨.info, message⟩]

/-- Runs a file operation. -/
def access (operation : m (Except FileError α)) : Job m α := do
  let result : Except FileError α ← operation
  ofExcept .file result

/-- The text that bytes encode. -/
def decodeText (bytes : Array UInt8) : Except FileError String :=
  match String.fromUTF8? ⟨bytes⟩ with
  | some text => .ok text
  | none => .error .invalidData

/-- Reads a whole file. -/
def readBytes (read : FileReader m) (path : Path) : Job m (Array UInt8) :=
  during (.reading path) (access (read path))

/-- Reads a whole text. -/
def readText (read : FileReader m) (path : Path) : Job m String :=
  during (.reading path) do
    let bytes ← access (read path)
    ofExcept .file (decodeText bytes)

/-- Runs a job with an empty log; gives its result and its log. -/
def execute (job : Job m α) : m (Except Failure α × Log) :=
  job.run.run []

end Job

end Libretto
