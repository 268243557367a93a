/-
The program.

It does what its arguments ask for: listings go to the standard output, messages of the log and
failures to the standard error. It ends with 0 if all went well, with 1 if the work failed, and with
2 if the arguments were refused.
-/
import Libretto.Build

namespace Libretto

open CommandLine (UsageError)

/-- The cause of a failed operation on a real file. -/
def FileError.ofSystem : IO.Error → FileError
  | .noFileOrDirectory .. => notFound
  | .alreadyExists .. => alreadyExists
  | error => other (toString error)

/-- Runs an operation on the real file at a path. -/
def attempt {α : Type} (path : Path) (operation : IO α) : IO (Except FileError α) := do
  if path.hasNull then return .error .nullInPath
  try
    return .ok (← operation)
  catch error =>
    return .error (.ofSystem error)

/-- The files of the system. -/
def systemFiles : FileSystem IO where
  read path := attempt path do
    return (← IO.FS.readBinFile path.text).data
  write path bytes := attempt path (IO.FS.writeBinFile path.text ⟨bytes⟩)
  createDirectories path := attempt path (IO.FS.createDirAll path.text)

/-- How the program is called. -/
def usage : String :=
  "usage: libretto build INPUT OUTPUT [--opcodes FILE] [--disasm] [--emit-inc] [-v]\n" ++
  "       libretto info FILE [--opcodes FILE] [-v]\n"

/-- What is wrong with refused arguments. -/
def CommandLine.UsageError.message : UsageError → String
  | nothing | help | version => ""
  | missingCommand => "a command is missing"
  | unknownCommand => "no such command"
  | missingArgument => "an argument is missing"
  | unknownArgument => "unexpected argument"
  | invalidValue => "an argument has no usable value"
  | repeated => "an option is given twice"
  | unexpectedValue => "an option takes no value"

/-- Answers arguments that ask for no command. -/
def refuse (error : UsageError) : IO UInt32 := do
  match error with
  | .help =>
    IO.print usage
    return 0
  | .version =>
    IO.println "libretto 0.1.0"
    return 0
  | .nothing =>
    IO.eprint usage
    return 2
  | error =>
    IO.eprint ("error: " ++ error.message ++ "\n\n" ++ usage)
    return 2

/-- Does what arguments ask for. -/
def serve (arguments : List String) : IO UInt32 := do
  match CommandLine.parse arguments with
  | .error error => refuse error
  | .ok invocation =>
    let (result, log) ← (invocation.run systemFiles).execute
    for entry in log.atLeast invocation.level do
      IO.eprintln entry.line
    match result with
    | .ok text =>
      IO.print text
      return 0
    | .error failure =>
      IO.eprintln ("Error: " ++ ": ".intercalate failure.links)
      return 1

end Libretto

/-- The program. -/
def main (arguments : List String) : IO UInt32 :=
  Libretto.serve arguments
