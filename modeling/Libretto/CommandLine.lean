/-
The command line.

    build INPUT OUTPUT [--opcodes FILE] [--disasm] [--emit-inc]
    info FILE [--opcodes FILE]
    help [COMMAND]

`-v` may be given anywhere, and more than once; counts behind the command replace those in front of
it. Behind `--` nothing is an option. Arguments take effect from left to right, but a value only
when the argument behind it is known: so an unknown option is reported rather than a faulty value in
front of it.

* **`CommandLine.parse`** — what a list of arguments asks for, or why it is refused.
-/
import Libretto.Log
import Libretto.Path

namespace Libretto.CommandLine

/-- Why arguments are refused, or what else they ask for. -/
inductive UsageError where
  /-- Nothing is asked for at all. -/
  | nothing
  | help
  | version
  | missingCommand
  | unknownCommand
  | missingArgument
  | unknownArgument
  | invalidValue
  /-- An option is given twice. -/
  | repeated
  /-- An option that takes no value has one. -/
  | unexpectedValue
  deriving DecidableEq, Repr

/-- The options of a build. -/
structure BuildOptions where
  input : Path
  output : Path
  opcodes : Option Path
  listings : Bool
  definitions : Bool
  deriving DecidableEq, Repr

/-- What the arguments ask for. -/
inductive Command where
  | build (options : BuildOptions)
  | info (file : Path) (opcodes : Option Path)
  deriving DecidableEq, Repr

/-- A command, and how often more output is asked for. -/
structure Invocation where
  command : Command
  verbose : Nat
  deriving DecidableEq, Repr

/-- The log threshold of a command line. -/
def Invocation.level (invocation : Invocation) : Level :=
  match invocation.verbose with
  | 0 => .warn
  | 1 => .info
  | 2 => .debug
  | _ => .trace

/-- The greatest count of `-v`. -/
def maxVerbose : Nat := 255

/-- The names of commands. -/
inductive CommandName where
  | build
  | info
  deriving DecidableEq, Repr

namespace CommandName

/-- The command of a name. -/
def ofText? : String → Option CommandName
  | "build" => some build
  | "info" => some info
  | _ => none

/-- The number of arguments that are no options. -/
def arity : CommandName → Nat
  | build => 2
  | info => 1

end CommandName

/-! ### Single arguments -/

/-- What an argument is by its form. -/
inductive Argument where
  /-- Two dashes by themselves. -/
  | separator
  | long (name : String) (value : Option String)
  | shorts (letters : List Char)
  | plain (text : String)
  deriving DecidableEq, Repr

/-- Splits an argument by its form. A single dash is plain. -/
def Argument.ofText (text : String) : Argument :=
  match text.toList with
  | ['-', '-'] => separator
  | '-' :: '-' :: rest =>
    let name := rest.takeWhile (· ≠ '=')
    let value := match rest.drop name.length with
      | [] => none
      | _ :: value => some (String.ofList value)
    long (.ofList name) value
  | '-' :: c :: rest => shorts (c :: rest)
  | _ => plain text

/-! ### Behind the command -/

/-- A value whose argument is read but has not taken effect. -/
inductive Pending where
  | nothing
  | operand (text : String)
  /-- The value of the option for opcode definitions, once it is read. -/
  | opcodes (text : Option String)
  deriving DecidableEq, Repr

/-- What the arguments behind a command have said. -/
structure Settings where
  operands : List String
  opcodes : Option String
  listings : Bool
  definitions : Bool
  verbose : Nat
  pending : Pending
  deriving DecidableEq, Repr

namespace Settings

/-- In front of the first argument. -/
def start : Settings := ⟨[], none, false, false, 0, .nothing⟩

/-- A value that an argument gives; an empty one is refused. -/
def checkValue (text : String) : Except UsageError String :=
  if text.isEmpty then .error .invalidValue else .ok text

/-- The option for opcode definitions takes effect. -/
def setOpcodes (s : Settings) (text : String) : Except UsageError Settings := do
  if s.opcodes.isSome then throw .repeated
  return { s with opcodes := some (← checkValue text) }

/-- The pending value takes effect. -/
def settle (s : Settings) : Except UsageError Settings := do
  let settled := { s with pending := .nothing }
  match s.pending with
  | .nothing => return settled
  | .operand text => return { settled with operands := s.operands ++ [← checkValue text] }
  | .opcodes none => throw .invalidValue
  | .opcodes (some text) => settled.setOpcodes text

/-- A further `-v`. -/
def addVerbose (s : Settings) : Settings :=
  { s with verbose := min maxVerbose (s.verbose + 1) }

/-- An argument that is no option. -/
def addOperand (command : CommandName) (s : Settings) (text : String) :
    Except UsageError Settings := do
  let count := s.operands.length + match s.pending with
    | .operand _ => 1
    | _ => 0
  if command.arity ≤ count then throw .unknownArgument
  return { ← s.settle with pending := .operand text }

/-- An option that takes no value. -/
def addFlag (s : Settings) (value : Option String)
    (effect : Settings → Except UsageError Settings) : Except UsageError Settings := do
  if value.isSome then throw .unexpectedValue
  effect (← s.settle)

/-- A long option. -/
def addLong (command : CommandName) (s : Settings) (name : String) (value : Option String) :
    Except UsageError Settings :=
  match name, command with
  | "help", _ => s.addFlag value fun _ => throw .help
  | "verbose", _ => s.addFlag value fun s => return s.addVerbose
  | "opcodes", _ => do
    let s ← s.settle
    match value with
    | none => return { s with pending := .opcodes none }
    | some text => s.setOpcodes text
  | "disasm", .build =>
    s.addFlag value fun s =>
      if s.listings then throw .repeated else return { s with listings := true }
  | "emit-inc", .build =>
    s.addFlag value fun s =>
      if s.definitions then throw .repeated else return { s with definitions := true }
  | _, _ => throw .unknownArgument

/-- The letters of short options. -/
def addShorts (s : Settings) : List Char → Except UsageError Settings
  | [] => .ok s
  | 'v' :: rest => do (← s.settle).addVerbose.addShorts rest
  | 'h' :: _ => do
    let _ ← s.settle
    throw .help
  | _ => .error .unknownArgument

/-- The arguments behind a command, one by one. -/
def addAll (command : CommandName) (s : Settings) : List String → Except UsageError Settings
  | [] => s.settle
  | text :: rest =>
    match Argument.ofText text with
    | .separator => do
      let s ← rest.foldlM (addOperand command) s
      s.settle
    | .long name value => do (← s.addLong command name value).addAll command rest
    | .shorts letters => do (← s.addShorts letters).addAll command rest
    | .plain text => do
      let s ← match s.pending with
        | .opcodes none => .ok { s with pending := .opcodes (some text) }
        | _ => s.addOperand command text
      s.addAll command rest

/-- The command that the arguments describe. -/
def command (name : CommandName) (s : Settings) : Except UsageError Command :=
  let opcodes := s.opcodes.map Path.mk
  match name, s.operands with
  | .build, [input, output] => .ok (.build ⟨⟨input⟩, ⟨output⟩, opcodes, s.listings, s.definitions⟩)
  | .info, [file] => .ok (.info ⟨file⟩ opcodes)
  | _, _ => .error .missingArgument

end Settings

/-! ### In front of the command -/

/-- A request for help about commands; they have to exist. -/
def parseHelp : List String → UsageError
  | [] => .help
  | [name] => if name = "help" || (CommandName.ofText? name).isSome then .help else .unknownCommand
  | _ => .unknownCommand

/-- A command and the arguments behind it. A count of `-v` behind the command replaces the one in
front of it. -/
def parseCommand (name : CommandName) (verbose : Nat) (rest : List String) :
    Except UsageError Invocation := do
  let settings ← Settings.start.addAll name rest
  let command ← settings.command name
  return ⟨command, if settings.verbose = 0 then verbose else settings.verbose⟩

/-- The letters of short options in front of a command; gives the new count of `-v`. -/
def parseShorts (verbose : Nat) : List Char → Except UsageError Nat
  | [] => .ok verbose
  | 'v' :: rest => parseShorts (min maxVerbose (verbose + 1)) rest
  | 'h' :: _ => .error .help
  | 'V' :: _ => .error .version
  | _ => .error .unknownArgument

/-- A long option in front of a command; gives the new count of `-v`. -/
def parseLong (verbose : Nat) (name : String) (value : Option String) : Except UsageError Nat :=
  match name, value with
  | "help", none => .error .help
  | "version", none => .error .version
  | "verbose", none => .ok (min maxVerbose (verbose + 1))
  | "help", some _ | "version", some _ | "verbose", some _ => .error .unexpectedValue
  | _, _ => .error .unknownArgument

/-- No command was given. -/
def withoutCommand (verbose : Nat) : UsageError :=
  if verbose = 0 then .nothing else .missingCommand

/-- The arguments from the first one on that is not yet read. -/
def parseFrom (verbose : Nat) : List String → Except UsageError Invocation
  | [] => .error (withoutCommand verbose)
  | text :: rest =>
    match Argument.ofText text with
    | .separator =>
      -- a command is not recognised here any more
      match rest with
      | [] => .error (withoutCommand verbose)
      | name :: _ =>
        .error (if name = "help" || (CommandName.ofText? name).isSome then .unknownArgument
          else .unknownCommand)
    | .long name value => do parseFrom (← parseLong verbose name value) rest
    | .shorts letters => do parseFrom (← parseShorts verbose letters) rest
    | .plain name =>
      match CommandName.ofText? name with
      | some command => parseCommand command verbose rest
      | none => .error (if name = "help" then parseHelp rest else .unknownCommand)

/-- What the arguments ask for. -/
def parse (arguments : List String) : Except UsageError Invocation :=
  parseFrom 0 arguments

end Libretto.CommandLine
