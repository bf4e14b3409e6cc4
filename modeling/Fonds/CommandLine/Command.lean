import Fonds.CommandLine.Files
import Fonds.Plan.OfRequest
import Fonds.Settings.Load
import Fonds.Settings.Schema

/-!
The commands: writing the settings to start from, and printing the plan of a request.
-/
namespace Fonds

inductive Command where
  /-- Writes settings and their schema to a directory. -/
  | setUp (dir : String)
  /-- Prints the plan of the request in a file, with the settings in a directory. -/
  | translate (settingsDir : String) (kind : Kind) (requestFile : String)

/-- Why a command fails. -/
inductive CommandError where
  | alreadyThere (path : String)
  /-- Whether there are settings already cannot be found out. -/
  | notReached (error : FileError)
  | notWritten (error : FileError)
  | settings (path : String) (error : LoadError)
  | requestMissing (path : String)
  | requestNotJson (path : String)
  | refused (refusal : Refusal)

/-- Why arguments are no command. -/
inductive UsageError where
  | unknownCommand
  | unknownArgument (argument : String)
  | missingArgument
  | unknownKind (kind : String)
  deriving DecidableEq

namespace Refusal

def message : Refusal → String
  | .request e => e.message
  | .plan e => e.message

end Refusal

namespace CommandError

def message : CommandError → String
  | .alreadyThere path => s!"{path} already exists, refusing to overwrite it"
  | .notReached e => e.message
  | .notWritten e => "I/O error: " ++ e.message
  | .settings path .missing => s!"cannot read {path}"
  | .settings path .unreadable => s!"{path} does not hold settings"
  | .settings _ (.refused e) => e.message
  | .requestMissing path => s!"reading {path}"
  | .requestNotJson path => s!"parsing {path}"
  | .refused r => r.message

end CommandError

namespace UsageError

def message : UsageError → String
  | .unknownCommand => "expected one of the commands initialize and translate"
  | .unknownArgument argument => s!"unexpected argument {argument}"
  | .missingArgument => "a required argument is missing"
  | .unknownKind kind => s!"{kind} is not one of select, insert, update or delete"

end UsageError

namespace Command

def settingsFile : String := "configuration.json"

def schemaFile : String := "schema.json"

/-- The arguments of a translation seen so far. -/
structure TranslateArguments where
  settingsDir : Option String := none
  kind : Option Kind := none
  requestFile : Option String := none

def readKind (args : TranslateArguments) (name : String) : Except UsageError TranslateArguments :=
  match Kind.ofName? name with
  | some kind => .ok { args with kind := some kind }
  | none => .error (.unknownKind name)

/-- The rest of a text after a beginning, if it begins so. -/
def afterPrefix? (beginning text : String) : Option String :=
  if beginning.toList.isPrefixOf text.toList then
    some (String.ofList (text.toList.drop beginning.toList.length))
  else none

/-- Reads the arguments of a translation. An option has its value after an equals sign or as the
next argument. -/
def readArguments (args : TranslateArguments) : List String → Except UsageError TranslateArguments
  | [] => .ok args
  | ["--configuration"] | ["--kind"] => .error .missingArgument
  | "--configuration" :: value :: rest => readArguments { args with settingsDir := some value } rest
  | "--kind" :: value :: rest => do
    let args ← readKind args value
    readArguments args rest
  | arg :: rest => do
    match afterPrefix? "--configuration=" arg, afterPrefix? "--kind=" arg with
    | some value, _ => readArguments { args with settingsDir := some value } rest
    | none, some value => do
      let args ← readKind args value
      readArguments args rest
    | none, none =>
      if args.requestFile.isSome ∨ arg.toList.head? = some '-' then .error (.unknownArgument arg)
      else readArguments { args with requestFile := some arg } rest

/-- The command that arguments name. Settings are looked for in the working directory unless another
is named. -/
def ofArguments : List String → Except UsageError Command
  | ["initialize", dir] => .ok (.setUp dir)
  | "translate" :: rest => do
    let args ← readArguments {} rest
    match args.kind, args.requestFile with
    | some kind, some file => .ok (.translate (args.settingsDir.getD ".") kind file)
    | _, _ => .error .missingArgument
  | ["initialize"] => .error .missingArgument
  | "initialize" :: _ :: arg :: _ => .error (.unknownArgument arg)
  | _ => .error .unknownCommand

variable {m : Type → Type} [Monad m]

/-- Writes the settings to start from, unless the directory has settings already. -/
def runSetUp (files : FileSystem m) (dir : String) : ExceptT CommandError m String := do
  let path := joinPath dir settingsFile
  if ← (files.exists? path).adapt .notReached then
    throw (.alreadyThere path)
  let written : ExceptT FileError m Unit := do
    files.createDirectories dir
    files.write path Settings.initial.text
    files.write (joinPath dir schemaFile) (Settings.schema.indented ++ "\n")
  written.adapt .notWritten
  return ""

/-- The output of a translation, from the texts of both files. Settings are looked at first. -/
def translation (settingsPath : String) (settings : Option String) (kind : Kind)
    (requestFile : String) (request : Option String) : Except CommandError String := do
  let configuration ← (Configuration.load settings).mapError (.settings settingsPath)
  match request with
  | none => .error (.requestMissing requestFile)
  | some text =>
    match Json.parse? text with
    | none => .error (.requestNotJson requestFile)
    | some document => do
      let plan ← (Request.run configuration kind document).outcome.mapError .refused
      .ok (plan.toJson.indented ++ "\n")

/-- Runs a command; gives its output. A file that cannot be read counts as missing. -/
def run (files : FileSystem m) : Command → ExceptT CommandError m String
  | .setUp dir => runSetUp files dir
  | .translate settingsDir kind requestFile => do
    let path := joinPath settingsDir settingsFile
    let settings ← (files.read path).run
    let request ← (files.read requestFile).run
    .mk (pure (translation path settings.toOption kind requestFile request.toOption))

end Command

end Fonds
