import Fonds.CommandLine.Command

/-!
The program. It prints the output of a command, or says on the error stream why there is none.
-/
namespace Fonds

/-- What a failure of the disk means. -/
def FileError.ofFailure : IO.Error → FileError
  | .noFileOrDirectory _ _ _ | .noSuchThing _ _ _ => .missing
  | .alreadyExists _ _ _ => .alreadyThere
  | .inappropriateType _ 20 _ => .notADirectory
  | .inappropriateType _ 21 _ => .isADirectory
  | e => .other (toString e)

/-- Takes a failure of the disk for a result. -/
def attempt {α : Type} (action : IO α) : ExceptT FileError IO α := .mk do
  try
    return .ok (← action)
  catch e =>
    return .error (.ofFailure e)

/-- The file system of the machine. Where something is already, creating its path once more fails
unless it is a directory. -/
def FileSystem.onDisk : FileSystem IO where
  read path := attempt (IO.FS.readFile path)
  exists? path := .mk do
    match ← (attempt (IO.FS.Handle.mk path .read)).run with
    | .ok _ => return .ok true
    | .error .missing => return .ok false
    | .error e => return .error e
  write path text := attempt (IO.FS.writeFile path text)
  createDirectory path := .mk do
    match ← (attempt (IO.FS.createDir path)).run with
    | .error .alreadyThere => (attempt (IO.FS.createDirAll path)).run
    | result => return result

end Fonds

def main (args : List String) : IO UInt32 := do
  match Fonds.Command.ofArguments args with
  | .error e =>
    IO.eprintln e.message
    return 2
  | .ok command =>
    match ← (command.run Fonds.FileSystem.onDisk).run with
    | .ok output =>
      IO.print output
      return 0
    | .error e =>
      IO.eprintln e.message
      return 1
